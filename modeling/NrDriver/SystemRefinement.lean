import NrDriver.BufferBounds
import NrDriver.Routing
import Mathlib.Data.List.Induction

/-!
# Every device of the system is a transfer machine

The world of many devices, seen at one record, is the transfer machine: from the
state that `nr_probe` leaves for the first two interrupt endpoints of a device that
was plugged at the record's interface, through a run of its own. What holds on all
runs of the transfer machine therefore holds of each device at any time
(`device_invariant`), among it that no transfer or copy leaves the two buffers.

A record that was released keeps its number and its contents here, as in
`DeviceWorld`. So the results are about the code only while no released record
is touched; `RecordLifetime` says when that is.
-/
namespace NrDriver.SystemRefinement
open KernelModel TransferSteps ProbeModel ProbeOutcome DeviceWorld LabelledRuns Routing
open TransferBounds (Bounds bounds_probed)
open BufferBounds (Contained contained_of_bounds)

/-- The moves so far probe the interface for a list whose first interrupt
endpoints are these. -/
def ProbedFor (host : Host) (ms : List Move) (i : ℕ) (epIn epOut : EndpointDescriptor) : Prop :=
  ∃ endpoints, .probe i endpoints ∈ ms ∧ endpoints.find? (host.isInt .input) = some epIn ∧
    endpoints.find? (host.isInt .output) = some epOut

theorem ProbedFor.mono {host : Host} {ms : List Move} {i : ℕ} {epIn epOut : EndpointDescriptor}
    (h : ProbedFor host ms i epIn epOut) (more : List Move) :
    ProbedFor host (ms ++ more) i epIn epOut := by
  obtain ⟨endpoints,hmem,hfound⟩ := h
  exact ⟨endpoints,List.mem_append_left _ hmem,hfound⟩

/-- The device of the record went through its own labels, from its probe on. -/
def Refines (host : Host) (ms : List Move) (r : ℕ) (c : Cell) : Prop :=
  ∃ epIn epOut memIn memOut, ProbedFor host ms c.home epIn epOut ∧
    run TransferSteps.step (.opened epIn epOut memIn memOut) (ownRun host r .start ms) =
      some c.device

section
variable {host : Host} {w w' : World} {ms : List Move} {r : ℕ} {c : Cell}

theorem probe_refines {i : ℕ} {endpoints : List EndpointDescriptor}
    (hs : w.probe host i endpoints = some w') (hc : w'.record r = some c)
    (hnew : w.record r ≠ some c) :
    ∃ epIn epOut memIn memOut, c = ⟨.opened epIn epOut memIn memOut,i⟩ ∧
      endpoints.find? (host.isInt .input) = some epIn ∧
        endpoints.find? (host.isInt .output) = some epOut := by
  unfold World.probe at hs
  split at hs
  case h_2 => cases hs
  rcases w.kernel.request_cases host .record with hr | hr
  · rw [hr] at hs
    have hend := buildNr_ends host endpoints stable_true
      (s := ⟨.kzalloc w.kernel.requests,w.kernel.grant .record⟩) trivial rfl
    cases hb : buildNr host endpoints ⟨.kzalloc w.kernel.requests,w.kernel.grant .record⟩ with
    | error s =>
        simp only [hb] at hs
        cases hs
        exact (hnew hc).elim
    | ok s =>
        rw [hb] at hend
        simp only [hb] at hs
        obtain ⟨nr,hnr,rfl⟩ := Option.map_eq_some_iff.mp hs
        obtain ⟨epIn,epOut,bufIn,bufOut,hin,hout,_,_,_,_,hprobed⟩ := Built.nr hend.2
        rw [hnr] at hprobed
        cases hprobed
        rcases update_some_cases hc with ⟨_,he⟩ | ⟨_,hold⟩
        · cases he
          exact ⟨epIn,epOut,_,_,rfl,hin,hout⟩
        · exact (hnew hold).elim
  · rw [hr] at hs
    cases hs
    exact (hnew hc).elim

theorem record_old {m : Move} (hs : move host w m = some w')
    (hm : ∀ i endpoints, m ≠ .probe i endpoints) (hr : w'.record r ≠ none) : w.record r ≠ none := by
  have updated {q : ℕ} {e : Cell} {d : Device} (hq : w.record q = some e)
      (hr : Function.update w.record q (some { e with device := d }) r ≠ none) :
      w.record r ≠ none := by
    by_cases hrq : r = q
    · simp [hrq,hq]
    · rwa [Function.update_of_ne hrq] at hr
  cases m with
  | probe i endpoints => exact (hm i endpoints rfl).elim
  | probeStep i =>
      simp only [move,World.probeStep] at hs
      split at hs
      all_goals cases hs
      all_goals exact hr
  | disconnect i =>
      simp only [move,World.disconnect] at hs
      split at hs
      all_goals try split_ifs at hs
      all_goals cases hs
      all_goals exact hr
  | beginOpen i =>
      cases hs
      exact hr
  | openStep f =>
      simp only [move,World.openStep] at hs
      split at hs
      · cases hs
      · split at hs
        case h_4 dev v _ =>
            obtain ⟨e,he,rfl⟩ := Option.map_eq_some_iff.mp hs
            exact updated he hr
        all_goals cases hs
        all_goals exact hr
  | close f =>
      simp only [move,World.close] at hs
      split at hs
      · cases hs
      · split_ifs at hs
        cases hs
        exact hr
  | beginRead f t count ppos | beginWrite f t payload =>
      simp only [move,World.beginCall] at hs
      split at hs
      · cases hs
      · split at hs
        · obtain ⟨e,he,hs⟩ := Option.bind_eq_some_iff.mp hs
          obtain ⟨e',_,rfl⟩ := Option.map_eq_some_iff.mp hs
          exact updated he hr
        · cases hs
  | device q l =>
      simp only [move,World.deviceStep] at hs
      split_ifs at hs
      obtain ⟨e,he,hs⟩ := Option.bind_eq_some_iff.mp hs
      obtain ⟨e',_,rfl⟩ := Option.map_eq_some_iff.mp hs
      exact updated he hr

theorem ownRun_snoc {m : Move} (hrun : run (move host) .start ms = some w)
    (hs : move host w m = some w') :
    ownRun host r .start (ms ++ [m]) = ownRun host r .start ms ++ ownLabels w r m :=
  recorded_snoc hrun hs

theorem world_refines (hrun : run (move host) .start ms = some w) :
    (w.record r = none → ownRun host r .start ms = []) ∧
      ∀ c, w.record r = some c → Refines host ms r c := by
  induction ms using List.reverseRecOn generalizing w with
  | nil =>
      cases hrun
      refine ⟨fun _ => rfl,fun c hc => ?_⟩
      cases hc
  | append_singleton ms m ih =>
      rw [run_append] at hrun
      obtain ⟨v,hv,hm⟩ := Option.bind_eq_some_iff.mp hrun
      have hs : move host v m = some w := run_singleton hm
      obtain ⟨hunborn,hrefines⟩ := ih hv
      have hpast := (routed_run hv).past r
      rw [ownRun_snoc hv hs]
      cases hold : v.record r with
      | none =>
          have hnone : ownRun host r .start ms ++ ownLabels v r m = [] := by
            rw [hunborn hold,ownLabels_unborn hold hs,List.nil_append]
          refine ⟨fun _ => hnone,fun c hc => ?_⟩
          have hnew : v.record r ≠ some c := by simp [hold]
          cases m with
          | probe i endpoints =>
              obtain ⟨epIn,epOut,memIn,memOut,rfl,hin,hout⟩ := probe_refines hs hc hnew
              refine ⟨epIn,epOut,memIn,memOut,⟨endpoints,by simp,hin,hout⟩,?_⟩
              rw [ownRun_snoc hv hs,hnone,run_nil]
          | _ => exact (record_old hs (by simp) (by simp [hc]) hold).elim
      | some e =>
          obtain ⟨epIn,epOut,memIn,memOut,hprobed,hls⟩ := hrefines e hold
          obtain ⟨d,hd,_,hfollows⟩ :=
            follows_move (d := e.device) ⟨hpast (by simp [hold]),hold⟩ hs
          refine ⟨fun hnone => by simp [hfollows] at hnone,fun c hc => ?_⟩
          rw [hc] at hfollows
          cases hfollows
          refine ⟨epIn,epOut,memIn,memOut,hprobed.mono [m],?_⟩
          rw [ownRun_snoc hv hs,run_append,hls]
          exact hd

/-- The labels of the record are made where `P` holds of its device. -/
def OnRecord (r : ℕ) (P : Device → Label → Prop) (w : World) (m : Move) : Prop :=
  ∀ c ∈ w.record r, ∀ l ∈ ownLabels w r m, P c.device l

instance (P : Device → Label → Prop) [∀ d l, Decidable (P d l)] (w : World) (m : Move) :
    Decidable (OnRecord r P w m) :=
  inferInstanceAs (Decidable (∀ c ∈ w.record r, ∀ l ∈ _, P c.device l))

/-- The invariant rule for the device of one record. -/
theorem device_invariant {I : Device → Prop} {P : Device → Label → Prop}
    (hstart : ∀ epIn epOut memIn memOut, I (.opened epIn epOut memIn memOut))
    (hstep : ∀ d l d', I d → P d l → TransferSteps.step d l = some d' → I d')
    (hP : Along (move host) (OnRecord r P) .start ms) (hrun : run (move host) .start ms = some w)
    (hc : w.record r = some c) : I c.device := by
  have hkept : Routed w.kernel w.slot w.record w.files ∧
      ∀ c, w.record r = some c → I c.device := by
    refine run_invariant (P := OnRecord r P)
      (I := fun w => Routed w.kernel w.slot w.record w.files ∧
        ∀ c, w.record r = some c → I c.device)
      (fun v m u hI hm hs => ⟨hI.1.move hs,fun c hc => ?_⟩) ⟨.start,fun c hc => ?_⟩ hP hrun
    · cases hold : v.record r with
      | none =>
          cases m with
          | probe i endpoints =>
              obtain ⟨epIn,epOut,memIn,memOut,rfl,_⟩ := probe_refines hs hc (by simp [hold])
              exact hstart epIn epOut memIn memOut
          | _ => exact (record_old hs (by simp) (by simp [hc]) hold).elim
      | some e =>
          obtain ⟨d,hd,_,hfollows⟩ :=
            follows_move (d := e.device) ⟨hI.1.past r (by simp [hold]),hold⟩ hs
          rw [hc] at hfollows
          cases hfollows
          have hlabels := hm e hold
          rcases ownLabels_cases v r m with hnone | ⟨l,hone⟩
          · rw [hnone] at hd
            cases hd
            exact hI.2 e hold
          · rw [hone] at hd hlabels
            exact hstep e.device l d (hI.2 e hold) (hlabels l (List.mem_singleton_self l))
              (run_singleton hd)
    · cases hc
  exact hkept.2 c hc

end

/-- At any time, each device is where its own labels lead from a probe of its
interface, whatever happens to the others, and stays within the buffers that this
probe allocated. A record that was released goes on in the model only. -/
theorem devices_refine (host : Host) {ms : List Move} {w : World}
    (hrun : run (move host) .start ms = some w) {r : ℕ} {c : Cell} (hc : w.record r = some c) :
    ∃ epIn epOut memIn memOut, ProbedFor host ms c.home epIn epOut ∧
      run TransferSteps.step (.opened epIn epOut memIn memOut) (ownRun host r .start ms) =
        some c.device ∧ Contained epIn.packetSize epOut.packetSize c.device := by
  obtain ⟨epIn,epOut,memIn,memOut,hprobed,hls⟩ := (world_refines hrun).2 c hc
  have hbounds : Bounds epIn epOut c.device := (bounds_probed epIn epOut memIn memOut).run hls
  exact ⟨epIn,epOut,memIn,memOut,hprobed,hls,contained_of_bounds hbounds⟩

theorem read_beside_write_refines :
    ∃ w ∈ run (move (canHost fun _ => 0)) .start readBesideWrite, ∃ c ∈ w.record 7,
      c.home = 1 ∧ ownRun (canHost fun _ => 0) 7 .start readBesideWrite =
        [.openWrite .lenInBuffer,.openWrite .ongoingRead,.openWrite .outgoingWrite,
          .beginWrite 4 1 [],.run 4 0,.run 4 0] ∧ ∃ epIn epOut memIn memOut,
        ProbedFor (canHost fun _ => 0) readBesideWrite c.home epIn epOut ∧
          run TransferSteps.step (.opened epIn epOut memIn memOut)
            (ownRun (canHost fun _ => 0) 7 .start readBesideWrite) = some c.device ∧
          Contained epIn.packetSize epOut.packetSize c.device := by
  obtain ⟨w,hw,c,hc,hhome,hown⟩ : ∃ w ∈ run (move (canHost fun _ => 0)) .start readBesideWrite,
      ∃ c ∈ w.record 7, c.home = 1 ∧ ownRun (canHost fun _ => 0) 7 .start readBesideWrite =
        [.openWrite .lenInBuffer,.openWrite .ongoingRead,.openWrite .outgoingWrite,
          .beginWrite 4 1 [],.run 4 0,.run 4 0] := by decide
  exact ⟨w,hw,c,hc,hhome,hown,devices_refine _ hw hc⟩

end NrDriver.SystemRefinement
