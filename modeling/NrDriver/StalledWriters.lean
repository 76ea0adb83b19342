import NrDriver.IdleThreads
import NrDriver.PayloadIntegrity

/-!
# Writers that wait for each other's transfer

One flag serves all writers. A completion clears it, and before the woken
writer tests it again another call may set it: the writer then goes back to
sleep and depends on the transfer of that call. A refused submission leaves the
flag set, so that no completion follows and the sleeper is not woken.

On runs where a submission is refused only while nobody waits, a waiting writer
that finds the flag set has the URB in flight or a call that is about to submit
it (`Served`). Signals, faults and further opens are unrestricted.
-/
namespace NrDriver.StalledWriters
open KernelModel TransferSteps WriteHalfSteps WriterExclusion PayloadIntegrity IdleThreads
  LabelledRuns

/-- Some writer waits with the flag set, no completion will come, and every
thread inside `nr_write` is blocked in the same wait. -/
def Stalled (s : Device) : Prop :=
  s.nr.outgoingWrite = true ∧ s.nr.intOutUrb.flight = none ∧
    (∃ t pc, writerAt s t = some pc ∧ waiting pc = true) ∧
    ∀ t pc, writerAt s t = some pc → waiting pc = true

/-- The thread does not wait when this step is a submission that the USB core
refuses although the URB is not in flight, and that leaves the flag set. -/
def SparedRefusal (s : Device) (l : Label) (u : ℕ) : Prop :=
  match l with
  | .run t k => writerAt s t = some .submit ∧ k ≠ 0 ∧ s.nr.outgoingWrite = true ∧
      s.nr.intOutUrb.flight = none → ∀ pc ∈ writerAt s u, waiting pc = false
  | _ => True

instance (s : Device) (l : Label) (u : ℕ) : Decidable (SparedRefusal s l u) :=
  match l with
  | .run .. => inferInstanceAs (Decidable (_ → _))
  | .beginRead .. | .beginWrite .. | .openWrite _ | .signal _ | .inCompletes .. | .outTakes
  | .outCompletes .. => isTrue trivial

/-- No submission is refused while another writer waits for the flag it set. -/
def RefusedAlone (s : Device) (l : Label) : Prop := ∀ u, SparedRefusal s l u

/-- A waiting writer that would find the flag set has a completion to come. -/
def Served (v : WriteHalf) : Prop :=
  ∀ t c, v.call t = some c → waiting c.pc = true → v.outgoing = true → v.urb.flight = none →
    ∃ u d, v.call u = some d ∧ d.pc = .submit

namespace Served
variable {v v' : WriteHalf} {a : WriteAct}

/-- A statement that neither begins a wait nor submits. -/
theorem of_call (h : Served v) {t : ℕ} {c : WriteCall} {b : Option WriteCall}
    (hc : v.call t = some c) (hcall : v'.call = Function.update v.call t b)
    (hout : v'.outgoing = v.outgoing) (hf : v'.urb.flight = v.urb.flight) (hpc : c.pc ≠ .submit)
    (hb : ∀ c', b = some c' → waiting c'.pc = true → waiting c.pc = true) : Served v' := by
  intro u d hd hwait hon hnone
  rw [hcall] at hd
  rw [hout] at hon
  rw [hf] at hnone
  have hserved : ∃ w e, v.call w = some e ∧ e.pc = .submit := by
    rcases update_some_cases hd with ⟨_,hnew⟩ | ⟨_,hold⟩
    · exact h t c hc (hb d hnew hwait) hon hnone
    · exact h u d hold hwait hon hnone
  obtain ⟨w,e,he,hpe⟩ := hserved
  have hw : w ≠ t := by
    intro hwt
    subst hwt
    rw [hc] at he
    cases he
    exact hpc hpe
  exact ⟨w,e,by simp [hcall,hw,he],hpe⟩

theorem step (h : Served v)
    (hrefused : ∀ t k c, a = .run t k → v.call t = some c → c.pc = .submit →
      v.outgoing = true → v.urb.flight = none → v'.urb.flight = none →
        ∀ u d, v.call u = some d → waiting d.pc = false)
    (hs : WriteHalf.Step v a v') : Served v' := by
  cases hs with
  | begins t filp payload hidle =>
      intro u d hd hwait hon hnone
      rcases update_some_cases hd with ⟨_,hnew⟩ | ⟨_,hold⟩
      · cases hnew
        simp [WriteCall.start,waiting] at hwait
      · obtain ⟨w,e,he,hpe⟩ := h u d hold hwait hon hnone
        have hw : w ≠ t := by
          intro hwt
          subst hwt
          simp [hidle] at he
        exact ⟨w,e,by simp [hw,he],hpe⟩
  | rejects hc hpc | accepts hc hpc | copies hc hpc | faults hc hpc | fills hc hpc =>
      exact h.of_call hc rfl rfl rfl (by simp [hpc]) (by simp [waiting])
  | waitEnds hc hpc | returns hc hpc =>
      exact h.of_call hc rfl rfl rfl (by simp [hpc]) (by simp [waiting])
  | sleeps hc hpc =>
      exact h.of_call hc rfl rfl rfl (by simp [hpc]) (by simp [hpc,waiting])
  | interrupted hc hpc | signalLate hc hpc =>
      refine h.of_call hc rfl rfl rfl ?_ (by simp [waiting])
      rcases hpc with hpc | hpc <;> simp [hpc]
  | @sets t k c hc hpc =>
      -- whoever waits is served by the call that is now about to submit
      intro u d hd hwait hon hnone
      exact ⟨t,{ c with pc := .submit },by simp,rfl⟩
  | submits hc hpc hf =>
      intro u d hd hwait hon hnone
      cases hnone
  | @refused t k c code hc hpc hcode =>
      intro u d hd hwait hon hnone
      rcases update_some_cases hd with ⟨_,hnew⟩ | ⟨_,hold⟩
      · cases hnew
        simp [waiting] at hwait
      · simp [hrefused t k c rfl hc hpc hon hnone hnone u d hold] at hwait
  | takes hf =>
      intro u d hd hwait hon hnone
      cases hnone
  | completes status hf hlen =>
      intro u d hd hwait hon
      cases hon
  | opens =>
      intro u d hd hwait hon
      cases hon

end Served

theorem flight_of_accepted {s s' : Device} {t : ℕ} (hpc : writerAt s t = some .submit)
    (hf : s.nr.intOutUrb.flight = none) (hs : step s (.run t 0) = some s') :
    s'.nr.intOutUrb.flight ≠ none := by
  obtain ⟨c,hc,hsub⟩ := call_of_writerAt hpc
  have hj := job_of_writeCall hc
  simp only [step,hj,runWrite,hsub,writeStep,usbSubmitUrb,hf,reduceCtorEq,if_false,
    Option.isSome_none,Bool.false_eq_true,if_true,Option.map_some,Option.some.injEq] at hs
  subst hs
  simp

theorem served_step {s s' : Device} {l : Label} (h : Served (writeHalf s)) (hP : RefusedAlone s l)
    (hs : step s l = some s') : Served (writeHalf s') := by
  refine writeHalf_kept h hs fun a ha hw => h.step ?_ hw
  intro t k c hact hc hpc hon hf hnone u d hd
  subst hact
  obtain rfl : l = .run t k := label_of_writeAct ha
  have hsub : writerAt s t = some .submit := by rw [writerAt_of_call hc,hpc]
  have hk : k ≠ 0 := by
    intro hk
    subst hk
    exact flight_of_accepted hsub hf hs hnone
  exact hP u ⟨hsub,hk,hon,hf⟩ d.pc (writerAt_of_call hd)

/-- No writer is left asleep on a flag that nobody will clear. -/
theorem no_writer_stalled (epIn epOut : EndpointDescriptor) (memIn memOut : ℕ → Byte)
    {ls : List Label} {s : Device}
    (hrun : run step (.opened epIn epOut memIn memOut) ls = some s)
    (hrefused : Along step RefusedAlone (.opened epIn epOut memIn memOut) ls) : ¬ Stalled s := by
  have hserved : Served (writeHalf s) := by
    refine run_invariant (I := fun s => Served (writeHalf s))
      (fun _ _ _ hI hP hs => served_step hI hP hs) ?_ hrefused hrun
    intro t c hc
    cases hc
  intro hstalled
  obtain ⟨hon,hf,⟨t,pc,ht,hwait⟩,hall⟩ := hstalled
  obtain ⟨c,hc,rfl⟩ := call_of_writerAt ht
  obtain ⟨u,d,hd,hsub⟩ := hserved t c hc hwait hon hf
  have hblocked := hall u d.pc (writerAt_of_call hd)
  simp [hsub,waiting] at hblocked

theorem refusedAlone_of_oneWriter (epIn epOut : EndpointDescriptor) (memIn memOut : ℕ → Byte)
    (w : ℕ) {ls : List Label} (hone : ∀ l ∈ ls, oneWriter w l = true) :
    Along step RefusedAlone (.opened epIn epOut memIn memOut) ls := by
  refine along_invariant (I := fun s => SoleWriter w (writeHalf s))
    (P := fun _ l => oneWriter w l = true) (fun _ _ _ hI hP hs => soleWriter_step hI hP hs) ?_
    (fun _ _ => rfl) (.labels hone _)
  intro s l hS _ u
  have only {t : ℕ} {pc : WritePc} (ht : writerAt s t = some pc) : t = w := by
    obtain ⟨c,hc,_⟩ := call_of_writerAt ht
    by_contra hne
    simp [hS t hne] at hc
  cases l with
  | run t k =>
      intro hsub pc hpc
      obtain rfl := only hsub.1
      obtain rfl := only hpc
      rw [hsub.1] at hpc
      cases hpc
      rfl
  | _ => trivial

/-- Writer 1 has its submission refused before writer 0 starts, and again while
the URB of writer 0 is in flight. -/
def refusedBesideFlight : List Label :=
  [.beginWrite 1 1 [2],.run 1 0,.run 1 0,.run 1 0,.run 1 0,.run 1 12,.run 1 0,
    .beginWrite 0 0 [1],.run 0 0,.run 0 0,.run 0 0,.run 0 0,.run 0 0,.run 0 0,
    .beginWrite 1 1 [2],.run 1 0,.run 1 0,.run 1 0,.run 1 0,.run 1 12,.run 1 0]

theorem refused_beside_flight_not_stalled :
    ∃ s ∈ run step canDevice refusedBesideFlight, writerAt s 0 = some .asleep ∧
      writerAt s 1 = none ∧ ¬ Stalled s := by
  obtain ⟨s,hs,hpc,hout⟩ : ∃ s ∈ run step canDevice refusedBesideFlight,
    writerAt s 0 = some .asleep ∧ writerAt s 1 = none := by decide
  refine ⟨s,hs,hpc,hout,no_writer_stalled canIn canOut (fun _ => 0) (fun _ => 0) hs ?_⟩
  refine along_among (n := 2) ?_ (fun _ _ => rfl) (by decide) (by decide)
  intro s l t ht
  cases l with
  | run u k => simp [SparedRefusal,writerAt,ht]
  | _ => trivial

/-- The URB of writer 0 completes; before writer 0 tests the flag again, writer
1 sets it, and its submission is refused. -/
def refusedAfterCompletion : List Label :=
  [.beginWrite 0 0 [1],.run 0 0,.run 0 0,.run 0 0,.run 0 0,.run 0 0,.run 0 0,
    .outTakes,.outCompletes 0 1,
    .beginWrite 1 1 [2],.run 1 0,.run 1 0,.run 1 0,.run 1 0,.run 1 12,.run 1 0,.run 0 0]

/-- Writer 1 has returned, and writer 0, whose transfer is complete, sleeps. -/
theorem refused_after_completion_stalls :
    (∀ l ∈ refusedAfterCompletion, calm l = true) ∧
      ∃ s ∈ run step canDevice refusedAfterCompletion, writerAt s 0 = some .asleep ∧
        s.nr.outgoingWrite = true ∧ s.nr.intOutUrb.flight = none ∧
        (∀ t, t ≠ 0 → writerAt s t = none) ∧ Stalled s := by
  obtain ⟨s,hs,hpc,hout,hon,hf⟩ : ∃ s ∈ run step canDevice refusedAfterCompletion,
    writerAt s 0 = some .asleep ∧ writerAt s 1 = none ∧ s.nr.outgoingWrite = true ∧
      s.nr.intOutUrb.flight = none := by decide
  have hidle := run_among (n := 2) (s := canDevice) (fun _ _ => rfl) (by decide) hs
  have hothers (t : ℕ) (ht : t ≠ 0) : writerAt s t = none := by
    by_cases ht1 : t = 1
    · rw [ht1,hout]
    · simp [writerAt,hidle t (by omega)]
  refine ⟨by decide,s,hs,hpc,hon,hf,hothers,hon,hf,⟨0,_,hpc,rfl⟩,fun t pc ht => ?_⟩
  by_cases ht0 : t = 0
  · subst ht0
    rw [hpc] at ht
    cases ht
    rfl
  · simp [hothers t ht0] at ht

end NrDriver.StalledWriters
