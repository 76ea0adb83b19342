import NrDriver.SingleReader
import NrDriver.ReadHistory

/-!
# Copies that fault

`copy_to_user` reports how many bytes it did not copy. `nr_read` returns the
number of the others, zero if there are none, and clears the length in either
case: the bytes left in the buffer are never delivered. For one reader the
received stream is therefore kept, and every fault reported, exactly on the runs
without a fault.

One direction is the stream of `SingleReader`. For the other, the bytes that can
still reach a caller never exceed those received, and one faulting copy makes
the gap at least one for the rest of the run (`Short`).
-/
namespace NrDriver.FaultyCopies
open KernelModel TransferSteps ReadHalfSteps TransferBounds SingleReader ReadHistory LabelledRuns

/-- What was received is what was delivered, then what the buffer still holds. -/
def NothingLost (s : Device) : Prop :=
  deliveredBytes s.readLog ++ s.nr.intInBuffer.get s.nr.lenInBuffer = receivedBytes s.readLog

/-- A call that copied returns the number of bytes it copied, or an error when
it copied none. -/
def FaultsReported (s : Device) : Prop :=
  ∀ call filp count user (rs : ℤ) ppos, .returned call filp count user rs ppos ∈ s.readLog →
    ∀ bytes ∈ copiesOf call s.readLog, if bytes = [] then rs < 0 else rs = bytes.length

/-- How many bytes of the buffer can still reach a caller. -/
def remaining (len : ℕ) : Option ReadCall → ℕ
  | some c => if consuming c.pc = true then c.user.length else len
  | none => len

theorem remaining_of_quiet {len : ℕ} {c : ReadCall} (hpc : consuming c.pc = false) :
    remaining len (some c) = len := by
  simp [remaining,hpc]

theorem remaining_wake (n len : ℕ) (b : Option ReadCall) :
    remaining n (b.map ReadCall.wake) ≤ remaining len b + n := by
  cases b with
  | none => simp [remaining]
  | some c =>
      rcases ReadCall.wake_cases c with ⟨hs,he⟩ | ⟨_,he⟩
      · simp [remaining,he,hs,consuming]
      · by_cases hpc : consuming c.pc = true
        · simp [remaining,he,hpc]
        · simp [remaining,he,hpc]

/-- At least `d` of the bytes received will never be delivered. -/
def Short (d r : ℕ) (v : ReadHalf) : Prop :=
  (deliveredBytes v.log).length + (inHand (v.call r)).length + remaining v.len (v.call r) + d ≤
    (receivedBytes v.log).length

namespace Short
variable {d r : ℕ} {ep : EndpointDescriptor} {v v' : ReadHalf} {a : ReadAct}

/-- A statement that moves no byte. -/
theorem of_quiet (h : Short d r v) {c c' : ReadCall} (hc : v.call r = some c)
    (hcall : v'.call = Function.update v.call r (some c')) (hlen : v'.len = v.len)
    (hdel : deliveredBytes v'.log = deliveredBytes v.log)
    (hrec : receivedBytes v'.log = receivedBytes v.log) (hhand : inHand (some c') = [])
    (hpc : consuming c.pc = false) (hpc' : consuming c'.pc = false) : Short d r v' := by
  unfold Short at *
  rw [hcall,Function.update_self,hdel,hrec,hlen,hhand,remaining_of_quiet hpc']
  rw [hc,remaining_of_quiet hpc] at h
  simp only [List.length_nil]
  omega

theorem mono (h : Short d r v) {e : ℕ} (he : e ≤ d) : Short e r v := by
  unfold Short at *
  omega

theorem of_copy (h : Short d r v) (hb : ReadBounds ep v) {k : ℕ} {c : ReadCall}
    (hc : v.call r = some c) (hpc : c.pc = .copy) (hs : ReadHalf.Step v (.run r k) v') :
    Short (d + k) r v' := by
  obtain ⟨hle,rfl⟩ := hs.copy_inv hc hpc
  have hcopied := hb.copied_length k
  have hrest : remaining v.len (v.call r) = v.len := by simp [remaining,hc,hpc,consuming]
  unfold Short at *
  rw [hrest] at h
  simp only [ReadHalf.put_call,Function.update_self,deliveredBytes_append,receivedBytes_append,
    deliveredBytes_singleton,receivedBytes_singleton,userBytes,packetBytes,List.append_nil,
    remaining,inHand,consuming,if_true,hcopied]
  simp only [reduceCtorEq,false_and,if_false,List.length_nil]
  omega

theorem step (h : Short d r v) (hS : Sole r v) (hb : ReadBounds ep v) (ha : soleAct r a)
    (hs : ReadHalf.Step v a v') : Short d r v' := by
  cases hs with
  | begins t filp count ppos hidle =>
      obtain rfl : t = r := ha
      unfold Short at *
      rw [hidle] at h
      simpa [ReadCall.start,inHand,remaining,consuming] using h
  | seesOngoing hc hpc | seesQuiet hc hpc | sleeps hc hpc | waitEnds hc hpc | seesData hc hpc
  | seesEmpty hc hpc | fills hc hpc | sets hc hpc =>
      obtain rfl := hS.thread hc
      exact h.of_quiet hc rfl rfl rfl rfl (by simp [inHand]) (by simp [hpc,consuming])
        (by simp [consuming])
  | submits hc hpc =>
      obtain rfl := hS.thread hc
      exact h.of_quiet hc rfl rfl (by simp [userBytes]) (by simp [packetBytes])
        (by simp [inHand]) (by simp [hpc,consuming]) (by simp [consuming])
  | refused hc hpc hcode =>
      obtain rfl := hS.thread hc
      refine h.of_quiet hc rfl rfl (by simp [userBytes]) (by simp [packetBytes]) ?_
        (by simp [hpc,consuming]) (by simp [consuming])
      simp only [inHand]
      rw [if_neg (by omega)]
  | interrupted hc hpc =>
      obtain rfl := hS.thread hc
      exact h.of_quiet hc rfl rfl rfl rfl (by simp [inHand,ERESTARTSYS])
        (by rcases hpc with hpc | hpc <;> simp [hpc,consuming]) (by simp [consuming])
  | signalLate hc hpc =>
      obtain rfl := hS.thread hc
      exact h.of_quiet hc rfl rfl rfl rfl (by simp [inHand])
        (by rcases hpc with hpc | hpc <;> simp [hpc,consuming]) (by simp [consuming])
  | copies hc hpc hk =>
      obtain rfl := hS.thread hc
      exact (h.of_copy hb hc hpc (.copies hc hpc hk)).mono (Nat.le_add_right _ _)
  | advances hc hpc | computes hc hpc =>
      obtain rfl := hS.thread hc
      unfold Short at *
      rw [hc] at h
      simpa [inHand,hpc,remaining,consuming] using h
  | @clears t k c hc hpc =>
      obtain rfl := hS.thread hc
      unfold Short at *
      rw [hc] at h
      have hhand : (inHand (some { c with pc := .exit })).length ≤ c.user.length := by
        by_cases hpos : 0 < c.rs <;> simp [inHand,hpos]
      have hrest : remaining v.len (some c) = c.user.length := by simp [remaining,hpc,consuming]
      have hzero : remaining 0 (some { c with pc := .exit }) = 0 := by simp [remaining,consuming]
      simp only [ReadHalf.put_call,Function.update_self,ReadHalf.put_log]
      omega
  | returns hc hpc =>
      obtain rfl := hS.thread hc
      unfold Short at *
      rw [hc] at h
      simpa [inHand,hpc,remaining,consuming,userBytes,packetBytes] using h
  | @completes status packet f hf hlen =>
      have hwake := remaining_wake packet.length v.len (v.call r)
      unfold Short at *
      simp only [inHand_wake,deliveredBytes_append,receivedBytes_append,deliveredBytes_singleton,
        receivedBytes_singleton,userBytes,packetBytes,List.append_nil,List.length_append]
      omega
  | opensLen => exact ha.elim
  | opensOngoing => exact ha.elim

end Short

section Runs
variable {epIn epOut : EndpointDescriptor} {r d : ℕ}

/-- A reader whose calls can still lose nothing but what was lost before. -/
def Losing (epIn epOut : EndpointDescriptor) (r d : ℕ) (s : Device) : Prop :=
  Bounds epIn epOut s ∧ Sole r (readHalf s) ∧ Short d r (readHalf s)

theorem Losing.step {s s' : Device} {l : Label} (h : Losing epIn epOut r d s)
    (hl : oneReader r l = true) (hs : step s l = some s') : Losing epIn epOut r d s' := by
  obtain ⟨hb,hS,hshort⟩ := h
  refine ⟨hb.step hs,sole_step hS hl hs,?_⟩
  exact readHalf_kept hshort hs fun a ha hr =>
    hshort.step hS hb.1 (soleAct_of_oneReader hl ha) hr

theorem Losing.of_fault {s s' : Device} {l : Label} (h : Losing epIn epOut r 0 s)
    (hl : oneReader r l = true) (hfault : ¬ FullCopy s l) (hs : TransferSteps.step s l = some s') :
    Losing epIn epOut r 1 s' := by
  obtain ⟨hb,hS,hshort⟩ := h
  refine ⟨hb.step hs,sole_step hS hl hs,?_⟩
  cases l with
  | run t k =>
      obtain ⟨hpc,hk⟩ : readerAt s t = some .copy ∧ k ≠ 0 := by simpa [FullCopy] using hfault
      obtain ⟨c,hc,hcopy⟩ := call_of_readerAt hpc
      obtain rfl := hS.thread hc
      have hr := step_readHalf hs
      have hcall : readCall? (s.job t) = some c := hc
      simp only [readAct,hcall,Option.map_some] at hr
      exact (hshort.of_copy hb.1 hc hcopy hr).mono (by omega)
  | _ => exact (hfault trivial).elim

theorem losing_of_fault {s s' : Device} {ls : List Label} (h : Losing epIn epOut r 0 s)
    (hone : ∀ l ∈ ls, oneReader r l = true) (hfault : ¬ Along step FullCopy s ls)
    (hrun : run step s ls = some s') : Losing epIn epOut r 1 s' := by
  induction ls generalizing s with
  | nil => exact (hfault trivial).elim
  | cons l ls ih =>
      obtain ⟨u,hs,hr⟩ := run_cons hrun
      have hl : oneReader r l = true := hone l (List.mem_cons_self ..)
      have hrest : ∀ m ∈ ls, oneReader r m = true := fun m hm => hone m (List.mem_cons_of_mem _ hm)
      by_cases hfull : FullCopy s l
      · apply ih (h.step hl hs) hrest _ hr
        intro hall
        apply hfault
        refine .cons hfull fun w hw => ?_
        obtain rfl : u = w := Option.some.inj (hs.symm.trans hw)
        exact hall
      · exact run_invariant (I := Losing epIn epOut r 1) (fun _ _ _ hI hP hs => hI.step hP hs)
          (h.of_fault hl hfull hs) (.labels hrest u) hr

theorem Losing.not_nothingLost {s : Device} (h : Losing epIn epOut r 1 s)
    (hidle : readerAt s r = none) : ¬ NothingLost s := by
  intro hnothing
  have hshort := h.2.2
  unfold Short at hshort
  rw [call_of_idle hidle] at hshort
  have hlength := congrArg List.length hnothing
  have hget : (s.nr.intInBuffer.get s.nr.lenInBuffer).length ≤ s.nr.lenInBuffer := by
    simp only [Buffer.get,List.length_take]
    omega
  simp only [readHalf,inHand,remaining,List.length_nil,List.length_append] at hshort hlength
  omega

end Runs

/-- One reader loses nothing and reports every fault exactly when no copy faults. -/
theorem faults_kept_iff_no_fault (epIn epOut : EndpointDescriptor) (memIn memOut : ℕ → Byte)
    (r : ℕ) {ls : List Label} {s : Device}
    (hrun : run step (.opened epIn epOut memIn memOut) ls = some s)
    (hone : ∀ l ∈ ls, oneReader r l = true) (hidle : readerAt s r = none) :
    NothingLost s ∧ FaultsReported s ↔
      Along step FullCopy (.opened epIn epOut memIn memOut) ls := by
  constructor
  · intro h
    by_contra hfault
    have hstart : Losing epIn epOut r 0 (.opened epIn epOut memIn memOut) :=
      ⟨bounds_probed epIn epOut memIn memOut,sole_opened epIn epOut memIn memOut r,
        Nat.zero_le _⟩
    exact (losing_of_fault hstart hone hfault hrun).not_nothingLost hidle h.1
  · intro hfull
    have hopened := streaming_opened epIn epOut memIn memOut r
    have hinv := run_invariant
      (I := fun s => Bounds epIn epOut s ∧ Sole r (readHalf s) ∧ Stream r (readHalf s))
      (fun s l u hI hP hs => streaming_step hI hP.1 hP.2 hs) hopened (.labels_and hone hfull) hrun
    refine ⟨hinv.2.2.account_idle hidle,?_⟩
    have hsub : Along step (SubtractAs (fun _ _ _ => True)
        (fun bytes rs => rs = bytes.length ∧ bytes ≠ [])) (.opened epIn epOut memIn memOut) ls := by
      refine along_invariant
        (I := fun s => Bounds epIn epOut s ∧ Sole r (readHalf s) ∧ Stream r (readHalf s))
        (fun s l u hI hP hs => streaming_step hI hP.1 hP.2 hs) ?_ hopened (.labels_and hone hfull)
      intro s l hI _
      cases l with
      | run t k =>
          intro c hc
          refine ⟨fun _ => trivial,fun hpc => ?_⟩
          obtain ⟨hb,hS,hstream⟩ := hI
          obtain rfl := hS.thread hc
          have hcopied := hstream.copied c hc (by simp [hpc,consuming])
          have hlength : c.user.length = (readHalf s).len := by
            rw [hcopied.user]
            exact hb.1.copied_length 0
          have hpos := hcopied.pos
          refine ⟨by rw [hlength]; exact hcopied.computed hb.1 hpc,fun hempty => ?_⟩
          rw [hempty,List.length_nil] at hlength
          omega
      | _ => trivial
    intro call filp count user rs ppos hret bytes hbytes
    obtain ⟨_,hR,_⟩ := copied_call_returns epIn epOut memIn memOut hrun hsub hret hbytes
    rw [if_neg hR.2]
    exact hR.1

/-- Two packets, copied whole. -/
def twoPackets : List Label :=
  [.beginRead 0 0 64 0,.run 0 0,.run 0 0,.run 0 0,.run 0 0,.run 0 0,.inCompletes 0 [7,8],
    .run 0 0,.run 0 0,.run 0 0,.run 0 0,.run 0 0,.run 0 0,.run 0 0,
    .beginRead 0 0 64 2,.run 0 0,.run 0 0,.run 0 0,.run 0 0,.run 0 0,.inCompletes 0 [9],
    .run 0 0,.run 0 0,.run 0 0,.run 0 0,.run 0 0,.run 0 0,.run 0 0]

theorem two_packets_kept :
    ∃ s ∈ run step canDevice twoPackets, receivedBytes s.readLog = [7,8,9] ∧
      NothingLost s ∧ FaultsReported s := by
  obtain ⟨s,hs,hidle,hrec⟩ : ∃ s ∈ run step canDevice twoPackets,
    readerAt s 0 = none ∧ receivedBytes s.readLog = [7,8,9] := by decide
  exact ⟨s,hs,hrec,(faults_kept_iff_no_fault canIn canOut (fun _ => 0) (fun _ => 0) 0 hs
    (by decide) hidle).mpr (by decide)⟩

/-- No byte of the packet can be copied. -/
def wholeFault : List Label :=
  [.beginRead 0 0 64 0,.run 0 0,.run 0 0,.run 0 0,.run 0 0,.run 0 0,.inCompletes 0 [7,8],
    .run 0 0,.run 0 0,.run 0 2,.run 0 0,.run 0 0,.run 0 0,.run 0 0]

/-- The call returns zero, the value of an end of file, and the packet is gone. -/
theorem whole_fault_loses_packet :
    ∃ s ∈ run step canDevice wholeFault, (∀ l ∈ wholeFault, oneReader 0 l = true) ∧
      .returned 0 0 64 [] 0 0 ∈ s.readLog ∧ copiesOf 0 s.readLog = [[]] ∧
      receivedBytes s.readLog = [7,8] ∧ s.nr.lenInBuffer = 0 ∧ ¬ NothingLost s ∧
      ¬ FaultsReported s := by
  obtain ⟨s,hs,hone,hret,hcopy,hrec,hlen,hdel⟩ : ∃ s ∈ run step canDevice wholeFault,
    (∀ l ∈ wholeFault, oneReader 0 l = true) ∧ .returned 0 0 64 [] 0 0 ∈ s.readLog ∧
      copiesOf 0 s.readLog = [[]] ∧ receivedBytes s.readLog = [7,8] ∧ s.nr.lenInBuffer = 0 ∧
      deliveredBytes s.readLog = [] := by decide
  refine ⟨s,hs,hone,hret,hcopy,hrec,hlen,?_,fun hrep => ?_⟩
  · simp [NothingLost,hrec,hlen,hdel]
  · have herror := hrep 0 0 64 [] 0 0 hret [] (by rw [hcopy]; exact List.mem_singleton_self _)
    simp at herror

end NrDriver.FaultyCopies
