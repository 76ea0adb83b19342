import NrDriver.IdleThreads

/-!
# Reads and writes side by side

Two runs are compared: one of readers and writers together, and the one left of
it when every step of one kind is deleted. A device without its writes is the
device with the out fields, the write calls and the write log it had at the
beginning. A step of a read acts on it as on the whole device, and a step of a
write does not act on it at all, so that the deleted run leads there.

Whether a statement belongs to a read or to a write depends on what its thread
is doing, hence the deletion goes along the run.
-/
namespace NrDriver.Independence
open KernelModel TransferSteps ReadHalfSteps WriteHalfSteps IdleThreads LabelledRuns

/-- A step of `nr_read` or of the in URB. -/
def ofRead (s : Device) : Label → Bool
  | .beginRead .. | .inCompletes .. => true
  | .run t _ | .signal t => (readCall? (s.job t)).isSome
  | _ => false

/-- A step of `nr_write` or of the out URB. -/
def ofWrite (s : Device) : Label → Bool
  | .beginWrite .. | .outTakes | .outCompletes .. => true
  | .run t _ | .signal t => (writeCall? (s.job t)).isSome
  | _ => false

/-- The fields of the in direction from one record and of the out direction
from another. -/
def UsbNr.mix (dev out : UsbNr) : UsbNr :=
  { dev with
    intOutEndpoint := out.intOutEndpoint
    intOutUrb := out.intOutUrb
    intOutBuffer := out.intOutBuffer
    outgoingWrite := out.outgoingWrite }

def onlyReading (j : Job) : Job := (readCall? j).elim .idle .reading

def onlyWriting (j : Job) : Job := (writeCall? j).elim .idle .writing

/-- The device with the writes of `s₀`, and none running. -/
def readsOf (s₀ s : Device) : Device where
  nr := UsbNr.mix s.nr s₀.nr
  job t := onlyReading (s.job t)
  reads := s.reads
  writes := s₀.writes
  packets := s.packets
  readLog := s.readLog
  writeLog := s₀.writeLog

/-- The device with the reads of `s₀`, and none running. -/
def writesOf (s₀ s : Device) : Device where
  nr := UsbNr.mix s₀.nr s.nr
  job t := onlyWriting (s.job t)
  reads := s₀.reads
  writes := s.writes
  packets := s₀.packets
  readLog := s₀.readLog
  writeLog := s.writeLog

section Reads
variable {s₀ s s' : Device} {l : Label} {t k : ℕ}

theorem readsOf_congr (h : readHalf s = readHalf s') : readsOf s₀ s = readsOf s₀ s' := by
  simp only [readHalf,ReadHalf.mk.injEq] at h
  obtain ⟨hep,hurb,hbuf,hlen,hon,hcall,hreads,hpk,hlog⟩ := h
  have hjob (t : ℕ) : readCall? (s.job t) = readCall? (s'.job t) := congrFun hcall t
  simp only [readsOf,UsbNr.mix,onlyReading,hep,hurb,hbuf,hlen,hon,hjob,hreads,hpk,hlog]

theorem readStep_mix (dev out : UsbNr) (c : ReadCall) (k : ℕ) :
    readStep (UsbNr.mix dev out) c k =
      (readStep dev c k).map fun r => (UsbNr.mix r.1 out,r.2) := by
  unfold readStep
  cases c.pc with
  | testWait => by_cases hon : dev.ongoingRead = true <;> simp [UsbNr.mix,hon]
  | copy => by_cases hk : k ≤ dev.lenInBuffer <;> simp [UsbNr.mix,hk]
  | _ => rfl

theorem readSignal_mix (dev out : UsbNr) (c : ReadCall) :
    readSignal (UsbNr.mix dev out) c = readSignal dev c := rfl

theorem onlyReading_update (job : ℕ → Job) (t : ℕ) (j : Job) :
    (fun u => onlyReading (Function.update job t j u)) =
      Function.update (fun u => onlyReading (job u)) t (onlyReading j) :=
  funext fun u => Function.apply_update (fun _ => onlyReading) job t j u

theorem runRead_readsOf (s₀ s : Device) (t : ℕ) (c : ReadCall) (k : ℕ) :
    runRead (readsOf s₀ s) t c k = (runRead s t c k).map (readsOf s₀) := by
  unfold runRead
  by_cases hpc : c.pc = .exit
  · simp only [hpc,if_true,Option.map_some]
    simp only [readsOf,onlyReading_update]
    rfl
  · simp only [hpc,if_false]
    have hstep : readStep (readsOf s₀ s).nr c k =
        (readStep s.nr c k).map fun r => (UsbNr.mix r.1 s₀.nr,r.2) := readStep_mix ..
    rw [hstep]
    cases hr : readStep s.nr c k with
    | none => rfl
    | some r =>
        simp only [Option.map_some]
        simp only [readsOf,onlyReading_update]
        rfl

theorem readsOf_step (h : step s l = some s') (hl : ofRead s l = true) :
    step (readsOf s₀ s) l = some (readsOf s₀ s') := by
  cases l with
  | beginRead t filp count ppos =>
      cases hj : s.job t <;> simp only [step,hj,Option.some.injEq,reduceCtorEq] at h
      subst h
      have hidle : (readsOf s₀ s).job t = .idle := by simp [readsOf,hj,onlyReading,readCall?]
      simp only [step,hidle]
      simp only [readsOf,onlyReading_update]
      rfl
  | run t k =>
      obtain ⟨c,hc⟩ := Option.isSome_iff_exists.mp hl
      have hj := job_of_readCall hc
      have hj' : (readsOf s₀ s).job t = .reading c := by simp [readsOf,onlyReading,hc]
      simp only [step,hj] at h
      simp only [step,hj',runRead_readsOf,h,Option.map_some]
  | signal t =>
      obtain ⟨c,hc⟩ := Option.isSome_iff_exists.mp hl
      have hj := job_of_readCall hc
      have hj' : (readsOf s₀ s).job t = .reading c := by simp [readsOf,onlyReading,hc]
      simp only [step,hj,Option.map_eq_some_iff] at h
      obtain ⟨c',hsig,rfl⟩ := h
      have hsig' : readSignal (readsOf s₀ s).nr c = some c' := (readSignal_mix ..).trans hsig
      simp only [step,hj',hsig',Option.map_some]
      simp only [readsOf,onlyReading_update]
      rfl
  | inCompletes status packet =>
      simp only [step,inCompletes] at h ⊢
      cases hf : s.nr.intInUrb.flight with
      | none => simp [hf] at h
      | some f =>
          have hf' : (readsOf s₀ s).nr.intInUrb.flight = some f := hf
          simp only [hf,hf'] at h ⊢
          split_ifs at h ⊢
          cases h
          simp only [readsOf,UsbNr.mix,nrReadIntCallback,onlyReading,readCall?_wakeReader]
          congr 2
          funext t
          cases s.job t <;> rfl
  | _ => cases hl

theorem readsOf_skip (h : step s l = some s') (hl : ofWrite s l = true) :
    readsOf s₀ s' = readsOf s₀ s := by
  have hact : readAct s l = none := by
    cases l with
    | run t k | signal t =>
        obtain ⟨c,hc⟩ := Option.isSome_iff_exists.mp hl
        simp [readAct,job_of_writeCall hc,readCall?]
    | beginWrite | outTakes | outCompletes => rfl
    | _ => cases hl
  have hhalf := step_readHalf h
  simp only [hact] at hhalf
  exact readsOf_congr hhalf

end Reads

section Writes
variable {s₀ s s' : Device} {l : Label}

theorem writesOf_congr (h : writeHalf s = writeHalf s') : writesOf s₀ s = writesOf s₀ s' := by
  simp only [writeHalf,WriteHalf.mk.injEq] at h
  obtain ⟨hep,hurb,hbuf,hout,hcall,hwrites,hlog⟩ := h
  have hjob (t : ℕ) : writeCall? (s.job t) = writeCall? (s'.job t) := congrFun hcall t
  simp only [writesOf,UsbNr.mix,onlyWriting,hep,hurb,hbuf,hout,hjob,hwrites,hlog]

theorem writeStep_mix (dev out : UsbNr) (c : WriteCall) (k : ℕ) :
    writeStep (UsbNr.mix dev out) c k =
      (writeStep out c k).map fun r => (UsbNr.mix dev r.1,r.2) := by
  unfold writeStep
  cases c.pc with
  | checkCount =>
      by_cases hc : c.count = 0 ∨ out.intOutEndpoint.packetSize < c.count <;> simp [UsbNr.mix,hc]
  | copy => by_cases hk : k ≤ c.count <;> simp [UsbNr.mix,hk]
  | testWait => by_cases hout : out.outgoingWrite = true <;> simp [UsbNr.mix,hout]
  | _ => rfl

theorem writeSignal_mix (dev out : UsbNr) (c : WriteCall) :
    writeSignal (UsbNr.mix dev out) c = writeSignal out c := rfl

theorem onlyWriting_update (job : ℕ → Job) (t : ℕ) (j : Job) :
    (fun u => onlyWriting (Function.update job t j u)) =
      Function.update (fun u => onlyWriting (job u)) t (onlyWriting j) :=
  funext fun u => Function.apply_update (fun _ => onlyWriting) job t j u

theorem runWrite_writesOf (s₀ s : Device) (t : ℕ) (c : WriteCall) (k : ℕ) :
    runWrite (writesOf s₀ s) t c k = (runWrite s t c k).map (writesOf s₀) := by
  unfold runWrite
  by_cases hpc : c.pc = .exit
  · simp only [hpc,if_true,Option.map_some]
    simp only [writesOf,onlyWriting_update]
    rfl
  · simp only [hpc,if_false]
    have hstep : writeStep (writesOf s₀ s).nr c k =
        (writeStep s.nr c k).map fun r => (UsbNr.mix s₀.nr r.1,r.2) := writeStep_mix ..
    rw [hstep]
    cases hr : writeStep s.nr c k with
    | none => rfl
    | some r =>
        simp only [Option.map_some]
        simp only [writesOf,onlyWriting_update]
        rfl

theorem writesOf_step (h : step s l = some s') (hl : ofWrite s l = true) :
    step (writesOf s₀ s) l = some (writesOf s₀ s') := by
  cases l with
  | beginWrite t filp payload =>
      cases hj : s.job t <;> simp only [step,hj,Option.some.injEq,reduceCtorEq] at h
      subst h
      have hidle : (writesOf s₀ s).job t = .idle := by simp [writesOf,hj,onlyWriting,writeCall?]
      simp only [step,hidle]
      simp only [writesOf,onlyWriting_update]
      rfl
  | run t k =>
      obtain ⟨c,hc⟩ := Option.isSome_iff_exists.mp hl
      have hj := job_of_writeCall hc
      have hj' : (writesOf s₀ s).job t = .writing c := by simp [writesOf,onlyWriting,hc]
      simp only [step,hj] at h
      simp only [step,hj',runWrite_writesOf,h,Option.map_some]
  | signal t =>
      obtain ⟨c,hc⟩ := Option.isSome_iff_exists.mp hl
      have hj := job_of_writeCall hc
      have hj' : (writesOf s₀ s).job t = .writing c := by simp [writesOf,onlyWriting,hc]
      simp only [step,hj,Option.map_eq_some_iff] at h
      obtain ⟨c',hsig,rfl⟩ := h
      have hsig' : writeSignal (writesOf s₀ s).nr c = some c' := (writeSignal_mix ..).trans hsig
      simp only [step,hj',hsig',Option.map_some]
      simp only [writesOf,onlyWriting_update]
      rfl
  | outTakes =>
      simp only [step,outTakes] at h ⊢
      cases hf : s.nr.intOutUrb.flight with
      | none => simp [hf] at h
      | some f =>
          have hf' : (writesOf s₀ s).nr.intOutUrb.flight = some f := hf
          simp only [hf,hf'] at h ⊢
          cases h
          rfl
  | outCompletes status actualLength =>
      simp only [step,outCompletes] at h ⊢
      cases hf : s.nr.intOutUrb.flight with
      | none => simp [hf] at h
      | some f =>
          have hf' : (writesOf s₀ s).nr.intOutUrb.flight = some f := hf
          simp only [hf,hf'] at h ⊢
          split_ifs at h ⊢
          cases h
          simp only [writesOf,UsbNr.mix,nrWriteIntCallback,onlyWriting,writeCall?_wakeWriter]
          congr 2
          funext t
          cases s.job t <;> rfl
  | _ => cases hl

theorem writesOf_skip (h : step s l = some s') (hl : ofRead s l = true) :
    writesOf s₀ s' = writesOf s₀ s := by
  have hact : writeAct s l = none := by
    cases l with
    | run t k | signal t =>
        obtain ⟨c,hc⟩ := Option.isSome_iff_exists.mp hl
        simp [writeAct,job_of_readCall hc,writeCall?]
    | beginRead | inCompletes => rfl
    | _ => cases hl
  have hhalf := step_writeHalf h
  simp only [hact] at hhalf
  exact writesOf_congr hhalf

end Writes

/-- Without opens every step belongs to one of the two. -/
theorem ofRead_eq {s s' : Device} {l : Label} (hl : opens l = false) (h : step s l = some s') :
    ofRead s l = !ofWrite s l := by
  cases l with
  | run t k | signal t =>
      simp only [step] at h
      cases hj : s.job t <;> simp only [hj,reduceCtorEq] at h
      all_goals simp [ofRead,ofWrite,hj,readCall?,writeCall?]
  | openWrite => cases hl
  | _ => rfl

theorem readsOf_self {s : Device} (h : ∀ t, s.job t = .idle) : readsOf s s = s := by
  have hjob : (fun t => onlyReading (s.job t)) = s.job := by
    funext t
    simp [h t,onlyReading,readCall?]
  simp only [readsOf,hjob]
  rfl

theorem writesOf_self {s : Device} (h : ∀ t, s.job t = .idle) : writesOf s s = s := by
  have hjob : (fun t => onlyWriting (s.job t)) = s.job := by
    funext t
    simp [h t,onlyWriting,writeCall?]
  simp only [writesOf,hjob]
  rfl

/-- What is left of a run when the steps of `nr_write` and of its URB are
deleted, and when those of `nr_read` are. -/
def withoutWrites (o : Device) (ls : List Label) : List Label :=
  thin step (fun s l => !ofWrite s l) o ls

def withoutReads (o : Device) (ls : List Label) : List Label :=
  thin step (fun s l => !ofRead s l) o ls

section Runs
variable {o s : Device} {ls : List Label}

theorem run_withoutWrites (ho : ∀ t, o.job t = .idle) (hopens : ∀ l ∈ ls, opens l = false)
    (hrun : run step o ls = some s) : run step o (withoutWrites o ls) = some (readsOf o s) := by
  have hthin : run step (readsOf o o) (withoutWrites o ls) = some (readsOf o s) := by
    unfold withoutWrites
    apply run_thin (f := readsOf o) (P := fun _ l => opens l = false) ?_ ?_ (.labels hopens o) hrun
    · intro s l u hl hk hs
      apply readsOf_step hs
      rwa [ofRead_eq hl hs]
    · intro s l u _ hk hs
      exact readsOf_skip hs (by simpa using hk)
  rwa [readsOf_self ho] at hthin

theorem run_withoutReads (ho : ∀ t, o.job t = .idle) (hopens : ∀ l ∈ ls, opens l = false)
    (hrun : run step o ls = some s) : run step o (withoutReads o ls) = some (writesOf o s) := by
  have hthin : run step (writesOf o o) (withoutReads o ls) = some (writesOf o s) := by
    unfold withoutReads
    apply run_thin (f := writesOf o) (P := fun _ l => opens l = false) ?_ ?_ (.labels hopens o) hrun
    · intro s l u hl hk hs
      apply writesOf_step hs
      rw [ofRead_eq hl hs] at hk
      simpa using hk
    · intro s l u _ hk hs
      exact writesOf_skip hs (by simpa using hk)
  rwa [writesOf_self ho] at hthin

end Runs

/-- The reads of two devices have returned, copied, submitted and received the
same, and those still running are at the same statement with the same values. -/
structure SameReads (s s' : Device) : Prop where
  log : s.readLog = s'.readLog
  calls : ∀ t c, s.job t = .reading c ↔ s'.job t = .reading c

structure SameWrites (s s' : Device) : Prop where
  log : s.writeLog = s'.writeLog
  calls : ∀ t c, s.job t = .writing c ↔ s'.job t = .writing c

theorem readsOf_same (o s : Device) : SameReads (readsOf o s) s := by
  refine ⟨rfl,fun t c => ?_⟩
  simp only [readsOf,onlyReading]
  cases s.job t <;> simp [readCall?]

theorem writesOf_same (o s : Device) : SameWrites (writesOf o s) s := by
  refine ⟨rfl,fun t c => ?_⟩
  simp only [writesOf,onlyWriting]
  cases s.job t <;> simp [writeCall?]

/-- Readers and writers of an opened device do not see each other: the reads of
any run are those of the run without its writes, and the other way round. -/
theorem reads_writes_independent {epIn epOut : EndpointDescriptor} {memIn memOut : ℕ → Byte}
    {ls : List Label} {s : Device} (hopens : ∀ l ∈ ls, opens l = false)
    (hrun : run step (.opened epIn epOut memIn memOut) ls = some s) :
    (∃ r, run step (.opened epIn epOut memIn memOut)
        (withoutWrites (.opened epIn epOut memIn memOut) ls) = some r ∧
      SameReads r s ∧ r.writeLog = []) ∧
    ∃ w, run step (.opened epIn epOut memIn memOut)
        (withoutReads (.opened epIn epOut memIn memOut) ls) = some w ∧
      SameWrites w s ∧ w.readLog = [] := by
  have hidle (t : ℕ) : (Device.opened epIn epOut memIn memOut).job t = .idle := rfl
  constructor
  · exact ⟨_,run_withoutWrites hidle hopens hrun,readsOf_same _ s,rfl⟩
  · exact ⟨_,run_withoutReads hidle hopens hrun,writesOf_same _ s,rfl⟩

/-- A read and two writes on one device, the first write ended by a signal. -/
def crossed : List Label :=
  [.beginRead 0 0 8 0,.beginWrite 1 0 [1,2],.run 0 0,.run 1 0,.run 0 0,.run 1 0,.run 0 0,
    .run 1 0,.run 0 0,.run 1 0,.run 0 0,.run 1 0,.outTakes,.run 0 0,.signal 1,.run 1 0,
    .beginWrite 1 0 [],.inCompletes 0 [7,8,9],.run 1 0,.run 0 0,.run 0 0,.run 1 0,.run 0 1,
    .outCompletes 0 2,.run 0 0,.run 0 0,.run 0 0,.run 0 0]

theorem crossed_independent :
    ∃ s ∈ run step canDevice crossed, s.readLog.length = 4 ∧ s.writeLog.length = 4 ∧
      (∃ r, run step canDevice (withoutWrites canDevice crossed) = some r ∧
        SameReads r s ∧ r.writeLog = []) ∧
      ∃ w, run step canDevice (withoutReads canDevice crossed) = some w ∧
        SameWrites w s ∧ w.readLog = [] := by
  obtain ⟨s,hs,hreads,hwrites⟩ : ∃ s ∈ run step canDevice crossed,
      s.readLog.length = 4 ∧ s.writeLog.length = 4 := by decide
  have hind := reads_writes_independent (by decide) hs
  exact ⟨s,hs,hreads,hwrites,hind⟩

end NrDriver.Independence
