import NrDriver.ReadProtocol
import NrDriver.WriteReports
import NrDriver.OpenReset

/-!
# One program at a time

The use the driver was tested in: one program opens the device, makes calls one
after the other, closes it, and opens it again later. Its opens fall between its
calls, no signal ends a call, and no completion overtakes the assignment of the
flag. Between two calls nothing is then in flight and nothing is left in the
buffer (`Rested`), so that an open finds what it assigns. Only the flag of a
refused write is really reset, and no call reads that flag before it sets it.

Two consequences: what a program was sent and what it sent is complete between
any two calls, over all its sessions, and the opens after the first can be left
out of a run without a trace in either log.
-/
namespace NrDriver.ProgramSessions
open KernelModel TransferSteps ReadHalfSteps WriteHalfSteps TransferBounds IdleThreads LabelledRuns
open SingleReader ReadProtocol OpenReset
open SequentialWriter (Sequential acceptedUrbs countReturns Leaves leaves_prefix Uninterrupted
  orderly_of sequential_opened)
open WriterExclusion (oneWriter)
open WriteReports (relying)

/-- All calls are made by thread `r`, and the device is opened between them. -/
def InSession (r : ℕ) (s : Device) : Label → Prop
  | .beginRead t _ _ _ | .beginWrite t _ _ => t = r
  | .openWrite _ => s.job r = .idle
  | .signal _ => False
  | .inCompletes _ _ => readerAt s r ≠ some .setOngoing
  | _ => True

instance (r : ℕ) (s : Device) (l : Label) : Decidable (InSession r s l) :=
  match l with
  | .beginRead .. | .beginWrite .. | .openWrite _ => inferInstanceAs (Decidable (_ = _))
  | .inCompletes .. => inferInstanceAs (Decidable (_ ≠ _))
  | .signal _ => isFalse fun h => h
  | .run .. | .outTakes | .outCompletes .. => isTrue trivial

/-- Between two calls, and once a call is about to return, the in path is idle. -/
def Rested (r : ℕ) (v : ReadHalf) : Prop :=
  (∀ c, v.call r = some c → c.pc = .exit) →
    v.urb.flight = none ∧ v.ongoing = false ∧ v.len = 0

/-- A call that is about to submit has found the buffer empty. -/
def Dry (r : ℕ) (v : ReadHalf) : Prop :=
  ∀ c, v.call r = some c → c.pc = .fill ∨ c.pc = .submit → v.len = 0

namespace Rested
variable {r : ℕ} {v v' : ReadHalf} {a : ReadAct}

theorem of_call {c : ReadCall} (hcall : v'.call = Function.update v.call r (some c))
    (hpc : c.pc ≠ .exit) : Rested r v' := by
  intro hexit
  exact (hpc (hexit c (by simp [hcall]))).elim

theorem step (h : Rested r v) (hdry : Dry r v) (hS : Sole r v) (ha : soleAct r a)
    (hcalm : ∀ t, a ≠ .signal t) (hs : ReadHalf.Step v a v') : Rested r v' := by
  -- a call that is resting has the flag clear and nothing in flight
  have rest {t : ℕ} {c : ReadCall} (hc : v.call t = some c) (hpc : resting c.pc = true) :
      t = r ∧ v.ongoing = false ∧ v.urb.flight = none := by
    obtain rfl := hS.thread hc
    exact ⟨rfl,hS.quiet c hc hpc,hS.grounded hc hpc⟩
  cases hs with
  | begins t filp count ppos =>
      obtain rfl : t = r := ha
      exact of_call rfl (by simp [ReadCall.start])
  | seesOngoing hc | seesQuiet hc | sleeps hc | waitEnds hc | seesData hc | seesEmpty hc
  | copies hc | advances hc | computes hc | fills hc | submits hc | sets hc =>
      obtain rfl := hS.thread hc
      exact of_call rfl (by simp)
  | clears hc hpc =>
      obtain ⟨rfl,hoff,hf⟩ := rest hc (by simp [hpc,resting])
      exact fun _ => ⟨hf,hoff,rfl⟩
  | refused hc hpc =>
      obtain ⟨rfl,hoff,hf⟩ := rest hc (by simp [hpc,resting])
      exact fun _ => ⟨hf,hoff,hdry _ hc (.inr hpc)⟩
  | @returns t k c hc hpc =>
      obtain rfl := hS.thread hc
      refine fun _ => h fun d hd => ?_
      rw [hc] at hd
      cases hd
      exact hpc
  | interrupted => exact (hcalm _ rfl).elim
  | signalLate => exact (hcalm _ rfl).elim
  | @completes status packet f hf =>
      intro hexit
      have hold := h fun c hc => ?_
      · simp [hold.1] at hf
      · have hwoken := hexit c.wake (by simp [hc])
        rcases ReadCall.wake_cases c with ⟨_,he⟩ | ⟨_,he⟩
        · simp [he] at hwoken
        · rwa [he] at hwoken
  | opensLen => exact ha.elim
  | opensOngoing => exact ha.elim

end Rested

theorem Dry.step {r : ℕ} {v v' : ReadHalf} {a : ReadAct} (h : Dry r v) (hS : Sole r v)
    (ha : soleAct r a) (hs : ReadHalf.Step v a v') : Dry r v' := by
  have keep {c' : ReadCall} (hcall : v'.call = Function.update v.call r (some c'))
      (hnew : c'.pc = .fill ∨ c'.pc = .submit → v'.len = 0) : Dry r v' := by
    intro d hd
    rw [hcall,Function.update_self] at hd
    cases hd
    exact hnew
  cases hs with
  | begins t filp count ppos =>
      obtain rfl : t = r := ha
      exact keep rfl (by simp [ReadCall.start])
  | seesEmpty hc _ hzero =>
      obtain rfl := hS.thread hc
      exact keep rfl fun _ => hzero
  | fills hc hpc =>
      obtain rfl := hS.thread hc
      exact keep rfl fun _ => h _ hc (.inl hpc)
  | seesOngoing hc | seesQuiet hc | sleeps hc | waitEnds hc | seesData hc | copies hc
  | advances hc | computes hc | clears hc | submits hc | refused hc | sets hc | interrupted hc
  | signalLate hc =>
      obtain rfl := hS.thread hc
      exact keep rfl (by simp)
  | returns hc =>
      obtain rfl := hS.thread hc
      intro d hd
      simp at hd
  | @completes status packet f hf =>
      intro d hd hpd
      obtain ⟨c,hc,rfl⟩ := Option.map_eq_some_iff.mp hd
      rcases ReadCall.wake_cases c with ⟨_,he⟩ | ⟨_,he⟩
      · simp [he] at hpd
      · rw [he] at hpd
        have hground := hS.grounded hc (by rcases hpd with hp | hp <;> simp [hp,resting])
        simp [hground] at hf
  | opensLen => exact ha.elim
  | opensOngoing => exact ha.elim

/-- What a program keeps on a device with these endpoints. -/
structure Session (epIn epOut : EndpointDescriptor) (r : ℕ) (s : Device) : Prop where
  bounds : Bounds epIn epOut s
  sole : Sole r (readHalf s)
  landed : Landed r (readHalf s)
  dry : Dry r (readHalf s)
  rested : Rested r (readHalf s)
  serial : Sequential (· <+: ·) r (writeHalf s)

namespace Session
variable {epIn epOut : EndpointDescriptor} {memIn memOut : ℕ → Byte} {r : ℕ} {s s' : Device}
  {l : Label}

theorem at_rest (h : Session epIn epOut r s) (hl : InSession r s l) :
    readsAlone r l = true ∧ OpensAtRest s l := by
  cases l with
  | beginRead t filp count ppos => exact ⟨by simpa [readsAlone,InSession] using hl,trivial⟩
  | openWrite w =>
      have hcall := (idle_iff.mp hl).1
      obtain ⟨_,hoff,hlen⟩ := h.rested fun c hc => by simp [hcall] at hc
      refine ⟨rfl,?_⟩
      cases w with
      | lenInBuffer => exact hlen
      | ongoingRead => exact hoff
      | outgoingWrite => trivial
  | _ => exact ⟨rfl,trivial⟩

theorem serial_step (h : Session epIn epOut r s) (hl : InSession r s l)
    (hs : step s l = some s') : Sequential (· <+: ·) r (writeHalf s') := by
  have orderly (hone : oneWriter r l = true) (hu : Uninterrupted s l) :
      Sequential (· <+: ·) r (writeHalf s') := by
    have hleaves : Leaves (· <+: ·) s l := leaves_prefix s l
    exact writeHalf_kept h.serial hs fun a ha hw =>
      h.serial.step h.bounds.2 (orderly_of hone hu hleaves ha) hw
  cases l with
  | openWrite w =>
      have hcall := (idle_iff.mp hl).2
      cases hs
      cases w with
      | outgoingWrite => exact WriteReports.opened h.serial fun c hc => by simp [hcall] at hc
      | lenInBuffer | ongoingRead => exact h.serial
  | beginWrite t filp payload => exact orderly (by simpa [oneWriter,InSession] using hl) trivial
  | signal t => exact hl.elim
  | _ => exact orderly rfl trivial

theorem step (h : Session epIn epOut r s) (hl : InSession r s l)
    (hs : TransferSteps.step s l = some s') : Session epIn epOut r s' := by
  obtain ⟨hone,hO⟩ := h.at_rest hl
  have hearly (a : ReadAct) (ha : readAct s l = some a) : ∀ status packet,
      a = .completes status packet → ∀ c, (readHalf s).call r = some c → c.pc ≠ .setOngoing := by
    intro status packet hact c hc hset
    subst hact
    obtain rfl : l = .inCompletes status packet := label_of_readAct ha
    exact hl (by rw [readerAt_of_call hc,hset])
  have hcalm (a : ReadAct) (ha : readAct s l = some a) : ∀ t, a ≠ .signal t := by
    intro t hact
    subst hact
    obtain rfl : l = .signal t := label_of_readAct ha
    exact hl
  exact ⟨h.bounds.step hs,
    alone_kept h.sole hone hO hs fun a _ ha hr => h.sole.step ha hr,
    alone_kept h.landed hone hO hs fun a hact ha hr =>
      h.landed.step h.sole ha (hearly a hact) hr,
    alone_kept h.dry hone hO hs fun a _ ha hr => h.dry.step h.sole ha hr,
    alone_kept h.rested hone hO hs fun a hact ha hr =>
      h.rested.step h.dry h.sole ha (hcalm a hact) hr,
    h.serial_step hl hs⟩

theorem opened : Session epIn epOut r (.opened epIn epOut memIn memOut) := by
  refine ⟨bounds_probed epIn epOut memIn memOut,sole_opened epIn epOut memIn memOut r,⟨?_,?_⟩,?_,
    fun _ => ⟨rfl,rfl,rfl⟩,sequential_opened⟩
  · intro hon
    cases hon
  · intro c hc
    cases hc
  · intro c hc
    cases hc

end Session

/-- Between two calls of a program nothing is in flight, nothing is buffered, all
packets were delivered, and the accepted URBs are those of the writes that
returned their count. -/
structure Complete (s : Device) : Prop where
  inFlight : s.nr.intInUrb.flight = none
  outFlight : s.nr.intOutUrb.flight = none
  ongoing : s.nr.ongoingRead = false
  len : s.nr.lenInBuffer = 0
  delivered : deliveredBytes s.readLog = receivedBytes s.readLog
  written : acceptedUrbs s.writeLog = countReturns s.writeLog

theorem sessions_complete {epIn epOut : EndpointDescriptor} {memIn memOut : ℕ → Byte} {r : ℕ}
    {ls : List Label} {s : Device} (hrun : run step (.opened epIn epOut memIn memOut) ls = some s)
    (hsession : Along step (InSession r) (.opened epIn epOut memIn memOut) ls)
    (hcopy : Along step FullCopy (.opened epIn epOut memIn memOut) ls) (hidle : s.job r = .idle) :
    Complete s := by
  have hinv : Session epIn epOut r s ∧ Stream r (readHalf s) := by
    refine run_invariant (I := fun s => Session epIn epOut r s ∧ Stream r (readHalf s)) ?_
      ⟨.opened,(streaming_opened epIn epOut memIn memOut r).2.2⟩ (hsession.and hcopy) hrun
    intro s l u h hP hs
    obtain ⟨hone,hO⟩ := h.1.at_rest hP.1
    refine ⟨h.1.step hP.1 hs,alone_kept h.2 hone hO hs fun a hact ha hr => ?_⟩
    refine h.2.step h.1.sole h.1.bounds.1 ha ?_ hr
    intro t k hrunAct c hc hpc
    subst hrunAct
    obtain rfl : l = .run t k := label_of_readAct hact
    exact hP.2 (by rw [readerAt_of_call hc,hpc])
  obtain ⟨hsess,hstream⟩ := hinv
  obtain ⟨hread,hwrite⟩ := idle_iff.mp hidle
  obtain ⟨hf,hoff,hlen⟩ := hsess.rested fun c hc => by simp [hread] at hc
  obtain ⟨hout,hurbs⟩ := hsess.serial.idle hwrite
  have hlen' : s.nr.lenInBuffer = 0 := hlen
  have haccount := hstream.account_idle (by simp [readerAt,hidle])
  rw [hlen',Buffer.get_zero,List.append_nil] at haccount
  exact ⟨hf,hout,hoff,hlen,haccount,hurbs⟩

/-- The device with another value of the flag that a refused write leaves set. -/
def stale (b : Bool) (s : Device) : Device :=
  { s with nr := { s.nr with outgoingWrite := b } }

theorem readStep_stale (b : Bool) (dev : UsbNr) (c : ReadCall) (k : ℕ) :
    readStep { dev with outgoingWrite := b } c k =
      (readStep dev c k).map fun r => ({ r.1 with outgoingWrite := b },r.2) := by
  unfold readStep
  cases c.pc with
  | testWait => by_cases hon : dev.ongoingRead = true <;> simp [hon]
  | copy => by_cases hk : k ≤ dev.lenInBuffer <;> simp [hk]
  | _ => rfl

theorem runRead_stale (b : Bool) (s : Device) (t : ℕ) (c : ReadCall) (k : ℕ) :
    runRead (stale b s) t c k = (runRead s t c k).map (stale b) := by
  unfold runRead
  by_cases hpc : c.pc = .exit
  · simp only [hpc,if_true]
    rfl
  · simp only [hpc,if_false]
    have hstep : readStep (stale b s).nr c k =
        (readStep s.nr c k).map fun r => ({ r.1 with outgoingWrite := b },r.2) := readStep_stale ..
    rw [hstep]
    cases readStep s.nr c k <;> rfl

/-- A write that does not rely on the flag runs alike, whatever its value. -/
theorem writeStep_stale (b : Bool) (dev : UsbNr) (c : WriteCall) (k : ℕ)
    (hb : relying c.pc = true → b = dev.outgoingWrite) :
    writeStep { dev with outgoingWrite := b } c k = (writeStep dev c k).map fun r =>
      ({ r.1 with outgoingWrite := if c.pc = .setOutgoing then true else b },r.2) := by
  unfold writeStep
  cases hpc : c.pc with
  | checkCount =>
      by_cases hc : c.count = 0 ∨ dev.intOutEndpoint.packetSize < c.count <;> simp [hc]
  | copy => by_cases hk : k ≤ c.count <;> simp [hk]
  | testWait =>
      obtain rfl := hb (by simp [hpc,relying])
      by_cases hout : dev.outgoingWrite = true <;> simp [hout]
  | _ => rfl

theorem relying_step {dev dev' : UsbNr} {c c' : WriteCall} {k : ℕ}
    (h : writeStep dev c k = some (dev',c')) (hc' : relying c'.pc = true) :
    (c.pc = .setOutgoing ∧ dev'.outgoingWrite = true) ∨
      (relying c.pc = true ∧ dev'.outgoingWrite = dev.outgoingWrite ∧ c.pc ≠ .setOutgoing) := by
  unfold writeStep at h
  cases hpc : c.pc <;> simp only [hpc] at h
  all_goals try split_ifs at h
  all_goals cases h
  all_goals simp_all [relying]

/-- The two devices differ at most in the flag, and not where a write relies on it. -/
def SameButFlag (s t : Device) : Prop :=
  ∃ b, t = stale b s ∧
    ∀ u c, (writeHalf s).call u = some c → relying c.pc = true → b = s.nr.outgoingWrite

/-- A step that leaves the write half alone acts alike on both. -/
theorem SameButFlag.of_read {s t s' : Device} {b : Bool} {l : Label}
    (hb : ∀ u c, (writeHalf s).call u = some c → relying c.pc = true → b = s.nr.outgoingWrite)
    (hs : step s l = some s') (hl : writeAct s l = none)
    (ht : step t l = some (stale b s')) : ∃ t', step t l = some t' ∧ SameButFlag s' t' := by
  have hhalf := step_writeHalf hs
  simp only [hl] at hhalf
  have hout : s'.nr.outgoingWrite = s.nr.outgoingWrite := congrArg WriteHalf.outgoing hhalf
  refine ⟨_,ht,b,rfl,?_⟩
  rw [hhalf,hout]
  exact hb

theorem SameButFlag.write {s s' : Device} {b : Bool} {t k : ℕ} {c : WriteCall}
    (hb : ∀ u c, (writeHalf s).call u = some c → relying c.pc = true → b = s.nr.outgoingWrite)
    (hj : s.job t = .writing c) (honly : ∀ u d, (writeHalf s).call u = some d → u = t)
    (hs : runWrite s t c k = some s') :
    ∃ t', runWrite (stale b s) t c k = some t' ∧ SameButFlag s' t' := by
  have hc : (writeHalf s).call t = some c := by simp [writeHalf,hj,writeCall?]
  -- afterwards the thread is the only writer still, with the call it is given
  have hcall {nr : UsbNr} {j : Job} {log : List WriteEvent} {u : ℕ} {d : WriteCall}
      (hd : (writeHalf { s with
        nr := nr, job := Function.update s.job t j, writeLog := log }).call u = some d) :
      writeCall? j = some d := by
    simp only [writeHalf] at hd
    by_cases hu : u = t
    · rwa [hu,Function.update_self] at hd
    · rw [Function.update_of_ne hu] at hd
      exact (hu (honly u d hd)).elim
  unfold runWrite at hs ⊢
  split_ifs at hs ⊢ with hpc
  · cases hs
    refine ⟨_,rfl,b,rfl,fun u d hd hrel => ?_⟩
    cases hcall hd
  · obtain ⟨⟨dev,c'⟩,hr,rfl⟩ := Option.map_eq_some_iff.mp hs
    have hstep := writeStep_stale b s.nr c k (hb t c hc)
    rw [hr] at hstep
    refine ⟨_,congrArg (Option.map _) hstep,if c.pc = .setOutgoing then true else b,rfl,?_⟩
    intro u d hd hrel
    obtain rfl : c' = d := Option.some.inj (hcall hd)
    rcases relying_step hr hrel with ⟨hset,hout⟩ | ⟨hrel',hout,hset⟩
    · rw [if_pos hset,hout]
    · rw [if_neg hset,hout]
      exact hb t c hc hrel'

theorem SameButFlag.step {r : ℕ} {s t s' : Device} {l : Label} (h : SameButFlag s t)
    (honly : ∀ u c, (writeHalf s).call u = some c → u = r) (hl : InSession r s l)
    (hnot : notOpen l = true) (hs : step s l = some s') :
    ∃ t', TransferSteps.step t l = some t' ∧ SameButFlag s' t' := by
  obtain ⟨b,rfl,hb⟩ := h
  cases l with
  | beginRead u filp count ppos =>
      refine of_read hb hs rfl ?_
      cases hj : s.job u <;> simp only [TransferSteps.step,hj,Option.some.injEq,reduceCtorEq] at hs
      subst hs
      simp [TransferSteps.step,stale,hj]
  | beginWrite u filp payload =>
      obtain rfl : u = r := hl
      cases hj : s.job u <;> simp only [TransferSteps.step,hj,Option.some.injEq,reduceCtorEq] at hs
      subst hs
      refine ⟨_,by simp [TransferSteps.step,stale,hj],b,rfl,fun v d hd hrel => ?_⟩
      simp only [writeHalf] at hd
      by_cases hv : v = u
      · subst hv
        rw [Function.update_self] at hd
        cases hd
        simp [WriteCall.start,relying] at hrel
      · rw [Function.update_of_ne hv] at hd
        exact hb v d hd hrel
  | openWrite w => cases hnot
  | run u k =>
      cases hj : s.job u with
      | idle => simp [TransferSteps.step,hj] at hs
      | reading c =>
          have hnone : writeAct s (.run u k) = none := by simp [writeAct,hj,writeCall?]
          refine of_read hb hs hnone ?_
          simp only [TransferSteps.step,hj] at hs
          have hj' : (stale b s).job u = .reading c := hj
          simp only [TransferSteps.step,hj',runRead_stale,hs,Option.map_some]
      | writing c =>
          have hc : (writeHalf s).call u = some c := by simp [writeHalf,hj,writeCall?]
          simp only [TransferSteps.step,hj] at hs
          have hj' : (stale b s).job u = .writing c := hj
          simp only [TransferSteps.step,hj']
          refine write hb hj (fun v d hd => ?_) hs
          rw [honly v d hd,honly u c hc]
  | signal u => exact hl.elim
  | inCompletes status packet =>
      refine of_read hb hs rfl ?_
      simp only [TransferSteps.step,inCompletes] at hs ⊢
      cases hf : s.nr.intInUrb.flight with
      | none => simp [hf] at hs
      | some f =>
          have hf' : (stale b s).nr.intInUrb.flight = some f := hf
          simp only [hf,hf'] at hs ⊢
          split_ifs at hs ⊢
          cases hs
          rfl
  | outTakes =>
      simp only [TransferSteps.step,outTakes] at hs ⊢
      cases hf : s.nr.intOutUrb.flight with
      | none => simp [hf] at hs
      | some f =>
          have hf' : (stale b s).nr.intOutUrb.flight = some f := hf
          simp only [hf,hf'] at hs ⊢
          cases hs
          exact ⟨_,rfl,b,rfl,hb⟩
  | outCompletes status n =>
      simp only [TransferSteps.step,outCompletes] at hs ⊢
      cases hf : s.nr.intOutUrb.flight with
      | none => simp [hf] at hs
      | some f =>
          have hf' : (stale b s).nr.intOutUrb.flight = some f := hf
          simp only [hf,hf'] at hs ⊢
          split_ifs at hs ⊢
          cases hs
          exact ⟨_,rfl,false,rfl,fun _ _ _ _ => rfl⟩

theorem SameButFlag.opens {s t s' : Device} {l : Label} (h : SameButFlag s t)
    (hidle : ∀ u, (writeHalf s).call u = none) (hO : OpensAtRest s l) (hopen : notOpen l = false)
    (hs : TransferSteps.step s l = some s') : SameButFlag s' t := by
  obtain ⟨b,rfl,hb⟩ := h
  cases l with
  | openWrite w =>
      cases hs
      cases w with
      | lenInBuffer =>
          have hlen : s.nr.lenInBuffer = 0 := hO
          refine ⟨b,?_,hb⟩
          simp [stale,UsbNr.openWrite,← hlen]
      | ongoingRead =>
          have hoff : s.nr.ongoingRead = false := hO
          refine ⟨b,?_,hb⟩
          simp [stale,UsbNr.openWrite,← hoff]
      | outgoingWrite =>
          refine ⟨b,rfl,fun u c hc => ?_⟩
          have hnone := hidle u
          simp only [writeHalf] at hc hnone
          simp [hnone] at hc
  | _ => cases hopen

/-- The opens after the first leave no trace: without them the same calls of a
program return the same results, with the same submissions and transfers. -/
theorem reopening_invisible {epIn epOut : EndpointDescriptor} {memIn memOut : ℕ → Byte} {r : ℕ}
    {ls : List Label} {s : Device} (hrun : run step (.opened epIn epOut memIn memOut) ls = some s)
    (hsession : Along step (InSession r) (.opened epIn epOut memIn memOut) ls) :
    ∃ t, run step (.opened epIn epOut memIn memOut) (withoutOpens ls) = some t ∧
      seen t = seen s ∧ t.job = s.job ∧ readHalf t = readHalf s := by
  have hkept : Along step (fun s l => InSession r s l ∧ Session epIn epOut r s)
      (.opened epIn epOut memIn memOut) ls :=
    along_invariant (I := Session epIn epOut r) (fun _ _ _ h hP hs => h.step hP hs)
      (fun _ _ h hP => ⟨hP,h⟩) .opened hsession
  have hdrop (s : Device) (l : Label) (u t : Device) (hR : SameButFlag s t)
      (hP : InSession r s l ∧ Session epIn epOut r s) (hk : notOpen l = false)
      (hs : step s l = some u) : SameButFlag u t := by
    refine hR.opens (fun v => ?_) (hP.2.at_rest hP.1).2 hk hs
    cases l with
    | openWrite w =>
        have hidle : s.job r = .idle := hP.1
        by_cases hv : v = r
        · exact hv ▸ (idle_iff.mp hidle).2
        · exact hP.2.serial.sole v hv
    | _ => cases hk
  have hkeep (s : Device) (l : Label) (u t : Device) (hR : SameButFlag s t)
      (hP : InSession r s l ∧ Session epIn epOut r s) (hk : notOpen l = true)
      (hs : step s l = some u) : ∃ w, step t l = some w ∧ SameButFlag u w :=
    hR.step (fun _ _ hd => hP.2.serial.thread hd) hP.1 hk hs
  have hstart : SameButFlag (.opened epIn epOut memIn memOut) (.opened epIn epOut memIn memOut) :=
    ⟨false,rfl,fun _ _ _ _ => rfl⟩
  obtain ⟨_,ht,b,rfl,_⟩ := run_erase hdrop hkeep hstart hkept hrun
  exact ⟨_,ht,rfl,rfl,rfl⟩

/-- Two sessions. In the first a read collects a packet, a write is refused and
leaves its flag set; in the second a write and a read succeed. -/
def twoSessions : List Label :=
  [.beginRead 0 0 64 0,.run 0 0,.run 0 0,.run 0 0,.run 0 0,.run 0 0,.run 0 0,.run 0 0,
    .inCompletes 0 [1,2],.run 0 0,.run 0 0,.run 0 0,.run 0 0,.run 0 0,.run 0 0,.run 0 0,
    .beginWrite 0 0 [3],.run 0 0,.run 0 0,.run 0 0,.run 0 0,.run 0 19,.run 0 0,
    .openWrite .lenInBuffer,.openWrite .ongoingRead,.openWrite .outgoingWrite,
    .beginWrite 0 1 [4,5],.run 0 0,.run 0 0,.run 0 0,.run 0 0,.run 0 0,.outTakes,
    .outCompletes 0 2,.run 0 0,.run 0 0,
    .beginRead 0 1 64 0,.run 0 0,.run 0 0,.run 0 0,.run 0 0,.run 0 0,.inCompletes 0 [6],
    .run 0 0,.run 0 0,.run 0 0,.run 0 0,.run 0 0,.run 0 0,.run 0 0]

theorem two_sessions_complete :
    ∃ s ∈ run step canDevice twoSessions, receivedBytes s.readLog = [1,2,6] ∧ Complete s := by
  obtain ⟨s,hs,hrec,hidle⟩ : ∃ s ∈ run step canDevice twoSessions,
    receivedBytes s.readLog = [1,2,6] ∧ s.job 0 = .idle := by decide
  exact ⟨s,hs,hrec,sessions_complete (r := 0) hs (by decide) (by decide) hidle⟩

theorem two_sessions_as_one :
    ∃ s ∈ run step canDevice twoSessions, acceptedUrbs s.writeLog = [(1,[4,5])] ∧
      ∃ t, run step canDevice (withoutOpens twoSessions) = some t ∧ seen t = seen s ∧
        t.job = s.job ∧ readHalf t = readHalf s := by
  obtain ⟨s,hs,hurbs⟩ : ∃ s ∈ run step canDevice twoSessions,
    acceptedUrbs s.writeLog = [(1,[4,5])] := by decide
  exact ⟨s,hs,hurbs,reopening_invisible (r := 0) hs (by decide)⟩

end NrDriver.ProgramSessions
