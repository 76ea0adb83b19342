import NrDriver.TransferSteps
import Mathlib.Tactic.SplitIfs

/-!
# The write half of a device

The part of the record, of the threads and of the log that `nr_write` and
`nr_write_int_callback` use, with the moves a step of the device can make on
it. `step_writeHalf` is the counterpart of `step_readHalf`.
-/
namespace NrDriver.WriteHalfSteps
open KernelModel TransferSteps

structure WriteHalf where
  endpoint : EndpointDescriptor
  urb : Urb
  buffer : Buffer
  outgoing : Bool
  call : ℕ → Option WriteCall
  writes : ℕ
  log : List WriteEvent

def writeCall? : Job → Option WriteCall
  | .writing c => some c
  | _ => none

def writeHalf (s : Device) : WriteHalf where
  endpoint := s.nr.intOutEndpoint
  urb := s.nr.intOutUrb
  buffer := s.nr.intOutBuffer
  outgoing := s.nr.outgoingWrite
  call t := writeCall? (s.job t)
  writes := s.writes
  log := s.writeLog

inductive WriteAct where
  | begin (t filp : ℕ) (payload : List Byte)
  | run (t k : ℕ)
  | signal (t : ℕ)
  | takes
  | completes (status : ℤ) (actualLength : ℕ)
  | openOutgoing

def writeAct (s : Device) : Label → Option WriteAct
  | .beginWrite t filp payload => some (.begin t filp payload)
  | .run t k => (writeCall? (s.job t)).map fun _ => .run t k
  | .signal t => (writeCall? (s.job t)).map fun _ => .signal t
  | .outTakes => some .takes
  | .outCompletes status actualLength => some (.completes status actualLength)
  | .openWrite .outgoingWrite => some .openOutgoing
  | _ => none

namespace WriteHalf

def put (v : WriteHalf) (t : ℕ) (c : WriteCall) : WriteHalf :=
  { v with call := Function.update v.call t (some c) }

@[simp] theorem put_endpoint (v : WriteHalf) (t : ℕ) (c : WriteCall) :
    (v.put t c).endpoint = v.endpoint := rfl
@[simp] theorem put_urb (v : WriteHalf) (t : ℕ) (c : WriteCall) : (v.put t c).urb = v.urb := rfl
@[simp] theorem put_buffer (v : WriteHalf) (t : ℕ) (c : WriteCall) :
    (v.put t c).buffer = v.buffer := rfl
@[simp] theorem put_outgoing (v : WriteHalf) (t : ℕ) (c : WriteCall) :
    (v.put t c).outgoing = v.outgoing := rfl
@[simp] theorem put_writes (v : WriteHalf) (t : ℕ) (c : WriteCall) :
    (v.put t c).writes = v.writes := rfl
@[simp] theorem put_log (v : WriteHalf) (t : ℕ) (c : WriteCall) : (v.put t c).log = v.log := rfl
@[simp] theorem put_call (v : WriteHalf) (t : ℕ) (c : WriteCall) :
    (v.put t c).call = Function.update v.call t (some c) := rfl

/-- Everything one step can do to the write half. -/
inductive Step (v : WriteHalf) : WriteAct → WriteHalf → Prop
  | begins (t filp : ℕ) (payload : List Byte) : v.call t = none →
      Step v (.begin t filp payload)
        { v.put t (.start v.writes filp payload) with writes := v.writes + 1 }
  | rejects {t k : ℕ} {c : WriteCall} : v.call t = some c → c.pc = .checkCount →
      c.count = 0 ∨ v.endpoint.packetSize < c.count →
      Step v (.run t k) (v.put t { c with retval := -EINVAL, pc := .exit })
  | accepts {t k : ℕ} {c : WriteCall} : v.call t = some c → c.pc = .checkCount →
      0 < c.count → c.count ≤ v.endpoint.packetSize →
      Step v (.run t k) (v.put t { c with pc := .copy })
  | copies {t : ℕ} {c : WriteCall} : v.call t = some c → c.pc = .copy →
      Step v (.run t 0) { v.put t { c with pc := .fill } with buffer := v.buffer.put c.payload }
  | faults {t k : ℕ} {c : WriteCall} : v.call t = some c → c.pc = .copy →
      0 < k → k ≤ c.count →
      Step v (.run t k) { v.put t { c with retval := -EFAULT, pc := .exit } with
        buffer := copyFromUser v.buffer c.payload k }
  | fills {t k : ℕ} {c : WriteCall} : v.call t = some c → c.pc = .fill →
      Step v (.run t k) { v.put t { c with pc := .setOutgoing } with
        urb := usbFillIntUrb v.urb (.sndint v.endpoint.bEndpointAddress)
          c.count v.endpoint.bInterval }
  | sets {t k : ℕ} {c : WriteCall} : v.call t = some c → c.pc = .setOutgoing →
      Step v (.run t k) { v.put t { c with pc := .submit } with outgoing := true }
  | submits {t : ℕ} {c : WriteCall} : v.call t = some c → c.pc = .submit →
      v.urb.flight = none →
      Step v (.run t 0) { v.put t { c with retval := 0, pc := .testWait } with
        urb := { v.urb with flight := some ⟨v.urb.transferBufferLength,c.id,c.payload,[]⟩ }
        log := v.log ++ [.submitted c.id c.payload v.urb
          (v.buffer.get v.urb.transferBufferLength) 0] }
  | refused {t k : ℕ} {c : WriteCall} {code : ℤ} : v.call t = some c → c.pc = .submit →
      code < 0 → Step v (.run t k) { v.put t { c with retval := code, pc := .exit } with
        log := v.log ++ [.submitted c.id c.payload v.urb
          (v.buffer.get v.urb.transferBufferLength) code] }
  | sleeps {t k : ℕ} {c : WriteCall} : v.call t = some c → c.pc = .testWait →
      v.outgoing = true → Step v (.run t k) (v.put t { c with pc := .asleep })
  | waitEnds {t k : ℕ} {c : WriteCall} : v.call t = some c → c.pc = .testWait →
      v.outgoing = false →
      Step v (.run t k) (v.put t { c with retval := toSsize c.count, pc := .exit })
  | returns {t k : ℕ} {c : WriteCall} : v.call t = some c → c.pc = .exit →
      Step v (.run t k) { v with
        call := Function.update v.call t none
        log := v.log ++ [.returned c.id c.filp c.payload c.retval] }
  | interrupted {t : ℕ} {c : WriteCall} : v.call t = some c →
      c.pc = .testWait ∨ c.pc = .asleep → v.outgoing = true →
      Step v (.signal t) (v.put t { c with retval := -ERESTARTSYS, pc := .exit })
  | signalLate {t : ℕ} {c : WriteCall} : v.call t = some c →
      c.pc = .testWait ∨ c.pc = .asleep → v.outgoing = false →
      Step v (.signal t) (v.put t { c with retval := toSsize c.count, pc := .exit })
  | takes {f : Flight} : v.urb.flight = some f →
      Step v .takes { v with
        urb := { v.urb with flight := some { f with sent := v.buffer.get f.length } } }
  | completes (status : ℤ) {actualLength : ℕ} {f : Flight} : v.urb.flight = some f →
      actualLength ≤ f.sent.length →
      Step v (.completes status actualLength) { v with
        urb := { v.urb with flight := none }
        outgoing := false
        call := fun t => (v.call t).map WriteCall.wake
        log := v.log ++ [.transferred f.call f.payload f.length (f.sent.take actualLength)
          status (reportedStatus status)] }
  | opens : Step v .openOutgoing { v with outgoing := false }

end WriteHalf

theorem job_of_writeCall {j : Job} {c : WriteCall} (h : writeCall? j = some c) :
    j = .writing c := by
  cases j <;> cases h
  rfl

theorem writeCall?_update (job : ℕ → Job) (t : ℕ) (j : Job) :
    (fun u => writeCall? (Function.update job t j u)) =
      Function.update (fun u => writeCall? (job u)) t (writeCall? j) :=
  funext fun u => Function.apply_update (fun _ => writeCall?) job t j u

theorem writeCall?_update_same {job : ℕ → Job} {t : ℕ} {j : Job}
    (h : writeCall? j = writeCall? (job t)) :
    (fun u => writeCall? (Function.update job t j u)) = fun u => writeCall? (job u) := by
  rw [writeCall?_update,h]
  exact Function.update_eq_self t _

theorem writeCall?_wakeWriter (j : Job) :
    writeCall? (wakeWriter j) = (writeCall? j).map WriteCall.wake := by cases j <;> rfl

theorem writeCall?_wakeReader (j : Job) : writeCall? (wakeReader j) = writeCall? j := by
  cases j <;> rfl

theorem WriteCall.wake_cases (c : WriteCall) :
    (c.pc = .asleep ∧ c.wake = { c with pc := .testWait }) ∨ (c.pc ≠ .asleep ∧ c.wake = c) := by
  unfold WriteCall.wake
  split_ifs with h
  · exact .inl ⟨h,rfl⟩
  · exact .inr ⟨h,rfl⟩

theorem writeHalf_call {s : Device} {t : ℕ} {c : WriteCall} (hj : s.job t = .writing c) :
    (writeHalf s).call t = some c := by simp only [writeHalf,hj,writeCall?]

theorem writeHalf_moved (s : Device) (t : ℕ) (nr : UsbNr) (c : WriteCall)
    (log : List WriteEvent) :
    writeHalf { s with nr := nr, job := Function.update s.job t (.writing c), writeLog := log } =
      { (writeHalf s).put t c with
        endpoint := nr.intOutEndpoint, urb := nr.intOutUrb, buffer := nr.intOutBuffer
        outgoing := nr.outgoingWrite, log := log } := by
  simp only [writeHalf,writeCall?_update,WriteHalf.put]
  rfl

theorem runWrite_writeHalf {s s' : Device} {t k : ℕ} {c : WriteCall}
    (hj : s.job t = .writing c) (h : runWrite s t c k = some s') :
    WriteHalf.Step (writeHalf s) (.run t k) (writeHalf s') := by
  have hc := writeHalf_call hj
  unfold runWrite at h
  cases hpc : c.pc <;> simp only [hpc,writeStep,writeEvents,reduceCtorEq,if_true,if_false,
    Option.map_some,Option.map_none,Option.some.injEq,List.append_nil] at h
  case exit =>
      subst h
      simp only [writeHalf,writeCall?_update]
      exact .returns hc hpc
  case checkCount =>
      split_ifs at h with hcount
      all_goals
        simp only [Option.map_some,Option.some.injEq] at h
        subst h
        rw [writeHalf_moved]
      · exact .rejects hc hpc hcount
      · rw [not_or] at hcount
        exact .accepts hc hpc (Nat.pos_of_ne_zero hcount.1) (Nat.le_of_not_lt hcount.2)
  case copy =>
      split_ifs at h with hk h0
      · simp only [Option.map_some,Option.some.injEq] at h
        subst h
        subst h0
        rw [writeHalf_moved,copyFromUser_all]
        exact .copies hc hpc
      · simp only [Option.map_some,Option.some.injEq] at h
        subst h
        rw [writeHalf_moved]
        exact .faults hc hpc (Nat.pos_of_ne_zero h0) hk
      · simp at h
  case fill =>
      subst h
      rw [writeHalf_moved]
      exact .fills hc hpc
  case setOutgoing =>
      subst h
      rw [writeHalf_moved]
      exact .sets hc hpc
  case submit =>
      subst h
      rw [writeHalf_moved]
      rcases usbSubmitUrb_cases s.nr.intOutUrb c.id c.payload k with ⟨hf,rfl,he⟩ | ⟨code,hcode,he⟩
      · simp only [he,if_true]
        exact .submits hc hpc hf
      · simp only [he,(show code ≠ 0 by omega),if_false]
        exact .refused hc hpc hcode
  case testWait =>
      by_cases hon : s.nr.outgoingWrite = true
      · rw [if_pos hon] at h
        simp only [Option.map_some,Option.some.injEq] at h
        subst h
        rw [writeHalf_moved]
        exact .sleeps hc hpc hon
      · rw [if_neg hon] at h
        simp only [Option.map_some,Option.some.injEq] at h
        subst h
        rw [writeHalf_moved]
        exact .waitEnds hc hpc (Bool.eq_false_iff.mpr hon)

theorem runRead_writeHalf {s s' : Device} {t k : ℕ} {c : ReadCall}
    (hj : s.job t = .reading c) (h : runRead s t c k = some s') :
    writeHalf s' = writeHalf s := by
  have hjob (j : Job) (hn : writeCall? j = none) :
      (fun u => writeCall? (Function.update s.job t j u)) = fun u => writeCall? (s.job u) :=
    writeCall?_update_same (by rw [hn,hj]; rfl)
  unfold runRead at h
  cases hpc : c.pc <;> simp only [hpc,readStep,readEvents,reduceCtorEq,if_true,if_false,
    Option.map_some,Option.map_none,Option.some.injEq] at h
  all_goals try split_ifs at h
  all_goals try simp only [Option.map_some,Option.map_none,Option.some.injEq,reduceCtorEq] at h
  all_goals subst h
  all_goals simp only [writeHalf]
  all_goals rw [hjob _ rfl]

/-- Every step of a device is a move of its write half or leaves it as it is. -/
theorem step_writeHalf {s s' : Device} {l : Label} (h : step s l = some s') :
    match writeAct s l with
    | some a => WriteHalf.Step (writeHalf s) a (writeHalf s')
    | none => writeHalf s' = writeHalf s := by
  cases l with
  | beginRead t filp count ppos =>
      cases hj : s.job t <;> simp only [step,hj,Option.some.injEq,reduceCtorEq] at h
      subst h
      simp only [writeAct,writeHalf]
      rw [writeCall?_update_same (by rw [hj]; rfl)]
  | beginWrite t filp payload =>
      cases hj : s.job t <;> simp only [step,hj,Option.some.injEq,reduceCtorEq] at h
      subst h
      simp only [writeAct,writeHalf,writeCall?_update]
      exact .begins t filp payload (by simp only [hj,writeCall?])
  | openWrite w =>
      simp only [step,Option.some.injEq] at h
      subst h
      cases w with
      | lenInBuffer => rfl
      | ongoingRead => rfl
      | outgoingWrite => exact .opens
  | run t k =>
      cases hj : s.job t with
      | idle => simp [step,hj] at h
      | reading c =>
          simp only [step,hj] at h
          simpa only [writeAct,hj,writeCall?,Option.map_none] using runRead_writeHalf hj h
      | writing c =>
          simp only [step,hj] at h
          simpa only [writeAct,hj,writeCall?,Option.map_some] using runWrite_writeHalf hj h
  | signal t =>
      cases hj : s.job t with
      | idle => simp [step,hj] at h
      | reading c =>
          simp only [step,hj,Option.map_eq_some_iff] at h
          obtain ⟨c',hs,rfl⟩ := h
          simp only [writeAct,hj,writeCall?,Option.map_none]
          simp only [writeHalf]
          rw [writeCall?_update_same (by rw [hj]; rfl)]
      | writing c =>
          have hc := writeHalf_call hj
          simp only [step,hj,Option.map_eq_some_iff] at h
          obtain ⟨c',hs,rfl⟩ := h
          simp only [writeAct,hj,writeCall?,Option.map_some]
          rw [writeHalf_moved]
          unfold writeSignal at hs
          split at hs
          case h_3 => simp at hs
          all_goals
            rename_i hpc
            split_ifs at hs with hon
            · cases hs
              exact .interrupted hc (by simp [hpc]) hon
            · cases hs
              exact .signalLate hc (by simp [hpc]) (Bool.eq_false_iff.mpr hon)
  | inCompletes status packet =>
      simp only [step,inCompletes] at h
      split at h
      · simp at h
      · split_ifs at h
        cases h
        simp only [writeAct,writeHalf,writeCall?_wakeReader,nrReadIntCallback]
  | outTakes =>
      simp only [step,outTakes] at h
      split at h
      · simp at h
      · rename_i f hf
        cases h
        exact .takes hf
  | outCompletes status actualLength =>
      simp only [step,outCompletes] at h
      split at h
      · simp at h
      · rename_i f hf
        split_ifs at h with hlen
        cases h
        have hc := WriteHalf.Step.completes (v := writeHalf s) status hf hlen
        simpa only [writeHalf,writeCall?_wakeWriter,nrWriteIntCallback,writeAct] using hc

/-- A predicate of the write half that its moves keep is kept by every step. -/
theorem writeHalf_kept {I : WriteHalf → Prop} {s s' : Device} {l : Label} (hI : I (writeHalf s))
    (hs : step s l = some s')
    (hmove : ∀ a, writeAct s l = some a → WriteHalf.Step (writeHalf s) a (writeHalf s') →
      I (writeHalf s')) : I (writeHalf s') := by
  have hw := step_writeHalf hs
  cases ha : writeAct s l with
  | none =>
      simp only [ha] at hw
      rwa [hw]
  | some a =>
      simp only [ha] at hw
      exact hmove a ha hw

theorem WriteHalf.Step.idle {v v' : WriteHalf} {a : WriteAct} {t : ℕ}
    (hs : WriteHalf.Step v a v') (ht : v.call t = none)
    (ha : ∀ filp payload, a ≠ .begin t filp payload) : v'.call t = none := by
  have other {u : ℕ} {c : WriteCall} (hc : v.call u = some c) : t ≠ u := by
    intro htu
    subst htu
    simp [ht] at hc
  cases hs with
  | begins u filp payload hidle =>
      have htu : t ≠ u := by
        intro htu
        subst htu
        exact ha filp payload rfl
      simp [htu,ht]
  | takes => exact ht
  | completes => simp [ht]
  | opens => exact ht
  | rejects hc | accepts hc | copies hc | faults hc | fills hc | sets hc | submits hc
  | refused hc | sleeps hc | waitEnds hc | returns hc | interrupted hc | signalLate hc =>
      simp [other hc,ht]

theorem WriteHalf.Step.log_grows {v v' : WriteHalf} {a : WriteAct} (hs : WriteHalf.Step v a v') :
    v.log <+: v'.log := by
  cases hs with
  | submits | refused | returns | completes => exact List.prefix_append _ _
  | _ => exact List.prefix_rfl

/-- The label of a move. -/
def WriteAct.label : WriteAct → Label
  | .begin t filp payload => .beginWrite t filp payload
  | .run t k => .run t k
  | .signal t => .signal t
  | .takes => .outTakes
  | .completes status actualLength => .outCompletes status actualLength
  | .openOutgoing => .openWrite .outgoingWrite

theorem label_of_writeAct {s : Device} {l : Label} {a : WriteAct} (h : writeAct s l = some a) :
    l = a.label := by
  cases l with
  | run t k =>
      obtain ⟨_,_,rfl⟩ := Option.map_eq_some_iff.mp h
      rfl
  | signal t =>
      obtain ⟨_,_,rfl⟩ := Option.map_eq_some_iff.mp h
      rfl
  | openWrite w =>
      cases w <;> cases h
      rfl
  | beginWrite | outTakes | outCompletes =>
      cases h
      rfl
  | _ => cases h

theorem writerAt_of_call {s : Device} {t : ℕ} {c : WriteCall}
    (hc : (writeHalf s).call t = some c) : writerAt s t = some c.pc := by
  simp only [writeHalf] at hc
  cases hj : s.job t <;> simp only [hj,writeCall?,reduceCtorEq,Option.some.injEq] at hc
  subst hc
  simp [writerAt,hj]

theorem call_of_writerAt {s : Device} {t : ℕ} {pc : WritePc} (h : writerAt s t = some pc) :
    ∃ c, (writeHalf s).call t = some c ∧ c.pc = pc := by
  unfold writerAt at h
  split at h
  · rename_i c hj
    exact ⟨c,writeHalf_call hj,by simpa using h⟩
  · cases h

end NrDriver.WriteHalfSteps
