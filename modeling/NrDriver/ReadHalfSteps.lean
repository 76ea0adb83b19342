import NrDriver.TransferSteps
import Mathlib.Tactic.SplitIfs

/-!
# The read half of a device

The part of the record, of the threads and of the log that `nr_read` and
`nr_read_int_callback` use, and everything a step of the device can do to it.
`step_readHalf` is the only place where the read half of `step` is unfolded:
each later invariant is a case analysis on `ReadHalf.Step`.
-/
namespace NrDriver.ReadHalfSteps
open KernelModel TransferSteps

structure ReadHalf where
  endpoint : EndpointDescriptor
  urb : Urb
  buffer : Buffer
  len : ℕ
  ongoing : Bool
  call : ℕ → Option ReadCall
  reads : ℕ
  packets : ℕ
  log : List ReadEvent

def readCall? : Job → Option ReadCall
  | .reading c => some c
  | _ => none

def readHalf (s : Device) : ReadHalf where
  endpoint := s.nr.intInEndpoint
  urb := s.nr.intInUrb
  buffer := s.nr.intInBuffer
  len := s.nr.lenInBuffer
  ongoing := s.nr.ongoingRead
  call t := readCall? (s.job t)
  reads := s.reads
  packets := s.packets
  log := s.readLog

inductive ReadAct where
  | begin (t filp count : ℕ) (ppos : ℤ)
  | run (t k : ℕ)
  | signal (t : ℕ)
  | completes (status : ℤ) (packet : List Byte)
  | openLen
  | openOngoing

/-- The move a label makes on the read half, if it makes one. -/
def readAct (s : Device) : Label → Option ReadAct
  | .beginRead t filp count ppos => some (.begin t filp count ppos)
  | .run t k => (readCall? (s.job t)).map fun _ => .run t k
  | .signal t => (readCall? (s.job t)).map fun _ => .signal t
  | .inCompletes status packet => some (.completes status packet)
  | .openWrite .lenInBuffer => some .openLen
  | .openWrite .ongoingRead => some .openOngoing
  | _ => none

namespace ReadHalf

def put (v : ReadHalf) (t : ℕ) (c : ReadCall) : ReadHalf :=
  { v with call := Function.update v.call t (some c) }

@[simp] theorem put_endpoint (v : ReadHalf) (t : ℕ) (c : ReadCall) :
    (v.put t c).endpoint = v.endpoint := rfl
@[simp] theorem put_urb (v : ReadHalf) (t : ℕ) (c : ReadCall) : (v.put t c).urb = v.urb := rfl
@[simp] theorem put_buffer (v : ReadHalf) (t : ℕ) (c : ReadCall) :
    (v.put t c).buffer = v.buffer := rfl
@[simp] theorem put_len (v : ReadHalf) (t : ℕ) (c : ReadCall) : (v.put t c).len = v.len := rfl
@[simp] theorem put_ongoing (v : ReadHalf) (t : ℕ) (c : ReadCall) :
    (v.put t c).ongoing = v.ongoing := rfl
@[simp] theorem put_packets (v : ReadHalf) (t : ℕ) (c : ReadCall) :
    (v.put t c).packets = v.packets := rfl
@[simp] theorem put_log (v : ReadHalf) (t : ℕ) (c : ReadCall) : (v.put t c).log = v.log := rfl
@[simp] theorem put_call (v : ReadHalf) (t : ℕ) (c : ReadCall) :
    (v.put t c).call = Function.update v.call t (some c) := rfl

/-- Everything one step can do to the read half. -/
inductive Step (v : ReadHalf) : ReadAct → ReadHalf → Prop
  | begins (t filp count : ℕ) (ppos : ℤ) : v.call t = none →
      Step v (.begin t filp count ppos)
        { v.put t (.start v.reads filp count ppos) with reads := v.reads + 1 }
  | seesOngoing {t k : ℕ} {c : ReadCall} : v.call t = some c → c.pc = .testOngoing →
      v.ongoing = true → Step v (.run t k) (v.put t { c with pc := .testWait })
  | seesQuiet {t k : ℕ} {c : ReadCall} : v.call t = some c → c.pc = .testOngoing →
      v.ongoing = false → Step v (.run t k) (v.put t { c with pc := .testLen })
  | sleeps {t k : ℕ} {c : ReadCall} : v.call t = some c → c.pc = .testWait →
      v.ongoing = true → Step v (.run t k) (v.put t { c with pc := .asleep })
  | waitEnds {t k : ℕ} {c : ReadCall} : v.call t = some c → c.pc = .testWait →
      v.ongoing = false → Step v (.run t k) (v.put t { c with rs := 0, pc := .testLen })
  | seesData {t k : ℕ} {c : ReadCall} : v.call t = some c → c.pc = .testLen →
      0 < v.len → Step v (.run t k) (v.put t { c with pc := .copy })
  | seesEmpty {t k : ℕ} {c : ReadCall} : v.call t = some c → c.pc = .testLen →
      v.len = 0 → Step v (.run t k) (v.put t { c with pc := .fill })
  | copies {t k : ℕ} {c : ReadCall} : v.call t = some c → c.pc = .copy → k ≤ v.len →
      Step v (.run t k)
        { v.put t { c with
            user := copyToUser v.buffer v.len k, rs := toSsize k, pc := .position } with
          log := v.log ++ [.copied c.id v.packets (copyToUser v.buffer v.len k)] }
  | advances {t k : ℕ} {c : ReadCall} : v.call t = some c → c.pc = .position →
      Step v (.run t k) (v.put t { c with
        ppos := toSsize (c.ppos + sizeSub v.len (toSize c.rs)), pc := .result })
  | computes {t k : ℕ} {c : ReadCall} : v.call t = some c → c.pc = .result →
      Step v (.run t k) (v.put t { c with
        rs := toSsize (sizeSub v.len (toSize c.rs)), pc := .clear })
  | clears {t k : ℕ} {c : ReadCall} : v.call t = some c → c.pc = .clear →
      Step v (.run t k) { v.put t { c with pc := .exit } with len := 0 }
  | fills {t k : ℕ} {c : ReadCall} : v.call t = some c → c.pc = .fill →
      Step v (.run t k) { v.put t { c with pc := .submit } with
        urb := usbFillIntUrb v.urb (.rcvint v.endpoint.bEndpointAddress)
          v.endpoint.packetSize v.endpoint.bInterval }
  | submits {t : ℕ} {c : ReadCall} : v.call t = some c → c.pc = .submit →
      v.urb.flight = none →
      Step v (.run t 0) { v.put t { c with rs := 0, pc := .setOngoing } with
        urb := { v.urb with flight := some ⟨v.urb.transferBufferLength,c.id,[],[]⟩ }
        log := v.log ++ [.submitted c.id v.urb 0] }
  | refused {t k : ℕ} {c : ReadCall} {code : ℤ} : v.call t = some c → c.pc = .submit →
      code < 0 → Step v (.run t k) { v.put t { c with rs := code, pc := .exit } with
        log := v.log ++ [.submitted c.id v.urb code] }
  | sets {t k : ℕ} {c : ReadCall} : v.call t = some c → c.pc = .setOngoing →
      Step v (.run t k) { v.put t { c with pc := .testOngoing } with ongoing := true }
  | returns {t k : ℕ} {c : ReadCall} : v.call t = some c → c.pc = .exit →
      Step v (.run t k) { v with
        call := Function.update v.call t none
        log := v.log ++ [.returned c.id c.filp c.count c.user c.rs c.ppos] }
  | interrupted {t : ℕ} {c : ReadCall} : v.call t = some c →
      c.pc = .testWait ∨ c.pc = .asleep → v.ongoing = true →
      Step v (.signal t) (v.put t { c with rs := -ERESTARTSYS, pc := .exit })
  | signalLate {t : ℕ} {c : ReadCall} : v.call t = some c →
      c.pc = .testWait ∨ c.pc = .asleep → v.ongoing = false →
      Step v (.signal t) (v.put t { c with rs := 0, pc := .testLen })
  | completes (status : ℤ) {packet : List Byte} {f : Flight} : v.urb.flight = some f →
      packet.length ≤ f.length →
      Step v (.completes status packet) { v with
        buffer := v.buffer.put packet
        urb := { v.urb with flight := none }
        len := packet.length
        ongoing := false
        call := fun t => (v.call t).map ReadCall.wake
        packets := v.packets + 1
        log := v.log ++ [.received status (reportedStatus status) packet] }
  | opensLen : Step v .openLen { v with len := 0 }
  | opensOngoing : Step v .openOngoing { v with ongoing := false }

end ReadHalf

theorem job_of_readCall {j : Job} {c : ReadCall} (h : readCall? j = some c) : j = .reading c := by
  cases j <;> cases h
  rfl

theorem readCall?_update (job : ℕ → Job) (t : ℕ) (j : Job) :
    (fun u => readCall? (Function.update job t j u)) =
      Function.update (fun u => readCall? (job u)) t (readCall? j) :=
  funext fun u => Function.apply_update (fun _ => readCall?) job t j u

theorem readCall?_update_same {job : ℕ → Job} {t : ℕ} {j : Job}
    (h : readCall? j = readCall? (job t)) :
    (fun u => readCall? (Function.update job t j u)) = fun u => readCall? (job u) := by
  rw [readCall?_update,h]
  exact Function.update_eq_self t _

theorem readCall?_wakeReader (j : Job) :
    readCall? (wakeReader j) = (readCall? j).map ReadCall.wake := by cases j <;> rfl

theorem readCall?_wakeWriter (j : Job) : readCall? (wakeWriter j) = readCall? j := by
  cases j <;> rfl

theorem ReadCall.wake_cases (c : ReadCall) :
    (c.pc = .asleep ∧ c.wake = { c with pc := .testWait }) ∨ (c.pc ≠ .asleep ∧ c.wake = c) := by
  unfold ReadCall.wake
  split_ifs with h
  · exact .inl ⟨h,rfl⟩
  · exact .inr ⟨h,rfl⟩

theorem readHalf_call {s : Device} {t : ℕ} {c : ReadCall} (hj : s.job t = .reading c) :
    (readHalf s).call t = some c := by simp only [readHalf,hj,readCall?]

theorem readHalf_moved (s : Device) (t : ℕ) (nr : UsbNr) (c : ReadCall) (log : List ReadEvent) :
    readHalf { s with nr := nr, job := Function.update s.job t (.reading c), readLog := log } =
      { (readHalf s).put t c with
        endpoint := nr.intInEndpoint, urb := nr.intInUrb, buffer := nr.intInBuffer
        len := nr.lenInBuffer, ongoing := nr.ongoingRead, log := log } := by
  simp only [readHalf,readCall?_update,ReadHalf.put]
  rfl

theorem runRead_readHalf {s s' : Device} {t k : ℕ} {c : ReadCall}
    (hj : s.job t = .reading c) (h : runRead s t c k = some s') :
    ReadHalf.Step (readHalf s) (.run t k) (readHalf s') := by
  have hc := readHalf_call hj
  unfold runRead at h
  cases hpc : c.pc <;> simp only [hpc,readStep,readEvents,reduceCtorEq,if_true,if_false,
    Option.map_some,Option.map_none,Option.some.injEq,List.append_nil] at h
  case exit =>
      subst h
      simp only [readHalf,readCall?_update]
      exact .returns hc hpc
  case testOngoing =>
      subst h
      rw [readHalf_moved]
      by_cases hon : s.nr.ongoingRead = true
      · rw [if_pos hon]
        exact .seesOngoing hc hpc hon
      · rw [if_neg hon]
        exact .seesQuiet hc hpc (Bool.eq_false_iff.mpr hon)
  case testWait =>
      cases hon : s.nr.ongoingRead
      · simp only [hon,Bool.false_eq_true,if_false,Option.map_some,Option.some.injEq] at h
        subst h
        rw [readHalf_moved]
        exact .waitEnds hc hpc hon
      · simp only [hon,if_true,Option.map_some,Option.some.injEq] at h
        subst h
        rw [readHalf_moved]
        exact .sleeps hc hpc hon
  case testLen =>
      subst h
      rw [readHalf_moved]
      by_cases hlen : 0 < s.nr.lenInBuffer
      · rw [if_pos hlen]
        exact .seesData hc hpc hlen
      · rw [if_neg hlen]
        exact .seesEmpty hc hpc (Nat.eq_zero_of_not_pos hlen)
  case copy =>
      split_ifs at h with hk
      · simp only [Option.map_some,Option.some.injEq] at h
        subst h
        rw [readHalf_moved]
        exact .copies hc hpc hk
      · simp at h
  case position =>
      subst h
      rw [readHalf_moved]
      exact .advances hc hpc
  case result =>
      subst h
      rw [readHalf_moved]
      exact .computes hc hpc
  case clear =>
      subst h
      rw [readHalf_moved]
      exact .clears hc hpc
  case fill =>
      subst h
      rw [readHalf_moved]
      exact .fills hc hpc
  case submit =>
      subst h
      rw [readHalf_moved]
      rcases usbSubmitUrb_cases s.nr.intInUrb c.id [] k with ⟨hf,rfl,he⟩ | ⟨code,hcode,he⟩
      · simp only [he]
        exact .submits hc hpc hf
      · simp only [he,hcode,if_true]
        exact .refused hc hpc hcode
  case setOngoing =>
      subst h
      rw [readHalf_moved]
      exact .sets hc hpc

theorem runWrite_readHalf {s s' : Device} {t k : ℕ} {c : WriteCall}
    (hj : s.job t = .writing c) (h : runWrite s t c k = some s') :
    readHalf s' = readHalf s := by
  have hjob (j : Job) (hn : readCall? j = none) :
      (fun u => readCall? (Function.update s.job t j u)) = fun u => readCall? (s.job u) :=
    readCall?_update_same (by rw [hn,hj]; rfl)
  unfold runWrite at h
  cases hpc : c.pc <;> simp only [hpc,writeStep,writeEvents,reduceCtorEq,if_true,if_false,
    Option.map_some,Option.map_none,Option.some.injEq] at h
  all_goals try split_ifs at h
  all_goals try simp only [Option.map_some,Option.map_none,Option.some.injEq,reduceCtorEq] at h
  all_goals subst h
  all_goals simp only [readHalf]
  all_goals rw [hjob _ rfl]

/-- Every step of a device is a move of its read half or leaves it as it is. -/
theorem step_readHalf {s s' : Device} {l : Label} (h : step s l = some s') :
    match readAct s l with
    | some a => ReadHalf.Step (readHalf s) a (readHalf s')
    | none => readHalf s' = readHalf s := by
  cases l with
  | beginRead t filp count ppos =>
      cases hj : s.job t <;> simp only [step,hj,Option.some.injEq,reduceCtorEq] at h
      subst h
      simp only [readAct,readHalf,readCall?_update]
      exact .begins t filp count ppos (by simp only [hj,readCall?])
  | beginWrite t filp payload =>
      cases hj : s.job t <;> simp only [step,hj,Option.some.injEq,reduceCtorEq] at h
      subst h
      simp only [readAct,readHalf]
      rw [readCall?_update_same (by rw [hj]; rfl)]
  | openWrite w =>
      simp only [step,Option.some.injEq] at h
      subst h
      cases w with
      | lenInBuffer => exact .opensLen
      | ongoingRead => exact .opensOngoing
      | outgoingWrite => rfl
  | run t k =>
      cases hj : s.job t with
      | idle => simp [step,hj] at h
      | reading c =>
          simp only [step,hj] at h
          simpa only [readAct,hj,readCall?,Option.map_some] using runRead_readHalf hj h
      | writing c =>
          simp only [step,hj] at h
          simpa only [readAct,hj,readCall?,Option.map_none] using runWrite_readHalf hj h
  | signal t =>
      cases hj : s.job t with
      | idle => simp [step,hj] at h
      | reading c =>
          have hc := readHalf_call hj
          simp only [step,hj,Option.map_eq_some_iff] at h
          obtain ⟨c',hs,rfl⟩ := h
          simp only [readAct,hj,readCall?,Option.map_some]
          rw [readHalf_moved]
          unfold readSignal at hs
          split at hs
          case h_3 => simp at hs
          all_goals
            rename_i hpc
            split_ifs at hs with hon
            · cases hs
              exact .interrupted hc (by simp [hpc]) hon
            · cases hs
              exact .signalLate hc (by simp [hpc]) (Bool.eq_false_iff.mpr hon)
      | writing c =>
          simp only [step,hj,Option.map_eq_some_iff] at h
          obtain ⟨c',hs,rfl⟩ := h
          simp only [readAct,hj,readCall?,Option.map_none]
          simp only [readHalf]
          rw [readCall?_update_same (by rw [hj]; rfl)]
  | inCompletes status packet =>
      simp only [step,inCompletes] at h
      split at h
      · simp at h
      · rename_i f hf
        split_ifs at h with hlen
        cases h
        have hc := ReadHalf.Step.completes (v := readHalf s) status hf hlen
        simpa only [readHalf,readCall?_wakeReader,nrReadIntCallback,readAct] using hc
  | outTakes =>
      simp only [step,outTakes] at h
      split at h
      · simp at h
      · cases h
        rfl
  | outCompletes status actualLength =>
      simp only [step,outCompletes] at h
      split at h
      · simp at h
      · split_ifs at h
        cases h
        simp only [readAct,readHalf,readCall?_wakeWriter,nrWriteIntCallback]

/-- A predicate of the read half that its moves keep is kept by every step. -/
theorem readHalf_kept {I : ReadHalf → Prop} {s s' : Device} {l : Label} (hI : I (readHalf s))
    (hs : step s l = some s')
    (hmove : ∀ a, readAct s l = some a → ReadHalf.Step (readHalf s) a (readHalf s') →
      I (readHalf s')) : I (readHalf s') := by
  have hr := step_readHalf hs
  cases ha : readAct s l with
  | none =>
      simp only [ha] at hr
      rwa [hr]
  | some a =>
      simp only [ha] at hr
      exact hmove a ha hr

theorem ReadHalf.Step.idle {v v' : ReadHalf} {a : ReadAct} {t : ℕ} (hs : ReadHalf.Step v a v')
    (ht : v.call t = none) (ha : ∀ filp count ppos, a ≠ .begin t filp count ppos) :
    v'.call t = none := by
  have other {u : ℕ} {c : ReadCall} (hc : v.call u = some c) : t ≠ u := by
    intro htu
    subst htu
    simp [ht] at hc
  cases hs with
  | begins u filp count ppos hidle =>
      have htu : t ≠ u := by
        intro htu
        subst htu
        exact ha filp count ppos rfl
      simp [htu,ht]
  | completes => simp [ht]
  | opensLen => exact ht
  | opensOngoing => exact ht
  | seesOngoing hc | seesQuiet hc | sleeps hc | waitEnds hc | seesData hc | seesEmpty hc
  | copies hc | advances hc | computes hc | clears hc | fills hc | submits hc | refused hc
  | sets hc | returns hc | interrupted hc | signalLate hc =>
      simp [other hc,ht]

theorem ReadHalf.Step.log_grows {v v' : ReadHalf} {a : ReadAct} (hs : ReadHalf.Step v a v') :
    v.log <+: v'.log := by
  cases hs with
  | copies | submits | refused | returns | completes => exact List.prefix_append _ _
  | _ => exact List.prefix_rfl

theorem ReadHalf.Step.copy_inv {v v' : ReadHalf} {t k : ℕ} {c : ReadCall}
    (hs : ReadHalf.Step v (.run t k) v') (hc : v.call t = some c) (hpc : c.pc = .copy) :
    k ≤ v.len ∧ v' = { v.put t { c with
        user := copyToUser v.buffer v.len k, rs := toSsize k, pc := .position } with
      log := v.log ++ [.copied c.id v.packets (copyToUser v.buffer v.len k)] } := by
  cases hs with
  | copies hd _ hk =>
      rw [hc] at hd
      cases hd
      exact ⟨hk,rfl⟩
  | _ => simp_all

theorem ReadHalf.Step.result_inv {v v' : ReadHalf} {t k : ℕ} {c : ReadCall}
    (hs : ReadHalf.Step v (.run t k) v') (hc : v.call t = some c) (hpc : c.pc = .result) :
    v' = v.put t { c with rs := toSsize (sizeSub v.len (toSize c.rs)), pc := .clear } := by
  cases hs with
  | computes hd _ =>
      rw [hc] at hd
      cases hd
      rfl
  | _ => simp_all

/-- The label of a move. -/
def ReadAct.label : ReadAct → Label
  | .begin t filp count ppos => .beginRead t filp count ppos
  | .run t k => .run t k
  | .signal t => .signal t
  | .completes status packet => .inCompletes status packet
  | .openLen => .openWrite .lenInBuffer
  | .openOngoing => .openWrite .ongoingRead

theorem label_of_readAct {s : Device} {l : Label} {a : ReadAct} (h : readAct s l = some a) :
    l = a.label := by
  cases l with
  | run t k =>
      obtain ⟨_,_,rfl⟩ := Option.map_eq_some_iff.mp h
      rfl
  | signal t =>
      obtain ⟨_,_,rfl⟩ := Option.map_eq_some_iff.mp h
      rfl
  | openWrite w =>
      cases w <;> cases h
      all_goals rfl
  | beginRead | inCompletes =>
      cases h
      rfl
  | _ => cases h

theorem readerAt_of_call {s : Device} {t : ℕ} {c : ReadCall} (hc : (readHalf s).call t = some c) :
    readerAt s t = some c.pc := by
  simp only [readHalf] at hc
  cases hj : s.job t <;> simp only [hj,readCall?,reduceCtorEq,Option.some.injEq] at hc
  subst hc
  simp [readerAt,hj]

theorem call_of_readerAt {s : Device} {t : ℕ} {pc : ReadPc} (h : readerAt s t = some pc) :
    ∃ c, (readHalf s).call t = some c ∧ c.pc = pc := by
  unfold readerAt at h
  split at h
  · rename_i c hj
    exact ⟨c,readHalf_call hj,by simpa using h⟩
  · cases h

end NrDriver.ReadHalfSteps
