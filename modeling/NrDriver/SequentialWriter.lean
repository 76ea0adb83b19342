import NrDriver.PayloadIntegrity
import NrDriver.IdleThreads

/-!
# The calls of a single writer

Runs with one writer and no further opens, on which no signal ends a wait while
`outgoing_write` is set. A call then leaves nothing of its URB behind: whatever
the buffer, the flag and the filled URB were when it began, its own statements
write them before they matter, and its URB has completed when it returns.

The invariant gives each statement of a call its own condition (`Stage`). The
URBs accepted so far are those of the calls that returned their count, and one
more from the submission of a call to its return. What a completion leaves of
the bytes of a payload is a parameter: a prefix when transfers may end early,
the payload itself when none does.
-/
namespace NrDriver.SequentialWriter
open KernelModel TransferSteps WriteHalfSteps TransferBounds WriterExclusion PayloadIntegrity
  IdleThreads LabelledRuns

/-- The call of an accepted URB, and the contents of the buffer it was submitted with. -/
def acceptedUrb : WriteEvent → Option (ℕ × List Byte)
  | .submitted call _ _ contents code => if code = 0 then some (call,contents) else none
  | _ => none

/-- A call that returned its count, and its payload. -/
def countReturn : WriteEvent → Option (ℕ × List Byte)
  | .returned call _ payload retval =>
      if retval = payload.length then some (call,payload) else none
  | _ => none

def acceptedUrbs (log : List WriteEvent) : List (ℕ × List Byte) := log.filterMap acceptedUrb

def countReturns (log : List WriteEvent) : List (ℕ × List Byte) := log.filterMap countReturn

theorem acceptedUrbs_snoc (log : List WriteEvent) (e : WriteEvent) :
    acceptedUrbs (log ++ [e]) = acceptedUrbs log ++ (acceptedUrb e).toList := by
  cases he : acceptedUrb e <;> simp [acceptedUrbs,he]

theorem countReturns_snoc (log : List WriteEvent) (e : WriteEvent) :
    countReturns (log ++ [e]) = countReturns log ++ (countReturn e).toList := by
  cases he : countReturn e <;> simp [countReturns,he]

/-- The call has submitted nothing, and no earlier call has left a URB in flight. -/
structure Quiet (v : WriteHalf) (c : WriteCall) : Prop where
  flight : v.urb.flight = none
  urbs : acceptedUrbs v.log = countReturns v.log
  unsent : transfersOf c.id v.log = []

/-- The URB of the call is in flight, and the buffer still holds its payload. -/
structure Flying (v : WriteHalf) (c : WriteCall) (f : Flight) : Prop where
  flight : v.urb.flight = some f
  call : f.call = c.id
  payload : f.payload = c.payload
  length : f.length = c.count
  buffer : v.buffer.get c.count = c.payload
  sent : f.sent = [] ∨ f.sent = c.payload
  outgoing : v.outgoing = true
  urbs : acceptedUrbs v.log = countReturns v.log ++ [(c.id,c.payload)]
  unsent : transfersOf c.id v.log = []

section Stages
variable (G : List Byte → List Byte → Prop)

/-- The URB of the call has completed, with bytes that `G` allows for its payload. -/
structure Landed (v : WriteHalf) (c : WriteCall) : Prop where
  flight : v.urb.flight = none
  outgoing : v.outgoing = false
  urbs : acceptedUrbs v.log = countReturns v.log ++ [(c.id,c.payload)]
  sent : ∃ bytes, G bytes c.payload ∧ transfersOf c.id v.log = [bytes]

/-- What holds of the call at each of its statements. -/
def Stage (v : WriteHalf) (c : WriteCall) : Prop :=
  match c.pc with
  | .checkCount | .copy => Quiet v c
  | .fill => Quiet v c ∧ v.buffer.get c.count = c.payload
  | .setOutgoing => Quiet v c ∧ v.buffer.get c.count = c.payload ∧
      v.urb.transferBufferLength = c.count
  | .submit => Quiet v c ∧ v.buffer.get c.count = c.payload ∧
      v.urb.transferBufferLength = c.count ∧ v.outgoing = true
  | .testWait => (∃ f, Flying v c f) ∨ Landed G v c
  | .asleep => ∃ f, Flying v c f
  | .exit => (c.retval < 0 ∧ Quiet v c) ∨ (c.retval = c.count ∧ Landed G v c)

/-- What the return value of a call says of the transfers recorded before it. -/
def Reported (log : List WriteEvent) (id : ℕ) (payload : List Byte) (retval : ℤ) : Prop :=
  (retval < 0 ∧ transfersOf id log = []) ∨
    (retval = payload.length ∧ ∃ bytes, G bytes payload ∧ transfersOf id log = [bytes])

/-- Every call is reported truly when it returns, and transfers nothing later. -/
def Settled (log : List WriteEvent) : Prop :=
  ∀ before id filp payload (retval : ℤ) after,
    log = before ++ .returned id filp payload retval :: after →
      Reported G before id payload retval ∧ transfersOf id after = []

structure Sequential (w : ℕ) (v : WriteHalf) : Prop where
  sole : SoleWriter w v
  issued : ∀ c, v.call w = some c → c.id < v.writes
  unissued : ∀ id, v.writes ≤ id → transfersOf id v.log = []
  past : ∀ id filp payload (retval : ℤ), .returned id filp payload retval ∈ v.log →
    id < v.writes ∧ ∀ c, v.call w = some c → id ≠ c.id
  idle : v.call w = none → v.urb.flight = none ∧ acceptedUrbs v.log = countReturns v.log
  stage : ∀ c, v.call w = some c → Stage G v c
  settled : Settled G v.log

end Stages

variable {G : List Byte → List Byte → Prop}

/-- Nothing has been submitted, the URB is in flight, or it has completed. -/
theorem Stage.cases {v : WriteHalf} {c : WriteCall} (h : Stage G v c) :
    (waiting c.pc = false ∧ Quiet v c) ∨ (waiting c.pc = true ∧ ∃ f, Flying v c f) ∨
      Landed G v c := by
  unfold Stage at h
  cases hpc : c.pc <;> simp only [hpc] at h
  case checkCount | copy => exact .inl ⟨rfl,h⟩
  case fill | setOutgoing | submit => exact .inl ⟨rfl,h.1⟩
  case testWait =>
      rcases h with hflies | hlanded
      · exact .inr (.inl ⟨rfl,hflies⟩)
      · exact .inr (.inr hlanded)
  case asleep => exact .inr (.inl ⟨rfl,h⟩)
  case exit =>
      rcases h with ⟨_,hquiet⟩ | ⟨_,hlanded⟩
      · exact .inl ⟨rfl,hquiet⟩
      · exact .inr (.inr hlanded)

theorem Settled.snoc {log : List WriteEvent} (h : Settled G log) {e : WriteEvent}
    (hnew : ∀ id filp payload (retval : ℤ), e = .returned id filp payload retval →
      Reported G log id payload retval)
    (hold : ∀ id filp payload (retval : ℤ), .returned id filp payload retval ∈ log →
      transferOf id e = none) : Settled G (log ++ [e]) := by
  intro before id filp payload retval after heq
  rcases List.eq_nil_or_concat after with rfl | ⟨after',x,rfl⟩
  · obtain ⟨rfl,he⟩ := List.append_inj' heq rfl
    cases he
    exact ⟨hnew id filp payload retval rfl,rfl⟩
  · have hlast : log ++ [e] = (before ++ .returned id filp payload retval :: after') ++ [x] := by
      simpa using heq
    obtain ⟨hlog,he⟩ := List.append_inj' hlast rfl
    cases he
    obtain ⟨hreported,hlater⟩ := h before id filp payload retval after' hlog
    refine ⟨hreported,?_⟩
    rw [List.concat_eq_append,transfersOf_snoc_none ?_,hlater]
    apply hold id filp payload retval
    simp [hlog]

theorem Settled.submitted {log : List WriteEvent} (h : Settled G log) {call : ℕ}
    {payload contents : List Byte} {urb : Urb} {code : ℤ} :
    Settled G (log ++ [.submitted call payload urb contents code]) :=
  h.snoc (by simp) fun _ _ _ _ _ => rfl

theorem Quiet.of_same {v v' : WriteHalf} {c c' : WriteCall} (h : Quiet v c)
    (hf : v'.urb.flight = v.urb.flight) (hlog : v'.log = v.log) (hid : c'.id = c.id) :
    Quiet v' c' := by
  refine ⟨?_,?_,?_⟩
  · rw [hf,h.flight]
  · rw [hlog,h.urbs]
  · rw [hlog,hid,h.unsent]

theorem Quiet.refused {v v' : WriteHalf} {c c' : WriteCall} (h : Quiet v c)
    (hf : v'.urb.flight = v.urb.flight) {call : ℕ} {payload contents : List Byte} {urb : Urb}
    {code : ℤ} (hcode : code < 0)
    (hlog : v'.log = v.log ++ [.submitted call payload urb contents code]) (hid : c'.id = c.id) :
    Quiet v' c' := by
  have hurbs : acceptedUrbs v'.log = acceptedUrbs v.log := by
    rw [hlog,acceptedUrbs_snoc]
    simp [acceptedUrb,show code ≠ 0 by omega]
  have hreturns : countReturns v'.log = countReturns v.log := by
    rw [hlog,countReturns_snoc]
    simp [countReturn]
  refine ⟨?_,?_,?_⟩
  · rw [hf,h.flight]
  · rw [hurbs,hreturns,h.urbs]
  · rw [hlog,transfersOf_snoc_none rfl,hid,h.unsent]

/-- The moves of a run with one writer, on which a signal finds a waiting call
only after the callback, and a completion leaves what `G` allows. -/
def Orderly (G : List Byte → List Byte → Prop) (w : ℕ) (v : WriteHalf) : WriteAct → Prop
  | .begin t _ _ => t = w
  | .signal t => ∀ c, v.call t = some c → waiting c.pc = true → v.outgoing = false
  | .completes _ n => ∀ f c, v.urb.flight = some f → n ≤ f.sent.length → Flying v c f →
      G (f.sent.take n) c.payload
  | .openOutgoing => False
  | _ => True

/-- The count of a waiting call passed the check, so that it comes out right as
the return value. -/
theorem toSsize_count {ep : EndpointDescriptor} {v : WriteHalf} (hb : WriteBounds ep v) {t : ℕ}
    {c : WriteCall} (hc : v.call t = some c) (hw : waiting c.pc = true) :
    toSsize c.count = c.count := by
  have hcounted : counted c.pc = true := by
    cases hpc : c.pc <;> simp only [hpc,waiting,Bool.false_eq_true] at hw
    all_goals rfl
  have hle := (hb.count t c hc hcounted).2
  have hlt := ep.packetSize_lt
  apply toSsize_natCast
  omega

namespace Sequential
variable {w : ℕ} {v v' : WriteHalf} {a : WriteAct}

theorem thread (h : Sequential G w v) {t : ℕ} {c : WriteCall} (hc : v.call t = some c) : t = w := by
  by_contra ht
  simp [h.sole t ht] at hc

/-- While a call is in progress, only that call has to be spoken of. -/
theorem of_mine {c : WriteCall} (hmine : v.call w = some c) (hsole : SoleWriter w v)
    (hissued : c.id < v.writes) (hunissued : ∀ id, v.writes ≤ id → transfersOf id v.log = [])
    (hpast : ∀ id filp payload (retval : ℤ), .returned id filp payload retval ∈ v.log →
      id < v.writes ∧ id ≠ c.id)
    (hstage : Stage G v c) (hsettled : Settled G v.log) : Sequential G w v := by
  have same {d : WriteCall} (hd : v.call w = some d) : c = d :=
    Option.some.inj (hmine.symm.trans hd)
  refine ⟨hsole,?_,hunissued,?_,?_,?_,hsettled⟩
  · intro d hd
    obtain rfl := same hd
    exact hissued
  · intro id filp payload retval hmem
    obtain ⟨hlt,hne⟩ := hpast id filp payload retval hmem
    refine ⟨hlt,fun d hd => ?_⟩
    obtain rfl := same hd
    exact hne
  · intro hnone
    simp [hmine] at hnone
  · intro d hd
    obtain rfl := same hd
    exact hstage

/-- A statement of the call that neither returns nor transfers. -/
theorem of_call (h : Sequential G w v) {c c' : WriteCall} (hc : v.call w = some c)
    (hcall : v'.call = Function.update v.call w (some c')) (hid : c'.id = c.id)
    (hwrites : v'.writes = v.writes)
    (hlog : v'.log = v.log ∨
      ∃ call payload urb contents code,
        v'.log = v.log ++ [.submitted call payload urb contents code])
    (hstage : Stage G v' c') : Sequential G w v' := by
  have htransfers (id : ℕ) : transfersOf id v'.log = transfersOf id v.log := by
    rcases hlog with he | ⟨call,payload,urb,contents,code,he⟩
    · rw [he]
    · rw [he,transfersOf_snoc_none rfl]
  have hreturned {id filp : ℕ} {payload : List Byte} {retval : ℤ}
      (hmem : .returned id filp payload retval ∈ v'.log) :
      .returned id filp payload retval ∈ v.log := by
    rcases hlog with he | ⟨_,_,_,_,_,he⟩
    · rwa [he] at hmem
    · simpa [he] using hmem
  apply of_mine (c := c')
  · simp [hcall]
  · intro t ht
    rw [hcall,Function.update_of_ne ht,h.sole t ht]
  · rw [hid,hwrites]
    exact h.issued c hc
  · intro id hlt
    rw [htransfers]
    exact h.unissued id (hwrites ▸ hlt)
  · intro id filp payload retval hmem
    obtain ⟨hlt,hne⟩ := h.past id filp payload retval (hreturned hmem)
    rw [hid,hwrites]
    exact ⟨hlt,hne c hc⟩
  · exact hstage
  · rcases hlog with he | ⟨_,_,_,_,_,he⟩
    · rw [he]
      exact h.settled
    · rw [he]
      exact h.settled.submitted

theorem begins (h : Sequential G w v) {filp : ℕ} {payload : List Byte}
    (hnone : v.call w = none) (hcall : v'.call = (v.put w (.start v.writes filp payload)).call)
    (hf : v'.urb.flight = v.urb.flight) (hwrites : v'.writes = v.writes + 1)
    (hlog : v'.log = v.log) : Sequential G w v' := by
  obtain ⟨hflight,hurbs⟩ := h.idle hnone
  have hquiet : Quiet v' (.start v.writes filp payload) := by
    refine ⟨?_,?_,?_⟩
    · rw [hf,hflight]
    · rw [hlog,hurbs]
    · rw [hlog]
      exact h.unissued v.writes (Nat.le_refl _)
  apply of_mine (c := .start v.writes filp payload)
  · simp [hcall]
  · intro t ht
    rw [hcall,WriteHalf.put_call,Function.update_of_ne ht,h.sole t ht]
  · rw [hwrites]
    exact Nat.lt_succ_self _
  · intro id hid
    rw [hlog]
    exact h.unissued id (by omega)
  · intro id f p retval hmem
    rw [hlog] at hmem
    have hlt := (h.past id f p retval hmem).1
    simp only [WriteCall.start]
    omega
  · exact hquiet
  · rw [hlog]
    exact h.settled

/-- The return leaves nothing in flight and the lists of URBs and of counts equal. -/
theorem returns (h : Sequential G w v) {c : WriteCall} (hc : v.call w = some c)
    (hpc : c.pc = .exit) (hcall : v'.call = Function.update v.call w none)
    (hf : v'.urb.flight = v.urb.flight) (hwrites : v'.writes = v.writes)
    (hlog : v'.log = v.log ++ [.returned c.id c.filp c.payload c.retval]) :
    Sequential G w v' := by
  have hnone : v'.call w = none := by simp [hcall]
  have hstage := h.stage c hc
  simp only [Stage,hpc] at hstage
  have htransfers (id : ℕ) : transfersOf id v'.log = transfersOf id v.log := by
    rw [hlog,transfersOf_snoc_none rfl]
  have haccepted : acceptedUrbs v'.log = acceptedUrbs v.log := by
    rw [hlog,acceptedUrbs_snoc]
    simp [acceptedUrb]
  have hidle : v'.urb.flight = none ∧ acceptedUrbs v'.log = countReturns v'.log := by
    rw [hf,haccepted,hlog,countReturns_snoc]
    rcases hstage with ⟨hneg,hquiet⟩ | ⟨hret,hlanded⟩
    · have hcount : c.retval ≠ c.payload.length := by omega
      exact ⟨hquiet.flight,by simp [countReturn,hcount,hquiet.urbs]⟩
    · have hcount : c.retval = c.payload.length := hret
      exact ⟨hlanded.flight,by simp [countReturn,hcount,hlanded.urbs]⟩
  refine ⟨?_,?_,?_,?_,?_,?_,?_⟩
  · intro t ht
    rw [hcall,Function.update_of_ne ht,h.sole t ht]
  · intro d hd
    simp [hnone] at hd
  · intro id hid
    rw [htransfers]
    exact h.unissued id (hwrites ▸ hid)
  · intro id filp payload retval hmem
    refine ⟨?_,fun d hd => by simp [hnone] at hd⟩
    rw [hwrites]
    rw [hlog,List.mem_append,List.mem_singleton] at hmem
    rcases hmem with hmem | hmem
    · exact (h.past id filp payload retval hmem).1
    · cases hmem
      exact h.issued c hc
  · exact fun _ => hidle
  · intro d hd
    simp [hnone] at hd
  · rw [hlog]
    refine h.settled.snoc ?_ fun _ _ _ _ _ => rfl
    intro id filp payload retval he
    cases he
    rcases hstage with ⟨hneg,hquiet⟩ | ⟨hret,hlanded⟩
    · exact .inl ⟨hneg,hquiet.unsent⟩
    · exact .inr ⟨hret,hlanded.sent⟩

theorem flying (h : Sequential G w v) {f : Flight} (hf : v.urb.flight = some f) :
    ∃ c, v.call w = some c ∧ waiting c.pc = true ∧ Flying v c f := by
  cases hc : v.call w with
  | none => simp [(h.idle hc).1] at hf
  | some c =>
      rcases (h.stage c hc).cases with ⟨_,hquiet⟩ | ⟨hw,g,hg⟩ | hlanded
      · simp [hquiet.flight] at hf
      · obtain rfl : g = f := Option.some.inj (hg.flight.symm.trans hf)
        exact ⟨c,rfl,hw,hg⟩
      · simp [hlanded.flight] at hf

theorem takes (h : Sequential G w v) {f : Flight} (hf : v.urb.flight = some f) :
    Sequential G w { v with
      urb := { v.urb with flight := some { f with sent := v.buffer.get f.length } } } := by
  obtain ⟨c,hc,hw,hfly⟩ := h.flying hf
  have hsent : v.buffer.get f.length = c.payload := by rw [hfly.length,hfly.buffer]
  have hnew : Flying { v with
      urb := { v.urb with flight := some { f with sent := v.buffer.get f.length } } } c
      { f with sent := v.buffer.get f.length } :=
    ⟨rfl,hfly.call,hfly.payload,hfly.length,hfly.buffer,.inr hsent,hfly.outgoing,hfly.urbs,
      hfly.unsent⟩
  apply of_mine (c := c)
  · exact hc
  · exact h.sole
  · exact h.issued c hc
  · exact h.unissued
  · intro id filp payload retval hmem
    obtain ⟨hlt,hne⟩ := h.past id filp payload retval hmem
    exact ⟨hlt,hne c hc⟩
  · cases hpc : c.pc <;> simp only [hpc,waiting,Bool.false_eq_true] at hw
    · simp only [Stage,hpc]
      exact .inl ⟨_,hnew⟩
    · simp only [Stage,hpc]
      exact ⟨_,hnew⟩
  · exact h.settled

theorem completes (h : Sequential G w v) {f : Flight} (hf : v.urb.flight = some f) {n : ℕ}
    (hG : ∀ c, Flying v c f → G (f.sent.take n) c.payload) {status : ℤ} {reported : Bool}
    (hcall : v'.call = fun t => (v.call t).map WriteCall.wake) (hwrites : v'.writes = v.writes)
    (hflight : v'.urb.flight = none) (hout : v'.outgoing = false)
    (hlog : v'.log = v.log ++
      [.transferred f.call f.payload f.length (f.sent.take n) status reported]) :
    Sequential G w v' := by
  obtain ⟨c,hc,hw,hfly⟩ := h.flying hf
  have hwoken : c.wake.pc = .testWait := by
    rcases WriteCall.wake_cases c with ⟨_,he⟩ | ⟨hpc,he⟩
    · rw [he]
    · rw [he]
      cases hp : c.pc <;> simp only [hp,waiting,Bool.false_eq_true] at hw
      · rfl
      · exact (hpc hp).elim
  obtain ⟨hid,hpay,_⟩ := WriteCall.wake_same c
  have hother {id : ℕ} (hne : id ≠ c.id) : transfersOf id v'.log = transfersOf id v.log := by
    rw [hlog,transfersOf_snoc_none]
    simp [transferOf,hfly.call,hne.symm]
  have hlanded : Landed G v' c.wake := by
    refine ⟨hflight,hout,?_,?_⟩
    · rw [hlog,acceptedUrbs_snoc,countReturns_snoc,hfly.urbs,hid,hpay]
      simp [acceptedUrb,countReturn]
    · have hown : transferOf c.id (.transferred f.call f.payload f.length (f.sent.take n) status
          reported) = some (f.sent.take n) := by simp [transferOf,hfly.call]
      refine ⟨f.sent.take n,by rw [hpay]; exact hG c hfly,?_⟩
      rw [hlog,hid,transfersOf_snoc_some hown,hfly.unsent]
      rfl
  apply of_mine (c := c.wake)
  · simp [hcall,hc]
  · intro t ht
    simp [hcall,h.sole t ht]
  · rw [hid,hwrites]
    exact h.issued c hc
  · intro id hlt
    have hissued := h.issued c hc
    rw [hother (by omega)]
    exact h.unissued id (hwrites ▸ hlt)
  · intro id filp payload retval hmem
    have hold : .returned id filp payload retval ∈ v.log := by simpa [hlog] using hmem
    obtain ⟨hlt,hne⟩ := h.past id filp payload retval hold
    rw [hid,hwrites]
    exact ⟨hlt,hne c hc⟩
  · simp only [Stage,hwoken]
    exact .inr hlanded
  · rw [hlog]
    refine h.settled.snoc (by simp) fun id filp payload retval hmem => ?_
    have hne := (h.past id filp payload retval hmem).2 c hc
    simp [transferOf,hfly.call,hne.symm]

theorem step {ep : EndpointDescriptor} (h : Sequential G w v) (hb : WriteBounds ep v)
    (ha : Orderly G w v a) (hs : WriteHalf.Step v a v') : Sequential G w v' := by
  -- a call that sees the flag clear has been served by its own callback
  have served {c : WriteCall} (hc : v.call w = some c) (hw : waiting c.pc = true)
      (hoff : v.outgoing = false) : Landed G v c := by
    rcases (h.stage c hc).cases with ⟨hrests,_⟩ | ⟨_,f,hf⟩ | hlanded
    · simp [hw] at hrests
    · simp [hf.outgoing] at hoff
    · exact hlanded
  have finishes {c : WriteCall} (hc : v.call w = some c) (hw : waiting c.pc = true)
      (hoff : v.outgoing = false) :
      Sequential G w (v.put w { c with retval := toSsize c.count, pc := .exit }) := by
    have hlanded := served hc hw hoff
    rw [toSsize_count hb hc hw]
    refine h.of_call hc rfl rfl rfl (.inl rfl) (.inr ⟨rfl,?_⟩)
    exact ⟨hlanded.flight,hlanded.outgoing,hlanded.urbs,hlanded.sent⟩
  cases hs with
  | begins t filp payload hidle =>
      obtain rfl : t = w := ha
      exact h.begins hidle rfl rfl rfl rfl
  | @rejects t k c hc hpc =>
      obtain rfl := h.thread hc
      have hstage := h.stage c hc
      simp only [Stage,hpc] at hstage
      refine h.of_call hc rfl rfl rfl (.inl rfl) (.inl ⟨by simp [EINVAL],?_⟩)
      exact hstage.of_same rfl rfl rfl
  | @accepts t k c hc hpc =>
      obtain rfl := h.thread hc
      have hstage := h.stage c hc
      simp only [Stage,hpc] at hstage
      exact h.of_call hc rfl rfl rfl (.inl rfl) (hstage.of_same rfl rfl rfl)
  | @copies t c hc hpc =>
      obtain rfl := h.thread hc
      have hstage := h.stage c hc
      simp only [Stage,hpc] at hstage
      refine h.of_call hc rfl rfl rfl (.inl rfl) ⟨hstage.of_same rfl rfl rfl,?_⟩
      exact Buffer.get_put _ _
  | @faults t k c hc hpc hpos hk =>
      obtain rfl := h.thread hc
      have hstage := h.stage c hc
      simp only [Stage,hpc] at hstage
      refine h.of_call hc rfl rfl rfl (.inl rfl) (.inl ⟨by simp [EFAULT],?_⟩)
      exact hstage.of_same rfl rfl rfl
  | @fills t k c hc hpc =>
      obtain rfl := h.thread hc
      have hstage := h.stage c hc
      simp only [Stage,hpc] at hstage
      refine h.of_call hc rfl rfl rfl (.inl rfl) ?_
      exact ⟨hstage.1.of_same rfl rfl rfl,hstage.2,rfl⟩
  | @sets t k c hc hpc =>
      obtain rfl := h.thread hc
      have hstage := h.stage c hc
      simp only [Stage,hpc] at hstage
      refine h.of_call hc rfl rfl rfl (.inl rfl) ?_
      exact ⟨hstage.1.of_same rfl rfl rfl,hstage.2.1,hstage.2.2,rfl⟩
  | @submits t c hc hpc hf =>
      obtain rfl := h.thread hc
      have hstage := h.stage c hc
      simp only [Stage,hpc] at hstage
      obtain ⟨hquiet,hbuf,hlen,hout⟩ := hstage
      refine h.of_call hc rfl rfl rfl (.inr ⟨_,_,_,_,_,rfl⟩)
        (.inl ⟨⟨v.urb.transferBufferLength,c.id,c.payload,[]⟩,?_⟩)
      refine ⟨rfl,rfl,rfl,hlen,hbuf,.inl rfl,hout,?_,?_⟩
      · rw [acceptedUrbs_snoc,countReturns_snoc,hquiet.urbs,hlen,hbuf]
        simp [acceptedUrb,countReturn]
      · rw [transfersOf_snoc_none rfl]
        exact hquiet.unsent
  | @refused t k c code hc hpc hcode =>
      obtain rfl := h.thread hc
      have hstage := h.stage c hc
      simp only [Stage,hpc] at hstage
      refine h.of_call hc rfl rfl rfl (.inr ⟨_,_,_,_,_,rfl⟩) (.inl ⟨hcode,?_⟩)
      exact hstage.1.refused rfl hcode rfl rfl
  | @sleeps t k c hc hpc hon =>
      obtain rfl := h.thread hc
      have hstage := h.stage c hc
      simp only [Stage,hpc] at hstage
      refine h.of_call hc rfl rfl rfl (.inl rfl) ?_
      rcases hstage with ⟨f,hf⟩ | hlanded
      · exact ⟨f,hf.flight,hf.call,hf.payload,hf.length,hf.buffer,hf.sent,hf.outgoing,hf.urbs,
          hf.unsent⟩
      · simp [hlanded.outgoing] at hon
  | @waitEnds t k c hc hpc hoff =>
      obtain rfl := h.thread hc
      exact finishes hc (by simp [hpc,waiting]) hoff
  | @returns t k c hc hpc =>
      obtain rfl := h.thread hc
      exact h.returns hc hpc rfl rfl rfl rfl
  | @interrupted t c hc hpc hon =>
      have hoff := ha c hc (by rcases hpc with hpc | hpc <;> simp [hpc,waiting])
      simp [hon] at hoff
  | @signalLate t c hc hpc hoff =>
      obtain rfl := h.thread hc
      exact finishes hc (by rcases hpc with hpc | hpc <;> simp [hpc,waiting]) hoff
  | takes hf => exact h.takes hf
  | completes status hf hlen =>
      exact h.completes hf (fun c hfly => ha _ c hf hlen hfly) rfl rfl rfl rfl rfl
  | opens => exact ha.elim

end Sequential

/-- No signal finds a writer waiting while `outgoing_write` is set. -/
def Uninterrupted (s : Device) : Label → Prop
  | .signal t => writerAt s t = some .testWait ∨ writerAt s t = some .asleep →
      s.nr.outgoingWrite = false
  | _ => True

instance (s : Device) (l : Label) : Decidable (Uninterrupted s l) :=
  match l with
  | .signal _ => inferInstanceAs (Decidable (_ → _))
  | .beginRead .. | .beginWrite .. | .openWrite _ | .run .. | .inCompletes .. | .outTakes
  | .outCompletes .. => isTrue trivial

/-- A completion leaves of the payload in flight what `G` allows. -/
def Leaves (G : List Byte → List Byte → Prop) (s : Device) : Label → Prop
  | .outCompletes _ n => ∀ f c, s.nr.intOutUrb.flight = some f → n ≤ f.sent.length →
      Flying (writeHalf s) c f → G (f.sent.take n) c.payload
  | _ => True

theorem leaves_prefix (s : Device) (l : Label) : Leaves (· <+: ·) s l := by
  cases l with
  | outCompletes status n =>
      intro f c _ _ hfly
      rcases hfly.sent with hs | hs
      · simp [hs]
      · rw [hs]
        exact List.take_prefix n c.payload
  | _ => trivial

theorem leaves_all {s : Device} {l : Label} (h : FullTransfer s l) : Leaves (· = ·) s l := by
  cases l with
  | outCompletes status n =>
      intro f c hf hn hfly
      have hlen : n = c.payload.length := (h.2 f hf).trans hfly.length
      rcases hfly.sent with hs | hs
      · have hempty : c.payload = [] := by
          rw [hs,hlen] at hn
          exact List.eq_nil_of_length_eq_zero (Nat.le_zero.mp hn)
        simp [hs,hempty]
      · rw [hs,hlen,List.take_length]
  | _ => trivial

theorem orderly_of {w : ℕ} {s : Device} {l : Label} {a : WriteAct} (hl : oneWriter w l = true)
    (hu : Uninterrupted s l) (hG : Leaves G s l) (ha : writeAct s l = some a) :
    Orderly G w (writeHalf s) a := by
  cases a with
  | begin t filp payload =>
      obtain rfl : l = .beginWrite t filp payload := label_of_writeAct ha
      simp only [oneWriter,beq_iff_eq] at hl
      exact hl
  | signal t =>
      obtain rfl : l = .signal t := label_of_writeAct ha
      intro c hc hw
      apply hu
      rw [writerAt_of_call hc]
      cases hpc : c.pc <;> simp [hpc,waiting] at hw ⊢
  | completes status n =>
      obtain rfl : l = .outCompletes status n := label_of_writeAct ha
      exact hG
  | openOutgoing =>
      obtain rfl : l = .openWrite .outgoingWrite := label_of_writeAct ha
      cases hl
  | _ => trivial

section Runs
variable {epIn epOut : EndpointDescriptor} {memIn memOut : ℕ → Byte} {w : ℕ} {ls : List Label}

theorem sequential_opened :
    Sequential G w (writeHalf (Device.opened epIn epOut memIn memOut)) := by
  refine ⟨fun _ _ => rfl,?_,fun _ _ => rfl,?_,fun _ => ⟨rfl,rfl⟩,?_,?_⟩
  · intro c hc
    cases hc
  · intro id filp payload retval hmem
    cases hmem
  · intro c hc
    cases hc
  · intro before id filp payload retval after heq
    simp [writeHalf,Device.opened,Device.fresh,Device.nrOpen] at heq

/-- What one writer without interruptions keeps, on a device with these endpoints. -/
def Served (G : List Byte → List Byte → Prop) (epIn epOut : EndpointDescriptor) (w : ℕ)
    (s : Device) : Prop :=
  Sequential G w (writeHalf s) ∧ Bounds epIn epOut s

theorem served_step {s s' : Device} {l : Label} (h : Served G epIn epOut w s)
    (hP : oneWriter w l = true ∧ Uninterrupted s l ∧ Leaves G s l) (hs : step s l = some s') :
    Served G epIn epOut w s' := by
  refine ⟨writeHalf_kept h.1 hs fun a ha hw => ?_,h.2.step hs⟩
  exact h.1.step h.2.2 (orderly_of hP.1 hP.2.1 hP.2.2 ha) hw

theorem served_opened : Served G epIn epOut w (.opened epIn epOut memIn memOut) :=
  ⟨sequential_opened,bounds_probed epIn epOut memIn memOut⟩

theorem served_run (hone : ∀ l ∈ ls, oneWriter w l = true)
    (hu : Along step Uninterrupted (.opened epIn epOut memIn memOut) ls)
    (hG : Along step (Leaves G) (.opened epIn epOut memIn memOut) ls) {s : Device}
    (hrun : run step (.opened epIn epOut memIn memOut) ls = some s) :
    Served G epIn epOut w s := by
  refine run_invariant (I := Served G epIn epOut w)
    (P := fun s l => oneWriter w l = true ∧ Uninterrupted s l ∧ Leaves G s l) ?_ served_opened
    (.labels_and hone (.and hu hG)) hrun
  exact fun s l u h hP hs => served_step h hP hs

theorem uninterrupted_of_calm (hcalm : ∀ l ∈ ls, calm l = true) (s : Device) :
    Along step Uninterrupted s ls := by
  refine Along.imp (fun s l hl => ?_) (.labels hcalm s)
  cases l with
  | signal t => cases hl
  | _ => trivial

theorem untouched_of_served {s : Device} {l : Label} (h : Served G epIn epOut w s) :
    OutUntouched s l := by
  cases l with
  | run t k =>
      intro hat
      rcases hat with ht | ht | ht
      all_goals
        obtain ⟨c,hc,hpc⟩ := call_of_writerAt ht
        obtain rfl := h.1.thread hc
        have hstage := h.1.stage c hc
        simp only [Stage,hpc] at hstage
      · exact hstage.flight
      · exact hstage.1.flight
      · exact hstage.1.flight
  | _ => trivial

end Runs

/-- The accepted URBs of a sequential writer are the returns of its calls, and
one more at most while a call is running. -/
structure WritesExact (w : ℕ) (s : Device) : Prop where
  carried : acceptedUrbs s.writeLog = countReturns s.writeLog ∨
    ∃ c, s.job w = .writing c ∧
      acceptedUrbs s.writeLog = countReturns s.writeLog ++ [(c.id,c.payload)]
  settled : s.job w = .idle → acceptedUrbs s.writeLog = countReturns s.writeLog
  flying : ∀ f ∈ s.nr.intOutUrb.flight,
    (acceptedUrbs s.writeLog).getLast? = some (f.call,f.payload) ∧
      s.nr.intOutBuffer.get f.length = f.payload ∧ (f.sent = [] ∨ f.sent = f.payload)
  callback : ∀ before id filp payload after,
    s.writeLog = before ++ .returned id filp payload payload.length :: after →
      ∃ bytes, bytes <+: payload ∧ transfersOf id before = [bytes]
  flagged : ∀ k u, writerAt s w = some .submit → step s (.run w k) = some u →
    u.nr.outgoingWrite = true
  asleep : ∀ t, writerAt s t = some .asleep →
    ∃ c f, s.job t = .writing c ∧ s.nr.intOutUrb.flight = some f ∧ f.call = c.id

theorem Sequential.urbs_cases {w : ℕ} {v : WriteHalf} (h : Sequential G w v) :
    acceptedUrbs v.log = countReturns v.log ∨
      ∃ c, v.call w = some c ∧
        acceptedUrbs v.log = countReturns v.log ++ [(c.id,c.payload)] := by
  cases hc : v.call w with
  | none => exact .inl (h.idle hc).2
  | some c =>
      rcases (h.stage c hc).cases with ⟨_,hquiet⟩ | ⟨_,f,hf⟩ | hlanded
      · exact .inl hquiet.urbs
      · exact .inr ⟨c,rfl,hf.urbs⟩
      · exact .inr ⟨c,rfl,hlanded.urbs⟩

theorem outgoing_of_submit {v v' : WriteHalf} {t k : ℕ} {c : WriteCall}
    (hs : WriteHalf.Step v (.run t k) v') (hc : v.call t = some c) (hpc : c.pc = .submit) :
    v'.outgoing = v.outgoing := by
  have same {d : WriteCall} (hd : v.call t = some d) : d.pc = .submit := by
    obtain rfl : c = d := Option.some.inj (hc.symm.trans hd)
    exact hpc
  cases hs with
  | sets hd hpd => simp [same hd] at hpd
  | _ => rfl

theorem Sequential.writesExact {w : ℕ} {s : Device} (h : Sequential (· <+: ·) w (writeHalf s)) :
    WritesExact w s := by
  refine ⟨?_,?_,?_,?_,?_,?_⟩
  · rcases h.urbs_cases with he | ⟨c,hc,he⟩
    · exact .inl he
    · exact .inr ⟨c,job_of_writeCall hc,he⟩
  · intro hidle
    exact (h.idle (idle_iff.mp hidle).2).2
  · intro f hf
    obtain ⟨c,hc,hw,hfly⟩ := h.flying hf
    have hurbs : acceptedUrbs s.writeLog = countReturns s.writeLog ++ [(c.id,c.payload)] :=
      hfly.urbs
    have hbuf : s.nr.intOutBuffer.get f.length = f.payload := by
      rw [hfly.length,hfly.payload]
      exact hfly.buffer
    refine ⟨?_,hbuf,?_⟩
    · rw [hurbs,hfly.call,hfly.payload]
      simp
    · rw [hfly.payload]
      exact hfly.sent
  · intro before id filp payload after heq
    obtain ⟨hreported,_⟩ := h.settled before id filp payload _ after heq
    rcases hreported with ⟨hneg,_⟩ | ⟨_,hsent⟩
    · omega
    · exact hsent
  · intro k u hat hs
    obtain ⟨c,hc,hpc⟩ := call_of_writerAt hat
    have hstage := h.stage c hc
    simp only [Stage,hpc] at hstage
    have hact : writeAct s (.run w k) = some (.run w k) := by
      have hjob : writeCall? (s.job w) = some c := hc
      simp [writeAct,hjob]
    have hmove := step_writeHalf hs
    simp only [hact] at hmove
    exact (outgoing_of_submit hmove hc hpc).trans hstage.2.2.2
  · intro t hat
    obtain ⟨c,hc,hpc⟩ := call_of_writerAt hat
    obtain rfl := h.thread hc
    have hstage := h.stage c hc
    simp only [Stage,hpc] at hstage
    obtain ⟨f,hf⟩ := hstage
    exact ⟨c,f,job_of_writeCall hc,hf.flight,hf.call⟩

/-- On a device opened once and never signalled, the URBs of one writer carry
the payloads of exactly the calls that return their count, one after the other. -/
theorem sequential_writes_exact {epIn epOut : EndpointDescriptor} {memIn memOut : ℕ → Byte}
    {w : ℕ} {ls : List Label} {s : Device} (hone : ∀ l ∈ ls, oneWriter w l = true)
    (hcalm : ∀ l ∈ ls, calm l = true)
    (hrun : run step (.opened epIn epOut memIn memOut) ls = some s) :
    WritesExact w s ∧ Along step OutUntouched (.opened epIn epOut memIn memOut) ls := by
  have hu := uninterrupted_of_calm hcalm (Device.opened epIn epOut memIn memOut)
  have hG : Along step (Leaves (· <+: ·)) (.opened epIn epOut memIn memOut) ls :=
    Along.imp (fun s l _ => leaves_prefix s l) hu
  constructor
  · exact (served_run hone hu hG hrun).1.writesExact
  · refine along_invariant (I := Served (· <+: ·) epIn epOut w)
      (P := fun s l => oneWriter w l = true ∧ Uninterrupted s l ∧ Leaves (· <+: ·) s l)
      (fun s l u h hP hs => served_step h hP hs) ?_ served_opened (.labels_and hone (.and hu hG))
    exact fun s l h _ => untouched_of_served h

/-- An empty write, a faulty copy, a refused submission that leaves the flag
set, a transfer that completes before the wait, and one unlinked during it. -/
def mixedWrites : List Label :=
  [.beginWrite 0 0 [],.run 0 0,.run 0 0,.beginWrite 0 0 [1,2],.run 0 0,.run 0 1,.run 0 0,
    .beginWrite 0 0 [3],.run 0 0,.run 0 0,.run 0 0,.run 0 0,.run 0 19,.run 0 0,
    .beginWrite 0 0 [4,5],.run 0 0,.run 0 0,.run 0 0,.run 0 0,.run 0 0,.outTakes,
    .outCompletes 0 2,.run 0 0,.run 0 0,
    .beginWrite 0 0 [6],.run 0 0,.run 0 0,.run 0 0,.run 0 0,.run 0 0,.run 0 0,.outTakes,
    .outCompletes (-2) 0,.run 0 0,.run 0 0]

theorem mixed_writes_exact :
    ∃ s ∈ run step canDevice mixedWrites, acceptedUrbs s.writeLog = [(3,[4,5]),(4,[6])] ∧
      WritesExact 0 s ∧ Along step OutUntouched canDevice mixedWrites := by
  obtain ⟨s,hs,hurbs⟩ : ∃ s ∈ run step canDevice mixedWrites,
      acceptedUrbs s.writeLog = [(3,[4,5]),(4,[6])] := by decide
  have hexact := sequential_writes_exact (w := 0) (by decide) (by decide) hs
  exact ⟨s,hs,hurbs,hexact⟩

end NrDriver.SequentialWriter
