import NrDriver.SingleReader
import NrDriver.LogRefinement
import NrDriver.Mailbox

/-!
# What one reader does, as a protocol

The in path of a device with one reader is a mailbox with one place: a
submission requests a packet, the completion delivers it, and the copy of a call
takes it out. `Reader.step` says so for the events of the log, and what each call
answers: a prefix of the packet it took, with its length, or the code of its
refused submission, or the restart error when neither happened.

The log of every run is a run of this specification (`log_follows_protocol`), with
any signals, refused submissions, copies that fault and completions before the
flag is assigned. An `nr_open` may fall into the run where it finds the two
fields of the read half as it leaves them.
-/
namespace NrDriver.ReadProtocol
open KernelModel TransferSteps ReadHalfSteps TransferBounds SingleReader LabelledRuns LogRefinement
open Mailbox (Slot Act)

/-- What the running call has come to. -/
inductive Answer where
  | pending
  | refused (code : ℤ)
  | bytes (user : List Byte)
  deriving DecidableEq, Repr

/-- The bytes and the result a call returns with. -/
def Answer.reply : Answer → List Byte × ℤ
  | .pending => ([],-ERESTARTSYS)
  | .refused code => ([],code)
  | .bytes user => (user,user.length)

/-- The specification: the mailbox, the packets delivered so far, the number of
the running call, and its answer. -/
structure Reader where
  slot : Slot (List Byte)
  received : ℕ
  call : ℕ
  answer : Answer
  deriving DecidableEq, Repr

def Reader.start : Reader := ⟨.empty,0,0,.pending⟩

/-- A packet without bytes leaves nothing to take. -/
def message (packet : List Byte) : Option (List Byte) := if packet = [] then none else some packet

def Reader.mail (m : Reader) (act : Act (List Byte)) : Option Reader :=
  (Mailbox.step m.slot act).map fun slot => { m with slot := slot }

/-- The events of a reader in their order. -/
def Reader.step (m : Reader) : ReadEvent → Option Reader
  | .submitted call _ code =>
      if call = m.call ∧ m.answer = .pending then
        if code = 0 then m.mail .request
        else if code < 0 ∧ m.slot = .empty then some { m with answer := .refused code }
        else none
      else none
  | .received status reported packet =>
      if reported = reportedStatus status then
        ({ m with received := m.received + 1 } : Reader).mail (.deliver (message packet))
      else none
  | .copied call n user =>
      match m.slot with
      | .full packet =>
          if call = m.call ∧ m.answer = .pending ∧ n = m.received ∧ user <+: packet then
            ({ m with answer := .bytes user } : Reader).mail (.take packet)
          else none
      | _ => none
  | .returned call _ _ user rs _ =>
      if call = m.call ∧ (user,rs) = m.answer.reply then
        some { m with call := m.call + 1, answer := .pending }
      else none

/-- The packet that no call has copied, or the request for it. -/
def place (r : ℕ) (v : ReadHalf) : Slot (List Byte) :=
  if v.urb.flight.isSome then .requested
  else if v.len = 0 ∨ ∃ c ∈ v.call r, consuming c.pc = true then .empty
  else .full (v.buffer.get v.len)

/-- What a call owes its caller at each of its statements. -/
def Owes (v : ReadHalf) (c : ReadCall) (answer : Answer) : Prop :=
  match c.pc with
  | .position | .result =>
      answer = .bytes c.user ∧ ∃ k ≤ v.len, c.rs = k ∧ c.user.length = v.len - k
  | .clear => answer = .bytes c.user ∧ c.rs = c.user.length
  | .exit => (c.user,c.rs) = answer.reply
  | _ => answer = .pending ∧ c.user = []

/-- What links a running call to the specification. -/
structure Running (v : ReadHalf) (c : ReadCall) (m : Reader) : Prop where
  id : c.id = m.call
  reads : v.reads = m.call + 1
  owes : Owes v c m.answer
  dry : c.pc = .fill ∨ c.pc = .submit → v.len = 0
  full : c.pc = .copy → 0 < v.len

structure Tracks (r : ℕ) (v : ReadHalf) (m : Reader) : Prop where
  slot : m.slot = place r v
  received : m.received = v.packets
  empty : v.urb.flight ≠ none → v.len = 0
  idle : v.call r = none → m.answer = .pending ∧ v.reads = m.call
  running : ∀ c, v.call r = some c → Running v c m

section Places
variable {r : ℕ} {v v' : ReadHalf}

theorem place_flying {f : Flight} (hf : v.urb.flight = some f) : place r v = .requested := by
  simp [place,hf]

theorem place_empty (hf : v.urb.flight = none) (hlen : v.len = 0) : place r v = .empty := by
  simp [place,hf,hlen]

theorem place_consumed (hf : v.urb.flight = none) {c : ReadCall} (hc : v.call r = some c)
    (hpc : consuming c.pc = true) : place r v = .empty := by
  simp [place,hf,hc,hpc]

theorem place_full (hf : v.urb.flight = none) (hlen : 0 < v.len)
    (hpc : ∀ c, v.call r = some c → consuming c.pc = false) :
    place r v = .full (v.buffer.get v.len) := by
  have hnone : ¬ (v.len = 0 ∨ ∃ c ∈ v.call r, consuming c.pc = true) := by
    rintro (hzero | ⟨c,hc,hcons⟩)
    · omega
    · simp [hpc c hc] at hcons
  rw [place, if_neg (by simp [hf]), if_neg hnone]

theorem place_same (hf : v'.urb.flight = v.urb.flight) (hlen : v'.len = v.len)
    (hbuf : v'.buffer = v.buffer)
    (hpc : (∃ c ∈ v'.call r, consuming c.pc = true) ↔ ∃ c ∈ v.call r, consuming c.pc = true) :
    place r v' = place r v := by
  simp only [place,hf,hlen,hbuf,hpc]

end Places

/-- A move after which nothing is new to the caller. -/
theorem Owes.pending {v : ReadHalf} {c : ReadCall} {answer : Answer} (hanswer : answer = .pending)
    (huser : c.user = [])
    (hpc : consuming c.pc = false ∧ c.pc ≠ .exit) : Owes v c answer := by
  unfold Owes
  cases hp : c.pc <;> simp_all [consuming]

theorem Owes.of_pending {v : ReadHalf} {c : ReadCall} {answer : Answer} (h : Owes v c answer)
    (hpc : consuming c.pc = false ∧ c.pc ≠ .exit) : answer = .pending ∧ c.user = [] := by
  unfold Owes at h
  cases hp : c.pc <;> simp_all [consuming]

namespace Tracks
variable {r : ℕ} {ep : EndpointDescriptor} {v v' : ReadHalf} {m : Reader} {a : ReadAct}

/-- A statement of the call that leaves the mailbox alone. -/
theorem of_call (h : Tracks r v m) {c c' : ReadCall} (hc : v.call r = some c)
    (hcall : v'.call = Function.update v.call r (some c')) (hid : c'.id = c.id)
    (hf : v'.urb.flight = v.urb.flight) (hlen : v'.len = v.len) (hbuf : v'.buffer = v.buffer)
    (hreads : v'.reads = v.reads) (hpackets : v'.packets = v.packets)
    (hspent : consuming c'.pc = consuming c.pc) (howes : Owes v' c' m.answer)
    (hdry : c'.pc = .fill ∨ c'.pc = .submit → v.len = 0)
    (hfull : c'.pc = .copy → 0 < v.len) : Tracks r v' m := by
  have hr : v'.call r = some c' := by simp [hcall]
  have hrun := h.running c hc
  refine ⟨?_,by rw [h.received,hpackets],by rw [hf,hlen]; exact h.empty,?_,?_⟩
  · rw [h.slot]
    exact (place_same hf hlen hbuf (by simp [hr,hc,hspent])).symm
  · simp [hr]
  · intro d hd
    rw [hr] at hd
    cases hd
    exact ⟨by rw [hid,hrun.id],by rw [hreads,hrun.reads],howes,by rwa [hlen],by rwa [hlen]⟩

theorem of_pending (h : Tracks r v m) {c c' : ReadCall} (hc : v.call r = some c)
    (hcall : v'.call = Function.update v.call r (some c')) (hid : c'.id = c.id)
    (huser : c'.user = c.user)
    (hf : v'.urb.flight = v.urb.flight) (hlen : v'.len = v.len) (hbuf : v'.buffer = v.buffer)
    (hreads : v'.reads = v.reads) (hpackets : v'.packets = v.packets)
    (hpc : consuming c.pc = false ∧ c.pc ≠ .exit) (hpc' : consuming c'.pc = false ∧ c'.pc ≠ .exit)
    (hdry : c'.pc = .fill ∨ c'.pc = .submit → v.len = 0)
    (hfull : c'.pc = .copy → 0 < v.len) : Tracks r v' m := by
  obtain ⟨hanswer,hnil⟩ := (h.running c hc).owes.of_pending hpc
  exact h.of_call hc hcall hid hf hlen hbuf hreads hpackets (by rw [hpc.1,hpc'.1])
    (.pending hanswer (by rw [huser,hnil]) hpc') hdry hfull

/-- The read half after a completion. -/
def completed (v : ReadHalf) (status : ℤ) (packet : List Byte) : ReadHalf :=
  { v with
    buffer := v.buffer.put packet
    urb := { v.urb with flight := none }
    len := packet.length
    ongoing := false
    call := fun t => (v.call t).map ReadCall.wake
    packets := v.packets + 1
    log := v.log ++ [.received status (reportedStatus status) packet] }

/-- A completion finds no call between the test of the flag and the submission,
and changes nothing of what a call owes. -/
theorem completed_call (h : Tracks r v m) (hS : Sole r v) {f : Flight}
    (hf : v.urb.flight = some f) (status : ℤ) (packet : List Byte) {c' : ReadCall}
    (hc' : (completed v status packet).call r = some c') : ∃ c, v.call r = some c ∧
      c'.id = c.id ∧ resting c'.pc = false ∧ Owes (completed v status packet) c' m.answer := by
  obtain ⟨c,hc,rfl⟩ := Option.map_eq_some_iff.mp hc'
  have howes := (h.running c hc).owes
  have hrest : resting c.pc = false := by
    by_contra hpc
    simp [hS.grounded hc (by simpa using hpc)] at hf
  rcases ReadCall.wake_cases c with ⟨hs,he⟩ | ⟨_,he⟩
  · obtain ⟨hanswer,hnil⟩ := howes.of_pending (by simp [hs,consuming])
    rw [he]
    exact ⟨c,hc,rfl,rfl,.pending hanswer hnil (by simp [consuming])⟩
  · rw [he]
    refine ⟨c,hc,rfl,hrest,?_⟩
    unfold Owes at howes ⊢
    cases hp : c.pc <;> simp_all [resting]

theorem place_completed (h : Tracks r v m) (hS : Sole r v) {f : Flight}
    (hf : v.urb.flight = some f) (status : ℤ) (packet : List Byte) :
    place r (completed v status packet) = (message packet).elim .empty .full := by
  by_cases hnil : packet = []
  · rw [place_empty rfl (by simp [completed,hnil])]
    simp [message,hnil]
  · have hpos : 0 < packet.length := List.length_pos_iff.mpr hnil
    rw [place_full rfl hpos fun c' hc' => ?_]
    · simp [message,hnil,completed]
    · obtain ⟨_,_,_,hquiet,_⟩ := h.completed_call hS hf status packet hc'
      cases hp : c'.pc <;> simp_all [resting,consuming]

theorem completes (h : Tracks r v m) (hS : Sole r v) {f : Flight} (hf : v.urb.flight = some f)
    (status : ℤ) (packet : List Byte) :
    ∃ m', m.step (.received status (reportedStatus status) packet) = some m' ∧
      Tracks r (completed v status packet) m' := by
  have hslot : m.slot = .requested := by rw [h.slot,place_flying hf]
  have hplace := h.place_completed hS hf status packet
  refine ⟨{ m with received := m.received + 1, slot := place r (completed v status packet) },
    ?_,rfl,congrArg (· + 1) h.received,fun hn => (hn rfl).elim,?_,?_⟩
  · rw [hplace]
    cases hm : message packet <;> simp [Reader.step,Reader.mail,hslot,hm,Mailbox.step]
  · intro hnone
    exact h.idle (Option.map_eq_none_iff.mp hnone)
  · intro c' hc'
    obtain ⟨c,hc,hid,hquiet,howes⟩ := h.completed_call hS hf status packet hc'
    have hrun := h.running c hc
    refine ⟨hid.trans hrun.id,hrun.reads,howes,?_,?_⟩
    · rintro (hpc | hpc) <;> simp [hpc,resting] at hquiet
    · intro hpc
      simp [hpc,resting] at hquiet

theorem copies (h : Tracks r v m) (hS : Sole r v) (hb : ReadBounds ep v) {k : ℕ} {c : ReadCall}
    (hc : v.call r = some c) (hpc : c.pc = .copy) (hk : k ≤ v.len) {log : List ReadEvent} :
    ∃ m', m.step (.copied c.id v.packets (copyToUser v.buffer v.len k)) = some m' ∧
      Tracks r { v.put r { c with
        user := copyToUser v.buffer v.len k, rs := toSsize k, pc := .position } with
          log := log } m' := by
  have hrun := h.running c hc
  have hground := hS.grounded hc (by simp [hpc,resting])
  obtain ⟨hanswer,_⟩ := hrun.owes.of_pending (by simp [hpc,consuming])
  have hslot : m.slot = .full (v.buffer.get v.len) := by
    rw [h.slot]
    refine place_full hground (hrun.full hpc) fun d hd => ?_
    rw [hc] at hd
    cases hd
    simp [hpc,consuming]
  have hstored : copyToUser v.buffer v.len k <+: v.buffer.get v.len :=
    List.take_prefix_take_left (Nat.sub_le ..)
  have hlt : v.len < 2^16 := Nat.lt_of_le_of_lt hb.len ep.packetSize_lt
  have hrs : toSsize k = k := toSsize_natCast (by omega)
  refine ⟨{ m with slot := .empty, answer := .bytes (copyToUser v.buffer v.len k) },?_,?_,
    h.received,fun hn => (hn hground).elim,by simp,?_⟩
  · simp [Reader.step,Reader.mail,hslot,hrun.id,hanswer,h.received,hstored,Mailbox.step]
  · exact Eq.symm (place_consumed hground (Function.update_self ..) rfl)
  · intro d hd
    simp only [ReadHalf.put_call,Function.update_self,Option.some.injEq] at hd
    subst hd
    refine ⟨hrun.id,hrun.reads,?_,by simp,by simp⟩
    simp only [Owes,ReadHalf.put_len]
    exact ⟨trivial,k,hk,hrs,hb.copied_length k⟩

theorem submits (h : Tracks r v m) {c : ReadCall} (hc : v.call r = some c) (hpc : c.pc = .submit)
    (hf : v.urb.flight = none) {log : List ReadEvent} :
    ∃ m', m.step (.submitted c.id v.urb 0) = some m' ∧
      Tracks r { v.put r { c with rs := 0, pc := .setOngoing } with
        urb := { v.urb with flight := some ⟨v.urb.transferBufferLength,c.id,[],[]⟩ }
        log := log } m' := by
  have hrun := h.running c hc
  obtain ⟨hanswer,hnil⟩ := hrun.owes.of_pending (by simp [hpc,consuming])
  have hzero := hrun.dry (.inr hpc)
  have hslot : m.slot = .empty := by rw [h.slot,place_empty hf hzero]
  refine ⟨{ m with slot := .requested },?_,(place_flying rfl).symm,h.received,fun _ => hzero,
    by simp,?_⟩
  · simp [Reader.step,Reader.mail,hslot,hrun.id,hanswer,Mailbox.step]
  · intro d hd
    simp only [ReadHalf.put_call,Function.update_self,Option.some.injEq] at hd
    subst hd
    exact ⟨hrun.id,hrun.reads,⟨hanswer,hnil⟩,by simp,by simp⟩

theorem refused (h : Tracks r v m) (hS : Sole r v) {c : ReadCall} (hc : v.call r = some c)
    (hpc : c.pc = .submit) {code : ℤ} (hcode : code < 0) {log : List ReadEvent} :
    ∃ m', m.step (.submitted c.id v.urb code) = some m' ∧
      Tracks r { v.put r { c with rs := code, pc := .exit } with log := log } m' := by
  have hrun := h.running c hc
  obtain ⟨hanswer,hnil⟩ := hrun.owes.of_pending (by simp [hpc,consuming])
  have hground := hS.grounded hc (by simp [hpc,resting])
  have hslot : m.slot = .empty := by rw [h.slot,place_empty hground (hrun.dry (.inr hpc))]
  refine ⟨{ m with answer := .refused code },?_,?_,h.received,h.empty,by simp,?_⟩
  · simp [Reader.step,hslot,hrun.id,hanswer,hcode,show code ≠ 0 by omega]
  · rw [h.slot]
    exact Eq.symm (place_same rfl rfl rfl (by simp [hc,hpc,consuming]))
  · intro d hd
    simp only [ReadHalf.put_call,Function.update_self,Option.some.injEq] at hd
    subst hd
    refine ⟨hrun.id,hrun.reads,?_,by simp,by simp⟩
    simp only [Owes,hnil]
    rfl

theorem returns (h : Tracks r v m) {c : ReadCall} (hc : v.call r = some c) (hpc : c.pc = .exit)
    {log : List ReadEvent} :
    ∃ m', m.step (.returned c.id c.filp c.count c.user c.rs c.ppos) = some m' ∧
      Tracks r { v with call := Function.update v.call r none, log := log } m' := by
  have hrun := h.running c hc
  have howes := hrun.owes
  simp only [Owes,hpc] at howes
  refine ⟨{ m with call := m.call + 1, answer := .pending },?_,?_,h.received,h.empty,
    fun _ => ⟨rfl,hrun.reads⟩,by simp⟩
  · simp [Reader.step,hrun.id,howes]
  · rw [h.slot]
    exact Eq.symm (place_same rfl rfl rfl (by simp [hc,hpc,consuming]))

/-- Each move of the read half is one of the protocol, or is not seen by it. -/
theorem step (h : Tracks r v m) (hS : Sole r v) (hb : ReadBounds ep v) (ha : soleAct r a)
    (hs : ReadHalf.Step v a v') :
    Matched Reader.step ReadHalf.log (Tracks r) v v' m := by
  cases hs with
  | begins t filp count ppos hidle =>
      obtain rfl : t = r := ha
      obtain ⟨hanswer,hreads⟩ := h.idle hidle
      refine .inl ⟨rfl,?_,h.received,h.empty,by simp,?_⟩
      · rw [h.slot]
        exact Eq.symm (place_same rfl rfl rfl (by simp [hidle,ReadCall.start,consuming]))
      · intro c hc
        simp only [ReadHalf.put_call,Function.update_self,Option.some.injEq] at hc
        subst hc
        exact ⟨hreads,congrArg (· + 1) hreads,⟨hanswer,rfl⟩,by simp [ReadCall.start],
          by simp [ReadCall.start]⟩
  | seesOngoing hc hpc | seesQuiet hc hpc | sleeps hc hpc | waitEnds hc hpc | sets hc hpc =>
      obtain rfl := hS.thread hc
      exact .inl ⟨rfl,h.of_pending hc rfl rfl rfl rfl rfl rfl rfl rfl (by simp [hpc,consuming])
        (by simp [consuming]) (by simp) (by simp)⟩
  | @signalLate t c hc hpc =>
      obtain rfl := hS.thread hc
      have hcons : consuming c.pc = false ∧ c.pc ≠ .exit := by
        rcases hpc with hpc | hpc <;> simp [hpc,consuming]
      exact .inl ⟨rfl,h.of_pending hc rfl rfl rfl rfl rfl rfl rfl rfl hcons (by simp [consuming])
        (by simp) (by simp)⟩
  | seesData hc hpc hpos =>
      obtain rfl := hS.thread hc
      exact .inl ⟨rfl,h.of_pending hc rfl rfl rfl rfl rfl rfl rfl rfl (by simp [hpc,consuming])
        (by simp [consuming]) (by simp) (fun _ => hpos)⟩
  | seesEmpty hc hpc hzero =>
      obtain rfl := hS.thread hc
      exact .inl ⟨rfl,h.of_pending hc rfl rfl rfl rfl rfl rfl rfl rfl (by simp [hpc,consuming])
        (by simp [consuming]) (fun _ => hzero) (by simp)⟩
  | @fills t k c hc hpc =>
      obtain rfl := hS.thread hc
      have hzero := (h.running c hc).dry (.inl hpc)
      exact .inl ⟨rfl,h.of_pending hc rfl rfl rfl rfl rfl rfl rfl rfl (by simp [hpc,consuming])
        (by simp [consuming]) (fun _ => hzero) (by simp)⟩
  | copies hc hpc hk =>
      obtain rfl := hS.thread hc
      obtain ⟨m',he,ht⟩ := h.copies hS hb hc hpc hk
      exact .inr ⟨_,m',rfl,he,ht⟩
  | @advances t k c hc hpc =>
      obtain rfl := hS.thread hc
      have howes := (h.running c hc).owes
      simp only [Owes,hpc] at howes
      exact .inl ⟨rfl,h.of_call hc rfl rfl rfl rfl rfl rfl rfl (by simp [hpc,consuming]) howes
        (by simp) (by simp)⟩
  | @computes t k c hc hpc =>
      obtain rfl := hS.thread hc
      have howes := (h.running c hc).owes
      simp only [Owes,hpc] at howes
      obtain ⟨hanswer,n,hn,hrs,huser⟩ := howes
      have hlt : v.len < 2^16 := Nat.lt_of_le_of_lt hb.len ep.packetSize_lt
      refine .inl ⟨rfl,h.of_call hc rfl rfl rfl rfl rfl rfl rfl (by simp [hpc,consuming])
        ⟨hanswer,?_⟩ (by simp) (by simp)⟩
      simp only
      rw [hrs,toSize_natCast (by omega),sizeSub_of_le hn (by omega),toSsize_natCast (by omega),
        huser]
  | @clears t k c hc hpc =>
      obtain rfl := hS.thread hc
      have hrun := h.running c hc
      have hground := hS.grounded hc (by simp [hpc,resting])
      have howes := hrun.owes
      simp only [Owes,hpc] at howes
      refine .inl ⟨rfl,?_,h.received,fun _ => rfl,by simp,?_⟩
      · rw [h.slot,place_consumed hground hc (by simp [hpc,consuming])]
        exact Eq.symm (place_empty hground rfl)
      · intro d hd
        simp only [ReadHalf.put_call,Function.update_self,Option.some.injEq] at hd
        subst hd
        refine ⟨hrun.id,hrun.reads,?_,by simp,by simp⟩
        simp only [Owes]
        rw [howes.1,howes.2]
        rfl
  | submits hc hpc hf =>
      obtain rfl := hS.thread hc
      obtain ⟨m',he,ht⟩ := h.submits hc hpc hf
      exact .inr ⟨_,m',rfl,he,ht⟩
  | refused hc hpc hcode =>
      obtain rfl := hS.thread hc
      obtain ⟨m',he,ht⟩ := h.refused hS hc hpc hcode
      exact .inr ⟨_,m',rfl,he,ht⟩
  | returns hc hpc =>
      obtain rfl := hS.thread hc
      obtain ⟨m',he,ht⟩ := h.returns hc hpc
      exact .inr ⟨_,m',rfl,he,ht⟩
  | @interrupted t c hc hpc =>
      obtain rfl := hS.thread hc
      have hcons : consuming c.pc = false ∧ c.pc ≠ .exit := by
        rcases hpc with hpc | hpc <;> simp [hpc,consuming]
      obtain ⟨hanswer,hnil⟩ := (h.running c hc).owes.of_pending hcons
      refine .inl ⟨rfl,h.of_call hc rfl rfl rfl rfl rfl rfl rfl (by rw [hcons.1]; rfl) ?_
        (by simp) (by simp)⟩
      simp only [Owes,hanswer,hnil]
      rfl
  | @completes status packet f hf =>
      obtain ⟨m',he,ht⟩ := h.completes hS hf status packet
      exact .inr ⟨_,m',rfl,he,ht⟩
  | opensLen => exact ha.elim
  | opensOngoing => exact ha.elim

end Tracks

/-- Only thread `r` reads. -/
def readsAlone (r : ℕ) : Label → Bool
  | .beginRead t _ _ _ => t == r
  | _ => true

/-- An `nr_open` finds the fields of the read half as it leaves them. -/
def OpensAtRest (s : Device) : Label → Prop
  | .openWrite .lenInBuffer => s.nr.lenInBuffer = 0
  | .openWrite .ongoingRead => s.nr.ongoingRead = false
  | _ => True

instance (s : Device) (l : Label) : Decidable (OpensAtRest s l) :=
  match l with
  | .openWrite .lenInBuffer | .openWrite .ongoingRead => inferInstanceAs (Decidable (_ = _))
  | .openWrite .outgoingWrite => isTrue trivial
  | .beginRead .. | .beginWrite .. | .run .. | .signal _ | .inCompletes .. | .outTakes
  | .outCompletes .. => isTrue trivial

theorem opened_at_rest {s s' : Device} {w : OpenWrite} (hO : OpensAtRest s (.openWrite w))
    (hs : step s (.openWrite w) = some s') : readHalf s' = readHalf s := by
  cases hs
  cases w with
  | lenInBuffer =>
      simp only [OpensAtRest] at hO
      simp [readHalf,UsbNr.openWrite,hO]
  | ongoingRead =>
      simp only [OpensAtRest] at hO
      simp [readHalf,UsbNr.openWrite,hO]
  | outgoingWrite => rfl

/-- With one reader, a step moves the read half as `SingleReader` has it, or not at all. -/
theorem alone_kept {I : ReadHalf → Prop} {r : ℕ} {s s' : Device} {l : Label} (hI : I (readHalf s))
    (hl : readsAlone r l = true) (hO : OpensAtRest s l) (hs : step s l = some s')
    (hmove : ∀ a, readAct s l = some a → soleAct r a →
      ReadHalf.Step (readHalf s) a (readHalf s') → I (readHalf s')) : I (readHalf s') := by
  by_cases hopen : ∃ w, l = .openWrite w
  · obtain ⟨w,rfl⟩ := hopen
    rwa [opened_at_rest hO hs]
  · refine readHalf_kept hI hs fun a ha hr => hmove a ha (soleAct_of_oneReader ?_ ha) hr
    cases l with
    | openWrite w => exact (hopen ⟨w,rfl⟩).elim
    | beginRead => exact hl
    | _ => rfl

/-- What one reader keeps: its log so far is explained by the protocol. -/
def Follows (epIn epOut : EndpointDescriptor) (r : ℕ) (s : Device) : Prop :=
  Bounds epIn epOut s ∧ Sole r (readHalf s) ∧
    Explained Reader.step ReadHalf.log (Tracks r) .start (readHalf s)

theorem follows_step {epIn epOut : EndpointDescriptor} {r : ℕ} {s s' : Device} {l : Label}
    (h : Follows epIn epOut r s) (hl : readsAlone r l = true) (hO : OpensAtRest s l)
    (hs : step s l = some s') : Follows epIn epOut r s' := by
  obtain ⟨hb,hS,hexplained⟩ := h
  refine ⟨hb.step hs,alone_kept hS hl hO hs fun a _ ha hr => hS.step ha hr,?_⟩
  refine alone_kept hexplained hl hO hs fun a _ ha hr => ?_
  exact hexplained.matched fun m ht => ht.step hS hb.1 ha hr

theorem follows_opened (epIn epOut : EndpointDescriptor) (memIn memOut : ℕ → Byte) (r : ℕ) :
    Follows epIn epOut r (.opened epIn epOut memIn memOut) := by
  refine ⟨bounds_probed epIn epOut memIn memOut,sole_opened epIn epOut memIn memOut r,
    .start,rfl,rfl,rfl,fun _ => rfl,fun _ => ⟨rfl,rfl⟩,?_⟩
  intro c hc
  cases hc

theorem follows_run {epIn epOut : EndpointDescriptor} {memIn memOut : ℕ → Byte} {r : ℕ}
    {ls : List Label} {s : Device} (hrun : run step (.opened epIn epOut memIn memOut) ls = some s)
    (hone : ∀ l ∈ ls, readsAlone r l = true)
    (hopens : Along step OpensAtRest (.opened epIn epOut memIn memOut) ls) :
    Follows epIn epOut r s :=
  run_invariant (I := Follows epIn epOut r) (fun _ _ _ h hP hs => follows_step h hP.1 hP.2 hs)
    (follows_opened epIn epOut memIn memOut r) (.labels_and hone hopens) hrun

/-- The log of one reader is a run of the protocol, and the protocol knows where
the last packet is. -/
theorem log_follows_protocol {epIn epOut : EndpointDescriptor} {memIn memOut : ℕ → Byte} {r : ℕ}
    {ls : List Label} {s : Device} (hrun : run step (.opened epIn epOut memIn memOut) ls = some s)
    (hone : ∀ l ∈ ls, readsAlone r l = true)
    (hopens : Along step OpensAtRest (.opened epIn epOut memIn memOut) ls) :
    ∃ m, run Reader.step .start s.readLog = some m ∧ m.slot = place r (readHalf s) ∧
      m.received = s.packets ∧
      (readerAt s r = none → m.answer = .pending ∧ m.call = s.reads) := by
  obtain ⟨_,_,m,hm,ht⟩ := follows_run hrun hone hopens
  refine ⟨m,hm,ht.slot,ht.received,fun hidle => ?_⟩
  obtain ⟨hanswer,hreads⟩ := ht.idle (call_of_idle hidle)
  exact ⟨hanswer,hreads.symm⟩

/-- An empty packet and a copy that fails in part, a refused submission, a call
ended by a signal whose packet the next one collects, an open between two calls,
and a completion before the flag is assigned. -/
def mixedReads : List Label :=
  [.beginRead 0 0 64 0,.run 0 0,.run 0 0,.run 0 0,.run 0 0,.run 0 0,.run 0 0,.run 0 0,
    .inCompletes 0 [],.run 0 0,.run 0 0,.run 0 0,.run 0 0,.run 0 0,.run 0 0,.run 0 0,
    .inCompletes 0 [1,2,3],.run 0 0,.run 0 0,.run 0 1,.run 0 0,.run 0 0,.run 0 0,.run 0 0,
    .beginRead 0 0 64 2,.run 0 0,.run 0 0,.run 0 0,.run 0 19,.run 0 0,
    .beginRead 0 0 64 2,.run 0 0,.run 0 0,.run 0 0,.run 0 0,.run 0 0,.run 0 0,.run 0 0,.signal 0,
    .run 0 0,.openWrite .outgoingWrite,.inCompletes 0 [7],
    .beginRead 0 0 64 2,.run 0 0,.run 0 0,.run 0 0,.run 0 0,.run 0 0,.run 0 0,.run 0 0,
    .openWrite .lenInBuffer,.openWrite .ongoingRead,.openWrite .outgoingWrite,
    .beginRead 0 0 64 3,.run 0 0,.run 0 0,.run 0 0,.run 0 0,.inCompletes 0 [9],.run 0 0,.run 0 0,
    .run 0 0]

theorem mixed_reads_follow :
    ∃ s ∈ run step canDevice mixedReads, place 0 (readHalf s) = .full [9] ∧
      ∃ m, run Reader.step .start s.readLog = some m ∧ m.slot = place 0 (readHalf s) ∧
        m.received = s.packets ∧
        (readerAt s 0 = none → m.answer = .pending ∧ m.call = s.reads) := by
  obtain ⟨s,hs,hplace⟩ : ∃ s ∈ run step canDevice mixedReads, place 0 (readHalf s) = .full [9] := by
    decide
  exact ⟨s,hs,hplace,log_follows_protocol hs (by decide) (by decide)⟩

/-- What an event does to the mailbox. -/
def mailAct (m : Reader) : ReadEvent → Option (Act (List Byte))
  | .submitted _ _ code => if code = 0 then some .request else none
  | .received _ _ packet => some (.deliver (message packet))
  | .copied .. =>
      match m.slot with
      | .full packet => some (.take packet)
      | _ => none
  | .returned .. => none

/-- The packets with at least one byte. -/
def packet? : ReadEvent → Option (List Byte)
  | .received _ _ packet => message packet
  | _ => none

def copy? : ReadEvent → Option (List Byte)
  | .copied _ _ user => some user
  | _ => none

theorem Reader.mail_slot {m m' : Reader} {act : Act (List Byte)} (h : m.mail act = some m') :
    Mailbox.step m.slot act = some m'.slot := by
  obtain ⟨slot,hs,rfl⟩ := Option.map_eq_some_iff.mp h
  exact hs

theorem Reader.step_slot {m m' : Reader} {e : ReadEvent} (h : m.step e = some m') :
    match mailAct m e with
    | some act => Mailbox.step m.slot act = some m'.slot
    | none => m'.slot = m.slot := by
  cases e with
  | submitted call urb code =>
      simp only [Reader.step] at h
      split_ifs at h with _ hcode
      · rw [mailAct,if_pos hcode]
        exact mail_slot h
      · rw [mailAct,if_neg hcode]
        cases h
        rfl
  | received status reported packet =>
      simp only [Reader.step] at h
      split_ifs at h
      have hslot := mail_slot h
      exact hslot
  | copied call n user =>
      simp only [Reader.step] at h
      split at h
      · rename_i packet hslot
        split_ifs at h
        have htaken := mail_slot h
        simpa only [mailAct,hslot] using htaken
      · cases h
  | returned =>
      simp only [Reader.step] at h
      split_ifs at h
      cases h
      rfl

theorem Reader.step_copied {m m' : Reader} {e : ReadEvent} (h : m.step e = some m') :
    (copy? e = none ∧ (mailAct m e).bind Act.taken = none) ∨
      ∃ user packet, copy? e = some user ∧ (mailAct m e).bind Act.taken = some packet ∧
        user <+: packet := by
  cases e with
  | submitted call urb code =>
      refine .inl ⟨rfl,?_⟩
      simp only [mailAct]
      split_ifs <;> rfl
  | received | returned => exact .inl ⟨rfl,rfl⟩
  | copied call n user =>
      simp only [Reader.step] at h
      split at h
      · rename_i packet hslot
        split_ifs at h with hcopy
        exact .inr ⟨user,packet,rfl,by simp [mailAct,hslot,Act.taken],hcopy.2.2.2⟩
      · cases h

theorem delivered_mailAct (m : Reader) (e : ReadEvent) :
    (mailAct m e).bind Act.delivered = packet? e := by
  cases e with
  | submitted call urb code =>
      simp only [mailAct]
      split_ifs <;> rfl
  | copied call n user =>
      simp only [mailAct]
      split <;> rfl
  | _ => rfl

theorem Reader.taken_in_order {m : Reader} {log : List ReadEvent}
    (hm : run Reader.step .start log = some m) :
    ∃ taken, log.filterMap packet? = taken ++ m.slot.message ∧
      List.Forall₂ (· <+: ·) (log.filterMap copy?) taken := by
  have hmove (m : Reader) (e : ReadEvent) (m' : Reader) (act : Act (List Byte))
      (ha : mailAct m e = some act) (he : m.step e = some m') :
      Mailbox.step m.slot act = some m'.slot := by simpa only [ha] using Reader.step_slot he
  have hkeep (m : Reader) (e : ReadEvent) (m' : Reader) (ha : mailAct m e = none)
      (he : m.step e = some m') : m'.slot = m.slot := by
    simpa only [ha] using Reader.step_slot he
  have hmail : run Mailbox.step Slot.empty (acts Reader.step mailAct .start log) =
      some m.slot := run_acts hmove hkeep hm
  have hdelivered : (acts Reader.step mailAct .start log).filterMap Act.delivered =
      log.filterMap packet? := acts_filterMap (fun m e _ _ => delivered_mailAct m e) hm
  have htaken : List.Forall₂ (· <+: ·) (log.filterMap copy?)
      ((acts Reader.step mailAct .start log).filterMap Act.taken) :=
    acts_forall₂ (fun m e m' he => Reader.step_copied he) hm
  refine ⟨_,?_,htaken⟩
  rw [← Mailbox.run_message hmail,hdelivered]
  rfl

/-- The packets with bytes in them are taken in the order of their arrival, each
by one copy, which stores a prefix of it; at most the last one is still waiting. -/
theorem packets_taken_in_order {epIn epOut : EndpointDescriptor} {memIn memOut : ℕ → Byte} {r : ℕ}
    {ls : List Label} {s : Device} (hrun : run step (.opened epIn epOut memIn memOut) ls = some s)
    (hone : ∀ l ∈ ls, readsAlone r l = true)
    (hopens : Along step OpensAtRest (.opened epIn epOut memIn memOut) ls) :
    ∃ taken, s.readLog.filterMap packet? = taken ++ (place r (readHalf s)).message ∧
      List.Forall₂ (· <+: ·) (s.readLog.filterMap copy?) taken := by
  obtain ⟨_,_,m,hm,ht⟩ := follows_run hrun hone hopens
  rw [← ht.slot]
  exact Reader.taken_in_order hm

theorem mixed_reads_taken_in_order :
    ∃ s ∈ run step canDevice mixedReads, s.readLog.filterMap packet? = [[1,2,3],[7],[9]] ∧
      ∃ taken, s.readLog.filterMap packet? = taken ++ (place 0 (readHalf s)).message ∧
        List.Forall₂ (· <+: ·) (s.readLog.filterMap copy?) taken := by
  obtain ⟨s,hs,hpackets⟩ : ∃ s ∈ run step canDevice mixedReads,
    s.readLog.filterMap packet? = [[1,2,3],[7],[9]] := by decide
  exact ⟨s,hs,hpackets,packets_taken_in_order hs (by decide) (by decide)⟩

end NrDriver.ReadProtocol
