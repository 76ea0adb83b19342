import NrDriver.TransferBounds
import NrDriver.IdleThreads

/-!
# Calls that fail before a transfer starts

A call that fails without having had a URB accepted should leave the record as
it found it: the two flags, the received bytes and every URB still in flight.
Completions may arrive while it runs, of URBs that earlier calls left behind;
what they do to these fields is no work of the call.

Four statements of the two calls can break this. `nr_read` empties the buffer
even when the length it returns is below zero; `nr_write` copies into the buffer
of a URB in flight, fills its length, and sets `outgoing_write` before it knows
whether the submission is accepted, where `nr_read` sets its flag after.
-/
namespace NrDriver.FailedCalls
open KernelModel TransferSteps ReadHalfSteps WriteHalfSteps TransferBounds IdleThreads LabelledRuns

/-- The fields that a failing call should leave alone. Of a URB these are its
transfer length and its buffer, as long as it is in flight. -/
structure Footprint where
  ongoingRead : Bool
  outgoingWrite : Bool
  lenInBuffer : ℕ
  undelivered : List Byte
  inUrb : Option (ℕ × Buffer)
  outUrb : Option (ℕ × Buffer)
  deriving DecidableEq, Repr

def flying (urb : Urb) (buffer : Buffer) : Option (ℕ × Buffer) :=
  urb.flight.map fun _ => (urb.transferBufferLength,buffer)

def footprint (s : Device) : Footprint where
  ongoingRead := s.nr.ongoingRead
  outgoingWrite := s.nr.outgoingWrite
  lenInBuffer := s.nr.lenInBuffer
  undelivered := s.nr.intInBuffer.get s.nr.lenInBuffer
  inUrb := flying s.nr.intInUrb s.nr.intInBuffer
  outUrb := flying s.nr.intOutUrb s.nr.intOutBuffer

/-- What a completion does by itself. -/
def Footprint.after (F : Footprint) : Label → Footprint
  | .inCompletes _ packet => { F with
      ongoingRead := false, lenInBuffer := packet.length, undelivered := packet, inUrb := none }
  | .outCompletes _ _ => { F with outgoingWrite := false, outUrb := none }
  | _ => F

def inLands : Label → Bool
  | .inCompletes _ _ => true
  | _ => false

def outLands : Label → Bool
  | .outCompletes _ _ => true
  | _ => false

def failedRead (id : ℕ) : ReadEvent → Bool
  | .returned call _ _ _ rs _ => call == id && decide (rs < 0)
  | _ => false

def acceptedRead (id : ℕ) : ReadEvent → Bool
  | .submitted call _ code => call == id && code == 0
  | _ => false

def failedWrite (id : ℕ) : WriteEvent → Bool
  | .returned call _ _ retval => call == id && decide (retval < 0)
  | _ => false

def acceptedWrite (id : ℕ) : WriteEvent → Bool
  | .submitted call _ _ _ code => call == id && code == 0
  | _ => false

/-- The call that this label begins in `s` has returned a negative value in `s'`,
and no URB that it submitted was accepted. -/
def failedEarly (s s' : Device) : Label → Bool
  | .beginRead _ _ _ _ =>
      s'.readLog.any (failedRead s.reads) && !s'.readLog.any (acceptedRead s.reads)
  | .beginWrite _ _ _ =>
      s'.writeLog.any (failedWrite s.writes) && !s'.writeLog.any (acceptedWrite s.writes)
  | _ => false

/-- The statement finds its effect on the footprint already there, or a
completion that has yet to come, with `ls`, overwrites it. -/
def Spares (s : Device) (l : Label) (ls : List Label) : Prop :=
  match l with
  | .run t k =>
      match s.job t with
      | .reading c => c.pc = .clear → s.nr.lenInBuffer = 0 ∨ ls.any inLands = true
      | .writing c =>
          match c.pc with
          | .copy => s.nr.intOutUrb.flight = none ∨ ls.any outLands = true ∨
              copyFromUser s.nr.intOutBuffer c.payload k = s.nr.intOutBuffer
          | .fill => s.nr.intOutUrb.flight = none ∨ ls.any outLands = true ∨
              c.count = s.nr.intOutUrb.transferBufferLength
          | .setOutgoing => s.nr.outgoingWrite = true ∨ ls.any outLands = true
          | _ => True
      | .idle => True
  | _ => True

/-- The footprint, from the two halves. -/
def footprintOf (v : ReadHalf) (w : WriteHalf) : Footprint :=
  ⟨v.ongoing,w.outgoing,v.len,v.buffer.get v.len,flying v.urb v.buffer,flying w.urb w.buffer⟩

theorem footprint_eq (s : Device) : footprint s = footprintOf (readHalf s) (writeHalf s) := rfl

section
variable {F : Footprint} {ls : List Label}

theorem foldl_len (h : ls.any inLands = false) :
    (ls.foldl Footprint.after F).lenInBuffer = F.lenInBuffer := by
  induction ls generalizing F with
  | nil => rfl
  | cons l ls ih =>
      simp only [List.any_cons,Bool.or_eq_false_iff] at h
      rw [List.foldl_cons,ih h.2]
      cases l <;> simp_all [Footprint.after,inLands]

theorem foldl_out (h : ls.any outLands = false) :
    (ls.foldl Footprint.after F).outgoingWrite = F.outgoingWrite ∧
      (ls.foldl Footprint.after F).outUrb = F.outUrb := by
  induction ls generalizing F with
  | nil => exact ⟨rfl,rfl⟩
  | cons l ls ih =>
      simp only [List.any_cons,Bool.or_eq_false_iff] at h
      rw [List.foldl_cons,(ih h.2).1,(ih h.2).2]
      cases l <;> simp_all [Footprint.after,outLands]

theorem foldl_cleared (h : ls.any inLands = true) (n : ℕ) (bytes : List Byte) :
    ls.foldl Footprint.after { F with lenInBuffer := n, undelivered := bytes } =
      ls.foldl Footprint.after F := by
  induction ls generalizing F n bytes with
  | nil => simp at h
  | cons l ls ih =>
      simp only [List.any_cons,Bool.or_eq_true] at h
      rw [List.foldl_cons,List.foldl_cons]
      cases l with
      | inCompletes => rfl
      | outCompletes status actualLength =>
          exact ih (F := F.after (.outCompletes status actualLength))
            (h.resolve_left Bool.false_ne_true) n bytes
      | _ => exact ih (F := F) (h.resolve_left Bool.false_ne_true) n bytes

theorem foldl_overwritten (h : ls.any outLands = true) (b : Bool) (o : Option (ℕ × Buffer)) :
    ls.foldl Footprint.after { F with outgoingWrite := b, outUrb := o } =
      ls.foldl Footprint.after F := by
  induction ls generalizing F b o with
  | nil => simp at h
  | cons l ls ih =>
      simp only [List.any_cons,Bool.or_eq_true] at h
      rw [List.foldl_cons,List.foldl_cons]
      cases l with
      | outCompletes => rfl
      | inCompletes status packet =>
          exact ih (F := F.after (.inCompletes status packet))
            (h.resolve_left Bool.false_ne_true) b o
      | _ => exact ih (F := F) (h.resolve_left Bool.false_ne_true) b o

end

/-- The moves of the half that a running call and the device make. -/
def readGoes : ReadAct → Bool
  | .run _ _ | .signal _ | .completes _ _ => true
  | _ => false

def writeGoes : WriteAct → Bool
  | .run _ _ | .signal _ | .takes | .completes _ _ => true
  | _ => false

theorem read_call_back {v v' : ReadHalf} {a : ReadAct} (hs : ReadHalf.Step v a v')
    (ha : readGoes a = true) {u : ℕ} {c' : ReadCall} (hu : v'.call u = some c') :
    ∃ c, v.call u = some c ∧ c'.id = c.id := by
  cases hs with
  | begins | opensLen | opensOngoing => cases ha
  | returns =>
      rcases update_some_cases hu with ⟨_,he⟩ | ⟨_,hold⟩
      · cases he
      · exact ⟨c',hold,rfl⟩
  | completes =>
      obtain ⟨c,hc,rfl⟩ := Option.map_eq_some_iff.mp hu
      refine ⟨c,hc,?_⟩
      rcases ReadCall.wake_cases c with ⟨_,he⟩ | ⟨_,he⟩ <;> rw [he]
  | seesOngoing hc | seesQuiet hc | sleeps hc | waitEnds hc | seesData hc | seesEmpty hc
  | copies hc | advances hc | computes hc | clears hc | fills hc | submits hc | refused hc
  | sets hc | interrupted hc | signalLate hc => exact update_back hc hu rfl

theorem write_call_back {v v' : WriteHalf} {a : WriteAct} (hs : WriteHalf.Step v a v')
    (ha : writeGoes a = true) {u : ℕ} {c' : WriteCall} (hu : v'.call u = some c') :
    ∃ c, v.call u = some c ∧ c'.id = c.id := by
  cases hs with
  | begins | opens => cases ha
  | takes => exact ⟨c',hu,rfl⟩
  | returns =>
      rcases update_some_cases hu with ⟨_,he⟩ | ⟨_,hold⟩
      · cases he
      · exact ⟨c',hold,rfl⟩
  | completes =>
      obtain ⟨c,hc,rfl⟩ := Option.map_eq_some_iff.mp hu
      refine ⟨c,hc,?_⟩
      rcases WriteCall.wake_cases c with ⟨_,he⟩ | ⟨_,he⟩ <;> rw [he]
  | rejects hc | accepts hc | copies hc | faults hc | fills hc | sets hc | submits hc
  | refused hc | sleeps hc | waitEnds hc | interrupted hc | signalLate hc =>
      exact update_back hc hu rfl

theorem read_takes_off {v v' : ReadHalf} {a : ReadAct} (hs : ReadHalf.Step v a v')
    (hf : v.urb.flight = none) : v'.urb.flight = none ∨
      ∃ t c urb, v.call t = some c ∧ .submitted c.id urb 0 ∈ v'.log := by
  cases hs with
  | @submits t c hc => exact .inr ⟨t,c,v.urb,hc,by simp⟩
  | completes => exact .inl rfl
  | _ => exact .inl hf

theorem write_takes_off {v v' : WriteHalf} {a : WriteAct} (hs : WriteHalf.Step v a v')
    (hf : v.urb.flight = none) : v'.urb.flight = none ∨
      ∃ t c payload urb contents, v.call t = some c ∧
        .submitted c.id payload urb contents 0 ∈ v'.log := by
  cases hs with
  | @submits t c hc => exact .inr ⟨t,c,_,_,_,hc,List.mem_append_right _ (List.mem_singleton_self _)⟩
  | takes h => simp [hf] at h
  | completes => exact .inl rfl
  | _ => exact .inl hf

/-- A label of the running call or of the device. -/
def ongoing (l : Label) : Bool := begins l == none && !opens l

theorem readAct_goes {s : Device} {l : Label} {a : ReadAct} (hl : ongoing l = true)
    (ha : readAct s l = some a) : readGoes a = true := by
  obtain rfl := label_of_readAct ha
  cases a <;> first | rfl | cases hl

theorem writeAct_goes {s : Device} {l : Label} {a : WriteAct} (hl : ongoing l = true)
    (ha : writeAct s l = some a) : writeGoes a = true := by
  obtain rfl := label_of_writeAct ha
  cases a <;> first | rfl | cases hl

/-- No URB takes off at this step. -/
structure Grounded (s : Device) (l : Label) : Prop where
  read : ∀ u, step s l = some u → s.nr.intInUrb.flight = none → u.nr.intInUrb.flight = none
  write : ∀ u, step s l = some u → s.nr.intOutUrb.flight = none → u.nr.intOutUrb.flight = none

/-- At most one thread is in a call. -/
def Lone {C : Type*} (call : ℕ → Option C) : Prop :=
  ∀ t u c d, call t = some c → call u = some d → t = u

theorem Lone.back {C : Type*} {call call' : ℕ → Option C} (h : Lone call)
    (hback : ∀ u c', call' u = some c' → ∃ c, call u = some c) : Lone call' := by
  intro t u c d hc hd
  obtain ⟨c₀,hc₀⟩ := hback t c hc
  obtain ⟨d₀,hd₀⟩ := hback u d hd
  exact h t u c₀ d₀ hc₀ hd₀

theorem Lone.moved {C : Type*} {call : ℕ → Option C} (h : Lone call) {t : ℕ} {c c' : C}
    (hc : call t = some c) {u : ℕ} {d : C} (hu : Function.update call t (some c') u = some d) :
    d = c' := by
  rcases update_some_cases hu with ⟨_,he⟩ | ⟨hne,hold⟩
  · exact (Option.some.inj he).symm
  · exact (hne (h u t d c hold hc)).elim

/-- No call is about to set `ongoing_read`. -/
def Unset (v : ReadHalf) : Prop := ∀ t c, v.call t = some c → c.pc ≠ .setOngoing

/-- The state while one call runs that has had no URB accepted. -/
structure Calm (epIn epOut : EndpointDescriptor) (s : Device) : Prop where
  bounds : Bounds epIn epOut s
  filled : Filled epIn (readHalf s)
  unset : Unset (readHalf s)
  reader : Lone (readHalf s).call
  writer : Lone (writeHalf s).call

theorem unset_step {v v' : ReadHalf} {a : ReadAct} (h : Unset v) (hs : ReadHalf.Step v a v')
    (hno : v.urb.flight = none → v'.urb.flight = none) : Unset v' := by
  have moved {t : ℕ} {c' : ReadCall} (hc' : c'.pc ≠ .setOngoing) :
      ∀ u c, Function.update v.call t (some c') u = some c → c.pc ≠ .setOngoing := by
    refine forall_update h ?_
    rintro _ ⟨⟩
    exact hc'
  cases hs with
  | submits _ _ hf => cases hno hf
  | returns => exact forall_update h (by simp)
  | completes =>
      intro u c hu
      obtain ⟨c₀,hc₀,rfl⟩ := Option.map_eq_some_iff.mp hu
      rcases ReadCall.wake_cases c₀ with ⟨_,he⟩ | ⟨_,he⟩
      · simp [he]
      · rw [he]
        exact h u c₀ hc₀
  | opensLen | opensOngoing => exact h
  | begins => exact moved (by simp [ReadCall.start])
  | _ => exact moved (by simp)

theorem Calm.step {epIn epOut : EndpointDescriptor} {s u : Device} {l : Label}
    (h : Calm epIn epOut s) (hl : ongoing l = true) (hno : Grounded s l)
    (hs : step s l = some u) : Calm epIn epOut u := by
  refine ⟨h.bounds.step hs,?_,?_,?_,?_⟩
  · exact readHalf_kept h.filled hs fun _ _ hr => h.filled.step h.bounds.1 hr
  · exact readHalf_kept (I := Unset) h.unset hs fun _ _ hr => unset_step h.unset hr (hno.read u hs)
  · refine readHalf_kept (I := fun v => Lone v.call) h.reader hs fun a ha hr => ?_
    refine h.reader.back fun t c' hc' => ?_
    obtain ⟨c,hc,_⟩ := read_call_back hr (readAct_goes hl ha) hc'
    exact ⟨c,hc⟩
  · refine writeHalf_kept (I := fun v => Lone v.call) h.writer hs fun a ha hw => ?_
    refine h.writer.back fun t c' hc' => ?_
    obtain ⟨c,hc,_⟩ := write_call_back hw (writeAct_goes hl ha) hc'
    exact ⟨c,hc⟩

theorem flying_inj {urb urb' : Urb} {b b' : Buffer} (h : flying urb' b' = flying urb b)
    (hf : urb.flight ≠ none) :
    urb'.transferBufferLength = urb.transferBufferLength ∧ b' = b := by
  obtain ⟨f,hf⟩ := Option.ne_none_iff_exists'.mp hf
  simp only [flying,hf,Option.map_some,Option.map_eq_some_iff,Prod.mk.injEq] at h
  obtain ⟨_,_,hlen,hb⟩ := h
  exact ⟨hlen,hb⟩

/-- Of a URB out of flight nothing shows. -/
theorem flying_congr {urb urb' : Urb} {b b' : Buffer} (hf : urb'.flight = urb.flight)
    (h : urb.flight = none ∨
      urb'.transferBufferLength = urb.transferBufferLength ∧ b' = b) :
    flying urb' b' = flying urb b := by
  rcases h with h | ⟨hlen,rfl⟩
  · simp [flying,hf,h]
  · simp [flying,hf,hlen]

/-- A statement of `nr_read` changes the footprint only where it empties the buffer. -/
theorem read_effect {ep : EndpointDescriptor} {v v' : ReadHalf} {t k : ℕ} {c : ReadCall}
    (hb : ReadBounds ep v) (hf : Filled ep v) (hun : Unset v)
    (hs : ReadHalf.Step v (.run t k) v') (hno : v.urb.flight = none → v'.urb.flight = none)
    (hc : v.call t = some c) (w : WriteHalf) :
    (c.pc ≠ .clear ∧ footprintOf v' w = footprintOf v w) ∨
    (c.pc = .clear ∧
      footprintOf v' w = { footprintOf v w with lenInBuffer := 0, undelivered := [] } ∧
      v'.len = 0 ∧ ∃ c', c'.pc = .exit ∧ v'.call = Function.update v.call t (some c')) := by
  have other {c₂ : ReadCall} (hd : v.call t = some c₂) (hpc : c₂.pc ≠ .clear) : c.pc ≠ .clear := by
    rw [hc] at hd
    cases hd
    exact hpc
  cases hs with
  | clears hd hpc =>
      rw [hc] at hd
      cases hd
      refine .inr ⟨hpc,?_,rfl,_,rfl,rfl⟩
      simp [footprintOf]
  | fills hd hpc =>
      refine .inl ⟨other hd (by simp [hpc]),?_⟩
      -- the length was the packet size already
      have hsame : flying (usbFillIntUrb v.urb (.rcvint v.endpoint.bEndpointAddress)
          v.endpoint.packetSize v.endpoint.bInterval) v.buffer = flying v.urb v.buffer := by
        cases hfl : v.urb.flight with
        | none => simp [flying,hfl]
        | some f => simp [flying,hfl,hb.endpoint,hf.flying f hfl]
      simp only [footprintOf,ReadHalf.put,hsame]
  | submits _ _ hfl => cases hno hfl
  | sets hd hpc => exact (hun t _ hd hpc).elim
  | seesOngoing hd hpc | seesQuiet hd hpc | sleeps hd hpc | waitEnds hd hpc | seesData hd hpc
  | seesEmpty hd hpc | copies hd hpc | advances hd hpc | computes hd hpc | refused hd hpc
  | returns hd hpc => exact .inl ⟨other hd (by simp [hpc]),rfl⟩

/-- The statements of `nr_write` in their order. -/
def rank : WritePc → ℕ
  | .checkCount => 0
  | .copy => 1
  | .fill => 2
  | .setOutgoing => 3
  | .submit => 4
  | .testWait | .asleep => 5
  | .exit => 6

/-- The three statements of `nr_write` before its submission that change the
footprint, each with what it writes. -/
theorem write_effect {v v' : WriteHalf} {t k : ℕ} {c : WriteCall}
    (hs : WriteHalf.Step v (.run t k) v') (hno : v.urb.flight = none → v'.urb.flight = none)
    (hc : v.call t = some c) (r : ReadHalf) :
    (c.pc ≠ .copy ∧ c.pc ≠ .fill ∧ c.pc ≠ .setOutgoing ∧ footprintOf r v' = footprintOf r v) ∨
    ∃ c', v'.call = Function.update v.call t (some c') ∧ rank c.pc < rank c'.pc ∧
      ((c.pc = .copy ∧ v'.urb = v.urb ∧ v'.outgoing = v.outgoing ∧
        v'.buffer = copyFromUser v.buffer c.payload k) ∨
      (c.pc = .fill ∧ v'.urb.flight = v.urb.flight ∧ v'.urb.transferBufferLength = c.count ∧
        v'.outgoing = v.outgoing ∧ v'.buffer = v.buffer) ∨
      (c.pc = .setOutgoing ∧ v'.urb = v.urb ∧ v'.outgoing = true ∧ v'.buffer = v.buffer)) := by
  have same {c₂ : WriteCall} (hd : v.call t = some c₂) : c = c₂ :=
    Option.some.inj (hc.symm.trans hd)
  cases hs with
  | copies hd hpc =>
      obtain rfl := same hd
      exact .inr ⟨_,rfl,by simp [hpc,rank],.inl ⟨hpc,rfl,rfl,(copyFromUser_all _ _).symm⟩⟩
  | faults hd hpc =>
      obtain rfl := same hd
      exact .inr ⟨_,rfl,by simp [hpc,rank],.inl ⟨hpc,rfl,rfl,rfl⟩⟩
  | fills hd hpc =>
      obtain rfl := same hd
      exact .inr ⟨_,rfl,by simp [hpc,rank],.inr (.inl ⟨hpc,rfl,rfl,rfl,rfl⟩)⟩
  | sets hd hpc =>
      obtain rfl := same hd
      exact .inr ⟨_,rfl,by simp [hpc,rank],.inr (.inr ⟨hpc,rfl,rfl,rfl⟩)⟩
  | submits _ _ hfl => cases hno hfl
  | rejects hd hpc | accepts hd hpc | refused hd hpc | sleeps hd hpc | waitEnds hd hpc
  | returns hd hpc =>
      obtain rfl := same hd
      exact .inl ⟨by simp [hpc],by simp [hpc],by simp [hpc],rfl⟩

/-- After `nr_read` has emptied the buffer only the return is left. -/
structure Emptied (n : ℕ) (v : ReadHalf) : Prop where
  calls : ∀ t c, v.call t = some c → c.pc = .exit
  len : v.len = n

theorem Emptied.step {n : ℕ} {v v' : ReadHalf} {a : ReadAct} (h : Emptied n v)
    (hs : ReadHalf.Step v a v') (ha : readGoes a = true)
    (hland : ∀ status packet, a ≠ .completes status packet) : Emptied n v' := by
  have stuck {t : ℕ} {c : ReadCall} (hc : v.call t = some c) (hpc : c.pc ≠ .exit) :
      Emptied n v' := (hpc (h.calls t c hc)).elim
  cases hs with
  | begins | opensLen | opensOngoing => cases ha
  | completes => exact (hland _ _ rfl).elim
  | returns => exact ⟨forall_update h.calls (by simp),h.len⟩
  | interrupted hc hpc | signalLate hc hpc =>
      exact stuck hc (by rcases hpc with hpc | hpc <;> simp [hpc])
  | seesOngoing hc hpc | seesQuiet hc hpc | sleeps hc hpc | waitEnds hc hpc | seesData hc hpc
  | seesEmpty hc hpc | copies hc hpc | advances hc hpc | computes hc hpc | clears hc hpc
  | fills hc hpc | submits hc hpc | refused hc hpc | sets hc hpc => exact stuck hc (by simp [hpc])

/-- What `nr_write` has written once it is past the statement of rank `r`. -/
structure Past (r : ℕ) (v₀ v : WriteHalf) : Prop where
  calls : ∀ t c, v.call t = some c → r < rank c.pc
  buffer : 1 ≤ r → v.buffer = v₀.buffer
  length : 2 ≤ r → v.urb.transferBufferLength = v₀.urb.transferBufferLength
  outgoing : 3 ≤ r → v.outgoing = v₀.outgoing

theorem Past.step {r : ℕ} {v₀ v v' : WriteHalf} {a : WriteAct} (h : Past r v₀ v)
    (hs : WriteHalf.Step v a v') (ha : writeGoes a = true)
    (hland : ∀ status actualLength, a ≠ .completes status actualLength) : Past r v₀ v' := by
  have put {t : ℕ} {c c' : WriteCall} (hc : v.call t = some c) (hle : rank c.pc ≤ rank c'.pc) :
      ∀ u d, (v.put t c').call u = some d → r < rank d.pc := by
    refine forall_update h.calls ?_
    rintro _ ⟨⟩
    exact Nat.lt_of_lt_of_le (h.calls t c hc) hle
  cases hs with
  | begins | opens => cases ha
  | completes => exact (hland _ _ rfl).elim
  | takes => exact ⟨h.calls,h.buffer,h.length,h.outgoing⟩
  | returns => exact ⟨forall_update h.calls (by simp),h.buffer,h.length,h.outgoing⟩
  | copies hc hpc | faults hc hpc =>
      have hr := h.calls _ _ hc
      simp only [hpc,rank] at hr
      exact ⟨put hc (by simp [hpc,rank]),by omega,by omega,by omega⟩
  | fills hc hpc =>
      have hr := h.calls _ _ hc
      simp only [hpc,rank] at hr
      exact ⟨put hc (by simp [hpc,rank]),h.buffer,by omega,by omega⟩
  | sets hc hpc =>
      have hr := h.calls _ _ hc
      simp only [hpc,rank] at hr
      exact ⟨put hc (by simp [hpc,rank]),h.buffer,h.length,by omega⟩
  | interrupted hc hpc | signalLate hc hpc =>
      refine ⟨put hc ?_,h.buffer,h.length,h.outgoing⟩
      rcases hpc with hpc | hpc <;> simp [hpc,rank]
  | rejects hc hpc | accepts hc hpc | submits hc hpc | refused hc hpc | sleeps hc hpc
  | waitEnds hc hpc =>
      exact ⟨put hc (by simp [hpc,rank]),h.buffer,h.length,h.outgoing⟩

theorem emptied_run {n : ℕ} {s s' : Device} {ls : List Label} (h : Emptied n (readHalf s))
    (hl : Along step (fun _ l => ongoing l = true) s ls) (hland : ls.any inLands = false)
    (hrun : run step s ls = some s') : s'.nr.lenInBuffer = n := by
  have hfew : ∀ l ∈ ls, inLands l = false := by simpa [List.any_eq_false] using hland
  refine (run_invariant (I := fun s => Emptied n (readHalf s)) ?_ h (.labels_and hfew hl) hrun).len
  intro s l u hI hP hs
  refine readHalf_kept hI hs fun a ha hr => hI.step hr (readAct_goes hP.2 ha) ?_
  rintro status packet rfl
  rw [label_of_readAct ha] at hP
  cases hP.1

theorem past_run {r : ℕ} {s s' : Device} {ls : List Label} {v₀ : WriteHalf}
    (h : Past r v₀ (writeHalf s)) (hl : Along step (fun _ l => ongoing l = true) s ls)
    (hland : ls.any outLands = false) (hrun : run step s ls = some s') :
    Past r v₀ (writeHalf s') := by
  have hfew : ∀ l ∈ ls, outLands l = false := by simpa [List.any_eq_false] using hland
  refine run_invariant (I := fun s => Past r v₀ (writeHalf s)) ?_ h (.labels_and hfew hl) hrun
  intro s l u hI hP hs
  refine writeHalf_kept hI hs fun a ha hw => hI.step hw (writeAct_goes hP.2 ha) ?_
  rintro status actualLength rfl
  rw [label_of_writeAct ha] at hP
  cases hP.1

theorem footprint_after {s u : Device} {l : Label} (hl : ongoing l = true)
    (hrun : ∀ t k, l ≠ .run t k) (hs : step s l = some u) :
    footprint u = (footprint s).after l := by
  cases l with
  | beginRead | beginWrite | openWrite => cases hl
  | run t k => exact (hrun t k rfl).elim
  | signal t =>
      cases hj : s.job t with
      | idle => simp [step,hj] at hs
      | reading c =>
          simp only [step,hj,Option.map_eq_some_iff] at hs
          obtain ⟨_,_,rfl⟩ := hs
          rfl
      | writing c =>
          simp only [step,hj,Option.map_eq_some_iff] at hs
          obtain ⟨_,_,rfl⟩ := hs
          rfl
  | inCompletes status packet =>
      simp only [step,inCompletes] at hs
      split at hs
      · simp at hs
      · split_ifs at hs
        cases hs
        simp [footprint,Footprint.after,nrReadIntCallback,flying]
  | outTakes =>
      simp only [step,outTakes] at hs
      split at hs
      · simp at hs
      · rename_i f hf
        cases hs
        simp [footprint,Footprint.after,flying,hf]
  | outCompletes status actualLength =>
      simp only [step,outCompletes] at hs
      split at hs
      · simp at hs
      · split_ifs at hs
        cases hs
        simp [footprint,Footprint.after,nrWriteIntCallback,flying]

section
variable {epIn epOut : EndpointDescriptor} {s u v : Device} {t k : ℕ} {ls : List Label}

theorem read_footprint_of_spares {c : ReadCall} (h : Calm epIn epOut s)
    (hno : Grounded s (.run t k)) (hj : s.job t = .reading c) (hs : step s (.run t k) = some u)
    (hspared : Spares s (.run t k) ls) :
    ls.foldl Footprint.after (footprint u) = ls.foldl Footprint.after (footprint s) := by
  simp only [Spares,hj] at hspared
  have hmove : runRead s t c k = some u := by simpa only [step,hj] using hs
  have heffect := read_effect h.bounds.1 h.filled h.unset (runRead_readHalf hj hmove)
    (hno.read u hs) (readHalf_call hj) (writeHalf s)
  rw [footprint_eq u,runRead_writeHalf hj hmove]
  rcases heffect with ⟨_,hsame⟩ | ⟨hpc,hcleared,_⟩
  · rw [hsame]
    rfl
  · rw [hcleared]
    rcases hspared hpc with hzero | hland
    · have hlen : (readHalf s).len = 0 := hzero
      simp [footprintOf,hlen,footprint_eq]
    · exact foldl_cleared hland 0 []

theorem read_spares_of_footprint {c : ReadCall} (h : Calm epIn epOut s)
    (hno : Grounded s (.run t k)) (hj : s.job t = .reading c) (hs : step s (.run t k) = some u)
    (hl : Along step (fun _ l => ongoing l = true) u ls) (hrun : run step u ls = some v)
    (hview : footprint v = ls.foldl Footprint.after (footprint s)) :
    Spares s (.run t k) ls := by
  simp only [Spares,hj]
  intro hpc
  cases hland : ls.any inLands with
  | true => exact .inr rfl
  | false =>
      have hmove : runRead s t c k = some u := by simpa only [step,hj] using hs
      have hc := readHalf_call hj
      rcases read_effect h.bounds.1 h.filled h.unset (runRead_readHalf hj hmove)
        (hno.read u hs) hc (writeHalf s) with ⟨hne,_⟩ | ⟨_,_,hlen,c',hexit,hcall⟩
      · exact (hne hpc).elim
      · have hemptied : Emptied 0 (readHalf u) := by
          refine ⟨fun w d hd => ?_,hlen⟩
          rw [hcall] at hd
          rw [h.reader.moved hc hd,hexit]
        have hzero : v.nr.lenInBuffer = 0 := emptied_run hemptied hl hland hrun
        have hkept : v.nr.lenInBuffer = s.nr.lenInBuffer :=
          (congrArg Footprint.lenInBuffer hview).trans (foldl_len hland)
        exact .inl (hkept.symm.trans hzero)

theorem write_footprint_of_spares {c : WriteCall} (hno : Grounded s (.run t k))
    (hj : s.job t = .writing c) (hs : step s (.run t k) = some u)
    (hspared : Spares s (.run t k) ls) :
    ls.foldl Footprint.after (footprint u) = ls.foldl Footprint.after (footprint s) := by
  have hmove : runWrite s t c k = some u := by simpa only [step,hj] using hs
  have hread : footprint u = footprintOf (readHalf s) (writeHalf u) := by
    rw [footprint_eq u,runWrite_readHalf hj hmove]
  cases hland : ls.any outLands with
  | true =>
      rw [hread]
      exact foldl_overwritten (F := footprint s) hland _ _
  | false =>
      suffices hsame : u.nr.outgoingWrite = s.nr.outgoingWrite ∧
          flying u.nr.intOutUrb u.nr.intOutBuffer = flying s.nr.intOutUrb s.nr.intOutBuffer by
        have heq : footprint u = footprint s := by
          rw [hread]
          simp only [footprintOf,footprint,Footprint.mk.injEq]
          exact ⟨rfl,hsame.1,rfl,rfl,rfl,hsame.2⟩
        rw [heq]
      simp only [Spares,hj,hland,Bool.false_eq_true,false_or,or_false] at hspared
      rcases write_effect (runWrite_writeHalf hj hmove) (hno.write u hs) (writeHalf_call hj)
        (readHalf s) with ⟨_,_,_,hsame⟩ | ⟨c',_,_,hwrites⟩
      · rw [← hread] at hsame
        exact ⟨congrArg Footprint.outgoingWrite hsame,congrArg Footprint.outUrb hsame⟩
      · -- the copy, the fill and the flag, with no completion to come
        rcases hwrites with ⟨hpc,hurb,hout,hbuffer⟩ | ⟨hpc,hf,hlen,hout,hbuffer⟩ |
          ⟨hpc,hurb,hout,hbuffer⟩
        · simp only [hpc] at hspared
          refine ⟨hout,flying_congr (congrArg Urb.flight hurb) (hspared.imp_right fun he => ?_)⟩
          exact ⟨congrArg Urb.transferBufferLength hurb,hbuffer.trans he⟩
        · simp only [hpc] at hspared
          exact ⟨hout,flying_congr hf (hspared.imp_right fun he => ⟨hlen.trans he,hbuffer⟩)⟩
        · simp only [hpc] at hspared
          exact ⟨hout.trans hspared.symm,flying_congr (congrArg Urb.flight hurb)
            (.inr ⟨congrArg Urb.transferBufferLength hurb,hbuffer⟩)⟩

theorem write_spares_of_footprint {c : WriteCall} (h : Calm epIn epOut s)
    (hno : Grounded s (.run t k)) (hj : s.job t = .writing c) (hs : step s (.run t k) = some u)
    (hl : Along step (fun _ l => ongoing l = true) u ls) (hrun : run step u ls = some v)
    (hview : footprint v = ls.foldl Footprint.after (footprint s)) :
    Spares s (.run t k) ls := by
  have hmove : runWrite s t c k = some u := by simpa only [step,hj] using hs
  have hc := writeHalf_call hj
  simp only [Spares,hj]
  cases hland : ls.any outLands with
  | true => cases c.pc <;> simp
  | false =>
      rcases write_effect (runWrite_writeHalf hj hmove) (hno.write u hs) hc (readHalf s) with
        ⟨hcopy,hfill,hset,_⟩ | ⟨c',hcall,hrank,hwrites⟩
      · cases hpc : c.pc <;> simp_all
      · have hpast : Past (rank c.pc) (writeHalf u) (writeHalf u) := by
          refine ⟨fun w d hd => ?_,fun _ => rfl,fun _ => rfl,fun _ => rfl⟩
          rw [hcall] at hd
          rwa [h.writer.moved hc hd]
        -- what the statement wrote is there at the end, and the view is as before it
        have hend := past_run hpast hl hland hrun
        obtain ⟨hout₀,hurb₀⟩ := foldl_out (F := footprint s) hland
        rw [← hview] at hout₀ hurb₀
        have hkept (hf : s.nr.intOutUrb.flight ≠ none) :
            v.nr.intOutUrb.transferBufferLength = s.nr.intOutUrb.transferBufferLength ∧
              v.nr.intOutBuffer = s.nr.intOutBuffer := flying_inj hurb₀ hf
        rcases hwrites with ⟨hpc,_,_,hbuffer⟩ | ⟨hpc,_,hlen,_,_⟩ | ⟨hpc,_,hout,_⟩
        · simp only [hpc,rank] at hend ⊢
          by_cases hf : s.nr.intOutUrb.flight = none
          · exact .inl hf
          · have hback : (writeHalf u).buffer = s.nr.intOutBuffer :=
              (hend.buffer (by omega)).symm.trans (hkept hf).2
            exact .inr (.inr (hbuffer.symm.trans hback))
        · simp only [hpc,rank] at hend ⊢
          by_cases hf : s.nr.intOutUrb.flight = none
          · exact .inl hf
          · have hback : (writeHalf u).urb.transferBufferLength =
                s.nr.intOutUrb.transferBufferLength :=
              (hend.length (by omega)).symm.trans (hkept hf).1
            exact .inr (.inr (hlen.symm.trans hback))
        · simp only [hpc,rank] at hend ⊢
          have hset : s.nr.outgoingWrite = true :=
            hout₀.symm.trans ((hend.outgoing (by omega)).trans hout)
          exact .inl hset

end

theorem footprint_of_spares {epIn epOut : EndpointDescriptor} {s u : Device} {l : Label}
    {ls : List Label} (h : Calm epIn epOut s) (hl : ongoing l = true) (hno : Grounded s l)
    (hs : step s l = some u) (hspared : Spares s l ls) :
    ls.foldl Footprint.after (footprint u) =
      ls.foldl Footprint.after ((footprint s).after l) := by
  by_cases hrun : ∃ t k, l = .run t k
  · obtain ⟨t,k,rfl⟩ := hrun
    cases hj : s.job t with
    | idle => simp [step,hj] at hs
    | reading c => exact read_footprint_of_spares h hno hj hs hspared
    | writing c => exact write_footprint_of_spares hno hj hs hspared
  · rw [footprint_after hl (fun t k he => hrun ⟨t,k,he⟩) hs]

/-- A step without a lasting mark was spared: no later statement of the call
writes the same field. -/
theorem spares_of_footprint {epIn epOut : EndpointDescriptor} {s u v : Device} {l : Label}
    {ls : List Label} (h : Calm epIn epOut s) (hno : Grounded s l) (hs : step s l = some u)
    (hl : Along step (fun _ l => ongoing l = true) u ls) (hrun : run step u ls = some v)
    (hview : footprint v = ls.foldl Footprint.after ((footprint s).after l)) :
    Spares s l ls := by
  cases l with
  | run t k =>
      cases hj : s.job t with
      | idle => simp [step,hj] at hs
      | reading c => exact read_spares_of_footprint h hno hj hs hl hrun hview
      | writing c => exact write_spares_of_footprint h hno hj hs hl hrun hview
  | _ => trivial

/-- The calls that run are not among those that these histories show accepted. -/
structure Unaccepted (reads : List ReadEvent) (writes : List WriteEvent) (s : Device) :
    Prop where
  read : ∀ t c, (readHalf s).call t = some c → reads.any (acceptedRead c.id) = false
  write : ∀ t c, (writeHalf s).call t = some c → writes.any (acceptedWrite c.id) = false

theorem Unaccepted.step {reads : List ReadEvent} {writes : List WriteEvent} {s u : Device}
    {l : Label} (h : Unaccepted reads writes s) (hl : ongoing l = true)
    (hs : step s l = some u) : Unaccepted reads writes u := by
  constructor
  · refine readHalf_kept (I := fun v => ∀ t c, v.call t = some c →
      reads.any (acceptedRead c.id) = false) h.read hs fun a ha hr t c' hc' => ?_
    obtain ⟨c,hc,hid⟩ := read_call_back hr (readAct_goes hl ha) hc'
    rw [hid]
    exact h.read t c hc
  · refine writeHalf_kept (I := fun v => ∀ t c, v.call t = some c →
      writes.any (acceptedWrite c.id) = false) h.write hs fun a ha hw t c' hc' => ?_
    obtain ⟨c,hc,hid⟩ := write_call_back hw (writeAct_goes hl ha) hc'
    rw [hid]
    exact h.write t c hc

theorem logs_grow {s s' : Device} {ls : List Label} (hrun : run step s ls = some s') :
    s.readLog <+: s'.readLog ∧ s.writeLog <+: s'.writeLog := by
  refine run_kept (I := fun u => s.readLog <+: u.readLog ∧ s.writeLog <+: u.writeLog) ?_
    ⟨List.prefix_rfl,List.prefix_rfl⟩ hrun
  intro u l v h hs
  exact ⟨readHalf_kept (I := fun v => s.readLog <+: v.log) h.1 hs
      fun _ _ hr => h.1.trans hr.log_grows,
    writeHalf_kept (I := fun v => s.writeLog <+: v.log) h.2 hs
      fun _ _ hw => h.2.trans hw.log_grows⟩

theorem grounded_along {s s' : Device} {ls : List Label}
    (h : Unaccepted s'.readLog s'.writeLog s) (hl : ∀ l ∈ ls, ongoing l = true)
    (hrun : run step s ls = some s') : Along step Grounded s ls := by
  induction ls generalizing s with
  | nil => trivial
  | cons l ls ih =>
      obtain ⟨u,hs,hr⟩ := run_cons hrun
      have hl₀ := hl l (List.mem_cons_self ..)
      have hgrow := logs_grow hr
      have same {w : Device} (hw : step s l = some w) : w = u :=
        Option.some.inj (hw.symm.trans hs)
      refine .cons ⟨fun w hw hf => ?_,fun w hw hf => ?_⟩ fun w hw => ?_
      · obtain rfl := same hw
        refine readHalf_kept (I := fun v => v.urb.flight = none) hf hs fun a ha hread => ?_
        rcases read_takes_off hread hf with hf' | ⟨t,c,urb,hc,hmem⟩
        · exact hf'
        · have hnone := List.any_eq_false.mp (h.read t c hc) _ (hgrow.1.mem hmem)
          simp [acceptedRead] at hnone
      · obtain rfl := same hw
        refine writeHalf_kept (I := fun v => v.urb.flight = none) hf hs fun a ha hwrite => ?_
        rcases write_takes_off hwrite hf with hf' | ⟨t,c,payload,urb,contents,hc,hmem⟩
        · exact hf'
        · have hnone := List.any_eq_false.mp (h.write t c hc) _ (hgrow.2.mem hmem)
          simp [acceptedWrite] at hnone
      · obtain rfl := same hw
        exact ih (h.step hl₀ hs) (fun l hmem => hl l (List.mem_cons_of_mem _ hmem)) hr

theorem read_begins {v v' : ReadHalf} {t filp count : ℕ} {ppos : ℤ}
    (hs : ReadHalf.Step v (.begin t filp count ppos) v') :
    v'.call = Function.update v.call t (some (.start v.reads filp count ppos)) := by
  cases hs
  rfl

theorem write_begins {v v' : WriteHalf} {t filp : ℕ} {payload : List Byte}
    (hs : WriteHalf.Step v (.begin t filp payload) v') :
    v'.call = Function.update v.call t (some (.start v.writes filp payload)) := by
  cases hs
  rfl

theorem only_begun {C : Type*} {call call' : ℕ → Option C} {t : ℕ} {c₀ : C}
    (hnone : ∀ u, call u = none) (hcall : call' = Function.update call t (some c₀)) {u : ℕ} {c : C}
    (hu : call' u = some c) : u = t ∧ c = c₀ := by
  rw [hcall] at hu
  rcases update_some_cases hu with ⟨hut,he⟩ | ⟨_,hold⟩
  · exact ⟨hut,(Option.some.inj he).symm⟩
  · simp [hnone] at hold

theorem begun {epIn epOut : EndpointDescriptor} {s u s' : Device} {b : Label}
    (hb : Bounds epIn epOut s) (hf : Filled epIn (readHalf s)) (hidle : ∀ t, s.job t = .idle)
    (hs : step s b = some u) (hfail : failedEarly s s' b = true) :
    footprint u = footprint s ∧ Calm epIn epOut u ∧ Unaccepted s'.readLog s'.writeLog u := by
  have hbounds := hb.step hs
  have hfilled : Filled epIn (readHalf u) := readHalf_kept hf hs fun _ _ hr => hf.step hb.1 hr
  have noread (w : ℕ) : (readHalf s).call w = none := (idle_iff.mp (hidle w)).1
  have nowrite (w : ℕ) : (writeHalf s).call w = none := (idle_iff.mp (hidle w)).2
  cases b with
  | beginRead t filp count ppos =>
      simp only [failedEarly,Bool.and_eq_true,Bool.not_eq_true'] at hfail
      have honly {w : ℕ} {c : ReadCall} (hc : (readHalf u).call w = some c) :=
        only_begun noread (read_begins (step_readHalf hs)) hc
      have hwrite : writeHalf u = writeHalf s := step_writeHalf hs
      simp only [step,hidle,Option.some.injEq] at hs
      refine ⟨by rw [← hs]; rfl,⟨hbounds,hfilled,?_,?_,?_⟩,⟨?_,?_⟩⟩
      · intro w c hc
        simp [(honly hc).2,ReadCall.start]
      · exact fun w x c d hc hd => (honly hc).1.trans (honly hd).1.symm
      · simp [Lone,hwrite,nowrite]
      · intro w c hc
        rw [(honly hc).2]
        exact hfail.2
      · simp [hwrite,nowrite]
  | beginWrite t filp payload =>
      simp only [failedEarly,Bool.and_eq_true,Bool.not_eq_true'] at hfail
      have honly {w : ℕ} {c : WriteCall} (hc : (writeHalf u).call w = some c) :=
        only_begun nowrite (write_begins (step_writeHalf hs)) hc
      have hread : readHalf u = readHalf s := step_readHalf hs
      simp only [step,hidle,Option.some.injEq] at hs
      refine ⟨by rw [← hs]; rfl,⟨hbounds,hfilled,?_,?_,?_⟩,⟨?_,?_⟩⟩
      · simp [Unset,hread,noread]
      · simp [Lone,hread,noread]
      · exact fun w x c d hc hd => (honly hc).1.trans (honly hd).1.symm
      · simp [hread,noread]
      · intro w c hc
        rw [(honly hc).2]
        exact hfail.2
  | _ => cases hfail

/-- From any reachable state with no call running, a call that fails without a
transfer leaves the fields as the completions alone would, if and only if each
of its statements is spared. -/
theorem failed_call_leaves_iff {epIn epOut : EndpointDescriptor} {memIn memOut : ℕ → Byte}
    {past ls : List Label} {b : Label} {s s' : Device}
    (hreach : run step (.fresh (.probed epIn epOut memIn memOut)) past = some s)
    (hidle : ∀ t, s.job t = .idle) (hl : ∀ l ∈ ls, ongoing l = true)
    (hrun : run step s (b :: ls) = some s') (hfail : failedEarly s s' b = true) :
    footprint s' = ls.foldl Footprint.after (footprint s) ↔ Ahead step Spares s (b :: ls) := by
  have hstart := bounds_probed epIn epOut memIn memOut
  obtain ⟨u,hs,hr⟩ := run_cons hrun
  obtain ⟨hfirst,hcalm,hunaccepted⟩ := begun (hstart.run hreach)
    (filled_run hstart (filled_probed ..) hreach) hidle hs hfail
  have hP : Along step (fun s l => ongoing l = true ∧ Grounded s l) u ls :=
    .labels_and hl (grounded_along hunaccepted hl hr)
  have hspared : Spares s b ls := by
    cases b with
    | run t k => simp [Spares,hidle]
    | _ => trivial
  rw [ahead_cons hs,← hfirst]
  simp only [hspared,true_and]
  refine fold_iff_ahead (J := Calm epIn epOut) (fun s l u h hP hs => h.step hP.1 hP.2 hs) ?_ ?_
    hcalm hP hr
  · intro s l u ls h hP hs hsp
    exact footprint_of_spares h hP.1 hP.2 hs hsp
  · intro s l u ls v h hP hs hrest hrun hview
    exact spares_of_footprint h hP.2 hs (hrest.imp fun _ _ hQ => hQ.1) hrun hview

/-- A write of three bytes is cut short by a signal and leaves its URB in flight. -/
def cutShort : List Label :=
  .beginWrite 0 0 [1,2,3] :: List.replicate 5 (.run 0 0) ++ [.signal 0,.run 0 0]

theorem idle_after {s : Device} {ls : List Label} (hl : ∀ l ∈ ls, among 1 l = true)
    (hrun : run step canDevice ls = some s) (hzero : s.job 0 = .idle) :
    ∀ t, s.job t = .idle := by
  intro t
  cases t with
  | zero => exact hzero
  | succ t => exact run_among (fun _ _ => rfl) hl hrun (t + 1) (by omega)

/-- The three bytes are written again: the submission finds the URB in flight,
after a copy, a fill and an assignment that found their effect already there. -/
def sameWrite : List Label := .beginWrite 0 0 [1,2,3] :: List.replicate 6 (.run 0 0)

theorem same_write_spared :
    ∃ s ∈ run step canDevice cutShort, ∃ s' ∈ run step s sameWrite,
      (footprint s).outUrb ≠ none ∧ footprint s' = footprint s ∧ Ahead step Spares s sameWrite := by
  obtain ⟨s,hs,hzero,s',hs',hfail,hflying,hsame⟩ : ∃ s ∈ run step canDevice cutShort,
      s.job 0 = .idle ∧ ∃ s' ∈ run step s sameWrite,
        failedEarly s s' (.beginWrite 0 0 [1,2,3]) = true ∧ (footprint s).outUrb ≠ none ∧
          footprint s' = footprint s := by decide
  exact ⟨s,hs,s',hs',hflying,hsame,(failed_call_leaves_iff hs
    (idle_after (by decide) hs hzero) (by decide) hs' hfail).mp hsame⟩

/-- The submission is refused for want of memory. -/
def refusedWrite : List Label :=
  .beginWrite 0 0 [7] :: List.replicate 4 (.run 0 0) ++ [.run 0 12,.run 0 0]

/-- The submission finds the URB of another write in flight. -/
def busyWrite : List Label := .beginWrite 0 0 [9] :: List.replicate 6 (.run 0 0)

/-- A refused write leaves `outgoing_write` set, and a busy one its byte and its
count in the URB that is in flight. -/
theorem failed_writes_leave_traces :
    (∃ s' ∈ run step canDevice refusedWrite,
      failedEarly canDevice s' (.beginWrite 0 0 [7]) = true ∧
        canDevice.nr.outgoingWrite = false ∧ s'.nr.outgoingWrite = true) ∧
    ∃ s ∈ run step canDevice cutShort, (∀ t, s.job t = .idle) ∧
      ∃ s' ∈ run step s busyWrite, failedEarly s s' (.beginWrite 0 0 [9]) = true ∧
        (footprint s).outUrb.map (fun x => (x.1,x.2.get 3)) = some (3,[1,2,3]) ∧
        (footprint s').outUrb.map (fun x => (x.1,x.2.get 3)) = some (1,[9,2,3]) := by
  refine ⟨by decide,?_⟩
  obtain ⟨s,hs,hzero,hrest⟩ : ∃ s ∈ run step canDevice cutShort, s.job 0 = .idle ∧
      ∃ s' ∈ run step s busyWrite, failedEarly s s' (.beginWrite 0 0 [9]) = true ∧
        (footprint s).outUrb.map (fun x => (x.1,x.2.get 3)) = some (3,[1,2,3]) ∧
        (footprint s').outUrb.map (fun x => (x.1,x.2.get 3)) = some (1,[9,2,3]) := by decide
  exact ⟨s,hs,idle_after (by decide) hs hzero,hrest⟩

end NrDriver.FailedCalls
