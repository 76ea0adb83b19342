import NrDriver.SingleReader

/-!
# The retry loop of one read

A call of `nr_read` followed through the outcomes it meets: the answers to its
submissions, a signal that ends its wait, the packets of completions and what
its copy leaves. The specification reads the list of outcomes alone: the first
decisive one, a refused submission, an interrupted wait or a packet that is not
empty, dictates the return value, and every empty packet before it costs one
more submission. A packet that an earlier call left in the buffer counts as the
first outcome.

The run may start in any consistent state, with the URB of an earlier call still
in flight, and writers may do what they like. Completions arrive after the flag
is assigned.
-/
namespace NrDriver.RetryLoop
open KernelModel TransferSteps ReadHalfSteps TransferBounds SingleReader LabelledRuns

inductive Outcome where
  | submitted (code : ℤ)
  | interrupted
  | completed (packet : List Byte)
  | copied (uncopied : ℕ)
  deriving DecidableEq, Repr

/-- What a decisive outcome makes the call return: an error, or the packet. -/
inductive Verdict where
  | fails (code : ℤ)
  | data (packet : List Byte)
  deriving DecidableEq, Repr

def decisive : Outcome → Option Verdict
  | .submitted code => if code < 0 then some (.fails code) else none
  | .interrupted => some (.fails (-ERESTARTSYS))
  | .completed packet => if packet = [] then none else some (.data packet)
  | .copied _ => none

def verdict (os : List Outcome) : Option Verdict := os.findSome? decisive

/-- The empty packets before the decisive outcome. -/
def emptied : List Outcome → ℕ
  | [] => 0
  | o :: os =>
      match decisive o with
      | some _ => 0
      | none => (if o = .completed [] then 1 else 0) + emptied os

def submits (os : List Outcome) : ℕ :=
  os.countP fun | .submitted _ => true | _ => false

/-- What the copies left uncopied. -/
def uncopied (os : List Outcome) : List ℕ :=
  os.filterMap fun | .copied k => some k | _ => none

/-- The bytes and the value that a call returns under a verdict. -/
def Dictates (os : List Outcome) : Verdict → List Byte → ℤ → Prop
  | .fails code, user, rs => user = [] ∧ rs = code
  | .data packet, user, rs => ∃ k ≤ packet.length, uncopied os = [k] ∧
      user = packet.take (packet.length - k) ∧ rs = (packet.length - k : ℕ)

/-- Rounds a list of outcomes has begun, the last one included. -/
def weight (os : List Outcome) : ℕ := emptied os + if (verdict os).isSome then 1 else 0

section Snoc
variable {os : List Outcome} {o : Outcome}

theorem verdict_snoc_none (h : verdict os = none) : verdict (os ++ [o]) = decisive o := by
  unfold verdict at *
  rw [List.findSome?_append,h]
  cases ho : decisive o <;> simp [ho]

theorem verdict_snoc_some {e : Verdict} (h : verdict os = some e) :
    verdict (os ++ [o]) = some e := by
  unfold verdict at *
  rw [List.findSome?_append,h]
  rfl

theorem emptied_snoc_none (h : verdict os = none) :
    emptied (os ++ [o]) = emptied os + if o = .completed [] then 1 else 0 := by
  induction os with
  | nil => cases ho : decisive o <;> simp [emptied,ho]; rintro rfl; simp [decisive] at ho
  | cons p os ih =>
      cases hp : decisive p with
      | some e => simp [verdict,hp] at h
      | none =>
          have hrest : verdict os = none := by simpa [verdict,hp] using h
          simp only [List.cons_append,emptied,hp,ih hrest]
          omega

theorem emptied_snoc_some {e : Verdict} (h : verdict os = some e) :
    emptied (os ++ [o]) = emptied os := by
  induction os with
  | nil => cases h
  | cons p os ih =>
      cases hp : decisive p with
      | some e => simp [emptied,hp]
      | none =>
          have hrest : verdict os = some e := by simpa [verdict,hp] using h
          simp only [List.cons_append,emptied,hp,ih hrest]

theorem weight_snoc : weight os ≤ weight (os ++ [o]) := by
  unfold weight
  cases h : verdict os with
  | none =>
      rw [emptied_snoc_none h]
      simp only [Option.isSome_none,Bool.false_eq_true,if_false]
      omega
  | some e => rw [emptied_snoc_some h,verdict_snoc_some h]

end Snoc

/-- The outcome a move of the read half shows. -/
def observe (v : ReadHalf) : ReadAct → Option Outcome
  | .run t k => (v.call t).bind fun c =>
      match c.pc with
      | .submit => some (.submitted (usbSubmitUrb v.urb c.id [] k).1)
      | .copy => some (.copied k)
      | _ => none
  | .signal t => (v.call t).bind fun c =>
      if (c.pc = .testWait ∨ c.pc = .asleep) ∧ v.ongoing = true then some .interrupted else none
  | .completes _ packet => some (.completed packet)
  | _ => none

/-- The statements a call has run and the outcomes it has met. -/
structure Trace where
  statements : ℕ
  outcomes : List Outcome
  deriving DecidableEq, Repr

def Trace.move (h : Trace) (v : ReadHalf) (a : ReadAct) : Trace where
  statements := h.statements + match a with | .run .. => 1 | _ => 0
  outcomes := h.outcomes ++ (observe v a).toList

def Trace.note (h : Trace) (s : Device) (l : Label) : Trace :=
  match readAct s l with
  | some a => h.move (readHalf s) a
  | none => h

/-- Where a call begins: a packet in the buffer is an outcome it need not wait for. -/
def Trace.start (s : Device) : Trace :=
  ⟨0,if s.nr.lenInBuffer = 0 then []
    else [.completed (s.nr.intInBuffer.get s.nr.lenInBuffer)]⟩

/-- The bytes and the value with which a call returned. -/
def resultOf (id : ℕ) : ReadEvent → Option (List Byte × ℤ)
  | .returned call _ _ user rs _ => if call = id then some (user,rs) else none
  | _ => none

def results (id : ℕ) (log : List ReadEvent) : List (List Byte × ℤ) := log.filterMap (resultOf id)

/-- The statements a call has still to run before it sleeps or ends. -/
def remaining (ongoing : Bool) : ReadPc → ℕ
  | .testOngoing => if ongoing then 2 else 7
  | .testWait => if ongoing then 1 else 7
  | .asleep => 0
  | .testLen => 6
  | .copy | .fill => 5
  | .position | .submit => 4
  | .result | .setOngoing => 3
  | .clear => 2
  | .exit => 1

def left (v : ReadHalf) (t : ℕ) : ℕ := ((v.call t).map fun c => remaining v.ongoing c.pc).getD 0

section Stages
variable (d : ℕ) (os : List Outcome) (v : ReadHalf) (c : ReadCall)

/-- Nothing is decided and nothing has reached the caller. -/
structure Open : Prop where
  verdict : verdict os = none
  uncopied : uncopied os = []
  user : c.user = []
  len : v.len = 0

/-- The call waits for its URB or for that of an earlier call. -/
structure Waits : Prop extends Open os v c where
  flight : v.urb.flight ≠ none
  ongoing : v.ongoing = true
  count : submits os = emptied os + d

/-- A submission is due. -/
structure Due : Prop extends Open os v c where
  flight : v.urb.flight = none
  ongoing : v.ongoing = false
  count : submits os + 1 = emptied os + d

/-- The URB is submitted and the flag not yet assigned. -/
structure Sent : Prop extends Open os v c where
  flight : v.urb.flight ≠ none
  count : submits os = emptied os + d

/-- The packet that decides is in the buffer. -/
structure Holds (packet : List Byte) : Prop where
  verdict : verdict os = some (.data packet)
  flight : v.urb.flight = none
  ongoing : v.ongoing = false
  pos : 0 < v.len
  len : v.len = packet.length
  buffer : v.buffer.get v.len = packet
  count : submits os = emptied os + d

def Full : Prop := ∃ packet, Holds d os v packet ∧ uncopied os = []

/-- The packet is copied, and the local `rs` is what is named by `value`. -/
def Copied (value : ℕ → ℕ → ℕ) : Prop := ∃ packet k, Holds d os v packet ∧ k ≤ packet.length ∧
  uncopied os = [k] ∧ c.user = packet.take (packet.length - k) ∧ c.rs = value packet.length k

/-- The call returns what the decisive outcome dictates. -/
def Done (user : List Byte) (rs : ℤ) : Prop :=
  ∃ e, verdict os = some e ∧ Dictates os e user rs ∧ submits os = emptied os + d

/-- What holds of the call at each of its statements. -/
def Stage : Prop :=
  match c.pc with
  | .testOngoing | .testWait => Waits d os v c ∨ Due d os v c ∨ Full d os v
  | .asleep => Waits d os v c
  | .testLen => Due d os v c ∨ Full d os v
  | .copy => Full d os v
  | .position | .result => Copied d os v c fun _ k => k
  | .clear => Copied d os v c fun n k => n - k
  | .fill | .submit => Due d os v c
  | .setOngoing => Sent d os v c
  | .exit => Done d os c.user c.rs

end Stages

theorem results_snoc {id : ℕ} {e : ReadEvent} (he : resultOf id e = none) (log : List ReadEvent) :
    results id (log ++ [e]) = results id log := by simp [results,he]

section Moves
variable {ep : EndpointDescriptor} {d : ℕ} {os : List Outcome} {v v' : ReadHalf} {c : ReadCall}

theorem Waits.goto (h : Waits d os v c) (t : ℕ) (c' : ReadCall) (hu : c'.user = c.user) :
    Waits d os (v.put t c') c' :=
  ⟨⟨h.verdict,h.uncopied,hu.trans h.user,h.len⟩,h.flight,h.ongoing,h.count⟩

theorem Due.goto (h : Due d os v c) (t : ℕ) (c' : ReadCall) (hu : c'.user = c.user) :
    Due d os (v.put t c') c' :=
  ⟨⟨h.verdict,h.uncopied,hu.trans h.user,h.len⟩,h.flight,h.ongoing,h.count⟩

theorem Holds.put {packet : List Byte} (h : Holds d os v packet) (t : ℕ) (c' : ReadCall) :
    Holds d os (v.put t c') packet :=
  ⟨h.verdict,h.flight,h.ongoing,h.pos,h.len,h.buffer,h.count⟩

theorem Full.put (h : Full d os v) (t : ℕ) (c' : ReadCall) : Full d os (v.put t c') := by
  obtain ⟨packet,hholds,hnone⟩ := h
  exact ⟨packet,hholds.put t c',hnone⟩

/-- The copy adds its outcome, which decides nothing. -/
theorem Holds.copies {packet : List Byte} (h : Holds d os v packet) (k : ℕ) :
    Holds d (os ++ [.copied k]) v packet := by
  refine ⟨verdict_snoc_some h.verdict,h.flight,h.ongoing,h.pos,h.len,h.buffer,?_⟩
  rw [emptied_snoc_some h.verdict,← h.count]
  simp [submits]

/-- The packet minus the bytes left, as the code computes it. -/
theorem Holds.subtract {packet : List Byte} (h : Holds d os v packet) (hb : ReadBounds ep v) {k : ℕ}
    (hk : k ≤ packet.length) :
    toSsize (sizeSub v.len (toSize k)) = (packet.length - k : ℕ) := by
  have hlen := h.len
  have hle := hb.len
  have hsize := ep.packetSize_lt
  rw [toSize_natCast (by omega),sizeSub_of_le (by omega) (by omega),hlen]
  apply toSsize_natCast
  omega

theorem Stage.run (h : Stage d os v c) (hb : ReadBounds ep v) (id : ℕ) {t k : ℕ}
    (hc : v.call t = some c) (hexit : c.pc ≠ .exit)
    (hcode : c.pc = .submit →
      v'.log = v.log ++ [.submitted c.id v.urb (usbSubmitUrb v.urb c.id [] k).1])
    (hs : ReadHalf.Step v (.run t k) v') :
    ∃ c', v'.call = Function.update v.call t (some c') ∧ c'.id = c.id ∧
      results id v'.log = results id v.log ∧
      Stage d (os ++ (observe v (.run t k)).toList) v' c' := by
  have same {c₁ : ReadCall} (hc₁ : v.call t = some c₁) : c = c₁ :=
    Option.some.inj (hc.symm.trans hc₁)
  have quiet (hsubmit : c.pc ≠ .submit) (hcopy : c.pc ≠ .copy) :
      os ++ (observe v (.run t k)).toList = os := by
    cases hpc : c.pc <;> simp_all [observe]
  cases hs with
  | seesOngoing hc₁ hpc hon =>
      obtain rfl := same hc₁
      rw [quiet (by simp [hpc]) (by simp [hpc])]
      simp only [Stage,hpc] at h
      refine ⟨_,rfl,rfl,rfl,?_⟩
      rcases h with hwaits | hdue | ⟨packet,hholds,_⟩
      · exact .inl (hwaits.goto t _ rfl)
      · simp [hdue.ongoing] at hon
      · simp [hholds.ongoing] at hon
  | seesQuiet hc₁ hpc hoff | waitEnds hc₁ hpc hoff =>
      obtain rfl := same hc₁
      rw [quiet (by simp [hpc]) (by simp [hpc])]
      simp only [Stage,hpc] at h
      refine ⟨_,rfl,rfl,rfl,?_⟩
      rcases h with hwaits | hdue | hfull
      · simp [hwaits.ongoing] at hoff
      · exact .inl (hdue.goto t _ rfl)
      · exact .inr (hfull.put t _)
  | sleeps hc₁ hpc hon =>
      obtain rfl := same hc₁
      rw [quiet (by simp [hpc]) (by simp [hpc])]
      simp only [Stage,hpc] at h
      refine ⟨_,rfl,rfl,rfl,?_⟩
      rcases h with hwaits | hdue | ⟨packet,hholds,_⟩
      · exact hwaits.goto t _ rfl
      · simp [hdue.ongoing] at hon
      · simp [hholds.ongoing] at hon
  | seesData hc₁ hpc hpos =>
      obtain rfl := same hc₁
      rw [quiet (by simp [hpc]) (by simp [hpc])]
      simp only [Stage,hpc] at h
      refine ⟨_,rfl,rfl,rfl,?_⟩
      rcases h with hdue | hfull
      · simp [hdue.len] at hpos
      · exact hfull.put t _
  | seesEmpty hc₁ hpc hzero =>
      obtain rfl := same hc₁
      rw [quiet (by simp [hpc]) (by simp [hpc])]
      simp only [Stage,hpc] at h
      refine ⟨_,rfl,rfl,rfl,?_⟩
      rcases h with hdue | ⟨packet,hholds,_⟩
      · exact hdue.goto t _ rfl
      · have hpos := hholds.pos
        omega
  | copies hc₁ hpc hk =>
      obtain rfl := same hc₁
      simp only [Stage,hpc] at h
      obtain ⟨packet,hholds,hnone⟩ := h
      have hobs : (observe v (.run t k)).toList = [.copied k] := by simp [observe,hc,hpc]
      refine ⟨_,rfl,rfl,results_snoc rfl _,packet,k,?_⟩
      have hlen := hholds.len
      have hsize := ep.packetSize_lt
      have hle := hb.len
      rw [hobs]
      refine ⟨?_,by omega,?_,?_,?_⟩
      · obtain ⟨h₁,h₂,h₃,h₄,h₅,h₆,h₇⟩ := hholds.copies k
        exact ⟨h₁,h₂,h₃,h₄,h₅,h₆,h₇⟩
      · simp only [uncopied] at hnone
        simp [uncopied,hnone]
      · show copyToUser v.buffer v.len k = _
        rw [← hlen,← hholds.buffer]
        simp [copyToUser,Buffer.get,List.take_take]
      · have hvalue : toSsize k = k := toSsize_natCast (by omega)
        simp only
        exact hvalue
  | advances hc₁ hpc =>
      obtain rfl := same hc₁
      rw [quiet (by simp [hpc]) (by simp [hpc])]
      simp only [Stage,hpc] at h
      obtain ⟨packet,k,hholds,hk,hone,huser,hrs⟩ := h
      exact ⟨_,rfl,rfl,rfl,packet,k,hholds.put t _,hk,hone,huser,hrs⟩
  | computes hc₁ hpc =>
      obtain rfl := same hc₁
      rw [quiet (by simp [hpc]) (by simp [hpc])]
      simp only [Stage,hpc] at h
      obtain ⟨packet,k,hholds,hk,hone,huser,hrs⟩ := h
      refine ⟨_,rfl,rfl,rfl,packet,k,hholds.put t _,hk,hone,huser,?_⟩
      simp only [hrs]
      exact hholds.subtract hb hk
  | clears hc₁ hpc =>
      obtain rfl := same hc₁
      rw [quiet (by simp [hpc]) (by simp [hpc])]
      simp only [Stage,hpc] at h
      obtain ⟨packet,k,hholds,hk,hone,huser,hrs⟩ := h
      exact ⟨_,rfl,rfl,rfl,_,hholds.verdict,⟨k,hk,hone,huser,hrs⟩,hholds.count⟩
  | fills hc₁ hpc =>
      obtain rfl := same hc₁
      rw [quiet (by simp [hpc]) (by simp [hpc])]
      simp only [Stage,hpc] at h
      refine ⟨_,rfl,rfl,rfl,?_⟩
      exact ⟨⟨h.verdict,h.uncopied,h.user,h.len⟩,h.flight,h.ongoing,h.count⟩
  | submits hc₁ hpc hf =>
      obtain rfl := same hc₁
      simp only [Stage,hpc] at h
      have hobs : (observe v (.run t 0)).toList = [.submitted 0] := by
        simp [observe,hc,hpc,usbSubmitUrb,hf]
      have hcount := h.count
      refine ⟨_,rfl,rfl,results_snoc rfl _,?_⟩
      rw [hobs]
      refine ⟨⟨?_,?_,h.user,h.len⟩,by simp,?_⟩
      · rw [verdict_snoc_none h.verdict]
        rfl
      · have hnone := h.uncopied
        simp only [uncopied] at hnone
        simp [uncopied,hnone]
      · rw [emptied_snoc_none h.verdict]
        simp only [submits,List.countP_append] at hcount ⊢
        simpa using hcount
  | @refused _ _ _ code hc₁ hpc hneg =>
      obtain rfl := same hc₁
      simp only [Stage,hpc] at h
      have hlog := List.append_cancel_left (hcode hpc)
      have hobs : (observe v (.run t k)).toList = [.submitted code] := by
        simp only [List.cons.injEq,ReadEvent.submitted.injEq,true_and,and_true] at hlog
        simp [observe,hc,hpc,← hlog]
      have hcount := h.count
      refine ⟨_,rfl,rfl,results_snoc rfl _,?_⟩
      rw [hobs]
      refine ⟨.fails code,?_,⟨h.user,rfl⟩,?_⟩
      · rw [verdict_snoc_none h.verdict]
        simp [decisive,hneg]
      · rw [emptied_snoc_none h.verdict]
        simp only [submits,List.countP_append] at hcount ⊢
        simpa using hcount
  | sets hc₁ hpc =>
      obtain rfl := same hc₁
      rw [quiet (by simp [hpc]) (by simp [hpc])]
      simp only [Stage,hpc] at h
      refine ⟨_,rfl,rfl,rfl,.inl ?_⟩
      exact ⟨⟨h.verdict,h.uncopied,h.user,h.len⟩,h.flight,rfl,h.count⟩
  | returns hc₁ hpc =>
      obtain rfl := same hc₁
      exact (hexit hpc).elim

theorem left_of_call {t : ℕ} (hc : v.call t = some c) : left v t = remaining v.ongoing c.pc := by
  simp [left,hc]

theorem left_run {t k : ℕ} (hs : ReadHalf.Step v (.run t k) v') : left v' t + 1 ≤ left v t := by
  cases hs with
  | seesOngoing hc hpc hon | seesQuiet hc hpc hon | sleeps hc hpc hon | waitEnds hc hpc hon =>
      simp [left,hc,hpc,hon,remaining]
  | seesData hc hpc | seesEmpty hc hpc | copies hc hpc | advances hc hpc | computes hc hpc
  | clears hc hpc | fills hc hpc | submits hc hpc | refused hc hpc | sets hc hpc
  | returns hc hpc => simp [left,hc,hpc,remaining]

theorem remaining_le (on : Bool) (pc : ReadPc) : remaining on pc ≤ 7 := by
  cases on <;> cases pc <;> simp [remaining]

theorem remaining_pos (on : Bool) {pc : ReadPc} (hpc : pc ≠ .asleep) : 0 < remaining on pc := by
  cases on <;> cases pc <;> simp [remaining] at hpc ⊢

theorem Stage.signal (h : Stage d os v c) {t : ℕ} (hc : v.call t = some c)
    (hs : ReadHalf.Step v (.signal t) v') :
    ∃ c', v'.call = Function.update v.call t (some c') ∧ c'.id = c.id ∧ v'.log = v.log ∧
      Stage d (os ++ (observe v (.signal t)).toList) v' c' ∧
      left v' t ≤ 7 * (weight (os ++ (observe v (.signal t)).toList) - weight os) + left v t := by
  have same {c₁ : ReadCall} (hc₁ : v.call t = some c₁) : c = c₁ :=
    Option.some.inj (hc.symm.trans hc₁)
  cases hs with
  | interrupted hc₁ hpc hon =>
      obtain rfl := same hc₁
      have hobs : (observe v (.signal t)).toList = [.interrupted] := by
        simp [observe,hc,hpc,hon]
      have hwaits : Waits d os v c := by
        rcases hpc with hpc | hpc
        · simp only [Stage,hpc] at h
          rcases h with hwaits | hdue | ⟨packet,hholds,_⟩
          · exact hwaits
          · simp [hdue.ongoing] at hon
          · simp [hholds.ongoing] at hon
        · simpa only [Stage,hpc] using h
      have hsnoc := verdict_snoc_none (o := .interrupted) hwaits.verdict
      have hcount := hwaits.count
      have hemptied : emptied (os ++ [.interrupted]) = emptied os := by
        simp [emptied_snoc_none hwaits.verdict]
      rw [hobs]
      refine ⟨_,rfl,rfl,rfl,⟨.fails (-ERESTARTSYS),hsnoc,⟨hwaits.user,rfl⟩,?_⟩,?_⟩
      · rw [hemptied,← hcount]
        simp [submits]
      · have hweight : weight (os ++ [.interrupted]) = weight os + 1 := by
          simp [weight,hemptied,hsnoc,decisive,hwaits.verdict]
        simp only [hweight,left,ReadHalf.put_call,Function.update_self,Option.map_some,
          Option.getD_some,remaining]
        omega
  | signalLate hc₁ hpc hoff =>
      obtain rfl := same hc₁
      have hobs : (observe v (.signal t)).toList = [] := by simp [observe,hc,hoff]
      have hwait : c.pc = .testWait := by
        refine hpc.resolve_right fun hsleep => ?_
        simp only [Stage,hsleep] at h
        simp [h.ongoing] at hoff
      simp only [Stage,hwait] at h
      rw [hobs,List.append_nil]
      refine ⟨_,rfl,rfl,rfl,?_,?_⟩
      · rcases h with hwaits | hdue | hfull
        · simp [hwaits.ongoing] at hoff
        · exact .inl (hdue.goto t _ rfl)
        · exact .inr (hfull.put t _)
      · simp [left,hc,hwait,hoff,remaining]

theorem Stage.count (h : Stage d os v c) {e : Verdict} (he : verdict os = some e) :
    submits os = emptied os + d := by
  have undecided (hnone : verdict os = none) : submits os = emptied os + d := by
    simp [he] at hnone
  cases hpc : c.pc <;> simp only [Stage,hpc] at h
  case testOngoing | testWait =>
      rcases h with hwaits | hdue | ⟨_,hholds,_⟩
      · exact hwaits.count
      · exact undecided hdue.verdict
      · exact hholds.count
  case asleep => exact h.count
  case testLen =>
      rcases h with hdue | ⟨_,hholds,_⟩
      · exact undecided hdue.verdict
      · exact hholds.count
  case copy =>
      obtain ⟨_,hholds,_⟩ := h
      exact hholds.count
  case position | result | clear =>
      obtain ⟨_,_,hholds,_⟩ := h
      exact hholds.count
  case fill | submit => exact undecided h.verdict
  case setOngoing => exact h.count
  case exit =>
      obtain ⟨_,_,_,hcount⟩ := h
      exact hcount

theorem exit_inv {t k : ℕ} (hs : ReadHalf.Step v (.run t k) v') (hc : v.call t = some c)
    (hpc : c.pc = .exit) :
    v' = { v with
      call := Function.update v.call t none
      log := v.log ++ [.returned c.id c.filp c.count c.user c.rs c.ppos] } := by
  cases hs with
  | returns hd _ =>
      rw [hc] at hd
      cases hd
      rfl
  | _ => simp_all

theorem completes_fields {status : ℤ} {packet : List Byte}
    (hs : ReadHalf.Step v (.completes status packet) v') :
    v.urb.flight ≠ none ∧ v'.urb.flight = none ∧ v'.ongoing = false ∧ v'.len = packet.length ∧
      v'.buffer = v.buffer.put packet ∧ v'.call = (fun t => (v.call t).map ReadCall.wake) ∧
      v'.log = v.log ++ [.received status (reportedStatus status) packet] := by
  cases hs with
  | completes _ hf _ => exact ⟨by simp [hf],rfl,rfl,rfl,rfl,rfl,rfl⟩

theorem Waits.completes (h : Waits d os v c) {status : ℤ} {packet : List Byte}
    (hs : ReadHalf.Step v (.completes status packet) v') {c' : ReadCall} (hu : c'.user = c.user) :
    (Due d (os ++ [.completed packet]) v' c' ∨ Full d (os ++ [.completed packet]) v') ∧
      weight (os ++ [.completed packet]) = weight os + 1 := by
  obtain ⟨-,hf,hoff,hlen,hbuf,-,-⟩ := completes_fields hs
  have hsnoc := verdict_snoc_none (o := .completed packet) h.verdict
  have hemptied := emptied_snoc_none (o := .completed packet) h.verdict
  have hsubmits : submits (os ++ [.completed packet]) = submits os := by simp [submits]
  have hnone : uncopied (os ++ [.completed packet]) = [] := by
    have hold := h.uncopied
    simp only [uncopied] at hold
    simp [uncopied,hold]
  have hcount := h.count
  by_cases hempty : packet = []
  · subst hempty
    simp only [if_true] at hemptied
    refine ⟨.inl ⟨⟨hsnoc,hnone,hu.trans h.user,hlen⟩,hf,hoff,by omega⟩,?_⟩
    simp [weight,hsnoc,hemptied,decisive,h.verdict]
  · have hne : Outcome.completed packet ≠ .completed [] := fun he => hempty (by cases he; rfl)
    simp only [hne,if_false,Nat.add_zero] at hemptied
    have hdata : verdict (os ++ [.completed packet]) = some (.data packet) := by
      simp [hsnoc,decisive,hempty]
    refine ⟨.inr ⟨packet,⟨hdata,hf,hoff,?_,hlen,?_,by omega⟩,hnone⟩,?_⟩
    · rw [hlen]
      exact List.length_pos_iff.mpr hempty
    · rw [hbuf,hlen]
      exact Buffer.get_put _ _
    · simp [weight,hdata,hemptied,h.verdict]

/-- What a call returns does not depend on later completions. -/
theorem Done.completed {user : List Byte} {rs : ℤ} (h : Done d os user rs) (packet : List Byte) :
    Done d (os ++ [.completed packet]) user rs := by
  obtain ⟨e,hverdict,hdictates,hcount⟩ := h
  refine ⟨e,verdict_snoc_some hverdict,?_,?_⟩
  · cases e with
    | fails code => exact hdictates
    | data packet' => simpa [Dictates,uncopied] using hdictates
  · rw [emptied_snoc_some hverdict,← hcount]
    simp [submits]

theorem Stage.completes (h : Stage d os v c) {t : ℕ} (hc : v.call t = some c)
    (hearly : c.pc ≠ .setOngoing) {status : ℤ} {packet : List Byte}
    (hs : ReadHalf.Step v (.completes status packet) v') :
    Stage d (os ++ [.completed packet]) v' c.wake ∧
      left v' t ≤ 7 * (weight (os ++ [.completed packet]) - weight os) + left v t := by
  obtain ⟨hf,-,-,-,-,hcall,-⟩ := completes_fields hs
  have hwoken : v'.call t = some c.wake := by simp [hcall,hc]
  have lands (hwaits : Waits d os v c) (hpc : c.wake.pc = .testOngoing ∨ c.wake.pc = .testWait)
      (hu : c.wake.user = c.user) : Stage d (os ++ [.completed packet]) v' c.wake ∧
        left v' t ≤ 7 * (weight (os ++ [.completed packet]) - weight os) + left v t := by
    obtain ⟨hcase,hweight⟩ := hwaits.completes hs hu
    constructor
    · rcases hpc with hpc | hpc
      all_goals
        simp only [Stage,hpc]
        exact .inr hcase
    · have hle := remaining_le v'.ongoing c.wake.pc
      rw [left_of_call hwoken,hweight]
      omega
  cases hpc : c.pc <;> simp only [Stage,hpc] at h
  case testOngoing | testWait =>
      have hwake : c.wake = c := by simp [ReadCall.wake,hpc]
      rcases h with hwaits | hdue | ⟨_,hholds,_⟩
      · exact lands hwaits (by simp [hwake,hpc]) (by rw [hwake])
      · exact (hf hdue.flight).elim
      · exact (hf hholds.flight).elim
  case asleep =>
      have hwake : c.wake = { c with pc := .testWait } := by simp [ReadCall.wake,hpc]
      exact lands h (by simp [hwake]) (by rw [hwake])
  case testLen =>
      rcases h with hdue | ⟨_,hholds,_⟩
      · exact (hf hdue.flight).elim
      · exact (hf hholds.flight).elim
  case copy =>
      obtain ⟨_,hholds,_⟩ := h
      exact (hf hholds.flight).elim
  case position | result | clear =>
      obtain ⟨_,_,hholds,_⟩ := h
      exact (hf hholds.flight).elim
  case fill | submit => exact (hf h.flight).elim
  case setOngoing => exact (hearly hpc).elim
  case exit =>
      have hwake : c.wake = c := by simp [ReadCall.wake,hpc]
      rw [left_of_call hwoken,left_of_call hc,hwake]
      refine ⟨?_,by simp [hpc,remaining]⟩
      simp only [Stage,hpc]
      exact h.completed packet

end Moves

/-- One call of thread `r` along its run: where it stands, or what it returned,
and a bound on the statements it has run. -/
structure Loop (ep : EndpointDescriptor) (r id d : ℕ) (past : List (List Byte × ℤ)) (h : Trace)
    (v : ReadHalf) : Prop where
  bounds : ReadBounds ep v
  others : ∀ t, t ≠ r → v.call t = none
  running : ∀ c, v.call r = some c →
    c.id = id ∧ results id v.log = past ∧ Stage d h.outcomes v c
  ended : v.call r = none →
    ∃ user rs, Done d h.outcomes user rs ∧ results id v.log = past ++ [(user,rs)]
  bound : h.statements + left v r ≤ 7 * (weight h.outcomes + d) + 2

namespace Loop
variable {ep : EndpointDescriptor} {r id d : ℕ} {past : List (List Byte × ℤ)} {h h' : Trace}
  {v v' : ReadHalf}

theorem thread (hL : Loop ep r id d past h v) {t : ℕ} {c : ReadCall} (hc : v.call t = some c) :
    t = r := by
  by_contra ht
  simp [hL.others t ht] at hc

theorem of_call (hL : Loop ep r id d past h v) (hb : ReadBounds ep v') {c c' : ReadCall}
    (hc : v.call r = some c) (hcall : v'.call = Function.update v.call r (some c'))
    (hid : c'.id = c.id) (hresults : results id v'.log = results id v.log)
    (hstage : Stage d h'.outcomes v' c')
    (hbound : h'.statements + left v' r ≤ 7 * (weight h'.outcomes + d) + 2) :
    Loop ep r id d past h' v' := by
  obtain ⟨hid₀,hpast,_⟩ := hL.running c hc
  refine ⟨hb,?_,?_,?_,hbound⟩
  · intro t ht
    rw [hcall,Function.update_of_ne ht,hL.others t ht]
  · intro c₁ hc₁
    rw [hcall,Function.update_self] at hc₁
    cases hc₁
    exact ⟨hid.trans hid₀,hresults.trans hpast,hstage⟩
  · intro hnone
    simp [hcall] at hnone

theorem weight_le (o : Option Outcome) (os : List Outcome) :
    weight os ≤ weight (os ++ o.toList) := by
  cases o with
  | none => simp
  | some o => exact weight_snoc

theorem run (hL : Loop ep r id d past h v) {t k : ℕ}
    (hcode : ∀ c, v.call t = some c → c.pc = .submit →
      v'.log = v.log ++ [.submitted c.id v.urb (usbSubmitUrb v.urb c.id [] k).1])
    (hs : ReadHalf.Step v (.run t k) v') : Loop ep r id d past (h.move v (.run t k)) v' := by
  obtain ⟨c,hc⟩ : ∃ c, v.call t = some c := by
    cases hs <;> exact ⟨_,‹_›⟩
  obtain rfl := hL.thread hc
  obtain ⟨hid,hpast,hstage⟩ := hL.running c hc
  have hbound := hL.bound
  have hleft := left_run hs
  have hweight := weight_le (observe v (.run t k)) h.outcomes
  have hbound' : (h.move v (.run t k)).statements + left v' t ≤
      7 * (weight (h.move v (.run t k)).outcomes + d) + 2 := by
    simp only [Trace.move]
    omega
  have hb := hL.bounds.step hs
  by_cases hexit : c.pc = .exit
  · have hv := exit_inv hs hc hexit
    have hobs : (observe v (.run t k)).toList = [] := by simp [observe,hc,hexit]
    have hdone : Done d h.outcomes c.user c.rs := by simpa only [Stage,hexit] using hstage
    refine ⟨hb,?_,?_,fun _ => ⟨c.user,c.rs,?_,?_⟩,hbound'⟩
    · intro u hu
      rw [hv]
      simp only
      rw [Function.update_of_ne hu,hL.others u hu]
    · intro c' hc'
      simp [hv] at hc'
    · simpa only [Trace.move,hobs,List.append_nil] using hdone
    · rw [hv]
      simp [results,resultOf,hid,← hpast]
  · obtain ⟨c',hcall,hid',hresults,hstage'⟩ :=
      hstage.run hL.bounds id hc hexit (hcode c hc) hs
    exact hL.of_call hb hc hcall hid' hresults hstage' hbound'

theorem signal (hL : Loop ep r id d past h v) {t : ℕ} (hs : ReadHalf.Step v (.signal t) v') :
    Loop ep r id d past (h.move v (.signal t)) v' := by
  obtain ⟨c,hc⟩ : ∃ c, v.call t = some c := by
    cases hs <;> exact ⟨_,‹_›⟩
  obtain rfl := hL.thread hc
  have hbound := hL.bound
  have hweight := weight_le (observe v (.signal t)) h.outcomes
  obtain ⟨c',hcall,hid',hlog,hstage',hleft⟩ := (hL.running c hc).2.2.signal hc hs
  refine hL.of_call (hL.bounds.step hs) hc hcall hid' (by rw [hlog]) hstage' ?_
  simp only [Trace.move] at hleft ⊢
  omega

theorem completes (hL : Loop ep r id d past h v) {status : ℤ} {packet : List Byte}
    (hearly : ∀ c, v.call r = some c → c.pc ≠ .setOngoing)
    (hs : ReadHalf.Step v (.completes status packet) v') :
    Loop ep r id d past (h.move v (.completes status packet)) v' := by
  obtain ⟨-,-,-,-,-,hcall,hlog⟩ := completes_fields hs
  have hresults : results id v'.log = results id v.log := by rw [hlog,results_snoc rfl]
  have hbound := hL.bound
  have hweight : weight h.outcomes ≤ weight (h.outcomes ++ [.completed packet]) := weight_snoc
  have hothers (t : ℕ) (ht : t ≠ r) : v'.call t = none := by simp [hcall,hL.others t ht]
  cases hc : v.call r with
  | none =>
      have hnone : v'.call r = none := by simp [hcall,hc]
      refine ⟨hL.bounds.step hs,hothers,fun c' hc' => by simp [hnone] at hc',fun _ => ?_,?_⟩
      · obtain ⟨user,rs,hdone,hpast⟩ := hL.ended hc
        exact ⟨user,rs,hdone.completed packet,hresults.trans hpast⟩
      · have hleft : left v' r = 0 := by simp [left,hnone]
        simp only [Trace.move,observe,Option.toList_some]
        omega
  | some c =>
      obtain ⟨hid,hpast,hstage⟩ := hL.running c hc
      obtain ⟨hstage',hleft⟩ := hstage.completes hc (hearly c hc) hs
      have hwoken : v'.call r = some c.wake := by simp [hcall,hc]
      refine ⟨hL.bounds.step hs,hothers,fun c' hc' => ?_,fun hnone => ?_,?_⟩
      · obtain rfl : c.wake = c' := Option.some.inj (hwoken.symm.trans hc')
        have hwake : c.wake.id = c.id := by
          rcases ReadCall.wake_cases c with ⟨_,he⟩ | ⟨_,he⟩ <;> rw [he]
        exact ⟨hwake.trans hid,hresults.trans hpast,hstage'⟩
      · simp [hwoken] at hnone
      · simp only [Trace.move,observe,Option.toList_some]
        omega

end Loop

/-- Nobody else begins a read or opens the device. -/
def undisturbed : Label → Bool
  | .beginRead .. | .openWrite _ => false
  | _ => true

theorem submit_logs {s s' : Device} {t k : ℕ} (hs : step s (.run t k) = some s') {c : ReadCall}
    (hc : (readHalf s).call t = some c) (hpc : c.pc = .submit) :
    s'.readLog = s.readLog ++
      [.submitted c.id s.nr.intInUrb (usbSubmitUrb s.nr.intInUrb c.id [] k).1] := by
  have hj : s.job t = .reading c := job_of_readCall hc
  simp only [step,hj,runRead,hpc,readStep,readEvents,reduceCtorEq,if_false,Option.map_some] at hs
  cases hs
  rfl

theorem loop_step {ep : EndpointDescriptor} {r id d : ℕ} {past : List (List Byte × ℤ)} {h : Trace}
    {s s' : Device} {l : Label} (hL : Loop ep r id d past h (readHalf s))
    (hl : undisturbed l = true) (hearly : NoEarlyCompletion r s l) (hs : step s l = some s') :
    Loop ep r id d past (h.note s l) (readHalf s') := by
  have hmove := step_readHalf hs
  unfold Trace.note
  cases ha : readAct s l with
  | none =>
      simp only [ha] at hmove
      rwa [hmove]
  | some a =>
      simp only [ha] at hmove ⊢
      have hlabel := label_of_readAct ha
      cases a with
      | run t k =>
          subst hlabel
          exact hL.run (fun c hc hpc => submit_logs hs hc hpc) hmove
      | signal t => exact hL.signal hmove
      | completes status packet =>
          subst hlabel
          refine hL.completes (fun c hc hset => ?_) hmove
          exact hearly (by rw [readerAt_of_call hc,hset])
      | begin | openLen | openOngoing =>
          subst hlabel
          cases hl

theorem idle_of_call {s : Device} {t : ℕ} (hc : (readHalf s).call t = none) :
    readerAt s t = none := by
  by_contra hrunning
  obtain ⟨pc,hpc⟩ := Option.ne_none_iff_exists'.mp hrunning
  obtain ⟨c,hc',_⟩ := call_of_readerAt hpc
  simp [hc] at hc'

theorem awake_runs {s : Device} {t : ℕ} {c : ReadCall} (hc : (readHalf s).call t = some c)
    (hpc : c.pc ≠ .asleep) : ∃ s', step s (.run t 0) = some s' := by
  have hj : s.job t = .reading c := job_of_readCall hc
  cases hp : c.pc <;> cases hon : s.nr.ongoingRead <;> simp_all [step,runRead,readStep]

theorem Trace.note_verdict {h : Trace} {e : Verdict} (he : verdict h.outcomes = some e) (s : Device)
    (l : Label) : verdict (h.note s l).outcomes = some e := by
  unfold Trace.note
  cases readAct s l with
  | none => exact he
  | some a =>
      simp only [Trace.move]
      cases observe (readHalf s) a with
      | none => simpa using he
      | some o => exact verdict_snoc_some he

theorem Loop.awake {ep : EndpointDescriptor} {r id d : ℕ} {past : List (List Byte × ℤ)} {h : Trace}
    {v : ReadHalf} {e : Verdict} (hL : Loop ep r id d past h v) (he : verdict h.outcomes = some e)
    {c : ReadCall} (hc : v.call r = some c) : c.pc ≠ .asleep := by
  intro hpc
  have hstage := (hL.running c hc).2.2
  simp only [Stage,hpc] at hstage
  simp [hstage.verdict] at he

theorem decided_ends {ep : EndpointDescriptor} {r id d : ℕ} {past : List (List Byte × ℤ)}
    {e : Verdict} (n : ℕ) {h : Trace} {s : Device} (hL : Loop ep r id d past h (readHalf s))
    (he : verdict h.outcomes = some e) (hn : left (readHalf s) r ≤ n) :
    ∃ m ≤ n, ∃ s', run step s (List.replicate m (.run r 0)) = some s' ∧ readerAt s' r = none := by
  induction n generalizing h s with
  | zero =>
      cases hc : (readHalf s).call r with
      | none => exact ⟨0,Nat.le_refl _,s,rfl,idle_of_call hc⟩
      | some c =>
          have hpos := remaining_pos (readHalf s).ongoing (hL.awake he hc)
          rw [left_of_call hc] at hn
          omega
  | succ n ih =>
      cases hc : (readHalf s).call r with
      | none => exact ⟨0,Nat.zero_le _,s,rfl,idle_of_call hc⟩
      | some c =>
          obtain ⟨u,hu⟩ := awake_runs hc (hL.awake he hc)
          have hact : readAct s (.run r 0) = some (.run r 0) := by
            have hcall : readCall? (s.job r) = some c := hc
            simp [readAct,hcall]
          have hmove := step_readHalf hu
          simp only [hact] at hmove
          have hleft := left_run hmove
          have hL' := loop_step hL (l := .run r 0) rfl trivial hu
          obtain ⟨m,hm,s',hrun,hend⟩ := ih hL' (h.note_verdict he s (.run r 0)) (by omega)
          refine ⟨m + 1,by omega,s',?_,hend⟩
          rw [List.replicate_succ,run_cons_some hu]
          exact hrun

/-- A state in which a call of `nr_read` can find the record: no transfer and an
empty buffer, no transfer and a packet, or a transfer of an earlier call. -/
structure Consistent (ep : EndpointDescriptor) (s : Device) : Prop where
  bounds : ReadBounds ep (readHalf s)
  alone : ∀ t, readerAt s t = none
  start : (s.nr.intInUrb.flight = none ∧ s.nr.ongoingRead = false) ∨
    (s.nr.intInUrb.flight ≠ none ∧ s.nr.ongoingRead = true ∧ s.nr.lenInBuffer = 0)

/-- One when a call that starts here has to submit before it waits. -/
def startsDry (s : Device) : ℕ :=
  if s.nr.intInUrb.flight = none ∧ s.nr.lenInBuffer = 0 then 1 else 0

theorem Consistent.packet_length {ep : EndpointDescriptor} {s : Device} (h : Consistent ep s) :
    (s.nr.intInBuffer.get s.nr.lenInBuffer).length = s.nr.lenInBuffer := by
  have hsize := h.bounds.size
  have hintact := h.bounds.intact
  have hlen := h.bounds.len
  simp only [Buffer.Intact,readHalf] at hintact hsize hlen
  simp only [Buffer.get,List.length_take]
  omega

/-- A packet in the buffer decides before anything else happens. -/
theorem Trace.start_full {ep : EndpointDescriptor} {s : Device} (h : Consistent ep s)
    (hlen : 0 < s.nr.lenInBuffer) (os : List Outcome) :
    verdict ((Trace.start s).outcomes ++ os) =
        some (.data (s.nr.intInBuffer.get s.nr.lenInBuffer)) ∧
      emptied ((Trace.start s).outcomes ++ os) = 0 := by
  have hne : s.nr.intInBuffer.get s.nr.lenInBuffer ≠ [] := by
    rw [← List.length_pos_iff,h.packet_length]
    exact hlen
  have hzero : s.nr.lenInBuffer ≠ 0 := by omega
  simp [Trace.start,hzero,verdict,emptied,decisive,hne]

theorem loop_start {ep : EndpointDescriptor} {s s' : Device} (hs₀ : Consistent ep s)
    {r filp count : ℕ} {ppos : ℤ} (hs : step s (.beginRead r filp count ppos) = some s') :
    Loop ep r s.reads (startsDry s) (results s.reads s.readLog) (.start s) (readHalf s') := by
  have hbounds := readHalf_kept hs₀.bounds hs fun _ _ hr => hs₀.bounds.step hr
  have hmove := step_readHalf hs
  simp only [readAct] at hmove
  generalize readHalf s' = v' at hbounds hmove ⊢
  cases hmove with
  | begins _ _ _ _ hidle =>
      have begun (hstage : Stage (startsDry s) (Trace.start s).outcomes
          { (readHalf s).put r (.start s.reads filp count ppos) with reads := s.reads + 1 }
          (.start s.reads filp count ppos))
          (hbound : remaining s.nr.ongoingRead .testOngoing ≤
            7 * (weight (Trace.start s).outcomes + startsDry s) + 2) :
          Loop ep r s.reads (startsDry s) (results s.reads s.readLog) (.start s)
            { (readHalf s).put r (.start s.reads filp count ppos) with reads := s.reads + 1 } := by
        refine ⟨hbounds,?_,?_,by simp,?_⟩
        · intro t ht
          simp [ht,call_of_idle (hs₀.alone t)]
        · intro c hc
          obtain rfl : ReadCall.start s.reads filp count ppos = c := by simpa using hc
          exact ⟨rfl,rfl,hstage⟩
        · have hleft := left_of_call (t := r) (c := .start s.reads filp count ppos)
            (v := { (readHalf s).put r (.start s.reads filp count ppos) with
              reads := s.reads + 1 }) (by simp)
          rw [hleft]
          simp only [Trace.start,Nat.zero_add]
          exact hbound
      rcases hs₀.start with ⟨hf,hoff⟩ | ⟨hf,hon,hempty⟩
      · by_cases hempty : s.nr.lenInBuffer = 0
        · apply begun
          · refine .inr (.inl ⟨⟨?_,?_,rfl,hempty⟩,hf,hoff,?_⟩)
            all_goals simp [Trace.start,startsDry,hempty,hf,verdict,uncopied,submits,emptied]
          · simp [hoff,remaining,startsDry,hf,hempty]
            omega
        · obtain ⟨hverdict,hemptied⟩ :=
            Trace.start_full hs₀ (Nat.pos_of_ne_zero hempty) []
          rw [List.append_nil] at hverdict hemptied
          apply begun
          · refine .inr (.inr ⟨_,⟨hverdict,hf,hoff,Nat.pos_of_ne_zero hempty,
              hs₀.packet_length.symm,rfl,?_⟩,?_⟩)
            · rw [hemptied]
              simp [Trace.start,startsDry,hempty,submits]
            · simp [Trace.start,hempty,uncopied]
          · simp [hoff,remaining,weight,hverdict]
            omega
      · apply begun
        · refine .inl ⟨⟨?_,?_,rfl,hempty⟩,hf,hon,?_⟩
          all_goals simp [Trace.start,startsDry,hempty,hf,verdict,uncopied,submits,emptied]
        · simp [hon,remaining]

/-- How one call of `nr_read` ends, and what it does until then. -/
structure AsSpecified (s₀ s : Device) (r : ℕ) (h : Trace) : Prop where
  returned : readerAt s r = none → ∃ user rs, Done (startsDry s₀) h.outcomes user rs ∧
    results s₀.reads s.readLog = results s₀.reads s₀.readLog ++ [(user,rs)]
  asleep : readerAt s r = some .asleep → verdict h.outcomes = none ∧
    s.nr.intInUrb.flight ≠ none ∧ s.nr.ongoingRead = true
  awake : ∀ pc, readerAt s r = some pc → pc ≠ .asleep → ∃ s', step s (.run r 0) = some s'
  ends : verdict h.outcomes ≠ none →
    ∃ n ≤ 7, ∃ s', run step s (List.replicate n (.run r 0)) = some s' ∧ readerAt s' r = none
  bounded : h.statements ≤ 7 * (weight h.outcomes + startsDry s₀) + 2
  buffered : 0 < s₀.nr.lenInBuffer → submits h.outcomes = 0 ∧
    verdict h.outcomes = some (.data (s₀.nr.intInBuffer.get s₀.nr.lenInBuffer))

/-- One call of `nr_read` on a consistent record does what the list of outcomes
dictates, whatever the writers, the signals and the completions do. -/
theorem read_loop_as_specified {ep : EndpointDescriptor} {s₀ : Device} (hs₀ : Consistent ep s₀)
    {r filp count : ℕ} {ppos : ℤ} {ls : List Label} {s : Device}
    (hrun : run step s₀ (.beginRead r filp count ppos :: ls) = some s)
    (hl : ∀ l ∈ ls, undisturbed l = true)
    (hearly : Along step (NoEarlyCompletion r) s₀ (.beginRead r filp count ppos :: ls)) :
    AsSpecified s₀ s r
      (recorded step Trace.note (.start s₀) s₀ (.beginRead r filp count ppos :: ls)) := by
  obtain ⟨u,hu,hrest⟩ := run_cons hrun
  have hbegun : (Trace.start s₀).note s₀ (.beginRead r filp count ppos) = .start s₀ := by
    simp [Trace.note,readAct,Trace.move,observe]
  rw [recorded_cons hu,hbegun]
  have hinv : Loop ep r s₀.reads (startsDry s₀) (results s₀.reads s₀.readLog)
      (recorded step Trace.note (.start s₀) u ls) (readHalf s) ∧
        (Trace.start s₀).outcomes <+: (recorded step Trace.note (.start s₀) u ls).outcomes := by
    refine run_recorded
      (I := fun h s => Loop ep r s₀.reads (startsDry s₀) (results s₀.reads s₀.readLog) h
        (readHalf s) ∧ (Trace.start s₀).outcomes <+: h.outcomes)
      (P := fun s l => undisturbed l = true ∧ NoEarlyCompletion r s l) ?_
      ⟨loop_start hs₀ hu,List.prefix_rfl⟩ (.labels_and hl (hearly.tail hu)) hrest
    intro h s l u hI hP hs
    refine ⟨loop_step hI.1 hP.1 hP.2 hs,hI.2.trans ?_⟩
    unfold Trace.note
    cases readAct s l with
    | none => exact List.prefix_rfl
    | some a => exact List.prefix_append _ _
  obtain ⟨hL,os,hos⟩ := hinv
  refine ⟨?_,?_,?_,?_,?_,?_⟩
  · intro hidle
    exact hL.ended (call_of_idle hidle)
  · intro hasleep
    obtain ⟨c,hc,hpc⟩ := call_of_readerAt hasleep
    have hstage := (hL.running c hc).2.2
    simp only [Stage,hpc] at hstage
    exact ⟨hstage.verdict,hstage.flight,hstage.ongoing⟩
  · intro pc hpc hawake
    obtain ⟨c,hc,rfl⟩ := call_of_readerAt hpc
    exact awake_runs hc hawake
  · intro hdecided
    obtain ⟨e,he⟩ := Option.ne_none_iff_exists'.mp hdecided
    refine decided_ends 7 hL he ?_
    cases hc : (readHalf s).call r with
    | none => simp [left,hc]
    | some c =>
        rw [left_of_call hc]
        exact remaining_le _ _
  · have hbound := hL.bound
    omega
  · intro hlen
    obtain ⟨hverdict,hemptied⟩ := Trace.start_full hs₀ hlen os
    rw [hos] at hverdict hemptied
    have hnot : startsDry s₀ = 0 := by
      simp only [startsDry,show s₀.nr.lenInBuffer ≠ 0 by omega,and_false,if_false]
    refine ⟨?_,hverdict⟩
    rw [hnot] at hL
    cases hc : (readHalf s).call r with
    | none =>
        obtain ⟨_,_,⟨_,_,_,hcount⟩,_⟩ := hL.ended hc
        omega
    | some c =>
        have hcount := (hL.running c hc).2.2.count hverdict
        omega

/-- A transfer without bytes, and one with two of which the copy leaves one. -/
def emptyThenPacket : List Label :=
  .beginRead 0 0 64 0 :: List.replicate 7 (.run 0 0) ++ .inCompletes 0 [] ::
    List.replicate 7 (.run 0 0) ++ .inCompletes 0 [7,8] :: .run 0 0 :: .run 0 0 :: .run 0 1 ::
    List.replicate 4 (.run 0 0)

theorem empty_then_packet_as_specified :
    ∃ s ∈ run step canDevice emptyThenPacket, results 0 s.readLog = [([7],1)] ∧
      AsSpecified canDevice s 0 (recorded step Trace.note (.start canDevice) canDevice
        emptyThenPacket) := by
  obtain ⟨s,hs,hresults⟩ : ∃ s ∈ run step canDevice emptyThenPacket,
    results 0 s.readLog = [([7],1)] := by decide
  have hconsistent : Consistent canIn canDevice :=
    ⟨(bounds_probed canIn canOut _ _).1,fun _ => rfl,.inl ⟨rfl,rfl⟩⟩
  exact ⟨s,hs,hresults,read_loop_as_specified hconsistent hs (by decide) (by decide)⟩

end NrDriver.RetryLoop
