import NrDriver.CountBound
import NrDriver.ReadHistory
import NrDriver.IdleThreads
import NrDriver.SingleReader

/-!
# The length that is read again

After its copy a call reads `len_in_buffer` twice more, for the file position
and for its value, and subtracts from it the bytes its own copy left. Between
the copy and these two statements another reader may clear the length, a
completion may set it, and a further `nr_open` resets it.

On runs where nothing changes the length while a call stands there, neither
subtraction wraps, and both give the number of bytes that the call copied. Any
number of readers, faults, signals and opens.
-/
namespace NrDriver.LengthReread
open KernelModel TransferSteps ReadHalfSteps TransferBounds CountBound ReadHistory IdleThreads
  SingleReader LabelledRuns

/-- Neither subtraction of `nr_read` goes below zero. -/
def NoWrap (s : Device) : Label → Prop
  | .run t _ => ∀ c ∈ readCall? (s.job t), rereading c.pc = true →
      toSize c.rs ≤ s.nr.lenInBuffer
  | _ => True

/-- The thread `u` is not between its copy and its second subtraction when this
step changes the length. -/
def SparedLength (s : Device) (l : Label) (u : ℕ) : Prop :=
  match l with
  | .run t _ => readerAt s t = some .clear ∧ s.nr.lenInBuffer ≠ 0 →
      ∀ pc ∈ readerAt s u, rereading pc = false
  | .inCompletes _ packet => packet.length ≠ s.nr.lenInBuffer →
      ∀ pc ∈ readerAt s u, rereading pc = false
  | .openWrite .lenInBuffer => s.nr.lenInBuffer ≠ 0 → ∀ pc ∈ readerAt s u, rereading pc = false
  | _ => True

/-- Nothing changes the length while a call has still to subtract from it. -/
def LengthHeld (s : Device) (l : Label) : Prop := ∀ u, SparedLength s l u

instance (s : Device) (l : Label) : Decidable (NoWrap s l) :=
  match l with
  | .run .. => inferInstanceAs (Decidable (∀ c ∈ _, _ → _))
  | .beginRead .. | .beginWrite .. | .openWrite _ | .signal _ | .inCompletes .. | .outTakes
  | .outCompletes .. => isTrue trivial

instance (s : Device) (l : Label) (u : ℕ) : Decidable (SparedLength s l u) :=
  match l with
  | .run .. => inferInstanceAs (Decidable (_ → _))
  | .inCompletes .. => inferInstanceAs (Decidable (_ → _))
  | .openWrite .lenInBuffer => inferInstanceAs (Decidable (_ → _))
  | .openWrite .ongoingRead | .openWrite .outgoingWrite => isTrue trivial
  | .beginRead .. | .beginWrite .. | .signal _ | .outTakes | .outCompletes .. => isTrue trivial

/-- The length is still that of the copy: the bytes copied and those left. -/
def Held (v : ReadHalf) : Prop :=
  ∀ t c, v.call t = some c → rereading c.pc = true → ∃ k : ℕ, c.rs = k ∧ v.len = c.user.length + k

theorem len_changed {v v' : ReadHalf} {a : ReadAct} (hs : ReadHalf.Step v a v')
    (hne : v'.len ≠ v.len) :
    (∃ t k c, a = .run t k ∧ v.call t = some c ∧ c.pc = .clear ∧ v'.len = 0) ∨
      (∃ status packet, a = .completes status packet ∧ v'.len = packet.length) ∨
      (a = .openLen ∧ v'.len = 0) := by
  cases hs with
  | @clears t k c hc hpc => exact .inl ⟨t,k,c,rfl,hc,hpc,rfl⟩
  | @completes status packet f hf hlen => exact .inr (.inl ⟨status,packet,rfl,rfl⟩)
  | opensLen => exact .inr (.inr ⟨rfl,rfl⟩)
  | _ => exact (hne rfl).elim

namespace Held
variable {ep : EndpointDescriptor} {v v' : ReadHalf} {a : ReadAct}

theorem step (h : Held v) (hb : ReadBounds ep v)
    (hlen : v'.len ≠ v.len → ∀ u d, v.call u = some d → rereading d.pc = false)
    (hs : ReadHalf.Step v a v') : Held v' := by
  have keep (u : ℕ) (d : ReadCall) (hd : v.call u = some d) (hpd : rereading d.pc = true) :
      ∃ k : ℕ, d.rs = k ∧ v'.len = d.user.length + k := by
    by_cases hsame : v'.len = v.len
    · rw [hsame]
      exact h u d hd hpd
    · simp [hlen hsame u d hd] at hpd
  refine rereading_step keep ?_ (fun c ppos hc => hc) hs
  intro k c hk hsame
  have hsize := ep.packetSize_lt
  have hle := hb.len
  have hcopied := hb.copied_length k
  refine ⟨k,?_,?_⟩
  · simp only
    exact toSsize_natCast (by omega)
  · simp only
    omega

theorem subtracts (h : Held v) (hb : ReadBounds ep v) {t : ℕ} {c : ReadCall}
    (hc : v.call t = some c) (hpc : rereading c.pc = true) :
    toSize c.rs ≤ v.len ∧ sizeSub v.len (toSize c.rs) = c.user.length := by
  obtain ⟨k,hk,hlen⟩ := h t c hc hpc
  have hsize := ep.packetSize_lt
  have hle := hb.len
  rw [hk,toSize_natCast (by omega),sizeSub_of_le (by omega) (by omega)]
  omega

end Held

theorem held_step {ep : EndpointDescriptor} {s s' : Device} {l : Label}
    (h : Held (readHalf s)) (hb : ReadBounds ep (readHalf s)) (hP : LengthHeld s l)
    (hs : step s l = some s') : Held (readHalf s') := by
  refine readHalf_kept h hs fun a ha hr => h.step hb ?_ hr
  intro hne u d hd
  have hu : d.pc ∈ readerAt s u := readerAt_of_call hd
  have hspared := hP u
  rcases len_changed hr hne with ⟨t,k,c,rfl,hc,hpc,hzero⟩ | ⟨status,packet,rfl,hlen⟩ | ⟨rfl,hzero⟩
  · obtain rfl : l = .run t k := label_of_readAct ha
    have hclear : readerAt s t = some .clear := by rw [readerAt_of_call hc,hpc]
    rw [hzero] at hne
    exact hspared ⟨hclear,hne.symm⟩ d.pc hu
  · obtain rfl : l = .inCompletes status packet := label_of_readAct ha
    rw [hlen] at hne
    exact hspared hne d.pc hu
  · obtain rfl : l = .openWrite .lenInBuffer := label_of_readAct ha
    rw [hzero] at hne
    exact hspared hne.symm d.pc hu

/-- No subtraction wraps, and each call that reached the copy returns the number
of bytes it copied and has moved its file position by it. -/
theorem copying_calls_count_their_bytes (epIn epOut : EndpointDescriptor) (memIn memOut : ℕ → Byte)
    {ls : List Label} {s : Device}
    (hrun : run step (.opened epIn epOut memIn memOut) ls = some s)
    (hheld : Along step LengthHeld (.opened epIn epOut memIn memOut) ls) :
    Along step NoWrap (.opened epIn epOut memIn memOut) ls ∧
      ∀ call filp count user (rs : ℤ) ppos, .returned call filp count user rs ppos ∈ s.readLog →
        ∀ bytes ∈ copiesOf call s.readLog, rs = bytes.length ∧
          ∃ p, (starts ls)[call]? = some p ∧ ppos = toSsize (p + bytes.length) := by
  have along {Q : Device → Label → Prop}
      (hQ : ∀ s l, ReadBounds epIn (readHalf s) → Held (readHalf s) → Q s l) :
      Along step Q (.opened epIn epOut memIn memOut) ls := by
    refine along_invariant (I := fun s => Bounds epIn epOut s ∧ Held (readHalf s))
      (fun s l u hI hP hs => ⟨hI.1.step hs,held_step hI.2 hI.1.1 hP hs⟩)
      (fun s l hI _ => hQ s l hI.1.1 hI.2) ⟨bounds_probed epIn epOut memIn memOut,?_⟩ hheld
    intro t c hc
    cases hc
  constructor
  · apply along
    intro s l hb hI
    cases l with
    | run t k => exact fun c hc hpc => (hI.subtracts hb hc hpc).1
    | _ => trivial
  · intro call filp count user rs ppos hret bytes hbytes
    have hsub : Along step (SubtractAs (fun p bytes ppos => ppos = toSsize (p + bytes.length))
        (fun bytes rs => rs = bytes.length)) (.opened epIn epOut memIn memOut) ls := by
      apply along
      intro s l hb hI
      cases l with
      | run t k =>
          intro c hc
          constructor
          · intro hpc
            rw [(hI.subtracts hb hc (by simp [hpc,rereading])).2]
          · intro hpc
            have hle := hb.len
            have hsize := epIn.packetSize_lt
            obtain ⟨n,_,hn⟩ := hI t c hc (by simp [hpc,rereading])
            rw [(hI.subtracts hb hc (by simp [hpc,rereading])).2,toSsize_natCast (by omega)]
      | _ => trivial
    obtain ⟨_,hR,hA⟩ := copied_call_returns epIn epOut memIn memOut hrun hsub hret hbytes
    exact ⟨hR,hA⟩

/-- Two readers find one packet, and the second one copies and subtracts after
the first has cleared the length. -/
def readersOneByOne : List Label :=
  [.beginRead 0 0 64 5,.run 0 0,.run 0 0,.run 0 0,.run 0 0,.run 0 0,
    .beginRead 1 1 64 5,.run 1 0,.run 1 0,.inCompletes 0 [7,8],
    .run 0 0,.run 0 0,.run 1 0,.run 1 0,.run 0 1,.run 0 0,.run 0 0,.run 0 0,.run 0 0,
    .run 1 0,.run 1 0,.run 1 0,.run 1 0,.run 1 0]

theorem readers_one_by_one_count :
    ∃ s ∈ run step canDevice readersOneByOne, .returned 0 0 64 [7] 1 6 ∈ s.readLog ∧
      copiesOf 0 s.readLog = [[7]] ∧ .returned 1 1 64 [] 0 5 ∈ s.readLog ∧
      ∃ p, (starts readersOneByOne)[0]? = some p ∧ 6 = toSsize (p + 1) := by
  obtain ⟨s,hs,hret,hcopy,hsecond⟩ : ∃ s ∈ run step canDevice readersOneByOne,
    .returned 0 0 64 [7] 1 6 ∈ s.readLog ∧ copiesOf 0 s.readLog = [[7]] ∧
      .returned 1 1 64 [] 0 5 ∈ s.readLog := by decide
  have hheld : Along step LengthHeld canDevice readersOneByOne := by
    refine along_among (n := 2) ?_ (fun _ _ => rfl) (by decide) (by decide)
    intro s l t ht
    cases l with
    | run u k => simp [SparedLength,readerAt,ht]
    | inCompletes status packet => simp [SparedLength,readerAt,ht]
    | openWrite w => cases w <;> simp [SparedLength,readerAt,ht]
    | _ => trivial
  have hcount := (copying_calls_count_their_bytes canIn canOut (fun _ => 0) (fun _ => 0) hs
    hheld).2 0 0 64 [7] 1 6 hret [7] (by rw [hcopy]; exact List.mem_singleton_self _)
  exact ⟨s,hs,hret,hcopy,hsecond,hcount.2⟩

/-- Both readers have copied when the first one clears the length. -/
def clearedBetween : List Label :=
  [.beginRead 0 0 64 5,.run 0 0,.run 0 0,.run 0 0,.run 0 0,.run 0 0,
    .beginRead 1 1 64 5,.run 1 0,.run 1 0,.inCompletes 0 [7,8],
    .run 0 0,.run 0 0,.run 1 0,.run 1 0,.run 0 0,.run 1 1,
    .run 0 0,.run 0 0,.run 0 0,.run 1 0,.run 1 0,.run 1 0,.run 1 0]

/-- The second reader got a byte, returns an error and has moved its position
back by one. -/
theorem cleared_between_wraps :
    ¬ Along step NoWrap canDevice clearedBetween ∧
      ∃ s ∈ run step canDevice clearedBetween, copiesOf 1 s.readLog = [[7]] ∧
        (starts clearedBetween)[1]? = some 5 ∧ .returned 1 1 64 [7] (-1) 4 ∈ s.readLog := by
  decide

end NrDriver.LengthReread
