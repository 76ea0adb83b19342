import NrDriver.KernelModel
import NrDriver.NumberedTable

/-!
# Writes that only print

`nr_write` of `driver_read_write.c` and of `driver_read_urb.c`: the bytes of the
user's buffer go to the kernel log one at a time, and the call returns its
count. The calls of several threads print into one log, byte by byte in any
order, and are told apart here by their numbers.
-/
namespace NrDriver.EchoWrites
open KernelModel LabelledRuns NumberedTable

/-- A running `nr_write` and its loop counter. The VFS cuts a count at
`MAX_RW_COUNT`, so that the `int` counts up to it. -/
structure EchoCall where
  id : ℕ
  buffer : List Byte
  i : ℕ
  deriving DecidableEq, Repr

def EchoCall.count (c : EchoCall) : ℕ := c.buffer.length

inductive EchoEvent where
  | printed (call : ℕ) (byte : Byte)
  | returned (call : ℕ) (buffer : List Byte) (retval : ℤ)
  deriving DecidableEq, Repr

/-- The writes of a device: the running calls, their number, and the kernel log. -/
structure Echo where
  call : ℕ → Option EchoCall
  writes : ℕ
  log : List EchoEvent

def Echo.start : Echo := ⟨fun _ => none,0,[]⟩

inductive EchoAct where
  | begin (t : ℕ) (buffer : List Byte)
  | run (t : ℕ)
  deriving DecidableEq, Repr

/-- A call begins, prints one byte, or returns after the last. -/
def Echo.step (e : Echo) : EchoAct → Option Echo
  | .begin t buffer =>
      match e.call t with
      | none => some { e with
          call := Function.update e.call t (some ⟨e.writes,buffer,0⟩)
          writes := e.writes + 1 }
      | some _ => none
  | .run t =>
      match e.call t with
      | none => none
      | some c =>
          if h : c.i < c.buffer.length then
            some { e with
              call := Function.update e.call t (some { c with i := c.i + 1 })
              log := e.log ++ [.printed c.id c.buffer[c.i]] }
          else
            some { e with
              call := Function.update e.call t none
              log := e.log ++ [.returned c.id c.buffer (toSsize c.count)] }

def printOf (call : ℕ) : EchoEvent → Option Byte
  | .printed c byte => if c = call then some byte else none
  | .returned .. => none

/-- What a call has printed. -/
def printsOf (call : ℕ) (log : List EchoEvent) : List Byte := log.filterMap (printOf call)

theorem printsOf_snoc (call : ℕ) (log : List EchoEvent) (e : EchoEvent) :
    printsOf call (log ++ [e]) = printsOf call log ++ (printOf call e).toList := by
  cases he : printOf call e <;> simp [printsOf,he]

/-- The returned calls have printed their buffers and answer with their lengths. -/
def PrintsExactly (log : List EchoEvent) : Prop :=
  ∀ call buffer retval, .returned call buffer retval ∈ log →
    printsOf call log = buffer ∧ retval = toSsize buffer.length

/-- A running call has printed its buffer up to the counter; numbers not given
out have printed nothing, and the number of a returned call is not in use. -/
structure Printing (e : Echo) : Prop where
  numbering : Numbering EchoCall.id e.call e.writes
  unissued : ∀ id, e.writes ≤ id → printsOf id e.log = []
  calls : ∀ t c, e.call t = some c → c.i ≤ c.count ∧ printsOf c.id e.log = c.buffer.take c.i
  past : ∀ id buffer retval, .returned id buffer retval ∈ e.log →
    id < e.writes ∧ ∀ t c, e.call t = some c → c.id ≠ id
  exact : PrintsExactly e.log

theorem printing_start : Printing .start := by
  refine ⟨⟨?_,?_⟩,fun _ _ => rfl,?_,?_,?_⟩
  · intro t c hc
    cases hc
  · intro t u c d hc
    cases hc
  · intro t c hc
    cases hc
  · intro id buffer retval hmem
    cases hmem
  · intro id buffer retval hmem
    cases hmem

namespace Printing
variable {e : Echo} {t : ℕ} {c : EchoCall}

theorem begin (h : Printing e) (buffer : List Byte) : Printing { e with
    call := Function.update e.call t (some ⟨e.writes,buffer,0⟩), writes := e.writes + 1 } := by
  refine ⟨h.numbering.start rfl,fun id hid => h.unissued id (Nat.le_of_succ_le hid),
    forall_update h.calls ?_,?_,h.exact⟩
  · rintro d ⟨⟩
    exact ⟨Nat.zero_le _,h.unissued _ (Nat.le_refl _)⟩
  · intro id b retval hmem
    obtain ⟨hlt,hother⟩ := h.past id b retval hmem
    refine ⟨Nat.lt_succ_of_lt hlt,forall_update hother ?_⟩
    rintro d ⟨⟩ hd
    exact Nat.ne_of_gt hlt hd

theorem print (h : Printing e) (hc : e.call t = some c) (hi : c.i < c.buffer.length) :
    Printing { e with
      call := Function.update e.call t (some { c with i := c.i + 1 })
      log := e.log ++ [.printed c.id c.buffer[c.i]] } := by
  have other {id : ℕ} (hid : id ≠ c.id) :
      printsOf id (e.log ++ [.printed c.id c.buffer[c.i]]) = printsOf id e.log := by
    rw [printsOf_snoc,printOf, if_neg (Ne.symm hid)]
    simp
  have returned {id : ℕ} {b : List Byte} {retval : ℤ}
      (hmem : .returned id b retval ∈ e.log ++ [.printed c.id c.buffer[c.i]]) :
      .returned id b retval ∈ e.log := by simpa using hmem
  refine ⟨h.numbering.put hc rfl,fun id hid => ?_,fun u d hd => ?_,fun id b retval hmem => ?_,
    fun id b retval hmem => ?_⟩
  · have hlt : c.id < id := Nat.lt_of_lt_of_le (h.numbering.lt t c hc) hid
    rw [other (Nat.ne_of_gt hlt)]
    exact h.unissued id hid
  · rcases update_some_cases hd with ⟨_,hnew⟩ | ⟨hut,hold⟩
    · cases hnew
      refine ⟨hi,?_⟩
      rw [printsOf_snoc,(h.calls t c hc).2,List.take_add_one]
      simp [printOf,hi]
    · rw [other (h.numbering.other hc hold hut)]
      exact h.calls u d hold
  · obtain ⟨hlt,hother⟩ := h.past id b retval (returned hmem)
    refine ⟨hlt,forall_update hother ?_⟩
    rintro d ⟨⟩
    exact hother t c hc
  · have hid := (h.past id b retval (returned hmem)).2 t c hc
    rw [other (Ne.symm hid)]
    exact h.exact id b retval (returned hmem)

theorem finish (h : Printing e) (hc : e.call t = some c) (hi : ¬ c.i < c.buffer.length) :
    Printing { e with
      call := Function.update e.call t none
      log := e.log ++ [.returned c.id c.buffer (toSsize c.count)] } := by
  obtain ⟨hle,hprints⟩ := h.calls t c hc
  have same (id : ℕ) : printsOf id (e.log ++ [.returned c.id c.buffer (toSsize c.count)]) =
      printsOf id e.log := by simp [printsOf_snoc,printOf]
  have hall : printsOf c.id e.log = c.buffer := by
    rw [hprints,List.take_of_length_le (Nat.le_of_not_lt hi)]
  refine ⟨h.numbering.remove,fun id hid => (same id).trans (h.unissued id hid),
    fun u d hd => ?_,fun id b retval hmem => ?_,fun id b retval hmem => ?_⟩
  · rw [same]
    rcases update_some_cases hd with ⟨_,hnone⟩ | ⟨_,hold⟩
    · cases hnone
    · exact h.calls u d hold
  · rcases List.mem_append.mp hmem with hold | hnew
    · obtain ⟨hlt,hother⟩ := h.past id b retval hold
      exact ⟨hlt,forall_update hother (by simp)⟩
    · cases List.mem_singleton.mp hnew
      refine ⟨h.numbering.lt t c hc,fun u d hd => ?_⟩
      rcases update_some_cases hd with ⟨_,hnone⟩ | ⟨hut,hold⟩
      · cases hnone
      · exact h.numbering.other hc hold hut
  · rw [same]
    rcases List.mem_append.mp hmem with hold | hnew
    · exact h.exact id b retval hold
    · cases List.mem_singleton.mp hnew
      exact ⟨hall,rfl⟩

theorem step {a : EchoAct} {e' : Echo} (h : Printing e) (hs : e.step a = some e') :
    Printing e' := by
  cases a with
  | begin t buffer =>
      simp only [Echo.step] at hs
      split at hs
      · cases hs
        exact h.begin buffer
      · cases hs
  | run t =>
      simp only [Echo.step] at hs
      split at hs
      · cases hs
      · rename_i c hc
        split_ifs at hs with hi
        · cases hs
          exact h.print hc hi
        · cases hs
          exact h.finish hc hi

end Printing

end NrDriver.EchoWrites
