import Mathlib.Data.Set.Insert
import Mathlib.Order.BooleanAlgebra.Set
import Mathlib.Data.List.Nodup

/-!
# Histories of acquisitions and releases

A log of what was acquired and released, over any type of names. A log is sound
when every acquisition is of a name never acquired before and every release of
a name held at that moment. What is held is a set, and each sound entry changes
it by one name.
-/
namespace NrDriver.Ledger

variable {α : Type*}

inductive Entry (α : Type*) where
  | acquired (a : α)
  | released (a : α)
  deriving DecidableEq, Repr

/-- The names acquired and not released. -/
def held (log : List (Entry α)) : Set α := {a | .acquired a ∈ log ∧ .released a ∉ log}

inductive Sound : List (Entry α) → Prop
  | nil : Sound []
  | acquire {log : List (Entry α)} {a : α} : Sound log → .acquired a ∉ log →
      Sound (log ++ [.acquired a])
  | release {log : List (Entry α)} {a : α} : Sound log → a ∈ held log →
      Sound (log ++ [.released a])

@[simp] theorem held_nil : held ([] : List (Entry α)) = ∅ := by simp [held]

theorem held_release (log : List (Entry α)) (a : α) :
    held (log ++ [.released a]) = held log \ {a} := by
  ext b
  simp only [held,Set.mem_ofPred_eq,Set.mem_sdiff,Set.mem_singleton_iff,List.mem_append,
    List.mem_singleton,reduceCtorEq,or_false,not_or,Entry.released.injEq,and_assoc]

namespace Sound
variable {log : List (Entry α)} {a : α}

theorem acquired_of_released (h : Sound log) (ha : .released a ∈ log) : .acquired a ∈ log := by
  induction h with
  | nil => cases ha
  | acquire _ _ ih => simp_all
  | release _ hb ih =>
      rcases List.mem_append.mp ha with ha | ha
      · exact List.mem_append_left _ (ih ha)
      · cases List.mem_singleton.mp ha
        exact List.mem_append_left _ hb.1

theorem nodup (h : Sound log) : log.Nodup := by
  induction h with
  | nil => exact List.nodup_nil
  | acquire _ hnew ih =>
      rw [List.nodup_append_comm]
      exact List.nodup_cons.mpr ⟨hnew,ih⟩
  | release _ hb ih =>
      rw [List.nodup_append_comm]
      exact List.nodup_cons.mpr ⟨hb.2,ih⟩

theorem held_acquire (h : Sound log) (hnew : .acquired a ∉ log) :
    held (log ++ [.acquired a]) = insert a (held log) := by
  have hrel : .released a ∉ log := fun hr => hnew (h.acquired_of_released hr)
  ext b
  simp only [held,Set.mem_ofPred_eq,Set.mem_insert_iff,List.mem_append,List.mem_singleton,
    reduceCtorEq,or_false,Entry.acquired.injEq]
  constructor
  · intro hb
    rcases hb with ⟨hold | hnew,hr⟩
    · exact .inr ⟨hold,hr⟩
    · exact .inl hnew
  · intro hb
    rcases hb with hnew | ⟨hold,hr⟩
    · subst hnew
      exact ⟨.inr rfl,hrel⟩
    · exact ⟨.inl hold,hr⟩

theorem released_of_not_held (ha : .acquired a ∈ log) (hn : a ∉ held log) : .released a ∈ log := by
  by_contra hr
  exact hn ⟨ha,hr⟩

end Sound

end NrDriver.Ledger
