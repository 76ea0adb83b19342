import NrDriver.LabelledRuns

/-!
# A mailbox with one place

A message is requested, delivered into the one place, and taken out. A delivery
may bring nothing, which leaves the place free. Nothing is requested while a
message is awaited or waits to be taken, so messages are neither overwritten nor
taken twice.
-/
namespace NrDriver.Mailbox
open LabelledRuns

variable {α : Type*}

inductive Slot (α : Type*) where
  | empty
  | requested
  | full (message : α)
  deriving DecidableEq, Repr

inductive Act (α : Type*) where
  | request
  | deliver (message : Option α)
  | take (message : α)
  deriving DecidableEq, Repr

def step [DecidableEq α] : Slot α → Act α → Option (Slot α)
  | .empty, .request => some .requested
  | .requested, .deliver none => some .empty
  | .requested, .deliver (some message) => some (.full message)
  | .full message, .take message' => if message = message' then some .empty else none
  | _, _ => none

/-- The message that waits to be taken. -/
def Slot.message : Slot α → List α
  | .full message => [message]
  | _ => []

def Act.delivered : Act α → Option α
  | .deliver message => message
  | _ => none

def Act.taken : Act α → Option α
  | .take message => some message
  | _ => none

section
variable [DecidableEq α] {s s' : Slot α} {a : Act α} {as : List (Act α)}

theorem step_message (h : step s a = some s') :
    s.message ++ a.delivered.toList = a.taken.toList ++ s'.message := by
  unfold step at h
  split at h
  all_goals try split_ifs at h with hm
  all_goals cases h
  all_goals simp_all [Slot.message,Act.delivered,Act.taken]

/-- What was delivered is what was taken, in the same order, and what waits. -/
theorem run_message (h : run step s as = some s') :
    s.message ++ as.filterMap Act.delivered = as.filterMap Act.taken ++ s'.message := by
  induction as generalizing s with
  | nil =>
      cases h
      simp
  | cons a as ih =>
      obtain ⟨u,ha,hr⟩ := run_cons h
      calc s.message ++ (a :: as).filterMap Act.delivered
          = (s.message ++ a.delivered.toList) ++ as.filterMap Act.delivered := by
            cases hd : a.delivered <;> simp [hd]
        _ = a.taken.toList ++ (u.message ++ as.filterMap Act.delivered) := by
            rw [step_message ha,List.append_assoc]
        _ = (a :: as).filterMap Act.taken ++ s'.message := by
            rw [ih hr]
            cases ht : a.taken <;> simp [ht]

end

end NrDriver.Mailbox
