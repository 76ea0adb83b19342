import NrDriver.LabelledRuns
import Mathlib.Algebra.BigOperators.Group.List.Basic
import Mathlib.Algebra.Order.BigOperators.Group.Finset
import Mathlib.Algebra.Group.Action.Defs
import Mathlib.Algebra.GroupWithZero.Nat

/-!
# Potentials

A potential pays for the labels of a run: a label that costs something takes it
from the potential, and some labels refill it. What a run costs is then bounded
by the potential it starts with and what its labels bring in. With a potential
for each of several parties, a run of labels that all cost somebody something is
bounded by the sum.
-/
namespace NrDriver.Potential
open LabelledRuns

variable {S A I : Type*} {step : S → A → Option S} {P : S → A → Prop} {s v : S} {as : List A}

theorem run_cost {φ : S → ℕ} {cost gain : A → ℕ}
    (hstep : ∀ s a u, P s a → step s a = some u → φ u + cost a ≤ φ s + gain a)
    (hP : Along step P s as) (hrun : run step s as = some v) :
    φ v + (as.map cost).sum ≤ φ s + (as.map gain).sum := by
  induction as generalizing s with
  | nil =>
      cases hrun
      exact Nat.le_refl _
  | cons a as ih =>
      obtain ⟨u,hs,hr⟩ := run_cons hrun
      have hhead := hstep s a u hP.head hs
      have hrest := ih (hP.tail hs) hr
      simp only [List.map_cons,List.sum_cons]
      omega

theorem sum_worth (n : ℕ) (kind : A → Bool) (as : List A) :
    (as.map fun a => if kind a then n else 0).sum = n * as.countP kind := by
  induction as with
  | nil => simp
  | cons a as ih =>
      rw [List.map_cons,List.sum_cons,ih,List.countP_cons,Nat.mul_add]
      cases kind a <;> simp [Nat.add_comm]

/-- Where each label takes from the potential of one party, and fills no other,
a run has no more labels than the parties have potential. -/
theorem run_length_le {φ : I → S → ℕ} (parties : Finset I)
    (hkeep : ∀ i s a u, P s a → step s a = some u → φ i u ≤ φ i s)
    (htake : ∀ s a u, P s a → step s a = some u → ∃ i ∈ parties, φ i u < φ i s)
    (hP : Along step P s as) (hrun : run step s as = some v) :
    as.length ≤ ∑ i ∈ parties, φ i s := by
  have hsum (s : S) (a : A) (u : S) (hp : P s a) (hs : step s a = some u) :
      (∑ i ∈ parties, φ i u) + 1 ≤ (∑ i ∈ parties, φ i s) + 0 :=
    Finset.sum_lt_sum (fun i _ => hkeep i s a u hp hs) (htake s a u hp hs)
  have hcost := run_cost (φ := fun s => ∑ i ∈ parties, φ i s) hsum hP hrun
  simp only [List.map_const',List.sum_replicate,smul_eq_mul] at hcost
  omega

end NrDriver.Potential
