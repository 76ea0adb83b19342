import NrDriver.LabelledRuns

/-!
# Tables of numbered entries

A table of running entries, each under the number it was given when it was
entered. Numbers below `n` were given out, and two running entries never share
one: a record kept under a number belongs to one entry.
-/
namespace NrDriver.NumberedTable
open LabelledRuns

variable {I C : Type*} {number : C → ℕ} {table table' : I → Option C} {n : ℕ} {i : I}

structure Numbering (number : C → ℕ) (table : I → Option C) (n : ℕ) : Prop where
  lt : ∀ i c, table i = some c → number c < n
  inj : ∀ i j c d, table i = some c → table j = some d → number c = number d → i = j

namespace Numbering

theorem of_back (h : Numbering number table n)
    (back : ∀ i d, table' i = some d → ∃ c, table i = some c ∧ number c = number d) :
    Numbering number table' n := by
  constructor
  · intro i d hd
    obtain ⟨c,hc,hcd⟩ := back i d hd
    exact hcd ▸ h.lt i c hc
  · intro i j d e hd he hde
    obtain ⟨c,hc,hcd⟩ := back i d hd
    obtain ⟨b,hb,hbe⟩ := back j e he
    apply h.inj i j c b hc hb
    rw [hcd,hbe,hde]

theorem mono (h : Numbering number table n) {m : ℕ} (hm : n ≤ m) : Numbering number table m :=
  ⟨fun i c hc => Nat.lt_of_lt_of_le (h.lt i c hc) hm,h.inj⟩

theorem map (h : Numbering number table n) {f : C → C} (hf : ∀ c, number (f c) = number c) :
    Numbering number (fun i => (table i).map f) n := by
  apply h.of_back
  intro j d hd
  obtain ⟨c,hc,rfl⟩ := Option.map_eq_some_iff.mp hd
  exact ⟨c,hc,(hf c).symm⟩

/-- An entry is found under its number only in its own place. -/
theorem other (h : Numbering number table n) {j : I} {c d : C} (hc : table i = some c)
    (hd : table j = some d) (hj : j ≠ i) : number d ≠ number c :=
  fun he => hj (h.inj j i d c hd hc he)

variable [DecidableEq I]

theorem put (h : Numbering number table n) {c c' : C} (hc : table i = some c)
    (hnumber : number c' = number c) : Numbering number (Function.update table i (some c')) n := by
  apply h.of_back
  intro j d hd
  obtain ⟨c₀,hc₀,hmark⟩ := update_back hc hd hnumber
  exact ⟨c₀,hc₀,hmark.symm⟩

theorem start (h : Numbering number table n) {c : C} (hnumber : number c = n) :
    Numbering number (Function.update table i (some c)) (n + 1) := by
  constructor
  · intro j d hd
    rcases update_some_cases hd with ⟨_,he⟩ | ⟨_,hold⟩
    · cases he
      omega
    · have := h.lt j d hold
      omega
  · intro j k d e hd he hde
    rcases update_some_cases hd with ⟨hj,hd'⟩ | ⟨hj,hold⟩
    · rcases update_some_cases he with ⟨hk,_⟩ | ⟨_,hold'⟩
      · exact hj.trans hk.symm
      · cases hd'
        have := h.lt k e hold'
        omega
    · rcases update_some_cases he with ⟨_,he'⟩ | ⟨_,hold'⟩
      · cases he'
        have := h.lt j d hold
        omega
      · exact h.inj j k d e hold hold' hde

theorem remove (h : Numbering number table n) :
    Numbering number (Function.update table i none) n := by
  apply h.of_back
  intro j d hd
  rcases update_some_cases hd with ⟨_,he⟩ | ⟨_,hold⟩
  · cases he
  · exact ⟨d,hold,rfl⟩

end Numbering

end NrDriver.NumberedTable
