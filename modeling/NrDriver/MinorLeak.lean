import NrDriver.StepDrivers
import NrDriver.LabelledRuns
import Mathlib.Data.Finset.Card

/-!
# Minors of the step-by-step drivers

Interfaces that are plugged and unplugged under one of the first two drivers.
The minors that are taken correspond to the bound interfaces as long as no bound
interface is unplugged. The first unplug leaves a minor taken for nobody, since
`nr_disconnect` does not call `usb_deregister_dev`, and no later event gives it
back.
-/
namespace NrDriver.MinorLeak
open KernelModel StepDrivers LabelledRuns
open ProbeModel (Direction canHost)
open TransferSteps (canIn canOut)

inductive Source where
  | minimalist
  | endpoints
  deriving DecidableEq, Repr

def Source.nrProbe (src : Source) (isInt : Direction → EndpointDescriptor → Bool)
    (endpoints : List EndpointDescriptor) (answers : Answers) (i : Interface) (t : MinorTable) :
    Option (ℤ × Interface × MinorTable) :=
  match src with
  | .minimalist => DriverMinimalist.nrProbe answers i t
  | .endpoints => DriverEndpoints.nrProbe isInt endpoints answers i t

def Source.nrDisconnect : Source → Interface → MinorTable → Interface × MinorTable
  | .minimalist => DriverMinimalist.nrDisconnect
  | .endpoints => DriverEndpoints.nrDisconnect

/-- The interfaces under a driver, those that it has claimed, and its minors. -/
structure Bus where
  table : MinorTable
  interface : ℕ → Interface
  bound : Finset ℕ

inductive Event where
  | plug (i : ℕ) (endpoints : List EndpointDescriptor) (answers : Answers)
  | unplug (i : ℕ)
  deriving DecidableEq, Repr

/-- The USB core probes an interface that is not bound and disconnects one that is. -/
def step (src : Source) (isInt : Direction → EndpointDescriptor → Bool) (b : Bus) :
    Event → Option Bus
  | .plug i endpoints answers =>
      if i ∈ b.bound then none
      else (src.nrProbe isInt endpoints answers (b.interface i) b.table).map fun r =>
        { table := r.2.2
          interface := Function.update b.interface i r.2.1
          bound := if (r.1 : ℤ) = 0 then insert i b.bound else b.bound }
  | .unplug i =>
      if i ∈ b.bound then
        let r := src.nrDisconnect (b.interface i) b.table
        some {
          table := r.2
          interface := Function.update b.interface i r.1
          bound := b.bound.erase i }
      else none

/-- The driver is loaded, with a free table of this size. -/
def Bus.start (size : ℕ) : Bus := ⟨⟨size,∅⟩,fun _ => ⟨none,none⟩,∅⟩

/-- The minors taken are those of the bound interfaces, one for each, and a plug
finds a free one while fewer interfaces are bound than the table has entries. -/
structure Balanced (b : Bus) : Prop where
  oneToOne : ∃ f : ℕ → ℕ, Set.BijOn f b.bound b.table.taken ∧
    ∀ i ∈ b.bound, (b.interface i).minor = some (f i)
  supplied : b.bound.card < b.table.size → ∃ m < b.table.size, m ∉ b.table.taken

theorem Balanced.card {b : Bus} (h : Balanced b) : b.bound.card = b.table.taken.card := by
  obtain ⟨f,hf,_⟩ := h.oneToOne
  exact hf.finsetCard_eq

theorem Balanced.of_bijOn {b : Bus} {f : ℕ → ℕ} (hf : Set.BijOn f b.bound b.table.taken)
    (hminor : ∀ i ∈ b.bound, (b.interface i).minor = some (f i)) : Balanced b := by
  refine ⟨⟨f,hf,hminor⟩,fun hlt => ?_⟩
  have hcard : b.bound.card = b.table.taken.card := hf.finsetCard_eq
  have hroom : b.table.taken.card < (Finset.range b.table.size).card := by
    rw [Finset.card_range]
    omega
  obtain ⟨m,hm,hfree⟩ := Finset.exists_mem_notMem_of_card_lt_card hroom
  exact ⟨m,Finset.mem_range.mp hm,hfree⟩

theorem probe_cases {src : Source} {isInt : Direction → EndpointDescriptor → Bool}
    {endpoints : List EndpointDescriptor} {answers : Answers} {i i' : Interface} {t t' : MinorTable}
    {code : ℤ} (h : src.nrProbe isInt endpoints answers i t = some (code,i',t')) :
    (code ≠ 0 ∧ t' = t) ∨
      ∃ m, code = 0 ∧ i'.minor = some m ∧ m ∉ t.taken ∧
        t' = { t with taken := insert m t.taken } := by
  -- what both drivers do with the answer of the registration
  have registers {j : Interface} (hr : (usbRegisterDev j t answers.register).map (fun r =>
      if r.1 ≠ 0 then (r.1,{ r.2.1 with data := none },r.2.2) else (0,r.2)) =
        some (code,i',t')) : (code ≠ 0 ∧ t' = t) ∨
      ∃ m, code = 0 ∧ i'.minor = some m ∧ m ∉ t.taken ∧
        t' = { t with taken := insert m t.taken } := by
    obtain ⟨r,hr,he⟩ := Option.map_eq_some_iff.mp hr
    unfold usbRegisterDev at hr
    cases hanswer : answers.register with
    | minor m =>
        simp only [hanswer] at hr
        split_ifs at hr with hfree
        cases hr
        cases he
        exact .inr ⟨m,rfl,rfl,hfree.2,rfl⟩
    | refused errno =>
        simp only [hanswer] at hr
        split_ifs at hr with herrno
        cases hr
        have hcode : -(errno : ℤ) ≠ 0 := by omega
        simp only [hcode,ne_eq,not_false_iff,if_true] at he
        cases he
        exact .inl ⟨hcode,rfl⟩
  cases src with
  | minimalist => exact registers h
  | endpoints =>
      simp only [Source.nrProbe,DriverEndpoints.nrProbe] at h
      split_ifs at h
      · cases h
        exact .inl ⟨by decide,rfl⟩
      · cases h
        exact .inl ⟨by decide,rfl⟩
      · exact registers h
      · cases h
        exact .inl ⟨by decide,rfl⟩

theorem nrDisconnect_table (src : Source) (i : Interface) (t : MinorTable) :
    (src.nrDisconnect i t).2 = t := by cases src <;> rfl

/-- No bound interface is unplugged. -/
def KeepsBound (b : Bus) : Event → Prop
  | .unplug i => i ∉ b.bound
  | .plug .. => True

theorem Balanced.claim {b : Bus} (h : Balanced b) {i m : ℕ} {i' : Interface}
    (hbound : i ∉ b.bound) (hminor : i'.minor = some m) (hfree : m ∉ b.table.taken) :
    Balanced ⟨{ b.table with taken := insert m b.table.taken },Function.update b.interface i i',
      insert i b.bound⟩ := by
  obtain ⟨f,hf,hown⟩ := h.oneToOne
  have other {j : ℕ} (hj : j ∈ b.bound) : j ≠ i := fun he => hbound (he ▸ hj)
  have hsame : Set.BijOn (Function.update f i m) b.bound b.table.taken :=
    hf.congr fun j hj => (Function.update_of_ne (other hj) ..).symm
  have hnew : Function.update f i m i ∉ (b.table.taken : Set ℕ) := by
    rwa [Function.update_self]
  refine .of_bijOn (f := Function.update f i m) ?_ ?_
  · have hinsert := hsame.insert hnew
    rw [Function.update_self] at hinsert
    simpa only [Finset.coe_insert] using hinsert
  · intro j hj
    rcases Finset.mem_insert.mp hj with rfl | hj
    · simpa only [Function.update_self] using hminor
    · simp only [Function.update_of_ne (other hj)]
      exact hown j hj

theorem balanced_step {src : Source} {isInt : Direction → EndpointDescriptor → Bool} {b b' : Bus}
    {e : Event} (h : Balanced b) (hs : step src isInt b e = some b') :
    Balanced b' ↔ KeepsBound b e := by
  cases e with
  | plug i endpoints answers =>
      simp only [step] at hs
      split_ifs at hs with hbound
      obtain ⟨⟨code,i',t'⟩,hr,rfl⟩ := Option.map_eq_some_iff.mp hs
      simp only [KeepsBound,iff_true]
      rcases probe_cases hr with ⟨hcode,rfl⟩ | ⟨m,rfl,hminor,hfree,rfl⟩
      · obtain ⟨f,hf,hown⟩ := h.oneToOne
        simp only [hcode,if_false]
        refine .of_bijOn hf fun j hj => ?_
        have hji : j ≠ i := fun he => hbound (he ▸ hj)
        simp only [Function.update_of_ne hji]
        exact hown j hj
      · simp only [if_true]
        exact h.claim hbound hminor hfree
  | unplug i =>
      simp only [step] at hs
      split_ifs at hs with hbound
      cases hs
      simp only [KeepsBound,hbound,not_true,iff_false]
      intro hbalanced
      have hpos := Finset.card_pos.mpr ⟨i,hbound⟩
      have hbefore := h.card
      have hafter := hbalanced.card
      simp only [nrDisconnect_table,Finset.card_erase_of_mem hbound] at hafter
      omega

/-- Under either driver the minors stay in balance over a run if and only if the
run unplugs no bound interface. -/
theorem minors_balanced_iff (src : Source) (isInt : Direction → EndpointDescriptor → Bool)
    (size : ℕ) (es : List Event) :
    Throughout (step src isInt) Balanced (.start size) es ↔
      Along (step src isInt) KeepsBound (.start size) es := by
  refine throughout_iff_along (J := fun _ => True) (fun _ _ _ _ _ => trivial)
    (fun _ _ _ _ h hs => balanced_step h hs) ?_ trivial ?_
  · intro b e hs
    cases e with
    | plug => trivial
    | unplug i =>
        intro hbound
        simp [step,hbound] at hs
  · refine .of_bijOn (f := id) ?_ (by simp [Bus.start])
    simp [Bus.start]

theorem taken_kept {src : Source} {isInt : Direction → EndpointDescriptor → Bool} {b b' : Bus}
    {es : List Event} {m : ℕ} (hm : m ∈ b.table.taken)
    (hrun : run (step src isInt) b es = some b') : m ∈ b'.table.taken := by
  refine run_kept (I := fun b : Bus => m ∈ b.table.taken) ?_ hm hrun
  intro b e u hm hs
  cases e with
  | plug i endpoints answers =>
      simp only [step] at hs
      split_ifs at hs
      obtain ⟨⟨code,i',t'⟩,hr,rfl⟩ := Option.map_eq_some_iff.mp hs
      rcases probe_cases hr with ⟨_,rfl⟩ | ⟨n,_,_,_,rfl⟩
      · exact hm
      · exact Finset.mem_insert_of_mem hm
  | unplug i =>
      simp only [step] at hs
      split_ifs at hs
      cases hs
      rwa [nrDisconnect_table]

/-- An interface with both endpoints, under a table of one entry. -/
def plugThenUnplug : List Event := [.plug 0 [canIn,canOut] ⟨true,.minor 0⟩,.unplug 0]

/-- No interface is bound and the only minor of the table is taken. -/
def LeakedMinor (b : Bus) : Prop := b.bound = ∅ ∧ b.table.taken = {0} ∧ b.table.size = 1

instance (b : Bus) : Decidable (LeakedMinor b) := inferInstanceAs (Decidable (_ ∧ _ ∧ _))

theorem LeakedMinor.unbalanced {b : Bus} (h : LeakedMinor b) : ¬ Balanced b := by
  intro hbalanced
  have hcard := hbalanced.card
  simp [h.1,h.2.1] at hcard

/-- Under both drivers no further plug can get a minor. -/
theorem unplugged_minor_stays_taken :
    (∃ b ∈ run (step .minimalist (canHost fun _ => 0).isInt) (.start 1) plugThenUnplug,
      LeakedMinor b ∧ ¬ Balanced b) ∧
    ∃ b ∈ run (step .endpoints (canHost fun _ => 0).isInt) (.start 1) plugThenUnplug,
      LeakedMinor b ∧ ¬ Balanced b := by
  constructor
  · obtain ⟨b,hb,hleaked⟩ : ∃ b ∈ run (step .minimalist (canHost fun _ => 0).isInt) (.start 1)
        plugThenUnplug, LeakedMinor b := by decide
    exact ⟨b,hb,hleaked,hleaked.unbalanced⟩
  · obtain ⟨b,hb,hleaked⟩ : ∃ b ∈ run (step .endpoints (canHost fun _ => 0).isInt) (.start 1)
        plugThenUnplug, LeakedMinor b := by decide
    exact ⟨b,hb,hleaked,hleaked.unbalanced⟩

end NrDriver.MinorLeak
