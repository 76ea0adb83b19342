import NrDriver.LabelledRuns
import Mathlib.Data.Set.Insert
import Mathlib.Order.BooleanAlgebra.Set

/-!
# Drivers that come and go with their devices

A bus binds a driver to the devices attached to it: on attachment while the
driver is loaded, and for all attached devices when it is loaded. It unbinds a
device that is detached, and all of them when the driver is unloaded. A driver
is a probe and a disconnect with what they keep as fields: a probe claims
something new or changes nothing, and a disconnect gives back what the interface
owns. What is held is then, after any run, what the bound interfaces own, and
nothing once the driver is unloaded.
-/
namespace NrDriver.Pluggable
open LabelledRuns

variable {K I E α : Type*}

/-- How a probe of a fresh interface ends: it fails and holds what it held, or
the interface owns something new. -/
inductive Outcome (held : K → Set α) (fresh : I) (owns : I → Set α) (whole : I → Prop) (k : K) :
    ℤ × I × K → Prop
  | fails {code : ℤ} {k' : K} : code ≠ 0 → held k' = held k →
      Outcome held fresh owns whole k (code,fresh,k')
  | claims {i : I} {k' : K} : whole i → held k' = held k ∪ owns i → (∀ a ∈ held k, a ∉ owns i) →
      Outcome held fresh owns whole k (0,i,k')

/-- A driver, allocating from `K`, with its data of an interface in `I`, for
devices that show an `E`, and holding things named by `α`. -/
structure Driver (K I E α : Type*) where
  Ok : K → Prop
  held : K → Set α
  fresh : I
  owns : I → Set α
  Whole : E → I → Prop
  probe : E → I → K → ℤ × I × K
  disconnect : I → K → I × K
  owns_fresh : owns fresh = ∅
  probe_ok : ∀ e k, Ok k → Ok (probe e fresh k).2.2
  probe_outcome : ∀ e k, Ok k → Outcome held fresh owns (Whole e) k (probe e fresh k)
  disconnect_ok : ∀ i k, Ok k → owns i ⊆ held k → Ok (disconnect i k).2
  disconnect_fresh : ∀ i k, Ok k → owns i ⊆ held k → (disconnect i k).1 = fresh
  disconnect_held : ∀ i k, Ok k → owns i ⊆ held k → held (disconnect i k).2 = held k \ owns i

/-- The devices on a bus, what the driver keeps with each, and whether it is loaded. -/
structure Bus (K I E : Type*) where
  kernel : K
  interface : ℕ → I
  bound : ℕ → Bool
  attached : List (ℕ × E)
  loaded : Bool

inductive Event (E : Type*) where
  | attach (i : ℕ) (e : E)
  | detach (i : ℕ)
  | load (errno : ℕ)
  | unload
  deriving DecidableEq, Repr

def Bus.present (s : Bus K I E) (i : ℕ) : Bool := s.attached.any fun p => p.1 == i

namespace Driver
variable (D : Driver K I E α)

/-- A device that is not bound is probed, and bound if the probe returns zero. -/
def bind (s : Bus K I E) (p : ℕ × E) : Bus K I E :=
  if s.bound p.1 then s
  else
    let r := D.probe p.2 (s.interface p.1) s.kernel
    { s with
      kernel := r.2.2
      interface := Function.update s.interface p.1 r.2.1
      bound := Function.update s.bound p.1 (decide (r.1 = 0)) }

def unbind (s : Bus K I E) (i : ℕ) : Bus K I E :=
  if s.bound i then
    let r := D.disconnect (s.interface i) s.kernel
    { s with
      kernel := r.2
      interface := Function.update s.interface i r.1
      bound := Function.update s.bound i false }
  else s

/-- Registration with the bus, which may be refused. -/
def load (s : Bus K I E) (errno : ℕ) : ℤ × Bus K I E :=
  if errno = 0 then (0,s.attached.foldl D.bind { s with loaded := true })
  else (-(errno : ℤ),s)

def unload (s : Bus K I E) : Bus K I E :=
  { (s.attached.map Prod.fst).foldl D.unbind s with loaded := false }

def step (s : Bus K I E) : Event E → Option (Bus K I E)
  | .attach i e =>
      if s.present i then none
      else
        let s := { s with attached := s.attached ++ [(i,e)] }
        some (if s.loaded then D.bind s (i,e) else s)
  | .detach i =>
      if s.present i then
        let s := D.unbind s i
        some { s with attached := s.attached.filter fun p => p.1 != i }
      else none
  | .load errno => if s.loaded then none else some (D.load s errno).2
  | .unload => if s.loaded then some (D.unload s) else none

/-- The interfaces own what is held, each its own, and a bound one what it was
probed for. -/
structure Parted (s : Bus K I E) : Prop where
  ok : D.Ok s.kernel
  held : ∀ a, a ∈ D.held s.kernel ↔ ∃ i, a ∈ D.owns (s.interface i)
  apart : ∀ i j a, a ∈ D.owns (s.interface i) → a ∈ D.owns (s.interface j) → i = j
  unbound : ∀ i, s.bound i = false → s.interface i = D.fresh
  whole : ∀ i, s.bound i = true → ∃ e, (i,e) ∈ s.attached ∧ D.Whole e (s.interface i)

variable {D} {s s' : Bus K I E}

theorem Parted.owns_held (h : D.Parted s) (i : ℕ) : D.owns (s.interface i) ⊆ D.held s.kernel :=
  fun a ha => (h.held a).mpr ⟨i,ha⟩

theorem mem_owns_update (interface : ℕ → I) (i : ℕ) (x : I) (j : ℕ) (a : α) :
    a ∈ D.owns (Function.update interface i x j) ↔
      (j = i ∧ a ∈ D.owns x) ∨ (j ≠ i ∧ a ∈ D.owns (interface j)) := by
  by_cases hj : j = i
  · subst hj
    simp
  · simp [hj]

theorem Parted.claim (h : D.Parted s) {p : ℕ × E} {x : I} {k : K} (hfree : s.bound p.1 = false)
    (hp : p ∈ s.attached) (hok : D.Ok k) (hwhole : D.Whole p.2 x)
    (hheld : D.held k = D.held s.kernel ∪ D.owns x)
    (hnew : ∀ a ∈ D.held s.kernel, a ∉ D.owns x) :
    D.Parted { s with
      kernel := k
      interface := Function.update s.interface p.1 x
      bound := Function.update s.bound p.1 true } := by
  have hfresh := h.unbound p.1 hfree
  have fresh_only {j : ℕ} {a : α} (hx : a ∈ D.owns x) (hj : a ∈ D.owns (s.interface j)) : False :=
    hnew a ((h.held a).mpr ⟨j,hj⟩) hx
  refine ⟨hok,fun a => ?_,fun i j a hi hj => ?_,fun i hi => ?_,fun i hi => ?_⟩
  · rw [hheld,Set.mem_union,h.held]
    simp only [mem_owns_update]
    constructor
    · rintro (⟨j,hj⟩ | hx)
      · refine ⟨j,.inr ⟨fun hjp => ?_,hj⟩⟩
        subst hjp
        rw [hfresh,D.owns_fresh] at hj
        exact hj
      · exact ⟨p.1,.inl ⟨rfl,hx⟩⟩
    · rintro ⟨j,⟨_,hx⟩ | ⟨_,hj⟩⟩
      · exact .inr hx
      · exact .inl ⟨j,hj⟩
  · rcases (mem_owns_update ..).mp hi with ⟨hip,hxi⟩ | ⟨_,hi⟩
    · rcases (mem_owns_update ..).mp hj with ⟨hjp,_⟩ | ⟨_,hj⟩
      · exact hip.trans hjp.symm
      · exact (fresh_only hxi hj).elim
    · rcases (mem_owns_update ..).mp hj with ⟨_,hxj⟩ | ⟨_,hj⟩
      · exact (fresh_only hxj hi).elim
      · exact h.apart i j a hi hj
  · have hip : i ≠ p.1 := by
      intro hip
      simp [hip] at hi
    simp only [Function.update_of_ne hip] at hi ⊢
    exact h.unbound i hi
  · by_cases hip : i = p.1
    · subst hip
      exact ⟨p.2,hp,by simpa using hwhole⟩
    · simp only [Function.update_of_ne hip] at hi ⊢
      exact h.whole i hi

theorem Parted.failed (h : D.Parted s) {i : ℕ} {k : K} (hfree : s.bound i = false) (hok : D.Ok k)
    (hheld : D.held k = D.held s.kernel) :
    D.Parted { s with
      kernel := k
      interface := Function.update s.interface i D.fresh
      bound := Function.update s.bound i false } := by
  have hsame : Function.update s.interface i D.fresh = s.interface :=
    Function.update_eq_self_iff.mpr (h.unbound i hfree).symm
  have hbound : Function.update s.bound i false = s.bound :=
    Function.update_eq_self_iff.mpr hfree.symm
  simp only [hsame,hbound]
  exact ⟨hok,by rw [hheld]; exact h.held,h.apart,h.unbound,h.whole⟩

theorem Parted.bind (h : D.Parted s) {p : ℕ × E} (hp : p ∈ s.attached) : D.Parted (D.bind s p) := by
  unfold Driver.bind
  split_ifs with hbound
  · exact h
  · have hfree : s.bound p.1 = false := by simpa using hbound
    rw [h.unbound p.1 hfree]
    have hok := D.probe_ok p.2 s.kernel h.ok
    have hout := D.probe_outcome p.2 s.kernel h.ok
    generalize D.probe p.2 D.fresh s.kernel = r at hok hout
    cases hout with
    | fails hcode hheld =>
        simp only [hcode,decide_false]
        exact h.failed hfree hok hheld
    | claims hwhole hheld hnew => exact h.claim hfree hp hok hwhole hheld hnew

theorem Parted.unbind (h : D.Parted s) (i : ℕ) : D.Parted (D.unbind s i) := by
  unfold Driver.unbind
  split_ifs with hbound
  · have hown := h.owns_held i
    simp only [D.disconnect_fresh _ _ h.ok hown]
    have kept {j : ℕ} {a : α} :
        a ∈ D.owns (Function.update s.interface i D.fresh j) ↔
          j ≠ i ∧ a ∈ D.owns (s.interface j) := by
      simp [mem_owns_update,D.owns_fresh]
    refine ⟨D.disconnect_ok _ _ h.ok hown,fun a => ?_,fun j l a hj hl => ?_,fun j hj => ?_,
      fun j hj => ?_⟩
    · rw [D.disconnect_held _ _ h.ok hown,Set.mem_sdiff,h.held]
      simp only [kept]
      constructor
      · rintro ⟨⟨j,hj⟩,hn⟩
        refine ⟨j,fun hji => ?_,hj⟩
        subst hji
        exact hn hj
      · rintro ⟨j,hji,hj⟩
        exact ⟨⟨j,hj⟩,fun hi => hji (h.apart j i a hj hi)⟩
    · exact h.apart j l a (kept.mp hj).2 (kept.mp hl).2
    · by_cases hji : j = i
      · subst hji
        simp
      · simp only [Function.update_of_ne hji] at hj ⊢
        exact h.unbound j hj
    · have hji : j ≠ i := by
        intro hji
        simp [hji] at hj
      simp only [Function.update_of_ne hji] at hj ⊢
      exact h.whole j hj
  · exact h

@[simp] theorem bind_attached (s : Bus K I E) (p : ℕ × E) :
    (D.bind s p).attached = s.attached := by
  unfold Driver.bind
  split_ifs <;> rfl

@[simp] theorem bind_loaded (s : Bus K I E) (p : ℕ × E) : (D.bind s p).loaded = s.loaded := by
  unfold Driver.bind
  split_ifs <;> rfl

@[simp] theorem unbind_attached (s : Bus K I E) (i : ℕ) :
    (D.unbind s i).attached = s.attached := by
  unfold Driver.unbind
  split_ifs <;> rfl

@[simp] theorem unbind_loaded (s : Bus K I E) (i : ℕ) : (D.unbind s i).loaded = s.loaded := by
  unfold Driver.unbind
  split_ifs <;> rfl

@[simp] theorem unbind_bound (s : Bus K I E) (i : ℕ) :
    (D.unbind s i).bound = Function.update s.bound i false := by
  unfold Driver.unbind
  split_ifs with hbound
  · rfl
  · exact (Function.update_eq_self_iff.mpr (by simpa using hbound)).symm

theorem Parted.bindAll (h : D.Parted s) {ps : List (ℕ × E)} (hps : ∀ p ∈ ps, p ∈ s.attached) :
    D.Parted (ps.foldl D.bind s) := by
  induction ps generalizing s with
  | nil => exact h
  | cons p ps ih =>
      obtain ⟨hp,hrest⟩ := List.forall_mem_cons.mp hps
      exact ih (h.bind hp) (by simpa using hrest)

theorem bindAll_loaded (s : Bus K I E) (ps : List (ℕ × E)) :
    (ps.foldl D.bind s).loaded = s.loaded := by
  induction ps generalizing s with
  | nil => rfl
  | cons p ps ih => rw [List.foldl_cons,ih,bind_loaded]

theorem Parted.unbindAll (h : D.Parted s) (is : List ℕ) : D.Parted (is.foldl D.unbind s) := by
  induction is generalizing s with
  | nil => exact h
  | cons i is ih => exact ih (h.unbind i)

theorem unbindAll_bound (s : Bus K I E) (is : List ℕ) (j : ℕ) :
    (is.foldl D.unbind s).bound j = (s.bound j && !is.contains j) := by
  induction is generalizing s with
  | nil => simp
  | cons i is ih =>
      rw [List.foldl_cons,ih,unbind_bound]
      by_cases hji : j = i
      · subst hji
        simp
      · have hij : ¬ i = j := fun hij => hji hij.symm
        simp [hji]

/-- What the driver keeps: its things are parted among the bound interfaces, of
which there are none while it is not loaded. -/
structure Settled (D : Driver K I E α) (s : Bus K I E) : Prop where
  parted : D.Parted s
  idle : s.loaded = false → ∀ i, s.bound i = false

theorem Settled.attach (h : D.Settled s) (i : ℕ) (e : E) :
    D.Settled { s with attached := s.attached ++ [(i,e)] } := by
  refine ⟨⟨h.parted.ok,h.parted.held,h.parted.apart,h.parted.unbound,fun j hj => ?_⟩,h.idle⟩
  obtain ⟨f,hf,hwhole⟩ := h.parted.whole j hj
  exact ⟨f,List.mem_append_left _ hf,hwhole⟩

theorem Settled.detach (h : D.Settled s) (i : ℕ) (hbound : s.bound i = false) :
    D.Settled { s with attached := s.attached.filter fun p => p.1 != i } := by
  refine ⟨⟨h.parted.ok,h.parted.held,h.parted.apart,h.parted.unbound,fun j hj => ?_⟩,h.idle⟩
  obtain ⟨f,hf,hwhole⟩ := h.parted.whole j hj
  refine ⟨f,List.mem_filter.mpr ⟨hf,?_⟩,hwhole⟩
  have hji : j ≠ i := by
    intro hji
    simp [hji,hbound] at hj
  simpa using hji

theorem Settled.load (h : D.Settled s) (errno : ℕ) :
    D.Settled (D.load s errno).2 := by
  unfold Driver.load
  split_ifs
  · have hparted : D.Parted { s with loaded := true } :=
      ⟨h.parted.ok,h.parted.held,h.parted.apart,h.parted.unbound,h.parted.whole⟩
    refine ⟨hparted.bindAll fun p hp => hp,fun hoff => ?_⟩
    rw [bindAll_loaded] at hoff
    cases hoff
  · exact h

theorem Settled.unload (h : D.Settled s) : D.Settled (D.unload s) := by
  have hparted := h.parted.unbindAll (s.attached.map Prod.fst)
  refine ⟨⟨hparted.ok,hparted.held,hparted.apart,hparted.unbound,hparted.whole⟩,fun _ i => ?_⟩
  simp only [Driver.unload,unbindAll_bound]
  cases hi : s.bound i with
  | false => rfl
  | true =>
      obtain ⟨e,he,_⟩ := h.parted.whole i hi
      simpa using ⟨e,he⟩

theorem Settled.step {ev : Event E} (h : D.Settled s) (hs : D.step s ev = some s') :
    D.Settled s' := by
  cases ev with
  | attach i e =>
      simp only [Driver.step] at hs
      split_ifs at hs with hpresent hload
      · cases hs
        have hmore := h.attach i e
        refine ⟨hmore.parted.bind (by simp),fun hoff => ?_⟩
        simp [hload] at hoff
      · cases hs
        exact h.attach i e
  | detach i =>
      simp only [Driver.step] at hs
      split_ifs at hs
      cases hs
      have hunbound : D.Settled (D.unbind s i) := by
        refine ⟨h.parted.unbind i,fun hoff j => ?_⟩
        rw [unbind_loaded] at hoff
        by_cases hji : j = i
        · simp [hji]
        · simpa [Function.update_of_ne hji] using h.idle hoff j
      have hdetached := hunbound.detach i (by simp)
      simpa using hdetached
  | load errno =>
      simp only [Driver.step] at hs
      split_ifs at hs
      cases hs
      exact h.load errno
  | unload =>
      simp only [Driver.step] at hs
      split_ifs at hs
      cases hs
      exact h.unload

/-- Nothing is attached, and the driver is not loaded. -/
def start (D : Driver K I E α) (k : K) : Bus K I E :=
  ⟨k,fun _ => D.fresh,fun _ => false,[],false⟩

theorem settled_start {k : K} (hok : D.Ok k) (hheld : D.held k = ∅) :
    D.Settled (D.start k) := by
  refine ⟨⟨hok,fun a => ?_,fun i j a hi => ?_,fun _ _ => rfl,fun i hi => ?_⟩,fun _ _ => rfl⟩
  · simp [start,hheld,D.owns_fresh]
  · simp [start,D.owns_fresh] at hi
  · cases hi

theorem Settled.run {es : List (Event E)} (h : D.Settled s)
    (hrun : LabelledRuns.run D.step s es = some s') : D.Settled s' :=
  run_kept (fun _ _ _ hI hs => hI.step hs) h hrun

theorem Settled.unloaded (h : D.Settled s) (hload : s.loaded = false) :
    D.held s.kernel = ∅ ∧ ∀ i, s.interface i = D.fresh := by
  have hfresh (i : ℕ) : s.interface i = D.fresh := h.parted.unbound i (h.idle hload i)
  refine ⟨?_,hfresh⟩
  ext a
  simp [h.parted.held,hfresh,D.owns_fresh]

end Driver

end NrDriver.Pluggable
