import NrDriver.ProbeOutcome
import NrDriver.LabelledRuns

/-!
# The balance of hot-plug runs

Any number of interfaces are plugged and unplugged, each plug with its own
endpoint list. The USB core probes an interface that is not bound, binds it when
`nr_probe` returns zero, and disconnects a bound one. After every event the
resources held are those the bound interfaces point to, one of each kind for
each of them.
-/
namespace NrDriver.ResourceLedger
open KernelModel TransferSteps ProbeModel ProbeOutcome Ledger LabelledRuns

structure Hotplug where
  kernel : Kernel
  interface : ℕ → Interface
  bound : ℕ → Bool

inductive Event where
  | plug (i : ℕ) (endpoints : List EndpointDescriptor)
  | unplug (i : ℕ)
  deriving DecidableEq, Repr

def hotplug (host : Host) (s : Hotplug) : Event → Option Hotplug
  | .plug i endpoints =>
      if s.bound i then none
      else
        let r := nrProbe host endpoints (s.interface i) s.kernel
        some {
          kernel := r.2.2
          interface := Function.update s.interface i r.2.1
          bound := Function.update s.bound i (decide (r.1 = 0)) }
  | .unplug i =>
      if s.bound i then
        let r := nrDisconnect (s.interface i) s.kernel
        some {
          kernel := r.2
          interface := Function.update s.interface i r.1
          bound := Function.update s.bound i false }
      else none

/-- Nothing was plugged yet. -/
def unplugged : Hotplug := ⟨⟨0,[]⟩,fun _ => .fresh,fun _ => false⟩

/-- The interfaces own what is held, each its own. -/
structure Parted (k : Kernel) (interface : ℕ → Interface) : Prop where
  ok : k.Ok
  held : ∀ a, a ∈ held k.log ↔ ∃ i, a ∈ (interface i).owns
  apart : ∀ i j a, a ∈ (interface i).owns → a ∈ (interface j).owns → i = j

namespace Parted
variable {k k' : Kernel} {interface : ℕ → Interface} {i : ℕ} {x : Interface}

theorem mem_owns_update (interface : ℕ → Interface) (i : ℕ) (x : Interface) (j : ℕ)
    (a : Allocation) : a ∈ (Function.update interface i x j).owns ↔
      (j = i ∧ a ∈ x.owns) ∨ (j ≠ i ∧ a ∈ (interface j).owns) := by
  by_cases hj : j = i
  · subst hj
    simp
  · simp [hj]

theorem gain (h : Parted k interface) (hi : interface i = .fresh) (hok : k'.Ok)
    (hheld : Ledger.held k'.log = Ledger.held k.log ∪ x.owns)
    (hnew : ∀ a ∈ x.owns, k.requests ≤ a.2) : Parted k' (Function.update interface i x) := by
  have hbelow (j : ℕ) (a : Allocation) (ha : a ∈ (interface j).owns) : a.2 < k.requests :=
    h.ok.held_below ((h.held a).mpr ⟨j,ha⟩)
  have hparts (a : Allocation) : a ∈ Ledger.held k'.log ↔
      ∃ j, a ∈ (Function.update interface i x j).owns := by
    rw [hheld,Set.mem_union,h.held]
    constructor
    · intro ha
      rcases ha with ⟨j,hj⟩ | hx
      · have hne : j ≠ i := by
          intro hji
          rw [hji,hi,Interface.owns_fresh] at hj
          exact hj
        exact ⟨j,(mem_owns_update ..).mpr (.inr ⟨hne,hj⟩)⟩
      · exact ⟨i,(mem_owns_update ..).mpr (.inl ⟨rfl,hx⟩)⟩
    · intro ha
      obtain ⟨j,hj⟩ := ha
      rcases (mem_owns_update ..).mp hj with ⟨_,hx⟩ | ⟨_,hj⟩
      · exact .inr hx
      · exact .inl ⟨j,hj⟩
  have hapart (j l : ℕ) (a : Allocation) (hj : a ∈ (Function.update interface i x j).owns)
      (hl : a ∈ (Function.update interface i x l).owns) : j = l := by
    rcases (mem_owns_update ..).mp hj with ⟨hji,hx⟩ | ⟨_,hj⟩
    · rcases (mem_owns_update ..).mp hl with ⟨hli,_⟩ | ⟨_,hl⟩
      · exact hji.trans hli.symm
      · have hlt := hbelow l a hl
        have hge := hnew a hx
        omega
    · rcases (mem_owns_update ..).mp hl with ⟨_,hx⟩ | ⟨_,hl⟩
      · have hlt := hbelow j a hj
        have hge := hnew a hx
        omega
      · exact h.apart j l a hj hl
  exact ⟨hok,hparts,hapart⟩

theorem lose (h : Parted k interface) (hok : k'.Ok)
    (hheld : Ledger.held k'.log = Ledger.held k.log \ (interface i).owns) :
    Parted k' (Function.update interface i .fresh) := by
  have hkeep (j : ℕ) (a : Allocation) : a ∈ (Function.update interface i .fresh j).owns ↔
      j ≠ i ∧ a ∈ (interface j).owns := by
    simp [mem_owns_update,Interface.owns_fresh]
  have hparts (a : Allocation) : a ∈ Ledger.held k'.log ↔
      ∃ j, a ∈ (Function.update interface i .fresh j).owns := by
    rw [hheld,Set.mem_sdiff,h.held]
    constructor
    · intro ha
      obtain ⟨⟨j,hj⟩,hn⟩ := ha
      have hne : j ≠ i := fun hji => hn (hji ▸ hj)
      exact ⟨j,(hkeep j a).mpr ⟨hne,hj⟩⟩
    · intro ha
      obtain ⟨j,hj⟩ := ha
      obtain ⟨hne,hj⟩ := (hkeep j a).mp hj
      exact ⟨⟨j,hj⟩,fun hia => hne (h.apart j i a hj hia)⟩
  have hapart (j l : ℕ) (a : Allocation) (hj : a ∈ (Function.update interface i .fresh j).owns)
      (hl : a ∈ (Function.update interface i .fresh l).owns) : j = l :=
    h.apart j l a ((hkeep j a).mp hj).2 ((hkeep l a).mp hl).2
  exact ⟨hok,hparts,hapart⟩

end Parted

/-- The bound interfaces have a whole record and a minor, the others nothing. -/
structure OneEach (s : Hotplug) : Prop where
  parted : Parted s.kernel s.interface
  unbound : ∀ i, s.bound i = false → s.interface i = .fresh
  whole : ∀ i, s.bound i = true → ∀ r, ∃ n, (s.interface i).resource r = some n

theorem oneEach_unplugged : OneEach unplugged := by
  refine ⟨⟨⟨.nil,fun a ha => by cases ha⟩,fun a => ?_,fun i j a hi => ?_⟩,fun _ _ => rfl,?_⟩
  · simp [unplugged,Interface.owns_fresh]
  · simp [unplugged,Interface.owns_fresh] at hi
  · intro i hi
    cases hi

theorem whole_of_built {host : Host} {endpoints : List EndpointDescriptor} {dev : Draft}
    (h : Built host endpoints dev) (n : ℕ) (r : Resource) :
    ∃ m, (Interface.mk (some dev) (some n)).resource r = some m := by
  by_cases hr : r = .minor
  · subst hr
    exact ⟨n,rfl⟩
  · obtain ⟨m,hm⟩ := h.resource hr
    exact ⟨m,by cases r <;> first | exact hm | exact (hr rfl).elim⟩

theorem OneEach.rebind {s : Hotplug} (h : OneEach s) {i : ℕ} {x : Interface} {k : Kernel} {b : Bool}
    (hparted : Parted k (Function.update s.interface i x)) (hun : b = false → x = .fresh)
    (hwhole : b = true → ∀ r, ∃ n, x.resource r = some n) :
    OneEach ⟨k,Function.update s.interface i x,Function.update s.bound i b⟩ := by
  refine ⟨hparted,fun j hj => ?_,fun j hj r => ?_⟩
  · by_cases hji : j = i
    · subst hji
      simpa using hun (by simpa using hj)
    · simpa [hji] using h.unbound j (by simpa [hji] using hj)
  · by_cases hji : j = i
    · subst hji
      simpa using hwhole (by simpa using hj) r
    · simpa [hji] using h.whole j (by simpa [hji] using hj) r

theorem OneEach.step {host : Host} {s s' : Hotplug} {e : Event} (h : OneEach s)
    (hs : hotplug host s e = some s') : OneEach s' := by
  cases e with
  | plug i endpoints =>
      simp only [hotplug] at hs
      split_ifs at hs with hb
      have hfresh := h.unbound i (by simpa using hb)
      rw [hfresh] at hs
      generalize hr : nrProbe host endpoints .fresh s.kernel = r at hs
      obtain ⟨code,x,k⟩ := r
      cases hs
      obtain ⟨hok,hend⟩ := nrProbe_spec h.parted.ok hr
      rcases hend with ⟨hneg,rfl,hheld⟩ | ⟨rfl,dev,n,rfl,hbuilt,hheld,hnew⟩
      · refine h.rebind (h.parted.gain hfresh hok ?_ ?_) (fun _ => rfl) ?_
        · rw [hheld,Interface.owns_fresh,Set.union_empty]
        · simp [Interface.owns_fresh]
        · intro hcode
          simp only [decide_eq_true_eq] at hcode
          omega
      · exact h.rebind (h.parted.gain hfresh hok hheld hnew) (by simp)
          fun _ => whole_of_built hbuilt n
  | unplug i =>
      simp only [hotplug] at hs
      split_ifs at hs with hb
      obtain ⟨hfresh,hok,hheld⟩ := nrDisconnect_spec h.parted.ok
        fun a ha => (h.parted.held a).mpr ⟨i,ha⟩
      cases hs
      rw [hfresh]
      exact h.rebind (h.parted.lose hok hheld) (fun _ => rfl) (by simp)

/-- What is held and what the interfaces point to, kind by kind. -/
structure Balanced (s : Hotplug) : Prop where
  data : ∀ i, (s.interface i).data ≠ none ↔ s.bound i = true
  each : ∀ i, s.bound i = true → ∀ r, ∃ n, (s.interface i).resource r = some n
  held : ∀ r n, (r,n) ∈ held s.kernel.log ↔
    ∃ i, s.bound i = true ∧ (s.interface i).resource r = some n
  apart : ∀ i j r n, (s.interface i).resource r = some n → (s.interface j).resource r = some n →
    i = j
  once : s.kernel.log.Nodup
  earlier : ∀ a, .released a ∈ s.kernel.log → .acquired a ∈ s.kernel.log
  returned : ∀ r n, .acquired (r,n) ∈ s.kernel.log →
    (∃ i, s.bound i = true ∧ (s.interface i).resource r = some n) ∨
      .released (r,n) ∈ s.kernel.log

theorem OneEach.balanced {s : Hotplug} (h : OneEach s) : Balanced s := by
  have hheld (r : Resource) (n : ℕ) : (r,n) ∈ Ledger.held s.kernel.log ↔
      ∃ i, s.bound i = true ∧ (s.interface i).resource r = some n := by
    rw [h.parted.held]
    constructor
    · intro hex
      obtain ⟨i,hi⟩ := hex
      refine ⟨i,?_,hi⟩
      by_contra hb
      rw [h.unbound i (by simpa using hb),Interface.owns_fresh] at hi
      exact hi
    · intro hex
      obtain ⟨i,_,hi⟩ := hex
      exact ⟨i,hi⟩
  have hdata (i : ℕ) : (s.interface i).data ≠ none ↔ s.bound i = true := by
    constructor
    · intro hdata
      by_contra hb
      rw [h.unbound i (by simpa using hb)] at hdata
      exact hdata rfl
    · intro hb hdata
      obtain ⟨n,hn⟩ := h.whole i hb .record
      simp [Interface.resource,hdata] at hn
  have hreturned (r : Resource) (n : ℕ) (ha : .acquired (r,n) ∈ s.kernel.log) :
      (∃ i, s.bound i = true ∧ (s.interface i).resource r = some n) ∨
        .released (r,n) ∈ s.kernel.log := by
    by_cases hk : (r,n) ∈ Ledger.held s.kernel.log
    · exact .inl ((hheld r n).mp hk)
    · exact .inr (Sound.released_of_not_held ha hk)
  exact ⟨hdata,h.whole,hheld,fun i j r n => h.parted.apart i j (r,n),h.parted.ok.sound.nodup,
    fun a => h.parted.ok.sound.acquired_of_released,hreturned⟩

/-- After every run of plug and unplug events the driver holds one resource of
each kind for each bound interface, and gave back everything else once. -/
theorem hotplug_balanced (host : Host) {es : List Event} {s : Hotplug}
    (hrun : run (hotplug host) unplugged es = some s) : Balanced s := by
  have hone : OneEach s := run_kept (fun _ _ _ hI hs => hI.step hs) oneEach_unplugged hrun
  exact hone.balanced

/-- A plug that succeeds, one without an out endpoint, one whose registration is
refused, an unplug and a plug again. -/
def replugging : List Event :=
  [.plug 0 [canOut,canIn,canIn],.plug 1 [canIn],.plug 2 [canIn,canOut],.unplug 0,
    .plug 0 [canIn,canOut]]

theorem replugging_balanced :
    ∃ s ∈ run (hotplug (canHost fun n => if n = 16 then 23 else 0)) unplugged replugging,
      s.bound 0 = true ∧ s.bound 1 = false ∧ s.bound 2 = false ∧ Balanced s := by
  obtain ⟨s,hs,h₀,h₁,h₂⟩ : ∃ s ∈ run (hotplug (canHost fun n => if n = 16 then 23 else 0))
    unplugged replugging, s.bound 0 = true ∧ s.bound 1 = false ∧ s.bound 2 = false := by decide
  exact ⟨s,hs,h₀,h₁,h₂,hotplug_balanced _ hs⟩

end NrDriver.ResourceLedger
