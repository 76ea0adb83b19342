import NrDriver.ModuleLifecycle

/-!
# Probes that fill a record

The drivers that lead up to `nr_driver.c` differ in what their record holds and
in how `nr_probe` fills it. Around that they are alike: the record is allocated
first, published in the interface and registered, and it is freed on the error
label and by `nr_disconnect`, which gives the minor back. A kind of record carries
the differing parts together with what they keep. What a record owns is read off
a record of `nr_driver.c` with the same allocations (`whole`), so that the rules of
the kernel's requests apply to it.
-/
namespace NrDriver.RecordProbe
open KernelModel ProbeModel ProbeOutcome Ledger LabelledRuns Pluggable
open ModuleLifecycle (moduleStep Kept kept_run)

/-- The driver's data pointer of an interface, and its minor. -/
structure Handle (R : Type) where
  data : Option R
  minor : Option ℕ
  deriving DecidableEq, Repr

/-- A record that is being filled, and the kernel. -/
structure Point (R : Type) where
  dev : R
  kernel : Kernel

/-- A part of `nr_probe` goes on, or to the error label with the record so far. -/
abbrev Attempt (R : Type) := Except (Point R)

variable {R : Type}

def usbRegisterDev (host : Host) (i : Handle R) (k : Kernel) : ℤ × Handle R × Kernel :=
  if host.answer k.requests = 0 then (0,{ i with minor := some k.requests },k.grant .minor)
  else (-(host.answer k.requests : ℤ),i,k.refuse)

/-- A part of `nr_probe` reaches `Q`, or its error label with `E`. -/
def Reaches (E Q : Point R → Prop) : Attempt R (Point R) → Prop
  | .ok s => Q s
  | .error s => E s

theorem Reaches.bind {E Q Q' : Point R → Prop} {x : Attempt R (Point R)}
    {f : Point R → Attempt R (Point R)} (hx : Reaches E Q x)
    (hf : ∀ s, Q s → Reaches E Q' (f s)) : Reaches E Q' (x >>= f) := by
  cases x with
  | ok s => exact hf s hx
  | error s => exact hx

/-- What `nr_probe` owes to a kernel, with the allocations of its record. -/
def Owed (whole : R → Draft) (k₀ : Kernel) (s : Point R) : Prop := Owes k₀ ⟨whole s.dev,s.kernel⟩

theorem owes_same {k₀ : Kernel} {x y : Site} (h : Owes k₀ x) (hk : y.kernel = x.kernel)
    (hdev : y.dev.resource = x.dev.resource) : Owes k₀ y := by
  have howns : y.dev.owns = x.dev.owns := by simp only [Draft.owns,hdev]
  refine ⟨hk ▸ h.ok,hk ▸ h.later,?_,?_⟩
  · rw [hk,howns]
    exact h.held
  · rw [howns]
    exact h.fresh

theorem owes_registered {k : Kernel} {s : Site} (h : Owes k s) :
    held (s.kernel.grant .minor).log =
        held k.log ∪ (Interface.mk (some s.dev) (some s.kernel.requests)).owns ∧
      ∀ a ∈ (Interface.mk (some s.dev) (some s.kernel.requests)).owns, k.requests ≤ a.2 := by
  constructor
  · rw [h.ok.held_grant,h.held,Interface.owns_mk,← Set.union_assoc,← Set.union_singleton]
    congr 1
    ext ⟨r,n⟩
    simp [eq_comm]
  · intro a ha
    rw [Interface.owns_mk] at ha
    rcases ha with ha | ⟨_,ha⟩
    · exact h.fresh a ha
    · rw [← Option.some.inj ha]
      exact h.later

theorem find_skip {p : EndpointDescriptor → Bool} {found : Option EndpointDescriptor}
    {seen : List EndpointDescriptor} {e : EndpointDescriptor} (h : found = seen.find? p)
    (hskip : ¬ (found = none ∧ p e = true)) : found = (seen ++ [e]).find? p := by
  rw [List.find?_append,← h]
  cases found with
  | some x => rfl
  | none =>
      have he : p e = false := by
        by_contra he
        exact hskip ⟨rfl,by simpa using he⟩
      simp [he]

/-- A kind of record: how it is allocated, filled and freed, what it holds once
it is filled, and that filling it owes the kernel what the record owns. -/
structure Kind (R : Type) where
  kzalloc : ℕ → R
  buildNr : Host → List EndpointDescriptor → Point R → Attempt R (Point R)
  freeUsbNr : R → Kernel → Kernel
  whole : R → Draft
  Built : Host → List EndpointDescriptor → R → Prop
  whole_kzalloc : ∀ record, whole (kzalloc record) = .kzalloc record
  free_whole : ∀ dev k, freeUsbNr dev k = ProbeModel.freeUsbNr (whole dev) k
  build_reaches : ∀ host endpoints k₀ record k, Owed whole k₀ ⟨kzalloc record,k⟩ →
    Reaches (Owed whole k₀) (fun s => Owed whole k₀ s ∧ Built host endpoints s.dev)
      (buildNr host endpoints ⟨kzalloc record,k⟩)

namespace Kind
variable (D : Kind R)

def nrProbe (host : Host) (endpoints : List EndpointDescriptor) (i : Handle R) (k : Kernel) :
    ℤ × Handle R × Kernel :=
  match k.request host .record with
  | (none,k) => (-ENODEV,i,k)
  | (some record,k) =>
      match D.buildNr host endpoints ⟨D.kzalloc record,k⟩ with
      | .error s => (-ENODEV,i,D.freeUsbNr s.dev s.kernel)
      | .ok s =>
          let r := usbRegisterDev host { i with data := some s.dev } s.kernel
          if r.1 ≠ 0 then (r.1,{ r.2.1 with data := none },D.freeUsbNr s.dev r.2.2)
          else (0,r.2)

def nrDisconnect (i : Handle R) (k : Kernel) : Handle R × Kernel :=
  let k := match i.data with
    | some dev => D.freeUsbNr dev k
    | none => k
  (⟨none,none⟩,k.free .minor i.minor)

def interface (i : Handle R) : Interface := ⟨i.data.map D.whole,i.minor⟩

variable {D}

theorem nrDisconnect_whole (i : Handle R) (k : Kernel) :
    (D.nrDisconnect i k).2 = (ProbeModel.nrDisconnect (D.interface i) k).2 := by
  obtain ⟨data,minor⟩ := i
  cases data with
  | none => rfl
  | some dev =>
      simp only [nrDisconnect,D.free_whole]
      rfl

/-- On a fresh interface `nr_probe` gives back everything, or claims the
interface with one whole record and a minor. -/
theorem nrProbe_spec {host : Host} {endpoints : List EndpointDescriptor} {k k' : Kernel}
    (hk : k.Ok) {code : ℤ} {i' : Handle R}
    (h : D.nrProbe host endpoints ⟨none,none⟩ k = (code,i',k')) :
    k'.Ok ∧ ((code < 0 ∧ i' = ⟨none,none⟩ ∧ held k'.log = held k.log) ∨
      (code = 0 ∧ ∃ dev n, i' = ⟨some dev,some n⟩ ∧ D.Built host endpoints dev ∧
        held k'.log = held k.log ∪ (D.interface i').owns ∧
          ∀ a ∈ (D.interface i').owns, k.requests ≤ a.2)) := by
  have howed : Owed D.whole k ⟨D.kzalloc k.requests,k.grant .record⟩ := by
    rw [Owed,D.whole_kzalloc]
    exact owes_kzalloc hk
  have hreaches := D.build_reaches host endpoints k k.requests (k.grant .record) howed
  unfold nrProbe at h
  rcases k.request_cases host .record with hr | hr
  · rw [hr] at h
    simp only at h
    cases hb : D.buildNr host endpoints ⟨D.kzalloc k.requests,k.grant .record⟩ with
    | error s =>
        rw [hb] at h hreaches
        simp only [D.free_whole] at h
        cases h
        obtain ⟨hok,hheld⟩ := Owes.freed hreaches hk
        exact ⟨hok,.inl ⟨by decide,rfl,hheld⟩⟩
    | ok s =>
        rw [hb] at h hreaches
        obtain ⟨hs,hbuilt⟩ := hreaches
        simp only [usbRegisterDev] at h
        by_cases hans : host.answer s.kernel.requests = 0
        · rw [if_pos hans] at h
          simp only [ne_eq,not_true,if_false] at h
          cases h
          obtain ⟨hheld,hnew⟩ := owes_registered hs
          exact ⟨hs.ok.grant .minor,.inr ⟨rfl,_,_,rfl,hbuilt,hheld,hnew⟩⟩
        · rw [if_neg hans] at h
          have hcode : -(host.answer s.kernel.requests : ℤ) < 0 := by omega
          simp only [ne_eq,Int.ne_of_lt hcode,not_false_iff,if_true,D.free_whole] at h
          cases h
          have hs' : Owes k ⟨D.whole s.dev,s.kernel.refuse⟩ := Owes.refuse hs rfl
          obtain ⟨hok,hheld⟩ := hs'.freed hk
          exact ⟨hok,.inl ⟨hcode,rfl,hheld⟩⟩
  · rw [hr] at h
    cases h
    exact ⟨hk.refuse,.inl ⟨by decide,rfl,rfl⟩⟩

variable (D)

/-- The driver of a kind of record, under one host. -/
def driver (host : Host) : Driver Kernel (Handle R) (List EndpointDescriptor) Allocation where
  Ok := Kernel.Ok
  held k := held k.log
  fresh := ⟨none,none⟩
  owns i := (D.interface i).owns
  Whole endpoints i := ∃ dev n, i = ⟨some dev,some n⟩ ∧ D.Built host endpoints dev
  probe := D.nrProbe host
  disconnect := D.nrDisconnect
  owns_fresh := Interface.owns_fresh
  probe_ok _ _ hk := (nrProbe_spec hk rfl).1
  probe_outcome endpoints k hk := by
    rcases hr : D.nrProbe host endpoints ⟨none,none⟩ k with ⟨code,i',k'⟩
    rcases (nrProbe_spec hk hr).2 with ⟨hneg,rfl,hheld⟩ | ⟨rfl,dev,n,rfl,hbuilt,hheld,hnew⟩
    · exact .fails (Int.ne_of_lt hneg) hheld
    · refine .claims ⟨dev,n,rfl,hbuilt⟩ hheld fun a ha hx => ?_
      exact Nat.not_lt.mpr (hnew a hx) (hk.held_below ha)
  disconnect_ok i k hk hown := by
    rw [nrDisconnect_whole]
    exact (nrDisconnect_spec hk hown).2.1
  disconnect_fresh _ _ _ _ := rfl
  disconnect_held i k hk hown := by
    rw [nrDisconnect_whole]
    exact (nrDisconnect_spec hk hown).2.2

variable {D}

/-- The balance of the module, for every kind of record. -/
theorem kept {host : Host} {es : List (Event (List EndpointDescriptor))}
    {s : Bus Kernel (Handle R) (List EndpointDescriptor)}
    (hrun : run (moduleStep (D.driver host)) ((D.driver host).start ⟨0,[]⟩) es = some s) :
    Kept (D.driver host) s :=
  kept_run (fun _ => Iff.rfl) (fun _ => rfl) hrun

end Kind

end NrDriver.RecordProbe
