import NrDriver.ProbeModel

/-!
# What a probe ends with

Each part of `nr_probe` is described by what holds when it goes on and what
holds at its error label. Throughout, the record owes exactly what was acquired
since the probe began (`Owes`), so that the one `free_usb_nr` of the error label
gives everything back whatever subset it is.
-/
namespace NrDriver.ProbeOutcome
open KernelModel TransferSteps ProbeModel Ledger

/-- Free what a record points to, for each of a list of kinds. -/
def freeKinds (dev : Draft) : List Resource → Kernel → Kernel
  | [], k => k
  | r :: rs, k => freeKinds dev rs (k.free r (dev.resource r))

/-- The order of `free_usb_nr`. -/
def freeOrder : List Resource :=
  [.urb .input,.urb .output,.usbdevRef,.buffer .input,.buffer .output,.record]

theorem freeUsbNr_eq (dev : Draft) (k : Kernel) :
    freeUsbNr dev k = freeKinds dev freeOrder k := rfl

theorem freeKinds_spec (dev : Draft) {rs : List Resource} (hnd : rs.Nodup) {k : Kernel} (h : k.Ok)
    (hheld : ∀ a ∈ dev.owns, a.1 ∈ rs → a ∈ held k.log) :
    (freeKinds dev rs k).Ok ∧
      held (freeKinds dev rs k).log = held k.log \ {a | a.1 ∈ rs ∧ a ∈ dev.owns} := by
  induction rs generalizing k with
  | nil => exact ⟨h,by simp [freeKinds]⟩
  | cons r rs ih =>
      obtain ⟨hr,hnd'⟩ := List.nodup_cons.mp hnd
      obtain ⟨hok,hk⟩ := h.free r (dev.resource r) fun n hn =>
        hheld (r,n) hn (List.mem_cons_self ..)
      obtain ⟨hok',hrest⟩ := ih hnd' hok fun a ha har => by
        rw [hk]
        exact ⟨hheld a ha (List.mem_cons_of_mem _ har),fun hb => hr (hb.1 ▸ har)⟩
      refine ⟨hok',?_⟩
      rw [freeKinds,hrest,hk]
      ext ⟨q,n⟩
      simp only [Set.mem_sdiff,Set.mem_ofPred_eq,List.mem_cons,Draft.mem_owns]
      constructor
      · intro ha
        obtain ⟨⟨hmem,h₁⟩,h₂⟩ := ha
        refine ⟨hmem,fun hq => ?_⟩
        rcases hq with ⟨rfl | hq,hown⟩
        · exact h₁ ⟨rfl,hown⟩
        · exact h₂ ⟨hq,hown⟩
      · intro ha
        obtain ⟨hmem,hn⟩ := ha
        have h₁ : ¬ (q = r ∧ dev.resource r = some n) := by
          intro hq
          obtain ⟨rfl,hown⟩ := hq
          exact hn ⟨.inl rfl,hown⟩
        exact ⟨⟨hmem,h₁⟩,fun hq => hn ⟨.inr hq.1,hq.2⟩⟩

theorem mem_freeOrder {dev : Draft} {a : Allocation} (h : a ∈ dev.owns) : a.1 ∈ freeOrder := by
  obtain ⟨r,n⟩ := a
  cases r with
  | minor => cases h
  | record | usbdevRef => simp [freeOrder]
  | buffer d | urb d => cases d <;> simp [freeOrder]

theorem freeUsbNr_spec {dev : Draft} {k : Kernel} (h : k.Ok) (hheld : dev.owns ⊆ held k.log) :
    (freeUsbNr dev k).Ok ∧ held (freeUsbNr dev k).log = held k.log \ dev.owns := by
  rw [freeUsbNr_eq]
  obtain ⟨hok,hk⟩ := freeKinds_spec dev (show freeOrder.Nodup by decide) h
    fun a ha _ => hheld ha
  refine ⟨hok,?_⟩
  rw [hk]
  congr 1
  ext a
  exact and_iff_right_of_imp mem_freeOrder

theorem freeKinds_log (dev : Draft) (rs : List Resource) (k : Kernel) (a : Allocation) :
    (freeKinds dev rs k).requests = k.requests ∧
      (.released a ∈ (freeKinds dev rs k).log ↔
        .released a ∈ k.log ∨ (a.1 ∈ rs ∧ a ∈ dev.owns)) := by
  induction rs generalizing k with
  | nil => simp [freeKinds]
  | cons r rs ih =>
      obtain ⟨hreq,hlog⟩ := ih (k.free r (dev.resource r))
      obtain ⟨hreq',hfree⟩ := k.free_log r (dev.resource r) a
      have hown : (a.1 = r ∧ dev.resource r = some a.2) ↔ (a.1 = r ∧ a ∈ dev.owns) := by
        rw [Draft.mem_owns]
        exact and_congr_right fun hr => by rw [hr]
      refine ⟨hreq.trans hreq',?_⟩
      rw [freeKinds,hlog,hfree,hown,List.mem_cons,or_assoc,← or_and_right]

theorem freeUsbNr_log (dev : Draft) (k : Kernel) (a : Allocation) :
    (freeUsbNr dev k).requests = k.requests ∧
      (.released a ∈ (freeUsbNr dev k).log ↔ .released a ∈ k.log ∨ a ∈ dev.owns) := by
  obtain ⟨hreq,hlog⟩ := freeKinds_log dev freeOrder k a
  rw [freeUsbNr_eq,hlog,and_iff_right_of_imp mem_freeOrder]
  exact ⟨hreq,Iff.rfl⟩

/-- A part of `nr_probe` reaches `Q`, or its error label with `E`. -/
def Ends (E Q : Site → Prop) : Except Site Site → Prop
  | .ok s => Q s
  | .error s => E s

@[simp] theorem ends_ok {E Q : Site → Prop} {s : Site} : Ends E Q (.ok s) ↔ Q s := Iff.rfl

@[simp] theorem ends_error {E Q : Site → Prop} {s : Site} : Ends E Q (.error s) ↔ E s := Iff.rfl

theorem Ends.bind {E Q R : Site → Prop} {x : Except Site Site} {f : Site → Except Site Site}
    (hx : Ends E Q x) (hf : ∀ s, Q s → Ends E R (f s)) : Ends E R (x >>= f) := by
  cases x with
  | ok s => exact hf s hx
  | error s => exact hx

theorem Ends.imp {E Q R : Site → Prop} {x : Except Site Site} (hx : Ends E Q x)
    (hQ : ∀ s, Q s → R s) : Ends E R x := by
  cases x with
  | ok s => exact hQ s hx
  | error s => exact hx

theorem Ends.also {E E' Q Q' : Site → Prop} {x : Except Site Site} (hx : Ends E Q x)
    (hx' : Ends E' Q' x) : Ends E (fun s => Q s ∧ Q' s) x := by
  cases x with
  | ok s => exact ⟨hx,hx'⟩
  | error s => exact hx

/-- Since the kernel `k₀`, exactly what the record points to was acquired and
not released. -/
structure Owes (k₀ : Kernel) (s : Site) : Prop where
  ok : s.kernel.Ok
  later : k₀.requests ≤ s.kernel.requests
  held : held s.kernel.log = held k₀.log ∪ s.dev.owns
  fresh : ∀ a ∈ s.dev.owns, k₀.requests ≤ a.2

namespace Owes
variable {k₀ : Kernel} {s : Site} {dev : Draft} {r : Resource}

theorem grant (h : Owes k₀ s) (hnull : s.dev.resource r = none)
    (hr : dev.resource r = some s.kernel.requests)
    (hothers : ∀ q, q ≠ r → dev.resource q = s.dev.resource q) :
    Owes k₀ ⟨dev,s.kernel.grant r⟩ := by
  have howns : dev.owns = insert (r,s.kernel.requests) s.dev.owns := by
    ext ⟨q,n⟩
    simp only [Draft.mem_owns,Set.mem_insert_iff,Prod.mk.injEq]
    by_cases hq : q = r
    · subst hq
      simp [hr,hnull,eq_comm]
    · simp [hothers q hq,hq]
  refine ⟨h.ok.grant r,Nat.le_succ_of_le h.later,?_,?_⟩
  · rw [h.ok.held_grant,h.held,howns,Set.union_insert]
  · intro a ha
    rw [howns] at ha
    rcases ha with rfl | ha
    · exact h.later
    · exact h.fresh a ha

theorem refuse (h : Owes k₀ s) (hsame : dev.resource = s.dev.resource) :
    Owes k₀ ⟨dev,s.kernel.refuse⟩ := by
  have howns : dev.owns = s.dev.owns := by simp only [Draft.owns,hsame]
  exact ⟨h.ok.refuse,Nat.le_succ_of_le h.later,by rw [howns]; exact h.held,
    by rw [howns]; exact h.fresh⟩

theorem freed (h : Owes k₀ s) (h₀ : k₀.Ok) :
    (freeUsbNr s.dev s.kernel).Ok ∧
      Ledger.held (freeUsbNr s.dev s.kernel).log = Ledger.held k₀.log := by
  obtain ⟨hok,hheld⟩ := freeUsbNr_spec h.ok (by rw [h.held]; exact Set.subset_union_right)
  refine ⟨hok,?_⟩
  rw [hheld,h.held,Set.union_sdiff_right]
  ext a
  refine ⟨fun ha => ha.1,fun ha => ⟨ha,fun hown => ?_⟩⟩
  exact Nat.not_lt.mpr (h.fresh a hown) (h₀.held_below ha)

end Owes

/-- What the requests of `nr_probe` keep: a granted one whose name is stored in
a null pointer, and a refused one that leaves the pointers as they are. -/
structure Stable (J : Site → Prop) : Prop where
  grant : ∀ {s : Site} {dev : Draft} {r : Resource}, J s → s.dev.resource r = none →
    dev.resource r = some s.kernel.requests →
    (∀ q, q ≠ r → dev.resource q = s.dev.resource q) → J ⟨dev,s.kernel.grant r⟩
  refuse : ∀ {s : Site} {dev : Draft}, J s → dev.resource = s.dev.resource →
    J ⟨dev,s.kernel.refuse⟩

theorem Owes.stable (k₀ : Kernel) : Stable (Owes k₀) := ⟨Owes.grant,Owes.refuse⟩

theorem stable_true : Stable fun _ => True := ⟨fun _ _ _ _ => trivial,fun _ _ => trivial⟩

/-- The first interrupt endpoint of the list, with a buffer of its packet size. -/
structure Paired (host : Host) (d : Direction) (endpoints : List EndpointDescriptor) (h : Half) :
    Prop where
  endpoint : h.endpoint = endpoints.find? (host.isInt d)
  null : h.endpoint = none → h.buffer = none
  sized : ∀ e, h.endpoint = some e → ∃ b, h.buffer = some b ∧ b.size = e.packetSize

/-- The record within the loop, when the two tests have seen these parts of the
list. -/
structure Scanned (host : Host) (seen : Direction → List EndpointDescriptor) (dev : Draft) :
    Prop where
  half : ∀ d, Paired host d (seen d) (dev.half d)
  urb : ∀ d, (dev.half d).urb = none
  usbdev : dev.usbdev ≠ none

section Scan
variable {J : Site → Prop} {host : Host} {s : Site} {seen : Direction → List EndpointDescriptor}

theorem Scanned.skip (hs : Scanned host seen s.dev) {d : Direction} {e : EndpointDescriptor}
    (h : (s.dev.half d).endpoint ≠ none ∨ host.isInt d e = false) :
    Scanned host (Function.update seen d (seen d ++ [e])) s.dev := by
  refine { hs with half := fun f => ?_ }
  by_cases hf : f = d
  · subst hf
    refine { hs.half f with endpoint := ?_ }
    rw [Function.update_self,List.find?_append,← (hs.half f).endpoint]
    cases hx : (s.dev.half f).endpoint with
    | some x => rfl
    | none =>
        have he : host.isInt f e = false := h.resolve_left (by simp [hx])
        simp [he]
  · rw [Function.update_of_ne hf]
    exact hs.half f

theorem Scanned.take (hs : Scanned host seen s.dev) {d : Direction} {e : EndpointDescriptor}
    (hnull : (s.dev.half d).endpoint = none) (he : host.isInt d e = true) (id : ℕ) :
    Scanned host (Function.update seen d (seen d ++ [e]))
      (s.dev.setHalf d
        { s.dev.half d with endpoint := some e, buffer := some ⟨id,e.packetSize⟩ }) := by
  have hnone : (seen d).find? (host.isInt d) = none := by rw [← (hs.half d).endpoint,hnull]
  refine ⟨fun f => ?_,fun f => ?_,by simpa using hs.usbdev⟩
  · by_cases hf : f = d
    · subst hf
      rw [Function.update_self,Draft.half_setHalf]
      refine ⟨by simp [hnone,he],by simp,fun x hx => ⟨_,rfl,?_⟩⟩
      cases hx
      rfl
    · rw [Function.update_of_ne hf,Draft.half_setHalf_ne _ _ hf]
      exact hs.half f
  · by_cases hf : f = d
    · subst hf
      simpa using hs.urb f
    · simpa [hf] using hs.urb f

theorem takeEndpoint_ends (d : Direction) (e : EndpointDescriptor) (hJ : Stable J) (h : J s)
    (hs : Scanned host seen s.dev) :
    Ends J
      (fun s' => J s' ∧ Scanned host (Function.update seen d (seen d ++ [e])) s'.dev)
      (takeEndpoint host d e s) := by
  unfold takeEndpoint
  by_cases htake : (s.dev.half d).endpoint.isNone = true ∧ host.isInt d e = true
  · obtain ⟨hnull,he⟩ := htake
    rw [if_pos (by simp [hnull,he])]
    have hnull : (s.dev.half d).endpoint = none := by simpa using hnull
    have hbuf := (hs.half d).null hnull
    rcases s.kernel.request_cases host (.buffer d) with hr | hr
    · simp only [hr,Option.map_some,Option.isNone_some,Bool.false_eq_true,if_false,ends_ok]
      refine ⟨hJ.grant h (r := .buffer d) ?_ ?_ ?_,hs.take hnull he _⟩
      · simp [Draft.resource,hbuf]
      · simp [Draft.resource]
      · intro q hq
        apply Draft.resource_setHalf_buffer _ hq
        rfl
    · simp only [hr,Option.map_none,Option.isNone_none,if_true,ends_error]
      refine hJ.refuse h (funext fun q => ?_)
      by_cases hq : q = .buffer d
      · subst hq
        simp [Draft.resource,hbuf]
      · apply Draft.resource_setHalf_buffer _ hq
        rfl
  · rw [if_neg (by simpa using htake),ends_ok]
    refine ⟨h,hs.skip ?_⟩
    by_cases hnull : (s.dev.half d).endpoint = none
    · exact .inr (by simpa [hnull] using htake)
    · exact .inl hnull

theorem scanEndpoints_ends (endpoints : List EndpointDescriptor) (hJ : Stable J) (h : J s)
    (hs : Scanned host seen s.dev) :
    Ends J (fun s' => J s' ∧ Scanned host (fun d => seen d ++ endpoints) s'.dev)
      (scanEndpoints host endpoints s) := by
  induction endpoints generalizing s seen with
  | nil => simpa [scanEndpoints] using ⟨h,hs⟩
  | cons e rest ih =>
      refine (takeEndpoint_ends .input e hJ h hs).bind fun s₁ h₁ => ?_
      refine (takeEndpoint_ends .output e hJ h₁.1 h₁.2).bind fun s₂ h₂ => ?_
      have hseen : (fun d => seen d ++ e :: rest) = fun d =>
          Function.update (Function.update seen .input (seen .input ++ [e])) .output
            (Function.update seen .input (seen .input ++ [e]) .output ++ [e]) d ++ rest := by
        funext d
        cases d <;> simp
      rw [hseen]
      exact ih h₂.1 h₂.2

theorem checkEndpoints_ends {endpoints : List EndpointDescriptor} (h : J s)
    (hs : Scanned host (fun _ => endpoints) s.dev) :
    Ends J (fun s' => J s' ∧ Scanned host (fun _ => endpoints) s'.dev ∧
      ∀ d, (s'.dev.half d).endpoint ≠ none) (checkEndpoints s) := by
  unfold checkEndpoints
  split_ifs with hin hout
  · exact h
  · exact h
  · refine ⟨h,hs,fun d => ?_⟩
    cases d with
    | input => simpa [Draft.half] using hin
    | output => simpa [Draft.half] using hout

theorem allocUrb_ends (d : Direction) (hJ : Stable J) (h : J s)
    (hnull : (s.dev.half d).urb = none) :
    Ends J (fun s' => J s' ∧
      ∃ n, s'.dev = s.dev.setHalf d { s.dev.half d with urb := some n }) (allocUrb host d s) := by
  unfold allocUrb
  rcases s.kernel.request_cases host (.urb d) with hr | hr
  · simp only [hr,Option.isNone_some,Bool.false_eq_true,if_false,ends_ok]
    refine ⟨hJ.grant h (r := .urb d) ?_ ?_ ?_,_,rfl⟩
    · simpa [Draft.resource] using hnull
    · simp [Draft.resource]
    · intro q hq
      apply Draft.resource_setHalf_urb _ hq
      rfl
  · simp only [hr,Option.isNone_none,if_true,ends_error]
    refine hJ.refuse h (funext fun q => ?_)
    by_cases hq : q = .urb d
    · subst hq
      simp [Draft.resource,hnull]
    · apply Draft.resource_setHalf_urb _ hq
      rfl

end Scan

/-- A record with no null pointer: each half has the first endpoint of its kind
in the list and a buffer of that endpoint's packet size. -/
structure Built (host : Host) (endpoints : List EndpointDescriptor) (dev : Draft) : Prop where
  half : ∀ d, ∃ e b n, dev.half d = ⟨some e,some b,some n⟩ ∧
    endpoints.find? (host.isInt d) = some e ∧ b.size = e.packetSize
  usbdev : dev.usbdev ≠ none

theorem Built.resource {host : Host} {endpoints : List EndpointDescriptor} {dev : Draft}
    (h : Built host endpoints dev) {r : Resource} (hr : r ≠ .minor) :
    ∃ n, dev.resource r = some n := by
  cases r with
  | record => exact ⟨_,rfl⟩
  | usbdevRef => exact Option.ne_none_iff_exists'.mp h.usbdev
  | minor => exact (hr rfl).elim
  | buffer d =>
      obtain ⟨e,b,n,hd,_⟩ := h.half d
      exact ⟨b.id,by simp [Draft.resource,hd]⟩
  | urb d =>
      obtain ⟨e,b,n,hd,_⟩ := h.half d
      exact ⟨n,by simp [Draft.resource,hd]⟩

theorem Scanned.built {host : Host} {endpoints : List EndpointDescriptor} {dev : Draft}
    (hs : Scanned host (fun _ => endpoints) dev) (he : ∀ d, (dev.half d).endpoint ≠ none)
    (n m : ℕ) :
    Built host endpoints
      ((dev.setHalf .input { dev.intIn with urb := some n }).setHalf .output
        { dev.intOut with urb := some m }) := by
  have pair (d : Direction) (u : ℕ) : ∃ e b, (dev.half d).endpoint = some e ∧
      (dev.half d).buffer = some b ∧ endpoints.find? (host.isInt d) = some e ∧
        b.size = e.packetSize := by
    obtain ⟨e,hd⟩ := Option.ne_none_iff_exists'.mp (he d)
    obtain ⟨b,hb,hsize⟩ := (hs.half d).sized e hd
    exact ⟨e,b,hd,hb,by rw [← (hs.half d).endpoint,hd],hsize⟩
  refine ⟨fun d => ?_,by simpa using hs.usbdev⟩
  cases d with
  | input =>
      obtain ⟨e,b,hd,hb,hfind,hsize⟩ := pair .input n
      refine ⟨e,b,n,?_,hfind,hsize⟩
      simp only [Draft.half] at hd hb
      simp [hd,hb]
  | output =>
      obtain ⟨e,b,hd,hb,hfind,hsize⟩ := pair .output m
      refine ⟨e,b,m,?_,hfind,hsize⟩
      simp only [Draft.half] at hd hb
      simp [hd,hb]

theorem getUsbDev_scanned (host : Host) {J : Site → Prop} {s : Site} (hJ : Stable J) (h : J s)
    {record : ℕ} (hs : s.dev = .kzalloc record) :
    J (getUsbDev s) ∧ Scanned host (fun _ => []) (getUsbDev s).dev := by
  constructor
  · refine hJ.grant h (r := .usbdevRef) (by simp [hs,Draft.resource,Draft.kzalloc]) rfl ?_
    intro q hq
    cases q with
    | usbdevRef => exact (hq rfl).elim
    | buffer d | urb d => cases d <;> rfl
    | _ => rfl
  · have hhalf (d : Direction) : (getUsbDev s).dev.half d = ⟨none,none,none⟩ := by
      cases d <;> simp [getUsbDev,hs,Draft.kzalloc,Draft.half]
    refine ⟨fun d => ?_,fun d => by rw [hhalf],by simp [getUsbDev]⟩
    rw [hhalf]
    exact ⟨rfl,fun _ => rfl,fun e he => by cases he⟩

theorem buildNr_ends (host : Host) (endpoints : List EndpointDescriptor) {J : Site → Prop}
    {s : Site} (hJ : Stable J) (h : J s) {record : ℕ} (hs : s.dev = .kzalloc record) :
    Ends J (fun s' => J s' ∧ Built host endpoints s'.dev)
      (buildNr host endpoints s) := by
  obtain ⟨hstart,hscan⟩ := getUsbDev_scanned host hJ h hs
  refine (scanEndpoints_ends endpoints hJ hstart hscan).bind fun s₁ h₁ => ?_
  refine (checkEndpoints_ends h₁.1 h₁.2).bind fun s₂ h₂ => ?_
  obtain ⟨hJ₂,hs₂,he⟩ := h₂
  refine (allocUrb_ends .input hJ hJ₂ (hs₂.urb .input)).bind fun s₃ h₃ => ?_
  obtain ⟨hJ₃,n,hn⟩ := h₃
  have hurb : (s₃.dev.half .output).urb = none := by simpa [hn] using hs₂.urb .output
  refine (allocUrb_ends .output hJ hJ₃ hurb).imp fun s₄ h₄ => ?_
  obtain ⟨hJ₄,m,hm⟩ := h₄
  refine ⟨hJ₄,?_⟩
  rw [hm,hn]
  exact hs₂.built he n m

/-- The record of a successful probe has a packet-sized buffer for each of its
endpoints and is otherwise as `kzalloc` left it. -/
theorem Built.nr {host : Host} {endpoints : List EndpointDescriptor} {dev : Draft}
    (h : Built host endpoints dev) :
    ∃ epIn epOut bufIn bufOut, endpoints.find? (host.isInt .input) = some epIn ∧
      endpoints.find? (host.isInt .output) = some epOut ∧
      dev.intIn.buffer = some bufIn ∧ dev.intOut.buffer = some bufOut ∧
      bufIn.size = epIn.packetSize ∧ bufOut.size = epOut.packetSize ∧
      dev.nr host =
        some (.probed epIn epOut (host.memory bufIn.id) (host.memory bufOut.id)) := by
  obtain ⟨epIn,bufIn,n,hin,hfindIn,hsizeIn⟩ := h.half .input
  obtain ⟨epOut,bufOut,m,hout,hfindOut,hsizeOut⟩ := h.half .output
  simp only [Draft.half] at hin hout
  refine ⟨epIn,epOut,bufIn,bufOut,hfindIn,hfindOut,by rw [hin],by rw [hout],hsizeIn,hsizeOut,?_⟩
  simp only [Draft.nr,hin,hout,hsizeIn,hsizeOut,UsbNr.probed]

/-- The four ways `nr_probe` ends, from what holds at the two ends of its part
before the publication. -/
theorem nrProbe_ends {host : Host} {endpoints : List EndpointDescriptor} {i i' : Interface}
    {k k' : Kernel} {code : ℤ} (h : nrProbe host endpoints i k = (code,i',k'))
    {E Q : Site → Prop}
    (hbuild : Ends E Q (buildNr host endpoints ⟨.kzalloc k.requests,k.grant .record⟩)) :
    (code < 0 ∧ i' = i ∧ k' = k.refuse) ∨
    (∃ s, E s ∧ code < 0 ∧ i' = i ∧ k' = freeUsbNr s.dev s.kernel) ∨
    (∃ s, Q s ∧ code < 0 ∧ i' = { i with data := none } ∧
      k' = freeUsbNr s.dev s.kernel.refuse) ∨
    ∃ s, Q s ∧ code = 0 ∧ i' = ⟨some s.dev,some s.kernel.requests⟩ ∧
      k' = s.kernel.grant .minor := by
  unfold nrProbe at h
  rcases k.request_cases host .record with hr | hr
  · rw [hr] at h
    simp only at h
    cases hb : buildNr host endpoints ⟨.kzalloc k.requests,k.grant .record⟩ with
    | error s =>
        rw [hb] at h hbuild
        cases h
        exact .inr (.inl ⟨s,hbuild,by decide,rfl,rfl⟩)
    | ok s =>
        rw [hb] at h hbuild
        simp only [usbRegisterDev] at h
        by_cases hans : host.answer s.kernel.requests = 0
        · rw [if_pos hans] at h
          simp only [ne_eq,not_true,if_false] at h
          cases h
          exact .inr (.inr (.inr ⟨s,hbuild,rfl,rfl,rfl⟩))
        · rw [if_neg hans] at h
          have hcode : -(host.answer s.kernel.requests : ℤ) < 0 := by omega
          simp only [ne_eq,Int.ne_of_lt hcode,not_false_iff,if_true] at h
          cases h
          exact .inr (.inr (.inl ⟨s,hbuild,hcode,rfl,rfl⟩))
  · rw [hr] at h
    cases h
    exact .inl ⟨by decide,rfl,rfl⟩

theorem nrProbe_cases {host : Host} {endpoints : List EndpointDescriptor} {i i' : Interface}
    {k k' : Kernel} {code : ℤ} (h : nrProbe host endpoints i k = (code,i',k'))
    {J : Site → Prop} (hJ : Stable J) (hstart : J ⟨.kzalloc k.requests,k.grant .record⟩) :
    (code < 0 ∧ i' = i ∧ k' = k.refuse) ∨
    (∃ s, J s ∧ code < 0 ∧ i' = i ∧ k' = freeUsbNr s.dev s.kernel) ∨
    (∃ s, J s ∧ code < 0 ∧ i' = { i with data := none } ∧
      k' = freeUsbNr s.dev s.kernel.refuse) ∨
    ∃ s, J s ∧ Built host endpoints s.dev ∧ code = 0 ∧
      i' = ⟨some s.dev,some s.kernel.requests⟩ ∧ k' = s.kernel.grant .minor := by
  rcases nrProbe_ends h (buildNr_ends host endpoints hJ hstart rfl) with
    hrefused | hfailed | ⟨s,hs,hunregistered⟩ | ⟨s,hs,hregistered⟩
  · exact .inl hrefused
  · exact .inr (.inl hfailed)
  · exact .inr (.inr (.inl ⟨s,hs.1,hunregistered⟩))
  · exact .inr (.inr (.inr ⟨s,hs.1,hs.2,hregistered⟩))

theorem nrProbe_built {host : Host} {endpoints : List EndpointDescriptor} {i i' : Interface}
    {k k' : Kernel} (h : nrProbe host endpoints i k = (0,i',k')) :
    ∃ dev n, i' = ⟨some dev,some n⟩ ∧ Built host endpoints dev := by
  rcases nrProbe_cases h stable_true trivial with
    ⟨hneg,_⟩ | ⟨_,_,hneg,_⟩ | ⟨_,_,hneg,_⟩ | ⟨s,_,hbuilt,_,rfl,_⟩
  · cases hneg
  · cases hneg
  · cases hneg
  · exact ⟨s.dev,_,rfl,hbuilt⟩

theorem owns_kzalloc (record : ℕ) : (Draft.kzalloc record).owns = {(.record,record)} := by
  ext ⟨r,n⟩
  cases r with
  | buffer d | urb d => cases d <;> simp [Draft.owns,Draft.resource,Draft.kzalloc,Draft.half]
  | _ => simp [Draft.owns,Draft.resource,Draft.kzalloc,eq_comm]

theorem owes_kzalloc {k : Kernel} (hk : k.Ok) :
    Owes k ⟨.kzalloc k.requests,k.grant .record⟩ := by
  refine ⟨hk.grant _,Nat.le_succ _,?_,?_⟩
  · rw [hk.held_grant,owns_kzalloc,Set.union_singleton]
  · rw [owns_kzalloc]
    intro a ha
    rw [Set.mem_singleton_iff.mp ha]

/-- On a fresh interface `nr_probe` either gives back everything and leaves the
interface alone, or the interface owns one whole record and its minor. -/
theorem nrProbe_spec {host : Host} {endpoints : List EndpointDescriptor} {k : Kernel} (hk : k.Ok)
    {code : ℤ} {i' : Interface} {k' : Kernel}
    (h : nrProbe host endpoints .fresh k = (code,i',k')) :
    k'.Ok ∧ ((code < 0 ∧ i' = .fresh ∧ held k'.log = held k.log) ∨
      (code = 0 ∧ ∃ dev n, i' = ⟨some dev,some n⟩ ∧ Built host endpoints dev ∧
        held k'.log = held k.log ∪ i'.owns ∧ ∀ a ∈ i'.owns, k.requests ≤ a.2)) := by
  rcases nrProbe_cases h (Owes.stable k) (owes_kzalloc hk) with
    ⟨hneg,rfl,rfl⟩ | ⟨s,hs,hneg,rfl,rfl⟩ | ⟨s,hs,hneg,rfl,rfl⟩ | ⟨s,hs,hbuilt,rfl,rfl,rfl⟩
  · exact ⟨hk.refuse,.inl ⟨hneg,rfl,rfl⟩⟩
  · obtain ⟨hok,hheld⟩ := hs.freed hk
    exact ⟨hok,.inl ⟨hneg,rfl,hheld⟩⟩
  · have hs' : Owes k ⟨s.dev,s.kernel.refuse⟩ := hs.refuse rfl
    obtain ⟨hok,hheld⟩ := hs'.freed hk
    exact ⟨hok,.inl ⟨hneg,rfl,hheld⟩⟩
  · refine ⟨hs.ok.grant _,.inr ⟨rfl,_,_,rfl,hbuilt,?_,?_⟩⟩
    · rw [hs.ok.held_grant,hs.held,Interface.owns_mk,← Set.union_assoc,← Set.union_singleton]
      congr 1
      ext ⟨r,n⟩
      simp [eq_comm]
    · intro a ha
      rw [Interface.owns_mk] at ha
      rcases ha with ha | ⟨_,ha⟩
      · exact hs.fresh a ha
      · rw [← Option.some.inj ha]
        exact hs.later

theorem nrDisconnect_spec {i : Interface} {k : Kernel} (hk : k.Ok) (hown : i.owns ⊆ held k.log) :
    (nrDisconnect i k).1 = .fresh ∧ (nrDisconnect i k).2.Ok ∧
      held (nrDisconnect i k).2.log = held k.log \ i.owns := by
  have minor {k : Kernel} (hk : k.Ok) (m : Option ℕ)
      (hm : ∀ n, m = some n → (.minor,n) ∈ held k.log) := hk.free .minor m hm
  obtain ⟨data,m⟩ := i
  cases data with
  | none =>
      obtain ⟨hok,hheld⟩ := minor hk m fun n hn => hown hn
      refine ⟨rfl,hok,?_⟩
      rw [nrDisconnect,usbDeregisterDev,hheld]
      congr 1
      ext ⟨r,n⟩
      cases r <;> simp [Interface.owns,Interface.resource]
  | some dev =>
      rw [Interface.owns_mk] at hown ⊢
      obtain ⟨hok,hheld⟩ := freeUsbNr_spec hk (Set.Subset.trans Set.subset_union_left hown)
      have hm (n : ℕ) (hn : m = some n) : (.minor,n) ∈ held (freeUsbNr dev k).log := by
        rw [hheld]
        refine ⟨hown (.inr ⟨rfl,hn⟩),fun hd => ?_⟩
        cases hd
      obtain ⟨hok',hheld'⟩ := minor hok m hm
      refine ⟨rfl,hok',?_⟩
      rw [nrDisconnect,usbDeregisterDev,hheld',hheld,Set.sdiff_sdiff]

end NrDriver.ProbeOutcome
