import NrDriver.ProbeOutcome
import NrDriver.StepDrivers

/-!
# The interleaved scan and the plain one

`nr_probe` of `nr_driver.c` allocates a buffer in the middle of its search and
leaves the loop when it is refused one; `driver_endpoints.c` searches without
allocating. On every list of endpoints the final driver succeeds exactly when the
plain scan finds both directions and none of the requests of the probe is
refused, and then it has the same two endpoints.
-/
namespace NrDriver.ScanAgreement
open KernelModel ProbeModel ProbeOutcome Ledger
open TransferSteps (canIn canOut)
open StepDrivers (EndpointRecord scanEndpoints_endpoint)

/-- Every request between the two kernels was granted. -/
def AllGranted (k₀ k : Kernel) : Prop :=
  ∀ n, k₀.requests ≤ n → n < k.requests → ∃ r, .acquired (r,n) ∈ k.log

/-- No request of the probe has been refused so far. -/
structure Clean (k₀ : Kernel) (s : Site) : Prop where
  ok : s.kernel.Ok
  later : k₀.requests ≤ s.kernel.requests
  granted : AllGranted k₀ s.kernel

theorem Clean.start {k : Kernel} (hk : k.Ok) (dev : Draft) : Clean k ⟨dev,k⟩ :=
  ⟨hk,Nat.le_refl _,fun _ hn hlt => (Nat.not_lt.mpr hn hlt).elim⟩

theorem Clean.grant {k₀ : Kernel} {s : Site} (h : Clean k₀ s) (dev : Draft) (r : Resource) :
    Clean k₀ ⟨dev,s.kernel.grant r⟩ := by
  refine ⟨h.ok.grant r,Nat.le_succ_of_le h.later,fun n hn hlt => ?_⟩
  rcases Nat.lt_succ_iff_lt_or_eq.mp hlt with hlt | rfl
  · obtain ⟨q,hq⟩ := h.granted n hn hlt
    exact ⟨q,List.mem_append_left _ hq⟩
  · exact ⟨r,List.mem_append_right _ (List.mem_singleton_self _)⟩

theorem Clean.refused {k₀ : Kernel} {s : Site} (h : Clean k₀ s) :
    ¬ AllGranted k₀ s.kernel.refuse := by
  intro hall
  obtain ⟨r,hr⟩ := hall s.kernel.requests h.later (Nat.lt_succ_self _)
  exact Nat.lt_irrefl _ (h.ok.below _ hr)

section Probe
variable {host : Host} {k₀ : Kernel} {s : Site} {E : Site → Prop}

theorem takeEndpoint_clean (hE : ∀ s, ¬ AllGranted k₀ s.kernel → E s) (d : Direction)
    (e : EndpointDescriptor) (h : Clean k₀ s) : Ends E (Clean k₀) (takeEndpoint host d e s) := by
  unfold takeEndpoint
  split_ifs
  · rcases s.kernel.request_cases host (.buffer d) with hr | hr
    · simp only [hr,Option.map_some,Option.isNone_some,Bool.false_eq_true,if_false,ends_ok]
      exact h.grant _ _
    · simp only [hr,Option.map_none,Option.isNone_none,if_true,ends_error]
      exact hE _ h.refused
  · exact h

theorem scanEndpoints_clean (hE : ∀ s, ¬ AllGranted k₀ s.kernel → E s)
    (endpoints : List EndpointDescriptor) (h : Clean k₀ s) :
    Ends E (Clean k₀) (scanEndpoints host endpoints s) := by
  induction endpoints generalizing s with
  | nil => exact h
  | cons e rest ih =>
      refine (takeEndpoint_clean hE .input e h).bind fun s₁ h₁ => ?_
      exact (takeEndpoint_clean hE .output e h₁).bind fun s₂ h₂ => ih h₂

theorem allocUrb_clean (hE : ∀ s, ¬ AllGranted k₀ s.kernel → E s) (d : Direction)
    (h : Clean k₀ s) : Ends E (Clean k₀) (allocUrb host d s) := by
  unfold allocUrb
  rcases s.kernel.request_cases host (.urb d) with hr | hr
  · simp only [hr,Option.isNone_some,Bool.false_eq_true,if_false,ends_ok]
    exact h.grant _ _
  · simp only [hr,Option.isNone_none,if_true,ends_error]
    exact hE _ h.refused

theorem buildNr_clean {endpoints : List EndpointDescriptor} {record : ℕ}
    (h : Clean k₀ ⟨.kzalloc record,s.kernel⟩) :
    Ends (fun s => ¬ AllGranted k₀ s.kernel ∨ ∃ d, endpoints.find? (host.isInt d) = none)
      (Clean k₀) (buildNr host endpoints ⟨.kzalloc record,s.kernel⟩) := by
  have hE (s : Site) (hs : ¬ AllGranted k₀ s.kernel) :
      ¬ AllGranted k₀ s.kernel ∨ ∃ d, endpoints.find? (host.isInt d) = none := .inl hs
  obtain ⟨-,hscanned⟩ := getUsbDev_scanned host (s := ⟨.kzalloc record,s.kernel⟩) stable_true
    trivial rfl
  refine ((scanEndpoints_clean hE endpoints (h.grant _ .usbdevRef)).also
    (scanEndpoints_ends endpoints stable_true trivial hscanned)).bind fun s₁ h₁ => ?_
  obtain ⟨hclean,-,hs₁⟩ := h₁
  have hchecked : Ends (fun s => ¬ AllGranted k₀ s.kernel ∨
      ∃ d, endpoints.find? (host.isInt d) = none) (Clean k₀) (checkEndpoints s₁) := by
    have missing (d : Direction) (hd : (s₁.dev.half d).endpoint = none) :
        endpoints.find? (host.isInt d) = none := by
      rw [← hd]
      simpa using (hs₁.half d).endpoint.symm
    unfold checkEndpoints
    split_ifs with hin hout
    · exact .inr ⟨.input,missing .input (by simpa [Draft.half] using hin)⟩
    · exact .inr ⟨.output,missing .output (by simpa [Draft.half] using hout)⟩
    · exact hclean
  refine hchecked.bind fun s₂ h₂ => ?_
  exact (allocUrb_clean hE .input h₂).bind fun s₃ h₃ => allocUrb_clean hE .output h₃

end Probe

/-- What was acquired since the kernel `k₀` is what the record points to. -/
def Recorded (k₀ : Kernel) (s : Site) : Prop :=
  ∀ r n, k₀.requests ≤ n → (.acquired (r,n) ∈ s.kernel.log ↔ s.dev.resource r = some n)

theorem recorded_stable (k₀ : Kernel) : Stable (Recorded k₀) := by
  constructor
  · intro s dev r h hnull hr hothers q n hn
    have hold := h q n hn
    by_cases hq : q = r
    · subst hq
      simp only [hnull,reduceCtorEq,iff_false] at hold
      simp [Kernel.grant,hold,hr,eq_comm]
    · simp [Kernel.grant,hold,hq,hothers q hq]
  · intro s dev h hsame
    simpa only [Recorded,Kernel.refuse,hsame] using h

theorem recorded_kzalloc {k : Kernel} (hk : k.Ok) :
    Recorded k ⟨.kzalloc k.requests,k.grant .record⟩ := by
  intro r n hn
  have hold : .acquired (r,n) ∉ k.log := fun hmem => Nat.not_lt.mpr hn (hk.below _ hmem)
  have howned : (.kzalloc k.requests : Draft).resource r = some n ↔
      r = .record ∧ n = k.requests := by
    have hmem : (r,n) ∈ (.kzalloc k.requests : Draft).owns ↔
      (.kzalloc k.requests : Draft).resource r = some n := Draft.mem_owns
    rw [owns_kzalloc] at hmem
    simpa [eq_comm] using hmem.symm
  rw [howned]
  simp [Kernel.grant,hold]

theorem freeUsbNr_acquired (dev : Draft) (k : Kernel) (a : Allocation) :
    .acquired a ∈ (freeUsbNr dev k).log ↔ .acquired a ∈ k.log := by
  have one (k : Kernel) (r : Resource) (id : Option ℕ) :
      .acquired a ∈ (k.free r id).log ↔ .acquired a ∈ k.log := by
    cases id <;> simp [Kernel.free]
  simp only [freeUsbNr,one]

theorem allGranted_freed {k₀ k : Kernel} {dev : Draft} :
    AllGranted k₀ (freeUsbNr dev k) ↔ AllGranted k₀ k := by
  unfold AllGranted
  rw [(freeUsbNr_log dev k (.record,0)).1]
  simp only [freeUsbNr_acquired]

/-- The record that `driver_endpoints.c` would fill from the list. -/
def plainScan (host : Host) (endpoints : List EndpointDescriptor) : EndpointRecord :=
  StepDrivers.scanEndpoints host.isInt endpoints { EndpointRecord.kzalloc with test := 3 }

theorem plainScan_endpoint (host : Host) (endpoints : List EndpointDescriptor) (d : Direction) :
    (plainScan host endpoints).endpoint d = endpoints.find? (host.isInt d) := by
  rw [plainScan,scanEndpoints_endpoint]
  cases d <;> rfl

/-- `nr_probe` returns zero exactly when the plain scan finds both endpoints and
no request is refused. Its record then has the endpoints of the plain scan, with
one buffer for each, of the packet size. -/
theorem probe_agrees_with_plain_scan {host : Host} {endpoints : List EndpointDescriptor}
    {i i' : Interface} {k k' : Kernel} {code : ℤ} (hk : k.Ok)
    (h : nrProbe host endpoints i k = (code,i',k')) :
    (code = 0 ↔ (∀ d, (plainScan host endpoints).endpoint d ≠ none) ∧ AllGranted k k') ∧
    (code ≠ 0 → code < 0) ∧
    (code = 0 → ∃ dev n, i' = ⟨some dev,some n⟩ ∧ ∀ d, ∃ e b,
      (dev.half d).endpoint = some e ∧ (plainScan host endpoints).endpoint d = some e ∧
      endpoints.find? (host.isInt d) = some e ∧ (dev.half d).buffer = some b ∧
      b.size = e.packetSize ∧
      ∀ m, k.requests ≤ m → (.acquired (.buffer d,m) ∈ k'.log ↔ m = b.id)) := by
  have hunasked : Clean k ⟨.kzalloc k.requests,k⟩ := .start hk _
  have hstart : Clean k ⟨.kzalloc k.requests,k.grant .record⟩ := hunasked.grant _ _
  have hclean : Ends (fun s => ¬ AllGranted k s.kernel ∨ ∃ d, endpoints.find? (host.isInt d) = none)
      (Clean k) (buildNr host endpoints ⟨.kzalloc k.requests,k.grant .record⟩) :=
    buildNr_clean (s := ⟨.kzalloc k.requests,k.grant .record⟩) hstart
  have hbuild := hclean.also
    (buildNr_ends host endpoints (recorded_stable k) (recorded_kzalloc hk) rfl)
  simp only [plainScan_endpoint]
  -- a negative value, when something is missing or refused
  have fails (hneg : code < 0) (hwhy : ¬ AllGranted k k' ∨
      ∃ d, endpoints.find? (host.isInt d) = none) :
      (code = 0 ↔ (∀ d, endpoints.find? (host.isInt d) ≠ none) ∧ AllGranted k k') := by
    constructor
    · intro hzero
      omega
    · intro hall
      rcases hwhy with hrefused | ⟨d,hd⟩
      · exact (hrefused hall.2).elim
      · exact (hall.1 d hd).elim
  rcases nrProbe_ends h hbuild with
    ⟨hneg,-,rfl⟩ | ⟨s,hs,hneg,-,rfl⟩ | ⟨s,hs,hneg,-,rfl⟩ | ⟨s,hs,rfl,rfl,rfl⟩
  · exact ⟨fails hneg (.inl hunasked.refused),fun _ => hneg,fun hzero => by omega⟩
  · refine ⟨fails hneg ?_,fun _ => hneg,fun hzero => by omega⟩
    rwa [allGranted_freed]
  · refine ⟨fails hneg (.inl ?_),fun _ => hneg,fun hzero => by omega⟩
    rw [allGranted_freed]
    exact hs.1.refused
  · obtain ⟨hclean,hrecorded,hbuilt⟩ := hs
    refine ⟨⟨fun _ => ⟨fun d => ?_,(hclean.grant s.dev .minor).granted⟩,fun _ => rfl⟩,
      fun hne => (hne rfl).elim,fun _ => ⟨s.dev,_,rfl,fun d => ?_⟩⟩
    · obtain ⟨e,b,n,-,hfind,-⟩ := hbuilt.half d
      simp [hfind]
    · obtain ⟨e,b,n,hhalf,hfind,hsize⟩ := hbuilt.half d
      refine ⟨e,b,by rw [hhalf],hfind,hfind,by rw [hhalf],hsize,fun m hm => ?_⟩
      have hacquired := hrecorded (.buffer d) m hm
      simp only [Draft.resource,hhalf,Option.map_some,Option.some.injEq] at hacquired
      simp [Kernel.grant,hacquired,eq_comm]

/-- A bulk endpoint, two interrupt OUT endpoints and an interrupt IN endpoint. -/
def oddOrder : List EndpointDescriptor := [⟨0x82,2,512,0⟩,canOut,⟨0x02,3,8,4⟩,canIn]

theorem odd_order_agrees :
    (nrProbe (canHost fun _ => 0) oddOrder .fresh ⟨0,[]⟩).1 = 0 ∧
      AllGranted ⟨0,[]⟩ (nrProbe (canHost fun _ => 0) oddOrder .fresh ⟨0,[]⟩).2.2 ∧
      (plainScan (canHost fun _ => 0) oddOrder).endpoint .output = some canOut := by
  have hok : (⟨0,[]⟩ : Kernel).Ok := ⟨.nil,fun _ ha => by cases ha⟩
  have hagrees := probe_agrees_with_plain_scan hok
    (show nrProbe (canHost fun _ => 0) oddOrder .fresh ⟨0,[]⟩ = (0,_,_) from rfl)
  exact ⟨rfl,(hagrees.1.mp rfl).2,rfl⟩

end NrDriver.ScanAgreement
