import NrDriver.TransferSteps
import NrDriver.Ledger

/-!
# Probe and disconnect

`nr_probe`, `free_usb_nr` and `nr_disconnect` over a kernel that names every
resource it hands out by the number of the request and keeps the history of
acquisitions and releases. The answers of the kernel come from a `Host`: which
requests are refused, what an allocation finds in memory, and the two tests of
the USB core on a descriptor, which are not code of the driver.

A record under construction is a `Draft`: its pointers are null until they are
assigned. What the driver does once for the in endpoint and once for the out
endpoint is one definition with the direction as parameter. The gotos to the
error label are the errors of `Except`; both outcomes carry the record as it is
at that point, since `free_usb_nr` frees what it finds.
-/
namespace NrDriver.ProbeModel
open KernelModel TransferSteps Ledger

inductive Direction where
  | input | output
  deriving DecidableEq, Repr

inductive Resource where
  | record | usbdevRef | minor
  | buffer (d : Direction)
  | urb (d : Direction)
  deriving DecidableEq, Repr

/-- A resource and the request that was granted it. -/
abbrev Allocation := Resource × ℕ

/-- What lies outside the driver: `usb_endpoint_is_int_in` and
`usb_endpoint_is_int_out`, and the answers of the kernel. Request `n` is granted
when `answer n` is zero and refused otherwise, by `usb_register_dev` with this
errno. -/
structure Host where
  isInt : Direction → EndpointDescriptor → Bool
  answer : ℕ → ℕ
  memory : ℕ → ℕ → Byte

/-- A host with the two tests of the USB core on the fields of a descriptor. -/
def canHost (answer : ℕ → ℕ) : Host where
  isInt d e := e.bmAttributes &&& 3 == 3 &&
    (e.bEndpointAddress &&& 0x80 == match d with | .input => 0x80 | .output => 0)
  answer := answer
  memory _ _ := 0

structure Kernel where
  requests : ℕ
  log : List (Entry Allocation)

namespace Kernel

/-- A granted request. -/
def grant (k : Kernel) (r : Resource) : Kernel :=
  ⟨k.requests + 1,k.log ++ [.acquired (r,k.requests)]⟩

def refuse (k : Kernel) : Kernel := { k with requests := k.requests + 1 }

/-- An allocation: its name, or null. -/
def request (k : Kernel) (host : Host) (r : Resource) : Option ℕ × Kernel :=
  if host.answer k.requests = 0 then (some k.requests,k.grant r) else (none,k.refuse)

/-- Freeing a null pointer or a null URB does nothing. -/
def free (k : Kernel) (r : Resource) : Option ℕ → Kernel
  | none => k
  | some id => { k with log := k.log ++ [.released (r,id)] }

end Kernel

/-- An allocation of a given size. -/
structure Block where
  id : ℕ
  size : ℕ
  deriving DecidableEq, Repr

/-- The fields `int_in_endpoint`, `int_in_buffer` and `int_in_urb`, or their out
counterparts, while `nr_probe` fills them. -/
structure Half where
  endpoint : Option EndpointDescriptor
  buffer : Option Block
  urb : Option ℕ
  deriving DecidableEq, Repr

/-- `struct usb_nr` while `nr_probe` fills it. The fields that `nr_open` resets
are zero from `kzalloc` on and stay so. -/
structure Draft where
  record : ℕ
  usbdev : Option ℕ
  intIn : Half
  intOut : Half
  deriving DecidableEq, Repr

/-- `kzalloc` returns zeroed memory. -/
def Draft.kzalloc (record : ℕ) : Draft := ⟨record,none,⟨none,none,none⟩,⟨none,none,none⟩⟩

def Draft.half (dev : Draft) : Direction → Half
  | .input => dev.intIn
  | .output => dev.intOut

def Draft.setHalf (dev : Draft) (d : Direction) (h : Half) : Draft :=
  match d with
  | .input => { dev with intIn := h }
  | .output => { dev with intOut := h }

/-- The record and the kernel at a point of `nr_probe`. -/
structure Site where
  dev : Draft
  kernel : Kernel

/-- `usb_get_dev` never fails. -/
def getUsbDev (s : Site) : Site :=
  ⟨{ s.dev with usbdev := some s.kernel.requests },s.kernel.grant .usbdevRef⟩

/-- One of the two tests of the loop body. -/
def takeEndpoint (host : Host) (d : Direction) (endpoint : EndpointDescriptor) (s : Site) :
    Except Site Site :=
  if (s.dev.half d).endpoint.isNone && host.isInt d endpoint then
    let r := s.kernel.request host (.buffer d)
    let h := { s.dev.half d with
      endpoint := some endpoint, buffer := r.1.map (⟨·,endpoint.packetSize⟩) }
    let s : Site := ⟨s.dev.setHalf d h,r.2⟩
    if h.buffer.isNone then .error s else .ok s
  else .ok s

/-- The loop over the endpoints of the current setting. -/
def scanEndpoints (host : Host) : List EndpointDescriptor → Site → Except Site Site
  | [], s => .ok s
  | endpoint :: rest, s => do
      let s ← takeEndpoint host .input endpoint s
      let s ← takeEndpoint host .output endpoint s
      scanEndpoints host rest s

/-- The tests after the loop. -/
def checkEndpoints (s : Site) : Except Site Site :=
  if s.dev.intIn.endpoint.isNone then .error s
  else if s.dev.intOut.endpoint.isNone then .error s
  else .ok s

/-- The allocation of `int_in_urb` or of `int_out_urb`. -/
def allocUrb (host : Host) (d : Direction) (s : Site) : Except Site Site :=
  let r := s.kernel.request host (.urb d)
  let h := { s.dev.half d with urb := r.1 }
  let s : Site := ⟨s.dev.setHalf d h,r.2⟩
  if h.urb.isNone then .error s else .ok s

/-- `nr_probe` from the allocation of the record to its publication. -/
def buildNr (host : Host) (endpoints : List EndpointDescriptor) (s : Site) : Except Site Site := do
  let s ← scanEndpoints host endpoints (getUsbDev s)
  let s ← checkEndpoints s
  let s ← allocUrb host .input s
  allocUrb host .output s

/-- The record as `nr_open`, `nr_read` and `nr_write` find it, when no pointer
they follow is null. -/
def Draft.nr (host : Host) (dev : Draft) : Option UsbNr :=
  match dev.intIn, dev.intOut with
  | ⟨some epIn,some bufIn,some _⟩, ⟨some epOut,some bufOut,some _⟩ =>
      some {
        intInEndpoint := epIn
        intOutEndpoint := epOut
        intInUrb := usbAllocUrb
        intOutUrb := usbAllocUrb
        intInBuffer := .kmalloc bufIn.size (host.memory bufIn.id)
        lenInBuffer := 0
        intOutBuffer := .kmalloc bufOut.size (host.memory bufOut.id)
        ongoingRead := false
        outgoingWrite := false }
  | _, _ => none

/-- `free_usb_nr`, in its order. -/
def freeUsbNr (dev : Draft) (k : Kernel) : Kernel :=
  let k := k.free (.urb .input) dev.intIn.urb
  let k := k.free (.urb .output) dev.intOut.urb
  let k := k.free .usbdevRef dev.usbdev
  let k := k.free (.buffer .input) (dev.intIn.buffer.map Block.id)
  let k := k.free (.buffer .output) (dev.intOut.buffer.map Block.id)
  k.free .record (some dev.record)

/-- The driver's data pointer of an interface, and its minor. -/
structure Interface where
  data : Option Draft
  minor : Option ℕ
  deriving DecidableEq, Repr

def Interface.fresh : Interface := ⟨none,none⟩

/-- A failed `usb_register_dev` keeps no minor. -/
def usbRegisterDev (host : Host) (i : Interface) (k : Kernel) : ℤ × Interface × Kernel :=
  if host.answer k.requests = 0 then (0,{ i with minor := some k.requests },k.grant .minor)
  else (-(host.answer k.requests : ℤ),i,k.refuse)

def usbDeregisterDev (i : Interface) (k : Kernel) : Interface × Kernel :=
  ({ i with minor := none },k.free .minor i.minor)

def nrProbe (host : Host) (endpoints : List EndpointDescriptor) (i : Interface) (k : Kernel) :
    ℤ × Interface × Kernel :=
  match k.request host .record with
  | (none,k) => (-ENODEV,i,k)
  | (some record,k) =>
      match buildNr host endpoints ⟨.kzalloc record,k⟩ with
      | .error s => (-ENODEV,i,freeUsbNr s.dev s.kernel)
      | .ok s =>
          let r := usbRegisterDev host { i with data := some s.dev } s.kernel
          if r.1 ≠ 0 then (r.1,{ r.2.1 with data := none },freeUsbNr s.dev r.2.2)
          else (0,r.2)

def nrDisconnect (i : Interface) (k : Kernel) : Interface × Kernel :=
  let k := match i.data with
    | some dev => freeUsbNr dev k
    | none => k
  usbDeregisterDev { i with data := none } k

namespace Kernel

/-- Names are handed out once: below the number of the next request. -/
structure Ok (k : Kernel) : Prop where
  sound : Sound k.log
  below : ∀ a, .acquired a ∈ k.log → a.2 < k.requests

variable {k : Kernel}

theorem Ok.grant_new (h : k.Ok) (r : Resource) : .acquired (r,k.requests) ∉ k.log :=
  fun hmem => Nat.lt_irrefl _ (h.below _ hmem)

theorem Ok.grant (h : k.Ok) (r : Resource) : (k.grant r).Ok := by
  refine ⟨h.sound.acquire (h.grant_new r),fun a ha => ?_⟩
  rcases List.mem_append.mp ha with ha | ha
  · exact Nat.lt_succ_of_lt (h.below a ha)
  · cases List.mem_singleton.mp ha
    exact Nat.lt_succ_self _

theorem Ok.held_grant (h : k.Ok) (r : Resource) :
    held (k.grant r).log = insert (r,k.requests) (held k.log) :=
  h.sound.held_acquire (h.grant_new r)

theorem Ok.refuse (h : k.Ok) : k.refuse.Ok :=
  ⟨h.sound,fun a ha => Nat.lt_succ_of_lt (h.below a ha)⟩

theorem Ok.held_below (h : k.Ok) {a : Allocation} (ha : a ∈ held k.log) : a.2 < k.requests :=
  h.below a ha.1

theorem request_cases (k : Kernel) (host : Host) (r : Resource) :
    k.request host r = (some k.requests,k.grant r) ∨ k.request host r = (none,k.refuse) := by
  unfold request
  split_ifs
  · exact .inl rfl
  · exact .inr rfl

theorem free_log (k : Kernel) (r : Resource) (id : Option ℕ) (a : Allocation) :
    (k.free r id).requests = k.requests ∧
      (.released a ∈ (k.free r id).log ↔ .released a ∈ k.log ∨ (a.1 = r ∧ id = some a.2)) := by
  obtain ⟨q,n⟩ := a
  cases id with
  | none => simp [Kernel.free]
  | some m => simp [Kernel.free,eq_comm]

theorem Ok.free (h : k.Ok) (r : Resource) (id : Option ℕ)
    (hheld : ∀ n, id = some n → (r,n) ∈ held k.log) :
    (k.free r id).Ok ∧ held (k.free r id).log = held k.log \ {a | a.1 = r ∧ id = some a.2} := by
  cases id with
  | none => exact ⟨h,by simp [Kernel.free]⟩
  | some n =>
      refine ⟨⟨h.sound.release (hheld n rfl),fun a ha => ?_⟩,?_⟩
      · rcases List.mem_append.mp ha with ha | ha
        · exact h.below a ha
        · cases List.mem_singleton.mp ha
      · simp only [Kernel.free,held_release]
        congr 1
        ext a
        simp [Prod.ext_iff,eq_comm]

end Kernel

namespace Draft
variable (dev : Draft) (d : Direction) (h : Half)

@[simp] theorem setHalf_record : (dev.setHalf d h).record = dev.record := by cases d <;> rfl

@[simp] theorem setHalf_usbdev : (dev.setHalf d h).usbdev = dev.usbdev := by cases d <;> rfl

@[simp] theorem half_setHalf : (dev.setHalf d h).half d = h := by cases d <;> rfl

@[simp] theorem half_setHalf_ne {d e : Direction} (he : e ≠ d) :
    (dev.setHalf d h).half e = dev.half e := by
  cases d <;> cases e <;> first | rfl | exact (he rfl).elim

/-- The allocation a record points to, for each kind. -/
def resource (dev : Draft) : Resource → Option ℕ
  | .record => some dev.record
  | .usbdevRef => dev.usbdev
  | .minor => none
  | .buffer d => (dev.half d).buffer.map Block.id
  | .urb d => (dev.half d).urb

def owns (dev : Draft) : Set Allocation := {a | dev.resource a.1 = some a.2}

variable {dev d h}

theorem mem_owns {a : Allocation} : a ∈ dev.owns ↔ dev.resource a.1 = some a.2 := Iff.rfl

theorem resource_setHalf_buffer (hurb : h.urb = (dev.half d).urb) {r : Resource}
    (hr : r ≠ .buffer d) : (dev.setHalf d h).resource r = dev.resource r := by
  cases r with
  | record => simp [resource]
  | usbdevRef => simp [resource]
  | minor => rfl
  | buffer e =>
      have he : e ≠ d := fun he => hr (he ▸ rfl)
      simp [resource,he]
  | urb e =>
      by_cases he : e = d
      · subst he
        simp [resource,hurb]
      · simp [resource,he]

theorem resource_setHalf_urb (hbuf : h.buffer = (dev.half d).buffer) {r : Resource}
    (hr : r ≠ .urb d) : (dev.setHalf d h).resource r = dev.resource r := by
  cases r with
  | record => simp [resource]
  | usbdevRef => simp [resource]
  | minor => rfl
  | buffer e =>
      by_cases he : e = d
      · subst he
        simp [resource,hbuf]
      · simp [resource,he]
  | urb e =>
      have he : e ≠ d := fun he => hr (he ▸ rfl)
      simp [resource,he]

end Draft

/-- What an interface points to, for each kind. -/
def Interface.resource (i : Interface) : Resource → Option ℕ
  | .minor => i.minor
  | r => i.data.bind fun dev => dev.resource r

def Interface.owns (i : Interface) : Set Allocation := {a | i.resource a.1 = some a.2}

theorem Interface.owns_fresh : Interface.fresh.owns = ∅ := by
  ext ⟨r,n⟩
  cases r <;> simp [owns,resource,fresh]

theorem Interface.owns_mk (dev : Draft) (minor : Option ℕ) :
    (Interface.mk (some dev) minor).owns = dev.owns ∪ {a | a.1 = .minor ∧ minor = some a.2} := by
  ext ⟨r,n⟩
  cases r <;> simp [owns,resource,Draft.owns,Draft.resource]

end NrDriver.ProbeModel
