import Mathlib.Data.List.Basic
import Mathlib.Data.Int.Basic
import Mathlib.Algebra.Group.Nat.Defs
import Mathlib.Algebra.Group.Int.Defs
import Mathlib.Tactic.Common

/-!
# What the driver uses of the kernel

Error numbers, the `size_t` and `ssize_t` arithmetic of a 64-bit kernel,
endpoint descriptors, allocated buffers, the two copies between user and
kernel memory, and URBs. A buffer keeps its allocated size beside its bytes and
nothing clips a write to that size: that no write leaves the allocation is a
theorem about the driver, not part of the type.

A URB in flight carries the length it was submitted with. Its `call` and
`payload` only record which call submitted it and are read by no function of
the driver; `sent` is what the device has taken from the buffer so far.
-/
namespace NrDriver.KernelModel

abbrev Byte := UInt8

def ENOENT : ℤ := 2
def EFAULT : ℤ := 14
def EBUSY : ℤ := 16
def ENODEV : ℤ := 19
def EINVAL : ℤ := 22
def ECONNRESET : ℤ := 104
def ESHUTDOWN : ℤ := 108
def ERESTARTSYS : ℤ := 512

/-- Subtraction of two `size_t` values. -/
def sizeSub (a b : ℕ) : ℕ := (a % 2^64 + 2^64 - b % 2^64) % 2^64

/-- Conversion of a `size_t` to `ssize_t` (or of a sum to `loff_t`). -/
def toSsize (n : ℤ) : ℤ := Int.bmod n (2^64)

/-- Conversion of an `ssize_t` to `size_t`. -/
def toSize (z : ℤ) : ℕ := (z % 2^64).toNat

theorem sizeSub_of_le {a b : ℕ} (hba : b ≤ a) (ha : a < 2^64) : sizeSub a b = a - b := by
  unfold sizeSub
  omega

theorem toSsize_natCast {n : ℕ} (hn : n < 2^63) : toSsize n = n := by
  unfold toSsize
  rw [Int.bmod_eq_of_le] <;> omega

/-- The difference of two small sizes comes out right as an `ssize_t`, also below zero. -/
theorem toSsize_sizeSub {a b : ℕ} (ha : a < 2^63) (hb : b < 2^63) :
    toSsize (sizeSub a b) = (a : ℤ) - b := by
  unfold toSsize sizeSub
  by_cases hba : b ≤ a
  · rw [Int.bmod_eq_of_le] <;> omega
  · rw [Int.bmod_def]
    split_ifs <;> omega

theorem toSize_natCast {n : ℕ} (hn : n < 2^64) : toSize n = n := by
  unfold toSize
  omega

/-- `struct usb_endpoint_descriptor`. The packet size is the value the host's
16-bit load of the field gives, since the driver converts it nowhere. -/
structure EndpointDescriptor where
  bEndpointAddress : UInt8
  bmAttributes : UInt8
  wMaxPacketSize : UInt16
  bInterval : UInt8
  deriving DecidableEq, Repr

/-- The transfer size the driver reads from a descriptor. -/
def EndpointDescriptor.packetSize (e : EndpointDescriptor) : ℕ := e.wMaxPacketSize.toNat

theorem EndpointDescriptor.packetSize_lt (e : EndpointDescriptor) : e.packetSize < 2^16 :=
  e.wMaxPacketSize.toNat_lt

/-- Memory from `kmalloc`: the allocated size and the bytes at its address. -/
structure Buffer where
  size : ℕ
  bytes : List Byte
  deriving DecidableEq, Repr

/-- `kmalloc` leaves the contents of the block as it found them. -/
def Buffer.kmalloc (size : ℕ) (memory : ℕ → Byte) : Buffer :=
  ⟨size,(List.range size).map memory⟩

/-- Overwrite the start of a buffer, past its end if `src` is too long. -/
def Buffer.put (b : Buffer) (src : List Byte) : Buffer :=
  { b with bytes := src ++ b.bytes.drop src.length }

def Buffer.get (b : Buffer) (n : ℕ) : List Byte := b.bytes.take n

/-- No write has left the allocation. -/
def Buffer.Intact (b : Buffer) : Prop := b.bytes.length = b.size

theorem Buffer.kmalloc_intact (size : ℕ) (memory : ℕ → Byte) :
    (Buffer.kmalloc size memory).Intact := by simp [Buffer.Intact,Buffer.kmalloc]

theorem Buffer.Intact.put {b : Buffer} (hb : b.Intact) {src : List Byte}
    (hsrc : src.length ≤ b.size) : (b.put src).Intact := by
  unfold Buffer.Intact Buffer.put at *
  simp only [List.length_append,List.length_drop]
  omega

@[simp] theorem Buffer.get_zero (b : Buffer) : b.get 0 = [] := by simp [Buffer.get]

@[simp] theorem Buffer.get_put (b : Buffer) (src : List Byte) :
    (b.put src).get src.length = src := by simp [Buffer.put,Buffer.get]

/-- The bytes `copy_to_user` stores at the user's address when it reports
`uncopied` of the `n` bytes asked for as not copied. -/
def copyToUser (b : Buffer) (n uncopied : ℕ) : List Byte := b.get (n - uncopied)

/-- `copy_from_user` zeroes the tail it could not copy. -/
def copyFromUser (b : Buffer) (src : List Byte) (uncopied : ℕ) : Buffer :=
  b.put (src.take (src.length - uncopied) ++ List.replicate uncopied 0)

@[simp] theorem copyFromUser_all (b : Buffer) (src : List Byte) :
    copyFromUser b src 0 = b.put src := by simp [copyFromUser]

theorem copyToUser_length {b : Buffer} (hb : b.Intact) {n : ℕ} (hn : n ≤ b.size) (uncopied : ℕ) :
    (copyToUser b n uncopied).length = n - uncopied := by
  unfold Buffer.Intact at hb
  simp only [copyToUser,Buffer.get,List.length_take]
  omega

theorem copyFromUser_intact {b : Buffer} (hb : b.Intact) {src : List Byte} {uncopied : ℕ}
    (hu : uncopied ≤ src.length) (hsrc : src.length ≤ b.size) :
    (copyFromUser b src uncopied).Intact := by
  apply hb.put
  simp only [List.length_append,List.length_take,List.length_replicate]
  omega

/-- The pipe values of `usb_rcvintpipe` and `usb_sndintpipe`. -/
inductive Pipe where
  | rcvint (endpoint : UInt8)
  | sndint (endpoint : UInt8)
  deriving DecidableEq, Repr

/-- A submitted URB until its completion. -/
structure Flight where
  length : ℕ
  call : ℕ
  payload : List Byte
  sent : List Byte
  deriving DecidableEq, Repr

/-- `struct urb`, as far as the driver fills it. The buffer, the completion
handler and the context are the same in every fill of one URB. -/
structure Urb where
  pipe : Option Pipe
  transferBufferLength : ℕ
  interval : UInt8
  flight : Option Flight
  deriving DecidableEq, Repr

/-- `usb_alloc_urb` returns a zeroed URB. -/
def usbAllocUrb : Urb := ⟨none,0,0,none⟩

/-- `usb_fill_int_urb` writes the fields whether or not the URB is in flight. -/
def usbFillIntUrb (urb : Urb) (pipe : Pipe) (length : ℕ) (interval : UInt8) : Urb :=
  { urb with pipe := some pipe, transferBufferLength := length, interval := interval }

@[simp] theorem usbFillIntUrb_flight (urb : Urb) (pipe : Pipe) (length : ℕ) (interval : UInt8) :
    (usbFillIntUrb urb pipe length interval).flight = urb.flight := rfl

@[simp] theorem usbFillIntUrb_length (urb : Urb) (pipe : Pipe) (length : ℕ) (interval : UInt8) :
    (usbFillIntUrb urb pipe length interval).transferBufferLength = length := rfl

/-- `usb_submit_urb` refuses a URB that is in flight with `-EBUSY`. Otherwise
the USB core accepts it when `errno` is zero and refuses it with `-errno`. -/
def usbSubmitUrb (urb : Urb) (call : ℕ) (payload : List Byte) (errno : ℕ) : ℤ × Urb :=
  if urb.flight.isSome then (-EBUSY,urb)
  else if errno = 0 then
    (0,{ urb with flight := some ⟨urb.transferBufferLength,call,payload,[]⟩ })
  else (-(errno : ℤ),urb)

theorem usbSubmitUrb_cases (urb : Urb) (call : ℕ) (payload : List Byte) (errno : ℕ) :
    (urb.flight = none ∧ errno = 0 ∧ usbSubmitUrb urb call payload errno =
      (0,{ urb with flight := some ⟨urb.transferBufferLength,call,payload,[]⟩ })) ∨
    ∃ code, code < 0 ∧ usbSubmitUrb urb call payload errno = (code,urb) := by
  unfold usbSubmitUrb
  split_ifs with hf he
  · exact .inr ⟨_,by decide,rfl⟩
  · exact .inl ⟨by simpa using hf,he,rfl⟩
  · exact .inr ⟨_,by omega,rfl⟩

/-- The statuses both completion handlers pass over in silence. -/
def unlinkFault (status : ℤ) : Bool :=
  status = -ENOENT || status = -ECONNRESET || status = -ESHUTDOWN

/-- A status for which both completion handlers print an error. -/
def reportedStatus (status : ℤ) : Bool := status ≠ 0 && !unlinkFault status

end NrDriver.KernelModel
