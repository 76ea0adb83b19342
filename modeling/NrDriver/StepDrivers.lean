import NrDriver.ProbeModel
import Mathlib.Data.Finset.Insert
import Mathlib.Data.Finset.Erase

/-!
# The drivers of the first steps

`nr_probe` and `nr_disconnect` of `driver_minimalist.c` and of
`driver_endpoints.c`, which lead up to `nr_driver.c`. The minimalist driver only
registers. The endpoint driver allocates a record, looks for its two endpoints
without allocating anything for them, and then registers. Neither of the two
`nr_disconnect` calls `usb_deregister_dev`.

The minors are a table of the USB core. A registration takes a free entry of the
core's choice, or fails.
-/
namespace NrDriver.StepDrivers
open KernelModel
open ProbeModel (Direction)

/-- `struct usb_nr` of `driver_endpoints.c`. -/
structure EndpointRecord where
  test : ℤ
  intInEndpoint : Option EndpointDescriptor
  intOutEndpoint : Option EndpointDescriptor
  deriving DecidableEq, Repr

def EndpointRecord.kzalloc : EndpointRecord := ⟨0,none,none⟩

def EndpointRecord.endpoint (dev : EndpointRecord) : Direction → Option EndpointDescriptor
  | .input => dev.intInEndpoint
  | .output => dev.intOutEndpoint

def EndpointRecord.setEndpoint (dev : EndpointRecord) (endpoint : EndpointDescriptor) :
    Direction → EndpointRecord
  | .input => { dev with intInEndpoint := some endpoint }
  | .output => { dev with intOutEndpoint := some endpoint }

/-- One of the two tests of the loop body. -/
def takeEndpoint (isInt : Direction → EndpointDescriptor → Bool) (d : Direction)
    (endpoint : EndpointDescriptor) (dev : EndpointRecord) : EndpointRecord :=
  if (dev.endpoint d).isNone && isInt d endpoint then dev.setEndpoint endpoint d else dev

/-- The loop over the endpoints of the current setting. -/
def scanEndpoints (isInt : Direction → EndpointDescriptor → Bool) :
    List EndpointDescriptor → EndpointRecord → EndpointRecord
  | [], dev => dev
  | endpoint :: rest, dev =>
      scanEndpoints isInt rest
        (takeEndpoint isInt .output endpoint (takeEndpoint isInt .input endpoint dev))

/-- The minors of a class driver: which entries of the table are taken. -/
structure MinorTable where
  size : ℕ
  taken : Finset ℕ
  deriving DecidableEq

/-- The driver's data pointer of an interface, and its minor. -/
structure Interface where
  data : Option EndpointRecord
  minor : Option ℕ
  deriving DecidableEq, Repr

/-- The answer of the USB core to a registration: a minor, or an errno. -/
inductive Registration where
  | minor (m : ℕ)
  | refused (errno : ℕ)
  deriving DecidableEq, Repr

/-- The answers of the kernel to one probe. -/
structure Answers where
  kzalloc : Bool
  register : Registration
  deriving DecidableEq, Repr

/-- `none` is an answer the USB core does not give: a minor that is not free. -/
def usbRegisterDev (i : Interface) (t : MinorTable) :
    Registration → Option (ℤ × Interface × MinorTable)
  | .minor m =>
      if m < t.size ∧ m ∉ t.taken then
        some (0,{ i with minor := some m },{ t with taken := insert m t.taken })
      else none
  | .refused errno => if errno = 0 then none else some (-(errno : ℤ),i,t)

/-- `driver_minimalist.c` -/
def DriverMinimalist.nrProbe (answers : Answers) (i : Interface) (t : MinorTable) :
    Option (ℤ × Interface × MinorTable) :=
  (usbRegisterDev i t answers.register).map fun r =>
    if r.1 ≠ 0 then (r.1,{ r.2.1 with data := none },r.2.2) else (0,r.2)

/-- It only prints. -/
def DriverMinimalist.nrDisconnect (i : Interface) (t : MinorTable) : Interface × MinorTable := (i,t)

/-- `driver_endpoints.c`; the record is freed on every error path. -/
def DriverEndpoints.nrProbe (isInt : Direction → EndpointDescriptor → Bool)
    (endpoints : List EndpointDescriptor) (answers : Answers) (i : Interface) (t : MinorTable) :
    Option (ℤ × Interface × MinorTable) :=
  if answers.kzalloc then
    let dev := scanEndpoints isInt endpoints { EndpointRecord.kzalloc with test := 3 }
    if dev.intInEndpoint.isNone then some (-ENODEV,i,t)
    else if dev.intOutEndpoint.isNone then some (-ENODEV,i,t)
    else
      (usbRegisterDev { i with data := some dev } t answers.register).map fun r =>
        if r.1 ≠ 0 then (r.1,{ r.2.1 with data := none },r.2.2) else (0,r.2)
  else some (-ENODEV,i,t)

/-- The record is freed and the minor is not given back. -/
def DriverEndpoints.nrDisconnect (i : Interface) (t : MinorTable) : Interface × MinorTable :=
  ({ i with data := none },t)

section Scan
variable {isInt : Direction → EndpointDescriptor → Bool}

theorem takeEndpoint_endpoint (d f : Direction) (e : EndpointDescriptor) (dev : EndpointRecord) :
    (takeEndpoint isInt d e dev).endpoint f =
      if f = d then (dev.endpoint d).or (if isInt d e then some e else none)
      else dev.endpoint f := by
  unfold takeEndpoint
  cases hd : dev.endpoint d with
  | none =>
      cases he : isInt d e <;> cases d <;> cases f <;>
        simp_all [EndpointRecord.endpoint,EndpointRecord.setEndpoint]
  | some x => by_cases hf : f = d <;> simp_all

/-- The loop takes the first interrupt endpoint of each direction. -/
theorem scanEndpoints_endpoint (endpoints : List EndpointDescriptor) (dev : EndpointRecord)
    (d : Direction) :
    (scanEndpoints isInt endpoints dev).endpoint d =
      (dev.endpoint d).or (endpoints.find? (isInt d)) := by
  induction endpoints generalizing dev with
  | nil => simp [scanEndpoints]
  | cons e rest ih =>
      rw [scanEndpoints,ih,List.find?_cons]
      cases d with
      | input =>
          rw [takeEndpoint_endpoint,if_neg (by decide),takeEndpoint_endpoint,if_pos rfl]
          cases dev.endpoint .input <;> cases isInt .input e <;> simp
      | output =>
          rw [takeEndpoint_endpoint,if_pos rfl,takeEndpoint_endpoint,if_neg (by decide)]
          cases dev.endpoint .output <;> cases isInt .output e <;> simp

end Scan

end NrDriver.StepDrivers
