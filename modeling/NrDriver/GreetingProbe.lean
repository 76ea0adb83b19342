import NrDriver.RecordProbe
import NrDriver.StepDrivers

/-!
# Probe and disconnect of the drivers with a greeting

`nr_probe`, `free_usb_nr` and `nr_disconnect` of `driver_read.c` and of
`driver_read_write.c`, which are the same in both. The record holds a small
buffer, which stays zero until the device is opened, and the two endpoints, which
are found by the loop of `driver_endpoints.c` (`scanEndpoints_plain`). Nothing but
the record is allocated, and the minor is given back.
-/
namespace NrDriver.GreetingProbe
open KernelModel ProbeModel ProbeOutcome Ledger LabelledRuns Pluggable RecordProbe
open StepDrivers (EndpointRecord scanEndpoints_endpoint)

/-- `struct usb_nr` -/
structure UsbNr where
  testbuff : Vector Byte 6
  lenbuff : ℕ
  intInEndpoint : Option EndpointDescriptor
  intOutEndpoint : Option EndpointDescriptor
  deriving DecidableEq, Repr

def UsbNr.kzalloc : UsbNr := ⟨.replicate 6 0,0,none,none⟩

def UsbNr.endpoint (dev : UsbNr) : Direction → Option EndpointDescriptor
  | .input => dev.intInEndpoint
  | .output => dev.intOutEndpoint

def UsbNr.setEndpoint (dev : UsbNr) (endpoint : EndpointDescriptor) : Direction → UsbNr
  | .input => { dev with intInEndpoint := some endpoint }
  | .output => { dev with intOutEndpoint := some endpoint }

/-- One of the two tests of the loop body. -/
def takeEndpoint (host : Host) (d : Direction) (endpoint : EndpointDescriptor) (dev : UsbNr) :
    UsbNr :=
  if (dev.endpoint d).isNone && host.isInt d endpoint then dev.setEndpoint endpoint d else dev

def scanEndpoints (host : Host) : List EndpointDescriptor → UsbNr → UsbNr
  | [], dev => dev
  | endpoint :: rest, dev =>
      scanEndpoints host rest
        (takeEndpoint host .output endpoint (takeEndpoint host .input endpoint dev))

/-- A record under the number of its allocation. -/
structure Record where
  record : ℕ
  nr : UsbNr
  deriving DecidableEq, Repr

def checkEndpoints (s : Point Record) : Attempt Record (Point Record) :=
  if s.dev.nr.intInEndpoint.isNone then .error s
  else if s.dev.nr.intOutEndpoint.isNone then .error s
  else .ok s

/-- `nr_probe` from the allocation of the record to its publication. -/
def buildNr (host : Host) (endpoints : List EndpointDescriptor) (s : Point Record) :
    Attempt Record (Point Record) :=
  checkEndpoints { s with dev.nr := scanEndpoints host endpoints s.dev.nr }

def freeUsbNr (dev : Record) (k : Kernel) : Kernel := k.free .record (some dev.record)

/-- The record of `nr_driver.c` with the same allocations. -/
def Record.whole (dev : Record) : Draft := .kzalloc dev.record

/-- The two endpoints of the record, as `driver_endpoints.c` keeps them. -/
def UsbNr.plain (dev : UsbNr) : EndpointRecord := ⟨0,dev.intInEndpoint,dev.intOutEndpoint⟩

/-- A record that differs from a zeroed one in the endpoints at most. -/
def UsbNr.Unopened (dev : UsbNr) : Prop :=
  dev = { UsbNr.kzalloc with
    intInEndpoint := dev.intInEndpoint, intOutEndpoint := dev.intOutEndpoint }

section Scan
variable {host : Host}

theorem plain_endpoint (dev : UsbNr) (d : Direction) : dev.plain.endpoint d = dev.endpoint d := by
  cases d <;> rfl

theorem takeEndpoint_plain (d : Direction) (e : EndpointDescriptor) (dev : UsbNr) :
    (takeEndpoint host d e dev).plain = StepDrivers.takeEndpoint host.isInt d e dev.plain := by
  unfold takeEndpoint StepDrivers.takeEndpoint
  rw [plain_endpoint]
  split_ifs
  · cases d <;> rfl
  · rfl

theorem scanEndpoints_plain (endpoints : List EndpointDescriptor) (dev : UsbNr) :
    (scanEndpoints host endpoints dev).plain =
      StepDrivers.scanEndpoints host.isInt endpoints dev.plain := by
  induction endpoints generalizing dev with
  | nil => rfl
  | cons e rest ih =>
      rw [scanEndpoints,StepDrivers.scanEndpoints,ih]
      simp only [takeEndpoint_plain]

theorem scanEndpoints_found (endpoints : List EndpointDescriptor) (d : Direction) :
    (scanEndpoints host endpoints .kzalloc).endpoint d = endpoints.find? (host.isInt d) := by
  rw [← plain_endpoint,scanEndpoints_plain,scanEndpoints_endpoint]
  cases d <;> rfl

theorem UsbNr.Unopened.take {dev : UsbNr} (h : dev.Unopened) (d : Direction)
    (e : EndpointDescriptor) : (takeEndpoint host d e dev).Unopened := by
  unfold takeEndpoint
  split_ifs
  · rw [h]
    cases d <;> rfl
  · exact h

theorem UsbNr.Unopened.scan {dev : UsbNr} (h : dev.Unopened)
    (endpoints : List EndpointDescriptor) : (scanEndpoints host endpoints dev).Unopened := by
  induction endpoints generalizing dev with
  | nil => exact h
  | cons e rest ih => exact ih ((h.take .input e).take .output e)

end Scan

/-- The first endpoints of the list, and a buffer that was not touched. -/
structure Built (host : Host) (endpoints : List EndpointDescriptor) (dev : Record) : Prop where
  unopened : dev.nr.Unopened
  found : ∀ d, dev.nr.endpoint d = endpoints.find? (host.isInt d)
  both : ∀ d, dev.nr.endpoint d ≠ none

theorem buildNr_reaches (host : Host) (endpoints : List EndpointDescriptor) {k₀ k : Kernel}
    {record : ℕ} (h : Owed Record.whole k₀ ⟨⟨record,.kzalloc⟩,k⟩) :
    Reaches (Owed Record.whole k₀) (fun s => Owed Record.whole k₀ s ∧ Built host endpoints s.dev)
      (buildNr host endpoints ⟨⟨record,.kzalloc⟩,k⟩) := by
  have hfound (d : Direction) : (scanEndpoints host endpoints .kzalloc).endpoint d =
      endpoints.find? (host.isInt d) := scanEndpoints_found endpoints d
  have hzero : UsbNr.kzalloc.Unopened := rfl
  unfold buildNr checkEndpoints
  split_ifs with hin hout
  · exact h
  · exact h
  · refine ⟨h,hzero.scan endpoints,hfound,fun d => ?_⟩
    cases d with
    | input => simpa [UsbNr.endpoint] using hin
    | output => simpa [UsbNr.endpoint] using hout

/-- The records of `driver_read.c` and of `driver_read_write.c`. -/
def greeting : Kind Record where
  kzalloc record := ⟨record,.kzalloc⟩
  buildNr := buildNr
  freeUsbNr := freeUsbNr
  whole := Record.whole
  Built := Built
  whole_kzalloc _ := rfl
  free_whole _ _ := rfl
  build_reaches host endpoints _ _ _ h := buildNr_reaches host endpoints h

def nrProbe (host : Host) (endpoints : List EndpointDescriptor) (i : Handle Record) (k : Kernel) :
    ℤ × Handle Record × Kernel := greeting.nrProbe host endpoints i k

def nrDisconnect (i : Handle Record) (k : Kernel) : Handle Record × Kernel :=
  greeting.nrDisconnect i k

open ModuleLifecycle (moduleStep Kept reloading)

/-- The balance of the two drivers. -/
theorem greeting_module_keeps (host : Host) {es : List (Event (List EndpointDescriptor))}
    {s : Bus Kernel (Handle Record) (List EndpointDescriptor)}
    (hrun : run (moduleStep (greeting.driver host)) ((greeting.driver host).start ⟨0,[]⟩) es =
      some s) : Kept (greeting.driver host) s :=
  Kind.kept hrun

abbrev canGreet : Driver Kernel (Handle Record) (List EndpointDescriptor) Allocation :=
  greeting.driver (canHost fun _ => 0)

theorem reloading_greeting_kept :
    ∃ s ∈ run (moduleStep canGreet) (canGreet.start ⟨0,[]⟩) reloading,
      s.bound 0 = true ∧ s.bound 1 = false ∧ Kept canGreet s := by
  obtain ⟨s,hs,h₀,h₁⟩ : ∃ s ∈ run (moduleStep canGreet) (canGreet.start ⟨0,[]⟩) reloading,
    s.bound 0 = true ∧ s.bound 1 = false := by decide
  exact ⟨s,hs,h₀,h₁,greeting_module_keeps _ hs⟩

end NrDriver.GreetingProbe
