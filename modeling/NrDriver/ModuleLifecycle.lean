import NrDriver.Pluggable
import NrDriver.ResourceLedger

/-!
# Loading and unloading the module

`usb_nr_init` registers the driver with the USB core, which then probes the
devices that are already plugged, and `usb_nr_exit` deregisters it, whereupon
every bound interface is disconnected. Over any run of loads, refused ones
included, unloads, plugs and unplugs, the driver holds one whole record for each
bound interface, made for the endpoints of the device that is plugged there, and
nothing once it is unloaded.
-/
namespace NrDriver.ModuleLifecycle
open KernelModel TransferSteps ProbeModel ProbeOutcome Ledger LabelledRuns Pluggable
open ResourceLedger (whole_of_built)

/-- `nr_probe` and `nr_disconnect` of `nr_driver.c`, under one host. -/
def nrDriver (host : Host) : Driver Kernel Interface (List EndpointDescriptor) Allocation where
  Ok := Kernel.Ok
  held k := held k.log
  fresh := .fresh
  owns := Interface.owns
  Whole endpoints i := ∃ dev n, i = ⟨some dev,some n⟩ ∧ Built host endpoints dev
  probe := nrProbe host
  disconnect := nrDisconnect
  owns_fresh := Interface.owns_fresh
  probe_ok _ _ hk := (nrProbe_spec hk rfl).1
  probe_outcome endpoints k hk := by
    rcases hr : nrProbe host endpoints .fresh k with ⟨code,i',k'⟩
    rcases (nrProbe_spec hk hr).2 with ⟨hneg,rfl,hheld⟩ | ⟨rfl,dev,n,rfl,hbuilt,hheld,hnew⟩
    · exact .fails (Int.ne_of_lt hneg) hheld
    · refine .claims ⟨dev,n,rfl,hbuilt⟩ hheld fun a ha hx => ?_
      exact Nat.not_lt.mpr (hnew a hx) (hk.held_below ha)
  disconnect_ok _ _ hk hown := (nrDisconnect_spec hk hown).2.1
  disconnect_fresh _ _ hk hown := (nrDisconnect_spec hk hown).1
  disconnect_held _ _ hk hown := (nrDisconnect_spec hk hown).2.2

section
variable {I : Type*} (D : Driver Kernel I (List EndpointDescriptor) Allocation)

/-- It returns what `usb_register` does. -/
def usbNrInit (s : Bus Kernel I (List EndpointDescriptor)) (errno : ℕ) :
    ℤ × Bus Kernel I (List EndpointDescriptor) := D.load s errno

def usbNrExit (s : Bus Kernel I (List EndpointDescriptor)) :
    Bus Kernel I (List EndpointDescriptor) := D.unload s

/-- The module and the devices on the USB. A module whose init function fails is
not loaded. -/
def moduleStep (s : Bus Kernel I (List EndpointDescriptor)) :
    Event (List EndpointDescriptor) → Option (Bus Kernel I (List EndpointDescriptor))
  | .load errno => if s.loaded then none else some (usbNrInit D s errno).2
  | .unload => if s.loaded then some (usbNrExit D s) else none
  | .attach i endpoints => D.step s (.attach i endpoints)
  | .detach i => D.step s (.detach i)

theorem moduleStep_eq : moduleStep D = D.step := by
  funext s e
  cases e <;> rfl

/-- What the driver has, bound interface by bound interface. -/
structure Kept (s : Bus Kernel I (List EndpointDescriptor)) : Prop where
  held : ∀ a, a ∈ held s.kernel.log ↔ ∃ i, s.bound i = true ∧ a ∈ D.owns (s.interface i)
  apart : ∀ i j a, a ∈ D.owns (s.interface i) → a ∈ D.owns (s.interface j) → i = j
  whole : ∀ i, s.bound i = true →
    ∃ endpoints, (i,endpoints) ∈ s.attached ∧ D.Whole endpoints (s.interface i)
  loaded : ∀ i, s.bound i = true → s.loaded = true
  once : s.kernel.log.Nodup
  returned : s.loaded = false → ∀ a, .acquired a ∈ s.kernel.log → .released a ∈ s.kernel.log

variable {D}

theorem kept_of_settled (hok : ∀ k, D.Ok k → k.Ok) (hheld : ∀ k, D.held k = held k.log)
    {s : Bus Kernel I (List EndpointDescriptor)} (h : D.Settled s) : Kept D s := by
  have hbound (i : ℕ) (a : Allocation) (hi : a ∈ D.owns (s.interface i)) : s.bound i = true := by
    by_contra hfree
    rw [h.parted.unbound i (by simpa using hfree),D.owns_fresh] at hi
    exact hi
  have hsound := (hok _ h.parted.ok).sound
  refine ⟨fun a => ?_,h.parted.apart,h.parted.whole,fun i hi => ?_,hsound.nodup,
    fun hload a ha => ?_⟩
  · rw [← hheld,h.parted.held]
    constructor
    · rintro ⟨i,hi⟩
      exact ⟨i,hbound i a hi,hi⟩
    · rintro ⟨i,_,hi⟩
      exact ⟨i,hi⟩
  · by_contra hload
    simp [h.idle (by simpa using hload) i] at hi
  · have hnone := (h.unloaded hload).1
    rw [hheld] at hnone
    exact Sound.released_of_not_held ha (by simp [hnone])

theorem kept_run (hok : ∀ k, D.Ok k ↔ k.Ok) (hheld : ∀ k, D.held k = held k.log)
    {es : List (Event (List EndpointDescriptor))} {s : Bus Kernel I (List EndpointDescriptor)}
    (hrun : run (moduleStep D) (D.start ⟨0,[]⟩) es = some s) : Kept D s := by
  rw [moduleStep_eq] at hrun
  have hempty : (⟨0,[]⟩ : Kernel).Ok := ⟨.nil,fun a ha => by cases ha⟩
  have hstart : D.Settled (D.start ⟨0,[]⟩) :=
    Driver.settled_start ((hok _).mpr hempty) ((hheld _).trans held_nil)
  exact kept_of_settled (fun k => (hok k).mp) hheld (hstart.run hrun)

end

/-- However often the module is loaded and unloaded, and devices come and go. -/
theorem module_keeps (host : Host) {es : List (Event (List EndpointDescriptor))}
    {s : Bus Kernel Interface (List EndpointDescriptor)}
    (hrun : run (moduleStep (nrDriver host)) ((nrDriver host).start ⟨0,[]⟩) es = some s) :
    Kept (nrDriver host) s :=
  kept_run (fun _ => Iff.rfl) (fun _ => rfl) hrun

/-- A device is there before the module, whose first load is refused; another
comes and is removed again, and the module is unloaded and loaded once more. -/
def reloading : List (Event (List EndpointDescriptor)) :=
  [.attach 0 [canOut,canIn],.load 12,.load 0,.attach 1 [canIn,canOut],.attach 2 [canIn],.detach 1,
    .unload,.load 0]

/-- The driver on a host that grants everything. -/
abbrev canDriver : Driver Kernel Interface (List EndpointDescriptor) Allocation :=
  nrDriver (canHost fun _ => 0)

theorem reloading_kept :
    ∃ s ∈ run (moduleStep canDriver) (canDriver.start ⟨0,[]⟩) reloading,
      s.bound 0 = true ∧ s.bound 1 = false ∧ s.bound 2 = false ∧ Kept canDriver s := by
  obtain ⟨s,hs,h₀,h₁,h₂⟩ : ∃ s ∈ run (moduleStep canDriver) (canDriver.start ⟨0,[]⟩) reloading,
    s.bound 0 = true ∧ s.bound 1 = false ∧ s.bound 2 = false := by decide
  exact ⟨s,hs,h₀,h₁,h₂,module_keeps _ hs⟩

end NrDriver.ModuleLifecycle
