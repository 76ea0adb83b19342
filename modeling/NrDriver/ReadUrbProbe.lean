import NrDriver.RecordProbe

/-!
# Probe and disconnect of the driver that reads through a URB

`nr_probe`, `free_usb_nr` and `nr_disconnect` of `driver_read_urb.c`. They differ
from those of `nr_driver.c` in the out direction, for which only the endpoint is
recorded and nothing is allocated.
-/
namespace NrDriver.ReadUrbProbe
open KernelModel ProbeModel ProbeOutcome Ledger LabelledRuns Pluggable RecordProbe
open TransferSteps (canIn canOut)

/-- `struct usb_nr` while `nr_probe` fills it. -/
structure Record where
  record : ℕ
  usbdev : Option ℕ
  intInEndpoint : Option EndpointDescriptor
  intOutEndpoint : Option EndpointDescriptor
  intInBuffer : Option Block
  intInUrb : Option ℕ
  deriving DecidableEq, Repr

def Record.kzalloc (record : ℕ) : Record := ⟨record,none,none,none,none,none⟩

def getUsbDev (s : Point Record) : Point Record :=
  ⟨{ s.dev with usbdev := some s.kernel.requests },s.kernel.grant .usbdevRef⟩

/-- The first test of the loop body. -/
def takeIn (host : Host) (endpoint : EndpointDescriptor) (s : Point Record) :
    Attempt Record (Point Record) :=
  if s.dev.intInEndpoint.isNone && host.isInt .input endpoint then
    let r := s.kernel.request host (.buffer .input)
    let dev := { s.dev with
      intInEndpoint := some endpoint, intInBuffer := r.1.map (⟨·,endpoint.packetSize⟩) }
    if dev.intInBuffer.isNone then .error ⟨dev,r.2⟩ else .ok ⟨dev,r.2⟩
  else .ok s

/-- The second, which allocates nothing. -/
def takeOut (host : Host) (endpoint : EndpointDescriptor) (s : Point Record) : Point Record :=
  if s.dev.intOutEndpoint.isNone && host.isInt .output endpoint then
    { s with dev := { s.dev with intOutEndpoint := some endpoint } }
  else s

def scanEndpoints (host : Host) :
    List EndpointDescriptor → Point Record → Attempt Record (Point Record)
  | [], s => .ok s
  | endpoint :: rest, s => do
      let s ← takeIn host endpoint s
      scanEndpoints host rest (takeOut host endpoint s)

def checkEndpoints (s : Point Record) : Attempt Record (Point Record) :=
  if s.dev.intInEndpoint.isNone then .error s
  else if s.dev.intOutEndpoint.isNone then .error s
  else .ok s

def allocUrb (host : Host) (s : Point Record) : Attempt Record (Point Record) :=
  let r := s.kernel.request host (.urb .input)
  let s : Point Record := ⟨{ s.dev with intInUrb := r.1 },r.2⟩
  if s.dev.intInUrb.isNone then .error s else .ok s

/-- `nr_probe` from the allocation of the record to its publication. -/
def buildNr (host : Host) (endpoints : List EndpointDescriptor) (s : Point Record) :
    Attempt Record (Point Record) := do
  let s ← scanEndpoints host endpoints (getUsbDev s)
  let s ← checkEndpoints s
  allocUrb host s

/-- `free_usb_nr`, in its order. -/
def freeUsbNr (dev : Record) (k : Kernel) : Kernel :=
  let k := k.free (.urb .input) dev.intInUrb
  let k := k.free .usbdevRef dev.usbdev
  let k := k.free (.buffer .input) (dev.intInBuffer.map Block.id)
  k.free .record (some dev.record)

/-- The record of `nr_driver.c` with the same pointers. -/
def Record.whole (dev : Record) : Draft :=
  ⟨dev.record,dev.usbdev,⟨dev.intInEndpoint,dev.intInBuffer,dev.intInUrb⟩,
    ⟨dev.intOutEndpoint,none,none⟩⟩

/-- The record within the loop: the first endpoints of the list so far, with a
buffer for the one that is read from. -/
structure Seen (host : Host) (input output : List EndpointDescriptor) (dev : Record) : Prop where
  input : dev.intInEndpoint = input.find? (host.isInt .input)
  output : dev.intOutEndpoint = output.find? (host.isInt .output)
  null : dev.intInEndpoint = none → dev.intInBuffer = none
  sized : ∀ e, dev.intInEndpoint = some e → ∃ b, dev.intInBuffer = some b ∧ b.size = e.packetSize
  urb : dev.intInUrb = none
  usbdev : dev.usbdev ≠ none

/-- A record with both endpoints, a packet-sized buffer, a URB and its device. -/
structure Built (host : Host) (endpoints : List EndpointDescriptor) (dev : Record) : Prop where
  input : ∃ e b, dev.intInEndpoint = some e ∧ endpoints.find? (host.isInt .input) = some e ∧
    dev.intInBuffer = some b ∧ b.size = e.packetSize
  output : ∃ e, dev.intOutEndpoint = some e ∧ endpoints.find? (host.isInt .output) = some e
  urb : dev.intInUrb ≠ none
  usbdev : dev.usbdev ≠ none

section Build
variable {k₀ : Kernel} {host : Host} {s : Point Record} {input output : List EndpointDescriptor}

theorem takeIn_reaches (e : EndpointDescriptor) (h : Owed Record.whole k₀ s)
    (hs : Seen host input output s.dev) :
    Reaches (Owed Record.whole k₀)
      (fun s' => Owed Record.whole k₀ s' ∧ Seen host (input ++ [e]) output s'.dev)
      (takeIn host e s) := by
  unfold takeIn
  by_cases htake : s.dev.intInEndpoint = none ∧ host.isInt .input e = true
  · obtain ⟨hnull,he⟩ := htake
    have hbuf := hs.null hnull
    have hnone : input.find? (host.isInt .input) = none := by rw [← hs.input,hnull]
    rw [if_pos (by simp [hnull,he])]
    rcases s.kernel.request_cases host (.buffer .input) with hr | hr
    · simp only [hr,Option.map_some,Option.isNone_some,Bool.false_eq_true,if_false,Reaches]
      refine ⟨h.grant (r := .buffer .input) ?_ rfl ?_,?_⟩
      · simp [Record.whole,Draft.resource,Draft.half,hbuf]
      · intro q hq
        cases q with
        | buffer d =>
            cases d with
            | input => exact (hq rfl).elim
            | output => rfl
        | urb d => cases d <;> rfl
        | _ => rfl
      · refine ⟨by simp [hnone,he],hs.output,by simp,fun x hx => ⟨_,rfl,?_⟩,hs.urb,hs.usbdev⟩
        cases hx
        rfl
    · simp only [hr,Option.map_none,Option.isNone_none,if_true,Reaches]
      refine h.refuse (funext fun q => ?_)
      cases q with
      | buffer d => cases d <;> simp [Record.whole,Draft.resource,Draft.half,hbuf]
      | urb d => cases d <;> rfl
      | _ => rfl
  · rw [if_neg (by simpa using htake)]
    exact ⟨h,{ hs with input := find_skip hs.input htake }⟩

theorem takeOut_seen (e : EndpointDescriptor) (h : Owed Record.whole k₀ s)
    (hs : Seen host input output s.dev) :
    Owed Record.whole k₀ (takeOut host e s) ∧
      Seen host input (output ++ [e]) (takeOut host e s).dev := by
  unfold takeOut
  by_cases htake : s.dev.intOutEndpoint = none ∧ host.isInt .output e = true
  · obtain ⟨hnull,he⟩ := htake
    have hnone : output.find? (host.isInt .output) = none := by rw [← hs.output,hnull]
    rw [if_pos (by simp [hnull,he])]
    refine ⟨owes_same h rfl (funext fun q => ?_),{ hs with output := by simp [hnone,he] }⟩
    cases q with
    | buffer d | urb d => cases d <;> rfl
    | _ => rfl
  · rw [if_neg (by simpa using htake)]
    exact ⟨h,{ hs with output := find_skip hs.output htake }⟩

theorem scanEndpoints_reaches (endpoints : List EndpointDescriptor) (h : Owed Record.whole k₀ s)
    (hs : Seen host input output s.dev) :
    Reaches (Owed Record.whole k₀)
      (fun s' => Owed Record.whole k₀ s' ∧
        Seen host (input ++ endpoints) (output ++ endpoints) s'.dev)
      (scanEndpoints host endpoints s) := by
  induction endpoints generalizing s input output with
  | nil => simpa [scanEndpoints,Reaches] using ⟨h,hs⟩
  | cons e rest ih =>
      refine (takeIn_reaches e h hs).bind fun s₁ h₁ => ?_
      obtain ⟨howes,hseen⟩ := takeOut_seen e h₁.1 h₁.2
      simpa using ih howes hseen

theorem checkEndpoints_reaches {endpoints : List EndpointDescriptor} (h : Owed Record.whole k₀ s)
    (hs : Seen host endpoints endpoints s.dev) :
    Reaches (Owed Record.whole k₀) (fun s' => Owed Record.whole k₀ s' ∧
      Seen host endpoints endpoints s'.dev ∧ s'.dev.intInEndpoint ≠ none ∧
        s'.dev.intOutEndpoint ≠ none) (checkEndpoints s) := by
  unfold checkEndpoints
  split_ifs with hin hout
  · exact h
  · exact h
  · exact ⟨h,hs,by simpa using hin,by simpa using hout⟩

theorem allocUrb_reaches {endpoints : List EndpointDescriptor} (h : Owed Record.whole k₀ s)
    (hs : Seen host endpoints endpoints s.dev) (hin : s.dev.intInEndpoint ≠ none)
    (hout : s.dev.intOutEndpoint ≠ none) :
    Reaches (Owed Record.whole k₀)
      (fun s' => Owed Record.whole k₀ s' ∧ Built host endpoints s'.dev) (allocUrb host s) := by
  unfold allocUrb
  rcases s.kernel.request_cases host (.urb .input) with hr | hr
  · simp only [hr,Option.isNone_some,Bool.false_eq_true,if_false,Reaches]
    refine ⟨h.grant (r := .urb .input) ?_ rfl ?_,?_⟩
    · simp [Record.whole,Draft.resource,Draft.half,hs.urb]
    · intro q hq
      cases q with
      | urb d =>
          cases d with
          | input => exact (hq rfl).elim
          | output => rfl
      | buffer d => cases d <;> rfl
      | _ => rfl
    · obtain ⟨e,he⟩ := Option.ne_none_iff_exists'.mp hin
      obtain ⟨f,hf⟩ := Option.ne_none_iff_exists'.mp hout
      obtain ⟨b,hb,hsize⟩ := hs.sized e he
      exact ⟨⟨e,b,he,by rw [← hs.input,he],hb,hsize⟩,⟨f,hf,by rw [← hs.output,hf]⟩,by simp,
        hs.usbdev⟩
  · simp only [hr,Option.isNone_none,if_true,Reaches]
    refine h.refuse (funext fun q => ?_)
    cases q with
    | urb d => cases d <;> simp [Record.whole,Draft.resource,Draft.half,hs.urb]
    | buffer d => cases d <;> rfl
    | _ => rfl

theorem buildNr_reaches (endpoints : List EndpointDescriptor) (h : Owed Record.whole k₀ s)
    {record : ℕ} (hs : s.dev = .kzalloc record) :
    Reaches (Owed Record.whole k₀) (fun s' => Owed Record.whole k₀ s' ∧ Built host endpoints s'.dev)
      (buildNr host endpoints s) := by
  have hstart : Owed Record.whole k₀ (getUsbDev s) := by
    refine h.grant (r := .usbdevRef) (by simp [hs]; rfl) rfl fun q hq => ?_
    cases q with
    | usbdevRef => exact (hq rfl).elim
    | buffer d | urb d => cases d <;> rfl
    | _ => rfl
  have hseen : Seen host [] [] (getUsbDev s).dev := by
    simp only [getUsbDev,hs,Record.kzalloc]
    refine ⟨rfl,rfl,fun _ => rfl,fun e he => ?_,rfl,by simp⟩
    cases he
  refine (scanEndpoints_reaches endpoints hstart hseen).bind fun s₁ h₁ => ?_
  refine (checkEndpoints_reaches h₁.1 h₁.2).bind fun s₂ h₂ => ?_
  exact allocUrb_reaches h₂.1 h₂.2.1 h₂.2.2.1 h₂.2.2.2

end Build

/-- The records of `driver_read_urb.c`. -/
def readUrb : Kind Record where
  kzalloc := .kzalloc
  buildNr := buildNr
  freeUsbNr := freeUsbNr
  whole := Record.whole
  Built := Built
  whole_kzalloc _ := rfl
  free_whole _ _ := rfl
  build_reaches _ endpoints _ _ _ h := buildNr_reaches endpoints h rfl

def nrProbe (host : Host) (endpoints : List EndpointDescriptor) (i : Handle Record) (k : Kernel) :
    ℤ × Handle Record × Kernel := readUrb.nrProbe host endpoints i k

def nrDisconnect (i : Handle Record) (k : Kernel) : Handle Record × Kernel :=
  readUrb.nrDisconnect i k

open ModuleLifecycle (moduleStep Kept reloading)

/-- The balance of `driver_read_urb.c`. -/
theorem read_urb_module_keeps (host : Host) {es : List (Event (List EndpointDescriptor))}
    {s : Bus Kernel (Handle Record) (List EndpointDescriptor)}
    (hrun : run (moduleStep (readUrb.driver host)) ((readUrb.driver host).start ⟨0,[]⟩) es =
      some s) : Kept (readUrb.driver host) s :=
  Kind.kept hrun

abbrev canReadUrb : Driver Kernel (Handle Record) (List EndpointDescriptor) Allocation :=
  readUrb.driver (canHost fun _ => 0)

theorem reloading_read_urb_kept :
    ∃ s ∈ run (moduleStep canReadUrb) (canReadUrb.start ⟨0,[]⟩) reloading,
      s.bound 0 = true ∧ s.bound 1 = false ∧ Kept canReadUrb s := by
  obtain ⟨s,hs,h₀,h₁⟩ : ∃ s ∈ run (moduleStep canReadUrb) (canReadUrb.start ⟨0,[]⟩) reloading,
    s.bound 0 = true ∧ s.bound 1 = false := by decide
  exact ⟨s,hs,h₀,h₁,read_urb_module_keeps _ hs⟩

end NrDriver.ReadUrbProbe
