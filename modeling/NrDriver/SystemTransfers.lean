import NrDriver.ReadProtocol
import NrDriver.SequentialWriter
import NrDriver.SystemRefinement

/-!
# Transfers through the whole system

From a device to the calls on the files of its node and back, with any number of
other devices, files and threads around it. One thread reads from the device, or
one writes to it; the device may be opened by anybody, as long as the opens find
the fields as they leave them.

A released record keeps its number and its contents in this model. The results
are about the code as long as no released record is touched.
-/
namespace NrDriver.SystemTransfers
open KernelModel TransferSteps ReadHalfSteps WriteHalfSteps ProbeModel DeviceWorld LabelledRuns
open Routing SystemRefinement ReadProtocol SequentialWriter
open RecordLifetime (plugTwo)

/-- Only thread `t` reads from the device, and an open finds the read fields as it
leaves them. -/
def ReadInTurn (t : ℕ) (d : Device) (l : Label) : Prop := readsAlone t l = true ∧ OpensAtRest d l

instance (t : ℕ) (d : Device) (l : Label) : Decidable (ReadInTurn t d l) :=
  inferInstanceAs (Decidable (_ ∧ _))

/-- The packets that a device has sent are taken in order, each with bytes in it by
one copy, which stores a prefix of it, into a call on a file that was opened on
the node of this device. -/
theorem system_packets_in_order (host : Host) {ms : List Move} {w : World}
    (hrun : run (move host) .start ms = some w) {r t : ℕ} {c : Cell} (hc : w.record r = some c)
    (hturn : Along (move host) (OnRecord r (ReadInTurn t)) .start ms) :
    (∃ taken, c.device.readLog.filterMap packet? =
        taken ++ (place t (readHalf c.device)).message ∧
      List.Forall₂ (· <+: ·) (c.device.readLog.filterMap copy?) taken) ∧
    ∀ f, Serves c.device f →
      ∃ file, w.files[f]? = some file ∧ file.privateData = some r ∧ file.node = c.home := by
  have hfollows : ∃ epIn epOut, ReadProtocol.Follows epIn epOut t c.device := by
    refine device_invariant (I := fun d => ∃ epIn epOut, ReadProtocol.Follows epIn epOut t d)
      (fun epIn epOut memIn memOut => ?_) ?_ hturn hrun hc
    · exact ⟨epIn,epOut,follows_opened epIn epOut memIn memOut t⟩
    · rintro d l d' ⟨epIn,epOut,h⟩ hl hs
      exact ⟨epIn,epOut,follows_step h hl.1 hl.2 hs⟩
  obtain ⟨_,_,_,_,m,hm,ht⟩ := hfollows
  refine ⟨?_,fun f hf => (routed_run hrun).home hc hf⟩
  rw [← ht.slot]
  exact Reader.taken_in_order hm

theorem read_beside_write_in_order :
    ∃ w ∈ run (move (canHost fun _ => 0)) .start readBesideWrite, ∃ c ∈ w.record 0,
      c.device.readLog.filterMap packet? = [[5,6]] ∧
      (∃ taken, c.device.readLog.filterMap packet? =
          taken ++ (place 3 (readHalf c.device)).message ∧
        List.Forall₂ (· <+: ·) (c.device.readLog.filterMap copy?) taken) ∧
      ∀ f, Serves c.device f →
        ∃ file, w.files[f]? = some file ∧ file.privateData = some 0 ∧ file.node = c.home := by
  obtain ⟨w,hw,c,hc,hpackets⟩ : ∃ w ∈ run (move (canHost fun _ => 0)) .start readBesideWrite,
    ∃ c ∈ w.record 0, c.device.readLog.filterMap packet? = [[5,6]] := by decide
  exact ⟨w,hw,c,hc,hpackets,system_packets_in_order _ hw hc (by decide)⟩

/-- Only thread `t` writes to the device, no signal finds it waiting, and an open
finds `outgoing_write` as it leaves it. -/
def WriteInTurn (t : ℕ) (d : Device) : Label → Prop
  | .beginWrite u _ _ => u = t
  | .openWrite .outgoingWrite => d.nr.outgoingWrite = false
  | .signal u => Uninterrupted d (.signal u)
  | _ => True

instance (t : ℕ) (d : Device) (l : Label) : Decidable (WriteInTurn t d l) :=
  match l with
  | .beginWrite .. | .openWrite .outgoingWrite => inferInstanceAs (Decidable (_ = _))
  | .signal u => inferInstanceAs (Decidable (Uninterrupted d (.signal u)))
  | .openWrite .lenInBuffer | .openWrite .ongoingRead | .beginRead .. | .run .. | .inCompletes ..
  | .outTakes | .outCompletes .. => isTrue trivial

theorem served_in_turn {epIn epOut : EndpointDescriptor} {t : ℕ} {d d' : Device} {l : Label}
    (h : Served (· <+: ·) epIn epOut t d) (hl : WriteInTurn t d l)
    (hs : TransferSteps.step d l = some d') : Served (· <+: ·) epIn epOut t d' := by
  have serves (hone : WriterExclusion.oneWriter t l = true) (hu : Uninterrupted d l) :
      Served (· <+: ·) epIn epOut t d' := served_step h ⟨hone,hu, leaves_prefix d l⟩ hs
  cases l with
  | openWrite w =>
      have hsame : writeHalf d' = writeHalf d := by
        cases hs
        cases w with
        | outgoingWrite =>
            have hoff : d.nr.outgoingWrite = false := hl
            simp [writeHalf,UsbNr.openWrite,hoff]
        | lenInBuffer | ongoingRead => rfl
      refine ⟨?_,h.2.step hs⟩
      rw [hsame]
      exact h.1
  | beginWrite u filp payload =>
      have hu : u = t := hl
      exact serves (by simp [WriterExclusion.oneWriter,hu]) trivial
  | signal u => exact serves rfl hl
  | _ => exact serves rfl trivial

/-- The URBs that a device accepts are, one after the other, the writes that return
their count, and one more at most while a write is under way, called on files that
were opened on the node of this device. -/
theorem system_writes_exact (host : Host) {ms : List Move} {w : World}
    (hrun : run (move host) .start ms = some w) {r t : ℕ} {c : Cell} (hc : w.record r = some c)
    (hturn : Along (move host) (OnRecord r (WriteInTurn t)) .start ms) :
    WritesExact t c.device ∧ ∀ f, Serves c.device f →
      ∃ file, w.files[f]? = some file ∧ file.privateData = some r ∧ file.node = c.home := by
  have hserved : ∃ epIn epOut, Served (· <+: ·) epIn epOut t c.device := by
    refine device_invariant (I := fun d => ∃ epIn epOut, Served (· <+: ·) epIn epOut t d)
      (fun epIn epOut memIn memOut => ⟨epIn,epOut,served_opened⟩) ?_ hturn hrun hc
    rintro d l d' ⟨epIn,epOut,h⟩ hl hs
    exact ⟨epIn,epOut,served_in_turn h hl hs⟩
  obtain ⟨_,_,hsequential,_⟩ := hserved
  exact ⟨hsequential.writesExact,fun f hf => (routed_run hrun).home hc hf⟩

/-- A write on the second device while the first is read from and unplugged. -/
def writeBesideRead : List Move :=
  plugTwo ++ [.beginWrite 1 4 [1,2],.beginRead 0 3 64 0] ++
    (List.replicate 5 [Move.device 7 (.run 4 0),Move.device 0 (.run 3 0)]).flatten ++
      [.device 0 (.run 3 0),.device 0 (.run 3 0),.device 7 .outTakes,.device 0 (.signal 3),
        .device 7 (.outCompletes 0 2),.disconnect 0] ++
        .replicate 2 (.device 7 (.run 4 0))

theorem write_beside_read_exact :
    ∃ w ∈ run (move (canHost fun _ => 0)) .start writeBesideRead, ∃ c ∈ w.record 7,
      acceptedUrbs c.device.writeLog = [(0,[1,2])] ∧ WritesExact 4 c.device ∧
        ∀ f, Serves c.device f →
          ∃ file, w.files[f]? = some file ∧ file.privateData = some 7 ∧ file.node = c.home := by
  obtain ⟨w,hw,c,hc,hurbs⟩ : ∃ w ∈ run (move (canHost fun _ => 0)) .start writeBesideRead,
    ∃ c ∈ w.record 7, acceptedUrbs c.device.writeLog = [(0,[1,2])] := by decide
  exact ⟨w,hw,c,hc,hurbs,system_writes_exact _ hw hc (by decide)⟩

end NrDriver.SystemTransfers
