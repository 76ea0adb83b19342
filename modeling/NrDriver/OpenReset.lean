import NrDriver.SingleReader

/-!
# Opens beside running transfers

`nr_open` assigns `len_in_buffer`, `ongoing_read` and `outgoing_write` of a
record that other files may be using. Its three assignments are labels of the
device, so that a run can have any number of opens, each cut up by the steps of
the reads and writes. `nr_release` does nothing to the record and has no label.

An assignment is harmless exactly where the field already has the value it
assigns. On a run where all of them are, the opens can be left out.
-/
namespace NrDriver.OpenReset
open KernelModel TransferSteps SingleReader LabelledRuns

/-- The labels of the files already open. -/
def notOpen : Label → Bool
  | .openWrite _ => false
  | _ => true

def withoutOpens (ls : List Label) : List Label := ls.filter notOpen

/-- The results and the submissions of the reads and writes. -/
def seen (s : Device) : List ReadEvent × List WriteEvent := (s.readLog,s.writeLog)

/-- An assignment of `nr_open` keeps the three fields as they are. -/
def OpenKeeps (s : Device) : Label → Prop
  | .openWrite w => (s.nr.openWrite w).lenInBuffer = s.nr.lenInBuffer ∧
      (s.nr.openWrite w).ongoingRead = s.nr.ongoingRead ∧
      (s.nr.openWrite w).outgoingWrite = s.nr.outgoingWrite
  | _ => True

/-- The length is reset only when no received byte is undelivered, and each flag
only when it says that no transfer is going on. -/
def OpenQuiet (s : Device) : Label → Prop
  | .openWrite .lenInBuffer => s.nr.lenInBuffer = 0
  | .openWrite .ongoingRead => s.nr.ongoingRead = false
  | .openWrite .outgoingWrite => s.nr.outgoingWrite = false
  | _ => True

theorem openKeeps_iff (s : Device) (l : Label) : OpenKeeps s l ↔ OpenQuiet s l := by
  cases l with
  | openWrite w =>
      cases w <;> simp only [OpenKeeps,UsbNr.openWrite,OpenQuiet,and_true,true_and]
      all_goals exact eq_comm
  | _ => exact Iff.rfl

theorem openWrite_of_quiet {s : Device} {w : OpenWrite} (h : OpenQuiet s (.openWrite w)) :
    s.nr.openWrite w = s.nr := by
  cases w with
  | lenInBuffer =>
      have hlen : s.nr.lenInBuffer = 0 := h
      simp only [UsbNr.openWrite]
      rw [← hlen]
  | ongoingRead =>
      have hon : s.nr.ongoingRead = false := h
      simp only [UsbNr.openWrite]
      rw [← hon]
  | outgoingWrite =>
      have hout : s.nr.outgoingWrite = false := h
      simp only [UsbNr.openWrite]
      rw [← hout]

theorem step_of_quiet (s : Device) (l : Label) (h : OpenQuiet s l) (hl : notOpen l = false) :
    step s l = some s := by
  cases l with
  | openWrite w => simp only [step,openWrite_of_quiet h]
  | _ => cases hl

/-- The opens of a run keep the three fields and leave what the other files see
as it would be without them, exactly when each assignment is quiet. -/
theorem opens_disturb_nothing_iff (s : Device) (ls : List Label) :
    (Along step OpenKeeps s ls ∧
      (run step s ls).map seen = (run step s (withoutOpens ls)).map seen) ↔
      Along step OpenQuiet s ls := by
  constructor
  · exact fun h => h.1.imp fun s l => (openKeeps_iff s l).mp
  · intro h
    refine ⟨h.imp fun s l => (openKeeps_iff s l).mpr,?_⟩
    rw [run_filter step_of_quiet h,withoutOpens]

/-- An open between the completion of an abandoned transfer and the call that
would collect its packet. -/
def openOverPacket : List Label :=
  signalThenPacket.take 11 ++
    [.openWrite .lenInBuffer,.openWrite .ongoingRead,.openWrite .outgoingWrite] ++
    signalThenPacket.drop 11

/-- The length is two before the open and zero after it. Without the open the
second call returns both bytes; with it the call submits again and sleeps. -/
theorem open_over_packet_loses_it :
    (∃ s ∈ run step canDevice (openOverPacket.take 11),
      s.nr.lenInBuffer = 2 ∧ s.nrOpen.nr.lenInBuffer = 0) ∧
    (∃ s ∈ run step canDevice openOverPacket,
      deliveredBytes s.readLog = [] ∧ s.nr.lenInBuffer = 0 ∧ readerAt s 0 = some .asleep) ∧
    ∃ s ∈ run step canDevice (withoutOpens openOverPacket),
      deliveredBytes s.readLog = [7,8] ∧ readerAt s 0 = none := by
  decide

end NrDriver.OpenReset
