import NrDriver.TransferBounds

/-!
# In transfers that fail

`nr_read_int_callback` prints the statuses it holds for errors and then treats
the transfer like any other: it stores the length and wakes the readers. A
waiting `nr_read` decides by the length alone. It returns the bytes of a failed
transfer as data, and submits again after a failed transfer without any, as
often as it fails.
-/
namespace NrDriver.FailedTransfers
open KernelModel TransferSteps ReadHalfSteps TransferBounds LabelledRuns

/-- The call goes on as if nothing had failed: it returns a value that is no
error, hands bytes to its caller, or submits once more. -/
def goesOn (call : ℕ) : ReadEvent → Bool
  | .returned call' _ _ _ rs _ => call' == call && decide (0 ≤ rs)
  | .copied call' _ bytes => call' == call && !bytes.isEmpty
  | .submitted call' _ _ => call' == call
  | .received .. => false

/-- After this completion the call does nothing but return an error. -/
def FailureReported (s : Device) (call : ℕ) (status : ℤ) (packet : List Byte) : Prop :=
  ∀ ls s' es, run step s (.inCompletes status packet :: ls) = some s' →
    s'.readLog = s.readLog ++ es → ∀ e ∈ es, goesOn call e = false

section
variable {s : Device} {t : ℕ} {c : ReadCall} {f : Flight} {packet : List Byte} (status : ℤ)

theorem wake_of_waiting (hwait : c.pc = .testWait ∨ c.pc = .asleep) :
    c.wake = { c with pc := .testWait } := by
  rcases ReadCall.wake_cases c with ⟨_,he⟩ | ⟨hne,he⟩
  · exact he
  · rw [he,← hwait.resolve_right hne]

/-- The device after the completion that a call waited for, with the call at `pc`. -/
def landed (s : Device) (t : ℕ) (status : ℤ) (packet : List Byte) (c : ReadCall) : Device :=
  { s with
    nr := { s.nr with
      intInBuffer := s.nr.intInBuffer.put packet
      intInUrb := { s.nr.intInUrb with flight := none }
      lenInBuffer := packet.length
      ongoingRead := false }
    job := Function.update (fun u => wakeReader (s.job u)) t (.reading c)
    packets := s.packets + 1
    readLog := s.readLog ++ [.received status (reportedStatus status) packet] }

theorem completes_landed (hj : s.job t = .reading c) (hwait : c.pc = .testWait ∨ c.pc = .asleep)
    (hf : s.nr.intInUrb.flight = some f) (hlen : packet.length ≤ f.length) :
    step s (.inCompletes status packet) =
      some (landed s t status packet { c with pc := .testWait }) := by
  have hjob : (fun u => wakeReader (s.job u)) = Function.update (fun u => wakeReader (s.job u)) t
      (.reading { c with pc := .testWait }) := by
    rw [eq_comm,Function.update_eq_self_iff,hj]
    simp only [wakeReader,wake_of_waiting hwait]
  simp only [step,inCompletes,hf,hlen,if_true,nrReadIntCallback,landed]
  rw [← hjob]

theorem failed_packet_returned (hj : s.job t = .reading c)
    (hwait : c.pc = .testWait ∨ c.pc = .asleep) (hf : s.nr.intInUrb.flight = some f)
    (hlen : packet.length ≤ f.length) (hne : packet ≠ []) (hsize : packet.length < 2^63) :
    ∃ s', run step s (.inCompletes status packet :: List.replicate 7 (.run t 0)) = some s' ∧
      s'.readLog = s.readLog ++ [.received status (reportedStatus status) packet,
        .copied c.id (s.packets + 1) packet,
        .returned c.id c.filp c.count packet packet.length
          (toSsize (c.ppos + packet.length))] := by
  have hpos : 0 < packet.length := List.length_pos_iff.mpr hne
  have hcopied : copyToUser (s.nr.intInBuffer.put packet) packet.length 0 = packet :=
    Buffer.get_put _ _
  have hzero : toSize (toSsize 0) = 0 := by decide
  have hsub : sizeSub packet.length 0 = packet.length :=
    sizeSub_of_le (Nat.zero_le _) (by omega)
  have hvalue : toSsize packet.length = packet.length := toSsize_natCast hsize
  rw [run_cons_some (completes_landed status hj hwait hf hlen)]
  simp [List.replicate,run,step,landed,runRead,readStep,readEvents,hpos,hcopied,hzero,hsub,hvalue]

theorem failed_empty_resubmitted (hj : s.job t = .reading c)
    (hwait : c.pc = .testWait ∨ c.pc = .asleep) (hf : s.nr.intInUrb.flight = some f) :
    ∃ s' urb, run step s (.inCompletes status [] :: List.replicate 6 (.run t 0)) = some s' ∧
      s'.readLog = s.readLog ++ [.received status (reportedStatus status) [],
        .submitted c.id urb 0] ∧ s'.nr.intInUrb.flight ≠ none ∧
      s'.job t = .reading { c with rs := 0, pc := .testWait } := by
  rw [run_cons_some (completes_landed status hj hwait hf (Nat.zero_le _))]
  simp [List.replicate,run,step,landed,runRead,readStep,readEvents,usbSubmitUrb]

/-- A submission by the call. -/
def submits (call : ℕ) : ReadEvent → Bool
  | .submitted call' _ _ => call' == call
  | _ => false

theorem failing_endpoint_keeps_submitting (hj : s.job t = .reading c)
    (hwait : c.pc = .testWait ∨ c.pc = .asleep) (hf : s.nr.intInUrb.flight ≠ none) (n : ℕ) :
    ∃ ls s' c', run step s ls = some s' ∧ (∀ l ∈ ls, l = .inCompletes status [] ∨ l = .run t 0) ∧
      s'.job t = .reading c' ∧ c'.id = c.id ∧ (c'.pc = .testWait ∨ c'.pc = .asleep) ∧
      s'.nr.intInUrb.flight ≠ none ∧
      s'.readLog.countP (submits c.id) = s.readLog.countP (submits c.id) + n := by
  induction n with
  | zero => exact ⟨[],s,c,rfl,by simp,hj,rfl,hwait,hf,rfl⟩
  | succ n ih =>
      obtain ⟨ls,u,d,hrun,hls,hu,hid,hwait',hf',hcount⟩ := ih
      obtain ⟨f,hflight⟩ := Option.ne_none_iff_exists'.mp hf'
      obtain ⟨s',urb,hs',hlog,hfs,hjs⟩ :=
        failed_empty_resubmitted status hu hwait' hflight
      refine ⟨ls ++ .inCompletes status [] :: List.replicate 6 (.run t 0),s',_,?_,?_,hjs,hid,
        .inl rfl,hfs,?_⟩
      · rw [run_append,hrun]
        exact hs'
      · intro l hl
        simp only [List.mem_append,List.mem_cons,List.mem_replicate] at hl
        rcases hl with hl | hl | ⟨_,hl⟩
        · exact hls l hl
        · exact .inl hl
        · exact .inr hl
      · have hround : List.countP (submits c.id)
            [.received status (reportedStatus status) [],.submitted d.id urb 0] = 1 := by
          simp [submits,hid]
        rw [hlog,List.countP_append,hcount,hround]
        omega

end

/-- In no reachable state does a failed transfer reach a reader that waits for
it, whatever its status and its bytes are. -/
theorem failure_never_reported (epIn epOut : EndpointDescriptor) (memIn memOut : ℕ → Byte)
    {ls : List Label} {s : Device}
    (hrun : run step (.opened epIn epOut memIn memOut) ls = some s) {t : ℕ} {c : ReadCall}
    (hj : s.job t = .reading c) (hwait : c.pc = .testWait ∨ c.pc = .asleep) {f : Flight}
    (hf : s.nr.intInUrb.flight = some f) {status : ℤ} (_ : reportedStatus status = true)
    {packet : List Byte} (hlen : packet.length ≤ f.length) :
    ¬ FailureReported s c.id status packet := by
  intro hreported
  by_cases hempty : packet = []
  · subst hempty
    obtain ⟨s',urb,hs',hlog,_,_⟩ := failed_empty_resubmitted status hj hwait hf
    have hno := hreported _ s' _ hs' hlog (.submitted c.id urb 0) (by simp)
    simp [goesOn] at hno
  · have hbounds : Bounds epIn epOut s :=
      (bounds_probed epIn epOut memIn memOut).run hrun
    have hflying := hbounds.1.flying f hf
    have hpacket := epIn.packetSize_lt
    obtain ⟨s',hs',hlog⟩ := failed_packet_returned status hj hwait hf hlen hempty
      (by omega)
    have hno := hreported _ s' _ hs' hlog (.returned c.id c.filp c.count packet packet.length
      (toSsize (c.ppos + packet.length))) (by simp)
    simp [goesOn] at hno

/-- A reader that sleeps while its URB is in flight. -/
def sleepingReader : List Label :=
  [.beginRead 0 0 64 0,.run 0 0,.run 0 0,.run 0 0,.run 0 0,.run 0 0,.run 0 0,.run 0 0]

theorem sleeping_reader_never_told :
    ∃ s ∈ run step canDevice sleepingReader, readerAt s 0 = some .asleep ∧
      ¬ FailureReported s 0 (-71) [7] := by
  obtain ⟨s,hs,hj,hf⟩ : ∃ s ∈ run step canDevice sleepingReader,
    s.job 0 = .reading ⟨0,0,64,0,0,[],.asleep⟩ ∧ s.nr.intInUrb.flight = some ⟨64,0,[],[]⟩ := by
      decide
  refine ⟨s,hs,by simp [readerAt,hj],?_⟩
  exact failure_never_reported canIn canOut (fun _ => 0) (fun _ => 0) hs hj (.inr rfl) hf
    (by decide) (by decide)

/-- The transfer of the sleeping reader fails with a protocol error after one
byte, which its call returns. -/
theorem failed_byte_returned_as_data :
    reportedStatus (-71) = true ∧
      ∃ s ∈ run step canDevice (sleepingReader ++
        .inCompletes (-71) [7] :: List.replicate 7 (.run 0 0)),
        .received (-71) true [7] ∈ s.readLog ∧ .returned 0 0 64 [7] 1 1 ∈ s.readLog := by
  decide

end NrDriver.FailedTransfers
