import NrDriver.SequentialWriter

/-!
# What a write reports about its URB

The callback prints the status of a URB and wakes the writer, which returns its
count. On runs with one writer and no signal during its wait, a call therefore
reports its URB truly exactly if the URB completed with status zero and with all
the bytes of the call.

Further opens are allowed here, as long as none of them clears `outgoing_write`
between the assignment of a call and the end of its wait.
-/
namespace NrDriver.WriteReports
open KernelModel TransferSteps WriteHalfSteps TransferBounds WriterExclusion PayloadIntegrity
  SequentialWriter LabelledRuns

/-- Only thread `w` writes; any thread may read or open the device. -/
def writtenBy (w : ℕ) : Label → Bool
  | .beginWrite t _ _ => t == w
  | _ => true

/-- The statements from which on a call needs `outgoing_write` as it set it. -/
def relying : WritePc → Bool
  | .submit | .testWait | .asleep => true
  | _ => false

/-- No `nr_open` clears the flag of a call that relies on it. -/
def OpensApart (w : ℕ) (s : Device) : Label → Prop
  | .openWrite .outgoingWrite => ∀ pc ∈ writerAt s w, relying pc = false
  | _ => True

instance (w : ℕ) (s : Device) (l : Label) : Decidable (OpensApart w s l) :=
  match l with
  | .openWrite .outgoingWrite => inferInstanceAs (Decidable (∀ pc ∈ _, _))
  | .openWrite .lenInBuffer | .openWrite .ongoingRead | .beginRead .. | .beginWrite .. | .run ..
  | .signal _ | .inCompletes .. | .outTakes | .outCompletes .. => isTrue trivial

/-- What the return value of a call says of the URB of the call: a positive one
that so many bytes of the payload were transferred without an error, and any
other than a negative one that no error was reported. -/
def Honest (log : List WriteEvent) (id : ℕ) (payload : List Byte) (retval : ℤ) : Prop :=
  (0 < retval → ∃ p length bytes reported, .transferred id p length bytes 0 reported ∈ log ∧
    bytes <+: payload ∧ (bytes.length : ℤ) = retval) ∧
  ∀ p length bytes status, .transferred id p length bytes status true ∈ log → retval < 0

/-- Every call is honest when it returns. -/
def WritesHonest (log : List WriteEvent) : Prop :=
  ∀ before id filp payload (retval : ℤ) after,
    log = before ++ .returned id filp payload retval :: after → Honest before id payload retval

/-- The URB of the call, if it was accepted, completed with status zero and with
all the bytes of the call. -/
def Complete (log : List WriteEvent) (id : ℕ) (payload : List Byte) : Prop :=
  ∀ p length bytes status reported, .transferred id p length bytes status reported ∈ log →
    status = 0 ∧ bytes.length = payload.length

section Opens
variable {G : List Byte → List Byte → Prop} {epIn epOut : EndpointDescriptor} {w : ℕ}

theorem opened {v : WriteHalf} (h : Sequential G w v)
    (hpc : ∀ c, v.call w = some c → relying c.pc = false) :
    Sequential G w { v with outgoing := false } := by
  refine ⟨h.sole,h.issued,h.unissued,h.past,h.idle,?_,h.settled⟩
  intro c hc
  have hstage := h.stage c hc
  have hrests := hpc c hc
  cases hp : c.pc <;> simp only [Stage,hp,relying,Bool.true_eq_false] at hstage hrests ⊢
  case checkCount | copy => exact hstage.of_same rfl rfl rfl
  case fill | setOutgoing => exact ⟨hstage.1.of_same rfl rfl rfl,hstage.2⟩
  case exit =>
      rcases hstage with ⟨hneg,hquiet⟩ | ⟨hret,hlanded⟩
      · exact .inl ⟨hneg,hquiet.of_same rfl rfl rfl⟩
      · exact .inr ⟨hret,hlanded.flight,rfl,hlanded.urbs,hlanded.sent⟩

/-- The steps of a single writer, with opens that leave its flag alone. -/
theorem served_opens {s s' : Device} {l : Label} (h : Served (· <+: ·) epIn epOut w s)
    (hl : writtenBy w l = true) (hu : Uninterrupted s l) (ho : OpensApart w s l)
    (hs : step s l = some s') : Served (· <+: ·) epIn epOut w s' := by
  refine ⟨writeHalf_kept h.1 hs fun a ha hw => ?_,h.2.step hs⟩
  have hleaves : Leaves (· <+: ·) s l := leaves_prefix s l
  have orderly (hone : oneWriter w l = true) : Sequential (· <+: ·) w (writeHalf s') :=
    h.1.step h.2.2 (orderly_of hone hu hleaves ha) hw
  cases l with
  | openWrite f =>
      cases f <;> cases ha
      cases hs
      exact opened h.1 fun c hc => ho c.pc (writerAt_of_call hc)
  | beginWrite => exact orderly hl
  | _ => exact orderly rfl

theorem served_run_opens {memIn memOut : ℕ → Byte} {ls : List Label} {s : Device}
    (hone : ∀ l ∈ ls, writtenBy w l = true)
    (hu : Along step Uninterrupted (.opened epIn epOut memIn memOut) ls)
    (ho : Along step (OpensApart w) (.opened epIn epOut memIn memOut) ls)
    (hrun : run step (.opened epIn epOut memIn memOut) ls = some s) :
    Served (· <+: ·) epIn epOut w s := by
  refine run_invariant (I := Served (· <+: ·) epIn epOut w)
    (P := fun s l => writtenBy w l = true ∧ Uninterrupted s l ∧ OpensApart w s l) ?_ served_opened
    (.labels_and hone (.and hu ho)) hrun
  exact fun s l u h hP hs => served_opens h hP.1 hP.2.1 hP.2.2 hs

end Opens

/-- The handler judges every status by `reportedStatus`, and no call returns zero. -/
def EventOk : WriteEvent → Prop
  | .transferred _ _ _ _ status reported => reported = reportedStatus status
  | .returned _ _ payload retval => retval < 0 ∨ 0 < payload.length
  | .submitted .. => True

structure Accounts (v : WriteHalf) : Prop where
  log : ∀ e ∈ v.log, EventOk e
  exit : ∀ t c, v.call t = some c → c.pc = .exit → c.retval < 0 ∨ 0 < c.payload.length

theorem Accounts.step {ep : EndpointDescriptor} {v v' : WriteHalf} {a : WriteAct}
    (h : Accounts v) (hb : WriteBounds ep v) (hs : WriteHalf.Step v a v') : Accounts v' := by
  have put {t : ℕ} {c : WriteCall} (hc : c.pc = .exit → c.retval < 0 ∨ 0 < c.payload.length) :
      ∀ u d, (v.put t c).call u = some d → d.pc = .exit → d.retval < 0 ∨ 0 < d.payload.length := by
    refine forall_update h.exit ?_
    rintro _ ⟨⟩ hpc
    exact hc hpc
  have snoc {e : WriteEvent} (he : EventOk e) : ∀ x ∈ v.log ++ [e], EventOk x := by
    intro x hx
    rcases List.mem_append.mp hx with hx | hx
    · exact h.log x hx
    · rwa [List.mem_singleton.mp hx]
  have counts {t : ℕ} {c : WriteCall} (hc : v.call t = some c) (hw : waiting c.pc = true) :
      0 < c.payload.length := by
    refine (hb.count t c hc ?_).1
    cases hpc : c.pc <;> simp [hpc,waiting,counted] at hw ⊢
  cases hs with
  | begins => exact ⟨h.log,put (by simp [WriteCall.start])⟩
  | rejects => exact ⟨h.log,put fun _ => .inl (by simp [EINVAL])⟩
  | faults => exact ⟨h.log,put fun _ => .inl (by simp [EFAULT])⟩
  | submits =>
      refine ⟨snoc ?_,put (by simp)⟩
      trivial
  | refused _ _ hcode =>
      refine ⟨snoc ?_,put fun _ => .inl hcode⟩
      trivial
  | waitEnds hc hpc =>
      have hpos := counts hc (by simp [hpc,waiting])
      exact ⟨h.log,put fun _ => .inr hpos⟩
  | interrupted => exact ⟨h.log,put fun _ => .inl (by simp [ERESTARTSYS])⟩
  | signalLate hc hpc =>
      have hpos := counts hc (by rcases hpc with hpc | hpc <;> simp [hpc,waiting])
      exact ⟨h.log,put fun _ => .inr hpos⟩
  | @returns t k c hc hpc =>
      exact ⟨snoc (h.exit t c hc hpc),forall_update h.exit (by simp)⟩
  | takes => exact ⟨h.log,h.exit⟩
  | completes =>
      refine ⟨snoc ?_,fun u d hd hpc => ?_⟩
      · rfl
      obtain ⟨c,hc,rfl⟩ := Option.map_eq_some_iff.mp hd
      rcases WriteCall.wake_cases c with ⟨_,he⟩ | ⟨_,he⟩
      · simp [he] at hpc
      · rw [he] at hpc ⊢
        exact h.exit u c hc hpc
  | opens => exact ⟨h.log,h.exit⟩
  | _ => exact ⟨h.log,put (by simp)⟩

theorem accounts_run {epIn epOut : EndpointDescriptor} {memIn memOut : ℕ → Byte} {ls : List Label}
    {s : Device} (hrun : run step (.opened epIn epOut memIn memOut) ls = some s) :
    Accounts (writeHalf s) := by
  refine (run_kept (I := fun s => Accounts (writeHalf s) ∧ Bounds epIn epOut s) ?_
    ⟨⟨?_,?_⟩,bounds_probed epIn epOut memIn memOut⟩ hrun).1
  · intro s l u h hs
    exact ⟨writeHalf_kept h.1 hs fun _ _ hw => h.1.step h.2.2 hw,h.2.step hs⟩
  · intro e he
    cases he
  · intro t c hc
    cases hc

theorem mem_transfersOf {log : List WriteEvent} {id : ℕ} {bytes : List Byte} :
    bytes ∈ transfersOf id log ↔
      ∃ p length status reported, .transferred id p length bytes status reported ∈ log := by
  simp only [transfersOf,List.mem_filterMap]
  constructor
  · rintro ⟨e,he,hsome⟩
    cases e <;> simp only [transferOf,reduceCtorEq] at hsome
    split_ifs at hsome with hid
    cases hsome
    subst hid
    exact ⟨_,_,_,_,he⟩
  · rintro ⟨p,length,status,reported,hmem⟩
    exact ⟨_,hmem,by simp [transferOf]⟩

theorem eq_of_filterMap_singleton {α β : Type*} {f : α → Option β} {l : List α} {b c d : β}
    {x y : α} (h : l.filterMap f = [b]) (hx : x ∈ l) (hy : y ∈ l) (hfx : f x = some c)
    (hfy : f y = some d) : x = y := by
  induction l with
  | nil => cases hx
  | cons a l ih =>
      cases ha : f a with
      | none =>
          rw [List.filterMap_cons_none ha] at h
          have later {z : α} {e : β} (hz : z ∈ a :: l) (hfz : f z = some e) : z ∈ l := by
            rcases List.mem_cons.mp hz with rfl | hz
            · simp [ha] at hfz
            · exact hz
          exact ih h (later hx hfx) (later hy hfy)
      | some e =>
          rw [List.filterMap_cons_some ha] at h
          obtain ⟨-,hrest⟩ := List.cons.inj h
          have first {z : α} {e : β} (hz : z ∈ a :: l) (hfz : f z = some e) : z = a := by
            rcases List.mem_cons.mp hz with rfl | hz
            · rfl
            · simp [List.filterMap_eq_nil_iff.mp hrest z hz] at hfz
          rw [first hx hfx,first hy hfy]

theorem honest_iff_of_transfer {log : List WriteEvent} {id : ℕ} {payload bytes : List Byte}
    (hlog : ∀ e ∈ log, EventOk e) (hpos : 0 < payload.length) (hfirst : bytes <+: payload)
    (hone : transfersOf id log = [bytes]) :
    Honest log id payload payload.length ↔ Complete log id payload := by
  obtain ⟨p,length,status,reported,hmem⟩ :=
    mem_transfersOf.mp (hone ▸ List.mem_singleton_self bytes)
  have kept (p : List Byte) (length : ℕ) (bytes : List Byte) (status : ℤ) (reported : Bool) :
      transferOf id (.transferred id p length bytes status reported) = some bytes := by
    simp [transferOf]
  have only {p' : List Byte} {length' : ℕ} {bytes' : List Byte} {status' : ℤ} {reported' : Bool}
      (h : .transferred id p' length' bytes' status' reported' ∈ log) :
      bytes' = bytes ∧ status' = status ∧ reported' = reported := by
    have he := eq_of_filterMap_singleton hone h hmem (kept ..) (kept ..)
    obtain ⟨-,-,-,hbytes,hstatus,hreported⟩ := WriteEvent.transferred.inj he
    exact ⟨hbytes,hstatus,hreported⟩
  have hreported : reported = reportedStatus status := hlog _ hmem
  constructor
  · intro h p' length' bytes' status' reported' hmem'
    obtain ⟨q,m,sent,r,hsent,_,hlen⟩ := h.1 (by omega)
    obtain ⟨hbytes,hstatus,-⟩ := only hmem'
    obtain ⟨hsent,hzero,-⟩ := only hsent
    rw [hbytes,hstatus,← hsent,← hzero]
    exact ⟨rfl,by omega⟩
  · intro h
    obtain ⟨hzero,hlen⟩ := h p length bytes status reported hmem
    subst hzero
    constructor
    · exact fun _ => ⟨p,length,bytes,reported,hmem,hfirst,by rw [hlen]⟩
    · intro p' length' bytes' status' hmem'
      have htrue : true = reported := (only hmem').2.2
      rw [hreported] at htrue
      cases htrue

/-- With one writer and no signal during its wait, a call reports the outcome of
its URB truly if and only if the URB completed, where it was accepted, with
status zero and all bytes. -/
theorem honest_iff_complete {epIn epOut : EndpointDescriptor} {memIn memOut : ℕ → Byte} {w : ℕ}
    {ls : List Label} {s : Device} (hone : ∀ l ∈ ls, writtenBy w l = true)
    (hu : Along step Uninterrupted (.opened epIn epOut memIn memOut) ls)
    (ho : Along step (OpensApart w) (.opened epIn epOut memIn memOut) ls)
    (hrun : run step (.opened epIn epOut memIn memOut) ls = some s) :
    ∀ before id filp payload (retval : ℤ) after,
      s.writeLog = before ++ .returned id filp payload retval :: after →
        (Honest before id payload retval ↔ Complete before id payload) := by
  intro before id filp payload retval after heq
  have hserved := served_run_opens hone hu ho hrun
  have hlog : ∀ e ∈ s.writeLog, EventOk e := (accounts_run hrun).log
  have hbefore (e : WriteEvent) (he : e ∈ before) : EventOk e := hlog e (by simp [heq,he])
  have hpositive : retval < 0 ∨ 0 < payload.length :=
    hlog (.returned id filp payload retval) (by simp [heq])
  obtain ⟨hreported,_⟩ := hserved.1.settled before id filp payload retval after heq
  rcases hreported with ⟨hneg,hnone⟩ | ⟨hret,bytes,hfirst,hsent⟩
  · -- nothing was submitted, or the submission was refused
    have absent {p : List Byte} {length : ℕ} {bytes : List Byte} {status : ℤ} {reported : Bool}
        (hmem : .transferred id p length bytes status reported ∈ before) : False := by
      have hsome := mem_transfersOf.mpr ⟨p,length,status,reported,hmem⟩
      simp [hnone] at hsome
    constructor
    · exact fun _ p length bytes status reported hmem => (absent hmem).elim
    · exact fun _ => ⟨fun hpos => by omega,fun p length bytes status hmem => (absent hmem).elim⟩
  · subst hret
    exact honest_iff_of_transfer hbefore (by omega) hfirst hsent

/-- A full transfer, the file opened again, and a transfer that fails with -EPROTO. -/
def failedTransfer : List Label :=
  [.beginWrite 0 0 [1,2],.run 0 0,.run 0 0,.run 0 0,.run 0 0,.run 0 0,.outTakes,.outCompletes 0 2,
    .run 0 0,.run 0 0,.openWrite .lenInBuffer,.openWrite .ongoingRead,.openWrite .outgoingWrite,
    .beginWrite 0 1 [3],.run 0 0,.run 0 0,.run 0 0,.run 0 0,.run 0 0,.run 0 0,
    .outCompletes (-71) 0,.run 0 0,.run 0 0]

theorem failed_transfer_judged :
    ∃ s ∈ run step canDevice failedTransfer,
      ∀ before id filp payload (retval : ℤ) after,
        s.writeLog = before ++ .returned id filp payload retval :: after →
          (Honest before id payload retval ↔ Complete before id payload) := by
  obtain ⟨s,hs⟩ := Option.isSome_iff_exists.mp
    (show (run step canDevice failedTransfer).isSome = true by decide)
  exact ⟨s,hs,honest_iff_complete (w := 0) (by decide) (by decide) (by decide) hs⟩

/-- The device received nothing of the second write, which returns its count. -/
theorem failed_transfer_reported_done :
    (∀ l ∈ failedTransfer, writtenBy 0 l = true ∧ ∀ t, l ≠ .signal t) ∧
      ∃ s ∈ run step canDevice failedTransfer,
        .transferred 1 [3] 1 [] (-71) true ∈ s.writeLog ∧ .returned 1 1 [3] 1 ∈ s.writeLog ∧
          ¬ WritesHonest s.writeLog := by
  constructor
  · simp [failedTransfer,writtenBy]
  · obtain ⟨s,hs,hlast,hmem⟩ : ∃ s ∈ run step canDevice failedTransfer,
        s.writeLog = s.writeLog.dropLast ++ [.returned 1 1 [3] 1] ∧
          .transferred 1 [3] 1 [] (-71) true ∈ s.writeLog.dropLast := by decide
    refine ⟨s,hs,?_,?_,fun hhonest => ?_⟩
    · rw [hlast]
      exact List.mem_append_left _ hmem
    · rw [hlast]
      exact List.mem_append_right _ (List.mem_singleton_self _)
    · have hneg := (hhonest _ 1 1 [3] 1 [] hlast).2 [3] 1 [] (-71) hmem
      omega

end NrDriver.WriteReports
