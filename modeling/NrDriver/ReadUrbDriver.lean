import NrDriver.EchoWrites
import NrDriver.Independence
import NrDriver.LogRefinement

/-!
# The driver that reads through a URB and prints what is written

`driver_read_urb.c`, the last step before `nr_driver.c`. Its `nr_read` sets
`flag` after a wait and after a submission, which `nr_driver.c` no longer does,
and its `nr_write` only prints. The reads of the two drivers are the same: each
leaves the logs the other can leave (`same_read_logs`). `lower` forgets the flag
and the printing writes; the two assignments of the flag are then steps that
nobody sees.
-/
namespace NrDriver.ReadUrbDriver
open KernelModel LabelledRuns EchoWrites LogRefinement
open TransferSteps (ReadEvent)

/-- `struct usb_nr` once `nr_probe` has filled it, less `usbdev` and the queue. -/
structure UsbNr where
  flag : ℤ
  intInEndpoint : EndpointDescriptor
  intOutEndpoint : EndpointDescriptor
  intInUrb : Urb
  intInBuffer : Buffer
  lenInBuffer : ℕ
  ongoingRead : Bool
  deriving DecidableEq, Repr

def nrReadIntCallback (dev : UsbNr) (status : ℤ) (actualLength : ℕ) : UsbNr × Bool :=
  ({ dev with lenInBuffer := actualLength, ongoingRead := false },reportedStatus status)

/-- The three fields `nr_open` assigns, in its order. -/
inductive OpenWrite where
  | flag | lenInBuffer | ongoingRead
  deriving DecidableEq, Repr

def UsbNr.openWrite (dev : UsbNr) : OpenWrite → UsbNr
  | .flag => { dev with flag := 0 }
  | .lenInBuffer => { dev with lenInBuffer := 0 }
  | .ongoingRead => { dev with ongoingRead := false }

/-- The statements of `nr_read`; `flagWaited` and `flagSubmitted` are the two
assignments of the flag. -/
inductive ReadPc where
  | testOngoing | testWait | asleep | flagWaited | testLen
  | copy | position | result | clear
  | fill | submit | setOngoing | flagSubmitted | exit
  deriving DecidableEq, Repr

structure ReadCall where
  id : ℕ
  filp : ℕ
  count : ℕ
  ppos : ℤ
  rs : ℤ
  user : List Byte
  pc : ReadPc
  deriving DecidableEq, Repr

def ReadCall.start (id filp count : ℕ) (ppos : ℤ) : ReadCall :=
  ⟨id,filp,count,ppos,0,[],.testOngoing⟩

/-- One statement of `nr_read`; `none` while it sleeps and after its end. -/
def readStep (dev : UsbNr) (c : ReadCall) (k : ℕ) : Option (UsbNr × ReadCall) :=
  match c.pc with
  | .testOngoing =>
      some (dev,{ c with pc := if dev.ongoingRead then .testWait else .testLen })
  | .testWait =>
      if dev.ongoingRead then some (dev,{ c with pc := .asleep })
      else some (dev,{ c with rs := 0, pc := .flagWaited })
  | .asleep => none
  | .flagWaited => some ({ dev with flag := 1 },{ c with pc := .testLen })
  | .testLen =>
      some (dev,{ c with pc := if 0 < dev.lenInBuffer then .copy else .fill })
  | .copy =>
      if k ≤ dev.lenInBuffer then
        some (dev,{ c with
          user := copyToUser dev.intInBuffer dev.lenInBuffer k
          rs := toSsize k
          pc := .position })
      else none
  | .position =>
      some (dev,{ c with
        ppos := toSsize (c.ppos + sizeSub dev.lenInBuffer (toSize c.rs))
        pc := .result })
  | .result =>
      some (dev,{ c with
        rs := toSsize (sizeSub dev.lenInBuffer (toSize c.rs))
        pc := .clear })
  | .clear => some ({ dev with lenInBuffer := 0 },{ c with pc := .exit })
  | .fill =>
      let urb := usbFillIntUrb dev.intInUrb (.rcvint dev.intInEndpoint.bEndpointAddress)
        dev.intInEndpoint.packetSize dev.intInEndpoint.bInterval
      some ({ dev with intInUrb := urb },{ c with pc := .submit })
  | .submit =>
      let r := usbSubmitUrb dev.intInUrb c.id [] k
      some ({ dev with intInUrb := r.2 },
        { c with rs := r.1, pc := if r.1 < 0 then .exit else .setOngoing })
  | .setOngoing => some ({ dev with ongoingRead := true },{ c with pc := .flagSubmitted })
  | .flagSubmitted => some ({ dev with flag := 1 },{ c with pc := .testOngoing })
  | .exit => none

/-- A signal ends the wait, unless its condition is seen true first. -/
def readSignal (dev : UsbNr) (c : ReadCall) : Option ReadCall :=
  match c.pc with
  | .testWait | .asleep =>
      if dev.ongoingRead then some { c with rs := -ERESTARTSYS, pc := .exit }
      else some { c with rs := 0, pc := .flagWaited }
  | _ => none

def ReadCall.wake (c : ReadCall) : ReadCall :=
  if c.pc = .asleep then { c with pc := .testWait } else c

/-- The record, the running calls of either kind, and what is seen of them. -/
structure Device where
  nr : UsbNr
  call : ℕ → Option ReadCall
  echo : Echo
  reads : ℕ
  packets : ℕ
  readLog : List ReadEvent

inductive Label where
  | beginRead (t filp count : ℕ) (ppos : ℤ)
  | beginWrite (t : ℕ) (buffer : List Byte)
  | openWrite (w : OpenWrite)
  | run (t k : ℕ)
  | signal (t : ℕ)
  | inCompletes (status : ℤ) (packet : List Byte)
  deriving DecidableEq, Repr

def readEvents (s : Device) (c c' : ReadCall) : List ReadEvent :=
  match c.pc with
  | .copy => [.copied c.id s.packets c'.user]
  | .submit => [.submitted c.id s.nr.intInUrb c'.rs]
  | _ => []

def runRead (s : Device) (t : ℕ) (c : ReadCall) (k : ℕ) : Option Device :=
  if c.pc = .exit then
    some { s with
      call := Function.update s.call t none
      readLog := s.readLog ++ [.returned c.id c.filp c.count c.user c.rs c.ppos] }
  else
    (readStep s.nr c k).map fun r => { s with
      nr := r.1
      call := Function.update s.call t (some r.2)
      readLog := s.readLog ++ readEvents s c r.2 }

def inCompletes (s : Device) (status : ℤ) (packet : List Byte) : Option Device :=
  match s.nr.intInUrb.flight with
  | none => none
  | some f =>
      if packet.length ≤ f.length then
        let dev := { s.nr with
          intInBuffer := s.nr.intInBuffer.put packet
          intInUrb := { s.nr.intInUrb with flight := none } }
        let r := nrReadIntCallback dev status packet.length
        some { s with
          nr := r.1
          call := fun t => (s.call t).map ReadCall.wake
          packets := s.packets + 1
          readLog := s.readLog ++ [.received status r.2 packet] }
      else none

/-- A thread is inside one call at a time. -/
def step (s : Device) : Label → Option Device
  | .beginRead t filp count ppos =>
      if (s.call t).isSome ∨ (s.echo.call t).isSome then none
      else some { s with
        call := Function.update s.call t (some (.start s.reads filp count ppos))
        reads := s.reads + 1 }
  | .beginWrite t buffer =>
      if (s.call t).isSome then none
      else (s.echo.step (.begin t buffer)).map fun e => { s with echo := e }
  | .openWrite w => some { s with nr := s.nr.openWrite w }
  | .run t k =>
      match s.call t with
      | some c => runRead s t c k
      | none => (s.echo.step (.run t)).map fun e => { s with echo := e }
  | .signal t =>
      (s.call t).bind fun c => (readSignal s.nr c).map fun c' =>
        { s with call := Function.update s.call t (some c') }
  | .inCompletes status packet => inCompletes s status packet

/-- The record a successful `nr_probe` leaves. -/
def UsbNr.probed (epIn epOut : EndpointDescriptor) (memIn : ℕ → Byte) : UsbNr where
  flag := 0
  intInEndpoint := epIn
  intOutEndpoint := epOut
  intInUrb := usbAllocUrb
  intInBuffer := .kmalloc epIn.packetSize memIn
  lenInBuffer := 0
  ongoingRead := false

/-- A probed device, which the first `nr_open` leaves as it is. -/
def Device.opened (epIn epOut : EndpointDescriptor) (memIn : ℕ → Byte) : Device :=
  ⟨.probed epIn epOut memIn,fun _ => none,.start,0,0,[]⟩

theorem Device.nrOpen_run (epIn epOut : EndpointDescriptor) (memIn : ℕ → Byte) :
    run step (.opened epIn epOut memIn)
      [.openWrite .flag,.openWrite .lenInBuffer,.openWrite .ongoingRead] =
      some (.opened epIn epOut memIn) := rfl

/-! ## The same reads -/

def ReadPc.lower : ReadPc → TransferSteps.ReadPc
  | .testOngoing => .testOngoing
  | .testWait => .testWait
  | .asleep => .asleep
  | .flagWaited => .testLen
  | .testLen => .testLen
  | .copy => .copy
  | .position => .position
  | .result => .result
  | .clear => .clear
  | .fill => .fill
  | .submit => .submit
  | .setOngoing => .setOngoing
  | .flagSubmitted => .testOngoing
  | .exit => .exit

/-- The statements that only assign the flag. -/
def ReadPc.flags : ReadPc → Bool
  | .flagWaited | .flagSubmitted => true
  | _ => false

def ReadCall.lower (c : ReadCall) : TransferSteps.ReadCall :=
  ⟨c.id,c.filp,c.count,c.ppos,c.rs,c.user,c.pc.lower⟩

/-- The fields that `nr_driver.c` has too, beside the out fields of `out`. -/
def UsbNr.lower (out : TransferSteps.UsbNr) (dev : UsbNr) : TransferSteps.UsbNr :=
  { out with
    intInEndpoint := dev.intInEndpoint
    intInUrb := dev.intInUrb
    intInBuffer := dev.intInBuffer
    lenInBuffer := dev.lenInBuffer
    ongoingRead := dev.ongoingRead }

def lowerJob (c : Option ReadCall) : TransferSteps.Job :=
  c.elim .idle fun c => .reading c.lower

/-- The device of `nr_driver.c` with the same reads and the writes of `o`. -/
def Device.lower (o : TransferSteps.Device) (s : Device) : TransferSteps.Device where
  nr := s.nr.lower o.nr
  job t := lowerJob (s.call t)
  reads := s.reads
  writes := o.writes
  packets := s.packets
  readLog := s.readLog
  writeLog := o.writeLog

/-- The step of `nr_driver.c` that a label stands for, if it is one. -/
def act (s : Device) : Label → Option TransferSteps.Label
  | .beginRead t filp count ppos => some (.beginRead t filp count ppos)
  | .openWrite .lenInBuffer => some (.openWrite .lenInBuffer)
  | .openWrite .ongoingRead => some (.openWrite .ongoingRead)
  | .run t k => (s.call t).bind fun c => if c.pc.flags then none else some (.run t k)
  | .signal t => some (.signal t)
  | .inCompletes status packet => some (.inCompletes status packet)
  | .beginWrite .. | .openWrite .flag => none

section Lower
variable {o : TransferSteps.Device} {s s' : Device} {t k : ℕ} {c : ReadCall}

theorem lowerJob_update (call : ℕ → Option ReadCall) (t : ℕ) (c : Option ReadCall) :
    (fun u => lowerJob (Function.update call t c u)) =
      Function.update (fun u => lowerJob (call u)) t (lowerJob c) :=
  funext fun u => Function.apply_update (fun _ => lowerJob) call t c u

theorem readStep_lower (out : TransferSteps.UsbNr) (dev : UsbNr) (hpc : c.pc.flags = false) :
    TransferSteps.readStep (dev.lower out) c.lower k =
      (readStep dev c k).map fun r => (r.1.lower out,r.2.lower) := by
  obtain ⟨id,filp,count,ppos,rs,user,pc⟩ := c
  cases pc with
  | testOngoing =>
      by_cases hon : dev.ongoingRead = true <;>
        simp [readStep,TransferSteps.readStep,ReadCall.lower,UsbNr.lower,ReadPc.lower,hon]
  | testWait =>
      by_cases hon : dev.ongoingRead = true <;>
        simp [readStep,TransferSteps.readStep,ReadCall.lower,UsbNr.lower,ReadPc.lower,hon]
  | testLen =>
      by_cases hlen : 0 < dev.lenInBuffer <;>
        simp [readStep,TransferSteps.readStep,ReadCall.lower,UsbNr.lower,ReadPc.lower,hlen]
  | copy =>
      by_cases hk : k ≤ dev.lenInBuffer <;>
        simp [readStep,TransferSteps.readStep,ReadCall.lower,UsbNr.lower,ReadPc.lower,hk]
  | submit =>
      by_cases hcode : (usbSubmitUrb dev.intInUrb id [] k).1 < 0 <;>
        simp [readStep,TransferSteps.readStep,ReadCall.lower,UsbNr.lower,ReadPc.lower,hcode]
  | flagWaited | flagSubmitted => cases hpc
  | position | result =>
      simp only [readStep,TransferSteps.readStep,ReadCall.lower,ReadPc.lower,Option.map_some]
      rw [UsbNr.lower]
  | _ => rfl

theorem readSignal_lower (out : TransferSteps.UsbNr) (dev : UsbNr) (c : ReadCall) :
    TransferSteps.readSignal (dev.lower out) c.lower =
      (readSignal dev c).map ReadCall.lower := by
  unfold readSignal TransferSteps.readSignal
  cases hp : c.pc with
  | testWait | asleep =>
      by_cases hon : dev.ongoingRead = true <;>
        simp [ReadCall.lower,UsbNr.lower,ReadPc.lower,hp,hon]
  | _ => simp [ReadCall.lower,ReadPc.lower,hp]

theorem wake_lower (c : ReadCall) : c.lower.wake = c.wake.lower := by
  unfold ReadCall.wake TransferSteps.ReadCall.wake
  cases hp : c.pc <;> simp [ReadCall.lower,ReadPc.lower,hp]

theorem readEvents_lower (c c' : ReadCall) :
    TransferSteps.readEvents (s.lower o) c.lower c'.lower = readEvents s c c' := by
  unfold readEvents TransferSteps.readEvents
  cases hp : c.pc <;> simp [Device.lower,UsbNr.lower,ReadCall.lower,ReadPc.lower,hp]

theorem runRead_lower (hpc : c.pc.flags = false) :
    TransferSteps.runRead (s.lower o) t c.lower k =
      (runRead s t c k).map (Device.lower o) := by
  unfold runRead TransferSteps.runRead
  by_cases hexit : c.pc = .exit
  · have hexit' : c.lower.pc = .exit := by simp [ReadCall.lower,hexit,ReadPc.lower]
    simp only [hexit,hexit',if_true,Option.map_some]
    simp only [Device.lower,lowerJob_update]
    rfl
  · have hexit' : c.lower.pc ≠ .exit := by
      cases hp : c.pc <;> simp_all [ReadCall.lower,ReadPc.lower]
    have hstep : TransferSteps.readStep (s.lower o).nr c.lower k =
        (readStep s.nr c k).map fun r => (r.1.lower o.nr,r.2.lower) := readStep_lower _ _ hpc
    rw [if_neg hexit, if_neg hexit',hstep]
    cases hr : readStep s.nr c k with
    | none => rfl
    | some r =>
        simp only [Option.map_some,readEvents_lower]
        simp only [Device.lower,lowerJob_update]
        rfl

theorem runRead_flags (hc : s.call t = some c) (hpc : c.pc.flags = true) :
    ∃ s', runRead s t c k = some s' ∧ s'.lower o = s.lower o ∧ s'.echo = s.echo ∧
      ∃ c', c'.pc.flags = false ∧ s'.call = Function.update s.call t (some c') := by
  have same (pc : ReadPc) (hlow : pc.lower = c.pc.lower) :
      (fun u => lowerJob (Function.update s.call t (some { c with pc := pc }) u)) =
        fun u => lowerJob (s.call u) := by
    rw [lowerJob_update,Function.update_eq_self_iff,hc]
    simp [lowerJob,ReadCall.lower,hlow]
  have moves (pc : ReadPc) (hlow : pc.lower = c.pc.lower) (hflags : pc.flags = false)
      (hstep : readStep s.nr c k = some ({ s.nr with flag := 1 },{ c with pc := pc })) :
      ∃ s', runRead s t c k = some s' ∧ s'.lower o = s.lower o ∧ s'.echo = s.echo ∧
        ∃ c', c'.pc.flags = false ∧ s'.call = Function.update s.call t (some c') := by
    have hexit : c.pc ≠ .exit := by
      intro hexit
      simp [hexit,ReadPc.flags] at hpc
    have hevents (c' : ReadCall) : readEvents s c c' = [] := by
      cases hp : c.pc <;> simp_all [readEvents,ReadPc.flags]
    refine ⟨{ s with
      nr := { s.nr with flag := 1 }
      call := Function.update s.call t (some { c with pc := pc }) },?_,?_,rfl,_,hflags,rfl⟩
    · simp [runRead,hexit,hstep,hevents]
    · simp only [Device.lower,same pc hlow]
      rfl
  cases hp : c.pc with
  | flagWaited => exact moves .testLen (by rw [hp]; rfl) rfl (by simp [readStep,hp])
  | flagSubmitted => exact moves .testOngoing (by rw [hp]; rfl) rfl (by simp [readStep,hp])
  | _ => simp [hp,ReadPc.flags] at hpc

/-- A step that `nr_driver.c` has too, where the thread of a new call does not print. -/
theorem step_lower {l : Label} {b : TransferSteps.Label} (hl : act s l = some b)
    (hquiet : ∀ t filp count ppos, l = .beginRead t filp count ppos → s.echo.call t = none) :
    TransferSteps.step (s.lower o) b = (step s l).map (Device.lower o) := by
  cases l with
  | beginRead t filp count ppos =>
      cases hl
      have hecho := hquiet t filp count ppos rfl
      cases hc : s.call t with
      | none =>
          have hjob : (s.lower o).job t = .idle := by simp [Device.lower,hc,lowerJob]
          simp only [TransferSteps.step,hjob,step,hc,hecho,Option.isSome_none,
            Bool.false_eq_true,or_self,if_false,Option.map_some]
          simp only [Device.lower,lowerJob_update]
          rfl
      | some c =>
          have hjob : (s.lower o).job t = .reading c.lower := by
            simp [Device.lower,hc,lowerJob]
          simp [TransferSteps.step,hjob,step,hc]
  | beginWrite => cases hl
  | openWrite w =>
      cases w with
      | flag => cases hl
      | lenInBuffer | ongoingRead =>
          cases hl
          rfl
  | run t k =>
      obtain ⟨c,hc,hb⟩ := Option.bind_eq_some_iff.mp hl
      split_ifs at hb with hpc
      cases hb
      have hjob : (s.lower o).job t = .reading c.lower := by simp [Device.lower,hc,lowerJob]
      simp only [TransferSteps.step,hjob,step,hc]
      exact runRead_lower (by simpa using hpc)
  | signal t =>
      cases hl
      cases hc : s.call t with
      | none =>
          have hjob : (s.lower o).job t = .idle := by simp [Device.lower,hc,lowerJob]
          simp [TransferSteps.step,hjob,step,hc]
      | some c =>
          have hjob : (s.lower o).job t = .reading c.lower := by
            simp [Device.lower,hc,lowerJob]
          have hsignal : TransferSteps.readSignal (s.lower o).nr c.lower =
              (readSignal s.nr c).map ReadCall.lower := readSignal_lower ..
          simp only [TransferSteps.step,hjob,step,hc,hsignal,Option.bind_some]
          cases readSignal s.nr c with
          | none => rfl
          | some c' =>
              simp only [Option.map_some]
              simp only [Device.lower,lowerJob_update]
              rfl
  | inCompletes status packet =>
      cases hl
      have hwake (t : ℕ) : TransferSteps.wakeReader (lowerJob (s.call t)) =
          lowerJob ((s.call t).map ReadCall.wake) := by
        cases s.call t with
        | none => rfl
        | some c => exact congrArg TransferSteps.Job.reading (wake_lower c)
      simp only [TransferSteps.step,TransferSteps.inCompletes,step,inCompletes]
      have hflight : (s.lower o).nr.intInUrb.flight = s.nr.intInUrb.flight := rfl
      rw [hflight]
      cases s.nr.intInUrb.flight with
      | none => rfl
      | some f =>
          by_cases hlen : packet.length ≤ f.length
          · simp only [hlen,if_true,Option.map_some,Option.some.injEq]
            simp only [Device.lower,hwake]
            rfl
          · simp only [hlen,if_false,Option.map_none]

theorem step_unseen {l : Label} (hl : act s l = none) (hs : step s l = some s') :
    s'.lower o = s.lower o := by
  cases l with
  | openWrite w =>
      cases w <;> cases hl
      cases hs
      rfl
  | beginWrite t buffer =>
      simp only [step] at hs
      split_ifs at hs
      obtain ⟨e,_,rfl⟩ := Option.map_eq_some_iff.mp hs
      rfl
  | run t k =>
      cases hc : s.call t with
      | none =>
          simp only [step,hc] at hs
          obtain ⟨e,_,rfl⟩ := Option.map_eq_some_iff.mp hs
          rfl
      | some c =>
          have hpc : c.pc.flags = true := by
            by_contra hpc
            simp [act,hc,hpc] at hl
          obtain ⟨u,hu,hlow,_⟩ := runRead_flags (o := o) (k := k) hc hpc
          simp only [step,hc,hu,Option.some.injEq] at hs
          rw [← hs,hlow]
  | beginRead | signal | inCompletes => cases hl

end Lower

theorem lower_run {o : TransferSteps.Device} {s s' : Device} {ls : List Label}
    (hrun : run step s ls = some s') :
    run TransferSteps.step (s.lower o) (acts step act s ls) = some (s'.lower o) := by
  have hmove (s : Device) (l : Label) (u : Device) (b : TransferSteps.Label)
      (hl : act s l = some b) (hs : step s l = some u) :
      TransferSteps.step (s.lower o) b = some (u.lower o) := by
    have hquiet : ∀ t filp count ppos, l = .beginRead t filp count ppos →
        s.echo.call t = none := by
      rintro t filp count ppos rfl
      simp only [step] at hs
      split_ifs at hs with hbusy
      simpa using (not_or.mp hbusy).2
    rw [step_lower hl hquiet,hs,Option.map_some]
  have hkeep (s : Device) (l : Label) (u : Device) (hl : act s l = none)
      (hs : step s l = some u) : u.lower o = s.lower o := step_unseen hl hs
  exact run_acts hmove hkeep hrun

/-- Nobody prints, and nobody is about to assign the flag. -/
structure Calm (s : Device) : Prop where
  silent : ∀ t, s.echo.call t = none
  flags : ∀ t c, s.call t = some c → c.pc.flags = false

section Settle
variable {s s' : Device} {l : Label} {b : TransferSteps.Label}

theorem wake_flags (c : ReadCall) : c.wake.pc.flags = c.pc.flags := by
  unfold ReadCall.wake
  split_ifs with hpc
  · simp [hpc,ReadPc.flags]
  · rfl

theorem Calm.step (h : Calm s) (hl : act s l = some b) (hs : step s l = some s') :
    (∀ t, s'.echo.call t = none) ∧
      ∃ v, ∀ t c, t ≠ v → s'.call t = some c → c.pc.flags = false := by
  have update {v : ℕ} {d : Option ReadCall} (hcall : s'.call = Function.update s.call v d) :
      ∃ v, ∀ t c, t ≠ v → s'.call t = some c → c.pc.flags = false := by
    refine ⟨v,fun t c ht hc => h.flags t c ?_⟩
    rwa [hcall,Function.update_of_ne ht] at hc
  cases l with
  | beginRead t filp count ppos =>
      simp only [ReadUrbDriver.step] at hs
      split_ifs at hs
      cases hs
      exact ⟨h.silent,update rfl⟩
  | beginWrite => cases hl
  | openWrite w =>
      cases hs
      exact ⟨h.silent,0,fun t c _ hc => h.flags t c hc⟩
  | run t k =>
      obtain ⟨c,hc,_⟩ := Option.bind_eq_some_iff.mp hl
      simp only [ReadUrbDriver.step,hc,runRead] at hs
      split_ifs at hs
      · cases hs
        exact ⟨h.silent,update rfl⟩
      · obtain ⟨r,_,rfl⟩ := Option.map_eq_some_iff.mp hs
        exact ⟨h.silent,update rfl⟩
  | signal t =>
      obtain ⟨c,_,hs⟩ := Option.bind_eq_some_iff.mp hs
      obtain ⟨c',_,rfl⟩ := Option.map_eq_some_iff.mp hs
      exact ⟨h.silent,update rfl⟩
  | inCompletes status packet =>
      simp only [ReadUrbDriver.step,inCompletes] at hs
      split at hs
      · cases hs
      · split_ifs at hs
        cases hs
        refine ⟨h.silent,0,fun t c _ hc => ?_⟩
        obtain ⟨d,hd,rfl⟩ := Option.map_eq_some_iff.mp hc
        rw [wake_flags]
        exact h.flags t d hd

theorem settle {o : TransferSteps.Device} {v : ℕ} (hsilent : ∀ t, s.echo.call t = none)
    (hflags : ∀ t c, t ≠ v → s.call t = some c → c.pc.flags = false) :
    ∃ ls s', run ReadUrbDriver.step s ls = some s' ∧ s'.lower o = s.lower o ∧ Calm s' := by
  by_cases hpending : ∃ c, s.call v = some c ∧ c.pc.flags = true
  · obtain ⟨c,hc,hpc⟩ := hpending
    obtain ⟨s',hs,hlow,hecho,c',hpc',hcall⟩ := runRead_flags (o := o) (k := 0) hc hpc
    have hstep : ReadUrbDriver.step s (.run v 0) = some s' := by
      simp only [ReadUrbDriver.step,hc,hs]
    refine ⟨[.run v 0],s',by rw [run_cons_some hstep,run_nil],hlow,?_,fun t d hd => ?_⟩
    · rw [hecho]
      exact hsilent
    · rw [hcall] at hd
      rcases update_some_cases hd with ⟨_,hnew⟩ | ⟨ht,hold⟩
      · cases hnew
        exact hpc'
      · exact hflags t d ht hold
  · refine ⟨[],s,rfl,rfl,hsilent,fun t c hc => ?_⟩
    by_cases ht : t = v
    · subst ht
      by_contra hpc
      exact hpending ⟨c,hc,by simpa using hpc⟩
    · exact hflags t c ht hc

end Settle

open Independence (readsOf readsOf_step readsOf_skip readsOf_congr ofRead ofWrite)

/-- The two devices have the same reads. -/
def SameReads (o t : TransferSteps.Device) (s : Device) : Prop :=
  readsOf o t = s.lower o ∧ Calm s

/-- A step that both drivers have, and then the assignment of the flag. -/
theorem SameReads.follow {o t t' : TransferSteps.Device} {s : Device} {l : Label}
    {b : TransferSteps.Label} (h : SameReads o t s) (hl : act s l = some b)
    (hs : TransferSteps.step (readsOf o t) b = some (readsOf o t')) :
    ∃ ls s', run step s ls = some s' ∧ SameReads o t' s' := by
  have hlow := step_lower (o := o) hl fun t _ _ _ _ => h.2.silent t
  rw [← h.1,hs] at hlow
  obtain ⟨s₁,hs₁,hreads⟩ := Option.map_eq_some_iff.mp hlow.symm
  obtain ⟨hsilent,v,hflags⟩ := h.2.step hl hs₁
  obtain ⟨ls,s',hrun,hlow',hcalm⟩ := settle (o := o) hsilent hflags
  exact ⟨l :: ls,s',by rw [run_cons_some hs₁,hrun],by rw [hlow',hreads],hcalm⟩

theorem SameReads.step {o t t' : TransferSteps.Device} {s : Device} {b : TransferSteps.Label}
    (h : SameReads o t s) (hs : TransferSteps.step t b = some t') :
    ∃ ls s', run step s ls = some s' ∧ SameReads o t' s' := by
  have skip (hsame : readsOf o t' = readsOf o t) :
      ∃ ls s', run ReadUrbDriver.step s ls = some s' ∧ SameReads o t' s' :=
    ⟨[],s,rfl,hsame.trans h.1,h.2⟩
  -- the call of a thread that reads in both
  have reading {u : ℕ} (hread : (ReadHalfSteps.readCall? (t.job u)).isSome = true) :
      ∃ c, s.call u = some c ∧ c.pc.flags = false := by
    obtain ⟨d,hd⟩ := Option.isSome_iff_exists.mp hread
    have hjob : (readsOf o t).job u = lowerJob (s.call u) := by rw [h.1]; rfl
    simp only [readsOf,Independence.onlyReading,hd,Option.elim_some] at hjob
    cases hc : s.call u with
    | none => simp [hc,lowerJob] at hjob
    | some c => exact ⟨c,rfl,h.2.flags u c hc⟩
  cases b with
  | beginRead u filp count ppos =>
      exact h.follow (l := .beginRead u filp count ppos) rfl (readsOf_step hs rfl)
  | inCompletes status packet =>
      exact h.follow (l := .inCompletes status packet) rfl (readsOf_step hs rfl)
  | openWrite w =>
      cases hs
      cases w with
      | lenInBuffer => exact h.follow (l := .openWrite .lenInBuffer) rfl rfl
      | ongoingRead => exact h.follow (l := .openWrite .ongoingRead) rfl rfl
      | outgoingWrite => exact skip rfl
  | run u k =>
      cases hj : t.job u with
      | idle => simp [TransferSteps.step,hj] at hs
      | reading d =>
          have hread : ofRead t (.run u k) = true := by simp [ofRead,hj,ReadHalfSteps.readCall?]
          obtain ⟨c,hc,hpc⟩ := reading hread
          exact h.follow (l := .run u k) (by simp [act,hc,hpc]) (readsOf_step hs hread)
      | writing d =>
          exact skip (readsOf_skip hs (by simp [ofWrite,hj,WriteHalfSteps.writeCall?]))
  | signal u =>
      cases hj : t.job u with
      | idle => simp [TransferSteps.step,hj] at hs
      | reading d =>
          have hread : ofRead t (.signal u) = true := by simp [ofRead,hj,ReadHalfSteps.readCall?]
          exact h.follow (l := .signal u) rfl (readsOf_step hs hread)
      | writing d =>
          exact skip (readsOf_skip hs (by simp [ofWrite,hj,WriteHalfSteps.writeCall?]))
  | beginWrite | outTakes | outCompletes => exact skip (readsOf_skip hs rfl)

/-- The logs that reads can leave are the same in `driver_read_urb.c` and in
`nr_driver.c`: neither the flag nor the kind of the writes shows in them. -/
theorem same_read_logs (epIn epOut epOut' : EndpointDescriptor) (memIn memOut : ℕ → Byte)
    (log : List ReadEvent) :
    (∃ ls s, run step (.opened epIn epOut memIn) ls = some s ∧ s.readLog = log) ↔
      ∃ ls s, run TransferSteps.step (.opened epIn epOut' memIn memOut) ls = some s ∧
        s.readLog = log := by
  have hstart : (Device.opened epIn epOut memIn).lower (.opened epIn epOut' memIn memOut) =
      .opened epIn epOut' memIn memOut := rfl
  constructor
  · rintro ⟨ls,s,hrun,rfl⟩
    have hlow := lower_run (o := .opened epIn epOut' memIn memOut) hrun
    rw [hstart] at hlow
    exact ⟨_,_,hlow,rfl⟩
  · rintro ⟨ls,t,hrun,rfl⟩
    have hsame : SameReads (.opened epIn epOut' memIn memOut) (.opened epIn epOut' memIn memOut)
        (Device.opened epIn epOut memIn) := by
      refine ⟨Independence.readsOf_self fun _ => rfl,fun _ => rfl,?_⟩
      intro t c hc
      cases hc
    obtain ⟨ms,s,hs,hreads,_⟩ := run_simulation (fun _ _ _ _ h hs => h.step hs) hsame hrun
    exact ⟨ms,s,hs,(congrArg TransferSteps.Device.readLog hreads).symm⟩

theorem step_echo {s s' : Device} {l : Label} (hs : step s l = some s') :
    s'.echo = s.echo ∨ ∃ a, s.echo.step a = some s'.echo := by
  cases l with
  | beginRead t filp count ppos =>
      simp only [step] at hs
      split_ifs at hs
      cases hs
      exact .inl rfl
  | beginWrite t buffer =>
      simp only [step] at hs
      split_ifs at hs
      obtain ⟨e,he,rfl⟩ := Option.map_eq_some_iff.mp hs
      exact .inr ⟨_,he⟩
  | openWrite w =>
      cases hs
      exact .inl rfl
  | run t k =>
      cases hc : s.call t with
      | none =>
          simp only [step,hc] at hs
          obtain ⟨e,he,rfl⟩ := Option.map_eq_some_iff.mp hs
          exact .inr ⟨_,he⟩
      | some c =>
          simp only [step,hc,runRead] at hs
          split_ifs at hs
          · cases hs
            exact .inl rfl
          · obtain ⟨r,_,rfl⟩ := Option.map_eq_some_iff.mp hs
            exact .inl rfl
  | signal t =>
      obtain ⟨c,_,hs⟩ := Option.bind_eq_some_iff.mp hs
      obtain ⟨c',_,rfl⟩ := Option.map_eq_some_iff.mp hs
      exact .inl rfl
  | inCompletes status packet =>
      simp only [step,inCompletes] at hs
      split at hs
      · cases hs
      · split_ifs at hs
        cases hs
        exact .inl rfl

/-- Whatever runs beside it, a write that has returned has printed its bytes in
order and answers with their number. -/
theorem writes_print_exactly {epIn epOut : EndpointDescriptor} {memIn : ℕ → Byte}
    {ls : List Label} {s : Device} (hrun : run step (.opened epIn epOut memIn) ls = some s) :
    PrintsExactly s.echo.log := by
  have hprinting : Printing s.echo := by
    refine run_kept (I := fun s => Printing s.echo) ?_ printing_start hrun
    intro s l u h hs
    rcases step_echo hs with he | ⟨a,ha⟩
    · rwa [he]
    · exact h.step ha
  exact hprinting.exact

/-- Two writes print in turns while a read sleeps until its packet comes. -/
def printingInTurns : List Label :=
  .beginRead 0 0 64 0 :: List.replicate 8 (.run 0 0) ++ [.beginWrite 1 [72,105],.run 1 0,
    .beginWrite 2 [33],.run 2 0,.run 1 0,.run 2 0,.run 1 0]

theorem writes_in_turns_print :
    ∃ s ∈ run step (.opened TransferSteps.canIn TransferSteps.canOut fun _ => 0) printingInTurns,
      (s.call 0).map ReadCall.pc = some .asleep ∧
      s.echo.log = [.printed 0 72,.printed 1 33,.printed 0 105,.returned 1 [33] 1,
        .returned 0 [72,105] 2] ∧ PrintsExactly s.echo.log := by
  obtain ⟨s,hs,hasleep,hlog⟩ :
      ∃ s ∈ run step (.opened TransferSteps.canIn TransferSteps.canOut fun _ => 0) printingInTurns,
        (s.call 0).map ReadCall.pc = some .asleep ∧
        s.echo.log = [.printed 0 72,.printed 1 33,.printed 0 105,.returned 1 [33] 1,
          .returned 0 [72,105] 2] := by decide
  exact ⟨s,hs,hasleep,hlog,writes_print_exactly hs⟩

end NrDriver.ReadUrbDriver
