import NrDriver.KernelModel
import NrDriver.LabelledRuns

/-!
# The record of a device and the calls running on it

`struct usb_nr`, the two completion handlers, the three assignments of
`nr_open`, and `nr_read` and `nr_write` cut into their separate accesses to the
record. A device is one record with any number of threads, each idle or inside
one call; a label moves one thread by one statement, delivers a signal, runs
one assignment of an `nr_open`, or is the device's own: it completes a URB or
takes bytes from the out buffer.

A completion is one step: the handler runs to its end. The answer `k` of a
`run` label is what the kernel function called by that statement reports: the
number of bytes a copy left uncopied, or the errno of a refused submission.
The two logs record what a caller or the device can observe and are read by no
step.
-/
namespace NrDriver.TransferSteps
open KernelModel

/-- `struct usb_nr` once `nr_probe` has filled it. The two wait queues are the
threads that are asleep on them. -/
structure UsbNr where
  intInEndpoint : EndpointDescriptor
  intOutEndpoint : EndpointDescriptor
  intInUrb : Urb
  intOutUrb : Urb
  intInBuffer : Buffer
  lenInBuffer : ℕ
  intOutBuffer : Buffer
  ongoingRead : Bool
  outgoingWrite : Bool
  deriving DecidableEq, Repr

/-- The handler prints the reported statuses and uses no status otherwise. -/
def nrReadIntCallback (dev : UsbNr) (status : ℤ) (actualLength : ℕ) : UsbNr × Bool :=
  ({ dev with lenInBuffer := actualLength, ongoingRead := false },reportedStatus status)

def nrWriteIntCallback (dev : UsbNr) (status : ℤ) : UsbNr × Bool :=
  ({ dev with outgoingWrite := false },reportedStatus status)

/-- The three fields `nr_open` assigns, in its order. -/
inductive OpenWrite where
  | lenInBuffer | ongoingRead | outgoingWrite
  deriving DecidableEq, Repr

def UsbNr.openWrite (dev : UsbNr) : OpenWrite → UsbNr
  | .lenInBuffer => { dev with lenInBuffer := 0 }
  | .ongoingRead => { dev with ongoingRead := false }
  | .outgoingWrite => { dev with outgoingWrite := false }

/-- The statements of `nr_read`. `testWait` and `asleep` are inside
`wait_event_interruptible`: about to test its condition, and sleeping. -/
inductive ReadPc where
  | testOngoing | testWait | asleep | testLen
  | copy | position | result | clear
  | fill | submit | setOngoing | exit
  deriving DecidableEq, Repr

/-- A running `nr_read`: its arguments, its local `rs`, and the bytes it has
stored at the user's address. -/
structure ReadCall where
  id : ℕ
  filp : ℕ
  count : ℕ
  ppos : ℤ
  rs : ℤ
  user : List Byte
  pc : ReadPc
  deriving DecidableEq, Repr

def ReadCall.start (id filp count : ℕ) (ppos : ℤ) : ReadCall :=
  ⟨id,filp,count,ppos,0,[],.testOngoing⟩

/-- One statement of `nr_read`; `none` while it sleeps and after its end. -/
def readStep (dev : UsbNr) (c : ReadCall) (k : ℕ) : Option (UsbNr × ReadCall) :=
  match c.pc with
  | .testOngoing =>
      some (dev,{ c with pc := if dev.ongoingRead then .testWait else .testLen })
  | .testWait =>
      if dev.ongoingRead then some (dev,{ c with pc := .asleep })
      else some (dev,{ c with rs := 0, pc := .testLen })
  | .asleep => none
  | .testLen =>
      some (dev,{ c with pc := if 0 < dev.lenInBuffer then .copy else .fill })
  | .copy =>
      if k ≤ dev.lenInBuffer then
        some (dev,{ c with
          user := copyToUser dev.intInBuffer dev.lenInBuffer k
          rs := toSsize k
          pc := .position })
      else none
  -- the length is read again by each of the next two statements
  | .position =>
      some (dev,{ c with
        ppos := toSsize (c.ppos + sizeSub dev.lenInBuffer (toSize c.rs))
        pc := .result })
  | .result =>
      some (dev,{ c with
        rs := toSsize (sizeSub dev.lenInBuffer (toSize c.rs))
        pc := .clear })
  | .clear => some ({ dev with lenInBuffer := 0 },{ c with pc := .exit })
  | .fill =>
      let urb := usbFillIntUrb dev.intInUrb (.rcvint dev.intInEndpoint.bEndpointAddress)
        dev.intInEndpoint.packetSize dev.intInEndpoint.bInterval
      some ({ dev with intInUrb := urb },{ c with pc := .submit })
  | .submit =>
      let r := usbSubmitUrb dev.intInUrb c.id [] k
      some ({ dev with intInUrb := r.2 },
        { c with rs := r.1, pc := if r.1 < 0 then .exit else .setOngoing })
  | .setOngoing => some ({ dev with ongoingRead := true },{ c with pc := .testOngoing })
  | .exit => none

/-- A signal ends the wait with the restart error, unless the condition of the
wait is seen true first. -/
def readSignal (dev : UsbNr) (c : ReadCall) : Option ReadCall :=
  match c.pc with
  | .testWait | .asleep =>
      if dev.ongoingRead then some { c with rs := -ERESTARTSYS, pc := .exit }
      else some { c with rs := 0, pc := .testLen }
  | _ => none

/-- The statements of `nr_write`. -/
inductive WritePc where
  | checkCount | copy | fill | setOutgoing | submit | testWait | asleep | exit
  deriving DecidableEq, Repr

/-- A running `nr_write`; its count is the length of the user's bytes. -/
structure WriteCall where
  id : ℕ
  filp : ℕ
  payload : List Byte
  retval : ℤ
  pc : WritePc
  deriving DecidableEq, Repr

def WriteCall.start (id filp : ℕ) (payload : List Byte) : WriteCall :=
  ⟨id,filp,payload,0,.checkCount⟩

def WriteCall.count (c : WriteCall) : ℕ := c.payload.length

/-- One statement of `nr_write`; `none` while it sleeps and after its end. -/
def writeStep (dev : UsbNr) (c : WriteCall) (k : ℕ) : Option (UsbNr × WriteCall) :=
  match c.pc with
  | .checkCount =>
      if c.count = 0 ∨ dev.intOutEndpoint.packetSize < c.count then
        some (dev,{ c with retval := -EINVAL, pc := .exit })
      else some (dev,{ c with pc := .copy })
  | .copy =>
      if k ≤ c.count then
        some ({ dev with intOutBuffer := copyFromUser dev.intOutBuffer c.payload k },
          if k = 0 then { c with pc := .fill } else { c with retval := -EFAULT, pc := .exit })
      else none
  | .fill =>
      let urb := usbFillIntUrb dev.intOutUrb (.sndint dev.intOutEndpoint.bEndpointAddress)
        c.count dev.intOutEndpoint.bInterval
      some ({ dev with intOutUrb := urb },{ c with pc := .setOutgoing })
  | .setOutgoing => some ({ dev with outgoingWrite := true },{ c with pc := .submit })
  | .submit =>
      let r := usbSubmitUrb dev.intOutUrb c.id c.payload k
      some ({ dev with intOutUrb := r.2 },
        { c with retval := r.1, pc := if r.1 = 0 then .testWait else .exit })
  | .testWait =>
      if dev.outgoingWrite then some (dev,{ c with pc := .asleep })
      else some (dev,{ c with retval := toSsize c.count, pc := .exit })
  | .asleep => none
  | .exit => none

def writeSignal (dev : UsbNr) (c : WriteCall) : Option WriteCall :=
  match c.pc with
  | .testWait | .asleep =>
      if dev.outgoingWrite then some { c with retval := -ERESTARTSYS, pc := .exit }
      else some { c with retval := toSsize c.count, pc := .exit }
  | _ => none

inductive Job where
  | idle
  | reading (c : ReadCall)
  | writing (c : WriteCall)
  deriving DecidableEq, Repr

/-- What is seen of the reads: the bytes and results handed to callers, the
copies with the number of packets received before them, the submissions, and
the packets of completed transfers. -/
inductive ReadEvent where
  | returned (call filp count : ℕ) (user : List Byte) (rs ppos : ℤ)
  | copied (call packet : ℕ) (bytes : List Byte)
  | submitted (call : ℕ) (urb : Urb) (code : ℤ)
  | received (status : ℤ) (reported : Bool) (packet : List Byte)
  deriving DecidableEq, Repr

/-- What is seen of the writes. A transfer is recorded at its completion, with
the call that submitted it and the bytes the device took. -/
inductive WriteEvent where
  | returned (call filp : ℕ) (payload : List Byte) (retval : ℤ)
  | submitted (call : ℕ) (payload : List Byte) (urb : Urb) (contents : List Byte) (code : ℤ)
  | transferred (call : ℕ) (payload : List Byte) (length : ℕ) (bytes : List Byte)
      (status : ℤ) (reported : Bool)
  deriving DecidableEq, Repr

structure Device where
  nr : UsbNr
  job : ℕ → Job
  reads : ℕ
  writes : ℕ
  packets : ℕ
  readLog : List ReadEvent
  writeLog : List WriteEvent

inductive Label where
  | beginRead (t filp count : ℕ) (ppos : ℤ)
  | beginWrite (t filp : ℕ) (payload : List Byte)
  | openWrite (w : OpenWrite)
  | run (t k : ℕ)
  | signal (t : ℕ)
  | inCompletes (status : ℤ) (packet : List Byte)
  | outTakes
  | outCompletes (status : ℤ) (actualLength : ℕ)
  deriving DecidableEq, Repr

/-- `wake_up_interruptible` makes every sleeper of the queue test its condition
again when it next runs. -/
def ReadCall.wake (c : ReadCall) : ReadCall :=
  if c.pc = .asleep then { c with pc := .testWait } else c

def WriteCall.wake (c : WriteCall) : WriteCall :=
  if c.pc = .asleep then { c with pc := .testWait } else c

def wakeReader : Job → Job
  | .reading c => .reading c.wake
  | j => j

def wakeWriter : Job → Job
  | .writing c => .writing c.wake
  | j => j

def readEvents (s : Device) (c c' : ReadCall) : List ReadEvent :=
  match c.pc with
  | .copy => [.copied c.id s.packets c'.user]
  | .submit => [.submitted c.id s.nr.intInUrb c'.rs]
  | _ => []

def writeEvents (s : Device) (c c' : WriteCall) : List WriteEvent :=
  match c.pc with
  | .submit =>
      [.submitted c.id c.payload s.nr.intOutUrb
        (s.nr.intOutBuffer.get s.nr.intOutUrb.transferBufferLength) c'.retval]
  | _ => []

def runRead (s : Device) (t : ℕ) (c : ReadCall) (k : ℕ) : Option Device :=
  if c.pc = .exit then
    some { s with
      job := Function.update s.job t .idle
      readLog := s.readLog ++ [.returned c.id c.filp c.count c.user c.rs c.ppos] }
  else
    (readStep s.nr c k).map fun r => { s with
      nr := r.1
      job := Function.update s.job t (.reading r.2)
      readLog := s.readLog ++ readEvents s c r.2 }

def runWrite (s : Device) (t : ℕ) (c : WriteCall) (k : ℕ) : Option Device :=
  if c.pc = .exit then
    some { s with
      job := Function.update s.job t .idle
      writeLog := s.writeLog ++ [.returned c.id c.filp c.payload c.retval] }
  else
    (writeStep s.nr c k).map fun r => { s with
      nr := r.1
      job := Function.update s.job t (.writing r.2)
      writeLog := s.writeLog ++ writeEvents s c r.2 }

/-- The completion of `int_in_urb`: the packet is in the buffer before the
handler runs, and the handler wakes the readers. -/
def inCompletes (s : Device) (status : ℤ) (packet : List Byte) : Option Device :=
  match s.nr.intInUrb.flight with
  | none => none
  | some f =>
      if packet.length ≤ f.length then
        let dev := { s.nr with
          intInBuffer := s.nr.intInBuffer.put packet
          intInUrb := { s.nr.intInUrb with flight := none } }
        let r := nrReadIntCallback dev status packet.length
        some { s with
          nr := r.1
          job := fun t => wakeReader (s.job t)
          packets := s.packets + 1
          readLog := s.readLog ++ [.received status r.2 packet] }
      else none

/-- The device takes the bytes the out buffer holds at this moment. -/
def outTakes (s : Device) : Option Device :=
  match s.nr.intOutUrb.flight with
  | none => none
  | some f =>
      some { s with nr := { s.nr with intOutUrb := { s.nr.intOutUrb with
        flight := some { f with sent := s.nr.intOutBuffer.get f.length } } } }

def outCompletes (s : Device) (status : ℤ) (actualLength : ℕ) : Option Device :=
  match s.nr.intOutUrb.flight with
  | none => none
  | some f =>
      if actualLength ≤ f.sent.length then
        let r := nrWriteIntCallback
          { s.nr with intOutUrb := { s.nr.intOutUrb with flight := none } } status
        some { s with
          nr := r.1
          job := fun t => wakeWriter (s.job t)
          writeLog := s.writeLog ++
            [.transferred f.call f.payload f.length (f.sent.take actualLength) status r.2] }
      else none

def step (s : Device) : Label → Option Device
  | .beginRead t filp count ppos =>
      match s.job t with
      | .idle => some { s with
          job := Function.update s.job t (.reading (.start s.reads filp count ppos))
          reads := s.reads + 1 }
      | _ => none
  | .beginWrite t filp payload =>
      match s.job t with
      | .idle => some { s with
          job := Function.update s.job t (.writing (.start s.writes filp payload))
          writes := s.writes + 1 }
      | _ => none
  | .openWrite w => some { s with nr := s.nr.openWrite w }
  | .run t k =>
      match s.job t with
      | .idle => none
      | .reading c => runRead s t c k
      | .writing c => runWrite s t c k
  | .signal t =>
      match s.job t with
      | .idle => none
      | .reading c => (readSignal s.nr c).map fun c' =>
          { s with job := Function.update s.job t (.reading c') }
      | .writing c => (writeSignal s.nr c).map fun c' =>
          { s with job := Function.update s.job t (.writing c') }
  | .inCompletes status packet => inCompletes s status packet
  | .outTakes => outTakes s
  | .outCompletes status actualLength => outCompletes s status actualLength

/-- The record a successful `nr_probe` leaves: zeroed by `kzalloc`, with each
buffer as large as its endpoint's packet. -/
def UsbNr.probed (epIn epOut : EndpointDescriptor) (memIn memOut : ℕ → Byte) : UsbNr where
  intInEndpoint := epIn
  intOutEndpoint := epOut
  intInUrb := usbAllocUrb
  intOutUrb := usbAllocUrb
  intInBuffer := .kmalloc epIn.packetSize memIn
  lenInBuffer := 0
  intOutBuffer := .kmalloc epOut.packetSize memOut
  ongoingRead := false
  outgoingWrite := false

/-- A device on which nothing has happened yet. -/
def Device.fresh (nr : UsbNr) : Device := ⟨nr,fun _ => .idle,0,0,0,[],[]⟩

/-- `nr_open` on the record, its three assignments in a row. -/
def Device.nrOpen (s : Device) : Device :=
  { s with nr := ((s.nr.openWrite .lenInBuffer).openWrite .ongoingRead).openWrite .outgoingWrite }

/-- A probed device opened once. -/
def Device.opened (epIn epOut : EndpointDescriptor) (memIn memOut : ℕ → Byte) : Device :=
  (Device.fresh (UsbNr.probed epIn epOut memIn memOut)).nrOpen

/-- The 64-byte interrupt endpoints the two test scripts talk to. -/
def canIn : EndpointDescriptor := ⟨0x81,3,64,1⟩
def canOut : EndpointDescriptor := ⟨0x01,3,64,1⟩

def canDevice : Device := .opened canIn canOut (fun _ => 0) (fun _ => 0)

/-- Where thread `t` is in `nr_read`, if it is inside one. -/
def readerAt (s : Device) (t : ℕ) : Option ReadPc :=
  match s.job t with
  | .reading c => some c.pc
  | _ => none

/-- Where thread `t` is in `nr_write`, if it is inside one. -/
def writerAt (s : Device) (t : ℕ) : Option WritePc :=
  match s.job t with
  | .writing c => some c.pc
  | _ => none

theorem Device.nrOpen_run (s : Device) :
    LabelledRuns.run step s
      [.openWrite .lenInBuffer,.openWrite .ongoingRead,.openWrite .outgoingWrite] =
      some s.nrOpen := rfl

/-- The first open finds the fields as it leaves them. -/
theorem Device.opened_eq (epIn epOut : EndpointDescriptor) (memIn memOut : ℕ → Byte) :
    Device.opened epIn epOut memIn memOut = Device.fresh (UsbNr.probed epIn epOut memIn memOut) :=
  rfl

end NrDriver.TransferSteps
