import NrDriver.ProbeOutcome
import NrDriver.LabelledRuns

/-!
# Opens, calls and disconnects on many devices

All the parties at once: interfaces that are probed and disconnected statement by
statement, files that are opened and closed, the calls on their records, and the
completions. A record is found by the number of its allocation and stays in the
model after `free_usb_nr`, so that a later access to it is a step like any other;
whether it was released is read off the history of the kernel.

The part of `nr_probe` before the publication of the record is one move, since
nobody else can reach the record yet. The rules of the USB core that concern the
order of events are not built into the moves: `CoreRules` and `OpenExclusion`
state them as conditions on runs.

The moves of a probe or of a disconnect in a row do what `nr_probe` and
`nr_disconnect` do. That the device of a record goes through a run of the
transfer machine is a result of `Routing`.
-/
namespace NrDriver.DeviceWorld
open KernelModel TransferSteps ProbeModel ProbeOutcome Ledger LabelledRuns

/-- Where an interface is in `nr_probe` or `nr_disconnect`: the next statement,
with the local `dev`. -/
inductive Phase where
  | unbound
  | publish (dev : Draft)
  | register (dev : Draft)
  | retract (dev : Draft)
  | freeFailed (dev : Draft)
  | bound
  | readData
  | clearData (dev : Option Draft)
  | freeData (dev : Option Draft)
  | deregister
  | unlock
  deriving DecidableEq, Repr

structure Slot where
  handle : Interface
  phase : Phase
  deriving DecidableEq, Repr

/-- The statements of `nr_open`, with its local `dev`, and what became of the
file after it returned. -/
inductive OpenPc where
  | find
  | getData
  | store (dev : ℕ)
  | reset (dev : ℕ) (w : OpenWrite)
  | exit
  | opened
  | failed
  | closed
  deriving DecidableEq, Repr

/-- The statement of `nr_open` after an assignment. -/
def afterReset (dev : ℕ) : OpenWrite → OpenPc
  | .lenInBuffer => .reset dev .ongoingRead
  | .ongoingRead => .reset dev .outgoingWrite
  | .outgoingWrite => .exit

/-- A file and the threads that are inside a call on it. -/
structure File where
  node : ℕ
  privateData : Option ℕ
  pc : OpenPc
  threads : List ℕ
  deriving DecidableEq, Repr

/-- A published record and the interface it was made for. -/
structure Cell where
  device : Device
  home : ℕ

structure World where
  kernel : Kernel
  slot : ℕ → Slot
  mutex : Option ℕ
  record : ℕ → Option Cell
  files : List File

inductive Move where
  | probe (i : ℕ) (endpoints : List EndpointDescriptor)
  | probeStep (i : ℕ)
  | disconnect (i : ℕ)
  | beginOpen (i : ℕ)
  | openStep (f : ℕ)
  | close (f : ℕ)
  | beginRead (f t count : ℕ) (ppos : ℤ)
  | beginWrite (f t : ℕ) (payload : List Byte)
  | device (r : ℕ) (l : Label)
  deriving DecidableEq, Repr

namespace World

def setSlot (w : World) (i : ℕ) (s : Slot) : World :=
  { w with slot := Function.update w.slot i s }

def setFile (w : World) (f : ℕ) (file : File) : World := { w with files := w.files.set f file }

def setDevice (w : World) (r : ℕ) (c : Cell) (d : Device) : World :=
  { w with record := Function.update w.record r (some { c with device := d }) }

/-- `nr_probe` up to the publication of the record. -/
def probe (host : Host) (w : World) (i : ℕ) (endpoints : List EndpointDescriptor) :
    Option World :=
  match (w.slot i).phase with
  | .unbound =>
      match w.kernel.request host .record with
      | (none,k) => some { w with kernel := k }
      | (some record,k) =>
          match buildNr host endpoints ⟨.kzalloc record,k⟩ with
          | .error s => some { w with kernel := freeUsbNr s.dev s.kernel }
          | .ok s => (s.dev.nr host).map fun nr => { w with
              kernel := s.kernel
              slot := Function.update w.slot i ⟨(w.slot i).handle,.publish s.dev⟩
              record := Function.update w.record s.dev.record (some ⟨.fresh nr,i⟩) }
  | _ => none

/-- The statements of `nr_probe` from the publication on. -/
def probeStep (host : Host) (w : World) (i : ℕ) : Option World :=
  let h := (w.slot i).handle
  match (w.slot i).phase with
  | .publish dev => some (w.setSlot i ⟨{ h with data := some dev },.register dev⟩)
  | .register dev =>
      let r := usbRegisterDev host h w.kernel
      some { w.setSlot i ⟨r.2.1,if r.1 ≠ 0 then .retract dev else .bound⟩ with kernel := r.2.2 }
  | .retract dev => some (w.setSlot i ⟨{ h with data := none },.freeFailed dev⟩)
  | .freeFailed dev =>
      some { w.setSlot i ⟨h,.unbound⟩ with kernel := freeUsbNr dev w.kernel }
  | _ => none

/-- The statements of `nr_disconnect`, which starts on a bound interface. -/
def disconnect (w : World) (i : ℕ) : Option World :=
  let h := (w.slot i).handle
  match (w.slot i).phase with
  | .bound =>
      if w.mutex.isNone then some { w.setSlot i ⟨h,.readData⟩ with mutex := some i } else none
  | .readData => some (w.setSlot i ⟨h,.clearData h.data⟩)
  | .clearData dev => some (w.setSlot i ⟨{ h with data := none },.freeData dev⟩)
  | .freeData none => some (w.setSlot i ⟨h,.deregister⟩)
  | .freeData (some dev) =>
      some { w.setSlot i ⟨h,.deregister⟩ with kernel := freeUsbNr dev w.kernel }
  | .deregister =>
      let r := usbDeregisterDev h w.kernel
      some { w.setSlot i ⟨r.1,.unlock⟩ with kernel := r.2 }
  | .unlock => some { w.setSlot i ⟨h,.unbound⟩ with mutex := none }
  | _ => none

def openStep (w : World) (f : ℕ) : Option World :=
  match w.files[f]? with
  | none => none
  | some file =>
      match file.pc with
      -- usb_find_interface
      | .find =>
          let pc := if (w.slot file.node).handle.minor.isSome then .getData else .failed
          some (w.setFile f { file with pc := pc })
      | .getData =>
          let pc := match (w.slot file.node).handle.data with
            | some dev => .store dev.record
            | none => .failed
          some (w.setFile f { file with pc := pc })
      | .store dev =>
          some (w.setFile f { file with privateData := some dev, pc := .reset dev .lenInBuffer })
      | .reset dev v =>
          (w.record dev).map fun c =>
            (w.setDevice dev c { c.device with nr := c.device.nr.openWrite v }).setFile f
              { file with pc := afterReset dev v }
      | .exit => some (w.setFile f { file with pc := .opened })
      | .opened | .failed | .closed => none

/-- `nr_release`, which the kernel calls when no call on the file is running. -/
def close (w : World) (f : ℕ) : Option World :=
  match w.files[f]? with
  | none => none
  | some file =>
      if file.pc = .opened ∧ file.threads = [] then
        some (w.setFile f { file with pc := .closed })
      else none

/-- A thread enters `nr_read` or `nr_write` on an open file. -/
def beginCall (w : World) (f t : ℕ) (l : Label) : Option World :=
  match w.files[f]? with
  | none => none
  | some file =>
      match file.pc, file.privateData with
      | .opened, some r =>
          (w.record r).bind fun c => (step c.device l).map fun d =>
            (w.setDevice r c d).setFile f { file with threads := t :: file.threads }
      | _, _ => none

end World

/-- The file of a call, and whether the call is about to return. -/
def jobFile : Job → Option (ℕ × Bool)
  | .idle => none
  | .reading c => some (c.filp,decide (c.pc = .exit))
  | .writing c => some (c.filp,decide (c.pc = .exit))

/-- The labels of a device that belong to running calls and to the hardware. -/
def internal : Label → Bool
  | .beginRead .. | .beginWrite .. | .openWrite _ => false
  | _ => true

/-- A call that returns leaves its file. -/
def leave (d : Device) (l : Label) (files : List File) : List File :=
  match l with
  | .run t _ =>
      match jobFile (d.job t) with
      | some (f,true) =>
          match files[f]? with
          | some file => files.set f
              { file with threads := file.threads.filter fun u => decide (u ≠ t) }
          | none => files
      | _ => files
  | _ => files

def World.deviceStep (w : World) (r : ℕ) (l : Label) : Option World :=
  if internal l then
    (w.record r).bind fun c => (step c.device l).map fun d =>
      { w.setDevice r c d with files := leave c.device l w.files }
  else none

def move (host : Host) (w : World) : Move → Option World
  | .probe i endpoints => w.probe host i endpoints
  | .probeStep i => w.probeStep host i
  | .disconnect i => w.disconnect i
  | .beginOpen i => some { w with files := w.files ++ [⟨i,none,.find,[]⟩] }
  | .openStep f => w.openStep f
  | .close f => w.close f
  | .beginRead f t count ppos => w.beginCall f t (.beginRead t f count ppos)
  | .beginWrite f t payload => w.beginCall f t (.beginWrite t f payload)
  | .device r l => w.deviceStep r l

/-- The module is loaded and nothing is plugged or opened. -/
def World.start : World := ⟨⟨0,[]⟩,fun _ => ⟨.fresh,.unbound⟩,none,fun _ => none,[]⟩

/-- `free_usb_nr` has released the record. -/
def World.Released (w : World) (r : ℕ) : Prop := .released (.record,r) ∈ w.kernel.log

instance (w : World) (r : ℕ) : Decidable (w.Released r) :=
  inferInstanceAs (Decidable (_ ∈ _))

/-- The record of a published interface that `free_usb_nr` is called on by this
move. -/
def World.frees (w : World) : Move → Option ℕ
  | .probeStep i =>
      match (w.slot i).phase with
      | .freeFailed dev => some dev.record
      | _ => none
  | .disconnect i =>
      match (w.slot i).phase with
      | .freeData (some dev) => some dev.record
      | _ => none
  | _ => none

/-- The record a running `nr_open` has read from the interface. -/
def File.reads (file : File) : Option ℕ :=
  match file.pc with
  | .store dev | .reset dev _ => some dev
  | .exit => file.privateData
  | _ => none

/-- The record an open file refers to. -/
def File.names (file : File) : Option ℕ :=
  match file.pc with
  | .opened => file.privateData
  | _ => none

/-- A statement of `nr_open`, `nr_read` or `nr_write` reads or writes this
record. The return of a call does not. -/
def World.touches (w : World) : Move → Option ℕ
  | .openStep f =>
      match w.files[f]? with
      | some ⟨_,_,.reset dev _,_⟩ => some dev
      | _ => none
  | .device r (.run t _) | .device r (.signal t) =>
      match (w.record r).bind fun c => jobFile (c.device.job t) with
      | some (_,false) => some r
      | _ => none
  | _ => none

/-- A running `nr_open` on the node of an interface. -/
def File.opening (file : File) (i : ℕ) : Bool :=
  file.node = i && match file.pc with
    | .opened | .failed | .closed => false
    | _ => true

/-- The USB core keeps `usb_deregister_dev` and a running `nr_open` on the same
minor apart. -/
def OpenExclusion (w : World) : Move → Prop
  | .disconnect i => (w.slot i).phase = .deregister → ∀ file ∈ w.files, file.opening i = false
  | _ => True

/-- The USB core calls `nr_disconnect` when no URB of the interface is in flight
and accepts no submission after that. -/
def CoreRules (w : World) : Move → Prop
  | .disconnect i => (w.slot i).phase = .bound →
      ∀ dev ∈ (w.slot i).handle.data, ∀ c ∈ w.record dev.record,
        c.device.nr.intInUrb.flight = none ∧ c.device.nr.intOutUrb.flight = none
  | .device r (.run t k) => ∀ c ∈ w.record r,
      readerAt c.device t = some .submit ∨ writerAt c.device t = some .submit →
        k = 0 → (w.slot c.home).phase = .bound
  | _ => True

instance (w : World) (m : Move) : Decidable (OpenExclusion w m) :=
  match m with
  | .disconnect _ => inferInstanceAs (Decidable (_ → _))
  | .probe .. | .probeStep _ | .beginOpen _ | .openStep _ | .close _ | .beginRead ..
  | .beginWrite .. | .device .. => isTrue trivial

instance (w : World) (m : Move) : Decidable (CoreRules w m) :=
  match m with
  | .disconnect _ => inferInstanceAs (Decidable (_ → _))
  | .device _ (.run ..) => inferInstanceAs (Decidable (∀ c ∈ _, _))
  | .device _ (.beginRead ..) | .device _ (.beginWrite ..) | .device _ (.openWrite _)
  | .device _ (.signal _) | .device _ (.inCompletes ..) | .device _ .outTakes
  | .device _ (.outCompletes ..) => isTrue trivial
  | .probe .. | .probeStep _ | .beginOpen _ | .openStep _ | .close _ | .beginRead ..
  | .beginWrite .. => isTrue trivial

/-- No record is released between the two kernels. -/
structure Quiet (k k' : Kernel) : Prop where
  later : k.requests ≤ k'.requests
  released : ∀ r, .released (.record,r) ∈ k'.log → .released (.record,r) ∈ k.log

theorem Quiet.refl (k : Kernel) : Quiet k k := ⟨Nat.le_refl _,fun _ h => h⟩

theorem Quiet.grant (k : Kernel) (r : Resource) : Quiet k (k.grant r) :=
  ⟨Nat.le_succ _,fun _ h => by simpa [Kernel.grant] using h⟩

theorem Quiet.refuse (k : Kernel) : Quiet k k.refuse := ⟨Nat.le_succ _,fun _ h => h⟩

theorem Quiet.trans {k k' k'' : Kernel} (h : Quiet k k') (h' : Quiet k' k'') : Quiet k k'' :=
  ⟨Nat.le_trans h.later h'.later,fun r hr => h.released r (h'.released r hr)⟩

theorem Quiet.free {k : Kernel} {r : Resource} (hr : r ≠ .record) (id : Option ℕ) :
    Quiet k (k.free r id) := by
  cases id with
  | none => exact .refl k
  | some n => exact ⟨Nat.le_refl _,fun q hq => by simpa [Kernel.free,hr.symm] using hq⟩

theorem quiet_register (host : Host) (i : Interface) (k : Kernel) :
    Quiet k (usbRegisterDev host i k).2.2 := by
  unfold usbRegisterDev
  split_ifs
  · exact .grant k _
  · exact .refuse k

theorem build_stable (k : Kernel) :
    Stable fun s => s.dev.record = k.requests ∧ k.requests < s.kernel.requests ∧
      Quiet k s.kernel := by
  constructor
  · intro s dev r hs hnull _ hothers
    obtain ⟨hrec,hlt,hk⟩ := hs
    have hr : Resource.record ≠ r := by
      intro hr
      subst hr
      cases hnull
    have hrec' : dev.record = k.requests := (Option.some.inj (hothers _ hr)).trans hrec
    exact ⟨hrec',Nat.lt_succ_of_lt hlt,hk.trans (.grant _ r)⟩
  · intro s dev hs hsame
    obtain ⟨hrec,hlt,hk⟩ := hs
    have hrec' : dev.record = k.requests :=
      (Option.some.inj (congrFun hsame .record)).trans hrec
    exact ⟨hrec',Nat.lt_succ_of_lt hlt,hk.trans (.refuse _)⟩

/-- The outcomes of the part of `nr_probe` that is one move: no record, a record
that is freed again, or one that is about to be published. Its name is new. -/
theorem World.probe_cases {host : Host} {w w' : World} {i : ℕ} {endpoints : List EndpointDescriptor}
    (hs : w.probe host i endpoints = some w') :
    (w.slot i).phase = .unbound ∧ (w' = { w with kernel := w.kernel.refuse } ∨
      ∃ dev k, dev.record = w.kernel.requests ∧ w.kernel.requests < k.requests ∧
        Quiet w.kernel k ∧ (w' = { w with kernel := freeUsbNr dev k } ∨
          ∃ nr, dev.nr host = some nr ∧ w' = { w with
            kernel := k
            slot := Function.update w.slot i ⟨(w.slot i).handle,.publish dev⟩
            record := Function.update w.record dev.record (some ⟨.fresh nr,i⟩) })) := by
  unfold World.probe at hs
  split at hs
  case h_2 => cases hs
  rename_i hphase
  refine ⟨hphase,?_⟩
  rcases w.kernel.request_cases host .record with hr | hr
  · rw [hr] at hs
    have hend := buildNr_ends host endpoints (build_stable w.kernel)
      (s := ⟨.kzalloc w.kernel.requests,w.kernel.grant .record⟩)
      ⟨rfl,Nat.lt_succ_self _,.grant _ _⟩ rfl
    cases hb : buildNr host endpoints ⟨.kzalloc w.kernel.requests,w.kernel.grant .record⟩ with
    | error s =>
        rw [hb] at hend
        simp only [hb] at hs
        cases hs
        exact .inr ⟨s.dev,s.kernel,hend.1,hend.2.1,hend.2.2,.inl rfl⟩
    | ok s =>
        rw [hb] at hend
        simp only [hb] at hs
        obtain ⟨nr,hnr,rfl⟩ := Option.map_eq_some_iff.mp hs
        exact .inr ⟨s.dev,s.kernel,hend.1.1,hend.1.2.1,hend.1.2.2,.inr ⟨nr,hnr,rfl⟩⟩
  · rw [hr] at hs
    cases hs
    exact .inl rfl

section InARow
variable {host : Host} {w : World} {i : ℕ}

theorem publish_in_a_row {h : Interface} {dev : Draft} (hs : w.slot i = ⟨h,.publish dev⟩) {code : ℤ}
    {h' : Interface} {k : Kernel}
    (hreg : usbRegisterDev host { h with data := some dev } w.kernel = (code,h',k)) :
    ∃ ms w', run (move host) w ms = some w' ∧
      w'.kernel = (if code ≠ 0 then freeUsbNr dev k else k) ∧
      w'.slot i = if code ≠ 0 then ⟨{ h' with data := none },.unbound⟩ else ⟨h',.bound⟩ := by
  by_cases hcode : code = 0
  · subst hcode
    refine ⟨[.probeStep i,.probeStep i],{ w.setSlot i ⟨h',.bound⟩ with kernel := k },?_,?_,?_⟩
    · simp [run,move,World.probeStep,World.setSlot,hs,hreg]
    · simp
    · simp [World.setSlot]
  · refine ⟨[.probeStep i,.probeStep i,.probeStep i,.probeStep i],
      { w.setSlot i ⟨{ h' with data := none },.unbound⟩ with kernel := freeUsbNr dev k },?_,?_,?_⟩
    · simp [run,move,World.probeStep,World.setSlot,hs,hreg,hcode]
    · simp [hcode]
    · simp [World.setSlot,hcode]

/-- The moves of a probe in a row do what `nr_probe` does. -/
theorem probe_in_a_row (endpoints : List EndpointDescriptor) {h : Interface}
    (hs : w.slot i = ⟨h,.unbound⟩) {code : ℤ} {h' : Interface} {k : Kernel}
    (hprobe : nrProbe host endpoints h w.kernel = (code,h',k)) :
    ∃ ms w', run (move host) w (.probe i endpoints :: ms) = some w' ∧ w'.kernel = k ∧
      w'.slot i = ⟨h',if code = 0 then .bound else .unbound⟩ := by
  unfold nrProbe at hprobe
  rcases w.kernel.request_cases host .record with hr | hr
  · have hend := buildNr_ends host endpoints stable_true
      (s := ⟨.kzalloc w.kernel.requests,w.kernel.grant .record⟩) trivial rfl
    simp only [hr] at hprobe
    cases hb : buildNr host endpoints ⟨.kzalloc w.kernel.requests,w.kernel.grant .record⟩ with
    | error s =>
        rw [hb] at hprobe
        cases hprobe
        refine ⟨[],{ w with kernel := freeUsbNr s.dev s.kernel },?_,rfl,by simp [hs,ENODEV]⟩
        simp [run,move,World.probe,hs,hr,hb]
    | ok s =>
        rw [hb] at hprobe hend
        obtain ⟨nr,hnr⟩ : ∃ nr, s.dev.nr host = some nr := by
          obtain ⟨_,_,_,_,_,_,_,_,_,_,hnr⟩ := Built.nr hend.2
          exact ⟨_,hnr⟩
        let v : World := { w with
          kernel := s.kernel
          slot := Function.update w.slot i ⟨h,.publish s.dev⟩
          record := Function.update w.record s.dev.record (some ⟨.fresh nr,i⟩) }
        have hv : move host w (.probe i endpoints) = some v := by
          simp [move,World.probe,hs,hr,hb,hnr,v]
        simp only at hprobe
        rcases hreg : usbRegisterDev host { h with data := some s.dev } s.kernel with ⟨c,h₁,k₁⟩
        rw [hreg] at hprobe
        have hvs : v.slot i = ⟨h,.publish s.dev⟩ := by simp [v]
        obtain ⟨ms,w',hrun,hk,hslot⟩ := publish_in_a_row hvs hreg
        refine ⟨ms,w',by rw [run_cons_some hv,hrun],?_⟩
        rw [hk,hslot]
        simp only at hprobe
        split_ifs at hprobe with hcode
        · cases hprobe
          simp [hcode]
        · simp only [ne_eq,not_not] at hcode
          cases hprobe
          simp [hcode]
  · simp only [hr] at hprobe
    cases hprobe
    refine ⟨[],{ w with kernel := w.kernel.refuse },?_,rfl,by simp [hs,ENODEV]⟩
    simp [run,move,World.probe,hs,hr]

theorem disconnect_in_a_row {h : Interface} (hs : w.slot i = ⟨h,.bound⟩) (hm : w.mutex = none) :
    ∃ w', run (move host) w (List.replicate 6 (.disconnect i)) = some w' ∧ w'.mutex = none ∧
      w'.kernel = (nrDisconnect h w.kernel).2 ∧
      w'.slot i = ⟨(nrDisconnect h w.kernel).1,.unbound⟩ := by
  obtain ⟨data,minor⟩ := h
  cases data with
  | none =>
      refine ⟨_,by simp [List.replicate,run,move,World.disconnect,World.setSlot,hs,hm]; rfl,
        rfl,rfl,?_⟩
      simp [nrDisconnect]
  | some dev =>
      refine ⟨_,by simp [List.replicate,run,move,World.disconnect,World.setSlot,hs,hm]; rfl,
        rfl,rfl,?_⟩
      simp [nrDisconnect]

end InARow

end NrDriver.DeviceWorld
