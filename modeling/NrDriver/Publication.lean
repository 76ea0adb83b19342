import NrDriver.ProbeSteps
import NrDriver.OpenRace
import NrDriver.NumberedTable

/-!
# Opens that race a probe

The machine of `DeviceWorld` before any disconnect, with every `nr_probe` going
step by step: any number of probes on different interfaces and any number of
opens take turns, and the calls on open files run beside them. A record under
construction belongs to the frame of its probe; from its publication on, the
moves of `DeviceWorld` carry it. `failed` collects the records of the probes
that returned an error and is read by no step.

An open finds an interface only while it has a minor, and before a disconnect
it has one only when its probe has succeeded: the record an open stores is the
one that probe built. `ProbeSteps` says what that record looks like.
-/
namespace NrDriver.Publication
open KernelModel TransferSteps ProbeModel ProbeOutcome ProbeSteps DeviceWorld OpenRace
  NumberedTable LabelledRuns

/-- A running `nr_probe` that has allocated its record and not published it:
at a step, or at the error label. -/
inductive Frame where
  | building (endpoints : List EndpointDescriptor) (pc : BuildPc) (dev : Draft)
  | freeing (dev : Draft)
  deriving DecidableEq, Repr

def Frame.dev : Frame → Draft
  | .building _ _ dev => dev
  | .freeing dev => dev

structure Probing where
  world : World
  frame : ℕ → Option Frame
  failed : List ℕ

inductive Act where
  | probe (i : ℕ) (endpoints : List EndpointDescriptor)
  | build (i : ℕ)
  | world (m : Move)
  deriving DecidableEq, Repr

namespace Probing

def setKernel (p : Probing) (k : Kernel) : Probing :=
  { p with world := { p.world with kernel := k } }

def setFrame (p : Probing) (i : ℕ) (frame : Option Frame) : Probing :=
  { p with frame := Function.update p.frame i frame }

/-- `nr_probe` is called and allocates its record. -/
def probe (host : Host) (p : Probing) (i : ℕ) (endpoints : List EndpointDescriptor) :
    Option Probing :=
  match (p.world.slot i).phase, p.frame i with
  | .unbound, none =>
      match p.world.kernel.request host .record with
      | (none,k) => some (p.setKernel k)
      | (some record,k) =>
          some ((p.setKernel k).setFrame i (some (.building endpoints .getDev (.kzalloc record))))
  | _, _ => none

/-- The record is complete as far as its probe can tell and leaves the frame. -/
def enter (host : Host) (p : Probing) (i : ℕ) (s : Site) : Probing where
  world := { p.world with
    kernel := s.kernel
    slot := Function.update p.world.slot i ⟨(p.world.slot i).handle,.publish s.dev⟩
    record := Function.update p.world.record s.dev.record
      ((s.dev.nr host).map fun nr => ⟨.fresh nr,i⟩) }
  frame := Function.update p.frame i none
  failed := p.failed

/-- The next step of a probe up to the publication, or the freeing of its record. -/
def build (host : Host) (p : Probing) (i : ℕ) : Option Probing :=
  match p.frame i with
  | none => none
  | some (.freeing dev) =>
      some { (p.setKernel (freeUsbNr dev p.world.kernel)).setFrame i none with
        failed := dev.record :: p.failed }
  | some (.building endpoints pc dev) =>
      match buildStep host endpoints pc ⟨dev,p.world.kernel⟩ with
      | .error s => some ((p.setKernel s.kernel).setFrame i (some (.freeing s.dev)))
      | .ok (s,some next) =>
          some ((p.setKernel s.kernel).setFrame i (some (.building endpoints next s.dev)))
      | .ok (s,none) => some (p.enter host i s)

end Probing

/-- The moves of the world that go on here: no disconnect, and no probe in one move. -/
def beforeDisconnect : Move → Bool
  | .probe .. | .disconnect _ => false
  | _ => true

def act (host : Host) (p : Probing) : Act → Option Probing
  | .probe i endpoints => p.probe host i endpoints
  | .build i => p.build host i
  | .world m =>
      if beforeDisconnect m then
        (move host p.world m).map fun w =>
          { p with world := w, failed := (p.world.frees m).toList ++ p.failed }
      else none

def Probing.start : Probing := ⟨.start,fun _ => none,[]⟩

section InARow
variable {host : Host} {i : ℕ} {endpoints : List EndpointDescriptor}

/-- Where the steps of a probe lead with this outcome of `buildNr`. -/
def Probing.after (host : Host) (p : Probing) (i : ℕ) : Except Site Site → Probing
  | .ok s => p.enter host i s
  | .error s =>
      { (p.setKernel (freeUsbNr s.dev s.kernel)).setFrame i none with
        failed := s.dev.record :: p.failed }

theorem Probing.after_moved (p : Probing) (k : Kernel) (frame : Option Frame)
    (x : Except Site Site) :
    ((p.setKernel k).setFrame i frame).after host i x = p.after host i x := by
  cases x <;> simp [after,enter,setKernel,setFrame]

theorem build_in_a_row {n : ℕ} {p : Probing} {pc : BuildPc} {dev : Draft}
    (hp : p.frame i = some (.building endpoints pc dev))
    (hn : stepsLeft endpoints (some pc) ≤ n) :
    ∃ as, run (act host) p as =
      some (p.after host i (finishNr host endpoints (some pc) ⟨dev,p.world.kernel⟩)) := by
  induction n generalizing p pc dev with
  | zero =>
      cases pc with
      | allocUrb d => cases d <;> simp [stepsLeft] at hn
      | _ => simp [stepsLeft] at hn
  | succ n ih =>
      rw [finishNr_step]
      cases hb : buildStep host endpoints pc ⟨dev,p.world.kernel⟩ with
      | error s =>
          refine ⟨[.build i,.build i],?_⟩
          simp [run,act,Probing.build,hp,hb,Probing.setFrame,Probing.setKernel,Probing.after,
            Bind.bind,Except.bind]
      | ok r =>
          obtain ⟨s,next⟩ := r
          cases next with
          | none =>
              refine ⟨[.build i],?_⟩
              simp [run,act,Probing.build,hp,hb,Probing.after,finishNr,Bind.bind,Except.bind]
          | some next =>
              have hlt := stepsLeft_lt hb
              let q := (p.setKernel s.kernel).setFrame i (some (.building endpoints next s.dev))
              have hstep : act host p (.build i) = some q := by
                simp [act,Probing.build,hp,hb,q]
              have hq : q.frame i = some (.building endpoints next s.dev) := by
                simp [q,Probing.setFrame]
              obtain ⟨as,has⟩ := ih hq (by omega)
              refine ⟨.build i :: as,?_⟩
              rw [run_cons_some hstep,has,Probing.after_moved]
              rfl

/-- The steps of a probe in a row make the one move that `DeviceWorld` has for them. -/
theorem probe_in_steps {p : Probing} {w : World} (hframe : p.frame i = none)
    (hs : move host p.world (.probe i endpoints) = some w) :
    ∃ as q, run (act host) p (.probe i endpoints :: as) = some q ∧ q.world = w ∧
      q.frame = p.frame := by
  simp only [move,World.probe] at hs
  cases hphase : (p.world.slot i).phase <;> simp only [hphase,reduceCtorEq] at hs
  have hsame : Function.update p.frame i none = p.frame := by
    rw [← hframe,Function.update_eq_self]
  rcases p.world.kernel.request_cases host .record with hr | hr
  · let q := (p.setKernel (p.world.kernel.grant .record)).setFrame i
      (some (.building endpoints .getDev (.kzalloc p.world.kernel.requests)))
    have hstep : act host p (.probe i endpoints) = some q := by
      simp [act,Probing.probe,hphase,hframe,hr,q]
    have hq : q.frame i =
        some (.building endpoints .getDev (.kzalloc p.world.kernel.requests)) := by
      simp [q,Probing.setFrame]
    obtain ⟨as,has⟩ := build_in_a_row hq (Nat.le_refl _)
    refine ⟨as,_,by rw [run_cons_some hstep,has],?_⟩
    have hkernel : q.world.kernel = p.world.kernel.grant .record := rfl
    rw [Probing.after_moved,hkernel]
    simp only [hr] at hs
    simp only [finishNr]
    cases hb : buildNr host endpoints
        ⟨.kzalloc p.world.kernel.requests,p.world.kernel.grant .record⟩ with
    | error s =>
        simp only [hb] at hs
        exact ⟨Option.some.inj hs,hsame⟩
    | ok s =>
        simp only [hb] at hs
        obtain ⟨nr,hnr,rfl⟩ := Option.map_eq_some_iff.mp hs
        refine ⟨?_,hsame⟩
        simp only [Probing.after,Probing.enter,hnr,Option.map_some]
  · simp only [hr] at hs
    refine ⟨[],p.setKernel p.world.kernel.refuse,?_,Option.some.inj hs,rfl⟩
    simp [run,act,Probing.probe,hphase,hframe,hr]

end InARow

/-- No pointer of the record is null, and each buffer has the size of a packet
of its endpoint. -/
structure Complete (dev : Draft) : Prop where
  usbdev : dev.usbdev ≠ none
  half : ∀ d, ∃ e b u, dev.half d = ⟨some e,some b,some u⟩ ∧ b.size = e.packetSize

theorem complete_of_built {host : Host} {endpoints : List EndpointDescriptor} {dev : Draft}
    (h : Built host endpoints dev) : Complete dev := by
  refine ⟨h.usbdev,fun d => ?_⟩
  obtain ⟨e,b,u,hd,_,hsize⟩ := h.half d
  exact ⟨e,b,u,hd,hsize⟩

def Frame.Ok (host : Host) : Frame → Prop
  | .building endpoints pc dev => Shape host endpoints (some pc) dev
  | .freeing _ => True

/-- An interface at each statement before a disconnect. -/
def SlotOk (s : Slot) : Prop :=
  match s.phase with
  | .unbound | .freeFailed _ => s.handle = .fresh
  | .publish dev => s.handle = .fresh ∧ Complete dev
  | .register dev => s.handle = ⟨some dev,none⟩ ∧ Complete dev
  | .retract dev => s.handle = ⟨some dev,none⟩
  | .bound => ∃ dev n, s.handle = ⟨some dev,some n⟩ ∧ Complete dev
  | _ => False

/-- The probe of the interface has succeeded with this record. -/
def Bound (slot : ℕ → Slot) (i r : ℕ) : Prop :=
  (slot i).phase = .bound ∧ ∃ dev, (slot i).handle.data = some dev ∧ dev.record = r

/-- `nr_open` has stored the pointer. -/
def stored : OpenPc → Bool
  | .reset .. | .exit | .opened | .closed => true
  | _ => false

structure FileOk (slot : ℕ → Slot) (file : File) : Prop where
  found : file.pc = .getData → (slot file.node).phase = .bound
  read : ∀ r, file.pc = .store r → Bound slot file.node r
  data : ∀ r, file.privateData = some r → Bound slot file.node r
  stored : stored file.pc = true → file.privateData ≠ none

/-- The record a probe or its interface refers to. -/
def Probing.holder (p : Probing) (i : ℕ) : Option ℕ :=
  match p.frame i with
  | some frame => some frame.dev.record
  | none => Slot.names (p.world.slot i)

/-- Two interfaces never share a record, and no interface has a failed one. -/
structure Named (p : Probing) : Prop where
  numbers : Numbering id p.holder p.world.kernel.requests
  failed : ∀ r ∈ p.failed, r < p.world.kernel.requests ∧ ∀ i, p.holder i ≠ some r

structure Sound (host : Host) (p : Probing) : Prop where
  named : Named p
  frames : ∀ i frame, p.frame i = some frame →
    (p.world.slot i).phase = .unbound ∧ frame.Ok host
  slots : ∀ i, SlotOk (p.world.slot i)
  files : ∀ file ∈ p.world.files, FileOk p.world.slot file

theorem Bound.same {slot slot' : ℕ → Slot} (hslot : ∀ i, (slot i).phase = .bound → slot' i = slot i)
    {i r : ℕ} (h : Bound slot i r) : Bound slot' i r := by
  unfold Bound at *
  rwa [hslot i h.1]

theorem FileOk.same {slot slot' : ℕ → Slot}
    (hslot : ∀ i, (slot i).phase = .bound → slot' i = slot i) {file : File}
    (h : FileOk slot file) : FileOk slot' file := by
  refine ⟨fun hpc => ?_,fun r hr => (h.read r hr).same hslot,fun r hr => (h.data r hr).same hslot,
    h.stored⟩
  rw [hslot _ (h.found hpc)]
  exact h.found hpc

theorem FileOk.again {slot : ℕ → Slot} {file file' : File} (h : FileOk slot file)
    (hnode : file'.node = file.node) (hdata : file'.privateData = file.privateData)
    (hpc : file'.pc = file.pc ∨ (file'.pc = .closed ∧ file.pc = .opened)) :
    FileOk slot file' := by
  obtain ⟨node,data,pc,threads⟩ := file
  obtain ⟨node',data',pc',threads'⟩ := file'
  simp only at hnode hdata hpc
  subst hnode
  subst hdata
  rcases hpc with rfl | ⟨rfl,rfl⟩
  · exact ⟨h.found,h.read,h.data,h.stored⟩
  · exact ⟨by simp,by simp,h.data,fun _ => h.stored rfl⟩

namespace Named
variable {p q : Probing}

theorem of_back (h : Named p) (hback : ∀ i r, q.holder i = some r → p.holder i = some r)
    (hreq : p.world.kernel.requests ≤ q.world.kernel.requests)
    (hfailed : ∀ r ∈ q.failed, r ∈ p.failed ∨
      (r < p.world.kernel.requests ∧ ∀ i, q.holder i ≠ some r)) : Named q := by
  constructor
  · exact (h.numbers.of_back fun i r hr => ⟨r,hback i r hr,rfl⟩).mono hreq
  · intro r hr
    rcases hfailed r hr with hold | ⟨hlt,hne⟩
    · obtain ⟨hlt,hne⟩ := h.failed r hold
      exact ⟨Nat.lt_of_lt_of_le hlt hreq,fun i hi => hne i (hback i r hi)⟩
    · exact ⟨Nat.lt_of_lt_of_le hlt hreq,hne⟩

theorem kept (h : Named p) {i r : ℕ} (hi : p.holder i = some r)
    (hq : q.holder = Function.update p.holder i (some r))
    (hreq : p.world.kernel.requests ≤ q.world.kernel.requests)
    (hfailed : q.failed = p.failed) : Named q := by
  have hsame : q.holder = p.holder := by rw [hq,← hi,Function.update_eq_self]
  apply h.of_back ?_ hreq
  · intro r' hr'
    exact .inl (hfailed ▸ hr')
  · intro j r' hj
    rwa [hsame] at hj

theorem released (h : Named p) {i r : ℕ} (hi : p.holder i = some r) (hnone : q.holder i = none)
    (hothers : ∀ j, j ≠ i → q.holder j = p.holder j)
    (hreq : p.world.kernel.requests ≤ q.world.kernel.requests)
    (hfailed : q.failed = r :: p.failed) : Named q := by
  apply h.of_back ?_ hreq
  · intro r' hr'
    rw [hfailed,List.mem_cons] at hr'
    rcases hr' with rfl | hr'
    · refine .inr ⟨h.numbers.lt i r' hi,fun j hj => ?_⟩
      by_cases hji : j = i
      · subst hji
        simp [hnone] at hj
      · rw [hothers j hji] at hj
        exact hji (h.numbers.inj j i r' r' hj hi rfl)
    · exact .inl hr'
  · intro j r' hj
    by_cases hji : j = i
    · subst hji
      simp [hnone] at hj
    · rwa [hothers j hji] at hj

theorem begun (h : Named p) {i : ℕ} (hi : q.holder = Function.update p.holder i
      (some p.world.kernel.requests))
    (hreq : q.world.kernel.requests = p.world.kernel.requests + 1)
    (hfailed : q.failed = p.failed) : Named q := by
  constructor
  · rw [hi,hreq]
    exact h.numbers.start rfl
  · intro r hr
    rw [hfailed] at hr
    obtain ⟨hlt,hne⟩ := h.failed r hr
    refine ⟨by omega,fun j hj => ?_⟩
    rw [hi] at hj
    rcases update_some_cases hj with ⟨_,he⟩ | ⟨_,hold⟩
    · cases he
      exact Nat.lt_irrefl _ hlt
    · exact hne j hold

end Named

theorem keeps_stable (r n : ℕ) :
    Stable fun s => s.dev.record = r ∧ n ≤ s.kernel.requests := by
  constructor
  · intro s dev q hs hnull _ hothers
    have hq : Resource.record ≠ q := by
      intro hq
      subst hq
      cases hnull
    exact ⟨(Option.some.inj (hothers _ hq)).trans hs.1,Nat.le_succ_of_le hs.2⟩
  · intro s dev hs hsame
    exact ⟨(Option.some.inj (congrFun hsame .record)).trans hs.1,Nat.le_succ_of_le hs.2⟩

section Holder
variable (p : Probing) (k : Kernel) (i : ℕ)

theorem holder_setFrame (frame : Frame) :
    ((p.setKernel k).setFrame i (some frame)).holder =
      Function.update p.holder i (some frame.dev.record) := by
  funext j
  by_cases hj : j = i
  · subst hj
    simp [Probing.holder,Probing.setFrame]
  · simp [Probing.holder,Probing.setFrame,Probing.setKernel,hj]

theorem holder_enter (host : Host) (s : Site) :
    (p.enter host i s).holder = Function.update p.holder i (some s.dev.record) := by
  funext j
  by_cases hj : j = i
  · subst hj
    simp [Probing.holder,Probing.enter,Slot.names]
  · simp [Probing.holder,Probing.enter,hj]

end Holder

namespace Sound
variable {host : Host} {p q : Probing} {i : ℕ}

/-- A step of a probe on its own record. -/
theorem of_frame (h : Sound host p) {frame : Option Frame} (hslot : q.world.slot = p.world.slot)
    (hfiles : q.world.files = p.world.files) (hframe : q.frame = Function.update p.frame i frame)
    (hphase : (p.world.slot i).phase = .unbound) (hok : ∀ f, frame = some f → f.Ok host)
    (hnamed : Named q) : Sound host q := by
  refine ⟨hnamed,?_,?_,?_⟩
  · intro j f hj
    rw [hframe] at hj
    rw [hslot]
    rcases update_some_cases hj with ⟨rfl,he⟩ | ⟨_,hold⟩
    · exact ⟨hphase,hok f he⟩
    · exact h.frames j f hold
  · rw [hslot]
    exact h.slots
  · rw [hslot,hfiles]
    exact h.files

/-- A statement on an interface that is not bound yet. -/
theorem of_slot (h : Sound host p) {s : Slot}
    (hslot : q.world.slot = Function.update p.world.slot i s)
    (hfiles : q.world.files = p.world.files) (hbound : (p.world.slot i).phase ≠ .bound)
    (hframe : ∀ j f, q.frame j = some f → j ≠ i ∧ p.frame j = some f) (hs : SlotOk s)
    (hnamed : Named q) : Sound host q := by
  have hsame (j : ℕ) (hj : (p.world.slot j).phase = .bound) : q.world.slot j = p.world.slot j := by
    have hji : j ≠ i := by
      intro hji
      exact hbound (hji ▸ hj)
    rw [hslot,Function.update_of_ne hji]
  refine ⟨hnamed,?_,?_,?_⟩
  · intro j f hj
    obtain ⟨hji,hold⟩ := hframe j f hj
    rw [hslot,Function.update_of_ne hji]
    exact h.frames j f hold
  · intro j
    rw [hslot]
    exact (Function.forall_update_iff p.world.slot fun _ s => SlotOk s).mpr
      ⟨hs,fun j _ => h.slots j⟩ j
  · intro file hmem
    rw [hfiles] at hmem
    exact (h.files file hmem).same hsame

theorem probe (h : Sound host p) {endpoints : List EndpointDescriptor}
    (hs : p.probe host i endpoints = some q) : Sound host q := by
  unfold Probing.probe at hs
  split at hs
  case h_2 => cases hs
  rename_i hphase hframe
  rcases p.world.kernel.request_cases host .record with hr | hr
  · simp only [hr,Option.some.injEq] at hs
    subst hs
    refine h.of_frame rfl rfl rfl hphase ?_ ?_
    · intro f hf
      cases hf
      rfl
    · exact h.named.begun (holder_setFrame ..) rfl rfl
  · simp only [hr,Option.some.injEq] at hs
    subst hs
    have hnamed : Named (p.setKernel p.world.kernel.refuse) :=
      h.named.of_back (fun _ _ hr => hr) (Nat.le_succ _) fun r hr => .inl hr
    exact ⟨hnamed,h.frames,h.slots,h.files⟩

theorem build (h : Sound host p) (hs : p.build host i = some q) : Sound host q := by
  unfold Probing.build at hs
  split at hs
  · cases hs
  · rename_i dev hframe
    obtain ⟨hphase,_⟩ := h.frames i _ hframe
    simp only [Option.some.injEq] at hs
    subst hs
    refine h.of_frame rfl rfl rfl hphase (by simp) ?_
    have hfresh := h.slots i
    rw [SlotOk,hphase] at hfresh
    refine h.named.released (i := i) (r := dev.record) ?_ ?_ ?_ ?_ rfl
    · simp [Probing.holder,hframe,Frame.dev]
    · simp [Probing.holder,Probing.setFrame,Probing.setKernel,Slot.names,hphase,hfresh,
        Interface.fresh]
    · intro j hj
      simp [Probing.holder,Probing.setFrame,Probing.setKernel,hj]
    · exact Nat.le_of_eq (freeUsbNr_record dev p.world.kernel 0).1.symm
  · rename_i endpoints pc dev hframe
    obtain ⟨hphase,hshape⟩ := h.frames i _ hframe
    have hholder : p.holder i = some dev.record := by simp [Probing.holder,hframe,Frame.dev]
    have hends := buildStep_ends (keeps_stable dev.record p.world.kernel.requests)
      (s := ⟨dev,p.world.kernel⟩) ⟨rfl,Nat.le_refl _⟩ hshape
    split at hs
    · rename_i s hb
      simp only [hb,StepEnds] at hends
      simp only [Option.some.injEq] at hs
      subst hs
      refine h.of_frame rfl rfl rfl hphase ?_ (h.named.kept hholder ?_ hends.2 rfl)
      · intro f hf
        cases hf
        trivial
      · rw [holder_setFrame,Frame.dev,hends.1]
    · rename_i s next hb
      simp only [hb,StepEnds] at hends
      simp only [Option.some.injEq] at hs
      subst hs
      refine h.of_frame rfl rfl rfl hphase ?_
        (h.named.kept hholder ?_ hends.1.2 rfl)
      · intro f hf
        cases hf
        exact hends.2
      · rw [holder_setFrame,Frame.dev,hends.1.1]
    · rename_i s hb
      simp only [hb,StepEnds] at hends
      simp only [Option.some.injEq] at hs
      subst hs
      refine h.of_slot rfl rfl (by simp [hphase]) ?_ ?_
        (h.named.kept hholder ?_ hends.1.2 rfl)
      · intro j f hj
        rcases update_some_cases hj with ⟨_,he⟩ | hold
        · cases he
        · exact hold
      · have hfresh := h.slots i
        rw [SlotOk,hphase] at hfresh
        exact ⟨hfresh,complete_of_built hends.2⟩
      · rw [holder_enter,hends.1.1]

/-- A statement of the world that changes one interface, which no frame is on. -/
theorem holder_slot {w : World} {failed : List ℕ} {s : Slot} (hframe : p.frame i = none)
    (hslot : w.slot = Function.update p.world.slot i s) :
    (Probing.holder { p with world := w, failed := failed }) =
      Function.update p.holder i (Slot.names s) := by
  funext j
  by_cases hj : j = i
  · subst hj
    simp [Probing.holder,hframe,hslot]
  · simp [Probing.holder,hslot,hj]

theorem no_frame (h : Sound host p) (hphase : (p.world.slot i).phase ≠ .unbound) :
    p.frame i = none := by
  cases hf : p.frame i with
  | none => rfl
  | some f => exact (hphase (h.frames i f hf).1).elim

theorem holder_names (h : Sound host p) (hphase : (p.world.slot i).phase ≠ .unbound) :
    p.holder i = Slot.names (p.world.slot i) := by
  simp only [Probing.holder,h.no_frame hphase]

/-- A statement of a probe after its publication, which does not free its record. -/
theorem of_statement (h : Sound host p) {w : World} {failed : List ℕ} {s : Slot} {r : ℕ}
    (hslot : w.slot = Function.update p.world.slot i s) (hfiles : w.files = p.world.files)
    (hreq : p.world.kernel.requests ≤ w.kernel.requests) (hfailed : failed = p.failed)
    (hphase : (p.world.slot i).phase ≠ .unbound) (hbound : (p.world.slot i).phase ≠ .bound)
    (hname : Slot.names (p.world.slot i) = some r) (hname' : Slot.names s = some r)
    (hs : SlotOk s) : Sound host { p with world := w, failed := failed } := by
  have hfree := h.no_frame hphase
  have hnamed : Named { p with world := w, failed := failed } := by
    apply h.named.kept (i := i) (r := r)
    · rw [h.holder_names hphase,hname]
    · rw [holder_slot hfree hslot,hname']
    · exact hreq
    · exact hfailed
  apply h.of_slot hslot hfiles hbound ?_ hs hnamed
  intro j f hj
  refine ⟨fun hji => ?_,hj⟩
  subst hji
  exact Option.some_ne_none f (hj.symm.trans hfree)

theorem probeStep (h : Sound host p) {w : World} (hs : p.world.probeStep host i = some w) :
    Sound host { p with
      world := w, failed := (p.world.frees (.probeStep i)).toList ++ p.failed } := by
  have hok := h.slots i
  unfold World.probeStep at hs
  cases hphase : (p.world.slot i).phase <;>
    simp only [hphase,reduceCtorEq,Option.some.injEq] at hs
  case publish dev =>
      subst hs
      simp only [SlotOk,hphase] at hok
      refine h.of_statement (i := i) (r := dev.record) rfl rfl (Nat.le_refl _) ?_ ?_ ?_ ?_ ?_ ?_
      · simp [World.frees,hphase]
      · simp [hphase]
      · simp [hphase]
      · simp [Slot.names,hphase]
      · rfl
      · rw [hok.1]
        exact ⟨rfl,hok.2⟩
  case register dev =>
      subst hs
      simp only [SlotOk,hphase] at hok
      have hnone : (p.world.frees (.probeStep i)).toList ++ p.failed = p.failed := by
        simp [World.frees,hphase]
      have hname : Slot.names (p.world.slot i) = some dev.record := by simp [Slot.names,hphase]
      by_cases hans : host.answer p.world.kernel.requests = 0
      · have hreg : usbRegisterDev host (p.world.slot i).handle p.world.kernel =
            (0,⟨some dev,some p.world.kernel.requests⟩,p.world.kernel.grant .minor) := by
          simp [usbRegisterDev,hans,hok.1]
        simp only [hreg]
        refine h.of_statement (i := i) (r := dev.record) rfl rfl (Nat.le_succ _) hnone
          ?_ ?_ ?_ ?_ ?_
        · simp [hphase]
        · simp [hphase]
        · exact hname
        · simp [Slot.names]
        · exact ⟨dev,_,rfl,hok.2⟩
      · have hreg : usbRegisterDev host (p.world.slot i).handle p.world.kernel =
            (-(host.answer p.world.kernel.requests : ℤ),⟨some dev,none⟩,
              p.world.kernel.refuse) := by
          simp [usbRegisterDev,hans,hok.1]
        have hcode : -(host.answer p.world.kernel.requests : ℤ) ≠ 0 := by omega
        simp only [hreg,hcode,ne_eq,not_false_eq_true,if_true]
        refine h.of_statement (i := i) (r := dev.record) rfl rfl (Nat.le_succ _) hnone
          ?_ ?_ ?_ ?_ ?_
        · simp [hphase]
        · simp [hphase]
        · exact hname
        · rfl
        · rfl
  case retract dev =>
      subst hs
      simp only [SlotOk,hphase] at hok
      refine h.of_statement (i := i) (r := dev.record) rfl rfl (Nat.le_refl _) ?_ ?_ ?_ ?_ ?_ ?_
      · simp [World.frees,hphase]
      · simp [hphase]
      · simp [hphase]
      · simp [Slot.names,hphase]
      · rfl
      · rw [hok]
        rfl
  case freeFailed dev =>
      subst hs
      have hfree := h.no_frame (i := i) (by simp [hphase])
      simp only [SlotOk,hphase] at hok
      refine h.of_slot rfl rfl (by simp [hphase]) ?_ hok ?_
      · intro j f hj
        refine ⟨fun hji => ?_,hj⟩
        subst hji
        exact Option.some_ne_none f (hj.symm.trans hfree)
      · apply h.named.released (i := i) (r := dev.record)
        · simp [h.holder_names (i := i) (by simp [hphase]),Slot.names,hphase]
        · rw [holder_slot hfree rfl]
          simp [Slot.names,hok,Interface.fresh]
        · intro j hj
          rw [holder_slot hfree rfl,Function.update_of_ne hj]
        · exact Nat.le_of_eq (freeUsbNr_record dev p.world.kernel 0).1.symm
        · simp [World.frees,hphase]

theorem of_files (h : Sound host p) {w : World} {failed : List ℕ} (hslot : w.slot = p.world.slot)
    (hkernel : w.kernel = p.world.kernel) (hfailed : failed = p.failed)
    (hfiles : ∀ file ∈ w.files, FileOk p.world.slot file) :
    Sound host { p with world := w, failed := failed } := by
  have hholder : Probing.holder { p with world := w, failed := failed } = p.holder := by
    funext j
    simp only [Probing.holder,hslot]
  have hnamed : Named { p with world := w, failed := failed } := by
    apply h.named.of_back
    · intro j r hj
      rwa [hholder] at hj
    · exact Nat.le_of_eq (congrArg Kernel.requests hkernel).symm
    · intro r hr
      exact .inl (hfailed ▸ hr)
  refine ⟨hnamed,?_,?_,?_⟩
  · intro j f hj
    simp only [hslot]
    exact h.frames j f hj
  · intro j
    simp only [hslot]
    exact h.slots j
  · intro file hmem
    simp only [hslot]
    exact hfiles file hmem

theorem set_file (h : Sound host p) {f : ℕ} {file' : File} (hok : FileOk p.world.slot file') :
    ∀ file ∈ p.world.files.set f file', FileOk p.world.slot file := by
  intro file hmem
  rcases List.mem_or_eq_of_mem_set hmem with hmem | rfl
  · exact h.files file hmem
  · exact hok

theorem openStep (h : Sound host p) {f : ℕ} {w : World} (hs : p.world.openStep f = some w) :
    w.slot = p.world.slot ∧ w.kernel = p.world.kernel ∧
      ∀ file ∈ w.files, FileOk p.world.slot file := by
  unfold World.openStep at hs
  cases hf : p.world.files[f]? with
  | none => simp [hf] at hs
  | some file =>
      have hfile := h.files file (List.mem_of_getElem? hf)
      have hslot := h.slots file.node
      simp only [hf] at hs
      cases hpc : file.pc <;> simp only [hpc,reduceCtorEq,Option.some.injEq] at hs
      case find =>
          subst hs
          refine ⟨rfl,rfl,h.set_file ⟨fun hget => ?_,?_,hfile.data,?_⟩⟩
          -- a minor is only there once the probe has succeeded
          · have hminor : (p.world.slot file.node).handle.minor.isSome = true := by
              by_contra hno
              simp [hno] at hget
            cases hphase : (p.world.slot file.node).phase <;> simp only [SlotOk,hphase] at hslot
            case bound => rfl
            case unbound | freeFailed => simp [hslot,Interface.fresh] at hminor
            case publish => simp [hslot.1,Interface.fresh] at hminor
            case register => simp [hslot.1] at hminor
            case retract => simp [hslot] at hminor
          · intro r hr
            simp only at hr
            split_ifs at hr
          · intro hst
            simp only at hst
            split_ifs at hst <;> simp [stored] at hst
      case getData =>
          subst hs
          have hphase := hfile.found hpc
          simp only [SlotOk,hphase] at hslot
          obtain ⟨dev,n,hhandle,_⟩ := hslot
          refine ⟨rfl,rfl,h.set_file ⟨?_,?_,hfile.data,?_⟩⟩
          · simp [hhandle]
          · intro r hr
            simp only [hhandle,OpenPc.store.injEq] at hr
            exact ⟨hphase,dev,by rw [hhandle],hr⟩
          · simp [hhandle,stored]
      case store r =>
          subst hs
          refine ⟨rfl,rfl,h.set_file ⟨by simp,by simp,?_,by simp⟩⟩
          intro r' hr'
          cases hr'
          exact hfile.read r hpc
      case reset r v =>
          obtain ⟨c,_,rfl⟩ := Option.map_eq_some_iff.mp hs
          refine ⟨rfl,rfl,h.set_file ⟨?_,?_,hfile.data,?_⟩⟩
          · cases v <;> simp [afterReset]
          · cases v <;> simp [afterReset]
          · exact fun _ => hfile.stored (by simp [hpc,stored])
      case exit =>
          subst hs
          refine ⟨rfl,rfl,h.set_file ⟨by simp,by simp,hfile.data,?_⟩⟩
          exact fun _ => hfile.stored (by simp [hpc,stored])

theorem files_same (h : Sound host p) {w : World} {m : Move} (hs : move host p.world m = some w)
    (hm : beforeDisconnect m = true) (hprobe : ∀ i, m ≠ .probeStep i) :
    w.slot = p.world.slot ∧ w.kernel = p.world.kernel ∧ p.world.frees m = none ∧
      ∀ file ∈ w.files, FileOk p.world.slot file := by
  have set {f : ℕ} {file file' : File} (hf : p.world.files[f]? = some file)
      (hnode : file'.node = file.node) (hdata : file'.privateData = file.privateData)
      (hpc : file'.pc = file.pc ∨ (file'.pc = .closed ∧ file.pc = .opened)) :
      ∀ x ∈ p.world.files.set f file', FileOk p.world.slot x :=
    h.set_file (FileOk.again (h.files file (List.mem_of_getElem? hf)) hnode hdata hpc)
  cases m with
  | probe i endpoints => cases hm
  | probeStep i => exact (hprobe i rfl).elim
  | disconnect i => cases hm
  | beginOpen i =>
      cases hs
      refine ⟨rfl,rfl,rfl,fun file hmem => ?_⟩
      rcases List.mem_append.mp hmem with hmem | hmem
      · exact h.files file hmem
      · cases List.mem_singleton.mp hmem
        exact ⟨by simp,by simp,by simp,by simp [stored]⟩
  | openStep f =>
      obtain ⟨hslot,hkernel,hfiles⟩ := h.openStep hs
      exact ⟨hslot,hkernel,rfl,hfiles⟩
  | close f =>
      simp only [move,World.close] at hs
      split at hs
      · cases hs
      · rename_i file hf
        split_ifs at hs with hpc
        cases hs
        exact ⟨rfl,rfl,rfl,set hf rfl rfl (.inr ⟨rfl,hpc.1⟩)⟩
  | beginRead f t count ppos | beginWrite f t payload =>
      simp only [move,World.beginCall] at hs
      split at hs
      · cases hs
      · rename_i file hf
        split at hs
        · obtain ⟨c,_,hs⟩ := Option.bind_eq_some_iff.mp hs
          obtain ⟨d,_,rfl⟩ := Option.map_eq_some_iff.mp hs
          exact ⟨rfl,rfl,rfl,set hf rfl rfl (.inl rfl)⟩
        · cases hs
  | device r l =>
      simp only [move,World.deviceStep] at hs
      split_ifs at hs
      obtain ⟨c,_,hs⟩ := Option.bind_eq_some_iff.mp hs
      obtain ⟨d,_,rfl⟩ := Option.map_eq_some_iff.mp hs
      refine ⟨rfl,rfl,rfl,?_⟩
      simp only [leave]
      split
      · split
        · split
          · rename_i f _ _ file hf
            exact set hf rfl rfl (.inl rfl)
          · exact h.files
        · exact h.files
      · exact h.files

theorem step (h : Sound host p) {a : Act} (hs : act host p a = some q) : Sound host q := by
  cases a with
  | probe i endpoints => exact h.probe hs
  | build i => exact h.build hs
  | world m =>
      simp only [act] at hs
      split_ifs at hs with hm
      obtain ⟨w,hw,rfl⟩ := Option.map_eq_some_iff.mp hs
      by_cases hprobe : ∃ i, m = .probeStep i
      · obtain ⟨i,rfl⟩ := hprobe
        exact h.probeStep hw
      · rw [not_exists] at hprobe
        obtain ⟨hslot,hkernel,hfrees,hfiles⟩ := h.files_same hw hm hprobe
        exact h.of_files hslot hkernel (by rw [hfrees]; rfl) hfiles

end Sound

theorem sound_start (host : Host) : Sound host .start := by
  refine ⟨⟨⟨?_,?_⟩,?_⟩,?_,fun _ => rfl,?_⟩
  · intro i r hr
    cases hr
  · intro i j r r' hr
    cases hr
  · intro r hr
    cases hr
  · intro i frame hi
    cases hi
  · intro file hmem
    cases hmem

/-- Before any disconnect, whatever an open has stored in `private_data` is the
record of a probe that did not fail, with nothing left to fill in. -/
theorem opened_records_complete {host : Host} {as : List Act} {p : Probing}
    (hrun : run (act host) .start as = some p) :
    ∀ file ∈ p.world.files, (file.pc = .opened → file.privateData ≠ none) ∧
      ∀ r, file.privateData = some r → r ∉ p.failed ∧
        ∃ dev, (p.world.slot file.node).handle.data = some dev ∧ dev.record = r ∧
          Complete dev := by
  have h : Sound host p := run_kept (fun _ _ _ h hs => h.step hs) (sound_start host) hrun
  intro file hmem
  have hfile := h.files file hmem
  refine ⟨fun hpc => hfile.stored (by simp [hpc,stored]),fun r hr => ?_⟩
  obtain ⟨hphase,dev,hdata,hrec⟩ := hfile.data r hr
  have hslot := h.slots file.node
  simp only [SlotOk,hphase] at hslot
  obtain ⟨dev',n,hhandle,hcomplete⟩ := hslot
  obtain rfl : dev' = dev := by simpa [hhandle] using hdata
  have hholder : p.holder file.node = some r := by
    rw [h.holder_names (by simp [hphase])]
    simp [Slot.names,hphase,hdata,hrec]
  exact ⟨fun hfailed => (h.named.failed r hfailed).2 file.node hholder,dev',hdata,hrec,hcomplete⟩

/-- The registration of a first probe is refused, and a second probe succeeds.
One open comes too early for each of them, and one after the second. -/
def secondProbe : List Act :=
  [.probe 0 [canIn,canOut],.build 0,.build 0,.build 0,.world (.beginOpen 0),.build 0,.build 0,
    .build 0,.build 0,.build 0,.build 0,.world (.probeStep 0),.world (.openStep 0),
    .world (.beginOpen 0),.world (.probeStep 0),.world (.probeStep 0),.world (.probeStep 0),
    .probe 0 [canIn,canOut],.build 0,.build 0,.build 0,.build 0,.build 0,.world (.openStep 1),
    .build 0,.build 0,.build 0,.build 0,.world (.probeStep 0),.world (.beginOpen 0),
    .world (.probeStep 0),.world (.openStep 2),.world (.openStep 2),.world (.openStep 2),
    .world (.openStep 2),.world (.openStep 2),.world (.openStep 2),.world (.openStep 2)]

theorem second_probe_opened :
    ∃ p ∈ run (act (canHost fun n => if n = 6 then 23 else 0)) .start secondProbe,
      p.failed = [0] ∧
        p.world.files = [⟨0,none,.failed,[]⟩,⟨0,none,.failed,[]⟩,⟨0,some 7,.opened,[]⟩] ∧
          ∃ dev, (p.world.slot 0).handle.data = some dev ∧ dev.record = 7 ∧ Complete dev := by
  obtain ⟨p,hp,hfailed,hfiles⟩ :
      ∃ p ∈ run (act (canHost fun n => if n = 6 then 23 else 0)) .start secondProbe,
        p.failed = [0] ∧
          p.world.files = [⟨0,none,.failed,[]⟩,⟨0,none,.failed,[]⟩,⟨0,some 7,.opened,[]⟩] := by
    decide
  have hmem : ⟨0,some 7,.opened,[]⟩ ∈ p.world.files := by simp [hfiles]
  have hopened := (opened_records_complete hp _ hmem).2 7 rfl
  exact ⟨p,hp,hfailed,hfiles,hopened.2⟩

end NrDriver.Publication
