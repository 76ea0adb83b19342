import NrDriver.DeviceWorld

/-!
# Opens that race a disconnect

`nr_disconnect` holds `disconnect_mutex` while it frees the record, and `nr_open`
never takes it: between its reading of the interface's data pointer and its
return, the record can be released under it. Everything else about records is in
order (`Linked`): an interface refers to one record that nobody released, no two
interfaces share one, and a record that is freed is no longer published. So an
open goes wrong only when `free_usb_nr` falls inside its own window.
-/
namespace NrDriver.OpenRace
open KernelModel TransferSteps ProbeModel ProbeOutcome DeviceWorld Ledger LabelledRuns

/-- The record was handed out and not released. -/
def Live (k : Kernel) (r : ℕ) : Prop := r < k.requests ∧ .released (.record,r) ∉ k.log

theorem Live.quiet {k k' : Kernel} {r : ℕ} (h : Live k r) (hk : Quiet k k') : Live k' r :=
  ⟨Nat.lt_of_lt_of_le h.1 hk.later,fun hr => h.2 (hk.released r hr)⟩

theorem usbRegisterDev_data (host : Host) (i : Interface) (k : Kernel) :
    (usbRegisterDev host i k).2.1.data = i.data := by
  unfold usbRegisterDev
  split_ifs <;> rfl

theorem freeUsbNr_record (dev : Draft) (k : Kernel) (r : ℕ) :
    (freeUsbNr dev k).requests = k.requests ∧ (.released (.record,r) ∈ (freeUsbNr dev k).log ↔
      .released (.record,r) ∈ k.log ∨ r = dev.record) := by
  obtain ⟨hreq,hlog⟩ := freeUsbNr_log dev k (.record,r)
  have hown : (.record,r) ∈ dev.owns ↔ r = dev.record := by
    simp [Draft.owns,Draft.resource,eq_comm]
  exact ⟨hreq,by rw [hlog,hown]⟩

theorem live_freeUsbNr {k : Kernel} {r : ℕ} (h : Live k r) {dev : Draft} (hr : r ≠ dev.record) :
    Live (freeUsbNr dev k) r := by
  obtain ⟨hreq,hlog⟩ := freeUsbNr_record dev k r
  exact ⟨by rw [hreq]; exact h.1,fun hrel => (hlog.mp hrel).elim h.2 hr⟩

theorem live_unbuilt {k k' : Kernel} {r : ℕ} (h : Live k r) (hk : Quiet k k') {dev : Draft}
    (hdev : dev.record = k.requests) : Live (freeUsbNr dev k') r :=
  live_freeUsbNr (h.quiet hk) (by rw [hdev]; exact Nat.ne_of_lt h.1)

/-- The record an interface refers to, through its data pointer or through the
local of the function that runs on it. -/
def Slot.names (s : Slot) : Option ℕ :=
  match s.phase with
  | .publish dev | .register dev | .retract dev | .freeFailed dev => some dev.record
  | .clearData dev | .freeData dev => dev.map Draft.record
  | _ => s.handle.data.map Draft.record

/-- The data pointer at each statement. -/
def Slot.Ok (s : Slot) : Prop :=
  match s.phase with
  | .register dev | .retract dev => s.handle.data = some dev
  | .clearData dev => s.handle.data = dev
  | .bound | .readData => True
  | _ => s.handle.data = none

theorem Slot.names_of_data {s : Slot} (h : Slot.Ok s) {dev : Draft}
    (hd : s.handle.data = some dev) : Slot.names s = some dev.record := by
  obtain ⟨handle,phase⟩ := s
  cases phase <;> simp_all [Slot.Ok,Slot.names]

structure Linked (k : Kernel) (slot : ℕ → Slot) (files : List File) : Prop where
  past : ∀ r, .released (.record,r) ∈ k.log → r < k.requests
  ok : ∀ i, Slot.Ok (slot i)
  live : ∀ i r, Slot.names (slot i) = some r → Live k r
  apart : ∀ i j r, Slot.names (slot i) = some r → Slot.names (slot j) = some r → i = j
  opens : ∀ file ∈ files, ∀ r, file.reads = some r → Live k r
  stored : ∀ file ∈ files, ∀ r v, file.pc = .reset r v → file.privateData = some r

namespace Linked
variable {k k' : Kernel} {slot : ℕ → Slot} {files : List File} {i f : ℕ} {s : Slot}

theorem past_quiet (h : Linked k slot files) (hk : Quiet k k') :
    ∀ r, .released (.record,r) ∈ k'.log → r < k'.requests :=
  fun r hr => Nat.lt_of_lt_of_le (h.past r (hk.released r hr)) hk.later

theorem slot_ok (h : Linked k slot files) (hok : Slot.Ok s) (j : ℕ) :
    Slot.Ok (Function.update slot i s j) :=
  (Function.forall_update_iff slot fun _ s => Slot.Ok s).mpr ⟨hok,fun j _ => h.ok j⟩ j

/-- A statement on an interface that keeps its record or lets go of it. -/
theorem slot_quiet (h : Linked k slot files) (hk : Quiet k k') (hok : Slot.Ok s)
    (hn : ∀ r, Slot.names s = some r → Slot.names (slot i) = some r) :
    Linked k' (Function.update slot i s) files := by
  have back {j r : ℕ} (hj : Slot.names (Function.update slot i s j) = some r) :
      Slot.names (slot j) = some r := by
    by_cases hji : j = i
    · subst hji
      exact hn r (by simpa using hj)
    · simpa [hji] using hj
  have hlive (j r : ℕ) (hj : Slot.names (Function.update slot i s j) = some r) : Live k' r :=
    (h.live j r (back hj)).quiet hk
  have hopens (file : File) (hmem : file ∈ files) (r : ℕ) (hr : file.reads = some r) : Live k' r :=
    (h.opens file hmem r hr).quiet hk
  exact ⟨h.past_quiet hk,h.slot_ok hok,hlive,fun j l r hj hl => h.apart j l r (back hj) (back hl),
    hopens,h.stored⟩

theorem freed (h : Linked k slot files) (dev : Draft)
    (hi : Slot.names (slot i) = some dev.record) (hok : Slot.Ok s) (hn : Slot.names s = none)
    (hfiles : ∀ file ∈ files, file.reads ≠ some dev.record) :
    Linked (freeUsbNr dev k) (Function.update slot i s) files := by
  have back {j r : ℕ} (hj : Slot.names (Function.update slot i s j) = some r) :
      j ≠ i ∧ Slot.names (slot j) = some r := by
    by_cases hji : j = i
    · subst hji
      simp [hn] at hj
    · exact ⟨hji,by simpa [hji] using hj⟩
  have hpast (r : ℕ) (hr : .released (.record,r) ∈ (freeUsbNr dev k).log) :
      r < (freeUsbNr dev k).requests := by
    obtain ⟨hreq,hlog⟩ := freeUsbNr_record dev k r
    rw [hreq]
    rcases hlog.mp hr with hold | rfl
    · exact h.past r hold
    · exact (h.live i _ hi).1
  have hlive (j r : ℕ) (hj : Slot.names (Function.update slot i s j) = some r) :
      Live (freeUsbNr dev k) r := by
    obtain ⟨hji,hj⟩ := back hj
    apply live_freeUsbNr (h.live j r hj)
    intro hr
    subst hr
    exact hji (h.apart j i _ hj hi)
  have hopens (file : File) (hmem : file ∈ files) (r : ℕ) (hr : file.reads = some r) :
      Live (freeUsbNr dev k) r := by
    apply live_freeUsbNr (h.opens file hmem r hr)
    intro hrec
    subst hrec
    exact hfiles file hmem hr
  exact ⟨hpast,h.slot_ok hok,hlive,fun j l r hj hl => h.apart j l r (back hj).2 (back hl).2,
    hopens,h.stored⟩

theorem built (h : Linked k slot files) (hk : Quiet k k') (hlt : k.requests < k'.requests)
    (hok : Slot.Ok s) (hn : Slot.names s = some k.requests) :
    Linked k' (Function.update slot i s) files := by
  have fresh {j : ℕ} (hj : Slot.names (slot j) = some k.requests) : False :=
    Nat.lt_irrefl _ (h.live j _ hj).1
  have back {j r : ℕ} (hj : Slot.names (Function.update slot i s j) = some r) :
      (j = i ∧ r = k.requests) ∨ (j ≠ i ∧ Slot.names (slot j) = some r) := by
    by_cases hji : j = i
    · subst hji
      rw [Function.update_self,hn] at hj
      exact .inl ⟨rfl,(Option.some.inj hj).symm⟩
    · exact .inr ⟨hji,by simpa [hji] using hj⟩
  have hlive (j r : ℕ) (hj : Slot.names (Function.update slot i s j) = some r) : Live k' r := by
    rcases back hj with ⟨_,hr⟩ | ⟨_,hj⟩
    · subst hr
      exact ⟨hlt,fun hr => Nat.lt_irrefl _ (h.past _ (hk.released _ hr))⟩
    · exact (h.live j r hj).quiet hk
  have hapart (j l r : ℕ) (hj : Slot.names (Function.update slot i s j) = some r)
      (hl : Slot.names (Function.update slot i s l) = some r) : j = l := by
    rcases back hj with ⟨hji,hr⟩ | ⟨_,hj⟩
    · rcases back hl with ⟨hli,_⟩ | ⟨_,hl⟩
      · exact hji.trans hli.symm
      · exact (fresh (hr ▸ hl)).elim
    · rcases back hl with ⟨_,hr⟩ | ⟨_,hl⟩
      · exact (fresh (hr ▸ hj)).elim
      · exact h.apart j l r hj hl
  have hopens (file : File) (hmem : file ∈ files) (r : ℕ) (hr : file.reads = some r) : Live k' r :=
    (h.opens file hmem r hr).quiet hk
  exact ⟨h.past_quiet hk,h.slot_ok hok,hlive,hapart,hopens,h.stored⟩

theorem unbuilt (h : Linked k slot files) (hk : Quiet k k') (hlt : k.requests < k'.requests)
    {dev : Draft} (hdev : dev.record = k.requests) : Linked (freeUsbNr dev k') slot files := by
  have hpast (r : ℕ) (hr : .released (.record,r) ∈ (freeUsbNr dev k').log) :
      r < (freeUsbNr dev k').requests := by
    obtain ⟨hreq,hlog⟩ := freeUsbNr_record dev k' r
    rw [hreq]
    rcases hlog.mp hr with hold | rfl
    · exact h.past_quiet hk r hold
    · omega
  have hlive (j r : ℕ) (hj : Slot.names (slot j) = some r) : Live (freeUsbNr dev k') r :=
    live_unbuilt (h.live j r hj) hk hdev
  have hopens (file : File) (hmem : file ∈ files) (r : ℕ) (hr : file.reads = some r) :
      Live (freeUsbNr dev k') r := live_unbuilt (h.opens file hmem r hr) hk hdev
  exact ⟨hpast,h.ok,hlive,h.apart,hopens,h.stored⟩

/-- A statement of `nr_open`, or a change of a file's threads. -/
theorem file (h : Linked k slot files) {file' : File}
    (hreads : ∀ r, file'.reads = some r → Live k r)
    (hst : ∀ r v, file'.pc = .reset r v → file'.privateData = some r) :
    Linked k slot (files.set f file') := by
  have hopens (x : File) (hx : x ∈ files.set f file') (r : ℕ) (hr : x.reads = some r) :
      Live k r := by
    rcases List.mem_or_eq_of_mem_set hx with hx | rfl
    · exact h.opens x hx r hr
    · exact hreads r hr
  have hstored (x : File) (hx : x ∈ files.set f file') (r : ℕ) (v : OpenWrite)
      (hpc : x.pc = .reset r v) : x.privateData = some r := by
    rcases List.mem_or_eq_of_mem_set hx with hx | rfl
    · exact h.stored x hx r v hpc
    · exact hst r v hpc
  exact ⟨h.past,h.ok,h.live,h.apart,hopens,hstored⟩

end Linked

/-- `free_usb_nr` of a record that was published runs only while no running
`nr_open` has read the pointer to it. -/
def FreesUnread (w : World) (m : Move) : Prop :=
  ∀ r ∈ w.frees m, ∀ file ∈ w.files, file.reads ≠ some r

instance (w : World) (m : Move) : Decidable (FreesUnread w m) :=
  inferInstanceAs (Decidable (∀ r ∈ _, ∀ file ∈ _, _))

namespace Linked
variable {host : Host} {w w' : World}

theorem probe (h : Linked w.kernel w.slot w.files) {i : ℕ} {endpoints : List EndpointDescriptor}
    (hs : w.probe host i endpoints = some w') : Linked w'.kernel w'.slot w'.files := by
  obtain ⟨hphase,hout⟩ := World.probe_cases hs
  rcases hout with rfl | ⟨dev,k,hdev,hlt,hk,rfl | ⟨nr,_,rfl⟩⟩
  · have hsame := h.slot_quiet (.refuse w.kernel) (h.ok i) (fun _ hr => hr)
    rwa [Function.update_eq_self] at hsame
  · exact h.unbuilt hk hlt hdev
  · refine h.built hk hlt ?_ (congrArg some hdev)
    have hok := h.ok i
    rw [Slot.Ok,hphase] at hok
    exact hok

theorem probeStep (h : Linked w.kernel w.slot w.files) {i : ℕ}
    (hP : FreesUnread w (.probeStep i)) (hs : w.probeStep host i = some w') :
    Linked w'.kernel w'.slot w'.files := by
  have hok := h.ok i
  unfold World.probeStep at hs
  cases hphase : (w.slot i).phase <;> simp only [hphase,reduceCtorEq,Option.some.injEq] at hs
  case publish dev =>
      subst hs
      refine h.slot_quiet (.refl _) rfl fun r hr => ?_
      simpa [Slot.names,hphase] using hr
  case register dev =>
      subst hs
      rw [Slot.Ok,hphase] at hok
      have hdata := (usbRegisterDev_data host (w.slot i).handle w.kernel).trans hok
      refine h.slot_quiet (quiet_register host _ _) ?_ fun r hr => ?_
      · split_ifs
        · exact hdata
        · trivial
      · split_ifs at hr
        · simpa [Slot.names,hphase] using hr
        · simpa [Slot.names,hphase,hdata] using hr
  case retract dev =>
      subst hs
      refine h.slot_quiet (.refl _) rfl fun r hr => ?_
      simpa [Slot.names,hphase] using hr
  case freeFailed dev =>
      subst hs
      rw [Slot.Ok,hphase] at hok
      refine h.freed dev ?_ hok ?_ ?_
      · simp [Slot.names,hphase]
      · simp [Slot.names,hok]
      · exact hP dev.record (by simp [World.frees,hphase])

theorem disconnect (h : Linked w.kernel w.slot w.files) {i : ℕ}
    (hP : FreesUnread w (.disconnect i)) (hs : w.disconnect i = some w') :
    Linked w'.kernel w'.slot w'.files := by
  have hok := h.ok i
  unfold World.disconnect at hs
  cases hphase : (w.slot i).phase <;> simp only [hphase,reduceCtorEq,Option.some.injEq] at hs
  case bound =>
      split_ifs at hs
      cases hs
      refine h.slot_quiet (.refl _) trivial fun r hr => ?_
      simpa [Slot.names,hphase] using hr
  case readData =>
      subst hs
      refine h.slot_quiet (.refl _) rfl fun r hr => ?_
      simpa [Slot.names,hphase] using hr
  case clearData dev =>
      subst hs
      refine h.slot_quiet (.refl _) rfl fun r hr => ?_
      simpa [Slot.names,hphase] using hr
  case freeData dev =>
      rw [Slot.Ok,hphase] at hok
      cases dev with
      | none =>
          cases hs
          refine h.slot_quiet (.refl _) hok fun r hr => ?_
          simp [Slot.names,hok] at hr
      | some dev =>
          cases hs
          refine h.freed dev ?_ hok ?_ ?_
          · simp [Slot.names,hphase]
          · simp [Slot.names,hok]
          · exact hP dev.record (by simp [World.frees,hphase])
  case deregister =>
      subst hs
      rw [Slot.Ok,hphase] at hok
      refine h.slot_quiet (.free (by simp) _) hok fun r hr => ?_
      simp [Slot.names,usbDeregisterDev,hok] at hr
  case unlock =>
      subst hs
      rw [Slot.Ok,hphase] at hok
      refine h.slot_quiet (.refl _) hok fun r hr => ?_
      simp [Slot.names,hok] at hr

theorem openStep (h : Linked w.kernel w.slot w.files) {f : ℕ} (hs : w.openStep f = some w') :
    Linked w'.kernel w'.slot w'.files := by
  unfold World.openStep at hs
  cases hf : w.files[f]? with
  | none => simp [hf] at hs
  | some file =>
      have hmem := List.mem_of_getElem? hf
      have hreads := h.opens file hmem
      have hst := h.stored file hmem
      simp only [hf] at hs
      cases hpc : file.pc <;> simp only [hpc,reduceCtorEq,Option.some.injEq] at hs
      case find =>
          subst hs
          refine h.file (fun r hr => ?_) (fun r v hr => ?_)
          · split_ifs at hr <;> simp [File.reads] at hr
          · split_ifs at hr
      case getData =>
          subst hs
          cases hd : (w.slot file.node).handle.data with
          | none => exact h.file (by simp [File.reads]) (by simp)
          | some dev =>
              refine h.file (fun r hr => ?_) (by simp)
              exact h.live _ r ((Slot.names_of_data (h.ok _) hd).trans hr)
      case store dev =>
          subst hs
          refine h.file (fun r hr => hreads r ?_) (fun r v hr => ?_)
          · simpa [File.reads,hpc] using hr
          · cases hr
            rfl
      case reset dev v =>
          obtain ⟨c,_,rfl⟩ := Option.map_eq_some_iff.mp hs
          have hdev := hst dev v hpc
          refine h.file (fun r hr => hreads r ?_) (fun r u hr => ?_)
          · cases v <;> simpa [File.reads,hpc,afterReset,hdev] using hr
          · cases v <;> simp only [afterReset,reduceCtorEq,OpenPc.reset.injEq] at hr
            all_goals
              obtain ⟨rfl,_⟩ := hr
              exact hdev
      case exit =>
          subst hs
          exact h.file (by simp [File.reads]) (by simp)

/-- A change of a file's threads or of its end. -/
theorem same_open (h : Linked w.kernel w.slot w.files) {f : ℕ} {file file' : File}
    (hf : w.files[f]? = some file) (hreads : file'.reads = none ∨ file'.reads = file.reads)
    (hst : ∀ r v, file'.pc = .reset r v → file'.privateData = some r) :
    Linked w.kernel w.slot (w.files.set f file') := by
  refine h.file (fun r hr => ?_) hst
  rcases hreads with hn | he
  · simp [hn] at hr
  · exact h.opens file (List.mem_of_getElem? hf) r (he.symm.trans hr)

theorem beginCall (h : Linked w.kernel w.slot w.files) {f t : ℕ} {l : Label}
    (hs : w.beginCall f t l = some w') : Linked w'.kernel w'.slot w'.files := by
  unfold World.beginCall at hs
  cases hf : w.files[f]? with
  | none => simp [hf] at hs
  | some file =>
      simp only [hf] at hs
      split at hs
      · obtain ⟨c,_,hs⟩ := Option.bind_eq_some_iff.mp hs
        obtain ⟨d,_,rfl⟩ := Option.map_eq_some_iff.mp hs
        exact h.same_open hf (.inr rfl) (h.stored file (List.mem_of_getElem? hf))
      · cases hs

theorem leave (h : Linked w.kernel w.slot w.files) (d : Device) (l : Label) :
    Linked w.kernel w.slot (leave d l w.files) := by
  unfold DeviceWorld.leave
  split
  · split
    · split
      · rename_i f _ _ file hf
        exact h.same_open hf (.inr rfl) (h.stored file (List.mem_of_getElem? hf))
      · exact h
    · exact h
  · exact h

theorem step {m : Move} (h : Linked w.kernel w.slot w.files) (hP : FreesUnread w m)
    (hs : move host w m = some w') : Linked w'.kernel w'.slot w'.files := by
  cases m with
  | probe i endpoints => exact h.probe hs
  | probeStep i => exact h.probeStep hP hs
  | disconnect i => exact h.disconnect hP hs
  | beginOpen i =>
      cases hs
      refine ⟨h.past,h.ok,h.live,h.apart,fun x hx => ?_,fun x hx => ?_⟩
      · rcases List.mem_append.mp hx with hx | hx
        · exact h.opens x hx
        · cases List.mem_singleton.mp hx
          simp [File.reads]
      · rcases List.mem_append.mp hx with hx | hx
        · exact h.stored x hx
        · cases List.mem_singleton.mp hx
          simp
  | openStep f => exact h.openStep hs
  | close f =>
      simp only [move,World.close] at hs
      split at hs
      · cases hs
      · rename_i file hf
        split_ifs at hs
        cases hs
        exact h.same_open hf (.inl rfl) (by simp)
  | beginRead f t count ppos => exact h.beginCall hs
  | beginWrite f t payload => exact h.beginCall hs
  | device r l =>
      simp only [move,World.deviceStep] at hs
      split_ifs at hs
      obtain ⟨c,_,hs⟩ := Option.bind_eq_some_iff.mp hs
      obtain ⟨d,_,rfl⟩ := Option.map_eq_some_iff.mp hs
      exact h.leave c.device l

end Linked

theorem linked_start : Linked World.start.kernel World.start.slot World.start.files := by
  refine ⟨?_,fun _ => rfl,?_,?_,?_,?_⟩
  · intro r hr
    cases hr
  · intro i r hr
    cases hr
  · intro i j r hi
    cases hi
  · intro file hmem
    cases hmem
  · intro file hmem
    cases hmem

/-- The record that the next statement of a running `nr_open` writes, or names
when it returns zero. -/
def commits (file : File) : Option ℕ :=
  match file.pc with
  | .reset dev _ => some dev
  | .exit => file.privateData
  | _ => none

/-- No statement of `nr_open` writes a released record or returns zero with one. -/
def OpenSafe (w : World) : Move → Prop
  | .openStep f => ∀ file ∈ w.files[f]?, ∀ r ∈ commits file, ¬ w.Released r
  | _ => True

instance (w : World) (m : Move) : Decidable (OpenSafe w m) :=
  match m with
  | .openStep _ => inferInstanceAs (Decidable (∀ file ∈ _, ∀ r ∈ _, ¬ _))
  | .probe .. | .probeStep _ | .disconnect _ | .beginOpen _ | .close _ | .beginRead ..
  | .beginWrite .. | .device .. => isTrue trivial

/-- On runs where no record is freed between an open's reading of its pointer
and the open's return, no open meets a released record. -/
theorem opens_never_meet_released_record (host : Host) {ms : List Move}
    (hfree : Along (move host) FreesUnread .start ms) : Along (move host) OpenSafe .start ms := by
  refine along_invariant (I := fun w => Linked w.kernel w.slot w.files)
    (fun w m w' hI hP hs => hI.step hP hs) ?_ linked_start hfree
  intro w m hI _
  cases m with
  | openStep f =>
      intro file hf r hr
      refine (hI.opens file (List.mem_of_getElem? hf) r ?_).2
      unfold commits at hr
      unfold File.reads
      cases hpc : file.pc <;> simp_all
  | _ => trivial

/-- One device is plugged and opened; a second open has found the interface when
the disconnect frees the record, and reads the data pointer after that. -/
def openBesideUnplug : List Move :=
  [.probe 0 [canIn,canOut],.probeStep 0,.probeStep 0,.beginOpen 0,.openStep 0,.openStep 0,
    .openStep 0,.openStep 0,.openStep 0,.openStep 0,.openStep 0,.beginOpen 0,.openStep 1,
    .disconnect 0,.disconnect 0,.disconnect 0,.disconnect 0,.openStep 1,.disconnect 0,
    .disconnect 0]

theorem open_beside_unplug_safe :
    ∃ w ∈ run (move (canHost fun _ => 0)) .start openBesideUnplug, w.Released 0 ∧
      w.files = [⟨0,some 0,.opened,[]⟩,⟨0,none,.failed,[]⟩] ∧
      Along (move (canHost fun _ => 0)) OpenSafe .start openBesideUnplug := by
  obtain ⟨w,hw,hreleased,hfiles⟩ : ∃ w ∈ run (move (canHost fun _ => 0)) .start openBesideUnplug,
    w.Released 0 ∧ w.files = [⟨0,some 0,.opened,[]⟩,⟨0,none,.failed,[]⟩] := by decide
  exact ⟨w,hw,hreleased,hfiles,opens_never_meet_released_record _ (by decide)⟩

/-- The disconnect frees the record after the open has read the data pointer,
and gives the minor back after the open has returned. -/
def openDuringUnplug : List Move :=
  [.probe 0 [canIn,canOut],.probeStep 0,.probeStep 0,.beginOpen 0,.openStep 0,.openStep 0,
    .disconnect 0,.disconnect 0,.disconnect 0,.disconnect 0,.openStep 0,.openStep 0,.openStep 0,
    .openStep 0,.openStep 0,.disconnect 0,.disconnect 0]

/-- The open writes the three fields of a released record and returns zero with
it, although the core keeps it apart from `usb_deregister_dev`. -/
theorem open_during_unplug_unsafe :
    Along (move (canHost fun _ => 0)) OpenExclusion .start openDuringUnplug ∧
      ¬ Along (move (canHost fun _ => 0)) OpenSafe .start openDuringUnplug ∧
      ∃ w ∈ run (move (canHost fun _ => 0)) .start openDuringUnplug,
        w.files = [⟨0,some 0,.opened,[]⟩] ∧ w.Released 0 := by
  decide

end NrDriver.OpenRace
