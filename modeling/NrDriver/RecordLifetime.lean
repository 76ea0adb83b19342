import NrDriver.OpenRace

/-!
# Files that outlive their record

A file keeps the pointer to its record in `private_data` from its open to its
release, and every call on it goes through that pointer. `nr_disconnect` frees
the record whether or not files are open on it. On runs where `free_usb_nr` is
called on a record no open file refers to, every running call belongs to an open
file, every open file refers to a record that was not released (`Used`), and so
no file operation touches a released one.
-/
namespace NrDriver.RecordLifetime
open KernelModel TransferSteps ProbeModel ProbeOutcome DeviceWorld OpenRace Ledger LabelledRuns

theorem readStep_filp {dev dev' : UsbNr} {c c' : ReadCall} {k : ℕ}
    (h : readStep dev c k = some (dev',c')) : c'.filp = c.filp := by
  unfold readStep at h
  split at h
  all_goals try split_ifs at h
  all_goals try cases h
  all_goals rfl

theorem readSignal_filp {dev : UsbNr} {c c' : ReadCall} (h : readSignal dev c = some c') :
    c'.filp = c.filp := by
  unfold readSignal at h
  split at h
  all_goals try split_ifs at h
  all_goals try cases h
  all_goals rfl

theorem writeStep_filp {dev dev' : UsbNr} {c c' : WriteCall} {k : ℕ}
    (h : writeStep dev c k = some (dev',c')) : c'.filp = c.filp := by
  unfold writeStep at h
  split at h
  all_goals try split_ifs at h
  all_goals try cases h
  all_goals rfl

theorem writeSignal_filp {dev : UsbNr} {c c' : WriteCall} (h : writeSignal dev c = some c') :
    c'.filp = c.filp := by
  unfold writeSignal at h
  split at h
  all_goals try split_ifs at h
  all_goals try cases h
  all_goals rfl

theorem ReadCall.wake_filp (c : ReadCall) : c.wake.filp = c.filp := by
  unfold ReadCall.wake
  split_ifs <;> rfl

theorem WriteCall.wake_filp (c : WriteCall) : c.wake.filp = c.filp := by
  unfold WriteCall.wake
  split_ifs <;> rfl

theorem jobFile_wakeReader {j : Job} {g : ℕ} {b : Bool} (h : jobFile (wakeReader j) = some (g,b)) :
    ∃ b', jobFile j = some (g,b') := by
  cases j with
  | reading c =>
      simp only [wakeReader,jobFile,ReadCall.wake_filp,Option.some.injEq,Prod.mk.injEq] at h
      exact ⟨decide (c.pc = .exit),by rw [jobFile,h.1]⟩
  | idle | writing c => exact ⟨b,h⟩

theorem jobFile_wakeWriter {j : Job} {g : ℕ} {b : Bool} (h : jobFile (wakeWriter j) = some (g,b)) :
    ∃ b', jobFile j = some (g,b') := by
  cases j with
  | writing c =>
      simp only [wakeWriter,jobFile,WriteCall.wake_filp,Option.some.injEq,Prod.mk.injEq] at h
      exact ⟨decide (c.pc = .exit),by rw [jobFile,h.1]⟩
  | idle | reading c => exact ⟨b,h⟩

theorem jobFile_update {job : ℕ → Job} {t f : ℕ} {j : Job} {e : Bool}
    (hj : jobFile (job t) = some (f,e)) (hnew : ∀ g b, jobFile j = some (g,b) → g = f ∧ e = false)
    {u g : ℕ} {b : Bool} (h : jobFile (Function.update job t j u) = some (g,b)) :
    ∃ b', jobFile (job u) = some (g,b') ∧ (u = t → b' = false) := by
  by_cases hut : u = t
  · subst hut
    rw [Function.update_self] at h
    obtain ⟨rfl,he⟩ := hnew g b h
    exact ⟨e,hj,fun _ => he⟩
  · rw [Function.update_of_ne hut] at h
    exact ⟨b,h,fun hu => (hut hu).elim⟩

theorem jobFile_run {d d' : Device} {t k : ℕ} (hs : TransferSteps.step d (.run t k) = some d')
    {u g : ℕ} {b : Bool} (h : jobFile (d'.job u) = some (g,b)) :
    ∃ b', jobFile (d.job u) = some (g,b') ∧ (u = t → b' = false) := by
  cases hj : d.job t with
  | idle => simp [TransferSteps.step,hj] at hs
  | reading c =>
      have hfile : jobFile (d.job t) = some (c.filp,decide (c.pc = .exit)) := by rw [hj,jobFile]
      simp only [TransferSteps.step,hj,runRead] at hs
      split_ifs at hs with hpc
      · cases hs
        exact jobFile_update hfile (fun _ _ hn => by cases hn) h
      · obtain ⟨r,hr,rfl⟩ := Option.map_eq_some_iff.mp hs
        refine jobFile_update hfile (fun g b hn => ⟨?_,by simp [hpc]⟩) h
        cases hn
        exact readStep_filp hr
  | writing c =>
      have hfile : jobFile (d.job t) = some (c.filp,decide (c.pc = .exit)) := by rw [hj,jobFile]
      simp only [TransferSteps.step,hj,runWrite] at hs
      split_ifs at hs with hpc
      · cases hs
        exact jobFile_update hfile (fun _ _ hn => by cases hn) h
      · obtain ⟨r,hr,rfl⟩ := Option.map_eq_some_iff.mp hs
        refine jobFile_update hfile (fun g b hn => ⟨?_,by simp [hpc]⟩) h
        cases hn
        exact writeStep_filp hr

theorem jobFile_signal {d d' : Device} {t : ℕ} (hs : TransferSteps.step d (.signal t) = some d')
    {u g : ℕ} {b : Bool} (h : jobFile (d'.job u) = some (g,b)) :
    ∃ b', jobFile (d.job u) = some (g,b') := by
  have same {j : Job} {f : ℕ} {e : Bool} (hj : jobFile (d.job t) = some (f,e))
      (hnew : ∀ g b, jobFile j = some (g,b) → g = f)
      (hu : jobFile (Function.update d.job t j u) = some (g,b)) :
      ∃ b', jobFile (d.job u) = some (g,b') := by
    by_cases hut : u = t
    · subst hut
      rw [Function.update_self] at hu
      rw [hnew g b hu]
      exact ⟨e,hj⟩
    · rw [Function.update_of_ne hut] at hu
      exact ⟨b,hu⟩
  cases hj : d.job t with
  | idle => simp [TransferSteps.step,hj] at hs
  | reading c =>
      simp only [TransferSteps.step,hj,Option.map_eq_some_iff] at hs
      obtain ⟨c',hc,rfl⟩ := hs
      refine same (by rw [hj,jobFile]) (fun g b hn => ?_) h
      cases hn
      exact readSignal_filp hc
  | writing c =>
      simp only [TransferSteps.step,hj,Option.map_eq_some_iff] at hs
      obtain ⟨c',hc,rfl⟩ := hs
      refine same (by rw [hj,jobFile]) (fun g b hn => ?_) h
      cases hn
      exact writeSignal_filp hc

/-- A call is on the file it began on, and a call that returned is gone. -/
theorem jobFile_step {d d' : Device} {l : Label} (hl : internal l = true)
    (hs : TransferSteps.step d l = some d') {u g : ℕ} {b : Bool}
    (h : jobFile (d'.job u) = some (g,b)) :
    ∃ b', jobFile (d.job u) = some (g,b') ∧ ∀ k, l = .run u k → b' = false := by
  cases l with
  | beginRead t f count ppos => cases hl
  | beginWrite t f payload => cases hl
  | openWrite w => cases hl
  | run t k =>
      obtain ⟨b',hb,hend⟩ := jobFile_run hs h
      refine ⟨b',hb,fun k' hk => hend ?_⟩
      cases hk
      rfl
  | signal t =>
      obtain ⟨b',hb⟩ := jobFile_signal hs h
      exact ⟨b',hb,fun k hk => by cases hk⟩
  | inCompletes status packet =>
      simp only [TransferSteps.step,inCompletes] at hs
      split at hs
      · cases hs
      · split_ifs at hs
        cases hs
        obtain ⟨b',hb⟩ := jobFile_wakeReader h
        exact ⟨b',hb,fun k hk => by cases hk⟩
  | outTakes =>
      simp only [TransferSteps.step,outTakes] at hs
      split at hs
      · cases hs
      · cases hs
        exact ⟨b,h,fun k hk => by cases hk⟩
  | outCompletes status n =>
      simp only [TransferSteps.step,outCompletes] at hs
      split at hs
      · cases hs
      · split_ifs at hs
        cases hs
        obtain ⟨b',hb⟩ := jobFile_wakeWriter h
        exact ⟨b',hb,fun k hk => by cases hk⟩

theorem jobFile_begin {d d' : Device} {t f : ℕ} {l : Label}
    (hl : (∃ count ppos, l = .beginRead t f count ppos) ∨ ∃ payload, l = .beginWrite t f payload)
    (hs : TransferSteps.step d l = some d') {u g : ℕ} {b : Bool}
    (h : jobFile (d'.job u) = some (g,b)) :
    (u = t ∧ g = f) ∨ ∃ b', jobFile (d.job u) = some (g,b') := by
  have other {j : Job} (hnew : ∀ g b, jobFile j = some (g,b) → g = f)
      (hu : jobFile (Function.update d.job t j u) = some (g,b)) :
      (u = t ∧ g = f) ∨ ∃ b', jobFile (d.job u) = some (g,b') := by
    by_cases hut : u = t
    · subst hut
      rw [Function.update_self] at hu
      exact .inl ⟨rfl,hnew g b hu⟩
    · rw [Function.update_of_ne hut] at hu
      exact .inr ⟨b,hu⟩
  rcases hl with ⟨count,ppos,rfl⟩ | ⟨payload,rfl⟩
  all_goals
    simp only [TransferSteps.step] at hs
    split at hs
    · cases hs
      refine other (fun g b hn => ?_) h
      cases hn
      rfl
    · cases hs

/-- A running call of thread `u` on record `r` is one of the calls of an open
file that refers to the record. -/
def Calls (files : List File) (g r u : ℕ) : Prop :=
  ∃ file, files[g]? = some file ∧ file.names = some r ∧ u ∈ file.threads

theorem Calls.at {files : List File} {f r u : ℕ} {file : File} (h : Calls files f r u)
    (hf : files[f]? = some file) : file.names = some r ∧ u ∈ file.threads := by
  obtain ⟨file',hf',hcall⟩ := h
  have hsame : file = file' := Option.some.inj (hf.symm.trans hf')
  rw [hsame]
  exact hcall

theorem Calls.set {files : List File} {f g r u : ℕ} {file' : File} (h : Calls files g r u)
    (hg : g = f → file'.names = some r ∧ u ∈ file'.threads) :
    Calls (files.set f file') g r u := by
  obtain ⟨file,hfile,hnames,hu⟩ := h
  by_cases hgf : f = g
  · subst hgf
    have hlt := (List.getElem?_eq_some_iff.mp hfile).1
    exact ⟨file',by simp [hlt],hg rfl⟩
  · exact ⟨file,by rw [List.getElem?_set_ne hgf,hfile],hnames,hu⟩

theorem Calls.append {files : List File} {g r u : ℕ} (h : Calls files g r u) (file' : File) :
    Calls (files ++ [file']) g r u := by
  obtain ⟨file,hfile,hrest⟩ := h
  refine ⟨file,?_,hrest⟩
  rw [List.getElem?_append_left (List.getElem?_eq_some_iff.mp hfile).1,hfile]

theorem Calls.leave {files : List File} {g r u : ℕ} (h : Calls files g r u) {d : Device}
    {l : Label} (hstay : ∀ k, l = .run u k → jobFile (d.job u) ≠ some (g,true)) :
    Calls (leave d l files) g r u := by
  unfold DeviceWorld.leave
  split
  · rename_i t k
    split
    · rename_i f hend
      split
      · rename_i file hfile
        apply h.set
        intro hg
        subst hg
        obtain ⟨hnames,hu⟩ := h.at hfile
        have hut : u ≠ t := by
          intro hut
          subst hut
          exact hstay k rfl hend
        exact ⟨hnames,List.mem_filter.mpr ⟨hu,decide_eq_true hut⟩⟩
      · exact h
    · exact h
  · exact h

/-- Open files refer to records that were not released, and calls run on open
files. -/
structure Used (k : Kernel) (cells : ℕ → Option Cell) (files : List File) : Prop where
  opened : ∀ file ∈ files, ∀ r, file.names = some r → Live k r
  calls : ∀ r c u g b, cells r = some c → jobFile (c.device.job u) = some (g,b) →
    Calls files g r u

/-- `free_usb_nr` of a record that was published runs only while no open file
and no running `nr_open` refers to it. -/
def FreesUnused (w : World) (m : Move) : Prop :=
  ∀ r ∈ w.frees m, ∀ file ∈ w.files, file.reads ≠ some r ∧ file.names ≠ some r

instance (w : World) (m : Move) : Decidable (FreesUnused w m) :=
  inferInstanceAs (Decidable (∀ r ∈ _, ∀ file ∈ _, _))

/-- No statement of `nr_open`, `nr_read` or `nr_write` reads or writes a released
record. -/
def TouchesLive (w : World) (m : Move) : Prop := ∀ r ∈ w.touches m, ¬ w.Released r

instance (w : World) (m : Move) : Decidable (TouchesLive w m) :=
  inferInstanceAs (Decidable (∀ r ∈ _, ¬ _))

namespace Used
variable {host : Host} {w w' : World} {k : Kernel} {cells : ℕ → Option Cell} {files : List File}

theorem quiet (h : Used k cells files) {k' : Kernel} (hk : Quiet k k') : Used k' cells files :=
  ⟨fun file hmem r hn => (h.opened file hmem r hn).quiet hk,h.calls⟩

theorem freed (h : Used k cells files) (dev : Draft)
    (hfiles : ∀ file ∈ files, file.names ≠ some dev.record) :
    Used (freeUsbNr dev k) cells files := by
  refine ⟨fun file hmem r hn => live_freeUsbNr (h.opened file hmem r hn) ?_,h.calls⟩
  intro hr
  subst hr
  exact hfiles file hmem hn

theorem cell (h : Used k cells files) {r : ℕ} {c : Cell}
    (hc : ∀ u g b, jobFile (c.device.job u) = some (g,b) → Calls files g r u) :
    Used k (Function.update cells r (some c)) files := by
  refine ⟨h.opened,fun q d u g b hd hj => ?_⟩
  rcases update_some_cases hd with ⟨rfl,he⟩ | ⟨_,hold⟩
  · cases he
    exact hc u g b hj
  · exact h.calls q d u g b hold hj

/-- A running `nr_open` goes on, or the file is no longer used. -/
theorem file (h : Used k cells files) {f : ℕ} {file file' : File}
    (hf : files[f]? = some file) (hidle : file.names = none ∨ file.threads = [])
    (hnew : ∀ r, file'.names = some r → Live k r) : Used k cells (files.set f file') := by
  have hopened (x : File) (hx : x ∈ files.set f file') (r : ℕ) (hr : x.names = some r) :
      Live k r := by
    rcases List.mem_or_eq_of_mem_set hx with hx | rfl
    · exact h.opened x hx r hr
    · exact hnew r hr
  refine ⟨hopened,fun r c u g b hc hj => ?_⟩
  have hcall := h.calls r c u g b hc hj
  apply hcall.set
  intro hg
  subst hg
  obtain ⟨hnames,hu⟩ := hcall.at hf
  rcases hidle with hn | hn
  · simp [hn] at hnames
  · simp [hn] at hu

theorem probe (h : Used w.kernel w.record w.files) {i : ℕ} {endpoints : List EndpointDescriptor}
    (hs : w.probe host i endpoints = some w') : Used w'.kernel w'.record w'.files := by
  obtain ⟨_,hout⟩ := World.probe_cases hs
  rcases hout with rfl | ⟨dev,k,hdev,hlt,hk,rfl | ⟨nr,_,rfl⟩⟩
  · exact h.quiet (.refuse _)
  · exact ⟨fun file hmem r hn => live_unbuilt (h.opened file hmem r hn) hk hdev,h.calls⟩
  · refine (h.quiet hk).cell fun u g b hj => ?_
    cases hj

theorem probeStep (h : Used w.kernel w.record w.files) {i : ℕ}
    (hP : FreesUnused w (.probeStep i)) (hs : w.probeStep host i = some w') :
    Used w'.kernel w'.record w'.files := by
  unfold World.probeStep at hs
  cases hphase : (w.slot i).phase <;> simp only [hphase,reduceCtorEq,Option.some.injEq] at hs
  case publish | retract =>
      subst hs
      exact h
  case register dev =>
      subst hs
      exact h.quiet (quiet_register host _ _)
  case freeFailed dev =>
      subst hs
      have hfrees : dev.record ∈ w.frees (.probeStep i) := by simp [World.frees,hphase]
      exact h.freed dev fun file hmem => (hP dev.record hfrees file hmem).2

theorem disconnect (h : Used w.kernel w.record w.files) {i : ℕ}
    (hP : FreesUnused w (.disconnect i)) (hs : w.disconnect i = some w') :
    Used w'.kernel w'.record w'.files := by
  unfold World.disconnect at hs
  cases hphase : (w.slot i).phase <;> simp only [hphase,reduceCtorEq,Option.some.injEq] at hs
  case bound =>
      split_ifs at hs
      cases hs
      exact h
  case readData | clearData | unlock =>
      subst hs
      exact h
  case freeData dev =>
      cases dev with
      | none =>
          cases hs
          exact h
      | some dev =>
          cases hs
          have hfrees : dev.record ∈ w.frees (.disconnect i) := by simp [World.frees,hphase]
          exact h.freed dev fun file hmem => (hP dev.record hfrees file hmem).2
  case deregister =>
      subst hs
      exact h.quiet (.free (by simp) _)

theorem openStep (h : Used w.kernel w.record w.files) (hL : Linked w.kernel w.slot w.files) {f : ℕ}
    (hs : w.openStep f = some w') : Used w'.kernel w'.record w'.files := by
  unfold World.openStep at hs
  cases hf : w.files[f]? with
  | none => simp [hf] at hs
  | some file =>
      simp only [hf] at hs
      cases hpc : file.pc <;> simp only [hpc,reduceCtorEq,Option.some.injEq] at hs
      case find =>
          subst hs
          refine h.file hf (.inl (by simp [File.names,hpc])) fun r hr => ?_
          split_ifs at hr <;> simp [File.names] at hr
      case getData =>
          subst hs
          refine h.file hf (.inl (by simp [File.names,hpc])) fun r hr => ?_
          cases hd : (w.slot file.node).handle.data <;> simp [File.names,hd] at hr
      case store dev =>
          subst hs
          exact h.file hf (.inl (by simp [File.names,hpc])) (by simp [File.names])
      case reset dev v =>
          obtain ⟨c,hc,rfl⟩ := Option.map_eq_some_iff.mp hs
          have hcell : Used w.kernel (Function.update w.record dev (some { c with
              device := { c.device with nr := c.device.nr.openWrite v } })) w.files :=
            h.cell fun u g b hj => h.calls dev c u g b hc hj
          refine hcell.file hf (.inl (by simp [File.names,hpc])) ?_
          cases v <;> simp [File.names,afterReset]
      case exit =>
          subst hs
          refine h.file hf (.inl (by simp [File.names,hpc])) fun r hr => ?_
          exact hL.opens file (List.mem_of_getElem? hf) r
            (by simpa [File.reads,File.names,hpc] using hr)

theorem beginCall (h : Used w.kernel w.record w.files) {f t : ℕ} {l : Label}
    (hl : (∃ count ppos, l = .beginRead t f count ppos) ∨ ∃ payload, l = .beginWrite t f payload)
    (hs : w.beginCall f t l = some w') : Used w'.kernel w'.record w'.files := by
  unfold World.beginCall at hs
  cases hf : w.files[f]? with
  | none => simp [hf] at hs
  | some file =>
      simp only [hf] at hs
      split at hs
      case h_2 => cases hs
      rename_i r hpc hdata
      obtain ⟨c,hc,hs⟩ := Option.bind_eq_some_iff.mp hs
      obtain ⟨d,hd,rfl⟩ := Option.map_eq_some_iff.mp hs
      have hnames : file.names = some r := by simp [File.names,hpc,hdata]
      have more {g q u : ℕ} (hcall : Calls w.files g q u) :
          Calls (w.files.set f { file with threads := t :: file.threads }) g q u := by
        apply hcall.set
        intro hg
        subst hg
        obtain ⟨hn,hu⟩ := hcall.at hf
        exact ⟨hn,List.mem_cons_of_mem _ hu⟩
      have hopened (x : File) (hx : x ∈ w.files.set f { file with threads := t :: file.threads }) :
          ∀ r, x.names = some r → Live w.kernel r := by
        rcases List.mem_or_eq_of_mem_set hx with hx | rfl
        · exact h.opened x hx
        · exact h.opened file (List.mem_of_getElem? hf)
      refine Used.cell ⟨hopened,fun q c u g b hc hj => more (h.calls q c u g b hc hj)⟩ ?_
      intro u g b hj
      rcases jobFile_begin hl hd hj with ⟨rfl,rfl⟩ | ⟨b',hb⟩
      · have hlt := (List.getElem?_eq_some_iff.mp hf).1
        exact ⟨{ file with threads := u :: file.threads },by simp [hlt],hnames,
          List.mem_cons_self ..⟩
      · exact more (h.calls r c u g b' hc hb)

theorem deviceStep (h : Used w.kernel w.record w.files) {r : ℕ} {l : Label}
    (hs : w.deviceStep r l = some w') : Used w'.kernel w'.record w'.files := by
  unfold World.deviceStep at hs
  split_ifs at hs with hl
  obtain ⟨c,hc,hs⟩ := Option.bind_eq_some_iff.mp hs
  obtain ⟨d,hd,rfl⟩ := Option.map_eq_some_iff.mp hs
  -- a call on another record is on another file
  have apart {q u g : ℕ} (hq : q ≠ r) (hcall : Calls w.files g q u) (k : ℕ) (_ : l = .run u k) :
      jobFile (c.device.job u) ≠ some (g,true) := by
    intro hj
    obtain ⟨file,hf,hn,_⟩ := hcall
    have hn' := ((h.calls r c u g true hc hj).at hf).1
    exact hq (Option.some.inj (hn.symm.trans hn'))
  refine ⟨fun x hx q hn => ?_,fun q e u g b he hj => ?_⟩
  · unfold leave at hx
    split at hx
    · split at hx
      · split at hx
        · rename_i file hf
          rcases List.mem_or_eq_of_mem_set hx with hx | rfl
          · exact h.opened x hx q hn
          · exact h.opened file (List.mem_of_getElem? hf) q hn
        · exact h.opened x hx q hn
      · exact h.opened x hx q hn
    · exact h.opened x hx q hn
  · have he' : Function.update w.record r (some { c with device := d }) q = some e := he
    rcases update_some_cases he' with ⟨rfl,hnew⟩ | ⟨hq,hold⟩
    · cases hnew
      obtain ⟨b',hb,hend⟩ := jobFile_step hl hd hj
      refine (h.calls q c u g b' hc hb).leave fun k hk hj' => ?_
      rw [hb,hend k hk] at hj'
      cases hj'
    · have hcall := h.calls q e u g b hold hj
      exact hcall.leave (apart hq hcall)

theorem step {m : Move} (h : Used w.kernel w.record w.files)
    (hL : Linked w.kernel w.slot w.files) (hP : FreesUnused w m) (hs : move host w m = some w') :
    Used w'.kernel w'.record w'.files := by
  cases m with
  | probe i endpoints => exact h.probe hs
  | probeStep i => exact h.probeStep hP hs
  | disconnect i => exact h.disconnect hP hs
  | beginOpen i =>
      cases hs
      refine ⟨fun x hx => ?_,fun r c u g b hc hj => (h.calls r c u g b hc hj).append _⟩
      rcases List.mem_append.mp hx with hx | hx
      · exact h.opened x hx
      · cases List.mem_singleton.mp hx
        simp [File.names]
  | openStep f => exact h.openStep hL hs
  | close f =>
      simp only [move,World.close] at hs
      split at hs
      · cases hs
      · rename_i file hf
        split_ifs at hs with hc
        cases hs
        exact h.file hf (.inr hc.2) (by simp [File.names])
  | beginRead f t count ppos => exact h.beginCall (.inl ⟨count,ppos,rfl⟩) hs
  | beginWrite f t payload => exact h.beginCall (.inr ⟨payload,rfl⟩) hs
  | device r l => exact h.deviceStep hs

theorem touches (h : Used w.kernel w.record w.files) (hL : Linked w.kernel w.slot w.files)
    (m : Move) : TouchesLive w m := by
  have call {r t f : ℕ} (hj : (w.record r).bind (fun c => jobFile (c.device.job t)) =
      some (f,false)) : ¬ w.Released r := by
    obtain ⟨c,hc,hj⟩ := Option.bind_eq_some_iff.mp hj
    obtain ⟨file,hf,hn,_⟩ := h.calls r c t f false hc hj
    exact (h.opened file (List.mem_of_getElem? hf) r hn).2
  intro r hr
  simp only [World.touches] at hr
  split at hr
  · split at hr
    · rename_i hf
      cases hr
      exact (hL.opens _ (List.mem_of_getElem? hf) r rfl).2
    · cases hr
  · split at hr
    · rename_i f hj
      cases hr
      exact call hj
    · cases hr
  · split at hr
    · rename_i f hj
      cases hr
      exact call hj
    · cases hr
  · cases hr

end Used

/-- On runs where a record is freed only when no file refers to it, no file
operation touches a released record. -/
theorem file_operations_touch_live_records (host : Host) {ms : List Move}
    (hfree : Along (move host) FreesUnused .start ms) :
    Along (move host) TouchesLive .start ms := by
  refine along_invariant
    (I := fun w => Linked w.kernel w.slot w.files ∧ Used w.kernel w.record w.files)
    (fun w m w' hI hP hs => ?_) (fun w m hI _ => hI.2.touches hI.1 m) ⟨linked_start,?_⟩ hfree
  · exact ⟨hI.1.step (fun r hr file hmem => (hP r hr file hmem).1) hs,hI.2.step hI.1 hP hs⟩
  · refine ⟨fun file hmem => ?_,fun r c u g b hc => ?_⟩
    · cases hmem
    · cases hc

/-- Two devices are plugged, and file 0 is opened on the first, file 1 on the second. -/
def plugTwo : List Move :=
  [.probe 0 [canIn,canOut],.probeStep 0,.probeStep 0,.probe 1 [canIn,canOut],.probeStep 1,
    .probeStep 1,.beginOpen 0,.beginOpen 1] ++
      (List.replicate 7 [Move.openStep 0,Move.openStep 1]).flatten

/-- A reader sleeps on the first device while the second is closed and unplugged,
and then gets its packet. -/
def unplugBesideReader : List Move :=
  plugTwo ++ .beginRead 0 3 64 0 :: List.replicate 7 (.device 0 (.run 3 0)) ++
    .close 1 :: List.replicate 6 (.disconnect 1) ++
      .device 0 (.inCompletes 0 [5,6]) :: List.replicate 7 (.device 0 (.run 3 0))

theorem unplug_beside_reader_live :
    ∃ w ∈ run (move (canHost fun _ => 0)) .start unplugBesideReader, w.Released 7 ∧
      (∃ c ∈ w.record 0, .copied 0 1 [5,6] ∈ c.device.readLog) ∧
      Along (move (canHost fun _ => 0)) TouchesLive .start unplugBesideReader := by
  obtain ⟨w,hw,hreleased,hcopied⟩ :
      ∃ w ∈ run (move (canHost fun _ => 0)) .start unplugBesideReader, w.Released 7 ∧
        ∃ c ∈ w.record 0, .copied 0 1 [5,6] ∈ c.device.readLog := by decide
  exact ⟨w,hw,hreleased,hcopied,file_operations_touch_live_records _ (by decide)⟩

/-- One device is plugged and opened by file 0. -/
def plugAndOpen : List Move :=
  [.probe 0 [canIn,canOut],.probeStep 0,.probeStep 0,.beginOpen 0,.openStep 0,.openStep 0,
    .openStep 0,.openStep 0,.openStep 0,.openStep 0,.openStep 0]

/-- A reader sleeps when the device is unplugged: its URB is killed, the
disconnect frees the record, and the reader wakes up. -/
def unplugUnderReader : List Move :=
  plugAndOpen ++ [.beginRead 0 3 64 0,.device 0 (.run 3 0),.device 0 (.run 3 0),
    .device 0 (.run 3 0),.device 0 (.run 3 0),.device 0 (.run 3 0),.device 0 (.run 3 0),
    .device 0 (.run 3 0),.device 0 (.inCompletes (-ESHUTDOWN) []),.disconnect 0,.disconnect 0,
    .disconnect 0,.disconnect 0,.disconnect 0,.disconnect 0,.device 0 (.run 3 0)]

/-- The woken reader tests the flag of a released record, although the core keeps
its rules. -/
theorem unplug_under_reader_touches_released :
    Along (move (canHost fun _ => 0)) CoreRules .start unplugUnderReader ∧
      Along (move (canHost fun _ => 0)) OpenExclusion .start unplugUnderReader ∧
      ¬ Along (move (canHost fun _ => 0)) TouchesLive .start unplugUnderReader ∧
      (run (move (canHost fun _ => 0)) .start unplugUnderReader).isSome = true := by
  decide

end NrDriver.RecordLifetime
