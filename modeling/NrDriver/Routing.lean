import NrDriver.RecordLifetime

/-!
# Devices beside each other

Any number of interfaces, records, files and threads at once. A move is a label of
one record at most (`follows_move`), so that the device of a record goes through a
run of the transfer machine (`record_runs`), and the calls that appear in it were made
on files that its interface's node was opened for (`calls_routed`): nothing written
to or read from one device passes through another. Records are told apart by the
number of their allocation, also after they were freed.
-/
namespace NrDriver.Routing
open KernelModel TransferSteps ProbeModel ProbeOutcome DeviceWorld OpenRace RecordLifetime
open LabelledRuns

/-- The labels of the record `r` that a move makes. -/
def ownLabels (w : World) (r : ℕ) : Move → List Label
  | .openStep f =>
      match w.files[f]? with
      | some ⟨_,_,.reset dev v,_⟩ => if dev = r then [.openWrite v] else []
      | _ => []
  | .beginRead f t count ppos =>
      if w.files[f]?.bind File.names = some r then [.beginRead t f count ppos] else []
  | .beginWrite f t payload =>
      if w.files[f]?.bind File.names = some r then [.beginWrite t f payload] else []
  | .device q l => if q = r then [l] else []
  | .probe .. | .probeStep _ | .disconnect _ | .beginOpen _ | .close _ => []

theorem ownLabels_cases (w : World) (r : ℕ) (m : Move) :
    ownLabels w r m = [] ∨ ∃ l, ownLabels w r m = [l] := by
  unfold ownLabels
  split
  · split
    · split_ifs
      · exact .inr ⟨_,rfl⟩
      · exact .inl rfl
    · exact .inl rfl
  · split_ifs
    · exact .inr ⟨_,rfl⟩
    · exact .inl rfl
  · split_ifs
    · exact .inr ⟨_,rfl⟩
    · exact .inl rfl
  · split_ifs
    · exact .inr ⟨_,rfl⟩
    · exact .inl rfl
  all_goals exact .inl rfl

/-- The labels of the record in a run. -/
def ownRun (host : Host) (r : ℕ) (w : World) (ms : List Move) : List Label :=
  recorded (move host) (fun ls w m => ls ++ ownLabels w r m) [] w ms

/-- The record `r` was handed out before, and its device is now `d`. -/
def Follows (w : World) (r : ℕ) (c : Cell) (d : Device) : Prop :=
  r < w.kernel.requests ∧ w.record r = some { c with device := d }

section Isolation
variable {host : Host} {w w' : World} {r : ℕ} {c : Cell} {d : Device}

theorem follows_same (h : Follows w r c d) (hk : w.kernel.requests ≤ w'.kernel.requests)
    (hr : w'.record r = w.record r) :
    ∃ d', run TransferSteps.step d [] = some d' ∧ Follows w' r c d' :=
  ⟨d,rfl,Nat.lt_of_lt_of_le h.1 hk,hr.trans h.2⟩

theorem follows_label (h : Follows w r c d) {q : ℕ} {e : Cell} {e' : Device} {l : Label}
    (hq : w.record q = some e) (hs : TransferSteps.step e.device l = some e')
    (hk : w.kernel.requests ≤ w'.kernel.requests)
    (hr : w'.record = Function.update w.record q (some { e with device := e' })) :
    ∃ d', run TransferSteps.step d (if q = r then [l] else []) = some d' ∧ Follows w' r c d' := by
  by_cases hqr : q = r
  · subst hqr
    rw [h.2] at hq
    cases hq
    rw [if_pos rfl]
    refine ⟨e',by rw [run_cons_some hs,run_nil],Nat.lt_of_lt_of_le h.1 hk,?_⟩
    rw [hr,Function.update_self]
  · rw [if_neg hqr]
    exact follows_same h hk (by rw [hr,Function.update_of_ne (Ne.symm hqr)])

/-- The moves of the interfaces, and a close, leave the records that there are. -/
def aside : Move → Bool
  | .probe .. | .probeStep _ | .disconnect _ | .beginOpen _ | .close _ => true
  | _ => false

theorem aside_record {m : Move} (hm : aside m = true) (hs : move host w m = some w') :
    w.kernel.requests ≤ w'.kernel.requests ∧
      ∀ r, r < w.kernel.requests → w'.record r = w.record r := by
  cases m with
  | probe i endpoints =>
      obtain ⟨_,hout⟩ := World.probe_cases hs
      rcases hout with rfl | ⟨dev,k,hdev,hlt,_,rfl | ⟨nr,_,rfl⟩⟩
      · exact ⟨Nat.le_succ _,fun _ _ => rfl⟩
      · refine ⟨?_,fun _ _ => rfl⟩
        have hreq := (freeUsbNr_log dev k (.record,0)).1
        simp only [hreq]
        exact Nat.le_of_lt hlt
      · refine ⟨Nat.le_of_lt hlt,fun r hr => Function.update_of_ne ?_ ..⟩
        rw [hdev]
        exact Nat.ne_of_lt hr
  | probeStep i =>
      simp only [move,World.probeStep] at hs
      split at hs
      all_goals cases hs
      · exact ⟨Nat.le_refl _,fun _ _ => rfl⟩
      · exact ⟨(quiet_register host _ _).later,fun _ _ => rfl⟩
      · exact ⟨Nat.le_refl _,fun _ _ => rfl⟩
      · rename_i dev _
        exact ⟨Nat.le_of_eq (freeUsbNr_log dev w.kernel (.record,0)).1.symm,fun _ _ => rfl⟩
  | disconnect i =>
      simp only [move,World.disconnect] at hs
      split at hs
      all_goals try split_ifs at hs
      all_goals cases hs
      all_goals try exact ⟨Nat.le_refl _,fun _ _ => rfl⟩
      · rename_i dev _
        exact ⟨Nat.le_of_eq (freeUsbNr_log dev w.kernel (.record,0)).1.symm,fun _ _ => rfl⟩
      · exact ⟨(Quiet.free (by simp) _).later,fun _ _ => rfl⟩
  | beginOpen i =>
      cases hs
      exact ⟨Nat.le_refl _,fun _ _ => rfl⟩
  | close f =>
      simp only [move,World.close] at hs
      split at hs
      · cases hs
      · split_ifs at hs
        cases hs
        exact ⟨Nat.le_refl _,fun _ _ => rfl⟩
  | _ => cases hm

theorem follows_call (h : Follows w r c d) {f t : ℕ} {l : Label}
    (hs : w.beginCall f t l = some w') :
    ∃ d', run TransferSteps.step d (if w.files[f]?.bind File.names = some r then [l] else []) =
      some d' ∧ Follows w' r c d' := by
  unfold World.beginCall at hs
  cases hf : w.files[f]? with
  | none => simp [hf] at hs
  | some file =>
      simp only [hf] at hs
      split at hs
      case h_2 => cases hs
      rename_i q hpc hdata
      obtain ⟨e,he,hs⟩ := Option.bind_eq_some_iff.mp hs
      obtain ⟨e',he',rfl⟩ := Option.map_eq_some_iff.mp hs
      have hnames : (some file).bind File.names = some q := by simp [File.names,hpc,hdata]
      simp only [hnames,Option.some.injEq]
      exact follows_label h he he' (Nat.le_refl _) rfl

theorem follows_open (h : Follows w r c d) {f : ℕ} (hs : w.openStep f = some w') :
    ∃ d', run TransferSteps.step d (ownLabels w r (.openStep f)) = some d' ∧ Follows w' r c d' := by
  unfold World.openStep at hs
  cases hf : w.files[f]? with
  | none => simp [hf] at hs
  | some file =>
      obtain ⟨node,data,pc,threads⟩ := file
      simp only [hf] at hs
      cases pc <;> simp only [reduceCtorEq,Option.some.injEq] at hs
      case reset dev v =>
          obtain ⟨e,he,rfl⟩ := Option.map_eq_some_iff.mp hs
          simp only [ownLabels,hf]
          exact follows_label h he (l := .openWrite v) rfl (Nat.le_refl _) rfl
      all_goals
        subst hs
        simp only [ownLabels,hf]
        exact follows_same h (Nat.le_refl _) rfl

/-- A move does to the device of a record what its labels do. -/
theorem follows_move {m : Move} (h : Follows w r c d) (hs : move host w m = some w') :
    ∃ d', run TransferSteps.step d (ownLabels w r m) = some d' ∧ Follows w' r c d' := by
  cases m with
  | probe i endpoints | probeStep i | disconnect i | beginOpen i | close f =>
      obtain ⟨hlater,hrecord⟩ := aside_record rfl hs
      exact follows_same h hlater (hrecord r h.1)
  | openStep f => exact follows_open h hs
  | beginRead f t count ppos | beginWrite f t payload => exact follows_call h hs
  | device q l =>
      simp only [move,World.deviceStep] at hs
      split_ifs at hs
      obtain ⟨e,he,hs⟩ := Option.bind_eq_some_iff.mp hs
      obtain ⟨e',he',rfl⟩ := Option.map_eq_some_iff.mp hs
      exact follows_label h he he' (Nat.le_refl _) rfl

/-- Whatever happens around a record, its device goes through its own labels. -/
theorem record_runs {ms : List Move} (hrun : run (move host) w ms = some w')
    (hr : r < w.kernel.requests) (hc : w.record r = some c) :
    ∃ d', run TransferSteps.step c.device (ownRun host r w ms) = some d' ∧ Follows w' r c d' := by
  refine run_recorded (P := fun _ _ => True)
    (I := fun ls w => ∃ d, run TransferSteps.step c.device ls = some d ∧ Follows w r c d) ?_
    ⟨c.device,rfl,hr,hc⟩ (.labels (fun _ _ => trivial) _) hrun
  rintro ls v m u ⟨d,hls,h⟩ _ hs
  obtain ⟨d',hd',h'⟩ := follows_move h hs
  refine ⟨d',?_,h'⟩
  rw [run_append,hls]
  exact hd'

theorem ownLabels_unborn {m : Move} (hr : w.record r = none) (hs : move host w m = some w') :
    ownLabels w r m = [] := by
  have call {f t : ℕ} {l : Label} (hs : w.beginCall f t l = some w') :
      w.files[f]?.bind File.names ≠ some r := by
    intro hnames
    obtain ⟨file,hf,hnames⟩ := Option.bind_eq_some_iff.mp hnames
    unfold World.beginCall at hs
    simp only [hf] at hs
    split at hs
    case h_2 => cases hs
    rename_i q hpc hdata
    have hq : q = r := by simpa [File.names,hpc,hdata] using hnames
    simp [hq,hr] at hs
  cases m with
  | openStep f =>
      simp only [ownLabels]
      split
      · rename_i dev v threads hf
        rw [if_neg]
        intro hdev
        simp [move,World.openStep,hf,hdev,hr] at hs
      · rfl
  | beginRead f t count ppos | beginWrite f t payload => exact if_neg (call hs)
  | device q l =>
      refine if_neg fun hq => ?_
      simp [move,World.deviceStep,hq,hr] at hs
  | _ => rfl

end Isolation

/-! ## Which device a call is on -/

def readFile : ReadEvent → Option ℕ
  | .returned _ filp .. => some filp
  | _ => none

def writeFile : WriteEvent → Option ℕ
  | .returned _ filp .. => some filp
  | _ => none

/-- The files of the calls that have returned. -/
def returnedFiles (d : Device) : List ℕ :=
  d.readLog.filterMap readFile ++ d.writeLog.filterMap writeFile

/-- The device has seen a call on this file. -/
def Serves (d : Device) (f : ℕ) : Prop :=
  (∃ t e, jobFile (d.job t) = some (f,e)) ∨ f ∈ returnedFiles d

section Serves
variable {d d' : Device} {f : ℕ}

theorem readEvents_files (s : Device) (c c' : ReadCall) :
    (readEvents s c c').filterMap readFile = [] := by
  unfold readEvents
  split <;> rfl

theorem writeEvents_files (s : Device) (c c' : WriteCall) :
    (writeEvents s c c').filterMap writeFile = [] := by
  unfold writeEvents
  split <;> rfl

theorem returned_step {l : Label} (hs : TransferSteps.step d l = some d')
    (h : f ∈ returnedFiles d') :
    f ∈ returnedFiles d ∨ ∃ t e, jobFile (d.job t) = some (f,e) := by
  have same (hfiles : returnedFiles d' = returnedFiles d) :
      f ∈ returnedFiles d ∨ ∃ t e, jobFile (d.job t) = some (f,e) := .inl (hfiles ▸ h)
  cases l with
  | beginRead t filp count ppos | beginWrite t filp payload =>
      simp only [TransferSteps.step] at hs
      split at hs
      · cases hs
        exact same rfl
      · cases hs
  | openWrite w =>
      cases hs
      exact same rfl
  | run t k =>
      cases hj : d.job t with
      | idle => simp [TransferSteps.step,hj] at hs
      | reading c =>
          simp only [TransferSteps.step,hj,runRead] at hs
          split_ifs at hs
          · cases hs
            by_cases hf : f = c.filp
            · exact .inr ⟨t,decide (c.pc = .exit),by rw [hj,jobFile,hf]⟩
            · exact .inl (by simpa [returnedFiles,readFile,hf] using h)
          · obtain ⟨r,hr,rfl⟩ := Option.map_eq_some_iff.mp hs
            exact same (by simp [returnedFiles,readEvents_files])
      | writing c =>
          simp only [TransferSteps.step,hj,runWrite] at hs
          split_ifs at hs
          · cases hs
            by_cases hf : f = c.filp
            · exact .inr ⟨t,decide (c.pc = .exit),by rw [hj,jobFile,hf]⟩
            · exact .inl (by simpa [returnedFiles,writeFile,hf] using h)
          · obtain ⟨r,hr,rfl⟩ := Option.map_eq_some_iff.mp hs
            exact same (by simp [returnedFiles,writeEvents_files])
  | signal t =>
      cases hj : d.job t <;> simp only [TransferSteps.step,hj,reduceCtorEq] at hs
      all_goals
        obtain ⟨c',hc,rfl⟩ := Option.map_eq_some_iff.mp hs
        exact same rfl
  | inCompletes status packet =>
      simp only [TransferSteps.step,inCompletes] at hs
      split at hs
      · cases hs
      · split_ifs at hs
        cases hs
        exact same (by simp [returnedFiles,readFile])
  | outTakes =>
      simp only [TransferSteps.step,outTakes] at hs
      split at hs
      · cases hs
      · cases hs
        exact same rfl
  | outCompletes status n =>
      simp only [TransferSteps.step,outCompletes] at hs
      split at hs
      · cases hs
      · split_ifs at hs
        cases hs
        exact same (by simp [returnedFiles,writeFile])

theorem serves_step {l : Label} (hl : internal l = true) (hs : TransferSteps.step d l = some d')
    (h : Serves d' f) : Serves d f := by
  rcases h with ⟨t,e,hjob⟩ | hmem
  · obtain ⟨e',hjob,_⟩ := jobFile_step hl hs hjob
    exact .inl ⟨t,e',hjob⟩
  · exact (returned_step hs hmem).symm

theorem serves_begin {l : Label} {t g : ℕ}
    (hl : (∃ count ppos, l = .beginRead t g count ppos) ∨ ∃ payload, l = .beginWrite t g payload)
    (hs : TransferSteps.step d l = some d') (h : Serves d' f) : f = g ∨ Serves d f := by
  rcases h with ⟨u,e,hjob⟩ | hmem
  · rcases jobFile_begin hl hs hjob with ⟨_,hf⟩ | ⟨e',hold⟩
    · exact .inl hf
    · exact .inr (.inl ⟨u,e',hold⟩)
  · exact .inr (returned_step hs hmem).symm

end Serves

/-- The record was made for this interface. -/
def MadeFor (cells : ℕ → Option Cell) (r i : ℕ) : Prop := ∃ c, cells r = some c ∧ c.home = i

/-- The record an interface points to or is about to. -/
def Slot.points (s : Slot) : List ℕ :=
  (s.handle.data.map Draft.record).toList ++
    match s.phase with
    | .publish dev => [dev.record]
    | _ => []

/-- The record a file refers to, or is about to. -/
def File.target (file : File) : Option ℕ :=
  match file.pc with
  | .store dev => some dev
  | _ => file.privateData

/-- Interfaces and files point to records made for the interface, a file is given
its record once, and a call is on the record of its file. -/
structure Routed (k : Kernel) (slot : ℕ → Slot) (cells : ℕ → Option Cell) (files : List File) :
    Prop where
  past : ∀ r, cells r ≠ none → r < k.requests
  slots : ∀ i, ∀ r ∈ Slot.points (slot i), MadeFor cells r i
  targets : ∀ (f : ℕ) (file : File), files[f]? = some file → ∀ r ∈ File.target file, MadeFor cells r file.node
  unset : ∀ (f : ℕ) (file : File) (dev : ℕ), files[f]? = some file →
    file.pc = .find ∨ file.pc = .getData ∨ file.pc = .store dev → file.privateData = none
  calls : ∀ r c f, cells r = some c → Serves c.device f →
    ∃ file : File, files[f]? = some file ∧ file.privateData = some r

namespace Routed
variable {host : Host} {w w' : World} {k k' : Kernel} {slot : ℕ → Slot}
  {cells : ℕ → Option Cell} {files : List File} {i f r : ℕ}

theorem later (h : Routed k slot cells files) (hk : k.requests ≤ k'.requests) :
    Routed k' slot cells files :=
  { h with past := fun r hr => Nat.lt_of_lt_of_le (h.past r hr) hk }

/-- A statement on an interface that adds no pointer. -/
theorem pointed (h : Routed k slot cells files) {s : Slot}
    (hs : ∀ r ∈ Slot.points s, r ∈ Slot.points (slot i)) :
    Routed k (Function.update slot i s) cells files := by
  refine { h with slots := fun j r hr => ?_ }
  by_cases hji : j = i
  · subst hji
    rw [Function.update_self] at hr
    exact h.slots j r (hs r hr)
  · rw [Function.update_of_ne hji] at hr
    exact h.slots j r hr

theorem built (h : Routed k slot cells files) {dev : Draft} {handle : Interface} {nr : UsbNr}
    (hdev : dev.record = k.requests) (hlt : k.requests < k'.requests)
    (hhandle : handle = (slot i).handle) :
    Routed k' (Function.update slot i ⟨handle,.publish dev⟩)
      (Function.update cells dev.record (some ⟨.fresh nr,i⟩)) files := by
  have keep {q j : ℕ} (hq : MadeFor cells q j) :
      MadeFor (Function.update cells dev.record (some ⟨.fresh nr,i⟩)) q j := by
    obtain ⟨c,hc,hhome⟩ := hq
    refine ⟨c,?_,hhome⟩
    rw [Function.update_of_ne,hc]
    intro hqd
    have hpast := h.past q (by simp [hc])
    omega
  refine ⟨fun q hq => ?_,fun j q hq => ?_,fun g file hg q hq => keep (h.targets g file hg q hq),
    h.unset,fun q c g hc hserves => ?_⟩
  · by_cases hqd : q = dev.record
    · omega
    · rw [Function.update_of_ne hqd] at hq
      exact Nat.lt_trans (h.past q hq) hlt
  · by_cases hji : j = i
    · subst hji
      rw [Function.update_self] at hq
      subst hhandle
      rcases List.mem_append.mp hq with hold | hnew
      · exact keep (h.slots j q (List.mem_append_left _ hold))
      · cases List.mem_singleton.mp hnew
        exact ⟨_,Function.update_self ..,rfl⟩
    · rw [Function.update_of_ne hji] at hq
      exact keep (h.slots j q hq)
  · rcases update_some_cases hc with ⟨_,hnew⟩ | ⟨_,hold⟩
    · cases hnew
      rcases hserves with ⟨t,e,hjob⟩ | hmem
      · cases hjob
      · cases hmem
    · exact h.calls q c g hold hserves

theorem cell (h : Routed k slot cells files) {c : Cell} {d : Device} (hc : cells r = some c)
    (hd : ∀ f, Serves d f → ∃ file, files[f]? = some file ∧ file.privateData = some r) :
    Routed k slot (Function.update cells r (some { c with device := d })) files := by
  have keep {q j : ℕ} (hq : MadeFor cells q j) :
      MadeFor (Function.update cells r (some { c with device := d })) q j := by
    obtain ⟨e,he,hhome⟩ := hq
    by_cases hqr : q = r
    · subst hqr
      rw [hc] at he
      cases he
      exact ⟨_,Function.update_self ..,hhome⟩
    · exact ⟨e,by rw [Function.update_of_ne hqr,he],hhome⟩
  refine ⟨fun q hq => ?_,fun j q hq => keep (h.slots j q hq),
    fun g file hg q hq => keep (h.targets g file hg q hq),h.unset,fun q e g he hserves => ?_⟩
  · by_cases hqr : q = r
    · subst hqr
      exact h.past q (by simp [hc])
    · rw [Function.update_of_ne hqr] at hq
      exact h.past q hq
  · rcases update_some_cases he with ⟨rfl,hnew⟩ | ⟨_,hold⟩
    · cases hnew
      exact hd g hserves
    · exact h.calls q e g hold hserves

theorem file (h : Routed k slot cells files) {file file' : File} (hf : files[f]? = some file)
    (hnode : file'.node = file.node)
    (hdata : file.privateData = none ∨ file'.privateData = file.privateData)
    (htarget : ∀ r ∈ File.target file', MadeFor cells r file.node)
    (hunset : ∀ dev, file'.pc = .find ∨ file'.pc = .getData ∨ file'.pc = .store dev →
      file'.privateData = none) : Routed k slot cells (files.set f file') := by
  have hlt := (List.getElem?_eq_some_iff.mp hf).1
  have entry {g : ℕ} {x : File} (hg : (files.set f file')[g]? = some x) :
      x = file' ∨ files[g]? = some x := by
    by_cases hgf : f = g
    · subst hgf
      rw [List.getElem?_set_self hlt] at hg
      exact .inl (Option.some.inj hg).symm
    · rw [List.getElem?_set_ne hgf] at hg
      exact .inr hg
  refine { h with targets := fun g x hg r hr => ?_, unset := fun g x dev hg hpc => ?_,
                  calls := fun r c g hc hserves => ?_ }
  · rcases entry hg with rfl | hold
    · rw [hnode]
      exact htarget r hr
    · exact h.targets g x hold r hr
  · rcases entry hg with rfl | hold
    · exact hunset dev hpc
    · exact h.unset g x dev hold hpc
  · obtain ⟨x,hx,hr⟩ := h.calls r c g hc hserves
    by_cases hgf : f = g
    · subst hgf
      rw [hf] at hx
      cases hx
      refine ⟨file',List.getElem?_set_self hlt,?_⟩
      rcases hdata with hnone | hsame
      · simp [hnone] at hr
      · rw [hsame,hr]
    · exact ⟨x,by rw [List.getElem?_set_ne hgf,hx],hr⟩

theorem threads (h : Routed k slot cells files) {file : File} (hf : files[f]? = some file)
    (us : List ℕ) : Routed k slot cells (files.set f { file with threads := us }) :=
  h.file hf rfl (.inr rfl) (h.targets f file hf) fun dev hpc => h.unset f file dev hf hpc

theorem leave (h : Routed k slot cells files) (d : Device) (l : Label) :
    Routed k slot cells (leave d l files) := by
  unfold DeviceWorld.leave
  split
  · split
    · split
      · rename_i file hfile
        exact h.threads hfile _
      · exact h
    · exact h
  · exact h

theorem opened (h : Routed k slot cells files) (node : ℕ) :
    Routed k slot cells (files ++ [⟨node,none,.find,[]⟩]) := by
  have entry {g : ℕ} {x : File} (hg : (files ++ [⟨node,none,.find,[]⟩])[g]? = some x) :
      x = ⟨node,none,.find,[]⟩ ∨ files[g]? = some x := by
    by_cases hlt : g < files.length
    · rw [List.getElem?_append_left hlt] at hg
      exact .inr hg
    · rw [List.getElem?_append_right (Nat.le_of_not_lt hlt),List.getElem?_singleton] at hg
      split_ifs at hg
      exact .inl (Option.some.inj hg).symm
  refine { h with targets := fun g x hg r hr => ?_, unset := fun g x dev hg hpc => ?_,
                  calls := fun r c g hc hserves => ?_ }
  · rcases entry hg with rfl | hold
    · simp [File.target] at hr
    · exact h.targets g x hold r hr
  · rcases entry hg with rfl | hold
    · rfl
    · exact h.unset g x dev hold hpc
  · obtain ⟨x,hx,hr⟩ := h.calls r c g hc hserves
    refine ⟨x,?_,hr⟩
    rw [List.getElem?_append_left (List.getElem?_eq_some_iff.mp hx).1,hx]

theorem probe (h : Routed w.kernel w.slot w.record w.files) {endpoints : List EndpointDescriptor}
    (hs : w.probe host i endpoints = some w') : Routed w'.kernel w'.slot w'.record w'.files := by
  obtain ⟨_,hout⟩ := World.probe_cases hs
  rcases hout with rfl | ⟨dev,k,hdev,hlt,_,rfl | ⟨nr,_,rfl⟩⟩
  · exact h.later (Nat.le_succ _)
  · refine h.later ?_
    rw [(freeUsbNr_log dev k (.record,0)).1]
    exact Nat.le_of_lt hlt
  · exact h.built hdev hlt rfl

theorem probeStep (h : Routed w.kernel w.slot w.record w.files)
    (hs : w.probeStep host i = some w') : Routed w'.kernel w'.slot w'.record w'.files := by
  unfold World.probeStep at hs
  cases hphase : (w.slot i).phase <;> simp only [hphase,reduceCtorEq,Option.some.injEq] at hs
  case publish dev =>
      subst hs
      refine h.pointed fun r hr => ?_
      have hrec : r = dev.record := by simpa [Slot.points] using hr
      simp [Slot.points,hphase,hrec]
  case register dev =>
      subst hs
      refine (h.pointed fun r hr => ?_).later (quiet_register host _ _).later
      have hdata := usbRegisterDev_data host (w.slot i).handle w.kernel
      split_ifs at hr <;> simpa [Slot.points,hdata,hphase] using hr
  case retract dev =>
      subst hs
      exact h.pointed fun r hr => by simp [Slot.points] at hr
  case freeFailed dev =>
      subst hs
      refine (h.pointed fun r hr => ?_).later ?_
      · simpa [Slot.points,hphase] using hr
      · exact Nat.le_of_eq (freeUsbNr_log dev w.kernel (.record,0)).1.symm

theorem disconnect (h : Routed w.kernel w.slot w.record w.files) (hs : w.disconnect i = some w') :
    Routed w'.kernel w'.slot w'.record w'.files := by
  unfold World.disconnect at hs
  cases hphase : (w.slot i).phase <;> simp only [hphase,reduceCtorEq,Option.some.injEq] at hs
  case bound =>
      split_ifs at hs
      cases hs
      exact h.pointed fun r hr => by simpa [Slot.points,hphase] using hr
  case readData | unlock =>
      subst hs
      exact h.pointed fun r hr => by simpa [Slot.points,hphase] using hr
  case clearData dev =>
      subst hs
      exact h.pointed fun r hr => by simp [Slot.points] at hr
  case freeData dev =>
      cases dev with
      | none =>
          cases hs
          exact h.pointed fun r hr => by simpa [Slot.points,hphase] using hr
      | some dev =>
          cases hs
          refine (h.pointed fun r hr => ?_).later ?_
          · simpa [Slot.points,hphase] using hr
          · exact Nat.le_of_eq (freeUsbNr_log dev w.kernel (.record,0)).1.symm
  case deregister =>
      subst hs
      refine (h.pointed fun r hr => ?_).later (Quiet.free (by simp) _).later
      simpa [Slot.points,hphase,usbDeregisterDev] using hr

theorem openStep (h : Routed w.kernel w.slot w.record w.files) (hs : w.openStep f = some w') :
    Routed w'.kernel w'.slot w'.record w'.files := by
  unfold World.openStep at hs
  cases hf : w.files[f]? with
  | none => simp [hf] at hs
  | some file =>
      simp only [hf] at hs
      have htarget := h.targets f file hf
      have hunset := h.unset f file
      cases hpc : file.pc <;> simp only [hpc,reduceCtorEq,Option.some.injEq] at hs
      case find =>
          subst hs
          have hnone := hunset 0 hf (.inl hpc)
          refine h.file hf rfl (.inl hnone) (fun r hr => ?_) fun dev _ => hnone
          split_ifs at hr <;> simp [File.target,hnone] at hr
      case getData =>
          subst hs
          have hnone := hunset 0 hf (.inr (.inl hpc))
          refine h.file hf rfl (.inl hnone) (fun r hr => ?_) fun dev _ => hnone
          cases hd : (w.slot file.node).handle.data with
          | none => simp [File.target,hnone,hd] at hr
          | some dev =>
              have hrec : dev.record = r := by simpa [File.target,hd] using hr
              exact h.slots _ r (by simp [Slot.points,hd,hrec])
      case store dev =>
          subst hs
          have hnone := hunset dev hf (.inr (.inr hpc))
          refine h.file hf rfl (.inl hnone) (fun r hr => ?_) fun _ hbad => by simp at hbad
          exact htarget r (by simpa [File.target,hpc] using hr)
      case reset dev v =>
          obtain ⟨c,hc,rfl⟩ := Option.map_eq_some_iff.mp hs
          have hcell := h.cell (d := { c.device with nr := c.device.nr.openWrite v }) hc
            fun g hg => h.calls dev c g hc hg
          refine hcell.file hf rfl (.inr rfl) (fun r hr => ?_) fun q hbad => ?_
          · refine hcell.targets f file hf r ?_
            cases v <;> simpa [File.target,hpc,afterReset] using hr
          · cases v <;> simp [afterReset] at hbad
      case exit =>
          subst hs
          refine h.file hf rfl (.inr rfl) (fun r hr => ?_) fun _ hbad => by simp at hbad
          exact htarget r (by simpa [File.target,hpc] using hr)

theorem beginCall (h : Routed w.kernel w.slot w.record w.files) {t : ℕ} {l : Label}
    (hl : (∃ count ppos, l = .beginRead t f count ppos) ∨ ∃ payload, l = .beginWrite t f payload)
    (hs : w.beginCall f t l = some w') : Routed w'.kernel w'.slot w'.record w'.files := by
  unfold World.beginCall at hs
  cases hf : w.files[f]? with
  | none => simp [hf] at hs
  | some file =>
      simp only [hf] at hs
      split at hs
      case h_2 => cases hs
      rename_i q hpc hdata
      obtain ⟨c,hc,hs⟩ := Option.bind_eq_some_iff.mp hs
      obtain ⟨d,hd,rfl⟩ := Option.map_eq_some_iff.mp hs
      refine (h.cell hc fun g hg => ?_).threads hf _
      rcases serves_begin hl hd hg with rfl | hold
      · exact ⟨file,hf,hdata⟩
      · exact h.calls q c g hc hold

theorem move {m : Move} (h : Routed w.kernel w.slot w.record w.files)
    (hs : DeviceWorld.move host w m = some w') :
    Routed w'.kernel w'.slot w'.record w'.files := by
  cases m with
  | probe i endpoints => exact h.probe hs
  | probeStep i => exact h.probeStep hs
  | disconnect i => exact h.disconnect hs
  | beginOpen i =>
      cases hs
      exact h.opened i
  | openStep f => exact h.openStep hs
  | close f =>
      simp only [DeviceWorld.move,World.close] at hs
      split at hs
      · cases hs
      · rename_i file hf
        split_ifs at hs with hopen
        cases hs
        refine h.file hf rfl (.inr rfl) (fun r hr => ?_) fun _ hbad => by simp at hbad
        exact h.targets f file hf r (by simpa [File.target,hopen.1] using hr)
  | beginRead f t count ppos => exact h.beginCall (.inl ⟨count,ppos,rfl⟩) hs
  | beginWrite f t payload => exact h.beginCall (.inr ⟨payload,rfl⟩) hs
  | device q l =>
      simp only [DeviceWorld.move,World.deviceStep] at hs
      split_ifs at hs with hl
      obtain ⟨c,hc,hs⟩ := Option.bind_eq_some_iff.mp hs
      obtain ⟨d,hd,rfl⟩ := Option.map_eq_some_iff.mp hs
      exact (h.cell hc fun g hg => h.calls q c g hc (serves_step hl hd hg)).leave c.device l

theorem start : Routed World.start.kernel World.start.slot World.start.record World.start.files := by
  refine ⟨fun r hr => (hr rfl).elim,fun i r hr => ?_,fun f file hf => ?_,fun f file dev hf => ?_,
    fun r c f hc => ?_⟩
  · simp [Slot.points,World.start,Interface.fresh] at hr
  · cases hf
  · cases hf
  · cases hc

end Routed

theorem routed_run {host : Host} {ms : List Move} {w : World}
    (hrun : run (move host) .start ms = some w) :
    Routed w.kernel w.slot w.record w.files :=
  run_kept (I := fun w => Routed w.kernel w.slot w.record w.files) (fun _ _ _ h hs => h.move hs)
    .start hrun

theorem Routed.home {k : Kernel} {slot : ℕ → Slot} {cells : ℕ → Option Cell} {files : List File}
    (h : Routed k slot cells files) {r f : ℕ} {c : Cell} (hc : cells r = some c)
    (hf : Serves c.device f) :
    ∃ file, files[f]? = some file ∧ file.privateData = some r ∧ file.node = c.home := by
  obtain ⟨file,hfile,hdata⟩ := h.calls r c f hc hf
  refine ⟨file,hfile,hdata,?_⟩
  -- a file with a record is past the statement that stores it
  have htarget : File.target file = some r := by
    unfold File.target
    split
    · rename_i dev hpc
      simp [h.unset f file dev hfile (.inr (.inr hpc))] at hdata
    · exact hdata
  obtain ⟨e,he,hhome⟩ := h.targets f file hfile r htarget
  rw [hc] at he
  cases he
  exact hhome.symm

/-- Every call that a record has seen, running or returned, was made on a file
that refers to this record and was opened on the node of the interface that the
record was made for. -/
theorem calls_routed (host : Host) {ms : List Move} {w : World}
    (hrun : run (move host) .start ms = some w) {r : ℕ} {c : Cell} (hc : w.record r = some c)
    {f : ℕ} (hf : Serves c.device f) :
    ∃ file, w.files[f]? = some file ∧ file.privateData = some r ∧ file.node = c.home :=
  (routed_run hrun).home hc hf

/-- A read on the first of two devices, a refused write on the second, and the
second is unplugged. -/
def readBesideWrite : List Move :=
  plugTwo ++ [.beginRead 0 3 64 0,.beginWrite 1 4 [],.device 0 (.run 3 0),.device 7 (.run 4 0),
    .device 0 (.run 3 0),.device 0 (.run 3 0),.device 7 (.run 4 0),.close 1,.disconnect 1,
    .disconnect 1,.disconnect 1,.disconnect 1] ++ .replicate 4 (.device 0 (.run 3 0)) ++
      [.device 0 (.inCompletes 0 [5,6]),.disconnect 1,.disconnect 1] ++
        .replicate 7 (.device 0 (.run 3 0))

theorem read_beside_write_routed :
    ∃ w ∈ run (move (canHost fun _ => 0)) .start readBesideWrite,
      ∃ c ∈ w.record 7, Serves c.device 1 ∧
        ∃ file, w.files[1]? = some file ∧ file.privateData = some 7 ∧ file.node = c.home := by
  obtain ⟨w,hw,c,hc,hmem⟩ :
      ∃ w ∈ run (move (canHost fun _ => 0)) .start readBesideWrite,
        ∃ c ∈ w.record 7, 1 ∈ returnedFiles c.device := by decide
  exact ⟨w,hw,c,hc,.inr hmem,calls_routed _ hw hc (.inr hmem)⟩

end NrDriver.Routing
