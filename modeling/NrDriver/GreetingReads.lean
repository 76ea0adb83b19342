import NrDriver.EchoWrites
import NrDriver.GreetingProbe

/-!
# Reads of the greeting

`nr_open`, `nr_read` and `nr_write` of `driver_read.c` and `driver_read_write.c`.
Each open fills the small buffer of the record again, one byte a statement, and no
lock keeps the reads of other files out. They see nothing of it: a file can be
read once its own open has returned, and every open writes what is there already.
The length a read is asked for is not looked at.
-/
namespace NrDriver.GreetingReads
open KernelModel LabelledRuns EchoWrites GreetingProbe
open TransferSteps (canIn canOut)

/-- The two drivers. They differ in the file position, which only the second one
moves, and in `nr_write`, which the first one has not. -/
inductive Source where
  | driverRead | driverReadWrite
  deriving DecidableEq, Repr

/-- `Hi NR` and a line feed. -/
def greetingBytes : Vector Byte 6 := #v[72,105,32,78,82,10]

/-- The statements of `nr_open` from the filling of the buffer on. -/
inductive OpenPc where
  | testbuff (i : Fin 6)
  | lenbuff
  | privateData
  | opened
  deriving DecidableEq, Repr

def openStep (dev : UsbNr) : OpenPc → Option (UsbNr × OpenPc)
  | .testbuff i =>
      some ({ dev with testbuff := dev.testbuff.set i greetingBytes[i] },
        if h : i.val + 1 < 6 then .testbuff ⟨i.val + 1,h⟩ else .lenbuff)
  | .lenbuff => some ({ dev with lenbuff := 6 },.privateData)
  | .privateData => some (dev,.opened)
  | .opened => none

/-- `nr_read` calls `copy_to_user` with the length it finds, which copies byte by
byte. -/
inductive ReadPc where
  | call | copy | position | result | exit
  deriving DecidableEq, Repr

/-- A running `nr_read`; `origin` keeps the position it was called at. -/
structure ReadCall where
  id : ℕ
  filp : ℕ
  count : ℕ
  origin : ℤ
  ppos : ℤ
  len : ℕ
  rs : ℤ
  user : List Byte
  pc : ReadPc
  deriving DecidableEq, Repr

def ReadCall.start (id filp count : ℕ) (ppos : ℤ) : ReadCall :=
  ⟨id,filp,count,ppos,ppos,0,0,[],.call⟩

/-- The statement of `nr_read` after the copy. -/
def Source.copied : Source → ReadPc
  | .driverRead => .result
  | .driverReadWrite => .position

/-- One statement of `nr_read`, or one byte of its copy, which may fault. -/
def readStep (source : Source) (dev : UsbNr) (c : ReadCall) (fault : Bool) : Option ReadCall :=
  match c.pc with
  | .call => some { c with len := dev.lenbuff, pc := .copy }
  | .copy =>
      if c.len ≤ c.user.length ∨ fault = true then
        some { c with rs := c.len - c.user.length, pc := source.copied }
      else
        dev.testbuff[c.user.length]?.map fun byte => { c with user := c.user ++ [byte] }
  | .position => some { c with ppos := toSsize (c.ppos + (dev.lenbuff - c.rs)), pc := .result }
  | .result => some { c with rs := dev.lenbuff - c.rs, pc := .exit }
  | .exit => none

inductive ReadEvent where
  | faulted (call : ℕ)
  | returned (call filp count : ℕ) (origin : ℤ) (user : List Byte) (retval ppos : ℤ)
  deriving DecidableEq, Repr

def readEvents (c : ReadCall) (fault : Bool) : List ReadEvent :=
  if c.pc = .copy ∧ c.user.length < c.len ∧ fault = true then [.faulted c.id] else []

/-- The record, the files, the running calls of either kind, and what is seen of them. -/
structure Device where
  nr : UsbNr
  files : List OpenPc
  call : ℕ → Option ReadCall
  echo : Echo
  reads : ℕ
  log : List ReadEvent

inductive Label where
  | beginOpen
  | openStep (f : ℕ)
  | beginRead (t filp count : ℕ) (ppos : ℤ)
  | beginWrite (t filp : ℕ) (buffer : List Byte)
  | run (t : ℕ) (fault : Bool)
  deriving DecidableEq, Repr

def runRead (source : Source) (s : Device) (t : ℕ) (c : ReadCall) (fault : Bool) :
    Option Device :=
  if c.pc = .exit then
    some { s with
      call := Function.update s.call t none
      log := s.log ++ [.returned c.id c.filp c.count c.origin c.user c.rs c.ppos] }
  else
    (readStep source s.nr c fault).map fun c' => { s with
      call := Function.update s.call t (some c')
      log := s.log ++ readEvents c fault }

/-- A thread is inside one call at a time, and calls are made on open files. -/
def step (source : Source) (s : Device) : Label → Option Device
  | .beginOpen => some { s with files := s.files ++ [.testbuff 0] }
  | .openStep f =>
      s.files[f]?.bind fun pc => (openStep s.nr pc).map fun r =>
        { s with nr := r.1, files := s.files.set f r.2 }
  | .beginRead t filp count ppos =>
      if s.files[filp]? = some .opened ∧ (s.call t).isNone ∧ (s.echo.call t).isNone then
        some { s with
          call := Function.update s.call t (some (.start s.reads filp count ppos))
          reads := s.reads + 1 }
      else none
  | .beginWrite t filp buffer =>
      if source = .driverReadWrite ∧ s.files[filp]? = some .opened ∧ (s.call t).isNone then
        (s.echo.step (.begin t buffer)).map fun e => { s with echo := e }
      else none
  | .run t fault =>
      match s.call t with
      | some c => runRead source s t c fault
      | none => (s.echo.step (.run t)).map fun e => { s with echo := e }

/-- A device that was probed and not opened yet. -/
def Device.probed (epIn epOut : EndpointDescriptor) : Device :=
  ⟨{ UsbNr.kzalloc with intInEndpoint := some epIn, intOutEndpoint := some epOut },[],fun _ => none,
    .start,0,[]⟩

/-- The position after a read that stored `n` bytes. -/
def Source.moved (source : Source) (origin : ℤ) (n : ℕ) : ℤ :=
  match source with
  | .driverRead => origin
  | .driverReadWrite => toSsize (origin + n)

/-- What a returned read has done: it stored the greeting, or a part of it if
its copy faulted, and answers with the number of bytes. -/
def Greets (source : Source) (log : List ReadEvent) : Prop :=
  ∀ (id filp count : ℕ) (origin : ℤ) (user : List Byte) (retval ppos : ℤ),
    .returned id filp count origin user retval ppos ∈ log →
      user <+: greetingBytes.toList ∧ retval = user.length ∧
        ppos = source.moved origin user.length ∧
          (user = greetingBytes.toList ∨ .faulted id ∈ log)

/-- The first `n` bytes of the buffer are those of the greeting. -/
def Filled (dev : UsbNr) (n : ℕ) : Prop :=
  ∀ j : Fin 6, j.val < n → dev.testbuff[j] = greetingBytes[j]

/-- The assignments that an open has made are in place. -/
def OpenPc.Past (dev : UsbNr) : OpenPc → Prop
  | .testbuff i => Filled dev i
  | .lenbuff => Filled dev 6
  | .privateData | .opened => Filled dev 6 ∧ dev.lenbuff = 6

/-- The copy of a call is over. -/
def ReadCall.Copied (log : List ReadEvent) (c : ReadCall) : Prop :=
  c.user = greetingBytes.toList ∨ .faulted c.id ∈ log

/-- How far a running call has come. -/
def ReadCall.Reached (source : Source) (log : List ReadEvent) (c : ReadCall) : Prop :=
  c.user <+: greetingBytes.toList ∧
    match c.pc with
    | .call => c.user = [] ∧ c.ppos = c.origin
    | .copy => c.len = 6 ∧ c.ppos = c.origin
    | .position => c.Copied log ∧ c.rs = 6 - c.user.length ∧ c.ppos = c.origin ∧
        source = .driverReadWrite
    | .result => c.Copied log ∧ c.rs = 6 - c.user.length ∧
        c.ppos = source.moved c.origin c.user.length
    | .exit => c.Copied log ∧ c.rs = c.user.length ∧
        c.ppos = source.moved c.origin c.user.length

structure Serving (source : Source) (s : Device) : Prop where
  files : ∀ (f : ℕ) (pc : OpenPc), s.files[f]? = some pc → pc.Past s.nr
  whole : ∀ t c, s.call t = some c → Filled s.nr 6 ∧ s.nr.lenbuff = 6
  calls : ∀ t c, s.call t = some c → c.Reached source s.log
  greets : Greets source s.log
  printing : Printing s.echo

section Steps
variable {source : Source} {s s' : Device} {dev dev' : UsbNr} {pc pc' : OpenPc}

theorem openStep_filled (hs : openStep dev pc = some (dev',pc')) {n : ℕ} (h : Filled dev n) :
    Filled dev' n ∧ (dev.lenbuff = 6 → dev'.lenbuff = 6) := by
  cases pc with
  | testbuff i =>
      cases hs
      refine ⟨fun j hj => ?_,id⟩
      have hold := h j hj
      by_cases hij : i = j
      · subst hij
        simp
      · have hval : i.val ≠ j.val := fun hval => hij (Fin.ext hval)
        simpa [hval] using hold
  | lenbuff =>
      cases hs
      exact ⟨h,fun _ => rfl⟩
  | privateData =>
      cases hs
      exact ⟨h,id⟩
  | opened => cases hs

theorem openStep_past (h : pc.Past dev) (hs : openStep dev pc = some (dev',pc')) :
    pc'.Past dev' := by
  cases pc with
  | testbuff i =>
      have hnext : Filled dev' (i.val + 1) := by
        intro j hj
        by_cases hij : i = j
        · cases hs
          subst hij
          simp
        · have hval : i.val ≠ j.val := fun hval => hij (Fin.ext hval)
          exact (openStep_filled hs h).1 j (by omega)
      cases hs
      split_ifs with hi
      · exact hnext
      · have hlast : i.val + 1 = 6 := by omega
        simpa only [OpenPc.Past,hlast] using hnext
  | lenbuff =>
      cases hs
      exact ⟨h,rfl⟩
  | privateData =>
      cases hs
      exact h
  | opened => cases hs

theorem OpenPc.Past.mono {q : OpenPc} (h : q.Past dev) (hs : openStep dev pc = some (dev',pc')) :
    q.Past dev' := by
  cases q with
  | testbuff i => exact (openStep_filled hs h).1
  | lenbuff => exact (openStep_filled hs h).1
  | privateData | opened =>
      exact ⟨(openStep_filled hs h.1).1,(openStep_filled hs h.1).2 h.2⟩

theorem snoc_greeting (h : Filled dev 6) {user : List Byte} {byte : Byte}
    (hpre : user <+: greetingBytes.toList) (hbyte : dev.testbuff[user.length]? = some byte) :
    user ++ [byte] <+: greetingBytes.toList := by
  obtain ⟨hlt,hget⟩ := Vector.getElem?_eq_some_iff.mp hbyte
  have hnext : greetingBytes[user.length] = byte := (h ⟨user.length,hlt⟩ hlt).symm.trans hget
  have hlist : greetingBytes.toList[user.length]? = some byte := by simp [hlt,hnext]
  rw [List.prefix_iff_eq_take] at hpre ⊢
  rw [List.length_append,List.length_singleton,List.take_add_one,hlist]
  exact congrArg (· ++ [byte]) hpre

theorem ReadCall.Copied.mono {log : List ReadEvent} {c : ReadCall} (h : c.Copied log)
    (events : List ReadEvent) : c.Copied (log ++ events) :=
  h.imp_right (List.mem_append_left _)

theorem ReadCall.Reached.mono {log : List ReadEvent} {c : ReadCall} (h : c.Reached source log)
    (events : List ReadEvent) : c.Reached source (log ++ events) := by
  obtain ⟨hpre,h⟩ := h
  refine ⟨hpre,?_⟩
  cases hp : c.pc with
  | call | copy =>
      rw [hp] at h
      exact h
  | position | result | exit =>
      rw [hp] at h
      exact ⟨h.1.mono events,h.2⟩

theorem readStep_reached {log : List ReadEvent} {c c' : ReadCall} {fault : Bool}
    (hfilled : Filled dev 6) (hlen : dev.lenbuff = 6) (h : c.Reached source log)
    (hs : readStep source dev c fault = some c') :
    c'.Reached source (log ++ readEvents c fault) := by
  have hlength : greetingBytes.toList.length = 6 := rfl
  have hle : c.user.length ≤ 6 := h.1.length_le.trans_eq hlength
  cases hp : c.pc with
  | call =>
      obtain ⟨hpre,hstart⟩ := h
      simp only [readStep,hp] at hs hstart
      cases hs
      exact ⟨hpre,hlen,hstart.2⟩
  | copy =>
      obtain ⟨hpre,hcopy⟩ := h
      simp only [readStep,hp] at hs hcopy
      obtain ⟨hc,hpos⟩ := hcopy
      split_ifs at hs with hdone
      · cases hs
        have hcopied : c.Copied (log ++ readEvents c fault) := by
          by_cases hall : c.len ≤ c.user.length
          · exact .inl (hpre.eq_of_length_le (by rw [hlength]; omega))
          · have hfault : fault = true := hdone.resolve_left hall
            refine .inr (List.mem_append_right _ ?_)
            simp [readEvents,hp,hfault,Nat.lt_of_not_le hall]
        have hrs : (c.len : ℤ) - c.user.length = 6 - c.user.length := by rw [hc]; rfl
        refine ⟨hpre,?_⟩
        cases source with
        | driverRead => exact ⟨hcopied,hrs,hpos⟩
        | driverReadWrite => exact ⟨hcopied,hrs,hpos,rfl⟩
      · obtain ⟨byte,hbyte,rfl⟩ := Option.map_eq_some_iff.mp hs
        exact ⟨snoc_greeting hfilled hpre hbyte,hc,hpos⟩
  | position =>
      obtain ⟨hpre,hposition⟩ := h
      simp only [readStep,hp] at hs hposition
      obtain ⟨hcopied,hrs,hpos,rfl⟩ := hposition
      cases hs
      refine ⟨hpre,hcopied.mono _,hrs,?_⟩
      simp only [Source.moved,hlen,hrs,hpos]
      congr 1
      omega
  | result =>
      obtain ⟨hpre,hresult⟩ := h
      simp only [readStep,hp] at hs hresult
      obtain ⟨hcopied,hrs,hpos⟩ := hresult
      cases hs
      refine ⟨hpre,hcopied.mono _,?_,hpos⟩
      simp only [hlen,hrs]
      omega
  | exit => simp [readStep,hp] at hs

/-- A call that returns, and nothing else, adds to what has to be shown. -/
theorem Greets.append {log events : List ReadEvent} (h : Greets source log)
    (hnew : ∀ (id filp count : ℕ) (origin : ℤ) (user : List Byte) (retval ppos : ℤ),
      .returned id filp count origin user retval ppos ∈ events →
        user <+: greetingBytes.toList ∧ retval = user.length ∧
          ppos = source.moved origin user.length ∧
            (user = greetingBytes.toList ∨ .faulted id ∈ log)) : Greets source (log ++ events) := by
  intro id filp count origin user retval ppos hmem
  have hshown : user <+: greetingBytes.toList ∧ retval = user.length ∧
      ppos = source.moved origin user.length ∧
        (user = greetingBytes.toList ∨ .faulted id ∈ log) := by
    rcases List.mem_append.mp hmem with hold | hmem
    · exact h _ _ _ _ _ _ _ hold
    · exact hnew _ _ _ _ _ _ _ hmem
  obtain ⟨hpre,hret,hpos,hall⟩ := hshown
  exact ⟨hpre,hret,hpos,hall.imp_right (List.mem_append_left _)⟩

theorem readEvents_append {log : List ReadEvent} (h : Greets source log) (c : ReadCall)
    (fault : Bool) : Greets source (log ++ readEvents c fault) := by
  refine h.append fun id filp count origin user retval ppos hmem => ?_
  unfold readEvents at hmem
  split_ifs at hmem
  · cases List.mem_singleton.mp hmem
  · cases hmem

theorem Serving.probed (epIn epOut : EndpointDescriptor) : Serving source (.probed epIn epOut) := by
  refine ⟨fun f pc hf => ?_,fun t c hc => ?_,fun t c hc => ?_,?_,printing_start⟩
  · cases hf
  · cases hc
  · cases hc
  · intro id filp count origin user retval ppos hmem
    cases hmem

namespace Serving

theorem opens (h : Serving source s) {f : ℕ} (hf : s.files[f]? = some pc)
    (hs : openStep s.nr pc = some (dev',pc')) :
    Serving source { s with nr := dev', files := s.files.set f pc' } := by
  refine { h with files := fun g q hg => ?_, whole := fun t c hc => ?_ }
  · by_cases hgf : f = g
    · subst hgf
      simp only [List.getElem?_set_self (List.getElem?_eq_some_iff.mp hf).1] at hg
      cases hg
      exact openStep_past (h.files f pc hf) hs
    · simp only [List.getElem?_set_ne hgf] at hg
      exact (h.files g q hg).mono hs
  · obtain ⟨hfilled,hlen⟩ := h.whole t c hc
    exact ⟨(openStep_filled hs hfilled).1,(openStep_filled hs hfilled).2 hlen⟩

theorem runs (h : Serving source s) {t : ℕ} {c : ReadCall} {fault : Bool} (hc : s.call t = some c)
    (hs : runRead source s t c fault = some s') : Serving source s' := by
  obtain ⟨hfilled,hlen⟩ := h.whole t c hc
  unfold runRead at hs
  split_ifs at hs with hexit
  · cases hs
    refine { h with whole := fun _ _ _ => ⟨hfilled,hlen⟩, calls := fun u d hd => ?_, greets := ?_ }
    · rcases update_some_cases hd with ⟨_,hnone⟩ | ⟨_,hold⟩
      · cases hnone
      · exact (h.calls u d hold).mono _
    · refine h.greets.append fun id filp count origin user retval ppos hmem => ?_
      cases List.mem_singleton.mp hmem
      obtain ⟨hpre,hend⟩ := h.calls t c hc
      rw [hexit] at hend
      exact ⟨hpre,hend.2.1,hend.2.2,hend.1⟩
  · obtain ⟨c',hc',rfl⟩ := Option.map_eq_some_iff.mp hs
    refine { h with
      whole := fun _ _ _ => ⟨hfilled,hlen⟩
      calls := fun u d hd => ?_
      greets := readEvents_append h.greets c fault }
    rcases update_some_cases hd with ⟨_,hnew⟩ | ⟨_,hold⟩
    · cases hnew
      exact readStep_reached hfilled hlen (h.calls t c hc) hc'
    · exact (h.calls u d hold).mono _

theorem step {l : Label} (h : Serving source s) (hs : GreetingReads.step source s l = some s') :
    Serving source s' := by
  cases l with
  | beginOpen =>
      cases hs
      refine { h with files := fun f pc hf => ?_ }
      rcases List.mem_append.mp (List.mem_of_getElem? hf) with hold | hnew
      · obtain ⟨g,hg⟩ := List.mem_iff_getElem?.mp hold
        exact h.files g pc hg
      · cases List.mem_singleton.mp hnew
        intro j hj
        simp at hj
  | openStep f =>
      obtain ⟨pc,hf,hs⟩ := Option.bind_eq_some_iff.mp hs
      obtain ⟨r,hr,rfl⟩ := Option.map_eq_some_iff.mp hs
      exact h.opens hf hr
  | beginRead t filp count ppos =>
      simp only [GreetingReads.step] at hs
      split_ifs at hs with hopen
      cases hs
      have hwhole : Filled s.nr 6 ∧ s.nr.lenbuff = 6 := h.files filp .opened hopen.1
      refine { h with whole := fun _ _ _ => hwhole, calls := fun u d hd => ?_ }
      rcases update_some_cases hd with ⟨_,hnew⟩ | ⟨_,hold⟩
      · cases hnew
        exact ⟨List.nil_prefix,rfl,rfl⟩
      · exact h.calls u d hold
  | beginWrite t filp buffer =>
      simp only [GreetingReads.step] at hs
      split_ifs at hs
      obtain ⟨e,he,rfl⟩ := Option.map_eq_some_iff.mp hs
      exact { h with printing := h.printing.step he }
  | run t fault =>
      simp only [GreetingReads.step] at hs
      split at hs
      · rename_i c hc
        exact h.runs hc hs
      · obtain ⟨e,he,rfl⟩ := Option.map_eq_some_iff.mp hs
        exact { h with printing := h.printing.step he }

end Serving

end Steps

/-- However many files are opened meanwhile, a read stores the greeting, or as
much of it as its copy reaches, and a write prints its bytes. -/
theorem greetings_delivered (source : Source) {epIn epOut : EndpointDescriptor} {ls : List Label}
    {s : Device} (hrun : run (step source) (.probed epIn epOut) ls = some s) :
    Greets source s.log ∧ PrintsExactly s.echo.log := by
  have h : Serving source s := run_kept (fun _ _ _ h hs => h.step hs) (.probed epIn epOut) hrun
  exact ⟨h.greets,h.printing.exact⟩

/-- A second file is opened halfway, and the first is asked for one byte. -/
def readingWhileOpening : List Label :=
  .beginOpen :: .replicate 8 (.openStep 0) ++ [.beginOpen,.openStep 1,.openStep 1,
    .beginRead 0 0 1 0,.beginWrite 1 0 [79,75]] ++ .replicate 9 (.run 0 false) ++
      .replicate 3 (.run 1 false) ++ [.openStep 1,.run 0 false,.run 0 false]

theorem reading_while_opening :
    ∃ s ∈ run (step .driverReadWrite) (.probed canIn canOut) readingWhileOpening,
      s.log = [.returned 0 0 1 0 [72,105,32,78,82,10] 6 6] ∧ Greets .driverReadWrite s.log ∧
        PrintsExactly s.echo.log := by
  obtain ⟨s,hs,hlog⟩ : ∃ s ∈ run (step .driverReadWrite) (.probed canIn canOut) readingWhileOpening,
    s.log = [.returned 0 0 1 0 [72,105,32,78,82,10] 6 6] := by decide
  exact ⟨s,hs,hlog,greetings_delivered .driverReadWrite hs⟩

end NrDriver.GreetingReads
