import NrDriver.IdleThreads
import NrDriver.Potential

/-!
# Calls do not spin

`nr_read` jumps back to its first test after a submission and after an empty
packet, and a woken call tests its condition again. Each turn is paid for by
something outside the calls: a completion, or an open that clears the flag. The
potential of a thread is the number of statements its call can still execute if
neither happens, the statement at which a signal ends the wait included.

So the statements of a thread are bounded by its calls and by the completions
and opens, whatever the other threads do (`statements_bounded`). Without
completions and opens every run of statements and signals ends, and where none
is possible any more every call has returned (`calls_end`).
-/
namespace NrDriver.BoundedWork
open KernelModel TransferSteps ReadHalfSteps WriteHalfSteps IdleThreads LabelledRuns Potential

/-- The statements from here to the end of the call, as the flag stands. -/
def readWork (ongoing : Bool) : ReadPc → ℕ
  | .exit => 1
  | .clear => 2
  | .result => 3
  | .position => 4
  | .copy => 5
  | .setOngoing => 5
  | .submit => 6
  | .fill => 7
  | .testLen => 8
  | .testOngoing => if ongoing then 4 else 9
  | .testWait => if ongoing then 3 else 9
  | .asleep => if ongoing then 2 else 9

def writeWork : WritePc → ℕ
  | .exit => 1
  | .asleep => 2
  | .testWait => 3
  | .submit => 4
  | .setOutgoing => 5
  | .fill => 6
  | .copy => 7
  | .checkCount => 8

def readWorkAt (v : ReadHalf) (t : ℕ) : ℕ := (v.call t).elim 0 fun c => readWork v.ongoing c.pc

def writeWorkAt (v : WriteHalf) (t : ℕ) : ℕ := (v.call t).elim 0 fun c => writeWork c.pc

/-- The potential of a thread. -/
def work (t : ℕ) (s : Device) : ℕ := readWorkAt (readHalf s) t + writeWorkAt (writeHalf s) t

/-- A statement of thread `t`, or a signal that ends its wait. -/
def ownOf (t : ℕ) : Label → Bool
  | .run u _ | .signal u => u == t
  | _ => false

def startsOn (t : ℕ) (l : Label) : Bool := begins l == some t

/-- The labels that can send a call round again. -/
def refills : Label → Bool
  | .inCompletes .. | .outCompletes .. | .openWrite .ongoingRead => true
  | _ => false

theorem readWork_le (ongoing : Bool) (pc : ReadPc) : readWork ongoing pc ≤ 9 := by
  cases pc <;> cases ongoing <;> simp [readWork]

theorem writeWork_le (pc : WritePc) : writeWork pc ≤ 8 := by cases pc <;> simp [writeWork]

theorem readWork_set (ongoing : Bool) (pc : ReadPc) : readWork true pc ≤ readWork ongoing pc := by
  cases pc <;> cases ongoing <;> simp [readWork]

/-- A cleared flag, and a wake-up, lengthen it by at most one turn. -/
theorem readWork_cleared (ongoing : Bool) (pc : ReadPc) :
    readWork false pc ≤ readWork ongoing pc + 7 := by
  cases pc <;> cases ongoing <;> simp [readWork]

theorem readWork_wake (ongoing : Bool) (c : ReadCall) :
    readWork false c.wake.pc ≤ readWork ongoing c.pc + 7 := by
  rcases ReadCall.wake_cases c with ⟨hs,he⟩ | ⟨_,he⟩
  · rw [he,hs]
    cases ongoing <;> simp [readWork]
  · rw [he]
    exact readWork_cleared ongoing c.pc

theorem writeWork_wake (c : WriteCall) : writeWork c.wake.pc ≤ writeWork c.pc + 7 := by
  rcases WriteCall.wake_cases c with ⟨hs,he⟩ | ⟨_,he⟩
  · rw [he,hs]
    simp [writeWork]
  · rw [he]
    exact Nat.le_add_right ..

section Read
variable {v v' : ReadHalf} {a : ReadAct}

/-- What a move costs its thread, and what it brings to the others. -/
def ReadAct.cost (t : ℕ) : ReadAct → ℕ
  | .run u _ | .signal u => if u = t then 1 else 0
  | _ => 0

def ReadAct.gain (t : ℕ) : ReadAct → ℕ
  | .begin u _ _ _ => if u = t then 9 else 0
  | .completes .. | .openOngoing => 7
  | _ => 0

theorem readWorkAt_call {u t : ℕ} {c c' : ReadCall} (hc : v.call u = some c)
    (hcall : v'.call = Function.update v.call u (some c'))
    (hon : v'.ongoing = v.ongoing ∨ v'.ongoing = true)
    (hcost : ReadAct.cost t a = if u = t then 1 else 0)
    (hless : readWork v'.ongoing c'.pc < readWork v.ongoing c.pc) :
    readWorkAt v' t + ReadAct.cost t a ≤ readWorkAt v t + ReadAct.gain t a := by
  refine Nat.le_trans ?_ (Nat.le_add_right _ _)
  unfold readWorkAt
  rw [hcost]
  by_cases hut : u = t
  · subst hut
    simp only [hcall,hc,Function.update_self,Option.elim_some,if_true]
    exact hless
  · simp only [hcall,Function.update_of_ne (Ne.symm hut),if_neg hut,Nat.add_zero]
    cases v.call t with
    | none => exact Nat.le_refl _
    | some d =>
        simp only [Option.elim_some]
        rcases hon with he | he
        · rw [he]
        · rw [he]
          exact readWork_set v.ongoing d.pc

theorem readWorkAt_step (hs : ReadHalf.Step v a v') (t : ℕ) :
    readWorkAt v' t + ReadAct.cost t a ≤ readWorkAt v t + ReadAct.gain t a := by
  cases hs with
  | begins u filp count ppos hidle =>
      unfold readWorkAt
      by_cases hut : u = t
      · subst hut
        simp only [ReadHalf.put_call,ReadHalf.put_ongoing,Function.update_self,Option.elim_some,
          ReadAct.cost,ReadAct.gain,if_true]
        have hle := readWork_le v.ongoing (ReadCall.start v.reads filp count ppos).pc
        omega
      · simp [Ne.symm hut,ReadAct.cost]
  | seesOngoing hc hpc hon | sleeps hc hpc hon =>
      exact readWorkAt_call hc rfl (.inl rfl) rfl (by simp [hpc,hon,readWork])
  | seesQuiet hc hpc hon | waitEnds hc hpc hon =>
      exact readWorkAt_call hc rfl (.inl rfl) rfl (by simp [hpc,hon,readWork])
  | seesData hc hpc | seesEmpty hc hpc | copies hc hpc | advances hc hpc | computes hc hpc
  | clears hc hpc | fills hc hpc | submits hc hpc | refused hc hpc =>
      exact readWorkAt_call hc rfl (.inl rfl) rfl (by simp [hpc,readWork])
  | sets hc hpc => exact readWorkAt_call hc rfl (.inr rfl) rfl (by simp [hpc,readWork])
  | interrupted hc hpc hon =>
      refine readWorkAt_call hc rfl (.inl rfl) rfl ?_
      rcases hpc with hpc | hpc <;> simp [hpc,hon,readWork]
  | signalLate hc hpc hon =>
      refine readWorkAt_call hc rfl (.inl rfl) rfl ?_
      rcases hpc with hpc | hpc <;> simp [hpc,hon,readWork]
  | @returns u k c hc hpc =>
      unfold readWorkAt
      by_cases hut : u = t
      · subst hut
        simp [hc,ReadAct.cost,hpc,readWork]
      · simp [Ne.symm hut,ReadAct.cost,hut]
  | completes =>
      unfold readWorkAt
      cases hc : v.call t with
      | none =>
          simp only [hc,Option.map_none,Option.elim_none,ReadAct.cost]
          exact Nat.zero_le _
      | some c =>
          simp only [hc,Option.map_some,Option.elim_some]
          exact readWork_wake v.ongoing c
  | opensLen => exact Nat.le_refl _
  | opensOngoing =>
      unfold readWorkAt
      cases v.call t with
      | none => simp [ReadAct.cost]
      | some c => simpa [ReadAct.cost,ReadAct.gain] using readWork_cleared v.ongoing c.pc

end Read

section Write
variable {v v' : WriteHalf} {a : WriteAct}

def WriteAct.cost (t : ℕ) : WriteAct → ℕ
  | .run u _ | .signal u => if u = t then 1 else 0
  | _ => 0

def WriteAct.gain (t : ℕ) : WriteAct → ℕ
  | .begin u _ _ => if u = t then 9 else 0
  | .completes .. => 7
  | _ => 0

theorem writeWorkAt_call {u t : ℕ} {c c' : WriteCall} (hc : v.call u = some c)
    (hcall : v'.call = Function.update v.call u (some c'))
    (hcost : WriteAct.cost t a = if u = t then 1 else 0)
    (hless : writeWork c'.pc < writeWork c.pc) :
    writeWorkAt v' t + WriteAct.cost t a ≤ writeWorkAt v t + WriteAct.gain t a := by
  refine Nat.le_trans ?_ (Nat.le_add_right _ _)
  unfold writeWorkAt
  rw [hcost]
  by_cases hut : u = t
  · subst hut
    simp only [hcall,hc,Function.update_self,Option.elim_some,if_true]
    exact hless
  · simp only [hcall,Function.update_of_ne (Ne.symm hut),if_neg hut,Nat.add_zero]
    exact Nat.le_refl _

theorem writeWorkAt_step (hs : WriteHalf.Step v a v') (t : ℕ) :
    writeWorkAt v' t + WriteAct.cost t a ≤ writeWorkAt v t + WriteAct.gain t a := by
  cases hs with
  | begins u filp payload hidle =>
      unfold writeWorkAt
      by_cases hut : u = t
      · subst hut
        simp [hidle,WriteCall.start,writeWork,WriteAct.cost,WriteAct.gain]
      · simp [Ne.symm hut,WriteAct.cost]
  | rejects hc hpc | accepts hc hpc | copies hc hpc | faults hc hpc | fills hc hpc | sets hc hpc
  | submits hc hpc | refused hc hpc | sleeps hc hpc | waitEnds hc hpc =>
      exact writeWorkAt_call hc rfl rfl (by simp [hpc,writeWork])
  | interrupted hc hpc | signalLate hc hpc =>
      refine writeWorkAt_call hc rfl rfl ?_
      rcases hpc with hpc | hpc <;> simp [hpc,writeWork]
  | @returns u k c hc hpc =>
      unfold writeWorkAt
      by_cases hut : u = t
      · subst hut
        simp [hc,WriteAct.cost,hpc,writeWork]
      · simp [Ne.symm hut,WriteAct.cost,hut]
  | completes =>
      unfold writeWorkAt
      cases hc : v.call t with
      | none =>
          simp only [hc,Option.map_none,Option.elim_none,WriteAct.cost]
          exact Nat.zero_le _
      | some c =>
          simp only [hc,Option.map_some,Option.elim_some]
          exact writeWork_wake c
  | takes => exact Nat.le_refl _
  | opens => exact Nat.le_refl _

end Write

/-- What a label brings to a thread. -/
def gain (t : ℕ) (l : Label) : ℕ :=
  (if startsOn t l then 9 else 0) + (if refills l then 7 else 0)

/-- The halves of a label: what it costs and brings is what its moves do. -/
theorem work_step {s s' : Device} {l : Label} (hs : step s l = some s') (t : ℕ) :
    work t s' + (if ownOf t l then 1 else 0) ≤ work t s + gain t l := by
  have hread := step_readHalf hs
  have hwrite := step_writeHalf hs
  -- a label that moves one half leaves the other as it is
  have readMove {a : ReadAct} (ha : readAct s l = some a) (hw : writeAct s l = none)
      (hcost : ReadAct.cost t a = if ownOf t l then 1 else 0)
      (hgain : ReadAct.gain t a ≤ gain t l) :
      work t s' + (if ownOf t l then 1 else 0) ≤ work t s + gain t l := by
    simp only [ha] at hread
    simp only [hw] at hwrite
    have hstep := readWorkAt_step hread t
    simp only [work,hwrite]
    omega
  have writeMove {a : WriteAct} (ha : writeAct s l = some a) (hr : readAct s l = none)
      (hcost : WriteAct.cost t a = if ownOf t l then 1 else 0)
      (hgain : WriteAct.gain t a ≤ gain t l) :
      work t s' + (if ownOf t l then 1 else 0) ≤ work t s + gain t l := by
    simp only [ha] at hwrite
    simp only [hr] at hread
    have hstep := writeWorkAt_step hwrite t
    simp only [work,hread]
    omega
  cases l with
  | beginRead u filp count ppos =>
      exact readMove rfl rfl rfl (by simp [ReadAct.gain,gain,startsOn,begins,refills])
  | beginWrite u filp payload =>
      exact writeMove rfl rfl rfl (by simp [WriteAct.gain,gain,startsOn,begins,refills])
  | openWrite w =>
      cases w with
      | lenInBuffer => exact readMove rfl rfl rfl (Nat.zero_le _)
      | ongoingRead => exact readMove rfl rfl rfl (by simp [ReadAct.gain,gain,refills])
      | outgoingWrite => exact writeMove rfl rfl rfl (Nat.zero_le _)
  | run u k =>
      have hcost : (if u = t then 1 else 0) = if (u == t) = true then 1 else 0 := by simp
      cases hj : s.job u with
      | idle => simp [step,hj] at hs
      | reading c =>
          exact readMove (a := .run u k) (by simp [readAct,hj,readCall?])
            (by simp [writeAct,hj,writeCall?]) hcost (Nat.zero_le _)
      | writing c =>
          exact writeMove (a := .run u k) (by simp [writeAct,hj,writeCall?])
            (by simp [readAct,hj,readCall?]) hcost (Nat.zero_le _)
  | signal u =>
      have hcost : (if u = t then 1 else 0) = if (u == t) = true then 1 else 0 := by simp
      cases hj : s.job u with
      | idle => simp [step,hj] at hs
      | reading c =>
          exact readMove (a := .signal u) (by simp [readAct,hj,readCall?])
            (by simp [writeAct,hj,writeCall?]) hcost (Nat.zero_le _)
      | writing c =>
          exact writeMove (a := .signal u) (by simp [writeAct,hj,writeCall?])
            (by simp [readAct,hj,readCall?]) hcost (Nat.zero_le _)
  | inCompletes status packet =>
      exact readMove rfl rfl rfl (by simp [ReadAct.gain,gain,refills])
  | outTakes => exact writeMove rfl rfl rfl (Nat.zero_le _)
  | outCompletes status n =>
      exact writeMove rfl rfl rfl (by simp [WriteAct.gain,gain,refills])

theorem work_idle {s : Device} {t : ℕ} (h : s.job t = .idle) : work t s = 0 := by
  obtain ⟨hr,hw⟩ := idle_iff.mp h
  simp [work,readWorkAt,writeWorkAt,hr,hw]

/-- A thread is inside one call only. -/
theorem work_le (t : ℕ) (s : Device) : work t s ≤ 9 := by
  cases hj : s.job t with
  | idle => simp [work_idle hj]
  | reading c =>
      simpa [work,readWorkAt,writeWorkAt,readHalf,writeHalf,hj,readCall?,writeCall?] using
        readWork_le s.nr.ongoingRead c.pc
  | writing c =>
      have hle := writeWork_le c.pc
      simp only [work,readWorkAt,writeWorkAt,readHalf,writeHalf,hj,readCall?,writeCall?,
        Option.elim_none,Option.elim_some]
      omega

theorem sum_gain (t : ℕ) (ls : List Label) :
    (ls.map (gain t)).sum = 9 * ls.countP (startsOn t) + 7 * ls.countP refills := by
  change (ls.map fun l => (if startsOn t l then 9 else 0) + (if refills l then 7 else 0)).sum = _
  rw [List.sum_map_add,sum_worth,sum_worth]

/-- Over any run, a thread executes no more statements than its calls and the
completions and opens of the run pay for. -/
theorem statements_bounded {s s' : Device} {ls : List Label} {t : ℕ} (hidle : s.job t = .idle)
    (hrun : run step s ls = some s') :
    ls.countP (ownOf t) ≤ 9 * ls.countP (startsOn t) + 7 * ls.countP refills := by
  have hstep (s : Device) (l : Label) (u : Device) (_ : True) (hs : step s l = some u) :
      work t u + (if ownOf t l then 1 else 0) ≤ work t s + gain t l := work_step hs t
  have hcost := run_cost (P := fun _ _ => True) hstep (.labels (fun _ _ => trivial) s) hrun
  simp only [sum_gain,sum_worth,work_idle hidle] at hcost
  omega

/-- A statement of a call or a signal. -/
def own : Label → Bool
  | .run .. | .signal _ => true
  | _ => false

theorem own_enabled {s : Device} {t : ℕ} (h : s.job t ≠ .idle) :
    ∃ l, own l = true ∧ step s l ≠ none := by
  cases hj : s.job t with
  | idle => exact (h hj).elim
  | reading c =>
      by_cases hpc : c.pc = .asleep
      · refine ⟨.signal t,rfl,?_⟩
        by_cases hon : s.nr.ongoingRead = true <;> simp [step,hj,readSignal,hpc,hon]
      · refine ⟨.run t 0,rfl,?_⟩
        simp only [step,hj,runRead,readStep]
        cases hp : c.pc <;> simp_all
        split_ifs <;> simp
  | writing c =>
      by_cases hpc : c.pc = .asleep
      · refine ⟨.signal t,rfl,?_⟩
        by_cases hout : s.nr.outgoingWrite = true <;> simp [step,hj,writeSignal,hpc,hout]
      · refine ⟨.run t 0,rfl,?_⟩
        simp only [step,hj,runWrite,writeStep]
        cases hp : c.pc <;> simp_all
        all_goals split_ifs <;> simp

/-- Statements and signals alone come to an end after at most nine for each
thread, and then every call has returned. -/
theorem calls_end {n : ℕ} {s s' : Device} {ls : List Label}
    (hs : ∀ t, n ≤ t → s.job t = .idle) (hown : ∀ l ∈ ls, own l = true)
    (hrun : run step s ls = some s') :
    ls.length ≤ 9 * n ∧ ((∀ l, own l = true → step s' l = none) → ∀ t, s'.job t = .idle) := by
  have hquiet {l : Label} (hl : own l = true) (t : ℕ) : gain t l = 0 ∧ begins l ≠ some t := by
    cases l with
    | run u k => exact ⟨rfl,by simp [begins]⟩
    | signal u => exact ⟨rfl,by simp [begins]⟩
    | _ => cases hl
  have hidle : Along step (fun s l => own l = true ∧ ∀ t, n ≤ t → s.job t = .idle) s ls :=
    along_invariant (I := fun s => ∀ t, n ≤ t → s.job t = .idle)
      (fun s l u hI hl hs t ht => step_idle hs (hI t ht) (hquiet hl t).2)
      (fun s l hI hl => ⟨hl,hI⟩) hs (.labels hown s)
  constructor
  · have hlen := run_length_le (φ := work) (Finset.range n)
      (fun t s l u hP hs => ?_) (fun s l u hP hs => ?_) hidle hrun
    · have hsum : ∑ t ∈ Finset.range n, work t s ≤ ∑ _t ∈ Finset.range n, 9 :=
        Finset.sum_le_sum fun t _ => work_le t s
      simp only [Finset.sum_const,Finset.card_range,smul_eq_mul] at hsum
      omega
    · have hstep := work_step hs t
      have hgain := (hquiet hP.1 t).1
      omega
    · have taken (t : ℕ) (ht : ownOf t l = true) (hbusy : s.job t ≠ .idle) :
          ∃ t ∈ Finset.range n, work t u < work t s := by
        have hstep := work_step hs t
        have hgain := (hquiet hP.1 t).1
        rw [if_pos ht] at hstep
        refine ⟨t,Finset.mem_range.mpr ?_,by omega⟩
        by_contra hlt
        exact hbusy (hP.2 t (Nat.le_of_not_lt hlt))
      cases l with
      | run t k => exact taken t (by simp [ownOf]) fun hj => by simp [step,hj] at hs
      | signal t => exact taken t (by simp [ownOf]) fun hj => by simp [step,hj] at hs
      | _ => cases hP.1
  · intro hstuck t
    by_contra hbusy
    obtain ⟨l,hl,hsome⟩ := own_enabled hbusy
    exact hsome (hstuck l hl)

/-- A reader that goes to sleep, is woken by an empty packet and sleeps again,
and a writer that waits for its transfer. -/
def readerAndWriter : List Label :=
  [.beginRead 0 0 64 0,.run 0 0,.run 0 0,.run 0 0,.run 0 0,.run 0 0,.run 0 0,.run 0 0,
    .inCompletes 0 [],.run 0 0,.run 0 0,.run 0 0,.run 0 0,.run 0 0,.run 0 0,.run 0 0,
    .beginWrite 1 0 [1],.run 1 0,.run 1 0,.run 1 0,.run 1 0,.run 1 0]

/-- The signals that end both. -/
def bothSignalled : List Label := [.signal 0,.run 1 0,.run 0 0,.signal 1,.run 1 0]

theorem reader_statements_bounded :
    ∃ s ∈ run step canDevice readerAndWriter, readerAt s 0 = some .asleep ∧
      readerAndWriter.countP (ownOf 0) ≤
        9 * readerAndWriter.countP (startsOn 0) + 7 * readerAndWriter.countP refills := by
  obtain ⟨s,hs,hasleep⟩ : ∃ s ∈ run step canDevice readerAndWriter,
    readerAt s 0 = some .asleep := by decide
  exact ⟨s,hs,hasleep,statements_bounded rfl hs⟩

theorem signalled_calls_end :
    ∃ s ∈ run step canDevice readerAndWriter, ∃ u ∈ run step s bothSignalled,
      bothSignalled.length ≤ 9 * 2 ∧
        ((∀ l, own l = true → step u l = none) → ∀ t, u.job t = .idle) := by
  obtain ⟨s,hs,u,hu⟩ : ∃ s ∈ run step canDevice readerAndWriter,
    ∃ u ∈ run step s bothSignalled, True := by decide
  have hidle : ∀ t, 2 ≤ t → s.job t = .idle :=
    run_among (fun _ _ => rfl) (by decide) hs
  exact ⟨s,hs,u,hu.1,calls_end hidle (by decide) hu.1⟩

end NrDriver.BoundedWork
