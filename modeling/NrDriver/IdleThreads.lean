import NrDriver.ReadHalfSteps
import NrDriver.WriteHalfSteps

/-!
# Threads that make no call

A thread that is in no call stays so until a label begins one on it. Where a
condition on a step speaks of every other thread, only the threads that the run
has begun need to be looked at.
-/
namespace NrDriver.IdleThreads
open TransferSteps ReadHalfSteps WriteHalfSteps LabelledRuns

/-- The thread that enters a call. -/
def begins : Label → Option ℕ
  | .beginRead t _ _ _ => some t
  | .beginWrite t _ _ => some t
  | _ => none

/-- An assignment of an `nr_open`. -/
def opens : Label → Bool
  | .openWrite _ => true
  | _ => false

theorem idle_iff {s : Device} {t : ℕ} :
    s.job t = .idle ↔ (readHalf s).call t = none ∧ (writeHalf s).call t = none := by
  simp only [readHalf,writeHalf]
  cases s.job t <;> simp [readCall?,writeCall?]

theorem step_idle {s s' : Device} {l : Label} {t : ℕ} (hs : step s l = some s')
    (ht : s.job t = .idle) (hl : begins l ≠ some t) : s'.job t = .idle := by
  rw [idle_iff] at ht ⊢
  constructor
  · refine readHalf_kept (I := fun v => v.call t = none) ht.1 hs fun a ha hr => ?_
    refine hr.idle ht.1 fun filp count ppos hact => ?_
    subst hact
    exact hl (by rw [label_of_readAct ha]; rfl)
  · refine writeHalf_kept (I := fun v => v.call t = none) ht.2 hs fun a ha hw => ?_
    refine hw.idle ht.2 fun filp payload hact => ?_
    subst hact
    exact hl (by rw [label_of_writeAct ha]; rfl)

/-- Only the first `n` threads enter calls. -/
def among (n : ℕ) (l : Label) : Bool := (begins l).all (· < n)

theorem step_among {n : ℕ} {s s' : Device} {l : Label} (h : ∀ t, n ≤ t → s.job t = .idle)
    (hl : among n l = true) (hs : step s l = some s') : ∀ t, n ≤ t → s'.job t = .idle := by
  intro t ht
  refine step_idle hs (h t ht) fun hb => ?_
  simp only [among,hb,Option.all_some,decide_eq_true_eq] at hl
  omega

/-- A condition on every thread that an idle one meets holds along a run when
it holds for the threads of the run. -/
theorem along_among {C : Device → Label → ℕ → Prop} (hC : ∀ s l t, s.job t = .idle → C s l t)
    {n : ℕ} {s : Device} {ls : List Label} (hs : ∀ t, n ≤ t → s.job t = .idle)
    (hl : ∀ l ∈ ls, among n l = true)
    (h : Along step (fun s l => ∀ t < n, C s l t) s ls) :
    Along step (fun s l => ∀ t, C s l t) s ls := by
  refine along_invariant (I := fun s => ∀ t, n ≤ t → s.job t = .idle)
    (P := fun s l => among n l = true ∧ ∀ t < n, C s l t)
    (fun s l u hI hP hu => step_among hI hP.1 hu) ?_ hs (.labels_and hl h)
  intro s l hI hP t
  by_cases ht : t < n
  · exact hP.2 t ht
  · exact hC s l t (hI t (Nat.le_of_not_lt ht))

theorem run_among {n : ℕ} {s s' : Device} {ls : List Label} (hs : ∀ t, n ≤ t → s.job t = .idle)
    (hl : ∀ l ∈ ls, among n l = true) (hrun : run step s ls = some s') :
    ∀ t, n ≤ t → s'.job t = .idle :=
  run_invariant (fun _ _ _ hI hP hs => step_among hI hP hs) hs (.labels hl s) hrun

end NrDriver.IdleThreads
