import NrDriver.IdleThreads
import NrDriver.SingleReader

/-!
# The in URB and its flag

`nr_read` tests `ongoing_read` before it goes on to the submission and sets it
only afterwards, so the flag does not tell a second reader that the URB has just
been submitted, nor that another call is about to. What keeps the URB from being
filled or submitted in flight is the schedule: a reader that turns to the
submission finds it out of flight, and a submission is accepted only while no
other reader has turned to one. Signals, refused submissions, opens and
completions of any length are unrestricted.

With one reader the schedule is always of this kind, whatever the signals and
completions are.
-/
namespace NrDriver.ReadGuard
open KernelModel TransferSteps ReadHalfSteps SingleReader IdleThreads LabelledRuns

/-- The statements of `nr_read` between the test of the length and the end of
the submission. -/
def preparing : ReadPc → Bool
  | .fill | .submit => true
  | _ => false

/-- No statement of `nr_read` fills or submits the in URB while it is in flight. -/
def InUntouched (s : Device) : Label → Prop
  | .run t _ => readerAt s t = some .fill ∨ readerAt s t = some .submit →
      s.nr.intInUrb.flight = none
  | _ => True

/-- A reader that finds no data, and therefore turns to the submission, does so
while the URB is not in flight. -/
def TurnsGrounded (s : Device) : Label → Prop
  | .run t _ => readerAt s t = some .testLen → s.nr.lenInBuffer = 0 →
      s.nr.intInUrb.flight = none
  | _ => True

/-- The thread `u` has not turned to a submission when the one of another
thread is accepted. -/
def SparedSubmission (s : Device) (l : Label) (u : ℕ) : Prop :=
  match l with
  | .run t k => readerAt s t = some .submit ∧ k = 0 ∧ s.nr.intInUrb.flight = none → u ≠ t →
      ∀ pc ∈ readerAt s u, preparing pc = false
  | _ => True

/-- No submission is accepted while another reader has turned to one. -/
def SubmitsAlone (s : Device) (l : Label) : Prop := ∀ u, SparedSubmission s l u

instance (s : Device) (l : Label) : Decidable (InUntouched s l) :=
  match l with
  | .run .. => inferInstanceAs (Decidable (_ → _))
  | .beginRead .. | .beginWrite .. | .openWrite _ | .signal _ | .inCompletes .. | .outTakes
  | .outCompletes .. => isTrue trivial

instance (s : Device) (l : Label) : Decidable (TurnsGrounded s l) :=
  match l with
  | .run .. => inferInstanceAs (Decidable (_ → _ → _))
  | .beginRead .. | .beginWrite .. | .openWrite _ | .signal _ | .inCompletes .. | .outTakes
  | .outCompletes .. => isTrue trivial

instance (s : Device) (l : Label) (u : ℕ) : Decidable (SparedSubmission s l u) :=
  match l with
  | .run .. => inferInstanceAs (Decidable (_ → _ → _))
  | .beginRead .. | .beginWrite .. | .openWrite _ | .signal _ | .inCompletes .. | .outTakes
  | .outCompletes .. => isTrue trivial

/-- A reader that has turned to the submission has the URB out of flight. -/
def Prepared (v : ReadHalf) : Prop :=
  ∀ t c, v.call t = some c → preparing c.pc = true → v.urb.flight = none

namespace Prepared
variable {v v' : ReadHalf} {a : ReadAct}

theorem of_call (h : Prepared v) {t : ℕ} {b : Option ReadCall}
    (hcall : v'.call = Function.update v.call t b) (hf : v'.urb.flight = v.urb.flight)
    (hb : ∀ c', b = some c' → preparing c'.pc = true → v.urb.flight = none) : Prepared v' := by
  rw [Prepared,hcall,hf]
  exact forall_update h hb

theorem step (h : Prepared v)
    (hturn : ∀ t k c, a = .run t k → v.call t = some c → c.pc = .testLen → v.len = 0 →
      v.urb.flight = none)
    (halone : ∀ t c, a = .run t 0 → v.call t = some c → c.pc = .submit → v.urb.flight = none →
      ∀ u d, u ≠ t → v.call u = some d → preparing d.pc = false)
    (hs : ReadHalf.Step v a v') : Prepared v' := by
  cases hs with
  | begins => exact h.of_call rfl rfl (by simp [ReadCall.start,preparing])
  | seesOngoing | seesQuiet | sleeps | waitEnds | seesData | copies | advances | computes | clears
  | refused | sets | interrupted | signalLate =>
      exact h.of_call rfl rfl (by simp [preparing])
  | returns => exact h.of_call rfl rfl (by simp)
  | seesEmpty hc hpc hzero =>
      have hf := hturn _ _ _ rfl hc hpc hzero
      exact h.of_call rfl rfl fun _ _ _ => hf
  | fills hc hpc =>
      have hf := h _ _ hc (by simp [hpc,preparing])
      exact h.of_call rfl rfl fun _ _ _ => hf
  | @submits t c hc hpc hf =>
      intro u d hd hpd
      rcases update_some_cases hd with ⟨_,hnew⟩ | ⟨hu,hold⟩
      · cases hnew
        simp [preparing] at hpd
      · simp [halone t c rfl hc hpc hf u d hu hold] at hpd
  | completes => exact fun _ _ _ _ => rfl
  | opensLen => exact h
  | opensOngoing => exact h

end Prepared

theorem prepared_step {s s' : Device} {l : Label} (h : Prepared (readHalf s))
    (hturn : TurnsGrounded s l) (halone : SubmitsAlone s l) (hs : step s l = some s') :
    Prepared (readHalf s') := by
  refine readHalf_kept h hs fun a ha hr => h.step ?_ ?_ hr
  · intro t k c hact hc hpc hzero
    subst hact
    obtain rfl : l = .run t k := label_of_readAct ha
    apply hturn _ hzero
    rw [readerAt_of_call hc,hpc]
  · intro t c hact hc hpc hf u d hu hd
    subst hact
    obtain rfl : l = .run t 0 := label_of_readAct ha
    have hsub : readerAt s t = some .submit := by rw [readerAt_of_call hc,hpc]
    exact halone u ⟨hsub,rfl,hf⟩ hu d.pc (readerAt_of_call hd)

section Runs
variable (epIn epOut : EndpointDescriptor) (memIn memOut : ℕ → Byte)

theorem guarded_of_oneReader (r : ℕ) {ls : List Label} (hone : ∀ l ∈ ls, oneReader r l = true) :
    Along step TurnsGrounded (.opened epIn epOut memIn memOut) ls ∧
      Along step SubmitsAlone (.opened epIn epOut memIn memOut) ls := by
  have only {s : Device} (hS : Sole r (readHalf s)) {t : ℕ} {pc : ReadPc}
      (ht : readerAt s t = some pc) : t = r := by
    obtain ⟨c,hc,_⟩ := call_of_readerAt ht
    exact hS.thread hc
  constructor
  all_goals
    refine along_invariant (I := fun s => Sole r (readHalf s))
      (P := fun _ l => oneReader r l = true) (fun s l u hI hP hs => sole_step hI hP hs) ?_
      (sole_opened epIn epOut memIn memOut r) (.labels hone _)
    intro s l hS _
  · cases l with
    | run t k =>
        intro ht _
        obtain rfl := only hS ht
        obtain ⟨c,hc,hpc⟩ := call_of_readerAt ht
        exact hS.grounded hc (by simp [hpc,resting])
    | _ => trivial
  · intro u
    cases l with
    | run t k => exact fun ht hu pc hpc => (hu ((only hS hpc).trans (only hS ht.1).symm)).elim
    | _ => trivial

end Runs

/-- A second reader finds the flag of the first and waits for its transfer,
which is empty; the first reader submits again before the second one tests. -/
def readersInTurn : List Label :=
  [.beginRead 0 0 64 0,.run 0 0,.run 0 0,.run 0 0,.run 0 0,.run 0 0,
    .beginRead 1 1 64 0,.run 1 0,.run 1 0,.inCompletes 0 [],
    .run 0 0,.run 0 0,.run 0 0,.run 0 0,.run 0 0,.run 1 0]

/-- Both readers find the flag clear before either has submitted. -/
def readersTogether : List Label :=
  [.beginRead 0 0 64 0,.beginRead 1 1 64 0,.run 0 0,.run 0 0,.run 1 0,.run 1 0,
    .run 0 0,.run 0 0,.run 1 0,.run 1 0]

end NrDriver.ReadGuard
