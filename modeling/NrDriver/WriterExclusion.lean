import NrDriver.TransferBounds

/-!
# Writers and the one out transfer

`nr_write` copies into the out buffer, fills the out URB and submits it without
testing whether a transfer is under way. Everything below follows from where
the copies fall: on runs where `copy_from_user` runs only while the URB is not
in flight and no other call is between its own copy and its submission, one
call at a time owns the buffer and the URB (`Exclusive`), whatever the signals,
faults and refused submissions are.

With one writer this is the exclusion of the calls that signals cut short: the
transfer is used exclusively exactly if each copy finds it completed.
-/
namespace NrDriver.WriterExclusion
open KernelModel TransferSteps WriteHalfSteps TransferBounds LabelledRuns

/-- The statements of `nr_write` between its copy and its submission. -/
def holding : WritePc → Bool
  | .fill | .setOutgoing | .submit => true
  | _ => false

def waiting : WritePc → Bool
  | .testWait | .asleep => true
  | _ => false

structure Exclusive (v : WriteHalf) : Prop where
  one : ∀ t u c d, v.call t = some c → v.call u = some d →
    holding c.pc = true → holding d.pc = true → t = u
  grounded : ∀ t c, v.call t = some c → holding c.pc = true → v.urb.flight = none

namespace Exclusive
variable {v v' : WriteHalf} {a : WriteAct}

theorem of_call (h : Exclusive v) {t : ℕ} {b : Option WriteCall}
    (hcall : v'.call = Function.update v.call t b) (hf : v'.urb.flight = v.urb.flight)
    (hb : ∀ c', b = some c' → holding c'.pc = true →
      ∃ c, v.call t = some c ∧ holding c.pc = true) : Exclusive v' := by
  have back {u : ℕ} {d : WriteCall} (hd : v'.call u = some d) (hpd : holding d.pc = true) :
      ∃ c, v.call u = some c ∧ holding c.pc = true := by
    rw [hcall] at hd
    rcases update_some_cases hd with ⟨rfl,he⟩ | ⟨_,hold⟩
    · exact hb d he hpd
    · exact ⟨d,hold,hpd⟩
  refine ⟨?_,?_⟩
  · intro u w c d hc hd hpc hpd
    obtain ⟨c₀,hc₀,hp₀⟩ := back hc hpc
    obtain ⟨d₀,hd₀,hq₀⟩ := back hd hpd
    exact h.one u w c₀ d₀ hc₀ hd₀ hp₀ hq₀
  · intro u c hc hpc
    obtain ⟨c₀,hc₀,hp₀⟩ := back hc hpc
    rw [hf]
    exact h.grounded u c₀ hc₀ hp₀

/-- The copy of `t` finds the URB out of flight and nobody holding. -/
def Clear (v : WriteHalf) (t : ℕ) : Prop :=
  v.urb.flight = none ∧ ∀ u c, u ≠ t → v.call u = some c → holding c.pc = false

theorem step (h : Exclusive v)
    (hclear : ∀ t k c, a = .run t k → v.call t = some c → c.pc = .copy → Clear v t)
    (hs : WriteHalf.Step v a v') : Exclusive v' := by
  cases hs with
  | begins => exact h.of_call rfl rfl (by simp [WriteCall.start,holding])
  | rejects | accepts | faults | refused | sleeps | waitEnds | interrupted | signalLate =>
      exact h.of_call rfl rfl (by simp [holding])
  | returns => exact h.of_call rfl rfl (by simp)
  | fills hc hpc | sets hc hpc =>
      exact h.of_call rfl rfl fun _ _ _ => ⟨_,hc,by simp [hpc,holding]⟩
  | @copies t c hc hpc =>
      obtain ⟨hf,hothers⟩ := hclear t 0 c rfl hc hpc
      have only {u : ℕ} {d : WriteCall}
          (hd : Function.update v.call t (some { c with pc := .fill }) u = some d)
          (hpd : holding d.pc = true) : u = t := by
        rcases update_some_cases hd with ⟨rfl,_⟩ | ⟨hu,hold⟩
        · rfl
        · simp [hothers u d hu hold] at hpd
      exact ⟨fun u w _ _ hc hd hpc hpd => (only hc hpc).trans (only hd hpd).symm,
        fun _ _ _ _ => hf⟩
  | @submits t c hc hpc hf =>
      have none_holds {u : ℕ} {d : WriteCall}
          (hd : Function.update v.call t (some { c with retval := 0, pc := .testWait }) u =
            some d) :
          holding d.pc = false := by
        rcases update_some_cases hd with ⟨_,he⟩ | ⟨hu,hold⟩
        · cases he
          rfl
        · by_contra hpd
          exact hu (h.one u t d c hold hc (by simpa using hpd) (by simp [hpc,holding]))
      refine ⟨fun u w _ _ hd _ hpd => ?_,fun u _ hd hpd => ?_⟩
      · simp [none_holds hd] at hpd
      · simp [none_holds hd] at hpd
  | @takes f hf =>
      refine ⟨h.one,fun t c hc hpc => ?_⟩
      simp [h.grounded t c hc hpc] at hf
  | completes status hf hlen =>
      have back {u : ℕ} {d : WriteCall} (hd : (v.call u).map WriteCall.wake = some d)
          (hpd : holding d.pc = true) : ∃ c, v.call u = some c ∧ holding c.pc = true := by
        obtain ⟨c,hc,rfl⟩ := Option.map_eq_some_iff.mp hd
        rcases WriteCall.wake_cases c with ⟨_,he⟩ | ⟨_,he⟩
        · simp [he,holding] at hpd
        · exact ⟨c,hc,by rwa [he] at hpd⟩
      refine ⟨fun u w c d hc hd hpc hpd => ?_,fun _ _ _ _ => rfl⟩
      obtain ⟨c₀,hc₀,hp₀⟩ := back hc hpc
      obtain ⟨d₀,hd₀,hq₀⟩ := back hd hpd
      exact h.one u w c₀ d₀ hc₀ hd₀ hp₀ hq₀
  | opens => exact ⟨h.one,h.grounded⟩

end Exclusive

/-- No call reaches `copy_from_user` while the URB is in flight, whether another
call waits for it or a signal has cut its call short. -/
def LandedAtCopy (s : Device) : Label → Prop
  | .run t _ => writerAt s t = some .copy → s.nr.intOutUrb.flight = none
  | _ => True

/-- The thread `u` is not between its copy and its submission when another one
copies. -/
def SparedHold (s : Device) (l : Label) (u : ℕ) : Prop :=
  match l with
  | .run t _ => writerAt s t = some .copy → u ≠ t → ∀ pc ∈ writerAt s u, holding pc = false
  | _ => True

/-- `copy_from_user` runs only while the URB is not in flight and no other call
is between its copy and its submission. -/
def CopyClear (s : Device) (l : Label) : Prop := LandedAtCopy s l ∧ ∀ u, SparedHold s l u

instance (s : Device) (l : Label) : Decidable (LandedAtCopy s l) :=
  match l with
  | .run .. => inferInstanceAs (Decidable (_ → _))
  | .beginRead .. | .beginWrite .. | .openWrite _ | .signal _ | .inCompletes .. | .outTakes
  | .outCompletes .. => isTrue trivial

instance (s : Device) (l : Label) (u : ℕ) : Decidable (SparedHold s l u) :=
  match l with
  | .run .. => inferInstanceAs (Decidable (_ → _))
  | .beginRead .. | .beginWrite .. | .openWrite _ | .signal _ | .inCompletes .. | .outTakes
  | .outCompletes .. => isTrue trivial

theorem clear_of_copyClear {s : Device} {l : Label} {a : WriteAct} (hP : CopyClear s l)
    (ha : writeAct s l = some a) :
    ∀ t k c, a = .run t k → (writeHalf s).call t = some c → c.pc = .copy →
      Exclusive.Clear (writeHalf s) t := by
  intro t k c hact hc hpc
  subst hact
  obtain rfl : l = .run t k := label_of_writeAct ha
  have hat : writerAt s t = some .copy := by rw [writerAt_of_call hc,hpc]
  exact ⟨hP.1 hat,fun u d hu hd => hP.2 u hat hu d.pc (writerAt_of_call hd)⟩

theorem exclusive_step {s s' : Device} {l : Label} (h : Exclusive (writeHalf s))
    (hP : CopyClear s l) (hs : step s l = some s') : Exclusive (writeHalf s') :=
  writeHalf_kept h hs fun _ ha hw => h.step (clear_of_copyClear hP ha) hw

theorem exclusive_opened (epIn epOut : EndpointDescriptor) (memIn memOut : ℕ → Byte) :
    Exclusive (writeHalf (Device.opened epIn epOut memIn memOut)) :=
  ⟨fun _ _ _ _ hc => (by cases hc),fun _ _ hc => (by cases hc)⟩

/-- Only thread `w` writes and nothing opens the device again. -/
def oneWriter (w : ℕ) : Label → Bool
  | .beginWrite t _ _ => t == w
  | .openWrite _ => false
  | _ => true

/-- No step of `nr_write` changes the out buffer, fills the out URB or submits
it while it is in flight. -/
def OutUntouched (s : Device) : Label → Prop
  | .run t _ => writerAt s t = some .copy ∨ writerAt s t = some .fill ∨
      writerAt s t = some .submit → s.nr.intOutUrb.flight = none
  | _ => True

instance (s : Device) (l : Label) : Decidable (OutUntouched s l) :=
  match l with
  | .run .. => inferInstanceAs (Decidable (_ → _))
  | .beginRead .. | .beginWrite .. | .openWrite _ | .signal _ | .inCompletes .. | .outTakes
  | .outCompletes .. => isTrue trivial

/-- The writer is the only thread inside `nr_write`. -/
def SoleWriter (w : ℕ) (v : WriteHalf) : Prop := ∀ t, t ≠ w → v.call t = none

theorem SoleWriter.step {w : ℕ} {v v' : WriteHalf} {a : WriteAct} (h : SoleWriter w v)
    (hbegin : ∀ t filp payload, a = .begin t filp payload → t = w)
    (hs : WriteHalf.Step v a v') : SoleWriter w v' := by
  intro t ht
  apply hs.idle (h t ht)
  intro filp payload hact
  exact ht (hbegin t filp payload hact)

theorem soleWriter_step {w : ℕ} {s s' : Device} {l : Label} (h : SoleWriter w (writeHalf s))
    (hl : oneWriter w l = true) (hs : step s l = some s') : SoleWriter w (writeHalf s') := by
  refine writeHalf_kept h hs fun a ha hw => h.step ?_ hw
  intro t filp payload hact
  subst hact
  obtain rfl : l = .beginWrite t filp payload := label_of_writeAct ha
  simpa [oneWriter] using hl

section OneWriter
variable (epIn epOut : EndpointDescriptor) (memIn memOut : ℕ → Byte) (w : ℕ)

theorem copyClear_of_oneWriter {ls : List Label} (hone : ∀ l ∈ ls, oneWriter w l = true)
    (h : Along step LandedAtCopy (.opened epIn epOut memIn memOut) ls) :
    Along step CopyClear (.opened epIn epOut memIn memOut) ls := by
  refine along_invariant (I := fun s => SoleWriter w (writeHalf s))
    (P := fun s l => oneWriter w l = true ∧ LandedAtCopy s l)
    (fun s l u hI hP hs => soleWriter_step hI hP.1 hs) ?_ (fun _ _ => rfl)
    (.labels_and hone h)
  intro s l hS hP
  have only {u : ℕ} {pc : WritePc} (hu : writerAt s u = some pc) : u = w := by
    obtain ⟨c,hc,_⟩ := call_of_writerAt hu
    by_contra hne
    simp [hS u hne] at hc
  cases l with
  | run t k => exact ⟨hP.2,fun u ht hu pc hpc => (hu ((only hpc).trans (only ht).symm)).elim⟩
  | _ => exact ⟨trivial,fun _ => trivial⟩

/-- With one writer the out transfer is used exclusively exactly on the runs
where each copy finds the URB of every earlier call completed. -/
theorem out_transfer_exclusive_iff {ls : List Label} (hone : ∀ l ∈ ls, oneWriter w l = true) :
    Along step OutUntouched (.opened epIn epOut memIn memOut) ls ↔
      Along step LandedAtCopy (.opened epIn epOut memIn memOut) ls := by
  constructor
  · refine Along.imp fun s l h => ?_
    cases l with
    | run t k => exact fun ht => h (.inl ht)
    | _ => trivial
  · intro h
    have hclear := copyClear_of_oneWriter epIn epOut memIn memOut w hone h
    refine along_invariant (I := fun s => Exclusive (writeHalf s))
      (fun s l u hI hP hs => exclusive_step hI hP hs) ?_
      (exclusive_opened epIn epOut memIn memOut) hclear
    intro s l hI hP
    cases l with
    | run t k =>
        intro hat
        rcases hat with ht | ht | ht
        · exact hP.1 ht
        all_goals
          obtain ⟨c,hc,hpc⟩ := call_of_writerAt ht
          exact hI.grounded t c hc (by simp [hpc,holding])
    | _ => trivial

end OneWriter

/-- A write that a signal ends, whose URB completes before the next write. -/
def signalThenLanding : List Label :=
  [.beginWrite 0 0 [1],.run 0 0,.run 0 0,.run 0 0,.run 0 0,.run 0 0,.run 0 0,.signal 0,.run 0 0,
    .beginWrite 0 0 [2],.run 0 0,.outTakes,.outCompletes 0 1,.run 0 0,.run 0 0,.run 0 0,.run 0 0]

theorem signal_then_landing_exclusive : Along step OutUntouched canDevice signalThenLanding :=
  (out_transfer_exclusive_iff canIn canOut (fun _ => 0) (fun _ => 0) 0 (by decide)).mpr (by decide)

/-- The same write, and the next one copies before the URB completes. -/
def signalThenCopy : List Label :=
  [.beginWrite 0 0 [1],.run 0 0,.run 0 0,.run 0 0,.run 0 0,.run 0 0,.run 0 0,.signal 0,.run 0 0,
    .beginWrite 0 0 [2],.run 0 0,.run 0 0]

/-- The second write changes the buffer while the URB of the first is in flight. -/
theorem signal_then_copy_not_exclusive :
    (∀ l ∈ signalThenCopy, oneWriter 0 l = true) ∧
      ¬ Along step OutUntouched canDevice signalThenCopy ∧
      ∃ s ∈ run step canDevice signalThenCopy,
        s.nr.intOutUrb.flight = some ⟨1,0,[1],[]⟩ ∧ s.nr.intOutBuffer.get 1 = [2] := by
  decide

end NrDriver.WriterExclusion
