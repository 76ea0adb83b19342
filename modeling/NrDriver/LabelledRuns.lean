import Mathlib.Data.List.Basic
import Mathlib.Logic.Function.Basic

/-!
# Runs of a labelled partial step function

A machine is a function `S → A → Option S`: the label says who moves and how
the environment answers, and `none` says that the move is not enabled. A run
is a list of labels. Two notions are used throughout: a state predicate kept
by every step, and a condition on the steps of a run, read in the state before
each step. The invariant rule joins them, since most invariants here hold only
on runs whose steps meet such a condition.
-/
namespace NrDriver.LabelledRuns

variable {S A T B : Type*}

/-- The state a list of labels leads to, if every label is enabled in turn. -/
def run (step : S → A → Option S) : S → List A → Option S
  | s, [] => some s
  | s, a :: as =>
      match step s a with
      | some u => run step u as
      | none => none

/-- The condition `P` is met at every step of the run, in the state before it. -/
def Along (step : S → A → Option S) (P : S → A → Prop) : S → List A → Prop
  | _, [] => True
  | s, a :: as => P s a ∧
      match step s a with
      | some u => Along step P u as
      | none => True

variable {step : S → A → Option S} {P Q : S → A → Prop}

instance Along.decidable [∀ s a, Decidable (P s a)] :
    ∀ (s : S) (as : List A), Decidable (Along step P s as)
  | _, [] => isTrue trivial
  | s, a :: as => by
      unfold Along
      cases step s a with
      | none => exact instDecidableAnd
      | some u =>
          have := Along.decidable u as
          exact instDecidableAnd

@[simp] theorem run_nil (s : S) : run step s [] = some s := rfl

theorem run_cons_some {s u : S} {a : A} (h : step s a = some u) (as : List A) :
    run step s (a :: as) = run step u as := by simp [run,h]

theorem run_cons {s v : S} {a : A} {as : List A} (h : run step s (a :: as) = some v) :
    ∃ u, step s a = some u ∧ run step u as = some v := by
  cases hs : step s a with
  | none => simp [run,hs] at h
  | some u => exact ⟨u,rfl,by rwa [run_cons_some hs] at h⟩

theorem run_singleton {s u : S} {a : A} (h : run step s [a] = some u) : step s a = some u := by
  obtain ⟨v,hs,hrest⟩ := run_cons h
  cases hrest
  exact hs

theorem run_append (s : S) (as bs : List A) :
    run step s (as ++ bs) = (run step s as).bind fun u => run step u bs := by
  induction as generalizing s with
  | nil => rfl
  | cons a as ih =>
      cases hs : step s a with
      | none => simp [run,hs]
      | some u => simp [run,hs,ih]

theorem Along.head {s : S} {a : A} {as : List A} (h : Along step P s (a :: as)) : P s a := h.1

theorem Along.tail {s u : S} {a : A} {as : List A} (h : Along step P s (a :: as))
    (hs : step s a = some u) : Along step P u as := by
  have h₂ := h.2
  rwa [hs] at h₂

theorem Along.cons {s : S} {a : A} {as : List A} (hP : P s a)
    (h : ∀ u, step s a = some u → Along step P u as) : Along step P s (a :: as) := by
  refine ⟨hP,?_⟩
  cases hs : step s a with
  | none => trivial
  | some u => exact h u hs

theorem Along.labels {p : A → Prop} {as : List A} (h : ∀ a ∈ as, p a) (s : S) :
    Along step (fun _ a => p a) s as := by
  induction as generalizing s with
  | nil => trivial
  | cons a as ih =>
      have hrest : ∀ b ∈ as, p b := fun b hb => h b (List.mem_cons_of_mem _ hb)
      exact .cons (h a (List.mem_cons_self ..)) fun u _ => ih hrest u

theorem Along.and {s : S} {as : List A} (hP : Along step P s as) (hQ : Along step Q s as) :
    Along step (fun s a => P s a ∧ Q s a) s as := by
  induction as generalizing s with
  | nil => trivial
  | cons a as ih =>
      exact .cons ⟨hP.head,hQ.head⟩ fun u hu => ih (hP.tail hu) (hQ.tail hu)

theorem Along.labels_and {p : A → Prop} {s : S} {as : List A} (h : ∀ a ∈ as, p a)
    (hP : Along step P s as) : Along step (fun s a => p a ∧ P s a) s as :=
  .and (.labels h s) hP

/-- The invariant rule: what one step preserves when it meets the condition,
a run preserves when all its steps do. -/
theorem run_invariant {I : S → Prop}
    (hstep : ∀ s a u, I s → P s a → step s a = some u → I u)
    {s v : S} {as : List A} (hI : I s) (hP : Along step P s as)
    (hrun : run step s as = some v) : I v := by
  induction as generalizing s with
  | nil => exact (Option.some.inj hrun) ▸ hI
  | cons a as ih =>
      obtain ⟨u,hs,hr⟩ := run_cons hrun
      exact ih (hstep s a u hI hP.head hs) (hP.tail hs) hr

theorem run_kept {I : S → Prop} (hstep : ∀ s a u, I s → step s a = some u → I u)
    {s v : S} {as : List A} (hI : I s) (hrun : run step s as = some v) : I v :=
  run_invariant (fun s a u h _ hs => hstep s a u h hs) hI (.labels (fun _ _ => trivial) s) hrun

/-- The same rule for a property of the steps: where the invariant and the
condition give `Q` at a step, they give it along the whole run. -/
theorem along_invariant {I : S → Prop}
    (hstep : ∀ s a u, I s → P s a → step s a = some u → I u)
    (hQ : ∀ s a, I s → P s a → Q s a)
    {s : S} {as : List A} (hI : I s) (hP : Along step P s as) : Along step Q s as := by
  induction as generalizing s with
  | nil => trivial
  | cons a as ih =>
      exact .cons (hQ s a hI hP.head) fun u hu => ih (hstep s a u hI hP.head hu) (hP.tail hu)

theorem Along.imp (hPQ : ∀ s a, P s a → Q s a) {s : S} {as : List A}
    (h : Along step P s as) : Along step Q s as :=
  along_invariant (I := fun _ => True) (fun _ _ _ _ _ _ => trivial)
    (fun s a _ hP => hPQ s a hP) trivial h

/-- The invariant rule for a predicate that also reads the labels so far. -/
theorem run_history {I : List A → S → Prop}
    (hstep : ∀ as s a u, I as s → P s a → step s a = some u → I (as ++ [a]) u)
    {past as : List A} {s v : S} (hI : I past s) (hP : Along step P s as)
    (hrun : run step s as = some v) : I (past ++ as) v := by
  induction as generalizing s past with
  | nil => simpa using (Option.some.inj hrun) ▸ hI
  | cons a as ih =>
      obtain ⟨u,hs,hr⟩ := run_cons hrun
      have hnext := ih (hstep past s a u hI hP.head hs) (hP.tail hs) hr
      rwa [List.append_assoc] at hnext

/-- A record kept beside a run, which each step extends from the state before it. -/
def recorded {H : Type*} (step : S → A → Option S) (note : H → S → A → H) : H → S → List A → H
  | h, _, [] => h
  | h, s, a :: as =>
      match step s a with
      | some u => recorded step note (note h s a) u as
      | none => h

theorem recorded_cons {H : Type*} {note : H → S → A → H} {s u : S} {a : A}
    (hs : step s a = some u) (h : H) (as : List A) :
    recorded step note h s (a :: as) = recorded step note (note h s a) u as := by
  simp [recorded,hs]

theorem recorded_snoc {H : Type*} {note : H → S → A → H} {h : H} {s u v : S} {a : A} {as : List A}
    (hrun : run step s as = some u) (hs : step u a = some v) :
    recorded step note h s (as ++ [a]) = note (recorded step note h s as) u a := by
  induction as generalizing h s with
  | nil =>
      cases hrun
      simp [recorded,hs]
  | cons b as ih =>
      obtain ⟨w,hw,hr⟩ := run_cons hrun
      rw [List.cons_append,recorded_cons hw,recorded_cons hw,ih hr]

/-- The invariant rule for a predicate of the record and the state. -/
theorem run_recorded {H : Type*} {note : H → S → A → H} {I : H → S → Prop}
    (hstep : ∀ h s a u, I h s → P s a → step s a = some u → I (note h s a) u)
    {h : H} {s v : S} {as : List A} (hI : I h s) (hP : Along step P s as)
    (hrun : run step s as = some v) : I (recorded step note h s as) v := by
  induction as generalizing h s with
  | nil => exact (Option.some.inj hrun) ▸ hI
  | cons a as ih =>
      obtain ⟨u,hs,hr⟩ := run_cons hrun
      rw [recorded_cons hs]
      exact ih (hstep h s a u hI hP.head hs) (hP.tail hs) hr

/-- A condition that is met at every step of the run and also reads the labels
still to come. -/
def Ahead (step : S → A → Option S) (Q : S → A → List A → Prop) : S → List A → Prop
  | _, [] => True
  | s, a :: as => Q s a as ∧
      match step s a with
      | some u => Ahead step Q u as
      | none => True

theorem ahead_cons {Q : S → A → List A → Prop} {s u : S} {a : A} {as : List A}
    (hs : step s a = some u) : Ahead step Q s (a :: as) ↔ Q s a as ∧ Ahead step Q u as := by
  simp [Ahead,hs]

/-- A view of the states that some labels move by themselves, as `after` says.
Where the view meets the end of the run exactly if a step meets its condition,
step by step, it does so exactly if the condition is met along the run. The
invariant `J` is kept on runs whose steps meet `P`. -/
theorem fold_iff_ahead {V : Type*} {view : S → V} {after : V → A → V} {J : S → Prop}
    {Q : S → A → List A → Prop}
    (hJ : ∀ s a u, J s → P s a → step s a = some u → J u)
    (hmakes : ∀ s a u as, J s → P s a → step s a = some u → Q s a as →
      as.foldl after (view u) = as.foldl after (after (view s) a))
    (hneeds : ∀ s a u as v, J s → P s a → step s a = some u → Along step P u as →
      run step u as = some v → view v = as.foldl after (after (view s) a) → Q s a as)
    {s v : S} {as : List A} (hs : J s) (hP : Along step P s as) (hrun : run step s as = some v) :
    view v = as.foldl after (view s) ↔ Ahead step Q s as := by
  induction as generalizing s with
  | nil =>
      obtain rfl : s = v := Option.some.inj hrun
      simp [Ahead]
  | cons a as ih =>
      obtain ⟨u,ha,hr⟩ := run_cons hrun
      have hrest := ih (hJ s a u hs hP.head ha) (hP.tail ha) hr
      rw [ahead_cons ha,← hrest,List.foldl_cons]
      constructor
      · intro hview
        have hQ := hneeds s a u as v hs hP.head ha (hP.tail ha) hr hview
        exact ⟨hQ,hview.trans (hmakes s a u as hs hP.head ha hQ).symm⟩
      · intro h
        exact h.2.trans (hmakes s a u as hs hP.head ha h.1)

/-- The predicate holds in every state the run goes through. -/
def Throughout (step : S → A → Option S) (I : S → Prop) (s : S) (as : List A) : Prop :=
  ∀ bs u, bs <+: as → run step s bs = some u → I u

theorem Throughout.start {I : S → Prop} {s : S} {as : List A} (h : Throughout step I s as) :
    I s := h [] s List.nil_prefix rfl

theorem Throughout.tail {I : S → Prop} {s u : S} {a : A} {as : List A}
    (h : Throughout step I s (a :: as)) (hs : step s a = some u) : Throughout step I u as := by
  intro bs v hbs hv
  apply h (a :: bs) v (List.cons_prefix_cons.mpr ⟨rfl,hbs⟩)
  rw [run_cons_some hs,hv]

/-- When a step leaves the predicate `I` exactly if the condition fails there,
a run stays in `I` exactly if the condition is met along it. The invariant `J`
needs no condition. -/
theorem throughout_iff_along {I J : S → Prop} (hJ : ∀ s a u, J s → step s a = some u → J u)
    (hstep : ∀ s a u, J s → I s → step s a = some u → (I u ↔ P s a))
    (hdead : ∀ s a, step s a = none → P s a) {s : S} {as : List A} (hs : J s) (hI : I s) :
    Throughout step I s as ↔ Along step P s as := by
  induction as generalizing s with
  | nil =>
      refine ⟨fun _ => trivial,fun _ bs u hbs hu => ?_⟩
      rw [List.prefix_nil.mp hbs] at hu
      exact (Option.some.inj hu) ▸ hI
  | cons a as ih =>
      constructor
      · intro h
        cases ha : step s a with
        | none => exact .cons (hdead s a ha) fun u hu => by simp [ha] at hu
        | some u =>
            have hIu : I u := (h.tail ha).start
            refine .cons ((hstep s a u hs hI ha).mp hIu) fun w hw => ?_
            obtain rfl : u = w := Option.some.inj (ha.symm.trans hw)
            exact (ih (hJ s a u hs ha) hIu).mp (h.tail ha)
      · intro h bs v hbs hv
        cases bs with
        | nil => exact (Option.some.inj hv) ▸ hI
        | cons b bs =>
            obtain ⟨rfl,hbs'⟩ := List.cons_prefix_cons.mp hbs
            obtain ⟨u,hu,hr⟩ := run_cons hv
            have hIu : I u := (hstep s b u hs hI hu).mpr h.head
            exact (ih (hJ s b u hs hu) hIu).mpr (h.tail hu) bs v hbs' hr

/-- Where every violation of the condition leaves a mark that no step removes,
a run that ends unmarked has met the condition. The invariant `J` needs none. -/
theorem along_of_unmarked {J M : S → Prop} (hJ : ∀ s a u, J s → step s a = some u → J u)
    (hkept : ∀ s a u, M s → step s a = some u → M u)
    (hmark : ∀ s a u, J s → step s a = some u → P s a ∨ M u)
    {s v : S} {as : List A} (hs : J s) (hrun : run step s as = some v) (hv : ¬ M v) :
    Along step P s as := by
  induction as generalizing s with
  | nil => trivial
  | cons a as ih =>
      obtain ⟨u,ha,hr⟩ := run_cons hrun
      have hP : P s a := (hmark s a u hs ha).resolve_right fun hM => hv (run_kept hkept hM hr)
      refine .cons hP fun u' hu => ?_
      obtain rfl : u = u' := Option.some.inj (ha.symm.trans hu)
      exact ih (hJ s a u hs ha) hr

/-- Labels that change nothing where they stand can be left out of a run. -/
theorem run_filter {keep : A → Bool}
    (hidle : ∀ s a, P s a → keep a = false → step s a = some s)
    {s : S} {as : List A} (hP : Along step P s as) :
    run step s as = run step s (as.filter keep) := by
  induction as generalizing s with
  | nil => rfl
  | cons a as ih =>
      cases hk : keep a with
      | false =>
          have hs := hidle s a hP.head hk
          rw [run_cons_some hs, List.filter_cons_of_neg (by simp [hk])]
          exact ih (hP.tail hs)
      | true =>
          rw [List.filter_cons_of_pos hk]
          cases hs : step s a with
          | none => simp [run,hs]
          | some u =>
              rw [run_cons_some hs,run_cons_some hs]
              exact ih (hP.tail hs)

/-- Labels whose steps a relation does not see can be left out, when the others
keep the relation on both sides. -/
theorem run_erase {keep : A → Bool} {R : S → S → Prop}
    (hdrop : ∀ s a u t, R s t → P s a → keep a = false → step s a = some u → R u t)
    (hkeep : ∀ s a u t, R s t → P s a → keep a = true → step s a = some u →
      ∃ w, step t a = some w ∧ R u w)
    {s t v : S} {as : List A} (hR : R s t) (hP : Along step P s as) (hrun : run step s as = some v) :
    ∃ w, run step t (as.filter keep) = some w ∧ R v w := by
  induction as generalizing s t with
  | nil => exact ⟨t,rfl,(Option.some.inj hrun) ▸ hR⟩
  | cons a as ih =>
      obtain ⟨u,hs,hr⟩ := run_cons hrun
      cases hk : keep a with
      | false =>
          rw [List.filter_cons_of_neg (by simp [hk])]
          exact ih (hdrop s a u t hR hP.head hk hs) (hP.tail hs) hr
      | true =>
          obtain ⟨w,hw,hRw⟩ := hkeep s a u t hR hP.head hk hs
          rw [List.filter_cons_of_pos hk,run_cons_some hw]
          exact ih hRw (hP.tail hs) hr

/-- The labels of a run that are kept, each judged in the state before it. -/
def thin (step : S → A → Option S) (keep : S → A → Bool) : S → List A → List A
  | _, [] => []
  | s, a :: as =>
      match step s a with
      | some u => if keep s a then a :: thin step keep u as else thin step keep u as
      | none => []

/-- A projection of the states that the dropped labels leave as it is, and on
which the kept ones act by themselves, turns a run into the run of what is kept. -/
theorem run_thin {stepT : T → A → Option T} {keep : S → A → Bool} {f : S → T}
    (hkeep : ∀ s a u, P s a → keep s a = true → step s a = some u → stepT (f s) a = some (f u))
    (hdrop : ∀ s a u, P s a → keep s a = false → step s a = some u → f u = f s)
    {s v : S} {as : List A} (hP : Along step P s as) (hrun : run step s as = some v) :
    run stepT (f s) (thin step keep s as) = some (f v) := by
  induction as generalizing s with
  | nil => exact congrArg (Option.map f) hrun
  | cons a as ih =>
      obtain ⟨u,hs,hr⟩ := run_cons hrun
      have hrest := ih (hP.tail hs) hr
      cases hk : keep s a with
      | true =>
          have hthin : thin step keep s (a :: as) = a :: thin step keep u as := by
            simp [thin,hs,hk]
          rw [hthin,run_cons_some (hkeep s a u hP.head hk hs),hrest]
      | false =>
          have hthin : thin step keep s (a :: as) = thin step keep u as := by
            simp [thin,hs,hk]
          rw [hthin,← hdrop s a u hP.head hk hs,hrest]

/-- Simulation: when every step of one machine is matched by a run of another,
every run is. The relation `R` links the two states. -/
theorem run_simulation {stepT : T → B → Option T} {R : S → T → Prop}
    (hsim : ∀ s a u t, R s t → step s a = some u → ∃ bs v, run stepT t bs = some v ∧ R u v)
    {s v : S} {t : T} {as : List A} (hR : R s t) (hrun : run step s as = some v) :
    ∃ bs w, run stepT t bs = some w ∧ R v w := by
  induction as generalizing s t with
  | nil => exact ⟨[],t,rfl,(Option.some.inj hrun) ▸ hR⟩
  | cons a as ih =>
      obtain ⟨u,hs,hr⟩ := run_cons hrun
      obtain ⟨bs,w,hw,hRw⟩ := hsim s a u t hR hs
      obtain ⟨cs,x,hx,hRx⟩ := ih hRw hr
      have hjoined : run stepT t (bs ++ cs) = some x := by
        rw [run_append,hw]
        exact hx
      exact ⟨bs ++ cs,x,hjoined,hRx⟩

theorem update_some_cases {I : Type*} [DecidableEq I] {f : I → Option B} {t u : I}
    {b : Option B} {c : B} (h : Function.update f t b u = some c) :
    (u = t ∧ b = some c) ∨ (u ≠ t ∧ f u = some c) := by
  by_cases hu : u = t
  · subst hu
    exact .inl ⟨rfl,by simpa using h⟩
  · exact .inr ⟨hu,by simpa [hu] using h⟩

theorem forall_update {I : Type*} [DecidableEq I] {f : I → Option B} {P : B → Prop}
    (h : ∀ u c, f u = some c → P c) {t : I} {b : Option B} (hb : ∀ c, b = some c → P c) :
    ∀ u c, Function.update f t b u = some c → P c :=
  (Function.forall_update_iff f fun _ o => ∀ c, o = some c → P c).mpr ⟨hb,fun u _ => h u⟩

theorem update_back {I M : Type*} [DecidableEq I] {f : I → Option B} {mark : B → M} {t u : I}
    {c d e : B} (hc : f t = some c) (hu : Function.update f t (some d) u = some e)
    (hmark : mark d = mark c) : ∃ c, f u = some c ∧ mark e = mark c := by
  rcases update_some_cases hu with ⟨rfl,he⟩ | ⟨_,hold⟩
  · cases he
    exact ⟨c,hc,hmark⟩
  · exact ⟨e,hold,rfl⟩

end NrDriver.LabelledRuns
