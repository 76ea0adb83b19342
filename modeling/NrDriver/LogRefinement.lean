import NrDriver.LabelledRuns
import Mathlib.Data.List.Forall2

/-!
# Machines that implement a specification of their log

A machine whose steps only append to a log implements a specification when the
log it leaves is a run of that specification. What links the two states is a
relation, kept by every step together with the events the step has written.
-/
namespace NrDriver.LogRefinement
open LabelledRuns

variable {S A E M : Type*} {step : S → A → Option S} {spec : M → E → Option M} {log : S → List E}
  {R : S → M → Prop} {P : S → A → Prop} {m₀ : M} {s u v : S}

/-- The log of the state is a run of the specification, which ends in a related state. -/
def Explained (spec : M → E → Option M) (log : S → List E) (R : S → M → Prop) (m₀ : M) (s : S) :
    Prop :=
  ∃ m, run spec m₀ (log s) = some m ∧ R s m

/-- A step writes nothing, or one event that the specification accepts. -/
def Matched (spec : M → E → Option M) (log : S → List E) (R : S → M → Prop) (s u : S) (m : M) :
    Prop :=
  (log u = log s ∧ R u m) ∨ ∃ e m', log u = log s ++ [e] ∧ spec m e = some m' ∧ R u m'

theorem Explained.matched (h : Explained spec log R m₀ s)
    (hmatch : ∀ m, R s m → Matched spec log R s u m) : Explained spec log R m₀ u := by
  obtain ⟨m,hm,hr⟩ := h
  rcases hmatch m hr with ⟨hlog,hR⟩ | ⟨e,m',hlog,he,hR⟩
  · exact ⟨m,by rw [hlog,hm],hR⟩
  · refine ⟨m',?_,hR⟩
    rw [hlog,run_append,hm,Option.bind_some,run_cons_some he,run_nil]

/-- What the events of a run do to a part of the specification's state, each judged
in the state before it. -/
def acts {B : Type*} (spec : M → E → Option M) (act : M → E → Option B) : M → List E → List B
  | _, [] => []
  | m, e :: es =>
      match spec m e with
      | some m' => (act m e).toList ++ acts spec act m' es
      | none => []

section Parts
variable {B C D N : Type*} {act : M → E → Option B} {m m' : M} {es : List E}

theorem acts_cons {e : E} (he : spec m e = some m') (es : List E) :
    acts spec act m (e :: es) = (act m e).toList ++ acts spec act m' es := by
  simp [acts,he]

theorem run_acts {part : M → N} {stepN : N → B → Option N}
    (hmove : ∀ m e m' b, act m e = some b → spec m e = some m' →
      stepN (part m) b = some (part m'))
    (hkeep : ∀ m e m', act m e = none → spec m e = some m' → part m' = part m)
    (hrun : run spec m es = some m') :
    run stepN (part m) (acts spec act m es) = some (part m') := by
  induction es generalizing m with
  | nil => exact congrArg (Option.map part) hrun
  | cons e es ih =>
      obtain ⟨n,he,hr⟩ := run_cons hrun
      rw [acts_cons he]
      cases ha : act m e with
      | none => rw [Option.toList_none,List.nil_append,← hkeep m e n ha he,ih hr]
      | some b =>
          rw [Option.toList_some,List.singleton_append,run_cons_some (hmove m e n b ha he),ih hr]

/-- What is read off the events and what is read off the acts correspond one to one. -/
theorem acts_forall₂ {Q : C → D → Prop} {f : E → Option C} {g : B → Option D}
    (hpair : ∀ m e m', spec m e = some m' → (f e = none ∧ (act m e).bind g = none) ∨
      ∃ c d, f e = some c ∧ (act m e).bind g = some d ∧ Q c d)
    (hrun : run spec m es = some m') :
    List.Forall₂ Q (es.filterMap f) ((acts spec act m es).filterMap g) := by
  induction es generalizing m with
  | nil => exact .nil
  | cons e es ih =>
      obtain ⟨n,he,hr⟩ := run_cons hrun
      have hsplit : (acts spec act m (e :: es)).filterMap g =
          ((act m e).bind g).toList ++ (acts spec act n es).filterMap g := by
        rw [acts_cons he,List.filterMap_append]
        congr 1
        cases ha : act m e with
        | none => rfl
        | some b => cases hg : g b <;> simp [hg]
      rw [hsplit]
      rcases hpair m e n he with ⟨hf,hg⟩ | ⟨c,d,hf,hg,hcd⟩
      · rw [List.filterMap_cons_none hf,hg]
        exact ih hr
      · rw [List.filterMap_cons_some hf,hg]
        exact .cons hcd (ih hr)

theorem acts_filterMap {f : E → Option C} {g : B → Option C}
    (hsame : ∀ m e m', spec m e = some m' → (act m e).bind g = f e)
    (hrun : run spec m es = some m') :
    (acts spec act m es).filterMap g = es.filterMap f := by
  have hpair (m : M) (e : E) (n : M) (he : spec m e = some n) :
      (f e = none ∧ (act m e).bind g = none) ∨
        ∃ c d, f e = some c ∧ (act m e).bind g = some d ∧ c = d := by
    rw [hsame m e n he]
    cases f e with
    | none => exact .inl ⟨rfl,rfl⟩
    | some c => exact .inr ⟨c,c,rfl,rfl,rfl⟩
  have hpairs := acts_forall₂ hpair hrun
  rwa [List.forall₂_eq_eq_eq,eq_comm] at hpairs

end Parts

end NrDriver.LogRefinement
