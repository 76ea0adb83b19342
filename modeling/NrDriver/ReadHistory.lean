import NrDriver.ReadHalfSteps
import NrDriver.NumberedTable

/-!
# From the copy of a call to its return

Each `nr_read` that reaches `copy_to_user` makes one copy, then moves its file
position and computes its value by two subtractions. What it returns with is
what these two gave: if `A` relates the positions at its start and after the
first one to the bytes copied, and `R` the value of the second one to them, both
relations hold of the call as the log records it, whatever the other threads do
in between.
-/
namespace NrDriver.ReadHistory
open KernelModel TransferSteps ReadHalfSteps LabelledRuns NumberedTable

/-- The bytes of a copy, if the call made it. -/
def copyOf (call : ℕ) : ReadEvent → Option (List Byte)
  | .copied call' _ bytes => if call' = call then some bytes else none
  | _ => none

/-- What the copies of a call stored, in order. -/
def copiesOf (call : ℕ) (log : List ReadEvent) : List (List Byte) := log.filterMap (copyOf call)

theorem copiesOf_snoc_none {call : ℕ} {e : ReadEvent} (he : copyOf call e = none)
    (log : List ReadEvent) : copiesOf call (log ++ [e]) = copiesOf call log := by
  simp [copiesOf,he]

theorem copiesOf_snoc_some {call : ℕ} {e : ReadEvent} {bytes : List Byte}
    (he : copyOf call e = some bytes) (log : List ReadEvent) :
    copiesOf call (log ++ [e]) = copiesOf call log ++ [bytes] := by
  simp [copiesOf,he]

def startedAt : Label → Option ℤ
  | .beginRead _ _ _ ppos => some ppos
  | _ => none

/-- The file positions the calls of a run start with; the call numbered `n` has
the `n`-th. -/
def starts (ls : List Label) : List ℤ := ls.filterMap startedAt

theorem starts_snoc (ls : List Label) (l : Label) :
    starts (ls ++ [l]) = starts ls ++ (startedAt l).toList := by
  cases h : startedAt l <;> simp [starts,h]

section
variable (A : ℤ → List Byte → ℤ → Prop) (R : List Byte → ℤ → Prop)

/-- A call that made no copy, or one whose two subtractions went as related. -/
def Settled (copies : List (List Byte)) (start : ℤ) (user : List Byte) (rs ppos : ℤ) : Prop :=
  copies = [] ∨ copies = [user] ∧ R user rs ∧ A start user ppos

/-- What the copies of a call have made of it at each of its statements. -/
def CallSettles (copies : List (List Byte)) (start : ℤ) (c : ReadCall) : Prop :=
  match c.pc with
  | .position => copies = [c.user] ∧ c.ppos = start
  | .result => copies = [c.user] ∧ A start c.user c.ppos
  | .clear => copies = [c.user] ∧ R c.user c.rs ∧ A start c.user c.ppos
  | .exit => Settled A R copies start c.user c.rs c.ppos
  | _ => copies = [] ∧ c.ppos = start

structure History (begun : List ℤ) (v : ReadHalf) : Prop where
  numbered : Numbering ReadCall.id v.call v.reads
  counted : begun.length = v.reads
  unissued : ∀ id, v.reads ≤ id → copiesOf id v.log = []
  calls : ∀ t c, v.call t = some c → ∃ p, begun[c.id]? = some p ∧
    CallSettles A R (copiesOf c.id v.log) p c
  gone : ∀ call filp count user rs ppos, .returned call filp count user rs ppos ∈ v.log →
    call < v.reads ∧ ∀ t c, v.call t = some c → c.id ≠ call
  returned : ∀ call filp count user rs ppos, .returned call filp count user rs ppos ∈ v.log →
    ∃ p, begun[call]? = some p ∧ Settled A R (copiesOf call v.log) p user rs ppos

end

namespace History
variable {A : ℤ → List Byte → ℤ → Prop} {R : List Byte → ℤ → Prop} {begun : List ℤ}
  {v v' : ReadHalf} {a : ReadAct} {t : ℕ} {c c' : ReadCall}

/-- A statement of a call, which may add to the copies of this call only. -/
theorem of_call (h : History A R begun v) (hc : v.call t = some c)
    (hcall : v'.call = Function.update v.call t (some c')) (hid : c'.id = c.id)
    (hreads : v'.reads = v.reads)
    (hcopies : ∀ id, id ≠ c.id → copiesOf id v'.log = copiesOf id v.log)
    (hlog : ∀ call filp count user rs ppos, .returned call filp count user rs ppos ∈ v'.log →
      .returned call filp count user rs ppos ∈ v.log)
    (hok : ∀ p, CallSettles A R (copiesOf c.id v.log) p c →
      CallSettles A R (copiesOf c.id v'.log) p c') :
    History A R begun v' := by
  have hlt : c.id < v.reads := h.numbered.lt t c hc
  constructor
  · rw [hcall,hreads]
    exact h.numbered.put hc hid
  · rw [hreads]
    exact h.counted
  · intro id hle
    rw [hreads] at hle
    rw [hcopies id (by omega)]
    exact h.unissued id hle
  · intro u d hd
    rw [hcall] at hd
    rcases update_some_cases hd with ⟨_,hnew⟩ | ⟨hu,hold⟩
    · cases hnew
      obtain ⟨p,hp,hokp⟩ := h.calls t c hc
      rw [hid]
      exact ⟨p,hp,hok p hokp⟩
    · rw [hcopies d.id (h.numbered.other hc hold hu)]
      exact h.calls u d hold
  · intro call filp count user rs ppos hmem
    obtain ⟨hissued,hothers⟩ := h.gone call filp count user rs ppos (hlog _ _ _ _ _ _ hmem)
    refine ⟨by rwa [hreads],fun u d hd => ?_⟩
    rw [hcall] at hd
    rcases update_some_cases hd with ⟨_,hnew⟩ | ⟨_,hold⟩
    · cases hnew
      rw [hid]
      exact hothers t c hc
    · exact hothers u d hold
  · intro call filp count user rs ppos hmem
    have hold := hlog _ _ _ _ _ _ hmem
    rw [hcopies call ((h.gone call filp count user rs ppos hold).2 t c hc).symm]
    exact h.returned call filp count user rs ppos hold

theorem of_same (h : History A R begun v) (es : List ReadEvent) (hc : v.call t = some c)
    (hcall : v'.call = Function.update v.call t (some c')) (hid : c'.id = c.id)
    (hreads : v'.reads = v.reads) (hlog : v'.log = v.log ++ es)
    (hcopies : ∀ e ∈ es, ∀ id, copyOf id e = none)
    (hreturned : ∀ e ∈ es, ∀ call filp count user rs ppos,
      e ≠ .returned call filp count user rs ppos)
    (hok : ∀ p, CallSettles A R (copiesOf c.id v.log) p c →
      CallSettles A R (copiesOf c.id v.log) p c') :
    History A R begun v' := by
  have hsame (id : ℕ) : copiesOf id v'.log = copiesOf id v.log := by
    have hnone : es.filterMap (copyOf id) = [] :=
      List.filterMap_eq_nil_iff.mpr fun e he => hcopies e he id
    rw [hlog,copiesOf,List.filterMap_append,hnone,List.append_nil]
    rfl
  refine h.of_call hc hcall hid hreads (fun id _ => hsame id) ?_ ?_
  · intro call filp count user rs ppos hmem
    rw [hlog] at hmem
    rcases List.mem_append.mp hmem with hmem | hmem
    · exact hmem
    · exact (hreturned _ hmem _ _ _ _ _ _ rfl).elim
  · intro p hp
    rw [hsame]
    exact hok p hp

theorem begins (h : History A R begun v) {filp count : ℕ} {ppos : ℤ} :
    History A R (begun ++ [ppos])
      { v.put t (.start v.reads filp count ppos) with reads := v.reads + 1 } := by
  have hold {id : ℕ} {p : ℤ} (hp : begun[id]? = some p) : (begun ++ [ppos])[id]? = some p := by
    obtain ⟨hlt,_⟩ := List.getElem?_eq_some_iff.mp hp
    rw [List.getElem?_append_left hlt,hp]
  constructor
  · exact h.numbered.start rfl
  · simp [h.counted]
  · intro id hle
    apply h.unissued id
    exact Nat.le_of_succ_le hle
  · intro u d hd
    rcases update_some_cases hd with ⟨_,hnew⟩ | ⟨_,hcall⟩
    · cases hnew
      refine ⟨ppos,?_,h.unissued _ (Nat.le_refl _),rfl⟩
      simp [ReadCall.start,← h.counted]
    · obtain ⟨p,hp,hok⟩ := h.calls u d hcall
      exact ⟨p,hold hp,hok⟩
  · intro call filp' count' user rs ppos' hmem
    obtain ⟨hlt,hothers⟩ := h.gone call filp' count' user rs ppos' hmem
    refine ⟨Nat.lt_succ_of_lt hlt,fun u d hd => ?_⟩
    rcases update_some_cases hd with ⟨_,hnew⟩ | ⟨_,hcall⟩
    · cases hnew
      simp only [ReadCall.start]
      omega
    · exact hothers u d hcall
  · intro call filp' count' user rs ppos' hmem
    obtain ⟨p,hp,hok⟩ := h.returned call filp' count' user rs ppos' hmem
    exact ⟨p,hold hp,hok⟩

theorem returns (h : History A R begun v) (hc : v.call t = some c) (hpc : c.pc = .exit) :
    History A R begun { v with
      call := Function.update v.call t none
      log := v.log ++ [.returned c.id c.filp c.count c.user c.rs c.ppos] } := by
  have hsame (id : ℕ) : copiesOf id (v.log ++ [.returned c.id c.filp c.count c.user c.rs c.ppos]) =
      copiesOf id v.log := copiesOf_snoc_none rfl _
  have hcall {u : ℕ} {d : ReadCall} (hd : Function.update v.call t none u = some d) :
      u ≠ t ∧ v.call u = some d := by
    rcases update_some_cases hd with ⟨_,hnew⟩ | hother
    · cases hnew
    · exact hother
  constructor
  · exact h.numbered.remove
  · exact h.counted
  · intro id hle
    rw [hsame]
    exact h.unissued id hle
  · intro u d hd
    rw [hsame]
    exact h.calls u d (hcall hd).2
  · intro call filp count user rs ppos hmem
    rcases List.mem_append.mp hmem with hmem | hmem
    · obtain ⟨hlt,hothers⟩ := h.gone call filp count user rs ppos hmem
      exact ⟨hlt,fun u d hd => hothers u d (hcall hd).2⟩
    · cases List.mem_singleton.mp hmem
      refine ⟨h.numbered.lt t c hc,fun u d hd => ?_⟩
      exact h.numbered.other hc (hcall hd).2 (hcall hd).1
  · intro call filp count user rs ppos hmem
    rw [hsame]
    rcases List.mem_append.mp hmem with hmem | hmem
    · exact h.returned call filp count user rs ppos hmem
    · cases List.mem_singleton.mp hmem
      obtain ⟨p,hp,hok⟩ := h.calls t c hc
      simp only [CallSettles,hpc] at hok
      exact ⟨p,hp,hok⟩

theorem wakes (h : History A R begun v) {status : ℤ} {reported : Bool} {packet : List Byte}
    (hcall : v'.call = fun t => (v.call t).map ReadCall.wake) (hreads : v'.reads = v.reads)
    (hlog : v'.log = v.log ++ [.received status reported packet]) : History A R begun v' := by
  have hsame (id : ℕ) : copiesOf id v'.log = copiesOf id v.log := by
    rw [hlog]
    exact copiesOf_snoc_none rfl _
  have hid (d : ReadCall) : d.wake.id = d.id := by
    rcases ReadCall.wake_cases d with ⟨_,he⟩ | ⟨_,he⟩ <;> rw [he]
  have hmem {call filp count : ℕ} {user : List Byte} {rs ppos : ℤ}
      (hm : .returned call filp count user rs ppos ∈ v'.log) :
      .returned call filp count user rs ppos ∈ v.log := by
    rw [hlog] at hm
    simpa using hm
  constructor
  · rw [hcall,hreads]
    exact h.numbered.map hid
  · rw [hreads]
    exact h.counted
  · intro id hle
    rw [hsame]
    exact h.unissued id (hreads ▸ hle)
  · intro u d hd
    rw [hcall] at hd
    obtain ⟨d₀,hd₀,rfl⟩ := Option.map_eq_some_iff.mp hd
    obtain ⟨p,hp,hok⟩ := h.calls u d₀ hd₀
    rw [hsame,hid]
    refine ⟨p,hp,?_⟩
    rcases ReadCall.wake_cases d₀ with ⟨hs,he⟩ | ⟨_,he⟩
    · simp only [CallSettles,hs] at hok
      rw [he]
      exact hok
    · rwa [he]
  · intro call filp count user rs ppos hm
    obtain ⟨hlt,hothers⟩ := h.gone call filp count user rs ppos (hmem hm)
    refine ⟨by rwa [hreads],fun u d hd => ?_⟩
    rw [hcall] at hd
    obtain ⟨d₀,hd₀,rfl⟩ := Option.map_eq_some_iff.mp hd
    rw [hid]
    exact hothers u d₀ hd₀
  · intro call filp count user rs ppos hm
    rw [hsame]
    exact h.returned call filp count user rs ppos (hmem hm)

/-- The two subtractions of a call relate what it started with to its copy. -/
def SubtractsTo (A : ℤ → List Byte → ℤ → Prop) (R : List Byte → ℤ → Prop) (v : ReadHalf)
    (c : ReadCall) : Prop :=
  (c.pc = .position → A c.ppos c.user (toSsize (c.ppos + sizeSub v.len (toSize c.rs)))) ∧
    (c.pc = .result → R c.user (toSsize (sizeSub v.len (toSize c.rs))))

theorem step_kept (h : History A R begun v) (hbegin : startedAt a.label = none)
    (hsub : ∀ t k c, a = .run t k → v.call t = some c → SubtractsTo A R v c)
    (hs : ReadHalf.Step v a v') : History A R begun v' := by
  have plain {t : ℕ} {c c' : ReadCall} (hc : v.call t = some c)
      (hcall : v'.call = Function.update v.call t (some c')) (hid : c'.id = c.id)
      (hreads : v'.reads = v.reads) (hlog : v'.log = v.log)
      (hok : ∀ p, CallSettles A R (copiesOf c.id v.log) p c →
        CallSettles A R (copiesOf c.id v.log) p c') : History A R begun v' :=
    h.of_same [] hc hcall hid hreads (by simp [hlog]) (by simp) (by simp) hok
  cases hs with
  | begins => cases hbegin
  | seesOngoing hc hpc | seesQuiet hc hpc | sleeps hc hpc | waitEnds hc hpc | seesData hc hpc
  | seesEmpty hc hpc | fills hc hpc | sets hc hpc =>
      apply plain hc rfl rfl rfl rfl
      intro p hok
      simpa only [CallSettles,hpc] using hok
  | @copies t k c hc hpc hk =>
      refine h.of_call hc rfl rfl rfl ?_ ?_ ?_
      · intro id hid
        exact copiesOf_snoc_none (by simp [copyOf,hid.symm]) _
      · intro call filp count user rs ppos hmem
        simpa using hmem
      · intro p hok
        simp only [CallSettles,hpc] at hok
        simp only [CallSettles]
        rw [copiesOf_snoc_some (by simp [copyOf]; rfl),hok.1]
        exact ⟨rfl,hok.2⟩
  | @advances t k c hc hpc =>
      apply plain hc rfl rfl rfl rfl
      intro p hok
      simp only [CallSettles,hpc] at hok ⊢
      have hA := (hsub t k c rfl hc).1 hpc
      rw [hok.2] at hA ⊢
      exact ⟨hok.1,hA⟩
  | @computes t k c hc hpc =>
      apply plain hc rfl rfl rfl rfl
      intro p hok
      simp only [CallSettles,hpc] at hok ⊢
      exact ⟨hok.1,(hsub t k c rfl hc).2 hpc,hok.2⟩
  | clears hc hpc =>
      apply plain hc rfl rfl rfl rfl
      intro p hok
      simp only [CallSettles,hpc] at hok
      exact .inr hok
  | submits hc hpc | refused hc hpc =>
      refine h.of_same _ hc rfl rfl rfl rfl (by simp [copyOf]) (by simp) fun p hok => ?_
      simp only [CallSettles,hpc] at hok
      first | exact hok | exact .inl hok.1
  | interrupted hc hpc =>
      apply plain hc rfl rfl rfl rfl
      intro p hok
      rcases hpc with hpc | hpc
      all_goals
        simp only [CallSettles,hpc] at hok
        exact .inl hok.1
  | signalLate hc hpc =>
      apply plain hc rfl rfl rfl rfl
      intro p hok
      rcases hpc with hpc | hpc
      all_goals simpa only [CallSettles,hpc] using hok
  | returns hc hpc =>
      exact h.returns hc hpc
  | completes =>
      exact h.wakes rfl rfl rfl
  | opensLen | opensOngoing =>
      exact ⟨h.numbered,h.counted,h.unissued,h.calls,h.gone,h.returned⟩

theorem step (h : History A R begun v)
    (hsub : ∀ t k c, a = .run t k → v.call t = some c → SubtractsTo A R v c)
    (hs : ReadHalf.Step v a v') :
    History A R (begun ++ (startedAt a.label).toList) v' := by
  cases hl : startedAt a.label with
  | none => simpa using h.step_kept hl hsub hs
  | some ppos =>
      cases hs with
      | begins =>
          cases hl
          exact h.begins
      | _ => cases hl

end History

/-- Every subtraction of a call that has copied goes as `A` and `R` say. -/
def SubtractAs (A : ℤ → List Byte → ℤ → Prop) (R : List Byte → ℤ → Prop) (s : Device) :
    Label → Prop
  | .run t _ => ∀ c ∈ readCall? (s.job t), History.SubtractsTo A R (readHalf s) c
  | _ => True

section Runs
variable {A : ℤ → List Byte → ℤ → Prop} {R : List Byte → ℤ → Prop}

theorem history_step {past : List Label} {s s' : Device} {l : Label}
    (h : History A R (starts past) (readHalf s)) (hsub : SubtractAs A R s l)
    (hs : step s l = some s') : History A R (starts (past ++ [l])) (readHalf s') := by
  have hr := step_readHalf hs
  rw [starts_snoc]
  cases ha : readAct s l with
  | none =>
      simp only [ha] at hr
      have hnone : startedAt l = none := by
        cases l <;> first | rfl | cases ha
      simpa [hr,hnone] using h
  | some a =>
      simp only [ha] at hr
      obtain rfl : l = a.label := label_of_readAct ha
      apply h.step _ hr
      intro t k c hact hc
      subst hact
      exact hsub c hc

/-- What a call that copied returns with is what its two subtractions gave. -/
theorem copied_call_returns (epIn epOut : EndpointDescriptor) (memIn memOut : ℕ → Byte)
    {ls : List Label} {s : Device}
    (hrun : run step (.opened epIn epOut memIn memOut) ls = some s)
    (hsub : Along step (SubtractAs A R) (.opened epIn epOut memIn memOut) ls)
    {call filp count : ℕ} {user : List Byte} {rs ppos : ℤ}
    (hret : .returned call filp count user rs ppos ∈ s.readLog) {bytes : List Byte}
    (hcopy : bytes ∈ copiesOf call s.readLog) :
    user = bytes ∧ R bytes rs ∧ ∃ p, (starts ls)[call]? = some p ∧ A p bytes ppos := by
  have hhist : History A R (starts ([] ++ ls)) (readHalf s) := by
    refine run_history (I := fun past s => History A R (starts past) (readHalf s))
      (fun _ _ _ _ hI hP hs => history_step hI hP hs) ⟨⟨?_,?_⟩,rfl,fun _ _ => rfl,?_,?_,?_⟩ hsub
      hrun
    · intro t c hc
      cases hc
    · intro t u c d hc
      cases hc
    · intro t c hc
      cases hc
    · intro call filp count user rs ppos hmem
      cases hmem
    · intro call filp count user rs ppos hmem
      cases hmem
  obtain ⟨p,hp,hsettled⟩ := hhist.returned call filp count user rs ppos hret
  rcases hsettled with hnone | ⟨hone,hR,hA⟩
  · have hmem : bytes ∈ copiesOf call (readHalf s).log := hcopy
    simp [hnone] at hmem
  · have hmem : bytes ∈ copiesOf call (readHalf s).log := hcopy
    rw [hone] at hmem
    obtain rfl := List.mem_singleton.mp hmem
    exact ⟨rfl,hR,p,hp,hA⟩

end Runs

end NrDriver.ReadHistory
