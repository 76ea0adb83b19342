import NrDriver.TransferBounds

/-!
# The count of a read

`nr_read` never looks at its `count`: it copies what the buffer holds, whoever
submitted the transfer, and returns what its second reading of the length gives.
The bytes stored at the user's address and the value returned stay within the
count exactly on the runs where the length, less the bytes the copy left, does
so at the two statements that use it.

Any number of readers, signals, faults and opens. Another call can change the
length between the two statements, which is why the condition names both.
-/
namespace NrDriver.CountBound
open KernelModel TransferSteps ReadHalfSteps TransferBounds LabelledRuns

/-- The statements of `nr_read` whose `rs` is the number of uncopied bytes. -/
def rereading : ReadPc → Bool
  | .position | .result => true
  | _ => false

/-- The statements of `nr_read` whose `rs` is the value to be returned. -/
def decided : ReadPc → Bool
  | .clear | .exit => true
  | _ => false

/-- While `rs` counts uncopied bytes it is the length of a part of the buffer. -/
def Owing (ep : EndpointDescriptor) (v : ReadHalf) : Prop :=
  ∀ t c, v.call t = some c → rereading c.pc = true → ∃ k : ℕ, c.rs = k ∧ k ≤ ep.packetSize

/-- Of the calls that have still to subtract: their copy makes it hold, and the
statement between the two subtractions keeps it. -/
theorem rereading_step {R : ReadCall → Prop} {v v' : ReadHalf} {a : ReadAct}
    (hkeep : ∀ t c, v.call t = some c → rereading c.pc = true → R c)
    (hcopy : ∀ (k : ℕ) (c : ReadCall), k ≤ v.len → v'.len = v.len →
      R { c with user := copyToUser v.buffer v.len k, rs := toSsize k, pc := .position })
    (hposition : ∀ (c : ReadCall) (ppos : ℤ), R c → R { c with ppos := ppos, pc := .result })
    (hs : ReadHalf.Step v a v') :
    ∀ t c, v'.call t = some c → rereading c.pc = true → R c := by
  have moved {t : ℕ} {b : Option ReadCall} (hcall : v'.call = Function.update v.call t b)
      (hnew : ∀ c, b = some c → rereading c.pc = true → R c) :
      ∀ u c, v'.call u = some c → rereading c.pc = true → R c := by
    rw [hcall]
    exact forall_update hkeep hnew
  cases hs with
  | begins => exact moved rfl (by simp [ReadCall.start,rereading])
  | seesOngoing | seesQuiet | sleeps | waitEnds | seesData | seesEmpty | computes | clears | fills
  | submits | refused | sets | interrupted | signalLate =>
      exact moved rfl (by simp [rereading])
  | returns => exact moved rfl (by simp)
  | @copies t k c hc hpc hk =>
      apply moved rfl
      intro d hd _
      cases hd
      exact hcopy k c hk rfl
  | @advances t k c hc hpc =>
      apply moved rfl
      intro d hd _
      cases hd
      exact hposition c _ (hkeep t c hc (by simp [hpc,rereading]))
  | completes =>
      intro u d hd hpd
      obtain ⟨c,hc,rfl⟩ := Option.map_eq_some_iff.mp hd
      rcases ReadCall.wake_cases c with ⟨_,he⟩ | ⟨_,he⟩
      · simp [he,rereading] at hpd
      · rw [he] at hpd ⊢
        exact hkeep u c hc hpd
  | opensLen => exact hkeep
  | opensOngoing => exact hkeep

theorem Owing.step {ep : EndpointDescriptor} {v v' : ReadHalf} {a : ReadAct} (h : Owing ep v)
    (hb : ReadBounds ep v) (hs : ReadHalf.Step v a v') : Owing ep v' := by
  refine rereading_step h ?_ (fun c ppos hc => hc) hs
  intro k c hk _
  have hlen : v.len ≤ ep.packetSize := hb.len
  have hsize := ep.packetSize_lt
  refine ⟨k,?_,by omega⟩
  simp only
  exact toSsize_natCast (by omega)

/-- What a call has stored and what it is about to return are within its count. -/
def Within (c : ReadCall) : Prop :=
  c.user.length ≤ c.count ∧ (decided c.pc = true → c.rs ≤ c.count)

/-- Every call, running or returned, respects its count. -/
structure CountRespected (v : ReadHalf) : Prop where
  calls : ∀ t c, v.call t = some c → Within c
  returned : ∀ call filp (count : ℕ) user (rs : ℤ) ppos,
    .returned call filp count user rs ppos ∈ v.log → user.length ≤ count ∧ rs ≤ count

/-- The length a statement of the call uses, less the bytes the copy left, is
within the count of the call. -/
def FitsCall (v : ReadHalf) (c : ReadCall) (k : ℕ) : Prop :=
  (c.pc = .copy → v.len ≤ c.count + k) ∧ (c.pc = .result → (v.len : ℤ) ≤ c.count + c.rs)

namespace CountRespected
variable {ep : EndpointDescriptor} {v v' : ReadHalf} {a : ReadAct}

theorem of_call (h : CountRespected v) {t : ℕ} {b : Option ReadCall}
    (hcall : v'.call = Function.update v.call t b) (hb : ∀ c, b = some c → Within c)
    (hlog : ∀ call filp (count : ℕ) user (rs : ℤ) ppos,
      .returned call filp count user rs ppos ∈ v'.log →
        .returned call filp count user rs ppos ∈ v.log ∨ user.length ≤ count ∧ rs ≤ count) :
    CountRespected v' := by
  constructor
  · rw [hcall]
    exact forall_update h.calls hb
  · intro call filp count user rs ppos hmem
    rcases hlog call filp count user rs ppos hmem with hold | hnew
    · exact h.returned call filp count user rs ppos hold
    · exact hnew

/-- A statement that stores nothing and decides nothing. -/
theorem of_same (h : CountRespected v) {t : ℕ} {c c' : ReadCall} (hc : v.call t = some c)
    (hcall : v'.call = Function.update v.call t (some c')) (huser : c'.user = c.user)
    (hcount : c'.count = c.count)
    (hrs : decided c'.pc = true → c'.rs < 0 ∨ decided c.pc = true ∧ c'.rs = c.rs)
    (hlog : ∀ call filp count user rs ppos, .returned call filp count user rs ppos ∈ v'.log →
      .returned call filp count user rs ppos ∈ v.log) : CountRespected v' := by
  apply h.of_call hcall
  · intro d hd
    cases hd
    have hold := h.calls t c hc
    refine ⟨by rw [huser,hcount]; exact hold.1,fun hpc => ?_⟩
    rcases hrs hpc with hneg | ⟨hdec,hsame⟩
    · omega
    · rw [hsame,hcount]
      exact hold.2 hdec
  · intro call filp count user rs ppos hmem
    exact .inl (hlog call filp count user rs ppos hmem)

theorem step (h : CountRespected v) (hb : ReadBounds ep v) (ho : Owing ep v)
    (hfits : ∀ t k c, a = .run t k → v.call t = some c → FitsCall v c k)
    (hs : ReadHalf.Step v a v') : CountRespected v' := by
  have hsize := ep.packetSize_lt
  have hlen := hb.len
  cases hs with
  | begins =>
      apply h.of_call rfl
      · intro c hc
        cases hc
        simp [Within,ReadCall.start,decided]
      · exact fun _ _ _ _ _ _ hmem => .inl hmem
  | seesOngoing hc | seesQuiet hc | sleeps hc | waitEnds hc | seesData hc | seesEmpty hc
  | advances hc | fills hc | sets hc | signalLate hc =>
      exact h.of_same hc rfl rfl rfl (by simp [decided]) fun _ _ _ _ _ _ hmem => hmem
  | submits hc =>
      exact h.of_same hc rfl rfl rfl (by simp [decided]) (by simp)
  | refused hc hpc hcode =>
      exact h.of_same hc rfl rfl rfl (fun _ => .inl hcode) (by simp)
  | interrupted hc =>
      exact h.of_same hc rfl rfl rfl (fun _ => .inl (by simp [ERESTARTSYS]))
        fun _ _ _ _ _ _ hmem => hmem
  | clears hc hpc =>
      exact h.of_same hc rfl rfl rfl (fun _ => .inr ⟨by simp [hpc,decided],rfl⟩)
        fun _ _ _ _ _ _ hmem => hmem
  | @copies t k c hc hpc hk =>
      have hfit := (hfits t k c rfl hc).1 hpc
      apply h.of_call rfl
      · intro d hd
        cases hd
        refine ⟨?_,by simp [decided]⟩
        simp only
        rw [hb.copied_length]
        omega
      · exact fun _ _ _ _ _ _ hmem => .inl (by simpa using hmem)
  | @computes t k c hc hpc =>
      have hfit := (hfits t k c rfl hc).2 hpc
      obtain ⟨n,hn,hle⟩ := ho t c hc (by simp [hpc,rereading])
      apply h.of_call rfl
      · intro d hd
        cases hd
        refine ⟨(h.calls t c hc).1,fun _ => ?_⟩
        simp only
        rw [hn,toSize_natCast (by omega),toSsize_sizeSub (by omega) (by omega)]
        omega
      · exact fun _ _ _ _ _ _ hmem => .inl hmem
  | @returns t k c hc hpc =>
      have hold := h.calls t c hc
      apply h.of_call rfl (by simp)
      intro call filp count user rs ppos hmem
      rcases List.mem_append.mp hmem with hmem | hmem
      · exact .inl hmem
      · cases List.mem_singleton.mp hmem
        exact .inr ⟨hold.1,hold.2 (by simp [hpc,decided])⟩
  | completes =>
      constructor
      · intro u d hd
        obtain ⟨c,hc,rfl⟩ := Option.map_eq_some_iff.mp hd
        have hold := h.calls u c hc
        rcases ReadCall.wake_cases c with ⟨_,he⟩ | ⟨_,he⟩
        · rw [he]
          exact ⟨hold.1,by simp [decided]⟩
        · rwa [he]
      · intro call filp count user rs ppos hmem
        exact h.returned call filp count user rs ppos (by simpa using hmem)
  | opensLen => exact ⟨h.calls,h.returned⟩
  | opensOngoing => exact ⟨h.calls,h.returned⟩

theorem fits (h : CountRespected v') (hb : ReadBounds ep v) (ho : Owing ep v) {t k : ℕ}
    {c : ReadCall} (hc : v.call t = some c) (hs : ReadHalf.Step v (.run t k) v') :
    FitsCall v c k := by
  have hsize := ep.packetSize_lt
  have hlen := hb.len
  constructor
  · intro hpc
    obtain ⟨_,rfl⟩ := hs.copy_inv hc hpc
    have hin := (h.calls t _ (Function.update_self ..)).1
    simp only at hin
    rw [hb.copied_length] at hin
    omega
  · intro hpc
    obtain rfl := hs.result_inv hc hpc
    obtain ⟨n,hn,hle⟩ := ho t c hc (by simp [hpc,rereading])
    have hin := (h.calls t _ (Function.update_self ..)).2 rfl
    simp only at hin
    rw [hn,toSize_natCast (by omega),toSsize_sizeSub (by omega) (by omega)] at hin
    omega

end CountRespected

/-- The two statements of `nr_read` that use the length stay within the count. -/
def FitsCount (s : Device) : Label → Prop
  | .run t k => ∀ c ∈ readCall? (s.job t), FitsCall (readHalf s) c k
  | _ => True

/-- A copy that reports more uncopied bytes than there are is no step. -/
theorem fitsCount_of_disabled {s : Device} {l : Label} (hs : step s l = none) :
    FitsCount s l := by
  cases l with
  | run t k =>
      intro c hc
      have hj := job_of_readCall hc
      simp only [step,hj,runRead] at hs
      constructor
      · intro hpc
        simp only [hpc,readStep,reduceCtorEq,if_false,Option.map_eq_none_iff] at hs
        split_ifs at hs with hk
        have hlt : s.nr.lenInBuffer < k := Nat.lt_of_not_le hk
        simp only [readHalf]
        omega
      · intro hpc
        simp [hpc,readStep] at hs
  | _ => trivial

theorem respected_step_iff {ep : EndpointDescriptor} {s s' : Device} {l : Label}
    (hb : ReadBounds ep (readHalf s)) (ho : Owing ep (readHalf s))
    (h : CountRespected (readHalf s)) (hs : step s l = some s') :
    CountRespected (readHalf s') ↔ FitsCount s l := by
  constructor
  · intro h'
    cases l with
    | run t k =>
        intro c hc
        have hr := step_readHalf hs
        simp only [readAct,Option.mem_def.mp hc,Option.map_some] at hr
        exact h'.fits hb ho hc hr
    | _ => trivial
  · intro hfits
    refine readHalf_kept h hs fun a ha hr => h.step hb ho ?_ hr
    intro t k c hact hc
    subst hact
    obtain rfl : l = .run t k := label_of_readAct ha
    exact hfits c hc

/-- Throughout a run every `nr_read` keeps to its count, in what it stores and
in what it returns, exactly when the length fits wherever it is used. -/
theorem reads_respect_count_iff (epIn epOut : EndpointDescriptor) (memIn memOut : ℕ → Byte)
    (ls : List Label) :
    Throughout step (fun s => CountRespected (readHalf s)) (.opened epIn epOut memIn memOut) ls ↔
      Along step FitsCount (.opened epIn epOut memIn memOut) ls := by
  refine throughout_iff_along
    (J := fun s => Bounds epIn epOut s ∧ Owing epIn (readHalf s)) ?_ ?_ ?_ ⟨?_,?_⟩ ⟨?_,?_⟩
  · intro s l s' hJ hs
    exact ⟨hJ.1.step hs,readHalf_kept hJ.2 hs fun _ _ hr => hJ.2.step hJ.1.1 hr⟩
  · intro s l s' hJ hI hs
    exact respected_step_iff hJ.1.1 hJ.2 hI hs
  · exact fun s l hs => fitsCount_of_disabled hs
  · exact bounds_probed epIn epOut memIn memOut
  · intro t c hc
    cases hc
  · intro t c hc
    cases hc
  · intro call filp count user rs ppos hmem
    cases hmem

/-- A read of one byte gets a packet of two. -/
def packetOverCount : List Label :=
  [.beginRead 0 0 1 0,.run 0 0,.run 0 0,.run 0 0,.run 0 0,.run 0 0,.inCompletes 0 [7,8],
    .run 0 0,.run 0 0,.run 0 0,.run 0 0,.run 0 0,.run 0 0,.run 0 0]

/-- Both bytes are stored at the address of the one, and the value is two. -/
theorem packet_over_count_overruns :
    ∃ s ∈ run step canDevice packetOverCount, .returned 0 0 1 [7,8] 2 2 ∈ s.readLog ∧
      ¬ CountRespected (readHalf s) := by
  obtain ⟨s,hs,hret⟩ : ∃ s ∈ run step canDevice packetOverCount,
    .returned 0 0 1 [7,8] 2 2 ∈ s.readLog := by decide
  refine ⟨s,hs,hret,fun h => ?_⟩
  have hin := (h.returned 0 0 1 [7,8] 2 2 hret).1
  simp at hin

end NrDriver.CountBound
