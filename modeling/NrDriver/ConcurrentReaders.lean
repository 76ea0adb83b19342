import NrDriver.SingleReader
import NrDriver.IdleThreads

/-!
# Many readers

The test of the length, the copy and the clearing are separate accesses, and a
completion wakes every sleeper, so that two readers can both find the packet
and copy it. Without a lock the exclusion has to come from the schedule: on
runs where no reader copies while another is between its copy and its clearing
of the length, a packet is copied once. Opens, signals and refused submissions
are unrestricted.
-/
namespace NrDriver.ConcurrentReaders
open KernelModel TransferSteps ReadHalfSteps SingleReader IdleThreads LabelledRuns

/-- The event copies a byte or more of the packet of the `n`-th completion. -/
def copiesPacket (n : ℕ) : ReadEvent → Bool
  | .copied _ packet bytes => packet == n && !bytes.isEmpty
  | _ => false

/-- How many calls copied from the packet of the `n`-th completion. -/
def copyCount (n : ℕ) (log : List ReadEvent) : ℕ := log.countP (copiesPacket n)

@[simp] theorem copyCount_append (n : ℕ) (l m : List ReadEvent) :
    copyCount n (l ++ m) = copyCount n l + copyCount n m := List.countP_append ..

theorem copyCount_singleton (n : ℕ) (e : ReadEvent) :
    copyCount n [e] = if copiesPacket n e then 1 else 0 := by simp [copyCount,List.countP_cons]

/-- No thread other than `t` is between its copy and its clearing. -/
def Alone (v : ReadHalf) (t : ℕ) : Prop :=
  ∀ u c, u ≠ t → v.call u = some c → consuming c.pc = false

structure CopiedOnce (v : ReadHalf) : Prop where
  unborn : ∀ n, v.packets < n → copyCount n v.log = 0
  once : ∀ n, copyCount n v.log ≤ 1
  spent : copyCount v.packets v.log ≠ 0 →
    v.len = 0 ∨ ∃ t c, v.call t = some c ∧ consuming c.pc = true

namespace CopiedOnce
variable {v v' : ReadHalf} {a : ReadAct}

/-- A statement that copies nothing and ends no consumption. -/
theorem of_call (h : CopiedOnce v) {t : ℕ} {b : Option ReadCall}
    (hcall : v'.call = Function.update v.call t b) (hpk : v'.packets = v.packets)
    (hlen : v.len = 0 → v'.len = 0) (hlog : ∀ n, copyCount n v'.log = copyCount n v.log)
    (hpc : ∀ c, v.call t = some c → consuming c.pc = true →
      v'.len = 0 ∨ ∃ c', b = some c' ∧ consuming c'.pc = true) : CopiedOnce v' := by
  refine ⟨fun n hn => ?_,fun n => ?_,fun hne => ?_⟩
  · rw [hlog]
    exact h.unborn n (by rwa [hpk] at hn)
  · rw [hlog]
    exact h.once n
  · rw [hlog,hpk] at hne
    rcases h.spent hne with hz | ⟨u,c,hc,hcon⟩
    · exact .inl (hlen hz)
    · by_cases hu : u = t
      · subst hu
        rcases hpc c hc hcon with hz | ⟨c',rfl,hcon'⟩
        · exact .inl hz
        · exact .inr ⟨u,c',by simp [hcall],hcon'⟩
      · exact .inr ⟨u,c,by simp [hcall,hu,hc],hcon⟩

theorem of_quiet_call (h : CopiedOnce v) {t : ℕ} {c : ReadCall} {b : Option ReadCall}
    (hc : v.call t = some c) (hpc : consuming c.pc = false)
    (hcall : v'.call = Function.update v.call t b) (hpk : v'.packets = v.packets)
    (hlen : v'.len = v.len) (hlog : ∀ n, copyCount n v'.log = copyCount n v.log) :
    CopiedOnce v' := by
  refine h.of_call hcall hpk (fun hz => hlen.trans hz) hlog ?_
  intro d hd hcon
  rw [hc] at hd
  cases hd
  simp [hpc] at hcon

theorem step (h : CopiedOnce v)
    (halone : ∀ t k c, a = .run t k → v.call t = some c → c.pc = .copy → Alone v t)
    (hs : ReadHalf.Step v a v') : CopiedOnce v' := by
  have same (e : ReadEvent) (he : ∀ n, copiesPacket n e = false) (n : ℕ) :
      copyCount n (v.log ++ [e]) = copyCount n v.log := by
    simp [copyCount_singleton,he n]
  cases hs with
  | begins t filp count ppos hidle =>
      exact h.of_call rfl rfl id (fun _ => rfl) fun c hc => by simp [hidle] at hc
  | seesOngoing hc hpc | seesQuiet hc hpc | sleeps hc hpc | waitEnds hc hpc | seesData hc hpc
  | seesEmpty hc hpc | fills hc hpc | sets hc hpc =>
      exact h.of_quiet_call hc (by simp [hpc,consuming]) rfl rfl rfl fun _ => rfl
  | submits hc hpc | refused hc hpc | returns hc hpc =>
      exact h.of_quiet_call hc (by simp [hpc,consuming]) rfl rfl rfl
        (same _ fun n => by simp [copiesPacket])
  | interrupted hc hpc | signalLate hc hpc =>
      exact h.of_quiet_call hc (by rcases hpc with hpc | hpc <;> simp [hpc,consuming]) rfl rfl rfl
        fun _ => rfl
  | @copies t k c hc hpc hk =>
      have hme : ∀ u d, v.call u = some d → consuming d.pc = false := by
        intro u d hd
        by_cases hu : u = t
        · subst hu
          rw [hc] at hd
          cases hd
          simp [hpc,consuming]
        · exact halone t k c rfl hc hpc u d hu hd
      -- a packet that was copied before has been cleared, and the copy is empty
      have hnew : copyCount v.packets v.log ≠ 0 → copyToUser v.buffer v.len k = [] := by
        intro hne
        rcases h.spent hne with hz | ⟨u,d,hd,hcon⟩
        · simp [copyToUser,hz]
        · simp [hme u d hd] at hcon
      refine ⟨fun n hn => ?_,fun n => ?_,fun _ => .inr ⟨t,_,by simp; rfl,by simp [consuming]⟩⟩
      · have hn' : v.packets < n := hn
        simp [copyCount_singleton,copiesPacket,h.unborn n hn',Nat.ne_of_lt hn']
      · by_cases hn : v.packets = n
        · subst hn
          by_cases hz : copyCount v.packets v.log = 0
          · simp only [copyCount_append,hz,copyCount_singleton]
            split_ifs <;> omega
          · have hold := h.once v.packets
            simp only [copyCount_append,copyCount_singleton,copiesPacket,hnew hz]
            simpa using hold
        · have hold := h.once n
          simpa [copyCount_singleton,copiesPacket,hn] using hold
  | advances hc hpc | computes hc hpc =>
      exact h.of_call rfl rfl id (fun _ => rfl) fun _ _ _ => .inr ⟨_,rfl,by simp [consuming]⟩
  | clears hc hpc => exact h.of_call rfl rfl (fun _ => rfl) (fun _ => rfl) fun _ _ _ => .inl rfl
  | @completes status packet f hf hlen =>
      have hlog := same (.received status (reportedStatus status) packet)
        fun n => by simp [copiesPacket]
      refine ⟨fun n hn => ?_,fun n => ?_,fun hne => ?_⟩
      · rw [hlog]
        exact h.unborn n (Nat.lt_of_succ_lt hn)
      · rw [hlog]
        exact h.once n
      · rw [hlog] at hne
        exact (hne (h.unborn _ (Nat.lt_succ_self _))).elim
  | opensLen => exact ⟨h.unborn,h.once,fun _ => .inl rfl⟩
  | opensOngoing => exact ⟨h.unborn,h.once,h.spent⟩

end CopiedOnce

/-- The thread `u` is not between its copy and its clearing of `len_in_buffer`
when another one copies. -/
def SparedCopy (s : Device) (l : Label) (u : ℕ) : Prop :=
  match l with
  | .run t _ => readerAt s t = some .copy → u ≠ t → ∀ pc ∈ readerAt s u, consuming pc = false
  | _ => True

/-- No reader copies while another is between its copy and its clearing. -/
def CopyAlone (s : Device) (l : Label) : Prop := ∀ u, SparedCopy s l u

instance (s : Device) (l : Label) (u : ℕ) : Decidable (SparedCopy s l u) :=
  match l with
  | .run .. => inferInstanceAs (Decidable (_ → _))
  | .beginRead .. | .beginWrite .. | .openWrite _ | .signal _ | .inCompletes .. | .outTakes
  | .outCompletes .. => isTrue trivial

theorem packet_copied_at_most_once (epIn epOut : EndpointDescriptor) (memIn memOut : ℕ → Byte)
    {ls : List Label} {s : Device}
    (hrun : run step (.opened epIn epOut memIn memOut) ls = some s)
    (halone : Along step CopyAlone (.opened epIn epOut memIn memOut) ls) (n : ℕ) :
    copyCount n s.readLog ≤ 1 := by
  have hinv : CopiedOnce (readHalf s) := by
    refine run_invariant (I := fun s => CopiedOnce (readHalf s)) ?_ ?_ halone hrun
    · intro s l s' hI hP hs
      refine readHalf_kept hI hs fun a ha hr => hI.step ?_ hr
      intro t k c hact hc hpc u d hu hd
      subst hact
      obtain rfl : l = .run t k := label_of_readAct ha
      exact hP u (by rw [readerAt_of_call hc,hpc]) hu d.pc (readerAt_of_call hd)
    · exact ⟨fun _ _ => rfl,fun _ => Nat.zero_le _,fun hne => (hne rfl).elim⟩
  exact hinv.once n

theorem copyAlone_of_oneReader (epIn epOut : EndpointDescriptor) (memIn memOut : ℕ → Byte)
    (r : ℕ) {ls : List Label} (hone : ∀ l ∈ ls, oneReader r l = true) :
    Along step CopyAlone (.opened epIn epOut memIn memOut) ls := by
  refine along_invariant (I := fun s => Sole r (readHalf s)) (P := fun _ l => oneReader r l = true)
    (fun s l u hI hP hs => sole_step hI hP hs) ?_ (sole_opened epIn epOut memIn memOut r)
    (.labels hone _)
  intro s l hS _ u
  have only {t : ℕ} {pc : ReadPc} (ht : readerAt s t = some pc) : t = r := by
    obtain ⟨c,hc,_⟩ := call_of_readerAt ht
    exact hS.thread hc
  cases l with
  | run t k => exact fun ht hu pc hpc => (hu ((only hpc).trans (only ht).symm)).elim
  | _ => trivial

/-- Reader 1 finds the transfer of reader 0 under way and sleeps on the same
queue; one completion wakes both, and both find the packet. -/
def bothWoken : List Label :=
  [.beginRead 0 0 64 0,.run 0 0,.run 0 0,.run 0 0,.run 0 0,.run 0 0,.run 0 0,.run 0 0,
    .beginRead 1 1 64 0,.run 1 0,.run 1 0,.inCompletes 0 [7],.run 0 0,.run 0 0,.run 1 0,.run 1 0]

/-- Reader 0 copies and goes on to its clearing before reader 1 copies. -/
def copiesInTurn : List Label :=
  bothWoken ++ [.run 0 0,.run 0 0,.run 0 0,.run 0 0,.run 1 0]

theorem copies_in_turn_once :
    ∃ s ∈ run step canDevice copiesInTurn, .copied 0 1 [7] ∈ s.readLog ∧
      .copied 1 1 [] ∈ s.readLog ∧ copyCount 1 s.readLog ≤ 1 := by
  obtain ⟨s,hs,hfirst,hsecond⟩ : ∃ s ∈ run step canDevice copiesInTurn,
    .copied 0 1 [7] ∈ s.readLog ∧ .copied 1 1 [] ∈ s.readLog := by decide
  refine ⟨s,hs,hfirst,hsecond,
    packet_copied_at_most_once canIn canOut (fun _ => 0) (fun _ => 0) hs ?_ 1⟩
  refine along_among (n := 2) ?_ (fun _ _ => rfl) (by decide) (by decide)
  intro s l t ht
  cases l with
  | run u k => simp [SparedCopy,readerAt,ht]
  | _ => trivial

/-- Both copy before either clears the length. -/
def copiesTogether : List Label := bothWoken ++ [.run 0 0,.run 1 0]

theorem two_sleepers_copy_one_packet :
    ∃ s ∈ run step canDevice copiesTogether, copyCount 1 s.readLog = 2 := by decide

end NrDriver.ConcurrentReaders
