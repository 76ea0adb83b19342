import NrDriver.IdleThreads

/-!
# Sleepers and their wake-ups

`wake_up` has to be called after changing any variable that could change the
result of a wait condition, as the comments of `nr_read` say. Both completion
handlers do; `nr_open` clears the two flags and wakes nobody. With any number of
threads, a sleeper whose condition has become true exists exactly on the runs
where an open clears a flag over somebody who sleeps on it.
-/
namespace NrDriver.WakeUps
open KernelModel TransferSteps ReadHalfSteps WriteHalfSteps LabelledRuns

/-- Everybody who sleeps still has something to wait for. -/
structure NoneMissed (s : Device) : Prop where
  reader : ∀ t, readerAt s t = some .asleep → s.nr.ongoingRead = true
  writer : ∀ t, writerAt s t = some .asleep → s.nr.outgoingWrite = true

/-- An open clears no flag over a sleeper. -/
def SparesSleepers (s : Device) : Label → Prop
  | .openWrite .ongoingRead => ∀ t, readerAt s t ≠ some .asleep
  | .openWrite .outgoingWrite => ∀ t, writerAt s t ≠ some .asleep
  | _ => True

def ReadersWait (v : ReadHalf) : Prop :=
  ∀ t c, v.call t = some c → c.pc = .asleep → v.ongoing = true

def WritersWait (v : WriteHalf) : Prop :=
  ∀ t c, v.call t = some c → c.pc = .asleep → v.outgoing = true

theorem noneMissed_iff {s : Device} :
    NoneMissed s ↔ ReadersWait (readHalf s) ∧ WritersWait (writeHalf s) := by
  constructor
  · intro h
    refine ⟨fun t c hc hpc => h.reader t ?_,fun t c hc hpc => h.writer t ?_⟩
    · rw [readerAt_of_call hc,hpc]
    · rw [writerAt_of_call hc,hpc]
  · intro h
    refine ⟨fun t ht => ?_,fun t ht => ?_⟩
    · obtain ⟨c,hc,hpc⟩ := call_of_readerAt ht
      exact h.1 t c hc hpc
    · obtain ⟨c,hc,hpc⟩ := call_of_writerAt ht
      exact h.2 t c hc hpc

theorem ReadersWait.step {v v' : ReadHalf} {a : ReadAct} (h : ReadersWait v)
    (ha : a ≠ .openOngoing) (hs : ReadHalf.Step v a v') : ReadersWait v' := by
  -- a statement that does not end asleep
  have moved {t : ℕ} {c : ReadCall} (hpc : c.pc ≠ .asleep)
      (hcall : v'.call = Function.update v.call t (some c))
      (hon : v.ongoing = true → v'.ongoing = true) : ReadersWait v' := by
    intro u d hd hsleep
    rw [hcall] at hd
    rcases update_some_cases hd with ⟨_,he⟩ | ⟨_,hold⟩
    · cases he
      exact (hpc hsleep).elim
    · exact hon (h u d hold hsleep)
  cases hs with
  | sleeps _ _ hon => exact fun _ _ _ _ => hon
  | begins => exact moved (by simp [ReadCall.start]) rfl id
  | sets => exact moved (by simp) rfl fun _ => rfl
  | returns =>
      intro u d hd hsleep
      rcases update_some_cases hd with ⟨_,he⟩ | ⟨_,hold⟩
      · cases he
      · exact h u d hold hsleep
  | completes =>
      intro u d hd hsleep
      obtain ⟨c,_,rfl⟩ := Option.map_eq_some_iff.mp hd
      rcases ReadCall.wake_cases c with ⟨_,he⟩ | ⟨hpc,he⟩
      · simp [he] at hsleep
      · exact (hpc (he ▸ hsleep)).elim
  | opensLen => exact h
  | opensOngoing => exact (ha rfl).elim
  | _ => exact moved (by simp) rfl id

theorem WritersWait.step {v v' : WriteHalf} {a : WriteAct} (h : WritersWait v)
    (ha : a ≠ .openOutgoing) (hs : WriteHalf.Step v a v') : WritersWait v' := by
  have moved {t : ℕ} {c : WriteCall} (hpc : c.pc ≠ .asleep)
      (hcall : v'.call = Function.update v.call t (some c))
      (hout : v.outgoing = true → v'.outgoing = true) : WritersWait v' := by
    intro u d hd hsleep
    rw [hcall] at hd
    rcases update_some_cases hd with ⟨_,he⟩ | ⟨_,hold⟩
    · cases he
      exact (hpc hsleep).elim
    · exact hout (h u d hold hsleep)
  cases hs with
  | sleeps _ _ hout => exact fun _ _ _ _ => hout
  | begins => exact moved (by simp [WriteCall.start]) rfl id
  | sets => exact moved (by simp) rfl fun _ => rfl
  | returns =>
      intro u d hd hsleep
      rcases update_some_cases hd with ⟨_,he⟩ | ⟨_,hold⟩
      · cases he
      · exact h u d hold hsleep
  | completes =>
      intro u d hd hsleep
      obtain ⟨c,_,rfl⟩ := Option.map_eq_some_iff.mp hd
      rcases WriteCall.wake_cases c with ⟨_,he⟩ | ⟨hpc,he⟩
      · simp [he] at hsleep
      · exact (hpc (he ▸ hsleep)).elim
  | takes => exact h
  | opens => exact (ha rfl).elim
  | _ => exact moved (by simp) rfl id

theorem noneMissed_step {s s' : Device} {l : Label} (h : NoneMissed s)
    (hs : step s l = some s') : NoneMissed s' ↔ SparesSleepers s l := by
  have keeps (hr : readAct s l ≠ some .openOngoing) (hw : writeAct s l ≠ some .openOutgoing) :
      NoneMissed s' := by
    obtain ⟨hread,hwrite⟩ := noneMissed_iff.mp h
    refine noneMissed_iff.mpr ⟨readHalf_kept hread hs fun a ha hm => ?_,
      writeHalf_kept hwrite hs fun a ha hm => ?_⟩
    · exact hread.step (fun he => hr (he ▸ ha)) hm
    · exact hwrite.step (fun he => hw (he ▸ ha)) hm
  cases l with
  | openWrite w =>
      cases w with
      | lenInBuffer => exact iff_of_true (keeps (by simp [readAct]) (by simp [writeAct])) trivial
      | ongoingRead =>
          cases hs
          constructor
          · intro h' t ht
            cases h'.reader t ht
          · intro hspared
            exact ⟨fun t ht => (hspared t ht).elim,h.writer⟩
      | outgoingWrite =>
          cases hs
          constructor
          · intro h' t ht
            cases h'.writer t ht
          · intro hspared
            exact ⟨h.reader,fun t ht => (hspared t ht).elim⟩
  | beginRead | beginWrite | inCompletes | outTakes | outCompletes =>
      exact iff_of_true (keeps (by simp [readAct]) (by simp [writeAct])) trivial
  | run t k | signal t =>
      refine iff_of_true (keeps ?_ ?_) trivial
      · simp [readAct]
      · simp [writeAct]

/-- On a device opened once, nobody ever sleeps with nothing to wait for, except
after an open that clears a flag over a sleeper. -/
theorem wake_ups_missed_by_opens_only (epIn epOut : EndpointDescriptor) (memIn memOut : ℕ → Byte)
    (ls : List Label) :
    Throughout step NoneMissed (.opened epIn epOut memIn memOut) ls ↔
      Along step SparesSleepers (.opened epIn epOut memIn memOut) ls := by
  refine throughout_iff_along (J := fun _ => True) (fun _ _ _ _ _ => trivial)
    (fun _ _ _ _ h hs => noneMissed_step h hs) ?_ trivial ?_
  · intro s l hs
    cases l with
    | openWrite w => cases hs
    | _ => trivial
  · constructor
    · intro t ht
      cases ht
    · intro t ht
      cases ht

end NrDriver.WakeUps
