import NrDriver.TransferBounds

/-!
# One reader

Runs in which one thread makes all the calls of `nr_read` on a device that is
not opened again. Writers are unrestricted, since no step of theirs touches the
read half. Whatever the signals, refused submissions and completions are, a URB
in flight has the flag set or its submitter about to set it, and the statements
between the test of the flag and the submission run with the flag clear, hence
with no URB in flight (`Sole`).

The flag is assigned after the submission. On runs where no completion falls
between the two, a set flag means a URB in flight (`Landed`); where one does,
nothing ever clears the flag again. No byte is lost either way (`Stream`).
-/
namespace NrDriver.SingleReader
open KernelModel TransferSteps ReadHalfSteps TransferBounds LabelledRuns

/-- Only thread `r` reads and nothing opens the device again. -/
def oneReader (r : ℕ) : Label → Bool
  | .beginRead t _ _ _ => t == r
  | .openWrite _ => false
  | _ => true

def soleAct (r : ℕ) : ReadAct → Prop
  | .begin t _ _ _ => t = r
  | .openLen | .openOngoing => False
  | _ => True

theorem soleAct_of_oneReader {r : ℕ} {s : Device} {l : Label} {a : ReadAct}
    (hl : oneReader r l = true) (ha : readAct s l = some a) : soleAct r a := by
  cases l with
  | beginRead t filp count ppos =>
      cases ha
      simpa [oneReader,soleAct] using hl
  | openWrite w => simp [oneReader] at hl
  | run t k =>
      obtain ⟨c,_,rfl⟩ := Option.map_eq_some_iff.mp ha
      trivial
  | signal t =>
      obtain ⟨c,_,rfl⟩ := Option.map_eq_some_iff.mp ha
      trivial
  | inCompletes status packet =>
      cases ha
      trivial
  | _ => cases ha

/-- The statements of `nr_read` from the test that finds the flag clear to the
submission. -/
def resting : ReadPc → Bool
  | .testLen | .copy | .position | .result | .clear | .fill | .submit => true
  | _ => false

structure Sole (r : ℕ) (v : ReadHalf) : Prop where
  others : ∀ t, t ≠ r → v.call t = none
  flying : v.urb.flight ≠ none →
    v.ongoing = true ∨ ∃ c, v.call r = some c ∧ c.pc = .setOngoing
  quiet : ∀ c, v.call r = some c → resting c.pc = true → v.ongoing = false

namespace Sole
variable {r : ℕ} {v v' : ReadHalf} {a : ReadAct}

theorem thread (h : Sole r v) {t : ℕ} {c : ReadCall} (hc : v.call t = some c) : t = r := by
  by_contra ht
  simp [h.others t ht] at hc

theorem grounded (h : Sole r v) {c : ReadCall} (hc : v.call r = some c)
    (hpc : resting c.pc = true) : v.urb.flight = none := by
  by_contra hf
  rcases h.flying hf with hon | ⟨c',hc',hset⟩
  · simp [h.quiet c hc hpc] at hon
  · rw [hc] at hc'
    cases hc'
    simp [hset,resting] at hpc

theorem of_call (h : Sole r v) {c : ReadCall}
    (hcall : v'.call = Function.update v.call r (some c))
    (hfly : v'.urb.flight ≠ none → v'.ongoing = true ∨ c.pc = .setOngoing)
    (hq : resting c.pc = true → v'.ongoing = false) : Sole r v' := by
  have hr : v'.call r = some c := by simp [hcall]
  refine ⟨?_,?_,?_⟩
  · intro t ht
    simp [hcall,ht,h.others t ht]
  · exact fun hf => (hfly hf).imp_right fun hset => ⟨c,hr,hset⟩
  · intro c' hc' hpc
    rw [hr] at hc'
    cases hc'
    exact hq hpc

theorem step (h : Sole r v) (ha : soleAct r a) (hs : ReadHalf.Step v a v') : Sole r v' := by
  -- a statement that starts resting keeps the flag clear and nothing in flight
  have rest {t : ℕ} {c : ReadCall} (hc : v.call t = some c) (hpc : resting c.pc = true) :
      t = r ∧ v.ongoing = false ∧ v.urb.flight = none := by
    obtain rfl := h.thread hc
    exact ⟨rfl,h.quiet c hc hpc,h.grounded hc hpc⟩
  -- elsewhere a URB in flight has its flag set, unless the reader is about to set it
  have busy {t : ℕ} {c : ReadCall} (hc : v.call t = some c) (hpc : c.pc ≠ .setOngoing) :
      v.urb.flight ≠ none → v.ongoing = true := by
    obtain rfl := h.thread hc
    intro hf
    rcases h.flying hf with hon | ⟨c',hc',hset⟩
    · exact hon
    · rw [hc] at hc'
      cases hc'
      exact (hpc hset).elim
  cases hs with
  | begins t filp count ppos hidle =>
      obtain rfl : t = r := ha
      refine h.of_call rfl (fun hf => .inl ?_) (by simp [ReadCall.start,resting])
      rcases h.flying hf with hon | ⟨c,hc,_⟩
      · exact hon
      · simp [hidle] at hc
  | seesOngoing hc hpc hon | sleeps hc hpc hon | interrupted hc hpc hon =>
      obtain rfl := h.thread hc
      exact h.of_call rfl (fun _ => .inl hon) (by simp [resting])
  | seesQuiet hc hpc hoff | waitEnds hc hpc hoff =>
      obtain rfl := h.thread hc
      exact h.of_call rfl (fun hf => .inl (busy hc (by simp [hpc]) hf)) (fun _ => hoff)
  | seesData hc hpc | seesEmpty hc hpc | copies hc hpc | advances hc hpc | computes hc hpc
  | fills hc hpc =>
      obtain ⟨rfl,hoff,hf⟩ := rest hc (by simp [hpc,resting])
      exact h.of_call rfl (fun hn => (hn hf).elim) (fun _ => hoff)
  | clears hc hpc | refused hc hpc =>
      obtain ⟨rfl,hoff,hf⟩ := rest hc (by simp [hpc,resting])
      exact h.of_call rfl (fun hn => (hn hf).elim) (by simp [resting])
  | submits hc hpc =>
      obtain rfl := h.thread hc
      exact h.of_call rfl (fun _ => .inr rfl) (by simp [resting])
  | sets hc hpc =>
      obtain rfl := h.thread hc
      exact h.of_call rfl (fun _ => .inl rfl) (by simp [resting])
  | signalLate hc hpc hoff =>
      obtain rfl := h.thread hc
      refine h.of_call rfl (fun hf => .inl (busy hc ?_ hf)) (fun _ => hoff)
      rcases hpc with hpc | hpc <;> simp [hpc]
  | returns hc hpc =>
      obtain rfl := h.thread hc
      refine ⟨?_,fun hf => .inl (busy hc (by simp [hpc]) hf),by simp⟩
      intro u hu
      simp [hu,h.others u hu]
  | completes status hf hlen =>
      refine ⟨?_,by simp,by simp⟩
      intro u hu
      simp [h.others u hu]
  | opensLen => exact ha.elim
  | opensOngoing => exact ha.elim

end Sole

/-- On runs where no completion falls between a submission and the assignment
of the flag, a set flag means a URB in flight. -/
structure Landed (r : ℕ) (v : ReadHalf) : Prop where
  ongoing : v.ongoing = true → v.urb.flight ≠ none
  submitted : ∀ c, v.call r = some c → c.pc = .setOngoing → v.urb.flight ≠ none

namespace Landed
variable {r : ℕ} {v v' : ReadHalf} {a : ReadAct}

theorem of_call (h : Landed r v) {c : ReadCall}
    (hcall : v'.call = Function.update v.call r (some c)) (hpc : c.pc ≠ .setOngoing)
    (hon : v'.ongoing = v.ongoing) (hf : v'.urb.flight = v.urb.flight) : Landed r v' := by
  refine ⟨?_,?_⟩
  · rw [hon,hf]
    exact h.ongoing
  · intro c' hc' hset
    rw [hcall,Function.update_self] at hc'
    cases hc'
    exact (hpc hset).elim

theorem step (h : Landed r v) (hS : Sole r v) (ha : soleAct r a)
    (hearly : ∀ status packet, a = .completes status packet →
      ∀ c, v.call r = some c → c.pc ≠ .setOngoing)
    (hs : ReadHalf.Step v a v') : Landed r v' := by
  cases hs with
  | begins t filp count ppos =>
      obtain rfl : t = r := ha
      exact h.of_call rfl (by simp [ReadCall.start]) rfl rfl
  | submits hc =>
      obtain rfl := hS.thread hc
      exact ⟨fun _ => by simp,fun _ _ _ => by simp⟩
  | sets hc hpc =>
      obtain rfl := hS.thread hc
      refine ⟨fun _ => h.submitted _ hc hpc,?_⟩
      intro c' hc' hset
      simp only [ReadHalf.put_call,Function.update_self,Option.some.injEq] at hc'
      subst hc'
      cases hset
  | returns hc hpc =>
      obtain rfl := hS.thread hc
      exact ⟨h.ongoing,by simp⟩
  | completes status hf hlen =>
      refine ⟨by simp,?_⟩
      intro c' hc' hset
      obtain ⟨c,hc,rfl⟩ := Option.map_eq_some_iff.mp hc'
      have hne := hearly _ _ rfl c hc
      rcases ReadCall.wake_cases c with ⟨_,he⟩ | ⟨_,he⟩
      · rw [he] at hset
        cases hset
      · rw [he] at hset
        exact (hne hset).elim
  | opensLen => exact ha.elim
  | opensOngoing => exact ha.elim
  | seesOngoing hc | seesQuiet hc | sleeps hc | waitEnds hc | seesData hc | seesEmpty hc
  | copies hc | advances hc | computes hc | clears hc | fills hc | refused hc
  | interrupted hc | signalLate hc =>
      obtain rfl := hS.thread hc
      exact h.of_call rfl (by simp) rfl rfl

end Landed

def packetBytes : ReadEvent → List Byte
  | .received _ _ packet => packet
  | _ => []

def userBytes : ReadEvent → List Byte
  | .returned _ _ _ user rs _ => if 0 < rs then user else []
  | _ => []

/-- All bytes of the packets of completed transfers, in order. -/
def receivedBytes (log : List ReadEvent) : List Byte := log.flatMap packetBytes

/-- All bytes handed over by the calls that returned a positive value. -/
def deliveredBytes (log : List ReadEvent) : List Byte := log.flatMap userBytes

@[simp] theorem receivedBytes_append (l m : List ReadEvent) :
    receivedBytes (l ++ m) = receivedBytes l ++ receivedBytes m := List.flatMap_append ..

@[simp] theorem deliveredBytes_append (l m : List ReadEvent) :
    deliveredBytes (l ++ m) = deliveredBytes l ++ deliveredBytes m := List.flatMap_append ..

@[simp] theorem receivedBytes_singleton (e : ReadEvent) : receivedBytes [e] = packetBytes e := by
  simp [receivedBytes]

@[simp] theorem deliveredBytes_singleton (e : ReadEvent) : deliveredBytes [e] = userBytes e := by
  simp [deliveredBytes]

/-- What a call is about to return with. -/
def inHand : Option ReadCall → List Byte
  | some c => if c.pc = .exit ∧ 0 < c.rs then c.user else []
  | none => []

theorem inHand_of_ne_exit {c : ReadCall} (hpc : c.pc ≠ .exit) : inHand (some c) = [] := by
  simp [inHand,hpc]

theorem inHand_wake (b : Option ReadCall) : inHand (b.map ReadCall.wake) = inHand b := by
  cases b with
  | none => rfl
  | some c =>
      rcases ReadCall.wake_cases c with ⟨hs,he⟩ | ⟨_,he⟩
      · simp [inHand,he,hs]
      · simp [he]

/-- The copy of a call that has copied and not yet cleared the length. -/
structure Copied (v : ReadHalf) (c : ReadCall) : Prop where
  user : c.user = v.buffer.get v.len
  pos : 0 < v.len
  rs : c.rs = if c.pc = .clear then (v.len : ℤ) else 0

theorem Copied.computed {v : ReadHalf} {c : ReadCall} {ep : EndpointDescriptor} (h : Copied v c)
    (hb : ReadBounds ep v) (hpc : c.pc = .result) :
    toSsize (sizeSub v.len (toSize c.rs)) = v.len := by
  have hrs : c.rs = 0 := by simpa [hpc] using h.rs
  have hzero : toSize c.rs = 0 := by rw [hrs]; rfl
  have hlt : v.len < 2^16 := Nat.lt_of_le_of_lt hb.len ep.packetSize_lt
  rw [hzero,sizeSub_of_le (Nat.zero_le _) (by omega),toSsize_natCast (by omega),Nat.sub_zero]

def consuming : ReadPc → Bool
  | .position | .result | .clear => true
  | _ => false

/-- The in path as a stream: a URB in flight finds the buffer empty, and what
was received is what was delivered, then what a call is about to return, then
what the buffer still holds. -/
structure Stream (r : ℕ) (v : ReadHalf) : Prop where
  empty : v.urb.flight ≠ none → v.len = 0
  dry : ∀ c, v.call r = some c → c.pc = .fill ∨ c.pc = .submit → v.len = 0
  full : ∀ c, v.call r = some c → c.pc = .copy → 0 < v.len
  copied : ∀ c, v.call r = some c → consuming c.pc = true → Copied v c
  account : receivedBytes v.log =
    deliveredBytes v.log ++ inHand (v.call r) ++ v.buffer.get v.len

namespace Stream
variable {r : ℕ} {v v' : ReadHalf} {a : ReadAct}

/-- A statement that changes no length, no buffer and no flight, and brings the
call to a statement with no obligation of its own. -/
theorem of_call (h : Stream r v) {c c' : ReadCall} (hc : v.call r = some c)
    (hcall : v'.call = Function.update v.call r (some c'))
    (hlen : v'.len = v.len) (hbuf : v'.buffer = v.buffer)
    (hf : v'.urb.flight ≠ none → v'.len = 0)
    (hrec : receivedBytes v'.log = receivedBytes v.log)
    (hdel : deliveredBytes v'.log = deliveredBytes v.log)
    (hpc : c.pc ≠ .exit) (hhand : inHand (some c') = [])
    (hdry : c'.pc = .fill ∨ c'.pc = .submit → v.len = 0)
    (hfull : c'.pc = .copy → 0 < v.len)
    (hcopied : consuming c'.pc = true → Copied v c') : Stream r v' := by
  have hr : v'.call r = some c' := by simp [hcall]
  have hold := h.account
  rw [hc,inHand_of_ne_exit hpc] at hold
  refine ⟨hf,?_,?_,?_,?_⟩
  · intro d hd hpd
    rw [hr] at hd
    cases hd
    rw [hlen]
    exact hdry hpd
  · intro d hd hpd
    rw [hr] at hd
    cases hd
    rw [hlen]
    exact hfull hpd
  · intro d hd hpd
    rw [hr] at hd
    cases hd
    have hk := hcopied hpd
    exact ⟨by rw [hbuf,hlen]; exact hk.user,by rw [hlen]; exact hk.pos,by rw [hlen]; exact hk.rs⟩
  · rw [hr,hhand,hrec,hdel,hbuf,hlen]
    exact hold

theorem step {ep : EndpointDescriptor} (h : Stream r v) (hS : Sole r v) (hb : ReadBounds ep v)
    (ha : soleAct r a)
    (hcopy : ∀ t k, a = .run t k → ∀ c, v.call t = some c → c.pc = .copy → k = 0)
    (hs : ReadHalf.Step v a v') : Stream r v' := by
  have rest {t : ℕ} {c : ReadCall} (hc : v.call t = some c) (hpc : resting c.pc = true) :
      t = r ∧ v.urb.flight = none := by
    obtain rfl := hS.thread hc
    exact ⟨rfl,hS.grounded hc hpc⟩
  cases hs with
  | begins t filp count ppos hidle =>
      obtain rfl : t = r := ha
      have hold := h.account
      rw [hidle] at hold
      refine ⟨h.empty,?_,?_,?_,?_⟩
      · simp [ReadCall.start]
      · simp [ReadCall.start]
      · simp [ReadCall.start,consuming]
      · simpa [inHand,ReadCall.start] using hold
  | seesOngoing hc hpc | seesQuiet hc hpc | sleeps hc hpc | waitEnds hc hpc =>
      obtain rfl := hS.thread hc
      exact h.of_call hc rfl rfl rfl h.empty rfl rfl (by simp [hpc]) (by simp [inHand])
        (by simp) (by simp) (by simp [consuming])
  | seesData hc hpc hpos =>
      obtain rfl := hS.thread hc
      exact h.of_call hc rfl rfl rfl h.empty rfl rfl (by simp [hpc]) (by simp [inHand])
        (by simp) (fun _ => hpos) (by simp [consuming])
  | seesEmpty hc hpc hzero =>
      obtain rfl := hS.thread hc
      exact h.of_call hc rfl rfl rfl h.empty rfl rfl (by simp [hpc]) (by simp [inHand])
        (fun _ => hzero) (by simp) (by simp [consuming])
  | @copies t k c hc hpc hk =>
      obtain rfl := hS.thread hc
      obtain rfl := hcopy _ _ rfl c hc hpc
      refine h.of_call hc rfl rfl rfl h.empty (by simp [packetBytes]) (by simp [userBytes])
        (by simp [hpc]) (by simp [inHand]) (by simp) (by simp) fun _ => ?_
      exact ⟨rfl,h.full c hc hpc,rfl⟩
  | @advances t k c hc hpc =>
      obtain rfl := hS.thread hc
      have hk := h.copied c hc (by simp [hpc,consuming])
      refine h.of_call hc rfl rfl rfl h.empty rfl rfl (by simp [hpc]) (by simp [inHand])
        (by simp) (by simp) fun _ => ?_
      exact ⟨hk.user,hk.pos,by simpa [hpc] using hk.rs⟩
  | @computes t k c hc hpc =>
      obtain rfl := hS.thread hc
      have hk := h.copied c hc (by simp [hpc,consuming])
      refine h.of_call hc rfl rfl rfl h.empty rfl rfl (by simp [hpc]) (by simp [inHand])
        (by simp) (by simp) fun _ => ⟨hk.user,hk.pos,?_⟩
      simp only [if_true]
      exact hk.computed hb hpc
  | @clears t k c hc hpc =>
      obtain ⟨rfl,hf⟩ := rest hc (by simp [hpc,resting])
      have hk := h.copied c hc (by simp [hpc,consuming])
      have hrs : c.rs = v.len := by simpa [hpc] using hk.rs
      have hold := h.account
      rw [hc, inHand_of_ne_exit (by simp [hpc])] at hold
      have hpos : 0 < c.rs := by have := hk.pos; omega
      refine ⟨fun hn => (hn hf).elim,by simp,by simp,by simp [consuming],?_⟩
      simpa [inHand,hpos,hk.user] using hold
  | fills hc hpc =>
      obtain rfl := hS.thread hc
      exact h.of_call hc rfl rfl rfl h.empty rfl rfl (by simp [hpc]) (by simp [inHand])
        (fun _ => h.dry _ hc (.inl hpc)) (by simp) (by simp [consuming])
  | submits hc hpc =>
      obtain rfl := hS.thread hc
      exact h.of_call hc rfl rfl rfl (fun _ => h.dry _ hc (.inr hpc)) (by simp [packetBytes])
        (by simp [userBytes]) (by simp [hpc]) (by simp [inHand]) (by simp) (by simp)
        (by simp [consuming])
  | refused hc hpc hcode =>
      obtain rfl := hS.thread hc
      refine h.of_call hc rfl rfl rfl h.empty (by simp [packetBytes])
        (by simp [userBytes]) (by simp [hpc]) ?_ (by simp) (by simp) (by simp [consuming])
      simp only [inHand]
      rw [if_neg (by omega)]
  | sets hc hpc =>
      obtain rfl := hS.thread hc
      exact h.of_call hc rfl rfl rfl h.empty rfl rfl (by simp [hpc]) (by simp [inHand])
        (by simp) (by simp) (by simp [consuming])
  | interrupted hc hpc hon =>
      obtain rfl := hS.thread hc
      exact h.of_call hc rfl rfl rfl h.empty rfl rfl (by rcases hpc with hpc | hpc <;> simp [hpc])
        (by simp [inHand,ERESTARTSYS]) (by simp) (by simp) (by simp [consuming])
  | signalLate hc hpc hoff =>
      obtain rfl := hS.thread hc
      exact h.of_call hc rfl rfl rfl h.empty rfl rfl (by rcases hpc with hpc | hpc <;> simp [hpc])
        (by simp [inHand]) (by simp) (by simp) (by simp [consuming])
  | @returns t k c hc hpc =>
      obtain rfl := hS.thread hc
      have hold := h.account
      rw [hc] at hold
      refine ⟨h.empty,by simp,by simp,by simp,?_⟩
      simpa [inHand,hpc,packetBytes,userBytes] using hold
  | @completes status packet f hf hlen =>
      have hempty : v.len = 0 := h.empty (by simp [hf])
      -- no resting statement can see the completion
      have hrest {c : ReadCall} (hc : v.call r = some c) : resting c.pc = false := by
        by_contra hpc
        simp [hS.grounded hc (by simpa using hpc)] at hf
      have hwake {c' : ReadCall} (hc' : (v.call r).map ReadCall.wake = some c') :
          resting c'.pc = false := by
        obtain ⟨c,hc,rfl⟩ := Option.map_eq_some_iff.mp hc'
        rcases ReadCall.wake_cases c with ⟨_,he⟩ | ⟨_,he⟩
        · simp [he,resting]
        · rw [he]
          exact hrest hc
      refine ⟨by simp,?_,?_,?_,?_⟩
      · intro c' hc' hpc
        have := hwake hc'
        rcases hpc with hpc | hpc <;> simp [hpc,resting] at this
      · intro c' hc' hpc
        have := hwake hc'
        simp [hpc,resting] at this
      · intro c' hc' hpc
        have := hwake hc'
        cases hp : c'.pc <;> simp [hp,resting,consuming] at this hpc
      · have hold := h.account
        rw [hempty,Buffer.get_zero,List.append_nil] at hold
        simp [inHand_wake,hold,packetBytes,userBytes]
  | opensLen => exact ha.elim
  | opensOngoing => exact ha.elim

end Stream

/-- No completion of the in URB falls between the reader's submission and its
assignment of the flag. -/
def NoEarlyCompletion (r : ℕ) (s : Device) : Label → Prop
  | .inCompletes _ _ => readerAt s r ≠ some .setOngoing
  | _ => True

instance (r : ℕ) (s : Device) (l : Label) : Decidable (NoEarlyCompletion r s l) :=
  match l with
  | .inCompletes _ _ => inferInstanceAs (Decidable (_ ≠ _))
  | .beginRead .. | .beginWrite .. | .openWrite _ | .run .. | .signal _ | .outTakes
  | .outCompletes .. => isTrue trivial

/-- The reader waits for a completion that will not come. -/
def Stranded (r : ℕ) (s : Device) : Prop :=
  (readerAt s r = some .testWait ∨ readerAt s r = some .asleep) ∧
    s.nr.ongoingRead = true ∧ s.nr.intInUrb.flight = none

instance (r : ℕ) (s : Device) : Decidable (Stranded r s) :=
  inferInstanceAs (Decidable (_ ∧ _))

/-- Every `copy_to_user` copies all it is asked for. -/
def FullCopy (s : Device) : Label → Prop
  | .run t k => readerAt s t = some .copy → k = 0
  | _ => True

instance (s : Device) (l : Label) : Decidable (FullCopy s l) :=
  match l with
  | .run .. => inferInstanceAs (Decidable (_ → _))
  | .beginRead .. | .beginWrite .. | .openWrite _ | .signal _ | .inCompletes .. | .outTakes
  | .outCompletes .. => isTrue trivial

theorem sole_opened (epIn epOut : EndpointDescriptor) (memIn memOut : ℕ → Byte) (r : ℕ) :
    Sole r (readHalf (Device.opened epIn epOut memIn memOut)) :=
  ⟨fun _ _ => rfl,fun hf => (hf rfl).elim,fun _ hc => by cases hc⟩

theorem sole_step {r : ℕ} {s s' : Device} {l : Label} (h : Sole r (readHalf s))
    (hl : oneReader r l = true) (hs : step s l = some s') : Sole r (readHalf s') :=
  readHalf_kept h hs fun _ ha hr => h.step (soleAct_of_oneReader hl ha) hr

theorem landed_step {r : ℕ} {s s' : Device} {l : Label} (h : Landed r (readHalf s))
    (hS : Sole r (readHalf s)) (hl : oneReader r l = true) (hearly : NoEarlyCompletion r s l)
    (hs : step s l = some s') : Landed r (readHalf s') := by
  refine readHalf_kept h hs fun a ha hr => h.step hS (soleAct_of_oneReader hl ha) ?_ hr
  intro status packet hact c hc hset
  subst hact
  obtain rfl : l = .inCompletes status packet := label_of_readAct ha
  exact hearly (by rw [readerAt_of_call hc,hset])

theorem stream_step {r : ℕ} {ep : EndpointDescriptor} {s s' : Device} {l : Label}
    (h : Stream r (readHalf s)) (hS : Sole r (readHalf s)) (hb : ReadBounds ep (readHalf s))
    (hl : oneReader r l = true) (hcopy : FullCopy s l) (hs : step s l = some s') :
    Stream r (readHalf s') := by
  refine readHalf_kept h hs fun a ha hr => h.step hS hb (soleAct_of_oneReader hl ha) ?_ hr
  intro t k hact c hc hpc
  subst hact
  obtain rfl : l = .run t k := label_of_readAct ha
  exact hcopy (by rw [readerAt_of_call hc,hpc])

theorem streaming_step {epIn epOut : EndpointDescriptor} {r : ℕ} {s s' : Device} {l : Label}
    (h : Bounds epIn epOut s ∧ Sole r (readHalf s) ∧ Stream r (readHalf s))
    (hl : oneReader r l = true) (hcopy : FullCopy s l) (hs : step s l = some s') :
    Bounds epIn epOut s' ∧ Sole r (readHalf s') ∧ Stream r (readHalf s') := by
  obtain ⟨hb,hS,hstream⟩ := h
  exact ⟨hb.step hs,sole_step hS hl hs,stream_step hstream hS hb.1 hl hcopy hs⟩

theorem call_of_idle {s : Device} {t : ℕ} (hidle : readerAt s t = none) :
    (readHalf s).call t = none := by
  cases hc : (readHalf s).call t with
  | none => rfl
  | some c => simp [readerAt_of_call hc] at hidle

theorem Stream.account_idle {r : ℕ} {s : Device} (h : Stream r (readHalf s))
    (hidle : readerAt s r = none) :
    deliveredBytes s.readLog ++ s.nr.intInBuffer.get s.nr.lenInBuffer =
      receivedBytes s.readLog := by
  have hacc := h.account
  rw [call_of_idle hidle] at hacc
  simpa [inHand,readHalf] using hacc.symm

section Runs
variable (epIn epOut : EndpointDescriptor) (memIn memOut : ℕ → Byte) (r : ℕ)

/-- On runs where every completion finds the flag of its submission assigned,
a reader that waits has a completion to come. -/
theorem waiting_reader_has_urb_in_flight {ls : List Label} {s : Device}
    (hrun : run step (.opened epIn epOut memIn memOut) ls = some s)
    (hone : ∀ l ∈ ls, oneReader r l = true)
    (hearly : Along step (NoEarlyCompletion r) (.opened epIn epOut memIn memOut) ls) :
    ¬ Stranded r s := by
  have hinv : Sole r (readHalf s) ∧ Landed r (readHalf s) := by
    refine run_invariant (I := fun s => Sole r (readHalf s) ∧ Landed r (readHalf s))
      (P := fun s l => oneReader r l = true ∧ NoEarlyCompletion r s l) ?_ ⟨?_,?_⟩
      (.labels_and hone hearly) hrun
    · exact fun s l u hI hP hs => ⟨sole_step hI.1 hP.1 hs,landed_step hI.2 hI.1 hP.1 hP.2 hs⟩
    · exact sole_opened epIn epOut memIn memOut r
    · refine ⟨fun hon => ?_,fun _ hc => ?_⟩
      · cases hon
      · cases hc
  intro hstranded
  obtain ⟨_,hon,hf⟩ := hstranded
  exact hinv.2.ongoing hon hf

theorem streaming_opened :
    Bounds epIn epOut (Device.opened epIn epOut memIn memOut) ∧
      Sole r (readHalf (Device.opened epIn epOut memIn memOut)) ∧
      Stream r (readHalf (Device.opened epIn epOut memIn memOut)) := by
  refine ⟨bounds_probed epIn epOut memIn memOut,sole_opened epIn epOut memIn memOut r,
    fun hf => (hf rfl).elim,?_,?_,?_,rfl⟩
  all_goals
    intro c hc
    cases hc

/-- No byte is lost, duplicated or reordered: between two calls, what was
delivered and what the buffer still holds is what was received. -/
theorem delivered_append_buffered {ls : List Label} {s : Device}
    (hrun : run step (.opened epIn epOut memIn memOut) ls = some s)
    (hone : ∀ l ∈ ls, oneReader r l = true)
    (hcopy : Along step FullCopy (.opened epIn epOut memIn memOut) ls)
    (hidle : readerAt s r = none) :
    deliveredBytes s.readLog ++ s.nr.intInBuffer.get s.nr.lenInBuffer =
      receivedBytes s.readLog := by
  have hinv := run_invariant
    (I := fun s => Bounds epIn epOut s ∧ Sole r (readHalf s) ∧ Stream r (readHalf s))
    (fun s l u hI hP hs => streaming_step hI hP.1 hP.2 hs)
    (streaming_opened epIn epOut memIn memOut r) (.labels_and hone hcopy) hrun
  exact hinv.2.2.account_idle hidle

end Runs

/-- A call that a signal ends, whose transfer completes before the next call
collects the packet. -/
def signalThenPacket : List Label :=
  [.beginRead 0 0 64 0,.run 0 0,.run 0 0,.run 0 0,.run 0 0,.run 0 0,.run 0 0,.run 0 0,.signal 0,
    .run 0 0,.inCompletes 0 [7,8],.beginRead 0 0 64 0,.run 0 0,.run 0 0,.run 0 0,.run 0 0,.run 0 0,
    .run 0 0,.run 0 0]

/-- Its first eight steps leave the reader asleep. -/
theorem signal_then_packet_not_stranded :
    ∃ s ∈ run step canDevice (signalThenPacket.take 8), readerAt s 0 = some .asleep ∧
      ¬ Stranded 0 s := by
  obtain ⟨s,hs,hpc⟩ : ∃ s ∈ run step canDevice (signalThenPacket.take 8),
    readerAt s 0 = some .asleep := by decide
  exact ⟨s,hs,hpc,waiting_reader_has_urb_in_flight canIn canOut (fun _ => 0) (fun _ => 0) 0 hs
    (by decide) (by decide)⟩

theorem signal_then_packet_delivered :
    ∃ s ∈ run step canDevice signalThenPacket, receivedBytes s.readLog = [7,8] ∧
      deliveredBytes s.readLog ++ s.nr.intInBuffer.get s.nr.lenInBuffer =
        receivedBytes s.readLog := by
  obtain ⟨s,hs,hidle,hrec⟩ : ∃ s ∈ run step canDevice signalThenPacket,
    readerAt s 0 = none ∧ receivedBytes s.readLog = [7,8] := by decide
  exact ⟨s,hs,hrec,delivered_append_buffered canIn canOut (fun _ => 0) (fun _ => 0) 0 hs
    (by decide) (by decide) hidle⟩

/-- A completion that arrives before the flag is assigned. -/
def earlyCompletion : List Label :=
  [.beginRead 0 0 64 0,.run 0 0,.run 0 0,.run 0 0,.run 0 0,.inCompletes 0 [7],
    .run 0 0,.run 0 0,.run 0 0]

/-- The packet of the early completion is in the buffer, the reader sleeps with
the flag set, and no URB is in flight. -/
theorem early_completion_strands_reader :
    ∃ s ∈ run step canDevice earlyCompletion, (∀ l ∈ earlyCompletion, oneReader 0 l = true) ∧
      readerAt s 0 = some .asleep ∧ Stranded 0 s ∧ s.nr.lenInBuffer = 1 := by
  decide

end NrDriver.SingleReader
