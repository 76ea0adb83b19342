import NrDriver.SequentialWriter
import Mathlib.Data.List.SplitBy

/-!
# Writes that a signal restarts

A logical write is the calls up to the first one that does not return the
restart error, all issued for the same data. With one writer and transfers that
never fail, every logical write is sent as its last call reports exactly on the
runs without interruptions.

On such a run each call is reported truly by `SequentialWriter`. Conversely an
interrupted call has an accepted URB, which is transferred in the end: whatever
its logical write returns, that transfer is one too many. This half follows the
accepted URBs of any run (`Tracked`) and the mark that an interruption leaves.
-/
namespace NrDriver.RestartedWrites
open KernelModel TransferSteps WriteHalfSteps TransferBounds WriterExclusion PayloadIntegrity
  SequentialWriter IdleThreads LabelledRuns

/-- A finished call of `nr_write`. -/
structure Return where
  call : ℕ
  payload : List Byte
  retval : ℤ
  deriving DecidableEq, Repr

def returnOf : WriteEvent → Option Return
  | .returned call _ payload retval => some ⟨call,payload,retval⟩
  | _ => none

def returnsOf (log : List WriteEvent) : List Return := log.filterMap returnOf

/-- The call is issued again. -/
def restarted (r : Return) : Bool := r.retval == -ERESTARTSYS

/-- The calls of each logical write, in order. -/
def logicalWrites (log : List WriteEvent) : List (List Return) :=
  (returnsOf log).splitBy fun r _ => restarted r

/-- What the device has received for these calls. -/
def sentFor (log : List WriteEvent) (calls : List Return) : List (List Byte) :=
  calls.flatMap fun r => transfersOf r.call log

/-- A count means that the payload was transferred once, an error that it was not. -/
def SentAsReported (log : List WriteEvent) (calls : List Return) : Prop :=
  ∀ r ∈ calls.getLast?,
    (r.retval = r.payload.length → sentFor log calls = [r.payload]) ∧
      (r.retval < 0 → sentFor log calls = [])

instance (log : List WriteEvent) (calls : List Return) : Decidable (SentAsReported log calls) :=
  inferInstanceAs (Decidable (∀ _ ∈ calls.getLast?, _))

theorem returnsOf_mem {log : List WriteEvent} {r : Return} (h : r ∈ returnsOf log) :
    ∃ filp, .returned r.call filp r.payload r.retval ∈ log := by
  obtain ⟨e,he,hr⟩ := List.mem_filterMap.mp h
  cases e <;> cases hr
  exact ⟨_,he⟩

section Groups
variable {A : Type*}

theorem chain_dropLast {p : A → Prop} {l : List A} (h : l.IsChain fun a _ => p a) :
    ∀ a ∈ l.dropLast, p a := by
  induction l with
  | nil => simp
  | cons x l ih =>
      cases l with
      | nil => simp
      | cons y l =>
          have hx := List.isChain_cons_cons.mp h
          intro a ha
          rw [List.dropLast_cons_cons,List.mem_cons] at ha
          rcases ha with rfl | ha
          · exact hx.1
          · exact ih hx.2 a ha

end Groups

theorem restarted_of_dropLast {log : List WriteEvent} {calls : List Return}
    (h : calls ∈ logicalWrites log) : ∀ r ∈ calls.dropLast, restarted r = true :=
  chain_dropLast (List.isChain_of_mem_splitBy h)

theorem mem_returns_of_mem {log : List WriteEvent} {calls : List Return} {r : Return}
    (h : calls ∈ logicalWrites log) (hr : r ∈ calls) : r ∈ returnsOf log := by
  rw [← List.flatten_splitBy (fun r _ => restarted r) (returnsOf log)]
  exact List.mem_flatten_of_mem h hr

theorem exists_logicalWrite {log : List WriteEvent} {r : Return} (h : r ∈ returnsOf log) :
    ∃ calls ∈ logicalWrites log, r ∈ calls := by
  rw [← List.flatten_splitBy (fun r _ => restarted r) (returnsOf log)] at h
  exact List.mem_flatten.mp h

theorem sentAsReported_of_settled {log : List WriteEvent} (h : Settled (· = ·) log)
    {calls : List Return} (hcalls : calls ∈ logicalWrites log) : SentAsReported log calls := by
  have reported {r : Return} (hr : r ∈ calls) :
      (r.retval < 0 ∧ transfersOf r.call log = []) ∨
        (r.retval = r.payload.length ∧ transfersOf r.call log = [r.payload]) := by
    obtain ⟨filp,hmem⟩ := returnsOf_mem (mem_returns_of_mem hcalls hr)
    obtain ⟨before,after,heq⟩ := List.append_of_mem hmem
    obtain ⟨hreported,hlater⟩ := h before r.call filp r.payload r.retval after heq
    have hall : transfersOf r.call log = transfersOf r.call before := by
      rw [heq]
      simpa [transfersOf,transferOf] using hlater
    rw [hall]
    rcases hreported with hneg | ⟨hcount,bytes,rfl,hsent⟩
    · exact .inl hneg
    · exact .inr ⟨hcount,hsent⟩
  intro r hr
  obtain ⟨init,hinit⟩ := List.getLast?_eq_some_iff.mp hr
  have hnone : sentFor log init = [] := by
    refine List.flatMap_eq_nil_iff.mpr fun d hd => ?_
    have hdrop : d ∈ calls.dropLast := by simpa [hinit] using hd
    have hneg := restarted_of_dropLast hcalls d hdrop
    rcases reported (show d ∈ calls by simp [hinit,hd]) with ⟨_,hsent⟩ | ⟨hcount,_⟩
    · exact hsent
    · simp [restarted,ERESTARTSYS] at hneg
      omega
  have hsent : sentFor log calls = transfersOf r.call log := by
    rw [hinit]
    simp only [sentFor,List.flatMap_append,List.flatMap_singleton] at hnone ⊢
    rw [hnone]
    rfl
  rw [hsent]
  rcases reported (List.mem_of_getLast? hr) with ⟨hneg,hnil⟩ | ⟨hcount,hone⟩
  · exact ⟨fun hlen => by omega,fun _ => hnil⟩
  · exact ⟨fun _ => hone,fun hlt => by omega⟩

/-- A URB of the call was accepted. -/
def Accepted (id : ℕ) (log : List WriteEvent) : Prop := ∃ contents, (id,contents) ∈ acceptedUrbs log

/-- The return value is an error or the count, and the count needs an accepted URB. -/
def Answered (log : List WriteEvent) (id : ℕ) (payload : List Byte) (retval : ℤ) : Prop :=
  retval < 0 ∨ (retval = payload.length ∧ Accepted id log)

theorem Accepted.append {id : ℕ} {log : List WriteEvent} (h : Accepted id log)
    (es : List WriteEvent) : Accepted id (log ++ es) := by
  obtain ⟨contents,hmem⟩ := h
  refine ⟨contents,?_⟩
  rw [acceptedUrbs,List.filterMap_append]
  exact List.mem_append_left _ hmem

theorem Answered.append {log : List WriteEvent} {id : ℕ} {payload : List Byte} {retval : ℤ}
    (h : Answered log id payload retval) (es : List WriteEvent) :
    Answered (log ++ es) id payload retval :=
  h.imp_right fun hcount => ⟨hcount.1,hcount.2.append es⟩

theorem accepted_snoc {id : ℕ} {log : List WriteEvent} {e : WriteEvent}
    (h : Accepted id (log ++ [e])) (he : ∀ contents, acceptedUrb e ≠ some (id,contents)) :
    Accepted id log := by
  obtain ⟨contents,hmem⟩ := h
  rw [acceptedUrbs_snoc,List.mem_append,Option.mem_toList] at hmem
  exact ⟨contents,hmem.resolve_right (he contents)⟩

theorem transfersOf_append_ne {id : ℕ} {log : List WriteEvent} (h : transfersOf id log ≠ [])
    (es : List WriteEvent) : transfersOf id (log ++ es) ≠ [] := by
  rw [transfersOf,List.filterMap_append]
  exact List.append_ne_nil_of_left_ne_nil h _

/-- What a call claims of its URB from the submission on. -/
structure CallTracked (log : List WriteEvent) (c : WriteCall) : Prop where
  waits : waiting c.pc = true → Accepted c.id log
  ends : c.pc = .exit → Answered log c.id c.payload c.retval

/-- The accepted URBs of a run: each is in flight or has been transferred. -/
structure Tracked (v : WriteHalf) : Prop where
  calls : ∀ t c, v.call t = some c → CallTracked v.log c
  answers : ∀ id filp payload (retval : ℤ), .returned id filp payload retval ∈ v.log →
    Answered v.log id payload retval
  urbs : ∀ id, Accepted id v.log →
    transfersOf id v.log ≠ [] ∨ ∃ f, v.urb.flight = some f ∧ f.call = id

theorem CallTracked.append {log : List WriteEvent} {c : WriteCall} (h : CallTracked log c)
    (es : List WriteEvent) : CallTracked (log ++ es) c :=
  ⟨fun hw => (h.waits hw).append es,fun hpc => (h.ends hpc).append es⟩

theorem CallTracked.early {log : List WriteEvent} {c : WriteCall} (hw : waiting c.pc = false)
    (hpc : c.pc ≠ .exit) : CallTracked log c := by
  constructor
  · intro hwait
    simp [hw] at hwait
  · intro hexit
    exact (hpc hexit).elim

theorem CallTracked.failed {log : List WriteEvent} {c : WriteCall} (hpc : c.pc = .exit)
    (hneg : c.retval < 0) : CallTracked log c := by
  constructor
  · intro hwait
    simp [hpc,waiting] at hwait
  · exact fun _ => .inl hneg

namespace Tracked
variable {v v' : WriteHalf} {a : WriteAct}

/-- A statement of `t`, with what it logs. The obligations left are its own call,
the event, and the URB in flight. -/
theorem of_call (h : Tracked v) (es : List WriteEvent) {t : ℕ} {b : Option WriteCall}
    (hcall : v'.call = Function.update v.call t b) (hlog : v'.log = v.log ++ es)
    (hmine : ∀ c, b = some c → CallTracked v'.log c)
    (hanswers : ∀ id filp payload (retval : ℤ), .returned id filp payload retval ∈ es →
      Answered v.log id payload retval)
    (haccepted : ∀ id, Accepted id v'.log → Accepted id v.log ∨
      ∃ f, v'.urb.flight = some f ∧ f.call = id)
    (hflight : ∀ f, v.urb.flight = some f → v'.urb.flight = some f) : Tracked v' := by
  refine ⟨?_,?_,?_⟩
  · intro u c hc
    rw [hcall] at hc
    rcases update_some_cases hc with ⟨_,he⟩ | ⟨_,hold⟩
    · exact hmine c he
    · rw [hlog]
      exact (h.calls u c hold).append es
  · intro id filp payload retval hmem
    rw [hlog] at hmem ⊢
    rcases List.mem_append.mp hmem with hmem | hmem
    · exact (h.answers id filp payload retval hmem).append es
    · exact (hanswers id filp payload retval hmem).append es
  · intro id hid
    rcases haccepted id hid with hid | hflies
    · rw [hlog]
      rcases h.urbs id hid with hsent | ⟨f,hf,hcall⟩
      · exact .inl (transfersOf_append_ne hsent es)
      · exact .inr ⟨f,hflight f hf,hcall⟩
    · exact .inr hflies

/-- A statement that logs nothing and leaves the URB in flight as it is. -/
theorem of_quiet (h : Tracked v) {t : ℕ} {c : WriteCall}
    (hcall : v'.call = Function.update v.call t (some c)) (hlog : v'.log = v.log)
    (hflight : v'.urb.flight = v.urb.flight) (hmine : CallTracked v.log c) : Tracked v' := by
  refine h.of_call [] hcall (by rw [hlog,List.append_nil]) ?_ (by simp) ?_ ?_
  · intro d hd
    cases hd
    rwa [hlog]
  · intro id hid
    rw [hlog] at hid
    exact .inl hid
  · intro f hf
    rw [hflight,hf]

theorem step {ep : EndpointDescriptor} (h : Tracked v) (hb : WriteBounds ep v)
    (hs : WriteHalf.Step v a v') : Tracked v' := by
  have finishes {t : ℕ} {c : WriteCall} (hc : v.call t = some c) (hw : waiting c.pc = true) :
      Tracked (v.put t { c with retval := toSsize c.count, pc := .exit }) := by
    have haccepted := (h.calls t c hc).waits hw
    rw [toSsize_count hb hc hw]
    refine h.of_quiet rfl rfl rfl ⟨fun hwait => ?_,fun _ => .inr ⟨rfl,haccepted⟩⟩
    simp [waiting] at hwait
  cases hs with
  | begins t filp payload hidle =>
      exact h.of_quiet rfl rfl rfl (.early rfl (by simp [WriteCall.start]))
  | rejects | faults | interrupted =>
      exact h.of_quiet rfl rfl rfl (.failed rfl (by simp [EINVAL,EFAULT,ERESTARTSYS]))
  | accepts | copies | fills | sets =>
      exact h.of_quiet rfl rfl rfl (.early rfl (by simp))
  | @submits t c hc hpc hf =>
      have hmine : Accepted c.id (v.log ++ [.submitted c.id c.payload v.urb
          (v.buffer.get v.urb.transferBufferLength) 0]) := by
        refine ⟨v.buffer.get v.urb.transferBufferLength,?_⟩
        simp [acceptedUrbs_snoc,acceptedUrb]
      refine h.of_call _ rfl rfl ?_ (by simp) ?_ ?_
      · intro d hd
        cases hd
        exact ⟨fun _ => hmine,fun hpc => by simp at hpc⟩
      · intro id hid
        by_cases hne : id = c.id
        · exact .inr ⟨_,rfl,hne.symm⟩
        · have hne' : c.id ≠ id := Ne.symm hne
          exact .inl (accepted_snoc hid fun contents => by simp [acceptedUrb,hne'])
      · intro f hf'
        simp [hf] at hf'
  | @refused t k c code hc hpc hcode =>
      refine h.of_call _ rfl rfl ?_ (by simp) ?_ fun f hf => hf
      · intro d hd
        cases hd
        exact .failed rfl hcode
      · intro id hid
        refine .inl (accepted_snoc hid fun contents => ?_)
        simp [acceptedUrb,show code ≠ 0 by omega]
  | @sleeps t k c hc hpc =>
      have haccepted := (h.calls t c hc).waits (by simp [hpc,waiting])
      exact h.of_quiet rfl rfl rfl ⟨fun _ => haccepted,fun hpc => by simp at hpc⟩
  | @waitEnds t k c hc hpc =>
      exact finishes hc (by simp [hpc,waiting])
  | @returns t k c hc hpc =>
      refine h.of_call _ rfl rfl (by simp) ?_ ?_ fun f hf => hf
      · intro id filp payload retval hmem
        cases List.mem_singleton.mp hmem
        exact (h.calls t c hc).ends hpc
      · intro id hid
        exact .inl (accepted_snoc hid fun contents => by simp [acceptedUrb])
  | @signalLate t c hc hpc =>
      exact finishes hc (by rcases hpc with hpc | hpc <;> simp [hpc,waiting])
  | @takes f hf =>
      refine ⟨h.calls,h.answers,fun id hid => (h.urbs id hid).imp_right fun hflies => ?_⟩
      obtain ⟨g,hg,hcall⟩ := hflies
      obtain rfl : f = g := Option.some.inj (hf.symm.trans hg)
      exact ⟨_,rfl,hcall⟩
  | @completes status n f hf hlen =>
      refine ⟨?_,?_,?_⟩
      · intro t d hd
        obtain ⟨c,hc,rfl⟩ := Option.map_eq_some_iff.mp hd
        obtain ⟨hid,hpay,hw⟩ := WriteCall.wake_same c
        have hold := (h.calls t c hc).append [.transferred f.call f.payload f.length
          (f.sent.take n) status (reportedStatus status)]
        refine ⟨fun hwait => ?_,fun hpc => ?_⟩
        · rw [hid]
          exact hold.waits (by rwa [hw] at hwait)
        · rcases WriteCall.wake_cases c with ⟨_,he⟩ | ⟨_,he⟩
          · simp [he] at hpc
          · rw [he] at hpc ⊢
            exact hold.ends hpc
      · intro id filp payload retval hmem
        have hold : .returned id filp payload retval ∈ v.log := by simpa using hmem
        exact (h.answers id filp payload retval hold).append _
      · intro id hid
        left
        rcases h.urbs id (accepted_snoc hid fun contents => by simp [acceptedUrb]) with
          hsent | ⟨g,hg,hcall⟩
        · exact transfersOf_append_ne hsent _
        · obtain rfl : f = g := Option.some.inj (hf.symm.trans hg)
          rw [transfersOf_snoc_some (by simp [transferOf,hcall]; rfl)]
          simp
  | opens => exact ⟨h.calls,h.answers,h.urbs⟩

end Tracked

/-- A call with an accepted URB ends, or has ended, with the restart error. -/
def Cut (v : WriteHalf) : Prop :=
  ∃ id, Accepted id v.log ∧
    ((∃ t c, v.call t = some c ∧ c.id = id ∧ c.pc = .exit ∧ c.retval = -ERESTARTSYS) ∨
      ∃ filp payload, .returned id filp payload (-ERESTARTSYS) ∈ v.log)

theorem exit_kept {v v' : WriteHalf} {a : WriteAct} {t : ℕ} {c : WriteCall}
    (hs : WriteHalf.Step v a v') (hc : v.call t = some c) (hpc : c.pc = .exit) :
    v'.call t = some c ∨
      v'.log = v.log ++ [.returned c.id c.filp c.payload c.retval] := by
  have other {u : ℕ} {d : WriteCall} (hd : v.call u = some d) (hpd : d.pc ≠ .exit) : t ≠ u := by
    intro htu
    subst htu
    obtain rfl : c = d := Option.some.inj (hc.symm.trans hd)
    exact hpd hpc
  cases hs with
  | begins u filp payload hidle =>
      have htu : t ≠ u := by
        intro htu
        simp [← htu,hc] at hidle
      exact .inl (by simp [htu,hc])
  | rejects hd hpd | accepts hd hpd | copies hd hpd | faults hd hpd | fills hd hpd | sets hd hpd
  | submits hd hpd | refused hd hpd | sleeps hd hpd | waitEnds hd hpd =>
      exact .inl (by simp [other hd (by simp [hpd]),hc])
  | interrupted hd hpd | signalLate hd hpd =>
      exact .inl (by simp [other hd (by rcases hpd with hpd | hpd <;> simp [hpd]),hc])
  | @returns u k d hd hpd =>
      by_cases htu : t = u
      · subst htu
        obtain rfl : c = d := Option.some.inj (hc.symm.trans hd)
        exact .inr rfl
      · exact .inl (by simp [htu,hc])
  | takes | opens => exact .inl hc
  | completes =>
      rcases WriteCall.wake_cases c with ⟨hasleep,_⟩ | ⟨_,he⟩
      · simp [hpc] at hasleep
      · exact .inl (by simp [hc,he])

theorem Cut.step {v v' : WriteHalf} {a : WriteAct} (h : Cut v) (hs : WriteHalf.Step v a v') :
    Cut v' := by
  obtain ⟨id,haccepted,hcut⟩ := h
  obtain ⟨es,hes⟩ := hs.log_grows
  refine ⟨id,by rw [← hes]; exact haccepted.append es,?_⟩
  rcases hcut with ⟨t,c,hc,rfl,hpc,hret⟩ | ⟨filp,payload,hmem⟩
  · rcases exit_kept hs hc hpc with hkept | hreturned
    · exact .inl ⟨t,c,hkept,rfl,hpc,hret⟩
    · refine .inr ⟨c.filp,c.payload,?_⟩
      simp [hreturned,← hret]
  · refine .inr ⟨filp,payload,?_⟩
    rw [← hes]
    exact List.mem_append_left _ hmem

theorem cut_of_signal {v v' : WriteHalf} {t : ℕ} (h : Tracked v)
    (hs : WriteHalf.Step v (.signal t) v') (hout : v.outgoing = true) : Cut v' := by
  cases hs with
  | @interrupted _ d hd hpd =>
      refine ⟨d.id,(h.calls t d hd).waits ?_,.inl ⟨t,_,Function.update_self ..,rfl,rfl,rfl⟩⟩
      rcases hpd with hpd | hpd <;> simp [hpd,waiting]
  | signalLate _ _ hoff => simp [hout] at hoff

/-- A logical write that goes on after an interrupted call is not sent as its
last call reports: the URB of the interrupted call was transferred too. -/
theorem not_sentAsReported {v : WriteHalf} (h : Tracked v) (hlanded : v.urb.flight = none)
    {calls : List Return} (hcalls : calls ∈ logicalWrites v.log)
    (hfinished : ∀ r ∈ calls.getLast?, restarted r = false) {d : Return} (hd : d ∈ calls)
    (hagain : restarted d = true) (haccepted : Accepted d.call v.log) :
    ¬ SentAsReported v.log calls := by
  have transferred {id : ℕ} (hid : Accepted id v.log) : transfersOf id v.log ≠ [] := by
    refine (h.urbs id hid).resolve_right fun hflies => ?_
    obtain ⟨f,hf,_⟩ := hflies
    simp [hlanded] at hf
  intro hsent
  obtain ⟨r,hr⟩ : ∃ r, calls.getLast? = some r :=
    Option.isSome_iff_exists.mp (by simpa using List.ne_nil_of_mem hd)
  obtain ⟨init,hinit⟩ := List.getLast?_eq_some_iff.mp hr
  have hd_init : d ∈ init := by
    rw [hinit,List.mem_append,List.mem_singleton] at hd
    refine hd.resolve_right fun hdr => ?_
    subst hdr
    simp [hfinished d hr] at hagain
  have hfirst : sentFor v.log init ≠ [] := fun hnil =>
    transferred haccepted (List.flatMap_eq_nil_iff.mp hnil d hd_init)
  have hsplit : sentFor v.log calls = sentFor v.log init ++ transfersOf r.call v.log := by
    rw [hinit]
    simp [sentFor]
  obtain ⟨filp,hmem⟩ := returnsOf_mem (mem_returns_of_mem hcalls (List.mem_of_getLast? hr))
  rcases h.answers r.call filp r.payload r.retval hmem with hneg | ⟨hcount,hlast⟩
  · have hnil := (hsent r hr).2 hneg
    rw [hsplit,List.append_eq_nil_iff] at hnil
    exact hfirst hnil.1
  · have hone := congrArg List.length ((hsent r hr).1 hcount)
    have hpos₁ := List.length_pos_of_ne_nil hfirst
    have hpos₂ := List.length_pos_of_ne_nil (transferred hlast)
    rw [hsplit,List.length_append,List.length_singleton] at hone
    omega

section Runs
variable {epIn epOut : EndpointDescriptor} {memIn memOut : ℕ → Byte} {w : ℕ} {ls : List Label}
  {s : Device}

theorem tracked_opened : Tracked (writeHalf (Device.opened epIn epOut memIn memOut)) := by
  refine ⟨?_,?_,?_⟩
  · intro t c hc
    cases hc
  · intro id filp payload retval hmem
    cases hmem
  · intro id hid
    obtain ⟨contents,hmem⟩ := hid
    cases hmem

/-- What every run keeps, with or without interruptions. -/
def Followed (epIn epOut : EndpointDescriptor) (s : Device) : Prop :=
  Tracked (writeHalf s) ∧ Bounds epIn epOut s

theorem followed_step {s s' : Device} {l : Label} (h : Followed epIn epOut s)
    (hs : step s l = some s') : Followed epIn epOut s' :=
  ⟨writeHalf_kept h.1 hs fun _ _ hw => h.1.step h.2.2 hw,h.2.step hs⟩

theorem followed_opened : Followed epIn epOut (.opened epIn epOut memIn memOut) :=
  ⟨tracked_opened,bounds_probed epIn epOut memIn memOut⟩

theorem uninterrupted_of_not_cut (hrun : run step (.opened epIn epOut memIn memOut) ls = some s)
    (hcut : ¬ Cut (writeHalf s)) :
    Along step Uninterrupted (.opened epIn epOut memIn memOut) ls := by
  refine along_of_unmarked (J := Followed epIn epOut) (M := fun s => Cut (writeHalf s))
    (fun s l u h hs => followed_step h hs)
    (fun s l u h hs => writeHalf_kept h hs fun _ _ hw => h.step hw) ?_ followed_opened hrun hcut
  intro s l u h hs
  cases l with
  | signal t =>
      by_cases hat : writerAt s t = some .testWait ∨ writerAt s t = some .asleep
      · cases hout : s.nr.outgoingWrite with
        | false => exact .inl fun _ => hout
        | true =>
            right
            have hjob : ∃ c, writeCall? (s.job t) = some c := by
              rcases hat with hat | hat
              all_goals
                obtain ⟨c,hc,_⟩ := call_of_writerAt hat
                exact ⟨c,hc⟩
            obtain ⟨c,hc⟩ := hjob
            have hmove := step_writeHalf hs
            simp only [writeAct,hc,Option.map_some] at hmove
            exact cut_of_signal h.1 hmove hout
      · exact .inl fun h => (hat h).elim
  | _ => exact .inl trivial

/-- Once everything has landed and every restarted call was issued again, the
logical writes of one writer were all sent as their last calls reported exactly
if no signal ended a wait before the callback of its URB. That the calls of a
logical write carry the same bytes plays no part. -/
theorem restarted_writes_sent_once_iff (hone : ∀ l ∈ ls, oneWriter w l = true)
    (hfull : Along step FullTransfer (.opened epIn epOut memIn memOut) ls)
    (hrun : run step (.opened epIn epOut memIn memOut) ls = some s)
    (hidle : s.job w = .idle) (hlanded : s.nr.intOutUrb.flight = none)
    (hfinished : ∀ calls ∈ logicalWrites s.writeLog, ∀ r ∈ calls.getLast?, restarted r = false) :
    (∀ calls ∈ logicalWrites s.writeLog, SentAsReported s.writeLog calls) ↔
      Along step Uninterrupted (.opened epIn epOut memIn memOut) ls := by
  constructor
  · intro hsent
    refine uninterrupted_of_not_cut hrun fun hcut => ?_
    have htracked : Tracked (writeHalf s) :=
      (run_kept (fun s l u h hs => followed_step h hs) followed_opened hrun).1
    have hsole : SoleWriter w (writeHalf s) :=
      run_invariant (fun s l u h hl hs => soleWriter_step h hl hs) (fun _ _ => rfl)
        (.labels hone _) hrun
    have hnone (t : ℕ) : (writeHalf s).call t = none := by
      by_cases ht : t = w
      · rw [ht]
        exact (idle_iff.mp hidle).2
      · exact hsole t ht
    obtain ⟨id,haccepted,⟨t,c,hc,_⟩ | ⟨filp,payload,hmem⟩⟩ := hcut
    · simp [hnone t] at hc
    · have hreturn : ⟨id,payload,-ERESTARTSYS⟩ ∈ returnsOf s.writeLog :=
        List.mem_filterMap.mpr ⟨_,hmem,rfl⟩
      obtain ⟨calls,hcalls,hin⟩ := exists_logicalWrite hreturn
      exact not_sentAsReported htracked hlanded hcalls (hfinished calls hcalls) hin
        (by simp [restarted]) haccepted (hsent calls hcalls)
  · intro hu calls hcalls
    have hG : Along step (Leaves (· = ·)) (.opened epIn epOut memIn memOut) ls :=
      Along.imp (fun s l h => leaves_all h) hfull
    exact sentAsReported_of_settled (served_run hone hu hG hrun).1.settled hcalls

end Runs

/-- A signal that comes between the callback and the end of the wait, and a
refused write. -/
def signalAfterCallback : List Label :=
  [.beginWrite 0 0 [1],.run 0 0,.run 0 0,.run 0 0,.run 0 0,.run 0 0,.run 0 0,.outTakes,
    .outCompletes 0 1,.signal 0,.run 0 0,
    .beginWrite 0 0 [2],.run 0 0,.run 0 0,.run 0 0,.run 0 0,.run 0 19,.run 0 0]

theorem signal_after_callback_sent_once :
    ∃ s ∈ run step canDevice signalAfterCallback,
      logicalWrites s.writeLog = [[⟨0,[1],1⟩],[⟨1,[2],-ENODEV⟩]] ∧
        ∀ calls ∈ logicalWrites s.writeLog, SentAsReported s.writeLog calls := by
  obtain ⟨s,hs,hidle,hlanded,hwrites⟩ : ∃ s ∈ run step canDevice signalAfterCallback,
      s.job 0 = .idle ∧ s.nr.intOutUrb.flight = none ∧
        logicalWrites s.writeLog = [[⟨0,[1],1⟩],[⟨1,[2],-ENODEV⟩]] := by decide
  refine ⟨s,hs,hwrites,?_⟩
  apply (restarted_writes_sent_once_iff (w := 0) (by decide) (by decide) hs hidle hlanded ?_).mpr
  · decide
  · rw [hwrites]
    decide

/-- The same data is written again after a signal during the flight of its URB. -/
def signalDuringFlight : List Label :=
  [.beginWrite 0 0 [1],.run 0 0,.run 0 0,.run 0 0,.run 0 0,.run 0 0,.run 0 0,.signal 0,.run 0 0,
    .outTakes,.outCompletes 0 1,
    .beginWrite 0 0 [1],.run 0 0,.run 0 0,.run 0 0,.run 0 0,.run 0 0,.outTakes,.outCompletes 0 1,
    .run 0 0,.run 0 0]

/-- The device receives the byte of the one logical write twice. -/
theorem signal_during_flight_sent_twice :
    (∀ l ∈ signalDuringFlight, oneWriter 0 l = true) ∧
      Along step FullTransfer canDevice signalDuringFlight ∧
      ∃ s ∈ run step canDevice signalDuringFlight,
        s.job 0 = .idle ∧ s.nr.intOutUrb.flight = none ∧
        logicalWrites s.writeLog = [[⟨0,[1],-ERESTARTSYS⟩,⟨1,[1],1⟩]] ∧
        sentFor s.writeLog [⟨0,[1],-ERESTARTSYS⟩,⟨1,[1],1⟩] = [[1],[1]] ∧
        ¬ SentAsReported s.writeLog [⟨0,[1],-ERESTARTSYS⟩,⟨1,[1],1⟩] := by
  decide

end NrDriver.RestartedWrites
