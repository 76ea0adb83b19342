import NrDriver.WriterExclusion
import NrDriver.NumberedTable
import NrDriver.IdleThreads

/-!
# Payloads of concurrent writers

Runs without signals and further opens, on which every accepted URB completes
with status zero and full length. Under the schedule condition of
`WriterExclusion`, each transfer carries exactly the bytes of the call that
submitted it, and a call that returns its count had exactly one transfer.

The invariant is kept per call: before its submission a call has no transfer,
from its copy on the buffer holds its payload, while it waits its transfer is
in flight or completed, and a call that ends without an error has it completed.
-/
namespace NrDriver.PayloadIntegrity
open KernelModel TransferSteps WriteHalfSteps TransferBounds WriterExclusion IdleThreads
  NumberedTable LabelledRuns

/-- The bytes of a transfer, if it belongs to the call. -/
def transferOf (call : ℕ) : WriteEvent → Option (List Byte)
  | .transferred call' _ _ bytes _ _ => if call' = call then some bytes else none
  | _ => none

/-- The bytes of the completed transfers of a call, in order. -/
def transfersOf (call : ℕ) (log : List WriteEvent) : List (List Byte) :=
  log.filterMap (transferOf call)

theorem transfersOf_snoc_none {call : ℕ} {e : WriteEvent} (he : transferOf call e = none)
    (log : List WriteEvent) : transfersOf call (log ++ [e]) = transfersOf call log := by
  simp [transfersOf,he]

theorem transfersOf_snoc_some {call : ℕ} {e : WriteEvent} {bytes : List Byte}
    (he : transferOf call e = some bytes) (log : List WriteEvent) :
    transfersOf call (log ++ [e]) = transfersOf call log ++ [bytes] := by
  simp [transfersOf,he]

/-- What holds of a running call at each of its statements. -/
def CallOk (v : WriteHalf) (c : WriteCall) : Prop :=
  match c.pc with
  | .checkCount | .copy => transfersOf c.id v.log = []
  | .fill => transfersOf c.id v.log = [] ∧ v.buffer.get c.count = c.payload
  | .setOutgoing => transfersOf c.id v.log = [] ∧ v.buffer.get c.count = c.payload ∧
      v.urb.transferBufferLength = c.count
  | .submit => transfersOf c.id v.log = [] ∧ v.buffer.get c.count = c.payload ∧
      v.urb.transferBufferLength = c.count ∧ v.outgoing = true
  | .testWait | .asleep =>
      (∃ f, v.urb.flight = some f ∧ f.call = c.id) ∨ transfersOf c.id v.log = [c.payload]
  | .exit => c.retval < 0 ∨ transfersOf c.id v.log = [c.payload]

/-- What holds of the URB in flight. -/
structure FlightOk (v : WriteHalf) (f : Flight) : Prop where
  outgoing : v.outgoing = true
  length : f.length = f.payload.length
  buffer : v.buffer.get f.length = f.payload
  sent : f.sent = [] ∨ f.sent = f.payload
  fresh : transfersOf f.call v.log = []
  issued : f.call < v.writes
  owner : ∀ t c, v.call t = some c → c.id = f.call →
    c.payload = f.payload ∧ waiting c.pc = true

/-- Every completed transfer carries the bytes and the length of its call. -/
def OwnBytes (log : List WriteEvent) : Prop :=
  ∀ call payload length bytes status reported,
    .transferred call payload length bytes status reported ∈ log →
      bytes = payload ∧ length = payload.length

/-- Every call that returned its count had one transfer, of its payload. -/
def SentOnce (log : List WriteEvent) : Prop :=
  ∀ call filp payload (retval : ℤ), .returned call filp payload retval ∈ log →
    retval = payload.length → transfersOf call log = [payload]

structure Writers (v : WriteHalf) : Prop where
  numbered : Numbering WriteCall.id v.call v.writes
  unissued : ∀ id, v.writes ≤ id → transfersOf id v.log = []
  calls : ∀ t c, v.call t = some c → CallOk v c
  flight : ∀ f, v.urb.flight = some f → FlightOk v f
  own : OwnBytes v.log
  once : SentOnce v.log

/-- The moves of a run without signals and opens whose transfers all succeed. -/
def CalmAct (v : WriteHalf) : WriteAct → Prop
  | .signal _ | .openOutgoing => False
  | .completes status actualLength =>
      status = 0 ∧ ∀ f, v.urb.flight = some f → actualLength = f.length
  | _ => True

theorem CallOk.waiting_iff {v : WriteHalf} {c : WriteCall} (hw : waiting c.pc = true) :
    CallOk v c ↔ (∃ f, v.urb.flight = some f ∧ f.call = c.id) ∨
      transfersOf c.id v.log = [c.payload] := by
  cases hp : c.pc <;> simp only [hp,waiting,Bool.false_eq_true] at hw
  all_goals simp only [CallOk,hp]

theorem CallOk.of_not_holding {v v' : WriteHalf} {c : WriteCall} (h : CallOk v c)
    (hpc : holding c.pc = false)
    (hf : waiting c.pc = true →
      ∀ f, v.urb.flight = some f → ∃ f', v'.urb.flight = some f' ∧ f'.call = f.call)
    (hlog : transfersOf c.id v'.log = transfersOf c.id v.log) : CallOk v' c := by
  by_cases hw : waiting c.pc = true
  · rw [CallOk.waiting_iff hw] at h ⊢
    rcases h with ⟨f,hf₀,hcall⟩ | hdone
    · obtain ⟨f',hf',he⟩ := hf hw f hf₀
      exact .inl ⟨f',hf',he.trans hcall⟩
    · exact .inr (hlog.trans hdone)
  · unfold CallOk at *
    rw [hlog]
    cases hp : c.pc <;> simp only [hp,waiting,holding,Bool.true_eq_false,not_true] at h hpc hw ⊢
    all_goals exact h

theorem not_holding_of_flight {v : WriteHalf} (he : Exclusive v) {f : Flight}
    (hf : v.urb.flight = some f) {t : ℕ} {c : WriteCall} (hc : v.call t = some c) :
    holding c.pc = false := by
  by_contra hpc
  simp [he.grounded t c hc (by simpa using hpc)] at hf

/-- A move that writes neither the buffer nor the flag keeps the URB in flight
in order, if it does so with the call that owns it. -/
theorem FlightOk.of_same {v v' : WriteHalf} {f : Flight} (h : FlightOk v f)
    (hout : v'.outgoing = v.outgoing) (hbuf : v'.buffer = v.buffer)
    (hwrites : v.writes ≤ v'.writes) (hlog : transfersOf f.call v'.log = transfersOf f.call v.log)
    (howner : ∀ t c, v'.call t = some c → c.id = f.call →
      c.payload = f.payload ∧ waiting c.pc = true) : FlightOk v' f := by
  refine ⟨?_,h.length,?_,h.sent,?_,Nat.lt_of_lt_of_le h.issued hwrites,howner⟩
  · rw [hout]
    exact h.outgoing
  · rw [hbuf]
    exact h.buffer
  · rw [hlog]
    exact h.fresh

theorem WriteCall.wake_same (c : WriteCall) :
    c.wake.id = c.id ∧ c.wake.payload = c.payload ∧ waiting c.wake.pc = waiting c.pc := by
  rcases WriteCall.wake_cases c with ⟨hs,he⟩ | ⟨_,he⟩
  · simp [he,hs,waiting]
  · simp [he]

theorem SentOnce.append {log : List WriteEvent} (h : SentOnce log) {e : WriteEvent}
    (hnew : ∀ call filp payload (retval : ℤ), e = .returned call filp payload retval →
      retval = payload.length → transfersOf call log = [payload])
    (hold : ∀ call, transfersOf call log ≠ [] →
      transfersOf call (log ++ [e]) = transfersOf call log) : SentOnce (log ++ [e]) := by
  intro call filp payload retval hmem hret
  have hsent : transfersOf call log = [payload] := by
    rcases List.mem_append.mp hmem with hmem | hmem
    · exact h call filp payload retval hmem hret
    · exact hnew call filp payload retval (List.mem_singleton.mp hmem).symm hret
  rw [hold call (by simp [hsent]), hsent]

theorem OwnBytes.append {log : List WriteEvent} (h : OwnBytes log) {e : WriteEvent}
    (hnew : ∀ call payload length bytes status reported,
      e = .transferred call payload length bytes status reported →
        bytes = payload ∧ length = payload.length) : OwnBytes (log ++ [e]) := by
  intro call payload length bytes status reported hmem
  rcases List.mem_append.mp hmem with hmem | hmem
  · exact h call payload length bytes status reported hmem
  · exact hnew call payload length bytes status reported (List.mem_singleton.mp hmem).symm

namespace Writers
variable {v v' : WriteHalf} {a : WriteAct}

/-- A statement of `t` after which the other calls find what they rely on. The
obligations left are the call's own and that of the URB. -/
theorem of_call (h : Writers v) {t : ℕ} {b : Option WriteCall}
    (hcall : v'.call = Function.update v.call t b) (hnum : Numbering WriteCall.id v'.call v'.writes)
    (hwrites : v.writes ≤ v'.writes)
    (hothers : ∀ u d, u ≠ t → v.call u = some d →
      holding d.pc = false ∨ v'.buffer = v.buffer ∧ v'.urb = v.urb ∧ v'.outgoing = v.outgoing)
    (hf : ∀ f, v.urb.flight = some f → ∃ f', v'.urb.flight = some f' ∧ f'.call = f.call)
    (hlog : ∀ id, transfersOf id v'.log = transfersOf id v.log)
    (hmine : ∀ c, b = some c → CallOk v' c) (hflight : ∀ f, v'.urb.flight = some f → FlightOk v' f)
    (hown : OwnBytes v'.log) (honce : SentOnce v'.log) : Writers v' := by
  have hunissued (id : ℕ) (hid : v'.writes ≤ id) : transfersOf id v'.log = [] := by
    rw [hlog]
    exact h.unissued id (Nat.le_trans hwrites hid)
  have hcalls (u : ℕ) (d : WriteCall) (hd : v'.call u = some d) : CallOk v' d := by
    rw [hcall] at hd
    rcases update_some_cases hd with ⟨_,he⟩ | ⟨hu,hold⟩
    · exact hmine d he
    · have hok := h.calls u d hold
      rcases hothers u d hu hold with hpd | ⟨hbuf,hurb,hout⟩
      · exact hok.of_not_holding hpd (fun _ => hf) (hlog d.id)
      · unfold CallOk at *
        simpa only [hbuf,hurb,hout,hlog] using hok
  exact ⟨hnum,hunissued,hcalls,hflight,hown,honce⟩

/-- A statement that writes no field of the record. -/
theorem of_local (h : Writers v) {t : ℕ} {c c' : WriteCall} (hc : v.call t = some c)
    (hid : c'.id = c.id) (hpay : c'.payload = c.payload)
    (hwait : v.urb.flight ≠ none → waiting c.pc = true → waiting c'.pc = true)
    (hmine : CallOk v c') : Writers (v.put t c') := by
  refine h.of_call rfl (h.numbered.put hc hid) (Nat.le_refl _)
    (fun _ _ _ _ => .inr ⟨rfl,rfl,rfl⟩) (fun f hf => ⟨f,hf,rfl⟩) (fun _ => rfl) ?_ ?_ h.own h.once
  · intro d hd
    cases hd
    exact hmine
  · intro f hf
    have hF := h.flight f hf
    refine hF.of_same rfl rfl (Nat.le_refl _) rfl fun u d hd hcall => ?_
    rcases update_some_cases hd with ⟨_,he⟩ | ⟨_,hold⟩
    · cases he
      obtain ⟨hp,hw⟩ := hF.owner t c hc (hid.symm.trans hcall)
      exact ⟨hpay.trans hp,hwait (by simp [show v.urb.flight = some f from hf]) hw⟩
    · exact hF.owner u d hold hcall

/-- A statement of the one call that holds the buffer and the URB. -/
theorem of_holder (h : Writers v) (he : Exclusive v) {t : ℕ} {c c' : WriteCall}
    (hc : v.call t = some c) (hpc : holding c.pc = true)
    (hcall : v'.call = Function.update v.call t (some c')) (hid : c'.id = c.id)
    (hwrites : v'.writes = v.writes) (hlog : ∀ id, transfersOf id v'.log = transfersOf id v.log)
    (hmine : CallOk v' c') (hflight : ∀ f, v'.urb.flight = some f → FlightOk v' f)
    (hown : OwnBytes v'.log) (honce : SentOnce v'.log) : Writers v' := by
  have hnum : Numbering WriteCall.id v'.call v'.writes := by
    rw [hcall,hwrites]
    exact h.numbered.put hc hid
  have hothers (u : ℕ) (d : WriteCall) (hu : u ≠ t) (hd : v.call u = some d) :
      holding d.pc = false :=
    Bool.eq_false_iff.mpr fun hpd => hu (he.one u t d c hd hc hpd hpc)
  refine h.of_call hcall hnum (Nat.le_of_eq hwrites.symm)
    (fun u d hu hd => .inl (hothers u d hu hd)) ?_ hlog ?_ hflight hown honce
  · intro f hf
    simp [he.grounded t c hc hpc] at hf
  · intro d hd
    cases hd
    exact hmine

theorem completes (h : Writers v) (he : Exclusive v) {f : Flight} (hf : v.urb.flight = some f)
    {n : ℕ} (hn : n = f.length) (hlen : n ≤ f.sent.length) {status : ℤ} {reported : Bool}
    (hcall : v'.call = fun t => (v.call t).map WriteCall.wake) (hwrites : v'.writes = v.writes)
    (hflight : v'.urb.flight = none)
    (hlog : v'.log = v.log ++
      [.transferred f.call f.payload f.length (f.sent.take n) status reported]) : Writers v' := by
  have hF := h.flight f hf
  have hbytes : f.sent.take n = f.payload := by
    have hlen' : f.payload.length ≤ f.sent.length := by rw [← hF.length,← hn]; exact hlen
    rcases hF.sent with hs | hs
    · rw [hs] at hlen' ⊢
      simpa using (List.eq_nil_of_length_eq_zero (Nat.le_zero.mp hlen')).symm
    · rw [hs,hn,hF.length,List.take_length]
  rw [hbytes] at hlog
  have hmine : transfersOf f.call v'.log = [f.payload] := by
    rw [hlog, transfersOf_snoc_some (by simp [transferOf]; rfl), hF.fresh]
    rfl
  have hother {id : ℕ} (hid : id ≠ f.call) : transfersOf id v'.log = transfersOf id v.log := by
    rw [hlog, transfersOf_snoc_none (by simp [transferOf,hid.symm])]
  have hnumbered : Numbering WriteCall.id v'.call v'.writes := by
    rw [hcall,hwrites]
    exact h.numbered.map fun c => (WriteCall.wake_same c).1
  have hunissued (id : ℕ) (hid : v'.writes ≤ id) : transfersOf id v'.log = [] := by
    have hissued := hF.issued
    have hid' : v.writes ≤ id := hwrites ▸ hid
    rw [hother (by omega)]
    exact h.unissued id hid'
  have hcalls (t : ℕ) (d : WriteCall) (hd : v'.call t = some d) : CallOk v' d := by
    rw [hcall] at hd
    obtain ⟨c,hc,rfl⟩ := Option.map_eq_some_iff.mp hd
    have hok := h.calls t c hc
    by_cases hw : waiting c.pc = true
    · obtain ⟨hid,hpay,hww⟩ := WriteCall.wake_same c
      rw [CallOk.waiting_iff (by rwa [hww]), hid, hpay]
      rw [CallOk.waiting_iff hw] at hok
      -- the call either owned the URB or had been served before
      by_cases hown : c.id = f.call
      · have hpayload : c.payload = f.payload := (hF.owner t c hc hown).1
        exact .inr (by rw [hown,hmine,hpayload])
      · rcases hok with ⟨g,hg,hgc⟩ | hdone
        · rw [hf] at hg
          cases hg
          exact (hown hgc.symm).elim
        · exact .inr (by rw [hother hown,hdone])
    · have hk : c.wake = c := by
        rcases WriteCall.wake_cases c with ⟨hs,_⟩ | ⟨_,hk⟩
        · simp [hs,waiting] at hw
        · exact hk
      have hhold := not_holding_of_flight he hf hc
      have hid : c.id ≠ f.call := fun hid => hw (hF.owner t c hc hid).2
      rw [hk]
      exact hok.of_not_holding hhold (fun hw' => (hw hw').elim) (hother hid)
  have hown : OwnBytes v'.log := by
    rw [hlog]
    apply h.own.append
    intro call payload length bytes st rep heq
    cases heq
    exact ⟨rfl,hF.length⟩
  have honce : SentOnce v'.log := by
    rw [hlog]
    refine h.once.append (by simp) fun call hne => ?_
    rw [← hlog]
    apply hother
    intro hcall
    subst hcall
    exact hne hF.fresh
  exact ⟨hnumbered,hunissued,hcalls,by simp [hflight],hown,honce⟩

theorem step (h : Writers v) (he : Exclusive v)
    (hclear : ∀ t k c, a = .run t k → v.call t = some c → c.pc = .copy → Exclusive.Clear v t)
    (ha : CalmAct v a) (hs : WriteHalf.Step v a v') : Writers v' := by
  cases hs with
  | begins t filp payload hidle =>
      refine h.of_call rfl (h.numbered.start rfl) (Nat.le_succ _)
        (fun _ _ _ _ => .inr ⟨rfl,rfl,rfl⟩) (fun f hf => ⟨f,hf,rfl⟩) (fun _ => rfl) ?_ ?_
        h.own h.once
      · intro c hc
        cases hc
        exact h.unissued _ (Nat.le_refl _)
      · intro f hf
        have hF := h.flight f hf
        refine hF.of_same rfl rfl (Nat.le_succ _) rfl fun u d hd hcall => ?_
        rcases update_some_cases hd with ⟨_,hnew⟩ | ⟨_,hold⟩
        · cases hnew
          have := hF.issued
          simp [WriteCall.start] at hcall
          omega
        · exact hF.owner u d hold hcall
  | rejects hc hpc =>
      exact h.of_local hc rfl rfl (by simp [hpc,waiting]) (.inl (by simp [EINVAL]))
  | accepts hc hpc =>
      refine h.of_local hc rfl rfl (by simp [hpc,waiting]) ?_
      simpa only [CallOk,hpc] using h.calls _ _ hc
  | @copies t c hc hpc =>
      obtain ⟨hf,hothers⟩ := hclear _ _ c rfl hc hpc
      refine h.of_call rfl (h.numbered.put hc rfl) (Nat.le_refl _)
        (fun u d hu hd => .inl (hothers u d hu hd)) (by simp [hf]) (fun _ => rfl) ?_ (by simp [hf])
        h.own h.once
      intro d hd
      cases hd
      have hok := h.calls t c hc
      simp only [CallOk,hpc] at hok
      exact ⟨hok,Buffer.get_put _ _⟩
  | @faults t k c hc hpc =>
      obtain ⟨hf,hothers⟩ := hclear _ _ c rfl hc hpc
      refine h.of_call rfl (h.numbered.put hc rfl) (Nat.le_refl _)
        (fun u d hu hd => .inl (hothers u d hu hd)) (by simp [hf]) (fun _ => rfl) ?_ (by simp [hf])
        h.own h.once
      intro d hd
      cases hd
      exact .inl (by simp [EFAULT])
  | @fills t k c hc hpc =>
      have hhold : holding c.pc = true := by simp [hpc,holding]
      have hf := he.grounded t c hc hhold
      refine h.of_holder he hc hhold rfl rfl rfl (fun _ => rfl) ?_ (by simp [hf]) h.own h.once
      have hok := h.calls t c hc
      simp only [CallOk,hpc] at hok
      exact ⟨hok.1,hok.2,rfl⟩
  | @sets t k c hc hpc =>
      have hhold : holding c.pc = true := by simp [hpc,holding]
      have hf := he.grounded t c hc hhold
      refine h.of_holder he hc hhold rfl rfl rfl (fun _ => rfl) ?_ (by simp [hf]) h.own h.once
      have hok := h.calls t c hc
      simp only [CallOk,hpc] at hok
      exact ⟨hok.1,hok.2.1,hok.2.2,rfl⟩
  | @submits t c hc hpc hf =>
      have hok := h.calls t c hc
      simp only [CallOk,hpc] at hok
      obtain ⟨hfresh,hbuf,hlen,hout⟩ := hok
      have hlog (id : ℕ) : transfersOf id (v.log ++ [.submitted c.id c.payload v.urb
          (v.buffer.get v.urb.transferBufferLength) 0]) = transfersOf id v.log :=
        transfersOf_snoc_none rfl _
      refine h.of_holder he hc (by simp [hpc,holding]) rfl rfl rfl hlog (.inl ⟨_,rfl,rfl⟩) ?_
        (h.own.append (by simp)) (h.once.append (by simp) fun id _ => hlog id)
      intro f hf'
      cases hf'
      refine ⟨hout,hlen,?_,.inl rfl,(hlog _).trans hfresh,h.numbered.lt t c hc,?_⟩
      · rw [hlen]
        exact hbuf
      · intro u d hd hcall
        rcases update_some_cases hd with ⟨_,hnew⟩ | ⟨hu,hold⟩
        · cases hnew
          exact ⟨rfl,rfl⟩
        · exact (hu (h.numbered.inj u t d c hold hc hcall)).elim
  | @refused t k c code hc hpc hcode =>
      have hhold : holding c.pc = true := by simp [hpc,holding]
      have hf := he.grounded t c hc hhold
      have hlog (id : ℕ) : transfersOf id (v.log ++ [.submitted c.id c.payload v.urb
          (v.buffer.get v.urb.transferBufferLength) code]) = transfersOf id v.log :=
        transfersOf_snoc_none rfl _
      exact h.of_holder he hc hhold rfl rfl rfl hlog (.inl hcode) (by simp [hf])
        (h.own.append (by simp)) (h.once.append (by simp) fun id _ => hlog id)
  | sleeps hc hpc =>
      refine h.of_local hc rfl rfl (by simp [waiting]) ?_
      simpa only [CallOk,hpc] using h.calls _ _ hc
  | @waitEnds t k c hc hpc hoff =>
      have hok := h.calls t c hc
      simp only [CallOk,hpc] at hok
      have hnone : v.urb.flight = none := by
        cases hf : v.urb.flight with
        | none => rfl
        | some f => simp [(h.flight f hf).outgoing] at hoff
      refine h.of_local hc rfl rfl (fun hf => (hf hnone).elim) (.inr ?_)
      simpa [hnone] using hok
  | @returns t k c hc hpc =>
      have hok := h.calls t c hc
      simp only [CallOk,hpc] at hok
      have hlog (id : ℕ) : transfersOf id (v.log ++ [.returned c.id c.filp c.payload c.retval]) =
          transfersOf id v.log := transfersOf_snoc_none rfl _
      refine h.of_call rfl h.numbered.remove (Nat.le_refl _)
        (fun _ _ _ _ => .inr ⟨rfl,rfl,rfl⟩) (fun f hf => ⟨f,hf,rfl⟩) hlog (by simp) ?_
        (h.own.append (by simp)) (h.once.append ?_ fun id _ => hlog id)
      · intro f hf
        have hF := h.flight f hf
        refine hF.of_same rfl rfl (Nat.le_refl _) (hlog _) fun u d hd => ?_
        rcases update_some_cases hd with ⟨_,hnew⟩ | ⟨_,hold⟩
        · cases hnew
        · exact hF.owner u d hold
      · intro call filp payload retval heq hret
        cases heq
        exact hok.resolve_left (by omega)
  | interrupted | signalLate | opens => exact ha.elim
  | @takes f hf =>
      have hF := h.flight f hf
      refine ⟨h.numbered,h.unissued,?_,?_,h.own,h.once⟩
      · intro t c hc
        have hnone := not_holding_of_flight he hf hc
        refine (h.calls t c hc).of_not_holding hnone (fun _ g hg => ?_) rfl
        rw [hf] at hg
        cases hg
        exact ⟨_,rfl,rfl⟩
      · intro g hg
        cases hg
        exact ⟨hF.outgoing,hF.length,hF.buffer,.inr hF.buffer,hF.fresh,hF.issued,hF.owner⟩
  | completes status hf hlen =>
      exact h.completes he hf (ha.2 _ hf) hlen rfl rfl rfl rfl

end Writers

/-- No signal is delivered and nothing opens the device again. -/
def calm : Label → Bool
  | .signal _ | .openWrite _ => false
  | _ => true

/-- Every out transfer completes with status zero and its full length. -/
def FullTransfer (s : Device) : Label → Prop
  | .outCompletes status actualLength =>
      status = 0 ∧ ∀ f ∈ s.nr.intOutUrb.flight, actualLength = f.length
  | _ => True

instance (s : Device) (l : Label) : Decidable (FullTransfer s l) :=
  match l with
  | .outCompletes .. => inferInstanceAs (Decidable (_ ∧ _))
  | .beginRead .. | .beginWrite .. | .openWrite _ | .run .. | .signal _ | .inCompletes ..
  | .outTakes => isTrue trivial

theorem calmAct_of_calm {s : Device} {l : Label} {a : WriteAct} (hl : calm l = true)
    (hfull : FullTransfer s l) (ha : writeAct s l = some a) : CalmAct (writeHalf s) a := by
  cases a with
  | signal t =>
      obtain rfl : l = .signal t := label_of_writeAct ha
      cases hl
  | openOutgoing =>
      obtain rfl : l = .openWrite .outgoingWrite := label_of_writeAct ha
      cases hl
  | completes status n =>
      obtain rfl : l = .outCompletes status n := label_of_writeAct ha
      exact hfull
  | _ => trivial

theorem writers_opened (epIn epOut : EndpointDescriptor) (memIn memOut : ℕ → Byte) :
    Writers (writeHalf (Device.opened epIn epOut memIn memOut)) := by
  refine ⟨⟨?_,?_⟩,fun _ _ => rfl,?_,?_,?_,?_⟩
  · intro t c hc
    cases hc
  · intro t u c d hc
    cases hc
  · intro t c hc
    cases hc
  · intro f hf
    cases hf
  · intro call payload length bytes status reported hmem
    cases hmem
  · intro call filp payload retval hmem
    cases hmem

/-- Every transfer carries the bytes of the call that submitted it, and every
call that returned its count was transferred in one URB. -/
theorem writers_keep_payloads (epIn epOut : EndpointDescriptor) (memIn memOut : ℕ → Byte)
    {ls : List Label} {s : Device}
    (hrun : run step (.opened epIn epOut memIn memOut) ls = some s)
    (hcalm : ∀ l ∈ ls, calm l = true)
    (hfull : Along step FullTransfer (.opened epIn epOut memIn memOut) ls)
    (hclear : Along step CopyClear (.opened epIn epOut memIn memOut) ls) :
    OwnBytes s.writeLog ∧ SentOnce s.writeLog := by
  have hinv : Exclusive (writeHalf s) ∧ Writers (writeHalf s) := by
    refine run_invariant (I := fun s => Exclusive (writeHalf s) ∧ Writers (writeHalf s))
      (P := fun s l => calm l = true ∧ FullTransfer s l ∧ CopyClear s l) ?_
      ⟨exclusive_opened epIn epOut memIn memOut,writers_opened epIn epOut memIn memOut⟩
      (.labels_and hcalm (.and hfull hclear)) hrun
    intro s l s' hI hP hs
    refine ⟨exclusive_step hI.1 hP.2.2 hs,writeHalf_kept hI.2 hs fun a ha hw => ?_⟩
    exact hI.2.step hI.1 (clear_of_copyClear hP.2.2 ha) (calmAct_of_calm hP.1 hP.2.1 ha) hw
  exact ⟨hinv.2.own,hinv.2.once⟩

/-- Writer 1 begins while the URB of writer 0 is in flight and copies once it has
completed. Before writer 0 tests the flag again, writer 1 sets it. -/
def writersInTurn : List Label :=
  [.beginWrite 0 0 [1,2],.run 0 0,.run 0 0,.run 0 0,.run 0 0,.run 0 0,.run 0 0,
    .beginWrite 1 1 [3],.run 1 0,.outTakes,.outCompletes 0 2,.run 1 0,.run 1 0,.run 1 0,
    .run 0 0,.run 1 0,.run 1 0,.outTakes,.outCompletes 0 1,.run 0 0,.run 0 0,.run 1 0,.run 1 0]

theorem writers_in_turn_keep_payloads :
    ∃ s ∈ run step canDevice writersInTurn, .returned 0 0 [1,2] 2 ∈ s.writeLog ∧
      .returned 1 1 [3] 1 ∈ s.writeLog ∧ OwnBytes s.writeLog ∧ SentOnce s.writeLog := by
  obtain ⟨s,hs,hfirst,hsecond⟩ : ∃ s ∈ run step canDevice writersInTurn,
    .returned 0 0 [1,2] 2 ∈ s.writeLog ∧ .returned 1 1 [3] 1 ∈ s.writeLog := by decide
  have hspared : Along step (fun s l => ∀ u, SparedHold s l u) canDevice writersInTurn := by
    refine along_among (n := 2) ?_ (fun _ _ => rfl) (by decide) (by decide)
    intro s l t ht
    cases l with
    | run u k => simp [SparedHold,writerAt,ht]
    | _ => trivial
  have hlanded : Along step LandedAtCopy canDevice writersInTurn := by decide
  exact ⟨s,hs,hfirst,hsecond,writers_keep_payloads canIn canOut (fun _ => 0) (fun _ => 0) hs
    (by decide) (by decide) (hlanded.and hspared)⟩

/-- Writer 1 copies its payload while the URB of writer 0 is in flight. -/
def overwrittenFlight : List Label :=
  [.beginWrite 0 0 [1],.run 0 0,.run 0 0,.run 0 0,.run 0 0,.run 0 0,
    .beginWrite 1 1 [2],.run 1 0,.run 1 0,.outTakes,.outCompletes 0 1,.run 0 0,.run 0 0]

/-- Writer 0 returns its count and the device received the byte of writer 1. -/
theorem overwritten_flight_carries_other_payload :
    (∀ l ∈ overwrittenFlight, calm l = true) ∧ Along step FullTransfer canDevice overwrittenFlight ∧
      ∃ s ∈ run step canDevice overwrittenFlight,
        .returned 0 0 [1] 1 ∈ s.writeLog ∧ transfersOf 0 s.writeLog = [[2]] := by
  decide

end NrDriver.PayloadIntegrity
