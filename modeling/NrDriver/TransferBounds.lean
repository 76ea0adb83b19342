import NrDriver.ReadHalfSteps
import NrDriver.WriteHalfSteps

/-!
# Lengths that every run keeps within the buffers

The bounds of the two halves of a probed device. They hold on every run, with
any number of threads, signals, refused submissions and opens: a length comes
from the packet size of the endpoint the buffer was allocated for, from a count
that was checked against it, or from a transfer that was submitted with one of
these.
-/
namespace NrDriver.TransferBounds
open KernelModel TransferSteps ReadHalfSteps WriteHalfSteps LabelledRuns

structure ReadBounds (ep : EndpointDescriptor) (v : ReadHalf) : Prop where
  endpoint : v.endpoint = ep
  size : v.buffer.size = ep.packetSize
  intact : v.buffer.Intact
  filled : v.urb.transferBufferLength ≤ ep.packetSize
  flying : ∀ f, v.urb.flight = some f → f.length ≤ ep.packetSize
  len : v.len ≤ ep.packetSize

theorem ReadBounds.step {ep : EndpointDescriptor} {v v' : ReadHalf} {a : ReadAct}
    (hb : ReadBounds ep v) (h : ReadHalf.Step v a v') : ReadBounds ep v' := by
  cases h with
  | clears => exact ⟨hb.endpoint,hb.size,hb.intact,hb.filled,hb.flying,Nat.zero_le _⟩
  | opensLen => exact ⟨hb.endpoint,hb.size,hb.intact,hb.filled,hb.flying,Nat.zero_le _⟩
  | fills =>
      refine ⟨hb.endpoint,hb.size,hb.intact,?_,hb.flying,hb.len⟩
      simp [hb.endpoint]
  | submits =>
      refine ⟨hb.endpoint,hb.size,hb.intact,hb.filled,?_,hb.len⟩
      intro f hf
      cases hf
      exact hb.filled
  | @completes status packet f hf hlen =>
      have hp : packet.length ≤ ep.packetSize := Nat.le_trans hlen (hb.flying f hf)
      exact ⟨hb.endpoint,hb.size,hb.intact.put (by rwa [hb.size]),hb.filled,by simp,hp⟩
  | _ => exact ⟨hb.endpoint,hb.size,hb.intact,hb.filled,hb.flying,hb.len⟩

theorem ReadBounds.copied_length {ep : EndpointDescriptor} {v : ReadHalf} (hb : ReadBounds ep v)
    (uncopied : ℕ) : (copyToUser v.buffer v.len uncopied).length = v.len - uncopied := by
  apply copyToUser_length hb.intact
  rw [hb.size]
  exact hb.len

/-- The transfer length of the in URB, where it was filled and not yet submitted
and while it flies: the packet size, and not less. -/
structure Filled (ep : EndpointDescriptor) (v : ReadHalf) : Prop where
  submit : ∀ t c, v.call t = some c → c.pc = .submit →
    v.urb.transferBufferLength = ep.packetSize
  flying : ∀ f, v.urb.flight = some f → v.urb.transferBufferLength = ep.packetSize

theorem Filled.put {ep : EndpointDescriptor} {v : ReadHalf} (hv : Filled ep v) {t : ℕ}
    {c' : ReadCall} (hc' : c'.pc ≠ .submit) : Filled ep (v.put t c') := by
  refine ⟨forall_update hv.submit ?_,hv.flying⟩
  rintro _ ⟨⟩ hpc
  exact (hc' hpc).elim

theorem Filled.step {ep : EndpointDescriptor} {v v' : ReadHalf} {a : ReadAct}
    (hb : ReadBounds ep v) (hv : Filled ep v) (h : ReadHalf.Step v a v') : Filled ep v' := by
  have keep {u : ReadHalf} (hu : Filled ep u) (hurb : u.urb = v'.urb) (hcall : u.call = v'.call) :
      Filled ep v' := ⟨hurb ▸ hcall ▸ hu.submit,hurb ▸ hu.flying⟩
  cases h with
  | begins => exact keep (hv.put (by simp [ReadCall.start])) rfl rfl
  | fills =>
      have hfilled : v.endpoint.packetSize = ep.packetSize := by rw [hb.endpoint]
      exact ⟨fun _ _ _ _ => hfilled,fun _ _ => hfilled⟩
  | submits hc hpc _ =>
      have hfilled := hv.submit _ _ hc hpc
      exact ⟨fun _ _ _ _ => hfilled,fun _ _ => hfilled⟩
  | returns => exact ⟨forall_update hv.submit (by simp),hv.flying⟩
  | completes =>
      refine ⟨fun u c hu hpc => ?_,by simp⟩
      obtain ⟨c₀,hc₀,rfl⟩ := Option.map_eq_some_iff.mp hu
      rcases ReadCall.wake_cases c₀ with ⟨_,he⟩ | ⟨_,he⟩
      · simp [he] at hpc
      · exact hv.submit u c₀ hc₀ (he ▸ hpc)
  | opensLen | opensOngoing => exact keep hv rfl rfl
  | _ => exact keep (hv.put (by simp)) rfl rfl

/-- The statements of `nr_write` that run only for a count that passed the check. -/
def counted : WritePc → Bool
  | .checkCount | .exit => false
  | _ => true

structure WriteBounds (ep : EndpointDescriptor) (v : WriteHalf) : Prop where
  endpoint : v.endpoint = ep
  size : v.buffer.size = ep.packetSize
  intact : v.buffer.Intact
  filled : v.urb.transferBufferLength ≤ ep.packetSize
  flying : ∀ f, v.urb.flight = some f → f.length ≤ ep.packetSize
  count : ∀ t c, v.call t = some c → counted c.pc = true → 0 < c.count ∧ c.count ≤ ep.packetSize

theorem WriteBounds.count_put {ep : EndpointDescriptor} {v : WriteHalf} (hb : WriteBounds ep v)
    {t : ℕ} {c' : WriteCall}
    (hc' : counted c'.pc = true → 0 < c'.count ∧ c'.count ≤ ep.packetSize) :
    ∀ u c, (v.put t c').call u = some c → counted c.pc = true →
      0 < c.count ∧ c.count ≤ ep.packetSize := by
  refine forall_update hb.count ?_
  rintro _ ⟨⟩ hpc
  exact hc' hpc

theorem WriteBounds.step {ep : EndpointDescriptor} {v v' : WriteHalf} {a : WriteAct}
    (hb : WriteBounds ep v) (h : WriteHalf.Step v a v') : WriteBounds ep v' := by
  have keep {t : ℕ} {c c' : WriteCall} (hc : v.call t = some c) (hpc : counted c.pc = true)
      (he : c'.count = c.count) :
      counted c'.pc = true → 0 < c'.count ∧ c'.count ≤ ep.packetSize :=
    fun _ => he ▸ hb.count t c hc hpc
  cases h with
  | begins =>
      exact ⟨hb.endpoint,hb.size,hb.intact,hb.filled,hb.flying,
        hb.count_put (by simp [counted,WriteCall.start])⟩
  | accepts hc hpc hpos hle =>
      refine ⟨hb.endpoint,hb.size,hb.intact,hb.filled,hb.flying,hb.count_put ?_⟩
      exact fun _ => ⟨hpos,hb.endpoint ▸ hle⟩
  | @copies t c hc hpc =>
      have hle := (hb.count t c hc (by simp [hpc,counted])).2
      exact ⟨hb.endpoint,hb.size,hb.intact.put (by rwa [hb.size]),hb.filled,hb.flying,
        hb.count_put (keep hc (by simp [hpc,counted]) rfl)⟩
  | @faults t k c hc hpc hpos hk =>
      have hle := (hb.count t c hc (by simp [hpc,counted])).2
      exact ⟨hb.endpoint,hb.size,copyFromUser_intact hb.intact hk (by rwa [hb.size]),hb.filled,
        hb.flying,hb.count_put (by simp [counted])⟩
  | @fills t k c hc hpc =>
      exact ⟨hb.endpoint,hb.size,hb.intact,(hb.count t c hc (by simp [hpc,counted])).2,hb.flying,
        hb.count_put (keep hc (by simp [hpc,counted]) rfl)⟩
  | sets hc hpc =>
      exact ⟨hb.endpoint,hb.size,hb.intact,hb.filled,hb.flying,
        hb.count_put (keep hc (by simp [hpc,counted]) rfl)⟩
  | submits hc hpc =>
      refine ⟨hb.endpoint,hb.size,hb.intact,hb.filled,?_,
        hb.count_put (keep hc (by simp [hpc,counted]) rfl)⟩
      intro f hf
      cases hf
      exact hb.filled
  | sleeps hc hpc =>
      exact ⟨hb.endpoint,hb.size,hb.intact,hb.filled,hb.flying,
        hb.count_put (keep hc (by simp [hpc,counted]) rfl)⟩
  | returns =>
      exact ⟨hb.endpoint,hb.size,hb.intact,hb.filled,hb.flying,forall_update hb.count (by simp)⟩
  | @takes f hf =>
      refine ⟨hb.endpoint,hb.size,hb.intact,hb.filled,?_,hb.count⟩
      intro f' hf'
      cases hf'
      exact hb.flying f hf
  | completes =>
      refine ⟨hb.endpoint,hb.size,hb.intact,hb.filled,by simp,?_⟩
      intro u c' hu hpc
      obtain ⟨c,hc,rfl⟩ := Option.map_eq_some_iff.mp hu
      rcases WriteCall.wake_cases c with ⟨hs,he⟩ | ⟨_,he⟩
      · rw [he]
        exact hb.count u c hc (by simp [hs,counted])
      · rw [he] at hpc ⊢
        exact hb.count u c hc hpc
  | opens => exact ⟨hb.endpoint,hb.size,hb.intact,hb.filled,hb.flying,hb.count⟩
  -- the remaining moves end the call
  | _ =>
      exact ⟨hb.endpoint,hb.size,hb.intact,hb.filled,hb.flying,hb.count_put (by simp [counted])⟩

/-- Both halves of a device that was probed with these two endpoints. -/
def Bounds (epIn epOut : EndpointDescriptor) (s : Device) : Prop :=
  ReadBounds epIn (readHalf s) ∧ WriteBounds epOut (writeHalf s)

theorem bounds_probed (epIn epOut : EndpointDescriptor) (memIn memOut : ℕ → Byte) :
    Bounds epIn epOut (Device.fresh (UsbNr.probed epIn epOut memIn memOut)) := by
  refine ⟨⟨rfl,rfl,Buffer.kmalloc_intact _ _,Nat.zero_le _,?_,Nat.zero_le _⟩,
    ⟨rfl,rfl,Buffer.kmalloc_intact _ _,Nat.zero_le _,?_,?_⟩⟩
  · intro f hf
    cases hf
  · intro f hf
    cases hf
  · intro t c hc
    cases hc

theorem Bounds.step {epIn epOut : EndpointDescriptor} {s s' : Device} {l : Label}
    (hb : Bounds epIn epOut s) (h : step s l = some s') : Bounds epIn epOut s' :=
  ⟨readHalf_kept hb.1 h fun _ _ hr => hb.1.step hr,
    writeHalf_kept hb.2 h fun _ _ hw => hb.2.step hw⟩

theorem Bounds.run {epIn epOut : EndpointDescriptor} {s s' : Device} {ls : List Label}
    (hb : Bounds epIn epOut s) (h : run TransferSteps.step s ls = some s') :
    Bounds epIn epOut s' :=
  run_kept (fun _ _ _ hI hs => hI.step hs) hb h

theorem filled_probed (epIn epOut : EndpointDescriptor) (memIn memOut : ℕ → Byte) :
    Filled epIn (readHalf (.fresh (.probed epIn epOut memIn memOut))) := by
  constructor
  · intro t c hc
    cases hc
  · intro f hf
    cases hf

theorem filled_run {epIn epOut : EndpointDescriptor} {s s' : Device} {ls : List Label}
    (hb : Bounds epIn epOut s) (hf : Filled epIn (readHalf s))
    (hrun : run TransferSteps.step s ls = some s') : Filled epIn (readHalf s') := by
  have hboth := run_kept (I := fun s => Bounds epIn epOut s ∧ Filled epIn (readHalf s))
    (fun s l u h hs => ⟨h.1.step hs,readHalf_kept h.2 hs fun _ _ hr => h.2.step h.1.1 hr⟩)
    ⟨hb,hf⟩ hrun
  exact hboth.2

end NrDriver.TransferBounds
