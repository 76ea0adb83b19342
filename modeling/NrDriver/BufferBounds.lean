import NrDriver.ProbeOutcome
import NrDriver.TransferBounds

/-!
# The two kernel buffers over whole runs

From the record a successful `nr_probe` publishes, every run of opens, reads,
writes, signals and completions keeps `len_in_buffer`, both transfer lengths and
both copies within the sizes the buffers were allocated with. The sizes are those
of the allocations `nr_probe` made, whichever endpoints of the list came first.
-/
namespace NrDriver.BufferBounds
open KernelModel TransferSteps ReadHalfSteps WriteHalfSteps TransferBounds ProbeModel ProbeOutcome
open LabelledRuns

/-- The lengths the record holds, against the sizes of its two buffers. A URB
keeps the length of its last fill, and its flight that of its submission. -/
structure Contained (sizeIn sizeOut : ℕ) (s : Device) : Prop where
  inSize : s.nr.intInBuffer.size = sizeIn
  outSize : s.nr.intOutBuffer.size = sizeOut
  inIntact : s.nr.intInBuffer.Intact
  outIntact : s.nr.intOutBuffer.Intact
  len : s.nr.lenInBuffer ≤ sizeIn
  inFilled : s.nr.intInUrb.transferBufferLength ≤ sizeIn
  outFilled : s.nr.intOutUrb.transferBufferLength ≤ sizeOut
  inFlying : ∀ f, s.nr.intInUrb.flight = some f → f.length ≤ sizeIn
  outFlying : ∀ f, s.nr.intOutUrb.flight = some f → f.length ≤ sizeOut

/-- The lengths the next statement of a call uses: `copy_to_user` is passed
`len_in_buffer`, and the buffer holds the bytes that it copies and those that it
reports as not copied; `copy_from_user` stores `count`, and the two fills name a
buffer with a length. -/
def InBounds (sizeIn sizeOut : ℕ) (s : Device) : Label → Prop
  | .run t k =>
      match s.job t with
      | .reading c => (c.pc = .copy → s.nr.lenInBuffer ≤ sizeIn ∧
            ∀ r ∈ readStep s.nr c k, r.2.user.length + k = s.nr.lenInBuffer) ∧
          (c.pc = .fill → s.nr.intInEndpoint.packetSize ≤ sizeIn)
      | .writing c => c.pc = .copy ∨ c.pc = .fill → c.count ≤ sizeOut
      | .idle => True
  | _ => True

theorem contained_of_bounds {epIn epOut : EndpointDescriptor} {s : Device}
    (h : Bounds epIn epOut s) : Contained epIn.packetSize epOut.packetSize s :=
  ⟨h.1.size,h.2.size,h.1.intact,h.2.intact,h.1.len,h.1.filled,h.2.filled,h.1.flying,h.2.flying⟩

theorem inBounds_of_bounds {epIn epOut : EndpointDescriptor} {s : Device}
    (h : Bounds epIn epOut s) (l : Label) : InBounds epIn.packetSize epOut.packetSize s l := by
  cases l with
  | run t k =>
      cases hj : s.job t with
      | idle => simp [InBounds,hj]
      | reading c =>
          have hep : s.nr.intInEndpoint = epIn := h.1.endpoint
          simp only [InBounds,hj,hep,Nat.le_refl,implies_true,and_true]
          intro hpc
          refine ⟨h.1.len,fun r hr => ?_⟩
          have hcopied : (copyToUser s.nr.intInBuffer s.nr.lenInBuffer k).length =
              s.nr.lenInBuffer - k := h.1.copied_length k
          simp only [readStep,hpc] at hr
          split_ifs at hr with hk
          · cases hr
            simp only
            omega
          · cases hr
      | writing c =>
          simp only [InBounds,hj]
          intro hpc
          refine (h.2.count t c (writeHalf_call hj) ?_).2
          rcases hpc with hpc | hpc <;> simp [hpc,counted]
  | _ => trivial

/-- No run from the record of a successful probe leaves its buffers. -/
theorem probed_buffers_hold {host : Host} {endpoints : List EndpointDescriptor} {i i' : Interface}
    {k k' : Kernel} (hprobe : nrProbe host endpoints i k = (0,i',k')) :
    ∃ dev bufIn bufOut nr, i'.data = some dev ∧ dev.intIn.buffer = some bufIn ∧
      dev.intOut.buffer = some bufOut ∧ dev.nr host = some nr ∧
      ∀ ls, Along step (InBounds bufIn.size bufOut.size) (.fresh nr) ls ∧
        ∀ s, run step (.fresh nr) ls = some s → Contained bufIn.size bufOut.size s := by
  obtain ⟨dev,n,rfl,hbuilt⟩ := nrProbe_built hprobe
  obtain ⟨epIn,epOut,bufIn,bufOut,_,_,hin,hout,hsizeIn,hsizeOut,hnr⟩ := hbuilt.nr
  refine ⟨dev,bufIn,bufOut,_,rfl,hin,hout,hnr,fun ls => ?_⟩
  have hstart := bounds_probed epIn epOut (host.memory bufIn.id) (host.memory bufOut.id)
  rw [hsizeIn,hsizeOut]
  constructor
  · exact along_invariant (P := fun _ _ => True) (fun _ _ _ hI _ hs => hI.step hs)
      (fun _ l hI _ => inBounds_of_bounds hI l) hstart (.labels (fun _ _ => trivial) _)
  · exact fun s hs => contained_of_bounds (hstart.run hs)

theorem can_probe_buffers_hold :
    ∃ i' k', nrProbe (canHost fun _ => 0) [canOut,canIn] .fresh ⟨0,[]⟩ = (0,i',k') ∧
      ∃ dev bufIn bufOut nr, i'.data = some dev ∧ dev.intIn.buffer = some bufIn ∧
        dev.intOut.buffer = some bufOut ∧ dev.nr (canHost fun _ => 0) = some nr ∧
        ∀ ls, Along step (InBounds bufIn.size bufOut.size) (.fresh nr) ls ∧
          ∀ s, run step (.fresh nr) ls = some s → Contained bufIn.size bufOut.size s := by
  have hcode : (nrProbe (canHost fun _ => 0) [canOut,canIn] .fresh ⟨0,[]⟩).1 = 0 := by decide
  exact ⟨_,_,Prod.ext hcode rfl,probed_buffers_hold (Prod.ext hcode rfl)⟩

end NrDriver.BufferBounds
