import NrDriver.ProbeOutcome
import NrDriver.TransferBounds

/-!
# Packet sizes from the wire

A descriptor reaches the host as bytes, its `wMaxPacketSize` with the low byte
first, and the maximum packet size is the low eleven bits of that number; the
bits above them give the transactions per microframe. The driver uses the field
as the host's 16-bit load gives it, without `le16_to_cpu` and without a mask.

Every size the driver derives from it is the decoded one exactly for the plain
fields: nothing above the eleven bits, and either a little-endian host or two
equal bytes.
-/
namespace NrDriver.WireSizes
open KernelModel TransferSteps ReadHalfSteps WriteHalfSteps TransferBounds ProbeModel ProbeOutcome
open LabelledRuns

inductive ByteOrder where
  | little | big
  deriving DecidableEq, Repr

/-- An endpoint descriptor as the device sends it: the two bytes of the packet
size in the order of the wire. -/
structure WireEndpoint where
  bEndpointAddress : UInt8
  bmAttributes : UInt8
  sizeLow : UInt8
  sizeHigh : UInt8
  bInterval : UInt8
  deriving DecidableEq, Repr

namespace WireEndpoint

/-- The maximum packet size the device means. -/
def maxPacket (w : WireEndpoint) : ℕ := (w.sizeLow.toNat + 256 * w.sizeHigh.toNat) % 2048

/-- The value a 16-bit load of the field has on a host. -/
def loaded (order : ByteOrder) (w : WireEndpoint) : ℕ :=
  match order with
  | .little => w.sizeLow.toNat + 256 * w.sizeHigh.toNat
  | .big => 256 * w.sizeLow.toNat + w.sizeHigh.toNat

/-- The descriptor as the driver on this host reads it. -/
def load (order : ByteOrder) (w : WireEndpoint) : EndpointDescriptor :=
  ⟨w.bEndpointAddress,w.bmAttributes,.ofNat (w.loaded order),w.bInterval⟩

theorem packetSize_load (order : ByteOrder) (w : WireEndpoint) :
    (w.load order).packetSize = w.loaded order := by
  have hlow := w.sizeLow.toNat_lt
  have hhigh := w.sizeHigh.toNat_lt
  have hloaded : w.loaded order < 2^16 := by
    cases order <;> simp only [loaded] <;> omega
  simpa [EndpointDescriptor.packetSize,load] using hloaded

/-- The field has no bits above the packet size, and the load keeps its value. -/
def Plain (order : ByteOrder) (w : WireEndpoint) : Prop :=
  w.sizeHigh < 8 ∧ (order = .little ∨ w.sizeLow = w.sizeHigh)

instance (order : ByteOrder) (w : WireEndpoint) : Decidable (w.Plain order) :=
  inferInstanceAs (Decidable (_ ∧ _))

theorem packetSize_eq_maxPacket_iff (order : ByteOrder) (w : WireEndpoint) :
    (w.load order).packetSize = w.maxPacket ↔ w.Plain order := by
  have hlow := w.sizeLow.toNat_lt
  have hhigh := w.sizeHigh.toNat_lt
  have hlt : w.sizeHigh < 8 ↔ w.sizeHigh.toNat < 8 := UInt8.lt_iff_toNat_lt
  have heq : w.sizeLow = w.sizeHigh ↔ w.sizeLow.toNat = w.sizeHigh.toNat := UInt8.toNat_inj.symm
  rw [packetSize_load,Plain,hlt,heq]
  cases order with
  | little =>
      simp only [loaded,maxPacket,true_or,and_true]
      omega
  | big =>
      simp only [loaded,maxPacket,reduceCtorEq,false_or]
      omega

end WireEndpoint

theorem find_load {host : Host} {order : ByteOrder} {ws : List WireEndpoint} {d : Direction}
    {w : WireEndpoint} (h : ws.find? (fun w => host.isInt d (w.load order)) = some w) :
    (ws.map (·.load order)).find? (host.isInt d) = some (w.load order) := by
  rw [List.find?_map]
  exact congrArg (Option.map (·.load order)) h

/-- The two buffers of the record, the length of every URB that `nr_read` is
about to submit, and the check of `nr_write`, against the decoded sizes of the
two endpoints. The runs are those of the probed device. -/
structure SizesDecoded (w : Direction → WireEndpoint) (dev : Draft) (nr : UsbNr) : Prop where
  allocated : ∀ d, ∃ b, (dev.half d).buffer = some b ∧ b.size = (w d).maxPacket
  requested : ∀ ls s t c, run step (.fresh nr) ls = some s → s.job t = .reading c →
    c.pc = .submit → s.nr.intInUrb.transferBufferLength = (w .input).maxPacket
  checked : ∀ ls s t c k, run step (.fresh nr) ls = some s → s.job t = .writing c →
    c.pc = .checkCount → ∃ s', step s (.run t k) = some s' ∧
      (writerAt s' t = some .copy ↔ 1 ≤ c.count ∧ c.count ≤ (w .output).maxPacket)

theorem checkCount_step {s : Device} {t : ℕ} {c : WriteCall} (hj : s.job t = .writing c)
    (hpc : c.pc = .checkCount) (k : ℕ) :
    ∃ s', step s (.run t k) = some s' ∧
      (writerAt s' t = some .copy ↔ 1 ≤ c.count ∧ c.count ≤ s.nr.intOutEndpoint.packetSize) := by
  by_cases hbad : c.count = 0 ∨ s.nr.intOutEndpoint.packetSize < c.count
  · refine ⟨_,by simp only [step,hj,runWrite,hpc,writeStep,if_pos hbad]; rfl,?_⟩
    simp only [writerAt,Function.update_self,Option.some.injEq,reduceCtorEq,false_iff]
    omega
  · refine ⟨_,by simp only [step,hj,runWrite,hpc,writeStep,if_neg hbad]; rfl,?_⟩
    simp only [writerAt,Function.update_self,true_iff]
    omega

/-- After a successful probe the sizes are the decoded ones on every run if and
only if both fields are plain. -/
theorem sizes_decoded_iff {host : Host} {order : ByteOrder} {ws : List WireEndpoint}
    {w : Direction → WireEndpoint} {i i' : Interface} {k k' : Kernel}
    (hfirst : ∀ d, ws.find? (fun w => host.isInt d (w.load order)) = some (w d))
    (hprobe : nrProbe host (ws.map (·.load order)) i k = (0,i',k')) :
    ∃ dev nr, i'.data = some dev ∧ dev.nr host = some nr ∧
      (SizesDecoded w dev nr ↔ ∀ d, (w d).Plain order) := by
  obtain ⟨dev,n,rfl,hbuilt⟩ := nrProbe_built hprobe
  obtain ⟨epIn,epOut,bufIn,bufOut,hin,hout,_,_,_,_,hnr⟩ := hbuilt.nr
  refine ⟨dev,_,rfl,hnr,?_⟩
  obtain rfl : (w .input).load order = epIn :=
    Option.some.inj ((find_load (hfirst _)).symm.trans hin)
  obtain rfl : (w .output).load order = epOut :=
    Option.some.inj ((find_load (hfirst _)).symm.trans hout)
  have hbuffer (d : Direction) :
      ∃ b, (dev.half d).buffer = some b ∧ b.size = ((w d).load order).packetSize := by
    obtain ⟨e,b,m,hhalf,hfind,hsize⟩ := hbuilt.half d
    rw [find_load (hfirst d)] at hfind
    cases hfind
    exact ⟨b,by rw [hhalf],hsize⟩
  constructor
  · intro h d
    obtain ⟨b,hb,hsize⟩ := hbuffer d
    obtain ⟨b',hb',hdecoded⟩ := h.allocated d
    obtain rfl : b = b' := Option.some.inj (hb.symm.trans hb')
    rw [← WireEndpoint.packetSize_eq_maxPacket_iff,← hsize,hdecoded]
  · intro hplain
    have hdecoded (d : Direction) : ((w d).load order).packetSize = (w d).maxPacket :=
      ((w d).packetSize_eq_maxPacket_iff order).mpr (hplain d)
    have hstart := bounds_probed ((w .input).load order) ((w .output).load order)
      (host.memory bufIn.id) (host.memory bufOut.id)
    constructor
    · simpa only [hdecoded] using hbuffer
    · intro ls s t c hrun hj hpc
      rw [← hdecoded]
      exact (filled_run hstart (filled_probed ..) hrun).submit t c (readHalf_call hj) hpc
    · intro ls s t c k hrun hj hpc
      have hep : s.nr.intOutEndpoint = (w .output).load order := (hstart.run hrun).2.endpoint
      rw [← hdecoded,← hep]
      exact checkCount_step hj hpc k

/-- The 64-byte endpoints of the test scripts, as the device sends them. -/
def canWire : Direction → WireEndpoint
  | .input => ⟨0x81,3,64,0,1⟩
  | .output => ⟨0x01,3,64,0,1⟩

/-- The same sizes with one additional transaction in each microframe. -/
def doubledWire : Direction → WireEndpoint
  | .input => ⟨0x81,3,64,8,1⟩
  | .output => ⟨0x01,3,64,8,1⟩

/-- A probe of such a device by a host that refuses nothing. -/
def probeWire (order : ByteOrder) (w : Direction → WireEndpoint) : ℤ × Interface × Kernel :=
  nrProbe (canHost fun _ => 0) ([w .output,w .input].map (·.load order)) .fresh ⟨0,[]⟩

theorem can_sizes_decoded :
    ∃ dev nr, (probeWire .little canWire).2.1.data = some dev ∧
      dev.nr (canHost fun _ => 0) = some nr ∧ SizesDecoded canWire dev nr := by
  have hcode : (probeWire .little canWire).1 = 0 := by decide
  have hfirst (d : Direction) : [canWire .output,canWire .input].find?
      (fun w => (canHost fun _ => 0).isInt d (w.load .little)) = some (canWire d) := by
    cases d <;> decide
  obtain ⟨dev,nr,hdata,hnr,hiff⟩ := sizes_decoded_iff hfirst (Prod.ext hcode rfl)
  refine ⟨dev,nr,hdata,hnr,hiff.mpr fun d => ?_⟩
  cases d <;> decide

/-- A multiplier on a little-endian host, and the 64 bytes of the test scripts'
device on a big-endian one: 2112 and 16384 bytes are allocated for 64. -/
theorem raw_sizes_differ :
    (∃ dev nr, (probeWire .little doubledWire).2.1.data = some dev ∧
      dev.nr (canHost fun _ => 0) = some nr ∧ dev.intIn.buffer = some ⟨3,2112⟩ ∧
      ¬ SizesDecoded doubledWire dev nr) ∧
    ∃ dev nr, (probeWire .big canWire).2.1.data = some dev ∧
      dev.nr (canHost fun _ => 0) = some nr ∧ dev.intIn.buffer = some ⟨3,16384⟩ ∧
      ¬ SizesDecoded canWire dev nr := by
  have differs {w : Direction → WireEndpoint} {dev : Draft} {nr : UsbNr} {b : Block}
      (hb : dev.intIn.buffer = some b) (hsize : b.size ≠ (w .input).maxPacket) :
      ¬ SizesDecoded w dev nr := by
    intro h
    obtain ⟨b',hb',hdecoded⟩ := h.allocated .input
    obtain rfl : b = b' := Option.some.inj (hb.symm.trans hb')
    exact hsize hdecoded
  exact ⟨⟨_,_,rfl,rfl,rfl,differs rfl (by decide)⟩,⟨_,_,rfl,rfl,rfl,differs rfl (by decide)⟩⟩

end NrDriver.WireSizes
