import NrDriver.ProbeOutcome

/-!
# A probe step by step

`nr_probe` between the allocation of its record and its publication, cut into
single steps: the reference on the device, each of the two tests of the loop
body, the tests after the loop, and the allocation of each URB. What holds of
the record before each step is `Shape`: within the loop, every endpoint taken so
far is the first of its kind and has its buffer.

The steps in a row are `buildNr`: what a step leaves to do is what was to do
before it (`finishNr_step`).
-/
namespace NrDriver.ProbeSteps
open KernelModel TransferSteps ProbeModel ProbeOutcome

/-- The next step of `nr_probe`. `scan` is at the head of the loop, with the
endpoints to come, and `takeOut` at the second test of its body. -/
inductive BuildPc where
  | getDev
  | scan (rest : List EndpointDescriptor)
  | takeOut (endpoint : EndpointDescriptor) (rest : List EndpointDescriptor)
  | check
  | allocUrb (d : Direction)
  deriving DecidableEq, Repr

/-- One step, or the jump to the error label. Without a next step the record is
ready to be published. -/
def buildStep (host : Host) (endpoints : List EndpointDescriptor) (pc : BuildPc) (s : Site) :
    Except Site (Site × Option BuildPc) :=
  match pc with
  | .getDev => .ok (getUsbDev s,some (.scan endpoints))
  | .scan [] => .ok (s,some .check)
  | .scan (endpoint :: rest) =>
      (takeEndpoint host .input endpoint s).map fun s => (s,some (.takeOut endpoint rest))
  | .takeOut endpoint rest =>
      (takeEndpoint host .output endpoint s).map fun s => (s,some (.scan rest))
  | .check => (checkEndpoints s).map fun s => (s,some (.allocUrb .input))
  | .allocUrb .input => (allocUrb host .input s).map fun s => (s,some (.allocUrb .output))
  | .allocUrb .output => (allocUrb host .output s).map fun s => (s,none)

/-- `buildNr` after the loop. -/
def afterLoop (host : Host) (s : Site) : Except Site Site := do
  let s ← checkEndpoints s
  let s ← allocUrb host .input s
  allocUrb host .output s

/-- What is left of `buildNr` before a step. -/
def finishNr (host : Host) (endpoints : List EndpointDescriptor) :
    Option BuildPc → Site → Except Site Site
  | some .getDev, s => buildNr host endpoints s
  | some (.scan rest), s => scanEndpoints host rest s >>= afterLoop host
  | some (.takeOut endpoint rest), s => do
      let s ← takeEndpoint host .output endpoint s
      scanEndpoints host rest s >>= afterLoop host
  | some .check, s => afterLoop host s
  | some (.allocUrb .input), s => allocUrb host .input s >>= allocUrb host .output
  | some (.allocUrb .output), s => allocUrb host .output s
  | none, s => .ok s

theorem finishNr_step (host : Host) (endpoints : List EndpointDescriptor) (pc : BuildPc)
    (s : Site) :
    finishNr host endpoints (some pc) s =
      buildStep host endpoints pc s >>= fun r => finishNr host endpoints r.2 r.1 := by
  cases pc with
  | getDev => rfl
  | scan rest =>
      cases rest with
      | nil => rfl
      | cons e rest =>
          simp only [buildStep,finishNr,scanEndpoints]
          cases takeEndpoint host .input e s with
          | error s => rfl
          | ok s =>
              change (takeEndpoint host .output e s >>= scanEndpoints host rest) >>=
                afterLoop host = finishNr host endpoints (some (.takeOut e rest)) s
              simp only [finishNr]
              cases takeEndpoint host .output e s <;> rfl
  | takeOut e rest =>
      simp only [finishNr,buildStep]
      cases takeEndpoint host .output e s <;> rfl
  | check =>
      simp only [finishNr,buildStep,afterLoop]
      cases checkEndpoints s <;> rfl
  | allocUrb d =>
      cases d with
      | input =>
          simp only [finishNr,buildStep]
          cases allocUrb host .input s <;> rfl
      | output =>
          simp only [finishNr,buildStep]
          cases allocUrb host .output s <;> rfl

/-- A bound on the steps left. -/
def stepsLeft (endpoints : List EndpointDescriptor) : Option BuildPc → ℕ
  | some .getDev => 2 * endpoints.length + 5
  | some (.scan rest) => 2 * rest.length + 4
  | some (.takeOut _ rest) => 2 * rest.length + 5
  | some .check => 3
  | some (.allocUrb .input) => 2
  | some (.allocUrb .output) => 1
  | none => 0

theorem stepsLeft_lt {host : Host} {endpoints : List EndpointDescriptor} {pc : BuildPc}
    {s s' : Site} {next : Option BuildPc} (h : buildStep host endpoints pc s = .ok (s',next)) :
    stepsLeft endpoints next < stepsLeft endpoints (some pc) := by
  have mapped {x : Except Site Site} {q : Option BuildPc}
      (hx : x.map (fun s => (s,q)) = .ok (s',next)) : next = q := by
    cases x <;> cases hx
    rfl
  cases pc with
  | getDev =>
      cases h
      simp [stepsLeft]
  | scan rest =>
      cases rest with
      | nil =>
          cases h
          simp [stepsLeft]
      | cons e rest =>
          rw [mapped h]
          simp only [stepsLeft,List.length_cons]
          omega
  | takeOut e rest =>
      rw [mapped h]
      simp [stepsLeft]
  | check =>
      rw [mapped h]
      simp [stepsLeft]
  | allocUrb d =>
      cases d <;> rw [mapped h] <;> simp [stepsLeft]

/-- What holds of the record before each step, and at the end. -/
def Shape (host : Host) (endpoints : List EndpointDescriptor) : Option BuildPc → Draft → Prop
  | some .getDev, dev => dev = .kzalloc dev.record
  | some (.scan rest), dev =>
      ∃ seen, endpoints = seen ++ rest ∧ Scanned host (fun _ => seen) dev
  | some (.takeOut endpoint rest), dev =>
      ∃ seen, endpoints = seen ++ endpoint :: rest ∧
        Scanned host (Function.update (fun _ => seen) .input (seen ++ [endpoint])) dev
  | some .check, dev => Scanned host (fun _ => endpoints) dev
  | some (.allocUrb .input), dev =>
      Scanned host (fun _ => endpoints) dev ∧ ∀ d, (dev.half d).endpoint ≠ none
  | some (.allocUrb .output), dev =>
      ∃ dev₀ n, Scanned host (fun _ => endpoints) dev₀ ∧ (∀ d, (dev₀.half d).endpoint ≠ none) ∧
        dev = dev₀.setHalf .input { dev₀.intIn with urb := some n }
  | none, dev => Built host endpoints dev

/-- A step reaches what the next one starts from, or the error label. -/
def StepEnds (host : Host) (endpoints : List EndpointDescriptor) (J : Site → Prop) :
    Except Site (Site × Option BuildPc) → Prop
  | .ok r => J r.1 ∧ Shape host endpoints r.2 r.1.dev
  | .error s => J s

theorem stepEnds_of_ends {host : Host} {endpoints : List EndpointDescriptor} {J Q : Site → Prop}
    {x : Except Site Site} {next : Option BuildPc} (hx : Ends J Q x)
    (hQ : ∀ s, Q s → J s ∧ Shape host endpoints next s.dev) :
    StepEnds host endpoints J (x.map fun s => (s,next)) := by
  cases x with
  | ok s => exact hQ s hx
  | error s => exact hx

theorem buildStep_ends {host : Host} {endpoints : List EndpointDescriptor} {pc : BuildPc}
    {J : Site → Prop} {s : Site} (hJ : Stable J) (h : J s)
    (hs : Shape host endpoints (some pc) s.dev) :
    StepEnds host endpoints J (buildStep host endpoints pc s) := by
  cases pc with
  | getDev =>
      obtain ⟨hstart,hscan⟩ := getUsbDev_scanned host hJ h hs
      exact ⟨hstart,[],rfl,hscan⟩
  | scan rest =>
      obtain ⟨seen,hsplit,hscan⟩ := hs
      cases rest with
      | nil =>
          rw [List.append_nil] at hsplit
          subst hsplit
          exact ⟨h,hscan⟩
      | cons e rest =>
          exact stepEnds_of_ends (takeEndpoint_ends .input e hJ h hscan) fun s₁ h₁ =>
            ⟨h₁.1,seen,hsplit,h₁.2⟩
  | takeOut e rest =>
      obtain ⟨seen,hsplit,hscan⟩ := hs
      refine stepEnds_of_ends (takeEndpoint_ends .output e hJ h hscan) fun s₁ h₁ =>
        ⟨h₁.1,seen ++ [e],?_,?_⟩
      · simpa using hsplit
      · have hseen : (fun _ => seen ++ [e]) =
            Function.update (Function.update (fun _ => seen) Direction.input (seen ++ [e]))
              Direction.output (seen ++ [e]) := by
          funext d
          cases d <;> simp
        rw [hseen]
        exact h₁.2
  | check => exact stepEnds_of_ends (checkEndpoints_ends h hs) fun s₁ h₁ => h₁
  | allocUrb d =>
      cases d with
      | input =>
          obtain ⟨hscan,he⟩ := hs
          refine stepEnds_of_ends (allocUrb_ends .input hJ h (hscan.urb .input)) fun s₁ h₁ => ?_
          obtain ⟨hJ₁,n,hn⟩ := h₁
          exact ⟨hJ₁,s.dev,n,hscan,he,hn⟩
      | output =>
          obtain ⟨dev₀,n,hscan,he,hdev⟩ := hs
          have hurb : (s.dev.half .output).urb = none := by simpa [hdev] using hscan.urb .output
          refine stepEnds_of_ends (allocUrb_ends .output hJ h hurb) fun s₁ h₁ => ?_
          obtain ⟨hJ₁,m,hm⟩ := h₁
          refine ⟨hJ₁,?_⟩
          rw [hm,hdev]
          exact hscan.built he n m

end NrDriver.ProbeSteps
