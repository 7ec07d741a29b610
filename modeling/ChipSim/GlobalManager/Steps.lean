import ChipSim.GlobalManager
import ChipSim.Lib.Machine
import ChipSim.ModelMapper.Shares
import ChipSim.Orchestrator.Operations

/-!
# What a step of the simulation can do

`Move` lists the cases of a step, each with the conditions under which it happens; every invariant
of the simulation is a case analysis over it. The communication and timing of a tick change an
active model only by operations of `MappedModel.Run` at the current time.
-/

namespace ChipSim

open Lib

/-! ## Steps -/

namespace GlobalManager

open MappedModel

/-- The constructor arguments of an injected model. -/
def injectionArgs (c : Config) (s : State) (entry : String × ℕ × ℕ) (modelDef : ModelDef)
    (metrics : List LayerMetrics) (mapping : LayerMappings) (used : List ℤ) : Args where
  modelName := entry.1
  mapping := mapping
  modelStartTimeUs := s.globalTimeUs
  modelDef := modelDef
  modelMetrics := metrics
  numInputs := entry.2.1
  usedCapacity := used
  modelIdx := entry.2.2
  communicationMethod := c.communicationMethod
  weightStationary := c.weightStationary

/-- What one step can do. -/
inductive Move (c : Config) (s : State) : State → Prop
  | ready (hstage : s.stage = .loopHead)
      (hwork : s.workload.hasRemaining = true ∨ s.activeMappedModels.keys ≠ []) :
      Move c s { s with
        workload := (s.workload.getModelsToInject s.globalTimeUs).1
        stage := .injecting (s.workload.getModelsToInject s.globalTimeUs).2 }
  | finish (hstage : s.stage = .loopHead) (hdone : s.workload.hasRemaining = false)
      (hempty : s.activeMappedModels.keys = []) : Move c s { s with stage := .finished }
  | proceed (hstage : s.stage = .injecting []) : Move c s { s with stage := .communicating }
  | postponed {entry : String × ℕ × ℕ} {rest : List (String × ℕ × ℕ)}
      (hstage : s.stage = .injecting (entry :: rest)) : Move c s (postpone s rest entry.2.2)
  | injected {entry : String × ℕ × ℕ} {rest : List (String × ℕ × ℕ)} {modelDef : ModelDef}
      {metrics : List LayerMetrics} {sys : System} {mapping : LayerMappings} {used : List ℤ}
      {m : MappedModel} (hstage : s.stage = .injecting (entry :: rest))
      (hmetrics : ModelProcessor.processModel modelDef = .ok metrics)
      (hmap : @ModelMapper.generateMapping c.arithmetic s.system (mapperPreference c entry.2.2)
        metrics = .ok (sys, .ok (mapping, used)))
      (hm : createMappedModel c sys (injectionArgs c s entry modelDef metrics mapping used) =
        .ok m) :
      Move c s { s with
        system := sys
        workload := s.workload.markModelInjected entry.2.2
        activeMappedModels := s.activeMappedModels.set entry.2.2 m
        stage := .injecting rest }
  | communicated {simulated timed : Dict ℕ MappedModel} {calls : ℕ}
      (hstage : s.stage = .communicating)
      (hsim : Orchestrator.simulateCommunication s.system.numChiplets c.network
        s.activeMappedModels s.simulationCallCounter s.globalTimeUs = .ok (simulated, calls))
      (htime : timeModels simulated s.globalTimeUs = .ok timed) :
      Move c s { s with
        activeMappedModels := timed
        simulationCallCounter := calls
        stage := .retiring timed.keys }
  | kept {modelIdx : ℕ} {rest : List ℕ} {m m' : MappedModel} {updated : Bool}
      (hstage : s.stage = .retiring (modelIdx :: rest))
      (hm : s.activeMappedModels.get? modelIdx = some m)
      (htime : m.calculatePhaseTiming s.globalTimeUs = .ok (m', updated))
      (hrunning : m'.isComplete s.globalTimeUs = false) :
      Move c s { s with
        activeMappedModels := s.activeMappedModels.set modelIdx m'
        stage := .retiring rest }
  | retired {modelIdx : ℕ} {rest : List ℕ} {m m' : MappedModel} {updated : Bool}
      {sys : System × Bool} (hstage : s.stage = .retiring (modelIdx :: rest))
      (hm : s.activeMappedModels.get? modelIdx = some m)
      (htime : m.calculatePhaseTiming s.globalTimeUs = .ok (m', updated))
      (hcomplete : m'.isComplete s.globalTimeUs = true)
      (hsys : s.system.updateCapacityAvailability (freeCapacity s.system m') = .ok sys) :
      Move c s { s with
        system := sys.1
        activeMappedModels := s.activeMappedModels.erase modelIdx
        retiredMappedModels := s.retiredMappedModels.set modelIdx m'
        stage := .retiring rest }
  | nextTick (hstage : s.stage = .retiring []) :
      Move c s { s with globalTimeUs := s.globalTimeUs + 1, stage := .loopHead }
  | finished (hstage : s.stage = .finished) : Move c s s

variable {c : Config} {s s' : State}

theorem injectModel_move {entry : String × ℕ × ℕ} {rest : List (String × ℕ × ℕ)}
    (hstage : s.stage = .injecting (entry :: rest)) (h : injectModel c s entry rest = .ok s') :
    Move c s s' := by
  unfold injectModel at h
  dsimp only at h
  split at h
  · cases h
  · next modelDef hdef =>
    obtain ⟨metrics, hmetrics, h⟩ := bind_eq_ok.mp h
    split at h
    · cases h
    · split at h
      · cases h
        exact .postponed hstage
      · obtain ⟨r, hr, h⟩ := bind_eq_ok.mp h
        obtain ⟨sys, result⟩ := r
        dsimp only at h
        cases result with
        | error reason =>
          rw [ModelMapper.generateMapping_error hr] at h
          cases reason <;> cases h <;> exact .postponed hstage
        | ok result =>
          obtain ⟨m, hm, h⟩ := bind_eq_ok.mp h
          cases h
          exact .injected hstage hmetrics hr hm

theorem retireModel_move {modelIdx : ℕ} {rest : List ℕ}
    (hstage : s.stage = .retiring (modelIdx :: rest)) (h : retireModel s modelIdx rest = .ok s') :
    Move c s s' := by
  unfold retireModel at h
  obtain ⟨m, hm, h⟩ := bind_eq_ok.mp h
  obtain ⟨r, hr, h⟩ := bind_eq_ok.mp h
  have hm' := getItem_eq_ok.mp hm
  split at h
  · next hc =>
    obtain ⟨sys, hsys, h⟩ := bind_eq_ok.mp h
    cases h
    exact .retired hstage hm' hr hc hsys
  · next hc =>
    cases h
    exact .kept hstage hm' hr (by simpa using hc)

/-- Every step is one of the moves. -/
theorem step_move (h : step c s = .ok s') : Move c s s' := by
  unfold step at h
  split at h
  · next hstage =>
    split at h
    · next hwork =>
      cases h
      refine .ready hstage (hwork.imp_right fun hne => ?_)
      simpa using hne
    · next hwork =>
      cases h
      rw [not_or, not_not] at hwork
      exact .finish hstage (by simpa using hwork.1) (by simpa using hwork.2)
  · next hstage => cases h; exact .proceed hstage
  · next entry rest hstage => exact injectModel_move hstage h
  · next hstage =>
    obtain ⟨r, hr, h⟩ := bind_eq_ok.mp h
    obtain ⟨timed, htimed, h⟩ := bind_eq_ok.mp h
    cases h
    exact .communicated hstage hr htimed
  · next hstage => cases h; exact .nextTick hstage
  · next modelIdx rest hstage => exact retireModel_move hstage h
  · next hstage => cases h; exact .finished hstage

/-- **Runs.** What holds at the start and is preserved by every move holds in every state. -/
theorem Reachable.invariant {s₀ : State} {P : State → Prop} (h : Reachable c s₀ s) (h0 : P s₀)
    (hmove : ∀ s s', Reachable c s₀ s → P s → Move c s s' → P s') : P s := by
  induction h with
  | start => exact h0
  | step hreach hstep ih => exact hmove _ _ hreach ih (step_move hstep)

/-- The timing of all active models changes each by one operation. -/
theorem timeModels_related {active active' : Dict ℕ MappedModel} {g : ℚ}
    (h : timeModels active g = .ok active') :
    Dict.Related (fun _ m m' => ∃ updated, m.calculatePhaseTiming g = .ok (m', updated))
      active active' := by
  refine Dict.Related.of_loop id rfl ?_ h
  intro e _ acc acc' hstep
  obtain ⟨r, hr, hstep⟩ := bind_eq_ok.mp hstep
  cases hstep
  exact ⟨r.1, ⟨r.2, hr⟩, rfl⟩

theorem tick_phaseTiming {g : ℚ} {m m' : MappedModel} {updated : Bool}
    (h : m.calculatePhaseTiming g = .ok (m', updated)) : m.tick g .phaseTiming = .ok m' := by
  unfold tick
  rw [h]
  rfl

theorem timing_run {network : ℕ → List SimulatorInput → NetworkStats} {g : ℚ} {k : ℕ}
    {m m' : MappedModel} {updated : Bool} (h : m.calculatePhaseTiming g = .ok (m', updated)) :
    Orchestrator.Operated network g k m m' :=
  Run.single (show Orchestrator.answers network k g m .phaseTiming from trivial)
    (tick_phaseTiming h)

/-- A tick changes the active models only by their operations. -/
theorem communicated_related {network : ℕ → List SimulatorInput → NetworkStats} {n calls calls' : ℕ}
    {g : ℚ} {active simulated timed : Dict ℕ MappedModel}
    (hs : ∀ k m, active.get? k = some m → Shape m)
    (hsim : Orchestrator.simulateCommunication n network active calls g = .ok (simulated, calls'))
    (htime : timeModels simulated g = .ok timed) :
    Dict.Related (Orchestrator.Operated network g) active timed := by
  refine (Orchestrator.simulateCommunication_related hs hsim).trans
    ((timeModels_related htime).mono ?_) Orchestrator.Operated.trans
  rintro k m m' ⟨updated, h⟩
  exact timing_run h

/-! ## A small simulation -/

/-- A number of steps in a row. -/
def stepsFrom (c : Config) (n : ℕ) (s : State) : Except PyError State :=
  Machine.steps (step c) n s

theorem Reachable.stepsFrom {s₀ : State} (h : Reachable c s₀ s) {n : ℕ}
    (hn : stepsFrom c n s = .ok s') : Reachable c s₀ s' :=
  Machine.steps_invariant h (fun _ _ hs hstep => .step hs hstep) hn

/-- A CMOS chiplet for a hundred weights. -/
def cmosChiplet : ChipletSpec :=
  { ModelMapper.weightChiplet 100 with energyPerMac := 50 }

/-- An I/O chiplet. -/
def ioChiplet : ChipletSpec :=
  { cmosChiplet with
    type := .io
    imc_pos := fun h => by cases h }

/-- A linear layer. -/
def linearLayer (inputs outputs : ℕ) (receivingLayers : List ℤ) : LayerDef where
  description := .linear
  parameters := { inputChannels := some inputs, outputChannels := some outputs }
  receivingLayers := receivingLayers

/-- Models of two linear layers, with constant compute and communication latencies. -/
def smallConfig : Config where
  models := .ofList [("two-layers",
    ⟨.ofList [(0, linearLayer 8 10 [1]), (1, linearLayer 10 4 [-1])]⟩)]
  communicationMethod := .pipelined
  weightStationary := true
  weightLoadingStrategy := .justInTime
  simulateCompute := fun request => .ok ⟨some (2 + request.layerIdx), some 7⟩
  network := fun _ inputs => .latencies (.ofList (inputs.map fun e => (e.2, 5)))

/-- Two compute chiplets and an I/O chiplet in a row. -/
def smallSystem : List ChipletSpec := [cmosChiplet, cmosChiplet, ioChiplet]

/-- Chiplets in a row are connected. -/
def chainMatrix (i j : ℕ) : ℚ := if i + 1 = j then 1 else 0

/-- The model twice; the second one has to wait until the first one is retired. -/
def smallWorkload : List WorkloadEntry := [⟨0, "two-layers", 2, 0⟩, ⟨1, "two-layers", 1, 1⟩]

/-- The small simulation after a number of steps. -/
def smallRun (n : ℕ) : Except PyError State := do
  let s ← start smallSystem chainMatrix smallWorkload 10
  stepsFrom smallConfig n s

theorem smallRun_reachable {n : ℕ} (h : smallRun n = .ok s) :
    ∃ s₀, start smallSystem chainMatrix smallWorkload 10 = .ok s₀ ∧
      Reachable smallConfig s₀ s := by
  obtain ⟨s₀, hs₀, h⟩ := bind_eq_ok.mp h
  exact ⟨s₀, hs₀, Reachable.start.stepsFrom h⟩

end GlobalManager

end ChipSim
