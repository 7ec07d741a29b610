import ChipSim.MappedModel.Step

/-!
# What a tick can do

Every operation on a running model is a chain of elementary steps (`Advance`): handle the current
phase of a started input, record a latency, fill in times, let an input start, record the
completion of an input or of the model. The rule `Reachable.invariant` reduces every statement
about all runs to one case analysis over these steps. No operation raises in a reachable state.
-/

namespace ChipSim

open Lib

namespace MappedModel

/-! ## Operations -/

/-- The operations the simulation loop applies to a running model. -/
inductive TickOp
  | activePhases
  | updateLatency (i p : ℕ) (newLatency : ℚ)
  | phaseTiming
  | syncLayers
  | coActiveTraffic (callId : ℕ) (phases : List CoActivePhase)

/-- One operation at time `g`. -/
def tick (m : MappedModel) (g : ℚ) : TickOp → Except PyError MappedModel
  | .activePhases => do return (← m.getActivePhases g).1
  | .updateLatency i p newLatency => m.updatePhaseLatency i p newLatency g
  | .phaseTiming => do return (← m.calculatePhaseTiming g).1
  | .syncLayers => .ok m.syncPhaseMetricsToLayers
  | .coActiveTraffic callId phases => .ok (m.recordCoActiveTraffic callId g phases)

/-- A restriction of the operations by the time and the state they are applied at. -/
abbrev Guard := ℚ → MappedModel → TickOp → Prop

variable {ok : Guard} {m m' : MappedModel} {acc acc' : MappedModel × Bool} {g : ℚ} {i p : ℕ}
  {x : PhaseInstance}

/-! ## Elementary steps -/

/-- One elementary step of a running model at time `g`, with the operations `ok` allows. -/
inductive Advance (ok : Guard) (g : ℚ) (m : MappedModel) : MappedModel → Prop
  | phase {i p : ℕ} {phase : Phase} {x : PhaseInstance} (hstart : m.inputStart i ≠ -1)
      (hg : m.inputStart i ≤ g) (hphase : m.phases.get? p = some phase)
      (hx : m.instance? i p = some x) (hstate : x.state ≠ .complete)
      (hdeps : m.dependenciesMet i p = .ok true) :
      Advance ok g m (m.applyOutcome i p phase (m.handlePhase g i p phase x))
  | latency {i p : ℕ} {x : PhaseInstance} {newLatency : ℚ}
      (hok : ok g m (.updateLatency i p newLatency)) (hx : m.instance? i p = some x) :
      Advance ok g m (m.setInstance i p (x.updateLatency newLatency g))
  | times {i p : ℕ} {phase : Phase} {x : PhaseInstance} (hstart : m.inputStart i ≠ -1)
      (hphase : m.phases.get? p = some phase) (hx : m.instance? i p = some x)
      (hstate : x.state ≠ .complete) (hdeps : m.dependenciesMet i p = .ok true) :
      Advance ok g m
        (m.setInstance i p (x.fillTimes (m.calculatePhaseStartTime i p phase)).1)
  | startInput {i : ℕ} {t : ℚ} (hi : 0 < i) (hiN : i < m.numInputs)
      (hunset : m.inputStart i = -1) (hnext : m.nextInputStart i = some t) :
      Advance ok g m { m with inputStartTimeUs := m.inputStartTimeUs.set i t }
  | completeInput {i : ℕ} {t : ℚ} (hiN : i < m.numInputs) (hunset : m.inputCompletion i = -1)
      (hall : m.allPhasesComplete i = true)
      (hmax : maxOf ((m.existingInstances i).map (·.completionTimeUs)) = .ok t) :
      Advance ok g m { m with inputCompletionTimeUs := m.inputCompletionTimeUs.set i t }
  | completeModel {t : ℚ} (hall : ∀ c ∈ m.inputCompletionTimeUs, c ≠ -1)
      (hmax : maxOf m.inputCompletionTimeUs = .ok t) :
      Advance ok g m { m with modelCompletionTimeUs := t }
  | records (hok : ok g m .syncLayers) : Advance ok g m m.syncPhaseMetricsToLayers
  | coActive (c : Dict ℕ (ℚ × List CoActivePhase)) :
      Advance ok g m { m with communicationCoActiveTraffic := c }

/-- A chain of elementary steps at time `g`. -/
abbrev Advances (ok : Guard) (g : ℚ) : MappedModel → MappedModel → Prop :=
  Relation.ReflTransGen (Advance ok g)

theorem getInstance_eq_ok :
    m.getInstance i p = .ok x ↔ m.instance? i p = some x := by
  unfold getInstance
  cases m.instance? i p <;> simp

/-- Handling an input leaves everything as it is or handles its current phase. -/
inductive Activation (g : ℚ) (m : MappedModel) (listed : List PhaseInstance) (i : ℕ) :
    MappedModel × List PhaseInstance → Prop
  | idle (hidle : m.inputStart i = -1 ∨ g < m.inputStart i ∨ m.findCurrentPhase i = .ok none) :
      Activation g m listed i (m, listed)
  | handled {p : ℕ} {phase : Phase} {x : PhaseInstance} (hstart : m.inputStart i ≠ -1)
      (hg : m.inputStart i ≤ g) (hcurrent : m.findCurrentPhase i = .ok (some p))
      (hphase : m.phases.get? p = some phase) (hx : m.instance? i p = some x) :
      Activation g m listed i (m.applyOutcome i p phase (m.handlePhase g i p phase x),
        if (m.handlePhase g i p phase x).active then
          listed ++ [(m.handlePhase g i p phase x).inst]
        else listed)

theorem activateInput_cases {acc acc' : MappedModel × List PhaseInstance} {i : ℕ}
    (h : activateInput g acc i = .ok acc') : Activation g acc.1 acc.2 i acc' := by
  unfold activateInput at h
  dsimp only at h
  split at h
  · next hs => cases h; exact .idle (.inl hs)
  · next hs =>
    split at h
    · next hg => cases h; exact .idle (.inr (.inl hg))
    · next hg =>
      obtain ⟨r, hr, h⟩ := bind_eq_ok.mp h
      cases r with
      | none => cases h; exact .idle (.inr (.inr hr))
      | some p =>
        obtain ⟨phase, hphase, h⟩ := bind_eq_ok.mp h
        obtain ⟨x, hx, h⟩ := bind_eq_ok.mp h
        cases h
        exact .handled hs (not_lt.mp hg) hr (getItem_eq_ok.mp hphase) (getInstance_eq_ok.mp hx)

theorem activateInput_advances {acc acc' : MappedModel × List PhaseInstance} {i : ℕ}
    (h : activateInput g acc i = .ok acc') : Advances ok g acc.1 acc'.1 := by
  cases activateInput_cases h with
  | idle hidle => exact .refl
  | handled hstart hg hcurrent hphase hx =>
    obtain ⟨-, hc, hdeps⟩ := findCurrentPhaseIn_some hcurrent
    obtain ⟨x', hx', hstate⟩ := completeOrAbsent_eq_false hc
    rw [hx, Option.some.injEq] at hx'
    subst hx'
    exact .single (.phase hstart hg hphase hx hstate hdeps)

theorem getActivePhases_advances {active : List PhaseInstance}
    (h : m.getActivePhases g = .ok (m', active)) : Advances ok g m m' :=
  foldlM_chain Prod.fst h fun _ _ _ _ => activateInput_advances

theorem updatePhaseLatency_advances {newLatency g : ℚ}
    (hok : ok g m (.updateLatency i p newLatency))
    (h : m.updatePhaseLatency i p newLatency g = .ok m') :
    Advances ok g m m' := by
  unfold updatePhaseLatency at h
  split at h
  · cases h
  · split at h
    · cases h; exact .refl
    · next x hx =>
      cases h
      exact .single (.latency hok hx)

/-- What timing one phase can do: nothing, when the phase is complete or has to wait, or fill in
its times. -/
theorem timePhase_cases (h : timePhase i acc p = .ok acc') :
    (acc' = acc ∧
      (acc.1.completeOrAbsent i p = true ∨ acc.1.dependenciesMet i p = .ok false)) ∨
    ∃ phase x, acc.1.phases.get? p = some phase ∧ acc.1.instance? i p = some x ∧
      x.state ≠ .complete ∧ acc.1.dependenciesMet i p = .ok true ∧
      acc'.1 = acc.1.setInstance i p (x.fillTimes (acc.1.calculatePhaseStartTime i p phase)).1 := by
  unfold timePhase at h
  dsimp only at h
  split at h
  · next hc =>
    cases h
    exact .inl ⟨rfl, .inl hc⟩
  · next hc =>
    obtain ⟨x', hx', hstate⟩ := completeOrAbsent_eq_false (by simpa using hc)
    obtain ⟨b, hb, h⟩ := bind_eq_ok.mp h
    cases b with
    | false =>
      cases h
      exact .inl ⟨rfl, .inr hb⟩
    | true =>
      obtain ⟨phase, hphase, h⟩ := bind_eq_ok.mp h
      obtain ⟨x, hx, h⟩ := bind_eq_ok.mp h
      rw [getInstance_eq_ok, hx', Option.some.injEq] at hx
      subst hx
      cases h
      exact .inr ⟨phase, x', getItem_eq_ok.mp hphase, hx', hstate, hb, rfl⟩

theorem timePhase_advances (hstart : acc.1.inputStart i ≠ -1) (h : timePhase i acc p = .ok acc') :
    Advances ok g acc.1 acc'.1 ∧ acc'.1.inputStart i = acc.1.inputStart i := by
  rcases timePhase_cases h with ⟨rfl, -⟩ | ⟨phase, x, hphase, hx, hstate, hdeps, hacc'⟩
  · exact ⟨.refl, rfl⟩
  · rw [hacc']
    exact ⟨.single (.times hstart hphase hx hstate hdeps), rfl⟩

theorem timePhases_advances {i : ℕ} {ps : List ℕ} (hstart : acc.1.inputStart i ≠ -1)
    (h : ps.foldlM (timePhase i) acc = .ok acc') :
    Advances ok g acc.1 acc'.1 := by
  induction ps generalizing acc with
  | nil => cases h; exact .refl
  | cons p ps ih =>
    obtain ⟨acc₁, h₁, h⟩ := foldlM_cons_ok.mp h
    obtain ⟨hadv, hs⟩ := timePhase_advances (g := g) hstart h₁
    exact hadv.trans (ih (hs ▸ hstart) h)

theorem startInput_advances {acc : MappedModel × Bool} {i : ℕ} (hi : i < acc.1.numInputs) :
    Advances ok g acc.1 (startInput acc i).1 := by
  unfold MappedModel.startInput
  dsimp only
  split
  · next h0 =>
    cases hn : acc.1.nextInputStart i with
    | none => exact .refl
    | some t => exact .single (.startInput h0.1 hi h0.2 hn)
  · exact .refl

theorem completeInput_advances {i : ℕ} (hi : i < acc.1.numInputs)
    (h : completeInput acc i = .ok acc') :
    Advances ok g acc.1 acc'.1 := by
  unfold MappedModel.completeInput at h
  dsimp only at h
  split at h
  · next hc =>
    obtain ⟨t, ht, h⟩ := bind_eq_ok.mp h
    cases h
    exact .single (.completeInput hi hc.2 hc.1 ht)
  · cases h; exact .refl

theorem completeModel_advances (h : completeModel acc = .ok acc') : Advances ok g acc.1 acc'.1 := by
  unfold MappedModel.completeModel at h
  dsimp only at h
  split at h
  · next hall =>
    obtain ⟨t, ht, h⟩ := bind_eq_ok.mp h
    split at h
    · cases h
      refine .single (.completeModel ?_ ht)
      simpa using hall
    · cases h; exact .refl
  · cases h; exact .refl

theorem Advance.schedule (h : Advance ok g m m') :
    m'.toPhaseSchedule = m.toPhaseSchedule := by
  cases h with
  | phase => exact applyOutcome_schedule ..
  | _ => rfl

/-- What no step changes besides the schedule. -/
theorem Advance.kept (h : Advance ok g m m') :
    m'.usedCapacity = m.usedCapacity ∧ m'.chunkResults = m.chunkResults ∧
      m'.mapping = m.mapping := by
  cases h with
  | phase =>
    unfold applyOutcome
    split <;> exact ⟨rfl, rfl, rfl⟩
  | _ => exact ⟨rfl, rfl, rfl⟩

/-- Only a synchronisation writes the per-layer records. -/
theorem Advance.layerRecords_eq (h : Advance ok g m m') :
    m'.layerRecords = m.layerRecords ∨ m' = m.syncPhaseMetricsToLayers := by
  cases h with
  | phase => exact .inl (applyOutcome_layerRecords ..)
  | records => exact .inr rfl
  | _ => exact .inl rfl

theorem Advances.schedule (h : Advances ok g m m') :
    m'.toPhaseSchedule = m.toPhaseSchedule :=
  chain_invariant (P := fun m' => m'.toPhaseSchedule = m.toPhaseSchedule) h rfl
    fun _ _ ih hstep => hstep.schedule.trans ih

theorem timeInput_advances {i : ℕ} (hi : i < acc.1.numInputs) (h : timeInput acc i = .ok acc') :
    Advances ok g acc.1 acc'.1 := by
  have hstart : Advances ok g acc.1 (startInput acc i).1 := startInput_advances hi
  unfold timeInput at h
  dsimp only at h
  split at h
  · cases h; exact hstart
  · next hs =>
    obtain ⟨acc₁, h₁, h⟩ := bind_eq_ok.mp h
    have hphases : Advances ok g (startInput acc i).1 acc₁.1 := timePhases_advances hs h₁
    have hN : acc₁.1.numInputs = acc.1.numInputs := by
      rw [hphases.schedule, hstart.schedule]
    exact (hstart.trans hphases).trans (completeInput_advances (hN ▸ hi) h)

theorem calculatePhaseTiming_advances {updated : Bool}
    (h : m.calculatePhaseTiming g = .ok (m', updated)) : Advances ok g m m' := by
  unfold calculatePhaseTiming at h
  obtain ⟨acc, hacc, h⟩ := bind_eq_ok.mp h
  have hloop : Advances ok g m acc.1 := by
    refine foldlM_invariant (fun acc : MappedModel × Bool => Advances ok g m acc.1) hacc .refl ?_
    intro i hi s s' hs hstep
    have hN : s.1.numInputs = m.numInputs := by rw [hs.schedule]
    exact hs.trans (timeInput_advances (by rw [hN]; exact List.mem_range.mp hi) hstep)
  exact hloop.trans (completeModel_advances h)

/-! ## Runs -/

/-- The states of a model in the course of operations at non-decreasing times that meet `ok`, with
the time of the last one. -/
inductive Run (ok : Guard) (g₀ : ℚ) (m₀ : MappedModel) : ℚ → MappedModel → Prop
  | start : Run ok g₀ m₀ g₀ m₀
  | step {g g' : ℚ} {m m' : MappedModel} {op : TickOp} (hrun : Run ok g₀ m₀ g m) (hg : g ≤ g')
      (hok : ok g' m op) (hop : m.tick g' op = .ok m') : Run ok g₀ m₀ g' m'

theorem Advance.mono {ok' : Guard} (hle : ∀ g m op, ok g m op → ok' g m op)
    (h : Advance ok g m m') :
    Advance ok' g m m' := by
  cases h with
  | phase hstart hg hphase hx hstate hdeps => exact .phase hstart hg hphase hx hstate hdeps
  | latency hok hx => exact .latency (hle _ _ _ hok) hx
  | times hstart hphase hx hstate hdeps => exact .times hstart hphase hx hstate hdeps
  | startInput hi hiN hunset hnext => exact .startInput hi hiN hunset hnext
  | completeInput hiN hunset hall hmax => exact .completeInput hiN hunset hall hmax
  | completeModel hall hmax => exact .completeModel hall hmax
  | records hok => exact .records (hle _ _ _ hok)
  | coActive c => exact .coActive c

/-- Every operation is a chain of elementary steps. -/
theorem tick_advances {op : TickOp} (hok : ok g m op) (h : m.tick g op = .ok m') :
    Advances ok g m m' := by
  cases op with
  | activePhases =>
    obtain ⟨r, hr, h⟩ := bind_eq_ok.mp h
    cases h
    exact getActivePhases_advances hr
  | updateLatency i p newLatency => exact updatePhaseLatency_advances hok h
  | phaseTiming =>
    obtain ⟨r, hr, h⟩ := bind_eq_ok.mp h
    cases h
    exact calculatePhaseTiming_advances hr
  | syncLayers =>
    cases h
    exact .single (.records hok)
  | coActiveTraffic callId phases =>
    cases h
    exact .single (.coActive _)

/-- **Runs.** What holds at the start and is preserved by the passing of time and by every
elementary step holds in every state of a run. -/
theorem Run.invariant {m₀ m : MappedModel} {g₀ g : ℚ} {P : ℚ → MappedModel → Prop}
    (h : Run ok g₀ m₀ g m) (h0 : P g₀ m₀) (htime : ∀ g g' m, g ≤ g' → P g m → P g' m)
    (hstep : ∀ g m m', P g m → Advance ok g m m' → P g m') : P g m := by
  induction h with
  | start => exact h0
  | step _ hg hok hop ih =>
    exact chain_invariant (tick_advances hok hop) (htime _ _ _ hg ih) (hstep _)

theorem Run.single {op : TickOp} (hok : ok g m op) (hop : m.tick g op = .ok m') : Run ok g m g m' :=
  .step .start le_rfl hok hop

theorem Run.trans {g₀ g₁ g₂ : ℚ} {m₀ m₁ m₂ : MappedModel} (h₁ : Run ok g₀ m₀ g₁ m₁)
    (h₂ : Run ok g₁ m₁ g₂ m₂) : Run ok g₀ m₀ g₂ m₂ := by
  induction h₂ with
  | start => exact h₁
  | step _ hg hok hop ih => exact .step ih hg hok hop

/-- Time may pass between two runs. -/
theorem Run.append {g₀ g₁ g₂ g₃ : ℚ} {m₀ m₁ m₂ : MappedModel} (h₁ : Run ok g₀ m₀ g₁ m₁)
    (hg : g₁ ≤ g₂) (h₂ : Run ok g₂ m₁ g₃ m₂) : ∃ g, g ≤ g₃ ∧ Run ok g₀ m₀ g m₂ := by
  induction h₂ with
  | start => exact ⟨g₁, hg, h₁⟩
  | step _ hle hok hop ih =>
    obtain ⟨g, hgle, hrun⟩ := ih
    exact ⟨_, le_rfl, .step hrun (hgle.trans hle) hok hop⟩

theorem Run.mono {ok' : Guard} (hle : ∀ g m op, ok g m op → ok' g m op) {g₀ g : ℚ}
    {m₀ m : MappedModel} (h : Run ok g₀ m₀ g m) : Run ok' g₀ m₀ g m := by
  induction h with
  | start => exact .start
  | step _ hg hok hop ih => exact .step ih hg (hle _ _ _ hok) hop

/-- Apply operations at given times. -/
def tickAll (m : MappedModel) (ops : List (ℚ × TickOp)) : Except PyError MappedModel :=
  ops.foldlM (fun m o => m.tick o.1 o.2) m

theorem tickAll_append {ops ops' : List (ℚ × TickOp)} :
    m.tickAll (ops ++ ops') = .ok m' ↔ ∃ m₁, m.tickAll ops = .ok m₁ ∧ m₁.tickAll ops' = .ok m' := by
  unfold tickAll
  rw [List.foldlM_append, bind_eq_ok]

theorem Run.tickAll {g₀ g : ℚ} {m₀ m m' : MappedModel} {ops : List (ℚ × TickOp)}
    (h : Run ok g₀ m₀ g m) (htimes : (g :: ops.map Prod.fst).IsChain (· ≤ ·))
    (hok : ∀ o ∈ ops, ∀ m, ok o.1 m o.2) (hops : m.tickAll ops = .ok m') :
    Run ok g₀ m₀ ((ops.map Prod.fst).getLastD g) m' := by
  induction ops generalizing g m with
  | nil => cases hops; exact h
  | cons o ops ih =>
    obtain ⟨m₁, h₁, hrest⟩ := foldlM_cons_ok.mp hops
    obtain ⟨hg, hchain⟩ := List.isChain_cons_cons.mp htimes
    have hstep := h.step hg (hok o List.mem_cons_self m) h₁
    rw [List.map_cons, List.getLastD_cons]
    exact ih hstep hchain (fun o' ho' => hok o' (List.mem_cons_of_mem o ho')) hrest

/-- Recorded latencies are not negative. -/
def nonNegative : Guard
  | _, _, .updateLatency _ _ newLatency => 0 ≤ newLatency
  | _, _, _ => True

theorem nonNegative_of_updates (ok : Guard)
    (hok : ∀ g m i p newLatency, ok g m (.updateLatency i p newLatency) → 0 ≤ newLatency) (g : ℚ)
    (m : MappedModel) (op : TickOp) (h : ok g m op) : nonNegative g m op := by
  cases op with
  | updateLatency i p newLatency => exact hok g m i p newLatency h
  | activePhases | phaseTiming | syncLayers | coActiveTraffic => trivial

/-- The states a model can reach from `m₀` by ticks at non-decreasing times and with any
latencies, with the time of the last tick. -/
def Reachable (m₀ : MappedModel) (g : ℚ) (m : MappedModel) : Prop :=
  ∃ g₀, Run nonNegative g₀ m₀ g m

theorem Reachable.init (m₀ : MappedModel) (g : ℚ) : Reachable m₀ g m₀ := ⟨g, .start⟩

theorem Reachable.step {m₀ m m' : MappedModel} {g g' : ℚ} (h : Reachable m₀ g m) (op : TickOp)
    (hg : g ≤ g') (hop : nonNegative g' m op) (hm' : m.tick g' op = .ok m') :
    Reachable m₀ g' m' := by
  obtain ⟨g₀, h⟩ := h
  exact ⟨g₀, .step h hg hop hm'⟩

theorem Run.schedule {m₀ m : MappedModel} {g₀ g : ℚ} (h : Run ok g₀ m₀ g m) :
    m.toPhaseSchedule = m₀.toPhaseSchedule :=
  h.invariant (P := fun _ m => m.toPhaseSchedule = m₀.toPhaseSchedule) rfl
    (fun _ _ _ _ h => h) fun _ _ _ ih hstep => hstep.schedule.trans ih

/-! ## The shape of a model -/

theorem mem_set2 {i p j : ℕ} (hx : ∃ y, m.instance? i p = some y) :
    j ∈ m.phaseInstances.set2 i p x ↔ j ∈ m.phaseInstances := by
  rw [Dict.set2, Dict.mem_set]
  refine ⟨fun h => h.elim (fun hj => ?_) id, .inr⟩
  obtain ⟨y, hy⟩ := hx
  obtain ⟨d, hd, -⟩ := Option.bind_eq_some_iff.mp hy
  exact hj ▸ Dict.mem_of_get? hd

/-- Writing an instance with the same identity keeps the shape of a model. -/
theorem Shape.of_write (h : Shape m) {x y : PhaseInstance} (hx : m.instance? i p = some x)
    (hphaseId : y.phaseId = x.phaseId) (hinputIdx : y.inputIdx = x.inputIdx)
    (hsched : m'.toPhaseSchedule = m.toPhaseSchedule)
    (hinst : m'.phaseInstances = m.phaseInstances.set2 i p y)
    (hloaded : ∀ l, l ∈ m.weightsLoaded → l ∈ m'.weightsLoaded)
    (hstart : m'.inputStartTimeUs = m.inputStartTimeUs)
    (hcompl : m'.inputCompletionTimeUs = m.inputCompletionTimeUs) : Shape m' := by
  have hget : ∀ j q, m'.instance? j q = if j = i ∧ q = p then some y else m.instance? j q := by
    intro j q
    rw [instance?, hinst]
    exact Dict.get2?_set2 _ _ _ _ _ _
  refine ⟨hsched ▸ h.wellFormed, ?_, ?_, ?_, ?_, ?_, ?_⟩
  · intro j q
    rw [hsched, ← h.exist j q, hget]
    by_cases hjq : j = i ∧ q = p
    · obtain ⟨rfl, rfl⟩ := hjq
      simp only [and_self, if_true]
      exact ⟨fun _ => ⟨x, hx⟩, fun _ => ⟨y, rfl⟩⟩
    · rw [if_neg hjq]
  · intro j q z hz
    rw [hget] at hz
    by_cases hjq : j = i ∧ q = p
    · obtain ⟨rfl, rfl⟩ := hjq
      simp only [and_self, if_true, Option.some.injEq] at hz
      subst hz
      rw [hphaseId, hinputIdx]
      exact h.ids j q x hx
    · rw [if_neg hjq] at hz
      exact h.ids j q z hz
  · intro j
    rw [hsched, hinst, mem_set2 ⟨x, hx⟩, h.inputs]
  · intro l hl
    rw [hsched] at hl
    exact hloaded l (h.loaded l hl)
  · rw [hstart, hsched, h.startLength]
  · rw [hcompl, hsched, h.completionLength]

theorem updateLatency_ids (x : PhaseInstance) (newLatency g : ℚ) :
    (x.updateLatency newLatency g).phaseId = x.phaseId ∧
      (x.updateLatency newLatency g).inputIdx = x.inputIdx := by
  unfold PhaseInstance.updateLatency
  dsimp only
  split
  · exact ⟨rfl, rfl⟩
  · split <;> exact ⟨rfl, rfl⟩

theorem fillTimes_ids (x : PhaseInstance) (start : ℚ) :
    (x.fillTimes start).1.phaseId = x.phaseId ∧ (x.fillTimes start).1.inputIdx = x.inputIdx := by
  unfold PhaseInstance.fillTimes
  dsimp only
  split <;> split <;> exact ⟨rfl, rfl⟩

theorem Shape.advance (h : Shape m) (hadv : Advance ok g m m') :
    Shape m' := by
  cases hadv with
  | phase hstart hg hphase hx hstate hdeps =>
    next i p phase x =>
    obtain ⟨hid, hin, -⟩ := handlePhase_step m g i p phase x hstate
    refine h.of_write hx hid hin (by simp) (phaseInstances_applyOutcome ..) ?_ (by simp) (by simp)
    intro l hl
    obtain ⟨b, hb⟩ := Dict.mem_iff.mp hl
    rw [Dict.mem_iff, weightsLoaded_applyOutcome]
    split
    · exact ⟨true, rfl⟩
    · exact ⟨b, hb⟩
  | latency hnew hx =>
    exact h.of_write hx (updateLatency_ids ..).1 (updateLatency_ids ..).2 rfl rfl
      (fun _ hl => hl) rfl rfl
  | times hstart hphase hx hstate hdeps =>
    exact h.of_write hx (fillTimes_ids ..).1 (fillTimes_ids ..).2 rfl rfl
      (fun _ hl => hl) rfl rfl
  | startInput hi hiN hunset hnext =>
    exact ⟨h.wellFormed, h.exist, h.ids, h.inputs, h.loaded,
      List.length_set.trans h.startLength, h.completionLength⟩
  | completeInput hiN hunset hall hmax =>
    exact ⟨h.wellFormed, h.exist, h.ids, h.inputs, h.loaded, h.startLength,
      List.length_set.trans h.completionLength⟩
  | completeModel hall hmax =>
    exact ⟨h.wellFormed, h.exist, h.ids, h.inputs, h.loaded, h.startLength, h.completionLength⟩
  | records hok =>
    exact ⟨h.wellFormed, h.exist, h.ids, h.inputs, h.loaded, h.startLength, h.completionLength⟩
  | coActive c =>
    exact ⟨h.wellFormed, h.exist, h.ids, h.inputs, h.loaded, h.startLength, h.completionLength⟩

theorem Shape.advances (h : Shape m) (hadv : Advances ok g m m') :
    Shape m' :=
  chain_invariant hadv h fun _ _ hs hstep => hs.advance hstep

/-! ## No operation raises -/

theorem Shape.getInstance (hc : m.completeOrAbsent i p = false) :
    ∃ x, m.getInstance i p = .ok x := by
  obtain ⟨x, hx, -⟩ := completeOrAbsent_eq_false hc
  exact ⟨x, getInstance_eq_ok.mpr hx⟩

theorem Shape.getPhase (h : Shape m) {p : ℕ} (hp : p ∈ m.phaseExecutionOrder) :
    ∃ phase, getItem m.phases p = .ok phase := by
  obtain ⟨phase, hphase⟩ := Dict.mem_iff.mp ((h.wellFormed.mem_order p).mp hp)
  exact ⟨phase, getItem_eq_ok.mpr hphase⟩

theorem Shape.activateInput {acc : MappedModel × List PhaseInstance} (h : Shape acc.1) (g : ℚ)
    (i : ℕ) : ∃ acc', activateInput g acc i = .ok acc' := by
  unfold MappedModel.activateInput
  dsimp only
  split
  · exact ⟨acc, rfl⟩
  · split
    · exact ⟨acc, rfl⟩
    · obtain ⟨r, hr⟩ := h.findCurrentPhase i
      rw [hr, ok_bind]
      cases r with
      | none => exact ⟨acc, rfl⟩
      | some p =>
        obtain ⟨hp, hc, -⟩ := findCurrentPhaseIn_some hr
        obtain ⟨phase, hphase⟩ := h.getPhase hp
        obtain ⟨x, hx⟩ := Shape.getInstance hc
        dsimp only
        rw [hphase, ok_bind, hx, ok_bind]
        exact ⟨_, rfl⟩

/-- `get_active_phases` never raises. -/
theorem Shape.getActivePhases (h : Shape m) (g : ℚ) :
    ∃ r, m.getActivePhases g = .ok r := by
  have hloop := foldlM_total (f := MappedModel.activateInput g) (l := List.range m.numInputs)
    (s := (m, [])) (fun acc => Shape acc.1) h ?_
  · obtain ⟨r, hr, -⟩ := hloop
    exact ⟨r, hr⟩
  · intro i _ acc hacc
    obtain ⟨acc', hacc'⟩ := hacc.activateInput g i
    have hadv : Advances nonNegative g acc.1 acc'.1 := activateInput_advances hacc'
    exact ⟨acc', hacc', hacc.advances hadv⟩

theorem Shape.timePhase {acc : MappedModel × Bool} (h : Shape acc.1) (i : ℕ) {p : ℕ}
    (hp : p ∈ acc.1.phaseExecutionOrder) : ∃ acc', timePhase i acc p = .ok acc' := by
  unfold MappedModel.timePhase
  dsimp only
  split
  · exact ⟨acc, rfl⟩
  · next hc =>
    obtain ⟨phase, hphase⟩ := h.getPhase hp
    obtain ⟨b, hb, -⟩ := h.dependenciesMet i (getItem_eq_ok.mp hphase)
    rw [hb, ok_bind]
    cases b with
    | false => exact ⟨acc, rfl⟩
    | true =>
      obtain ⟨x, hx⟩ := Shape.getInstance (by simpa using hc)
      rw [if_pos rfl, hphase, ok_bind, hx, ok_bind]
      exact ⟨_, rfl⟩

/-- The first computation has an instance for every input. -/
theorem Shape.exists_instance (h : Shape m) {i : ℕ} (hi : i < m.numInputs) :
    ∃ p x, p ∈ m.phaseExecutionOrder ∧ m.instance? i p = some x := by
  obtain ⟨p, phase, -, hphase, hk⟩ := h.wellFormed.compute_phase 0 h.wellFormed.pos
  have hskip : skipsInstance m.toPhaseSchedule i phase = false := by
    simp [skipsInstance, Phase.isWeightLoading, hk]
  obtain ⟨x, hx⟩ := (h.exist i p).mpr ⟨hi, phase, hphase, hskip⟩
  exact ⟨p, x, (h.wellFormed.mem_order p).mpr (Dict.mem_of_get? hphase), hx⟩

theorem Shape.completeInput {acc : MappedModel × Bool} (h : Shape acc.1) {i : ℕ}
    (hi : i < acc.1.numInputs) : ∃ acc', completeInput acc i = .ok acc' := by
  unfold MappedModel.completeInput
  dsimp only
  split
  · obtain ⟨p, x, hp, hx⟩ := h.exists_instance hi
    have hmem : x.completionTimeUs ∈ (acc.1.existingInstances i).map (·.completionTimeUs) :=
      List.mem_map_of_mem (List.mem_filterMap.mpr ⟨p, hp, hx⟩)
    obtain ⟨t, ht⟩ := maxOf_ok (List.ne_nil_of_mem hmem)
    rw [ht, ok_bind]
    exact ⟨_, rfl⟩
  · exact ⟨acc, rfl⟩

theorem Shape.timeInput {acc : MappedModel × Bool} (h : Shape acc.1) {i : ℕ}
    (hi : i < acc.1.numInputs) : ∃ acc', timeInput acc i = .ok acc' := by
  have hadv : Advances nonNegative 0 acc.1 (startInput acc i).1 := startInput_advances hi
  unfold MappedModel.timeInput
  dsimp only
  split
  · exact ⟨_, rfl⟩
  · next hs =>
    -- the loop over the phases keeps the input started and the schedule as it is
    have hloop := foldlM_total (f := MappedModel.timePhase i)
      (l := (startInput acc i).1.phaseExecutionOrder) (s := startInput acc i)
      (fun acc' => Advances nonNegative 0 acc.1 acc'.1 ∧ acc'.1.inputStart i ≠ -1) ⟨hadv, hs⟩ ?_
    · obtain ⟨acc₁, h₁, hadv₁, -⟩ := hloop
      rw [h₁, ok_bind]
      exact (h.advances hadv₁).completeInput (by rw [hadv₁.schedule]; exact hi)
    · rintro p hp acc₁ ⟨hadv₁, hs₁⟩
      have hp₁ : p ∈ acc₁.1.phaseExecutionOrder := by
        rw [hadv₁.schedule, ← hadv.schedule]
        exact hp
      obtain ⟨acc₂, h₂⟩ := (h.advances hadv₁).timePhase i hp₁
      obtain ⟨hadv₂, hs₂⟩ := timePhase_advances (g := 0) hs₁ h₂
      exact ⟨acc₂, h₂, hadv₁.trans hadv₂, hs₂ ▸ hs₁⟩

/-- `calculate_phase_timing` never raises. -/
theorem Shape.calculatePhaseTiming (h : Shape m) (hN : 0 < m.numInputs) (g : ℚ) :
    ∃ r, m.calculatePhaseTiming g = .ok r := by
  have hloop := foldlM_total (f := MappedModel.timeInput) (l := List.range m.numInputs)
    (s := (m, false)) (fun acc => Advances nonNegative g m acc.1) .refl ?_
  · obtain ⟨acc, hacc, hadv⟩ := hloop
    unfold MappedModel.calculatePhaseTiming
    rw [hacc, ok_bind]
    unfold MappedModel.completeModel
    dsimp only
    split
    · have hne : acc.1.inputCompletionTimeUs ≠ [] := by
        rw [← List.length_pos_iff, (h.advances hadv).completionLength, hadv.schedule]
        exact hN
      obtain ⟨t, ht⟩ := maxOf_ok hne
      rw [ht, ok_bind]
      split <;> exact ⟨_, rfl⟩
    · exact ⟨acc, rfl⟩
  · intro i hi acc hadv
    have hi' : i < acc.1.numInputs := by
      rw [hadv.schedule]
      exact List.mem_range.mp hi
    obtain ⟨acc', hacc'⟩ := (h.advances hadv).timeInput hi'
    exact ⟨acc', hacc', hadv.trans (timeInput_advances hi' hacc')⟩

end MappedModel

end ChipSim
