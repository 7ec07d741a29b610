import ChipSim.GlobalManager.Capacity
import ChipSim.Orchestrator.Responses

/-!
# The simulation does not get stuck

With a network simulator that answers, every active model can go on at every tick boundary: its
first unfinished input has started and has a current phase. No step other than an injection
attempt raises, and there are at most as many network simulations as communications to simulate.
-/

namespace ChipSim

open Lib

namespace GlobalManager

open MappedModel Orchestrator WorkloadManager

variable {c : Config} {rows : List WorkloadEntry} {specs : List ChipletSpec} {s s' : State}

/-! ## What a step does to the models -/

theorem timing_proceeds {g : ℚ} {k : ℕ} {m m' : MappedModel} {updated : Bool}
    (h : m.calculatePhaseTiming g = .ok (m', updated)) : Proceeds g k m m' :=
  Run.single (show simulated g m .phaseTiming from trivial) (tick_phaseTiming h)

/-- The models of a step: they are operated on, or one is injected, or one is retired. -/
inductive Change (s s' : State) : Prop
  | operated
      (hactive : Dict.Related (Proceeds s.globalTimeUs) s.activeMappedModels s'.activeMappedModels)
      (hretired : s'.retiredMappedModels = s.retiredMappedModels)
  | injected {k : ℕ} {m : MappedModel}
      (hnew : k ∉ s.activeMappedModels ∧ k ∉ s.retiredMappedModels)
      (hactive : s'.activeMappedModels = s.activeMappedModels.set k m)
      (hretired : s'.retiredMappedModels = s.retiredMappedModels)
  | retired {k : ℕ} {m m' : MappedModel} (hm : s.activeMappedModels.get? k = some m)
      (hrun : Proceeds s.globalTimeUs k m m') (hnot : k ∉ s.retiredMappedModels)
      (hactive : s'.activeMappedModels = s.activeMappedModels.erase k)
      (hretired : s'.retiredMappedModels = s.retiredMappedModels.set k m')

theorem Move.change (hnet : Responsive c.network) (hh : Histories c s) (ht : Tracked s)
    (hmove : Move c s s') : Change s s' := by
  have hsame : Dict.Related (Proceeds s.globalTimeUs) s.activeMappedModels s.activeMappedModels :=
    Dict.Related.refl (fun _ _ => .start) _
  cases hmove with
  | ready => exact .operated hsame rfl
  | finish => exact .operated hsame rfl
  | proceed => exact .operated hsame rfl
  | postponed => exact .operated hsame rfl
  | injected hstage => exact .injected (ht.not_active (ht.pending_tail hstage).1) rfl rfl
  | communicated hstage hsim htime =>
    exact .operated (hnet.proceeds (communicated_related hh.shape hsim htime)) rfl
  | kept hstage hm htime =>
    exact .operated (Dict.Related.set (fun _ _ => .start) hm (timing_proceeds htime)) rfl
  | retired hstage hm htime =>
    exact .retired hm (timing_proceeds htime) (ht.disjoint _ (Dict.mem_of_get? hm)) rfl rfl
  | nextTick => exact .operated hsame rfl
  | finished => exact .operated hsame rfl

/-- A quantity summed over all models, active or retired. -/
def total (f : MappedModel → ℕ) (s : State) : ℕ :=
  Dict.sumOf f s.activeMappedModels + Dict.sumOf f s.retiredMappedModels

/-- The models injected so far. -/
def models (s : State) : Finset ℕ :=
  s.activeMappedModels.keys.toFinset ∪ s.retiredMappedModels.keys.toFinset

theorem mem_models {k : ℕ} :
    k ∈ models s ↔ k ∈ s.activeMappedModels ∨ k ∈ s.retiredMappedModels := by
  unfold models
  rw [Finset.mem_union, List.mem_toFinset, List.mem_toFinset, ← Dict.mem_def, ← Dict.mem_def]

/-- The sum after a change: it follows the models, and a new model adds its own. -/
theorem Change.total_le (h : Change s s') {f : MappedModel → ℕ}
    (hf : ∀ k m m', s.activeMappedModels.get? k = some m → Proceeds s.globalTimeUs k m m' →
      f m ≤ f m') : total f s ≤ total f s' := by
  unfold total
  cases h with
  | operated hactive hretired =>
    rw [hretired]
    exact Nat.add_le_add_right (hactive.sumOf_le hf) _
  | injected hnew hactive hretired =>
    next k m =>
    have hsum := Dict.sumOf_set f s.activeMappedModels k m
    rw [Dict.get?_eq_none_iff.mpr hnew.1, Option.map_none, Option.getD_none] at hsum
    rw [hactive, hretired]
    omega
  | retired hm hrun hnot hactive hretired =>
    next k m m' =>
    have herase := Dict.sumOf_erase f s.activeMappedModels k
    have hset := Dict.sumOf_set f s.retiredMappedModels k m'
    have hle := hf k m m' hm hrun
    rw [hm, Option.map_some, Option.getD_some] at herase
    rw [Dict.get?_eq_none_iff.mpr hnot, Option.map_none, Option.getD_none] at hset
    rw [hactive, hretired]
    omega

/-- Without an injection, the models stay the same and so does what their operations preserve. -/
theorem Change.total_eq (h : Change s s') (hmodels : models s' = models s) {f : MappedModel → ℕ}
    (hf : ∀ k m m', s.activeMappedModels.get? k = some m → Proceeds s.globalTimeUs k m m' →
      f m' = f m) : total f s' = total f s := by
  unfold total
  cases h with
  | operated hactive hretired => rw [hretired, hactive.sumOf_eq hf]
  | injected hnew hactive hretired =>
    next k m =>
    have hmem : k ∈ models s' := mem_models.mpr (.inl (hactive ▸ Dict.mem_set.mpr (.inl rfl)))
    rw [hmodels, mem_models] at hmem
    exact absurd hmem (not_or.mpr hnew)
  | retired hm hrun hnot hactive hretired =>
    next k m m' =>
    have herase := Dict.sumOf_erase f s.activeMappedModels k
    have hset := Dict.sumOf_set f s.retiredMappedModels k m'
    rw [hm, Option.map_some, Option.getD_some] at herase
    rw [Dict.get?_eq_none_iff.mpr hnot, Option.map_none, Option.getD_none, hf k m m' hm hrun]
      at hset
    rw [hactive, hretired]
    omega

theorem Change.models_subset (h : Change s s') : models s ⊆ models s' := by
  intro k hk
  rw [mem_models] at hk ⊢
  cases h with
  | operated hactive hretired => rwa [hactive.mem, hretired]
  | injected hnew hactive hretired =>
    rw [hactive, hretired, Dict.mem_set]
    tauto
  | retired hm hrun hnot hactive hretired =>
    next j _ _ =>
    rw [hactive, hretired, Dict.mem_erase, Dict.mem_set]
    by_cases hkj : k = j
    · exact .inr (.inl hkj)
    · exact hk.imp (⟨hkj, ·⟩) .inr

/-- A model that stays active is operated on. -/
theorem Change.model (h : Change s s') {k : ℕ} {m m' : MappedModel}
    (hm : s.activeMappedModels.get? k = some m) (hm' : s'.activeMappedModels.get? k = some m') :
    Proceeds s.globalTimeUs k m m' := by
  cases h with
  | operated hactive =>
    obtain ⟨m₀, hm₀, hrun⟩ := hactive.values k m' hm'
    rw [hm, Option.some.injEq] at hm₀
    exact hm₀ ▸ hrun
  | injected hnew hactive hretired =>
    next j _ =>
    have hk : k ≠ j := fun hkj => hnew.1 (hkj ▸ Dict.mem_of_get? hm)
    rw [hactive, Dict.get?_set_of_ne _ _ hk, hm, Option.some.injEq] at hm'
    exact hm' ▸ .start
  | retired _ _ _ hactive =>
    rw [hactive, Dict.get?_erase] at hm'
    split at hm'
    · cases hm'
    · rw [hm, Option.some.injEq] at hm'
      exact hm' ▸ .start

/-! ## Active models can go on -/

/-- Every active model can go on; one that waits for its retirement check may be complete. -/
structure Unblocked (rows : List WorkloadEntry) (n : ℕ) (s : State) : Prop where
  time : 0 ≤ s.globalTimeUs
  drawn : s.workload.DrawnFrom rows
  injected : ∀ k ∈ s.workload.injectedModels, k ∈ rows.map (·.modelIdx)
  pending : ∀ l, s.stage = .injecting l → ∀ e ∈ l, InRows rows e.2.1 e.2.2
  live : ∀ k m, s.activeMappedModels.get? k = some m → Live s.globalTimeUs m
  traffic : ∀ k m, s.activeMappedModels.get? k = some m → ValidTraffic n m
  first : ∀ k m, s.activeMappedModels.get? k = some m → (∀ l, s.stage = .retiring l → k ∉ l) →
    ∃ i, FirstUnfinished m i

theorem unblocked_start {adjMatrix : ℕ → ℕ → ℚ} {threshold : ℕ}
    (h : start specs adjMatrix rows threshold = .ok s) : Unblocked rows specs.length s := by
  unfold start at h
  split at h
  · cases h
  · cases h
    refine ⟨le_rfl, drawnFrom_load rows threshold, ?_, ?_, ?_, ?_, ?_⟩
    · intro k hk
      cases hk
    · intro l hl
      cases hl
    · intro k m hm
      simp at hm
    · intro k m hm
      simp at hm
    · intro k m hm
      simp at hm

theorem createMappedModel_live {sys : System} {a : Args} {m : MappedModel} {g : ℚ}
    (hL : 0 < a.numLayers) (hN : 0 < a.numInputs) (h0 : 0 ≤ a.modelStartTimeUs)
    (hg : a.modelStartTimeUs ≤ g) (hmap : TrafficCalculator.ValidMapping sys.numChiplets a.mapping)
    (h : createMappedModel c sys a = .ok m) :
    Live g m ∧ ValidTraffic sys.numChiplets m ∧ FirstUnfinished m 0 := by
  obtain ⟨chunks, -, h⟩ := bind_eq_ok.mp h
  have hinit := prepare_initial hL h
  have hbuilt := prepare_builtFrom h
  have hN' : 0 < m.numInputs := by
    rw [hbuilt.numInputs_eq]
    exact hN
  rw [← hbuilt.modelStart] at h0 hg
  exact ⟨hinit.live hN' h0 hg, validTraffic_prepare hL hmap h, hinit.firstUnfinished hN' h0⟩

/-- A move that leaves the models alone only has to account for the workload and its stage. -/
theorem Unblocked.of_same {n : ℕ} (h : Unblocked rows n s)
    (hg : s.globalTimeUs ≤ s'.globalTimeUs) (hdrawn : s'.workload.DrawnFrom rows)
    (hinj : s'.workload.injectedModels = s.workload.injectedModels)
    (hactive : s'.activeMappedModels = s.activeMappedModels)
    (hpending : ∀ l, s'.stage = .injecting l → ∀ e ∈ l, InRows rows e.2.1 e.2.2)
    (hstage : ∀ l, s.stage = .retiring l → l = []) : Unblocked rows n s' := by
  refine ⟨h.time.trans hg, hdrawn, hinj ▸ h.injected, hpending, ?_, hactive ▸ h.traffic, ?_⟩
  · rw [hactive]
    exact fun k m hm => (h.live k m hm).later hg
  · rw [hactive]
    intro k m hm _
    refine h.first k m hm fun l hl hk => ?_
    rw [hstage l hl] at hk
    cases hk

theorem Unblocked.injected_move {n : ℕ} (h : Unblocked rows n s)
    (hrows : ∀ r ∈ rows, 0 < r.numInputs)
    {entry : String × ℕ × ℕ} {rest : List (String × ℕ × ℕ)} {modelDef : ModelDef}
    {metrics : List LayerMetrics} {sys : System} {mapping : LayerMappings} {used : List ℤ}
    {m : MappedModel} (hstage : s.stage = .injecting (entry :: rest))
    (hmetrics : ModelProcessor.processModel modelDef = .ok metrics)
    (hnum : s.system.numChiplets = n) (hnum' : sys.numChiplets = n)
    (hmap : @ModelMapper.generateMapping c.arithmetic s.system (mapperPreference c entry.2.2)
      metrics = .ok (sys, .ok (mapping, used)))
    (hm : createMappedModel c sys (injectionArgs c s entry modelDef metrics mapping used) =
      .ok m) :
    Unblocked rows n { s with
      system := sys
      workload := s.workload.markModelInjected entry.2.2
      activeMappedModels := s.activeMappedModels.set entry.2.2 m
      stage := .injecting rest } := by
  have hentry := h.pending _ hstage entry List.mem_cons_self
  obtain ⟨r, hr, hinputs, hidx⟩ := hentry
  have hvalid := ModelMapper.validMapping_generateMapping hmap
  rw [hnum, ← hnum'] at hvalid
  obtain ⟨hlive, htraffic, hfirst⟩ := createMappedModel_live (g := s.globalTimeUs)
    (ModelProcessor.processModel_nonempty hmetrics)
    (show 0 < entry.2.1 from hinputs ▸ hrows r hr) h.time le_rfl hvalid hm
  rw [hnum'] at htraffic
  have hset : ∀ {P : ℕ → MappedModel → Prop}, P entry.2.2 m →
      (∀ k x, s.activeMappedModels.get? k = some x → P k x) →
      ∀ k x, (s.activeMappedModels.set entry.2.2 m).get? k = some x → P k x := by
    intro P hnew hold k x hx
    rw [Dict.get?_set] at hx
    split at hx
    · next hk => cases hx; exact hk ▸ hnew
    · exact hold k x hx
  refine ⟨h.time, h.drawn.markModelInjected _, ?_, ?_, hset hlive h.live, hset htraffic h.traffic,
    hset (fun _ => ⟨0, hfirst⟩) fun k x hx _ => h.first k x hx fun l hl => ?_⟩
  · intro k hk
    rcases (mem_markModelInjected ..).mp hk with hk | rfl
    · exact h.injected k hk
    · exact List.mem_map.mpr ⟨r, hr, hidx⟩
  · intro l hl e he
    cases hl
    exact h.pending _ hstage e (List.mem_cons_of_mem entry he)
  · rw [hstage] at hl
    cases hl

/-- **One step.** Active models can still go on. -/
theorem Unblocked.move (h : Unblocked rows specs.length s) (hnet : Responsive c.network)
    (hrows : ∀ r ∈ rows, 0 < r.numInputs) (hh : Histories c s) (ht : Tracked s)
    (hb : Balanced specs s) (hmove : Move c s s') : Unblocked rows specs.length s' := by
  have hnum := hb.numChiplets
  have hnum' := (hb.move hh ht hmove).numChiplets
  cases hmove with
  | ready hstage =>
    obtain ⟨hdrawn, hlist⟩ := h.drawn.getModelsToInject s.globalTimeUs
    refine h.of_same le_rfl hdrawn (updateReadyModels_injectedModels ..) rfl ?_ ?_
    · intro l hl
      cases hl
      exact hlist
    · intro l hl
      rw [hstage] at hl
      cases hl
  | finish hstage =>
    refine h.of_same le_rfl h.drawn rfl rfl (fun l hl => by cases hl) fun l hl => ?_
    rw [hstage] at hl
    cases hl
  | proceed hstage =>
    refine h.of_same le_rfl h.drawn rfl rfl (fun l hl => by cases hl) fun l hl => ?_
    rw [hstage] at hl
    cases hl
  | postponed hstage =>
    next entry rest =>
    unfold postpone
    refine h.of_same le_rfl (h.drawn.incrementFailureAge _) rfl rfl ?_ fun l hl => ?_
    · intro l hl e he
      dsimp only at hl
      split at hl
      · cases hl
      · cases hl
        exact h.pending _ hstage e (List.mem_cons_of_mem entry he)
    · rw [hstage] at hl
      cases hl
  | injected hstage hmetrics hmap hm =>
    exact h.injected_move hrows hstage hmetrics hnum hnum' hmap hm
  | communicated hstage hsim htime =>
    have hrel := hnet.proceeds (communicated_related hh.shape hsim htime)
    refine ⟨h.time, h.drawn, h.injected, fun l hl => (by cases hl),
      live_of_proceeds h.live hrel, ?_, ?_⟩
    · intro k m' hm'
      obtain ⟨m, hm, hrun⟩ := hrel.values k m' hm'
      exact (h.traffic k m hm).of_schedule hrun.schedule
    · intro k m' hm' hnot
      exact absurd (Dict.mem_of_get? hm') (hnot _ rfl)
  | kept hstage hm htime hrunning =>
    next modelIdx rest m m' updated =>
    have hrun : Proceeds s.globalTimeUs modelIdx m m' := timing_proceeds htime
    have hlive := h.live _ m hm
    refine ⟨h.time, h.drawn, h.injected, fun l hl => (by cases hl), ?_, ?_, ?_⟩
    all_goals
      intro k x hx
      dsimp only at hx
      rw [Dict.get?_set] at hx
      split at hx
    · cases hx; exact hlive.run hrun
    · exact h.live k x hx
    · cases hx; exact (h.traffic _ m hm).of_schedule hrun.schedule
    · exact h.traffic k x hx
    · intro _
      cases hx
      exact hlive.firstUnfinished htime hrunning
    · next hk =>
      refine fun hnot => h.first k x hx fun l hl => ?_
      rw [hstage, Stage.retiring.injEq] at hl
      rw [← hl, List.mem_cons, not_or]
      exact ⟨hk, hnot rest rfl⟩
  | retired hstage hm htime hcomplete hsys =>
    next modelIdx rest m m' updated sys =>
    have hold : ∀ k x, (s.activeMappedModels.erase modelIdx).get? k = some x →
        k ≠ modelIdx ∧ s.activeMappedModels.get? k = some x := by
      intro k x hx
      rw [Dict.get?_erase] at hx
      split at hx
      · cases hx
      · next hk => exact ⟨hk, hx⟩
    refine ⟨h.time, h.drawn, h.injected, fun l hl => (by cases hl),
      fun k x hx => h.live k x (hold k x hx).2, fun k x hx => h.traffic k x (hold k x hx).2, ?_⟩
    intro k x hx hnot
    obtain ⟨hk, hx⟩ := hold k x hx
    refine h.first k x hx fun l hl => ?_
    rw [hstage, Stage.retiring.injEq] at hl
    rw [← hl, List.mem_cons, not_or]
    exact ⟨hk, hnot rest rfl⟩
  | nextTick hstage =>
    refine h.of_same (by simp) h.drawn rfl rfl (fun l hl => by cases hl) fun l hl => ?_
    rw [hstage, Stage.retiring.injEq] at hl
    exact hl.symm
  | finished => exact h

/-! ## Steps do not raise -/

/-- The invariants of a simulation with a network simulator that answers. -/
structure Sound (c : Config) (specs : List ChipletSpec) (rows : List WorkloadEntry) (s : State) :
    Prop where
  histories : Histories c s
  tracked : Tracked s
  balanced : Balanced specs s
  unblocked : Unblocked rows specs.length s

theorem sound_start {adjMatrix : ℕ → ℕ → ℚ} {threshold : ℕ} (c : Config)
    (h : start specs adjMatrix rows threshold = .ok s) : Sound c specs rows s :=
  ⟨histories_start c h, tracked_start h, balanced_start h, unblocked_start h⟩

theorem Sound.move (h : Sound c specs rows s) (hnet : Responsive c.network)
    (hrows : ∀ r ∈ rows, 0 < r.numInputs) (hmove : Move c s s') : Sound c specs rows s' where
  histories := h.histories.move hmove
  tracked := h.tracked.move h.histories hmove
  balanced := h.balanced.move h.histories h.tracked hmove
  unblocked := h.unblocked.move hnet hrows h.histories h.tracked h.balanced hmove

theorem timeModels_ok {active : Dict ℕ MappedModel} {g : ℚ}
    (hlive : ∀ k m, active.get? k = some m → Live g m) :
    ∃ active', timeModels active g = .ok active' := by
  refine foldlM_ok fun e he acc => ?_
  have hl := hlive e.1 e.2 (Dict.mem_entries_iff.mp he)
  obtain ⟨r, hr⟩ := hl.toShape.calculatePhaseTiming hl.numInputs_pos g
  rw [hr]
  exact ⟨_, rfl⟩

/-- **Totality.** Only an injection attempt can raise. -/
theorem Sound.step_ok (h : Sound c specs rows s) (hnet : Responsive c.network)
    (hstage : ∀ entry rest, s.stage ≠ .injecting (entry :: rest)) : ∃ s', step c s = .ok s' := by
  have hshape : ∀ k m, s.activeMappedModels.get? k = some m → Shape m :=
    fun k m hm => (h.unblocked.live k m hm).toShape
  unfold step
  split
  · split <;> exact ⟨_, rfl⟩
  · exact ⟨_, rfl⟩
  · next entry rest heq => exact absurd heq (hstage entry rest)
  · have htraffic := h.unblocked.traffic
    rw [← h.balanced.numChiplets] at htraffic
    obtain ⟨r, hr⟩ : ∃ r, simulateCommunication s.system.numChiplets c.network
        s.activeMappedModels s.simulationCallCounter s.globalTimeUs = .ok r :=
      simulateCommunication_ok hnet hshape htraffic
    have hrel := hnet.proceeds (simulateCommunication_related hshape hr)
    obtain ⟨timed, htimed⟩ := timeModels_ok (live_of_proceeds h.unblocked.live hrel)
    unfold communicate
    rw [hr, ok_bind, htimed]
    exact ⟨_, rfl⟩
  · exact ⟨_, rfl⟩
  · next modelIdx rest heq =>
    obtain ⟨m, hm⟩ := Dict.mem_iff.mp ((h.tracked.checks _ heq).2 modelIdx List.mem_cons_self)
    have hlive := h.unblocked.live _ m hm
    obtain ⟨r, hr⟩ := hlive.toShape.calculatePhaseTiming hlive.numInputs_pos s.globalTimeUs
    unfold retireModel
    rw [getItem_eq_ok.mpr hm, ok_bind, hr, ok_bind]
    split
    · have hfree := h.balanced.freed hm (calculatePhaseTiming_usedCapacity hr)
      obtain ⟨sys, hsys, -⟩ := s.system.updateCapacityAvailability_ok hfree.1
      rw [hsys]
      exact ⟨_, rfl⟩
    · exact ⟨_, rfl⟩
  · exact ⟨_, rfl⟩

/-! ## Network simulations -/

/-- **Calls.** There are no more calls than communications that have been simulated. -/
theorem Sound.calls_move (h : Sound c specs rows s) (hnet : Responsive c.network)
    (hmove : Move c s s') (hcalls : s.simulationCallCounter ≤ total simulatedInstances s) :
    s'.simulationCallCounter ≤ total simulatedInstances s' := by
  have hle : ∀ k m m', s.activeMappedModels.get? k = some m → Proceeds s.globalTimeUs k m m' →
      m.simulatedInstances ≤ m'.simulatedInstances := fun k m m' hm hrun =>
    ((h.unblocked.live k m hm).run_forward hrun).simulatedInstances_le
  have htotal := (hmove.change hnet h.histories h.tracked).total_le hle
  cases hmove with
  | communicated hstage hsim htime =>
    have hrel := hnet.proceeds (simulateCommunication_related h.histories.shape hsim)
    have hlive := live_of_proceeds h.unblocked.live hrel
    have htimed : Dict.sumOf simulatedInstances _ ≤ Dict.sumOf simulatedInstances _ :=
      (timeModels_related htime).sumOf_le fun k m m' hm ⟨updated, ht⟩ =>
        ((hlive k m hm).run_forward (timing_proceeds (k := k) ht)).simulatedInstances_le
    unfold total at hcalls ⊢
    dsimp only
    rcases simulateCommunication_calls hnet h.unblocked.live hsim with heq | ⟨heq, hlt⟩
    · have hcalls' := htotal
      unfold total at hcalls'
      dsimp only at heq hcalls'
      omega
    · dsimp only at heq hlt
      omega
  | ready => exact hcalls.trans htotal
  | finish => exact hcalls.trans htotal
  | proceed => exact hcalls.trans htotal
  | postponed => exact hcalls.trans htotal
  | injected => exact hcalls.trans htotal
  | kept => exact hcalls.trans htotal
  | retired => exact hcalls.trans htotal
  | nextTick => exact hcalls.trans htotal
  | finished => exact hcalls

theorem total_mono {f f' : MappedModel → ℕ} (h : ∀ m, f m ≤ f' m) (s : State) :
    total f s ≤ total f' s :=
  Nat.add_le_add (List.sum_le_sum fun m _ => h m) (List.sum_le_sum fun m _ => h m)

end GlobalManager

end ChipSim
