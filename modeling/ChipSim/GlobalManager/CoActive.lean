import ChipSim.GlobalManager.Injection
import ChipSim.MappedModel.Ongoing
import ChipSim.Orchestrator.Responses

/-!
# Co-active communications

A call of the network simulator records the phases it simulates together. They are the ones noticed
in the same tick, but their start times are those of their dependencies: a short communication may
be over before the tick, and before another one of the same call has started. When every first
latency reaches to the time of its call, phases recorded together overlap.
-/

namespace ChipSim

open Lib

namespace Orchestrator

open MappedModel

variable {n callId : ℕ} {g : ℚ} {active active' : Dict ℕ MappedModel}
  {c : Dict ℕ MappedModel × List ActivePhase}

/-! ## One call -/

/-- The change of a model within a tick, without a new record of co-active traffic. -/
structure Continues (g : ℚ) (k : ℕ) (m m' : MappedModel) : Prop where
  run : Run reachesNow g m g m'
  coActive : m'.communicationCoActiveTraffic = m.communicationCoActiveTraffic

theorem Continues.refl (k : ℕ) (m : MappedModel) : Continues g k m m := ⟨.start, rfl⟩

theorem Continues.trans (k : ℕ) (u v w : MappedModel) (h₁ : Continues g k u v)
    (h₂ : Continues g k v w) : Continues g k u w :=
  ⟨h₁.run.trans h₂.run, h₂.coActive.trans h₁.coActive⟩

theorem collected_continues (h : collectActivePhases n active g = .ok c) :
    Dict.Related (Continues g) active c.1 :=
  (collectActivePhases_related h).mono fun _ m _ ⟨_, hlisted⟩ =>
    ⟨Run.single (show reachesNow g m .activePhases from trivial) (tick_activePhases hlisted),
      getActivePhases_coActive hlisted⟩

/-- What is collected goes on at the time of the call. -/
theorem collected_outlasts (hfixed : ∀ k m, active.get? k = some m → FixedStarts g m)
    (h : collectActivePhases n active g = .ok c) {a : ActivePhase} (ha : a ∈ c.2) :
    ∃ m, c.1.get? a.modelIdx = some m ∧ Outlasts g a.inputIdx a.phaseId m := by
  obtain ⟨e, he, m', listed, hlisted, x, hx, hc⟩ := (mem_collectActivePhases h a).mp ha
  have hget := Dict.mem_entries_iff.mp he
  have hshape := (hfixed e.1 e.2 hget).toShape
  obtain ⟨m'', hm'', listed', hlisted'⟩ := (collectActivePhases_related h).get? hget
  rw [hlisted, Except.ok.injEq, Prod.mk.injEq] at hlisted'
  rw [hc.modelIdx, hc.inputIdx, hc.phaseId]
  refine ⟨m', by rw [hm'', hlisted'.1], ?_, x, ?_, ?_⟩
  · obtain ⟨phase, hphase, hactive⟩ := (getActivePhases_listed hshape hlisted x hx).active
    have hsame := hphase.symm.trans hc.phase
    rw [Option.some.injEq] at hsame
    obtain ⟨f, -, hnz⟩ := hactive.scaled (hsame ▸ hc.comm)
    exact ⟨phase, hphase, hsame ▸ hc.comm, hasNonzeroTraffic_of_scaled hnz⟩
  · exact (getActivePhases_listed hshape hlisted x hx).stored
  · have hlist := getActivePhases_listed hshape hlisted x hx
    obtain ⟨_, -, hactive⟩ := hlist.active
    have hrun : Run reachesNow g e.2 g m' :=
      Run.single (show reachesNow g e.2 .activePhases from trivial) (tick_activePhases hlisted)
    have htimes := (hfixed e.1 e.2 hget).run hrun
    refine ⟨by rw [hactive.running]; decide, htimes.running _ _ x hlist.stored hactive.running,
      fun _ hlat => ?_, fun hs => by rw [hactive.running] at hs; cases hs⟩
    have hnonneg := htimes.latency _ _ x hlist.stored (by rw [hactive.running]; decide)
    rcases getActivePhases_ongoing hshape hlisted x hx _ hc.phase hc.comm with hle | hlt
    · exact absurd (le_antisymm hle hnonneg) hlat
    · exact hlt.le

theorem updatePhaseLatency_other {m m' : MappedModel} {i p j q : ℕ} {v : ℚ}
    (h : m.updatePhaseLatency i p v g = .ok m') (hjq : (j, q) ≠ (i, p)) :
    m'.toPhaseSchedule = m.toPhaseSchedule ∧ m'.instance? j q = m.instance? j q := by
  unfold updatePhaseLatency at h
  split at h
  · cases h
  · split at h
    · cases h
      exact ⟨rfl, rfl⟩
    · cases h
      refine ⟨rfl, ?_⟩
      rw [instance?_setInstance, if_neg fun heq => hjq (Prod.ext heq.1 heq.2)]

/-- The latencies of a call are recorded one by one, for different instances. -/
theorem updateLatencies_continues {l : List ((ℕ × ℕ × ℕ) × ℚ)} (hl : (l.map Prod.fst).Nodup)
    (hreach : ∀ e ∈ l, ∀ m, active.get? e.1.1 = some m →
      reachesNow g m (.updateLatency e.1.2.1 e.1.2.2 e.2))
    (h : l.foldlM (updateLatency g) active = .ok active') :
    Dict.Related (Continues g) active active' := by
  induction l generalizing active with
  | nil =>
    cases h
    exact Dict.Related.refl Continues.refl _
  | cons e l ih =>
    rw [List.map_cons, List.nodup_cons] at hl
    obtain ⟨active₁, h₁, h⟩ := foldlM_cons_ok.mp h
    have hrest : ∀ e' ∈ l, ∀ m, active.get? e'.1.1 = some m →
        reachesNow g m (.updateLatency e'.1.2.1 e'.1.2.2 e'.2) :=
      fun e' he' => hreach e' (List.mem_cons_of_mem e he')
    unfold updateLatency at h₁
    split at h₁
    · cases h₁
      exact ih hl.2 hrest h
    · next m hm =>
      obtain ⟨m', hm', h₁⟩ := bind_eq_ok.mp h₁
      cases h₁
      have hfirst : Continues g e.1.1 m m' :=
        ⟨Run.single (hreach e List.mem_cons_self m hm) hm', updatePhaseLatency_coActive hm'⟩
      refine (Dict.Related.set Continues.refl hm hfirst).trans (ih hl.2 ?_ h) Continues.trans
      intro e' he' m₁ hm₁
      rw [Dict.get?_set] at hm₁
      by_cases hk : e'.1.1 = e.1.1
      · -- another instance of the same model
        rw [if_pos hk, Option.some.injEq] at hm₁
        subst hm₁
        have hne : (e'.1.2.1, e'.1.2.2) ≠ (e.1.2.1, e.1.2.2) := fun heq =>
          hl.1 (List.mem_map.mpr ⟨e', he', Prod.ext hk heq⟩)
        obtain ⟨hsched, hinst⟩ := updatePhaseLatency_other hm' hne
        obtain ⟨hnew, hreaches⟩ := hrest e' he' m (hk ▸ hm)
        refine ⟨hnew, fun phase x hphase hcomm hx => ?_⟩
        rw [hsched] at hphase
        rw [hinst] at hx
        exact hreaches phase x hphase hcomm hx
      · rw [if_neg hk] at hm₁
        exact hrest e' he' m₁ hm₁

/-- The latencies of an answer reach to the time of the call. -/
def ReachNow (g : ℚ) (active : Dict ℕ MappedModel) (d : PhaseLatencies) : Prop :=
  ∀ e ∈ d.entries, ∀ m ∈ active.get? e.1.1, reachesNow g m (.updateLatency e.1.2.1 e.1.2.2 e.2)

instance (g : ℚ) (active : Dict ℕ MappedModel) (d : PhaseLatencies) :
    Decidable (ReachNow g active d) :=
  inferInstanceAs (Decidable (∀ e ∈ d.entries, ∀ m ∈ active.get? e.1.1,
    reachesNow g m (.updateLatency e.1.2.1 e.1.2.2 e.2)))

theorem ReachNow.recordCoActive {d : PhaseLatencies} {phases : List ActivePhase}
    (h : ReachNow g active d) : ReachNow g (recordCoActive active phases callId g) d := by
  intro e he m hm
  unfold Orchestrator.recordCoActive at hm
  rw [Dict.get?_mapValues] at hm
  obtain ⟨m₀, hm₀, rfl⟩ := Option.map_eq_some_iff.mp hm
  split <;> exact h e he m₀ hm₀

theorem updatePhaseLatencies_continues {d : PhaseLatencies} (hreach : ReachNow g active d)
    (h : updatePhaseLatencies g active d = .ok active') :
    Dict.Related (Continues g) active active' := by
  obtain ⟨updated, hupdated, h⟩ := bind_eq_ok.mp h
  cases h
  refine (updateLatencies_continues d.nodup hreach hupdated).trans
    (Dict.Related.mapValues fun k m _ => ?_) Continues.trans
  exact ⟨Run.single (show reachesNow g m .syncLayers from trivial) rfl, rfl⟩

end Orchestrator

namespace GlobalManager

open MappedModel Orchestrator

variable {c : Config} {s s' : State}

theorem timing_continues {g : ℚ} {k : ℕ} {m m' : MappedModel} {updated : Bool}
    (h : m.calculatePhaseTiming g = .ok (m', updated)) : Continues g k m m' :=
  ⟨Run.single (show reachesNow g m .phaseTiming from trivial) (tick_phaseTiming h),
    calculatePhaseTiming_coActive h⟩

theorem timeModels_continues {active active' : Dict ℕ MappedModel} {g : ℚ}
    (h : timeModels active g = .ok active') : Dict.Related (Continues g) active active' :=
  (timeModels_related h).mono fun _ _ _ ⟨_, htime⟩ => timing_continues htime

/-! ## Runs -/

/-- A model of the simulation, active or retired. -/
def ModelOf (s : State) (k : ℕ) (m : MappedModel) : Prop :=
  s.activeMappedModels.get? k = some m ∨ s.retiredMappedModels.get? k = some m

/-- If the next step calls the network simulator, the first latency it returns for a running
communication is no shorter than the time since the start of the communication. -/
def AnsweredInTime (c : Config) (s : State) : Prop :=
  s.stage = .communicating → ∀ r d,
    collectActivePhases s.system.numChiplets s.activeMappedModels s.globalTimeUs = .ok r →
    needsInitialSimulation r.1 r.2 = true →
    c.network (s.simulationCallCounter + 1) (r.2.map ActivePhase.simulatorInput) = .latencies d →
    ReachNow s.globalTimeUs r.1 d

instance (c : Config) (s : State) : Decidable (AnsweredInTime c s) :=
  match hr : collectActivePhases s.system.numChiplets s.activeMappedModels s.globalTimeUs with
  | .error _ => .isTrue fun _ _ _ hr' => by rw [hr] at hr'; cases hr'
  | .ok r =>
    match hd : c.network (s.simulationCallCounter + 1) (r.2.map ActivePhase.simulatorInput) with
    | .latencies d =>
      decidable_of_iff (s.stage = .communicating → needsInitialSimulation r.1 r.2 = true →
          ReachNow s.globalTimeUs r.1 d) <| by
        refine ⟨fun h hstage r' d' hr' hneeds hd' => ?_, fun h hstage hneeds => ?_⟩
        · rw [hr, Except.ok.injEq] at hr'
          subst hr'
          rw [hd, NetworkStats.latencies.injEq] at hd'
          exact hd' ▸ h hstage hneeds
        · exact h hstage r d hr hneeds hd
    | .noResults | .noLatency | .noPhaseLatencies => .isTrue fun _ r' d' hr' _ hd' => by
      rw [hr, Except.ok.injEq] at hr'
      rw [← hr', hd] at hd'
      cases hd'

/-- The states of a simulation all of whose calls are answered in time. -/
inductive ReachableInTime (c : Config) (s₀ : State) : State → Prop
  | start : ReachableInTime c s₀ s₀
  | step {s s' : State} (h : ReachableInTime c s₀ s) (hcall : AnsweredInTime c s)
      (hstep : step c s = .ok s') : ReachableInTime c s₀ s'

theorem ReachableInTime.reachable {s₀ : State} (h : ReachableInTime c s₀ s) :
    Reachable c s₀ s := by
  induction h with
  | start => exact .start
  | step _ _ hstep ih => exact .step ih hstep

/-- Phases recorded together at time `g` were all going on at that time. -/
def RecordedGoingOn (s : State) (g : ℚ) (phases : List CoActivePhase) : Prop :=
  g ≤ s.globalTimeUs ∧
    ∀ a ∈ phases, ∃ m, ModelOf s a.modelIdx m ∧ Outlasts g a.inputIdx a.phaseId m

/-- What is recorded together was going on at the time of the call. -/
structure CoActive (s : State) : Prop where
  times : ∀ k m, ModelOf s k m → FixedStarts s.globalTimeUs m
  together : ∀ k m, ModelOf s k m → ∀ call g phases,
    m.communicationCoActiveTraffic.get? call = some (g, phases) → RecordedGoingOn s g phases

theorem coActive_start {specs : List ChipletSpec} {adjMatrix : ℕ → ℕ → ℚ}
    {rows : List WorkloadEntry} {threshold : ℕ}
    (h : start specs adjMatrix rows threshold = .ok s) : CoActive s := by
  unfold start at h
  split at h
  · cases h
  · cases h
    have hnone : ∀ {P : Prop} {k m}, ModelOf
        { globalTimeUs := 0
          system := { chiplets := specs.map Chiplet.new, adjMatrix := adjMatrix }
          workload := .load rows threshold } k m → P := by
      rintro P k m (hm | hm) <;> simp at hm
    exact ⟨fun k m hm => hnone hm, fun k m hm => hnone hm⟩

/-- Models that go on keep what was recorded together. -/
theorem RecordedGoingOn.carried {g : ℚ} {phases : List CoActivePhase}
    (h : RecordedGoingOn s g phases) (hfixed : ∀ k m, ModelOf s k m → FixedStarts s.globalTimeUs m)
    (hg : s.globalTimeUs ≤ s'.globalTimeUs)
    (hcarried : ∀ k m, ModelOf s k m →
      ∃ m', ModelOf s' k m' ∧ Run reachesNow s.globalTimeUs m s.globalTimeUs m') :
    RecordedGoingOn s' g phases := by
  refine ⟨h.1.trans hg, fun a ha => ?_⟩
  obtain ⟨m, hm, hout⟩ := h.2 a ha
  obtain ⟨m', hm', hrun⟩ := hcarried a.modelIdx m hm
  exact ⟨m', hm', hout.run (hfixed _ m hm) h.1 hrun⟩

/-- A step that carries the models over, where each record is an old one, or of phases that were
going on. -/
theorem CoActive.of_carried (h : CoActive s) (hg : s.globalTimeUs ≤ s'.globalTimeUs)
    (hcarried : ∀ k m, ModelOf s k m →
      ∃ m', ModelOf s' k m' ∧ Run reachesNow s.globalTimeUs m s.globalTimeUs m')
    (hfixed : ∀ k m', ModelOf s' k m' → FixedStarts s.globalTimeUs m')
    (hrecords : ∀ k m', ModelOf s' k m' → ∀ call g phases,
      m'.communicationCoActiveTraffic.get? call = some (g, phases) →
      RecordedGoingOn s' g phases ∨ ∃ m, ModelOf s k m ∧
        m.communicationCoActiveTraffic.get? call = some (g, phases)) : CoActive s' := by
  refine ⟨fun k m' hm' => (hfixed k m' hm').later hg, fun k m' hm' call g phases hrec => ?_⟩
  rcases hrecords k m' hm' call g phases hrec with hnew | ⟨m, hm, hold⟩
  · exact hnew
  · exact (h.together k m hm call g phases hold).carried h.times hg hcarried

/-- A step without a new model and without a new record. -/
theorem CoActive.of_back (h : CoActive s) (hg : s.globalTimeUs ≤ s'.globalTimeUs)
    (hcarried : ∀ k m, ModelOf s k m →
      ∃ m', ModelOf s' k m' ∧ Run reachesNow s.globalTimeUs m s.globalTimeUs m')
    (hback : ∀ k m', ModelOf s' k m' → ∃ m, ModelOf s k m ∧ Continues s.globalTimeUs k m m') :
    CoActive s' := by
  refine h.of_carried hg hcarried (fun k m' hm' => ?_) fun k m' hm' call g phases hrec => ?_
  · obtain ⟨m, hm, hcont⟩ := hback k m' hm'
    exact (h.times k m hm).run hcont.run
  · obtain ⟨m, hm, hcont⟩ := hback k m' hm'
    exact .inr ⟨m, hm, hcont.coActive ▸ hrec⟩

theorem CoActive.of_continues (h : CoActive s) (hg : s.globalTimeUs ≤ s'.globalTimeUs)
    (hactive : Dict.Related (Continues s.globalTimeUs) s.activeMappedModels s'.activeMappedModels)
    (hretired : s'.retiredMappedModels = s.retiredMappedModels) : CoActive s' := by
  refine h.of_back hg ?_ ?_
  · rintro k m (hm | hm)
    · obtain ⟨m', hm', hcont⟩ := hactive.get? hm
      exact ⟨m', .inl hm', hcont.run⟩
    · exact ⟨m, .inr (hretired ▸ hm), .start⟩
  · rintro k m' (hm' | hm')
    · obtain ⟨m, hm, hcont⟩ := hactive.values k m' hm'
      exact ⟨m, .inl hm, hcont⟩
    · exact ⟨m', .inr (hretired ▸ hm'), .refl k m'⟩

theorem CoActive.retired_move (h : CoActive s) (ht : Tracked s) {k : ℕ} {m m₁ : MappedModel}
    (hm : s.activeMappedModels.get? k = some m) (hcont : Continues s.globalTimeUs k m m₁)
    (hg : s'.globalTimeUs = s.globalTimeUs)
    (hactive : s'.activeMappedModels = s.activeMappedModels.erase k)
    (hretired : s'.retiredMappedModels = s.retiredMappedModels.set k m₁) : CoActive s' := by
  refine h.of_back hg.ge ?_ ?_
  · rintro j m₀ (hm₀ | hm₀)
    · by_cases hj : j = k
      · subst hj
        rw [hm, Option.some.injEq] at hm₀
        exact ⟨m₁, .inr (by rw [hretired, Dict.get?_set_self]), hm₀ ▸ hcont.run⟩
      · exact ⟨m₀, .inl (by rw [hactive, Dict.get?_erase, if_neg hj, hm₀]), .start⟩
    · have hj : j ≠ k := fun heq =>
        ht.disjoint j (heq ▸ Dict.mem_of_get? hm) (Dict.mem_of_get? hm₀)
      exact ⟨m₀, .inr (by rw [hretired, Dict.get?_set_of_ne _ _ hj, hm₀]), .start⟩
  · rintro j m' (hm' | hm')
    · rw [hactive, Dict.get?_erase] at hm'
      split at hm'
      · cases hm'
      · exact ⟨m', .inl hm', .refl j m'⟩
    · rw [hretired, Dict.get?_set] at hm'
      split at hm'
      · next hj =>
        cases hm'
        exact ⟨m, .inl (hj ▸ hm), hj ▸ hcont⟩
      · exact ⟨m', .inr hm', .refl j m'⟩

/-- A new model has no records. -/
theorem CoActive.injected_move (h : CoActive s) {k : ℕ} {m : MappedModel} (hinit : Initial m)
    (hrec : m.communicationCoActiveTraffic = .empty) (hnew : k ∉ s.activeMappedModels)
    (hg : s'.globalTimeUs = s.globalTimeUs)
    (hactive : s'.activeMappedModels = s.activeMappedModels.set k m)
    (hretired : s'.retiredMappedModels = s.retiredMappedModels) : CoActive s' := by
  have hback : ∀ j m', ModelOf s' j m' → m' = m ∨ ModelOf s j m' := by
    rintro j m' (hm' | hm')
    · rw [hactive, Dict.get?_set] at hm'
      split at hm'
      · exact .inl (Option.some.inj hm').symm
      · exact .inr (.inl hm')
    · exact .inr (.inr (hretired ▸ hm'))
  refine h.of_carried hg.ge ?_ (fun j m' hm' => ?_) fun j m' hm' call g phases hrec' => ?_
  · rintro j m₀ (hm₀ | hm₀)
    · have hj : j ≠ k := fun heq => hnew (heq ▸ Dict.mem_of_get? hm₀)
      exact ⟨m₀, .inl (by rw [hactive, Dict.get?_set_of_ne _ _ hj, hm₀]), .start⟩
    · exact ⟨m₀, .inr (hretired ▸ hm₀), .start⟩
  · rcases hback j m' hm' with rfl | hm
    · exact hinit.fixedStarts _
    · exact h.times j m' hm
  · rcases hback j m' hm' with rfl | hm
    · rw [hrec] at hrec'
      simp at hrec'
    · exact .inr ⟨m', hm, hrec'⟩

/-- A call records phases that go on, and its answer lets them go on. -/
theorem CoActive.simulated_move (h : CoActive s) {r : Dict ℕ MappedModel × List ActivePhase}
    {d : PhaseLatencies} {simulated timed : Dict ℕ MappedModel} {callId : ℕ}
    (hcollect : collectActivePhases s.system.numChiplets s.activeMappedModels s.globalTimeUs =
      .ok r) (hreach : ReachNow s.globalTimeUs r.1 d)
    (hupdate : updatePhaseLatencies s.globalTimeUs (recordCoActive r.1 r.2 callId s.globalTimeUs)
      d = .ok simulated) (htime : timeModels simulated s.globalTimeUs = .ok timed)
    (hactive : s'.activeMappedModels = timed)
    (hretired : s'.retiredMappedModels = s.retiredMappedModels)
    (hg : s'.globalTimeUs = s.globalTimeUs) : CoActive s' := by
  have hcollected := collected_continues hcollect
  have hafter : Dict.Related (Continues s.globalTimeUs)
      (recordCoActive r.1 r.2 callId s.globalTimeUs) timed :=
    (updatePhaseLatencies_continues hreach.recordCoActive hupdate).trans
      (timeModels_continues htime) Continues.trans
  -- recording changes nothing but the record
  have hrecord : ∀ k m, r.1.get? k = some m → ∃ m', timed.get? k = some m' ∧
      Run reachesNow s.globalTimeUs m s.globalTimeUs m' := by
    intro k m hm
    have hget : (recordCoActive r.1 r.2 callId s.globalTimeUs).get? k = some
        (if r.2.any (·.modelIdx = k) then
          m.recordCoActiveTraffic callId s.globalTimeUs (r.2.map (coActivePhase r.1)) else m) := by
      unfold Orchestrator.recordCoActive
      rw [Dict.get?_mapValues, hm]
      rfl
    obtain ⟨m', hm', hcont⟩ := hafter.get? hget
    refine ⟨m', hm', Run.trans ?_ hcont.run⟩
    split
    · exact Run.single (show reachesNow s.globalTimeUs m (.coActiveTraffic callId _) from trivial)
        rfl
    · exact .start
  have hfixed : ∀ k m, r.1.get? k = some m → FixedStarts s.globalTimeUs m := by
    intro k m hm
    obtain ⟨m₀, hm₀, hcont⟩ := hcollected.values k m hm
    exact (h.times k m₀ (.inl hm₀)).run hcont.run
  refine h.of_carried hg.ge ?_ ?_ ?_
  · rintro k m (hm | hm)
    · obtain ⟨m₁, hm₁, hcont⟩ := hcollected.get? hm
      obtain ⟨m', hm', hrun⟩ := hrecord k m₁ hm₁
      exact ⟨m', .inl (hactive ▸ hm'), hcont.run.trans hrun⟩
    · exact ⟨m, .inr (hretired ▸ hm), .start⟩
  · rintro k m' (hm' | hm')
    · rw [hactive] at hm'
      have hk : k ∈ r.1 := by
        obtain ⟨m₂, hm₂, -⟩ := hafter.values k m' hm'
        unfold Orchestrator.recordCoActive at hm₂
        rw [Dict.get?_mapValues] at hm₂
        obtain ⟨m₁, hm₁, -⟩ := Option.map_eq_some_iff.mp hm₂
        exact Dict.mem_of_get? hm₁
      obtain ⟨m₁, hm₁⟩ := Dict.mem_iff.mp hk
      obtain ⟨m'', hm'', hrun⟩ := hrecord k m₁ hm₁
      rw [hm', Option.some.injEq] at hm''
      exact hm'' ▸ (hfixed k m₁ hm₁).run hrun
    · exact h.times k m' (.inr (hretired ▸ hm'))
  · rintro k m' (hm' | hm') call g phases hrec
    · rw [hactive] at hm'
      obtain ⟨m₂, hm₂, hcont⟩ := hafter.values k m' hm'
      rw [hcont.coActive] at hrec
      unfold Orchestrator.recordCoActive at hm₂
      rw [Dict.get?_mapValues] at hm₂
      obtain ⟨m₁, hm₁, rfl⟩ := Option.map_eq_some_iff.mp hm₂
      obtain ⟨m₀, hm₀, hcont₀⟩ := hcollected.values k m₁ hm₁
      have hold : m₁.communicationCoActiveTraffic.get? call = some (g, phases) →
          ∃ m, ModelOf s k m ∧ m.communicationCoActiveTraffic.get? call = some (g, phases) :=
        fun hrec => ⟨m₀, .inl hm₀, hcont₀.coActive ▸ hrec⟩
      split at hrec
      · dsimp only [recordCoActiveTraffic] at hrec
        rw [Dict.get?_set] at hrec
        split at hrec
        · -- the record of this call
          cases hrec
          refine .inl ⟨hg.ge, fun b hb => ?_⟩
          obtain ⟨a, ha, rfl⟩ := List.mem_map.mp hb
          obtain ⟨ma, hma, hout⟩ :=
            collected_outlasts (fun k m hm => h.times k m (.inl hm)) hcollect ha
          obtain ⟨ma', hma', hrun⟩ := hrecord _ ma hma
          exact ⟨ma', .inl (hactive ▸ hma'), hout.run (hfixed _ ma hma) le_rfl hrun⟩
        · exact .inr (hold hrec)
      · exact .inr (hold hrec)
    · exact .inr ⟨m', .inr (hretired ▸ hm'), hrec⟩

/-- **One step.** If the simulator answers in time, what was recorded together was going on at the
time of its call. -/
theorem CoActive.move (h : CoActive s) (ht : Tracked s) (hcall : AnsweredInTime c s)
    (hmove : Move c s s') : CoActive s' := by
  have hsame : Dict.Related (Continues s.globalTimeUs) s.activeMappedModels
      s.activeMappedModels := Dict.Related.refl Continues.refl _
  cases hmove with
  | ready => exact h.of_continues le_rfl hsame rfl
  | finish => exact h.of_continues le_rfl hsame rfl
  | proceed => exact h.of_continues le_rfl hsame rfl
  | postponed => exact h.of_continues le_rfl hsame rfl
  | injected hstage hmetrics hmap hm =>
    obtain ⟨chunks, -, hm⟩ := bind_eq_ok.mp hm
    exact h.injected_move (prepare_initial (ModelProcessor.processModel_nonempty hmetrics) hm)
      (prepare_coActive hm) (ht.not_active (ht.pending_tail hstage).1).1 rfl rfl rfl
  | communicated hstage hsim htime =>
    generalize hr : ((_, _) : Dict ℕ MappedModel × ℕ) = r at hsim
    cases simulateCommunication_cases hsim with
    | quiet hcollect hquiet =>
      cases hr
      exact h.of_continues le_rfl
        ((collected_continues hcollect).trans (timeModels_continues htime) Continues.trans) rfl
    | simulated hcollect hneeds hanswer hupdate =>
      cases hr
      exact h.simulated_move hcollect
        (hcall hstage _ _ hcollect hneeds hanswer) hupdate htime rfl rfl rfl
  | kept hstage hm htime hrunning =>
    exact h.of_continues le_rfl (Dict.Related.set Continues.refl hm (timing_continues htime)) rfl
  | retired hstage hm htime hcomplete hsys =>
    exact h.retired_move ht hm (timing_continues htime) rfl rfl rfl
  | nextTick => exact h.of_continues (by simp) hsame rfl
  | finished => exact h

theorem ReachableInTime.coActive {s₀ : State} (h : ReachableInTime c s₀ s)
    (hh : Histories c s₀) (ht : Tracked s₀) (h0 : CoActive s₀) : CoActive s := by
  induction h with
  | start => exact h0
  | step hreach hcall hstep ih =>
    exact ih.move (hreach.reachable.tracked hh ht) hcall (step_move hstep)

/-! ## Overlapping -/

/-- The instance of a recorded phase. -/
def recordedInstance (s : State) (a : CoActivePhase) : Option PhaseInstance :=
  ((s.activeMappedModels.get? a.modelIdx).or (s.retiredMappedModels.get? a.modelIdx)).bind
    (·.instance? a.inputIdx a.phaseId)

/-- Neither of two recorded phases is complete before the other one starts. -/
def Overlap (s : State) (a b : CoActivePhase) : Prop :=
  ∃ x y, recordedInstance s a = some x ∧ recordedInstance s b = some y ∧
    (x.state = .complete → y.startTimeUs ≤ x.completionTimeUs) ∧
    (y.state = .complete → x.startTimeUs ≤ y.completionTimeUs)

/-- Any two phases recorded together overlap. -/
def RecordedOverlap (s : State) : Prop :=
  ∀ k m, ModelOf s k m → ∀ call g phases,
    m.communicationCoActiveTraffic.get? call = some (g, phases) →
    ∀ a ∈ phases, ∀ b ∈ phases, Overlap s a b

theorem RecordedGoingOn.instance {g : ℚ} {phases : List CoActivePhase}
    (h : RecordedGoingOn s g phases) (ht : Tracked s) {a : CoActivePhase} (ha : a ∈ phases) :
    ∃ x, recordedInstance s a = some x ∧ GoingOn g x := by
  obtain ⟨m, hm, -, x, hx, hgoing⟩ := h.2 a ha
  refine ⟨x, ?_, hgoing⟩
  unfold recordedInstance
  rcases hm with hm | hm
  · rw [hm, Option.some_or, Option.bind_some, hx]
  · have hnot : s.activeMappedModels.get? a.modelIdx = none := Dict.get?_eq_none_iff.mpr fun hk =>
      ht.disjoint _ hk (Dict.mem_of_get? hm)
    rw [hnot, Option.none_or, hm, Option.bind_some, hx]

/-- **Co-active phases.** In a simulation all of whose calls are answered in time, phases recorded
together overlap: the time of their call lies between the start and the completion of each. -/
theorem recorded_together_overlap {specs : List ChipletSpec} {adjMatrix : ℕ → ℕ → ℚ}
    {rows : List WorkloadEntry} {threshold : ℕ} {s₀ : State}
    (hstart : start specs adjMatrix rows threshold = .ok s₀) (h : ReachableInTime c s₀ s) :
    RecordedOverlap s := by
  have ht := h.reachable.tracked (histories_start c hstart) (tracked_start hstart)
  have hco := h.coActive (histories_start c hstart) (tracked_start hstart) (coActive_start hstart)
  intro k m hm call g phases hrec a ha b hb
  have hgoing := hco.together k m hm call g phases hrec
  obtain ⟨x, hx, hxg⟩ := hgoing.instance ht ha
  obtain ⟨y, hy, hyg⟩ := hgoing.instance ht hb
  exact ⟨x, y, hx, hy, fun hs => hyg.start.trans (hxg.complete hs),
    fun hs => hxg.start.trans (hyg.complete hs)⟩

/-! ## Two models side by side -/

/-- Two models with a short and a long computation, and a constant network latency. -/
def unevenConfig (networkLatency : ℚ) : Config :=
  { smallConfig with
    simulateCompute := fun request =>
      .ok ⟨some (if request.modelIdx = 0 then 1 / 10 else 19 / 10), some 7⟩
    network := fun _ inputs =>
      .latencies (.ofList (inputs.map fun e => (e.2, networkLatency))) }

/-- Room for two models, and no I/O chiplet to load weights from. -/
def fourChiplets : List ChipletSpec := [cmosChiplet, cmosChiplet, cmosChiplet, cmosChiplet]

/-- The same model twice, at the same time. -/
def twinWorkload : List WorkloadEntry := [⟨0, "two-layers", 1, 0⟩, ⟨0, "two-layers", 1, 1⟩]

/-- A number of steps, as long as the calls are answered in time. -/
def stepsInTime (c : Config) (n : ℕ) (s : State) : Except PyError State :=
  Machine.steps (fun s => if AnsweredInTime c s then step c s else .error (.systemExit 1)) n s

theorem reachable_of_stepsInTime {n : ℕ} (h : stepsInTime c n s = .ok s') :
    ReachableInTime c s s' := by
  refine Machine.steps_invariant (P := ReachableInTime c s) .start ?_ h
  intro t t' ht hstep
  split at hstep
  · next hcall => exact .step ht hcall hstep
  · cases hstep

/-- What is recorded for the first call in the first model, with the times of the phases. -/
def firstRecord (s : State) : Option (List (Option (PhaseState × ℚ × ℚ))) := do
  let m ← (s.activeMappedModels.get? 0).or (s.retiredMappedModels.get? 0)
  let r ← m.communicationCoActiveTraffic.get? 1
  return r.2.map fun a => (recordedInstance s a).map fun x =>
    (x.state, x.startTimeUs, x.completionTimeUs)

/-- With a network latency of `5` the two communications of the first call overlap. -/
theorem recorded_together_overlap_uneven :
    ∃ s₀ s, start fourChiplets chainMatrix twinWorkload 10 = .ok s₀ ∧
      ReachableInTime (unevenConfig 5) s₀ s ∧
      firstRecord s = some [some (.complete, 1 / 10, 51 / 10), some (.complete, 19 / 10, 69 / 10)] ∧
      RecordedOverlap s := by
  have hrun : ((do
      let s₀ ← start fourChiplets chainMatrix twinWorkload 10
      let s ← stepsInTime (unevenConfig 5) 60 s₀
      return firstRecord s : Except PyError _).toOption) =
      some (some [some (.complete, 1 / 10, 51 / 10), some (.complete, 19 / 10, 69 / 10)]) := by
    decide +kernel
  rw [toOption_eq_some] at hrun
  obtain ⟨s₀, hs₀, hrun⟩ := bind_eq_ok.mp hrun
  obtain ⟨s, hs, hrun⟩ := bind_eq_ok.mp hrun
  rw [pure_eq_ok, Except.ok.injEq] at hrun
  have hreach := reachable_of_stepsInTime hs
  exact ⟨s₀, s, hs₀, hreach, hrun, recorded_together_overlap hs₀ hreach⟩

/-- With a network latency of `1 / 10` the first communication of the first call is complete
before the second one starts. -/
theorem not_recordedOverlap_uneven :
    ∃ s₀ s, start fourChiplets chainMatrix twinWorkload 10 = .ok s₀ ∧
      Reachable (unevenConfig (1 / 10)) s₀ s ∧ s.stage = .finished ∧ ¬ RecordedOverlap s := by
  have hrun : ((do
      let s₀ ← start fourChiplets chainMatrix twinWorkload 10
      let s ← stepsFrom (unevenConfig (1 / 10)) 60 s₀
      return if s.stage = .finished then firstRecord s else none : Except PyError _).toOption) =
      some (some [some (.complete, 1 / 10, 1 / 5), some (.complete, 19 / 10, 2)]) := by
    decide +kernel
  rw [toOption_eq_some] at hrun
  obtain ⟨s₀, hs₀, hrun⟩ := bind_eq_ok.mp hrun
  obtain ⟨s, hs, hrun⟩ := bind_eq_ok.mp hrun
  rw [pure_eq_ok, Except.ok.injEq, Option.ite_none_right_eq_some] at hrun
  refine ⟨s₀, s, hs₀, Reachable.start.stepsFrom hs, hrun.1, fun hoverlap => ?_⟩
  obtain ⟨m, hm, hrec⟩ := Option.bind_eq_some_iff.mp hrun.2
  obtain ⟨⟨g, phases⟩, hr, hrec⟩ := Option.bind_eq_some_iff.mp hrec
  have hmodel : ModelOf s 0 m := by
    rcases Option.or_eq_some_iff.mp hm with hm | hm
    · exact .inl hm
    · exact .inr hm.2
  have hrec' := Option.some.inj hrec
  obtain ⟨a, b, rfl⟩ : ∃ a b, phases = [a, b] :=
    List.length_eq_two.mp (by simpa using congrArg List.length hrec')
  rw [List.map_cons, List.map_cons, List.map_nil, List.cons.injEq, List.cons.injEq] at hrec'
  obtain ⟨x, hx, hxt⟩ := Option.map_eq_some_iff.mp hrec'.1
  obtain ⟨y, hy, hyt⟩ := Option.map_eq_some_iff.mp hrec'.2.1
  rw [Prod.mk.injEq, Prod.mk.injEq] at hxt hyt
  obtain ⟨x', y', hx', hy', hend, -⟩ := hoverlap 0 m hmodel 1 g [a, b] hr a (by simp) b (by simp)
  rw [hx, Option.some.injEq] at hx'
  rw [hy, Option.some.injEq] at hy'
  subst hx' hy'
  have hle := hend hxt.1
  rw [hxt.2.2, hyt.2.1] at hle
  norm_num at hle

end GlobalManager

end ChipSim
