import ChipSim.MappedModel.StartTimes

/-!
# The traffic still to be sent

While a communication runs, its traffic is scaled to the fraction of its latency that has not
passed. `update_phase_latency` replaces the latency by the elapsed time plus the simulated latency
of the remaining traffic, but the fraction is afterwards taken of the whole traffic: when the new
latency is longer than the old one, packets that were sent before are counted again. Without such
updates the remaining traffic never grows.
-/

namespace ChipSim

open Lib

/-! ## Scaling -/

/-- One amount scaled by `_get_phase_traffic`. -/
def scaleAmount (scaleFactor : ℚ) (amount : ℕ) : ℕ :=
  if 1 ≤ scaleFactor then amount
  else if 0 < amount then max 1 (roundHalfEven (amount * scaleFactor)).toNat
  else 0

theorem amount_getPhaseTraffic (t : TrafficMatrixDict) (f : ℚ) (src dst : ℕ) :
    (getPhaseTraffic (some t) f).amount src dst = scaleAmount f (t.amount src dst) := by
  unfold getPhaseTraffic scaleAmount
  by_cases hf : 1 ≤ f
  · simp only [if_pos hf]
  · simp only [if_neg hf]
    unfold TrafficMatrixDict.amount
    rw [Dict.get?_mapValues]
    cases t.get? src with
    | none => rfl
    | some dests =>
      rw [Option.map_some, Option.bind_some, Option.bind_some, Dict.get?_filterMapValues]
      cases dests.get? dst with
      | none => rfl
      | some amount =>
        rw [Option.bind_some, Option.getD_some]
        split <;> rfl

theorem scaleAmount_mono {f f' : ℚ} (h : f ≤ f') (amount : ℕ) :
    scaleAmount f amount ≤ scaleAmount f' amount := by
  unfold scaleAmount
  by_cases hf : 1 ≤ f
  · rw [if_pos hf, if_pos (hf.trans h)]
  · rw [if_neg hf]
    by_cases ha : 0 < amount
    · rw [if_pos ha, if_pos ha]
      have hcast : (0 : ℚ) ≤ amount := Nat.cast_nonneg amount
      split
      · -- at most the whole amount
        have hround : roundHalfEven (amount * f) ≤ (amount : ℤ) := by
          rw [← roundHalfEven_intCast (amount : ℤ)]
          apply roundHalfEven_mono
          rw [Int.cast_natCast]
          exact mul_le_of_le_one_right hcast (not_le.mp hf).le
        omega
      · have hround := roundHalfEven_mono (mul_le_mul_of_nonneg_left h hcast)
        omega
    · rw [if_neg ha]
      exact Nat.zero_le _

/-- Scaling by a smaller fraction leaves no more packets on any connection. -/
theorem getPhaseTraffic_mono (traffic : Option TrafficMatrixDict) {f f' : ℚ} (h : f ≤ f')
    (src dst : ℕ) :
    (getPhaseTraffic traffic f).amount src dst ≤ (getPhaseTraffic traffic f').amount src dst := by
  cases traffic with
  | none => exact le_rfl
  | some t =>
    rw [amount_getPhaseTraffic, amount_getPhaseTraffic]
    exact scaleAmount_mono h _

/-! ## The remaining fraction -/

/-- The fraction of a running communication that is left at time `g`. -/
def PhaseInstance.remainingFraction (x : PhaseInstance) (g : ℚ) : ℚ :=
  if 0 < x.latencyUs then 1 - min 1 ((g - x.startTimeUs) / x.latencyUs) else 1

theorem remainingFraction_later (x : PhaseInstance) {g g' : ℚ} (h : g ≤ g') :
    x.remainingFraction g' ≤ x.remainingFraction g := by
  unfold PhaseInstance.remainingFraction
  split
  · next hl =>
    have hdiv : (g - x.startTimeUs) / x.latencyUs ≤ (g' - x.startTimeUs) / x.latencyUs := by
      gcongr
    have := min_le_min_left 1 hdiv
    linarith
  · exact le_rfl

theorem remainingFraction_le_one {x : PhaseInstance} {g : ℚ} (h : x.startTimeUs ≤ g) :
    x.remainingFraction g ≤ 1 := by
  unfold PhaseInstance.remainingFraction
  split
  · next hl =>
    have : 0 ≤ min 1 ((g - x.startTimeUs) / x.latencyUs) :=
      le_min zero_le_one (div_nonneg (by linarith) hl.le)
    linarith
  · exact le_rfl

/-- A recorded latency does not prolong a communication that has made progress. -/
def PhaseInstance.Shortens (x : PhaseInstance) (newLatency g : ℚ) : Prop :=
  x.state = .running → 0 < x.latencyUs →
    g = x.startTimeUs ∨ g - x.startTimeUs + newLatency ≤ x.latencyUs

theorem remainingFraction_start (x : PhaseInstance) : x.remainingFraction x.startTimeUs = 1 := by
  unfold PhaseInstance.remainingFraction
  rw [sub_self, zero_div, min_eq_right zero_le_one, sub_zero, ite_self]

/-- Such an update leaves no more to be sent than before. -/
theorem remainingFraction_updateLatency {x : PhaseInstance} {newLatency g : ℚ}
    (hnew : 0 ≤ newLatency) (hstart : x.startTimeUs ≤ g) (hstate : x.state = .running)
    (hshort : x.Shortens newLatency g) :
    (x.updateLatency newLatency g).remainingFraction g ≤ x.remainingFraction g := by
  have hsame := (MappedModel.updateLatency_times x newLatency g).1
  have hle : (x.updateLatency newLatency g).remainingFraction g ≤ 1 :=
    remainingFraction_le_one (by rw [hsame]; exact hstart)
  rcases hstart.lt_or_eq with hlt | heq
  · by_cases hlat : 0 < x.latencyUs
    · have htotal := (hshort hstate hlat).resolve_left hlt.ne'
      have hpos : 0 < g - x.startTimeUs + newLatency := by linarith
      have hupd : (x.updateLatency newLatency g).latencyUs = g - x.startTimeUs + newLatency := by
        unfold PhaseInstance.updateLatency
        rw [if_neg hlat.ne', if_pos ⟨hlat, hstate⟩]
      have hdiv : (g - x.startTimeUs) / x.latencyUs ≤
          (g - x.startTimeUs) / (g - x.startTimeUs + newLatency) := by
        have helapsed : 0 ≤ g - x.startTimeUs := by linarith
        gcongr
      have hmin := min_le_min_left 1 hdiv
      unfold PhaseInstance.remainingFraction
      rw [hupd, if_pos hpos, if_pos hlat, hsame]
      linarith
    · have hfrac : x.remainingFraction g = 1 := if_neg hlat
      rw [hfrac]
      exact hle
  · -- nothing was sent before
    have hfrac : x.remainingFraction g = 1 := heq ▸ remainingFraction_start x
    rw [hfrac]
    exact hle

namespace MappedModel

variable {ok : Guard}

/-! ## Runs -/

/-- The operations that do not prolong a communication that has made progress. -/
def noSetback : Guard
  | g, m, .updateLatency i p newLatency => 0 ≤ newLatency ∧
      ∀ phase x, m.phases.get? p = some phase → phase.isCompute = false →
        m.instance? i p = some x → x.Shortens newLatency g
  | _, _, _ => True

theorem nonNegative_of_noSetback (g : ℚ) (m : MappedModel) (op : TickOp)
    (h : noSetback g m op) : nonNegative g m op :=
  nonNegative_of_updates noSetback (fun _ _ _ _ _ h => h.1) g m op h

/-- What a tick does with the traffic of a communication that runs afterwards. -/
inductive TrafficMove (g : ℚ) (traffic : Option TrafficMatrixDict) (x y : PhaseInstance) : Prop
  | begin (was : x.state = .notStarted)
      (scaled : y.scaledTraffic = some (getPhaseTraffic traffic 1))
  | rescale (was : x.state = .running)
      (fraction : y.remainingFraction g = x.remainingFraction g)
      (scaled : y.scaledTraffic = some (getPhaseTraffic traffic (x.remainingFraction g)))
  | keep (hy : y = x)

theorem handlePhase_traffic {m : MappedModel} {g : ℚ} {i p : ℕ} {phase : Phase}
    {x : PhaseInstance} (hcomm : phase.isCompute = false)
    (h : (m.handlePhase g i p phase x).inst.state = .running) :
    TrafficMove g phase.traffic x (m.handlePhase g i p phase x).inst := by
  have hh := handlePhase_handling m g i p phase x
  generalize m.handlePhase g i p phase x = o at hh h ⊢
  cases hh with
  | computeBegins hk hs => cases hk.symm.trans hcomm
  | computeGoesOn hk hs he => cases hk.symm.trans hcomm
  | commBegins hk hs hl ht => exact .begin hs rfl
  | commGoesOn hk hs hl he =>
    refine .rescale hs rfl ?_
    rw [PhaseInstance.remainingFraction, if_pos hl]
  | commWaits hk hs hl ht =>
    refine .rescale hs rfl ?_
    rw [PhaseInstance.remainingFraction, if_neg (not_lt.mpr hl)]
  | loaded hw hall hs => exact .keep rfl
  | timed hk hs hl => exact .keep rfl
  | done hs => exact .keep rfl
  | _ => cases h

/-! ## The start of a running phase is fixed -/

/-- The start of a running phase is the time calculated from what it waited for. -/
structure FixedStarts (g : ℚ) (m : MappedModel) : Prop extends PhaseTimes g m where
  fixed : ∀ i p phase x, m.phases.get? p = some phase → m.instance? i p = some x →
    x.state = .running → x.startTimeUs = m.calculatePhaseStartTime i p phase

theorem FixedStarts.advance {g : ℚ} {m m' : MappedModel} (h : FixedStarts g m)
    (hadv : Advance nonNegative g m m') : FixedStarts g m' := by
  refine ⟨h.toPhaseTimes.advance hadv, ?_⟩
  intro i p phase y hp hy hs
  rw [hadv.schedule] at hp
  obtain ⟨hstart, hdeps, -⟩ := (h.instance_advance hadv hp hy).started (by rw [hs]; decide)
  rw [calculatePhaseStartTime_advance h.toShape hadv hdeps hstart]
  obtain ⟨x, hx, hchange⟩ := hadv.instance_cases hy
  cases hchange with
  | same hxy => exact h.fixed i p phase y hp (hxy ▸ hx) hs
  | handled hstart' hg hphase hstate hmet hxy hm' =>
    rw [hp, Option.some.injEq] at hphase
    subst hphase
    rw [hxy] at hs ⊢
    obtain ⟨-, -, hmove⟩ := handlePhase_step m g i p phase x hstate
    cases hmove with
    | stay state start => rw [start]; exact h.fixed i p phase x hp hx (state ▸ hs)
    | begin was state start => exact start
    | finish was state => rw [state] at hs; cases hs
    | pass was state => rw [state] at hs; cases hs
  | latency hok hxy =>
    rw [hxy, updateLatency_state] at hs
    rw [hxy, (updateLatency_times ..).1]
    exact h.fixed i p phase x hp hx hs
  | times hstart' hphase hstate hmet hxy =>
    rw [hp, Option.some.injEq] at hphase
    subst hphase
    rw [hxy, fillTimes_state] at hs
    rw [hxy]
    rcases fillTimes_start x (m.calculatePhaseStartTime i p phase) with hf | hf <;> rw [hf]
    exact h.fixed i p phase x hp hx hs

theorem Advance.started {g : ℚ} {m m' : MappedModel} (hadv : Advance ok g m m') {i p : ℕ}
    {x y : PhaseInstance} (hx : m.instance? i p = some x) (hy : m'.instance? i p = some y)
    (hs : x.state ≠ .notStarted) : y.state ≠ .notStarted := by
  cases hadv.change hx hy with
  | same hxy => rw [hxy]; exact hs
  | handled hstart hg hphase hstate hmet hxy hm' =>
    rw [hxy]
    obtain ⟨-, -, hmove⟩ := handlePhase_step m g i p _ x hstate
    cases hmove with
    | stay state => rw [state]; exact hs
    | begin was => exact absurd was hs
    | finish was state => rw [state]; decide
    | pass was => exact absurd was hs
  | latency hok hxy => rw [hxy, updateLatency_state]; exact hs
  | times hstart hphase hstate hmet hxy => rw [hxy, fillTimes_state]; exact hs

/-! ## The remaining traffic never grows -/

/-- The traffic of a running communication was scaled by a fraction of at most `bound`, and no
more than that is left. -/
structure Draining (i p : ℕ) (phase : Phase) (bound g : ℚ) (m : MappedModel) : Prop
    extends FixedStarts g m where
  phaseOf : m.phases.get? p = some phase
  comm : phase.isCompute = false
  begun : 1 ≤ bound ∨ ∀ x, m.instance? i p = some x → x.state ≠ .notStarted
  drains : ∀ x, m.instance? i p = some x → x.state = .running →
    ∃ f ≤ bound, x.scaledTraffic = some (getPhaseTraffic phase.traffic f) ∧
      x.remainingFraction g ≤ f

theorem updateLatency_scaledTraffic (x : PhaseInstance) (newLatency g : ℚ) :
    (x.updateLatency newLatency g).scaledTraffic = x.scaledTraffic := by
  unfold PhaseInstance.updateLatency
  dsimp only
  split
  · rfl
  · split <;> rfl

theorem fillTimes_scaledTraffic (x : PhaseInstance) (start : ℚ) :
    (x.fillTimes start).1.scaledTraffic = x.scaledTraffic := by
  unfold PhaseInstance.fillTimes
  dsimp only
  split <;> split <;> rfl

section

variable {i p : ℕ} {phase : Phase} {bound g : ℚ} {m m' : MappedModel}

theorem Draining.later {g' : ℚ} (hg : g ≤ g') (h : Draining i p phase bound g m) :
    Draining i p phase bound g' m := by
  refine ⟨⟨h.toPhaseTimes.later hg, h.fixed⟩, h.phaseOf, h.comm, h.begun, ?_⟩
  intro x hx hs
  obtain ⟨f, hf, hscaled, hrem⟩ := h.drains x hx hs
  exact ⟨f, hf, hscaled, (remainingFraction_later x hg).trans hrem⟩

/-- **One step.** A step that does not prolong a communication in progress drains its traffic. -/
theorem Draining.advance (h : Draining i p phase bound g m) (hadv : Advance noSetback g m m') :
    Draining i p phase bound g m' := by
  have hadv' : Advance nonNegative g m m' := hadv.mono nonNegative_of_noSetback
  refine ⟨h.toFixedStarts.advance hadv', by rw [hadv.schedule]; exact h.phaseOf, h.comm, ?_, ?_⟩
  · refine h.begun.imp_right fun hbegun y hy => ?_
    obtain ⟨x, hx, -⟩ := hadv.instance_cases hy
    exact hadv.started hx hy (hbegun x hx)
  · intro y hy hs
    have htimes := h.instance_advance hadv' h.phaseOf hy
    obtain ⟨x, hx, hchange⟩ := hadv.instance_cases hy
    cases hchange with
    | same hxy => exact h.drains y (hxy ▸ hx) hs
    | handled hstart hg hphase hstate hmet hxy hm' =>
      rw [h.phaseOf, Option.some.injEq] at hphase
      subst hphase
      rw [hxy] at hs htimes ⊢
      cases handlePhase_traffic h.comm hs with
      | begin was scaled =>
        have hone := h.begun.resolve_right fun hb => hb x hx was
        exact ⟨1, hone, scaled,
          remainingFraction_le_one (htimes.started (by rw [hs]; decide)).2.2.2⟩
      | rescale was fraction scaled =>
        obtain ⟨f, hf, -, hrem⟩ := h.drains x hx was
        exact ⟨_, hrem.trans hf, scaled, fraction.le⟩
      | keep hkeep =>
        rw [hkeep] at hs ⊢
        exact h.drains x hx hs
    | latency hok hxy =>
      obtain ⟨hnew, hshort⟩ := hok
      rw [hxy, updateLatency_state] at hs
      obtain ⟨f, hf, hscaled, hrem⟩ := h.drains x hx hs
      rw [hxy, updateLatency_scaledTraffic]
      refine ⟨f, hf, hscaled, le_trans ?_ hrem⟩
      exact remainingFraction_updateLatency hnew (h.running i p x hx hs) hs
        (hshort phase x h.phaseOf h.comm hx)
    | times hstart hphase hstate hmet hxy =>
      rw [h.phaseOf, Option.some.injEq] at hphase
      subst hphase
      rw [hxy, fillTimes_state] at hs
      obtain ⟨f, hf, hscaled, hrem⟩ := h.drains x hx hs
      have hsame : (x.fillTimes (m.calculatePhaseStartTime i p phase)).1.startTimeUs =
          x.startTimeUs := by
        rcases fillTimes_start x (m.calculatePhaseStartTime i p phase) with hf | hf <;> rw [hf]
        exact (h.fixed i p phase x h.phaseOf hx hs).symm
      rw [hxy, fillTimes_scaledTraffic]
      refine ⟨f, hf, hscaled, ?_⟩
      unfold PhaseInstance.remainingFraction at hrem ⊢
      rw [hsame, fillTimes_latency]
      exact hrem

theorem Draining.run {g₁ g₂ : ℚ} {m₁ m₂ : MappedModel} (h : Draining i p phase bound g₁ m₁)
    (hrun : Run noSetback g₁ m₁ g₂ m₂) : Draining i p phase bound g₂ m₂ :=
  hrun.invariant (P := Draining i p phase bound) h (fun _ _ _ hg h => h.later hg)
    fun _ _ _ h hstep => h.advance hstep

end

/-- **Remaining traffic.** In every run whose latency updates do not prolong a communication that
has made progress, the traffic scaled for a running communication at a later time is, for every
source and destination, at most that at an earlier time. -/
theorem scaledTraffic_antitone (a : Args) (strategy : WeightLoadingStrategy)
    (chunks : List (ℕ × ℕ × ℕ × ChunkResult)) (source : TrafficSource) (m₀ m₁ m₂ : MappedModel)
    (g₀ g₁ g₂ : ℚ) (i p : ℕ) (phase : Phase) (x₁ x₂ : PhaseInstance) (hL : 0 < a.numLayers)
    (hm₀ : prepare a strategy chunks source = .ok m₀) (h₁ : Run noSetback g₀ m₀ g₁ m₁)
    (h₂ : Run noSetback g₁ m₁ g₂ m₂) (hphase : m₀.phases.get? p = some phase)
    (hcomm : phase.isCompute = false) (hx₁ : m₁.instance? i p = some x₁)
    (hr₁ : x₁.state = .running) (hx₂ : m₂.instance? i p = some x₂) (hr₂ : x₂.state = .running) :
    ∃ t₁ t₂, x₁.scaledTraffic = some t₁ ∧ x₂.scaledTraffic = some t₂ ∧
      ∀ src dst, t₂.amount src dst ≤ t₁.amount src dst := by
  have hinit := prepare_initial hL hm₀
  have hfresh : ∀ j q x, m₀.instance? j q = some x → x.state = .notStarted :=
    fun j q x hx => (hinit.instances.fresh j q x hx).state
  have hnone : ∀ j q x, m₀.instance? j q = some x → x.state ≠ .running := fun j q x hx => by
    rw [hfresh j q x hx]
    decide
  have hstart : Draining i p phase 1 g₀ m₀ :=
    ⟨⟨hinit.phaseTimes g₀, fun j q _ x _ hx hs => absurd hs (hnone j q x hx)⟩, hphase, hcomm,
      .inl le_rfl, fun x hx hs => absurd hs (hnone i p x hx)⟩
  have hfirst := hstart.run h₁
  obtain ⟨f₁, -, hscaled₁, hrem₁⟩ := hfirst.drains x₁ hx₁ hr₁
  -- from here on the fraction is bounded by the one just used
  have hbounded : Draining i p phase f₁ g₁ m₁ := by
    refine ⟨hfirst.toFixedStarts, hfirst.phaseOf, hcomm, .inr ?_, ?_⟩
    · intro x hx
      rw [hx₁, Option.some.injEq] at hx
      rw [← hx, hr₁]
      decide
    · intro x hx _
      rw [hx₁, Option.some.injEq] at hx
      subst hx
      exact ⟨f₁, le_rfl, hscaled₁, hrem₁⟩
  obtain ⟨f₂, hf₂, hscaled₂, -⟩ := (hbounded.run h₂).drains x₂ hx₂ hr₂
  exact ⟨_, _, hscaled₁, hscaled₂, fun src dst => getPhaseTraffic_mono phase.traffic hf₂ src dst⟩

/-! ## A prolonged communication -/

/-- The first weight loading of the two-layer model after some operations: its state, latency and
packets from chiplet `3` to chiplet `1`. -/
def weightLoading (ops : List (ℚ × TickOp)) : Option (PhaseState × ℚ × Option ℕ) := do
  let m₀ ← (prepare twoLayers .justInTime twoLayersChunks twoLayersTraffic).toOption
  let m ← (m₀.tickAll ops).toOption
  let x ← m.instance? 0 3
  return (x.state, x.latencyUs, x.scaledTraffic.map (·.amount 3 1))

theorem weightLoading_eq_some {m₀ : MappedModel} {ops : List (ℚ × TickOp)} {state : PhaseState}
    {latency : ℚ} {n : ℕ} (h₀ : prepare twoLayers .justInTime twoLayersChunks twoLayersTraffic =
      .ok m₀) (h : weightLoading ops = some (state, latency, some n)) :
    ∃ m x t, m₀.tickAll ops = .ok m ∧ m.instance? 0 3 = some x ∧ x.state = state ∧
      x.latencyUs = latency ∧ x.scaledTraffic = some t ∧ t.amount 3 1 = n := by
  unfold weightLoading at h
  rw [h₀] at h
  obtain ⟨m, hm, h⟩ := Option.bind_eq_some_iff.mp
    (show (m₀.tickAll ops).toOption.bind _ = some _ from h)
  obtain ⟨x, hx, h⟩ := Option.bind_eq_some_iff.mp h
  simp only [Option.pure_def, Option.some.injEq, Prod.mk.injEq] at h
  obtain ⟨t, ht, hn⟩ := Option.map_eq_some_iff.mp h.2.2
  exact ⟨m, x, t, toOption_eq_some.mp hm, hx, h.1, h.2.1, ht, hn⟩

/-- The weight loading takes `10` microseconds and is looked at after `5`. -/
def halfway : List (ℚ × TickOp) := [(0, .updateLatency 0 3 10), (5, .activePhases)]

/-- The rest is found to take `100` microseconds; the next tick is one microsecond later. -/
def prolonged : List (ℚ × TickOp) := [(5, .updateLatency 0 3 100), (6, .activePhases)]

/-- The first latency of a communication is never a setback: two of four packets are left halfway,
one a little later. -/
theorem scaledTraffic_antitone_twoLayers : ∃ m₀ m₁ m₂ x₁ x₂ t₁ t₂,
    prepare twoLayers .justInTime twoLayersChunks twoLayersTraffic = .ok m₀ ∧
    Run noSetback 0 m₀ 5 m₁ ∧ Run noSetback 5 m₁ 8 m₂ ∧
    m₁.instance? 0 3 = some x₁ ∧ x₁.state = .running ∧ x₁.scaledTraffic = some t₁ ∧
    m₂.instance? 0 3 = some x₂ ∧ x₂.state = .running ∧ x₂.scaledTraffic = some t₂ ∧
    t₁.amount 3 1 = 2 ∧ t₂.amount 3 1 = 1 ∧ ∀ src dst, t₂.amount src dst ≤ t₁.amount src dst := by
  obtain ⟨m₀, h₀⟩ := prepare_twoLayers .justInTime
  have hbegun : weightLoading [(0, .activePhases)] = some (.running, 0, some 4) := by
    decide +kernel
  have hhalf : weightLoading ([(0, .activePhases)] ++ halfway) = some (.running, 10, some 2) := by
    decide +kernel
  have hlate : weightLoading (([(0, .activePhases)] ++ halfway) ++ [(8, .activePhases)]) =
      some (.running, 10, some 1) := by decide +kernel
  obtain ⟨m, x, -, h, hx, -, hlat, -⟩ := weightLoading_eq_some h₀ hbegun
  obtain ⟨m₁, x₁, t₁, h₁, hx₁, hs₁, -, ht₁, hn₁⟩ := weightLoading_eq_some h₀ hhalf
  obtain ⟨m₂, x₂, t₂, h₂, hx₂, hs₂, -, ht₂, hn₂⟩ := weightLoading_eq_some h₀ hlate
  have hrun : Run noSetback 0 m₀ 0 m :=
    Run.tickAll .start (by decide +kernel) (by simp [noSetback]) h
  have hrun₁ : Run noSetback 0 m₀ 5 m₁ := by
    obtain ⟨m', hm', hrest⟩ := tickAll_append.mp h₁
    rw [h, Except.ok.injEq] at hm'
    subst hm'
    obtain ⟨mu, hu, hrest⟩ := foldlM_cons_ok.mp hrest
    have hfirst : noSetback 0 m (.updateLatency 0 3 10) := by
      refine ⟨by norm_num, fun phase y _ _ hy _ hpos => ?_⟩
      rw [hx, Option.some.injEq] at hy
      rw [← hy, hlat] at hpos
      exact absurd hpos (lt_irrefl 0)
    exact Run.tickAll (hrun.step le_rfl hfirst hu) (by decide +kernel) (by simp [noSetback]) hrest
  have hrun₂ : Run noSetback 5 m₁ 8 m₂ := by
    obtain ⟨m', hm', hrest⟩ := tickAll_append.mp h₂
    rw [h₁, Except.ok.injEq] at hm'
    subst hm'
    exact Run.tickAll .start (by decide +kernel) (by simp [noSetback]) hrest
  obtain ⟨phase, hphase, hcomm⟩ : ∃ phase, m₀.phases.get? 3 = some phase ∧
      phase.isCompute = false := by
    have heval : ((prepare twoLayers .justInTime twoLayersChunks twoLayersTraffic).toOption.bind
        (·.phases.get? 3)).map Phase.isCompute = some false := by decide +kernel
    rw [h₀] at heval
    exact Option.map_eq_some_iff.mp heval
  obtain ⟨t₁', t₂', ht₁', ht₂', hle⟩ := scaledTraffic_antitone twoLayers .justInTime
    twoLayersChunks twoLayersTraffic m₀ m₁ m₂ 0 5 8 0 3 phase x₁ x₂ (by decide) h₀ hrun₁ hrun₂
    hphase hcomm hx₁ hs₁ hx₂ hs₂
  rw [ht₁, Option.some.injEq] at ht₁'
  rw [ht₂, Option.some.injEq] at ht₂'
  subst ht₁' ht₂'
  exact ⟨m₀, m₁, m₂, x₁, x₂, t₁, t₂, h₀, hrun₁, hrun₂, hx₁, hs₁, ht₁, hx₂, hs₂, ht₂, hn₁, hn₂,
    hle⟩

/-- Of four packets two are left after `5` of `10` microseconds. The rest then gets a new latency
of `100`, and at the next tick four packets are left again. -/
theorem scaledTraffic_grows : ∃ m₀ m₁ m₂ x₁ x₂ t₁ t₂,
    prepare twoLayers .justInTime twoLayersChunks twoLayersTraffic = .ok m₀ ∧
    Run nonNegative 0 m₀ 5 m₁ ∧ Run nonNegative 5 m₁ 6 m₂ ∧
    m₁.instance? 0 3 = some x₁ ∧ x₁.state = .running ∧ x₁.scaledTraffic = some t₁ ∧
    m₂.instance? 0 3 = some x₂ ∧ x₂.state = .running ∧ x₂.scaledTraffic = some t₂ ∧
    t₁.amount 3 1 < t₂.amount 3 1 := by
  obtain ⟨m₀, h₀⟩ := prepare_twoLayers .justInTime
  have hhalf : weightLoading ((0, .activePhases) :: halfway) = some (.running, 10, some 2) := by
    decide +kernel
  have hlong : weightLoading ((0, .activePhases) :: halfway ++ prolonged) =
      some (.running, 105, some 4) := by decide +kernel
  obtain ⟨m₁, x₁, t₁, h₁, hx₁, hs₁, -, ht₁, hn₁⟩ := weightLoading_eq_some h₀ hhalf
  obtain ⟨m₂, x₂, t₂, h₂, hx₂, hs₂, -, ht₂, hn₂⟩ := weightLoading_eq_some h₀ hlong
  obtain ⟨m₁', h₁', h₂⟩ := tickAll_append.mp h₂
  rw [h₁, Except.ok.injEq] at h₁'
  subst h₁'
  have hrun₁ : Run nonNegative 0 m₀ 5 m₁ :=
    Run.tickAll .start (by decide +kernel) (by simp [halfway, nonNegative]) h₁
  have hrun₂ : Run nonNegative 5 m₁ 6 m₂ :=
    Run.tickAll .start (by decide +kernel) (by simp [prolonged, nonNegative]) h₂
  exact ⟨m₀, m₁, m₂, x₁, x₂, t₁, t₂, h₀, hrun₁, hrun₂, hx₁, hs₁, ht₁, hx₂, hs₂, ht₂, by
    rw [hn₁, hn₂]; decide⟩

end MappedModel

end ChipSim
