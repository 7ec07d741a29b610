import ChipSim.MappedModel.Dependencies

/-!
# The phases a tick lists

`get_active_phases` handles the current phase of every started input. What it lists are the
running instances themselves, with the traffic that is left of the traffic of their phase; and
handling one input does not touch the instances of another.
-/

namespace ChipSim

open Lib

namespace MappedModel

/-- A communication that is running. -/
def RunningComm (m : MappedModel) (i p : ℕ) : Prop :=
  ∃ phase x, m.phases.get? p = some phase ∧ phase.isCompute = false ∧
    m.instance? i p = some x ∧ x.state = .running

/-! ## One phase -/

/-- What is known about an instance that is listed as active. -/
structure ActiveInstance (traffic : Option TrafficMatrixDict) (isCompute : Bool)
    (y : PhaseInstance) : Prop where
  running : y.state = .running
  scaled : isCompute = false → ∃ f, y.scaledTraffic = some (getPhaseTraffic traffic f) ∧
    hasNonzeroTraffic (getPhaseTraffic traffic f) = true

/-- A listed instance runs, and its traffic is a part of that of its phase. -/
theorem handlePhase_active {m : MappedModel} {g : ℚ} {i p : ℕ} {phase : Phase} {x : PhaseInstance}
    (h : (m.handlePhase g i p phase x).active = true) :
    ActiveInstance phase.traffic phase.isCompute (m.handlePhase g i p phase x).inst := by
  have hh := handlePhase_handling m g i p phase x
  generalize m.handlePhase g i p phase x = o at hh h ⊢
  have hnot : phase.isCompute = true → ∀ {P : Prop}, phase.isCompute = false → P :=
    fun hk _ hcomm => by rw [hk] at hcomm; cases hcomm
  cases hh with
  | computeBegins hk hs => exact ⟨rfl, hnot hk⟩
  | computeGoesOn hk hs he => exact ⟨hs, hnot hk⟩
  | commBegins hk hs hl ht => exact ⟨rfl, fun _ => ⟨1, rfl, ht⟩⟩
  | commGoesOn hk hs hl he => exact ⟨hs, fun _ => ⟨_, rfl, h⟩⟩
  | commWaits hk hs hl ht => exact ⟨hs, fun _ => ⟨1, rfl, ht⟩⟩
  | _ => cases h

/-! ## One input -/

/-- Handling one input does not touch the instances of another. -/
theorem activateInput_other {g : ℚ} {acc acc' : MappedModel × List PhaseInstance} {i j : ℕ}
    (h : activateInput g acc i = .ok acc') (hj : j ≠ i) (p : ℕ) :
    acc'.1.instance? j p = acc.1.instance? j p := by
  cases activateInput_cases h with
  | idle => rfl
  | handled =>
    rw [instance?_applyOutcome]
    exact if_neg fun hij => hj hij.1

/-- Handling inputs keeps what is listed and the instances of the other inputs. -/
theorem activateInputs_other {g : ℚ} {l : List ℕ} {acc acc' : MappedModel × List PhaseInstance}
    (h : l.foldlM (activateInput g) acc = .ok acc') :
    (∀ x ∈ acc.2, x ∈ acc'.2) ∧ ∀ i, i ∉ l → ∀ p, acc'.1.instance? i p = acc.1.instance? i p := by
  refine foldlM_invariant (fun acc' : MappedModel × List PhaseInstance =>
    (∀ x ∈ acc.2, x ∈ acc'.2) ∧ ∀ i, i ∉ l → ∀ p, acc'.1.instance? i p = acc.1.instance? i p) h
    ⟨fun _ hx => hx, fun _ _ _ => rfl⟩ ?_
  intro j hj acc₁ acc₂ ⟨hlisted, hsame⟩ hstep
  refine ⟨fun x hx => ?_, fun i hi p => ?_⟩
  · have hx₁ := hlisted x hx
    cases activateInput_cases hstep with
    | idle => exact hx₁
    | handled =>
      dsimp only
      split
      · exact List.mem_append_left _ hx₁
      · exact hx₁
  · have hij : i ≠ j := fun heq => hi (heq ▸ hj)
    rw [activateInput_other hstep hij, hsame i hi]

/-- A listed instance is the one stored in the model, and it runs. -/
structure Listed (m : MappedModel) (x : PhaseInstance) : Prop where
  stored : m.instance? x.inputIdx x.phaseId = some x
  active : ∃ phase, m.phases.get? x.phaseId = some phase ∧
    ActiveInstance phase.traffic phase.isCompute x

/-- What handling a list of different inputs lists. -/
theorem activateInputs_listed {g : ℚ} {l : List ℕ} {acc acc' : MappedModel × List PhaseInstance}
    (hl : l.Nodup) (h : l.foldlM (activateInput g) acc = .ok acc') (hs : Shape acc.1)
    (hlisted : ∀ x ∈ acc.2, x.inputIdx ∉ l ∧ Listed acc.1 x) : ∀ x ∈ acc'.2, Listed acc'.1 x := by
  induction l generalizing acc with
  | nil =>
    cases h
    exact fun x hx => (hlisted x hx).2
  | cons i l ih =>
    rw [List.nodup_cons] at hl
    obtain ⟨acc₁, h₁, h⟩ := foldlM_cons_ok.mp h
    have hadv : Advances nonNegative g acc.1 acc₁.1 := activateInput_advances h₁
    refine ih hl.2 h (hs.advances hadv) ?_
    have hkept : ∀ x ∈ acc.2, x.inputIdx ∉ l ∧ Listed acc₁.1 x := by
      intro x hx
      obtain ⟨hnot, hstored, hactive⟩ := hlisted x hx
      rw [List.mem_cons, not_or] at hnot
      refine ⟨hnot.2, ?_, ?_⟩
      · rw [activateInput_other h₁ hnot.1, hstored]
      · rw [hadv.schedule]
        exact hactive
    cases activateInput_cases h₁ with
    | idle => exact hkept
    | handled hstart hg hcurrent hphase hx =>
      next p phase x =>
      obtain ⟨hmem, hc, -⟩ := findCurrentPhaseIn_some hcurrent
      obtain ⟨x', hx', hstate⟩ := completeOrAbsent_eq_false hc
      rw [hx, Option.some.injEq] at hx'
      subst hx'
      obtain ⟨hid, hin, -⟩ := handlePhase_step acc.1 g i p phase x hstate
      obtain ⟨hxp, hxi⟩ := hs.ids i p x hx
      dsimp only at hkept ⊢
      split
      · next hact =>
        intro y hy
        rcases List.mem_append.mp hy with hy | hy
        · exact hkept y hy
        · rw [List.mem_singleton] at hy
          rw [hy, hin, hxi]
          refine ⟨hl.1, ?_, ?_⟩
          · rw [hin, hxi, hid, hxp, instance?_applyOutcome]
            exact if_pos ⟨rfl, rfl⟩
          · rw [hid, hxp]
            exact ⟨phase, by simpa using hphase, handlePhase_active hact⟩
      · exact hkept

/-- **Listing.** `get_active_phases` lists running instances as they are stored in the model. -/
theorem getActivePhases_listed {m m' : MappedModel} {g : ℚ} {listed : List PhaseInstance}
    (hs : Shape m) (h : m.getActivePhases g = .ok (m', listed)) : ∀ x ∈ listed, Listed m' x :=
  activateInputs_listed List.nodup_range h hs fun _ hx => by cases hx

end MappedModel

end ChipSim
