import ChipSim.GlobalManager.Injection

/-!
# Overtaking

A ready model that is passed over has failed in this tick and is one tick older, and one that has
reached the age threshold ends the injections of the tick. So a model is overtaken in fewer ticks
than the threshold says, and never again once it has reached it.
-/

namespace ChipSim

open Lib

namespace GlobalManager

variable {c : Config} {s s' : State}

/-! ## Passed models -/

/-- While models are injected, the ready list consists of models that have failed in this tick
without blocking, and then of those still to be tried. -/
def Passing (threshold : ℕ) (s : State) : Prop :=
  s.workload.blockingAgeThreshold = threshold ∧ ∀ l, s.stage = .injecting l →
    ∃ failed, s.workload.readyModels.map (·.idx) = failed ++ l.map (·.2.2) ∧
      ∀ r ∈ s.workload.readyModels, r.idx ∈ failed →
        1 ≤ r.failureAge ∧ r.failureAge < threshold

theorem passing_start {specs : List ChipletSpec} {adjMatrix : ℕ → ℕ → ℚ}
    {rows : List WorkloadEntry} {threshold : ℕ} (h : start specs adjMatrix rows threshold = .ok s) :
    Passing threshold s := by
  unfold start at h
  split at h
  · cases h
  · cases h
    exact ⟨rfl, fun l hl => by cases hl⟩

/-- **One step.** -/
theorem Passing.move {threshold : ℕ} (h : Passing threshold s) (ht : Tracked s)
    (hmove : Move c s s') : Passing threshold s' := by
  cases hmove with
  | ready hstage hwork =>
    refine ⟨(WorkloadManager.updateReadyModels_threshold ..).trans h.1, fun l hl => ?_⟩
    cases hl
    exact ⟨[], (WorkloadManager.getModelsToInject_ids ..).symm, fun _ _ hr => by cases hr⟩
  | finish => exact ⟨h.1, fun l hl => by cases hl⟩
  | proceed => exact ⟨h.1, fun l hl => by cases hl⟩
  | postponed hstage =>
    next entry rest =>
    refine ⟨h.1, fun l hl => ?_⟩
    unfold postpone at hl ⊢
    dsimp only at hl ⊢
    split at hl
    · cases hl
    · next hblock =>
      cases hl
      obtain ⟨failed, hready, hfailed⟩ := h.2 _ hstage
      refine ⟨failed ++ [entry.2.2], ?_, fun r hr hidx => ?_⟩
      · rw [WorkloadManager.incrementFailureAge_map _ fun _ _ => rfl, hready]
        simp
      · have hfresh := ht.fresh.incrementFailureAge entry.2.2
        rcases List.mem_append.mp hidx with hidx | hidx
        · -- the entry is not among those that have failed before
          have hne : r.idx ≠ entry.2.2 := fun heq => by
            have hnodup := ht.fresh.nodup
            rw [hready, List.map_cons, List.nodup_append] at hnodup
            exact hnodup.2.2 _ hidx _ List.mem_cons_self heq
          rw [ht.fresh.readyModels_incrementFailureAge] at hr
          obtain ⟨r₀, hr₀, rfl⟩ := List.mem_map.mp hr
          rw [WorkloadManager.older_idx] at hidx hne
          unfold WorkloadManager.older
          rw [if_neg hne]
          exact hfailed r₀ hr₀ hidx
        · rw [List.mem_singleton] at hidx
          have hage : ¬ threshold ≤ r.failureAge := by
            have hblocking := hfresh.isModelBlocking hr
            rw [hidx] at hblocking
            rw [hblocking, decide_eq_true_iff] at hblock
            exact fun hle => hblock (h.1.le.trans hle)
          rw [ht.fresh.readyModels_incrementFailureAge] at hr
          obtain ⟨r₀, hr₀, rfl⟩ := List.mem_map.mp hr
          rw [WorkloadManager.older_idx] at hidx
          unfold WorkloadManager.older at hage ⊢
          rw [if_pos hidx] at hage ⊢
          exact ⟨Nat.le_add_left 1 _, not_le.mp hage⟩
  | injected hstage hmetrics hmap hm =>
    next entry rest _ _ _ _ _ _ =>
    refine ⟨h.1, fun l hl => ?_⟩
    cases hl
    obtain ⟨failed, hready, hfailed⟩ := h.2 _ hstage
    refine ⟨failed, ?_, fun r hr => hfailed r (List.mem_filter.mp hr).1⟩
    have hnodup := ht.fresh.nodup
    rw [hready, List.map_cons] at hnodup
    have hids : ((s.workload.markModelInjected entry.2.2).readyModels.map (·.idx)) =
        (s.workload.readyModels.map (·.idx)).filter (· ≠ entry.2.2) := by
      rw [List.filter_map]
      rfl
    rw [hids, hready, List.map_cons]
    rw [List.nodup_append, List.nodup_cons] at hnodup
    rw [List.filter_append, List.filter_cons_of_neg (by simp),
      List.filter_eq_self.mpr fun k hk => ?_, List.filter_eq_self.mpr fun k hk => ?_]
    · exact decide_eq_true fun heq => hnodup.2.1.1 (heq ▸ hk)
    · exact decide_eq_true fun heq => hnodup.2.2 k hk _ List.mem_cons_self heq
  | communicated => exact ⟨h.1, fun l hl => by cases hl⟩
  | kept => exact ⟨h.1, fun l hl => by cases hl⟩
  | retired => exact ⟨h.1, fun l hl => by cases hl⟩
  | nextTick => exact ⟨h.1, fun l hl => by cases hl⟩
  | finished hstage => exact h

theorem Reachable.passing {s₀ : State} {threshold : ℕ} (h : Reachable c s₀ s)
    (hh : Histories c s₀) (ht : Tracked s₀) (h0 : Passing threshold s₀) : Passing threshold s :=
  h.invariant h0 fun _ _ hreach hp hmove => hp.move (hreach.tracked hh ht) hmove

/-! ## Overtaking -/

/-- A step injects a model that is behind model `k` in the ready order, and model `k` waits. -/
def Overtakes (s s' : State) (k : ℕ) : Prop :=
  ∃ j, j ∉ s.workload.injectedModels ∧ j ∈ s'.workload.injectedModels ∧
    [k, j].Sublist (s.workload.readyModels.map (·.idx))

/-- An overtaken model has failed in this tick, and is not old enough to block. -/
theorem Overtakes.passed {threshold k : ℕ} (h : Overtakes s s' k) (hp : Passing threshold s)
    (ht : Tracked s) (hmove : Move c s s') :
    (∃ l, s.stage = .injecting l ∧ k ∉ l.map (·.2.2)) ∧
      ∃ r ∈ s.workload.readyModels, r.idx = k ∧ 1 ≤ r.failureAge ∧ r.failureAge < threshold := by
  obtain ⟨j, hbefore, hafter, horder⟩ := h
  cases hmove with
  | ready =>
    rw [show (s.workload.getModelsToInject s.globalTimeUs).1.injectedModels =
      s.workload.injectedModels from WorkloadManager.updateReadyModels_injectedModels ..] at hafter
    exact absurd hafter hbefore
  | finish => exact absurd hafter hbefore
  | proceed => exact absurd hafter hbefore
  | postponed => exact absurd hafter hbefore
  | injected hstage hmetrics hmap hm =>
    next entry rest _ _ _ _ _ _ =>
    rw [WorkloadManager.mem_markModelInjected] at hafter
    obtain rfl := hafter.resolve_left hbefore
    obtain ⟨failed, hready, hfailed⟩ := hp.2 _ hstage
    have hnodup := ht.fresh.nodup
    rw [hready, List.map_cons, List.nodup_append, List.nodup_cons] at hnodup
    -- the injected model is the first of those to be tried, so the other one has failed
    have hmem : k ∈ failed := by
      rw [hready, List.map_cons, List.sublist_append_iff] at horder
      obtain ⟨l₁, l₂, heq, h₁, h₂⟩ := horder
      cases l₁ with
      | nil =>
        rw [List.nil_append] at heq
        have hrest : entry.2.2 ∈ rest.map (·.2.2) := by
          rw [← heq] at h₂
          cases h₂ with
          | cons _ h₂ => exact h₂.subset (by simp)
          | cons_cons _ h₂ => exact h₂.subset (by simp)
        exact absurd hrest hnodup.2.1.1
      | cons a l₁ =>
        rw [List.cons_append, List.cons.injEq] at heq
        exact h₁.subset (heq.1 ▸ List.mem_cons_self)
    have hnot : k ∉ (entry :: rest).map (·.2.2) := fun hk => hnodup.2.2 k hmem k hk rfl
    have hk : k ∈ s.workload.readyModels.map (·.idx) := by
      rw [hready]
      exact List.mem_append_left _ hmem
    obtain ⟨r, hr, rfl⟩ := List.mem_map.mp hk
    exact ⟨⟨_, hstage, hnot⟩, r, hr, rfl, hfailed r hr hmem⟩
  | communicated => exact absurd hafter hbefore
  | kept => exact absurd hafter hbefore
  | retired => exact absurd hafter hbefore
  | nextTick => exact absurd hafter hbefore
  | finished => exact absurd hafter hbefore

/-! ## Ages -/

/-- Since time `g` model `k`, then of age `a`, has been injected or has not become younger; from the
next tick on it is older when it has failed in the tick. -/
structure Aged (k a : ℕ) (g : ℚ) (s : State) : Prop where
  time : g ≤ s.globalTimeUs
  age : k ∈ s.workload.injectedModels ∨ ∃ r ∈ s.workload.readyModels, r.idx = k ∧
    a ≤ r.failureAge ∧ (g < s.globalTimeUs → ∀ l, s.stage = .injecting l → k ∉ l.map (·.2.2) →
      a < r.failureAge)

theorem aged_start {r : ReadyModel} (hr : r ∈ s.workload.readyModels) :
    Aged r.idx r.failureAge s.globalTimeUs s :=
  ⟨le_rfl, .inr ⟨r, hr, rfl, le_rfl, fun hlt => absurd hlt (lt_irrefl _)⟩⟩

/-- A move that leaves the workload alone and injects nothing. -/
theorem Aged.of_same {k a : ℕ} {g : ℚ} (h : Aged k a g s) (hw : s'.workload = s.workload)
    (hg : s.globalTimeUs ≤ s'.globalTimeUs) (hstage : ∀ l, s'.stage ≠ .injecting l) :
    Aged k a g s' := by
  refine ⟨h.time.trans hg, ?_⟩
  rw [hw]
  refine h.age.imp_right ?_
  rintro ⟨r, hr, hidx, hage, -⟩
  exact ⟨r, hr, hidx, hage, fun _ l hl => absurd hl (hstage l)⟩

/-- **One step.** -/
theorem Aged.move {k a : ℕ} {g : ℚ} (h : Aged k a g s) (ht : Tracked s) (hmove : Move c s s') :
    Aged k a g s' := by
  cases hmove with
  | ready hstage hwork =>
    refine ⟨h.time, h.age.imp ?_ ?_⟩
    · intro hk
      rwa [show (s.workload.getModelsToInject s.globalTimeUs).1.injectedModels =
        s.workload.injectedModels from WorkloadManager.updateReadyModels_injectedModels ..]
    · rintro ⟨r, hr, rfl, hage, -⟩
      have hr' := WorkloadManager.mem_getModelsToInject hr s.globalTimeUs
      refine ⟨r, hr', rfl, hage, fun _ l hl hnot => absurd ?_ hnot⟩
      cases hl
      rw [WorkloadManager.getModelsToInject_ids]
      exact List.mem_map_of_mem hr'
  | finish => exact h.of_same rfl le_rfl fun l hl => by cases hl
  | proceed => exact h.of_same rfl le_rfl fun l hl => by cases hl
  | postponed hstage =>
    next entry rest =>
    refine ⟨h.time, h.age.imp_right ?_⟩
    rintro ⟨r, hr, rfl, hage, hlater⟩
    have hr' : WorkloadManager.older entry.2.2 r ∈
        (s.workload.incrementFailureAge entry.2.2).readyModels := by
      rw [ht.fresh.readyModels_incrementFailureAge]
      exact List.mem_map_of_mem hr
    refine ⟨_, hr', WorkloadManager.older_idx .., ?_, fun hg l hl hnot => ?_⟩
    · unfold WorkloadManager.older
      split
      · exact hage.trans (Nat.le_succ _)
      · exact hage
    · unfold WorkloadManager.older
      split
      · exact Nat.lt_succ_of_le hage
      · next hne =>
        refine hlater hg _ hstage ?_
        have hl' : l = rest := by
          unfold postpone at hl
          dsimp only at hl
          split at hl
          · cases hl
          · exact (Stage.injecting.inj hl).symm
        rw [List.map_cons, List.mem_cons, not_or]
        exact ⟨hne, hl' ▸ hnot⟩
  | injected hstage hmetrics hmap hm =>
    next entry rest _ _ _ _ _ _ =>
    refine ⟨h.time, ?_⟩
    dsimp only
    rw [WorkloadManager.mem_markModelInjected]
    rcases h.age with hk | ⟨r, hr, rfl, hage, hlater⟩
    · exact .inl (.inl hk)
    · by_cases hne : r.idx = entry.2.2
      · exact .inl (.inr hne)
      · refine .inr ⟨r, List.mem_filter.mpr ⟨hr, by simpa using hne⟩, rfl, hage,
          fun hg l hl hnot => hlater hg _ hstage ?_⟩
        cases hl
        rw [List.map_cons, List.mem_cons, not_or]
        exact ⟨hne, hnot⟩
  | communicated => exact h.of_same rfl le_rfl fun l hl => by cases hl
  | kept => exact h.of_same rfl le_rfl fun l hl => by cases hl
  | retired => exact h.of_same rfl le_rfl fun l hl => by cases hl
  | nextTick => exact h.of_same rfl (by simp) fun l hl => by cases hl
  | finished => exact h

/-! ## Runs -/

/-- A run that goes on starts with a step. -/
theorem Reachable.head {s₀ : State} (h : Reachable c s₀ s) :
    s = s₀ ∨ ∃ t, GlobalManager.step c s₀ = .ok t ∧ Reachable c t s := by
  induction h with
  | start => exact .inl rfl
  | step hreach hstep ih =>
    rcases ih with rfl | ⟨t, ht, hreach'⟩
    · exact .inr ⟨_, hstep, .start⟩
    · exact .inr ⟨t, ht, .step hreach' hstep⟩

theorem Reachable.trans {s₀ : State} (h : Reachable c s₀ s) (h' : Reachable c s s') :
    Reachable c s₀ s' := by
  induction h' with
  | start => exact h
  | step _ hstep ih => exact .step ih hstep

/-- A run has one state after the other. -/
theorem Reachable.comparable {s₀ : State} (h : Reachable c s₀ s) (h' : Reachable c s₀ s') :
    Reachable c s s' ∨ Reachable c s' s := by
  induction h with
  | start => exact .inl h'
  | step hreach hstep ih =>
    rcases ih with hlater | hearlier
    · rcases hlater.head with rfl | ⟨t, ht, hreach'⟩
      · exact .inr (.step .start hstep)
      · rw [hstep] at ht
        cases ht
        exact .inl hreach'
    · exact .inr (.step hearlier hstep)

/-- Model `k` is overtaken at time `g` of a run. -/
def OvertakenAt (c : Config) (s₀ : State) (k : ℕ) (g : ℚ) : Prop :=
  ∃ s s', Reachable c s₀ s ∧ step c s = .ok s' ∧ s.globalTimeUs = g ∧ Overtakes s s' k

section Runs

variable {s₀ : State}

theorem Reachable.aged (hh : Histories c s₀) (ht : Tracked s₀) (hreach : Reachable c s₀ s)
    (h : Reachable c s s') {r : ReadyModel} (hr : r ∈ s.workload.readyModels) :
    Aged r.idx r.failureAge s.globalTimeUs s' := by
  refine h.invariant (aged_start hr) fun t t' hreach' ha hmove => ?_
  exact ha.move (hreach'.tracked (hreach.histories hh) (hreach.tracked hh ht)) hmove

/-- The age that a model has when it is overtaken at some time. -/
def AgeAt (c : Config) (s₀ : State) (k : ℕ) (g : ℚ) (a : ℕ) : Prop :=
  ∃ s r, Reachable c s₀ s ∧ s.globalTimeUs = g ∧ r ∈ s.workload.readyModels ∧ r.idx = k ∧
    r.failureAge = a ∧ ∃ l, s.stage = .injecting l ∧ k ∉ l.map (·.2.2)

theorem OvertakenAt.age {threshold k : ℕ} {g : ℚ} (hh : Histories c s₀) (ht : Tracked s₀)
    (hp : Passing threshold s₀) (h : OvertakenAt c s₀ k g) :
    ∃ a, AgeAt c s₀ k g a ∧ 1 ≤ a ∧ a < threshold := by
  obtain ⟨s, s', hreach, hstep, hg, hover⟩ := h
  obtain ⟨hstage, r, hr, hidx, hone, hlt⟩ := hover.passed (hreach.passing hh ht hp)
    (hreach.tracked hh ht) (step_move hstep)
  exact ⟨r.failureAge, ⟨s, r, hreach, hg, hr, hidx, rfl, hstage⟩, hone, hlt⟩

/-- A model is older when it is overtaken in a later tick. -/
theorem AgeAt.lt {k a a' : ℕ} {g g' : ℚ} (hh : Histories c s₀) (ht : Tracked s₀)
    (h : AgeAt c s₀ k g a) (h' : AgeAt c s₀ k g' a') (hg : g < g') : a < a' := by
  obtain ⟨s, r, hreach, rfl, hr, rfl, rfl, -⟩ := h
  obtain ⟨s', r', hreach', rfl, hr', hidx, rfl, l, hstage, hl⟩ := h'
  have hlater : Reachable c s s' := by
    rcases hreach.comparable hreach' with hlater | hearlier
    · exact hlater
    · exact absurd hg (not_lt.mpr (hreach'.aged hh ht hearlier hr').time)
  rcases (hreach.aged hh ht hlater hr).age with hinj | ⟨r'', hr'', hidx'', -, hage⟩
  · exact absurd (hidx ▸ hinj) ((hreach'.tracked hh ht).fresh.notInjected r' hr')
  · rw [(hreach'.tracked hh ht).fresh.eq_of_idx hr' hr'' (hidx.trans hidx''.symm)]
    exact hage hg l hstage hl

/-- **Overtaking.** A model is overtaken in fewer ticks than the age threshold says, and never once
its failure age has reached the threshold. -/
theorem overtaking_bounded {specs : List ChipletSpec} {adjMatrix : ℕ → ℕ → ℚ}
    {rows : List WorkloadEntry} {threshold : ℕ}
    (hstart : start specs adjMatrix rows threshold = .ok s₀) (k : ℕ) :
    (∀ times : Finset ℚ, (∀ g ∈ times, OvertakenAt c s₀ k g) → times.card ≤ threshold - 1) ∧
    ∀ s r, Reachable c s₀ s → r ∈ s.workload.readyModels → r.idx = k →
      threshold ≤ r.failureAge → ∀ t t', Reachable c s t → step c t = .ok t' →
      ¬ Overtakes t t' k := by
  have hh := histories_start c hstart
  have ht := tracked_start hstart
  have hp := passing_start hstart
  refine ⟨fun times htimes => ?_, ?_⟩
  · -- the ages at these times are different numbers from `1` on and below the threshold
    choose! age hage hone hlt using fun g hg => (htimes g hg).age hh ht hp
    have hinj : Set.InjOn age times := by
      intro g hg g' hg' heq
      rcases lt_trichotomy g g' with hlt' | rfl | hlt'
      · exact absurd heq (AgeAt.lt hh ht (hage g hg) (hage g' hg') hlt').ne
      · rfl
      · exact absurd heq (AgeAt.lt hh ht (hage g' hg') (hage g hg) hlt').ne'
    have hcard := Finset.card_le_card_of_injOn age
      (fun g hg => Finset.mem_Ico.mpr ⟨hone g hg, hlt g hg⟩) hinj
    rwa [Nat.card_Ico] at hcard
  · rintro s r hreach hr rfl hage t t' hlater hstep hover
    have hreach' : Reachable c s₀ t := hreach.trans hlater
    obtain ⟨-, r', hr', hidx, -, hlt⟩ := hover.passed (hreach'.passing hh ht hp)
      (hreach'.tracked hh ht) (step_move hstep)
    rcases (hreach.aged hh ht hlater hr).age with hinj | ⟨r'', hr'', hidx'', hle, -⟩
    · exact (hreach'.tracked hh ht).fresh.notInjected r' hr' (hidx ▸ hinj)
    · rw [(hreach'.tracked hh ht).fresh.eq_of_idx hr' hr'' (hidx.trans hidx''.symm)] at hlt
      omega

end Runs

/-- The small models and one with a single layer. -/
def mixedConfig : Config :=
  { smallConfig with
    models := .ofList [("two-layers",
        ⟨.ofList [(0, linearLayer 8 10 [1]), (1, linearLayer 10 4 [-1])]⟩),
      ("one-layer", ⟨.ofList [(0, linearLayer 8 5 [-1])]⟩)] }

/-- Two models that do not fit together, and a third one that fits next to the first. -/
def mixedWorkload : List WorkloadEntry :=
  [⟨0, "two-layers", 1, 0⟩, ⟨0, "two-layers", 1, 1⟩, ⟨0, "one-layer", 1, 2⟩]

/-- The second model is overtaken by the third one in the first tick; in at most nine ticks in
all. -/
theorem overtaking_bounded_mixed :
    ∃ s₀, start smallSystem chainMatrix mixedWorkload 10 = .ok s₀ ∧
      OvertakenAt mixedConfig s₀ 1 0 ∧
      ∀ times : Finset ℚ, (∀ g ∈ times, OvertakenAt mixedConfig s₀ 1 g) → times.card ≤ 9 := by
  obtain ⟨s₀, hs₀⟩ : ∃ s₀, start smallSystem chainMatrix mixedWorkload 10 = .ok s₀ := ⟨_, rfl⟩
  refine ⟨s₀, hs₀, ?_, fun times => (overtaking_bounded hs₀ 1).1 times⟩
  have hrun : ((do
      let s₀ ← start smallSystem chainMatrix mixedWorkload 10
      let s ← stepsFrom mixedConfig 3 s₀
      let s' ← step mixedConfig s
      return (s.globalTimeUs, s.workload.injectedModels, s.workload.readyModels.map (·.idx),
        s'.workload.injectedModels) : Except PyError _).toOption) =
      some (0, [0], [1, 2], [0, 2]) := by decide +kernel
  rw [hs₀, ok_bind, toOption_eq_some] at hrun
  obtain ⟨s, hs, hrun⟩ := bind_eq_ok.mp hrun
  obtain ⟨s', hs', hrun⟩ := bind_eq_ok.mp hrun
  rw [pure_eq_ok, Except.ok.injEq, Prod.mk.injEq, Prod.mk.injEq, Prod.mk.injEq] at hrun
  obtain ⟨hg, hbefore, hready, hafter⟩ := hrun
  refine ⟨s, s', Reachable.start.stepsFrom hs, hs', hg, 2, ?_, ?_, ?_⟩
  · rw [hbefore]
    decide
  · rw [hafter]
    decide
  · rw [hready]

end GlobalManager

end ChipSim
