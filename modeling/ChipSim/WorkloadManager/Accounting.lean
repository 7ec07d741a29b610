import ChipSim.WorkloadManager
import Mathlib.Algebra.Order.Ring.Unbundled.Rat
import Mathlib.Logic.Relation

/-!
# Counting the workload

Entries are tracked by their model index: in the workload, in the set of injected models and in the
list of ready models. The three agree in every session exactly when no index stands in two rows.
-/

namespace ChipSim

open Lib

namespace WorkloadManager

variable {w : WorkloadManager} {e : WorkloadEntry}

/-- `get_remaining_count`. -/
def getRemainingCount (w : WorkloadManager) : ℤ :=
  w.workload.length - w.injectedModels.length

/-- The entries that have not been injected. -/
def notInjected (w : WorkloadManager) : List WorkloadEntry :=
  w.workload.filter fun e => e.modelIdx ∉ w.injectedModels

/-- A ready model was made from this entry. -/
def isFor (e : WorkloadEntry) (r : ReadyModel) : Bool :=
  r.name = e.model ∧ r.numInputs = e.numInputs ∧ r.idx = e.modelIdx ∧
    r.readyTime = e.injectTimeUs

/-- How often an entry stands in the ready list. -/
def readyCount (w : WorkloadManager) (e : WorkloadEntry) : ℕ := w.readyModels.countP (isFor e)

/-! ## Sessions -/

/-- A call of the manager. -/
inductive Call
  | getModelsToInject (currentTimeUs : ℚ)
  | incrementFailureAge (modelIdx : ℕ)
  | markModelInjected (modelIdx : ℕ)

/-- The manager together with the time of the last query and all models it has returned. -/
structure Session where
  manager : WorkloadManager
  lastTime : Option ℚ := none
  returned : List ℕ := []

namespace Session

/-- Times do not decrease, and only returned models are named. -/
def Permitted (s : Session) : Call → Prop
  | .getModelsToInject g => ∀ t ∈ s.lastTime, t ≤ g
  | .incrementFailureAge modelIdx => modelIdx ∈ s.returned
  | .markModelInjected modelIdx => modelIdx ∈ s.returned

/-- The session after a call. -/
def perform (s : Session) : Call → Session
  | .getModelsToInject g =>
    { manager := (s.manager.getModelsToInject g).1
      lastTime := some g
      returned := s.returned ++ (s.manager.getModelsToInject g).2.map (·.2.2) }
  | .incrementFailureAge modelIdx =>
    { s with manager := s.manager.incrementFailureAge modelIdx }
  | .markModelInjected modelIdx => { s with manager := s.manager.markModelInjected modelIdx }

/-- Some permitted calls in a row. -/
def Calls : Session → Session → Prop :=
  Relation.ReflTransGen fun s s' => ∃ call, s.Permitted call ∧ s.perform call = s'

/-- The session after the workload has been loaded. -/
def start (rows : List WorkloadEntry) (threshold : ℕ) : Session :=
  { manager := load rows threshold }

/-- Every entry is accounted for. -/
structure Accounted (s : Session) : Prop where
  remaining : s.manager.getRemainingCount = s.manager.notInjected.length
  reached : ∀ e ∈ s.manager.workload, (∃ g ∈ s.lastTime, e.injectTimeUs ≤ g) →
    (e.modelIdx ∈ s.manager.injectedModels ∧ s.manager.readyCount e = 0) ∨
      (e.modelIdx ∉ s.manager.injectedModels ∧ s.manager.readyCount e = 1)
  completes : ∃ s', s.Calls s' ∧ s'.manager.getRemainingCount = 0

end Session

/-! ## Becoming ready -/

/-- An entry is injected or waits for it, under its index. -/
def Listed (w : WorkloadManager) (e : WorkloadEntry) : Prop :=
  e.modelIdx ∈ w.injectedModels ∨ e.modelIdx ∈ w.readyModels.map (·.idx)

theorem listed_addReady_of_listed (h : w.Listed e) (g : ℚ) (e' : WorkloadEntry) :
    (w.addReady g e').Listed e := by
  unfold addReady
  split_ifs
  · exact h
  · refine h.imp_right fun hmem => ?_
    rw [List.map_append]
    exact List.mem_append_left _ hmem
  · exact h

theorem listed_addReady {g : ℚ} (h : e.injectTimeUs ≤ g) (w : WorkloadManager) :
    (w.addReady g e).Listed e := by
  unfold addReady
  split_ifs with hknown
  · refine hknown.imp_right fun hany => ?_
    obtain ⟨r, hr, hidx⟩ := List.any_eq_true.mp hany
    exact List.mem_map.mpr ⟨r, hr, of_decide_eq_true hidx⟩
  · refine .inr ?_
    rw [List.map_append]
    exact List.mem_append_right _ List.mem_cons_self

/-- All entries whose time has come are listed. -/
theorem listed_getModelsToInject (he : e ∈ w.workload) {g : ℚ} (h : e.injectTimeUs ≤ g) :
    (w.getModelsToInject g).1.Listed e := by
  have hupdated : (w.updateReadyModels g).Listed e :=
    foldl_establish (fun w' : WorkloadManager => w'.Listed e)
      (fun e' _ w' hw' => listed_addReady_of_listed hw' g e') he fun w' => listed_addReady h w'
  refine hupdated.imp_right fun hmem => ?_
  exact ((List.perm_insertionSort (fun a b : ReadyModel => a.readyTime ≤ b.readyTime) _).map
    _).mem_iff.mpr hmem

theorem updateReadyModels_workload (w : WorkloadManager) (g : ℚ) :
    (w.updateReadyModels g).workload = w.workload := by
  refine List.foldlRecOn (motive := fun w' : WorkloadManager => w'.workload = w.workload)
    _ _ rfl fun w' hw' e _ => ?_
  unfold addReady
  split_ifs <;> exact hw'

theorem listed_incrementFailureAge (modelIdx : ℕ) :
    (w.incrementFailureAge modelIdx).Listed e ↔ w.Listed e := by
  unfold Listed
  rw [incrementFailureAge_map (·.idx) (fun _ _ => rfl) w modelIdx]
  rfl

theorem listed_markModelInjected (h : w.Listed e) (modelIdx : ℕ) :
    (w.markModelInjected modelIdx).Listed e := by
  unfold Listed
  rw [mem_markModelInjected]
  by_cases heq : e.modelIdx = modelIdx
  · exact .inl (.inr heq)
  · refine h.imp .inl fun hmem => ?_
    obtain ⟨r, hr, hidx⟩ := List.mem_map.mp hmem
    refine List.mem_map.mpr ⟨r, List.mem_filter.mpr ⟨hr, ?_⟩, hidx⟩
    exact decide_eq_true (hidx ▸ heq)

/-! ## Ready models and their entries -/

/-- Every ready model was made from an entry. -/
def Sourced (w : WorkloadManager) : Prop :=
  ∀ r ∈ w.readyModels, ∃ e ∈ w.workload, isFor e r = true

theorem Sourced.addReady (h : w.Sourced) (g : ℚ) (he : e ∈ w.workload) :
    (w.addReady g e).Sourced := by
  unfold WorkloadManager.addReady
  split_ifs
  · exact h
  · intro r hr
    rcases List.mem_append.mp hr with hr | hr
    · exact h r hr
    · refine ⟨e, he, ?_⟩
      rw [List.mem_singleton.mp hr]
      exact decide_eq_true ⟨rfl, rfl, rfl, rfl⟩
  · exact h

theorem Sourced.getModelsToInject (h : w.Sourced) (g : ℚ) :
    (w.getModelsToInject g).1.Sourced := by
  have hupdated : (w.updateReadyModels g).workload = w.workload ∧
      (w.updateReadyModels g).Sourced := by
    refine List.foldlRecOn
      (motive := fun w' : WorkloadManager => w'.workload = w.workload ∧ w'.Sourced)
      _ _ ⟨rfl, h⟩ fun w' hw' e he => ⟨?_, hw'.2.addReady g (hw'.1 ▸ he)⟩
    unfold WorkloadManager.addReady
    split_ifs <;> exact hw'.1
  intro r hr
  exact hupdated.2 r ((List.perm_insertionSort _ _).mem_iff.mp hr)

theorem Sourced.incrementFailureAge (h : w.Sourced) (modelIdx : ℕ) :
    (w.incrementFailureAge modelIdx).Sourced := by
  intro r hr
  have hmap := incrementFailureAge_map (fun r => fun e => isFor e r) (fun _ _ => rfl) w modelIdx
  have hmem := List.mem_map_of_mem (f := fun r => fun e => isFor e r) hr
  rw [hmap] at hmem
  obtain ⟨r', hr', heq⟩ := List.mem_map.mp hmem
  obtain ⟨e, he, hfor⟩ := h r' hr'
  exact ⟨e, he, (congrFun heq e).symm.trans hfor⟩

theorem Sourced.markModelInjected (h : w.Sourced) (modelIdx : ℕ) :
    (w.markModelInjected modelIdx).Sourced :=
  fun r hr => h r (List.mem_filter.mp hr).1

theorem nodup_markModelInjected (h : w.injectedModels.Nodup) (modelIdx : ℕ) :
    (w.markModelInjected modelIdx).injectedModels.Nodup := by
  unfold markModelInjected
  dsimp only
  split_ifs with hmem
  · exact h
  · rw [List.nodup_append]
    refine ⟨h, List.nodup_singleton _, fun a ha b hb hab => hmem ?_⟩
    rw [← List.mem_singleton.mp hb, ← hab]
    exact ha

/-! ## Sessions with different indices -/

namespace Session

variable {rows : List WorkloadEntry} {threshold : ℕ} {s s' : Session}

/-- What holds in every session. -/
structure Tracked (rows : List WorkloadEntry) (s : Session) : Prop where
  workload : s.manager.workload.Perm rows
  fresh : s.manager.Fresh
  sourced : s.manager.Sourced
  nodup : s.manager.injectedModels.Nodup
  injected : ∀ i ∈ s.manager.injectedModels, i ∈ s.manager.workload.map (·.modelIdx)
  returned : ∀ i ∈ s.returned, i ∈ s.manager.workload.map (·.modelIdx)
  listed : ∀ e ∈ s.manager.workload, ∀ g ∈ s.lastTime, e.injectTimeUs ≤ g → s.manager.Listed e

theorem tracked_start (rows : List WorkloadEntry) (threshold : ℕ) :
    Tracked rows (start rows threshold) where
  workload := List.perm_insertionSort _ _
  fresh := fresh_load rows threshold
  sourced r hr := by cases hr
  nodup := List.nodup_nil
  injected i hi := by cases hi
  returned i hi := by cases hi
  listed e he g hg := by cases hg

/-- The index of a ready model stands in the workload. -/
theorem mem_workload_of_sourced (h : w.Sourced) {r : ReadyModel} (hr : r ∈ w.readyModels) :
    r.idx ∈ w.workload.map (·.modelIdx) := by
  obtain ⟨e, he, hfor⟩ := h r hr
  exact List.mem_map.mpr ⟨e, he, (of_decide_eq_true hfor).2.2.1.symm⟩

theorem Tracked.perform (h : Tracked rows s) {call : Call} (hcall : s.Permitted call) :
    Tracked rows (s.perform call) := by
  cases call with
  | getModelsToInject g =>
    have hwork : (s.manager.getModelsToInject g).1.workload = s.manager.workload :=
      updateReadyModels_workload s.manager g
    have hinjected : (s.manager.getModelsToInject g).1.injectedModels = s.manager.injectedModels :=
      updateReadyModels_injectedModels s.manager g
    have hsourced := h.sourced.getModelsToInject g
    refine ⟨hwork ▸ h.workload, h.fresh.getModelsToInject g, hsourced, hinjected ▸ h.nodup, ?_, ?_,
      ?_⟩
    · exact fun i hi => hwork ▸ h.injected i (hinjected ▸ hi)
    · intro i hi
      rcases List.mem_append.mp hi with hi | hi
      · exact hwork ▸ h.returned i hi
      · rw [getModelsToInject_ids] at hi
        obtain ⟨r, hr, rfl⟩ := List.mem_map.mp hi
        exact mem_workload_of_sourced hsourced hr
    · rintro e he g' ⟨⟩ htime
      exact listed_getModelsToInject (hwork ▸ he) htime
  | incrementFailureAge modelIdx =>
    exact ⟨h.workload, h.fresh.incrementFailureAge modelIdx,
      h.sourced.incrementFailureAge modelIdx, h.nodup, h.injected, h.returned,
      fun e he g hg htime => (listed_incrementFailureAge modelIdx).mpr (h.listed e he g hg htime)⟩
  | markModelInjected modelIdx =>
    refine ⟨h.workload, h.fresh.markModelInjected modelIdx, h.sourced.markModelInjected modelIdx,
      nodup_markModelInjected h.nodup modelIdx, fun i hi => ?_, h.returned,
      fun e he g hg htime => listed_markModelInjected (h.listed e he g hg htime) modelIdx⟩
    rcases (mem_markModelInjected ..).mp hi with hi | rfl
    · exact h.injected i hi
    · exact h.returned _ hcall

theorem Calls.tracked (hcalls : Calls s s') (h : Tracked rows s) : Tracked rows s' := by
  induction hcalls with
  | refl => exact h
  | tail _ hstep ih =>
    obtain ⟨call, hcall, rfl⟩ := hstep
    exact ih.perform hcall

/-- Different indices: the injected models are as many as the entries they stand for. -/
theorem Tracked.remaining (h : Tracked rows s) (hrows : (rows.map (·.modelIdx)).Nodup) :
    s.manager.getRemainingCount = s.manager.notInjected.length := by
  have hids : (s.manager.workload.map (·.modelIdx)).Nodup :=
    (h.workload.map _).nodup_iff.mpr hrows
  have hperm : s.manager.injectedModels.Perm
      ((s.manager.workload.filter fun e => e.modelIdx ∈ s.manager.injectedModels).map
        (·.modelIdx)) := by
    refine (List.perm_ext_iff_of_nodup h.nodup (hids.sublist (List.filter_sublist.map _))).mpr
      fun i => ?_
    constructor
    · intro hi
      obtain ⟨e, he, rfl⟩ := List.mem_map.mp (h.injected i hi)
      exact List.mem_map_of_mem (List.mem_filter.mpr ⟨he, decide_eq_true hi⟩)
    · intro hi
      obtain ⟨e, he, rfl⟩ := List.mem_map.mp hi
      exact of_decide_eq_true (List.mem_filter.mp he).2
  have hsplit := List.length_eq_length_filter_add (l := s.manager.workload)
    fun e => decide (e.modelIdx ∈ s.manager.injectedModels)
  have hlength := hperm.length_eq
  rw [List.length_map] at hlength
  unfold getRemainingCount notInjected
  simp only [decide_not]
  omega

/-- Different indices: a ready model was made from the entry with its index. -/
theorem Tracked.isFor_iff (h : Tracked rows s) (hrows : (rows.map (·.modelIdx)).Nodup)
    (he : e ∈ s.manager.workload) {r : ReadyModel} (hr : r ∈ s.manager.readyModels) :
    isFor e r = true ↔ r.idx = e.modelIdx := by
  refine ⟨fun hfor => (of_decide_eq_true hfor).2.2.1, fun hidx => ?_⟩
  obtain ⟨e', he', hfor⟩ := h.sourced r hr
  have hids : (s.manager.workload.map (·.modelIdx)).Nodup :=
    (h.workload.map _).nodup_iff.mpr hrows
  have hsame : e'.modelIdx = e.modelIdx := (of_decide_eq_true hfor).2.2.1.symm.trans hidx
  rwa [List.inj_on_of_nodup_map hids he' he hsame] at hfor

theorem Tracked.readyCount (h : Tracked rows s) (hrows : (rows.map (·.modelIdx)).Nodup)
    (he : e ∈ s.manager.workload) :
    s.manager.readyCount e = (s.manager.readyModels.map (·.idx)).count e.modelIdx := by
  unfold WorkloadManager.readyCount
  rw [List.count_eq_countP, List.countP_map]
  refine List.countP_congr fun r hr => ?_
  rw [h.isFor_iff hrows he hr]
  simp

theorem Tracked.reached (h : Tracked rows s) (hrows : (rows.map (·.modelIdx)).Nodup)
    (he : e ∈ s.manager.workload) (htime : ∃ g ∈ s.lastTime, e.injectTimeUs ≤ g) :
    (e.modelIdx ∈ s.manager.injectedModels ∧ s.manager.readyCount e = 0) ∨
      (e.modelIdx ∉ s.manager.injectedModels ∧ s.manager.readyCount e = 1) := by
  obtain ⟨g, hg, hle⟩ := htime
  rw [h.readyCount hrows he]
  by_cases hinjected : e.modelIdx ∈ s.manager.injectedModels
  · refine .inl ⟨hinjected, List.count_eq_zero.mpr fun hmem => ?_⟩
    obtain ⟨r, hr, hidx⟩ := List.mem_map.mp hmem
    exact h.fresh.notInjected r hr (hidx ▸ hinjected)
  · have hready := (h.listed e he g hg hle).resolve_left hinjected
    exact .inr ⟨hinjected, List.count_eq_one_of_mem h.fresh.nodup hready⟩

/-! ## Completion -/

/-- All returned models can be injected. -/
theorem exists_marked (ids : List ℕ) (hids : ∀ i ∈ ids, i ∈ s.returned) :
    ∃ s', s.Calls s' ∧ s'.manager.workload = s.manager.workload ∧
      (∀ i ∈ s.manager.injectedModels, i ∈ s'.manager.injectedModels) ∧
      ∀ i ∈ ids, i ∈ s'.manager.injectedModels := by
  induction ids generalizing s with
  | nil => exact ⟨s, .refl, rfl, fun _ hi => hi, fun _ hi => by cases hi⟩
  | cons i ids ih =>
    obtain ⟨s', hcalls, hwork, hkept, hall⟩ := ih (s := s.perform (.markModelInjected i))
      fun j hj => hids j (List.mem_cons_of_mem i hj)
    have hmark := mem_markModelInjected s.manager i
    refine ⟨s', .head ⟨.markModelInjected i, hids i List.mem_cons_self, rfl⟩ hcalls, hwork,
      fun j hj => hkept j ((hmark j).mpr (.inl hj)), fun j hj => ?_⟩
    rcases List.mem_cons.mp hj with rfl | hj
    · exact hkept j ((hmark j).mpr (.inr rfl))
    · exact hall j hj

/-- A time at which all entries are reached. -/
theorem exists_time (entries : List WorkloadEntry) (lastTime : Option ℚ) :
    ∃ g, (∀ t ∈ lastTime, t ≤ g) ∧ ∀ e ∈ entries, e.injectTimeUs ≤ g := by
  induction entries with
  | nil => exact ⟨lastTime.getD 0, by rintro t ⟨⟩; exact le_rfl, fun e he => by cases he⟩
  | cons e entries ih =>
    obtain ⟨g, hlast, hall⟩ := ih
    refine ⟨max g e.injectTimeUs, fun t ht => (hlast t ht).trans (le_max_left _ _),
      fun e' he' => ?_⟩
    rcases List.mem_cons.mp he' with rfl | he'
    · exact le_max_right _ _
    · exact (hall e' he').trans (le_max_left _ _)

/-- From every session, some calls inject all entries. -/
theorem exists_all_injected (s : Session) :
    ∃ s', s.Calls s' ∧ s'.manager.workload = s.manager.workload ∧
      ∀ e ∈ s.manager.workload, e.modelIdx ∈ s'.manager.injectedModels := by
  obtain ⟨g, hlast, hall⟩ := exists_time s.manager.workload s.lastTime
  obtain ⟨s', hcalls, hwork, hkept, hready⟩ :=
    exists_marked (s := s.perform (.getModelsToInject g))
      ((s.manager.getModelsToInject g).2.map (·.2.2)) fun i hi => List.mem_append_right _ hi
  refine ⟨s', .head ⟨.getModelsToInject g, hlast, rfl⟩ hcalls,
    hwork.trans (updateReadyModels_workload s.manager g), fun e he => ?_⟩
  rcases listed_getModelsToInject he (hall e he) with hinjected | hmem
  · exact hkept _ hinjected
  · exact hready _ ((getModelsToInject_ids s.manager g).symm ▸ hmem)

theorem Tracked.completes (h : Tracked rows s) (hrows : (rows.map (·.modelIdx)).Nodup) :
    ∃ s', s.Calls s' ∧ s'.manager.getRemainingCount = 0 := by
  obtain ⟨s', hcalls, hwork, hall⟩ := exists_all_injected s
  refine ⟨s', hcalls, ?_⟩
  have hnone : s'.manager.notInjected = [] := by
    refine List.filter_eq_nil_iff.mpr fun e he => ?_
    rw [hwork] at he
    simpa using hall e he
  rw [(hcalls.tracked h).remaining hrows, hnone]
  rfl

/-! ## Accounting -/

/-- A single injected model that stands for two entries is counted once. -/
theorem remaining_of_repeated {modelIdx : ℕ} (hinjected : w.injectedModels = [modelIdx])
    (hrepeated : 1 < (w.workload.map (·.modelIdx)).count modelIdx) :
    w.getRemainingCount ≠ w.notInjected.length := by
  have hsplit := List.length_eq_length_filter_add (l := w.workload)
    fun e => decide (e.modelIdx = modelIdx)
  have hcount : (w.workload.map (·.modelIdx)).count modelIdx =
      (w.workload.filter fun e => decide (e.modelIdx = modelIdx)).length := by
    rw [List.count_eq_countP, List.countP_map, List.countP_eq_length_filter]
    rfl
  unfold getRemainingCount notInjected
  rw [hinjected]
  simp only [List.mem_singleton, List.length_singleton, decide_not]
  omega

/-- The first model that becomes ready can be injected. -/
theorem exists_one_injected (he : e ∈ (load rows threshold).workload) :
    ∃ s, (start rows threshold).Calls s ∧
      s.manager.workload = (load rows threshold).workload ∧
      s.manager.injectedModels = [e.modelIdx] := by
  have hnone : ((load rows threshold).getModelsToInject e.injectTimeUs).1.injectedModels = [] :=
    updateReadyModels_injectedModels _ _
  have hready := (listed_getModelsToInject he le_rfl).resolve_left (hnone ▸ List.not_mem_nil)
  refine ⟨((start rows threshold).perform (.getModelsToInject e.injectTimeUs)).perform
    (.markModelInjected e.modelIdx), ?_, updateReadyModels_workload _ _, ?_⟩
  · refine .head ⟨.getModelsToInject e.injectTimeUs, (fun t ht => by cases ht), rfl⟩
      (.single ⟨.markModelInjected e.modelIdx, ?_, rfl⟩)
    exact List.mem_append_right _ ((getModelsToInject_ids _ _).symm ▸ hready)
  · show (((load rows threshold).getModelsToInject e.injectTimeUs).1.markModelInjected
      e.modelIdx).injectedModels = _
    unfold WorkloadManager.markModelInjected
    dsimp only
    rw [hnone, if_neg List.not_mem_nil, List.nil_append]

/-- **Accounting.** Every entry is accounted for in every session exactly when no model index
stands in two rows of the workload. -/
theorem accounted_iff (rows : List WorkloadEntry) (threshold : ℕ) :
    (∀ s, (start rows threshold).Calls s → s.Accounted) ↔ (rows.map (·.modelIdx)).Nodup := by
  constructor
  · intro h
    by_contra hrepeated
    obtain ⟨i, hi⟩ : ∃ i, 1 < (rows.map (·.modelIdx)).count i := by
      rw [List.nodup_iff_count_le_one] at hrepeated
      push Not at hrepeated
      exact hrepeated
    have hperm : (load rows threshold).workload.Perm rows := List.perm_insertionSort _ _
    rw [← (hperm.map _).count_eq] at hi
    obtain ⟨e, he, rfl⟩ := List.mem_map.mp (List.count_pos_iff.mp (Nat.zero_lt_of_lt hi))
    obtain ⟨s, hcalls, hwork, hinjected⟩ := exists_one_injected he
    exact remaining_of_repeated hinjected (hwork.symm ▸ hi) (h s hcalls).remaining
  · intro hrows s hcalls
    have htracked := hcalls.tracked (tracked_start rows threshold)
    exact ⟨htracked.remaining hrows, fun e he htime => htracked.reached hrows he htime,
      htracked.completes hrows⟩

/-- Two rows with the same model index. -/
def repeatedRows : List WorkloadEntry := [⟨0, "a", 1, 1⟩, ⟨0, "b", 1, 1⟩]

/-- The second of two rows with the same model index never becomes ready, and one entry remains
for ever. -/
theorem repeated_index_remains : ∃ s, (start repeatedRows 10).Calls s ∧
    s.manager.notInjected = [] ∧ s.manager.readyModels = [] ∧
    ∀ s', (start repeatedRows 10).Calls s' → 0 < s'.manager.getRemainingCount := by
  refine ⟨((start repeatedRows 10).perform (.getModelsToInject 0)).perform (.markModelInjected 1),
    ?_, by decide +kernel, by decide +kernel, fun s' hcalls => ?_⟩
  · refine .head ⟨.getModelsToInject 0, (fun t ht => by cases ht), rfl⟩
      (.single ⟨.markModelInjected 1, ?_, rfl⟩)
    show 1 ∈ ((start repeatedRows 10).perform (.getModelsToInject 0)).returned
    decide +kernel
  · have htracked := hcalls.tracked (tracked_start repeatedRows 10)
    have hsubset : s'.manager.injectedModels ⊆ [1] := fun i hi => by
      have hmem := (htracked.workload.map _).mem_iff.mp (htracked.injected i hi)
      simpa [repeatedRows] using hmem
    have hle := (List.subperm_of_subset htracked.nodup hsubset).length_le
    have hlength : s'.manager.workload.length = 2 := htracked.workload.length_eq
    unfold getRemainingCount
    rw [List.length_singleton] at hle
    omega

end Session

end WorkloadManager

end ChipSim
