import Mathlib.Data.List.Sort
import Mathlib.Data.Rat.Defs
import ChipSim.PyError

/-!
# The workload

The workload lists when each model is to be injected. Models whose time has come are ready; a ready
model that could not be mapped gets older, and one that has reached the age threshold blocks the
models behind it. An injected model never becomes ready again.
-/

namespace ChipSim

open Lib

/-- One row of the workload file. -/
structure WorkloadEntry where
  injectTimeUs : ℚ
  model : String
  numInputs : ℕ
  modelIdx : ℕ
deriving DecidableEq

/-- A model that waits for its injection. -/
structure ReadyModel where
  name : String
  numInputs : ℕ
  idx : ℕ
  readyTime : ℚ
  failureAge : ℕ := 0
deriving DecidableEq

/-- The state of the workload manager. A negative age threshold acts like `0`. -/
structure WorkloadManager where
  blockingAgeThreshold : ℕ := 10
  workload : List WorkloadEntry
  injectedModels : List ℕ := []
  readyModels : List ReadyModel := []

namespace WorkloadManager

variable {w : WorkloadManager} {r : ReadyModel}

/-- `load_workload`: the rows sorted by injection time. -/
def load (rows : List WorkloadEntry) (blockingAgeThreshold : ℕ) : WorkloadManager where
  blockingAgeThreshold := blockingAgeThreshold
  workload := rows.insertionSort fun a b => a.injectTimeUs ≤ b.injectTimeUs

/-- `increment_failure_age`: of the first ready model with this index. -/
def incrementFailureAge (w : WorkloadManager) (modelIdx : ℕ) : WorkloadManager :=
  { w with readyModels :=
      w.readyModels.modify (w.readyModels.findIdx (·.idx = modelIdx)) fun r =>
        { r with failureAge := r.failureAge + 1 } }

/-- `is_model_blocking`. -/
def isModelBlocking (w : WorkloadManager) (modelIdx : ℕ) : Bool :=
  match w.readyModels.find? (·.idx = modelIdx) with
  | some r => decide (w.blockingAgeThreshold ≤ r.failureAge)
  | none => false

/-- The loop body of `update_ready_models`. -/
def addReady (g : ℚ) (w : WorkloadManager) (e : WorkloadEntry) : WorkloadManager :=
  if e.modelIdx ∈ w.injectedModels ∨ w.readyModels.any (·.idx = e.modelIdx) then w
  else if e.injectTimeUs ≤ g then
    { w with readyModels := w.readyModels ++
        [{ name := e.model, numInputs := e.numInputs, idx := e.modelIdx,
           readyTime := e.injectTimeUs }] }
  else w

/-- `update_ready_models`. -/
def updateReadyModels (w : WorkloadManager) (g : ℚ) : WorkloadManager :=
  w.workload.foldl (addReady g) w

/-- `get_models_to_inject`: name, number of inputs and index, oldest first. -/
def getModelsToInject (w : WorkloadManager) (g : ℚ) :
    WorkloadManager × List (String × ℕ × ℕ) :=
  let w := w.updateReadyModels g
  let sorted := w.readyModels.insertionSort fun a b => a.readyTime ≤ b.readyTime
  ({ w with readyModels := sorted }, sorted.map fun r => (r.name, r.numInputs, r.idx))

/-- `mark_model_injected`; the injected models are a set. -/
def markModelInjected (w : WorkloadManager) (modelIdx : ℕ) : WorkloadManager :=
  { w with
    injectedModels :=
      if modelIdx ∈ w.injectedModels then w.injectedModels else w.injectedModels ++ [modelIdx]
    readyModels := w.readyModels.filter (·.idx ≠ modelIdx) }

/-- `get_remaining_count() > 0`: more workload entries than injected models. -/
def hasRemaining (w : WorkloadManager) : Bool :=
  decide (w.injectedModels.length < w.workload.length)

/-! ## Ready models -/

/-- The ready models are different ones, and none of them has been injected. -/
structure Fresh (w : WorkloadManager) : Prop where
  nodup : (w.readyModels.map (·.idx)).Nodup
  notInjected : ∀ r ∈ w.readyModels, r.idx ∉ w.injectedModels

theorem fresh_load (rows : List WorkloadEntry) (threshold : ℕ) : (load rows threshold).Fresh :=
  ⟨List.nodup_nil, fun _ hr => by cases hr⟩

theorem addReady_injectedModels (g : ℚ) (w : WorkloadManager) (e : WorkloadEntry) :
    (w.addReady g e).injectedModels = w.injectedModels := by
  unfold addReady
  split_ifs <;> rfl

theorem Fresh.addReady (h : w.Fresh) (g : ℚ) (e : WorkloadEntry) :
    (w.addReady g e).Fresh := by
  unfold WorkloadManager.addReady
  split
  · exact h
  · next hnew =>
    rw [not_or] at hnew
    split
    · refine ⟨?_, ?_⟩
      · rw [List.map_append, List.map_singleton, List.nodup_append]
        refine ⟨h.nodup, List.nodup_singleton _, fun a ha b hb hab => ?_⟩
        obtain ⟨r, hr, rfl⟩ := List.mem_map.mp ha
        rw [List.mem_singleton] at hb
        exact hnew.2 (List.any_eq_true.mpr ⟨r, hr, by simpa using hab.trans hb⟩)
      · intro r hr
        rcases List.mem_append.mp hr with hr | hr
        · exact h.notInjected r hr
        · rw [List.mem_singleton.mp hr]
          exact hnew.1
    · exact h

theorem updateReadyModels_injectedModels (w : WorkloadManager) (g : ℚ) :
    (w.updateReadyModels g).injectedModels = w.injectedModels :=
  List.foldlRecOn (motive := fun w' => w'.injectedModels = w.injectedModels) _ _ rfl
    fun w' hw' e _ => (addReady_injectedModels g w' e).trans hw'

theorem Fresh.updateReadyModels (h : w.Fresh) (g : ℚ) :
    (w.updateReadyModels g).Fresh :=
  List.foldlRecOn (motive := Fresh) _ _ h fun _ hw e _ => hw.addReady g e

theorem Fresh.getModelsToInject (h : w.Fresh) (g : ℚ) :
    (w.getModelsToInject g).1.Fresh := by
  have hr := h.updateReadyModels g
  have hperm := List.perm_insertionSort (fun a b : ReadyModel => a.readyTime ≤ b.readyTime)
    (w.updateReadyModels g).readyModels
  exact ⟨(hperm.map _).nodup_iff.mpr hr.nodup, fun r hmem =>
    hr.notInjected r (hperm.mem_iff.mp hmem)⟩

/-- The models to inject are the ready ones. -/
theorem getModelsToInject_ids (w : WorkloadManager) (g : ℚ) :
    (w.getModelsToInject g).2.map (·.2.2) =
      (w.getModelsToInject g).1.readyModels.map (·.idx) := by
  unfold WorkloadManager.getModelsToInject
  rw [List.map_map]
  rfl

/-- Only the failure ages of the ready models change. -/
theorem incrementFailureAge_map {γ : Type*} (f : ReadyModel → γ)
    (hf : ∀ r age, f { r with failureAge := age } = f r) (w : WorkloadManager) (modelIdx : ℕ) :
    (w.incrementFailureAge modelIdx).readyModels.map f = w.readyModels.map f := by
  unfold incrementFailureAge
  apply List.ext_getElem?
  intro k
  rw [List.getElem?_map, List.getElem?_map, List.getElem?_modify]
  cases w.readyModels[k]? with
  | none => rfl
  | some r =>
    split
    · exact congrArg some (hf r _)
    · rfl

theorem Fresh.incrementFailureAge (h : w.Fresh) (modelIdx : ℕ) :
    (w.incrementFailureAge modelIdx).Fresh := by
  have hids := incrementFailureAge_map (·.idx) (fun _ _ => rfl) w modelIdx
  refine ⟨hids ▸ h.nodup, fun r hr => ?_⟩
  have hmem : r.idx ∈ w.readyModels.map (·.idx) := hids ▸ List.mem_map_of_mem hr
  obtain ⟨r', hr', heq⟩ := List.mem_map.mp hmem
  rw [← heq]
  exact h.notInjected r' hr'

theorem mem_markModelInjected (w : WorkloadManager) (modelIdx k : ℕ) :
    k ∈ (w.markModelInjected modelIdx).injectedModels ↔ k ∈ w.injectedModels ∨ k = modelIdx := by
  unfold markModelInjected
  dsimp only
  split
  · next hmem => exact ⟨.inl, fun h => h.elim id fun hk => hk ▸ hmem⟩
  · rw [List.mem_append, List.mem_singleton]

theorem Fresh.markModelInjected (h : w.Fresh) (modelIdx : ℕ) :
    (w.markModelInjected modelIdx).Fresh := by
  refine ⟨h.nodup.sublist (List.filter_sublist.map _), fun r hr => ?_⟩
  obtain ⟨hmem, hne⟩ := List.mem_filter.mp hr
  rw [mem_markModelInjected, not_or]
  exact ⟨h.notInjected r hmem, by simpa using hne⟩

/-! ## Failure ages -/

/-- A model that has failed once more. -/
def older (modelIdx : ℕ) (r : ReadyModel) : ReadyModel :=
  if r.idx = modelIdx then { r with failureAge := r.failureAge + 1 } else r

@[simp] theorem older_idx (modelIdx : ℕ) (r : ReadyModel) : (older modelIdx r).idx = r.idx := by
  unfold older
  split <;> rfl

/-- The age of one ready model is raised, the others are left as they are. -/
theorem Fresh.readyModels_incrementFailureAge (h : w.Fresh) (modelIdx : ℕ) :
    (w.incrementFailureAge modelIdx).readyModels = w.readyModels.map (older modelIdx) := by
  refine List.ext_getElem? fun k => ?_
  unfold WorkloadManager.incrementFailureAge older
  rw [List.getElem?_modify, List.getElem?_map]
  cases hk : w.readyModels[k]? with
  | none => rfl
  | some r =>
    have hiff : w.readyModels.findIdx (·.idx = modelIdx) = k ↔ r.idx = modelIdx := by
      obtain ⟨hlt, hget⟩ := List.getElem?_eq_some_iff.mp hk
      rw [List.findIdx_eq hlt, hget]
      simp only [decide_eq_true_eq, decide_eq_false_iff_not, and_iff_left_iff_imp]
      -- indices are different, so no earlier model has this one
      intro hidx j hj heq
      refine List.nodup_iff_getElem?_ne_getElem?.mp h.nodup j k hj (by simpa using hlt) ?_
      rw [List.getElem?_map, List.getElem?_map, hk, List.getElem?_eq_getElem (hj.trans hlt)]
      simp [heq, hidx]
    by_cases hidx : r.idx = modelIdx
    · simp [hiff.mpr hidx, hidx]
    · simp [mt hiff.mp hidx, hidx]

theorem Fresh.eq_of_idx (h : w.Fresh) {r r' : ReadyModel} (hr : r ∈ w.readyModels)
    (hr' : r' ∈ w.readyModels) (hidx : r.idx = r'.idx) : r = r' :=
  List.inj_on_of_nodup_map h.nodup hr hr' hidx

theorem Fresh.isModelBlocking (h : w.Fresh) (hr : r ∈ w.readyModels) :
    w.isModelBlocking r.idx = decide (w.blockingAgeThreshold ≤ r.failureAge) := by
  unfold WorkloadManager.isModelBlocking
  cases hfind : w.readyModels.find? (·.idx = r.idx) with
  | none =>
    rw [List.find?_eq_none] at hfind
    exact absurd (hfind r hr) (by simp)
  | some r' =>
    have hidx : r'.idx = r.idx := by simpa using List.find?_some hfind
    rw [h.eq_of_idx (List.mem_of_find?_eq_some hfind) hr hidx]

theorem mem_updateReadyModels (hr : r ∈ w.readyModels) (g : ℚ) :
    r ∈ (w.updateReadyModels g).readyModels := by
  refine List.foldlRecOn (motive := fun w' : WorkloadManager => r ∈ w'.readyModels) _ _ hr
    fun w' hw' e _ => ?_
  unfold WorkloadManager.addReady
  split
  · exact hw'
  · split
    · exact List.mem_append_left _ hw'
    · exact hw'

/-- A ready model stays ready. -/
theorem mem_getModelsToInject (hr : r ∈ w.readyModels) (g : ℚ) :
    r ∈ (w.getModelsToInject g).1.readyModels :=
  (List.perm_insertionSort (fun a b : ReadyModel => a.readyTime ≤ b.readyTime) _).mem_iff.mpr
    (mem_updateReadyModels hr g)

theorem updateReadyModels_threshold (w : WorkloadManager) (g : ℚ) :
    (w.updateReadyModels g).blockingAgeThreshold = w.blockingAgeThreshold := by
  refine List.foldlRecOn
    (motive := fun w' : WorkloadManager => w'.blockingAgeThreshold = w.blockingAgeThreshold)
    _ _ rfl fun w' hw' e _ => ?_
  unfold WorkloadManager.addReady
  split_ifs <;> exact hw'

/-! ## Where the models come from -/

/-- A number of inputs and a model index stand in a row of the workload file. -/
def InRows (rows : List WorkloadEntry) (numInputs modelIdx : ℕ) : Prop :=
  ∃ e ∈ rows, e.numInputs = numInputs ∧ e.modelIdx = modelIdx

/-- The workload and the ready models come from the rows. -/
structure DrawnFrom (rows : List WorkloadEntry) (w : WorkloadManager) : Prop where
  workload : ∀ e ∈ w.workload, e ∈ rows
  ready : ∀ r ∈ w.readyModels, InRows rows r.numInputs r.idx

variable {rows : List WorkloadEntry}

theorem drawnFrom_load (rows : List WorkloadEntry) (threshold : ℕ) :
    DrawnFrom rows (load rows threshold) where
  workload e he := (List.perm_insertionSort (fun a b : WorkloadEntry =>
    a.injectTimeUs ≤ b.injectTimeUs) rows).mem_iff.mp he
  ready r hr := by cases hr

theorem DrawnFrom.addReady (h : DrawnFrom rows w) (g : ℚ) {e : WorkloadEntry} (he : e ∈ rows) :
    DrawnFrom rows (w.addReady g e) := by
  unfold WorkloadManager.addReady
  split
  · exact h
  · split
    · refine ⟨h.workload, fun r hr => ?_⟩
      rcases List.mem_append.mp hr with hr | hr
      · exact h.ready r hr
      · rw [List.mem_singleton.mp hr]
        exact ⟨e, he, rfl, rfl⟩
    · exact h

theorem DrawnFrom.updateReadyModels (h : DrawnFrom rows w) (g : ℚ) :
    DrawnFrom rows (w.updateReadyModels g) :=
  List.foldlRecOn (motive := DrawnFrom rows) _ _ h
    fun _ hw e he => hw.addReady g (h.workload e he)

theorem DrawnFrom.getModelsToInject (h : DrawnFrom rows w) (g : ℚ) :
    DrawnFrom rows (w.getModelsToInject g).1 ∧
      ∀ e ∈ (w.getModelsToInject g).2, InRows rows e.2.1 e.2.2 := by
  have hr := h.updateReadyModels g
  have hready : ∀ r ∈ (w.getModelsToInject g).1.readyModels, InRows rows r.numInputs r.idx :=
    fun r hmem => hr.ready r ((List.perm_insertionSort (fun a b : ReadyModel =>
      a.readyTime ≤ b.readyTime) (w.updateReadyModels g).readyModels).mem_iff.mp hmem)
  refine ⟨⟨hr.workload, hready⟩, fun e he => ?_⟩
  obtain ⟨r, hmem, rfl⟩ := List.mem_map.mp he
  exact hready r hmem

theorem DrawnFrom.incrementFailureAge (h : DrawnFrom rows w) (modelIdx : ℕ) :
    DrawnFrom rows (w.incrementFailureAge modelIdx) := by
  have hmap := incrementFailureAge_map (fun r => (r.numInputs, r.idx)) (fun _ _ => rfl) w modelIdx
  refine ⟨h.workload, fun r hr => ?_⟩
  have hmem : (r.numInputs, r.idx) ∈ w.readyModels.map fun r => (r.numInputs, r.idx) :=
    hmap ▸ List.mem_map_of_mem hr
  obtain ⟨r', hr', heq⟩ := List.mem_map.mp hmem
  rw [Prod.mk.injEq] at heq
  rw [← heq.1, ← heq.2]
  exact h.ready r' hr'

theorem DrawnFrom.markModelInjected (h : DrawnFrom rows w) (modelIdx : ℕ) :
    DrawnFrom rows (w.markModelInjected modelIdx) :=
  ⟨h.workload, fun r hr => h.ready r (List.mem_filter.mp hr).1⟩

end WorkloadManager

end ChipSim
