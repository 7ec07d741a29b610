import ChipSim.GlobalManager.Capacity
import ChipSim.LayerPartitioner.Rounding
import ChipSim.Orchestrator.Responses

/-!
# Models of a simulation with a sensible network

With a network simulator that reports latencies of the phases it was given only, and no negative
ones, all models of a simulation keep the facts about recorded starts, and their chunks belong to
the chiplets their layers are mapped to.
-/

namespace ChipSim

open Lib

namespace MappedModel

/-- A layer of a mapping has a share on the chiplet. -/
def MappedTo (mapping : LayerMappings) (l chipletId : ℕ) : Prop :=
  ∃ e ∈ mapping, e.1 = l ∧ chipletId ∈ e.2.map Prod.fst

/-- The facts about a model on a system of `n` chiplets. -/
structure Measured (n : ℕ) (g : ℚ) (m : MappedModel) : Prop where
  layerStarts : 0 < m.numInputs → LayerStarts g m
  chunks : ∀ l d cid, m.chunkResults.get? l = some d → cid ∈ d → MappedTo m.mapping l cid
  valid : TrafficCalculator.ValidMapping n m.mapping

variable {n : ℕ} {g : ℚ} {m m' : MappedModel}

theorem Measured.later {g' : ℚ} (hg : g ≤ g') (h : Measured n g m) : Measured n g' m :=
  ⟨fun hN => (h.layerStarts hN).later hg, h.chunks, h.valid⟩

theorem Measured.advance (h : Measured n g m) (hadv : Advance measured g m m') :
    Measured n g m' := by
  obtain ⟨-, hchunks, hmapping⟩ := hadv.kept
  refine ⟨fun hN => ?_, ?_, ?_⟩
  · rw [hadv.schedule] at hN
    exact (h.layerStarts hN).advance hadv
  · rw [hchunks, hmapping]
    exact h.chunks
  · rw [hmapping]
    exact h.valid

theorem Measured.run {g₀ : ℚ} {m₀ : MappedModel} (h : Measured n g₀ m₀)
    (hrun : Run measured g₀ m₀ g m) : Measured n g m :=
  hrun.invariant (P := Measured n) h (fun _ _ _ hg h => h.later hg)
    fun _ _ _ h hstep => h.advance hstep

theorem Measured.chiplet (h : Measured n g m) {l cid : ℕ} {d : Dict ℕ (ℕ × ChunkResult)}
    (hd : m.chunkResults.get? l = some d) (hcid : cid ∈ d) : 1 ≤ cid ∧ cid ≤ n := by
  obtain ⟨e, he, -, hmem⟩ := h.chunks l d cid hd hcid
  obtain ⟨share, hshare, rfl⟩ := List.mem_map.mp hmem
  exact h.valid e he share hshare

end MappedModel

namespace GlobalManager

open MappedModel Orchestrator

variable {c : Config} {specs : List ChipletSpec} {s s' : State}

/-- The chunks of a layer are those of its shares. -/
theorem simulateLayer_mapped {a : Args} {e : ℕ × List (ℕ × ℚ)}
    {results : List (ℕ × ℕ × ℕ × ChunkResult)} (h : simulateLayer c a e = .ok results)
    {r : ℕ × ℕ × ℕ × ChunkResult} (hr : r ∈ results) : r.1 = e.1 ∧ r.2.1 ∈ e.2.map Prod.fst := by
  unfold simulateLayer at h
  split at h
  · cases h
  · next layerDef _ =>
    obtain ⟨chunk, hchunk, hres⟩ := mem_mapM h hr
    obtain ⟨result, -, hres⟩ := bind_eq_ok.mp hres
    cases hres
    refine ⟨rfl, ?_⟩
    rw [← LayerPartitioner.ids_partitionLayer layerDef (a.modelMetrics[e.1]?.map (·.totalMacs))]
    exact List.mem_map_of_mem (List.fst_mem_of_mem_zipIdx hchunk)

/-- A new model. -/
theorem createMappedModel_measured {sys : System} {a : Args} (hL : 0 < a.numLayers)
    (h0 : 0 ≤ a.modelStartTimeUs) (hmap : TrafficCalculator.ValidMapping n a.mapping)
    {m : MappedModel} (h : createMappedModel c sys a = .ok m) (g : ℚ) : Measured n g m := by
  obtain ⟨chunks, hchunks, h⟩ := bind_eq_ok.mp h
  have hbuilt := prepare_builtFrom h
  refine ⟨fun hN => ?_, ?_, ?_⟩
  · rw [hbuilt.numInputs_eq] at hN
    exact prepare_layerStarts hL hN h0 h g
  · intro l d cid hd hcid
    rw [hbuilt.chunkResults] at hd
    obtain ⟨r, hr, rfl, rfl⟩ := mem_storedChunks hd hcid
    obtain ⟨results, hresults, hr⟩ := List.mem_flatten.mp hr
    obtain ⟨e, he, hres⟩ := mem_mapM hchunks hresults
    obtain ⟨hl, hmem⟩ := simulateLayer_mapped hres hr
    rw [hbuilt.mapping]
    exact ⟨e, he, hl.symm, hmem⟩
  · rw [hbuilt.mapping]
    exact hmap

theorem Created.measured (h0 : 0 ≤ s.globalTimeUs) {k : ℕ} {m : MappedModel}
    (h : Created c s k m) : Measured s.system.numChiplets s.globalTimeUs m := by
  obtain ⟨hstage, hmetrics, hmap, hm⟩ := h
  exact createMappedModel_measured (ModelProcessor.processModel_nonempty hmetrics) h0
    (ModelMapper.validMapping_generateMapping hmap) hm _

/-- The facts hold for all models of a system of `n` chiplets. -/
structure AllMeasured (n : ℕ) (s : State) : Prop where
  time : 0 ≤ s.globalTimeUs
  models : Models (fun _ => Measured n) s

theorem allMeasured_start {adjMatrix : ℕ → ℕ → ℚ} {rows : List WorkloadEntry} {threshold : ℕ}
    (h : start specs adjMatrix rows threshold = .ok s) : AllMeasured n s := by
  refine ⟨?_, models_start h⟩
  unfold start at h
  split at h
  · cases h
  · cases h
    exact le_rfl

theorem Move.globalTimeUs_le (h : Move c s s') : s.globalTimeUs ≤ s'.globalTimeUs := by
  cases h <;> first | exact le_rfl | exact le_add_of_nonneg_right zero_le_one

theorem AllMeasured.move (h : AllMeasured n s) (hnet : Sensible c.network)
    (hshape : ∀ k m, s.activeMappedModels.get? k = some m → Shape m)
    (hn : s.system.numChiplets = n) (hmove : Move c s s') : AllMeasured n s' := by
  subst hn
  refine ⟨h.time.trans hmove.globalTimeUs_le, h.models.move ?_ ?_ hshape ?_ hmove⟩
  · exact fun _ _ _ _ hg hm => hm.later hg
  · exact fun k _ _ _ hm hrun => hm.run (hrun.mono (hnet.measured k))
  · exact fun k m hm => hm.measured h.time

/-- **Runs.** In every state of a simulation with a sensible network. -/
theorem allMeasured_of_reachable {adjMatrix : ℕ → ℕ → ℚ} {rows : List WorkloadEntry} {threshold : ℕ}
    {s₀ : State} (hnet : Sensible c.network) (h₀ : start specs adjMatrix rows threshold = .ok s₀)
    (h : Reachable c s₀ s) : AllMeasured s.system.numChiplets s := by
  have hnum : ∀ {s}, Reachable c s₀ s → s.system.numChiplets = specs.length := fun hreach =>
    (hreach.balanced (histories_start c h₀) (tracked_start h₀) (balanced_start h₀)).numChiplets
  rw [hnum h]
  exact h.invariant (allMeasured_start h₀) fun s s' hreach hs hmove =>
    hs.move hnet (hreach.histories (histories_start c h₀)).shape (hnum hreach) hmove

end GlobalManager

end ChipSim
