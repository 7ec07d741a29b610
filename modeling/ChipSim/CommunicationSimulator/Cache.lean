import Mathlib
import ChipSim.Lib.Memo
import ChipSim.CommunicationSimulator

/-!
# The cache

A result depends on the parameters and on the list of matrices and ids. The key has the sum of the
matrices, so that two calls which divide the same traffic between their phases in different ways
have the same key. The cache is transparent exactly if no two calls of a sequence do so.
-/

namespace ChipSim

open Lib

namespace CommunicationSimulator

/-! ## The cache as a memo table -/

/-- The cache, for a network simulator. -/
def memo (b : Backend) :
    Memo SimulationCall CacheKey LatencyStats (Except PyError (Option LatencyStats)) where
  key := SimulationCall.cacheKey
  compute := fun c => if c.trafficMatrices.isEmpty then .ok none else (simulate b c).1
  store := fun c => if c.trafficMatrices.isEmpty then none else (simulate b c).2
  accept := fun c v => !c.trafficMatrices.isEmpty && validCache c v
  reply := fun v => .ok (some v)

/-- With the cache off, a call neither reads nor writes it. -/
theorem simulateCommunication_off (b : Backend) (c : SimulationCall) (cache : Cache) :
    simulateCommunication b false c cache = ((memo b).compute c, cache) := by
  unfold simulateCommunication memo
  by_cases hempty : c.trafficMatrices.isEmpty
  · simp only [if_pos hempty]
  · simp [hempty]

/-- With the cache on, it is a memo table. -/
theorem simulateCommunication_on (b : Backend) (c : SimulationCall) (cache : Cache) :
    simulateCommunication b true c cache =
      ((memo b).answer cache c, (memo b).next cache c) := by
  unfold simulateCommunication Memo.answer Memo.next Memo.hit memo
  by_cases hempty : c.trafficMatrices.isEmpty
  · simp [hempty]
  · simp only [hempty, Bool.not_false, Bool.true_and, Bool.false_eq_true, if_false, if_true]
    cases hcached : (cache.get? c.cacheKey).filter (validCache c) with
    | some stats => rfl
    | none => cases hstored : (simulate b c).2 <;> rfl

theorem results_off (b : Backend) (cache : Cache) (calls : List SimulationCall) :
    results b false cache calls = calls.map fun c => phaseLatencies ((memo b).compute c) := by
  induction calls generalizing cache with
  | nil => rfl
  | cons c calls ih => rw [results, simulateCommunication_off, List.map_cons, ih]

theorem results_on (b : Backend) (cache : Cache) (calls : List SimulationCall) :
    results b true cache calls = ((memo b).answers cache calls).map phaseLatencies := by
  induction calls generalizing cache with
  | nil => rfl
  | cons c calls ih =>
    rw [results, simulateCommunication_on, Memo.answers, List.map_cons, ih]

/-! ## Transparency -/

/-- The calls of a sequence return the same latencies with the cache on and off, whatever function
of its inputs the network simulator is. -/
def Transparent (calls : List SimulationCall) : Prop :=
  ∀ b : Backend, results b true .empty calls = results b false .empty calls

/-- The calls whose results can be stored: they have traffic for Garnet, and a clock that ticks. -/
def Storable (c : SimulationCall) : Prop :=
  c.params.simulatorType = .garnet ∧ Garnet.trafficData c.trafficMatrices ≠ [] ∧
    c.params.clock ≠ 0

theorem store_cases {b : Backend} {c : SimulationCall} {v : LatencyStats}
    (h : (memo b).store c = some v) :
    c.params.simulatorType = .garnet ∧ Garnet.trafficData c.trafficMatrices ≠ [] ∧
      runGarnet b c = .ok (some v) := by
  have hstored : (simulate b c).2 = some v := by
    unfold memo at h
    simp only at h
    split_ifs at h
    exact h
  unfold simulate at hstored
  cases htype : c.params.simulatorType with
  | booksim => simp [htype] at hstored
  | other name => simp [htype] at hstored
  | garnet =>
    by_cases htraffic : Garnet.trafficData c.trafficMatrices = []
    · simp [htype, htraffic] at hstored
    · refine ⟨rfl, htraffic, ?_⟩
      rcases hrun : runGarnet b c with e | (_ | stats)
      all_goals simp [htype, htraffic, hrun] at hstored
      rw [hstored]

/-- A call with traffic for Garnet stores what it returns. -/
theorem compute_store_of_run {b : Backend} {c : SimulationCall} {v : LatencyStats}
    (htype : c.params.simulatorType = .garnet)
    (htraffic : Garnet.trafficData c.trafficMatrices ≠ [])
    (hrun : runGarnet b c = .ok (some v)) :
    (memo b).compute c = .ok (some v) ∧ (memo b).store c = some v := by
  have hne : c.trafficMatrices.isEmpty = false := by
    cases hc : c.trafficMatrices with
    | nil => exact absurd (hc ▸ htraffic : Garnet.trafficData [] ≠ []) (fun h => h rfl)
    | cons _ _ => rfl
  have hdata : (Garnet.trafficData c.trafficMatrices).isEmpty = false := by simpa using htraffic
  unfold memo simulate
  simp only [hne, hdata, htype, hrun, Bool.false_eq_true, if_false, and_self]

/-- A result with latencies comes from a clock that ticks. -/
theorem clock_ne_zero_of_run {b : Backend} {c : SimulationCall} {v : LatencyStats}
    {latencies : PhaseLatencies} (hrun : runGarnet b c = .ok (some v))
    (hv : v.allPhaseLatenciesUs = some latencies) : c.params.clock ≠ 0 := by
  intro hclock
  unfold runGarnet at hrun
  simp only at hrun
  split_ifs at hrun
  · cases hrun
  · obtain ⟨stats, hstats, hrun⟩ := bind_eq_ok.mp hrun
    cases hrun
    unfold addRuntime at hstats
    split at hstats
    · cases hstats
      cases hv
    · rw [if_pos hclock] at hstats
      cases hstats

theorem compute_congr (b : Backend) {c c' : SimulationCall} (hparams : c.params = c'.params)
    (hinputs : c.trafficMatrices = c'.trafficMatrices) :
    (memo b).compute c = (memo b).compute c' := by
  unfold memo simulate runGarnet
  simp only [hparams, hinputs]

/-! ## A network simulator that tells two calls apart -/

/-- Latencies of one tick for all phases, or of two ticks if the matrices are the given ones. -/
def telling (inputs : List SimulatorInput) : Backend where
  garnet := fun _ l => ⟨some 1, .empty, Dict.comprehension (l.map Prod.snd) fun _ =>
    if l = inputs then 2 else 1⟩
  dsent := fun _ _ => true

theorem runGarnet_telling (inputs : List SimulatorInput) {c : SimulationCall} (h : Storable c) :
    ∃ v, runGarnet (telling inputs) c = .ok (some v) ∧ ∃ latencies,
      v.allPhaseLatenciesUs = some latencies ∧ ∀ id ∈ c.activePhasesInfo, latencies.get? id =
        some ((if c.trafficMatrices = inputs then 2 else 1) / c.params.clock * 10 ^ 6) := by
  obtain ⟨-, htraffic, hclock⟩ := h
  have hget : ∀ id ∈ c.activePhasesInfo, (Dict.comprehension c.activePhasesInfo fun _ =>
      if c.trafficMatrices = inputs then (2 : ℚ) else 1).get? id =
        some (if c.trafficMatrices = inputs then 2 else 1) := fun id hid => by
    rw [Dict.get?_comprehension, if_pos hid]
  have hkeys : (Dict.comprehension c.activePhasesInfo fun _ =>
      if c.trafficMatrices = inputs then (2 : ℚ) else 1).keys ≠ [] := by
    obtain ⟨input, hinput⟩ : ∃ input, input ∈ c.trafficMatrices := by
      refine List.exists_mem_of_ne_nil _ fun hnil => htraffic ?_
      rw [hnil]
      rfl
    exact List.ne_nil_of_mem (Dict.mem_of_get? (hget _ (List.mem_map_of_mem hinput)))
  refine ⟨_, runGarnet_eq rfl rfl hkeys hclock fun _ => rfl, _, rfl, fun id hid => ?_⟩
  rw [Dict.get?_mapValues]
  exact congrArg _ (hget id hid)

theorem ids_of_cacheKey {c c' : SimulationCall} (h : c.cacheKey = c'.cacheKey) :
    c.activePhasesInfo.Perm c'.activePhasesInfo := by
  have hsorted : c.activePhasesInfo.insertionSort idLe = c'.activePhasesInfo.insertionSort idLe :=
    congrArg CacheKey.activePhases h
  exact (List.perm_insertionSort idLe _).symm.trans
    (hsorted ▸ List.perm_insertionSort idLe c'.activePhasesInfo)

/-- What a call returns to `telling` its own matrices: two ticks, or zero without traffic. -/
theorem compute_telling {c : SimulationCall} (htype : c.params.simulatorType = .garnet)
    (hclock : c.params.clock ≠ 0) (hne : c.trafficMatrices ≠ []) :
    ∃ latencies, phaseLatencies ((memo (telling c.trafficMatrices)).compute c) =
      .ok (some latencies) ∧ ∀ id ∈ c.activePhasesInfo,
        latencies.get? id = some 0 ∨ latencies.get? id = some (2 / c.params.clock * 10 ^ 6) := by
  by_cases htraffic : Garnet.trafficData c.trafficMatrices = []
  · have hempty : c.trafficMatrices.isEmpty = false := by simpa using hne
    have hcompute : (memo (telling c.trafficMatrices)).compute c =
        .ok (some (zeroLatencies c.trafficMatrices)) := by
      unfold memo simulate
      simp only [hempty, htype, htraffic, List.isEmpty_nil, Bool.false_eq_true, if_false, if_true]
    refine ⟨_, by rw [hcompute]; rfl, fun id hid => Or.inl ?_⟩
    rw [Dict.get?_comprehension]
    exact if_pos hid
  · obtain ⟨v, hrun, latencies, hv, hlatencies⟩ :=
      runGarnet_telling c.trafficMatrices ⟨htype, htraffic, hclock⟩
    refine ⟨latencies, ?_, fun id hid => Or.inr ?_⟩
    · rw [(compute_store_of_run htype htraffic hrun).1, ← hv]
      rfl
    · rw [hlatencies id hid, if_pos rfl]

/-- Two calls that a transparent cache may confuse have the same matrices. -/
theorem trafficMatrices_eq_of_transparent {as bs : List SimulationCall} {a b : SimulationCall}
    {i : ℕ} (htrans : Transparent (as ++ a :: bs)) (hi : bs[i]? = some b) (ha : Storable a)
    (hkey : a.cacheKey = b.cacheKey) : a.trafficMatrices = b.trafficMatrices := by
  by_contra hne
  obtain ⟨v, hrun, latencies, hv, hlatencies⟩ := runGarnet_telling b.trafficMatrices ha
  obtain ⟨hcompute, hstore⟩ := compute_store_of_run ha.1 ha.2.1 hrun
  have hphases : phaseLatencies ((memo (telling b.trafficMatrices)).compute a) =
      .ok (some latencies) := by
    rw [hcompute, ← hv]
    rfl
  obtain ⟨id, hid⟩ : ∃ id, id ∈ a.activePhasesInfo := by
    refine List.exists_mem_of_ne_nil _ fun hnil => ha.2.1 ?_
    rw [List.map_eq_nil_iff.mp hnil]
    rfl
  -- every call with the key of `a` accepts latencies for the phases of `a`
  have haccept : ∀ w, phaseLatencies (.ok (some w)) = .ok (some latencies) → ∀ c,
      c.cacheKey = a.cacheKey → (!c.trafficMatrices.isEmpty && validCache c w) = true := by
    intro w hw c hc
    have hids := ids_of_cacheKey hc
    have hw : w.allPhaseLatenciesUs = some latencies := Except.ok.inj hw
    have hc : c.trafficMatrices ≠ [] := by
      intro hnil
      have hidc := hids.mem_iff.mpr hid
      unfold SimulationCall.activePhasesInfo at hidc
      simp [hnil] at hidc
    unfold validCache
    simp only [hw, Bool.and_eq_true, List.all_eq_true, decide_eq_true_eq]
    exact ⟨by simpa using hc, fun id hid =>
      Dict.mem_of_get? (hlatencies id (hids.mem_iff.mp hid))⟩
  have hresults := htrans (telling b.trafficMatrices)
  rw [results_on, results_off] at hresults
  have hsame := Memo.compute_eq_of_transparent phaseLatencies hresults ⟨v, hstore, hcompute.symm⟩
    (fun w hw c hc => haccept w (hw.trans hphases) c hc) hi hkey.symm
  -- `a` returns one tick where `b` returns two, or zero
  have hparams : a.params = b.params := congrArg CacheKey.systemParams hkey
  have hidb := (ids_of_cacheKey hkey).mem_iff.mp hid
  obtain ⟨latencies', hphases', hlatencies'⟩ := compute_telling (hparams ▸ ha.1)
    (hparams ▸ ha.2.2) (List.ne_nil_of_mem (List.exists_of_mem_map hidb).choose_spec.1)
  rw [hphases, hphases'] at hsame
  obtain rfl : latencies = latencies' := Option.some.inj (Except.ok.inj hsame)
  have hone := hlatencies id hid
  rw [if_neg hne] at hone
  have hclock : a.params.clock ≠ 0 := ha.2.2
  rcases hlatencies' id hidb with h | h <;> rw [hone, Option.some.injEq] at h
  · field_simp at h
    norm_num at h
  · rw [← hparams] at h
    field_simp at h
    norm_num at h

/-- **The cache is transparent** for a sequence of calls exactly if the keys tell the lists of
matrices apart. -/
theorem transparent_iff (calls : List SimulationCall) :
    Transparent calls ↔ calls.Pairwise fun a b =>
      Storable a → a.cacheKey = b.cacheKey → a.trafficMatrices = b.trafficMatrices := by
  constructor
  · intro htrans
    rw [List.pairwise_iff_getElem]
    intro i j hi hj hij ha hkey
    have hsplit : calls = calls.take i ++ calls[i] :: calls.drop (i + 1) := by
      rw [List.getElem_cons_drop, List.take_append_drop]
    rw [hsplit] at htrans
    refine trafficMatrices_eq_of_transparent (i := j - (i + 1)) htrans ?_ ha hkey
    rw [List.getElem?_drop, List.getElem?_eq_some_iff]
    exact ⟨by omega, by congr 1; omega⟩
  · intro hkeys b
    rw [results_on, results_off, Memo.answers_eq_map, List.map_map]
    · rfl
    · intro a ha v hget
      cases hget
    · refine hkeys.imp fun {a c} h v hstore hkey haccept => ?_
      obtain ⟨htype, htraffic, hrun⟩ := store_cases hstore
      obtain ⟨latencies, hv⟩ : ∃ latencies, v.allPhaseLatenciesUs = some latencies := by
        rw [← Option.isSome_iff_exists]
        cases hv : v.allPhaseLatenciesUs with
        | some latencies => rfl
        | none =>
          have hvalid := (Bool.and_eq_true _ _ ▸ haccept : _ ∧ validCache c v = true).2
          simp [validCache, hv] at hvalid
      have hclock := clock_ne_zero_of_run hrun hv
      have hinputs := h ⟨htype, htraffic, hclock⟩ hkey
      rw [← compute_congr b (congrArg CacheKey.systemParams hkey) hinputs]
      exact (compute_store_of_run htype htraffic hrun).1.symm

/-! ## Two calls with the same key -/

/-- Two phases, between which three flits there and one flit back are divided. -/
def dividedCall (first second : TrafficMatrix)
    (h : Garnet.Square 4 [(first, 0, 0, 1), (second, 0, 0, 2)]) : SimulationCall :=
  ⟨fourChiplets, "active", [(first, 0, 0, 1), (second, 0, 0, 2)], h⟩

/-- Three flits there. -/
def there : TrafficMatrix := [[0, 0, 0, 3], [0, 0, 0, 0], [0, 0, 0, 0], [0, 0, 0, 0]]

/-- One flit back. -/
def back : TrafficMatrix := [[0, 0, 0, 0], [0, 0, 0, 0], [0, 0, 0, 0], [1, 0, 0, 0]]

theorem square_there_back : Garnet.Square 4 [(there, 0, 0, 1), (back, 0, 0, 2)] := by
  unfold Garnet.Square
  decide

theorem square_back_there : Garnet.Square 4 [(back, 0, 0, 1), (there, 0, 0, 2)] := by
  unfold Garnet.Square
  decide

/-- The first phase sends there and the second one back, then the other way round. -/
def swappedCalls : List SimulationCall :=
  [dividedCall there back square_there_back, dividedCall back there square_back_there]

/-- A network that takes a million ticks for each flit of a phase. -/
def perFlit : Backend where
  garnet := fun _ l => ⟨some 4000000, .empty, .ofList (l.map fun input =>
    (input.2, ((input.1.map List.sum).sum : ℕ) * 1000000))⟩
  dsent := fun _ _ => true

/-- The latencies of a result. -/
def latencyEntries (r : Except PyError (Option PhaseLatencies)) : List ((ℕ × ℕ × ℕ) × ℚ) :=
  match r with
  | .ok (some latencies) => latencies.entries
  | _ => []

/-- **The second call returns the latencies of the first one**, whose matrices have the same
sum. -/
theorem swapped_phases_confused :
    (results perFlit true .empty swappedCalls).map latencyEntries =
      [[((0, 0, 1), 3), ((0, 0, 2), 1)], [((0, 0, 1), 3), ((0, 0, 2), 1)]] ∧
    (results perFlit false .empty swappedCalls).map latencyEntries =
      [[((0, 0, 1), 3), ((0, 0, 2), 1)], [((0, 0, 1), 1), ((0, 0, 2), 3)]] ∧
    ¬ Transparent swappedCalls := by
  have hon : (results perFlit true .empty swappedCalls).map latencyEntries =
      [[((0, 0, 1), 3), ((0, 0, 2), 1)], [((0, 0, 1), 3), ((0, 0, 2), 1)]] := by
    decide +kernel
  have hoff : (results perFlit false .empty swappedCalls).map latencyEntries =
      [[((0, 0, 1), 3), ((0, 0, 2), 1)], [((0, 0, 1), 1), ((0, 0, 2), 3)]] := by
    decide +kernel
  refine ⟨hon, hoff, fun htrans => ?_⟩
  rw [htrans perFlit, hoff] at hon
  exact absurd hon (by decide +kernel)

end CommunicationSimulator

end ChipSim
