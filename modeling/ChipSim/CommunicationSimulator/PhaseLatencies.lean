import ChipSim.CommunicationSimulator
import ChipSim.Garnet.PhaseLines

/-!
# The latencies of the phases

The ids of a phase travel from a traffic matrix through the rows of the trace, the flits, the
latencies of the flits that arrive and the printed statistics, back to the dictionary that a call of
the simulator returns. Within the limits of the registered statistics every phase with traffic comes
back, with the largest latency of its flits, and no other does.
-/

namespace ChipSim

open Lib

namespace Garnet

variable {arrivals : List (PhaseKey × ℕ)} {id : ℕ × ℕ × ℕ}

/-! ## Flits -/

theorem mem_injectionQueue {records : List NetworkTraceRecord} {key : PhaseKey} :
    key ∈ injectionQueue records ↔ ∃ r ∈ records, 0 < r.numFlits ∧ phaseKey r = key := by
  unfold injectionQueue
  simp only [bind_pure_comp, List.map_eq_map, List.mem_flatMap, List.mem_range, List.mem_map,
    List.mem_filter, decide_eq_true_eq]
  constructor
  · rintro ⟨_, ⟨i, -, rfl⟩, r, ⟨hr, hflits⟩, hkey⟩
    exact ⟨r, hr, by omega, hkey⟩
  · rintro ⟨r, hr, hflits, hkey⟩
    have hmax := le_foldl_max (·.numFlits) hr (0 : ℤ)
    exact ⟨_, ⟨0, by omega, rfl⟩, r, ⟨hr, by simpa using hflits⟩, hkey⟩

theorem mem_injectedFlits {numNis : ℕ} {records : List NetworkTraceRecord} {key : PhaseKey} :
    key ∈ injectedFlits numNis records ↔
      ∃ r ∈ records, (∃ ni < numNis, r.srcId = ni) ∧ 0 < r.numFlits ∧ phaseKey r = key := by
  unfold injectedFlits
  simp only [bind_pure_comp, List.map_eq_map, List.mem_flatMap, List.mem_map, List.mem_range,
    mem_injectionQueue, List.mem_filter, decide_eq_true_eq]
  constructor
  · rintro ⟨_, ⟨ni, hni, rfl⟩, r, ⟨hr, hsrc⟩, hflits⟩
    exact ⟨r, hr, ⟨ni, hni, hsrc⟩, hflits⟩
  · rintro ⟨r, hr, ⟨ni, hni, hsrc⟩, hflits⟩
    exact ⟨_, ⟨ni, hni, rfl⟩, r, ⟨hr, hsrc⟩, hflits⟩

theorem srcId_of_written {n : ℕ} {e : TrafficEntry} (h : Written e) (hsrc : e.src < n) :
    (remap (2 * n) (rowPacket e)).srcId = e.src := by
  unfold remap
  rw [if_neg (srcId_inRange h hsrc)]
  split_ifs <;> exact cInt_of_lt h.src

/-- A matrix has traffic. -/
def HasTraffic (input : SimulatorInput) : Prop := ∃ row ∈ input.1, ∃ v ∈ row, 0 < v

instance (input : SimulatorInput) : Decidable (HasTraffic input) :=
  inferInstanceAs (Decidable (∃ row ∈ input.1, ∃ v ∈ row, 0 < v))

/-- The phases with traffic are those of the entries. -/
theorem exists_entry_iff {inputs : List SimulatorInput} :
    (∃ e ∈ trafficData inputs, (e.networkIdx, e.inputIdx, e.phaseId) = id) ↔
      ∃ input ∈ inputs, HasTraffic input ∧ input.2 = id := by
  unfold trafficData matrixEntries HasTraffic
  simp only [List.mem_flatMap, List.mem_filterMap]
  constructor
  · rintro ⟨e, ⟨input, hinput, ⟨row, i⟩, hrow, ⟨v, j⟩, hcell, he⟩, rfl⟩
    split_ifs at he with hv
    cases he
    exact ⟨input, hinput, ⟨row, List.fst_mem_of_mem_zipIdx hrow, v,
      List.fst_mem_of_mem_zipIdx hcell, hv⟩, rfl⟩
  · rintro ⟨input, hinput, ⟨row, hrow, v, hv, hpos⟩, rfl⟩
    obtain ⟨i, hi⟩ := List.mem_iff_getElem?.mp hrow
    obtain ⟨j, hj⟩ := List.mem_iff_getElem?.mp hv
    exact ⟨_, ⟨input, hinput, ⟨row, i⟩, List.mk_mem_zipIdx_iff_getElem?.mpr hi, ⟨v, j⟩,
      List.mk_mem_zipIdx_iff_getElem?.mpr hj, if_pos hpos⟩, rfl⟩

/-- The flits carry the ids of the matrices with traffic. -/
theorem keyOf_mem_injectedFlits {n : ℕ} {inputs : List SimulatorInput} (hsquare : Square n inputs)
    (hwritten : ∀ e ∈ trafficData inputs, Written e) :
    keyOf id ∈ injectedFlits (2 * n) (expected (2 * n) (trafficData inputs)) ↔
      ∃ input ∈ inputs, HasTraffic input ∧ input.2 = id := by
  rw [mem_injectedFlits, ← exists_entry_iff]
  unfold expected
  simp only [List.mem_map, exists_exists_and_eq_and]
  refine exists_congr fun e => and_congr_right fun he => ?_
  have hbounds := bounds_of_square hsquare he
  obtain ⟨-, -, hflits, hnet, hinp, hphase⟩ := rowPacket_of_written (hwritten e he) hbounds.1
  have hsrc := srcId_of_written (hwritten e he) hbounds.1
  have hpos := flits_pos he
  unfold phaseKey keyOf
  rw [hsrc, hflits, hnet, hinp, hphase]
  constructor
  · rintro ⟨-, -, hkey⟩
    simpa [Prod.ext_iff] using hkey
  · rintro rfl
    exact ⟨⟨e.src, by omega, rfl⟩, by omega, rfl⟩

/-! ## Latencies -/

/-- The latencies of the flits of a phase, in the order of their arrival. -/
def latenciesOf (arrivals : List (PhaseKey × ℕ)) (key : PhaseKey) : List ℕ :=
  (arrivals.filter fun a => a.1 = key).map Prod.snd

/-- The largest latency of the flits of a phase. -/
def maxLatency (arrivals : List (PhaseKey × ℕ)) (id : ℕ × ℕ × ℕ) : ℕ :=
  (latenciesOf arrivals (keyOf id)).foldl max 0

theorem getD_foldl_addPhaseLatency (arrivals : List (PhaseKey × ℕ))
    (latencies : Dict PhaseKey (List ℕ)) (key : PhaseKey) :
    (arrivals.foldl addPhaseLatency latencies).getD key [] =
      latencies.getD key [] ++ latenciesOf arrivals key := by
  induction arrivals generalizing latencies with
  | nil => simp [latenciesOf]
  | cons a arrivals ih =>
    rw [List.foldl_cons, ih]
    unfold addPhaseLatency latenciesOf Dict.getD
    rw [Dict.get?_set]
    by_cases ha : a.1 = key
    · rw [if_pos ha.symm, List.filter_cons_of_pos (by simpa using ha), ha]
      simp
    · rw [if_neg fun h => ha h.symm, List.filter_cons_of_neg (by simpa using ha)]

theorem getD_packetPhaseLatencies (arrivals : List (PhaseKey × ℕ)) (key : PhaseKey) :
    (packetPhaseLatencies arrivals).getD key [] = latenciesOf arrivals key :=
  getD_foldl_addPhaseLatency arrivals .empty key

/-- A registered statistic is the largest latency. -/
theorem collateStats_eq (latencies : Dict PhaseKey (List ℕ)) {key : PhaseKey}
    (h : isRegistered key = true) :
    collateStats latencies key = (latencies.getD key []).foldl max 0 := by
  have hproj : collateStats latencies key = latencies.entries.foldl (fun t e =>
      if e.1 = key ∧ e.2 ≠ [] then e.2.foldl max 0 else t) 0 := by
    unfold collateStats
    refine (List.foldl_hom (fun stats : PhaseKey → ℕ => stats key) fun stats e => ?_).symm
    by_cases hkey : e.1 = key
    · rw [hkey, h]
      cases hlist : e.2 with
      | nil => simp
      | cons t ts => simp
    · rw [if_neg fun hpass => hkey hpass.1]
      split
      · rw [Function.update_of_ne fun h => hkey h.symm]
      · rfl
  rw [hproj]
  rcases foldl_overwrite (fun e : PhaseKey × List ℕ => e.1 = key ∧ e.2 ≠ [])
    (fun e => e.2.foldl max 0) latencies.entries 0 with ⟨e, he, ⟨rfl, hne⟩, hfold⟩ | ⟨hnone, hfold⟩
  · rw [hfold]
    have hget := Dict.mem_entries_iff.mp (show (e.1, e.2) ∈ latencies.entries from he)
    unfold Dict.getD
    rw [hget, Option.getD_some]
  · rw [hfold]
    unfold Dict.getD
    cases hget : latencies.get? key with
    | none => rfl
    | some l =>
      have hl : l = [] := by
        by_contra hne
        exact hnone _ (Dict.mem_entries_iff.mpr hget) ⟨rfl, hne⟩
      rw [hl]
      rfl

/-! ## The file of statistics -/

/-- The phases with a statistic. -/
def Registered (id : ℕ × ℕ × ℕ) : Prop :=
  id.1 < maxNetworks ∧ id.2.1 < maxInputs ∧ id.2.2 < maxPhases

instance (id : ℕ × ℕ × ℕ) : Decidable (Registered id) := inferInstanceAs (Decidable (_ ∧ _))

theorem mem_regStats : id ∈ regStats ↔ Registered id := by
  unfold regStats Registered
  simp only [List.mem_flatMap, List.mem_map, List.mem_range]
  constructor
  · rintro ⟨net, hnet, inp, hinp, phase, hphase, rfl⟩
    exact ⟨hnet, hinp, hphase⟩
  · rintro ⟨hnet, hinp, hphase⟩
    exact ⟨id.1, hnet, id.2.1, hinp, id.2.2, hphase, rfl⟩

theorem isRegistered_keyOf (h : Registered id) : isRegistered (keyOf id) = true := by
  obtain ⟨hnet, hinp, hphase⟩ := h
  unfold isRegistered keyOf
  simp only [decide_eq_true_eq]
  omega

theorem stat_eq_maxLatency (arrivals : List (PhaseKey × ℕ)) (h : Registered id) :
    collateStats (packetPhaseLatencies arrivals) (keyOf id) = maxLatency arrivals id := by
  rw [collateStats_eq _ (isRegistered_keyOf h), getD_packetPhaseLatencies]
  rfl

/-- Every line of a phase gives the largest latency of its flits. -/
theorem isPhaseLine_of_mem {line : String} (h : line ∈ phaseLines arrivals) :
    ∃ id, Registered id ∧ maxLatency arrivals id ≠ 0 ∧
      IsPhaseLine id (maxLatency arrivals id) line := by
  obtain ⟨id, hid, hline⟩ := List.mem_filterMap.mp h
  have hregistered := mem_regStats.mp hid
  rw [stat_eq_maxLatency arrivals hregistered] at hline
  exact ⟨id, hregistered, scalarPrint_eq_some hline⟩

/-- Every registered phase whose flits took time has a line. -/
theorem exists_phaseLine (hid : Registered id) (h : maxLatency arrivals id ≠ 0) :
    ∃ line ∈ phaseLines arrivals, IsPhaseLine id (maxLatency arrivals id) line := by
  obtain ⟨line, hline⟩ := scalarPrint_isSome (statName id) h
  rw [← stat_eq_maxLatency arrivals hid] at hline
  refine ⟨line, List.mem_filterMap.mpr ⟨id, mem_regStats.mpr hid, hline⟩, ?_⟩
  rw [stat_eq_maxLatency arrivals hid] at hline
  exact (scalarPrint_eq_some hline).2

/-- A line that is not of a phase and can be read. -/
structure OtherLine (line : String) : Prop where
  noPhase : contains (strip line) "system.ruby.network.phase_latency_" = false
  ticks : startsWith (strip line) "simTicks" = true → ∃ v, ticksValue (strip line) = .ok v
  averages : ∀ average ∈ averageStats, contains (strip line) average.1 = true →
    ∃ v, statValue (strip line) = .ok v

/-- The file holds the lines of the phases among others, one of which has the time. -/
structure StatsFile (arrivals : List (PhaseKey × ℕ)) (lines : List String) : Prop where
  phases : ∀ line ∈ phaseLines arrivals, line ∈ lines
  others : ∀ line ∈ lines, line ∈ phaseLines arrivals ∨ OtherLine line
  simTicks : ∃ line ∈ lines, OtherLine line ∧ startsWith (strip line) "simTicks" = true

theorem OtherLine.extractLine {line : String} (h : OtherLine line) (s : GarnetStats) :
    ∃ s', extractLine s line = .ok s' ∧ s'.allPhaseLatencies = s.allPhaseLatencies ∧
      (s.simTicks.isSome = true ∨ startsWith (strip line) "simTicks" = true →
        s'.simTicks.isSome = true) := by
  unfold Garnet.extractLine
  dsimp only
  split
  · next hticks =>
    obtain ⟨v, hv⟩ := h.ticks hticks
    rw [hv]
    exact ⟨_, rfl, rfl, fun _ => rfl⟩
  · next hticks =>
    have hkeep : s.simTicks.isSome = true ∨ startsWith (strip line) "simTicks" = true →
        s.simTicks.isSome = true := fun h => h.resolve_right hticks
    split
    · next average haverage =>
      have hcontains := List.find?_some haverage
      obtain ⟨v, hv⟩ := h.averages average (List.mem_of_find?_eq_some haverage) hcontains
      rw [hv]
      exact ⟨_, rfl, rfl, hkeep⟩
    · rw [if_neg (by rw [h.noPhase]; decide)]
      exact ⟨s, rfl, rfl, hkeep⟩

/-- What is read so far: some of the latencies, and all of them right. -/
def Sound (arrivals : List (PhaseKey × ℕ)) (s : GarnetStats) : Prop :=
  ∀ id v, s.allPhaseLatencies.get? id = some v →
    Registered id ∧ maxLatency arrivals id ≠ 0 ∧ v = maxLatency arrivals id

theorem StatsFile.step {lines : List String} (h : StatsFile arrivals lines) {line : String}
    (hline : line ∈ lines) {s : GarnetStats} (hs : Sound arrivals s) :
    ∃ s', extractLine s line = .ok s' ∧ Sound arrivals s' ∧
      (s.simTicks.isSome = true → s'.simTicks.isSome = true) ∧
      ∀ id, id ∈ s.allPhaseLatencies → id ∈ s'.allPhaseLatencies := by
  rcases h.others line hline with hphase | hother
  · obtain ⟨id, hid, hne, hisLine⟩ := isPhaseLine_of_mem hphase
    refine ⟨_, hisLine.extractLine s, fun id' v hv => ?_, fun hticks => hticks, fun id' hid' => ?_⟩
    · rw [Dict.get?_set] at hv
      split at hv
      · next heq =>
        cases hv
        rw [heq]
        exact ⟨hid, hne, rfl⟩
      · exact hs id' v hv
    · exact Dict.mem_set.mpr (Or.inr hid')
  · obtain ⟨s', hs', hphases, hticks⟩ := hother.extractLine s
    refine ⟨s', hs', fun id v hv => hs id v (hphases ▸ hv), fun h => hticks (Or.inl h), ?_⟩
    rw [hphases]
    exact fun id hid => hid

/-- **Reading the statistics** finds exactly the registered phases whose flits took time, each with
the largest latency of its flits. -/
theorem StatsFile.extractGarnetStats {lines : List String} (h : StatsFile arrivals lines) :
    ∃ simTicks, (extractGarnetStats lines).simTicks = some simTicks ∧
      ∀ id, (extractGarnetStats lines).allPhaseLatencies.get? id =
        if Registered id ∧ maxLatency arrivals id ≠ 0 then some (maxLatency arrivals id : ℚ)
        else none := by
  have hstart : Sound arrivals GarnetStats.empty := fun id v hv => by cases hv
  obtain ⟨s, hread, hsound⟩ := foldlM_total (Sound arrivals) hstart fun line hline s hs =>
    have ⟨s', hs', hsound, _⟩ := h.step hline hs
    ⟨s', hs', hsound⟩
  have hstats : Garnet.extractGarnetStats lines = s := by
    unfold Garnet.extractGarnetStats
    rw [hread]
  -- One pass reads the time, and one the latency of each phase; no later pass loses them.
  have hkeep : ∀ line ∈ lines, ∀ s s', Sound arrivals s → extractLine s line = .ok s' →
      Sound arrivals s' ∧ (s.simTicks.isSome = true → s'.simTicks.isSome = true) ∧
        ∀ id, id ∈ s.allPhaseLatencies → id ∈ s'.allPhaseLatencies := by
    intro line hline s s' hs hstep
    obtain ⟨t, ht, hpost⟩ := h.step hline hs
    rw [hstep] at ht
    cases ht
    exact hpost
  obtain ⟨line, hline, hother, hticksLine⟩ := h.simTicks
  have hticks : s.simTicks.isSome = true := by
    refine foldlM_establish (Sound arrivals) (fun s => s.simTicks.isSome = true) hread hstart
      (fun line hline s s' hs hstep =>
        have hpost := hkeep line hline s s' hs hstep
        ⟨hpost.1, hpost.2.1⟩) hline fun s s' _ hstep => ?_
    obtain ⟨t, ht, -, hpost⟩ := hother.extractLine s
    rw [hstep] at ht
    cases ht
    exact hpost (Or.inr hticksLine)
  obtain ⟨simTicks, hsimTicks⟩ := Option.isSome_iff_exists.mp hticks
  refine ⟨simTicks, by rw [hstats]; exact hsimTicks, fun id => ?_⟩
  rw [hstats]
  split
  · next hid =>
    obtain ⟨line, hline, hisLine⟩ := exists_phaseLine hid.1 hid.2
    have hmem : id ∈ s.allPhaseLatencies := by
      refine foldlM_establish (Sound arrivals) (fun s => id ∈ s.allPhaseLatencies) hread hstart
        (fun line hline s s' hs hstep =>
          have hpost := hkeep line hline s s' hs hstep
          ⟨hpost.1, hpost.2.2 id⟩) (h.phases line hline) fun s s' _ hstep => ?_
      rw [hisLine.extractLine] at hstep
      cases hstep
      exact Dict.mem_set.mpr (Or.inl rfl)
    obtain ⟨v, hv⟩ := Dict.mem_iff.mp hmem
    rw [hv, (hsound id v hv).2.2]
  · next hid =>
    refine Dict.get?_eq_none_iff.mpr fun hmem => hid ?_
    obtain ⟨v, hv⟩ := Dict.mem_iff.mp hmem
    exact ⟨(hsound id v hv).1, (hsound id v hv).2.1⟩

/-- The flits of a phase that were delivered took time. -/
theorem Delivers.maxLatency_ne_zero_iff {flits : List PhaseKey} (h : Delivers flits arrivals) :
    maxLatency arrivals id ≠ 0 ↔ keyOf id ∈ flits := by
  obtain ⟨-, hle, hmem⟩ := foldl_max_spec (latenciesOf arrivals (keyOf id)) 0
  rw [← h.perm.mem_iff]
  unfold maxLatency
  constructor
  · intro hne
    obtain ⟨a, ha, -⟩ := List.mem_map.mp ((List.mem_cons.mp hmem).resolve_left hne)
    obtain ⟨ha, hkey⟩ := List.mem_filter.mp ha
    exact List.mem_map.mpr ⟨a, ha, of_decide_eq_true hkey⟩
  · intro hkey
    obtain ⟨a, ha, hkey⟩ := List.mem_map.mp hkey
    have hlatency : a.2 ∈ latenciesOf arrivals (keyOf id) :=
      List.mem_map_of_mem (List.mem_filter.mpr ⟨ha, decide_eq_true hkey⟩)
    have := h.pos a ha
    have := hle a.2 hlatency
    omega

end Garnet

namespace CommunicationSimulator

open Garnet

/-- What is asked of the network simulator in a call: every injected flit is delivered after some
time, and every statistic that is not zero is printed. -/
structure Runs (b : Backend) (c : SimulationCall) (arrivals : List (PhaseKey × ℕ)) : Prop where
  delivers : ∀ records, readBack c.params.numChiplets c.trafficMatrices = some records →
    Delivers (injectedFlits (2 * c.params.numChiplets) records) arrivals
  prints : ∃ lines, StatsFile arrivals lines ∧
    b.garnet c.params c.trafficMatrices = extractGarnetStats lines

/-- The calls within the limits: there is traffic, of phases that have a statistic, and its numbers
fit the integers of the network simulator. -/
structure WithinLimits (b : Backend) (c : SimulationCall) : Prop where
  garnet : c.params.simulatorType = .garnet
  traffic : ∃ input ∈ c.trafficMatrices, HasTraffic input
  registered : ∀ input ∈ c.trafficMatrices, HasTraffic input → Registered input.2
  chiplets : c.params.numChiplets ≤ 2 ^ 31
  packets : totalPackets c.trafficMatrices < 2 ^ 31
  clock : c.params.clock ≠ 0
  dsent : c.params.enableDsent = true → b.dsent c.params c.trafficMatrices = true

theorem WithinLimits.written {b : Backend} {c : SimulationCall} (h : WithinLimits b c) :
    ∀ e ∈ trafficData c.trafficMatrices, Written e := by
  intro e he
  have hbounds := bounds_of_square c.square he
  have hchiplets := h.chiplets
  have hpackets := h.packets
  have hflits : e.flits ≤ totalPackets c.trafficMatrices := by
    rw [← sum_flits_trafficData]
    exact List.le_sum_of_mem (List.mem_map_of_mem he)
  obtain ⟨input, hinput, htraffic, hid⟩ := exists_entry_iff.mp ⟨e, he, rfl⟩
  obtain ⟨hnet, hinp, hphase⟩ := hid ▸ h.registered input hinput htraffic
  unfold maxNetworks at hnet
  unfold maxInputs at hinp
  unfold maxPhases at hphase
  dsimp only at hnet hinp hphase
  exact ⟨by omega, by omega, by omega, by omega, by omega, by omega⟩

/-- Without a result in the cache the simulation decides what is returned. -/
theorem simulateCommunication_fst_of_miss {b : Backend} {c : SimulationCall} {enableCache : Bool}
    {cache : Cache} (hne : c.trafficMatrices ≠ [])
    (hmiss : (if enableCache then cache.get? c.cacheKey else none).filter (validCache c) = none) :
    (simulateCommunication b enableCache c cache).1 = (simulate b c).1 := by
  unfold simulateCommunication
  rw [if_neg (by simpa using hne)]
  dsimp only
  rw [hmiss]
  dsimp only
  split <;> rfl

theorem simulate_fst_of_run {b : Backend} {c : SimulationCall} {stats : LatencyStats}
    (hgarnet : c.params.simulatorType = .garnet) (hdata : trafficData c.trafficMatrices ≠ [])
    (hrun : runGarnet b c = .ok (some stats)) : (simulate b c).1 = .ok (some stats) := by
  unfold simulate
  rw [hgarnet]
  dsimp only
  rw [if_neg (by simpa using hdata), hrun]

/-- **The latencies of the phases.** Within the limits, a call that finds no result in the cache
returns exactly the ids of the matrices with traffic, each with the largest latency of its flits in
microseconds. -/
theorem phaseLatencies_simulateCommunication {b : Backend} {c : SimulationCall}
    (h : WithinLimits b c) {arrivals : List (PhaseKey × ℕ)} (hruns : Runs b c arrivals)
    (enableCache : Bool) (cache : Cache)
    (hmiss : (if enableCache then cache.get? c.cacheKey else none).filter (validCache c) = none) :
    ∃ latencies, phaseLatencies (simulateCommunication b enableCache c cache).1 =
        .ok (some latencies) ∧
      (∀ id, id ∈ latencies.keys ↔ ∃ input ∈ c.trafficMatrices, HasTraffic input ∧ input.2 = id) ∧
      ∀ id us, latencies.get? id = some us →
        us = maxLatency arrivals id / c.params.clock * 10 ^ 6 := by
  have hwritten := h.written
  obtain ⟨input, hinput, htraffic⟩ := h.traffic
  have hdata : trafficData c.trafficMatrices ≠ [] := by
    obtain ⟨e, he, -⟩ := exists_entry_iff.mpr ⟨input, hinput, htraffic, rfl⟩
    exact List.ne_nil_of_mem he
  have hdelivers := hruns.delivers _ (readBack_eq fun e he => (hwritten e he).length_lt)
  have hphases : ∀ id, Registered id ∧ maxLatency arrivals id ≠ 0 ↔
      ∃ input ∈ c.trafficMatrices, HasTraffic input ∧ input.2 = id := by
    intro id
    rw [hdelivers.maxLatency_ne_zero_iff, keyOf_mem_injectedFlits c.square hwritten]
    refine and_iff_right_of_imp ?_
    rintro ⟨input, hinput, htraffic, rfl⟩
    exact h.registered input hinput htraffic
  obtain ⟨lines, hfile, hgarnet⟩ := hruns.prints
  obtain ⟨simTicks, hticks, hget⟩ := hfile.extractGarnetStats
  have hkeys : ∀ id, id ∈ (extractGarnetStats lines).allPhaseLatencies.keys ↔
      ∃ input ∈ c.trafficMatrices, HasTraffic input ∧ input.2 = id := by
    intro id
    rw [← hphases, ← Dict.mem_def, Dict.mem_iff]
    simp only [hget]
    split <;> simp_all
  have hrun := runGarnet_eq hgarnet hticks
    (List.ne_nil_of_mem ((hkeys input.2).mpr ⟨input, hinput, htraffic, rfl⟩)) h.clock h.dsent
  rw [simulateCommunication_fst_of_miss (List.ne_nil_of_mem hinput) hmiss,
    simulate_fst_of_run h.garnet hdata hrun]
  refine ⟨_, rfl, fun id => by rw [Dict.keys_mapValues, hkeys], fun id us hus => ?_⟩
  rw [Dict.get?_mapValues, hget] at hus
  split at hus
  · cases hus
    rfl
  · cases hus

/-! ## A network that delivers -/

/-- A network simulator that prints the time and the statistics of given arrivals. -/
def printing (arrivals : List (PhaseKey × ℕ)) : Backend where
  garnet := fun _ _ => extractGarnetStats ("simTicks 1000" :: phaseLines arrivals)
  dsent := fun _ _ => true

theorem otherLine_simTicks : OtherLine "simTicks 1000" where
  noPhase := by decide +kernel
  ticks := fun _ => ⟨1000, by decide +kernel⟩
  averages := fun _ _ _ => ⟨some 1000, by decide +kernel⟩

theorem runs_printing {c : SimulationCall} (flits : List PhaseKey)
    {arrivals : List (PhaseKey × ℕ)}
    (hflits : (readBack c.params.numChiplets c.trafficMatrices).map
      (injectedFlits (2 * c.params.numChiplets)) = some flits)
    (hdelivers : Delivers flits arrivals) : Runs (printing arrivals) c arrivals where
  delivers records hrecords := by
    rw [hrecords] at hflits
    cases hflits
    exact hdelivers
  prints := by
    have hticks : startsWith (strip "simTicks 1000") "simTicks" = true := by decide +kernel
    refine ⟨"simTicks 1000" :: phaseLines arrivals, ?_, ?_⟩
    · refine ⟨fun line hline => List.mem_cons_of_mem _ hline, fun line hline => ?_,
        ⟨_, List.mem_cons_self, otherLine_simTicks, hticks⟩⟩
      rcases List.mem_cons.mp hline with rfl | hphase
      · exact Or.inr otherLine_simTicks
      · exact Or.inl hphase
    · simp only [printing]

/-- Three flits from the second chiplet to the first one, of a given network. -/
def oneMatrix (networkIdx : ℕ) : SimulationCall where
  params := fourChiplets
  simulationType := "non-pipelined"
  trafficMatrices := [([[0, 0, 0, 0], [3, 0, 0, 0], [0, 0, 0, 0], [0, 0, 0, 0]], networkIdx, 2, 3)]
  square := by
    unfold Square
    simp [fourChiplets]

/-- The flits arrive after different times. -/
def threeArrivals (networkIdx : ℕ) : List (PhaseKey × ℕ) :=
  [((networkIdx, 2, 3), 5000), ((networkIdx, 2, 3), 7000), ((networkIdx, 2, 3), 6000)]

theorem phaseLatencies_oneMatrix :
    ∃ latencies, phaseLatencies
        (simulateCommunication (printing (threeArrivals 1)) false (oneMatrix 1) .empty).1 =
        .ok (some latencies) ∧
      (∀ id, id ∈ latencies.keys ↔ id = (1, 2, 3)) ∧
      ∀ id us, latencies.get? id = some us → us = maxLatency (threeArrivals 1) id / 10 ^ 6 := by
  have hlimits : WithinLimits (printing (threeArrivals 1)) (oneMatrix 1) :=
    { garnet := rfl
      traffic := by decide +kernel
      registered := by decide +kernel
      chiplets := by decide
      packets := by decide +kernel
      clock := by decide +kernel
      dsent := fun _ => rfl }
  have hruns : Runs (printing (threeArrivals 1)) (oneMatrix 1) (threeArrivals 1) :=
    runs_printing [(1, 2, 3), (1, 2, 3), (1, 2, 3)] (by decide +kernel)
      ⟨List.Perm.refl _, by decide⟩
  obtain ⟨latencies, hok, hkeys, hvalues⟩ := phaseLatencies_simulateCommunication hlimits hruns
    false .empty rfl
  refine ⟨latencies, hok, fun id => ?_, fun id us hus => ?_⟩
  · rw [hkeys]
    constructor
    · rintro ⟨input, hinput, -, rfl⟩
      rw [List.mem_singleton.mp hinput]
    · rintro rfl
      exact ⟨_, List.mem_singleton_self _, by decide +kernel, rfl⟩
  · rw [hvalues id us hus]
    have hclock : (oneMatrix 1).params.clock = 10 ^ 12 := by decide +kernel
    rw [hclock]
    ring

/-- A network with the id `20` has no statistic: nothing is returned for its phase. -/
theorem network_not_registered :
    Runs (printing (threeArrivals 20)) (oneMatrix 20) (threeArrivals 20) ∧
      (∃ input ∈ (oneMatrix 20).trafficMatrices, HasTraffic input ∧ input.2 = (20, 2, 3)) ∧
      phaseLatencies
        (simulateCommunication (printing (threeArrivals 20)) false (oneMatrix 20) .empty).1 =
        .ok none := by
  have hdelivers : Delivers [(20, 2, 3), (20, 2, 3), (20, 2, 3)] (threeArrivals 20) :=
    ⟨List.Perm.refl _, by decide⟩
  have hlines : phaseLines (threeArrivals 20) = [] := by
    refine List.eq_nil_iff_forall_not_mem.mpr fun line hline => ?_
    obtain ⟨id, hid, hne, -⟩ := isPhaseLine_of_mem hline
    have hkey := hdelivers.maxLatency_ne_zero_iff.mp hne
    have hnet : id.1 = 20 ∧ id.2.1 = 2 ∧ id.2.2 = 3 := by
      simp [keyOf, Prod.ext_iff] at hkey
      omega
    exact absurd hid.1 (by rw [hnet.1]; decide)
  refine ⟨runs_printing _ (by decide +kernel) hdelivers, ⟨_, List.mem_singleton_self _,
    by decide +kernel, rfl⟩, ?_⟩
  have hnone : (phaseLatencies (simulateCommunication (printing (threeArrivals 20)) false
      (oneMatrix 20) .empty).1).toOption.map Option.isNone = some true := by
    unfold printing
    rw [hlines]
    decide +kernel
  obtain ⟨none | latencies, hok, hisNone⟩ := Option.map_eq_some_iff.mp hnone
  · exact toOption_eq_some.mp hok
  · cases hisNone

end CommunicationSimulator

end ChipSim
