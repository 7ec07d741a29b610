import ChipSim.Thermal.Package
import Mathlib.Data.List.GetD

/-!
# Chunked transient solving

Long power traces are handed to the native solver in chunks: each chunk starts from the last
temperatures of the one before, and its first row is dropped when the chunks are put together. The
native solver is compiled code, so it is a parameter here. When it fills a row from the row before
it and from the power of that step alone, the chunks put together are the temperatures of a single
call, and they are returned whenever the guards of the package let the call through.
-/

namespace ChipSim

namespace Thermal

variable {n : ℕ}

/-- `chiplet_ode_c` on the matrix and the capacitances of a package: the rows of temperatures it is
given and the rows of power, `total_duration`, `time_step` and `power_interval`. The rows of
temperatures are filled in place. -/
abbrev ChipletOde (n : ℕ) :=
  List (Fin n → ℚ) → List (Fin n → ℚ) → ℚ → ℚ → ℚ → List (Fin n → ℚ)

/-- The power as the native solver gets it: the last row is repeated up to `output_rows` rows. -/
def padPower (power : List (Fin n → ℚ)) (outputRows : ℕ) : List (Fin n → ℚ) :=
  if power.length < outputRows then
    let padRows := outputRows - power.length
    power ++ power.getLast?.toList.flatMap (List.replicate padRows)
  else power

/-- `_call_native_solver`. -/
def callNativeSolver (chipletOde : ChipletOde n) (power : List (Fin n → ℚ)) (outputRows : ℕ)
    (initialTemperature : Fin n → ℚ) (totalDuration dt powerInterval : ℚ) : List (Fin n → ℚ) :=
  let temperatureAll := initialTemperature :: List.replicate (outputRows - 1) 0
  chipletOde temperatureAll (padPower power outputRows) totalDuration dt powerInterval

/-- `range(0, total_steps, max_native_steps)`. -/
def chunkStarts (totalSteps maxNativeSteps : ℕ) : List ℕ :=
  (List.range ((totalSteps + maxNativeSteps - 1) / maxNativeSteps)).map (· * maxNativeSteps)

/-- The segments stitched so far and the temperatures that the next chunk starts from. -/
structure ChunkState (n : ℕ) where
  stitchedSegments : List (List (Fin n → ℚ))
  initialTemperature : Fin n → ℚ

/-- One pass of the loop over the chunks. -/
def solveChunk (chipletOde : ChipletOde n) (power : List (Fin n → ℚ)) (dt powerInterval : ℚ)
    (maxNativeSteps : ℕ) (s : ChunkState n) (start : ℕ) : ChunkState n :=
  let stop := min (start + maxNativeSteps) power.length
  let segmentPower := (power.take stop).drop start
  let segmentSteps := stop - start
  let solved := callNativeSolver chipletOde segmentPower (segmentSteps + 1) s.initialTemperature
    (segmentSteps * dt) dt powerInterval
  let segmentTemperature := solved.map (· + (s.initialTemperature - solved.headD 0))
  { stitchedSegments := s.stitchedSegments ++
      [if s.stitchedSegments.isEmpty then segmentTemperature else segmentTemperature.tail]
    initialTemperature := segmentTemperature.getLastD 0 }

/-- `_run_transient_chunked`: the temperatures above the surroundings, the initial ones first.
`np.vstack` needs a segment. -/
def runTransientChunked (chipletOde : ChipletOde n) (power : List (Fin n → ℚ))
    (dt powerInterval : ℚ) (maxNativeSteps : ℕ) : Except PyError (List (Fin n → ℚ)) :=
  if ¬ isClose dt powerInterval then
    .error (.valueError ("Chunked thermal solving requires time_step and power_interval to " ++
      s!"match; got time_step={dt} and power_interval={powerInterval}. " ++
      "Set --max_native_steps 0 to use the unchunked native solver."))
  else
    let s := (chunkStarts power.length maxNativeSteps).foldl
      (solveChunk chipletOde power dt powerInterval maxNativeSteps) ⟨[], 0⟩
    if s.stitchedSegments.isEmpty then
      .error (.valueError "need at least one array to concatenate")
    else .ok s.stitchedSegments.flatten

/-- What is asked of the native solver: it keeps row `0` and fills row `k + 1` from row `k` and
row `k` of the power by one step function. -/
structure FillsRows (chipletOde : ChipletOde n) (dt powerInterval : ℚ)
    (step : (Fin n → ℚ) → (Fin n → ℚ) → Fin n → ℚ) : Prop where
  length_eq : ∀ rows power totalDuration,
    (chipletOde rows power totalDuration dt powerInterval).length = rows.length
  head_eq : ∀ rows power totalDuration,
    (chipletOde rows power totalDuration dt powerInterval)[0]? = rows[0]?
  succ_eq : ∀ rows power totalDuration k row p,
    k + 1 < rows.length → (chipletOde rows power totalDuration dt powerInterval)[k]? = some row →
    power[k]? = some p →
    (chipletOde rows power totalDuration dt powerInterval)[k + 1]? = some (step row p)

/-! ## One call -/

theorem prefix_padPower (power : List (Fin n → ℚ)) (outputRows : ℕ) :
    power <+: padPower power outputRows := by
  unfold padPower
  split
  · exact List.prefix_append _ _
  · exact List.prefix_refl _

section Calls

variable {chipletOde : ChipletOde n} {dt powerInterval : ℚ}
  {step : (Fin n → ℚ) → (Fin n → ℚ) → Fin n → ℚ}

/-- A call with a row for each row of power steps through the power. -/
theorem FillsRows.callNativeSolver_eq (h : FillsRows chipletOde dt powerInterval step)
    (power : List (Fin n → ℚ)) (initial : Fin n → ℚ) (totalDuration : ℚ) :
    callNativeSolver chipletOde power (power.length + 1) initial totalDuration dt powerInterval =
      power.scanl step initial := by
  unfold callNativeSolver
  dsimp only
  set rows := initial :: List.replicate (power.length + 1 - 1) 0 with hrows
  set solved := chipletOde rows (padPower power (power.length + 1)) totalDuration dt powerInterval
    with hsolved
  have hlen : rows.length = power.length + 1 := by simp [hrows]
  -- Row by row: the power of a step is the row itself, the repeated last row is not read.
  have hrow : ∀ k ≤ power.length, solved[k]? = (power.scanl step initial)[k]? := by
    intro k hk
    induction k with
    | zero => rw [hsolved, h.head_eq, hrows, List.getElem?_cons_zero, List.getElem?_scanl_zero]
    | succ k ih =>
      have hk' : k < power.length := hk
      have hscan : k < (power.scanl step initial).length := by rw [List.length_scanl]; omega
      have hrowk : solved[k]? = some (power.scanl step initial)[k] := by
        rw [ih hk'.le, List.getElem?_eq_getElem hscan]
      have hp : (padPower power (power.length + 1))[k]? = some power[k] :=
        List.prefix_iff_getElem?.mp (prefix_padPower power _) k hk'
      rw [hsolved, h.succ_eq rows _ totalDuration k _ _ (by omega) hrowk hp,
        List.getElem?_succ_scanl, ← ih hk'.le, hrowk, List.getElem?_eq_getElem hk']
      rfl
  refine List.ext_getElem? fun k => ?_
  by_cases hk : k ≤ power.length
  · exact hrow k hk
  · have hout : power.length + 1 ≤ k := by omega
    have hsolvedLen : solved.length = power.length + 1 := by rw [hsolved, h.length_eq, hlen]
    rw [List.getElem?_eq_none (by omega),
      List.getElem?_eq_none (by rw [List.length_scanl]; exact hout)]

/-! ## The chunks -/

/-- The first `k` chunks are solved: together their segments are the rows that the power of these
chunks gives, and the next chunk starts from the last of them. -/
structure ChunksSolved (step : (Fin n → ℚ) → (Fin n → ℚ) → Fin n → ℚ)
    (power : List (Fin n → ℚ)) (s : ChunkState n) : Prop where
  segments : s.stitchedSegments ≠ [] → s.stitchedSegments.flatten = power.scanl step 0
  first : s.stitchedSegments = [] → power = []
  initial : s.initialTemperature = power.foldl step 0

/-- One chunk carries the temperatures on over its slice of the power. -/
theorem FillsRows.solveChunk_solved (h : FillsRows chipletOde dt powerInterval step)
    {power : List (Fin n → ℚ)} {maxNativeSteps start : ℕ} {s : ChunkState n}
    (hstart : start ≤ power.length) (hs : ChunksSolved step (power.take start) s) :
    ChunksSolved step (power.take (start + maxNativeSteps))
      (solveChunk chipletOde power dt powerInterval maxNativeSteps s start) := by
  set segment := (power.drop start).take maxNativeSteps with hsegment
  have hslice : (power.take (min (start + maxNativeSteps) power.length)).drop start = segment := by
    rw [hsegment, ← List.take_take, List.take_length, List.drop_take, Nat.add_sub_cancel_left]
  have hsteps : min (start + maxNativeSteps) power.length - start = segment.length := by
    rw [hsegment, List.length_take, List.length_drop]
    omega
  have hpower : power.take (start + maxNativeSteps) = power.take start ++ segment := List.take_add
  have hsolved := h.callNativeSolver_eq segment s.initialTemperature (segment.length * dt)
  -- The solver keeps the first row, so the correction of the segment adds nothing.
  have hsame : (segment.scanl step s.initialTemperature).map
      (· + (s.initialTemperature - (segment.scanl step s.initialTemperature).headD 0)) =
      segment.scanl step s.initialTemperature := by
    rw [List.headD_eq_head?_getD, List.head?_scanl, Option.getD_some, sub_self]
    simp
  unfold solveChunk
  dsimp only
  rw [hslice, hsteps, hsolved, hsame]
  refine ⟨fun _ => ?_, fun hnil => ?_, ?_⟩
  · rw [hpower, List.scanl_append, ← hs.initial, List.flatten_append, List.flatten_singleton]
    by_cases hfirst : s.stitchedSegments = []
    · have hnone := hs.first hfirst
      have hinitial : s.initialTemperature = 0 := by rw [hs.initial, hnone, List.foldl_nil]
      rw [hfirst, hnone, hinitial, List.isEmpty_nil, if_pos rfl, List.flatten_nil, List.nil_append,
        List.scanl_nil]
      cases segment with
      | nil => rw [List.scanl_nil, List.tail_cons, List.append_nil]
      | cons p rest => rw [List.scanl_cons, List.tail_cons, List.singleton_append]
    · rw [if_neg (by rwa [List.isEmpty_iff]), hs.segments hfirst]
  · exact absurd hnil (List.append_ne_nil_of_right_ne_nil _ (List.cons_ne_nil _ _))
  · rw [hpower, List.foldl_append, ← hs.initial, List.getLastD_eq_getLast?, List.getLast?_scanl,
      Option.getD_some]

/-- The loop over the first chunks. -/
theorem FillsRows.chunks_solved (h : FillsRows chipletOde dt powerInterval step)
    (power : List (Fin n → ℚ)) {maxNativeSteps : ℕ} (hmax : 1 ≤ maxNativeSteps) (c : ℕ)
    (hc : c ≤ (power.length + maxNativeSteps - 1) / maxNativeSteps) :
    ChunksSolved step (power.take (c * maxNativeSteps))
      (((List.range c).map (· * maxNativeSteps)).foldl
        (solveChunk chipletOde power dt powerInterval maxNativeSteps) ⟨[], 0⟩) := by
  induction c with
  | zero => exact ⟨fun hne => absurd rfl hne, fun _ => by simp, by simp⟩
  | succ c ih =>
    have hstart : c * maxNativeSteps ≤ power.length := by
      have := (Nat.le_div_iff_mul_le hmax).mp hc
      rw [Nat.succ_mul] at this
      omega
    rw [List.range_succ, List.map_append, List.foldl_append, Nat.succ_mul]
    exact h.solveChunk_solved hstart (ih (Nat.le_of_succ_le hc))

/-- There is one segment for each chunk. -/
theorem length_stitchedSegments (chipletOde : ChipletOde n) (power : List (Fin n → ℚ))
    (dt powerInterval : ℚ) (maxNativeSteps : ℕ) (starts : List ℕ) (s : ChunkState n) :
    (starts.foldl (solveChunk chipletOde power dt powerInterval maxNativeSteps)
      s).stitchedSegments.length = s.stitchedSegments.length + starts.length := by
  induction starts generalizing s with
  | nil => rfl
  | cons start starts ih =>
    rw [List.foldl_cons, ih, List.length_cons]
    unfold solveChunk
    rw [List.length_append, List.length_singleton]
    omega

theorem length_chunkStarts_eq_zero_iff {totalSteps maxNativeSteps : ℕ} (hmax : 1 ≤ maxNativeSteps) :
    (chunkStarts totalSteps maxNativeSteps).length = 0 ↔ totalSteps = 0 := by
  unfold chunkStarts
  rw [List.length_map, List.length_range, Nat.div_eq_zero_iff]
  omega

/-- The chunks reach the end of the power. -/
theorem length_le_chunks (totalSteps : ℕ) {maxNativeSteps : ℕ} (hmax : 1 ≤ maxNativeSteps) :
    totalSteps ≤ (totalSteps + maxNativeSteps - 1) / maxNativeSteps * maxNativeSteps := by
  have := Nat.lt_div_mul_add (a := totalSteps + maxNativeSteps - 1) hmax
  omega

theorem stitchedSegments_eq_nil_iff (chipletOde : ChipletOde n) (power : List (Fin n → ℚ))
    (dt powerInterval : ℚ) {maxNativeSteps : ℕ} (hmax : 1 ≤ maxNativeSteps) :
    ((chunkStarts power.length maxNativeSteps).foldl
      (solveChunk chipletOde power dt powerInterval maxNativeSteps) ⟨[], 0⟩).stitchedSegments = [] ↔
      power = [] := by
  rw [← List.length_eq_zero_iff, length_stitchedSegments, List.length_nil, Nat.zero_add,
    length_chunkStarts_eq_zero_iff hmax, List.length_eq_zero_iff]

/-- The chunked solver in terms of the step function of the native one. -/
theorem FillsRows.runTransientChunked_eq (h : FillsRows chipletOde dt powerInterval step)
    (hclose : isClose dt powerInterval) {power : List (Fin n → ℚ)} (hpower : power ≠ [])
    {maxNativeSteps : ℕ} (hmax : 1 ≤ maxNativeSteps) :
    runTransientChunked chipletOde power dt powerInterval maxNativeSteps =
      .ok (power.scanl step 0) := by
  have hsolved := h.chunks_solved power hmax _ le_rfl
  rw [List.take_of_length_le (length_le_chunks _ hmax)] at hsolved
  have hne := mt (stitchedSegments_eq_nil_iff chipletOde power dt powerInterval hmax).mp hpower
  unfold runTransientChunked
  dsimp only
  rw [if_neg (not_not.mpr hclose), if_neg (mt List.isEmpty_iff.mp hne)]
  exact congrArg Except.ok (hsolved.segments hne)

/-- **Solving in chunks.** For a native solver that fills its rows one step at a time, whatever the
power and the size of the chunks, the chunks put together are the rows of a single call; they are
returned exactly for a `time_step` that matches `power_interval` and at least one row of power. -/
theorem runTransientChunked_eq_call (h : FillsRows chipletOde dt powerInterval step)
    (power : List (Fin n → ℚ)) {maxNativeSteps : ℕ} (hmax : 1 ≤ maxNativeSteps) :
    (∀ temperatures,
      runTransientChunked chipletOde power dt powerInterval maxNativeSteps = .ok temperatures →
      ∀ totalDuration, temperatures = callNativeSolver chipletOde power (power.length + 1) 0
        totalDuration dt powerInterval) ∧
    ((∃ temperatures,
      runTransientChunked chipletOde power dt powerInterval maxNativeSteps = .ok temperatures) ↔
      isClose dt powerInterval ∧ power ≠ []) := by
  have hguards : ∀ temperatures,
      runTransientChunked chipletOde power dt powerInterval maxNativeSteps = .ok temperatures →
      isClose dt powerInterval ∧ power ≠ [] := by
    intro temperatures hok
    unfold runTransientChunked at hok
    dsimp only at hok
    split at hok
    · cases hok
    · rename_i hclose
      split at hok
      · cases hok
      · rename_i hne
        rw [List.isEmpty_iff,
          stitchedSegments_eq_nil_iff chipletOde power dt powerInterval hmax] at hne
        exact ⟨not_not.mp hclose, hne⟩
  refine ⟨fun temperatures hok totalDuration => ?_, fun ⟨_, hok⟩ => hguards _ hok,
    fun ⟨hclose, hpower⟩ => ⟨_, h.runTransientChunked_eq hclose hpower hmax⟩⟩
  obtain ⟨hclose, hpower⟩ := hguards temperatures hok
  rw [h.runTransientChunked_eq hclose hpower hmax] at hok
  cases hok
  exact (h.callNativeSolver_eq power 0 totalDuration).symm

end Calls

/-! ## Solvers that fill their rows -/

/-- The rows after `row`, each filled from the one before it while there is power. -/
def stepRows (step : (Fin n → ℚ) → (Fin n → ℚ) → Fin n → ℚ) :
    (Fin n → ℚ) → List (Fin n → ℚ) → List (Fin n → ℚ) → List (Fin n → ℚ)
  | row, [], _ => [row]
  | row, next :: rest, [] => row :: stepRows step next rest []
  | row, _ :: rest, p :: power => row :: stepRows step (step row p) rest power

/-- The solver that takes the steps of `step`. -/
def steppingOde (step : (Fin n → ℚ) → (Fin n → ℚ) → Fin n → ℚ) : ChipletOde n
  | [], _, _, _, _ => []
  | row :: rest, power, _, _, _ => stepRows step row rest power

section Stepping

variable {step : (Fin n → ℚ) → (Fin n → ℚ) → Fin n → ℚ}

theorem length_stepRows (row : Fin n → ℚ) (rest power : List (Fin n → ℚ)) :
    (stepRows step row rest power).length = rest.length + 1 := by
  fun_induction stepRows with
  | case1 => rfl
  | case2 _ _ _ ih => rw [List.length_cons, ih, List.length_cons]
  | case3 _ _ _ _ _ ih => rw [List.length_cons, ih, List.length_cons]

theorem stepRows_zero (row : Fin n → ℚ) (rest power : List (Fin n → ℚ)) :
    (stepRows step row rest power)[0]? = some row := by
  fun_cases stepRows <;> rfl

theorem stepRows_succ (row : Fin n → ℚ) (rest power : List (Fin n → ℚ)) (k : ℕ)
    {rowk p : Fin n → ℚ} (hk : k < rest.length)
    (hrow : (stepRows step row rest power)[k]? = some rowk) (hp : power[k]? = some p) :
    (stepRows step row rest power)[k + 1]? = some (step rowk p) := by
  induction k generalizing row rest power with
  | zero =>
    rw [stepRows_zero] at hrow
    cases hrow
    cases rest with
    | nil => cases hk
    | cons next rest =>
      cases power with
      | nil => cases hp
      | cons q power =>
        cases hp
        exact stepRows_zero _ rest power
  | succ k ih =>
    cases rest with
    | nil => cases hk
    | cons next rest =>
      cases power with
      | nil => cases hp
      | cons q power => exact ih _ rest power (Nat.lt_of_succ_lt_succ hk) hrow hp

/-- Every step function is that of some solver. -/
theorem steppingOde_fillsRows (step : (Fin n → ℚ) → (Fin n → ℚ) → Fin n → ℚ)
    (dt powerInterval : ℚ) :
    FillsRows (steppingOde step) dt powerInterval step where
  length_eq rows power _ := by
    cases rows with
    | nil => rfl
    | cons row rest => exact length_stepRows row rest power
  head_eq rows power _ := by
    cases rows with
    | nil => rfl
    | cons row rest => exact stepRows_zero row rest power
  succ_eq rows power _ k rowk p hk hrow hp := by
    cases rows with
    | nil => cases hrow
    | cons row rest => exact stepRows_succ row rest power k (Nat.lt_of_succ_lt_succ hk) hrow hp

/-- Two nodes, three rows of power and chunks of two steps. -/
theorem runTransientChunked_eq_call_threeSteps :
    callNativeSolver (steppingOde fun row p => row + p)
        [![1, 0], ![2, 1], ![0, (3 : ℚ)]] 4 0 (3 / 100) (1 / 100) (1 / 100) =
        [![0, 0], ![1, 0], ![3, 1], ![3, 4]] ∧
      runTransientChunked (steppingOde fun row p => row + p)
        [![1, 0], ![2, 1], ![0, (3 : ℚ)]] (1 / 100) (1 / 100) 2 =
        .ok [![0, 0], ![1, 0], ![3, 1], ![3, 4]] := by
  have hcall : callNativeSolver (steppingOde fun row p => row + p)
      [![1, 0], ![2, 1], ![0, (3 : ℚ)]] 4 0 (3 / 100) (1 / 100) (1 / 100) =
      [![0, 0], ![1, 0], ![3, 1], ![3, 4]] := by decide +kernel
  have hspec := runTransientChunked_eq_call
    (steppingOde_fillsRows (fun row p => row + p) (1 / 100) (1 / 100))
    [![1, 0], ![2, 1], ![0, (3 : ℚ)]] (by decide : 1 ≤ 2)
  obtain ⟨temperatures, hrun⟩ := hspec.2.mpr ⟨by decide +kernel, List.cons_ne_nil _ _⟩
  exact ⟨hcall, by rw [hrun, hspec.1 temperatures hrun (3 / 100)]; exact congrArg Except.ok hcall⟩

end Stepping

end Thermal

end ChipSim
