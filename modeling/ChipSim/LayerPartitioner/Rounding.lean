import Mathlib.Algebra.Order.BigOperators.Group.List
import ChipSim.Lib.Lists
import ChipSim.LayerPartitioner

/-!
# Exact partitions

Every chunk has at least one output channel, before and after the rounding errors are adjusted. So
the chunks add up to the channels of the layer, or to one channel for every chunk when the layer
has fewer.
-/

namespace ChipSim

open Lib

namespace LayerPartitioner

variable {chunks : List (ℕ × PartitionedLayer)}

/-- The output channels of all chunks. -/
def channels (chunks : List (ℕ × PartitionedLayer)) : List ℤ := chunks.map (·.2.outputChannels)

@[simp] theorem length_channels : (channels chunks).length = chunks.length := List.length_map _

/-! ## Changing one chunk -/

@[simp] theorem channels_setChannels (chunks : List (ℕ × PartitionedLayer)) (idx : ℕ) (v : ℤ) :
    channels (setChannels chunks idx v) = (channels chunks).set idx v := by
  refine List.ext_getElem? fun i => ?_
  unfold channels setChannels
  rw [List.getElem?_map, List.getElem?_modify, List.getElem?_set, List.getElem?_map]
  by_cases h : idx = i
  · subst h
    cases hi : chunks[idx]? with
    | none =>
      rw [List.getElem?_eq_none_iff] at hi
      simp [hi]
    | some c =>
      have hlt := (List.getElem?_eq_some_iff.mp hi).1
      simp [hlt]
  · simp [h]

@[simp] theorem ids_setChannels (chunks : List (ℕ × PartitionedLayer)) (idx : ℕ) (v : ℤ) :
    (setChannels chunks idx v).map Prod.fst = chunks.map Prod.fst := by
  refine List.ext_getElem? fun i => ?_
  unfold setChannels
  rw [List.getElem?_map, List.getElem?_modify, List.getElem?_map]
  cases chunks[i]? with
  | none => simp
  | some c =>
    by_cases h : idx = i
    · simp [h]
    · simp [h]

/-- All chunks keep at least one channel. -/
theorem one_le_set {cs : List ℤ} (h : ∀ c ∈ cs, 1 ≤ c) {v : ℤ} (hv : 1 ≤ v) (idx : ℕ) :
    ∀ c ∈ cs.set idx v, 1 ≤ c := by
  intro c hc
  rcases List.mem_or_eq_of_mem_set hc with hc | rfl
  · exact h c hc
  · exact hv

/-- Chunks with at least one channel each have at least as many channels as there are chunks. -/
theorem length_le_sum {cs : List ℤ} (h : ∀ c ∈ cs, 1 ≤ c) : (cs.length : ℤ) ≤ cs.sum := by
  have hle := List.card_nsmul_le_sum cs 1 h
  simpa using hle

/-! ## The smallest and the largest chunk -/

theorem getElem?_of_smallestChunk {cs : List ℤ} {i : ℕ} {v : ℤ}
    (h : smallestChunk cs = some (i, v)) : cs[i]? = some v := by
  refine List.foldlRecOn (motive := fun best : Option (ℕ × ℤ) =>
    ∀ i v, best = some (i, v) → cs[i]? = some v) cs.zipIdx _ ?_ ?_ i v h
  · intro i v heq
    cases heq
  · intro best hbest e he i v heq
    have hget : cs[e.2]? = some e.1 := List.mem_zipIdx_iff_getElem?.mp he
    split at heq
    · cases heq
      exact hget
    · split at heq
      · cases heq
        exact hget
      · exact hbest i v heq

theorem getElem?_of_largestChunk {cs : List ℤ} {i : ℕ} {v : ℤ}
    (h : largestChunk cs = some (i, v)) : cs[i]? = some v := by
  refine List.foldlRecOn (motive := fun best : Option (ℕ × ℤ) =>
    ∀ i v, best = some (i, v) → cs[i]? = some v) cs.zipIdx _ ?_ ?_ i v h
  · intro i v heq
    cases heq
  · intro best hbest e he i v heq
    split at heq
    · cases heq
      exact List.mem_zipIdx_iff_getElem?.mp he
    · exact hbest i v heq

/-- A loop that has chosen a chunk has chosen one at the end. -/
theorem foldl_ne_none {α β : Type} {f : Option β → α → Option β} (l : List α)
    (step : ∀ b a, f (some b) a ≠ none) (b : β) : l.foldl f (some b) ≠ none := by
  induction l generalizing b with
  | nil => exact Option.some_ne_none b
  | cons a l ih =>
    rw [List.foldl_cons]
    cases h : f (some b) a with
    | none => exact absurd h (step b a)
    | some b' => exact ih b'

theorem smallestChunk_ne_none {cs : List ℤ} (h : cs ≠ []) : smallestChunk cs ≠ none := by
  cases cs with
  | nil => exact absurd rfl h
  | cons c cs =>
    refine foldl_ne_none _ (fun b e => ?_) (0, c)
    dsimp only
    split <;> exact Option.some_ne_none _

theorem largestChunk_ne_none {cs : List ℤ} (h : cs ≠ []) (hpos : ∀ c ∈ cs, 1 ≤ c) :
    largestChunk cs ≠ none := by
  cases cs with
  | nil => exact absurd rfl h
  | cons c cs =>
    have hc : (0 : ℤ) < c := hpos c List.mem_cons_self
    unfold largestChunk
    rw [List.zipIdx_cons, List.foldl_cons, if_pos (by simpa using hc)]
    refine foldl_ne_none _ (fun b e => ?_) (0, c)
    split <;> exact Option.some_ne_none _

/-! ## The other chunks -/

/-- One pass of the loop over the other chunks. -/
def reduceChunk (acc : List (ℕ × PartitionedLayer) × ℤ) (e : ℕ × ℤ) :
    List (ℕ × PartitionedLayer) × ℤ :=
  let canReduce := min (e.2 - 1) |acc.2|
  if acc.2 ≠ 0 ∧ 0 < canReduce then
    (setChannels acc.1 e.1 (e.2 - canReduce), acc.2 + canReduce)
  else acc

/-- The state of the loop that takes what is left from the chunks in `pending`. -/
structure Reducing (ids : List ℕ) (total : ℤ) (pending : List (ℕ × ℤ))
    (acc : List (ℕ × PartitionedLayer) × ℤ) : Prop where
  chiplets : acc.1.map Prod.fst = ids
  one_le : ∀ c ∈ channels acc.1, 1 ≤ c
  sum : (channels acc.1).sum + acc.2 = total
  nonpos : acc.2 ≤ 0
  untouched : ∀ e ∈ pending, (channels acc.1)[e.1]? = some e.2
  least : acc.2 < 0 → ∀ i v, (channels acc.1)[i]? = some v → (∀ e ∈ pending, e.1 ≠ i) → v = 1

/-- **One pass.** A chunk is reduced as far as needed, or to one channel. -/
theorem Reducing.step {ids : List ℕ} {total : ℤ} {e : ℕ × ℤ} {pending : List (ℕ × ℤ)}
    {acc : List (ℕ × PartitionedLayer) × ℤ} (h : Reducing ids total (e :: pending) acc)
    (hnew : ∀ e' ∈ pending, e'.1 ≠ e.1) : Reducing ids total pending (reduceChunk acc e) := by
  have hget := h.untouched e List.mem_cons_self
  have hone : 1 ≤ e.2 := h.one_le _ (List.mem_of_getElem? hget)
  have habs : |acc.2| = -acc.2 := abs_of_nonpos h.nonpos
  unfold reduceChunk
  dsimp only
  split
  · next hred =>
    refine ⟨?_, ?_, ?_, ?_, fun e' he' => ?_, fun hneg i v hv hi => ?_⟩
    · rw [ids_setChannels, h.chiplets]
    · rw [channels_setChannels]
      exact one_le_set h.one_le (by omega) _
    · rw [channels_setChannels, sum_set hget]
      linarith [h.sum]
    · dsimp only
      omega
    · rw [channels_setChannels, List.getElem?_set_ne (hnew e' he').symm]
      exact h.untouched e' (List.mem_cons_of_mem e he')
    · dsimp only at hneg
      rw [channels_setChannels, List.getElem?_set] at hv
      split at hv
      · -- something is left, so the chunk has been reduced to one channel
        split at hv
        · cases hv
          omega
        · cases hv
      · next hne =>
        refine h.least (by omega) i v hv fun e' he' => ?_
        rcases List.mem_cons.mp he' with rfl | he'
        · exact hne
        · exact hi e' he'
  · next hred =>
    refine ⟨h.chiplets, h.one_le, h.sum, h.nonpos,
      fun e' he' => h.untouched e' (List.mem_cons_of_mem e he'), fun hneg i v hv hi => ?_⟩
    by_cases hei : e.1 = i
    · subst hei
      rw [hget, Option.some.injEq] at hv
      have : ¬ 0 < min (e.2 - 1) |acc.2| := fun hpos => hred ⟨hneg.ne, hpos⟩
      omega
    · refine h.least hneg i v hv fun e' he' => ?_
      rcases List.mem_cons.mp he' with rfl | he'
      · exact hei
      · exact hi e' he'

/-- **The loop.** -/
theorem Reducing.foldl {ids : List ℕ} {total : ℤ} {pending : List (ℕ × ℤ)}
    {acc : List (ℕ × PartitionedLayer) × ℤ} (h : Reducing ids total pending acc)
    (hnodup : (pending.map Prod.fst).Nodup) :
    Reducing ids total [] (pending.foldl reduceChunk acc) := by
  induction pending generalizing acc with
  | nil => exact h
  | cons e pending ih =>
    rw [List.map_cons, List.nodup_cons] at hnodup
    refine ih (h.step fun e' he' heq => hnodup.1 ?_) hnodup.2
    exact heq ▸ List.mem_map_of_mem he'

/-- What the partition guarantees. -/
structure Exact (ids : List ℕ) (total : ℤ) (chunks : List (ℕ × PartitionedLayer)) : Prop where
  chiplets : chunks.map Prod.fst = ids
  one_le : ∀ c ∈ channels chunks, 1 ≤ c
  sum : (channels chunks).sum = max total ids.length

theorem Exact.of_sum {ids : List ℕ} {total : ℤ} (hids : chunks.map Prod.fst = ids)
    (hone : ∀ c ∈ channels chunks, 1 ≤ c) (hsum : (channels chunks).sum = total) :
    Exact ids total chunks := by
  have hle := length_le_sum hone
  have hlen : ids.length = (channels chunks).length := by rw [← hids]; simp
  refine ⟨hids, hone, ?_⟩
  omega

/-- When the loop is over, all is taken or every chunk is down to one channel. -/
theorem Reducing.exact {ids : List ℕ} {total : ℤ} {acc : List (ℕ × PartitionedLayer) × ℤ}
    (h : Reducing ids total [] acc) : Exact ids total acc.1 := by
  rcases h.nonpos.eq_or_lt with hzero | hneg
  · exact .of_sum h.chiplets h.one_le (by linarith [h.sum])
  · have hall : channels acc.1 = List.replicate ids.length 1 := by
      refine List.eq_replicate_iff.mpr ⟨by rw [← h.chiplets]; simp, fun c hc => ?_⟩
      obtain ⟨i, hi⟩ := List.mem_iff_getElem?.mp hc
      exact h.least hneg i c hi fun e he => by cases he
    have hsum := h.sum
    rw [hall] at hsum
    refine ⟨h.chiplets, h.one_le, ?_⟩
    rw [hall]
    simp only [List.sum_replicate, nsmul_eq_mul, mul_one] at hsum ⊢
    omega

/-! ## The adjustment -/

/-- The other chunks, largest first. -/
def otherChunks (chunks : List (ℕ × PartitionedLayer)) (excluded : ℕ) : List (ℕ × ℤ) :=
  ((chunks.zipIdx.map fun e => (e.2, e.1.2.outputChannels)).filter
    (·.1 ≠ excluded)).insertionSort fun a b => b.2 ≤ a.2

theorem distributeRemainingDifference_eq (chunks : List (ℕ × PartitionedLayer)) (excluded : ℕ)
    (remaining : ℤ) : distributeRemainingDifference chunks excluded remaining =
      ((otherChunks chunks excluded).foldl reduceChunk (chunks, remaining)).1 := rfl

theorem mem_otherChunks {excluded : ℕ} {e : ℕ × ℤ} :
    e ∈ otherChunks chunks excluded ↔ (channels chunks)[e.1]? = some e.2 ∧ e.1 ≠ excluded := by
  unfold otherChunks channels
  rw [(List.perm_insertionSort _ _).mem_iff, List.mem_filter, decide_eq_true_iff, List.mem_map]
  refine and_congr_left fun _ => ?_
  rw [List.getElem?_map, Option.map_eq_some_iff]
  constructor
  · rintro ⟨p, hp, rfl⟩
    exact ⟨_, List.mem_zipIdx_iff_getElem?.mp hp, rfl⟩
  · rintro ⟨c, hc, hv⟩
    exact ⟨(c, e.1), List.mem_zipIdx_iff_getElem?.mpr hc, by rw [hv]⟩

theorem nodup_otherChunks (chunks : List (ℕ × PartitionedLayer)) (excluded : ℕ) :
    ((otherChunks chunks excluded).map Prod.fst).Nodup := by
  unfold otherChunks
  rw [((List.perm_insertionSort _ _).map _).nodup_iff]
  refine List.Nodup.sublist ((List.filter_sublist).map _) ?_
  rw [List.map_map]
  exact (List.zipIdx_map_snd 0 chunks) ▸ List.nodup_range'

section TooMany

variable {ids : List ℕ} {original value newValue : ℤ} {idx : ℕ}

/-- The loop starts when the largest chunk is down to one channel. -/
theorem reducing_largest (hids : chunks.map Prod.fst = ids) (hone : ∀ c ∈ channels chunks, 1 ≤ c)
    (hget : (channels chunks)[idx]? = some value)
    (hnew : newValue = max 1 (value + (original - (channels chunks).sum)))
    (hleft : original - (channels chunks).sum - (newValue - value) < 0) :
    Reducing ids original (otherChunks (setChannels chunks idx newValue) idx)
      (setChannels chunks idx newValue,
        original - (channels chunks).sum - (newValue - value)) := by
  have hlt := (List.getElem?_eq_some_iff.mp hget).1
  refine ⟨by rw [ids_setChannels, hids], ?_, ?_, hleft.le,
    fun e he => (mem_otherChunks.mp he).1, fun _ i v hv hi => ?_⟩
  · rw [channels_setChannels]
    exact one_le_set hone (by omega) idx
  · rw [channels_setChannels, sum_set hget]
    ring
  · by_cases hex : i = idx
    · rw [hex, channels_setChannels, List.getElem?_set_self hlt, Option.some.injEq] at hv
      omega
    · exact absurd rfl (hi (i, v) (mem_otherChunks.mpr ⟨hv, hex⟩))

end TooMany

theorem adjustForRoundingErrors_exact {ids : List ℕ} (original : ℤ)
    (hids : chunks.map Prod.fst = ids) (hne : chunks ≠ [])
    (hone : ∀ c ∈ channels chunks, 1 ≤ c) :
    Exact ids original (adjustForRoundingErrors original chunks) := by
  have hne' : channels chunks ≠ [] := fun h => hne (List.map_eq_nil_iff.mp h)
  have hchannels : chunks.map (·.2.outputChannels) = channels chunks := rfl
  unfold adjustForRoundingErrors
  rw [hchannels]
  dsimp only
  split
  · exact .of_sum hids hone (by omega)
  · split
    · -- too few: the smallest chunk gets what is missing
      split
      · next hnone => exact absurd hnone (smallestChunk_ne_none hne')
      · next idx value hsome =>
        have hget := getElem?_of_smallestChunk hsome
        have hvalue := hone value (List.mem_of_getElem? hget)
        refine .of_sum (by rw [ids_setChannels, hids]) ?_ ?_
        · rw [channels_setChannels]
          exact one_le_set hone (by omega) idx
        · rw [channels_setChannels, sum_set hget]
          omega
    · -- too many: the largest chunk is cut, and then the others
      split
      · next hnone => exact absurd hnone (largestChunk_ne_none hne' hone)
      · next idx value hsome =>
        have hget := getElem?_of_largestChunk hsome
        split
        · next hleft =>
          rw [distributeRemainingDifference_eq]
          exact ((reducing_largest hids hone hget rfl hleft).foldl
            (nodup_otherChunks _ idx)).exact
        · refine .of_sum (by rw [ids_setChannels, hids]) ?_ ?_
          · rw [channels_setChannels]
            exact one_le_set hone (by omega) idx
          · rw [channels_setChannels, sum_set hget]
            omega

/-- The chunks before the adjustment. -/
theorem one_le_cutLayer (layerDef : LayerDef) (totalMacs : Option ℕ) (shares : List (ℕ × ℚ)) :
    ∀ c ∈ channels (shares.map (cutLayer layerDef totalMacs)), 1 ≤ c := by
  intro c hc
  unfold channels at hc
  rw [List.map_map] at hc
  obtain ⟨share, -, rfl⟩ := List.mem_map.mp hc
  exact le_max_left _ _

theorem partitionLayer_exact (layerDef : LayerDef) (totalMacs : Option ℕ)
    {shares : List (ℕ × ℚ)} (h : shares ≠ []) :
    Exact (shares.map Prod.fst) (layerDef.parameters.outputChannels.getD 1 : ℕ)
      (partitionLayer layerDef totalMacs shares) := by
  refine adjustForRoundingErrors_exact _ ?_ ?_ (one_le_cutLayer layerDef totalMacs shares)
  · rw [List.map_map]
    rfl
  · exact fun hnil => h (List.map_eq_nil_iff.mp hnil)

/-- Every share gets its chunk. -/
theorem ids_partitionLayer (layerDef : LayerDef) (totalMacs : Option ℕ) (shares : List (ℕ × ℚ)) :
    (partitionLayer layerDef totalMacs shares).map Prod.fst = shares.map Prod.fst := by
  cases shares with
  | nil =>
    unfold partitionLayer adjustForRoundingErrors
    dsimp only [List.map_nil]
    split
    · rfl
    · split <;> rfl
  | cons share shares => exact (partitionLayer_exact layerDef totalMacs (by simp)).chiplets

end LayerPartitioner

end ChipSim
