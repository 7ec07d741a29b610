import Mathlib.Algebra.BigOperators.Group.List.Lemmas
import Mathlib.Algebra.BigOperators.Ring.List
import Mathlib.Algebra.Order.BigOperators.Group.List
import Mathlib.Algebra.Order.Field.Basic
import Mathlib.Algebra.Order.Floor.Ring
import Mathlib.Algebra.Order.Floor.Semiring
import Mathlib.Tactic.FieldSimp
import Mathlib.Tactic.Linarith
import Mathlib.Tactic.Ring

/-!
# Intervals in bins of equal width

The length an interval has in common with another one is a difference of clamped end points, so
the lengths in consecutive bins add up. A weighted sum of such lengths is bounded by what the
weights of the intervals around a point add up to, and small bins see every point.
-/

namespace Lib

section

variable {K : Type*} [Field K] [LinearOrder K] [IsStrictOrderedRing K]

/-! ## Overlap -/

/-- The length of the intersection of the intervals from `s` to `e` and from `a` to `b`. -/
def overlap (s e a b : K) : K := max 0 (min e b - max s a)

omit [IsStrictOrderedRing K] in
theorem overlap_nonneg (s e a b : K) : 0 ≤ overlap s e a b := le_max_left _ _

theorem overlap_pos_iff {s e a b : K} : 0 < overlap s e a b ↔ max s a < min e b := by
  unfold overlap
  rw [lt_max_iff, sub_pos]
  simp

theorem overlap_eq_zero_iff {s e a b : K} : overlap s e a b = 0 ↔ min e b ≤ max s a := by
  rw [← not_lt, ← overlap_pos_iff, not_lt]
  exact ⟨fun h => h.le, fun h => le_antisymm h (overlap_nonneg ..)⟩

omit [IsStrictOrderedRing K] in
theorem overlap_comm (s e a b : K) : overlap s e a b = overlap a b s e := by
  unfold overlap
  rw [min_comm, max_comm s a]

/-- The overlap is what lies between the end points, clamped to the interval. -/
theorem overlap_eq_clamp {s e a b : K} (hse : s ≤ e) (hab : a ≤ b) :
    overlap s e a b = max s (min e b) - max s (min e a) := by
  unfold overlap
  simp only [max_def, min_def]
  split_ifs <;> linarith

theorem overlap_of_le {s e : K} (hes : e ≤ s) (a b : K) : overlap s e a b = 0 :=
  overlap_eq_zero_iff.mpr ((min_le_left e b).trans (hes.trans (le_max_left s a)))

/-- Overlaps with adjacent intervals add up. -/
theorem overlap_add {s e a b c : K} (hac : a ≤ c) (hcb : c ≤ b) :
    overlap s e a b = overlap s e a c + overlap s e c b := by
  rcases le_total s e with hse | hes
  · rw [overlap_eq_clamp hse (hac.trans hcb), overlap_eq_clamp hse hac, overlap_eq_clamp hse hcb]
    ring
  · rw [overlap_of_le hes, overlap_of_le hes, overlap_of_le hes, add_zero]

/-- An interval that covers another one. -/
theorem overlap_of_covers {s e a b : K} (hab : a ≤ b) (hs : s ≤ a) (he : b ≤ e) :
    overlap s e a b = b - a := by
  unfold overlap
  rw [min_eq_right he, max_eq_right hs, max_eq_right (sub_nonneg.mpr hab)]

/-! ## Cells between cuts -/

/-- Cells, each a length and where it starts, that lie side by side from `start` to `stop`. -/
structure Tiles (start stop : K) (cells : List (K × K)) : Prop where
  first : ∀ c, cells[0]? = some c → c.2 = start
  joint : ∀ i c c', cells[i]? = some c → cells[i + 1]? = some c' → c.2 + c.1 = c'.2
  last : ∀ c, cells.getLast? = some c → c.2 + c.1 = stop
  length_nonneg : ∀ c ∈ cells, 0 ≤ c.1

/-- The cells between the cuts `0` to `n`. -/
def cutCells (cut : ℕ → K) (n : ℕ) : List (K × K) :=
  (List.range n).map fun i => (cut (i + 1) - cut i, cut i)

omit [LinearOrder K] [IsStrictOrderedRing K] in
theorem length_cutCells (cut : ℕ → K) (n : ℕ) : (cutCells cut n).length = n := by
  unfold cutCells
  rw [List.length_map, List.length_range]

omit [LinearOrder K] [IsStrictOrderedRing K] in
theorem getElem?_cutCells (cut : ℕ → K) {n i : ℕ} (hi : i < n) :
    (cutCells cut n)[i]? = some (cut (i + 1) - cut i, cut i) := by
  unfold cutCells
  rw [List.getElem?_map, List.getElem?_range hi]
  rfl

omit [LinearOrder K] [IsStrictOrderedRing K] in
theorem cutCells_eq_some {cut : ℕ → K} {n i : ℕ} {c : K × K} (h : (cutCells cut n)[i]? = some c) :
    i < n ∧ c = (cut (i + 1) - cut i, cut i) := by
  have hi : i < n := by
    rw [← length_cutCells cut n]
    exact (List.getElem?_eq_some_iff.mp h).1
  rw [getElem?_cutCells cut hi] at h
  exact ⟨hi, (Option.some.inj h).symm⟩

/-- Cuts in order give cells side by side. -/
theorem tiles_cutCells {cut : ℕ → K} {n : ℕ} (hcut : ∀ i < n, cut i ≤ cut (i + 1)) :
    Tiles (cut 0) (cut n) (cutCells cut n) where
  first c hc := by
    obtain ⟨-, rfl⟩ := cutCells_eq_some hc
    rfl
  joint i c c' hc hc' := by
    obtain ⟨-, rfl⟩ := cutCells_eq_some hc
    obtain ⟨-, rfl⟩ := cutCells_eq_some hc'
    exact add_sub_cancel _ _
  last c hc := by
    rw [List.getLast?_eq_getElem?, length_cutCells] at hc
    obtain ⟨hn, rfl⟩ := cutCells_eq_some hc
    rw [Nat.sub_add_cancel (Nat.one_le_of_lt hn)]
    exact add_sub_cancel _ _
  length_nonneg c hc := by
    obtain ⟨i, hi⟩ := List.mem_iff_getElem?.mp hc
    obtain ⟨hn, rfl⟩ := cutCells_eq_some hi
    exact sub_nonneg.mpr (hcut i hn)

/-! ## Bins -/

/-- The overlaps of an interval with cells of width `h` side by side, the first one from `a` on. -/
theorem sum_overlap_cells {h : K} (hh : 0 ≤ h) (s e a : K) (n : ℕ) :
    ((List.range n).map fun i : ℕ => overlap s e (a + i * h) (a + i * h + h)).sum =
      overlap s e a (a + n * h) := by
  induction n with
  | zero => simp [overlap]
  | succ n ih =>
    rw [List.range_succ, List.map_append, List.sum_append, ih]
    have hn : a ≤ a + n * h := le_add_of_nonneg_right (mul_nonneg n.cast_nonneg hh)
    have hlast : a + ((n + 1 : ℕ) : K) * h = a + n * h + h := by
      rw [Nat.cast_succ, add_one_mul, add_assoc]
    rw [hlast, overlap_add hn (le_add_of_nonneg_right hh), List.map_singleton,
      List.sum_singleton]

/-- The overlap of an interval with bin `t` of width `h`. -/
def binOverlap (h s e : K) (t : ℕ) : K := overlap s e (t * h) (t * h + h)

theorem sum_binOverlap {h : K} (hh : 0 ≤ h) (s e : K) (n : ℕ) :
    ((List.range n).map (binOverlap h s e)).sum = overlap s e 0 (n * h) := by
  have hcells := sum_overlap_cells hh s e 0 n
  simp only [zero_add] at hcells
  exact hcells

/-- **Binning.** The overlaps of an interval with all bins add up to its length. -/
theorem sum_binOverlap_eq {h s e : K} (hh : 0 ≤ h) (hs : 0 ≤ s) (hse : s ≤ e) {n : ℕ}
    (he : e ≤ n * h) : ((List.range n).map (binOverlap h s e)).sum = e - s := by
  rw [sum_binOverlap hh, overlap_eq_clamp hse (hs.trans (hse.trans he)), min_eq_left he,
    max_eq_right hse, min_eq_right (hs.trans hse), max_eq_left hs]

section

variable [FloorSemiring K] {h s e : K} {t : ℕ}

theorem binOverlap_of_lt_floor (hh : 0 < h) (ht : t < ⌊s / h⌋₊) : binOverlap h s e t = 0 := by
  have hle : ((t + 1 : ℕ) : K) ≤ s / h :=
    (Nat.le_floor_iff' (Nat.succ_ne_zero t)).mp (Nat.succ_le_of_lt ht)
  rw [le_div_iff₀ hh, Nat.cast_succ, add_one_mul] at hle
  exact overlap_eq_zero_iff.mpr ((min_le_right _ _).trans (hle.trans (le_max_left _ _)))

theorem binOverlap_of_ceil_le (hh : 0 < h) (ht : ⌈e / h⌉₊ ≤ t) : binOverlap h s e t = 0 := by
  have hle : e / h ≤ t := Nat.ceil_le.mp ht
  rw [div_le_iff₀ hh] at hle
  exact overlap_eq_zero_iff.mpr ((min_le_left _ _).trans (hle.trans (le_max_right _ _)))

end

/-! ## Rounded ranges of bins -/

section

variable [FloorRing K]

/-- Bin `t` belongs to the range for the interval from `s` to `e`: from the bin of `s` on, up to the
first bin that begins at `e` or less than the tolerance before it. -/
def InBins (h tolerance s e : K) (t : ℤ) : Prop := ⌊s / h⌋ ≤ t ∧ t < ⌈(e - tolerance) / h⌉

instance (h tolerance s e : K) (t : ℤ) : Decidable (InBins h tolerance s e t) :=
  inferInstanceAs (Decidable (_ ∧ _))

variable {h tolerance s e s' e' m : K} {t : ℤ}

theorem InBins.mono (ht : InBins h tolerance s e t) (hh : 0 < h) (hs : s' ≤ s) (he : e ≤ e') :
    InBins h tolerance s' e' t := by
  refine ⟨(Int.floor_le_floor ?_).trans ht.1, ht.2.trans_le (Int.ceil_le_ceil ?_)⟩
  · exact div_le_div_of_nonneg_right hs hh.le
  · exact div_le_div_of_nonneg_right (sub_le_sub_right he _) hh.le

/-- With a tolerance below the width of a bin, a range goes at least up to the bin of its end. -/
theorem floor_le_ceil_sub (hh : 0 < h) (htol : tolerance < h) (x : K) :
    ⌊x / h⌋ ≤ ⌈(x - tolerance) / h⌉ := by
  rw [← Int.sub_one_lt_iff, Int.lt_ceil, Int.cast_sub, Int.cast_one, sub_div]
  have hfloor := Int.floor_le (x / h)
  have hlt : tolerance / h < 1 := (div_lt_one hh).mpr htol
  linarith

/-- Two ranges for adjacent intervals leave no gap. -/
theorem InBins.split (ht : InBins h tolerance s e t) (hh : 0 < h) (htol : tolerance < h) (m : K) :
    InBins h tolerance s m t ∨ InBins h tolerance m e t := by
  rcases lt_or_ge t ⌈(m - tolerance) / h⌉ with hlt | hge
  · exact Or.inl ⟨ht.1, hlt⟩
  · exact Or.inr ⟨(floor_le_ceil_sub hh htol m).trans hge, ht.2⟩

end

/-! ## Averages over a bin -/

section

variable {ι : Type*} {s e : ι → K}

/-- Between two points where no interval begins or ends, an interval covers all or nothing. -/
theorem overlap_of_no_cut {s e a b : K} (hab : a < b) (hs : ¬ (a < s ∧ s < b))
    (he : ¬ (a < e ∧ e < b)) :
    overlap s e a b = if s ≤ a ∧ a < e then b - a else 0 := by
  split
  · next h => exact overlap_of_covers hab.le h.1 (not_lt.mp fun hb => he ⟨h.2, hb⟩)
  · next h =>
    rw [overlap_eq_zero_iff]
    rcases lt_or_ge a s with has | hsa
    · exact (min_le_right _ _).trans ((not_lt.mp fun hb => hs ⟨has, hb⟩).trans (le_max_left _ _))
    · exact (min_le_left _ _).trans ((not_lt.mp fun hae => h ⟨hsa, hae⟩).trans (le_max_right _ _))

theorem sum_overlap_le_of_cuts (l : List ι) (w : ι → K) {M : K} (cuts : List K) :
    ∀ a b, a ≤ b → (∀ i ∈ l, (a < s i ∧ s i < b → s i ∈ cuts) ∧ (a < e i ∧ e i < b → e i ∈ cuts)) →
      (∀ x, a ≤ x → x < b → (l.map fun i => if s i ≤ x ∧ x < e i then w i else 0).sum ≤ M) →
      (l.map fun i => w i * overlap (s i) (e i) a b).sum ≤ M * (b - a) := by
  induction cuts with
  | nil =>
    intro a b hab hcuts hM
    rcases hab.eq_or_lt with rfl | hab
    · have hzero : ∀ i, overlap (s i) (e i) a a = 0 := fun i =>
        overlap_eq_zero_iff.mpr ((min_le_right _ _).trans (le_max_right _ _))
      simp [hzero]
    · have hconst : ∀ i ∈ l, w i * overlap (s i) (e i) a b =
          (if s i ≤ a ∧ a < e i then w i else 0) * (b - a) := by
        intro i hi
        obtain ⟨hs, he⟩ := hcuts i hi
        rw [overlap_of_no_cut hab (fun h => by cases hs h) (fun h => by cases he h)]
        split <;> simp
      rw [List.map_congr_left hconst, List.sum_map_mul_right]
      exact mul_le_mul_of_nonneg_right (hM a le_rfl hab) (sub_nonneg.mpr hab.le)
  | cons c cuts ih =>
    intro a b hab hcuts hM
    by_cases hc : a < c ∧ c < b
    · -- cut at `c`: on either side it is not an inner point any more
      have hleft := ih a c hc.1.le (fun i hi => ?_) fun x hax hxc => hM x hax (hxc.trans hc.2)
      have hright := ih c b hc.2.le (fun i hi => ?_) fun x hcx hxb => hM x (hc.1.le.trans hcx) hxb
      · have hsplit : (l.map fun i => w i * overlap (s i) (e i) a b) =
            l.map fun i => w i * overlap (s i) (e i) a c + w i * overlap (s i) (e i) c b := by
          refine List.map_congr_left fun i _ => ?_
          rw [overlap_add hc.1.le hc.2.le, mul_add]
        rw [hsplit, List.sum_map_add]
        linarith
      · obtain ⟨hs, he⟩ := hcuts i hi
        refine ⟨fun h => ?_, fun h => ?_⟩
        · exact (List.mem_cons.mp (hs ⟨hc.1.trans h.1, h.2⟩)).resolve_left h.1.ne'
        · exact (List.mem_cons.mp (he ⟨hc.1.trans h.1, h.2⟩)).resolve_left h.1.ne'
      · obtain ⟨hs, he⟩ := hcuts i hi
        refine ⟨fun h => ?_, fun h => ?_⟩
        · exact (List.mem_cons.mp (hs ⟨h.1, h.2.trans hc.2⟩)).resolve_left h.2.ne
        · exact (List.mem_cons.mp (he ⟨h.1, h.2.trans hc.2⟩)).resolve_left h.2.ne
    · refine ih a b hab (fun i hi => ?_) hM
      obtain ⟨hs, he⟩ := hcuts i hi
      refine ⟨fun h => ?_, fun h => ?_⟩
      · exact (List.mem_cons.mp (hs h)).resolve_left fun hsc => hc (hsc ▸ h)
      · exact (List.mem_cons.mp (he h)).resolve_left fun hec => hc (hec ▸ h)

/-- **Averaging.** If the weights of the intervals around any point of a bin add up to at most `M`,
so does their average over the bin. -/
theorem sum_overlap_le (l : List ι) (w : ι → K) {M a b : K} (hab : a ≤ b)
    (hM : ∀ x, a ≤ x → x < b → (l.map fun i => if s i ≤ x ∧ x < e i then w i else 0).sum ≤ M) :
    (l.map fun i => w i * overlap (s i) (e i) a b).sum ≤ M * (b - a) := by
  refine sum_overlap_le_of_cuts l w (l.map s ++ l.map e) a b hab (fun i hi => ?_) hM
  exact ⟨fun _ => List.mem_append_left _ (List.mem_map_of_mem hi),
    fun _ => List.mem_append_right _ (List.mem_map_of_mem hi)⟩

end

end

end Lib
