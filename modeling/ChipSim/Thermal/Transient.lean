import ChipSim.Thermal.Assembly

/-!
# Transient temperatures

The transient solver takes one implicit step for each row of the power. Its step matrix has an
inverse without negative entries whenever the conductance matrix is dissipative, so the
temperatures are monotone in the power over any number of steps. The matrix of a package is
dissipative, and the compression that is kept for the solver loses nothing of it.
-/

namespace ChipSim

open Lib Matrix

namespace Thermal

/-! ## One step -/

section Step

variable {n : ℕ} {lu : Factorization n}

theorem Solver.stepMatrix_eq (s : Solver n) (dt : ℚ) :
    s.stepMatrix dt =
      implicitMatrix (s.conductance.sparseConductanceMatrix n) s.capacitanceInverse dt := by
  unfold Solver.stepMatrix implicitMatrix
  dsimp only
  rw [smul_neg, sub_neg_eq_add]

/-- The conditions under which the solver is monotone. -/
structure Solver.Dissipates (s : Solver n) : Prop where
  conductance : Dissipative (s.conductance.sparseConductanceMatrix n)
  capacitance : ∀ i, 0 < s.capacitanceInverse i

/-- What the solver of a step does: it keeps the order of right-hand sides and does not make
anything negative. -/
structure OrderPreserving (solve : (Fin n → ℚ) → Fin n → ℚ) : Prop where
  mono : Monotone solve
  nonneg : ∀ b, 0 ≤ b → 0 ≤ solve b

theorem Solver.Dissipates.factorized {s : Solver n} (h : s.Dissipates) {dt : ℚ} (hdt : 0 < dt) :
    ∃ solve, lu.factorized (s.stepMatrix dt) = .ok solve ∧ OrderPreserving solve := by
  rw [s.stepMatrix_eq]
  obtain ⟨solve, hsolve, hspec⟩ :=
    lu.exact _ (h.conductance.implicit_det_ne_zero h.capacitance hdt)
  refine ⟨solve, hsolve, ⟨fun b b' hb => ?_, fun b hb => ?_⟩⟩
  · exact h.conductance.implicit_mono h.capacitance hdt hb (hspec b) (hspec b')
  · exact h.conductance.implicit_mono h.capacitance hdt hb (Matrix.mulVec_zero _) (hspec b)

variable {s : Solver n} {dt : ℚ} {solve : (Fin n → ℚ) → Fin n → ℚ}

theorem Solver.step_mono (hcap : ∀ i, 0 < s.capacitanceInverse i) (hdt : 0 < dt)
    (hsolve : OrderPreserving solve) {acc acc' : List (Fin n → ℚ) × (Fin n → ℚ)}
    {power power' : Fin n → ℚ} (hstate : acc.2 ≤ acc'.2) (hpower : power ≤ power') :
    (s.step dt solve acc power).2 ≤ (s.step dt solve acc' power').2 := by
  refine hsolve.mono fun i => add_le_add (hstate i) ?_
  show dt * (s.capacitanceInverse i * power i) ≤ dt * (s.capacitanceInverse i * power' i)
  exact mul_le_mul_of_nonneg_left (mul_le_mul_of_nonneg_left (hpower i) (hcap i).le) hdt.le

theorem Solver.step_nonneg (hcap : ∀ i, 0 < s.capacitanceInverse i) (hdt : 0 < dt)
    (hsolve : OrderPreserving solve) {acc : List (Fin n → ℚ) × (Fin n → ℚ)}
    {power : Fin n → ℚ} (hstate : 0 ≤ acc.2) (hpower : 0 ≤ power) :
    0 ≤ (s.step dt solve acc power).2 := by
  refine hsolve.nonneg _ fun i => add_nonneg (hstate i) ?_
  show 0 ≤ dt * (s.capacitanceInverse i * power i)
  exact mul_nonneg hdt.le (mul_nonneg (hcap i).le (hpower i))

/-! ## Whole runs -/

theorem Solver.run_length (acc : List (Fin n → ℚ) × (Fin n → ℚ)) (power : List (Fin n → ℚ)) :
    (power.foldl (s.step dt solve) acc).1.length = acc.1.length + power.length := by
  induction power generalizing acc with
  | nil => rfl
  | cons p power ih =>
    rw [List.foldl_cons, ih]
    simp only [Solver.step, List.length_append, List.length_cons, List.length_nil]
    omega

theorem Solver.run_mono (hcap : ∀ i, 0 < s.capacitanceInverse i) (hdt : 0 < dt)
    (hsolve : OrderPreserving solve) {power power' : List (Fin n → ℚ)}
    (hpower : List.Forall₂ (· ≤ ·) power power')
    {acc acc' : List (Fin n → ℚ) × (Fin n → ℚ)} (hstate : acc.2 ≤ acc'.2)
    (hacc : List.Forall₂ (· ≤ ·) acc.1 acc'.1) :
    List.Forall₂ (· ≤ ·) (power.foldl (s.step dt solve) acc).1
      (power'.foldl (s.step dt solve) acc').1 := by
  induction hpower generalizing acc acc' with
  | nil => exact hacc
  | cons hp _ ih =>
    have hstep := Solver.step_mono hcap hdt hsolve hstate hp
    exact ih hstep (List.rel_append hacc (.cons hstep .nil))

theorem Solver.run_nonneg (hcap : ∀ i, 0 < s.capacitanceInverse i) (hdt : 0 < dt)
    (hsolve : OrderPreserving solve) {power : List (Fin n → ℚ)} (hpower : ∀ p ∈ power, 0 ≤ p)
    {acc : List (Fin n → ℚ) × (Fin n → ℚ)} (hstate : 0 ≤ acc.2) (hacc : ∀ t ∈ acc.1, 0 ≤ t) :
    ∀ t ∈ (power.foldl (s.step dt solve) acc).1, 0 ≤ t := by
  induction power generalizing acc with
  | nil => exact hacc
  | cons p power ih =>
    have hstep := Solver.step_nonneg hcap hdt hsolve hstate (hpower p List.mem_cons_self)
    refine ih (fun q hq => hpower q (List.mem_cons_of_mem p hq)) hstep fun t ht => ?_
    rcases List.mem_append.mp ht with ht | ht
    · exact hacc t ht
    · rw [List.mem_singleton.mp ht]
      exact hstep

/-- The temperatures of two powers compare as the powers do. -/
def Solver.MonotoneIn (s : Solver n) (lu : Factorization n) (dt powerInterval : ℚ) : Prop :=
  (∀ power power', List.Forall₂ (· ≤ ·) power power' → ∃ temps temps',
    s.runTransientPython lu power dt powerInterval = .ok temps ∧
    s.runTransientPython lu power' dt powerInterval = .ok temps' ∧
    temps.length = power.length + 1 ∧ List.Forall₂ (· ≤ ·) temps temps') ∧
  ∀ power, (∀ p ∈ power, 0 ≤ p) → ∃ temps,
    s.runTransientPython lu power dt powerInterval = .ok temps ∧
    temps.length = power.length + 1 ∧ ∀ t ∈ temps, 0 ≤ t

theorem Solver.Dissipates.monotoneIn (h : s.Dissipates) (hdt : 0 < dt) {powerInterval : ℚ}
    (hclose : isClose dt powerInterval) : s.MonotoneIn lu dt powerInterval := by
  obtain ⟨solve, hsolve, horder⟩ := h.factorized hdt
  have hrun : ∀ power, s.runTransientPython lu power dt powerInterval =
      .ok (power.foldl (s.step dt solve) ([0], 0)).1 := by
    intro power
    unfold Solver.runTransientPython
    rw [if_neg (not_not.mpr hclose), hsolve, ok_bind]
    rfl
  have hlength : ∀ power : List (Fin n → ℚ),
      (power.foldl (s.step dt solve) ([0], 0)).1.length = power.length + 1 := by
    intro power
    rw [Solver.run_length, List.length_singleton, Nat.add_comm]
  constructor
  · intro power power' hpower
    exact ⟨_, _, hrun power, hrun power', hlength power,
      Solver.run_mono h.capacitance hdt horder hpower (le_refl _) (.cons (le_refl _) .nil)⟩
  · intro power hpower
    refine ⟨_, hrun power, hlength power,
      Solver.run_nonneg h.capacitance hdt horder hpower (le_refl _) fun t ht => ?_⟩
    rw [List.mem_singleton.mp ht]

/-- **The transient solver is monotone in the power.** For every conductance matrix without
positive couplings and without negative row sums, positive inverse capacitances, every step and
any number of steps; a step that differs from the power interval is refused. -/
theorem runTransientPython_monotone (s : Solver n) (lu : Factorization n) (dt powerInterval : ℚ)
    (hoff : ∀ i j, i ≠ j → s.conductance.sparseConductanceMatrix n i j ≤ 0)
    (hrow : ∀ i, 0 ≤ ∑ j, s.conductance.sparseConductanceMatrix n i j)
    (hcap : ∀ i, 0 < s.capacitanceInverse i) (hdt : 0 < dt) :
    if isClose dt powerInterval then s.MonotoneIn lu dt powerInterval
    else ∀ power, ∃ message,
      s.runTransientPython lu power dt powerInterval = .error (.valueError message) := by
  split
  · next hclose => exact Solver.Dissipates.monotoneIn ⟨⟨hoff, hrow⟩, hcap⟩ hdt hclose
  · next hclose =>
    intro power
    unfold Solver.runTransientPython
    exact ⟨_, if_pos hclose⟩

end Step

/-- Two nodes, the second of them at a surface. -/
def twoNodes : Solver 2 where
  conductance := ⟨[[2, -2], [-2, 3]], [[0, 1], [0, 1]]⟩
  capacitanceInverse := ![1, 4]

theorem runTransientPython_monotone_twoNodes :
    isClose 1 1 ∧ twoNodes.MonotoneIn (.adjugate 2) 1 1 := by
  have hclose : isClose 1 1 := by decide +kernel
  have hoff : ∀ i j : Fin 2, i = j ∨ twoNodes.conductance.sparseConductanceMatrix 2 i j ≤ 0 := by
    simp only [Fin.forall_fin_two]
    decide +kernel
  have h := runTransientPython_monotone twoNodes (.adjugate 2) 1 1
    (fun i j hij => (hoff i j).resolve_left hij) (by decide +kernel) (by decide +kernel) one_pos
  rw [if_pos hclose] at h
  exact ⟨hclose, h⟩

/-! ## The compressed matrix -/

/-- The populated entries of a column add up to the entry of the row. -/
theorem sum_populated (row : List ℚ) (k j : ℕ) :
    (((row.zipIdx k).filter fun e => decide (e.1 ≠ 0) && decide (e.2 = j)).map Prod.fst).sum =
      if k ≤ j then row.getD (j - k) 0 else 0 := by
  induction row generalizing k with
  | nil => simp
  | cons a row ih =>
    rw [List.zipIdx_cons, List.filter_cons]
    rcases lt_trichotomy k j with h | rfl | h
    · rw [if_neg (by simp [h.ne]), ih, if_pos (by omega), if_pos h.le,
        show j - k = j - (k + 1) + 1 by omega, List.getD_cons_succ]
    · have hrest : (((row.zipIdx (k + 1)).filter fun e =>
          decide (e.1 ≠ 0) && decide (e.2 = k)).map Prod.fst).sum = 0 := by
        rw [ih, if_neg (by omega)]
      rw [if_pos (le_refl k), Nat.sub_self, List.getD_cons_zero]
      by_cases ha : a = 0
      · rw [if_neg (by simp [ha]), hrest, ha]
      · rw [if_pos (by simp [ha]), List.map_cons, List.sum_cons, hrest, add_zero]
    · rw [if_neg (by simp [h.ne']), ih, if_neg (by omega), if_neg (by omega)]

/-- The padding holds zeros, so it is not populated. -/
theorem zip_padded (entries : List (ℚ × ℕ)) (m last : ℕ) :
    (entries.map Prod.fst ++ List.replicate m 0).zip
      (entries.map Prod.snd ++ List.replicate m last) =
        entries ++ List.replicate m (0, last) := by
  rw [List.zip_append (by rw [List.length_map, List.length_map]), ← List.zip_of_prod rfl rfl,
    List.zip_replicate']

/-- **The compression keeps the matrix.** -/
theorem compress_sparse {rows : List (List ℚ)} {n : ℕ} (hsquare : Square rows n) {c : Compressed}
    (h : compress rows = .ok c) : c.sparseConductanceMatrix n = toMatrix rows n := by
  unfold compress at h
  obtain ⟨maxLen, -, h⟩ := bind_eq_ok.mp h
  obtain ⟨index, hindex, h⟩ := bind_eq_ok.mp h
  cases h
  funext i j
  have hi : i.val < rows.length := by
    rw [hsquare.length]
    exact i.isLt
  have hnonZero : (rows.map nonZeroEntries)[i.val]? = some (nonZeroEntries rows[i.val]) := by
    rw [List.getElem?_map, List.getElem?_eq_getElem hi]
    rfl
  obtain ⟨columns, hcolumns, hpad⟩ := getElem?_mapM hindex hnonZero
  unfold padIndex at hpad
  split at hpad
  · next last _ =>
    cases hpad
    unfold Compressed.sparseConductanceMatrix toMatrix
    simp only [List.getD_eq_getElem?_getD, hcolumns, List.getElem?_map, hnonZero, Option.map_some,
      Option.getD_some, List.getElem?_eq_getElem hi]
    unfold padRow
    rw [List.length_map, List.length_map, zip_padded, List.filter_append, List.map_append,
      List.sum_append]
    have hpadding : (List.replicate (maxLen - (nonZeroEntries rows[i.val]).length)
        ((0 : ℚ), last)).filter (fun e => decide (e.1 ≠ 0) && decide (e.2 = j.val)) = [] := by
      rw [List.filter_eq_nil_iff]
      intro e he
      rw [List.eq_of_mem_replicate he]
      simp
    have hentries : (nonZeroEntries rows[i.val]).filter
        (fun e => decide (e.1 ≠ 0) && decide (e.2 = j.val)) =
        rows[i.val].zipIdx.filter fun e => decide (e.1 ≠ 0) && decide (e.2 = j.val) := by
      unfold nonZeroEntries
      rw [List.filter_filter]
      refine List.filter_congr fun e _ => ?_
      cases decide (e.1 ≠ 0) <;> simp
    rw [hpadding, hentries, sum_populated, if_pos (Nat.zero_le _), Nat.sub_zero, List.map_nil,
      List.sum_nil, add_zero, List.getD_eq_getElem?_getD]
  · cases hpad

/-- A row that is not all zero has a last non-zero column to pad with. -/
theorem padIndex_ok {row : List ℚ} (hrow : ∃ v ∈ row, v ≠ 0) (maxLen : ℕ) :
    ∃ index, padIndex maxLen ((nonZeroEntries row).map Prod.snd) = .ok index := by
  obtain ⟨v, hv, hv0⟩ := hrow
  obtain ⟨k, hk⟩ := List.mem_iff_getElem?.mp hv
  have hentry : (v, k) ∈ nonZeroEntries row :=
    List.mem_filter.mpr ⟨List.mem_zipIdx_iff_getElem?.mpr hk, decide_eq_true hv0⟩
  have hne : (nonZeroEntries row).map Prod.snd ≠ [] :=
    List.ne_nil_of_mem (List.mem_map_of_mem hentry)
  unfold padIndex
  rw [List.getLast?_eq_some_getLast hne]
  exact ⟨_, rfl⟩

/-- The padding repeats a column of the row, so no padded index leaves the row. -/
theorem padIndex_lt {row : List ℚ} {maxLen : ℕ} {index : List ℕ}
    (h : padIndex maxLen ((nonZeroEntries row).map Prod.snd) = .ok index) :
    ∀ k ∈ index, k < row.length := by
  have hcolumn : ∀ k ∈ (nonZeroEntries row).map Prod.snd, k < row.length := by
    intro k hk
    obtain ⟨e, he, rfl⟩ := List.mem_map.mp hk
    exact List.snd_lt_of_mem_zipIdx (List.mem_filter.mp he).1
  unfold padIndex at h
  split at h
  · next last hlast =>
    cases h
    intro k hk
    rcases List.mem_append.mp hk with hk | hk
    · exact hcolumn k hk
    · rw [List.eq_of_mem_replicate hk]
      exact hcolumn last (List.mem_of_getLast? hlast)
  · cases h

/-- A matrix with rows, none of them all zero, is compressed. -/
theorem compress_ok {rows : List (List ℚ)} (hne : rows ≠ [])
    (hrow : ∀ row ∈ rows, ∃ v ∈ row, v ≠ 0) : ∃ c, compress rows = .ok c := by
  unfold compress
  dsimp only
  obtain ⟨maxLen, hmax⟩ := maxOf_ok (l := (rows.map nonZeroEntries).map List.length)
    (by simpa using hne)
  have hpad : ∀ entries ∈ rows.map nonZeroEntries,
      ∃ index, padIndex maxLen (entries.map Prod.snd) = .ok index ∧ True := by
    intro entries hentries
    obtain ⟨row, hmem, rfl⟩ := List.mem_map.mp hentries
    obtain ⟨index, hindex⟩ := padIndex_ok (hrow row hmem) maxLen
    exact ⟨index, hindex, trivial⟩
  obtain ⟨index, hindex, -⟩ := mapM_total (fun _ _ => True) hpad
  rw [hmax, ok_bind, hindex, ok_bind]
  exact ⟨_, rfl⟩

theorem compress_index_lt {rows : List (List ℚ)} {n : ℕ} (hsquare : Square rows n)
    {c : Compressed} (h : compress rows = .ok c) :
    ∀ index ∈ c.nonZeroIndex, ∀ k ∈ index, k < n := by
  unfold compress at h
  obtain ⟨maxLen, -, h⟩ := bind_eq_ok.mp h
  obtain ⟨padded, hpadded, h⟩ := bind_eq_ok.mp h
  cases h
  intro index hindex
  obtain ⟨entries, hentries, hpad⟩ := mem_mapM hpadded hindex
  obtain ⟨row, hmem, rfl⟩ := List.mem_map.mp hentries
  exact hsquare.rowLength row hmem ▸ padIndex_lt hpad

/-- **Compression of a matrix.** A square matrix with rows, none of them all zero, is compressed
to rows of node indices, and the sparse matrix made of them is the matrix itself. -/
theorem compress_rebuilds {rows : List (List ℚ)} {n : ℕ} (hsquare : Square rows n)
    (hne : rows ≠ []) (hrow : ∀ row ∈ rows, ∃ v ∈ row, v ≠ 0) :
    ∃ c, compress rows = .ok c ∧ c.sparseConductanceMatrix n = toMatrix rows n ∧
      ∀ index ∈ c.nonZeroIndex, ∀ k ∈ index, k < n := by
  obtain ⟨c, hc⟩ := compress_ok hne hrow
  exact ⟨c, hc, compress_sparse hsquare hc, compress_index_lt hsquare hc⟩

/-- The second row has one entry less, so its index is padded. -/
theorem compress_rebuilds_twoNodes :
    ∃ c, compress [[2, -1], [0, 1]] = .ok c ∧
      c.sparseConductanceMatrix 2 = toMatrix [[2, -1], [0, 1]] 2 ∧
      ∀ index ∈ c.nonZeroIndex, ∀ k ∈ index, k < 2 :=
  compress_rebuilds ⟨rfl, by decide⟩ (by decide) (by decide +kernel)

/-- A package without nodes has no longest row, so its matrix is not compressed. -/
theorem compress_noNodes : Square [] 0 ∧ (∀ row ∈ ([] : List (List ℚ)), ∃ v ∈ row, v ≠ 0) ∧
    compress [] = .error (.valueError "max() arg is an empty sequence") :=
  ⟨⟨rfl, by simp⟩, by simp, rfl⟩

/-- **Temperatures of a package.** With the assembled and compressed conductances of any package
of conducting layers, more power never gives a lower temperature, and power that is not negative
never one below the surroundings. -/
theorem package_temperatures_monotone {layers : List (List RcNode)}
    (hcond : ∀ nodes ∈ layers, ∀ n ∈ nodes, n.Conducting) (htwo : 2 ≤ layers.length)
    {arrays : List (List NodeEntry)} {conductance : List (List ℚ)}
    (hconnect : connectNodes layers = .ok (arrays, conductance)) {c : Compressed}
    (hcompress : compress conductance = .ok c)
    {capacitanceInverse : Fin (packageTotalNodes arrays) → ℚ}
    (hcap : ∀ i, 0 < capacitanceInverse i) {dt powerInterval : ℚ} (hdt : 0 < dt)
    (hclose : isClose dt powerInterval) (lu : Factorization (packageTotalNodes arrays)) :
    (Solver.mk c capacitanceInverse).MonotoneIn lu dt powerInterval := by
  obtain ⟨conductance', hconnect', hsquare, hmatrix⟩ := connectNodes_ok hcond htwo
  rw [hconnect'] at hconnect
  cases hconnect
  refine Solver.Dissipates.monotoneIn ⟨?_, hcap⟩ hdt hclose
  rw [compress_sparse hsquare hcompress, hmatrix]
  exact Network.matrix_dissipative _

theorem package_temperatures_monotone_small : ∃ layers arrays conductance c,
    createLayers smallPackage = .ok layers ∧ connectNodes layers = .ok (arrays, conductance) ∧
      compress conductance = .ok c ∧
        (Solver.mk c fun _ : Fin (packageTotalNodes arrays) => 1).MonotoneIn (.adjugate _)
          (1 / 100) (1 / 100) := by
  have hrun : ∃ layers ∈ (createLayers smallPackage).toOption,
      ∃ x ∈ (connectNodes layers).toOption, (compress x.2).toOption.isSome = true ∧
        2 ≤ layers.length ∧ ∀ nodes ∈ layers, ∀ n ∈ nodes, n.toNode.Positive := by
    decide +kernel
  obtain ⟨layers, hlayers, ⟨arrays, conductance⟩, hconnect, hsome, htwo, hpos⟩ := hrun
  obtain ⟨c, hc⟩ := Option.isSome_iff_exists.mp hsome
  have hcreate := toOption_eq_some.mp hlayers
  have hconnect := toOption_eq_some.mp hconnect
  have hcompress := toOption_eq_some.mp hc
  have hcond : ∀ nodes ∈ layers, ∀ n ∈ nodes, n.Conducting := fun nodes hnodes n hn =>
    createLayers_conducting hcreate (by decide +kernel) (by decide +kernel) hnodes hn
      (hpos nodes hnodes n hn)
  exact ⟨layers, arrays, conductance, c, hcreate, hconnect, hcompress,
    package_temperatures_monotone hcond htwo hconnect hcompress (fun _ => one_pos)
      (by decide +kernel) (by decide +kernel) _⟩

end Thermal

end ChipSim
