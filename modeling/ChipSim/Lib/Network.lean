import Mathlib.LinearAlgebra.Matrix.NonsingularInverse
import Mathlib.LinearAlgebra.Matrix.Symmetric
import Mathlib.LinearAlgebra.Matrix.ToLinearEquiv

/-!
# Networks of conductances

A network has a conductance between every two nodes and one from every node to the ground. Its
matrix takes potentials to the currents that leave the nodes. Such a matrix is dissipative, and an
implicit time step with a dissipative matrix has one solution, which is monotone in the sources.
-/

namespace Lib

open Matrix

variable {V K : Type*} [Fintype V] [Field K] [LinearOrder K] [IsStrictOrderedRing K]

/-! ## Dissipative matrices -/

/-- No coupling between two nodes is positive, and no row has a negative sum. -/
structure Dissipative (G : Matrix V V K) : Prop where
  offDiag_nonpos : ∀ i j, i ≠ j → G i j ≤ 0
  rowSum_nonneg : ∀ i, 0 ≤ ∑ j, G i j

/-- **Minimum principle.** With positive row sums the solution of a system with a non-negative
right-hand side is non-negative: at its least entry a negative value would make the row negative. -/
theorem nonneg_of_mulVec_nonneg {A : Matrix V V K} (hoff : ∀ i j, i ≠ j → A i j ≤ 0)
    (hsum : ∀ i, 0 < ∑ j, A i j) {x : V → K} (h : ∀ i, 0 ≤ (A *ᵥ x) i) (i : V) : 0 ≤ x i := by
  have : Nonempty V := ⟨i⟩
  obtain ⟨m, hm⟩ := Finite.exists_min x
  by_contra hi
  have hneg : x m < 0 := (hm i).trans_lt (not_le.mp hi)
  have hrow : (A *ᵥ x) m ≤ (∑ j, A m j) * x m := by
    rw [Finset.sum_mul]
    refine Finset.sum_le_sum fun j _ => ?_
    by_cases hj : m = j
    · rw [hj]
    · exact mul_le_mul_of_nonpos_left (hm j) (hoff m j hj)
  exact absurd (h m) (not_le.mpr (hrow.trans_lt (mul_neg_of_pos_of_neg (hsum m) hneg)))

/-- Such a matrix has an inverse. -/
theorem det_ne_zero_of_rowSum_pos [DecidableEq V] {A : Matrix V V K}
    (hoff : ∀ i j, i ≠ j → A i j ≤ 0) (hsum : ∀ i, 0 < ∑ j, A i j) : A.det ≠ 0 := by
  intro hdet
  obtain ⟨x, hx, hzero⟩ := Matrix.exists_mulVec_eq_zero_iff.mpr hdet
  apply hx
  funext i
  have hle : 0 ≤ x i := nonneg_of_mulVec_nonneg hoff hsum (fun j => by rw [hzero]; rfl) i
  have hge : 0 ≤ (-x) i :=
    nonneg_of_mulVec_nonneg hoff hsum (fun j => by rw [Matrix.mulVec_neg, hzero, neg_zero]; rfl) i
  exact le_antisymm (neg_nonneg.mp hge) hle

/-! ## The implicit step -/

section ImplicitStep

variable [DecidableEq V] {G : Matrix V V K} {c : V → K} {dt : K}

/-- The matrix of one implicit step of `x' = -c G x`. -/
def implicitMatrix (G : Matrix V V K) (c : V → K) (dt : K) : Matrix V V K :=
  1 + dt • (Matrix.diagonal c * G)

omit [LinearOrder K] [IsStrictOrderedRing K] in
theorem implicitMatrix_apply (i j : V) :
    implicitMatrix G c dt i j = (1 : Matrix V V K) i j + dt * (c i * G i j) := by
  unfold implicitMatrix
  rw [Matrix.add_apply, Matrix.smul_apply, Matrix.diagonal_mul, smul_eq_mul]

theorem Dissipative.implicit_offDiag (hG : Dissipative G) (hc : ∀ i, 0 < c i) (hdt : 0 < dt)
    (i j : V) (hij : i ≠ j) : implicitMatrix G c dt i j ≤ 0 := by
  rw [implicitMatrix_apply, Matrix.one_apply_ne hij, zero_add]
  exact mul_nonpos_of_nonneg_of_nonpos hdt.le
    (mul_nonpos_of_nonneg_of_nonpos (hc i).le (hG.offDiag_nonpos i j hij))

theorem Dissipative.implicit_rowSum (hG : Dissipative G) (hc : ∀ i, 0 < c i) (hdt : 0 < dt)
    (i : V) : 0 < ∑ j, implicitMatrix G c dt i j := by
  have hsum : ∑ j, implicitMatrix G c dt i j = 1 + dt * (c i * ∑ j, G i j) := by
    simp only [implicitMatrix_apply, Finset.sum_add_distrib, ← Finset.mul_sum, Matrix.one_apply,
      Finset.sum_ite_eq, Finset.mem_univ, if_true]
  rw [hsum]
  have hnonneg : 0 ≤ dt * (c i * ∑ j, G i j) :=
    mul_nonneg hdt.le (mul_nonneg (hc i).le (hG.rowSum_nonneg i))
  exact add_pos_of_pos_of_nonneg one_pos hnonneg

theorem Dissipative.implicit_det_ne_zero (hG : Dissipative G) (hc : ∀ i, 0 < c i)
    (hdt : 0 < dt) : (implicitMatrix G c dt).det ≠ 0 :=
  det_ne_zero_of_rowSum_pos (hG.implicit_offDiag hc hdt) (hG.implicit_rowSum hc hdt)

/-- A step is monotone in the right-hand side. -/
theorem Dissipative.implicit_mono (hG : Dissipative G) (hc : ∀ i, 0 < c i) (hdt : 0 < dt)
    {b b' x x' : V → K} (hb : b ≤ b') (hx : implicitMatrix G c dt *ᵥ x = b)
    (hx' : implicitMatrix G c dt *ᵥ x' = b') : x ≤ x' := by
  intro i
  have hdiff : 0 ≤ (x' - x) i := by
    refine nonneg_of_mulVec_nonneg (hG.implicit_offDiag hc hdt) (hG.implicit_rowSum hc hdt) ?_ i
    intro j
    rw [Matrix.mulVec_sub, hx, hx']
    exact sub_nonneg.mpr (hb j)
  exact sub_nonneg.mp hdiff

end ImplicitStep

/-! ## Networks -/

/-- Conductances between nodes and to the ground. -/
structure Network (V K : Type*) [Field K] [LinearOrder K] where
  cond : V → V → K
  ground : V → K
  cond_symm : ∀ i j, cond i j = cond j i
  cond_nonneg : ∀ i j, 0 ≤ cond i j
  cond_self : ∀ i, cond i i = 0
  ground_nonneg : ∀ i, 0 ≤ ground i

namespace Network

variable [DecidableEq V] (N : Network V K)

/-- The currents that leave the nodes at given potentials, as a matrix. -/
def matrix : Matrix V V K :=
  Matrix.diagonal (fun i => ∑ j, N.cond i j + N.ground i) - Matrix.of N.cond

omit [IsStrictOrderedRing K] in
theorem matrix_ne {i j : V} (h : i ≠ j) : N.matrix i j = -N.cond i j := by
  unfold matrix
  rw [Matrix.sub_apply, Matrix.diagonal_apply_ne _ h, Matrix.of_apply, zero_sub]

omit [IsStrictOrderedRing K] in
theorem matrix_isSymm : N.matrix.IsSymm := by
  apply Matrix.IsSymm.ext
  intro i j
  by_cases h : i = j
  · rw [h]
  · rw [N.matrix_ne h, N.matrix_ne (Ne.symm h), N.cond_symm]

omit [IsStrictOrderedRing K] in
/-- The potential difference to the other nodes cancels in a row: what is left is the ground. -/
theorem matrix_rowSum (i : V) : ∑ j, N.matrix i j = N.ground i := by
  unfold matrix
  simp only [Matrix.sub_apply, Matrix.of_apply, Matrix.diagonal_apply, Finset.sum_sub_distrib,
    Finset.sum_ite_eq, Finset.mem_univ, if_true]
  exact add_sub_cancel_left _ _

theorem matrix_dissipative : Dissipative N.matrix where
  offDiag_nonpos i j h := by
    rw [N.matrix_ne h]
    exact neg_nonpos.mpr (N.cond_nonneg i j)
  rowSum_nonneg i := by
    rw [N.matrix_rowSum]
    exact N.ground_nonneg i

end Network

end Lib
