import Tachyon.Math.DensePoly

/-!
# Lagrange interpolation

`CreateLowDegreeExtensions` calls `math::LagrangeInterpolate` once per oracle of a group and
`CHECK`s that it succeeds; the routine is not part of the sources.  The spec states its
contract: the interpolant agrees with the given values at the given points, has degree below
the number of points, and the routine reports failure on repeated points.

`lagrangeInterpolate` computes the textbook form `Σⱼ vⱼ · Bⱼ / Bⱼ(xⱼ)` with
`Bⱼ = Πₘ≠ⱼ (X - xₘ)`.  `lagrangeInterpolate_spec` proves the contract: on distinct points and
as many values, it succeeds, agrees with every value, and has at most as many coefficients as
there are points.
-/

namespace Tachyon.Math

open DensePoly

variable {F : Type} [Field F]

/-- The unnormalised Lagrange basis polynomial of node `j`: `Πₘ≠ⱼ (X - xₘ)`. -/
def lagrangeBasis (points : List F) (j : ℕ) : DensePoly F := fromRoots (points.eraseIdx j)

/-- Modelled from the spec: `math::LagrangeInterpolate(points, evals, &poly)`, which fails
("non-distinct points or rank deficiency") unless there are as many values as points and the
points are distinct, and otherwise gives `Σⱼ evals[j] · Bⱼ / Bⱼ(points[j])`. -/
def lagrangeInterpolate [DecidableEq F] (points evals : List F) : Option (DensePoly F) :=
  if points.length = evals.length ∧ points.Nodup then
    some (((List.range points.length).map fun j =>
      (evals.getD j 0 * ((lagrangeBasis points j).evaluate (points.getD j 0))⁻¹) •
        lagrangeBasis points j).foldr (· + ·) 0)
  else none

/-! ## Sums of polynomials -/

lemma evaluate_foldr_add (ps : List (DensePoly F)) (x : F) :
    (ps.foldr (· + ·) 0).evaluate x = (ps.map (·.evaluate x)).sum := by
  induction ps with
  | nil => rfl
  | cons p ps ih => simp [ih]

lemma length_foldr_add_le {ps : List (DensePoly F)} {k : ℕ} (h : ∀ p ∈ ps, p.coeffs.length ≤ k) :
    (ps.foldr (· + ·) 0).coeffs.length ≤ k := by
  induction ps with
  | nil => exact Nat.zero_le _
  | cons p ps ih =>
    show (addCoeffs p.coeffs _).length ≤ k
    rw [length_addCoeffs]
    exact max_le (h p (.head _)) (ih fun q hq => h q (.tail _ hq))

/-- A sum over `0 … k-1` with one nonzero term. -/
lemma sum_range_eq_single {M : Type} [AddCommMonoid M] (g : ℕ → M) {k m : ℕ} (hm : m < k)
    (h : ∀ j < k, j ≠ m → g j = 0) : ((List.range k).map g).sum = g m := by
  induction k with
  | zero => omega
  | succ k ih =>
    rw [List.range_succ, List.map_append, List.sum_append, List.map_singleton, List.sum_singleton]
    rcases Nat.lt_succ_iff_lt_or_eq.1 hm with hm | rfl
    · rw [ih hm fun j hj => h j (by omega), h k (by omega) (by omega), add_zero]
    · rw [List.sum_eq_zero fun y hy => ?_, zero_add]
      obtain ⟨j, hj, rfl⟩ := List.mem_map.1 hy
      exact h j (by simp at hj; omega) (by simp at hj; omega)

/-! ## The basis at the nodes -/

lemma evaluate_lagrangeBasis_ne {points : List F} {j m : ℕ} (hm : m < points.length)
    (hjm : j ≠ m) : (lagrangeBasis points j).evaluate points[m] = 0 := by
  rw [lagrangeBasis, evaluate_fromRoots]
  refine List.prod_eq_zero (List.mem_map.2 ⟨points[m], ?_, sub_self _⟩)
  exact List.mem_eraseIdx_iff_getElem.2 ⟨m, hm, Ne.symm hjm, rfl⟩

lemma evaluate_lagrangeBasis_self {points : List F} (hnodup : points.Nodup) {j : ℕ}
    (hj : j < points.length) :
    (lagrangeBasis points j).evaluate points[j] ≠ 0 := by
  rw [lagrangeBasis, evaluate_fromRoots]
  refine List.prod_ne_zero fun h => ?_
  obtain ⟨y, hy, hzero⟩ := List.mem_map.1 h
  obtain ⟨i, hi, hij, rfl⟩ := List.mem_eraseIdx_iff_getElem.1 hy
  exact hij ((hnodup.getElem_inj_iff).1 (sub_eq_zero.1 hzero)).symm

/-- `LagrangeInterpolate` on distinct points and as many values: it succeeds, the result has at
most one coefficient per point (degree below the number of points), and it takes every value at
its point. -/
theorem lagrangeInterpolate_spec [DecidableEq F] {points evals : List F}
    (hlen : points.length = evals.length) (hnodup : points.Nodup) :
    ∃ R, lagrangeInterpolate points evals = some R ∧ R.coeffs.length ≤ points.length ∧
      ∀ xv ∈ points.zip evals, R.evaluate xv.1 = xv.2 := by
  refine ⟨_, if_pos ⟨hlen, hnodup⟩, length_foldr_add_le fun p hp => ?_, fun xv hxv => ?_⟩
  · obtain ⟨j, hj, rfl⟩ := List.mem_map.1 hp
    simp only [List.mem_range] at hj
    show (List.map _ (fromRoots _).coeffs).length ≤ _
    rw [List.length_map, length_fromRoots, List.length_eraseIdx_add_one hj]
  · obtain ⟨m, hm, rfl⟩ := List.mem_iff_getElem.1 hxv
    simp only [List.length_zip, lt_min_iff] at hm
    simp only [List.getElem_zip, evaluate_foldr_add, List.map_map]
    rw [sum_range_eq_single _ hm.1 fun j hj hjm => ?_]
    · simp only [Function.comp_apply, evaluate_smul, List.getD_eq_getElem _ _ hm.1,
        List.getD_eq_getElem _ _ hm.2]
      rw [mul_assoc, inv_mul_cancel₀ (evaluate_lagrangeBasis_self hnodup hm.1), mul_one]
    · simp [evaluate_lagrangeBasis_ne hm.1 hjm]

end Tachyon.Math
