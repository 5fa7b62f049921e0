import Tachyon.Zk.Lookup.Prover
import Tachyon.Base.Parallelize
import Mathlib

/-!
# The lookup grand product

`CreateNumeratorCallback` and `CreateDenominatorCallback` give the rows of the grand product
`Z` of one lookup argument.  Row `i` of the numerator multiplies the value there by
`(A(xᵢ) + β)(S(xᵢ) + γ)`, from the compressed pair; row `i` of the denominator is overwritten
with `(A'(xᵢ) + β)(S'(xᵢ) + γ)`, from the permuted pair.

When `A'` is a permutation of `A` and `S'` one of `S` on the rows `0 … u-1`, both sides are
products of the same factors, so the running product of the ratios that
`GrandProductArgument::CreatePoly` accumulates comes back to `1` after `u` rows.  A column may
be shorter than `u`; the callbacks then read zero past its end (`getD`), on both sides alike.

Both callbacks are row-wise: the value of a row depends on that row alone, counted from
`chunk_index * chunk_size`.  So `base::Parallelize` gives the same vector whatever the chunk
size, the same as one call on the whole vector, and it reads the columns only on the rows of
the vector (`parallelize_grandProductCallbacks`).

`GrandProductArgument::CreatePoly` is not part of the sources; `createGrandProduct` models it
from the spec.
-/

namespace Tachyon.Zk.Lookup.Halo2

variable {Poly F : Type}

/-! ## The callbacks, row by row -/

section CommRing
variable [CommRing F]

/-- The numerator loop multiplies the `j`-th value of a chunk starting at row `i` by row
`i + j`'s factors. -/
lemma numeratorLoop_eq (cp : LookupPair (List F)) (beta gamma : F) :
    ∀ (chunk : List F) (i : ℕ), numeratorLoop cp beta gamma chunk i =
      List.zipWith (fun value j => value * (cp.input.getD j 0 + beta) * (cp.table.getD j 0 + gamma))
        chunk (List.range' i chunk.length)
  | [], _ => rfl
  | v :: chunk, i => by
    simp [numeratorLoop, numeratorLoop_eq cp beta gamma chunk (i + 1), List.range'_succ]

/-- The denominator loop overwrites the `j`-th value of a chunk starting at row `i` with row
`i + j`'s factors. -/
lemma denominatorLoop_eq (pp : LookupPair (BlindedPolynomial Poly F)) (beta gamma : F) :
    ∀ (chunk : List F) (i : ℕ), denominatorLoop pp beta gamma chunk i =
      (List.range' i chunk.length).map fun j =>
        (pp.input.evals.getD j 0 + beta) * (pp.table.evals.getD j 0 + gamma)
  | [], _ => rfl
  | _ :: chunk, i => by
    simp [denominatorLoop, denominatorLoop_eq pp beta gamma chunk (i + 1), List.range'_succ]

omit [CommRing F] in
/-- Rows `0 … u-1` of a column read with `getD`: its first `u` entries, then zeros. -/
lemma map_range_getD [Zero F] (A : List F) (u : ℕ) :
    (List.range u).map (fun j => A.getD j 0) = A.take u ++ List.replicate (u - A.length) 0 := by
  refine List.ext_getElem (by simp; omega) fun j h₁ _ => ?_
  simp only [List.length_map, List.length_range] at h₁
  simp only [List.getElem_map, List.getElem_range, List.getD_eq_getElem?_getD]
  by_cases hj : j < A.length
  · rw [List.getElem_append_left (by simp; omega)]
    simp [hj]
  · rw [List.getElem_append_right (by simp; omega), List.getElem?_eq_none (by omega)]
    simp

omit [CommRing F] in
/-- Columns that agree up to order on their first `u` entries agree up to order on rows
`0 … u-1`, zeros past the end included. -/
lemma perm_map_range_getD [Zero F] {A A' : List F} {u : ℕ} (h : (A.take u).Perm (A'.take u)) :
    ((List.range u).map fun j => A.getD j 0).Perm ((List.range u).map fun j => A'.getD j 0) := by
  have hlen := h.length_eq
  simp only [List.length_take] at hlen
  rw [map_range_getD, map_range_getD, show u - A.length = u - A'.length by omega]
  exact h.append_right _

/-- The product of `f` over rows `0 … u-1` of a column depends on its first `u` entries only up
to order. -/
lemma prod_rows_eq {A A' : List F} {u : ℕ} (h : (A.take u).Perm (A'.take u)) (f : F → F) :
    ((List.range u).map fun j => f (A.getD j 0)).prod =
      ((List.range u).map fun j => f (A'.getD j 0)).prod := by
  have := ((perm_map_range_getD h).map f).prod_eq
  simpa only [List.map_map, Function.comp_def] using this

/-- The numerator loop on values given row by row. -/
lemma numeratorLoop_map (cp : LookupPair (List F)) (beta gamma : F) (f : ℕ → F) (i n : ℕ) :
    numeratorLoop cp beta gamma ((List.range' i n).map f) i =
      (List.range' i n).map fun j => f j * (cp.input.getD j 0 + beta) * (cp.table.getD j 0 + gamma) := by
  rw [numeratorLoop_eq, List.length_map, List.length_range', List.zipWith_map_left,
    List.zipWith_same]

/-- The numerator rows, from `1`: `(A(xᵢ) + β)(S(xᵢ) + γ)`. -/
lemma createNumeratorCallback_ones (cp : LookupPair (List F)) (beta gamma : F) (u : ℕ) :
    createNumeratorCallback cp beta gamma (List.replicate u 1) 0 u =
      (List.range u).map fun j => (cp.input.getD j 0 + beta) * (cp.table.getD j 0 + gamma) := by
  have h := numeratorLoop_map cp beta gamma (fun _ => 1) 0 u
  rw [List.map_const', List.length_range'] at h
  simp [createNumeratorCallback, h, List.range_eq_range', mul_assoc]

/-- The denominator rows: `(A'(xᵢ) + β)(S'(xᵢ) + γ)`, whatever the chunk held. -/
lemma createDenominatorCallback_eq (pp : LookupPair (BlindedPolynomial Poly F)) (beta gamma : F)
    (chunk : List F) :
    createDenominatorCallback pp beta gamma chunk 0 chunk.length =
      (List.range chunk.length).map fun j =>
        (pp.input.evals.getD j 0 + beta) * (pp.table.evals.getD j 0 + gamma) := by
  rw [createDenominatorCallback, denominatorLoop_eq, Nat.zero_mul, List.range_eq_range']

/-! ## Chunked runs -/

open Base

lemma createNumeratorCallback_rowWise (cp : LookupPair (List F)) (beta gamma : F) :
    RowWise (createNumeratorCallback cp beta gamma)
      fun value j => value * (cp.input.getD j 0 + beta) * (cp.table.getD j 0 + gamma) :=
  fun chunk chunkIndex chunkSize => numeratorLoop_eq cp beta gamma chunk (chunkIndex * chunkSize)

lemma createDenominatorCallback_rowWise (pp : LookupPair (BlindedPolynomial Poly F))
    (beta gamma : F) :
    RowWise (createDenominatorCallback pp beta gamma)
      fun _ j => (pp.input.evals.getD j 0 + beta) * (pp.table.evals.getD j 0 + gamma) := by
  intro chunk chunkIndex chunkSize
  rw [createDenominatorCallback, denominatorLoop_eq]
  exact List.ext_getElem (by simp) fun i _ _ => by simp

/-- **Chunking does not matter.**  For every chunk size `c ≥ 1` and every vector, `Parallelize`
with the numerator callback leaves `value[i] · (A(xᵢ) + β) · (S(xᵢ) + γ)` in row `i`, as one call
on the whole vector does, and reads `A` and `S` only on the rows of the vector; with the
denominator callback it leaves `(A'(xᵢ) + β)(S'(xᵢ) + γ)`, as one call does. -/
theorem parallelize_grandProductCallbacks (cp : LookupPair (List F))
    (pp : LookupPair (BlindedPolynomial Poly F)) (beta gamma : F) (values : List F)
    (chunkSize : ℕ) (hc : 1 ≤ chunkSize) :
    (parallelize values (createNumeratorCallback cp beta gamma) chunkSize =
        createNumeratorCallback cp beta gamma values 0 values.length ∧
      (∀ i (hi : i < values.length),
        (parallelize values (createNumeratorCallback cp beta gamma) chunkSize)[i]? =
          some (values[i] * (cp.input.getD i 0 + beta) * (cp.table.getD i 0 + gamma))) ∧
      parallelize values (createNumeratorCallback cp beta gamma) chunkSize =
        parallelize values (createNumeratorCallback
          ⟨cp.input.take values.length, cp.table.take values.length⟩ beta gamma) chunkSize) ∧
    (parallelize values (createDenominatorCallback pp beta gamma) chunkSize =
        createDenominatorCallback pp beta gamma values 0 values.length ∧
      ∀ i < values.length, (parallelize values (createDenominatorCallback pp beta gamma) chunkSize)[i]? =
        some ((pp.input.evals.getD i 0 + beta) * (pp.table.evals.getD i 0 + gamma))) := by
  have hnum := createNumeratorCallback_rowWise cp beta gamma
  have hden := createDenominatorCallback_rowWise pp beta gamma
  rw [parallelize_rowWise hnum hc, parallelize_rowWise hden hc, hnum.whole, hden.whole,
    parallelize_rowWise (createNumeratorCallback_rowWise _ beta gamma) hc]
  refine ⟨⟨rfl, fun i hi => getElem?_zipWith_range _ _ hi, zipWith_range_congr _ ?_⟩,
    rfl, fun i hi => getElem?_zipWith_range _ _ hi⟩
  -- below the length of the vector, the truncated columns read the same
  intro value j hj
  simp [List.getElem?_take, hj]

/-- The spec's lookup pairs on three rows in chunks of two, the last chunk of one row. -/
theorem parallelize_grandProductCallbacks_threeRows :
    let cp : LookupPair (List ℚ) := ⟨[1, 2, 3, 1], [1, 2, 3, 4]⟩
    let pp : LookupPair (BlindedPolynomial Unit ℚ) :=
      ⟨⟨[1, 1, 2, 3], (), 0⟩, ⟨[1, 4, 2, 3], (), 0⟩⟩
    let values : List ℚ := [2, 3, 5]
    1 ≤ 2 ∧
    (parallelize values (createNumeratorCallback cp 5 7) 2 =
        createNumeratorCallback cp 5 7 values 0 values.length ∧
      (∀ i (hi : i < values.length), (parallelize values (createNumeratorCallback cp 5 7) 2)[i]? =
          some (values[i] * (cp.input.getD i 0 + 5) * (cp.table.getD i 0 + 7))) ∧
      parallelize values (createNumeratorCallback cp 5 7) 2 =
        parallelize values (createNumeratorCallback
          ⟨cp.input.take values.length, cp.table.take values.length⟩ 5 7) 2) ∧
    (parallelize values (createDenominatorCallback pp 5 7) 2 =
        createDenominatorCallback pp 5 7 values 0 values.length ∧
      ∀ i < values.length, (parallelize values (createDenominatorCallback pp 5 7) 2)[i]? =
        some ((pp.input.evals.getD i 0 + 5) * (pp.table.evals.getD i 0 + 7))) :=
  ⟨by decide, parallelize_grandProductCallbacks _ _ 5 7 [2, 3, 5] 2 (by decide)⟩

end CommRing

/-! ## Telescoping -/

/-- The running product after all of `l` is the product of `l`. -/
lemma getElem?_scanl_mul_length {M : Type} [Monoid M] (a : M) :
    ∀ (l : List M) {n : ℕ}, l.length = n → (l.scanl (· * ·) a)[n]? = some (a * l.prod)
  | [], _, rfl => by simp
  | x :: l, _, rfl => by
    simp [List.scanl_cons, getElem?_scanl_mul_length (a * x) l rfl, mul_assoc]

section Field
variable [Field F]

/-- Modelled from the spec: `GrandProductArgument::CreatePoly` over `n` rows, "the standard
ratio accumulator".  The denominator callback writes every row, the vector is inverted, the
numerator callback multiplies each row's numerator in, and `Z` starts at `1` and multiplies the
ratios in row by row, so that `Z(ωⁱ⁺¹) = Z(ωⁱ) · numᵢ / denᵢ`. -/
def createGrandProduct (n : ℕ) (numeratorCallback denominatorCallback : Callback F) : List F :=
  (numeratorCallback ((denominatorCallback (List.replicate n 0) 0 n).map (·⁻¹)) 0 n).scanl
    (· * ·) 1

/-- Ratios of nonzero denominators: their product times the denominators' product is the
numerators' product. -/
lemma prod_ratios_mul {ι : Type} (l : List ι) (num den : ι → F) (hden : ∀ j ∈ l, den j ≠ 0) :
    (l.map fun j => (den j)⁻¹ * num j).prod * (l.map den).prod = (l.map num).prod := by
  induction l with
  | nil => simp
  | cons j l ih =>
    simp only [List.map_cons, List.prod_cons]
    rw [← ih fun k hk => hden k (.tail _ hk), mul_mul_mul_comm, mul_right_comm (den j)⁻¹,
      inv_mul_cancel₀ (hden j (.head _)), one_mul]

/-- The lookup grand product closes: when `A'` permutes `A` and `S'` permutes `S` on the rows
`0 … u-1`, the numerator rows and the denominator rows have equal products; and when no
denominator vanishes, the running product of their ratios starts at `1` and is `1` again after
`u` rows. -/
theorem grandProduct_closes (u : ℕ) (cp : LookupPair (List F))
    (pp : LookupPair (BlindedPolynomial Poly F)) (beta gamma : F)
    (hA : (pp.input.evals.take u).Perm (cp.input.take u))
    (hS : (pp.table.evals.take u).Perm (cp.table.take u)) :
    (createNumeratorCallback cp beta gamma (List.replicate u 1) 0 u).prod =
      (createDenominatorCallback pp beta gamma (List.replicate u 0) 0 u).prod ∧
    ((∀ d ∈ createDenominatorCallback pp beta gamma (List.replicate u 0) 0 u, d ≠ 0) →
      let z := createGrandProduct u (createNumeratorCallback cp beta gamma)
        (createDenominatorCallback pp beta gamma)
      z[0]? = some 1 ∧ z[u]? = some 1) := by
  have hden := createDenominatorCallback_eq pp beta gamma (List.replicate u 0)
  rw [List.length_replicate] at hden
  have hprod : (createNumeratorCallback cp beta gamma (List.replicate u 1) 0 u).prod =
      (createDenominatorCallback pp beta gamma (List.replicate u 0) 0 u).prod := by
    rw [createNumeratorCallback_ones, hden, List.prod_map_mul, List.prod_map_mul,
      prod_rows_eq hA (· + beta), prod_rows_eq hS (· + gamma)]
  refine ⟨hprod, fun hne => ⟨List.getElem?_scanl_zero, ?_⟩⟩
  -- the ratios: the inverted denominators, scaled by the numerator callback
  have hratios : createNumeratorCallback cp beta gamma
      ((createDenominatorCallback pp beta gamma (List.replicate u 0) 0 u).map (·⁻¹)) 0 u =
      (List.range u).map fun j =>
        ((pp.input.evals.getD j 0 + beta) * (pp.table.evals.getD j 0 + gamma))⁻¹ *
          ((cp.input.getD j 0 + beta) * (cp.table.getD j 0 + gamma)) := by
    rw [hden, createNumeratorCallback, Nat.zero_mul, List.map_map, List.range_eq_range']
    rw [numeratorLoop_map]
    simp [mul_assoc]
  rw [hden] at hne hprod
  rw [createNumeratorCallback_ones] at hprod
  have hD := List.prod_ne_zero fun h => hne 0 h rfl
  have hone := (prod_ratios_mul _ _ _ fun j hj => hne _ (List.mem_map_of_mem _ hj)).trans hprod
  show (createGrandProduct u _ _)[u]? = some 1
  rw [createGrandProduct, hratios,
    getElem?_scanl_mul_length 1 _ ((List.length_map _ _).trans (List.length_range u)), one_mul,
    (mul_left_eq_self₀.1 hone).resolve_right hD]

/-- The spec's lookup example: input `[1, 2, 3, 1]` against table `[1, 2, 3, 4]`, permuted to
`A' = [1, 1, 2, 3]` and `S' = [1, 4, 2, 3]`. -/
theorem grandProduct_closes_example :
    let cp : LookupPair (List ℚ) := ⟨[1, 2, 3, 1], [1, 2, 3, 4]⟩
    let pp : LookupPair (BlindedPolynomial Unit ℚ) :=
      ⟨⟨[1, 1, 2, 3], (), 0⟩, ⟨[1, 4, 2, 3], (), 0⟩⟩
    (pp.input.evals.take 4).Perm (cp.input.take 4) ∧
    (pp.table.evals.take 4).Perm (cp.table.take 4) ∧
    (createNumeratorCallback cp 5 7 (List.replicate 4 1) 0 4).prod =
      (createDenominatorCallback pp 5 7 (List.replicate 4 0) 0 4).prod ∧
    ((∀ d ∈ createDenominatorCallback pp 5 7 (List.replicate 4 0) 0 4, d ≠ 0) →
      let z := createGrandProduct 4 (createNumeratorCallback cp 5 7)
        (createDenominatorCallback pp 5 7)
      z[0]? = some 1 ∧ z[4]? = some 1) :=
  ⟨by decide, by decide, grandProduct_closes 4 _ _ 5 7 (by decide) (by decide)⟩

end Field

end Tachyon.Zk.Lookup.Halo2
