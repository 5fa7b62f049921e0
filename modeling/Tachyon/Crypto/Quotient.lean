import Tachyon.Crypto.Grouping
import Tachyon.Math.LagrangeInterpolation

/-!
# The combined quotient of a group

`GroupedPolynomialOpenings::CreateCombinedLowDegreeExtensions` turns one emitted group
`({(Pᵢ, [Pᵢ(x₀), …, Pᵢ(xₖ₋₁)])}ᵢ, [x₀, …, xₖ₋₁])` and a challenge `r` into the low-degree
extensions `Rᵢ` of the openings and the quotient

  `H = (Σᵢ rⁱ (Pᵢ - Rᵢ)) / Πⱼ (X - xⱼ)`,

the spec's QuotientBuilder.  Here the oracles are the polynomials themselves (the prover side,
`PolyOracle = Poly`), points and openings are field elements, and the polynomial routines are
those of `Tachyon.Math`.

`createCombinedLowDegreeExtensions_exact` says that on every batch of true openings, every
group the grouper emits goes through: each `LagrangeInterpolate` succeeds, each `Rᵢ` agrees
with `Pᵢ` on the group's points and has degree below their number, and the division leaves no
remainder.  It rests on the grouper's guarantees (sorted, hence distinct, points; one opening
per point; every entry a claim of the batch), on `lagrangeInterpolate_spec`, and on
`toPolynomial_div`.
-/

namespace Tachyon.Crypto

open Base Math DensePoly Polynomial

variable {F : Type} [Field F] [LinearOrder F]

namespace GroupedPolynomialOpenings

/-- `CreateOwnedPoints`: the values behind `point_refs`. -/
def createOwnedPoints (G : GroupedPolynomialOpenings (DensePoly F) F F) : List F := G.pointRefs

/-- `CreateLowDegreeExtensions`: `CHECK(LagrangeInterpolate(owned_points, openings, &lde))`
for each oracle, in order. -/
def createLowDegreeExtensions (G : GroupedPolynomialOpenings (DensePoly F) F F)
    (ownedPoints : List F) : Option (List (DensePoly F)) :=
  G.polyOpeningsVec.mapM fun polyOpenings => lagrangeInterpolate ownedPoints polyOpenings.openings

/-- `CombineLowDegreeExtensions`: the numerators `Pᵢ - Rᵢ`, linearised with the powers of `r`,
divided by the vanishing polynomial of the points. -/
def combineLowDegreeExtensions (G : GroupedPolynomialOpenings (DensePoly F) F F) (r : F)
    (ownedPoints : List F) (lowDegreeExtensions : List (DensePoly F)) : DensePoly F :=
  let numerators := (G.polyOpeningsVec.zip lowDegreeExtensions).map fun q => q.1.polyOracle - q.2
  let n := linearizeInPlace numerators r
  let vanishingPoly := fromRoots ownedPoints
  n / vanishingPoly

/-- `CreateCombinedLowDegreeExtensions`: the quotient, and the extensions it writes to
`low_degree_extensions`. -/
def createCombinedLowDegreeExtensions (G : GroupedPolynomialOpenings (DensePoly F) F F) (r : F) :
    Option (DensePoly F × List (DensePoly F)) := do
  let ownedPoints := G.createOwnedPoints
  let lowDegreeExtensions ← G.createLowDegreeExtensions ownedPoints
  pure (G.combineLowDegreeExtensions r ownedPoints lowDegreeExtensions, lowDegreeExtensions)

end GroupedPolynomialOpenings

open GroupedPolynomialOpenings

omit [LinearOrder F] in
/-- A polynomial that vanishes at distinct points is a multiple of their vanishing polynomial. -/
lemma prod_X_sub_C_dvd_of_eval {p : F[X]} {xs : List F} (hxs : xs.Nodup)
    (hroot : ∀ x ∈ xs, p.eval x = 0) : (xs.map fun x => X - C x).prod ∣ p := by
  rcases eq_or_ne p 0 with rfl | hp
  · exact dvd_zero _
  have hle : (xs : Multiset F) ≤ p.roots :=
    (Multiset.le_iff_subset (Multiset.coe_nodup.2 hxs)).2 fun x hx =>
      (mem_roots hp).2 (hroot x hx)
  simpa using (Multiset.prod_X_sub_C_dvd_iff_le_roots hp _).2 hle

omit [LinearOrder F] in
/-- Division by a monic polynomial is exact exactly when it divides. -/
lemma divByMonic_mul_eq_iff_dvd {p q : F[X]} (hq : q.Monic) : p /ₘ q * q = p ↔ q ∣ p := by
  refine ⟨fun h => ⟨p /ₘ q, h.symm.trans (mul_comm _ _)⟩, fun h => ?_⟩
  have := modByMonic_add_div p hq
  rwa [(modByMonic_eq_zero_iff_dvd hq).2 h, zero_add, mul_comm] at this

omit [LinearOrder F] in
lemma monic_prod_X_sub_C (xs : List F) : (xs.map fun x => X - C x).prod.Monic := by
  rw [← toPolynomial_fromRoots]
  exact (monic_ofCoeffs (top_fromRoots xs)).1

omit [LinearOrder F] in
/-- The numerator `N = Σᵢ rⁱ (Pᵢ - Rᵢ)` that `LinearizeInPlace` builds. -/
lemma toPolynomial_linearizeInPlace_numerators (G : GroupedPolynomialOpenings (DensePoly F) F F)
    (R : List (DensePoly F)) (r : F) :
    toPolynomial (linearizeInPlace ((G.polyOpeningsVec.zip R).map fun q =>
      q.1.polyOracle - q.2) r) = ((G.polyOpeningsVec.zip R).enum.map fun iq =>
        C (r ^ iq.1) * (toPolynomial iq.2.1.polyOracle - toPolynomial iq.2.2)).sum := by
  rw [toPolynomial_linearizeInPlace, List.enum_map, List.map_map]
  simp [Function.comp_def]

omit [LinearOrder F] in
/-- `CombineLowDegreeExtensions` is the quotient of Euclidean division of
`N = Σᵢ rⁱ (Pᵢ - Rᵢ)` by `Z = Πⱼ (X - xⱼ)`: `n /= vanishing_poly` keeps no remainder. -/
lemma toPolynomial_combineLowDegreeExtensions (G : GroupedPolynomialOpenings (DensePoly F) F F)
    (R : List (DensePoly F)) (r : F) :
    toPolynomial (G.combineLowDegreeExtensions r G.pointRefs R) =
      ((G.polyOpeningsVec.zip R).enum.map fun iq =>
        C (r ^ iq.1) * (toPolynomial iq.2.1.polyOracle - toPolynomial iq.2.2)).sum /ₘ
        (G.pointRefs.map fun x => X - C x).prod := by
  rw [combineLowDegreeExtensions, (toPolynomial_div _ _ (top_fromRoots _)).1,
    toPolynomial_linearizeInPlace_numerators, toPolynomial_fromRoots]

/-- `CreateLowDegreeExtensions` on distinct points with one opening per point: every
interpolation succeeds, and each `Rᵢ` has at most one coefficient per point and takes the
recorded openings there. -/
lemma createLowDegreeExtensions_interpolates {G : GroupedPolynomialOpenings (DensePoly F) F F}
    (hnodup : G.pointRefs.Nodup)
    (hlen : ∀ po ∈ G.polyOpeningsVec, po.openings.length = G.pointRefs.length) :
    ∃ R, G.createLowDegreeExtensions G.pointRefs = some R ∧
      List.Forall₂ (fun po Ri => Ri.coeffs.length ≤ G.pointRefs.length ∧
        ∀ xv ∈ G.pointRefs.zip po.openings, Ri.evaluate xv.1 = xv.2) G.polyOpeningsVec R := by
  have hspec : ∀ po ∈ G.polyOpeningsVec, ∃ Ri,
      lagrangeInterpolate G.pointRefs po.openings = some Ri ∧
        Ri.coeffs.length ≤ G.pointRefs.length ∧
        ∀ xv ∈ G.pointRefs.zip po.openings, Ri.evaluate xv.1 = xv.2 := fun po hpo =>
    lagrangeInterpolate_spec (hlen po hpo).symm hnodup
  obtain ⟨R, hR⟩ := Option.isSome_iff_exists.1 <| isSome_mapM_iff.2 fun po hpo =>
    Option.isSome_iff_exists.2 <| (hspec po hpo).imp fun _ h => h.1
  refine ⟨R, hR, ((List.forall₂_and_left _ _).2 ⟨hspec, mapM_eq_some_iff.1 hR⟩).imp ?_⟩
  rintro po Ri ⟨⟨Ri', hRi', hspec'⟩, hRi⟩
  exact Option.some.inj (hRi'.symm.trans hRi) ▸ hspec'

/-- `CreateLowDegreeExtensions` on distinct points whose openings are the true evaluations of
their oracles: every interpolation succeeds, and each `Rᵢ` has at most one coefficient per
point and agrees with `Pᵢ` on the points. -/
lemma createLowDegreeExtensions_spec {G : GroupedPolynomialOpenings (DensePoly F) F F}
    (hnodup : G.pointRefs.Nodup)
    (htrue : ∀ po ∈ G.polyOpeningsVec,
      List.Forall₂ (fun x v => v = po.polyOracle.evaluate x) G.pointRefs po.openings) :
    ∃ R, G.createLowDegreeExtensions G.pointRefs = some R ∧
      List.Forall₂ (fun po Ri => Ri.coeffs.length ≤ G.pointRefs.length ∧
        ∀ x ∈ G.pointRefs, Ri.evaluate x = po.polyOracle.evaluate x) G.polyOpeningsVec R := by
  obtain ⟨R, hR, hRspec⟩ := createLowDegreeExtensions_interpolates hnodup fun po hpo =>
    (htrue po hpo).length_eq.symm
  refine ⟨R, hR, ((List.forall₂_and_left _ _).2 ⟨htrue, hRspec⟩).imp ?_⟩
  rintro po Ri ⟨hpo, hle, hval⟩
  refine ⟨hle, fun x hx => ?_⟩
  obtain ⟨v, hv, hxv⟩ := exists_mem_zip_of_forall₂ hpo hx
  rw [hval _ hxv, hv]

omit [LinearOrder F] in
/-- `CombineLowDegreeExtensions` with extensions that agree with their oracles on distinct
points divides exactly: `H · Πⱼ (X - xⱼ) = Σᵢ rⁱ (Pᵢ - Rᵢ)`. -/
lemma combineLowDegreeExtensions_mul {G : GroupedPolynomialOpenings (DensePoly F) F F}
    {R : List (DensePoly F)} (hnodup : G.pointRefs.Nodup)
    (hagree : ∀ q ∈ G.polyOpeningsVec.zip R, ∀ x ∈ G.pointRefs,
      q.2.evaluate x = q.1.polyOracle.evaluate x) (r : F) :
    toPolynomial (G.combineLowDegreeExtensions r G.pointRefs R) *
        (G.pointRefs.map fun x => X - C x).prod =
      ((G.polyOpeningsVec.zip R).enum.map fun iq =>
        C (r ^ iq.1) * (toPolynomial iq.2.1.polyOracle - toPolynomial iq.2.2)).sum := by
  rw [toPolynomial_combineLowDegreeExtensions, divByMonic_mul_eq_iff_dvd (monic_prod_X_sub_C _)]
  -- the numerator vanishes on the points, so the vanishing polynomial divides it
  refine prod_X_sub_C_dvd_of_eval hnodup fun x hx => ?_
  refine (eval₂_list_sum (RingHom.id F) _ x).trans (List.sum_eq_zero fun y hy => ?_)
  obtain ⟨_, hp, rfl⟩ := List.mem_map.1 hy
  obtain ⟨iq, hiq, rfl⟩ := List.mem_map.1 hp
  show eval x _ = 0
  simp [← evaluate_eq, hagree _ (List.snd_mem_of_mem_enum hiq) x hx]

/-- **Quotient exactness.**  On a batch whose openings are the true evaluations of their
oracles, every group `GroupByPolyAndPoints` emits goes through
`CreateCombinedLowDegreeExtensions` for every `r`: the interpolation `CHECK`s pass, `Rᵢ` has
degree below the number `k` of points and agrees with `Pᵢ` on them, and
`H · Πⱼ (X - xⱼ) = Σᵢ rⁱ (Pᵢ - Rᵢ)` exactly. -/
theorem createCombinedLowDegreeExtensions_exact (L : List (PolynomialOpening (DensePoly F) F F))
    (htrue : ∀ c ∈ L, c.opening = c.polyOracle.evaluate c.point) (r : F) :
    ∃ g, groupByPolyAndPoints .empty L = some g ∧
      ∀ G ∈ g.groupedPolyOpeningsVec, ∃ H R, G.createCombinedLowDegreeExtensions r = some (H, R) ∧
        R.length = G.polyOpeningsVec.length ∧
        (∀ Ri ∈ R, (toPolynomial Ri).degree < G.pointRefs.length) ∧
        (∀ q ∈ G.polyOpeningsVec.zip R, ∀ x ∈ G.pointRefs,
          q.2.evaluate x = q.1.polyOracle.evaluate x) ∧
        toPolynomial H * (G.pointRefs.map fun x => X - C x).prod =
          ((G.polyOpeningsVec.zip R).enum.map fun iq =>
            C (r ^ iq.1) * (toPolynomial iq.2.1.polyOracle - toPolynomial iq.2.2)).sum := by
  obtain ⟨groups, hrun, hmat⟩ := groupByPolyAndPoints_empty_eq L
  refine ⟨_, hrun, fun G hG => ?_⟩
  have hnodup : G.pointRefs.Nodup := (wellFormed_of_mem hmat hG).sorted.nodup
  -- the group's openings are claims of the batch, hence true
  have hgroup : ∀ po ∈ G.polyOpeningsVec,
      List.Forall₂ (fun x v => v = po.polyOracle.evaluate x) G.pointRefs po.openings := by
    intro po hpo
    obtain ⟨q, -, hm⟩ := exists_of_forall₂_right hmat hG
    exact (hm.openings po hpo).imp fun x v h => htrue _ (getOpeningFromPolyOpenings_eq_some h)
  obtain ⟨R, hR, hRspec⟩ := createLowDegreeExtensions_spec hnodup hgroup
  have hagree : ∀ q ∈ G.polyOpeningsVec.zip R, ∀ x ∈ G.pointRefs,
      q.2.evaluate x = q.1.polyOracle.evaluate x := fun q hq => (List.forall₂_zip hRspec hq).2
  refine ⟨_, R, by simp only [createCombinedLowDegreeExtensions, createOwnedPoints, hR]; rfl,
    hRspec.length_eq.symm, fun Ri hRi => ?_, hagree, combineLowDegreeExtensions_mul hnodup hagree r⟩
  obtain ⟨po, -, hle, -⟩ := exists_of_forall₂_right hRspec hRi
  exact (degree_ofCoeffs_lt _).trans_le (by exact_mod_cast hle)

/-- The spec's linearisation example: `P₀ = X` and `P₁ = X + 1`, both opened at `0` and `1`,
batched with `r = 5`. -/
theorem createCombinedLowDegreeExtensions_exact_linearization :
    let L : List (PolynomialOpening (DensePoly ℚ) ℚ ℚ) :=
      [⟨⟨[0, 1]⟩, 0, 0⟩, ⟨⟨[0, 1]⟩, 1, 1⟩, ⟨⟨[1, 1]⟩, 0, 1⟩, ⟨⟨[1, 1]⟩, 1, 2⟩]
    (∀ c ∈ L, c.opening = c.polyOracle.evaluate c.point) ∧
    ∃ g, groupByPolyAndPoints .empty L = some g ∧
      ∀ G ∈ g.groupedPolyOpeningsVec, ∃ H R, G.createCombinedLowDegreeExtensions 5 = some (H, R) ∧
        R.length = G.polyOpeningsVec.length ∧
        (∀ Ri ∈ R, (toPolynomial Ri).degree < G.pointRefs.length) ∧
        (∀ q ∈ G.polyOpeningsVec.zip R, ∀ x ∈ G.pointRefs,
          q.2.evaluate x = q.1.polyOracle.evaluate x) ∧
        toPolynomial H * (G.pointRefs.map fun x => X - C x).prod =
          ((G.polyOpeningsVec.zip R).enum.map fun iq =>
            C ((5 : ℚ) ^ iq.1) * (toPolynomial iq.2.1.polyOracle - toPolynomial iq.2.2)).sum := by
  intro L
  have htrue : ∀ c ∈ L, c.opening = c.polyOracle.evaluate c.point := by
    norm_num [L, DensePoly.evaluate]
  exact ⟨htrue, createCombinedLowDegreeExtensions_exact L htrue 5⟩

/-- **No divisibility check.**  On every batch, whether or not its openings are the values of
their oracles, every group `GroupByPolyAndPoints` emits goes through
`CreateCombinedLowDegreeExtensions` for every `r`: there is one `Rᵢ` per oracle, of degree below
the number of points, and it takes the recorded openings at the points; `H` is the quotient of
Euclidean division of `N = Σᵢ rⁱ (Pᵢ - Rᵢ)` by `Z = Πⱼ (X - xⱼ)`, so that `H · Z = N` exactly
when `Z` divides `N`.  A remainder is dropped, not reported. -/
theorem createCombinedLowDegreeExtensions_divByMonic
    (L : List (PolynomialOpening (DensePoly F) F F)) (r : F) :
    ∃ g, groupByPolyAndPoints .empty L = some g ∧
      ∀ G ∈ g.groupedPolyOpeningsVec, ∃ H R, G.createCombinedLowDegreeExtensions r = some (H, R) ∧
        R.length = G.polyOpeningsVec.length ∧
        (∀ Ri ∈ R, (toPolynomial Ri).degree < G.pointRefs.length) ∧
        (∀ q ∈ G.polyOpeningsVec.zip R, ∀ xv ∈ G.pointRefs.zip q.1.openings,
          q.2.evaluate xv.1 = xv.2) ∧
        let Z := (G.pointRefs.map fun x => X - C x).prod
        let N := ((G.polyOpeningsVec.zip R).enum.map fun iq =>
          C (r ^ iq.1) * (toPolynomial iq.2.1.polyOracle - toPolynomial iq.2.2)).sum
        toPolynomial H = N /ₘ Z ∧ (toPolynomial H * Z = N ↔ Z ∣ N) := by
  obtain ⟨groups, hrun, hmat⟩ := groupByPolyAndPoints_empty_eq L
  refine ⟨_, hrun, fun G hG => ?_⟩
  have hwf := wellFormed_of_mem hmat hG
  obtain ⟨R, hR, hRspec⟩ :=
    createLowDegreeExtensions_interpolates hwf.sorted.nodup hwf.length_openings
  have hH := toPolynomial_combineLowDegreeExtensions G R r
  refine ⟨_, R, by simp only [createCombinedLowDegreeExtensions, createOwnedPoints, hR]; rfl,
    hRspec.length_eq.symm, fun Ri hRi => ?_, fun q hq => (List.forall₂_zip hRspec hq).2, hH, ?_⟩
  · obtain ⟨po, -, hle, -⟩ := exists_of_forall₂_right hRspec hRi
    exact (degree_ofCoeffs_lt _).trans_le (by exact_mod_cast hle)
  · rw [hH]
    exact divByMonic_mul_eq_iff_dvd (monic_prod_X_sub_C _)

/-- `P = 2X + 3` claimed to open to `14` at `5`, where it is `13`: `Z = X - 5` does not divide
`N = P - R`, yet `CreateCombinedLowDegreeExtensions` returns a quotient `H`, and `H · Z ≠ N`. -/
theorem createCombinedLowDegreeExtensions_accepts_wrong_opening :
    ∃ g, groupByPolyAndPoints .empty
        ([⟨⟨[3, 2]⟩, 5, 14⟩] : List (PolynomialOpening (DensePoly ℚ) ℚ ℚ)) = some g ∧
      ∃ G ∈ g.groupedPolyOpeningsVec, ∃ H R, G.createCombinedLowDegreeExtensions 1 = some (H, R) ∧
        let Z := (G.pointRefs.map fun x => X - C x).prod
        let N := ((G.polyOpeningsVec.zip R).enum.map fun iq =>
          C ((1 : ℚ) ^ iq.1) * (toPolynomial iq.2.1.polyOracle - toPolynomial iq.2.2)).sum
        ¬ Z ∣ N ∧ toPolynomial H * Z ≠ N := by
  -- the grouper files the one claim under the point set `{5}`
  refine ⟨_, rfl, ⟨[⟨⟨[3, 2]⟩, [14]⟩], [5]⟩, .head _, ?_⟩
  obtain ⟨R, hR, hRspec⟩ := @createLowDegreeExtensions_interpolates ℚ _ _
    ⟨[⟨⟨[3, 2]⟩, [14]⟩], [5]⟩ (by decide) (by decide)
  obtain ⟨R₀, rfl, hR₀⟩ : ∃ R₀, R = [R₀] ∧ R₀.evaluate 5 = 14 := by
    cases hRspec with
    | cons h hnil => cases hnil; exact ⟨_, rfl, h.2 (5, 14) (.head _)⟩
  refine ⟨_, [R₀], by simp only [createCombinedLowDegreeExtensions, createOwnedPoints, hR]; rfl, ?_⟩
  intro Z N
  -- `Z` vanishes at `5`, `N` does not: `N(5) = P(5) - R(5) = 13 - 14`
  have hZ : eval 5 Z = 0 := by simp [Z]
  have hP : eval 5 (toPolynomial (⟨[3, 2]⟩ : DensePoly ℚ)) = 13 := by
    rw [← evaluate_eq]; norm_num [DensePoly.evaluate]
  have hR₀' : eval 5 (toPolynomial R₀) = 14 := by rw [← evaluate_eq, hR₀]
  have hN : eval 5 N = -1 := by
    simp only [N, List.zip_cons_cons, List.zip_nil_right, List.enum_cons, List.enumFrom_nil,
      List.map_cons, List.map_nil, List.sum_cons, List.sum_nil, add_zero, pow_zero, C_1, one_mul,
      eval_sub]
    show eval 5 (toPolynomial (⟨[3, 2]⟩ : DensePoly ℚ)) - eval 5 (toPolynomial R₀) = -1
    rw [hP, hR₀']
    norm_num
  refine ⟨fun h => ?_, fun h => ?_⟩
  · have := eval_eq_zero_of_dvd_of_eval_eq_zero h hZ
    rw [hN] at this
    norm_num at this
  · have := congrArg (eval 5) h
    rw [eval_mul, hZ, mul_zero, hN] at this
    norm_num at this

end Tachyon.Crypto
