import Tachyon.Crypto.Quotient

/-!
# A wrong opening survives few challenges

`CreateCombinedLowDegreeExtensions` does not check its quotient
(`createCombinedLowDegreeExtensions_divByMonic`).  For a group with a wrong opening it still
returns an `H`, and the identity `H · Πⱼ (X - xⱼ) = Σᵢ rⁱ (Pᵢ - Rᵢ)` then fails.  Catching that is
left to whoever checks the identity at the challenge `r`.  This file bounds how often the check
can miss.

At a point `x` of the group, the numerator is a polynomial in `r` whose coefficients are the
values `Pᵢ(x) - Rᵢ(x)` (`eval_numerator`).  `Rᵢ` takes the recorded openings at the points, so a
wrong opening of `Pᵢ` at `x` makes that coefficient nonzero.  Every challenge at which the
identity holds is then a root of a nonzero polynomial of degree below the number of oracles
(`card_lt_of_quotientIdentity`).
-/

namespace Tachyon.Crypto

open Base Math DensePoly Polynomial

variable {F : Type} [Field F] [LinearOrder F]

namespace GroupedPolynomialOpenings

/-- The identity `H · Πⱼ (X - xⱼ) = Σᵢ rⁱ (Pᵢ - Rᵢ)` for what `CreateCombinedLowDegreeExtensions`
returns at the challenge `r`. -/
def QuotientIdentity (G : GroupedPolynomialOpenings (DensePoly F) F F) (r : F) : Prop :=
  ∃ H R, G.createCombinedLowDegreeExtensions r = some (H, R) ∧
    toPolynomial H * (G.pointRefs.map fun x => X - C x).prod =
      ((G.polyOpeningsVec.zip R).enum.map fun iq =>
        C (r ^ iq.1) * (toPolynomial iq.2.1.polyOracle - toPolynomial iq.2.2)).sum

omit [LinearOrder F] in
/-- At a point `x`, the numerator is the polynomial in `r` whose coefficients are the values
`Pᵢ(x) - Rᵢ(x)`. -/
lemma eval_numerator (G : GroupedPolynomialOpenings (DensePoly F) F F) (R : List (DensePoly F))
    (r x : F) :
    eval x ((G.polyOpeningsVec.zip R).enum.map fun iq =>
        C (r ^ iq.1) * (toPolynomial iq.2.1.polyOracle - toPolynomial iq.2.2)).sum =
      eval r (ofCoeffs ((G.polyOpeningsVec.zip R).map fun q =>
        eval x (toPolynomial q.1.polyOracle - toPolynomial q.2))) := by
  rw [← toPolynomial_linearizeInPlace_numerators, eval_toPolynomial_linearizeInPlace, List.map_map]
  simp only [Function.comp_def, toPolynomial_sub]

/-- **A wrong opening survives fewer challenges than there are oracles.**  Let the group be
well formed (as every group the grouper emits is), and let one recorded opening differ from the
oracle's value at its point.  Then the quotient identity holds at fewer challenges `r` than the
group has oracles. -/
theorem card_lt_of_quotientIdentity {G : GroupedPolynomialOpenings (DensePoly F) F F}
    (hwf : G.WellFormed) {po : PolynomialOpenings (DensePoly F) F} (hpo : po ∈ G.polyOpeningsVec)
    {xv : F × F} (hxv : xv ∈ G.pointRefs.zip po.openings)
    (hwrong : xv.2 ≠ po.polyOracle.evaluate xv.1) (rs : Finset F)
    (hrs : ∀ r ∈ rs, G.QuotientIdentity r) : rs.card < G.polyOpeningsVec.length := by
  obtain ⟨R, hR, hRspec⟩ :=
    createLowDegreeExtensions_interpolates hwf.sorted.nodup hwf.length_openings
  -- the values at `xv.1` of the numerators `Pᵢ - Rᵢ`, as the coefficients of a polynomial in `r`
  set E := ofCoeffs ((G.polyOpeningsVec.zip R).map fun q =>
    eval xv.1 (toPolynomial q.1.polyOracle - toPolynomial q.2))
  -- the coefficient of `po` is `P(x) - v`, which is not zero
  obtain ⟨Ri, ⟨-, hRi⟩, hzip⟩ := exists_mem_zip_of_forall₂ hRspec hpo
  have hE : E ≠ 0 := ofCoeffs_ne_zero_of_mem (List.mem_map_of_mem _ hzip) <| by
    rw [eval_sub, ← evaluate_eq, ← evaluate_eq, hRi xv hxv]
    exact sub_ne_zero.2 (Ne.symm hwrong)
  -- every challenge at which the identity holds is a root of it
  have hroots : ∀ r ∈ rs, E.eval r = 0 := fun r hr => by
    obtain ⟨H, R', hrun, hid⟩ := hrs r hr
    obtain rfl : R' = R := by
      simp only [createCombinedLowDegreeExtensions, createOwnedPoints, hR, Option.bind_eq_bind,
        Option.some_bind, Option.pure_def, Option.some.injEq, Prod.mk.injEq] at hrun
      exact hrun.2.symm
    have hx : xv.1 ∈ G.pointRefs := (List.of_mem_zip hxv).1
    rw [← eval_numerator, ← hid, eval_mul, eval_list_prod]
    exact mul_eq_zero_of_right _ (List.prod_eq_zero (List.mem_map.2
      ⟨X - C xv.1, List.mem_map_of_mem (fun x => X - C x) hx, by simp⟩))
  calc rs.card ≤ E.natDegree :=
        card_le_degree_of_subset_roots fun r hr => (mem_roots hE).2 (hroots r hr)
    _ < ((G.polyOpeningsVec.zip R).map fun q =>
          eval xv.1 (toPolynomial q.1.polyOracle - toPolynomial q.2)).length :=
        (natDegree_lt_iff_degree_lt hE).2 (degree_ofCoeffs_lt _)
    _ = G.polyOpeningsVec.length := by
        rw [List.length_map, List.length_zip, ← hRspec.length_eq, min_self]

/-- Over `ℚ`, the oracles `1` and `0` with both openings at `0` recorded wrongly, as `0` and
`1`: the numerator at `0` is `1 - r`, so the identity holds at `r = 1` and the bound is
attained. -/
theorem card_lt_of_quotientIdentity_twoOracles :
    let G : GroupedPolynomialOpenings (DensePoly ℚ) ℚ ℚ := ⟨[⟨⟨[1]⟩, [0]⟩, ⟨⟨[]⟩, [1]⟩], [0]⟩
    G.WellFormed ∧ (⟨⟨[1]⟩, [0]⟩ : PolynomialOpenings (DensePoly ℚ) ℚ) ∈ G.polyOpeningsVec ∧
      ((0 : ℚ), (0 : ℚ)) ∈ G.pointRefs.zip [0] ∧ (0 : ℚ) ≠ (⟨[1]⟩ : DensePoly ℚ).evaluate 0 ∧
      (∀ r ∈ ({1} : Finset ℚ), G.QuotientIdentity r) ∧
      ({1} : Finset ℚ).card < G.polyOpeningsVec.length := by
  intro G
  have hwf : G.WellFormed :=
    ⟨List.cons_ne_nil _ _, List.cons_ne_nil _ _, List.sorted_singleton _, by decide⟩
  have hpo : (⟨⟨[1]⟩, [0]⟩ : PolynomialOpenings (DensePoly ℚ) ℚ) ∈ G.polyOpeningsVec := .head _
  have hxv : ((0 : ℚ), (0 : ℚ)) ∈ G.pointRefs.zip [0] := .head _
  have hwrong : (0 : ℚ) ≠ (⟨[1]⟩ : DensePoly ℚ).evaluate 0 := by norm_num [DensePoly.evaluate]
  have hrs : ∀ r ∈ ({1} : Finset ℚ), G.QuotientIdentity r := by
    intro r hr
    obtain rfl := Finset.mem_singleton.1 hr
    obtain ⟨R, hR, hRspec⟩ := @createLowDegreeExtensions_interpolates ℚ _ _ G (by decide)
      (by decide)
    obtain ⟨R₁, R₂, rfl, h₁, h₂⟩ :
        ∃ R₁ R₂, R = [R₁, R₂] ∧ R₁.evaluate 0 = 0 ∧ R₂.evaluate 0 = 1 := by
      cases hRspec with
      | cons ha hrest =>
        cases hrest with
        | cons hb hnil => cases hnil; exact ⟨_, _, rfl, ha.2 (0, 0) (.head _), hb.2 (0, 1) (.head _)⟩
    refine ⟨_, [R₁, R₂], by simp only [createCombinedLowDegreeExtensions, createOwnedPoints, hR]; rfl,
      ?_⟩
    rw [toPolynomial_combineLowDegreeExtensions, divByMonic_mul_eq_iff_dvd (monic_prod_X_sub_C _)]
    refine prod_X_sub_C_dvd_of_eval (by decide) fun x hx => ?_
    obtain rfl : x = 0 := List.mem_singleton.1 hx
    rw [eval_numerator]
    simp only [List.zip_cons_cons, List.zip_nil_right, List.map_cons, List.map_nil, ofCoeffs_cons,
      ofCoeffs_nil, eval_sub, ← evaluate_eq, h₁, h₂]
    simp only [eval_add, eval_mul, eval_C, eval_X, mul_zero, add_zero]
    norm_num [DensePoly.evaluate]
  exact ⟨hwf, hpo, hxv, hwrong, hrs, card_lt_of_quotientIdentity hwf hpo hxv hwrong _ hrs⟩

end GroupedPolynomialOpenings

end Tachyon.Crypto
