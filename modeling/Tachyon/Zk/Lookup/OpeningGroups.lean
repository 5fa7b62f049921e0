import Tachyon.Zk.Lookup.Pipeline
import Tachyon.Crypto.GroupingOrder
import Mathlib.Data.List.Pairwise

/-!
# The lookup's openings, grouped

`Open` appends five claims per lookup: the grand product `Z` at `x` and `x_next`, the permuted
input `A'` at `x` and `x_prev`, and the permuted table `S'` at `x`.  The prover passes the claims
to `PolynomialOpeningGrouper`, whose groups the multi-point opening then commits to one by one.
This file runs the grouper on the lookup's claims.  The three points must be distinct, and no
polynomial may serve in two roles or in two lookups.  Then the grouper emits exactly three
groups, whatever the number of lookups: the grand products at `{x, x_next}`, the permuted
inputs at `{x, x_prev}` and the permuted tables at `{x}`.  Each group lists its polynomials in
lookup order, opened to their evaluations.

The proof computes the declarative `Grouping.grouping` of the claims.  The oracles come row by
row as `Z, A', S'` (`oracles_openClaims`).  The claims on a row's oracle are that row's own
claims (`openedAt_openClaims`).  Every claim is opened at `Poly::Evaluate` of its point
(`getOpeningFromPolyOpenings_openClaims`).
-/

namespace Tachyon.Zk.Lookup.Halo2

open Crypto Crypto.Grouping Base

variable {Poly F Expr Evaluator : Type} [DecidableEq Poly] [LinearOrder F]
  (sub : LookupSubroutines Poly F Expr Evaluator) (pointSet : OpeningPointSet F)

/-- The polynomials of a lookup, in the order `Open` first claims them: `Z`, `A'`, `S'`. -/
def rowPolys (q : BlindedPolynomial Poly F × LookupPair (BlindedPolynomial Poly F)) : List Poly :=
  [q.1.poly, q.2.input.poly, q.2.table.poly]

/-- The group of the oracles `os`, each opened at the points of `S` to its evaluations there. -/
def evaluationGroup (os : List Poly) (S : BTreeSet F) : GroupedPolynomialOpenings Poly F F :=
  ⟨os.map fun o => ⟨o, S.elems.map (sub.evaluate o)⟩, S.elems⟩

/-! ## Openings -/

section Openings

variable {zs : List (BlindedPolynomial Poly F)} {pps : List (LookupPair (BlindedPolynomial Poly F))}

/-- The first claim on an oracle and a point records `Poly::Evaluate` there. -/
lemma getOpeningFromPolyOpenings_openClaims {o : Poly} {y : F}
    (h : OpenedAt (openClaims sub pointSet zs pps) o y) :
    getOpeningFromPolyOpenings (openClaims sub pointSet zs pps) o y = some (sub.evaluate o y) := by
  obtain ⟨v, hv⟩ := Option.isSome_iff_exists.1 (isSome_getOpeningFromPolyOpenings.2 h)
  rw [hv]
  exact congrArg some (opening_of_mem_openClaims sub (getOpeningFromPolyOpenings_eq_some hv))

/-- Every oracle filed under `S` is opened at every point of `S`, so its group holds its
evaluations there. -/
lemma groupAt_openClaims (S : BTreeSet F) :
    groupAt (openClaims sub pointSet zs pps) S = evaluationGroup sub
      ((oracles (openClaims sub pointSet zs pps)).filter
        (pointsOf (openClaims sub pointSet zs pps) · = S)) S := by
  refine congrArg (GroupedPolynomialOpenings.mk · _) (List.map_congr_left fun o ho => ?_)
  obtain rfl : pointsOf _ o = S := by simpa using (List.mem_filter.1 ho).2
  exact congrArg _ (List.filterMap_eq_map_iff_forall_eq_some.2 fun y hy =>
    getOpeningFromPolyOpenings_openClaims sub pointSet (mem_pointsOf.1 hy))

end Openings

/-! ## Distinct polynomials -/

omit [DecidableEq Poly] [LinearOrder F] in
lemma mem_rowPolys_of_mem_rowClaims
    {q : BlindedPolynomial Poly F × LookupPair (BlindedPolynomial Poly F)}
    {c : PolynomialOpening Poly F F} (hc : c ∈ rowClaims sub pointSet q.1 q.2) :
    c.polyOracle ∈ rowPolys q := by
  simp only [rowClaims, openingAt, List.mem_cons, List.not_mem_nil, or_false] at hc
  rcases hc with rfl | rfl | rfl | rfl | rfl <;> simp [rowPolys]

omit [LinearOrder F] in
/-- Per lookup, `Open` claims `Z` twice, `A'` twice and `S'` once, so the oracles come lookup by
lookup as `Z, A', S'`. -/
lemma firstOccurrences_openedPolys :
    ∀ {R : List (BlindedPolynomial Poly F × LookupPair (BlindedPolynomial Poly F))},
      (R.flatMap rowPolys).Nodup →
      firstOccurrences (R.flatMap fun q =>
        [q.1.poly, q.1.poly, q.2.input.poly, q.2.input.poly, q.2.table.poly]) = R.flatMap rowPolys
  | [], _ => rfl
  | q :: R, hnd => by
    rw [List.flatMap_cons, List.nodup_append] at hnd
    obtain ⟨hq, hR, hdisj⟩ := hnd
    -- the later lookups' claims do not mention this lookup's polynomials
    have hout : ∀ o ∈ rowPolys q, o ∉ R.flatMap fun q =>
        [q.1.poly, q.1.poly, q.2.input.poly, q.2.input.poly, q.2.table.poly] := by
      intro o ho hmem
      obtain ⟨q', hq', ho'⟩ := List.mem_flatMap.1 hmem
      exact hdisj ho (List.mem_flatMap.2 ⟨q', hq', by simpa [rowPolys] using ho'⟩)
    simp only [rowPolys, List.mem_cons, List.not_mem_nil, or_false, forall_eq_or_imp,
      forall_eq, List.nodup_cons, not_or] at hq hout
    obtain ⟨⟨hZA, hZS⟩, hAS, -⟩ := hq
    rw [List.flatMap_cons, List.flatMap_cons, ← firstOccurrences_openedPolys hR]
    simp only [List.cons_append, List.nil_append, firstOccurrences_cons_cons]
    rw [firstOccurrences_cons_of_not_mem (by simp [hZA, hZS, hout.1]), firstOccurrences_cons_cons,
      firstOccurrences_cons_of_not_mem (by simp [hAS, hout.2.1]),
      firstOccurrences_cons_of_not_mem hout.2.2]
    rfl

section Distinct

variable {zs : List (BlindedPolynomial Poly F)} {pps : List (LookupPair (BlindedPolynomial Poly F))}
  (hnd : ((zs.zip pps).flatMap rowPolys).Nodup)
include hnd

omit [DecidableEq Poly] [LinearOrder F] in
/-- The claims on a lookup's polynomial are that lookup's own claims. -/
lemma openedAt_openClaims {q : BlindedPolynomial Poly F × LookupPair (BlindedPolynomial Poly F)}
    (hq : q ∈ zs.zip pps) {o : Poly} (ho : o ∈ rowPolys q) (y : F) :
    OpenedAt (openClaims sub pointSet zs pps) o y ↔
      OpenedAt (rowClaims sub pointSet q.1 q.2) o y := by
  constructor
  · rintro ⟨c, hc, rfl, rfl⟩
    obtain ⟨q', hq', hc'⟩ := List.mem_flatMap.1 hc
    obtain rfl : q' = q := by
      by_contra hne
      exact (List.nodup_flatMap.1 hnd).2.forall (by intro _ _ h _ ha hb; exact h hb ha) hq' hq hne
        (mem_rowPolys_of_mem_rowClaims sub pointSet hc') ho
    exact ⟨c, hc', rfl, rfl⟩
  · rintro ⟨c, hc, rfl, rfl⟩
    exact ⟨c, List.mem_flatMap.2 ⟨q, hq, hc⟩, rfl, rfl⟩

omit [LinearOrder F] in
lemma oracles_openClaims :
    oracles (openClaims sub pointSet zs pps) = (zs.zip pps).flatMap rowPolys := by
  rw [oracles, ← firstOccurrences_openedPolys hnd]
  simp [openClaims, List.map_flatMap, rowClaims, openingAt]

/-- A lookup's grand product is opened at `{x, x_next}`, its permuted input at `{x, x_prev}` and
its permuted table at `{x}`. -/
lemma pointsOf_openClaims {q : BlindedPolynomial Poly F × LookupPair (BlindedPolynomial Poly F)}
    (hq : q ∈ zs.zip pps) :
    pointsOf (openClaims sub pointSet zs pps) q.1.poly = .ofList [pointSet.x, pointSet.xNext] ∧
      pointsOf (openClaims sub pointSet zs pps) q.2.input.poly =
        .ofList [pointSet.x, pointSet.xPrev] ∧
      pointsOf (openClaims sub pointSet zs pps) q.2.table.poly = .ofList [pointSet.x] := by
  have hrow := (List.nodup_flatMap.1 hnd).1 q hq
  simp only [rowPolys, List.nodup_cons, List.mem_cons, List.not_mem_nil, or_false, not_or]
    at hrow
  obtain ⟨⟨hZA, hZS⟩, hAS, -⟩ := hrow
  refine ⟨?_, ?_, ?_⟩ <;> refine BTreeSet.eq_of_mem_iff fun y => ?_ <;>
    rw [mem_pointsOf, openedAt_openClaims sub pointSet hnd hq (by simp [rowPolys])] <;>
    simp [OpenedAt, rowClaims, openingAt, hZA, hZS, hAS, Ne.symm hZA, Ne.symm hZS, Ne.symm hAS,
      eq_comm]

end Distinct

/-! ## The three groups -/

omit [DecidableEq Poly] in
/-- The point sets of the three roles are distinct when the three points are. -/
lemma pointSets_ne
    (hx : pointSet.x ≠ pointSet.xNext ∧ pointSet.x ≠ pointSet.xPrev ∧ pointSet.xPrev ≠ pointSet.xNext) :
    (BTreeSet.ofList [pointSet.x, pointSet.xNext] ≠ .ofList [pointSet.x, pointSet.xPrev]) ∧
      (BTreeSet.ofList [pointSet.x, pointSet.xNext] ≠ .ofList [pointSet.x]) ∧
      (BTreeSet.ofList [pointSet.x, pointSet.xPrev] ≠ .ofList [pointSet.x]) := by
  obtain ⟨hxn, hxp, hpn⟩ := hx
  refine ⟨fun h => ?_, fun h => ?_, fun h => ?_⟩
  · have := congrArg (pointSet.xNext ∈ ·.elems) h
    simp [Ne.symm hxn, Ne.symm hpn] at this
  · have := congrArg (pointSet.xNext ∈ ·.elems) h
    simp [Ne.symm hxn] at this
  · have := congrArg (pointSet.xPrev ∈ ·.elems) h
    simp [Ne.symm hxp] at this

omit [DecidableEq Poly] in
/-- The claims' points are the three points. -/
lemma ofList_map_point_openClaims {zs : List (BlindedPolynomial Poly F)}
    {pps : List (LookupPair (BlindedPolynomial Poly F))} (hne : zs.zip pps ≠ []) :
    BTreeSet.ofList ((openClaims sub pointSet zs pps).map (·.point)) =
      .ofList [pointSet.x, pointSet.xNext, pointSet.xPrev] := by
  obtain ⟨q, hq⟩ := List.exists_mem_of_ne_nil _ hne
  refine BTreeSet.eq_of_mem_iff fun y => ?_
  simp only [BTreeSet.mem_ofList, List.mem_map, openClaims, List.mem_flatMap]
  constructor
  · rintro ⟨c, ⟨q', -, hc⟩, rfl⟩
    simp only [rowClaims, openingAt, List.mem_cons, List.not_mem_nil, or_false] at hc
    rcases hc with rfl | rfl | rfl | rfl | rfl <;> simp
  · intro hy
    simp only [List.mem_cons, List.not_mem_nil, or_false] at hy
    rcases hy with rfl | rfl | rfl
    · exact ⟨openingAt sub q.1 pointSet.x, ⟨q, hq, by simp [rowClaims]⟩, rfl⟩
    · exact ⟨openingAt sub q.1 pointSet.xNext, ⟨q, hq, by simp [rowClaims]⟩, rfl⟩
    · exact ⟨openingAt sub q.2.input pointSet.xPrev, ⟨q, hq, by simp [rowClaims]⟩, rfl⟩

section Groups

variable {zs : List (BlindedPolynomial Poly F)} {pps : List (LookupPair (BlindedPolynomial Poly F))}
  (hlen : zs.length = pps.length) (hne : zs.zip pps ≠ [])
  (hnd : ((zs.zip pps).flatMap rowPolys).Nodup)
  (hx : pointSet.x ≠ pointSet.xNext ∧ pointSet.x ≠ pointSet.xPrev ∧ pointSet.xPrev ≠ pointSet.xNext)
include hlen hne hnd hx

/-- The grouper files the grand products, the permuted inputs and the permuted tables under
three point sets, in that order. -/
lemma grouping_openClaims :
    grouping (openClaims sub pointSet zs pps) =
      [evaluationGroup sub (zs.map (·.poly)) (.ofList [pointSet.x, pointSet.xNext]),
        evaluationGroup sub (pps.map (·.input.poly)) (.ofList [pointSet.x, pointSet.xPrev]),
        evaluationGroup sub (pps.map (·.table.poly)) (.ofList [pointSet.x])] := by
  obtain ⟨h12, h13, h23⟩ := pointSets_ne pointSet hx
  have hroles := fun q (hq : q ∈ zs.zip pps) => pointsOf_openClaims sub pointSet hnd hq
  -- every lookup contributes the same three point sets, in the same order
  have hmap : ∀ q ∈ zs.zip pps, (rowPolys q).map (pointsOf (openClaims sub pointSet zs pps)) =
      [.ofList [pointSet.x, pointSet.xNext], .ofList [pointSet.x, pointSet.xPrev],
        .ofList [pointSet.x]] := fun q hq => by
    simp only [rowPolys, List.map_cons, List.map_nil, (hroles q hq).1, (hroles q hq).2.1,
      (hroles q hq).2.2]
  have hsets : pointSets (openClaims sub pointSet zs pps) =
      [.ofList [pointSet.x, pointSet.xNext], .ofList [pointSet.x, pointSet.xPrev],
        .ofList [pointSet.x]] := by
    obtain ⟨q, R, hR⟩ := List.exists_cons_of_ne_nil hne
    rw [pointSets, oracles_openClaims sub pointSet hnd, List.map_flatMap, List.flatMap_congr hmap,
      hR, List.flatMap_cons, firstOccurrences_append_of_subset fun S hS => by
        obtain ⟨-, -, hS⟩ := List.mem_flatMap.1 hS; exact hS,
      firstOccurrences_cons_of_not_mem (by simp [h12, h13]),
      firstOccurrences_cons_of_not_mem (by simp [h23])]
    rfl
  -- the oracles under each point set are the polynomials of one role, lookup by lookup
  have hfilter : ∀ S, (oracles (openClaims sub pointSet zs pps)).filter
      (pointsOf (openClaims sub pointSet zs pps) · = S) = (zs.zip pps).flatMap fun q =>
        (rowPolys q).filter (pointsOf (openClaims sub pointSet zs pps) · = S) := fun S => by
    rw [oracles_openClaims sub pointSet hnd, List.filter_flatMap]
  rw [grouping, hsets]
  simp only [List.map_cons, List.map_nil, groupAt_openClaims, hfilter]
  refine congrArg₂ _ ?_ (congrArg₂ _ ?_ (congrArg₂ _ ?_ rfl)) <;>
    refine congrArg (evaluationGroup sub · _) ?_
  · rw [List.flatMap_congr fun q hq => show (rowPolys q).filter _ = [q.1.poly] by
      simp [rowPolys, (hroles q hq).1, (hroles q hq).2.1, (hroles q hq).2.2, Ne.symm h12,
        Ne.symm h13]]
    conv_rhs => rw [← List.map_fst_zip zs pps hlen.le, List.map_map]
    exact List.flatMap_pure_eq_map _ _
  · rw [List.flatMap_congr fun q hq => show (rowPolys q).filter _ = [q.2.input.poly] by
      simp [rowPolys, (hroles q hq).1, (hroles q hq).2.1, (hroles q hq).2.2, h12, Ne.symm h23]]
    conv_rhs => rw [← List.map_snd_zip zs pps hlen.ge, List.map_map]
    exact List.flatMap_pure_eq_map _ _
  · rw [List.flatMap_congr fun q hq => show (rowPolys q).filter _ = [q.2.table.poly] by
      simp [rowPolys, (hroles q hq).1, (hroles q hq).2.1, (hroles q hq).2.2, h13, h23]]
    conv_rhs => rw [← List.map_snd_zip zs pps hlen.ge, List.map_map]
    exact List.flatMap_pure_eq_map _ _

end Groups

/-- **The lookup's openings fall into three groups.**  Take a prover whose grand products and
permuted pairs match up, with at least one lookup, three distinct points `x`, `x_prev` and
`x_next`, and no polynomial shared between two roles or two lookups.  `Open` passes its
`CHECK_EQ`, and `GroupByPolyAndPoints` on a fresh grouper turns its claims into exactly three
groups.  They hold the grand products opened at `{x, x_next}`, the permuted inputs at
`{x, x_prev}` and the permuted tables at `{x}`.  Each lists its polynomials in lookup order,
with their evaluations at the group's points, and `super_point_set_` is `{x, x_prev, x_next}`. -/
theorem open_groupByPolyAndPoints (p : Prover Poly F)
    (hlen : p.grandProductPolys.length = p.permutedPairs.length) (hne : p.permutedPairs ≠ [])
    (hx : pointSet.x ≠ pointSet.xNext ∧ pointSet.x ≠ pointSet.xPrev ∧ pointSet.xPrev ≠ pointSet.xNext)
    (hnd : ((p.grandProductPolys.zip p.permutedPairs).flatMap rowPolys).Nodup) :
    ∃ openings, «open» sub p pointSet [] = some openings ∧
      groupByPolyAndPoints .empty openings = some
        ⟨[evaluationGroup sub (p.grandProductPolys.map (·.poly))
            (.ofList [pointSet.x, pointSet.xNext]),
          evaluationGroup sub (p.permutedPairs.map (·.input.poly))
            (.ofList [pointSet.x, pointSet.xPrev]),
          evaluationGroup sub (p.permutedPairs.map (·.table.poly)) (.ofList [pointSet.x])],
        .ofList [pointSet.x, pointSet.xNext, pointSet.xPrev]⟩ := by
  have hzip : p.grandProductPolys.zip p.permutedPairs ≠ [] := by
    rw [← List.length_pos, List.length_zip, hlen, min_self]
    exact List.length_pos.2 hne
  refine ⟨_, open_eq_some sub p pointSet hlen [], ?_⟩
  rw [List.nil_append, groupByPolyAndPoints_eq_append_grouping,
    grouping_openClaims sub pointSet hlen hzip hnd hx]
  simp only [PolynomialOpeningGrouper.empty_groupedPolyOpeningsVec,
    PolynomialOpeningGrouper.empty_superPointSet, BTreeSet.elems_empty, List.nil_append,
    ofList_map_point_openClaims sub pointSet hzip]

/-- Two lookups over `ℕ`, with `Poly::Evaluate` as addition, opened at `x = 10`, `x_prev = 9`
and `x_next = 11`. -/
theorem open_groupByPolyAndPoints_twoLookups :
    let sub : LookupSubroutines ℕ ℕ Unit Unit :=
      ⟨fun _ _ _ => [], fun pb cp => some (cp, pb), fun pb _ _ => ([], pb), fun _ => 0, (· + ·)⟩
    let p : Prover ℕ ℕ :=
      ⟨[], [⟨⟨[1], 2, 0⟩, ⟨[3], 4, 0⟩⟩, ⟨⟨[1], 3, 0⟩, ⟨[3], 5, 0⟩⟩], [⟨[5], 6, 0⟩, ⟨[6], 7, 0⟩]⟩
    let pointSet : OpeningPointSet ℕ := ⟨10, 9, 11⟩
    p.grandProductPolys.length = p.permutedPairs.length ∧ p.permutedPairs ≠ [] ∧
      (pointSet.x ≠ pointSet.xNext ∧ pointSet.x ≠ pointSet.xPrev ∧
        pointSet.xPrev ≠ pointSet.xNext) ∧
      ((p.grandProductPolys.zip p.permutedPairs).flatMap rowPolys).Nodup ∧
      ∃ openings, «open» sub p pointSet [] = some openings ∧
        groupByPolyAndPoints .empty openings = some
          ⟨[evaluationGroup sub (p.grandProductPolys.map (·.poly))
              (.ofList [pointSet.x, pointSet.xNext]),
            evaluationGroup sub (p.permutedPairs.map (·.input.poly))
              (.ofList [pointSet.x, pointSet.xPrev]),
            evaluationGroup sub (p.permutedPairs.map (·.table.poly)) (.ofList [pointSet.x])],
          .ofList [pointSet.x, pointSet.xNext, pointSet.xPrev]⟩ := by
  intro sub p pointSet
  have hlen : p.grandProductPolys.length = p.permutedPairs.length := rfl
  have hne : p.permutedPairs ≠ [] := List.cons_ne_nil _ _
  have hx : pointSet.x ≠ pointSet.xNext ∧ pointSet.x ≠ pointSet.xPrev ∧
      pointSet.xPrev ≠ pointSet.xNext := by decide
  have hnd : ((p.grandProductPolys.zip p.permutedPairs).flatMap rowPolys).Nodup := by decide
  exact ⟨hlen, hne, hx, hnd, open_groupByPolyAndPoints sub pointSet p hlen hne hx hnd⟩

end Tachyon.Zk.Lookup.Halo2
