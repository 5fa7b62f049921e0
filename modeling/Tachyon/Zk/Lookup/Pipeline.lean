import Tachyon.Zk.Lookup.Prover
import Mathlib.Algebra.Ring.Int.Defs

/-!
# The lookup prover's pipeline

A `Prover` is driven through `CompressPairs` (or `BatchCompressPairs` for several provers),
`PermutePairs`, `CreateGrandProductPolys`, `TransformEvalsToPoly`, and then `Evaluate` and
`Open`.  Each stage gets one spec lemma below, stated from any state it can be called in; the
main results compose them.

* `lookupPipeline_ok`: on every run in which `PermuteExpressionPair` succeeds, no `CHECK` of
  the pipeline fails; after `CreateGrandProductPolys` the compressed pairs are gone and there
  is one permuted pair and one grand product per argument, the `i`-th grand product built from
  the `i`-th compressed and permuted pair; `Open` appends `5·N` claims.
* `evaluate_open_agree`: `Evaluate` and `Open` visit the same `(polynomial, point)` pairs in
  the same order, so the transcript's evaluations and the grouper's claims agree.
-/

namespace Tachyon.Zk.Lookup.Halo2

open Crypto

variable {Poly F Expr Evaluator Table : Type} (sub : LookupSubroutines Poly F Expr Evaluator)

/-! ## Compress -/

@[simp] lemma compressedPairs_compressPairs (arguments : List (LookupArgument Expr)) (theta : F)
    (evaluator : Evaluator) (p : Prover Poly F) :
    (compressPairs sub arguments theta evaluator p).compressedPairs =
      arguments.map fun a => compressPair sub a theta evaluator := rfl

/-- `BatchCompressPairs` passes its `CHECK_EQ` exactly when there is one table per prover, and
then compresses every prover over its own table. -/
lemma batchCompressPairs_eq_some (simpleEvaluator : Table → List F → Evaluator)
    (lookupProvers : List (Prover Poly F)) (arguments : List (LookupArgument Expr)) (theta : F)
    (tables : List Table) (challenges : List F) (hlen : lookupProvers.length = tables.length) :
    batchCompressPairs sub simpleEvaluator lookupProvers arguments theta tables challenges =
      some ((lookupProvers.zip tables).map fun pt =>
        compressPairs sub arguments theta (simpleEvaluator pt.2 challenges) pt.1) := by
  simp [batchCompressPairs, hlen]

/-! ## Permute -/

section
variable [Inhabited Poly]

/-- Every `PermuteExpressionPair` call that `PermutePairs` makes from `pb` on `cps` succeeds:
the first from `pb`, each later one from the prover base the one before left, two blinder draws
further on. -/
def PermuteSucceeds : ProverBase Poly F → List (LookupPair (List F)) → Prop
  | _, [] => True
  | pb, cp :: cps => ∃ pp pb', sub.permuteExpressionPair pb cp = some (pp, pb') ∧
      PermuteSucceeds pb'.generate.2.generate.2 cps

/-- `PermutePairs` succeeds when every `PermuteExpressionPair` call it makes does, and gives
one permuted pair per compressed pair, leaving the rest of the prover alone. -/
lemma permutePairsLoop_isSome :
    ∀ (pb : ProverBase Poly F) (cps : List (LookupPair (List F))), PermuteSucceeds sub pb cps →
      ∃ pps pb', permutePairsLoop sub pb cps = some (pps, pb') ∧ pps.length = cps.length
  | pb, [], _ => ⟨[], pb, rfl, rfl⟩
  | pb, cp :: cps, ⟨pp, pb₁, hpp, hrest⟩ => by
    obtain ⟨pps, pb', hloop, hlen⟩ := permutePairsLoop_isSome pb₁.generate.2.generate.2 cps hrest
    simp [permutePairsLoop, permutePair, hpp, hloop, hlen]

lemma permutePairs_isSome (p : Prover Poly F) (pb : ProverBase Poly F)
    (hperm : PermuteSucceeds sub pb p.compressedPairs) :
    ∃ p' pb', permutePairs sub p pb = some (p', pb') ∧
      p'.compressedPairs = p.compressedPairs ∧
        p'.permutedPairs.length = p.compressedPairs.length := by
  obtain ⟨pps, pb', hloop, hlen⟩ := permutePairsLoop_isSome sub pb p.compressedPairs hperm
  exact ⟨{ p with permutedPairs := pps }, pb', by simp [permutePairs, hloop], rfl, hlen⟩

end

/-! ## Grand products -/

section
variable [CommRing F] [Inhabited Poly]

/-- The grand products of `CreateGrandProductPolys`: the `i`-th holds the evaluations that
`CreatePoly` returns on the callbacks of the `i`-th compressed pair and the `i`-th permuted pair,
called with the prover base the run has reached there. -/
lemma createGrandProductPolysLoop_evals (beta gamma : F) :
    ∀ (pb : ProverBase Poly F) (cps : List (LookupPair (List F)))
      (pps : List (LookupPair (BlindedPolynomial Poly F))),
      ∃ pbs : List (ProverBase Poly F), pbs.length = (cps.zip pps).length ∧
        (createGrandProductPolysLoop sub beta gamma pb cps pps).1.map (·.evals) =
          List.zipWith (fun pbi q => (sub.createPoly pbi (createNumeratorCallback q.1 beta gamma)
            (createDenominatorCallback q.2 beta gamma)).1) pbs (cps.zip pps)
  | pb, cp :: cps, pp :: pps => by
    obtain ⟨pbs, hlen, hevals⟩ := createGrandProductPolysLoop_evals beta gamma
      (sub.createPoly pb (createNumeratorCallback cp beta gamma)
        (createDenominatorCallback pp beta gamma)).2.generate.2 cps pps
    refine ⟨pb :: pbs, by simp [hlen], ?_⟩
    simp only [createGrandProductPolysLoop, createGrandProductPoly, List.map_cons, hevals,
      List.zip_cons_cons, List.zipWith_cons_cons]
  | _, [], _ => ⟨[], rfl, rfl⟩
  | _, _ :: _, [] => ⟨[], rfl, rfl⟩

lemma createGrandProductPolys_isSome (beta gamma : F) (p : Prover Poly F) (pb : ProverBase Poly F)
    (hlen : p.compressedPairs.length = p.permutedPairs.length) :
    ∃ p' pb', createGrandProductPolys sub beta gamma p pb = some (p', pb') ∧
      p'.compressedPairs = [] ∧ p'.permutedPairs = p.permutedPairs ∧
      ∃ pbs : List (ProverBase Poly F), pbs.length = p.compressedPairs.length ∧
        p'.grandProductPolys.map (·.evals) =
          List.zipWith (fun pbi q => (sub.createPoly pbi (createNumeratorCallback q.1 beta gamma)
            (createDenominatorCallback q.2 beta gamma)).1) pbs
            (p.compressedPairs.zip p.permutedPairs) := by
  simp only [createGrandProductPolys, hlen, if_true]
  obtain ⟨pbs, hpbs, hevals⟩ :=
    createGrandProductPolysLoop_evals sub beta gamma pb p.compressedPairs p.permutedPairs
  exact ⟨_, _, rfl, rfl, rfl, pbs, by simp [hpbs, hlen], hevals⟩

end

/-! ## Evaluate and open -/

/-- The transcript call that `Evaluate` makes for a claim. -/
def evaluateCall (c : PolynomialOpening Poly F F) : PcsCall Poly F :=
  .evaluateAndWriteToProof c.polyOracle c.point

/-- The five claims of row `i`, as `Open` appends them. -/
def rowClaims (pointSet : OpeningPointSet F) (grandProductPoly : BlindedPolynomial Poly F)
    (permutedPair : LookupPair (BlindedPolynomial Poly F)) : List (PolynomialOpening Poly F F) :=
  [openingAt sub grandProductPoly pointSet.x, openingAt sub grandProductPoly pointSet.xNext,
    openingAt sub permutedPair.input pointSet.x, openingAt sub permutedPair.input pointSet.xPrev,
    openingAt sub permutedPair.table pointSet.x]

/-- The claims of all rows. -/
def openClaims (pointSet : OpeningPointSet F) (zs : List (BlindedPolynomial Poly F))
    (pps : List (LookupPair (BlindedPolynomial Poly F))) : List (PolynomialOpening Poly F F) :=
  (zs.zip pps).flatMap fun q => rowClaims sub pointSet q.1 q.2

/-- One row of `Evaluate` makes the calls of the row's claims, in order. -/
lemma evaluateRow_eq (pointSet : OpeningPointSet F) (pb : ProverBase Poly F)
    (z : BlindedPolynomial Poly F) (pp : LookupPair (BlindedPolynomial Poly F)) :
    evaluateRow pointSet pb z pp = pb.callAll ((rowClaims sub pointSet z pp).map evaluateCall) := by
  simp [evaluateRow, evaluateAt, rowClaims, openingAt, evaluateCall, ProverBase.call_eq_callAll]

lemma openLoop_eq (pointSet : OpeningPointSet F) :
    ∀ (openings : List (PolynomialOpening Poly F F)) (zs : List (BlindedPolynomial Poly F))
      (pps : List (LookupPair (BlindedPolynomial Poly F))),
      openLoop sub pointSet openings zs pps = openings ++ openClaims sub pointSet zs pps
  | openings, z :: zs, pp :: pps => by
    simp [openLoop, openRow, openLoop_eq pointSet _ zs pps, openClaims, rowClaims]
  | _, [], _ => by simp [openLoop, openClaims]
  | _, _ :: _, [] => by simp [openLoop, openClaims]

lemma evaluateLoop_eq (pointSet : OpeningPointSet F) :
    ∀ (pb : ProverBase Poly F) (zs : List (BlindedPolynomial Poly F))
      (pps : List (LookupPair (BlindedPolynomial Poly F))),
      evaluateLoop pointSet pb zs pps =
        pb.callAll ((openClaims sub pointSet zs pps).map evaluateCall)
  | pb, z :: zs, pp :: pps => by
    simp [evaluateLoop, evaluateRow_eq sub, evaluateLoop_eq pointSet _ zs pps, openClaims]
  | _, [], _ => by simp [evaluateLoop, openClaims]
  | _, _ :: _, [] => by simp [evaluateLoop, openClaims]

section
variable (p : Prover Poly F) (pointSet : OpeningPointSet F)
  (hlen : p.grandProductPolys.length = p.permutedPairs.length)
include hlen

lemma open_eq_some (openings : List (PolynomialOpening Poly F F)) :
    «open» sub p pointSet openings =
      some (openings ++ openClaims sub pointSet p.grandProductPolys p.permutedPairs) := by
  simp [«open», hlen, openLoop_eq]

lemma evaluate_eq_some (pb : ProverBase Poly F) :
    evaluate p pb pointSet =
      some (pb.callAll ((openClaims sub pointSet p.grandProductPolys p.permutedPairs).map
        evaluateCall)) := by
  simp [evaluate, hlen, evaluateLoop_eq sub]

end

lemma length_openClaims (pointSet : OpeningPointSet F) (zs : List (BlindedPolynomial Poly F))
    (pps : List (LookupPair (BlindedPolynomial Poly F))) :
    (openClaims sub pointSet zs pps).length = 5 * (zs.zip pps).length := by
  unfold openClaims
  induction zs.zip pps with
  | nil => rfl
  | cons q qs ih => simp only [List.flatMap_cons, List.length_append, ih]; simp [rowClaims]; omega

/-- Every claim `Open` appends is opened at `Poly::Evaluate` of its point. -/
lemma opening_of_mem_openClaims {pointSet : OpeningPointSet F} {zs : List (BlindedPolynomial Poly F)}
    {pps : List (LookupPair (BlindedPolynomial Poly F))} {c : PolynomialOpening Poly F F}
    (hc : c ∈ openClaims sub pointSet zs pps) : c.opening = sub.evaluate c.polyOracle c.point := by
  obtain ⟨q, -, hc⟩ := List.mem_flatMap.1 hc
  simp only [rowClaims, List.mem_cons, List.not_mem_nil, or_false] at hc
  rcases hc with rfl | rfl | rfl | rfl | rfl <;> rfl

/-- `Evaluate` and `Open` agree: on a prover whose grand products and permuted pairs match up,
both pass their `CHECK_EQ`, `Open` appends claims whose `(oracle, point)` pairs are those of
`Evaluate`'s calls, element by element (per row: `Z` at `x` and `x_next`, `A'` at `x` and
`x_prev`, `S'` at `x`), and each claim's opening is `Poly::Evaluate` at its point, the value
`EvaluateAndWriteToProof` writes. -/
theorem evaluate_open_agree (p : Prover Poly F) (pb : ProverBase Poly F)
    (pointSet : OpeningPointSet F) (openings : List (PolynomialOpening Poly F F))
    (hlen : p.grandProductPolys.length = p.permutedPairs.length) :
    ∃ newOpenings, «open» sub p pointSet openings = some (openings ++ newOpenings) ∧
      evaluate p pb pointSet = some (pb.callAll (newOpenings.map evaluateCall)) ∧
      (∀ c ∈ newOpenings, c.opening = sub.evaluate c.polyOracle c.point) ∧
      newOpenings.map (fun c => (c.polyOracle, c.point)) =
        (p.grandProductPolys.zip p.permutedPairs).flatMap fun q =>
          [(q.1.poly, pointSet.x), (q.1.poly, pointSet.xNext), (q.2.input.poly, pointSet.x),
            (q.2.input.poly, pointSet.xPrev), (q.2.table.poly, pointSet.x)] :=
  ⟨_, open_eq_some sub p pointSet hlen openings, evaluate_eq_some sub p pointSet hlen pb,
    fun _ => opening_of_mem_openClaims sub,
    by simp [openClaims, List.map_flatMap, rowClaims, openingAt]⟩

/-- Two rows, with `Poly::Evaluate` as addition. -/
theorem evaluate_open_agree_two_rows :
    let sub : LookupSubroutines ℕ ℕ Unit Unit :=
      ⟨fun _ _ _ => [], fun pb cp => some (cp, pb), fun pb _ _ => ([], pb), fun _ => 0, (· + ·)⟩
    let p : Prover ℕ ℕ :=
      ⟨[], [⟨⟨[1], 2, 0⟩, ⟨[3], 4, 0⟩⟩, ⟨⟨[1], 3, 0⟩, ⟨[3], 5, 0⟩⟩], [⟨[5], 6, 0⟩, ⟨[6], 7, 0⟩]⟩
    let pb : ProverBase ℕ ℕ := ⟨[], fun _ => 0⟩
    let pointSet : OpeningPointSet ℕ := ⟨10, 9, 11⟩
    p.grandProductPolys.length = p.permutedPairs.length ∧
    ∃ newOpenings, «open» sub p pointSet [] = some ([] ++ newOpenings) ∧
      evaluate p pb pointSet = some (pb.callAll (newOpenings.map evaluateCall)) ∧
      (∀ c ∈ newOpenings, c.opening = sub.evaluate c.polyOracle c.point) ∧
      newOpenings.map (fun c => (c.polyOracle, c.point)) =
        (p.grandProductPolys.zip p.permutedPairs).flatMap fun q =>
          [(q.1.poly, pointSet.x), (q.1.poly, pointSet.xNext), (q.2.input.poly, pointSet.x),
            (q.2.input.poly, pointSet.xPrev), (q.2.table.poly, pointSet.x)] :=
  ⟨rfl, evaluate_open_agree _ _ _ _ _ rfl⟩

/-! ## The whole pipeline -/

lemma length_transformEvalsToPoly (p : Prover Poly F) :
    (transformEvalsToPoly sub p).grandProductPolys.length = p.grandProductPolys.length ∧
      (transformEvalsToPoly sub p).permutedPairs.length = p.permutedPairs.length := by
  simp [transformEvalsToPoly]

variable [CommRing F] [Inhabited Poly]

/-- The lookup prover's pipeline on `N` arguments: every `CompressPairs` prover (in particular
each of the `BatchCompressPairs` provers, which passes its `CHECK_EQ` when there is one table
per prover), permuted with every `PermuteExpressionPair` call of the run succeeding, passes the
`CHECK`s of `PermutePair`, `CreateGrandProductPolys`, `Evaluate` and `Open`;
`CreateGrandProductPolys` clears the compressed pairs and leaves `N` permuted pairs and `N` grand
products, the `i`-th the evaluations `CreatePoly` returns on the callbacks of the `i`-th
compressed and permuted pair; and `Open` appends `5·N` claims after the openings already
there. -/
theorem lookupPipeline_ok (simpleEvaluator : Table → List F → Evaluator)
    (arguments : List (LookupArgument Expr)) (theta beta gamma : F)
    (pointSet : OpeningPointSet F) :
    (∀ (lookupProvers : List (Prover Poly F)) (tables : List Table) (challenges : List F),
      lookupProvers.length = tables.length →
      batchCompressPairs sub simpleEvaluator lookupProvers arguments theta tables challenges =
        some ((lookupProvers.zip tables).map fun pt =>
          compressPairs sub arguments theta (simpleEvaluator pt.2 challenges) pt.1)) ∧
    ∀ (evaluator : Evaluator) (p : Prover Poly F) (pb : ProverBase Poly F)
      (openings : List (PolynomialOpening Poly F F)),
      PermuteSucceeds sub pb (compressPairs sub arguments theta evaluator p).compressedPairs →
      let p₁ := compressPairs sub arguments theta evaluator p
      ∃ p₂ pb₂ p₃ pb₃ pb₄ newOpenings,
        permutePairs sub p₁ pb = some (p₂, pb₂) ∧
        createGrandProductPolys sub beta gamma p₂ pb₂ = some (p₃, pb₃) ∧
        evaluate (transformEvalsToPoly sub p₃) pb₃ pointSet = some pb₄ ∧
        «open» sub (transformEvalsToPoly sub p₃) pointSet openings =
          some (openings ++ newOpenings) ∧
        p₃.compressedPairs = [] ∧
        p₃.permutedPairs.length = arguments.length ∧
        p₃.grandProductPolys.length = arguments.length ∧
        (∃ pbs : List (ProverBase Poly F), pbs.length = arguments.length ∧
          p₃.grandProductPolys.map (·.evals) =
            List.zipWith (fun pbi q => (sub.createPoly pbi (createNumeratorCallback q.1 beta gamma)
              (createDenominatorCallback q.2 beta gamma)).1) pbs
              (p₁.compressedPairs.zip p₂.permutedPairs)) ∧
        newOpenings.length = 5 * arguments.length := by
  refine ⟨fun lookupProvers tables challenges hlen =>
    batchCompressPairs_eq_some sub simpleEvaluator lookupProvers arguments theta tables
      challenges hlen, fun evaluator p pb openings hperm => ?_⟩
  obtain ⟨p₂, pb₂, hp₂, hcp₂, hlen₂⟩ := permutePairs_isSome sub _ pb hperm
  obtain ⟨p₃, pb₃, hp₃, hcp₃, hpp₃, pbs, hpbs, hz₃⟩ :=
    createGrandProductPolys_isSome sub beta gamma p₂ pb₂ (by rw [hcp₂, hlen₂])
  have hN : p₂.permutedPairs.length = arguments.length := by simp [hlen₂]
  have hpbs' : pbs.length = arguments.length := by simp [hpbs, hcp₂]
  have hz : p₃.grandProductPolys.length = arguments.length := by
    rw [← List.length_map _ (·.evals), hz₃]
    simp [hcp₂, hN, hpbs']
  obtain ⟨hzT, hpT⟩ := length_transformEvalsToPoly sub p₃
  have hT : (transformEvalsToPoly sub p₃).grandProductPolys.length =
      (transformEvalsToPoly sub p₃).permutedPairs.length := by
    rw [hzT, hpT, hz, hpp₃, hN]
  refine ⟨p₂, pb₂, p₃, pb₃, _, _, hp₂, hp₃, evaluate_eq_some sub _ pointSet hT pb₃,
    open_eq_some sub _ pointSet hT openings, hcp₃, by rw [hpp₃, hN], hz,
    ⟨pbs, hpbs', by rw [hz₃, hcp₂]⟩, ?_⟩
  rw [length_openClaims, List.length_zip, hzT, hpT, hz, hpp₃, hN, Nat.min_self]

/-- Two lookup arguments over `ℤ`, with a `PermuteExpressionPair` that returns the pair it is
given and a `CreatePoly` that draws one scalar from the blinder. -/
theorem lookupPipeline_ok_twoArguments :
    let sub : LookupSubroutines ℕ ℤ Unit Unit :=
      ⟨fun es _ _ => es.map fun _ => 1, fun pb cp => some (cp, pb),
        fun pb _ _ => ([1, 1], pb.generate.2), fun _ => 0, fun _ _ => 0⟩
    let arguments : List (LookupArgument Unit) := [⟨[()], [()]⟩, ⟨[()], [(), ()]⟩]
    let p : Prover ℕ ℤ := ⟨[], [], []⟩
    let pb : ProverBase ℕ ℤ := ⟨[], fun i => i⟩
    let pointSet : OpeningPointSet ℤ := ⟨0, -1, 1⟩
    PermuteSucceeds sub pb (compressPairs sub arguments 0 () p).compressedPairs ∧
    let p₁ := compressPairs sub arguments 0 () p
    ∃ p₂ pb₂ p₃ pb₃ pb₄ newOpenings,
      permutePairs sub p₁ pb = some (p₂, pb₂) ∧
      createGrandProductPolys sub 0 0 p₂ pb₂ = some (p₃, pb₃) ∧
      evaluate (transformEvalsToPoly sub p₃) pb₃ pointSet = some pb₄ ∧
      «open» sub (transformEvalsToPoly sub p₃) pointSet [] = some ([] ++ newOpenings) ∧
      p₃.compressedPairs = [] ∧
      p₃.permutedPairs.length = arguments.length ∧
      p₃.grandProductPolys.length = arguments.length ∧
      (∃ pbs : List (ProverBase ℕ ℤ), pbs.length = arguments.length ∧
        p₃.grandProductPolys.map (·.evals) =
          List.zipWith (fun pbi q => (sub.createPoly pbi (createNumeratorCallback q.1 0 0)
            (createDenominatorCallback q.2 0 0)).1) pbs
            (p₁.compressedPairs.zip p₂.permutedPairs)) ∧
      newOpenings.length = 5 * arguments.length := by
  intro sub arguments p pb pointSet
  have hperm : PermuteSucceeds sub pb (compressPairs sub arguments 0 () p).compressedPairs :=
    ⟨_, _, rfl, _, _, rfl, trivial⟩
  exact ⟨hperm,
    (lookupPipeline_ok sub (fun (_ : Unit) _ => ()) arguments 0 0 0 pointSet).2 () p pb [] hperm⟩

end Tachyon.Zk.Lookup.Halo2
