import Tachyon.Crypto.PolynomialOpenings
import Mathlib.Algebra.Ring.Defs

/-!
# The halo2 lookup prover

The methods of `zk/lookup/halo2/prover_impl.h`, as functions on the state they read and write.

A `Prover` holds the three vectors the methods fill in turn: `compressed_pairs_`,
`permuted_pairs_` and `grand_product_polys_`.  The `ProverBase<PCS>` it is driven by is seen
through what the methods do with it: the calls they make on the commitment scheme and the
transcript, logged in order as `PcsCall`s, and the stream of scalars its blinder hands out.

The subroutines the file calls but does not define (`CompressExpressions`,
`PermuteExpressionPair`, `GrandProductArgument::CreatePoly`, the domain's inverse FFT and
`Poly::Evaluate`) are the fields of `LookupSubroutines`, so every result below holds for
every implementation of them.  The two that receive the prover, `PermuteExpressionPair` and
`CreatePoly`, take the `ProverBase` and hand back the one they leave, so that what they do to
it (drawing from the blinder, say) is part of the run.  Evaluations (`Evals`) are vectors of
field elements, since the grand-product callbacks index them; coefficient-form polynomials
(`Poly`) stay abstract.

A `CHECK` that fails is `none`.  `commit_idx` is a `size_t`, which is 64 bits wide on the
architectures the repository builds for, so it is a `UInt64` and `commit_idx++` wraps.
-/

namespace Tachyon.Zk.Lookup.Halo2

open Crypto

/-! ## Data -/

/-- `LookupPair<T>`: an input and a table. -/
structure LookupPair (T : Type) where
  input : T
  table : T
  deriving DecidableEq, Repr

/-- `BlindedPolynomial<Poly, Evals>`: evaluations, the coefficient form once
`TransformEvalsToPoly` has run, and a blinding scalar. -/
structure BlindedPolynomial (Poly F : Type) where
  evals : List F
  poly : Poly
  blind : F

/-- `OpeningPointSet<F>`: the challenge `x` and its rotations. -/
structure OpeningPointSet (F : Type) where
  x : F
  xPrev : F
  xNext : F

/-- `LookupArgument<F>`: the input and table expressions of one lookup. -/
structure LookupArgument (Expr : Type) where
  inputExpressions : List Expr
  tableExpressions : List Expr

/-- `base::ParallelizeCallback3<F>`: a callback on `(chunk, chunk_index, chunk_size)` that
returns the chunk it rewrites. -/
abbrev Callback (F : Type) := List F → ℕ → ℕ → List F

/-- A call on the commitment scheme or the transcript. -/
inductive PcsCall (Poly F : Type)
  /-- `BatchCommitAt(evals, index)`: queue a commitment in slot `index`. -/
  | batchCommitAt (evals : List F) (index : UInt64)
  /-- `CommitAndWriteToProof(evals)`: commit now and stream the commitment. -/
  | commitAndWriteToProof (evals : List F)
  /-- `EvaluateAndWriteToProof(poly, point)`: evaluate and stream the value. -/
  | evaluateAndWriteToProof (poly : Poly) (point : F)

/-- What the lookup prover sees of `ProverBase<PCS>`. -/
structure ProverBase (Poly F : Type) where
  /-- The calls made so far on the commitment scheme and the transcript, oldest first. -/
  calls : List (PcsCall Poly F)
  /-- The scalars `blinder().Generate()` returns next. -/
  blinds : ℕ → F

/-- `blinder().Generate()`. -/
def ProverBase.generate {Poly F : Type} (pb : ProverBase Poly F) : F × ProverBase Poly F :=
  (pb.blinds 0, { pb with blinds := fun i => pb.blinds (i + 1) })

/-- Log one call. -/
def ProverBase.call {Poly F : Type} (pb : ProverBase Poly F) (c : PcsCall Poly F) :
    ProverBase Poly F :=
  { pb with calls := pb.calls ++ [c] }

/-- Log several calls, in order. -/
def ProverBase.callAll {Poly F : Type} (pb : ProverBase Poly F) (cs : List (PcsCall Poly F)) :
    ProverBase Poly F :=
  { pb with calls := pb.calls ++ cs }

@[simp] lemma ProverBase.callAll_nil {Poly F : Type} (pb : ProverBase Poly F) :
    pb.callAll [] = pb := by
  simp [ProverBase.callAll]

@[simp] lemma ProverBase.callAll_callAll {Poly F : Type} (pb : ProverBase Poly F)
    (cs ds : List (PcsCall Poly F)) : (pb.callAll cs).callAll ds = pb.callAll (cs ++ ds) := by
  simp [ProverBase.callAll]

lemma ProverBase.call_eq_callAll {Poly F : Type} (pb : ProverBase Poly F) (c : PcsCall Poly F) :
    pb.call c = pb.callAll [c] := rfl

@[simp] lemma ProverBase.generate_calls {Poly F : Type} (pb : ProverBase Poly F) :
    pb.generate.2.calls = pb.calls := rfl

@[simp] lemma ProverBase.call_calls {Poly F : Type} (pb : ProverBase Poly F) (c : PcsCall Poly F) :
    (pb.call c).calls = pb.calls ++ [c] := rfl

/-- The subroutines `prover_impl.h` calls without defining them. -/
structure LookupSubroutines (Poly F Expr Evaluator : Type) where
  /-- `CompressExpressions(domain, expressions, θ, evaluator)`. -/
  compressExpressions : List Expr → F → Evaluator → List F
  /-- `PermuteExpressionPair(prover, compressed_pair, &permuted_pair)`; `none` when it
  returns false. -/
  permuteExpressionPair : ProverBase Poly F → LookupPair (List F) →
    Option (LookupPair (List F) × ProverBase Poly F)
  /-- `GrandProductArgument::CreatePoly(prover, numerator_callback, denominator_callback)`:
  the grand product's evaluations, and the prover base as it leaves it. -/
  createPoly : ProverBase Poly F → Callback F → Callback F → List F × ProverBase Poly F
  /-- The domain's inverse FFT, which `TransformEvalsToPoly` applies. -/
  ifft : List F → Poly
  /-- `Poly::Evaluate`. -/
  evaluate : Poly → F → F

/-- `lookup::halo2::Prover<Poly, Evals>`. -/
structure Prover (Poly F : Type) where
  compressedPairs : List (LookupPair (List F))
  permutedPairs : List (LookupPair (BlindedPolynomial Poly F))
  grandProductPolys : List (BlindedPolynomial Poly F)

variable {Poly F Expr Evaluator Table : Type} [CommRing F] [Inhabited Poly]
  (sub : LookupSubroutines Poly F Expr Evaluator)

/-! ## Compress -/

/-- `CompressPair`: `θ`-combinations of the input and of the table expressions. -/
def compressPair (argument : LookupArgument Expr) (theta : F) (evaluator : Evaluator) :
    LookupPair (List F) :=
  ⟨sub.compressExpressions argument.inputExpressions theta evaluator,
    sub.compressExpressions argument.tableExpressions theta evaluator⟩

/-- `CompressPairs`: one compressed pair per argument. -/
def compressPairs (arguments : List (LookupArgument Expr)) (theta : F) (evaluator : Evaluator)
    (p : Prover Poly F) : Prover Poly F :=
  { p with compressedPairs := arguments.map fun a => compressPair sub a theta evaluator }

/-- `BatchCompressPairs`: `CHECK_EQ(lookup_provers.size(), tables.size())`, then `CompressPairs`
on each prover with the evaluator over its own table; `simpleEvaluator` is the
`SimpleEvaluator` constructor. -/
def batchCompressPairs (simpleEvaluator : Table → List F → Evaluator)
    (lookupProvers : List (Prover Poly F)) (arguments : List (LookupArgument Expr)) (theta : F)
    (tables : List Table) (challenges : List F) : Option (List (Prover Poly F)) :=
  if lookupProvers.length = tables.length then
    some <| (lookupProvers.zip tables).map fun pt =>
      compressPairs sub arguments theta (simpleEvaluator pt.2 challenges) pt.1
  else none

/-! ## Permute -/

/-- `PermutePair`: `CHECK` the permutation, then draw the input's and the table's blind. -/
def permutePair (pb : ProverBase Poly F) (compressedPair : LookupPair (List F)) :
    Option (LookupPair (BlindedPolynomial Poly F) × ProverBase Poly F) := do
  let (permutedPair, pb) ← sub.permuteExpressionPair pb compressedPair
  let (inputBlind, pb) := pb.generate
  let (tableBlind, pb) := pb.generate
  pure (⟨⟨permutedPair.input, default, inputBlind⟩, ⟨permutedPair.table, default, tableBlind⟩⟩, pb)

/-- The `base::Map` of `PermutePairs`, in order. -/
def permutePairsLoop (pb : ProverBase Poly F) :
    List (LookupPair (List F)) →
      Option (List (LookupPair (BlindedPolynomial Poly F)) × ProverBase Poly F)
  | [] => some ([], pb)
  | cp :: cps => do
    let (pp, pb) ← permutePair sub pb cp
    let (pps, pb) ← permutePairsLoop pb cps
    pure (pp :: pps, pb)

/-- `PermutePairs`. -/
def permutePairs (p : Prover Poly F) (pb : ProverBase Poly F) :
    Option (Prover Poly F × ProverBase Poly F) := do
  let (pps, pb) ← permutePairsLoop sub pb p.compressedPairs
  pure ({ p with permutedPairs := pps }, pb)

/-! ## Grand product -/

/-- The loop of `CreateNumeratorCallback`, from row `i` on: each value is multiplied by
`(A_compressed(xᵢ) + β)` and then by `(S_compressed(xᵢ) + γ)`. -/
def numeratorLoop (compressedPair : LookupPair (List F)) (beta gamma : F) :
    List F → ℕ → List F
  | [], _ => []
  | value :: chunk, i =>
    value * (compressedPair.input.getD i 0 + beta) * (compressedPair.table.getD i 0 + gamma) ::
      numeratorLoop compressedPair beta gamma chunk (i + 1)

/-- `CreateNumeratorCallback`: the chunk starts at row `chunk_index * chunk_size`. -/
def createNumeratorCallback (compressedPair : LookupPair (List F)) (beta gamma : F) :
    Callback F :=
  fun chunk chunkIndex chunkSize => numeratorLoop compressedPair beta gamma chunk (chunkIndex * chunkSize)

/-- The loop of `CreateDenominatorCallback`, from row `i` on: each value is overwritten with
`(A'(xᵢ) + β)(S'(xᵢ) + γ)`. -/
def denominatorLoop (permutedPair : LookupPair (BlindedPolynomial Poly F)) (beta gamma : F) :
    List F → ℕ → List F
  | [], _ => []
  | _ :: chunk, i =>
    (permutedPair.input.evals.getD i 0 + beta) * (permutedPair.table.evals.getD i 0 + gamma) ::
      denominatorLoop permutedPair beta gamma chunk (i + 1)

/-- `CreateDenominatorCallback`. -/
def createDenominatorCallback (permutedPair : LookupPair (BlindedPolynomial Poly F))
    (beta gamma : F) : Callback F :=
  fun chunk chunkIndex chunkSize =>
    denominatorLoop permutedPair beta gamma chunk (chunkIndex * chunkSize)

/-- `CreateGrandProductPoly`: the grand product of the pair, then a fresh blind, in the order
of the braced initializer. -/
def createGrandProductPoly (pb : ProverBase Poly F) (compressedPair : LookupPair (List F))
    (permutedPair : LookupPair (BlindedPolynomial Poly F)) (beta gamma : F) :
    BlindedPolynomial Poly F × ProverBase Poly F :=
  let (evals, pb) := sub.createPoly pb (createNumeratorCallback compressedPair beta gamma)
    (createDenominatorCallback permutedPair beta gamma)
  let (blind, pb) := pb.generate
  (⟨evals, default, blind⟩, pb)

/-- The indexed `base::Map` of `CreateGrandProductPolys`: the `i`-th compressed pair with
`permuted_pairs_[i]`. -/
def createGrandProductPolysLoop (beta gamma : F) (pb : ProverBase Poly F) :
    List (LookupPair (List F)) → List (LookupPair (BlindedPolynomial Poly F)) →
      List (BlindedPolynomial Poly F) × ProverBase Poly F
  | cp :: cps, pp :: pps =>
    let (z, pb) := createGrandProductPoly sub pb cp pp beta gamma
    let (zs, pb) := createGrandProductPolysLoop beta gamma pb cps pps
    (z :: zs, pb)
  | _, _ => ([], pb)

/-- `CreateGrandProductPolys`: `CHECK_EQ` the two sizes, build the grand products, then clear
`compressed_pairs_`. -/
def createGrandProductPolys (beta gamma : F) (p : Prover Poly F) (pb : ProverBase Poly F) :
    Option (Prover Poly F × ProverBase Poly F) :=
  if p.compressedPairs.length = p.permutedPairs.length then
    let (zs, pb) := createGrandProductPolysLoop sub beta gamma pb p.compressedPairs p.permutedPairs
    some ({ p with grandProductPolys := zs, compressedPairs := [] }, pb)
  else none

/-! ## Commit -/

/-- The body of the batch loop of `BatchCommitPermutedPairs`: the input, then the table, each
queued at `commit_idx++`. -/
def batchCommitPermutedPair (acc : ProverBase Poly F × UInt64)
    (pp : LookupPair (BlindedPolynomial Poly F)) : ProverBase Poly F × UInt64 :=
  ((acc.1.call (.batchCommitAt pp.input.evals acc.2)).call (.batchCommitAt pp.table.evals (acc.2 + 1)),
    acc.2 + 1 + 1)

/-- The body of the streaming loop of `BatchCommitPermutedPairs`. -/
def commitAndWritePermutedPair (pb : ProverBase Poly F)
    (pp : LookupPair (BlindedPolynomial Poly F)) : ProverBase Poly F :=
  (pb.call (.commitAndWriteToProof pp.input.evals)).call (.commitAndWriteToProof pp.table.evals)

/-- `BatchCommitPermutedPairs`: nothing for no provers; else, over provers and then over their
permuted pairs, the batch loop when `PCS::kSupportsBatchMode` and the streaming loop otherwise. -/
def batchCommitPermutedPairs (batchMode : Bool) (lookupProvers : List (Prover Poly F))
    (pb : ProverBase Poly F) (commitIdx : UInt64) : ProverBase Poly F × UInt64 :=
  if lookupProvers.isEmpty then (pb, commitIdx)
  else if batchMode then
    lookupProvers.foldl (fun acc p => p.permutedPairs.foldl batchCommitPermutedPair acc)
      (pb, commitIdx)
  else
    (lookupProvers.foldl (fun pb p => p.permutedPairs.foldl commitAndWritePermutedPair pb) pb,
      commitIdx)

/-- The body of the batch loop of `BatchCommitGrandProductPolys`. -/
def batchCommitGrandProductPoly (acc : ProverBase Poly F × UInt64)
    (z : BlindedPolynomial Poly F) : ProverBase Poly F × UInt64 :=
  (acc.1.call (.batchCommitAt z.evals acc.2), acc.2 + 1)

/-- The body of the streaming loop of `BatchCommitGrandProductPolys`. -/
def commitAndWriteGrandProductPoly (pb : ProverBase Poly F) (z : BlindedPolynomial Poly F) :
    ProverBase Poly F :=
  pb.call (.commitAndWriteToProof z.evals)

/-- `BatchCommitGrandProductPolys`. -/
def batchCommitGrandProductPolys (batchMode : Bool) (lookupProvers : List (Prover Poly F))
    (pb : ProverBase Poly F) (commitIdx : UInt64) : ProverBase Poly F × UInt64 :=
  if lookupProvers.isEmpty then (pb, commitIdx)
  else if batchMode then
    lookupProvers.foldl (fun acc p => p.grandProductPolys.foldl batchCommitGrandProductPoly acc)
      (pb, commitIdx)
  else
    (lookupProvers.foldl (fun pb p => p.grandProductPolys.foldl commitAndWriteGrandProductPoly pb)
      pb, commitIdx)

/-! ## Transform, evaluate, open -/

/-- `BlindedPolynomial::TransformEvalsToPoly`. -/
def BlindedPolynomial.transformEvalsToPoly (b : BlindedPolynomial Poly F) :
    BlindedPolynomial Poly F :=
  { b with poly := sub.ifft b.evals }

/-- `TransformEvalsToPoly`: every permuted polynomial and every grand product. -/
def transformEvalsToPoly (p : Prover Poly F) : Prover Poly F :=
  { p with
    permutedPairs := p.permutedPairs.map fun pp =>
      ⟨pp.input.transformEvalsToPoly sub, pp.table.transformEvalsToPoly sub⟩
    grandProductPolys := p.grandProductPolys.map (·.transformEvalsToPoly sub) }

/-- `EVALUATE(polynomial, point)`: `EvaluateAndWriteToProof(polynomial.poly(), point)`. -/
def evaluateAt (pb : ProverBase Poly F) (polynomial : BlindedPolynomial Poly F) (point : F) :
    ProverBase Poly F :=
  pb.call (.evaluateAndWriteToProof polynomial.poly point)

/-- The body of the loop of `Evaluate` for row `i`. -/
def evaluateRow (pointSet : OpeningPointSet F) (pb : ProverBase Poly F)
    (grandProductPoly : BlindedPolynomial Poly F)
    (permutedPair : LookupPair (BlindedPolynomial Poly F)) : ProverBase Poly F :=
  let pb := evaluateAt pb grandProductPoly pointSet.x
  let pb := evaluateAt pb grandProductPoly pointSet.xNext
  let pb := evaluateAt pb permutedPair.input pointSet.x
  let pb := evaluateAt pb permutedPair.input pointSet.xPrev
  evaluateAt pb permutedPair.table pointSet.x

/-- The loop of `Evaluate`, over `grand_product_polys_[i]` and `permuted_pairs_[i]`. -/
def evaluateLoop (pointSet : OpeningPointSet F) (pb : ProverBase Poly F) :
    List (BlindedPolynomial Poly F) → List (LookupPair (BlindedPolynomial Poly F)) →
      ProverBase Poly F
  | z :: zs, pp :: pps => evaluateLoop pointSet (evaluateRow pointSet pb z pp) zs pps
  | _, _ => pb

/-- `Evaluate`: `CHECK_EQ` the sizes, then the loop. -/
def evaluate (p : Prover Poly F) (pb : ProverBase Poly F) (pointSet : OpeningPointSet F) :
    Option (ProverBase Poly F) :=
  if p.grandProductPolys.length = p.permutedPairs.length then
    some (evaluateLoop pointSet pb p.grandProductPolys p.permutedPairs)
  else none

/-- `OPENING(polynomial, point)`: the claim that `polynomial.poly()` takes the value
`polynomial.poly().Evaluate(point)` at `point`. -/
def openingAt (polynomial : BlindedPolynomial Poly F) (point : F) : PolynomialOpening Poly F F :=
  ⟨polynomial.poly, point, sub.evaluate polynomial.poly point⟩

/-- The body of the loop of `Open` for row `i`: five `emplace_back`s. -/
def openRow (pointSet : OpeningPointSet F) (openings : List (PolynomialOpening Poly F F))
    (grandProductPoly : BlindedPolynomial Poly F)
    (permutedPair : LookupPair (BlindedPolynomial Poly F)) : List (PolynomialOpening Poly F F) :=
  openings ++ [openingAt sub grandProductPoly pointSet.x, openingAt sub grandProductPoly pointSet.xNext,
    openingAt sub permutedPair.input pointSet.x, openingAt sub permutedPair.input pointSet.xPrev,
    openingAt sub permutedPair.table pointSet.x]

/-- The loop of `Open`. -/
def openLoop (pointSet : OpeningPointSet F) (openings : List (PolynomialOpening Poly F F)) :
    List (BlindedPolynomial Poly F) → List (LookupPair (BlindedPolynomial Poly F)) →
      List (PolynomialOpening Poly F F)
  | z :: zs, pp :: pps => openLoop pointSet (openRow sub pointSet openings z pp) zs pps
  | _, _ => openings

/-- `Open`: `CHECK_EQ` the sizes, then append the claims to `openings`. -/
def «open» (p : Prover Poly F) (pointSet : OpeningPointSet F)
    (openings : List (PolynomialOpening Poly F F)) : Option (List (PolynomialOpening Poly F F)) :=
  if p.grandProductPolys.length = p.permutedPairs.length then
    some (openLoop sub pointSet openings p.grandProductPolys p.permutedPairs)
  else none

end Tachyon.Zk.Lookup.Halo2
