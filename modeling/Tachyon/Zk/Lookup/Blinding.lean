import Tachyon.Zk.Lookup.Prover
import Mathlib.Algebra.Ring.Int.Defs

/-!
# Fresh blinds

`PermutePair` attaches a blind to the permuted input and another to the permuted table.
`CreateGrandProductPoly` attaches one to each grand product.  All of them come from
`prover->blinder().Generate()`, which hands out the scalars of one stream in turn.  Zero knowledge
needs every one of them to be a fresh draw: no two polynomials may share a blind.

`DrawnFrom pb pb' bs` says that the scalars `bs` are the blinder of `pb` read at strictly
increasing positions, and that `pb'` is that blinder past all of them.  A draw is `DrawnFrom`
(`drawnFrom_generate`), and `DrawnFrom` composes along a run (`DrawnFrom.trans`).  The other
stages that hold the prover are `PermuteExpressionPair` and `GrandProductArgument::CreatePoly`,
whose code is not in the sources.  Their contract, `AdvancesBlinder`, is that they may draw
from the blinder but never rewind it; what they draw sits between the blinds of the lookup.

`permutePairs_createGrandProductPolys_blinds` follows: across `PermutePairs` and then
`CreateGrandProductPolys`, the blinds of the permuted pairs and then those of the grand products
sit at strictly increasing positions of the stream, and later draws come after all of them.
-/

namespace Tachyon.Zk.Lookup.Halo2

variable {Poly F Expr Evaluator : Type}

/-- The scalars `bs` are the blinder of `pb` read at strictly increasing positions, all below
`k`, and `pb'` holds the blinder `k` draws further on. -/
def DrawnFrom (pb pb' : ProverBase Poly F) (bs : List F) : Prop :=
  ∃ (positions : List ℕ) (k : ℕ), positions.Sorted (· < ·) ∧ (∀ n ∈ positions, n < k) ∧
    bs = positions.map pb.blinds ∧ pb'.blinds = fun i => pb.blinds (i + k)

/-- `PermuteExpressionPair` and `CreatePoly` may draw from the blinder, but each hands back the
blinder some number of draws further on, never an earlier one. -/
def LookupSubroutines.AdvancesBlinder (sub : LookupSubroutines Poly F Expr Evaluator) : Prop :=
  (∀ pb cp permutedPair pb', sub.permuteExpressionPair pb cp = some (permutedPair, pb') →
    ∃ k, pb'.blinds = fun i => pb.blinds (i + k)) ∧
  ∀ pb numeratorCallback denominatorCallback, ∃ k,
    (sub.createPoly pb numeratorCallback denominatorCallback).2.blinds = fun i => pb.blinds (i + k)

lemma drawnFrom_generate (pb : ProverBase Poly F) :
    DrawnFrom pb pb.generate.2 [pb.generate.1] :=
  ⟨[0], 1, List.sorted_singleton 0, by simp, rfl, rfl⟩

lemma drawnFrom_self (pb : ProverBase Poly F) : DrawnFrom pb pb [] :=
  ⟨[], 0, List.sorted_nil, by simp, rfl, rfl⟩

lemma drawnFrom_nil_of_advance {pb pb' : ProverBase Poly F} {k : ℕ}
    (h : pb'.blinds = fun i => pb.blinds (i + k)) : DrawnFrom pb pb' [] :=
  ⟨[], k, List.sorted_nil, by simp, rfl, h⟩

/-- Draws followed by draws are draws: the second run's positions come after the first's. -/
lemma DrawnFrom.trans {pb pb' pb'' : ProverBase Poly F} {bs bs' : List F}
    (h : DrawnFrom pb pb' bs) (h' : DrawnFrom pb' pb'' bs') : DrawnFrom pb pb'' (bs ++ bs') := by
  obtain ⟨ns, k, hns, hk, rfl, hpb'⟩ := h
  obtain ⟨ns', k', hns', hk', rfl, hpb''⟩ := h'
  refine ⟨ns ++ ns'.map (· + k), k' + k, ?_, ?_, ?_, ?_⟩
  · refine List.pairwise_append.2 ⟨hns, List.pairwise_map.2 (hns'.imp fun h => by omega), ?_⟩
    intro a ha b hb
    obtain ⟨n, -, rfl⟩ := List.mem_map.1 hb
    have := hk a ha
    omega
  · intro n hn
    rcases List.mem_append.1 hn with hn | hn
    · have := hk n hn
      omega
    · obtain ⟨n', hn', rfl⟩ := List.mem_map.1 hn
      have := hk' n' hn'
      omega
  · simp [hpb']
  · simp only [hpb'', hpb', Nat.add_assoc]

/-! ## The stages -/

section Stages

variable [Inhabited Poly] {sub : LookupSubroutines Poly F Expr Evaluator}

/-- The blinds of the permuted pairs, the input's before the table's. -/
def permutedBlinds (pps : List (LookupPair (BlindedPolynomial Poly F))) : List F :=
  pps.flatMap fun pp => [pp.input.blind, pp.table.blind]

lemma permutePair_drawnFrom (hsub : sub.AdvancesBlinder) {pb pb' : ProverBase Poly F}
    {cp : LookupPair (List F)} {pp : LookupPair (BlindedPolynomial Poly F)}
    (h : permutePair sub pb cp = some (pp, pb')) :
    DrawnFrom pb pb' [pp.input.blind, pp.table.blind] := by
  simp only [permutePair, Option.bind_eq_bind, Option.bind_eq_some, Option.pure_def,
    Option.some.injEq] at h
  obtain ⟨⟨permutedPair, pb₁⟩, hperm, rfl, rfl⟩ := h
  obtain ⟨k, hk⟩ := hsub.1 _ _ _ _ hperm
  exact ((drawnFrom_nil_of_advance hk).trans (drawnFrom_generate _)).trans (drawnFrom_generate _)

lemma permutePairsLoop_drawnFrom (hsub : sub.AdvancesBlinder) :
    ∀ {pb pb' : ProverBase Poly F} {cps : List (LookupPair (List F))}
      {pps : List (LookupPair (BlindedPolynomial Poly F))},
      permutePairsLoop sub pb cps = some (pps, pb') → DrawnFrom pb pb' (permutedBlinds pps)
  | pb, pb', [], pps, h => by
    obtain ⟨rfl, rfl⟩ := Prod.mk.inj (Option.some.inj h).symm
    exact drawnFrom_self _
  | pb, pb', cp :: cps, pps, h => by
    simp only [permutePairsLoop, Option.bind_eq_bind, Option.bind_eq_some, Option.pure_def,
      Option.some.injEq] at h
    obtain ⟨⟨pp, pb₁⟩, hpp, ⟨pps', pb₂⟩, hloop, rfl, rfl⟩ := h
    exact (permutePair_drawnFrom hsub hpp).trans (permutePairsLoop_drawnFrom hsub hloop)

lemma createGrandProductPolysLoop_drawnFrom [CommRing F] (hsub : sub.AdvancesBlinder)
    (beta gamma : F) :
    ∀ (pb : ProverBase Poly F) (cps : List (LookupPair (List F)))
      (pps : List (LookupPair (BlindedPolynomial Poly F))),
      DrawnFrom pb (createGrandProductPolysLoop sub beta gamma pb cps pps).2
        ((createGrandProductPolysLoop sub beta gamma pb cps pps).1.map (·.blind))
  | pb, cp :: cps, pp :: pps => by
    obtain ⟨k, hk⟩ := hsub.2 pb (createNumeratorCallback cp beta gamma)
      (createDenominatorCallback pp beta gamma)
    exact ((drawnFrom_nil_of_advance hk).trans (drawnFrom_generate _)).trans
      (createGrandProductPolysLoop_drawnFrom hsub beta gamma _ cps pps)
  | pb, [], _ => drawnFrom_self pb
  | pb, _ :: _, [] => drawnFrom_self pb

/-- Every blind a prover holds, in the order they are drawn: both blinds of each permuted pair,
then each grand product's. -/
def Prover.allBlinds (p : Prover Poly F) : List F :=
  permutedBlinds p.permutedPairs ++ p.grandProductPolys.map (·.blind)

/-- **Fresh blinds.**  When neither `PermuteExpressionPair` nor `CreatePoly` rewinds the blinder,
`PermutePairs` and then `CreateGrandProductPolys` attach blinds read from the blinder at strictly
increasing positions, the permuted pairs' (input, then table) before the grand products', and
leave the blinder past all of them: no blind is used twice, and no later draw repeats one. -/
theorem permutePairs_createGrandProductPolys_blinds [CommRing F] (hsub : sub.AdvancesBlinder)
    (beta gamma : F) {p p₁ p₂ : Prover Poly F} {pb pb₁ pb₂ : ProverBase Poly F}
    (h₁ : permutePairs sub p pb = some (p₁, pb₁))
    (h₂ : createGrandProductPolys sub beta gamma p₁ pb₁ = some (p₂, pb₂)) :
    ∃ (positions : List ℕ) (k : ℕ), positions.Sorted (· < ·) ∧ (∀ n ∈ positions, n < k) ∧
      p₂.allBlinds = positions.map pb.blinds ∧ pb₂.blinds = fun i => pb.blinds (i + k) := by
  simp only [permutePairs, Option.bind_eq_bind, Option.bind_eq_some, Option.pure_def,
    Option.some.injEq] at h₁
  obtain ⟨⟨pps, pb'⟩, hloop, rfl, rfl⟩ := h₁
  simp only [createGrandProductPolys, Option.ite_none_right_eq_some, Option.some.injEq] at h₂
  obtain ⟨-, rfl, rfl⟩ := h₂
  exact (permutePairsLoop_drawnFrom hsub hloop).trans
    (createGrandProductPolysLoop_drawnFrom hsub beta gamma _ _ _)

end Stages

/-- One lookup over `ℤ`, with a `PermuteExpressionPair` that leaves the pair and the blinder as
they are, a `CreatePoly` that draws one scalar, and a blinder that hands out `0, 1, 2, …`: the
blinds are `0`, `1` and `3`, and `CreatePoly` took `2`. -/
theorem permutePairs_createGrandProductPolys_blinds_onePair :
    let sub : LookupSubroutines Unit ℤ Unit Unit :=
      ⟨fun _ _ _ => [], fun pb cp => some (cp, pb), fun pb _ _ => ([], pb.generate.2),
        fun _ => (), fun _ _ => 0⟩
    let p : Prover Unit ℤ := ⟨[⟨[1], [2]⟩], [], []⟩
    let pb : ProverBase Unit ℤ := ⟨[], fun i => i⟩
    let pp : LookupPair (BlindedPolynomial Unit ℤ) := ⟨⟨[1], (), 0⟩, ⟨[2], (), 1⟩⟩
    let p₁ : Prover Unit ℤ := ⟨[⟨[1], [2]⟩], [pp], []⟩
    let pb₁ : ProverBase Unit ℤ := ⟨[], fun i => ((i + 2 : ℕ) : ℤ)⟩
    let p₂ : Prover Unit ℤ := ⟨[], [pp], [⟨[], (), 3⟩]⟩
    let pb₂ : ProverBase Unit ℤ := ⟨[], fun i => ((i + 4 : ℕ) : ℤ)⟩
    sub.AdvancesBlinder ∧ permutePairs sub p pb = some (p₁, pb₁) ∧
      createGrandProductPolys sub 0 0 p₁ pb₁ = some (p₂, pb₂) ∧
      ∃ (positions : List ℕ) (k : ℕ), positions.Sorted (· < ·) ∧ (∀ n ∈ positions, n < k) ∧
        p₂.allBlinds = positions.map pb.blinds ∧ pb₂.blinds = fun i => pb.blinds (i + k) := by
  intro sub p pb pp p₁ pb₁ p₂ pb₂
  have hsub : sub.AdvancesBlinder := by
    refine ⟨?_, fun _ _ _ => ⟨1, rfl⟩⟩
    rintro pb cp _ _ ⟨⟩
    exact ⟨0, rfl⟩
  have h₁ : permutePairs sub p pb = some (p₁, pb₁) := rfl
  have h₂ : createGrandProductPolys sub 0 0 p₁ pb₁ = some (p₂, pb₂) := rfl
  exact ⟨hsub, h₁, h₂, permutePairs_createGrandProductPolys_blinds hsub 0 0 h₁ h₂⟩

end Tachyon.Zk.Lookup.Halo2
