import Tachyon.Zk.Lookup.Prover
import Mathlib.Data.UInt

/-!
# Commitment slots of the lookup prover

`BatchCommitPermutedPairs` and `BatchCommitGrandProductPolys` each have two loops, of which a
PCS compiles one: the batch loop queues every polynomial with `BatchCommitAt` at the next
`commit_idx`, the streaming loop commits it at once with `CommitAndWriteToProof`.

Both loops walk the provers and then each prover's pairs (or grand products); so they are
folds of a body that commits a short list of polynomials.  `foldl_batch` and `foldl_stream`
say once what such a fold logs: the flattened list of polynomials, at the slots
`c₀, c₀ + 1, …` in `size_t` arithmetic, or streamed in the same order.  The main result,
`batchCommit_slots`, instantiates them for both methods and both loops, and adds that a
permuted-pairs call followed by a grand-products call fills one contiguous block of distinct
slots.
-/

namespace Tachyon.Zk.Lookup.Halo2

/-! ## Slots in `size_t` -/

/-- `UInt64.ofNat` is additive: `size_t` arithmetic is arithmetic modulo `2^64`. -/
lemma uint64_ofNat_add (a b : ℕ) :
    UInt64.ofNat (a + b) = UInt64.ofNat a + UInt64.ofNat b := by
  apply UInt64.eq_of_toBitVec_eq
  apply BitVec.eq_of_toNat_eq
  simp only [UInt64.ofNat, UInt64.add_def, BitVec.toNat_add, BitVec.toNat_ofNat]
  omega

@[simp] lemma uint64_ofNat_zero : UInt64.ofNat 0 = 0 := rfl

/-- Below `2^64`, distinct offsets give distinct slots. -/
lemma add_ofNat_injective (c₀ : UInt64) {k k' : ℕ} (hk : k < 2 ^ 64) (hk' : k' < 2 ^ 64)
    (h : c₀ + UInt64.ofNat k = c₀ + UInt64.ofNat k') : k = k' := by
  have := congrArg UInt64.toNat (add_left_cancel h)
  simp only [UInt64.toNat, UInt64.ofNat, BitVec.toNat_ofNat] at this
  omega

variable {Poly F : Type}

/-! ## What a commit loop logs -/

/-- The `BatchCommitAt` calls that queue the `k`-th polynomial of `seq` at slot `c₀ + k`. -/
def slotCalls (c₀ : UInt64) (seq : List (List F)) : List (PcsCall Poly F) :=
  seq.enum.map fun ke => .batchCommitAt ke.2 (c₀ + UInt64.ofNat ke.1)

@[simp] lemma slotCalls_nil (c₀ : UInt64) : (slotCalls c₀ [] : List (PcsCall Poly F)) = [] := rfl

/-- Queuing `s ++ t` from `c₀` queues `s`, then `t` from the slot after `s`. -/
lemma slotCalls_append (c₀ : UInt64) (s t : List (List F)) :
    (slotCalls c₀ (s ++ t) : List (PcsCall Poly F)) =
      slotCalls c₀ s ++ slotCalls (c₀ + UInt64.ofNat s.length) t := by
  simp only [slotCalls, List.enum_append, List.map_append, List.enumFrom_eq_map_enum,
    List.map_map]
  congr 1
  refine List.map_congr_left fun ke _ => ?_
  simp only [Function.comp_apply, Prod.map_fst, Prod.map_snd, id_eq, uint64_ofNat_add]
  rw [add_assoc, add_comm (UInt64.ofNat ke.1)]

/-- A batch loop whose body queues `polys x` at the next slots queues, over the whole list,
the concatenation of the `polys x`, and advances the counter by its length. -/
lemma foldl_batch {α : Type} (body : ProverBase Poly F × UInt64 → α → ProverBase Poly F × UInt64)
    (polys : α → List (List F))
    (hbody : ∀ acc x, body acc x =
      (acc.1.callAll (slotCalls acc.2 (polys x)), acc.2 + UInt64.ofNat (polys x).length))
    (xs : List α) (acc : ProverBase Poly F × UInt64) :
    xs.foldl body acc =
      (acc.1.callAll (slotCalls acc.2 (xs.flatMap polys)),
        acc.2 + UInt64.ofNat (xs.flatMap polys).length) := by
  induction xs generalizing acc with
  | nil => simp
  | cons x xs ih =>
    simp only [List.foldl_cons, ih, hbody, List.flatMap_cons, slotCalls_append,
      ProverBase.callAll_callAll, List.length_append, uint64_ofNat_add, add_assoc]

/-- A streaming loop whose body commits `polys x` commits their concatenation. -/
lemma foldl_stream {α : Type} (body : ProverBase Poly F → α → ProverBase Poly F)
    (polys : α → List (List F))
    (hbody : ∀ pb x, body pb x = pb.callAll ((polys x).map .commitAndWriteToProof))
    (xs : List α) (pb : ProverBase Poly F) :
    xs.foldl body pb = pb.callAll ((xs.flatMap polys).map .commitAndWriteToProof) := by
  induction xs generalizing pb with
  | nil => simp
  | cons x xs ih => simp [ih, hbody]

/-! ## The two methods -/

/-- The permuted polynomials in commit order: `[input₀, table₀, input₁, table₁, …]`, over the
provers and then over their pairs. -/
def permutedCommitSequence (provers : List (Prover Poly F)) : List (List F) :=
  provers.flatMap fun p => p.permutedPairs.flatMap fun pp => [pp.input.evals, pp.table.evals]

/-- The grand products in commit order. -/
def grandProductCommitSequence (provers : List (Prover Poly F)) : List (List F) :=
  provers.flatMap fun p => p.grandProductPolys.map (·.evals)

lemma length_permutedCommitSequence (provers : List (Prover Poly F)) :
    (permutedCommitSequence provers).length = 2 * (provers.flatMap (·.permutedPairs)).length := by
  have hpairs (l : List (LookupPair (BlindedPolynomial Poly F))) :
      (l.flatMap fun pp => [pp.input.evals, pp.table.evals]).length = 2 * l.length := by
    induction l with
    | nil => rfl
    | cons pp l ih => simp only [List.flatMap_cons, List.length_append, ih]; simp; omega
  induction provers with
  | nil => rfl
  | cons p ps ih =>
    simp only [permutedCommitSequence, List.flatMap_cons, List.length_append, hpairs] at ih ⊢
    rw [ih, Nat.mul_add]

lemma length_grandProductCommitSequence (provers : List (Prover Poly F)) :
    (grandProductCommitSequence provers).length = (provers.flatMap (·.grandProductPolys)).length := by
  simp [grandProductCommitSequence, List.length_flatMap, Function.comp_def]

lemma batchCommitPermutedPair_eq (acc : ProverBase Poly F × UInt64)
    (pp : LookupPair (BlindedPolynomial Poly F)) :
    batchCommitPermutedPair acc pp =
      (acc.1.callAll (slotCalls acc.2 [pp.input.evals, pp.table.evals]), acc.2 + UInt64.ofNat 2) := by
  have h2 : UInt64.ofNat 2 = 1 + 1 := rfl
  simp only [batchCommitPermutedPair, ProverBase.call_eq_callAll, ProverBase.callAll_callAll,
    slotCalls, List.enum_cons, List.enumFrom_cons, List.enumFrom_nil, List.map_cons,
    List.map_nil, List.singleton_append, add_assoc, h2, uint64_ofNat_zero, add_zero]
  rfl

lemma batchCommitGrandProductPoly_eq (acc : ProverBase Poly F × UInt64)
    (z : BlindedPolynomial Poly F) :
    batchCommitGrandProductPoly acc z =
      (acc.1.callAll (slotCalls acc.2 [z.evals]), acc.2 + UInt64.ofNat 1) := by
  simp only [batchCommitGrandProductPoly, ProverBase.call_eq_callAll, slotCalls,
    List.enum_cons, List.enumFrom_nil, List.map_cons, List.map_nil, uint64_ofNat_zero, add_zero]
  rfl

section
variable (provers : List (Prover Poly F)) (pb : ProverBase Poly F) (c₀ : UInt64)

lemma batchCommitPermutedPairs_batch :
    batchCommitPermutedPairs true provers pb c₀ =
      (pb.callAll (slotCalls c₀ (permutedCommitSequence provers)),
        c₀ + UInt64.ofNat (permutedCommitSequence provers).length) := by
  have hpairs := foldl_batch _ _ (@batchCommitPermutedPair_eq Poly F)
  have hprovers := foldl_batch _ _ (fun acc (p : Prover Poly F) => hpairs p.permutedPairs acc)
  simp only [batchCommitPermutedPairs, hprovers, permutedCommitSequence]
  cases provers <;> simp

lemma batchCommitPermutedPairs_stream :
    batchCommitPermutedPairs false provers pb c₀ =
      (pb.callAll ((permutedCommitSequence provers).map .commitAndWriteToProof), c₀) := by
  have hpairs := foldl_stream (@commitAndWritePermutedPair Poly F)
    (fun pp => [pp.input.evals, pp.table.evals]) fun pb pp => by
      simp [commitAndWritePermutedPair, ProverBase.call_eq_callAll]
  have hprovers := foldl_stream _ _ (fun pb (p : Prover Poly F) => hpairs p.permutedPairs pb)
  simp only [batchCommitPermutedPairs, hprovers, permutedCommitSequence]
  cases provers <;> simp

lemma batchCommitGrandProductPolys_batch :
    batchCommitGrandProductPolys true provers pb c₀ =
      (pb.callAll (slotCalls c₀ (grandProductCommitSequence provers)),
        c₀ + UInt64.ofNat (grandProductCommitSequence provers).length) := by
  have hpolys := foldl_batch _ _ (@batchCommitGrandProductPoly_eq Poly F)
  have hprovers := foldl_batch _ _ (fun acc (p : Prover Poly F) => hpolys p.grandProductPolys acc)
  simp only [batchCommitGrandProductPolys, hprovers, grandProductCommitSequence,
    ← List.map_eq_flatMap]
  cases provers <;> simp

lemma batchCommitGrandProductPolys_stream :
    batchCommitGrandProductPolys false provers pb c₀ =
      (pb.callAll ((grandProductCommitSequence provers).map .commitAndWriteToProof), c₀) := by
  have hpolys := foldl_stream (@commitAndWriteGrandProductPoly Poly F) (fun z => [z.evals])
    fun _ _ => rfl
  have hprovers := foldl_stream _ _ (fun pb (p : Prover Poly F) => hpolys p.grandProductPolys pb)
  simp only [batchCommitGrandProductPolys, hprovers, grandProductCommitSequence,
    ← List.map_eq_flatMap]
  cases provers <;> simp

end

/-- Both commit methods, in both modes: the batch loop queues the polynomials at the slots
`c₀, c₀ + 1, …` and leaves the counter after the last; the streaming loop commits the same
polynomials in the same order; `2T` permuted polynomials for `T` pairs; and a permuted-pairs
call followed by a grand-products call fills one contiguous block, whose slots are distinct as
long as the block fits in `size_t`. -/
theorem batchCommit_slots (provers : List (Prover Poly F)) (pb : ProverBase Poly F)
    (c₀ : UInt64) :
    (permutedCommitSequence provers).length = 2 * (provers.flatMap (·.permutedPairs)).length ∧
    (grandProductCommitSequence provers).length = (provers.flatMap (·.grandProductPolys)).length ∧
    batchCommitPermutedPairs true provers pb c₀ =
      (pb.callAll (slotCalls c₀ (permutedCommitSequence provers)),
        c₀ + UInt64.ofNat (permutedCommitSequence provers).length) ∧
    batchCommitPermutedPairs false provers pb c₀ =
      (pb.callAll ((permutedCommitSequence provers).map .commitAndWriteToProof), c₀) ∧
    batchCommitGrandProductPolys true provers pb c₀ =
      (pb.callAll (slotCalls c₀ (grandProductCommitSequence provers)),
        c₀ + UInt64.ofNat (grandProductCommitSequence provers).length) ∧
    batchCommitGrandProductPolys false provers pb c₀ =
      (pb.callAll ((grandProductCommitSequence provers).map .commitAndWriteToProof), c₀) ∧
    (let r := batchCommitPermutedPairs true provers pb c₀
     batchCommitGrandProductPolys true provers r.1 r.2 =
      (pb.callAll (slotCalls c₀ (permutedCommitSequence provers ++ grandProductCommitSequence provers)),
        c₀ + UInt64.ofNat
          (permutedCommitSequence provers ++ grandProductCommitSequence provers).length)) ∧
    ((permutedCommitSequence provers ++ grandProductCommitSequence provers).length ≤ 2 ^ 64 →
      ((List.range (permutedCommitSequence provers ++ grandProductCommitSequence provers).length).map
        fun k => c₀ + UInt64.ofNat k).Nodup) := by
  refine ⟨length_permutedCommitSequence provers, length_grandProductCommitSequence provers,
    batchCommitPermutedPairs_batch provers pb c₀, batchCommitPermutedPairs_stream provers pb c₀,
    batchCommitGrandProductPolys_batch provers pb c₀,
    batchCommitGrandProductPolys_stream provers pb c₀, ?_, fun hlen => ?_⟩
  · simp only [batchCommitPermutedPairs_batch, batchCommitGrandProductPolys_batch,
      ProverBase.callAll_callAll, slotCalls_append, List.length_append, uint64_ofNat_add,
      add_assoc]
  · refine (List.nodup_range _).map_on fun k hk k' hk' h => ?_
    rw [List.mem_range] at hk hk'
    exact add_ofNat_injective c₀ (by omega) (by omega) h

end Tachyon.Zk.Lookup.Halo2
