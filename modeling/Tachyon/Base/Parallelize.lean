import Mathlib.Data.List.Basic

/-!
# Chunked parallel loops

The grand-product callbacks are run by `base::Parallelize`, which is not part of the sources.
It is modelled from the spec: the vector is cut into consecutive chunks of `chunk_size` values,
the last possibly shorter, and the callback is called on chunk `k` with `(chunk, k,
chunk_size)`.  "Chunks are independent; no synchronization between workers", so each call
rewrites its own chunk only, and the parallel run is the chunks' results in order.

A callback is `RowWise` when it rewrites each value by a function of the value and of its row,
counting rows from `chunk_index * chunk_size`.  Such a callback gives the same vector whatever
the chunking (`parallelize_rowWise`), and the same as one call on the whole vector.
-/

namespace Tachyon.Base

variable {α : Type}

/-- `numChunks` chunks from `chunkIndex` on: the callback on the next `chunkSize` values, with
the chunk's index and `chunkSize`, then the chunks after it. -/
def parallelizeChunks (callback : List α → ℕ → ℕ → List α) (chunkSize : ℕ) :
    ℕ → ℕ → List α → List α
  | 0, _, _ => []
  | numChunks + 1, chunkIndex, values =>
    callback (values.take chunkSize) chunkIndex chunkSize ++
      parallelizeChunks callback chunkSize numChunks (chunkIndex + 1) (values.drop chunkSize)

/-- Modelled from the spec: `base::Parallelize(values, callback)` with chunks of `chunkSize`
values, `⌈n / chunkSize⌉` of them. -/
def parallelize (values : List α) (callback : List α → ℕ → ℕ → List α) (chunkSize : ℕ) :
    List α :=
  parallelizeChunks callback chunkSize ((values.length + chunkSize - 1) / chunkSize) 0 values

/-- The callback rewrites the value in row `j` to `g value j`, the chunk starting at row
`chunkIndex * chunkSize`. -/
def RowWise (callback : List α → ℕ → ℕ → List α) (g : α → ℕ → α) : Prop :=
  ∀ chunk chunkIndex chunkSize, callback chunk chunkIndex chunkSize =
    List.zipWith g chunk (List.range' (chunkIndex * chunkSize) chunk.length)

section RowWise

variable {callback : List α → ℕ → ℕ → List α} {g : α → ℕ → α}

/-- One call on the whole vector rewrites row `j` to `g value j`. -/
lemma RowWise.whole (h : RowWise callback g) (values : List α) :
    callback values 0 values.length = List.zipWith g values (List.range values.length) := by
  rw [h, Nat.zero_mul, List.range_eq_range']

/-- Enough chunks from `chunkIndex` on rewrite row `chunkIndex * chunkSize + j` to
`g value j` throughout. -/
lemma parallelizeChunks_rowWise (h : RowWise callback g) (chunkSize : ℕ) :
    ∀ (numChunks chunkIndex : ℕ) (values : List α), values.length ≤ numChunks * chunkSize →
      parallelizeChunks callback chunkSize numChunks chunkIndex values =
        List.zipWith g values (List.range' (chunkIndex * chunkSize) values.length)
  | 0, _, values, hlen => by
    rw [List.eq_nil_of_length_eq_zero (by omega : values.length = 0)]
    rfl
  | numChunks + 1, chunkIndex, values, hlen => by
    have hrest : (values.drop chunkSize).length ≤ numChunks * chunkSize := by
      rw [List.length_drop]
      rw [Nat.succ_mul] at hlen
      omega
    -- the rows of the vector are those of its first chunk, then those of the rest
    have hrows : List.range' (chunkIndex * chunkSize) values.length =
        List.range' (chunkIndex * chunkSize) (values.take chunkSize).length ++
          List.range' ((chunkIndex + 1) * chunkSize) (values.drop chunkSize).length := by
      rw [List.range'_eq_append_iff]
      refine ⟨_, List.length_take_le' _ _, rfl, ?_⟩
      rcases le_total chunkSize values.length with hc | hc
      · simp [Nat.succ_mul, min_eq_left hc]
      · simp [min_eq_right hc, Nat.sub_eq_zero_of_le hc]
    rw [parallelizeChunks, h, parallelizeChunks_rowWise h chunkSize numChunks _ _ hrest, hrows,
      ← List.zipWith_append _ _ _ _ _ (by simp), List.take_append_drop]

/-- `Parallelize` with a row-wise callback and chunks of at least one value rewrites row `j` to
`g value j`, whatever the chunk size. -/
lemma parallelize_rowWise (h : RowWise callback g) {chunkSize : ℕ} (hc : 1 ≤ chunkSize)
    (values : List α) :
    parallelize values callback chunkSize = List.zipWith g values (List.range values.length) := by
  -- `⌈n / c⌉` chunks of `c` cover the `n` values
  have hcover : values.length ≤ (values.length + chunkSize - 1) / chunkSize * chunkSize := by
    have := Nat.div_add_mod (values.length + chunkSize - 1) chunkSize
    have := Nat.mod_lt (values.length + chunkSize - 1) (by omega : 0 < chunkSize)
    rw [Nat.mul_comm]
    omega
  rw [parallelize, parallelizeChunks_rowWise h _ _ _ _ hcover, Nat.zero_mul, List.range_eq_range']

/-- Row `i` of a row-wise result is `g value i`. -/
lemma getElem?_zipWith_range (g : α → ℕ → α) (values : List α) {i : ℕ} (hi : i < values.length) :
    (List.zipWith g values (List.range values.length))[i]? = some (g values[i] i) := by
  simp [List.getElem?_zipWith, hi]

/-- A row-wise result reads `g` only on the rows of the vector. -/
lemma zipWith_range_congr {g' : α → ℕ → α} (values : List α)
    (hg : ∀ value, ∀ j < values.length, g value j = g' value j) :
    List.zipWith g values (List.range values.length) =
      List.zipWith g' values (List.range values.length) :=
  List.ext_getElem (by simp) fun i hi _ => by
    simp only [List.length_zipWith, List.length_range, min_self] at hi
    simp [hg _ _ hi]

end RowWise

end Tachyon.Base
