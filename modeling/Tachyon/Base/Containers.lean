import Mathlib.Data.List.Sort
import Mathlib.Data.List.Forall2

/-!
# Containers of the grouping passes

The opening grouper of `crypto/commitments/polynomial_openings.h` is written against three
standard containers, and this module fixes what each of them means in the model.

* `absl::btree_set<DeepRef<const Point>>` is `BTreeSet`: the elements in iteration order,
  which `std::less` keeps strictly increasing.  `BTreeSet.insert` follows `btree_set::insert`,
  which leaves the set unchanged when an equivalent key is present.  Since the order is total,
  two sets with the same members are equal (`BTreeSet.eq_of_mem_iff`), and that is what makes
  `operator==` on point sets a test of set equality in `GroupByPoints`.
* The loop bodies of `GroupByPoly` and `GroupByPoints` are the same `std::find_if` over the
  output vector followed by an in-place update of the first match or a `push_back`.  That body
  is `findOrAppend`, with its keys (`map_findOrAppend`), its members (`mem_findOrAppend`) and
  its behaviour under a relabelling of the entries (`map_findOrAppend_comm`).
* `base::Map` with a `CHECK` inside the callback is `List.mapM` in `Option`;
  `mapM_eq_some_iff` turns its success into an elementwise relation.

`base::DeepRef<const T>` compares, orders and dereferences through its referent, and the
grouper uses a reference in no other way, so the model keeps the referent's value in its place.
-/

namespace Tachyon.Base

/-! ## Ordered sets -/

section BTreeSet

variable {α : Type*} [LinearOrder α]

/-- `btree_set::insert` on the element sequence: walk the strictly increasing list with
`std::less` and put `x` before the first larger key, unless an equivalent key is there. -/
def insertSorted (x : α) : List α → List α
  | [] => [x]
  | y :: ys => if x < y then x :: y :: ys else if y < x then y :: insertSorted x ys else y :: ys

@[simp] lemma mem_insertSorted {x z : α} {l : List α} :
    z ∈ insertSorted x l ↔ z = x ∨ z ∈ l := by
  induction l with
  | nil => simp [insertSorted]
  | cons y ys ih =>
    simp only [insertSorted]
    split_ifs with hxy hyx
    · simp
    · simp only [List.mem_cons, ih]; exact or_left_comm
    · obtain rfl : x = y := le_antisymm (not_lt.1 hyx) (not_lt.1 hxy)
      simp

lemma sorted_insertSorted (x : α) {l : List α} (h : l.Sorted (· < ·)) :
    (insertSorted x l).Sorted (· < ·) := by
  induction l with
  | nil => exact List.sorted_singleton x
  | cons y ys ih =>
    obtain ⟨hy, hys⟩ := List.sorted_cons.1 h
    simp only [insertSorted]
    split_ifs with hxy hyx
    · refine List.sorted_cons.2 ⟨fun b hb => ?_, h⟩
      rcases List.mem_cons.1 hb with rfl | hb
      exacts [hxy, hxy.trans (hy b hb)]
    · refine List.sorted_cons.2 ⟨fun b hb => ?_, ih hys⟩
      rcases mem_insertSorted.1 hb with rfl | hb
      exacts [hyx, hy b hb]
    · exact h

/-- `absl::btree_set<T>` ordered by `std::less<T>`: its elements in iteration order. -/
@[ext] structure BTreeSet (α : Type*) [LinearOrder α] where
  elems : List α
  sorted : elems.Sorted (· < ·)

namespace BTreeSet

instance : DecidableEq (BTreeSet α) := fun s t =>
  decidable_of_iff (s.elems = t.elems) BTreeSet.ext_iff.symm

/-- A default-constructed set. -/
def empty : BTreeSet α := ⟨[], List.sorted_nil⟩

/-- `btree_set::insert`. -/
def insert (x : α) (s : BTreeSet α) : BTreeSet α :=
  ⟨insertSorted x s.elems, sorted_insertSorted x s.sorted⟩

@[simp] lemma elems_empty : (empty : BTreeSet α).elems = [] := rfl

@[simp] lemma mem_insert {x z : α} {s : BTreeSet α} :
    z ∈ (s.insert x).elems ↔ z = x ∨ z ∈ s.elems := mem_insertSorted

lemma nodup (s : BTreeSet α) : s.elems.Nodup := s.sorted.nodup

/-- Sets over a total order are determined by their members: `operator==`, which compares the
two iteration sequences, is set equality. -/
lemma eq_of_mem_iff {s t : BTreeSet α} (h : ∀ x, x ∈ s.elems ↔ x ∈ t.elems) : s = t :=
  BTreeSet.ext <| List.eq_of_perm_of_sorted
    ((List.perm_ext_iff_of_nodup s.nodup t.nodup).2 h) s.sorted t.sorted

lemma ne_nil_of_mem {s : BTreeSet α} {x : α} (h : x ∈ s.elems) : s.elems ≠ [] :=
  List.ne_nil_of_mem h

/-- The set of the elements of a list, inserted one after another. -/
def ofList (l : List α) : BTreeSet α := l.foldl (fun s x => s.insert x) empty

lemma ofList_append_singleton (l : List α) (x : α) : ofList (l ++ [x]) = (ofList l).insert x := by
  simp [ofList]

@[simp] lemma mem_ofList {x : α} {l : List α} : x ∈ (ofList l).elems ↔ x ∈ l := by
  induction l using List.reverseRecOn with
  | nil => simp [ofList]
  | append_singleton l y ih => simp [ofList_append_singleton, ih, or_comm]

end BTreeSet

end BTreeSet

/-! ## Find-or-append -/

section FindOrAppend

variable {ε ε' κ κ' : Type*} [DecidableEq κ] [DecidableEq κ']

/-- The loop body of `GroupByPoly` and `GroupByPoints`: `std::find_if` the first entry whose
key is `k`, then update that entry in place, or `push_back` `fresh` when there is none. -/
def findOrAppend (key : ε → κ) (k : κ) (update : ε → ε) (fresh : ε) : List ε → List ε
  | [] => [fresh]
  | e :: es => if key e = k then update e :: es else e :: findOrAppend key k update fresh es

variable {key : ε → κ} {k : κ} {update : ε → ε} {fresh : ε}

/-- Updates keep keys and the fresh entry carries the searched key, so the key sequence only
gains `k` at its end, and only when `k` was missing. -/
lemma map_findOrAppend (hu : ∀ e, key (update e) = key e) (hf : key fresh = k) (es : List ε) :
    (findOrAppend key k update fresh es).map key =
      if k ∈ es.map key then es.map key else es.map key ++ [k] := by
  induction es with
  | nil => simp [findOrAppend, hf]
  | cons e es ih =>
    by_cases he : key e = k
    · simp [findOrAppend, he, hu]
    · simp only [findOrAppend, if_neg he, List.map_cons, ih, List.mem_cons, Ne.symm he, false_or]
      split_ifs <;> rfl

lemma nodup_map_findOrAppend (hu : ∀ e, key (update e) = key e) (hf : key fresh = k)
    {es : List ε} (h : (es.map key).Nodup) : ((findOrAppend key k update fresh es).map key).Nodup := by
  rw [map_findOrAppend hu hf]
  split_ifs with hk
  · exact h
  · exact h.append (List.nodup_singleton k) (by simpa using hk)

/-- With pairwise distinct keys, an entry of the result is an entry of another key left as it
was, the updated match, or the fresh entry when nothing matched. -/
lemma mem_findOrAppend {es : List ε} (h : (es.map key).Nodup) {e' : ε} :
    e' ∈ findOrAppend key k update fresh es ↔
      (e' ∈ es ∧ key e' ≠ k) ∨ (∃ e ∈ es, key e = k ∧ e' = update e) ∨
        (k ∉ es.map key ∧ e' = fresh) := by
  induction es with
  | nil => simp [findOrAppend]
  | cons e es ih =>
    rw [List.map_cons, List.nodup_cons] at h
    obtain ⟨hne, hnd⟩ := h
    by_cases he : key e = k
    · subst he
      have hes : ∀ x ∈ es, key x ≠ key e := fun x hx hk => hne (hk ▸ List.mem_map_of_mem key hx)
      rw [findOrAppend, if_pos rfl]
      constructor
      · intro h'
        rcases List.mem_cons.1 h' with rfl | h'
        · exact .inr (.inl ⟨e, List.mem_cons_self _ _, rfl, rfl⟩)
        · exact .inl ⟨List.mem_cons_of_mem _ h', hes _ h'⟩
      · rintro (⟨h', hk⟩ | ⟨x, hx, hk, rfl⟩ | ⟨hk, -⟩)
        · rcases List.mem_cons.1 h' with rfl | h'
          · exact absurd rfl hk
          · exact List.mem_cons_of_mem _ h'
        · rcases List.mem_cons.1 hx with rfl | hx
          · exact List.mem_cons_self _ _
          · exact absurd hk (hes x hx)
        · exact absurd (List.mem_map_of_mem key (List.mem_cons_self e es)) hk
    · rw [findOrAppend, if_neg he, List.mem_cons, ih hnd]
      simp only [List.mem_cons, List.map_cons, or_and_right, exists_or, exists_eq_left, he,
        false_and, false_or, not_or, Ne.symm he, not_false_eq_true, true_and]
      constructor
      · rintro (rfl | h' | h' | h')
        · exact .inl (.inl ⟨rfl, he⟩)
        · exact .inl (.inr h')
        · exact .inr (.inl h')
        · exact .inr (.inr h')
      · rintro ((⟨rfl, -⟩ | h') | h' | h')
        · exact .inl rfl
        · exact .inr (.inl h')
        · exact .inr (.inr (.inl h'))
        · exact .inr (.inr (.inr h'))

/-- When the update appends `a` to a list field and the fresh entry holds `[a]`, the
concatenation of those fields gains exactly one `a`. -/
lemma flatMap_findOrAppend_perm {β : Type*} {f : ε → List β} {a : β}
    (hu : ∀ e, f (update e) = f e ++ [a]) (hf : f fresh = [a]) (es : List ε) :
    ((findOrAppend key k update fresh es).flatMap f).Perm (es.flatMap f ++ [a]) := by
  induction es with
  | nil => simp [findOrAppend, hf]
  | cons e es ih =>
    by_cases he : key e = k
    · simp only [findOrAppend, if_pos he, List.flatMap_cons, hu, List.append_assoc]
      exact List.Perm.append_left _ List.perm_append_comm
    · simp only [findOrAppend, if_neg he, List.flatMap_cons, List.append_assoc]
      exact ih.append_left _

/-- A relabelling `g` of the entries commutes with the loop body as long as it preserves which
entries match, the update and the fresh entry. -/
lemma map_findOrAppend_comm {key' : ε' → κ'} {k' : κ'} {update' : ε' → ε'} {fresh' : ε'}
    (g : ε → ε') {es : List ε} (hk : ∀ e ∈ es, key' (g e) = k' ↔ key e = k)
    (hu : ∀ e ∈ es, g (update e) = update' (g e)) (hf : g fresh = fresh') :
    (findOrAppend key k update fresh es).map g = findOrAppend key' k' update' fresh' (es.map g) := by
  induction es with
  | nil => simp [findOrAppend, hf]
  | cons e es ih =>
    have ih := ih (fun x hx => hk x (.tail _ hx)) (fun x hx => hu x (.tail _ hx))
    by_cases he : key e = k
    · simp [findOrAppend, he, (hk e (.head _)).2 he, hu e (.head _)]
    · simp [findOrAppend, he, mt (hk e (.head _)).1 he, ih]

/-- On entries built by `f` from distinct keys, the loop body rewrites the entry of `k` with
`update`, or appends `fresh` when `k` is not among the keys. -/
lemma findOrAppend_map {f : κ → ε} (hf : ∀ k', key (f k') = k') {ks : List κ}
    (hks : ks.Nodup) : findOrAppend key k update fresh (ks.map f) =
      if k ∈ ks then ks.map (fun k' => if k' = k then update (f k') else f k')
      else ks.map f ++ [fresh] := by
  induction ks with
  | nil => simp [findOrAppend]
  | cons k' ks ih =>
    obtain ⟨hk', hks⟩ := List.nodup_cons.1 hks
    by_cases he : k' = k
    · subst he
      simp only [List.map_cons, findOrAppend, hf, if_true, List.mem_cons_self]
      exact congrArg _ <| List.map_congr_left fun k'' hk'' =>
        (if_neg (ne_of_mem_of_not_mem hk'' hk')).symm
    · simp only [List.map_cons, findOrAppend, hf, if_neg he, ih hks, List.mem_cons, Ne.symm he,
        false_or]
      split_ifs <;> rfl

end FindOrAppend

/-! ## First occurrences -/

section FirstOccurrences

variable {α : Type*} [DecidableEq α]

/-- The distinct entries of a list, in the order of their first occurrence. -/
def firstOccurrences : List α → List α
  | [] => []
  | a :: l => a :: (firstOccurrences l).filter (· ≠ a)

@[simp] lemma mem_firstOccurrences {x : α} {l : List α} : x ∈ firstOccurrences l ↔ x ∈ l := by
  induction l with
  | nil => rfl
  | cons a l ih =>
    by_cases h : x = a <;> simp [firstOccurrences, ih, h]

lemma nodup_firstOccurrences (l : List α) : (firstOccurrences l).Nodup := by
  induction l with
  | nil => exact List.nodup_nil
  | cons a l ih => exact List.nodup_cons.2 ⟨by simp, ih.filter _⟩

/-- Extending a list by `k` extends its first occurrences by `k`, unless `k` occurred already:
a loop that appends every entry it has not met builds the first occurrences. -/
lemma firstOccurrences_append_singleton (l : List α) (k : α) :
    firstOccurrences (l ++ [k]) =
      if k ∈ l then firstOccurrences l else firstOccurrences l ++ [k] := by
  induction l with
  | nil => simp [firstOccurrences]
  | cons a l ih =>
    by_cases hk : k ∈ l
    · simp [firstOccurrences, ih, hk]
    · by_cases ha : k = a
      · subst ha
        simp [firstOccurrences, ih, hk, List.filter_append]
      · simp [firstOccurrences, ih, hk, ha, List.filter_append]

lemma firstOccurrences_cons_of_not_mem {a : α} {l : List α} (h : a ∉ l) :
    firstOccurrences (a :: l) = a :: firstOccurrences l := by
  rw [firstOccurrences, List.filter_eq_self.2 fun x hx => by
    simpa using ne_of_mem_of_not_mem (mem_firstOccurrences.1 hx) h]

/-- A repeated entry adds nothing. -/
lemma firstOccurrences_cons_cons (a : α) (l : List α) :
    firstOccurrences (a :: a :: l) = firstOccurrences (a :: l) := by
  simp [firstOccurrences, List.filter_filter]

/-- A tail whose entries all occurred before adds nothing. -/
lemma firstOccurrences_append_of_subset {l l' : List α} (h : ∀ x ∈ l', x ∈ l) :
    firstOccurrences (l ++ l') = firstOccurrences l := by
  induction l' using List.reverseRecOn with
  | nil => rw [List.append_nil]
  | append_singleton l' k ih =>
    rw [← List.append_assoc, firstOccurrences_append_singleton,
      if_pos (List.mem_append_left _ (h k (by simp))), ih fun x hx => h x (by simp [hx])]

end FirstOccurrences

/-! ## Lists related elementwise -/

section Forall₂

variable {α β γ : Type*} {R : α → β → Prop} {l₁ : List α} {l₂ : List β}

lemma map_eq_map_of_forall₂ {f : α → γ} {g : β → γ} (h : List.Forall₂ R l₁ l₂)
    (hfg : ∀ a b, R a b → f a = g b) : l₁.map f = l₂.map g := by
  induction h with
  | nil => rfl
  | cons hab _ ih => simp [hfg _ _ hab, ih]

lemma exists_of_forall₂_right (h : List.Forall₂ R l₁ l₂) {b : β} (hb : b ∈ l₂) :
    ∃ a ∈ l₁, R a b := by
  induction h with
  | nil => cases hb
  | cons hab _ ih =>
    rcases List.mem_cons.1 hb with rfl | hb
    · exact ⟨_, List.mem_cons_self _ _, hab⟩
    · obtain ⟨a, ha, h⟩ := ih hb
      exact ⟨a, List.mem_cons_of_mem _ ha, h⟩

lemma exists_mem_zip_of_forall₂ (h : List.Forall₂ R l₁ l₂) {a : α} (ha : a ∈ l₁) :
    ∃ b, R a b ∧ (a, b) ∈ l₁.zip l₂ := by
  induction h with
  | nil => cases ha
  | cons hab _ ih =>
    rcases List.mem_cons.1 ha with rfl | ha
    · exact ⟨_, hab, List.mem_cons_self _ _⟩
    · obtain ⟨b, hR, hb⟩ := ih ha
      exact ⟨b, hR, List.mem_cons_of_mem _ hb⟩

end Forall₂

/-- An element of a concatenation without repetitions lies in exactly one block. -/
lemma existsUnique_of_nodup_flatMap {α β : Type*} {l : List α} {f : α → List β}
    (h : (l.flatMap f).Nodup) {b : β} (hb : b ∈ l.flatMap f) :
    ∃! i : Fin l.length, b ∈ f (l.get i) := by
  obtain ⟨a, ha, hba⟩ := List.mem_flatMap.1 hb
  obtain ⟨i, rfl⟩ := List.get_of_mem ha
  have hd := List.pairwise_iff_get.1 (List.nodup_flatMap.1 h).2
  refine ⟨i, hba, fun j hj => ?_⟩
  by_contra hne
  rcases lt_or_gt_of_ne hne with hlt | hlt
  exacts [hd j i hlt hj hba, hd i j hlt hba hj]

/-- `std::find_if` only reads the predicate on the elements it visits. -/
lemma find?_congr {α : Type*} {p q : α → Bool} {l : List α} (h : ∀ a ∈ l, p a = q a) :
    l.find? p = l.find? q := by
  induction l with
  | nil => rfl
  | cons a l ih =>
    simp only [List.find?_cons, h a (List.mem_cons_self a l),
      ih fun b hb => h b (List.mem_cons_of_mem a hb)]

/-! ## `base::Map` with a `CHECK` -/

/-- A `base::Map` whose callback may fail its `CHECK` succeeds exactly when every call does, and
its result is then related elementwise to the input. -/
lemma mapM_eq_some_iff {α β : Type*} {f : α → Option β} {l : List α} {l' : List β} :
    l.mapM f = some l' ↔ List.Forall₂ (fun a b => f a = some b) l l' := by
  induction l generalizing l' with
  | nil => rw [List.mapM_nil]; cases l' <;> simp
  | cons a l ih =>
    cases l' with
    | nil =>
      simp only [List.mapM_cons, List.forall₂_cons, List.Forall₂]
      cases f a <;> cases l.mapM f <;> simp
    | cons b l' =>
      simp only [List.mapM_cons, List.forall₂_cons, ← ih]
      cases f a <;> cases l.mapM f <;> simp

/-- A checked `base::Map` whose every call returns `g` of its argument returns the map of `g`. -/
lemma mapM_eq_some_map {α β : Type*} {f : α → Option β} {g : α → β} {l : List α}
    (h : ∀ a ∈ l, f a = some (g a)) : l.mapM f = some (l.map g) :=
  mapM_eq_some_iff.2 <| List.forall₂_map_right_iff.2 <| List.forall₂_same.2 h

/-- A checked `base::Map` whose every call succeeds returns the calls' results. -/
lemma mapM_eq_some_filterMap {α β : Type*} {f : α → Option β} {l : List α}
    (h : ∀ a ∈ l, (f a).isSome) : l.mapM f = some (l.filterMap f) := by
  induction l with
  | nil => rfl
  | cons a l ih =>
    obtain ⟨b, hb⟩ := Option.isSome_iff_exists.1 (h a (List.mem_cons_self a l))
    rw [List.mapM_cons, hb, ih fun a' ha' => h a' (List.mem_cons_of_mem a ha'),
      List.filterMap_cons_some hb]
    rfl

lemma mapM_congr {α β : Type} {f f' : α → Option β} {l : List α} (h : ∀ a ∈ l, f a = f' a) :
    l.mapM f = l.mapM f' := by
  induction l with
  | nil => rfl
  | cons a l ih =>
    rw [List.mapM_cons, List.mapM_cons, h a (List.mem_cons_self a l),
      ih fun b hb => h b (List.mem_cons_of_mem a hb)]

/-- Relabelling the input of a checked `base::Map` relabels its output, when each call does. -/
lemma mapM_map_comm {α α' β β' : Type} {f : α → Option β} {f' : α' → Option β'} {g : α → α'}
    {h : β → β'} {l : List α} (hfg : ∀ a ∈ l, f' (g a) = (f a).map h) :
    (l.map g).mapM f' = (l.mapM f).map (List.map h) := by
  induction l with
  | nil => rfl
  | cons a l ih =>
    rw [List.map_cons, List.mapM_cons, List.mapM_cons, hfg a (List.mem_cons_self a l),
      ih fun b hb => hfg b (List.mem_cons_of_mem a hb)]
    cases f a <;> cases l.mapM f <;> rfl

lemma isSome_bind_pure {α β : Type} (m : Option α) (f : α → β) :
    (m >>= fun a => pure (f a)).isSome = m.isSome := by
  cases m <;> rfl

lemma isSome_mapM_iff {α β : Type*} {f : α → Option β} {l : List α} :
    (l.mapM f).isSome ↔ ∀ a ∈ l, (f a).isSome := by
  induction l with
  | nil => rw [List.mapM_nil]; simp
  | cons a l ih =>
    simp only [List.mapM_cons, List.mem_cons, forall_eq_or_imp, ← ih]
    cases f a <;> cases l.mapM f <;> simp

end Tachyon.Base
