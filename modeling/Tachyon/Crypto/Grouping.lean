import Tachyon.Crypto.PolynomialOpenings

/-!
# What the opening grouper computes

`GroupByPolyAndPoints` is specified in terms of one relation on the input batch: `OpenedAt L o x`,
some claim of `L` opens the oracle `o` at the point `x`.  Each pass keeps an invariant stated
with it, proved for one loop iteration and then for the whole loop:

* `ByPolyInv`: after a prefix of the claims, pass 1 holds one entry per oracle of the prefix, with
  distinct oracles, each entry holding exactly the points its oracle is opened at;
* `ByPointsInv`: after a prefix of the pass-1 entries, pass 2 holds entries with distinct point
  sets, whose oracle lists are non-empty, together list every processed oracle exactly once,
  and only list oracles whose pass-1 entry has the entry's point set.

Every oracle filed under a point set is therefore opened exactly at the points of that set
(`mem_points_of_mem_groupByPoints`), so every lookup of pass 3 finds a claim and the `CHECK`
of `GetOpeningFromPolyOpenings` never fails.  `groupByPolyAndPoints_empty_eq` packages the
result: on a fresh grouper the run succeeds, and each emitted group `Materializes` one pass-2
entry.  The grouping results themselves are derived from that in the last section.
-/

namespace Tachyon.Crypto

open Base

variable {Oracle Point Field : Type}

/-- Some claim of `L` opens `o` at `x`. -/
def OpenedAt (L : List (PolynomialOpening Oracle Point Field)) (o : Oracle) (x : Point) : Prop :=
  ∃ c ∈ L, c.polyOracle = o ∧ c.point = x

lemma openedAt_append {L L' : List (PolynomialOpening Oracle Point Field)} {o : Oracle} {x : Point} :
    OpenedAt (L ++ L') o x ↔ OpenedAt L o x ∨ OpenedAt L' o x := by
  simp only [OpenedAt, List.mem_append, or_and_right, exists_or]

lemma openedAt_singleton {c : PolynomialOpening Oracle Point Field} {o : Oracle} {x : Point} :
    OpenedAt [c] o x ↔ c.polyOracle = o ∧ c.point = x := by
  simp [OpenedAt]

variable [DecidableEq Oracle] [LinearOrder Point]

/-! ## The lookup of pass 3 -/

lemma getOpeningFromPolyOpenings_eq_some {L : List (PolynomialOpening Oracle Point Field)}
    {o : Oracle} {x : Point} {v : Field} (h : getOpeningFromPolyOpenings L o x = some v) :
    (⟨o, x, v⟩ : PolynomialOpening Oracle Point Field) ∈ L := by
  obtain ⟨c, hc, rfl⟩ := Option.map_eq_some'.1 h
  have hp := List.find?_some hc
  simp only [decide_eq_true_eq] at hp
  obtain ⟨rfl, rfl⟩ := hp
  exact List.mem_of_find?_eq_some hc

lemma isSome_getOpeningFromPolyOpenings {L : List (PolynomialOpening Oracle Point Field)}
    {o : Oracle} {x : Point} : (getOpeningFromPolyOpenings L o x).isSome ↔ OpenedAt L o x := by
  simp [getOpeningFromPolyOpenings, OpenedAt]

/-- On a consistent batch the lookup returns the opening of any claim on the same oracle and
point, not only of the first one. -/
lemma getOpeningFromPolyOpenings_of_consistent {L : List (PolynomialOpening Oracle Point Field)}
    (hL : ∀ c ∈ L, ∀ c' ∈ L, c.polyOracle = c'.polyOracle → c.point = c'.point →
      c.opening = c'.opening) {c : PolynomialOpening Oracle Point Field} (hc : c ∈ L) {v : Field}
    (h : getOpeningFromPolyOpenings L c.polyOracle c.point = some v) : v = c.opening :=
  hL _ (getOpeningFromPolyOpenings_eq_some h) c hc rfl rfl

/-! ## Pass 1 -/

/-- What `GroupByPoly` has built from the claims `done`. -/
structure ByPolyInv (done : List (PolynomialOpening Oracle Point Field))
    (acc : List (PolyOracleGroupedPair Oracle Point)) : Prop where
  nodup : (acc.map (·.polyOracle)).Nodup
  mem_oracles : ∀ o, o ∈ acc.map (·.polyOracle) ↔ ∃ c ∈ done, c.polyOracle = o
  mem_points : ∀ e ∈ acc, ∀ x, x ∈ e.points.elems ↔ OpenedAt done e.polyOracle x

lemma ByPolyInv.step {done : List (PolynomialOpening Oracle Point Field)}
    {acc : List (PolyOracleGroupedPair Oracle Point)} (h : ByPolyInv done acc)
    (s : BTreeSet Point) (c : PolynomialOpening Oracle Point Field) :
    ByPolyInv (done ++ [c]) (groupByPolyStep (s, acc) c).2 where
  nodup := by
    rw [groupByPolyStep_snd]
    exact nodup_map_findOrAppend (by intros; rfl) (by rfl) h.nodup
  mem_oracles o := by
    have key : (∃ d ∈ done ++ [c], d.polyOracle = o) ↔
        (∃ d ∈ done, d.polyOracle = o) ∨ c.polyOracle = o := by
      simp [or_and_right, exists_or]
    rw [groupByPolyStep_snd, map_findOrAppend (by intros; rfl) (by rfl), key, ← h.mem_oracles]
    split_ifs with hin
    · exact ⟨.inl, fun h' => h'.elim id (fun e => e ▸ hin)⟩
    · rw [List.mem_append, List.mem_singleton]
      exact or_congr_right eq_comm
  mem_points e' he' x := by
    rw [openedAt_append, openedAt_singleton]
    rw [groupByPolyStep_snd] at he'
    rcases (mem_findOrAppend h.nodup).1 he' with ⟨he, hk⟩ | ⟨e, he, hk, rfl⟩ | ⟨hk, rfl⟩
    · simp [h.mem_points e' he x, Ne.symm hk]
    · simp only [BTreeSet.mem_insert, h.mem_points e he x, hk, true_and]
      exact or_comm.trans (or_congr_right eq_comm)
    · have : ¬OpenedAt done c.polyOracle x := fun ⟨d, hd, hdo, _⟩ =>
        hk ((h.mem_oracles _).2 ⟨d, hd, hdo⟩)
      simp [this, eq_comm]

lemma ByPolyInv.foldl {done : List (PolynomialOpening Oracle Point Field)}
    {acc : List (PolyOracleGroupedPair Oracle Point)} (h : ByPolyInv done acc)
    (cs : List (PolynomialOpening Oracle Point Field)) (s : BTreeSet Point) :
    ByPolyInv (done ++ cs) (cs.foldl groupByPolyStep (s, acc)).2 := by
  induction cs generalizing done acc s with
  | nil => simpa using h
  | cons c cs ih => simpa using ih (h.step s c) (groupByPolyStep (s, acc) c).1

lemma byPolyInv_groupByPoly (g : PolynomialOpeningGrouper Oracle Point Field)
    (L : List (PolynomialOpening Oracle Point Field)) : ByPolyInv L (groupByPoly g L).2 := by
  simpa using (ByPolyInv.mk (by simp) (by simp) (by simp) : ByPolyInv
    ([] : List (PolynomialOpening Oracle Point Field)) []).foldl L g.superPointSet

lemma mem_superPointSet_foldl (cs : List (PolynomialOpening Oracle Point Field))
    (s : BTreeSet Point) (acc : List (PolyOracleGroupedPair Oracle Point)) (x : Point) :
    x ∈ (cs.foldl groupByPolyStep (s, acc)).1.elems ↔ x ∈ s.elems ∨ ∃ c ∈ cs, c.point = x := by
  induction cs generalizing s acc with
  | nil => simp
  | cons c cs ih =>
    rw [List.foldl_cons, ih]
    simp only [groupByPolyStep, BTreeSet.mem_insert, List.mem_cons, or_and_right, exists_or,
      exists_eq_left]
    rw [@eq_comm _ x c.point, @or_comm (c.point = x), or_assoc]

/-- `super_point_set_` gains exactly the points of the batch. -/
lemma mem_superPointSet_groupByPoly (g : PolynomialOpeningGrouper Oracle Point Field)
    (L : List (PolynomialOpening Oracle Point Field)) (x : Point) :
    x ∈ (groupByPoly g L).1.superPointSet.elems ↔
      x ∈ g.superPointSet.elems ∨ ∃ c ∈ L, c.point = x :=
  mem_superPointSet_foldl L _ _ x

/-! ## Pass 2 -/

/-- What `GroupByPoints` has built from the pass-1 entries `done`. -/
structure ByPointsInv (done : List (PolyOracleGroupedPair Oracle Point))
    (ret : List (PointGroupedPair Oracle Point)) : Prop where
  nodup : (ret.map (·.points)).Nodup
  perm : (ret.flatMap (·.polys)).Perm (done.map (·.polyOracle))
  polys_ne_nil : ∀ q ∈ ret, q.polys ≠ []
  mem_done : ∀ q ∈ ret, ∀ o ∈ q.polys, (⟨o, q.points⟩ : PolyOracleGroupedPair Oracle Point) ∈ done

omit [DecidableEq Oracle] in
lemma ByPointsInv.step {done : List (PolyOracleGroupedPair Oracle Point)}
    {ret : List (PointGroupedPair Oracle Point)} (h : ByPointsInv done ret)
    (p : PolyOracleGroupedPair Oracle Point) :
    ByPointsInv (done ++ [p]) (groupByPointsStep ret p) where
  nodup := nodup_map_findOrAppend (by intros; rfl) (by rfl) h.nodup
  perm := by
    rw [List.map_append, List.map_singleton]
    exact (flatMap_findOrAppend_perm (by intros; rfl) (by rfl) ret).trans (h.perm.append_right _)
  polys_ne_nil q hq := by
    rcases (mem_findOrAppend h.nodup).1 hq with ⟨hq, -⟩ | ⟨q, -, -, rfl⟩ | ⟨-, rfl⟩
    · exact h.polys_ne_nil q hq
    · simp
    · simp
  mem_done q' hq' o ho := by
    rcases (mem_findOrAppend h.nodup).1 hq' with ⟨hq, -⟩ | ⟨q, hq, hk, rfl⟩ | ⟨-, rfl⟩
    · exact List.mem_append_left _ (h.mem_done q' hq o ho)
    · rcases List.mem_append.1 ho with ho | ho
      · exact List.mem_append_left _ (h.mem_done q hq o ho)
      · obtain rfl := List.mem_singleton.1 ho
        simp [hk]
    · obtain rfl := List.mem_singleton.1 ho
      simp

omit [DecidableEq Oracle] in
lemma ByPointsInv.foldl {done : List (PolyOracleGroupedPair Oracle Point)}
    {ret : List (PointGroupedPair Oracle Point)} (h : ByPointsInv done ret)
    (ps : List (PolyOracleGroupedPair Oracle Point)) :
    ByPointsInv (done ++ ps) (ps.foldl groupByPointsStep ret) := by
  induction ps generalizing done ret with
  | nil => simpa using h
  | cons p ps ih => simpa using ih (h.step p)

omit [DecidableEq Oracle] in
lemma byPointsInv_groupByPoints (ps : List (PolyOracleGroupedPair Oracle Point)) :
    ByPointsInv ps (groupByPoints ps) := by
  simpa using (ByPointsInv.mk (by simp) (by simp) (by simp) (by simp) :
    ByPointsInv ([] : List (PolyOracleGroupedPair Oracle Point)) []).foldl ps

/-! ## The passes together -/

section Passes

variable (g : PolynomialOpeningGrouper Oracle Point Field)
  (L : List (PolynomialOpening Oracle Point Field))

/-- An oracle filed under a point set is opened exactly at the points of that set. -/
lemma mem_points_of_mem_groupByPoints {q : PointGroupedPair Oracle Point}
    (hq : q ∈ groupByPoints (groupByPoly g L).2) {o : Oracle} (ho : o ∈ q.polys) (x : Point) :
    x ∈ q.points.elems ↔ OpenedAt L o x :=
  (byPolyInv_groupByPoly g L).mem_points _ ((byPointsInv_groupByPoints _).mem_done q hq o ho) x

lemma nodup_flatMap_groupByPoints :
    ((groupByPoints (groupByPoly g L).2).flatMap (·.polys)).Nodup :=
  (byPointsInv_groupByPoints _).perm.nodup_iff.2 (byPolyInv_groupByPoly g L).nodup

lemma mem_flatMap_groupByPoints (o : Oracle) :
    o ∈ (groupByPoints (groupByPoly g L).2).flatMap (·.polys) ↔ ∃ c ∈ L, c.polyOracle = o :=
  (byPointsInv_groupByPoints _).perm.mem_iff.trans ((byPolyInv_groupByPoly g L).mem_oracles o)

lemma points_ne_nil_of_mem_groupByPoints {q : PointGroupedPair Oracle Point}
    (hq : q ∈ groupByPoints (groupByPoly g L).2) : q.points.elems ≠ [] := by
  obtain ⟨o, ho⟩ := List.exists_mem_of_ne_nil _ ((byPointsInv_groupByPoints _).polys_ne_nil q hq)
  obtain ⟨c, hc, rfl⟩ := (mem_flatMap_groupByPoints g L o).1 (List.mem_flatMap.2 ⟨q, hq, ho⟩)
  exact BTreeSet.ne_nil_of_mem ((mem_points_of_mem_groupByPoints g L hq ho _).2 ⟨c, hc, rfl, rfl⟩)

end Passes

/-! ## Pass 3 -/

/-- `G` is what `CreateMultiPolynomialOpenings` emits for the pass-2 entry `q`: the set's points
in order, the entry's oracles in order, and at each position the opening the lookup finds. -/
structure Materializes (L : List (PolynomialOpening Oracle Point Field))
    (q : PointGroupedPair Oracle Point) (G : GroupedPolynomialOpenings Oracle Point Field) : Prop where
  pointRefs_eq : G.pointRefs = q.points.elems
  polyOracles_eq : G.polyOracles = q.polys
  openings : ∀ po ∈ G.polyOpeningsVec, List.Forall₂
    (fun x v => getOpeningFromPolyOpenings L po.polyOracle x = some v) G.pointRefs po.openings

lemma materializes_of_eq_some {L : List (PolynomialOpening Oracle Point Field)}
    {q : PointGroupedPair Oracle Point} {G : GroupedPolynomialOpenings Oracle Point Field}
    (h : createGroupedPolynomialOpenings L q = some G) : Materializes L q G := by
  obtain ⟨hp, hpo⟩ := createGroupedPolynomialOpenings_eq_some.1 h
  refine ⟨hp, ?_, fun po hpo' => ?_⟩
  · simpa [GroupedPolynomialOpenings.polyOracles] using
      (map_eq_map_of_forall₂ hpo fun o po h => (createPolynomialOpenings_eq_some.1 h).1.symm).symm
  · obtain ⟨o, -, ho⟩ := exists_of_forall₂_right hpo hpo'
    obtain ⟨rfl, h⟩ := createPolynomialOpenings_eq_some.1 ho
    rwa [hp]

lemma isSome_createGroupedPolynomialOpenings {L : List (PolynomialOpening Oracle Point Field)}
    {q : PointGroupedPair Oracle Point} :
    (createGroupedPolynomialOpenings L q).isSome ↔
      ∀ o ∈ q.polys, ∀ x ∈ q.points.elems, OpenedAt L o x := by
  simp only [createGroupedPolynomialOpenings, createPolynomialOpenings, isSome_bind_pure,
    isSome_mapM_iff, isSome_getOpeningFromPolyOpenings]

/-- On a fresh grouper `GroupByPolyAndPoints` succeeds: every group it emits materialises one
pass-2 entry, in order, and `super_point_set_` is what pass 1 collected. -/
lemma groupByPolyAndPoints_empty_eq (L : List (PolynomialOpening Oracle Point Field)) :
    ∃ groups, groupByPolyAndPoints .empty L =
        some ⟨groups, (groupByPoly .empty L).1.superPointSet⟩ ∧
      List.Forall₂ (Materializes L) (groupByPoints (groupByPoly .empty L).2) groups := by
  obtain ⟨groups, hg⟩ := Option.isSome_iff_exists.1 <| isSome_mapM_iff.2 fun q hq =>
    isSome_createGroupedPolynomialOpenings.2 fun o ho x =>
      (mem_points_of_mem_groupByPoints .empty L hq ho x).1
  have hg := mapM_eq_some_iff.1 hg
  exact ⟨groups, groupByPolyAndPoints_eq_some.2 ⟨groups, hg, rfl⟩,
    hg.imp fun _ _ => materializes_of_eq_some⟩

/-! ## The contract of the grouper -/

/-- Any two claims on equal oracles at equal points carry equal openings. -/
def Consistent (L : List (PolynomialOpening Oracle Point Field)) : Prop :=
  ∀ c ∈ L, ∀ c' ∈ L, c.polyOracle = c'.polyOracle → c.point = c'.point → c.opening = c'.opening

instance [DecidableEq Field] (L : List (PolynomialOpening Oracle Point Field)) :
    Decidable (Consistent L) :=
  inferInstanceAs (Decidable (∀ c ∈ L, ∀ c' ∈ L, _))

/-- The shape of an `OpeningGroup` (spec §3) that `LagrangeInterpolate` and
`CreateCombinedLowDegreeExtensions` rely on. -/
structure GroupedPolynomialOpenings.WellFormed (G : GroupedPolynomialOpenings Oracle Point Field) :
    Prop where
  polyOpeningsVec_ne_nil : G.polyOpeningsVec ≠ []
  pointRefs_ne_nil : G.pointRefs ≠ []
  sorted : G.pointRefs.Sorted (· < ·)
  length_openings : ∀ po ∈ G.polyOpeningsVec, po.openings.length = G.pointRefs.length

/-- The grouping contract (spec §4.1, §8.1–§8.4) of a grouper `g` for the batch `L`: each claim
sits in exactly one group, at the position of its point, with its opening; every entry of a
group is a claim; two oracles share a group exactly when they are opened at the same points;
and `super_point_set_` holds the batch's points, which are the groups' points. -/
structure IsGrouping (L : List (PolynomialOpening Oracle Point Field))
    (g : PolynomialOpeningGrouper Oracle Point Field) : Prop where
  existsUnique_group : ∀ c ∈ L, ∃! i : Fin g.groupedPolyOpeningsVec.length,
    c.polyOracle ∈ (g.groupedPolyOpeningsVec.get i).polyOracles
  mem_zip_of_mem : ∀ c ∈ L, ∀ G ∈ g.groupedPolyOpeningsVec, ∀ po ∈ G.polyOpeningsVec,
    po.polyOracle = c.polyOracle → (c.point, c.opening) ∈ G.pointRefs.zip po.openings
  mem_of_mem_zip : ∀ G ∈ g.groupedPolyOpeningsVec, ∀ po ∈ G.polyOpeningsVec,
    ∀ xv ∈ G.pointRefs.zip po.openings,
      (⟨po.polyOracle, xv.1, xv.2⟩ : PolynomialOpening Oracle Point Field) ∈ L
  same_group_iff : ∀ c ∈ L, ∀ c' ∈ L,
    (∃ G ∈ g.groupedPolyOpeningsVec, c.polyOracle ∈ G.polyOracles ∧ c'.polyOracle ∈ G.polyOracles) ↔
      ∀ x, OpenedAt L c.polyOracle x ↔ OpenedAt L c'.polyOracle x
  mem_superPointSet : ∀ x, x ∈ g.superPointSet.elems ↔ ∃ c ∈ L, c.point = x
  mem_superPointSet_iff_mem_group : ∀ x,
    x ∈ g.superPointSet.elems ↔ ∃ G ∈ g.groupedPolyOpeningsVec, x ∈ G.pointRefs

/-! ## The emitted groups -/

section Emitted

variable {L : List (PolynomialOpening Oracle Point Field)}
  {groups : List (GroupedPolynomialOpenings Oracle Point Field)}
  (hmat : List.Forall₂ (Materializes L) (groupByPoints (groupByPoly .empty L).2) groups)
include hmat

lemma flatMap_polyOracles_eq :
    groups.flatMap (·.polyOracles) = (groupByPoints (groupByPoly .empty L).2).flatMap (·.polys) := by
  simp only [List.flatMap_def, map_eq_map_of_forall₂ hmat fun _ _ h => h.polyOracles_eq.symm]

lemma exists_group_of_mem {c : PolynomialOpening Oracle Point Field} (hc : c ∈ L) :
    ∃ G ∈ groups, c.polyOracle ∈ G.polyOracles := by
  have := (mem_flatMap_groupByPoints .empty L c.polyOracle).2 ⟨c, hc, rfl⟩
  rwa [← flatMap_polyOracles_eq hmat, List.mem_flatMap] at this

lemma mem_pointRefs_iff {G : GroupedPolynomialOpenings Oracle Point Field} (hG : G ∈ groups)
    {o : Oracle} (ho : o ∈ G.polyOracles) (x : Point) : x ∈ G.pointRefs ↔ OpenedAt L o x := by
  obtain ⟨q, hq, hm⟩ := exists_of_forall₂_right hmat hG
  rw [hm.pointRefs_eq]
  exact mem_points_of_mem_groupByPoints .empty L hq (hm.polyOracles_eq ▸ ho) x

lemma mem_of_mem_zip {G : GroupedPolynomialOpenings Oracle Point Field} (hG : G ∈ groups)
    {po : PolynomialOpenings Oracle Field} (hpo : po ∈ G.polyOpeningsVec) {xv : Point × Field}
    (hxv : xv ∈ G.pointRefs.zip po.openings) :
    (⟨po.polyOracle, xv.1, xv.2⟩ : PolynomialOpening Oracle Point Field) ∈ L := by
  obtain ⟨q, -, hm⟩ := exists_of_forall₂_right hmat hG
  exact getOpeningFromPolyOpenings_eq_some (List.forall₂_zip (hm.openings po hpo) hxv)

lemma wellFormed_of_mem {G : GroupedPolynomialOpenings Oracle Point Field} (hG : G ∈ groups) :
    G.WellFormed := by
  obtain ⟨q, hq, hm⟩ := exists_of_forall₂_right hmat hG
  refine ⟨fun h => ?_, hm.pointRefs_eq ▸ points_ne_nil_of_mem_groupByPoints .empty L hq,
    hm.pointRefs_eq ▸ q.points.sorted, fun po hpo => (hm.openings po hpo).length_eq.symm⟩
  have := hm.polyOracles_eq
  simp only [GroupedPolynomialOpenings.polyOracles, h, List.map_nil] at this
  exact (byPointsInv_groupByPoints _).polys_ne_nil q hq this.symm

/-- Each claim's oracle sits in exactly one emitted group. -/
lemma existsUnique_group_of_mem {c : PolynomialOpening Oracle Point Field} (hc : c ∈ L) :
    ∃! i : Fin groups.length, c.polyOracle ∈ (groups.get i).polyOracles := by
  have hmem := (mem_flatMap_groupByPoints .empty L c.polyOracle).2 ⟨c, hc, rfl⟩
  rw [← flatMap_polyOracles_eq hmat] at hmem
  exact existsUnique_of_nodup_flatMap
    (flatMap_polyOracles_eq hmat ▸ nodup_flatMap_groupByPoints .empty L) hmem

/-- On a consistent batch, a claim's point and opening are recorded, side by side, in the row of
its oracle. -/
lemma mem_zip_of_consistent (hL : Consistent L) {c : PolynomialOpening Oracle Point Field}
    (hc : c ∈ L) {G : GroupedPolynomialOpenings Oracle Point Field} (hG : G ∈ groups)
    {po : PolynomialOpenings Oracle Field} (hpo : po ∈ G.polyOpeningsVec)
    (ho : po.polyOracle = c.polyOracle) : (c.point, c.opening) ∈ G.pointRefs.zip po.openings := by
  have hx := (mem_pointRefs_iff hmat hG (ho ▸ List.mem_map_of_mem _ hpo) c.point).2
    ⟨c, hc, rfl, rfl⟩
  obtain ⟨q, -, hm⟩ := exists_of_forall₂_right hmat hG
  obtain ⟨v, hv, hzip⟩ := exists_mem_zip_of_forall₂ (hm.openings po hpo) hx
  rw [ho] at hv
  rwa [getOpeningFromPolyOpenings_of_consistent hL hc hv] at hzip

/-- Two claims' oracles share an emitted group exactly when they are opened at the same
points. -/
lemma exists_group_iff_openedAt {c c' : PolynomialOpening Oracle Point Field} (hc : c ∈ L)
    (hc' : c' ∈ L) :
    (∃ G ∈ groups, c.polyOracle ∈ G.polyOracles ∧ c'.polyOracle ∈ G.polyOracles) ↔
      ∀ x, OpenedAt L c.polyOracle x ↔ OpenedAt L c'.polyOracle x := by
  constructor
  · rintro ⟨G, hG, ho, ho'⟩ x
    rw [← mem_pointRefs_iff hmat hG ho, mem_pointRefs_iff hmat hG ho']
  · intro hpts
    obtain ⟨G, hG, ho⟩ := exists_group_of_mem hmat hc
    obtain ⟨q, hq, hm⟩ := exists_of_forall₂_right hmat hG
    obtain ⟨q', hq', ho'⟩ := List.mem_flatMap.1
      ((mem_flatMap_groupByPoints .empty L c'.polyOracle).2 ⟨c', hc', rfl⟩)
    -- both oracles were filed under the same point set, hence in the same group
    have hsame : q'.points = q.points := BTreeSet.eq_of_mem_iff fun x => by
      rw [mem_points_of_mem_groupByPoints .empty L hq' ho', ← hpts,
        ← mem_points_of_mem_groupByPoints .empty L hq (hm.polyOracles_eq ▸ ho)]
    obtain rfl := List.inj_on_of_nodup_map (byPointsInv_groupByPoints _).nodup hq' hq hsame
    exact ⟨G, hG, ho, hm.polyOracles_eq ▸ ho'⟩

/-- The emitted groups' points are the batch's points. -/
lemma exists_mem_pointRefs_iff (x : Point) :
    (∃ G ∈ groups, x ∈ G.pointRefs) ↔ ∃ c ∈ L, c.point = x := by
  constructor
  · rintro ⟨G, hG, hx⟩
    obtain ⟨po, hpo⟩ :=
      List.exists_mem_of_ne_nil _ (wellFormed_of_mem hmat hG).polyOpeningsVec_ne_nil
    obtain ⟨c, hc, -, rfl⟩ :=
      (mem_pointRefs_iff hmat hG (List.mem_map_of_mem (·.polyOracle) hpo) x).1 hx
    exact ⟨c, hc, rfl⟩
  · rintro ⟨c, hc, rfl⟩
    obtain ⟨G, hG, ho⟩ := exists_group_of_mem hmat hc
    exact ⟨G, hG, (mem_pointRefs_iff hmat hG ho _).2 ⟨c, hc, rfl, rfl⟩⟩

end Emitted

/-- **`CHECK` safety and group shape.**  On every batch, consistent or not, `GroupByPolyAndPoints`
on a fresh grouper completes; every group it emits is well formed, no oracle is listed twice
across all groups, and no two groups have the same points. -/
theorem groupByPolyAndPoints_wellFormed (L : List (PolynomialOpening Oracle Point Field)) :
    ∃ g, groupByPolyAndPoints .empty L = some g ∧
      (∀ G ∈ g.groupedPolyOpeningsVec, G.WellFormed) ∧
      (g.groupedPolyOpeningsVec.flatMap (·.polyOracles)).Nodup ∧
      (g.groupedPolyOpeningsVec.map (·.pointRefs)).Nodup := by
  obtain ⟨groups, hrun, hmat⟩ := groupByPolyAndPoints_empty_eq L
  refine ⟨_, hrun, fun G hG => wellFormed_of_mem hmat hG, ?_, ?_⟩
  · exact flatMap_polyOracles_eq hmat ▸ nodup_flatMap_groupByPoints .empty L
  · rw [← map_eq_map_of_forall₂ hmat fun _ _ h => h.pointRefs_eq.symm]
    simpa using ((byPointsInv_groupByPoints _).nodup).map fun _ _ => BTreeSet.ext

/-- **Grouping correctness.**  On a consistent batch, `GroupByPolyAndPoints` on a fresh grouper
completes and meets the grouping contract. -/
theorem groupByPolyAndPoints_isGrouping (L : List (PolynomialOpening Oracle Point Field))
    (hL : Consistent L) : ∃ g, groupByPolyAndPoints .empty L = some g ∧ IsGrouping L g := by
  obtain ⟨groups, hrun, hmat⟩ := groupByPolyAndPoints_empty_eq L
  have hsuper : ∀ x, x ∈ (groupByPoly .empty L).1.superPointSet.elems ↔ ∃ c ∈ L, c.point = x :=
    fun x => by simpa using mem_superPointSet_groupByPoly .empty L x
  exact ⟨_, hrun, fun c hc => existsUnique_group_of_mem hmat hc,
    fun c hc G hG po hpo ho => mem_zip_of_consistent hmat hL hc hG hpo ho,
    fun G hG po hpo xv hxv => mem_of_mem_zip hmat hG hpo hxv,
    fun c hc c' hc' => exists_group_iff_openedAt hmat hc hc', hsuper,
    fun x => (hsuper x).trans (exists_mem_pointRefs_iff hmat x).symm⟩

/-- The grouping contract on a small batch with a repeated claim. -/
theorem groupByPolyAndPoints_isGrouping_repeated :
    Consistent ([⟨0, 1, 7⟩, ⟨1, 1, 8⟩, ⟨0, 2, 9⟩, ⟨0, 1, 7⟩] : List (PolynomialOpening ℕ ℕ ℕ)) ∧
      ∃ g, groupByPolyAndPoints .empty [⟨0, 1, 7⟩, ⟨1, 1, 8⟩, ⟨0, 2, 9⟩, ⟨0, 1, 7⟩] = some g ∧
        IsGrouping [⟨0, 1, 7⟩, ⟨1, 1, 8⟩, ⟨0, 2, 9⟩, ⟨0, 1, 7⟩] g :=
  ⟨by decide, groupByPolyAndPoints_isGrouping _ (by decide)⟩

/-- **Conflicting duplicates are not rejected.**  On every batch `GroupByPolyAndPoints` completes;
every claim's oracle and point are represented, and each recorded opening is the opening of the
first claim of the batch on that oracle and point. -/
theorem groupByPolyAndPoints_records_first_opening (L : List (PolynomialOpening Oracle Point Field)) :
    ∃ g, groupByPolyAndPoints .empty L = some g ∧
      (∀ c ∈ L, ∃ G ∈ g.groupedPolyOpeningsVec, ∃ po ∈ G.polyOpeningsVec,
        po.polyOracle = c.polyOracle ∧ ∃ v, (c.point, v) ∈ G.pointRefs.zip po.openings) ∧
      ∀ G ∈ g.groupedPolyOpeningsVec, ∀ po ∈ G.polyOpeningsVec, ∀ xv ∈ G.pointRefs.zip po.openings,
        (L.find? fun c => c.polyOracle = po.polyOracle ∧ c.point = xv.1).map (·.opening) =
          some xv.2 := by
  obtain ⟨groups, hrun, hmat⟩ := groupByPolyAndPoints_empty_eq L
  refine ⟨_, hrun, fun c hc => ?_, fun G hG po hpo xv hxv => ?_⟩
  · obtain ⟨G, hG, ho⟩ := exists_group_of_mem hmat hc
    obtain ⟨po, hpo, hpoo⟩ := List.mem_map.1 ho
    obtain ⟨v, -, hzip⟩ := exists_mem_zip_of_forall₂
      ((exists_of_forall₂_right hmat hG).choose_spec.2.openings po hpo)
      ((mem_pointRefs_iff hmat hG ho _).2 ⟨c, hc, rfl, rfl⟩)
    exact ⟨G, hG, po, hpo, hpoo, v, hzip⟩
  · obtain ⟨q, -, hm⟩ := exists_of_forall₂_right hmat hG
    exact List.forall₂_zip (hm.openings po hpo) hxv

/-- Two claims on oracle `0` at point `0` with openings `5` and `6`: the batch is accepted, and
the group records `5` where the second claim says `6`. -/
theorem groupByPolyAndPoints_accepts_conflicting_claims :
    ∃ g, groupByPolyAndPoints .empty [⟨0, 0, 5⟩, ⟨0, 0, 6⟩] = some g ∧
      ∃ c ∈ ([⟨0, 0, 5⟩, ⟨0, 0, 6⟩] : List (PolynomialOpening ℕ ℕ ℕ)),
        ∃ G ∈ g.groupedPolyOpeningsVec, ∃ po ∈ G.polyOpeningsVec, po.polyOracle = c.polyOracle ∧
          ∃ xv ∈ G.pointRefs.zip po.openings, xv.1 = c.point ∧ xv.2 ≠ c.opening :=
  ⟨_, rfl, by decide⟩

end Tachyon.Crypto
