import Tachyon.Crypto.Grouping

/-!
# The grouper's output, order included

`Grouping` says what each emitted group holds.  This file also fixes the order in which the
groups, and the oracles inside each group, are emitted.  The order matters: the power of the
challenge `r` that an oracle receives is its position, and the verifier has to rebuild it.

The statement is a declarative `Grouping.grouping`:

* the batch's oracles in the order of their first claims (`Grouping.oracles`), each with the set
  of points it is opened at (`Grouping.pointsOf`);
* the distinct point sets, in the order of the first oracle opened at each
  (`Grouping.pointSets`);
* for each set, the oracles opened exactly there, in order, each with the opening of its first
  claim at every point of the set (`Grouping.groupAt`).

Each pass has a closed form, proved by induction on the input with the last element peeled off,
the way the loops push back.  `groupByPoly_snd_eq` and `groupByPoints_eq` rest on
`findOrAppend_map`: on entries built from distinct keys, the loop body rewrites the entry of its
key or appends a fresh one.

From any prior grouper state, `GroupByPolyAndPoints` appends `grouping L` to the groups it
already holds and adds the batch's points to `super_point_set_`
(`groupByPolyAndPoints_eq_append_grouping`).  It never clears either member.  So a grouper that
serves several batches holds every batch's groups one after another, unmerged.
-/

namespace Tachyon.Crypto

open Base

variable {Oracle Point Field : Type} [LinearOrder Point] [DecidableEq Oracle]

namespace Grouping

/-! ## The declarative grouping -/

/-- The oracles of `L`, in the order of their first claims. -/
def oracles (L : List (PolynomialOpening Oracle Point Field)) : List Oracle :=
  firstOccurrences (L.map (·.polyOracle))

/-- The points `L` opens `o` at. -/
def pointsOf (L : List (PolynomialOpening Oracle Point Field)) (o : Oracle) : BTreeSet Point :=
  .ofList ((L.filter (·.polyOracle = o)).map (·.point))

/-- The distinct point sets of the oracles of `L`, in the order of the first oracle opened at
each. -/
def pointSets (L : List (PolynomialOpening Oracle Point Field)) : List (BTreeSet Point) :=
  firstOccurrences ((oracles L).map (pointsOf L))

/-- The group of the point set `S`: the oracles opened exactly at `S`, in the order of their
first claims, each with the opening of its first claim at every point of `S`. -/
def groupAt (L : List (PolynomialOpening Oracle Point Field)) (S : BTreeSet Point) :
    GroupedPolynomialOpenings Oracle Point Field :=
  ⟨((oracles L).filter (pointsOf L · = S)).map fun o =>
    ⟨o, S.elems.filterMap (getOpeningFromPolyOpenings L o)⟩, S.elems⟩

/-- The groups of `L`, one per distinct point set. -/
def grouping (L : List (PolynomialOpening Oracle Point Field)) :
    List (GroupedPolynomialOpenings Oracle Point Field) :=
  (pointSets L).map (groupAt L)

lemma mem_pointsOf {L : List (PolynomialOpening Oracle Point Field)} {o : Oracle} {x : Point} :
    x ∈ (pointsOf L o).elems ↔ OpenedAt L o x := by
  simp [pointsOf, OpenedAt, and_assoc]

lemma pointsOf_append_singleton (L : List (PolynomialOpening Oracle Point Field))
    (c : PolynomialOpening Oracle Point Field) (o : Oracle) :
    pointsOf (L ++ [c]) o =
      if c.polyOracle = o then (pointsOf L o).insert c.point else pointsOf L o := by
  by_cases h : c.polyOracle = o <;>
    simp [pointsOf, List.filter_append, h, BTreeSet.ofList_append_singleton]

lemma pointsOf_eq_empty {L : List (PolynomialOpening Oracle Point Field)} {o : Oracle}
    (h : o ∉ L.map (·.polyOracle)) : pointsOf L o = .empty :=
  BTreeSet.eq_of_mem_iff fun x => by
    simp only [mem_pointsOf, BTreeSet.elems_empty, List.not_mem_nil, iff_false]
    rintro ⟨c, hc, rfl, -⟩
    exact h (List.mem_map_of_mem _ hc)

end Grouping

open Grouping

/-! ## The passes in closed form -/

/-- Pass 1 lists the oracles in the order of their first claims, each with its points. -/
lemma groupByPoly_snd_eq (g : PolynomialOpeningGrouper Oracle Point Field)
    (L : List (PolynomialOpening Oracle Point Field)) :
    (groupByPoly g L).2 = (oracles L).map fun o => ⟨o, pointsOf L o⟩ := by
  suffices h : ∀ s, (L.foldl groupByPolyStep (s, [])).2 =
      (oracles L).map fun o => ⟨o, pointsOf L o⟩ from h _
  induction L using List.reverseRecOn with
  | nil => intro s; rfl
  | append_singleton L c ih =>
    intro s
    have hnd : (oracles L).Nodup := nodup_firstOccurrences _
    rw [List.foldl_append, List.foldl_cons, List.foldl_nil, groupByPolyStep_snd, ih,
      findOrAppend_map (fun _ => rfl) hnd]
    simp only [oracles, List.map_append, List.map_singleton, firstOccurrences_append_singleton,
      mem_firstOccurrences]
    split_ifs with hc
    · -- an oracle met before: its entry gains the point
      refine List.map_congr_left fun o _ => ?_
      rw [pointsOf_append_singleton]
      by_cases ho : o = c.polyOracle
      · subst ho; simp
      · simp [ho, Ne.symm ho]
    · -- a new oracle: a fresh entry at the end, the others unchanged
      rw [List.map_append, List.map_singleton, pointsOf_append_singleton, if_pos rfl,
        pointsOf_eq_empty hc]
      congr 1
      refine List.map_congr_left fun o ho => ?_
      have hne : c.polyOracle ≠ o := fun h => hc (h ▸ mem_firstOccurrences.1 ho)
      rw [pointsOf_append_singleton, if_neg hne]

omit [DecidableEq Oracle] in
lemma groupByPoints_append_singleton (ps : List (PolyOracleGroupedPair Oracle Point))
    (p : PolyOracleGroupedPair Oracle Point) :
    groupByPoints (ps ++ [p]) = groupByPointsStep (groupByPoints ps) p := by
  simp [groupByPoints]

omit [DecidableEq Oracle] in
/-- Pass 2 lists the distinct point sets in the order of their first entries, each with the
oracles of the entries that have it, in order. -/
lemma groupByPoints_eq (ps : List (PolyOracleGroupedPair Oracle Point)) :
    groupByPoints ps = (firstOccurrences (ps.map (·.points))).map fun S =>
      ⟨S, (ps.filter (·.points = S)).map (·.polyOracle)⟩ := by
  induction ps using List.reverseRecOn with
  | nil => rfl
  | append_singleton ps p ih =>
    rw [groupByPoints_append_singleton, ih, groupByPointsStep,
      findOrAppend_map (fun _ => rfl) (nodup_firstOccurrences _)]
    simp only [List.map_append, List.map_singleton, firstOccurrences_append_singleton,
      mem_firstOccurrences, List.filter_append]
    split_ifs with hp
    · -- a point set met before: its entry gains the oracle
      refine List.map_congr_left fun S _ => ?_
      by_cases hS : S = p.points
      · subst hS; simp
      · simp [hS, Ne.symm hS]
    · -- a new point set: a fresh entry at the end, the others unchanged
      have hnone : ps.filter (·.points = p.points) = [] :=
        List.filter_eq_nil_iff.2 fun q hq h => hp (List.mem_map.2 ⟨q, hq, of_decide_eq_true h⟩)
      rw [List.map_append, List.map_singleton, hnone]
      congr 1
      · refine List.map_congr_left fun S hS => ?_
        have hne : p.points ≠ S := fun h => hp (h ▸ mem_firstOccurrences.1 hS)
        simp [hne]
      · simp

/-- Pass 3 materialises the entry of a point set `S` as `groupAt`: every oracle listed there is
opened at every point of `S`, so each lookup finds a claim. -/
lemma createGroupedPolynomialOpenings_eq_groupAt (L : List (PolynomialOpening Oracle Point Field))
    (S : BTreeSet Point) :
    createGroupedPolynomialOpenings L ⟨S, (oracles L).filter (pointsOf L · = S)⟩ =
      some (groupAt L S) := by
  have hpolys : ∀ o ∈ (oracles L).filter (pointsOf L · = S),
      createPolynomialOpenings L S.elems o =
        some ⟨o, S.elems.filterMap (getOpeningFromPolyOpenings L o)⟩ := fun o ho => by
    obtain rfl : pointsOf L o = S := by simpa using (List.mem_filter.1 ho).2
    rw [createPolynomialOpenings, mapM_eq_some_filterMap fun x hx =>
      isSome_getOpeningFromPolyOpenings.2 (mem_pointsOf.1 hx)]
    rfl
  rw [createGroupedPolynomialOpenings, mapM_eq_some_map hpolys]
  rfl

/-- **The grouper refines the declarative grouping.**  From any prior state, one call appends
`grouping L` to the groups the grouper holds and adds the batch's points to
`super_point_set_`. -/
lemma groupByPolyAndPoints_eq_append_grouping (g : PolynomialOpeningGrouper Oracle Point Field)
    (L : List (PolynomialOpening Oracle Point Field)) :
    groupByPolyAndPoints g L = some ⟨g.groupedPolyOpeningsVec ++ grouping L,
      .ofList (g.superPointSet.elems ++ L.map (·.point))⟩ := by
  -- pass 2 files the oracles of each point set under it, in order
  have hpass2 : groupByPoints (groupByPoly g L).2 =
      (pointSets L).map fun S => ⟨S, (oracles L).filter (pointsOf L · = S)⟩ := by
    rw [groupByPoly_snd_eq, groupByPoints_eq, List.map_map]
    refine List.map_congr_left fun S _ => ?_
    simp [List.filter_map, Function.comp_def]
  have hsuper : (groupByPoly g L).1.superPointSet =
      .ofList (g.superPointSet.elems ++ L.map (·.point)) :=
    BTreeSet.eq_of_mem_iff fun x => by simp [mem_superPointSet_groupByPoly]
  have hgroups : ((pointSets L).map fun S =>
      (⟨S, (oracles L).filter (pointsOf L · = S)⟩ : PointGroupedPair Oracle Point)).mapM
        (createGroupedPolynomialOpenings L) = some (grouping L) := by
    rw [@mapM_eq_some_map _ _ _ fun q => groupAt L q.points, List.map_map]
    · rfl
    · intro q hq
      obtain ⟨S, -, rfl⟩ := List.mem_map.1 hq
      exact createGroupedPolynomialOpenings_eq_groupAt L S
  rw [groupByPolyAndPoints, createMultiPolynomialOpenings, hpass2, hgroups, hsuper]
  rfl

/-- **Emission order.**  On a fresh grouper, `GroupByPolyAndPoints` emits exactly `grouping L`:
one group per distinct point set, in the order of the first oracle opened at each set; in each
group the oracles opened exactly there, in the order of their first claims, each with the opening
of its first claim at every point of the set.  `super_point_set_` holds the batch's points. -/
theorem groupByPolyAndPoints_empty_eq_grouping (L : List (PolynomialOpening Oracle Point Field)) :
    groupByPolyAndPoints .empty L = some ⟨grouping L, .ofList (L.map (·.point))⟩ := by
  simpa using groupByPolyAndPoints_eq_append_grouping .empty L

/-- Oracle `0` is opened at `{1, 2}`, oracles `1` and `3` at `{2}`, oracle `2` at `{1}`. -/
example : (grouping ([⟨0, 1, 7⟩, ⟨1, 2, 8⟩, ⟨2, 1, 9⟩, ⟨0, 2, 5⟩, ⟨3, 2, 6⟩] :
    List (PolynomialOpening ℕ ℕ ℕ))).map (fun G => (G.polyOracles, G.pointRefs)) =
      [([0], [1, 2]), ([1, 3], [2]), ([2], [1])] := by
  decide

/-- **The grouper only accumulates.**  Run on a sequence of batches from any state, the grouper
holds its former groups followed by the `grouping` of each batch in turn, and
`super_point_set_` holds every batch's points: no call clears, merges or reorders what an earlier
call emitted. -/
theorem groupByPolyAndPoints_foldlM (g : PolynomialOpeningGrouper Oracle Point Field)
    (Ls : List (List (PolynomialOpening Oracle Point Field))) :
    Ls.foldlM groupByPolyAndPoints g = some ⟨g.groupedPolyOpeningsVec ++ Ls.flatMap grouping,
      .ofList (g.superPointSet.elems ++ Ls.flatMap fun L => L.map (·.point))⟩ := by
  induction Ls generalizing g with
  | nil =>
    obtain ⟨groups, S⟩ := g
    simp only [List.foldlM_nil, List.flatMap_nil, List.append_nil]
    exact congrArg _ (congrArg _ (BTreeSet.eq_of_mem_iff fun x => by simp).symm)
  | cons L Ls ih =>
    rw [List.foldlM_cons, groupByPolyAndPoints_eq_append_grouping, Option.bind_eq_bind,
      Option.some_bind, ih, List.flatMap_cons, List.flatMap_cons, List.append_assoc]
    exact congrArg _ (congrArg _ (BTreeSet.eq_of_mem_iff fun x => by simp [or_assoc]))

/-! ## Repeated claims -/

lemma getOpeningFromPolyOpenings_append_of_openedAt
    {L L' : List (PolynomialOpening Oracle Point Field)} {o : Oracle} {x : Point}
    (hx : OpenedAt L o x) :
    getOpeningFromPolyOpenings (L ++ L') o x = getOpeningFromPolyOpenings L o x := by
  obtain ⟨c, hc, rfl, rfl⟩ := hx
  rw [getOpeningFromPolyOpenings, getOpeningFromPolyOpenings, List.find?_append,
    Option.or_of_isSome]
  exact List.find?_isSome.2 ⟨c, hc, by simp⟩

section Repeated

variable {L L' : List (PolynomialOpening Oracle Point Field)}
  (h : ∀ c ∈ L', OpenedAt L c.polyOracle c.point)
include h

omit [LinearOrder Point] [DecidableEq Oracle] in
lemma openedAt_append_of_openedAt (o : Oracle) (x : Point) :
    OpenedAt (L ++ L') o x ↔ OpenedAt L o x := by
  rw [openedAt_append]
  refine ⟨fun h' => h'.elim id ?_, .inl⟩
  rintro ⟨c, hc, rfl, rfl⟩
  exact h c hc

lemma grouping_append_of_openedAt : grouping (L ++ L') = grouping L := by
  have horacles : oracles (L ++ L') = oracles L := by
    rw [oracles, List.map_append, firstOccurrences_append_of_subset fun o ho => ?_]
    · rfl
    obtain ⟨c, hc, rfl⟩ := List.mem_map.1 ho
    obtain ⟨d, hd, hdo, -⟩ := h c hc
    exact List.mem_map.2 ⟨d, hd, hdo⟩
  have hpoints : pointsOf (L ++ L') = pointsOf L := funext fun o =>
    BTreeSet.eq_of_mem_iff fun x => by rw [mem_pointsOf, mem_pointsOf, openedAt_append_of_openedAt h]
  rw [grouping, grouping, pointSets, pointSets, horacles, hpoints]
  refine List.map_congr_left fun S _ => ?_
  rw [groupAt, groupAt, horacles, hpoints]
  refine congrArg (GroupedPolynomialOpenings.mk · _) (List.map_congr_left fun o ho => ?_)
  obtain rfl : pointsOf L o = S := by simpa using (List.mem_filter.1 ho).2
  exact congrArg _ (List.filterMap_congr fun x hx =>
    getOpeningFromPolyOpenings_append_of_openedAt (mem_pointsOf.1 hx))

end Repeated

/-- **Repeated claims change nothing.**  From any grouper state, appending claims whose oracle is
already opened at their point in the batch gives the same result.  That holds whatever openings
the appended claims carry: the groups record the first claims' openings, and the appended
claims add no oracle and no point. -/
theorem groupByPolyAndPoints_append_repeated (g : PolynomialOpeningGrouper Oracle Point Field)
    (L L' : List (PolynomialOpening Oracle Point Field))
    (h : ∀ c ∈ L', OpenedAt L c.polyOracle c.point) :
    groupByPolyAndPoints g (L ++ L') = groupByPolyAndPoints g L := by
  rw [groupByPolyAndPoints_eq_append_grouping, groupByPolyAndPoints_eq_append_grouping,
    grouping_append_of_openedAt h]
  refine congrArg _ (congrArg _ (BTreeSet.eq_of_mem_iff fun x => ?_))
  simp only [BTreeSet.mem_ofList, List.mem_append, List.mem_map]
  refine or_congr_right ⟨?_, fun ⟨c, hc, hx⟩ => ⟨c, .inl hc, hx⟩⟩
  rintro ⟨c, hc | hc, rfl⟩
  · exact ⟨c, hc, rfl⟩
  · obtain ⟨d, hd, -, hdx⟩ := h c hc
    exact ⟨d, hd, hdx⟩

/-- The claim that oracle `0` opens to `8` at `1`, appended after the claim that it opens to `7`
there, is ignored. -/
theorem groupByPolyAndPoints_append_repeated_conflicting :
    (∀ c ∈ ([⟨0, 1, 8⟩] : List (PolynomialOpening ℕ ℕ ℕ)),
      OpenedAt ([⟨0, 1, 7⟩] : List (PolynomialOpening ℕ ℕ ℕ)) c.polyOracle c.point) ∧
    groupByPolyAndPoints .empty ([⟨0, 1, 7⟩] ++ [⟨0, 1, 8⟩] : List (PolynomialOpening ℕ ℕ ℕ)) =
      groupByPolyAndPoints .empty [⟨0, 1, 7⟩] := by
  have h : ∀ c ∈ ([⟨0, 1, 8⟩] : List (PolynomialOpening ℕ ℕ ℕ)),
      OpenedAt ([⟨0, 1, 7⟩] : List (PolynomialOpening ℕ ℕ ℕ)) c.polyOracle c.point := by
    intro c hc
    obtain rfl := List.mem_singleton.1 hc
    exact ⟨_, .head _, rfl, rfl⟩
  exact ⟨h, groupByPolyAndPoints_append_repeated .empty _ _ h⟩

end Tachyon.Crypto
