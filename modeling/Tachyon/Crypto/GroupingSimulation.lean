import Tachyon.Crypto.Grouping

/-!
# Prover and verifier group alike

`PolynomialOpeningGrouper<Poly, PolyOracle>` runs on the prover with `PolyOracle = Poly` and on
the verifier with `PolyOracle = Commitment`, over the same points and openings.  The verifier
must rebuild the prover's groups in the prover's order, because the power of the challenge `r`
given to an oracle is its position in its group.

The two runs are related by the map `f` from polynomials to commitments.  Relabelling a
batch by `f` (`PolynomialOpening.mapOracle`) relabels every intermediate structure of the three
passes the same way: one iteration of pass 1 commutes with the relabelling as long as `f` does
not merge oracles of the batch (`groupByPolyStep_mapOracle`), pass 2 never reads oracles
(`groupByPoints_mapOracle`), and the lookups of pass 3 find the same claims
(`getOpeningFromPolyOpenings_mapOracle`).  Hence `groupByPolyAndPoints_mapOracle`: the
verifier's grouper is the prover's with every oracle replaced by its image.
-/

namespace Tachyon.Crypto

open Base

variable {Oracle Oracle' Point Field : Type} [LinearOrder Point]

/-! ## Relabelling oracles -/

/-- A claim on `f`'s image of the oracle. -/
def PolynomialOpening.mapOracle (f : Oracle → Oracle') (c : PolynomialOpening Oracle Point Field) :
    PolynomialOpening Oracle' Point Field :=
  ⟨f c.polyOracle, c.point, c.opening⟩

/-- An oracle's openings, filed under `f`'s image of the oracle. -/
def PolynomialOpenings.mapOracle (f : Oracle → Oracle') (po : PolynomialOpenings Oracle Field) :
    PolynomialOpenings Oracle' Field :=
  ⟨f po.polyOracle, po.openings⟩

/-- A group with every oracle relabelled and the points unchanged. -/
def GroupedPolynomialOpenings.mapOracle (f : Oracle → Oracle')
    (G : GroupedPolynomialOpenings Oracle Point Field) : GroupedPolynomialOpenings Oracle' Point Field :=
  ⟨G.polyOpeningsVec.map (·.mapOracle f), G.pointRefs⟩

/-- A grouper with every oracle relabelled and the same `super_point_set_`. -/
def PolynomialOpeningGrouper.mapOracle (f : Oracle → Oracle')
    (g : PolynomialOpeningGrouper Oracle Point Field) : PolynomialOpeningGrouper Oracle' Point Field :=
  ⟨g.groupedPolyOpeningsVec.map (·.mapOracle f), g.superPointSet⟩

/-- A pass-1 entry with its oracle relabelled. -/
def PolyOracleGroupedPair.mapOracle (f : Oracle → Oracle') (p : PolyOracleGroupedPair Oracle Point) :
    PolyOracleGroupedPair Oracle' Point :=
  ⟨f p.polyOracle, p.points⟩

/-- A pass-2 entry with its oracles relabelled. -/
def PointGroupedPair.mapOracle (f : Oracle → Oracle') (q : PointGroupedPair Oracle Point) :
    PointGroupedPair Oracle' Point :=
  ⟨q.points, q.polys.map f⟩

variable [DecidableEq Oracle] [DecidableEq Oracle'] (f : Oracle → Oracle')

/-! ## Pass 1 -/

/-- One iteration of pass 1 commutes with the relabelling when `f` separates the claim's oracle
from the oracles already filed. -/
lemma groupByPolyStep_mapOracle {acc : List (PolyOracleGroupedPair Oracle Point)}
    (s : BTreeSet Point) (c : PolynomialOpening Oracle Point Field)
    (hsep : ∀ e ∈ acc, f e.polyOracle = f c.polyOracle → e.polyOracle = c.polyOracle) :
    groupByPolyStep (s, acc.map (·.mapOracle f)) (c.mapOracle f) =
      ((groupByPolyStep (s, acc) c).1, (groupByPolyStep (s, acc) c).2.map (·.mapOracle f)) := by
  refine Prod.ext rfl ?_
  rw [groupByPolyStep_snd, groupByPolyStep_snd]
  refine (map_findOrAppend_comm (PolyOracleGroupedPair.mapOracle f) ?_ ?_ ?_).symm
  · exact fun e he => ⟨hsep e he, congrArg f⟩
  all_goals intros; rfl

lemma groupByPoly_foldl_mapOracle {L : List (PolynomialOpening Oracle Point Field)}
    (hinj : ∀ c ∈ L, ∀ c' ∈ L, f c.polyOracle = f c'.polyOracle → c.polyOracle = c'.polyOracle)
    (cs done : List (PolynomialOpening Oracle Point Field)) (hL : ∀ c ∈ done ++ cs, c ∈ L)
    {acc : List (PolyOracleGroupedPair Oracle Point)} (h : ByPolyInv done acc) (s : BTreeSet Point) :
    (cs.map (·.mapOracle f)).foldl groupByPolyStep (s, acc.map (·.mapOracle f)) =
      ((cs.foldl groupByPolyStep (s, acc)).1, (cs.foldl groupByPolyStep (s, acc)).2.map (·.mapOracle f)) := by
  induction cs generalizing done acc s with
  | nil => rfl
  | cons c cs ih =>
    have hsep : ∀ e ∈ acc, f e.polyOracle = f c.polyOracle → e.polyOracle = c.polyOracle := by
      intro e he
      obtain ⟨d, hd, hde⟩ := (h.mem_oracles _).1 (List.mem_map_of_mem _ he)
      exact hde ▸ hinj d (hL d (by simp [hd])) c (hL c (by simp))
    rw [List.map_cons, List.foldl_cons, List.foldl_cons, groupByPolyStep_mapOracle f s c hsep]
    exact ih (done ++ [c]) (by simpa using hL) (h.step s c) _

lemma groupByPoly_mapOracle {L : List (PolynomialOpening Oracle Point Field)}
    (hinj : ∀ c ∈ L, ∀ c' ∈ L, f c.polyOracle = f c'.polyOracle → c.polyOracle = c'.polyOracle) :
    groupByPoly .empty (L.map (·.mapOracle f)) =
      (⟨[], (groupByPoly .empty L).1.superPointSet⟩, (groupByPoly .empty L).2.map (·.mapOracle f)) := by
  have := groupByPoly_foldl_mapOracle f hinj L [] (by simp)
    (⟨by simp, by simp, by simp⟩ : ByPolyInv ([] : List (PolynomialOpening Oracle Point Field)) [])
    BTreeSet.empty
  simp only [List.map_nil] at this
  simp only [groupByPoly, PolynomialOpeningGrouper.empty_superPointSet,
    PolynomialOpeningGrouper.empty_groupedPolyOpeningsVec, this]

/-! ## Pass 2 -/

omit [DecidableEq Oracle] [DecidableEq Oracle'] in
/-- Pass 2 files by point set only, so it commutes with any relabelling. -/
lemma groupByPoints_mapOracle (ps : List (PolyOracleGroupedPair Oracle Point)) :
    groupByPoints (ps.map (·.mapOracle f)) = (groupByPoints ps).map (·.mapOracle f) := by
  suffices ∀ ret, (ps.map (·.mapOracle f)).foldl groupByPointsStep (ret.map (·.mapOracle f)) =
      (ps.foldl groupByPointsStep ret).map (·.mapOracle f) from this []
  induction ps with
  | nil => intro; rfl
  | cons p ps ih =>
    intro ret
    rw [List.map_cons, List.foldl_cons, List.foldl_cons, ← ih]
    congr 1
    rw [groupByPointsStep, groupByPointsStep]
    refine (map_findOrAppend_comm (PointGroupedPair.mapOracle f) ?_ ?_ ?_).symm
    · exact fun _ _ => Iff.rfl
    · intros; simp [PointGroupedPair.mapOracle, PolyOracleGroupedPair.mapOracle]
    · rfl

/-! ## Pass 3 -/

section Pass3

variable {L : List (PolynomialOpening Oracle Point Field)}
  (hinj : ∀ c ∈ L, ∀ c' ∈ L, f c.polyOracle = f c'.polyOracle → c.polyOracle = c'.polyOracle)
include hinj

lemma getOpeningFromPolyOpenings_mapOracle {o : Oracle} (ho : ∃ d ∈ L, d.polyOracle = o) (x : Point) :
    getOpeningFromPolyOpenings (L.map (·.mapOracle f)) (f o) x = getOpeningFromPolyOpenings L o x := by
  obtain ⟨d, hd, rfl⟩ := ho
  simp only [getOpeningFromPolyOpenings, List.find?_map, Option.map_map, Function.comp_def,
    PolynomialOpening.mapOracle]
  exact congrArg _ (find?_congr fun c hc =>
    decide_eq_decide.2 (and_congr_left fun _ => ⟨hinj c hc d hd, congrArg f⟩))

lemma createPolynomialOpenings_mapOracle {o : Oracle} (ho : ∃ d ∈ L, d.polyOracle = o)
    (xs : List Point) :
    createPolynomialOpenings (L.map (·.mapOracle f)) xs (f o) =
      (createPolynomialOpenings L xs o).map (·.mapOracle f) := by
  rw [createPolynomialOpenings, createPolynomialOpenings,
    mapM_congr fun x _ => getOpeningFromPolyOpenings_mapOracle f hinj ho x]
  cases xs.mapM (getOpeningFromPolyOpenings L o) <;> rfl

lemma createGroupedPolynomialOpenings_mapOracle {q : PointGroupedPair Oracle Point}
    (hq : ∀ o ∈ q.polys, ∃ d ∈ L, d.polyOracle = o) :
    createGroupedPolynomialOpenings (L.map (·.mapOracle f)) (q.mapOracle f) =
      (createGroupedPolynomialOpenings L q).map (·.mapOracle f) := by
  rw [createGroupedPolynomialOpenings, createGroupedPolynomialOpenings, PointGroupedPair.mapOracle,
    mapM_map_comm fun o ho => createPolynomialOpenings_mapOracle f hinj (hq o ho) _]
  cases q.polys.mapM (createPolynomialOpenings L q.points.elems) <;> rfl

end Pass3

/-- **Prover/verifier agreement.**  If `f` does not merge two oracles of the batch, grouping the
batch relabelled by `f` gives the grouping of the batch, relabelled by `f`: the same number of
groups in the same order, the same point sequences and opening matrices, each oracle's image in
its oracle's place (so at the same power of `r`), and the same `super_point_set_`. -/
theorem groupByPolyAndPoints_mapOracle (L : List (PolynomialOpening Oracle Point Field))
    (hinj : ∀ c ∈ L, ∀ c' ∈ L, f c.polyOracle = f c'.polyOracle → c.polyOracle = c'.polyOracle) :
    groupByPolyAndPoints .empty (L.map (·.mapOracle f)) =
      (groupByPolyAndPoints .empty L).map (·.mapOracle f) := by
  rw [groupByPolyAndPoints, groupByPolyAndPoints, groupByPoly_mapOracle f hinj, groupByPoints_mapOracle,
    createMultiPolynomialOpenings, createMultiPolynomialOpenings, mapM_map_comm fun q hq =>
      createGroupedPolynomialOpenings_mapOracle f hinj fun o ho =>
        (mem_flatMap_groupByPoints .empty L o).1 (List.mem_flatMap.2 ⟨q, hq, ho⟩)]
  cases (groupByPoints (groupByPoly .empty L).2).mapM (createGroupedPolynomialOpenings L) <;> rfl

/-- Prover and verifier agree on a batch whose oracles are relabelled into `ℤ`. -/
theorem groupByPolyAndPoints_mapOracle_cast :
    (∀ c ∈ ([⟨0, 1, 7⟩, ⟨1, 1, 8⟩, ⟨0, 2, 9⟩] : List (PolynomialOpening ℕ ℕ ℕ)),
      ∀ c' ∈ ([⟨0, 1, 7⟩, ⟨1, 1, 8⟩, ⟨0, 2, 9⟩] : List (PolynomialOpening ℕ ℕ ℕ)),
        (c.polyOracle : ℤ) = c'.polyOracle → c.polyOracle = c'.polyOracle) ∧
      groupByPolyAndPoints .empty (([⟨0, 1, 7⟩, ⟨1, 1, 8⟩, ⟨0, 2, 9⟩] :
          List (PolynomialOpening ℕ ℕ ℕ)).map (·.mapOracle (fun n : ℕ => (n : ℤ)))) =
        (groupByPolyAndPoints .empty [⟨0, 1, 7⟩, ⟨1, 1, 8⟩, ⟨0, 2, 9⟩]).map
          (·.mapOracle (fun n : ℕ => (n : ℤ))) :=
  ⟨by decide, groupByPolyAndPoints_mapOracle _ _ (by decide)⟩

end Tachyon.Crypto
