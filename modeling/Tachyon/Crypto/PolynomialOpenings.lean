import Tachyon.Base.Containers

/-!
# Polynomial openings and the opening grouper

The data types and the grouping algorithm of `crypto/commitments/polynomial_openings.h`.

A claim `PolynomialOpening` says that an oracle (a polynomial on the prover side, a
commitment on the verifier side) opens to `opening` at `point`.  `PolynomialOpeningGrouper`
turns a batch of claims into `GroupedPolynomialOpenings`, one per distinct set of points, in
three passes that `GroupByPolyAndPoints` runs in order:

* `groupByPoly` files every claim under its oracle, collecting the oracle's points in a
  `BTreeSet`, and records every point in `super_point_set_`;
* `groupByPoints` files every oracle under its point set;
* `createMultiPolynomialOpenings` materialises each point set and its oracles, looking every
  opening up again in the original batch with `getOpeningFromPolyOpenings`, whose `CHECK`
  makes the whole run fail (`none`) when a lookup misses.

The grouper is generic in the oracle type (`Poly` or `Commitment` in the source) and reads
oracles only through `operator==`, points only through `operator==` and `operator<`.  Both
come from `base::DeepRef`, which compares referents, so oracles and points are values here:
an oracle type with decidable equality and a linearly ordered point type.
-/

namespace Tachyon.Crypto

open Base

/-! ## Claims and groups -/

/-- `PolynomialOpening<Poly, PolyOracle>`: the oracle `Pᵢ` (or `Cᵢ`) opens to `Pᵢ(xᵢ)` at `xᵢ`. -/
structure PolynomialOpening (Oracle Point Field : Type) where
  polyOracle : Oracle
  point : Point
  opening : Field
  deriving DecidableEq, Repr

/-- `PolynomialOpenings<Poly, PolyOracle>`: one oracle with its openings `[Pᵢ(x₀), Pᵢ(x₁), …]`
at the points of its group. -/
structure PolynomialOpenings (Oracle Field : Type) where
  polyOracle : Oracle
  openings : List Field
  deriving DecidableEq, Repr

/-- `GroupedPolynomialOpenings<Poly, PolyOracle>`: oracles opened at a shared list of points. -/
structure GroupedPolynomialOpenings (Oracle Point Field : Type) where
  polyOpeningsVec : List (PolynomialOpenings Oracle Field)
  pointRefs : List Point
  deriving DecidableEq, Repr

/-- The oracles of a group, in the order of `poly_openings_vec`. -/
def GroupedPolynomialOpenings.polyOracles {Oracle Point Field : Type}
    (G : GroupedPolynomialOpenings Oracle Point Field) : List Oracle :=
  G.polyOpeningsVec.map (·.polyOracle)

/-- The grouper's members: `grouped_poly_openings_vec_` and `super_point_set_`. -/
structure PolynomialOpeningGrouper (Oracle Point Field : Type) [LinearOrder Point] where
  groupedPolyOpeningsVec : List (GroupedPolynomialOpenings Oracle Point Field)
  superPointSet : BTreeSet Point

/-- `PolyOracleGroupedPair`: an oracle with the set of points it is opened at. -/
structure PolyOracleGroupedPair (Oracle Point : Type) [LinearOrder Point] where
  polyOracle : Oracle
  points : BTreeSet Point

/-- `PointGroupedPair`: a point set with the oracles opened exactly there. -/
structure PointGroupedPair (Oracle Point : Type) [LinearOrder Point] where
  points : BTreeSet Point
  polys : List Oracle

variable {Oracle Point Field : Type} [LinearOrder Point]

namespace PolynomialOpeningGrouper

/-- A default-constructed grouper. -/
def empty : PolynomialOpeningGrouper Oracle Point Field := ⟨[], .empty⟩

@[simp] lemma empty_groupedPolyOpeningsVec :
    (empty : PolynomialOpeningGrouper Oracle Point Field).groupedPolyOpeningsVec = [] := rfl

@[simp] lemma empty_superPointSet :
    (empty : PolynomialOpeningGrouper Oracle Point Field).superPointSet = .empty := rfl

end PolynomialOpeningGrouper

variable [DecidableEq Oracle]

/-! ## Pass 1: by oracle -/

/-- One iteration of `GroupByPoly`: insert the point into `super_point_set_`, then add it to the
entry of its oracle, or `push_back` a new entry holding just that point. -/
def groupByPolyStep (acc : BTreeSet Point × List (PolyOracleGroupedPair Oracle Point))
    (polyOpening : PolynomialOpening Oracle Point Field) :
    BTreeSet Point × List (PolyOracleGroupedPair Oracle Point) :=
  (acc.1.insert polyOpening.point,
    findOrAppend (·.polyOracle) polyOpening.polyOracle
      (fun pair => { pair with points := pair.points.insert polyOpening.point })
      ⟨polyOpening.polyOracle, BTreeSet.empty.insert polyOpening.point⟩ acc.2)

@[simp] lemma groupByPolyStep_fst (acc : BTreeSet Point × List (PolyOracleGroupedPair Oracle Point))
    (polyOpening : PolynomialOpening Oracle Point Field) :
    (groupByPolyStep acc polyOpening).1 = acc.1.insert polyOpening.point := rfl

lemma groupByPolyStep_snd (acc : BTreeSet Point × List (PolyOracleGroupedPair Oracle Point))
    (polyOpening : PolynomialOpening Oracle Point Field) :
    (groupByPolyStep acc polyOpening).2 = findOrAppend (·.polyOracle) polyOpening.polyOracle
      (fun pair => { pair with points := pair.points.insert polyOpening.point })
      ⟨polyOpening.polyOracle, BTreeSet.empty.insert polyOpening.point⟩ acc.2 := rfl

/-- `GroupByPoly`: the grouper with its updated `super_point_set_`, and the entries by oracle. -/
def groupByPoly (g : PolynomialOpeningGrouper Oracle Point Field)
    (polyOpenings : List (PolynomialOpening Oracle Point Field)) :
    PolynomialOpeningGrouper Oracle Point Field × List (PolyOracleGroupedPair Oracle Point) :=
  let r := polyOpenings.foldl groupByPolyStep (g.superPointSet, [])
  ({ g with superPointSet := r.1 }, r.2)

/-! ## Pass 2: by point set -/

/-- One iteration of `GroupByPoints`: append the oracle to the entry with an equal point set, or
`push_back` a new entry for that set. -/
def groupByPointsStep (ret : List (PointGroupedPair Oracle Point))
    (pair : PolyOracleGroupedPair Oracle Point) : List (PointGroupedPair Oracle Point) :=
  findOrAppend (·.points) pair.points
    (fun q => { q with polys := q.polys ++ [pair.polyOracle] }) ⟨pair.points, [pair.polyOracle]⟩ ret

/-- `GroupByPoints`. -/
def groupByPoints (pairs : List (PolyOracleGroupedPair Oracle Point)) :
    List (PointGroupedPair Oracle Point) :=
  pairs.foldl groupByPointsStep []

/-! ## Pass 3: materialisation -/

/-- `GetOpeningFromPolyOpenings`: the opening of the first claim on `polyOracle` at `point`;
`none` is the failed `CHECK(it != poly_openings.end())`. -/
def getOpeningFromPolyOpenings (polyOpenings : List (PolynomialOpening Oracle Point Field))
    (polyOracle : Oracle) (point : Point) : Option Field :=
  (polyOpenings.find? fun o => o.polyOracle = polyOracle ∧ o.point = point).map (·.opening)

/-- The inner `base::Map` of `CreateMultiPolynomialOpenings`: one oracle's openings at
`points_vec`. -/
def createPolynomialOpenings (polyOpenings : List (PolynomialOpening Oracle Point Field))
    (pointsVec : List Point) (polyOracle : Oracle) : Option (PolynomialOpenings Oracle Field) := do
  let openings ← pointsVec.mapM (getOpeningFromPolyOpenings polyOpenings polyOracle)
  pure ⟨polyOracle, openings⟩

/-- One iteration of `CreateMultiPolynomialOpenings`: `points_vec` is the set in iteration order. -/
def createGroupedPolynomialOpenings (polyOpenings : List (PolynomialOpening Oracle Point Field))
    (q : PointGroupedPair Oracle Point) : Option (GroupedPolynomialOpenings Oracle Point Field) := do
  let polyOpeningsVec ← q.polys.mapM (createPolynomialOpenings polyOpenings q.points.elems)
  pure ⟨polyOpeningsVec, q.points.elems⟩

/-- `CreateMultiPolynomialOpenings`: `push_back` one group per point set. -/
def createMultiPolynomialOpenings (g : PolynomialOpeningGrouper Oracle Point Field)
    (polyOpenings : List (PolynomialOpening Oracle Point Field))
    (pairs : List (PointGroupedPair Oracle Point)) :
    Option (PolynomialOpeningGrouper Oracle Point Field) := do
  let groups ← pairs.mapM (createGroupedPolynomialOpenings polyOpenings)
  pure { g with groupedPolyOpeningsVec := g.groupedPolyOpeningsVec ++ groups }

/-- `GroupByPolyAndPoints`: the three passes in order; `none` when a `CHECK` fails. -/
def groupByPolyAndPoints (g : PolynomialOpeningGrouper Oracle Point Field)
    (polyOpenings : List (PolynomialOpening Oracle Point Field)) :
    Option (PolynomialOpeningGrouper Oracle Point Field) :=
  let r := groupByPoly g polyOpenings
  createMultiPolynomialOpenings r.1 polyOpenings (groupByPoints r.2)

/-! ## Unfolding the passes -/

lemma createPolynomialOpenings_eq_some {polyOpenings : List (PolynomialOpening Oracle Point Field)}
    {pointsVec : List Point} {o : Oracle} {po : PolynomialOpenings Oracle Field} :
    createPolynomialOpenings polyOpenings pointsVec o = some po ↔
      po.polyOracle = o ∧ List.Forall₂ (fun x v => getOpeningFromPolyOpenings polyOpenings o x = some v)
        pointsVec po.openings := by
  rcases po with ⟨o', vs⟩
  simp only [createPolynomialOpenings, Option.bind_eq_bind, Option.bind_eq_some, Option.pure_def,
    Option.some.injEq, PolynomialOpenings.mk.injEq, ← mapM_eq_some_iff]
  constructor
  · rintro ⟨vs', h, rfl, rfl⟩; exact ⟨rfl, h⟩
  · rintro ⟨rfl, h⟩; exact ⟨vs, h, rfl, rfl⟩

lemma createGroupedPolynomialOpenings_eq_some
    {polyOpenings : List (PolynomialOpening Oracle Point Field)} {q : PointGroupedPair Oracle Point}
    {G : GroupedPolynomialOpenings Oracle Point Field} :
    createGroupedPolynomialOpenings polyOpenings q = some G ↔
      G.pointRefs = q.points.elems ∧ List.Forall₂
        (fun o po => createPolynomialOpenings polyOpenings q.points.elems o = some po)
        q.polys G.polyOpeningsVec := by
  rcases G with ⟨pos, xs⟩
  simp only [createGroupedPolynomialOpenings, Option.bind_eq_bind, Option.bind_eq_some,
    Option.pure_def, Option.some.injEq, GroupedPolynomialOpenings.mk.injEq, ← mapM_eq_some_iff]
  constructor
  · rintro ⟨pos', h, rfl, rfl⟩; exact ⟨rfl, h⟩
  · rintro ⟨rfl, h⟩; exact ⟨pos, h, rfl, rfl⟩

lemma groupByPolyAndPoints_eq_some {g g' : PolynomialOpeningGrouper Oracle Point Field}
    {polyOpenings : List (PolynomialOpening Oracle Point Field)} :
    groupByPolyAndPoints g polyOpenings = some g' ↔
      ∃ groups, List.Forall₂ (fun q G => createGroupedPolynomialOpenings polyOpenings q = some G)
          (groupByPoints (groupByPoly g polyOpenings).2) groups ∧
        g' = ⟨g.groupedPolyOpeningsVec ++ groups, (groupByPoly g polyOpenings).1.superPointSet⟩ := by
  simp only [groupByPolyAndPoints, createMultiPolynomialOpenings, Option.bind_eq_bind,
    Option.bind_eq_some, Option.pure_def, Option.some.injEq, ← mapM_eq_some_iff]
  constructor
  · rintro ⟨groups, h, rfl⟩; exact ⟨groups, h, rfl⟩
  · rintro ⟨groups, h, rfl⟩; exact ⟨groups, h, rfl⟩

end Tachyon.Crypto
