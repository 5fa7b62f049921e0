import Mathlib

/-!
# Dense univariate polynomials

The prover side of the grouper works on `UnivariateDensePolynomial`, the `Poly` of
`polynomial_openings.h`, which the sources do not include: the spec lists it among the external
"PolyOps" (ring operations, evaluation, construction from roots, division).  This file models
the operations `CombineLowDegreeExtensions` calls, on the list of coefficients from the constant
term up, so that they compute.

`toPolynomial` reads a `DensePoly` as a Mathlib polynomial, and each operation has one lemma
saying what it is there.  Division gets the most work: `divModAux` is schoolbook long division,
highest coefficient first, and `toPolynomial_div` identifies its quotient with `/ₘ` whenever
the divisor is monic.
-/

namespace Tachyon.Math

open Polynomial

/-- Modelled from the spec: `UnivariateDensePolynomial<F>`, by its coefficients from the
constant term up. -/
structure DensePoly (F : Type) where
  coeffs : List F
  deriving DecidableEq, Repr

namespace DensePoly

variable {F : Type}

/-! ## Coefficient lists -/

section Ring
variable [CommRing F]

/-- Coefficient-wise sum, the shorter list read with zeros. -/
def addCoeffs : List F → List F → List F
  | [], q => q
  | p, [] => p
  | a :: p, b :: q => (a + b) :: addCoeffs p q

/-- Coefficient-wise difference, the shorter list read with zeros. -/
def subCoeffs : List F → List F → List F
  | [], q => q.map (- ·)
  | p, [] => p
  | a :: p, b :: q => (a - b) :: subCoeffs p q

/-- The polynomial `Σ lᵢ Xⁱ`, in Horner form. -/
noncomputable def ofCoeffs : List F → F[X]
  | [] => 0
  | a :: l => C a + X * ofCoeffs l

@[simp] lemma ofCoeffs_nil : ofCoeffs ([] : List F) = 0 := rfl

@[simp] lemma ofCoeffs_cons (a : F) (l : List F) : ofCoeffs (a :: l) = C a + X * ofCoeffs l := rfl

lemma ofCoeffs_addCoeffs : ∀ p q : List F, ofCoeffs (addCoeffs p q) = ofCoeffs p + ofCoeffs q
  | [], q => by simp [addCoeffs]
  | _ :: _, [] => by simp [addCoeffs]
  | a :: p, b :: q => by
    rw [addCoeffs, ofCoeffs_cons, ofCoeffs_cons, ofCoeffs_cons, ofCoeffs_addCoeffs p q, C_add,
      mul_add, add_add_add_comm]

lemma ofCoeffs_map_mul (r : F) : ∀ l : List F, ofCoeffs (l.map (r * ·)) = C r * ofCoeffs l
  | [] => by simp
  | a :: l => by
    rw [List.map_cons, ofCoeffs_cons, ofCoeffs_cons, ofCoeffs_map_mul r l, C_mul, mul_add,
      mul_left_comm]

lemma ofCoeffs_map_neg : ∀ l : List F, ofCoeffs (l.map (- ·)) = - ofCoeffs l
  | [] => by simp
  | a :: l => by
    rw [List.map_cons, ofCoeffs_cons, ofCoeffs_cons, ofCoeffs_map_neg l, C_neg, mul_neg, neg_add]

lemma ofCoeffs_subCoeffs : ∀ p q : List F, ofCoeffs (subCoeffs p q) = ofCoeffs p - ofCoeffs q
  | [], q => by rw [subCoeffs, ofCoeffs_map_neg, ofCoeffs_nil, zero_sub]
  | _ :: _, [] => by simp [subCoeffs]
  | a :: p, b :: q => by
    rw [subCoeffs, ofCoeffs_cons, ofCoeffs_cons, ofCoeffs_cons, ofCoeffs_subCoeffs p q, C_sub,
      mul_sub, add_sub_add_comm]

lemma ofCoeffs_append_zero : ∀ l : List F, ofCoeffs (l ++ [0]) = ofCoeffs l
  | [] => by simp
  | a :: l => by simp [ofCoeffs_append_zero l]

/-- Dropping a top coefficient that is zero. -/
lemma ofCoeffs_dropLast {l : List F} (h : l.getD (l.length - 1) 0 = 0) :
    ofCoeffs l.dropLast = ofCoeffs l := by
  rcases eq_or_ne l [] with rfl | hl
  · rfl
  conv_rhs => rw [← List.dropLast_concat_getLast hl]
  rw [List.getLast_eq_getElem, ← List.getD_eq_getElem _ 0, h, ofCoeffs_append_zero]

/-- The `i`-th coefficient is the `i`-th entry, zero past the end. -/
lemma coeff_ofCoeffs : ∀ (l : List F) (i : ℕ), (ofCoeffs l).coeff i = l.getD i 0
  | [], _ => by simp
  | a :: l, 0 => by rw [ofCoeffs_cons, coeff_add, coeff_C_zero, coeff_X_mul_zero, add_zero]; rfl
  | a :: l, i + 1 => by
    rw [ofCoeffs_cons, coeff_add, coeff_C_succ, zero_add, coeff_X_mul, coeff_ofCoeffs l i]; rfl

lemma degree_ofCoeffs_lt (l : List F) : (ofCoeffs l).degree < l.length := by
  refine (degree_lt_iff_coeff_zero _ _).2 fun i hi => ?_
  rw [coeff_ofCoeffs, List.getD_eq_getElem?_getD, List.getElem?_eq_none (by omega)]
  rfl

/-- A coefficient list with a nonzero entry is a nonzero polynomial. -/
lemma ofCoeffs_ne_zero_of_mem {l : List F} {a : F} (ha : a ∈ l) (h0 : a ≠ 0) :
    ofCoeffs l ≠ 0 := by
  obtain ⟨i, hi, rfl⟩ := List.getElem_of_mem ha
  intro h
  have := coeff_ofCoeffs l i
  rw [h, coeff_zero, List.getD_eq_getElem?_getD, List.getElem?_eq_getElem hi] at this
  exact h0 this.symm

lemma length_addCoeffs : ∀ p q : List F, (addCoeffs p q).length = max p.length q.length
  | [], q => by simp [addCoeffs]
  | _ :: _, [] => by simp [addCoeffs]
  | a :: p, b :: q => by
    rw [addCoeffs, List.length_cons, List.length_cons, List.length_cons, length_addCoeffs p q]
    omega

lemma length_subCoeffs : ∀ p q : List F, (subCoeffs p q).length = max p.length q.length
  | [], q => by simp [subCoeffs]
  | _ :: _, [] => by simp [subCoeffs]
  | a :: p, b :: q => by
    rw [subCoeffs, List.length_cons, List.length_cons, List.length_cons, length_subCoeffs p q]
    omega

lemma getD_subCoeffs : ∀ (p q : List F) (i : ℕ),
    (subCoeffs p q).getD i 0 = p.getD i 0 - q.getD i 0
  | [], q, i => by
    simp only [subCoeffs, List.getD_eq_getElem?_getD, List.getElem?_map]
    cases q[i]? <;> simp
  | _ :: _, [], _ => by simp [subCoeffs]
  | a :: p, b :: q, 0 => rfl
  | a :: p, b :: q, i + 1 => getD_subCoeffs p q i

end Ring

/-! ## The operations -/

section Ring
variable [CommRing F]

instance : Zero (DensePoly F) := ⟨⟨[]⟩⟩
instance : One (DensePoly F) := ⟨⟨[1]⟩⟩
instance : Add (DensePoly F) := ⟨fun p q => ⟨addCoeffs p.coeffs q.coeffs⟩⟩
instance : Sub (DensePoly F) := ⟨fun p q => ⟨subCoeffs p.coeffs q.coeffs⟩⟩
instance : SMul F (DensePoly F) := ⟨fun r p => ⟨p.coeffs.map (r * ·)⟩⟩

/-- The Mathlib polynomial a `DensePoly` stands for. -/
noncomputable def toPolynomial (p : DensePoly F) : F[X] := ofCoeffs p.coeffs

lemma toPolynomial_def (p : DensePoly F) : toPolynomial p = ofCoeffs p.coeffs := rfl

/-- `Evaluate(x)`, by Horner's rule. -/
def evaluate (p : DensePoly F) (x : F) : F := p.coeffs.foldr (fun a acc => a + x * acc) 0

/-- `(X - x) · p`: shift up, then subtract `x · p`. -/
def mulXSubC (x : F) (p : DensePoly F) : DensePoly F :=
  ⟨subCoeffs (0 :: p.coeffs) (p.coeffs.map (x * ·))⟩

/-- `FromRoots(roots)`: `Π (X - xⱼ)`. -/
def fromRoots (roots : List F) : DensePoly F := roots.foldr mulXSubC 1

/-- `LinearizeInPlace(polys, r)`: `polys[0] + r · polys[1] + r² · polys[2] + …`, in the Horner
form `n₀ + r(n₁ + r(n₂ + …))` the spec allows. -/
def linearizeInPlace (polys : List (DensePoly F)) (r : F) : DensePoly F :=
  polys.foldr (fun p acc => p + r • acc) 0

@[simp] lemma toPolynomial_zero : toPolynomial (0 : DensePoly F) = 0 := rfl

@[simp] lemma toPolynomial_one : toPolynomial (1 : DensePoly F) = 1 := by
  show ofCoeffs [1] = 1
  simp

@[simp] lemma toPolynomial_add (p q : DensePoly F) :
    toPolynomial (p + q) = toPolynomial p + toPolynomial q :=
  ofCoeffs_addCoeffs _ _

@[simp] lemma toPolynomial_sub (p q : DensePoly F) :
    toPolynomial (p - q) = toPolynomial p - toPolynomial q :=
  ofCoeffs_subCoeffs _ _

@[simp] lemma toPolynomial_smul (r : F) (p : DensePoly F) :
    toPolynomial (r • p) = C r * toPolynomial p :=
  ofCoeffs_map_mul _ _

lemma evaluate_eq (p : DensePoly F) (x : F) : p.evaluate x = (toPolynomial p).eval x := by
  obtain ⟨l⟩ := p
  induction l with
  | nil => simp [evaluate, toPolynomial]
  | cons a l ih => simp [evaluate, toPolynomial] at ih ⊢; rw [ih]

@[simp] lemma evaluate_zero (x : F) : (0 : DensePoly F).evaluate x = 0 := rfl

@[simp] lemma evaluate_add (p q : DensePoly F) (x : F) :
    (p + q).evaluate x = p.evaluate x + q.evaluate x := by
  simp [evaluate_eq]

@[simp] lemma evaluate_smul (r : F) (p : DensePoly F) (x : F) :
    (r • p).evaluate x = r * p.evaluate x := by
  simp [evaluate_eq]

@[simp] lemma toPolynomial_mulXSubC (x : F) (p : DensePoly F) :
    toPolynomial (mulXSubC x p) = (X - C x) * toPolynomial p := by
  simp [mulXSubC, toPolynomial, ofCoeffs_subCoeffs, ofCoeffs_map_mul]
  ring

@[simp] lemma toPolynomial_fromRoots (roots : List F) :
    toPolynomial (fromRoots roots) = (roots.map fun x => X - C x).prod := by
  induction roots with
  | nil => simp [fromRoots]
  | cons x roots ih => simp [fromRoots, ih] at ih ⊢

lemma evaluate_fromRoots (roots : List F) (x : F) :
    (fromRoots roots).evaluate x = (roots.map fun y => x - y).prod := by
  simp [evaluate_eq, eval_list_prod, Function.comp_def]

lemma toPolynomial_linearizeInPlace (polys : List (DensePoly F)) (r : F) :
    toPolynomial (linearizeInPlace polys r) =
      (polys.enum.map fun ip => C (r ^ ip.1) * toPolynomial ip.2).sum := by
  induction polys with
  | nil => rfl
  | cons p polys ih =>
    simp only [linearizeInPlace] at ih
    simp only [linearizeInPlace, List.foldr_cons, toPolynomial_add, toPolynomial_smul, ih,
      List.enum_cons, List.map_cons, List.sum_cons, List.enumFrom_eq_map_enum, List.map_map]
    rw [← List.sum_map_mul_left]
    simp only [Function.comp_def, Prod.map_fst, Prod.map_snd, id_eq, pow_succ, map_mul]
    congr 1
    · simp
    · congr 1
      exact List.map_congr_left fun _ _ => by ring

/-- At `x`, `LinearizeInPlace(polys, r)` is the polynomial in `r` whose coefficients are the
values of `polys` at `x`. -/
lemma eval_toPolynomial_linearizeInPlace (polys : List (DensePoly F)) (r x : F) :
    (toPolynomial (linearizeInPlace polys r)).eval x =
      (ofCoeffs (polys.map fun p => (toPolynomial p).eval x)).eval r := by
  induction polys with
  | nil => simp [linearizeInPlace]
  | cons p polys ih =>
    simp only [linearizeInPlace] at ih
    rw [linearizeInPlace, List.foldr_cons, toPolynomial_add, toPolynomial_smul, eval_add, eval_mul,
      eval_C, ih, List.map_cons, ofCoeffs_cons, eval_add, eval_mul, eval_C, eval_X]

lemma length_mulXSubC (x : F) (p : DensePoly F) :
    (mulXSubC x p).coeffs.length = p.coeffs.length + 1 := by
  simp [mulXSubC, length_subCoeffs]

lemma length_fromRoots (roots : List F) : (fromRoots roots).coeffs.length = roots.length + 1 := by
  induction roots with
  | nil => rfl
  | cons x roots ih => simp only [fromRoots] at ih ⊢; simp [length_mulXSubC, ih]

/-- `FromRoots` writes its leading `1` as its top coefficient. -/
lemma top_fromRoots (roots : List F) :
    (fromRoots roots).coeffs.getD ((fromRoots roots).coeffs.length - 1) 0 = 1 := by
  rw [length_fromRoots, Nat.add_sub_cancel, ← coeff_ofCoeffs]
  change (toPolynomial (fromRoots roots)).coeff roots.length = 1
  induction roots with
  | nil => simp
  | cons x roots ih =>
    rw [toPolynomial_fromRoots] at ih ⊢
    rw [List.map_cons, List.prod_cons, List.length_cons, sub_mul, coeff_sub, coeff_X_mul, ih,
      coeff_C_mul, ← toPolynomial_fromRoots, toPolynomial_def, coeff_ofCoeffs,
      List.getD_eq_getElem?_getD, List.getElem?_eq_none (by simp [length_fromRoots])]
    simp

end Ring

/-! ## Division -/

section Field
variable [Field F]

/-- Long division by the coefficients `d` of a divisor of degree `m = d.length - 1`, highest
coefficient of the dividend first: the quotient, and the remainder's `m` coefficients.  Each
step brings the next coefficient down and cancels the top one with a multiple of `d`. -/
def divModAux (d : List F) : List F → List F × List F
  | [] => ([], List.replicate (d.length - 1) 0)
  | a :: p =>
    let qr := divModAux d p
    let c := (a :: qr.2).getD (d.length - 1) 0 / d.getD (d.length - 1) 0
    (c :: qr.1, (subCoeffs (a :: qr.2) (d.map (c * ·))).dropLast)

/-- `operator/`: the quotient of long division. -/
instance : Div (DensePoly F) := ⟨fun p d => ⟨(divModAux d.coeffs p.coeffs).1⟩⟩

lemma ofCoeffs_replicate_zero (n : ℕ) : ofCoeffs (List.replicate n (0 : F)) = 0 := by
  induction n <;> simp [List.replicate_succ, *]

/-- Long division keeps `p = d · q + r` with `r` of `m` coefficients. -/
lemma divModAux_spec {d : List F} (hlc : d.getD (d.length - 1) 0 ≠ 0) :
    ∀ p : List F, (divModAux d p).2.length = d.length - 1 ∧
      ofCoeffs p = ofCoeffs d * ofCoeffs (divModAux d p).1 + ofCoeffs (divModAux d p).2
  | [] => by simp [divModAux, ofCoeffs_replicate_zero]
  | a :: p => by
    obtain ⟨hlen, hp⟩ := divModAux_spec hlc p
    have hd : d.length = (divModAux d p).2.length + 1 := by
      have : d ≠ [] := by rintro rfl; simp at hlc
      have := List.length_pos_of_ne_nil this
      omega
    simp only [divModAux]
    set r := (divModAux d p).2
    set c := (a :: r).getD (d.length - 1) 0 / d.getD (d.length - 1) 0 with hc
    have hlen' : (subCoeffs (a :: r) (d.map (c * ·))).length = d.length := by
      simp [length_subCoeffs, hd]
    -- the top coefficient cancels
    have htop : (subCoeffs (a :: r) (d.map (c * ·))).getD (d.length - 1) 0 = 0 := by
      have hmap : (d.map (c * ·)).getD (d.length - 1) 0 = c * d.getD (d.length - 1) 0 := by
        simp only [List.getD_eq_getElem?_getD, List.getElem?_map]
        cases d[d.length - 1]? <;> simp
      rw [getD_subCoeffs, hmap, hc, div_mul_cancel₀ _ hlc, sub_self]
    refine ⟨by simp [hlen', hd], ?_⟩
    rw [ofCoeffs_dropLast (by rwa [hlen']), ofCoeffs_subCoeffs, ofCoeffs_map_mul]
    simp only [ofCoeffs_cons, hp]
    ring

/-- A coefficient list with top entry `1` is a monic polynomial of degree `length - 1`. -/
lemma monic_ofCoeffs {l : List F} (h : l.getD (l.length - 1) 0 = 1) :
    (ofCoeffs l).Monic ∧ (ofCoeffs l).natDegree = l.length - 1 := by
  have hle : (ofCoeffs l).natDegree ≤ l.length - 1 :=
    natDegree_le_iff_coeff_eq_zero.2 fun N hN => by
      rw [coeff_ofCoeffs, List.getD_eq_getElem?_getD, List.getElem?_eq_none (by omega)]
      rfl
  have hdeg :=
    natDegree_eq_of_le_of_coeff_ne_zero hle (by rw [coeff_ofCoeffs, h]; exact one_ne_zero)
  exact ⟨by rw [Monic, leadingCoeff, hdeg, coeff_ofCoeffs, h], hdeg⟩

/-- Division by a monic divisor whose top coefficient is its leading `1`: the quotient is `/ₘ`
and the remainder is `%ₘ`. -/
lemma toPolynomial_div (p d : DensePoly F) (hd : d.coeffs.getD (d.coeffs.length - 1) 0 = 1) :
    toPolynomial (p / d) = toPolynomial p /ₘ toPolynomial d ∧
      toPolynomial p %ₘ toPolynomial d = ofCoeffs (divModAux d.coeffs p.coeffs).2 := by
  obtain ⟨hmonic, hdeg⟩ := monic_ofCoeffs hd
  obtain ⟨hlen, hp⟩ := divModAux_spec (by rw [hd]; exact one_ne_zero) p.coeffs
  have hr : (ofCoeffs (divModAux d.coeffs p.coeffs).2).degree < (toPolynomial d).degree := by
    refine (degree_ofCoeffs_lt _).trans_le ?_
    rw [hlen, toPolynomial_def, degree_eq_natDegree hmonic.ne_zero, hdeg]
  obtain ⟨hq, hr'⟩ := div_modByMonic_unique (ofCoeffs (divModAux d.coeffs p.coeffs).1)
    (ofCoeffs (divModAux d.coeffs p.coeffs).2) hmonic ⟨(add_comm _ _).trans hp.symm, hr⟩
  exact ⟨hq.symm, hr'⟩

end Field

end DensePoly

end Tachyon.Math
