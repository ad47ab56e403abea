import Mathlib.AlgebraicGeometry.EllipticCurve.Affine.Point
import Mathlib.FieldTheory.IsAlgClosed.Basic

/-! # Montgomery curves and the ladder over their `x` coordinates

    The curve `y² = x³ + A x² + x` over a field, with Mathlib's group of points. A pair `(X : Z)`
    stands for the `x` coordinate of a point (`Represents`), and one step of the ladder doubles one
    point and adds it to a second whose difference from it is the fixed base point. The run of the
    ladder over the bits of a scalar is the multiplication by the scalar, for every point. -/

namespace Montgomery

open WeierstrassCurve.Affine

variable {F : Type*} [Field F]

/-- `y² = x³ + A x² + x`. -/
def curve (A : F) : WeierstrassCurve.Affine F where
  a₁ := 0
  a₂ := A
  a₃ := 0
  a₄ := 1
  a₆ := 0

/-- What makes the curve smooth, in a field with a half. -/
structure Smooth (A : F) : Prop where
  two_ne_zero : (2 : F) ≠ 0
  ne_two : A ≠ 2
  ne_neg_two : A ≠ -2

/-- The pair `(X : Z)` stands for the `x` coordinate of a point: `Z = 0` for the point at
    infinity alone. -/
def Represents {A : F} (X Z : F) : (curve A).Point → Prop
  | .zero => Z = 0 ∧ X ≠ 0
  | .some x _ _ => Z ≠ 0 ∧ X = x * Z

/-- The `x` coordinate of a point, with zero for the point at infinity. -/
def x0 {A : F} : (curve A).Point → F
  | .zero => 0
  | .some x _ _ => x

variable {A : F}

/-! ### The curve and its coordinates -/

theorem equation_iff (x y : F) : (curve A).Equation x y ↔ y ^ 2 = x ^ 3 + A * x ^ 2 + x := by
  rw [WeierstrassCurve.Affine.equation_iff]
  simp [curve]

theorem negY_eq (x y : F) : (curve A).negY x y = -y := by
  simp [curve, WeierstrassCurve.Affine.negY]

theorem addX_eq (x₁ x₂ ℓ : F) : (curve A).addX x₁ x₂ ℓ = ℓ ^ 2 - A - x₁ - x₂ := by
  simp [curve, WeierstrassCurve.Affine.addX]

namespace Smooth

theorem eq_zero_of_two_mul (hA : Smooth A) {x : F} (h : 2 * x = 0) : x = 0 :=
  (mul_eq_zero.mp h).resolve_left hA.two_ne_zero

theorem four_ne_zero (hA : Smooth A) : (4 : F) ≠ 0 := by
  have h : (4 : F) = 2 * 2 := by norm_num
  rw [h]
  exact mul_ne_zero hA.two_ne_zero hA.two_ne_zero

/-- Where the curve meets the axis, `x` is not a square root of one. -/
theorem sq_ne_one (hA : Smooth A) {x : F} (h : x ^ 3 + A * x ^ 2 + x = 0) : x ^ 2 ≠ 1 := by
  intro hx
  rcases sq_eq_one_iff.mp hx with rfl | rfl
  · exact hA.ne_neg_two (by linear_combination h)
  · exact hA.ne_two (by linear_combination h)

theorem nonsingular (hA : Smooth A) {x y : F} (h : (curve A).Equation x y) :
    (curve A).Nonsingular x y := by
  refine WeierstrassCurve.Affine.nonsingular_iff _ _ |>.mpr ⟨h, ?_⟩
  rw [equation_iff] at h
  simp only [curve]
  by_contra! hns
  obtain ⟨hx, hy⟩ := hns
  obtain rfl : y = 0 := hA.eq_zero_of_two_mul (by linear_combination hy)
  have hroot : x ^ 3 + A * x ^ 2 + x = 0 := by linear_combination -h
  have hxne : x ≠ 0 := by
    rintro rfl
    simp at hx
  -- a double root of the cubic is a square root of one
  exact hA.sq_ne_one hroot (mul_left_cancel₀ hxne (by linear_combination -2 * hroot - x * hx))

end Smooth

theorem two_torsion {x y : F} (h : (curve A).Nonsingular x y) (hy : y = 0) :
    x ^ 3 + A * x ^ 2 + x = 0 := by
  have heq := (equation_iff x y).mp h.1
  rw [← heq, hy]
  ring

section GroupLaw

variable [DecidableEq F]

/-- The `x` coordinate of a double, for a point off the axis. -/
theorem addX_self (hA : Smooth A) {x y : F} (h : (curve A).Equation x y) (hy : y ≠ 0) :
    (curve A).addX x x ((curve A).slope x x y y) * (4 * (x ^ 3 + A * x ^ 2 + x)) =
      (x ^ 2 - 1) ^ 2 := by
  have heq := (equation_iff x y).mp h
  have hne : y ≠ (curve A).negY x y := by
    intro hneg
    rw [negY_eq] at hneg
    exact hy (hA.eq_zero_of_two_mul (by linear_combination hneg))
  have hslope : (curve A).slope x x y y * (2 * y) = 3 * x ^ 2 + 2 * A * x + 1 := by
    have h2y : y - -y ≠ 0 := fun h0 => hy (hA.eq_zero_of_two_mul (by linear_combination h0))
    rw [slope_of_Y_ne rfl hne, negY_eq]
    simp only [curve]
    rw [show 2 * y = y - -y by ring, div_mul_cancel₀ _ h2y]
    ring
  rw [addX_eq]
  linear_combination ((curve A).slope x x y y * (2 * y) + (3 * x ^ 2 + 2 * A * x + 1)) * hslope -
    4 * (curve A).slope x x y y ^ 2 * heq

/-- The `x` coordinate of a sum times that of the difference. -/
theorem addX_mul_addX {x₁ y₁ x₂ y₂ : F} (h₁ : (curve A).Equation x₁ y₁)
    (h₂ : (curve A).Equation x₂ y₂) (hne : x₁ ≠ x₂) :
    (curve A).addX x₁ x₂ ((curve A).slope x₁ x₂ y₁ y₂) *
        (curve A).addX x₁ x₂ ((curve A).slope x₁ x₂ y₁ (-y₂)) * (x₁ - x₂) ^ 2 =
      (x₁ * x₂ - 1) ^ 2 := by
  have heq₁ := (equation_iff x₁ y₁).mp h₁
  have heq₂ := (equation_iff x₂ y₂).mp h₂
  have hsub : x₁ - x₂ ≠ 0 := sub_ne_zero.mpr hne
  -- each factor, cleared of its denominator and of the squares of the ordinates
  have hfactor : ∀ y, y ^ 2 = x₂ ^ 3 + A * x₂ ^ 2 + x₂ →
      (curve A).addX x₁ x₂ ((curve A).slope x₁ x₂ y₁ y) * (x₁ - x₂) ^ 2 =
        x₁ * x₂ * (x₁ + x₂) + 2 * A * (x₁ * x₂) + x₁ + x₂ - 2 * (y₁ * y) := by
    intro y hy
    have hslope : (curve A).slope x₁ x₂ y₁ y * (x₁ - x₂) = y₁ - y := by
      rw [slope_of_X_ne hne, div_mul_cancel₀ _ hsub]
    rw [addX_eq]
    linear_combination ((curve A).slope x₁ x₂ y₁ y * (x₁ - x₂) + (y₁ - y)) * hslope + heq₁ + hy
  have hplus := hfactor y₂ heq₂
  have hminus := hfactor (-y₂) (by rw [neg_sq, heq₂])
  refine mul_left_cancel₀ (pow_ne_zero 2 hsub) ?_
  calc (x₁ - x₂) ^ 2 * ((curve A).addX x₁ x₂ ((curve A).slope x₁ x₂ y₁ y₂) *
        (curve A).addX x₁ x₂ ((curve A).slope x₁ x₂ y₁ (-y₂)) * (x₁ - x₂) ^ 2)
      = (curve A).addX x₁ x₂ ((curve A).slope x₁ x₂ y₁ y₂) * (x₁ - x₂) ^ 2 *
          ((curve A).addX x₁ x₂ ((curve A).slope x₁ x₂ y₁ (-y₂)) * (x₁ - x₂) ^ 2) := by ring
    _ = (x₁ * x₂ * (x₁ + x₂) + 2 * A * (x₁ * x₂) + x₁ + x₂) ^ 2 - 4 * (y₁ ^ 2 * y₂ ^ 2) := by
        rw [hplus, hminus]
        ring
    _ = (x₁ - x₂) ^ 2 * (x₁ * x₂ - 1) ^ 2 := by
        rw [heq₁, heq₂]
        ring

/-! ### One step -/

/-- STEP: doubling. -/
theorem represents_double (hA : Smooth A) {X Z : F} {P : (curve A).Point} (h : Represents X Z P) :
    Represents ((X ^ 2 - Z ^ 2) ^ 2) (4 * (X * Z) * (X ^ 2 + A * (X * Z) + Z ^ 2)) (P + P) := by
  cases P with
  | zero =>
    obtain ⟨rfl, hX⟩ := h
    refine ⟨by ring, ?_⟩
    have hsq : (X ^ 2 - 0 ^ 2) ^ 2 = X ^ 4 := by ring
    rw [hsq]
    exact pow_ne_zero 4 hX
  | some x y hns =>
    obtain ⟨hZ, rfl⟩ := h
    have hX : ((x * Z) ^ 2 - Z ^ 2) ^ 2 = Z ^ 4 * (x ^ 2 - 1) ^ 2 := by ring
    have hZ' : 4 * (x * Z * Z) * ((x * Z) ^ 2 + A * (x * Z * Z) + Z ^ 2) =
        Z ^ 4 * (4 * (x ^ 3 + A * x ^ 2 + x)) := by ring
    rw [hX, hZ']
    by_cases hy : y = 0
    · have hroot := two_torsion hns hy
      rw [Point.add_of_Y_eq rfl (by rw [negY_eq, hy, neg_zero]), hroot]
      refine ⟨by ring, mul_ne_zero (pow_ne_zero 4 hZ) (pow_ne_zero 2 ?_)⟩
      exact sub_ne_zero.mpr (hA.sq_ne_one hroot)
    · have hne : ¬(x = x ∧ y = (curve A).negY x y) := by
        rintro ⟨-, hneg⟩
        rw [negY_eq] at hneg
        exact hy (hA.eq_zero_of_two_mul (by linear_combination hneg))
      rw [Point.add_some hne, ← addX_self hA hns.1 hy]
      refine ⟨mul_ne_zero (pow_ne_zero 4 hZ) (mul_ne_zero hA.four_ne_zero ?_), by ring⟩
      rw [← (equation_iff x y).mp hns.1]
      exact pow_ne_zero 2 hy

/-- A point whose double has an `x` coordinate other than zero. -/
theorem double_ne (hA : Smooth A) {x₁ y₁ x y : F} {h₁ : (curve A).Nonsingular x₁ y₁}
    {hD : (curve A).Nonsingular x y} (hx : x ≠ 0)
    (hdouble : (Point.some x₁ y₁ h₁ + Point.some x₁ y₁ h₁ : (curve A).Point) = .some x y hD) :
    x₁ ^ 2 ≠ 1 := by
  intro hsq
  by_cases hy : y₁ = 0
  · rw [Point.add_of_Y_eq rfl (by rw [negY_eq, hy, neg_zero])] at hdouble
    exact Point.some_ne_zero hD hdouble.symm
  · have hne : ¬(x₁ = x₁ ∧ y₁ = (curve A).negY x₁ y₁) := by
      rintro ⟨-, hneg⟩
      rw [negY_eq] at hneg
      exact hy (hA.eq_zero_of_two_mul (by linear_combination hneg))
    rw [Point.add_some hne, Point.some.injEq] at hdouble
    have hx₁ := addX_self hA h₁.1 hy
    rw [hdouble.1, ← (equation_iff x₁ y₁).mp h₁.1, hsq, sub_self] at hx₁
    rcases mul_eq_zero.mp (hx₁.trans (zero_pow two_ne_zero)) with h0 | h0
    · exact hx h0
    · exact mul_ne_zero hA.four_ne_zero (pow_ne_zero 2 hy) h0

/-- STEP: the sum of two points whose difference has the `x` coordinate `x`, not zero. -/
theorem represents_add (hA : Smooth A) {X₂ Z₂ X₃ Z₃ x y : F} {hD : (curve A).Nonsingular x y}
    (hx : x ≠ 0) {P Q : (curve A).Point} (hdiff : Q - P = .some x y hD)
    (hP : Represents X₂ Z₂ P) (hQ : Represents X₃ Z₃ Q) :
    Represents (4 * (X₂ * X₃ - Z₂ * Z₃) ^ 2) (4 * x * (X₃ * Z₂ - Z₃ * X₂) ^ 2) (P + Q) := by
  cases P with
  | zero =>
    obtain rfl : Q = .some x y hD := by rw [← hdiff]; exact (sub_zero Q).symm
    obtain ⟨rfl, hX₂⟩ := hP
    obtain ⟨hZ₃, rfl⟩ := hQ
    have hsum : (.zero + .some x y hD : (curve A).Point) = .some x y hD := zero_add _
    rw [hsum]
    refine ⟨?_, by ring⟩
    have h4 : 4 * x * (x * Z₃ * 0 - Z₃ * X₂) ^ 2 = 4 * x * (Z₃ * X₂) ^ 2 := by ring
    rw [h4]
    exact mul_ne_zero (mul_ne_zero hA.four_ne_zero hx) (pow_ne_zero 2 (mul_ne_zero hZ₃ hX₂))
  | some x₂ y₂ h₂ =>
    obtain ⟨hZ₂, rfl⟩ := hP
    cases Q with
    | zero =>
      obtain ⟨rfl, hX₃⟩ := hQ
      obtain rfl : x₂ = x := by
        have hneg : Point.some x₂ y₂ h₂ = -Point.some x y hD := by
          rw [← hdiff, neg_sub]
          exact (sub_zero _).symm
        rw [Point.neg_some, Point.some.injEq] at hneg
        exact hneg.1
      have hsum : (Point.some x₂ y₂ h₂ + .zero : (curve A).Point) = .some x₂ y₂ h₂ := add_zero _
      rw [hsum]
      refine ⟨?_, by ring⟩
      have h4 : 4 * x₂ * (X₃ * Z₂ - 0 * (x₂ * Z₂)) ^ 2 = 4 * x₂ * (X₃ * Z₂) ^ 2 := by ring
      rw [h4]
      exact mul_ne_zero (mul_ne_zero hA.four_ne_zero hx) (pow_ne_zero 2 (mul_ne_zero hX₃ hZ₂))
    | some x₃ y₃ h₃ =>
      obtain ⟨hZ₃, rfl⟩ := hQ
      have hX : 4 * (x₂ * Z₂ * (x₃ * Z₃) - Z₂ * Z₃) ^ 2 =
          4 * (Z₂ * Z₃) ^ 2 * (x₃ * x₂ - 1) ^ 2 := by ring
      have hZ : 4 * x * (x₃ * Z₃ * Z₂ - Z₃ * (x₂ * Z₂)) ^ 2 =
          4 * (Z₂ * Z₃) ^ 2 * (x * (x₃ - x₂) ^ 2) := by ring
      have hscale : 4 * (Z₂ * Z₃) ^ 2 ≠ 0 :=
        mul_ne_zero hA.four_ne_zero (pow_ne_zero 2 (mul_ne_zero hZ₂ hZ₃))
      rw [hX, hZ]
      by_cases hxx : x₃ = x₂
      · subst hxx
        have hcases : Point.some x₃ y₃ h₃ = .some x₃ y₂ h₂ ∨
            Point.some x₃ y₃ h₃ = -.some x₃ y₂ h₂ := Point.X_eq_iff.mp rfl
        rcases hcases with heq | heq
        · rw [← heq, sub_self] at hdiff
          exact absurd hdiff.symm (Point.some_ne_zero hD)
        · have hneg : Point.some x₃ y₂ h₂ = -.some x₃ y₃ h₃ := by rw [heq, neg_neg]
          rw [hneg, sub_neg_eq_add] at hdiff
          rw [heq, add_neg_cancel]
          refine ⟨by ring, mul_ne_zero hscale (pow_ne_zero 2 (sub_ne_zero.mpr ?_))⟩
          rw [← sq]
          exact double_ne hA hx hdiff
      · have hPQ := addX_mul_addX h₃.1 h₂.1 hxx
        rw [sub_eq_add_neg, Point.neg_some, Point.add_of_X_ne hxx, Point.some.injEq, negY_eq] at hdiff
        rw [add_comm, Point.add_of_X_ne hxx]
        rw [hdiff.1] at hPQ
        refine ⟨mul_ne_zero hscale (mul_ne_zero hx (pow_ne_zero 2 (sub_ne_zero.mpr hxx))), ?_⟩
        linear_combination -4 * (Z₂ * Z₃) ^ 2 * hPQ

end GroupLaw

/-! ### The ladder -/

/-- The two points of the ladder. -/
structure Ladder (F : Type*) where
  x2 : F
  z2 : F
  x3 : F
  z3 : F

def Ladder.swap (l : Ladder F) : Ladder F := ⟨l.x3, l.z3, l.x2, l.z2⟩

omit [Field F] in
@[simp] theorem Ladder.swap_x2 (l : Ladder F) : l.swap.x2 = l.x3 := rfl

omit [Field F] in
@[simp] theorem Ladder.swap_z2 (l : Ladder F) : l.swap.z2 = l.z3 := rfl

omit [Field F] in
@[simp] theorem Ladder.swap_x3 (l : Ladder F) : l.swap.x3 = l.x2 := rfl

omit [Field F] in
@[simp] theorem Ladder.swap_z3 (l : Ladder F) : l.swap.z3 = l.z2 := rfl

/-- `(P2, P3)` becomes `(2 P2, P2 + P3)`; `x1` is the difference and `a24` is `(A + 2) / 4`. -/
def step (a24 x1 : F) (l : Ladder F) : Ladder F :=
  let t0 := (l.x2 - l.z2) * (l.x2 - l.z2)
  let t1 := (l.x2 + l.z2) * (l.x2 + l.z2)
  let z3 := (l.x3 - l.z3) * (l.x2 + l.z2)
  let z2 := (l.x3 + l.z3) * (l.x2 - l.z2)
  ⟨t1 * t0, (t1 - t0) * (t0 + (t1 - t0) * a24), (z3 + z2) * (z3 + z2),
    x1 * ((z3 - z2) * (z3 - z2))⟩

/-- A bit of the scalar says which of the two points is doubled. -/
def bitStep (a24 x1 : F) (bit : Bool) (l : Ladder F) : Ladder F :=
  if bit then (step a24 x1 l.swap).swap else step a24 x1 l

/-- The ladder over the bits of a scalar below `pos`, from the top. -/
def run (a24 x1 : F) (scalar : ℕ) : ℕ → Ladder F → Ladder F
  | 0, l => l
  | pos + 1, l => run a24 x1 scalar pos (bitStep a24 x1 (scalar.testBit pos) l)

/-- The `x` coordinate that the ladder over `n` bits gives, with `1 / 0` as zero. -/
def mulX (a24 x1 : F) (scalar n : ℕ) : F :=
  let l := run a24 x1 scalar n ⟨1, 0, x1, 1⟩
  l.x2 * l.z2⁻¹

section Multiplication

variable [DecidableEq F]

/-- The ladder after the scalar `k`: it stands at `k • D` and `(k + 1) • D`. -/
structure Tracks (D : (curve A).Point) (k : ℕ) (l : Ladder F) : Prop where
  low : Represents l.x2 l.z2 (k • D)
  high : Represents l.x3 l.z3 ((k + 1) • D)

variable {a24 x y : F} {hD : (curve A).Nonsingular x y} {k : ℕ} {l : Ladder F}

/-- What one step makes of two points that differ by the base point. -/
theorem represents_step (hA : Smooth A) (ha : 4 * a24 = A + 2) (hx : x ≠ 0)
    {P Q : (curve A).Point} (hdiff : Q - P = .some x y hD) (hP : Represents l.x2 l.z2 P)
    (hQ : Represents l.x3 l.z3 Q) :
    Represents (step a24 x l).x2 (step a24 x l).z2 (P + P) ∧
      Represents (step a24 x l).x3 (step a24 x l).z3 (P + Q) := by
  refine ⟨?_, ?_⟩
  · have hx2 : (step a24 x l).x2 = (l.x2 ^ 2 - l.z2 ^ 2) ^ 2 := by
      simp only [step]
      ring
    have hz2 : (step a24 x l).z2 =
        4 * (l.x2 * l.z2) * (l.x2 ^ 2 + A * (l.x2 * l.z2) + l.z2 ^ 2) := by
      simp only [step]
      linear_combination 4 * (l.x2 * l.z2) ^ 2 * ha
    rw [hx2, hz2]
    exact represents_double hA hP
  · have hx3 : (step a24 x l).x3 = 4 * (l.x2 * l.x3 - l.z2 * l.z3) ^ 2 := by
      simp only [step]
      ring
    have hz3 : (step a24 x l).z3 = 4 * x * (l.x3 * l.z2 - l.z3 * l.x2) ^ 2 := by
      simp only [step]
      ring
    rw [hx3, hz3]
    exact represents_add hA hx hdiff hP hQ

/-- STEP: one more bit of the scalar. -/
theorem tracks_bitStep (hA : Smooth A) (ha : 4 * a24 = A + 2) (hx : x ≠ 0) (bit : Bool)
    (h : Tracks (.some x y hD) k l) :
    Tracks (.some x y hD) (2 * k + bit.toNat) (bitStep a24 x bit l) := by
  set D : (curve A).Point := .some x y hD with hDdef
  cases bit with
  | false =>
    have hdiff : (k + 1) • D - k • D = D := by rw [succ_nsmul, add_sub_cancel_left]
    obtain ⟨hlow, hhigh⟩ := represents_step hA ha hx hdiff h.low h.high
    refine ⟨?_, ?_⟩
    · rw [Bool.toNat_false, add_zero, two_mul, add_nsmul]
      exact hlow
    · rw [Bool.toNat_false, add_zero, two_mul, add_assoc, add_nsmul]
      exact hhigh
  | true =>
    -- the two points change places, and their difference its sign
    have hdiff : k • D - (k + 1) • D = -D := by rw [succ_nsmul, sub_add_cancel_left]
    rw [hDdef, Point.neg_some, ← hDdef] at hdiff
    obtain ⟨hlow, hhigh⟩ := represents_step (l := l.swap) hA ha hx hdiff h.high h.low
    refine ⟨?_, ?_⟩
    · have hk : 2 * k + true.toNat = k + 1 + k := by
        rw [Bool.toNat_true]
        ring
      rw [hk, add_nsmul]
      exact hhigh
    · have hk : 2 * k + true.toNat + 1 = k + 1 + (k + 1) := by
        rw [Bool.toNat_true]
        ring
      rw [hk, add_nsmul]
      exact hlow

/-- RUN: the ladder over the low bits of a scalar. -/
theorem tracks_run (hA : Smooth A) (ha : 4 * a24 = A + 2) (hx : x ≠ 0) (scalar n : ℕ)
    (h : Tracks (.some x y hD) k l) :
    Tracks (.some x y hD) (k * 2 ^ n + scalar % 2 ^ n) (run a24 x scalar n l) := by
  induction n generalizing k l with
  | zero => simpa [Nat.mod_one, run] using h
  | succ n ih =>
    have hstep := ih (tracks_bitStep hA ha hx (scalar.testBit n) h)
    have hk : k * 2 ^ (n + 1) + scalar % 2 ^ (n + 1) =
        (2 * k + (scalar.testBit n).toNat) * 2 ^ n + scalar % 2 ^ n := by
      rw [Nat.mod_pow_succ, Nat.toNat_testBit]
      ring
    rw [hk]
    exact hstep

/-! ### The base point of order two -/

omit [DecidableEq F] in
theorem vanishes_step (a24 : F) (h : l.x2 * l.z2 = 0) :
    (step a24 0 l).z2 = 0 ∧ (step a24 0 l).z3 = 0 := by
  refine ⟨?_, ?_⟩
  · simp only [step]
    linear_combination 4 * ((l.x2 - l.z2) ^ 2 + 4 * (l.x2 * l.z2) * a24) * h
  · simp [step]

omit [DecidableEq F] in
/-- From `x1 = 0` on, one coordinate of each pair is zero. -/
theorem vanishes_run (a24 : F) (scalar n : ℕ) (h2 : l.x2 * l.z2 = 0) (h3 : l.x3 * l.z3 = 0) :
    (run a24 0 scalar n l).x2 * (run a24 0 scalar n l).z2 = 0 := by
  induction n generalizing l with
  | zero => exact h2
  | succ n ih =>
    rw [run]
    cases scalar.testBit n with
    | false =>
      obtain ⟨hz2, hz3⟩ := vanishes_step a24 h2
      exact ih (by simp [bitStep, hz2]) (by simp [bitStep, hz3])
    | true =>
      obtain ⟨hz2, hz3⟩ := vanishes_step (l := l.swap) a24 h3
      exact ih (by simp [bitStep, hz3]) (by simp [bitStep, hz2])

omit [DecidableEq F] in
theorem mulX_zero (scalar n : ℕ) : mulX a24 (0 : F) scalar n = 0 := by
  have h := vanishes_run (l := ⟨1, 0, 0, 1⟩) a24 scalar n (by simp) (by simp)
  rcases mul_eq_zero.mp h with h0 | h0
  · simp [mulX, h0]
  · simp [mulX, h0]

/-- The multiples of a point with `x` coordinate zero have it as well. -/
theorem x0_nsmul_eq_zero (P : (curve A).Point) (hP : x0 P = 0) (m : ℕ) : x0 (m • P) = 0 := by
  have hdouble : P + P = 0 := by
    cases P with
    | zero => rfl
    | some x y h =>
      obtain rfl : x = 0 := hP
      have heq := (equation_iff 0 y).mp h.1
      have hy : y = 0 := by simpa using heq
      exact Point.add_of_Y_eq rfl (by rw [negY_eq, hy, neg_zero])
  have hmul : m • P = 0 ∨ m • P = P := by
    induction m with
    | zero => exact .inl (zero_nsmul P)
    | succ m ih =>
      rw [succ_nsmul]
      rcases ih with h | h
      · exact .inr (by rw [h, zero_add])
      · exact .inl (by rw [h, hdouble])
  rcases hmul with h | h
  · rw [h]
    rfl
  · rw [h, hP]

/-! ### Multiplication of any point -/

omit [DecidableEq F] in
theorem x0_of_represents {X Z : F} {P : (curve A).Point} (h : Represents X Z P) :
    X * Z⁻¹ = x0 P := by
  cases P with
  | zero =>
    rw [h.1, inv_zero, mul_zero]
    rfl
  | some x y hns =>
    obtain ⟨hZ, rfl⟩ := h
    exact mul_inv_cancel_right₀ hZ x

/-- CORRECT: the ladder multiplies every point of the curve by the low bits of the scalar. -/
theorem mulX_x0 (hA : Smooth A) (ha : 4 * a24 = A + 2) (P : (curve A).Point) (scalar n : ℕ) :
    mulX a24 (x0 P) scalar n = x0 ((scalar % 2 ^ n) • P) := by
  by_cases hx : x0 P = 0
  · rw [hx, mulX_zero, x0_nsmul_eq_zero P hx]
  · cases P with
    | zero => exact absurd rfl hx
    | some x y hD =>
      have hinit : Tracks (.some x y hD) 0 ⟨1, 0, x, 1⟩ := by
        refine ⟨?_, ?_⟩
        · rw [zero_nsmul]
          exact ⟨rfl, one_ne_zero⟩
        · rw [zero_add, one_nsmul]
          exact ⟨one_ne_zero, (mul_one x).symm⟩
      have hrun := tracks_run hA ha hx scalar n hinit
      rw [zero_mul, zero_add] at hrun
      exact x0_of_represents hrun.low

omit [DecidableEq F] in
/-- Over an algebraically closed field every `x` is a coordinate of the curve. -/
theorem exists_x0_eq [IsAlgClosed F] (hA : Smooth A) (u : F) : ∃ P : (curve A).Point, x0 P = u := by
  obtain ⟨y, hy⟩ := IsAlgClosed.exists_pow_nat_eq (u ^ 3 + A * u ^ 2 + u) two_pos
  exact ⟨.some u y (hA.nonsingular ((equation_iff u y).mpr hy)), rfl⟩

omit [DecidableEq F] in
/-- CORRECT: two scalars may be applied in either order, to any `x` at all. -/
theorem mulX_comm [IsAlgClosed F] (hA : Smooth A) (ha : 4 * a24 = A + 2) (u : F)
    (a b n : ℕ) :
    mulX a24 (mulX a24 u b n) a n = mulX a24 (mulX a24 u a n) b n := by
  classical
  obtain ⟨P, rfl⟩ := exists_x0_eq hA u
  simp only [mulX_x0 hA ha, ← mul_nsmul]
  rw [mul_comm]

end Multiplication

end Montgomery
