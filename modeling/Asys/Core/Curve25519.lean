import Asys.Core.Field25519
import Asys.Core.LittleEndian
import Asys.Core.X25519
import Asys.Lib.Montgomery
import Mathlib.FieldTheory.IsAlgClosed.AlgebraicClosure

/-! # X25519 is multiplication on the curve

    The numbers below the prime stand in an algebraically closed field, where each of them is the
    `x` coordinate of a point of Curve25519. The ladder multiplies that point, whatever the peer
    sent. -/

namespace Asys

/-- The field with `2 ^ 255 - 19` elements, closed: a number stands for its class. -/
abbrev FieldK : Type := AlgebraicClosure (ZMod feP)

noncomputable instance : DecidableEq FieldK := Classical.decEq _

/-! ### The ladder -/

noncomputable def Ladder.toField (l : Ladder) : Montgomery.Ladder FieldK := ⟨l.x2, l.z2, l.x3, l.z3⟩

theorem toField_swap (l : Ladder) : l.swap.toField = l.toField.swap := rfl

theorem toField_ladderStep (x1 : ℕ) {l : Ladder} (h : l.Reduced) :
    (ladderStep x1 l).toField = Montgomery.step 121666 (x1 : FieldK) l.toField := by
  simp only [ladderStep, Montgomery.step, Ladder.toField, cast_feMul, cast_feAdd,
    cast_feSub _ h.z2, cast_feSub _ h.z3, cast_feSub _ (feMul_lt _ _), Nat.cast_ofNat]

/-- RUN: the numbers of the ladder stand for those of the ladder in the field. -/
theorem toField_ladder (x1 scalar n : ℕ) {l : Ladder} (h : l.Reduced) :
    (ladder x1 scalar n l).toField =
      Montgomery.run 121666 (x1 : FieldK) scalar n l.toField := by
  induction n generalizing l with
  | zero => rfl
  | succ n ih =>
    rw [ladder, Montgomery.run, Montgomery.bitStep]
    split
    · rw [ih (ladderStep_reduced _ _).swap, toField_swap, toField_ladderStep _ h.swap, toField_swap]
    · rw [ih (ladderStep_reduced _ _), toField_ladderStep _ h]

/-! ### The curve -/

/-- Curve25519, `y² = x³ + 486662 x² + x`. -/
noncomputable abbrev curve25519 : WeierstrassCurve.Affine FieldK := Montgomery.curve (486662 : FieldK)

theorem cast_ne_zero {n : ℕ} (h0 : 0 < n) (hn : n < feP) : (n : FieldK) ≠ 0 := by
  intro h
  exact h0.ne' (cast_inj (K := FieldK) hn feP_pos (by rw [h, Nat.cast_zero]))

theorem curve25519_smooth : Montgomery.Smooth (486662 : FieldK) := by
  refine ⟨?_, ?_, ?_⟩
  · exact_mod_cast cast_ne_zero (n := 2) (by decide) (by decide)
  · have h := cast_ne_zero (n := 486660) (by decide) (by decide)
    intro heq
    exact h (by push_cast; linear_combination heq)
  · have h := cast_ne_zero (n := 486664) (by decide) (by decide)
    intro heq
    exact h (by push_cast; linear_combination heq)

/-- The number that a coordinate is sent as. -/
def feFromBytes (p : List UInt8) : ℕ := loadLe p % 2 ^ 255 % feP

/-- The scalar of a secret key. -/
def trimmedScalar (key : List UInt8) : ℕ := loadLe (cryptoEddsaTrimScalar key) % 2 ^ 255

theorem feFromBytes_storeLe {n : ℕ} (hn : n < feP) : feFromBytes (storeLe 32 n) = n := by
  have h255 : n < 2 ^ 255 := hn.trans (by decide)
  have h256 : n < 256 ^ 32 := hn.trans (by decide)
  rw [feFromBytes, loadLe_storeLe, Nat.mod_eq_of_lt h256, Nat.mod_eq_of_lt h255, Nat.mod_eq_of_lt hn]

/-- What X25519 sends, as an element of the field. -/
theorem feFromBytes_cryptoX25519 (key p : List UInt8) :
    (feFromBytes (cryptoX25519 key p) : FieldK) =
      Montgomery.mulX 121666 (feFromBytes p : FieldK) (loadLe (cryptoEddsaTrimScalar key)) 255 := by
  have hinit : (⟨1, 0, feFromBytes p, 1⟩ : Ladder).Reduced :=
    ⟨one_lt_feP, feP_pos, Nat.mod_lt _ feP_pos, one_lt_feP⟩
  have hrun := toField_ladder (feFromBytes p) (loadLe (cryptoEddsaTrimScalar key)) 255 hinit
  have hcast : (⟨1, 0, feFromBytes p, 1⟩ : Ladder).toField =
      ⟨1, 0, (feFromBytes p : FieldK), 1⟩ := by
    simp [Ladder.toField]
  rw [hcast] at hrun
  rw [cryptoX25519, scalarmult, feFromBytes_storeLe (feMul_lt _ _), cast_feMul, cast_feInvert,
    Montgomery.mulX, ← hrun]
  rfl

/-- CORRECT: X25519 multiplies each point with the peer's coordinate by the trimmed scalar. -/
theorem cryptoX25519_nsmul (key p : List UInt8) (P : curve25519.Point)
    (hP : Montgomery.x0 P = (feFromBytes p : FieldK)) :
    (feFromBytes (cryptoX25519 key p) : FieldK) = Montgomery.x0 (trimmedScalar key • P) := by
  rw [feFromBytes_cryptoX25519, ← hP, Montgomery.mulX_x0 curve25519_smooth (by norm_num)]
  rfl

theorem storeLe_feFromBytes (key p : List UInt8) :
    storeLe 32 (feFromBytes (cryptoX25519 key p)) = cryptoX25519 key p := by
  rw [cryptoX25519, scalarmult, feFromBytes_storeLe (feMul_lt _ _)]

/-- CORRECT: two keys may be applied in either order, to whatever the peer sent. -/
theorem cryptoX25519_comm (a b p : List UInt8) :
    cryptoX25519 a (cryptoX25519 b p) = cryptoX25519 b (cryptoX25519 a p) := by
  have hfield : (feFromBytes (cryptoX25519 a (cryptoX25519 b p)) : FieldK) =
      feFromBytes (cryptoX25519 b (cryptoX25519 a p)) := by
    simp only [feFromBytes_cryptoX25519]
    exact Montgomery.mulX_comm curve25519_smooth (by norm_num) _ _ _ _
  have hnum : feFromBytes (cryptoX25519 a (cryptoX25519 b p)) =
      feFromBytes (cryptoX25519 b (cryptoX25519 a p)) :=
    cast_inj (Nat.mod_lt _ feP_pos) (Nat.mod_lt _ feP_pos) hfield
  rw [← storeLe_feFromBytes a (cryptoX25519 b p), hnum, storeLe_feFromBytes]

/-- CORRECT: whatever the key and whatever the peer sent, `crypto_x25519` in limbs overflows nowhere;
    there are points with the coordinate that was sent, and each of them multiplied by the trimmed
    scalar has the coordinate that comes out. -/
theorem limbs_nsmul (key p : List UInt8) :
    (∃ P : curve25519.Point, Montgomery.x0 P = (feFromBytes p : FieldK)) ∧
      ∃ out, Fe.cryptoX25519 key p = some out ∧ out.length = 32 ∧ ∀ P : curve25519.Point,
        Montgomery.x0 P = (feFromBytes p : FieldK) →
          (feFromBytes out : FieldK) = Montgomery.x0 (trimmedScalar key • P) :=
  ⟨Montgomery.exists_x0_eq curve25519_smooth _, _, Fe.cryptoX25519_eq key p,
    monocypher.x25519_length key p, cryptoX25519_nsmul key p⟩

/-- CORRECT: in limbs too, two keys may be applied in either order, to whatever the peer sent: the two
    ends of a Diffie-Hellman hold one secret. -/
theorem limbs_sharedSecret (a b p : List UInt8) : ∃ pa pb secret,
    Fe.cryptoX25519 a p = some pa ∧ Fe.cryptoX25519 b p = some pb ∧
      Fe.cryptoX25519 a pb = some secret ∧ Fe.cryptoX25519 b pa = some secret := by
  refine ⟨_, _, _, Fe.cryptoX25519_eq a p, Fe.cryptoX25519_eq b p, Fe.cryptoX25519_eq a _, ?_⟩
  rw [Fe.cryptoX25519_eq, cryptoX25519_comm b a p]

end Asys
