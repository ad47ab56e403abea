import Asys.Core.Monocypher
import Asys.Lib.Lucas
import Mathlib.FieldTheory.Finite.Basic
import Mathlib.Tactic.NormNum.Prime

/-! # The field of X25519

    `2 ^ 255 - 19` is prime, by the test of Lucas down to factors that `norm_num` knows. The
    numbers below it add, multiply and invert as the elements of any field of that
    characteristic. -/

namespace Asys
open Lucas (test prime_of_test)

/-! ### The prime -/

/-- The large factor of `feQ - 1`. -/
def feR : ℕ := 75445702479781427272750846543864801

/-- The large factor of `feP - 1`. -/
def feQ : ℕ := 74058212732561358302231226437062788676166966415465897661863160754340907

/-- Each prime of the chain with its witness, the bits of its exponents, and the factors of its
    predecessor. -/
def primeChain : List (ℕ × ℕ × ℕ × List ℕ) :=
  [(31757755568855353, 10, 64, [2, 2, 2, 3, 31, 107, 223, 4153, 430751]),
    (2773320623, 5, 64, [2, 2437, 569003]),
    (72106336199, 7, 64, [2, 13, 2773320623]),
    (1919519569386763, 2, 64, [2, 3, 7, 19, 47, 47, 127, 8574133]),
    (feR, 7, 128, [2, 2, 2, 2, 2, 3, 3, 5, 5, 75707, 72106336199, 1919519569386763]),
    (feQ, 2, 256, [2, 3, 353, 57467, 132049, 1923133, 31757755568855353, feR]),
    (feP, 2, 256, [2, 2, 3, 65147, feQ])]

/-- The kernel runs the tests of the chain at one time. -/
theorem primeChain_passes : ∀ c ∈ primeChain, test c.1 c.2.1 c.2.2.1 c.2.2.2 = true := by
  decide +kernel

theorem prime_of_chain {p a k : ℕ} {factors : List ℕ} (hmem : (p, a, k, factors) ∈ primeChain)
    (hfactors : ∀ q ∈ factors, q.Prime) : p.Prime :=
  prime_of_test a k factors hfactors (primeChain_passes _ hmem)

theorem prime_31757755568855353 : Nat.Prime 31757755568855353 :=
  prime_of_chain (.head _) (by simp; norm_num)

theorem prime_2773320623 : Nat.Prime 2773320623 :=
  prime_of_chain (.tail _ (.head _)) (by simp; norm_num)

theorem prime_72106336199 : Nat.Prime 72106336199 :=
  prime_of_chain (.tail _ (.tail _ (.head _))) (by simp [prime_2773320623]; norm_num)

theorem prime_1919519569386763 : Nat.Prime 1919519569386763 :=
  prime_of_chain (.tail _ (.tail _ (.tail _ (.head _)))) (by simp; norm_num)

theorem feR_prime : feR.Prime :=
  prime_of_chain (.tail _ (.tail _ (.tail _ (.tail _ (.head _)))))
    (by simp [prime_72106336199, prime_1919519569386763]; norm_num)

theorem feQ_prime : feQ.Prime :=
  prime_of_chain (.tail _ (.tail _ (.tail _ (.tail _ (.tail _ (.head _))))))
    (by simp [prime_31757755568855353, feR_prime]; norm_num)

theorem feP_prime : feP.Prime :=
  prime_of_chain (.tail _ (.tail _ (.tail _ (.tail _ (.tail _ (.tail _ (.head _)))))))
    (by simp [feQ_prime]; norm_num)

instance : Fact feP.Prime := ⟨feP_prime⟩

/-! ### The numbers in a field -/

theorem feP_pos : 0 < feP := feP_prime.pos

theorem one_lt_feP : 1 < feP := feP_prime.one_lt

theorem feMul_lt (a b : ℕ) : feMul a b < feP := Nat.mod_lt _ feP_pos

theorem feAdd_lt (a b : ℕ) : feAdd a b < feP := Nat.mod_lt _ feP_pos

theorem feSub_lt (a b : ℕ) : feSub a b < feP := Nat.mod_lt _ feP_pos

/-- The coordinates are below the prime. -/
structure Ladder.Reduced (l : Ladder) : Prop where
  x2 : l.x2 < feP
  z2 : l.z2 < feP
  x3 : l.x3 < feP
  z3 : l.z3 < feP

theorem Ladder.Reduced.swap {l : Ladder} (h : l.Reduced) : l.swap.Reduced :=
  ⟨h.x3, h.z3, h.x2, h.z2⟩

theorem ladderStep_reduced (x1 : ℕ) (l : Ladder) : (ladderStep x1 l).Reduced :=
  ⟨feMul_lt _ _, feMul_lt _ _, feMul_lt _ _, feMul_lt _ _⟩

section Casts

variable {K : Type*} [Field K] [CharP K feP]

@[simp] theorem cast_feP : (feP : K) = 0 := CharP.cast_eq_zero K feP

theorem cast_mod (n : ℕ) : ((n % feP : ℕ) : K) = n := by
  conv_rhs => rw [← Nat.mod_add_div n feP]
  rw [Nat.cast_add, Nat.cast_mul, cast_feP, zero_mul, add_zero]

theorem cast_inj {a b : ℕ} (ha : a < feP) (hb : b < feP) (h : (a : K) = b) : a = b := by
  rw [CharP.natCast_eq_natCast K feP] at h
  rwa [Nat.ModEq, Nat.mod_eq_of_lt ha, Nat.mod_eq_of_lt hb] at h

@[simp] theorem cast_feMul (a b : ℕ) : (feMul a b : K) = a * b := by
  rw [feMul, cast_mod, Nat.cast_mul]

@[simp] theorem cast_feAdd (a b : ℕ) : (feAdd a b : K) = a + b := by
  rw [feAdd, cast_mod, Nat.cast_add]

theorem cast_feSub (a : ℕ) {b : ℕ} (hb : b < feP) : (feSub a b : K) = a - b := by
  rw [feSub, cast_mod, Nat.cast_sub (by omega), Nat.cast_add, cast_feP, add_zero]

/-- The power of the exponent's high bits. -/
theorem cast_fePow (a : ℕ) {k : ℕ} (hk : k ≤ 255) :
    (fePow a k : K) = a ^ ((feP - 2) >>> (255 - k)) := by
  induction k with
  | zero =>
    have h : (feP - 2) >>> 255 = 0 := by decide
    rw [fePow, Nat.sub_zero, h, pow_zero, Nat.cast_one]
  | succ k ih =>
    have hshift : (feP - 2) >>> (255 - (k + 1)) =
        2 * ((feP - 2) >>> (255 - k)) + ((feP - 2).testBit (254 - k)).toNat := by
      rw [Nat.toNat_testBit, show 255 - k = 254 - k + 1 by omega,
        show 255 - (k + 1) = 254 - k by omega, Nat.shiftRight_succ, Nat.shiftRight_eq_div_pow]
      omega
    rw [fePow, hshift, pow_add, two_mul, pow_add, ← ih (by omega)]
    cases (feP - 2).testBit (254 - k) <;> simp

theorem cast_feInvert (a : ℕ) : (feInvert a : K) = (a : K)⁻¹ := by
  rw [feInvert, cast_fePow a le_rfl, Nat.sub_self, Nat.shiftRight_zero]
  have hcast : (a : K) = ZMod.castHom (dvd_refl feP) K a := (map_natCast _ a).symm
  rw [hcast, ← map_pow, ← map_inv₀]
  by_cases h0 : (a : ZMod feP) = 0
  · rw [h0, zero_pow (by decide), inv_zero]
  · have hfermat := ZMod.pow_card_sub_one_eq_one h0
    have hsucc : feP - 1 = feP - 2 + 1 := by decide
    rw [hsucc, pow_succ] at hfermat
    rw [eq_inv_of_mul_eq_one_left hfermat]

end Casts

end Asys
