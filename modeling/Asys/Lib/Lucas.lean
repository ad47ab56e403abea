import Mathlib.Data.List.Prime
import Mathlib.NumberTheory.LucasPrimality

/-! # Primes by the test of Lucas

    A number with all prime factors of its predecessor known is prime when some witness has the
    predecessor as its order. The powers are taken by squaring, so that the test runs in the kernel
    for numbers of hundreds of bits. -/

namespace Lucas

/-- `a ^ e` modulo `m`, for an exponent of at most `k` bits. -/
def powMod (m a : ℕ) : ℕ → ℕ → ℕ
  | 0, _ => 1 % m
  | k + 1, e =>
    let s := powMod m a k (e / 2)
    if e % 2 = 1 then s * s % m * a % m else s * s % m

theorem powMod_lt {m : ℕ} (hm : 0 < m) (a k e : ℕ) : powMod m a k e < m := by
  cases k with
  | zero => exact Nat.mod_lt _ hm
  | succ k =>
    rw [powMod]
    split <;> exact Nat.mod_lt _ hm

theorem powMod_cast (m a k : ℕ) {e : ℕ} (he : e < 2 ^ k) :
    (powMod m a k e : ZMod m) = (a : ZMod m) ^ e := by
  induction k generalizing e with
  | zero =>
    obtain rfl : e = 0 := by simpa using he
    simp [powMod]
  | succ k ih =>
    have hhalf := ih (e := e / 2) (by rw [pow_succ] at he; omega)
    have hsq : (a : ZMod m) ^ (2 * (e / 2)) = (a : ZMod m) ^ (e / 2) * (a : ZMod m) ^ (e / 2) := by
      rw [two_mul, pow_add]
    rw [powMod]
    by_cases hodd : e % 2 = 1
    · have heq : e = 2 * (e / 2) + 1 := by omega
      simp only [if_pos hodd, ZMod.natCast_mod, Nat.cast_mul, hhalf]
      rw [← hsq, ← pow_succ, ← heq]
    · have heq : e = 2 * (e / 2) := by omega
      simp only [if_neg hodd, ZMod.natCast_mod, Nat.cast_mul, hhalf]
      rw [← hsq, ← heq]

/-- The order of `a` modulo `p` is `p - 1`, whose prime factors are those of the list. -/
def test (p a k : ℕ) (factors : List ℕ) : Bool :=
  decide (1 < p ∧ p ≤ 2 ^ k ∧ factors.prod = p - 1 ∧ powMod p a k (p - 1) = 1 ∧
    ∀ q ∈ factors, powMod p a k ((p - 1) / q) ≠ 1)

/-- CORRECT: a number that passes with prime factors is prime. -/
theorem prime_of_test {p : ℕ} (a k : ℕ) (factors : List ℕ) (hfactors : ∀ q ∈ factors, q.Prime)
    (h : test p a k factors = true) : p.Prime := by
  obtain ⟨hp, hk, hprod, hone, hne⟩ := of_decide_eq_true h
  have hpow : ∀ e ≤ p - 1, powMod p a k e = 1 ↔ (a : ZMod p) ^ e = 1 := by
    intro e he
    have hlt := powMod_lt (by omega : 0 < p) a k e
    have hcast : (powMod p a k e : ZMod p) = (1 : ℕ) ↔ powMod p a k e = 1 := by
      rw [ZMod.natCast_eq_natCast_iff', Nat.mod_eq_of_lt hlt, Nat.mod_eq_of_lt hp]
    rw [← powMod_cast p a k (by omega : e < 2 ^ k), ← hcast, Nat.cast_one]
  refine lucas_primality p (a : ZMod p) ((hpow _ le_rfl).mp hone) ?_
  intro q hq hdvd hcontra
  rw [← hprod] at hdvd
  obtain ⟨r, hr, hqr⟩ := (Nat.Prime.prime hq).dvd_prod_iff.mp hdvd
  obtain rfl := (Nat.prime_dvd_prime_iff_eq hq (hfactors r hr)).mp hqr
  exact hne q hr ((hpow _ (Nat.div_le_self _ _)).mpr hcontra)

end Lucas
