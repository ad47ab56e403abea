import Asys.Core.LittleEndian

/-! # crypto_verify16 and crypto_verify32

    Two buffers are compared without a branch: the differences of their words are gathered, and
    what is gathered is brought down to `0` or `-1`. -/

namespace Asys

/-- `neq0`: the subtraction is that of `u64`. -/
def neq0 (diff : ℕ) : ℤ :=
  let half := diff >>> 32 ||| u32 diff
  ((1 &&& (u64 (half + 0xffffffffffffffff) >>> 32) : ℕ) : ℤ) - 1

def x16 (a b : List UInt8) : ℕ :=
  (loadWord 8 a 0 ^^^ loadWord 8 b 0) ||| (loadWord 8 a 1 ^^^ loadWord 8 b 1)

def x32 (a b : List UInt8) : ℕ := x16 a b ||| x16 (a.drop 16) (b.drop 16)

def cryptoVerify16 (a b : List UInt8) : ℤ := neq0 (x16 a b)
def cryptoVerify32 (a b : List UInt8) : ℤ := neq0 (x32 a b)

theorem or_eq_zero {x y : ℕ} : x ||| y = 0 ↔ x = 0 ∧ y = 0 := by
  refine ⟨fun h => ?_, fun ⟨hx, hy⟩ => by rw [hx, hy]; rfl⟩
  have hx := Nat.left_le_or (n := x) (m := y)
  have hy := Nat.right_le_or (n := x) (m := y)
  omega

theorem xor_eq_zero {x y : ℕ} : x ^^^ y = 0 ↔ x = y := by
  refine ⟨fun h => ?_, fun h => by rw [h, Nat.xor_self]⟩
  calc x = x ^^^ y ^^^ y := by rw [Nat.xor_assoc, Nat.xor_self, Nat.xor_zero]
    _ = y := by rw [h, Nat.zero_xor]

theorem neq0_eq {diff : ℕ} (h : diff < 2 ^ 64) : neq0 diff = if diff = 0 then 0 else -1 := by
  have hhalf : diff >>> 32 ||| u32 diff < 2 ^ 32 := by
    refine Nat.or_lt_two_pow ?_ (Nat.mod_lt _ (by decide))
    rw [Nat.shiftRight_eq_div_pow]
    omega
  have hzero : diff >>> 32 ||| u32 diff = 0 ↔ diff = 0 := by
    rw [or_eq_zero, Nat.shiftRight_eq_div_pow, u32]
    omega
  rw [neq0]
  generalize diff >>> 32 ||| u32 diff = half at hhalf hzero ⊢
  by_cases h0 : half = 0
  · rw [if_pos (hzero.mp h0), h0]
    decide
  · rw [if_neg (mt hzero.mpr h0)]
    have hwrap : u64 (half + 0xffffffffffffffff) >>> 32 = 0 := by
      rw [u64, Nat.shiftRight_eq_div_pow]
      omega
    rw [hwrap]
    decide

theorem loadWord_lt (w : ℕ) (bs : List UInt8) (i : ℕ) : loadWord w bs i < 256 ^ w := by
  refine (loadLe_lt _).trans_le (Nat.pow_le_pow_right (by decide) ?_)
  rw [List.length_take]
  exact min_le_left _ _

theorem x16_lt (a b : List UInt8) : x16 a b < 2 ^ 64 :=
  Nat.or_lt_two_pow (Nat.xor_lt_two_pow (loadWord_lt 8 _ _) (loadWord_lt 8 _ _))
    (Nat.xor_lt_two_pow (loadWord_lt 8 _ _) (loadWord_lt 8 _ _))

theorem x32_lt (a b : List UInt8) : x32 a b < 2 ^ 64 :=
  Nat.or_lt_two_pow (x16_lt _ _) (x16_lt _ _)

theorem loadWord_eq_iff {w i : ℕ} {a b : List UInt8} (hlen : a.length = b.length) :
    loadWord w a i = loadWord w b i ↔ (a.drop (w * i)).take w = (b.drop (w * i)).take w := by
  refine ⟨fun h => loadLe_inj ?_ h, fun h => by rw [loadWord, h]; rfl⟩
  simp [hlen]

/-- Two pieces of equal buffers, one after the other. -/
theorem take_eq_iff {a b : List UInt8} (hlen : a.length = b.length) (m n : ℕ) :
    (a.take m = b.take m ∧ (a.drop m).take n = (b.drop m).take n) ↔
      a.take (m + n) = b.take (m + n) := by
  rw [List.take_add, List.take_add]
  refine ⟨fun ⟨h1, h2⟩ => by rw [h1, h2], fun h => List.append_inj h ?_⟩
  simp [hlen]

theorem x16_eq_zero {a b : List UInt8} (hlen : a.length = b.length) :
    x16 a b = 0 ↔ a.take 16 = b.take 16 := by
  rw [x16, or_eq_zero, xor_eq_zero, xor_eq_zero, loadWord_eq_iff hlen, loadWord_eq_iff hlen]
  exact take_eq_iff hlen 8 8

theorem x32_eq_zero {a b : List UInt8} (hlen : a.length = b.length) :
    x32 a b = 0 ↔ a.take 32 = b.take 32 := by
  rw [x32, or_eq_zero, x16_eq_zero hlen, x16_eq_zero (by simp [hlen])]
  exact take_eq_iff hlen 16 16

/-- CORRECT: `crypto_verify16` accepts equal buffers alone. -/
theorem cryptoVerify16_eq {a b : List UInt8} (ha : a.length = 16) (hb : b.length = 16) :
    cryptoVerify16 a b = if a = b then 0 else -1 := by
  have h := x16_eq_zero (ha.trans hb.symm)
  rw [List.take_of_length_le ha.le, List.take_of_length_le hb.le] at h
  rw [cryptoVerify16, neq0_eq (x16_lt a b)]
  exact if_congr h rfl rfl

/-- CORRECT: and so does `crypto_verify32`. -/
theorem cryptoVerify32_eq {a b : List UInt8} (ha : a.length = 32) (hb : b.length = 32) :
    cryptoVerify32 a b = if a = b then 0 else -1 := by
  have h := x32_eq_zero (ha.trans hb.symm)
  rw [List.take_of_length_le ha.le, List.take_of_length_le hb.le] at h
  rw [cryptoVerify32, neq0_eq (x32_lt a b)]
  exact if_congr h rfl rfl

/-- CORRECT: on buffers of its size each of the two comparisons gives 0 when they are equal and -1
    otherwise, whatever the words in them. -/
theorem cryptoVerify_exact {a b : List UInt8} (hlen : a.length = b.length) :
    (a.length = 16 → cryptoVerify16 a b = if a = b then 0 else -1) ∧
      (a.length = 32 → cryptoVerify32 a b = if a = b then 0 else -1) :=
  ⟨fun ha => cryptoVerify16_eq ha (hlen ▸ ha), fun ha => cryptoVerify32_eq ha (hlen ▸ ha)⟩

theorem cryptoVerify16_lastBit :
    cryptoVerify16 (List.replicate 16 0) (List.replicate 15 0 ++ [0x80]) = -1 :=
  ((cryptoVerify_exact (a := List.replicate 16 0) (b := List.replicate 15 0 ++ [0x80]) rfl).1 rfl).trans
    (if_neg (by decide))

end Asys
