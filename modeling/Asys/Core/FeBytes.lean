import Asys.Core.Fe
import Asys.Core.LittleEndian

/-! # fe_frombytes and fe_tobytes

    A field element comes in as 255 bits, of any value, and leaves as the one number below
    `2 ^ 255 - 19` that it stands for. -/

namespace Asys
namespace Fe

/-! ### fe_frombytes -/

/-- `fe_frombytes_mask`: the shifts are those of `u32`. -/
def fromBytesMask (s : List UInt8) (nbMask : ℕ) : Option Fe :=
  let mask := 0xffffff >>> nbMask
  feCarry {
    h0 := load32Le s 0
    h1 := u32 (load24Le s 4 <<< 6)
    h2 := u32 (load24Le s 7 <<< 5)
    h3 := u32 (load24Le s 10 <<< 3)
    h4 := u32 (load24Le s 13 <<< 2)
    h5 := load32Le s 16
    h6 := u32 (load24Le s 20 <<< 7)
    h7 := u32 (load24Le s 23 <<< 5)
    h8 := u32 (load24Le s 26 <<< 4)
    h9 := u32 ((load24Le s 29 &&& mask) <<< 2) }

/-- `fe_frombytes`. -/
def fromBytes (s : List UInt8) : Option Fe := fromBytesMask s 1

theorem u32_shiftLeft {x n m : ℕ} (hx : x < m) (hm : m * 2 ^ n ≤ 0x100000000) :
    u32 (x <<< n) = x * 2 ^ n := by
  rw [u32, Nat.shiftLeft_eq]
  exact Nat.mod_eq_of_lt ((Nat.mul_lt_mul_of_pos_right hx (Nat.two_pow_pos n)).trans_le hm)

/-- The low 255 bits of the buffer, from its words of three and four bytes. -/
theorem loadLe_words (s : List UInt8) :
    loadLe s % 2 ^ 255 = load32Le s 0 + 2 ^ 32 * load24Le s 4 + 2 ^ 56 * load24Le s 7 +
      2 ^ 80 * load24Le s 10 + 2 ^ 104 * load24Le s 13 + 2 ^ 128 * load32Le s 16 +
      2 ^ 160 * load24Le s 20 + 2 ^ 184 * load24Le s 23 + 2 ^ 208 * load24Le s 26 +
      2 ^ 232 * (load24Le s 29 % 2 ^ 23) := by
  have e0 : loadLe s = load32Le s 0 + 256 ^ 4 * loadLe (s.drop 4) := loadLe_split s 0 4
  have e1 : loadLe (s.drop 4) = load24Le s 4 + 256 ^ 3 * loadLe (s.drop 7) := loadLe_split s 4 3
  have e2 : loadLe (s.drop 7) = load24Le s 7 + 256 ^ 3 * loadLe (s.drop 10) := loadLe_split s 7 3
  have e3 : loadLe (s.drop 10) = load24Le s 10 + 256 ^ 3 * loadLe (s.drop 13) := loadLe_split s 10 3
  have e4 : loadLe (s.drop 13) = load24Le s 13 + 256 ^ 3 * loadLe (s.drop 16) := loadLe_split s 13 3
  have e5 : loadLe (s.drop 16) = load32Le s 16 + 256 ^ 4 * loadLe (s.drop 20) := loadLe_split s 16 4
  have e6 : loadLe (s.drop 20) = load24Le s 20 + 256 ^ 3 * loadLe (s.drop 23) := loadLe_split s 20 3
  have e7 : loadLe (s.drop 23) = load24Le s 23 + 256 ^ 3 * loadLe (s.drop 26) := loadLe_split s 23 3
  have e8 : loadLe (s.drop 26) = load24Le s 26 + 256 ^ 3 * loadLe (s.drop 29) := loadLe_split s 26 3
  have e9 : loadLe (s.drop 29) = load24Le s 29 + 256 ^ 3 * loadLe (s.drop 32) := loadLe_split s 29 3
  have b0 := load32Le_lt s 0
  have b1 := load24Le_lt s 4
  have b2 := load24Le_lt s 7
  have b3 := load24Le_lt s 10
  have b4 := load24Le_lt s 13
  have b5 := load32Le_lt s 16
  have b6 := load24Le_lt s 20
  have b7 := load24Le_lt s 23
  have b8 := load24Le_lt s 26
  rw [e0, e1, e2, e3, e4, e5, e6, e7, e8, e9]
  omega

theorem fromBytes_spec (s : List UInt8) :
    Returns (fromBytes s) fun h => Within tight h ∧ ∃ k, h.val = (loadLe s % 2 ^ 255 : ℕ) - k * feP := by
  have b0 := load32Le_lt s 0
  have b5 := load32Le_lt s 16
  have hlimb : ∀ {x : ℕ}, x < 0x100000000 → Limb 0x27ffffffffffffff x := fun h => ⟨by omega, by omega⟩
  have hlimb2 : ∀ {x : ℕ}, x < 0x100000000 → Limb (2 * 0x27ffffffffffffff) x :=
    fun h => ⟨by omega, by omega⟩
  have hu : ∀ x, u32 x < 0x100000000 := fun x => Nat.mod_lt _ (by decide)
  obtain ⟨h, heq, hw, k, hval⟩ := feCarry_spec (t := ⟨load32Le s 0, u32 (load24Le s 4 <<< 6),
    u32 (load24Le s 7 <<< 5), u32 (load24Le s 10 <<< 3), u32 (load24Le s 13 <<< 2), load32Le s 16,
    u32 (load24Le s 20 <<< 7), u32 (load24Le s 23 <<< 5), u32 (load24Le s 26 <<< 4),
    u32 ((load24Le s 29 &&& 0xffffff >>> 1) <<< 2)⟩)
    ⟨hlimb2 b0, hlimb (hu _), hlimb2 (hu _), hlimb (hu _), hlimb2 (hu _), hlimb b5, hlimb2 (hu _),
      hlimb (hu _), hlimb2 (hu _), hlimb (hu _)⟩
  refine ⟨h, heq, hw, k, ?_⟩
  have hmask : load24Le s 29 &&& 0xffffff >>> 1 = load24Le s 29 % 2 ^ 23 :=
    Nat.and_two_pow_sub_one_eq_mod _ 23
  have hshift : ∀ i n, 0x1000000 * 2 ^ n ≤ 0x100000000 →
      u32 (load24Le s i <<< n) = load24Le s i * 2 ^ n := fun i n hn => u32_shiftLeft (load24Le_lt s i) hn
  rw [hval, loadLe_words, hmask,
    u32_shiftLeft (m := 2 ^ 23) (Nat.mod_lt _ (by decide)) (by decide)]
  simp only [val, hshift _ 6 (by decide), hshift _ 5 (by decide), hshift _ 3 (by decide),
    hshift _ 2 (by decide), hshift _ 7 (by decide), hshift _ 4 (by decide)]
  push_cast
  ring

/-! ### fe_tobytes -/

/-- One turn of the first loop: the carry goes over two limbs. -/
def signCarry (q even odd : ℤ) : Option ℤ := do
  let q ← i32 (q + even)
  let q ← i32 (q / 2 ^ 26 + odd)
  return q / 2 ^ 25

/-- One turn of the second loop: two limbs come into their range. -/
def reducePair (q even odd : ℤ) : Option (ℤ × ℤ × ℤ) := do
  let even ← i32 (even + q)
  let q := even / 2 ^ 26
  let even ← i32 (even - (← i32 (q * 2 ^ 26)))
  let odd ← i32 (odd + q)
  let q := odd / 2 ^ 25
  let odd ← i32 (odd - (← i32 (q * 2 ^ 25)))
  return (q, even, odd)

/-- The cast of an `i32` to `u32`. -/
def toU32 (x : ℤ) : ℕ := (x % 0x100000000).toNat

/-- Two limbs in one word, from a bit of the first on. -/
def word (lo : ℤ) (r : ℕ) (hi : ℤ) (l : ℕ) : ℕ := (toU32 lo >>> r) ||| u32 (toU32 hi <<< l)

/-- The eight words of `fe_tobytes`. -/
def words (t : Fe) : List ℕ :=
  [word t.h0 0 t.h1 26, word t.h1 6 t.h2 19, word t.h2 13 t.h3 13, word t.h3 19 t.h4 6,
    word t.h5 0 t.h6 25, word t.h6 7 t.h7 19, word t.h7 13 t.h8 12, word t.h8 20 t.h9 6]

/-- The two loops of `fe_tobytes`. -/
def reduce (t : Fe) : Option Fe := do
  let q ← i32 ((← i32 (19 * t.h9)) + 2 ^ 24)
  let q ← signCarry (q / 2 ^ 25) t.h0 t.h1
  let q ← signCarry q t.h2 t.h3
  let q ← signCarry q t.h4 t.h5
  let q ← signCarry q t.h6 t.h7
  let q ← signCarry q t.h8 t.h9
  let q ← i32 (q * 19)
  let (q, t0, t1) ← reducePair q t.h0 t.h1
  let (q, t2, t3) ← reducePair q t.h2 t.h3
  let (q, t4, t5) ← reducePair q t.h4 t.h5
  let (q, t6, t7) ← reducePair q t.h6 t.h7
  let (_, t8, t9) ← reducePair q t.h8 t.h9
  return ⟨t0, t1, t2, t3, t4, t5, t6, t7, t8, t9⟩

/-- `fe_tobytes`. -/
def toBytes (h : Fe) : Option (List UInt8) := do
  return (← h.reduce).words.flatMap (storeLe 4)

theorem signCarry_eq {q even odd : ℤ} (hq : Limb 0x1000 q) (he : Limb (2 * tight) even)
    (ho : Limb tight odd) :
    Returns (signCarry q even odd) fun r => Limb 0x1000 r ∧
      2 ^ 51 * r ≤ q + even + 2 ^ 26 * odd ∧ q + even + 2 ^ 26 * odd < 2 ^ 51 * r + 2 ^ 51 := by
  obtain ⟨h1, h2⟩ := hq
  obtain ⟨h3, h4⟩ := he
  obtain ⟨h5, h6⟩ := ho
  simp only [tight] at h3 h4 h5 h6
  have e1 : i32 (q + even) = some (q + even) := if_pos ⟨by omega, by omega⟩
  have e2 : i32 ((q + even) / 2 ^ 26 + odd) = some ((q + even) / 2 ^ 26 + odd) :=
    if_pos ⟨by omega, by omega⟩
  refine ⟨((q + even) / 2 ^ 26 + odd) / 2 ^ 25, ?_, ⟨by omega, by omega⟩, by omega, by omega⟩
  simp only [signCarry, e1, e2, Option.bind_eq_bind, Option.bind_some]
  rfl

/-- The limbs of two in their range. -/
structure Reduced2 (even odd : ℤ) : Prop where
  even_nonneg : 0 ≤ even
  even_lt : even < 2 ^ 26
  odd_nonneg : 0 ≤ odd
  odd_lt : odd < 2 ^ 25

theorem reducePair_eq {q even odd : ℤ} (hq : Limb 0x1000 q) (he : Limb (2 * tight) even)
    (ho : Limb tight odd) :
    ∃ r even' odd', reducePair q even odd = some (r, even', odd') ∧ Limb 0x1000 r ∧
      Reduced2 even' odd' ∧ even' + 2 ^ 26 * odd' + 2 ^ 51 * r = q + even + 2 ^ 26 * odd := by
  obtain ⟨h1, h2⟩ := hq
  obtain ⟨h3, h4⟩ := he
  obtain ⟨h5, h6⟩ := ho
  simp only [tight] at h3 h4 h5 h6
  generalize hc : (even + q) / 2 ^ 26 = c
  generalize hr : (odd + c) / 2 ^ 25 = r
  have e1 : i32 (even + q) = some _ := if_pos ⟨by omega, by omega⟩
  have e2 : i32 (c * 2 ^ 26) = some _ := if_pos ⟨by omega, by omega⟩
  have e3 : i32 (even + q - c * 2 ^ 26) = some _ := if_pos ⟨by omega, by omega⟩
  have e4 : i32 (odd + c) = some _ := if_pos ⟨by omega, by omega⟩
  have e5 : i32 (r * 2 ^ 25) = some _ := if_pos ⟨by omega, by omega⟩
  have e6 : i32 (odd + c - r * 2 ^ 25) = some _ := if_pos ⟨by omega, by omega⟩
  refine ⟨r, even + q - c * 2 ^ 26, odd + c - r * 2 ^ 25, ?_, ⟨by omega, by omega⟩,
    ⟨by omega, by omega, by omega, by omega⟩, by ring⟩
  simp only [reducePair, e1, hc, e2, e3, e4, hr, e5, e6, Option.bind_eq_bind, Option.bind_some]
  rfl

/-- What the first loop finds: `0` or `-1`, the sign of the value. -/
theorem sign_eq {h : Fe} (hh : Within tight h) {q : ℤ}
    (hlo : 2 ^ 255 * q ≤ (19 * h.h9 + 2 ^ 24) / 2 ^ 25 + h.val)
    (hhi : (19 * h.h9 + 2 ^ 24) / 2 ^ 25 + h.val < 2 ^ 255 * q + 2 ^ 255) :
    (q = 0 ∨ q = -1) ∧ h.val % feP = h.val - q * feP := by
  obtain ⟨⟨a0, b0⟩, ⟨a1, b1⟩, ⟨a2, b2⟩, ⟨a3, b3⟩, ⟨a4, b4⟩, ⟨a5, b5⟩, ⟨a6, b6⟩, ⟨a7, b7⟩, ⟨a8, b8⟩,
    ⟨a9, b9⟩⟩ := hh
  simp only [tight] at *
  -- the limbs below the last are worth less than two units of it
  have hlast : -2 ^ 231 < h.val - 2 ^ 230 * h.h9 ∧ h.val - 2 ^ 230 * h.h9 < 2 ^ 231 := by
    simp only [val]
    exact ⟨by omega, by omega⟩
  have hp : (feP : ℤ) = 2 ^ 255 - 19 := by decide
  rw [hp]
  generalize h.val = v at *
  clear a0 b0 a1 b1 a2 b2 a3 b3 a4 b4 a5 b5 a6 b6 a7 b7 a8 b8
  have hq : q = 0 ∨ q = -1 := by omega
  refine ⟨hq, ?_⟩
  rcases hq with rfl | rfl
  · rw [zero_mul, sub_zero]
    exact Int.emod_eq_of_lt (by omega) (by omega)
  · omega

theorem val_range {t : Fe} (n0 : Reduced2 t.h0 t.h1) (n1 : Reduced2 t.h2 t.h3)
    (n2 : Reduced2 t.h4 t.h5) (n3 : Reduced2 t.h6 t.h7) (n4 : Reduced2 t.h8 t.h9) :
    0 ≤ t.val ∧ t.val < 2 ^ 255 := by
  obtain ⟨a0, b0, a1, b1⟩ := n0
  obtain ⟨a2, b2, a3, b3⟩ := n1
  obtain ⟨a4, b4, a5, b5⟩ := n2
  obtain ⟨a6, b6, a7, b7⟩ := n3
  obtain ⟨a8, b8, a9, b9⟩ := n4
  simp only [val]
  exact ⟨by omega, by omega⟩

/-- The limbs are the digits of the value, the least that stands for the element. -/
theorem reduce_spec {h : Fe} (hh : Within tight h) :
    Returns h.reduce fun t => Reduced2 t.h0 t.h1 ∧ Reduced2 t.h2 t.h3 ∧ Reduced2 t.h4 t.h5 ∧
      Reduced2 t.h6 t.h7 ∧ Reduced2 t.h8 t.h9 ∧ t.val = h.val % feP := by
  obtain ⟨hq, e19, e24⟩ : Limb 0x1000 ((19 * h.h9 + 2 ^ 24) / 2 ^ 25) ∧
      i32 (19 * h.h9) = some (19 * h.h9) ∧ i32 (19 * h.h9 + 2 ^ 24) = some (19 * h.h9 + 2 ^ 24) := by
    obtain ⟨l9, u9⟩ := hh.h9
    simp only [tight] at l9 u9
    exact ⟨⟨by omega, by omega⟩, if_pos ⟨by omega, by omega⟩, if_pos ⟨by omega, by omega⟩⟩
  obtain ⟨q0, s0, b0, l0, u0⟩ := signCarry_eq hq hh.h0 hh.h1
  obtain ⟨q1, s1, b1, l1, u1⟩ := signCarry_eq b0 hh.h2 hh.h3
  obtain ⟨q2, s2, b2, l2, u2⟩ := signCarry_eq b1 hh.h4 hh.h5
  obtain ⟨q3, s3, b3, l3, u3⟩ := signCarry_eq b2 hh.h6 hh.h7
  obtain ⟨q, s4, -, l4, u4⟩ := signCarry_eq b3 hh.h8 hh.h9
  obtain ⟨hsign, hmod⟩ := sign_eq (q := q) hh (by rw [val]; omega) (by rw [val]; omega)
  have h19 : Limb 0x1000 (q * 19) := by rcases hsign with rfl | rfl <;> exact ⟨by decide, by decide⟩
  obtain ⟨r0, t0, t1, d0, c0, n0, v0⟩ := reducePair_eq h19 hh.h0 hh.h1
  obtain ⟨r1, t2, t3, d1, c1, n1, v1⟩ := reducePair_eq c0 hh.h2 hh.h3
  obtain ⟨r2, t4, t5, d2, c2, n2, v2⟩ := reducePair_eq c1 hh.h4 hh.h5
  obtain ⟨r3, t6, t7, d3, c3, n3, v3⟩ := reducePair_eq c2 hh.h6 hh.h7
  obtain ⟨r4, t8, t9, d4, -, n4, v4⟩ := reducePair_eq c3 hh.h8 hh.h9
  refine ⟨⟨t0, t1, t2, t3, t4, t5, t6, t7, t8, t9⟩, ?_, n0, n1, n2, n3, n4, ?_⟩
  · simp only [reduce, e19, e24, s0, s1, s2, s3, s4, i32_eq h19 (by decide), d0, d1, d2, d3, d4,
      Option.bind_eq_bind, Option.bind_some]
    rfl
  · have hsum : (⟨t0, t1, t2, t3, t4, t5, t6, t7, t8, t9⟩ : Fe).val + 2 ^ 255 * r4 = q * 19 + h.val := by
      simp only [val]
      omega
    have hrange := val_range (t := ⟨t0, t1, t2, t3, t4, t5, t6, t7, t8, t9⟩) n0 n1 n2 n3 n4
    have hpos := Int.emod_nonneg h.val (by decide : (feP : ℤ) ≠ 0)
    have hlt := Int.emod_lt_of_pos h.val (by decide : (0 : ℤ) < feP)
    have hp : (feP : ℤ) = 2 ^ 255 - 19 := by decide
    rw [hp] at hmod hpos hlt ⊢
    omega

/-! ### The bytes -/

theorem toU32_natCast {n : ℕ} (hn : n < 2 ^ 32) : toU32 n = n := by
  have h : (n : ℤ) % 0x100000000 = n := Int.emod_eq_of_lt (by omega) (by omega)
  rw [toU32, h, Int.toNat_natCast]

theorem word_eq {a b r l m : ℕ} (ha : a < 2 ^ 32) (hb : b < 2 ^ 32) (hal : a / 2 ^ r < 2 ^ l)
    (hm : l + m = 32) : word a r b l = a / 2 ^ r + 2 ^ l * (b % 2 ^ m) := by
  have hshift : u32 (b <<< l) = 2 ^ l * (b % 2 ^ m) := by
    have h32 : 0x100000000 = 2 ^ l * 2 ^ m := by
      rw [← pow_add, hm]
      rfl
    rw [u32, Nat.shiftLeft_eq, h32, mul_comm b, Nat.mul_mod_mul_left]
  rw [word, toU32_natCast ha, toU32_natCast hb, hshift, Nat.shiftRight_eq_div_pow, Nat.or_comm,
    ← Nat.two_pow_add_eq_or_of_lt hal, add_comm]

/-- The words of limbs in their range are the words of the value. -/
theorem words_val {t : Fe} (n0 : Reduced2 t.h0 t.h1) (n1 : Reduced2 t.h2 t.h3)
    (n2 : Reduced2 t.h4 t.h5) (n3 : Reduced2 t.h6 t.h7) (n4 : Reduced2 t.h8 t.h9) :
    (loadLe (t.words.flatMap (storeLe 4)) : ℤ) = t.val := by
  obtain ⟨t0, t1, t2, t3, t4, t5, t6, t7, t8, t9⟩ := t
  obtain ⟨a0, b0, a1, b1⟩ := n0
  obtain ⟨a2, b2, a3, b3⟩ := n1
  obtain ⟨a4, b4, a5, b5⟩ := n2
  obtain ⟨a6, b6, a7, b7⟩ := n3
  obtain ⟨a8, b8, a9, b9⟩ := n4
  lift t0 to ℕ using a0
  lift t1 to ℕ using a1
  lift t2 to ℕ using a2
  lift t3 to ℕ using a3
  lift t4 to ℕ using a4
  lift t5 to ℕ using a5
  lift t6 to ℕ using a6
  lift t7 to ℕ using a7
  lift t8 to ℕ using a8
  lift t9 to ℕ using a9
  dsimp only at *
  rw [words, word_eq (m := 6) (by omega) (by omega) (by omega) rfl,
    word_eq (m := 13) (by omega) (by omega) (by omega) rfl,
    word_eq (m := 19) (by omega) (by omega) (by omega) rfl,
    word_eq (m := 26) (by omega) (by omega) (by omega) rfl,
    word_eq (m := 7) (by omega) (by omega) (by omega) rfl,
    word_eq (m := 13) (by omega) (by omega) (by omega) rfl,
    word_eq (m := 20) (by omega) (by omega) (by omega) rfl,
    word_eq (m := 26) (by omega) (by omega) (by omega) rfl]
  rw [loadLe_flatMap]
  simp only [List.foldr_cons, List.foldr_nil, val]
  omega

/-- CORRECT: what leaves is the number below the prime that the limbs stand for. -/
theorem toBytes_spec {h : Fe} (hh : Within tight h) :
    h.toBytes = some (storeLe 32 (h.val % feP).toNat) := by
  obtain ⟨t, heq, n0, n1, n2, n3, n4, hval⟩ := reduce_spec hh
  have hbytes := words_val n0 n1 n2 n3 n4
  rw [toBytes, heq]
  refine congrArg some (eq_storeLe (by simp [words]) ?_)
  rw [← hval, ← hbytes, Int.toNat_natCast]

/-- CORRECT: bytes read and written again are those of the number below the prime, without the top
    bit; and two elements are written alike exactly when they are the same modulo the prime. -/
theorem bytes_canonical :
    (∀ s : List UInt8, (fromBytes s).bind toBytes = some (storeLe 32 (loadLe s % 2 ^ 255 % feP))) ∧
      ∀ f g : Fe, Within tight f → Within tight g →
        ∃ bs cs, f.toBytes = some bs ∧ g.toBytes = some cs ∧ loadLe bs < feP ∧
          (bs = cs ↔ f.val % feP = g.val % feP) := by
  have hpos : (0 : ℤ) < feP := by decide
  have hlt : ∀ x : ℤ, (x % feP).toNat < feP := fun x => by
    have hx := Int.emod_lt_of_pos x hpos
    have h0 := Int.emod_nonneg x hpos.ne'
    omega
  have hfits : ∀ {n : ℕ}, n < feP → loadLe (storeLe 32 n) = n := fun h => by
    rw [loadLe_storeLe, Nat.mod_eq_of_lt (h.trans (by decide))]
  refine ⟨fun s => ?_, fun f g hf hg => ⟨_, _, toBytes_spec hf, toBytes_spec hg, ?_, ?_⟩⟩
  · obtain ⟨h, heq, hw, k, hval⟩ := fromBytes_spec s
    rw [heq, Option.bind_some, toBytes_spec hw, hval, Int.sub_mul_emod_self_right, ← Int.natCast_emod,
      Int.toNat_natCast]
  · rw [hfits (hlt _)]
    exact hlt _
  · constructor
    · intro h
      have hnum := congrArg loadLe h
      rw [hfits (hlt _), hfits (hlt _)] at hnum
      have hf0 := Int.emod_nonneg f.val hpos.ne'
      have hg0 := Int.emod_nonneg g.val hpos.ne'
      omega
    · intro h
      rw [h]

/-- `2^254`, and `2^254` without the prime: two elements that differ in two limbs, one number. -/
theorem bytes_canonical_halves :
    ∃ bs, (⟨0, 0, 0, 0, 0, 0, 0, 0, 0, 2 ^ 24⟩ : Fe).toBytes = some bs ∧
      (⟨19, 0, 0, 0, 0, 0, 0, 0, 0, -2 ^ 24⟩ : Fe).toBytes = some bs ∧ loadLe bs < feP := by
  have hwithin : Within tight ⟨0, 0, 0, 0, 0, 0, 0, 0, 0, 2 ^ 24⟩ ∧
      Within tight ⟨19, 0, 0, 0, 0, 0, 0, 0, 0, -2 ^ 24⟩ := by
    constructor <;> constructor <;> exact ⟨by decide, by decide⟩
  obtain ⟨bs, cs, hf, hg, hlt, hiff⟩ := bytes_canonical.2 _ _ hwithin.1 hwithin.2
  obtain rfl := hiff.mpr (by decide)
  exact ⟨bs, hf, hg, hlt⟩

end Fe

end Asys
