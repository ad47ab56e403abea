import Asys.Core.LittleEndian
import Asys.Lib.Blocks
import Mathlib.Data.Nat.ModEq

/-! # Poly1305 in words of 32 bits

    The hash of the source is five words that are not quite reduced, and its input comes in pieces
    of any size. Whatever the pieces, what `crypto_poly1305_final` stores is the MAC of the message
    that they make up. -/

namespace Asys

/-- The five words of the hash. -/
structure PolyHash where
  h0 : ℕ
  h1 : ℕ
  h2 : ℕ
  h3 : ℕ
  h4 : ℕ

/-- The four words of the multiplier, and those of the pad. -/
structure PolyKey where
  r0 : ℕ
  r1 : ℕ
  r2 : ℕ
  r3 : ℕ

/-- `crypto_poly1305_ctx`, with the first `c_idx` bytes of the buffer. -/
structure Poly1305Ctx where
  c : List UInt8
  r : PolyKey
  pad : PolyKey
  h : PolyHash

namespace PolyHash

def val (h : PolyHash) : ℕ := h.h0 + 2 ^ 32 * h.h1 + 2 ^ 64 * h.h2 + 2 ^ 96 * h.h3 + 2 ^ 128 * h.h4

/-- `h <= 4_ffffffff_ffffffff_ffffffff_ffffffff`. -/
structure Bounded (h : PolyHash) : Prop where
  h0 : h.h0 < 2 ^ 32
  h1 : h.h1 < 2 ^ 32
  h2 : h.h2 < 2 ^ 32
  h3 : h.h3 < 2 ^ 32
  h4 : h.h4 ≤ 4

end PolyHash

namespace PolyKey

def val (r : PolyKey) : ℕ := r.r0 + 2 ^ 32 * r.r1 + 2 ^ 64 * r.r2 + 2 ^ 96 * r.r3

/-- `r <= 0ffffffc_0ffffffc_0ffffffc_0fffffff`, with the bits that are cleared. -/
structure Clamped (r : PolyKey) : Prop where
  r0 : r.r0 < 2 ^ 28
  r1 : r.r1 < 2 ^ 28
  r2 : r.r2 < 2 ^ 28
  r3 : r.r3 < 2 ^ 28
  r1_mod : r.r1 % 4 = 0
  r2_mod : r.r2 % 4 = 0
  r3_mod : r.r3 % 4 = 0

end PolyKey

/-- The partial reduction at the end of the loop of `poly_blocks`. -/
def polyReduce (x0 x1 x2 x3 x4 : ℕ) : PolyHash :=
  let u5 := u32 (x4 + (x3 >>> 32))
  let u0 := u64 (u32 ((u5 >>> 2) * 5) + (x0 &&& 0xffffffff))
  let u1 := u64 ((u0 >>> 32) + (x1 &&& 0xffffffff) + (x0 >>> 32))
  let u2 := u64 ((u1 >>> 32) + (x2 &&& 0xffffffff) + (x1 >>> 32))
  let u3 := u64 ((u2 >>> 32) + (x3 &&& 0xffffffff) + (x2 >>> 32))
  let u4 := u32 ((u3 >>> 32) + (u5 &&& 3))
  ⟨u0 &&& 0xffffffff, u1 &&& 0xffffffff, u2 &&& 0xffffffff, u3 &&& 0xffffffff, u4⟩

/-- The body of the loop of `poly_blocks`. -/
def polyBlock (r : PolyKey) (bit : ℕ) (h : PolyHash) (c : List UInt8) : PolyHash :=
  let rr0 := u32 ((r.r0 >>> 2) * 5)
  let rr1 := u32 ((r.r1 >>> 2) + r.r1)
  let rr2 := u32 ((r.r2 >>> 2) + r.r2)
  let rr3 := u32 ((r.r3 >>> 2) + r.r3)
  let rr4 := r.r0 &&& 3
  let s0 := u64 (h.h0 + load32Le c 0)
  let s1 := u64 (h.h1 + load32Le c 4)
  let s2 := u64 (h.h2 + load32Le c 8)
  let s3 := u64 (h.h3 + load32Le c 12)
  let s4 := u32 (h.h4 + bit)
  -- the last product of each sum is one of 32 bits
  polyReduce (u64 (s0 * r.r0 + s1 * rr3 + s2 * rr2 + s3 * rr1 + u32 (s4 * rr0)))
    (u64 (s0 * r.r1 + s1 * r.r0 + s2 * rr3 + s3 * rr2 + u32 (s4 * rr1)))
    (u64 (s0 * r.r2 + s1 * r.r1 + s2 * r.r0 + s3 * rr3 + u32 (s4 * rr2)))
    (u64 (s0 * r.r3 + s1 * r.r2 + s2 * r.r1 + s3 * r.r0 + u32 (s4 * rr3)))
    (u32 (s4 * rr4))

namespace Poly1305Ctx

/-- `poly_blocks`. -/
def polyBlocks (ctx : Poly1305Ctx) (message : List UInt8) (nbBlocks bit : ℕ) : Poly1305Ctx :=
  { ctx with h := Blocks.blocks 16 (polyBlock ctx.r bit) nbBlocks ctx.h message }

/-- Four words of a key. -/
def loadKey (key : List UInt8) : PolyKey :=
  ⟨load32Le key 0, load32Le key 4, load32Le key 8, load32Le key 12⟩

/-- `crypto_poly1305_init`. -/
def init (key : List UInt8) : Poly1305Ctx where
  c := []
  r :=
    let r := loadKey key
    ⟨r.r0 &&& 0x0fffffff, r.r1 &&& 0x0ffffffc, r.r2 &&& 0x0ffffffc, r.r3 &&& 0x0ffffffc⟩
  pad := loadKey (key.drop 16)
  h := ⟨0, 0, 0, 0, 0⟩

/-- `crypto_poly1305_update`. -/
def update (ctx : Poly1305Ctx) (message : List UInt8) : Poly1305Ctx :=
  if message.length = 0 then ctx
  else
    let aligned := min (gap ctx.c.length 16) message.length
    let ctx := { ctx with c := ctx.c ++ message.take aligned }
    let message := message.drop aligned
    let ctx := if ctx.c.length = 16 then { ctx.polyBlocks ctx.c 1 1 with c := [] } else ctx
    let nbBlocks := message.length >>> 4
    let ctx := ctx.polyBlocks message nbBlocks 1
    { ctx with c := ctx.c ++ message.drop (nbBlocks <<< 4) }

/-- The second half of `crypto_poly1305_final`: the check whether to subtract the prime, and the
    pad. -/
def finish (h : PolyHash) (pad : PolyKey) : List UInt8 :=
  let c := u64 (5 + h.h0) >>> 32
  let c := u64 (c + h.h1) >>> 32
  let c := u64 (c + h.h2) >>> 32
  let c := u64 (c + h.h3) >>> 32
  let c := u64 (c + h.h4)
  let c := u64 ((c >>> 2) * 5)
  let c0 := u64 (c + u64 (h.h0 + pad.r0))
  let c1 := u64 ((c0 >>> 32) + u64 (h.h1 + pad.r1))
  let c2 := u64 ((c1 >>> 32) + u64 (h.h2 + pad.r2))
  let c3 := u64 ((c2 >>> 32) + u64 (h.h3 + pad.r3))
  storeLe 4 (u32 c0) ++ storeLe 4 (u32 c1) ++ storeLe 4 (u32 c2) ++ storeLe 4 (u32 c3)

/-- `crypto_poly1305_final`. -/
def final (ctx : Poly1305Ctx) : List UInt8 :=
  let ctx :=
    if ctx.c.length ≠ 0 then
      ctx.polyBlocks (ctx.c ++ [1] ++ List.replicate (15 - ctx.c.length) 0) 1 0
    else ctx
  finish ctx.h ctx.pad

end Poly1305Ctx

/-! ### The block -/

/-- The prime of Poly1305. -/
def polyP : ℕ := 2 ^ 130 - 5

theorem modEq_of_eq_add {a b k : ℕ} (h : a = b + polyP * k) : a ≡ b [MOD polyP] := by
  rw [h, Nat.ModEq, Nat.add_mul_mod_self_left]

/-- The limbs of `s * r` before the reduction, with `2 ^ 130` as 5. -/
theorem poly_product (s0 s1 s2 s3 s4 m q0 q1 q2 q3 : ℕ) :
    (s0 + 2 ^ 32 * s1 + 2 ^ 64 * s2 + 2 ^ 96 * s3 + 2 ^ 128 * s4) *
        (4 * q0 + m + 2 ^ 32 * (4 * q1) + 2 ^ 64 * (4 * q2) + 2 ^ 96 * (4 * q3)) ≡
      (s0 * (4 * q0 + m) + s1 * (5 * q3) + s2 * (5 * q2) + s3 * (5 * q1) + s4 * (5 * q0)) +
        2 ^ 32 * (s0 * (4 * q1) + s1 * (4 * q0 + m) + s2 * (5 * q3) + s3 * (5 * q2) +
          s4 * (5 * q1)) +
        2 ^ 64 * (s0 * (4 * q2) + s1 * (4 * q1) + s2 * (4 * q0 + m) + s3 * (5 * q3) +
          s4 * (5 * q2)) +
        2 ^ 96 * (s0 * (4 * q3) + s1 * (4 * q2) + s2 * (4 * q1) + s3 * (4 * q0 + m) +
          s4 * (5 * q3)) +
        2 ^ 128 * (s4 * m) [MOD polyP] := by
  have hp : polyP = 2 ^ 130 - 5 := rfl
  refine modEq_of_eq_add (k := s1 * q3 + s2 * q2 + s3 * q1 + s4 * q0 +
    2 ^ 32 * (s2 * q3 + s3 * q2 + s4 * q1) + 2 ^ 64 * (s3 * q3 + s4 * q2) + 2 ^ 96 * (s4 * q3)) ?_
  rw [hp]
  norm_num only
  ring

/-- A number in its low word and the rest. -/
theorem split32 (x : ℕ) : ∃ k l, x = 2 ^ 32 * k + l ∧ l < 2 ^ 32 ∧ x / 2 ^ 32 = k ∧ x % 2 ^ 32 = l :=
  ⟨x / 2 ^ 32, x % 2 ^ 32, by omega, by omega, rfl, rfl⟩

/-- The carries of `poly_blocks` reduce the sums to words. -/
theorem polyReduce_spec {x0 x1 x2 x3 x4 : ℕ} (h0 : x0 < 2 ^ 64) (h1 : x1 < 2 ^ 64)
    (h2 : x2 < 2 ^ 63 + 2 ^ 62) (h3 : x3 < 2 ^ 63 + 2 ^ 36) (h4 : x4 ≤ 15) :
    (polyReduce x0 x1 x2 x3 x4).Bounded ∧ (polyReduce x0 x1 x2 x3 x4).val ≡
      x0 + 2 ^ 32 * x1 + 2 ^ 64 * x2 + 2 ^ 96 * x3 + 2 ^ 128 * x4 [MOD polyP] := by
  have hand : ∀ x, x &&& 0xffffffff = x % 2 ^ 32 := fun x => Nat.and_two_pow_sub_one_eq_mod x 32
  have hand3 : ∀ x, x &&& 3 = x % 2 ^ 2 := fun x => Nat.and_two_pow_sub_one_eq_mod x 2
  obtain ⟨k0, l0, rfl, b0, d0, m0⟩ := split32 x0
  obtain ⟨k1, l1, rfl, b1, d1, m1⟩ := split32 x1
  obtain ⟨k2, l2, rfl, b2, d2, m2⟩ := split32 x2
  obtain ⟨k3, l3, rfl, b3, d3, m3⟩ := split32 x3
  obtain ⟨q, w, hqw, hw, hq, hm⟩ : ∃ q w, x4 + k3 = 4 * q + w ∧ w < 4 ∧ (x4 + k3) / 2 ^ 2 = q ∧
      (x4 + k3) % 2 ^ 2 = w := ⟨_, _, by omega, by omega, rfl, rfl⟩
  obtain ⟨a0, e0, f0, g0, i0, j0⟩ := split32 (q * 5 + l0)
  obtain ⟨a1, e1, f1, g1, i1, j1⟩ := split32 (a0 + l1 + k0)
  obtain ⟨a2, e2, f2, g2, i2, j2⟩ := split32 (a1 + l2 + k1)
  obtain ⟨a3, e3, f3, g3, i3, j3⟩ := split32 (a2 + l3 + k2)
  have heq : polyReduce (2 ^ 32 * k0 + l0) (2 ^ 32 * k1 + l1) (2 ^ 32 * k2 + l2) (2 ^ 32 * k3 + l3) x4 =
      ⟨e0, e1, e2, e3, a3 + w⟩ := by
    have w5 : u32 (x4 + k3) = x4 + k3 := u32_eq (by omega)
    have wq : u32 (q * 5) = q * 5 := u32_eq (by omega)
    have w0 : u64 (q * 5 + l0) = q * 5 + l0 := u64_eq (by omega)
    have w1 : u64 (a0 + l1 + k0) = a0 + l1 + k0 := u64_eq (by omega)
    have w2 : u64 (a1 + l2 + k1) = a1 + l2 + k1 := u64_eq (by omega)
    have w3 : u64 (a2 + l3 + k2) = a2 + l3 + k2 := u64_eq (by omega)
    have w4 : u32 (a3 + w) = a3 + w := u32_eq (by omega)
    simp only [polyReduce, Nat.shiftRight_eq_div_pow, hand, hand3, d0, m0, d1, m1, d2, m2, d3, m3, w5,
      hq, hm, wq, w0, i0, j0, w1, i1, j1, w2, i2, j2, w3, i3, j3, w4]
  rw [heq]
  have hk2 : k2 < 3 * 2 ^ 30 := by omega
  have ha2 : a2 ≤ 2 := by omega
  have ha3 : a3 ≤ 1 := by omega
  have hlast : a3 + w ≤ 4 := by omega
  refine ⟨⟨g0, g1, g2, g3, hlast⟩, (modEq_of_eq_add (k := q) ?_).symm⟩
  simp only [PolyHash.val, polyP]
  omega

/-- A product of a sum and a word of the multiplier. -/
theorem mul_lt_of_lt {s t : ℕ} (hs : s < 2 ^ 33) (ht : t < 2 ^ 28) : s * t < 2 ^ 61 :=
  calc s * t < 2 ^ 33 * 2 ^ 28 := Nat.mul_lt_mul'' hs ht
    _ = 2 ^ 61 := by norm_num

/-- A product of a sum and a word of the multiplier that went around. -/
theorem mul_five_lt {s q : ℕ} (hs : s < 2 ^ 33) (hq : 4 * q < 2 ^ 28) : s * (5 * q) < 5 * 2 ^ 59 :=
  calc s * (5 * q) < 2 ^ 33 * (5 * 2 ^ 26) := Nat.mul_lt_mul'' hs (by omega)
    _ = 5 * 2 ^ 59 := by norm_num

theorem mul_five_small {s q : ℕ} (hs : s ≤ 5) (hq : 4 * q < 2 ^ 28) : s * (5 * q) < 2 ^ 31 :=
  calc s * (5 * q) ≤ 5 * (5 * q) := Nat.mul_le_mul_right _ hs
    _ < 2 ^ 31 := by omega

theorem mul_three_small {s m : ℕ} (hs : s ≤ 5) (hm : m < 4) : s * m ≤ 15 :=
  calc s * m ≤ 5 * 3 := Nat.mul_le_mul hs (by omega)
    _ = 15 := rfl

/-- The five sums of a block, and that none of them overflows. -/
structure Sums (x0 x1 x2 x3 x4 : ℕ) : Prop where
  x0 : x0 < 2 ^ 64
  x1 : x1 < 2 ^ 64
  x2 : x2 < 2 ^ 63 + 2 ^ 62
  x3 : x3 < 2 ^ 63 + 2 ^ 36
  x4 : x4 ≤ 15

theorem poly_sums {s0 s1 s2 s3 s4 q0 q1 q2 q3 m : ℕ} (hs0 : s0 < 2 ^ 33) (hs1 : s1 < 2 ^ 33)
    (hs2 : s2 < 2 ^ 33) (hs3 : s3 < 2 ^ 33) (hs4 : s4 ≤ 5) (hr0 : 4 * q0 + m < 2 ^ 28)
    (hr1 : 4 * q1 < 2 ^ 28) (hr2 : 4 * q2 < 2 ^ 28) (hr3 : 4 * q3 < 2 ^ 28) (hm : m < 4) :
    Sums (s0 * (4 * q0 + m) + s1 * (5 * q3) + s2 * (5 * q2) + s3 * (5 * q1) + s4 * (5 * q0))
      (s0 * (4 * q1) + s1 * (4 * q0 + m) + s2 * (5 * q3) + s3 * (5 * q2) + s4 * (5 * q1))
      (s0 * (4 * q2) + s1 * (4 * q1) + s2 * (4 * q0 + m) + s3 * (5 * q3) + s4 * (5 * q2))
      (s0 * (4 * q3) + s1 * (4 * q2) + s2 * (4 * q1) + s3 * (4 * q0 + m) + s4 * (5 * q3))
      (s4 * m) := by
  have hq0 : 4 * q0 < 2 ^ 28 := Nat.lt_of_le_of_lt (Nat.le_add_right _ m) hr0
  constructor
  · have p0 := mul_lt_of_lt hs0 hr0
    have p1 := mul_five_lt hs1 hr3
    have p2 := mul_five_lt hs2 hr2
    have p3 := mul_five_lt hs3 hr1
    have p4 := mul_five_small hs4 hq0
    omega
  · have p0 := mul_lt_of_lt hs0 hr1
    have p1 := mul_lt_of_lt hs1 hr0
    have p2 := mul_five_lt hs2 hr3
    have p3 := mul_five_lt hs3 hr2
    have p4 := mul_five_small hs4 hr1
    omega
  · have p0 := mul_lt_of_lt hs0 hr2
    have p1 := mul_lt_of_lt hs1 hr1
    have p2 := mul_lt_of_lt hs2 hr0
    have p3 := mul_five_lt hs3 hr3
    have p4 := mul_five_small hs4 hr2
    omega
  · have p0 := mul_lt_of_lt hs0 hr3
    have p1 := mul_lt_of_lt hs1 hr2
    have p2 := mul_lt_of_lt hs2 hr1
    have p3 := mul_lt_of_lt hs3 hr0
    have p4 := mul_five_small hs4 hr3
    omega
  · exact mul_three_small hs4 hm

/-- STEP: a block of `poly_blocks` multiplies what it adds up, modulo the prime. -/
theorem polyBlock_spec {r : PolyKey} (hr : r.Clamped) {bit : ℕ} (hbit : bit ≤ 1) {h : PolyHash}
    (hh : h.Bounded) (c : List UInt8) :
    (polyBlock r bit h c).Bounded ∧ (polyBlock r bit h c).val ≡
      (h.val + (loadLe (c.take 16) + 2 ^ 128 * bit)) * r.val [MOD polyP] := by
  obtain ⟨h0, h1, h2, h3, h4⟩ := h
  obtain ⟨r0, r1, r2, r3⟩ := r
  obtain ⟨b0, b1, b2, b3, b4⟩ := hh
  obtain ⟨c0, c1, c2, c3, d1, d2, d3⟩ := hr
  dsimp only at *
  obtain ⟨q0, m, rfl, hm, hq0, hm0⟩ : ∃ q m, r0 = 4 * q + m ∧ m < 4 ∧ r0 / 2 ^ 2 = q ∧ r0 % 2 ^ 2 = m :=
    ⟨_, _, by omega, by omega, rfl, rfl⟩
  obtain ⟨q1, rfl⟩ : ∃ q, r1 = 4 * q := ⟨r1 / 4, by omega⟩
  obtain ⟨q2, rfl⟩ : ∃ q, r2 = 4 * q := ⟨r2 / 4, by omega⟩
  obtain ⟨q3, rfl⟩ : ∃ q, r3 = 4 * q := ⟨r3 / 4, by omega⟩
  have hval : (⟨h0, h1, h2, h3, h4⟩ : PolyHash).val + (loadLe (c.take 16) + 2 ^ 128 * bit) =
      (h0 + load32Le c 0) + 2 ^ 32 * (h1 + load32Le c 4) + 2 ^ 64 * (h2 + load32Le c 8) +
        2 ^ 96 * (h3 + load32Le c 12) + 2 ^ 128 * (h4 + bit) := by
    rw [loadLe_take_16, PolyHash.val]
    ring
  have hand3 : ∀ x, x &&& 3 = x % 2 ^ 2 := fun x => Nat.and_two_pow_sub_one_eq_mod x 2
  have e0 : u32 (q0 * 5) = 5 * q0 := by rw [u32_eq (by omega), mul_comm]
  have ediv : ∀ q, 4 * q / 2 ^ 2 = q := fun q => by omega
  have eq5 : ∀ q, 4 * q < 2 ^ 28 → u32 (q + 4 * q) = 5 * q := fun q hq => by
    rw [u32_eq (by omega)]
    ring
  have hs0 : h0 + load32Le c 0 < 2 ^ 33 := by have := load32Le_lt c 0; omega
  have hs1 : h1 + load32Le c 4 < 2 ^ 33 := by have := load32Le_lt c 4; omega
  have hs2 : h2 + load32Le c 8 < 2 ^ 33 := by have := load32Le_lt c 8; omega
  have hs3 : h3 + load32Le c 12 < 2 ^ 33 := by have := load32Le_lt c 12; omega
  have hs4 : h4 + bit ≤ 5 := by omega
  have u33 : ∀ s, s < 2 ^ 33 → u64 s = s := fun s hs => u64_eq (by omega)
  have u31 : ∀ q, 4 * q < 2 ^ 28 → u32 ((h4 + bit) * (5 * q)) = (h4 + bit) * (5 * q) := fun q hq =>
    u32_eq ((mul_five_small hs4 hq).trans (by decide))
  have hq0' : 4 * q0 < 2 ^ 28 := Nat.lt_of_le_of_lt (Nat.le_add_right _ m) c0
  have hsums := poly_sums hs0 hs1 hs2 hs3 hs4 c0 c1 c2 c3 hm
  obtain ⟨hbounded, hmod⟩ := polyReduce_spec hsums.x0 hsums.x1 hsums.x2 hsums.x3 hsums.x4
  rw [hval, PolyKey.val]
  simp only [polyBlock, Nat.shiftRight_eq_div_pow, hand3, hq0, hm0, ediv, e0, eq5 q1 c1, eq5 q2 c2,
    eq5 q3 c3, u33 _ hs0, u33 _ hs1, u33 _ hs2, u33 _ hs3, u32_eq (show h4 + bit < 2 ^ 32 by omega),
    u31 q0 hq0', u31 q1 c1, u31 q2 c2, u31 q3 c3, u64_eq hsums.x0, u64_eq hsums.x1,
    u64_eq (hsums.x2.trans (by decide)), u64_eq (hsums.x3.trans (by decide)), u32_eq (Nat.lt_of_le_of_lt hsums.x4 (by decide))]
  exact ⟨hbounded, hmod.trans (poly_product _ _ _ _ _ _ _ _ _ _).symm⟩

/-! ### The key and the end -/

theorem loadKey_val (key : List UInt8) :
    (Poly1305Ctx.loadKey key).val = loadLe (key.take 16) := (loadLe_take_16 key).symm

/-- A mask word by word. -/
theorem and_words {a m : ℕ} (ha : a < 2 ^ 32) (hm : m < 2 ^ 32) (b n : ℕ) :
    (a + 2 ^ 32 * b) &&& (m + 2 ^ 32 * n) = (a &&& m) + 2 ^ 32 * (b &&& n) := by
  have hand : a &&& m < 2 ^ 32 := Nat.lt_of_le_of_lt Nat.and_le_left ha
  apply Nat.eq_of_testBit_eq
  intro i
  rw [Nat.testBit_and, Nat.add_comm a, Nat.add_comm m, Nat.add_comm (a &&& m),
    Nat.testBit_two_pow_mul_add b ha, Nat.testBit_two_pow_mul_add n hm,
    Nat.testBit_two_pow_mul_add _ hand]
  split
  · rw [Nat.testBit_and]
  · rw [Nat.testBit_and]

theorem and_mod_four (x : ℕ) : (x &&& 0x0ffffffc) % 4 = 0 := by
  have h := Nat.and_two_pow_sub_one_eq_mod (x &&& 0x0ffffffc) 2
  rw [Nat.and_assoc] at h
  exact h.symm.trans (Nat.and_zero x)

/-- The multiplier of `crypto_poly1305_init` is what `poly_blocks` asks for. -/
theorem init_clamped (key : List UInt8) : (Poly1305Ctx.init key).r.Clamped where
  r0 := Nat.lt_of_le_of_lt Nat.and_le_right (by decide)
  r1 := Nat.lt_of_le_of_lt Nat.and_le_right (by decide)
  r2 := Nat.lt_of_le_of_lt Nat.and_le_right (by decide)
  r3 := Nat.lt_of_le_of_lt Nat.and_le_right (by decide)
  r1_mod := and_mod_four _
  r2_mod := and_mod_four _
  r3_mod := and_mod_four _

theorem init_val (key : List UInt8) : (Poly1305Ctx.init key).r.val =
    loadLe (key.take 16) &&& 0x0ffffffc0ffffffc0ffffffc0fffffff := by
  have b0 : load32Le key 0 < 2 ^ 32 := load32Le_lt key 0
  have b1 : load32Le key 4 < 2 ^ 32 := load32Le_lt key 4
  have b2 : load32Le key 8 < 2 ^ 32 := load32Le_lt key 8
  have hmask : 0x0ffffffc0ffffffc0ffffffc0fffffff = 0x0fffffff + 2 ^ 32 * (0x0ffffffc + 2 ^ 32 *
      (0x0ffffffc + 2 ^ 32 * 0x0ffffffc)) := by norm_num
  have hwords : loadLe (key.take 16) = load32Le key 0 + 2 ^ 32 * (load32Le key 4 + 2 ^ 32 *
      (load32Le key 8 + 2 ^ 32 * load32Le key 12)) := by
    rw [loadLe_take_16]
    ring
  rw [hmask, hwords, and_words b0 (by decide), and_words b1 (by decide), and_words b2 (by decide)]
  simp only [PolyKey.val, Poly1305Ctx.init, Poly1305Ctx.loadKey]
  ring

/-- Four words in a row are the bytes of one number. -/
theorem storeLe_words {a b c d : ℕ} (ha : a < 2 ^ 32) (hb : b < 2 ^ 32) (hc : c < 2 ^ 32)
    (hd : d < 2 ^ 32) : storeLe 4 a ++ storeLe 4 b ++ storeLe 4 c ++ storeLe 4 d =
      storeLe 16 (a + 2 ^ 32 * b + 2 ^ 64 * c + 2 ^ 96 * d) := by
  have hmod : ∀ x, x < 2 ^ 32 → x % 256 ^ 4 = x := fun x hx => Nat.mod_eq_of_lt (by omega)
  refine eq_storeLe (by simp) ?_
  simp only [loadLe_append, loadLe_storeLe, storeLe_length, List.length_append, hmod a ha, hmod b hb,
    hmod c hc, hmod d hd]
  norm_num only

/-- The hash stands for the number. -/
structure PolyHash.Stands (h : PolyHash) (x : ℕ) : Prop where
  bounded : h.Bounded
  modEq : h.val ≡ x [MOD polyP]

/-- The end of `crypto_poly1305_final` reduces the hash and adds the pad. -/
theorem finish_eq {h : PolyHash} {x : ℕ} (hh : h.Stands x) (hx : x < polyP) {pad : PolyKey}
    (hp0 : pad.r0 < 2 ^ 32) (hp1 : pad.r1 < 2 ^ 32) (hp2 : pad.r2 < 2 ^ 32) (hp3 : pad.r3 < 2 ^ 32) :
    Poly1305Ctx.finish h pad = storeLe 16 (x + pad.val) := by
  obtain ⟨⟨b0, b1, b2, b3, b4⟩, hmod⟩ := hh
  obtain ⟨h0, h1, h2, h3, h4⟩ := h
  obtain ⟨p0, p1, p2, p3⟩ := pad
  dsimp only at *
  obtain ⟨k0, f0, g0, l0, i0, -⟩ := split32 (5 + h0)
  obtain ⟨k1, f1, g1, l1, i1, -⟩ := split32 (k0 + h1)
  obtain ⟨k2, f2, g2, l2, i2, -⟩ := split32 (k1 + h2)
  obtain ⟨k3, f3, g3, l3, i3, -⟩ := split32 (k2 + h3)
  obtain ⟨q, w, hqw, hw, hq⟩ : ∃ q w, k3 + h4 = 4 * q + w ∧ w < 4 ∧ (k3 + h4) / 2 ^ 2 = q :=
    ⟨(k3 + h4) / 4, (k3 + h4) % 4, by omega, by omega, rfl⟩
  obtain ⟨a0, e0, c0, d0, j0, m0⟩ := split32 (q * 5 + (h0 + p0))
  obtain ⟨a1, e1, c1, d1, j1, m1⟩ := split32 (a0 + (h1 + p1))
  obtain ⟨a2, e2, c2, d2, j2, m2⟩ := split32 (a1 + (h2 + p2))
  obtain ⟨a3, e3, c3, d3, j3, m3⟩ := split32 (a2 + (h3 + p3))
  -- the carry of five says whether the prime goes into the hash
  have hsub : h0 + 2 ^ 32 * h1 + 2 ^ 64 * h2 + 2 ^ 96 * h3 + 2 ^ 128 * h4 = x + polyP * q := by
    have hval : h0 + 2 ^ 32 * h1 + 2 ^ 64 * h2 + 2 ^ 96 * h3 + 2 ^ 128 * h4 + 5 =
        f0 + 2 ^ 32 * f1 + 2 ^ 64 * f2 + 2 ^ 96 * f3 + 2 ^ 128 * w + 2 ^ 130 * q := by omega
    have hle : q ≤ 1 := by omega
    have hx' : x = (h0 + 2 ^ 32 * h1 + 2 ^ 64 * h2 + 2 ^ 96 * h3 + 2 ^ 128 * h4) % polyP :=
      (Nat.mod_eq_of_lt hx).symm.trans hmod.symm
    have hlt : h0 + 2 ^ 32 * h1 + 2 ^ 64 * h2 + 2 ^ 96 * h3 + 2 ^ 128 * h4 < 5 * 2 ^ 128 := by omega
    have hlow : f0 + 2 ^ 32 * f1 + 2 ^ 64 * f2 + 2 ^ 96 * f3 + 2 ^ 128 * w < 2 ^ 130 := by omega
    have hP : polyP = 1361129467683753853853498429727072845819 := rfl
    rw [hP] at hx' ⊢
    generalize h0 + 2 ^ 32 * h1 + 2 ^ 64 * h2 + 2 ^ 96 * h3 + 2 ^ 128 * h4 = v at hval hx' hlt ⊢
    generalize f0 + 2 ^ 32 * f1 + 2 ^ 64 * f2 + 2 ^ 96 * f3 + 2 ^ 128 * w = y at hval hlow
    clear * - hval hx' hlt hlow hle
    omega
  have heq : Poly1305Ctx.finish ⟨h0, h1, h2, h3, h4⟩ ⟨p0, p1, p2, p3⟩ =
      storeLe 4 e0 ++ storeLe 4 e1 ++ storeLe 4 e2 ++ storeLe 4 e3 := by
    have w0 : u64 (5 + h0) = 5 + h0 := u64_eq (by omega)
    have w1 : u64 (k0 + h1) = k0 + h1 := u64_eq (by omega)
    have w2 : u64 (k1 + h2) = k1 + h2 := u64_eq (by omega)
    have w3 : u64 (k2 + h3) = k2 + h3 := u64_eq (by omega)
    have w4 : u64 (k3 + h4) = k3 + h4 := u64_eq (by omega)
    have wq : u64 (q * 5) = q * 5 := u64_eq (by omega)
    have wp : ∀ a b, a < 2 ^ 32 → b < 2 ^ 32 → u64 (a + b) = a + b := fun a b ha hb => u64_eq (by omega)
    have v0 : u64 (q * 5 + (h0 + p0)) = q * 5 + (h0 + p0) := u64_eq (by omega)
    have v1 : u64 (a0 + (h1 + p1)) = a0 + (h1 + p1) := u64_eq (by omega)
    have v2 : u64 (a1 + (h2 + p2)) = a1 + (h2 + p2) := u64_eq (by omega)
    have v3 : u64 (a2 + (h3 + p3)) = a2 + (h3 + p3) := u64_eq (by omega)
    have hu32 : ∀ y, u32 y = y % 2 ^ 32 := fun _ => rfl
    simp only [Poly1305Ctx.finish, Nat.shiftRight_eq_div_pow, hu32, w0, i0, w1, i1, w2, i2, w3, i3, w4,
      hq, wq, wp h0 p0 b0 hp0, wp h1 p1 b1 hp1, wp h2 p2 b2 hp2, wp h3 p3 b3 hp3, v0, j0, m0, v1, j1, m1,
      v2, j2, m2, v3, m3]
  rw [heq, storeLe_words d0 d1 d2 d3, ← storeLe_mod 16 (x + _), ← storeLe_mod 16 (e0 + _ + _ + _)]
  congr 1
  simp only [PolyKey.val, polyP] at *
  omega

/-! ### Blocks and pieces -/

/-- A line of `polyBlocks`, on the number of the hash. -/
def polyStep (r h : ℕ) (c : List UInt8) : ℕ := (h + loadLe (c ++ [1])) * r % polyP

theorem polyStep_lt (r h : ℕ) (c : List UInt8) : polyStep r h c < polyP :=
  Nat.mod_lt _ (by decide)

/-- Whole blocks first. -/
theorem polyBlocks_append (r : ℕ) {n : ℕ} (k h : ℕ) {l : List UInt8} (hl : l.length = 16 * n)
    (c : List UInt8) : polyBlocks r (n + k) h (l ++ c) =
      polyBlocks r k (Blocks.blocks 16 (polyStep r) n h l) c := by
  induction n generalizing h l with
  | zero =>
    obtain rfl := List.eq_nil_of_length_eq_zero hl
    rw [Nat.zero_add, List.nil_append, Blocks.blocks_zero]
  | succ n ih =>
    have hne : (l ++ c).length ≠ 0 := by
      rw [List.length_append]
      omega
    have htake : (l ++ c).take 16 = l.take 16 := List.take_append_of_le_length (by omega)
    have hdrop : (l ++ c).drop 16 = l.drop 16 ++ c := List.drop_append_of_le_length (by omega)
    have hlen : (l.drop 16).length = 16 * n := by
      rw [List.length_drop]
      omega
    rw [Nat.succ_add, polyBlocks, if_neg hne, htake, hdrop, ih _ hlen, Blocks.blocks_succ]
    rfl

/-- The MAC on numbers, once the message is cut into whole blocks and the rest. -/
theorem cryptoPoly1305_eq {n : ℕ} {l c : List UInt8} (hl : l.length = 16 * n) (hc : c.length < 16)
    (key : List UInt8) :
    let r := loadLe (key.take 16) &&& 0x0ffffffc0ffffffc0ffffffc0fffffff
    let h := Blocks.blocks 16 (polyStep r) n 0 l
    cryptoPoly1305 (l ++ c) key =
      storeLe 16 ((if c.length = 0 then h else polyStep r h c) + loadLe ((key.drop 16).take 16)) := by
  intro r h
  have hfuel : (l ++ c).length / 16 + 1 = n + 1 := by
    rw [List.length_append]
    omega
  have hlast : polyBlocks r 1 h c = if c.length = 0 then h else polyStep r h c := by
    rw [polyBlocks]
    split
    · rfl
    · rw [polyBlocks, List.take_of_length_le (by omega)]
      rfl
  rw [cryptoPoly1305, hfuel, polyBlocks_append r 1 0 hl, hlast]

variable {r : PolyKey} {h : PolyHash} {x : ℕ} {c : List UInt8}

theorem PolyHash.Stands.step (hr : r.Clamped) (hh : h.Stands x) {bit : ℕ} (hbit : bit ≤ 1)
    {d : List UInt8} (hd : loadLe (d.take 16) + 2 ^ 128 * bit = loadLe (c ++ [1])) :
    (polyBlock r bit h d).Stands (polyStep r.val x c) := by
  obtain ⟨hbounded, hmod⟩ := polyBlock_spec hr hbit hh.bounded d
  rw [hd] at hmod
  exact ⟨hbounded, hmod.trans (((hh.modEq.add_right _).mul_right _).trans (Nat.mod_modEq _ _).symm)⟩

/-- A whole block, with the bit above it. -/
theorem PolyHash.Stands.whole (hr : r.Clamped) (hc : c.length = 16) (hh : h.Stands x) :
    (polyBlock r 1 h c).Stands (polyStep r.val x c) := by
  refine hh.step hr le_rfl ?_
  rw [loadLe_append, hc, List.take_of_length_le hc.le]
  rfl

/-- The last block: the bit is a byte of its own. -/
theorem PolyHash.Stands.last (hr : r.Clamped) (hc : c.length < 16) (hh : h.Stands x) :
    (polyBlock r 0 h (c ++ [1] ++ List.replicate (15 - c.length) 0)).Stands (polyStep r.val x c) := by
  refine hh.step hr (Nat.zero_le 1) ?_
  rw [List.take_of_length_le (by simp; omega), loadLe_append_zeros]
  rfl

theorem stands_zero : PolyHash.Stands ⟨0, 0, 0, 0, 0⟩ 0 where
  bounded := ⟨by decide, by decide, by decide, by decide, Nat.zero_le 4⟩
  modEq := rfl

namespace Poly1305Ctx

/-- What a context holds after the bytes `m`: whole blocks of them in the hash, and the rest, less
    than a block, in the buffer. -/
structure Absorbs (key m : List UInt8) (ctx : Poly1305Ctx) : Prop where
  r : ctx.r = (init key).r
  pad : ctx.pad = (init key).pad
  c_lt : ctx.c.length < 16
  absorbed : Blocks.Absorbed 16 (polyBlock (init key).r 1) (init key).h m ctx.h ctx.c

variable {key m : List UInt8} {ctx : Poly1305Ctx}

theorem init_absorbs (key : List UInt8) : (init key).Absorbs key [] :=
  ⟨rfl, rfl, Nat.zero_lt_succ _, Blocks.Absorbed.init⟩

/-- The first half of an update: a buffer that is full becomes a block. -/
theorem Absorbs.align (h : ctx.Absorbs key m) {x : List UInt8} (hx : ctx.c.length + x.length ≤ 16) :
    Absorbs key (m ++ x) (if (ctx.c ++ x).length = 16 then
      { ({ ctx with c := ctx.c ++ x } : Poly1305Ctx).polyBlocks (ctx.c ++ x) 1 1 with c := [] }
      else { ctx with c := ctx.c ++ x }) := by
  have hfill := h.absorbed.fill x
  split
  · rename_i hfull
    refine ⟨h.r, h.pad, Nat.zero_lt_succ _, ?_⟩
    have hflush := hfill.flush hfull
    rw [← h.r] at hflush ⊢
    simp only [polyBlocks, Blocks.blocks_succ, Blocks.blocks_zero, List.take_of_length_le hfull.le]
    exact hflush
  · rename_i hopen
    refine ⟨h.r, h.pad, ?_, hfill⟩
    rw [List.length_append] at hopen ⊢
    omega

/-- The second half: whole blocks of the input, past an empty buffer. -/
theorem Absorbs.rest (h : ctx.Absorbs key m) {x : List UInt8} (hc : ctx.c = [] ∨ x = []) :
    Absorbs key (m ++ x)
      { ctx.polyBlocks x (x.length >>> 4) 1 with c := ctx.c ++ x.drop ((x.length >>> 4) <<< 4) } := by
  rw [Nat.shiftRight_eq_div_pow, Nat.shiftLeft_eq, Nat.mul_comm]
  obtain hc | rfl := hc
  · have hlen : (2 ^ 4) * (x.length / 2 ^ 4) ≤ x.length := Nat.mul_div_le _ _
    have htake := (hc ▸ h.absorbed).take hlen
    refine ⟨h.r, h.pad, ?_, ?_⟩
    · rw [hc, List.nil_append, List.length_drop]
      omega
    · rw [← h.r] at htake ⊢
      rwa [hc, List.nil_append]
  · rw [List.append_nil, List.drop_nil, List.append_nil]
    exact ⟨h.r, h.pad, h.c_lt, h.absorbed⟩

/-- STEP: `crypto_poly1305_update` takes all of its input. -/
theorem Absorbs.update (h : ctx.Absorbs key m) (x : List UInt8) : (ctx.update x).Absorbs key (m ++ x) := by
  have hc := h.c_lt
  have hgap : gap ctx.c.length 16 = (16 - ctx.c.length % 16) % 16 := gap_eq _ (k := 4) (by decide)
  by_cases hx : x.length = 0
  · obtain rfl := List.eq_nil_of_length_eq_zero hx
    rw [List.append_nil]
    exact h
  · rw [Poly1305Ctx.update, if_neg hx, hgap]
    generalize ha : min ((16 - ctx.c.length % 16) % 16) x.length = a
    have htake : (x.take a).length = a := List.length_take_of_le (by omega)
    have halign := h.align (x := x.take a) (by omega)
    have hrest := halign.rest (x := x.drop a) ?_
    · rwa [List.append_assoc, List.take_append_drop] at hrest
    · split
      · exact .inl rfl
      · rename_i hopen
        rw [List.length_append, htake] at hopen
        by_cases hempty : ctx.c.length = 0
        · obtain rfl : a = 0 := by omega
          exact .inl (by simp [List.eq_nil_of_length_eq_zero hempty])
        · exact .inr (List.drop_of_length_le (by omega))

/-- RUN: so do any number of updates. -/
theorem Absorbs.updates (h : ctx.Absorbs key m) (xs : List (List UInt8)) :
    (xs.foldl Poly1305Ctx.update ctx).Absorbs key (m ++ xs.flatten) := by
  induction xs generalizing ctx m with
  | nil => rwa [List.flatten_nil, List.append_nil]
  | cons x xs ih =>
    rw [List.foldl_cons, List.flatten_cons, ← List.append_assoc]
    exact ih (h.update x)

/-- `crypto_poly1305_final` gives the MAC of what was absorbed. -/
theorem Absorbs.final_eq (h : ctx.Absorbs key m) : ctx.final = cryptoPoly1305 m key := by
  obtain ⟨hr, hpad, hc, n, l, rfl, hl, hh⟩ := h
  have hclamped := init_clamped key
  have hpadval : ctx.pad.val = loadLe ((key.drop 16).take 16) := by
    rw [hpad]
    exact loadKey_val _
  have hstands : ctx.h.Stands (Blocks.blocks 16 (polyStep (init key).r.val) n 0 l) := by
    rw [hh]
    exact Blocks.blocks_rel 16 (fun _ _ _ hlen hs => hs.whole hclamped hlen) stands_zero hl.ge
  have hlt : Blocks.blocks 16 (polyStep (init key).r.val) n 0 l < polyP := by
    refine Blocks.blocks_rel 16 (R := fun x (_ : Unit) => x < polyP) (g := fun _ _ => ()) ?_
      (t := ()) (by decide) hl.ge
    exact fun _ _ _ _ _ => polyStep_lt _ _ _
  have hpads : ∀ {y : PolyHash} {z : ℕ}, y.Stands z → z < polyP →
      finish y ctx.pad = storeLe 16 (z + ctx.pad.val) := fun hs hz => by
    rw [hpad]
    exact finish_eq hs hz (load32Le_lt _ _) (load32Le_lt _ _) (load32Le_lt _ _) (load32Le_lt _ _)
  rw [cryptoPoly1305_eq hl hc, ← hpadval, ← init_val, Poly1305Ctx.final]
  by_cases hempty : ctx.c.length = 0
  · rw [if_neg (not_not.mpr hempty), if_pos hempty]
    exact hpads hstands hlt
  · rw [if_pos hempty, if_neg hempty]
    refine hpads ?_ (polyStep_lt _ _ _)
    simp only [polyBlocks, Blocks.blocks_succ, Blocks.blocks_zero, hr]
    rw [List.take_of_length_le (by simp; omega)]
    exact hstands.last hclamped hc

/-- CORRECT: however a message is cut into updates, the MAC in words is the MAC of the whole on
    numbers. -/
theorem pieces_mac (key : List UInt8) (xs : List (List UInt8)) :
    (xs.foldl Poly1305Ctx.update (init key)).final = cryptoPoly1305 xs.flatten key := by
  have habsorbs := (init_absorbs key).updates xs
  rw [List.nil_append] at habsorbs
  exact habsorbs.final_eq

end Poly1305Ctx

end Asys
