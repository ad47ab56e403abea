import Asys.Core.FeBytes
import Asys.Core.Field25519
import Asys.Core.Verify
import Mathlib.NumberTheory.LegendreSymbol.Basic

/-! # crypto_x25519 in limbs

    The inverse square root, the inversion and the ladder of the source on its ten limbs. Each
    element of the computation stands for a number modulo `2 ^ 255 - 19`; no sum or product
    overflows, and the bytes that come out are those of the ladder on numbers. -/

namespace Asys
namespace Fe

def zero : Fe := ⟨0, 0, 0, 0, 0, 0, 0, 0, 0, 0⟩
def one : Fe := ⟨1, 0, 0, 0, 0, 0, 0, 0, 0, 0⟩

def sqrtm1 : Fe where
  h0 := -32595792
  h1 := -7943725
  h2 := 9377950
  h3 := 3500415
  h4 := 12389472
  h5 := -272473
  h6 := -25146209
  h7 := -2005654
  h8 := 326686
  h9 := 11406482

/-- A loop of `n` squarings. -/
def sqs : ℕ → Fe → Option Fe
  | 0, f => some f
  | n + 1, f => do sqs n (← f.sq)

/-- `fe_isequal`. -/
def isequal (f g : Fe) : Option ℕ := do
  return (1 + cryptoVerify32 (← f.toBytes) (← g.toBytes)).toNat

/-- The first part of `invsqrt`: the power `(p - 5) / 8`. -/
def powP58 (x : Fe) : Option Fe := do
  let t0 ← x.sq
  let t1 ← t0.sq
  let t1 ← t1.sq
  let t1 ← x.mul t1
  let t0 ← t0.mul t1
  let t0 ← t0.sq
  let t0 ← t1.mul t0
  let t1 ← (← t0.sq).sqs 4
  let t0 ← t1.mul t0
  let t1 ← (← t0.sq).sqs 9
  let t1 ← t1.mul t0
  let t2 ← (← t1.sq).sqs 19
  let t1 ← t2.mul t1
  let t1 ← (← t1.sq).sqs 9
  let t0 ← t1.mul t0
  let t1 ← (← t0.sq).sqs 49
  let t1 ← t1.mul t0
  let t2 ← (← t1.sq).sqs 99
  let t1 ← t2.mul t1
  let t1 ← (← t1.sq).sqs 49
  let t0 ← t1.mul t0
  let t0 ← (← t0.sq).sqs 1
  t0.mul x

/-- `invsqrt`: the root, and whether `x` is a square. -/
def invsqrt (x : Fe) : Option (Fe × ℕ) := do
  let t0 ← powP58 x
  let quartic ← (← t0.sq).mul x
  let z0 ← x.isequal zero
  let p1 ← quartic.isequal one
  let m1 ← quartic.isequal (← one.neg)
  let ms ← quartic.isequal (← sqrtm1.neg)
  let isr ← t0.mul sqrtm1
  return (isr.ccopy t0 (1 - (m1 ||| ms)), p1 ||| m1 ||| z0)

/-- `fe_invert`. -/
def invert (x : Fe) : Option Fe := do
  let (tmp, _) ← invsqrt (← x.sq)
  (← tmp.sq).mul x

/-- The four coordinates of the ladder. -/
structure Ladder where
  x2 : Fe
  z2 : Fe
  x3 : Fe
  z3 : Fe

/-- The two conditional swaps of a turn. -/
def Ladder.cswap (l : Ladder) (swap : ℕ) : Ladder :=
  let (x2, x3) := l.x2.cswap l.x3 swap
  let (z2, z3) := l.z2.cswap l.z3 swap
  ⟨x2, z2, x3, z3⟩

/-- The ladder step of a turn: `(P2, P3)` becomes `(P2*2, P2+P3)`. -/
def ladderStep (x1 : Fe) (l : Ladder) : Option Ladder := do
  let t0 ← l.x3.sub l.z3
  let t1 ← l.x2.sub l.z2
  let x2 ← l.x2.add l.z2
  let z2 ← l.x3.add l.z3
  let z3 ← t0.mul x2
  let z2 ← z2.mul t1
  let t0 ← t1.sq
  let t1 ← x2.sq
  let x3 ← z3.add z2
  let z2 ← z3.sub z2
  let x2 ← t1.mul t0
  let t1 ← t1.sub t0
  let z2 ← z2.sq
  let z3 ← t1.mulSmall 121666
  let x3 ← x3.sq
  let t0 ← t0.add z3
  let z3 ← x1.mul z2
  let z2 ← t1.mul t0
  return ⟨x2, z2, x3, z3⟩

/-- `scalar_bit`, at a position that is not negative. -/
def scalarBit (s : List UInt8) (i : ℕ) : ℕ := ((s.getD (i >>> 3) 0).toNat >>> (i &&& 7)) &&& 1

/-- The loop of `scalarmult` over the positions below `pos`, with the swap that is due. -/
def ladder (x1 : Fe) (scalar : List UInt8) : ℕ → ℕ → Ladder → Option (ℕ × Ladder)
  | 0, swap, l => some (swap, l)
  | pos + 1, swap, l => do
    let b := scalarBit scalar pos
    let l ← ladderStep x1 (l.cswap (swap ^^^ b))
    ladder x1 scalar pos b l

def scalarmult (scalar p : List UInt8) (nbBits : ℕ) : Option (List UInt8) := do
  let x1 ← fromBytes p
  let (swap, l) ← ladder x1 scalar nbBits 0 ⟨one, zero, x1, one⟩
  let l := l.cswap swap
  let z2 ← l.z2.invert
  (← l.x2.mul z2).toBytes

def cryptoX25519 (yourSecretKey theirPublicKey : List UInt8) : Option (List UInt8) :=
  scalarmult (cryptoEddsaTrimScalar yourSecretKey) theirPublicKey 255

def basePoint : List UInt8 := 9 :: List.replicate 31 0

def cryptoX25519PublicKey (secretKey : List UInt8) : Option (List UInt8) :=
  cryptoX25519 secretKey basePoint

/-! ### What the limbs stand for -/

/-- The limbs are within the bound, and stand for `x`. -/
structure Denotes (b : ℤ) (x : ZMod feP) (f : Fe) : Prop where
  within : Within b f
  val : (f.val : ZMod feP) = x

namespace Denotes

variable {a b : ℤ} {x y : ZMod feP} {f g : Fe}

theorem mono (h : Denotes a x f) (hab : a ≤ b) : Denotes b x f := ⟨h.within.mono hab, h.val⟩

theorem wide (h : Denotes tight x f) : Denotes wide x f := h.mono (by decide)

theorem mul (hf : Denotes Fe.wide x f) (hg : Denotes Fe.wide y g) :
    Returns (f.mul g) (Denotes tight (x * y)) := by
  obtain ⟨h, heq, hw, k, hval⟩ := mul_spec hf.within hg.within
  refine ⟨h, heq, hw, ?_⟩
  rw [hval, ← hf.val, ← hg.val]
  push_cast
  rw [cast_feP, mul_zero, sub_zero]

theorem sq (hf : Denotes Fe.wide x f) : Returns f.sq (Denotes tight (x * x)) := by
  rw [sq_eq_mul hf.within]
  exact hf.mul hf

theorem mulSmall (hf : Denotes Fe.wide x f) {n : ℤ} (hn : Limb 0x80000000 n) :
    Returns (f.mulSmall n) (Denotes tight (x * n)) := by
  obtain ⟨h, heq, hw, k, hval⟩ := mulSmall_spec hf.within hn
  refine ⟨h, heq, hw, ?_⟩
  rw [hval, ← hf.val]
  push_cast
  rw [cast_feP, mul_zero, sub_zero]

theorem add (hf : Denotes tight x f) (hg : Denotes tight y g) :
    Returns (f.add g) (Denotes Fe.wide (x + y)) := by
  obtain ⟨h, heq, hw, hval⟩ := add_spec hf.within hg.within (by decide)
  refine ⟨h, heq, hw.mono (by decide), ?_⟩
  rw [hval, Int.cast_add, hf.val, hg.val]

theorem sub (hf : Denotes tight x f) (hg : Denotes tight y g) :
    Returns (f.sub g) (Denotes Fe.wide (x - y)) := by
  obtain ⟨h, heq, hw, hval⟩ := sub_spec hf.within hg.within (by decide)
  refine ⟨h, heq, hw.mono (by decide), ?_⟩
  rw [hval, Int.cast_sub, hf.val, hg.val]

theorem neg (hf : Denotes tight x f) : Returns f.neg (Denotes tight (-x)) := by
  obtain ⟨h, heq, hw, hval⟩ := neg_spec hf.within (by decide)
  refine ⟨h, heq, hw, ?_⟩
  rw [hval, Int.cast_neg, hf.val]

/-- The bytes are those of the number. -/
theorem toBytes {n : ℕ} (hn : n < feP) (hf : Denotes tight n f) : f.toBytes = some (storeLe 32 n) := by
  rw [toBytes_spec hf.within]
  have hmod : f.val % feP = n := by
    have h := (ZMod.intCast_eq_intCast_iff' f.val n feP).mp (by rw [hf.val, Int.cast_natCast])
    rwa [Int.emod_eq_of_lt (b := (feP : ℤ)) (Int.natCast_nonneg n) (by exact_mod_cast hn)] at h
  rw [hmod, Int.toNat_natCast]

theorem isequal (hf : Denotes tight x f) (hg : Denotes tight y g) :
    f.isequal g = some (if x = y then 1 else 0) := by
  have hx : Denotes tight (x.val : ℕ) f := by rwa [ZMod.natCast_zmod_val]
  have hy : Denotes tight (y.val : ℕ) g := by rwa [ZMod.natCast_zmod_val]
  have hiff : storeLe 32 x.val = storeLe 32 y.val ↔ x = y := by
    have hlt : ∀ z : ZMod feP, z.val < 256 ^ 32 := fun z => (ZMod.val_lt z).trans (by decide)
    exact ⟨fun h => ZMod.val_injective feP (storeLe_inj (hlt x) (hlt y) h), fun h => by rw [h]⟩
  rw [Fe.isequal, hx.toBytes (ZMod.val_lt x), hy.toBytes (ZMod.val_lt y)]
  simp only [Option.bind_eq_bind, Option.bind_some,
    cryptoVerify32_eq (storeLe_length 32 _) (storeLe_length 32 _), hiff]
  split <;> rfl

/-! ### The inverse square root -/

theorem exponent {m n : ℕ} (h : Denotes a (x ^ m) f) (hmn : m = n) : Denotes a (x ^ n) f := hmn ▸ h

theorem pow_sq {n : ℕ} (h : Denotes tight (x ^ n) f) :
    Returns f.sq (Denotes tight (x ^ (2 * n))) := by
  rw [two_mul, pow_add]
  exact h.wide.sq

theorem pow_mul {m n : ℕ} (hf : Denotes tight (x ^ m) f) (hg : Denotes tight (x ^ n) g) :
    Returns (f.mul g) (Denotes tight (x ^ (m + n))) := by
  rw [pow_add]
  exact hf.wide.mul hg.wide

/-- RUN: `n` squarings. -/
theorem pow_sqs {m : ℕ} (n : ℕ) (h : Denotes tight (x ^ m) f) :
    Returns (f.sqs n) (Denotes tight (x ^ (2 ^ n * m))) := by
  induction n generalizing f m with
  | zero =>
    rw [pow_zero, one_mul]
    exact ⟨f, rfl, h⟩
  | succ n ih =>
    obtain ⟨g, hsq, hg⟩ := h.pow_sq
    obtain ⟨k, hsqs, hk⟩ := ih hg
    refine ⟨k, ?_, by rwa [pow_succ, mul_assoc]⟩
    rw [sqs, hsq]
    exact hsqs

theorem powP58 (hf : Denotes tight x f) :
    Returns f.powP58 (Denotes tight (x ^ (2 ^ 252 - 3))) := by
  have h1 : Denotes tight (x ^ 1) f := by rwa [pow_one]
  unfold Fe.powP58
  refine Returns.bind h1.pow_sq fun _ a0 => ?_
  refine Returns.bind a0.pow_sq fun _ a1 => ?_
  refine Returns.bind a1.pow_sq fun _ a2 => ?_
  refine Returns.bind (h1.pow_mul a2) fun _ a3 => ?_
  refine Returns.bind (a0.pow_mul a3) fun _ a4 => ?_
  refine Returns.bind a4.pow_sq fun _ a5 => ?_
  refine Returns.bind (a3.pow_mul a5) fun _ p5 => ?_
  refine Returns.bind p5.pow_sq fun _ b0 => ?_
  refine Returns.bind (b0.pow_sqs 4) fun _ b1 => ?_
  refine Returns.bind (b1.pow_mul p5) fun _ p10 => ?_
  refine Returns.bind p10.pow_sq fun _ c0 => ?_
  refine Returns.bind (c0.pow_sqs 9) fun _ c1 => ?_
  refine Returns.bind (c1.pow_mul p10) fun _ p20 => ?_
  refine Returns.bind p20.pow_sq fun _ d0 => ?_
  refine Returns.bind (d0.pow_sqs 19) fun _ d1 => ?_
  refine Returns.bind (d1.pow_mul p20) fun _ p40 => ?_
  refine Returns.bind p40.pow_sq fun _ e0 => ?_
  refine Returns.bind (e0.pow_sqs 9) fun _ e1 => ?_
  refine Returns.bind (e1.pow_mul p10) fun _ p50 => ?_
  refine Returns.bind p50.pow_sq fun _ f0 => ?_
  refine Returns.bind (f0.pow_sqs 49) fun _ f1 => ?_
  refine Returns.bind (f1.pow_mul p50) fun _ p100 => ?_
  refine Returns.bind p100.pow_sq fun _ g0 => ?_
  refine Returns.bind (g0.pow_sqs 99) fun _ g1 => ?_
  refine Returns.bind (g1.pow_mul p100) fun _ p200 => ?_
  refine Returns.bind p200.pow_sq fun _ i0 => ?_
  refine Returns.bind (i0.pow_sqs 49) fun _ i1 => ?_
  refine Returns.bind (i1.pow_mul p50) fun _ p250 => ?_
  refine Returns.bind p250.pow_sq fun _ j0 => ?_
  refine Returns.bind (j0.pow_sqs 1) fun _ j1 => ?_
  refine (j1.pow_mul h1).mono fun _ h => h.exponent ?_
  norm_num

end Denotes

/-- The square root of `-1` that the source writes out. -/
def root : ZMod feP := (sqrtm1.val : ℤ)

theorem root_mul_self : root * root = -1 := by
  have hdvd : ((feP : ℤ) : ℤ) ∣ sqrtm1.val * sqrtm1.val + 1 := by decide +kernel
  have h := (ZMod.intCast_zmod_eq_zero_iff_dvd _ feP).mpr hdvd
  push_cast at h
  exact eq_neg_of_add_eq_zero_left h

theorem denotes_zero : Denotes tight 0 zero :=
  ⟨by constructor <;> exact ⟨by decide, by decide⟩, by simp [val, zero]⟩

theorem denotes_one : Denotes tight 1 one :=
  ⟨by constructor <;> exact ⟨by decide, by decide⟩, by simp [val, one]⟩

theorem denotes_sqrtm1 : Denotes tight root sqrtm1 :=
  ⟨by constructor <;> exact ⟨by decide, by decide⟩, rfl⟩

/-- What `invsqrt` says of its results. -/
structure InvSqrt (x s : ZMod feP) (b : ℕ) : Prop where
  zero : x = 0 → s = 0
  square : IsSquare x → b = 1 ∧ (x ≠ 0 → s * s * x = 1)
  nonsquare : ¬IsSquare x → b = 0 ∧ s * s * x = root

section

variable {x s : ZMod feP}

theorem InvSqrt.of_square (hx : x ≠ 0) (hsq : IsSquare x) (h : s * s * x = 1) : InvSqrt x s 1 :=
  ⟨fun h0 => absurd h0 hx, fun _ => ⟨rfl, fun _ => h⟩, fun hn => absurd hsq hn⟩

theorem InvSqrt.of_nonsquare (hx : x ≠ 0) (hsq : ¬IsSquare x) (h : s * s * x = root) :
    InvSqrt x s 0 :=
  ⟨fun h0 => absurd h0 hx, fun h1 => absurd h1 hsq, fun _ => ⟨rfl, h⟩⟩

end

/-- `x` to the power `(p - 5) / 8`. -/
def eighth (x : ZMod feP) : ZMod feP := x ^ (2 ^ 252 - 3)

/-- `x` to the power `(p - 1) / 4`. -/
def quartic (x : ZMod feP) : ZMod feP := eighth x * eighth x * x

theorem quartic_zero : quartic 0 = 0 := mul_zero _

theorem quartic_sq (x : ZMod feP) : quartic x * quartic x = x ^ (feP / 2) := by
  have hexp : (2 ^ 252 - 3 + (2 ^ 252 - 3) + 1) + (2 ^ 252 - 3 + (2 ^ 252 - 3) + 1) = feP / 2 := by
    decide
  rw [← hexp, pow_add _ (_ + 1), pow_succ, pow_add]
  rfl

theorem isSquare_iff {x : ZMod feP} (hx : x ≠ 0) : IsSquare x ↔ quartic x * quartic x = 1 := by
  rw [quartic_sq, ZMod.euler_criterion feP hx]

/-- The fourth power of the quartic is one. -/
theorem quartic_cases {x : ZMod feP} (hx : x ≠ 0) :
    (quartic x = 1 ∨ quartic x = -1) ∨ quartic x = root ∨ quartic x = -root := by
  have hfermat : quartic x * quartic x * (quartic x * quartic x) = 1 := by
    have hexp : feP / 2 + feP / 2 = feP - 1 := by decide
    rw [quartic_sq, ← pow_add, hexp, ZMod.pow_card_sub_one_eq_one hx]
  rcases mul_self_eq_one_iff.mp hfermat with h | h
  · exact .inl (mul_self_eq_one_iff.mp h)
  · rw [← root_mul_self] at h
    exact .inr (mul_self_eq_mul_self_iff.mp h)

theorem flag_or (a b : Prop) [Decidable a] [Decidable b] :
    ((if a then 1 else 0 : ℕ) ||| if b then 1 else 0) = if a ∨ b then 1 else 0 := by
  by_cases ha : a <;> by_cases hb : b <;> simp [ha, hb]

theorem one_ne_neg_one : (1 : ZMod feP) ≠ -1 :=
  have : Fact (2 < feP) := ⟨by decide⟩
  ZMod.neg_one_ne_one.symm

/-- The root and its negative are apart from one and minus one, whose squares are one. -/
theorem not_square_root {q : ZMod feP} (h : q = root ∨ q = -root) :
    q * q = -1 ∧ q ≠ 1 ∧ q ≠ -1 := by
  have hq : q * q = -1 := by rcases h with rfl | rfl <;> simp [root_mul_self]
  refine ⟨hq, ?_, ?_⟩
  · rintro rfl
    exact one_ne_neg_one (by rw [← hq, mul_one])
  · rintro rfl
    exact one_ne_neg_one (by rw [← hq, neg_mul_neg, mul_one])

/-- The root that is chosen, by the value of the quartic. -/
theorem invSqrt_choice (x : ZMod feP) :
    InvSqrt x (if quartic x = -1 ∨ quartic x = -root then eighth x * root else eighth x)
      (if quartic x = 1 ∨ quartic x = -1 ∨ x = 0 then 1 else 0) := by
  by_cases hx : x = 0
  · subst hx
    have hpow : eighth 0 = 0 := zero_pow (by decide)
    refine ⟨fun _ => by simp [hpow], fun _ => ⟨by simp, fun h => absurd rfl h⟩, fun h => ?_⟩
    exact absurd ⟨0, (mul_zero 0).symm⟩ h
  have hplain : eighth x * eighth x * x = quartic x := rfl
  have hroot : eighth x * root * (eighth x * root) * x = -quartic x := by
    linear_combination eighth x * eighth x * x * root_mul_self - hplain
  have hsquare := isSquare_iff hx
  rcases quartic_cases hx with (hq | hq) | hq
  · have hne : ¬(quartic x = -1 ∨ quartic x = -root) := by
      rintro (h | h)
      · exact one_ne_neg_one (hq.symm.trans h)
      · exact (not_square_root (.inr h)).2.1 hq
    rw [if_neg hne, if_pos (.inl hq)]
    exact .of_square hx (hsquare.mpr (by rw [hq, mul_one])) (hplain.trans hq)
  · rw [if_pos (.inl hq), if_pos (.inr (.inl hq))]
    exact .of_square hx (hsquare.mpr (by rw [hq]; ring)) (by rw [hroot, hq, neg_neg])
  · obtain ⟨hsq, h1, hm1⟩ := not_square_root hq
    have hnot : ¬IsSquare x := by
      rw [hsquare, hsq]
      exact one_ne_neg_one.symm
    have hneither : ¬(quartic x = 1 ∨ quartic x = -1 ∨ x = 0) := by simp [h1, hm1, hx]
    rw [if_neg hneither]
    by_cases hneg : quartic x = -root
    · rw [if_pos (.inr hneg)]
      exact .of_nonsquare hx hnot (by rw [hroot, hneg, neg_neg])
    · rw [if_neg (by simp [hm1, hneg])]
      exact .of_nonsquare hx hnot (hplain.trans (hq.resolve_right hneg))

namespace Denotes

variable {x : ZMod feP} {f : Fe}

/-- CORRECT: `invsqrt` keeps what its comment says. -/
theorem invsqrt (hf : Denotes tight x f) :
    Returns f.invsqrt fun r => ∃ s, Denotes tight s r.1 ∧ InvSqrt x s r.2 := by
  unfold Fe.invsqrt
  refine hf.powP58.bind fun t0 (ht0 : Denotes tight (eighth x) t0) => ?_
  refine ht0.wide.sq.bind fun t1 ht1 => ?_
  refine (ht1.wide.mul hf.wide).bind fun q (hq : Denotes tight (quartic x) q) => ?_
  refine Returns.bind_eq (hf.isequal denotes_zero) ?_
  refine Returns.bind_eq (hq.isequal denotes_one) ?_
  refine denotes_one.neg.bind fun m1 hm1 => ?_
  refine Returns.bind_eq (hq.isequal hm1) ?_
  refine denotes_sqrtm1.neg.bind fun ms hms => ?_
  refine Returns.bind_eq (hq.isequal hms) ?_
  refine (ht0.wide.mul denotes_sqrtm1.wide).bind fun isr hisr => ?_
  -- the flags of the source are the cases of the choice
  have hcopy := ccopy_eq hisr.within ht0.within (by decide)
    (!decide (quartic x = -1 ∨ quartic x = -root))
  have hchoice := invSqrt_choice x
  refine .pure ⟨if quartic x = -1 ∨ quartic x = -root then eighth x * root else eighth x, ?_, ?_⟩
  · have hflag : 1 - ((if quartic x = -1 then 1 else 0) ||| if quartic x = -root then 1 else 0) =
        (!decide (quartic x = -1 ∨ quartic x = -root)).toNat := by
      rw [flag_or]
      by_cases h : quartic x = -1 ∨ quartic x = -root <;> simp [h]
    dsimp only
    rw [hflag, hcopy]
    by_cases h : quartic x = -1 ∨ quartic x = -root
    · simpa [h] using hisr
    · simpa [h] using ht0
  · dsimp only
    rw [flag_or, flag_or]
    simpa only [or_assoc] using hchoice

/-- CORRECT: `fe_invert` inverts, and gives zero for zero. -/
theorem invert (hf : Denotes tight x f) : Returns f.invert (Denotes tight x⁻¹) := by
  unfold Fe.invert
  refine hf.wide.sq.bind fun t ht => ?_
  refine ht.invsqrt.bind fun r ⟨s, hs, hinv⟩ => ?_
  refine hs.wide.sq.bind fun u hu => ?_
  refine (hu.wide.mul hf.wide).mono fun g hg => ?_
  have hval : s * s * x = x⁻¹ := by
    by_cases hx : x = 0
    · rw [hx, mul_zero, inv_zero]
    · have h := (hinv.square ⟨x, rfl⟩).2 (mul_ne_zero hx hx)
      rw [← mul_assoc] at h
      exact eq_inv_of_mul_eq_one_left h
  rwa [hval] at hg

end Denotes

/-! ### The ladder -/

/-- The four coordinates stand for those of the ladder on numbers. -/
structure Ladder.Stands (l : Ladder) (n : Asys.Ladder) : Prop where
  x2 : Denotes tight n.x2 l.x2
  z2 : Denotes tight n.z2 l.z2
  x3 : Denotes tight n.x3 l.x3
  z3 : Denotes tight n.z3 l.z3

theorem Ladder.Stands.swap {l : Ladder} {n : Asys.Ladder} (h : l.Stands n) (b : Bool) :
    (l.cswap b.toNat).Stands (if b then n.swap else n) := by
  rw [Ladder.cswap, cswap_eq h.x2.within h.x3.within (by decide),
    cswap_eq h.z2.within h.z3.within (by decide)]
  cases b with
  | false => exact h
  | true => exact ⟨h.x3, h.z3, h.x2, h.z2⟩

/-- STEP: a turn of the loop, on limbs and on numbers. -/
theorem ladderStep_spec {x1 : ℕ} {f1 : Fe} (h1 : Denotes tight x1 f1) {l : Ladder} {n : Asys.Ladder}
    (h : l.Stands n) (hn : n.Reduced) :
    Returns (ladderStep f1 l) fun l' => l'.Stands (Asys.ladderStep x1 n) := by
  unfold ladderStep
  refine (h.x3.sub h.z3).bind fun _ ht0 => ?_
  refine (h.x2.sub h.z2).bind fun _ ht1 => ?_
  refine (h.x2.add h.z2).bind fun _ hx2 => ?_
  refine (h.x3.add h.z3).bind fun _ hz2 => ?_
  refine (ht0.mul hx2).bind fun _ hz3 => ?_
  refine (hz2.mul ht1).bind fun _ hz2 => ?_
  refine ht1.sq.bind fun _ ht0 => ?_
  refine hx2.sq.bind fun _ ht1 => ?_
  refine (hz3.add hz2).bind fun _ hx3 => ?_
  refine (hz3.sub hz2).bind fun _ hz2 => ?_
  refine (ht1.wide.mul ht0.wide).bind fun _ hx2 => ?_
  refine (ht1.sub ht0).bind fun _ ht1 => ?_
  refine hz2.sq.bind fun _ hz2 => ?_
  refine (ht1.mulSmall ⟨by decide, by decide⟩).bind fun _ hz3 => ?_
  refine hx3.sq.bind fun _ hx3 => ?_
  refine (ht0.add hz3).bind fun _ ht0 => ?_
  refine (h1.wide.mul hz2.wide).bind fun _ hz3 => ?_
  refine (ht1.mul ht0).bind fun _ hz2 => ?_
  refine .pure ⟨?_, ?_, ?_, ?_⟩
  all_goals
    simp only [Asys.ladderStep, cast_feMul, cast_feAdd, cast_feSub _ hn.z2, cast_feSub _ hn.z3,
      cast_feSub _ (feMul_lt _ _), Nat.cast_ofNat]
  · exact hx2
  · simpa only [Int.cast_ofNat] using hz2
  · exact hx3
  · exact hz3

/-- Bit `i` of the scalar. -/
theorem scalarBit_eq (s : List UInt8) (i : ℕ) : scalarBit s i = ((loadLe s).testBit i).toNat := by
  have hi : (i &&& 7) + 8 * (i >>> 3) = i := by
    rw [Nat.shiftRight_eq_div_pow, show i &&& 7 = i % 8 from Nat.and_two_pow_sub_one_eq_mod i 3]
    omega
  have hlt : i &&& 7 < 8 := Nat.lt_succ_of_le Nat.and_le_right
  have hbit : ((loadLe s / 2 ^ (8 * (i >>> 3)) % 2 ^ 8).testBit (i &&& 7)) = (loadLe s).testBit i := by
    rw [Nat.testBit_mod_two_pow, Nat.testBit_div_two_pow, decide_eq_true hlt, Bool.true_and, hi]
  rw [scalarBit, toNat_getD, Nat.and_one_is_mod, Nat.shiftRight_eq_div_pow, ← Nat.toNat_testBit, hbit]

/-- RUN: the loop, with the swap that is due at each turn. -/
theorem ladder_spec {x1 : ℕ} {f1 : Fe} (h1 : Denotes tight x1 f1) (scalar : List UInt8) (pos : ℕ)
    (swap : Bool) {l : Ladder} {n : Asys.Ladder} (h : l.Stands (if swap then n.swap else n))
    (hn : n.Reduced) :
    Returns (ladder f1 scalar pos swap.toNat l) fun r =>
      (r.2.cswap r.1).Stands (Asys.ladder x1 (loadLe scalar) pos n) := by
  induction pos generalizing swap l n with
  | zero =>
    refine .pure ?_
    have hswap := h.swap swap
    cases swap with
    | false => exact hswap
    | true => exact hswap
  | succ pos ih =>
    rw [ladder, Asys.ladder, scalarBit_eq]
    generalize (loadLe scalar).testBit pos = b
    have hxor : swap.toNat ^^^ b.toNat = (swap ^^ b).toNat := by cases swap <;> cases b <;> rfl
    have hswap : (l.cswap (swap ^^ b).toNat).Stands (if b then n.swap else n) := by
      have h2 := h.swap (swap ^^ b)
      cases swap <;> cases b <;> exact h2
    have hred : (if b then n.swap else n).Reduced := by
      cases b with
      | false => exact hn
      | true => exact hn.swap
    rw [hxor]
    refine (ladderStep_spec h1 hswap hred).bind fun l' hl' => ?_
    cases b with
    | false => exact ih false hl' (ladderStep_reduced _ _)
    | true => exact ih true hl' (ladderStep_reduced _ _).swap

/-- CORRECT: the scalar multiplication in limbs is that on numbers. -/
theorem scalarmult_eq (scalar p : List UInt8) (nbBits : ℕ) :
    scalarmult scalar p nbBits = some (Asys.scalarmult scalar p nbBits) := by
  apply Returns.eq_some
  unfold scalarmult
  have hx1 : Returns (fromBytes p) (Denotes tight (loadLe p % 2 ^ 255 % feP : ℕ)) := by
    refine (fromBytes_spec p).mono fun f ⟨hw, k, hval⟩ => ⟨hw, ?_⟩
    rw [hval, cast_mod, Int.cast_sub, Int.cast_mul, Int.cast_natCast, Int.cast_natCast, cast_feP,
      mul_zero, sub_zero]
  refine hx1.bind fun x1 h1 => ?_
  have hzero : Denotes tight (0 : ℕ) zero := by rw [Nat.cast_zero]; exact denotes_zero
  have hone : Denotes tight (1 : ℕ) one := by rw [Nat.cast_one]; exact denotes_one
  have hinit : (⟨one, zero, x1, one⟩ : Ladder).Stands ⟨1, 0, loadLe p % 2 ^ 255 % feP, 1⟩ :=
    ⟨hone, hzero, h1, hone⟩
  have hrun := ladder_spec h1 scalar nbBits false hinit
    ⟨one_lt_feP, feP_pos, Nat.mod_lt _ feP_pos, one_lt_feP⟩
  refine hrun.bind fun r hr => ?_
  refine hr.z2.invert.bind fun z2 hz2 => ?_
  refine (hr.x2.wide.mul hz2.wide).bind fun x2 hx2 => ?_
  refine .of_eq (Denotes.toBytes (feMul_lt _ _) (n := feMul _ (feInvert _)) ?_) rfl
  rw [cast_feMul, cast_feInvert]
  exact hx2

/-- CORRECT: `crypto_x25519` in limbs does not overflow, and computes the X25519 on numbers. -/
theorem cryptoX25519_eq (yourSecretKey theirPublicKey : List UInt8) :
    cryptoX25519 yourSecretKey theirPublicKey =
      some (Asys.cryptoX25519 yourSecretKey theirPublicKey) :=
  scalarmult_eq _ _ _

theorem cryptoX25519PublicKey_eq (secretKey : List UInt8) :
    cryptoX25519PublicKey secretKey = some (Asys.cryptoX25519PublicKey secretKey) := by
  have hbase : loadLe basePoint = loadLe [9] := loadLe_append_zeros [9] 31
  rw [cryptoX25519PublicKey, cryptoX25519_eq, Asys.cryptoX25519, Asys.scalarmult, hbase]
  rfl

/-- CORRECT: `fe_invert` inverts and takes zero to zero; `invsqrt` tells squares from nonsquares and
    gives the inverse of a root, as its comment says. -/
theorem inverse_and_root {x : ZMod feP} {f : Fe} (hf : Denotes tight x f) :
    (∃ g, f.invert = some g ∧ Denotes tight x⁻¹ g) ∧
      ∃ g b s, f.invsqrt = some (g, b) ∧ Denotes tight s g ∧ (x = 0 → s = 0) ∧
        (IsSquare x → b = 1 ∧ (x ≠ 0 → s * s * x = 1)) ∧
        (¬ IsSquare x → b = 0 ∧ s * s * x = root ∧ root * root = -1) := by
  obtain ⟨⟨g, b⟩, heq, s, hs, hzero, hsquare, hnonsquare⟩ := hf.invsqrt
  refine ⟨hf.invert, g, b, s, heq, hs, hzero, hsquare, fun hn => ?_⟩
  obtain ⟨hb, hroot⟩ := hnonsquare hn
  exact ⟨hb, hroot, root_mul_self⟩

/-- The limbs of `sqrtm1` are those of such an element. -/
theorem sqrtm1_invert : ∃ g, sqrtm1.invert = some g ∧ Denotes tight root⁻¹ g :=
  (inverse_and_root denotes_sqrtm1).1

end Fe

end Asys
