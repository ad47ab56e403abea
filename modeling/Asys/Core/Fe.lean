import Mathlib.Algebra.Order.Ring.Abs
import Mathlib.Data.Int.ModEq
import Mathlib.Tactic.LinearCombination
import Mathlib.Tactic.Positivity
import Mathlib.Tactic.Ring
import Asys.Core.Monocypher
import Asys.Lib.Returns

/-! # fe: the field of X25519 in ten limbs

    A field element is ten signed limbs of 26 and 25 bits in turn. The sums and products of the
    source are computed with the overflow of `i32` and `i64` as a failure; within the bounds that
    its comments give, none of the operations fails, and each does to the values modulo
    `2 ^ 255 - 19` what its name says. -/

namespace Asys

/-! ### Checked words -/

/-- A value of type `i32`, unless it overflows. -/
def i32 (x : ℤ) : Option ℤ := if -0x80000000 ≤ x ∧ x < 0x80000000 then some x else none

/-- A value of type `i64`, unless it overflows. -/
def i64 (x : ℤ) : Option ℤ :=
  if -0x8000000000000000 ≤ x ∧ x < 0x8000000000000000 then some x else none

/-- A number from `-b` to `b`. -/
structure Limb (b x : ℤ) : Prop where
  lower : -b ≤ x
  upper : x ≤ b

theorem i32_eq {b x : ℤ} (h : Limb b x) (hb : b < 0x80000000) : i32 x = some x := by
  obtain ⟨hlo, hhi⟩ := h
  exact if_pos ⟨by omega, by omega⟩

theorem i64_eq {b x : ℤ} (h : Limb b x) (hb : b < 0x8000000000000000) : i64 x = some x := by
  obtain ⟨hlo, hhi⟩ := h
  exact if_pos ⟨by omega, by omega⟩

theorem limb_iff {b x : ℤ} : Limb b x ↔ |x| ≤ b :=
  ⟨fun h => abs_le.mpr ⟨h.lower, h.upper⟩, fun h => ⟨(abs_le.mp h).1, (abs_le.mp h).2⟩⟩

namespace Limb

variable {a b c k x y : ℤ}

theorem mono (h : Limb a x) (hab : a ≤ b) : Limb b x := ⟨by have := h.lower; omega, h.upper.trans hab⟩

theorem add (hx : Limb a x) (hy : Limb b y) : Limb (a + b) (x + y) := by
  obtain ⟨h1, h2⟩ := hx
  obtain ⟨h3, h4⟩ := hy
  exact ⟨by omega, by omega⟩

theorem neg (hx : Limb a x) : Limb a (-x) := ⟨by have := hx.upper; omega, by have := hx.lower; omega⟩

theorem sub (hx : Limb a x) (hy : Limb b y) : Limb (a + b) (x - y) := sub_eq_add_neg x y ▸ hx.add hy.neg

theorem mul (hx : Limb a x) (hy : Limb b y) : Limb (a * b) (x * y) := by
  rw [limb_iff] at *
  rw [abs_mul]
  exact mul_le_mul hx hy (abs_nonneg y) ((abs_nonneg x).trans hx)

theorem twice (h : Limb a x) : Limb (2 * a) x := by
  obtain ⟨h1, h2⟩ := h
  exact ⟨by omega, by omega⟩

theorem scale (h : Limb b x) (hk : 0 ≤ k) (hc : b * k ≤ c) : Limb c (x * k) :=
  (h.mul ⟨by omega, le_refl k⟩).mono hc

end Limb

/-- A sum of products, from left to right. -/
def sumProducts : ℤ → List (ℤ × ℤ) → Option ℤ
  | acc, [] => some acc
  | acc, (a, b) :: l => do
    let p ← i64 (a * b)
    let acc ← i64 (acc + p)
    sumProducts acc l

/-- RUN: a sum of bounded products stays in its word. -/
theorem sumProducts_eq {a b : ℤ} (hab : 0 ≤ a * b) :
    ∀ (l : List (ℤ × ℤ)) (m acc : ℤ), (∀ p ∈ l, Limb a p.1 ∧ Limb b p.2) → Limb m acc →
      m + l.length * (a * b) < 0x8000000000000000 →
      sumProducts acc l = some (acc + (l.map fun p => p.1 * p.2).sum) ∧
        Limb (m + l.length * (a * b)) (acc + (l.map fun p => p.1 * p.2).sum) := by
  intro l
  induction l with
  | nil =>
    intro m acc _ hacc _
    simpa [sumProducts] using hacc
  | cons p l ih =>
    intro m acc hl hacc hm
    have hp := (hl p List.mem_cons_self).1.mul (hl p List.mem_cons_self).2
    have hlen : ((p :: l).length : ℤ) * (a * b) = a * b + l.length * (a * b) := by
      rw [List.length_cons]
      push_cast
      ring
    have hrest : 0 ≤ (l.length : ℤ) * (a * b) := mul_nonneg (by positivity) hab
    have hm0 : 0 ≤ m := by
      have h1 := hacc.lower
      have h2 := hacc.upper
      omega
    rw [hlen] at hm ⊢
    obtain ⟨hsum, hlimb⟩ := ih (m + a * b) (acc + p.1 * p.2)
      (fun q hq => hl q (List.mem_cons_of_mem _ hq)) (hacc.add hp) (by omega)
    rw [sumProducts, i64_eq hp (by omega)]
    simp only [Option.bind_eq_bind, Option.bind_some, i64_eq (hacc.add hp) (by omega), hsum,
      List.map_cons, List.sum_cons]
    rw [← add_assoc acc, ← add_assoc m]
    exact ⟨rfl, hlimb⟩

/-! ### Field elements -/

@[ext]
structure Fe where
  h0 : ℤ
  h1 : ℤ
  h2 : ℤ
  h3 : ℤ
  h4 : ℤ
  h5 : ℤ
  h6 : ℤ
  h7 : ℤ
  h8 : ℤ
  h9 : ℤ

namespace Fe

/-- The number that the limbs stand for. -/
def val (f : Fe) : ℤ :=
  f.h0 + 2 ^ 26 * f.h1 + 2 ^ 51 * f.h2 + 2 ^ 77 * f.h3 + 2 ^ 102 * f.h4 + 2 ^ 128 * f.h5 +
    2 ^ 153 * f.h6 + 2 ^ 179 * f.h7 + 2 ^ 204 * f.h8 + 2 ^ 230 * f.h9

/-- The odd limbs are at most `b` in absolute value, and the even ones twice that. -/
structure Within (b : ℤ) (f : Fe) : Prop where
  h0 : Limb (2 * b) f.h0
  h1 : Limb b f.h1
  h2 : Limb (2 * b) f.h2
  h3 : Limb b f.h3
  h4 : Limb (2 * b) f.h4
  h5 : Limb b f.h5
  h6 : Limb (2 * b) f.h6
  h7 : Limb b f.h7
  h8 : Limb (2 * b) f.h8
  h9 : Limb b f.h9

/-- `1.1 * 2^24`: what a carry leaves. -/
def tight : ℤ := 18454937

/-- `1.65 * 2^25`: what a product takes. -/
def wide : ℤ := 55364812

/-- A call of the checked operation for each limb. -/
def mapM (op : ℤ → Option ℤ) (f : Fe) : Option Fe := do
  return ⟨← op f.h0, ← op f.h1, ← op f.h2, ← op f.h3, ← op f.h4, ← op f.h5, ← op f.h6, ← op f.h7,
    ← op f.h8, ← op f.h9⟩

/-- A call of the checked operation for each pair of limbs. -/
def zipM (op : ℤ → ℤ → Option ℤ) (f g : Fe) : Option Fe := do
  return ⟨← op f.h0 g.h0, ← op f.h1 g.h1, ← op f.h2 g.h2, ← op f.h3 g.h3, ← op f.h4 g.h4,
    ← op f.h5 g.h5, ← op f.h6 g.h6, ← op f.h7 g.h7, ← op f.h8 g.h8, ← op f.h9 g.h9⟩

theorem mapM_eq {op : ℤ → Option ℤ} {g : ℤ → ℤ} {b : ℤ} {f : Fe} (hf : Within b f)
    (hop : ∀ x, Limb (2 * b) x → op x = some (g x)) :
    f.mapM op = some ⟨g f.h0, g f.h1, g f.h2, g f.h3, g f.h4, g f.h5, g f.h6, g f.h7, g f.h8,
      g f.h9⟩ := by
  have hodd : ∀ x, Limb b x → op x = some (g x) := fun x h => hop x h.twice
  simp only [mapM, hop _ hf.h0, hodd _ hf.h1, hop _ hf.h2, hodd _ hf.h3, hop _ hf.h4, hodd _ hf.h5,
    hop _ hf.h6, hodd _ hf.h7, hop _ hf.h8, hodd _ hf.h9, Option.bind_eq_bind, Option.bind_some]
  rfl

theorem zipM_eq {op : ℤ → ℤ → Option ℤ} {k : ℤ → ℤ → ℤ} {a b : ℤ} {f g : Fe} (hf : Within a f)
    (hg : Within b g) (hop : ∀ x y, Limb (2 * a) x → Limb (2 * b) y → op x y = some (k x y)) :
    f.zipM op g = some ⟨k f.h0 g.h0, k f.h1 g.h1, k f.h2 g.h2, k f.h3 g.h3, k f.h4 g.h4,
      k f.h5 g.h5, k f.h6 g.h6, k f.h7 g.h7, k f.h8 g.h8, k f.h9 g.h9⟩ := by
  have hodd : ∀ x y, Limb a x → Limb b y → op x y = some (k x y) :=
    fun x y hx hy => hop x y hx.twice hy.twice
  simp only [zipM, hop _ _ hf.h0 hg.h0, hodd _ _ hf.h1 hg.h1, hop _ _ hf.h2 hg.h2,
    hodd _ _ hf.h3 hg.h3, hop _ _ hf.h4 hg.h4, hodd _ _ hf.h5 hg.h5, hop _ _ hf.h6 hg.h6,
    hodd _ _ hf.h7 hg.h7, hop _ _ hf.h8 hg.h8, hodd _ _ hf.h9 hg.h9, Option.bind_eq_bind,
    Option.bind_some]
  rfl

/-! ### Carries -/

/-- One assignment of `FE_CARRY`: the limb loses its multiple of `2 ^ bits` to the next. -/
def carry (bits : ℕ) (t next : ℤ) : Option (ℤ × ℤ) := do
  let s ← i64 (t + 2 ^ (bits - 1))
  let c := s / 2 ^ bits
  let m ← i64 (c * 2 ^ bits)
  let t ← i64 (t - m)
  let next ← i64 (next + c)
  return (t, next)

/-- The assignment for the last limb, whose carry goes round to the first. -/
def carryRound (t9 t0 : ℤ) : Option (ℤ × ℤ) := do
  let s ← i64 (t9 + 2 ^ 24)
  let c := s / 2 ^ 25
  let m ← i64 (c * 2 ^ 25)
  let t9 ← i64 (t9 - m)
  let c19 ← i64 (c * 19)
  let t0 ← i64 (t0 + c19)
  return (t9, t0)

/-- The casts at the end of `FE_CARRY`. -/
def narrow (t : Fe) : Option Fe := t.mapM i32

/-- `FE_CARRY`. -/
def feCarry (t : Fe) : Option Fe := do
  let (t0, t1) ← carry 26 t.h0 t.h1
  let (t4, t5) ← carry 26 t.h4 t.h5
  let (t1, t2) ← carry 25 t1 t.h2
  let (t5, t6) ← carry 25 t5 t.h6
  let (t2, t3) ← carry 26 t2 t.h3
  let (t6, t7) ← carry 26 t6 t.h7
  let (t3, t4) ← carry 25 t3 t4
  let (t7, t8) ← carry 25 t7 t.h8
  let (t4, t5) ← carry 26 t4 t5
  let (t8, t9) ← carry 26 t8 t.h9
  let (t9, t0) ← carryRound t9 t0
  let (t0, t1) ← carry 26 t0 t1
  narrow ⟨t0, t1, t2, t3, t4, t5, t6, t7, t8, t9⟩

/-- What `FE_CARRY` takes, with room for the carries. -/
abbrev Carriable (t : Fe) : Prop := Within 0x27ffffffffffffff t

/-- The quotient that is carried and the limb that is left. -/
structure Carried (bits : ℕ) (t c : ℤ) : Prop where
  lower : -2 ^ (bits - 1) ≤ t - c * 2 ^ bits
  upper : t - c * 2 ^ bits < 2 ^ (bits - 1)

theorem carry_eq {bits : ℕ} (hbits : bits = 25 ∨ bits = 26) (t next : ℤ)
    (ht : Limb 0x5fffffffffffffff t) (hnext : Limb 0x5fffffffffffffff next) :
    ∃ c, Carried bits t c ∧ carry bits t next = some (t - c * 2 ^ bits, next + c) := by
  obtain ⟨h1, h2⟩ := ht
  obtain ⟨h3, h4⟩ := hnext
  have hcarried : Carried bits t ((t + 2 ^ (bits - 1)) / 2 ^ bits) := by
    rcases hbits with rfl | rfl <;> exact ⟨by omega, by omega⟩
  refine ⟨_, hcarried, ?_⟩
  obtain ⟨h5, h6⟩ := hcarried
  generalize hc : (t + 2 ^ (bits - 1)) / 2 ^ bits = c at h5 h6 ⊢
  have hs : i64 (t + 2 ^ (bits - 1)) = some _ :=
    if_pos (by rcases hbits with rfl | rfl <;> exact ⟨by omega, by omega⟩)
  have hm : i64 (c * 2 ^ bits) = some _ :=
    if_pos (by rcases hbits with rfl | rfl <;> exact ⟨by omega, by omega⟩)
  have ht : i64 (t - c * 2 ^ bits) = some _ :=
    if_pos (by rcases hbits with rfl | rfl <;> exact ⟨by omega, by omega⟩)
  have hn : i64 (next + c) = some _ :=
    if_pos (by rcases hbits with rfl | rfl <;> exact ⟨by omega, by omega⟩)
  simp only [carry, hs, hc, hm, ht, hn, Option.bind_eq_bind, Option.bind_some]
  rfl

theorem carryRound_eq (t9 t0 : ℤ) (ht : Limb 0x5fffffffffffffff t9)
    (hnext : Limb 0x5fffffffffffffff t0) :
    ∃ c, Carried 25 t9 c ∧ carryRound t9 t0 = some (t9 - c * 2 ^ 25, t0 + c * 19) := by
  obtain ⟨h1, h2⟩ := ht
  obtain ⟨h3, h4⟩ := hnext
  refine ⟨(t9 + 2 ^ 24) / 2 ^ 25, ⟨by omega, by omega⟩, ?_⟩
  generalize hc : (t9 + 2 ^ 24) / 2 ^ 25 = c
  have hs : i64 (t9 + 2 ^ 24) = some _ := if_pos ⟨by omega, by omega⟩
  have hm : i64 (c * 2 ^ 25) = some _ := if_pos ⟨by omega, by omega⟩
  have ht : i64 (t9 - c * 2 ^ 25) = some _ := if_pos ⟨by omega, by omega⟩
  have h19 : i64 (c * 19) = some _ := if_pos ⟨by omega, by omega⟩
  have hn : i64 (t0 + c * 19) = some _ := if_pos ⟨by omega, by omega⟩
  simp only [carryRound, hs, hc, hm, ht, h19, hn, Option.bind_eq_bind, Option.bind_some]
  rfl

theorem narrow_eq {b : ℤ} {f : Fe} (hf : Within b f) (hb : 2 * b < 0x80000000) :
    f.narrow = some f := mapM_eq hf fun _ h => i32_eq h hb

/-- `FE_CARRY` does not overflow, leaves tight limbs, and the same value modulo the prime. -/
theorem feCarry_spec {t : Fe} (ht : Carriable t) :
    Returns (feCarry t) fun h => Within tight h ∧ ∃ k, h.val = t.val - k * feP := by
  obtain ⟨⟨a0, b0⟩, ⟨a1, b1⟩, ⟨a2, b2⟩, ⟨a3, b3⟩, ⟨a4, b4⟩, ⟨a5, b5⟩, ⟨a6, b6⟩, ⟨a7, b7⟩, ⟨a8, b8⟩,
    ⟨a9, b9⟩⟩ := ht
  have h25 : (25 : ℕ) = 25 ∨ (25 : ℕ) = 26 := .inl rfl
  have h26 : (26 : ℕ) = 25 ∨ (26 : ℕ) = 26 := .inr rfl
  obtain ⟨c0, ⟨l0, u0⟩, e0⟩ := carry_eq h26 t.h0 t.h1
    ⟨by omega, by omega⟩ ⟨by omega, by omega⟩
  obtain ⟨c1, ⟨l1, u1⟩, e1⟩ := carry_eq h26 t.h4 t.h5
    ⟨by omega, by omega⟩ ⟨by omega, by omega⟩
  obtain ⟨c2, ⟨l2, u2⟩, e2⟩ := carry_eq h25 (t.h1 + c0) t.h2
    ⟨by omega, by omega⟩ ⟨by omega, by omega⟩
  obtain ⟨c3, ⟨l3, u3⟩, e3⟩ := carry_eq h25 (t.h5 + c1) t.h6
    ⟨by omega, by omega⟩ ⟨by omega, by omega⟩
  obtain ⟨c4, ⟨l4, u4⟩, e4⟩ := carry_eq h26 (t.h2 + c2) t.h3
    ⟨by omega, by omega⟩ ⟨by omega, by omega⟩
  obtain ⟨c5, ⟨l5, u5⟩, e5⟩ := carry_eq h26 (t.h6 + c3) t.h7
    ⟨by omega, by omega⟩ ⟨by omega, by omega⟩
  obtain ⟨c6, ⟨l6, u6⟩, e6⟩ := carry_eq h25 (t.h3 + c4) (t.h4 - c1 * 2 ^ 26)
    ⟨by omega, by omega⟩ ⟨by omega, by omega⟩
  obtain ⟨c7, ⟨l7, u7⟩, e7⟩ := carry_eq h25 (t.h7 + c5) t.h8
    ⟨by omega, by omega⟩ ⟨by omega, by omega⟩
  obtain ⟨c8, ⟨l8, u8⟩, e8⟩ := carry_eq h26 (t.h4 - c1 * 2 ^ 26 + c6) (t.h5 + c1 - c3 * 2 ^ 25)
    ⟨by omega, by omega⟩ ⟨by omega, by omega⟩
  obtain ⟨c9, ⟨l9, u9⟩, e9⟩ := carry_eq h26 (t.h8 + c7) t.h9
    ⟨by omega, by omega⟩ ⟨by omega, by omega⟩
  obtain ⟨c10, ⟨l10, u10⟩, e10⟩ := carryRound_eq (t.h9 + c9) (t.h0 - c0 * 2 ^ 26)
    ⟨by omega, by omega⟩ ⟨by omega, by omega⟩
  obtain ⟨c11, ⟨l11, u11⟩, e11⟩ := carry_eq h26 (t.h0 - c0 * 2 ^ 26 + c10 * 19)
    (t.h1 + c0 - c2 * 2 ^ 25) ⟨by omega, by omega⟩ ⟨by omega, by omega⟩
  have hw : Within tight ⟨t.h0 - c0 * 2 ^ 26 + c10 * 19 - c11 * 2 ^ 26,
      t.h1 + c0 - c2 * 2 ^ 25 + c11, t.h2 + c2 - c4 * 2 ^ 26, t.h3 + c4 - c6 * 2 ^ 25,
      t.h4 - c1 * 2 ^ 26 + c6 - c8 * 2 ^ 26, t.h5 + c1 - c3 * 2 ^ 25 + c8,
      t.h6 + c3 - c5 * 2 ^ 26, t.h7 + c5 - c7 * 2 ^ 25, t.h8 + c7 - c9 * 2 ^ 26,
      t.h9 + c9 - c10 * 2 ^ 25⟩ := by
    constructor <;> dsimp only [tight] <;> exact ⟨by omega, by omega⟩
  refine ⟨_, ?_, hw, c10, ?_⟩
  · simp only [feCarry, e0, e1, e2, e3, e4, e5, e6, e7, e8, e9, e10, e11, Option.bind_eq_bind,
      Option.bind_some]
    exact narrow_eq hw (by decide)
  · simp only [val, feP]
    push_cast
    ring

/-! ### Sums and products -/

def add (f g : Fe) : Option Fe := f.zipM (fun a b => i32 (a + b)) g
def sub (f g : Fe) : Option Fe := f.zipM (fun a b => i32 (a - b)) g
def neg (f : Fe) : Option Fe := f.mapM fun a => i32 (-a)

/-- `fe_mul_small`. -/
def mulSmall (f : Fe) (g : ℤ) : Option Fe := do
  feCarry (← f.mapM fun a => i64 (a * g))

/-- `fe_mul`. -/
def mul : Fe → Fe → Option Fe
  | ⟨f0, f1, f2, f3, f4, f5, f6, f7, f8, f9⟩, ⟨g0, g1, g2, g3, g4, g5, g6, g7, g8, g9⟩ => do
    let F1 ← i32 (f1 * 2)
    let F3 ← i32 (f3 * 2)
    let F5 ← i32 (f5 * 2)
    let F7 ← i32 (f7 * 2)
    let F9 ← i32 (f9 * 2)
    let G1 ← i32 (g1 * 19)
    let G2 ← i32 (g2 * 19)
    let G3 ← i32 (g3 * 19)
    let G4 ← i32 (g4 * 19)
    let G5 ← i32 (g5 * 19)
    let G6 ← i32 (g6 * 19)
    let G7 ← i32 (g7 * 19)
    let G8 ← i32 (g8 * 19)
    let G9 ← i32 (g9 * 19)
    let t0 ← sumProducts 0
      [(f0, g0), (F1, G9), (f2, G8), (F3, G7), (f4, G6), (F5, G5), (f6, G4), (F7, G3), (f8, G2),
      (F9, G1)]
    let t1 ← sumProducts 0
      [(f0, g1), (f1, g0), (f2, G9), (f3, G8), (f4, G7), (f5, G6), (f6, G5), (f7, G4), (f8, G3),
      (f9, G2)]
    let t2 ← sumProducts 0
      [(f0, g2), (F1, g1), (f2, g0), (F3, G9), (f4, G8), (F5, G7), (f6, G6), (F7, G5), (f8, G4),
      (F9, G3)]
    let t3 ← sumProducts 0
      [(f0, g3), (f1, g2), (f2, g1), (f3, g0), (f4, G9), (f5, G8), (f6, G7), (f7, G6), (f8, G5),
      (f9, G4)]
    let t4 ← sumProducts 0
      [(f0, g4), (F1, g3), (f2, g2), (F3, g1), (f4, g0), (F5, G9), (f6, G8), (F7, G7), (f8, G6),
      (F9, G5)]
    let t5 ← sumProducts 0
      [(f0, g5), (f1, g4), (f2, g3), (f3, g2), (f4, g1), (f5, g0), (f6, G9), (f7, G8), (f8, G7),
      (f9, G6)]
    let t6 ← sumProducts 0
      [(f0, g6), (F1, g5), (f2, g4), (F3, g3), (f4, g2), (F5, g1), (f6, g0), (F7, G9), (f8, G8),
      (F9, G7)]
    let t7 ← sumProducts 0
      [(f0, g7), (f1, g6), (f2, g5), (f3, g4), (f4, g3), (f5, g2), (f6, g1), (f7, g0), (f8, G9),
      (f9, G8)]
    let t8 ← sumProducts 0
      [(f0, g8), (F1, g7), (f2, g6), (F3, g5), (f4, g4), (F5, g3), (f6, g2), (F7, g1), (f8, g0),
      (F9, G9)]
    let t9 ← sumProducts 0
      [(f0, g9), (f1, g8), (f2, g7), (f3, g6), (f4, g5), (f5, g4), (f6, g3), (f7, g2), (f8, g1),
      (f9, g0)]
    feCarry ⟨t0, t1, t2, t3, t4, t5, t6, t7, t8, t9⟩

/-- `fe_sq`. -/
def sq : Fe → Option Fe
  | ⟨f0, f1, f2, f3, f4, f5, f6, f7, f8, f9⟩ => do
    let f0_2 ← i32 (f0 * 2)
    let f1_2 ← i32 (f1 * 2)
    let f2_2 ← i32 (f2 * 2)
    let f3_2 ← i32 (f3 * 2)
    let f4_2 ← i32 (f4 * 2)
    let f5_2 ← i32 (f5 * 2)
    let f6_2 ← i32 (f6 * 2)
    let f7_2 ← i32 (f7 * 2)
    let f5_38 ← i32 (f5 * 38)
    let f6_19 ← i32 (f6 * 19)
    let f7_38 ← i32 (f7 * 38)
    let f8_19 ← i32 (f8 * 19)
    let f9_38 ← i32 (f9 * 38)
    let t0 ← sumProducts 0
      [(f0, f0), (f1_2, f9_38), (f2_2, f8_19), (f3_2, f7_38), (f4_2, f6_19), (f5, f5_38)]
    let t1 ← sumProducts 0
      [(f0_2, f1), (f2, f9_38), (f3_2, f8_19), (f4, f7_38), (f5_2, f6_19)]
    let t2 ← sumProducts 0
      [(f0_2, f2), (f1_2, f1), (f3_2, f9_38), (f4_2, f8_19), (f5_2, f7_38), (f6, f6_19)]
    let t3 ← sumProducts 0
      [(f0_2, f3), (f1_2, f2), (f4, f9_38), (f5_2, f8_19), (f6, f7_38)]
    let t4 ← sumProducts 0
      [(f0_2, f4), (f1_2, f3_2), (f2, f2), (f5_2, f9_38), (f6_2, f8_19), (f7, f7_38)]
    let t5 ← sumProducts 0
      [(f0_2, f5), (f1_2, f4), (f2_2, f3), (f6, f9_38), (f7_2, f8_19)]
    let t6 ← sumProducts 0
      [(f0_2, f6), (f1_2, f5_2), (f2_2, f4), (f3_2, f3), (f7_2, f9_38), (f8, f8_19)]
    let t7 ← sumProducts 0
      [(f0_2, f7), (f1_2, f6), (f2_2, f5), (f3_2, f4), (f8, f9_38)]
    let t8 ← sumProducts 0
      [(f0_2, f8), (f1_2, f7_2), (f2_2, f6), (f3_2, f5_2), (f4, f4), (f9, f9_38)]
    let t9 ← sumProducts 0
      [(f0_2, f9), (f1_2, f8), (f2_2, f7), (f3_2, f6), (f4, f5_2)]
    feCarry ⟨t0, t1, t2, t3, t4, t5, t6, t7, t8, t9⟩

/-! ### What the operations do -/

/-- The products of the limbs that stay below `2 ^ 255`. -/
def low (f g : Fe) : Fe where
  h0 := f.h0 * g.h0
  h1 := f.h0 * g.h1 + f.h1 * g.h0
  h2 := f.h0 * g.h2 + 2 * (f.h1 * g.h1) + f.h2 * g.h0
  h3 := f.h0 * g.h3 + f.h1 * g.h2 + f.h2 * g.h1 + f.h3 * g.h0
  h4 := f.h0 * g.h4 + 2 * (f.h1 * g.h3) + f.h2 * g.h2 + 2 * (f.h3 * g.h1) + f.h4 * g.h0
  h5 := f.h0 * g.h5 + f.h1 * g.h4 + f.h2 * g.h3 + f.h3 * g.h2 + f.h4 * g.h1 + f.h5 * g.h0
  h6 := f.h0 * g.h6 + 2 * (f.h1 * g.h5) + f.h2 * g.h4 + 2 * (f.h3 * g.h3) + f.h4 * g.h2 +
    2 * (f.h5 * g.h1) + f.h6 * g.h0
  h7 := f.h0 * g.h7 + f.h1 * g.h6 + f.h2 * g.h5 + f.h3 * g.h4 + f.h4 * g.h3 + f.h5 * g.h2 +
    f.h6 * g.h1 + f.h7 * g.h0
  h8 := f.h0 * g.h8 + 2 * (f.h1 * g.h7) + f.h2 * g.h6 + 2 * (f.h3 * g.h5) + f.h4 * g.h4 +
    2 * (f.h5 * g.h3) + f.h6 * g.h2 + 2 * (f.h7 * g.h1) + f.h8 * g.h0
  h9 := f.h0 * g.h9 + f.h1 * g.h8 + f.h2 * g.h7 + f.h3 * g.h6 + f.h4 * g.h5 + f.h5 * g.h4 +
    f.h6 * g.h3 + f.h7 * g.h2 + f.h8 * g.h1 + f.h9 * g.h0

/-- The products of the limbs from `2 ^ 255` on. -/
def high (f g : Fe) : Fe where
  h0 := 2 * (f.h1 * g.h9) + f.h2 * g.h8 + 2 * (f.h3 * g.h7) + f.h4 * g.h6 + 2 * (f.h5 * g.h5) +
    f.h6 * g.h4 + 2 * (f.h7 * g.h3) + f.h8 * g.h2 + 2 * (f.h9 * g.h1)
  h1 := f.h2 * g.h9 + f.h3 * g.h8 + f.h4 * g.h7 + f.h5 * g.h6 + f.h6 * g.h5 + f.h7 * g.h4 +
    f.h8 * g.h3 + f.h9 * g.h2
  h2 := 2 * (f.h3 * g.h9) + f.h4 * g.h8 + 2 * (f.h5 * g.h7) + f.h6 * g.h6 + 2 * (f.h7 * g.h5) +
    f.h8 * g.h4 + 2 * (f.h9 * g.h3)
  h3 := f.h4 * g.h9 + f.h5 * g.h8 + f.h6 * g.h7 + f.h7 * g.h6 + f.h8 * g.h5 + f.h9 * g.h4
  h4 := 2 * (f.h5 * g.h9) + f.h6 * g.h8 + 2 * (f.h7 * g.h7) + f.h8 * g.h6 + 2 * (f.h9 * g.h5)
  h5 := f.h6 * g.h9 + f.h7 * g.h8 + f.h8 * g.h7 + f.h9 * g.h6
  h6 := 2 * (f.h7 * g.h9) + f.h8 * g.h8 + 2 * (f.h9 * g.h7)
  h7 := f.h8 * g.h9 + f.h9 * g.h8
  h8 := 2 * (f.h9 * g.h9)
  h9 := 0

theorem low_high_val (f g : Fe) : f.val * g.val = (low f g).val + 2 ^ 255 * (high f g).val := by
  simp only [low, high, val]
  ring

/-- The ten sums of `fe_mul`, where `2 ^ 255` counts as 19. -/
def products (f g : Fe) : Fe where
  h0 := (low f g).h0 + 19 * (high f g).h0
  h1 := (low f g).h1 + 19 * (high f g).h1
  h2 := (low f g).h2 + 19 * (high f g).h2
  h3 := (low f g).h3 + 19 * (high f g).h3
  h4 := (low f g).h4 + 19 * (high f g).h4
  h5 := (low f g).h5 + 19 * (high f g).h5
  h6 := (low f g).h6 + 19 * (high f g).h6
  h7 := (low f g).h7 + 19 * (high f g).h7
  h8 := (low f g).h8 + 19 * (high f g).h8
  h9 := (low f g).h9 + 19 * (high f g).h9

theorem products_val (f g : Fe) :
    (products f g).val = f.val * g.val - (high f g).val * feP := by
  have hsum : (products f g).val = (low f g).val + 19 * (high f g).val := by
    simp only [products, val]
    ring
  rw [hsum, low_high_val, feP]
  push_cast
  ring

/-- At most `n` products with first factors up to `a` make a sum that can be carried. -/
structure Room (n : ℕ) (a : ℤ) : Prop where
  nonneg : 0 ≤ a
  sum : n * (a * (38 * wide)) ≤ 0x27ffffffffffffff

/-- What a function computes is `FE_CARRY` of the ten sums `t`. -/
structure Carries (t : Fe) (o : Option Fe) : Prop where
  eq : o = feCarry t
  carriable : Carriable t

namespace Carries

variable {t : Fe} {k : ℤ → Option Fe}

/-- Past a small product, the rest of the function runs on its value. -/
theorem bind_i32 {b x : ℤ} (hx : Limb b x) (hb : b < 0x80000000) (hk : Carries t (k x)) :
    Carries t ((i32 x).bind k) := by
  rwa [i32_eq hx hb, Option.bind_some]

/-- Past a sum of bounded products, the rest of the function runs on its value. -/
theorem bind_sumProducts {n : ℕ} {a : ℤ} (hroom : Room n a) {l : List (ℤ × ℤ)} (hlen : l.length ≤ n)
    (hl : l.Forall fun p => Limb a p.1 ∧ Limb (38 * wide) p.2)
    (hk : ∀ s, s = (l.map fun p => p.1 * p.2).sum → Limb 0x27ffffffffffffff s → Carries t (k s)) :
    Carries t ((sumProducts 0 l).bind k) := by
  have hab : 0 ≤ a * (38 * wide) := mul_nonneg hroom.nonneg (by decide)
  have hsum : 0 + l.length * (a * (38 * wide)) ≤ 0x27ffffffffffffff := by
    rw [zero_add]
    exact (mul_le_mul_of_nonneg_right (by exact_mod_cast hlen) hab).trans hroom.sum
  obtain ⟨heq, hlimb⟩ := sumProducts_eq hab l 0 0 (List.forall_iff_forall_mem.mp hl)
    ⟨le_refl _, le_refl _⟩ (by omega)
  rw [heq, Option.bind_some]
  exact hk _ (zero_add _) (hlimb.mono hsum)

/-- The sums are those of a product. -/
theorem of_products {f g : Fe} {o : Option Fe} (h : Carries (products f g) o) :
    Returns o fun h => Within tight h ∧ ∃ k, h.val = f.val * g.val - k * feP := by
  obtain ⟨r, heq, hw, k, hval⟩ := feCarry_spec h.carriable
  refine ⟨r, h.eq.trans heq, hw, k + (high f g).val, ?_⟩
  rw [hval, products_val]
  ring

end Carries

/-- The factors that stand on the left in `fe_mul`. -/
theorem Within.left {f : Fe} (h : Within wide f) :
    Limb (2 * wide) f.h0 ∧ Limb (2 * wide) f.h1 ∧ Limb (2 * wide) f.h2 ∧ Limb (2 * wide) f.h3 ∧
    Limb (2 * wide) f.h4 ∧ Limb (2 * wide) f.h5 ∧ Limb (2 * wide) f.h6 ∧ Limb (2 * wide) f.h7 ∧
    Limb (2 * wide) f.h8 ∧ Limb (2 * wide) f.h9 ∧ Limb (2 * wide) (f.h1 * 2) ∧
    Limb (2 * wide) (f.h3 * 2) ∧ Limb (2 * wide) (f.h5 * 2) ∧ Limb (2 * wide) (f.h7 * 2) ∧
    Limb (2 * wide) (f.h9 * 2) := by
  have hF : ∀ {x}, Limb wide x → Limb (2 * wide) x := fun h => h.mono (by decide)
  have hF' : ∀ {x}, Limb wide x → Limb (2 * wide) (x * 2) := fun h => h.scale (by decide) (by decide)
  exact ⟨h.h0, hF h.h1, h.h2, hF h.h3, h.h4, hF h.h5, h.h6, hF h.h7, h.h8, hF h.h9,
    hF' h.h1, hF' h.h3, hF' h.h5, hF' h.h7, hF' h.h9⟩

/-- The factors that stand on the right. -/
theorem Within.right {f : Fe} (h : Within wide f) :
    Limb (38 * wide) f.h0 ∧ Limb (38 * wide) f.h1 ∧ Limb (38 * wide) f.h2 ∧
    Limb (38 * wide) f.h3 ∧ Limb (38 * wide) f.h4 ∧ Limb (38 * wide) f.h5 ∧
    Limb (38 * wide) f.h6 ∧ Limb (38 * wide) f.h7 ∧ Limb (38 * wide) f.h8 ∧
    Limb (38 * wide) f.h9 ∧ Limb (38 * wide) (f.h1 * 19) ∧ Limb (38 * wide) (f.h2 * 19) ∧
    Limb (38 * wide) (f.h3 * 19) ∧ Limb (38 * wide) (f.h4 * 19) ∧ Limb (38 * wide) (f.h5 * 19) ∧
    Limb (38 * wide) (f.h6 * 19) ∧ Limb (38 * wide) (f.h7 * 19) ∧ Limb (38 * wide) (f.h8 * 19) ∧
    Limb (38 * wide) (f.h9 * 19) := by
  have hG : ∀ {b x}, b ≤ 2 * wide → Limb b x → Limb (38 * wide) x :=
    fun hb h => h.mono (hb.trans (by decide))
  have hG' : ∀ {b x}, b ≤ 2 * wide → Limb b x → Limb (38 * wide) (x * 19) :=
    fun hb h => (h.mono hb).scale (by decide) (by decide)
  have hodd : wide ≤ 2 * wide := by decide
  exact ⟨hG le_rfl h.h0, hG hodd h.h1, hG le_rfl h.h2, hG hodd h.h3, hG le_rfl h.h4, hG hodd h.h5,
    hG le_rfl h.h6, hG hodd h.h7, hG le_rfl h.h8, hG hodd h.h9, hG' hodd h.h1, hG' le_rfl h.h2,
    hG' hodd h.h3, hG' le_rfl h.h4, hG' hodd h.h5, hG' le_rfl h.h6, hG' hodd h.h7,
    hG' le_rfl h.h8, hG' hodd h.h9⟩

theorem mul_carries {f g : Fe} (hf : Within wide f) (hg : Within wide g) :
    Carries (products f g) (f.mul g) := by
  have hroom : Room 10 (2 * wide) := ⟨by decide, by decide⟩
  unfold mul
  iterate 5 refine Carries.bind_i32 (b := 2 * wide) (by simp only [hf.left]) (by decide) ?_
  iterate 9 refine Carries.bind_i32 (b := 38 * wide) (by simp only [hg.right]) (by decide) ?_
  refine .bind_sumProducts hroom le_rfl (by simp only [List.Forall, hf.left, hg.right, and_self])
    fun t0 e0 l0 => ?_
  refine .bind_sumProducts hroom le_rfl (by simp only [List.Forall, hf.left, hg.right, and_self])
    fun t1 e1 l1 => ?_
  refine .bind_sumProducts hroom le_rfl (by simp only [List.Forall, hf.left, hg.right, and_self])
    fun t2 e2 l2 => ?_
  refine .bind_sumProducts hroom le_rfl (by simp only [List.Forall, hf.left, hg.right, and_self])
    fun t3 e3 l3 => ?_
  refine .bind_sumProducts hroom le_rfl (by simp only [List.Forall, hf.left, hg.right, and_self])
    fun t4 e4 l4 => ?_
  refine .bind_sumProducts hroom le_rfl (by simp only [List.Forall, hf.left, hg.right, and_self])
    fun t5 e5 l5 => ?_
  refine .bind_sumProducts hroom le_rfl (by simp only [List.Forall, hf.left, hg.right, and_self])
    fun t6 e6 l6 => ?_
  refine .bind_sumProducts hroom le_rfl (by simp only [List.Forall, hf.left, hg.right, and_self])
    fun t7 e7 l7 => ?_
  refine .bind_sumProducts hroom le_rfl (by simp only [List.Forall, hf.left, hg.right, and_self])
    fun t8 e8 l8 => ?_
  refine .bind_sumProducts hroom le_rfl (by simp only [List.Forall, hf.left, hg.right, and_self])
    fun t9 e9 l9 => ?_
  have ht : (⟨t0, t1, t2, t3, t4, t5, t6, t7, t8, t9⟩ : Fe) = products f g := by
    simp only [products, low, high, mk.injEq, e0, e1, e2, e3, e4, e5, e6, e7, e8, e9, List.map_cons,
      List.map_nil, List.sum_cons, List.sum_nil]
    refine ⟨?_, ?_, ?_, ?_, ?_, ?_, ?_, ?_, ?_, ?_⟩ <;> ring
  rw [← ht]
  exact ⟨rfl, l0.mono (by decide), l1, l2.mono (by decide), l3, l4.mono (by decide), l5,
    l6.mono (by decide), l7, l8.mono (by decide), l9⟩

/-- The factors of `fe_sq`, on the left. -/
theorem Within.left_sq {f : Fe} (h : Within wide f) :
    Limb (4 * wide) f.h0 ∧ Limb (4 * wide) f.h1 ∧ Limb (4 * wide) f.h2 ∧ Limb (4 * wide) f.h3 ∧
    Limb (4 * wide) f.h4 ∧ Limb (4 * wide) f.h5 ∧ Limb (4 * wide) f.h6 ∧ Limb (4 * wide) f.h7 ∧
    Limb (4 * wide) f.h8 ∧ Limb (4 * wide) f.h9 ∧ Limb (4 * wide) (f.h0 * 2) ∧
    Limb (4 * wide) (f.h1 * 2) ∧ Limb (4 * wide) (f.h2 * 2) ∧ Limb (4 * wide) (f.h3 * 2) ∧
    Limb (4 * wide) (f.h4 * 2) ∧ Limb (4 * wide) (f.h5 * 2) ∧ Limb (4 * wide) (f.h6 * 2) ∧
    Limb (4 * wide) (f.h7 * 2) := by
  have hF : ∀ {b x}, b ≤ 2 * wide → Limb b x → Limb (4 * wide) x :=
    fun hb h => h.mono (hb.trans (by decide))
  have hF' : ∀ {b x}, b ≤ 2 * wide → Limb b x → Limb (4 * wide) (x * 2) :=
    fun hb h => (h.mono hb).scale (by decide) (by decide)
  have hodd : wide ≤ 2 * wide := by decide
  exact ⟨hF le_rfl h.h0, hF hodd h.h1, hF le_rfl h.h2, hF hodd h.h3, hF le_rfl h.h4, hF hodd h.h5,
    hF le_rfl h.h6, hF hodd h.h7, hF le_rfl h.h8, hF hodd h.h9, hF' le_rfl h.h0, hF' hodd h.h1,
    hF' le_rfl h.h2, hF' hodd h.h3, hF' le_rfl h.h4, hF' hodd h.h5, hF' le_rfl h.h6,
    hF' hodd h.h7⟩

/-- The factors of `fe_sq`, on the right. -/
theorem Within.right_sq {f : Fe} (h : Within wide f) :
    Limb (38 * wide) (f.h0 * 2) ∧ Limb (38 * wide) (f.h1 * 2) ∧ Limb (38 * wide) (f.h2 * 2) ∧
    Limb (38 * wide) (f.h3 * 2) ∧ Limb (38 * wide) (f.h4 * 2) ∧ Limb (38 * wide) (f.h5 * 2) ∧
    Limb (38 * wide) (f.h6 * 2) ∧ Limb (38 * wide) (f.h7 * 2) ∧ Limb (38 * wide) (f.h5 * 38) ∧
    Limb (38 * wide) (f.h6 * 19) ∧ Limb (38 * wide) (f.h7 * 38) ∧ Limb (38 * wide) (f.h8 * 19) ∧
    Limb (38 * wide) (f.h9 * 38) := by
  have hG : ∀ {b x}, b ≤ 2 * wide → Limb b x → Limb (38 * wide) (x * 2) :=
    fun hb h => (h.mono hb).scale (by decide) (by decide)
  have hG' : ∀ {x}, Limb (2 * wide) x → Limb (38 * wide) (x * 19) :=
    fun h => h.scale (by decide) (by decide)
  have hG'' : ∀ {x}, Limb wide x → Limb (38 * wide) (x * 38) := fun h => h.scale (by decide) (by decide)
  have hodd : wide ≤ 2 * wide := by decide
  exact ⟨hG le_rfl h.h0, hG hodd h.h1, hG le_rfl h.h2, hG hodd h.h3, hG le_rfl h.h4, hG hodd h.h5,
    hG le_rfl h.h6, hG hodd h.h7, hG'' h.h5, hG' h.h6, hG'' h.h7, hG' h.h8, hG'' h.h9⟩

theorem sq_carries {f : Fe} (hf : Within wide f) : Carries (products f f) f.sq := by
  have hroom : Room 6 (4 * wide) := ⟨by decide, by decide⟩
  unfold sq
  iterate 8 refine Carries.bind_i32 (b := 4 * wide) (by simp only [hf.left_sq]) (by decide) ?_
  iterate 5 refine Carries.bind_i32 (b := 38 * wide) (by simp only [hf.right_sq]) (by decide) ?_
  refine .bind_sumProducts hroom le_rfl
    (by simp only [List.Forall, hf.left_sq, hf.right_sq, hf.right, and_self]) fun t0 e0 l0 => ?_
  refine .bind_sumProducts hroom (Nat.le_succ 5)
    (by simp only [List.Forall, hf.left_sq, hf.right_sq, hf.right, and_self]) fun t1 e1 l1 => ?_
  refine .bind_sumProducts hroom le_rfl
    (by simp only [List.Forall, hf.left_sq, hf.right_sq, hf.right, and_self]) fun t2 e2 l2 => ?_
  refine .bind_sumProducts hroom (Nat.le_succ 5)
    (by simp only [List.Forall, hf.left_sq, hf.right_sq, hf.right, and_self]) fun t3 e3 l3 => ?_
  refine .bind_sumProducts hroom le_rfl
    (by simp only [List.Forall, hf.left_sq, hf.right_sq, hf.right, and_self]) fun t4 e4 l4 => ?_
  refine .bind_sumProducts hroom (Nat.le_succ 5)
    (by simp only [List.Forall, hf.left_sq, hf.right_sq, hf.right, and_self]) fun t5 e5 l5 => ?_
  refine .bind_sumProducts hroom le_rfl
    (by simp only [List.Forall, hf.left_sq, hf.right_sq, hf.right, and_self]) fun t6 e6 l6 => ?_
  refine .bind_sumProducts hroom (Nat.le_succ 5)
    (by simp only [List.Forall, hf.left_sq, hf.right_sq, hf.right, and_self]) fun t7 e7 l7 => ?_
  refine .bind_sumProducts hroom le_rfl
    (by simp only [List.Forall, hf.left_sq, hf.right_sq, hf.right, and_self]) fun t8 e8 l8 => ?_
  refine .bind_sumProducts hroom (Nat.le_succ 5)
    (by simp only [List.Forall, hf.left_sq, hf.right_sq, hf.right, and_self]) fun t9 e9 l9 => ?_
  have ht : (⟨t0, t1, t2, t3, t4, t5, t6, t7, t8, t9⟩ : Fe) = products f f := by
    simp only [products, low, high, mk.injEq, e0, e1, e2, e3, e4, e5, e6, e7, e8, e9, List.map_cons,
      List.map_nil, List.sum_cons, List.sum_nil]
    refine ⟨?_, ?_, ?_, ?_, ?_, ?_, ?_, ?_, ?_, ?_⟩ <;> ring
  rw [← ht]
  exact ⟨rfl, l0.mono (by decide), l1, l2.mono (by decide), l3, l4.mono (by decide), l5,
    l6.mono (by decide), l7, l8.mono (by decide), l9⟩

/-- CORRECT: `fe_mul` does not overflow, and multiplies. -/
theorem mul_spec {f g : Fe} (hf : Within wide f) (hg : Within wide g) :
    Returns (f.mul g) fun h => Within tight h ∧ ∃ k, h.val = f.val * g.val - k * feP :=
  (mul_carries hf hg).of_products

/-- CORRECT: `fe_sq` is `fe_mul` of the element with itself. -/
theorem sq_eq_mul {f : Fe} (hf : Within wide f) : f.sq = f.mul f :=
  (sq_carries hf).eq.trans (mul_carries hf hf).eq.symm

theorem sq_spec {f : Fe} (hf : Within wide f) :
    Returns f.sq fun h => Within tight h ∧ ∃ k, h.val = f.val * f.val - k * feP :=
  (sq_carries hf).of_products

theorem mulSmall_spec {f : Fe} {g : ℤ} (hf : Within wide f) (hg : Limb 0x80000000 g) :
    Returns (f.mulSmall g) fun h => Within tight h ∧ ∃ k, h.val = f.val * g - k * feP := by
  have hmul : f.mapM (fun a => i64 (a * g)) = some _ :=
    mapM_eq hf fun _ h => i64_eq (h.mul hg) (by decide)
  have hodd : ∀ {x}, Limb wide x → Limb 0x27ffffffffffffff (x * g) :=
    fun h => (h.mul hg).mono (by decide)
  have heven : ∀ {x}, Limb (2 * wide) x → Limb (2 * 0x27ffffffffffffff) (x * g) :=
    fun h => (h.mul hg).mono (by decide)
  obtain ⟨h, heq, hw, k, hval⟩ := feCarry_spec (t := ⟨f.h0 * g, f.h1 * g, f.h2 * g, f.h3 * g,
    f.h4 * g, f.h5 * g, f.h6 * g, f.h7 * g, f.h8 * g, f.h9 * g⟩)
    ⟨heven hf.h0, hodd hf.h1, heven hf.h2, hodd hf.h3, heven hf.h4, hodd hf.h5, heven hf.h6,
      hodd hf.h7, heven hf.h8, hodd hf.h9⟩
  refine ⟨h, ?_, hw, k, ?_⟩
  · rw [mulSmall, hmul]
    exact heq
  · rw [hval]
    simp only [val]
    ring

section Sums

variable {a b : ℤ} {f g : Fe}

theorem Within.mono (h : Within a f) (hab : a ≤ b) : Within b f :=
  ⟨h.h0.mono (by omega), h.h1.mono hab, h.h2.mono (by omega), h.h3.mono hab, h.h4.mono (by omega),
    h.h5.mono hab, h.h6.mono (by omega), h.h7.mono hab, h.h8.mono (by omega), h.h9.mono hab⟩

theorem add_spec (hf : Within a f) (hg : Within b g) (hab : 2 * (a + b) < 0x80000000) :
    Returns (f.add g) fun h => Within (a + b) h ∧ h.val = f.val + g.val := by
  have heven : ∀ x y, Limb (2 * a) x → Limb (2 * b) y → Limb (2 * (a + b)) (x + y) :=
    fun _ _ hx hy => (hx.add hy).mono (by omega)
  refine ⟨_, zipM_eq hf hg fun x y hx hy => i32_eq (heven x y hx hy) hab, ?_, ?_⟩
  · exact ⟨heven _ _ hf.h0 hg.h0, hf.h1.add hg.h1, heven _ _ hf.h2 hg.h2, hf.h3.add hg.h3,
      heven _ _ hf.h4 hg.h4, hf.h5.add hg.h5, heven _ _ hf.h6 hg.h6, hf.h7.add hg.h7,
      heven _ _ hf.h8 hg.h8, hf.h9.add hg.h9⟩
  · simp only [val]
    ring

theorem sub_spec (hf : Within a f) (hg : Within b g) (hab : 2 * (a + b) < 0x80000000) :
    Returns (f.sub g) fun h => Within (a + b) h ∧ h.val = f.val - g.val := by
  have heven : ∀ x y, Limb (2 * a) x → Limb (2 * b) y → Limb (2 * (a + b)) (x - y) :=
    fun _ _ hx hy => (hx.sub hy).mono (by omega)
  refine ⟨_, zipM_eq hf hg fun x y hx hy => i32_eq (heven x y hx hy) hab, ?_, ?_⟩
  · exact ⟨heven _ _ hf.h0 hg.h0, hf.h1.sub hg.h1, heven _ _ hf.h2 hg.h2, hf.h3.sub hg.h3,
      heven _ _ hf.h4 hg.h4, hf.h5.sub hg.h5, heven _ _ hf.h6 hg.h6, hf.h7.sub hg.h7,
      heven _ _ hf.h8 hg.h8, hf.h9.sub hg.h9⟩
  · simp only [val]
    ring

theorem neg_spec (hf : Within a f) (ha : 2 * a < 0x80000000) :
    Returns f.neg fun h => Within a h ∧ h.val = -f.val := by
  refine ⟨_, mapM_eq hf fun x hx => i32_eq hx.neg ha, ?_, ?_⟩
  · exact ⟨hf.h0.neg, hf.h1.neg, hf.h2.neg, hf.h3.neg, hf.h4.neg, hf.h5.neg, hf.h6.neg, hf.h7.neg,
      hf.h8.neg, hf.h9.neg⟩
  · simp only [val]
    ring

end Sums

/-! ### Constant-time choices -/

def xorI32 (a b : ℤ) : ℤ := (BitVec.ofInt 32 a ^^^ BitVec.ofInt 32 b).toInt
def andI32 (a b : ℤ) : ℤ := (BitVec.ofInt 32 a &&& BitVec.ofInt 32 b).toInt

/-- What is laid over a limb: all of the difference or nothing. -/
def masked (b : ℕ) (f g : ℤ) : ℤ := andI32 (xorI32 f g) (-b)

/-- A call of the operation for each pair of limbs. -/
def zipWith (op : ℤ → ℤ → ℤ) (f g : Fe) : Fe where
  h0 := op f.h0 g.h0
  h1 := op f.h1 g.h1
  h2 := op f.h2 g.h2
  h3 := op f.h3 g.h3
  h4 := op f.h4 g.h4
  h5 := op f.h5 g.h5
  h6 := op f.h6 g.h6
  h7 := op f.h7 g.h7
  h8 := op f.h8 g.h8
  h9 := op f.h9 g.h9

/-- `fe_ccopy`. -/
def ccopy (f g : Fe) (b : ℕ) : Fe := f.zipWith (fun x y => xorI32 x (masked b x y)) g

/-- `fe_cswap`. -/
def cswap (f g : Fe) (b : ℕ) : Fe × Fe :=
  (f.ccopy g b, f.zipWith (fun x y => xorI32 y (masked b x y)) g)

theorem toInt_ofInt {a x : ℤ} (h : Limb a x) (ha : a < 0x80000000) :
    (BitVec.ofInt 32 x).toInt = x := by
  obtain ⟨h1, h2⟩ := h
  exact BitVec.toInt_ofInt_eq_self (by decide) (by omega) (by omega)

/-- A limb with nothing or with the difference laid over it. -/
theorem xorI32_masked {a x y : ℤ} (b : Bool) (hx : Limb a x) (hy : Limb a y) (ha : a < 0x80000000) :
    xorI32 x (masked b.toNat x y) = (if b then y else x) ∧
      xorI32 y (masked b.toNat x y) = (if b then x else y) := by
  cases b with
  | false => simp [xorI32, masked, andI32, toInt_ofInt hx ha, toInt_ofInt hy ha]
  | true =>
    have hones : BitVec.ofInt 32 (-(1 : ℕ)) = BitVec.allOnes 32 := by decide
    simp only [xorI32, masked, andI32, BitVec.ofInt_toInt, Bool.toNat_true, hones, BitVec.and_allOnes,
      if_true]
    refine ⟨?_, ?_⟩
    · rw [← BitVec.xor_assoc, BitVec.xor_self, BitVec.zero_xor, toInt_ofInt hy ha]
    · rw [BitVec.xor_comm, BitVec.xor_assoc, BitVec.xor_self, BitVec.xor_zero, toInt_ofInt hx ha]

theorem zipWith_eq {a b : ℤ} {f g h : Fe} (hf : Within a f) (hg : Within b g) {op k : ℤ → ℤ → ℤ}
    (hop : ∀ x y, Limb (2 * a) x → Limb (2 * b) y → op x y = k x y) (hh : f.zipWith k g = h) :
    f.zipWith op g = h := by
  rw [← hh]
  exact Fe.ext (hop _ _ hf.h0 hg.h0) (hop _ _ hf.h1.twice hg.h1.twice) (hop _ _ hf.h2 hg.h2)
    (hop _ _ hf.h3.twice hg.h3.twice) (hop _ _ hf.h4 hg.h4) (hop _ _ hf.h5.twice hg.h5.twice)
    (hop _ _ hf.h6 hg.h6) (hop _ _ hf.h7.twice hg.h7.twice) (hop _ _ hf.h8 hg.h8)
    (hop _ _ hf.h9.twice hg.h9.twice)

theorem ccopy_eq {a : ℤ} {f g : Fe} (hf : Within a f) (hg : Within a g) (ha : 2 * a < 0x80000000)
    (b : Bool) : f.ccopy g b.toNat = if b then g else f :=
  zipWith_eq hf hg (fun _ _ hx hy => (xorI32_masked b hx hy ha).1) (by cases b <;> rfl)

/-- `fe_cswap` exchanges the two, or leaves them. -/
theorem cswap_eq {a : ℤ} {f g : Fe} (hf : Within a f) (hg : Within a g) (ha : 2 * a < 0x80000000)
    (b : Bool) : f.cswap g b.toNat = if b then (g, f) else (f, g) := by
  have hright : f.zipWith (fun x y => xorI32 y (masked b.toNat x y)) g = if b then f else g :=
    zipWith_eq hf hg (fun _ _ hx hy => (xorI32_masked b hx hy ha).2) (by cases b <;> rfl)
  rw [cswap, ccopy_eq hf hg ha, hright]
  cases b <;> rfl

/-- CORRECT: on limbs as wide as a sum or a difference of two products, `fe_mul`, `fe_sq` and
    `fe_mul_small` overflow nowhere, give limbs that are tight again, and compute modulo the prime. -/
theorem products_fit {f g : Fe} {n : ℤ} (hf : Within wide f) (hg : Within wide g)
    (hn : Limb 0x80000000 n) :
    (∃ h, f.mul g = some h ∧ Within tight h ∧ h.val % feP = f.val * g.val % feP) ∧
      (∃ h, f.sq = some h ∧ Within tight h ∧ h.val % feP = f.val * f.val % feP) ∧
      ∃ h, f.mulSmall n = some h ∧ Within tight h ∧ h.val % feP = f.val * n % feP := by
  have hmod : ∀ {x y k : ℤ}, x = y - k * feP → x % feP = y % feP := by
    intro x y k h
    rw [h, Int.sub_mul_emod_self_right]
  refine ⟨?_, ?_, ?_⟩
  · obtain ⟨h, heq, hw, k, hval⟩ := mul_spec hf hg
    exact ⟨h, heq, hw, hmod hval⟩
  · obtain ⟨h, heq, hw, k, hval⟩ := sq_spec hf
    exact ⟨h, heq, hw, hmod hval⟩
  · obtain ⟨h, heq, hw, k, hval⟩ := mulSmall_spec hf hn
    exact ⟨h, heq, hw, hmod hval⟩

/-- Limbs at their bound, with both signs. -/
def widest : Fe :=
  ⟨2 * wide, wide, -2 * wide, wide, 2 * wide, -wide, 2 * wide, wide, 2 * wide, wide⟩

theorem widest_fits : ∃ h, widest.mul widest = some h ∧ Within tight h ∧
    h.val % feP = widest.val * widest.val % feP := by
  have hw : Within wide widest := by
    constructor <;> constructor <;> decide
  exact (products_fit (n := 0) hw hw ⟨by decide, by decide⟩).1

end Fe

end Asys
