import Mathlib.Data.Nat.Bitwise

/-! # Machine words and their bytes

    Big-endian words built with shifts and ors, two half words in one word, and the signed reading
    of an unsigned word, each with the arithmetic fact that says what it is worth. -/

namespace Words

/-- `((uint32_t)a << 24) | ((uint32_t)b << 16) | ((uint32_t)c << 8) | (uint32_t)d`. -/
def be32 (a b c d : UInt8) : UInt32 :=
  (a.toUInt32 <<< 24) ||| (b.toUInt32 <<< 16) ||| (c.toUInt32 <<< 8) ||| d.toUInt32

/-- The four bytes of a word, most significant first. -/
def putU32 (w : UInt32) : List UInt8 :=
  [(w >>> 24).toUInt8, (w >>> 16).toUInt8, (w >>> 8).toUInt8, w.toUInt8]

/-- The two bytes of a half word, most significant first. -/
def putU16 (w : UInt16) : List UInt8 := [(w >>> 8).toUInt8, w.toUInt8]

/-- The eight bytes of a long word, most significant first. -/
def putU64 (w : UInt64) : List UInt8 :=
  [(w >>> 56).toUInt8, (w >>> 48).toUInt8, (w >>> 40).toUInt8, (w >>> 32).toUInt8,
    (w >>> 24).toUInt8, (w >>> 16).toUInt8, (w >>> 8).toUInt8, w.toUInt8]

/-- The eight bytes of a long word, least significant first. -/
def putLe64 (w : UInt64) : List UInt8 := (List.range 8).map fun i => (w >>> (8 * i).toUInt64).toUInt8

/-- The word at offset `off` of a byte string. -/
def be32At (bs : List UInt8) (off : ℕ) : UInt32 :=
  be32 (bs.getD off 0) (bs.getD (off + 1) 0) (bs.getD (off + 2) 0) (bs.getD (off + 3) 0)

/-- A word behind `n` bytes. -/
theorem be32At_drop (bs : List UInt8) (n off : ℕ) : be32At (bs.drop n) off = be32At bs (n + off) := by
  simp only [be32At, List.getD_eq_getElem?_getD, List.getElem?_drop, Nat.add_assoc]

/-- `((uint16_t)a << 8) | b`. -/
def be16 (a b : UInt8) : UInt16 := (a.toUInt16 <<< 8) ||| b.toUInt16

/-- Two half words in one word: `((uint32_t)hi << 16) | lo`. -/
def join16 (hi lo : UInt16) : UInt32 := (hi.toUInt32 <<< 16) ||| lo.toUInt32

/-- The upper half of a word. -/
def high16 (w : UInt32) : UInt16 := (w >>> 16).toUInt16

/-- The cast of a `uint32_t` to a signed 32-bit integer. -/
def toSigned (w : UInt32) : ℤ := w.toInt32.toInt

theorem or_eq_add {a b n : ℕ} (hb : b < 2 ^ n) : a <<< n ||| b = a * 2 ^ n + b := by
  rw [← Nat.shiftLeft_add_eq_or_of_lt hb, Nat.shiftLeft_eq]

theorem join16_toNat (hi lo : UInt16) : (join16 hi lo).toNat = hi.toNat * 65536 + lo.toNat := by
  have hhi := hi.toNat_lt
  have hlo := lo.toNat_lt
  have hfit : hi.toNat <<< 16 < 2 ^ 32 := by rw [Nat.shiftLeft_eq]; omega
  simp only [join16, UInt32.toNat_or, UInt32.toNat_shiftLeft, UInt16.toNat_toUInt32,
    UInt32.reduceToNat, Nat.reduceMod, Nat.mod_eq_of_lt hfit]
  exact or_eq_add hlo

@[simp] theorem high16_join16 (hi lo : UInt16) : high16 (join16 hi lo) = hi := by
  have hlo := lo.toNat_lt
  have hhi := hi.toNat_lt
  apply UInt16.toNat_inj.mp
  simp only [high16, UInt32.toNat_toUInt16, UInt32.toNat_shiftRight, join16_toNat]
  simp only [UInt32.reduceToNat, Nat.reduceMod, Nat.shiftRight_eq_div_pow]
  omega

/-- A joined word is zero only when both halves are. -/
theorem join16_ne_zero {hi lo : UInt16} (h : lo ≠ 0) : join16 hi lo ≠ 0 := by
  intro hz
  have hj := join16_toNat hi lo
  rw [hz] at hj
  have : lo.toNat = 0 := by simp at hj; omega
  exact h (UInt16.toNat_inj.mp this)

theorem be32_toNat (a b c d : UInt8) :
    (be32 a b c d).toNat = a.toNat * 2 ^ 24 + b.toNat * 2 ^ 16 + c.toNat * 2 ^ 8 + d.toNat := by
  have ha := a.toNat_lt
  have hb := b.toNat_lt
  have hc := c.toNat_lt
  have hd := d.toNat_lt
  have h24 : a.toNat <<< 24 < 2 ^ 32 := by rw [Nat.shiftLeft_eq]; omega
  have h16 : b.toNat <<< 16 < 2 ^ 32 := by rw [Nat.shiftLeft_eq]; omega
  have h8 : c.toNat <<< 8 < 2 ^ 32 := by rw [Nat.shiftLeft_eq]; omega
  simp only [be32, UInt32.toNat_or, UInt32.toNat_shiftLeft, UInt8.toNat_toUInt32]
  simp only [UInt32.reduceToNat, Nat.reduceMod, Nat.mod_eq_of_lt h24, Nat.mod_eq_of_lt h16,
    Nat.mod_eq_of_lt h8]
  -- the ors are nested to the left; each one adds because the lower part fits under the shift
  rw [Nat.or_assoc, Nat.or_assoc, or_eq_add (a := c.toNat) (by omega),
    or_eq_add (a := b.toNat) (by omega), or_eq_add (a := a.toNat) (by omega)]
  omega

/-- Reading back the bytes of a word gives the word. -/
theorem be32At_putU32 (w : UInt32) (rest : List UInt8) : be32At (putU32 w ++ rest) 0 = w := by
  have hw := w.toNat_lt
  apply UInt32.toNat_inj.mp
  simp only [be32At, putU32, List.cons_append, List.getD_cons_zero, List.getD_cons_succ, Nat.zero_add,
    be32_toNat, UInt32.toNat_toUInt8, UInt32.toNat_shiftRight, UInt32.reduceToNat, Nat.reduceMod,
    Nat.shiftRight_eq_div_pow]
  omega

theorem be16_toNat (a b : UInt8) : (be16 a b).toNat = a.toNat * 256 + b.toNat := by
  have ha := a.toNat_lt
  have hb := b.toNat_lt
  have hfit : a.toNat <<< 8 < 2 ^ 16 := by rw [Nat.shiftLeft_eq]; omega
  simp only [be16, UInt16.toNat_or, UInt16.toNat_shiftLeft, UInt8.toNat_toUInt16,
    UInt16.reduceToNat, Nat.reduceMod, Nat.mod_eq_of_lt hfit]
  exact or_eq_add hb

/-- The bytes of the word that two bytes make are these bytes. -/
@[simp] theorem putU16_be16 (a b : UInt8) : putU16 (be16 a b) = [a, b] := by
  have ha := a.toNat_lt
  have hb := b.toNat_lt
  have hhi : ((be16 a b) >>> 8).toUInt8 = a := by
    apply UInt8.toNat_inj.mp
    simp only [UInt16.toNat_toUInt8, UInt16.toNat_shiftRight, be16_toNat, UInt16.reduceToNat,
      Nat.reduceMod, Nat.shiftRight_eq_div_pow]
    omega
  have hlo : (be16 a b).toUInt8 = b := by
    apply UInt8.toNat_inj.mp
    simp only [UInt16.toNat_toUInt8, be16_toNat]
    omega
  rw [putU16, hhi, hlo]

/-- Reading back the bytes of a half word gives the half word. -/
@[simp] theorem be16_putU16 (w : UInt16) : be16 (w >>> 8).toUInt8 w.toUInt8 = w := by
  have hw := w.toNat_lt
  apply UInt16.toNat_inj.mp
  simp only [be16_toNat, UInt16.toNat_toUInt8, UInt16.toNat_shiftRight, UInt16.reduceToNat,
    Nat.reduceMod, Nat.shiftRight_eq_div_pow]
  omega

theorem putU16_injective {w w' : UInt16} (h : putU16 w = putU16 w') : w = w' := by
  simp only [putU16, List.cons.injEq, and_true] at h
  rw [← be16_putU16 w, h.1, h.2, be16_putU16]

/-- Numbers whose `k` low digits agree are equal modulo the `k`-th power of the base. -/
theorem mod_pow_eq_of_digits {b n m k : ℕ} (h : ∀ i < k, n / b ^ i % b = m / b ^ i % b) :
    n % b ^ k = m % b ^ k := by
  induction k with
  | zero => rw [Nat.pow_zero, Nat.mod_one, Nat.mod_one]
  | succ k ih =>
    rw [Nat.mod_pow_succ, Nat.mod_pow_succ, ih fun i hi => h i (Nat.lt_succ_of_lt hi),
      h k (Nat.lt_succ_self k)]

theorem putLe64_injective {w w' : UInt64} (h : putLe64 w = putLe64 w') : w = w' := by
  have hbyte : ∀ i < 8, w.toNat / 256 ^ i % 256 = w'.toNat / 256 ^ i % 256 := by
    intro i hi
    have h8 : ((8 * i).toUInt64).toNat % 64 = 8 * i := by
      simp only [Nat.toUInt64, UInt64.toNat_ofNat']
      omega
    have hb := congrArg UInt8.toNat (List.map_inj_left.mp h i (List.mem_range.mpr hi))
    rw [UInt64.toNat_toUInt8, UInt64.toNat_toUInt8, UInt64.toNat_shiftRight, UInt64.toNat_shiftRight,
      h8, Nat.shiftRight_eq_div_pow, Nat.shiftRight_eq_div_pow, Nat.pow_mul] at hb
    exact hb
  have hmod := mod_pow_eq_of_digits hbyte
  rw [show 256 ^ 8 = 2 ^ 64 from rfl, Nat.mod_eq_of_lt w.toNat_lt, Nat.mod_eq_of_lt w'.toNat_lt] at hmod
  exact UInt64.toNat_inj.mp hmod

theorem add_toUInt64_succ (a : UInt64) (n : ℕ) : a + (n + 1).toUInt64 = a + n.toUInt64 + 1 := by
  rw [UInt64.add_assoc]
  congr 1
  exact UInt64.ofNat_add n 1

/-- A counter does not come back to a value in fewer than 2^64 steps. -/
theorem add_toUInt64_inj {a : UInt64} {i j : ℕ} (hi : i < 2 ^ 64) (hj : j < 2 ^ 64)
    (h : a + i.toUInt64 = a + j.toUInt64) : i = j := by
  have hmod := congrArg UInt64.toNat ((UInt64.add_right_inj a).mp h)
  simp only [Nat.toUInt64, UInt64.toNat_ofNat', Nat.mod_eq_of_lt hi, Nat.mod_eq_of_lt hj] at hmod
  exact hmod

/-- The cast keeps the lower half of the range. -/
theorem toSigned_of_lt {w : UInt32} (h : w.toNat < 2 ^ 31) : toSigned w = w.toNat := by
  have : w.toInt32.toInt = w.toBitVec.toInt := rfl
  rw [toSigned, this, BitVec.toInt_eq_toNat_of_lt (by simpa using by omega)]
  rfl

end Words
