import Asys.Core.Monocypher
import Mathlib.Tactic.Ring

/-! # Little-endian numbers

    What `loadLe` and `storeLe` do to each other, and how a number of several words falls apart. -/

namespace Asys

/-- The bytes `first`, `first + 1` and so on. -/
def bytesFrom (first n : ℕ) : List UInt8 :=
  (List.range' first n).map Nat.toUInt8

@[simp] theorem bytesFrom_length (first n : ℕ) : (bytesFrom first n).length = n := by
  simp [bytesFrom]

@[simp] theorem loadLe_nil : loadLe [] = 0 := rfl

@[simp] theorem loadLe_cons (b : UInt8) (bs : List UInt8) :
    loadLe (b :: bs) = b.toNat + 256 * loadLe bs := rfl

theorem loadLe_lt (bs : List UInt8) : loadLe bs < 256 ^ bs.length := by
  induction bs with
  | nil => exact Nat.one_pos
  | cons b bs ih =>
    have hb := b.toNat_lt
    rw [loadLe_cons, List.length_cons, pow_succ]
    omega

theorem loadLe_append (as bs : List UInt8) :
    loadLe (as ++ bs) = loadLe as + 256 ^ as.length * loadLe bs := by
  induction as with
  | nil => simp
  | cons a as ih =>
    rw [List.cons_append, loadLe_cons, loadLe_cons, ih, List.length_cons, pow_succ]
    ring

/-- Zeros at the end do not count. -/
theorem loadLe_append_zeros (bs : List UInt8) (n : ℕ) :
    loadLe (bs ++ List.replicate n 0) = loadLe bs := by
  have hzeros : loadLe (List.replicate n 0) = 0 := by
    induction n with
    | zero => rfl
    | succ n ih => simp [List.replicate_succ, ih]
  rw [loadLe_append, hzeros, mul_zero, add_zero]

theorem loadLe_storeLe (k n : ℕ) : loadLe (storeLe k n) = n % 256 ^ k := by
  induction k generalizing n with
  | zero => rw [storeLe, loadLe_nil, pow_zero, Nat.mod_one]
  | succ k ih =>
    have hbyte : n.toUInt8.toNat = n % 256 := by simp
    rw [storeLe, loadLe_cons, ih, hbyte, pow_succ', Nat.mod_mul]

theorem storeLe_loadLe (bs : List UInt8) : storeLe bs.length (loadLe bs) = bs := by
  induction bs with
  | nil => rfl
  | cons b bs ih =>
    have hb := b.toNat_lt
    have hlow : (b.toNat + 256 * loadLe bs).toUInt8 = b := by
      apply UInt8.toNat.inj
      simp
    have hhigh : (b.toNat + 256 * loadLe bs) / 256 = loadLe bs := by omega
    rw [loadLe_cons, List.length_cons, storeLe, hlow, hhigh, ih]

/-- `storeLe` sees its bytes alone. -/
theorem storeLe_mod (k n : ℕ) : storeLe k (n % 256 ^ k) = storeLe k n := by
  have h := storeLe_loadLe (storeLe k n)
  rwa [storeLe_length, loadLe_storeLe] at h

theorem storeLe_add (j k n : ℕ) : storeLe (j + k) n = storeLe j n ++ storeLe k (n / 256 ^ j) := by
  induction j generalizing n with
  | zero => simp [storeLe]
  | succ j ih =>
    rw [Nat.succ_add, storeLe, ih, storeLe, List.cons_append, Nat.div_div_eq_div_mul, ← pow_succ']

/-- The number of a buffer of `k`-byte words. -/
theorem loadLe_flatMap (k : ℕ) (ws : List ℕ) :
    loadLe (ws.flatMap (storeLe k)) = ws.foldr (fun w n => w % 256 ^ k + 256 ^ k * n) 0 := by
  induction ws with
  | nil => rfl
  | cons w ws ih =>
    rw [List.flatMap_cons, loadLe_append, loadLe_storeLe, storeLe_length, ih, List.foldr_cons]

/-- The bytes of a number are the only ones of their length with its value. -/
theorem eq_storeLe {bs : List UInt8} {k n : ℕ} (hlen : bs.length = k) (h : loadLe bs = n) :
    bs = storeLe k n := by
  rw [← hlen, ← h, storeLe_loadLe]

theorem loadLe_inj {as bs : List UInt8} (hlen : as.length = bs.length) (h : loadLe as = loadLe bs) :
    as = bs := by
  rw [← storeLe_loadLe as, ← storeLe_loadLe bs, hlen, h]

theorem storeLe_inj {k m n : ℕ} (hm : m < 256 ^ k) (hn : n < 256 ^ k) (h : storeLe k m = storeLe k n) :
    m = n := by
  have hload := congrArg loadLe h
  rwa [loadLe_storeLe, loadLe_storeLe, Nat.mod_eq_of_lt hm, Nat.mod_eq_of_lt hn] at hload

/-- A byte of a buffer, with zeros behind its end. -/
theorem toNat_getD (bs : List UInt8) (k : ℕ) :
    (bs.getD k 0).toNat = loadLe bs / 2 ^ (8 * k) % 2 ^ 8 := by
  induction bs generalizing k with
  | nil => simp
  | cons b bs ih =>
    have hb := b.toNat_lt
    cases k with
    | zero =>
      rw [List.getD_cons_zero, loadLe_cons]
      omega
    | succ k =>
      have hpow : 2 ^ (8 * (k + 1)) = 256 * 2 ^ (8 * k) := by
        rw [Nat.mul_succ, pow_add, mul_comm]
        rfl
      have hlow : (b.toNat + 256 * loadLe bs) / 256 = loadLe bs := by omega
      rw [List.getD_cons_succ, ih, loadLe_cons, hpow, ← Nat.div_div_eq_div_mul, hlow]

/-! ### Words -/

theorem u32_eq {x : ℕ} (h : x < 2 ^ 32) : u32 x = x := Nat.mod_eq_of_lt h

theorem u64_eq {x : ℕ} (h : x < 2 ^ 64) : u64 x = x := Nat.mod_eq_of_lt h

/-- `gap`, for a power of two: what is missing to the next multiple. -/
def gap (x pow2 : ℕ) : ℕ := u64 (0xffffffffffffffff - u64 x + 1) &&& (pow2 - 1)

theorem gap_eq (x : ℕ) {k : ℕ} (hk : k ≤ 64) : gap x (2 ^ k) = (2 ^ k - x % 2 ^ k) % 2 ^ k := by
  obtain ⟨j, hj⟩ := Nat.exists_eq_add_of_le hk
  have h64 : 0x10000000000000000 = 2 ^ k * 2 ^ j := by
    rw [← pow_add, ← hj]
    norm_num
  have hu : ∀ y, u64 y % 2 ^ k = y % 2 ^ k := fun y => by
    rw [u64, h64, Nat.mod_mul_right_mod]
  have hlt : u64 x < 0x10000000000000000 := Nat.mod_lt _ (by norm_num)
  have hsum : 0xffffffffffffffff - u64 x + 1 + u64 x = 2 ^ k * 2 ^ j := by
    rw [← h64]
    omega
  rw [gap, Nat.and_two_pow_sub_one_eq_mod, hu, ← hu x]
  generalize 0xffffffffffffffff - u64 x + 1 = y at hsum ⊢
  generalize u64 x = z at hsum ⊢
  have hpos : 0 < 2 ^ k := Nat.two_pow_pos k
  have hz := Nat.mod_add_div z (2 ^ k)
  have hmod : (y + z % 2 ^ k) % 2 ^ k = 0 := by
    rw [Nat.add_mod_mod, hsum, Nat.mul_mod_right]
  have hzlt := Nat.mod_lt z hpos
  have hylt := Nat.mod_lt y hpos
  rw [← Nat.mod_add_mod] at hmod
  generalize 2 ^ k = b at *
  generalize y % b = v at *
  generalize z % b = w at *
  obtain rfl | hw := Nat.eq_zero_or_pos w
  · rw [Nat.add_zero, Nat.mod_eq_of_lt hylt] at hmod
    rw [Nat.sub_zero, Nat.mod_self, hmod]
  · have hdvd : v + w = b := by
      obtain ⟨q, hq⟩ := Nat.dvd_of_mod_eq_zero hmod
      have hq1 : q = 1 := by
        have hupper : b * q < b * 2 := by omega
        have hlower : 0 < b * q := by omega
        have h2 := Nat.lt_of_mul_lt_mul_left hupper
        have h0 := Nat.pos_of_mul_pos_left hlower
        omega
      rw [hq, hq1, mul_one]
    rw [Nat.mod_eq_of_lt (by omega)]
    omega

/-! ### Loads from a buffer -/

def load24Le (s : List UInt8) (i : ℕ) : ℕ := loadLe ((s.drop i).take 3)
def load32Le (s : List UInt8) (i : ℕ) : ℕ := loadLe ((s.drop i).take 4)

theorem loadLe_split (s : List UInt8) (i k : ℕ) :
    loadLe (s.drop i) = loadLe ((s.drop i).take k) + 256 ^ k * loadLe (s.drop (i + k)) := by
  rw [← List.drop_drop]
  generalize s.drop i = l
  by_cases h : k ≤ l.length
  · conv_lhs => rw [← List.take_append_drop k l]
    rw [loadLe_append, List.length_take_of_le h]
  · rw [List.take_of_length_le (by omega), List.drop_of_length_le (by omega), loadLe_nil, mul_zero,
      add_zero]

theorem loadLe_take_lt (l : List UInt8) (k : ℕ) : loadLe (l.take k) < 256 ^ k := by
  refine (loadLe_lt _).trans_le (Nat.pow_le_pow_right (by decide) ?_)
  rw [List.length_take]
  exact min_le_left _ _

theorem load24Le_lt (s : List UInt8) (i : ℕ) : load24Le s i < 0x1000000 := loadLe_take_lt _ 3

theorem load32Le_lt (s : List UInt8) (i : ℕ) : load32Le s i < 0x100000000 := loadLe_take_lt _ 4

theorem loadLe_take (s : List UInt8) (k : ℕ) : loadLe (s.take k) = loadLe s % 256 ^ k := by
  have h : loadLe s = loadLe (s.take k) + 256 ^ k * loadLe (s.drop (0 + k)) := loadLe_split s 0 k
  rw [h, Nat.add_mul_mod_self_left, Nat.mod_eq_of_lt (loadLe_take_lt s k)]

/-- Sixteen bytes as four words. -/
theorem loadLe_take_16 (s : List UInt8) :
    loadLe (s.take 16) =
      load32Le s 0 + 2 ^ 32 * load32Le s 4 + 2 ^ 64 * load32Le s 8 + 2 ^ 96 * load32Le s 12 := by
  have e0 : loadLe s = load32Le s 0 + 256 ^ 4 * loadLe (s.drop 4) := loadLe_split s 0 4
  have e1 : loadLe (s.drop 4) = load32Le s 4 + 256 ^ 4 * loadLe (s.drop 8) := loadLe_split s 4 4
  have e2 : loadLe (s.drop 8) = load32Le s 8 + 256 ^ 4 * loadLe (s.drop 12) := loadLe_split s 8 4
  have e3 : loadLe (s.drop 12) = load32Le s 12 + 256 ^ 4 * loadLe (s.drop 16) := loadLe_split s 12 4
  have b0 := load32Le_lt s 0
  have b1 := load32Le_lt s 4
  have b2 := load32Le_lt s 8
  have b3 := load32Le_lt s 12
  rw [loadLe_take, e0, e1, e2, e3]
  omega

/-! ### Words of a buffer -/

section LoadWord

variable {w i k n : ℕ} {c : List UInt8}

theorem loadWord_of_le (h : c.length ≤ w * i) : loadWord w c i = 0 := by
  rw [loadWord, List.drop_of_length_le h, List.take_nil, loadLe_nil]

/-- A whole word does not see what comes behind it. -/
theorem loadWord_append (h : w * i + w ≤ c.length) (x : List UInt8) :
    loadWord w (c ++ x) i = loadWord w c i := by
  rw [loadWord, loadWord, List.drop_append_of_le_length (by omega),
    List.take_append_of_le_length (by rw [List.length_drop]; omega)]

/-- Behind whole words the words of the rest follow. -/
theorem loadWord_append_right (hc : c.length = w * k) (x : List UInt8) (i : ℕ) :
    loadWord w (c ++ x) (k + i) = loadWord w x i := by
  rw [loadWord, loadWord, Nat.mul_add, ← hc, ← List.drop_drop, List.drop_left]

theorem loadWord_take (h : w * i + w ≤ n) : loadWord w (c.take n) i = loadWord w c i := by
  rw [loadWord, loadWord, List.drop_take, List.take_take, Nat.min_eq_left (by omega)]

/-- The words of two buffers in a row. -/
theorem map_loadWord_append (hc : c.length = w * k) (x : List UInt8) (n : ℕ) :
    (List.range (k + n)).map (loadWord w (c ++ x)) =
      (List.range k).map (loadWord w c) ++ (List.range n).map (loadWord w x) := by
  rw [List.range_add, List.map_append, List.map_map]
  congr 1
  · refine List.map_congr_left fun i hi => loadWord_append ?_ x
    have hi := List.mem_range.mp hi
    calc w * i + w = w * (i + 1) := (Nat.mul_succ w i).symm
      _ ≤ w * k := Nat.mul_le_mul_left w hi
      _ = c.length := hc.symm
  · exact List.map_congr_left fun i _ => loadWord_append_right hc x i

end LoadWord

end Asys
