import Mathlib.Data.List.TakeWhile
import Mathlib.Data.Nat.Digits.Lemmas

/-! # Numbers in texts, as C prints and scans them

    `decimal` is what `%u` and `%llu` print. The scanners are those of `fscanf` and `sscanf`: each
    takes what its directive takes from the front of the text and leaves the rest. A number that is
    printed in front of something else than a digit is scanned back (`scanU64_decimal`). -/

namespace Scan

/-- `isspace` in the C locale. -/
def isSpace (c : UInt8) : Bool := c = 0x20 ∨ (0x09 ≤ c ∧ c ≤ 0x0D)

def isDigit (c : UInt8) : Bool := 0x30 ≤ c ∧ c ≤ 0x39

/-- A blank in a format. -/
def skipSpace (s : List UInt8) : List UInt8 := s.dropWhile isSpace

/-- The number that a row of digits stands for. -/
def digitsValue (ds : List UInt8) : ℕ := ds.foldl (fun n c => 10 * n + (c.toNat - 0x30)) 0

/-- An optional sign: whether it is a minus, and the rest. -/
def scanSign : List UInt8 → Bool × List UInt8
  | [] => (false, [])
  | c :: s => if c = 0x2D then (true, s) else if c = 0x2B then (false, s) else (false, c :: s)

/-- `strtoull` for a row of digits: too large a number becomes the largest one, a minus negates. -/
def strtoull (minus : Bool) (ds : List UInt8) : UInt64 :=
  if 2 ^ 64 ≤ digitsValue ds then 0xFFFFFFFFFFFFFFFF
  else if minus then -UInt64.ofNat (digitsValue ds) else UInt64.ofNat (digitsValue ds)

/-- `%lu` and `%llu`; `none` when there is no number. -/
def scanU64 (s : List UInt8) : Option (UInt64 × List UInt8) :=
  let (minus, s) := scanSign (skipSpace s)
  if s.takeWhile isDigit = [] then none
  else some (strtoull minus (s.takeWhile isDigit), s.dropWhile isDigit)

/-- `%u` keeps the low word of what `%lu` scans. -/
def scanU32 (s : List UInt8) : Option (UInt32 × List UInt8) :=
  (scanU64 s).map fun (n, s) => (n.toUInt32, s)

/-- A character of the format that is not blank. -/
def scanChar (c : UInt8) : List UInt8 → Option (List UInt8)
  | [] => none
  | d :: s => if d = c then some s else none

/-- Several characters of the format. -/
def scanLiteral (lit s : List UInt8) : Option (List UInt8) := lit.foldlM (fun s c => scanChar c s) s

/-- `n` numbers. -/
def scanNumbers : ℕ → List UInt8 → Option (List UInt64 × List UInt8)
  | 0, s => some ([], s)
  | n + 1, s => (scanU64 s).bind fun (v, s) => (scanNumbers n s).map fun (vs, s) => (v :: vs, s)

/-- The text of a number. -/
def decimal (n : ℕ) : List UInt8 :=
  if n = 0 then [0x30] else (Nat.digits 10 n).reverse.map fun d => UInt8.ofNat (0x30 + d)

/-! ### What is printed -/

theorem digitByte {d : ℕ} (h : d < 10) :
    isDigit (UInt8.ofNat (0x30 + d)) = true ∧ (UInt8.ofNat (0x30 + d)).toNat - 0x30 = d := by
  have hval : (UInt8.ofNat (0x30 + d)).toNat = 0x30 + d := by
    rw [UInt8.toNat_ofNat']
    exact Nat.mod_eq_of_lt (by omega)
  refine ⟨?_, by omega⟩
  simp only [isDigit, UInt8.le_iff_toNat_le, hval]
  exact decide_eq_true ⟨Nat.le_add_right _ _, by show 0x30 + d ≤ 57; omega⟩

theorem isDigit_of_mem_decimal {n : ℕ} {c : UInt8} (h : c ∈ decimal n) : isDigit c = true := by
  rw [decimal] at h
  split at h
  · rw [List.mem_singleton.mp h]
    rfl
  · obtain ⟨d, hd, rfl⟩ := List.mem_map.mp h
    exact (digitByte (Nat.digits_lt_base (by decide) (List.mem_reverse.mp hd))).1

theorem decimal_ne_nil (n : ℕ) : decimal n ≠ [] := by
  rw [decimal]
  split
  · simp
  · simpa [Nat.digits_eq_nil_iff_eq_zero] using ‹n ≠ 0›

theorem length_decimal_le {n k : ℕ} (h : n < 10 ^ k) (hk : 0 < k) : (decimal n).length ≤ k := by
  rw [decimal]
  split
  · exact hk
  · rw [List.length_map, List.length_reverse]
    exact (Nat.digits_length_le_iff (by decide) n).mpr h

theorem digitsValue_concat (ds : List UInt8) (c : UInt8) :
    digitsValue (ds ++ [c]) = 10 * digitsValue ds + (c.toNat - 0x30) := by
  rw [digitsValue, List.foldl_append]
  rfl

/-- The digits of a number, the last one first. -/
theorem digitsValue_digits {ds : List ℕ} (h : ∀ d ∈ ds, d < 10) :
    digitsValue (ds.reverse.map fun d => UInt8.ofNat (0x30 + d)) = Nat.ofDigits 10 ds := by
  induction ds with
  | nil => rfl
  | cons d ds ih =>
    have hd := (digitByte (h d List.mem_cons_self)).2
    rw [List.reverse_cons, List.map_append, List.map_singleton, digitsValue_concat, hd,
      ih fun e he => h e (List.mem_cons_of_mem d he), Nat.ofDigits_cons, Nat.add_comm]

theorem digitsValue_decimal (n : ℕ) : digitsValue (decimal n) = n := by
  rw [decimal]
  split
  · subst n
    rfl
  · rw [digitsValue_digits fun d hd => Nat.digits_lt_base (by decide) hd, Nat.ofDigits_digits]

/-! ### What is scanned -/

/-- The text does not begin with a digit. -/
def NoDigit (s : List UInt8) : Prop := ∀ c ∈ s.head?, isDigit c = false

theorem takeWhile_digits {ds s : List UInt8} (hds : ∀ c ∈ ds, isDigit c = true) (hs : NoDigit s) :
    (ds ++ s).takeWhile isDigit = ds ∧ (ds ++ s).dropWhile isDigit = s := by
  rw [List.takeWhile_append_of_pos hds, List.dropWhile_append_of_pos hds]
  cases s with
  | nil => simp
  | cons c s =>
    have hc : isDigit c = false := hs c rfl
    simp [hc]

/-- A digit is no blank and no sign. -/
theorem isDigit_cases {c : UInt8} (h : isDigit c = true) :
    isSpace c = false ∧ c ≠ 0x2D ∧ c ≠ 0x2B ∧ c ≠ 0x20 ∧ c ≠ 0x0A ∧ c ≠ 0 ∧ c ≠ 0x29 := by
  simp only [isDigit, isSpace, UInt8.le_iff_toNat_le, ← UInt8.toNat_inj, decide_eq_true_eq,
    decide_eq_false_iff_not, ne_eq, UInt8.reduceToNat] at h ⊢
  omega

theorem skipSpace_cons {c : UInt8} (s : List UInt8) (h : isSpace c = false) :
    skipSpace (c :: s) = c :: s := by
  rw [skipSpace, List.dropWhile_cons, h]
  rfl

theorem skipSpace_blank (s : List UInt8) : skipSpace (0x20 :: s) = skipSpace s := rfl

theorem scanU64_blank (s : List UInt8) : scanU64 (0x20 :: s) = scanU64 s := rfl

/-- A row of digits in front of something else. -/
theorem scanU64_digits {ds s : List UInt8} (hne : ds ≠ []) (hds : ∀ c ∈ ds, isDigit c = true)
    (hs : NoDigit s) : scanU64 (ds ++ s) = some (strtoull false ds, s) := by
  obtain ⟨htake, hdrop⟩ := takeWhile_digits hds hs
  obtain ⟨c, ds', rfl⟩ := List.exists_cons_of_ne_nil hne
  obtain ⟨hspace, hminus, hplus, -⟩ := isDigit_cases (hds c List.mem_cons_self)
  have hsign : scanSign (skipSpace (c :: ds' ++ s)) = (false, c :: ds' ++ s) := by
    rw [List.cons_append, skipSpace_cons _ hspace, scanSign, if_neg hminus, if_neg hplus]
  rw [scanU64, hsign]
  simp only [htake, hdrop, if_neg (List.cons_ne_nil c ds')]

theorem scanU64_minus {ds s : List UInt8} (hne : ds ≠ []) (hds : ∀ c ∈ ds, isDigit c = true)
    (hs : NoDigit s) : scanU64 (0x2D :: (ds ++ s)) = some (strtoull true ds, s) := by
  obtain ⟨htake, hdrop⟩ := takeWhile_digits hds hs
  have hsign : scanSign (skipSpace (0x2D :: (ds ++ s))) = (true, ds ++ s) := rfl
  rw [scanU64, hsign]
  simp only [htake, hdrop, if_neg hne]

/-- A number of any size in front of something else: the scan is exact up to the largest word. -/
theorem scanU64_decimal_min (n : ℕ) {s : List UInt8} (hs : NoDigit s) :
    scanU64 (decimal n ++ s) = some (UInt64.ofNat (min n (2 ^ 64 - 1)), s) := by
  rw [scanU64_digits (decimal_ne_nil n) (fun c hc => isDigit_of_mem_decimal hc) hs, strtoull,
    digitsValue_decimal]
  by_cases hn : 2 ^ 64 ≤ n
  · rw [if_pos hn, Nat.min_eq_right (by omega)]
    rfl
  · rw [if_neg hn, Nat.min_eq_left (by omega)]
    rfl

/-- CORRECT: a number that fits is scanned back. -/
theorem scanU64_decimal {n : ℕ} {s : List UInt8} (hn : n < 2 ^ 64) (hs : NoDigit s) :
    scanU64 (decimal n ++ s) = some (UInt64.ofNat n, s) := by
  rw [scanU64_decimal_min n hs, Nat.min_eq_left (by omega)]

/-- The texts of several numbers, each behind a blank. -/
def numbersText (vs : List UInt64) : List UInt8 := vs.flatMap fun v => 0x20 :: decimal v.toNat

/-- RUN: numbers behind blanks are scanned back. -/
theorem scanNumbers_text (vs : List UInt64) {s : List UInt8} (hs : NoDigit s) :
    scanNumbers vs.length (numbersText vs ++ s) = some (vs, s) := by
  induction vs with
  | nil => rfl
  | cons v vs ih =>
    have htext : numbersText (v :: vs) ++ s = 0x20 :: (decimal v.toNat ++ (numbersText vs ++ s)) := by
      simp [numbersText]
    have hrest : NoDigit (numbersText vs ++ s) := by
      cases vs with
      | nil => exact hs
      | cons w vs =>
        intro c hc
        rw [← Option.some.inj hc]
        rfl
    rw [htext, List.length_cons, scanNumbers, scanU64_blank, scanU64_decimal v.toNat_lt hrest,
      Option.bind_some]
    dsimp only
    rw [ih, UInt64.ofNat_toNat]
    rfl

/-- A literal that the text begins with. -/
theorem scanLiteral_append (lit s : List UInt8) : scanLiteral lit (lit ++ s) = some s := by
  induction lit with
  | nil => rfl
  | cons c lit ih =>
    have hc : scanChar c (c :: (lit ++ s)) = some (lit ++ s) := if_pos rfl
    rw [scanLiteral, List.cons_append, List.foldlM_cons, hc]
    exact ih

end Scan
