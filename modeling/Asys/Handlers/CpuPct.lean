import Asys.Handlers.StatusReaders
import Mathlib.Data.List.DropRight

/-! # read_cpu_pct between two samples of /proc/stat

    The idle part of the elapsed time is subtracted from it in 64-bit arithmetic. The iowait counter
    may go back, and then what is left can be more than all of the elapsed time. -/

namespace Asys
open Scan

/-- The first line of `/proc/stat`, and what is behind the eighth counter. -/
def CpuTimes.text (t : CpuTimes) (tail : List UInt8) : List UInt8 :=
  cpuKey ++ 0x20 :: (numbersText [t.u, t.n, t.s, t.i, t.w, t.x, t.y, t.z] ++ tail)

/-- No counter goes back but that of iowait. -/
structure OnlyIowaitBack (a b : CpuTimes) : Prop where
  u : a.u ≤ b.u
  n : a.n ≤ b.n
  s : a.s ≤ b.s
  i : a.i ≤ b.i
  x : a.x ≤ b.x
  y : a.y ≤ b.y
  z : a.z ≤ b.z

/-- The jiffies that were not idle. -/
def busyJiffies (a b : CpuTimes) : ℕ :=
  (b.u.toNat - a.u.toNat) + (b.n.toNat - a.n.toNat) + (b.s.toNat - a.s.toNat) +
    (b.x.toNat - a.x.toNat) + (b.y.toNat - a.y.toNat) + (b.z.toNat - a.z.toNat)

/-- By how much idle and iowait have grown together, negative when they went back. -/
def idleJiffies (a b : CpuTimes) : ℤ :=
  ((b.i.toNat : ℤ) - a.i.toNat) + ((b.w.toNat : ℤ) - a.w.toNat)

/-- The jiffies that were not idle, as a 64-bit counter has them. -/
def busyWord (a b : CpuTimes) : ℕ := busyJiffies a b % 2 ^ 64

/-- All jiffies between the samples, likewise. -/
def elapsedWord (a b : CpuTimes) : ℕ := (((busyJiffies a b : ℤ) + idleJiffies a b) % 2 ^ 64).toNat

/-- By how much idle and iowait have gone back together, likewise: forward by `n` is back by
    `2 ^ 64 - n`. -/
def backWord (a b : CpuTimes) : ℕ := (-idleJiffies a b % 2 ^ 64).toNat

/-- For `busy` jiffies forward and `d` back: a hundred times `d`, less what of a hundred times `busy`
    does not fit into 64 bits, in terms of the jiffies that are left, is 0 or at least 156 in its low
    byte. -/
def BackOk (busy d : ℕ) : Prop :=
  let q := ((100 * d : ℤ) - 2 ^ 64 * (100 * busy / 2 ^ 64 : ℕ)) / ((busy : ℤ) - d)
  q % 256 = 0 ∨ 156 ≤ q % 256

/-- How the counters may have moved between the samples. -/
inductive CpuDeltasOk (a b : CpuTimes) : Prop where
  /-- idle and iowait together do not go back -/
  | forward : 0 ≤ idleJiffies a b → (busyJiffies a b : ℤ) + idleJiffies a b < 2 ^ 64 → CpuDeltasOk a b
  /-- they go back, by no less than the other counters go forward -/
  | further (d : ℕ) : idleJiffies a b = -(d : ℤ) → busyJiffies a b ≤ d → CpuDeltasOk a b
  /-- they go back by less -/
  | back (d : ℕ) : idleJiffies a b = -(d : ℤ) → d < busyJiffies a b → busyJiffies a b < 2 ^ 64 →
      BackOk (busyJiffies a b) d → CpuDeltasOk a b
  /-- there are more jiffies between the samples than 64 bits hold; then it is what the words show -/
  | wrapped : 2 ^ 64 ≤ busyJiffies a b ∨ 2 ^ 64 ≤ (busyJiffies a b : ℤ) + idleJiffies a b →
      (backWord a b = 0 ∨ busyWord a b ≤ backWord a b ∨ BackOk (busyWord a b) (backWord a b)) →
      CpuDeltasOk a b

/-! ### The texts -/

theorem scanU64_skipSpace (s : List UInt8) : scanU64 (skipSpace s) = scanU64 s := by
  rw [scanU64, scanU64, skipSpace, skipSpace, List.dropWhile_idempotent]

theorem scanCpuTimes_text (t : CpuTimes) {tail : List UInt8} (htail : NoDigit tail) :
    scanCpuTimes (t.text tail) = some t := by
  have hnumbers := scanNumbers_text [t.u, t.n, t.s, t.i, t.w, t.x, t.y, t.z] htail
  have hskip : ∀ s, scanNumbers 8 (skipSpace s) = scanNumbers 8 s := fun s => by
    rw [scanNumbers, scanNumbers, scanU64_skipSpace]
  rw [scanCpuTimes, CpuTimes.text, scanLiteral_append, Option.bind_some, skipSpace_blank, hskip]
  have hlength : [t.u, t.n, t.s, t.i, t.w, t.x, t.y, t.z].length = 8 := rfl
  rw [hlength] at hnumbers
  rw [hnumbers]

/-! ### The arithmetic -/

/-- A difference that wraps, in a sum of words. -/
theorem word_add_sub (m d : ℕ) {w : ℕ} (w' : ℕ) (hw : w < 2 ^ 64) :
    (m + d + (2 ^ 64 - w + w')) % 2 ^ 64 =
      (((m : ℤ) + ((d : ℤ) + ((w' : ℤ) - w))) % 2 ^ 64).toNat := by
  omega

theorem toNat_total {a b : CpuTimes} (h : OnlyIowaitBack a b) :
    ((b.u - a.u) + (b.n - a.n) + (b.s - a.s) + (b.i - a.i) + (b.w - a.w) + (b.x - a.x) +
      (b.y - a.y) + (b.z - a.z)).toNat = elapsedWord a b := by
  have hi : ((b.i.toNat - a.i.toNat : ℕ) : ℤ) = (b.i.toNat : ℤ) - a.i.toNat :=
    Int.ofNat_sub (UInt64.le_iff_toNat_le.mp h.i)
  rw [elapsedWord, idleJiffies, ← hi, ← word_add_sub _ _ _ a.w.toNat_lt, busyJiffies]
  simp only [UInt64.toNat_add, Nat.mod_add_mod, UInt64.toNat_sub_of_le _ _ h.u,
    UInt64.toNat_sub_of_le _ _ h.n, UInt64.toNat_sub_of_le _ _ h.s, UInt64.toNat_sub_of_le _ _ h.i,
    UInt64.toNat_sub_of_le _ _ h.x, UInt64.toNat_sub_of_le _ _ h.y, UInt64.toNat_sub_of_le _ _ h.z,
    UInt64.toNat_sub, Nat.add_mod_mod]
  exact congrArg (· % 2 ^ 64) (by ac_rfl)

theorem toNat_busy {a b : CpuTimes} (h : OnlyIowaitBack a b) :
    ((b.u - a.u) + (b.n - a.n) + (b.s - a.s) + (b.i - a.i) + (b.w - a.w) + (b.x - a.x) +
      (b.y - a.y) + (b.z - a.z) - ((b.i - a.i) + (b.w - a.w))).toNat = busyWord a b := by
  have hcancel : (b.u - a.u) + (b.n - a.n) + (b.s - a.s) + (b.i - a.i) + (b.w - a.w) + (b.x - a.x) +
      (b.y - a.y) + (b.z - a.z) - ((b.i - a.i) + (b.w - a.w)) =
      (b.u - a.u) + (b.n - a.n) + (b.s - a.s) + (b.x - a.x) + (b.y - a.y) + (b.z - a.z) := by grind
  rw [hcancel, busyWord, busyJiffies]
  simp only [UInt64.toNat_add, Nat.mod_add_mod, UInt64.toNat_sub_of_le _ _ h.u,
    UInt64.toNat_sub_of_le _ _ h.n, UInt64.toNat_sub_of_le _ _ h.s, UInt64.toNat_sub_of_le _ _ h.x,
    UInt64.toNat_sub_of_le _ _ h.y, UInt64.toNat_sub_of_le _ _ h.z]

/-- The result is there in any case, and it is the low byte of a quotient. -/
theorem cpuPct_value {a b : CpuTimes} (h : OnlyIowaitBack a b) :
    ∃ v, cpuPct a b = some v ∧
      v.toNat = if elapsedWord a b = 0 then 0
        else 100 * busyWord a b % 2 ^ 64 / elapsedWord a b % 256 := by
  have htotal := toNat_total h
  have hbusy := toNat_busy h
  simp only [cpuPct]
  split
  · rename_i hzero
    have hzero' : elapsedWord a b = 0 := htotal.symm.trans (congrArg UInt64.toNat hzero)
    exact ⟨0, rfl, by rw [if_pos hzero']; rfl⟩
  · rename_i hne
    have hne' : elapsedWord a b ≠ 0 := fun h0 => hne (UInt64.toNat_inj.mp (htotal.trans h0))
    refine ⟨_, by rw [divU64, if_neg hne]; rfl, ?_⟩
    rw [if_neg hne', UInt64.toNat_toUInt8, UInt64.toNat_div, UInt64.toNat_mul, hbusy, htotal]
    rfl

/-- What has elapsed is what was busy, less what went back. -/
theorem elapsedWord_eq (a b : CpuTimes) : elapsedWord a b =
    if backWord a b ≤ busyWord a b then busyWord a b - backWord a b
      else busyWord a b + 2 ^ 64 - backWord a b := by
  rw [elapsedWord, backWord, busyWord]
  split <;> omega

/-- A quotient of at most 100 is its own low byte. -/
theorem quotient_le {x t : ℕ} (hle : x ≤ 100 * t) : x / t % 256 ≤ 100 :=
  (Nat.mod_le _ _).trans (Nat.div_le_of_le_mul (hle.trans_eq (Nat.mul_comm _ _)))

theorem quotient_back_iff {busy d : ℕ} (hless : d < busy) :
    100 * busy % 2 ^ 64 / (busy - d) % 256 ≤ 100 ↔ BackOk busy d := by
  have hpos : (0 : ℤ) < (busy : ℤ) - d := by omega
  have hcast : ((busy - d : ℕ) : ℤ) = (busy : ℤ) - d := by omega
  have hquotient : ((100 * busy % 2 ^ 64 / (busy - d) : ℕ) : ℤ) =
      ((100 * d : ℤ) - 2 ^ 64 * (100 * busy / 2 ^ 64 : ℕ)) / ((busy : ℤ) - d) + 100 := by
    have hsum : ((100 * busy % 2 ^ 64 : ℕ) : ℤ) =
        ((100 * d : ℤ) - 2 ^ 64 * (100 * busy / 2 ^ 64 : ℕ)) + 100 * ((busy : ℤ) - d) := by omega
    rw [Int.natCast_ediv, hsum, hcast, Int.add_mul_ediv_right _ _ hpos.ne']
  rw [BackOk]
  generalize ((100 * d : ℤ) - 2 ^ 64 * (100 * busy / 2 ^ 64 : ℕ)) / ((busy : ℤ) - d) = q at hquotient ⊢
  omega

/-- The result in words. -/
theorem word_range_iff (a b : CpuTimes) :
    (if elapsedWord a b = 0 then 0 else 100 * busyWord a b % 2 ^ 64 / elapsedWord a b % 256) ≤ 100 ↔
      backWord a b = 0 ∨ busyWord a b ≤ backWord a b ∨ BackOk (busyWord a b) (backWord a b) := by
  have helapsed := elapsedWord_eq a b
  have hback : backWord a b < 2 ^ 64 := by
    rw [backWord]
    omega
  have hmod := Nat.mod_le (100 * busyWord a b) (2 ^ 64)
  rcases Nat.eq_zero_or_pos (elapsedWord a b) with hzero | hpos
  · rw [if_pos hzero]
    refine iff_of_true (by decide) (Or.inr (Or.inl ?_))
    split at helapsed <;> omega
  rw [if_neg hpos.ne']
  rcases Nat.lt_or_ge (backWord a b) (busyWord a b) with hless | hge
  · rw [if_pos hless.le] at helapsed
    rcases Nat.eq_zero_or_pos (backWord a b) with h0 | h0
    · exact iff_of_true (quotient_le (by omega)) (Or.inl h0)
    · rw [helapsed, quotient_back_iff hless]
      refine ⟨fun h => Or.inr (Or.inr h), fun h => ?_⟩
      rcases h with h | h | h
      · omega
      · omega
      · exact h
  · refine iff_of_true (quotient_le ?_) (Or.inr (Or.inl hge))
    split at helapsed <;> omega

/-- The words show how the counters have moved. -/
theorem cpuDeltasOk_iff {a b : CpuTimes} (h : OnlyIowaitBack a b) : CpuDeltasOk a b ↔
    backWord a b = 0 ∨ busyWord a b ≤ backWord a b ∨ BackOk (busyWord a b) (backWord a b) := by
  have hlow : -2 ^ 64 < idleJiffies a b := by
    have hi := UInt64.le_iff_toNat_le.mp h.i
    have hw := a.w.toNat_lt
    rw [idleJiffies]
    omega
  -- as long as nothing wraps, a word is the number itself
  have hback : ∀ d : ℕ, idleJiffies a b = -(d : ℤ) → backWord a b = d := fun d hd => by
    rw [backWord, hd]
    omega
  have hbusy : busyJiffies a b < 2 ^ 64 → busyWord a b = busyJiffies a b := Nat.mod_eq_of_lt
  constructor
  · rintro (⟨hidle, hfits⟩ | ⟨d, hd, hge⟩ | ⟨d, hd, -, hfits, hok⟩ | ⟨-, hok⟩)
    · rcases eq_or_lt_of_le hidle with hzero | hpos
      · exact Or.inl (hback 0 hzero.symm)
      · refine Or.inr (Or.inl ?_)
        rw [hbusy (by omega), backWord]
        omega
    · rw [hback d hd, hbusy (by omega)]
      exact Or.inr (Or.inl hge)
    · rw [hback d hd, hbusy hfits]
      exact Or.inr (Or.inr hok)
    · exact hok
  · intro hok
    by_cases hwrap : 2 ^ 64 ≤ busyJiffies a b ∨ 2 ^ 64 ≤ (busyJiffies a b : ℤ) + idleJiffies a b
    · exact .wrapped hwrap hok
    obtain ⟨hfits, helapsed⟩ := not_or.mp hwrap
    rcases le_or_gt 0 (idleJiffies a b) with hidle | hidle
    · exact .forward hidle (not_le.mp helapsed)
    obtain ⟨d, hd⟩ : ∃ d : ℕ, idleJiffies a b = -(d : ℤ) := ⟨(-idleJiffies a b).toNat, by omega⟩
    rw [hback d hd, hbusy (not_le.mp hfits)] at hok
    rcases Nat.lt_or_ge d (busyJiffies a b) with hless | hge
    · rcases hok with h0 | hge | hok
      · omega
      · exact .further d hd hge
      · exact .back d hd hless (not_le.mp hfits) hok
    · exact .further d hd hge

/-- CORRECT (exact): the value lies between 0 and 100 exactly when the counters have moved as said. -/
theorem readCpuPct_iff {a b : CpuTimes} {tail tail' : List UInt8} (h : OnlyIowaitBack a b)
    (htail : NoDigit tail) (htail' : NoDigit tail') :
    (∃ v, readCpuPct (some (a.text tail)) (some (b.text tail')) = some v ∧ v ≤ 100) ↔
      CpuDeltasOk a b := by
  obtain ⟨v, hv, hval⟩ := cpuPct_value h
  have hread : readCpuPct (some (a.text tail)) (some (b.text tail')) = some v := by
    rw [readCpuPct, Option.bind_some, Option.bind_some, scanCpuTimes_text a htail,
      scanCpuTimes_text b htail']
    exact hv
  have hle : v ≤ 100 ↔ v.toNat ≤ 100 := UInt8.le_iff_toNat_le
  rw [cpuDeltasOk_iff h, ← word_range_iff, ← hval, ← hle, hread]
  constructor
  · rintro ⟨w, hw, hle'⟩
    rw [Option.some.inj hw]
    exact hle'
  · exact fun hle' => ⟨v, rfl, hle'⟩

/-- Two samples of a processor that has been busy for 10 jiffies, with iowait gone back by 5. -/
theorem cpuPct_back :
    OnlyIowaitBack ⟨100, 0, 0, 500, 20, 0, 0, 0⟩ ⟨110, 0, 0, 500, 15, 0, 0, 0⟩ ∧
      readCpuPct (some (CpuTimes.text ⟨100, 0, 0, 500, 20, 0, 0, 0⟩ [0x0A]))
        (some (CpuTimes.text ⟨110, 0, 0, 500, 15, 0, 0, 0⟩ [0x0A])) = some 200 :=
  ⟨⟨by decide, by decide, by decide, by decide, by decide, by decide, by decide⟩, by decide⟩

/-- iowait goes back by 5 as well, but idle forward by 15. -/
theorem readCpuPct_half :
    ∃ v, readCpuPct (some (CpuTimes.text ⟨100, 0, 0, 500, 20, 0, 0, 0⟩ [0x0A]))
        (some (CpuTimes.text ⟨110, 0, 0, 515, 15, 0, 0, 0⟩ [0x0A])) = some v ∧ v ≤ 100 :=
  (readCpuPct_iff ⟨by decide, by decide, by decide, by decide, by decide, by decide, by decide⟩
    (fun c hc => by rw [← Option.some.inj hc]; rfl) (fun c hc => by rw [← Option.some.inj hc]; rfl)).mpr
      (.forward (by decide) (by decide))

end Asys
