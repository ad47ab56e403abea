import Mathlib.Data.List.Basic
import Mathlib.Data.List.TakeWhile
import Mathlib.Tactic.Common

/-! # Lines, and lines read through a buffer

    `fgets` returns at most `n` symbols and never reads past the end of a line, so a line longer
    than the buffer comes back in several pieces. A text is its `lines`; a reader sees its
    `pieces`, and these are the pieces of the lines, one line after the other (`pieces_eq`). -/

namespace Lines

variable {α : Type*} [DecidableEq α] (nl : α)

/-- The next piece, its newline included, and what is left of the text. -/
def fgets : ℕ → List α → List α × List α
  | 0, s => ([], s)
  | _ + 1, [] => ([], [])
  | n + 1, c :: s =>
    if c = nl then ([c], s)
    else
      let r := fgets n s
      (c :: r.1, r.2)

/-- All pieces until the end of the text, with as much fuel as there are symbols. -/
def piecesFuel (n : ℕ) : ℕ → List α → List (List α)
  | 0, _ => []
  | fuel + 1, s =>
    if s = [] then [] else (fgets nl n s).1 :: piecesFuel n fuel (fgets nl n s).2

def pieces (n : ℕ) (s : List α) : List (List α) := piecesFuel nl n s.length s

/-- The lines of a text with their newlines; the last one may lack it. -/
def lines : List α → List (List α)
  | [] => []
  | c :: s =>
    if c = nl then [c] :: lines s
    else
      match lines s with
      | [] => [[c]]
      | l :: ls => (c :: l) :: ls

/-! ### One call -/

theorem fgets_append (n : ℕ) (s : List α) : (fgets nl n s).1 ++ (fgets nl n s).2 = s := by
  induction n generalizing s with
  | zero => simp [fgets]
  | succ n ih =>
    cases s with
    | nil => simp [fgets]
    | cons c s =>
      by_cases hc : c = nl
      · simp [fgets, hc]
      · simpa [fgets, hc] using ih s

/-- A call with room makes progress. -/
theorem fgets_lt {n : ℕ} {s : List α} (hn : 0 < n) (hs : s ≠ []) :
    (fgets nl n s).2.length < s.length := by
  obtain ⟨n, rfl⟩ := Nat.exists_eq_succ_of_ne_zero hn.ne'
  cases s with
  | nil => exact absurd rfl hs
  | cons c s =>
    by_cases hc : c = nl
    · simp [fgets, hc]
    · have h := congrArg List.length (fgets_append nl n s)
      simp only [List.length_append] at h
      simp only [fgets, if_neg hc, List.length_cons]
      omega

variable {nl}

/-- Inside a line the piece is cut by the buffer alone. -/
theorem fgets_line {l : List α} (h : nl ∉ l.dropLast) (n : ℕ) :
    fgets nl n l = (l.take n, l.drop n) := by
  induction l generalizing n with
  | nil => cases n <;> simp [fgets]
  | cons c l ih =>
    cases n with
    | zero => simp [fgets]
    | succ n =>
      cases l with
      | nil => cases n <;> simp [fgets]
      | cons d l =>
        rw [List.dropLast_cons_of_ne_nil (by simp), List.mem_cons, not_or] at h
        simp only [fgets, if_neg (Ne.symm h.1), List.take_succ_cons, List.drop_succ_cons, ih h.2]

/-- The same with more lines behind, when the buffer ends within this one. -/
theorem fgets_within {t : List α} (h : nl ∉ t) {n : ℕ} (hn : n ≤ t.length) (u : List α) :
    fgets nl n (t ++ u) = (t.take n, t.drop n ++ u) := by
  induction t generalizing n with
  | nil =>
    obtain rfl : n = 0 := Nat.le_zero.mp hn
    rfl
  | cons c t ih =>
    rw [List.mem_cons, not_or] at h
    cases n with
    | zero => rfl
    | succ n =>
      have hn' : n ≤ t.length := Nat.succ_le_succ_iff.mp hn
      simp only [List.cons_append, fgets, if_neg (Ne.symm h.1), ih h.2 hn',
        List.take_succ_cons, List.drop_succ_cons]

/-- With room for the rest of the line, the call returns it and stops behind its newline. -/
theorem fgets_through {t : List α} (h : nl ∉ t) {n : ℕ} (hn : t.length < n) (u : List α) :
    fgets nl n (t ++ nl :: u) = (t ++ [nl], u) := by
  induction t generalizing n with
  | nil =>
    obtain ⟨n, rfl⟩ := Nat.exists_eq_succ_of_ne_zero hn.ne'
    simp [fgets]
  | cons c t ih =>
    rw [List.mem_cons, not_or] at h
    obtain ⟨n, rfl⟩ := Nat.exists_eq_succ_of_ne_zero (Nat.ne_zero_of_lt hn)
    have hn' : t.length < n := Nat.succ_lt_succ_iff.mp hn
    simp only [List.cons_append, fgets, if_neg (Ne.symm h.1), ih h.2 hn']

/-! ### All calls -/

theorem piecesFuel_eq {n fuel : ℕ} (hn : 0 < n) {s : List α} (h : s.length ≤ fuel) :
    piecesFuel nl n fuel s = pieces nl n s := by
  simp only [pieces]
  induction fuel using Nat.strong_induction_on generalizing s with
  | _ fuel ih =>
    cases s with
    | nil => cases fuel <;> simp [piecesFuel]
    | cons c s =>
      obtain ⟨fuel, rfl⟩ := Nat.exists_eq_succ_of_ne_zero (Nat.ne_zero_of_lt h)
      have hlt := fgets_lt nl hn (List.cons_ne_nil c s)
      simp only [List.length_cons] at h hlt
      simp only [List.length_cons, piecesFuel, if_neg (List.cons_ne_nil c s)]
      rw [ih fuel (by omega) (by omega)]
      rcases Nat.lt_or_ge s.length (fuel + 1) with hs | hs
      · rw [ih s.length hs (by omega)]
      · omega

@[simp] theorem pieces_nil (n : ℕ) : pieces nl n [] = [] := rfl

theorem pieces_of_ne_nil {n : ℕ} (hn : 0 < n) {s : List α} (hs : s ≠ []) :
    pieces nl n s = (fgets nl n s).1 :: pieces nl n (fgets nl n s).2 := by
  have hlt := fgets_lt nl hn hs
  obtain ⟨k, hk⟩ := Nat.exists_eq_succ_of_ne_zero (Nat.ne_zero_of_lt hlt)
  have h : pieces nl n s = piecesFuel nl n (k + 1) s := by rw [pieces, hk]
  rw [h, piecesFuel, if_neg hs, piecesFuel_eq hn (by omega)]

/-- Nothing is lost between the calls. -/
theorem flatten_pieces (nl : α) {n : ℕ} (hn : 0 < n) (s : List α) : (pieces nl n s).flatten = s := by
  induction hk : s.length using Nat.strong_induction_on generalizing s with
  | _ k ih =>
    by_cases hs : s = []
    · subst hs
      rfl
    · have hlt := fgets_lt nl hn hs
      rw [pieces_of_ne_nil hn hs, List.flatten_cons, ih _ (hk ▸ hlt) _ rfl, fgets_append]

/-- A line comes back in its first `n` symbols and the pieces of the rest. -/
theorem pieces_line {n : ℕ} (hn : 0 < n) {l : List α} (hl : l ≠ []) (h : nl ∉ l.dropLast) :
    pieces nl n l = l.take n :: pieces nl n (l.drop n) := by
  rw [pieces_of_ne_nil hn hl, fgets_line h]

/-- A finished line is read to its end before the next one is begun. -/
theorem pieces_append {n : ℕ} (hn : 0 < n) {t : List α} (ht : nl ∉ t) (s : List α) :
    pieces nl n (t ++ nl :: s) = pieces nl n (t ++ [nl]) ++ pieces nl n s := by
  induction hk : t.length using Nat.strong_induction_on generalizing t with
  | _ k ih =>
    have hne (u : List α) : t ++ nl :: u ≠ [] := by simp
    rw [pieces_of_ne_nil hn (hne s), pieces_of_ne_nil hn (hne [])]
    rcases Nat.lt_or_ge t.length n with hlt | hge
    · rw [fgets_through ht hlt, fgets_through ht hlt]
      simp
    · rw [fgets_within ht hge, fgets_within ht hge]
      have hdrop : nl ∉ t.drop n := fun h => ht (List.mem_of_mem_drop h)
      have hlen : (t.drop n).length < k := by rw [List.length_drop]; omega
      simp only [ih _ hlen hdrop rfl, List.cons_append]

/-! ### Lines -/

/-- A text is empty, or one line without newline, or a line and a text. -/
theorem lines_cases (nl : α) (s : List α) :
    s = [] ∨ (s ≠ [] ∧ nl ∉ s ∧ lines nl s = [s]) ∨
      ∃ t u, nl ∉ t ∧ s = t ++ nl :: u ∧ lines nl s = (t ++ [nl]) :: lines nl u := by
  induction s with
  | nil => exact .inl rfl
  | cons c s ih =>
    right
    by_cases hc : c = nl
    · refine .inr ⟨[], s, by simp, by simp [hc], ?_⟩
      simp [lines, hc]
    · rcases ih with rfl | ⟨hne, hs, hl⟩ | ⟨t, u, ht, rfl, hl⟩
      · exact .inl ⟨by simp, by simpa using Ne.symm hc, by simp [lines, hc]⟩
      · refine .inl ⟨by simp, ?_, by simp [lines, hc, hl]⟩
        simpa using ⟨Ne.symm hc, hs⟩
      · refine .inr ⟨c :: t, u, ?_, by simp, by simp [lines, hc, hl]⟩
        simpa using ⟨Ne.symm hc, ht⟩

/-- A line is not empty, and a newline can only be its last symbol. -/
theorem mem_lines {s l : List α} (h : l ∈ lines nl s) : l ≠ [] ∧ nl ∉ l.dropLast := by
  induction hk : s.length using Nat.strong_induction_on generalizing s with
  | _ k ih =>
    rcases lines_cases nl s with rfl | ⟨hne, hs, hl⟩ | ⟨t, u, ht, rfl, hl⟩
    · simp [lines] at h
    · rw [hl, List.mem_singleton] at h
      subst h
      exact ⟨hne, fun hmem => hs (List.dropLast_subset _ hmem)⟩
    · rw [hl, List.mem_cons] at h
      rcases h with rfl | h
      · exact ⟨by simp, by simpa using ht⟩
      · refine ih u.length ?_ h rfl
        simp only [List.length_append, List.length_cons] at hk
        omega

/-- RULE: the pieces of a text are the pieces of its lines. -/
theorem pieces_eq {n : ℕ} (hn : 0 < n) (s : List α) :
    pieces nl n s = (lines nl s).flatMap (pieces nl n) := by
  induction hk : s.length using Nat.strong_induction_on generalizing s with
  | _ k ih =>
    rcases lines_cases nl s with rfl | ⟨-, -, hl⟩ | ⟨t, u, ht, rfl, hl⟩
    · rfl
    · simp [hl]
    · have hlen : u.length < k := by
        simp only [List.length_append, List.length_cons] at hk
        omega
      rw [pieces_append hn ht, hl, List.flatMap_cons, ih _ hlen u rfl]

/-! ### Parts of a list -/

variable {γ : Type*}

/-- What the first `n` symbols of a line show behind its leading ones. -/
theorem dropWhile_take (p : γ → Bool) (l : List γ) (n : ℕ) :
    (l.take n).dropWhile p = (l.dropWhile p).take (n - (l.takeWhile p).length) := by
  induction l generalizing n with
  | nil => simp
  | cons c l ih =>
    cases n with
    | zero => simp
    | succ n => by_cases hc : p c <;> simp [hc, ih]

theorem mem_take_iff {l : List γ} {n : ℕ} {k : γ} :
    k ∈ l.take n ↔ ∃ fst lst, l = fst ++ k :: lst ∧ fst.length < n := by
  constructor
  · intro h
    obtain ⟨fst, lst, ht⟩ := List.append_of_mem h
    refine ⟨fst, lst ++ l.drop n, ?_, ?_⟩
    · have hl : l.take n ++ l.drop n = l := List.take_append_drop n l
      rw [ht] at hl
      simpa using hl.symm
    · have hlen : (l.take n).length ≤ n := List.length_take_le n l
      rw [ht, List.length_append, List.length_cons] at hlen
      omega
  · rintro ⟨fst, lst, rfl, hlt⟩
    obtain ⟨m, rfl⟩ := Nat.exists_eq_add_of_lt hlt
    rw [Nat.add_assoc, List.take_length_add_append]
    simp

/-- A list of fewer than `n` symbols is known by its first `n`. -/
theorem eq_of_take_eq {l l' : List γ} {n : ℕ} (h : l.take n = l'.take n)
    (hlt : l'.length < n) : l = l' := by
  have hlen := congrArg List.length h
  rw [List.length_take, List.length_take] at hlen
  rwa [List.take_of_length_le (by omega), List.take_of_length_le (by omega)] at h

end Lines
