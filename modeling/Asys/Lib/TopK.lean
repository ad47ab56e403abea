import Mathlib.Data.List.Induction
import Mathlib.Data.List.Sort

/-! # The first `k` entries of a stable sort, one insertion at a time

    `le a b` says that `a` may stand before `b`. A new entry goes behind every entry that may stand
    before it (`insertLast`), and a bounded table keeps the first `k` entries of the result (`push`).
    What is dropped on the way is never missed: after any sequence of insertions the table has the
    first `k` entries of the stable sort of the whole sequence (`foldl_push`). -/

namespace TopK

variable {α : Type*} (le : α → α → Bool)

/-- `a` goes in front of the first entry that may not stand before it. -/
def insertLast (a : α) : List α → List α
  | [] => [a]
  | b :: l => if le b a then b :: insertLast a l else a :: b :: l

/-- The table with `a`, cut to `k` entries. -/
def push (k : ℕ) (l : List α) (a : α) : List α := (insertLast le a l).take k

variable {le}

/-! ### Insertions at one place -/

/-- The place of the insertion, given as the two parts around it. -/
theorem insertLast_split {a : α} {l₁ l₂ : List α} (h₁ : ∀ b ∈ l₁, le b a = true)
    (h₂ : ∀ b ∈ l₂.head?, le b a = false) : insertLast le a (l₁ ++ l₂) = l₁ ++ a :: l₂ := by
  induction l₁ with
  | nil =>
    cases l₂ with
    | nil => rfl
    | cons b l₂ =>
      have hb : le b a = false := h₂ b rfl
      rw [List.nil_append, insertLast, hb]
      rfl
  | cons b l₁ ih =>
    have hb : le b a = true := h₁ b (List.mem_cons_self)
    rw [List.cons_append, insertLast, if_pos hb, ih fun c hc => h₁ c (List.mem_cons_of_mem b hc)]
    rfl

theorem orderedInsert_split {a : α} {l₁ l₂ : List α} (h₁ : ∀ b ∈ l₁, le a b = false)
    (h₂ : ∀ b ∈ l₂.head?, le a b = true) : (l₁ ++ l₂).orderedInsert (le · ·) a = l₁ ++ a :: l₂ := by
  induction l₁ with
  | nil =>
    cases l₂ with
    | nil => rfl
    | cons b l₂ =>
      have hb : le a b = true := h₂ b rfl
      rw [List.nil_append, List.orderedInsert_cons, if_pos hb]
      rfl
  | cons b l₁ ih =>
    have hb : le a b = false := h₁ b (List.mem_cons_self)
    rw [List.cons_append, List.orderedInsert_cons, hb, if_neg Bool.false_ne_true,
      ih fun c hc => h₁ c (List.mem_cons_of_mem b hc)]
    rfl

/-- An entry beyond the first `k` does not move one of the first `k`. -/
theorem take_insertLast (a : α) (k : ℕ) (l : List α) :
    (insertLast le a (l.take k)).take k = (insertLast le a l).take k := by
  induction l generalizing k with
  | nil => rw [List.take_nil]
  | cons b l ih =>
    cases k with
    | zero => rfl
    | succ k =>
      rw [List.take_succ_cons, insertLast, insertLast]
      split
      · rw [List.take_succ_cons, List.take_succ_cons, ih]
      · have hcut : b :: l.take k = (b :: l).take (k + 1) := rfl
        rw [List.take_succ_cons, List.take_succ_cons, hcut, List.take_take,
          Nat.min_eq_left (Nat.le_succ k)]

/-! ### The stable sort -/

variable (htrans : ∀ a b c, le a b → le b c → le a c) (htotal : ∀ a b, le a b || le b a)
include htrans htotal

/-- The two insertions commute: the one puts its entry before its equals, the other behind. -/
theorem orderedInsert_insertLast (x a : α) (l : List α) :
    (insertLast le a l).orderedInsert (le · ·) x = insertLast le a (l.orderedInsert (le · ·) x) := by
  have hflip : ∀ b c, ¬ le b c = true → le c b = true := fun b c hn => by
    simpa [hn] using htotal b c
  induction l with
  | nil =>
    simp only [insertLast, List.orderedInsert_nil, List.orderedInsert_cons]
  | cons y l ih =>
    by_cases hya : le y a = true
    · by_cases hxy : le x y = true
      · have hxa : le x a = true := htrans x y a hxy hya
        simp only [insertLast, List.orderedInsert_cons, if_pos hya, if_pos hxy, if_pos hxa]
      · simp only [insertLast, List.orderedInsert_cons, if_pos hya, if_neg hxy, ih]
    · by_cases hxa : le x a = true
      · have hxy : le x y = true := htrans x a y hxa (hflip y a hya)
        simp only [insertLast, List.orderedInsert_cons, if_neg hya, if_pos hxy, if_pos hxa]
      · by_cases hxy : le x y = true
        · simp only [insertLast, List.orderedInsert_cons, if_neg hya, if_pos hxy, if_neg hxa]
        · simp only [insertLast, List.orderedInsert_cons, if_neg hya, if_neg hxy, if_neg hxa]

/-- The stable sort takes its entries from the last to the first. -/
theorem mergeSort_cons_eq (a : α) (l : List α) :
    (a :: l).mergeSort le = (l.mergeSort le).orderedInsert (le · ·) a := by
  obtain ⟨l₁, l₂, hal, hl, h₁⟩ := List.mergeSort_cons htrans htotal a l
  have hsorted : (l₁ ++ a :: l₂).Pairwise fun x y => le x y = true :=
    hal ▸ List.pairwise_mergeSort htrans htotal (a :: l)
  rw [hal, hl, orderedInsert_split]
  · intro b hb
    simpa using h₁ b hb
  · intro b hb
    exact List.rel_of_pairwise_cons (List.pairwise_append.mp hsorted).2.1 (List.mem_of_mem_head? hb)

/-- STEP: one more entry at the end of the sequence. -/
theorem mergeSort_concat (l : List α) (a : α) :
    (l ++ [a]).mergeSort le = insertLast le a (l.mergeSort le) := by
  induction l with
  | nil => simp [insertLast]
  | cons b l ih =>
    rw [List.cons_append, mergeSort_cons_eq htrans htotal, mergeSort_cons_eq htrans htotal, ih,
      orderedInsert_insertLast htrans htotal]

/-- RUN: the table after a whole sequence of insertions. -/
theorem foldl_push (k : ℕ) (l : List α) : l.foldl (push le k) [] = (l.mergeSort le).take k := by
  induction l using List.reverseRecOn with
  | nil => simp
  | append_singleton l a ih =>
    rw [List.foldl_append, List.foldl_cons, List.foldl_nil, ih, push, take_insertLast,
      mergeSort_concat htrans htotal]

end TopK
