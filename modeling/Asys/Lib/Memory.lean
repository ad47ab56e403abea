import Mathlib.Data.List.Basic
import Mathlib.Data.List.Infix
import Mathlib.Logic.Function.Basic
import Mathlib.Tactic.Common

/-! # Pointers and buffers with their bounds

    A program in the `Option` monad of which `none` means that it went wrong: it used a null pointer,
    or a cell outside of what the pointer or the buffer has. What is proved of a buffer is how it
    begins, since a function that fills one writes from the front. -/

namespace Memory

variable {α : Type*}

/-- NULL, or the cells that may be read. -/
abbrev Ptr (α : Type*) := Option (List α)

/-- `p[i]`. -/
def Ptr.read (p : Ptr α) (i : ℕ) : Option α := p.bind fun cells => cells[i]?

/-- `n` cells from `off` on, as `memcpy(_, p + off, n)` reads them. -/
def Ptr.copy (p : Ptr α) (off n : ℕ) : Option (List α) :=
  p.bind fun cells => if off + n ≤ cells.length then some ((cells.drop off).take n) else none

/-- An array of `cap` cells. -/
structure Buf (α : Type*) (cap : ℕ) where
  cells : List α
  length_eq : cells.length = cap

/-- `memcpy(b + off, bs, bs.length)`. -/
def Buf.write {cap : ℕ} (b : Buf α cap) (off : ℕ) (bs : List α) : Option (Buf α cap) :=
  if h : off + bs.length ≤ cap then
    some ⟨b.cells.take off ++ bs ++ b.cells.drop (off + bs.length), by
      have := b.length_eq
      simp only [List.length_append, List.length_take, List.length_drop]
      omega⟩
  else none

/-- Several writes, each with its offset. -/
def Buf.writes {cap : ℕ} (b : Buf α cap) (ws : List (ℕ × List α)) : Option (Buf α cap) :=
  ws.foldlM (fun b w => b.write w.1 w.2) b

/-! ### Reads -/

theorem Ptr.read_some {cells : List α} {i : ℕ} (h : i < cells.length) :
    Ptr.read (some cells) i = some cells[i] :=
  List.getElem?_eq_getElem h

theorem Ptr.copy_some {cells : List α} {off n : ℕ} (h : off + n ≤ cells.length) :
    Ptr.copy (some cells) off n = some ((cells.drop off).take n) :=
  if_pos h

/-- All cells from `off` on. -/
theorem Ptr.copy_rest {cells : List α} {off : ℕ} (h : off ≤ cells.length) :
    Ptr.copy (some cells) off (cells.length - off) = some (cells.drop off) := by
  rw [Ptr.copy_some (Nat.add_sub_cancel' h).le, List.take_of_length_le List.length_drop.le]

theorem Ptr.copy_all {cells : List α} {n : ℕ} (h : cells.length = n) :
    Ptr.copy (some cells) 0 n = some cells := by
  have hrest := Ptr.copy_rest (Nat.zero_le cells.length)
  rwa [h, Nat.sub_zero, List.drop_zero] at hrest

/-- A loop over `n` cells from `off` on that stops at the first one without the property. -/
def Ptr.allFrom (p : Ptr α) (ok : α → Bool) : ℕ → ℕ → Option Bool
  | _, 0 => some true
  | off, n + 1 => (p.read off).bind fun c => if ok c then p.allFrom ok (off + 1) n else some false

theorem Ptr.allFrom_some (cells : List α) (ok : α → Bool) {off n : ℕ} (h : off + n ≤ cells.length) :
    Ptr.allFrom (some cells) ok off n = some (((cells.drop off).take n).all ok) := by
  induction n generalizing off with
  | zero => simp [Ptr.allFrom]
  | succ n ih =>
    have hoff : off < cells.length := by omega
    rw [Ptr.allFrom, Ptr.read_some hoff, Option.bind_some, List.drop_eq_getElem_cons hoff,
      List.take_succ_cons, List.all_cons]
    cases hc : ok cells[off] with
    | true => rw [if_pos rfl, ih (by omega), Bool.true_and]
    | false => rw [if_neg Bool.false_ne_true, Bool.false_and]

/-! ### A write to one cell -/

theorem Buf.write_cell {cap : ℕ} (b : Buf α cap) {i : ℕ} (x : α) (h : i < cap) :
    ∃ b', b.write i [x] = some b' ∧ b'.cells = b.cells.set i x := by
  refine ⟨_, dif_pos h, ?_⟩
  have hi : i < b.cells.length := h.trans_eq b.length_eq.symm
  rw [List.set_eq_take_append_cons_drop, if_pos hi]
  show b.cells.take i ++ [x] ++ b.cells.drop (i + 1) = _
  rw [List.append_assoc, List.singleton_append]

/-- A cell of an array that holds the values of `f`. -/
theorem set_map_range (f : ℕ → α) (n i : ℕ) (x : α) :
    ((List.range n).map f).set i x = (List.range n).map (Function.update f i x) := by
  refine List.ext_getElem (by simp) fun j _ _ => ?_
  simp only [List.getElem_set, List.getElem_map, List.getElem_range, Function.update_apply, eq_comm]

/-! ### Writes from the front -/

section
variable {cap : ℕ} {b : Buf α cap} {pre : List α} {z : α} {k : ℕ}

/-- The buffer begins with `pre` and `k` cells of `z`. -/
def Buf.Begins (b : Buf α cap) (pre : List α) (z : α) (k : ℕ) : Prop :=
  pre ++ List.replicate k z <+: b.cells

theorem Buf.begins_nil (b : Buf α cap) (z : α) : b.Begins [] z 0 := List.nil_prefix

theorem Buf.Begins.front (h : b.Begins pre z k) : pre <+: b.cells :=
  (List.prefix_append pre _).trans h

theorem Buf.Begins.take_eq (h : b.Begins pre z k) : b.cells.take pre.length = pre :=
  (List.prefix_iff_eq_take.mp h.front).symm

/-- Cells that keep the value they have. -/
theorem Buf.Begins.skip (h : b.Begins pre z k) {j : ℕ} (hj : j ≤ k) :
    b.Begins (pre ++ List.replicate j z) z (k - j) := by
  simp only [Buf.Begins] at h ⊢
  rwa [List.append_assoc, List.replicate_append_replicate, Nat.add_sub_cancel' hj]

/-- A write at the place reached. -/
theorem Buf.Begins.write (h : b.Begins pre z k) (off : ℕ) (bs : List α) (hoff : off = pre.length)
    (hfit : off + bs.length ≤ cap) :
    ∃ b', b.write off bs = some b' ∧ b'.Begins (pre ++ bs) z (k - bs.length) := by
  obtain ⟨rest, hrest⟩ := h
  refine ⟨_, dif_pos hfit, ?_⟩
  show pre ++ bs ++ List.replicate (k - bs.length) z <+:
    b.cells.take off ++ bs ++ b.cells.drop (off + bs.length)
  rw [← hrest, hoff, List.append_assoc pre, List.append_assoc pre, List.take_left' rfl,
    ← List.drop_drop, List.drop_left' rfl, List.drop_append, List.drop_replicate, List.append_assoc]
  rw [← List.append_assoc bs]
  exact (List.prefix_append_right_inj _).mpr (List.prefix_append _ _)

/-- `memset` at the front. -/
theorem Buf.begins_memset (b : Buf α cap) {n : ℕ} (z : α) (hn : n ≤ cap) :
    ∃ b', b.write 0 (List.replicate n z) = some b' ∧ b'.Begins [] z n := by
  obtain ⟨b', hwrite, hbegins⟩ := (b.begins_nil z).write 0 (List.replicate n z) rfl
    (by simpa using hn)
  exact ⟨b', hwrite, hbegins.front⟩

/-- The writes follow one another from `off` on. -/
def Contiguous : ℕ → List (ℕ × List α) → Prop
  | _, [] => True
  | off, w :: ws => w.1 = off ∧ Contiguous (off + w.2.length) ws

theorem Buf.Begins.writes (h : b.Begins pre z k) (ws : List (ℕ × List α))
    (hws : Contiguous pre.length ws) (hfit : pre.length + (ws.flatMap Prod.snd).length ≤ cap) :
    ∃ b', b.writes ws = some b' ∧
      b'.Begins (pre ++ ws.flatMap Prod.snd) z (k - (ws.flatMap Prod.snd).length) := by
  induction ws generalizing b pre k with
  | nil => exact ⟨b, rfl, by simpa using h⟩
  | cons w ws ih =>
    obtain ⟨hoff, hws⟩ := hws
    rw [List.flatMap_cons, List.length_append] at hfit ⊢
    obtain ⟨b₁, hb₁, hbegins₁⟩ := h.write w.1 w.2 hoff (by omega)
    rw [← List.length_append] at hws
    obtain ⟨b₂, hb₂, hbegins₂⟩ := ih hbegins₁ hws (by rw [List.length_append]; omega)
    refine ⟨b₂, ?_, ?_⟩
    · rw [Buf.writes, List.foldlM_cons, hb₁]
      exact hb₂
    · rw [← List.append_assoc, Nat.sub_add_eq]
      exact hbegins₂

end

end Memory
