import Mathlib.Data.List.Basic
import Mathlib.Tactic.Ring

/-! # Blocks of a stream

    A hash takes its input block by block. `blocks b f n s l` is the state after the first `n` blocks
    of `b` items; what is left of the input waits in a buffer. The two rules below are what an
    incremental hash needs, whether it empties a full buffer at once or only when more comes. -/

namespace Blocks

variable {α σ : Type*}

/-- The state after the first `n` blocks of a list. -/
def blocks (b : ℕ) (f : σ → List α → σ) : ℕ → σ → List α → σ
  | 0, s, _ => s
  | n + 1, s, l => blocks b f n (f s (l.take b)) (l.drop b)

variable (b : ℕ) (f : σ → List α → σ)

@[simp] theorem blocks_zero (s : σ) (l : List α) : blocks b f 0 s l = s := rfl

theorem blocks_succ (n : ℕ) (s : σ) (l : List α) :
    blocks b f (n + 1) s l = blocks b f n (f s (l.take b)) (l.drop b) := rfl

/-- Some blocks, and then some more. -/
theorem blocks_add (m n : ℕ) (s : σ) (l : List α) :
    blocks b f (m + n) s l = blocks b f n (blocks b f m s l) (l.drop (b * m)) := by
  induction m generalizing s l with
  | zero => simp
  | succ m ih =>
    rw [Nat.succ_add, blocks_succ, ih, blocks_succ, List.drop_drop, Nat.mul_succ, Nat.add_comm b]

/-- What comes behind the blocks does not matter to them. -/
theorem blocks_append {n : ℕ} (s : σ) {l : List α} (h : b * n ≤ l.length) (x : List α) :
    blocks b f n s (l ++ x) = blocks b f n s l := by
  induction n generalizing s l with
  | zero => rfl
  | succ n ih =>
    rw [Nat.mul_succ] at h
    rw [blocks_succ, blocks_succ, List.take_append_of_le_length (by omega),
      List.drop_append_of_le_length (by omega), ih _ (by rw [List.length_drop]; omega)]

/-- One more block behind whole ones. -/
theorem blocks_snoc {n : ℕ} (s : σ) {l c : List α} (hl : l.length = b * n) (hc : c.length = b) :
    blocks b f (n + 1) s (l ++ c) = f (blocks b f n s l) c := by
  rw [blocks_add, blocks_append b f s hl.ge, ← hl, List.drop_left, blocks_succ, blocks_zero,
    List.take_of_length_le hc.le]

/-- RUN: what every whole block keeps between two hashes holds between them after whole blocks. -/
theorem blocks_rel {τ : Type*} {f} {g : τ → List α → τ} {R : σ → τ → Prop}
    (step : ∀ s t c, c.length = b → R s t → R (f s c) (g t c)) {s : σ} {t : τ} (h : R s t) {n : ℕ}
    {l : List α} (hl : b * n ≤ l.length) : R (blocks b f n s l) (blocks b g n t l) := by
  induction n generalizing s t l with
  | zero => exact h
  | succ n ih =>
    rw [Nat.mul_succ] at hl
    refine ih (step s t _ (List.length_take_of_le (by omega)) h) ?_
    rw [List.length_drop]
    omega

/-- The state and the buffer after a message: the blocks that were taken are a part of it, and the
    buffer is the rest. -/
structure Absorbed (s₀ : σ) (m : List α) (s : σ) (c : List α) : Prop where
  exists_blocks : ∃ n l, m = l ++ c ∧ l.length = b * n ∧ s = blocks b f n s₀ l

namespace Absorbed

variable {b f} {s₀ s : σ} {m c x : List α}

theorem init : Absorbed b f s₀ [] s₀ [] := ⟨0, [], rfl, rfl, rfl⟩

/-- More items wait in the buffer. -/
theorem fill (h : Absorbed b f s₀ m s c) (x : List α) : Absorbed b f s₀ (m ++ x) s (c ++ x) := by
  obtain ⟨n, l, rfl, hl, hs⟩ := h
  exact ⟨n, l, List.append_assoc l c x, hl, hs⟩

/-- A full buffer is taken as a block. -/
theorem flush (h : Absorbed b f s₀ m s c) (hc : c.length = b) : Absorbed b f s₀ m (f s c) [] := by
  obtain ⟨n, l, rfl, hl, rfl⟩ := h
  refine ⟨n + 1, l ++ c, (List.append_nil _).symm, ?_, (blocks_snoc b f s₀ hl hc).symm⟩
  rw [List.length_append, hl, hc, Nat.mul_succ]

/-- RUN: blocks are taken from the input, past an empty buffer. -/
theorem take (h : Absorbed b f s₀ m s []) {n : ℕ} (hx : b * n ≤ x.length) :
    Absorbed b f s₀ (m ++ x) (blocks b f n s x) (x.drop (b * n)) := by
  obtain ⟨k, l, rfl, hl, rfl⟩ := h
  have htake : (x.take (b * n)).length = b * n := List.length_take_of_le hx
  refine ⟨k + n, l ++ x.take (b * n), ?_, ?_, ?_⟩
  · rw [List.append_nil, List.append_assoc, List.take_append_drop]
  · rw [List.length_append, hl, htake, Nat.mul_add]
  · rw [blocks_add, blocks_append b f s₀ hl.ge, ← hl, List.drop_left]
    conv_lhs => rw [← List.take_append_drop (b * n) x]
    exact blocks_append b f _ htake.ge _

end Absorbed

end Blocks
