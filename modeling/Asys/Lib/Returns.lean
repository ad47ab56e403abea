import Mathlib.Data.Option.Basic

/-! # Computations that may fail, and do not

    `Returns o P`: the computation `o` has a value, and the value has the property `P`. The rules
    follow the shape of a `do` block, one for each of its lines. -/

/-- The computation does not fail, and its value has the property. -/
def Returns {α : Type*} (o : Option α) (P : α → Prop) : Prop := ∃ a, o = some a ∧ P a

namespace Returns

variable {α β : Type*} {o : Option α} {P Q : α → Prop} {a : α}

theorem of_eq (h : o = some a) (ha : P a) : Returns o P := ⟨a, h, ha⟩

theorem pure (ha : P a) : Returns (some a) P := ⟨a, rfl, ha⟩

theorem mono (h : Returns o P) (hPQ : ∀ a, P a → Q a) : Returns o Q := by
  obtain ⟨a, heq, ha⟩ := h
  exact ⟨a, heq, hPQ a ha⟩

/-- The line `let a ← o` of a block. -/
theorem bind {k : α → Option β} {R : β → Prop} (h : Returns o P)
    (hk : ∀ a, P a → Returns (k a) R) : Returns (o.bind k) R := by
  obtain ⟨a, heq, ha⟩ := h
  rw [heq]
  exact hk a ha

/-- The same line, for a value that is known. -/
theorem bind_eq {k : α → Option β} {R : β → Prop} (h : o = some a) (hk : Returns (k a) R) :
    Returns (o.bind k) R := by
  rwa [h]

theorem eq_some (h : Returns o (· = a)) : o = some a := by
  obtain ⟨b, heq, rfl⟩ := h
  exact heq

end Returns
