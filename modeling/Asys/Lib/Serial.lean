import Mathlib.Data.List.Nodup
import Mathlib.Logic.Function.Basic

/-! # Serial orders of concurrent calls

    `call s i` is what call `i` does when nothing comes between its steps: the state it leaves and its
    answer. The answers that calls have given in some interleaving are explained by an order in which
    they could have run one after another. The rules let an order grow with the answers. -/

namespace Serial

variable {σ ι ρ : Type*} (call : σ → ι → σ × ρ)

/-- The state after the calls of `order`. -/
def after (s : σ) (order : List ι) : σ := order.foldl (fun s i => (call s i).1) s

/-- What call `i` answers in its place in `order`. -/
def Answers (s : σ) (order : List ι) (i : ι) (r : ρ) : Prop :=
  ∃ before behind, order = before ++ i :: behind ∧ (call (after call s before) i).2 = r

/-- The calls that have answered are those of `order`, and each has answered what it answers there. -/
structure Explains (s : σ) (order : List ι) (given : ι → Option ρ) : Prop where
  once : order.Nodup
  mem_iff : ∀ i, i ∈ order ↔ ∃ r, given i = some r
  answers : ∀ i r, given i = some r → Answers call s order i r

/-- Some serial order gives the same answers. -/
def Serialisable (s : σ) (given : ι → Option ρ) : Prop := ∃ order, Explains call s order given

variable {call} {s : σ} {order : List ι} {given : ι → Option ρ}

@[simp] theorem after_nil (s : σ) : after call s [] = s := rfl

@[simp] theorem after_concat (s : σ) (order : List ι) (i : ι) :
    after call s (order ++ [i]) = (call (after call s order) i).1 := by
  rw [after, List.foldl_append]
  rfl

theorem Answers.append {i : ι} {r : ρ} (h : Answers call s order i r) (more : List ι) :
    Answers call s (order ++ more) i r := by
  obtain ⟨before, behind, rfl, hr⟩ := h
  exact ⟨before, behind ++ more, by simp, hr⟩

/-- RULE: no call has answered yet. -/
theorem explains_nil (h : ∀ i, given i = none) : Explains call s [] given where
  once := List.nodup_nil
  mem_iff i := by simp [h i]
  answers i r hr := by
    rw [h i] at hr
    cases hr

/-- RULE: the next call of the order answers. -/
theorem Explains.concat [DecidableEq ι] (h : Explains call s order given) {i : ι} {r : ρ}
    (hnew : given i = none) (hr : (call (after call s order) i).2 = r) :
    Explains call s (order ++ [i]) (Function.update given i (some r)) where
  once := by
    have hi : i ∉ order := fun hi => by
      obtain ⟨r', hr'⟩ := (h.mem_iff i).mp hi
      rw [hnew] at hr'
      cases hr'
    exact List.nodup_append.mpr ⟨h.once, List.nodup_singleton i, fun a ha b hb => by
      rw [List.mem_singleton.mp hb]
      rintro rfl
      exact hi ha⟩
  mem_iff j := by
    rcases eq_or_ne j i with rfl | hj
    · simp
    · simp [hj, h.mem_iff j]
  answers j r' hj := by
    rcases eq_or_ne j i with rfl | hne
    · rw [Function.update_self] at hj
      exact ⟨order, [], rfl, hr.trans (Option.some.inj hj)⟩
    · rw [Function.update_of_ne hne] at hj
      exact (h.answers j r' hj).append [i]

/-- With two calls there are two places for each. -/
theorem Serialisable.of_two {a b : ι} (hab : ∀ i, i = a ∨ i = b) (h : Serialisable call s given)
    {r : ρ} (hr : given a = some r) : (call s a).2 = r ∨ (call (call s b).1 a).2 = r := by
  obtain ⟨order, hexp⟩ := h
  obtain ⟨before, behind, rfl, hcall⟩ := hexp.answers a r hr
  have hnodup := hexp.once
  cases before with
  | nil => exact Or.inl hcall
  | cons i before =>
    have hfirst : ∀ j ∈ i :: before, j = b := by
      intro j hj
      rcases hab j with rfl | rfl
      · exact absurd rfl ((List.nodup_append.mp hnodup).2.2 j hj j List.mem_cons_self)
      · rfl
    cases before with
    | nil =>
      rw [hfirst i List.mem_cons_self] at hcall
      exact Or.inr hcall
    | cons j before =>
      have hi := hfirst i List.mem_cons_self
      have hj := hfirst j (List.mem_cons_of_mem i List.mem_cons_self)
      simp [hi, hj] at hnodup

end Serial
