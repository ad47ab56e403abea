import Mathlib.Data.List.Basic
import Mathlib.Data.List.Induction

/-! # Runs of a guarded step function

    A system is a partial step `step : σ → ι → Option σ`: the label says who moves and what the
    environment answers, `none` says that the move is not enabled. A run is a list of labels. The
    rules below are the ones a safety argument uses: an invariant kept by every step that meets a
    condition (`inv_of_steps`), and the exact form (`states_iff_steps`), where the first step that
    misses the condition already breaks the property. -/

namespace Runs

variable {σ ι : Type*} (step : σ → ι → Option σ)

/-- The state after the labels `ls`, `none` when one of them is not enabled. -/
def run : σ → List ι → Option σ
  | s, [] => some s
  | s, l :: ls => (step s l).bind fun s' => run s' ls

/-- Reachable from `s₀` by some list of labels. -/
def Reachable (s₀ s : σ) : Prop := ∃ ls, run step s₀ ls = some s

/-- Every step of the run starts in a state and with a label that meet `C`. -/
def StepsMeet (C : σ → ι → Prop) (s₀ : σ) (ls : List ι) : Prop :=
  ∀ pre l post s, ls = pre ++ l :: post → run step s₀ pre = some s → C s l

/-- Every state the run goes through, the first and the last included, meets `P`. -/
def StatesMeet (P : σ → Prop) (s₀ : σ) (ls : List ι) : Prop :=
  ∀ pre post s, ls = pre ++ post → run step s₀ pre = some s → P s

variable {step}

@[simp] theorem run_nil (s : σ) : run step s [] = some s := rfl

@[simp] theorem run_cons (s : σ) (l : ι) (ls : List ι) :
    run step s (l :: ls) = (step s l).bind fun s' => run step s' ls := rfl

theorem run_append (s : σ) (ls ms : List ι) :
    run step s (ls ++ ms) = (run step s ls).bind fun s' => run step s' ms := by
  induction ls generalizing s with
  | nil => rfl
  | cons l ls ih =>
    rw [List.cons_append, run_cons, run_cons, Option.bind_assoc]
    exact congrArg _ (funext fun s' => ih s')

theorem run_of_step {s t u : σ} {l : ι} {ls : List ι} (hl : step s l = some t)
    (hls : run step t ls = some u) : run step s (l :: ls) = some u := by
  rw [run_cons, hl]
  exact hls

theorem run_trans {s t u : σ} {ls ms : List ι} (hls : run step s ls = some t)
    (hms : run step t ms = some u) : run step s (ls ++ ms) = some u := by
  rw [run_append, hls]
  exact hms

theorem run_concat (s : σ) (ls : List ι) (l : ι) :
    run step s (ls ++ [l]) = (run step s ls).bind fun s' => step s' l := by
  rw [run_append]
  simp

/-- A run that ends passes through a state after each of its prefixes. -/
theorem run_split {s₀ s : σ} {ls ms : List ι} (h : run step s₀ (ls ++ ms) = some s) :
    ∃ m, run step s₀ ls = some m ∧ run step m ms = some s := by
  rw [run_append] at h
  exact Option.bind_eq_some_iff.mp h

theorem run_snoc_some {s₀ s : σ} {ls : List ι} {l : ι} (h : run step s₀ (ls ++ [l]) = some s) :
    ∃ m, run step s₀ ls = some m ∧ step m l = some s := by
  rw [run_concat] at h
  exact Option.bind_eq_some_iff.mp h

theorem Reachable.refl (s : σ) : Reachable step s s := ⟨[], rfl⟩

theorem Reachable.next {s₀ s s' : σ} {l : ι} (h : Reachable step s₀ s) (hs : step s l = some s') :
    Reachable step s₀ s' := by
  obtain ⟨ls, hls⟩ := h
  exact ⟨ls ++ [l], by rw [run_concat, hls]; exact hs⟩

theorem StepsMeet.left {C : σ → ι → Prop} {s₀ : σ} {ls ms : List ι}
    (h : StepsMeet step C s₀ (ls ++ ms)) : StepsMeet step C s₀ ls := by
  intro pre l post s hsplit hrun
  exact h pre l (post ++ ms) s (by simp [hsplit]) hrun

/-- The condition of the last step of a run that meets it everywhere. -/
theorem StepsMeet.last {C : σ → ι → Prop} {s₀ s : σ} {ls : List ι} {l : ι}
    (h : StepsMeet step C s₀ (ls ++ [l])) (hrun : run step s₀ ls = some s) : C s l :=
  h ls l [] s rfl hrun

theorem StepsMeet.nil {C : σ → ι → Prop} {s₀ : σ} : StepsMeet step C s₀ [] := by
  intro pre l post s hsplit
  simp at hsplit

/-- A run that meets the condition, and one more step that does. -/
theorem StepsMeet.snoc {C : σ → ι → Prop} {s₀ m : σ} {ls : List ι} {l : ι}
    (h : StepsMeet step C s₀ ls) (hrun : run step s₀ ls = some m) (hl : C m l) :
    StepsMeet step C s₀ (ls ++ [l]) := by
  intro pre l' post s hsplit hs
  rcases List.eq_nil_or_concat post with rfl | ⟨post', l'', rfl⟩
  · obtain ⟨rfl, rfl⟩ : ls = pre ∧ l = l' := by
      have := List.append_inj' hsplit rfl
      simpa using this
    obtain rfl : m = s := Option.some.inj (hrun.symm.trans hs)
    exact hl
  · refine h pre l' post' s ?_ hs
    rw [List.concat_eq_append, ← List.cons_append, ← List.append_assoc] at hsplit
    exact (List.append_inj' hsplit rfl).1

/-- RULE: an invariant kept by every step that meets `C` holds at the end of every run that meets
    `C` throughout. -/
theorem inv_of_steps {I : σ → Prop} {C : σ → ι → Prop} {s₀ : σ} (h0 : I s₀)
    (hkeep : ∀ s l s', I s → C s l → step s l = some s' → I s') :
    ∀ {ls : List ι} {s : σ}, StepsMeet step C s₀ ls → run step s₀ ls = some s → I s := by
  intro ls
  induction ls using List.reverseRecOn with
  | nil =>
    intro s _ hrun
    obtain rfl : s₀ = s := by simpa using hrun
    exact h0
  | append_singleton ls l ih =>
    intro s hC hrun
    obtain ⟨m, hm, hstep⟩ := run_snoc_some hrun
    exact hkeep m l s (ih hC.left hm) (hC.last hm) hstep

/-- RULE: an invariant kept by every step holds at the end of every run. -/
theorem inv_of_run {I : σ → Prop} {s₀ : σ} (h0 : I s₀)
    (hkeep : ∀ s l s', I s → step s l = some s' → I s') {ls : List ι} {s : σ}
    (hrun : run step s₀ ls = some s) : I s :=
  inv_of_steps (C := fun _ _ => True) h0 (fun s l s' hI _ hs => hkeep s l s' hI hs)
    (fun _ _ _ _ _ _ => trivial) hrun

/-- RULE: an invariant kept by every step holds in every reachable state. -/
theorem inv_of_reachable {I : σ → Prop} {s₀ : σ} (h0 : I s₀)
    (hkeep : ∀ s l s', I s → step s l = some s' → I s') {s : σ} (h : Reachable step s₀ s) : I s := by
  obtain ⟨ls, hls⟩ := h
  exact inv_of_run h0 hkeep hls

/-- RULE (exact): if a step that meets `C` keeps `I`, `I` gives `P`, and a step that misses `C`
    loses `P` at once, then a run is in `P` throughout exactly when its steps all meet `C`. -/
theorem states_iff_steps {I P : σ → Prop} {C : σ → ι → Prop} {s₀ : σ} (h0 : I s₀)
    (hkeep : ∀ s l s', I s → C s l → step s l = some s' → I s') (hP : ∀ s, I s → P s)
    (hbreak : ∀ s l s', I s → ¬ C s l → step s l = some s' → ¬ P s') {ls : List ι} {s : σ}
    (hrun : run step s₀ ls = some s) :
    StatesMeet step P s₀ ls ↔ StepsMeet step C s₀ ls := by
  constructor
  · intro hstates
    -- the invariant is rebuilt along the run: a missed condition would show in the next state
    suffices h : ∀ pre post, ls = pre ++ post → StepsMeet step C s₀ pre from
      h ls [] (by simp)
    intro pre
    induction pre using List.reverseRecOn with
    | nil => exact fun _ _ => StepsMeet.nil
    | append_singleton pre l ih =>
      intro post hls
      have hpre : StepsMeet step C s₀ pre := ih (l :: post) (by simp [hls])
      obtain ⟨n, hn, -⟩ := run_split (hls ▸ hrun)
      obtain ⟨m, hm, hstep⟩ := run_snoc_some hn
      by_contra hC
      have hl : ¬ C m l := fun hl => hC (hpre.snoc hm hl)
      exact hbreak m l n (inv_of_steps h0 hkeep hpre hm) hl hstep (hstates (pre ++ [l]) post n hls hn)
  · intro hC pre post m hls hm
    have hmeet : StepsMeet step C s₀ (pre ++ post) := hls ▸ hC
    exact hP m (inv_of_steps h0 hkeep hmeet.left hm)

/-- RULE (exact, at the end): a step that misses `C` leads to `B`, and nothing leads out of `B`. A
    run of labels in `L` that ends in a state where `I` gives `P` and `B` refutes it then ends in `P`
    exactly when its steps all meet `C`. -/
theorem end_iff_steps {I B P : σ → Prop} {C : σ → ι → Prop} {L : ι → Prop} {s₀ : σ} (h0 : I s₀)
    (hkeep : ∀ s l s', L l → I s → C s l → step s l = some s' → I s')
    (hmiss : ∀ s l s', L l → I s → ¬ C s l → step s l = some s' → B s')
    (hstay : ∀ s l s', L l → B s → step s l = some s' → B s') {ls : List ι} {s : σ}
    (hL : ∀ l ∈ ls, L l) (hrun : run step s₀ ls = some s) (hI : I s → P s) (hB : B s → ¬ P s) :
    P s ↔ StepsMeet step C s₀ ls := by
  have hsplit : ∀ {ls : List ι} {s : σ}, (∀ l ∈ ls, L l) → run step s₀ ls = some s →
      (StepsMeet step C s₀ ls → I s) ∧ (StepsMeet step C s₀ ls ∨ B s) := by
    intro ls
    induction ls using List.reverseRecOn with
    | nil =>
      intro s _ hrun
      obtain rfl : s₀ = s := by simpa using hrun
      exact ⟨fun _ => h0, Or.inl StepsMeet.nil⟩
    | append_singleton ls l ih =>
      intro s hL hrun
      obtain ⟨m, hm, hstep⟩ := run_snoc_some hrun
      obtain ⟨hIm, hor⟩ := ih (fun l' hl' => hL l' (by simp [hl'])) hm
      have hl : L l := hL l (by simp)
      refine ⟨fun hC => hkeep m l s hl (hIm hC.left) (hC.last hm) hstep, ?_⟩
      rcases hor with hC | hBm
      · by_cases hCl : C m l
        · exact Or.inl (hC.snoc hm hCl)
        · exact Or.inr (hmiss m l s hl (hIm hC) hCl hstep)
      · exact Or.inr (hstay m l s hl hBm hstep)
  obtain ⟨hIs, hor⟩ := hsplit hL hrun
  constructor
  · intro hP
    rcases hor with hC | hBs
    · exact hC
    · exact absurd hP (hB hBs)
  · exact fun hC => hI (hIs hC)

/-- A total step function as a step that is always enabled. -/
def always (f : σ → ι → σ) : σ → ι → Option σ := fun s l => some (f s l)

@[simp] theorem run_always (f : σ → ι → σ) (s : σ) (ls : List ι) :
    run (always f) s ls = some (ls.foldl f s) := by
  induction ls generalizing s with
  | nil => rfl
  | cons l ls ih => exact ih (f s l)

/-- The first step of a run, and the rest. -/
theorem stepsMeet_always_cons {f : σ → ι → σ} {C : σ → ι → Prop} {s : σ} {l : ι} {ls : List ι} :
    StepsMeet (always f) C s (l :: ls) ↔ C s l ∧ StepsMeet (always f) C (f s l) ls := by
  constructor
  · intro h
    refine ⟨h [] l ls s rfl rfl, ?_⟩
    intro pre l' post s' hsplit hrun
    exact h (l :: pre) l' post s' (by rw [hsplit, List.cons_append]) hrun
  · rintro ⟨hl, h⟩ pre l' post s' hsplit hrun
    cases pre with
    | nil =>
      obtain ⟨rfl, rfl⟩ := List.cons.inj hsplit
      exact Option.some.inj hrun ▸ hl
    | cons l'' pre =>
      obtain ⟨rfl, rfl⟩ := List.cons.inj hsplit
      exact h pre l' post s' rfl hrun

instance decidableStepsMeet (f : σ → ι → σ) (C : σ → ι → Prop) [∀ s l, Decidable (C s l)] :
    ∀ s ls, Decidable (StepsMeet (always f) C s ls)
  | _, [] => isTrue StepsMeet.nil
  | s, l :: ls =>
    have := decidableStepsMeet f C (f s l) ls
    decidable_of_iff _ stepsMeet_always_cons.symm

end Runs
