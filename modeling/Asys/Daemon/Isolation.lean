import Asys.Daemon.PoolEvents

/-! # Sessions do not see each other's tasks

    What an operation performed for one session does to the entries of the others, and what a query
    tells a session about them. -/

namespace Asys
open Words

/-- A task of another session than `s`. -/
def Foreign (s : UInt16) (e : TaskEntry) : Prop := e.status ≠ .empty ∧ e.sessionId ≠ s

/-- An entry is as before, or it was past its time and shows what the sweep at `now` made of it. -/
def SweptOnly (now : ℤ) (e e' : TaskEntry) : Prop :=
  e' = e ∨ (taskTimeoutSec < now - e.createdAt ∧ e' = sweepEntry now e)

/-- The same, but a slot that the sweep has freed may have been taken by session `s`. -/
def SweptOrTaken (now : ℤ) (s : UInt16) (e e' : TaskEntry) : Prop :=
  SweptOnly now e e' ∨
    (taskTimeoutSec < now - e.createdAt ∧ sweepEntry now e = zeroEntry ∧ e'.sessionId = s)

/-- Two pools hold the same tasks of session `s` in the same slots. -/
def AgreeOn (s : UInt16) (g g' : TaskPool) : Prop :=
  ∀ i, ((g i).status ≠ .empty ∧ (g i).sessionId = s) ∨
    ((g' i).status ≠ .empty ∧ (g' i).sessionId = s) → g i = g' i

/-- What session `s` can do to the tasks of others in the pool `g`, and learn about them: handles
    that are not its own are answered Not Found in any pool, and its queries do not tell `g` from
    another reachable pool with the same tasks of its own. -/
structure Isolated (g : TaskPool) (s : UInt16) : Prop where
  restart : ∀ env req i, Foreign s (g i) →
    SweptOrTaken env.sweepTime s (g i) ((handlerSvcRestart env g req s).1 i)
  query : ∀ env req i, Foreign s (g i) →
    SweptOnly env.sweepTime (g i) ((handlerTaskQuery env g req s).1 i)
  release : ∀ i, Foreign s (g i) → taskPoolReleaseSession g s i = g i
  foreignHandle : ∀ (g' : TaskPool) env req, 4 ≤ req.dataLen → high16 (queryHandle req) ≠ s →
    (handlerTaskQuery env g' req s).2 = [0xFF, 0x90, 0x00]
  sameAnswer : ∀ es env req, AgreeOn s g (poolAfter es) →
    (handlerTaskQuery env g req s).2 = (handlerTaskQuery env (poolAfter es) req s).2

/-! ### One operation at a time -/

theorem sweepEntry_sweptOnly (now : ℤ) (e : TaskEntry) : SweptOnly now e (sweepEntry now e) := by
  rcases sweepEntry_cases now e with h | ⟨hold, -, -⟩ | ⟨hold, -, -, -⟩
  · exact Or.inl h
  · exact Or.inr ⟨hold, rfl⟩
  · exact Or.inr ⟨hold, rfl⟩

/-- A live entry that a sweep leaves free was past its time and is zeroed. -/
theorem sweepEntry_freed {now : ℤ} {e : TaskEntry} (hlive : e.status ≠ .empty)
    (h : (sweepEntry now e).status = .empty) :
    taskTimeoutSec < now - e.createdAt ∧ sweepEntry now e = zeroEntry := by
  rcases sweepEntry_cases now e with hs | ⟨hold, hp, hs⟩ | ⟨hold, -, -, hs⟩
  · exact absurd (hs ▸ h) hlive
  · rw [hs] at h; cases h
  · exact ⟨hold, hs⟩

theorem svcRestart_foreign {env : Env} {g : TaskPool} {req : ApduFrame} {s : UInt16}
    {i : Fin taskPoolSize} (hi : Foreign s (g i)) :
    SweptOrTaken env.sweepTime s (g i) ((handlerSvcRestart env g req s).1 i) := by
  rcases handlerSvcRestart_apply env g req s i with ⟨-, he⟩ | ⟨-, he | ⟨pid, hfree, he⟩⟩ <;> rw [he]
  · exact Or.inl (Or.inl rfl)
  · exact Or.inl (sweepEntry_sweptOnly _ _)
  · obtain ⟨hold, hzero⟩ := sweepEntry_freed hi.1 hfree
    exact Or.inr ⟨hold, hzero, rfl⟩

/-- The slot a query releases holds a task of the asking session. -/
theorem taskQuery_foreign {env : Env} {g : TaskPool} {req : ApduFrame} {s : UInt16} (hg : PoolOk g)
    {i : Fin taskPoolSize} (hi : Foreign s (g i)) :
    SweptOnly env.sweepTime (g i) ((handlerTaskQuery env g req s).1 i) := by
  have hc := handlerTaskQuery_cases env g req s
  generalize handlerTaskQuery env g req s = out at hc ⊢
  cases hc with
  | short _ => exact Or.inl rfl
  | notFound _ _ => exact sweepEntry_sweptOnly _ _
  | pending _ _ _ _ => exact sweepEntry_sweptOnly _ _
  | terminal j _ hfind _ =>
    have hsw := hg.sweep env.sweepTime
    have hfree := hsw.free_found hfind
    obtain ⟨-, hs, hj, hlive, -⟩ := taskPoolFindHandle_some hfind
    have hown : (sweepEntry env.sweepTime (g j)).sessionId = s := by
      have := (hsw j).owner hlive
      rw [hj, hs] at this
      exact this.symm
    have hij : i ≠ j := by
      rintro rfl
      rcases sweepEntry_cases env.sweepTime (g i) with h | ⟨-, -, h⟩ | ⟨-, -, -, h⟩
      · rw [h] at hown; exact hi.2 hown
      · rw [h] at hown; exact hi.2 hown
      · rw [taskPoolSweepTimeouts_apply, h] at hlive; exact hlive rfl
    dsimp only
    rw [hfree, Function.update_of_ne hij]
    exact sweepEntry_sweptOnly _ _

theorem releaseSession_foreign {g : TaskPool} {s : UInt16} {i : Fin taskPoolSize}
    (hi : Foreign s (g i)) : taskPoolReleaseSession g s i = g i := by
  rw [taskPoolReleaseSession_apply, if_neg (fun h => hi.2 h.1)]

/-- A handle of another session is answered Not Found, whatever the pool holds. -/
theorem taskQuery_foreignHandle {env : Env} {g : TaskPool} {req : ApduFrame} {s : UInt16}
    (hlen : 4 ≤ req.dataLen) (hh : high16 (queryHandle req) ≠ s) :
    (handlerTaskQuery env g req s).2 = queryResp qstatusNotFound := by
  have hc := handlerTaskQuery_cases env g req s
  have hnone := taskPoolFindHandle_foreign (taskPoolSweepTimeouts g env.sweepTime) hh
  generalize handlerTaskQuery env g req s = out at hc ⊢
  cases hc with
  | short hshort => omega
  | notFound _ _ => rfl
  | pending i _ hfind _ => rw [hnone] at hfind; cases hfind
  | terminal i _ hfind _ => rw [hnone] at hfind; cases hfind

/-! ### Two pools that agree on a session -/

theorem AgreeOn.sweep {s : UInt16} {g g' : TaskPool} (h : AgreeOn s g g') (now : ℤ) :
    AgreeOn s (taskPoolSweepTimeouts g now) (taskPoolSweepTimeouts g' now) := by
  -- the sweep looks at one entry at a time and never makes a free slot live
  have hback : ∀ e : TaskEntry, (sweepEntry now e).status ≠ .empty ∧
      (sweepEntry now e).sessionId = s → e.status ≠ .empty ∧ e.sessionId = s := by
    intro e he
    rcases sweepEntry_cases now e with hs | ⟨-, hp, hs⟩ | ⟨-, -, -, hs⟩
    · rwa [hs] at he
    · rw [hs] at he; exact ⟨by simp [hp], he.2⟩
    · rw [hs] at he; exact absurd rfl he.1
  intro i hi
  exact congrArg (sweepEntry now) (h i (hi.imp (hback (g i)) (hback (g' i))))

/-- Session `s` finds its handles in the same slots of two pools that agree on it. -/
theorem AgreeOn.findHandle {s : UInt16} {g g' : TaskPool} (h : AgreeOn s g g') (hg : PoolOk g)
    (hg' : PoolOk g') (handle : UInt32) :
    taskPoolFindHandle g handle s = taskPoolFindHandle g' handle s := by
  by_cases hs : high16 handle = s
  · refine taskPoolFindHandle_congr fun i => ?_
    constructor
    · rintro ⟨hh, hlive⟩
      have := h i (Or.inl ⟨hlive, by rw [← (hg i).owner hlive, hh, hs]⟩)
      exact ⟨this ▸ hh, this ▸ hlive⟩
    · rintro ⟨hh, hlive⟩
      have := h i (Or.inr ⟨hlive, by rw [← (hg' i).owner hlive, hh, hs]⟩)
      exact ⟨this ▸ hh, this ▸ hlive⟩
  · rw [taskPoolFindHandle_foreign g hs, taskPoolFindHandle_foreign g' hs]

/-- The answer to a query depends on the session's own tasks only. -/
theorem AgreeOn.sameAnswer {s : UInt16} {g g' : TaskPool} (h : AgreeOn s g g') (hg : PoolOk g)
    (hg' : PoolOk g') (env : Env) (req : ApduFrame) :
    (handlerTaskQuery env g req s).2 = (handlerTaskQuery env g' req s).2 := by
  have hfind := (h.sweep env.sweepTime).findHandle (hg.sweep _) (hg'.sweep _) (queryHandle req)
  unfold handlerTaskQuery
  by_cases hlen : req.dataLen < 4
  · rw [if_pos hlen, if_pos hlen]
  · rw [if_neg hlen, if_neg hlen]
    dsimp only
    rw [← hfind]
    cases hf : taskPoolFindHandle (taskPoolSweepTimeouts g env.sweepTime) (queryHandle req) s with
    | none => rfl
    | some i =>
      obtain ⟨-, hs, hi, hlive, -⟩ := taskPoolFindHandle_some hf
      have hown := ((hg.sweep env.sweepTime) i).owner hlive
      rw [hi, hs] at hown
      have heq := h.sweep env.sweepTime i (Or.inl ⟨hlive, hown.symm⟩)
      dsimp only
      rw [heq]
      split <;> rfl

/-- CORRECT: in every pool the daemon reaches, a session leaves the tasks of others to the sweep and
    learns nothing about them. -/
theorem session_isolated (es : List PoolEvent) (s : UInt16) : Isolated (poolAfter es) s := by
  have hok := poolAfter_ok es
  refine ⟨?_, ?_, ?_, ?_, ?_⟩
  · exact fun env req i hi => svcRestart_foreign hi
  · exact fun env req i hi => taskQuery_foreign hok hi
  · exact fun i hi => releaseSession_foreign hi
  · exact fun g' env req hlen hh => taskQuery_foreignHandle hlen hh
  · exact fun es' env req hagree => hagree.sameAnswer hok (poolAfter_ok es') env req

end Asys
