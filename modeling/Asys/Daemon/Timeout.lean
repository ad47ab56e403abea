import Asys.Daemon.PoolEvents
import Asys.Lib.Runs

/-! # The first query after a task has expired

    A sweep turns an expired PENDING task into TIMEOUT and removes an expired terminal one, and it
    leaves `created_at` as it is. So the first sweep after the expiry marks the task and the second
    one removes it, whoever runs it. -/

namespace Asys
open Words

/-- Whether a request gets past its checks, and so to its sweep. -/
def Sweeps : PoolEvent → Prop
  | .svcRestart _ req _ => RestartForm req
  | .taskQuery _ req _ => 4 ≤ req.dataLen
  | .sweep _ => True
  | _ => False

/-- What can happen once the task `e₀` is past its time, while its owner is still connected and has
    not asked for it. -/
def AfterExpiry (e₀ : TaskEntry) : PoolEvent → Prop
  | .init => False
  | .svcRestart env _ _ => taskTimeoutSec < env.sweepTime - e₀.createdAt ∧
      env.sweepTime ≤ env.allocTime
  | .taskQuery env req s => taskTimeoutSec < env.sweepTime - e₀.createdAt ∧
      ¬ (s = e₀.sessionId ∧ 4 ≤ req.dataLen ∧ queryHandle req = e₀.handleId)
  | .childExit _ _ => True
  | .sweep now => taskTimeoutSec < now - e₀.createdAt
  | .releaseSession s => s ≠ e₀.sessionId

/-- The task in slot `i` of `g` is PENDING when it expires; `es` happens after that, and then its
    owner sends the first query `req` for it. -/
structure Overdue (g : TaskPool) (i : Fin taskPoolSize) (es : List PoolEvent) (env : Env)
    (req : ApduFrame) : Prop where
  pending : (g i).status = .pending
  window : ∀ e ∈ es, AfterExpiry (g i) e
  late : taskTimeoutSec < env.sweepTime - (g i).createdAt
  len : 4 ≤ req.dataLen
  handle : queryHandle req = (g i).handleId

/-- The event runs no sweep and does not settle the task in slot `i`. -/
def Undisturbed (i : Fin taskPoolSize) (g : TaskPool) (e : PoolEvent) : Prop :=
  ¬ Sweeps e ∧ ∀ pid status, e = .childExit pid status → pendingWithPid g pid ≠ some i

/-- No slot before `i` that outlives the sweep at `now` holds the same handle. -/
def FirstOfHandle (g : TaskPool) (i : Fin taskPoolSize) (handle : UInt32) (now : ℤ) : Prop :=
  ∀ j < i, (sweepEntry now (g j)).handleId = handle → (sweepEntry now (g j)).status = .empty

/-- The sweep at `now` leaves the entry as TIMEOUT: it is PENDING and past its time, or it was marked
    before and is within its time again, by a clock that has gone back. -/
def TimedOutAt (now : ℤ) (e : TaskEntry) : Prop :=
  (e.status = .pending ∧ taskTimeoutSec < now - e.createdAt) ∨
    (e.status = .timeout ∧ now - e.createdAt ≤ taskTimeoutSec)

/-- Another task than the one that was created at `t` in slot `i` is found under the handle, and is
    itself past its time. -/
def AnotherOverdue (g : TaskPool) (i : Fin taskPoolSize) (t : ℤ) (handle : UInt32) (now : ℤ) : Prop :=
  ∃ j, (j = i → (g j).createdAt ≠ t) ∧ (g j).handleId = handle ∧ TimedOutAt now (g j) ∧
    FirstOfHandle g j handle now

/-! ### One event after the expiry -/

/-- An event that runs no sweep and no update of the task leaves its slot alone. -/
theorem undisturbed_step {g : TaskPool} {i : Fin taskPoolSize} {e : PoolEvent}
    (hlater : AfterExpiry (g i) e) (h : Undisturbed i g e) : poolStep g e i = g i := by
  obtain ⟨hsweep, hexit⟩ := h
  cases e with
  | init => exact hlater.elim
  | svcRestart env req s =>
    rcases handlerSvcRestart_apply env g req s i with ⟨-, he⟩ | ⟨hform, -⟩
    · exact he
    · exact absurd hform hsweep
  | taskQuery env req s =>
    rcases handlerTaskQuery_apply env g req s i with ⟨-, he⟩ | ⟨hlen, -⟩
    · exact he
    · exact absurd hlen hsweep
  | childExit pid status =>
    rcases taskPoolUpdateByPid_cases g pid (childStatus status) with ⟨j, hj, hu⟩ | ⟨-, hu⟩
    · have hij : i ≠ j := by
        rintro rfl
        exact hexit pid status rfl hj
      simp only [poolStep, hu, Function.update_of_ne hij]
    · simp only [poolStep, hu]
  | sweep now => exact absurd trivial hsweep
  | releaseSession s =>
    exact if_neg fun h => hlater h.1.symm

/-- The task in the slot is no longer the PENDING one that was created at `t`. -/
def Settled (t : ℤ) (e : TaskEntry) : Prop := ¬ (e.status = .pending ∧ e.createdAt = t)

theorem settled_zero (t : ℤ) : Settled t zeroEntry := fun h => by cases h.1

theorem settled_sweep {now t : ℤ} (e : TaskEntry) (hold : taskTimeoutSec < now - t) :
    Settled t (sweepEntry now e) := by
  rintro ⟨hp, ht⟩
  rcases sweepEntry_cases now e with hs | ⟨-, -, hs⟩ | ⟨-, -, -, hs⟩ <;> rw [hs] at hp ht
  · -- a PENDING entry of that age does not survive the sweep as it is
    have := sweepEntry_pending now hp (by rw [ht]; exact hold)
    rw [hs] at this
    have hst := congrArg TaskEntry.status this
    rw [hp] at hst
    cases hst
  · cases hp
  · cases hp

theorem settled_new {t now : ℤ} {env : Env} (s : UInt16) (n : List UInt8) (pid : ℤ)
    (hnow : taskTimeoutSec < now - t) (hle : now ≤ env.allocTime) :
    Settled t (newEntry s n pid env.rand env.allocTime) := by
  rintro ⟨-, ht⟩
  simp only [newEntry_createdAt] at ht
  simp only [taskTimeoutSec] at hnow
  omega

/-- A request that sweeps, a sweep, or the task's own child ends its PENDING state. -/
theorem disturbed_step {g : TaskPool} {i : Fin taskPoolSize} {e : PoolEvent}
    (hlater : AfterExpiry (g i) e) (h : ¬ Undisturbed i g e) :
    Settled (g i).createdAt (poolStep g e i) := by
  cases e with
  | init => exact hlater.elim
  | svcRestart env req s =>
    rcases handlerSvcRestart_apply env g req s i with ⟨hno, -⟩ | ⟨-, he | ⟨pid, -, he⟩⟩
    · exact absurd ⟨hno, nofun⟩ h
    · simp only [poolStep, he]; exact settled_sweep _ hlater.1
    · simp only [poolStep, he]; exact settled_new s _ pid hlater.1 hlater.2
  | taskQuery env req s =>
    rcases handlerTaskQuery_apply env g req s i with ⟨hshort, -⟩ | ⟨-, he | he⟩
    · exact absurd ⟨not_le.mpr hshort, nofun⟩ h
    · simp only [poolStep, he]; exact settled_sweep _ hlater.1
    · simp only [poolStep, he]; exact settled_zero _
  | childExit pid status =>
    rcases taskPoolUpdateByPid_cases g pid (childStatus status) with ⟨j, hj, hu⟩ | ⟨hnone, -⟩
    · rcases eq_or_ne i j with rfl | hij
      · simp only [poolStep, hu, Function.update_self]
        exact fun hs => childStatus_ne_pending status hs.1
      · refine absurd ⟨id, ?_⟩ h
        rintro pid' status' ⟨⟩ hi
        exact hij (Option.some.inj (hi.symm.trans hj))
    · refine absurd ⟨id, ?_⟩ h
      rintro pid' status' ⟨⟩ hi
      exact absurd (hi.symm.trans hnone) nofun
  | sweep now => exact settled_sweep _ hlater
  | releaseSession s => exact absurd ⟨id, nofun⟩ h

/-- No later event brings it back. -/
theorem settled_step {g : TaskPool} {i : Fin taskPoolSize} {e₀ : TaskEntry} {e : PoolEvent}
    (hlater : AfterExpiry e₀ e) (h : Settled e₀.createdAt (g i)) :
    Settled e₀.createdAt (poolStep g e i) := by
  cases e with
  | init => exact hlater.elim
  | svcRestart env req s =>
    rcases handlerSvcRestart_apply env g req s i with ⟨-, he⟩ | ⟨-, he | ⟨pid, -, he⟩⟩ <;>
      simp only [poolStep, he]
    · exact h
    · exact settled_sweep _ hlater.1
    · exact settled_new s _ pid hlater.1 hlater.2
  | taskQuery env req s =>
    rcases handlerTaskQuery_apply env g req s i with ⟨-, he⟩ | ⟨-, he | he⟩ <;>
      simp only [poolStep, he]
    · exact h
    · exact settled_sweep _ hlater.1
    · exact settled_zero _
  | childExit pid status =>
    rcases taskPoolUpdateByPid_cases g pid (childStatus status) with ⟨j, hj, hu⟩ | ⟨-, hu⟩ <;>
      simp only [poolStep, hu]
    · rcases eq_or_ne i j with rfl | hij
      · rw [Function.update_self]
        exact fun hs => childStatus_ne_pending status hs.1
      · rw [Function.update_of_ne hij]; exact h
    · exact h
  | sweep now => exact settled_sweep _ hlater
  | releaseSession s =>
    simp only [poolStep, taskPoolReleaseSession_apply]
    split
    · exact settled_zero _
    · exact h

/-! ### The query -/

/-- The task is as it was at its expiry when the query arrives, exactly when nothing disturbed it. -/
theorem overdue_kept_iff {g : TaskPool} {i : Fin taskPoolSize} {es : List PoolEvent}
    (hp : (g i).status = .pending) (hwin : ∀ e ∈ es, AfterExpiry (g i) e) :
    es.foldl poolStep g i = g i ↔ Runs.StepsMeet (Runs.always poolStep) (Undisturbed i) g es := by
  refine Runs.end_iff_steps (I := fun g' : TaskPool => g' i = g i)
    (B := fun g' : TaskPool => Settled (g i).createdAt (g' i))
    (P := fun g' : TaskPool => g' i = g i) rfl ?_ ?_ ?_ hwin (Runs.run_always _ _ _) id ?_
  · rintro g' e _ hlater hi hund ⟨⟩
    rw [undisturbed_step (by rw [hi]; exact hlater) hund, hi]
  · rintro g' e _ hlater hi hdist ⟨⟩
    rw [← hi] at hlater ⊢
    exact disturbed_step hlater hdist
  · rintro g' e _ hlater hset ⟨⟩
    exact settled_step hlater hset
  · intro hset hi
    exact hset ⟨by rw [hi]; exact hp, by rw [hi]⟩

/-- Whatever happens in between, the slot holds the task as it was, or no longer as PENDING. -/
theorem overdue_settled {i : Fin taskPoolSize} {e₀ : TaskEntry} {es : List PoolEvent}
    (hwin : ∀ e ∈ es, AfterExpiry e₀ e) {g : TaskPool} (h : g i = e₀ ∨ Settled e₀.createdAt (g i)) :
    es.foldl poolStep g i = e₀ ∨ Settled e₀.createdAt (es.foldl poolStep g i) := by
  induction es generalizing g with
  | nil => exact h
  | cons e es ih =>
    have hlater := hwin e List.mem_cons_self
    refine ih (fun e' he' => hwin e' (List.mem_cons_of_mem _ he')) ?_
    rcases h with rfl | hset
    · by_cases hund : Undisturbed i g e
      · exact Or.inl (undisturbed_step hlater hund)
      · exact Or.inr (disturbed_step hlater hund)
    · exact Or.inr (settled_step hlater hset)

theorem sweepEntry_timeout_iff (now : ℤ) (e : TaskEntry) :
    (sweepEntry now e).status = .timeout ↔ TimedOutAt now e := by
  constructor
  · intro h
    rcases sweepEntry_cases now e with hs | ⟨hold, hp, -⟩ | ⟨-, -, -, hs⟩
    · rw [hs] at h
      refine Or.inr ⟨h, not_lt.mp fun hold => ?_⟩
      -- a TIMEOUT entry past its time is removed
      have hz := sweepEntry_terminal now (by simp [h]) (by simp [h]) hold
      rw [← hs, hz] at h
      cases h
    · exact Or.inl ⟨hp, hold⟩
    · rw [hs] at h
      cases h
  · rintro (⟨hp, hold⟩ | ⟨ht, hyoung⟩)
    · rw [sweepEntry_pending now hp hold]
    · rw [sweepEntry_young hyoung, ht]

theorem toWire_timeout {st : TaskStatus} (h : toWire st = qstatusTimeout) : st = .timeout := by
  cases st <;> first | rfl | exact absurd h (by decide)

/-- A query is answered Timeout exactly when the first slot of its handle holds a task that the
    query's own sweep leaves as TIMEOUT. -/
theorem query_timeout_iff {g : TaskPool} {env : Env} {req : ApduFrame} {s : UInt16}
    (hlen : 4 ≤ req.dataLen) (hne : queryHandle req ≠ 0) (hs : high16 (queryHandle req) = s) :
    (handlerTaskQuery env g req s).2 = [0x03, 0x90, 0x00] ↔
      ∃ j, (g j).handleId = queryHandle req ∧ TimedOutAt env.sweepTime (g j) ∧
        FirstOfHandle g j (queryHandle req) env.sweepTime := by
  constructor
  · intro h
    have hc := handlerTaskQuery_cases env g req s
    generalize handlerTaskQuery env g req s = out at hc h
    cases hc with
    | short hshort => omega
    | notFound =>
      dsimp only at h
      exact absurd h (by decide)
    | pending =>
      dsimp only at h
      exact absurd h (by decide)
    | terminal j _ hj _ =>
      obtain ⟨-, -, hh, hlive, hfirst⟩ := taskPoolFindHandle_some hj
      have ht := toWire_timeout (List.cons.inj h).1
      exact ⟨j, (sweepEntry_live hlive).2.symm.trans hh, (sweepEntry_timeout_iff _ _).mp ht, hfirst⟩
  · rintro ⟨j, hh, ht, hfirst⟩
    have hst := (sweepEntry_timeout_iff env.sweepTime (g j)).mpr ht
    have hlive : (sweepEntry env.sweepTime (g j)).status ≠ .empty := by simp [hst]
    have hfound : taskPoolFindHandle (taskPoolSweepTimeouts g env.sweepTime) (queryHandle req) s =
        some j :=
      taskPoolFindHandle_of_first hne hs ((sweepEntry_live hlive).2.trans hh) hlive hfirst
    have hc := handlerTaskQuery_cases env g req s
    generalize handlerTaskQuery env g req s = out at hc ⊢
    cases hc with
    | short hshort => omega
    | notFound _ hnone => rw [hfound] at hnone; cases hnone
    | pending k _ hk hkp =>
      obtain rfl := Option.some.inj (hfound.symm.trans hk)
      rw [hst] at hkp
      cases hkp
    | terminal k _ hk _ =>
      obtain rfl := Option.some.inj (hfound.symm.trans hk)
      dsimp only
      rw [hst]
      rfl

/-- What a query's sweep leaves as TIMEOUT in the slot of a disturbed task is another task. -/
theorem TimedOutAt.other {e e₀ : TaskEntry} {now : ℤ} (ht : TimedOutAt now e)
    (hlate : taskTimeoutSec < now - e₀.createdAt) (h : Settled e₀.createdAt e) :
    e.createdAt ≠ e₀.createdAt := by
  intro hsame
  rcases ht with ⟨hp, -⟩ | ⟨-, hyoung⟩
  · exact h ⟨hp, hsame⟩
  · rw [hsame] at hyoung
    exact not_lt.mpr hyoung hlate

/-- CORRECT (exact): the owner's first query after the expiry is answered Timeout if and only if
    between the two no request ran a sweep and the task's child was not reaped, and no earlier slot
    that outlives the query's own sweep holds the same handle; or another task that is past its time
    has by chance the same handle and is found in its place. -/
theorem timeout_reported_iff (es₀ es : List PoolEvent) (i : Fin taskPoolSize) (env : Env)
    (req : ApduFrame) (h : Overdue (poolAfter es₀) i es env req) :
    (handlerTaskQuery env (es.foldl poolStep (poolAfter es₀)) req (poolAfter es₀ i).sessionId).2 =
        [0x03, 0x90, 0x00] ↔
      (Runs.StepsMeet (Runs.always poolStep) (Undisturbed i) (poolAfter es₀) es ∧
        FirstOfHandle (es.foldl poolStep (poolAfter es₀)) i (poolAfter es₀ i).handleId
          env.sweepTime) ∨
      AnotherOverdue (es.foldl poolStep (poolAfter es₀)) i (poolAfter es₀ i).createdAt
        (poolAfter es₀ i).handleId env.sweepTime := by
  have hok := poolAfter_ok es₀ i
  have hlive : (poolAfter es₀ i).status ≠ .empty := by simp [h.pending]
  rw [query_timeout_iff h.len (by rw [h.handle]; exact hok.handleNe hlive)
    (by rw [h.handle]; exact hok.owner hlive), h.handle]
  have hkept := overdue_kept_iff h.pending h.window
  rcases overdue_settled h.window (Or.inl rfl) with hsame | hset
  · -- the task is there as it was: it is found, or another one is
    rw [← hkept]
    constructor
    · rintro ⟨j, hh, ht, hfirst⟩
      rcases eq_or_ne j i with rfl | hji
      · exact Or.inl ⟨hsame, hfirst⟩
      · exact Or.inr ⟨j, fun hj => absurd hj hji, hh, ht, hfirst⟩
    · rintro (⟨-, hfirst⟩ | ⟨j, -, hrest⟩)
      · exact ⟨i, by rw [hsame], by rw [hsame]; exact Or.inl ⟨h.pending, h.late⟩, hfirst⟩
      · exact ⟨j, hrest⟩
  · constructor
    · rintro ⟨j, hh, ht, hfirst⟩
      refine Or.inr ⟨j, ?_, hh, ht, hfirst⟩
      rintro rfl
      exact ht.other h.late hset
    · rintro (⟨hmeet, -⟩ | ⟨j, -, hrest⟩)
      · refine absurd ⟨?_, ?_⟩ hset
        · rw [hkept.mpr hmeet, h.pending]
        · rw [hkept.mpr hmeet]
      · exact ⟨j, hrest⟩

theorem oneRestart_overdue {es : List PoolEvent} (h : ∀ e ∈ es, AfterExpiry (poolAfter oneRestart 0) e)
    {now : ℤ} (hnow : 30 < now) (rand : UInt32) :
    Overdue (poolAfter oneRestart) 0 es ⟨now, now, rand, .child 0, none⟩ (queryRequest 0x00010001) :=
  ⟨by rw [oneRestart_slot], h, by rw [oneRestart_slot]; simpa [taskTimeoutSec] using hnow,
    by decide, by rw [oneRestart_slot, queryHandle_queryRequest]⟩

/-- A task that nobody swept in between is reported as timed out. -/
theorem timeout_reported_undisturbed :
    (handlerTaskQuery ⟨31, 31, 0, .child 0, none⟩ (poolAfter oneRestart) (queryRequest 0x00010001)
      (poolAfter oneRestart 0).sessionId).2 = [0x03, 0x90, 0x00] :=
  (timeout_reported_iff oneRestart [] 0 _ _ (oneRestart_overdue (by simp) (by decide) 0)).mpr
    (Or.inl ⟨Runs.StepsMeet.nil, fun j hj => absurd hj (Fin.not_lt_zero j)⟩)

/-- Session 2 asks for a handle of its own at time 31, which marks the task of session 1; the query
    of session 1 at time 32 removes it before it looks for it. -/
theorem second_sweep_forgets :
    Overdue (poolAfter oneRestart) 0
      [.taskQuery ⟨31, 31, 0, .child 0, none⟩ (queryRequest 0x00020001) 2]
      ⟨32, 32, 0, .child 0, none⟩ (queryRequest 0x00010001) ∧
    (handlerTaskQuery ⟨32, 32, 0, .child 0, none⟩
      (poolStep (poolAfter oneRestart)
        (.taskQuery ⟨31, 31, 0, .child 0, none⟩ (queryRequest 0x00020001) 2))
      (queryRequest 0x00010001) 1).2 = [0xFF, 0x90, 0x00] := by
  refine ⟨oneRestart_overdue ?_ (by decide) 0, by decide +kernel⟩
  intro e he
  obtain rfl := List.mem_singleton.mp he
  rw [oneRestart_slot]
  exact ⟨by decide, by decide⟩

end Asys
