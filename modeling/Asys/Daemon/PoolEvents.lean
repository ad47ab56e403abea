import Asys.Handlers.SvcRestart
import Asys.Handlers.TaskQuery

/-! # The task pool under the daemon's events

    What happens to `g_pool` while the daemon runs, each call taken as one step: requests of any
    session, children reaped by `sigchld_handler`, sweeps, and sessions released on disconnect. -/

namespace Asys
open Words

/-- What `waitpid` reports of a child: `WIFEXITED` with its code, or a death by signal. -/
inductive WaitStatus where
  | exited (code : UInt8)
  | signaled
  deriving DecidableEq, Repr

/-- `WIFEXITED(status) ? WEXITSTATUS(status) : -1`. -/
def exitCode : WaitStatus → ℤ
  | .exited code => code.toNat
  | .signaled => -1

/-- The status `sigchld_handler` records for a reaped child. -/
def childStatus (status : WaitStatus) : TaskStatus :=
  if exitCode status = 0 then .success else .failed

/-- `sigchld_handler`, given the children that `waitpid` hands it one after the other. -/
def sigchldHandler (g : TaskPool) (reaped : List (ℤ × WaitStatus)) : TaskPool :=
  reaped.foldl (fun g c => taskPoolUpdateByPid g c.1 (childStatus c.2)) g

inductive PoolEvent where
  | init
  | svcRestart (env : Env) (req : ApduFrame) (sessionId : UInt16)
  | taskQuery (env : Env) (req : ApduFrame) (sessionId : UInt16)
  /-- one turn of the loop in `sigchld_handler` -/
  | childExit (pid : ℤ) (status : WaitStatus)
  | sweep (now : ℤ)
  | releaseSession (sessionId : UInt16)

def poolStep (g : TaskPool) : PoolEvent → TaskPool
  | .init => taskPoolInit
  | .svcRestart env req s => (handlerSvcRestart env g req s).1
  | .taskQuery env req s => (handlerTaskQuery env g req s).1
  | .childExit pid status => taskPoolUpdateByPid g pid (childStatus status)
  | .sweep now => taskPoolSweepTimeouts g now
  | .releaseSession s => taskPoolReleaseSession g s

/-- The pool after a list of events, from the daemon's start on. -/
def poolAfter (es : List PoolEvent) : TaskPool := es.foldl poolStep taskPoolInit

theorem childStatus_ne_empty (status : WaitStatus) : childStatus status ≠ .empty := by
  unfold childStatus; split <;> decide

theorem childStatus_ne_pending (status : WaitStatus) : childStatus status ≠ .pending := by
  unfold childStatus; split <;> decide

theorem childStatus_ne_timeout (status : WaitStatus) : childStatus status ≠ .timeout := by
  unfold childStatus; split <;> decide

theorem PoolOk.sweep {g : TaskPool} (h : PoolOk g) (now : ℤ) : PoolOk (taskPoolSweepTimeouts g now) :=
  h.step fun i => sweepEntry_step now (g i)

theorem PoolOk.svcRestart {g : TaskPool} (h : PoolOk g) (env : Env) (req : ApduFrame) (s : UInt16) :
    PoolOk (handlerSvcRestart env g req s).1 := by
  intro i
  rcases handlerSvcRestart_apply env g req s i with ⟨-, he⟩ | ⟨-, he | ⟨pid, -, he⟩⟩ <;> rw [he]
  · exact h i
  · exact h.sweep env.sweepTime i
  · exact entryOk_new _ _ _ _ _

theorem PoolOk.taskQuery {g : TaskPool} (h : PoolOk g) (env : Env) (req : ApduFrame) (s : UInt16) :
    PoolOk (handlerTaskQuery env g req s).1 := by
  intro i
  rcases handlerTaskQuery_apply env g req s i with ⟨-, he⟩ | ⟨-, he | he⟩ <;> rw [he]
  · exact h i
  · exact h.sweep env.sweepTime i
  · exact entryOk_zero

/-- Every event keeps the slots well formed. -/
theorem poolStep_ok {g : TaskPool} (h : PoolOk g) (e : PoolEvent) : PoolOk (poolStep g e) := by
  cases e with
  | init => exact poolOk_init
  | svcRestart env req s => exact h.svcRestart env req s
  | taskQuery env req s => exact h.taskQuery env req s
  | childExit pid status =>
    exact h.step (taskPoolUpdateByPid_step g pid (childStatus_ne_empty status))
  | sweep now => exact h.sweep now
  | releaseSession s => exact h.step (taskPoolReleaseSession_step g s)

/-- Every pool the daemon reaches is well formed. -/
theorem poolAfter_ok (es : List PoolEvent) : PoolOk (poolAfter es) := by
  suffices h : ∀ {g : TaskPool}, PoolOk g → PoolOk (es.foldl poolStep g) from h poolOk_init
  induction es with
  | nil => exact fun h => h
  | cons e es ih => exact fun h => ih (poolStep_ok h e)

/-! ### What a call does to the live entries -/

/-- The live entries of `g'` are live entries of `g`, in the same slots and with their handles. -/
def Shrinks (g g' : TaskPool) : Prop :=
  ∀ i, (g' i).status ≠ .empty → (g i).status ≠ .empty ∧ (g' i).handleId = (g i).handleId

theorem sweepEntry_live {now : ℤ} {e : TaskEntry} (h : (sweepEntry now e).status ≠ .empty) :
    e.status ≠ .empty ∧ (sweepEntry now e).handleId = e.handleId := by
  rcases sweepEntry_cases now e with hs | ⟨-, hp, hs⟩ | ⟨-, -, -, hs⟩
  · rw [hs] at h ⊢; exact ⟨h, rfl⟩
  · rw [hs]; exact ⟨by simp [hp], rfl⟩
  · rw [hs] at h; exact absurd rfl h

theorem sweep_shrinks (g : TaskPool) (now : ℤ) : Shrinks g (taskPoolSweepTimeouts g now) :=
  fun _ h => sweepEntry_live h

theorem taskQuery_shrinks (env : Env) (g : TaskPool) (req : ApduFrame) (s : UInt16) :
    Shrinks g (handlerTaskQuery env g req s).1 := by
  intro i hi
  rcases handlerTaskQuery_apply env g req s i with ⟨-, he⟩ | ⟨-, he | he⟩ <;> rw [he] at hi ⊢
  · exact ⟨hi, rfl⟩
  · exact sweepEntry_live hi
  · exact absurd rfl hi

theorem updateByPid_shrinks (g : TaskPool) (pid : ℤ) (st : TaskStatus) :
    Shrinks g (taskPoolUpdateByPid g pid st) := by
  intro i hi
  rcases taskPoolUpdateByPid_cases g pid st with ⟨j, hj, hu⟩ | ⟨-, hu⟩ <;> rw [hu] at hi ⊢
  · rcases eq_or_ne i j with rfl | hij
    · exact ⟨by simp [(pendingWithPid_some hj).2], by simp⟩
    · rw [Function.update_of_ne hij] at hi ⊢; exact ⟨hi, rfl⟩
  · exact ⟨hi, rfl⟩

theorem free_shrinks (g : TaskPool) (h : UInt32) : Shrinks g (taskPoolFree g h) := by
  intro i hi
  rcases taskPoolFree_cases g h with ⟨j, -, -, hf⟩ | ⟨-, hf⟩ <;> rw [hf] at hi ⊢
  · rcases eq_or_ne i j with rfl | hij
    · rw [Function.update_self] at hi; exact absurd rfl hi
    · rw [Function.update_of_ne hij] at hi ⊢; exact ⟨hi, rfl⟩
  · exact ⟨hi, rfl⟩

theorem releaseSession_live {g : TaskPool} {s : UInt16} {i : Fin taskPoolSize}
    (hi : (taskPoolReleaseSession g s i).status ≠ .empty) :
    (g i).sessionId ≠ s ∧ taskPoolReleaseSession g s i = g i := by
  rw [taskPoolReleaseSession_apply] at hi ⊢
  by_cases h : (g i).sessionId = s ∧ (g i).status ≠ .empty
  · rw [if_pos h] at hi; exact absurd rfl hi
  · rw [if_neg h] at hi ⊢
    exact ⟨fun hs => h ⟨hs, hi⟩, rfl⟩

/-- Session 1 restarts service `a` at time 0 and gets handle 0x00010001. -/
def oneRestart : List PoolEvent :=
  [.svcRestart ⟨0, 0, 1, .child 100, none⟩ (letterRequest 0x61) 1]

theorem oneRestart_slot : poolAfter oneRestart 0 = ⟨0x00010001, 1, 100, .pending, 0, [0x61]⟩ := by
  decide +kernel

end Asys
