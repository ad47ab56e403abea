import Asys.Daemon.PoolEvents
import Asys.Lib.Runs

/-! # The life of a task

    A slot of the pool under the pool's own operations, each one atomic: `task_pool_alloc`, the
    status recorded by the reaper, `task_pool_sweep_timeouts`, `task_pool_release_session`, and
    TASK_QUERY with its sweep, lookup and release. A task enters a free slot as PENDING, is settled
    at most once, and leaves when it is asked for, when its session ends, or when a sweep finds it
    settled and old. -/

namespace Asys
open Words

inductive PoolOp where
  | alloc (sessionId : UInt16) (svcName : List UInt8) (pid : ℤ) (rand : UInt32) (now : ℤ)
  | taskQuery (env : Env) (req : ApduFrame) (sessionId : UInt16)
  /-- one turn of the loop in `sigchld_handler` -/
  | childExit (pid : ℤ) (status : WaitStatus)
  | sweep (now : ℤ)
  | releaseSession (sessionId : UInt16)

def poolOp (g : TaskPool) : PoolOp → TaskPool
  | .alloc s n pid r now => (taskPoolAlloc g s n pid r now).1
  | .taskQuery env req s => (handlerTaskQuery env g req s).1
  | .childExit pid status => taskPoolUpdateByPid g pid (childStatus status)
  | .sweep now => taskPoolSweepTimeouts g now
  | .releaseSession s => taskPoolReleaseSession g s

/-- The pool after the first `k` operations. -/
def poolAt (ops : List PoolOp) (k : ℕ) : TaskPool := (ops.take k).foldl poolOp taskPoolInit

/-- The states of a task that is over. -/
def Terminal (st : TaskStatus) : Prop := st = .success ∨ st = .failed ∨ st = .timeout

/-- What the sweep of an operation takes for the time, if the operation has one. -/
def sweepTimeOf : PoolOp → Option ℤ
  | .taskQuery env req _ => if req.dataLen < 4 then none else some env.sweepTime
  | .sweep now => some now
  | _ => none

/-- The ways in which the task in slot `i` of `g` leaves the pool. -/
inductive Leaves (g : TaskPool) (i : Fin taskPoolSize) : PoolOp → Prop where
  /-- its owner asks for it and is told its terminal status -/
  | queried (env : Env) (req : ApduFrame) : 4 ≤ req.dataLen → queryHandle req = (g i).handleId →
      Terminal (sweepEntry env.sweepTime (g i)).status →
      (handlerTaskQuery env g req (g i).sessionId).2 =
        queryResp (toWire (sweepEntry env.sweepTime (g i)).status) →
      Leaves g i (.taskQuery env req (g i).sessionId)
  /-- its session is released -/
  | released : Leaves g i (.releaseSession (g i).sessionId)
  /-- a sweep finds it terminal and older than `TASK_TIMEOUT_SEC` -/
  | swept (op : PoolOp) (now : ℤ) : sweepTimeOf op = some now → Terminal (g i).status →
      taskTimeoutSec < now - (g i).createdAt → Leaves g i op

/-- What an operation does to slot `i` of `g`. -/
inductive SlotStep (g : TaskPool) (i : Fin taskPoolSize) : PoolOp → TaskEntry → Prop where
  | stays (op : PoolOp) : SlotStep g i op (g i)
  | enters (s : UInt16) (n : List UInt8) (pid : ℤ) (r : UInt32) (now : ℤ) : (g i).status = .empty →
      SlotStep g i (.alloc s n pid r now) (newEntry s n pid r now)
  | settles (op : PoolOp) (st : TaskStatus) : (g i).status = .pending → Terminal st →
      SlotStep g i op { g i with status := st }
  | leaves (op : PoolOp) : Leaves g i op → SlotStep g i op zeroEntry

/-! ### One operation -/

theorem terminal_childStatus (status : WaitStatus) : Terminal (childStatus status) := by
  simp only [childStatus]
  split
  · exact Or.inl rfl
  · exact Or.inr (Or.inl rfl)

/-- A state the pool is really in. -/
def Known (st : TaskStatus) : Prop := st = .empty ∨ st = .pending ∨ Terminal st

theorem Known.terminal {st : TaskStatus} (h : Known st) (he : st ≠ .empty) (hp : st ≠ .pending) :
    Terminal st := by
  rcases h with h | h | h
  · exact absurd h he
  · exact absurd h hp
  · exact h

theorem known_sweep {now : ℤ} {e : TaskEntry} (h : Known e.status) :
    Known (sweepEntry now e).status := by
  rcases sweepEntry_cases now e with hs | ⟨-, -, hs⟩ | ⟨-, -, -, hs⟩ <;> rw [hs]
  · exact h
  · exact Or.inr (Or.inr (Or.inr (Or.inr rfl)))
  · exact Or.inl rfl

/-- What the sweep of an operation does to a slot. -/
theorem slotStep_sweep {g : TaskPool} {i : Fin taskPoolSize} {op : PoolOp} {now : ℤ}
    (hop : sweepTimeOf op = some now) (hk : Known (g i).status) :
    SlotStep g i op (sweepEntry now (g i)) := by
  rcases sweepEntry_cases now (g i) with hs | ⟨-, hp, hs⟩ | ⟨hold, hp, he, hs⟩ <;> rw [hs]
  · exact .stays op
  · exact .settles op _ hp (Or.inr (Or.inr rfl))
  · exact .leaves op (.swept op now hop (hk.terminal he hp) hold)

theorem slotStep_taskQuery {g : TaskPool} (hg : PoolOk g) {i : Fin taskPoolSize}
    (hk : Known (g i).status) (env : Env) (req : ApduFrame) (s : UInt16) :
    SlotStep g i (.taskQuery env req s) ((handlerTaskQuery env g req s).1 i) := by
  have hsweep : 4 ≤ req.dataLen → sweepTimeOf (.taskQuery env req s) = some env.sweepTime :=
    fun hlen => if_neg (not_lt.mpr hlen)
  have hc := handlerTaskQuery_cases env g req s
  generalize hout : handlerTaskQuery env g req s = out at hc
  cases hc with
  | short hshort => exact .stays _
  | notFound hlen hfind => exact slotStep_sweep (hsweep hlen) hk
  | pending j hlen hfind hp => exact slotStep_sweep (hsweep hlen) hk
  | terminal j hlen hfind hp =>
    dsimp only
    rw [(hg.sweep env.sweepTime).free_found hfind]
    rcases eq_or_ne i j with rfl | hij
    · rw [Function.update_self]
      obtain ⟨-, hs, hh, hlive, -⟩ := taskPoolFindHandle_some hfind
      obtain ⟨hlive', hhandle⟩ := sweepEntry_live hlive
      have howner : (g i).sessionId = s := by
        rw [← (hg i).owner hlive', ← hhandle, ← hs]
        exact congrArg high16 hh
      subst howner
      refine .leaves _ (.queried env req hlen ?_ ((known_sweep hk).terminal hlive hp) ?_)
      · rw [← hhandle]
        exact hh.symm
      · rw [hout]
    · rw [Function.update_of_ne hij]
      exact slotStep_sweep (hsweep hlen) hk

/-- Every operation does one of the four things to every slot. -/
theorem poolOp_slot {g : TaskPool} (hg : PoolOk g) {i : Fin taskPoolSize} (hk : Known (g i).status)
    (op : PoolOp) : SlotStep g i op (poolOp g op i) := by
  cases op with
  | alloc s n pid r now =>
    show SlotStep g i _ ((taskPoolAlloc g s n pid r now).1 i)
    rcases taskPoolAlloc_cases g s n pid r now with ⟨j, hj, ha⟩ | ⟨-, ha⟩ <;> rw [ha] <;> dsimp only
    · rcases eq_or_ne i j with rfl | hij
      · rw [Function.update_self]
        exact .enters s n pid r now (firstEmpty_some hj)
      · rw [Function.update_of_ne hij]
        exact .stays _
    · exact .stays _
  | taskQuery env req s => exact slotStep_taskQuery hg hk env req s
  | childExit pid status =>
    show SlotStep g i _ (taskPoolUpdateByPid g pid (childStatus status) i)
    rcases taskPoolUpdateByPid_cases g pid (childStatus status) with ⟨j, hj, hu⟩ | ⟨-, hu⟩ <;> rw [hu]
    · rcases eq_or_ne i j with rfl | hij
      · rw [Function.update_self]
        exact .settles _ _ (pendingWithPid_some hj).2 (terminal_childStatus status)
      · rw [Function.update_of_ne hij]
        exact .stays _
    · exact .stays _
  | sweep now => exact slotStep_sweep rfl hk
  | releaseSession s =>
    show SlotStep g i _ (taskPoolReleaseSession g s i)
    rw [taskPoolReleaseSession_apply]
    split
    · rename_i h
      rw [← h.1]
      exact .leaves _ .released
    · exact .stays _

/-! ### Runs -/

@[simp] theorem poolAt_zero (ops : List PoolOp) : poolAt ops 0 = taskPoolInit := rfl

theorem poolAt_succ {ops : List PoolOp} {k : ℕ} (hk : k < ops.length) :
    poolAt ops (k + 1) = poolOp (poolAt ops k) ops[k] := by
  rw [poolAt, List.take_succ_eq_append_getElem hk, List.foldl_append]
  rfl

theorem SlotStep.known {g : TaskPool} {i : Fin taskPoolSize} {op : PoolOp} {e : TaskEntry}
    (h : SlotStep g i op e) (hk : Known (g i).status) : Known e.status := by
  cases h with
  | stays => exact hk
  | enters => exact Or.inr (Or.inl rfl)
  | settles op st _ hst => exact Or.inr (Or.inr hst)
  | leaves => exact Or.inl rfl

theorem SlotStep.ok {g : TaskPool} {i : Fin taskPoolSize} {op : PoolOp} {e : TaskEntry}
    (h : SlotStep g i op e) (hg : EntryOk (g i)) : EntryOk e := by
  refine hg.step ?_
  cases h with
  | stays => exact .same _
  | enters s n pid r now hempty => exact .fill s n pid r now hempty
  | settles op st hp hst =>
    refine .settle st hp ?_
    rcases hst with rfl | rfl | rfl <;> decide
  | leaves => exact .clear _

/-- Every pool of a run is well formed, and its slots are in the states that tasks go through. -/
theorem poolAt_ok (ops : List PoolOp) {k : ℕ} (hk : k ≤ ops.length) (i : Fin taskPoolSize) :
    EntryOk (poolAt ops k i) ∧ Known (poolAt ops k i).status := by
  induction k generalizing i with
  | zero => exact ⟨entryOk_zero, Or.inl rfl⟩
  | succ k ih =>
    have hprev := ih (by omega)
    have hstep := poolOp_slot (fun j => (hprev j).1) (hprev i).2 ops[k]
    rw [poolAt_succ hk]
    exact ⟨hstep.ok (hprev i).1, hstep.known (hprev i).2⟩

/-- Every operation of a run does one of the four things to every slot. -/
theorem poolAt_slot {ops : List PoolOp} {k : ℕ} (hk : k < ops.length) (i : Fin taskPoolSize) :
    SlotStep (poolAt ops k) i ops[k] (poolAt ops (k + 1) i) := by
  rw [poolAt_succ hk]
  exact poolOp_slot (fun j => (poolAt_ok ops hk.le j).1) (poolAt_ok ops hk.le i).2 ops[k]

/-- From operation `a` up to the pool after `b` operations slot `i` holds one task: `a` put it as
    PENDING into a free slot, and at most one operation, `c`, has settled it, for good. -/
def Lives (ops : List PoolOp) (i : Fin taskPoolSize) (a b : ℕ) : Prop :=
  ∃ s n pid r now c st, ops[a]? = some (.alloc s n pid r now) ∧
    (poolAt ops a i).status = .empty ∧ Terminal st ∧
    ∀ k, a < k → k ≤ b → poolAt ops k i =
      if k ≤ c then newEntry s n pid r now else { newEntry s n pid r now with status := st }

/-- A task that lives is PENDING or in its terminal state. -/
theorem Lives.succ {ops : List PoolOp} {i : Fin taskPoolSize} {a b : ℕ} (h : Lives ops i a b)
    (hab : a < b) (hb : b < ops.length) (hlive : (poolAt ops (b + 1) i).status ≠ .empty) :
    Lives ops i a (b + 1) := by
  obtain ⟨s, n, pid, r, now, c, st, hop, hfree, hst, hlife⟩ := h
  have hnow := hlife b hab le_rfl
  -- `c` is kept if the task is settled already, and moved behind `b` if it is not
  have hkeep : ∀ c' st', Terminal st' → (∀ k, a < k → k ≤ b → (k ≤ c ↔ k ≤ c') ∧
      (¬ k ≤ c → st' = st)) → (poolAt ops (b + 1) i = if b + 1 ≤ c' then newEntry s n pid r now else
        { newEntry s n pid r now with status := st' }) → Lives ops i a (b + 1) := by
    intro c' st' hst' hsame hlast
    refine ⟨s, n, pid, r, now, c', st', hop, hfree, hst', fun k hak hkb => ?_⟩
    rcases Nat.lt_or_ge b k with hbk | hkb'
    · obtain rfl : k = b + 1 := by omega
      exact hlast
    · rw [hlife k hak hkb']
      obtain ⟨hiff, hst⟩ := hsame k hak hkb'
      by_cases hkc : k ≤ c
      · rw [if_pos hkc, if_pos (hiff.mp hkc)]
      · rw [if_neg hkc, if_neg (fun h => hkc (hiff.mpr h)), hst hkc]
  have hslot := poolAt_slot hb i
  generalize hop' : ops[b] = op at hslot
  generalize hnext : poolAt ops (b + 1) i = e at hslot hlive hkeep
  cases hslot with
  | stays =>
    by_cases hbc : b ≤ c
    · refine hkeep (b + 1) st hst (fun k _ hkb => ⟨by omega, fun h => absurd (by omega) h⟩) ?_
      rw [if_pos le_rfl, hnow, if_pos hbc]
    · refine hkeep c st hst (fun k _ _ => ⟨Iff.rfl, fun _ => rfl⟩) ?_
      rw [if_neg (by omega), hnow, if_neg hbc]
  | enters s' n' pid' r' now' hempty =>
    rw [hnow] at hempty
    split at hempty
    · cases hempty
    · rcases hst with rfl | rfl | rfl <;> cases hempty
  | settles op st' hp hst' =>
    have hbc : b ≤ c := by
      by_contra hbc
      rw [hnow, if_neg hbc] at hp
      rcases hst with rfl | rfl | rfl <;> cases hp
    refine hkeep b st' hst' (fun k _ hkb => ⟨by omega, fun h => absurd (by omega) h⟩) ?_
    rw [if_neg (by omega), hnow, if_pos hbc]
  | leaves op hl => exact absurd rfl hlive

/-- Every live slot holds a task with a life behind it. -/
theorem exists_lives (ops : List PoolOp) (i : Fin taskPoolSize) {b : ℕ} (hb : b ≤ ops.length)
    (hlive : (poolAt ops b i).status ≠ .empty) : ∃ a < b, Lives ops i a b := by
  induction b with
  | zero => exact absurd rfl hlive
  | succ b ih =>
    by_cases hprev : (poolAt ops b i).status = .empty
    · have hslot := poolAt_slot hb i
      generalize hop : ops[b] = op at hslot
      generalize hnext : poolAt ops (b + 1) i = e at hslot hlive
      cases hslot with
      | stays => exact absurd hprev hlive
      | enters s n pid r now hempty =>
        refine ⟨b, Nat.lt_succ_self b, s, n, pid, r, now, b + 1, .success, ?_, hempty, Or.inl rfl, ?_⟩
        · rw [List.getElem?_eq_getElem hb, hop]
        · intro k hbk hkb
          obtain rfl : k = b + 1 := by omega
          rw [hnext, if_pos le_rfl]
      | settles op st hp => rw [hprev] at hp; cases hp
      | leaves => exact absurd rfl hlive
    · obtain ⟨a, hab, hlives⟩ := ih (by omega) hprev
      exact ⟨a, by omega, hlives.succ hab hb hlive⟩

/-- CORRECT: in every run of pool operations each of them leaves a slot as it is, fills it if it was
    free, settles its pending task as SUCCESS, FAILED or TIMEOUT, or removes its task for one of the
    three reasons. So a live slot holds a task that came in as PENDING and was settled at most once.
    An allocation fails exactly when every slot is live; one that gives a handle has put the task,
    PENDING and under that handle, into a slot that was free. -/
theorem task_lifecycle (ops : List PoolOp) (i : Fin taskPoolSize) :
    (∀ k (hk : k < ops.length), SlotStep (poolAt ops k) i ops[k] (poolAt ops (k + 1) i)) ∧
      (∀ b ≤ ops.length, (poolAt ops b i).status ≠ .empty → ∃ a < b, Lives ops i a b) ∧
      (∀ k s n pid r now, (taskPoolAlloc (poolAt ops k) s n pid r now).2 = 0 ↔
        ∀ j, (poolAt ops k j).status ≠ .empty) ∧
      ∀ k s n pid r now, (taskPoolAlloc (poolAt ops k) s n pid r now).2 ≠ 0 →
        ∃ j, (poolAt ops k j).status = .empty ∧
          taskPoolAlloc (poolAt ops k) s n pid r now =
            (Function.update (poolAt ops k) j (newEntry s n pid r now),
              (newEntry s n pid r now).handleId) := by
  refine ⟨fun k hk => poolAt_slot hk i, fun b hb hlive => exists_lives ops i hb hlive, ?_, ?_⟩
  · intro k s n pid r now
    rw [taskPoolAlloc_eq_zero, firstEmpty_none]
  · intro k s n pid r now hhandle
    obtain ⟨j, hj, halloc⟩ | ⟨hfull, -⟩ := taskPoolAlloc_cases (poolAt ops k) s n pid r now
    · exact ⟨j, firstEmpty_some hj, halloc⟩
    · exact absurd ((taskPoolAlloc_eq_zero _ s n pid r now).mpr hfull) hhandle

/-! ### The daemon's calls as pool operations -/

/-- What a call of the daemon does to the pool is a run of pool operations. -/
theorem poolStep_eq_ops (g : TaskPool) {e : PoolEvent} (h : e ≠ .init) :
    ∃ ops : List PoolOp, poolStep g e = ops.foldl poolOp g := by
  cases e with
  | init => exact absurd rfl h
  | svcRestart env req s =>
    show ∃ ops : List PoolOp, (handlerSvcRestart env g req s).1 = ops.foldl poolOp g
    have hc := handlerSvcRestart_cases env g req s
    generalize handlerSvcRestart env g req s = out at hc
    cases hc with
    | rejected => exact ⟨[], rfl⟩
    | reused => exact ⟨[.sweep env.sweepTime], rfl⟩
    | full => exact ⟨[.sweep env.sweepTime], rfl⟩
    | forkError => exact ⟨[.sweep env.sweepTime], rfl⟩
    | started pid i _ _ _ hfirst =>
      refine ⟨[.sweep env.sweepTime, .alloc s (nameBuf req) pid env.rand env.allocTime], ?_⟩
      exact (congrArg Prod.fst (taskPoolAlloc_of_some hfirst s (nameBuf req) pid env.rand
        env.allocTime)).symm
  | taskQuery env req s => exact ⟨[.taskQuery env req s], rfl⟩
  | childExit pid status => exact ⟨[.childExit pid status], rfl⟩
  | sweep now => exact ⟨[.sweep now], rfl⟩
  | releaseSession s => exact ⟨[.releaseSession s], rfl⟩

end Asys
