import Asys.Daemon.PoolEvents
import Asys.Lib.Runs

/-! # Restarts of several client threads at once

    Client threads run `handler_svc_restart` on one pool without a lock, each call of the handler and
    `fork` one step. Their children exit, and `sigchld_handler` runs in the main thread, at any
    point in between. The kernel's side is a table of children that are not reaped yet; what no word
    of the daemon records (which child a slot is for, who was reaped and when) is kept next to it. -/

namespace Asys
open Words

/-- A child of the daemon that `waitpid` has not returned. Children are numbered by their forks. -/
structure Child where
  pid : ℤ
  number : ℕ
  exited : Option WaitStatus
  deriving DecidableEq

/-- A client thread in the handler, and the number of the child it forked, if it did. -/
structure RestartThread where
  session : UInt16
  pc : RestartPc
  child : ℕ
  deriving DecidableEq

/-- A task that `task_pool_alloc` recorded; `connected` is false once its session was released. -/
structure TaskRecord where
  number : ℕ
  slot : Fin taskPoolSize
  session : UInt16
  createdAt : ℤ
  connected : Bool
  deriving DecidableEq

/-- A child that `sigchld_handler` reaped. -/
structure Reaped where
  number : ℕ
  status : WaitStatus
  time : ℤ
  deriving DecidableEq

structure Restarts where
  pool : TaskPool
  clock : ℤ
  threads : ℕ → Option RestartThread
  children : List Child
  forks : ℕ
  /-- the child for which the slot was last taken -/
  tag : Fin taskPoolSize → ℕ
  recorded : List TaskRecord
  reaped : List Reaped
  /-- the children reaped by the step just taken -/
  justReaped : List Reaped

inductive RestartsMove where
  /-- a request that passes the handler's checks enters it -/
  | begin (t : ℕ) (session : UInt16) (req : ApduFrame)
  /-- the thread makes its next call; `rand` and `fork` are what the call returns -/
  | call (t : ℕ) (rand : UInt32) (fork : ForkResult)
  | exit (pid : ℤ) (status : WaitStatus)
  | sigchld
  | tick (seconds : ℕ)
  | taskQuery (req : ApduFrame) (session : UInt16)
  | releaseSession (session : UInt16)

/-- The daemon at its start. -/
def restarts₀ : Restarts :=
  ⟨taskPoolInit, 0, fun _ => none, [], 0, fun _ => 0, [], [], []⟩

/-- The children that have exited, in the order in which `waitpid` returns them. -/
def zombies (children : List Child) : List (ℕ × ℤ × WaitStatus) :=
  children.filterMap fun c => c.exited.map fun w => (c.number, c.pid, w)

/-- The records of a session are marked when it is released. -/
def disconnect (gone : Option UInt16) (r : TaskRecord) : TaskRecord :=
  if gone = some r.session then { r with connected := false } else r

/-- The thread has no call in progress. -/
def Idle : Option RestartThread → Prop
  | none => True
  | some th => ∃ resp child, th.pc = .answered resp child

instance : DecidablePred Idle := fun th =>
  match th with
  | none => .isTrue trivial
  | some ⟨_, .answered resp child, _⟩ => .isTrue ⟨resp, child, rfl⟩
  | some ⟨_, .sweep _, _⟩ => .isFalse (by rintro ⟨_, _, ⟨⟩⟩)
  | some ⟨_, .findPending _, _⟩ => .isFalse (by rintro ⟨_, _, ⟨⟩⟩)
  | some ⟨_, .available _, _⟩ => .isFalse (by rintro ⟨_, _, ⟨⟩⟩)
  | some ⟨_, .fork _, _⟩ => .isFalse (by rintro ⟨_, _, ⟨⟩⟩)
  | some ⟨_, .alloc _ _, _⟩ => .isFalse (by rintro ⟨_, _, ⟨⟩⟩)

/-- The next call of thread `t`. The kernel never hands out the pid of a child that is not reaped. -/
def restartsCall (st : Restarts) (t : ℕ) (th : RestartThread) (rand : UInt32) (fork : ForkResult) :
    Option Restarts :=
  let r := restartStep ⟨st.clock, st.clock, rand, fork, none⟩ th.session st.pool th.pc
  let st' := { st with
    pool := r.1
    threads := Function.update st.threads t (some { th with pc := r.2 })
    justReaped := [] }
  match th.pc with
  | .answered _ _ => none
  | .fork _ =>
    match fork with
    | .error _ => some st'
    | .child pid =>
      if 0 < pid ∧ ∀ c ∈ st.children, c.pid ≠ pid then
        some { st' with
          threads := Function.update st.threads t (some ⟨th.session, r.2, st.forks⟩)
          children := ⟨pid, st.forks, none⟩ :: st.children
          forks := st.forks + 1 }
      else none
  | .alloc _ _ =>
    match firstEmpty st.pool with
    | none => some st'
    | some i => some { st' with
        tag := Function.update st.tag i th.child
        recorded := ⟨th.child, i, th.session, st.clock, true⟩ :: st.recorded }
  | _ => some st'

def restartsStep (st : Restarts) : RestartsMove → Option Restarts
  | .begin t s req =>
    if Idle (st.threads t) ∧ RestartForm req then
      some { st with
        threads := Function.update st.threads t (some ⟨s, .sweep (nameBuf req), 0⟩)
        justReaped := [] }
    else none
  | .call t rand fork => (st.threads t).bind fun th => restartsCall st t th rand fork
  | .exit pid w =>
    if ∃ c ∈ st.children, c.pid = pid ∧ c.exited = none then
      some { st with
        children := st.children.map fun c => if c.pid = pid then { c with exited := some w } else c
        justReaped := [] }
    else none
  | .sigchld =>
    let zs := zombies st.children
    let reaped := zs.map fun z => ⟨z.1, z.2.2, st.clock⟩
    some { st with
      pool := sigchldHandler st.pool (zs.map Prod.snd)
      children := st.children.filter fun c => c.exited.isNone
      reaped := reaped ++ st.reaped
      justReaped := reaped }
  | .tick d => some { st with clock := st.clock + d, justReaped := [] }
  | .taskQuery req s =>
    some { st with
      pool := (handlerTaskQuery ⟨st.clock, st.clock, 0, .child 0, none⟩ st.pool req s).1
      justReaped := [] }
  | .releaseSession s =>
    some { st with
      pool := taskPoolReleaseSession st.pool s
      recorded := st.recorded.map (disconnect (some s))
      justReaped := [] }

/-! ### What a step can do -/

/-- What sweeps, queries and releases do to an entry: nothing, a timeout past the time, or a release
    of a finished or overdue task or of one of the session `gone`. -/
inductive QuietEntry (clock : ℤ) (gone : Option UInt16) (e : TaskEntry) : TaskEntry → Prop where
  | same : QuietEntry clock gone e e
  | timeout : e.status = .pending → taskTimeoutSec < clock - e.createdAt →
      QuietEntry clock gone e { e with status := .timeout }
  | freed : e.status ≠ .pending ∨ taskTimeoutSec < clock - e.createdAt ∨ gone = some e.sessionId →
      QuietEntry clock gone e zeroEntry

/-- The thread is neither between its fork and its alloc nor answered after a fork. -/
def NoChild (th : RestartThread) : Prop :=
  (∀ n pid, th.pc ≠ .alloc n pid) ∧ ∀ resp pid, th.pc ≠ .answered resp (some pid)

inductive RestartsCase (st : Restarts) : RestartsMove → Restarts → Prop where
  /-- no child is forked, recorded or reaped -/
  | quiet (m : RestartsMove) (g : TaskPool) (threads : ℕ → Option RestartThread)
      (gone : Option UInt16) : (∀ i, QuietEntry st.clock gone (st.pool i) (g i)) →
      (∀ t, threads t = st.threads t ∨ ∃ th, threads t = some th ∧ NoChild th) →
      (∀ t rand fork th n pid, m = .call t rand fork → st.threads t = some th →
        th.pc ≠ .alloc n pid) →
      RestartsCase st m { st with
        pool := g
        threads := threads
        recorded := st.recorded.map (disconnect gone)
        justReaped := [] }
  | forked (t : ℕ) (rand : UInt32) (th : RestartThread) (n : List UInt8) (pid : ℤ) :
      st.threads t = some th → th.pc = .fork n → (∀ c ∈ st.children, c.pid ≠ pid) →
      RestartsCase st (.call t rand (.child pid)) { st with
        threads := Function.update st.threads t (some ⟨th.session, .alloc n pid, st.forks⟩)
        children := ⟨pid, st.forks, none⟩ :: st.children
        forks := st.forks + 1
        justReaped := [] }
  | recorded (t : ℕ) (rand : UInt32) (fork : ForkResult) (th : RestartThread) (n : List UInt8)
      (pid : ℤ) (i : Fin taskPoolSize) : st.threads t = some th → th.pc = .alloc n pid →
      firstEmpty st.pool = some i →
      RestartsCase st (.call t rand fork) { st with
        pool := Function.update st.pool i (newEntry th.session n pid rand st.clock)
        threads := Function.update st.threads t (some { th with
          pc := .answered (handleResp (join16 th.session (handleRand rand))) (some pid) })
        tag := Function.update st.tag i th.child
        recorded := ⟨th.child, i, th.session, st.clock, true⟩ :: st.recorded
        justReaped := [] }
  /-- the child of thread `t` is left without a slot -/
  | untracked (t : ℕ) (rand : UInt32) (fork : ForkResult) (th : RestartThread) (n : List UInt8)
      (pid : ℤ) : st.threads t = some th → th.pc = .alloc n pid → firstEmpty st.pool = none →
      RestartsCase st (.call t rand fork) { st with
        threads := Function.update st.threads t (some { th with
          pc := .answered (swWrite swBlocked) (some pid) })
        justReaped := [] }
  | exited (pid : ℤ) (w : WaitStatus) : RestartsCase st (.exit pid w) { st with
        children := st.children.map fun c => if c.pid = pid then { c with exited := some w } else c
        justReaped := [] }
  | reaped : RestartsCase st .sigchld { st with
        pool := sigchldHandler st.pool ((zombies st.children).map Prod.snd)
        children := st.children.filter fun c => c.exited.isNone
        reaped := ((zombies st.children).map fun z => ⟨z.1, z.2.2, st.clock⟩) ++ st.reaped
        justReaped := (zombies st.children).map fun z => ⟨z.1, z.2.2, st.clock⟩ }
  | ticked (d : ℕ) : RestartsCase st (.tick d) { st with clock := st.clock + d, justReaped := [] }

/-- A thread at its alloc takes the first free slot, or finds none. -/
theorem RestartsCase.at_alloc {st st' : Restarts} {t : ℕ} {rand : UInt32} {fork : ForkResult}
    {th : RestartThread} {n : List UInt8} {pid : ℤ} (hc : RestartsCase st (.call t rand fork) st')
    (hth : st.threads t = some th) (hpc : th.pc = .alloc n pid) :
    (∃ i, firstEmpty st.pool = some i ∧ st' = { st with
      pool := Function.update st.pool i (newEntry th.session n pid rand st.clock)
      threads := Function.update st.threads t (some { th with
        pc := .answered (handleResp (join16 th.session (handleRand rand))) (some pid) })
      tag := Function.update st.tag i th.child
      recorded := ⟨th.child, i, th.session, st.clock, true⟩ :: st.recorded
      justReaped := [] }) ∨
    (firstEmpty st.pool = none ∧ st' = { st with
      threads := Function.update st.threads t (some { th with
        pc := .answered (swWrite swBlocked) (some pid) })
      justReaped := [] }) := by
  cases hc with
  | quiet _ g threads gone _ _ hno => exact absurd hpc (hno t rand fork th n pid rfl hth)
  | forked _ _ th' n' pid' hth' hpc' _ =>
    obtain rfl := Option.some.inj (hth.symm.trans hth')
    rw [hpc] at hpc'
    cases hpc'
  | recorded _ _ _ th' n' pid' i hth' hpc' hi =>
    obtain rfl := Option.some.inj (hth.symm.trans hth')
    obtain ⟨rfl, rfl⟩ := RestartPc.alloc.inj (hpc.symm.trans hpc')
    exact Or.inl ⟨i, hi, rfl⟩
  | untracked _ _ _ th' n' pid' hth' hpc' hnone =>
    obtain rfl := Option.some.inj (hth.symm.trans hth')
    obtain ⟨rfl, rfl⟩ := RestartPc.alloc.inj (hpc.symm.trans hpc')
    exact Or.inr ⟨hnone, rfl⟩

theorem map_disconnect_none (l : List TaskRecord) : l.map (disconnect none) = l := by
  have hid : disconnect none = id := funext fun r => if_neg nofun
  rw [hid, List.map_id]

theorem disconnect_number (gone : Option UInt16) (r : TaskRecord) :
    (disconnect gone r).number = r.number := by
  unfold disconnect; split <;> rfl

/-- One thread moves on without a child, and the pool changes quietly. -/
theorem quiet_call {st : Restarts} {t : ℕ} {rand : UInt32} {fork : ForkResult} {th th' : RestartThread}
    {g : TaskPool} (hth : st.threads t = some th) (hpc : ∀ n pid, th.pc ≠ .alloc n pid)
    (hg : ∀ i, QuietEntry st.clock none (st.pool i) (g i)) (hth' : NoChild th') :
    RestartsCase st (.call t rand fork) { st with
      pool := g
      threads := Function.update st.threads t (some th')
      justReaped := [] } := by
  have h : RestartsCase st (.call t rand fork) _ := .quiet (.call t rand fork) g
    (Function.update st.threads t (some th')) none hg ?_ ?_
  · rwa [map_disconnect_none] at h
  · intro t'
    rcases eq_or_ne t' t with rfl | ht
    · exact Or.inr ⟨th', by simp, hth'⟩
    · exact Or.inl (Function.update_of_ne ht _ _)
  · rintro t' rand' fork' th'' n pid ⟨⟩ hth''
    obtain rfl := Option.some.inj (hth.symm.trans hth'')
    exact hpc n pid

theorem sweep_quiet (clock : ℤ) (gone : Option UInt16) (e : TaskEntry) :
    QuietEntry clock gone e (sweepEntry clock e) := by
  rcases sweepEntry_cases clock e with h | ⟨hold, hp, h⟩ | ⟨hold, -, -, h⟩ <;> rw [h]
  · exact .same
  · exact .timeout hp hold
  · exact .freed (Or.inr (Or.inl hold))

theorem taskQuery_quiet {clock : ℤ} {g : TaskPool} (hok : PoolOk g) (req : ApduFrame) (s : UInt16)
    (rand : UInt32) (fork : ForkResult) (i : Fin taskPoolSize) :
    QuietEntry clock none (g i)
      ((handlerTaskQuery ⟨clock, clock, rand, fork, none⟩ g req s).1 i) := by
  have hc := handlerTaskQuery_cases ⟨clock, clock, rand, fork, none⟩ g req s
  generalize handlerTaskQuery ⟨clock, clock, rand, fork, none⟩ g req s = out at hc ⊢
  cases hc with
  | short _ => exact .same
  | notFound _ _ => exact sweep_quiet _ _ _
  | pending _ _ _ _ => exact sweep_quiet _ _ _
  | terminal j _ hfind hp =>
    have hfree := (hok.sweep clock).free_found hfind
    dsimp only
    rw [hfree]
    rcases eq_or_ne i j with rfl | hij
    · rw [Function.update_self]
      by_cases hpi : (g i).status = .pending
      · -- a PENDING task that its own sweep ended is released at once
        by_cases hold : taskTimeoutSec < clock - (g i).createdAt
        · exact .freed (Or.inr (Or.inl hold))
        · rw [sweepEntry_young (not_lt.mp hold)] at hp
          exact absurd hpi hp
      · exact .freed (Or.inl hpi)
    · rw [Function.update_of_ne hij]
      exact sweep_quiet _ _ _

theorem restartsCall_cases {st st' : Restarts} {t : ℕ} {rand : UInt32} {fork : ForkResult}
    {th : RestartThread} (hth : st.threads t = some th)
    (h : restartsCall st t th rand fork = some st') : RestartsCase st (.call t rand fork) st' := by
  obtain ⟨s, pc, child⟩ := th
  cases pc with
  | sweep n =>
    obtain rfl := Option.some.inj h
    exact quiet_call hth nofun (fun i => sweep_quiet _ _ _) ⟨nofun, nofun⟩
  | findPending n =>
    obtain rfl := Option.some.inj h
    rw [restartStep_findPending]
    split
    · exact quiet_call hth nofun (fun i => .same) ⟨nofun, nofun⟩
    · exact quiet_call hth nofun (fun i => .same) ⟨nofun, nofun⟩
  | available n =>
    obtain rfl := Option.some.inj h
    rw [restartStep_available]
    split
    · exact quiet_call hth nofun (fun i => .same) ⟨nofun, nofun⟩
    · exact quiet_call hth nofun (fun i => .same) ⟨nofun, nofun⟩
  | fork n =>
    cases fork with
    | error errno =>
      obtain rfl := Option.some.inj h
      exact quiet_call hth nofun (fun i => .same) ⟨nofun, nofun⟩
    | child pid =>
      simp only [restartsCall] at h
      split at h
      · rename_i hfresh
        obtain rfl := Option.some.inj h
        exact .forked t rand ⟨s, .fork n, child⟩ n pid hth rfl hfresh.2
      · cases h
  | alloc n pid =>
    simp only [restartsCall] at h
    rcases restartStep_alloc_cases ⟨st.clock, st.clock, rand, fork, none⟩ s st.pool n pid with
      ⟨i, hi, ha⟩ | ⟨hnone, ha⟩
    · rw [hi, ha] at h
      obtain rfl := Option.some.inj h
      exact .recorded t rand fork ⟨s, .alloc n pid, child⟩ n pid i hth rfl hi
    · rw [hnone, ha] at h
      obtain rfl := Option.some.inj h
      exact .untracked t rand fork ⟨s, .alloc n pid, child⟩ n pid hth rfl hnone
  | answered resp c => cases h

/-- Every move, by what it does. -/
theorem restartsStep_cases {st st' : Restarts} {m : RestartsMove} (hok : PoolOk st.pool)
    (h : restartsStep st m = some st') : RestartsCase st m st' := by
  cases m with
  | begin t s req =>
    simp only [restartsStep] at h
    split at h
    · obtain rfl := Option.some.inj h
      have hq : RestartsCase st (.begin t s req) _ := .quiet (.begin t s req) st.pool
        (Function.update st.threads t (some ⟨s, .sweep (nameBuf req), 0⟩)) none (fun i => .same)
        ?_ (by rintro _ _ _ _ _ _ ⟨⟩)
      · rwa [map_disconnect_none] at hq
      · intro t'
        rcases eq_or_ne t' t with rfl | ht
        · exact Or.inr ⟨⟨s, .sweep (nameBuf req), 0⟩, by simp, nofun, nofun⟩
        · exact Or.inl (Function.update_of_ne ht _ _)
    · cases h
  | call t rand fork =>
    obtain ⟨th, hth, hcall⟩ := Option.bind_eq_some_iff.mp h
    exact restartsCall_cases hth hcall
  | exit pid w =>
    simp only [restartsStep] at h
    split at h
    · obtain rfl := Option.some.inj h
      exact .exited pid w
    · cases h
  | sigchld =>
    obtain rfl := Option.some.inj h
    exact .reaped
  | tick d =>
    obtain rfl := Option.some.inj h
    exact .ticked d
  | taskQuery req s =>
    obtain rfl := Option.some.inj h
    have hq : RestartsCase st (.taskQuery req s) _ := .quiet (.taskQuery req s)
      (handlerTaskQuery ⟨st.clock, st.clock, 0, .child 0, none⟩ st.pool req s).1 st.threads none
      (taskQuery_quiet hok req s 0 (.child 0)) (fun t => Or.inl rfl) (by rintro _ _ _ _ _ _ ⟨⟩)
    rwa [map_disconnect_none] at hq
  | releaseSession s =>
    obtain rfl := Option.some.inj h
    refine .quiet _ _ st.threads (some s) (fun i => ?_) (fun t => Or.inl rfl)
      (by rintro _ _ _ _ _ _ ⟨⟩)
    rw [taskPoolReleaseSession_apply]
    split
    · rename_i hs
      exact .freed (Or.inr (Or.inr (congrArg some hs.1.symm)))
    · exact .same

/-- A thread after one thread has moved: the one that moved, or another one as it was. -/
theorem thread_of_update {f : ℕ → Option RestartThread} {t t' : ℕ} {th th' : RestartThread}
    (h : Function.update f t (some th) t' = some th') :
    (t' = t ∧ th' = th) ∨ (t' ≠ t ∧ f t' = some th') := by
  rcases eq_or_ne t' t with rfl | hne
  · rw [Function.update_self] at h
    exact Or.inl ⟨rfl, (Option.some.inj h).symm⟩
  · rw [Function.update_of_ne hne] at h
    exact Or.inr ⟨hne, h⟩

/-! ### The pool stays well formed -/

theorem sigchldHandler_ok {g : TaskPool} (hok : PoolOk g) (zs : List (ℤ × WaitStatus)) :
    PoolOk (sigchldHandler g zs) := by
  simp only [sigchldHandler]
  induction zs generalizing g with
  | nil => exact hok
  | cons z zs ih =>
    exact ih (hok.step (taskPoolUpdateByPid_step g z.1 (childStatus_ne_empty z.2)))

theorem QuietEntry.ok {clock : ℤ} {gone : Option UInt16} {e e' : TaskEntry} (h : EntryOk e)
    (hq : QuietEntry clock gone e e') : EntryOk e' := by
  cases hq with
  | same => exact h
  | timeout hp _ => exact h.step (.settle _ hp (by decide))
  | freed _ => exact entryOk_zero

theorem RestartsCase.pool_ok {st st' : Restarts} {m : RestartsMove} (hc : RestartsCase st m st')
    (hok : PoolOk st.pool) : PoolOk st'.pool := by
  cases hc with
  | quiet _ g threads gone hg _ _ => exact fun i => (hg i).ok (hok i)
  | recorded t rand fork th n pid i _ _ hi =>
    exact hok.step (update_step (.fill _ _ _ _ _ (firstEmpty_some hi)))
  | reaped => exact sigchldHandler_ok hok _
  | _ => exact hok

end Asys
