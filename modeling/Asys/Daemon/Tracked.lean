import Asys.Daemon.Restarts

/-! # Every child has a task slot

    `handler_svc_restart` looks for a free slot, forks, and takes a slot, in three steps. Another
    thread can take the last slot in between; the child is then running and the answer is 0x6400. -/

namespace Asys
open Words

/-- An answer behind a fork is 0x9000, and a task was recorded for the child. -/
def ChildrenTracked (st : Restarts) : Prop :=
  ∀ t th resp pid, st.threads t = some th → th.pc = .answered resp (some pid) →
    respSw resp = swWrite swOk ∧ ∃ r ∈ st.recorded, r.number = th.child

/-- A thread about to record its child finds the pool with a free slot. -/
def AllocHasSlot (st : Restarts) (m : RestartsMove) : Prop :=
  ∀ t rand fork th n pid, m = .call t rand fork → st.threads t = some th → th.pc = .alloc n pid →
    taskPoolAvailable st.pool = true

theorem respSw_handleResp (handle : UInt32) : respSw (handleResp handle) = swWrite swOk := rfl

/-- A step that finds its slot keeps every child tracked. -/
theorem childrenTracked_step {st st' : Restarts} {m : RestartsMove} (h : ChildrenTracked st)
    (hC : AllocHasSlot st m) (hc : RestartsCase st m st') : ChildrenTracked st' := by
  cases hc with
  | quiet _ g threads gone _ hth _ =>
    intro t th resp pid ht hpc
    rcases hth t with hsame | ⟨th', hth', -, hno⟩
    · obtain ⟨hsw, r, hr, hn⟩ := h t th resp pid (hsame ▸ ht) hpc
      refine ⟨hsw, disconnect gone r, List.mem_map_of_mem hr, ?_⟩
      rw [disconnect_number, hn]
    · obtain rfl := Option.some.inj (hth'.symm.trans ht)
      exact absurd hpc (hno resp pid)
  | forked t rand th n pid _ _ _ =>
    intro t' th' resp pid' ht hpc
    rcases thread_of_update ht with ⟨-, rfl⟩ | ⟨-, ht⟩
    · cases hpc
    · exact h t' th' resp pid' ht hpc
  | recorded t rand fork th n pid i _ _ _ =>
    intro t' th' resp pid' ht hpc
    rcases thread_of_update ht with ⟨-, rfl⟩ | ⟨-, ht⟩
    · obtain ⟨rfl, -⟩ := RestartPc.answered.inj hpc
      exact ⟨respSw_handleResp _, _, List.mem_cons_self, rfl⟩
    · obtain ⟨hsw, r, hr, hn⟩ := h t' th' resp pid' ht hpc
      exact ⟨hsw, r, List.mem_cons_of_mem _ hr, hn⟩
  | untracked t rand fork th n pid hth hpc hnone =>
    have hsome := hC t rand fork th n pid rfl hth hpc
    rw [taskPoolAvailable, hnone] at hsome
    cases hsome
  | _ => exact h

/-- A step that does not find its slot answers 0x6400 with the child running. -/
theorem not_childrenTracked {st st' : Restarts} {m : RestartsMove} (hC : ¬ AllocHasSlot st m)
    (hc : RestartsCase st m st') : ¬ ChildrenTracked st' := by
  simp only [AllocHasSlot, not_forall] at hC
  obtain ⟨t, rand, fork, th, n, pid, rfl, hth, hpc, hfull⟩ := hC
  intro h
  rcases hc.at_alloc hth hpc with ⟨i, hi, -⟩ | ⟨-, rfl⟩
  · exact hfull (by rw [taskPoolAvailable, hi]; rfl)
  · obtain ⟨hsw, -⟩ := h t _ (swWrite swBlocked) pid (Function.update_self _ _ _) rfl
    exact absurd hsw (by decide)

/-- CORRECT (exact): along a run no answer other than 0x9000 leaves a child behind, and every child
    has its slot, exactly when each thread that comes to record its child finds a free slot. -/
theorem children_tracked_iff (ms : List RestartsMove) (st : Restarts)
    (hrun : Runs.run restartsStep restarts₀ ms = some st) :
    Runs.StatesMeet restartsStep ChildrenTracked restarts₀ ms ↔
      Runs.StepsMeet restartsStep AllocHasSlot restarts₀ ms := by
  refine Runs.states_iff_steps (I := fun st => PoolOk st.pool ∧ ChildrenTracked st)
    ⟨poolOk_init, by rintro t th resp pid ⟨⟩⟩ ?_ (fun _ h => h.2) ?_ hrun
  · rintro st m st' ⟨hok, h⟩ hC hstep
    have hc := restartsStep_cases hok hstep
    exact ⟨hc.pool_ok hok, childrenTracked_step h hC hc⟩
  · rintro st m st' ⟨hok, -⟩ hC hstep
    exact not_childrenTracked hC (restartsStep_cases hok hstep)

/-! ### Two threads and one slot -/

/-- The name of the `k`-th service: two letters. -/
def nthName (k : ℕ) : List UInt8 := [(0x61 + k % 26).toUInt8, (0x61 + k / 26).toUInt8]

def nthRequest (k : ℕ) : ApduFrame := restartRequest (nthName k) (by simp [nthName])

/-- Thread `t` restarts service `k` up to its fork, which returns `pid`. -/
def toAlloc (t : ℕ) (s : UInt16) (k : ℕ) (pid : ℤ) : List RestartsMove :=
  [.begin t s (nthRequest k), .call t 0 (.child 0), .call t 0 (.child 0), .call t 0 (.child 0),
    .call t 0 (.child pid)]

/-- Session 1 restarts 63 services. Then threads 0 and 1 both pass the check for a free slot and
    fork, and thread 0 takes the slot. -/
def lastSlotRace : List RestartsMove :=
  ((List.range 63).flatMap fun k => toAlloc 0 1 k (100 + k) ++ [.call 0 0 (.child 0)]) ++
    (toAlloc 0 1 63 163 ++ (toAlloc 1 2 63 164 ++ [.call 0 0 (.child 0), .call 1 0 (.child 0)]))

/-- The first `k` slots hold the tasks of services 0 to `k - 1`, the others are free. -/
structure Packed (k : ℕ) (st : Restarts) : Prop where
  clock : st.clock = 0
  used : ∀ i : Fin taskPoolSize, i.val < k →
    st.pool i = newEntry 1 (nameBuf (nthRequest i.val)) (100 + i.val) 0 0
  free : ∀ i : Fin taskPoolSize, k ≤ i.val → st.pool i = zeroEntry
  pids : ∀ c ∈ st.children, c.pid < 100 + k
  forks : st.forks = k
  records : st.recorded.length = k
  idle : ∀ t, Idle (st.threads t)

theorem nthRequest_form : ∀ k : Fin 64, RestartForm (nthRequest k.val) := by decide +kernel

theorem nthRequest_ne : ∀ i j : Fin 64, i ≠ j →
    (newEntry 1 (nameBuf (nthRequest i.val)) 0 0 0).svcName ≠ cString (nameBuf (nthRequest j.val)) := by
  decide +kernel

/-- Nothing is past its time, so a sweep changes nothing. -/
theorem Packed.sweep {k : ℕ} {st : Restarts} (h : Packed k st) :
    taskPoolSweepTimeouts st.pool 0 = st.pool := by
  funext i
  rw [taskPoolSweepTimeouts_apply]
  rcases lt_or_ge i.val k with hi | hi
  · exact sweepEntry_young (by rw [h.used i hi]; simp [taskTimeoutSec])
  · rw [h.free i hi]; exact sweepEntry_empty rfl

theorem Packed.firstEmpty {k : ℕ} {st : Restarts} (h : Packed k st) (hk : k < taskPoolSize) :
    firstEmpty st.pool = some ⟨k, hk⟩ := by
  refine Fin.find?_eq_some_iff.mpr ⟨by simp [h.free ⟨k, hk⟩ (le_refl k)], fun j hj => ?_⟩
  rw [h.used j hj]
  simp

/-- The state after thread `t` has moved without touching anything shared. -/
def Restarts.move (st : Restarts) (t : ℕ) (th : RestartThread) : Restarts :=
  { st with threads := Function.update st.threads t (some th), justReaped := [] }

/-- The state after thread `t` has forked. -/
def Restarts.afterFork (st : Restarts) (t : ℕ) (s : UInt16) (n : List UInt8) (pid : ℤ) : Restarts :=
  { st with
    threads := Function.update st.threads t (some ⟨s, .alloc n pid, st.forks⟩)
    children := ⟨pid, st.forks, none⟩ :: st.children
    forks := st.forks + 1
    justReaped := [] }

/-- The state after thread `t` has recorded child `c` in slot `i`. -/
def Restarts.afterAlloc (st : Restarts) (t : ℕ) (s : UInt16) (n : List UInt8) (pid : ℤ) (c : ℕ)
    (i : Fin taskPoolSize) : Restarts :=
  { st with
    pool := Function.update st.pool i (newEntry s n pid 0 st.clock)
    threads := Function.update st.threads t
      (some ⟨s, .answered (handleResp (join16 s (handleRand 0))) (some pid), c⟩)
    tag := Function.update st.tag i c
    recorded := ⟨c, i, s, st.clock, true⟩ :: st.recorded
    justReaped := [] }

@[simp] theorem Restarts.afterFork_threads (st : Restarts) (t : ℕ) (s : UInt16) (n : List UInt8)
    (pid : ℤ) : (st.afterFork t s n pid).threads t = some ⟨s, .alloc n pid, st.forks⟩ :=
  Function.update_self _ _ _
theorem Restarts.afterFork_threads_ne (st : Restarts) {t t' : ℕ} (h : t' ≠ t) (s : UInt16)
    (n : List UInt8) (pid : ℤ) : (st.afterFork t s n pid).threads t' = st.threads t' :=
  Function.update_of_ne h _ _
@[simp] theorem Restarts.afterAlloc_threads (st : Restarts) (t : ℕ) (s : UInt16) (n : List UInt8)
    (pid : ℤ) (c : ℕ) (i : Fin taskPoolSize) : (st.afterAlloc t s n pid c i).threads t =
      some ⟨s, .answered (handleResp (join16 s (handleRand 0))) (some pid), c⟩ :=
  Function.update_self _ _ _
theorem Restarts.afterAlloc_threads_ne (st : Restarts) {t t' : ℕ} (h : t' ≠ t) (s : UInt16)
    (n : List UInt8) (pid : ℤ) (c : ℕ) (i : Fin taskPoolSize) :
    (st.afterAlloc t s n pid c i).threads t' = st.threads t' :=
  Function.update_of_ne h _ _
@[simp] theorem Restarts.afterAlloc_pool (st : Restarts) (t : ℕ) (s : UInt16) (n : List UInt8)
    (pid : ℤ) (c : ℕ) (i : Fin taskPoolSize) :
    (st.afterAlloc t s n pid c i).pool i = newEntry s n pid 0 st.clock := by
  simp [Restarts.afterAlloc]
theorem Restarts.afterAlloc_pool_ne (st : Restarts) (t : ℕ) (s : UInt16) (n : List UInt8) (pid : ℤ)
    (c : ℕ) {i j : Fin taskPoolSize} (h : j ≠ i) : (st.afterAlloc t s n pid c i).pool j = st.pool j :=
  Function.update_of_ne h _ _
@[simp] theorem Restarts.afterAlloc_tag (st : Restarts) (t : ℕ) (s : UInt16) (n : List UInt8)
    (pid : ℤ) (c : ℕ) (i : Fin taskPoolSize) : (st.afterAlloc t s n pid c i).tag i = c := by
  simp [Restarts.afterAlloc]
@[simp] theorem Restarts.move_pool (st : Restarts) (t : ℕ) (th : RestartThread) :
    (st.move t th).pool = st.pool := rfl
@[simp] theorem Restarts.move_clock (st : Restarts) (t : ℕ) (th : RestartThread) :
    (st.move t th).clock = st.clock := rfl
@[simp] theorem Restarts.move_children (st : Restarts) (t : ℕ) (th : RestartThread) :
    (st.move t th).children = st.children := rfl
@[simp] theorem Restarts.move_forks (st : Restarts) (t : ℕ) (th : RestartThread) :
    (st.move t th).forks = st.forks := rfl
@[simp] theorem Restarts.move_threads (st : Restarts) (t : ℕ) (th : RestartThread) :
    (st.move t th).threads t = some th := Function.update_self _ _ _
@[simp] theorem Restarts.move_move (st : Restarts) (t : ℕ) (th th' : RestartThread) :
    (st.move t th).move t th' = st.move t th' := by
  simp [Restarts.move]

section
variable {st : Restarts} {t c : ℕ} {s : UInt16} {n : List UInt8}

theorem begin_eq {req : ApduFrame} (hidle : Idle (st.threads t)) (hform : RestartForm req) :
    restartsStep st (.begin t s req) = some (st.move t ⟨s, .sweep (nameBuf req), 0⟩) := by
  simp only [restartsStep, if_pos (And.intro hidle hform), Restarts.move]

theorem call_sweep (hth : st.threads t = some ⟨s, .sweep n, c⟩)
    (hsweep : taskPoolSweepTimeouts st.pool st.clock = st.pool) :
    restartsStep st (.call t 0 (.child 0)) = some (st.move t ⟨s, .findPending n, c⟩) := by
  simp only [restartsStep, hth, Option.bind_some, restartsCall, restartStep_sweep, hsweep,
    Restarts.move]

theorem call_findPending (hth : st.threads t = some ⟨s, .findPending n, c⟩)
    (hfind : taskPoolFindPending st.pool s n = 0) :
    restartsStep st (.call t 0 (.child 0)) = some (st.move t ⟨s, .available n, c⟩) := by
  simp only [restartsStep, hth, Option.bind_some, restartsCall, restartStep_findPending, hfind, ne_eq,
    not_true_eq_false, if_false, Restarts.move]

theorem call_available (hth : st.threads t = some ⟨s, .available n, c⟩)
    (havail : taskPoolAvailable st.pool = true) :
    restartsStep st (.call t 0 (.child 0)) = some (st.move t ⟨s, .fork n, c⟩) := by
  simp only [restartsStep, hth, Option.bind_some, restartsCall, restartStep_available, havail,
    Bool.true_eq_false, if_false, Restarts.move]

theorem call_fork {pid : ℤ} (hth : st.threads t = some ⟨s, .fork n, c⟩) (hpos : 0 < pid)
    (hfresh : ∀ c ∈ st.children, c.pid ≠ pid) :
    restartsStep st (.call t 0 (.child pid)) = some (st.afterFork t s n pid) := by
  simp only [restartsStep, hth, Option.bind_some, restartsCall, if_pos (And.intro hpos hfresh)]
  rw [restartStep_fork_child rfl]
  rfl

variable (st t s) in
/-- A restart of a new service by an idle thread runs undisturbed up to its alloc. -/
theorem run_toAlloc (k : ℕ) (pid : ℤ) (hidle : Idle (st.threads t))
    (hform : RestartForm (nthRequest k))
    (hsweep : taskPoolSweepTimeouts st.pool st.clock = st.pool)
    (hfind : taskPoolFindPending st.pool s (nameBuf (nthRequest k)) = 0)
    (havail : taskPoolAvailable st.pool = true) (hpos : 0 < pid)
    (hfresh : ∀ c ∈ st.children, c.pid ≠ pid) :
    Runs.run restartsStep st (toAlloc t s k pid) =
      some (st.afterFork t s (nameBuf (nthRequest k)) pid) := by
  simp only [toAlloc, Runs.run_cons, Runs.run_nil]
  rw [begin_eq hidle hform, Option.bind_some,
    call_sweep (Restarts.move_threads _ _ _) hsweep, Option.bind_some, Restarts.move_move,
    call_findPending (Restarts.move_threads _ _ _) hfind, Option.bind_some, Restarts.move_move,
    call_available (Restarts.move_threads _ _ _) havail, Option.bind_some, Restarts.move_move,
    call_fork (Restarts.move_threads _ _ _) hpos hfresh, Option.bind_some]
  simp [Restarts.afterFork, Restarts.move]

/-- The thread at its alloc takes the first free slot. -/
theorem call_alloc_some {pid : ℤ} {i : Fin taskPoolSize}
    (hth : st.threads t = some ⟨s, .alloc n pid, c⟩)
    (hi : firstEmpty st.pool = some i) :
    restartsStep st (.call t 0 (.child 0)) = some (st.afterAlloc t s n pid c i) := by
  rcases restartStep_alloc_cases ⟨st.clock, st.clock, 0, .child 0, none⟩ s st.pool n pid with
    ⟨j, hj, ha⟩ | ⟨hnone, -⟩
  · obtain rfl := Option.some.inj (hi.symm.trans hj)
    simp only [restartsStep, hth, Option.bind_some, restartsCall, hi, ha, Restarts.afterAlloc]
  · rw [hnone] at hi
    cases hi

/-- The thread at its alloc finds no slot. -/
theorem call_alloc_none {pid : ℤ}
    (hth : st.threads t = some ⟨s, .alloc n pid, c⟩) (hnone : firstEmpty st.pool = none) :
    restartsStep st (.call t 0 (.child 0)) =
      some (st.move t ⟨s, .answered (swWrite swBlocked) (some pid), c⟩) := by
  rcases restartStep_alloc_cases ⟨st.clock, st.clock, 0, .child 0, none⟩ s st.pool n pid with
    ⟨j, hj, -⟩ | ⟨-, ha⟩
  · rw [hnone] at hj
    cases hj
  · simp only [restartsStep, hth, Option.bind_some, restartsCall, hnone, ha, Restarts.move]

end

theorem Packed.findPending {k : ℕ} {st : Restarts} (h : Packed k st) (j : Fin 64) (s : UInt16)
    (hnew : k ≤ j.val ∨ s ≠ 1) : taskPoolFindPending st.pool s (nameBuf (nthRequest j.val)) = 0 := by
  unfold taskPoolFindPending
  rw [Fin.find?_eq_none_iff.mpr fun i => ?_]
  rcases lt_or_ge i.val k with hi | hi
  · rw [h.used i hi, decide_eq_false_iff_not]
    rintro ⟨-, hs, hname⟩
    rcases hnew with hk | hs'
    · exact nthRequest_ne i j (by rintro rfl; omega) hname
    · exact hs' hs.symm
  · rw [h.free i hi]
    simp

/-- One more service is restarted. -/
theorem Packed.next {k : ℕ} {st : Restarts} (h : Packed k st) (hk : k < 64) :
    ∃ st', Runs.run restartsStep st (toAlloc 0 1 k (100 + k) ++ [.call 0 0 (.child 0)]) = some st' ∧
      Packed (k + 1) st' := by
  have hfirst := h.firstEmpty hk
  rw [Runs.run_concat, run_toAlloc _ _ _ _ _ (h.idle 0) (nthRequest_form ⟨k, hk⟩)
    (by rw [h.clock]; exact h.sweep) (h.findPending ⟨k, hk⟩ 1 (Or.inl (le_refl k)))
    (by rw [taskPoolAvailable, hfirst]; rfl) (by omega)
    (fun c hc => (h.pids c hc).ne), Option.bind_some]
  refine ⟨_, call_alloc_some (Restarts.afterFork_threads _ _ _ _ _) hfirst, ?_⟩
  refine ⟨h.clock, fun i hi => ?_, fun i hi => ?_, fun c hc => ?_, ?_, ?_, fun t => ?_⟩
  · rcases eq_or_ne i ⟨k, hk⟩ with rfl | hne
    · simp [Restarts.afterAlloc, Restarts.afterFork, h.clock]
    · have hlt : i.val < k := by
        have : i.val ≠ k := fun hik => hne (Fin.ext hik)
        omega
      simp only [Restarts.afterAlloc, Function.update_of_ne hne]
      exact h.used i hlt
  · have hne : i ≠ ⟨k, hk⟩ := by
      rintro rfl
      exact absurd hi (Nat.not_succ_le_self k)
    simp only [Restarts.afterAlloc, Function.update_of_ne hne]
    exact h.free i (by omega)
  · push_cast
    rcases List.mem_cons.mp hc with rfl | hc
    · show (100 : ℤ) + k < 100 + (k + 1)
      omega
    · have := h.pids c hc
      omega
  · simp [Restarts.afterAlloc, Restarts.afterFork, h.forks]
  · simp [Restarts.afterAlloc, Restarts.afterFork, h.records]
  · simp only [Restarts.afterAlloc, Restarts.afterFork, Function.update_idem]
    rcases eq_or_ne t 0 with rfl | ht
    · rw [Function.update_self]; exact ⟨_, _, rfl⟩
    · rw [Function.update_of_ne ht]; exact h.idle t

theorem packed_zero : Packed 0 restarts₀ :=
  ⟨rfl, fun _ hi => absurd hi (Nat.not_lt_zero _), fun _ _ => rfl,
    fun _ hc => (List.not_mem_nil hc).elim, rfl, rfl, fun _ => trivial⟩

/-- The first `k` services are restarted one after the other. -/
theorem run_packed : ∀ k ≤ 64, ∃ st, Runs.run restartsStep restarts₀ ((List.range k).flatMap fun k =>
    toAlloc 0 1 k (100 + k) ++ [.call 0 0 (.child 0)]) = some st ∧ Packed k st
  | 0, _ => ⟨restarts₀, rfl, packed_zero⟩
  | k + 1, hk => by
    obtain ⟨st, hrun, hst⟩ := run_packed k (by omega)
    obtain ⟨st', hrun', hst'⟩ := hst.next (by omega)
    refine ⟨st', ?_, hst'⟩
    rw [List.range_succ, List.flatMap_append, Runs.run_append, hrun, Option.bind_some,
      List.flatMap_singleton]
    exact hrun'

/-- 63 services are running and one slot is free; both threads fork, and thread 1 answers 0x6400 with
    its child, pid 164, running and no task recorded for it. -/
theorem last_slot_race : ∃ st, Runs.run restartsStep restarts₀ lastSlotRace = some st ∧
    st.threads 1 = some ⟨2, .answered [0x64, 0x00] (some 164), 64⟩ ∧
    ⟨164, 64, none⟩ ∈ st.children ∧ ¬ ChildrenTracked st := by
  obtain ⟨st, hrun, hst⟩ := run_packed 63 (by decide)
  have hk : 63 < taskPoolSize := by decide
  have hfirst := hst.firstEmpty hk
  have havail : taskPoolAvailable st.pool = true := by rw [taskPoolAvailable, hfirst]; rfl
  have hsweep : taskPoolSweepTimeouts st.pool st.clock = st.pool := by
    rw [hst.clock]; exact hst.sweep
  -- both threads get past the check and fork
  have hfork₀ := run_toAlloc st 0 1 63 163 (hst.idle 0)
    (nthRequest_form ⟨63, by decide⟩) hsweep (hst.findPending ⟨63, by decide⟩ 1 (Or.inl le_rfl))
    havail (by decide) fun c hc => (hst.pids c hc).ne
  set st₁ := st.afterFork 0 1 (nameBuf (nthRequest 63)) 163 with hst₁
  have hidle₁ : Idle (st₁.threads 1) := by
    rw [hst₁, Restarts.afterFork_threads_ne _ (by decide)]
    exact hst.idle 1
  have hfork₁ := run_toAlloc st₁ 1 2 63 164 hidle₁
    (nthRequest_form ⟨63, by decide⟩) hsweep
    (hst.findPending ⟨63, by decide⟩ 2 (Or.inr (by decide))) havail (by decide) fun c hc => by
      rcases List.mem_cons.mp hc with rfl | hc
      · exact fun h : (163 : ℤ) = 164 => absurd h (by decide)
      · have := hst.pids c hc
        omega
  set st₂ := st₁.afterFork 1 2 (nameBuf (nthRequest 63)) 164 with hst₂
  -- thread 0 takes the last slot, and thread 1 finds none
  have hth₀ : st₂.threads 0 = some ⟨1, .alloc (nameBuf (nthRequest 63)) 163, st.forks⟩ := by
    rw [hst₂, Restarts.afterFork_threads_ne _ (by decide)]
    exact Restarts.afterFork_threads _ _ _ _ _
  have halloc := call_alloc_some hth₀ (i := ⟨63, hk⟩) hfirst
  set st₃ := st₂.afterAlloc 0 1 (nameBuf (nthRequest 63)) 163 st.forks ⟨63, hk⟩ with hst₃
  have hth₁ : st₃.threads 1 = some ⟨2, .alloc (nameBuf (nthRequest 63)) 164, st₁.forks⟩ := by
    rw [hst₃, Restarts.afterAlloc_threads_ne _ (by decide)]
    exact Restarts.afterFork_threads _ _ _ _ _
  have hfull : firstEmpty st₃.pool = none := by
    refine firstEmpty_none.mpr fun i => ?_
    rw [hst₃, Restarts.afterAlloc]
    rcases eq_or_ne i ⟨63, hk⟩ with rfl | hne
    · simp
    · have hlt : i.val < 63 := by
        have h63 : i.val ≠ 63 := fun h => hne (Fin.ext h)
        have := i.isLt
        simp only [taskPoolSize] at this
        omega
      simp only [Function.update_of_ne hne]
      rw [show st₂.pool = st.pool from rfl, hst.used i hlt]
      simp
  have hblocked := call_alloc_none hth₁ hfull
  have hforks : st₁.forks = 64 := by
    rw [hst₁]
    simp [Restarts.afterFork, hst.forks]
  rw [hforks] at hblocked
  refine ⟨st₃.move 1 ⟨2, .answered (swWrite swBlocked) (some 164), 64⟩, ?_,
    Restarts.move_threads _ _ _, ?_, fun htr => ?_⟩
  · rw [lastSlotRace, Runs.run_append, hrun, Option.bind_some, Runs.run_append, hfork₀,
      Option.bind_some, Runs.run_append, hfork₁, Option.bind_some, Runs.run_cons, halloc,
      Option.bind_some, Runs.run_cons, hblocked, Option.bind_some, Runs.run_nil]
  · rw [← hforks]
    exact List.mem_cons_self
  · obtain ⟨hsw, -⟩ := htr 1 _ _ _ (Restarts.move_threads _ _ _) rfl
    exact absurd hsw (by decide)

/-- Two sessions restart a service each. Both threads have forked before either records its child. -/
def twoRestarts : List RestartsMove :=
  toAlloc 0 1 0 100 ++ (toAlloc 1 2 1 101 ++ [.call 0 0 (.child 0), .call 1 0 (.child 0)])

/-- Both find a slot and answer 0x9000. -/
theorem children_tracked_two : ∃ st, Runs.run restartsStep restarts₀ twoRestarts = some st ∧
    st.threads 0 = some ⟨1, .answered (handleResp 0x00010001) (some 100), 0⟩ ∧
    st.threads 1 = some ⟨2, .answered (handleResp 0x00020001) (some 101), 1⟩ ∧
    (Runs.StatesMeet restartsStep ChildrenTracked restarts₀ twoRestarts ↔
      Runs.StepsMeet restartsStep AllocHasSlot restarts₀ twoRestarts) := by
  have havail : taskPoolAvailable restarts₀.pool = true := by decide +kernel
  have hfork₀ := run_toAlloc restarts₀ 0 1 0 100 trivial (nthRequest_form 0) packed_zero.sweep
    (packed_zero.findPending 0 1 (Or.inl le_rfl)) havail (by decide) fun _ h => absurd h List.not_mem_nil
  set st₁ := restarts₀.afterFork 0 1 (nameBuf (nthRequest 0)) 100 with hst₁
  have hidle : Idle (st₁.threads 1) := by
    rw [hst₁, Restarts.afterFork_threads_ne _ (by decide)]
    exact trivial
  have hfork₁ := run_toAlloc st₁ 1 2 1 101 hidle (nthRequest_form 1) packed_zero.sweep
    (packed_zero.findPending 1 2 (Or.inr (by decide))) havail (by decide) fun c hc => by
      rw [List.mem_singleton.mp hc]
      decide
  set st₂ := st₁.afterFork 1 2 (nameBuf (nthRequest 1)) 101 with hst₂
  -- thread 0 takes slot 0, and thread 1 the one behind it
  have hth₀ : st₂.threads 0 = some ⟨1, .alloc (nameBuf (nthRequest 0)) 100, 0⟩ := by
    rw [hst₂, Restarts.afterFork_threads_ne _ (by decide)]
    exact Restarts.afterFork_threads restarts₀ 0 1 _ 100
  have halloc₀ := call_alloc_some hth₀ (i := 0) (packed_zero.firstEmpty (by decide))
  set st₃ := st₂.afterAlloc 0 1 (nameBuf (nthRequest 0)) 100 0 0 with hst₃
  have hth₁ : st₃.threads 1 = some ⟨2, .alloc (nameBuf (nthRequest 1)) 101, 1⟩ := by
    rw [hst₃, Restarts.afterAlloc_threads_ne _ (by decide)]
    exact Restarts.afterFork_threads st₁ 1 2 _ 101
  have hfirst : firstEmpty st₃.pool = some 1 := by
    have hfree : st₃.pool 1 = zeroEntry := Restarts.afterAlloc_pool_ne _ _ _ _ _ _ (by decide)
    refine Fin.find?_eq_some_iff.mpr ⟨by rw [hfree]; rfl, fun j hj => ?_⟩
    obtain rfl : j = 0 := Fin.ext (Nat.lt_one_iff.mp hj)
    rw [hst₃, Restarts.afterAlloc_pool]
    rfl
  have halloc₁ := call_alloc_some hth₁ hfirst
  have hrun : Runs.run restartsStep restarts₀ twoRestarts =
      some (st₃.afterAlloc 1 2 (nameBuf (nthRequest 1)) 101 1 1) := by
    rw [twoRestarts, Runs.run_append, hfork₀, Option.bind_some, Runs.run_append, hfork₁,
      Option.bind_some, Runs.run_cons, halloc₀, Option.bind_some, Runs.run_cons, halloc₁,
      Option.bind_some, Runs.run_nil]
  refine ⟨_, hrun, ?_, ?_, children_tracked_iff _ _ hrun⟩
  · have hhandle : join16 1 (handleRand 0) = 0x00010001 := by decide
    rw [Restarts.afterAlloc_threads_ne _ (by decide), hst₃, Restarts.afterAlloc_threads, hhandle]
  · have hhandle : join16 2 (handleRand 0) = 0x00020001 := by decide
    rw [Restarts.afterAlloc_threads, hhandle]

end Asys
