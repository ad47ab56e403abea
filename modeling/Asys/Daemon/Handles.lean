import Asys.Daemon.PoolEvents
import Asys.Lib.Runs
import Mathlib.Data.List.Nodup

/-! # Handles and the tasks they were issued for

    The pool together with what its words do not record: which task a slot holds, and for which task
    each handle was given out to a session that is still connected. -/

namespace Asys
open Words

/-- The pool and its history. Tasks are numbered in the order in which they were recorded. -/
structure Ledger where
  pool : TaskPool
  /-- the task last recorded in each slot -/
  birth : Fin taskPoolSize → ℕ
  /-- the handles that sessions still connected were given, each with its task -/
  issued : List (UInt32 × ℕ)
  next : ℕ

/-- The ledger at the daemon's start. -/
def ledger₀ : Ledger := ⟨taskPoolInit, fun _ => 0, [], 0⟩

/-- A task is recorded in slot `i` and its handle returned. -/
def Ledger.record (l : Ledger) (pool : TaskPool) (i : Fin taskPoolSize) (handle : UInt32) : Ledger :=
  ⟨pool, Function.update l.birth i l.next, (handle, l.next) :: l.issued, l.next + 1⟩

/-- The handles that fail `keep` are given up. -/
def Ledger.retain (l : Ledger) (pool : TaskPool) (keep : UInt32 → Bool) : Ledger :=
  { l with pool := pool, issued := l.issued.filter fun p => keep p.1 }

def ledgerStep (l : Ledger) (e : PoolEvent) : Ledger :=
  match e with
  | .init => l.retain (poolStep l.pool e) fun _ => false
  | .svcRestart env req s =>
    match restartSlot env l.pool req s with
    | some i => l.record (poolStep l.pool e) i (join16 s (handleRand env.rand))
    | none => l.retain (poolStep l.pool e) fun _ => true
  | .releaseSession s => l.retain (poolStep l.pool e) fun h => high16 h ≠ s
  | _ => l.retain (poolStep l.pool e) fun _ => true

/-- The live entries have pairwise different handles. -/
def Distinct (g : TaskPool) : Prop :=
  ∀ i j, (g i).status ≠ .empty → (g j).status ≠ .empty → (g i).handleId = (g j).handleId → i = j

/-- A query for the handle of task `n` reports the status of that task and releases no other. -/
structure OwnAnswer (l : Ledger) (h : UInt32) (n : ℕ) (env : Env) (req : ApduFrame) : Prop where
  held : ∀ i, l.birth i = n → (sweepEntry env.sweepTime (l.pool i)).status ≠ .empty →
    handlerTaskQuery env l.pool req (high16 h) =
      (if (sweepEntry env.sweepTime (l.pool i)).status = .pending then
        taskPoolSweepTimeouts l.pool env.sweepTime
      else Function.update (taskPoolSweepTimeouts l.pool env.sweepTime) i zeroEntry,
      queryResp (toWire (sweepEntry env.sweepTime (l.pool i)).status))
  gone : (∀ i, l.birth i = n → (sweepEntry env.sweepTime (l.pool i)).status = .empty) →
    handlerTaskQuery env l.pool req (high16 h) =
      (taskPoolSweepTimeouts l.pool env.sweepTime, queryResp qstatusNotFound)

/-- Every issued handle is answered for the task it was issued for. -/
def OwnAnswers (l : Ledger) : Prop :=
  ∀ h n, (h, n) ∈ l.issued → ∀ env req, 4 ≤ req.dataLen → queryHandle req = h →
    OwnAnswer l h n env req

/-- The handle a restart is about to draw is that of no task its sweep leaves in the pool. -/
def FreshAmongLive (l : Ledger) : PoolEvent → Prop
  | .svcRestart env req s => restartSlot env l.pool req s ≠ none →
      ∀ j, (sweepEntry env.sweepTime (l.pool j)).status ≠ .empty →
        (l.pool j).handleId ≠ join16 s (handleRand env.rand)
  | _ => True

/-- The handle a restart is about to draw was not given before to a session still connected. -/
def FreshAmongIssued (l : Ledger) : PoolEvent → Prop
  | .svcRestart env req s => restartSlot env l.pool req s ≠ none →
      ∀ n, (join16 s (handleRand env.rand), n) ∉ l.issued
  | _ => True

/-! ### What an event does to the ledger -/

theorem Shrinks.distinct {g g' : TaskPool} (h : Shrinks g g') (hd : Distinct g) : Distinct g' := by
  intro i j hi hj hij
  obtain ⟨hi', hhi⟩ := h i hi
  obtain ⟨hj', hhj⟩ := h j hj
  exact hd i j hi' hj' (by rw [← hhi, ← hhj, hij])

/-- What an event does to the ledger: it records one task behind a sweep, or it lets entries go and
    keeps the handles of those that stay. -/
inductive LedgerCase (l : Ledger) (e : PoolEvent) : Ledger → Prop where
  | recorded (env : Env) (req : ApduFrame) (s : UInt16) (i : Fin taskPoolSize) (pid : ℤ) :
      e = .svcRestart env req s → restartSlot env l.pool req s = some i →
      (sweepEntry env.sweepTime (l.pool i)).status = .empty →
      LedgerCase l e (l.record (Function.update (taskPoolSweepTimeouts l.pool env.sweepTime) i
        (newEntry s (nameBuf req) pid env.rand env.allocTime)) i (join16 s (handleRand env.rand)))
  | retained (pool : TaskPool) (keep : UInt32 → Bool) : Shrinks l.pool pool →
      (∀ i, (pool i).status ≠ .empty → keep (pool i).handleId = true) →
      (∀ env req s, e = .svcRestart env req s → restartSlot env l.pool req s = none) →
      LedgerCase l e (l.retain pool keep)

theorem ledgerStep_cases {l : Ledger} (hok : PoolOk l.pool) (e : PoolEvent) :
    LedgerCase l e (ledgerStep l e) := by
  cases e with
  | init =>
    exact .retained taskPoolInit (fun _ => false) (fun i hi => absurd rfl hi)
      (fun i hi => absurd rfl hi) (by rintro _ _ _ ⟨⟩)
  | svcRestart env req s =>
    rcases restartSlot_cases env l.pool req s with ⟨i, pid, hslot, hfree, hpool⟩ | ⟨hnone, hpool⟩
    · have hl : ledgerStep l (.svcRestart env req s) = l.record
          (handlerSvcRestart env l.pool req s).1 i (join16 s (handleRand env.rand)) := by
        simp only [ledgerStep, hslot, poolStep]
      rw [hl, hpool]
      exact .recorded env req s i pid rfl hslot hfree
    · have hl : ledgerStep l (.svcRestart env req s) = l.retain
          (handlerSvcRestart env l.pool req s).1 fun _ => true := by
        simp only [ledgerStep, hnone, poolStep]
      rw [hl]
      refine .retained _ _ ?_ (fun _ _ => rfl) (by rintro _ _ _ ⟨⟩; exact hnone)
      rcases hpool with h | h <;> rw [h]
      · exact fun i hi => ⟨hi, rfl⟩
      · exact sweep_shrinks _ _
  | taskQuery env req s =>
    exact .retained (handlerTaskQuery env l.pool req s).1 (fun _ => true)
      (taskQuery_shrinks env l.pool req s) (fun _ _ => rfl) (by rintro _ _ _ ⟨⟩)
  | childExit pid status =>
    exact .retained (taskPoolUpdateByPid l.pool pid (childStatus status)) (fun _ => true)
      (updateByPid_shrinks l.pool pid _) (fun _ _ => rfl) (by rintro _ _ _ ⟨⟩)
  | sweep now =>
    exact .retained (taskPoolSweepTimeouts l.pool now) (fun _ => true) (sweep_shrinks l.pool now)
      (fun _ _ => rfl) (by rintro _ _ _ ⟨⟩)
  | releaseSession s =>
    refine .retained (taskPoolReleaseSession l.pool s) (fun h => high16 h ≠ s) ?_ ?_
      (by rintro _ _ _ ⟨⟩)
    · intro i hi
      have heq := (releaseSession_live hi).2
      rw [heq] at hi ⊢
      exact ⟨hi, rfl⟩
    · intro i hi
      obtain ⟨hs, heq⟩ := releaseSession_live hi
      rw [heq] at hi ⊢
      rw [(hok i).owner hi]
      exact decide_eq_true hs

theorem ledgerStep_pool (l : Ledger) (e : PoolEvent) : (ledgerStep l e).pool = poolStep l.pool e := by
  cases e with
  | svcRestart env req s => simp only [ledgerStep]; split <;> rfl
  | _ => rfl

/-! ### Pairwise different handles -/

/-- A new task keeps the handles apart exactly when its own is fresh. -/
theorem distinct_update_iff {g : TaskPool} (hd : Distinct g) {i : Fin taskPoolSize} {e : TaskEntry}
    (hfree : (g i).status = .empty) (he : e.status ≠ .empty) :
    Distinct (Function.update g i e) ↔
      ∀ j, (g j).status ≠ .empty → (g j).handleId ≠ e.handleId := by
  have hne : ∀ j, (g j).status ≠ .empty → j ≠ i := by
    rintro j hj rfl
    exact hj hfree
  constructor
  · intro h j hj hh
    have := h j i (by rw [Function.update_of_ne (hne j hj)]; exact hj) (by simpa using he)
      (by rw [Function.update_of_ne (hne j hj)]; simpa using hh)
    exact hne j hj this
  · intro h j k hj hk hjk
    rcases eq_or_ne j i with rfl | hji <;> rcases eq_or_ne k j with rfl | hkj
    · rfl
    · rw [Function.update_self, Function.update_of_ne hkj] at hjk
      rw [Function.update_of_ne hkj] at hk
      exact absurd hjk.symm (h k hk)
    · rfl
    · rw [Function.update_of_ne hji] at hj hjk
      rcases eq_or_ne k i with rfl | hki
      · rw [Function.update_self] at hjk
        exact absurd hjk (h j hj)
      · rw [Function.update_of_ne hki] at hk hjk
        exact hd j k hj hk hjk

theorem distinct_states_iff (es : List PoolEvent) :
    Runs.StatesMeet (Runs.always ledgerStep) (fun l => Distinct l.pool) ledger₀ es ↔
      Runs.StepsMeet (Runs.always ledgerStep) FreshAmongLive ledger₀ es := by
  have hnew : ∀ {l : Ledger} {env : Env} {req : ApduFrame} {s : UInt16} {i : Fin taskPoolSize}
      {pid : ℤ}, Distinct l.pool → restartSlot env l.pool req s = some i →
      (sweepEntry env.sweepTime (l.pool i)).status = .empty →
      (Distinct (Function.update (taskPoolSweepTimeouts l.pool env.sweepTime) i
        (newEntry s (nameBuf req) pid env.rand env.allocTime)) ↔
        FreshAmongLive l (.svcRestart env req s)) := by
    intro l env req s i pid hd hslot hfree
    rw [distinct_update_iff ((sweep_shrinks _ _).distinct hd) hfree (by simp)]
    simp only [FreshAmongLive, hslot, ne_eq, reduceCtorEq, not_false_eq_true, forall_const,
      newEntry_handleId, taskPoolSweepTimeouts_apply]
    refine forall_congr' fun j => forall_congr' fun hj => ?_
    rw [(sweepEntry_live hj).2]
  refine Runs.states_iff_steps (I := fun l : Ledger => PoolOk l.pool ∧ Distinct l.pool)
    ⟨poolOk_init, fun i j hi => absurd rfl hi⟩ ?_ (fun l h => h.2) ?_ (Runs.run_always _ _ _)
  · rintro l e _ ⟨hok, hd⟩ hC ⟨⟩
    refine ⟨by rw [ledgerStep_pool]; exact poolStep_ok hok e, ?_⟩
    have hcase := ledgerStep_cases hok e
    generalize ledgerStep l e = l' at hcase
    cases hcase with
    | recorded env req s i pid he hslot hfree =>
      subst he
      exact (hnew hd hslot hfree).mpr hC
    | retained pool keep hsh _ _ => exact hsh.distinct hd
  · rintro l e _ ⟨hok, hd⟩ hC ⟨⟩ hd'
    have hcase := ledgerStep_cases hok e
    generalize ledgerStep l e = l' at hcase hd'
    cases hcase with
    | recorded env req s i pid he hslot hfree =>
      subst he
      exact hC ((hnew hd hslot hfree).mp hd')
    | retained pool keep _ _ hnone =>
      cases e with
      | svcRestart env req s => exact hC fun h => absurd (hnone env req s rfl) h
      | _ => exact hC trivial

/-! ### Answers about the right task -/

/-- The ledger while no handle was given out twice. -/
structure LedgerOk (l : Ledger) : Prop where
  pool : PoolOk l.pool
  handles : (l.issued.map Prod.fst).Nodup
  tasks : (l.issued.map Prod.snd).Nodup
  past : ∀ p ∈ l.issued, p.2 < l.next
  live : ∀ i, (l.pool i).status ≠ .empty → ((l.pool i).handleId, l.birth i) ∈ l.issued
  slots : ∀ i j, (l.pool i).status ≠ .empty → (l.pool j).status ≠ .empty →
    l.birth i = l.birth j → i = j

theorem ledgerOk_init : LedgerOk ledger₀ :=
  ⟨poolOk_init, List.nodup_nil, List.nodup_nil, by simp [ledger₀], fun i hi => absurd rfl hi,
    fun i j hi => absurd rfl hi⟩

/-- A handle was issued for one task, and a task has one handle. -/
theorem LedgerOk.task_of_handle {l : Ledger} (hl : LedgerOk l) {h : UInt32} {n m : ℕ}
    (hn : (h, n) ∈ l.issued) (hm : (h, m) ∈ l.issued) : n = m :=
  (Prod.mk.inj (List.inj_on_of_nodup_map hl.handles hn hm rfl)).2

theorem LedgerOk.handle_of_task {l : Ledger} (hl : LedgerOk l) {h k : UInt32} {n : ℕ}
    (hh : (h, n) ∈ l.issued) (hk : (k, n) ∈ l.issued) : h = k :=
  (Prod.mk.inj (List.inj_on_of_nodup_map hl.tasks hh hk rfl)).1

theorem LedgerOk.distinct {l : Ledger} (hl : LedgerOk l) : Distinct l.pool := by
  intro i j hi hj hij
  refine hl.slots i j hi hj (hl.task_of_handle (hl.live i hi) ?_)
  rw [hij]
  exact hl.live j hj

theorem LedgerOk.retain {l : Ledger} (hl : LedgerOk l) {pool : TaskPool} {keep : UInt32 → Bool}
    (hok : PoolOk pool) (hsh : Shrinks l.pool pool)
    (hkeep : ∀ i, (pool i).status ≠ .empty → keep (pool i).handleId = true) :
    LedgerOk (l.retain pool keep) where
  pool := hok
  handles := (List.filter_sublist.map _).nodup hl.handles
  tasks := (List.filter_sublist.map _).nodup hl.tasks
  past := fun p hp => hl.past p (List.mem_of_mem_filter hp)
  live := by
    intro i hi
    obtain ⟨hi', hh⟩ := hsh i hi
    refine List.mem_filter.mpr ⟨?_, hkeep i hi⟩
    simp only [Ledger.retain, hh]
    exact hl.live i hi'
  slots := fun i j hi hj => hl.slots i j (hsh i hi).1 (hsh j hj).1

/-- A task recorded under a handle that was not given out keeps the ledger in order. -/
theorem LedgerOk.record {l : Ledger} (hl : LedgerOk l) {pool : TaskPool} {i : Fin taskPoolSize}
    {handle : UInt32} (hok : PoolOk pool) (hsh : ∀ j, j ≠ i → (pool j).status ≠ .empty →
      (l.pool j).status ≠ .empty ∧ (pool j).handleId = (l.pool j).handleId)
    (hi : (pool i).handleId = handle) (hfresh : ∀ n, (handle, n) ∉ l.issued) :
    LedgerOk (l.record pool i handle) := by
  have hbirth : ∀ j, j ≠ i → (pool j).status ≠ .empty → l.birth j < l.next := fun j hj hlive =>
    hl.past _ (hl.live j (hsh j hj hlive).1)
  refine ⟨hok, ?_, ?_, ?_, ?_, ?_⟩
  · refine List.nodup_cons.mpr ⟨?_, hl.handles⟩
    rintro hmem
    obtain ⟨⟨h, n⟩, hp, rfl⟩ := List.mem_map.mp hmem
    exact hfresh n hp
  · refine List.nodup_cons.mpr ⟨?_, hl.tasks⟩
    rintro hmem
    obtain ⟨p, hp, hn⟩ := List.mem_map.mp hmem
    exact absurd (hl.past p hp) (by rw [hn]; exact lt_irrefl _)
  · intro p hp
    rcases List.mem_cons.mp hp with rfl | hp
    · exact Nat.lt_succ_self _
    · exact Nat.lt_succ_of_lt (hl.past p hp)
  · intro j hj
    simp only [Ledger.record] at hj ⊢
    rcases eq_or_ne j i with rfl | hji
    · rw [Function.update_self, hi]
      exact List.mem_cons_self
    · obtain ⟨hj', hh⟩ := hsh j hji hj
      rw [Function.update_of_ne hji, hh]
      exact List.mem_cons_of_mem _ (hl.live j hj')
  · intro j k hj hk hjk
    simp only [Ledger.record] at hj hk hjk
    rcases eq_or_ne j i with rfl | hji <;> rcases eq_or_ne k j with rfl | hkj
    · rfl
    · rw [Function.update_self, Function.update_of_ne hkj] at hjk
      exact absurd hjk (Nat.ne_of_gt (hbirth k hkj hk))
    · rfl
    · rw [Function.update_of_ne hji] at hjk
      rcases eq_or_ne k i with rfl | hki
      · rw [Function.update_self] at hjk
        exact absurd hjk (Nat.ne_of_lt (hbirth j hji hj))
      · rw [Function.update_of_ne hki] at hjk
        exact hl.slots j k (hsh j hji hj).1 (hsh k hki hk).1 hjk

/-- What a query does once it has found the slot of its handle. -/
theorem taskQuery_of_found {env : Env} {g : TaskPool} {req : ApduFrame} {s : UInt16}
    {i : Fin taskPoolSize} (hg : PoolOk g) (hlen : 4 ≤ req.dataLen)
    (hf : taskPoolFindHandle (taskPoolSweepTimeouts g env.sweepTime) (queryHandle req) s = some i) :
    handlerTaskQuery env g req s =
      (if (sweepEntry env.sweepTime (g i)).status = .pending then
        taskPoolSweepTimeouts g env.sweepTime
      else Function.update (taskPoolSweepTimeouts g env.sweepTime) i zeroEntry,
      queryResp (toWire (sweepEntry env.sweepTime (g i)).status)) := by
  have hc := handlerTaskQuery_cases env g req s
  generalize handlerTaskQuery env g req s = out at hc ⊢
  cases hc with
  | short hshort => omega
  | notFound _ hnone => rw [hf] at hnone; cases hnone
  | pending j _ hj hp =>
    obtain rfl := Option.some.inj (hf.symm.trans hj)
    rw [if_pos hp, hp]
    rfl
  | terminal j _ hj hp =>
    obtain rfl := Option.some.inj (hf.symm.trans hj)
    rw [if_neg hp, (hg.sweep env.sweepTime).free_found hf]

theorem taskQuery_of_none {env : Env} {g : TaskPool} {req : ApduFrame} {s : UInt16}
    (hlen : 4 ≤ req.dataLen)
    (hf : taskPoolFindHandle (taskPoolSweepTimeouts g env.sweepTime) (queryHandle req) s = none) :
    handlerTaskQuery env g req s =
      (taskPoolSweepTimeouts g env.sweepTime, queryResp qstatusNotFound) := by
  have hc := handlerTaskQuery_cases env g req s
  generalize handlerTaskQuery env g req s = out at hc ⊢
  cases hc with
  | short hshort => omega
  | notFound _ _ => rfl
  | pending j _ hj _ => rw [hf] at hj; cases hj
  | terminal j _ hj _ => rw [hf] at hj; cases hj

/-- While no handle was given out twice, every handle is answered for its own task. -/
theorem LedgerOk.ownAnswers {l : Ledger} (hl : LedgerOk l) : OwnAnswers l := by
  intro h n hissued env req hlen hh
  have hlive : ∀ i, (sweepEntry env.sweepTime (l.pool i)).status ≠ .empty →
      (sweepEntry env.sweepTime (l.pool i)).handleId = h → l.birth i = n := by
    intro i hi hhi
    obtain ⟨hi', hkeep⟩ := sweepEntry_live hi
    refine hl.task_of_handle (h := h) ?_ hissued
    rw [← hhi, hkeep]
    exact hl.live i hi'
  constructor
  · intro i hi hsw
    obtain ⟨hi', hkeep⟩ := sweepEntry_live hsw
    have hhi : (l.pool i).handleId = h := hl.handle_of_task (hl.live i hi') (by rw [hi]; exact hissued)
    have hd := (sweep_shrinks l.pool env.sweepTime).distinct hl.distinct
    refine taskQuery_of_found hl.pool hlen ?_
    rw [hh]
    refine taskPoolFindHandle_of_first ?_ rfl (hkeep.trans hhi) hsw fun j hj hjh => ?_
    · rw [← hhi]; exact (hl.pool i).handleNe hi'
    · by_contra hjlive
      exact hj.ne (hd j i hjlive hsw (by rw [hjh]; exact (hkeep.trans hhi).symm))
  · intro hgone
    refine taskQuery_of_none hlen ?_
    by_contra hne
    obtain ⟨i, hi⟩ := Option.ne_none_iff_exists'.mp hne
    obtain ⟨-, -, hhi, hi', -⟩ := taskPoolFindHandle_some hi
    exact hi' (hgone i (hlive i hi' (by rw [← hh]; exact hhi)))

/-- A handle given out a second time is answered for one task only. -/
theorem reissued_not_own {l : Ledger} {pool : TaskPool} {i : Fin taskPoolSize} {handle : UInt32}
    {n : ℕ} (hl : ∀ p ∈ l.issued, p.2 < l.next) (hn : (handle, n) ∈ l.issued)
    (hpending : (pool i).status = .pending) (hh : (pool i).handleId = handle)
    (hd : Distinct pool) (hbirth : ∀ j, j ≠ i → (pool j).status ≠ .empty → l.birth j = n →
      (pool j).handleId = handle) : ¬ OwnAnswers (l.record pool i handle) := by
  intro h
  -- a query at the time of the allocation: the fresh entry is within its time
  have henv : (sweepEntry (pool i).createdAt (pool i)) = pool i :=
    sweepEntry_young (by simp [taskTimeoutSec])
  have hnew := (h handle l.next List.mem_cons_self
    ⟨(pool i).createdAt, 0, 0, .child 0, none⟩ (queryRequest handle) (queryRequest_dataLen handle).ge
    (queryHandle_queryRequest handle)).held i (by simp [Ledger.record])
    (by simp only [Ledger.record]; rw [henv, hpending]; decide)
  have hold := (h handle n (List.mem_cons_of_mem _ hn)
    ⟨(pool i).createdAt, 0, 0, .child 0, none⟩ (queryRequest handle) (queryRequest_dataLen handle).ge
    (queryHandle_queryRequest handle)).gone ?_
  · rw [hnew] at hold
    have := congrArg Prod.snd hold
    simp only [Ledger.record, henv, hpending] at this
    revert this
    decide
  · intro j hj
    simp only [Ledger.record] at hj ⊢
    have hji : j ≠ i := by
      rintro rfl
      rw [Function.update_self] at hj
      exact absurd (hl _ hn) (by rw [← hj]; exact lt_irrefl _)
    rw [Function.update_of_ne hji] at hj
    by_contra hlive
    obtain ⟨hlive', -⟩ := sweepEntry_live hlive
    exact hji (hd j i hlive' (by rw [hpending]; decide) ((hbirth j hji hlive' hj).trans hh.symm))

theorem ownAnswers_states_iff (es : List PoolEvent) :
    Runs.StatesMeet (Runs.always ledgerStep) (fun l => Distinct l.pool ∧ OwnAnswers l) ledger₀ es ↔
      Runs.StepsMeet (Runs.always ledgerStep) FreshAmongIssued ledger₀ es := by
  refine Runs.states_iff_steps (I := LedgerOk) ledgerOk_init ?_
    (fun l hl => ⟨hl.distinct, hl.ownAnswers⟩) ?_ (Runs.run_always _ _ _)
  · rintro l e _ hl hC ⟨⟩
    have hok : PoolOk (ledgerStep l e).pool := by
      rw [ledgerStep_pool]; exact poolStep_ok hl.pool e
    have hcase := ledgerStep_cases hl.pool e
    generalize ledgerStep l e = l' at hcase hok
    cases hcase with
    | recorded env req s i pid he hslot hfree =>
      subst he
      refine hl.record hok (fun j hj hlive => ?_) (by simp) (hC (by simp [hslot]))
      rw [Function.update_of_ne hj] at hlive ⊢
      exact sweepEntry_live hlive
    | retained pool keep hsh hkeep _ => exact hl.retain hok hsh hkeep
  · rintro l e _ hl hC ⟨⟩ ⟨hd, hown⟩
    have hcase := ledgerStep_cases hl.pool e
    generalize ledgerStep l e = l' at hcase hd hown
    cases hcase with
    | recorded env req s i pid he hslot hfree =>
      subst he
      change Distinct (Function.update _ i _) at hd
      refine hC fun _ n hn => ?_
      refine reissued_not_own hl.past hn (by simp) (by simp) hd (fun j hj hlive hb => ?_) hown
      rw [Function.update_of_ne hj] at hlive ⊢
      obtain ⟨hlive', hkeep⟩ := sweepEntry_live hlive
      rw [taskPoolSweepTimeouts_apply, hkeep]
      exact hl.handle_of_task (hl.live j hlive') (by rw [hb]; exact hn)
    | retained pool keep _ _ hnone =>
      cases e with
      | svcRestart env req s => exact hC fun h => absurd (hnone env req s rfl) h
      | _ => exact hC trivial

/-- CORRECT (exact): the live handles stay pairwise different along a run exactly when every handle
    drawn is that of no live task, and every issued handle is then also answered for its own task
    exactly when every handle drawn is new to the sessions still connected. -/
theorem handles_states_iff (es : List PoolEvent) :
    (Runs.StatesMeet (Runs.always ledgerStep) (fun l => Distinct l.pool) ledger₀ es ↔
      Runs.StepsMeet (Runs.always ledgerStep) FreshAmongLive ledger₀ es) ∧
    (Runs.StatesMeet (Runs.always ledgerStep) (fun l => Distinct l.pool ∧ OwnAnswers l) ledger₀ es ↔
      Runs.StepsMeet (Runs.always ledgerStep) FreshAmongIssued ledger₀ es) :=
  ⟨distinct_states_iff es, ownAnswers_states_iff es⟩

/-- `rand_r` returns 0x10001 and then 0x20001 to the restarts of services `a` and `b`. -/
def sameDraw : List PoolEvent :=
  [.svcRestart ⟨0, 0, 0x10001, .child 100, none⟩ (letterRequest 0x61) 1,
    .svcRestart ⟨0, 0, 0x20001, .child 101, none⟩ (letterRequest 0x62) 1]

/-- Both tasks get the handle 0x00010001. Once `a` has succeeded, a query for `b` is answered Success
    while `b` is still running. -/
theorem same_draw_same_handle :
    ¬ Distinct (poolAfter sameDraw) ∧
    (handlerTaskQuery ⟨1, 1, 0, .child 0, none⟩
      (poolAfter (sameDraw ++ [.childExit 100 (.exited 0)])) (queryRequest 0x00010001) 1).2 =
      [0x01, 0x90, 0x00] ∧
    (poolAfter (sameDraw ++ [.childExit 100 (.exited 0)]) 1).status = .pending := by
  refine ⟨fun h => ?_, by decide +kernel, by decide +kernel⟩
  exact absurd (h 0 1 (by decide +kernel) (by decide +kernel) (by decide +kernel)) (by decide)

end Asys
