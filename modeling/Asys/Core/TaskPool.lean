import Mathlib.Data.Fin.Tuple.Basic
import Mathlib.Logic.Function.Basic
import Asys.Lib.Words

/-! # task_pool.c: the pool of task handles

    Sixty-four static slots, searched in index order. The clock (`time(NULL)`) and the generator
    (`rand_r`) are arguments of the calls that read them, so a statement for every value of these
    arguments holds whatever they return. A `svc_name` buffer is modelled by the C string in it. -/

namespace Asys
open Words

def taskPoolSize : ℕ := 64
def taskSvcNameMax : ℕ := 64
def taskTimeoutSec : ℤ := 30

instance : NeZero taskPoolSize := ⟨by decide⟩

inductive TaskStatus where | empty | pending | success | failed | timeout | cancelled
  deriving DecidableEq, Repr

structure TaskEntry where
  handleId : UInt32
  sessionId : UInt16
  childPid : ℤ
  status : TaskStatus
  createdAt : ℤ
  svcName : List UInt8
  deriving DecidableEq, Repr

/-- A slot after `memset(&g_pool[i], 0, sizeof(TaskEntry))`. -/
def zeroEntry : TaskEntry := ⟨0, 0, 0, .empty, 0, []⟩

/-- `g_pool`. -/
abbrev TaskPool := Fin taskPoolSize → TaskEntry

/-- The C string at the start of a buffer. -/
def cString (bs : List UInt8) : List UInt8 := bs.takeWhile (· ≠ 0)

def taskPoolInit : TaskPool := fun _ => zeroEntry

/-- The first free slot, the one `task_pool_alloc` takes. -/
def firstEmpty (g : TaskPool) : Option (Fin taskPoolSize) :=
  Fin.find? fun i => (g i).status = .empty

def taskPoolAvailable (g : TaskPool) : Bool := (firstEmpty g).isSome

/-- The random half of a handle: `rand_r(..) & 0xFFFF`, with 0 folded onto 1. -/
def handleRand (r : UInt32) : UInt16 :=
  let rnd := (r &&& 0xFFFF).toUInt16
  if rnd = 0 then 1 else rnd

/-- What `task_pool_alloc` writes into the slot. -/
def newEntry (sessionId : UInt16) (svcName : List UInt8) (childPid : ℤ) (r : UInt32) (now : ℤ) :
    TaskEntry where
  handleId := join16 sessionId (handleRand r)
  sessionId := sessionId
  childPid := childPid
  status := .pending
  createdAt := now
  svcName := (cString svcName).take taskSvcNameMax

def taskPoolAlloc (g : TaskPool) (sessionId : UInt16) (svcName : List UInt8) (childPid : ℤ)
    (r : UInt32) (now : ℤ) : TaskPool × UInt32 :=
  match firstEmpty g with
  | some i =>
    let e := newEntry sessionId svcName childPid r now
    (Function.update g i e, e.handleId)
  | none => (g, 0)

def taskPoolFindPending (g : TaskPool) (sessionId : UInt16) (svcName : List UInt8) : UInt32 :=
  match Fin.find? fun i => (g i).status = .pending ∧ (g i).sessionId = sessionId ∧
      (g i).svcName = cString svcName with
  | some i => (g i).handleId
  | none => 0

/-- The entry pointer `task_pool_find_handle` returns, as an index; `none` is NULL. -/
def taskPoolFindHandle (g : TaskPool) (handleId : UInt32) (sessionId : UInt16) :
    Option (Fin taskPoolSize) :=
  if handleId = 0 then none
  else if high16 handleId ≠ sessionId then none
  else Fin.find? fun i => (g i).handleId = handleId ∧ (g i).status ≠ .empty

def taskPoolFree (g : TaskPool) (handleId : UInt32) : TaskPool :=
  match Fin.find? fun i => (g i).handleId = handleId with
  | some i => Function.update g i zeroEntry
  | none => g

/-- The slot `task_pool_update_by_pid` changes. -/
def pendingWithPid (g : TaskPool) (pid : ℤ) : Option (Fin taskPoolSize) :=
  Fin.find? fun i => (g i).childPid = pid ∧ (g i).status = .pending

def taskPoolUpdateByPid (g : TaskPool) (pid : ℤ) (newStatus : TaskStatus) : TaskPool :=
  match pendingWithPid g pid with
  | some i => Function.update g i { g i with status := newStatus }
  | none => g

def taskPoolReleaseSession (g : TaskPool) (sessionId : UInt16) : TaskPool := fun i =>
  if (g i).sessionId = sessionId ∧ (g i).status ≠ .empty then zeroEntry else g i

/-- The body of the loop of `task_pool_sweep_timeouts`. -/
def sweepEntry (now : ℤ) (e : TaskEntry) : TaskEntry :=
  if e.status = .empty then e
  else if now - e.createdAt ≤ taskTimeoutSec then e
  else if e.status = .pending then { e with status := .timeout }
  else zeroEntry

def taskPoolSweepTimeouts (g : TaskPool) (now : ℤ) : TaskPool := fun i => sweepEntry now (g i)

/-! ### One lemma for each call -/

@[simp] theorem zeroEntry_status : zeroEntry.status = .empty := rfl
@[simp] theorem zeroEntry_handleId : zeroEntry.handleId = 0 := rfl
@[simp] theorem zeroEntry_sessionId : zeroEntry.sessionId = 0 := rfl
@[simp] theorem taskPoolInit_apply (i : Fin taskPoolSize) : taskPoolInit i = zeroEntry := rfl

@[simp] theorem newEntry_status (s : UInt16) (n : List UInt8) (p : ℤ) (r : UInt32) (t : ℤ) :
    (newEntry s n p r t).status = .pending := rfl
@[simp] theorem newEntry_sessionId (s : UInt16) (n : List UInt8) (p : ℤ) (r : UInt32) (t : ℤ) :
    (newEntry s n p r t).sessionId = s := rfl
@[simp] theorem newEntry_childPid (s : UInt16) (n : List UInt8) (p : ℤ) (r : UInt32) (t : ℤ) :
    (newEntry s n p r t).childPid = p := rfl
@[simp] theorem newEntry_createdAt (s : UInt16) (n : List UInt8) (p : ℤ) (r : UInt32) (t : ℤ) :
    (newEntry s n p r t).createdAt = t := rfl
@[simp] theorem newEntry_handleId (s : UInt16) (n : List UInt8) (p : ℤ) (r : UInt32) (t : ℤ) :
    (newEntry s n p r t).handleId = join16 s (handleRand r) := rfl

theorem handleRand_ne_zero (r : UInt32) : handleRand r ≠ 0 := by
  by_cases h : (r &&& 0xFFFF).toUInt16 = 0
  · rw [handleRand, if_pos h]; decide
  · rw [handleRand, if_neg h]; exact h

theorem firstEmpty_some {g : TaskPool} {i : Fin taskPoolSize} (h : firstEmpty g = some i) :
    (g i).status = .empty := by
  simpa using Fin.eq_true_of_find?_eq_some h

theorem firstEmpty_none {g : TaskPool} : firstEmpty g = none ↔ ∀ i, (g i).status ≠ .empty := by
  simp [firstEmpty]

theorem taskPoolAvailable_iff {g : TaskPool} :
    taskPoolAvailable g = true ↔ ∃ i, (g i).status = .empty := by
  simp [taskPoolAvailable, firstEmpty]

theorem taskPoolAvailable_some {g : TaskPool} :
    taskPoolAvailable g = true ↔ ∃ i, firstEmpty g = some i := by
  rw [taskPoolAvailable, Option.isSome_iff_exists]

/-- The allocation takes the first free slot, or fails and leaves the pool alone. -/
theorem taskPoolAlloc_cases (g : TaskPool) (s : UInt16) (n : List UInt8) (p : ℤ) (r : UInt32)
    (t : ℤ) :
    (∃ i, firstEmpty g = some i ∧
      taskPoolAlloc g s n p r t =
        (Function.update g i (newEntry s n p r t), join16 s (handleRand r))) ∨
    (firstEmpty g = none ∧ taskPoolAlloc g s n p r t = (g, 0)) := by
  unfold taskPoolAlloc
  cases h : firstEmpty g with
  | some i => exact Or.inl ⟨i, rfl, rfl⟩
  | none => exact Or.inr ⟨rfl, rfl⟩

theorem taskPoolAlloc_of_some {g : TaskPool} {i : Fin taskPoolSize} (h : firstEmpty g = some i)
    (s : UInt16) (n : List UInt8) (p : ℤ) (r : UInt32) (t : ℤ) :
    taskPoolAlloc g s n p r t =
      (Function.update g i (newEntry s n p r t), join16 s (handleRand r)) := by
  rcases taskPoolAlloc_cases g s n p r t with ⟨j, hj, ha⟩ | ⟨hnone, -⟩
  · obtain rfl : i = j := Option.some.inj (h.symm.trans hj)
    exact ha
  · exact absurd (h.symm.trans hnone) nofun

/-- The handle returned is 0 exactly when no slot was free. -/
theorem taskPoolAlloc_eq_zero (g : TaskPool) (s : UInt16) (n : List UInt8) (p : ℤ) (r : UInt32)
    (t : ℤ) : (taskPoolAlloc g s n p r t).2 = 0 ↔ firstEmpty g = none := by
  unfold taskPoolAlloc
  cases h : firstEmpty g with
  | some i =>
    simp only [newEntry_handleId, reduceCtorEq, iff_false]
    exact join16_ne_zero (handleRand_ne_zero r)
  | none => simp

theorem taskPoolFindHandle_some {g : TaskPool} {h : UInt32} {s : UInt16} {i : Fin taskPoolSize}
    (hf : taskPoolFindHandle g h s = some i) :
    h ≠ 0 ∧ high16 h = s ∧ (g i).handleId = h ∧ (g i).status ≠ .empty ∧
      ∀ j < i, (g j).handleId = h → (g j).status = .empty := by
  simp only [taskPoolFindHandle] at hf
  split at hf
  · cases hf
  split at hf
  · cases hf
  rename_i hz hs
  rw [Fin.find?_eq_some_iff] at hf
  obtain ⟨hi, hlt⟩ := hf
  simp only [decide_eq_true_eq] at hi
  refine ⟨hz, not_not.mp hs, hi.1, hi.2, fun j hj hh => ?_⟩
  simpa [hh] using hlt j hj

/-- The first live slot with the handle is the one that is found. -/
theorem taskPoolFindHandle_of_first {g : TaskPool} {h : UInt32} {s : UInt16} {i : Fin taskPoolSize}
    (hz : h ≠ 0) (hs : high16 h = s) (hi : (g i).handleId = h) (hlive : (g i).status ≠ .empty)
    (hfirst : ∀ j < i, (g j).handleId = h → (g j).status = .empty) :
    taskPoolFindHandle g h s = some i := by
  simp only [taskPoolFindHandle]
  rw [if_neg hz, if_neg (not_not.mpr hs), Fin.find?_eq_some_iff]
  refine ⟨by simp [hi, hlive], fun j hj => ?_⟩
  simpa using hfirst j hj

/-- A handle that carries another session's number is not found, whatever the pool holds. -/
theorem taskPoolFindHandle_foreign (g : TaskPool) {h : UInt32} {s : UInt16} (hs : high16 h ≠ s) :
    taskPoolFindHandle g h s = none := by
  simp only [taskPoolFindHandle]
  by_cases hz : h = 0
  · rw [if_pos hz]
  · rw [if_neg hz, if_pos hs]

/-- The search looks at nothing but which live slots hold the handle. -/
theorem taskPoolFindHandle_congr {g g' : TaskPool} {h : UInt32} {s : UInt16}
    (heq : ∀ i, ((g i).handleId = h ∧ (g i).status ≠ .empty) ↔
      ((g' i).handleId = h ∧ (g' i).status ≠ .empty)) :
    taskPoolFindHandle g h s = taskPoolFindHandle g' h s := by
  simp only [taskPoolFindHandle]
  split
  · rfl
  split
  · rfl
  · exact congrArg Fin.find? (funext fun i => decide_eq_decide.mpr (heq i))

theorem taskPoolFree_cases (g : TaskPool) (h : UInt32) :
    (∃ i, (g i).handleId = h ∧ (∀ j < i, (g j).handleId ≠ h) ∧
      taskPoolFree g h = Function.update g i zeroEntry) ∨
    ((∀ i, (g i).handleId ≠ h) ∧ taskPoolFree g h = g) := by
  unfold taskPoolFree
  split
  · rename_i i hi
    rw [Fin.find?_eq_some_iff] at hi
    exact Or.inl ⟨i, by simpa using hi.1, fun j hj => by simpa using hi.2 j hj, rfl⟩
  · rename_i hnone
    exact Or.inr ⟨by simpa using hnone, rfl⟩

theorem pendingWithPid_some {g : TaskPool} {pid : ℤ} {i : Fin taskPoolSize}
    (h : pendingWithPid g pid = some i) : (g i).childPid = pid ∧ (g i).status = .pending := by
  simpa using Fin.eq_true_of_find?_eq_some h

theorem pendingWithPid_none {g : TaskPool} {pid : ℤ} (h : pendingWithPid g pid = none)
    (i : Fin taskPoolSize) (hp : (g i).status = .pending) : (g i).childPid ≠ pid := by
  have := Fin.eq_false_of_find?_eq_none h i
  simp only [decide_eq_false_iff_not, not_and] at this
  exact fun hpid => this hpid hp

theorem taskPoolUpdateByPid_cases (g : TaskPool) (pid : ℤ) (st : TaskStatus) :
    (∃ i, pendingWithPid g pid = some i ∧
      taskPoolUpdateByPid g pid st = Function.update g i { g i with status := st }) ∨
    (pendingWithPid g pid = none ∧ taskPoolUpdateByPid g pid st = g) := by
  unfold taskPoolUpdateByPid
  cases h : pendingWithPid g pid with
  | some i => exact Or.inl ⟨i, rfl, rfl⟩
  | none => exact Or.inr ⟨rfl, rfl⟩

@[simp] theorem taskPoolSweepTimeouts_apply (g : TaskPool) (now : ℤ) (i : Fin taskPoolSize) :
    taskPoolSweepTimeouts g now i = sweepEntry now (g i) := rfl

theorem taskPoolReleaseSession_apply (g : TaskPool) (s : UInt16) (i : Fin taskPoolSize) :
    taskPoolReleaseSession g s i =
      if (g i).sessionId = s ∧ (g i).status ≠ .empty then zeroEntry else g i := rfl

/-- The sweep leaves free slots and entries within their time alone. -/
theorem sweepEntry_young {now : ℤ} {e : TaskEntry} (h : now - e.createdAt ≤ taskTimeoutSec) :
    sweepEntry now e = e := by
  simp [sweepEntry, h]

@[simp] theorem sweepEntry_empty {now : ℤ} {e : TaskEntry} (h : e.status = .empty) :
    sweepEntry now e = e := by
  simp [sweepEntry, h]

theorem sweepEntry_pending (now : ℤ) {e : TaskEntry} (h : e.status = .pending)
    (hold : taskTimeoutSec < now - e.createdAt) :
    sweepEntry now e = { e with status := .timeout } := by
  simp [sweepEntry, h, not_le.mpr hold]

theorem sweepEntry_terminal (now : ℤ) {e : TaskEntry} (h : e.status ≠ .pending)
    (he : e.status ≠ .empty) (hold : taskTimeoutSec < now - e.createdAt) :
    sweepEntry now e = zeroEntry := by
  simp [sweepEntry, h, he, not_le.mpr hold]

/-- What a sweep can do to an entry. -/
theorem sweepEntry_cases (now : ℤ) (e : TaskEntry) :
    sweepEntry now e = e ∨
    (taskTimeoutSec < now - e.createdAt ∧ e.status = .pending ∧
      sweepEntry now e = { e with status := .timeout }) ∨
    (taskTimeoutSec < now - e.createdAt ∧ e.status ≠ .pending ∧ e.status ≠ .empty ∧
      sweepEntry now e = zeroEntry) := by
  by_cases hy : now - e.createdAt ≤ taskTimeoutSec
  · exact Or.inl (sweepEntry_young hy)
  have hold := not_le.mp hy
  by_cases he : e.status = .empty
  · exact Or.inl (sweepEntry_empty he)
  by_cases hp : e.status = .pending
  · exact Or.inr (Or.inl ⟨hold, hp, sweepEntry_pending now hp hold⟩)
  · exact Or.inr (Or.inr ⟨hold, hp, he, sweepEntry_terminal now hp he hold⟩)

/-! ### The shape of an entry -/

/-- A free slot is all zero; a task's handle carries its session in the upper half and is not 0. -/
structure EntryOk (e : TaskEntry) : Prop where
  emptyZero : e.status = .empty → e = zeroEntry
  owner : e.status ≠ .empty → high16 e.handleId = e.sessionId
  handleNe : e.status ≠ .empty → e.handleId ≠ 0

/-- What one call can do to one slot. -/
inductive EntryStep : TaskEntry → TaskEntry → Prop where
  | same (e : TaskEntry) : EntryStep e e
  | clear (e : TaskEntry) : EntryStep e zeroEntry
  | fill {e : TaskEntry} (s : UInt16) (n : List UInt8) (p : ℤ) (r : UInt32) (t : ℤ) :
      e.status = .empty → EntryStep e (newEntry s n p r t)
  | settle {e : TaskEntry} (st : TaskStatus) :
      e.status = .pending → st ≠ .empty → EntryStep e { e with status := st }

theorem entryOk_zero : EntryOk zeroEntry := ⟨fun _ => rfl, by simp, by simp⟩

theorem entryOk_new (s : UInt16) (n : List UInt8) (p : ℤ) (r : UInt32) (t : ℤ) :
    EntryOk (newEntry s n p r t) :=
  ⟨by simp, by simp, fun _ => join16_ne_zero (handleRand_ne_zero r)⟩

theorem EntryOk.step {e e' : TaskEntry} (h : EntryOk e) (hs : EntryStep e e') : EntryOk e' := by
  cases hs with
  | same => exact h
  | clear => exact entryOk_zero
  | fill s n p r t _ => exact entryOk_new s n p r t
  | settle st hp hst =>
    have hlive : e.status ≠ .empty := by simp [hp]
    exact ⟨fun he => absurd he hst, fun _ => h.owner hlive, fun _ => h.handleNe hlive⟩

theorem update_step {g : TaskPool} {i : Fin taskPoolSize} {e : TaskEntry} (h : EntryStep (g i) e)
    (j : Fin taskPoolSize) : EntryStep (g j) (Function.update g i e j) := by
  rcases eq_or_ne j i with rfl | hj
  · simpa using h
  · rw [Function.update_of_ne hj]; exact .same _

theorem taskPoolFree_step (g : TaskPool) (h : UInt32) (j : Fin taskPoolSize) :
    EntryStep (g j) (taskPoolFree g h j) := by
  rcases taskPoolFree_cases g h with ⟨i, -, -, hf⟩ | ⟨-, hf⟩ <;> rw [hf]
  · exact update_step (.clear _) j
  · exact .same _

theorem taskPoolUpdateByPid_step (g : TaskPool) (pid : ℤ) {st : TaskStatus} (hst : st ≠ .empty)
    (j : Fin taskPoolSize) : EntryStep (g j) (taskPoolUpdateByPid g pid st j) := by
  rcases taskPoolUpdateByPid_cases g pid st with ⟨i, hi, hu⟩ | ⟨-, hu⟩ <;> rw [hu]
  · exact update_step (.settle st (pendingWithPid_some hi).2 hst) j
  · exact .same _

theorem taskPoolReleaseSession_step (g : TaskPool) (s : UInt16) (j : Fin taskPoolSize) :
    EntryStep (g j) (taskPoolReleaseSession g s j) := by
  rw [taskPoolReleaseSession_apply]
  split
  · exact .clear _
  · exact .same _

theorem sweepEntry_step (now : ℤ) (e : TaskEntry) : EntryStep e (sweepEntry now e) := by
  rcases sweepEntry_cases now e with h | ⟨-, hp, h⟩ | ⟨-, -, -, h⟩ <;> rw [h]
  · exact .same _
  · exact .settle _ hp (by decide)
  · exact .clear _

/-- Every slot of the pool has the shape of `EntryOk`. -/
def PoolOk (g : TaskPool) : Prop := ∀ i, EntryOk (g i)

theorem poolOk_init : PoolOk taskPoolInit := fun _ => entryOk_zero

theorem PoolOk.step {g g' : TaskPool} (h : PoolOk g) (hs : ∀ i, EntryStep (g i) (g' i)) :
    PoolOk g' := fun i => (h i).step (hs i)

/-- A handle other than 0 is only found in a live slot, so a release by handle hits a task. -/
theorem PoolOk.live_of_handle {g : TaskPool} (hg : PoolOk g) {i : Fin taskPoolSize}
    (h : (g i).handleId ≠ 0) : (g i).status ≠ .empty := by
  intro he
  exact h (by rw [(hg i).emptyZero he]; rfl)

/-- In a well-formed pool the slot that `task_pool_free` clears is the one
    `task_pool_find_handle` found. -/
theorem PoolOk.free_found {g : TaskPool} (hg : PoolOk g) {h : UInt32} {s : UInt16}
    {i : Fin taskPoolSize} (hf : taskPoolFindHandle g h s = some i) :
    taskPoolFree g h = Function.update g i zeroEntry := by
  obtain ⟨hz, -, hi, -, hlt⟩ := taskPoolFindHandle_some hf
  rcases taskPoolFree_cases g h with ⟨j, hj, hmin, hfree⟩ | ⟨hnone, -⟩
  · rcases lt_trichotomy i j with hij | rfl | hji
    · exact absurd hi (hmin i hij)
    · exact hfree
    · exact absurd (hlt j hji hj) (hg.live_of_handle (by rw [hj]; exact hz))
  · exact absurd hi (hnone i)

end Asys
