import Asys.Daemon.PoolEvents
import Asys.Lib.Runs

/-! # TASK_QUERY against the reaper

    A client thread runs `handler_task_query` step by step while `sigchld_handler` updates the pool
    between any two of the steps. The handler reads `e->status` twice: once for the byte it answers
    with, once to decide on the release. -/

namespace Asys
open Words

/-- Who moves: the thread in the handler, or `sigchld_handler` with a reaped child. -/
inductive QueryMove where
  | query
  | update (pid : ℤ) (status : WaitStatus)

def raceStep (now : ℤ) (s : UInt16) (q : TaskPool × QueryPc) : QueryMove → TaskPool × QueryPc
  | .query => queryStep now s q.1 q.2
  | .update pid status => (taskPoolUpdateByPid q.1 pid (childStatus status), q.2)

/-- The status bytes of a finished task, 0x01 to 0x04. -/
def terminalWire (wire : UInt8) : Bool := 0x01 ≤ wire ∧ wire ≤ 0x04

/-- The query for `h` has answered: it has released the task it found exactly when the byte it
    answered with is terminal, and otherwise the task is still there under its handle. -/
def ReleasedIffTerminal (h : UInt32) (g : TaskPool) : QueryPc → Prop
  | .answered wire (some e) =>
    ((g e).status = .empty ↔ terminalWire wire = true) ∧
      (terminalWire wire = false → (g e).handleId = h)
  | .answered wire none => wire = qstatusNotFound
  | _ => False

/-- No update settles the task in slot `e` between the two reads of its status. -/
def NoUpdateBetweenReads (q : TaskPool × QueryPc) (m : QueryMove) : Prop :=
  ∀ h e wire pid status, q.2 = .readRelease h e wire → m = .update pid status →
    pendingWithPid q.1 pid ≠ some e

/-! ### The task that was found -/

/-- `e` is the first slot with handle `h`, and it is live: the one that is found and freed. -/
structure Holds (g : TaskPool) (h : UInt32) (e : Fin taskPoolSize) : Prop where
  handle : (g e).handleId = h
  live : (g e).status ≠ .empty
  first : ∀ j < e, (g j).handleId ≠ h

theorem holds_of_found {g : TaskPool} (hg : PoolOk g) {h : UInt32} {s : UInt16}
    {e : Fin taskPoolSize} (hf : taskPoolFindHandle g h s = some e) : Holds g h e := by
  obtain ⟨hz, -, hh, hlive, hfirst⟩ := taskPoolFindHandle_some hf
  refine ⟨hh, hlive, fun j hj hjh => ?_⟩
  exact hg.live_of_handle (by rw [hjh]; exact hz) (hfirst j hj hjh)

/-- An update changes no handle and frees no slot. -/
theorem updateByPid_same (g : TaskPool) (pid : ℤ) (status : WaitStatus) (i : Fin taskPoolSize) :
    (taskPoolUpdateByPid g pid (childStatus status) i).handleId = (g i).handleId ∧
    ((taskPoolUpdateByPid g pid (childStatus status) i).status = .empty ↔
      (g i).status = .empty) := by
  rcases taskPoolUpdateByPid_cases g pid (childStatus status) with ⟨j, hj, hu⟩ | ⟨-, hu⟩ <;> rw [hu]
  · rcases eq_or_ne i j with rfl | hij
    · have hp := (pendingWithPid_some hj).2
      simp [hp, childStatus_ne_empty]
    · simp [Function.update_of_ne hij]
  · simp

/-- An update leaves the status of every slot but the one it finds. -/
theorem updateByPid_other {g : TaskPool} {pid : ℤ} {i : Fin taskPoolSize} (st : TaskStatus)
    (h : pendingWithPid g pid ≠ some i) : taskPoolUpdateByPid g pid st i = g i := by
  rcases taskPoolUpdateByPid_cases g pid st with ⟨j, hj, hu⟩ | ⟨-, hu⟩ <;> rw [hu]
  have hij : i ≠ j := by
    rintro rfl
    exact h hj
  rw [Function.update_of_ne hij]

theorem Holds.update {g : TaskPool} {h : UInt32} {e : Fin taskPoolSize} (hh : Holds g h e) (pid : ℤ)
    (status : WaitStatus) : Holds (taskPoolUpdateByPid g pid (childStatus status)) h e := by
  refine ⟨?_, ?_, fun j hj => ?_⟩
  · rw [(updateByPid_same g pid status e).1]; exact hh.handle
  · rw [ne_eq, (updateByPid_same g pid status e).2]; exact hh.live
  · rw [(updateByPid_same g pid status j).1]; exact hh.first j hj

theorem Holds.free {g : TaskPool} {h : UInt32} {e : Fin taskPoolSize} (hh : Holds g h e) :
    taskPoolFree g h = Function.update g e zeroEntry := by
  rcases taskPoolFree_cases g h with ⟨j, hj, hmin, hf⟩ | ⟨hnone, -⟩
  · rcases lt_trichotomy e j with hej | rfl | hje
    · exact absurd hh.handle (hmin e hej)
    · exact hf
    · exact absurd hj (hh.first j hje)
  · exact absurd hh.handle (hnone e)

/-- The byte read from a live entry is terminal unless the entry is PENDING. -/
theorem terminalWire_toWire {st : TaskStatus} (h : st ≠ .empty) :
    terminalWire (toWire st) = true ↔ st ≠ .pending := by
  cases st <;> first | exact absurd rfl h | decide

/-! ### The two ways a query can go -/

/-- The byte in the response, once it is read, is that of the status the release will see. -/
def InStep (h : UInt32) (g : TaskPool) : QueryPc → Prop
  | .sweep h' => h' = h
  | .find h' => h' = h
  | .readWire h' e => h' = h ∧ Holds g h e
  | .readRelease h' e wire => h' = h ∧ Holds g h e ∧ wire = toWire (g e).status
  | .free h' e wire => h' = h ∧ Holds g h e ∧ terminalWire wire = true
  | .answered wire e => ReleasedIffTerminal h g (.answered wire e)

/-- The response says Pending and the task has settled since: it will be released. -/
def OutOfStep (h : UInt32) (g : TaskPool) : QueryPc → Prop
  | .readRelease h' e wire => h' = h ∧ Holds g h e ∧ wire = qstatusPending ∧
      (g e).status ≠ .pending
  | .free h' e wire => h' = h ∧ Holds g h e ∧ wire = qstatusPending
  | .answered wire (some e) => wire = qstatusPending ∧ (g e).status = .empty
  | _ => False

theorem raceStep_ok {g : TaskPool} (hok : PoolOk g) (now : ℤ) (s : UInt16) (pc : QueryPc)
    (m : QueryMove) : PoolOk (raceStep now s (g, pc) m).1 := by
  cases m with
  | query =>
    cases pc with
    | sweep h => exact hok.sweep now
    | find h =>
      rw [raceStep, queryStep_find]
      split <;> exact hok
    | readWire h e => exact hok
    | readRelease h e wire =>
      rw [raceStep, queryStep_readRelease]
      split <;> exact hok
    | free h e wire => exact hok.step (taskPoolFree_step g h)
    | answered wire e => exact hok
  | update pid status => exact hok.step (taskPoolUpdateByPid_step g pid (childStatus_ne_empty status))

theorem inStep_query {now : ℤ} {s : UInt16} {h : UInt32} {g : TaskPool} {pc : QueryPc}
    (hok : PoolOk g) (hin : InStep h g pc) :
    InStep h (queryStep now s g pc).1 (queryStep now s g pc).2 := by
  cases pc with
  | sweep h' => exact hin
  | find h' =>
    obtain rfl : h' = h := hin
    cases hf : taskPoolFindHandle g h' s with
    | none =>
      rw [queryStep_find, hf]
      rfl
    | some e =>
      rw [queryStep_find_some now hf]
      exact ⟨rfl, holds_of_found hok hf⟩
  | readWire h' e => exact ⟨hin.1, hin.2, rfl⟩
  | readRelease h' e wire =>
    obtain ⟨rfl, hh, rfl⟩ := hin
    rw [queryStep_readRelease]
    by_cases hp : (g e).status = .pending
    · rw [if_neg (not_not.mpr hp), hp]
      exact ⟨by simp [hp, terminalWire, toWire, qstatusPending], fun _ => hh.handle⟩
    · rw [if_pos hp]
      exact ⟨rfl, hh, (terminalWire_toWire hh.live).mpr hp⟩
  | free h' e wire =>
    obtain ⟨rfl, hh, hw⟩ := hin
    simp [queryStep, InStep, ReleasedIffTerminal, hh.free, hw]
  | answered wire e => exact hin

theorem inStep_update {h : UInt32} {g : TaskPool} {pc : QueryPc} {pid : ℤ} {status : WaitStatus}
    (hin : InStep h g pc) (hC : NoUpdateBetweenReads (g, pc) (.update pid status)) :
    InStep h (taskPoolUpdateByPid g pid (childStatus status)) pc := by
  cases pc with
  | sweep h' => exact hin
  | find h' => exact hin
  | readWire h' e => exact ⟨hin.1, hin.2.update pid status⟩
  | readRelease h' e wire =>
    refine ⟨hin.1, hin.2.1.update pid status, ?_⟩
    rw [updateByPid_other _ (hC h' e wire pid status rfl rfl)]
    exact hin.2.2
  | free h' e wire => exact ⟨hin.1, hin.2.1.update pid status, hin.2.2⟩
  | answered wire e =>
    cases e with
    | none => exact hin
    | some e =>
      obtain ⟨hiff, hkept⟩ := hin
      refine ⟨?_, fun hw => ?_⟩
      · rw [(updateByPid_same g pid status e).2]; exact hiff
      · rw [(updateByPid_same g pid status e).1]; exact hkept hw

/-- An update between the two reads makes them disagree. -/
theorem outOfStep_of_update {h : UInt32} {g : TaskPool} {pc : QueryPc} {m : QueryMove}
    {now : ℤ} {s : UInt16} (hin : InStep h g pc) (hC : ¬ NoUpdateBetweenReads (g, pc) m) :
    OutOfStep h (raceStep now s (g, pc) m).1 (raceStep now s (g, pc) m).2 := by
  simp only [NoUpdateBetweenReads, not_forall, not_not] at hC
  obtain ⟨h', e, wire, pid, status, hpc, rfl, hp⟩ := hC
  obtain rfl : pc = .readRelease h' e wire := hpc
  obtain ⟨rfl, hh, rfl⟩ := hin
  have hu : taskPoolUpdateByPid g pid (childStatus status) e =
      { g e with status := childStatus status } := by
    rcases taskPoolUpdateByPid_cases g pid (childStatus status) with ⟨j, hj, hu⟩ | ⟨hnone, -⟩
    · obtain rfl := Option.some.inj (hj.symm.trans hp)
      rw [hu, Function.update_self]
    · exact absurd (hp.symm.trans hnone) nofun
  refine ⟨rfl, hh.update pid status, by rw [(pendingWithPid_some hp).2]; rfl, ?_⟩
  dsimp only [raceStep]
  rw [hu]
  exact childStatus_ne_pending status

theorem outOfStep_step {h : UInt32} {g : TaskPool} {pc : QueryPc} {now : ℤ} {s : UInt16}
    (hout : OutOfStep h g pc) (m : QueryMove) :
    OutOfStep h (raceStep now s (g, pc) m).1 (raceStep now s (g, pc) m).2 := by
  cases m with
  | query =>
    cases pc with
    | readRelease h' e wire =>
      obtain ⟨rfl, hh, rfl, hp⟩ := hout
      rw [raceStep, queryStep_readRelease, if_pos hp]
      exact ⟨rfl, hh, rfl⟩
    | free h' e wire =>
      obtain ⟨rfl, hh, rfl⟩ := hout
      refine ⟨rfl, ?_⟩
      simp [raceStep, queryStep, hh.free]
    | answered wire e => exact hout
    | _ => exact hout.elim
  | update pid status =>
    cases pc with
    | readRelease h' e wire =>
      obtain ⟨rfl, hh, rfl, hp⟩ := hout
      refine ⟨rfl, hh.update pid status, rfl, ?_⟩
      dsimp only [raceStep]
      rw [updateByPid_other]
      · exact hp
      · exact fun hpid => hp (pendingWithPid_some hpid).2
    | free h' e wire =>
      obtain ⟨rfl, hh, rfl⟩ := hout
      exact ⟨rfl, hh.update pid status, rfl⟩
    | answered wire e =>
      cases e with
      | none => exact hout.elim
      | some e =>
        refine ⟨hout.1, ?_⟩
        dsimp only [raceStep]
        rw [(updateByPid_same g pid status e).2]
        exact hout.2
    | _ => exact hout.elim

theorem OutOfStep.not_released {h : UInt32} {g : TaskPool} {wire : UInt8}
    {e : Option (Fin taskPoolSize)} (hout : OutOfStep h g (.answered wire e)) :
    ¬ ReleasedIffTerminal h g (.answered wire e) := by
  intro hrel
  cases e with
  | none => exact hout
  | some e =>
    obtain ⟨rfl, hempty⟩ := hout
    exact absurd (hrel.1.mp hempty) (by decide)

/-- The query for `h` in session `s`, from its sweep on, along a schedule. -/
def raceAfter (es : List PoolEvent) (now : ℤ) (s : UInt16) (h : UInt32) (ms : List QueryMove) :
    TaskPool × QueryPc :=
  ms.foldl (raceStep now s) (poolAfter es, .sweep h)

/-- CORRECT (exact): a finished query has released its task exactly when it answered with a terminal
    status, if and only if no update settled the task between its two reads of the status. -/
theorem query_release_iff (es : List PoolEvent) (now : ℤ) (s : UInt16) (h : UInt32)
    (ms : List QueryMove) (wire : UInt8) (e : Option (Fin taskPoolSize))
    (hdone : (raceAfter es now s h ms).2 = .answered wire e) :
    ReleasedIffTerminal h (raceAfter es now s h ms).1 (raceAfter es now s h ms).2 ↔
      Runs.StepsMeet (Runs.always (raceStep now s)) NoUpdateBetweenReads
        (poolAfter es, .sweep h) ms := by
  refine Runs.end_iff_steps (I := fun q : TaskPool × QueryPc => PoolOk q.1 ∧ InStep h q.1 q.2)
    (B := fun q : TaskPool × QueryPc => OutOfStep h q.1 q.2)
    (P := fun q : TaskPool × QueryPc => ReleasedIffTerminal h q.1 q.2) (L := fun _ => True)
    ?_ ?_ ?_ ?_ (fun _ _ => trivial) (Runs.run_always _ _ _) ?_ ?_
  · exact ⟨poolAfter_ok es, rfl⟩
  · rintro ⟨g, pc⟩ m _ - ⟨hok, hin⟩ hC ⟨⟩
    refine ⟨raceStep_ok hok now s pc m, ?_⟩
    cases m with
    | query => exact inStep_query hok hin
    | update pid status => exact inStep_update hin hC
  · rintro ⟨g, pc⟩ m _ - ⟨-, hin⟩ hC ⟨⟩
    exact outOfStep_of_update hin hC
  · rintro ⟨g, pc⟩ m _ - hout ⟨⟩
    exact outOfStep_step hout m
  · rintro ⟨-, hin⟩
    change InStep h _ (raceAfter es now s h ms).2 at hin
    rw [hdone] at hin ⊢
    exact hin
  · intro hout hrel
    change OutOfStep h _ (raceAfter es now s h ms).2 at hout
    change ReleasedIffTerminal h _ (raceAfter es now s h ms).2 at hrel
    rw [hdone] at hout hrel
    exact hout.not_released hrel

/-- The child of the task exits before the first read. -/
def exitBefore : List QueryMove := [.query, .query, .update 100 (.exited 0), .query, .query, .query]

/-- The child exits between the two reads. -/
def exitBetween : List QueryMove := [.query, .query, .query, .update 100 (.exited 0), .query, .query]

theorem query_release_iff_exitBefore :
    ReleasedIffTerminal 0x00010001 (raceAfter oneRestart 1 1 0x00010001 exitBefore).1
      (raceAfter oneRestart 1 1 0x00010001 exitBefore).2 ↔
    Runs.StepsMeet (Runs.always (raceStep 1 1)) NoUpdateBetweenReads
      (poolAfter oneRestart, .sweep 0x00010001) exitBefore :=
  query_release_iff oneRestart 1 1 0x00010001 exitBefore 0x01 (some 0) (by decide +kernel)

/-- The query answers Pending and releases the task. -/
theorem pending_and_released :
    (raceAfter oneRestart 1 1 0x00010001 exitBetween).2 = .answered 0x00 (some 0) ∧
    (raceAfter oneRestart 1 1 0x00010001 exitBetween).1 0 = zeroEntry ∧
    ¬ ReleasedIffTerminal 0x00010001 (raceAfter oneRestart 1 1 0x00010001 exitBetween).1
      (raceAfter oneRestart 1 1 0x00010001 exitBetween).2 := by
  have hpc : (raceAfter oneRestart 1 1 0x00010001 exitBetween).2 = .answered 0x00 (some 0) := by
    decide +kernel
  have hslot : (raceAfter oneRestart 1 1 0x00010001 exitBetween).1 0 = zeroEntry := by
    decide +kernel
  refine ⟨hpc, hslot, ?_⟩
  rw [hpc]
  refine OutOfStep.not_released ⟨rfl, ?_⟩
  rw [hslot]
  rfl

end Asys
