import Asys.Core.StatusWord
import Asys.Core.TaskPool

/-! # svc_restart.c: 0x22 SVC_RESTART

    The handler as one call (`handlerSvcRestart`), and the same code cut at its pool calls and at
    `fork` (`restartStep`), for the client threads that run it side by side on one pool.
    `handlerSvcRestart_eq_steps` joins the two. -/

namespace Asys
open Words

def offSvcName : ℕ := 4
def minDataLen : ℕ := 5

/-- The characters of a service name: `[a-z0-9_.-]`. -/
def svcNameChar (c : UInt8) : Bool :=
  (0x61 ≤ c ∧ c ≤ 0x7A) ∨ (0x30 ≤ c ∧ c ≤ 0x39) ∨ c = 0x5F ∨ c = 0x2D ∨ c = 0x2E

/-- The bytes of `".service"`. -/
def serviceSuffix : List UInt8 := [0x2E, 0x73, 0x65, 0x72, 0x76, 0x69, 0x63, 0x65]

def svcNameValid (name : List UInt8) : Bool :=
  if name.length < 1 ∨ taskSvcNameMax < name.length then false
  else if ¬ name.all svcNameChar then false
  else if 8 < name.length ∧ name.drop (name.length - 8) = serviceSuffix then false
  else true

/-- The argument of `systemctl restart`: `snprintf(svc_full, 73, "%s.service", name_buf)`. -/
def svcFull (nameBuf : List UInt8) : List UInt8 :=
  (cString nameBuf ++ serviceSuffix).take (taskSvcNameMax + 8)

/-- A response with a handle: four bytes and 0x9000. -/
def handleResp (handle : UInt32) : List UInt8 := putU32 handle ++ swWrite swOk

/-- The status word for a failed `fork`. -/
def forkFailed : Errno → UInt16
  | .enomem => swSysErrNomem
  | _ => swSysErr

def handlerSvcRestart (env : Env) (g : TaskPool) (req : ApduFrame) (sessionId : UInt16) :
    TaskPool × List Effect × List UInt8 :=
  if req.sec ≠ apduSecSigned then (g, [], swWrite swAccessDenied)
  else if req.dataLen < minDataLen then (g, [], swWrite swWrongLen)
  else
    let name := req.data.drop offSvcName
    if svcNameValid name = false then (g, [], swWrite swWrongData)
    else
      let nameBuf := name ++ [0]
      let g := taskPoolSweepTimeouts g env.sweepTime
      let handle := taskPoolFindPending g sessionId nameBuf
      if handle ≠ 0 then (g, [], handleResp handle)
      else if taskPoolAvailable g = false then (g, [], swWrite swBlocked)
      else
        match env.fork with
        | .error errno => (g, [.fork env.fork (svcFull nameBuf)], swWrite (forkFailed errno))
        | .child pid =>
          let (g, handle) := taskPoolAlloc g sessionId nameBuf pid env.rand env.allocTime
          if handle = 0 then (g, [.fork env.fork (svcFull nameBuf)], swWrite swBlocked)
          else (g, [.fork env.fork (svcFull nameBuf)], handleResp handle)

/-! ### The calls of the handler, one at a time -/

/-- Where a thread stands in the handler once the name is copied: the next call it will make, or the
    response it has written together with the child it forked, if it did. -/
inductive RestartPc where
  | sweep (nameBuf : List UInt8)
  | findPending (nameBuf : List UInt8)
  | available (nameBuf : List UInt8)
  | fork (nameBuf : List UInt8)
  | alloc (nameBuf : List UInt8) (pid : ℤ)
  | answered (resp : List UInt8) (child : Option ℤ)
  deriving DecidableEq, Repr

/-- The next call of a thread in the handler. -/
def restartStep (env : Env) (sessionId : UInt16) (g : TaskPool) :
    RestartPc → TaskPool × RestartPc
  | .sweep n => (taskPoolSweepTimeouts g env.sweepTime, .findPending n)
  | .findPending n =>
    let handle := taskPoolFindPending g sessionId n
    if handle ≠ 0 then (g, .answered (handleResp handle) none) else (g, .available n)
  | .available n =>
    if taskPoolAvailable g = false then (g, .answered (swWrite swBlocked) none) else (g, .fork n)
  | .fork n =>
    match env.fork with
    | .error errno => (g, .answered (swWrite (forkFailed errno)) none)
    | .child pid => (g, .alloc n pid)
  | .alloc n pid =>
    let (g', handle) := taskPoolAlloc g sessionId n pid env.rand env.allocTime
    if handle = 0 then (g', .answered (swWrite swBlocked) (some pid))
    else (g', .answered (handleResp handle) (some pid))
  | .answered resp child => (g, .answered resp child)

/-- The request passes the handler's own checks. -/
def RestartForm (req : ApduFrame) : Prop :=
  req.sec = apduSecSigned ∧ minDataLen ≤ req.dataLen ∧
    svcNameValid (req.data.drop offSvcName) = true

instance (req : ApduFrame) : Decidable (RestartForm req) := by
  unfold RestartForm; infer_instance

/-- `name_buf` of a request. -/
def nameBuf (req : ApduFrame) : List UInt8 := req.data.drop offSvcName ++ [0]

/-- A signed request for a service, with Seq 1. -/
def restartRequest (name : List UInt8) (h : name.length < 252) : ApduFrame :=
  stdFrame 0x04 0x22 0x00 ([0x00, 0x00, 0x00, 0x01] ++ name) (by simp; omega)
    (some (List.replicate 16 0)) (by simp [apduAuthTagSize])

/-- The same for a service with a name of one letter. -/
def letterRequest (c : UInt8) : ApduFrame := restartRequest [c] (by simp)

theorem svcNameChar_ne_zero {c : UInt8} (h : svcNameChar c = true) : c ≠ 0 := by
  rintro rfl
  revert h
  decide

theorem svcNameValid_spec {name : List UInt8} (h : svcNameValid name = true) :
    name.length ≤ taskSvcNameMax ∧ ∀ c ∈ name, c ≠ 0 := by
  simp only [svcNameValid] at h
  split at h
  · cases h
  rename_i hlen
  split at h
  · cases h
  rename_i hchars
  refine ⟨by omega, fun c hc => svcNameChar_ne_zero ?_⟩
  exact List.all_eq_true.mp (not_not.mp hchars) c hc

/-- The handler behind its checks. -/
theorem handlerSvcRestart_of_form {env : Env} {g : TaskPool} {req : ApduFrame} {s : UInt16}
    (h : RestartForm req) : handlerSvcRestart env g req s =
      (if taskPoolFindPending (taskPoolSweepTimeouts g env.sweepTime) s (nameBuf req) ≠ 0 then
        (taskPoolSweepTimeouts g env.sweepTime, [],
          handleResp (taskPoolFindPending (taskPoolSweepTimeouts g env.sweepTime) s (nameBuf req)))
      else if taskPoolAvailable (taskPoolSweepTimeouts g env.sweepTime) = false then
        (taskPoolSweepTimeouts g env.sweepTime, [], swWrite swBlocked)
      else
        match env.fork with
        | .error errno => (taskPoolSweepTimeouts g env.sweepTime,
            [.fork env.fork (svcFull (nameBuf req))], swWrite (forkFailed errno))
        | .child pid =>
          let (g', handle) := taskPoolAlloc (taskPoolSweepTimeouts g env.sweepTime) s (nameBuf req)
            pid env.rand env.allocTime
          if handle = 0 then (g', [.fork env.fork (svcFull (nameBuf req))], swWrite swBlocked)
          else (g', [.fork env.fork (svcFull (nameBuf req))], handleResp handle)) := by
  obtain ⟨hsec, hlen, hname⟩ := h
  rw [handlerSvcRestart]
  rw [if_neg (not_not.mpr hsec), if_neg (not_lt.mpr hlen)]
  dsimp only
  rw [if_neg (by rw [hname]; decide)]
  rfl

/-- Every way through the handler. -/
inductive RestartCase (env : Env) (g : TaskPool) (req : ApduFrame) (s : UInt16) :
    TaskPool × List Effect × List UInt8 → Prop where
  /-- refused by the checks on Sec, Lc and the name -/
  | rejected (sw : UInt16) : ¬ RestartForm req → sw ≠ swOk → RestartCase env g req s (g, [], swWrite sw)
  /-- the service already has a pending task in the session -/
  | reused (handle : UInt32) : RestartForm req → handle ≠ 0 →
      taskPoolFindPending (taskPoolSweepTimeouts g env.sweepTime) s (nameBuf req) = handle →
      RestartCase env g req s (taskPoolSweepTimeouts g env.sweepTime, [], handleResp handle)
  /-- no slot is free -/
  | full : RestartForm req →
      taskPoolFindPending (taskPoolSweepTimeouts g env.sweepTime) s (nameBuf req) = 0 →
      firstEmpty (taskPoolSweepTimeouts g env.sweepTime) = none →
      RestartCase env g req s (taskPoolSweepTimeouts g env.sweepTime, [], swWrite swBlocked)
  | forkError (errno : Errno) (i : Fin taskPoolSize) : RestartForm req → env.fork = .error errno →
      taskPoolFindPending (taskPoolSweepTimeouts g env.sweepTime) s (nameBuf req) = 0 →
      firstEmpty (taskPoolSweepTimeouts g env.sweepTime) = some i →
      RestartCase env g req s (taskPoolSweepTimeouts g env.sweepTime,
        [.fork (.error errno) (svcFull (nameBuf req))], swWrite (forkFailed errno))
  | started (pid : ℤ) (i : Fin taskPoolSize) : RestartForm req → env.fork = .child pid →
      taskPoolFindPending (taskPoolSweepTimeouts g env.sweepTime) s (nameBuf req) = 0 →
      firstEmpty (taskPoolSweepTimeouts g env.sweepTime) = some i →
      RestartCase env g req s
        (Function.update (taskPoolSweepTimeouts g env.sweepTime) i
          (newEntry s (nameBuf req) pid env.rand env.allocTime),
        [.fork (.child pid) (svcFull (nameBuf req))], handleResp (join16 s (handleRand env.rand)))

theorem handlerSvcRestart_cases (env : Env) (g : TaskPool) (req : ApduFrame) (s : UInt16) :
    RestartCase env g req s (handlerSvcRestart env g req s) := by
  by_cases hform : RestartForm req
  · rw [handlerSvcRestart_of_form hform]
    by_cases hfind : taskPoolFindPending (taskPoolSweepTimeouts g env.sweepTime) s (nameBuf req) = 0
    · rw [if_neg (not_not.mpr hfind)]
      cases hfirst : firstEmpty (taskPoolSweepTimeouts g env.sweepTime) with
      | none =>
        rw [if_pos (by rw [taskPoolAvailable, hfirst]; rfl)]
        exact .full hform hfind hfirst
      | some i =>
        rw [if_neg (by rw [taskPoolAvailable, hfirst]; simp)]
        cases hfork : env.fork with
        | error errno => exact .forkError errno i hform hfork hfind hfirst
        | child pid =>
          dsimp only
          rw [taskPoolAlloc_of_some hfirst]
          dsimp only
          rw [if_neg (join16_ne_zero (handleRand_ne_zero _))]
          exact .started pid i hform hfork hfind hfirst
    · rw [if_pos hfind]
      exact .reused _ hform hfind rfl
  · rw [handlerSvcRestart]
    by_cases hsec : req.sec = apduSecSigned
    · by_cases hlen : minDataLen ≤ req.dataLen
      · have hname : svcNameValid (req.data.drop offSvcName) = false := by
          by_contra hv
          exact hform ⟨hsec, hlen, by simpa using hv⟩
        rw [if_neg (not_not.mpr hsec), if_neg (not_lt.mpr hlen)]
        dsimp only
        rw [if_pos hname]
        exact .rejected _ hform (by decide)
      · rw [if_neg (not_not.mpr hsec), if_pos (not_le.mp hlen)]
        exact .rejected _ hform (by decide)
    · rw [if_pos hsec]
      exact .rejected _ hform (by decide)

theorem restartStep_sweep (env : Env) (s : UInt16) (g : TaskPool) (n : List UInt8) :
    restartStep env s g (.sweep n) = (taskPoolSweepTimeouts g env.sweepTime, .findPending n) := rfl

theorem restartStep_fork_child {env : Env} {pid : ℤ} (h : env.fork = .child pid) (s : UInt16)
    (g : TaskPool) (n : List UInt8) : restartStep env s g (.fork n) = (g, .alloc n pid) := by
  unfold restartStep
  rw [h]

theorem restartStep_findPending (env : Env) (s : UInt16) (g : TaskPool) (n : List UInt8) :
    restartStep env s g (.findPending n) =
      if taskPoolFindPending g s n ≠ 0 then (g, .answered (handleResp (taskPoolFindPending g s n)) none)
      else (g, .available n) := rfl

theorem restartStep_available (env : Env) (s : UInt16) (g : TaskPool) (n : List UInt8) :
    restartStep env s g (.available n) =
      if taskPoolAvailable g = false then (g, .answered (swWrite swBlocked) none)
      else (g, .fork n) := rfl

/-- `task_pool_alloc` behind the fork: a slot and its handle, or a child without a slot. -/
theorem restartStep_alloc_cases (env : Env) (s : UInt16) (g : TaskPool) (n : List UInt8) (pid : ℤ) :
    (∃ i, firstEmpty g = some i ∧ restartStep env s g (.alloc n pid) =
      (Function.update g i (newEntry s n pid env.rand env.allocTime),
        .answered (handleResp (join16 s (handleRand env.rand))) (some pid))) ∨
    (firstEmpty g = none ∧
      restartStep env s g (.alloc n pid) = (g, .answered (swWrite swBlocked) (some pid))) := by
  rcases taskPoolAlloc_cases g s n pid env.rand env.allocTime with ⟨i, hi, ha⟩ | ⟨hnone, ha⟩
  · refine Or.inl ⟨i, hi, ?_⟩
    unfold restartStep
    dsimp only
    rw [ha]
    dsimp only
    rw [if_neg (join16_ne_zero (handleRand_ne_zero _))]
  · refine Or.inr ⟨hnone, ?_⟩
    unfold restartStep
    dsimp only
    rw [ha]
    dsimp only
    rw [if_pos rfl]

/-- The part of the handler behind its checks is the run of its calls. -/
theorem handlerSvcRestart_eq_steps (env : Env) (g : TaskPool) (req : ApduFrame) (s : UInt16)
    (h : RestartForm req) :
    ∃ child, (fun q : TaskPool × RestartPc => restartStep env s q.1 q.2)^[5]
        (g, .sweep (nameBuf req)) =
      ((handlerSvcRestart env g req s).1,
        .answered (handlerSvcRestart env g req s).2.2 child) := by
  have hc := handlerSvcRestart_cases env g req s
  generalize handlerSvcRestart env g req s = out at hc
  simp only [Function.iterate_succ_apply, Function.iterate_zero, id_eq]
  rw [restartStep_sweep, restartStep_findPending]
  cases hc with
  | rejected sw hno => exact absurd h hno
  | reused handle _ hne hfind =>
    rw [hfind, if_pos hne]
    exact ⟨none, rfl⟩
  | full _ hfind hfirst =>
    rw [hfind, if_neg (by simp), restartStep_available,
      if_pos (by rw [taskPoolAvailable, hfirst]; rfl)]
    exact ⟨none, rfl⟩
  | forkError errno i _ hfork hfind hfirst =>
    rw [hfind, if_neg (by simp), restartStep_available,
      if_neg (by rw [taskPoolAvailable, hfirst]; simp)]
    have hstep : restartStep env s (taskPoolSweepTimeouts g env.sweepTime) (.fork (nameBuf req)) =
        (taskPoolSweepTimeouts g env.sweepTime, .answered (swWrite (forkFailed errno)) none) := by
      unfold restartStep
      rw [hfork]
    rw [hstep]
    exact ⟨none, rfl⟩
  | started pid i _ hfork hfind hfirst =>
    rw [hfind, if_neg (by simp), restartStep_available,
      if_neg (by rw [taskPoolAvailable, hfirst]; simp)]
    rw [restartStep_fork_child hfork]
    rcases restartStep_alloc_cases env s (taskPoolSweepTimeouts g env.sweepTime) (nameBuf req) pid
      with ⟨j, hj, ha⟩ | ⟨hnone, -⟩
    · obtain rfl : i = j := Option.some.inj (hfirst.symm.trans hj)
      exact ⟨some pid, ha⟩
    · rw [hnone] at hfirst
      cases hfirst

/-- The handler only acts on signed frames. -/
theorem handlerSvcRestart_signed {env : Env} {g : TaskPool} {req : ApduFrame} {s : UInt16}
    {e : Effect} (h : e ∈ (handlerSvcRestart env g req s).2.1) : req.sec = apduSecSigned := by
  have hc := handlerSvcRestart_cases env g req s
  generalize handlerSvcRestart env g req s = out at h hc
  cases hc with
  | rejected sw hno => simp at h
  | reused handle hform => exact hform.1
  | full hform => exact hform.1
  | forkError errno i hform => exact hform.1
  | started pid i hform => exact hform.1

theorem handlerSvcRestart_effects_le (env : Env) (g : TaskPool) (req : ApduFrame) (s : UInt16) :
    (handlerSvcRestart env g req s).2.1.length ≤ 1 := by
  have hc := handlerSvcRestart_cases env g req s
  generalize handlerSvcRestart env g req s = out at hc
  cases hc <;> simp

/-- What the handler can do to one slot: its own sweep, then at most one fresh entry. -/
theorem handlerSvcRestart_apply (env : Env) (g : TaskPool) (req : ApduFrame) (s : UInt16)
    (i : Fin taskPoolSize) :
    (¬ RestartForm req ∧ (handlerSvcRestart env g req s).1 i = g i) ∨
    (RestartForm req ∧ ((handlerSvcRestart env g req s).1 i = sweepEntry env.sweepTime (g i) ∨
      ∃ pid, (sweepEntry env.sweepTime (g i)).status = .empty ∧
        (handlerSvcRestart env g req s).1 i =
          newEntry s (nameBuf req) pid env.rand env.allocTime)) := by
  have hc := handlerSvcRestart_cases env g req s
  generalize handlerSvcRestart env g req s = out at hc ⊢
  cases hc with
  | rejected sw hno => exact Or.inl ⟨hno, rfl⟩
  | reused handle hform => exact Or.inr ⟨hform, Or.inl rfl⟩
  | full hform => exact Or.inr ⟨hform, Or.inl rfl⟩
  | forkError errno i hform => exact Or.inr ⟨hform, Or.inl rfl⟩
  | started pid j hform hfork hfind hfirst =>
    refine Or.inr ⟨hform, ?_⟩
    rcases eq_or_ne i j with rfl | hij
    · exact Or.inr ⟨pid, firstEmpty_some hfirst, by simp⟩
    · exact Or.inl (by simp [Function.update_of_ne hij])

/-- The slot in which the handler records a new task, if it records one. -/
def restartSlot (env : Env) (g : TaskPool) (req : ApduFrame) (sessionId : UInt16) :
    Option (Fin taskPoolSize) :=
  if RestartForm req ∧
      taskPoolFindPending (taskPoolSweepTimeouts g env.sweepTime) sessionId (nameBuf req) = 0 then
    match env.fork with
    | .child _ => firstEmpty (taskPoolSweepTimeouts g env.sweepTime)
    | .error _ => none
  else none

/-- The handler records one task behind its sweep, or it leaves the swept or the given pool. -/
theorem restartSlot_cases (env : Env) (g : TaskPool) (req : ApduFrame) (s : UInt16) :
    (∃ i pid, restartSlot env g req s = some i ∧
      (sweepEntry env.sweepTime (g i)).status = .empty ∧
      (handlerSvcRestart env g req s).1 = Function.update (taskPoolSweepTimeouts g env.sweepTime) i
        (newEntry s (nameBuf req) pid env.rand env.allocTime)) ∨
    (restartSlot env g req s = none ∧ ((handlerSvcRestart env g req s).1 = g ∨
      (handlerSvcRestart env g req s).1 = taskPoolSweepTimeouts g env.sweepTime)) := by
  have hc := handlerSvcRestart_cases env g req s
  generalize handlerSvcRestart env g req s = out at hc ⊢
  simp only [restartSlot]
  cases hc with
  | rejected sw hno =>
    exact Or.inr ⟨by rw [if_neg (fun h => hno h.1)], Or.inl rfl⟩
  | reused handle _ hne hfind =>
    exact Or.inr ⟨by rw [if_neg (fun h => hne (hfind.symm.trans h.2))], Or.inr rfl⟩
  | full hform hfind hfirst =>
    refine Or.inr ⟨?_, Or.inr rfl⟩
    rw [if_pos ⟨hform, hfind⟩, hfirst]
    cases env.fork <;> rfl
  | forkError errno i hform hfork hfind hfirst =>
    exact Or.inr ⟨by rw [if_pos ⟨hform, hfind⟩, hfork], Or.inr rfl⟩
  | started pid i hform hfork hfind hfirst =>
    exact Or.inl ⟨i, pid, by rw [if_pos ⟨hform, hfind⟩, hfork]; exact hfirst,
      firstEmpty_some hfirst, rfl⟩

end Asys
