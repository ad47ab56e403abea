import Asys.Core.StatusWord
import Asys.Core.TaskPool

/-! # task_query.c: 0x11 TASK_QUERY

    The handler as one call (`handlerTaskQuery`), and the same code cut at its pool calls and at its
    two reads of `e->status` (`queryStep`), between which the reaper may run.
    `handlerTaskQuery_eq_steps` joins the two. -/

namespace Asys
open Words

def qstatusPending : UInt8 := 0x00
def qstatusSuccess : UInt8 := 0x01
def qstatusFailed : UInt8 := 0x02
def qstatusTimeout : UInt8 := 0x03
def qstatusCancelled : UInt8 := 0x04
def qstatusNotFound : UInt8 := 0xFF

def toWire : TaskStatus → UInt8
  | .pending => qstatusPending
  | .success => qstatusSuccess
  | .failed => qstatusFailed
  | .timeout => qstatusTimeout
  | .cancelled => qstatusCancelled
  | .empty => qstatusNotFound

/-- The handle in the first four data bytes. -/
def queryHandle (req : ApduFrame) : UInt32 := be32At req.data 0

/-- `[Status][0x9000]`. -/
def queryResp (wire : UInt8) : List UInt8 := wire :: swWrite swOk

def handlerTaskQuery (env : Env) (g : TaskPool) (req : ApduFrame) (sessionId : UInt16) :
    TaskPool × List UInt8 :=
  if req.dataLen < 4 then (g, swWrite swWrongLen)
  else
    let handle := queryHandle req
    let g := taskPoolSweepTimeouts g env.sweepTime
    match taskPoolFindHandle g handle sessionId with
    | none => (g, queryResp qstatusNotFound)
    | some i =>
      let wire := toWire (g i).status
      if (g i).status ≠ .pending then (taskPoolFree g handle, queryResp wire)
      else (g, queryResp wire)

/-- A plain request for a handle. -/
def queryRequest (handle : UInt32) : ApduFrame :=
  stdFrame 0x00 0x11 0x00 (putU32 handle) (by simp [putU32]) none (by simp)

@[simp] theorem queryRequest_dataLen (handle : UInt32) : (queryRequest handle).dataLen = 4 := rfl

@[simp] theorem queryHandle_queryRequest (handle : UInt32) :
    queryHandle (queryRequest handle) = handle := by
  have hback := be32At_putU32 handle []
  rwa [List.append_nil] at hback

/-- Every way through the handler. -/
inductive QueryCase (env : Env) (g : TaskPool) (req : ApduFrame) (s : UInt16) :
    TaskPool × List UInt8 → Prop where
  | short : req.dataLen < 4 → QueryCase env g req s (g, swWrite swWrongLen)
  | notFound : 4 ≤ req.dataLen →
      taskPoolFindHandle (taskPoolSweepTimeouts g env.sweepTime) (queryHandle req) s = none →
      QueryCase env g req s (taskPoolSweepTimeouts g env.sweepTime, queryResp qstatusNotFound)
  | pending (i : Fin taskPoolSize) : 4 ≤ req.dataLen →
      taskPoolFindHandle (taskPoolSweepTimeouts g env.sweepTime) (queryHandle req) s = some i →
      (sweepEntry env.sweepTime (g i)).status = .pending →
      QueryCase env g req s (taskPoolSweepTimeouts g env.sweepTime, queryResp qstatusPending)
  | terminal (i : Fin taskPoolSize) : 4 ≤ req.dataLen →
      taskPoolFindHandle (taskPoolSweepTimeouts g env.sweepTime) (queryHandle req) s = some i →
      (sweepEntry env.sweepTime (g i)).status ≠ .pending →
      QueryCase env g req s
        (taskPoolFree (taskPoolSweepTimeouts g env.sweepTime) (queryHandle req),
          queryResp (toWire (sweepEntry env.sweepTime (g i)).status))

theorem handlerTaskQuery_cases (env : Env) (g : TaskPool) (req : ApduFrame) (s : UInt16) :
    QueryCase env g req s (handlerTaskQuery env g req s) := by
  rw [handlerTaskQuery]
  by_cases hlen : req.dataLen < 4
  · rw [if_pos hlen]
    exact .short hlen
  · rw [if_neg hlen]
    dsimp only
    cases hfind : taskPoolFindHandle (taskPoolSweepTimeouts g env.sweepTime) (queryHandle req) s with
    | none => exact .notFound (not_lt.mp hlen) hfind
    | some i =>
      dsimp only
      by_cases hp : (taskPoolSweepTimeouts g env.sweepTime i).status = .pending
      · rw [if_neg (not_not.mpr hp), hp]
        exact .pending i (not_lt.mp hlen) hfind hp
      · rw [if_pos hp]
        exact .terminal i (not_lt.mp hlen) hfind hp

/-- What the handler can do to one slot: its own sweep, and then a release. -/
theorem handlerTaskQuery_apply (env : Env) (g : TaskPool) (req : ApduFrame) (s : UInt16)
    (i : Fin taskPoolSize) :
    (req.dataLen < 4 ∧ (handlerTaskQuery env g req s).1 i = g i) ∨
    (4 ≤ req.dataLen ∧ ((handlerTaskQuery env g req s).1 i = sweepEntry env.sweepTime (g i) ∨
      (handlerTaskQuery env g req s).1 i = zeroEntry)) := by
  have hc := handlerTaskQuery_cases env g req s
  generalize handlerTaskQuery env g req s = out at hc ⊢
  cases hc with
  | short hshort => exact Or.inl ⟨hshort, rfl⟩
  | notFound hlen _ => exact Or.inr ⟨hlen, Or.inl rfl⟩
  | pending j hlen _ _ => exact Or.inr ⟨hlen, Or.inl rfl⟩
  | terminal j hlen _ _ =>
    refine Or.inr ⟨hlen, ?_⟩
    rcases taskPoolFree_cases (taskPoolSweepTimeouts g env.sweepTime) (queryHandle req) with
      ⟨k, -, -, hf⟩ | ⟨-, hf⟩
    · rcases eq_or_ne i k with rfl | hik
      · exact Or.inr (by simp [hf])
      · exact Or.inl (by simp [hf, Function.update_of_ne hik])
    · exact Or.inl (by simp [hf])

/-! ### The steps of the handler, one at a time -/

/-- Where a thread stands in the handler once the handle is read: the next access to the pool it
    will make, or the status byte it has put in the response with the entry it found. -/
inductive QueryPc where
  | sweep (handle : UInt32)
  | find (handle : UInt32)
  /-- about to read `e->status` for the response -/
  | readWire (handle : UInt32) (e : Fin taskPoolSize)
  /-- about to read `e->status` for the release -/
  | readRelease (handle : UInt32) (e : Fin taskPoolSize) (wire : UInt8)
  | free (handle : UInt32) (e : Fin taskPoolSize) (wire : UInt8)
  | answered (wire : UInt8) (e : Option (Fin taskPoolSize))
  deriving DecidableEq, Repr

/-- The next access of a thread in the handler; `now` is what `time(NULL)` returns to its sweep. -/
def queryStep (now : ℤ) (sessionId : UInt16) (g : TaskPool) : QueryPc → TaskPool × QueryPc
  | .sweep h => (taskPoolSweepTimeouts g now, .find h)
  | .find h =>
    match taskPoolFindHandle g h sessionId with
    | none => (g, .answered qstatusNotFound none)
    | some e => (g, .readWire h e)
  | .readWire h e => (g, .readRelease h e (toWire (g e).status))
  | .readRelease h e wire =>
    if (g e).status ≠ .pending then (g, .free h e wire) else (g, .answered wire (some e))
  | .free h e wire => (taskPoolFree g h, .answered wire (some e))
  | .answered wire e => (g, .answered wire e)

theorem queryStep_find (now : ℤ) (s : UInt16) (g : TaskPool) (h : UInt32) :
    queryStep now s g (.find h) =
      match taskPoolFindHandle g h s with
      | none => (g, .answered qstatusNotFound none)
      | some e => (g, .readWire h e) := rfl

theorem queryStep_find_some (now : ℤ) {s : UInt16} {g : TaskPool} {h : UInt32}
    {e : Fin taskPoolSize} (hf : taskPoolFindHandle g h s = some e) :
    queryStep now s g (.find h) = (g, .readWire h e) := by
  rw [queryStep_find, hf]

theorem queryStep_readWire (now : ℤ) (s : UInt16) (g : TaskPool) (h : UInt32)
    (e : Fin taskPoolSize) :
    queryStep now s g (.readWire h e) = (g, .readRelease h e (toWire (g e).status)) := rfl

theorem queryStep_readRelease (now : ℤ) (s : UInt16) (g : TaskPool) (h : UInt32)
    (e : Fin taskPoolSize) (wire : UInt8) : queryStep now s g (.readRelease h e wire) =
      if (g e).status ≠ .pending then (g, .free h e wire) else (g, .answered wire (some e)) := rfl

/-- Undisturbed, the steps of the handler are the handler. -/
theorem handlerTaskQuery_eq_steps (env : Env) (g : TaskPool) (req : ApduFrame) (s : UInt16)
    (hlen : 4 ≤ req.dataLen) :
    ∃ wire e, (handlerTaskQuery env g req s).2 = queryResp wire ∧
      (fun q : TaskPool × QueryPc => queryStep env.sweepTime s q.1 q.2)^[5]
        (g, .sweep (queryHandle req)) = ((handlerTaskQuery env g req s).1, .answered wire e) := by
  have hc := handlerTaskQuery_cases env g req s
  generalize handlerTaskQuery env g req s = out at hc
  simp only [Function.iterate_succ_apply, Function.iterate_zero, id_eq]
  have hsweep : queryStep env.sweepTime s g (.sweep (queryHandle req)) =
      (taskPoolSweepTimeouts g env.sweepTime, .find (queryHandle req)) := rfl
  rw [hsweep]
  cases hc with
  | short hshort => omega
  | notFound _ hfind =>
    rw [queryStep_find, hfind]
    exact ⟨_, none, rfl, rfl⟩
  | pending i _ hfind hp =>
    rw [queryStep_find_some _ hfind]
    refine ⟨_, some i, rfl, ?_⟩
    simp only [queryStep_readWire, queryStep_readRelease, taskPoolSweepTimeouts_apply, hp]
    rfl
  | terminal i _ hfind hp =>
    rw [queryStep_find_some _ hfind]
    refine ⟨_, some i, rfl, ?_⟩
    have hp' : (taskPoolSweepTimeouts g env.sweepTime i).status ≠ .pending := hp
    simp only [queryStep_readWire, queryStep_readRelease, if_pos hp']
    rfl

end Asys
