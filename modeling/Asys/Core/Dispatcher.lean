import Asys.Handlers.ProcThrottle
import Asys.Handlers.SvcRestart
import Asys.Handlers.TaskQuery
import Asys.Handlers.SysInfo
import Asys.Handlers.SysStatus
import Asys.Handlers.SysProcs

/-! # dispatcher.c: from the instruction byte to its handler

    `dispatch` is always given a response buffer of `DISP_RESP_MAX` bytes, so the size checks with
    which the handlers begin pass, and no handler returns a negative length. -/

namespace Asys
open Words

/-- The static data of the handlers, shared by all connections. -/
structure Statics where
  pool : TaskPool
  status : StatusCache
  procs : ProcsState

/-- What the SYS_* handlers would read of the node during one call. -/
structure NodeReading where
  hello : HelloReading
  caps : CapsReading
  status : StatusReading
  procs : ProcsReading

inductive Handler where
  | sysCaps | sysHello | sysStatus | sysProcs | taskQuery | procThrottle | svcRestart
  deriving DecidableEq, Repr

def coreTable (ins : UInt8) : Option Handler :=
  if ins = 0x00 then some .sysCaps
  else if ins = 0x01 then some .sysHello
  else if ins = 0x02 then some .sysStatus
  else if ins = 0x03 then some .sysProcs
  else if ins = 0x11 then some .taskQuery
  else none

def standardTable (ins : UInt8) : Option Handler :=
  if ins = 0x00 then some .procThrottle
  else if ins = 0x02 then some .svcRestart
  else none

def inCapsBitmap (ins : UInt8) : Bool :=
  if ins ≤ 0x1F then (coreCapsBitmap >>> ins.toUInt32) &&& 1 ≠ 0
  else if ins ≤ 0x3F then (extCapsBitmap >>> (ins - 0x20).toUInt32) &&& 1 ≠ 0
  else false

def handlerOf (ins : UInt8) : Option Handler :=
  if ins ≤ 0x1F then coreTable ins
  else if ins ≤ 0x2F then standardTable (ins - 0x20)
  else none

/-- What a call leaves behind: the static data, the effects and the response. -/
abbrev Dispatched := Statics × List Effect × List UInt8

def runHandler (env : Env) (node : NodeReading) (g : Statics) (req : ApduFrame)
    (sessionId : UInt16) : Handler → Dispatched
  | .sysCaps => (g, [], handlerSysCaps node.caps)
  | .sysHello => (g, [], handlerSysHello node.hello)
  | .sysStatus =>
    let (status, resp) := handlerSysStatus g.status node.status
    ({ g with status := status }, [], resp)
  | .sysProcs =>
    let (procs, resp) := handlerSysProcs g.procs node.procs
    ({ g with procs := procs }, [], resp)
  | .taskQuery =>
    let (pool, resp) := handlerTaskQuery env g.pool req sessionId
    ({ g with pool := pool }, [], resp)
  | .procThrottle =>
    let (effects, resp) := handlerProcThrottle env req
    (g, effects, resp)
  | .svcRestart =>
    let (pool, effects, resp) := handlerSvcRestart env g.pool req sessionId
    ({ g with pool := pool }, effects, resp)

def dispatch (env : Env) (node : NodeReading) (g : Statics) (req : ApduFrame)
    (sessionId : UInt16) : Dispatched :=
  if inCapsBitmap req.ins = false then (g, [], swWrite swNotFound)
  else
    match handlerOf req.ins with
    | none => (g, [], swWrite swNotSupported)
    | some h => runHandler env node g req sessionId h

/-- The instructions in the bitmap are those with a handler, so 0x6D00 is never sent. -/
theorem inCapsBitmap_iff (ins : UInt8) : inCapsBitmap ins = true ↔ (handlerOf ins).isSome := by
  have hall : ∀ n : Fin 256, inCapsBitmap (UInt8.ofNat n.val) = true ↔
      (handlerOf (UInt8.ofNat n.val)).isSome := by decide +kernel
  simpa using hall ⟨ins.toNat, ins.toNat_lt⟩

/-- The instruction byte of a handler. -/
def Handler.ins : Handler → UInt8
  | .sysCaps => 0x00
  | .sysHello => 0x01
  | .sysStatus => 0x02
  | .sysProcs => 0x03
  | .taskQuery => 0x11
  | .procThrottle => 0x20
  | .svcRestart => 0x22

/-- Each handler is found under its own byte only. -/
theorem handlerOf_iff {ins : UInt8} {h : Handler} : handlerOf ins = some h ↔ ins = h.ins := by
  have hall : ∀ n : Fin 256, handlerOf (UInt8.ofNat n.val) = some h ↔
      UInt8.ofNat n.val = h.ins := by
    cases h <;> decide +kernel
  simpa using hall ⟨ins.toNat, ins.toNat_lt⟩

/-- A request that finds its handler, or is not in the bitmap. -/
theorem dispatch_cases (env : Env) (node : NodeReading) (g : Statics) (req : ApduFrame)
    (s : UInt16) :
    (handlerOf req.ins = none ∧ dispatch env node g req s = (g, [], swWrite swNotFound)) ∨
    ∃ h, handlerOf req.ins = some h ∧ dispatch env node g req s = runHandler env node g req s h := by
  simp only [dispatch]
  cases hh : handlerOf req.ins with
  | none =>
    have hmiss : inCapsBitmap req.ins = false := by
      rw [← Bool.not_eq_true, inCapsBitmap_iff, hh]
      decide
    exact Or.inl ⟨rfl, by rw [if_pos hmiss]⟩
  | some h =>
    have hin : inCapsBitmap req.ins = true := (inCapsBitmap_iff _).mpr (by rw [hh]; rfl)
    exact Or.inr ⟨h, rfl, by rw [hin]; rfl⟩

theorem dispatch_of_ins (env : Env) (node : NodeReading) (g : Statics) {req : ApduFrame}
    {h : Handler} (hins : req.ins = h.ins) (s : UInt16) :
    dispatch env node g req s = runHandler env node g req s h := by
  have hh := handlerOf_iff.mpr hins
  rcases dispatch_cases env node g req s with ⟨hnone, -⟩ | ⟨h', hh', heq⟩
  · rw [hnone] at hh
    cases hh
  · obtain rfl := Option.some.inj (hh.symm.trans hh')
    exact heq

/-- Only PROC_THROTTLE and SVC_RESTART act on the node, and only for a signed frame. -/
theorem dispatch_signed {env : Env} {node : NodeReading} {g : Statics} {req : ApduFrame} {s : UInt16}
    {e : Effect} (h : e ∈ (dispatch env node g req s).2.1) : req.sec = apduSecSigned := by
  rcases dispatch_cases env node g req s with ⟨-, hd⟩ | ⟨hd, -, heq⟩
  · rw [hd] at h
    exact absurd h List.not_mem_nil
  · rw [heq] at h
    cases hd with
    | procThrottle => exact handlerProcThrottle_signed h
    | svcRestart => exact handlerSvcRestart_signed h
    | _ => exact absurd h List.not_mem_nil

theorem dispatch_effects_le (env : Env) (node : NodeReading) (g : Statics) (req : ApduFrame)
    (s : UInt16) : (dispatch env node g req s).2.1.length ≤ 1 := by
  rcases dispatch_cases env node g req s with ⟨-, hd⟩ | ⟨hd, -, heq⟩
  · rw [hd]
    exact Nat.zero_le _
  · rw [heq]
    cases hd with
    | procThrottle => exact handlerProcThrottle_effects_le env req
    | svcRestart => exact handlerSvcRestart_effects_le env g.pool req s
    | _ => exact Nat.zero_le _

end Asys
