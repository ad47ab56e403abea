import Asys.Core.ApduParser

/-! # dispatcher.h: status words, response buffers, and what a handler asks of the kernel

    A handler's response is the list of the bytes it wrote, so the length it returns is the length
    of the list. The system calls with an effect outside the daemon are recorded as `Effect`s, and
    what the kernel answers to them is part of the environment `Env` of the call. -/

namespace Asys
open Words

def swOk : UInt16 := 0x9000
def swNotFound : UInt16 := 0x6A81
def swAccessDenied : UInt16 := 0x6982
def swNotSupported : UInt16 := 0x6D00
def swWrongData : UInt16 := 0x6A80
def swWrongLen : UInt16 := 0x6700
def swBlocked : UInt16 := 0x6400
def swReplayDetected : UInt16 := 0x6985
def swSysErr : UInt16 := 0x6F00
def swSysErrNomem : UInt16 := 0x6F01

/-- `sw_write`: the two bytes of a status word. -/
def swWrite (sw : UInt16) : List UInt8 := putU16 sw

/-- The status word at the end of a response. -/
def respSw (resp : List UInt8) : List UInt8 := resp.drop (resp.length - 2)

/-- `errno` values a handler distinguishes. -/
inductive Errno where | esrch | einval | eperm | enomem | other
  deriving DecidableEq, Repr

inductive Signal where | sigstop | sigcont
  deriving DecidableEq, Repr

/-- What `fork` returns in the parent: a child's pid, or -1 with an `errno`. -/
inductive ForkResult where
  | child (pid : ℤ)
  | error (errno : Errno)
  deriving DecidableEq, Repr

/-- The system calls of the handlers that act on the node: `kill(pid, sig)`, and `fork` followed in
    the child by `systemctl restart <unit>`. -/
inductive Effect where
  | kill (pid : ℤ) (sig : Signal)
  | fork (result : ForkResult) (unit : List UInt8)
  deriving DecidableEq, Repr

/-- What the clock, the generator and the kernel answer during one handler call. -/
structure Env where
  sweepTime : ℤ
  allocTime : ℤ
  rand : UInt32
  fork : ForkResult
  kill : Option Errno

theorem swWrite_length (sw : UInt16) : (swWrite sw).length = 2 := rfl

theorem swWrite_inj {a b : UInt16} (h : swWrite a = swWrite b) : a = b := by
  have ha := a.toNat_lt
  have hb := b.toNat_lt
  simp only [swWrite, putU16, List.cons.injEq, and_true] at h
  have h1 := congrArg UInt8.toNat h.1
  have h2 := congrArg UInt8.toNat h.2
  simp only [UInt16.toNat_toUInt8, UInt16.toNat_shiftRight, Nat.shiftRight_eq_div_pow,
    UInt16.reduceToNat, Nat.reduceMod] at h1 h2
  exact UInt16.toNat_inj.mp (by omega)

end Asys
