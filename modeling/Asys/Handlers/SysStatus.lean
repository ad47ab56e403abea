import Asys.Core.StatusWord

/-! # sys_status.c: 0x02 SYS_STATUS

    A snapshot is kept for half a second. What the readers of /proc return for a new one is an
    argument of the call. -/

namespace Asys
open Words

def refreshIntervalMs : UInt64 := 500

structure StatusSnap where
  load1X10 : UInt8
  load5X10 : UInt8
  cpuPct : UInt8
  memAvailMb : UInt32
  rootUsagePct : UInt8
  iowaitMs : UInt32
  inMbps : UInt16
  outMbps : UInt16
  rpi : UInt8
  deriving DecidableEq, Repr

/-- `g_snap` and `g_snap_time_ms`; the time is 0 before the first sample. -/
structure StatusCache where
  snap : StatusSnap
  timeMs : UInt64

/-- What a call reads: the clock before and after a refresh, and the sample. -/
structure StatusReading where
  now : UInt64
  sample : StatusSnap
  sampledAt : UInt64

/-- The cache the answer is taken from. -/
def statusRefresh (cache : StatusCache) (r : StatusReading) : StatusCache :=
  if cache.timeMs = 0 ∨ refreshIntervalMs ≤ r.now - cache.timeMs then ⟨r.sample, r.sampledAt⟩
  else cache

def statusResp (s : StatusSnap) : List UInt8 :=
  [s.load1X10, s.load5X10, s.cpuPct] ++ putU32 s.memAvailMb ++ [s.rootUsagePct] ++
    putU32 s.iowaitMs ++ putU16 s.inMbps ++ putU16 s.outMbps ++ [s.rpi] ++ [0, 0, 0, 0] ++ swWrite swOk

def handlerSysStatus (cache : StatusCache) (r : StatusReading) : StatusCache × List UInt8 :=
  let cache' := statusRefresh cache r
  (cache', statusResp cache'.snap)

end Asys
