import Mathlib.Logic.Function.Basic
import Asys.Core.StatusWord

/-! # sys_procs.c: 0x03 SYS_PROCS

    Two scans of /proc are compared, the one kept from the call before and the one of this call. What
    a scan finds in the directory is an argument of the call. -/

namespace Asys
open Words

def topN : ℕ := 5
def maxProcsScan : ℕ := 512

structure ProcSnap where
  pid : UInt32
  jiffies : UInt64
  memPct : UInt8
  statusFlag : UInt8
  deriving DecidableEq, Repr

structure ProcInfo where
  pid : UInt32
  delta : UInt64
  memPct : UInt8
  statusFlag : UInt8
  deriving DecidableEq, Repr

/-- `g_prev` with `g_n_prev` and `g_total_prev`, or the same of `g_curr`. `snaps` has the entries
    below the count, and is `none` for the count -1 of a failed scan. -/
structure ProcTable where
  snaps : Option (List ProcSnap)
  total : UInt64

structure ProcsState where
  prev : ProcTable
  curr : ProcTable

/-- A directory of /proc whose name starts with a digit: its number, the state and the jiffies that
    `parse_proc_stat` gets, and what `parse_proc_status` gets. -/
structure ProcEntry where
  pid : UInt32
  stat : Option (UInt8 × UInt64)
  privileged : Bool
  vmrssKb : UInt64

/-- The total jiffies and the entries, `none` when `opendir` fails. -/
structure ScanReading where
  total : UInt64
  entries : Option (List ProcEntry)

structure ProcsReading where
  memTotalKb : UInt64
  cold : ScanReading
  scan : ScanReading
  ncpus : ℤ

/-- `flags` of an entry in state `state`: zombie, unresponsive, privileged. -/
def procFlags (state : UInt8) (privileged : Bool) : UInt8 :=
  (if state = 0x5A then 0x01 else 0) ||| (if state = 0x44 then 0x02 else 0) |||
    (if privileged then 0x04 else 0)

def procMemPct (vmrssKb memTotalKb : UInt64) : UInt8 :=
  let mp := if 0 < vmrssKb ∧ 0 < memTotalKb then vmrssKb * 100 / memTotalKb else 0
  if 255 < mp then 255 else mp.toUInt8

def procSnap (memTotalKb : UInt64) (e : ProcEntry) : Option ProcSnap :=
  e.stat.map fun (state, jiffies) =>
    ⟨e.pid, jiffies, procMemPct e.vmrssKb memTotalKb, procFlags state e.privileged⟩

/-- One turn of the loop over the directory: the entries recorded so far, and the count of all. -/
def scanEntry (memTotalKb : UInt64) (acc : List ProcSnap × UInt16) (e : ProcEntry) :
    List ProcSnap × UInt16 :=
  if e.pid = 0 then acc
  else if maxProcsScan ≤ acc.1.length then (acc.1, acc.2 + 1)
  else (acc.1 ++ (procSnap memTotalKb e).toList, acc.2 + 1)

/-- The table and `*total_procs_out`. -/
def scanProc (memTotalKb : UInt64) (r : ScanReading) : ProcTable × UInt16 :=
  match r.entries with
  | none => (⟨none, r.total⟩, 0)
  | some entries =>
    let (snaps, count) := entries.foldl (scanEntry memTotalKb) ([], 0)
    (⟨some snaps, r.total⟩, count)

/-- `top` and `top_count`. -/
structure TopProcs where
  top : ℕ → ProcInfo
  count : ℕ

/-- The loop `for (i = end; i > pos; i--) top[i] = top[i-1]`, from `i` on. -/
def shiftTop (top : ℕ → ProcInfo) (pos : ℕ) : ℕ → ℕ → ProcInfo
  | 0 => top
  | i + 1 => if pos < i + 1 then shiftTop (Function.update top (i + 1) (top i)) pos i else top

def insertTop (t : TopProcs) (p : ProcInfo) : TopProcs :=
  let pos := ((List.range t.count).find? fun i => (t.top i).delta < p.delta).getD t.count
  if topN ≤ pos then t
  else
    let last := if t.count < topN then t.count else topN - 1
    ⟨Function.update (shiftTop t.top pos last) pos p,
      if t.count < topN then t.count + 1 else t.count⟩

/-- The entry for a process of the earlier snapshot, `none` when it is gone. -/
def procInfo (curr : List ProcSnap) (s : ProcSnap) : Option ProcInfo :=
  match curr.find? fun c => c.pid = s.pid with
  | none => none
  | some c =>
    if c.jiffies = 0 then none
    else some ⟨s.pid, if s.jiffies ≤ c.jiffies then c.jiffies - s.jiffies else 0, c.memPct, c.statusFlag⟩

def topProcs (prev curr : List ProcSnap) : TopProcs :=
  (prev.filterMap (procInfo curr)).foldl insertTop ⟨fun _ => ⟨0, 0, 0, 0⟩, 0⟩

/-- `cpu_x100`, as 64-bit arithmetic gives it. -/
def cpuX100 (delta totalDelta ncpus : UInt64) : UInt16 :=
  let x := delta * 10000 * ncpus / totalDelta
  let x := if 10000 * ncpus < x then 10000 * ncpus else x
  let x := if 0xFFFF < x then 0xFFFF else x
  x.toUInt16

def procSlot (t : TopProcs) (totalDelta ncpus : UInt64) (i : ℕ) : List UInt8 :=
  if t.count ≤ i ∨ (t.top i).pid = 0 then List.replicate 8 0
  else putU32 (t.top i).pid ++ putU16 (cpuX100 (t.top i).delta totalDelta ncpus) ++
    [(t.top i).memPct, (t.top i).statusFlag]

def procsResp (totalProcs : UInt16) (t : TopProcs) (totalDelta ncpus : UInt64) : List UInt8 :=
  putU16 totalProcs ++ (List.range topN).flatMap (procSlot t totalDelta ncpus) ++ swWrite swOk

/-- The second half of the handler: the scan of this call against `prev`. -/
def compareProcs (prev curr : ProcTable) (r : ProcsReading) : ProcsState × List UInt8 :=
  let (curr', totalProcs) := scanProc r.memTotalKb r.scan
  match curr'.snaps with
  | none => (⟨prev, { curr with snaps := none, total := curr'.total }⟩, swWrite swSysErr)
  | some snaps =>
    let delta := curr'.total - prev.total
    let totalDelta := if delta = 0 then 1 else delta
    let ncpus := if r.ncpus < 1 then 1 else r.ncpus
    (⟨curr', curr'⟩, procsResp totalProcs (topProcs (prev.snaps.getD []) snaps) totalDelta
      ncpus.toNat.toUInt64)

def handlerSysProcs (st : ProcsState) (r : ProcsReading) : ProcsState × List UInt8 :=
  if st.prev.snaps = some [] then
    let prev := (scanProc r.memTotalKb r.cold).1
    match prev.snaps with
    | none => (⟨prev, st.curr⟩, swWrite swSysErr)
    | some _ => compareProcs prev st.curr r
  else compareProcs st.prev st.curr r

theorem procSlot_length (t : TopProcs) (totalDelta ncpus : UInt64) (i : ℕ) :
    (procSlot t totalDelta ncpus i).length = 8 := by
  simp only [procSlot]
  split <;> rfl

/-- The answer is the table of processes or 0x6F00. -/
theorem handlerSysProcs_resp (st : ProcsState) (r : ProcsReading) :
    (handlerSysProcs st r).2 = swWrite swSysErr ∨
      ∃ totalProcs t totalDelta ncpus,
        (handlerSysProcs st r).2 = procsResp totalProcs t totalDelta ncpus := by
  have hcompare : ∀ prev curr, (compareProcs prev curr r).2 = swWrite swSysErr ∨
      ∃ totalProcs t totalDelta ncpus,
        (compareProcs prev curr r).2 = procsResp totalProcs t totalDelta ncpus := by
    intro prev curr
    simp only [compareProcs]
    cases h : (scanProc r.memTotalKb r.scan).1.snaps with
    | none => exact Or.inl (by simp)
    | some snaps => exact Or.inr ⟨_, _, _, _, rfl⟩
  simp only [handlerSysProcs]
  split
  · cases h : (scanProc r.memTotalKb r.cold).1.snaps with
    | none => exact Or.inl (by simp)
    | some _ => exact hcompare _ _
  · exact hcompare _ _

end Asys
