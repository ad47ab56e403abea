import Asys.Core.Dispatcher
import Asys.Lib.Memory

/-! # The handlers with their accesses checked

    Each handler once more, with every read of `data` and every write to `resp` and to `name_buf`
    made through a pointer or a buffer that knows its bounds. A frame without data has NULL for
    `data`. The buffers are those of the callers, and what they hold before is arbitrary. -/

namespace Asys
open Words Memory

def dispRespMax : ℕ := 256

/-- `resp`, of `DISP_RESP_MAX` bytes. -/
abbrev Resp := Buf UInt8 dispRespMax

/-- `name_buf`. -/
abbrev NameBuf := Buf UInt8 (taskSvcNameMax + 1)

/-- `resp` and the length that a handler returns. -/
abbrev Returned := Resp × ℕ

/-- `req->data`. -/
def ApduFrame.dataPtr (f : ApduFrame) : Ptr UInt8 := if f.dataLen = 0 then none else some f.data

/-- Four reads, as one word. -/
def readU32 (p : Ptr UInt8) (off : ℕ) : Option UInt32 := do
  let a ← p.read off
  let b ← p.read (off + 1)
  let c ← p.read (off + 2)
  let d ← p.read (off + 3)
  return be32 a b c d

/-- `sw_write(resp + off, sw) + off`. -/
def swWriteAt (resp : Resp) (off : ℕ) (sw : UInt16) : Option Returned := do
  let resp ← resp.write off (swWrite sw)
  return (resp, off + 2)

/-! ### SYS_CAPS, SYS_HELLO, SYS_STATUS and SYS_PROCS -/

/-- `resp[off] = 0x90; resp[off + 1] = 0x00;`. -/
def okFields (off : ℕ) : List (ℕ × List UInt8) := [(off, [0x90]), (off + 1, [0x00])]

def helloFields (r : HelloReading) : List (ℕ × List UInt8) :=
  let ns := match r.clock with
    | some (sec, nsec) => sec * 1000000000 + nsec
    | none => 0
  [(0, putU32 helloMagic), (4, putU32 (readNodeUid r.machineId)), (8, putU64 ns)]

def sysHelloChecked (r : HelloReading) (resp : Resp) (sz : ℕ) : Option Returned :=
  if sz < 18 then swWriteAt resp 0 swSysErr
  else do
    let resp ← resp.writes (helloFields r)
    let resp ← resp.writes (okFields 16)
    return (resp, 18)

def capsFields : List (ℕ × List UInt8) :=
  [(0, putU32 coreCapsBitmap), (4, putU32 extCapsBitmap), (8, putU16 0x0100)]

def unameFields (u : UnameReading) : List (ℕ × List UInt8) :=
  let ncpus := if u.ncpus < 1 then 1 else u.ncpus
  [(10, buildKernelHash u), (14, putU16 (UInt16.ofInt ncpus)), (16, putU16 (detectArch u.machine))]

/-- The part that depends on `uname`. -/
def capsUnameChecked (r : Option UnameReading) (resp : Resp) : Option Resp :=
  match r with
  | some u => resp.writes (unameFields u)
  | none => resp.write 16 (putU16 archUnknown)

def nodeFields (r : CapsReading) : List (ℕ × List UInt8) :=
  let disk := capsDisk r.statfs
  [(18, putU32 (meminfoMb r.meminfo memTotalKey)), (22, putU32 (meminfoMb r.meminfo swapTotalKey)),
    (26, putU32 disk.1), (30, putU16 disk.2), (32, [if r.psi then 0x01 else 0x02]), (33, [0x00])]

def sysCapsChecked (r : CapsReading) (resp : Resp) (sz : ℕ) : Option Returned :=
  if sz < 36 then swWriteAt resp 0 swSysErr
  else do
    let resp ← resp.write 0 (List.replicate 36 0)
    let resp ← resp.writes capsFields
    let resp ← capsUnameChecked r.uname resp
    let resp ← resp.writes (nodeFields r)
    let resp ← resp.writes (okFields 34)
    return (resp, 36)

def statusFields (s : StatusSnap) : List (ℕ × List UInt8) :=
  [(0, [s.load1X10]), (1, [s.load5X10]), (2, [s.cpuPct]), (3, putU32 s.memAvailMb),
    (7, [s.rootUsagePct]), (8, putU32 s.iowaitMs), (12, putU16 s.inMbps), (14, putU16 s.outMbps),
    (16, [s.rpi])]

def sysStatusChecked (cache : StatusCache) (r : StatusReading) (resp : Resp) (sz : ℕ) :
    Option (StatusCache × Returned) :=
  if sz < 23 then (swWriteAt resp 0 swSysErr).map (cache, ·)
  else do
    let cache := statusRefresh cache r
    let resp ← resp.write 0 (List.replicate 23 0)
    let resp ← resp.writes (statusFields cache.snap)
    let resp ← resp.writes (okFields 21)
    return (cache, resp, 23)

def slotFields (t : TopProcs) (totalDelta ncpus : UInt64) (i : ℕ) : List (ℕ × List UInt8) :=
  let slot := 2 + i * 8
  [(slot, putU32 (t.top i).pid), (slot + 4, putU16 (cpuX100 (t.top i).delta totalDelta ncpus)),
    (slot + 6, [(t.top i).memPct]), (slot + 7, [(t.top i).statusFlag])]

/-- The pass of the last loop for slot `i`. -/
def procSlotChecked (t : TopProcs) (totalDelta ncpus : UInt64) (resp : Resp) (i : ℕ) : Option Resp :=
  if t.count ≤ i ∨ (t.top i).pid = 0 then some resp
  else resp.writes (slotFields t totalDelta ncpus i)

def procsRespChecked (totalProcs : UInt16) (t : TopProcs) (totalDelta ncpus : UInt64) (resp : Resp) :
    Option Returned := do
  let resp ← resp.write 0 (List.replicate 44 0)
  let resp ← resp.write 0 (putU16 totalProcs)
  let resp ← (List.range topN).foldlM (procSlotChecked t totalDelta ncpus) resp
  let resp ← resp.writes (okFields 42)
  return (resp, 44)

def compareProcsChecked (prev curr : ProcTable) (r : ProcsReading) (resp : Resp) :
    Option (ProcsState × Returned) :=
  let (curr', totalProcs) := scanProc r.memTotalKb r.scan
  match curr'.snaps with
  | none => (swWriteAt resp 0 swSysErr).map (⟨prev, { curr with snaps := none, total := curr'.total }⟩, ·)
  | some snaps =>
    let delta := curr'.total - prev.total
    let totalDelta := if delta = 0 then 1 else delta
    let ncpus := if r.ncpus < 1 then 1 else r.ncpus
    (procsRespChecked totalProcs (topProcs (prev.snaps.getD []) snaps) totalDelta
      ncpus.toNat.toUInt64 resp).map (⟨curr', curr'⟩, ·)

def sysProcsChecked (st : ProcsState) (r : ProcsReading) (resp : Resp) (sz : ℕ) :
    Option (ProcsState × Returned) :=
  if sz < 44 then (swWriteAt resp 0 swSysErr).map (st, ·)
  else if st.prev.snaps = some [] then
    let prev := (scanProc r.memTotalKb r.cold).1
    match prev.snaps with
    | none => (swWriteAt resp 0 swSysErr).map (⟨prev, st.curr⟩, ·)
    | some _ => compareProcsChecked prev st.curr r resp
  else compareProcsChecked st.prev st.curr r resp

/-! ### TASK_QUERY, PROC_THROTTLE and SVC_RESTART -/

/-- `resp[0]` and the status word behind. -/
def queryRespChecked (resp : Resp) (wire : UInt8) : Option Returned := do
  let resp ← resp.write 0 [wire]
  swWriteAt resp 1 swOk

def taskQueryChecked (env : Env) (g : TaskPool) (req : ApduFrame) (resp : Resp) (sessionId : UInt16) :
    Option (TaskPool × Returned) :=
  if req.dataLen < 4 then (swWriteAt resp 0 swWrongLen).map (g, ·)
  else do
    let handle ← readU32 req.dataPtr 0
    let g := taskPoolSweepTimeouts g env.sweepTime
    match taskPoolFindHandle g handle sessionId with
    | none => (queryRespChecked resp qstatusNotFound).map (g, ·)
    | some i =>
      let wire := toWire (g i).status
      if (g i).status ≠ .pending then
        (queryRespChecked resp wire).map (taskPoolFree g handle, ·)
      else (queryRespChecked resp wire).map (g, ·)

def procThrottleChecked (env : Env) (req : ApduFrame) (resp : Resp) : Option (List Effect × Returned) :=
  if req.sec ≠ apduSecSigned then (swWriteAt resp 0 swAccessDenied).map ([], ·)
  else if req.dataLen < procThrottleDataLen then (swWriteAt resp 0 swWrongLen).map ([], ·)
  else if req.p1 ≠ 0x00 ∧ req.p1 ≠ 0x01 then (swWriteAt resp 0 swWrongData).map ([], ·)
  else do
    let pid ← readU32 req.dataPtr offPid
    if pid = 0 then (swWriteAt resp 0 swWrongData).map ([], ·)
    else
      let sig := if req.p1 = 0x01 then Signal.sigcont else Signal.sigstop
      match env.kill with
      | some errno => (swWriteAt resp 0 (killFailed errno)).map ([.kill (toSigned pid) sig], ·)
      | none => (swWriteAt resp 0 swOk).map ([.kill (toSigned pid) sig], ·)

/-- `svc_name_valid` of the `len` bytes at `name + off`. -/
def svcNameValidChecked (name : Ptr UInt8) (off len : ℕ) : Option Bool :=
  if len < 1 ∨ taskSvcNameMax < len then some false
  else do
    let chars ← name.allFrom svcNameChar off len
    if chars = false then return false
    else if 8 < len then
      let suffix ← name.copy (off + len - 8) 8
      return decide (suffix ≠ serviceSuffix)
    else return true

/-- `resp[0..3]` and the status word behind. -/
def handleRespChecked (resp : Resp) (handle : UInt32) : Option Returned := do
  let resp ← resp.write 0 (putU32 handle)
  swWriteAt resp 4 swOk

/-- The handler behind the checks of its request; `nameBuf` is terminated. -/
def svcRestartNamed (env : Env) (g : TaskPool) (nameBuf : NameBuf) (resp : Resp) (sessionId : UInt16) :
    Option ((TaskPool × List Effect) × Returned) :=
  let g := taskPoolSweepTimeouts g env.sweepTime
  let handle := taskPoolFindPending g sessionId nameBuf.cells
  if handle ≠ 0 then (handleRespChecked resp handle).map ((g, []), ·)
  else if taskPoolAvailable g = false then (swWriteAt resp 0 swBlocked).map ((g, []), ·)
  else
    match env.fork with
    | .error errno =>
      (swWriteAt resp 0 (forkFailed errno)).map ((g, [.fork env.fork (svcFull nameBuf.cells)]), ·)
    | .child pid =>
      let (g, handle) := taskPoolAlloc g sessionId nameBuf.cells pid env.rand env.allocTime
      if handle = 0 then
        (swWriteAt resp 0 swBlocked).map ((g, [.fork env.fork (svcFull nameBuf.cells)]), ·)
      else (handleRespChecked resp handle).map ((g, [.fork env.fork (svcFull nameBuf.cells)]), ·)

def svcRestartChecked (env : Env) (g : TaskPool) (req : ApduFrame) (nameBuf : NameBuf) (resp : Resp)
    (sessionId : UInt16) : Option ((TaskPool × List Effect) × Returned) :=
  if req.sec ≠ apduSecSigned then (swWriteAt resp 0 swAccessDenied).map ((g, []), ·)
  else if req.dataLen < minDataLen then (swWriteAt resp 0 swWrongLen).map ((g, []), ·)
  else do
    let nameLen := req.dataLen - offSvcName
    let valid ← svcNameValidChecked req.dataPtr offSvcName nameLen
    if valid = false then (swWriteAt resp 0 swWrongData).map ((g, []), ·)
    else
      let name ← req.dataPtr.copy offSvcName nameLen
      let nameBuf ← nameBuf.write 0 name
      let nameBuf ← nameBuf.write nameLen [0]
      svcRestartNamed env g nameBuf resp sessionId

/-! ### dispatch -/

def runHandlerChecked (env : Env) (node : NodeReading) (g : Statics) (req : ApduFrame)
    (nameBuf : NameBuf) (resp : Resp) (sz : ℕ) (sessionId : UInt16) :
    Handler → Option ((Statics × List Effect) × Returned)
  | .sysCaps => (sysCapsChecked node.caps resp sz).map ((g, []), ·)
  | .sysHello => (sysHelloChecked node.hello resp sz).map ((g, []), ·)
  | .sysStatus => (sysStatusChecked g.status node.status resp sz).map fun r =>
    (({ g with status := r.1 }, []), r.2)
  | .sysProcs => (sysProcsChecked g.procs node.procs resp sz).map fun r =>
    (({ g with procs := r.1 }, []), r.2)
  | .taskQuery => (taskQueryChecked env g.pool req resp sessionId).map fun r =>
    (({ g with pool := r.1 }, []), r.2)
  | .procThrottle => (procThrottleChecked env req resp).map fun r => ((g, r.1), r.2)
  | .svcRestart => (svcRestartChecked env g.pool req nameBuf resp sessionId).map fun r =>
    (({ g with pool := r.1.1 }, r.1.2), r.2)

def dispatchChecked (env : Env) (node : NodeReading) (g : Statics) (req : ApduFrame)
    (nameBuf : NameBuf) (resp : Resp) (respSize : ℕ) (sessionId : UInt16) :
    Option ((Statics × List Effect) × Returned) :=
  if respSize < 2 then (swWriteAt resp 0 swSysErr).map ((g, []), ·)
  else if inCapsBitmap req.ins = false then (swWriteAt resp 0 swNotFound).map ((g, []), ·)
  else
    match handlerOf req.ins with
    | none => (swWriteAt resp 0 swNotSupported).map ((g, []), ·)
    | some h => runHandlerChecked env node g req nameBuf resp respSize sessionId h

/-! ### Nothing goes wrong, and the answers are the same -/

/-- What is returned are the bytes of the response. -/
structure Written (r : Returned) (bs : List UInt8) : Prop where
  length : r.2 = bs.length
  front : bs <+: r.1.cells

/-- The call does not go wrong, and the response is `bs`. -/
def Gives (out : Option Returned) (bs : List UInt8) : Prop := ∃ r, out = some r ∧ Written r bs

/-- The same for a call that ends in the state `s`. -/
def Ends {σ : Type} (out : Option (σ × Returned)) (s : σ) (bs : List UInt8) : Prop :=
  ∃ r, out = some (s, r) ∧ Written r bs

theorem Gives.ends {σ : Type} {out : Option Returned} {bs : List UInt8} (h : Gives out bs) (s : σ) :
    Ends (out.map (s, ·)) s bs := by
  obtain ⟨r, hr, hwritten⟩ := h
  exact ⟨r, congrArg (Option.map _) hr, hwritten⟩

theorem Ends.map {σ τ : Type} {out : Option (σ × Returned)} {s : σ} {bs : List UInt8}
    (h : Ends out s bs) (f : σ → τ) : Ends (out.map fun r => (f r.1, r.2)) (f s) bs := by
  obtain ⟨r, hr, hwritten⟩ := h
  exact ⟨r, congrArg (Option.map _) hr, hwritten⟩

/-- The status word at the place reached. -/
theorem swWriteAt_gives {resp : Resp} {pre : List UInt8} {k : ℕ} (h : resp.Begins pre 0 k) (off : ℕ)
    (hoff : off = pre.length) (hfit : off + 2 ≤ dispRespMax) (sw : UInt16) :
    Gives (swWriteAt resp off sw) (pre ++ swWrite sw) := by
  obtain ⟨resp', hwrite, hbegins⟩ := h.write off (swWrite sw) hoff hfit
  refine ⟨(resp', off + 2), ?_, ?_, hbegins.front⟩
  · rw [swWriteAt, hwrite]
    rfl
  · rw [List.length_append, swWrite_length, hoff]

/-- A response that is a status word and nothing else. -/
theorem swWriteAt_ends {σ : Type} (s : σ) (resp : Resp) (sw : UInt16) :
    Ends ((swWriteAt resp 0 sw).map (s, ·)) s (swWrite sw) :=
  (swWriteAt_gives (resp.begins_nil 0) 0 rfl (by decide) sw).ends s

/-- A status word behind some bytes. -/
theorem write_swWriteAt_gives (resp : Resp) (bs : List UInt8) (sw : UInt16)
    (hfit : bs.length + 2 ≤ dispRespMax) :
    Gives ((resp.write 0 bs).bind fun resp => swWriteAt resp bs.length sw) (bs ++ swWrite sw) := by
  obtain ⟨b, hb, hbegins⟩ := (resp.begins_nil 0).write 0 bs rfl (by omega)
  rw [hb, Option.bind_some]
  exact swWriteAt_gives hbegins bs.length rfl hfit sw

/-- The last two bytes of a response with fixed fields. -/
theorem okFields_written {resp : Resp} {pre : List UInt8} {k : ℕ} (h : resp.Begins pre 0 k) (off : ℕ)
    (hoff : off = pre.length) (hfit : off + 2 ≤ dispRespMax) :
    ∃ resp', resp.writes (okFields off) = some resp' ∧
      Written (resp', off + 2) (pre ++ swWrite swOk) := by
  subst hoff
  obtain ⟨resp', hwrites, hbegins⟩ := h.writes (okFields pre.length) ⟨rfl, rfl, trivial⟩ hfit
  refine ⟨resp', hwrites, ?_, hbegins.front⟩
  rw [List.length_append]
  rfl

theorem sysHelloChecked_gives (r : HelloReading) (resp : Resp) :
    Gives (sysHelloChecked r resp dispRespMax) (handlerSysHello r) := by
  obtain ⟨b₁, hb₁, h₁⟩ := (resp.begins_nil 0).writes (helloFields r) ⟨rfl, rfl, rfl, trivial⟩
    (by decide : 16 ≤ dispRespMax)
  obtain ⟨b₂, hb₂, h₂⟩ := okFields_written h₁ 16 rfl (by decide)
  simp only [sysHelloChecked]
  rw [if_neg (by decide), hb₁, Option.bind_eq_bind, Option.bind_some, hb₂]
  exact ⟨_, rfl, h₂⟩

/-- Without an answer of `uname` the kernel hash and the CPUs keep their zeros. -/
theorem capsUnameChecked_begins (r : Option UnameReading) {resp : Resp}
    (h : resp.Begins (capsFields.flatMap Prod.snd) 0 26) :
    ∃ resp', capsUnameChecked r resp = some resp' ∧
      resp'.Begins (capsFields.flatMap Prod.snd ++ capsUname r) 0 18 := by
  cases r with
  | some u => exact h.writes (unameFields u) ⟨rfl, rfl, rfl, trivial⟩ (by decide : 18 ≤ dispRespMax)
  | none => exact (h.skip (by decide : 6 ≤ 26)).write 16 (putU16 archUnknown) rfl (by decide)

theorem sysCapsChecked_gives (r : CapsReading) (resp : Resp) :
    Gives (sysCapsChecked r resp dispRespMax) (handlerSysCaps r) := by
  obtain ⟨b₁, hb₁, h₁⟩ := resp.begins_memset 0 (by decide : 36 ≤ dispRespMax)
  obtain ⟨b₂, hb₂, h₂⟩ := h₁.writes capsFields ⟨rfl, rfl, rfl, trivial⟩
    (by decide : 10 ≤ dispRespMax)
  obtain ⟨b₃, hb₃, h₃⟩ := capsUnameChecked_begins r.uname h₂
  have hlen : (capsFields.flatMap Prod.snd ++ capsUname r.uname).length = 18 := by
    rw [List.length_append, capsUname_length]
    rfl
  have hnode : Contiguous 18 (nodeFields r) := ⟨rfl, rfl, rfl, rfl, rfl, rfl, trivial⟩
  obtain ⟨b₄, hb₄, h₄⟩ := h₃.writes (nodeFields r) (hlen ▸ hnode)
    (hlen ▸ (by decide : 34 ≤ dispRespMax))
  have hlen' : 34 = (capsFields.flatMap Prod.snd ++ capsUname r.uname ++
      (nodeFields r).flatMap Prod.snd).length := by
    rw [List.length_append, hlen]
    rfl
  obtain ⟨b₅, hb₅, h₅⟩ := okFields_written h₄ 34 hlen' (by decide)
  simp only [sysCapsChecked]
  rw [if_neg (by decide)]
  simp only [Option.bind_eq_bind, hb₁, Option.bind_some, hb₂, hb₃, hb₄, hb₅]
  refine ⟨_, rfl, ?_⟩
  have hresp : handlerSysCaps r = capsFields.flatMap Prod.snd ++ capsUname r.uname ++
      (nodeFields r).flatMap Prod.snd ++ swWrite swOk := by
    simp [handlerSysCaps, capsFields, nodeFields]
  rw [hresp]
  exact h₅

theorem sysStatusChecked_ends (cache : StatusCache) (r : StatusReading) (resp : Resp) :
    Ends (sysStatusChecked cache r resp dispRespMax) (handlerSysStatus cache r).1
      (handlerSysStatus cache r).2 := by
  obtain ⟨b₁, hb₁, h₁⟩ := resp.begins_memset 0 (by decide : 23 ≤ dispRespMax)
  obtain ⟨b₂, hb₂, h₂⟩ := h₁.writes (statusFields (statusRefresh cache r).snap)
    ⟨rfl, rfl, rfl, rfl, rfl, rfl, rfl, rfl, rfl, trivial⟩ (by decide : 17 ≤ dispRespMax)
  -- the reserved bytes keep their zeros
  have h₃ := h₂.skip (by decide : 4 ≤ 6)
  obtain ⟨b₄, hb₄, h₄⟩ := okFields_written h₃ 21 rfl (by decide)
  simp only [sysStatusChecked]
  rw [if_neg (by decide)]
  simp only [Option.bind_eq_bind, hb₁, Option.bind_some, hb₂, hb₄]
  exact ⟨_, rfl, h₄⟩

/-- Slot `i` is written where it belongs, or left as zeros. -/
theorem procSlotChecked_begins {t : TopProcs} (totalDelta ncpus : UInt64) {resp : Resp}
    {pre : List UInt8} {k i : ℕ} (h : resp.Begins pre 0 k) (hpre : pre.length = 2 + i * 8)
    (hk : 8 ≤ k) (hfit : pre.length + 8 ≤ dispRespMax) :
    ∃ resp', procSlotChecked t totalDelta ncpus resp i = some resp' ∧
      resp'.Begins (pre ++ procSlot t totalDelta ncpus i) 0 (k - 8) := by
  simp only [procSlotChecked, procSlot]
  by_cases hempty : t.count ≤ i ∨ (t.top i).pid = 0
  · rw [if_pos hempty, if_pos hempty]
    exact ⟨resp, rfl, h.skip hk⟩
  · rw [if_neg hempty, if_neg hempty]
    exact h.writes (slotFields t totalDelta ncpus i)
      (by rw [hpre]; exact ⟨rfl, rfl, rfl, rfl, trivial⟩) hfit

/-- The loop over the slots from the `m`-th on. -/
theorem procSlots_begins {t : TopProcs} (n : ℕ) (totalDelta ncpus : UInt64) {resp : Resp}
    {pre : List UInt8} {k m : ℕ} (h : resp.Begins pre 0 k) (hpre : pre.length = 2 + m * 8)
    (hk : n * 8 ≤ k) (hfit : pre.length + n * 8 ≤ dispRespMax) :
    ∃ resp', (List.range' m n).foldlM (procSlotChecked t totalDelta ncpus) resp = some resp' ∧
      resp'.Begins (pre ++ (List.range' m n).flatMap (procSlot t totalDelta ncpus)) 0
        (k - n * 8) := by
  induction n generalizing resp pre k m with
  | zero => exact ⟨resp, rfl, by simpa using h⟩
  | succ n ih =>
    obtain ⟨b₁, hb₁, h₁⟩ := procSlotChecked_begins (t := t) totalDelta ncpus h hpre (by omega)
      (by omega)
    have hlen : (pre ++ procSlot t totalDelta ncpus m).length = 2 + (m + 1) * 8 := by
      rw [List.length_append, procSlot_length]
      omega
    obtain ⟨b₂, hb₂, h₂⟩ := ih h₁ hlen (by omega) (by omega)
    refine ⟨b₂, ?_, ?_⟩
    · rw [List.range'_succ, List.foldlM_cons, hb₁]
      exact hb₂
    · rw [List.range'_succ, List.flatMap_cons, ← List.append_assoc,
        show k - (n + 1) * 8 = k - 8 - n * 8 by omega]
      exact h₂

theorem procsRespChecked_gives (totalProcs : UInt16) (t : TopProcs) (totalDelta ncpus : UInt64)
    (resp : Resp) : Gives (procsRespChecked totalProcs t totalDelta ncpus resp)
      (procsResp totalProcs t totalDelta ncpus) := by
  obtain ⟨b₁, hb₁, h₁⟩ := resp.begins_memset 0 (by decide : 44 ≤ dispRespMax)
  obtain ⟨b₂, hb₂, h₂⟩ := h₁.write 0 (putU16 totalProcs) rfl (by decide : 2 ≤ dispRespMax)
  obtain ⟨b₃, hb₃, h₃⟩ := procSlots_begins (t := t) (m := 0) topN totalDelta ncpus h₂ rfl
    (by decide : 40 ≤ 42) (by decide : 42 ≤ dispRespMax)
  have hlen : 42 = ([] ++ putU16 totalProcs ++
      (List.range' 0 topN).flatMap (procSlot t totalDelta ncpus)).length := by
    simp only [List.length_append, List.length_flatMap, procSlot_length]
    rfl
  obtain ⟨b₄, hb₄, h₄⟩ := okFields_written h₃ 42 hlen (by decide)
  rw [← List.range_eq_range'] at hb₃ h₄
  simp only [procsRespChecked]
  simp only [Option.bind_eq_bind, hb₁, Option.bind_some, hb₂, hb₃, hb₄]
  exact ⟨_, rfl, h₄⟩

theorem compareProcsChecked_ends (prev curr : ProcTable) (r : ProcsReading) (resp : Resp) :
    Ends (compareProcsChecked prev curr r resp) (compareProcs prev curr r).1
      (compareProcs prev curr r).2 := by
  unfold compareProcsChecked compareProcs
  dsimp only
  cases (scanProc r.memTotalKb r.scan).1.snaps with
  | none => exact swWriteAt_ends _ resp swSysErr
  | some snaps => exact (procsRespChecked_gives _ _ _ _ resp).ends _

theorem sysProcsChecked_ends (st : ProcsState) (r : ProcsReading) (resp : Resp) :
    Ends (sysProcsChecked st r resp dispRespMax) (handlerSysProcs st r).1 (handlerSysProcs st r).2 := by
  unfold sysProcsChecked handlerSysProcs
  rw [if_neg (by decide)]
  by_cases hcold : st.prev.snaps = some []
  · rw [if_pos hcold, if_pos hcold]
    dsimp only
    cases (scanProc r.memTotalKb r.cold).1.snaps with
    | none => exact swWriteAt_ends _ resp swSysErr
    | some _ => exact compareProcsChecked_ends _ _ r resp
  · rw [if_neg hcold, if_neg hcold]
    exact compareProcsChecked_ends _ _ r resp

/-! ### The handlers that read their data -/

theorem dataPtr_of_pos {f : ApduFrame} (h : 0 < f.dataLen) : f.dataPtr = some f.data :=
  if_neg h.ne'

/-- A word below `data_len`. -/
theorem readU32_data {f : ApduFrame} {off : ℕ} (h : off + 4 ≤ f.dataLen) :
    readU32 f.dataPtr off = some (be32At f.data off) := by
  have hlen : off + 4 ≤ f.data.length := h
  have hread : ∀ i, i < f.data.length → Ptr.read (some f.data) i = some (f.data.getD i 0) := by
    intro i hi
    rw [Ptr.read_some hi, List.getD_eq_getElem _ _ hi]
  unfold readU32
  rw [dataPtr_of_pos (by omega), hread off (by omega), hread (off + 1) (by omega),
    hread (off + 2) (by omega), hread (off + 3) (by omega)]
  rfl

theorem queryRespChecked_ends {σ : Type} (s : σ) (resp : Resp) (wire : UInt8) :
    Ends ((queryRespChecked resp wire).map (s, ·)) s (queryResp wire) :=
  (write_swWriteAt_gives resp [wire] swOk (by decide : 3 ≤ dispRespMax)).ends s

theorem handleRespChecked_ends {σ : Type} (s : σ) (resp : Resp) (handle : UInt32) :
    Ends ((handleRespChecked resp handle).map (s, ·)) s (handleResp handle) :=
  (write_swWriteAt_gives resp (putU32 handle) swOk (by decide : 6 ≤ dispRespMax)).ends s

theorem taskQueryChecked_ends (env : Env) (g : TaskPool) (req : ApduFrame) (resp : Resp) (s : UInt16) :
    Ends (taskQueryChecked env g req resp s) (handlerTaskQuery env g req s).1
      (handlerTaskQuery env g req s).2 := by
  simp only [taskQueryChecked, handlerTaskQuery]
  by_cases hlen : req.dataLen < 4
  · rw [if_pos hlen, if_pos hlen]
    exact swWriteAt_ends g resp swWrongLen
  have hhandle : readU32 req.dataPtr 0 = some (queryHandle req) := readU32_data (not_lt.mp hlen)
  rw [if_neg hlen, if_neg hlen, hhandle]
  simp only [Option.bind_eq_bind, Option.bind_some]
  cases taskPoolFindHandle (taskPoolSweepTimeouts g env.sweepTime) (queryHandle req) s with
  | none => exact queryRespChecked_ends _ resp qstatusNotFound
  | some i =>
    dsimp only
    split
    · exact queryRespChecked_ends _ resp _
    · exact queryRespChecked_ends _ resp _

theorem procThrottleChecked_ends (env : Env) (req : ApduFrame) (resp : Resp) :
    Ends (procThrottleChecked env req resp) (handlerProcThrottle env req).1
      (handlerProcThrottle env req).2 := by
  simp only [procThrottleChecked, handlerProcThrottle]
  by_cases hsec : req.sec ≠ apduSecSigned
  · rw [if_pos hsec, if_pos hsec]
    exact swWriteAt_ends _ resp _
  rw [if_neg hsec, if_neg hsec]
  by_cases hlen : req.dataLen < procThrottleDataLen
  · rw [if_pos hlen, if_pos hlen]
    exact swWriteAt_ends _ resp _
  rw [if_neg hlen, if_neg hlen]
  by_cases hp1 : req.p1 ≠ 0x00 ∧ req.p1 ≠ 0x01
  · rw [if_pos hp1, if_pos hp1]
    exact swWriteAt_ends _ resp _
  have hpid : readU32 req.dataPtr offPid = some (pidField req) := readU32_data (not_lt.mp hlen)
  rw [if_neg hp1, if_neg hp1, hpid]
  simp only [Option.bind_eq_bind, Option.bind_some]
  split
  · exact swWriteAt_ends _ resp _
  · cases env.kill with
    | some errno => exact swWriteAt_ends _ resp _
    | none => exact swWriteAt_ends _ resp _

/-! ### SVC_RESTART -/

theorem svcNameValidChecked_data {f : ApduFrame} {off : ℕ} (h : off < f.dataLen) :
    svcNameValidChecked f.dataPtr off (f.dataLen - off) = some (svcNameValid (f.data.drop off)) := by
  have hlen : (f.data.drop off).length = f.dataLen - off := List.length_drop
  have hall : (f.data.drop off).take (f.dataLen - off) = f.data.drop off :=
    List.take_of_length_le hlen.le
  simp only [svcNameValidChecked, svcNameValid]
  rw [hlen, dataPtr_of_pos (by omega)]
  by_cases hsize : f.dataLen - off < 1 ∨ taskSvcNameMax < f.dataLen - off
  · rw [if_pos hsize, if_pos hsize]
  have hfit : off + (f.dataLen - off) = f.data.length := Nat.add_sub_cancel' h.le
  rw [if_neg hsize, if_neg hsize, Ptr.allFrom_some _ _ hfit.le, hall]
  simp only [Option.bind_eq_bind, Option.bind_some]
  cases (f.data.drop off).all svcNameChar with
  | false => rfl
  | true =>
    rw [if_neg (by decide : ¬ true = false), if_neg (by decide : ¬ ¬ true = true)]
    by_cases hlong : 8 < f.dataLen - off
    · have hsuffix : Ptr.copy (some f.data) (off + (f.dataLen - off) - 8) 8 =
          some ((f.data.drop off).drop (f.dataLen - off - 8)) := by
        have hlast : off + (f.dataLen - off) - 8 = off + (f.dataLen - off - 8) := by omega
        have height : f.data.length - (off + (f.dataLen - off - 8)) = 8 := by omega
        have hrest := Ptr.copy_rest (show off + (f.dataLen - off - 8) ≤ f.data.length by omega)
        rwa [height, ← List.drop_drop, ← hlast] at hrest
      rw [if_pos hlong, hsuffix]
      by_cases hservice : (f.data.drop off).drop (f.dataLen - off - 8) = serviceSuffix
      · rw [if_pos ⟨hlong, hservice⟩, hservice]
        rfl
      · rw [if_neg fun h => hservice h.2]
        exact congrArg some (decide_eq_true hservice)
    · rw [if_neg hlong, if_neg fun h => hlong h.1]
      rfl

/-- What stands behind the terminator does not count. -/
theorem cString_append_nul (name rest : List UInt8) :
    cString (name ++ 0 :: rest) = cString (name ++ [0]) := by
  simp only [cString]
  rw [List.takeWhile_append, List.takeWhile_append]
  simp

section
variable {n n' : List UInt8} (h : cString n' = cString n)
include h

theorem taskPoolFindPending_congr (g : TaskPool) (s : UInt16) :
    taskPoolFindPending g s n' = taskPoolFindPending g s n := by
  unfold taskPoolFindPending
  rw [h]

theorem taskPoolAlloc_congr (g : TaskPool) (s : UInt16) (pid : ℤ) (r : UInt32) (now : ℤ) :
    taskPoolAlloc g s n' pid r now = taskPoolAlloc g s n pid r now := by
  unfold taskPoolAlloc newEntry
  rw [h]

theorem svcFull_congr : svcFull n' = svcFull n := by
  simp only [svcFull]
  rw [h]

end

/-- The handler with the name in its buffer. -/
theorem svcRestartNamed_ends {env : Env} {g : TaskPool} {req : ApduFrame} {s : UInt16}
    (hform : RestartForm req) {buf : NameBuf} (hname : cString buf.cells = cString (nameBuf req))
    (resp : Resp) :
    Ends (svcRestartNamed env g buf resp s)
      ((handlerSvcRestart env g req s).1, (handlerSvcRestart env g req s).2.1)
      (handlerSvcRestart env g req s).2.2 := by
  rw [handlerSvcRestart_of_form hform]
  rw [svcRestartNamed]
  dsimp only
  rw [taskPoolFindPending_congr hname, svcFull_congr hname]
  split
  · exact handleRespChecked_ends _ resp _
  split
  · exact swWriteAt_ends _ resp _
  cases env.fork with
  | error errno => exact swWriteAt_ends _ resp _
  | child pid =>
    dsimp only
    rw [taskPoolAlloc_congr hname]
    split
    · exact swWriteAt_ends _ resp _
    · exact handleRespChecked_ends _ resp _

theorem svcRestartChecked_ends (env : Env) (g : TaskPool) (req : ApduFrame) (buf : NameBuf)
    (resp : Resp) (s : UInt16) : Ends (svcRestartChecked env g req buf resp s)
      ((handlerSvcRestart env g req s).1, (handlerSvcRestart env g req s).2.1)
      (handlerSvcRestart env g req s).2.2 := by
  rw [svcRestartChecked]
  by_cases hsec : req.sec ≠ apduSecSigned
  · rw [if_pos hsec, handlerSvcRestart, if_pos hsec]
    exact swWriteAt_ends _ resp _
  by_cases hlen : req.dataLen < minDataLen
  · rw [if_neg hsec, if_pos hlen, handlerSvcRestart, if_neg hsec, if_pos hlen]
    exact swWriteAt_ends _ resp _
  have h5 : 5 ≤ req.dataLen := not_lt.mp hlen
  rw [if_neg hsec, if_neg hlen]
  dsimp only
  rw [svcNameValidChecked_data (show offSvcName < req.dataLen from h5)]
  simp only [Option.bind_eq_bind, Option.bind_some]
  by_cases hvalid : svcNameValid (req.data.drop offSvcName) = false
  · rw [if_pos hvalid, handlerSvcRestart, if_neg hsec, if_neg hlen]
    dsimp only
    rw [if_pos hvalid]
    exact swWriteAt_ends _ resp _
  have hform : RestartForm req :=
    ⟨not_not.mp hsec, h5, (Bool.not_eq_false _).mp hvalid⟩
  have hcopy : Ptr.copy (some req.data) offSvcName (req.dataLen - offSvcName) =
      some (req.data.drop offSvcName) := Ptr.copy_rest (le_trans (by decide : 4 ≤ 5) h5)
  -- a valid name has 64 bytes at most, which leaves one for the terminator
  have hname := (svcNameValid_spec hform.2.2).1
  obtain ⟨b₁, hb₁, h₁⟩ := (buf.begins_nil 0).write 0 (req.data.drop offSvcName) rfl (by omega)
  obtain ⟨b₂, hb₂, h₂⟩ := h₁.write (req.dataLen - offSvcName) [0] List.length_drop.symm (by
    rw [List.length_drop] at hname
    exact Nat.add_le_add_right hname 1)
  rw [if_neg hvalid, dataPtr_of_pos (by omega), hcopy, Option.bind_some, hb₁, Option.bind_some, hb₂,
    Option.bind_some]
  obtain ⟨rest, hrest⟩ := h₂.front
  refine svcRestartNamed_ends hform ?_ resp
  rw [← hrest, List.append_assoc]
  exact cString_append_nul (req.data.drop offSvcName) rest

/-! ### dispatch -/

theorem runHandlerChecked_ends (env : Env) (node : NodeReading) (g : Statics) (req : ApduFrame)
    (buf : NameBuf) (resp : Resp) (s : UInt16) (h : Handler) :
    Ends (runHandlerChecked env node g req buf resp dispRespMax s h)
      ((runHandler env node g req s h).1, (runHandler env node g req s h).2.1)
      (runHandler env node g req s h).2.2 := by
  cases h with
  | sysCaps => exact (sysCapsChecked_gives node.caps resp).ends _
  | sysHello => exact (sysHelloChecked_gives node.hello resp).ends _
  | sysStatus =>
    exact (sysStatusChecked_ends g.status node.status resp).map fun status =>
      ({ g with status := status }, [])
  | sysProcs =>
    exact (sysProcsChecked_ends g.procs node.procs resp).map fun procs =>
      ({ g with procs := procs }, [])
  | taskQuery =>
    exact (taskQueryChecked_ends env g.pool req resp s).map fun pool => ({ g with pool := pool }, [])
  | procThrottle => exact (procThrottleChecked_ends env req resp).map fun effects => (g, effects)
  | svcRestart =>
    exact (svcRestartChecked_ends env g.pool req buf resp s).map fun r =>
      ({ g with pool := r.1 }, r.2)

/-- For every frame, pool and node, `dispatch` keeps to its buffers and answers as it does without
    the checks. -/
theorem dispatchChecked_ends (env : Env) (node : NodeReading) (g : Statics) (req : ApduFrame)
    (buf : NameBuf) (resp : Resp) (s : UInt16) :
    Ends (dispatchChecked env node g req buf resp dispRespMax s)
      ((dispatch env node g req s).1, (dispatch env node g req s).2.1)
      (dispatch env node g req s).2.2 := by
  simp only [dispatchChecked, dispatch]
  rw [if_neg (by decide)]
  split
  · exact swWriteAt_ends _ resp _
  cases handlerOf req.ins with
  | none => exact swWriteAt_ends _ resp _
  | some h => exact runHandlerChecked_ends env node g req buf resp s h

end Asys
