import Asys.Daemon.Replay

/-! # Two signed frames that differ in Seq

    The first four data bytes of a signed frame are its Seq, and the operands stand behind them.
    PROC_THROTTLE and SVC_RESTART read them there. TASK_QUERY takes its handle from the first four
    bytes of any frame, so a signed one asks for the task whose handle is its Seq. -/

namespace Asys
open Words

/-- The frames differ in their Seq and their tag at most. -/
structure SameButSeq (f f' : ApduFrame) : Prop where
  cla : f'.cla = f.cla
  ins : f'.ins = f.ins
  p1 : f'.p1 = f.p1
  p2 : f'.p2 = f.p2
  sec : f'.sec = f.sec
  le : f'.le = f.le
  length : f'.data.length = f.data.length
  payload : f'.data.drop 4 = f.data.drop 4

theorem SameButSeq.dataLen {f f' : ApduFrame} (h : SameButSeq f f') : f'.dataLen = f.dataLen :=
  h.length

/-! ### Handlers that read the payload -/

theorem SameButSeq.handlerProcThrottle {f f' : ApduFrame} (h : SameButSeq f f') (env : Env) :
    handlerProcThrottle env f' = handlerProcThrottle env f := by
  have hpid : pidField f' = pidField f := by
    rw [pidField, pidField, show offPid = 4 + 0 from rfl, ← be32At_drop, ← be32At_drop, h.payload]
  simp only [Asys.handlerProcThrottle]
  rw [h.sec, h.dataLen, h.p1, hpid]

theorem SameButSeq.handlerSvcRestart {f f' : ApduFrame} (h : SameButSeq f f') (env : Env)
    (g : TaskPool) (s : UInt16) : handlerSvcRestart env g f' s = handlerSvcRestart env g f s := by
  have hname : f'.data.drop offSvcName = f.data.drop offSvcName := h.payload
  simp only [Asys.handlerSvcRestart]
  rw [h.sec, h.dataLen, hname]

/-! ### TASK_QUERY -/

/-- Two handles that a query of the session answers alike: neither is found, or both name tasks that
    are still pending. -/
def SameLookup (g : TaskPool) (s : UInt16) (h h' : UInt32) : Prop :=
  (taskPoolFindHandle g h s = none ∧ taskPoolFindHandle g h' s = none) ∨
    ∃ i j, taskPoolFindHandle g h s = some i ∧ taskPoolFindHandle g h' s = some j ∧
      (g i).status = .pending ∧ (g j).status = .pending

/-- Only a pending task is answered 0x00, and none that is found 0xFF. -/
theorem toWire_settled {st : TaskStatus} (hp : st ≠ .pending) (he : st ≠ .empty) :
    toWire st ≠ qstatusPending ∧ toWire st ≠ qstatusNotFound := by
  cases st with
  | pending => exact absurd rfl hp
  | empty => exact absurd rfl he
  | _ => decide

/-- Releases of tasks with different handles leave different pools. -/
theorem taskPoolFree_ne {g : TaskPool} {s : UInt16} {h h' : UInt32} {i j : Fin taskPoolSize}
    (hi : taskPoolFindHandle g h s = some i) (hj : taskPoolFindHandle g h' s = some j)
    (hne : h ≠ h') : taskPoolFree g h ≠ taskPoolFree g h' := by
  intro heq
  obtain ⟨hz, -, hgi, -⟩ := taskPoolFindHandle_some hi
  obtain ⟨-, -, hgj, -⟩ := taskPoolFindHandle_some hj
  rcases taskPoolFree_cases g h with ⟨k, hk, -, hfree⟩ | ⟨hnone, -⟩
  · rcases taskPoolFree_cases g h' with ⟨k', hk', -, hfree'⟩ | ⟨hnone', -⟩
    · -- the slot released for `h` still holds `h` in the other pool
      have hkk : k ≠ k' := fun hkk => hne (by rw [← hk, ← hk', hkk])
      have hat := congrFun heq k
      rw [hfree, hfree', Function.update_self, Function.update_of_ne hkk] at hat
      rw [← hat] at hk
      exact hz hk.symm
    · exact hnone' j hgj
  · exact hnone i hgi

theorem queryResp_inj {a b : UInt8} (h : queryResp a = queryResp b) : a = b :=
  (List.cons.inj h).1

/-- A task that is found and settled has a status byte of its own. -/
theorem settled_wire {now : ℤ} {g : TaskPool} {h : UInt32} {s : UInt16} {i : Fin taskPoolSize}
    (hi : taskPoolFindHandle (taskPoolSweepTimeouts g now) h s = some i)
    (hp : (sweepEntry now (g i)).status ≠ .pending) :
    toWire (sweepEntry now (g i)).status ≠ qstatusPending ∧
      toWire (sweepEntry now (g i)).status ≠ qstatusNotFound :=
  toWire_settled hp (taskPoolFindHandle_some hi).2.2.2.1

/-- The same answer and the same pool come from lookups that agree. -/
theorem sameLookup_of_query {env : Env} {g : TaskPool} {s : UInt16} {f f' : ApduFrame}
    (hlen : 4 ≤ f.dataLen) (hlen' : 4 ≤ f'.dataLen) (hne : queryHandle f ≠ queryHandle f')
    {out out' : TaskPool × List UInt8} (hc : QueryCase env g f s out) (hc' : QueryCase env g f' s out')
    (heq : out = out') :
    SameLookup (taskPoolSweepTimeouts g env.sweepTime) s (queryHandle f) (queryHandle f') := by
  cases hc with
  | short hshort => omega
  | notFound _ hfind =>
    cases hc' with
    | short hshort => omega
    | notFound _ hfind' => exact .inl ⟨hfind, hfind'⟩
    | pending j _ hfind' _ => exact absurd (queryResp_inj (Prod.mk.inj heq).2) (by decide)
    | terminal j _ hfind' hp' =>
      exact absurd (queryResp_inj (Prod.mk.inj heq).2).symm (settled_wire hfind' hp').2
  | pending i _ hfind hp =>
    cases hc' with
    | short hshort => omega
    | notFound _ hfind' => exact absurd (queryResp_inj (Prod.mk.inj heq).2) (by decide)
    | pending j _ hfind' hp' => exact .inr ⟨i, j, hfind, hfind', hp, hp'⟩
    | terminal j _ hfind' hp' =>
      exact absurd (queryResp_inj (Prod.mk.inj heq).2).symm (settled_wire hfind' hp').1
  | terminal i _ hfind hp =>
    cases hc' with
    | short hshort => omega
    | notFound _ hfind' =>
      exact absurd (queryResp_inj (Prod.mk.inj heq).2) (settled_wire hfind hp).2
    | pending j _ hfind' _ =>
      exact absurd (queryResp_inj (Prod.mk.inj heq).2) (settled_wire hfind hp).1
    | terminal j _ hfind' hp' =>
      exact absurd (Prod.mk.inj heq).1 (taskPoolFree_ne hfind hfind' hne)

/-- Lookups that agree give the same answer and leave the swept pool alone. -/
theorem query_of_sameLookup {env : Env} {g : TaskPool} {s : UInt16} {f f' : ApduFrame}
    (hlen : 4 ≤ f.dataLen) (hlen' : 4 ≤ f'.dataLen)
    (h : SameLookup (taskPoolSweepTimeouts g env.sweepTime) s (queryHandle f) (queryHandle f')) :
    handlerTaskQuery env g f s = handlerTaskQuery env g f' s := by
  unfold handlerTaskQuery
  rw [if_neg (not_lt.mpr hlen), if_neg (not_lt.mpr hlen')]
  dsimp only
  rcases h with ⟨hf, hf'⟩ | ⟨i, j, hf, hf', hi, hj⟩
  · rw [hf, hf']
  · rw [hf, hf']
    dsimp only
    rw [if_neg (not_not.mpr hi), if_neg (not_not.mpr hj), hi, hj]

theorem handlerTaskQuery_seq_iff (env : Env) (g : TaskPool) (s : UInt16) {f f' : ApduFrame}
    (hlen : 4 ≤ f.dataLen) (hlen' : f'.dataLen = f.dataLen) :
    handlerTaskQuery env g f s = handlerTaskQuery env g f' s ↔
      frameSeq f = frameSeq f' ∨
        SameLookup (taskPoolSweepTimeouts g env.sweepTime) s (frameSeq f) (frameSeq f') := by
  have hle' : 4 ≤ f'.dataLen := hlen' ▸ hlen
  constructor
  · intro heq
    by_cases hseq : frameSeq f = frameSeq f'
    · exact .inl hseq
    · exact .inr (sameLookup_of_query hlen hle' hseq (handlerTaskQuery_cases env g f s)
        (handlerTaskQuery_cases env g f' s) heq)
  · rintro (hseq | hlook)
    · have hhandle : queryHandle f = queryHandle f' := hseq
      simp only [handlerTaskQuery]
      rw [hlen', hhandle]
    · exact query_of_sameLookup hlen hle' hlook

/-! ### All instructions -/

theorem SameButSeq.dispatch {f f' : ApduFrame} (h : SameButSeq f f') (hins : f.ins ≠ 0x11)
    (env : Env) (node : NodeReading) (g : Statics) (s : UInt16) :
    dispatch env node g f' s = dispatch env node g f s := by
  rcases dispatch_cases env node g f s with ⟨hnone, hd⟩ | ⟨hd, hh, hrun⟩
  · rcases dispatch_cases env node g f' s with ⟨-, hd'⟩ | ⟨hd', hh', -⟩
    · rw [hd, hd']
    · rw [h.ins, hnone] at hh'
      cases hh'
  · have hins' : f.ins = hd.ins := handlerOf_iff.mp hh
    rw [hrun, dispatch_of_ins env node g (h.ins.trans hins') s]
    cases hd with
    | taskQuery => exact absurd hins' hins
    | procThrottle =>
      simp only [runHandler]
      rw [h.handlerProcThrottle env]
    | svcRestart =>
      simp only [runHandler]
      rw [h.handlerSvcRestart env g.pool s]
    | _ => rfl

/-- CORRECT (exact): for signed frames with the right tag that differ in Seq, the call is the same
    unless it is a TASK_QUERY and, after the sweep, the session's tasks of the two numbers are
    neither both absent nor both pending. -/
theorem dispatch_seq_iff (mc : Monocypher) (ctx : SessionCtx) {f f' : ApduFrame}
    (hsame : SameButSeq f f') (htag : verifyAuthTag mc ctx.noise f ctx.epochId = true)
    (env : Env) (node : NodeReading) (g : Statics) :
    dispatch env node g f ctx.sessionId = dispatch env node g f' ctx.sessionId ↔
      f.ins ≠ 0x11 ∨ frameSeq f = frameSeq f' ∨
        SameLookup (taskPoolSweepTimeouts g.pool env.sweepTime) ctx.sessionId (frameSeq f)
          (frameSeq f') := by
  by_cases hins : f.ins = 0x11
  · have hins' : f'.ins = 0x11 := hsame.ins.trans hins
    have hlen := (verifyAuthTag_dataLen htag).1
    rw [← handlerTaskQuery_seq_iff env g.pool ctx.sessionId hlen hsame.dataLen,
      dispatch_of_ins env node g (show f.ins = Handler.taskQuery.ins from hins),
      dispatch_of_ins env node g (show f'.ins = Handler.taskQuery.ins from hins')]
    simp only [runHandler, Prod.mk.injEq, Statics.mk.injEq, and_true, true_and, hins, ne_eq,
      not_true_eq_false, false_or]
    exact Prod.ext_iff.symm
  · simp [hins, hsame.dispatch hins env node g ctx.sessionId]

/-! ### Frames with their tag -/

/-- A standard frame of session `ctx` with the tag that an agent puts on it. -/
def taggedFrame (mc : Monocypher) (ctx : SessionCtx) (cla ins p1 : UInt8) (data : List UInt8)
    (hdata : data.length < 256) : ApduFrame :=
  stdFrame cla ins p1 data hdata
    (some ((hmacBlake2b mc ctx.noise.recvKey ([cla, ins, p1, 0x00, data.length.toUInt8] ++
      ctx.epochId ++ data.take 4 ++ data.drop 4)).take apduAuthTagSize))
    (by simp [hmacBlake2b, mc.blake2b_length, noiseHashSize, apduAuthTagSize])

theorem taggedFrame_verifies (mc : Monocypher) (ctx : SessionCtx) (cla ins p1 : UInt8)
    {data : List UInt8} (hdata : data.length < 256) (h : 4 ≤ data.length) :
    verifyAuthTag mc ctx.noise (taggedFrame mc ctx cla ins p1 data hdata) ctx.epochId = true := by
  have hshort : ¬ (taggedFrame mc ctx cla ins p1 data hdata).dataLen < 4 := not_lt.mpr h
  have hlong : ¬ 255 < (taggedFrame mc ctx cla ins p1 data hdata).dataLen - 4 := by
    show ¬ 255 < data.length - 4
    omega
  simp only [verifyAuthTag]
  rw [if_neg hshort]
  show (if 255 < (taggedFrame mc ctx cla ins p1 data hdata).dataLen - 4 then false else _) = true
  rw [if_neg hlong]
  exact decide_eq_true rfl

/-- A session with number 1 that has accepted no frame yet. -/
def freshSession : SessionCtx := ⟨1, noiseIkWiped, zeroKey, List.replicate 4 0, 0⟩

/-- A signed TASK_QUERY of that session for the handle 0, under the given Seq. -/
def signedQuery (seq : UInt32) : ApduFrame :=
  taggedFrame monocypher freshSession 0x04 0x11 0x00 (putU32 seq ++ putU32 0)
    (by simp [putU32])

/-- One pending task, with the handle 0x00010001. -/
def oneTask : Statics :=
  { idleStatics with pool := Function.update taskPoolInit 0 (newEntry 1 [0x61] 500 1 100) }

/-- Both frames ask for the handle 0. The one whose Seq is 0x00010001 is told of the pending task. -/
theorem dispatch_seq_query :
    SameButSeq (signedQuery 0x00010001) (signedQuery 0x00010002) ∧
    (∀ seq, verifyAuthTag monocypher freshSession.noise (signedQuery seq) freshSession.epochId =
      true) ∧
    freshSession.lastSeenSeq < frameSeq (signedQuery 0x00010001) ∧
    freshSession.lastSeenSeq < frameSeq (signedQuery 0x00010002) ∧
    (dispatch agentEnv.env agentEnv.node oneTask (signedQuery 0x00010001) 1).2.2 =
      [0x00, 0x90, 0x00] ∧
    (dispatch agentEnv.env agentEnv.node oneTask (signedQuery 0x00010002) 1).2.2 =
      [0xFF, 0x90, 0x00] := by
  refine ⟨⟨rfl, rfl, rfl, rfl, rfl, rfl, rfl, rfl⟩,
    fun seq => taggedFrame_verifies _ _ _ _ _ _ (by simp [putU32]), ?_⟩
  decide +kernel

/-- A signed SVC_RESTART of service `a` in that session. -/
def signedRestartA (seq : UInt32) : ApduFrame :=
  taggedFrame monocypher freshSession 0x04 0x22 0x00 (putU32 seq ++ [0x61]) (by simp [putU32])

/-- Two restarts under different Seqs. -/
theorem dispatch_seq_restart :
    verifyAuthTag monocypher freshSession.noise (signedRestartA 1) freshSession.epochId = true ∧
    dispatch agentEnv.env agentEnv.node oneTask (signedRestartA 1) freshSession.sessionId =
      dispatch agentEnv.env agentEnv.node oneTask (signedRestartA 2) freshSession.sessionId := by
  have htag : verifyAuthTag monocypher freshSession.noise (signedRestartA 1)
      freshSession.epochId = true := taggedFrame_verifies _ _ _ _ _ _ (by simp [putU32])
  have hsame : SameButSeq (signedRestartA 1) (signedRestartA 2) :=
    ⟨rfl, rfl, rfl, rfl, rfl, rfl, rfl, rfl⟩
  have hins : (signedRestartA 1).ins ≠ 0x11 := by decide
  exact ⟨htag, (dispatch_seq_iff monocypher freshSession hsame htag agentEnv.env agentEnv.node
    oneTask).mpr (.inl hins)⟩

end Asys
