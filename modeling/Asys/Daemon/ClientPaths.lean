import Asys.Daemon.Gates
import Asys.Daemon.KeyAgreement

/-! # The ways through handle_client

    A turn of a connection ends in one of four ways: turned away at the magic by the bare `return`,
    in the APDU loop for the first time, in the loop again, or through the label `cleanup` by one of
    the gotos and breaks. On any of them it calls the task pool for its own session only. -/

namespace Asys
open Words

/-! ### What a request calls of the task pool -/

/-- A call of the task pool that a handler makes. -/
inductive PoolCall where
  | sweep (now : ℤ)
  | free (handle : UInt32)
  | alloc (svcName : List UInt8) (pid : ℤ) (rand : UInt32) (now : ℤ)

/-- The call, made for session `s`. -/
def poolCall (s : UInt16) (g : TaskPool) : PoolCall → TaskPool
  | .sweep now => taskPoolSweepTimeouts g now
  | .free handle => taskPoolFree g handle
  | .alloc svcName pid rand now => (taskPoolAlloc g s svcName pid rand now).1

/-- A handle that is freed has the session in its high half. -/
def PoolCall.MadeFor (s : UInt16) : PoolCall → Prop
  | .free handle => high16 handle = s
  | _ => True

/-- Calls for session `s` make `g'` of `g`. -/
def CallsLeave (s : UInt16) (g g' : TaskPool) : Prop :=
  ∃ calls : List PoolCall, (∀ x ∈ calls, x.MadeFor s) ∧ calls.foldl (poolCall s) g = g'

theorem CallsLeave.refl (s : UInt16) (g : TaskPool) : CallsLeave s g g :=
  ⟨[], by simp, rfl⟩

theorem svcRestart_calls (env : Env) (g : TaskPool) (req : ApduFrame) (s : UInt16) :
    CallsLeave s g (handlerSvcRestart env g req s).1 := by
  have hc := handlerSvcRestart_cases env g req s
  generalize handlerSvcRestart env g req s = out at hc ⊢
  have hswept : CallsLeave s g (taskPoolSweepTimeouts g env.sweepTime) :=
    ⟨[.sweep env.sweepTime], by simp [PoolCall.MadeFor], rfl⟩
  cases hc with
  | rejected sw _ _ => exact .refl s g
  | reused handle _ _ _ => exact hswept
  | full _ _ _ => exact hswept
  | forkError errno i _ _ _ _ => exact hswept
  | started pid i _ _ _ hfirst =>
    refine ⟨[.sweep env.sweepTime, .alloc (nameBuf req) pid env.rand env.allocTime],
      by simp [PoolCall.MadeFor], ?_⟩
    simp only [List.foldl_cons, List.foldl_nil, poolCall, taskPoolAlloc_of_some hfirst]

theorem taskQuery_calls (env : Env) (g : TaskPool) (req : ApduFrame) (s : UInt16) :
    CallsLeave s g (handlerTaskQuery env g req s).1 := by
  have hc := handlerTaskQuery_cases env g req s
  generalize handlerTaskQuery env g req s = out at hc ⊢
  have hswept : CallsLeave s g (taskPoolSweepTimeouts g env.sweepTime) :=
    ⟨[.sweep env.sweepTime], by simp [PoolCall.MadeFor], rfl⟩
  cases hc with
  | short _ => exact .refl s g
  | notFound _ _ => exact hswept
  | pending i _ _ _ => exact hswept
  | terminal i _ hfind _ =>
    have hown := (taskPoolFindHandle_some hfind).2.1
    exact ⟨[.sweep env.sweepTime, .free (queryHandle req)], by simp [PoolCall.MadeFor, hown], rfl⟩

/-- Whatever is requested. -/
theorem dispatch_calls (env : Env) (node : NodeReading) (g : Statics) (req : ApduFrame)
    (s : UInt16) : CallsLeave s g.pool (dispatch env node g req s).1.pool := by
  rcases dispatch_cases env node g req s with ⟨-, hd⟩ | ⟨h, -, hd⟩ <;> rw [hd]
  · exact .refl s g.pool
  · cases h with
    | svcRestart => exact svcRestart_calls env g.pool req s
    | taskQuery => exact taskQuery_calls env g.pool req s
    | _ => exact .refl s g.pool

/-! ### How a turn ends -/

/-- `wait_for_client_magic`: the first four bytes come, and are the magic. -/
def waitForClientMagic (inp : List UInt8) : Bool :=
  match recvExact inp 4 with
  | none => false
  | some (magic, _) => be32At magic 0 = clientMagic

/-- The turn goes through `cleanup` with the pool at `pool`: the tasks of the session are released. -/
structure Quits (pool : TaskPool) (c : ClientThread) (t : Turn) : Prop where
  closed : t.thread.phase = .closed
  sessionId : t.thread.ctx.sessionId = c.ctx.sessionId
  released : t.statics.pool = taskPoolReleaseSession pool c.ctx.sessionId

/-- The turn ends in the loop, with the pool at `pool`. -/
structure StaysIn (pool : TaskPool) (c : ClientThread) (t : Turn) : Prop where
  serving : t.thread.phase = .serving
  sessionId : t.thread.ctx.sessionId = c.ctx.sessionId
  kept : t.statics.pool = pool
  inp : t.thread.inp.length ≤ c.inp.length

/-- The ways of a turn. -/
inductive TurnPath (e : TurnEnv) (g : Statics) (c : ClientThread) (t : Turn) : Prop where
  /-- the bare `return` -/
  | turnedAway : c.phase = .start → waitForClientMagic c.inp = false → t.thread.phase = .closed →
      t.thread.ctx.sessionId = c.ctx.sessionId → t.statics = g → TurnPath e g c t
  /-- a goto on the way to the loop -/
  | refused : c.phase = .start → waitForClientMagic c.inp = true → Quits g.pool c t →
      TurnPath e g c t
  /-- through the handshake and the whitelist, with a parser -/
  | admitted : c.phase = .start → waitForClientMagic c.inp = true → e.parserFree = true →
      StaysIn g.pool c t → t.thread.inp.length < c.inp.length → TurnPath e g c t
  | goesOn (pool : TaskPool) : c.phase = .serving → CallsLeave c.ctx.sessionId g.pool pool →
      StaysIn pool c t → t.thread.inp.length < c.inp.length → TurnPath e g c t
  /-- a break or a goto in the loop -/
  | breaks (pool : TaskPool) : c.phase = .serving → CallsLeave c.ctx.sessionId g.pool pool →
      Quits pool c t → TurnPath e g c t

/-- A turn leaves its thread in the same session. -/
theorem TurnPath.sessionId {e : TurnEnv} {g : Statics} {c : ClientThread} {t : Turn}
    (h : TurnPath e g c t) : t.thread.ctx.sessionId = c.ctx.sessionId := by
  cases h with
  | turnedAway _ _ _ hs _ => exact hs
  | refused _ _ h => exact h.sessionId
  | admitted _ _ _ h _ => exact h.sessionId
  | goesOn _ _ _ h _ => exact h.sessionId
  | breaks _ _ _ h => exact h.sessionId

/-- The turn calls the pool, which is at `g`, and then ends. -/
def EndsAfterCalls (g : TaskPool) (c : ClientThread) (t : Turn) : Prop :=
  ∃ pool, CallsLeave c.ctx.sessionId g pool ∧ (Quits pool c t ∨ StaysIn pool c t)

/-! ### The APDU loop -/

section
variable {mc : Monocypher} {e : TurnEnv} {g : Statics} {c c' : ClientThread} {t : Turn}

/-- The same turn, told from an earlier point of it. -/
theorem Quits.of_later {pool : TaskPool} (h : Quits pool c' t)
    (hs : c'.ctx.sessionId = c.ctx.sessionId) : Quits pool c t := by
  have hreleased := h.released
  rw [hs] at hreleased
  exact ⟨h.closed, h.sessionId.trans hs, hreleased⟩

theorem StaysIn.of_later {pool : TaskPool} (h : StaysIn pool c' t)
    (hs : c'.ctx.sessionId = c.ctx.sessionId) (hinp : c'.inp.length ≤ c.inp.length) :
    StaysIn pool c t :=
  ⟨h.serving, h.sessionId.trans hs, h.kept, h.inp.trans hinp⟩

theorem quit_quits (g : Statics) (hs : c'.ctx.sessionId = c.ctx.sessionId)
    (sent answers : List (List UInt8)) (frame : Option ApduFrame) (effects : List Effect) (a : Bool) :
    Quits g.pool c (quit g c' sent answers frame effects a) := by
  refine ⟨rfl, hs, ?_⟩
  rw [← hs]
  rfl

theorem refuse_ends (sw : UInt16) (frame : Option ApduFrame) :
    EndsAfterCalls g.pool c (refuse mc g c sw frame) :=
  ⟨g.pool, .refl _ _, .inl (quit_quits g (sendSw_ctx mc c.ctx sw).2 _ _ _ _ _)⟩

theorem serve_ends (mc : Monocypher) (e : TurnEnv) (g : Statics) (hc : c.phase = .serving)
    (frame : ApduFrame) (a : Bool) :
    EndsAfterCalls g.pool c (serve mc e g c frame a) := by
  refine ⟨_, dispatch_calls e.env e.node g frame c.ctx.sessionId, ?_⟩
  rw [serve]
  dsimp only
  split
  · refine .inl (quit_quits _ ?_ _ _ _ _ _)
    rfl
  split
  · refine .inl (quit_quits _ ?_ _ _ _ _ _)
    rfl
  split
  · refine .inl (quit_quits _ ?_ _ _ _ _ _)
    rfl
  · exact .inr ⟨hc, rfl, rfl, le_rfl⟩

theorem gate_ends (mc : Monocypher) (e : TurnEnv) (g : Statics) (hc : c.phase = .serving)
    (frame : ApduFrame) :
    EndsAfterCalls g.pool c (gate mc e g c frame) := by
  rw [gate]
  split
  · split
    · exact refuse_ends _ _
    dsimp only
    split
    · exact refuse_ends _ _
    · have hs : ({ c with ctx := { c.ctx with lastSeenSeq := frameSeq frame } } :
          ClientThread).phase = .serving := hc
      obtain ⟨pool, hcalls, h⟩ := serve_ends mc e g hs frame true
      exact ⟨pool, hcalls, h.imp (fun h => h.of_later rfl) fun h => h.of_later rfl le_rfl⟩
  · exact serve_ends mc e g hc frame false

theorem onPacket_ends (mc : Monocypher) (e : TurnEnv) (g : Statics) (hc : c.phase = .serving) :
    EndsAfterCalls g.pool c (onPacket mc e g c) := by
  rw [onPacket]
  split
  · exact ⟨g.pool, .refl _ _, .inr ⟨hc, rfl, rfl, le_rfl⟩⟩
  · exact refuse_ends _ _
  · exact refuse_ends _ _
  · exact refuse_ends _ _
  · exact refuse_ends _ _
  · exact gate_ends mc e g hc _

theorem recvExact_length {inp bs rest : List UInt8} {n : ℕ} (h : recvExact inp n = some (bs, rest)) :
    inp.length = n + rest.length := by
  simp only [recvExact] at h
  split at h
  · cases h
  · obtain ⟨-, rfl⟩ := Prod.mk.inj (Option.some.inj h)
    rw [List.length_drop]
    omega

/-- A packet uses up what the peer has sent. -/
theorem recvPacket_shorter (h : recvPacket mc c = some c') : c'.inp.length < c.inp.length := by
  rw [recvPacket] at h
  split at h
  · cases h
  rename_i lenBuf rest hlen
  dsimp only at h
  split at h
  · cases h
  split at h
  · cases h
  rename_i cipher rest' hcipher
  split at h
  · cases h
  split at h
  · cases h
  · obtain rfl := Option.some.inj h
    have hhead := recvExact_length hlen
    have hbody := recvExact_length hcipher
    dsimp only
    omega

theorem clientLoop_path (mc : Monocypher) (e : TurnEnv) (g : Statics) (hc : c.phase = .serving) :
    TurnPath e g c (clientLoop mc e g c) := by
  rw [clientLoop]
  split
  · refine .breaks g.pool hc (.refl _ _) (quit_quits g ?_ _ _ _ _ _)
    rfl
  · rename_i c' hrecv
    obtain ⟨hphase, -, -, -, hs⟩ := recvPacket_some hrecv
    have hshort := recvPacket_shorter hrecv
    obtain ⟨pool, hcalls, h⟩ := onPacket_ends mc e g (hphase.trans hc)
    rw [hs] at hcalls
    rcases h with h | h
    · exact .breaks pool hc hcalls (h.of_later hs)
    · exact .goesOn pool hc hcalls (h.of_later hs hshort.le) (h.inp.trans_lt hshort)

/-! ### Up to the loop -/

theorem afterMsg2_path (sent : List (List UInt8)) (shown : Handshake) :
    Quits g.pool c (afterMsg2 mc e g c sent shown) ∨
      e.parserFree = true ∧ StaysIn g.pool c (afterMsg2 mc e g c sent shown) := by
  simp only [afterMsg2]
  split
  · exact .inl (quit_quits g (sendSw_ctx mc c.ctx swAccessDenied).2 _ _ _ _ _)
  split
  · exact .inl (quit_quits g rfl _ _ _ _ _)
  · rename_i hfree
    exact .inr ⟨by simpa using hfree, rfl, rfl, rfl, le_rfl⟩

theorem answerMsg1_path (mc : Monocypher) (e : TurnEnv) (g : Statics) (c : ClientThread)
    (sent : List (List UInt8)) (magic msg1 : List UInt8) :
    Quits g.pool c (answerMsg1 mc e g c sent magic msg1) ∨
      e.parserFree = true ∧ StaysIn g.pool c (answerMsg1 mc e g c sent magic msg1) := by
  unfold answerMsg1
  dsimp only
  split
  · refine .inl (quit_quits g ?_ _ _ _ _ _)
    rfl
  split
  · refine .inl (quit_quits g ?_ _ _ _ _ _)
    rfl
  split
  · refine .inl (quit_quits g ?_ _ _ _ _ _)
    rfl
  · exact (afterMsg2_path _ _).imp (fun h => h.of_later rfl) fun h => ⟨h.1, h.2.of_later rfl le_rfl⟩

theorem clientStart_path (mc : Monocypher) (keys : ServerKeys) {e : TurnEnv} (g : Statics)
    (hc : c.phase = .start)
    (hid : e.sessionId = c.ctx.sessionId) : TurnPath e g c (clientStart mc keys e g c) := by
  rw [clientStart]
  dsimp only
  split
  · rename_i hnone
    exact .turnedAway hc (by rw [waitForClientMagic, hnone]) rfl hid rfl
  rename_i magic inp hmagic
  split
  · rename_i hval
    exact .turnedAway hc (by rw [waitForClientMagic, hmagic]; simpa using hval) rfl hid rfl
  rename_i hval
  have hwait : waitForClientMagic c.inp = true := by
    rw [waitForClientMagic, hmagic]
    simpa using hval
  split
  · exact .refused hc hwait (quit_quits g hid _ _ _ _ _)
  split
  · exact .refused hc hwait (quit_quits g hid _ _ _ _ _)
  · rename_i msg1 rest hmsg1
    have hshort : rest.length < c.inp.length := by
      have hhead := recvExact_length hmagic
      have hbody := recvExact_length hmsg1
      omega
    rcases answerMsg1_path mc e g _ _ magic msg1 with h | ⟨hfree, h⟩
    · exact .refused hc hwait (h.of_later hid)
    · exact .admitted hc hwait hfree (h.of_later hid hshort.le) (h.inp.trans_lt hshort)

/-- The ways of a turn that begins under its session's id. -/
theorem clientTurn_path {keys : ServerKeys} (hid : e.sessionId = c.ctx.sessionId)
    (h : clientTurn mc keys e g c = some t) : TurnPath e g c t := by
  simp only [clientTurn] at h
  cases hphase : c.phase with
  | start =>
    rw [hphase] at h
    obtain rfl := Option.some.inj h
    exact clientStart_path mc keys g hphase hid
  | serving =>
    rw [hphase] at h
    obtain rfl := Option.some.inj h
    exact clientLoop_path mc e g hphase
  | closed =>
    rw [hphase] at h
    cases h

end

/-! ### An agent on the list -/

/-- The surroundings of a turn in which the network takes all bytes. -/
def TurnEnv.delivering (e : TurnEnv) : TurnEnv := { e with sends := fun _ => true }

/-- What the agent sends first. -/
def hello : List UInt8 := putU32 clientMagic

theorem recvExact_append (bs rest : List UInt8) :
    recvExact (bs ++ rest) bs.length = some (bs, rest) := by
  simp [recvExact]

section
variable {mc : Monocypher}

/-- A peer that sends the magic and no more is waited for, and then the connection ends. -/
theorem clientStart_silent (keys : ServerKeys) (e : TurnEnv) (g : Statics) :
    (clientStart mc keys e g (clientThread₀ hello)).thread.phase = .closed := by
  have hmagic : recvExact (clientThread₀ hello).inp 4 = some (hello, []) := rfl
  have hword : be32At hello 0 = clientMagic := rfl
  have hmsg1 : recvExact [] noiseMsg1Size = none := rfl
  rw [clientStart]
  dsimp only
  rw [hmagic]
  dsimp only
  rw [if_neg (not_not.mpr hword), hmsg1]
  split <;> rfl

/-- The turn on the magic and a msg1 that opens, for an agent on the list. -/
theorem clientStart_msg1 {keys : ServerKeys} {e : TurnEnv} (g : Statics) {msg1 msg2 pub : List UInt8}
    {server₂ : NoiseIKState} (hlen : msg1.length = noiseMsg1Size)
    (hok : (noiseIkReadMsg1 mc (noiseIkInitServer mc keys.priv keys.pub) msg1).rc = .ok)
    (hpub : (noiseIkReadMsg1 mc (noiseIkInitServer mc keys.priv keys.pub) msg1).agentPub = some pub)
    (hw : noiseIkWriteMsg2 mc e.urandom
      (noiseIkReadMsg1 mc (noiseIkInitServer mc keys.priv keys.pub) msg1).st = some (server₂, msg2))
    (hlisted : whitelistCheck e.whitelist pub = true) (hfree : e.parserFree = true) :
    ∃ t, clientStart mc keys e.delivering g (clientThread₀ (hello ++ msg1)) = t ∧
      t.sent = [preHandshakeFrame keys.pub, msg2] ∧ t.thread = ⟨.serving,
        ⟨e.sessionId, server₂, pub, deriveEpochId mc server₂.recvKey, 0⟩, apduPoolSlot, []⟩ := by
  have hmagic : recvExact (clientThread₀ (hello ++ msg1)).inp 4 = some (hello, msg1) :=
    recvExact_append hello msg1
  have hword : be32At hello 0 = clientMagic := rfl
  have hmsg1 := recvExact_append msg1 []
  rw [hlen, List.append_nil] at hmsg1
  have hw' : noiseIkWriteMsg2 mc e.delivering.urandom
      (noiseIkReadMsg1 mc (noiseIkInitServer mc keys.priv keys.pub) msg1).st =
        some (server₂, msg2) := hw
  have hlisted' : whitelistCheck e.delivering.whitelist pub = true := hlisted
  have hfree' : e.delivering.parserFree = true := hfree
  have hsends : ∀ n, e.delivering.sends n = true := fun _ => rfl
  refine ⟨_, rfl, ?_⟩
  rw [clientStart]
  dsimp only
  rw [hmagic]
  dsimp only
  rw [if_neg (not_not.mpr hword), hsends, if_neg (by decide), hmsg1]
  dsimp only
  rw [answerMsg1]
  dsimp only
  rw [if_neg (not_not.mpr hok), hw', hpub]
  dsimp only
  rw [hsends, if_neg (by decide), afterMsg2]
  dsimp only [Option.getD_some]
  rw [if_neg (by simp [hlisted']), if_neg (by simp [hfree'])]
  exact ⟨rfl, rfl⟩

/-- An agent on the list has bytes to send that get it into the loop. -/
theorem clientStart_admits (hmc : mc.AeadInverts) {client : Noise.KeyPair} {keys : ServerKeys}
    (hclient : KeyPairOf mc client) (hkeys : KeyPairOf mc ⟨keys.priv, keys.pub⟩)
    (urandom : Option (List UInt8)) (e : TurnEnv)
    (hdh : X25519Commutes mc [client.priv, (ephemeralPair mc urandom).priv]
      [keys.priv, (ephemeralPair mc e.urandom).priv])
    (hlisted : whitelistCheck e.whitelist client.pub = true) (hfree : e.parserFree = true) :
    ∃ msg1 c, c.phase = .serving ∧ c.ctx.sessionId = e.sessionId ∧ c.inp = [] ∧
      ∀ g, (clientStart mc keys e.delivering g (clientThread₀ (hello ++ msg1))).thread = c := by
  obtain ⟨client₁, msg1, server₂, msg2, hw₁, hok, hagent, hw₂, -⟩ :=
    messages_agree hmc hclient hkeys urandom e.urandom hdh
  have hpub : client.pub.length = noiseKeySize := by rw [hclient, mc.publicKey_length]
  have hlen := noiseIkWriteMsg1_length hpub hw₁
  refine ⟨msg1, ⟨.serving, ⟨e.sessionId, server₂, client.pub, deriveEpochId mc server₂.recvKey, 0⟩,
    apduPoolSlot, []⟩, rfl, rfl, rfl, fun g => ?_⟩
  obtain ⟨t, hturn, -, hthread⟩ := clientStart_msg1 g hlen hok hagent hw₂ hlisted hfree
  rw [hturn, hthread]

end

end Asys
