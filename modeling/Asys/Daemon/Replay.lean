import Asys.Daemon.Gates

/-! # A frame that is sent twice

    A signed frame whose Seq is not new is answered 0x6985, and then the loop leaves through
    `cleanup`: the connection is closed and the tasks of the session are released with it. -/

namespace Asys
open Words

/-- A connection in its loop, at the packet that completes a signed frame with the right tag and a Seq
    that is not new. `statics` is what the daemon holds when the packet comes in. -/
structure Replay (mc : Monocypher) (keys : ServerKeys) where
  inp : List UInt8
  turns : List (TurnEnv × Statics)
  env : TurnEnv
  statics : Statics
  received : ClientThread
  frame : ApduFrame
  serving : (handleClient mc keys inp turns).thread.phase = .serving
  packet : recvPacket mc (handleClient mc keys inp turns).thread = some received
  parsed : apduParserTryParse received.parser = .frameReady frame
  signed : frame.sec ≠ apduSecPlain
  tagged : verifyAuthTag mc received.ctx.noise frame received.ctx.epochId = true
  old : frameSeq frame ≤ received.ctx.lastSeenSeq

section
variable {mc : Monocypher} {keys : ServerKeys}

/-- The thread when the packet comes in. -/
def Replay.thread (x : Replay mc keys) : ClientThread := (handleClient mc keys x.inp x.turns).thread

/-- The turn that the packet starts. -/
def Replay.turn (x : Replay mc keys) : Turn := clientLoop mc x.env x.statics x.thread

theorem Replay.turn_eq (x : Replay mc keys) :
    clientTurn mc keys x.env x.statics x.thread = some x.turn := by
  simp only [clientTurn]
  rw [show x.thread.phase = .serving from x.serving]
  rfl

/-- What a retransmission asks for: the answer 0x6985 and nothing else. `tasks`: the tasks of the
    session are still there. `queries`: every TASK_QUERY of the session is answered as before. -/
structure Harmless (x : Replay mc keys) : Prop where
  answer : x.turn.answers = [swWrite swReplayDetected]
  counter : x.turn.thread.ctx.lastSeenSeq = x.thread.ctx.lastSeenSeq
  opened : x.turn.thread.phase = .serving
  tasks : ∀ i, (x.statics.pool i).sessionId = x.thread.ctx.sessionId →
    x.turn.statics.pool i = x.statics.pool i
  queries : ∀ env node req, req.ins = 0x11 →
    (dispatch env node x.turn.statics req x.thread.ctx.sessionId).2.2 =
      (dispatch env node x.statics req x.thread.ctx.sessionId).2.2

/-- What happens instead: the answer is sent, the connection is closed, and the session has no task
    left. -/
structure Dropped (x : Replay mc keys) : Prop where
  answer : x.turn.answers = [swWrite swReplayDetected]
  counter : x.turn.thread.ctx.lastSeenSeq = x.thread.ctx.lastSeenSeq
  closed : x.turn.thread.phase = .closed
  tasks : ∀ i, (x.statics.pool i).sessionId = x.thread.ctx.sessionId →
    (x.turn.statics.pool i).status = .empty

/-- In the loop the cipher has its keys. -/
theorem handleClient_done {inp : List UInt8} {es : List (TurnEnv × Statics)}
    (h : (handleClient mc keys inp es).thread.phase = .serving) :
    (handleClient mc keys inp es).thread.ctx.noise.handshakeDone = true := by
  obtain ⟨hs, noise, -, hpass, hkeys, -⟩ := (handleClient_ok mc keys inp es).session h
  obtain ⟨msg2, hmsg2⟩ := hpass.keys
  rw [hkeys.done]
  exact (noiseIkWriteMsg2_opens hmsg2).done

theorem sendSw_answers {ctx : SessionCtx} {sw : UInt16} (h : ctx.noise.handshakeDone = true) :
    (sendSw mc ctx sw).answers = [swWrite sw] := by
  obtain ⟨⟨noise, enc⟩, hen⟩ := Option.isSome_iff_exists.mp (noiseIkEncrypt_isSome mc (swWrite sw) h)
  simp only [sendSw]
  rw [hen]

/-- The turn is the refusal of the replay gate. -/
theorem Replay.turn_refused (x : Replay mc keys) :
    x.turn = refuse mc x.statics x.received swReplayDetected (some x.frame) := by
  have hpacket : recvPacket mc x.thread = some x.received := x.packet
  unfold Replay.turn clientLoop
  rw [hpacket]
  dsimp only [onPacket]
  rw [x.parsed]
  dsimp only [gate]
  rw [if_pos x.signed, if_neg (by rw [x.tagged]; nofun), if_pos x.old]

theorem Replay.dropped (x : Replay mc keys) : Dropped x := by
  obtain ⟨-, hkeys, -, hlast, hid⟩ := recvPacket_some x.packet
  have hdone : x.received.ctx.noise.handshakeDone = true := by
    rw [hkeys.done]
    exact handleClient_done x.serving
  obtain ⟨hl, hs⟩ := sendSw_ctx mc x.received.ctx swReplayDetected
  refine ⟨?_, ?_, ?_, fun i hi => ?_⟩ <;> rw [x.turn_refused]
  · exact sendSw_answers hdone
  · exact hl.trans hlast
  · rfl
  · show (taskPoolReleaseSession x.statics.pool
      (sendSw mc x.received.ctx swReplayDetected).ctx.sessionId i).status = .empty
    rw [hs, hid, taskPoolReleaseSession_apply]
    by_cases hlive : (x.statics.pool i).status = .empty
    · rw [if_neg (fun h => h.2 hlive), hlive]
    · rw [if_pos ⟨hi, hlive⟩]
      rfl

/-- CORRECT (never): no retransmission leaves the session as it was; each one ends it. -/
theorem replay_ends_session (x : Replay mc keys) : Dropped x ∧ ¬ Harmless x := by
  refine ⟨x.dropped, fun h => ?_⟩
  have hclosed := x.dropped.closed
  rw [h.opened] at hclosed
  cases hclosed

/-- The next packet completes a tagged frame with an old Seq. -/
def oldFrame (mc : Monocypher) (c : ClientThread) : Bool :=
  match recvPacket mc c with
  | none => false
  | some c =>
    match apduParserTryParse c.parser with
    | .frameReady frame => frame.sec ≠ apduSecPlain ∧
        verifyAuthTag mc c.ctx.noise frame c.ctx.epochId = true ∧ frameSeq frame ≤ c.ctx.lastSeenSeq
    | _ => false

/-- A packet with an old frame, on a connection in its loop. -/
theorem Replay.exists_of_oldFrame (inp : List UInt8) (turns : List (TurnEnv × Statics))
    (hserving : (handleClient mc keys inp turns).thread.phase = .serving)
    (hold : oldFrame mc (handleClient mc keys inp turns).thread = true) (env : TurnEnv)
    (statics : Statics) :
    ∃ x : Replay mc keys, x.inp = inp ∧ x.turns = turns ∧ x.env = env ∧ x.statics = statics := by
  simp only [oldFrame] at hold
  cases hpacket : recvPacket mc (handleClient mc keys inp turns).thread with
  | none =>
    rw [hpacket] at hold
    cases hold
  | some received =>
    rw [hpacket] at hold
    dsimp only at hold
    cases hparsed : apduParserTryParse received.parser with
    | frameReady frame =>
      rw [hparsed] at hold
      obtain ⟨hsigned, htagged, hseq⟩ := of_decide_eq_true hold
      exact ⟨⟨inp, turns, env, statics, received, frame, hserving, hpacket, hparsed, hsigned,
        htagged, hseq⟩, rfl, rfl, rfl, rfl⟩
    | _ =>
      rw [hparsed] at hold
      cases hold

end

/-! ### A restart that is sent again -/

def serverKeys : ServerKeys where
  priv :=
    [0x10, 0x11, 0x11, 0x11, 0x11, 0x11, 0x11, 0x11, 0x11, 0x11, 0x11, 0x11, 0x11, 0x11, 0x11, 0x11,
      0x11, 0x11, 0x11, 0x11, 0x11, 0x11, 0x11, 0x11, 0x11, 0x11, 0x11, 0x11, 0x11, 0x11, 0x11,
      0x51]
  pub :=
    [0x7B, 0x4E, 0x90, 0x9B, 0xBE, 0x7F, 0xFE, 0x44, 0xC4, 0x65, 0xA2, 0x20, 0x03, 0x7D, 0x60, 0x8E,
      0xE3, 0x58, 0x97, 0xD3, 0x1E, 0xF9, 0x72, 0xF0, 0x7F, 0x74, 0x89, 0x2C, 0xB0, 0xF7, 0x3F,
      0x13]

/-- The static key of the agent. -/
def agentKey : List UInt8 :=
  [0x0F, 0xAA, 0x68, 0x4E, 0xD2, 0x88, 0x67, 0xB9, 0x7F, 0x4A, 0x6A, 0x2D, 0xEE, 0x5D, 0xF8, 0xCE,
    0x97, 0x4E, 0x76, 0xB7, 0x01, 0x8E, 0x3F, 0x22, 0xA1, 0xC4, 0xCF, 0x26, 0x78, 0x57, 0x0F, 0x20]

/-- What the agent sends: the magic, msg1, and twice, each time under a new nonce, the signed frame
    `SVC_RESTART "a"` with Seq 1. -/
def agentBytes : List UInt8 :=
  putU32 clientMagic ++
  [0x7B, 0x0D, 0x47, 0xD9, 0x34, 0x27, 0xF8, 0x31, 0x11, 0x60, 0x78, 0x1C, 0x7C, 0x73, 0x3F, 0xD8,
    0x9F, 0x88, 0x97, 0x0A, 0xEF, 0x49, 0x0D, 0x8A, 0xA0, 0xEE, 0x19, 0xA4, 0xCB, 0x8A, 0x1B, 0x14,
    0x2E, 0x10, 0x05, 0x77, 0x67, 0xB3, 0x44, 0x6B, 0x61, 0x76, 0x19, 0x83, 0x5F, 0x52, 0xC8, 0xCB,
    0x84, 0xBC, 0xA9, 0xCE, 0x40, 0x0B, 0xC1, 0xF9, 0x0B, 0x80, 0x16, 0xC2, 0x55, 0x4D, 0x25, 0x27,
    0xA6, 0x78, 0x62, 0x17, 0xD0, 0x3F, 0x52, 0xDF, 0x58, 0xC1, 0xFF, 0xD7, 0xC7, 0xA7, 0x89, 0xA9,
    0x94, 0xEF, 0xE2, 0x57, 0xEC, 0xB9, 0x22, 0xCB, 0x4E, 0x1C, 0xB1, 0x09, 0x7F, 0xB2, 0x04, 0xAF] ++
  [0x00, 0x2B, 0xC1, 0x87, 0xF5, 0xA9, 0xD3, 0xB7, 0x75, 0x0B, 0x2E, 0xFC, 0xA1, 0x8E, 0x4C, 0xCF,
    0x58, 0x81, 0xB8, 0x9B, 0x7A, 0xDF, 0x68, 0x2E, 0xE9, 0x9E, 0x6D, 0xEB, 0xD1, 0xC2, 0xA2, 0x6E,
    0xBA, 0xCA, 0xB6, 0xA7, 0x60, 0xD4, 0x6F, 0x48, 0xB8, 0x51, 0x2F, 0xCF, 0xA8] ++
  [0x00, 0x2B, 0xC4, 0x5F, 0x1D, 0xA3, 0x55, 0x8B, 0x1F, 0x56, 0x39, 0x8E, 0xA6, 0xE3, 0x05, 0xF0,
    0x87, 0x2A, 0x22, 0xC3, 0xB1, 0x57, 0x42, 0xFD, 0x6C, 0x4E, 0xAA, 0x34, 0x88, 0xA7, 0x74, 0x45,
    0xE1, 0x7E, 0x44, 0x5E, 0x6D, 0x00, 0xEF, 0xB0, 0x8A, 0xD7, 0x70, 0x2B, 0xDA]

/-- The node at rest: it reads nothing, and its `fork` gives 500. -/
def agentEnv : TurnEnv where
  env := ⟨100, 100, 5, .child 500, none⟩
  node := ⟨⟨none, none⟩, ⟨none, [], none, false⟩, ⟨0, ⟨0, 0, 0, 0, 0, 0, 0, 0, 0⟩, 0⟩,
    ⟨0, ⟨0, none⟩, ⟨0, none⟩, 1⟩⟩
  whitelist := ⟨[⟨agentKey, []⟩], by decide⟩
  urandom := some (List.replicate 32 0x44)
  sends := fun _ => true
  parserFree := true
  sessionId := 7

/-- The daemon before the connection. -/
def idleStatics : Statics where
  pool := fun _ => zeroEntry
  status := ⟨⟨0, 0, 0, 0, 0, 0, 0, 0, 0⟩, 0⟩
  procs := ⟨⟨none, 0⟩, ⟨none, 0⟩⟩

def agentTurns : List (TurnEnv × Statics) := [(agentEnv, idleStatics), (agentEnv, idleStatics)]

/-- The connection up to the answer to the first of the two frames. -/
def agentRun : ClientRun := handleClient monocypher serverKeys agentBytes agentTurns

/-- What the first of the two frames leaves of the daemon. -/
def agentStatics : Statics := (agentRun.turns.head?.map Turn.statics).getD idleStatics

/-- The restart is pending under the handle 0x00070005, and the frame in the next packet is old. -/
theorem agentRun_pending :
    (agentRun.thread.phase = .serving ∧ oldFrame monocypher agentRun.thread = true) ∧
    (agentStatics.pool 0).sessionId = agentRun.thread.ctx.sessionId ∧
    (agentStatics.pool 0).handleId = 0x00070005 ∧ (agentStatics.pool 0).status = .pending := by
  decide +kernel

/-- The second copy of the frame closes the connection, and the pending restart is forgotten. -/
theorem retransmission_forgets_task :
    ∃ x : Replay monocypher serverKeys, x.inp = agentBytes ∧ x.statics = agentStatics ∧
      (x.statics.pool 0).handleId = 0x00070005 ∧ (x.statics.pool 0).status = .pending ∧
      x.turn.thread.phase = .closed ∧ (x.turn.statics.pool 0).status = .empty ∧ ¬ Harmless x := by
  obtain ⟨⟨hserving, hold⟩, hsession, hhandle, hpending⟩ := agentRun_pending
  rw [agentRun] at hserving hold
  obtain ⟨x, hinp, hturns, -, hstatics⟩ :=
    Replay.exists_of_oldFrame agentBytes agentTurns hserving hold agentEnv agentStatics
  have hthread : x.thread = agentRun.thread := by rw [Replay.thread, hinp, hturns, agentRun]
  rw [← hstatics] at hsession hhandle hpending
  rw [← hthread] at hsession
  have hempty := x.dropped.tasks 0 hsession
  refine ⟨x, hinp, hstatics, hhandle, hpending, x.dropped.closed, hempty, fun h => ?_⟩
  rw [h.tasks 0 hsession, hpending] at hempty
  cases hempty

end Asys
