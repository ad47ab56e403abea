import Asys.Core.AuthVerify
import Asys.Core.Dispatcher
import Asys.Lib.Runs

/-! # asyd.c: handle_client

    A connection is a byte stream from the peer; a peer that falls silent is one whose stream ends.
    A turn is the way from the start of the connection into the APDU loop, or one pass through that
    loop. Other threads run between the turns, so each turn is given the static data as it finds
    them, together with what the kernel answers in it. -/

namespace Asys
open Words

/-- `"ASYS"`. -/
def clientMagic : UInt32 := 0x41535953

structure ServerKeys where
  priv : List UInt8
  pub : List UInt8

structure SessionCtx where
  sessionId : UInt16
  noise : NoiseIKState
  agentPub : List UInt8
  epochId : List UInt8
  lastSeenSeq : UInt32

inductive ClientPhase where | start | serving | closed
  deriving DecidableEq, Repr

/-- A client thread between two turns. `inp` is what the peer has still to send. -/
structure ClientThread where
  phase : ClientPhase
  ctx : SessionCtx
  parser : ApduParser
  inp : List UInt8

/-- What the surroundings decide during a turn: `sends k` says whether the `k`-th `send` takes all
    its bytes, `parserFree` whether `apdu_pool_acquire` finds a parser. -/
structure TurnEnv where
  env : Env
  node : NodeReading
  whitelist : Whitelist
  urandom : Option (List UInt8)
  sends : ℕ → Bool
  parserFree : Bool
  sessionId : UInt16

/-- What a connection showed on its way into the APDU loop, and what it was held against. -/
structure Handshake where
  magic : List UInt8
  msg1 : List UInt8
  urandom : Option (List UInt8)
  whitelist : Whitelist

/-- What one turn does. `sent` are the buffers given to `send`, `answers` the responses in them
    before encryption, `frame` the frame the parser found; `accepted` says that the frame passed the
    tag and the Seq gate, and `handshake` is there when the turn reached the loop. -/
structure Turn where
  statics : Statics
  thread : ClientThread
  sent : List (List UInt8)
  answers : List (List UInt8)
  frame : Option ApduFrame
  effects : List Effect
  accepted : Bool
  handshake : Option Handshake

/-- The thread as it enters `handle_client`. -/
def clientThread₀ (inp : List UInt8) : ClientThread where
  phase := .start
  ctx := ⟨0, noiseIkWiped, zeroKey, List.replicate 4 0, 0⟩
  parser := ⟨fun _ => 0, 0, false⟩
  inp := inp

/-- `recv_exact`: the bytes and the rest of the stream, `none` when it ends before. -/
def recvExact (inp : List UInt8) (n : ℕ) : Option (List UInt8 × List UInt8) :=
  if inp.length < n then none else some (inp.take n, inp.drop n)

/-- The 38 bytes sent before the handshake. -/
def preHandshakeFrame (pub : List UInt8) : List UInt8 := putU32 clientMagic ++ [0x01, 0x00] ++ pub

/-- `HMAC-BLAKE2b(recv_key, "asys-epoch-v1")[:4]`. -/
def deriveEpochId (mc : Monocypher) (recvKey : List UInt8) : List UInt8 :=
  (hmacBlake2b mc recvKey
    [0x61, 0x73, 0x79, 0x73, 0x2D, 0x65, 0x70, 0x6F, 0x63, 0x68, 0x2D, 0x76, 0x31]).take 4

/-- The two bytes sent before a ciphertext of `n` bytes. -/
def packetHeader (n : ℕ) : List UInt8 := [(n / 256).toUInt8, n.toUInt8]

/-- `seq`, the first four bytes of a signed frame's data. -/
def frameSeq (frame : ApduFrame) : UInt32 := be32At frame.data 0

/-- The label `cleanup`, and the end of the connection. -/
def cleanup (g : Statics) (c : ClientThread) : Statics × ClientThread :=
  ({ g with pool := taskPoolReleaseSession g.pool c.ctx.sessionId },
    { c with
      phase := .closed
      ctx := { c.ctx with noise := noiseIkWiped }
      parser := ⟨fun _ => 0, 0, false⟩ })

/-- A turn that ends in `cleanup`. -/
def quit (g : Statics) (c : ClientThread) (sent answers : List (List UInt8)) (frame : Option ApduFrame)
    (effects : List Effect) (accepted : Bool) : Turn :=
  ⟨(cleanup g c).1, (cleanup g c).2, sent, answers, frame, effects, accepted, none⟩

/-- What `send_sw` gives: the session, the buffers sent and the answer in them. -/
structure SentSw where
  ctx : SessionCtx
  sent : List (List UInt8)
  answers : List (List UInt8)

/-- `send_sw`, which does not look at the outcome of `send`. -/
def sendSw (mc : Monocypher) (ctx : SessionCtx) (sw : UInt16) : SentSw :=
  match noiseIkEncrypt mc ctx.noise (swWrite sw) with
  | none => ⟨ctx, [], []⟩
  | some (noise, enc) =>
    ⟨{ ctx with noise := noise }, [packetHeader enc.length, enc], [swWrite sw]⟩

/-- A status word, and the way to `cleanup`. -/
def refuse (mc : Monocypher) (g : Statics) (c : ClientThread) (sw : UInt16)
    (frame : Option ApduFrame) : Turn :=
  let s := sendSw mc c.ctx sw
  quit g { c with ctx := s.ctx } s.sent s.answers frame [] false

/-! ### Up to the APDU loop -/

/-- The whitelist check and the parser, with the handshake behind. -/
def afterMsg2 (mc : Monocypher) (e : TurnEnv) (g : Statics) (c : ClientThread) (sent : List (List UInt8))
    (hs : Handshake) : Turn :=
  if whitelistCheck e.whitelist c.ctx.agentPub = false then
    let s := sendSw mc c.ctx swAccessDenied
    quit g { c with ctx := s.ctx } (sent ++ s.sent) s.answers none [] false
  else if e.parserFree = false then quit g c sent [] none [] false
  else ⟨g, { c with phase := .serving, parser := apduPoolSlot }, sent, [], none, [], false, some hs⟩

/-- From msg1 on. The state is a server's, so `noise_ik_write_msg2` always writes its message. -/
def answerMsg1 (mc : Monocypher) (e : TurnEnv) (g : Statics) (c : ClientThread)
    (sent : List (List UInt8)) (magic msg1 : List UInt8) : Turn :=
  let r := noiseIkReadMsg1 mc c.ctx.noise msg1
  let agentPub := r.agentPub.getD c.ctx.agentPub
  let c := { c with ctx := { c.ctx with noise := r.st, agentPub := agentPub } }
  if r.rc ≠ .ok then quit g c sent [] none [] false
  else
    match noiseIkWriteMsg2 mc e.urandom r.st with
    | none => quit g c sent [] none [] false
    | some (noise, msg2) =>
      let c := { c with ctx := { c.ctx with noise := noise } }
      let sent := sent ++ [msg2]
      if e.sends 1 = false then quit g c sent [] none [] false
      else
        afterMsg2 mc e g { c with ctx := { c.ctx with epochId := deriveEpochId mc noise.recvKey } } sent
          ⟨magic, msg1, e.urandom, e.whitelist⟩

def clientStart (mc : Monocypher) (keys : ServerKeys) (e : TurnEnv) (g : Statics)
    (c : ClientThread) : Turn :=
  let c := { c with ctx := { c.ctx with sessionId := e.sessionId } }
  -- a wrong magic is the one way out that does not pass through `cleanup`
  let turnedAway : Turn := ⟨g, { c with phase := .closed }, [], [], none, [], false, none⟩
  match recvExact c.inp 4 with
  | none => turnedAway
  | some (magic, inp) =>
    if be32At magic 0 ≠ clientMagic then turnedAway
    else
      let c := { c with inp := inp }
      let sent := [preHandshakeFrame keys.pub]
      if e.sends 0 = false then quit g c sent [] none [] false
      else
        let c := { c with ctx := { c.ctx with noise := noiseIkInitServer mc keys.priv keys.pub } }
        match recvExact inp noiseMsg1Size with
        | none => quit g c sent [] none [] false
        | some (msg1, inp) => answerMsg1 mc e g { c with inp := inp } sent magic msg1

/-! ### The APDU loop -/

/-- The frame is dispatched, consumed and answered. -/
def serve (mc : Monocypher) (e : TurnEnv) (g : Statics) (c : ClientThread) (frame : ApduFrame)
    (accepted : Bool) : Turn :=
  let (g, effects, resp) := dispatch e.env e.node g frame c.ctx.sessionId
  let c := { c with parser := apduParserConsume c.parser frame }
  match noiseIkEncrypt mc c.ctx.noise resp with
  | none => quit g c [] [] (some frame) effects accepted
  | some (noise, enc) =>
    let c := { c with ctx := { c.ctx with noise := noise } }
    let header := packetHeader enc.length
    if e.sends 0 = false then quit g c [header] [] (some frame) effects accepted
    else if e.sends 1 = false then quit g c [header, enc] [resp] (some frame) effects accepted
    else ⟨g, c, [header, enc], [resp], some frame, effects, accepted, none⟩

/-- The tag and the Seq gate. -/
def gate (mc : Monocypher) (e : TurnEnv) (g : Statics) (c : ClientThread) (frame : ApduFrame) : Turn :=
  if frame.sec ≠ apduSecPlain then
    if verifyAuthTag mc c.ctx.noise frame c.ctx.epochId = false then
      refuse mc g c swAccessDenied (some frame)
    else
      let seq := frameSeq frame
      if seq ≤ c.ctx.lastSeenSeq then refuse mc g c swReplayDetected (some frame)
      else serve mc e g { c with ctx := { c.ctx with lastSeenSeq := seq } } frame true
  else serve mc e g c frame false

/-- What follows once a packet's plaintext is in the parser. -/
def onPacket (mc : Monocypher) (e : TurnEnv) (g : Statics) (c : ClientThread) : Turn :=
  match apduParserTryParse c.parser with
  | .needMore => ⟨g, c, [], [], none, [], false, none⟩
  | .errVersion => refuse mc g c 0x6E00 none
  | .errRfu => refuse mc g c swWrongLen none
  | .errExtLc => refuse mc g c swWrongLen none
  | .errLength => refuse mc g c swWrongLen none
  | .frameReady frame => gate mc e g c frame

/-- The thread once the next packet is received, decrypted and committed to the parser; `none` where
    the loop breaks before. -/
def recvPacket (mc : Monocypher) (c : ClientThread) : Option ClientThread :=
  match recvExact c.inp 2 with
  | none => none
  | some (lenBuf, inp) =>
    let ciphertextLen := (lenBuf.getD 0 0).toNat * 256 + (lenBuf.getD 1 0).toNat
    if ciphertextLen < noiseMacSize ∨ apduMaxFrameSize + noiseMacSize < ciphertextLen then none
    else
      match recvExact inp ciphertextLen with
      | none => none
      | some (cipher, inp) =>
        let plainLen := ciphertextLen - noiseMacSize
        if apduParserRecvMax c.parser < plainLen then none
        else
          match noiseIkDecrypt mc c.ctx.noise cipher with
          | none => none
          | some (noise, plain) => some { c with
              ctx := { c.ctx with noise := noise }
              parser := apduParserRecvCommit
                { c.parser with buf := writeAt c.parser.buf c.parser.filled plain } plainLen
              inp := inp }

def clientLoop (mc : Monocypher) (e : TurnEnv) (g : Statics) (c : ClientThread) : Turn :=
  match recvPacket mc c with
  | none => quit g c [] [] none [] false
  | some c => onPacket mc e g c

/-- The next turn of a thread, `none` once it has left `handle_client`. -/
def clientTurn (mc : Monocypher) (keys : ServerKeys) (e : TurnEnv) (g : Statics) (c : ClientThread) :
    Option Turn :=
  match c.phase with
  | .start => some (clientStart mc keys e g c)
  | .serving => some (clientLoop mc e g c)
  | .closed => none

/-! ### Runs -/

/-- A connection and the turns it has taken, the last one first. -/
structure ClientRun where
  thread : ClientThread
  turns : List Turn

def clientStep (mc : Monocypher) (keys : ServerKeys) (r : ClientRun) (l : TurnEnv × Statics) :
    ClientRun :=
  match clientTurn mc keys l.1 l.2 r.thread with
  | none => r
  | some t => ⟨t.thread, t :: r.turns⟩

/-- `handle_client` on the bytes `inp`, with the surroundings of each turn. -/
def handleClient (mc : Monocypher) (keys : ServerKeys) (inp : List UInt8)
    (es : List (TurnEnv × Statics)) : ClientRun :=
  es.foldl (clientStep mc keys) ⟨clientThread₀ inp, []⟩

end Asys
