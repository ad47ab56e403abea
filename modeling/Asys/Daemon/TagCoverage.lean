import Asys.Core.Frames
import Asys.Daemon.HandleClient

/-! # What the tag of a signed frame covers

    The input of the HMAC holds every byte of the frame but Lc, of which it has the lower half only,
    and Le. The data determine Lc, and Le is read by nobody. -/

namespace Asys
open Words

/-- The two frames say the same to the Seq gate and to every handler. -/
structure SameCommand (f f' : ApduFrame) : Prop where
  cla : f'.cla = f.cla
  ins : f'.ins = f.ins
  p1 : f'.p1 = f.p1
  p2 : f'.p2 = f.p2
  data : f'.data = f.data

/-- The HMAC input determines the command; the epoch in its middle is the same on both sides. -/
theorem authMessage_inj {f f' : ApduFrame} {epochId : List UInt8}
    (h : authMessage f epochId = authMessage f' epochId) : SameCommand f f' := by
  simp only [authMessage, List.append_assoc, List.take_append_drop, List.cons_append,
    List.nil_append, List.cons.injEq] at h
  obtain ⟨hcla, hins, hp1, hp2, -, hdata⟩ := h
  exact ⟨hcla.symm, hins.symm, hp1.symm, hp2.symm, (List.append_cancel_left hdata).symm⟩

/-- The converse, with Lc cut the same way. -/
theorem SameCommand.authMessage {f f' : ApduFrame} (h : SameCommand f f') (epochId : List UInt8) :
    authMessage f' epochId = authMessage f epochId := by
  simp only [Asys.authMessage, ApduFrame.dataLen, h.cla, h.ins, h.p1, h.p2, h.data]

/-- Frames that the parser hands out differ in nothing but Le and the tag when they are the same
    command. -/
theorem SameCommand.parsed {w w' : WireFrame} (h : SameCommand w.parsed w'.parsed) :
    w'.parsed.sec = w.parsed.sec ∧ w'.parsed.totalSize = w.parsed.totalSize := by
  have hcla : w'.cla = w.cla := h.cla
  have hdata : w'.data = w.data := h.data
  refine ⟨congrArg claSec hcla, ?_⟩
  show w'.encode.length = w.encode.length
  rw [w'.encode_length, w.encode_length, hcla, hdata]

/-! ### No handler reads more -/

theorem handlerProcThrottle_congr (env : Env) {f f' : ApduFrame} (h : SameCommand f f')
    (hsec : f'.sec = f.sec) : handlerProcThrottle env f' = handlerProcThrottle env f := by
  unfold handlerProcThrottle pidField ApduFrame.dataLen
  rw [hsec, h.p1, h.data]

theorem handlerTaskQuery_congr (env : Env) (g : TaskPool) {f f' : ApduFrame} (h : SameCommand f f')
    (s : UInt16) : handlerTaskQuery env g f' s = handlerTaskQuery env g f s := by
  unfold handlerTaskQuery queryHandle ApduFrame.dataLen
  rw [h.data]

theorem handlerSvcRestart_congr (env : Env) (g : TaskPool) {f f' : ApduFrame} (h : SameCommand f f')
    (hsec : f'.sec = f.sec) (s : UInt16) :
    handlerSvcRestart env g f' s = handlerSvcRestart env g f s := by
  simp only [handlerSvcRestart, ApduFrame.dataLen]
  rw [hsec, h.data]

/-- One command, one way through `dispatch`. -/
theorem dispatch_congr (env : Env) (node : NodeReading) (g : Statics) {f f' : ApduFrame}
    (h : SameCommand f f') (hsec : f'.sec = f.sec) (s : UInt16) :
    dispatch env node g f' s = dispatch env node g f s := by
  simp only [dispatch]
  rw [h.ins]
  split
  · rfl
  split
  · rfl
  · rename_i hd _
    cases hd with
    | taskQuery =>
      simp only [runHandler]
      rw [handlerTaskQuery_congr env g.pool h s]
    | procThrottle =>
      simp only [runHandler]
      rw [handlerProcThrottle_congr env h hsec]
    | svcRestart =>
      simp only [runHandler]
      rw [handlerSvcRestart_congr env g.pool h hsec s]
    | _ => rfl

/-! ### One turn of the loop -/

/-- Two turns that differ in nothing but the frame they were given and what is left in the receive
    buffer. -/
structure SameTurn (t t' : Turn) : Prop where
  statics : t'.statics = t.statics
  effects : t'.effects = t.effects
  answers : t'.answers = t.answers
  sent : t'.sent = t.sent
  accepted : t'.accepted = t.accepted
  phase : t'.thread.phase = t.thread.phase
  ctx : t'.thread.ctx = t.thread.ctx
  inp : t'.thread.inp = t.thread.inp

theorem serve_congr (mc : Monocypher) (e : TurnEnv) (g : Statics) (c : ClientThread)
    (p' : ApduParser) {f f' : ApduFrame} (h : SameCommand f f') (hsec : f'.sec = f.sec) (a : Bool) :
    SameTurn (serve mc e g c f a) (serve mc e g { c with parser := p' } f' a) := by
  unfold serve
  dsimp only
  rw [dispatch_congr e.env e.node g h hsec]
  split
  · exact ⟨rfl, rfl, rfl, rfl, rfl, rfl, rfl, rfl⟩
  split
  · exact ⟨rfl, rfl, rfl, rfl, rfl, rfl, rfl, rfl⟩
  split
  · exact ⟨rfl, rfl, rfl, rfl, rfl, rfl, rfl, rfl⟩
  · exact ⟨rfl, rfl, rfl, rfl, rfl, rfl, rfl, rfl⟩

/-- Behind the tag the Seq gate decides alike, and so does what follows. -/
theorem gate_congr (mc : Monocypher) (e : TurnEnv) (g : Statics) (c : ClientThread)
    (p' : ApduParser) {f f' : ApduFrame} (h : SameCommand f f') (hsec : f'.sec = f.sec)
    (htag : verifyAuthTag mc c.ctx.noise f c.ctx.epochId =
      verifyAuthTag mc c.ctx.noise f' c.ctx.epochId) :
    SameTurn (gate mc e g c f) (gate mc e g { c with parser := p' } f') := by
  have hseq : frameSeq f' = frameSeq f := by unfold frameSeq; rw [h.data]
  unfold gate
  dsimp only
  rw [hsec, hseq, ← htag]
  split
  · split
    · exact ⟨rfl, rfl, rfl, rfl, rfl, rfl, rfl, rfl⟩
    split
    · exact ⟨rfl, rfl, rfl, rfl, rfl, rfl, rfl, rfl⟩
    · exact serve_congr mc e g _ p' h hsec true
  · exact serve_congr mc e g c p' h hsec false

/-- A tag is right for both frames or for neither. -/
theorem verifyAuthTag_congr_frame (mc : Monocypher) (noise : NoiseIKState) {f f' : ApduFrame}
    (epochId : List UInt8) (h : SameCommand f f') (htag : f'.authTag = f.authTag) :
    verifyAuthTag mc noise f' epochId = verifyAuthTag mc noise f epochId := by
  simp only [verifyAuthTag]
  rw [h.authMessage epochId, htag, ApduFrame.dataLen, ApduFrame.dataLen, h.data]

/-- CORRECT: two frames of the wire, standard or extended and of any Lc, that give one HMAC input
    under one epoch are the same command. A tag fits both or neither, and a loop that holds the one
    or the other behind its tag check answers the same, with the same effects: whatever the tag
    leaves out never matters. -/
theorem hmac_input_covers_command {p p' : ApduParser} {f f' : ApduFrame} {epochId : List UInt8}
    (hp : apduParserTryParse p = .frameReady f) (hp' : apduParserTryParse p' = .frameReady f')
    (hmsg : authMessage f epochId = authMessage f' epochId) :
    SameCommand f f' ∧
      (∀ mc noise epochId, f'.authTag = f.authTag →
        verifyAuthTag mc noise f' epochId = verifyAuthTag mc noise f epochId) ∧
      (∀ env node g s, dispatch env node g f' s = dispatch env node g f s) ∧
      ∀ mc e g (c : ClientThread), verifyAuthTag mc c.ctx.noise f c.ctx.epochId =
          verifyAuthTag mc c.ctx.noise f' c.ctx.epochId →
        SameTurn (onPacket mc e g { c with parser := p }) (onPacket mc e g { c with parser := p' }) := by
  have hsame := authMessage_inj hmsg
  obtain ⟨w, rfl, -⟩ := tryParse_frameReady.mp hp
  obtain ⟨w', rfl, -⟩ := tryParse_frameReady.mp hp'
  have hsec := hsame.parsed.1
  refine ⟨hsame, fun mc noise ep htag => verifyAuthTag_congr_frame mc noise ep hsame htag,
    fun env node g s => dispatch_congr env node g hsame hsec s, fun mc e g c htag => ?_⟩
  unfold onPacket
  dsimp only
  rw [hp, hp']
  exact gate_congr mc e g { c with parser := p } p' hsame hsec htag

/-- One of `Lc = 256`, with the given Le. -/
def longRestart (le : UInt16) : WireFrame :=
  signedRestart ([0x00, 0x00, 0x00, 0x01] ++ List.replicate 252 0x61)
    (by rw [List.length_append, List.length_replicate]; decide) le

theorem longRestart_found (le : UInt16) : apduParserTryParse (bufferOf (longRestart le).encode) =
    .frameReady (longRestart le).parsed :=
  tryParse_frameReady.mpr ⟨_, rfl, by rw [bytes_bufferOf]⟩

/-- Two frames that differ in Le alone. -/
theorem hmac_input_covers_command_le :
    (longRestart 0).encode ≠ (longRestart 1).encode ∧
      SameCommand (longRestart 0).parsed (longRestart 1).parsed := by
  refine ⟨fun h => ?_, ?_⟩
  · have hle : (0 : UInt16) = 1 := congrArg WireFrame.le (WireFrame.encode_injective h)
    exact absurd hle (by decide)
  · have hmsg : authMessage (longRestart 0).parsed [0x01, 0x02, 0x03, 0x04] =
        authMessage (longRestart 1).parsed [0x01, 0x02, 0x03, 0x04] := rfl
    exact (hmac_input_covers_command (longRestart_found 0) (longRestart_found 1) hmsg).1

end Asys
