import Mathlib.Data.List.Forall2
import Asys.Core.Stream
import Asys.Daemon.ClientPaths
import Asys.Daemon.Replay

/-! # The frames of the stream and the frames that are answered

    The plaintexts of the packets are one stream of frames, and the loop looks for a frame once for
    each packet. A packet that completes two frames therefore leaves one of them in the buffer until
    the next packet comes in, and every later answer is late by one. -/

namespace Asys
open Words Framing

/-- All complete frames of a stream, in order. -/
def completeFrames (s : List UInt8) : List ApduFrame := (drain (bufferOf s)).frames

theorem completeFrames_cut (s : List UInt8) : ∃ (ws : List WireFrame) (rest : List UInt8),
    completeFrames s = ws.map WireFrame.parsed ∧ Cut WireFrame.encode s ws rest := by
  obtain ⟨ws, hws, hcut⟩ := drain_cut (bufferOf s)
  rw [bytes_bufferOf] at hcut
  exact ⟨ws, _, hws, hcut⟩

/-- Frames and what is left are all there is when nothing complete is left. -/
theorem completeFrames_of_cut {s rest : List UInt8} {ws : List WireFrame}
    (h : Cut WireFrame.encode s ws rest) : completeFrames s = ws.map WireFrame.parsed := by
  obtain ⟨ws', rest', hws', hcut⟩ := completeFrames_cut s
  rw [hws', (hcut.unique encode_code h).1]

theorem completeFrames_encode (ws : List WireFrame) :
    completeFrames (ws.flatMap WireFrame.encode) = ws.map WireFrame.parsed :=
  completeFrames_of_cut (Cut.whole encode_code ws)

/-- Frames at the front of a stream are its complete frames exactly when nothing complete follows. -/
theorem completeFrames_iff {s rest : List UInt8} {ws : List WireFrame}
    (h : s = ws.flatMap WireFrame.encode ++ rest) :
    completeFrames s = ws.map WireFrame.parsed ↔ Incomplete WireFrame.encode rest := by
  constructor
  · intro hws
    obtain ⟨ws', rest', hws', hcut⟩ := completeFrames_cut s
    have hinj : Function.Injective WireFrame.parsed := fun _ _ => WireFrame.parsed_injective
    obtain rfl := List.map_injective_iff.mpr hinj (hws.symm.trans hws')
    have hrest := h.symm.trans hcut.stream
    rw [List.append_cancel_left hrest]
    exact hcut.incomplete
  · exact fun hinc => completeFrames_of_cut ⟨h, hinc⟩

/-! ### Packets -/

/-- `inp` begins with packets that are correctly encrypted under `key`, from nonce `n` on, and
    whose plaintexts are `plains`. -/
inductive Packets (mc : Monocypher) (key : List UInt8) :
    UInt64 → List (List UInt8) → List UInt8 → Prop where
  | nil (n : UInt64) (inp : List UInt8) : Packets mc key n [] inp
  | cons {n : UInt64} {plain cipher inp : List UInt8} {plains : List (List UInt8)} :
      cipher.length = plain.length + noiseMacSize → cipher.length < 65536 →
      mc.aeadRead key (nonce12 n) [] (cipher.drop plain.length) (cipher.take plain.length) =
        some plain →
      Packets mc key (n + 1) plains inp →
      Packets mc key n (plain :: plains) (packetHeader cipher.length ++ cipher ++ inp)

theorem packetHeader_value {n : ℕ} (h : n < 65536) :
    ((packetHeader n).getD 0 0).toNat * 256 + ((packetHeader n).getD 1 0).toNat = n := by
  simp [packetHeader]
  omega

/-- A packet that is let into the parser is appended to it. -/
theorem recvPacket_packets {mc : Monocypher} {c c' : ClientThread} {plain : List UInt8}
    {plains : List (List UInt8)} (h : recvPacket mc c = some c')
    (hp : Packets mc c.ctx.noise.recvKey c.ctx.noise.recvNonce (plain :: plains) c.inp) :
    plain.length ≤ apduParserRecvMax c.parser ∧ c'.parser = received c.parser plain ∧
      Packets mc c'.ctx.noise.recvKey c'.ctx.noise.recvNonce plains c'.inp := by
  generalize hinp : c.inp = inp at hp
  cases hp with
  | @cons _ _ cipher rest _ hlen hlt hread hrest =>
    have hsub : cipher.length - noiseMacSize = plain.length := by omega
    simp only [recvPacket] at h
    rw [hinp, List.append_assoc] at h
    rw [show recvExact (packetHeader cipher.length ++ (cipher ++ rest)) 2 =
      some (packetHeader cipher.length, cipher ++ rest) from recvExact_append _ _] at h
    dsimp only at h
    rw [packetHeader_value hlt, recvExact_append] at h
    dsimp only at h
    rw [hsub] at h
    split at h
    · cases h
    split at h
    · cases h
    rename_i hfit
    split at h
    · cases h
    rename_i noise plain' hdec
    obtain rfl := Option.some.inj h
    obtain ⟨-, -, hread', rfl⟩ := noiseIkDecrypt_iff.mp hdec
    rw [hsub] at hread'
    obtain rfl := Option.some.inj (hread.symm.trans hread')
    exact ⟨not_lt.mp hfit, rfl, hrest⟩

/-! ### A turn after which the loop waits -/

/-- What a turn did with the frame it found: one call of `dispatch`, and its answer sent once. A
    turn that found none did nothing. -/
def Handled (l : TurnEnv × Statics) (t : Turn) : Prop :=
  match t.frame with
  | none => t.statics = l.2 ∧ t.effects = [] ∧ t.answers = []
  | some f => (t.statics, t.effects, t.answers) =
      ((dispatch l.1.env l.1.node l.2 f t.thread.ctx.sessionId).1,
        (dispatch l.1.env l.1.node l.2 f t.thread.ctx.sessionId).2.1,
        [(dispatch l.1.env l.1.node l.2 f t.thread.ctx.sessionId).2.2])

/-- The turn served the frame `f` of a thread in state `c`. -/
structure Served (l : TurnEnv × Statics) (c : ClientThread) (f : ApduFrame) (t : Turn) : Prop where
  frame : t.frame = some f
  handled : Handled l t
  parser : t.thread.parser = apduParserConsume c.parser f
  inp : t.thread.inp = c.inp
  recvKey : t.thread.ctx.noise.recvKey = c.ctx.noise.recvKey
  recvNonce : t.thread.ctx.noise.recvNonce = c.ctx.noise.recvNonce

theorem serve_serving {mc : Monocypher} {l : TurnEnv × Statics} {c : ClientThread} {f : ApduFrame}
    {a : Bool} (h : (serve mc l.1 l.2 c f a).thread.phase = .serving) :
    Served l c f (serve mc l.1 l.2 c f a) := by
  generalize ht : serve mc l.1 l.2 c f a = t at h
  rw [serve] at ht
  dsimp only at ht
  split at ht
  · subst ht
    cases h
  rename_i noise enc hen
  split at ht
  · subst ht
    cases h
  split at ht
  · subst ht
    cases h
  subst ht
  obtain rfl := noiseIkEncrypt_state hen
  exact ⟨rfl, rfl, rfl, rfl, rfl, rfl⟩

theorem gate_serving {mc : Monocypher} {l : TurnEnv × Statics} {c : ClientThread} {f : ApduFrame}
    (h : (gate mc l.1 l.2 c f).thread.phase = .serving) : Served l c f (gate mc l.1 l.2 c f) := by
  generalize ht : gate mc l.1 l.2 c f = t at h
  rw [gate] at ht
  split at ht
  · split at ht
    · subst ht
      cases h
    dsimp only at ht
    split at ht
    · subst ht
      cases h
    · subst ht
      have hs := serve_serving h
      exact ⟨hs.frame, hs.handled, hs.parser, hs.inp, hs.recvKey, hs.recvNonce⟩
  · subst ht
    exact serve_serving h

/-- After a turn the loop waits only if no frame was complete, or one was and has been served. -/
theorem onPacket_serving {mc : Monocypher} {l : TurnEnv × Statics} {c : ClientThread}
    (h : (onPacket mc l.1 l.2 c).thread.phase = .serving) :
    (apduParserTryParse c.parser = .needMore ∧
      onPacket mc l.1 l.2 c = ⟨l.2, c, [], [], none, [], false, none⟩) ∨
    ∃ f, apduParserTryParse c.parser = .frameReady f ∧ Served l c f (onPacket mc l.1 l.2 c) := by
  simp only [onPacket] at h ⊢
  cases hparse : apduParserTryParse c.parser with
  | needMore => exact Or.inl ⟨rfl, rfl⟩
  | frameReady f =>
    rw [hparse] at h
    exact Or.inr ⟨f, rfl, gate_serving h⟩
  | _ =>
    rw [hparse] at h
    cases h

/-! ### The loop on a stream -/

section
variable {mc : Monocypher} {keys : ServerKeys}

/-- A connection in its loop: the surroundings `ls` of its turns so far, the plaintexts `seen` of the
    packets received, those `coming` next, and the frames `ws` it has served. What is left of the
    stream is in the parser. -/
structure InLoop (mc : Monocypher) (ls : List (TurnEnv × Statics)) (r : ClientRun)
    (seen coming : List (List UInt8)) (ws : List WireFrame) : Prop where
  frames : r.turns.reverse.filterMap Turn.frame = ws.map WireFrame.parsed
  handled : List.Forall₂ Handled ls r.turns.reverse
  stream : seen.flatten = ws.flatMap WireFrame.encode ++ r.thread.parser.bytes
  fits : r.thread.parser.filled ≤ apduMaxFrameSize
  packets : Packets mc r.thread.ctx.noise.recvKey r.thread.ctx.noise.recvNonce coming r.thread.inp

/-- A thread that waits after a turn of the loop has been in the loop before it. -/
theorem clientStep_serving {r : ClientRun} {l : TurnEnv × Statics}
    (h : (clientStep mc keys r l).thread.phase = .serving) (hstart : r.thread.phase ≠ .start) :
    r.thread.phase = .serving ∧
      clientStep mc keys r l =
        ⟨(clientLoop mc l.1 l.2 r.thread).thread, clientLoop mc l.1 l.2 r.thread :: r.turns⟩ := by
  simp only [clientStep, clientTurn] at h ⊢
  cases hphase : r.thread.phase with
  | start => exact absurd hphase hstart
  | serving => exact ⟨rfl, rfl⟩
  | closed =>
    rw [hphase] at h
    dsimp only at h
    rw [hphase] at h
    cases h

/-- One packet: the parser gains its plaintext, and at most one frame is served. -/
theorem InLoop.step {ls : List (TurnEnv × Statics)} {r : ClientRun} {seen coming : List (List UInt8)}
    {plain : List UInt8} {ws : List WireFrame} (h : InLoop mc ls r seen (plain :: coming) ws)
    (hstart : r.thread.phase ≠ .start) (l : TurnEnv × Statics)
    (hwait : (clientStep mc keys r l).thread.phase = .serving) :
    InLoop mc (ls ++ [l]) (clientStep mc keys r l) (seen ++ [plain]) coming ws ∧
      Incomplete WireFrame.encode (clientStep mc keys r l).thread.parser.bytes ∨
    ∃ w, InLoop mc (ls ++ [l]) (clientStep mc keys r l) (seen ++ [plain]) coming (ws ++ [w]) := by
  obtain ⟨hserving, heq⟩ := clientStep_serving hwait hstart
  rw [heq] at hwait ⊢
  dsimp only at hwait ⊢
  simp only [clientLoop] at hwait ⊢
  cases hrecv : recvPacket mc r.thread with
  | none =>
    rw [hrecv] at hwait
    cases hwait
  | some c =>
    rw [hrecv] at hwait
    dsimp only at hwait ⊢
    obtain ⟨hfit, hparser, hpackets⟩ := recvPacket_packets hrecv h.packets
    obtain ⟨hbytes, hle⟩ := received_bytes h.fits hfit
    have hstream : (seen ++ [plain]).flatten = ws.flatMap WireFrame.encode ++ c.parser.bytes := by
      rw [List.flatten_append, List.flatten_singleton, h.stream, List.append_assoc, ← hbytes, hparser]
    rcases onPacket_serving hwait with ⟨hneed, ht⟩ | ⟨f, hf, hs⟩
    · left
      rw [ht]
      have hno : ∀ f, apduParserTryParse c.parser ≠ .frameReady f := by simp [hneed]
      refine ⟨⟨?_, ?_, hstream, hparser ▸ hle, hpackets⟩, incomplete_iff.mpr hno⟩
      · simpa using h.frames
      · rw [List.reverse_cons]
        exact List.rel_append h.handled (.cons ⟨rfl, rfl, rfl⟩ .nil)
    · right
      obtain ⟨w, rfl, hw⟩ := tryParse_frameReady.mp hf
      obtain ⟨hdrop, hlt⟩ := consume_bytes hw
      refine ⟨w, ⟨?_, ?_, ?_, ?_, ?_⟩⟩
      · simp [h.frames, hs.frame]
      · rw [List.reverse_cons]
        exact List.rel_append h.handled (.cons hs.handled .nil)
      · rw [hs.parser, hdrop, hstream, List.flatMap_append, List.flatMap_singleton,
          List.append_assoc, List.prefix_iff_eq_append.mp hw]
      · rw [hs.parser]
        exact hlt.le.trans (hparser ▸ hle)
      · rw [hs.recvKey, hs.recvNonce, hs.inp]
        exact hpackets

theorem handleClient_append (inp : List UInt8) (ls : List (TurnEnv × Statics))
    (l : TurnEnv × Statics) :
    handleClient mc keys inp (ls ++ [l]) = clientStep mc keys (handleClient mc keys inp ls) l := by
  rw [handleClient, List.foldl_append]
  rfl

/-- The way into the loop handles no frame and ends with an empty parser. -/
theorem clientStart_serving {l : TurnEnv × Statics} {c : ClientThread}
    (h : (clientStart mc keys l.1 l.2 c).thread.phase = .serving) :
    (clientStart mc keys l.1 l.2 c).frame = none ∧ Handled l (clientStart mc keys l.1 l.2 c) ∧
      (clientStart mc keys l.1 l.2 c).thread.parser = apduPoolSlot := by
  generalize ht : clientStart mc keys l.1 l.2 c = t at h
  rw [clientStart] at ht
  dsimp only at ht
  split at ht
  · subst ht
    cases h
  split at ht
  · subst ht
    cases h
  split at ht
  · subst ht
    cases h
  split at ht
  · subst ht
    cases h
  unfold answerMsg1 at ht
  dsimp only at ht
  split at ht
  · subst ht
    cases h
  split at ht
  · subst ht
    cases h
  split at ht
  · subst ht
    cases h
  unfold afterMsg2 at ht
  split at ht
  · subst ht
    cases h
  split at ht
  · subst ht
    cases h
  · subst ht
    exact ⟨rfl, ⟨rfl, rfl, rfl⟩, rfl⟩

/-- Once the first turn is over, the thread is in the loop or out of the function. -/
theorem handleClient_started (inp : List UInt8) (l : TurnEnv × Statics)
    (ls : List (TurnEnv × Statics)) :
    (handleClient mc keys inp (l :: ls)).thread.phase ≠ .start := by
  induction ls using List.reverseRecOn with
  | nil => exact (clientStart_spec mc keys l.1 l.2 (clientThread₀ inp)).started
  | append_singleton ls m ih =>
    rw [← List.cons_append, handleClient_append]
    simp only [clientStep, clientTurn]
    cases hphase : (handleClient mc keys inp (l :: ls)).thread.phase with
    | start => exact absurd hphase ih
    | serving => exact (clientLoop_spec mc m.1 m.2 hphase).started
    | closed =>
      dsimp only
      rw [hphase]
      simp

end

/-- A connection that has come through its handshake and the whitelist, has received correctly
    encrypted packets since, and waits for the next one. -/
structure PacketRun (mc : Monocypher) (keys : ServerKeys) where
  inp : List UInt8
  start : TurnEnv × Statics
  turns : List (TurnEnv × Statics)
  plains : List (List UInt8)
  length_eq : plains.length = turns.length
  packets : Packets mc (handleClient mc keys inp [start]).thread.ctx.noise.recvKey
    (handleClient mc keys inp [start]).thread.ctx.noise.recvNonce plains
    (handleClient mc keys inp [start]).thread.inp
  waiting : (handleClient mc keys inp (start :: turns)).thread.phase = .serving

section
variable {mc : Monocypher} {keys : ServerKeys} (x : PacketRun mc keys)

/-- The connection after `k` packets, when the loop is about to wait. -/
def PacketRun.after (k : ℕ) : ClientRun := handleClient mc keys x.inp (x.start :: x.turns.take k)

/-- The stream received by then. -/
def PacketRun.seen (k : ℕ) : List UInt8 := (x.plains.take k).flatten

/-- Every complete frame of the stream so far was dispatched and answered, once and in order. -/
structure UpToDate (k : ℕ) : Prop where
  frames : (x.after k).turns.reverse.filterMap Turn.frame = completeFrames (x.seen k)
  handled : List.Forall₂ Handled (x.start :: x.turns.take k) (x.after k).turns.reverse

variable {x}

theorem PacketRun.after_succ {k : ℕ} (hk : k < x.turns.length) :
    x.after (k + 1) = clientStep mc keys (x.after k) x.turns[k] := by
  rw [PacketRun.after, List.take_succ_eq_append_getElem hk, ← List.cons_append, handleClient_append]
  rfl

variable (x) in
theorem PacketRun.started (k : ℕ) : (x.after k).thread.phase ≠ .start :=
  handleClient_started _ _ _

/-- The loop waited after every packet. -/
theorem PacketRun.serving {k : ℕ} (hk : k ≤ x.turns.length) :
    (x.after k).thread.phase = .serving := by
  induction hn : x.turns.length - k generalizing k with
  | zero =>
    have hall : x.turns.take k = x.turns := List.take_of_length_le (by omega)
    rw [PacketRun.after, hall]
    exact x.waiting
  | succ n ih =>
    have hnext := ih (k := k + 1) (by omega) (by omega)
    rw [PacketRun.after_succ (by omega)] at hnext
    exact (clientStep_serving hnext (x.started k)).1

theorem PacketRun.inLoop_succ {k : ℕ} (hk : k + 1 ≤ x.turns.length) {ws : List WireFrame}
    (h : InLoop mc (x.start :: x.turns.take k) (x.after k) (x.plains.take k) (x.plains.drop k) ws) :
    InLoop mc (x.start :: x.turns.take (k + 1)) (x.after (k + 1)) (x.plains.take (k + 1))
        (x.plains.drop (k + 1)) ws ∧
      Incomplete WireFrame.encode (x.after (k + 1)).thread.parser.bytes ∨
    ∃ w, InLoop mc (x.start :: x.turns.take (k + 1)) (x.after (k + 1)) (x.plains.take (k + 1))
      (x.plains.drop (k + 1)) (ws ++ [w]) := by
  have hlen : k < x.plains.length := by rw [x.length_eq]; exact hk
  have hwait := x.serving hk
  rw [List.drop_eq_getElem_cons hlen] at h
  rw [x.after_succ hk] at hwait ⊢
  rw [List.take_succ_eq_append_getElem hk, List.take_succ_eq_append_getElem hlen,
    ← List.cons_append]
  exact h.step (x.started k) _ hwait

theorem PacketRun.inLoop_zero : InLoop mc [x.start] (x.after 0) [] x.plains [] := by
  have hwait : (clientStart mc keys x.start.1 x.start.2 (clientThread₀ x.inp)).thread.phase =
      .serving := x.serving (Nat.zero_le _)
  obtain ⟨hframe, hhandled, hparser⟩ := clientStart_serving hwait
  have hturns : (x.after 0).turns =
      [clientStart mc keys x.start.1 x.start.2 (clientThread₀ x.inp)] := rfl
  have hparser : (x.after 0).thread.parser = apduPoolSlot := hparser
  refine ⟨?_, ?_, ?_, ?_, x.packets⟩
  · simp [hturns, hframe]
  · rw [hturns]
    exact .cons hhandled .nil
  · rw [hparser]
    rfl
  · rw [hparser]
    exact Nat.zero_le _

/-- After every packet the rest of the stream is in the parser. -/
theorem PacketRun.inLoop {k : ℕ} (hk : k ≤ x.turns.length) :
    ∃ ws, InLoop mc (x.start :: x.turns.take k) (x.after k) (x.plains.take k) (x.plains.drop k)
      ws := by
  induction k with
  | zero => exact ⟨[], x.inLoop_zero⟩
  | succ k ih =>
    obtain ⟨ws, h⟩ := ih (by omega)
    exact (x.inLoop_succ hk h).elim (fun h' => ⟨ws, h'.1⟩) fun ⟨w, h'⟩ => ⟨ws ++ [w], h'⟩

/-- Nothing is outstanding exactly when the parser holds no complete frame. -/
theorem InLoop.upToDate_iff {k : ℕ} {coming : List (List UInt8)} {ws : List WireFrame}
    (h : InLoop mc (x.start :: x.turns.take k) (x.after k) (x.plains.take k) coming ws) :
    UpToDate x k ↔ completeFrames (x.seen k) = ws.map WireFrame.parsed := by
  constructor
  · exact fun hu => hu.frames.symm.trans h.frames
  · exact fun hw => ⟨h.frames.trans hw.symm, h.handled⟩

/-- CORRECT (exact): the loop answers all the frames it has received whenever it waits, exactly when
    no packet completes two frames. -/
theorem frames_upToDate_iff (x : PacketRun mc keys) :
    (∀ k ≤ x.turns.length, UpToDate x k) ↔ ∀ k < x.turns.length,
      (completeFrames (x.seen (k + 1))).length ≤ (completeFrames (x.seen k)).length + 1 := by
  constructor
  · intro hall k hk
    have hwait := x.serving (k := k + 1) hk
    rw [x.after_succ hk] at hwait
    have heq := (clientStep_serving hwait (x.started k)).2
    rw [← (hall k hk.le).frames, ← (hall (k + 1) hk).frames, x.after_succ hk, heq,
      List.reverse_cons, List.filterMap_append, List.length_append]
    have := List.length_filterMap_le Turn.frame [clientLoop mc x.turns[k].1 x.turns[k].2
      (x.after k).thread]
    exact Nat.add_le_add_left this _
  · intro hone k hk
    induction k with
    | zero =>
      rw [x.inLoop_zero.upToDate_iff]
      exact completeFrames_encode []
    | succ k ih =>
      obtain ⟨ws, h⟩ := x.inLoop (k := k) (by omega)
      have hcomplete := h.upToDate_iff.mp (ih (by omega))
      rcases x.inLoop_succ hk h with ⟨h', hinc⟩ | ⟨w, h'⟩
      · exact h'.upToDate_iff.mpr ((completeFrames_iff h'.stream).mpr hinc)
      · -- the packet completed the frame `w`, and by assumption no other
        obtain ⟨ws', rest, hws', hcut⟩ := completeFrames_cut (x.seen (k + 1))
        have hcount := hone k hk
        rw [hws', hcomplete, List.length_map, List.length_map] at hcount
        have hfirst := encode_code.prefix_cut h'.stream hcut
        have hall : ws ++ [w] = ws' := hfirst.eq_of_length_le (by simpa using hcount)
        rw [h'.upToDate_iff, hws', hall]

end

/-! ### Two requests in one packet -/

/-- Two SYS_HELLO frames under the agent's key and its first nonce. -/
def helloCipher : List UInt8 :=
  [0xC5, 0xA4, 0xF5, 0xA9, 0xD6, 0xB7, 0x75, 0x0A, 0x2F, 0x9D, 0xA1, 0xD5, 0x03, 0xB4, 0xB5, 0x77,
    0xAB, 0x45, 0x4B, 0x16, 0x27, 0x31, 0x91, 0x66, 0xED, 0x93, 0x3D, 0xB7]

/-- The magic and the msg1 of the agent, and the two frames in one packet. -/
def helloBytes : List UInt8 :=
  agentBytes.take 100 ++ (packetHeader helloCipher.length ++ helloCipher ++ [])

def helloEntered : ClientRun := handleClient monocypher serverKeys helloBytes [(agentEnv, idleStatics)]
def helloRun : ClientRun := handleClient monocypher serverKeys helloBytes agentTurns

/-- The packet is received, one frame is found, and the loop waits. -/
theorem helloRun_waits :
    helloRun.thread.phase = .serving ∧
    helloEntered.thread.inp = packetHeader helloCipher.length ++ helloCipher ++ [] ∧
    monocypher.aeadRead helloEntered.thread.ctx.noise.recvKey
      (nonce12 helloEntered.thread.ctx.noise.recvNonce) [] (helloCipher.drop 12)
      (helloCipher.take 12) = some (helloFrame.encode ++ helloFrame.encode) ∧
    (helloRun.turns.reverse.filterMap Turn.frame).length = 1 := by
  decide +kernel

theorem helloRun_exists : ∃ x : PacketRun monocypher serverKeys, x.inp = helloBytes ∧
    x.turns.length = 1 ∧ completeFrames (x.seen 1) = [helloFrame.parsed, helloFrame.parsed] ∧
    ((x.after 1).turns.reverse.filterMap Turn.frame).length = 1 := by
  obtain ⟨hwait, hinp, hread, hone⟩ := helloRun_waits
  rw [helloRun, agentTurns] at hwait hone
  rw [helloEntered] at hinp hread
  have hpackets : Packets monocypher
      (handleClient monocypher serverKeys helloBytes [(agentEnv, idleStatics)]).thread.ctx.noise.recvKey
      (handleClient monocypher serverKeys helloBytes [(agentEnv, idleStatics)]).thread.ctx.noise.recvNonce
      [helloFrame.encode ++ helloFrame.encode]
      (handleClient monocypher serverKeys helloBytes [(agentEnv, idleStatics)]).thread.inp := by
    rw [hinp]
    exact .cons (by decide) (by decide) hread (.nil _ _)
  refine ⟨⟨helloBytes, (agentEnv, idleStatics), [(agentEnv, idleStatics)],
    [helloFrame.encode ++ helloFrame.encode], rfl, hpackets, hwait⟩, rfl, rfl, ?_, hone⟩
  exact completeFrames_encode [helloFrame, helloFrame]

/-- Two frames come in one packet, the loop waits for the next one, and the second is not answered. -/
theorem second_frame_unanswered :
    ∃ x : PacketRun monocypher serverKeys, x.inp = helloBytes ∧ x.turns.length = 1 ∧
      completeFrames (x.seen 1) = [helloFrame.parsed, helloFrame.parsed] ∧
      ((x.after 1).turns.reverse.filterMap Turn.frame).length = 1 ∧
      ¬ ∀ k ≤ x.turns.length, UpToDate x k := by
  obtain ⟨x, hinp, hlen, hframes, hone⟩ := helloRun_exists
  refine ⟨x, hinp, hlen, hframes, hone, fun hall => ?_⟩
  have hboth := congrArg List.length (hall 1 (by omega)).frames
  rw [hone, hframes] at hboth
  simp at hboth

end Asys
