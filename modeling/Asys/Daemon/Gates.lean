import Asys.Daemon.HandleClient

/-! # What stands before a side effect

    A `kill` or a `fork` is behind six gates: the magic, the handshake, the whitelist, the tag, the
    Seq and the Sec bits, the last one looked at by the handlers themselves. -/

namespace Asys
open Words

section
variable (mc : Monocypher) (keys : ServerKeys)

/-- The connection passed the magic check, `noise_ik_read_msg1` and the whitelist, and `noise` is the
    state of its cipher with the transport keys set. -/
structure Handshake.Passed (hs : Handshake) (noise : NoiseIKState) : Prop where
  magic : hs.magic.length = 4 ∧ be32At hs.magic 0 = clientMagic
  msg1 : hs.msg1.length = noiseMsg1Size ∧
    (noiseIkReadMsg1 mc (noiseIkInitServer mc keys.priv keys.pub) hs.msg1).rc = .ok
  agent : ∃ pub, (noiseIkReadMsg1 mc (noiseIkInitServer mc keys.priv keys.pub) hs.msg1).agentPub =
    some pub ∧ whitelistCheck hs.whitelist pub = true
  keys : ∃ msg2, noiseIkWriteMsg2 mc hs.urandom
    (noiseIkReadMsg1 mc (noiseIkInitServer mc keys.priv keys.pub) hs.msg1).st = some (noise, msg2)

/-- The frame of turn `t` was let through: the connection had passed its handshake, the frame is
    signed, its tag is right under the receive key and the epoch of this connection, and its Seq is
    above that of every frame accepted before. -/
def Guarded (earlier : List Turn) (t : Turn) : Prop :=
  ∃ frame hs noise, (∃ t₀ ∈ earlier, t₀.handshake = some hs) ∧ hs.Passed mc keys noise ∧
    t.frame = some frame ∧ frame.sec = apduSecSigned ∧
    verifyAuthTag mc noise frame (deriveEpochId mc noise.recvKey) = true ∧
    ∀ t' ∈ earlier, t'.accepted = true → ∀ f, t'.frame = some f → frameSeq f < frameSeq frame

/-- The thread after the turns `earlier`. -/
def threadAfter (inp : List UInt8) : List Turn → ClientThread
  | [] => clientThread₀ inp
  | t :: _ => t.thread

/-- The frame of turn `t` is accepted by a thread in state `c`. -/
def Accepts (c : ClientThread) (t : Turn) : Prop :=
  ∃ f, t.frame = some f ∧ f.sec ≠ apduSecPlain ∧
    verifyAuthTag mc c.ctx.noise f c.ctx.epochId = true ∧ c.ctx.lastSeenSeq < frameSeq f

/-- The turns of a connection, the last one first. `guarded`: a side effect comes from a frame that
    was let through. `accepted`: a frame is accepted when it is signed, its tag is right and its Seq
    new. `counter`: `last_seen_seq` is the Seq of an accepted frame and is otherwise left alone.
    `once`: a turn has at most one effect, and two turns with an effect have different Seqs. -/
structure SideEffectsGuarded (inp : List UInt8) (turns : List Turn) : Prop where
  guarded : ∀ later t earlier, turns = later ++ t :: earlier → t.effects ≠ [] →
    Guarded mc keys earlier t
  accepted : ∀ later t earlier, turns = later ++ t :: earlier →
    (t.accepted = true ↔ Accepts mc (threadAfter inp earlier) t)
  counter : ∀ later t earlier, turns = later ++ t :: earlier →
    (t.accepted = true → ∀ f, t.frame = some f → t.thread.ctx.lastSeenSeq = frameSeq f) ∧
    (t.accepted = false → t.thread.ctx.lastSeenSeq = (threadAfter inp earlier).ctx.lastSeenSeq)
  once : ∀ later t earlier, turns = later ++ t :: earlier → t.effects.length ≤ 1 ∧
    (t.effects ≠ [] → ∀ t' ∈ earlier, t'.effects ≠ [] → ∀ f f', t.frame = some f →
      t'.frame = some f' → frameSeq f' < frameSeq f)

end

/-! ### One turn -/

theorem recvExact_some {inp bs rest : List UInt8} {n : ℕ} (h : recvExact inp n = some (bs, rest)) :
    bs.length = n := by
  simp only [recvExact] at h
  split at h
  · cases h
  · obtain ⟨rfl, -⟩ := Prod.mk.inj (Option.some.inj h)
    rw [List.length_take]
    omega

/-- What every way through a turn of the loop keeps of the thread. -/
structure Keeps (c : ClientThread) (t : Turn) : Prop where
  handshake : t.handshake = none
  started : t.thread.phase ≠ .start
  serving : t.thread.phase = .serving →
    SameKeys c.ctx.noise t.thread.ctx.noise ∧ t.thread.ctx.epochId = c.ctx.epochId

theorem quit_keeps (g : Statics) (c c' : ClientThread) (sent answers : List (List UInt8))
    (frame : Option ApduFrame) (effects : List Effect) (a : Bool) :
    Keeps c (quit g c' sent answers frame effects a) :=
  ⟨rfl, nofun, nofun⟩

theorem sendSw_ctx (mc : Monocypher) (ctx : SessionCtx) (sw : UInt16) :
    (sendSw mc ctx sw).ctx.lastSeenSeq = ctx.lastSeenSeq ∧
      (sendSw mc ctx sw).ctx.sessionId = ctx.sessionId := by
  simp only [sendSw]
  split <;> exact ⟨rfl, rfl⟩

/-- A refusal: no effect, nothing accepted, the counter as it was. -/
theorem refuse_spec (mc : Monocypher) (g : Statics) (c : ClientThread) (sw : UInt16)
    (frame : Option ApduFrame) : (refuse mc g c sw frame).frame = frame ∧
      (refuse mc g c sw frame).effects = [] ∧ (refuse mc g c sw frame).accepted = false ∧
      (refuse mc g c sw frame).thread.ctx.lastSeenSeq = c.ctx.lastSeenSeq := by
  refine ⟨rfl, rfl, rfl, ?_⟩
  exact (sendSw_ctx mc c.ctx sw).1

theorem refuse_keeps (mc : Monocypher) (g : Statics) (c c' : ClientThread) (sw : UInt16)
    (frame : Option ApduFrame) : Keeps c (refuse mc g c' sw frame) :=
  ⟨rfl, nofun, nofun⟩

/-- Every way through `serve`. -/
theorem serve_spec (mc : Monocypher) (e : TurnEnv) (g : Statics) {c : ClientThread}
    (frame : ApduFrame) (a : Bool) (hc : c.phase = .serving) :
    Keeps c (serve mc e g c frame a) ∧ (serve mc e g c frame a).frame = some frame ∧
      (serve mc e g c frame a).effects = (dispatch e.env e.node g frame c.ctx.sessionId).2.1 ∧
      (serve mc e g c frame a).accepted = a ∧
      (serve mc e g c frame a).thread.ctx.lastSeenSeq = c.ctx.lastSeenSeq := by
  rw [serve]
  dsimp only
  split
  · exact ⟨quit_keeps _ _ _ _ _ _ _ _, rfl, rfl, rfl, rfl⟩
  · rename_i noise enc hen
    split
    · exact ⟨quit_keeps _ _ _ _ _ _ _ _, rfl, rfl, rfl, rfl⟩
    split
    · exact ⟨quit_keeps _ _ _ _ _ _ _ _, rfl, rfl, rfl, rfl⟩
    · refine ⟨⟨rfl, ?_, fun _ => ⟨(noiseIkEncrypt_some hen).1, rfl⟩⟩, rfl, rfl, rfl, rfl⟩
      dsimp only
      rw [hc]
      nofun

/-- What a turn of the loop does. -/
structure LoopTurn (mc : Monocypher) (c : ClientThread) (t : Turn) : Prop extends Keeps c t where
  accepted : t.accepted = true ↔ Accepts mc c t
  seen : t.accepted = true → ∀ f, t.frame = some f → t.thread.ctx.lastSeenSeq = frameSeq f
  unseen : t.accepted = false → t.thread.ctx.lastSeenSeq = c.ctx.lastSeenSeq
  acted : t.effects ≠ [] → t.accepted = true ∧ ∃ f, t.frame = some f ∧ f.sec = apduSecSigned
  single : t.effects.length ≤ 1

/-- A turn without a frame, or with one that is refused. -/
theorem loopTurn_of_idle {mc : Monocypher} {c : ClientThread} {t : Turn} (hk : Keeps c t)
    (he : t.effects = []) (ha : t.accepted = false) (hno : ¬ Accepts mc c t)
    (hl : t.thread.ctx.lastSeenSeq = c.ctx.lastSeenSeq) : LoopTurn mc c t :=
  { hk with
    accepted := by rw [ha]; exact iff_of_false nofun hno
    seen := by rw [ha]; nofun
    unseen := fun _ => hl
    acted := fun h => absurd he h
    single := by rw [he]; exact Nat.zero_le _ }

/-- The effects of a frame that is dispatched. -/
theorem effects_signed {e : TurnEnv} {g : Statics} {frame : ApduFrame} {s : UInt16}
    (h : (dispatch e.env e.node g frame s).2.1 ≠ []) : frame.sec = apduSecSigned := by
  obtain ⟨x, hx⟩ := List.exists_mem_of_ne_nil _ h
  exact dispatch_signed hx

theorem gate_spec (mc : Monocypher) (e : TurnEnv) (g : Statics) {c : ClientThread} (frame : ApduFrame)
    (hc : c.phase = .serving) : LoopTurn mc c (gate mc e g c frame) := by
  rw [gate]
  split
  · rename_i hsec
    split
    · rename_i htag
      obtain ⟨hf, he, ha, hl⟩ := refuse_spec mc g c swAccessDenied (some frame)
      refine loopTurn_of_idle (refuse_keeps _ _ _ _ _ _) he ha ?_ hl
      rintro ⟨f, hf', -, hv, -⟩
      obtain rfl := Option.some.inj (hf.symm.trans hf')
      rw [htag] at hv
      cases hv
    rename_i htag
    dsimp only
    split
    · rename_i hold
      obtain ⟨hf, he, ha, hl⟩ := refuse_spec mc g c swReplayDetected (some frame)
      refine loopTurn_of_idle (refuse_keeps _ _ _ _ _ _) he ha ?_ hl
      rintro ⟨f, hf', -, -, hlt⟩
      obtain rfl := Option.some.inj (hf.symm.trans hf')
      exact absurd hold (UInt32.not_le.mpr hlt)
    · rename_i hnew
      obtain ⟨hk, hf, he, ha, hl⟩ := serve_spec mc e g (c := { c with
        ctx := { c.ctx with lastSeenSeq := frameSeq frame } }) frame true hc
      refine { hk with accepted := ?_, seen := ?_, unseen := ?_, acted := ?_, single := ?_ }
      · refine iff_of_true ha ⟨frame, hf, hsec, by simpa using htag, UInt32.not_le.mp hnew⟩
      · intro _ f hf'
        obtain rfl := Option.some.inj (hf.symm.trans hf')
        exact hl
      · rw [ha]; nofun
      · intro hne
        rw [he] at hne
        exact ⟨ha, frame, hf, effects_signed hne⟩
      · rw [he]; exact dispatch_effects_le _ _ _ _ _
  · rename_i hsec
    obtain ⟨hk, hf, he, ha, hl⟩ := serve_spec mc e g frame false hc
    -- the handlers act on signed frames only, so a plain one has no effect
    have hnone : (serve mc e g c frame false).effects = [] := by
      rw [he]
      by_contra hne
      rw [effects_signed hne] at hsec
      exact hsec (by decide)
    refine loopTurn_of_idle hk hnone ha ?_ hl
    rintro ⟨f, hf', hs, -⟩
    obtain rfl := Option.some.inj (hf.symm.trans hf')
    exact hsec hs

theorem onPacket_spec (mc : Monocypher) (e : TurnEnv) (g : Statics) {c : ClientThread}
    (hc : c.phase = .serving) : LoopTurn mc c (onPacket mc e g c) := by
  have hrefuse : ∀ sw, LoopTurn mc c (refuse mc g c sw none) := by
    intro sw
    obtain ⟨hf, he, ha, hl⟩ := refuse_spec mc g c sw none
    refine loopTurn_of_idle (refuse_keeps _ _ _ _ _ _) he ha ?_ hl
    rintro ⟨f, hf', -⟩
    rw [hf] at hf'
    cases hf'
  simp only [onPacket]
  split
  · refine loopTurn_of_idle ⟨rfl, ?_, fun _ => ⟨SameKeys.refl _, rfl⟩⟩ rfl rfl ?_ rfl
    · dsimp only
      rw [hc]
      nofun
    · rintro ⟨f, hf, -⟩
      cases hf
  · exact hrefuse _
  · exact hrefuse _
  · exact hrefuse _
  · exact hrefuse _
  · exact gate_spec mc e g _ hc

theorem recvPacket_some {mc : Monocypher} {c c' : ClientThread} (h : recvPacket mc c = some c') :
    c'.phase = c.phase ∧ SameKeys c.ctx.noise c'.ctx.noise ∧ c'.ctx.epochId = c.ctx.epochId ∧
      c'.ctx.lastSeenSeq = c.ctx.lastSeenSeq ∧ c'.ctx.sessionId = c.ctx.sessionId := by
  rw [recvPacket] at h
  split at h
  · cases h
  dsimp only at h
  split at h
  · cases h
  split at h
  · cases h
  split at h
  · cases h
  split at h
  · cases h
  · rename_i noise plain hdec
    obtain rfl := Option.some.inj h
    exact ⟨rfl, (noiseIkDecrypt_some hdec).1, rfl, rfl, rfl⟩

/-- A packet leaves the key and the counter that frames are held against. -/
theorem LoopTurn.of_recv {mc : Monocypher} {c c' : ClientThread} {t : Turn}
    (h : recvPacket mc c = some c') (ht : LoopTurn mc c' t) : LoopTurn mc c t := by
  obtain ⟨-, hkeys, hepoch, hlast, -⟩ := recvPacket_some h
  have hacc : Accepts mc c t ↔ Accepts mc c' t := by
    simp only [Accepts, hepoch, hlast, verifyAuthTag_congr mc _ _ hkeys.recvKey]
  refine { ht with serving := ?_, accepted := ht.accepted.trans hacc.symm, unseen := ?_ }
  · intro hs
    obtain ⟨hk, he⟩ := ht.serving hs
    exact ⟨hkeys.trans hk, he.trans hepoch⟩
  · exact fun ha => (ht.unseen ha).trans hlast

/-- The spec of a pass through the loop. -/
theorem clientLoop_spec (mc : Monocypher) (e : TurnEnv) (g : Statics) {c : ClientThread}
    (hc : c.phase = .serving) : LoopTurn mc c (clientLoop mc e g c) := by
  simp only [clientLoop]
  split
  · refine loopTurn_of_idle (quit_keeps _ _ _ _ _ _ _ _) rfl rfl ?_ rfl
    rintro ⟨f, hf, -⟩
    cases hf
  · rename_i c' hrecv
    exact (onPacket_spec mc e g ((recvPacket_some hrecv).1.trans hc)).of_recv hrecv

/-! ### The first turn -/

/-- What the first turn does: nothing but the way to the loop, which is behind the handshake. -/
structure StartTurn (mc : Monocypher) (keys : ServerKeys) (c : ClientThread) (t : Turn) : Prop where
  frame : t.frame = none
  effects : t.effects = []
  accepted : t.accepted = false
  started : t.thread.phase ≠ .start
  lastSeen : t.thread.ctx.lastSeenSeq = c.ctx.lastSeenSeq
  entered : t.thread.phase = .serving → ∃ hs, t.handshake = some hs ∧
    hs.Passed mc keys t.thread.ctx.noise ∧
    t.thread.ctx.epochId = deriveEpochId mc t.thread.ctx.noise.recvKey

theorem quit_start (mc : Monocypher) (keys : ServerKeys) (g : Statics) {c c' : ClientThread}
    (sent answers : List (List UInt8)) (h : c'.ctx.lastSeenSeq = c.ctx.lastSeenSeq) :
    StartTurn mc keys c (quit g c' sent answers none [] false) :=
  ⟨rfl, rfl, rfl, nofun, h, nofun⟩

theorem afterMsg2_spec {mc : Monocypher} {keys : ServerKeys} {e : TurnEnv} {g : Statics}
    {c c' : ClientThread} {sent : List (List UInt8)} {hs : Handshake}
    (hl : c'.ctx.lastSeenSeq = c.ctx.lastSeenSeq)
    (hpass : whitelistCheck e.whitelist c'.ctx.agentPub = true → hs.Passed mc keys c'.ctx.noise)
    (hepoch : c'.ctx.epochId = deriveEpochId mc c'.ctx.noise.recvKey) :
    StartTurn mc keys c (afterMsg2 mc e g c' sent hs) := by
  simp only [afterMsg2]
  split
  · refine ⟨rfl, rfl, rfl, nofun, ?_, nofun⟩
    refine Eq.trans ?_ hl
    exact (sendSw_ctx mc c'.ctx swAccessDenied).1
  · rename_i hwl
    split
    · exact quit_start mc keys g _ _ hl
    · exact ⟨rfl, rfl, rfl, nofun, hl, fun _ => ⟨hs, rfl, hpass (by simpa using hwl), hepoch⟩⟩

theorem answerMsg1_spec {mc : Monocypher} {keys : ServerKeys} {e : TurnEnv} {g : Statics}
    {c c' : ClientThread} {sent : List (List UInt8)} {magic msg1 : List UInt8}
    (hl : c'.ctx.lastSeenSeq = c.ctx.lastSeenSeq)
    (hnoise : c'.ctx.noise = noiseIkInitServer mc keys.priv keys.pub)
    (hmagic : magic.length = 4 ∧ be32At magic 0 = clientMagic)
    (hmsg1 : msg1.length = noiseMsg1Size) :
    StartTurn mc keys c (answerMsg1 mc e g c' sent magic msg1) := by
  unfold answerMsg1
  dsimp only
  rw [hnoise]
  split
  · exact quit_start mc keys g _ _ hl
  rename_i hrc
  split
  · exact quit_start mc keys g _ _ hl
  rename_i noise msg2 hmsg2
  split
  · exact quit_start mc keys g _ _ hl
  · have hok := not_not.mp hrc
    obtain ⟨pub, hpub⟩ := noiseIkReadMsg1_ok hok
    refine afterMsg2_spec hl (fun hwl => ?_) rfl
    rw [hpub] at hwl
    exact ⟨hmagic, ⟨hmsg1, hok⟩, ⟨pub, hpub, hwl⟩, ⟨msg2, hmsg2⟩⟩

/-- The spec of the way to the loop. -/
theorem clientStart_spec (mc : Monocypher) (keys : ServerKeys) (e : TurnEnv) (g : Statics)
    (c : ClientThread) : StartTurn mc keys c (clientStart mc keys e g c) := by
  rw [clientStart]
  dsimp only
  split
  · exact ⟨rfl, rfl, rfl, nofun, rfl, nofun⟩
  rename_i magic inp hmagic
  split
  · exact ⟨rfl, rfl, rfl, nofun, rfl, nofun⟩
  rename_i hval
  split
  · exact quit_start mc keys g _ _ rfl
  split
  · exact quit_start mc keys g _ _ rfl
  · rename_i msg1 inp' hmsg1
    exact answerMsg1_spec rfl rfl ⟨recvExact_some hmagic, not_not.mp hval⟩ (recvExact_some hmsg1)

/-! ### Runs -/

/-- The invariant of a connection. `session`: what a thread in the loop checks tags with comes from a
    handshake of this connection. `seen`: no accepted Seq is above the counter. -/
structure RunOk (mc : Monocypher) (keys : ServerKeys) (inp : List UInt8) (r : ClientRun) : Prop where
  thread : r.thread = threadAfter inp r.turns
  session : r.thread.phase = .serving → ∃ hs noise, (∃ t₀ ∈ r.turns, t₀.handshake = some hs) ∧
    hs.Passed mc keys noise ∧ SameKeys noise r.thread.ctx.noise ∧
    r.thread.ctx.epochId = deriveEpochId mc noise.recvKey
  seen : ∀ t ∈ r.turns, t.accepted = true → ∀ f, t.frame = some f →
    frameSeq f ≤ r.thread.ctx.lastSeenSeq
  acted : ∀ t ∈ r.turns, t.effects ≠ [] → t.accepted = true
  guarded : SideEffectsGuarded mc keys inp r.turns

/-- A property of each turn and those before it, for one more turn. -/
theorem forall_splits_cons {P : Turn → List Turn → Prop} {t : Turn} {ts : List Turn} (ht : P t ts)
    (hts : ∀ later t' earlier, ts = later ++ t' :: earlier → P t' earlier) :
    ∀ later t' earlier, t :: ts = later ++ t' :: earlier → P t' earlier := by
  intro later t' earlier h
  cases later with
  | nil =>
    obtain ⟨rfl, rfl⟩ := List.cons.inj h
    exact ht
  | cons u later => exact hts later t' earlier (List.cons.inj h).2

theorem runOk_init (mc : Monocypher) (keys : ServerKeys) (inp : List UInt8) :
    RunOk mc keys inp ⟨clientThread₀ inp, []⟩ where
  thread := rfl
  session := nofun
  seen := fun _ ht => absurd ht List.not_mem_nil
  acted := fun _ ht => absurd ht List.not_mem_nil
  guarded := by
    refine ⟨?_, ?_, ?_, ?_⟩ <;>
    · intro later t earlier h
      simp at h

/-- The first turn keeps the invariant. -/
theorem RunOk.start {mc : Monocypher} {keys : ServerKeys} {inp : List UInt8} {r : ClientRun} {t : Turn}
    (h : RunOk mc keys inp r) (ht : StartTurn mc keys r.thread t) :
    RunOk mc keys inp ⟨t.thread, t :: r.turns⟩ where
  thread := rfl
  session := fun hs => by
    obtain ⟨hk, hhs, hpass, hepoch⟩ := ht.entered hs
    exact ⟨hk, t.thread.ctx.noise, ⟨t, List.mem_cons_self, hhs⟩, hpass, SameKeys.refl _, hepoch⟩
  seen := fun t' ht' ha f hf => by
    rcases List.mem_cons.mp ht' with rfl | ht'
    · rw [ht.frame] at hf
      cases hf
    · rw [ht.lastSeen]
      exact h.seen t' ht' ha f hf
  acted := fun t' ht' he => by
    rcases List.mem_cons.mp ht' with rfl | ht'
    · exact absurd ht.effects he
    · exact h.acted t' ht' he
  guarded := by
    refine ⟨forall_splits_cons (fun he => absurd ht.effects he) h.guarded.guarded,
      forall_splits_cons ?_ h.guarded.accepted,
      forall_splits_cons ⟨fun ha => ?_, fun _ => ?_⟩ h.guarded.counter,
      forall_splits_cons ⟨?_, fun he => absurd ht.effects he⟩ h.guarded.once⟩
    · rw [ht.accepted]
      refine iff_of_false nofun ?_
      rintro ⟨f, hf, -⟩
      rw [ht.frame] at hf
      cases hf
    · rw [ht.accepted] at ha
      cases ha
    · rw [← h.thread]
      exact ht.lastSeen
    · rw [ht.effects]
      exact Nat.zero_le _

/-- A pass through the loop keeps the invariant. -/
theorem RunOk.loop {mc : Monocypher} {keys : ServerKeys} {inp : List UInt8} {r : ClientRun} {t : Turn}
    (h : RunOk mc keys inp r) (hc : r.thread.phase = .serving) (ht : LoopTurn mc r.thread t) :
    RunOk mc keys inp ⟨t.thread, t :: r.turns⟩ := by
  obtain ⟨hs, noise, ⟨t₀, ht₀, hhs⟩, hpass, hkeys, hepoch⟩ := h.session hc
  -- a frame that acts is above every frame accepted so far
  have hnew : t.effects ≠ [] → ∀ f, t.frame = some f → ∀ t' ∈ r.turns, t'.accepted = true →
      ∀ f', t'.frame = some f' → frameSeq f' < frameSeq f := by
    intro he f hf t' ht' ha' f' hf'
    obtain ⟨g, hg, -, -, hlt⟩ := ht.accepted.mp (ht.acted he).1
    obtain rfl := Option.some.inj (hf.symm.trans hg)
    exact UInt32.lt_of_le_of_lt (h.seen t' ht' ha' f' hf') hlt
  refine ⟨rfl, ?_, ?_, ?_, ⟨forall_splits_cons ?_ h.guarded.guarded,
    forall_splits_cons ?_ h.guarded.accepted, forall_splits_cons ⟨ht.seen, ?_⟩ h.guarded.counter,
    forall_splits_cons ⟨ht.single, ?_⟩ h.guarded.once⟩⟩
  · intro hserving
    obtain ⟨hk, he⟩ := ht.serving hserving
    exact ⟨hs, noise, ⟨t₀, List.mem_cons_of_mem _ ht₀, hhs⟩, hpass, hkeys.trans hk, he.trans hepoch⟩
  · intro t' ht' ha f hf
    rcases List.mem_cons.mp ht' with rfl | ht'
    · rw [ht.seen ha f hf]
      exact UInt32.le_refl _
    · have hle := h.seen t' ht' ha f hf
      cases hacc : t.accepted with
      | false => rw [ht.unseen hacc]; exact hle
      | true =>
        obtain ⟨g, hg, -, -, hlt⟩ := ht.accepted.mp hacc
        rw [ht.seen hacc g hg]
        exact UInt32.le_of_lt (UInt32.lt_of_le_of_lt hle hlt)
  · intro t' ht' he
    rcases List.mem_cons.mp ht' with rfl | ht'
    · exact (ht.acted he).1
    · exact h.acted t' ht' he
  · intro he
    obtain ⟨ha, f, hf, hsec⟩ := ht.acted he
    obtain ⟨g, hg, -, hv, -⟩ := ht.accepted.mp ha
    obtain rfl := Option.some.inj (hf.symm.trans hg)
    refine ⟨f, hs, noise, ⟨t₀, ht₀, hhs⟩, hpass, hf, hsec, ?_, hnew he f hf⟩
    rw [hepoch, verifyAuthTag_congr mc f _ hkeys.recvKey] at hv
    exact hv
  · rw [← h.thread]
    exact ht.accepted
  · rw [← h.thread]
    exact ht.unseen
  · intro he t' ht' he' f f' hf hf'
    exact hnew he f hf t' ht' (h.acted t' ht' he') f' hf'

/-- Every turn keeps the invariant. -/
theorem RunOk.step {mc : Monocypher} {keys : ServerKeys} {inp : List UInt8} {r : ClientRun}
    (h : RunOk mc keys inp r) (l : TurnEnv × Statics) : RunOk mc keys inp (clientStep mc keys r l) := by
  simp only [clientStep, clientTurn]
  cases hc : r.thread.phase with
  | start => exact h.start (clientStart_spec mc keys l.1 l.2 r.thread)
  | serving => exact h.loop hc (clientLoop_spec mc l.1 l.2 hc)
  | closed => exact h

/-- Every connection, whatever its peer sends, keeps the invariant. -/
theorem handleClient_ok (mc : Monocypher) (keys : ServerKeys) (inp : List UInt8)
    (es : List (TurnEnv × Statics)) : RunOk mc keys inp (handleClient mc keys inp es) := by
  have hrun : Runs.Reachable (Runs.always (clientStep mc keys)) ⟨clientThread₀ inp, []⟩
      (handleClient mc keys inp es) := ⟨es, Runs.run_always _ _ _⟩
  refine Runs.inv_of_reachable (runOk_init mc keys inp) (fun r l r' h hstep => ?_) hrun
  obtain rfl := Option.some.inj hstep
  exact h.step l

/-- CORRECT: in every run of a connection, every `kill` and every `fork` comes from a signed frame that
    passed all the gates and whose Seq is above that of every frame accepted before it. -/
theorem side_effects_guarded (mc : Monocypher) (keys : ServerKeys) (inp : List UInt8)
    (es : List (TurnEnv × Statics)) :
    SideEffectsGuarded mc keys inp (handleClient mc keys inp es).turns :=
  (handleClient_ok mc keys inp es).guarded

end Asys
