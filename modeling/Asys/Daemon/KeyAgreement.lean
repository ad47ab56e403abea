import Asys.Core.NoiseSpec
import Asys.Core.Transport
import Asys.Daemon.HandleClient

/-! # Both ends of a handshake hold the same keys

    A handshake whose messages arrive as they were written. Each call does what the HandshakeState
    does, and of two HandshakeStates in step the one reads what the other writes. -/

namespace Asys
open Noise (HandshakeState KeyPair Mirror)

/-- X25519 commutes: the two ends of a DH get the same, for each private key of the one party and
    each of the other. -/
def X25519Commutes (mc : Monocypher) (as bs : List (List UInt8)) : Prop :=
  ∀ a ∈ as, ∀ b ∈ bs, mc.x25519 a (mc.x25519PublicKey b) = mc.x25519 b (mc.x25519PublicKey a)

variable {mc : Monocypher}

/-- The suite is sound for the pairs of two parties. -/
theorem noiseSuite_sound (hread : mc.AeadInverts) {A B : List KeyPair}
    (hA : ∀ p ∈ A, KeyPairOf mc p) (hB : ∀ p ∈ B, KeyPairOf mc p)
    (hdh : X25519Commutes mc (A.map (·.priv)) (B.map (·.priv))) :
    (noiseSuite mc).Sound (· ∈ A) (· ∈ B) := by
  have hlen : ∀ k n ad p, ((noiseSuite mc).encrypt k n ad p).length = p.length + 16 := by
    intro k n ad p
    have h : (noiseSuite mc).encrypt k n ad p = _ ++ _ := rfl
    rw [h, List.length_append, mc.cipher_length, mc.mac_length]
    rfl
  refine ⟨?_, hlen, ?_, ?_⟩
  · intro k n ad p
    have hlong : ¬ ((noiseSuite mc).encrypt k n ad p).length < 16 := by
      rw [hlen]
      omega
    have htext : ((noiseSuite mc).encrypt k n ad p).length - 16 =
        (mc.aeadWrite k (chaChaPolyNonce n) ad p).1.length := by
      rw [hlen, mc.cipher_length]
      omega
    refine (if_neg hlong).trans ?_
    rw [htext]
    have h : (noiseSuite mc).encrypt k n ad p = _ ++ _ := rfl
    rw [h, List.drop_left, List.take_left]
    exact hread k _ ad p
  · intro p q hp hq
    have h := hdh p.priv (List.mem_map_of_mem hp) q.priv (List.mem_map_of_mem hq)
    rw [hB q hq, hA p hp]
    exact h
  · rintro p (hp | hp)
    · rw [hA p hp, mc.publicKey_length]
      rfl
    · rw [hB p hp, mc.publicKey_length]
      rfl

/-- The two initial states mirror each other when the client knows the server's key. -/
theorem mirror_init {A B : KeyPair → Prop} {c s : KeyPair} (hc : A c) (hs : B s) :
    Mirror A B
      ((noiseIkInitClient mc c.priv c.pub s.pub).reference false true false ⟨none, 0⟩
        ikPattern.messages)
      ((noiseIkInitServer mc s.priv s.pub).reference false false false ⟨none, 0⟩
        ikPattern.messages) := by
  refine ⟨rfl, rfl, rfl, ?_, ?_, ?_, ?_⟩
  · intro k pub hk
    cases k with
    | e => cases hk
    | s => exact ⟨s, rfl, Option.some.inj hk⟩
  · intro k pub hk
    cases k <;> cases hk
  · intro k p hp
    cases k with
    | e => cases hp
    | s => exact Option.some.inj hp ▸ hc
  · intro k p hp
    cases k with
    | e => cases hp
    | s => exact Option.some.inj hp ▸ hs

/-- The server accepts the msg1 of an initiator in step with it, and the initiator's static key comes
    out. -/
theorem msg1_accepted {A B : KeyPair → Prop} (hS : (noiseSuite mc).Sound A B) {s fresh : KeyPair}
    {a a₁ : HandshakeState} {msg1 : List UInt8}
    (hm : Mirror A B a ((noiseIkInitServer mc s.priv s.pub).reference false false false ⟨none, 0⟩
      ikPattern.messages)) (hfresh : A fresh)
    (hw : a.writeMessage (noiseSuite mc) fresh [] = some (a₁, msg1))
    (hlen : msg1.length = noiseMsg1Size) :
    ∃ cipher,
      let r₁ := noiseIkReadMsg1 mc (noiseIkInitServer mc s.priv s.pub) msg1
      r₁.rc = .ok ∧ Mirror A B a₁ (r₁.st.reference false true true cipher [ikTokens2]) ∧
      ∀ p, a₁.s = some p → r₁.agentPub = some p.pub := by
  have hrole : a.initiator = true := by
    rw [← Bool.not_not a.initiator, ← hm.role]
    rfl
  obtain ⟨b, hb, hm₁⟩ := hm.message hS hfresh (.nil _) hm.patterns.symm (by rw [hrole]; rfl) hw
  obtain ⟨cipher, hread, -⟩ := readMsg1_reference mc (noiseIkInitServer mc s.priv s.pub) msg1 rfl hlen
    ⟨none, 0⟩ [ikTokens2]
  have hr := hread.symm.trans hb
  split at hr
  · rename_i hok
    obtain ⟨rfl, -⟩ := Prod.mk.inj (Option.some.inj hr)
    refine ⟨cipher, hok, hm₁, fun p hp => ?_⟩
    -- the key that came out is the one that the initiator owns
    obtain ⟨q, hq, hpub⟩ := hm₁.held' .s _ rfl
    rw [noiseIkReadMsg1_agentPub hok, ← hpub, Option.some.inj (hq.symm.trans hp)]
  · cases hr

/-- An initiator in step with the server reads its msg2, and splits the server's transport keys. -/
theorem msg2_read {A B : KeyPair → Prop} (hS : (noiseSuite mc).Sound A B) {a : HandshakeState}
    {server : NoiseIKState} (hserver : server.isServer = true) {cipher : Noise.CipherState}
    (hm : Mirror A B a (server.reference false true true cipher [ikTokens2]))
    (urandom : Option (List UInt8)) (hfresh : B (freshPair mc urandom server)) :
    ∃ server₂ msg2 a₂, noiseIkWriteMsg2 mc urandom server = some (server₂, msg2) ∧
      a.readMessage (noiseSuite mc) msg2 = some (a₂, []) ∧
      a₂.transport (noiseSuite mc) = some (⟨some server₂.recvKey, server₂.recvNonce.toNat⟩,
        ⟨some server₂.sendKey, server₂.sendNonce.toNat⟩) := by
  obtain ⟨server₂, msg2, c₂, hw, href, -, hsplit⟩ := writeMsg2_reference mc urandom server hserver
    cipher
  have hrole : (server.reference false true true cipher [ikTokens2]).initiator = false := by
    rw [NoiseIKState.reference, hserver]
    rfl
  obtain ⟨a₂, ha, hm₂⟩ := hm.symm.message hS.symm hfresh (.nil _) rfl (by rw [hrole]; rfl) href
  exact ⟨server₂, msg2, a₂, hw, ha, hm₂.transport.trans hsplit⟩

/-- msg1 arrives: it is accepted, the client's static key comes out, and the two are in step. -/
theorem msg1_agrees {A B : KeyPair → Prop} (hS : (noiseSuite mc).Sound A B) (c s : KeyPair)
    (urandom : Option (List UInt8)) (hc : A c) (hs : B s) (hfresh : A (ephemeralPair mc urandom)) :
    ∃ client₁ msg1 cipher cipher',
      let r₁ := noiseIkReadMsg1 mc (noiseIkInitServer mc s.priv s.pub) msg1
      noiseIkWriteMsg1 mc urandom (noiseIkInitClient mc c.priv c.pub s.pub) = some (client₁, msg1) ∧
      r₁.rc = .ok ∧ r₁.agentPub = some c.pub ∧
      Mirror A B (client₁.reference true true false cipher [ikTokens2])
        (r₁.st.reference false true true cipher' [ikTokens2]) := by
  obtain ⟨client₁, msg1, cipher, hw, href, -⟩ := writeMsg1_reference mc urandom
    (noiseIkInitClient mc c.priv c.pub s.pub) rfl ⟨none, 0⟩ [ikTokens2]
  have hlen : msg1.length = noiseMsg1Size := noiseIkWriteMsg1_length (hS.pub_length c (Or.inl hc)) hw
  obtain ⟨cipher', hok, hm, hpub⟩ := msg1_accepted hS (mirror_init hc hs) hfresh href hlen
  refine ⟨client₁, msg1, cipher, cipher', hw, hok, ?_, hm⟩
  rw [hpub _ rfl]
  exact congrArg some (noiseIkWriteMsg1_keeps hw).2.2

/-- msg2 arrives: it is accepted, and the client holds the server's transport keys, turned. -/
theorem msg2_agrees {A B : KeyPair → Prop} (hS : (noiseSuite mc).Sound A B)
    {client server : NoiseIKState} (hclient : client.isServer = false)
    (hserver : server.isServer = true) {cipher cipher' : Noise.CipherState}
    (hm : Mirror A B (client.reference true true false cipher [ikTokens2])
      (server.reference false true true cipher' [ikTokens2]))
    (urandom : Option (List UInt8)) (hfresh : B (freshPair mc urandom server)) :
    ∃ server₂ msg2,
      let r₂ := noiseIkReadMsg2 mc client msg2
      noiseIkWriteMsg2 mc urandom server = some (server₂, msg2) ∧ r₂.rc = .ok ∧
      r₂.st.sendKey = server₂.recvKey ∧ r₂.st.recvKey = server₂.sendKey := by
  obtain ⟨server₂, msg2, a, hw, ha, hsplit⟩ := msg2_read hS hserver hm urandom hfresh
  obtain ⟨c₂', hread, -, hsplit'⟩ := readMsg2_reference mc client msg2 hclient
    (noiseIkWriteMsg2_length hw) cipher
  have hr := hread.symm.trans ha
  split at hr
  · rename_i hok
    obtain ⟨rfl, -⟩ := Prod.mk.inj (Option.some.inj hr)
    refine ⟨server₂, msg2, hw, hok, ?_⟩
    have h := (hsplit' hok).symm.trans hsplit
    simp only [Option.some.injEq, Prod.mk.injEq, Noise.CipherState.mk.injEq] at h
    exact ⟨h.1.1, h.2.1⟩
  · cases hr

/-- The pair that the server draws for msg2, whatever msg1 was. -/
theorem freshPair_server (s : KeyPair) (msg1 : List UInt8) (urandom : Option (List UInt8)) :
    freshPair mc urandom (noiseIkReadMsg1 mc (noiseIkInitServer mc s.priv s.pub) msg1).st =
      ephemeralPair mc urandom := by
  rw [freshPair, (noiseIkReadMsg1_keeps mc (noiseIkInitServer mc s.priv s.pub) msg1).2.2]
  rfl

/-- The messages of a handshake, what the two ends make of them, and the transport keys. -/
theorem messages_agree (hread : mc.AeadInverts) {c s : KeyPair} (hc : KeyPairOf mc c)
    (hs : KeyPairOf mc s) (urandomC urandomS : Option (List UInt8))
    (hdh : X25519Commutes mc [c.priv, (ephemeralPair mc urandomC).priv]
      [s.priv, (ephemeralPair mc urandomS).priv]) :
    ∃ client₁ msg1 server₂ msg2,
      let r₁ := noiseIkReadMsg1 mc (noiseIkInitServer mc s.priv s.pub) msg1
      let r₂ := noiseIkReadMsg2 mc client₁ msg2
      noiseIkWriteMsg1 mc urandomC (noiseIkInitClient mc c.priv c.pub s.pub) = some (client₁, msg1) ∧
      r₁.rc = .ok ∧ r₁.agentPub = some c.pub ∧
      noiseIkWriteMsg2 mc urandomS r₁.st = some (server₂, msg2) ∧
      r₂.rc = .ok ∧ r₂.st.sendKey = server₂.recvKey ∧ r₂.st.recvKey = server₂.sendKey := by
  have hS : (noiseSuite mc).Sound (· ∈ [c, ephemeralPair mc urandomC])
      (· ∈ [s, ephemeralPair mc urandomS]) :=
    noiseSuite_sound hread (by simp [hc, ephemeralPair_of]) (by simp [hs, ephemeralPair_of]) hdh
  obtain ⟨client₁, msg1, _, _, hw₁, hok₁, hpub, hm⟩ := msg1_agrees hS c s
    urandomC (by simp) (by simp) (by simp)
  have hserver := (noiseIkReadMsg1_keeps mc (noiseIkInitServer mc s.priv s.pub) msg1).2.1
  obtain ⟨server₂, msg2, hw₂, hok₂, hsend, hrecv⟩ := msg2_agrees hS (noiseIkWriteMsg1_keeps hw₁).2.1
    hserver hm urandomS (by simp [freshPair_server])
  exact ⟨client₁, msg1, server₂, msg2, hw₁, hok₁, hpub, hw₂, hok₂, hsend, hrecv⟩

/-- The two ends that such a handshake leaves mirror each other, as the transport asks of its ends. -/
theorem handshake_mirrored (hread : mc.AeadInverts) {c s : KeyPair} (hc : KeyPairOf mc c)
    (hs : KeyPairOf mc s) (urandomC urandomS : Option (List UInt8))
    (hdh : X25519Commutes mc [c.priv, (ephemeralPair mc urandomC).priv]
      [s.priv, (ephemeralPair mc urandomS).priv]) :
    ∃ client₁ msg1 server₂ msg2,
      let r₁ := noiseIkReadMsg1 mc (noiseIkInitServer mc s.priv s.pub) msg1
      noiseIkWriteMsg1 mc urandomC (noiseIkInitClient mc c.priv c.pub s.pub) = some (client₁, msg1) ∧
      noiseIkWriteMsg2 mc urandomS r₁.st = some (server₂, msg2) ∧
      Mirrored (noiseIkReadMsg2 mc client₁ msg2).st server₂ := by
  obtain ⟨client₁, msg1, server₂, msg2, hw₁, -, -, hw₂, hok₂, hsend, hrecv⟩ :=
    messages_agree hread hc hs urandomC urandomS hdh
  exact ⟨client₁, msg1, server₂, msg2, hw₁, hw₂, mirrored_of_handshake hw₂ hok₂ hsend hrecv⟩

/-- CORRECT: for all pairs, a handshake whose messages arrive unaltered succeeds at both ends, gives
    the server the client's static key, and leaves the two with each other's transport keys, both
    counters at 0 and the same Epoch_ID. -/
theorem handshake_agrees (hread : mc.AeadInverts) {c s : KeyPair} (hc : KeyPairOf mc c)
    (hs : KeyPairOf mc s) (urandomC urandomS : Option (List UInt8))
    (hdh : X25519Commutes mc [c.priv, (ephemeralPair mc urandomC).priv]
      [s.priv, (ephemeralPair mc urandomS).priv]) :
    ∃ client₁ msg1 server₂ msg2,
      let r₁ := noiseIkReadMsg1 mc (noiseIkInitServer mc s.priv s.pub) msg1
      let r₂ := noiseIkReadMsg2 mc client₁ msg2
      noiseIkWriteMsg1 mc urandomC (noiseIkInitClient mc c.priv c.pub s.pub) = some (client₁, msg1) ∧
      r₁.rc = .ok ∧ r₁.agentPub = some c.pub ∧
      noiseIkWriteMsg2 mc urandomS r₁.st = some (server₂, msg2) ∧
      r₂.rc = .ok ∧
      r₂.st.sendKey = server₂.recvKey ∧ r₂.st.recvKey = server₂.sendKey ∧
      r₂.st.sendNonce = 0 ∧ r₂.st.recvNonce = 0 ∧ server₂.sendNonce = 0 ∧ server₂.recvNonce = 0 ∧
      deriveEpochId mc server₂.recvKey = deriveEpochId mc r₂.st.sendKey := by
  obtain ⟨client₁, msg1, server₂, msg2, hw₁, hok₁, hpub, hw₂, hok₂, hsend, hrecv⟩ :=
    messages_agree hread hc hs urandomC urandomS hdh
  have hclient := noiseIkReadMsg2_opens hok₂
  have hserver := noiseIkWriteMsg2_opens hw₂
  exact ⟨client₁, msg1, server₂, msg2, hw₁, hok₁, hpub, hw₂, hok₂, hsend, hrecv, hclient.sendNonce,
    hclient.recvNonce, hserver.sendNonce, hserver.recvNonce, by rw [hsend]⟩

/-- Four pairs of the library itself, with the eight results of X25519 that they need. -/
theorem handshake_agrees_monocypher :
    let pair := fun b : UInt8 => ephemeralPair monocypher (some (List.replicate 32 b))
    ∃ client₁ msg1 server₂ msg2,
      let r₁ := noiseIkReadMsg1 monocypher
        (noiseIkInitServer monocypher (pair 0x22).priv (pair 0x22).pub) msg1
      noiseIkWriteMsg1 monocypher (some (List.replicate 32 0x33)) (noiseIkInitClient monocypher
        (pair 0x11).priv (pair 0x11).pub (pair 0x22).pub) = some (client₁, msg1) ∧
      r₁.rc = .ok ∧
      noiseIkWriteMsg2 monocypher (some (List.replicate 32 0x44)) r₁.st = some (server₂, msg2) ∧
      (noiseIkReadMsg2 monocypher client₁ msg2).st.sendKey = server₂.recvKey := by
  intro pair
  have hdh : X25519Commutes monocypher
      [(pair 0x11).priv, (ephemeralPair monocypher (some (List.replicate 32 0x33))).priv]
      [(pair 0x22).priv, (ephemeralPair monocypher (some (List.replicate 32 0x44))).priv] := by
    rw [X25519Commutes]
    decide +kernel
  obtain ⟨client₁, msg1, server₂, msg2, hw₁, hok, -, hw₂, -, hkey, -⟩ :=
    handshake_agrees monocypher_aeadInverts (ephemeralPair_of _) (ephemeralPair_of _)
      (some (List.replicate 32 0x33)) (some (List.replicate 32 0x44)) hdh
  exact ⟨client₁, msg1, server₂, msg2, hw₁, hok, hw₂, hkey⟩

end Asys
