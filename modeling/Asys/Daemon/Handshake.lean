import Asys.Core.Curve25519
import Asys.Core.NoiseCalls
import Asys.Daemon.KeyAgreement
import Asys.Daemon.KeyMaterial

/-! # A session in words

    A client and a daemon whose bytes arrive as they were sent, with the library that they are linked
    with: X25519 commutes, so nothing is assumed of the keys. The handshake ends with the same keys on
    both sides, and then every message is opened to what was sealed. -/

namespace Asys
open Noise (KeyPair)

/-- The two ends of a DH get the same, whatever the keys. -/
theorem monocypher_x25519Commutes (as bs : List (List UInt8)) : X25519Commutes monocypher as bs :=
  fun a _ b _ => cryptoX25519_comm a b [9]

/-- The key pair that is generated from 32 bytes of /dev/urandom, and those bytes. -/
def drawnKeys (first : ℕ) : List UInt8 × List UInt8 :=
  noiseIkGenerateKeypair monocypher (some (bytesFrom first 32)) zeroKey

theorem drawnKeys_pair (first : ℕ) :
    KeyPairOf monocypher ⟨(drawnKeys first).1, (drawnKeys first).2⟩ := rfl

namespace Calls

/-! ### The handshake -/

section Ready
variable {mc : Monocypher} {st st' : NoiseIKState} {urandom : Option (List UInt8)} {msg : List UInt8}

theorem initClient_ready (sPriv sPub rsPub : List UInt8) :
    Ready (Asys.noiseIkInitClient mc sPriv sPub rsPub) := ⟨mc.blake2b_length _, rfl⟩

theorem initServer_ready (sPriv sPub : List UInt8) : Ready (Asys.noiseIkInitServer mc sPriv sPub) :=
  ⟨mc.blake2b_length _, rfl⟩

theorem writeMsg1_ready (h : Asys.noiseIkWriteMsg1 mc urandom st = some (st', msg)) : Ready st' := by
  simp only [Asys.noiseIkWriteMsg1] at h
  split at h
  · cases h
  · obtain ⟨rfl, -⟩ := Prod.mk.inj (Option.some.inj h)
    exact ⟨mc.blake2b_length _, mc.blake2b_length _⟩

theorem decryptAndHash_length (mc : Monocypher) {h : List UInt8} (hh : h.length = noiseHashSize)
    (k c : List UInt8) :
    (Asys.decryptAndHash mc h k c).1.length = noiseHashSize := by
  rw [Asys.decryptAndHash]
  split
  · exact hh
  · exact mc.blake2b_length _

theorem readMsg1_ready (hst : Ready st) (msg : List UInt8) :
    Ready (Asys.noiseIkReadMsg1 mc st msg).st := by
  unfold Asys.noiseIkReadMsg1
  split
  · exact hst
  · dsimp only
    have hh := decryptAndHash_length mc (mc.blake2b_length (st.h ++ msg.take noiseKeySize))
      (Asys.mixKey mc st.ck (mc.x25519 st.sPriv (msg.take noiseKeySize))).2
      ((msg.drop 32).take (32 + noiseMacSize))
    rw [← Asys.mixHash] at hh
    split
    · rename_i heq
      rw [heq] at hh
      exact ⟨hh, mc.blake2b_length _⟩
    · rename_i heq
      rw [heq] at hh
      exact ⟨decryptAndHash_length mc hh _ _, mc.blake2b_length _⟩

/-- The keys of the transport have the size of a key. -/
theorem writeMsg2_keys (h : Asys.noiseIkWriteMsg2 mc urandom st = some (st', msg)) :
    st'.sendKey.length = noiseKeySize ∧ st'.recvKey.length = noiseKeySize := by
  have hkey : ∀ m, ((mc.blake2b m).take noiseKeySize).length = noiseKeySize := fun m => by
    rw [List.length_take, mc.blake2b_length]
    rfl
  simp only [Asys.noiseIkWriteMsg2] at h
  split at h
  · cases h
  · obtain ⟨rfl, -⟩ := Prod.mk.inj (Option.some.inj h)
    exact ⟨hkey _, hkey _⟩

end Ready

/-! ### The transport -/

/-- Two ends that hold each other's keys and count alike. -/
structure Paired (a b : NoiseIKState) : Prop where
  aDone : a.handshakeDone = true
  bDone : b.handshakeDone = true
  aKey : a.sendKey.length = noiseKeySize
  bKey : b.sendKey.length = noiseKeySize
  toB : a.sendKey = b.recvKey
  toA : b.sendKey = a.recvKey
  toBNonce : a.sendNonce = b.recvNonce
  toANonce : b.sendNonce = a.recvNonce

theorem Paired.symm {a b : NoiseIKState} (h : Paired a b) : Paired b a :=
  ⟨h.bDone, h.aDone, h.bKey, h.aKey, h.toA, h.toB, h.toANonce, h.toBNonce⟩

/-- STEP: what one end seals the other opens, and they stay in step. -/
theorem Paired.message {a b : NoiseIKState} (h : Paired a b) (p : List UInt8) :
    ∃ a' b' c, noiseIkEncrypt a p = some (a', c) ∧ noiseIkDecrypt b c = some (b', p) ∧
      Paired a' b' := by
  have hcipher := monocypher.cipher_length a.sendKey (nonce12 a.sendNonce) [] p
  have hmac := monocypher.mac_length a.sendKey (nonce12 a.sendNonce) [] p
  have hopen := monocypher_aeadInverts a.sendKey (nonce12 a.sendNonce) [] p
  have hseal : Asys.noiseIkEncrypt monocypher a p = some ({ a with sendNonce := a.sendNonce + 1 },
      (monocypher.aeadWrite a.sendKey (nonce12 a.sendNonce) [] p).1 ++
        (monocypher.aeadWrite a.sendKey (nonce12 a.sendNonce) [] p).2) := by
    rw [Asys.noiseIkEncrypt, if_neg (by rw [h.aDone]; decide)]
  generalize monocypher.aeadWrite a.sendKey (nonce12 a.sendNonce) [] p = sealed at *
  obtain ⟨cipher, mac⟩ := sealed
  dsimp only at *
  have hcut : (cipher ++ mac).length - noiseMacSize = cipher.length := by
    rw [List.length_append, hmac, Nat.add_sub_cancel]
  refine ⟨_, { b with recvNonce := b.recvNonce + 1 }, _, (noiseIkEncrypt_eq h.aKey p).trans hseal, ?_,
    ⟨h.aDone, h.bDone, h.aKey, h.bKey, h.toB, h.toA, congrArg (· + 1) h.toBNonce, h.toANonce⟩⟩
  rw [noiseIkDecrypt_eq (by rw [← h.toB, h.aKey]), noiseIkDecrypt_iff]
  refine ⟨h.bDone, ?_, ?_, rfl⟩
  · rw [List.length_append, hmac]
    exact Nat.le_add_left _ _
  · rw [hcut, List.drop_left, List.take_left, ← h.toB, ← h.toBNonce]
    exact hopen

/-- The messages of a session in the order in which they are sent, each with its direction: what the
    other end gets of them. -/
def exchange (client server : NoiseIKState) : List (Bool × List UInt8) → Option (List (List UInt8))
  | [] => some []
  | (true, p) :: rest => do
    let (client, c) ← noiseIkEncrypt client p
    let (server, q) ← noiseIkDecrypt server c
    return q :: (← exchange client server rest)
  | (false, p) :: rest => do
    let (server, c) ← noiseIkEncrypt server p
    let (client, q) ← noiseIkDecrypt client c
    return q :: (← exchange client server rest)

/-- RUN: every message arrives. -/
theorem Paired.exchange {client server : NoiseIKState} (h : Paired client server)
    (ms : List (Bool × List UInt8)) : exchange client server ms = some (ms.map Prod.snd) := by
  induction ms generalizing client server with
  | nil => rfl
  | cons m ms ih =>
    obtain ⟨toServer, p⟩ := m
    cases toServer with
    | true =>
      obtain ⟨client', server', c, hc, hs, hnext⟩ := h.message p
      simp [Calls.exchange, hc, hs, ih hnext]
    | false =>
      obtain ⟨server', client', c, hs, hc, hnext⟩ := h.symm.message p
      simp [Calls.exchange, hc, hs, ih hnext.symm]

/-! ### The session -/

/-- CORRECT: whatever the private keys and whatever `/dev/urandom` gives, the public keys and the
    handshake in words overflow nowhere; the handshake succeeds at both ends, gives the daemon the
    static key of the client, and leaves two ends between which every message arrives as it was sent. -/
theorem session_agrees (cPriv sPriv : List UInt8) (urandomC urandomS : Option (List UInt8)) :
    ∃ cPub sPub client₁ msg1 r₁ server₂ msg2 r₂,
      Fe.cryptoX25519PublicKey cPriv = some cPub ∧ Fe.cryptoX25519PublicKey sPriv = some sPub ∧
      noiseIkWriteMsg1 urandomC (noiseIkInitClient cPriv cPub sPub) = some (some (client₁, msg1)) ∧
      noiseIkReadMsg1 (noiseIkInitServer sPriv sPub) msg1 = some r₁ ∧
      r₁.rc = .ok ∧ r₁.agentPub = some cPub ∧
      noiseIkWriteMsg2 urandomS r₁.st = some (some (server₂, msg2)) ∧
      noiseIkReadMsg2 client₁ msg2 = some r₂ ∧ r₂.rc = .ok ∧
      ∀ ms, exchange r₂.st server₂ ms = some (ms.map Prod.snd) := by
  obtain ⟨c, hc, rfl⟩ : ∃ c, KeyPairOf monocypher c ∧ c.priv = cPriv :=
    ⟨⟨cPriv, monocypher.x25519PublicKey cPriv⟩, rfl, rfl⟩
  obtain ⟨s, hs, rfl⟩ : ∃ s, KeyPairOf monocypher s ∧ s.priv = sPriv :=
    ⟨⟨sPriv, monocypher.x25519PublicKey sPriv⟩, rfl, rfl⟩
  have hlen : ∀ p, KeyPairOf monocypher p → p.pub.length = noiseKeySize := fun p hp => by
    rw [hp, monocypher.publicKey_length]
  have hpublic : ∀ p, KeyPairOf monocypher p → Fe.cryptoX25519PublicKey p.priv = some p.pub := by
    intro p hp
    rw [Fe.cryptoX25519PublicKey_eq, hp]
    rfl
  obtain ⟨client₁, msg1, server₂, msg2, hw₁, hok₁, hpub, hw₂, hok₂, hsend, hrecv⟩ :=
    messages_agree monocypher_aeadInverts hc hs urandomC urandomS (monocypher_x25519Commutes _ _)
  have hclient := noiseIkReadMsg2_opens hok₂
  have hserver := noiseIkWriteMsg2_opens hw₂
  obtain ⟨hskey, hrkey⟩ := writeMsg2_keys hw₂
  have hpair : Paired (Asys.noiseIkReadMsg2 monocypher client₁ msg2).st server₂ :=
    ⟨hclient.done, hserver.done, by rw [hsend, hrkey], hskey, hsend, hrecv.symm,
      hclient.sendNonce.trans hserver.recvNonce.symm, hserver.sendNonce.trans hclient.recvNonce.symm⟩
  refine ⟨c.pub, s.pub, client₁, msg1, _, server₂, msg2, _, hpublic c hc, hpublic s hs, ?_, ?_, hok₁,
    hpub, ?_, ?_, hok₂, hpair.exchange⟩
  · rw [initClient_eq (hlen s hs), writeMsg1_eq urandomC (initClient_ready _ _ _)
      (hlen c hc), hw₁]
  · rw [initServer_eq (hlen s hs), readMsg1_eq (initServer_ready _ _)]
  · rw [writeMsg2_eq urandomS (readMsg1_ready (initServer_ready _ _) msg1), hw₂]
  · exact readMsg2_eq (writeMsg1_ready hw₁) msg2

/-- CORRECT: whatever a peer sends for msg1 or for msg2, the handshake in words overflows nowhere and
    does what it does on numbers, at both ends. -/
theorem handshake_exact {cPub sPub : List UInt8} (hcPub : cPub.length = noiseKeySize)
    (hsPub : sPub.length = noiseKeySize) (cPriv sPriv : List UInt8)
    (urandomC urandomS : Option (List UInt8)) (msg1 msg2 : List UInt8) :
    (∃ r, noiseIkReadMsg1 (noiseIkInitServer sPriv sPub) msg1 = some r ∧
      r = Asys.noiseIkReadMsg1 monocypher (Asys.noiseIkInitServer monocypher sPriv sPub) msg1 ∧
      noiseIkWriteMsg2 urandomS r.st = some (Asys.noiseIkWriteMsg2 monocypher urandomS r.st)) ∧
    ∃ client₁ sent, noiseIkWriteMsg1 urandomC (noiseIkInitClient cPriv cPub sPub) =
        some (some (client₁, sent)) ∧
      Asys.noiseIkWriteMsg1 monocypher urandomC (Asys.noiseIkInitClient monocypher cPriv cPub sPub) =
        some (client₁, sent) ∧
      noiseIkReadMsg2 client₁ msg2 = some (Asys.noiseIkReadMsg2 monocypher client₁ msg2) := by
  refine ⟨⟨_, ?_, rfl, ?_⟩, ?_⟩
  · rw [initServer_eq hsPub, readMsg1_eq (initServer_ready _ _)]
  · exact writeMsg2_eq urandomS (readMsg1_ready (initServer_ready _ _) msg1)
  · have hclient : (Asys.noiseIkInitClient monocypher cPriv cPub sPub).isServer = false := rfl
    obtain ⟨client₁, sent, hw⟩ := noiseIkWriteMsg1_returns monocypher urandomC hclient
    refine ⟨client₁, sent, ?_, hw, readMsg2_eq (writeMsg1_ready hw) msg2⟩
    rw [initClient_eq hsPub, writeMsg1_eq urandomC (initClient_ready _ _ _) hcPub, hw]

/-- Drawn keys on both ends: the node gets the msg1 of this agent, and the agent any answer. -/
theorem handshake_exact_drawn :
    ∃ client₁ msg1 r,
      noiseIkWriteMsg1 (some (bytesFrom 64 32))
          (noiseIkInitClient (drawnKeys 0).1 (drawnKeys 0).2 (drawnKeys 32).2) =
        some (some (client₁, msg1)) ∧
      noiseIkReadMsg1 (noiseIkInitServer (drawnKeys 32).1 (drawnKeys 32).2) msg1 = some r ∧
      noiseIkWriteMsg2 (some (bytesFrom 96 32)) r.st =
        some (Asys.noiseIkWriteMsg2 monocypher (some (bytesFrom 96 32)) r.st) ∧
      ∀ msg2,
        noiseIkReadMsg2 client₁ msg2 = some (Asys.noiseIkReadMsg2 monocypher client₁ msg2) := by
  have hexact := fun msg1 msg2 => handshake_exact
    (monocypher.publicKey_length _ : (drawnKeys 0).2.length = noiseKeySize)
    (monocypher.publicKey_length _ : (drawnKeys 32).2.length = noiseKeySize)
    (drawnKeys 0).1 (drawnKeys 32).1 (some (bytesFrom 64 32)) (some (bytesFrom 96 32)) msg1 msg2
  obtain ⟨client₁, msg1, hwords, hnumbers, -⟩ := (hexact [] []).2
  obtain ⟨r, hread, -, hwrite⟩ := (hexact msg1 []).1
  refine ⟨client₁, msg1, r, hwords, hread, hwrite, fun msg2 => ?_⟩
  obtain ⟨client₂, sent, -, hsame, hanswer⟩ := (hexact msg1 msg2).2
  rw [hnumbers] at hsame
  obtain ⟨rfl, rfl⟩ := Prod.mk.inj (Option.some.inj hsame)
  exact hanswer

end Calls

end Asys
