import Asys.Core.NoiseIk
import Asys.Lib.Noise

/-! # noise_ik.c against the Noise framework

    `Noise_IK_25519_ChaChaPoly_BLAKE2b` as an instance of the HandshakeState. The functions of
    noise_ik.c unroll its token processing by hand; each of them is held against the tokens of its
    message, step by step and in both roles. -/

namespace Asys
open Noise (HandshakeState CipherState SymmetricState KeyPair)

/-- The nonce of ChaChaPoly: 32 bits of zeros and the counter in 64 bits, little-endian. -/
def chaChaPolyNonce (n : ℕ) : List UInt8 := List.replicate 4 (0 : UInt8) ++ storeLe 8 n

/-- `25519`, `ChaChaPoly` and `BLAKE2b`. -/
def noiseSuite (mc : Monocypher) : Noise.Suite where
  dhLen := 32
  hashLen := 64
  blockLen := 128
  dh p pub := mc.x25519 p.priv pub
  encrypt k n ad plaintext :=
    let (cipher, mac) := mc.aeadWrite k (chaChaPolyNonce n) ad plaintext
    cipher ++ mac
  decrypt k n ad ciphertext :=
    if ciphertext.length < 16 then none
    else mc.aeadRead k (chaChaPolyNonce n) ad (ciphertext.drop (ciphertext.length - 16))
      (ciphertext.take (ciphertext.length - 16))
  hash := mc.blake2b

/-- `IK`: `<- s`, `...`, `-> e, es, s, ss`, `<- e, ee, se`. -/
def ikPattern : Noise.HandshakePattern where
  initiatorPre := []
  responderPre := [.s]
  messages := [[.send .e, .dh .e .s, .send .s, .dh .s .s], [.send .e, .dh .e .e, .dh .s .e]]

/-! ### The helpers -/

section Helpers
variable (mc : Monocypher) (c : CipherState) (ck h k data : List UInt8)

theorem noiseSuite_hmac : (noiseSuite mc).hmac k data = hmacBlake2b mc k data := rfl

theorem noiseSuite_mixHash :
    SymmetricState.mixHash (noiseSuite mc) ⟨c, ck, h⟩ data = ⟨c, ck, mixHash mc h data⟩ := rfl

theorem noiseSuite_mixKey :
    SymmetricState.mixKey (noiseSuite mc) ⟨c, ck, h⟩ data =
      ⟨⟨some (mixKey mc ck data).2, 0⟩, (mixKey mc ck data).1, h⟩ := by
  simp only [SymmetricState.mixKey, Noise.Suite.hkdf, noiseSuite_hmac]
  rfl

/-- The handshake functions write the nonce 0 as twelve zeros. -/
theorem chaChaPolyNonce_zero : chaChaPolyNonce 0 = nonce12 0 := rfl

theorem storeLe_eq_map (k n : ℕ) :
    storeLe k n = (List.range k).map fun i => (n / 256 ^ i).toUInt8 := by
  induction k generalizing n with
  | zero => rfl
  | succ k ih =>
    rw [storeLe, ih, List.range_succ_eq_map, List.map_cons, List.map_map, Nat.pow_zero, Nat.div_one]
    congr 1
    refine List.map_congr_left fun i _ => ?_
    rw [Nat.div_div_eq_div_mul, ← Nat.pow_succ']
    rfl

theorem noiseSuite_encryptAndHash :
    SymmetricState.encryptAndHash (noiseSuite mc) ⟨⟨some k, 0⟩, ck, h⟩ data =
      (⟨⟨some k, 1⟩, ck, (encryptAndHash mc h k data).1⟩, (encryptAndHash mc h k data).2) := by
  rw [encryptAndHash, ← chaChaPolyNonce_zero]
  rfl

theorem noiseSuite_decryptAndHash {h' : List UInt8} {p : Option (List UInt8)}
    (hd : decryptAndHash mc h k data = (h', p)) :
    SymmetricState.decryptAndHash (noiseSuite mc) ⟨⟨some k, 0⟩, ck, h⟩ data =
      p.map (⟨⟨some k, 1⟩, ck, h'⟩, ·) := by
  rw [SymmetricState.decryptAndHash, CipherState.decryptWithAd]
  dsimp only
  by_cases hlen : data.length < noiseMacSize
  · rw [decryptAndHash, if_pos hlen] at hd
    obtain ⟨rfl, rfl⟩ := Prod.mk.inj hd
    rw [show (noiseSuite mc).decrypt k 0 h data = none from if_pos hlen]
    rfl
  · rw [decryptAndHash, if_neg hlen] at hd
    obtain ⟨rfl, rfl⟩ := Prod.mk.inj hd
    rw [show (noiseSuite mc).decrypt k 0 h data = _ from if_neg hlen, Option.map_map]
    rfl

theorem noiseSuite_split :
    SymmetricState.split (noiseSuite mc) ⟨c, ck, h⟩ =
      (⟨some (split mc ck).1, 0⟩, ⟨some (split mc ck).2, 0⟩) := by
  simp only [SymmetricState.split, Noise.Suite.hkdf, noiseSuite_hmac]
  rfl

end Helpers

/-- A ciphertext of one MAC holds nothing else. -/
theorem decryptAndHash_empty {mc : Monocypher} {h k c h' p : List UInt8}
    (hd : decryptAndHash mc h k c = (h', some p)) (hlen : c.length ≤ noiseMacSize) : p = [] := by
  rw [decryptAndHash] at hd
  split at hd
  · cases (Prod.mk.inj hd).2
  · have hp := mc.plain_length _ _ _ _ _ _ (Prod.mk.inj hd).2
    rw [List.length_take] at hp
    exact List.length_eq_zero_iff.mp (by omega)

/-! ### The states -/

/-- The HandshakeState that a state of noise_ik.c stands for. The C code keeps no flags for the keys
    that it holds, `e`, `rs` and `re` here, and its cipher key is a local of each call. -/
def NoiseIKState.reference (st : NoiseIKState) (e rs re : Bool) (cipher : CipherState)
    (patterns : List (List Noise.Token)) : HandshakeState where
  symmetric := ⟨cipher, st.ck, st.h⟩
  s := some ⟨st.sPriv, st.sPub⟩
  e := if e then some ⟨st.ePriv, st.ePub⟩ else none
  rs := if rs then some st.rsPub else none
  re := if re then some st.rePub else none
  initiator := !st.isServer
  messagePatterns := patterns

/-- The chaining key and the handshake hash. -/
structure Chain where
  ck : List UInt8
  h : List UInt8

def chainOf (sym : SymmetricState) : Chain := ⟨sym.ck, sym.h⟩

/-- A pair with the public key of its private key. -/
def KeyPairOf (mc : Monocypher) (p : KeyPair) : Prop := p.pub = mc.x25519PublicKey p.priv

/-- The pair that the next message of a state carries. -/
def freshPair (mc : Monocypher) (urandom : Option (List UInt8)) (st : NoiseIKState) : KeyPair :=
  ⟨(noiseIkGenerateKeypair mc urandom st.ePriv).1, (noiseIkGenerateKeypair mc urandom st.ePriv).2⟩

/-- The ephemeral pair of a state that has not drawn one before. -/
def ephemeralPair (mc : Monocypher) (urandom : Option (List UInt8)) : KeyPair :=
  ⟨(noiseIkGenerateKeypair mc urandom zeroKey).1, (noiseIkGenerateKeypair mc urandom zeroKey).2⟩

theorem ephemeralPair_of {mc : Monocypher} (urandom : Option (List UInt8)) :
    KeyPairOf mc (ephemeralPair mc urandom) := rfl

theorem initClient_reference (mc : Monocypher) (sPriv sPub rsPub : List UInt8) :
    HandshakeState.initializeHandshake (noiseSuite mc) ikPattern protocolName [] true
      (some ⟨sPriv, sPub⟩) none (some rsPub) none =
    some ((noiseIkInitClient mc sPriv sPub rsPub).reference false true false ⟨none, 0⟩
      ikPattern.messages) := rfl

theorem initServer_reference (mc : Monocypher) (sPriv sPub : List UInt8) :
    HandshakeState.initializeHandshake (noiseSuite mc) ikPattern protocolName [] false
      (some ⟨sPriv, sPub⟩) none none none =
    some ((noiseIkInitServer mc sPriv sPub).reference false false false ⟨none, 0⟩
      ikPattern.messages) := rfl

/-! ### The tokens -/

section Tokens
variable (mc : Monocypher) (st : NoiseIKState) (e rs re : Bool) (cipher : CipherState)
  (patterns : List (List Noise.Token))

theorem reference_writeE (fresh : KeyPair) :
    (st.reference e rs re cipher patterns).writeToken (noiseSuite mc) fresh (.send .e) =
      some ({ st with
        ePriv := fresh.priv
        ePub := fresh.pub
        h := mixHash mc st.h fresh.pub }.reference true rs re cipher patterns, fresh.pub) := by
  simp only [HandshakeState.writeToken, NoiseIKState.reference, noiseSuite_mixHash, if_true]

theorem reference_writeS (fresh : KeyPair) (k : List UInt8) :
    (st.reference e rs re ⟨some k, 0⟩ patterns).writeToken (noiseSuite mc) fresh (.send .s) =
      some ({ st with h := (encryptAndHash mc st.h k st.sPub).1 }.reference e rs re ⟨some k, 1⟩ patterns,
        (encryptAndHash mc st.h k st.sPub).2) := by
  simp only [HandshakeState.writeToken, NoiseIKState.reference, noiseSuite_encryptAndHash,
    Option.map_some]

theorem reference_readE (inp : List UInt8) (hlen : noiseKeySize ≤ inp.length) :
    (st.reference e rs re cipher patterns).readToken (noiseSuite mc) inp (.send .e) =
      some ({ st with
        rePub := inp.take noiseKeySize
        h := mixHash mc st.h (inp.take noiseKeySize) }.reference e rs true cipher patterns,
        inp.drop noiseKeySize) := by
  refine (HandshakeState.readToken_e hlen).trans ?_
  simp only [NoiseIKState.reference, noiseSuite_mixHash, if_true]
  rfl

theorem reference_readS (inp : List UInt8) {k h : List UInt8} {s : Option (List UInt8)}
    (hlen : noiseKeySize + noiseMacSize ≤ inp.length)
    (hd : decryptAndHash mc st.h k (inp.take (noiseKeySize + noiseMacSize)) = (h, s)) :
    (st.reference e rs re ⟨some k, 0⟩ patterns).readToken (noiseSuite mc) inp (.send .s) =
      s.map fun s => ({ st with rsPub := s, h := h }.reference e true re ⟨some k, 1⟩ patterns,
        inp.drop (noiseKeySize + noiseMacSize)) := by
  rw [HandshakeState.readToken_s (noiseKeySize + noiseMacSize) rfl hlen]
  rw [show SymmetricState.decryptAndHash _ (st.reference e rs re _ patterns).symmetric _ = _ from
    noiseSuite_decryptAndHash mc st.ck st.h k _ hd, Option.map_map]
  rfl

/-- A DH at the end where the pair is `p` and the other party's key `pub`. -/
theorem reference_mixDh {i r mine other : Noise.Key}
    (hrole : (if st.isServer then (r, i) else (i, r)) = (mine, other)) {p : KeyPair}
    {pub : List UInt8} (hown : (st.reference e rs re cipher patterns).own mine = some p)
    (hremote : (st.reference e rs re cipher patterns).remote other = some pub) :
    (st.reference e rs re cipher patterns).mixDh (noiseSuite mc) i r =
      some ({ st with ck := (mixKey mc st.ck (mc.x25519 p.priv pub)).1 }.reference e rs re
        ⟨some (mixKey mc st.ck (mc.x25519 p.priv pub)).2, 0⟩ patterns) := by
  have hkeys : (st.reference e rs re cipher patterns).dhKeys i r = some (p, pub) := by
    have hpair : (if (st.reference e rs re cipher patterns).initiator then (i, r) else (r, i)) =
        (mine, other) := by
      rw [← hrole]
      cases hs : st.isServer <;> simp [NoiseIKState.reference, hs]
    rw [HandshakeState.dhKeys, hpair]
    dsimp only
    rw [hown, hremote]
    rfl
  rw [HandshakeState.mixDh, hkeys, Option.map_some]
  simp only [NoiseIKState.reference, noiseSuite_mixKey]
  rfl

theorem reference_writeDh (fresh : KeyPair) {i r mine other : Noise.Key}
    (hrole : (if st.isServer then (r, i) else (i, r)) = (mine, other)) {p : KeyPair}
    {pub : List UInt8} (hown : (st.reference e rs re cipher patterns).own mine = some p)
    (hremote : (st.reference e rs re cipher patterns).remote other = some pub) :
    (st.reference e rs re cipher patterns).writeToken (noiseSuite mc) fresh (.dh i r) =
      some ({ st with ck := (mixKey mc st.ck (mc.x25519 p.priv pub)).1 }.reference e rs re
        ⟨some (mixKey mc st.ck (mc.x25519 p.priv pub)).2, 0⟩ patterns, []) := by
  rw [HandshakeState.writeToken, reference_mixDh mc st e rs re cipher patterns hrole hown hremote]
  rfl

theorem reference_readDh (inp : List UInt8) {i r mine other : Noise.Key}
    (hrole : (if st.isServer then (r, i) else (i, r)) = (mine, other)) {p : KeyPair}
    {pub : List UInt8} (hown : (st.reference e rs re cipher patterns).own mine = some p)
    (hremote : (st.reference e rs re cipher patterns).remote other = some pub) :
    (st.reference e rs re cipher patterns).readToken (noiseSuite mc) inp (.dh i r) =
      some ({ st with ck := (mixKey mc st.ck (mc.x25519 p.priv pub)).1 }.reference e rs re
        ⟨some (mixKey mc st.ck (mc.x25519 p.priv pub)).2, 0⟩ patterns, inp) := by
  rw [HandshakeState.readToken, reference_mixDh mc st e rs re cipher patterns hrole hown hremote]
  rfl

theorem reference_transport :
    (st.reference e rs re cipher []).transport (noiseSuite mc) =
      some (⟨some (split mc st.ck).1, 0⟩, ⟨some (split mc st.ck).2, 0⟩) :=
  congrArg some (noiseSuite_split mc cipher st.ck st.h)

variable {mc st}

/-- The payload, which is empty, ends a message that is written. -/
theorem reference_writeMessage {fresh : KeyPair} {hs : HandshakeState} {ts : List Noise.Token}
    {k out : List UInt8} {trace : List SymmetricState}
    (h : hs.Writes (noiseSuite mc) fresh ts (st.reference e rs re ⟨some k, 0⟩ (ts :: patterns)) out
      trace) (hp : hs.messagePatterns = ts :: patterns) :
    hs.writeMessage (noiseSuite mc) fresh [] =
      some ({ st with h := (encryptAndHash mc st.h k []).1 }.reference e rs re ⟨some k, 1⟩ patterns,
        out ++ (encryptAndHash mc st.h k []).2) ∧
    (hs.writeTrace (noiseSuite mc) fresh [] ts).map chainOf =
      trace.map chainOf ++ [⟨st.ck, (encryptAndHash mc st.h k []).1⟩] := by
  refine ⟨?_, ?_⟩
  · rw [h.message hp]
    simp only [NoiseIKState.reference, noiseSuite_encryptAndHash]
  · rw [h.trace, List.map_append]
    simp only [NoiseIKState.reference, noiseSuite_encryptAndHash]
    rfl

/-- The payload ends a message that is read, or the reading breaks off with it. -/
theorem reference_readMessage {hs : HandshakeState} {inp enc h : List UInt8}
    {ts : List Noise.Token} {k : List UInt8} {trace : List SymmetricState}
    {payload : Option (List UInt8)}
    (hr : hs.Reads (noiseSuite mc) inp ts (st.reference e rs re ⟨some k, 0⟩ (ts :: patterns)) enc trace)
    (hp : hs.messagePatterns = ts :: patterns)
    (hd : decryptAndHash mc st.h k enc = (h, payload)) :
    hs.readMessage (noiseSuite mc) inp =
      payload.map ({ st with h := h }.reference e rs re ⟨some k, 1⟩ patterns, ·) ∧
    (hs.readTrace (noiseSuite mc) inp ts).map chainOf =
      trace.map chainOf ++ if payload.isSome then [⟨st.ck, h⟩] else [] := by
  have hsym := noiseSuite_decryptAndHash mc st.ck st.h k enc hd
  refine ⟨?_, ?_⟩
  · rw [hr.message hp, NoiseIKState.reference]
    dsimp only
    rw [hsym, Option.map_map]
    rfl
  · rw [hr.trace, List.map_append, NoiseIKState.reference]
    dsimp only
    rw [hsym]
    cases payload <;> rfl

end Tokens

/-! ### The first message -/

section Msg1
variable (mc : Monocypher) (urandom : Option (List UInt8)) (st : NoiseIKState) (msg1 : List UInt8)

/-- `ck` and `h` after each of the five steps of `noise_ik_write_msg1`. -/
def noiseIkWriteMsg1Steps : List Chain :=
  let (ePriv, ePub) := noiseIkGenerateKeypair mc urandom st.ePriv
  let h₁ := mixHash mc st.h ePub
  let (ck₂, k) := mixKey mc st.ck (mc.x25519 ePriv st.rsPub)
  let (h₃, _) := encryptAndHash mc h₁ k st.sPub
  let (ck₄, k) := mixKey mc ck₂ (mc.x25519 st.sPriv st.rsPub)
  let (h₅, _) := encryptAndHash mc h₃ k []
  [⟨st.ck, h₁⟩, ⟨ck₂, h₁⟩, ⟨ck₂, h₃⟩, ⟨ck₄, h₃⟩, ⟨ck₄, h₅⟩]

/-- `ck` and `h` after each of the five steps of `noise_ik_read_msg1`, as far as it gets. -/
def noiseIkReadMsg1Steps : List Chain :=
  let re := msg1.take noiseKeySize
  let encS := (msg1.drop 32).take (32 + noiseMacSize)
  let encP := (msg1.drop (32 + 48)).take noiseMacSize
  let h₁ := mixHash mc st.h re
  let (ck₂, k) := mixKey mc st.ck (mc.x25519 st.sPriv re)
  match decryptAndHash mc h₁ k encS with
  | (_, none) => [⟨st.ck, h₁⟩, ⟨ck₂, h₁⟩]
  | (h₃, some agentS) =>
    let (ck₄, k) := mixKey mc ck₂ (mc.x25519 st.sPriv agentS)
    let (h₅, payload) := decryptAndHash mc h₃ k encP
    [⟨st.ck, h₁⟩, ⟨ck₂, h₁⟩, ⟨ck₂, h₃⟩, ⟨ck₄, h₃⟩] ++
      if payload.isSome then [⟨ck₄, h₅⟩] else []

variable {mc urandom st msg1}

/-- `noise_ik_read_msg1` when the MAC of the static key is wrong. -/
theorem noiseIkReadMsg1_none (hst : st.isServer = true) {h₃ : List UInt8}
    (hd₃ : decryptAndHash mc (mixHash mc st.h (msg1.take noiseKeySize))
      (mixKey mc st.ck (mc.x25519 st.sPriv (msg1.take noiseKeySize))).2
      ((msg1.drop 32).take (32 + noiseMacSize)) = (h₃, none)) :
    let re := msg1.take noiseKeySize
    let h₁ := mixHash mc st.h re
    let ck₂ := (mixKey mc st.ck (mc.x25519 st.sPriv re)).1
    noiseIkReadMsg1 mc st msg1 =
      ⟨{ st with rePub := re, h := h₃, ck := ck₂ }, none, .errAuth⟩ ∧
    noiseIkReadMsg1Steps mc st msg1 = [⟨st.ck, h₁⟩, ⟨ck₂, h₁⟩] := by
  refine ⟨(if_neg (by simp [hst])).trans ?_, ?_⟩
  · simp only [hd₃]
  · simp only [noiseIkReadMsg1Steps, hd₃]

/-- `noise_ik_read_msg1` when it is right: the MAC of the payload decides. -/
theorem noiseIkReadMsg1_some (hst : st.isServer = true) {h₃ agentS h₅ : List UInt8}
    {payload : Option (List UInt8)}
    (hd₃ : decryptAndHash mc (mixHash mc st.h (msg1.take noiseKeySize))
      (mixKey mc st.ck (mc.x25519 st.sPriv (msg1.take noiseKeySize))).2
      ((msg1.drop 32).take (32 + noiseMacSize)) = (h₃, some agentS))
    (hd₅ : decryptAndHash mc h₃
      (mixKey mc (mixKey mc st.ck (mc.x25519 st.sPriv (msg1.take noiseKeySize))).1
        (mc.x25519 st.sPriv agentS)).2
      ((msg1.drop (32 + 48)).take noiseMacSize) = (h₅, payload)) :
    let re := msg1.take noiseKeySize
    let h₁ := mixHash mc st.h re
    let ck₂ := (mixKey mc st.ck (mc.x25519 st.sPriv re)).1
    let ck₄ := (mixKey mc ck₂ (mc.x25519 st.sPriv agentS)).1
    noiseIkReadMsg1 mc st msg1 =
      ⟨{ st with rePub := re, rsPub := agentS, h := h₅, ck := ck₄ }, some agentS,
        if payload.isSome then .ok else .errAuth⟩ ∧
    noiseIkReadMsg1Steps mc st msg1 = [⟨st.ck, h₁⟩, ⟨ck₂, h₁⟩, ⟨ck₂, h₃⟩, ⟨ck₄, h₃⟩] ++
      if payload.isSome then [⟨ck₄, h₅⟩] else [] := by
  refine ⟨(if_neg (by simp [hst])).trans ?_, ?_⟩
  · simp only [hd₃, hd₅]
  · simp only [noiseIkReadMsg1Steps, hd₃, hd₅]

/-- `-> e, es, s, ss`. -/
def ikTokens1 : List Noise.Token := [.send .e, .dh .e .s, .send .s, .dh .s .s]

variable (mc urandom st msg1)

/-- The first message, with the ephemeral pair `fresh`. -/
theorem reference_writeMsg1 (hst : st.isServer = false) (cipher : CipherState)
    (patterns : List (List Noise.Token)) (fresh : KeyPair) :
    let h₁ := mixHash mc st.h fresh.pub
    let k₂ := mixKey mc st.ck (mc.x25519 fresh.priv st.rsPub)
    let e₃ := encryptAndHash mc h₁ k₂.2 st.sPub
    let k₄ := mixKey mc k₂.1 (mc.x25519 st.sPriv st.rsPub)
    let e₅ := encryptAndHash mc e₃.1 k₄.2 []
    (st.reference false true false cipher (ikTokens1 :: patterns)).writeMessage (noiseSuite mc)
        fresh [] = some ({ st with
        ePriv := fresh.priv
        ePub := fresh.pub
        h := e₅.1
        ck := k₄.1 }.reference true true false ⟨some k₄.2, 1⟩ patterns, fresh.pub ++ e₃.2 ++ e₅.2) ∧
    ((st.reference false true false cipher (ikTokens1 :: patterns)).writeTrace (noiseSuite mc)
      fresh [] ikTokens1).map chainOf =
        [⟨st.ck, h₁⟩, ⟨k₂.1, h₁⟩, ⟨k₂.1, e₃.1⟩, ⟨k₄.1, e₃.1⟩, ⟨k₄.1, e₅.1⟩] := by
  intro h₁ k₂ e₃ k₄ e₅
  let st₁ : NoiseIKState := { st with ePriv := fresh.priv, ePub := fresh.pub, h := h₁ }
  have hrole : ∀ i r : Noise.Key, (if st.isServer then (r, i) else (i, r)) = (i, r) := by
    simp [hst]
  have hw := Noise.HandshakeState.Writes.cons
    (reference_writeE mc st false true false cipher (ikTokens1 :: patterns) fresh)
    (.cons (reference_writeDh mc st₁ true true false cipher _ fresh (hrole .e .s) rfl rfl)
      (.cons (reference_writeS mc { st₁ with ck := k₂.1 } true true false _ fresh k₂.2)
        (.cons (reference_writeDh mc { st₁ with ck := k₂.1, h := e₃.1 } true true false _ _ fresh
          (hrole .s .s) rfl rfl) .nil)))
  obtain ⟨hmsg, htrace⟩ := reference_writeMessage true true false patterns hw rfl
  refine ⟨?_, htrace⟩
  refine hmsg.trans (congrArg some (Prod.ext rfl ?_))
  simp only [List.nil_append, List.append_nil]
  rfl

/-- `noise_ik_write_msg1` writes the tokens of the first message. -/
theorem writeMsg1_reference (hst : st.isServer = false) (cipher : CipherState)
    (patterns : List (List Noise.Token)) :
    ∃ st' msg cipher', noiseIkWriteMsg1 mc urandom st = some (st', msg) ∧
      (st.reference false true false cipher (ikTokens1 :: patterns)).writeMessage (noiseSuite mc)
        (freshPair mc urandom st) [] = some (st'.reference true true false cipher' patterns, msg) ∧
      ((st.reference false true false cipher (ikTokens1 :: patterns)).writeTrace (noiseSuite mc)
        (freshPair mc urandom st) [] ikTokens1).map chainOf = noiseIkWriteMsg1Steps mc urandom st := by
  obtain ⟨hmsg, htrace⟩ := reference_writeMsg1 mc st hst cipher patterns (freshPair mc urandom st)
  exact ⟨_, _, _, if_neg (by simp [hst]), hmsg, htrace⟩

/-- `noise_ik_read_msg1` reads them, and refuses what the reference refuses. -/
theorem readMsg1_reference (hst : st.isServer = true) (hlen : msg1.length = noiseMsg1Size)
    (cipher : CipherState) (patterns : List (List Noise.Token)) :
    ∃ cipher', (st.reference false false false cipher (ikTokens1 :: patterns)).readMessage
        (noiseSuite mc) msg1 =
      (if (noiseIkReadMsg1 mc st msg1).rc = .ok then
        some ((noiseIkReadMsg1 mc st msg1).st.reference false true true cipher' patterns, [])
      else none) ∧
      ((st.reference false false false cipher (ikTokens1 :: patterns)).readTrace (noiseSuite mc)
        msg1 ikTokens1).map chainOf = noiseIkReadMsg1Steps mc st msg1 := by
  have hlen' : msg1.length = 96 := hlen
  have hencP : (msg1.drop (32 + 48)).take noiseMacSize = (msg1.drop 32).drop 48 := msg1_payload hlen
  let re := msg1.take noiseKeySize
  let st₁ : NoiseIKState := { st with rePub := re, h := mixHash mc st.h re }
  let k₂ := mixKey mc st.ck (mc.x25519 st.sPriv re)
  have hrole : ∀ i r : Noise.Key, (if st.isServer then (r, i) else (i, r)) = (r, i) := by
    simp [hst]
  -- the tokens `e` and `es`, and the ciphertext of the static key
  have hE := reference_readE mc st false false false cipher (ikTokens1 :: patterns)
    msg1 (by rw [hlen']; decide)
  have hES := reference_readDh mc st₁ false false true cipher (ikTokens1 :: patterns)
    (msg1.drop 32) (hrole .e .s) rfl rfl
  cases hd : decryptAndHash mc st₁.h k₂.2 ((msg1.drop 32).take (32 + noiseMacSize)) with
  | mk h₃ s =>
  have hS := reference_readS mc { st₁ with ck := k₂.1 } false false true (ikTokens1 :: patterns)
    (msg1.drop 32) (by rw [List.length_drop, hlen']; decide) hd
  cases s with
  | none =>
    obtain ⟨hC, hsteps⟩ := noiseIkReadMsg1_none hst hd
    have hb := Noise.HandshakeState.BreaksOff.cons hE (.cons hES (.here hS [.dh .s .s]))
    refine ⟨cipher, (hb.message rfl).trans ?_, (congrArg _ hb.trace).trans ?_⟩
    · rw [hC]
      rfl
    · rw [hsteps]
      rfl
  | some agentS =>
    let k₄ := mixKey mc k₂.1 (mc.x25519 st.sPriv agentS)
    have hSS := reference_readDh mc { st₁ with ck := k₂.1, rsPub := agentS, h := h₃ }
      false true true ⟨some k₂.2, 1⟩ (ikTokens1 :: patterns) ((msg1.drop 32).drop 48) (hrole .s .s) rfl
      rfl
    have hr := Noise.HandshakeState.Reads.cons hE (.cons hES (.cons hS (.cons hSS .nil)))
    cases hd₅ : decryptAndHash mc h₃ k₄.2 ((msg1.drop (32 + 48)).take noiseMacSize) with
    | mk h₅ payload =>
    obtain ⟨hmsg, htrace⟩ := reference_readMessage false true true patterns hr rfl (hencP ▸ hd₅)
    obtain ⟨hC, hsteps⟩ := noiseIkReadMsg1_some hst hd hd₅
    refine ⟨⟨some k₄.2, 1⟩, hmsg.trans ?_, htrace.trans ?_⟩
    · rw [hC]
      cases payload with
      | none => rfl
      | some payload =>
        obtain rfl := decryptAndHash_empty hd₅ (by rw [List.length_take]; omega)
        rfl
    · rw [hsteps]
      rfl

end Msg1

/-! ### The second message -/

section Msg2
variable (mc : Monocypher) (urandom : Option (List UInt8)) (st : NoiseIKState) (msg2 : List UInt8)

/-- `ck` and `h` after the steps of `noise_ik_write_msg2` that come before the split. -/
def noiseIkWriteMsg2Steps : List Chain :=
  let (ePriv, ePub) := noiseIkGenerateKeypair mc urandom st.ePriv
  let h₁ := mixHash mc st.h ePub
  let (ck₂, _) := mixKey mc st.ck (mc.x25519 ePriv st.rePub)
  let (ck₃, k) := mixKey mc ck₂ (mc.x25519 ePriv st.rsPub)
  let (h₄, _) := encryptAndHash mc h₁ k []
  [⟨st.ck, h₁⟩, ⟨ck₂, h₁⟩, ⟨ck₃, h₁⟩, ⟨ck₃, h₄⟩]

/-- `ck` and `h` after the steps of `noise_ik_read_msg2` that come before the split, as far as it
    gets. -/
def noiseIkReadMsg2Steps : List Chain :=
  let re := msg2.take noiseKeySize
  let encP := (msg2.drop noiseKeySize).take noiseMacSize
  let h₁ := mixHash mc st.h re
  let (ck₂, _) := mixKey mc st.ck (mc.x25519 st.ePriv re)
  let (ck₃, k) := mixKey mc ck₂ (mc.x25519 st.sPriv re)
  let (h₄, payload) := decryptAndHash mc h₁ k encP
  [⟨st.ck, h₁⟩, ⟨ck₂, h₁⟩, ⟨ck₃, h₁⟩] ++ if payload.isSome then [⟨ck₃, h₄⟩] else []

variable {mc urandom st msg2}

/-- `noise_ik_read_msg2` by the outcome of its MAC. -/
theorem noiseIkReadMsg2_eq (hst : st.isServer = false) {h₄ : List UInt8}
    {payload : Option (List UInt8)}
    (hd₄ : decryptAndHash mc (mixHash mc st.h (msg2.take noiseKeySize))
      (mixKey mc (mixKey mc st.ck (mc.x25519 st.ePriv (msg2.take noiseKeySize))).1
        (mc.x25519 st.sPriv (msg2.take noiseKeySize))).2
      ((msg2.drop noiseKeySize).take noiseMacSize) = (h₄, payload)) :
    let re := msg2.take noiseKeySize
    let h₁ := mixHash mc st.h re
    let ck₂ := (mixKey mc st.ck (mc.x25519 st.ePriv re)).1
    let ck₃ := (mixKey mc ck₂ (mc.x25519 st.sPriv re)).1
    let st₄ := { st with rePub := re, h := h₄, ck := ck₃ }
    noiseIkReadMsg2 mc st msg2 =
      (if payload.isSome then
        ⟨{ st₄ with
          sendKey := (split mc ck₃).1
          recvKey := (split mc ck₃).2
          sendNonce := 0
          recvNonce := 0
          handshakeDone := true }, .ok⟩
      else ⟨st₄, .errAuth⟩) ∧
    noiseIkReadMsg2Steps mc st msg2 = [⟨st.ck, h₁⟩, ⟨ck₂, h₁⟩, ⟨ck₃, h₁⟩] ++
      if payload.isSome then [⟨ck₃, h₄⟩] else [] := by
  refine ⟨(if_neg (by simp [hst])).trans ?_, ?_⟩
  · simp only [hd₄]
    cases payload <;> rfl
  · simp only [noiseIkReadMsg2Steps, hd₄]

/-- `<- e, ee, se`. -/
def ikTokens2 : List Noise.Token := [.send .e, .dh .e .e, .dh .s .e]

variable (mc urandom st msg2)

/-- `noise_ik_write_msg2` writes the tokens of the second message and splits; the responder sends
    with the second output. -/
theorem writeMsg2_reference (hst : st.isServer = true) (cipher : CipherState) :
    ∃ st' msg cipher', noiseIkWriteMsg2 mc urandom st = some (st', msg) ∧
      (st.reference false true true cipher [ikTokens2]).writeMessage (noiseSuite mc)
        (freshPair mc urandom st) [] = some (st'.reference true true true cipher' [], msg) ∧
      ((st.reference false true true cipher [ikTokens2]).writeTrace (noiseSuite mc)
        (freshPair mc urandom st) [] ikTokens2).map chainOf = noiseIkWriteMsg2Steps mc urandom st ∧
      (st'.reference true true true cipher' []).transport (noiseSuite mc) =
        some (⟨some st'.recvKey, st'.recvNonce.toNat⟩, ⟨some st'.sendKey, st'.sendNonce.toNat⟩) := by
  let fresh := freshPair mc urandom st
  let st₁ : NoiseIKState :=
    { st with ePriv := fresh.priv, ePub := fresh.pub, h := mixHash mc st.h fresh.pub }
  let k₂ := mixKey mc st.ck (mc.x25519 fresh.priv st.rePub)
  let k₃ := mixKey mc k₂.1 (mc.x25519 fresh.priv st.rsPub)
  let e₄ := encryptAndHash mc st₁.h k₃.2 []
  have hrole : ∀ i r : Noise.Key, (if st.isServer then (r, i) else (i, r)) = (r, i) := by
    simp [hst]
  have hw := Noise.HandshakeState.Writes.cons
    (reference_writeE mc st false true true cipher [ikTokens2] fresh)
    (.cons (reference_writeDh mc st₁ true true true cipher _ fresh (hrole .e .e) rfl rfl)
      (.cons (reference_writeDh mc { st₁ with ck := k₂.1 } true true true _ _ fresh
        (hrole .s .e) rfl rfl) .nil))
  obtain ⟨hmsg, htrace⟩ := reference_writeMessage true true true [] hw rfl
  refine ⟨{ st₁ with
      h := e₄.1
      ck := k₃.1
      recvKey := (split mc k₃.1).1
      sendKey := (split mc k₃.1).2
      sendNonce := 0
      recvNonce := 0
      handshakeDone := true }, fresh.pub ++ e₄.2, ⟨some k₃.2, 1⟩, ?_, ?_, htrace,
    reference_transport mc _ true true true _⟩
  · exact if_neg (by simp [hst])
  · refine hmsg.trans (congrArg some (Prod.ext rfl ?_))
    simp only [List.append_nil]
    rfl

/-- `noise_ik_read_msg2` reads them, refuses what the reference refuses and splits; the initiator
    sends with the first output. -/
theorem readMsg2_reference (hst : st.isServer = false) (hlen : msg2.length = noiseMsg2Size)
    (cipher : CipherState) :
    ∃ cipher', (st.reference true true false cipher [ikTokens2]).readMessage (noiseSuite mc) msg2 =
        (if (noiseIkReadMsg2 mc st msg2).rc = .ok then
          some ((noiseIkReadMsg2 mc st msg2).st.reference true true true cipher' [], [])
        else none) ∧
      ((st.reference true true false cipher [ikTokens2]).readTrace (noiseSuite mc)
        msg2 ikTokens2).map chainOf = noiseIkReadMsg2Steps mc st msg2 ∧
      ((noiseIkReadMsg2 mc st msg2).rc = .ok →
        let st' := (noiseIkReadMsg2 mc st msg2).st
        (st'.reference true true true cipher' []).transport (noiseSuite mc) =
          some (⟨some st'.sendKey, st'.sendNonce.toNat⟩, ⟨some st'.recvKey, st'.recvNonce.toNat⟩)) := by
  have hlen' : msg2.length = 48 := hlen
  have hencP := msg2_payload hlen
  let re := msg2.take noiseKeySize
  let st₁ : NoiseIKState := { st with rePub := re, h := mixHash mc st.h re }
  let k₂ := mixKey mc st.ck (mc.x25519 st.ePriv re)
  let k₃ := mixKey mc k₂.1 (mc.x25519 st.sPriv re)
  have hrole : ∀ i r : Noise.Key, (if st.isServer then (r, i) else (i, r)) = (i, r) := by
    simp [hst]
  have hr := Noise.HandshakeState.Reads.cons
    (reference_readE mc st true true false cipher [ikTokens2] msg2 (by rw [hlen']; decide))
    (.cons (reference_readDh mc st₁ true true true cipher _ _ (hrole .e .e) rfl rfl)
      (.cons (reference_readDh mc { st₁ with ck := k₂.1 } true true true _ _ _
        (hrole .s .e) rfl rfl) .nil))
  cases hd₄ : decryptAndHash mc st₁.h k₃.2 ((msg2.drop noiseKeySize).take noiseMacSize) with
  | mk h₄ payload =>
  obtain ⟨hmsg, htrace⟩ := reference_readMessage true true true [] hr rfl (hencP ▸ hd₄)
  obtain ⟨hC, hsteps⟩ := noiseIkReadMsg2_eq hst hd₄
  refine ⟨⟨some k₃.2, 1⟩, hmsg.trans ?_, htrace.trans ?_, ?_⟩
  · rw [hC]
    cases payload with
    | none => rfl
    | some payload =>
      obtain rfl := decryptAndHash_empty hd₄ (by rw [List.length_take]; omega)
      rfl
  · rw [hsteps]
    rfl
  · rw [hC]
    cases payload with
    | none => intro h; cases h
    | some payload => exact fun _ => reference_transport mc _ true true true _

end Msg2

/-! ### Both roles -/

/-- A state of noise_ik.c holds what the HandshakeState holds. -/
structure Agrees (st : NoiseIKState) (hs : HandshakeState) : Prop where
  chain : chainOf hs.symmetric = ⟨st.ck, st.h⟩
  s : hs.s = some ⟨st.sPriv, st.sPub⟩
  e : ∀ p, hs.e = some p → p = ⟨st.ePriv, st.ePub⟩
  rs : ∀ pub, hs.rs = some pub → pub = st.rsPub
  re : ∀ pub, hs.re = some pub → pub = st.rePub
  initiator : hs.initiator = !st.isServer

/-- A call that writes does as the reference: the same message, the same chain after every step, and
    a state that agrees. -/
structure WritesAs (mc : Monocypher) (fresh : KeyPair) (hs : HandshakeState) (ts : List Noise.Token)
    (call : Option (NoiseIKState × List UInt8)) (steps : List Chain) (hs' : HandshakeState)
    (st' : NoiseIKState) : Prop where
  written : ∃ msg, call = some (st', msg) ∧
    hs.writeMessage (noiseSuite mc) fresh [] = some (hs', msg)
  steps : (hs.writeTrace (noiseSuite mc) fresh [] ts).map chainOf = steps
  agrees : Agrees st' hs'

/-- A call that reads does as the reference: it accepts the same messages, with the same chain after
    every step it completes, and a state that agrees; the payload is empty. -/
structure ReadsAs (mc : Monocypher) (hs : HandshakeState) (msg : List UInt8) (ts : List Noise.Token)
    (st' : NoiseIKState) (rc : NoiseRc) (steps : List Chain) : Prop where
  accepts : rc = .ok ↔ (hs.readMessage (noiseSuite mc) msg).isSome
  steps : (hs.readTrace (noiseSuite mc) msg ts).map chainOf = steps
  agrees : ∀ hs' payload, hs.readMessage (noiseSuite mc) msg = some (hs', payload) →
    payload = [] ∧ Agrees st' hs'

theorem reference_agrees (st : NoiseIKState) (e rs re : Bool) (cipher : CipherState)
    (patterns : List (List Noise.Token)) : Agrees st (st.reference e rs re cipher patterns) := by
  refine ⟨rfl, rfl, ?_, ?_, ?_, rfl⟩
  · cases e <;> simp [NoiseIKState.reference]
  · cases rs <;> simp [NoiseIKState.reference]
  · cases re <;> simp [NoiseIKState.reference]

/-- The answer of the reference, when it is known to be that of the call. -/
theorem ReadsAs.of_read {mc : Monocypher} {hs hs' : HandshakeState} {msg : List UInt8}
    {ts : List Noise.Token} {st' : NoiseIKState} {rc : NoiseRc} {steps : List Chain}
    (hread : hs.readMessage (noiseSuite mc) msg = if rc = .ok then some (hs', []) else none)
    (hsteps : (hs.readTrace (noiseSuite mc) msg ts).map chainOf = steps) (ha : Agrees st' hs') :
    ReadsAs mc hs msg ts st' rc steps := by
  refine ⟨?_, hsteps, ?_⟩
  · rw [hread]
    split <;> simp_all
  · intro hs'' payload h
    rw [hread] at h
    split at h
    · obtain ⟨rfl, rfl⟩ := Prod.mk.inj (Option.some.inj h)
      exact ⟨rfl, ha⟩
    · cases h

/-- CORRECT: in both roles, for all static and ephemeral pairs, the calls of noise_ik.c and the
    HandshakeState of `Noise_IK_25519_ChaChaPoly_BLAKE2b` write the same messages, accept the same
    messages, hold the same chaining key and handshake hash after every step, and end with the same
    transport keys, the initiator sending with the first output of the split. -/
theorem noise_ik_matches_reference (mc : Monocypher) (sPriv sPub : List UInt8)
    (urandom : Option (List UInt8)) :
    (∀ rsPub : List UInt8, ∃ hs hs₁ client₁,
      let client := noiseIkInitClient mc sPriv sPub rsPub
      HandshakeState.initializeHandshake (noiseSuite mc) ikPattern protocolName [] true
        (some ⟨sPriv, sPub⟩) none (some rsPub) none = some hs ∧
      Agrees client hs ∧
      WritesAs mc (freshPair mc urandom client) hs ikTokens1 (noiseIkWriteMsg1 mc urandom client)
        (noiseIkWriteMsg1Steps mc urandom client) hs₁ client₁ ∧
      ∀ msg2 : Vector UInt8 noiseMsg2Size,
        let r := noiseIkReadMsg2 mc client₁ msg2.toList
        ReadsAs mc hs₁ msg2.toList ikTokens2 r.st r.rc
          (noiseIkReadMsg2Steps mc client₁ msg2.toList) ∧
        ∀ hs₂ payload, hs₁.readMessage (noiseSuite mc) msg2.toList = some (hs₂, payload) →
          hs₂.transport (noiseSuite mc) =
            some (⟨some r.st.sendKey, r.st.sendNonce.toNat⟩, ⟨some r.st.recvKey, r.st.recvNonce.toNat⟩)) ∧
    ∃ hs,
      let server := noiseIkInitServer mc sPriv sPub
      HandshakeState.initializeHandshake (noiseSuite mc) ikPattern protocolName [] false
        (some ⟨sPriv, sPub⟩) none none none = some hs ∧
      Agrees server hs ∧
      ∀ msg1 : Vector UInt8 noiseMsg1Size,
        let r := noiseIkReadMsg1 mc server msg1.toList
        ReadsAs mc hs msg1.toList ikTokens1 r.st r.rc (noiseIkReadMsg1Steps mc server msg1.toList) ∧
        ∀ hs₁ payload, hs.readMessage (noiseSuite mc) msg1.toList = some (hs₁, payload) →
          r.agentPub = hs₁.rs ∧
          ∃ hs₂ server₂,
            WritesAs mc (freshPair mc urandom r.st) hs₁ ikTokens2 (noiseIkWriteMsg2 mc urandom r.st)
              (noiseIkWriteMsg2Steps mc urandom r.st) hs₂ server₂ ∧
            hs₂.transport (noiseSuite mc) = some (⟨some server₂.recvKey, server₂.recvNonce.toNat⟩,
              ⟨some server₂.sendKey, server₂.sendNonce.toNat⟩) := by
  refine ⟨?_, ?_⟩
  · intro rsPub
    obtain ⟨client₁, msg, c₁, hw, href, hsteps⟩ := writeMsg1_reference mc urandom
      (noiseIkInitClient mc sPriv sPub rsPub) rfl ⟨none, 0⟩ [ikTokens2]
    have hclient : client₁.isServer = false := (noiseIkWriteMsg1_keeps hw).2.1
    refine ⟨_, _, client₁, initClient_reference mc sPriv sPub rsPub, reference_agrees _ _ _ _ _ _,
      ⟨⟨msg, hw, href⟩, hsteps, reference_agrees _ _ _ _ _ _⟩, ?_⟩
    intro msg2
    obtain ⟨c₂, hread, hsteps₂, hsplit⟩ := readMsg2_reference mc client₁ msg2.toList hclient
      Vector.length_toList c₁
    refine ⟨.of_read hread hsteps₂ (reference_agrees _ _ _ _ _ _), ?_⟩
    intro hs₂ payload h
    rw [hread] at h
    split at h
    · rename_i hok
      obtain ⟨rfl, -⟩ := Prod.mk.inj (Option.some.inj h)
      exact hsplit hok
    · cases h
  · refine ⟨_, initServer_reference mc sPriv sPub, reference_agrees _ _ _ _ _ _, ?_⟩
    intro msg1
    obtain ⟨c₁, hread, hsteps⟩ := readMsg1_reference mc (noiseIkInitServer mc sPriv sPub)
      msg1.toList rfl Vector.length_toList ⟨none, 0⟩ [ikTokens2]
    refine ⟨.of_read hread hsteps (reference_agrees _ _ _ _ _ _), ?_⟩
    intro hs₁ payload h
    have h' := hread.symm.trans h
    split at h'
    · rename_i hok
      obtain ⟨rfl, -⟩ := Prod.mk.inj (Option.some.inj h')
      obtain ⟨server₂, msg2, c₂, hw, href, hsteps₂, hsplit⟩ := writeMsg2_reference mc urandom
        (noiseIkReadMsg1 mc (noiseIkInitServer mc sPriv sPub) msg1.toList).st
        (noiseIkReadMsg1_keeps _ _ _).2.1 c₁
      exact ⟨noiseIkReadMsg1_agentPub hok, _, server₂,
        ⟨⟨msg2, hw, href⟩, hsteps₂, reference_agrees _ _ _ _ _ _⟩, hsplit⟩
    · cases h'

end Asys
