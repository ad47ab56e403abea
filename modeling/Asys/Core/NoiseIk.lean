import Asys.Core.Monocypher

/-! # noise_ik.c and crypto_utils.c: the Noise IK handshake and the transport cipher

    Byte arrays are lists. The daemon makes the responder's calls, an agent the initiator's. -/

namespace Asys

def noiseMsg1Size : ℕ := 96
def noiseMsg2Size : ℕ := 48

def blake2bBlock : ℕ := 128

/-- The key of `hmac_blake2b`, padded to a block. -/
def hmacKeyPadded (mc : Monocypher) (key : List UInt8) : List UInt8 :=
  let k := if blake2bBlock < key.length then mc.blake2b key else key
  k ++ List.replicate (blake2bBlock - k.length) 0

def hmacBlake2b (mc : Monocypher) (key data : List UInt8) : List UInt8 :=
  let kPadded := hmacKeyPadded mc key
  let inner := mc.blake2b (kPadded.map (· ^^^ 0x36) ++ data)
  mc.blake2b (kPadded.map (· ^^^ 0x5C) ++ inner)

inductive NoiseRc where | ok | errAuth | errState
  deriving DecidableEq, Repr

structure NoiseIKState where
  sPriv : List UInt8
  sPub : List UInt8
  rsPub : List UInt8
  ePriv : List UInt8
  ePub : List UInt8
  rePub : List UInt8
  h : List UInt8
  ck : List UInt8
  sendKey : List UInt8
  recvKey : List UInt8
  sendNonce : UInt64
  recvNonce : UInt64
  isServer : Bool
  handshakeDone : Bool

def zeroKey : List UInt8 := List.replicate noiseKeySize 0
def zeroHash : List UInt8 := List.replicate noiseHashSize 0

/-- A state after `memset` or `noise_ik_wipe`. -/
def noiseIkWiped : NoiseIKState :=
  ⟨zeroKey, zeroKey, zeroKey, zeroKey, zeroKey, zeroKey, zeroHash, zeroHash, zeroKey, zeroKey, 0, 0,
    false, false⟩

/-! ### The symmetric state -/

def mixHash (mc : Monocypher) (h data : List UInt8) : List UInt8 := mc.blake2b (h ++ data)

/-- The new chaining key and the key. -/
def mixKey (mc : Monocypher) (ck dhOutput : List UInt8) : List UInt8 × List UInt8 :=
  let temp := hmacBlake2b mc ck dhOutput
  let ck' := hmacBlake2b mc temp [0x01]
  (ck', (hmacBlake2b mc temp (ck' ++ [0x02])).take noiseKeySize)

/-- The nonce of the ChaChaPoly ciphers: four zero bytes and a little-endian counter. -/
def nonce12 (n : UInt64) : List UInt8 :=
  List.replicate 4 (0 : UInt8) ++ (List.range 8).map fun i => (n >>> (8 * i).toUInt64).toUInt8

/-- The new handshake hash and the ciphertext with its MAC. -/
def encryptAndHash (mc : Monocypher) (h k plaintext : List UInt8) : List UInt8 × List UInt8 :=
  let (cipher, mac) := mc.aeadWrite k (nonce12 0) h plaintext
  (mixHash mc h (cipher ++ mac), cipher ++ mac)

/-- The new handshake hash, and the plaintext when the MAC is right. -/
def decryptAndHash (mc : Monocypher) (h k ciphertext : List UInt8) :
    List UInt8 × Option (List UInt8) :=
  if ciphertext.length < noiseMacSize then (h, none)
  else
    let ptLen := ciphertext.length - noiseMacSize
    (mixHash mc h ciphertext,
      mc.aeadRead k (nonce12 0) h (ciphertext.drop ptLen) (ciphertext.take ptLen))

/-- The two outputs of `split`. -/
def split (mc : Monocypher) (ck : List UInt8) : List UInt8 × List UInt8 :=
  let temp := hmacBlake2b mc ck []
  let k1 := hmacBlake2b mc temp [0x01]
  let k2 := hmacBlake2b mc temp (k1 ++ [0x02])
  (k1.take noiseKeySize, k2.take noiseKeySize)

/-- The bytes of `"Noise_IK_25519_ChaChaPoly_BLAKE2b"`. -/
def protocolName : List UInt8 :=
  [0x4E, 0x6F, 0x69, 0x73, 0x65, 0x5F, 0x49, 0x4B, 0x5F, 0x32, 0x35, 0x35, 0x31, 0x39, 0x5F,
    0x43, 0x68, 0x61, 0x43, 0x68, 0x61, 0x50, 0x6F, 0x6C, 0x79, 0x5F,
    0x42, 0x4C, 0x41, 0x4B, 0x45, 0x32, 0x62]

/-- The hash that `init_symmetric` starts from; the chaining key is the same. -/
def initSymmetric (mc : Monocypher) : List UInt8 :=
  if protocolName.length ≤ noiseHashSize then
    protocolName ++ List.replicate (noiseHashSize - protocolName.length) 0
  else mc.blake2b protocolName

/-! ### The responder -/

/-- `priv_out[0] &= 248; priv_out[31] &= 127; priv_out[31] |= 64`. -/
def clampKey (priv : List UInt8) : List UInt8 :=
  ((priv.modify 0 (· &&& 248)).modify 31 (· &&& 127)).modify 31 (· ||| 64)

/-- `noise_ik_generate_keypair`. `urandom` is what `fread` gets, `none` when the file does not open;
    bytes that were not read stay as they were in `privOut`. -/
def noiseIkGenerateKeypair (mc : Monocypher) (urandom : Option (List UInt8)) (privOut : List UInt8) :
    List UInt8 × List UInt8 :=
  let bytes := (urandom.getD []).take noiseKeySize
  let priv := clampKey (bytes ++ privOut.drop bytes.length)
  (priv, mc.x25519PublicKey priv)

def noiseIkInitServer (mc : Monocypher) (sPriv sPub : List UInt8) : NoiseIKState :=
  let h := initSymmetric mc
  { noiseIkWiped with
    sPriv := sPriv
    sPub := sPub
    isServer := true
    ck := h
    h := mixHash mc (mixHash mc h []) sPub }

/-- What `noise_ik_read_msg1` leaves behind; `agentPub` is `none` when it was not written. -/
structure ReadMsg1 where
  st : NoiseIKState
  agentPub : Option (List UInt8)
  rc : NoiseRc

def noiseIkReadMsg1 (mc : Monocypher) (st : NoiseIKState) (msg1 : List UInt8) : ReadMsg1 :=
  if st.isServer = false then ⟨st, none, .errState⟩
  else
    let re := msg1.take noiseKeySize
    let encS := (msg1.drop 32).take (32 + noiseMacSize)
    let encP := (msg1.drop (32 + 48)).take noiseMacSize
    let h := mixHash mc st.h re
    let (ck, k) := mixKey mc st.ck (mc.x25519 st.sPriv re)
    match decryptAndHash mc h k encS with
    | (h, none) => ⟨{ st with rePub := re, h := h, ck := ck }, none, .errAuth⟩
    | (h, some agentS) =>
      let (ck, k) := mixKey mc ck (mc.x25519 st.sPriv agentS)
      let (h, payload) := decryptAndHash mc h k encP
      ⟨{ st with rePub := re, rsPub := agentS, h := h, ck := ck }, some agentS,
        if payload.isSome then .ok else .errAuth⟩

/-- The state and the message; `none` for a state that is not a server's. -/
def noiseIkWriteMsg2 (mc : Monocypher) (urandom : Option (List UInt8)) (st : NoiseIKState) :
    Option (NoiseIKState × List UInt8) :=
  if st.isServer = false then none
  else
    let (ePriv, ePub) := noiseIkGenerateKeypair mc urandom st.ePriv
    let h := mixHash mc st.h ePub
    let (ck, _) := mixKey mc st.ck (mc.x25519 ePriv st.rePub)
    let (ck, k) := mixKey mc ck (mc.x25519 ePriv st.rsPub)
    let (h, enc) := encryptAndHash mc h k []
    let (recvKey, sendKey) := split mc ck
    some ({ st with
      ePriv := ePriv
      ePub := ePub
      h := h
      ck := ck
      recvKey := recvKey
      sendKey := sendKey
      sendNonce := 0
      recvNonce := 0
      handshakeDone := true }, ePub ++ enc)

/-! ### The initiator -/

def noiseIkInitClient (mc : Monocypher) (sPriv sPub rsPub : List UInt8) : NoiseIKState :=
  let h := initSymmetric mc
  { noiseIkWiped with
    sPriv := sPriv
    sPub := sPub
    rsPub := rsPub
    isServer := false
    ck := h
    h := mixHash mc (mixHash mc h []) rsPub }

/-- The state and the message; `none` for a state that is a server's. -/
def noiseIkWriteMsg1 (mc : Monocypher) (urandom : Option (List UInt8)) (st : NoiseIKState) :
    Option (NoiseIKState × List UInt8) :=
  if st.isServer = true then none
  else
    let (ePriv, ePub) := noiseIkGenerateKeypair mc urandom st.ePriv
    let h := mixHash mc st.h ePub
    let (ck, k) := mixKey mc st.ck (mc.x25519 ePriv st.rsPub)
    let (h, encS) := encryptAndHash mc h k st.sPub
    let (ck, k) := mixKey mc ck (mc.x25519 st.sPriv st.rsPub)
    let (h, encP) := encryptAndHash mc h k []
    some ({ st with ePriv := ePriv, ePub := ePub, h := h, ck := ck }, ePub ++ encS ++ encP)

/-- What `noise_ik_read_msg2` leaves behind. -/
structure ReadMsg2 where
  st : NoiseIKState
  rc : NoiseRc

def noiseIkReadMsg2 (mc : Monocypher) (st : NoiseIKState) (msg2 : List UInt8) : ReadMsg2 :=
  if st.isServer = true then ⟨st, .errState⟩
  else
    let re := msg2.take noiseKeySize
    let encP := (msg2.drop noiseKeySize).take noiseMacSize
    let h := mixHash mc st.h re
    let (ck, _) := mixKey mc st.ck (mc.x25519 st.ePriv re)
    let (ck, k) := mixKey mc ck (mc.x25519 st.sPriv re)
    match decryptAndHash mc h k encP with
    | (h, none) => ⟨{ st with rePub := re, h := h, ck := ck }, .errAuth⟩
    | (h, some _) =>
      let (sendKey, recvKey) := split mc ck
      ⟨{ st with
        rePub := re
        h := h
        ck := ck
        sendKey := sendKey
        recvKey := recvKey
        sendNonce := 0
        recvNonce := 0
        handshakeDone := true }, .ok⟩

/-! ### Transport -/

/-- The state and the ciphertext with its MAC. -/
def noiseIkEncrypt (mc : Monocypher) (st : NoiseIKState) (plaintext : List UInt8) :
    Option (NoiseIKState × List UInt8) :=
  if st.handshakeDone = false then none
  else
    let (cipher, mac) := mc.aeadWrite st.sendKey (nonce12 st.sendNonce) [] plaintext
    some ({ st with sendNonce := st.sendNonce + 1 }, cipher ++ mac)

/-- The state and the plaintext; a failed call leaves the state alone. -/
def noiseIkDecrypt (mc : Monocypher) (st : NoiseIKState) (ciphertext : List UInt8) :
    Option (NoiseIKState × List UInt8) :=
  if st.handshakeDone = false then none
  else if ciphertext.length < noiseMacSize then none
  else
    let ptLen := ciphertext.length - noiseMacSize
    (mc.aeadRead st.recvKey (nonce12 st.recvNonce) [] (ciphertext.drop ptLen)
      (ciphertext.take ptLen)).map fun plaintext =>
        ({ st with recvNonce := st.recvNonce + 1 }, plaintext)

/-! ### What the calls keep -/

/-- Two states of one session: everything but the nonces is the same. -/
structure SameKeys (st st' : NoiseIKState) : Prop where
  recvKey : st'.recvKey = st.recvKey
  sendKey : st'.sendKey = st.sendKey
  done : st'.handshakeDone = st.handshakeDone

theorem SameKeys.refl (st : NoiseIKState) : SameKeys st st := ⟨rfl, rfl, rfl⟩

theorem SameKeys.trans {a b c : NoiseIKState} (h : SameKeys a b) (h' : SameKeys b c) : SameKeys a c :=
  ⟨h'.recvKey.trans h.recvKey, h'.sendKey.trans h.sendKey, h'.done.trans h.done⟩

/-- A call that encrypts moves the send counter and nothing else. -/
theorem noiseIkEncrypt_state {mc : Monocypher} {st st' : NoiseIKState} {p c : List UInt8}
    (h : noiseIkEncrypt mc st p = some (st', c)) :
    st' = { st with sendNonce := st.sendNonce + 1 } := by
  simp only [noiseIkEncrypt] at h
  split at h
  · cases h
  · exact (Prod.mk.inj (Option.some.inj h)).1.symm

theorem noiseIkEncrypt_some {mc : Monocypher} {st st' : NoiseIKState} {p c : List UInt8}
    (h : noiseIkEncrypt mc st p = some (st', c)) :
    SameKeys st st' ∧ c.length = p.length + noiseMacSize := by
  simp only [noiseIkEncrypt] at h
  split at h
  · cases h
  · obtain ⟨rfl, rfl⟩ := Prod.mk.inj (Option.some.inj h)
    refine ⟨⟨rfl, rfl, rfl⟩, ?_⟩
    rw [List.length_append, mc.cipher_length, mc.mac_length]

theorem noiseIkEncrypt_isSome (mc : Monocypher) {st : NoiseIKState} (p : List UInt8)
    (h : st.handshakeDone = true) : (noiseIkEncrypt mc st p).isSome := by
  simp only [noiseIkEncrypt]
  rw [h]
  rfl

/-- A call that decrypts finds its MAC right and moves the receive counter, and nothing else. -/
theorem noiseIkDecrypt_iff {mc : Monocypher} {st st' : NoiseIKState} {c p : List UInt8} :
    noiseIkDecrypt mc st c = some (st', p) ↔
      st.handshakeDone = true ∧ noiseMacSize ≤ c.length ∧
      mc.aeadRead st.recvKey (nonce12 st.recvNonce) [] (c.drop (c.length - noiseMacSize))
        (c.take (c.length - noiseMacSize)) = some p ∧
      st' = { st with recvNonce := st.recvNonce + 1 } := by
  simp only [noiseIkDecrypt]
  by_cases hdone : st.handshakeDone = false
  · simp [hdone]
  by_cases hlen : c.length < noiseMacSize
  · rw [if_neg hdone, if_pos hlen]
    simp [Nat.not_le.mpr hlen]
  rw [if_neg hdone, if_neg hlen]
  simp only [Option.map_eq_some_iff, Prod.mk.injEq, Nat.not_lt.mp hlen, true_and]
  constructor
  · rintro ⟨q, hq, rfl, rfl⟩
    exact ⟨by simpa using hdone, hq, rfl⟩
  · rintro ⟨-, hp, rfl⟩
    exact ⟨p, hp, rfl, rfl⟩

theorem noiseIkDecrypt_some {mc : Monocypher} {st st' : NoiseIKState} {c p : List UInt8}
    (h : noiseIkDecrypt mc st c = some (st', p)) :
    SameKeys st st' ∧ p.length = c.length - noiseMacSize := by
  simp only [noiseIkDecrypt] at h
  split at h
  · cases h
  split at h
  · cases h
  · obtain ⟨q, hq, heq⟩ := Option.map_eq_some_iff.mp h
    obtain ⟨rfl, rfl⟩ := Prod.mk.inj heq
    refine ⟨⟨rfl, rfl, rfl⟩, ?_⟩
    rw [mc.plain_length _ _ _ _ _ _ hq, List.length_take]
    omega

/-- A msg1 that is accepted gives the peer's static key. -/
theorem noiseIkReadMsg1_ok {mc : Monocypher} {st : NoiseIKState} {msg1 : List UInt8}
    (h : (noiseIkReadMsg1 mc st msg1).rc = .ok) :
    ∃ pub, (noiseIkReadMsg1 mc st msg1).agentPub = some pub := by
  unfold noiseIkReadMsg1 at h ⊢
  split at h
  · cases h
  · rename_i hs
    rw [if_neg hs]
    dsimp only at h ⊢
    split at h
    · cases h
    · rename_i h' agentS hdec
      exact ⟨agentS, rfl⟩

/-- msg1 does not touch the keys of the transport, accepted or not. -/
theorem noiseIkReadMsg1_keeps (mc : Monocypher) (st : NoiseIKState) (msg1 : List UInt8) :
    SameKeys st (noiseIkReadMsg1 mc st msg1).st ∧
      (noiseIkReadMsg1 mc st msg1).st.isServer = st.isServer ∧
      (noiseIkReadMsg1 mc st msg1).st.ePriv = st.ePriv := by
  unfold noiseIkReadMsg1
  split
  · exact ⟨SameKeys.refl st, rfl, rfl⟩
  · dsimp only
    split <;> exact ⟨⟨rfl, rfl, rfl⟩, rfl, rfl⟩

/-- The static key that msg1 brings is kept in the state. -/
theorem noiseIkReadMsg1_agentPub {mc : Monocypher} {st : NoiseIKState} {msg1 : List UInt8}
    (h : (noiseIkReadMsg1 mc st msg1).rc = .ok) :
    (noiseIkReadMsg1 mc st msg1).agentPub = some (noiseIkReadMsg1 mc st msg1).st.rsPub := by
  unfold noiseIkReadMsg1 at h ⊢
  split at h
  · cases h
  · rename_i hs
    rw [if_neg hs]
    dsimp only at h ⊢
    split at h
    · cases h
    · rfl

/-- A msg2 that is refused does not touch them either. -/
theorem noiseIkReadMsg2_keeps {mc : Monocypher} {st : NoiseIKState} {msg2 : List UInt8}
    (h : (noiseIkReadMsg2 mc st msg2).rc ≠ .ok) : SameKeys st (noiseIkReadMsg2 mc st msg2).st := by
  unfold noiseIkReadMsg2 at h ⊢
  split at h
  · rename_i hs
    rw [if_pos hs]
    exact SameKeys.refl st
  · rename_i hs
    rw [if_neg hs]
    dsimp only at h ⊢
    split at h
    · exact ⟨rfl, rfl, rfl⟩
    · exact absurd rfl h

/-- msg1 is written by a client, whose transport keys it leaves alone. -/
theorem noiseIkWriteMsg1_keeps {mc : Monocypher} {urandom : Option (List UInt8)}
    {st st' : NoiseIKState} {msg1 : List UInt8}
    (h : noiseIkWriteMsg1 mc urandom st = some (st', msg1)) :
    SameKeys st st' ∧ st'.isServer = false ∧ st'.sPub = st.sPub := by
  simp only [noiseIkWriteMsg1] at h
  split at h
  · cases h
  · rename_i hs
    obtain ⟨rfl, -⟩ := Prod.mk.inj (Option.some.inj h)
    exact ⟨⟨rfl, rfl, rfl⟩, by simpa using hs, rfl⟩

/-- The payload of msg1 is all that is left of it. -/
theorem msg1_payload {msg1 : List UInt8} (hlen : msg1.length = noiseMsg1Size) :
    (msg1.drop (32 + 48)).take noiseMacSize = (msg1.drop 32).drop (32 + noiseMacSize) := by
  have hlen' : msg1.length = 96 := hlen
  rw [List.drop_drop, List.take_of_length_le]
  · rfl
  · rw [List.length_drop, hlen']
    decide

theorem msg2_payload {msg2 : List UInt8} (hlen : msg2.length = noiseMsg2Size) :
    (msg2.drop noiseKeySize).take noiseMacSize = msg2.drop noiseKeySize := by
  have hlen' : msg2.length = 48 := hlen
  rw [List.take_of_length_le]
  rw [List.length_drop, hlen']
  decide

theorem encryptAndHash_length (mc : Monocypher) (h k p : List UInt8) :
    (encryptAndHash mc h k p).2.length = p.length + noiseMacSize := by
  simp only [encryptAndHash, List.length_append, mc.cipher_length, mc.mac_length]

theorem noiseIkGenerateKeypair_length (mc : Monocypher) (urandom : Option (List UInt8))
    (privOut : List UInt8) : (noiseIkGenerateKeypair mc urandom privOut).2.length = noiseKeySize :=
  mc.publicKey_length _

theorem noiseIkWriteMsg1_length {mc : Monocypher} {urandom : Option (List UInt8)}
    {st st' : NoiseIKState} {msg1 : List UInt8} (hpub : st.sPub.length = noiseKeySize)
    (h : noiseIkWriteMsg1 mc urandom st = some (st', msg1)) : msg1.length = noiseMsg1Size := by
  simp only [noiseIkWriteMsg1] at h
  split at h
  · cases h
  · obtain ⟨-, rfl⟩ := Prod.mk.inj (Option.some.inj h)
    rw [List.length_append, List.length_append, noiseIkGenerateKeypair_length, encryptAndHash_length,
      encryptAndHash_length, hpub]
    rfl

theorem noiseIkWriteMsg2_length {mc : Monocypher} {urandom : Option (List UInt8)}
    {st st' : NoiseIKState} {msg2 : List UInt8}
    (h : noiseIkWriteMsg2 mc urandom st = some (st', msg2)) : msg2.length = noiseMsg2Size := by
  simp only [noiseIkWriteMsg2] at h
  split at h
  · cases h
  · obtain ⟨-, rfl⟩ := Prod.mk.inj (Option.some.inj h)
    rw [List.length_append, noiseIkGenerateKeypair_length, encryptAndHash_length]
    rfl

/-- The transport keys are set, and nothing has been sent under them. -/
structure TransportOpen (st : NoiseIKState) : Prop where
  done : st.handshakeDone = true
  sendNonce : st.sendNonce = 0
  recvNonce : st.recvNonce = 0

theorem noiseIkWriteMsg2_opens {mc : Monocypher} {urandom : Option (List UInt8)}
    {st st' : NoiseIKState} {msg2 : List UInt8}
    (h : noiseIkWriteMsg2 mc urandom st = some (st', msg2)) : TransportOpen st' := by
  simp only [noiseIkWriteMsg2] at h
  split at h
  · cases h
  · obtain ⟨rfl, -⟩ := Prod.mk.inj (Option.some.inj h)
    exact ⟨rfl, rfl, rfl⟩

theorem noiseIkReadMsg2_opens {mc : Monocypher} {st : NoiseIKState} {msg2 : List UInt8}
    (h : (noiseIkReadMsg2 mc st msg2).rc = .ok) : TransportOpen (noiseIkReadMsg2 mc st msg2).st := by
  unfold noiseIkReadMsg2 at h ⊢
  split at h
  · cases h
  · rename_i hs
    rw [if_neg hs]
    dsimp only at h ⊢
    split at h
    · cases h
    · exact ⟨rfl, rfl, rfl⟩

end Asys
