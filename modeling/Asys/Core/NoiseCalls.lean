import Asys.Core.Aead
import Asys.Core.Blake2b
import Asys.Core.X25519
import Asys.Core.NoiseIk

/-! # noise_ik.c down to its words

    The same functions with the calls that the source makes: a hash is fed piece by piece, a cipher
    has a context, and X25519 works in limbs, where `none` is an overflow of a signed integer. None of
    them overflows, and each gives what the function over `monocypher` gives. -/

namespace Asys

namespace Calls

/-- `crypto_blake2b` with a hash of 64 bytes. -/
def cryptoBlake2b (message : List UInt8) : List UInt8 := Blake2bCtx.cryptoBlake2bKeyed 64 [] message

def hmacBlake2b (key data : List UInt8) : List UInt8 :=
  let kPadded :=
    if blake2bBlock < key.length then cryptoBlake2b key ++ List.replicate (blake2bBlock - 64) 0
    else key ++ List.replicate (blake2bBlock - key.length) 0
  let ctx := (Blake2bCtx.init noiseHashSize).update (kPadded.map (· ^^^ 0x36))
  let ctx := if data.length > 0 then ctx.update data else ctx
  let inner := ctx.final
  (((Blake2bCtx.init noiseHashSize).update (kPadded.map (· ^^^ 0x5C))).update inner).final

def mixHash (h data : List UInt8) : List UInt8 :=
  (((Blake2bCtx.init noiseHashSize).update h).update data).final

def mixKey (ck dhOutput : List UInt8) : List UInt8 × List UInt8 :=
  let temp := hmacBlake2b ck dhOutput
  let ck := hmacBlake2b temp [0x01]
  (ck, (hmacBlake2b temp (ck ++ [0x02])).take noiseKeySize)

/-- A context of the AEAD is made for one message, and wiped. -/
def aeadWrite (k nonce ad plaintext : List UInt8) : List UInt8 × List UInt8 :=
  ((CryptoAeadCtx.initIetf k nonce).write ad plaintext).2

/-- The plain text, where the result of the call is 0. -/
def aeadRead (k nonce ad mac ciphertext : List UInt8) : Option (List UInt8) :=
  let r := ((CryptoAeadCtx.initIetf k nonce).read mac ad ciphertext).2
  if r.1 = 0 then r.2 else none

def encryptAndHash (h k plaintext : List UInt8) : List UInt8 × List UInt8 :=
  let (cipher, mac) := aeadWrite k (List.replicate 12 0) h plaintext
  (mixHash h (cipher ++ mac), cipher ++ mac)

def decryptAndHash (h k ciphertext : List UInt8) : List UInt8 × Option (List UInt8) :=
  if ciphertext.length < noiseMacSize then (h, none)
  else
    let ptLen := ciphertext.length - noiseMacSize
    (mixHash h ciphertext,
      aeadRead k (List.replicate 12 0) h (ciphertext.drop ptLen) (ciphertext.take ptLen))

def split (ck : List UInt8) : List UInt8 × List UInt8 :=
  let temp := hmacBlake2b ck []
  let k1 := hmacBlake2b temp [0x01]
  let k2 := hmacBlake2b temp (k1 ++ [0x02])
  (k1.take noiseKeySize, k2.take noiseKeySize)

def noiseIkGenerateKeypair (urandom : Option (List UInt8)) (privOut : List UInt8) :
    Option (List UInt8 × List UInt8) := do
  let bytes := (urandom.getD []).take noiseKeySize
  let priv := clampKey (bytes ++ privOut.drop bytes.length)
  let pub ← Fe.cryptoX25519PublicKey priv
  return (priv, pub)

/-- The hash of `init_symmetric`: the name of the protocol is short. -/
def initSymmetric : List UInt8 :=
  if protocolName.length ≤ noiseHashSize then
    protocolName ++ List.replicate (noiseHashSize - protocolName.length) 0
  else cryptoBlake2b protocolName

def noiseIkInitServer (sPriv sPub : List UInt8) : NoiseIKState :=
  let h := initSymmetric
  { noiseIkWiped with
    sPriv := sPriv
    sPub := sPub
    isServer := true
    ck := h
    h := mixHash (mixHash h []) sPub }

def noiseIkReadMsg1 (st : NoiseIKState) (msg1 : List UInt8) : Option ReadMsg1 :=
  if st.isServer = false then some ⟨st, none, .errState⟩
  else do
    let re := msg1.take noiseKeySize
    let encS := (msg1.drop 32).take (32 + noiseMacSize)
    let encP := (msg1.drop (32 + 48)).take noiseMacSize
    let h := mixHash st.h re
    let dh ← Fe.cryptoX25519 st.sPriv re
    let (ck, k) := mixKey st.ck dh
    match decryptAndHash h k encS with
    | (h, none) => return ⟨{ st with rePub := re, h := h, ck := ck }, none, .errAuth⟩
    | (h, some agentS) =>
      let dh ← Fe.cryptoX25519 st.sPriv agentS
      let (ck, k) := mixKey ck dh
      let (h, payload) := decryptAndHash h k encP
      return ⟨{ st with rePub := re, rsPub := agentS, h := h, ck := ck }, some agentS,
        if payload.isSome then .ok else .errAuth⟩

/-- The inner `none` is the error of a state that is not a server's. -/
def noiseIkWriteMsg2 (urandom : Option (List UInt8)) (st : NoiseIKState) :
    Option (Option (NoiseIKState × List UInt8)) :=
  if st.isServer = false then some none
  else do
    let (ePriv, ePub) ← noiseIkGenerateKeypair urandom st.ePriv
    let h := mixHash st.h ePub
    let dh ← Fe.cryptoX25519 ePriv st.rePub
    let (ck, _) := mixKey st.ck dh
    let dh ← Fe.cryptoX25519 ePriv st.rsPub
    let (ck, k) := mixKey ck dh
    let (h, enc) := encryptAndHash h k []
    let (recvKey, sendKey) := split ck
    return some ({ st with
      ePriv := ePriv
      ePub := ePub
      h := h
      ck := ck
      recvKey := recvKey
      sendKey := sendKey
      sendNonce := 0
      recvNonce := 0
      handshakeDone := true }, ePub ++ enc)

def noiseIkInitClient (sPriv sPub rsPub : List UInt8) : NoiseIKState :=
  let h := initSymmetric
  { noiseIkWiped with
    sPriv := sPriv
    sPub := sPub
    rsPub := rsPub
    isServer := false
    ck := h
    h := mixHash (mixHash h []) rsPub }

/-- The inner `none` is the error of a state that is a server's. -/
def noiseIkWriteMsg1 (urandom : Option (List UInt8)) (st : NoiseIKState) :
    Option (Option (NoiseIKState × List UInt8)) :=
  if st.isServer = true then some none
  else do
    let (ePriv, ePub) ← noiseIkGenerateKeypair urandom st.ePriv
    let h := mixHash st.h ePub
    let dh ← Fe.cryptoX25519 ePriv st.rsPub
    let (ck, k) := mixKey st.ck dh
    let (h, encS) := encryptAndHash h k st.sPub
    let dh ← Fe.cryptoX25519 st.sPriv st.rsPub
    let (ck, k) := mixKey ck dh
    let (h, encP) := encryptAndHash h k []
    return some ({ st with ePriv := ePriv, ePub := ePub, h := h, ck := ck }, ePub ++ encS ++ encP)

def noiseIkReadMsg2 (st : NoiseIKState) (msg2 : List UInt8) : Option ReadMsg2 :=
  if st.isServer = true then some ⟨st, .errState⟩
  else do
    let re := msg2.take noiseKeySize
    let encP := (msg2.drop noiseKeySize).take noiseMacSize
    let h := mixHash st.h re
    let dh ← Fe.cryptoX25519 st.ePriv re
    let (ck, _) := mixKey st.ck dh
    let dh ← Fe.cryptoX25519 st.sPriv re
    let (ck, k) := mixKey ck dh
    match decryptAndHash h k encP with
    | (h, none) => return ⟨{ st with rePub := re, h := h, ck := ck }, .errAuth⟩
    | (h, some _) =>
      let (sendKey, recvKey) := split ck
      return ⟨{ st with
        rePub := re
        h := h
        ck := ck
        sendKey := sendKey
        recvKey := recvKey
        sendNonce := 0
        recvNonce := 0
        handshakeDone := true }, .ok⟩

def noiseIkEncrypt (st : NoiseIKState) (plaintext : List UInt8) : Option (NoiseIKState × List UInt8) :=
  if st.handshakeDone = false then none
  else
    let (cipher, mac) := aeadWrite st.sendKey (nonce12 st.sendNonce) [] plaintext
    some ({ st with sendNonce := st.sendNonce + 1 }, cipher ++ mac)

def noiseIkDecrypt (st : NoiseIKState) (ciphertext : List UInt8) : Option (NoiseIKState × List UInt8) :=
  if st.handshakeDone = false then none
  else if ciphertext.length < noiseMacSize then none
  else
    let ptLen := ciphertext.length - noiseMacSize
    (aeadRead st.recvKey (nonce12 st.recvNonce) [] (ciphertext.drop ptLen)
      (ciphertext.take ptLen)).map fun plaintext =>
        ({ st with recvNonce := st.recvNonce + 1 }, plaintext)

/-! ### The helpers -/

theorem mixHash_eq {h data : List UInt8} (hlen : h.length + data.length < 2 ^ 64) :
    mixHash h data = Asys.mixHash monocypher h data := by
  have hrun := Blake2bCtx.init_updates [h, data] (by simpa using hlen)
  simp only [List.foldl_cons, List.foldl_nil, List.flatten_cons, List.flatten_nil, List.append_nil] at hrun
  exact hrun

theorem cryptoBlake2b_eq {message : List UInt8} (hlen : message.length < 2 ^ 64) :
    cryptoBlake2b message = Asys.cryptoBlake2b message := by
  have hrun := Blake2bCtx.init_updates [message] (by simpa using hlen)
  simp only [List.foldl_cons, List.foldl_nil, List.flatten_cons, List.flatten_nil, List.append_nil] at hrun
  exact hrun

theorem hmacKeyPadded_length {key : List UInt8} :
    (hmacKeyPadded monocypher key).length = blake2bBlock := by
  rw [hmacKeyPadded]
  split
  · rw [List.length_append, monocypher.blake2b_length, List.length_replicate]
    rfl
  · rw [List.length_append, List.length_replicate]
    omega

theorem hmacBlake2b_eq {key data : List UInt8} (hkey : key.length < 2 ^ 64)
    (hdata : data.length < 2 ^ 63) :
    hmacBlake2b key data = Asys.hmacBlake2b monocypher key data := by
  have hpadded : (if blake2bBlock < key.length then
      cryptoBlake2b key ++ List.replicate (blake2bBlock - 64) 0
      else key ++ List.replicate (blake2bBlock - key.length) 0) = hmacKeyPadded monocypher key := by
    rw [hmacKeyPadded, cryptoBlake2b_eq hkey]
    split
    · rw [monocypher.blake2b_length]
      rfl
    · rfl
  have hlen : ∀ b, ((hmacKeyPadded monocypher key).map (· ^^^ b)).length = 128 := fun b => by
    rw [List.length_map, hmacKeyPadded_length]
    rfl
  have hskip : ∀ ctx : Blake2bCtx, (if data.length > 0 then ctx.update data else ctx) = ctx.update data :=
    fun ctx => by
      split
      · rfl
      · rw [Blake2bCtx.update, if_pos (by omega)]
  have hinner := @mixHash_eq ((hmacKeyPadded monocypher key).map (· ^^^ 0x36)) data
    (by rw [hlen]; omega)
  have houter := @mixHash_eq ((hmacKeyPadded monocypher key).map (· ^^^ 0x5C))
    (Asys.mixHash monocypher ((hmacKeyPadded monocypher key).map (· ^^^ 0x36)) data)
    (by rw [hlen, Asys.mixHash, monocypher.blake2b_length]; decide)
  simp only [hmacBlake2b, hpadded, hskip]
  rw [mixHash] at hinner
  rw [hinner]
  exact houter

theorem hmacBlake2b_length (key data : List UInt8) :
    (Asys.hmacBlake2b monocypher key data).length = noiseHashSize := monocypher.blake2b_length _

theorem mixKey_eq {ck dh : List UInt8} (hck : ck.length < 2 ^ 64) (hdh : dh.length < 2 ^ 63) :
    mixKey ck dh = Asys.mixKey monocypher ck dh := by
  simp only [mixKey, Asys.mixKey]
  rw [hmacBlake2b_eq hck hdh]
  have htemp := hmacBlake2b_length ck dh
  rw [hmacBlake2b_eq (by rw [htemp]; decide) (by decide), hmacBlake2b_eq (by rw [htemp]; decide)
    (by rw [List.length_append, hmacBlake2b_length]; decide)]

theorem split_eq {ck : List UInt8} (hck : ck.length < 2 ^ 64) : split ck = Asys.split monocypher ck := by
  simp only [split, Asys.split]
  rw [hmacBlake2b_eq hck (by decide)]
  have htemp := hmacBlake2b_length ck []
  rw [hmacBlake2b_eq (by rw [htemp]; decide) (by decide), hmacBlake2b_eq (by rw [htemp]; decide)
    (by rw [List.length_append, hmacBlake2b_length]; decide)]

theorem mixKey_exists (ck dh : List UInt8) : ∃ ck' k, Asys.mixKey monocypher ck dh = (ck', k) ∧
    ck'.length = noiseHashSize ∧ k.length = noiseKeySize := by
  refine ⟨_, _, rfl, hmacBlake2b_length _ _, ?_⟩
  rw [List.length_take, hmacBlake2b_length]
  rfl

theorem aeadWrite_eq {k : List UInt8} (hk : k.length = noiseKeySize) (nonce ad p : List UInt8) :
    aeadWrite k nonce ad p = monocypher.aeadWrite k nonce ad p := by
  rw [aeadWrite, CryptoAeadCtx.write_eq nonce ad hk]
  rfl

theorem aeadRead_eq {k mac : List UInt8} (hk : k.length = noiseKeySize)
    (hmac : mac.length = noiseMacSize) (nonce ad c : List UInt8) :
    aeadRead k nonce ad mac c = monocypher.aeadRead k nonce ad mac c := by
  have hread : monocypher.aeadRead = cryptoAeadRead := rfl
  rw [aeadRead, CryptoAeadCtx.read_eq nonce ad hk hmac, hread]
  generalize cryptoAeadRead k nonce ad mac c = opened
  cases opened with
  | none => rfl
  | some p => rfl

theorem nonce12_zero : nonce12 0 = List.replicate 12 0 := by decide

theorem encryptAndHash_eq {h k p : List UInt8} (hh : h.length = noiseHashSize)
    (hk : k.length = noiseKeySize) (hp : p.length < 2 ^ 63) : encryptAndHash h k p = Asys.encryptAndHash monocypher h k p := by
  have hcipher := monocypher.cipher_length k (List.replicate 12 0) h p
  have hmac := monocypher.mac_length k (List.replicate 12 0) h p
  rw [encryptAndHash, aeadWrite_eq hk, Asys.encryptAndHash, nonce12_zero]
  generalize monocypher.aeadWrite k (List.replicate 12 0) h p = sealed at hcipher hmac
  dsimp only
  rw [mixHash_eq]
  rw [List.length_append, hh, hcipher, hmac, noiseHashSize, noiseMacSize]
  omega

/-- What is cut off the end of a ciphertext has the size of a MAC. -/
theorem mac_length {c : List UInt8} (hc : ¬ c.length < noiseMacSize) :
    (c.drop (c.length - noiseMacSize)).length = noiseMacSize := by
  rw [List.length_drop]
  omega

theorem decryptAndHash_eq {h k c : List UInt8} (hh : h.length = noiseHashSize)
    (hk : k.length = noiseKeySize) (hc : c.length < 2 ^ 63) : decryptAndHash h k c = Asys.decryptAndHash monocypher h k c := by
  rw [decryptAndHash, Asys.decryptAndHash]
  split
  · rfl
  · rename_i hlong
    dsimp only
    rw [aeadRead_eq hk (mac_length hlong), mixHash_eq (by rw [hh, noiseHashSize]; omega), nonce12_zero]

theorem generateKeypair_eq (urandom : Option (List UInt8)) (privOut : List UInt8) :
    noiseIkGenerateKeypair urandom privOut =
      some (Asys.noiseIkGenerateKeypair monocypher urandom privOut) := by
  simp only [noiseIkGenerateKeypair, Fe.cryptoX25519PublicKey_eq]
  rfl

theorem initSymmetric_eq : initSymmetric = Asys.initSymmetric monocypher := by
  rw [initSymmetric, cryptoBlake2b_eq (by decide)]
  rfl

/-! ### The handshake -/

/-- What the calls of a handshake need of a state: its two hashes have their size. -/
structure Ready (st : NoiseIKState) : Prop where
  h : st.h.length = noiseHashSize
  ck : st.ck.length = noiseHashSize

theorem mixHash_length (h data : List UInt8) : (Asys.mixHash monocypher h data).length = noiseHashSize :=
  monocypher.blake2b_length _

/-- MixHash of what a handshake carries. -/
theorem mixHash_of {h data : List UInt8} (hh : h.length = noiseHashSize) (hdata : data.length ≤ 96) :
    mixHash h data = Asys.mixHash monocypher h data :=
  mixHash_eq (by rw [hh, noiseHashSize]; omega)

/-- MixKey of what X25519 gives. -/
theorem mixKey_dh {ck : List UInt8} (hck : ck.length = noiseHashSize) (key pub : List UInt8) :
    mixKey ck (cryptoX25519 key pub) = Asys.mixKey monocypher ck (monocypher.x25519 key pub) := by
  have hdh : (cryptoX25519 key pub).length = noiseKeySize := monocypher.x25519_length key pub
  exact mixKey_eq (by rw [hck]; decide) (by rw [hdh]; decide)

theorem length_take_le (l : List UInt8) (n : ℕ) : (l.take n).length ≤ n := by
  rw [List.length_take]
  exact min_le_left _ _

theorem readMsg1_eq {st : NoiseIKState} (hst : Ready st) (msg1 : List UInt8) :
    noiseIkReadMsg1 st msg1 = some (Asys.noiseIkReadMsg1 monocypher st msg1) := by
  have hre : (msg1.take noiseKeySize).length ≤ 96 := (length_take_le _ _).trans (by decide)
  rw [noiseIkReadMsg1, Asys.noiseIkReadMsg1]
  split
  · rfl
  · simp only [Fe.cryptoX25519_eq, Option.bind_eq_bind, Option.bind_some, mixKey_dh hst.ck,
      mixHash_of hst.h hre]
    obtain ⟨ck₁, k₁, hmix₁, hck⟩ := mixKey_exists st.ck
      (monocypher.x25519 st.sPriv (msg1.take noiseKeySize))
    simp only [hmix₁]
    rw [decryptAndHash_eq (mixHash_length _ _) hck.2
      (Nat.lt_of_le_of_lt (length_take_le _ _) (by decide))]
    have hh : (Asys.decryptAndHash monocypher (Asys.mixHash monocypher st.h (msg1.take noiseKeySize)) k₁
        ((msg1.drop 32).take (32 + noiseMacSize))).1.length = noiseHashSize := by
      rw [Asys.decryptAndHash]
      split <;> exact mixHash_length _ _
    generalize Asys.decryptAndHash monocypher (Asys.mixHash monocypher st.h (msg1.take noiseKeySize)) k₁
        ((msg1.drop 32).take (32 + noiseMacSize)) = opened at hh
    obtain ⟨h₁, agent⟩ := opened
    cases agent with
    | none => rfl
    | some agentS =>
      dsimp only
      rw [mixKey_dh hck.1]
      obtain ⟨ck₂, k₂, hmix₂, hck₂⟩ := mixKey_exists ck₁ (monocypher.x25519 st.sPriv agentS)
      simp only [hmix₂]
      rw [decryptAndHash_eq hh hck₂.2 (Nat.lt_of_le_of_lt (length_take_le _ _) (by decide))]
      rfl

theorem generateKeypair_length (urandom : Option (List UInt8)) (privOut : List UInt8) :
    (Asys.noiseIkGenerateKeypair monocypher urandom privOut).2.length ≤ 96 := by
  have hpub : (Asys.noiseIkGenerateKeypair monocypher urandom privOut).2.length = noiseKeySize :=
    monocypher.publicKey_length _
  rw [hpub]
  decide

theorem encryptAndHash_length (h k p : List UInt8) :
    (Asys.encryptAndHash monocypher h k p).1.length = noiseHashSize := mixHash_length _ _

theorem writeMsg2_eq (urandom : Option (List UInt8)) {st : NoiseIKState} (hst : Ready st) :
    noiseIkWriteMsg2 urandom st = some (Asys.noiseIkWriteMsg2 monocypher urandom st) := by
  have hpub := generateKeypair_length urandom st.ePriv
  rw [noiseIkWriteMsg2, Asys.noiseIkWriteMsg2]
  split
  · rfl
  · rw [generateKeypair_eq]
    generalize Asys.noiseIkGenerateKeypair monocypher urandom st.ePriv = pair at hpub
    obtain ⟨ePriv, ePub⟩ := pair
    dsimp only at hpub
    simp only [Fe.cryptoX25519_eq, Option.bind_eq_bind, Option.bind_some, mixKey_dh hst.ck,
      mixHash_of hst.h hpub]
    obtain ⟨ck₁, k₁, hmix₁, hck⟩ := mixKey_exists st.ck (monocypher.x25519 ePriv st.rePub)
    simp only [hmix₁]
    rw [mixKey_dh hck.1]
    obtain ⟨ck₂, k₂, hmix₂, hck₂⟩ := mixKey_exists ck₁ (monocypher.x25519 ePriv st.rsPub)
    simp only [hmix₂]
    rw [encryptAndHash_eq (mixHash_length _ _) hck₂.2 (p := []) (by decide),
      split_eq (by rw [hck₂.1]; decide)]
    rfl

theorem writeMsg1_eq (urandom : Option (List UInt8)) {st : NoiseIKState} (hst : Ready st)
    (hpub : st.sPub.length = noiseKeySize) :
    noiseIkWriteMsg1 urandom st = some (Asys.noiseIkWriteMsg1 monocypher urandom st) := by
  have hfresh := generateKeypair_length urandom st.ePriv
  rw [noiseIkWriteMsg1, Asys.noiseIkWriteMsg1]
  split
  · rfl
  · rw [generateKeypair_eq]
    generalize Asys.noiseIkGenerateKeypair monocypher urandom st.ePriv = pair at hfresh
    obtain ⟨ePriv, ePub⟩ := pair
    dsimp only at hfresh
    simp only [Fe.cryptoX25519_eq, Option.bind_eq_bind, Option.bind_some, mixKey_dh hst.ck,
      mixHash_of hst.h hfresh]
    obtain ⟨ck₁, k₁, hmix₁, hck⟩ := mixKey_exists st.ck (monocypher.x25519 ePriv st.rsPub)
    simp only [hmix₁]
    rw [encryptAndHash_eq (mixHash_length _ _) hck.2 (by rw [hpub]; decide)]
    have hh := encryptAndHash_length (Asys.mixHash monocypher st.h ePub) k₁ st.sPub
    generalize Asys.encryptAndHash monocypher (Asys.mixHash monocypher st.h ePub) k₁ st.sPub = sealed at hh
    obtain ⟨h₁, encS⟩ := sealed
    dsimp only at hh ⊢
    rw [mixKey_dh hck.1]
    obtain ⟨ck₂, k₂, hmix₂, hck₂⟩ := mixKey_exists ck₁ (monocypher.x25519 st.sPriv st.rsPub)
    simp only [hmix₂]
    rw [encryptAndHash_eq hh hck₂.2 (p := []) (by decide)]
    rfl

theorem readMsg2_eq {st : NoiseIKState} (hst : Ready st) (msg2 : List UInt8) :
    noiseIkReadMsg2 st msg2 = some (Asys.noiseIkReadMsg2 monocypher st msg2) := by
  have hre : (msg2.take noiseKeySize).length ≤ 96 := (length_take_le _ _).trans (by decide)
  rw [noiseIkReadMsg2, Asys.noiseIkReadMsg2]
  split
  · rfl
  · simp only [Fe.cryptoX25519_eq, Option.bind_eq_bind, Option.bind_some, mixKey_dh hst.ck,
      mixHash_of hst.h hre]
    obtain ⟨ck₁, k₁, hmix₁, hck⟩ := mixKey_exists st.ck
      (monocypher.x25519 st.ePriv (msg2.take noiseKeySize))
    simp only [hmix₁]
    rw [mixKey_dh hck.1]
    obtain ⟨ck₂, k₂, hmix₂, hck₂⟩ := mixKey_exists ck₁
      (monocypher.x25519 st.sPriv (msg2.take noiseKeySize))
    simp only [hmix₂]
    rw [decryptAndHash_eq (mixHash_length _ _) hck₂.2
      (Nat.lt_of_le_of_lt (length_take_le _ _) (by decide)), split_eq (by rw [hck₂.1]; decide)]
    generalize Asys.decryptAndHash monocypher (Asys.mixHash monocypher st.h (msg2.take noiseKeySize)) k₂
        ((msg2.drop noiseKeySize).take noiseMacSize) = opened
    obtain ⟨h₁, payload⟩ := opened
    cases payload with
    | none => rfl
    | some p => rfl

theorem initServer_eq {sPriv sPub : List UInt8} (hpub : sPub.length = noiseKeySize) :
    noiseIkInitServer sPriv sPub = Asys.noiseIkInitServer monocypher sPriv sPub := by
  have hinit : (Asys.initSymmetric monocypher).length = noiseHashSize := rfl
  rw [noiseIkInitServer, initSymmetric_eq, mixHash_of hinit (Nat.zero_le _),
    mixHash_of (mixHash_length _ _) (by rw [hpub]; decide)]
  rfl

theorem initClient_eq {sPriv sPub rsPub : List UInt8} (hpub : rsPub.length = noiseKeySize) :
    noiseIkInitClient sPriv sPub rsPub = Asys.noiseIkInitClient monocypher sPriv sPub rsPub := by
  have hinit : (Asys.initSymmetric monocypher).length = noiseHashSize := rfl
  rw [noiseIkInitClient, initSymmetric_eq, mixHash_of hinit (Nat.zero_le _),
    mixHash_of (mixHash_length _ _) (by rw [hpub]; decide)]
  rfl

/-! ### The transport -/

theorem noiseIkEncrypt_eq {st : NoiseIKState} (hkey : st.sendKey.length = noiseKeySize) (p : List UInt8) :
    noiseIkEncrypt st p = Asys.noiseIkEncrypt monocypher st p := by
  rw [noiseIkEncrypt, aeadWrite_eq hkey, Asys.noiseIkEncrypt]

theorem noiseIkDecrypt_eq {st : NoiseIKState} (hkey : st.recvKey.length = noiseKeySize) (c : List UInt8) :
    noiseIkDecrypt st c = Asys.noiseIkDecrypt monocypher st c := by
  rw [noiseIkDecrypt, Asys.noiseIkDecrypt]
  split
  · rfl
  split
  · rfl
  · rename_i hlong
    dsimp only
    rw [aeadRead_eq hkey (mac_length hlong)]

end Calls

end Asys
