import Asys.Core.NoiseSpec

/-! # Altered handshake messages are refused

    What the calls of a handshake hash, and what they seal and open, as logs beside the calls. The
    handshake hash before a ciphertext is its associated data, so a call that opens only what was
    sealed pins down all that was hashed before. -/

namespace Asys
open Noise (KeyPair)

/-- A key, a nonce, associated data and a ciphertext with its MAC: sealed by one call, to be opened
    by another. -/
structure AeadCall where
  key : List UInt8
  nonce : List UInt8
  ad : List UInt8
  ciphertext : List UInt8
  deriving DecidableEq

/-- What `crypto_aead_read` makes of it. -/
def AeadCall.opened (mc : Monocypher) (c : AeadCall) : Option (List UInt8) :=
  let ptLen := c.ciphertext.length - noiseMacSize
  mc.aeadRead c.key c.nonce c.ad (c.ciphertext.drop ptLen) (c.ciphertext.take ptLen)

/-- The inputs of `mix_hash` and the calls of the AEAD in one call of the handshake. -/
structure CallLog where
  hashed : List (List UInt8)
  aead : List AeadCall

section Logs
variable (mc : Monocypher) (urandom : Option (List UInt8)) (st : NoiseIKState) (msg : List UInt8)

def noiseIkWriteMsg1Log : CallLog :=
  let (ePriv, ePub) := noiseIkGenerateKeypair mc urandom st.ePriv
  let h₁ := mixHash mc st.h ePub
  let (ck, k₂) := mixKey mc st.ck (mc.x25519 ePriv st.rsPub)
  let (h₃, encS) := encryptAndHash mc h₁ k₂ st.sPub
  let (_, k₄) := mixKey mc ck (mc.x25519 st.sPriv st.rsPub)
  let (_, encP) := encryptAndHash mc h₃ k₄ []
  ⟨[st.h ++ ePub, h₁ ++ encS, h₃ ++ encP], [⟨k₂, nonce12 0, h₁, encS⟩, ⟨k₄, nonce12 0, h₃, encP⟩]⟩

/-- The second ciphertext is looked at only when the first one opens. -/
def noiseIkReadMsg1Log : CallLog :=
  let re := msg.take noiseKeySize
  let encS := (msg.drop 32).take (32 + noiseMacSize)
  let encP := (msg.drop (32 + 48)).take noiseMacSize
  let h₁ := mixHash mc st.h re
  let (ck, k₂) := mixKey mc st.ck (mc.x25519 st.sPriv re)
  match decryptAndHash mc h₁ k₂ encS with
  | (_, none) => ⟨[st.h ++ re, h₁ ++ encS], [⟨k₂, nonce12 0, h₁, encS⟩]⟩
  | (h₃, some agentS) =>
    let (_, k₄) := mixKey mc ck (mc.x25519 st.sPriv agentS)
    ⟨[st.h ++ re, h₁ ++ encS, h₃ ++ encP], [⟨k₂, nonce12 0, h₁, encS⟩, ⟨k₄, nonce12 0, h₃, encP⟩]⟩

def noiseIkWriteMsg2Log : CallLog :=
  let (ePriv, ePub) := noiseIkGenerateKeypair mc urandom st.ePriv
  let h₁ := mixHash mc st.h ePub
  let (ck, _) := mixKey mc st.ck (mc.x25519 ePriv st.rePub)
  let (_, k₃) := mixKey mc ck (mc.x25519 ePriv st.rsPub)
  let (_, enc) := encryptAndHash mc h₁ k₃ []
  ⟨[st.h ++ ePub, h₁ ++ enc], [⟨k₃, nonce12 0, h₁, enc⟩]⟩

def noiseIkReadMsg2Log : CallLog :=
  let re := msg.take noiseKeySize
  let encP := (msg.drop noiseKeySize).take noiseMacSize
  let h₁ := mixHash mc st.h re
  let (ck, _) := mixKey mc st.ck (mc.x25519 st.ePriv re)
  let (_, k₃) := mixKey mc ck (mc.x25519 st.sPriv re)
  ⟨[st.h ++ re, h₁ ++ encP], [⟨k₃, nonce12 0, h₁, encP⟩]⟩

end Logs

/-- BLAKE2b has no collision among these inputs. -/
def NoCollision (mc : Monocypher) (inputs : List (List UInt8)) : Prop :=
  ∀ x ∈ inputs, ∀ y ∈ inputs, mc.blake2b x = mc.blake2b y → x = y

/-- Of what was to be opened, only what was sealed did open. -/
def NoForgery (mc : Monocypher) (sealed toOpen : List AeadCall) : Prop :=
  ∀ c ∈ toOpen, (c.opened mc).isSome → c ∈ sealed

instance (mc : Monocypher) (inputs : List (List UInt8)) : Decidable (NoCollision mc inputs) :=
  inferInstanceAs (Decidable (∀ x ∈ inputs, ∀ y ∈ inputs, mc.blake2b x = mc.blake2b y → x = y))

instance (mc : Monocypher) (sealed toOpen : List AeadCall) : Decidable (NoForgery mc sealed toOpen) :=
  inferInstanceAs (Decidable (∀ c ∈ toOpen, (c.opened mc).isSome → c ∈ sealed))

/-- What both ends of msg1 hash and give to the AEAD, with the parts of the message and the keys. -/
def msg1Log (mc : Monocypher) (h re encS encP k₂ k₄ : List UInt8) : CallLog :=
  let h₁ := mixHash mc h re
  let h₃ := mixHash mc h₁ encS
  ⟨[h ++ re, h₁ ++ encS, h₃ ++ encP], [⟨k₂, nonce12 0, h₁, encS⟩, ⟨k₄, nonce12 0, h₃, encP⟩]⟩

/-- The handshake hash at both ends of msg1. -/
def msg1Hash (mc : Monocypher) (h re encS encP : List UInt8) : List UInt8 :=
  mixHash mc (mixHash mc (mixHash mc h re) encS) encP

variable {mc : Monocypher} {urandom : Option (List UInt8)} {st st' : NoiseIKState}
  {msg : List UInt8}

theorem noiseIkWriteMsg1_log (h : noiseIkWriteMsg1 mc urandom st = some (st', msg)) :
    ∃ re encS encP k₂ k₄, msg = re ++ encS ++ encP ∧ re.length = noiseKeySize ∧
      encS.length = st.sPub.length + noiseMacSize ∧ encP.length = noiseMacSize ∧
      noiseIkWriteMsg1Log mc urandom st = msg1Log mc st.h re encS encP k₂ k₄ ∧
      st'.h = msg1Hash mc st.h re encS encP := by
  simp only [noiseIkWriteMsg1] at h
  split at h
  · cases h
  · obtain ⟨rfl, rfl⟩ := Prod.mk.inj (Option.some.inj h)
    exact ⟨_, _, _, _, _, rfl, noiseIkGenerateKeypair_length _ _ _, encryptAndHash_length _ _ _ _,
      encryptAndHash_length _ _ _ _, rfl, rfl⟩

/-- A ciphertext that opens. -/
theorem decryptAndHash_some {h k c h' p : List UInt8} (hd : decryptAndHash mc h k c = (h', some p)) :
    h' = mixHash mc h c ∧ (AeadCall.opened mc ⟨k, nonce12 0, h, c⟩).isSome := by
  rw [decryptAndHash] at hd
  split at hd
  · cases (Prod.mk.inj hd).2
  · obtain ⟨rfl, hp⟩ := Prod.mk.inj hd
    refine ⟨rfl, ?_⟩
    rw [AeadCall.opened]
    exact Option.isSome_iff_exists.mpr ⟨p, hp⟩

/-- A msg1 that is accepted: both of its ciphertexts opened. -/
theorem noiseIkReadMsg1_log (hst : st.isServer = true) (hok : (noiseIkReadMsg1 mc st msg).rc = .ok) :
    let re := msg.take noiseKeySize
    let encS := (msg.drop 32).take (32 + noiseMacSize)
    let encP := (msg.drop (32 + 48)).take noiseMacSize
    ∃ k₂ k₄, noiseIkReadMsg1Log mc st msg = msg1Log mc st.h re encS encP k₂ k₄ ∧
      (∀ c ∈ (noiseIkReadMsg1Log mc st msg).aead, (c.opened mc).isSome) ∧
      (noiseIkReadMsg1 mc st msg).st.h = msg1Hash mc st.h re encS encP := by
  intro re encS encP
  let k₂ := mixKey mc st.ck (mc.x25519 st.sPriv re)
  cases hd₃ : decryptAndHash mc (mixHash mc st.h re) k₂.2 encS with
  | mk h₃ s =>
  cases s with
  | none =>
    rw [(noiseIkReadMsg1_none hst hd₃).1] at hok
    cases hok
  | some agentS =>
    let k₄ := mixKey mc k₂.1 (mc.x25519 st.sPriv agentS)
    cases hd₅ : decryptAndHash mc h₃ k₄.2 encP with
    | mk h₅ payload =>
    have hC := (noiseIkReadMsg1_some hst hd₃ hd₅).1
    cases payload with
    | none =>
      rw [hC] at hok
      cases hok
    | some payload =>
      obtain ⟨rfl, hopen₃⟩ := decryptAndHash_some hd₃
      obtain ⟨rfl, hopen₅⟩ := decryptAndHash_some hd₅
      have hlog : noiseIkReadMsg1Log mc st msg = msg1Log mc st.h re encS encP k₂.2 k₄.2 := by
        simp only [noiseIkReadMsg1Log]
        rw [show decryptAndHash mc _ _ _ = _ from hd₃]
        rfl
      refine ⟨k₂.2, k₄.2, hlog, ?_, by rw [hC]; rfl⟩
      rw [hlog]
      intro c hc
      rcases List.mem_pair.mp hc with rfl | rfl
      · exact hopen₃
      · exact hopen₅

/-- The three parts of a msg1 make up the message. -/
theorem msg1_parts (hlen : msg.length = noiseMsg1Size) :
    msg = msg.take noiseKeySize ++ (msg.drop 32).take (32 + noiseMacSize) ++
      (msg.drop (32 + 48)).take noiseMacSize := by
  rw [msg1_payload hlen, List.append_assoc, List.take_append_drop]
  exact (List.take_append_drop 32 msg).symm

theorem msg1_parts_of {re encS encP : List UInt8} (hre : re.length = noiseKeySize)
    (hS : encS.length = noiseKeySize + noiseMacSize) (hP : encP.length = noiseMacSize) :
    (re ++ encS ++ encP).take noiseKeySize = re ∧
      ((re ++ encS ++ encP).drop 32).take (32 + noiseMacSize) = encS ∧
      ((re ++ encS ++ encP).drop (32 + 48)).take noiseMacSize = encP := by
  have hlen : (re ++ encS ++ encP).length = noiseMsg1Size := by
    rw [List.length_append, List.length_append, hre, hS, hP]
    rfl
  have hlen' : (re ++ encS ++ encP).length = 96 := hlen
  have h := msg1_parts hlen
  have hfirst : re.length = ((re ++ encS ++ encP).take noiseKeySize).length := by
    rw [List.length_take, hlen', hre]
    rfl
  have hsecond : encS.length = (((re ++ encS ++ encP).drop 32).take (32 + noiseMacSize)).length := by
    rw [List.length_take, List.length_drop, hlen', hS]
    rfl
  obtain ⟨h₁₂, h₃⟩ := List.append_inj h (by rw [List.length_append, List.length_append, hfirst, hsecond])
  obtain ⟨h₁, h₂⟩ := List.append_inj h₁₂ hfirst
  exact ⟨h₁.symm, h₂.symm, h₃.symm⟩

theorem mixHash_length (mc : Monocypher) (h d : List UInt8) :
    (mixHash mc h d).length = noiseHashSize := mc.blake2b_length _

/-- Without collisions, equal handshake hashes come from equal inputs. -/
theorem NoCollision.mixHash_inj {inputs : List (List UInt8)} (hinj : NoCollision mc inputs)
    {h d h' d' : List UInt8} (hx : h ++ d ∈ inputs) (hy : h' ++ d' ∈ inputs)
    (heq : mixHash mc h d = mixHash mc h' d') : h ++ d = h' ++ d' :=
  hinj _ hx _ hy heq

/-- Two msg1 after the same handshake hash, of which the second has only ciphertexts that the first
    has, in the same use, are the same message. -/
theorem msg1Log_inj {inputs : List (List UInt8)} (hinj : NoCollision mc inputs)
    {h re encS encP k₂ k₄ re' encS' encP' k₂' k₄' : List UInt8}
    (hre : h ++ re ∈ inputs) (hre' : h ++ re' ∈ inputs)
    (hS : encS.length = noiseKeySize + noiseMacSize) (hP : encP.length = noiseMacSize)
    (hS' : encS'.length = noiseKeySize + noiseMacSize) (hP' : encP'.length = noiseMacSize)
    (hsub : (msg1Log mc h re' encS' encP' k₂' k₄').aead ⊆ (msg1Log mc h re encS encP k₂ k₄).aead) :
    re' = re ∧ encS' = encS ∧ encP' = encP := by
  have hsizes : noiseKeySize + noiseMacSize ≠ noiseMacSize := by decide
  -- the two ciphertexts of a message differ in length, so each one matches its counterpart
  have hfirst : re' = re ∧ encS' = encS := by
    rcases List.mem_pair.mp (hsub List.mem_cons_self) with heq | heq
    · obtain ⟨-, -, had, hc⟩ := AeadCall.mk.inj heq
      exact ⟨List.append_cancel_left (hinj.mixHash_inj hre' hre had), hc⟩
    · obtain ⟨-, -, -, hc⟩ := AeadCall.mk.inj heq
      exact absurd (hS'.symm.trans ((congrArg List.length hc).trans hP)) hsizes
  have hsecond : encP' = encP := by
    rcases List.mem_pair.mp (hsub (List.mem_cons_of_mem _ List.mem_cons_self)) with heq | heq
    · obtain ⟨-, -, -, hc⟩ := AeadCall.mk.inj heq
      exact absurd (hS.symm.trans ((congrArg List.length hc.symm).trans hP')) hsizes
    · exact (AeadCall.mk.inj heq).2.2.2
  exact ⟨hfirst.1, hfirst.2, hsecond⟩

theorem noiseIkWriteMsg2_log (h : noiseIkWriteMsg2 mc urandom st = some (st', msg)) :
    ∃ re encP k₃, msg = re ++ encP ∧ re.length = noiseKeySize ∧ encP.length = noiseMacSize ∧
      noiseIkWriteMsg2Log mc urandom st =
        ⟨[st.h ++ re, mixHash mc st.h re ++ encP], [⟨k₃, nonce12 0, mixHash mc st.h re, encP⟩]⟩ := by
  simp only [noiseIkWriteMsg2] at h
  split at h
  · cases h
  · obtain ⟨-, rfl⟩ := Prod.mk.inj (Option.some.inj h)
    exact ⟨_, _, _, rfl, noiseIkGenerateKeypair_length _ _ _, encryptAndHash_length _ _ _ _, rfl⟩

/-- A msg2 that is accepted: its ciphertext opened. -/
theorem noiseIkReadMsg2_log (hst : st.isServer = false) (hok : (noiseIkReadMsg2 mc st msg).rc = .ok) :
    ∀ c ∈ (noiseIkReadMsg2Log mc st msg).aead, (c.opened mc).isSome := by
  let re := msg.take noiseKeySize
  let k₃ := mixKey mc (mixKey mc st.ck (mc.x25519 st.ePriv re)).1 (mc.x25519 st.sPriv re)
  cases hd₄ : decryptAndHash mc (mixHash mc st.h re) k₃.2
    ((msg.drop noiseKeySize).take noiseMacSize) with
  | mk h₄ payload =>
  cases payload with
  | none =>
    rw [(noiseIkReadMsg2_eq hst hd₄).1] at hok
    cases hok
  | some payload =>
    intro c hc
    obtain rfl := List.mem_singleton.mp hc
    exact (decryptAndHash_some hd₄).2

theorem noiseIkReadMsg1_rc (hst : st.isServer = true) :
    (noiseIkReadMsg1 mc st msg).rc = .ok ∨ (noiseIkReadMsg1 mc st msg).rc = .errAuth := by
  rw [noiseIkReadMsg1, if_neg (by simp [hst])]
  dsimp only
  split
  · exact Or.inr rfl
  · dsimp only
    split
    · exact Or.inl rfl
    · exact Or.inr rfl

theorem noiseIkReadMsg2_rc (hst : st.isServer = false) :
    (noiseIkReadMsg2 mc st msg).rc = .ok ∨ (noiseIkReadMsg2 mc st msg).rc = .errAuth := by
  rw [noiseIkReadMsg2, if_neg (by simp [hst])]
  dsimp only
  split
  · exact Or.inr rfl
  · exact Or.inl rfl

theorem altered_msg1_refused {client client₁ server : NoiseIKState} {msg1 m : List UInt8}
    (hpub : client.sPub.length = noiseKeySize) (hserver : server.isServer = true)
    (hh : server.h = client.h) (hw : noiseIkWriteMsg1 mc urandom client = some (client₁, msg1))
    (hlen : m.length = noiseMsg1Size) (hne : m ≠ msg1)
    (hinj : NoCollision mc ((noiseIkWriteMsg1Log mc urandom client).hashed ++
      (noiseIkReadMsg1Log mc server m).hashed))
    (hauth : NoForgery mc (noiseIkWriteMsg1Log mc urandom client).aead
      (noiseIkReadMsg1Log mc server m).aead) : (noiseIkReadMsg1 mc server m).rc = .errAuth := by
  refine (noiseIkReadMsg1_rc hserver).resolve_left fun hok => hne ?_
  obtain ⟨re, encS, encP, k₂, k₄, rfl, hre, hS, hP, hwlog, -⟩ := noiseIkWriteMsg1_log hw
  obtain ⟨k₂', k₄', hrlog, hopen, -⟩ := noiseIkReadMsg1_log hserver hok
  have hsub : (noiseIkReadMsg1Log mc server m).aead ⊆ (noiseIkWriteMsg1Log mc urandom client).aead :=
    fun c hc => hauth c hc (hopen c hc)
  rw [hwlog, hrlog, hh] at hsub hinj
  rw [hpub] at hS
  have hlen' : m.length = 96 := hlen
  obtain ⟨h₁, h₂, h₃⟩ := msg1Log_inj hinj (by simp [msg1Log]) (by simp [msg1Log]) hS hP
    (by rw [List.length_take, List.length_drop, hlen']; rfl)
    (by rw [List.length_take, List.length_drop, hlen']; rfl) hsub
  rw [msg1_parts hlen, h₁, h₂, h₃]

/-- Once msg1 has arrived and is accepted, both have hashed the same. -/
theorem msg1_hashes_agree {client client₁ server : NoiseIKState} {msg1 : List UInt8}
    (hpub : client.sPub.length = noiseKeySize) (hserver : server.isServer = true)
    (hh : server.h = client.h) (hw : noiseIkWriteMsg1 mc urandom client = some (client₁, msg1))
    (hok : (noiseIkReadMsg1 mc server msg1).rc = .ok) :
    (noiseIkReadMsg1 mc server msg1).st.h = client₁.h := by
  obtain ⟨re, encS, encP, k₂, k₄, rfl, hre, hS, hP, -, hclient⟩ := noiseIkWriteMsg1_log hw
  obtain ⟨-, -, -, -, hs⟩ := noiseIkReadMsg1_log hserver hok
  rw [hpub] at hS
  obtain ⟨h₁, h₂, h₃⟩ := msg1_parts_of hre hS hP
  rw [hs, hclient, hh, h₁, h₂, h₃]

/-- What is opened in msg2 was sealed in msg2, since the ciphertexts of msg1 are longer or come after
    a longer input; and then the two messages are the same. -/
theorem msg2Log_inj {inputs : List (List UInt8)} (hinj : NoCollision mc inputs)
    {h re encS encP k₂ k₄ re₂ enc₂ k₃ re' enc' k' : List UInt8}
    (hS : encS.length = noiseKeySize + noiseMacSize)
    (hre' : re'.length = noiseKeySize) (henc' : enc'.length = noiseMacSize)
    (h₃ : mixHash mc h re ++ encS ∈ inputs) (h₂ : msg1Hash mc h re encS encP ++ re₂ ∈ inputs)
    (h' : msg1Hash mc h re encS encP ++ re' ∈ inputs)
    (hmem : ⟨k', nonce12 0, mixHash mc (msg1Hash mc h re encS encP) re', enc'⟩ ∈
      (msg1Log mc h re encS encP k₂ k₄).aead ++
        [⟨k₃, nonce12 0, mixHash mc (msg1Hash mc h re encS encP) re₂, enc₂⟩]) :
    re' = re₂ ∧ enc' = enc₂ := by
  rcases List.mem_append.mp hmem with hmem | hmem
  · exfalso
    rcases List.mem_pair.mp hmem with heq | heq
    · obtain ⟨-, -, -, hc⟩ := AeadCall.mk.inj heq
      exact absurd (henc'.symm.trans ((congrArg List.length hc).trans hS)) (by decide)
    · obtain ⟨-, -, had, -⟩ := AeadCall.mk.inj heq
      have hlong := congrArg List.length (hinj.mixHash_inj h' h₃ had)
      rw [List.length_append, List.length_append, hS, hre', msg1Hash, mixHash_length,
        mixHash_length] at hlong
      exact absurd hlong (by decide)
  · obtain ⟨-, -, had, hc⟩ := AeadCall.mk.inj (List.mem_singleton.mp hmem)
    exact ⟨List.append_cancel_left (hinj.mixHash_inj h' h₂ had), hc⟩

theorem altered_msg2_refused {client client₁ server server₂ : NoiseIKState}
    {msg1 msg2 m : List UInt8} {urandomC urandomS : Option (List UInt8)}
    (hpub : client.sPub.length = noiseKeySize) (hserver : server.isServer = true)
    (hh : server.h = client.h) (hw₁ : noiseIkWriteMsg1 mc urandomC client = some (client₁, msg1))
    (hok₁ : (noiseIkReadMsg1 mc server msg1).rc = .ok)
    (hw₂ : noiseIkWriteMsg2 mc urandomS (noiseIkReadMsg1 mc server msg1).st = some (server₂, msg2))
    (hlen : m.length = noiseMsg2Size) (hne : m ≠ msg2)
    (hinj : NoCollision mc ((noiseIkWriteMsg1Log mc urandomC client).hashed ++
      (noiseIkWriteMsg2Log mc urandomS (noiseIkReadMsg1 mc server msg1).st).hashed ++
      (noiseIkReadMsg2Log mc client₁ m).hashed))
    (hauth : NoForgery mc ((noiseIkWriteMsg1Log mc urandomC client).aead ++
      (noiseIkWriteMsg2Log mc urandomS (noiseIkReadMsg1 mc server msg1).st).aead)
      (noiseIkReadMsg2Log mc client₁ m).aead) : (noiseIkReadMsg2 mc client₁ m).rc = .errAuth := by
  have hclient₁ := (noiseIkWriteMsg1_keeps hw₁).2.1
  refine (noiseIkReadMsg2_rc hclient₁).resolve_left fun hok => hne ?_
  have hstep := msg1_hashes_agree hpub hserver hh hw₁ hok₁
  obtain ⟨re, encS, encP, k₂, k₄, rfl, -, hS, -, hlog₁, hh₁⟩ := noiseIkWriteMsg1_log hw₁
  obtain ⟨re₂, enc₂, k₃, rfl, -, -, hlog₂⟩ := noiseIkWriteMsg2_log hw₂
  rw [hpub] at hS
  have hlen' : m.length = 48 := hlen
  let re' := m.take noiseKeySize
  let enc' := (m.drop noiseKeySize).take noiseMacSize
  have henc' : enc' = m.drop noiseKeySize := msg2_payload hlen
  obtain ⟨k', hread⟩ : ∃ k', noiseIkReadMsg2Log mc client₁ m =
      ⟨[client₁.h ++ re', mixHash mc client₁.h re' ++ enc'],
        [⟨k', nonce12 0, mixHash mc client₁.h re', enc'⟩]⟩ := ⟨_, rfl⟩
  have hopen := noiseIkReadMsg2_log hclient₁ hok
  rw [hread] at hopen hauth hinj
  have hmem := hauth _ List.mem_cons_self (hopen _ List.mem_cons_self)
  rw [hlog₁, hlog₂, hstep, hh₁] at hmem hinj
  obtain ⟨hre, henc⟩ := msg2Log_inj hinj hS (by rw [List.length_take, hlen']; rfl)
    (by rw [henc', List.length_drop, hlen']; rfl) (by simp [msg1Log]) (by simp) (by simp) hmem
  rw [← hre, ← henc, henc']
  exact (List.take_append_drop noiseKeySize m).symm

/-- A call that refuses its message: the handshake is not done, and no transport key is set. -/
structure Refused (rc : NoiseRc) (st : NoiseIKState) : Prop where
  rc : rc = .errAuth
  done : st.handshakeDone = false
  sendKey : st.sendKey = zeroKey
  recvKey : st.recvKey = zeroKey

/-- CORRECT: any other 96 bytes than the client's msg1 are refused by the server, and any other 48
    bytes than the server's msg2 by the client, when BLAKE2b has no collision among what was hashed
    and nothing opens that the two parties have not sealed. -/
theorem altered_messages_refused {c : KeyPair} (hc : KeyPairOf mc c) (s : KeyPair)
    (urandomC urandomS : Option (List UInt8)) :
    let client := noiseIkInitClient mc c.priv c.pub s.pub
    let server := noiseIkInitServer mc s.priv s.pub
    let written₁ := noiseIkWriteMsg1Log mc urandomC client
    ∀ client₁ msg1, noiseIkWriteMsg1 mc urandomC client = some (client₁, msg1) →
    (∀ m, m.length = noiseMsg1Size → m ≠ msg1 →
      let read := noiseIkReadMsg1Log mc server m
      NoCollision mc (written₁.hashed ++ read.hashed) → NoForgery mc written₁.aead read.aead →
      Refused (noiseIkReadMsg1 mc server m).rc (noiseIkReadMsg1 mc server m).st) ∧
    (let r₁ := noiseIkReadMsg1 mc server msg1
      let written₂ := noiseIkWriteMsg2Log mc urandomS r₁.st
      r₁.rc = .ok → ∀ server₂ msg2, noiseIkWriteMsg2 mc urandomS r₁.st = some (server₂, msg2) →
      ∀ m, m.length = noiseMsg2Size → m ≠ msg2 →
      let read := noiseIkReadMsg2Log mc client₁ m
      NoCollision mc (written₁.hashed ++ written₂.hashed ++ read.hashed) →
      NoForgery mc (written₁.aead ++ written₂.aead) read.aead →
      Refused (noiseIkReadMsg2 mc client₁ m).rc (noiseIkReadMsg2 mc client₁ m).st) := by
  intro client server written₁ client₁ msg1 hw₁
  have hpub : client.sPub.length = noiseKeySize := by
    rw [show client.sPub = c.pub from rfl, hc]
    exact mc.publicKey_length _
  have hserver : server.isServer = true := rfl
  have hh : server.h = client.h := rfl
  refine ⟨?_, ?_⟩
  · intro m hlen hne read hinj hauth
    have hkeeps := (noiseIkReadMsg1_keeps mc server m).1
    exact ⟨altered_msg1_refused hpub hserver hh hw₁ hlen hne hinj hauth, hkeeps.done, hkeeps.sendKey,
      hkeeps.recvKey⟩
  · intro r₁ written₂ hok₁ server₂ msg2 hw₂ m hlen hne read hinj hauth
    have hrc := altered_msg2_refused hpub hserver hh hw₁ hok₁ hw₂ hlen hne hinj hauth
    have hkeeps := (noiseIkWriteMsg1_keeps hw₁).1.trans (noiseIkReadMsg2_keeps (by rw [hrc]; decide))
    exact ⟨hrc, hkeeps.done, hkeeps.sendKey, hkeeps.recvKey⟩

/-- The handshake of `altered_messages_refused_topBit`, with all that its use of the theorem needs. -/
theorem topBit_handshake :
    let pair := fun b : UInt8 => ephemeralPair monocypher (some (List.replicate 32 b))
    let client := noiseIkInitClient monocypher (pair 0x11).priv (pair 0x11).pub (pair 0x22).pub
    let server := noiseIkInitServer monocypher (pair 0x22).priv (pair 0x22).pub
    let urandomC := some (List.replicate 32 (0x33 : UInt8))
    let urandomS := some (List.replicate 32 (0x44 : UInt8))
    let written₁ := noiseIkWriteMsg1Log monocypher urandomC client
    ∃ w₁ ∈ noiseIkWriteMsg1 monocypher urandomC client,
      let m1 := w₁.2.modify 31 (· ^^^ 0x80)
      let read₁ := noiseIkReadMsg1Log monocypher server m1
      let r₁ := noiseIkReadMsg1 monocypher server w₁.2
      let written₂ := noiseIkWriteMsg2Log monocypher urandomS r₁.st
      m1.length = noiseMsg1Size ∧ m1 ≠ w₁.2 ∧
      NoCollision monocypher (written₁.hashed ++ read₁.hashed) ∧
      NoForgery monocypher written₁.aead read₁.aead ∧ r₁.rc = .ok ∧
      ∃ w₂ ∈ noiseIkWriteMsg2 monocypher urandomS r₁.st,
        let m2 := w₂.2.modify 31 (· ^^^ 0x80)
        let read₂ := noiseIkReadMsg2Log monocypher w₁.1 m2
        m2.length = noiseMsg2Size ∧ m2 ≠ w₂.2 ∧
        NoCollision monocypher (written₁.hashed ++ written₂.hashed ++ read₂.hashed) ∧
        NoForgery monocypher (written₁.aead ++ written₂.aead) read₂.aead := by
  decide +kernel

/-- The top bit of the ephemeral key does not change the DH, and still the message is refused. -/
theorem altered_messages_refused_topBit :
    let pair := fun b : UInt8 => ephemeralPair monocypher (some (List.replicate 32 b))
    let server := noiseIkInitServer monocypher (pair 0x22).priv (pair 0x22).pub
    ∃ client₁ msg1 server₂ msg2,
      let r₁ := noiseIkReadMsg1 monocypher server msg1
      let m1 := msg1.modify 31 (· ^^^ 0x80)
      let m2 := msg2.modify 31 (· ^^^ 0x80)
      noiseIkWriteMsg1 monocypher (some (List.replicate 32 0x33)) (noiseIkInitClient monocypher
        (pair 0x11).priv (pair 0x11).pub (pair 0x22).pub) = some (client₁, msg1) ∧
      r₁.rc = .ok ∧
      noiseIkWriteMsg2 monocypher (some (List.replicate 32 0x44)) r₁.st = some (server₂, msg2) ∧
      (noiseIkReadMsg1 monocypher server m1).rc = .errAuth ∧
      (noiseIkReadMsg2 monocypher client₁ m2).rc = .errAuth := by
  intro pair server
  obtain ⟨w₁, hw₁, hlen₁, hne₁, hinj₁, hauth₁, hok, w₂, hw₂, hlen₂, hne₂, hinj₂, hauth₂⟩ :=
    topBit_handshake
  obtain ⟨h₁, h₂⟩ := altered_messages_refused (ephemeralPair_of (some (List.replicate 32 0x11)))
    (pair 0x22) (some (List.replicate 32 0x33)) (some (List.replicate 32 0x44)) w₁.1 w₁.2 hw₁
  have hrefused₁ := h₁ _ hlen₁ hne₁ hinj₁ hauth₁
  have hrefused₂ := h₂ hok w₂.1 w₂.2 hw₂ _ hlen₂ hne₂ hinj₂ hauth₂
  exact ⟨w₁.1, w₁.2, w₂.1, w₂.2, hw₁, hok, hw₂, hrefused₁.rc, hrefused₂.rc⟩

end Asys
