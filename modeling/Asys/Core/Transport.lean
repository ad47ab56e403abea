import Asys.Core.Tamper
import Asys.Lib.Channel
import Asys.Lib.Runs
import Asys.Lib.Words

/-! # The transport: each ciphertext once, and in order

    Two states that hold each other's keys, and a network that drops, repeats, reorders, reflects
    and alters what they send. Each direction follows an ordered channel: the counter of the sender
    tells how much was sent, that of the receiver how much was taken out. -/

namespace Asys

/-- What a call of the transport leaves behind; `out` is `none` when the buffer was not filled. -/
structure TransportCall where
  st : NoiseIKState
  out : Option (List UInt8)
  rc : NoiseRc

def noiseIkEncryptCall (mc : Monocypher) (st : NoiseIKState) (plaintext : List UInt8) :
    TransportCall :=
  if st.handshakeDone = false then ⟨st, none, .errState⟩
  else
    let (cipher, mac) := mc.aeadWrite st.sendKey (nonce12 st.sendNonce) [] plaintext
    ⟨{ st with sendNonce := st.sendNonce + 1 }, some (cipher ++ mac), .ok⟩

def noiseIkDecryptCall (mc : Monocypher) (st : NoiseIKState) (ciphertext : List UInt8) :
    TransportCall :=
  if st.handshakeDone = false then ⟨st, none, .errState⟩
  else if ciphertext.length < noiseMacSize then ⟨st, none, .errAuth⟩
  else
    let ptLen := ciphertext.length - noiseMacSize
    match mc.aeadRead st.recvKey (nonce12 st.recvNonce) [] (ciphertext.drop ptLen)
      (ciphertext.take ptLen) with
    | none => ⟨st, none, .errAuth⟩
    | some plaintext => ⟨{ st with recvNonce := st.recvNonce + 1 }, some plaintext, .ok⟩

/-- The call of the AEAD that seals a plaintext. -/
def sealAt (mc : Monocypher) (key : List UInt8) (n : UInt64) (plaintext : List UInt8) : AeadCall :=
  let (cipher, mac) := mc.aeadWrite key (nonce12 n) [] plaintext
  ⟨key, nonce12 n, [], cipher ++ mac⟩

/-- What `noise_ik_encrypt` seals. -/
def noiseIkEncryptLog (mc : Monocypher) (st : NoiseIKState) (plaintext : List UInt8) :
    List AeadCall :=
  if st.handshakeDone = false then [] else [sealAt mc st.sendKey st.sendNonce plaintext]

/-- What `noise_ik_decrypt` gives to `crypto_aead_read`. -/
def noiseIkDecryptLog (st : NoiseIKState) (ciphertext : List UInt8) : List AeadCall :=
  if st.handshakeDone = false then []
  else if ciphertext.length < noiseMacSize then []
  else [⟨st.recvKey, nonce12 st.recvNonce, [], ciphertext⟩]

/-! ### The calls -/

section Calls
variable {mc : Monocypher} {st : NoiseIKState}

theorem noiseIkEncrypt_eq (p : List UInt8) :
    noiseIkEncrypt mc st p =
      (noiseIkEncryptCall mc st p).out.map ((noiseIkEncryptCall mc st p).st, ·) := by
  rw [noiseIkEncrypt, noiseIkEncryptCall]
  split <;> rfl

theorem noiseIkDecrypt_eq (c : List UInt8) :
    noiseIkDecrypt mc st c =
      (noiseIkDecryptCall mc st c).out.map ((noiseIkDecryptCall mc st c).st, ·) := by
  rw [noiseIkDecrypt, noiseIkDecryptCall]
  split
  · rfl
  split
  · rfl
  · dsimp only
    cases mc.aeadRead _ _ _ _ _ <;> rfl

theorem noiseIkEncryptCall_done (hdone : st.handshakeDone = true) (p : List UInt8) :
    noiseIkEncryptCall mc st p = ⟨{ st with sendNonce := st.sendNonce + 1 },
      some (sealAt mc st.sendKey st.sendNonce p).ciphertext, .ok⟩ := by
  rw [noiseIkEncryptCall, if_neg (by simp [hdone])]
  rfl

theorem noiseIkEncryptLog_done (hdone : st.handshakeDone = true) (p : List UInt8) :
    noiseIkEncryptLog mc st p = [sealAt mc st.sendKey st.sendNonce p] := by
  rw [noiseIkEncryptLog, if_neg (by simp [hdone])]

/-- What was sealed under the key and the counter of the receiver opens, and moves the counter. -/
theorem noiseIkDecryptCall_sealAt (hmc : mc.AeadInverts) (hdone : st.handshakeDone = true)
    (p : List UInt8) :
    noiseIkDecryptCall mc st (sealAt mc st.recvKey st.recvNonce p).ciphertext =
      ⟨{ st with recvNonce := st.recvNonce + 1 }, some p, .ok⟩ := by
  have hmac := mc.mac_length st.recvKey (nonce12 st.recvNonce) [] p
  have hc : (sealAt mc st.recvKey st.recvNonce p).ciphertext = _ ++ _ := rfl
  rw [hc, noiseIkDecryptCall, if_neg (by simp [hdone]),
    if_neg (by rw [List.length_append, hmac]; omega)]
  dsimp only
  rw [List.length_append, hmac, Nat.add_sub_cancel, List.drop_left, List.take_left, hmc]

/-- A call that fails leaves the state as it was. -/
theorem noiseIkDecryptCall_failed {c : List UInt8} (h : (noiseIkDecryptCall mc st c).rc ≠ .ok) :
    (noiseIkDecryptCall mc st c).st = st ∧ (noiseIkDecryptCall mc st c).out = none := by
  rw [noiseIkDecryptCall] at h ⊢
  split
  · exact ⟨rfl, rfl⟩
  · rename_i hdone
    rw [if_neg hdone] at h
    split
    · exact ⟨rfl, rfl⟩
    · rename_i hlen
      rw [if_neg hlen] at h
      dsimp only at h ⊢
      split at h
      · exact ⟨rfl, rfl⟩
      · exact absurd rfl h

/-- A call that succeeds has opened its ciphertext. -/
theorem noiseIkDecryptCall_ok {c : List UInt8} (h : (noiseIkDecryptCall mc st c).rc = .ok) :
    ∃ call ∈ noiseIkDecryptLog st c, call = ⟨st.recvKey, nonce12 st.recvNonce, [], c⟩ ∧
      (call.opened mc).isSome := by
  rw [noiseIkDecryptCall] at h
  split at h
  · cases h
  · rename_i hdone
    split at h
    · cases h
    · rename_i hlen
      rw [noiseIkDecryptLog, if_neg hdone, if_neg hlen]
      refine ⟨_, List.mem_cons_self, rfl, ?_⟩
      dsimp only at h
      split at h
      · cases h
      · rename_i p hp
        exact Option.isSome_iff_exists.mpr ⟨p, hp⟩

theorem nonce12_injective {n n' : UInt64} (h : nonce12 n = nonce12 n') : n = n' :=
  Words.putLe64_injective (List.append_cancel_left h)

end Calls

/-! ### The two ends and the network -/

/-- One end: its state, the plaintexts it has encrypted with the ciphertexts that came out and what
    was sealed, and the plaintexts it has accepted. -/
structure Endpoint where
  st : NoiseIKState
  sent : List (List UInt8)
  ciphertexts : List (List UInt8)
  sealed : List AeadCall
  accepted : List (List UInt8)

def Endpoint.encrypt (mc : Monocypher) (e : Endpoint) (plaintext : List UInt8) : Endpoint :=
  let call := noiseIkEncryptCall mc e.st plaintext
  { e with
    st := call.st
    sent := if call.rc = .ok then e.sent ++ [plaintext] else e.sent
    ciphertexts := e.ciphertexts ++ call.out.toList
    sealed := e.sealed ++ noiseIkEncryptLog mc e.st plaintext }

def Endpoint.deliver (mc : Monocypher) (e : Endpoint) (ciphertext : List UInt8) : Endpoint :=
  let call := noiseIkDecryptCall mc e.st ciphertext
  { e with
    st := call.st
    accepted := e.accepted ++ call.out.toList }

inductive Side where | client | server
  deriving DecidableEq

def Side.other : Side → Side
  | .client => .server
  | .server => .client

abbrev Transport := Side → Endpoint

/-- The network delivers whatever it likes, or nothing. -/
inductive TransportMove where
  | encrypt (side : Side) (plaintext : List UInt8)
  | deliver (side : Side) (ciphertext : List UInt8)

def transportStep (mc : Monocypher) (t : Transport) : TransportMove → Transport
  | .encrypt side plaintext => Function.update t side ((t side).encrypt mc plaintext)
  | .deliver side ciphertext => Function.update t side ((t side).deliver mc ciphertext)

def transportStart (a b : NoiseIKState) : Transport
  | .client => ⟨a, [], [], [], []⟩
  | .server => ⟨b, [], [], [], []⟩

def Transport.sealed (t : Transport) : List AeadCall := (t .client).sealed ++ (t .server).sealed

/-- What opens at a delivery was sealed before. -/
def Authentic (mc : Monocypher) (t : Transport) : TransportMove → Prop
  | .encrypt _ _ => True
  | .deliver side ciphertext => NoForgery mc t.sealed (noiseIkDecryptLog (t side).st ciphertext)

instance (mc : Monocypher) (t : Transport) : ∀ m, Decidable (Authentic mc t m)
  | .encrypt _ _ => isTrue trivial
  | .deliver side ciphertext =>
    inferInstanceAs (Decidable (NoForgery mc t.sealed (noiseIkDecryptLog (t side).st ciphertext)))

/-- Each state holds the other's keys, and expects the other's next nonce. -/
structure Mirrored (a b : NoiseIKState) : Prop where
  done : a.handshakeDone = true
  done' : b.handshakeDone = true
  key : b.recvKey = a.sendKey
  key' : a.recvKey = b.sendKey
  nonce : b.recvNonce = a.sendNonce
  nonce' : a.recvNonce = b.sendNonce

/-- The two states that a handshake leaves when the keys of the client are those of the server,
    turned. -/
theorem mirrored_of_handshake {mc : Monocypher} {urandom : Option (List UInt8)}
    {client server server₂ : NoiseIKState} {m msg2 : List UInt8}
    (hw : noiseIkWriteMsg2 mc urandom server = some (server₂, msg2))
    (hok : (noiseIkReadMsg2 mc client m).rc = .ok)
    (hsend : (noiseIkReadMsg2 mc client m).st.sendKey = server₂.recvKey)
    (hrecv : (noiseIkReadMsg2 mc client m).st.recvKey = server₂.sendKey) :
    Mirrored (noiseIkReadMsg2 mc client m).st server₂ := by
  have hc := noiseIkReadMsg2_opens hok
  have hs := noiseIkWriteMsg2_opens hw
  exact ⟨hc.done, hs.done, hsend.symm, hrecv, hs.recvNonce.trans hc.sendNonce.symm,
    hc.recvNonce.trans hs.sendNonce.symm⟩

/-! ### One direction follows a channel -/

/-- All that is sealed under one key for the plaintexts sent, the counter going up from `n₀`. -/
def sealedFrom (mc : Monocypher) (key : List UInt8) (n₀ : UInt64) (sent : List (List UInt8)) :
    List AeadCall :=
  sent.mapIdx fun i plaintext => sealAt mc key (n₀ + i.toUInt64) plaintext

/-- The sender `e` and the receiver `r` of one direction, and the channel that they follow. -/
structure Follows (mc : Monocypher) (key : List UInt8) (n₀ : UInt64) (ch : Channel (List UInt8))
    (e r : Endpoint) : Prop where
  done : e.st.handshakeDone = true
  sendKey : e.st.sendKey = key
  recvKey : r.st.recvKey = key
  sendNonce : e.st.sendNonce = n₀ + ch.sent.length.toUInt64
  recvNonce : r.st.recvNonce = n₀ + ch.taken.toUInt64
  sent : e.sent = ch.sent
  ciphertexts : e.ciphertexts = (sealedFrom mc key n₀ ch.sent).map (·.ciphertext)
  sealed : e.sealed = sealedFrom mc key n₀ ch.sent
  accepted : r.accepted = ch.delivered

section Direction
variable {mc : Monocypher} {key : List UInt8} {n₀ : UInt64} {ch : Channel (List UInt8)}
  {e r : Endpoint}

theorem sealedFrom_concat (sent : List (List UInt8)) (p : List UInt8) :
    sealedFrom mc key n₀ (sent ++ [p]) =
      sealedFrom mc key n₀ sent ++ [sealAt mc key (n₀ + sent.length.toUInt64) p] :=
  List.mapIdx_concat

theorem sealedFrom_key {sent : List (List UInt8)} {c : AeadCall}
    (hc : c ∈ sealedFrom mc key n₀ sent) : c.key = key := by
  obtain ⟨i, hi, rfl⟩ := List.mem_mapIdx.mp hc
  rfl

/-- The counter of a direction does not come back to a value. -/
theorem sealedFrom_nodup {sent : List (List UInt8)}
    (hfew : sent.length < 2 ^ 64) :
    ((sealedFrom mc key n₀ sent).map fun c => (c.key, c.nonce)).Nodup := by
  rw [List.Nodup, List.pairwise_iff_getElem]
  intro i j hi hj hlt heq
  rw [List.length_map, sealedFrom, List.length_mapIdx] at hi hj
  simp only [List.getElem_map, sealedFrom, List.getElem_mapIdx] at heq
  have hnonce := nonce12_injective (Prod.mk.inj heq).2
  have hsame := Words.add_toUInt64_inj (Nat.lt_trans hi hfew) (Nat.lt_trans hj hfew) hnonce
  exact absurd hsame (Nat.ne_of_lt hlt)

/-- The sender encrypts: one more message goes into the channel. -/
theorem Follows.encrypt (h : Follows mc key n₀ ch e r) (p : List UInt8) :
    Follows mc key n₀ (ch.send p) (e.encrypt mc p) r := by
  have hcall : noiseIkEncryptCall mc e.st p = _ := noiseIkEncryptCall_done h.done p
  have hlog : noiseIkEncryptLog mc e.st p = _ := noiseIkEncryptLog_done h.done p
  rw [h.sendKey, h.sendNonce] at hcall hlog
  rw [Endpoint.encrypt, hcall, hlog]
  refine ⟨h.done, rfl, h.recvKey, ?_, h.recvNonce, ?_, ?_, ?_, ?_⟩
  · rw [Channel.send_sent, List.length_append]
    exact (Words.add_toUInt64_succ n₀ ch.sent.length).symm
  · rw [Channel.send_sent, ← h.sent]
    rfl
  · rw [Channel.send_sent, sealedFrom_concat, List.map_append, ← h.ciphertexts]
    rfl
  · rw [Channel.send_sent, sealedFrom_concat, ← h.sealed]
  · rw [Channel.delivered_send, h.accepted]

/-- What the receiver encrypts belongs to the other direction. -/
theorem Follows.encrypt_receiver (h : Follows mc key n₀ ch e r) (p : List UInt8) :
    Follows mc key n₀ ch e (r.encrypt mc p) := by
  have hst : (noiseIkEncryptCall mc r.st p).st.recvKey = r.st.recvKey ∧
      (noiseIkEncryptCall mc r.st p).st.recvNonce = r.st.recvNonce := by
    rw [noiseIkEncryptCall]
    split <;> exact ⟨rfl, rfl⟩
  exact ⟨h.done, h.sendKey, hst.1.trans h.recvKey, h.sendNonce, hst.2.trans h.recvNonce, h.sent,
    h.ciphertexts, h.sealed, h.accepted⟩

/-- What is delivered to the sender belongs to the other direction. -/
theorem Follows.deliver_sender (h : Follows mc key n₀ ch e r) (c : List UInt8) :
    Follows mc key n₀ ch (e.deliver mc c) r := by
  have hst : (noiseIkDecryptCall mc e.st c).st.handshakeDone = e.st.handshakeDone ∧
      (noiseIkDecryptCall mc e.st c).st.sendKey = e.st.sendKey ∧
      (noiseIkDecryptCall mc e.st c).st.sendNonce = e.st.sendNonce := by
    rw [noiseIkDecryptCall]
    split
    · exact ⟨rfl, rfl, rfl⟩
    split
    · exact ⟨rfl, rfl, rfl⟩
    · dsimp only
      split <;> exact ⟨rfl, rfl, rfl⟩
  exact ⟨hst.1.trans h.done, hst.2.1.trans h.sendKey, h.recvKey, hst.2.2.trans h.sendNonce,
    h.recvNonce, h.sent, h.ciphertexts, h.sealed, h.accepted⟩

/-- The ciphertext to come next is that of the message to come next. -/
theorem Follows.next_ciphertext (h : Follows mc key n₀ ch e r) :
    e.ciphertexts[r.accepted.length]? =
      ch.next.map fun p => (sealAt mc key (n₀ + ch.taken.toUInt64) p).ciphertext := by
  rw [h.ciphertexts, h.accepted, Channel.delivered_length, List.getElem?_map, sealedFrom,
    List.getElem?_mapIdx, Option.map_map]
  rfl

/-- The receiver is given the next ciphertext: the next message comes out of the channel. -/
theorem Follows.deliver_next (hmc : mc.AeadInverts) (h : Follows mc key n₀ ch e r)
    (hdone : r.st.handshakeDone = true) {p : List UInt8} (hnext : ch.next = some p) :
    let c := (sealAt mc key (n₀ + ch.taken.toUInt64) p).ciphertext
    (noiseIkDecryptCall mc r.st c).rc = .ok ∧ Follows mc key n₀ ch.receive e (r.deliver mc c) := by
  intro c
  have hcall := noiseIkDecryptCall_sealAt hmc hdone p
  rw [h.recvKey, h.recvNonce] at hcall
  obtain ⟨hsent, htaken, hdelivered⟩ := Channel.receive_of_next hnext
  refine ⟨by rw [hcall], ?_⟩
  rw [Endpoint.deliver, hcall]
  refine ⟨h.done, h.sendKey, rfl, ?_, ?_, ?_, ?_, ?_, ?_⟩
  · rw [hsent, h.sendNonce]
  · rw [htaken]
    exact (Words.add_toUInt64_succ n₀ ch.taken).symm
  · rw [hsent, h.sent]
  · rw [hsent, h.ciphertexts]
  · rw [hsent, h.sealed]
  · rw [hdelivered, ← h.accepted]
    rfl

/-- A call that fails takes nothing out. -/
theorem Endpoint.deliver_failed {c : List UInt8}
    (hrc : (noiseIkDecryptCall mc r.st c).rc ≠ .ok) : r.deliver mc c = r := by
  obtain ⟨hst, hout⟩ := noiseIkDecryptCall_failed hrc
  rw [Endpoint.deliver, hst, hout, Option.toList_none, List.append_nil]

/-- What opens under the key of the direction, having been sealed, is the next ciphertext. -/
theorem Follows.next_of_sealed (h : Follows mc key n₀ ch e r) (hfew : ch.sent.length < 2 ^ 64)
    {c : List UInt8} (hc : ⟨r.st.recvKey, nonce12 r.st.recvNonce, [], c⟩ ∈ e.sealed) :
    ∃ p, ch.next = some p ∧ c = (sealAt mc key (n₀ + ch.taken.toUInt64) p).ciphertext := by
  rw [h.sealed, h.recvNonce] at hc
  obtain ⟨i, hi, heq⟩ := List.mem_mapIdx.mp hc
  obtain ⟨-, hnonce, -, hcipher⟩ := AeadCall.mk.inj heq
  have htaken : i = ch.taken := Words.add_toUInt64_inj (Nat.lt_trans hi hfew)
    (Nat.lt_of_le_of_lt ch.taken_le hfew) (nonce12_injective hnonce)
  subst htaken
  exact ⟨_, List.getElem?_eq_getElem hi, hcipher.symm⟩

end Direction

/-! ### Runs -/

section Runs
open Runs (always StepsMeet)
variable {mc : Monocypher} {a b : NoiseIKState} {t : Transport}

@[simp] theorem Side.other_other (side : Side) : side.other.other = side := by
  cases side <;> rfl

theorem Side.other_ne (side : Side) : side.other ≠ side := by
  cases side <;> decide

theorem Side.eq_or_other (d side : Side) : d = side ∨ d = side.other := by
  cases d <;> cases side <;> decide

/-- Both directions follow their channels, each under the key and from the counter that its sender
    has at the start. -/
def FollowChannels (mc : Monocypher) (a b : NoiseIKState) (ch : Side → Channel (List UInt8))
    (t : Transport) : Prop :=
  ∀ d, Follows mc (transportStart a b d).st.sendKey (transportStart a b d).st.sendNonce (ch d) (t d)
    (t d.other)

variable {ch : Side → Channel (List UInt8)}

theorem followChannels_start (hab : Mirrored a b) :
    FollowChannels mc a b (fun _ => Channel.empty) (transportStart a b) := by
  intro d
  cases d with
  | client =>
    exact ⟨hab.done, rfl, hab.key, (UInt64.add_zero _).symm,
      hab.nonce.trans (UInt64.add_zero _).symm, rfl, rfl, rfl, rfl⟩
  | server =>
    exact ⟨hab.done', rfl, hab.key', (UInt64.add_zero _).symm,
      hab.nonce'.trans (UInt64.add_zero _).symm, rfl, rfl, rfl, rfl⟩

/-- The direction in which a side is the receiver. -/
theorem FollowChannels.receiver (h : FollowChannels mc a b ch t) (side : Side) :
    Follows mc (transportStart a b side.other).st.sendKey
      (transportStart a b side.other).st.sendNonce (ch side.other) (t side.other) (t side) := by
  have hd := h side.other
  rw [Side.other_other] at hd
  exact hd

/-- A change of one end keeps both channels followed when it does so in each direction. -/
theorem followChannels_update {side d : Side}
    {ch' : Channel (List UInt8)} {e : Endpoint}
    (hsend : Follows mc (transportStart a b side).st.sendKey (transportStart a b side).st.sendNonce
      (Function.update ch d ch' side) e (t side.other))
    (hreceive : Follows mc (transportStart a b side.other).st.sendKey
      (transportStart a b side.other).st.sendNonce (Function.update ch d ch' side.other)
      (t side.other) e) :
    FollowChannels mc a b (Function.update ch d ch') (Function.update t side e) := by
  intro d'
  rcases d'.eq_or_other side with rfl | rfl
  · rw [Function.update_self d', Function.update_of_ne d'.other_ne]
    exact hsend
  · rw [Function.update_of_ne side.other_ne _ t, Side.other_other, Function.update_self side]
    exact hreceive

/-- A side encrypts: a message goes into its channel. -/
theorem FollowChannels.encrypt (h : FollowChannels mc a b ch t) (side : Side) (p : List UInt8) :
    FollowChannels mc a b (Function.update ch side ((ch side).send p))
      (transportStep mc t (.encrypt side p)) := by
  refine followChannels_update ?_ ?_
  · rw [Function.update_self]
    exact (h side).encrypt p
  · rw [Function.update_of_ne side.other_ne]
    exact (h.receiver side).encrypt_receiver p

/-- A ciphertext that opens is the next one of the other side: the keys of the two directions differ,
    so it was not sealed on this side. -/
theorem FollowChannels.next_of_ok (h : FollowChannels mc a b ch t) (hkeys : a.sendKey ≠ b.sendKey)
    (hfew : ∀ d, (t d).sent.length < 2 ^ 64) {side : Side} {c : List UInt8}
    (hauth : NoForgery mc t.sealed (noiseIkDecryptLog (t side).st c))
    (hok : (noiseIkDecryptCall mc (t side).st c).rc = .ok) :
    ∃ p, (ch side.other).next = some p ∧ c = (sealAt mc (transportStart a b side.other).st.sendKey
      ((transportStart a b side.other).st.sendNonce + (ch side.other).taken.toUInt64) p).ciphertext := by
  obtain ⟨call, hmem, rfl, hopen⟩ := noiseIkDecryptCall_ok hok
  have hsealed := hauth _ hmem hopen
  have hown : ⟨(t side).st.recvKey, nonce12 (t side).st.recvNonce, [], c⟩ ∉ (t side).sealed := by
    rw [(h side).sealed, (h.receiver side).recvKey]
    intro hin
    have hkey := sealedFrom_key hin
    cases side with
    | client => exact hkeys hkey.symm
    | server => exact hkeys hkey
  have hother : ⟨(t side).st.recvKey, nonce12 (t side).st.recvNonce, [], c⟩ ∈ (t side.other).sealed := by
    cases side with
    | client => exact (List.mem_append.mp hsealed).resolve_left hown
    | server => exact (List.mem_append.mp hsealed).resolve_right hown
  exact (h.receiver side).next_of_sealed ((h.receiver side).sent ▸ hfew side.other) hother

/-- A call succeeds exactly when it is given the next ciphertext of the other side. -/
theorem FollowChannels.ok_iff (hmc : mc.AeadInverts) (h : FollowChannels mc a b ch t)
    (hkeys : a.sendKey ≠ b.sendKey) (hfew : ∀ d, (t d).sent.length < 2 ^ 64) {side : Side}
    {c : List UInt8} (hauth : NoForgery mc t.sealed (noiseIkDecryptLog (t side).st c)) :
    (noiseIkDecryptCall mc (t side).st c).rc = .ok ↔
      (t side.other).ciphertexts[(t side).accepted.length]? = some c := by
  rw [(h.receiver side).next_ciphertext]
  constructor
  · intro hok
    obtain ⟨p, hnext, rfl⟩ := h.next_of_ok hkeys hfew hauth hok
    rw [hnext]
    rfl
  · intro hnext
    obtain ⟨p, hp, rfl⟩ := Option.map_eq_some_iff.mp hnext
    exact ((h.receiver side).deliver_next hmc (h side).done hp).1

/-- A delivery: the next message comes out of the channel, or nothing happens. -/
theorem FollowChannels.deliver (hmc : mc.AeadInverts) (h : FollowChannels mc a b ch t)
    (hkeys : a.sendKey ≠ b.sendKey) (hfew : ∀ d, (t d).sent.length < 2 ^ 64) {side : Side}
    {c : List UInt8} (hauth : NoForgery mc t.sealed (noiseIkDecryptLog (t side).st c)) :
    transportStep mc t (.deliver side c) = t ∨
      FollowChannels mc a b (Function.update ch side.other (ch side.other).receive)
        (transportStep mc t (.deliver side c)) := by
  by_cases hok : (noiseIkDecryptCall mc (t side).st c).rc = .ok
  · obtain ⟨p, hnext, rfl⟩ := h.next_of_ok hkeys hfew hauth hok
    refine Or.inr (followChannels_update ?_ ?_)
    · rw [Function.update_of_ne side.other_ne.symm]
      exact (h side).deliver_sender _
    · rw [Function.update_self]
      exact ((h.receiver side).deliver_next hmc (h side).done hnext).2
  · left
    rw [transportStep, Endpoint.deliver_failed hok, Function.update_eq_self]

theorem sent_length_le (mc : Monocypher) (t : Transport) (m : TransportMove) (d : Side) :
    (t d).sent.length ≤ (transportStep mc t m d).sent.length := by
  cases m with
  | encrypt side p =>
    rw [transportStep, Function.update_apply]
    split
    · rename_i heq
      subst heq
      rw [Endpoint.encrypt]
      dsimp only
      split
      · rw [List.length_append]
        exact Nat.le_add_right _ _
      · exact Nat.le_refl _
    · exact Nat.le_refl _
  | deliver side c =>
    rw [transportStep, Function.update_apply]
    split
    · rename_i heq
      subst heq
      exact Nat.le_refl _
    · exact Nat.le_refl _

/-- RUN: as long as there are few enough messages, and no forgery, both channels are followed. -/
theorem followChannels_run (hmc : mc.AeadInverts) (hab : Mirrored a b) (hkeys : a.sendKey ≠ b.sendKey)
    {moves : List TransportMove}
    (hauth : StepsMeet (always (transportStep mc)) (Authentic mc) (transportStart a b) moves)
    (hrun : Runs.run (always (transportStep mc)) (transportStart a b) moves = some t)
    (hfew : ∀ d, (t d).sent.length < 2 ^ 64) : ∃ ch, FollowChannels mc a b ch t := by
  let I := fun t : Transport => (∀ d, (t d).sent.length < 2 ^ 64) → ∃ ch, FollowChannels mc a b ch t
  have hstart : I (transportStart a b) := fun _ => ⟨_, followChannels_start hab⟩
  refine Runs.inv_of_steps hstart ?_ hauth hrun hfew
  intro t m t' hI hm hstep hfew'
  obtain rfl : transportStep mc t m = t' := Option.some.inj hstep
  have hfew : ∀ d, (t d).sent.length < 2 ^ 64 := fun d =>
    Nat.lt_of_le_of_lt (sent_length_le mc t m d) (hfew' d)
  obtain ⟨ch, hch⟩ := hI hfew
  cases m with
  | encrypt side p => exact ⟨_, hch.encrypt side p⟩
  | deliver side c =>
    rcases hch.deliver hmc hkeys hfew hm with hsame | hnext
    · exact ⟨ch, hsame.symm ▸ hch⟩
    · exact ⟨_, hnext⟩

/-- CORRECT: whatever the two ends encrypt, fewer than 2^64 messages each way, and whatever the
    network delivers: no key is used twice with one nonce, a ciphertext is accepted exactly when it is
    the next one of the other side, a call that fails leaves the state as it was, and each side has
    accepted a prefix of what the other has sent. -/
theorem accepted_in_order (hmc : mc.AeadInverts) (hab : Mirrored a b) (hkeys : a.sendKey ≠ b.sendKey)
    {moves : List TransportMove}
    (hauth : StepsMeet (always (transportStep mc)) (Authentic mc) (transportStart a b) moves)
    (hrun : Runs.run (always (transportStep mc)) (transportStart a b) moves = some t)
    (hfew : ∀ d, (t d).sent.length < 2 ^ 64) :
    (t.sealed.map fun c => (c.key, c.nonce)).Nodup ∧
    (∀ side c, Authentic mc t (.deliver side c) →
      ((noiseIkDecryptCall mc (t side).st c).rc = .ok ↔
        (t side.other).ciphertexts[(t side).accepted.length]? = some c)) ∧
    (∀ side c, (noiseIkDecryptCall mc (t side).st c).rc ≠ .ok →
      (noiseIkDecryptCall mc (t side).st c).st = (t side).st) ∧
    ∀ side, (t side).accepted <+: (t side.other).sent := by
  obtain ⟨ch, hch⟩ := followChannels_run hmc hab hkeys hauth hrun hfew
  refine ⟨?_, ?_, ?_, ?_⟩
  · rw [Transport.sealed, List.map_append, (hch .client).sealed, (hch .server).sealed]
    refine List.nodup_append.mpr ⟨?_, ?_, ?_⟩
    · exact sealedFrom_nodup ((hch .client).sent ▸ hfew .client)
    · exact sealedFrom_nodup ((hch .server).sent ▸ hfew .server)
    · intro x hx y hy heq
      obtain ⟨c, hc, rfl⟩ := List.mem_map.mp hx
      obtain ⟨c', hc', rfl⟩ := List.mem_map.mp hy
      have hkey := (Prod.mk.inj heq).1
      rw [sealedFrom_key hc, sealedFrom_key hc'] at hkey
      exact hkeys hkey
  · exact fun side c hc => hch.ok_iff hmc hkeys hfew hc
  · exact fun side c hrc => (noiseIkDecryptCall_failed hrc).1
  · intro side
    rw [(hch.receiver side).accepted, (hch.receiver side).sent]
    exact (ch side.other).delivered_prefix_sent

end Runs

/-- A state after a handshake that has set these keys. -/
def transportEnd (send recv : UInt8) : NoiseIKState :=
  { noiseIkWiped with
    sendKey := List.replicate noiseKeySize send
    recvKey := List.replicate noiseKeySize recv
    handshakeDone := true }

/-- Ciphertext `n` of the client of `reordered`. -/
def reorderedCipher (n : UInt64) (plaintext : List UInt8) : List UInt8 :=
  (sealAt monocypher (List.replicate noiseKeySize 1) n plaintext).ciphertext

/-- Two messages; the second arrives first, the first is reflected, delivered, delivered again, and
    the second comes altered. -/
def reordered : List TransportMove :=
  [.encrypt .client [0xA0, 0x04], .encrypt .client [0xA0, 0x20],
    .deliver .server (reorderedCipher 1 [0xA0, 0x20]),
    .deliver .client (reorderedCipher 0 [0xA0, 0x04]),
    .deliver .server (reorderedCipher 0 [0xA0, 0x04]),
    .deliver .server (reorderedCipher 0 [0xA0, 0x04]),
    .deliver .server ((reorderedCipher 1 [0xA0, 0x20]).modify 0 (· ^^^ 0xFF))]

/-- The server has taken the first message only, and waits for the second. -/
theorem accepted_in_order_reordered :
    let t := reordered.foldl (transportStep monocypher)
      (transportStart (transportEnd 1 2) (transportEnd 2 1))
    (t .server).accepted = [[0xA0, 0x04]] ∧ (t .server).accepted <+: (t .client).sent ∧
      (noiseIkDecryptCall monocypher (t .server).st (reorderedCipher 1 [0xA0, 0x20])).rc = .ok := by
  intro t
  have hab : Mirrored (transportEnd 1 2) (transportEnd 2 1) := ⟨rfl, rfl, rfl, rfl, rfl, rfl⟩
  have hauth : Runs.StepsMeet (Runs.always (transportStep monocypher)) (Authentic monocypher)
      (transportStart (transportEnd 1 2) (transportEnd 2 1)) reordered := by decide +kernel
  have hfew : ∀ d, (t d).sent.length < 2 ^ 64 := by
    intro d
    cases d <;> decide +kernel
  obtain ⟨-, hiff, -, hprefix⟩ := accepted_in_order monocypher_aeadInverts hab (by decide) hauth
    (Runs.run_always _ _ _) hfew
  refine ⟨by decide +kernel, hprefix .server, ?_⟩
  exact (hiff .server _ (by decide +kernel)).mpr (by decide +kernel)

end Asys
