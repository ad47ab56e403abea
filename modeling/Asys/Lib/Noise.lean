import Mathlib.Data.List.Basic

/-! # The Noise handshake

    The CipherState, the SymmetricState and the HandshakeState of the Noise framework, over any DH,
    cipher and hash. A message pattern is a list of tokens, and a message is written and read token
    by token. The rule at the end is completeness: what one party writes, a party that mirrors it
    reads, and the two mirror each other afterwards. -/

namespace Noise

abbrev Bytes := List UInt8

structure KeyPair where
  priv : Bytes
  pub : Bytes

/-- What a protocol name stands for. A ciphertext carries its tag, of 16 bytes. -/
structure Suite where
  dhLen : ℕ
  hashLen : ℕ
  blockLen : ℕ
  dh : KeyPair → Bytes → Bytes
  encrypt : Bytes → ℕ → Bytes → Bytes → Bytes
  decrypt : Bytes → ℕ → Bytes → Bytes → Option Bytes
  hash : Bytes → Bytes

variable (S : Suite)

/-- `HMAC-HASH`. -/
def Suite.hmac (key data : Bytes) : Bytes :=
  let k := if S.blockLen < key.length then S.hash key else key
  let block := k ++ List.replicate (S.blockLen - k.length) 0
  S.hash (block.map (· ^^^ 0x5C) ++ S.hash (block.map (· ^^^ 0x36) ++ data))

/-- `HKDF` with two outputs. -/
def Suite.hkdf (chainingKey inputKeyMaterial : Bytes) : Bytes × Bytes :=
  let tempKey := S.hmac chainingKey inputKeyMaterial
  let output1 := S.hmac tempKey [0x01]
  (output1, S.hmac tempKey (output1 ++ [0x02]))

/-! ### The CipherState and the SymmetricState -/

/-- `k` is `none` while it is empty. The largest nonce, which is reserved, is far from a
    handshake. -/
structure CipherState where
  k : Option Bytes
  n : ℕ

/-- `InitializeKey` with the first 32 bytes of a hash. -/
def CipherState.initializeKey (key : Bytes) : CipherState := ⟨some (key.take 32), 0⟩

def CipherState.encryptWithAd (c : CipherState) (ad plaintext : Bytes) : CipherState × Bytes :=
  match c.k with
  | none => (c, plaintext)
  | some k => (⟨some k, c.n + 1⟩, S.encrypt k c.n ad plaintext)

def CipherState.decryptWithAd (c : CipherState) (ad ciphertext : Bytes) :
    Option (CipherState × Bytes) :=
  match c.k with
  | none => some (c, ciphertext)
  | some k => (S.decrypt k c.n ad ciphertext).map fun plaintext => (⟨some k, c.n + 1⟩, plaintext)

structure SymmetricState where
  cipher : CipherState
  ck : Bytes
  h : Bytes

def SymmetricState.initializeSymmetric (protocolName : Bytes) : SymmetricState :=
  let h := if protocolName.length ≤ S.hashLen then
      protocolName ++ List.replicate (S.hashLen - protocolName.length) 0
    else S.hash protocolName
  ⟨⟨none, 0⟩, h, h⟩

def SymmetricState.mixKey (sym : SymmetricState) (inputKeyMaterial : Bytes) : SymmetricState :=
  let (ck, tempK) := S.hkdf sym.ck inputKeyMaterial
  { sym with cipher := .initializeKey tempK, ck := ck }

def SymmetricState.mixHash (sym : SymmetricState) (data : Bytes) : SymmetricState :=
  { sym with h := S.hash (sym.h ++ data) }

def SymmetricState.encryptAndHash (sym : SymmetricState) (plaintext : Bytes) :
    SymmetricState × Bytes :=
  let (cipher, ciphertext) := sym.cipher.encryptWithAd S sym.h plaintext
  ({ sym with cipher := cipher }.mixHash S ciphertext, ciphertext)

def SymmetricState.decryptAndHash (sym : SymmetricState) (ciphertext : Bytes) :
    Option (SymmetricState × Bytes) :=
  (sym.cipher.decryptWithAd S sym.h ciphertext).map fun (cipher, plaintext) =>
    ({ sym with cipher := cipher }.mixHash S ciphertext, plaintext)

/-- The CipherStates of the two directions, the initiator's first. -/
def SymmetricState.split (sym : SymmetricState) : CipherState × CipherState :=
  let (tempK1, tempK2) := S.hkdf sym.ck []
  (.initializeKey tempK1, .initializeKey tempK2)

/-! ### The HandshakeState -/

/-- A public key of a party, ephemeral or static. -/
inductive Key where | e | s
  deriving DecidableEq

/-- `e` and `s` send a key; a token of two letters is a DH of the initiator's pair in its first
    letter and the responder's in its second. -/
inductive Token where
  | send (k : Key)
  | dh (initiator responder : Key)

structure HandshakePattern where
  initiatorPre : List Key
  responderPre : List Key
  messages : List (List Token)

structure HandshakeState where
  symmetric : SymmetricState
  s : Option KeyPair
  e : Option KeyPair
  rs : Option Bytes
  re : Option Bytes
  initiator : Bool
  messagePatterns : List (List Token)

namespace HandshakeState

/-- The party's own pair. -/
def own (st : HandshakeState) : Key → Option KeyPair
  | .e => st.e
  | .s => st.s

/-- The other party's public key. -/
def remote (st : HandshakeState) : Key → Option Bytes
  | .e => st.re
  | .s => st.rs

/-- `MixHash` of the public keys of a pre-message, the party's own or the other's. -/
def mixPre (st : HandshakeState) (mine : Bool) : List Key → Option HandshakeState
  | [] => some st
  | k :: ks =>
    (if mine then (st.own k).map (·.pub) else st.remote k).bind fun pub =>
      mixPre { st with symmetric := st.symmetric.mixHash S pub } mine ks

/-- `Initialize`: the pre-message of the initiator is hashed first. -/
def initializeHandshake (pattern : HandshakePattern) (protocolName prologue : Bytes) (initiator : Bool)
    (s e : Option KeyPair) (rs re : Option Bytes) : Option HandshakeState :=
  let sym := (SymmetricState.initializeSymmetric S protocolName).mixHash S prologue
  let st : HandshakeState := ⟨sym, s, e, rs, re, initiator, pattern.messages⟩
  (st.mixPre S initiator pattern.initiatorPre).bind fun st =>
    st.mixPre S (!initiator) pattern.responderPre

/-- The pair and the public key that a DH takes at this end. -/
def dhKeys (st : HandshakeState) (i r : Key) : Option (KeyPair × Bytes) :=
  let (mine, other) := if st.initiator then (i, r) else (r, i)
  (st.own mine).bind fun p => (st.remote other).map (p, ·)

def mixDh (st : HandshakeState) (i r : Key) : Option HandshakeState :=
  (st.dhKeys i r).map fun (p, pub) => { st with symmetric := st.symmetric.mixKey S (S.dh p pub) }

/-- The state and the bytes of one token; `fresh` is what `GENERATE_KEYPAIR` returns. -/
def writeToken (fresh : KeyPair) (st : HandshakeState) : Token → Option (HandshakeState × Bytes)
  | .send .e =>
    some ({ st with e := some fresh, symmetric := st.symmetric.mixHash S fresh.pub }, fresh.pub)
  | .send .s => st.s.map fun p =>
    let (sym, out) := st.symmetric.encryptAndHash S p.pub
    ({ st with symmetric := sym }, out)
  | .dh i r => (st.mixDh S i r).map (·, [])

/-- The state and the bytes that are left of the message. -/
def readToken (st : HandshakeState) (inp : Bytes) : Token → Option (HandshakeState × Bytes)
  | .send .e =>
    if inp.length < S.dhLen then none
    else
      let re := inp.take S.dhLen
      some ({ st with re := some re, symmetric := st.symmetric.mixHash S re }, inp.drop S.dhLen)
  | .send .s =>
    let n := if st.symmetric.cipher.k.isSome then S.dhLen + 16 else S.dhLen
    if inp.length < n then none
    else (st.symmetric.decryptAndHash S (inp.take n)).map fun (sym, rs) =>
      ({ st with rs := some rs, symmetric := sym }, inp.drop n)
  | .dh i r => (st.mixDh S i r).map (·, inp)

def writeTokens (fresh : KeyPair) (st : HandshakeState) :
    List Token → Option (HandshakeState × Bytes)
  | [] => some (st, [])
  | t :: ts =>
    (st.writeToken S fresh t).bind fun (st, out) =>
      (writeTokens fresh st ts).map fun (st, rest) => (st, out ++ rest)

def readTokens (st : HandshakeState) (inp : Bytes) : List Token → Option (HandshakeState × Bytes)
  | [] => some (st, inp)
  | t :: ts => (st.readToken S inp t).bind fun (st, inp) => readTokens st inp ts

/-- The state and the message; `none` when no message is left or a key is missing. -/
def writeMessage (fresh : KeyPair) (st : HandshakeState) (payload : Bytes) :
    Option (HandshakeState × Bytes) :=
  match st.messagePatterns with
  | [] => none
  | pattern :: rest =>
    (st.writeTokens S fresh pattern).map fun (st, out) =>
      let (sym, enc) := st.symmetric.encryptAndHash S payload
      ({ st with symmetric := sym, messagePatterns := rest }, out ++ enc)

/-- The state and the payload. -/
def readMessage (st : HandshakeState) (message : Bytes) : Option (HandshakeState × Bytes) :=
  match st.messagePatterns with
  | [] => none
  | pattern :: rest =>
    (st.readTokens S message pattern).bind fun (st, enc) =>
      (st.symmetric.decryptAndHash S enc).map fun (sym, payload) =>
        ({ st with symmetric := sym, messagePatterns := rest }, payload)

/-- What `Split` gives once no message is left. -/
def transport (st : HandshakeState) : Option (CipherState × CipherState) :=
  if st.messagePatterns.isEmpty then some (st.symmetric.split S) else none

/-! ### Step by step -/

/-- The SymmetricState after each token that is written, and after the payload. -/
def writeTrace (fresh : KeyPair) (st : HandshakeState) (payload : Bytes) :
    List Token → List SymmetricState
  | [] => [(st.symmetric.encryptAndHash S payload).1]
  | t :: ts =>
    match st.writeToken S fresh t with
    | none => []
    | some (st, _) => st.symmetric :: writeTrace fresh st payload ts

/-- The SymmetricState after each token that is read, and after the payload, as far as the reading
    gets. -/
def readTrace (st : HandshakeState) (inp : Bytes) : List Token → List SymmetricState
  | [] => ((st.symmetric.decryptAndHash S inp).map (·.1)).toList
  | t :: ts =>
    match st.readToken S inp t with
    | none => []
    | some (st, inp) => st.symmetric :: readTrace st inp ts

/-- Writing the tokens `ts` gives `st'` and `out`, through the SymmetricStates `trace`. -/
structure Writes (fresh : KeyPair) (st : HandshakeState) (ts : List Token) (st' : HandshakeState)
    (out : Bytes) (trace : List SymmetricState) : Prop where
  tokens : st.writeTokens S fresh ts = some (st', out)
  trace : ∀ payload, st.writeTrace S fresh payload ts =
    trace ++ [(st'.symmetric.encryptAndHash S payload).1]

/-- Reading the tokens `ts` from `inp` gives `st'` and leaves `rest`. -/
structure Reads (st : HandshakeState) (inp : Bytes) (ts : List Token) (st' : HandshakeState)
    (rest : Bytes) (trace : List SymmetricState) : Prop where
  tokens : st.readTokens S inp ts = some (st', rest)
  trace : st.readTrace S inp ts =
    trace ++ ((st'.symmetric.decryptAndHash S rest).map (·.1)).toList

/-- Reading the tokens `ts` from `inp` breaks off. -/
structure BreaksOff (st : HandshakeState) (inp : Bytes) (ts : List Token)
    (trace : List SymmetricState) : Prop where
  tokens : st.readTokens S inp ts = none
  trace : st.readTrace S inp ts = trace

section Steps
variable {S} {fresh : KeyPair} {st st₁ st' : HandshakeState} {t : Token} {ts : List Token}
  {trace : List SymmetricState}

theorem Writes.nil : Writes S fresh st [] st [] [] := ⟨rfl, fun _ => rfl⟩

theorem Writes.cons {out out' : Bytes} (h : st.writeToken S fresh t = some (st₁, out))
    (h' : Writes S fresh st₁ ts st' out' trace) :
    Writes S fresh st (t :: ts) st' (out ++ out') (st₁.symmetric :: trace) where
  tokens := by
    rw [writeTokens, h, Option.bind_some]
    dsimp only
    rw [h'.tokens]
    rfl
  trace := by
    intro payload
    rw [writeTrace, h]
    exact congrArg _ (h'.trace payload)

theorem Writes.message {out : Bytes} (h : Writes S fresh st ts st' out trace)
    {patterns : List (List Token)} (hp : st.messagePatterns = ts :: patterns) (payload : Bytes) :
    st.writeMessage S fresh payload =
      some ({ st' with
        symmetric := (st'.symmetric.encryptAndHash S payload).1
        messagePatterns := patterns }, out ++ (st'.symmetric.encryptAndHash S payload).2) := by
  rw [writeMessage, hp]
  dsimp only
  rw [h.tokens]
  rfl

theorem Reads.nil {inp : Bytes} : Reads S st inp [] st inp [] := ⟨rfl, rfl⟩

theorem Reads.cons {inp inp₁ rest : Bytes} (h : st.readToken S inp t = some (st₁, inp₁))
    (h' : Reads S st₁ inp₁ ts st' rest trace) :
    Reads S st inp (t :: ts) st' rest (st₁.symmetric :: trace) where
  tokens := by
    rw [readTokens, h]
    exact h'.tokens
  trace := by
    rw [readTrace, h]
    exact congrArg _ h'.trace

/-- The token `e`, from a message that is long enough. -/
theorem readToken_e {inp : Bytes} (hlen : S.dhLen ≤ inp.length) :
    st.readToken S inp (.send .e) = some ({ st with
      re := some (inp.take S.dhLen)
      symmetric := st.symmetric.mixHash S (inp.take S.dhLen) }, inp.drop S.dhLen) :=
  if_neg (Nat.not_lt.mpr hlen)

/-- The token `s`, with `n` bytes of the message. -/
theorem readToken_s {inp : Bytes} (n : ℕ)
    (hn : (if st.symmetric.cipher.k.isSome then S.dhLen + 16 else S.dhLen) = n)
    (hlen : n ≤ inp.length) :
    st.readToken S inp (.send .s) = (st.symmetric.decryptAndHash S (inp.take n)).map fun (sym, rs) =>
      ({ st with rs := some rs, symmetric := sym }, inp.drop n) := by
  subst hn
  exact if_neg (Nat.not_lt.mpr hlen)

theorem BreaksOff.here {inp : Bytes} (h : st.readToken S inp t = none) (ts : List Token) :
    BreaksOff S st inp (t :: ts) [] := by
  refine ⟨?_, ?_⟩
  · rw [readTokens, h]
    rfl
  · rw [readTrace, h]

theorem BreaksOff.cons {inp inp₁ : Bytes} (h : st.readToken S inp t = some (st₁, inp₁))
    (h' : BreaksOff S st₁ inp₁ ts trace) :
    BreaksOff S st inp (t :: ts) (st₁.symmetric :: trace) := by
  refine ⟨?_, ?_⟩
  · rw [readTokens, h]
    exact h'.tokens
  · rw [readTrace, h]
    exact congrArg _ h'.trace

theorem Reads.message {inp rest : Bytes} (h : Reads S st inp ts st' rest trace)
    {patterns : List (List Token)} (hp : st.messagePatterns = ts :: patterns) :
    st.readMessage S inp = (st'.symmetric.decryptAndHash S rest).map fun (sym, payload) =>
      ({ st' with symmetric := sym, messagePatterns := patterns }, payload) := by
  rw [readMessage, hp]
  dsimp only
  rw [h.tokens]
  rfl

theorem BreaksOff.message {inp : Bytes} (h : BreaksOff S st inp ts trace)
    {patterns : List (List Token)} (hp : st.messagePatterns = ts :: patterns) :
    st.readMessage S inp = none := by
  rw [readMessage, hp]
  dsimp only
  rw [h.tokens]
  rfl

end Steps

end HandshakeState

/-! ### Completeness -/

/-- The cipher opens what it sealed, and pairs of `A` and pairs of `B` agree on their DH. -/
structure Suite.Sound (A B : KeyPair → Prop) : Prop where
  decrypt_encrypt : ∀ k n ad p, S.decrypt k n ad (S.encrypt k n ad p) = some p
  encrypt_length : ∀ k n ad p, (S.encrypt k n ad p).length = p.length + 16
  dh_comm : ∀ p q, A p → B q → S.dh p q.pub = S.dh q p.pub
  pub_length : ∀ p, A p ∨ B p → p.pub.length = S.dhLen

variable {S} {A B : KeyPair → Prop}

theorem Suite.Sound.symm (hS : S.Sound A B) : S.Sound B A where
  decrypt_encrypt := hS.decrypt_encrypt
  encrypt_length := hS.encrypt_length
  dh_comm := fun p q hp hq => (hS.dh_comm q p hq hp).symm
  pub_length := fun p hp => hS.pub_length p hp.symm

theorem Suite.Sound.decryptWithAd (hS : S.Sound A B) (c : CipherState) (ad p : Bytes) :
    c.decryptWithAd S ad (c.encryptWithAd S ad p).2 = some ((c.encryptWithAd S ad p).1, p) := by
  obtain ⟨k, n⟩ := c
  cases k with
  | none => rfl
  | some k =>
    simp only [CipherState.encryptWithAd, CipherState.decryptWithAd, hS.decrypt_encrypt,
      Option.map_some]

theorem Suite.Sound.decryptAndHash (hS : S.Sound A B) (sym : SymmetricState) (p : Bytes) :
    sym.decryptAndHash S (sym.encryptAndHash S p).2 = some ((sym.encryptAndHash S p).1, p) := by
  simp only [SymmetricState.encryptAndHash, SymmetricState.decryptAndHash, hS.decryptWithAd,
    Option.map_some]

theorem Suite.Sound.encryptAndHash_length (hS : S.Sound A B) (sym : SymmetricState) (p : Bytes) :
    (sym.encryptAndHash S p).2.length =
      if sym.cipher.k.isSome then p.length + 16 else p.length := by
  obtain ⟨⟨k, n⟩, ck, h⟩ := sym
  cases k with
  | none => rfl
  | some k => exact hS.encrypt_length k n h p

/-- Two parties in step: they have hashed the same and drawn the same keys, and the public keys they
    hold are those of the other's pairs. -/
structure Mirror (A B : KeyPair → Prop) (a b : HandshakeState) : Prop where
  symmetric : b.symmetric = a.symmetric
  role : b.initiator = !a.initiator
  patterns : b.messagePatterns = a.messagePatterns
  held : ∀ k pub, a.remote k = some pub → ∃ q, b.own k = some q ∧ q.pub = pub
  held' : ∀ k pub, b.remote k = some pub → ∃ p, a.own k = some p ∧ p.pub = pub
  owns : ∀ k p, a.own k = some p → A p
  owns' : ∀ k q, b.own k = some q → B q

theorem Mirror.symm {a b : HandshakeState} (h : Mirror A B a b) : Mirror B A b a where
  symmetric := h.symmetric.symm
  role := by rw [h.role, Bool.not_not]
  patterns := h.patterns.symm
  held := h.held'
  held' := h.held
  owns := h.owns'
  owns' := h.owns

/-- Only the SymmetricStates of two mirrored parties change, in the same way. -/
theorem Mirror.withSymmetric {a b : HandshakeState} (h : Mirror A B a b) (sym : SymmetricState) :
    Mirror A B { a with symmetric := sym } { b with symmetric := sym } where
  symmetric := rfl
  role := h.role
  patterns := h.patterns
  held := h.held
  held' := h.held'
  owns := h.owns
  owns' := h.owns'

/-- A DH at one end is the same DH at the other, when that end holds the key. -/
theorem Mirror.mixDh (hS : S.Sound A B) {a b a' : HandshakeState} (h : Mirror A B a b) {i r : Key}
    (hc : (b.remote (if a.initiator then i else r)).isSome) (ha : a.mixDh S i r = some a') :
    ∃ b', b.mixDh S i r = some b' ∧ Mirror A B a' b' ∧ ∀ k, b'.remote k = b.remote k := by
  -- `x` is the writer's key in the token, `y` the reader's
  obtain ⟨x, y, hx, ha', hb'⟩ : ∃ x y, (if a.initiator then i else r) = x ∧
      (a.dhKeys i r = (a.own x).bind fun p => (a.remote y).map (p, ·)) ∧
      (b.dhKeys i r = (b.own y).bind fun q => (b.remote x).map (q, ·)) := by
    have hrole := h.role
    cases hi : a.initiator
    · exact ⟨r, i, rfl, by simp [HandshakeState.dhKeys, hi], by simp [HandshakeState.dhKeys, hrole, hi]⟩
    · exact ⟨i, r, rfl, by simp [HandshakeState.dhKeys, hi], by simp [HandshakeState.dhKeys, hrole, hi]⟩
  rw [hx] at hc
  simp only [HandshakeState.mixDh, Option.map_eq_some_iff, ha', Option.bind_eq_some_iff] at ha
  obtain ⟨-, ⟨p, hp, pub, hpub, rfl⟩, rfl⟩ := ha
  obtain ⟨q, hq, rfl⟩ := h.held y pub hpub
  obtain ⟨pub', hpub'⟩ := Option.isSome_iff_exists.mp hc
  obtain ⟨p', hp', rfl⟩ := h.held' x pub' hpub'
  obtain rfl : p = p' := Option.some.inj (hp.symm.trans hp')
  refine ⟨{ b with symmetric := a.symmetric.mixKey S (S.dh p q.pub) }, ?_, h.withSymmetric _, ?_⟩
  · rw [HandshakeState.mixDh, hb', hq, hpub']
    have hdh : S.dh q p.pub = S.dh p q.pub := (hS.dh_comm p q (h.owns x p hp) (h.owns' y q hq)).symm
    simp [hdh, h.symmetric]
  · intro k
    cases k <;> rfl

/-- The public keys in `known` are held. -/
def HandshakeState.Knows (st : HandshakeState) (known : List Key) : Prop :=
  ∀ k ∈ known, (st.remote k).isSome

theorem HandshakeState.Knows.nil (st : HandshakeState) : st.Knows [] := by
  intro k hk
  cases hk

/-- The keys of the writer that its reader holds after a token. -/
def Token.known (known : List Key) : Token → List Key
  | .send k => k :: known
  | .dh _ _ => known

/-- The reader of a token holds the writer's key that is in it, if any. -/
def Token.Readable (initiator : Bool) (known : List Key) : Token → Bool
  | .send _ => true
  | .dh i r => (if initiator then i else r) ∈ known

/-- The reader of a pattern holds each key by the time it is needed. -/
def Readable (initiator : Bool) : List Key → List Token → Bool
  | _, [] => true
  | known, t :: ts => t.Readable initiator known && Readable initiator (t.known known) ts

/-- The token `e`: the reader takes the public key that the writer has generated. -/
theorem Mirror.sendE (hS : S.Sound A B) {a b : HandshakeState} (h : Mirror A B a b)
    {fresh : KeyPair} (hf : A fresh) (rest : Bytes) :
    ∃ b', b.readToken S (fresh.pub ++ rest) (.send .e) = some (b', rest) ∧
      Mirror A B { a with e := some fresh, symmetric := a.symmetric.mixHash S fresh.pub } b' ∧
      ∀ k, b'.remote k = if k = .e then some fresh.pub else b.remote k := by
  have hlen : fresh.pub.length = S.dhLen := hS.pub_length fresh (Or.inl hf)
  refine ⟨{ b with re := some fresh.pub, symmetric := a.symmetric.mixHash S fresh.pub }, ?_, ?_, ?_⟩
  · have hfits : S.dhLen ≤ (fresh.pub ++ rest).length := by
      rw [List.length_append]
      omega
    rw [HandshakeState.readToken_e hfits, List.take_left' hlen, List.drop_left' hlen, h.symmetric]
  · refine ⟨rfl, h.role, h.patterns, h.held, ?_, ?_, h.owns'⟩
    · intro k pub hk
      cases k with
      | e => exact ⟨fresh, rfl, Option.some.inj hk⟩
      | s => exact h.held' .s pub hk
    · intro k p hp
      cases k with
      | e =>
        obtain rfl : fresh = p := Option.some.inj hp
        exact hf
      | s => exact h.owns .s p hp
  · intro k
    cases k <;> rfl

/-- The token `s`: the reader takes the public key out of its ciphertext. -/
theorem Mirror.sendS (hS : S.Sound A B) {a b : HandshakeState} (h : Mirror A B a b) {p : KeyPair}
    (hp : a.s = some p) (rest : Bytes) :
    ∃ b', b.readToken S ((a.symmetric.encryptAndHash S p.pub).2 ++ rest) (.send .s) = some (b', rest) ∧
      Mirror A B { a with symmetric := (a.symmetric.encryptAndHash S p.pub).1 } b' ∧
      ∀ k, b'.remote k = if k = .s then some p.pub else b.remote k := by
  have hlen : (a.symmetric.encryptAndHash S p.pub).2.length =
      if a.symmetric.cipher.k.isSome then S.dhLen + 16 else S.dhLen := by
    rw [hS.encryptAndHash_length, hS.pub_length p (Or.inl (h.owns .s p hp))]
  refine ⟨{ b with rs := some p.pub, symmetric := (a.symmetric.encryptAndHash S p.pub).1 }, ?_, ?_, ?_⟩
  · have hfits : (a.symmetric.encryptAndHash S p.pub).2.length ≤
        ((a.symmetric.encryptAndHash S p.pub).2 ++ rest).length := by
      rw [List.length_append]
      exact Nat.le_add_right _ _
    rw [HandshakeState.readToken_s _ (by rw [h.symmetric]; exact hlen.symm) hfits, List.take_left,
      List.drop_left, h.symmetric, hS.decryptAndHash]
    rfl
  · refine ⟨rfl, h.role, h.patterns, h.held, ?_, h.owns, h.owns'⟩
    intro k pub hk
    cases k with
    | e => exact h.held' .e pub hk
    | s => exact ⟨p, hp, Option.some.inj hk⟩
  · intro k
    cases k <;> rfl

/-- A token that is written is read back, and leaves the parties in step. -/
theorem Mirror.token (hS : S.Sound A B) {a b a' : HandshakeState} (h : Mirror A B a b)
    {fresh : KeyPair} (hf : A fresh) {known : List Key} (hk : b.Knows known) {t : Token}
    (hc : t.Readable a.initiator known) {out : Bytes}
    (ha : a.writeToken S fresh t = some (a', out)) (rest : Bytes) :
    ∃ b', b.readToken S (out ++ rest) t = some (b', rest) ∧ Mirror A B a' b' ∧
      b'.Knows (t.known known) := by
  cases t with
  | send k =>
    -- the key that comes with the token is known from now on
    have hknown : ∀ {b' : HandshakeState} {pub : Bytes},
        (∀ k', b'.remote k' = if k' = k then some pub else b.remote k') → b'.Knows (k :: known) := by
      intro b' pub hb' k' hk'
      rw [hb']
      split
      · rfl
      · exact hk k' ((List.mem_cons.mp hk').resolve_left ‹_›)
    cases k with
    | e =>
      obtain ⟨rfl, rfl⟩ := Prod.mk.inj (Option.some.inj ha)
      obtain ⟨b', hread, hm, hb'⟩ := h.sendE hS hf rest
      exact ⟨b', hread, hm, hknown hb'⟩
    | s =>
      obtain ⟨p, hp, heq⟩ := Option.map_eq_some_iff.mp ha
      obtain ⟨rfl, rfl⟩ := Prod.mk.inj heq
      obtain ⟨b', hread, hm, hb'⟩ := h.sendS hS hp rest
      exact ⟨b', hread, hm, hknown hb'⟩
  | dh i r =>
    obtain ⟨a₁, ha₁, heq⟩ := Option.map_eq_some_iff.mp ha
    obtain ⟨rfl, rfl⟩ := Prod.mk.inj heq
    obtain ⟨b', hb', hm, hremote⟩ := h.mixDh hS (hk _ (by simpa [Token.Readable] using hc)) ha₁
    refine ⟨b', ?_, hm, ?_⟩
    · rw [HandshakeState.readToken, hb']
      rfl
    · intro k hk'
      rw [hremote]
      exact hk k hk'

/-- A token leaves the role and the patterns of the writer alone. -/
theorem writeToken_role {a a' : HandshakeState} {fresh : KeyPair} {t : Token} {out : Bytes}
    (ha : a.writeToken S fresh t = some (a', out)) :
    a'.initiator = a.initiator ∧ a'.messagePatterns = a.messagePatterns := by
  cases t with
  | send k =>
    cases k with
    | e =>
      obtain ⟨rfl, -⟩ := Prod.mk.inj (Option.some.inj ha)
      exact ⟨rfl, rfl⟩
    | s =>
      obtain ⟨p, -, heq⟩ := Option.map_eq_some_iff.mp ha
      obtain ⟨rfl, -⟩ := Prod.mk.inj heq
      exact ⟨rfl, rfl⟩
  | dh i r =>
    obtain ⟨a₁, ha₁, heq⟩ := Option.map_eq_some_iff.mp ha
    obtain ⟨rfl, -⟩ := Prod.mk.inj heq
    obtain ⟨-, -, rfl⟩ := Option.map_eq_some_iff.mp ha₁
    exact ⟨rfl, rfl⟩

/-- The tokens of a pattern, by induction on them. -/
theorem Mirror.tokens (hS : S.Sound A B) {fresh : KeyPair} (hf : A fresh) (ts : List Token) :
    ∀ {a b a' : HandshakeState} {known : List Key} {out : Bytes}, Mirror A B a b → b.Knows known →
      Readable a.initiator known ts → a.writeTokens S fresh ts = some (a', out) → ∀ rest,
      ∃ b', b.readTokens S (out ++ rest) ts = some (b', rest) ∧ Mirror A B a' b' := by
  induction ts with
  | nil =>
    intro a b a' known out h _ _ ha rest
    obtain ⟨rfl, rfl⟩ := Prod.mk.inj (Option.some.inj ha)
    exact ⟨b, rfl, h⟩
  | cons t ts ih =>
    intro a b a' known out h hk hc ha rest
    obtain ⟨⟨a₁, out₁⟩, ha₁, ha⟩ := Option.bind_eq_some_iff.mp ha
    obtain ⟨⟨a₂, out₂⟩, ha₂, heq⟩ := Option.map_eq_some_iff.mp ha
    obtain ⟨rfl, rfl⟩ := Prod.mk.inj heq
    simp only [Readable, Bool.and_eq_true] at hc
    obtain ⟨b₁, hb₁, h₁, hk₁⟩ := h.token hS hf hk hc.1 ha₁ (out₂ ++ rest)
    obtain ⟨b₂, hb₂, h₂⟩ := ih h₁ hk₁ (by rw [(writeToken_role ha₁).1]; exact hc.2) ha₂ rest
    refine ⟨b₂, ?_, h₂⟩
    rw [List.append_assoc, HandshakeState.readTokens, hb₁]
    exact hb₂

/-- RULE: what one party writes, a party that mirrors it reads, payload included, and the two mirror
    each other afterwards. -/
theorem Mirror.message (hS : S.Sound A B) {a b a' : HandshakeState} (h : Mirror A B a b)
    {fresh : KeyPair} (hf : A fresh) {known : List Key} (hk : b.Knows known)
    {pattern : List Token} {patterns : List (List Token)}
    (hp : a.messagePatterns = pattern :: patterns) (hc : Readable a.initiator known pattern)
    {payload m : Bytes} (ha : a.writeMessage S fresh payload = some (a', m)) :
    ∃ b', b.readMessage S m = some (b', payload) ∧ Mirror A B a' b' := by
  rw [HandshakeState.writeMessage, hp] at ha
  obtain ⟨⟨a₁, out⟩, ha₁, heq⟩ := Option.map_eq_some_iff.mp ha
  obtain ⟨rfl, rfl⟩ := Prod.mk.inj heq
  obtain ⟨b₁, hb₁, h₁⟩ := Mirror.tokens hS hf pattern h hk hc ha₁
    (a₁.symmetric.encryptAndHash S payload).2
  refine ⟨{ b₁ with symmetric := (a₁.symmetric.encryptAndHash S payload).1, messagePatterns := patterns },
    ?_, ⟨rfl, h₁.role, rfl, h₁.held, h₁.held', h₁.owns, h₁.owns'⟩⟩
  rw [HandshakeState.readMessage, h.patterns, hp]
  have hpayload := hS.decryptAndHash a₁.symmetric payload
  rw [← congrArg (SymmetricState.decryptAndHash S · _) h₁.symmetric] at hpayload
  exact Option.bind_eq_some_iff.mpr ⟨_, hb₁, Option.map_eq_some_iff.mpr ⟨_, hpayload, rfl⟩⟩

/-- Mirrored parties split the same two CipherStates. -/
theorem Mirror.transport {a b : HandshakeState} (h : Mirror A B a b) :
    b.transport S = a.transport S := by
  rw [HandshakeState.transport, HandshakeState.transport, h.patterns, h.symmetric]

end Noise
