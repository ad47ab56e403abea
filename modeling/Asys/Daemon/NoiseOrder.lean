import Asys.Core.Transport
import Asys.Daemon.Gates
import Asys.Lib.Runs

/-! # The calls of noise_ik.h in any order

    A `NoiseIKState` has a role and a flag for the end of the handshake, and nothing for the phases
    in between: `noise_ik_write_msg2` looks at the role only. `NoiseHistory` keeps beside the state
    what the last `noise_ik_read_msg1` returned. -/

namespace Asys
open Runs

inductive NoiseRet where | ok | errAuth | errParam | errState
  deriving DecidableEq, Repr

def NoiseRc.ret : NoiseRc → NoiseRet
  | .ok => .ok
  | .errAuth => .errAuth
  | .errState => .errState

/-- A call on one state. A pointer to an input is `none` when it is NULL, a pointer to an output is
    there or not. `agent_static_pub_out` changes neither the state nor what is returned. -/
inductive NoiseCall where
  | initServer (sPriv sPub : Option (List UInt8))
  | readMsg1 (msg1 : Option (List UInt8))
  | writeMsg2 (urandom : Option (List UInt8)) (msg2Out : Bool)
  | initClient (sPriv sPub rsPub : Option (List UInt8))
  | writeMsg1 (urandom : Option (List UInt8)) (msg1Out : Bool)
  | readMsg2 (msg2 : Option (List UInt8))
  | encrypt (plaintext : List UInt8) (ciphertextOut : Bool)
  | decrypt (ciphertext : Option (List UInt8)) (plaintextOut : Bool)
  | wipe

/-- The state after the call, and what the call returns. -/
def noiseIkCall (mc : Monocypher) (st : NoiseIKState) : NoiseCall → NoiseIKState × NoiseRet
  | .initServer (some sPriv) (some sPub) => (noiseIkInitServer mc sPriv sPub, .ok)
  | .initServer _ _ => (st, .errParam)
  | .readMsg1 (some msg1) =>
    let r := noiseIkReadMsg1 mc st msg1
    (r.st, r.rc.ret)
  | .readMsg1 none => (st, .errParam)
  | .writeMsg2 urandom true =>
    match noiseIkWriteMsg2 mc urandom st with
    | some (st', _) => (st', .ok)
    | none => (st, .errState)
  | .writeMsg2 _ false => (st, .errParam)
  | .initClient (some sPriv) (some sPub) (some rsPub) =>
    (noiseIkInitClient mc sPriv sPub rsPub, .ok)
  | .initClient _ _ _ => (st, .errParam)
  | .writeMsg1 urandom true =>
    match noiseIkWriteMsg1 mc urandom st with
    | some (st', _) => (st', .ok)
    | none => (st, .errState)
  | .writeMsg1 _ false => (st, .errParam)
  | .readMsg2 (some msg2) =>
    let r := noiseIkReadMsg2 mc st msg2
    (r.st, r.rc.ret)
  | .readMsg2 none => (st, .errParam)
  | .encrypt plaintext true =>
    let r := noiseIkEncryptCall mc st plaintext
    (r.st, r.rc.ret)
  | .encrypt _ false => (st, .errParam)
  | .decrypt (some ciphertext) true =>
    let r := noiseIkDecryptCall mc st ciphertext
    (r.st, r.rc.ret)
  | .decrypt _ _ => (st, .errParam)
  | .wipe => (noiseIkWiped, .ok)

/-- The state and what has been called on it. `byServer`: the last call that initialised it was
    `noise_ik_init_server`. `lastRead`: what the last `noise_ik_read_msg1` since then returned.
    `keysAfter`: what `lastRead` was when the transport keys were derived. -/
structure NoiseHistory where
  st : NoiseIKState
  byServer : Bool
  lastRead : Option NoiseRet
  keysAfter : Option NoiseRet

def noiseHistoryStart (mc : Monocypher) (sPriv sPub : List UInt8) : NoiseHistory :=
  ⟨noiseIkInitServer mc sPriv sPub, true, none, none⟩

def noiseHistoryStep (mc : Monocypher) (r : NoiseHistory) (c : NoiseCall) : NoiseHistory :=
  let (st, rc) := noiseIkCall mc r.st c
  match c with
  | .initServer _ _ => if rc = .ok then ⟨st, true, none, none⟩ else r
  | .initClient _ _ _ => if rc = .ok then ⟨st, false, none, none⟩ else r
  | .readMsg1 _ => { r with st := st, lastRead := some rc }
  | .writeMsg2 _ _ => { r with st := st, keysAfter := if rc = .ok then r.lastRead else r.keysAfter }
  | .readMsg2 _ => { r with st := st, keysAfter := if rc = .ok then r.lastRead else r.keysAfter }
  | _ => { r with st := st }

/-- On a state that `noise_ik_init_server` initialised the transport keys come after a msg1 that was
    accepted. -/
def KeysAfterMsg1 (r : NoiseHistory) : Prop :=
  r.byServer = true → r.st.handshakeDone = true → r.keysAfter = some .ok

/-- A `noise_ik_write_msg2` before msg1, or after one that was refused, returns an error (a NULL
    buffer is seen first) and leaves the keys of the transport and their flag alone. -/
def Msg2Refused (mc : Monocypher) (r : NoiseHistory) (c : NoiseCall) : Prop :=
  ∀ urandom msg2Out, c = .writeMsg2 urandom msg2Out → r.byServer = true → r.lastRead ≠ some .ok →
    (noiseIkCall mc r.st c).2 = (if msg2Out then .errState else .errParam) ∧
      SameKeys r.st (noiseIkCall mc r.st c).1

/-- The MAC of msg2 is right under the key that its ephemeral key gives in this state. -/
def Msg2Authentic (mc : Monocypher) (st : NoiseIKState) (msg2 : List UInt8) : Prop :=
  let re := msg2.take noiseKeySize
  let ck := (mixKey mc st.ck (mc.x25519 st.ePriv re)).1
  let k := (mixKey mc ck (mc.x25519 st.sPriv re)).2
  (decryptAndHash mc (mixHash mc st.h re) k
    ((msg2.drop noiseKeySize).take noiseMacSize)).2.isSome = true

/-- The calls that derive transport keys: msg2 written to a buffer by a server, and an authentic msg2
    read by whoever is not a server, as a wiped state is not. -/
def DerivesKeys (mc : Monocypher) (st : NoiseIKState) : NoiseCall → Prop
  | .writeMsg2 _ true => st.isServer = true
  | .readMsg2 (some msg2) => st.isServer = false ∧ Msg2Authentic mc st msg2
  | _ => False

/-- The usage order of the header for a server's state: keys are derived only right after the last
    `noise_ik_read_msg1` returned `NOISE_OK`. -/
def UsageOrder (mc : Monocypher) (r : NoiseHistory) (c : NoiseCall) : Prop :=
  r.byServer = true → DerivesKeys mc r.st c → r.lastRead = some .ok

/-! ### One call -/

variable {mc : Monocypher}

/-- The role is all that `noise_ik_write_msg2` checks. -/
theorem noiseIkWriteMsg2_isSome (mc : Monocypher) (urandom : Option (List UInt8))
    {st : NoiseIKState} (h : st.isServer = true) : (noiseIkWriteMsg2 mc urandom st).isSome := by
  simp [noiseIkWriteMsg2, h]

theorem noiseIkReadMsg2_ok_iff {st : NoiseIKState} {msg2 : List UInt8} :
    (noiseIkReadMsg2 mc st msg2).rc = .ok ↔ st.isServer = false ∧ Msg2Authentic mc st msg2 := by
  by_cases hst : st.isServer = true
  · simp [noiseIkReadMsg2, hst]
  rw [noiseIkReadMsg2, if_neg hst, Msg2Authentic]
  dsimp only
  split <;> rename_i heq <;> simp [heq, hst]

theorem NoiseRc.ret_ok_iff {rc : NoiseRc} : rc.ret = .ok ↔ rc = .ok := by
  cases rc <;> simp [NoiseRc.ret]

theorem noiseIkCall_writeMsg2 (mc : Monocypher) {st : NoiseIKState}
    (urandom : Option (List UInt8)) (h : st.isServer = true) :
    (noiseIkCall mc st (.writeMsg2 urandom true)).2 = .ok ∧
      TransportOpen (noiseIkCall mc st (.writeMsg2 urandom true)).1 := by
  obtain ⟨⟨st', msg2⟩, hw⟩ := Option.isSome_iff_exists.mp (noiseIkWriteMsg2_isSome mc urandom h)
  simp only [noiseIkCall, hw]
  exact ⟨trivial, noiseIkWriteMsg2_opens hw⟩

theorem noiseIkCall_writeMsg2_client (mc : Monocypher) {st : NoiseIKState}
    (urandom : Option (List UInt8)) (h : st.isServer = false) :
    noiseIkCall mc st (.writeMsg2 urandom true) = (st, .errState) := by
  simp [noiseIkCall, noiseIkWriteMsg2, h]

/-- A frame is encrypted when the handshake is done, whatever came before. -/
theorem noiseIkCall_encrypt_ok {st : NoiseIKState} (plaintext : List UInt8) :
    (noiseIkCall mc st (.encrypt plaintext true)).2 = .ok ↔ st.handshakeDone = true := by
  cases h : st.handshakeDone <;> simp [noiseIkCall, noiseIkEncryptCall, NoiseRc.ret, h]

/-- The calls of the transport change nothing but the nonces. -/
theorem noiseIkEncryptCall_keeps (mc : Monocypher) (st : NoiseIKState) (plaintext : List UInt8) :
    SameKeys st (noiseIkEncryptCall mc st plaintext).st := by
  rw [noiseIkEncryptCall]
  split
  · exact SameKeys.refl st
  · exact ⟨rfl, rfl, rfl⟩

theorem noiseIkDecryptCall_keeps (mc : Monocypher) (st : NoiseIKState) (ciphertext : List UInt8) :
    SameKeys st (noiseIkDecryptCall mc st ciphertext).st := by
  rw [noiseIkDecryptCall]
  split
  · exact SameKeys.refl st
  split
  · exact SameKeys.refl st
  · dsimp only
    split
    · exact SameKeys.refl st
    · exact ⟨rfl, rfl, rfl⟩

/-- What a call does to the flag: it starts over, derives keys, or leaves the transport alone. -/
inductive NoiseEffect (mc : Monocypher) (r : NoiseHistory) (c : NoiseCall) (r' : NoiseHistory) :
    Prop where
  | fresh (done : r'.st.handshakeDone = false) (none : ¬ DerivesKeys mc r.st c)
  | derived (derives : DerivesKeys mc r.st c) (done : r'.st.handshakeDone = true)
      (keysAfter : r'.keysAfter = r.lastRead) (byServer : r'.byServer = r.byServer)
  | kept (none : ¬ DerivesKeys mc r.st c) (same : SameKeys r.st r'.st)
      (keysAfter : r'.keysAfter = r.keysAfter) (byServer : r'.byServer = r.byServer)

/-- A call with a NULL pointer leaves everything alone. -/
theorem noiseEffect_null {r : NoiseHistory} {c : NoiseCall} (hcall : noiseHistoryStep mc r c = r)
    (hnone : ¬ DerivesKeys mc r.st c) : NoiseEffect mc r c (noiseHistoryStep mc r c) := by
  rw [hcall]
  exact .kept hnone (SameKeys.refl _) rfl rfl

theorem noiseEffect_writeMsg2 (r : NoiseHistory) (urandom : Option (List UInt8)) :
    NoiseEffect mc r (.writeMsg2 urandom true) (noiseHistoryStep mc r (.writeMsg2 urandom true)) := by
  cases hst : r.st.isServer with
  | true =>
    obtain ⟨hrc, hopen⟩ := noiseIkCall_writeMsg2 mc urandom hst
    exact .derived hst hopen.done (if_pos hrc) rfl
  | false =>
    have hcall := noiseIkCall_writeMsg2_client mc urandom hst
    refine noiseEffect_null ?_ ?_
    · simp [noiseHistoryStep, hcall]
    · simp [DerivesKeys, hst]

theorem noiseEffect_writeMsg1 (r : NoiseHistory) (urandom : Option (List UInt8)) :
    NoiseEffect mc r (.writeMsg1 urandom true) (noiseHistoryStep mc r (.writeMsg1 urandom true)) := by
  cases hw : noiseIkWriteMsg1 mc urandom r.st with
  | none => exact noiseEffect_null (by simp [noiseHistoryStep, noiseIkCall, hw]) id
  | some out =>
    refine .kept id ?_ rfl rfl
    simp only [noiseHistoryStep, noiseIkCall, hw]
    exact (noiseIkWriteMsg1_keeps hw).1

/-- msg2 derives keys when it is accepted, and does not touch them when it is refused. -/
theorem noiseEffect_readMsg2 (r : NoiseHistory) (msg2 : List UInt8) :
    NoiseEffect mc r (.readMsg2 (some msg2)) (noiseHistoryStep mc r (.readMsg2 (some msg2))) := by
  by_cases hrc : (noiseIkReadMsg2 mc r.st msg2).rc = .ok
  · exact .derived (noiseIkReadMsg2_ok_iff.mp hrc) (noiseIkReadMsg2_opens hrc).done
      (if_pos (NoiseRc.ret_ok_iff.mpr hrc)) rfl
  · exact .kept (fun h => hrc (noiseIkReadMsg2_ok_iff.mpr h)) (noiseIkReadMsg2_keeps hrc)
      (if_neg fun h => hrc (NoiseRc.ret_ok_iff.mp h)) rfl

/-- STEP: each call has one of the three effects. -/
theorem noiseHistoryStep_effect (mc : Monocypher) (r : NoiseHistory) (c : NoiseCall) :
    NoiseEffect mc r c (noiseHistoryStep mc r c) := by
  cases c with
  | initServer sPriv sPub =>
    rcases sPriv with _ | sPriv
    · exact noiseEffect_null rfl id
    rcases sPub with _ | sPub
    · exact noiseEffect_null rfl id
    · exact .fresh rfl id
  | readMsg1 msg1 =>
    cases msg1 with
    | none => exact .kept id (SameKeys.refl _) rfl rfl
    | some msg1 => exact .kept id (noiseIkReadMsg1_keeps mc r.st msg1).1 rfl rfl
  | writeMsg2 urandom msg2Out =>
    cases msg2Out with
    | false => exact noiseEffect_null rfl id
    | true => exact noiseEffect_writeMsg2 r urandom
  | initClient sPriv sPub rsPub =>
    rcases sPriv with _ | sPriv
    · exact noiseEffect_null rfl id
    rcases sPub with _ | sPub
    · exact noiseEffect_null rfl id
    rcases rsPub with _ | rsPub
    · exact noiseEffect_null rfl id
    · exact .fresh rfl id
  | writeMsg1 urandom msg1Out =>
    cases msg1Out with
    | false => exact noiseEffect_null rfl id
    | true => exact noiseEffect_writeMsg1 r urandom
  | readMsg2 msg2 =>
    cases msg2 with
    | none => exact noiseEffect_null rfl id
    | some msg2 => exact noiseEffect_readMsg2 r msg2
  | encrypt plaintext ciphertextOut =>
    cases ciphertextOut with
    | false => exact noiseEffect_null rfl id
    | true => exact .kept id (noiseIkEncryptCall_keeps mc r.st plaintext) rfl rfl
  | decrypt ciphertext plaintextOut =>
    rcases ciphertext with _ | ciphertext
    · exact noiseEffect_null rfl id
    cases plaintextOut with
    | false => exact noiseEffect_null rfl id
    | true => exact .kept id (noiseIkDecryptCall_keeps mc r.st ciphertext) rfl rfl
  | wipe => exact .fresh rfl id

/-! ### Runs -/

theorem keysAfterMsg1_start (mc : Monocypher) (sPriv sPub : List UInt8) :
    KeysAfterMsg1 (noiseHistoryStart mc sPriv sPub) := by
  intro _ hdone
  cases hdone

/-- STEP: a call in the usage order keeps the property. -/
theorem keysAfterMsg1_step {r : NoiseHistory} {c : NoiseCall} (h : KeysAfterMsg1 r)
    (hc : UsageOrder mc r c) : KeysAfterMsg1 (noiseHistoryStep mc r c) := by
  intro hserver hdone
  cases noiseHistoryStep_effect mc r c with
  | fresh done none => simp [done] at hdone
  | derived derives done keysAfter byServer =>
    rw [keysAfter]
    exact hc (byServer ▸ hserver) derives
  | kept none same keysAfter byServer =>
    rw [keysAfter]
    exact h (byServer ▸ hserver) (same.done ▸ hdone)

/-- STEP: a call out of the order loses it at once. -/
theorem keysAfterMsg1_breaks {r : NoiseHistory} {c : NoiseCall} (hc : ¬ UsageOrder mc r c) :
    ¬ KeysAfterMsg1 (noiseHistoryStep mc r c) := by
  simp only [UsageOrder, Classical.not_imp] at hc
  obtain ⟨hserver, hderives, hread⟩ := hc
  intro h
  cases noiseHistoryStep_effect mc r c with
  | fresh done none => exact none hderives
  | derived derives done keysAfter byServer =>
    exact hread (keysAfter ▸ h (byServer.trans hserver) done)
  | kept none same keysAfter byServer => exact none hderives

/-- In the usage order a `noise_ik_write_msg2` that comes too early finds a state that is no
    server's. -/
theorem msg2Refused_of_order {r : NoiseHistory} {c : NoiseCall} (hc : UsageOrder mc r c) :
    Msg2Refused mc r c := by
  rintro urandom msg2Out rfl hserver hread
  cases msg2Out with
  | false => exact ⟨rfl, SameKeys.refl _⟩
  | true =>
    have hst : r.st.isServer = false := by
      rw [← Bool.not_eq_true]
      exact fun hst => hread (hc hserver hst)
    rw [noiseIkCall_writeMsg2_client mc urandom hst]
    exact ⟨rfl, SameKeys.refl _⟩

/-- CORRECT (exact): over every sequence of calls the handshake is done only after a msg1 that was
    accepted, and an early `noise_ik_write_msg2` is refused, exactly when the calls that derive keys
    come in the usage order. -/
theorem handshakeDone_iff_usageOrder (mc : Monocypher) (sPriv sPub : List UInt8)
    (calls : List NoiseCall) :
    (StatesMeet (always (noiseHistoryStep mc)) KeysAfterMsg1 (noiseHistoryStart mc sPriv sPub) calls ∧
      StepsMeet (always (noiseHistoryStep mc)) (Msg2Refused mc) (noiseHistoryStart mc sPriv sPub)
        calls) ↔
      StepsMeet (always (noiseHistoryStep mc)) (UsageOrder mc) (noiseHistoryStart mc sPriv sPub)
        calls := by
  have hiff := states_iff_steps (P := KeysAfterMsg1) (C := UsageOrder mc)
    (I := KeysAfterMsg1) (keysAfterMsg1_start mc sPriv sPub)
    (fun s c s' hI hC hs => Option.some.inj hs ▸ keysAfterMsg1_step hI hC) (fun _ h => h)
    (fun s c s' _ hC hs => Option.some.inj hs ▸ keysAfterMsg1_breaks hC)
    (run_always (noiseHistoryStep mc) (noiseHistoryStart mc sPriv sPub) calls)
  constructor
  · exact fun h => hiff.mp h.1
  · intro hC
    refine ⟨hiff.mpr hC, ?_⟩
    intro pre c post s hsplit hrun
    exact msg2Refused_of_order (hC pre c post s hsplit hrun)

/-- `noise_ik_write_msg2` right after `noise_ik_init_server`: it succeeds, the handshake is done
    without any msg1, and `noise_ik_encrypt` works from then on. -/
theorem writeMsg2_without_msg1 :
    let r := noiseHistoryStart monocypher (List.replicate 32 0x11) (List.replicate 32 0x22)
    let c := NoiseCall.writeMsg2 (some (List.replicate 32 0x44)) true
    let r' := noiseHistoryStep monocypher r c
    (noiseIkCall monocypher r.st c).2 = .ok ∧ r'.st.handshakeDone = true ∧ r'.lastRead = none ∧
      (noiseIkCall monocypher r'.st (.encrypt [0x90, 0x00] true)).2 = .ok ∧
      ¬ StatesMeet (always (noiseHistoryStep monocypher)) KeysAfterMsg1 r [c] ∧
      ¬ StepsMeet (always (noiseHistoryStep monocypher)) (Msg2Refused monocypher) r [c] := by
  intro r c r'
  have hst : r.st.isServer = true := rfl
  obtain ⟨hrc, hopen⟩ := noiseIkCall_writeMsg2 monocypher (some (List.replicate 32 0x44)) hst
  refine ⟨hrc, hopen.done, rfl, (noiseIkCall_encrypt_ok _).mpr hopen.done, ?_, ?_⟩
  · intro h
    refine keysAfterMsg1_breaks (fun hc => ?_) (h [c] [] r' rfl rfl)
    exact nomatch hc rfl hst
  · intro h
    have hrefused := ((stepsMeet_always_cons.mp h).1 _ _ rfl rfl nofun).1
    rw [show (noiseIkCall monocypher r.st c).2 = .ok from hrc] at hrefused
    cases hrefused

/-- In the usage order a frame is encrypted on a server's state only under keys that come after an
    accepted msg1. -/
theorem encrypt_after_msg1 {sPriv sPub p : List UInt8} {calls : List NoiseCall}
    (hC : StepsMeet (always (noiseHistoryStep mc)) (UsageOrder mc) (noiseHistoryStart mc sPriv sPub)
      calls)
    (hserver : (calls.foldl (noiseHistoryStep mc) (noiseHistoryStart mc sPriv sPub)).byServer = true)
    (hrc : (noiseIkCall mc (calls.foldl (noiseHistoryStep mc) (noiseHistoryStart mc sPriv sPub)).st
      (.encrypt p true)).2 = .ok) :
    (calls.foldl (noiseHistoryStep mc) (noiseHistoryStart mc sPriv sPub)).keysAfter = some .ok := by
  have hkeys : KeysAfterMsg1 (calls.foldl (noiseHistoryStep mc) (noiseHistoryStart mc sPriv sPub)) :=
    inv_of_steps (keysAfterMsg1_start mc sPriv sPub)
      (fun _ _ _ hI hc hs => Option.some.inj hs ▸ keysAfterMsg1_step hI hc) hC (run_always _ _ _)
  exact hkeys hserver ((noiseIkCall_encrypt_ok p).mp hrc)

/-! ### The keys of a msg2 that is written too early, and the calls of the daemon -/

/-- Without msg1 both key agreements of msg2 are with the zero point: the transport keys come from the
    name of the protocol and from what `crypto_x25519` makes of that point, and from no static key. -/
theorem writeMsg2_unread_keys {urandom : Option (List UInt8)} {sPriv sPub msg2 : List UInt8}
    {st : NoiseIKState}
    (h : noiseIkWriteMsg2 mc urandom (noiseIkInitServer mc sPriv sPub) = some (st, msg2)) :
    (st.recvKey, st.sendKey) =
      split mc (mixKey mc (mixKey mc (initSymmetric mc) (mc.x25519 st.ePriv zeroKey)).1
        (mc.x25519 st.ePriv zeroKey)).1 := by
  simp only [noiseIkWriteMsg2, noiseIkInitServer, Bool.true_eq_false, if_false] at h
  obtain ⟨rfl, -⟩ := Prod.mk.inj (Option.some.inj h)
  rfl

/-- Calls that derive no keys come in any order. -/
theorem usageOrder_of_no_keys {r : NoiseHistory} {calls : List NoiseCall}
    (h : ∀ c ∈ calls, ∀ st, ¬ DerivesKeys mc st c) :
    StepsMeet (always (noiseHistoryStep mc)) (UsageOrder mc) r calls := by
  intro pre c post s hsplit _ _ hderives
  exact absurd hderives (h c (by simp [hsplit]) s.st)

/-- The calls of `handle_client`, msg1 and msg2 and then only frames, are in the usage order, and the
    first two make the state that its loop starts with. -/
theorem Handshake.Passed.usageOrder {keys : ServerKeys} {hs : Handshake} {noise : NoiseIKState}
    {frames : List NoiseCall} (h : hs.Passed mc keys noise)
    (hframes : ∀ c ∈ frames, ∀ st, ¬ DerivesKeys mc st c) :
    let r := noiseHistoryStart mc keys.priv keys.pub
    let handshake := [NoiseCall.readMsg1 (some hs.msg1), .writeMsg2 hs.urandom true]
    StepsMeet (always (noiseHistoryStep mc)) (UsageOrder mc) r (handshake ++ frames) ∧
      (handshake.foldl (noiseHistoryStep mc) r).st = noise := by
  intro r handshake
  obtain ⟨msg2, hmsg2⟩ := h.keys
  constructor
  · refine stepsMeet_always_cons.mpr ⟨fun _ hderives => hderives.elim, ?_⟩
    refine stepsMeet_always_cons.mpr ⟨fun _ _ => ?_, usageOrder_of_no_keys hframes⟩
    exact congrArg some (NoiseRc.ret_ok_iff.mpr h.msg1.2)
  · simp only [handshake, r, List.foldl, noiseHistoryStep, noiseHistoryStart, noiseIkCall, hmsg2]

end Asys
