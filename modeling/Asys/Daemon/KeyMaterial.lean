import Asys.Core.NoiseIk

/-! # Where keys come from: /dev/urandom and the two key files

    `noise_ik_generate_keypair` returns nothing, so its callers go on whatever it read. The node's
    own pair is kept in two files that `load_or_generate_keys` writes one after the other; they are
    read back without a look at whether they belong together. -/

namespace Asys

/-! ### The generator and its callers in a handshake -/

/-- The read gave 32 bytes. -/
def FullRead (urandom : Option (List UInt8)) : Prop :=
  ∃ bs, urandom = some bs ∧ noiseKeySize ≤ bs.length

/-- The key is the clamping of 32 bytes that were read. -/
def DrawnFrom (urandom : Option (List UInt8)) (key : List UInt8) : Prop :=
  ∃ bs, urandom = some bs ∧ noiseKeySize ≤ bs.length ∧ key = clampKey (bs.take noiseKeySize)

@[simp] theorem clampKey_length (key : List UInt8) : (clampKey key).length = key.length := by
  simp [clampKey]

/-- A full read leaves nothing of what the array held. -/
theorem overwrite_full {old read : List UInt8} (hold : old.length = noiseKeySize)
    (h : noiseKeySize ≤ read.length) :
    read.take noiseKeySize ++ old.drop (read.take noiseKeySize).length = read.take noiseKeySize := by
  rw [List.length_take_of_le h, List.drop_eq_nil_of_le (Nat.le_of_eq hold), List.append_nil]

theorem generated_drawn_iff (mc : Monocypher) (urandom : Option (List UInt8)) {old : List UInt8}
    (hold : old.length = noiseKeySize) :
    DrawnFrom urandom (noiseIkGenerateKeypair mc urandom old).1 ↔ FullRead urandom := by
  constructor
  · rintro ⟨bs, hbs, hlen, -⟩
    exact ⟨bs, hbs, hlen⟩
  · rintro ⟨bs, rfl, hlen⟩
    refine ⟨bs, rfl, hlen, ?_⟩
    show clampKey (bs.take noiseKeySize ++ old.drop (bs.take noiseKeySize).length) = _
    rw [overwrite_full hold hlen]

theorem noiseIkWriteMsg1_ePriv {mc : Monocypher} {urandom : Option (List UInt8)}
    {st st' : NoiseIKState} {msg1 : List UInt8}
    (h : noiseIkWriteMsg1 mc urandom st = some (st', msg1)) :
    st'.ePriv = (noiseIkGenerateKeypair mc urandom st.ePriv).1 := by
  simp only [noiseIkWriteMsg1] at h
  split at h
  · cases h
  · obtain ⟨rfl, -⟩ := Prod.mk.inj (Option.some.inj h)
    rfl

theorem noiseIkWriteMsg2_ePriv {mc : Monocypher} {urandom : Option (List UInt8)}
    {st st' : NoiseIKState} {msg2 : List UInt8}
    (h : noiseIkWriteMsg2 mc urandom st = some (st', msg2)) :
    st'.ePriv = (noiseIkGenerateKeypair mc urandom st.ePriv).1 := by
  simp only [noiseIkWriteMsg2] at h
  split at h
  · cases h
  · obtain ⟨rfl, -⟩ := Prod.mk.inj (Option.some.inj h)
    rfl

/-- The initiator does not stop for want of random bytes. -/
theorem noiseIkWriteMsg1_returns (mc : Monocypher) (urandom : Option (List UInt8))
    {st : NoiseIKState} (h : st.isServer = false) :
    ∃ st' msg1, noiseIkWriteMsg1 mc urandom st = some (st', msg1) := by
  simp only [noiseIkWriteMsg1]
  rw [if_neg (by simp [h])]
  exact ⟨_, _, rfl⟩

/-- CORRECT: without /dev/urandom all sessions that begin with a wiped state have one and the same
    ephemeral key, whoever connects. -/
theorem ephemeral_shared {mc : Monocypher} {sPriv sPub msg1 sPriv' sPub' msg1' m m' : List UInt8}
    {st st' : NoiseIKState}
    (h : noiseIkWriteMsg2 mc none (noiseIkReadMsg1 mc (noiseIkInitServer mc sPriv sPub) msg1).st =
      some (st, m))
    (h' : noiseIkWriteMsg2 mc none
      (noiseIkReadMsg1 mc (noiseIkInitServer mc sPriv' sPub') msg1').st = some (st', m')) :
    st.ePriv = st'.ePriv := by
  rw [noiseIkWriteMsg2_ePriv h, noiseIkWriteMsg2_ePriv h', (noiseIkReadMsg1_keeps mc _ msg1).2.2,
    (noiseIkReadMsg1_keeps mc _ msg1').2.2]
  rfl

/-! ### load_or_generate_keys -/

/-- A key array. -/
abbrev Key := { bs : List UInt8 // bs.length = noiseKeySize }

/-- An array after a read into it: the bytes read, then what it held. -/
def Key.fill (k : Key) (read : List UInt8) : Key :=
  ⟨read.take noiseKeySize ++ k.1.drop (read.take noiseKeySize).length, by
    have hk := k.2
    simp only [List.length_append, List.length_take, List.length_drop]
    omega⟩

theorem Key.fill_full {k : Key} {read : List UInt8} (h : read.length = noiseKeySize) :
    (k.fill read).1 = read := by
  show read.take noiseKeySize ++ k.1.drop (read.take noiseKeySize).length = read
  rw [overwrite_full k.2 (Nat.le_of_eq h.symm), List.take_of_length_le (Nat.le_of_eq h)]

/-- id_curve25519 and id_curve25519.pub, `none` for a missing file. -/
structure KeyFiles where
  priv : Option (List UInt8)
  pub : Option (List UInt8)

/-- `g_server_priv` and `g_server_pub`. -/
structure NodeKeys where
  priv : Key
  pub : Key

/-- The operations that change a key file. -/
inductive KeyFileOp
  | truncPriv
  | writePriv (bs : List UInt8)
  | truncPub
  | writePub (bs : List UInt8)

def KeyFileOp.apply (files : KeyFiles) : KeyFileOp → KeyFiles
  | .truncPriv => { files with priv := some [] }
  | .writePriv bs => { files with priv := some bs }
  | .truncPub => { files with pub := some [] }
  | .writePub bs => { files with pub := some bs }

/-- What the system does with one of the files: whether it opens for reading, how many bytes
    `fread` delivers at most, whether it opens for writing, and how many bytes `write` takes. -/
structure FileCalls where
  opens : Bool
  delivers : ℕ
  opensWrite : Bool
  takes : ℕ

structure KeyCalls where
  access : Bool
  priv : FileCalls
  pub : FileCalls
  urandom : Option (List UInt8)

/-- `fopen` and `fread`. -/
def FileCalls.read (c : FileCalls) (file : Option (List UInt8)) : Option (List UInt8) :=
  if c.opens then file.map fun bs => (bs.take noiseKeySize).take c.delivers else none

/-- What a run leaves: its return code (0 as `true`), the globals, and the operations on the files
    in their order. -/
structure KeyRun where
  rc : Bool
  keys : NodeKeys
  ops : List KeyFileOp

/-- "Try to load both key files": whether the pair was loaded, and the globals. -/
def readKeys (c : KeyCalls) (files : KeyFiles) (keys : NodeKeys) : Bool × NodeKeys :=
  match c.priv.read files.priv, c.pub.read files.pub with
  | some rp, some rq =>
    (rp.length = noiseKeySize ∧ rq.length = noiseKeySize, ⟨keys.priv.fill rp, keys.pub.fill rq⟩)
  | _, _ => (false, keys)

def generateKeypair (mc : Monocypher) (urandom : Option (List UInt8)) (old : Key) : NodeKeys where
  priv := ⟨(noiseIkGenerateKeypair mc urandom old.1).1, by
    have hfill := (old.fill (urandom.getD [])).2
    rw [noiseIkGenerateKeypair, clampKey_length]
    exact hfill⟩
  pub := ⟨(noiseIkGenerateKeypair mc urandom old.1).2, mc.publicKey_length _⟩

/-- "Generate fresh key pair", and the two files. -/
def generateKeys (mc : Monocypher) (c : KeyCalls) (keys : NodeKeys) : KeyRun :=
  let keys := generateKeypair mc c.urandom keys.priv
  if c.priv.opensWrite = false then ⟨false, keys, []⟩
  else
    let ops := [.truncPriv, .writePriv (keys.priv.1.take c.priv.takes)]
    if c.priv.takes < noiseKeySize then ⟨false, keys, ops⟩
    else if c.pub.opensWrite = false then ⟨false, keys, ops⟩
    else
      let ops := ops ++ [.truncPub, .writePub (keys.pub.1.take c.pub.takes)]
      if c.pub.takes < noiseKeySize then ⟨false, keys, ops⟩ else ⟨true, keys, ops⟩

def loadOrGenerateKeys (mc : Monocypher) (c : KeyCalls) (files : KeyFiles) (keys : NodeKeys) :
    KeyRun :=
  if c.access = false then ⟨false, keys, []⟩
  else
    let (loaded, keys) := readKeys c files keys
    if loaded then ⟨true, keys, []⟩ else generateKeys mc c keys

/-- The files after the first `n` operations of a run: all of them, or a run that was cut off. -/
def filesAfter (files : KeyFiles) (ops : List KeyFileOp) (n : ℕ) : KeyFiles :=
  (ops.take n).foldl KeyFileOp.apply files

/-- The key that a file holds: its first 32 bytes, if it has as many. -/
def storedKey (file : Option (List UInt8)) : Option (List UInt8) :=
  file.bind fun bs => if noiseKeySize ≤ bs.length then some (bs.take noiseKeySize) else none

/-- Both files are there, open, and give 32 bytes: `priv` and `pub`. -/
structure PairRead (c : KeyCalls) (files : KeyFiles) (priv pub : List UInt8) : Prop where
  access : c.access = true
  priv_read : c.priv.read files.priv = some priv
  pub_read : c.pub.read files.pub = some pub
  priv_length : priv.length = noiseKeySize
  pub_length : pub.length = noiseKeySize

/-- No pair is read, and a new one is written without an error. -/
structure PairReplaced (c : KeyCalls) (files : KeyFiles) : Prop where
  access : c.access = true
  unread : ∀ priv pub, ¬ PairRead c files priv pub
  priv_opens : c.priv.opensWrite = true
  priv_taken : noiseKeySize ≤ c.priv.takes
  pub_opens : c.pub.opensWrite = true
  pub_taken : noiseKeySize ≤ c.pub.takes

theorem FileCalls.read_full {c : FileCalls} {file : Option (List UInt8)} {bs : List UInt8}
    (h : c.read file = some bs) (hlen : bs.length = noiseKeySize) : storedKey file = some bs := by
  simp only [FileCalls.read] at h
  split at h
  · obtain ⟨content, rfl, rfl⟩ := Option.map_eq_some_iff.mp h
    simp only [List.length_take] at hlen
    have hcontent : noiseKeySize ≤ content.length := by omega
    have htake : min c.delivers noiseKeySize = noiseKeySize := by omega
    rw [List.take_take, htake]
    simp [storedKey, hcontent]
  · cases h

theorem readKeys_iff {c : KeyCalls} {files : KeyFiles} {keys : NodeKeys}
    (ha : c.access = true) :
    (readKeys c files keys).1 = true ↔ ∃ priv pub, PairRead c files priv pub := by
  constructor
  · intro h
    simp only [readKeys] at h
    split at h
    · rename_i rp rq hp hq
      have hlen := of_decide_eq_true h
      exact ⟨rp, rq, ha, hp, hq, hlen.1, hlen.2⟩
    · cases h
  · rintro ⟨priv, pub, h⟩
    simp [readKeys, h.priv_read, h.pub_read, h.priv_length, h.pub_length]

/-- The new pair is in the globals however the writes end. -/
theorem generateKeys_keys (mc : Monocypher) (c : KeyCalls) (keys : NodeKeys) :
    (generateKeys mc c keys).keys = generateKeypair mc c.urandom keys.priv := by
  simp only [generateKeys]
  repeat' split
  all_goals rfl

theorem generateKeys_rc (mc : Monocypher) (c : KeyCalls) (keys : NodeKeys) :
    (generateKeys mc c keys).rc = true ↔
      (c.priv.opensWrite = true ∧ noiseKeySize ≤ c.priv.takes) ∧
        c.pub.opensWrite = true ∧ noiseKeySize ≤ c.pub.takes := by
  simp only [generateKeys]
  cases c.priv.opensWrite with
  | false => simp
  | true =>
    by_cases hp : c.priv.takes < noiseKeySize
    · have hshort : ¬ noiseKeySize ≤ c.priv.takes := by omega
      simp [hp, hshort]
    · cases c.pub.opensWrite with
      | false => simp [hp]
      | true => by_cases hq : c.pub.takes < noiseKeySize <;> simp [hp, hq, Nat.le_of_not_lt]

theorem loadOrGenerateKeys_read (mc : Monocypher) {c : KeyCalls} {files : KeyFiles}
    (keys : NodeKeys) {priv pub : List UInt8} (h : PairRead c files priv pub) :
    (loadOrGenerateKeys mc c files keys).rc = true ∧
      (loadOrGenerateKeys mc c files keys).keys.priv.1 = priv ∧
      (loadOrGenerateKeys mc c files keys).keys.pub.1 = pub := by
  have hr : readKeys c files keys = (true, ⟨keys.priv.fill priv, keys.pub.fill pub⟩) := by
    simp [readKeys, h.priv_read, h.pub_read, h.priv_length, h.pub_length]
  simp [loadOrGenerateKeys, h.access, hr, Key.fill_full h.priv_length, Key.fill_full h.pub_length]

theorem loadOrGenerateKeys_unread {mc : Monocypher} {c : KeyCalls} {files : KeyFiles}
    {keys : NodeKeys} (ha : c.access = true) (h : ∀ priv pub, ¬ PairRead c files priv pub) :
    loadOrGenerateKeys mc c files keys = generateKeys mc c (readKeys c files keys).2 := by
  have hr : (readKeys c files keys).1 = false := by
    rw [Bool.eq_false_iff, ne_eq, readKeys_iff ha]
    rintro ⟨priv, pub, hp⟩
    exact h priv pub hp
  simp [loadOrGenerateKeys, ha, hr]

/-- A run that returns 0 has read a pair or replaced it. -/
theorem loadOrGenerateKeys_rc {mc : Monocypher} {c : KeyCalls} {files : KeyFiles}
    {keys : NodeKeys} (h : (loadOrGenerateKeys mc c files keys).rc = true) :
    (∃ priv pub, PairRead c files priv pub) ∨ PairReplaced c files := by
  have ha : c.access = true := by
    cases ha : c.access with
    | true => rfl
    | false => simp [loadOrGenerateKeys, ha] at h
  by_cases hpair : ∃ priv pub, PairRead c files priv pub
  · exact .inl hpair
  · have hunread : ∀ priv pub, ¬ PairRead c files priv pub :=
      fun priv pub hp => hpair ⟨priv, pub, hp⟩
    rw [loadOrGenerateKeys_unread ha hunread, generateKeys_rc] at h
    exact .inr ⟨ha, hunread, h.1.1, h.1.2, h.2.1, h.2.2⟩

theorem loadOrGenerateKeys_replaced (mc : Monocypher) {c : KeyCalls} {files : KeyFiles}
    (keys : NodeKeys) (h : PairReplaced c files) :
    (loadOrGenerateKeys mc c files keys).rc = true ∧
      (loadOrGenerateKeys mc c files keys).keys =
        generateKeypair mc c.urandom (readKeys c files keys).2.priv := by
  rw [loadOrGenerateKeys_unread h.access h.unread, generateKeys_rc, generateKeys_keys]
  exact ⟨⟨⟨h.priv_opens, h.priv_taken⟩, h.pub_opens, h.pub_taken⟩, rfl⟩

/-! ### What a start makes of the files -/

/-- After a start that returns 0 the pair belongs together, and a private key that was complete
    is still the node's. -/
structure StartSound (mc : Monocypher) (files : KeyFiles) (r : KeyRun) : Prop where
  pair : r.rc = true → r.keys.pub.1 = mc.x25519PublicKey r.keys.priv.1
  identity : r.rc = true → ∀ key, storedKey files.priv = some key → r.keys.priv.1 = key

/-! ### When a complete private key outlives a new pair -/

/-- The bits of byte `i` that clamping leaves alone. -/
def freeBits (i : ℕ) : UInt8 :=
  if i = 0 then 248 else if i = 31 then 63 else 255

/-- The other bits of byte `i` as clamping sets them. -/
def fixedBits (i : ℕ) : UInt8 :=
  if i = 31 then 64 else 0

/-- A key whose other bits are already as clamping sets them. -/
def Clamped (key : List UInt8) : Prop :=
  ∀ i < noiseKeySize, key.getD i 0 &&& ~~~freeBits i = fixedBits i

/-- Two bytes `i` that clamping makes the same. -/
def AgreeAt (i : ℕ) (b k : UInt8) : Prop :=
  b &&& freeBits i = k &&& freeBits i

theorem and_or_eq_iff (m s b k : UInt8) :
    b &&& m ||| s = k ↔ k &&& ~~~(m &&& ~~~s) = s ∧ b &&& (m &&& ~~~s) = k &&& (m &&& ~~~s) := by
  simp only [← UInt8.toBitVec_inj, UInt8.toBitVec_and, UInt8.toBitVec_or, UInt8.toBitVec_not]
  constructor
  · intro h
    rw [← h]
    constructor <;> apply BitVec.eq_of_getLsbD_eq <;> intro i hi <;> simp [hi] <;> grind
  · rintro ⟨hfixed, hfree⟩
    apply BitVec.eq_of_getLsbD_eq
    intro i hi
    have hfixed := congrArg (·.getLsbD i) hfixed
    have hfree := congrArg (·.getLsbD i) hfree
    simp [hi] at hfixed hfree ⊢
    grind

/-- Byte `i` of a clamped array is that of `key`: one condition on the key, one on the array. -/
theorem clampKey_getD_iff {bs key : List UInt8} (hbs : bs.length = noiseKeySize) {i : ℕ}
    (hi : i < noiseKeySize) :
    (clampKey bs).getD i 0 = key.getD i 0 ↔
      key.getD i 0 &&& ~~~freeBits i = fixedBits i ∧ AgreeAt i (bs.getD i 0) (key.getD i 0) := by
  have hlt : i < bs.length := by omega
  have hbyte : (clampKey bs).getD i 0 =
      if i = 0 then bs.getD i 0 &&& 248 ||| 0
      else if i = 31 then bs.getD i 0 &&& 127 ||| 64 else bs.getD i 0 &&& 255 ||| 0 := by
    simp only [clampKey, List.getD_eq_getElem?_getD, List.getElem?_modify]
    by_cases h0 : i = 0
    · subst h0
      simp [hlt]
    · by_cases h31 : i = 31
      · subst h31
        simp [hlt]
      · have hall : bs[i] &&& 255 = bs[i] := UInt8.and_neg_one
        simp [h0, h31, hlt, Ne.symm h0, Ne.symm h31, hall]
  rw [hbyte]
  unfold AgreeAt freeBits fixedBits
  split
  · rename_i h0
    rw [if_neg (by omega : i ≠ 31)]
    exact and_or_eq_iff 248 0 _ _
  · split
    · exact and_or_eq_iff 127 64 _ _
    · exact and_or_eq_iff 255 0 _ _

theorem clampKey_eq_iff {bs key : List UInt8} (hbs : bs.length = noiseKeySize)
    (hkey : key.length = noiseKeySize) :
    clampKey bs = key ↔
      Clamped key ∧ ∀ i < noiseKeySize, AgreeAt i (bs.getD i 0) (key.getD i 0) := by
  have hext : clampKey bs = key ↔
      ∀ i < noiseKeySize, (clampKey bs).getD i 0 = key.getD i 0 := by
    constructor
    · rintro rfl i -
      rfl
    · intro h
      refine List.ext_getElem (by simp [hbs, hkey]) fun i hi hi' => ?_
      have hbyte := h i (by omega)
      rwa [List.getD_eq_getElem?_getD, List.getD_eq_getElem?_getD, List.getElem?_eq_getElem hi,
        List.getElem?_eq_getElem hi'] at hbyte
  rw [hext]
  constructor
  · intro h
    exact ⟨fun i hi => ((clampKey_getD_iff hbs hi).mp (h i hi)).1,
      fun i hi => ((clampKey_getD_iff hbs hi).mp (h i hi)).2⟩
  · rintro ⟨hfixed, hagree⟩ i hi
    exact (clampKey_getD_iff hbs hi).mpr ⟨hfixed i hi, hagree i hi⟩

theorem Key.fill_getD (k : Key) (read : List UInt8) {i : ℕ} (hi : i < noiseKeySize) :
    (k.fill read).1.getD i 0 = if i < read.length then read.getD i 0 else k.1.getD i 0 := by
  have hk := k.2
  simp only [Key.fill, List.getD_eq_getElem?_getD]
  split
  · rename_i hlt
    rw [List.getElem?_append_left (by simp; omega), List.getElem?_take_of_lt hi]
  · rename_i hlt
    have htake : read.take noiseKeySize = read := List.take_of_length_le (by omega)
    rw [htake, List.getElem?_append_right (by omega), List.getElem?_drop]
    congr 2
    omega

/-- Byte `i` of id_curve25519 is read into `g_server_priv`: both files open, and the read gets as
    far. -/
def ByteLoaded (c : KeyCalls) (files : KeyFiles) (i : ℕ) : Prop :=
  (c.priv.opens = true ∧ files.priv ≠ none) ∧ (c.pub.opens = true ∧ files.pub ≠ none) ∧
    i < c.priv.delivers

/-- The complete key `key` of id_curve25519 outlives a new pair: it is clamped, the bytes that
    /dev/urandom gives agree with it, and so do the bytes of `g_server_priv` from before the start
    that neither /dev/urandom nor the file overwrites. -/
structure KeyOutlives (c : KeyCalls) (files : KeyFiles) (keys : NodeKeys)
    (key : List UInt8) : Prop where
  clamped : Clamped key
  drawn : ∀ i < noiseKeySize, i < (c.urandom.getD []).length →
    AgreeAt i ((c.urandom.getD []).getD i 0) (key.getD i 0)
  held : ∀ i < noiseKeySize, (c.urandom.getD []).length ≤ i → ¬ ByteLoaded c files i →
    AgreeAt i (keys.priv.1.getD i 0) (key.getD i 0)

theorem storedKey_length {file : Option (List UInt8)} {key : List UInt8}
    (h : storedKey file = some key) : key.length = noiseKeySize := by
  obtain ⟨bs, rfl, hbs⟩ := Option.bind_eq_some_iff.mp h
  split at hbs
  · rename_i hlen
    obtain rfl := Option.some.inj hbs
    exact List.length_take_of_le hlen
  · cases hbs

theorem FileCalls.read_eq_some_iff {c : FileCalls} {file : Option (List UInt8)} :
    (∃ bs, c.read file = some bs) ↔ c.opens = true ∧ file ≠ none := by
  cases hopens : c.opens <;> cases file <;> simp [FileCalls.read, hopens]

/-- What a start leaves in `g_server_priv` before it draws a new key. -/
theorem readKeys_getD {c : KeyCalls} {files : KeyFiles} (keys : NodeKeys) {key : List UInt8}
    (hkey : storedKey files.priv = some key) {i : ℕ} (hi : i < noiseKeySize) :
    (ByteLoaded c files i → (readKeys c files keys).2.priv.1.getD i 0 = key.getD i 0) ∧
    (¬ ByteLoaded c files i →
      (readKeys c files keys).2.priv.1.getD i 0 = keys.priv.1.getD i 0) := by
  obtain ⟨content, hcontent, hbs⟩ := Option.bind_eq_some_iff.mp hkey
  obtain ⟨hlen, hbs⟩ : noiseKeySize ≤ content.length ∧ content.take noiseKeySize = key := by
    split at hbs
    · rename_i hlen
      exact ⟨hlen, Option.some.inj hbs⟩
    · cases hbs
  by_cases hopen : (c.priv.opens = true ∧ files.priv ≠ none) ∧ c.pub.opens = true ∧ files.pub ≠ none
  · obtain ⟨rq, hq⟩ := FileCalls.read_eq_some_iff.mpr hopen.2
    have hp : c.priv.read files.priv = some (key.take c.priv.delivers) := by
      rw [FileCalls.read, if_pos hopen.1.1, hcontent, Option.map_some, hbs]
    have hr : (readKeys c files keys).2.priv = keys.priv.fill (key.take c.priv.delivers) := by
      simp [readKeys, hp, hq]
    have hkeylen := storedKey_length hkey
    rw [hr, Key.fill_getD _ _ hi]
    refine ⟨?_, ?_⟩
    · rintro ⟨-, -, hdel⟩
      rw [if_pos (by simp; omega), List.getD_eq_getElem?_getD, List.getElem?_take_of_lt hdel,
        List.getD_eq_getElem?_getD]
    · intro hnot
      have hdel : c.priv.delivers ≤ i := by
        by_contra hlt
        exact hnot ⟨hopen.1, hopen.2, by omega⟩
      rw [if_neg (by simp; omega)]
  · refine ⟨fun h => absurd ⟨h.1, h.2.1⟩ hopen, fun _ => ?_⟩
    have hr : (readKeys c files keys).2 = keys := by
      simp only [readKeys]
      split
      · rename_i rp rq hp hq
        exact absurd ⟨FileCalls.read_eq_some_iff.mp ⟨rp, hp⟩,
          FileCalls.read_eq_some_iff.mp ⟨rq, hq⟩⟩ hopen
      · rfl
    rw [hr]

/-- The new private key is the one that was complete exactly if that one outlives. -/
theorem generated_key_iff {mc : Monocypher} {c : KeyCalls} {files : KeyFiles} {keys : NodeKeys}
    {key : List UInt8} (hkey : storedKey files.priv = some key) :
    (generateKeypair mc c.urandom (readKeys c files keys).2.priv).priv.1 = key ↔
      KeyOutlives c files keys key := by
  have hfill := ((readKeys c files keys).2.priv.fill (c.urandom.getD [])).2
  have hgen : (generateKeypair mc c.urandom (readKeys c files keys).2.priv).priv.1 =
      clampKey ((readKeys c files keys).2.priv.fill (c.urandom.getD [])).1 := rfl
  rw [hgen, clampKey_eq_iff hfill (storedKey_length hkey)]
  constructor
  · rintro ⟨hclamped, hagree⟩
    refine ⟨hclamped, fun i hi hdrawn => ?_, fun i hi hundrawn hnot => ?_⟩
    · have h := hagree i hi
      rwa [Key.fill_getD _ _ hi, if_pos hdrawn] at h
    · have h := hagree i hi
      rwa [Key.fill_getD _ _ hi, if_neg (by omega), (readKeys_getD keys hkey hi).2 hnot] at h
  · intro h
    refine ⟨h.clamped, fun i hi => ?_⟩
    rw [Key.fill_getD _ _ hi]
    split
    · rename_i hdrawn
      exact h.drawn i hi hdrawn
    · rename_i hundrawn
      by_cases hloaded : ByteLoaded c files i
      · rw [(readKeys_getD keys hkey hi).1 hloaded]
        rfl
      · rw [(readKeys_getD keys hkey hi).2 hloaded]
        exact h.held i hi (by omega) hloaded

/-- The files that are read belong together; and where the pair is replaced, a private key that
    was complete outlives that. -/
structure FilesConsistent (mc : Monocypher) (c : KeyCalls) (files : KeyFiles)
    (keys : NodeKeys) : Prop where
  read : ∀ priv pub, PairRead c files priv pub → pub = mc.x25519PublicKey priv
  replaced : PairReplaced c files → ∀ key, storedKey files.priv = some key →
    KeyOutlives c files keys key

/-- CORRECT (exact): a start is sound when, and only when, it finds consistent files. -/
theorem loadOrGenerateKeys_sound_iff (mc : Monocypher) (c : KeyCalls) (files : KeyFiles)
    (keys : NodeKeys) :
    StartSound mc files (loadOrGenerateKeys mc c files keys) ↔
      FilesConsistent mc c files keys := by
  constructor
  · intro h
    refine ⟨?_, ?_⟩
    · intro priv pub hread
      obtain ⟨hrc, hpriv, hpub⟩ := loadOrGenerateKeys_read mc keys hread
      have hpair := h.pair hrc
      rwa [hpriv, hpub] at hpair
    · intro hrep key hkey
      obtain ⟨hrc, hkeys⟩ := loadOrGenerateKeys_replaced mc keys hrep
      have hid := h.identity hrc key hkey
      rw [hkeys] at hid
      exact (generated_key_iff hkey).mp hid
  · intro h
    refine ⟨?_, ?_⟩
    · intro hrc
      rcases loadOrGenerateKeys_rc hrc with ⟨priv, pub, hread⟩ | hrep
      · obtain ⟨-, hpriv, hpub⟩ := loadOrGenerateKeys_read mc keys hread
        rw [hpriv, hpub]
        exact h.read priv pub hread
      · rw [(loadOrGenerateKeys_replaced mc keys hrep).2]
        rfl
    · intro hrc key hkey
      rcases loadOrGenerateKeys_rc hrc with ⟨priv, pub, hread⟩ | hrep
      · obtain ⟨-, hpriv, -⟩ := loadOrGenerateKeys_read mc keys hread
        have hstored := FileCalls.read_full hread.priv_read hread.priv_length
        rw [hpriv]
        exact Option.some.inj (hstored.symm.trans hkey)
      · rw [(loadOrGenerateKeys_replaced mc keys hrep).2]
        exact (generated_key_iff hkey).mpr (h.replaced hrep key hkey)

/-- Nothing fails, and /dev/urandom gives `b` again and again. -/
def goodCalls (b : UInt8) : KeyCalls :=
  ⟨true, ⟨true, 32, true, 32⟩, ⟨true, 32, true, 32⟩, some (List.replicate 32 b)⟩

def zeroKeys : NodeKeys := ⟨⟨zeroKey, rfl⟩, ⟨zeroKey, rfl⟩⟩

/-- A cloned machine: id_curve25519 was deleted, and the public key of the original is left. -/
def clonedFiles : KeyFiles :=
  ⟨none, some (generateKeypair monocypher (goodCalls 1).urandom zeroKeys.priv).pub.1⟩

/-- Its first start is cut off when the new private key is written. -/
def cutFiles : KeyFiles :=
  filesAfter clonedFiles (loadOrGenerateKeys monocypher (goodCalls 2) clonedFiles zeroKeys).ops 2

/-- The next start returns 0 with the public key of the original machine. -/
theorem loadOrGenerateKeys_cut :
    ¬ StartSound monocypher cutFiles
      (loadOrGenerateKeys monocypher (goodCalls 3) cutFiles zeroKeys) := by
  have hrun : (loadOrGenerateKeys monocypher (goodCalls 3) cutFiles zeroKeys).rc = true ∧
      (loadOrGenerateKeys monocypher (goodCalls 3) cutFiles zeroKeys).keys.pub.1 ≠
        monocypher.x25519PublicKey
          (loadOrGenerateKeys monocypher (goodCalls 3) cutFiles zeroKeys).keys.priv.1 := by
    decide +kernel
  exact fun h => hrun.2 (h.pair hrun.1)

/-- What a start that got as far as the private key's file has drawn. -/
theorem loadOrGenerateKeys_drawn {mc : Monocypher} {c : KeyCalls} {files : KeyFiles}
    {keys : NodeKeys} (h : (loadOrGenerateKeys mc c files keys).ops ≠ []) :
    DrawnFrom c.urandom (loadOrGenerateKeys mc c files keys).keys.priv.1 ↔ FullRead c.urandom := by
  have hgen : loadOrGenerateKeys mc c files keys =
      generateKeys mc c (readKeys c files keys).2 := by
    rw [loadOrGenerateKeys] at h ⊢
    split at h
    · exact absurd rfl h
    · rename_i ha
      rw [if_neg ha]
      dsimp only at h ⊢
      split at h
      · exact absurd rfl h
      · rename_i hr
        rw [if_neg hr]
  rw [hgen, generateKeys_keys]
  exact generated_drawn_iff mc c.urandom (readKeys c files keys).2.priv.2

/-- CORRECT (exact): in msg1, in msg2 and in a new key pair of the node, the private key is drawn
    from /dev/urandom in that call when, and only when, all 32 bytes were read. -/
theorem keys_drawn_iff (mc : Monocypher) (urandom : Option (List UInt8)) :
    (∀ st st' msg1, st.ePriv.length = noiseKeySize →
      noiseIkWriteMsg1 mc urandom st = some (st', msg1) →
        (DrawnFrom urandom st'.ePriv ↔ FullRead urandom)) ∧
    (∀ st st' msg2, st.ePriv.length = noiseKeySize →
      noiseIkWriteMsg2 mc urandom st = some (st', msg2) →
        (DrawnFrom urandom st'.ePriv ↔ FullRead urandom)) ∧
    ∀ c files keys, c.urandom = urandom → (loadOrGenerateKeys mc c files keys).ops ≠ [] →
      (DrawnFrom urandom (loadOrGenerateKeys mc c files keys).keys.priv.1 ↔ FullRead urandom) := by
  refine ⟨?_, ?_, ?_⟩
  · intro st st' msg1 hlen h
    rw [noiseIkWriteMsg1_ePriv h]
    exact generated_drawn_iff mc urandom hlen
  · intro st st' msg2 hlen h
    rw [noiseIkWriteMsg2_ePriv h]
    exact generated_drawn_iff mc urandom hlen
  · rintro c files keys rfl h
    exact loadOrGenerateKeys_drawn h

/-- An agent that begins a handshake with the node of key `b` and has the static key of byte `a`. -/
def startedAgent (a b : UInt8) : NoiseIKState :=
  let keys := generateKeypair monocypher (goodCalls a).urandom zeroKeys.priv
  noiseIkInitClient monocypher keys.priv.1 keys.pub.1
    (generateKeypair monocypher (goodCalls b).urandom zeroKeys.priv).pub.1

/-- With 32 bytes to read, an agent's first message has a key that is drawn from them. -/
theorem writeMsg1_with_random :
    ∃ st m, noiseIkWriteMsg1 monocypher (goodCalls 7).urandom (startedAgent 1 3) = some (st, m) ∧
      DrawnFrom (goodCalls 7).urandom st.ePriv := by
  obtain ⟨st, m, h⟩ := noiseIkWriteMsg1_returns monocypher (goodCalls 7).urandom
    (show (startedAgent 1 3).isServer = false from rfl)
  have hdrawn := (keys_drawn_iff monocypher (goodCalls 7).urandom).1 _ _ _ rfl h
  exact ⟨st, m, h, hdrawn.mpr ⟨List.replicate 32 7, rfl, by decide⟩⟩

/-- Two agents whose /dev/urandom does not open: both write their first message, with one and the
    same ephemeral key. -/
theorem writeMsg1_without_random :
    ∃ st st' m m', noiseIkWriteMsg1 monocypher none (startedAgent 1 3) = some (st, m) ∧
      noiseIkWriteMsg1 monocypher none (startedAgent 2 3) = some (st', m') ∧
      st.ePriv = st'.ePriv ∧ ¬ DrawnFrom none st.ePriv := by
  have hclient (a : UInt8) : (startedAgent a 3).isServer = false := rfl
  have hwiped (a : UInt8) : (startedAgent a 3).ePriv = zeroKey := rfl
  obtain ⟨st, m, h⟩ := noiseIkWriteMsg1_returns monocypher none (hclient 1)
  obtain ⟨st', m', h'⟩ := noiseIkWriteMsg1_returns monocypher none (hclient 2)
  refine ⟨st, st', m, m', h, h', ?_, ?_⟩
  · rw [noiseIkWriteMsg1_ePriv h, noiseIkWriteMsg1_ePriv h', hwiped, hwiped]
  · rintro ⟨bs, hbs, -⟩
    cases hbs

end Asys
