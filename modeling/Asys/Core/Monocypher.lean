import Mathlib.Algebra.Group.Nat.Defs
import Mathlib.Data.List.Basic

/-! # monocypher.c: the primitives under the handshake

    `Monocypher` is what the daemon relies on: the signatures of the calls and the lengths of what
    they return. `monocypher` is the library itself, BLAKE2b, ChaCha20-Poly1305 and X25519, with
    numbers in the place of limbs and the words of the source as numbers below `2 ^ 64` or `2 ^ 32`.
    The development is about any `Monocypher`; the concrete one serves to run the daemon. -/

namespace Asys

def noiseKeySize : ℕ := 32
def noiseMacSize : ℕ := 16
def noiseHashSize : ℕ := 64

/-- The calls of the daemon. `blake2b` hashes in one piece what a context is updated with; the AEAD
    takes key, nonce and associated data, and `aeadRead` the MAC before the ciphertext. -/
structure Monocypher where
  x25519 : List UInt8 → List UInt8 → List UInt8
  x25519PublicKey : List UInt8 → List UInt8
  blake2b : List UInt8 → List UInt8
  aeadWrite : List UInt8 → List UInt8 → List UInt8 → List UInt8 → List UInt8 × List UInt8
  aeadRead : List UInt8 → List UInt8 → List UInt8 → List UInt8 → List UInt8 → Option (List UInt8)
  x25519_length : ∀ k p, (x25519 k p).length = noiseKeySize
  publicKey_length : ∀ k, (x25519PublicKey k).length = noiseKeySize
  blake2b_length : ∀ m, (blake2b m).length = noiseHashSize
  cipher_length : ∀ k n ad p, (aeadWrite k n ad p).1.length = p.length
  mac_length : ∀ k n ad p, (aeadWrite k n ad p).2.length = noiseMacSize
  plain_length : ∀ k n ad mac c p, aeadRead k n ad mac c = some p → p.length = c.length

/-! ### Bytes and words -/

/-- The little-endian number of a byte string. -/
def loadLe (bs : List UInt8) : ℕ := bs.foldr (fun b n => b.toNat + 256 * n) 0

/-- The `k` low bytes of a number, little-endian. -/
def storeLe : ℕ → ℕ → List UInt8
  | 0, _ => []
  | k + 1, n => n.toUInt8 :: storeLe k (n / 256)

@[simp] theorem storeLe_length (k n : ℕ) : (storeLe k n).length = k := by
  induction k generalizing n with
  | zero => rfl
  | succ k ih => rw [storeLe, List.length_cons, ih]

/-- Word `i` of a buffer of `w`-byte words. -/
def loadWord (w : ℕ) (bs : List UInt8) (i : ℕ) : ℕ := loadLe ((bs.drop (w * i)).take w)

def u64 (n : ℕ) : ℕ := n % 0x10000000000000000
def u32 (n : ℕ) : ℕ := n % 0x100000000
def rotr64 (x n : ℕ) : ℕ := u64 ((x ||| x <<< 64) >>> n)
def rotl32 (x n : ℕ) : ℕ := u32 ((x <<< n) ||| (x >>> (32 - n)))

structure Column where
  a : ℕ
  b : ℕ
  c : ℕ
  d : ℕ

/-- The sixteen words of BLAKE2b and ChaCha20, in four columns of four. -/
structure Columns where
  c0 : Column
  c1 : Column
  c2 : Column
  c3 : Column

/-- The diagonals in the place of the columns. -/
def Columns.diagonals (m : Columns) : Columns where
  c0 := ⟨m.c0.a, m.c1.b, m.c2.c, m.c3.d⟩
  c1 := ⟨m.c1.a, m.c2.b, m.c3.c, m.c0.d⟩
  c2 := ⟨m.c2.a, m.c3.b, m.c0.c, m.c1.d⟩
  c3 := ⟨m.c3.a, m.c0.b, m.c1.c, m.c2.d⟩

/-- The columns back from the diagonals. -/
def Columns.undiagonals (m : Columns) : Columns where
  c0 := ⟨m.c0.a, m.c3.b, m.c2.c, m.c1.d⟩
  c1 := ⟨m.c1.a, m.c0.b, m.c3.c, m.c2.d⟩
  c2 := ⟨m.c2.a, m.c1.b, m.c0.c, m.c3.d⟩
  c3 := ⟨m.c3.a, m.c2.b, m.c1.c, m.c0.d⟩

def Columns.words (m : Columns) : List ℕ :=
  [m.c0.a, m.c1.a, m.c2.a, m.c3.a, m.c0.b, m.c1.b, m.c2.b, m.c3.b,
    m.c0.c, m.c1.c, m.c2.c, m.c3.c, m.c0.d, m.c1.d, m.c2.d, m.c3.d]

/-- The columns of sixteen words. -/
def columnsOf (w : ℕ → ℕ) : Columns where
  c0 := ⟨w 0, w 4, w 8, w 12⟩
  c1 := ⟨w 1, w 5, w 9, w 13⟩
  c2 := ⟨w 2, w 6, w 10, w 14⟩
  c3 := ⟨w 3, w 7, w 11, w 15⟩

/-! ### BLAKE2b -/

def blake2bIv : List ℕ :=
  [0x6a09e667f3bcc908, 0xbb67ae8584caa73b, 0x3c6ef372fe94f82b, 0xa54ff53a5f1d36f1,
    0x510e527fade682d1, 0x9b05688c2b3e6c1f, 0x1f83d9abfb41bd6b, 0x5be0cd19137e2179]

def blake2bSigma : List (List ℕ) :=
  [[0, 1, 2, 3, 4, 5, 6, 7, 8, 9, 10, 11, 12, 13, 14, 15],
    [14, 10, 4, 8, 9, 15, 13, 6, 1, 12, 0, 2, 11, 7, 5, 3],
    [11, 8, 12, 0, 5, 2, 15, 13, 10, 14, 3, 6, 7, 1, 9, 4],
    [7, 9, 3, 1, 13, 12, 11, 14, 2, 6, 5, 10, 4, 0, 15, 8],
    [9, 0, 5, 7, 2, 4, 10, 15, 14, 1, 11, 12, 6, 8, 3, 13],
    [2, 12, 6, 10, 0, 11, 8, 3, 4, 13, 7, 5, 15, 14, 1, 9],
    [12, 5, 1, 15, 14, 13, 4, 10, 0, 7, 6, 3, 9, 2, 8, 11],
    [13, 11, 7, 14, 12, 1, 3, 9, 5, 0, 15, 4, 8, 6, 2, 10],
    [6, 15, 14, 9, 11, 3, 0, 8, 12, 2, 13, 7, 1, 4, 10, 5],
    [10, 2, 8, 4, 7, 6, 1, 5, 15, 11, 9, 14, 3, 12, 13, 0],
    [0, 1, 2, 3, 4, 5, 6, 7, 8, 9, 10, 11, 12, 13, 14, 15],
    [14, 10, 4, 8, 9, 15, 13, 6, 1, 12, 0, 2, 11, 7, 5, 3]]

/-- One line of two of `BLAKE2_G`, with its rotations. -/
def blake2HalfG (v : Column) (x r s : ℕ) : Column :=
  let a := u64 (v.a + v.b + x)
  let d := rotr64 (v.d ^^^ a) r
  let c := u64 (v.c + d)
  ⟨a, rotr64 (v.b ^^^ c) s, c, d⟩

def blake2G (v : Column) (x y : ℕ) : Column := blake2HalfG (blake2HalfG v x 32 24) y 16 63

/-- `BLAKE2_ROUND`, with its row of `sigma`. -/
def blake2Round (input : List ℕ) (v : Columns) (row : List ℕ) : Columns :=
  let x := fun i => input.getD (row.getD i 0) 0
  let v : Columns := ⟨blake2G v.c0 (x 0) (x 1), blake2G v.c1 (x 2) (x 3), blake2G v.c2 (x 4) (x 5),
    blake2G v.c3 (x 6) (x 7)⟩
  let w := v.diagonals
  Columns.undiagonals ⟨blake2G w.c0 (x 8) (x 9), blake2G w.c1 (x 10) (x 11),
    blake2G w.c2 (x 12) (x 13), blake2G w.c3 (x 14) (x 15)⟩

/-- The hash after one more block; `offset` is `input_offset` with the block counted. -/
def blake2bCompress (hash input : List ℕ) (offset : ℕ) (isLast : Bool) : List ℕ :=
  let iv := fun i => blake2bIv.getD i 0
  let tail := [iv 0, iv 1, iv 2, iv 3, iv 4 ^^^ u64 offset, iv 5 ^^^ offset / 0x10000000000000000,
    if isLast then iv 6 ^^^ 0xFFFFFFFFFFFFFFFF else iv 6, iv 7]
  let v := (blake2bSigma.foldl (blake2Round input) (columnsOf fun i => (hash ++ tail).getD i 0)).words
  (List.range 8).map fun i => hash.getD i 0 ^^^ (v.getD i 0 ^^^ v.getD (i + 8) 0)

/-- The rest of a message, block by block; the last block is padded with zeros. -/
def blake2bBlocks : ℕ → List ℕ → ℕ → List UInt8 → List ℕ
  | 0, hash, _, _ => hash
  | n + 1, hash, offset, msg =>
    let input := (List.range 16).map (loadWord 8 (msg.take 128))
    if msg.length ≤ 128 then blake2bCompress hash input (offset + msg.length) true
    else blake2bBlocks n (blake2bCompress hash input (offset + 128) false) (offset + 128) (msg.drop 128)

/-- `crypto_blake2b` with a hash of 64 bytes. -/
def cryptoBlake2b (msg : List UInt8) : List UInt8 :=
  let hash := (blake2bIv.getD 0 0 ^^^ 0x01010040) :: blake2bIv.drop 1
  (blake2bBlocks (msg.length / 128 + 1) hash 0 msg).flatMap (storeLe 8)

theorem blake2bBlocks_length (n : ℕ) {hash : List ℕ} (h : hash.length = 8) (offset : ℕ)
    (msg : List UInt8) : (blake2bBlocks n hash offset msg).length = 8 := by
  induction n generalizing hash offset msg with
  | zero => exact h
  | succ n ih =>
    rw [blake2bBlocks]
    split
    · simp [blake2bCompress]
    · exact ih (by simp [blake2bCompress]) _ _

theorem cryptoBlake2b_length (msg : List UInt8) : (cryptoBlake2b msg).length = noiseHashSize := by
  simp only [cryptoBlake2b, List.length_flatMap, storeLe_length, List.map_const', List.sum_replicate_nat]
  rw [blake2bBlocks_length _ rfl]
  rfl

/-- The first bytes of the hash of `"abc"`. -/
example : (cryptoBlake2b [0x61, 0x62, 0x63]).take 4 = [0xBA, 0x80, 0xA5, 0x3F] := by
  decide +kernel

/-! ### ChaCha20 -/

def quarterround (v : Column) : Column :=
  let a := u32 (v.a + v.b)
  let d := rotl32 (v.d ^^^ a) 16
  let c := u32 (v.c + d)
  let b := rotl32 (v.b ^^^ c) 12
  let a := u32 (a + b)
  let d := rotl32 (d ^^^ a) 8
  let c := u32 (c + d)
  ⟨a, rotl32 (b ^^^ c) 7, c, d⟩

/-- `QUARTERROUND` on the four columns. -/
def quarterrounds (m : Columns) : Columns :=
  ⟨quarterround m.c0, quarterround m.c1, quarterround m.c2, quarterround m.c3⟩

def chacha20Rounds (m : Columns) : Columns :=
  (List.range 10).foldl (fun m _ => (quarterrounds (quarterrounds m).diagonals).undiagonals) m

/-- `"expand 32-byte k"`. -/
def chacha20Constant : List UInt8 :=
  [0x65, 0x78, 0x70, 0x61, 0x6E, 0x64, 0x20, 0x33, 0x32, 0x2D, 0x62, 0x79, 0x74, 0x65, 0x20, 0x6B]

/-- The 64 bytes of the key stream for one value of the counter. -/
def chacha20Block (key nonce : List UInt8) (ctr : ℕ) : List UInt8 :=
  let input := (List.range 16).map
    (loadWord 4 (chacha20Constant ++ key.take 32 ++ storeLe 8 ctr ++ nonce.take 8))
  let pool := (chacha20Rounds (columnsOf fun i => input.getD i 0)).words
  (List.range 16).flatMap fun i => storeLe 4 (u32 (pool.getD i 0 + input.getD i 0))

/-- The text in blocks of 64 bytes, each against its part of the key stream. -/
def chacha20Blocks (key nonce : List UInt8) : ℕ → ℕ → List UInt8 → List UInt8
  | 0, _, _ => []
  | n + 1, ctr, text =>
    List.zipWith (· ^^^ ·) (text.take 64) (chacha20Block key nonce ctr) ++
      chacha20Blocks key nonce n (ctr + 1) (text.drop 64)

def cryptoChacha20Djb (text key nonce : List UInt8) (ctr : ℕ) : List UInt8 :=
  chacha20Blocks key nonce (text.length / 64 + 1) ctr text

theorem chacha20Block_length (key nonce : List UInt8) (ctr : ℕ) :
    (chacha20Block key nonce ctr).length = 64 := by
  simp [chacha20Block, List.length_flatMap]

theorem chacha20Blocks_length (key nonce : List UInt8) (n ctr : ℕ) {text : List UInt8}
    (h : text.length ≤ 64 * n) : (chacha20Blocks key nonce n ctr text).length = text.length := by
  induction n generalizing ctr text with
  | zero =>
    rw [chacha20Blocks, List.length_nil]
    omega
  | succ n ih =>
    rw [chacha20Blocks, List.length_append, List.length_zipWith, chacha20Block_length,
      ih _ (by rw [List.length_drop]; omega), List.length_take, List.length_drop]
    omega

theorem cryptoChacha20Djb_length (text key nonce : List UInt8) (ctr : ℕ) :
    (cryptoChacha20Djb text key nonce ctr).length = text.length :=
  chacha20Blocks_length _ _ _ _ (by omega)

/-- A key stream laid over a text twice gives the text back. -/
theorem zipWith_xor_twice (text key : List UInt8) (h : text.length ≤ key.length) :
    List.zipWith (· ^^^ ·) (List.zipWith (· ^^^ ·) text key) key = text := by
  induction text generalizing key with
  | nil => rfl
  | cons b text ih =>
    cases key with
    | nil => cases h
    | cons k key =>
      rw [List.zipWith_cons_cons, List.zipWith_cons_cons, ih key (Nat.le_of_succ_le_succ h),
        UInt8.xor_assoc, UInt8.xor_self, UInt8.xor_zero]

theorem chacha20Blocks_twice (key nonce : List UInt8) (n ctr : ℕ) {text : List UInt8}
    (h : text.length ≤ 64 * n) :
    chacha20Blocks key nonce n ctr (chacha20Blocks key nonce n ctr text) = text := by
  induction n generalizing ctr text with
  | zero =>
    obtain rfl : text = [] := List.length_eq_zero_iff.mp (by omega)
    rfl
  | succ n ih =>
    have hrest : (text.drop 64).length ≤ 64 * n := by
      rw [List.length_drop]
      omega
    have hblock : (text.take 64).length ≤ (chacha20Block key nonce ctr).length := by
      rw [chacha20Block_length, List.length_take]
      omega
    have hhead : (List.zipWith (· ^^^ ·) (text.take 64) (chacha20Block key nonce ctr)).length =
        (text.take 64).length := by
      rw [List.length_zipWith]
      omega
    -- the first block of the ciphertext is that of the text: a short block ends both
    have hsplit : ∀ a b : List UInt8, a.length = (text.take 64).length →
        b.length = (text.drop 64).length → (a ++ b).take 64 = a ∧ (a ++ b).drop 64 = b := by
      intro a b ha hb
      rw [List.length_take] at ha
      rw [List.length_drop] at hb
      by_cases hshort : text.length < 64
      · obtain rfl : b = [] := List.length_eq_zero_iff.mp (by omega)
        rw [List.append_nil]
        exact ⟨List.take_of_length_le (by omega), List.drop_of_length_le (by omega)⟩
      · exact ⟨List.take_left' (by omega), List.drop_left' (by omega)⟩
    obtain ⟨htake, hdrop⟩ := hsplit _ _ hhead (chacha20Blocks_length key nonce n (ctr + 1) hrest)
    rw [chacha20Blocks, chacha20Blocks, htake, hdrop, ih _ hrest, zipWith_xor_twice _ _ hblock,
      List.take_append_drop]

theorem cryptoChacha20Djb_twice (text key nonce : List UInt8) (ctr : ℕ) :
    cryptoChacha20Djb (cryptoChacha20Djb text key nonce ctr) key nonce ctr = text := by
  have h := cryptoChacha20Djb_length text key nonce ctr
  rw [cryptoChacha20Djb, h, cryptoChacha20Djb]
  exact chacha20Blocks_twice key nonce _ ctr (by omega)

/-! ### Poly1305 and the AEAD -/

/-- `poly_blocks`: blocks of 16 bytes, each with the bit above it set. -/
def polyBlocks (r : ℕ) : ℕ → ℕ → List UInt8 → ℕ
  | 0, h, _ => h
  | n + 1, h, msg =>
    if msg.length = 0 then h
    else polyBlocks r n ((h + loadLe (msg.take 16 ++ [1])) * r % (2 ^ 130 - 5)) (msg.drop 16)

def cryptoPoly1305 (msg key : List UInt8) : List UInt8 :=
  let r := loadLe (key.take 16) &&& 0x0ffffffc0ffffffc0ffffffc0fffffff
  let pad := loadLe ((key.drop 16).take 16)
  storeLe 16 (polyBlocks r (msg.length / 16 + 1) 0 msg + pad)

/-- The bytes up to the next multiple of 16. -/
def polyGap (bs : List UInt8) : List UInt8 := List.replicate ((16 - bs.length % 16) % 16) 0

def lockAuth (authKey ad cipherText : List UInt8) : List UInt8 :=
  cryptoPoly1305 (ad ++ polyGap ad ++ cipherText ++ polyGap cipherText ++
    storeLe 8 ad.length ++ storeLe 8 cipherText.length) authKey

/-- The counter that `crypto_aead_init_ietf` sets from the first four bytes of the nonce. -/
def ietfCounter (nonce : List UInt8) : ℕ := loadLe (nonce.take 4) * 0x100000000

/-- `crypto_aead_write` behind `crypto_aead_init_ietf`. -/
def cryptoAeadWrite (key nonce ad plainText : List UInt8) : List UInt8 × List UInt8 :=
  let counter := ietfCounter nonce
  let authKey := chacha20Block key (nonce.drop 4) counter
  let cipherText := cryptoChacha20Djb plainText key (nonce.drop 4) (counter + 1)
  (cipherText, lockAuth authKey ad cipherText)

/-- `crypto_aead_read` behind `crypto_aead_init_ietf`. -/
def cryptoAeadRead (key nonce ad mac cipherText : List UInt8) : Option (List UInt8) :=
  let counter := ietfCounter nonce
  let authKey := chacha20Block key (nonce.drop 4) counter
  if mac = lockAuth authKey ad cipherText then
    some (cryptoChacha20Djb cipherText key (nonce.drop 4) (counter + 1))
  else none

/-- `crypto_aead_read` opens what `crypto_aead_write` sealed. -/
theorem cryptoAeadRead_write (key nonce ad plainText : List UInt8) :
    cryptoAeadRead key nonce ad (cryptoAeadWrite key nonce ad plainText).2
      (cryptoAeadWrite key nonce ad plainText).1 = some plainText := by
  rw [cryptoAeadRead, cryptoAeadWrite, if_pos rfl, cryptoChacha20Djb_twice]

/-! ### X25519 -/

/-- The prime of the field, `2 ^ 255 - 19`. -/
def feP : ℕ := 0x7fffffffffffffffffffffffffffffffffffffffffffffffffffffffffffffed

def feAdd (a b : ℕ) : ℕ := (a + b) % feP
def feSub (a b : ℕ) : ℕ := (a + feP - b) % feP
def feMul (a b : ℕ) : ℕ := a * b % feP

/-- `a` to the power of the `k` high bits of the exponent `feP - 2`. -/
def fePow (a : ℕ) : ℕ → ℕ
  | 0 => 1
  | k + 1 =>
    let s := fePow a k
    if (feP - 2).testBit (254 - k) then feMul (feMul s s) a else feMul s s

def feInvert (a : ℕ) : ℕ := fePow a 255

/-- The two points of the Montgomery ladder. -/
structure Ladder where
  x2 : ℕ
  z2 : ℕ
  x3 : ℕ
  z3 : ℕ

def Ladder.swap (l : Ladder) : Ladder := ⟨l.x3, l.z3, l.x2, l.z2⟩

/-- `(P2, P3)` becomes `(P2*2, P2+P3)`. -/
def ladderStep (x1 : ℕ) (l : Ladder) : Ladder :=
  let t0 := feMul (feSub l.x2 l.z2) (feSub l.x2 l.z2)
  let t1 := feMul (feAdd l.x2 l.z2) (feAdd l.x2 l.z2)
  let z3 := feMul (feSub l.x3 l.z3) (feAdd l.x2 l.z2)
  let z2 := feMul (feAdd l.x3 l.z3) (feSub l.x2 l.z2)
  let x3 := feAdd z3 z2
  let d := feSub z3 z2
  let e := feSub t1 t0
  ⟨feMul t1 t0, feMul e (feAdd t0 (feMul e 121666)), feMul x3 x3, feMul x1 (feMul d d)⟩

/-- The ladder over the bits of the scalar below `pos`. -/
def ladder (x1 scalar : ℕ) : ℕ → Ladder → Ladder
  | 0, l => l
  | pos + 1, l =>
    if scalar.testBit pos then ladder x1 scalar pos (ladderStep x1 l.swap).swap
    else ladder x1 scalar pos (ladderStep x1 l)

def cryptoEddsaTrimScalar (key : List UInt8) : List UInt8 :=
  ((key.modify 0 (· &&& 248)).modify 31 (· &&& 127)).modify 31 (· ||| 64)

def scalarmult (scalar p : List UInt8) (nbBits : ℕ) : List UInt8 :=
  let x1 := loadLe p % 2 ^ 255 % feP
  let l := ladder x1 (loadLe scalar) nbBits ⟨1, 0, x1, 1⟩
  storeLe 32 (feMul l.x2 (feInvert l.z2))

def cryptoX25519 (yourSecretKey theirPublicKey : List UInt8) : List UInt8 :=
  scalarmult (cryptoEddsaTrimScalar yourSecretKey) theirPublicKey 255

def cryptoX25519PublicKey (secretKey : List UInt8) : List UInt8 := cryptoX25519 secretKey [9]

/-! ### The library -/

def monocypher : Monocypher where
  x25519 := cryptoX25519
  x25519PublicKey := cryptoX25519PublicKey
  blake2b := cryptoBlake2b
  aeadWrite := cryptoAeadWrite
  aeadRead := cryptoAeadRead
  x25519_length := fun _ _ => storeLe_length _ _
  publicKey_length := fun _ => storeLe_length _ _
  blake2b_length := cryptoBlake2b_length
  cipher_length := fun _ _ _ _ => cryptoChacha20Djb_length _ _ _ _
  mac_length := fun _ _ _ _ => storeLe_length _ _
  plain_length := by
    intro k n ad mac c p h
    dsimp only [cryptoAeadRead] at h
    split at h
    · obtain rfl := Option.some.inj h
      exact cryptoChacha20Djb_length _ _ _ _
    · cases h

/-- The AEAD opens what it sealed, for any key, nonce and associated data. -/
def Monocypher.AeadInverts (mc : Monocypher) : Prop :=
  ∀ k n ad p, mc.aeadRead k n ad (mc.aeadWrite k n ad p).2 (mc.aeadWrite k n ad p).1 = some p

theorem monocypher_aeadInverts : monocypher.AeadInverts := by
  have hread : monocypher.aeadRead = cryptoAeadRead := rfl
  have hwrite : monocypher.aeadWrite = cryptoAeadWrite := rfl
  rw [Monocypher.AeadInverts, hread, hwrite]
  exact cryptoAeadRead_write

end Asys
