import Asys.Core.LittleEndian
import Asys.Lib.Blocks

/-! # BLAKE2b in pieces

    The context of the source takes bytes into words of 64 bits, whole words at a time where it can,
    and keeps a full block until it knows that more input follows. However a message is cut, what
    `crypto_blake2b_final` gives is the hash of the whole. -/

namespace Asys

/-- `crypto_blake2b_ctx`. -/
structure Blake2bCtx where
  hash : List ℕ
  /-- `input_offset[0]` and `input_offset[1]` -/
  offset0 : ℕ
  offset1 : ℕ
  input : List ℕ
  inputIdx : ℕ
  hashSize : ℕ

namespace Blake2bCtx

/-- The sixteen words of a buffer, as `load64_le_buf` reads them; what is missing is zero. -/
def wordsOf (c : List UInt8) : List ℕ := (List.range 16).map (loadWord 8 c)

/-- `load64_le_buf` into the input, from the word `w` on. -/
def load64LeBuf (input : List ℕ) (w : ℕ) (src : List UInt8) (size : ℕ) : List ℕ :=
  input.take w ++ (List.range size).map (loadWord 8 src) ++ input.drop (w + size)

/-- `ctx->input[word] |= (u64)b << (byte << 3)`. -/
def orByte (input : List ℕ) (word byte : ℕ) (b : UInt8) : List ℕ :=
  input.set word (input.getD word 0 ||| u64 (b.toNat <<< (byte <<< 3)))

/-- `blake2b_compress`. -/
def compress (ctx : Blake2bCtx) (isLastBlock : Bool) : Blake2bCtx :=
  let x0 := u64 (ctx.offset0 + ctx.inputIdx)
  let x1 := if x0 < ctx.inputIdx then u64 (ctx.offset1 + 1) else ctx.offset1
  let iv := fun i => blake2bIv.getD i 0
  let v := ctx.hash ++ [iv 0, iv 1, iv 2, iv 3, iv 4 ^^^ x0, iv 5 ^^^ x1,
    iv 6 ^^^ (if isLastBlock then 0xFFFFFFFFFFFFFFFF else 0), iv 7]
  let v := (blake2bSigma.foldl (blake2Round ctx.input) (columnsOf fun i => v.getD i 0)).words
  { ctx with
    offset0 := x0
    offset1 := x1
    hash := (List.range 8).map fun i => ctx.hash.getD i 0 ^^^ (v.getD i 0 ^^^ v.getD (i + 8) 0) }

/-- `crypto_blake2b_keyed_init`. -/
def keyedInit (hashSize : ℕ) (key : List UInt8) : Blake2bCtx where
  hash := (blake2bIv.getD 0 0 ^^^ (0x01010000 ^^^ (key.length <<< 8) ^^^ hashSize)) :: blake2bIv.drop 1
  offset0 := 0
  offset1 := 0
  input :=
    if key.length > 0 then wordsOf (key ++ List.replicate (128 - key.length) 0)
    else List.replicate 16 0
  inputIdx := if key.length > 0 then 128 else 0
  hashSize := hashSize

/-- `crypto_blake2b_init`. -/
def init (hashSize : ℕ) : Blake2bCtx := keyedInit hashSize []

/-- The bytes up to a word boundary, one by one into the word that is open. -/
def orBytes (input : List ℕ) (word byte : ℕ) : List UInt8 → List ℕ
  | [] => input
  | b :: bs => orBytes (orByte input word byte b) word (byte + 1) bs

/-- "Align with word boundaries"; the rest of the message comes with it. -/
def alignWord (ctx : Blake2bCtx) (message : List UInt8) : Blake2bCtx × List UInt8 :=
  if ctx.inputIdx &&& 7 ≠ 0 then
    let nbBytes := min (gap ctx.inputIdx 8) message.length
    ({ ctx with
        input := orBytes ctx.input (ctx.inputIdx >>> 3) (ctx.inputIdx &&& 7) (message.take nbBytes)
        inputIdx := ctx.inputIdx + nbBytes },
      message.drop nbBytes)
  else (ctx, message)

/-- "Align with block boundaries". -/
def alignBlock (ctx : Blake2bCtx) (message : List UInt8) : Blake2bCtx × List UInt8 :=
  if ctx.inputIdx &&& 127 ≠ 0 then
    let nbWords := min (gap ctx.inputIdx 128) message.length >>> 3
    ({ ctx with
        input := load64LeBuf ctx.input (ctx.inputIdx >>> 3) message nbWords
        inputIdx := ctx.inputIdx + nbWords <<< 3 },
      message.drop (nbWords <<< 3))
  else (ctx, message)

/-- "Process block by block": each block pushes out the one before it. -/
def takeBlocks : ℕ → Blake2bCtx → List UInt8 → Blake2bCtx
  | 0, ctx, _ => ctx
  | n + 1, ctx, message =>
    let ctx := if ctx.inputIdx = 128 then ctx.compress false else ctx
    takeBlocks n { ctx with input := load64LeBuf ctx.input 0 message 16, inputIdx := 128 }
      (message.drop 128)

/-- "Fill remaining bytes". -/
def fillBytes (ctx : Blake2bCtx) : List UInt8 → Blake2bCtx
  | [] => ctx
  | b :: bs =>
    fillBytes
      { ctx with
        input := orByte ctx.input (ctx.inputIdx >>> 3) (ctx.inputIdx &&& 7) b
        inputIdx := ctx.inputIdx + 1 }
      bs

/-- "Compress block & flush input buffer as needed". -/
def flushInput (ctx : Blake2bCtx) : Blake2bCtx :=
  let ctx := if ctx.inputIdx = 128 then { ctx.compress false with inputIdx := 0 } else ctx
  if ctx.inputIdx = 0 then { ctx with input := List.replicate 16 0 } else ctx

/-- The rest of an update, less than a block. Its words are loaded at the front of the buffer,
    wherever `input_idx` stands. -/
def fillRest (ctx : Blake2bCtx) (message : List UInt8) : Blake2bCtx :=
  if message.length ≠ 0 then
    let ctx := ctx.flushInput
    let nbWords := message.length >>> 3
    fillBytes
      { ctx with
        input := load64LeBuf ctx.input 0 message nbWords
        inputIdx := ctx.inputIdx + nbWords <<< 3 }
      (message.drop (nbWords <<< 3))
  else ctx

/-- `crypto_blake2b_update`. -/
def update (ctx : Blake2bCtx) (message : List UInt8) : Blake2bCtx :=
  if message.length = 0 then ctx
  else
    let (ctx, message) := ctx.alignWord message
    let (ctx, message) := ctx.alignBlock message
    let nbBlocks := message.length >>> 7
    (takeBlocks nbBlocks ctx message).fillRest (message.drop (nbBlocks <<< 7))

/-- `crypto_blake2b_final`. -/
def final (ctx : Blake2bCtx) : List UInt8 :=
  let ctx := ctx.compress true
  let hashSize := min ctx.hashSize 64
  let nbWords := hashSize >>> 3
  (ctx.hash.take nbWords).flatMap (storeLe 8) ++
    (List.range' (nbWords <<< 3) (hashSize - nbWords <<< 3)).map fun i =>
      ((ctx.hash.getD (i >>> 3) 0 >>> (8 * (i &&& 7))) &&& 0xff).toUInt8

/-- `crypto_blake2b_keyed`. -/
def cryptoBlake2bKeyed (hashSize : ℕ) (key message : List UInt8) : List UInt8 :=
  ((keyedInit hashSize key).update message).final

/-! ### The words of the buffer -/

@[simp] theorem wordsOf_length (c : List UInt8) : (wordsOf c).length = 16 := by
  rw [wordsOf, List.length_map, List.length_range]

@[simp] theorem wordsOf_getElem (c : List UInt8) (i : ℕ) (h : i < (wordsOf c).length) :
    (wordsOf c)[i] = loadWord 8 c i := by
  simp [wordsOf]

theorem wordsOf_nil : wordsOf [] = List.replicate 16 0 := by
  refine List.ext_getElem (by simp) fun i _ _ => ?_
  rw [wordsOf_getElem, List.getElem_replicate, loadWord_of_le (Nat.zero_le _)]

/-- One byte more: it goes into the word that is open, above the bytes that are there. -/
theorem orByte_wordsOf {c : List UInt8} (b : UInt8) :
    orByte (wordsOf c) (c.length / 8) (c.length % 8) b = wordsOf (c ++ [b]) := by
  refine List.ext_getElem (by simp [orByte]) fun i hi _ => ?_
  have hi16 : i < 16 := by simpa [orByte] using hi
  simp only [orByte, List.getElem_set, wordsOf_getElem]
  split
  · rename_i hword
    subst hword
    have hget : (wordsOf c).getD (c.length / 8) 0 = loadWord 8 c (c.length / 8) := by
      rw [List.getD_eq_getElem?_getD, List.getElem?_eq_getElem (by simpa using hi16), wordsOf_getElem]
      rfl
    generalize hd : c.drop (8 * (c.length / 8)) = d
    have hlen : d.length = c.length % 8 := by
      rw [← hd, List.length_drop]
      omega
    have hb := b.toNat_lt
    have hshift : b.toNat <<< ((c.length % 8) <<< 3) = 2 ^ (8 * d.length) * b.toNat := by
      rw [Nat.shiftLeft_eq, Nat.shiftLeft_eq, hlen, Nat.mul_comm, Nat.mul_comm 8]
    have hsmall : 2 ^ (8 * d.length) * b.toNat < 2 ^ 64 := by
      have hpow : 2 ^ (8 * d.length) ≤ 2 ^ 56 := Nat.pow_le_pow_right (by decide) (by omega)
      calc 2 ^ (8 * d.length) * b.toNat ≤ 2 ^ 56 * 255 := Nat.mul_le_mul hpow (by omega)
        _ < 2 ^ 64 := by decide
    have hpow : 256 ^ d.length = 2 ^ (8 * d.length) := by rw [pow_mul]; norm_num
    have hlow : loadLe d < 2 ^ (8 * d.length) := hpow ▸ loadLe_lt d
    rw [hget, hshift, u64_eq hsmall, loadWord, loadWord, List.drop_append_of_le_length (by omega), hd,
      List.take_of_length_le (by omega), List.take_of_length_le (by simp; omega), loadLe_append, hpow,
      Nat.or_comm, ← Nat.two_pow_add_eq_or_of_lt hlow, Nat.add_comm]
    rfl
  · by_cases hlt : i < c.length / 8
    · rw [loadWord_append (by omega)]
    · rw [loadWord_of_le (by omega), loadWord_of_le]
      rw [List.length_append, List.length_singleton]
      omega

/-- Whole words more. -/
theorem load64LeBuf_wordsOf {c x : List UInt8} {w n : ℕ} (hc : c.length = 8 * w) (hn : w + n ≤ 16)
    (hx : 8 * n ≤ x.length) : load64LeBuf (wordsOf c) w x n = wordsOf (c ++ x.take (8 * n)) := by
  have htake : (x.take (8 * n)).length = 8 * n := List.length_take_of_le hx
  refine List.ext_getElem (by simp [load64LeBuf]; omega) fun i _ _ => ?_
  rw [wordsOf_getElem]
  simp only [load64LeBuf, List.getElem_append, List.length_append, List.length_take, wordsOf_length,
    List.length_map, List.length_range]
  split
  · split
    · rw [List.getElem_take, wordsOf_getElem, loadWord_append (by omega)]
    · obtain ⟨j, rfl⟩ := Nat.exists_eq_add_of_le (show w ≤ i by omega)
      rw [List.getElem_map, List.getElem_range, loadWord_append_right hc, loadWord_take (by omega)]
      congr 1
      omega
  · rw [List.getElem_drop, wordsOf_getElem, loadWord_of_le (by omega),
      loadWord_of_le (by rw [List.length_append]; omega)]

/-! ### What a context holds -/

/-- A block of the hash on numbers: the hash, and the count of the bytes before. -/
def blakeStep (s : List ℕ × ℕ) (c : List UInt8) : List ℕ × ℕ :=
  (blake2bCompress s.1 (wordsOf c) (s.2 + 128) false, s.2 + 128)

/-- What a context holds after the bytes `m`: whole blocks of them in the hash, each with the count
    of the bytes so far, and the rest in the words of the buffer. -/
structure Absorbs (hash : List ℕ) (m c : List UInt8) (ctx : Blake2bCtx) : Prop where
  input : ctx.input = wordsOf c
  inputIdx : ctx.inputIdx = c.length
  c_le : c.length ≤ 128
  offset0 : ctx.offset0 < 2 ^ 64
  absorbed : Blocks.Absorbed 128 blakeStep (hash, 0) m
    (ctx.hash, ctx.offset0 + 2 ^ 64 * ctx.offset1) c

variable {hash : List ℕ} {m c x : List UInt8} {ctx : Blake2bCtx}

theorem blakeStep_blocks_offset (n : ℕ) (s : List ℕ × ℕ) (l : List UInt8) :
    (Blocks.blocks 128 blakeStep n s l).2 = s.2 + 128 * n := by
  induction n generalizing s l with
  | zero => rfl
  | succ n ih =>
    rw [Blocks.blocks_succ, ih, blakeStep]
    ring

/-- The offset counts the bytes that are in the hash. -/
theorem Absorbs.offset (h : ctx.Absorbs hash m c) :
    ctx.offset0 + 2 ^ 64 * ctx.offset1 + c.length = m.length := by
  obtain ⟨n, l, rfl, hl, hs⟩ := h.absorbed
  have hoff : ctx.offset0 + 2 ^ 64 * ctx.offset1 = 0 + 128 * n :=
    (congrArg Prod.snd hs).trans (blakeStep_blocks_offset n _ l)
  rw [List.length_append, hl, hoff, Nat.zero_add]

/-- `blake2b_compress` counts the buffer with a carry between two words, and is the compression on
    numbers. -/
theorem Absorbs.compress_eq (h : ctx.Absorbs hash m c) (hm : m.length < 2 ^ 128) (isLast : Bool) :
    (ctx.compress isLast).hash = blake2bCompress ctx.hash (wordsOf c) m.length isLast ∧
      (ctx.compress isLast).offset0 < 2 ^ 64 ∧
      (ctx.compress isLast).offset0 + 2 ^ 64 * (ctx.compress isLast).offset1 = m.length := by
  have hoff := h.offset
  have hlow := h.offset0
  have hle := h.c_le
  obtain ⟨x0, hx0⟩ : ∃ x0, x0 = u64 (ctx.offset0 + c.length) := ⟨_, rfl⟩
  obtain ⟨x1, hx1⟩ : ∃ x1, x1 = if x0 < c.length then u64 (ctx.offset1 + 1) else ctx.offset1 := ⟨_, rfl⟩
  have hmod : m.length % 0x10000000000000000 = x0 := by
    rw [hx0, u64]
    omega
  have hdiv : m.length / 0x10000000000000000 = x1 := by
    simp only [u64] at hx0 hx1
    split at hx1 <;> omega
  have hlast : (if isLast then blake2bIv.getD 6 0 ^^^ 0xFFFFFFFFFFFFFFFF else blake2bIv.getD 6 0) =
      blake2bIv.getD 6 0 ^^^ (if isLast then 0xFFFFFFFFFFFFFFFF else 0) := by
    cases isLast <;> rfl
  refine ⟨?_, ?_, ?_⟩
  · simp only [compress, blake2bCompress, h.input, h.inputIdx, ← hx0, ← hx1, hlast]
    rw [hdiv, show u64 m.length = x0 from hmod]
  · simp only [compress, h.inputIdx, ← hx0]
    omega
  · simp only [compress, h.inputIdx, ← hx0, ← hx1]
    omega

/-- Bytes that go into the buffer. -/
theorem Absorbs.fill (h : ctx.Absorbs hash m c) (hx : c.length + x.length ≤ 128) :
    Absorbs hash (m ++ x) (c ++ x)
      { ctx with input := wordsOf (c ++ x), inputIdx := (c ++ x).length } where
  input := rfl
  inputIdx := rfl
  c_le := by rwa [List.length_append]
  offset0 := h.offset0
  absorbed := h.absorbed.fill x

/-- A full buffer goes into the hash. -/
theorem Absorbs.flush (h : ctx.Absorbs hash m c) (hc : c.length = 128) (hm : m.length < 2 ^ 128) :
    Absorbs hash m [] { ctx.compress false with input := wordsOf [], inputIdx := 0 } := by
  obtain ⟨hhash, hlow, hoff⟩ := h.compress_eq hm false
  have hprev := h.offset
  refine ⟨rfl, rfl, Nat.zero_le _, hlow, ?_⟩
  have hflush := h.absorbed.flush hc
  rw [hc] at hprev
  rwa [blakeStep, hprev, ← hhash, ← hoff] at hflush

/-- The bytes of `orBytes` go into one word. -/
theorem orBytes_wordsOf {bs : List UInt8} (h : c.length % 8 + bs.length ≤ 8) :
    orBytes (wordsOf c) (c.length / 8) (c.length % 8) bs = wordsOf (c ++ bs) := by
  induction bs generalizing c with
  | nil => rw [orBytes, List.append_nil]
  | cons b bs ih =>
    rw [List.length_cons] at h
    rw [orBytes, orByte_wordsOf]
    by_cases hbs : bs.length = 0
    · obtain rfl := List.eq_nil_of_length_eq_zero hbs
      rfl
    · have hlen : (c ++ [b]).length = c.length + 1 := by rw [List.length_append, List.length_singleton]
      have hword : (c ++ [b]).length / 8 = c.length / 8 := by omega
      have hbyte : (c ++ [b]).length % 8 = c.length % 8 + 1 := by omega
      have hrest := ih (c := c ++ [b]) (by omega)
      rwa [hword, hbyte, List.append_assoc, List.singleton_append] at hrest

theorem and_7 (x : ℕ) : x &&& 7 = x % 8 := Nat.and_two_pow_sub_one_eq_mod x 3

theorem and_127 (x : ℕ) : x &&& 127 = x % 128 := Nat.and_two_pow_sub_one_eq_mod x 7

/-- The words are aligned, or the message ran out. -/
theorem Absorbs.alignWord (h : ctx.Absorbs hash m c) (x : List UInt8) :
    ∃ y z, x = y ++ z ∧ (ctx.alignWord x).2 = z ∧
      Absorbs hash (m ++ y) (c ++ y) (ctx.alignWord x).1 ∧ ((c ++ y).length % 8 = 0 ∨ z = []) := by
  have hgap : gap c.length 8 = (8 - c.length % 8) % 8 := gap_eq _ (k := 3) (by decide)
  have hle := h.c_le
  rw [Blake2bCtx.alignWord, and_7, h.inputIdx]
  split
  · rename_i hopen
    obtain ⟨a, ha⟩ : ∃ a, min (gap c.length 8) x.length = a := ⟨_, rfl⟩
    have htake : (x.take a).length = a := List.length_take_of_le (by omega)
    have hlen : (c ++ x.take a).length = c.length + a := by rw [List.length_append, htake]
    have hfill := h.fill (x := x.take a) (by omega)
    have hwords := @orBytes_wordsOf c (x.take a) (by omega)
    simp only [ha, h.input, Nat.shiftRight_eq_div_pow]
    refine ⟨x.take a, x.drop a, (List.take_append_drop a x).symm, rfl, ?_, ?_⟩
    · rwa [← hwords, hlen] at hfill
    · rw [hlen]
      by_cases hrun : a = x.length
      · exact .inr (List.drop_of_length_le hrun.ge)
      · exact .inl (by omega)
  · rename_i haligned
    refine ⟨[], x, rfl, rfl, ?_, .inl ?_⟩
    · rwa [List.append_nil, List.append_nil]
    · rw [List.append_nil]
      omega

/-- The block is aligned, or less than a word of the message is left. -/
theorem Absorbs.alignBlock (h : ctx.Absorbs hash m c) (hc : c.length % 8 = 0 ∨ x = []) :
    ∃ y z, x = y ++ z ∧ (ctx.alignBlock x).2 = z ∧
      Absorbs hash (m ++ y) (c ++ y) (ctx.alignBlock x).1 ∧ ((c ++ y).length % 128 = 0 ∨
        ((c ++ y).length % 8 = 0 ∧ (c ++ y).length < 128 ∧ z.length < 8) ∨ z = []) := by
  have hgap : gap c.length 128 = (128 - c.length % 128) % 128 := gap_eq _ (k := 7) (by decide)
  have hle := h.c_le
  rw [Blake2bCtx.alignBlock, and_127, h.inputIdx]
  split
  · rename_i hopen
    obtain ⟨n, hn⟩ : ∃ n, min (gap c.length 128) x.length >>> 3 = n := ⟨_, rfl⟩
    have hn8 : min (gap c.length 128) x.length / 2 ^ 3 = n := by rw [← hn, Nat.shiftRight_eq_div_pow]
    have htake : (x.take (8 * n)).length = 8 * n := List.length_take_of_le (by omega)
    have hlen : (c ++ x.take (8 * n)).length = c.length + 8 * n := by rw [List.length_append, htake]
    have hshift : n <<< 3 = 8 * n := by rw [Nat.shiftLeft_eq, Nat.mul_comm]
    have hfill := h.fill (x := x.take (8 * n)) (by omega)
    simp only [hn, hshift, h.input, Nat.shiftRight_eq_div_pow]
    refine ⟨x.take (8 * n), x.drop (8 * n), (List.take_append_drop _ x).symm, rfl, ?_, ?_⟩
    · obtain hc | rfl := hc
      · rwa [load64LeBuf_wordsOf (by omega) (by omega) (by omega), ← hlen]
      · obtain rfl : n = 0 := by simpa using hn.symm
        simpa [load64LeBuf] using hfill
    · rw [hlen, List.length_drop]
      obtain hc | rfl := hc
      · by_cases hfull : (c.length + 8 * n) % 128 = 0
        · exact .inl hfull
        · exact .inr (.inl (by omega))
      · exact .inr (.inr (List.drop_nil))
  · rename_i haligned
    refine ⟨[], x, rfl, rfl, ?_, .inl ?_⟩
    · rwa [List.append_nil, List.append_nil]
    · rw [List.append_nil]
      omega

/-- A whole block of the message in the place of the buffer. -/
theorem load64LeBuf_block {input : List ℕ} (hinput : input.length = 16) :
    load64LeBuf input 0 x 16 = wordsOf (x.take 128) := by
  rw [load64LeBuf, List.take_zero, List.nil_append, List.drop_of_length_le (by omega), List.append_nil]
  refine List.map_congr_left fun i hi => (loadWord_take ?_).symm
  have := List.mem_range.mp hi
  omega

/-- STEP: a block of the message, and the one before it into the hash. -/
theorem Absorbs.block (h : ctx.Absorbs hash m c) (hc : c.length = 0 ∨ c.length = 128)
    (hx : 128 ≤ x.length) (hm : m.length < 2 ^ 128) :
    let next := if ctx.inputIdx = 128 then ctx.compress false else ctx
    Absorbs hash (m ++ x.take 128) (x.take 128)
      { next with input := load64LeBuf next.input 0 x 16, inputIdx := 128 } := by
  intro next
  have htake : (x.take 128).length = 128 := List.length_take_of_le hx
  have hinput : next.input = wordsOf c := by
    simp only [next]
    split
    · exact h.input
    · exact h.input
  have hempty : Absorbs hash m [] { next with input := wordsOf [], inputIdx := 0 } := by
    obtain hc | hc := hc
    · obtain rfl := List.eq_nil_of_length_eq_zero hc
      have hnext : next = ctx := if_neg (by rw [h.inputIdx]; decide)
      rw [hnext]
      exact ⟨rfl, rfl, Nat.zero_le _, h.offset0, h.absorbed⟩
    · have hnext : next = ctx.compress false := if_pos (h.inputIdx.trans hc)
      rw [hnext]
      exact h.flush hc hm
  have hfill := hempty.fill (x := x.take 128) (by simp)
  rw [List.nil_append, htake] at hfill
  rwa [load64LeBuf_block (by rw [hinput, wordsOf_length])]

/-- RUN: block by block. -/
theorem Absorbs.takeBlocks {n : ℕ} (h : ctx.Absorbs hash m c)
    (hc : c.length = 0 ∨ c.length = 128 ∨ n = 0) (hx : 128 * n ≤ x.length)
    (hm : m.length + x.length < 2 ^ 128) :
    ∃ d, Absorbs hash (m ++ x.take (128 * n)) d (takeBlocks n ctx x) ∧
      (n = 0 ∧ d = c ∨ d.length = 128) := by
  induction n generalizing m c ctx x with
  | zero =>
    rw [Nat.mul_zero, List.take_zero, List.append_nil]
    exact ⟨c, h, .inl ⟨rfl, rfl⟩⟩
  | succ n ih =>
    have htake : (x.take 128).length = 128 := List.length_take_of_le (by omega)
    have hblock := h.block (x := x) (by omega) (by omega) (by omega)
    obtain ⟨d, hd, hlen⟩ := ih (x := x.drop 128) hblock (.inr (.inl htake))
      (by rw [List.length_drop]; omega) (by rw [List.length_append, List.length_drop, htake]; omega)
    refine ⟨d, ?_, .inr ?_⟩
    · rwa [List.append_assoc, ← List.take_add, Nat.add_comm, ← Nat.mul_succ] at hd
    · obtain ⟨-, rfl⟩ | hlen := hlen
      · exact htake
      · exact hlen

/-- RUN: byte by byte. -/
theorem Absorbs.fillBytes (h : ctx.Absorbs hash m c) (hx : c.length + x.length ≤ 128) :
    Absorbs hash (m ++ x) (c ++ x) (fillBytes ctx x) := by
  induction x generalizing m c ctx with
  | nil => rwa [List.append_nil, List.append_nil]
  | cons b x ih =>
    rw [List.length_cons] at hx
    have hfill := h.fill (x := [b]) (by rw [List.length_singleton]; omega)
    have hrest := ih hfill (by rw [List.length_append, List.length_singleton]; omega)
    rw [List.append_assoc, List.append_assoc, List.singleton_append] at hrest
    rw [Blake2bCtx.fillBytes, h.input, h.inputIdx, Nat.shiftRight_eq_div_pow, and_7]
    rw [← orByte_wordsOf, List.length_append, List.length_singleton] at hrest
    exact hrest

/-- A full buffer is emptied before the rest of a message. If that has a whole word, the buffer is
    empty then, since the two alignments stop only at a block or short of a word. -/
theorem Absorbs.flushInput (h : ctx.Absorbs hash m c) (hlt : x.length < 128)
    (hc : c.length % 128 = 0 ∨ c.length % 8 = 0 ∧ c.length < 128 ∧ x.length < 8)
    (hm : m.length < 2 ^ 128) :
    ∃ e, Absorbs hash m e ctx.flushInput ∧ e.length % 8 = 0 ∧ e.length + x.length ≤ 128 ∧
      (8 ≤ x.length → ctx.flushInput.inputIdx = 0) := by
  have hle := h.c_le
  rw [Blake2bCtx.flushInput, ← wordsOf_nil]
  by_cases hfull : c.length = 128
  · have hflush := h.flush hfull hm
    simp only [h.inputIdx, hfull, if_true]
    exact ⟨[], hflush, rfl, by simpa using hlt.le, fun _ => trivial⟩
  · by_cases hempty : c.length = 0
    · obtain rfl := List.eq_nil_of_length_eq_zero hempty
      simp only [h.inputIdx, List.length_nil, if_neg (show 0 ≠ 128 by decide), if_true]
      exact ⟨[], ⟨rfl, rfl, h.c_le, h.offset0, h.absorbed⟩, rfl, by simpa using hlt.le,
        fun _ => trivial⟩
    · simp only [h.inputIdx, if_neg hfull, if_neg hempty]
      exact ⟨c, h, by omega, by omega, fun hx => by omega⟩

/-- What is left of a message goes into the buffer. -/
theorem Absorbs.fillRest (h : ctx.Absorbs hash m c) (hlt : x.length < 128)
    (hc : c.length % 128 = 0 ∨ c.length % 8 = 0 ∧ c.length < 128 ∧ x.length < 8 ∨ x = [])
    (hm : m.length < 2 ^ 128) :
    ∃ d, Absorbs hash (m ++ x) d (ctx.fillRest x) ∧ (x = [] ∧ d = c ∨ d ≠ []) := by
  rw [Blake2bCtx.fillRest]
  split
  · rename_i hx
    have hne : x ≠ [] := fun h => hx (congrArg List.length h)
    obtain ⟨e, he, he8, hex, hword⟩ := h.flushInput hlt (hc.imp_right (·.resolve_right hne)) hm
    obtain ⟨n, hn⟩ : ∃ n, x.length >>> 3 = n := ⟨_, rfl⟩
    have hn8 : x.length / 2 ^ 3 = n := by rw [← hn, Nat.shiftRight_eq_div_pow]
    have hshift : n <<< 3 = 8 * n := by rw [Nat.shiftLeft_eq, Nat.mul_comm]
    have htake : (x.take (8 * n)).length = 8 * n := List.length_take_of_le (by omega)
    have hload : load64LeBuf (wordsOf e) 0 x n = wordsOf (e ++ x.take (8 * n)) := by
      by_cases hn0 : n = 0
      · subst hn0
        simp [load64LeBuf]
      · have hidx := hword (by omega)
        rw [he.inputIdx] at hidx
        exact load64LeBuf_wordsOf (by omega) (by omega) (by omega)
    have hwords := he.fill (x := x.take (8 * n)) (by omega)
    have hbytes := hwords.fillBytes (x := x.drop (8 * n))
      (by rw [List.length_append, List.length_drop, htake]; omega)
    rw [List.append_assoc, List.append_assoc, List.take_append_drop, List.length_append, htake,
      ← hload] at hbytes
    refine ⟨e ++ x, ?_, .inr fun h => hne (List.append_eq_nil_iff.mp h).2⟩
    simp only [hn, hshift, he.input, he.inputIdx]
    exact hbytes
  · rename_i hx
    obtain rfl := List.eq_nil_of_length_eq_zero (not_not.mp hx)
    exact ⟨c, by rwa [List.append_nil], .inl ⟨rfl, rfl⟩⟩

/-! ### The size stays -/

@[simp] theorem compress_hashSize (ctx : Blake2bCtx) (isLast : Bool) :
    (ctx.compress isLast).hashSize = ctx.hashSize := rfl

@[simp] theorem takeBlocks_hashSize (n : ℕ) (ctx : Blake2bCtx) (x : List UInt8) :
    (takeBlocks n ctx x).hashSize = ctx.hashSize := by
  induction n generalizing ctx x with
  | zero => rfl
  | succ n ih =>
    rw [takeBlocks, ih]
    split <;> rfl

@[simp] theorem fillBytes_hashSize (ctx : Blake2bCtx) (x : List UInt8) :
    (fillBytes ctx x).hashSize = ctx.hashSize := by
  induction x generalizing ctx with
  | nil => rfl
  | cons b x ih => rw [fillBytes, ih]

@[simp] theorem alignWord_hashSize (ctx : Blake2bCtx) (x : List UInt8) :
    (ctx.alignWord x).1.hashSize = ctx.hashSize := by
  rw [alignWord]
  split <;> rfl

@[simp] theorem alignBlock_hashSize (ctx : Blake2bCtx) (x : List UInt8) :
    (ctx.alignBlock x).1.hashSize = ctx.hashSize := by
  rw [alignBlock]
  split <;> rfl

@[simp] theorem flushInput_hashSize (ctx : Blake2bCtx) : ctx.flushInput.hashSize = ctx.hashSize := by
  rw [flushInput]
  split <;> split <;> rfl

@[simp] theorem fillRest_hashSize (ctx : Blake2bCtx) (x : List UInt8) :
    (ctx.fillRest x).hashSize = ctx.hashSize := by
  rw [fillRest]
  split
  · simp
  · rfl

@[simp] theorem update_hashSize (ctx : Blake2bCtx) (x : List UInt8) :
    (ctx.update x).hashSize = ctx.hashSize := by
  rw [update]
  split
  · rfl
  · simp

theorem updates_hashSize (ctx : Blake2bCtx) (xs : List (List UInt8)) :
    (xs.foldl Blake2bCtx.update ctx).hashSize = ctx.hashSize := by
  induction xs generalizing ctx with
  | nil => rfl
  | cons x xs ih => rw [List.foldl_cons, ih, update_hashSize]

/-! ### Updates -/

/-- What a context holds between two updates: the buffer is empty before the first byte only. -/
def Holds (hash : List ℕ) (m : List UInt8) (ctx : Blake2bCtx) : Prop :=
  ∃ c, Absorbs hash m c ctx ∧ (c = [] → m = [])

/-- STEP: `crypto_blake2b_update` takes all of its input. -/
theorem Holds.update (h : ctx.Holds hash m) (hm : m.length + x.length < 2 ^ 128) :
    (ctx.update x).Holds hash (m ++ x) := by
  obtain ⟨c, hc, hlazy⟩ := h
  by_cases hx : x.length = 0
  · obtain rfl := List.eq_nil_of_length_eq_zero hx
    rw [List.append_nil]
    exact ⟨c, hc, hlazy⟩
  · obtain ⟨y₁, z₁, rfl, hz₁, h₁, hword⟩ := hc.alignWord x
    obtain ⟨y₂, z₂, rfl, hz₂, h₂, hblock⟩ := h₁.alignBlock hword
    have h₂le := h₂.c_le
    simp only [List.length_append] at hx hm hblock h₂le
    obtain ⟨n, hn⟩ : ∃ n, z₂.length >>> 7 = n := ⟨_, rfl⟩
    have hn128 : z₂.length / 2 ^ 7 = n := by rw [← hn, Nat.shiftRight_eq_div_pow]
    have hshift : n <<< 7 = 128 * n := by rw [Nat.shiftLeft_eq, Nat.mul_comm]
    have htake : (z₂.take (128 * n)).length = 128 * n := List.length_take_of_le (by omega)
    replace hblock := hblock.imp_right (Or.imp_right (congrArg List.length))
    rw [List.length_nil] at hblock
    obtain ⟨d, h₃, hd⟩ := h₂.takeBlocks (n := n) (x := z₂)
      (by simp only [List.length_append]; omega) (by omega) (by simp only [List.length_append]; omega)
    have hdlen : n = 0 ∧ d.length = c.length + y₁.length + y₂.length ∨ d.length = 128 :=
      hd.imp_left fun ⟨h0, hd⟩ => ⟨h0, by rw [hd]; simp only [List.length_append]⟩
    obtain ⟨e, h₄, he⟩ := h₃.fillRest (x := z₂.drop (128 * n)) (by rw [List.length_drop]; omega)
      (by rw [← List.length_eq_zero_iff (l := z₂.drop _), List.length_drop]; omega)
      (by simp only [List.length_append, htake]; omega)
    rw [Blake2bCtx.update, if_neg (by simpa only [List.length_append] using hx)]
    simp only [hz₁, hz₂, hn, hshift]
    refine ⟨e, ?_, fun hnil => ?_⟩
    · rw [List.append_assoc, List.take_append_drop, List.append_assoc, List.append_assoc] at h₄
      exact h₄
    · -- nothing is in the buffer only where nothing came
      obtain ⟨hdrop, rfl⟩ | hne := he
      · have hlen := congrArg List.length hdrop
        have hdnil := congrArg List.length hnil
        simp only [List.length_drop, List.length_nil] at hlen hdnil
        omega
      · exact (hne hnil).elim

/-- RUN: so do any number of updates. -/
theorem Holds.updates (h : ctx.Holds hash m) (xs : List (List UInt8))
    (hm : m.length + xs.flatten.length < 2 ^ 128) :
    (xs.foldl Blake2bCtx.update ctx).Holds hash (m ++ xs.flatten) := by
  induction xs generalizing ctx m with
  | nil => rwa [List.flatten_nil, List.append_nil]
  | cons x xs ih =>
    rw [List.flatten_cons, List.length_append] at hm
    rw [List.foldl_cons, List.flatten_cons, ← List.append_assoc]
    exact ih (h.update (by omega)) (by rw [List.length_append]; omega)

/-! ### The end -/

/-- Whole blocks of the hash on numbers, and the last one. -/
theorem blake2bBlocks_append {n : ℕ} (k : ℕ) (hash : List ℕ) (offset : ℕ) {l c : List UInt8}
    (hl : l.length = 128 * n) (hc : c.length ≤ 128) (hn : n ≠ 0 → c.length ≠ 0) :
    blake2bBlocks (n + k + 1) hash offset (l ++ c) =
      blake2bCompress (Blocks.blocks 128 blakeStep n (hash, offset) l).1 (wordsOf c)
        (offset + (l ++ c).length) true := by
  induction n generalizing hash offset l with
  | zero =>
    obtain rfl := List.eq_nil_of_length_eq_zero hl
    rw [List.nil_append, blake2bBlocks, if_pos hc, List.take_of_length_le hc]
    rfl
  | succ n ih =>
    have hlen : (l ++ c).length = 128 * n + 128 + c.length := by
      rw [List.length_append]
      omega
    have hne := hn (Nat.succ_ne_zero n)
    have htake : (l ++ c).take 128 = l.take 128 := List.take_append_of_le_length (by omega)
    have hdrop : (l ++ c).drop 128 = l.drop 128 ++ c := List.drop_append_of_le_length (by omega)
    have hrest : (l.drop 128).length = 128 * n := by
      rw [List.length_drop]
      omega
    have hoffset : offset + 128 + (l.drop 128 ++ c).length = offset + (l ++ c).length := by
      rw [List.length_append, hrest, hlen]
      omega
    rw [Nat.succ_add, blake2bBlocks, if_neg (by omega), htake, hdrop,
      ih _ _ hrest fun _ => hne, hoffset, Blocks.blocks_succ]
    rfl

/-- The last compression ends the hash on numbers. -/
theorem Holds.compress_eq (h : ctx.Holds hash m) (hm : m.length < 2 ^ 128) :
    (ctx.compress true).hash = blake2bBlocks (m.length / 128 + 1) hash 0 m := by
  obtain ⟨c, hc, hlazy⟩ := h
  have hle := hc.c_le
  rw [(hc.compress_eq hm true).1]
  obtain ⟨n, l, rfl, hl, hs⟩ := hc.absorbed
  have hhash : ctx.hash = (Blocks.blocks 128 blakeStep n (hash, 0) l).1 := congrArg Prod.fst hs
  have hn : n ≠ 0 → c.length ≠ 0 := fun hn hzero => by
    have hnil := congrArg List.length (hlazy (List.eq_nil_of_length_eq_zero hzero))
    rw [List.length_append, List.length_nil] at hnil
    omega
  obtain ⟨k, hk⟩ : ∃ k, (l ++ c).length / 128 + 1 = n + k + 1 := by
    refine ⟨(l ++ c).length / 128 - n, ?_⟩
    rw [List.length_append]
    omega
  rw [hk, blake2bBlocks_append k hash 0 hl hle hn, ← hhash, Nat.zero_add]

/-- The block of a key, if there is one. -/
def keyBlock (key : List UInt8) : List UInt8 :=
  if key.length > 0 then key ++ List.replicate (128 - key.length) 0 else []

theorem keyedInit_holds (hashSize : ℕ) {key : List UInt8} (hkey : key.length ≤ 64) :
    (keyedInit hashSize key).Holds (keyedInit hashSize key).hash (keyBlock key) := by
  have hlen : (keyBlock key).length = if key.length > 0 then 128 else 0 := by
    rw [keyBlock]
    split
    · rw [List.length_append, List.length_replicate]
      omega
    · rfl
  refine ⟨keyBlock key, ⟨?_, hlen.symm, by rw [hlen]; split <;> omega, Nat.zero_lt_succ _, ?_⟩, id⟩
  · rw [keyBlock, apply_ite wordsOf, wordsOf_nil]
    rfl
  · exact Blocks.Absorbed.init.fill _

/-- A byte of a hash, as the last loop of `crypto_blake2b_final` reads it. -/
def hashByte (hash : List ℕ) (i : ℕ) : UInt8 :=
  ((hash.getD (i >>> 3) 0 >>> (8 * (i &&& 7))) &&& 0xff).toUInt8

theorem storeLe_eq_map (k n : ℕ) :
    storeLe k n = (List.range k).map fun i => ((n >>> (8 * i)) &&& 0xff).toUInt8 := by
  induction k generalizing n with
  | zero => rfl
  | succ k ih =>
    have hbyte : ∀ x : ℕ, (x &&& 0xff).toUInt8 = x.toUInt8 := fun x => by
      apply UInt8.toNat.inj
      rw [show x &&& 0xff = x % 256 from Nat.and_two_pow_sub_one_eq_mod x 8]
      simp
    rw [storeLe, ih, List.range_succ_eq_map, List.map_cons, List.map_map]
    refine congrArg₂ _ (by simp [hbyte]) (List.map_congr_left fun i _ => ?_)
    simp only [Function.comp, Nat.shiftRight_eq_div_pow, Nat.succ_eq_add_one, Nat.mul_add, Nat.mul_one,
      Nat.add_comm (8 * i), pow_add, Nat.div_div_eq_div_mul]
    rfl

/-- The words of a hash, and the bytes of the word that is cut. -/
theorem take_hash (hash : List ℕ) {size : ℕ} (hsize : size ≤ 8 * hash.length) :
    (hash.take (size / 8)).flatMap (storeLe 8) ++
        (List.range' (8 * (size / 8)) (size - 8 * (size / 8))).map (hashByte hash) =
      (hash.flatMap (storeLe 8)).take size := by
  induction hash generalizing size with
  | nil =>
    obtain rfl : size = 0 := by simpa using hsize
    rfl
  | cons w ws ih =>
    rw [List.length_cons] at hsize
    by_cases hword : size < 8
    · have hrange : (List.range size).map (hashByte (w :: ws)) = (storeLe 8 w).take size := by
        rw [storeLe_eq_map, ← List.map_take, List.take_range, Nat.min_eq_left hword.le]
        refine List.map_congr_left fun i hi => ?_
        have hi := List.mem_range.mp hi
        have hdiv : i / 2 ^ 3 = 0 := Nat.div_eq_of_lt (by omega)
        rw [hashByte, and_7, Nat.mod_eq_of_lt (by omega : i < 8), Nat.shiftRight_eq_div_pow i, hdiv]
        rfl
      rw [Nat.div_eq_of_lt hword, List.take_zero, List.flatMap_nil, List.nil_append, Nat.mul_zero,
        Nat.sub_zero, ← List.range_eq_range', hrange, List.flatMap_cons,
        List.take_append_of_le_length (by rw [storeLe_length]; omega)]
    · obtain ⟨s, rfl⟩ := Nat.exists_eq_add_of_le (Nat.not_lt.mp hword)
      have hshift : ∀ i, hashByte (w :: ws) (8 + i) = hashByte ws i := fun i => by
        rw [hashByte, hashByte, and_7, and_7, Nat.add_mod_left, Nat.shiftRight_eq_div_pow (8 + i),
          Nat.shiftRight_eq_div_pow i, show 2 ^ 3 = 8 from rfl, Nat.add_div_left i (by decide)]
        rfl
      have htail : 8 + s - 8 * (s / 8 + 1) = s - 8 * (s / 8) := by omega
      rw [Nat.add_div_left s (by decide), List.take_succ_cons, List.flatMap_cons, List.flatMap_cons, htail,
        Nat.mul_add, Nat.mul_one, Nat.add_comm (8 * (s / 8)), ← List.map_add_range', List.map_map,
        List.append_assoc, List.take_append, storeLe_length, Nat.add_sub_cancel_left,
        List.take_of_length_le (l := storeLe 8 w) (by rw [storeLe_length]; omega), ← ih (by omega)]
      congr 2
      exact List.map_congr_left fun i _ => hshift i

/-- `crypto_blake2b_final` gives the hash of what was taken, cut to its size. -/
theorem Holds.final_eq (h : ctx.Holds hash m) (hm : m.length < 2 ^ 128) (hsize : ctx.hashSize ≤ 64) :
    ctx.final =
      ((blake2bBlocks (m.length / 128 + 1) hash 0 m).flatMap (storeLe 8)).take ctx.hashSize := by
  have hlen : (ctx.compress true).hash.length = 8 := by simp [compress]
  have hmin : min (ctx.compress true).hashSize 64 = ctx.hashSize := Nat.min_eq_left hsize
  have hwords : ctx.hashSize >>> 3 = ctx.hashSize / 8 := Nat.shiftRight_eq_div_pow _ 3
  have hbytes : (ctx.hashSize / 8) <<< 3 = 8 * (ctx.hashSize / 8) := by
    rw [Nat.shiftLeft_eq, Nat.mul_comm]
  rw [← h.compress_eq hm, ← take_hash _ (by omega), final, hmin]
  simp only [hwords, hbytes]
  rfl

/-- RUN: however the input comes in pieces, the hash is that of the whole, with the block of the key
    before it. -/
theorem final_updates {hashSize : ℕ} {key : List UInt8} {xs : List (List UInt8)} (hsize : hashSize ≤ 64)
    (hkey : key.length ≤ 64) (hxs : 128 + xs.flatten.length < 2 ^ 128) :
    (xs.foldl Blake2bCtx.update (keyedInit hashSize key)).final =
      ((blake2bBlocks ((keyBlock key ++ xs.flatten).length / 128 + 1) (keyedInit hashSize key).hash 0
        (keyBlock key ++ xs.flatten)).flatMap (storeLe 8)).take hashSize := by
  have hblock : (keyBlock key).length ≤ 128 := by
    rw [keyBlock]
    split
    · rw [List.length_append, List.length_replicate]
      omega
    · exact Nat.zero_le _
  have hholds := (keyedInit_holds hashSize hkey).updates xs (by omega)
  have hkeep := updates_hashSize (keyedInit hashSize key) xs
  have hfinal := hholds.final_eq (by rw [List.length_append]; omega) (hkeep.trans_le hsize)
  rwa [hkeep] at hfinal

/-- RUN: without a key, and at its full size, the hash is that of the daemon. -/
theorem init_updates (xs : List (List UInt8)) (hxs : xs.flatten.length < 2 ^ 64) :
    (xs.foldl Blake2bCtx.update (init 64)).final = cryptoBlake2b xs.flatten := by
  have hlen := cryptoBlake2b_length xs.flatten
  have hfinal := @final_updates 64 [] xs le_rfl (Nat.zero_le _) (by omega)
  rw [show keyBlock [] = [] from rfl, List.nil_append] at hfinal
  rw [init, hfinal]
  exact List.take_of_length_le hlen.le

/-- CORRECT: however the input is cut into updates, the hash is that of the whole in one update; of
    full size and without a key, it is the hash of the daemon. -/
theorem pieces_hash {hashSize : ℕ} {key : List UInt8} {xs : List (List UInt8)} (hsize : hashSize ≤ 64)
    (hkey : key.length ≤ 64) (hxs : xs.flatten.length < 2 ^ 64) :
    (xs.foldl Blake2bCtx.update (keyedInit hashSize key)).final =
        ((keyedInit hashSize key).update xs.flatten).final ∧
      (xs.foldl Blake2bCtx.update (init 64)).final = cryptoBlake2b xs.flatten := by
  have hlen : 128 + xs.flatten.length < 2 ^ 128 := by omega
  have hone := @final_updates hashSize key [xs.flatten] hsize hkey (by simpa using hlen)
  rw [List.flatten_singleton] at hone
  exact ⟨(final_updates hsize hkey hlen).trans hone.symm, init_updates xs hxs⟩

theorem pieces_hash_abc :
    ([[0x61], [], [0x62, 0x63]].foldl Blake2bCtx.update (init 64)).final =
      cryptoBlake2b [0x61, 0x62, 0x63] :=
  (@pieces_hash 64 [] [[0x61], [], [0x62, 0x63]] le_rfl (by decide) (by decide)).2

end Blake2bCtx

end Asys
