import Asys.Core.LittleEndian

/-! # crypto_chacha20_djb

    The input of the source is sixteen words, and its counter is two of them, with a carry by hand.
    A text is taken word by word, and the last bytes one by one; without a text the key stream is
    given as it is. -/

namespace Asys

namespace Chacha20

/-- The input for a key, a nonce and the two words of the counter. -/
def input (key nonce : List UInt8) (ctr0 ctr1 : ℕ) : List ℕ :=
  (List.range 4).map (loadWord 4 chacha20Constant) ++ (List.range 8).map (loadWord 4 key) ++
    [ctr0, ctr1] ++ (List.range 2).map (loadWord 4 nonce)

/-- `pool[j] + input[j]`, after the rounds. -/
def streamWord (input : List ℕ) (j : ℕ) : ℕ :=
  let pool := (chacha20Rounds (columnsOf fun i => input.getD i 0)).words
  u32 (pool.getD j 0 + input.getD j 0)

/-- `input[12]++`, and the carry into `input[13]`. -/
def count (input : List ℕ) : List ℕ :=
  let input := input.set 12 (u32 (input.getD 12 0 + 1))
  if input.getD 12 0 = 0 then input.set 13 (u32 (input.getD 13 0 + 1)) else input

/-- "Whole blocks": the bytes, the input and the rest of the text after them. -/
def wholeBlocks : ℕ → List ℕ → Option (List UInt8) → List UInt8 × List ℕ × Option (List UInt8)
  | 0, input, plainText => ([], input, plainText)
  | n + 1, input, plainText =>
    let block :=
      match plainText with
      | some text =>
        (List.range 16).flatMap fun j => storeLe 4 (streamWord input j ^^^ load32Le text (4 * j))
      | none => (List.range 16).flatMap fun j => storeLe 4 (streamWord input j)
    let (rest, input, plainText) := wholeBlocks n (count input) (plainText.map (List.drop 64))
    (block ++ rest, input, plainText)

/-- `crypto_chacha20_djb`: the text it writes, and the counter it returns. -/
def cryptoChacha20Djb (plainText : Option (List UInt8)) (textSize : ℕ) (key nonce : List UInt8)
    (ctr : ℕ) : List UInt8 × ℕ :=
  let (whole, input, plainText) :=
    wholeBlocks (textSize >>> 6) (input key nonce (u32 ctr) (u32 (ctr >>> 32))) plainText
  let textSize := textSize &&& 63
  let last :=
    if textSize > 0 then
      let plainText := plainText.getD (List.replicate 128 0)
      let tmp := (List.range 16).flatMap fun i => storeLe 4 (streamWord input i)
      (List.range textSize).map fun i => tmp.getD i 0 ^^^ plainText.getD i 0
    else []
  (whole ++ last,
    u64 (input.getD 12 0 + (input.getD 13 0) <<< 32 + if textSize > 0 then 1 else 0))

/-! ### The input -/

/-- The input at a value of the counter. -/
def inputAt (key nonce : List UInt8) (ctr : ℕ) : List ℕ := input key nonce (u32 ctr) (u32 (ctr >>> 32))

/-- STEP: the two words count together. -/
theorem count_inputAt (key nonce : List UInt8) (ctr : ℕ) :
    count (inputAt key nonce ctr) = inputAt key nonce (ctr + 1) := by
  have hset : ∀ a b, count (input key nonce a b) =
      input key nonce (u32 (a + 1)) (if u32 (a + 1) = 0 then u32 (b + 1) else b) := fun a b => by
    rw [apply_ite (input key nonce (u32 (a + 1)))]
    rfl
  have hlow : u32 (u32 ctr + 1) = u32 (ctr + 1) := Nat.mod_add_mod _ _ _
  have hhigh : (if u32 (ctr + 1) = 0 then u32 (u32 (ctr >>> 32) + 1) else u32 (ctr >>> 32)) =
      u32 ((ctr + 1) >>> 32) := by
    simp only [u32, Nat.shiftRight_eq_div_pow]
    split <;> omega
  rw [inputAt, hset, hlow, hhigh]
  rfl

/-- The input is what the block on numbers reads from its bytes. -/
theorem inputAt_eq {key : List UInt8} (hkey : key.length = 32) (nonce : List UInt8)
    (ctr : ℕ) : inputAt key nonce ctr =
      (List.range 16).map
        (loadWord 4 (chacha20Constant ++ key.take 32 ++ storeLe 8 ctr ++ nonce.take 8)) := by
  have hctr : (List.range 2).map (loadWord 4 (storeLe 8 ctr)) = [u32 ctr, u32 (ctr >>> 32)] := by
    have h4 : storeLe 8 ctr = storeLe 4 ctr ++ storeLe 4 (ctr / 256 ^ 4) := storeLe_add 4 4 ctr
    have htake : ∀ n, (storeLe 4 n).take 4 = storeLe 4 n := fun n =>
      List.take_of_length_le (storeLe_length 4 n).le
    rw [h4]
    simp [List.range_succ, loadWord, htake, loadLe_storeLe, u32, Nat.shiftRight_eq_div_pow]
  have hnonces : (List.range 2).map (loadWord 4 (nonce.take 8)) =
      (List.range 2).map (loadWord 4 nonce) := by
    refine List.map_congr_left fun i hi => loadWord_take ?_
    have hi := List.mem_range.mp hi
    omega
  rw [List.take_of_length_le hkey.le, show 16 = 4 + 8 + 2 + 2 from rfl,
    map_loadWord_append (by simp [hkey, chacha20Constant]),
    map_loadWord_append (by simp [hkey, chacha20Constant]), map_loadWord_append rfl, hctr, hnonces]
  rfl

/-- The key stream of the words is that of the bytes. -/
theorem streamWords {key : List UInt8} (hkey : key.length = 32) (nonce : List UInt8) (ctr : ℕ) :
    ((List.range 16).flatMap fun j => storeLe 4 (streamWord (inputAt key nonce ctr) j)) =
      chacha20Block key nonce ctr := by
  rw [inputAt_eq hkey]
  rfl

/-! ### A block of the text -/

/-- A word of the text against a word of the stream. -/
theorem storeLe_xor (k a b : ℕ) :
    storeLe k (a ^^^ b) = List.zipWith (· ^^^ ·) (storeLe k b) (storeLe k a) := by
  induction k generalizing a b with
  | zero => rfl
  | succ k ih =>
    have hbyte : (a ^^^ b).toUInt8 = b.toUInt8 ^^^ a.toUInt8 := by
      rw [UInt8.xor_comm]
      apply UInt8.toNat.inj
      simp
    have hrest : (a ^^^ b) / 256 = a / 256 ^^^ b / 256 := Nat.xor_div_two_pow (n := 8)
    rw [storeLe, storeLe, storeLe, List.zipWith_cons_cons, hbyte, hrest, ih]

/-- Word by word is byte by byte. -/
theorem xor_words (f : ℕ → ℕ) {n : ℕ} {text : List UInt8} (hlen : 4 * n ≤ text.length) :
    ((List.range n).flatMap fun j => storeLe 4 (f j ^^^ load32Le text (4 * j))) =
      List.zipWith (· ^^^ ·) (text.take (4 * n)) ((List.range n).flatMap fun j => storeLe 4 (f j)) := by
  induction n with
  | zero => rfl
  | succ n ih =>
    have hword : storeLe 4 (load32Le text (4 * n)) = (text.drop (4 * n)).take 4 := by
      have hfour : ((text.drop (4 * n)).take 4).length = 4 := by
        rw [List.length_take, List.length_drop]
        omega
      exact (eq_storeLe hfour rfl).symm
    have htake : text.take (4 * (n + 1)) = text.take (4 * n) ++ (text.drop (4 * n)).take 4 := by
      rw [Nat.mul_succ, List.take_add]
    have hstream : ((List.range n).flatMap fun j => storeLe 4 (f j)).length = 4 * n := by
      simp [List.length_flatMap, Nat.mul_comm]
    rw [List.range_succ, List.flatMap_append, List.flatMap_append, List.flatMap_singleton,
      List.flatMap_singleton, ih (by omega), storeLe_xor, hword, htake,
      List.zipWith_append (by rw [hstream, List.length_take]; omega)]

/-- STEP: a whole block of a text. -/
theorem block_eq {key : List UInt8} (hkey : key.length = 32) (nonce : List UInt8) (ctr : ℕ)
    {text : List UInt8} (hlen : 64 ≤ text.length) :
    ((List.range 16).flatMap fun j =>
        storeLe 4 (streamWord (inputAt key nonce ctr) j ^^^ load32Le text (4 * j))) =
      List.zipWith (· ^^^ ·) (text.take 64) (chacha20Block key nonce ctr) := by
  rw [xor_words _ hlen, streamWords hkey]

/-- Zeros do not change the stream. -/
theorem xor_zeros (s : List UInt8) : List.zipWith (· ^^^ ·) (List.replicate s.length 0) s = s := by
  induction s with
  | nil => rfl
  | cons b s ih => rw [List.length_cons, List.replicate_succ, List.zipWith_cons_cons, ih, UInt8.zero_xor]

/-! ### The text -/

variable {key : List UInt8} {plainText : Option (List UInt8)} {n : ℕ}

/-- The text that is taken: zeros where there is none. -/
def textOf (plainText : Option (List UInt8)) (size : ℕ) : List UInt8 :=
  plainText.getD (List.replicate size 0)

/-- RUN: whole blocks. -/
theorem wholeBlocks_eq (hkey : key.length = 32) (nonce : List UInt8) (ctr : ℕ) {size : ℕ}
    (hsize : 64 * n ≤ size) (hlen : ∀ text ∈ plainText, text.length = size) :
    wholeBlocks n (inputAt key nonce ctr) plainText =
      (chacha20Blocks key nonce n ctr (textOf plainText size), inputAt key nonce (ctr + n),
        plainText.map (List.drop (64 * n))) := by
  induction n generalizing ctr plainText size with
  | zero =>
    cases plainText with
    | none => rfl
    | some text => rfl
  | succ n ih =>
    have hrest := @ih (plainText.map (List.drop 64)) (ctr + 1) (size - 64) (by omega) (by
      intro text htext
      obtain ⟨whole, hwhole, rfl⟩ := Option.map_eq_some_iff.mp htext
      rw [List.length_drop, hlen whole hwhole])
    have hdrop : textOf (plainText.map (List.drop 64)) (size - 64) = (textOf plainText size).drop 64 := by
      cases plainText with
      | none => exact (List.drop_replicate ..).symm
      | some text => rfl
    have hmap : (plainText.map (List.drop 64)).map (List.drop (64 * n)) =
        plainText.map (List.drop (64 * (n + 1))) := by
      rw [Option.map_map, Nat.mul_succ, Nat.add_comm]
      exact congrArg (fun f => plainText.map f) (funext fun l => List.drop_drop)
    have hctr : ctr + 1 + n = ctr + (n + 1) := by omega
    rw [hdrop, hmap, hctr] at hrest
    rw [chacha20Blocks]
    cases plainText with
    | none =>
      have hzeros : (List.replicate size (0 : UInt8)).take 64 =
          List.replicate (chacha20Block key nonce ctr).length 0 := by
        rw [chacha20Block_length, List.take_replicate, Nat.min_eq_left (by omega)]
      simp only [wholeBlocks, count_inputAt, hrest, streamWords hkey, textOf, Option.getD_none, hzeros,
        xor_zeros]
    | some text =>
      have h64 : 64 ≤ text.length := by
        rw [hlen text rfl]
        omega
      simp only [wholeBlocks, count_inputAt, hrest, block_eq hkey nonce ctr h64, textOf, Option.getD_some]

/-- Some blocks, and then some more. -/
theorem chacha20Blocks_add (key nonce : List UInt8) (n k ctr : ℕ) (text : List UInt8) :
    chacha20Blocks key nonce (n + k) ctr text =
      chacha20Blocks key nonce n ctr text ++
        chacha20Blocks key nonce k (ctr + n) (text.drop (64 * n)) := by
  induction n generalizing ctr text with
  | zero => rw [Nat.zero_add, chacha20Blocks, List.nil_append, Nat.mul_zero, List.drop_zero, Nat.add_zero]
  | succ n ih =>
    rw [Nat.succ_add, chacha20Blocks, chacha20Blocks, ih, List.append_assoc, List.drop_drop, Nat.mul_succ,
      Nat.add_comm (64 * n), Nat.add_right_comm, Nat.add_assoc ctr n 1]

/-- Whole blocks do not depend on what follows them. -/
theorem chacha20Blocks_append (key nonce : List UInt8) {n : ℕ} (ctr : ℕ) {a : List UInt8}
    (b : List UInt8) (h : 64 * n ≤ a.length) :
    chacha20Blocks key nonce n ctr (a ++ b) = chacha20Blocks key nonce n ctr a := by
  induction n generalizing ctr a with
  | zero => rfl
  | succ n ih =>
    have hrest := ih (ctr + 1) (a := a.drop 64) (by rw [List.length_drop]; omega)
    rw [chacha20Blocks, chacha20Blocks, List.take_append_of_le_length (by omega),
      List.drop_append_of_le_length (by omega), hrest]

/-- The last bytes, one by one. -/
theorem xor_bytes {text stream : List UInt8} (h : text.length ≤ stream.length) :
    ((List.range text.length).map fun i => stream.getD i 0 ^^^ text.getD i 0) =
      List.zipWith (· ^^^ ·) text stream := by
  refine List.ext_getElem (by simp; omega) fun i hi _ => ?_
  have hi : i < text.length := by simpa using hi
  rw [List.getElem_map, List.getElem_range, List.getElem_zipWith, UInt8.xor_comm]
  simp [List.getD_eq_getElem?_getD, hi, hi.trans_le h]

theorem getD_zeros (n i : ℕ) : (List.replicate n (0 : UInt8)).getD i 0 = 0 := by
  rw [List.getD_eq_getElem?_getD, List.getElem?_replicate]
  split <;> rfl

/-- The two words of the counter as one number. -/
theorem ctr_inputAt (key nonce : List UInt8) (ctr : ℕ) (more : ℕ) :
    u64 ((inputAt key nonce ctr).getD 12 0 + ((inputAt key nonce ctr).getD 13 0) <<< 32 + more) =
      u64 (ctr + more) := by
  have h12 : (inputAt key nonce ctr).getD 12 0 = u32 ctr := rfl
  have h13 : (inputAt key nonce ctr).getD 13 0 = u32 (ctr >>> 32) := rfl
  rw [h12, h13, Nat.shiftLeft_eq, Nat.shiftRight_eq_div_pow]
  simp only [u64, u32]
  omega

/-- RUN: the whole text, and the counter behind it. -/
theorem cryptoChacha20Djb_eq (hkey : key.length = 32) (nonce : List UInt8) (ctr : ℕ) {size : ℕ}
    (hlen : ∀ text ∈ plainText, text.length = size) :
    cryptoChacha20Djb plainText size key nonce ctr =
      (Asys.cryptoChacha20Djb (textOf plainText size) key nonce ctr, u64 (ctr + (size + 63) / 64)) := by
  have hwhole := wholeBlocks_eq (n := size / 64) hkey nonce ctr (Nat.mul_div_le size 64) hlen
  have htext : (textOf plainText size).length = size := by
    cases plainText with
    | none => exact List.length_replicate
    | some text => exact hlen text rfl
  obtain ⟨rest, hrest⟩ : ∃ rest, (textOf plainText size).drop (64 * (size / 64)) = rest := ⟨_, rfl⟩
  have hrestlen : rest.length = size % 64 := by
    rw [← hrest, List.length_drop, htext]
    omega
  have hbytes : ∀ i, ((plainText.map (List.drop (64 * (size / 64)))).getD
      (List.replicate 128 0)).getD i 0 = rest.getD i 0 := fun i => by
    cases plainText with
    | none =>
      rw [← hrest, textOf, Option.getD_none, List.drop_replicate, getD_zeros]
      exact getD_zeros _ _
    | some text => rw [← hrest]; rfl
  have hlast : Asys.cryptoChacha20Djb (textOf plainText size) key nonce ctr =
      chacha20Blocks key nonce (size / 64) ctr (textOf plainText size) ++
        List.zipWith (· ^^^ ·) rest (chacha20Block key nonce (ctr + size / 64)) := by
    rw [Asys.cryptoChacha20Djb, htext, chacha20Blocks_add, hrest, chacha20Blocks, chacha20Blocks,
      List.append_nil, List.take_of_length_le (by omega)]
  have hshift : size >>> 6 = size / 64 := Nat.shiftRight_eq_div_pow size 6
  have hand : size &&& 63 = size % 64 := Nat.and_two_pow_sub_one_eq_mod size 6
  have hctr : ctr + size / 64 + (if size % 64 > 0 then 1 else 0) = ctr + (size + 63) / 64 := by
    split <;> omega
  rw [cryptoChacha20Djb, ← inputAt, hshift, hwhole, hlast, ← hctr]
  simp only [hand, ctr_inputAt, streamWords hkey, hbytes]
  congr 2
  split
  · rw [← hrestlen, xor_bytes (by rw [chacha20Block_length]; omega)]
  · obtain rfl := List.eq_nil_of_length_eq_zero (l := rest) (by omega)
    rfl

/-- CORRECT: the stream in words is the one on numbers, over a text and over none, with the counter
    that the call gives back; so a text that is cut behind a whole block may be given in two calls. -/
theorem stream_exact {key : List UInt8} (hkey : key.length = 32) (nonce : List UInt8) (ctr : ℕ) :
    (∀ text : List UInt8, cryptoChacha20Djb (some text) text.length key nonce ctr =
        (Asys.cryptoChacha20Djb text key nonce ctr, u64 (ctr + (text.length + 63) / 64))) ∧
      (∀ n, cryptoChacha20Djb none n key nonce ctr =
        (Asys.cryptoChacha20Djb (List.replicate n 0) key nonce ctr, u64 (ctr + (n + 63) / 64))) ∧
      ∀ a b : List UInt8, a.length % 64 = 0 → ctr + a.length / 64 < 2 ^ 64 →
        let first := cryptoChacha20Djb (some a) a.length key nonce ctr
        first.1 ++ (cryptoChacha20Djb (some b) b.length key nonce first.2).1 =
          (cryptoChacha20Djb (some (a ++ b)) (a ++ b).length key nonce ctr).1 := by
  have htexts (ctr : ℕ) (text : List UInt8) :
      cryptoChacha20Djb (some text) text.length key nonce ctr =
        (Asys.cryptoChacha20Djb text key nonce ctr, u64 (ctr + (text.length + 63) / 64)) :=
    cryptoChacha20Djb_eq hkey nonce ctr (by simp)
  refine ⟨htexts ctr, fun n => cryptoChacha20Djb_eq hkey nonce ctr (by simp), ?_⟩
  intro a b hwhole hfits
  obtain ⟨n, hn⟩ : ∃ n, a.length = 64 * n := ⟨a.length / 64, by omega⟩
  have hafter : (a.length + 63) / 64 = n := by omega
  have hctr : u64 (ctr + n) = ctr + n := u64_eq (by omega)
  have hwholes : a.length / 64 = n := by omega
  have hblocks : (a ++ b).length / 64 + 1 = n + (b.length / 64 + 1) := by
    rw [List.length_append]
    omega
  -- behind its whole blocks the first text ends, and the last block takes nothing
  have hlast : chacha20Blocks key nonce 1 (ctr + n) (a.drop (64 * n)) = [] := by
    rw [List.drop_of_length_le hn.le]
    rfl
  dsimp only
  rw [htexts, htexts, htexts]
  simp only [Asys.cryptoChacha20Djb, hafter, hctr]
  rw [hblocks, hwholes, chacha20Blocks_add key nonce n 1, hlast, List.append_nil,
    chacha20Blocks_add key nonce n (b.length / 64 + 1),
    chacha20Blocks_append key nonce ctr b hn.ge, ← hn, List.drop_left]

/-- A text of 70 bytes from block 1 on, in one call and cut behind its first block. -/
theorem stream_exact_bytesFrom :
    cryptoChacha20Djb (some (bytesFrom 0 70)) 70 (bytesFrom 0 32) (bytesFrom 64 8) 1 =
        (Asys.cryptoChacha20Djb (bytesFrom 0 70) (bytesFrom 0 32) (bytesFrom 64 8) 1, 3) ∧
      (cryptoChacha20Djb (some (bytesFrom 0 64)) 64 (bytesFrom 0 32) (bytesFrom 64 8) 1).1 ++
          (cryptoChacha20Djb (some (bytesFrom 64 6)) 6 (bytesFrom 0 32) (bytesFrom 64 8)
            (cryptoChacha20Djb (some (bytesFrom 0 64)) 64 (bytesFrom 0 32) (bytesFrom 64 8) 1).2).1 =
        (cryptoChacha20Djb (some (bytesFrom 0 64 ++ bytesFrom 64 6)) 70 (bytesFrom 0 32)
          (bytesFrom 64 8) 1).1 :=
  have hexact := stream_exact (bytesFrom_length 0 32) (bytesFrom 64 8) 1
  ⟨hexact.1 (bytesFrom 0 70), hexact.2.2 (bytesFrom 0 64) (bytesFrom 64 6) rfl (by decide)⟩

end Chacha20

end Asys
