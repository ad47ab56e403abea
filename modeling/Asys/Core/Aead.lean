import Asys.Core.Chacha20
import Asys.Core.Poly1305
import Asys.Core.Verify

/-! # The AEAD of monocypher.c

    `lock_auth` feeds the MAC five pieces; `crypto_aead_write` and `crypto_aead_read` make its key
    from the stream, and leave the next key of the context behind. -/

namespace Asys

/-- `crypto_aead_ctx`. -/
structure CryptoAeadCtx where
  counter : ℕ
  key : List UInt8
  nonce : List UInt8

namespace CryptoAeadCtx

/-- `lock_auth`. -/
def lockAuth (authKey ad cipherText : List UInt8) : List UInt8 :=
  let sizes := storeLe 8 ad.length ++ storeLe 8 cipherText.length
  let polyCtx := Poly1305Ctx.init authKey
  let polyCtx := polyCtx.update ad
  let polyCtx := polyCtx.update (List.replicate (gap ad.length 16) 0)
  let polyCtx := polyCtx.update cipherText
  let polyCtx := polyCtx.update (List.replicate (gap cipherText.length 16) 0)
  let polyCtx := polyCtx.update sizes
  polyCtx.final

/-- `crypto_aead_init_ietf`. -/
def initIetf (key nonce : List UInt8) : CryptoAeadCtx where
  key := key
  nonce := (nonce.drop 4).take 8
  counter := u64 (load32Le nonce 0 <<< 32)

/-- The 64 bytes of the stream that `auth_key` is filled with. -/
def authKey (ctx : CryptoAeadCtx) : List UInt8 :=
  (Chacha20.cryptoChacha20Djb none 64 ctx.key ctx.nonce ctx.counter).1

/-- `crypto_aead_write`: the context after it, the cipher text and the MAC. -/
def write (ctx : CryptoAeadCtx) (ad plainText : List UInt8) : CryptoAeadCtx × List UInt8 × List UInt8 :=
  let cipherText := (Chacha20.cryptoChacha20Djb (some plainText) plainText.length ctx.key ctx.nonce
    (u64 (ctx.counter + 1))).1
  let mac := lockAuth ctx.authKey ad cipherText
  ({ ctx with key := (ctx.authKey.drop 32).take 32 }, cipherText, mac)

/-- `crypto_aead_read`: the context after it, the mismatch and the plain text, which is written
    where there is none. -/
def read (ctx : CryptoAeadCtx) (mac ad cipherText : List UInt8) :
    CryptoAeadCtx × ℤ × Option (List UInt8) :=
  let realMac := lockAuth ctx.authKey ad cipherText
  let mismatch := cryptoVerify16 mac realMac
  if mismatch = 0 then
    let plainText := (Chacha20.cryptoChacha20Djb (some cipherText) cipherText.length ctx.key ctx.nonce
      (u64 (ctx.counter + 1))).1
    ({ ctx with key := (ctx.authKey.drop 32).take 32 }, mismatch, some plainText)
  else (ctx, mismatch, none)

/-! ### The MAC -/

/-- The five pieces are the message of the MAC on numbers. -/
theorem lockAuth_eq (authKey ad cipherText : List UInt8) :
    lockAuth authKey ad cipherText = Asys.lockAuth authKey ad cipherText := by
  have hgap : ∀ bs : List UInt8, List.replicate (gap bs.length 16) 0 = polyGap bs := fun bs => by
    have h : gap bs.length 16 = (16 - bs.length % 16) % 16 := gap_eq _ (k := 4) (by decide)
    rw [polyGap, h]
  have hrun := (Poly1305Ctx.init_absorbs authKey).updates [ad, polyGap ad, cipherText, polyGap cipherText,
    storeLe 8 ad.length ++ storeLe 8 cipherText.length]
  have hfinal := hrun.final_eq
  simp only [List.foldl_cons, List.foldl_nil, List.flatten_cons, List.flatten_nil, List.append_nil,
    List.nil_append] at hfinal
  rw [lockAuth, hgap, hgap, Asys.lockAuth]
  simpa only [List.append_assoc] using hfinal

theorem lockAuth_length (authKey ad cipherText : List UInt8) :
    (lockAuth authKey ad cipherText).length = 16 := by
  rw [lockAuth_eq]
  exact storeLe_length _ _

/-! ### The two calls -/

variable {key : List UInt8} (nonce ad : List UInt8)

theorem chacha20Block_take (key : List UInt8) (ctr : ℕ) :
    chacha20Block key (nonce.take 8) ctr = chacha20Block key nonce ctr := by
  rw [chacha20Block, chacha20Block, List.take_take, Nat.min_self]

theorem chacha20Blocks_take (key : List UInt8) (n ctr : ℕ) (text : List UInt8) :
    chacha20Blocks key (nonce.take 8) n ctr text = chacha20Blocks key nonce n ctr text := by
  induction n generalizing ctr text with
  | zero => rfl
  | succ n ih => rw [chacha20Blocks, chacha20Blocks, chacha20Block_take, ih]

theorem initIetf_counter (key : List UInt8) : (initIetf key nonce).counter = ietfCounter nonce ∧
    u64 (ietfCounter nonce + 1) = ietfCounter nonce + 1 := by
  have hword : load32Le nonce 0 < 2 ^ 32 := load32Le_lt nonce 0
  have heq : ietfCounter nonce = load32Le nonce 0 * 2 ^ 32 := rfl
  refine ⟨?_, u64_eq (by omega)⟩
  rw [initIetf, heq, Nat.shiftLeft_eq]
  exact u64_eq (by omega)

theorem initIetf_authKey (hkey : key.length = 32) :
    (initIetf key nonce).authKey = chacha20Block key (nonce.drop 4) (ietfCounter nonce) := by
  have hblock := @Chacha20.cryptoChacha20Djb_eq key none hkey (initIetf key nonce).nonce
    (initIetf key nonce).counter 64 (by simp)
  have hzeros := Chacha20.xor_zeros (chacha20Block key (nonce.drop 4) (ietfCounter nonce))
  rw [chacha20Block_length] at hzeros
  rw [authKey, show (initIetf key nonce).key = key from rfl, hblock, (initIetf_counter nonce key).1]
  rw [initIetf, Asys.cryptoChacha20Djb, chacha20Blocks_take]
  exact (congrArg (· ++ _) hzeros).trans (List.append_nil _)

theorem initIetf_text (hkey : key.length = 32) (text : List UInt8) :
    (Chacha20.cryptoChacha20Djb (some text) text.length (initIetf key nonce).key (initIetf key nonce).nonce
      (u64 ((initIetf key nonce).counter + 1))).1 =
      cryptoChacha20Djb text key (nonce.drop 4) (ietfCounter nonce + 1) := by
  have htext := @Chacha20.cryptoChacha20Djb_eq key (some text) hkey (initIetf key nonce).nonce
    (ietfCounter nonce + 1) text.length (by simp)
  rw [show (initIetf key nonce).key = key from rfl, (initIetf_counter nonce key).1,
    (initIetf_counter nonce key).2, htext]
  exact chacha20Blocks_take _ _ _ _ _

/-- The context that a call leaves behind. -/
def next (key nonce : List UInt8) : CryptoAeadCtx :=
  { initIetf key nonce with
    key := ((chacha20Block key (nonce.drop 4) (ietfCounter nonce)).drop 32).take 32 }

theorem write_eq (hkey : key.length = 32) (plainText : List UInt8) :
    (initIetf key nonce).write ad plainText = (next key nonce, cryptoAeadWrite key nonce ad plainText) := by
  simp only [write, initIetf_text nonce hkey, lockAuth_eq, initIetf_authKey nonce hkey]
  rfl

theorem read_eq (hkey : key.length = 32) {mac : List UInt8} (hmac : mac.length = 16)
    (cipherText : List UInt8) : (initIetf key nonce).read mac ad cipherText =
      match cryptoAeadRead key nonce ad mac cipherText with
      | some plainText => (next key nonce, 0, some plainText)
      | none => (initIetf key nonce, -1, none) := by
  simp only [read, initIetf_text nonce hkey, initIetf_authKey nonce hkey, cryptoAeadRead]
  rw [cryptoVerify16_eq hmac (lockAuth_length _ _ _), lockAuth_eq]
  by_cases heq : mac = Asys.lockAuth (chacha20Block key (nonce.drop 4) (ietfCounter nonce)) ad cipherText
  · rw [if_pos heq, if_pos heq, if_pos rfl]
    rfl
  · rw [if_neg heq, if_neg heq, if_neg (by decide)]

/-- CORRECT: what `crypto_aead_write` seals, `crypto_aead_read` opens, and both leave the same next
    context; under any other MAC the call fails and leaves the context alone. -/
theorem read_write {key : List UInt8} (hkey : key.length = 32) (nonce ad plainText : List UInt8) :
    let sealed := (initIetf key nonce).write ad plainText
    (initIetf key nonce).read sealed.2.2 ad sealed.2.1 = (sealed.1, 0, some plainText) ∧
      ∀ mac : List UInt8, mac.length = 16 → mac ≠ sealed.2.2 →
        (initIetf key nonce).read mac ad sealed.2.1 = (initIetf key nonce, -1, none) := by
  rw [write_eq nonce ad hkey]
  have hmac : (cryptoAeadWrite key nonce ad plainText).2.length = 16 := storeLe_length _ _
  refine ⟨?_, fun mac hlen hne => ?_⟩
  · rw [read_eq nonce ad hkey hmac, cryptoAeadRead_write]
  · rw [read_eq nonce ad hkey hlen, cryptoAeadRead, if_neg]
    exact hne

/-- A text of 20 bytes with 12 bytes of data: it is opened, and not under a MAC of zeros. -/
theorem read_write_bytesFrom :
    let ctx := initIetf (bytesFrom 0 32) (bytesFrom 64 12)
    let sealed := ctx.write (bytesFrom 80 12) (bytesFrom 32 20)
    ctx.read sealed.2.2 (bytesFrom 80 12) sealed.2.1 = (sealed.1, 0, some (bytesFrom 32 20)) ∧
      (List.replicate 16 0 ≠ sealed.2.2 →
        ctx.read (List.replicate 16 0) (bytesFrom 80 12) sealed.2.1 = (ctx, -1, none)) :=
  have hread := read_write (bytesFrom_length 0 32) (bytesFrom 64 12) (bytesFrom 80 12) (bytesFrom 32 20)
  ⟨hread.1, hread.2 (List.replicate 16 0) rfl⟩

end CryptoAeadCtx

end Asys
