import Asys.Daemon.FrameSync

/-! # The receive buffer is never overrun, and never full with a frame to come

    A packet is let in only if its plaintext fits behind what earlier packets left, and whatever a
    frame announces fits the buffer. So decryption stays in the free part, and a loop that waits for
    the rest of a frame has room for it. -/

namespace Asys
open Words

/-- Where `noise_ik_decrypt` is told to write in the next pass of the loop, and how many bytes, if
    the pass gets that far. -/
def decryptTarget (c : ClientThread) : Option (ℕ × ℕ) :=
  match recvExact c.inp 2 with
  | none => none
  | some (lenBuf, inp) =>
    let ciphertextLen := (lenBuf.getD 0 0).toNat * 256 + (lenBuf.getD 1 0).toNat
    if ciphertextLen < noiseMacSize ∨ apduMaxFrameSize + noiseMacSize < ciphertextLen then none
    else
      match recvExact inp ciphertextLen with
      | none => none
      | some _ =>
        let plainLen := ciphertextLen - noiseMacSize
        if apduParserRecvMax c.parser < plainLen then none else some (c.parser.filled, plainLen)

/-- `filled`: the buffer holds no more than it has room for. `target`: the next packet is decrypted
    into the free part. `received`: so is one that is authentic, and the buffer changes nowhere else.
    `parse`: of what is then in the buffer, `APDU_ERR_LENGTH` is never said, and when more is needed
    there is room. -/
structure BufferKept (mc : Monocypher) (c : ClientThread) : Prop where
  filled : c.parser.filled ≤ apduMaxFrameSize
  target : ∀ off n, decryptTarget c = some (off, n) →
    off = c.parser.filled ∧ off + n ≤ apduMaxFrameSize
  received : ∀ c', recvPacket mc c = some c' → ∃ n, decryptTarget c = some (c.parser.filled, n) ∧
    c'.parser.filled = c.parser.filled + n ∧ c'.parser.filled ≤ apduMaxFrameSize ∧
    ∀ i, i < c.parser.filled ∨ c.parser.filled + n ≤ i → c'.parser.buf i = c.parser.buf i
  parse : ∀ c', recvPacket mc c = some c' → apduParserTryParse c'.parser ≠ .errLength ∧
    (apduParserTryParse c'.parser = .needMore → 0 < apduParserRecvMax c'.parser)

/-! ### The parser's verdicts -/

theorem tryParse_ne_errLength (p : ApduParser) : apduParserTryParse p ≠ .errLength := by
  intro h
  have hc := tryParse_cases p
  rw [h] at hc
  cases hc

/-- A frame that is not whole has not filled the buffer. -/
theorem tryParse_needMore {p : ApduParser} (h : apduParserTryParse p = .needMore) :
    p.filled < apduMaxFrameSize := by
  have hc := tryParse_cases p
  rw [h] at hc
  cases hc with
  | empty h0 =>
    rw [h0]
    decide
  | header _ _ _ hlt =>
    refine hlt.trans_le ?_
    simp only [hdrSize]
    split <;> decide
  | body _ _ _ _ hlt => exact hlt.trans_le (announcedSize_le p)

/-! ### One packet -/

theorem recvPacket_target {mc : Monocypher} {c c' : ClientThread} (h : recvPacket mc c = some c') :
    ∃ plain, decryptTarget c = some (c.parser.filled, plain.length) ∧
      c'.parser = received c.parser plain := by
  simp only [recvPacket] at h
  simp only [decryptTarget]
  cases hlen : recvExact c.inp 2 with
  | none =>
    rw [hlen] at h
    cases h
  | some r =>
    rw [hlen] at h
    dsimp only at h ⊢
    split at h
    · cases h
    rename_i hsize
    rw [if_neg hsize]
    cases hcipher : recvExact r.2 ((r.1.getD 0 0).toNat * 256 + (r.1.getD 1 0).toNat) with
    | none =>
      rw [hcipher] at h
      cases h
    | some q =>
      rw [hcipher] at h
      dsimp only at h ⊢
      split at h
      · cases h
      rename_i hfit
      rw [if_neg hfit]
      split at h
      · cases h
      rename_i noise plain hdec
      obtain rfl := Option.some.inj h
      have hplain : plain.length =
          (r.1.getD 0 0).toNat * 256 + (r.1.getD 1 0).toNat - noiseMacSize := by
        rw [(noiseIkDecrypt_some hdec).2, recvExact_some hcipher]
      exact ⟨plain, by rw [hplain], by rw [received, hplain]⟩

theorem decryptTarget_spec {c : ClientThread} {off n : ℕ} (h : decryptTarget c = some (off, n)) :
    off = c.parser.filled ∧ n ≤ apduParserRecvMax c.parser := by
  rw [decryptTarget] at h
  split at h
  · cases h
  dsimp only at h
  split at h
  · cases h
  split at h
  · cases h
  split at h
  · cases h
  · rename_i hfit
    obtain ⟨rfl, rfl⟩ := Prod.mk.inj (Option.some.inj h)
    exact ⟨rfl, not_lt.mp hfit⟩

theorem bufferKept_of_filled (mc : Monocypher) {c : ClientThread}
    (h : c.parser.filled ≤ apduMaxFrameSize) : BufferKept mc c := by
  have hmax := apduParserRecvMax_eq h
  have htarget : ∀ off n, decryptTarget c = some (off, n) →
      off = c.parser.filled ∧ off + n ≤ apduMaxFrameSize := by
    intro off n ht
    obtain ⟨rfl, hn⟩ := decryptTarget_spec ht
    exact ⟨rfl, by omega⟩
  refine ⟨h, htarget, ?_, ?_⟩
  · intro c' hr
    obtain ⟨plain, ht, hp⟩ := recvPacket_target hr
    have hfit := (htarget _ _ ht).2
    have hfilled : c'.parser.filled = c.parser.filled + plain.length := by
      rw [hp]
      refine Nat.mod_eq_of_lt (hfit.trans_lt ?_)
      decide
    refine ⟨plain.length, ht, hfilled, hfilled ▸ hfit, fun i hi => ?_⟩
    rw [hp]
    show writeAt c.parser.buf c.parser.filled plain i = _
    rw [writeAt, if_neg (by omega)]
  · intro c' hr
    refine ⟨tryParse_ne_errLength _, fun hneed => ?_⟩
    have hlt := tryParse_needMore hneed
    rw [apduParserRecvMax_eq hlt.le]
    omega

/-! ### Every run -/

theorem consume_filled_le (p : ApduParser) (f : ApduFrame) :
    (apduParserConsume p f).filled ≤ p.filled := by
  simp only [apduParserConsume]
  split
  · exact Nat.zero_le _
  · exact Nat.sub_le _ _

/-- After the way into the loop the parser is a fresh one, or was left alone. -/
theorem clientStart_filled (mc : Monocypher) (keys : ServerKeys) (e : TurnEnv) (g : Statics)
    {c : ClientThread} (h : c.parser.filled = 0) :
    (clientStart mc keys e g c).thread.parser.filled = 0 := by
  rw [clientStart]
  dsimp only
  split
  · exact h
  split
  · exact h
  split
  · rfl
  split
  · rfl
  unfold answerMsg1
  dsimp only
  split
  · rfl
  split
  · rfl
  split
  · rfl
  unfold afterMsg2
  split
  · rfl
  split
  · rfl
  · rfl

theorem serve_filled (mc : Monocypher) (e : TurnEnv) (g : Statics) (c : ClientThread)
    (frame : ApduFrame) (a : Bool) :
    (serve mc e g c frame a).thread.parser.filled ≤ c.parser.filled := by
  rw [serve]
  dsimp only
  split
  · exact Nat.zero_le _
  split
  · exact Nat.zero_le _
  split
  · exact Nat.zero_le _
  · exact consume_filled_le _ _

theorem onPacket_filled (mc : Monocypher) (e : TurnEnv) (g : Statics) (c : ClientThread) :
    (onPacket mc e g c).thread.parser.filled ≤ c.parser.filled := by
  simp only [onPacket]
  split
  · exact Nat.le_refl _
  · exact Nat.zero_le _
  · exact Nat.zero_le _
  · exact Nat.zero_le _
  · exact Nat.zero_le _
  · rw [gate]
    split
    · split
      · exact Nat.zero_le _
      dsimp only
      split
      · exact Nat.zero_le _
      · exact serve_filled mc e g _ _ true
    · exact serve_filled mc e g c _ false

/-- What a run keeps of the buffer: empty until the loop begins, and within bounds from then on. -/
theorem handleClient_filled (mc : Monocypher) (keys : ServerKeys) (inp : List UInt8)
    (ls : List (TurnEnv × Statics)) :
    ((handleClient mc keys inp ls).thread.phase = .start →
      (handleClient mc keys inp ls).thread.parser.filled = 0) ∧
    (handleClient mc keys inp ls).thread.parser.filled ≤ apduMaxFrameSize := by
  induction ls using List.reverseRecOn with
  | nil => exact ⟨fun _ => rfl, Nat.zero_le _⟩
  | append_singleton ls l ih =>
    obtain ⟨hstart, hle⟩ := ih
    rw [handleClient_append]
    generalize handleClient mc keys inp ls = r at hstart hle
    unfold clientStep clientTurn
    cases hphase : r.thread.phase with
    | closed => exact ⟨hstart, hle⟩
    | start =>
      have hzero := clientStart_filled mc keys l.1 l.2 (hstart hphase)
      exact ⟨fun _ => hzero, hzero.trans_le (Nat.zero_le _)⟩
    | serving =>
      dsimp only
      unfold clientLoop
      cases hrecv : recvPacket mc r.thread with
      | none => exact ⟨nofun, Nat.zero_le _⟩
      | some c =>
        obtain ⟨-, -, -, hfit, -⟩ := (bufferKept_of_filled mc hle).received c hrecv
        have hphase' : c.phase = .serving := (recvPacket_some hrecv).1.trans hphase
        refine ⟨fun hs => ?_, (onPacket_filled mc l.1 l.2 c).trans hfit⟩
        exact absurd hs (onPacket_spec mc l.1 l.2 hphase').started

/-- CORRECT: whatever packets a connection sends, the receive buffer is kept within its bounds, its
    parser never says `APDU_ERR_LENGTH`, and a loop that waits for more has room for it. -/
theorem handleClient_bufferKept (mc : Monocypher) (keys : ServerKeys) (inp : List UInt8)
    (ls : List (TurnEnv × Statics)) :
    BufferKept mc (handleClient mc keys inp ls).thread ∧
      (∀ p, apduParserTryParse p ≠ .errLength) ∧
      ∀ p, apduParserTryParse p = .needMore → p.filled < apduMaxFrameSize :=
  ⟨bufferKept_of_filled mc (handleClient_filled mc keys inp ls).2, tryParse_ne_errLength,
    fun _ h => tryParse_needMore h⟩

end Asys
