import Asys.Lib.Words

/-! # apdu_parser.c: framing of the decrypted byte stream

    The receive buffer is a memory `ℕ → UInt8` of which the first `filled` cells are valid; what lies
    above keeps the bytes of earlier frames, as in the static buffer. A parsed frame carries the
    bytes its `data` and `auth_tag` pointers delimit. -/

namespace Asys
open Words

def apduStdHdrSize : ℕ := 5
def apduExtHdrSize : ℕ := 7
def apduStdLeSize : ℕ := 1
def apduExtLeSize : ℕ := 2
def apduAuthTagSize : ℕ := 16
def apduMaxDataLen : ℕ := 65535

/-- Extended header, longest data, extended Le and tag: 65560 bytes. -/
def apduMaxFrameSize : ℕ := apduExtHdrSize + apduMaxDataLen + apduExtLeSize + apduAuthTagSize

def apduClaVerMask : UInt8 := 0xE0
def apduClaMBit : UInt8 := 0x10
def apduClaSecMask : UInt8 := 0x0C
def apduClaExtBit : UInt8 := 0x02
def apduClaRfuBit : UInt8 := 0x01
def apduClaSecShift : UInt8 := 2

def apduSecPlain : UInt8 := 0x00
def apduSecSigned : UInt8 := 0x01

/-- A parsed frame. `data` is empty where the source has NULL (`data_len = 0`), and its length is a
    `uint16_t`; `authTag` is `none` for NULL and sixteen bytes otherwise. -/
structure ApduFrame where
  cla : UInt8
  ins : UInt8
  p1 : UInt8
  p2 : UInt8
  ver : UInt8
  mBit : Bool
  sec : UInt8
  ext : Bool
  data : List UInt8
  le : UInt16
  authTag : Option (List UInt8)
  totalSize : ℕ
  data_lt : data.length < 65536
  tag_len : ∀ t ∈ authTag, t.length = apduAuthTagSize

/-- `data_len`. -/
def ApduFrame.dataLen (f : ApduFrame) : ℕ := f.data.length

structure ApduParser where
  buf : ℕ → UInt8
  filled : ℕ
  inUse : Bool

/-- A standard frame, as the parser hands it out. -/
def stdFrame (cla ins p1 : UInt8) (data : List UInt8) (hdata : data.length < 256)
    (tag : Option (List UInt8)) (htag : ∀ t ∈ tag, t.length = apduAuthTagSize) : ApduFrame where
  cla := cla
  ins := ins
  p1 := p1
  p2 := 0x00
  ver := 0
  mBit := cla &&& apduClaMBit ≠ 0
  sec := (cla &&& apduClaSecMask) >>> apduClaSecShift
  ext := false
  data := data
  le := 0
  authTag := tag
  totalSize := apduStdHdrSize + data.length + apduStdLeSize + (tag.elim 0 List.length)
  data_lt := by omega
  tag_len := htag

/-- What `apdu_parser_try_parse` returns, with the frame it fills in. -/
inductive ParseResult where
  | frameReady (frame : ApduFrame)
  | needMore
  | errVersion
  | errRfu
  | errExtLc
  | errLength

/-- A slot as `apdu_pool_acquire` hands it out. -/
def apduPoolSlot : ApduParser := ⟨fun _ => 0, 0, true⟩

/-- `n` bytes of the buffer from `off` on. -/
def slice (buf : ℕ → UInt8) (off n : ℕ) : List UInt8 := (List.range n).map fun i => buf (off + i)

/-- The buffer after a `memcpy` of `bs` to `off`. -/
def writeAt (buf : ℕ → UInt8) (off : ℕ) (bs : List UInt8) : ℕ → UInt8 := fun i =>
  if off ≤ i ∧ i < off + bs.length then bs.getD (i - off) 0 else buf i

/-- `*out_max` of `apdu_parser_recv_ptr`, a `size_t` subtraction. -/
def apduParserRecvMax (p : ApduParser) : ℕ := (apduMaxFrameSize + 2 ^ 64 - p.filled) % 2 ^ 64

def apduParserRecvCommit (p : ApduParser) (nReceived : ℕ) : ApduParser :=
  { p with filled := (p.filled + nReceived) % 2 ^ 64 }

@[simp] theorem slice_length (buf : ℕ → UInt8) (off n : ℕ) : (slice buf off n).length = n := by
  simp [slice]

theorem slice_add (buf : ℕ → UInt8) (off m n : ℕ) :
    slice buf off (m + n) = slice buf off m ++ slice buf (off + m) n := by
  simp [slice, List.range_add, Function.comp_def, Nat.add_assoc]

theorem slice_take (buf : ℕ → UInt8) (off m n : ℕ) (h : m ≤ n) :
    (slice buf off n).take m = slice buf off m := by
  obtain ⟨k, rfl⟩ := Nat.exists_eq_add_of_le h
  rw [slice_add, List.take_left' (slice_length _ _ _)]

theorem slice_drop (buf : ℕ → UInt8) (off m n : ℕ) :
    (slice buf off n).drop m = slice buf (off + m) (n - m) := by
  rcases Nat.le_total m n with h | h
  · obtain ⟨k, rfl⟩ := Nat.exists_eq_add_of_le h
    rw [slice_add, List.drop_left' (slice_length _ _ _), Nat.add_sub_cancel_left]
  · rw [List.drop_eq_nil_of_le (by simpa using h), Nat.sub_eq_zero_of_le h]
    rfl

/-- A prefix of a slice is the shorter slice. -/
theorem prefix_slice {bs : List UInt8} {buf : ℕ → UInt8} {off n : ℕ} (h : bs <+: slice buf off n) :
    bs.length ≤ n ∧ bs = slice buf off bs.length := by
  have hlen : bs.length ≤ n := by simpa using h.length_le
  refine ⟨hlen, ?_⟩
  rw [← slice_take buf off bs.length n hlen]
  exact List.prefix_iff_eq_take.mp h

theorem slice_congr {buf buf' : ℕ → UInt8} {off n : ℕ} (h : ∀ i < n, buf (off + i) = buf' (off + i)) :
    slice buf off n = slice buf' off n := by
  refine List.map_congr_left fun i hi => h i (List.mem_range.mp hi)

/-- `data_len` as the header announces it. -/
def headerDataLen (p : ApduParser) (ext : Bool) : UInt16 :=
  if ext then ((p.buf 5).toUInt16 <<< 8) ||| (p.buf 6).toUInt16 else (p.buf 4).toUInt16

/-- `le` as read behind the data. -/
def trailerLe (p : ApduParser) (ext : Bool) (leOffset : ℕ) : UInt16 :=
  if ext then ((p.buf leOffset).toUInt16 <<< 8) ||| (p.buf (leOffset + 1)).toUInt16
  else (p.buf leOffset).toUInt16

/-- The frame at the start of the buffer, once all of it is there. -/
def populateFrame (p : ApduParser) (cla sec : UInt8) (ext : Bool) (dataLen : UInt16)
    (hdrSize leSize tagSize total : ℕ) : ApduFrame where
  cla := cla
  ins := p.buf 1
  p1 := p.buf 2
  p2 := p.buf 3
  ver := 0
  mBit := cla &&& apduClaMBit ≠ 0
  sec := sec
  ext := ext
  data := slice p.buf hdrSize dataLen.toNat
  le := trailerLe p ext (hdrSize + dataLen.toNat)
  authTag :=
    if 0 < tagSize then some (slice p.buf (hdrSize + dataLen.toNat + leSize) apduAuthTagSize)
    else none
  totalSize := total
  data_lt := by rw [slice_length]; exact dataLen.toNat_lt
  tag_len := by
    intro t ht
    split at ht
    · simp only [Option.mem_def, Option.some.injEq] at ht
      rw [← ht, slice_length]
    · simp at ht

def apduParserTryParse (p : ApduParser) : ParseResult :=
  if p.filled < 1 then .needMore
  else
    let cla := p.buf 0
    if cla &&& apduClaVerMask ≠ 0 then .errVersion
    else if cla &&& apduClaRfuBit ≠ 0 then .errRfu
    else
      let ext : Bool := cla &&& apduClaExtBit ≠ 0
      let hdrSize := if ext then apduExtHdrSize else apduStdHdrSize
      if p.filled < hdrSize then .needMore
      -- an extended header has a zero placeholder where a standard one has Lc
      else if ext ∧ p.buf 4 ≠ 0 then .errExtLc
      else
        let dataLen := headerDataLen p ext
        let sec := (cla &&& apduClaSecMask) >>> apduClaSecShift
        let leSize := if ext then apduExtLeSize else apduStdLeSize
        let tagSize := if sec ≠ apduSecPlain then apduAuthTagSize else 0
        let total := hdrSize + dataLen.toNat + leSize + tagSize
        if apduMaxFrameSize < total then .errLength
        else if p.filled < total then .needMore
        else .frameReady (populateFrame p cla sec ext dataLen hdrSize leSize tagSize total)

def apduParserConsume (p : ApduParser) (frame : ApduFrame) : ApduParser :=
  if p.filled ≤ frame.totalSize then { p with filled := 0 }
  else
    let remaining := p.filled - frame.totalSize
    { p with
      buf := writeAt p.buf 0 (slice p.buf frame.totalSize remaining)
      filled := remaining }

end Asys
