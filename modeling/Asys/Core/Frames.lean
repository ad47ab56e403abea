import Asys.Core.ApduParser
import Asys.Lib.Framing

/-! # The documented frame layouts, and what apdu_parser.c accepts

    A `WireFrame` is a frame of one of the layouts of the header file, built so that no other frame
    can be written; `encode` puts it on the wire and `parsed` is what a receiver should be handed.
    `apdu_parser_try_parse` finds a frame exactly when the valid bytes begin with an encoding
    (`tryParse_frameReady`), and a stream of encodings is a stream of code words (`encode_code`). -/

namespace Asys
open Words Framing

/-! ### Layouts -/

def claExt (cla : UInt8) : Bool := cla &&& apduClaExtBit ≠ 0
def claSec (cla : UInt8) : UInt8 := (cla &&& apduClaSecMask) >>> apduClaSecShift

def hdrSize (cla : UInt8) : ℕ := if claExt cla then apduExtHdrSize else apduStdHdrSize
def leSize (cla : UInt8) : ℕ := if claExt cla then apduExtLeSize else apduStdLeSize
def tagSize (cla : UInt8) : ℕ := if claSec cla ≠ apduSecPlain then apduAuthTagSize else 0

/-- The longest data a frame can announce. -/
def maxLc (cla : UInt8) : ℕ := if claExt cla then apduMaxDataLen else 255

/-- `[CLA][INS][P1][P2][Lc]`, or `[CLA][INS][P1][P2][0x00][Lc_h][Lc_l]`. -/
def frameHeader (cla ins p1 p2 : UInt8) (lc : ℕ) : List UInt8 :=
  [cla, ins, p1, p2] ++ if claExt cla then 0x00 :: putU16 lc.toUInt16 else [lc.toUInt8]

/-- `[Le]`, or `[Le_h][Le_l]`. -/
def frameLe (cla : UInt8) (le : UInt16) : List UInt8 :=
  if claExt cla then putU16 le else [le.toUInt8]

/-- The fields of a frame in the order of its layout, the tag behind Le. -/
def frameBytes (cla ins p1 p2 : UInt8) (data : List UInt8) (le : UInt16) (tag : List UInt8) :
    List UInt8 :=
  frameHeader cla ins p1 p2 data.length ++ data ++ frameLe cla le ++ tag

/-- A frame of the documented layouts. -/
structure WireFrame where
  cla : UInt8
  ins : UInt8
  p1 : UInt8
  p2 : UInt8
  data : List UInt8
  le : UInt16
  tag : List UInt8
  ver_zero : cla &&& apduClaVerMask = 0
  rfu_zero : cla &&& apduClaRfuBit = 0
  data_le : data.length ≤ maxLc cla
  le_lt : claExt cla = false → le.toNat < 256
  tag_length : tag.length = tagSize cla

def WireFrame.encode (w : WireFrame) : List UInt8 :=
  frameBytes w.cla w.ins w.p1 w.p2 w.data w.le w.tag

/-- The bytes that the fields of a parsed frame stand for. -/
def ApduFrame.encode (f : ApduFrame) : List UInt8 :=
  frameBytes f.cla f.ins f.p1 f.p2 f.data f.le (f.authTag.getD [])

theorem maxLc_lt (cla : UInt8) : maxLc cla < 65536 := by
  unfold maxLc apduMaxDataLen; split <;> omega

/-- The frame as the receiver should be handed it. -/
def WireFrame.parsed (w : WireFrame) : ApduFrame where
  cla := w.cla
  ins := w.ins
  p1 := w.p1
  p2 := w.p2
  ver := 0
  mBit := w.cla &&& apduClaMBit ≠ 0
  sec := claSec w.cla
  ext := claExt w.cla
  data := w.data
  le := w.le
  authTag := if claSec w.cla ≠ apduSecPlain then some w.tag else none
  totalSize := w.encode.length
  data_lt := w.data_le.trans_lt (maxLc_lt w.cla)
  tag_len := by
    intro t ht
    split at ht
    · rename_i hsec
      obtain rfl : w.tag = t := by simpa using ht
      rw [w.tag_length, tagSize, if_pos hsec]
    · simp at ht

/-- A SYS_HELLO. -/
def helloFrame : WireFrame :=
  ⟨0x00, 0x01, 0x00, 0x00, [], 0x00, [], by decide, by decide, by decide, by decide, by decide⟩

/-- A signed extended SVC_RESTART. -/
def signedRestart (data : List UInt8) (hdata : data.length ≤ maxLc 0x06) (le : UInt16) : WireFrame :=
  ⟨0x06, 0x22, 0x00, 0x00, data, le, List.replicate 16 0x55, by decide, by decide, hdata,
    fun hext => absurd hext (by decide), by decide⟩

@[simp] theorem frameHeader_length (cla ins p1 p2 : UInt8) (lc : ℕ) :
    (frameHeader cla ins p1 p2 lc).length = hdrSize cla := by
  simp only [frameHeader, hdrSize]
  split <;> rfl

@[simp] theorem frameLe_length (cla : UInt8) (le : UInt16) :
    (frameLe cla le).length = leSize cla := by
  simp only [frameLe, leSize]
  split <;> rfl

theorem hdrSize_pos (cla : UInt8) : 0 < hdrSize cla := by
  unfold hdrSize; split <;> decide

/-- A header determines its fields. -/
theorem frameHeader_inj {cla cla' ins ins' p1 p1' p2 p2' : UInt8} {lc lc' : ℕ}
    (h : frameHeader cla ins p1 p2 lc = frameHeader cla' ins' p1' p2' lc') (hlc : lc ≤ maxLc cla)
    (hlc' : lc' ≤ maxLc cla') : cla = cla' ∧ ins = ins' ∧ p1 = p1' ∧ p2 = p2' ∧ lc = lc' := by
  simp only [frameHeader] at h
  obtain ⟨hfix, hvar⟩ := List.append_inj h rfl
  simp only [List.cons.injEq, and_true] at hfix
  obtain ⟨rfl, rfl, rfl, rfl⟩ := hfix
  refine ⟨rfl, rfl, rfl, rfl, ?_⟩
  simp only [maxLc, apduMaxDataLen] at hlc hlc'
  cases hext : claExt cla with
  | true =>
    simp only [hext, if_true, List.cons.injEq, true_and] at hvar hlc hlc'
    have hw : lc.toUInt16 = lc'.toUInt16 := putU16_injective hvar
    have := congrArg UInt16.toNat hw
    simp at this
    omega
  | false =>
    simp [hext] at hvar hlc hlc'
    have := congrArg UInt8.toNat hvar
    simp at this
    omega

theorem frameLe_inj {cla : UInt8} {le le' : UInt16} (h : frameLe cla le = frameLe cla le')
    (hle : claExt cla = false → le.toNat < 256) (hle' : claExt cla = false → le'.toNat < 256) :
    le = le' := by
  simp only [frameLe] at h
  cases hext : claExt cla with
  | true => exact putU16_injective (by simpa [hext] using h)
  | false =>
    have hl := hle hext
    have hl' := hle' hext
    simp [hext] at h
    have := congrArg UInt8.toNat h
    rw [UInt16.toNat_toUInt8, UInt16.toNat_toUInt8] at this
    exact UInt16.toNat_inj.mp (by omega)

theorem WireFrame.encode_length (w : WireFrame) :
    w.encode.length = hdrSize w.cla + w.data.length + leSize w.cla + tagSize w.cla := by
  simp [WireFrame.encode, frameBytes, w.tag_length]
  omega

theorem WireFrame.encode_injective {w w' : WireFrame} (h : w.encode = w'.encode) : w = w' := by
  have hcla : w.cla = w'.cla := by
    have := congrArg (·.head?) h
    simpa [WireFrame.encode, frameBytes, frameHeader] using this
  simp only [WireFrame.encode, frameBytes, List.append_assoc] at h
  obtain ⟨hhead, hrest⟩ := List.append_inj h (by simp [hcla])
  obtain ⟨-, hins, hp1, hp2, hlen⟩ := frameHeader_inj hhead w.data_le w'.data_le
  obtain ⟨hdata, hrest⟩ := List.append_inj hrest hlen
  obtain ⟨hle, htag⟩ := List.append_inj hrest (by simp [hcla])
  rw [← hcla] at hle
  have hle := frameLe_inj hle w.le_lt (hcla ▸ w'.le_lt)
  cases w
  cases w'
  simp_all

/-- Every frame fits the receive buffer, and none is empty. -/
theorem WireFrame.encode_bounds (w : WireFrame) :
    0 < w.encode.length ∧ w.encode.length ≤ apduMaxFrameSize := by
  have hdata := w.data_le
  rw [w.encode_length]
  simp only [maxLc, hdrSize, leSize, tagSize] at *
  unfold apduMaxFrameSize apduMaxDataLen apduExtHdrSize apduStdHdrSize apduExtLeSize apduStdLeSize
    apduAuthTagSize at *
  split at hdata <;> simp_all <;> split <;> omega

/-- Encoding the fields that the receiver is handed gives the frame back. -/
@[simp] theorem WireFrame.encode_parsed (w : WireFrame) : w.parsed.encode = w.encode := by
  have htag : (w.parsed.authTag).getD [] = w.tag := by
    have hlen := w.tag_length
    by_cases hsec : claSec w.cla ≠ apduSecPlain
    · simp [WireFrame.parsed, hsec]
    · rw [tagSize, if_neg hsec] at hlen
      simp [WireFrame.parsed, hsec, List.length_eq_zero_iff.mp hlen]
  rw [ApduFrame.encode, htag]
  rfl

/-! ### What the parser finds at the front of the buffer -/

/-- The valid bytes of the buffer. -/
def ApduParser.bytes (p : ApduParser) : List UInt8 := slice p.buf 0 p.filled

@[simp] theorem bytes_length (p : ApduParser) : p.bytes.length = p.filled := slice_length _ _ _

/-- `total` of the frame whose header stands at the front. -/
def announcedSize (p : ApduParser) : ℕ :=
  hdrSize (p.buf 0) + (headerDataLen p (claExt (p.buf 0))).toNat + leSize (p.buf 0) +
    tagSize (p.buf 0)

theorem hdrSize_le_announced (p : ApduParser) : hdrSize (p.buf 0) ≤ announcedSize p := by
  unfold announcedSize; omega

theorem headerDataLen_le (p : ApduParser) :
    (headerDataLen p (claExt (p.buf 0))).toNat ≤ maxLc (p.buf 0) := by
  have h4 := (p.buf 4).toNat_lt
  simp only [headerDataLen, maxLc]
  split
  · have := (be16 (p.buf 5) (p.buf 6)).toNat_lt
    exact Nat.le_of_lt_succ this
  · rw [UInt8.toNat_toUInt16]
    omega

/-- The frame whose bytes stand at the front of the buffer, header and all. -/
def frontFrame (p : ApduParser) (hver : p.buf 0 &&& apduClaVerMask = 0)
    (hrfu : p.buf 0 &&& apduClaRfuBit = 0) : WireFrame where
  cla := p.buf 0
  ins := p.buf 1
  p1 := p.buf 2
  p2 := p.buf 3
  data := slice p.buf (hdrSize (p.buf 0)) (headerDataLen p (claExt (p.buf 0))).toNat
  le := trailerLe p (claExt (p.buf 0))
    (hdrSize (p.buf 0) + (headerDataLen p (claExt (p.buf 0))).toNat)
  tag := slice p.buf (hdrSize (p.buf 0) + (headerDataLen p (claExt (p.buf 0))).toNat +
    leSize (p.buf 0)) (tagSize (p.buf 0))
  ver_zero := hver
  rfu_zero := hrfu
  data_le := by rw [slice_length]; exact headerDataLen_le p
  le_lt := by
    intro hext
    rw [hext]
    exact (UInt8.toNat_toUInt16 _).trans_lt (p.buf _).toNat_lt
  tag_length := slice_length _ _ _

/-- The bytes of `frontFrame` are the ones it was read from. -/
theorem frontFrame_encode (p : ApduParser) (hver : p.buf 0 &&& apduClaVerMask = 0)
    (hrfu : p.buf 0 &&& apduClaRfuBit = 0) (hlc : claExt (p.buf 0) = true → p.buf 4 = 0) :
    (frontFrame p hver hrfu).encode = slice p.buf 0 (announcedSize p) := by
  have hheader : frameHeader (p.buf 0) (p.buf 1) (p.buf 2) (p.buf 3)
      (headerDataLen p (claExt (p.buf 0))).toNat = slice p.buf 0 (hdrSize (p.buf 0)) := by
    simp only [frameHeader, headerDataLen, hdrSize]
    cases hext : claExt (p.buf 0) with
    | true =>
      have hlen : ((be16 (p.buf 5) (p.buf 6)).toNat).toUInt16 = be16 (p.buf 5) (p.buf 6) := by simp
      simp only [if_true]
      rw [show ((p.buf 5).toUInt16 <<< 8) ||| (p.buf 6).toUInt16 = be16 (p.buf 5) (p.buf 6) from rfl,
        hlen, putU16_be16, ← hlc hext]
      rfl
    | false => simp [slice, apduStdHdrSize, List.range_succ]
  have hle : frameLe (p.buf 0) (frontFrame p hver hrfu).le =
      slice p.buf (hdrSize (p.buf 0) + (headerDataLen p (claExt (p.buf 0))).toNat)
        (leSize (p.buf 0)) := by
    dsimp only [frontFrame]
    simp only [frameLe, trailerLe, leSize]
    cases hext : claExt (p.buf 0) with
    | true => exact putU16_be16 _ _
    | false => simp [slice, apduStdLeSize]
  rw [WireFrame.encode, frameBytes, announcedSize]
  dsimp only [frontFrame] at hle ⊢
  rw [slice_length, hheader, hle, slice_add, slice_add, slice_add]
  simp only [Nat.zero_add]

/-- Every way through `apdu_parser_try_parse`; its length guard never fires. -/
inductive ParseCase (p : ApduParser) : ParseResult → Prop where
  | empty : p.filled = 0 → ParseCase p .needMore
  | version : 0 < p.filled → p.buf 0 &&& apduClaVerMask ≠ 0 → ParseCase p .errVersion
  | rfu : 0 < p.filled → p.buf 0 &&& apduClaVerMask = 0 → p.buf 0 &&& apduClaRfuBit ≠ 0 →
      ParseCase p .errRfu
  | header : 0 < p.filled → p.buf 0 &&& apduClaVerMask = 0 → p.buf 0 &&& apduClaRfuBit = 0 →
      p.filled < hdrSize (p.buf 0) → ParseCase p .needMore
  | extLc : hdrSize (p.buf 0) ≤ p.filled → p.buf 0 &&& apduClaVerMask = 0 →
      p.buf 0 &&& apduClaRfuBit = 0 → claExt (p.buf 0) = true → p.buf 4 ≠ 0 →
      ParseCase p .errExtLc
  | body : hdrSize (p.buf 0) ≤ p.filled → p.buf 0 &&& apduClaVerMask = 0 →
      p.buf 0 &&& apduClaRfuBit = 0 → (claExt (p.buf 0) = true → p.buf 4 = 0) →
      p.filled < announcedSize p → ParseCase p .needMore
  | ready (hver : p.buf 0 &&& apduClaVerMask = 0) (hrfu : p.buf 0 &&& apduClaRfuBit = 0) :
      (claExt (p.buf 0) = true → p.buf 4 = 0) → announcedSize p ≤ p.filled →
      ParseCase p (.frameReady (frontFrame p hver hrfu).parsed)

theorem announcedSize_le (p : ApduParser) : announcedSize p ≤ apduMaxFrameSize := by
  have hdata := headerDataLen_le p
  simp only [announcedSize]
  simp only [maxLc, hdrSize, leSize, tagSize] at *
  unfold apduMaxFrameSize apduMaxDataLen apduExtHdrSize apduStdHdrSize apduExtLeSize apduStdLeSize
    apduAuthTagSize at *
  split at hdata <;> simp_all <;> split <;> omega

/-- The frame that the parser fills in is the one at the front. -/
theorem populateFrame_eq (p : ApduParser) (hver : p.buf 0 &&& apduClaVerMask = 0)
    (hrfu : p.buf 0 &&& apduClaRfuBit = 0) :
    populateFrame p (p.buf 0) (claSec (p.buf 0)) (claExt (p.buf 0))
      (headerDataLen p (claExt (p.buf 0))) (hdrSize (p.buf 0)) (leSize (p.buf 0))
      (tagSize (p.buf 0)) (announcedSize p) = (frontFrame p hver hrfu).parsed := by
  have htotal : (frontFrame p hver hrfu).encode.length = announcedSize p := by
    rw [WireFrame.encode_length]
    dsimp only [frontFrame]
    rw [slice_length]
    rfl
  simp only [populateFrame, WireFrame.parsed]
  rw [ApduFrame.mk.injEq]
  refine ⟨rfl, rfl, rfl, rfl, rfl, rfl, rfl, rfl, rfl, rfl, ?_, htotal.symm⟩
  dsimp only [frontFrame]
  simp only [tagSize]
  by_cases hsec : claSec (p.buf 0) ≠ apduSecPlain
  · simp [hsec, apduAuthTagSize]
  · simp [hsec]

/-- The parser in the terms of the layouts. -/
theorem tryParse_eq (p : ApduParser) : apduParserTryParse p =
    if p.filled < 1 then .needMore
    else if p.buf 0 &&& apduClaVerMask ≠ 0 then .errVersion
    else if p.buf 0 &&& apduClaRfuBit ≠ 0 then .errRfu
    else if p.filled < hdrSize (p.buf 0) then .needMore
    else if claExt (p.buf 0) = true ∧ p.buf 4 ≠ 0 then .errExtLc
    else if p.filled < announcedSize p then .needMore
    else .frameReady (populateFrame p (p.buf 0) (claSec (p.buf 0)) (claExt (p.buf 0))
      (headerDataLen p (claExt (p.buf 0))) (hdrSize (p.buf 0)) (leSize (p.buf 0))
      (tagSize (p.buf 0)) (announcedSize p)) := by
  have hguard : ∀ r : ParseResult,
      (if apduMaxFrameSize < announcedSize p then .errLength else r) = r :=
    fun r => if_neg (not_lt.mpr (announcedSize_le p))
  rw [← hguard (if p.filled < announcedSize p then _ else _)]
  rfl

theorem tryParse_cases (p : ApduParser) : ParseCase p (apduParserTryParse p) := by
  rw [tryParse_eq]
  by_cases hempty : p.filled < 1
  · rw [if_pos hempty]
    exact .empty (by omega)
  have hpos : 0 < p.filled := by omega
  rw [if_neg hempty]
  by_cases hver : p.buf 0 &&& apduClaVerMask ≠ 0
  · rw [if_pos hver]
    exact .version hpos hver
  rw [if_neg hver]
  by_cases hrfu : p.buf 0 &&& apduClaRfuBit ≠ 0
  · rw [if_pos hrfu]
    exact .rfu hpos (not_not.mp hver) hrfu
  rw [if_neg hrfu]
  by_cases hhdr : p.filled < hdrSize (p.buf 0)
  · rw [if_pos hhdr]
    exact .header hpos (not_not.mp hver) (not_not.mp hrfu) hhdr
  rw [if_neg hhdr]
  by_cases hlc : claExt (p.buf 0) = true ∧ p.buf 4 ≠ 0
  · rw [if_pos hlc]
    exact .extLc (not_lt.mp hhdr) (not_not.mp hver) (not_not.mp hrfu) hlc.1 hlc.2
  have hlc' : claExt (p.buf 0) = true → p.buf 4 = 0 :=
    fun hext => by_contra fun h4 => hlc ⟨hext, h4⟩
  rw [if_neg hlc]
  by_cases hbody : p.filled < announcedSize p
  · rw [if_pos hbody]
    exact .body (not_lt.mp hhdr) (not_not.mp hver) (not_not.mp hrfu) hlc' hbody
  rw [if_neg hbody, populateFrame_eq p (not_not.mp hver) (not_not.mp hrfu)]
  exact .ready _ _ hlc' (not_lt.mp hbody)

/-! ### A buffer that holds a part of a stream -/

/-- As far as the valid bytes and the first block of the stream both reach, they agree. -/
theorem slice_of_stream {p : ApduParser} {bs s : List UInt8} (h : p.bytes <+: bs ++ s) {m : ℕ}
    (hm : m ≤ p.filled) (hb : m ≤ bs.length) : slice p.buf 0 m = bs.take m := by
  have htake := List.prefix_iff_eq_take.mp h
  rw [← slice_take p.buf 0 m p.filled hm]
  rw [show slice p.buf 0 p.filled = p.bytes from rfl, htake, List.take_take, bytes_length,
    Nat.min_eq_left hm, List.take_append_of_le_length hb]

/-- The header of a frame at the front of the buffer reads back as it was written. -/
theorem header_read {p : ApduParser} {w : WireFrame}
    (h : slice p.buf 0 (hdrSize w.cla) = frameHeader w.cla w.ins w.p1 w.p2 w.data.length) :
    p.buf 0 = w.cla ∧ p.buf 1 = w.ins ∧ p.buf 2 = w.p1 ∧ p.buf 3 = w.p2 ∧
      (claExt w.cla = true → p.buf 4 = 0) ∧
      (headerDataLen p (claExt w.cla)).toNat = w.data.length := by
  have hdata := w.data_le
  simp only [frameHeader, hdrSize, maxLc, apduMaxDataLen] at *
  cases hext : claExt w.cla with
  | true =>
    simp only [hext, if_true] at h hdata
    simp only [slice, apduExtHdrSize, putU16] at h
    simp [List.range_succ] at h
    obtain ⟨h0, h1, h2, h3, h4, h5, h6⟩ := h
    refine ⟨h0, h1, h2, h3, fun _ => h4, ?_⟩
    show (be16 (p.buf 5) (p.buf 6)).toNat = _
    rw [be16_toNat, h5, h6]
    simp [Nat.shiftRight_eq_div_pow]
    omega
  | false =>
    simp only [hext] at h hdata
    simp [slice, apduStdHdrSize, List.range_succ] at h
    obtain ⟨h0, h1, h2, h3, h4⟩ := h
    refine ⟨h0, h1, h2, h3, by simp, ?_⟩
    show ((p.buf 4).toUInt16).toNat = _
    rw [h4]
    simp at hdata ⊢
    omega

/-- The parser on a part of a stream: it waits for the first frame as long as that is not whole, and
    then hands it out. -/
theorem tryParse_stream {p : ApduParser} {w : WireFrame} {s : List UInt8}
    (h : p.bytes <+: w.encode ++ s) : apduParserTryParse p =
      if p.filled < w.encode.length then .needMore else .frameReady w.parsed := by
  have hlen := w.encode_length
  have hhdr := hdrSize_pos w.cla
  have hcla : 0 < p.filled → p.buf 0 = w.cla := by
    intro hpos
    have := slice_of_stream h (m := 1) hpos (by omega)
    simpa [slice, WireFrame.encode, frameBytes, frameHeader] using this
  have hhead : hdrSize w.cla ≤ p.filled →
      slice p.buf 0 (hdrSize w.cla) = frameHeader w.cla w.ins w.p1 w.p2 w.data.length := by
    intro hle
    rw [slice_of_stream h hle (by omega), WireFrame.encode, frameBytes, List.append_assoc,
      List.append_assoc, List.take_left' (frameHeader_length _ _ _ _ _)]
  have hann : hdrSize w.cla ≤ p.filled → announcedSize p = w.encode.length := by
    intro hle
    obtain ⟨h0, -, -, -, -, hn⟩ := header_read (hhead hle)
    rw [announcedSize, h0, hn, hlen]
  have hc := tryParse_cases p
  generalize apduParserTryParse p = out at hc
  cases hc with
  | empty h0 => rw [if_pos (by omega)]
  | version hpos hv => exact absurd (by rw [hcla hpos]; exact w.ver_zero) hv
  | rfu hpos _ hr => exact absurd (by rw [hcla hpos]; exact w.rfu_zero) hr
  | header hpos _ _ hlt =>
    rw [hcla hpos] at hlt
    rw [if_pos (by omega)]
  | extLc hle _ _ hext h4 =>
    have hpos := (hdrSize_pos (p.buf 0)).trans_le hle
    rw [hcla hpos] at hle hext
    exact absurd ((header_read (hhead hle)).2.2.2.2.1 hext) h4
  | body hle _ _ _ hlt =>
    have hpos := (hdrSize_pos (p.buf 0)).trans_le hle
    rw [hcla hpos] at hle
    rw [if_pos (by rwa [hann hle] at hlt)]
  | ready hver hrfu hlc hle =>
    have hfit := (hdrSize_le_announced p).trans hle
    rw [hcla ((hdrSize_pos _).trans_le hfit)] at hfit
    have hsize := hann hfit
    rw [hsize] at hle
    have hbytes : (frontFrame p hver hrfu).encode = w.encode := by
      rw [frontFrame_encode p hver hrfu hlc, hsize, slice_of_stream h hle le_rfl, List.take_length]
    rw [if_neg (not_lt.mpr hle), WireFrame.encode_injective hbytes]

/-! ### Verdicts -/

theorem bytes_eq {p p' : ApduParser} (hf : p'.filled = p.filled)
    (hb : ∀ i < p.filled, p'.buf i = p.buf i) : p'.bytes = p.bytes := by
  simp only [ApduParser.bytes]
  rw [hf]
  exact slice_congr fun i hi => by simpa using hb i hi

/-- A frame is found exactly when the valid bytes begin with its encoding. -/
theorem tryParse_frameReady {p : ApduParser} {f : ApduFrame} :
    apduParserTryParse p = .frameReady f ↔ ∃ w : WireFrame, w.parsed = f ∧ w.encode <+: p.bytes := by
  constructor
  · intro h
    have hc := tryParse_cases p
    rw [h] at hc
    cases hc with
    | ready hver hrfu hlc hle =>
      refine ⟨frontFrame p hver hrfu, rfl, ?_⟩
      rw [frontFrame_encode p hver hrfu hlc, ← slice_take p.buf 0 _ p.filled hle]
      exact List.take_prefix _ _
  · rintro ⟨w, rfl, t, ht⟩
    have hlen : w.encode.length ≤ p.filled := by
      rw [← bytes_length p, ← ht, List.length_append]
      omega
    rw [tryParse_stream (w := w) (s := t) (by rw [ht]), if_neg (not_lt.mpr hlen)]

/-- Once the header is there, its size is read from valid bytes. -/
theorem announcedSize_congr {p p' : ApduParser} (hle : hdrSize (p.buf 0) ≤ p.filled)
    (hb : ∀ i < p.filled, p'.buf i = p.buf i) : announcedSize p' = announcedSize p := by
  have h0 : p'.buf 0 = p.buf 0 := hb 0 ((hdrSize_pos _).trans_le hle)
  have hlen : headerDataLen p' (claExt (p.buf 0)) = headerDataLen p (claExt (p.buf 0)) := by
    simp only [headerDataLen]
    simp only [hdrSize] at hle
    cases hext : claExt (p.buf 0) with
    | true =>
      simp only [hext, if_true, apduExtHdrSize] at hle
      simp [hb 5 (by omega), hb 6 (by omega)]
    | false =>
      simp only [hext, apduStdHdrSize] at hle
      simp [hb 4 (by simp at hle; omega)]
  rw [announcedSize, announcedSize, h0, hlen]

/-- The verdict depends on the valid bytes and on nothing that lies above them. -/
theorem tryParse_congr {p p' : ApduParser} (hf : p'.filled = p.filled)
    (hb : ∀ i < p.filled, p'.buf i = p.buf i) : apduParserTryParse p' = apduParserTryParse p := by
  have hc := tryParse_cases p
  generalize apduParserTryParse p = out at hc
  cases hc with
  | ready hver hrfu hlc hle =>
    rw [tryParse_frameReady]
    refine ⟨frontFrame p hver hrfu, rfl, ?_⟩
    rw [bytes_eq hf hb, frontFrame_encode p hver hrfu hlc, ← slice_take p.buf 0 _ p.filled hle]
    exact List.take_prefix _ _
  | empty h0 => rw [tryParse_eq, hf, if_pos (by omega)]
  | version hpos hv => rw [tryParse_eq, hf, hb 0 hpos, if_neg (by omega), if_pos hv]
  | rfu hpos hv hr =>
    rw [tryParse_eq, hf, hb 0 hpos, if_neg (by omega), if_neg (not_not.mpr hv), if_pos hr]
  | header hpos hv hr hlt =>
    rw [tryParse_eq, hf, hb 0 hpos, if_neg (by omega), if_neg (not_not.mpr hv),
      if_neg (not_not.mpr hr), if_pos hlt]
  | extLc hle hv hr hext h4 =>
    have hpos := (hdrSize_pos (p.buf 0)).trans_le hle
    have h5 : 4 < p.filled := by
      rw [hdrSize, if_pos hext] at hle
      exact (by decide : 4 < apduExtHdrSize).trans_le hle
    rw [tryParse_eq, hf, hb 0 hpos, hb 4 h5, if_neg (by omega), if_neg (not_not.mpr hv),
      if_neg (not_not.mpr hr), if_neg (not_lt.mpr hle), if_pos ⟨hext, h4⟩]
  | body hle hv hr hlc hlt =>
    have hpos := (hdrSize_pos (p.buf 0)).trans_le hle
    have hlc' : ¬ (claExt (p.buf 0) = true ∧ p'.buf 4 ≠ 0) := by
      rintro ⟨hext, h4⟩
      have h5 : 4 < p.filled := by
        rw [hdrSize, if_pos hext] at hle
        exact (by decide : 4 < apduExtHdrSize).trans_le hle
      exact h4 ((hb 4 h5).trans (hlc hext))
    rw [tryParse_eq, hf, hb 0 hpos, if_neg (by omega), if_neg (not_not.mpr hv),
      if_neg (not_not.mpr hr), if_neg (not_lt.mpr hle), if_neg hlc', announcedSize_congr hle hb,
      if_pos hlt]

/-! ### Frames as code words -/

/-- A buffer that holds just these bytes. -/
def bufferOf (s : List UInt8) : ApduParser := ⟨fun i => s.getD i 0, s.length, true⟩

@[simp] theorem bytes_bufferOf (s : List UInt8) : (bufferOf s).bytes = s := by
  refine List.ext_getElem (by simp [bufferOf]) fun i hi hi' => ?_
  simp [ApduParser.bytes, slice, bufferOf, hi']

theorem WireFrame.parsed_injective {w w' : WireFrame} (h : w.parsed = w'.parsed) : w = w' :=
  WireFrame.encode_injective (by rw [← w.encode_parsed, h, w'.encode_parsed])

/-- No encoding begins another one: the parser would have to hand out both frames. -/
theorem encode_code : PrefixCode WireFrame.encode where
  nonempty w h := by
    have := w.encode_bounds.1
    simp [h] at this
  unique {w w' s} h h' := by
    have hw : apduParserTryParse (bufferOf s) = .frameReady w.parsed :=
      tryParse_frameReady.mpr ⟨w, rfl, by rwa [bytes_bufferOf]⟩
    have hw' : apduParserTryParse (bufferOf s) = .frameReady w'.parsed :=
      tryParse_frameReady.mpr ⟨w', rfl, by rwa [bytes_bufferOf]⟩
    exact WireFrame.parsed_injective (ParseResult.frameReady.inj (hw.symm.trans hw'))

/-- The parts of a frame at the front of the buffer stand where the layout has them. -/
theorem WireFrame.slices {w : WireFrame} {p : ApduParser} (h : w.encode <+: p.bytes) :
    slice p.buf 0 w.encode.length = w.encode ∧
      slice p.buf (hdrSize w.cla) w.data.length = w.data ∧
      slice p.buf (hdrSize w.cla + w.data.length + leSize w.cla) (tagSize w.cla) = w.tag := by
  obtain ⟨-, hall⟩ := prefix_slice h
  refine ⟨hall.symm, ?_⟩
  rw [w.encode_length, slice_add, slice_add, slice_add, Nat.zero_add, Nat.zero_add, Nat.zero_add,
    WireFrame.encode, frameBytes] at hall
  obtain ⟨hrest, htag⟩ := List.append_inj' hall (by simp [w.tag_length])
  obtain ⟨hrest, -⟩ := List.append_inj' hrest (by simp)
  obtain ⟨-, hdata⟩ := List.append_inj' hrest (by simp)
  exact ⟨hdata.symm, htag.symm⟩

/-- CORRECT (exact): a frame is found exactly when the valid bytes begin with one of the documented
    layouts. What is handed out encodes to the first `total_size` bytes, with data and tag inside
    them; every encoding is read back, whatever follows it; and the bytes above `filled` have no
    say. -/
theorem tryParse_layouts (p : ApduParser) :
    ((∃ f, apduParserTryParse p = .frameReady f) ↔ ∃ w : WireFrame, w.encode <+: p.bytes) ∧
      (∀ f, apduParserTryParse p = .frameReady f →
        f.totalSize ≤ p.filled ∧ f.encode = slice p.buf 0 f.totalSize ∧
        hdrSize f.cla + f.dataLen ≤ f.totalSize ∧
        f.data = slice p.buf (hdrSize f.cla) f.dataLen ∧
        (f.authTag.isSome ↔ f.sec ≠ apduSecPlain) ∧
        ∀ t ∈ f.authTag, apduAuthTagSize ≤ f.totalSize ∧
          t = slice p.buf (f.totalSize - apduAuthTagSize) apduAuthTagSize) ∧
      (∀ (w : WireFrame) (rest : List UInt8), p.bytes = w.encode ++ rest →
        apduParserTryParse p = .frameReady w.parsed) ∧
      ∀ p' : ApduParser, p'.filled = p.filled → (∀ i < p.filled, p'.buf i = p.buf i) →
        apduParserTryParse p' = apduParserTryParse p := by
  refine ⟨?_, fun f hf => ?_, fun w rest hw => ?_, fun p' hfill hbuf => tryParse_congr hfill hbuf⟩
  · constructor
    · rintro ⟨f, hf⟩
      obtain ⟨w, -, hw⟩ := tryParse_frameReady.mp hf
      exact ⟨w, hw⟩
    · rintro ⟨w, hw⟩
      exact ⟨w.parsed, tryParse_frameReady.mpr ⟨w, rfl, hw⟩⟩
  · obtain ⟨w, rfl, hw⟩ := tryParse_frameReady.mp hf
    obtain ⟨hall, hdata, htag⟩ := w.slices hw
    have hlen := w.encode_length
    have hin : w.encode.length ≤ p.filled := by simpa using hw.length_le
    refine ⟨hin, by rw [w.encode_parsed]; exact hall.symm, ?_, hdata.symm, ?_, ?_⟩
    · show hdrSize w.cla + w.data.length ≤ w.encode.length
      omega
    · show (if claSec w.cla ≠ apduSecPlain then some w.tag else none).isSome = true ↔ _
      by_cases hsec : claSec w.cla ≠ apduSecPlain
      · simp [hsec, WireFrame.parsed]
      · simp [hsec, WireFrame.parsed]
    · intro t ht
      have hsec : claSec w.cla ≠ apduSecPlain := by
        by_contra hplain
        simp [WireFrame.parsed, hplain] at ht
      obtain rfl : w.tag = t := by simpa [WireFrame.parsed, hsec] using ht
      have hsize : tagSize w.cla = apduAuthTagSize := by rw [tagSize, if_pos hsec]
      rw [hsize] at hlen htag
      refine ⟨?_, ?_⟩
      · show apduAuthTagSize ≤ w.encode.length
        omega
      · show w.tag = slice p.buf (w.encode.length - apduAuthTagSize) apduAuthTagSize
        rw [hlen, Nat.add_sub_cancel]
        exact htag.symm
  · exact tryParse_frameReady.mpr ⟨w, rfl, rest, hw.symm⟩

end Asys
