import Asys.Core.Frames

/-! # The receive buffer as a queue of bytes

    Received bytes go behind the valid ones and a consumed frame leaves at the front, so on the
    valid bytes `apdu_parser_recv_commit` appends and `apdu_parser_consume` drops. A receiver that
    parses and consumes until it is told to wait (`drain`) takes a stream of frames apart, wherever
    the stream was cut. -/

namespace Asys
open Words Framing

/-- A chunk written to `apdu_parser_recv_ptr` and committed. -/
def received (p : ApduParser) (chunk : List UInt8) : ApduParser :=
  apduParserRecvCommit { p with buf := writeAt p.buf p.filled chunk } chunk.length

theorem apduParserRecvMax_eq {p : ApduParser} (h : p.filled ≤ apduMaxFrameSize) :
    apduParserRecvMax p = apduMaxFrameSize - p.filled := by
  unfold apduParserRecvMax apduMaxFrameSize apduExtHdrSize apduMaxDataLen apduExtLeSize
    apduAuthTagSize at *
  omega

/-- A chunk that fits is appended, and the buffer is not overrun. -/
theorem received_bytes {p : ApduParser} {chunk : List UInt8} (hp : p.filled ≤ apduMaxFrameSize)
    (h : chunk.length ≤ apduParserRecvMax p) :
    (received p chunk).bytes = p.bytes ++ chunk ∧ (received p chunk).filled ≤ apduMaxFrameSize := by
  have hmax := apduParserRecvMax_eq hp
  have hfit : p.filled + chunk.length ≤ apduMaxFrameSize := by omega
  have hfill : (received p chunk).filled = p.filled + chunk.length := by
    refine Nat.mod_eq_of_lt (hfit.trans_lt ?_)
    decide
  refine ⟨?_, hfill ▸ hfit⟩
  have hbuf : (received p chunk).buf = writeAt p.buf p.filled chunk := rfl
  rw [ApduParser.bytes, hfill, hbuf, slice_add]
  congr 1
  · refine slice_congr fun i hi => ?_
    rw [Nat.zero_add, writeAt, if_neg (by omega)]
  · refine List.ext_getElem (by simp) fun i hi hi' => ?_
    simp [slice, writeAt, hi']

/-- A consumed frame leaves at the front. -/
theorem consume_bytes {p : ApduParser} {w : WireFrame} (h : w.encode <+: p.bytes) :
    (apduParserConsume p w.parsed).bytes = p.bytes.drop w.encode.length ∧
      (apduParserConsume p w.parsed).filled < p.filled := by
  have hpos := w.encode_bounds.1
  have hlen : w.encode.length ≤ p.filled := by simpa using h.length_le
  have htotal : w.parsed.totalSize = w.encode.length := rfl
  simp only [apduParserConsume]
  rw [htotal]
  by_cases hall : p.filled ≤ w.encode.length
  · rw [if_pos hall]
    refine ⟨?_, hpos.trans_le hlen⟩
    rw [List.drop_eq_nil_of_le (by simpa using hall)]
    rfl
  · rw [if_neg hall]
    refine ⟨?_, Nat.sub_lt (by omega) hpos⟩
    rw [ApduParser.bytes, ApduParser.bytes, slice_drop]
    refine List.ext_getElem (by simp) fun i hi hi' => ?_
    simp at hi
    simp [slice, writeAt, hi]

/-! ### Draining -/

/-- What a receiver finds that parses and consumes until no frame is left; `stop` is the last
    verdict. -/
structure Drained where
  frames : List ApduFrame
  parser : ApduParser
  stop : ParseResult

theorem consume_lt {p : ApduParser} {f : ApduFrame} (h : apduParserTryParse p = .frameReady f) :
    (apduParserConsume p f).filled < p.filled := by
  obtain ⟨w, rfl, hw⟩ := tryParse_frameReady.mp h
  exact (consume_bytes hw).2

def drain (p : ApduParser) : Drained :=
  match _h : apduParserTryParse p with
  | .frameReady f =>
    let d := drain (apduParserConsume p f)
    { d with frames := f :: d.frames }
  | verdict => ⟨[], p, verdict⟩
termination_by p.filled
decreasing_by exact consume_lt _h

theorem drain_frame {p : ApduParser} {f : ApduFrame} (h : apduParserTryParse p = .frameReady f) :
    drain p = { drain (apduParserConsume p f) with
      frames := f :: (drain (apduParserConsume p f)).frames } := by
  rw [drain]
  split
  · rename_i f' h'
    obtain rfl := ParseResult.frameReady.inj (h'.symm.trans h)
    rfl
  · rename_i hno
    exact absurd h (hno f)

theorem drain_stop {p : ApduParser} (h : ∀ f, apduParserTryParse p ≠ .frameReady f) :
    drain p = ⟨[], p, apduParserTryParse p⟩ := by
  rw [drain]
  split
  · rename_i f h'
    exact absurd h' (h f)
  · rfl

/-- No frame is at the front of a buffer whose bytes are incomplete. -/
theorem incomplete_iff {p : ApduParser} :
    Incomplete WireFrame.encode p.bytes ↔ ∀ f, apduParserTryParse p ≠ .frameReady f := by
  constructor
  · intro h f hf
    obtain ⟨w, -, hw⟩ := tryParse_frameReady.mp hf
    exact h w hw
  · intro h w hw
    exact h w.parsed (tryParse_frameReady.mpr ⟨w, rfl, hw⟩)

/-- Draining cuts the valid bytes into the frames found and the bytes left in the buffer. -/
theorem drain_cut (p : ApduParser) :
    ∃ ws : List WireFrame, (drain p).frames = ws.map WireFrame.parsed ∧
      Cut WireFrame.encode p.bytes ws (drain p).parser.bytes := by
  induction hn : p.filled using Nat.strongRecOn generalizing p with
  | ind n ih =>
    subst hn
    by_cases h : ∀ f, apduParserTryParse p ≠ .frameReady f
    · rw [drain_stop h]
      exact ⟨[], rfl, Cut.of_incomplete (incomplete_iff.mpr h)⟩
    · push Not at h
      obtain ⟨f, hf⟩ := h
      obtain ⟨w, rfl, hw⟩ := tryParse_frameReady.mp hf
      obtain ⟨hbytes, hlt⟩ := consume_bytes hw
      obtain ⟨ws, hws, hcut⟩ := ih _ hlt (apduParserConsume p w.parsed) rfl
      rw [drain_frame hf]
      refine ⟨w :: ws, by simp [hws], ?_⟩
      have hsplit : p.bytes = w.encode ++ (apduParserConsume p w.parsed).bytes := by
        rw [hbytes]
        exact (List.prefix_iff_eq_append.mp hw).symm
      rw [hsplit]
      exact hcut.cons

theorem drain_filled_le (p : ApduParser) : (drain p).parser.filled ≤ p.filled := by
  obtain ⟨ws, -, hcut⟩ := drain_cut p
  have := congrArg List.length hcut.stream
  simp at this
  omega

/-- Draining a buffer that holds the next part of a stream of frames takes the whole ones off the
    stream and then waits. -/
theorem drain_stream {ws : List WireFrame} {p : ApduParser} {tail : List UInt8}
    (h : p.bytes ++ tail = ws.flatMap WireFrame.encode) :
    ∃ us vs : List WireFrame, ws = us ++ vs ∧ (drain p).frames = us.map WireFrame.parsed ∧
      (drain p).stop = .needMore ∧
      (drain p).parser.bytes ++ tail = vs.flatMap WireFrame.encode ∧
      (drain p).parser.filled ≤ p.filled ∧ Incomplete WireFrame.encode (drain p).parser.bytes := by
  induction ws generalizing p with
  | nil =>
    have hempty : p.filled = 0 := by
      have := congrArg List.length h
      simp at this
      exact this.1
    have hwait : apduParserTryParse p = .needMore := by rw [tryParse_eq, if_pos (by omega)]
    have hno : ∀ f, apduParserTryParse p ≠ .frameReady f := by simp [hwait]
    rw [drain_stop hno]
    exact ⟨[], [], rfl, rfl, hwait, h, le_rfl, incomplete_iff.mpr hno⟩
  | cons w ws ih =>
    rw [List.flatMap_cons] at h
    have hparse := tryParse_stream (p := p) (w := w) (s := ws.flatMap WireFrame.encode)
      ⟨tail, h⟩
    by_cases hlt : p.filled < w.encode.length
    · rw [if_pos hlt] at hparse
      have hno : ∀ f, apduParserTryParse p ≠ .frameReady f := by simp [hparse]
      rw [drain_stop hno]
      exact ⟨[], w :: ws, rfl, rfl, hparse, by rw [List.flatMap_cons]; exact h, le_rfl,
        incomplete_iff.mpr hno⟩
    · rw [if_neg hlt] at hparse
      have hw : w.encode <+: p.bytes := by
        refine List.prefix_of_prefix_length_le (List.prefix_append _ _) ⟨tail, h⟩ ?_
        simpa using hlt
      obtain ⟨hbytes, hshort⟩ := consume_bytes hw
      have hrest : (apduParserConsume p w.parsed).bytes ++ tail = ws.flatMap WireFrame.encode := by
        rw [hbytes, ← List.drop_append_of_le_length hw.length_le, h, List.drop_left]
      obtain ⟨us, vs, rfl, hframes, hstop, htail, hle, hinc⟩ := ih hrest
      rw [drain_frame hparse]
      exact ⟨w :: us, vs, rfl, by simp [hframes], hstop, htail, hle.trans hshort.le, hinc⟩

/-! ### Chunk by chunk -/

/-- A receiver at the end of its chunks: the parser, the frames it was handed and the verdict that
    ended each round. -/
structure Fed where
  parser : ApduParser
  frames : List ApduFrame
  stops : List ParseResult

/-- Each chunk is received and the buffer drained before the next one. -/
def feedAll : ApduParser → List (List UInt8) → Fed
  | p, [] => ⟨p, [], []⟩
  | p, chunk :: chunks =>
    let d := drain (received p chunk)
    let r := feedAll d.parser chunks
    ⟨r.parser, d.frames ++ r.frames, d.stop :: r.stops⟩

/-- Each chunk fits the space that `apdu_parser_recv_ptr` reports when it is the next one. -/
def ChunksFit : ApduParser → List (List UInt8) → Prop
  | _, [] => True
  | p, chunk :: chunks =>
    chunk.length ≤ apduParserRecvMax p ∧ ChunksFit (drain (received p chunk)).parser chunks

/-- Chunks that fit the buffer together fit it one after the other. -/
theorem chunksFit_of_le {chunks : List (List UInt8)} {p : ApduParser}
    (h : p.filled + chunks.flatten.length ≤ apduMaxFrameSize) : ChunksFit p chunks := by
  induction chunks generalizing p with
  | nil => trivial
  | cons chunk chunks ih =>
    rw [List.flatten_cons, List.length_append] at h
    have hp : p.filled ≤ apduMaxFrameSize := by omega
    have hchunk : chunk.length ≤ apduParserRecvMax p := by
      rw [apduParserRecvMax_eq hp]
      omega
    refine ⟨hchunk, ih ?_⟩
    have hlen := congrArg List.length (received_bytes hp hchunk).1
    have hle := drain_filled_le (received p chunk)
    simp at hlen
    omega

/-- The rounds from any point of a stream on. -/
theorem feedAll_stream {chunks : List (List UInt8)} {p : ApduParser} {ws : List WireFrame}
    (hp : p.filled ≤ apduMaxFrameSize) (hinc : Incomplete WireFrame.encode p.bytes)
    (hstream : p.bytes ++ chunks.flatten = ws.flatMap WireFrame.encode) (hfit : ChunksFit p chunks) :
    (feedAll p chunks).frames = ws.map WireFrame.parsed ∧
      (∀ stop ∈ (feedAll p chunks).stops, stop = .needMore) ∧
      (feedAll p chunks).parser.filled = 0 := by
  induction chunks generalizing p ws with
  | nil =>
    rw [List.flatten_nil, List.append_nil] at hstream
    cases ws with
    | nil => exact ⟨rfl, by simp [feedAll], by simpa [feedAll] using congrArg List.length hstream⟩
    | cons w ws => exact absurd ⟨_, hstream.symm⟩ (hinc w)
  | cons chunk chunks ih =>
    obtain ⟨hchunk, hfit⟩ := hfit
    obtain ⟨hbytes, hle⟩ := received_bytes hp hchunk
    have hrest : (received p chunk).bytes ++ chunks.flatten = ws.flatMap WireFrame.encode := by
      rw [hbytes, List.append_assoc, ← List.flatten_cons, hstream]
    obtain ⟨us, vs, rfl, hframes, hstop, htail, hshort, hinc⟩ := drain_stream hrest
    obtain ⟨hrframes, hstops, hfilled⟩ := ih (hshort.trans hle) hinc htail hfit
    refine ⟨?_, ?_, hfilled⟩
    · show (drain (received p chunk)).frames ++ (feedAll _ chunks).frames = _
      rw [hframes, hrframes, List.map_append]
    · exact List.forall_mem_cons.mpr ⟨hstop, hstops⟩

/-- CORRECT: wherever a stream of frames is cut, feeding the chunks to an empty parser and draining
    it after each one hands out the frames of the stream in order, meets no error and leaves
    nothing behind. -/
theorem feedAll_frames (ws : List WireFrame) (chunks : List (List UInt8)) (p : ApduParser)
    (hp : p.filled = 0) (hcut : chunks.flatten = ws.flatMap WireFrame.encode)
    (hfit : ChunksFit p chunks) :
    (feedAll p chunks).frames = ws.map WireFrame.parsed ∧
      (∀ stop ∈ (feedAll p chunks).stops, stop = .needMore) ∧
      (feedAll p chunks).parser.filled = 0 := by
  have hempty : p.bytes = [] := List.length_eq_zero_iff.mp (by simp [hp])
  refine feedAll_stream (by rw [hp]; exact Nat.zero_le _) ?_ (by rw [hempty]; exact hcut) hfit
  rw [hempty]
  exact encode_code.incomplete_nil

/-- A SYS_HELLO and a signed extended frame with one byte of data. -/
def helloAndSigned : List WireFrame :=
  [helloFrame, signedRestart [0x2A] (by decide) 0x0100]

/-- The two frames, cut within the first header, within the second and within the tag. -/
theorem feedAll_frames_helloAndSigned :
    (feedAll apduPoolSlot [[0x00, 0x01], [0x00, 0x00, 0x00, 0x00, 0x06, 0x22, 0x00, 0x00, 0x00, 0x00],
      [0x01, 0x2A, 0x01, 0x00, 0x55, 0x55, 0x55], List.replicate 13 0x55]).frames =
        helloAndSigned.map WireFrame.parsed :=
  (feedAll_frames helloAndSigned _ apduPoolSlot rfl (by decide)
    (chunksFit_of_le (by decide))).1

end Asys
