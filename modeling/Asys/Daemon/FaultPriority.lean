import Asys.Core.Frames
import Asys.Daemon.Replay

/-! # Which fault of a frame is answered

    The faults of a frame have an order: the version of the CLA byte, the lengths, the tag, the Seq,
    the bitmap, the Sec level, the parameters. The checks stand in the parser, in the loop, in
    `verify_auth_tag`, in `dispatch` and in the handlers, and the lengths are looked at last of all:
    by the handlers, behind the tag, the Seq and the Sec level. -/

namespace Asys
open Words

/-- The faults that have a status word of their own, the first one first. -/
inductive Fault where
  | version | length | tag | replay | notFound | permission | parameter
  deriving DecidableEq, Repr

def Fault.sw : Fault → UInt16
  | .version => 0x6E00
  | .length => swWrongLen
  | .tag => swAccessDenied
  | .replay => swReplayDetected
  | .notFound => swNotFound
  | .permission => swAccessDenied
  | .parameter => swWrongData

/-- The fewest data bytes an instruction can do with. -/
def minLc (ins : UInt8) : ℕ :=
  if ins = 0x11 then 4 else if ins = 0x20 then procThrottleDataLen
  else if ins = 0x22 then minDataLen else 0

def LcFault (f : ApduFrame) : Prop :=
  (f.sec ≠ apduSecPlain ∧ f.dataLen < 4) ∨ f.dataLen < minLc f.ins

/-- The tag is not the HMAC of the frame. -/
def TagFault (mc : Monocypher) (ctx : SessionCtx) (f : ApduFrame) : Prop :=
  f.sec ≠ apduSecPlain ∧
    f.authTag ≠ some ((hmacBlake2b mc ctx.noise.recvKey (authMessage f ctx.epochId)).take
      apduAuthTagSize)

def ReplayFault (ctx : SessionCtx) (f : ApduFrame) : Prop :=
  f.sec ≠ apduSecPlain ∧ frameSeq f ≤ ctx.lastSeenSeq

/-- The instruction acts on the node and the frame is not signed. -/
def SecFault (f : ApduFrame) : Prop := (f.ins = 0x20 ∨ f.ins = 0x22) ∧ f.sec ≠ apduSecSigned

def ParamFault (f : ApduFrame) : Prop :=
  (f.ins = 0x20 ∧ ((f.p1 ≠ 0x00 ∧ f.p1 ≠ 0x01) ∨ pidField f = 0)) ∨
    (f.ins = 0x22 ∧ svcNameValid (f.data.drop offSvcName) = false)

/-- A header that is not well-formed: the RFU bit, or no zero where an extended header has one. -/
def Malformed (p : ApduParser) : Prop :=
  p.buf 0 &&& apduClaRfuBit ≠ 0 ∨ (claExt (p.buf 0) = true ∧ p.buf 4 ≠ 0)

instance (f : ApduFrame) : Decidable (LcFault f) := by unfold LcFault; infer_instance
instance (mc : Monocypher) (ctx : SessionCtx) (f : ApduFrame) : Decidable (TagFault mc ctx f) := by
  unfold TagFault; infer_instance
instance (ctx : SessionCtx) (f : ApduFrame) : Decidable (ReplayFault ctx f) := by
  unfold ReplayFault; infer_instance
instance (f : ApduFrame) : Decidable (SecFault f) := by unfold SecFault; infer_instance
instance (f : ApduFrame) : Decidable (ParamFault f) := by unfold ParamFault; infer_instance
instance (p : ApduParser) : Decidable (Malformed p) := by unfold Malformed; infer_instance

/-- The first fault from the bitmap on. -/
def handlerFault (f : ApduFrame) : Option Fault :=
  if inCapsBitmap f.ins = false then some .notFound
  else if SecFault f then some .permission
  else if ParamFault f then some .parameter
  else none

/-- The first fault of a frame behind its header. -/
def frameFault (mc : Monocypher) (ctx : SessionCtx) (f : ApduFrame) : Option Fault :=
  if LcFault f then some .length
  else if TagFault mc ctx f then some .tag
  else if ReplayFault ctx f then some .replay
  else handlerFault f

/-- The first fault of what is at the front of the buffer. -/
def firstFault (mc : Monocypher) (c : ClientThread) : Option Fault :=
  if c.parser.buf 0 &&& apduClaVerMask ≠ 0 then some .version
  else if Malformed c.parser then some .length
  else
    match apduParserTryParse c.parser with
    | .frameReady f => frameFault mc c.ctx f
    | _ => none

/-- No fault is hidden by a check that comes too early. `lc`: a frame that is too short is a plain
    TASK_QUERY, or it is signed with the right tag and a new Seq. `long`: a frame that is too long for
    `verify_auth_tag` has, with the right tag, none of the faults that are told apart from a bad one. -/
structure FaultShown (mc : Monocypher) (ctx : SessionCtx) (f : ApduFrame) : Prop where
  lc : LcFault f → (f.sec = apduSecPlain ∧ f.ins = 0x11) ∨
    (f.sec = apduSecSigned ∧ 4 ≤ f.dataLen ∧ ¬ TagFault mc ctx f ∧ ¬ ReplayFault ctx f)
  long : f.sec ≠ apduSecPlain → 259 < f.dataLen → ¬ TagFault mc ctx f →
    ¬ ReplayFault ctx f ∧ inCapsBitmap f.ins = true ∧ (ParamFault f → SecFault f)

/-! ### What each part answers -/

theorem verifyAuthTag_iff {mc : Monocypher} {ctx : SessionCtx} {f : ApduFrame}
    (hsec : f.sec ≠ apduSecPlain) : verifyAuthTag mc ctx.noise f ctx.epochId = true ↔
      4 ≤ f.dataLen ∧ f.dataLen ≤ 259 ∧ ¬ TagFault mc ctx f := by
  unfold verifyAuthTag TagFault
  by_cases hshort : f.dataLen < 4
  · rw [if_pos hshort]
    exact iff_of_false nofun fun h => by omega
  rw [if_neg hshort]
  cases htag : f.authTag with
  | none => simp [hsec]
  | some tag =>
    dsimp only
    by_cases hlong : 255 < f.dataLen - 4
    · rw [if_pos hlong]
      exact iff_of_false nofun fun h => by omega
    · rw [if_neg hlong, decide_eq_true_iff]
      have h4 : 4 ≤ f.dataLen := by omega
      have h259 : f.dataLen ≤ 259 := by omega
      simp [hsec, h4, h259, eq_comm]

/-- The response to a frame, with what `dispatch` would answer. -/
def gateResponse (mc : Monocypher) (ctx : SessionCtx) (f : ApduFrame) (resp : List UInt8) :
    List UInt8 :=
  if f.sec = apduSecPlain then resp
  else if verifyAuthTag mc ctx.noise f ctx.epochId = false then swWrite swAccessDenied
  else if frameSeq f ≤ ctx.lastSeenSeq then swWrite swReplayDetected
  else resp

theorem serve_answers (mc : Monocypher) {e : TurnEnv} (g : Statics) {c : ClientThread}
    (f : ApduFrame) (a : Bool) (hdone : c.ctx.noise.handshakeDone = true)
    (hsends : ∀ k, e.sends k = true) :
    (serve mc e g c f a).answers = [(dispatch e.env e.node g f c.ctx.sessionId).2.2] := by
  obtain ⟨⟨noise, enc⟩, hen⟩ := Option.isSome_iff_exists.mp (noiseIkEncrypt_isSome mc
    (dispatch e.env e.node g f c.ctx.sessionId).2.2 hdone)
  rw [serve]
  dsimp only
  rw [hen]
  dsimp only
  rw [hsends, hsends]
  rfl

theorem gate_answers (mc : Monocypher) {e : TurnEnv} (g : Statics) {c : ClientThread}
    (f : ApduFrame) (hdone : c.ctx.noise.handshakeDone = true) (hsends : ∀ k, e.sends k = true) :
    (gate mc e g c f).answers =
      [gateResponse mc c.ctx f (dispatch e.env e.node g f c.ctx.sessionId).2.2] := by
  unfold gate gateResponse
  by_cases hsec : f.sec = apduSecPlain
  · rw [if_neg (not_not.mpr hsec), if_pos hsec]
    exact serve_answers mc g f false hdone hsends
  · rw [if_pos hsec, if_neg hsec]
    split
    · exact sendSw_answers hdone
    · dsimp only
      split
      · exact sendSw_answers hdone
      · exact serve_answers mc g f true hdone hsends

section
variable (env : Env) (node : NodeReading) (g : Statics) (s : UInt16) {f : ApduFrame}

theorem dispatch_notFound (h : inCapsBitmap f.ins = false) :
    (dispatch env node g f s).2.2 = swWrite swNotFound := by
  simp only [dispatch]
  rw [if_pos h]

theorem dispatch_query (hins : f.ins = 0x11) :
    (dispatch env node g f s).2.2 = (handlerTaskQuery env g.pool f s).2 := by
  rw [dispatch_of_ins env node g (show f.ins = Handler.taskQuery.ins from hins)]
  rfl

theorem dispatch_throttle (hins : f.ins = 0x20) :
    (dispatch env node g f s).2.2 = (handlerProcThrottle env f).2 := by
  rw [dispatch_of_ins env node g (show f.ins = Handler.procThrottle.ins from hins)]
  rfl

theorem dispatch_restart (hins : f.ins = 0x22) :
    (dispatch env node g f s).2.2 = (handlerSvcRestart env g.pool f s).2.2 := by
  rw [dispatch_of_ins env node g (show f.ins = Handler.svcRestart.ins from hins)]
  rfl

theorem dispatch_query_short (hins : f.ins = 0x11) (h : f.dataLen < 4) :
    (dispatch env node g f s).2.2 = swWrite swWrongLen := by
  rw [dispatch_query env node g s hins, handlerTaskQuery, if_pos h]

/-- The Sec level is the first thing that the two handlers look at. -/
theorem dispatch_sec (h : SecFault f) :
    (dispatch env node g f s).2.2 = swWrite swAccessDenied := by
  obtain ⟨hins | hins, hsec⟩ := h
  · rw [dispatch_throttle env node g s hins, handlerProcThrottle, if_pos hsec]
  · rw [dispatch_restart env node g s hins, handlerSvcRestart, if_pos hsec]

/-- Only these three look at the length of their data. -/
theorem short_ins (h : f.dataLen < minLc f.ins) : f.ins = 0x11 ∨ f.ins = 0x20 ∨ f.ins = 0x22 := by
  by_contra hnone
  obtain ⟨hquery, hthrottle, hrestart⟩ := not_or.mp hnone |>.imp_right not_or.mp
  rw [minLc, if_neg hquery, if_neg hthrottle, if_neg hrestart] at h
  exact absurd h (Nat.not_lt_zero _)

theorem dispatch_short (hsec : f.sec = apduSecSigned) (h4 : 4 ≤ f.dataLen)
    (h : f.dataLen < minLc f.ins) : (dispatch env node g f s).2.2 = swWrite swWrongLen := by
  have hsigned : ¬ f.sec ≠ apduSecSigned := not_not.mpr hsec
  rcases short_ins h with hins | hins | hins <;> rw [hins] at h
  · exact absurd h (not_lt.mpr h4)
  · have hlen : f.dataLen < procThrottleDataLen := h
    rw [dispatch_throttle env node g s hins, handlerProcThrottle, if_neg hsigned, if_pos hlen]
  · have hlen : f.dataLen < minDataLen := h
    rw [dispatch_restart env node g s hins, handlerSvcRestart, if_neg hsigned, if_pos hlen]

theorem dispatch_param (hsec : f.sec = apduSecSigned) (hlc : ¬ f.dataLen < minLc f.ins)
    (h : ParamFault f) : (dispatch env node g f s).2.2 = swWrite swWrongData := by
  have hsigned : ¬ f.sec ≠ apduSecSigned := not_not.mpr hsec
  rcases h with ⟨hins, hparam⟩ | ⟨hins, hname⟩
  · rw [hins] at hlc
    have hlen : ¬ f.dataLen < procThrottleDataLen := hlc
    rw [dispatch_throttle env node g s hins, handlerProcThrottle, if_neg hsigned, if_neg hlen]
    by_cases hp1 : f.p1 ≠ 0x00 ∧ f.p1 ≠ 0x01
    · rw [if_pos hp1]
    · rw [if_neg hp1]
      dsimp only
      rw [if_pos (hparam.resolve_left hp1)]
  · rw [hins] at hlc
    have hlen : ¬ f.dataLen < minDataLen := hlc
    rw [dispatch_restart env node g s hins, handlerSvcRestart, if_neg hsigned, if_neg hlen]
    dsimp only
    rw [if_pos hname]

end

/-! ### Fault by fault -/

/-- The response has the status word of the fault. -/
def Answers (resp : List UInt8) (x : Fault) : Prop := resp = swWrite x.sw

theorem not_answers {a : UInt16} {x : Fault} (h : a ≠ x.sw) : ¬ Answers (swWrite a) x :=
  fun heq => h (swWrite_inj heq)

section
variable {mc : Monocypher} {ctx : SessionCtx} {f : ApduFrame} (resp : List UInt8)

theorem gateResponse_plain (hsec : f.sec = apduSecPlain) : gateResponse mc ctx f resp = resp :=
  if_pos hsec

/-- A signed frame that `verify_auth_tag` refuses. -/
theorem gateResponse_refused (hsec : f.sec ≠ apduSecPlain)
    (h : ¬ (4 ≤ f.dataLen ∧ f.dataLen ≤ 259 ∧ ¬ TagFault mc ctx f)) :
    gateResponse mc ctx f resp = swWrite swAccessDenied := by
  rw [← verifyAuthTag_iff hsec, Bool.not_eq_true] at h
  rw [gateResponse, if_neg hsec, if_pos h]

/-- One that it accepts. -/
theorem gateResponse_verified (hsec : f.sec ≠ apduSecPlain) (h4 : 4 ≤ f.dataLen)
    (h259 : f.dataLen ≤ 259) (htag : ¬ TagFault mc ctx f) :
    gateResponse mc ctx f resp =
      if ReplayFault ctx f then swWrite swReplayDetected else resp := by
  have hv := (verifyAuthTag_iff hsec).mpr ⟨h4, h259, htag⟩
  have hreplay : frameSeq f ≤ ctx.lastSeenSeq ↔ ReplayFault ctx f :=
    ⟨fun h => ⟨hsec, h⟩, fun h => h.2⟩
  rw [gateResponse, if_neg hsec, if_neg (by rw [hv]; nofun), if_congr hreplay rfl rfl]

end

theorem minLc_le (ins : UInt8) : minLc ins ≤ 8 := by
  simp only [minLc]
  split
  · decide
  split
  · decide
  split <;> decide

theorem LcFault.dataLen_lt {f : ApduFrame} (h : LcFault f) : f.dataLen < 8 := by
  rcases h with ⟨-, h4⟩ | hshort
  · omega
  · exact lt_of_lt_of_le hshort (minLc_le f.ins)

/-- Parameters that get as far as their own check are those of a signed frame. -/
theorem ParamFault.signed {f : ApduFrame} (h : ParamFault f) (hsec : ¬ SecFault f) :
    f.sec = apduSecSigned := by
  by_contra hne
  exact hsec ⟨h.imp And.left And.left, hne⟩

section
variable (mc : Monocypher) (ctx : SessionCtx) (env : Env) (node : NodeReading) (g : Statics)
  (s : UInt16) {f : ApduFrame}

/-- The lengths come last: such a frame is answered by its length when it gets to its handler's
    check. -/
theorem length_answered_iff (hlc : LcFault f) :
    Answers (gateResponse mc ctx f (dispatch env node g f s).2.2) .length ↔
      (f.sec = apduSecPlain ∧ f.ins = 0x11) ∨
        (f.sec = apduSecSigned ∧ 4 ≤ f.dataLen ∧ ¬ TagFault mc ctx f ∧ ¬ ReplayFault ctx f) := by
  by_cases hplain : f.sec = apduSecPlain
  · have hshort : f.dataLen < minLc f.ins := hlc.resolve_left fun h => h.1 hplain
    rw [gateResponse_plain _ hplain]
    by_cases hq : f.ins = 0x11
    · rw [hq] at hshort
      exact iff_of_true (dispatch_query_short env node g s hq hshort) (.inl ⟨hplain, hq⟩)
    · have hsec : SecFault f := ⟨(short_ins hshort).resolve_left hq, by rw [hplain]; decide⟩
      rw [dispatch_sec env node g s hsec]
      refine iff_of_false (not_answers (by decide)) ?_
      rintro (⟨-, h⟩ | ⟨h, -⟩)
      · exact hq h
      · rw [hplain] at h
        exact absurd h (by decide)
  by_cases hv : 4 ≤ f.dataLen ∧ f.dataLen ≤ 259 ∧ ¬ TagFault mc ctx f
  · obtain ⟨h4, h259, htag⟩ := hv
    have hshort : f.dataLen < minLc f.ins := hlc.resolve_left fun h => absurd h.2 (not_lt.mpr h4)
    rw [gateResponse_verified _ hplain h4 h259 htag]
    by_cases hreplay : ReplayFault ctx f
    · rw [if_pos hreplay]
      refine iff_of_false (not_answers (by decide)) ?_
      rintro (⟨h, -⟩ | ⟨-, -, -, h⟩)
      · exact hplain h
      · exact h hreplay
    rw [if_neg hreplay]
    by_cases hsigned : f.sec = apduSecSigned
    · exact iff_of_true (dispatch_short env node g s hsigned h4 hshort)
        (.inr ⟨hsigned, h4, htag, hreplay⟩)
    · -- four bytes are enough for TASK_QUERY, so the instruction is one that wants a signed frame
      have hq : f.ins ≠ 0x11 := by
        intro hq
        rw [hq] at hshort
        exact absurd hshort (not_lt.mpr h4)
      have hsec : SecFault f := ⟨(short_ins hshort).resolve_left hq, hsigned⟩
      rw [dispatch_sec env node g s hsec]
      refine iff_of_false (not_answers (by decide)) ?_
      rintro (⟨h, -⟩ | ⟨h, -⟩)
      · exact hplain h
      · exact hsigned h
  · rw [gateResponse_refused _ hplain hv]
    refine iff_of_false (not_answers (by decide)) ?_
    rintro (⟨h, -⟩ | ⟨-, h4, htag, -⟩)
    · exact hplain h
    · have := hlc.dataLen_lt
      exact hv ⟨h4, by omega, htag⟩

/-- A frame that is long enough is answered by `dispatch` with the first of its faults from the
    bitmap on. -/
theorem dispatch_fault (hlc : ¬ LcFault f) {x : Fault}
    (h : handlerFault f = some x) : Answers (dispatch env node g f s).2.2 x := by
  simp only [handlerFault] at h
  split at h
  · rename_i hbit
    obtain rfl := Option.some.inj h
    exact dispatch_notFound env node g s hbit
  split at h
  · rename_i hsec
    obtain rfl := Option.some.inj h
    exact dispatch_sec env node g s hsec
  split at h
  · rename_i hsec hparam
    obtain rfl := Option.some.inj h
    exact dispatch_param env node g s (hparam.signed hsec) (fun hlen => hlc (.inr hlen)) hparam
  · cases h

theorem answers_denied_iff {x : Fault} :
    Answers (swWrite swAccessDenied) x ↔ x = .tag ∨ x = .permission := by
  constructor
  · intro h
    have hsw : swAccessDenied = x.sw := swWrite_inj h
    cases x with
    | tag => exact .inl rfl
    | permission => exact .inr rfl
    | _ => exact absurd hsw (by decide)
  · rintro (rfl | rfl) <;> rfl

/-- A frame with the right tag that is too long for `verify_auth_tag`. -/
theorem long_answered_iff (hlc : ¬ LcFault f) (htag : ¬ TagFault mc ctx f) :
    (∀ x, frameFault mc ctx f = some x → Answers (swWrite swAccessDenied) x) ↔
      ¬ ReplayFault ctx f ∧ inCapsBitmap f.ins = true ∧ (ParamFault f → SecFault f) := by
  simp only [frameFault, handlerFault]
  rw [if_neg hlc, if_neg htag]
  by_cases hreplay : ReplayFault ctx f
  · rw [if_pos hreplay]
    exact iff_of_false (fun h => absurd (answers_denied_iff.mp (h _ rfl)) (by decide))
      fun h => h.1 hreplay
  rw [if_neg hreplay]
  by_cases hbit : inCapsBitmap f.ins = false
  · rw [if_pos hbit]
    refine iff_of_false (fun h => absurd (answers_denied_iff.mp (h _ rfl)) (by decide)) fun h => ?_
    rw [hbit] at h
    exact absurd h.2.1 (by decide)
  rw [if_neg hbit]
  have hin : inCapsBitmap f.ins = true := (Bool.not_eq_false _).mp hbit
  by_cases hsec : SecFault f
  · rw [if_pos hsec]
    refine iff_of_true (fun x hx => ?_) ⟨hreplay, hin, fun _ => hsec⟩
    exact answers_denied_iff.mpr (.inr (Option.some.inj hx).symm)
  rw [if_neg hsec]
  by_cases hparam : ParamFault f
  · rw [if_pos hparam]
    exact iff_of_false (fun h => absurd (answers_denied_iff.mp (h _ rfl)) (by decide))
      fun h => hsec (h.2.2 hparam)
  · rw [if_neg hparam]
    exact iff_of_true nofun ⟨hreplay, hin, fun h => absurd h hparam⟩

/-- Behind the header, the first fault is answered exactly when no early check hides it. -/
theorem frameFault_shown_iff (f : ApduFrame) :
    (∀ x, frameFault mc ctx f = some x →
      Answers (gateResponse mc ctx f (dispatch env node g f s).2.2) x) ↔ FaultShown mc ctx f := by
  by_cases hlc : LcFault f
  · have hfirst : frameFault mc ctx f = some .length := if_pos hlc
    have hlen := hlc.dataLen_lt
    rw [hfirst]
    constructor
    · intro h
      exact ⟨fun _ => (length_answered_iff mc ctx env node g s hlc).mp (h _ rfl),
        fun _ hlong => absurd hlong (by omega)⟩
    · rintro hshown x hx
      obtain rfl := Option.some.inj hx
      exact (length_answered_iff mc ctx env node g s hlc).mpr (hshown.lc hlc)
  by_cases hplain : f.sec = apduSecPlain
  · -- without a tag there is no tag fault and no replay
    have hlast : frameFault mc ctx f = handlerFault f := by
      simp only [frameFault]
      rw [if_neg hlc, if_neg (fun h => h.1 hplain), if_neg (fun h => h.1 hplain)]
    rw [gateResponse_plain _ hplain, hlast]
    exact iff_of_true (fun x hx => dispatch_fault env node g s hlc hx)
      ⟨fun h => absurd h hlc, fun h => absurd hplain h⟩
  by_cases htag : TagFault mc ctx f
  · have hfirst : frameFault mc ctx f = some .tag := by
      simp only [frameFault]
      rw [if_neg hlc, if_pos htag]
    rw [hfirst, gateResponse_refused _ hplain fun h => h.2.2 htag]
    refine iff_of_true (fun x hx => ?_) ⟨fun h => absurd h hlc, fun _ _ h => absurd htag h⟩
    exact answers_denied_iff.mpr (.inl (Option.some.inj hx).symm)
  have h4 : 4 ≤ f.dataLen := not_lt.mp fun h => hlc (.inl ⟨hplain, h⟩)
  by_cases hlong : 259 < f.dataLen
  · rw [gateResponse_refused _ hplain fun h => absurd h.2.1 (not_le.mpr hlong),
      long_answered_iff mc ctx hlc htag]
    exact ⟨fun h => ⟨fun h => absurd h hlc, fun _ _ _ => h⟩, fun h => h.long hplain hlong htag⟩
  · rw [gateResponse_verified _ hplain h4 (not_lt.mp hlong) htag]
    refine iff_of_true (fun x hx => ?_) ⟨fun h => absurd h hlc, fun _ h => absurd h hlong⟩
    simp only [frameFault] at hx
    rw [if_neg hlc, if_neg htag] at hx
    split at hx
    · rename_i hreplay
      obtain rfl := Option.some.inj hx
      rw [if_pos hreplay]
      rfl
    · rename_i hreplay
      rw [if_neg hreplay]
      exact dispatch_fault env node g s hlc hx

end

/-! ### A packet on a session -/

/-- The first fault has the status word that is sent. -/
def FirstFaultSent (mc : Monocypher) (c : ClientThread) (t : Turn) : Prop :=
  ∀ x, firstFault mc c = some x → t.answers = [swWrite x.sw]

theorem refuse_sent {mc : Monocypher} (g : Statics) {c : ClientThread} (x : Fault)
    (frame : Option ApduFrame) (hdone : c.ctx.noise.handshakeDone = true)
    (hfirst : firstFault mc c = some x) : FirstFaultSent mc c (refuse mc g c x.sw frame) := by
  intro y hy
  obtain rfl := Option.some.inj (hfirst.symm.trans hy)
  exact sendSw_answers hdone

theorem firstFault_malformed (mc : Monocypher) {c : ClientThread}
    (hver : c.parser.buf 0 &&& apduClaVerMask = 0) (h : Malformed c.parser) :
    firstFault mc c = some .length := by
  simp only [firstFault]
  rw [if_neg (not_not.mpr hver), if_pos h]

theorem firstFault_ready (mc : Monocypher) {c : ClientThread} {f : ApduFrame}
    (hparsed : apduParserTryParse c.parser = .frameReady f) :
    firstFault mc c = frameFault mc c.ctx f := by
  have hcase := tryParse_cases c.parser
  rw [hparsed] at hcase
  cases hcase with
  | ready hver hrfu hext hsize =>
    have hwell : ¬ Malformed c.parser := by
      rintro (h | ⟨h, h'⟩)
      · exact h hrfu
      · exact h' (hext h)
    simp only [firstFault]
    rw [if_neg (not_not.mpr hver), if_neg hwell, hparsed]

theorem onPacket_sent_iff (mc : Monocypher) {e : TurnEnv} (g : Statics) {c : ClientThread}
    (hdone : c.ctx.noise.handshakeDone = true) (hsends : ∀ k, e.sends k = true)
    (hcomplete : apduParserTryParse c.parser ≠ .needMore) :
    FirstFaultSent mc c (onPacket mc e g c) ↔
      ∀ f, apduParserTryParse c.parser = .frameReady f → FaultShown mc c.ctx f := by
  have hcase := tryParse_cases c.parser
  unfold onPacket
  cases hparsed : apduParserTryParse c.parser with
  | needMore => exact absurd hparsed hcomplete
  | errVersion =>
    rw [hparsed] at hcase
    cases hcase with
    | version hpos hver => exact iff_of_true (refuse_sent g .version none hdone (if_pos hver)) nofun
  | errRfu =>
    rw [hparsed] at hcase
    cases hcase with
    | rfu hpos hver hrfu =>
      have hfirst := firstFault_malformed mc hver (.inl hrfu)
      exact iff_of_true (refuse_sent g .length none hdone hfirst) nofun
  | errExtLc =>
    rw [hparsed] at hcase
    cases hcase with
    | extLc hhdr hver hrfu hext hzero =>
      have hfirst := firstFault_malformed mc hver (.inr ⟨hext, hzero⟩)
      exact iff_of_true (refuse_sent g .length none hdone hfirst) nofun
  | errLength =>
    rw [hparsed] at hcase
    cases hcase
  | frameReady f =>
    have hfirst := firstFault_ready mc hparsed
    have hshown := frameFault_shown_iff mc c.ctx e.env e.node g c.ctx.sessionId f
    unfold FirstFaultSent
    dsimp only
    rw [hfirst, gate_answers mc g f hdone hsends]
    constructor
    · rintro h f' hf'
      obtain rfl := ParseResult.frameReady.inj hf'
      exact hshown.mp fun x hx => List.singleton_inj.mp (h x hx)
    · intro h x hx
      exact congrArg (fun r => [r]) (hshown.mpr (h f rfl) x hx)

/-- CORRECT (exact): on every session, a packet that ends the wait for a frame is answered with the
    first fault in it, unless a check that comes too early hides that fault. -/
theorem first_fault_sent_iff (mc : Monocypher) (keys : ServerKeys) (inp : List UInt8)
    (turns : List (TurnEnv × Statics)) {e : TurnEnv} (g : Statics) {c : ClientThread}
    (hserving : (handleClient mc keys inp turns).thread.phase = .serving)
    (hpacket : recvPacket mc (handleClient mc keys inp turns).thread = some c)
    (hcomplete : apduParserTryParse c.parser ≠ .needMore) (hsends : ∀ k, e.sends k = true) :
    FirstFaultSent mc c (clientLoop mc e g (handleClient mc keys inp turns).thread) ↔
      ∀ f, apduParserTryParse c.parser = .frameReady f → FaultShown mc c.ctx f := by
  obtain ⟨-, hkeys, -⟩ := recvPacket_some hpacket
  have hdone : c.ctx.noise.handshakeDone = true := by
    rw [hkeys.done]
    exact handleClient_done hserving
  simp only [clientLoop]
  rw [hpacket]
  exact onPacket_sent_iff mc g hdone hsends hcomplete

/-! ### An unsigned PROC_THROTTLE without data -/

/-- The frame 00 20 00 00 00 00 under the agent's key and its first nonce. -/
def throttleCipher : List UInt8 :=
  [0xC5, 0x85, 0xF5, 0xA9, 0xD6, 0xB7, 0x2D, 0x2D, 0x26, 0x48, 0xB9, 0xE8, 0xDC, 0x0D, 0x12, 0x74,
    0xD1, 0x89, 0xE3, 0xCD, 0xBA, 0xBC]

def throttleBytes : List UInt8 :=
  agentBytes.take 100 ++ packetHeader throttleCipher.length ++ throttleCipher

def throttleTurns : List (TurnEnv × Statics) := [(agentEnv, idleStatics)]

/-- The connection once it is in its loop. -/
def throttleRun : ClientRun := handleClient monocypher serverKeys throttleBytes throttleTurns

/-- Sec, INS and Lc of the frame at the front. -/
def frameShape (p : ApduParser) : Option (UInt8 × UInt8 × ℕ) :=
  match apduParserTryParse p with
  | .frameReady f => some (f.sec, f.ins, f.dataLen)
  | _ => none

theorem frameShape_some {p : ApduParser} {sec ins : UInt8} {lc : ℕ}
    (h : frameShape p = some (sec, ins, lc)) :
    ∃ f, apduParserTryParse p = .frameReady f ∧ f.sec = sec ∧ f.ins = ins ∧ f.dataLen = lc := by
  simp only [frameShape] at h
  split at h
  · rename_i f hparsed
    simp only [Option.some.injEq, Prod.mk.injEq] at h
    exact ⟨f, hparsed, h⟩
  · cases h

theorem throttleRun_denied :
    throttleRun.thread.phase = .serving ∧
    (recvPacket monocypher throttleRun.thread).bind (fun c => frameShape c.parser) =
      some (apduSecPlain, 0x20, 0) ∧
    (clientLoop monocypher agentEnv idleStatics throttleRun.thread).answers =
      [swWrite swAccessDenied] := by
  decide +kernel

/-- The frame of the packet; both its length and its Sec level are at fault. -/
theorem throttleRun_frame : ∃ c f, recvPacket monocypher throttleRun.thread = some c ∧
    apduParserTryParse c.parser = .frameReady f ∧ f.sec = apduSecPlain ∧ f.ins = 0x20 ∧
    f.dataLen = 0 := by
  obtain ⟨c, hpacket, hshape⟩ := Option.bind_eq_some_iff.mp throttleRun_denied.2.1
  obtain ⟨f, hparsed, hframe⟩ := frameShape_some hshape
  exact ⟨c, f, hpacket, hparsed, hframe⟩

/-- The length is the first fault, and the answer is 0x6982. -/
theorem short_throttle_denied : ∃ c f, recvPacket monocypher throttleRun.thread = some c ∧
    apduParserTryParse c.parser = .frameReady f ∧ f.sec = apduSecPlain ∧ f.ins = 0x20 ∧
    f.dataLen = 0 ∧ firstFault monocypher c = some .length ∧
    (clientLoop monocypher agentEnv idleStatics throttleRun.thread).answers = [[0x69, 0x82]] ∧
    ¬ FirstFaultSent monocypher c (clientLoop monocypher agentEnv idleStatics throttleRun.thread) := by
  obtain ⟨c, f, hpacket, hparsed, hsec, hins, hlen⟩ := throttleRun_frame
  have hanswers := throttleRun_denied.2.2
  have hlc : LcFault f := .inr (by rw [hins, hlen]; decide)
  have hfirst : firstFault monocypher c = some .length :=
    (firstFault_ready monocypher hparsed).trans (if_pos hlc)
  refine ⟨c, f, hpacket, hparsed, hsec, hins, hlen, hfirst, hanswers, fun h => ?_⟩
  have hsent := h .length hfirst
  rw [hanswers] at hsent
  exact absurd hsent (by decide)

/-- On that connection. -/
theorem first_fault_sent_throttle : ∃ c f, recvPacket monocypher throttleRun.thread = some c ∧
    apduParserTryParse c.parser = .frameReady f ∧ ¬ FaultShown monocypher c.ctx f ∧
    ¬ FirstFaultSent monocypher c (clientLoop monocypher agentEnv idleStatics throttleRun.thread) := by
  obtain ⟨c, f, hpacket, hparsed, hsec, hins, hlen⟩ := throttleRun_frame
  have hhidden : ¬ FaultShown monocypher c.ctx f := by
    intro h
    rcases h.lc (.inr (by rw [hins, hlen]; decide)) with ⟨-, hquery⟩ | ⟨hsigned, -⟩
    · rw [hins] at hquery
      exact absurd hquery (by decide)
    · rw [hsec] at hsigned
      exact absurd hsigned (by decide)
  have hcomplete : apduParserTryParse c.parser ≠ .needMore := by
    rw [hparsed]
    nofun
  refine ⟨c, f, hpacket, hparsed, hhidden, fun h => hhidden ?_⟩
  exact (first_fault_sent_iff monocypher serverKeys throttleBytes throttleTurns idleStatics
    throttleRun_denied.1 hpacket hcomplete fun _ => rfl).mp h f hparsed

end Asys
