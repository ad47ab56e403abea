import Asys.Daemon.HandleClient
import Asys.Handlers.Checked

/-! # A frame and the memory around it

    `data_len` is anything up to 65535 and `data` is NULL when it is 0, while the buffers that a frame
    is copied to have fixed sizes. `verify_auth_tag` and the Seq gate are given here with their
    accesses checked, as the handlers are; every frame passes through them and through `dispatch`
    without an access outside. -/

namespace Asys
open Words Memory

/-- `msg` of `verify_auth_tag`: header, epoch, Seq and the longest payload. -/
abbrev MacBuf := Buf UInt8 (5 + 4 + 4 + 255)

/-- `epoch_id`. -/
abbrev EpochId := Buf UInt8 4

/-- `msg`, filled with header, epoch, Seq and payload and read back. -/
def macInputChecked (frame : ApduFrame) (epochId : EpochId) (msg : MacBuf) : Option (List UInt8) := do
  let payloadLen := frame.dataLen - 4
  let msg ← msg.write 0 [frame.cla, frame.ins, frame.p1, frame.p2, frame.dataLen.toUInt8]
  let epoch ← Ptr.copy (some epochId.cells) 0 4
  let msg ← msg.write 5 epoch
  let seq ← frame.dataPtr.copy 0 4
  let msg ← msg.write 9 seq
  let payload ← frame.dataPtr.copy 4 payloadLen
  let msg ← msg.write 13 payload
  Ptr.copy (some msg.cells) 0 (13 + payloadLen)

def verifyAuthTagChecked (mc : Monocypher) (noise : NoiseIKState) (frame : ApduFrame)
    (epochId : EpochId) (msg : MacBuf) : Option Bool :=
  if frame.dataLen < 4 ∨ frame.authTag = none then some false
  else if 255 < frame.dataLen - 4 then some false
  else do
    let input ← macInputChecked frame epochId msg
    let tag ← Ptr.copy frame.authTag 0 apduAuthTagSize
    return decide ((hmacBlake2b mc noise.recvKey input).take apduAuthTagSize = tag)

/-- The tag and the Seq gate of the loop: the status word to refuse the frame with, or the
    `last_seen_seq` to go on with. -/
def gateChecked (mc : Monocypher) (noise : NoiseIKState) (epochId : EpochId) (lastSeenSeq : UInt32)
    (frame : ApduFrame) (msg : MacBuf) : Option (Except UInt16 UInt32) :=
  if frame.sec ≠ apduSecPlain then do
    let ok ← verifyAuthTagChecked mc noise frame epochId msg
    if ok = false then return .error swAccessDenied
    else
      let seq ← readU32 frame.dataPtr 0
      if seq ≤ lastSeenSeq then return .error swReplayDetected
      else return .ok seq
  else some (.ok lastSeenSeq)

/-- The same without the checks. -/
def gateVerdict (mc : Monocypher) (noise : NoiseIKState) (epochId : List UInt8) (lastSeenSeq : UInt32)
    (frame : ApduFrame) : Except UInt16 UInt32 :=
  if frame.sec ≠ apduSecPlain then
    if verifyAuthTag mc noise frame epochId = false then .error swAccessDenied
    else if frameSeq frame ≤ lastSeenSeq then .error swReplayDetected
    else .ok (frameSeq frame)
  else .ok lastSeenSeq

theorem gate_verdict (mc : Monocypher) (e : TurnEnv) (g : Statics) (c : ClientThread)
    (frame : ApduFrame) : gate mc e g c frame =
      match gateVerdict mc c.ctx.noise c.ctx.epochId c.ctx.lastSeenSeq frame with
      | .error sw => refuse mc g c sw (some frame)
      | .ok seq => serve mc e g { c with ctx := { c.ctx with lastSeenSeq := seq } } frame
        (decide (frame.sec ≠ apduSecPlain)) := by
  unfold gate gateVerdict
  by_cases hsec : frame.sec ≠ apduSecPlain
  · rw [if_pos hsec, if_pos hsec, decide_eq_true hsec]
    dsimp only
    by_cases hok : verifyAuthTag mc c.ctx.noise frame c.ctx.epochId = false
    · rw [if_pos hok, if_pos hok]
    rw [if_neg hok, if_neg hok]
    by_cases hreplay : frameSeq frame ≤ c.ctx.lastSeenSeq
    · rw [if_pos hreplay, if_pos hreplay]
    · rw [if_neg hreplay, if_neg hreplay]
  · rw [if_neg hsec, if_neg hsec, decide_eq_false hsec]

/-! ### The tag -/

theorem macInputChecked_eq {frame : ApduFrame} (epochId : EpochId) (msg : MacBuf)
    (h4 : 4 ≤ frame.dataLen) (h255 : frame.dataLen - 4 ≤ 255) :
    macInputChecked frame epochId msg = some (authMessage frame epochId.cells) := by
  have hepoch := Ptr.copy_all epochId.length_eq
  have hseq : frame.dataPtr.copy 0 4 = some (frame.data.take 4) := by
    rw [dataPtr_of_pos (by omega)]
    exact Ptr.copy_some (by rw [Nat.zero_add]; exact h4)
  have hpayload : frame.dataPtr.copy 4 (frame.dataLen - 4) = some (frame.data.drop 4) := by
    rw [dataPtr_of_pos (by omega)]
    exact Ptr.copy_rest h4
  have hseqlen : (frame.data.take 4).length = 4 := List.length_take_of_le h4
  have hpaylen : (frame.data.drop 4).length = frame.dataLen - 4 := List.length_drop
  -- five, four, four and at most 255 bytes
  obtain ⟨b₁, hb₁, h₁⟩ := (msg.begins_nil 0).write 0
    [frame.cla, frame.ins, frame.p1, frame.p2, frame.dataLen.toUInt8] rfl (by decide : 5 ≤ 268)
  obtain ⟨b₂, hb₂, h₂⟩ := h₁.write 5 epochId.cells rfl (by rw [epochId.length_eq]; decide)
  obtain ⟨b₃, hb₃, h₃⟩ := h₂.write 9 (frame.data.take 4)
    (by rw [List.length_append, epochId.length_eq]; rfl) (by rw [hseqlen]; decide)
  obtain ⟨b₄, hb₄, h₄⟩ := h₃.write 13 (frame.data.drop 4)
    (by rw [List.length_append, List.length_append, epochId.length_eq, hseqlen]; rfl)
    (by rw [hpaylen]; omega)
  have hmsg : Ptr.copy (some b₄.cells) 0 (13 + (frame.dataLen - 4)) =
      some (authMessage frame epochId.cells) := by
    have hlen : (authMessage frame epochId.cells).length = 13 + (frame.dataLen - 4) := by
      simp only [authMessage, List.length_append, epochId.length_eq, hseqlen, hpaylen]
      rfl
    rw [Ptr.copy_some (by rw [b₄.length_eq]; omega), List.drop_zero, ← hlen]
    exact congrArg some h₄.take_eq
  simp only [macInputChecked]
  simp only [Option.bind_eq_bind, hb₁, hepoch, hb₂, hseq, hb₃, hpayload, hb₄, Option.bind_some]
  exact hmsg

theorem verifyAuthTagChecked_eq (mc : Monocypher) (noise : NoiseIKState) (frame : ApduFrame)
    (epochId : EpochId) (msg : MacBuf) : verifyAuthTagChecked mc noise frame epochId msg =
      some (verifyAuthTag mc noise frame epochId.cells) := by
  simp only [verifyAuthTagChecked, verifyAuthTag]
  by_cases hshort : frame.dataLen < 4
  · rw [if_pos (.inl hshort), if_pos hshort]
  rw [if_neg hshort]
  cases htag : frame.authTag with
  | none => rw [if_pos (.inr rfl)]
  | some tag =>
    have hsome : ¬ (frame.dataLen < 4 ∨ some tag = none) := by
      rintro (h | h)
      · exact hshort h
      · cases h
    have hcopy := Ptr.copy_all (frame.tag_len tag htag)
    rw [if_neg hsome]
    dsimp only
    by_cases hlong : 255 < frame.dataLen - 4
    · rw [if_pos hlong, if_pos hlong]
    · rw [if_neg hlong, if_neg hlong,
        macInputChecked_eq epochId msg (not_lt.mp hshort) (not_lt.mp hlong), hcopy]
      rfl

/-- Seq is read once the tag has been found good, and then there are four bytes. -/
theorem gateChecked_eq (mc : Monocypher) (noise : NoiseIKState) (epochId : EpochId)
    (lastSeenSeq : UInt32) (frame : ApduFrame) (msg : MacBuf) :
    gateChecked mc noise epochId lastSeenSeq frame msg =
      some (gateVerdict mc noise epochId.cells lastSeenSeq frame) := by
  simp only [gateChecked, gateVerdict]
  by_cases hsec : frame.sec ≠ apduSecPlain
  · rw [if_pos hsec, if_pos hsec, verifyAuthTagChecked_eq]
    simp only [Option.bind_eq_bind, Option.bind_some]
    by_cases hok : verifyAuthTag mc noise frame epochId.cells = false
    · rw [if_pos hok, if_pos hok]
      rfl
    have hlen := (verifyAuthTag_dataLen ((Bool.not_eq_false _).mp hok)).1
    have hseq : readU32 frame.dataPtr 0 = some (frameSeq frame) := readU32_data hlen
    rw [if_neg hok, if_neg hok, hseq, Option.bind_some]
    by_cases hreplay : frameSeq frame ≤ lastSeenSeq
    · rw [if_pos hreplay, if_pos hreplay]
      rfl
    · rw [if_neg hreplay, if_neg hreplay]
      rfl
  · rw [if_neg hsec, if_neg hsec]

/-! ### The status word at the end -/

/-- The status words of the handlers. -/
def handlerSws : List UInt16 :=
  [swOk, swNotFound, swAccessDenied, swWrongData, swWrongLen, swBlocked, swSysErr, swSysErrNomem]

/-- The last two bytes are a status word. -/
def EndsInSw (resp : List UInt8) : Prop := ∃ body, ∃ sw ∈ handlerSws, resp = body ++ swWrite sw

theorem endsInSw_only {sw : UInt16} (h : sw ∈ handlerSws) : EndsInSw (swWrite sw) :=
  ⟨[], sw, h, rfl⟩

theorem endsInSw_ok (body : List UInt8) : EndsInSw (body ++ swWrite swOk) :=
  ⟨body, swOk, by decide, rfl⟩

theorem killFailed_mem (errno : Errno) : killFailed errno ∈ handlerSws := by
  cases errno <;> decide

theorem forkFailed_mem (errno : Errno) : forkFailed errno ∈ handlerSws := by
  cases errno <;> decide

theorem handlerTaskQuery_endsInSw (env : Env) (g : TaskPool) (req : ApduFrame) (s : UInt16) :
    EndsInSw (handlerTaskQuery env g req s).2 := by
  have hc := handlerTaskQuery_cases env g req s
  generalize handlerTaskQuery env g req s = out at hc ⊢
  cases hc with
  | short _ => exact endsInSw_only (by decide)
  | notFound _ _ => exact endsInSw_ok [_]
  | pending _ _ _ _ => exact endsInSw_ok [_]
  | terminal _ _ _ _ => exact endsInSw_ok [_]

theorem handlerProcThrottle_endsInSw (env : Env) (req : ApduFrame) :
    EndsInSw (handlerProcThrottle env req).2 := by
  rw [handlerProcThrottle]
  split
  · exact endsInSw_only (by decide)
  split
  · exact endsInSw_only (by decide)
  split
  · exact endsInSw_only (by decide)
  dsimp only
  split
  · exact endsInSw_only (by decide)
  cases env.kill with
  | some errno => exact endsInSw_only (killFailed_mem errno)
  | none => exact endsInSw_only (by decide)

theorem handlerSvcRestart_endsInSw (env : Env) (g : TaskPool) (req : ApduFrame) (s : UInt16) :
    EndsInSw (handlerSvcRestart env g req s).2.2 := by
  by_cases hform : RestartForm req
  · rw [handlerSvcRestart_of_form hform]
    split
    · exact endsInSw_ok _
    split
    · exact endsInSw_only (by decide)
    cases env.fork with
    | error errno => exact endsInSw_only (forkFailed_mem errno)
    | child pid =>
      dsimp only
      split
      · exact endsInSw_only (by decide)
      · exact endsInSw_ok _
  · rw [handlerSvcRestart]
    split
    · exact endsInSw_only (by decide)
    rename_i hsec
    split
    · exact endsInSw_only (by decide)
    rename_i hlen
    dsimp only
    split
    · exact endsInSw_only (by decide)
    rename_i hvalid
    exact absurd ⟨not_not.mp hsec, not_lt.mp hlen, (Bool.not_eq_false _).mp hvalid⟩ hform

theorem dispatch_endsInSw (env : Env) (node : NodeReading) (g : Statics) (req : ApduFrame)
    (s : UInt16) : EndsInSw (dispatch env node g req s).2.2 := by
  rcases dispatch_cases env node g req s with ⟨-, hd⟩ | ⟨h, -, hd⟩
  · rw [hd]
    exact endsInSw_only (by decide)
  rw [hd]
  cases h with
  | sysCaps => exact endsInSw_ok _
  | sysHello => exact endsInSw_ok _
  | sysStatus => exact endsInSw_ok _
  | sysProcs =>
    rcases handlerSysProcs_resp g.procs node.procs with hr | ⟨totalProcs, t, totalDelta, ncpus, hr⟩
    · exact hr ▸ endsInSw_only (by decide)
    · exact hr ▸ endsInSw_ok _
  | taskQuery => exact handlerTaskQuery_endsInSw env g.pool req s
  | procThrottle => exact handlerProcThrottle_endsInSw env req
  | svcRestart => exact handlerSvcRestart_endsInSw env g.pool req s

/-! ### Every access of a frame -/

/-- What `dispatch` leaves in `resp`, with the length `n` that it returns. -/
structure Responded (d : Dispatched) (resp : Resp) (n : ℕ) : Prop where
  bytes : resp.cells.take n = d.2.2
  atLeast : 2 ≤ n
  atMost : n ≤ dispRespMax
  sw : ∃ sw ∈ handlerSws, (resp.cells.take n).drop (n - 2) = swWrite sw

/-- No access of a frame is outside, whatever the buffers hold before. -/
structure InBounds (mc : Monocypher) (noise : NoiseIKState) (epochId : EpochId) (f : ApduFrame) :
    Prop where
  tag : ∀ msg, verifyAuthTagChecked mc noise f epochId msg =
    some (verifyAuthTag mc noise f epochId.cells)
  seq : ∀ lastSeenSeq msg, gateChecked mc noise epochId lastSeenSeq f msg =
    some (gateVerdict mc noise epochId.cells lastSeenSeq f)
  dispatch : ∀ env node g s nameBuf resp, ∃ resp' n,
    dispatchChecked env node g f nameBuf resp dispRespMax s =
      some (((dispatch env node g f s).1, (dispatch env node g f s).2.1), resp', n) ∧
    Responded (dispatch env node g f s) resp' n

theorem responded_of_written {d : Dispatched} {resp : Resp} {n : ℕ} (h : Written (resp, n) d.2.2)
    (hsw : EndsInSw d.2.2) : Responded d resp n := by
  have hlen : n = d.2.2.length := h.length
  have hbytes : resp.cells.take n = d.2.2 := by
    rw [hlen]
    exact (List.prefix_iff_eq_take.mp h.front).symm
  obtain ⟨body, sw, hmem, hbody⟩ := hsw
  have hn : n = body.length + 2 := by
    rw [hlen, hbody, List.length_append]
    rfl
  refine ⟨hbytes, by omega, ?_, sw, hmem, ?_⟩
  · rw [hlen, ← resp.length_eq]
    exact h.front.length_le
  · rw [hbytes, hbody, hn, Nat.add_sub_cancel, List.drop_left' rfl]

/-- CORRECT: `verify_auth_tag`, the Seq gate and `dispatch` with every handler keep to `data_len`,
    to the tag and to their buffers, for every frame, session, pool and node. -/
theorem frame_in_bounds (mc : Monocypher) (noise : NoiseIKState) (epochId : EpochId) (f : ApduFrame) :
    InBounds mc noise epochId f where
  tag := verifyAuthTagChecked_eq mc noise f epochId
  seq lastSeenSeq := gateChecked_eq mc noise epochId lastSeenSeq f
  dispatch env node g s nameBuf resp := by
    obtain ⟨⟨resp', n⟩, hout, hwritten⟩ := dispatchChecked_ends env node g f nameBuf resp s
    exact ⟨resp', n, hout, responded_of_written hwritten (dispatch_endsInSw env node g f s)⟩

end Asys
