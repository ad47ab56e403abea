import Asys.Core.ApduParser
import Asys.Core.NoiseIk

/-! # auth_verify.c and whitelist.c: the tag of a signed frame, and who may connect

    The comparisons `crypto_verify16` and `crypto_verify32` are equality of the bytes compared. -/

namespace Asys

/-- The header, with Lc cut to one byte, the epoch, the Seq and the payload. -/
def authMessage (frame : ApduFrame) (epochId : List UInt8) : List UInt8 :=
  [frame.cla, frame.ins, frame.p1, frame.p2, frame.dataLen.toUInt8] ++ epochId ++
    frame.data.take 4 ++ frame.data.drop 4

def verifyAuthTag (mc : Monocypher) (noise : NoiseIKState) (frame : ApduFrame)
    (epochId : List UInt8) : Bool :=
  if frame.dataLen < 4 then false
  else
    match frame.authTag with
    | none => false
    | some authTag =>
      if 255 < frame.dataLen - 4 then false
      else (hmacBlake2b mc noise.recvKey (authMessage frame epochId)).take apduAuthTagSize = authTag

theorem verifyAuthTag_dataLen {mc : Monocypher} {noise : NoiseIKState} {frame : ApduFrame}
    {epochId : List UInt8} (h : verifyAuthTag mc noise frame epochId = true) :
    4 ≤ frame.dataLen ∧ frame.dataLen ≤ 259 := by
  simp only [verifyAuthTag] at h
  split at h
  · cases h
  split at h
  · cases h
  split at h
  · cases h
  · omega

/-- The tag is checked under the receive key and nothing else of the state. -/
theorem verifyAuthTag_congr (mc : Monocypher) {noise noise' : NoiseIKState} (frame : ApduFrame)
    (epochId : List UInt8) (h : noise'.recvKey = noise.recvKey) :
    verifyAuthTag mc noise' frame epochId = verifyAuthTag mc noise frame epochId := by
  simp only [verifyAuthTag]
  rw [h]

def whitelistMaxAgents : ℕ := 64

structure AgentEntry where
  pub : List UInt8
  label : List UInt8
  deriving DecidableEq, Repr

/-- The entries in use. -/
structure Whitelist where
  entries : List AgentEntry
  count_le : entries.length ≤ whitelistMaxAgents

/-- `WL_OK` as `true`. -/
def whitelistCheck (wl : Whitelist) (pub : List UInt8) : Bool :=
  wl.entries.any fun e => e.pub = pub

theorem whitelistCheck_iff {wl : Whitelist} {pub : List UInt8} :
    whitelistCheck wl pub = true ↔ ∃ e ∈ wl.entries, e.pub = pub := by
  simp [whitelistCheck]

end Asys
