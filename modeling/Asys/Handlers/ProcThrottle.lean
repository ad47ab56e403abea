import Asys.Core.StatusWord

/-! # proc_throttle.c: 0x20 PROC_THROTTLE

    The request names a process by four big-endian bytes; the handler sends it SIGSTOP or SIGCONT.
    The four bytes become a `uint32_t` and then, in the call of `kill`, a signed `pid_t`. What
    `kill(2)` does with that `pid_t` is stated over a table of processes with their groups. -/

namespace Asys
open Words

def procThrottleDataLen : ℕ := 8
def offPid : ℕ := 4

/-- The 4-byte field at `data[4..7]`. -/
def pidField (req : ApduFrame) : UInt32 := be32At req.data offPid

/-- The status word for a failed `kill`. -/
def killFailed : Errno → UInt16
  | .esrch => swWrongData
  | .einval => swWrongData
  | .eperm => swAccessDenied
  | _ => swSysErr

def handlerProcThrottle (env : Env) (req : ApduFrame) : List Effect × List UInt8 :=
  if req.sec ≠ apduSecSigned then ([], swWrite swAccessDenied)
  else if req.dataLen < procThrottleDataLen then ([], swWrite swWrongLen)
  else if req.p1 ≠ 0x00 ∧ req.p1 ≠ 0x01 then ([], swWrite swWrongData)
  else
    let pid := pidField req
    if pid = 0 then ([], swWrite swWrongData)
    else
      let sig := if req.p1 = 0x01 then Signal.sigcont else Signal.sigstop
      match env.kill with
      | some errno => ([.kill (toSigned pid) sig], swWrite (killFailed errno))
      | none => ([.kill (toSigned pid) sig], swWrite swOk)

/-! ### kill(2) -/

/-- A process of the node: its pid and its process group, both positive. -/
structure Process where
  pid : ℤ
  pgid : ℤ
  pid_pos : 0 < pid
  deriving DecidableEq

/-- The processes `kill(pid, sig)` signals when called by a process of group `pgid`. -/
def killTargets (procs : List Process) (pgid pid : ℤ) : List Process :=
  if 0 < pid then procs.filter fun q => q.pid = pid
  else if pid = 0 then procs.filter fun q => q.pgid = pgid
  else if pid = -1 then procs
  else procs.filter fun q => q.pgid = -pid

/-- The processes signalled by a list of effects. -/
def signalled (procs : List Process) (pgid : ℤ) (effects : List Effect) : List Process :=
  effects.flatMap fun e =>
    match e with
    | .kill pid _ => killTargets procs pgid pid
    | .fork _ _ => []

/-- The checks the handler makes before it looks at the field. -/
def ThrottleForm (req : ApduFrame) : Prop :=
  req.sec = apduSecSigned ∧ procThrottleDataLen ≤ req.dataLen ∧ (req.p1 = 0x00 ∨ req.p1 = 0x01)

/-- The field is a positive 32-bit `pid_t`. -/
def PositivePid (req : ApduFrame) : Prop := 0 < (pidField req).toNat ∧ (pidField req).toNat < 2 ^ 31

instance (req : ApduFrame) : Decidable (ThrottleForm req) := by
  unfold ThrottleForm; infer_instance

instance (req : ApduFrame) : Decidable (PositivePid req) := by
  unfold PositivePid; infer_instance

/-- At most one process is signalled, the one the field names; a field that is no positive pid
    signals nothing, and in an otherwise valid frame it is answered 0x6A80. -/
structure OneTarget (req : ApduFrame) (out : List Effect × List UInt8) : Prop where
  single : out.1.length ≤ 1
  target : ∀ procs pgid, ∀ q ∈ signalled procs pgid out.1, q.pid = (pidField req).toNat
  silent : ¬ PositivePid req → ∀ pid sig, Effect.kill pid sig ∉ out.1
  answer : ThrottleForm req → ¬ PositivePid req → out.2 = swWrite swWrongData

/-! ### What a call can do -/

/-- Every way through the handler. -/
theorem handlerProcThrottle_cases (env : Env) (req : ApduFrame) :
    (¬ ThrottleForm req ∧ ∃ sw, handlerProcThrottle env req = ([], swWrite sw)) ∨
    (ThrottleForm req ∧ pidField req = 0 ∧
      handlerProcThrottle env req = ([], swWrite swWrongData)) ∨
    (ThrottleForm req ∧ pidField req ≠ 0 ∧ ∃ sig sw,
      handlerProcThrottle env req = ([.kill (toSigned (pidField req)) sig], swWrite sw)) := by
  simp only [handlerProcThrottle]
  by_cases hsec : req.sec = apduSecSigned
  · by_cases hlen : procThrottleDataLen ≤ req.dataLen
    · by_cases hp1 : req.p1 = 0x00 ∨ req.p1 = 0x01
      · have hform : ThrottleForm req := ⟨hsec, hlen, hp1⟩
        rw [if_neg (not_not.mpr hsec), if_neg (not_lt.mpr hlen), if_neg (by tauto)]
        by_cases hpid : pidField req = 0
        · exact Or.inr (Or.inl ⟨hform, hpid, by simp [hpid]⟩)
        · refine Or.inr (Or.inr ⟨hform, hpid, if req.p1 = 0x01 then .sigcont else .sigstop, ?_⟩)
          cases env.kill with
          | some errno => exact ⟨killFailed errno, by simp [hpid]⟩
          | none => exact ⟨swOk, by simp [hpid]⟩
      · refine Or.inl ⟨fun h => hp1 h.2.2, swWrongData, ?_⟩
        rw [if_neg (not_not.mpr hsec), if_neg (not_lt.mpr hlen), if_pos (by tauto)]
    · refine Or.inl ⟨fun h => hlen h.2.1, swWrongLen, ?_⟩
      rw [if_neg (not_not.mpr hsec), if_pos (not_le.mp hlen)]
  · exact Or.inl ⟨fun h => hsec h.1, swAccessDenied, by rw [if_pos hsec]⟩

/-- The handler only acts on signed frames. -/
theorem handlerProcThrottle_signed {env : Env} {req : ApduFrame} {e : Effect}
    (h : e ∈ (handlerProcThrottle env req).1) : req.sec = apduSecSigned := by
  rcases handlerProcThrottle_cases env req with ⟨-, sw, hr⟩ | ⟨hform, -, -⟩ | ⟨hform, -⟩
  · simp [hr] at h
  · exact hform.1
  · exact hform.1

theorem handlerProcThrottle_effects_le (env : Env) (req : ApduFrame) :
    (handlerProcThrottle env req).1.length ≤ 1 := by
  rcases handlerProcThrottle_cases env req with ⟨-, sw, hr⟩ | ⟨-, -, hr⟩ | ⟨-, -, sig, sw, hr⟩ <;>
    simp [hr]

/-- A `kill` with a positive argument signals only the process of that pid. -/
theorem killTargets_pos {procs : List Process} {pgid pid : ℤ} (hpid : 0 < pid) {q : Process}
    (h : q ∈ killTargets procs pgid pid) : q.pid = pid := by
  rw [killTargets, if_pos hpid] at h
  simpa using (List.mem_filter.mp h).2

/-! ### Which frames keep to one process -/

/-- CORRECT (exact): a call keeps to the process its frame names unless the frame passes every check
    and its field has the sign bit of a `pid_t` set. -/
theorem throttle_oneTarget_iff (env : Env) (req : ApduFrame) :
    OneTarget req (handlerProcThrottle env req) ↔
      ¬ (ThrottleForm req ∧ 2 ^ 31 ≤ (pidField req).toNat) := by
  constructor
  · rintro h ⟨hform, hge⟩
    have hneg : ¬ PositivePid req := fun hpos => absurd hpos.2 (not_lt.mpr hge)
    rcases handlerProcThrottle_cases env req with ⟨hno, -⟩ | ⟨-, hz, -⟩ | ⟨-, -, sig, sw, hr⟩
    · exact hno hform
    · rw [hz] at hge; exact absurd hge (by decide)
    · exact h.silent hneg (toSigned (pidField req)) sig (by simp [hr])
  · intro hcond
    rcases handlerProcThrottle_cases env req with ⟨hno, sw, hr⟩ | ⟨hform, hz, hr⟩ |
      ⟨hform, hne, sig, sw, hr⟩ <;> rw [hr]
    · exact ⟨by simp, by simp [signalled], by simp, fun hform => absurd hform hno⟩
    · exact ⟨by simp, by simp [signalled], by simp, fun _ _ => rfl⟩
    · have hlt : (pidField req).toNat < 2 ^ 31 := by
        by_contra hge
        exact hcond ⟨hform, not_lt.mp hge⟩
      have hpos : 0 < (pidField req).toNat := by
        rcases Nat.eq_zero_or_pos (pidField req).toNat with h0 | h0
        · exact absurd (UInt32.toNat_inj.mp h0) hne
        · exact h0
      refine ⟨by simp, ?_, fun hno => absurd ⟨hpos, hlt⟩ hno, fun _ hno => absurd ⟨hpos, hlt⟩ hno⟩
      intro procs pgid q hq
      have hsigned := toSigned_of_lt hlt
      simp only [signalled, List.flatMap_cons, List.flatMap_nil, List.append_nil, hsigned] at hq
      exact killTargets_pos (by exact_mod_cast hpos) hq

/-- A signed STOP for pid 0xFFFFFFFF. -/
def throttleEveryone : ApduFrame :=
  stdFrame 0x04 0x20 0x00 [0x00, 0x00, 0x00, 0x01, 0xFF, 0xFF, 0xFF, 0xFF] (by decide)
    (some (List.replicate 16 0)) (by decide)

/-- 0xFFFFFFFF reaches `kill` as -1, which signals every process there is. -/
theorem throttle_signals_everyone :
    (∀ env, ¬ OneTarget throttleEveryone (handlerProcThrottle env throttleEveryone)) ∧
    ∀ env procs pgid,
      signalled procs pgid (handlerProcThrottle env throttleEveryone).1 = procs := by
  have hall : ∀ env, ∃ sig,
      (handlerProcThrottle env throttleEveryone).1 = [.kill (-1) sig] := by
    intro env
    have hcast : toSigned (pidField throttleEveryone) = -1 := by decide
    rcases handlerProcThrottle_cases env throttleEveryone with ⟨hno, -⟩ | ⟨-, hz, -⟩ |
      ⟨-, -, sig, sw, hr⟩
    · exact absurd (by decide) hno
    · exact absurd hz (by decide)
    · exact ⟨sig, by rw [hr, hcast]⟩
  constructor
  · intro env h
    obtain ⟨sig, hsig⟩ := hall env
    exact h.silent (by decide) (-1) sig (by rw [hsig]; simp)
  · intro env procs pgid
    obtain ⟨sig, hsig⟩ := hall env
    rw [hsig]
    simp [signalled, killTargets]

end Asys
