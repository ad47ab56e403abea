import Asys.Daemon.OnePending

/-! # What SVC_RESTART hands to systemctl

    A restart is meant to name one unit and nothing else: the name in the request, with `.service`
    behind it. Two kinds of name get past `svc_name_valid` that should not: the bare suffix, because
    the suffix check asks for more than its eight characters, and a name that begins with a dash,
    which systemctl reads as an option. -/

namespace Asys
open Words

/-- The name of a unit as a request should give it. -/
structure UnitName (name : List UInt8) : Prop where
  pos : 1 ≤ name.length
  le_max : name.length ≤ taskSvcNameMax
  chars : ∀ c ∈ name, svcNameChar c = true
  no_suffix : ¬ serviceSuffix <:+ name
  no_dash : name.head? ≠ some 0x2D

/-- Whatever the pool holds, the handler forks for a well-formed name only, and then with the name
    and its suffix, all of it; and no well-formed name is refused. -/
structure OneUnit (req : ApduFrame) : Prop where
  forked : ∀ env g s result arg, .fork result arg ∈ (handlerSvcRestart env g req s).2.1 →
    UnitName (requestedSvc req) ∧ arg = requestedSvc req ++ serviceSuffix ∧ arg.head? ≠ some 0x2D
  accepted : UnitName (requestedSvc req) → svcNameValid (requestedSvc req) = true

/-- A name that is refused for nothing but could be read as an option. -/
structure DashName (name : List UInt8) : Prop where
  dash : name.head? = some 0x2D
  le_max : name.length ≤ taskSvcNameMax
  chars : ∀ c ∈ name, svcNameChar c = true
  no_suffix : ¬ serviceSuffix <:+ name

/-- The accepted language: the strict inequality lets the suffix itself through. -/
theorem svcNameValid_iff {name : List UInt8} :
    svcNameValid name = true ↔ (1 ≤ name.length ∧ name.length ≤ taskSvcNameMax) ∧
      (∀ c ∈ name, svcNameChar c = true) ∧ (serviceSuffix <:+ name → name = serviceSuffix) := by
  have hsuffix : (8 < name.length ∧ name.drop (name.length - 8) = serviceSuffix) ↔
      ¬ (serviceSuffix <:+ name → name = serviceSuffix) := by
    rw [Classical.not_imp, List.suffix_iff_eq_drop]
    have hlen8 : serviceSuffix.length = 8 := rfl
    rw [hlen8]
    constructor
    · rintro ⟨hlt, hdrop⟩
      refine ⟨hdrop.symm, fun heq => ?_⟩
      rw [heq, hlen8] at hlt
      omega
    · rintro ⟨hdrop, hne⟩
      have hle := congrArg List.length hdrop
      rw [List.length_drop, hlen8] at hle
      refine ⟨?_, hdrop.symm⟩
      by_contra hge
      have hzero : name.length - 8 = 0 := by omega
      rw [hzero, List.drop_zero] at hdrop
      exact hne hdrop.symm
  unfold svcNameValid
  rw [if_congr hsuffix rfl rfl]
  by_cases hlen : name.length < 1 ∨ taskSvcNameMax < name.length
  · rw [if_pos hlen]
    refine iff_of_false nofun fun h => ?_
    omega
  · by_cases hall : name.all svcNameChar = true
    · rw [if_neg hlen, if_neg (not_not.mpr hall)]
      have hchars := List.all_eq_true.mp hall
      by_cases hs : serviceSuffix <:+ name → name = serviceSuffix
      · rw [if_neg (not_not.mpr hs)]
        exact iff_of_true rfl ⟨by omega, hchars, hs⟩
      · rw [if_pos hs]
        exact iff_of_false nofun fun h => hs h.2.2
    · rw [if_neg hlen, if_pos hall]
      exact iff_of_false nofun fun h => hall (List.all_eq_true.mpr h.2.1)

/-- The suffix is appended to the whole name. -/
theorem RestartForm.svcFull {req : ApduFrame} (h : RestartForm req) :
    svcFull (nameBuf req) = requestedSvc req ++ serviceSuffix := by
  have hlen := (svcNameValid_spec h.2.2).1
  show (cString (nameBuf req) ++ serviceSuffix).take (taskSvcNameMax + 8) = _
  rw [h.cString_nameBuf, List.take_of_length_le]
  rw [List.length_append]
  exact Nat.add_le_add hlen (Nat.le_refl 8)

/-- The handler forks behind its checks only, with the whole argument. -/
theorem handlerSvcRestart_fork {env : Env} {g : TaskPool} {req : ApduFrame} {s : UInt16}
    {result : ForkResult} {arg : List UInt8}
    (h : .fork result arg ∈ (handlerSvcRestart env g req s).2.1) :
    RestartForm req ∧ arg = requestedSvc req ++ serviceSuffix := by
  have hc := handlerSvcRestart_cases env g req s
  generalize handlerSvcRestart env g req s = out at h hc
  cases hc with
  | rejected sw hno => simp at h
  | reused handle hform => simp at h
  | full hform => simp at h
  | forkError errno i hform =>
    obtain ⟨-, rfl⟩ := Effect.fork.inj (List.mem_singleton.mp h)
    exact ⟨hform, hform.svcFull⟩
  | started pid i hform =>
    obtain ⟨-, rfl⟩ := Effect.fork.inj (List.mem_singleton.mp h)
    exact ⟨hform, hform.svcFull⟩

/-- In an empty pool a request that passes the checks is forked for. -/
theorem handlerSvcRestart_forks (env : Env) {req : ApduFrame} (h : RestartForm req) (s : UInt16) :
    ∃ result, .fork result (requestedSvc req ++ serviceSuffix) ∈
      (handlerSvcRestart env taskPoolInit req s).2.1 := by
  have hsweep : taskPoolSweepTimeouts taskPoolInit env.sweepTime = taskPoolInit :=
    funext fun _ => sweepEntry_empty rfl
  have hpending (n : List UInt8) : taskPoolFindPending taskPoolInit s n = 0 := by
    unfold taskPoolFindPending
    split
    · rename_i i hi
      have hp : (taskPoolInit i).status = .pending := (of_decide_eq_true
        (Fin.eq_true_of_find?_eq_some hi)).1
      cases hp
    · rfl
  have hc := handlerSvcRestart_cases env taskPoolInit req s
  generalize handlerSvcRestart env taskPoolInit req s = out at hc
  cases hc with
  | rejected sw hno => exact absurd h hno
  | reused handle _ hne hfind =>
    rw [hsweep, hpending] at hfind
    exact absurd hfind.symm hne
  | full _ _ hfirst =>
    rw [hsweep, firstEmpty_none] at hfirst
    exact absurd rfl (hfirst 0)
  | forkError errno i => exact ⟨.error errno, by simp [h.svcFull]⟩
  | started pid i => exact ⟨.child pid, by simp [h.svcFull]⟩

/-- CORRECT (exact): a request keeps to one unit unless it is signed and its name is `.service`, or
    a name that nothing else is wrong with but its first dash. -/
theorem svcRestart_oneUnit_iff (req : ApduFrame) :
    OneUnit req ↔ (req.sec = apduSecSigned →
      requestedSvc req ≠ serviceSuffix ∧ ¬ DashName (requestedSvc req)) := by
  constructor
  · intro h hsec
    -- a valid name of the wrong kind would be forked for in an empty pool
    have hgood : svcNameValid (requestedSvc req) = true → UnitName (requestedSvc req) := by
      intro hv
      have hlen : minDataLen ≤ req.dataLen := by
        have hpos := (svcNameValid_iff.mp hv).1.1
        rw [requestedSvc, List.length_drop] at hpos
        show 5 ≤ req.data.length
        simp only [offSvcName] at hpos
        omega
      obtain ⟨result, hfork⟩ := handlerSvcRestart_forks ⟨0, 0, 0, .child 1, none⟩
        ⟨hsec, hlen, hv⟩ 0
      exact (h.forked _ _ _ _ _ hfork).1
    refine ⟨fun hname => ?_, fun hdash => ?_⟩
    · have hv : svcNameValid (requestedSvc req) = true := by rw [hname]; decide
      exact (hgood hv).no_suffix (hname ▸ List.suffix_rfl)
    · have hpos : 1 ≤ (requestedSvc req).length := by
        have hd := hdash.dash
        cases hn : requestedSvc req with
        | nil => rw [hn] at hd; cases hd
        | cons c rest => simp
      have hv := svcNameValid_iff.mpr ⟨⟨hpos, hdash.le_max⟩, hdash.chars,
        fun hs => absurd hs hdash.no_suffix⟩
      exact (hgood hv).no_dash hdash.dash
  · intro h
    refine ⟨?_, ?_⟩
    · intro env g s result arg hfork
      obtain ⟨hform, rfl⟩ := handlerSvcRestart_fork hfork
      obtain ⟨hne, hdash⟩ := h hform.1
      obtain ⟨⟨hpos, hmax⟩, hchars, hsuffix⟩ := svcNameValid_iff.mp hform.2.2
      have hno : ¬ serviceSuffix <:+ requestedSvc req := fun hs => hne (hsuffix hs)
      have hhead : (requestedSvc req).head? ≠ some 0x2D :=
        fun hd => hdash ⟨hd, hmax, hchars, hno⟩
      refine ⟨⟨hpos, hmax, hchars, hno, hhead⟩, rfl, ?_⟩
      rw [List.head?_append]
      cases hn : (requestedSvc req).head? with
      | none => decide
      | some c => rwa [hn] at hhead
    · intro hu
      exact svcNameValid_iff.mpr ⟨⟨hu.pos, hu.le_max⟩, hu.chars, fun hs => absurd hs hu.no_suffix⟩

/-- `.service` is forked for as `.service.service`, and `-h` as `-h.service`. -/
theorem svcRestart_suffix_and_option :
    Effect.fork (.child 500) (serviceSuffix ++ serviceSuffix) ∈
      (handlerSvcRestart ⟨0, 0, 5, .child 500, none⟩ taskPoolInit
        (restartRequest serviceSuffix (by decide)) 1).2.1 ∧
    Effect.fork (.child 500) ([0x2D, 0x68] ++ serviceSuffix) ∈
      (handlerSvcRestart ⟨0, 0, 5, .child 500, none⟩ taskPoolInit
        (restartRequest [0x2D, 0x68] (by decide)) 1).2.1 ∧
    ¬ OneUnit (restartRequest serviceSuffix (by decide)) := by
  have hfork : Effect.fork (.child 500) (serviceSuffix ++ serviceSuffix) ∈
      (handlerSvcRestart ⟨0, 0, 5, .child 500, none⟩ taskPoolInit
        (restartRequest serviceSuffix (by decide)) 1).2.1 := by decide +kernel
  refine ⟨hfork, by decide +kernel, fun h => ?_⟩
  exact (h.forked _ _ _ _ _ hfork).1.no_suffix List.suffix_rfl

end Asys
