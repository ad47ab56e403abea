import Asys.Daemon.ProcsRuns
import Asys.Lib.Serial

/-! # SYS_PROCS calls of several threads

    The scans of a call go to statics that all calls share, and no lock is taken. Each test of
    `g_n_prev`, each scan, each computation of the deltas and each promotion is one step. -/

namespace Asys
open Words Runs Serial

/-- Where a call stands. `slept` tells that it has taken the sample of a cold start. -/
inductive ProcsPc where
  | test
  | coldScan
  | scan (slept : Bool)
  | compute (totalProcs : UInt16)
  | promote (totalProcs : UInt16) (top : TopProcs) (totalDelta : UInt64)
  | answered (resp : List UInt8)

/-- `total_delta`. -/
def procsTotalDelta (prev curr : ProcTable) : UInt64 :=
  if curr.total - prev.total = 0 then 1 else curr.total - prev.total

/-- One step of a call on the statics. The promotion of a count of -1 copies `(size_t)-1` entries:
    the daemon does not survive it. -/
def procsCallStep (r : ProcsReading) (s : ProcsState) : ProcsPc → Option (ProcsState × ProcsPc)
  | .test => some (s, if s.prev.snaps = some [] then .coldScan else .scan false)
  | .coldScan =>
    let table := (scanProc r.memTotalKb r.cold).1
    some (⟨table, s.curr⟩,
      if table.snaps = none then .answered (swWrite swSysErr) else .scan true)
  | .scan _ =>
    let (table, totalProcs) := scanProc r.memTotalKb r.scan
    some (⟨s.prev, table⟩,
      if table.snaps = none then .answered (swWrite swSysErr) else .compute totalProcs)
  | .compute totalProcs =>
    some (s, .promote totalProcs (topProcs (s.prev.snaps.getD []) (s.curr.snaps.getD []))
      (procsTotalDelta s.prev s.curr))
  | .promote totalProcs top totalDelta =>
    let ncpus := if r.ncpus < 1 then 1 else r.ncpus
    if s.curr.snaps = none then none
    else some (⟨s.curr, s.curr⟩,
      .answered (procsResp totalProcs top totalDelta ncpus.toNat.toUInt64))
  | .answered resp => some (s, .answered resp)

variable {ι : Type*} [DecidableEq ι]

/-- The statics, `none` once the daemon is gone, and the calls. -/
structure ProcsRace (ι : Type*) where
  shared : Option ProcsState
  calls : ι → ProcsPc

/-- Call `i` makes its next step. -/
def procsRaceStep (rd : ι → ProcsReading) (q : ProcsRace ι) (i : ι) : ProcsRace ι :=
  match q.shared.bind fun s => procsCallStep (rd i) s (q.calls i) with
  | some (s, pc) => ⟨some s, Function.update q.calls i pc⟩
  | none => ⟨none, q.calls⟩

/-- No call has begun. -/
def procsRaceStart (ι : Type*) (s : ProcsState) : ProcsRace ι := ⟨some s, fun _ => .test⟩

def ProcsPc.answer : ProcsPc → Option (List UInt8)
  | .answered resp => some resp
  | _ => none

/-- The call has begun to scan and is not done: its scans are in the buffers. -/
def ProcsPc.InSection : ProcsPc → Prop
  | .scan slept => slept = true
  | .compute _ => True
  | .promote _ _ _ => True
  | _ => False

instance : DecidablePred ProcsPc.InSection
  | .test | .coldScan | .answered _ => isFalse id
  | .scan slept => inferInstanceAs (Decidable (slept = true))
  | .compute _ | .promote _ _ _ => isTrue trivial

/-- A call begins to scan while no other call has scans in the buffers, and while what it has found
    in `g_n_prev` is still right. -/
def BeginsAlone (q : ProcsRace ι) (i : ι) : Prop :=
  match q.calls i with
  | .coldScan => (∀ j, ¬ (q.calls j).InSection) ∧ ∀ s ∈ q.shared, s.prev.snaps = some []
  | .scan false => (∀ j, ¬ (q.calls j).InSection) ∧ ∀ s ∈ q.shared, s.prev.snaps ≠ some []
  | _ => True

/-- A call alone. -/
def procsCall (rd : ι → ProcsReading) (s : ProcsState) (i : ι) : ProcsState × List UInt8 :=
  handlerSysProcs s (rd i)

/-- The calls that have answered are serialisable, and a call that is about to compute its deltas or
    to promote finds its own scan in `g_curr`. -/
structure ProcsSerial (rd : ι → ProcsReading) (s₀ : ProcsState) (q : ProcsRace ι) : Prop where
  serial : Serialisable (procsCall rd) s₀ fun i => (q.calls i).answer
  own : ∀ i, (∃ n, q.calls i = .compute n) ∨ (∃ n top delta, q.calls i = .promote n top delta) →
    ∃ s, q.shared = some s ∧ s.curr = (scanProc (rd i).memTotalKb (rd i).scan).1 ∧
      s.curr.snaps ≠ none

/-! ### The invariant -/

/-- How far a call in its section has come: `a` is the state in which it runs in the serial order. -/
def SectionOk (a : ProcsState) (r : ProcsReading) (s : ProcsState) : ProcsPc → Prop
  | .scan _ => s.prev = procsBase a r ∧ ¬ ColdStartFails a r
  | .compute n => comparedTables a r = some (s.prev, s.curr) ∧ n = (scanProc r.memTotalKb r.scan).2
  | .promote n top delta => comparedTables a r = some (s.prev, s.curr) ∧
      n = (scanProc r.memTotalKb r.scan).2 ∧
      top = topProcs (s.prev.snaps.getD []) (s.curr.snaps.getD []) ∧
      delta = procsTotalDelta s.prev s.curr
  | _ => True

structure RaceInv (rd : ι → ProcsReading) (s₀ : ProcsState) (q : ProcsRace ι) (order : List ι) :
    Prop where
  explains : Explains (procsCall rd) s₀ order fun i => (q.calls i).answer
  alone : ∀ i j, (q.calls i).InSection → (q.calls j).InSection → i = j
  quiet : (∀ j, ¬ (q.calls j).InSection) →
    ∃ s, q.shared = some s ∧ s.prev = (after (procsCall rd) s₀ order).prev
  busy : ∀ i, (q.calls i).InSection →
    ∃ s, q.shared = some s ∧ SectionOk (after (procsCall rd) s₀ order) (rd i) s (q.calls i)

theorem answers_update (calls : ι → ProcsPc) (i : ι) (pc : ProcsPc) :
    (fun j => (Function.update calls i pc j).answer) =
      Function.update (fun j => (calls j).answer) i pc.answer := by
  funext j
  rcases eq_or_ne j i with rfl | hj
  · rw [Function.update_self, Function.update_self]
  · rw [Function.update_of_ne hj, Function.update_of_ne hj]

variable {rd : ι → ProcsReading} {s₀ s : ProcsState} {q : ProcsRace ι} {order : List ι} {i : ι}
  {pc : ProcsPc}

theorem answers_same (hold : (q.calls i).answer = none) (hnew : pc.answer = none) :
    (fun j => (Function.update q.calls i pc j).answer) = fun j => (q.calls j).answer := by
  rw [answers_update, hnew, ← hold, Function.update_eq_self]

/-- A call that is not in its section moves without entering it. -/
theorem RaceInv.outside (h : RaceInv rd s₀ q order) (hs : q.shared = some s)
    (hold : (q.calls i).answer = none) (hnew : pc.answer = none)
    (hout : ¬ (q.calls i).InSection) (hin : ¬ pc.InSection) :
    RaceInv rd s₀ ⟨some s, Function.update q.calls i pc⟩ order := by
  have hsection : ∀ j, (Function.update q.calls i pc j).InSection ↔ (q.calls j).InSection := by
    intro j
    rcases eq_or_ne j i with rfl | hj
    · rw [Function.update_self]
      exact ⟨fun h => absurd h hin, fun h => absurd h hout⟩
    · rw [Function.update_of_ne hj]
  refine ⟨?_, fun j k hj hk => ?_, fun hquiet => ?_, fun j hj => ?_⟩
  · exact (answers_same hold hnew) ▸ h.explains
  · exact h.alone j k ((hsection j).mp hj) ((hsection k).mp hk)
  · exact hs ▸ h.quiet fun j hj => hquiet j ((hsection j).mpr hj)
  · have hj' := (hsection j).mp hj
    have hji : j ≠ i := fun hji => hout (hji ▸ hj')
    obtain ⟨s', hs', hok⟩ := h.busy j hj'
    refine ⟨s', hs ▸ hs', ?_⟩
    show SectionOk _ _ s' (Function.update q.calls i pc j)
    rwa [Function.update_of_ne hji]

/-- A call enters its section or goes on in it. -/
theorem RaceInv.inside (h : RaceInv rd s₀ q order) (hold : (q.calls i).answer = none)
    (hnew : pc.answer = none) (hfree : ∀ j, (q.calls j).InSection → j = i) (hin : pc.InSection)
    (hok : SectionOk (after (procsCall rd) s₀ order) (rd i) s pc) :
    RaceInv rd s₀ ⟨some s, Function.update q.calls i pc⟩ order := by
  have honly : ∀ j, (Function.update q.calls i pc j).InSection → j = i := by
    intro j hj
    by_contra hji
    rw [Function.update_of_ne hji] at hj
    exact hji (hfree j hj)
  refine ⟨?_, fun j k hj hk => (honly j hj).trans (honly k hk).symm, fun hquiet => ?_,
    fun j hj => ?_⟩
  · exact (answers_same hold hnew) ▸ h.explains
  · exact absurd hin (by simpa using hquiet i)
  · obtain rfl := honly j hj
    refine ⟨s, rfl, ?_⟩
    show SectionOk _ _ s (Function.update q.calls j pc j)
    rwa [Function.update_self]

/-- A call answers: it comes next in the serial order. -/
theorem RaceInv.finish (h : RaceInv rd s₀ q order) {resp : List UInt8}
    (hold : (q.calls i).answer = none) (hfree : ∀ j, (q.calls j).InSection → j = i)
    (hresp : (procsCall rd (after (procsCall rd) s₀ order) i).2 = resp)
    (hprev : s.prev = (procsCall rd (after (procsCall rd) s₀ order) i).1.prev) :
    RaceInv rd s₀ ⟨some s, Function.update q.calls i (.answered resp)⟩ (order ++ [i]) := by
  have hnone : ∀ j, ¬ (Function.update q.calls i (.answered resp) j).InSection := by
    intro j hj
    rcases eq_or_ne j i with rfl | hji
    · rw [Function.update_self] at hj
      exact hj
    · rw [Function.update_of_ne hji] at hj
      exact hji (hfree j hj)
  refine ⟨?_, fun j _ hj => absurd hj (hnone j), fun _ => ?_, fun j hj => absurd hj (hnone j)⟩
  · have hexp := h.explains.concat (i := i) hold hresp
    exact (answers_update q.calls i (.answered resp)) ▸ hexp
  · exact ⟨s, rfl, by rw [after_concat, hprev]⟩

theorem procsRaceStep_some {s' : ProcsState} (hs : q.shared = some s)
    (hstep : procsCallStep (rd i) s (q.calls i) = some (s', pc)) :
    procsRaceStep rd q i = ⟨some s', Function.update q.calls i pc⟩ := by
  rw [procsRaceStep, hs, Option.bind_some, hstep]

omit [DecidableEq ι] in
theorem RaceInv.alive (h : RaceInv rd s₀ q order) : ∃ s, q.shared = some s := by
  by_cases hnone : ∀ j, ¬ (q.calls j).InSection
  · obtain ⟨s, hs, -⟩ := h.quiet hnone
    exact ⟨s, hs⟩
  · obtain ⟨j, hj⟩ := not_forall_not.mp hnone
    obtain ⟨s, hs, -⟩ := h.busy j hj
    exact ⟨s, hs⟩

omit [DecidableEq ι] in
/-- The state in which nobody is in a section. -/
theorem RaceInv.unused (h : RaceInv rd s₀ q order) (hnone : ∀ j, ¬ (q.calls j).InSection) :
    ∃ s, q.shared = some s ∧ s.prev = (after (procsCall rd) s₀ order).prev ∧
      ∀ j, (q.calls j).InSection → j = i := by
  obtain ⟨s, hs, hprev⟩ := h.quiet hnone
  exact ⟨s, hs, hprev, fun j hj => absurd hj (hnone j)⟩

omit [DecidableEq ι] in
/-- The state in which call `i` is in its section. -/
theorem RaceInv.used (h : RaceInv rd s₀ q order) (hi : (q.calls i).InSection) :
    ∃ s, q.shared = some s ∧ SectionOk (after (procsCall rd) s₀ order) (rd i) s (q.calls i) ∧
      ∀ j, (q.calls j).InSection → j = i := by
  obtain ⟨s, hs, hok⟩ := h.busy i hi
  exact ⟨s, hs, hok, fun j hj => h.alone j i hj hi⟩

/-- The scan into `g_curr` of a call that has the right table in `g_prev`. -/
theorem RaceInv.scan {slept : Bool} (h : RaceInv rd s₀ q order) (hs : q.shared = some s)
    (hcall : q.calls i = .scan slept) (hfree : ∀ j, (q.calls j).InSection → j = i)
    (hprev : s.prev = procsBase (after (procsCall rd) s₀ order) (rd i))
    (hcold : ¬ ColdStartFails (after (procsCall rd) s₀ order) (rd i)) :
    ∃ order', RaceInv rd s₀ (procsRaceStep rd q i) order' := by
  have hold : (q.calls i).answer = none := by rw [hcall]; rfl
  rcases handlerSysProcs_cases (after (procsCall rd) s₀ order) (rd i) with
    ⟨hcmp, hbase, hresp⟩ | ⟨curr, hcmp, hcurr, hscan, -⟩
  · -- the scan fails and the call is over
    have hfail : (scanProc (rd i).memTotalKb (rd i).scan).1.snaps = none := by
      rw [scanProc_snaps_none]
      by_contra hne
      rw [comparedTables, if_neg (not_or.mpr ⟨hcold, hne⟩)] at hcmp
      cases hcmp
    refine ⟨order ++ [i], ?_⟩
    rw [procsRaceStep_some hs (by rw [hcall, procsCallStep]), if_pos hfail]
    exact h.finish hold hfree hresp (hprev.trans hbase.symm)
  · have hgood : (scanProc (rd i).memTotalKb (rd i).scan).1.snaps ≠ none :=
      fun hnone => hscan ((scanProc_snaps_none _ _).mp hnone)
    refine ⟨order, ?_⟩
    rw [procsRaceStep_some hs (by rw [hcall, procsCallStep]), if_neg hgood]
    refine h.inside hold rfl hfree trivial ⟨?_, rfl⟩
    rw [hcmp, hprev, hcurr]

/-- The sample of a cold start, by a call that has found no table and still finds none. -/
theorem RaceInv.coldScan (h : RaceInv rd s₀ q order) (hcall : q.calls i = .coldScan)
    (hnone : ∀ j, ¬ (q.calls j).InSection) (hempty : ∀ s ∈ q.shared, s.prev.snaps = some []) :
    ∃ order', RaceInv rd s₀ (procsRaceStep rd q i) order' := by
  obtain ⟨s, hs, hprev, hfree⟩ := h.unused (i := i) hnone
  have hold : (q.calls i).answer = none := by rw [hcall]; rfl
  have hsaved : (after (procsCall rd) s₀ order).prev.snaps = some [] := hprev ▸ hempty s hs
  have hbase : procsBase (after (procsCall rd) s₀ order) (rd i) =
      (scanProc (rd i).memTotalKb (rd i).cold).1 := by rw [procsBase, if_pos hsaved]
  by_cases hfail : (scanProc (rd i).memTotalKb (rd i).cold).1.snaps = none
  · have hcold : ColdStartFails (after (procsCall rd) s₀ order) (rd i) :=
      ⟨hsaved, (scanProc_snaps_none _ _).mp hfail⟩
    refine ⟨order ++ [i], ?_⟩
    rw [procsRaceStep_some hs (by rw [hcall, procsCallStep]), if_pos hfail]
    rcases handlerSysProcs_cases (after (procsCall rd) s₀ order) (rd i) with
      ⟨-, hprev', hresp⟩ | ⟨curr, hcmp, -⟩
    · exact h.finish hold hfree hresp (hbase.symm.trans hprev'.symm)
    · rw [comparedTables, if_pos (Or.inl hcold)] at hcmp
      cases hcmp
  · refine ⟨order, ?_⟩
    rw [procsRaceStep_some hs (by rw [hcall, procsCallStep]), if_neg hfail]
    refine h.inside hold rfl hfree rfl ⟨hbase.symm, fun hcold => ?_⟩
    exact hfail ((scanProc_snaps_none _ _).mpr hcold.2)

/-- The promotion of the own scan. -/
theorem RaceInv.promote {n : UInt16} {top : TopProcs} {delta : UInt64}
    (h : RaceInv rd s₀ q order) (hcall : q.calls i = .promote n top delta) :
    ∃ order', RaceInv rd s₀ (procsRaceStep rd q i) order' := by
  obtain ⟨s, hs, hok, hfree⟩ := h.used (i := i) (by rw [hcall]; trivial)
  have hold : (q.calls i).answer = none := by rw [hcall]; rfl
  rw [hcall] at hok
  obtain ⟨hcmp, rfl, rfl, rfl⟩ := hok
  rcases handlerSysProcs_cases (after (procsCall rd) s₀ order) (rd i) with
    ⟨hnone, -⟩ | ⟨curr, hcmp', hcurr, hscan, hst, hresp⟩
  · rw [hcmp] at hnone
    cases hnone
  · obtain ⟨hbase, rfl⟩ := Prod.mk.inj (Option.some.inj (hcmp.symm.trans hcmp'))
    have hgood : s.curr.snaps ≠ none :=
      fun hnone => hscan ((scanProc_snaps_none _ _).mp (hcurr ▸ hnone))
    have htotal : s.curr.total = (rd i).scan.total := by rw [hcurr, scanProc_total]
    refine ⟨order ++ [i], ?_⟩
    rw [procsRaceStep_some hs (by rw [hcall, procsCallStep, if_neg hgood])]
    refine h.finish hold hfree ?_ (by rw [procsCall, hst])
    rw [procsCall, hresp, ← hbase, procsTotalDelta, htotal]

/-- STEP: a step that begins alone keeps the invariant. -/
theorem RaceInv.step (h : RaceInv rd s₀ q order) (hC : BeginsAlone q i) :
    ∃ order', RaceInv rd s₀ (procsRaceStep rd q i) order' := by
  rw [BeginsAlone] at hC
  cases hcall : q.calls i with
  | test =>
    obtain ⟨s, hs⟩ := h.alive
    refine ⟨order, ?_⟩
    rw [procsRaceStep_some hs (by rw [hcall, procsCallStep])]
    have hout : ¬ (q.calls i).InSection := by rw [hcall]; exact id
    refine h.outside hs (by rw [hcall]; rfl) ?_ hout ?_ <;> split
    · rfl
    · rfl
    · exact id
    · exact Bool.false_ne_true
  | coldScan =>
    rw [hcall] at hC
    exact h.coldScan hcall hC.1 hC.2
  | scan slept =>
    cases slept with
    | false =>
      rw [hcall] at hC
      obtain ⟨s, hs, hprev, hfree⟩ := h.unused (i := i) hC.1
      have hsaved : (after (procsCall rd) s₀ order).prev.snaps ≠ some [] := hprev ▸ hC.2 s hs
      refine h.scan hs hcall hfree ?_ fun hcold => hsaved hcold.1
      rw [procsBase, if_neg hsaved, hprev]
    | true =>
      obtain ⟨s, hs, hok, hfree⟩ := h.used (i := i) (by rw [hcall]; rfl)
      rw [hcall] at hok
      exact h.scan hs hcall hfree hok.1 hok.2
  | compute n =>
    obtain ⟨s, hs, hok, hfree⟩ := h.used (i := i) (by rw [hcall]; trivial)
    rw [hcall] at hok
    refine ⟨order, ?_⟩
    rw [procsRaceStep_some hs (by rw [hcall, procsCallStep])]
    exact h.inside (by rw [hcall]; rfl) rfl hfree trivial ⟨hok.1, hok.2, rfl, rfl⟩
  | promote n top delta => exact h.promote hcall
  | answered resp =>
    obtain ⟨s, hs⟩ := h.alive
    refine ⟨order, ?_⟩
    have hsame : procsRaceStep rd q i = q := by
      rw [procsRaceStep_some hs (by rw [hcall, procsCallStep]), ← hcall, Function.update_eq_self, ← hs]
    exact hsame.symm ▸ h

omit [DecidableEq ι] in
theorem raceInv_start (rd : ι → ProcsReading) (s₀ : ProcsState) :
    RaceInv rd s₀ (procsRaceStart ι s₀) [] where
  explains := explains_nil fun _ => rfl
  alone _ _ h := absurd h id
  quiet _ := ⟨s₀, rfl, rfl⟩
  busy _ h := absurd h id

omit [DecidableEq ι] in
theorem RaceInv.procsSerial (h : RaceInv rd s₀ q order) : ProcsSerial rd s₀ q where
  serial := ⟨order, h.explains⟩
  own i hi := by
    have hin : (q.calls i).InSection := by
      rcases hi with ⟨n, hcall⟩ | ⟨n, top, delta, hcall⟩ <;> rw [hcall] <;> trivial
    obtain ⟨s, hs, hok, -⟩ := h.used hin
    have hcmp : comparedTables (after (procsCall rd) s₀ order) (rd i) = some (s.prev, s.curr) := by
      rcases hi with ⟨n, hcall⟩ | ⟨n, top, delta, hcall⟩ <;> rw [hcall] at hok <;> exact hok.1
    rcases handlerSysProcs_cases (after (procsCall rd) s₀ order) (rd i) with
      ⟨hnone, -⟩ | ⟨curr, hcmp', hcurr, hscan, -⟩
    · rw [hcmp] at hnone
      cases hnone
    · obtain ⟨-, rfl⟩ := Prod.mk.inj (Option.some.inj (hcmp.symm.trans hcmp'))
      exact ⟨s, hs, hcurr, fun hnone => hscan ((scanProc_snaps_none _ _).mp (hcurr ▸ hnone))⟩

/-- CORRECT: in every interleaving in which each call begins to scan alone, the answers given are
    those of a serial order of the calls, and no call uses the scan of another. -/
theorem sysProcs_serial (rd : ι → ProcsReading) (s₀ : ProcsState) {ls : List ι}
    (hC : StepsMeet (always (procsRaceStep rd)) BeginsAlone (procsRaceStart ι s₀) ls) :
    StatesMeet (always (procsRaceStep rd)) (ProcsSerial rd s₀) (procsRaceStart ι s₀) ls := by
  intro pre post q hsplit hrun
  have hinv : ∃ order, RaceInv rd s₀ q order := by
    refine inv_of_steps (I := fun q => ∃ order, RaceInv rd s₀ q order) ⟨[], raceInv_start rd s₀⟩ ?_
      (hsplit ▸ hC).left hrun
    rintro q i q' ⟨order, hinv⟩ hCi hstep
    exact Option.some.inj hstep ▸ hinv.step hCi
  obtain ⟨order, hinv⟩ := hinv
  exact hinv.procsSerial

/-- A scan that fails between the scan of another call and its promotion: the count that is promoted
    is -1. -/
theorem promote_after_failed_scan {j : ι} {slept : Bool} {n : UInt16} {top : TopProcs}
    {delta : UInt64} (hs : q.shared = some s) (hj : q.calls j = .scan slept)
    (hi : q.calls i = .promote n top delta) (hfail : (rd j).scan.entries = none) :
    (procsRaceStep rd (procsRaceStep rd q j) i).shared = none := by
  have hij : i ≠ j := by
    rintro rfl
    rw [hi] at hj
    cases hj
  have hnone := (scanProc_snaps_none (rd j).memTotalKb (rd j).scan).mpr hfail
  rw [procsRaceStep_some hs (by rw [hj, procsCallStep]), procsRaceStep]
  simp only [Function.update_of_ne hij, hi, procsCallStep, hnone, Option.bind_some, if_true]

/-- What two first calls find in /proc: one process, at 10 and 60 jiffies in the scans of the first
    call, at 20 and 90 in those of the second. -/
def twoCalls : Bool → ProcsReading
  | true => ⟨1000, ⟨100, some [⟨7, some (0x52, 10), false, 0⟩]⟩,
      ⟨200, some [⟨7, some (0x52, 60), false, 0⟩]⟩, 1⟩
  | false => ⟨1000, ⟨150, some [⟨7, some (0x52, 20), false, 0⟩]⟩,
      ⟨300, some [⟨7, some (0x52, 90), false, 0⟩]⟩, 1⟩

/-- The second call tests `g_n_prev` in the sleep of the first, and scans when that is done. -/
theorem sysProcs_serial_two :
    StatesMeet (always (procsRaceStep twoCalls)) (ProcsSerial twoCalls procsStart)
      (procsRaceStart Bool procsStart)
      [true, true, false, true, true, true, false, false, false] := by
  refine sysProcs_serial twoCalls procsStart ?_
  have hnext {q : ProcsRace Bool} {i : Bool} {ls : List Bool} (h : BeginsAlone q i)
      (hls : StepsMeet (always (procsRaceStep twoCalls)) BeginsAlone (procsRaceStep twoCalls q i) ls) :
      StepsMeet (always (procsRaceStep twoCalls)) BeginsAlone q (i :: ls) :=
    stepsMeet_always_cons.mpr ⟨h, hls⟩
  refine hnext trivial (hnext ⟨by decide, ?_⟩ (hnext trivial (hnext trivial (hnext trivial
    (hnext trivial (hnext ⟨by decide, ?_⟩ (hnext trivial (hnext trivial StepsMeet.nil))))))))
  · intro s hs
    cases hs
    rfl
  · intro s hs
    cases hs
    decide

/-- Both calls find no table. The second takes its sample in the sleep of the first, which compares
    its own scan with it: 80 percent, where alone it reports 50 percent, and none behind the other. -/
theorem sysProcs_race :
    ¬ StatesMeet (always (procsRaceStep twoCalls)) (ProcsSerial twoCalls procsStart)
      (procsRaceStart Bool procsStart)
      [true, false, true, false, true, true, true, false, false, false] := by
  intro h
  have hserial := (h _ [] _ (List.append_nil _).symm rfl).serial
  have hanswer := hserial.of_two (a := true) (b := false) (by decide) (r := _) rfl
  revert hanswer
  decide

end Asys
