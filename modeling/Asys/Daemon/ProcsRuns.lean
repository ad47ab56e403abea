import Asys.Handlers.SysProcs
import Asys.Lib.Runs

/-! # SYS_PROCS over runs of calls with failed scans

    What a call has to compare is the last successful scan with its own, and after no successful scan
    a sample that it takes first. The count of a failed sample stays in `g_n_prev`, where the next
    call takes it for a snapshot. -/

namespace Asys
open Words Runs

/-- `g_n_prev` and the rest when the daemon starts. -/
def procsStart : ProcsState := ⟨⟨some [], 0⟩, ⟨some [], 0⟩⟩

/-- The sample of a cold start fails. -/
def ColdStartFails (st : ProcsState) (r : ProcsReading) : Prop :=
  st.prev.snaps = some [] ∧ r.cold.entries = none

instance (st : ProcsState) (r : ProcsReading) : Decidable (ColdStartFails st r) :=
  inferInstanceAs (Decidable (st.prev.snaps = some [] ∧ r.cold.entries = none))

/-- `g_prev` once a call is past the cold start. -/
def procsBase (st : ProcsState) (r : ProcsReading) : ProcTable :=
  if st.prev.snaps = some [] then (scanProc r.memTotalKb r.cold).1 else st.prev

/-- `g_prev` and `g_curr` as the loop of the deltas reads them, `none` when the call has answered
    with an error before. -/
def comparedTables (st : ProcsState) (r : ProcsReading) : Option (ProcTable × ProcTable) :=
  if ColdStartFails st r ∨ r.scan.entries = none then none
  else some (procsBase st r, (scanProc r.memTotalKb r.scan).1)

/-! ### One call -/

@[simp] theorem scanProc_snaps_none (memTotalKb : UInt64) (r : ScanReading) :
    (scanProc memTotalKb r).1.snaps = none ↔ r.entries = none := by
  rw [scanProc]
  cases r.entries <;> simp

theorem scanProc_total (memTotalKb : UInt64) (r : ScanReading) :
    (scanProc memTotalKb r).1.total = r.total := by
  rw [scanProc]
  cases r.entries <;> rfl

/-- The second half of the handler, by whether its scan fails. -/
theorem compareProcs_cases (prev curr : ProcTable) (r : ProcsReading) :
    (r.scan.entries = none ∧ (compareProcs prev curr r).1.prev = prev ∧
        (compareProcs prev curr r).2 = swWrite swSysErr) ∨
      (r.scan.entries ≠ none ∧
        (compareProcs prev curr r).1 =
          ⟨(scanProc r.memTotalKb r.scan).1, (scanProc r.memTotalKb r.scan).1⟩ ∧
        (compareProcs prev curr r).2 = procsResp (scanProc r.memTotalKb r.scan).2
          (topProcs (prev.snaps.getD []) ((scanProc r.memTotalKb r.scan).1.snaps.getD []))
          (if r.scan.total - prev.total = 0 then 1 else r.scan.total - prev.total)
          (if r.ncpus < 1 then 1 else r.ncpus).toNat.toUInt64) := by
  have htotal := scanProc_total r.memTotalKb r.scan
  rw [← htotal]
  cases h : (scanProc r.memTotalKb r.scan).1.snaps with
  | none =>
    refine Or.inl ⟨(scanProc_snaps_none _ _).mp h, ?_, ?_⟩ <;> simp only [compareProcs, h]
  | some snaps =>
    have hne : r.scan.entries ≠ none := fun hnone => by
      simp [(scanProc_snaps_none r.memTotalKb r.scan).mpr hnone] at h
    refine Or.inr ⟨hne, ?_, ?_⟩ <;> simp only [compareProcs, h, Option.getD_some]

/-- What a call does: an error keeps the table past the cold start, an answer promotes the scan. -/
theorem handlerSysProcs_cases (st : ProcsState) (r : ProcsReading) :
    (comparedTables st r = none ∧ (handlerSysProcs st r).1.prev = procsBase st r ∧
        (handlerSysProcs st r).2 = swWrite swSysErr) ∨
      ∃ curr, comparedTables st r = some (procsBase st r, curr) ∧
        curr = (scanProc r.memTotalKb r.scan).1 ∧ r.scan.entries ≠ none ∧
        (handlerSysProcs st r).1 = ⟨curr, curr⟩ ∧
        (handlerSysProcs st r).2 = procsResp (scanProc r.memTotalKb r.scan).2
          (topProcs ((procsBase st r).snaps.getD []) (curr.snaps.getD []))
          (if r.scan.total - (procsBase st r).total = 0 then 1
            else r.scan.total - (procsBase st r).total)
          (if r.ncpus < 1 then 1 else r.ncpus).toNat.toUInt64 := by
  by_cases hfail : ColdStartFails st r
  · refine Or.inl ⟨if_pos (Or.inl hfail), ?_, ?_⟩ <;>
    simp only [handlerSysProcs, procsBase, if_pos hfail.1,
      (scanProc_snaps_none r.memTotalKb r.cold).mpr hfail.2]
  have hhandler : handlerSysProcs st r = compareProcs (procsBase st r) st.curr r := by
    rw [handlerSysProcs, procsBase]
    by_cases hcold : st.prev.snaps = some []
    · rw [if_pos hcold, if_pos hcold]
      cases h : (scanProc r.memTotalKb r.cold).1.snaps with
      | none => exact absurd ⟨hcold, (scanProc_snaps_none _ _).mp h⟩ hfail
      | some snaps => simp only [h]
    · rw [if_neg hcold, if_neg hcold]
  rw [hhandler]
  rcases compareProcs_cases (procsBase st r) st.curr r with ⟨hscan, hprev, hresp⟩ | ⟨hscan, hst, hresp⟩
  · exact Or.inl ⟨if_pos (Or.inr hscan), hprev, hresp⟩
  · refine Or.inr ⟨_, if_neg ?_, rfl, hscan, hst, hresp⟩
    rintro (h | h)
    · exact hfail h
    · exact hscan h

/-! ### What a call has to compare -/

/-- A scan that succeeded. -/
structure GoodScan where
  snaps : List ProcSnap
  total : UInt64

def GoodScan.table (s : GoodScan) : ProcTable := ⟨some s.snaps, s.total⟩

def goodScan (memTotalKb : UInt64) (r : ScanReading) : Option GoodScan :=
  (scanProc memTotalKb r).1.snaps.map (⟨·, r.total⟩)

/-- The earlier scan of a call: the last successful one, and a sample when there is none or when
    it has found nothing. -/
def baseScan (saved : Option GoodScan) (r : ProcsReading) : Option GoodScan :=
  match saved with
  | some s => if s.snaps = [] then goodScan r.memTotalKb r.cold else some s
  | none => goodScan r.memTotalKb r.cold

/-- The two scans to compare, `none` when one of them fails. -/
def scansToCompare (saved : Option GoodScan) (r : ProcsReading) : Option (GoodScan × GoodScan) :=
  (baseScan saved r).bind fun base => (goodScan r.memTotalKb r.scan).map (base, ·)

/-- The last successful scan after a call. -/
def savedScan (saved : Option GoodScan) (r : ProcsReading) : Option GoodScan :=
  match baseScan saved r with
  | some base => some ((goodScan r.memTotalKb r.scan).getD base)
  | none => saved

/-- The statics, and the last successful scan so far. -/
def procsStep (q : ProcsState × Option GoodScan) (r : ProcsReading) :
    ProcsState × Option GoodScan :=
  ((handlerSysProcs q.1 r).1, savedScan q.2 r)

/-- When the call does not answer with an error, it compares what it has to compare. -/
def ComparesGood (q : ProcsState × Option GoodScan) (r : ProcsReading) : Prop :=
  ∀ prev curr, comparedTables q.1 r = some (prev, curr) →
    ∃ base scan, scansToCompare q.2 r = some (base, scan) ∧ prev = base.table ∧ curr = scan.table

/-- Once the sample of a cold start has failed, every later scan of the run fails. -/
def NoAnswerAfterColdFailure : ProcsState → List ProcsReading → Prop
  | _, [] => True
  | st, r :: rs => (ColdStartFails st r → ∀ r' ∈ rs, r'.scan.entries = none) ∧
      NoAnswerAfterColdFailure (handlerSysProcs st r).1 rs

/-- `g_prev` is the last successful scan. -/
def Saved (prev : ProcTable) : Option GoodScan → Prop
  | some s => prev = s.table
  | none => prev.snaps = some []

theorem scanProc_table {memTotalKb : UInt64} {r : ScanReading} {s : GoodScan}
    (h : goodScan memTotalKb r = some s) : (scanProc memTotalKb r).1 = s.table := by
  obtain ⟨snaps, hsnaps, rfl⟩ := Option.map_eq_some_iff.mp h
  have htotal := scanProc_total memTotalKb r
  rw [GoodScan.table, ← hsnaps, ← htotal]

theorem goodScan_none {memTotalKb : UInt64} {r : ScanReading} :
    goodScan memTotalKb r = none ↔ r.entries = none := by
  rw [goodScan, Option.map_eq_none_iff, scanProc_snaps_none]

/-- The table past the cold start. -/
theorem procsBase_saved {st : ProcsState} {saved : Option GoodScan} {r : ProcsReading}
    (h : Saved st.prev saved) (hcold : ¬ ColdStartFails st r) :
    ∃ base, baseScan saved r = some base ∧ procsBase st r = base.table := by
  have hsample : st.prev.snaps = some [] →
      ∃ base, goodScan r.memTotalKb r.cold = some base ∧ procsBase st r = base.table := by
    intro hempty
    cases hgood : goodScan r.memTotalKb r.cold with
    | none => exact absurd ⟨hempty, goodScan_none.mp hgood⟩ hcold
    | some base => exact ⟨base, rfl, by rw [procsBase, if_pos hempty, scanProc_table hgood]⟩
  cases saved with
  | none => exact hsample h
  | some s =>
    have hprev : st.prev = s.table := h
    by_cases hs : s.snaps = []
    · obtain ⟨base, hgood, hbase⟩ := hsample (by rw [hprev, GoodScan.table, hs])
      exact ⟨base, by rw [baseScan, if_pos hs, hgood], hbase⟩
    · refine ⟨s, by rw [baseScan, if_neg hs], ?_⟩
      rw [procsBase, if_neg, hprev]
      rw [hprev]
      exact fun hempty => hs (Option.some.inj hempty)

/-- STEP: a call whose cold start does not fail. -/
theorem procsStep_saved {q : ProcsState × Option GoodScan} {r : ProcsReading}
    (h : Saved q.1.prev q.2) (hcold : ¬ ColdStartFails q.1 r) :
    Saved (procsStep q r).1.prev (procsStep q r).2 ∧ ComparesGood q r := by
  obtain ⟨base, hbase, htable⟩ := procsBase_saved h hcold
  rw [procsStep, savedScan, hbase]
  rcases handlerSysProcs_cases q.1 r with ⟨hnone, hprev, -⟩ | ⟨curr, hsome, rfl, hscan, hst, -⟩
  · have hfail : goodScan r.memTotalKb r.scan = none := by
      by_contra hgood
      rw [comparedTables, if_neg] at hnone
      · cases hnone
      · rintro (h' | h')
        · exact hcold h'
        · exact hgood (goodScan_none.mpr h')
    refine ⟨?_, fun prev curr hcmp => by rw [hnone] at hcmp; cases hcmp⟩
    rw [hfail]
    exact hprev.trans htable
  · obtain ⟨scan, hgood⟩ := Option.ne_none_iff_exists'.mp (mt goodScan_none.mp hscan)
    refine ⟨?_, fun prev curr hcmp => ?_⟩
    · rw [hgood]
      show (handlerSysProcs q.1 r).1.prev = scan.table
      rw [hst, scanProc_table hgood]
    · obtain ⟨rfl, rfl⟩ := Prod.mk.inj (Option.some.inj (hsome.symm.trans hcmp))
      refine ⟨base, scan, ?_, htable, scanProc_table hgood⟩
      rw [scansToCompare, hbase, Option.bind_some, hgood]
      rfl

/-- While no later scan succeeds, every call answers with an error. -/
theorem comparesGood_of_scans_fail {q : ProcsState × Option GoodScan} {rs : List ProcsReading}
    (h : ∀ r ∈ rs, r.scan.entries = none) : StepsMeet (always procsStep) ComparesGood q rs := by
  intro pre r post s hsplit _ prev curr hcmp
  have hscan : r.scan.entries = none := h r (by rw [hsplit]; simp)
  rw [comparedTables, if_pos (Or.inr hscan)] at hcmp
  cases hcmp

/-- With -1 for a count, the first scan that succeeds is compared with no snapshot. -/
theorem scans_fail_of_comparesGood {q : ProcsState × Option GoodScan} {rs : List ProcsReading}
    (hq : q.1.prev.snaps = none) (h : StepsMeet (always procsStep) ComparesGood q rs) :
    ∀ r ∈ rs, r.scan.entries = none := by
  induction rs generalizing q with
  | nil => simp
  | cons r rs ih =>
    obtain ⟨hr, hrs⟩ := stepsMeet_always_cons.mp h
    have hbase : procsBase q.1 r = q.1.prev := by rw [procsBase, if_neg (by simp [hq])]
    rcases handlerSysProcs_cases q.1 r with ⟨hnone, hprev, -⟩ | ⟨curr, hsome, -⟩
    · have hscan : r.scan.entries = none := by
        by_contra hscan
        rw [comparedTables, if_neg] at hnone
        · cases hnone
        · rintro (h' | h')
          · simp [ColdStartFails, hq] at h'
          · exact hscan h'
      intro r' hr'
      rcases List.mem_cons.mp hr' with rfl | hr'
      · exact hscan
      · refine ih ?_ hrs r' hr'
        rw [procsStep, hprev, hbase, hq]
    · obtain ⟨base, -, -, hprev, -⟩ := hr _ _ hsome
      rw [hbase] at hprev
      rw [hprev] at hq
      cases hq

theorem noAnswer_of_scans_fail {rs : List ProcsReading} (h : ∀ r ∈ rs, r.scan.entries = none)
    (st : ProcsState) : NoAnswerAfterColdFailure st rs := by
  induction rs generalizing st with
  | nil => trivial
  | cons r rs ih =>
    have hrs : ∀ r' ∈ rs, r'.scan.entries = none := fun r' hr' => h r' (List.mem_cons_of_mem r hr')
    exact ⟨fun _ => hrs, ih hrs _⟩

/-- The call whose cold start fails answers with an error and leaves -1. -/
theorem coldStartFails_step {q : ProcsState × Option GoodScan} {r : ProcsReading}
    (h : ColdStartFails q.1 r) : (procsStep q r).1.prev.snaps = none ∧ ComparesGood q r := by
  have hnone : comparedTables q.1 r = none := if_pos (Or.inl h)
  refine ⟨?_, fun prev curr hcmp => by rw [hnone] at hcmp; cases hcmp⟩
  rcases handlerSysProcs_cases q.1 r with ⟨-, hprev, -⟩ | ⟨curr, hsome, -⟩
  · rw [procsStep, hprev, procsBase, if_pos h.1]
    exact (scanProc_snaps_none _ _).mpr h.2
  · rw [hnone] at hsome
    cases hsome

/-- RUN: from a state that has the last successful scan. -/
theorem procsRun_iff {q : ProcsState × Option GoodScan} (rs : List ProcsReading)
    (hq : Saved q.1.prev q.2) :
    StepsMeet (always procsStep) ComparesGood q rs ↔ NoAnswerAfterColdFailure q.1 rs := by
  induction rs generalizing q with
  | nil => exact ⟨fun _ => trivial, fun _ => StepsMeet.nil⟩
  | cons r rs ih =>
    rw [stepsMeet_always_cons, NoAnswerAfterColdFailure]
    by_cases hcold : ColdStartFails q.1 r
    · obtain ⟨hnext, hr⟩ := coldStartFails_step hcold
      constructor
      · rintro ⟨-, hrs⟩
        have hfail := scans_fail_of_comparesGood hnext hrs
        exact ⟨fun _ => hfail, noAnswer_of_scans_fail hfail _⟩
      · rintro ⟨hfail, -⟩
        exact ⟨hr, comparesGood_of_scans_fail (hfail hcold)⟩
    · obtain ⟨hnext, hr⟩ := procsStep_saved hq hcold
      rw [ih hnext]
      exact ⟨fun h => ⟨fun h' => absurd h' hcold, h.2⟩, fun h => ⟨hr, h.2⟩⟩

/-- CORRECT (exact): from the start of the daemon on, every call that does not answer with an error
    compares the last successful scan with its own exactly when no scan succeeds any more once the
    sample of a cold start has failed. -/
theorem sysProcs_compares_iff (rs : List ProcsReading) :
    StepsMeet (always procsStep) ComparesGood (procsStart, none) rs ↔
      NoAnswerAfterColdFailure procsStart rs :=
  procsRun_iff rs rfl

/-- The first call cannot open /proc. The second finds a running process in both of its scans. -/
def coldFailureReadings : List ProcsReading :=
  [⟨1000, ⟨100, none⟩, ⟨100, none⟩, 1⟩,
    ⟨1000, ⟨200, some [⟨7, some (0x52, 10), false, 0⟩]⟩, ⟨300, some [⟨7, some (0x52, 60), false, 0⟩]⟩, 1⟩]

/-- The second call answers 0x9000 with one process in the count and none in the list. -/
theorem sysProcs_coldFailure :
    ¬ StepsMeet (always procsStep) ComparesGood (procsStart, none) coldFailureReadings ∧
      ∃ r r', coldFailureReadings = [r, r'] ∧
        (handlerSysProcs procsStart r).2 = swWrite swSysErr ∧
        (handlerSysProcs (handlerSysProcs procsStart r).1 r').2 =
          [0, 1] ++ List.replicate 40 0 ++ [0x90, 0x00] := by
  refine ⟨?_, _, _, rfl, rfl, rfl⟩
  rw [procsRun_iff (q := (procsStart, none)) coldFailureReadings rfl]
  rintro ⟨hfail, -⟩
  cases hfail ⟨rfl, rfl⟩ _ List.mem_cons_self

end Asys
