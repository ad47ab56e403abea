import Asys.Handlers.InsertTop

/-! # What SYS_PROCS lists

    The processes that both snapshots have, the five with the largest deltas first. -/

namespace Asys
open Words TopK

/-- The PIDs of a snapshot are positive, and no two entries share one. -/
structure SnapOk (snaps : List ProcSnap) : Prop where
  distinct : (snaps.map ProcSnap.pid).Nodup
  positive : ∀ s ∈ snaps, s.pid ≠ 0

/-- The processes of the earlier snapshot that are in the current one with jiffies there, in the
    order of the earlier one. The delta of a reused PID that now has fewer jiffies is 0. -/
def sharedProcs (prev curr : List ProcSnap) : List ProcInfo :=
  prev.flatMap fun s => (curr.filter fun c => c.pid = s.pid ∧ c.jiffies ≠ 0).map fun c =>
    ⟨s.pid, UInt64.ofNat (c.jiffies.toNat - s.jiffies.toNat), c.memPct, c.statusFlag⟩

/-- CPU_Usage over `elapsed` jiffies of `ncpus` processors, in hundredths of a percent. -/
def cpuUsage (elapsed ncpus : ℕ) (p : ProcInfo) : ℕ :=
  min (min (p.delta.toNat * 10000 * ncpus / elapsed) (10000 * ncpus)) 65535

/-- The eight bytes of a used slot. -/
def slotBytes (elapsed ncpus : ℕ) (p : ProcInfo) : List UInt8 :=
  putU32 p.pid ++ putU16 (UInt16.ofNat (cpuUsage elapsed ncpus p)) ++ [p.memPct, p.statusFlag]

/-- The jiffies between two readings of the counter, and 1 for none. -/
def elapsedJiffies (before after : UInt64) : ℕ :=
  if after - before = 0 then 1 else (after - before).toNat

/-- The processors that are counted with. -/
def cpusOf (r : ProcsReading) : ℕ := if r.ncpus < 1 then 1 else r.ncpus.toNat

/-! ### The matching loop -/

theorem find?_toList_eq_filter {l : List ProcSnap} (h : (l.map ProcSnap.pid).Nodup) (pid : UInt32) :
    (l.find? fun c => c.pid = pid).toList = l.filter fun c => c.pid = pid := by
  induction l with
  | nil => rfl
  | cons c l ih =>
    rw [List.map_cons, List.nodup_cons] at h
    rw [List.find?_cons, List.filter_cons]
    by_cases hc : c.pid = pid
    · have hrest : (l.filter fun c => c.pid = pid) = [] := by
        refine List.filter_eq_nil_iff.mpr fun d hd hdp => h.1 ?_
        exact List.mem_map.mpr ⟨d, hd, (of_decide_eq_true hdp).trans hc.symm⟩
      simp [hc, hrest]
    · simp [hc, ih h.2]

/-- The difference that is 0 when the counter went back. -/
theorem saturating_sub (x y : UInt64) :
    (if x ≤ y then y - x else 0) = UInt64.ofNat (y.toNat - x.toNat) := by
  by_cases hle : x ≤ y
  · rw [if_pos hle, ← UInt64.toNat_sub_of_le y x hle, UInt64.ofNat_toNat]
  · have hlt : y.toNat ≤ x.toNat := (UInt64.lt_iff_toNat_lt.mp (UInt64.not_le.mp hle)).le
    rw [if_neg hle, Nat.sub_eq_zero_of_le hlt]
    rfl

/-- One turn of the loop, for a current snapshot of distinct PIDs. -/
theorem procInfo_toList {curr : List ProcSnap} (h : (curr.map ProcSnap.pid).Nodup) (s : ProcSnap) :
    (procInfo curr s).toList = (curr.filter fun c => c.pid = s.pid ∧ c.jiffies ≠ 0).map fun c =>
      ⟨s.pid, UInt64.ofNat (c.jiffies.toNat - s.jiffies.toNat), c.memPct, c.statusFlag⟩ := by
  have hfilter : (curr.filter fun c => c.pid = s.pid ∧ c.jiffies ≠ 0) =
      (curr.find? fun c => c.pid = s.pid).toList.filter fun c => c.jiffies ≠ 0 := by
    rw [find?_toList_eq_filter h, List.filter_filter]
    exact List.filter_congr fun c _ => by simp [Bool.and_comm]
  rw [hfilter, procInfo]
  cases curr.find? fun c => c.pid = s.pid with
  | none => rfl
  | some c =>
    by_cases hj : c.jiffies = 0
    · simp [hj]
    · simp [hj, saturating_sub]

theorem filterMap_procInfo {prev curr : List ProcSnap} (h : (curr.map ProcSnap.pid).Nodup) :
    prev.filterMap (procInfo curr) = sharedProcs prev curr := by
  induction prev with
  | nil => rfl
  | cons s prev ih =>
    rw [sharedProcs, List.flatMap_cons, ← procInfo_toList h, ← sharedProcs, ← ih, List.filterMap_cons]
    cases procInfo curr s <;> rfl

/-- PIDs are those of the earlier snapshot. -/
theorem sharedProcs_pids {prev curr : List ProcSnap} (hcurr : (curr.map ProcSnap.pid).Nodup) :
    ((sharedProcs prev curr).map ProcInfo.pid).Sublist (prev.map ProcSnap.pid) := by
  rw [← filterMap_procInfo hcurr]
  induction prev with
  | nil => exact List.Sublist.refl _
  | cons s prev ih =>
    rw [List.filterMap_cons]
    cases hp : procInfo curr s with
    | none => exact ih.cons _
    | some p =>
      have hpid : p.pid = s.pid := by
        rw [procInfo] at hp
        split at hp
        · cases hp
        · split at hp
          · cases hp
          · rw [← Option.some.inj hp]
      rw [List.map_cons, List.map_cons, hpid]
      exact ih.cons_cons _

/-! ### The processor usage -/

theorem toNat_clamp (c x : UInt64) : (if c < x then c else x).toNat = min x.toNat c.toNat := by
  by_cases h : c < x
  · rw [if_pos h, Nat.min_eq_right (UInt64.lt_iff_toNat_lt.mp h).le]
  · rw [if_neg h, Nat.min_eq_left (UInt64.le_iff_toNat_le.mp (UInt64.not_lt.mp h))]

/-- The 64-bit product, division and clamps, where the product fits. -/
theorem cpuX100_eq {p : ProcInfo} {totalDelta : UInt64} {ncpus : ℕ}
    (hfit : p.delta.toNat * 10000 * ncpus < 2 ^ 64) :
    cpuX100 p.delta totalDelta ncpus.toUInt64 =
      UInt16.ofNat (cpuUsage totalDelta.toNat ncpus p) := by
  have hproduct : (p.delta * 10000 * ncpus.toUInt64).toNat = p.delta.toNat * 10000 * ncpus := by
    rw [UInt64.toNat_mul, UInt64.toNat_mul, Nat.toUInt64_eq, UInt64.toNat_ofNat', ← Nat.mul_mod]
    exact Nat.mod_eq_of_lt hfit
  have hquotient : (p.delta * 10000 * ncpus.toUInt64 / totalDelta).toNat =
      p.delta.toNat * 10000 * ncpus / totalDelta.toNat := by rw [UInt64.toNat_div, hproduct]
  have hcap : min (p.delta.toNat * 10000 * ncpus / totalDelta.toNat) (10000 * ncpus.toUInt64).toNat =
      min (p.delta.toNat * 10000 * ncpus / totalDelta.toNat) (10000 * ncpus) := by
    rcases Nat.eq_zero_or_pos p.delta.toNat with hzero | hpos
    · rw [hzero, Nat.zero_mul, Nat.zero_div, Nat.zero_min, Nat.zero_min]
    · -- with a delta the product bounds the cap
      have hle : 10000 * ncpus ≤ p.delta.toNat * 10000 * ncpus :=
        Nat.mul_le_mul_right _ (Nat.le_mul_of_pos_left _ hpos)
      have hexact : (10000 * ncpus.toUInt64).toNat = 10000 * ncpus := by
        rw [UInt64.toNat_mul, Nat.toUInt64_eq, UInt64.toNat_ofNat', Nat.mul_mod, Nat.mod_mod,
          ← Nat.mul_mod]
        exact Nat.mod_eq_of_lt (hle.trans_lt hfit)
      rw [hexact]
  have hclamp : (cpuUsage totalDelta.toNat ncpus p) = min (min (p.delta * 10000 * ncpus.toUInt64 /
      totalDelta).toNat (10000 * ncpus.toUInt64).toNat) (0xFFFF : UInt64).toNat := by
    rw [cpuUsage, ← hcap, ← hquotient]
    rfl
  rw [hclamp, ← toNat_clamp, ← toNat_clamp, UInt16.ofNat_uInt64ToNat]
  rfl

theorem cpuUsage_le (elapsed ncpus : ℕ) (p : ProcInfo) :
    cpuUsage elapsed ncpus p ≤ min (10000 * ncpus) 65535 :=
  le_min ((min_le_left _ _).trans (min_le_right _ _)) (min_le_right _ _)

/-- The clamps do not reorder. -/
theorem cpuUsage_mono {elapsed ncpus : ℕ} {p q : ProcInfo} (h : deltaFirst p q) :
    cpuUsage elapsed ncpus q ≤ cpuUsage elapsed ncpus p := by
  have hdelta : q.delta.toNat ≤ p.delta.toNat := UInt64.le_iff_toNat_le.mp (of_decide_eq_true h)
  have hquotient := Nat.div_le_div_right (c := elapsed)
    (Nat.mul_le_mul_right ncpus (Nat.mul_le_mul_right 10000 hdelta))
  simp only [cpuUsage]
  omega

/-! ### The slots -/

theorem procSlot_used {t : TopProcs} {totalDelta ncpus : UInt64} {i : ℕ} (hi : i < t.count)
    (hpid : (t.top i).pid ≠ 0) :
    procSlot t totalDelta ncpus i = putU32 (t.top i).pid ++
      putU16 (cpuX100 (t.top i).delta totalDelta ncpus) ++ [(t.top i).memPct, (t.top i).statusFlag] := by
  rw [procSlot, if_neg]
  rintro (h | h)
  · omega
  · exact hpid h

theorem flatMap_zeros (k n : ℕ) :
    (List.range n).flatMap (fun _ => List.replicate k (0 : UInt8)) = List.replicate (k * n) 0 := by
  induction n with
  | zero => rfl
  | succ n ih =>
    rw [List.range_succ, List.flatMap_append, ih, List.flatMap_singleton,
      List.replicate_append_replicate, Nat.mul_succ]

/-- The used slots come first, and the others are zero. -/
theorem flatMap_procSlot {t : TopProcs} {totalDelta ncpus : UInt64} (ht : t.count ≤ topN)
    (hpid : ∀ p ∈ t.entries, p.pid ≠ 0) :
    (List.range topN).flatMap (procSlot t totalDelta ncpus) =
      t.entries.flatMap (fun p => putU32 p.pid ++ putU16 (cpuX100 p.delta totalDelta ncpus) ++
        [p.memPct, p.statusFlag]) ++ List.replicate (8 * (topN - t.count)) 0 := by
  have hused : (List.range t.count).flatMap (procSlot t totalDelta ncpus) =
      t.entries.flatMap fun p => putU32 p.pid ++ putU16 (cpuX100 p.delta totalDelta ncpus) ++
        [p.memPct, p.statusFlag] := by
    rw [TopProcs.entries, List.flatMap_map]
    refine List.flatMap_congr fun i hi => ?_
    exact procSlot_used (List.mem_range.mp hi) (hpid _ (List.mem_map_of_mem hi))
  have hunused : ((List.range (topN - t.count)).map (t.count + ·)).flatMap
      (procSlot t totalDelta ncpus) = List.replicate (8 * (topN - t.count)) 0 := by
    rw [List.flatMap_map, ← flatMap_zeros]
    refine List.flatMap_congr fun i _ => ?_
    rw [procSlot, if_pos (Or.inl (Nat.le_add_right _ _))]
  rw [← hused, ← hunused, ← List.flatMap_append, ← List.range_add, Nat.add_sub_cancel' ht]

/-! ### The response -/

/-- `best` is what a response has to list. -/
structure ListsTop (prev curr : List ProcSnap) (elapsed ncpus : ℕ) (best : List ProcInfo) : Prop where
  largest : best = ((sharedProcs prev curr).mergeSort deltaFirst).take topN
  length_eq : best.length = min topN (sharedProcs prev curr).length
  ordered : (best.map (cpuUsage elapsed ncpus)).Pairwise (· ≥ ·)
  bounded : ∀ p ∈ best, cpuUsage elapsed ncpus p ≤ min (10000 * ncpus) 65535
  current : ∀ p ∈ best, ∃ c ∈ curr, c.pid = p.pid ∧ c.jiffies ≠ 0 ∧ p.memPct = c.memPct ∧
    p.statusFlag = c.statusFlag
  distinct : (best.map ProcInfo.pid).Nodup

theorem mem_sharedProcs {prev curr : List ProcSnap} {p : ProcInfo} (h : p ∈ sharedProcs prev curr) :
    ∃ s ∈ prev, ∃ c ∈ curr, c.pid = s.pid ∧ c.jiffies ≠ 0 ∧
      p = ⟨s.pid, UInt64.ofNat (c.jiffies.toNat - s.jiffies.toNat), c.memPct, c.statusFlag⟩ := by
  obtain ⟨s, hs, hp⟩ := List.mem_flatMap.mp h
  obtain ⟨c, hc, rfl⟩ := List.mem_map.mp hp
  obtain ⟨hmem, hcond⟩ := List.mem_filter.mp hc
  obtain ⟨hpid, hj⟩ := of_decide_eq_true hcond
  exact ⟨s, hs, c, hmem, hpid, hj, rfl⟩

theorem listsTop_take {prev curr : List ProcSnap} (elapsed ncpus : ℕ) (hprev : SnapOk prev)
    (hcurr : SnapOk curr) :
    ListsTop prev curr elapsed ncpus (((sharedProcs prev curr).mergeSort deltaFirst).take topN) where
  largest := rfl
  length_eq := by rw [List.length_take, List.length_mergeSort]
  ordered := by
    have hsorted := List.pairwise_mergeSort deltaFirst_trans deltaFirst_total (sharedProcs prev curr)
    exact List.pairwise_map.mpr ((hsorted.sublist (List.take_sublist _ _)).imp cpuUsage_mono)
  bounded p _ := cpuUsage_le elapsed ncpus p
  current p hp := by
    obtain ⟨s, -, c, hc, hpid, hj, rfl⟩ :=
      mem_sharedProcs (List.mem_mergeSort.mp (List.mem_of_mem_take hp))
    exact ⟨c, hc, hpid, hj, rfl, rfl⟩
  distinct := by
    have hall : ((sharedProcs prev curr).map ProcInfo.pid).Nodup :=
      hprev.distinct.sublist (sharedProcs_pids hcurr.distinct)
    have hperm := (List.mergeSort_perm (sharedProcs prev curr) deltaFirst).map ProcInfo.pid
    exact (hperm.nodup_iff.mpr hall).sublist ((List.take_sublist _ _).map _)

/-- The table that the handler fills. -/
theorem topProcs_entries (prev : List ProcSnap) {curr : List ProcSnap} (hcurr : SnapOk curr) :
    (topProcs prev curr).count = min topN (sharedProcs prev curr).length ∧
      (topProcs prev curr).entries = ((sharedProcs prev curr).mergeSort deltaFirst).take topN := by
  obtain ⟨hcount, hentries⟩ := foldl_insertTop (fun _ => ⟨0, 0, 0, 0⟩) (prev.filterMap (procInfo curr))
  rw [filterMap_procInfo hcurr.distinct] at hcount hentries
  rw [topProcs, filterMap_procInfo hcurr.distinct]
  exact ⟨hcount.trans (Nat.min_comm _ _), hentries⟩

theorem totalDelta_toNat (before after : UInt64) :
    (if after - before = 0 then 1 else after - before).toNat = elapsedJiffies before after := by
  rw [elapsedJiffies]
  split <;> rfl

theorem ncpus_toNat (r : ProcsReading) :
    (if r.ncpus < 1 then 1 else r.ncpus).toNat = cpusOf r := by
  rw [cpusOf]
  split <;> rfl

/-- CORRECT: the answer to a call that finds an earlier snapshot lists from the first slot on the
    five processes with the largest deltas that both snapshots have, and zeros behind them. -/
theorem sysProcs_lists {st : ProcsState} {r : ProcsReading} {prev curr : List ProcSnap}
    {total : UInt64} {totalProcs : UInt16} (hprev : st.prev.snaps = some prev) (hne : prev ≠ [])
    (hscan : scanProc r.memTotalKb r.scan = (⟨some curr, total⟩, totalProcs)) (hpids : SnapOk prev)
    (hpids' : SnapOk curr)
    (hfit : ∀ p ∈ sharedProcs prev curr, p.delta.toNat * 10000 * cpusOf r < 2 ^ 64) :
    ∃ best, ListsTop prev curr (elapsedJiffies st.prev.total total) (cpusOf r) best ∧
      (handlerSysProcs st r).2 = putU16 totalProcs ++
        (best.flatMap (slotBytes (elapsedJiffies st.prev.total total) (cpusOf r)) ++
          List.replicate (8 * (topN - best.length)) 0) ++ swWrite swOk := by
  obtain ⟨hcount, hentries⟩ := topProcs_entries prev hpids'
  have hlists := listsTop_take (elapsedJiffies st.prev.total total) (cpusOf r) hpids hpids'
  have hshared : ∀ p ∈ (topProcs prev curr).entries, p ∈ sharedProcs prev curr := by
    intro p hp
    rw [hentries] at hp
    exact List.mem_mergeSort.mp (List.mem_of_mem_take hp)
  have hpid : ∀ p ∈ (topProcs prev curr).entries, p.pid ≠ 0 := by
    intro p hp
    obtain ⟨s, hs, c, -, -, -, rfl⟩ := mem_sharedProcs (hshared p hp)
    exact hpids.positive s hs
  have hresp : (handlerSysProcs st r).2 = procsResp totalProcs (topProcs prev curr)
      (if total - st.prev.total = 0 then 1 else total - st.prev.total)
      (cpusOf r).toUInt64 := by
    have hwarm : st.prev.snaps ≠ some [] := by simpa [hprev] using hne
    rw [handlerSysProcs, if_neg hwarm, compareProcs, hscan, hprev, ← ncpus_toNat]
    rfl
  refine ⟨_, hlists, ?_⟩
  rw [hresp, procsResp, flatMap_procSlot (hcount ▸ Nat.min_le_left _ _) hpid, hlists.length_eq, hcount,
    hentries]
  refine congrArg (fun slots => putU16 totalProcs ++ (slots ++ _) ++ swWrite swOk) ?_
  refine List.flatMap_congr fun p hp => ?_
  rw [slotBytes, cpuX100_eq (hfit p (hshared p (hentries ▸ hp))), totalDelta_toNat]

/-- Two processes on two processors, of which the second has used more. -/
def twoProcsBefore : ProcsState := ⟨⟨some [⟨7, 100, 3, 0⟩, ⟨9, 50, 1, 4⟩], 1000⟩, ⟨none, 0⟩⟩

def twoProcsReading : ProcsReading where
  memTotalKb := 1000
  cold := ⟨0, none⟩
  scan := ⟨1200, some [⟨7, some (0x52, 110), false, 30⟩, ⟨9, some (0x53, 90), true, 10⟩]⟩
  ncpus := 2

theorem sysProcs_lists_two :
    ∃ best, ListsTop [⟨7, 100, 3, 0⟩, ⟨9, 50, 1, 4⟩] [⟨7, 110, 3, 0⟩, ⟨9, 90, 1, 4⟩] 200 2 best ∧
      (handlerSysProcs twoProcsBefore twoProcsReading).2 = putU16 2 ++
        (best.flatMap (slotBytes 200 2) ++ List.replicate (8 * (topN - best.length)) 0) ++
        swWrite swOk :=
  @sysProcs_lists twoProcsBefore twoProcsReading _ _ 1200 _ rfl (by decide) rfl
    ⟨by decide, by decide⟩ ⟨by decide, by decide⟩ (by decide)

end Asys
