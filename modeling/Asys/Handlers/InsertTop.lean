import Asys.Handlers.SysProcs
import Asys.Lib.Memory
import Asys.Lib.TopK

/-! # insert_top

    The table of the five largest deltas, as the handler keeps it and once more with every access to
    `top` checked. Both are the bounded table of a stable sort. -/

namespace Asys
open Memory TopK

/-- The order of the table: the larger delta first. -/
def deltaFirst (a b : ProcInfo) : Bool := b.delta ≤ a.delta

/-- The entries below the count. -/
def TopProcs.entries (t : TopProcs) : List ProcInfo := (List.range t.count).map t.top

theorem deltaFirst_trans (a b c : ProcInfo) (hab : deltaFirst a b) (hbc : deltaFirst b c) :
    deltaFirst a c := by
  simp only [deltaFirst, decide_eq_true_eq] at *
  exact UInt64.le_trans hbc hab

theorem deltaFirst_total (a b : ProcInfo) : deltaFirst a b || deltaFirst b a := by
  simp only [deltaFirst, Bool.or_eq_true, decide_eq_true_eq]
  exact UInt64.le_total b.delta a.delta

/-! ### The loops of `insert_top` -/

/-- The loop that looks for the place stops at the first smaller delta, or at the count. -/
theorem find?_range_getD (q : ℕ → Bool) (n : ℕ) :
    ((List.range n).find? q).getD n ≤ n ∧ (∀ i < ((List.range n).find? q).getD n, q i = false) ∧
      (((List.range n).find? q).getD n < n → q (((List.range n).find? q).getD n) = true) := by
  cases hf : (List.range n).find? q with
  | none =>
    refine ⟨le_rfl, fun i hi => ?_, fun h => absurd h (lt_irrefl n)⟩
    simpa using List.find?_eq_none.mp hf i (List.mem_range.mpr hi)
  | some p =>
    obtain ⟨hp, hmem, hbefore⟩ := List.find?_range_eq_some.mp hf
    refine ⟨(List.mem_range.mp hmem).le, fun i hi => ?_, fun _ => hp⟩
    simpa using hbefore i hi

/-- The loop that makes room moves the cells above `pos` up by one. -/
theorem shiftTop_apply (top : ℕ → ProcInfo) (pos i j : ℕ) :
    shiftTop top pos i j = if pos < j ∧ j ≤ i then top (j - 1) else top j := by
  induction i generalizing top with
  | zero =>
    rw [shiftTop, if_neg]
    omega
  | succ i ih =>
    rw [shiftTop]
    by_cases hpos : pos < i + 1
    · rw [if_pos hpos, ih]
      rcases eq_or_ne j (i + 1) with rfl | hj
      · rw [if_neg (by omega), if_pos (by omega), Function.update_self, Nat.add_sub_cancel]
      · rw [Function.update_of_ne hj]
        by_cases hin : pos < j ∧ j ≤ i
        · rw [if_pos hin, if_pos (by omega), Function.update_of_ne (by omega)]
        · rw [if_neg hin, if_neg (by omega)]
    · rw [if_neg hpos, if_neg (by omega)]

/-- `pos`, where `p` belongs. -/
def topPos (t : TopProcs) (p : ProcInfo) : ℕ :=
  ((List.range t.count).find? fun i => (t.top i).delta < p.delta).getD t.count

/-- What `insert_top` leaves in cell `j`. -/
theorem insertTop_top {t : TopProcs} {p : ProcInfo} (hpos : topPos t p < topN) (j : ℕ) :
    (insertTop t p).top j =
      if j = topPos t p then p
      else if topPos t p < j ∧ j ≤ min t.count (topN - 1) then t.top (j - 1) else t.top j := by
  have hlast : (if t.count < topN then t.count else topN - 1) = min t.count (topN - 1) := by
    have htopN : topN = 5 := rfl
    split <;> omega
  have htop : (insertTop t p).top =
      Function.update (shiftTop t.top (topPos t p) (min t.count (topN - 1))) (topPos t p) p := by
    rw [← hlast, insertTop, ← topPos, if_neg (Nat.not_le.mpr hpos)]
  rw [htop, Function.update_apply, shiftTop_apply]

theorem insertTop_count {t : TopProcs} {p : ProcInfo} (ht : t.count ≤ topN) :
    (insertTop t p).count = min (t.count + 1) topN := by
  have hle : topPos t p ≤ t.count := (find?_range_getD _ t.count).1
  rw [insertTop, ← topPos]
  by_cases hpos : topN ≤ topPos t p
  · rw [if_pos hpos]
    omega
  · rw [if_neg hpos]
    dsimp only
    split <;> omega

/-- The entries before the place do not lose to `p`, and the one at the place does. -/
theorem entries_split (t : TopProcs) (p : ProcInfo) :
    ∃ l₁ l₂, t.entries = l₁ ++ l₂ ∧ l₁ = (List.range (topPos t p)).map t.top ∧
      l₂ = (List.range (t.count - topPos t p)).map (fun i => t.top (topPos t p + i)) ∧
      (∀ b ∈ l₁, deltaFirst b p = true) ∧ ∀ b ∈ l₂.head?, deltaFirst b p = false := by
  obtain ⟨hle, hbefore, hat⟩ :=
    find?_range_getD (fun i => decide ((t.top i).delta < p.delta)) t.count
  rw [← topPos] at hle hbefore hat
  refine ⟨_, _, ?_, rfl, rfl, ?_, ?_⟩
  · rw [TopProcs.entries, ← Nat.add_sub_cancel' hle, List.range_add, List.map_append, List.map_map,
      Nat.add_sub_cancel_left]
    rfl
  · intro b hb
    obtain ⟨i, hi, rfl⟩ := List.mem_map.mp hb
    have hnot := hbefore i (List.mem_range.mp hi)
    simp only [decide_eq_false_iff_not, UInt64.not_lt] at hnot
    exact decide_eq_true hnot
  · intro b hb
    rcases Nat.eq_zero_or_pos (t.count - topPos t p) with hzero | hpos
    · rw [hzero] at hb
      cases hb
    · obtain ⟨k, hk⟩ := Nat.exists_eq_add_of_lt hpos
      rw [hk, Nat.zero_add, List.range_succ_eq_map, List.map_cons, List.head?_cons] at hb
      obtain rfl := Option.some.inj hb
      have hlt := hat (by omega)
      simp only [decide_eq_true_eq] at hlt
      exact decide_eq_false (UInt64.not_le.mpr hlt)

/-- STEP: one call of `insert_top` is one insertion into the bounded table. -/
theorem insertTop_entries {t : TopProcs} (p : ProcInfo) (ht : t.count ≤ topN) :
    (insertTop t p).entries = push deltaFirst topN t.entries p := by
  obtain ⟨l₁, l₂, hsplit, hl₁, hl₂, hbefore, hat⟩ := entries_split t p
  have hle : topPos t p ≤ t.count := (find?_range_getD _ t.count).1
  have hlen₁ : l₁.length = topPos t p := by rw [hl₁, List.length_map, List.length_range]
  rw [push, hsplit, insertLast_split hbefore hat]
  by_cases hpos : topN ≤ topPos t p
  · -- the table is full and `p` would come behind all of it
    have hsame : insertTop t p = t := by rw [insertTop, ← topPos, if_pos hpos]
    have hnil : l₂ = [] := by
      rw [hl₂, Nat.sub_eq_zero_of_le (by omega)]
      rfl
    rw [hsame, hsplit, hnil, List.append_nil, List.take_append_of_le_length (by omega),
      List.take_of_length_le (by omega)]
  · have hlt : topPos t p < topN := Nat.not_le.mp hpos
    obtain ⟨k, hk⟩ := Nat.exists_eq_add_of_lt hlt
    have hcount : (insertTop t p).count = topPos t p + (1 + min k (t.count - topPos t p)) := by
      rw [insertTop_count ht]
      omega
    have hbelow : ∀ i ∈ List.range (topPos t p), (insertTop t p).top i = t.top i := by
      intro i hi
      have hi' : i < topPos t p := List.mem_range.mp hi
      rw [insertTop_top hlt, if_neg hi'.ne, if_neg (by omega)]
    have hself : (insertTop t p).top (topPos t p) = p := by rw [insertTop_top hlt, if_pos rfl]
    have habove : ∀ i ∈ List.range (min k (t.count - topPos t p)),
        (insertTop t p).top (topPos t p + (1 + i)) = t.top (topPos t p + i) := by
      intro i hi
      have hi' : i < min k (t.count - topPos t p) := List.mem_range.mp hi
      rw [insertTop_top hlt, if_neg (by omega), if_pos (by omega)]
      exact congrArg t.top (by omega)
    have hentries : (insertTop t p).entries =
        l₁ ++ p :: (List.range (min k (t.count - topPos t p))).map fun i => t.top (topPos t p + i) := by
      rw [TopProcs.entries, hcount, List.range_add, List.range_add, List.map_append, List.map_map,
        List.map_append, List.map_map, List.map_congr_left hbelow, hl₁]
      exact congrArg₂ _ rfl (congrArg₂ List.cons hself (List.map_congr_left habove))
    have hrest : topN - topPos t p = k + 1 := by omega
    rw [hentries, List.take_append, hlen₁, List.take_of_length_le (by omega), hrest,
      List.take_succ_cons, hl₂, ← List.map_take, List.take_range]

/-- RUN: the table after a sequence of insertions. -/
theorem foldl_insertTop (top : ℕ → ProcInfo) (ps : List ProcInfo) :
    (ps.foldl insertTop ⟨top, 0⟩).count = min ps.length topN ∧
      (ps.foldl insertTop ⟨top, 0⟩).entries = (ps.mergeSort deltaFirst).take topN := by
  rw [← foldl_push deltaFirst_trans deltaFirst_total]
  induction ps using List.reverseRecOn with
  | nil => exact ⟨rfl, rfl⟩
  | append_singleton ps p ih =>
    obtain ⟨hcount, hentries⟩ := ih
    have hle : (ps.foldl insertTop ⟨top, 0⟩).count ≤ topN := hcount ▸ Nat.min_le_right _ _
    simp only [List.foldl_append, List.foldl_cons, List.foldl_nil, List.length_append,
      List.length_cons, List.length_nil]
    refine ⟨?_, by rw [insertTop_entries p hle, hentries]⟩
    rw [insertTop_count hle, hcount]
    omega

/-! ### The accesses to `top` -/

/-- The search for the place from cell `i` on, with `n` cells left below the count. -/
def findPlaceChecked (top : Buf ProcInfo topN) (p : ProcInfo) : ℕ → ℕ → Option ℕ
  | i, 0 => some i
  | i, n + 1 => do
    let e ← Ptr.read (some top.cells) i
    if e.delta < p.delta then some i else findPlaceChecked top p (i + 1) n

def shiftTopChecked (pos : ℕ) : ℕ → Buf ProcInfo topN → Option (Buf ProcInfo topN)
  | 0, top => some top
  | i + 1, top =>
    if pos < i + 1 then do
      let e ← Ptr.read (some top.cells) i
      let top ← top.write (i + 1) [e]
      shiftTopChecked pos i top
    else some top

/-- `insert_top` on `top` and `*count`. -/
def insertTopChecked (t : Buf ProcInfo topN × ℕ) (p : ProcInfo) : Option (Buf ProcInfo topN × ℕ) := do
  let (top, count) := t
  let pos ← findPlaceChecked top p 0 count
  if topN ≤ pos then return (top, count)
  else
    let last := if count < topN then count else topN - 1
    let top ← shiftTopChecked pos last top
    let top ← top.write pos [p]
    return (top, if count < topN then count + 1 else count)

/-- The five cells of the array are those of the table. -/
def Shows (top : Buf ProcInfo topN) (f : ℕ → ProcInfo) : Prop := top.cells = (List.range topN).map f

theorem Shows.read {top : Buf ProcInfo topN} {f : ℕ → ProcInfo} (h : Shows top f) {i : ℕ}
    (hi : i < topN) : Ptr.read (some top.cells) i = some (f i) := by
  simp only [Shows] at h
  rw [h, Ptr.read_some (by simpa using hi)]
  simp

theorem Shows.write {top : Buf ProcInfo topN} {f : ℕ → ProcInfo} (h : Shows top f) {i : ℕ}
    (p : ProcInfo) (hi : i < topN) :
    ∃ top', top.write i [p] = some top' ∧ Shows top' (Function.update f i p) := by
  obtain ⟨top', hwrite, hcells⟩ := top.write_cell p hi
  simp only [Shows] at h ⊢
  exact ⟨top', hwrite, by rw [hcells, h, set_map_range]⟩

/-- The search reads below the count only. -/
theorem findPlaceChecked_eq {top : Buf ProcInfo topN} {f : ℕ → ProcInfo} (h : Shows top f)
    (p : ProcInfo) {i n : ℕ} (hn : i + n ≤ topN) :
    findPlaceChecked top p i n =
      some (((List.range' i n).find? fun j => (f j).delta < p.delta).getD (i + n)) := by
  induction n generalizing i with
  | zero => rfl
  | succ n ih =>
    rw [findPlaceChecked, h.read (by omega), List.range'_succ, List.find?_cons]
    simp only [Option.bind_eq_bind, Option.bind_some]
    by_cases hlt : (f i).delta < p.delta
    · simp [hlt]
    · rw [if_neg hlt, ih (by omega), decide_eq_false hlt, Nat.add_right_comm, Nat.add_assoc]

/-- The cells that are moved lie in the array. -/
theorem shiftTopChecked_eq (pos : ℕ) {i : ℕ} {top : Buf ProcInfo topN} {f : ℕ → ProcInfo}
    (h : Shows top f) (hi : i < topN) :
    ∃ top', shiftTopChecked pos i top = some top' ∧ Shows top' (shiftTop f pos i) := by
  induction i generalizing top f with
  | zero => exact ⟨top, rfl, h⟩
  | succ i ih =>
    rw [shiftTopChecked, shiftTop]
    by_cases hpos : pos < i + 1
    · rw [if_pos hpos, if_pos hpos, h.read (by omega)]
      obtain ⟨top₁, hwrite, hshows⟩ := h.write (f i) hi
      obtain ⟨top₂, hshift, hshows₂⟩ := ih hshows (by omega)
      refine ⟨top₂, ?_, hshows₂⟩
      simp only [Option.bind_eq_bind, Option.bind_some, hwrite, hshift]
    · rw [if_neg hpos, if_neg hpos]
      exact ⟨top, rfl, h⟩

/-- STEP: the checked call goes through, and does what the other one does. -/
theorem insertTopChecked_eq {t : TopProcs} {top : Buf ProcInfo topN} (h : Shows top t.top)
    (p : ProcInfo) (ht : t.count ≤ topN) :
    ∃ top', insertTopChecked (top, t.count) p = some (top', (insertTop t p).count) ∧
      Shows top' (insertTop t p).top := by
  have hplace : findPlaceChecked top p 0 t.count = some (topPos t p) := by
    rw [findPlaceChecked_eq h p (by omega), ← List.range_eq_range', Nat.zero_add]
    rfl
  simp only [insertTopChecked, hplace, Option.bind_eq_bind, Option.bind_some]
  rw [insertTop, ← topPos]
  by_cases hpos : topN ≤ topPos t p
  · rw [if_pos hpos, if_pos hpos]
    exact ⟨top, rfl, h⟩
  · rw [if_neg hpos, if_neg hpos]
    have htopN : topN = 5 := rfl
    have hlast : (if t.count < topN then t.count else topN - 1) < topN := by split <;> omega
    obtain ⟨top₁, hshift, hshows₁⟩ := shiftTopChecked_eq (topPos t p) h hlast
    obtain ⟨top₂, hwrite, hshows₂⟩ := hshows₁.write p (Nat.not_le.mp hpos)
    refine ⟨top₂, ?_, hshows₂⟩
    simp only [hshift, Option.bind_some, hwrite]
    rfl

/-- RUN: a sequence of checked calls. -/
theorem foldlM_insertTopChecked {t : TopProcs} {top : Buf ProcInfo topN} (h : Shows top t.top)
    (ps : List ProcInfo) (ht : t.count ≤ topN) :
    ∃ top', ps.foldlM insertTopChecked (top, t.count) = some (top', (ps.foldl insertTop t).count) ∧
      Shows top' (ps.foldl insertTop t).top := by
  induction ps generalizing t top with
  | nil => exact ⟨top, rfl, h⟩
  | cons p ps ih =>
    obtain ⟨top₁, hstep, hshows₁⟩ := insertTopChecked_eq h p ht
    have hle : (insertTop t p).count ≤ topN := insertTop_count ht ▸ Nat.min_le_right _ _
    obtain ⟨top₂, hrun, hshows₂⟩ := ih hshows₁ hle
    refine ⟨top₂, ?_, hshows₂⟩
    rw [List.foldlM_cons, hstep]
    exact hrun

/-- CORRECT: any sequence of insertions into the empty array, whatever its cells hold, stays within
    the five cells, and the entries below the count are the first five of the sequence in stable
    order of decreasing delta. -/
theorem insertTop_sorts (top : Buf ProcInfo topN) (ps : List ProcInfo) :
    ∃ top', ps.foldlM insertTopChecked (top, 0) = some (top', min ps.length topN) ∧
      top'.cells.take (min ps.length topN) = (ps.mergeSort deltaFirst).take topN := by
  let t : TopProcs := ⟨fun i => top.cells.getD i ⟨0, 0, 0, 0⟩, 0⟩
  have hshows : Shows top t.top := by
    refine List.ext_getElem (by simp [top.length_eq]) fun i hi _ => ?_
    simp [t, List.getElem?_eq_getElem hi]
  obtain ⟨top', hrun, hshows'⟩ := foldlM_insertTopChecked hshows ps (Nat.zero_le topN)
  obtain ⟨hcount, hentries⟩ := foldl_insertTop t.top ps
  refine ⟨top', hcount ▸ hrun, ?_⟩
  simp only [Shows] at hshows'
  rw [hshows', ← List.map_take, List.take_range, Nat.min_eq_left (Nat.min_le_right _ _), ← hcount,
    ← hentries]
  rfl

end Asys
