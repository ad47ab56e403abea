import Asys.Handlers.SysProcs
import Asys.Lib.Lines
import Asys.Lib.Scan

/-! # sys_procs.c: parse_proc_stat

    The record of a process, as the kernel prints it with its name verbatim, and the parser that
    reads one line of it. -/

namespace Asys
open Lines Scan

/-- `strrchr`: what is behind the last `c`. -/
def afterLast (c : UInt8) : List UInt8 → Option (List UInt8)
  | [] => none
  | d :: s =>
    match afterLast c s with
    | some t => some t
    | none => if d = c then some s else none

/-- The loop over the `n` fields in front of `utime`. -/
def skipFields : ℕ → List UInt8 → Option (List UInt8)
  | 0, rp => some rp
  | n + 1, rp => (scanU64 rp).bind fun _ =>
    skipFields n ((rp.dropWhile (· = 0x20)).dropWhile (· ≠ 0x20))

/-- `sscanf(rp, " %llu %llu", &utime, &stime)`. -/
def scanTimes (rp : List UInt8) : Option (UInt64 × UInt64) :=
  (scanU64 rp).bind fun (utime, rp) => (scanU64 rp).map fun (stime, _) => (utime, stime)

/-- `*rp++`. At the end of the string `rp` is then behind its NUL, where the bytes `behind` are. -/
def nextChar (behind : List UInt8) : List UInt8 → UInt8 × List UInt8
  | [] => (0, behind)
  | c :: rp => (c, rp)

/-- `buf` as a string: what `fgets` reads into 512 bytes, up to a NUL in it. -/
def statLine (text : List UInt8) : List UInt8 := (fgets 0x0A 511 text).1.takeWhile (· ≠ 0)

/-- What is done with the line. -/
def parseStatLine (behind buf : List UInt8) : Option (UInt8 × UInt64) :=
  (afterLast 0x29 buf).bind fun rp =>
    let (state, rp) := nextChar behind (rp.dropWhile (· = 0x20))
    (skipFields 10 rp).bind fun rp =>
      (scanTimes rp).map fun (utime, stime) => (state, utime + stime)

/-- `parse_proc_stat` on the text of the file, which is `none` when it does not open. -/
def parseProcStat (behind : List UInt8) (file : Option (List UInt8)) : Option (UInt8 × UInt64) :=
  file.bind fun text => if text = [] then none else parseStatLine behind (statLine text)

/-! ### The record -/

/-- A numeric field. -/
inductive StatField where
  | unsigned (v : UInt64)
  | negative (v : UInt64)

def StatField.text : StatField → List UInt8
  | .unsigned v => decimal v.toNat
  | .negative v => 0x2D :: decimal v.toNat

/-- What the kernel knows of a process: the ten fields between the state and `utime`, and those
    behind `stime`. -/
structure StatRecord where
  pid : UInt32
  comm : List UInt8
  state : UInt8
  skipped : List StatField
  utime : UInt64
  stime : UInt64
  rest : List StatField
  ten : skipped.length = 10
  letter : (0x41 ≤ state ∧ state ≤ 0x5A) ∨ (0x61 ≤ state ∧ state ≤ 0x7A)

/-- The fields, each behind a blank. -/
def fieldsText (fs : List StatField) : List UInt8 := fs.flatMap fun f => 0x20 :: f.text

/-- `pid (comm) `. -/
def nameText (pid : UInt32) (comm : List UInt8) : List UInt8 :=
  decimal pid.toNat ++ [0x20, 0x28] ++ comm ++ [0x29, 0x20]

def StatRecord.text (r : StatRecord) : List UInt8 :=
  nameText r.pid r.comm ++ r.state :: (fieldsText r.skipped ++
    fieldsText [.unsigned r.utime, .unsigned r.stime] ++ fieldsText r.rest ++ [0x0A])

/-! ### Texts of fields -/

theorem decimal_u64_length (v : UInt64) : (decimal v.toNat).length ≤ 20 :=
  length_decimal_le (v.toNat_lt.trans (by decide)) (by decide)

/-- A field begins with something that is not blank and has no closing parenthesis. -/
theorem StatField.text_ok (f : StatField) :
    f.text ≠ [] ∧ f.text.length ≤ 21 ∧ ∀ c ∈ f.text, c ≠ 0x20 ∧ c ≠ 0x0A ∧ c ≠ 0 ∧ c ≠ 0x29 := by
  have hdigits : ∀ v : UInt64, ∀ c ∈ decimal v.toNat, c ≠ 0x20 ∧ c ≠ 0x0A ∧ c ≠ 0 ∧ c ≠ 0x29 := by
    intro v c hc
    obtain ⟨-, -, -, h⟩ := isDigit_cases (isDigit_of_mem_decimal hc)
    exact h
  cases f with
  | unsigned v => exact ⟨decimal_ne_nil _, (decimal_u64_length v).trans (by decide), hdigits v⟩
  | negative v =>
    refine ⟨List.cons_ne_nil _ _, Nat.succ_le_succ (decimal_u64_length v), fun c hc => ?_⟩
    rcases List.mem_cons.mp hc with rfl | hc
    · decide
    · exact hdigits v c hc

/-- The scan of a field succeeds. -/
theorem scanU64_field (f : StatField) {s : List UInt8} (hs : NoDigit s) :
    ∃ n, scanU64 (0x20 :: (f.text ++ s)) = some (n, s) := by
  rw [scanU64_blank]
  cases f with
  | unsigned v =>
    exact ⟨_, scanU64_digits (decimal_ne_nil _) (fun c hc => isDigit_of_mem_decimal hc) hs⟩
  | negative v =>
    exact ⟨_, scanU64_minus (decimal_ne_nil _) (fun c hc => isDigit_of_mem_decimal hc) hs⟩

theorem fieldsText_cons (f : StatField) (fs : List StatField) :
    fieldsText (f :: fs) = 0x20 :: (f.text ++ fieldsText fs) := rfl

theorem fieldsText_mem {fs : List StatField} {c : UInt8} (h : c ∈ fieldsText fs) :
    c ≠ 0x0A ∧ c ≠ 0 ∧ c ≠ 0x29 := by
  obtain ⟨f, -, hc⟩ := List.mem_flatMap.mp h
  rcases List.mem_cons.mp hc with rfl | hc
  · decide
  · exact (f.text_ok.2.2 c hc).2

theorem fieldsText_length (fs : List StatField) : (fieldsText fs).length ≤ 22 * fs.length := by
  induction fs with
  | nil => exact le_rfl
  | cons f fs ih =>
    have hf := f.text_ok.2.1
    rw [fieldsText_cons, List.length_cons, List.length_append, List.length_cons]
    omega

/-- What is left begins with a blank, if anything is left. -/
def BlankFirst (s : List UInt8) : Prop := ∀ c ∈ s.head?, c = 0x20

theorem BlankFirst.noDigit {s : List UInt8} (h : BlankFirst s) : NoDigit s := by
  intro c hc
  rw [h c hc]
  rfl

theorem blankFirst_fields (fs : List StatField) {s : List UInt8} (hs : BlankFirst s) :
    BlankFirst (fieldsText fs ++ s) := by
  cases fs with
  | nil => exact hs
  | cons f fs =>
    intro c hc
    exact (Option.some.inj hc).symm

/-- The pass over a field ends in front of the blank behind it. -/
theorem skip_field (f : StatField) {s : List UInt8} (hs : BlankFirst s) :
    ((0x20 :: (f.text ++ s)).dropWhile (· = 0x20)).dropWhile (· ≠ 0x20) = s := by
  obtain ⟨hne, -, hmem⟩ := f.text_ok
  obtain ⟨c, t, hct⟩ := List.exists_cons_of_ne_nil hne
  have hc : c ≠ 0x20 := (hmem c (by simp [hct])).1
  have hblank : (0x20 :: (f.text ++ s)).dropWhile (· = 0x20) = f.text ++ s := by
    simp [hct, hc]
  rw [hblank, List.dropWhile_append_of_pos fun d hd => by simpa using (hmem d hd).1]
  cases s with
  | nil => rfl
  | cons d s =>
    have hd : d = 0x20 := hs d rfl
    simp [hd]

/-- RUN: the loop passes over as many fields as it counts. -/
theorem skipFields_fields (fs : List StatField) {s : List UInt8} (hs : BlankFirst s) :
    skipFields fs.length (fieldsText fs ++ s) = some s := by
  induction fs with
  | nil => rfl
  | cons f fs ih =>
    have hrest := blankFirst_fields fs hs
    obtain ⟨n, hn⟩ := scanU64_field f hrest.noDigit
    rw [List.length_cons, fieldsText_cons, List.cons_append, List.append_assoc, skipFields, hn,
      Option.bind_some, skip_field f hrest, ih]

theorem scanTimes_fields (utime stime : UInt64) {s : List UInt8} (hs : NoDigit s) :
    scanTimes (fieldsText [.unsigned utime, .unsigned stime] ++ s) = some (utime, stime) := by
  have hblank : NoDigit (0x20 :: (decimal stime.toNat ++ s)) := by
    intro c hc
    rw [← Option.some.inj hc]
    rfl
  have htext : fieldsText [.unsigned utime, .unsigned stime] ++ s =
      0x20 :: (decimal utime.toNat ++ 0x20 :: (decimal stime.toNat ++ s)) := by
    simp [fieldsText, StatField.text]
  rw [htext, scanTimes, scanU64_blank, scanU64_decimal utime.toNat_lt hblank, Option.bind_some]
  dsimp only
  rw [scanU64_blank, scanU64_decimal stime.toNat_lt hs, UInt64.ofNat_toNat, UInt64.ofNat_toNat]
  rfl

/-! ### The line -/

theorem afterLast_eq_none {c : UInt8} {s : List UInt8} (h : c ∉ s) : afterLast c s = none := by
  induction s with
  | nil => rfl
  | cons d s ih =>
    rw [List.mem_cons, not_or] at h
    rw [afterLast, ih h.2]
    exact if_neg (Ne.symm h.1)

theorem afterLast_append {c : UInt8} (s : List UInt8) {t : List UInt8} (h : c ∉ t) :
    afterLast c (s ++ c :: t) = some t := by
  induction s with
  | nil =>
    rw [List.nil_append, afterLast, afterLast_eq_none h]
    exact if_pos rfl
  | cons d s ih => rw [List.cons_append, afterLast, ih]

/-- The part of the record that the parser looks at. -/
def StatRecord.front (r : StatRecord) : List UInt8 :=
  nameText r.pid r.comm ++ r.state ::
    (fieldsText r.skipped ++ fieldsText [.unsigned r.utime, .unsigned r.stime])

theorem StatRecord.text_eq (r : StatRecord) : r.text = r.front ++ (fieldsText r.rest ++ [0x0A]) := by
  simp [StatRecord.text, StatRecord.front]

theorem decimal_u32_length (v : UInt32) : (decimal v.toNat).length ≤ 10 :=
  length_decimal_le (v.toNat_lt.trans (by decide)) (by decide)

/-- It fits into the buffer. -/
theorem StatRecord.front_length {r : StatRecord} (h : r.comm.length ≤ 64) : r.front.length < 511 := by
  have hpid := decimal_u32_length r.pid
  have hskipped := fieldsText_length r.skipped
  have htimes := fieldsText_length [.unsigned r.utime, .unsigned r.stime]
  rw [r.ten] at hskipped
  simp only [StatRecord.front, nameText, List.length_append, List.length_cons, List.length_nil] at *
  omega

/-- The state is no blank, no newline, no NUL and no parenthesis. -/
theorem StatRecord.state_ok (r : StatRecord) :
    r.state ≠ 0x20 ∧ r.state ≠ 0x0A ∧ r.state ≠ 0 ∧ r.state ≠ 0x29 := by
  have h := r.letter
  simp only [UInt8.le_iff_toNat_le, ← UInt8.toNat_inj, ne_eq, UInt8.reduceToNat] at h ⊢
  omega

theorem StatRecord.front_mem {r : StatRecord} {c : UInt8} (h : c ∈ r.front) :
    c ∈ r.comm ∨ (c ≠ 0x0A ∧ c ≠ 0) := by
  simp only [StatRecord.front, nameText, List.mem_append, List.mem_cons, List.not_mem_nil,
    or_false] at h
  rcases h with (((h | rfl | rfl) | h) | rfl | rfl) | rfl | h | h
  · obtain ⟨-, -, -, -, hnl, hnul, -⟩ := isDigit_cases (isDigit_of_mem_decimal h)
    exact Or.inr ⟨hnl, hnul⟩
  · exact Or.inr (by decide)
  · exact Or.inr (by decide)
  · exact Or.inl h
  · exact Or.inr (by decide)
  · exact Or.inr (by decide)
  · exact Or.inr ⟨r.state_ok.2.1, r.state_ok.2.2.1⟩
  · exact Or.inr ⟨(fieldsText_mem h).1, (fieldsText_mem h).2.1⟩
  · exact Or.inr ⟨(fieldsText_mem h).1, (fieldsText_mem h).2.1⟩

/-- The one newline is at the end. -/
theorem StatRecord.newline_last {r : StatRecord} (hnl : 0x0A ∉ r.comm) : 0x0A ∉ r.text.dropLast := by
  have hdrop : r.text.dropLast = r.front ++ fieldsText r.rest := by
    rw [r.text_eq, ← List.append_assoc, List.dropLast_concat]
  rw [hdrop, List.mem_append]
  rintro (h | h)
  · exact (StatRecord.front_mem h).elim hnl fun h => h.1 rfl
  · exact (fieldsText_mem h).1 rfl

theorem StatRecord.text_ne_nul {r : StatRecord} (hnul : 0 ∉ r.comm) : ∀ c ∈ r.text, c ≠ 0 := by
  rw [r.text_eq]
  intro c hc
  rcases List.mem_append.mp hc with h | h
  · rcases StatRecord.front_mem h with h | h
    · exact fun h0 => hnul (h0 ▸ h)
    · exact h.2
  · rcases List.mem_append.mp h with h | h
    · exact (fieldsText_mem h).2.1
    · rw [List.mem_singleton.mp h]
      decide

/-- What is left of the line behind `stime` begins with a blank or is the newline. -/
theorem noDigit_take_fields (fs : List StatField) (k : ℕ) :
    NoDigit ((fieldsText fs ++ [0x0A]).take (k + 1)) := by
  intro c hc
  cases fs with
  | nil =>
    rw [← Option.some.inj hc]
    rfl
  | cons f fs =>
    rw [← Option.some.inj hc]
    rfl

/-- With a name on one line, the line has the front of the record and perhaps more fields. -/
theorem StatRecord.statLine_eq {r : StatRecord} (hlen : r.comm.length ≤ 64) (hnul : 0 ∉ r.comm)
    (hnl : 0x0A ∉ r.comm) :
    ∃ t, statLine r.text = r.front ++ t ∧ NoDigit t ∧ 0x29 ∉ t := by
  have hfront := StatRecord.front_length hlen
  refine ⟨(fieldsText r.rest ++ [0x0A]).take (511 - r.front.length), ?_, ?_, fun h => ?_⟩
  · have htake : r.text.take 511 =
        r.front ++ (fieldsText r.rest ++ [0x0A]).take (511 - r.front.length) := by
      rw [r.text_eq, List.take_append, List.take_of_length_le hfront.le]
    rw [statLine, fgets_line (StatRecord.newline_last hnl), ← htake, List.takeWhile_eq_self_iff]
    exact fun c hc => by simpa using StatRecord.text_ne_nul hnul c (List.mem_of_mem_take hc)
  · obtain ⟨k, hk⟩ := Nat.exists_eq_add_of_lt hfront
    have hroom : 511 - r.front.length = k + 1 := by omega
    rw [hroom]
    exact noDigit_take_fields r.rest k
  · rcases List.mem_append.mp (List.mem_of_mem_take h) with h | h
    · exact (fieldsText_mem h).2.2 rfl
    · exact absurd (List.mem_singleton.mp h) (by decide)

/-- The parser on a line that begins with the front of a record. -/
theorem parseStatLine_front (r : StatRecord) (behind : List UInt8) {t : List UInt8} (hdigit : NoDigit t)
    (hparen : 0x29 ∉ t) :
    parseStatLine behind (r.front ++ t) = some (r.state, r.utime + r.stime) := by
  have hsplit : r.front ++ t = (decimal r.pid.toNat ++ [0x20, 0x28] ++ r.comm) ++ 0x29 ::
      (0x20 :: r.state :: (fieldsText r.skipped ++
        (fieldsText [.unsigned r.utime, .unsigned r.stime] ++ t))) := by
    simp [StatRecord.front, nameText]
  have hlast : 0x29 ∉ 0x20 :: r.state :: (fieldsText r.skipped ++
      (fieldsText [.unsigned r.utime, .unsigned r.stime] ++ t)) := by
    simp only [List.mem_cons, List.mem_append, not_or]
    refine ⟨by decide, (r.state_ok.2.2.2).symm, fun h => ?_, fun h => ?_, hparen⟩
    · exact (fieldsText_mem h).2.2 rfl
    · exact (fieldsText_mem h).2.2 rfl
  have hblank : BlankFirst (fieldsText [.unsigned r.utime, .unsigned r.stime] ++ t) := by
    intro c hc
    exact (Option.some.inj hc).symm
  have hskip := skipFields_fields r.skipped hblank
  rw [r.ten] at hskip
  rw [hsplit, parseStatLine, afterLast_append _ hlast, Option.bind_some]
  have hstate : (0x20 :: r.state :: (fieldsText r.skipped ++
      (fieldsText [.unsigned r.utime, .unsigned r.stime] ++ t))).dropWhile (· = 0x20) =
      r.state :: (fieldsText r.skipped ++
        (fieldsText [.unsigned r.utime, .unsigned r.stime] ++ t)) := by
    simp [r.state_ok.1]
  rw [hstate]
  simp only [nextChar, hskip, Option.bind_some, scanTimes_fields _ _ hdigit, Option.map_some]

/-- A name on one line does not matter to the parser. -/
theorem parseProcStat_line {r : StatRecord} (behind : List UInt8) (hlen : r.comm.length ≤ 64)
    (hnul : 0 ∉ r.comm) (hnl : 0x0A ∉ r.comm) :
    parseProcStat behind (some r.text) = some (r.state, r.utime + r.stime) := by
  obtain ⟨t, hline, hdigit, hparen⟩ := StatRecord.statLine_eq hlen hnul hnl
  have hne : r.text ≠ [] := by simp [StatRecord.text]
  rw [parseProcStat, Option.bind_some, if_neg hne, hline, parseStatLine_front r behind hdigit hparen]

/-- With a newline in the name, the line ends in the name. -/
theorem StatRecord.statLine_newline {r : StatRecord} {a b : List UInt8} (hcomm : r.comm = a ++ 0x0A :: b)
    (ha : 0x0A ∉ a) (hlen : r.comm.length ≤ 64) :
    statLine r.text =
      (decimal r.pid.toNat ++ [0x20, 0x28] ++ a ++ [0x0A]).takeWhile (· ≠ 0) := by
  have hpid := decimal_u32_length r.pid
  have hsplit : ∃ u, r.text = (decimal r.pid.toNat ++ [0x20, 0x28] ++ a) ++ 0x0A :: u := by
    simp [StatRecord.text, nameText, hcomm]
  obtain ⟨u, hu⟩ := hsplit
  have hnl : 0x0A ∉ decimal r.pid.toNat ++ [0x20, 0x28] ++ a := by
    simp only [List.mem_append, List.mem_cons, List.not_mem_nil, or_false, not_or]
    refine ⟨⟨fun h => ?_, by decide, by decide⟩, ha⟩
    exact (isDigit_cases (isDigit_of_mem_decimal h)).2.2.2.2.1 rfl
  have hroom : (decimal r.pid.toNat ++ [0x20, 0x28] ++ a).length < 511 := by
    simp only [hcomm, List.length_append, List.length_cons, List.length_nil] at hlen ⊢
    omega
  rw [statLine, hu, fgets_through hnl hroom]

/-- A running process that has used `utime` jiffies. -/
def runningRecord (pid : UInt32) (comm : List UInt8) (utime : UInt64) : StatRecord where
  pid := pid
  comm := comm
  state := 0x52
  skipped := List.replicate 10 (.unsigned 0)
  utime := utime
  stime := 0
  rest := []
  ten := rfl
  letter := Or.inl (by decide)

/-- CORRECT (exact): for a name of at most 64 bytes that are not NUL, the parser gets the state and
    the jiffies of every record with that name exactly when the name has no newline. -/
theorem parseProcStat_iff (behind : List UInt8) (pid : UInt32) {comm : List UInt8}
    (hlen : comm.length ≤ 64) (hnul : 0 ∉ comm) :
    (∀ r : StatRecord, r.pid = pid → r.comm = comm →
        parseProcStat behind (some r.text) = some (r.state, r.utime + r.stime)) ↔
      0x0A ∉ comm := by
  constructor
  · intro h hnl
    obtain ⟨a, b, ha, hcomm⟩ := List.eq_append_cons_of_mem hnl
    -- two records that differ behind the newline are read alike
    have hline : ∀ utime, parseProcStat behind (some (runningRecord pid comm utime).text) =
        parseStatLine behind
          ((decimal pid.toNat ++ [0x20, 0x28] ++ a ++ [0x0A]).takeWhile (· ≠ 0)) := by
      intro utime
      have hne : (runningRecord pid comm utime).text ≠ [] := by simp [StatRecord.text]
      rw [parseProcStat, Option.bind_some, if_neg hne,
        StatRecord.statLine_newline (r := runningRecord pid comm utime) ha hcomm hlen]
      rfl
    have h0 := (hline 0).symm.trans (h (runningRecord pid comm 0) rfl rfl)
    have h1 := (hline 1).symm.trans (h (runningRecord pid comm 1) rfl rfl)
    have heq : (0x52, (0 : UInt64) + 0) = ((0x52 : UInt8), (1 : UInt64) + 0) :=
      Option.some.inj (h0.symm.trans h1)
    exact absurd (congrArg Prod.snd heq) (by decide)
  · rintro hnl r rfl rfl
    exact parseProcStat_line behind hlen hnul hnl

/-- A name that looks like the end of a record, on one line: `x) Z 1 (y`. -/
theorem parseProcStat_parens :
    (∀ r : StatRecord, r.pid = 42 → r.comm = [0x78, 0x29, 0x20, 0x5A, 0x20, 0x31, 0x20, 0x28, 0x79] →
        parseProcStat [] (some r.text) = some (r.state, r.utime + r.stime)) ↔
      0x0A ∉ ([0x78, 0x29, 0x20, 0x5A, 0x20, 0x31, 0x20, 0x28, 0x79] : List UInt8) :=
  parseProcStat_iff [] 42 (by decide) (by decide)

/-- `a`, a newline and `b`. -/
def hiddenComm : List UInt8 := [0x61, 0x0A, 0x62]

/-- `) S 0 0 0 0 0 0 0 0 0 0 0 0` and a newline. -/
def forgedComm : List UInt8 :=
  [0x29, 0x20, 0x53] ++ (List.replicate 12 [0x20, 0x30]).flatten ++ [0x0A]

/-- The process with the first name is not seen at all, and that with the second one is seen as
    sleeping and idle, while both run and have used 12 jiffies. -/
theorem parseProcStat_newline :
    (hiddenComm.length ≤ 64 ∧ 0 ∉ hiddenComm ∧
        parseProcStat [] (some (runningRecord 42 hiddenComm 12).text) = none) ∧
      forgedComm.length ≤ 64 ∧ 0 ∉ forgedComm ∧
        parseProcStat [] (some (runningRecord 42 forgedComm 12).text) = some (0x53, 0) := by
  decide

/-- A process whose name is on one line is in the snapshot with its figures, while there is room. -/
theorem scanEntry_record {r : StatRecord} (behind : List UInt8) (hlen : r.comm.length ≤ 64)
    (hnul : 0 ∉ r.comm) (hnl : 0x0A ∉ r.comm) (hpid : r.pid ≠ 0) (memTotalKb vmrssKb : UInt64)
    (privileged : Bool) {acc : List ProcSnap × UInt16} (hroom : acc.1.length < maxProcsScan) :
    scanEntry memTotalKb acc ⟨r.pid, parseProcStat behind (some r.text), privileged, vmrssKb⟩ =
      (acc.1 ++ [⟨r.pid, r.utime + r.stime, procMemPct vmrssKb memTotalKb,
        procFlags r.state privileged⟩], acc.2 + 1) := by
  rw [scanEntry, if_neg hpid, if_neg (Nat.not_le.mpr hroom), procSnap,
    parseProcStat_line behind hlen hnul hnl]
  rfl

end Asys
