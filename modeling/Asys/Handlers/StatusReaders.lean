import Asys.Handlers.SysStatus
import Asys.Lib.Scan

/-! # sys_status.c: the readers of the load, the pressure and the processor times

    Each takes the text of its file, `none` when the file does not open. -/

namespace Asys
open Scan

/-! ### read_loadavg -/

/-- `%u.%u`. -/
def scanFixed (s : List UInt8) : Option ((UInt32 × UInt32) × List UInt8) :=
  (scanU32 s).bind fun (int, s) =>
    (scanChar 0x2E s).bind fun s => (scanU32 s).map fun (frac, s) => ((int, frac), s)

/-- `%u.%u %u.%u`. -/
def scanLoads (text : List UInt8) : Option ((UInt32 × UInt32) × (UInt32 × UInt32)) :=
  (scanFixed text).bind fun (l1, s) => (scanFixed (skipSpace s)).map fun (l5, _) => (l1, l5)

/-- `(uint8_t)(int * 10 + frac / 10)`. -/
def loadX10 (load : UInt32 × UInt32) : UInt8 := (load.1 * 10 + load.2 / 10).toUInt8

/-- `*load1_x10` and `*load5_x10`. -/
def readLoadavg (file : Option (List UInt8)) : UInt8 × UInt8 :=
  match file.bind scanLoads with
  | some (l1, l5) => (loadX10 l1, loadX10 l5)
  | none => (0, 0)

/-! ### read_rpi -/

/-- `psi_available` and `ncpus` once they are known. -/
structure RpiStatics where
  psiAvailable : Bool
  ncpus : ℕ
  pos : 0 < ncpus

/-- What a call finds: whether the probe opens, `sysconf`, and the file when it opens again. -/
structure RpiReading where
  probe : Bool
  ncpus : ℤ
  pressure : Option (List UInt8)

/-- The statics after the probe, which only the first call makes. -/
def rpiStatics (st : Option RpiStatics) (r : RpiReading) : RpiStatics :=
  st.getD ⟨r.probe, (if r.ncpus < 1 then 1 else r.ncpus).toNat, by split <;> omega⟩

/-- `"some"` and `"avg10="`. -/
def psiSome : List UInt8 := [0x73, 0x6F, 0x6D, 0x65]
def psiAvg10 : List UInt8 := [0x61, 0x76, 0x67, 0x31, 0x30, 0x3D]

/-- `some avg10=%u.%u`, cut to 100; 0 for a text of another form. -/
def rpiNative (text : List UInt8) : UInt8 :=
  match (scanLiteral psiSome text).bind fun s => (scanLiteral psiAvg10 (skipSpace s)).bind scanFixed with
  | some ((int, _), _) => if 100 < int then 100 else int.toUInt8
  | none => 0

/-- The path without PSI: `(unsigned)load1_x10 * 10U / (unsigned)ncpus`, cut to 100. -/
def rpiSimulated (load1X10 : UInt8) (ncpus : ℕ) : UInt8 :=
  let rpi := load1X10.toUInt32 * 10 / UInt32.ofNat ncpus
  if 100 < rpi then 100 else rpi.toUInt8

def readRpi (st : Option RpiStatics) (r : RpiReading) (load1X10 : UInt8) : RpiStatics × UInt8 :=
  let st := rpiStatics st r
  (st, match st.psiAvailable, r.pressure with
    | true, some text => rpiNative text
    | _, _ => rpiSimulated load1X10 st.ncpus)

/-! ### read_cpu_pct -/

/-- A division that stops the program when the divisor is 0. -/
def divU64 (x y : UInt64) : Option UInt64 := if y = 0 then none else some (x / y)

/-- The first eight counters of `/proc/stat`, under the names of the variables that take them. -/
structure CpuTimes where
  u : UInt64
  n : UInt64
  s : UInt64
  i : UInt64
  w : UInt64
  x : UInt64
  y : UInt64
  z : UInt64

/-- `"cpu"`. -/
def cpuKey : List UInt8 := [0x63, 0x70, 0x75]

/-- `cpu %llu %llu %llu %llu %llu %llu %llu %llu`. -/
def scanCpuTimes (text : List UInt8) : Option CpuTimes :=
  (scanLiteral cpuKey text).bind fun rest =>
    match scanNumbers 8 (skipSpace rest) with
    | some ([u, n, s, i, w, x, y, z], _) => some ⟨u, n, s, i, w, x, y, z⟩
    | _ => none

/-- The percentage between two samples. -/
def cpuPct (a b : CpuTimes) : Option UInt8 :=
  let idle := (b.i - a.i) + (b.w - a.w)
  let total := (b.u - a.u) + (b.n - a.n) + (b.s - a.s) + (b.i - a.i) + (b.w - a.w) + (b.x - a.x) +
    (b.y - a.y) + (b.z - a.z)
  if total = 0 then some 0
  else (divU64 (100 * (total - idle)) total).map UInt64.toUInt8

/-- `read_cpu_pct` on the two texts of `/proc/stat`; `none` when it divides by 0. -/
def readCpuPct (first second : Option (List UInt8)) : Option UInt8 :=
  match first.bind scanCpuTimes, second.bind scanCpuTimes with
  | some a, some b => cpuPct a b
  | _, _ => some 0

/-! ### refresh_snapshot -/

/-- What a refresh reads. The numbers of the memory, the disk and the network are taken as read. -/
structure SampleReading where
  loadavg : Option (List UInt8)
  stat : Option (List UInt8)
  statLater : Option (List UInt8)
  memAvailMb : UInt32
  rootUsagePct : UInt8
  iowaitMs : UInt32
  inMbps : UInt16
  outMbps : UInt16
  rpi : RpiReading

def refreshSnapshot (st : Option RpiStatics) (r : SampleReading) : Option (RpiStatics × StatusSnap) :=
  let load := readLoadavg r.loadavg
  (readCpuPct r.stat r.statLater).map fun cpuPct =>
    let rpi := readRpi st r.rpi load.1
    (rpi.1, ⟨load.1, load.2, cpuPct, r.memAvailMb, r.rootUsagePct, r.iowaitMs, r.inMbps, r.outMbps,
      rpi.2⟩)

/-! ### The load average -/

/-- `%02lu`. -/
def twoDigits (f : ℕ) : List UInt8 := [UInt8.ofNat (0x30 + f / 10), UInt8.ofNat (0x30 + f % 10)]

/-- The text of a load average: integer part, point and two digits. -/
def loadText (n f : ℕ) : List UInt8 := decimal n ++ 0x2E :: twoDigits f

/-- The two load averages at the front of `/proc/loadavg`. -/
def loadavgText (n f m g : ℕ) (tail : List UInt8) : List UInt8 :=
  loadText n f ++ 0x20 :: (loadText m g ++ tail)

/-- The load truncated to one decimal, in tenths. -/
def loadTenths (n f : ℕ) : ℕ := 10 * n + f / 10

/-- The integer part as `%u` scans it. -/
def scannedInt (n : ℕ) : ℕ := min n (2 ^ 64 - 1) % 2 ^ 32

theorem scanU32_decimal (n : ℕ) {s : List UInt8} (hs : NoDigit s) :
    ∃ v : UInt32, scanU32 (decimal n ++ s) = some (v, s) ∧ v.toNat = scannedInt n := by
  refine ⟨_, by rw [scanU32, scanU64_decimal_min n hs]; rfl, ?_⟩
  rw [UInt64.toNat_toUInt32, UInt64.toNat_ofNat', scannedInt]
  omega

theorem scanU32_twoDigits {f : ℕ} (hf : f < 100) {s : List UInt8} (hs : NoDigit s) :
    ∃ v : UInt32, scanU32 (twoDigits f ++ s) = some (v, s) ∧ v.toNat = f := by
  obtain ⟨htens, hten⟩ := digitByte (d := f / 10) (by omega)
  obtain ⟨hunits, hunit⟩ := digitByte (d := f % 10) (by omega)
  have hds : ∀ c ∈ twoDigits f, isDigit c = true := by
    intro c hc
    simp only [twoDigits, List.mem_cons, List.not_mem_nil, or_false] at hc
    rcases hc with rfl | rfl
    · exact htens
    · exact hunits
  have hval : digitsValue (twoDigits f) = f := by
    simp only [digitsValue, twoDigits, List.foldl_cons, List.foldl_nil, hten, hunit]
    omega
  have hstrtoull : strtoull false (twoDigits f) = UInt64.ofNat f := by
    rw [strtoull, hval, if_neg (by omega)]
    rfl
  refine ⟨_, by rw [scanU32, scanU64_digits (by simp [twoDigits]) hds hs, hstrtoull]; rfl, ?_⟩
  rw [UInt64.toNat_toUInt32, UInt64.toNat_ofNat']
  omega

theorem scanFixed_loadText (n : ℕ) {f : ℕ} (hf : f < 100) {s : List UInt8} (hs : NoDigit s) :
    ∃ load : UInt32 × UInt32, scanFixed (loadText n f ++ s) = some (load, s) ∧
      load.1.toNat = scannedInt n ∧ load.2.toNat = f := by
  have hpoint : NoDigit (0x2E :: (twoDigits f ++ s)) := by
    intro c hc
    rw [← Option.some.inj hc]
    rfl
  obtain ⟨int, hint, hn⟩ := scanU32_decimal n hpoint
  obtain ⟨frac, hfrac, hf'⟩ := scanU32_twoDigits hf hs
  refine ⟨(int, frac), ?_, hn, hf'⟩
  rw [loadText, List.append_assoc, List.cons_append, scanFixed, hint, Option.bind_some]
  have hchar : scanChar 0x2E (0x2E :: (twoDigits f ++ s)) = some (twoDigits f ++ s) := by
    simp [scanChar]
  dsimp only
  rw [hchar, Option.bind_some, hfrac]
  rfl

/-- A load average begins with a digit. -/
theorem skipSpace_loadText (n f : ℕ) (s : List UInt8) :
    skipSpace (0x20 :: (loadText n f ++ s)) = loadText n f ++ s := by
  obtain ⟨c, t, hct⟩ := List.exists_cons_of_ne_nil (decimal_ne_nil n)
  have hc : isSpace c = false :=
    (isDigit_cases (isDigit_of_mem_decimal (hct ▸ List.mem_cons_self))).1
  rw [skipSpace_blank, loadText, hct, List.cons_append, List.cons_append, skipSpace_cons _ hc]

/-- The byte that is reported for a load: only its low eight bits are kept. -/
def loadByte (n f : ℕ) : ℕ := (10 * min n (2 ^ 64 - 1) + f / 10) % 256

theorem loadX10_toNat {load : UInt32 × UInt32} {n f : ℕ} (hn : load.1.toNat = scannedInt n)
    (hf : load.2.toNat = f) : (loadX10 load).toNat = loadByte n f := by
  rw [loadX10, UInt32.toNat_toUInt8, UInt32.toNat_add, UInt32.toNat_mul, UInt32.toNat_div, hn, hf,
    scannedInt, loadByte]
  simp only [UInt32.reduceToNat]
  omega

theorem readLoadavg_text (n m : ℕ) {f g : ℕ} (hf : f < 100) (hg : g < 100) {tail : List UInt8}
    (htail : NoDigit tail) :
    (readLoadavg (some (loadavgText n f m g tail))).1.toNat = loadByte n f ∧
      (readLoadavg (some (loadavgText n f m g tail))).2.toNat = loadByte m g := by
  have hblank : NoDigit (0x20 :: (loadText m g ++ tail)) := by
    intro c hc
    rw [← Option.some.inj hc]
    rfl
  obtain ⟨l1, hl1, hn, hf'⟩ := scanFixed_loadText n hf hblank
  obtain ⟨l5, hl5, hm, hg'⟩ := scanFixed_loadText m hg htail
  have hscan : scanLoads (loadavgText n f m g tail) = some (l1, l5) := by
    rw [scanLoads, loadavgText, hl1, Option.bind_some]
    dsimp only
    rw [skipSpace_loadText, hl5]
    rfl
  rw [readLoadavg, Option.bind_some, hscan]
  exact ⟨loadX10_toNat hn hf', loadX10_toNat hm hg'⟩

/-! ### The bytes of the response -/

/-- A refresh with the reading `r` takes the snapshot `s`. -/
def Refreshes (st : Option RpiStatics) (r : SampleReading) (s : StatusSnap) : Prop :=
  ∃ st', refreshSnapshot st r = some (st', s)

/-- No PSI: the probe has failed, or the file does not open again. -/
def NoPsi (st : Option RpiStatics) (r : RpiReading) : Prop :=
  (rpiStatics st r).psiAvailable = false ∨ r.pressure = none

/-- The bytes of the load and of the pressure. -/
theorem Refreshes.bytes {st : Option RpiStatics} {r : SampleReading} {s : StatusSnap}
    (h : Refreshes st r s) :
    (statusResp s)[0]? = some (readLoadavg r.loadavg).1 ∧
      (statusResp s)[1]? = some (readLoadavg r.loadavg).2 ∧
      (statusResp s)[16]? = some (readRpi st r.rpi (readLoadavg r.loadavg).1).2 := by
  obtain ⟨st', h⟩ := h
  obtain ⟨pct, -, heq⟩ := Option.map_eq_some_iff.mp h
  obtain ⟨-, rfl⟩ := Prod.mk.inj heq
  exact ⟨rfl, rfl, rfl⟩

theorem readRpi_noPsi {st : Option RpiStatics} {r : RpiReading} (h : NoPsi st r) (load1X10 : UInt8) :
    (readRpi st r load1X10).2 = rpiSimulated load1X10 (rpiStatics st r).ncpus := by
  simp only [readRpi]
  rcases h with h | h
  · rw [h]
  · rw [h]
    cases (rpiStatics st r).psiAvailable <;> rfl

theorem rpiSimulated_toNat (load1X10 : UInt8) {ncpus : ℕ} (hfits : ncpus < 2 ^ 32) :
    (rpiSimulated load1X10 ncpus).toNat = min 100 (load1X10.toNat * 10 / ncpus) := by
  have hload := load1X10.toNat_lt
  have h10 : (10 : UInt32).toNat = 10 := rfl
  have h100 : (100 : UInt32).toNat = 100 := rfl
  have hquotient : (load1X10.toUInt32 * 10 / UInt32.ofNat ncpus).toNat =
      load1X10.toNat * 10 / ncpus := by
    rw [UInt32.toNat_div, UInt32.toNat_mul, UInt8.toNat_toUInt32, UInt32.toNat_ofNat',
      Nat.mod_eq_of_lt hfits, h10, Nat.mod_eq_of_lt (by omega)]
  rw [rpiSimulated]
  by_cases hcut : 100 < load1X10.toUInt32 * 10 / UInt32.ofNat ncpus
  · rw [if_pos hcut]
    rw [UInt32.lt_iff_toNat_lt, hquotient] at hcut
    exact (Nat.min_eq_left hcut.le).symm
  · rw [if_neg hcut, UInt32.toNat_toUInt8, hquotient]
    rw [UInt32.lt_iff_toNat_lt, hquotient, h100, Nat.not_lt] at hcut
    rw [Nat.min_eq_right hcut, Nat.mod_eq_of_lt (by omega)]

/-- The load is reported as it should be, whatever the other fields are: its byte stops at 255, as
    the 1-minute load and as the 5-minute load, and without PSI the pressure is what the load on each
    processor is, up to 100. -/
structure LoadReported (n f : ℕ) : Prop where
  load1 : ∀ {st r s m g tail}, g < 100 → NoDigit tail →
    r.loadavg = some (loadavgText n f m g tail) → Refreshes st r s →
    ∃ b, (statusResp s)[0]? = some b ∧ b.toNat = min 255 (loadTenths n f)
  load5 : ∀ {st r s m g tail}, g < 100 → NoDigit tail →
    r.loadavg = some (loadavgText m g n f tail) → Refreshes st r s →
    ∃ b, (statusResp s)[1]? = some b ∧ b.toNat = min 255 (loadTenths n f)
  rpi : ∀ {st r s m g tail}, g < 100 → NoDigit tail →
    r.loadavg = some (loadavgText n f m g tail) → Refreshes st r s → NoPsi st r.rpi →
    (rpiStatics st r.rpi).ncpus < 2 ^ 32 →
    ∃ b, (statusResp s)[16]? = some b ∧
      b.toNat = min 100 (loadTenths n f * 10 / (rpiStatics st r.rpi).ncpus)

theorem loadByte_of_le {n f : ℕ} (h : loadTenths n f ≤ 255) : loadByte n f = loadTenths n f := by
  rw [loadTenths] at *
  rw [loadByte]
  omega

theorem loadReported_of_le {n f : ℕ} (hf : f < 100) (h : loadTenths n f ≤ 255) :
    LoadReported n f where
  load1 {st r s m g tail} hg htail hr hs := by
    refine ⟨_, hs.bytes.1, ?_⟩
    rw [hr, (readLoadavg_text n m hf hg htail).1, loadByte_of_le h, Nat.min_eq_right h]
  load5 {st r s m g tail} hg htail hr hs := by
    refine ⟨_, hs.bytes.2.1, ?_⟩
    rw [hr, (readLoadavg_text m n hg hf htail).2, loadByte_of_le h, Nat.min_eq_right h]
  rpi {st r s m g tail} hg htail hr hs hpsi hfits := by
    refine ⟨_, hs.bytes.2.2, ?_⟩
    rw [readRpi_noPsi hpsi, rpiSimulated_toNat _ hfits, hr, (readLoadavg_text n m hf hg htail).1,
      loadByte_of_le h]

/-- A reading of a node without PSI that has `ncpus` processors. -/
def plainReading (ncpus : ℤ) (loadavg : List UInt8) : SampleReading where
  loadavg := some loadavg
  stat := none
  statLater := none
  memAvailMb := 0
  rootUsagePct := 0
  iowaitMs := 0
  inMbps := 0
  outMbps := 0
  rpi := ⟨false, ncpus, none⟩

theorem plainReading_refreshes (ncpus : ℤ) (loadavg : List UInt8) :
    ∃ s, Refreshes none (plainReading ncpus loadavg) s := ⟨_, _, rfl⟩

/-- A byte of 255 for a higher load shows in the pressure of a node with 26 processors. -/
theorem le_of_loadReported {n f : ℕ} (hf : f < 100) (h : LoadReported n f) :
    loadTenths n f ≤ 255 := by
  by_contra hlt
  have htail : NoDigit [] := by
    intro c hc
    cases hc
  have hload := (readLoadavg_text n 0 (g := 0) hf (by decide) htail).1
  obtain ⟨s, hs⟩ := plainReading_refreshes 26 (loadavgText n f 0 0 [])
  obtain ⟨b, hb, hval⟩ := h.load1 (by decide) htail rfl hs
  have hfits : 26 < 2 ^ 32 := by decide
  obtain ⟨p, hp, hpval⟩ := h.rpi (by decide) htail rfl hs (Or.inl rfl) hfits
  obtain rfl := Option.some.inj (hs.bytes.1.symm.trans hb)
  obtain rfl := Option.some.inj (hs.bytes.2.2.symm.trans hp)
  have hbyte : loadByte n f = min 255 (loadTenths n f) := hload.symm.trans hval
  have hcpus : (rpiStatics none (plainReading 26 (loadavgText n f 0 0 [])).rpi).ncpus = 26 := rfl
  rw [readRpi_noPsi (Or.inl rfl), hcpus, rpiSimulated_toNat _ hfits] at hpval
  have hpressure : min 100 (loadByte n f * 10 / 26) = min 100 (loadTenths n f * 10 / 26) := by
    rw [← hload]
    exact hpval
  rw [loadTenths] at *
  rw [loadByte] at *
  omega

/-- CORRECT (exact): a load is reported as it should be exactly when it is at most 25.5. -/
theorem loadReported_iff {n f : ℕ} (hf : f < 100) : LoadReported n f ↔ loadTenths n f ≤ 255 :=
  ⟨le_of_loadReported hf, loadReported_of_le hf⟩

theorem loadReported_one : LoadReported 1 23 ↔ loadTenths 1 23 ≤ 255 := loadReported_iff (by decide)

/-- A load of 25.60 on one processor is reported as no load and no pressure. -/
theorem load_wraps :
    ¬ LoadReported 25 60 ∧ readLoadavg (some (loadavgText 25 60 3 20 [0x0A])) = (0, 32) ∧
      (readRpi none ⟨false, 1, none⟩ 0).2 = 0 :=
  ⟨fun h => absurd (le_of_loadReported (by decide) h) (by decide), by decide, by decide⟩

end Asys
