import Mathlib.Data.List.Nodup
import Asys.Core.AuthVerify
import Asys.Core.TaskPool
import Asys.Handlers.SysInfo
import Asys.Lib.Lines

/-! # whitelist.c: authorized_agents, read into the whitelist

    `whitelist_load` reads the file through a buffer of 128 bytes and takes every piece that `fgets`
    returns for a line. A line of more than 127 bytes comes back in several pieces, and a piece from
    the middle of a line can look like an entry. -/

namespace Asys
open Lines

def newline : UInt8 := 0x0A

/-- `sizeof(line)` less the NUL that `fgets` writes. -/
def lineRoom : ℕ := 127

def whitelistLabelSize : ℕ := 32

def isBlank (c : UInt8) : Bool := c = 0x20 ∨ c = 0x09

/-- `hex_decode32`, on the digits it reads: two for each byte. -/
def hexDecode : List UInt8 → Option (List UInt8)
  | hi :: lo :: rest => do
    let h ← hexNibble hi
    let l ← hexNibble lo
    let t ← hexDecode rest
    some ((h <<< 4 ||| l) :: t)
  | _ => some []

/-- The label of an entry: what follows the key on the line, cut to the field. -/
def entryLabel (rest : List UInt8) : List UInt8 :=
  ((rest.dropWhile isBlank).takeWhile fun c => c ≠ newline ∧ c ≠ 0x0D).take (whitelistLabelSize - 1)

/-- The body of the loop for one line buffer; `none` for `continue`. -/
def parseEntry (line : List UInt8) : Option AgentEntry :=
  let p := (cString line).dropWhile isBlank
  if p.head? = some 0x23 ∨ p.head? = some newline ∨ p = [] then none
  else if p.length < 64 then none
  else (hexDecode (p.take 64)).map fun pub => ⟨pub, entryLabel (p.drop 64)⟩

/-- The loop over the line buffers, `entries[0..count-1]` so far. -/
def readEntries : List (List UInt8) → List AgentEntry → List AgentEntry
  | [], entries => entries
  | line :: rest, entries =>
    if entries.length < whitelistMaxAgents then
      match parseEntry line with
      | none => readEntries rest entries
      | some e => readEntries rest (entries ++ [e])
    else entries

theorem readEntries_eq {ps : List (List UInt8)} {es : List AgentEntry}
    (h : es.length ≤ whitelistMaxAgents) :
    readEntries ps es = es ++ (ps.filterMap parseEntry).take (whitelistMaxAgents - es.length) := by
  induction ps generalizing es with
  | nil => simp [readEntries]
  | cons line rest ih =>
    by_cases hlt : es.length < whitelistMaxAgents
    · obtain ⟨m, hm⟩ := Nat.exists_eq_add_of_lt hlt
      cases hp : parseEntry line with
      | none => simp [readEntries, hlt, hp, ih h]
      | some e =>
        have hroom : whitelistMaxAgents - es.length = m + 1 := by omega
        have hroom' : whitelistMaxAgents - (es ++ [e]).length = m := by simp; omega
        have hle : (es ++ [e]).length ≤ whitelistMaxAgents := by simp; omega
        simp only [readEntries, if_pos hlt, hp, ih hle, hroom, hroom', List.filterMap_cons_some hp,
          List.take_succ_cons, List.append_assoc, List.singleton_append]
    · have hfull : whitelistMaxAgents - es.length = 0 := by omega
      simp [readEntries, hlt, hfull]

def Whitelist.empty : Whitelist := ⟨[], Nat.zero_le _⟩

/-- The table read from the file's bytes. -/
def readWhitelist (content : List UInt8) : Whitelist where
  entries := readEntries (pieces newline lineRoom content) []
  count_le := by
    rw [readEntries_eq (Nat.zero_le _)]
    exact List.length_take_le _ _

def bytesOf (s : String) : List UInt8 := s.toUTF8.toList

/-- What `whitelist_load` writes into a new file. -/
def whitelistTemplate : List UInt8 :=
  bytesOf "# /etc/asyd/authorized_agents — authorized agent public keys\n" ++
  bytesOf "#\n" ++
  bytesOf "# One entry per line:\n" ++
  bytesOf "#   <64-char hex Curve25519 pubkey>  [optional-label]\n" ++
  bytesOf "#\n" ++
  bytesOf "# Example:\n" ++
  bytesOf "#   9d0c10df7237b1cf77380ae676ee500fe4da9873476c2e46378cad5e3cc2ba52  my-agent\n" ++
  bytesOf "#\n" ++
  bytesOf "# To add an agent, run asys_keygen.py on the client, then copy\n" ++
  bytesOf "# the printed Fingerprint hex to this file:\n" ++
  bytesOf "#   echo \"<pubkey_hex>  <label>\" >> /etc/asyd/authorized_agents\n"

/-- The file, `none` when there is none, and the table in memory. -/
structure Agents where
  file : Option (List UInt8)
  wl : Whitelist

/-- What the system does in one call: whether an existing file opens for reading, whether the path
    opens for writing, and how many bytes of the template reach the disk. -/
structure LoadOpens where
  read : Bool
  write : Bool
  written : ℕ

def whitelistLoad (o : LoadOpens) (s : Agents) : Agents :=
  let s := { s with wl := .empty }
  match s.file, o.read with
  | some content, true => { s with wl := readWhitelist content }
  | _, _ =>
    if o.write then { s with file := some (whitelistTemplate.take o.written) } else s

/-! ### The keys of the lines, and the keys of the pieces -/

/-- The key of a line: after leading blanks it starts with 64 hexadecimal digits. -/
def entryKey (line : List UInt8) : Option (List UInt8) :=
  let p := line.dropWhile isBlank
  if 64 ≤ p.length then hexDecode (p.take 64) else none

def lineKey (line : List UInt8) : List (List UInt8) := (entryKey line).toList

/-- The keys of the file's lines, in order. -/
def lineKeys (content : List UInt8) : List (List UInt8) :=
  (lines newline content).flatMap lineKey

/-- Leading blanks. -/
def indent (line : List UInt8) : ℕ := (line.takeWhile isBlank).length

/-- Keys that a line shows from byte 127 on, where the buffer cuts it. -/
def strayKeys (line : List UInt8) : List (List UInt8) :=
  (pieces newline lineRoom (line.drop lineRoom)).filterMap entryKey

/-- The key that the first piece of a line shows. -/
def headKey (line : List UInt8) : List (List UInt8) := lineKey (line.take lineRoom)

/-- The keys that the pieces of one line show. -/
def shownKeys (line : List UInt8) : List (List UInt8) := headKey line ++ strayKeys line

/-- A `#` or a newline is no digit. -/
theorem hexDecode_first {c : UInt8} (hc : hexNibble c = none) {rest : List UInt8}
    (h : rest ≠ []) : hexDecode (c :: rest) = none := by
  cases rest with
  | nil => exact absurd rfl h
  | cons d rest => simp [hexDecode, hc]

/-- Blank and comment lines are skipped because they have no key. -/
theorem parseEntry_pub {line : List UInt8} (h : 0 ∉ line) :
    (parseEntry line).map AgentEntry.pub = entryKey line := by
  have hc : cString line = line := by
    rw [cString, List.takeWhile_eq_self_iff]
    intro c hmem
    have hc : c ≠ 0 := fun h0 => h (h0 ▸ hmem)
    simpa using hc
  simp only [parseEntry, entryKey, hc]
  generalize line.dropWhile isBlank = p
  by_cases hlen : p.length < 64
  · rw [if_neg (by omega : ¬ 64 ≤ p.length)]
    split <;> simp
  · rw [if_pos (by omega : 64 ≤ p.length)]
    have hskip : (p.head? = some 0x23 ∨ p.head? = some newline ∨ p = []) →
        hexDecode (p.take 64) = none := by
      cases p with
      | nil => simp at hlen
      | cons c rest =>
        simp only [List.length_cons] at hlen
        have hrest : rest.take 63 ≠ [] := by
          rw [ne_eq, List.take_eq_nil_iff, not_or]
          exact ⟨by decide, fun hnil => hlen (by simp [hnil])⟩
        rintro (hc | hc | hc)
        · obtain rfl : c = 0x23 := by simpa using hc
          exact hexDecode_first (by decide) hrest
        · obtain rfl : c = newline := by simpa using hc
          exact hexDecode_first (by decide) hrest
        · cases hc
    simp only [hlen, if_false]
    split
    · next hs => rw [hskip hs]; rfl
    · simp [Function.comp_def]

/-- The first piece of a line shows the line's key unless the blanks leave too little room. -/
theorem headKey_eq (l : List UInt8) : headKey l = if indent l ≤ 63 then lineKey l else [] := by
  have hd : (l.take lineRoom).dropWhile isBlank =
      (l.dropWhile isBlank).take (lineRoom - indent l) := dropWhile_take isBlank l lineRoom
  by_cases hn : indent l ≤ 63
  · have hmin : min 64 (lineRoom - indent l) = 64 := by
      simp only [lineRoom]
      omega
    have hlen : 64 ≤ ((l.dropWhile isBlank).take (lineRoom - indent l)).length ↔
        64 ≤ (l.dropWhile isBlank).length := by
      rw [List.length_take]
      simp only [lineRoom]
      omega
    simp only [if_pos hn, headKey, lineKey, entryKey, hd, hlen, List.take_take, hmin]
  · have hlen : ¬ 64 ≤ ((l.dropWhile isBlank).take (lineRoom - indent l)).length := by
      rw [List.length_take]
      simp only [lineRoom]
      omega
    simp only [if_neg hn, headKey, lineKey, entryKey, hd, if_neg hlen, Option.toList_none]

/-- The pieces of the file, taken line by line. -/
theorem pieceKeys_eq (content : List UInt8) :
    (pieces newline lineRoom content).filterMap entryKey =
      (lines newline content).flatMap shownKeys := by
  rw [pieces_eq (by decide), List.filterMap_flatMap]
  refine List.flatMap_congr fun l hl => ?_
  obtain ⟨hne, hnl⟩ := mem_lines hl
  rw [pieces_line (by decide) hne hnl, List.filterMap_cons, shownKeys, headKey, lineKey]
  cases entryKey (l.take lineRoom) <;> rfl

/-- The whitelist holds the first keys that the pieces show. -/
theorem readWhitelist_pubs {content : List UInt8} (h0 : 0 ∉ content) :
    (readWhitelist content).entries.map AgentEntry.pub =
      ((lines newline content).flatMap shownKeys).take whitelistMaxAgents := by
  rw [← pieceKeys_eq]
  show (readEntries (pieces newline lineRoom content) []).map AgentEntry.pub = _
  rw [readEntries_eq (Nat.zero_le _), List.nil_append, List.map_take, List.map_filterMap]
  congr 1
  refine List.filterMap_congr fun piece hp => ?_
  refine parseEntry_pub fun hmem => h0 ?_
  rw [← flatten_pieces newline (show 0 < lineRoom by decide) content]
  exact List.mem_flatten_of_mem hp hmem

/-! ### Which keys are granted -/

/-- The line stands in the file behind the lines `before`. -/
def StandsAt (content : List UInt8) (before : List (List UInt8)) (l : List UInt8) : Prop :=
  ∃ after, lines newline content = before ++ l :: after

/-- Up to the 64th keyed line the buffer does not come between the lines and their keys. -/
structure KeysWhole (content : List UInt8) : Prop where
  /-- No line before the 64th keyed one shows a key from byte 127 on. -/
  inside : ∀ before l, StandsAt content before l →
    (before.flatMap lineKey).length + (lineKey l).length < whitelistMaxAgents → strayKeys l = []
  /-- None of the first 64 keyed lines is indented by more than 63 blanks. -/
  indented : ∀ before l, StandsAt content before l → lineKey l ≠ [] →
    (before.flatMap lineKey).length < whitelistMaxAgents → indent l ≤ 63

/-- All keys that stand in the file: the key of each line, and those that the line shows from byte
    127 on. -/
def fileKeys (content : List UInt8) : List (List UInt8) :=
  (lines newline content).flatMap fun l => lineKey l ++ strayKeys l

/-- A line has at most one key of its own. -/
theorem lineKey_cases (l : List UInt8) : lineKey l = [] ∨ ∃ k, lineKey l = [k] := by
  rw [lineKey]
  cases entryKey l with
  | none => exact Or.inl rfl
  | some k => exact Or.inr ⟨k, rfl⟩

theorem headKey_subset (l : List UInt8) : headKey l ⊆ lineKey l := by
  rw [headKey_eq]
  split
  · exact List.Subset.refl _
  · exact List.nil_subset _

theorem shownKeys_subset (l : List UInt8) : shownKeys l ⊆ lineKey l ++ strayKeys l :=
  List.append_subset.mpr ⟨List.Subset.trans (headKey_subset l) (List.subset_append_left _ _),
    List.subset_append_right _ _⟩

theorem flatMap_shownKeys_subset (ls : List (List UInt8)) :
    ls.flatMap shownKeys ⊆ ls.flatMap fun l => lineKey l ++ strayKeys l := by
  intro k hk
  obtain ⟨l, hl, hkl⟩ := List.mem_flatMap.mp hk
  exact List.mem_flatMap.mpr ⟨l, hl, shownKeys_subset l hkl⟩

theorem flatMap_lineKey_subset (ls : List (List UInt8)) :
    ls.flatMap lineKey ⊆ ls.flatMap fun l => lineKey l ++ strayKeys l := by
  intro k hk
  obtain ⟨l, hl, hkl⟩ := List.mem_flatMap.mp hk
  exact List.mem_flatMap.mpr ⟨l, hl, List.mem_append_left _ hkl⟩

theorem headKey_length (l : List UInt8) : (headKey l).length ≤ (lineKey l).length := by
  rw [headKey_eq]
  split
  · exact le_rfl
  · exact Nat.zero_le _

/-- What it means for the keys of a line that each stands once in the file. -/
structure StandsOnce (content l : List UInt8) : Prop where
  stray : ∀ k ∈ strayKeys l, k ∉ lineKeys content
  lost : ∀ k ∈ lineKey l, headKey l = [] → k ∉ (lines newline content).flatMap shownKeys

theorem StandsOnce.of_nodup {content l : List UInt8} {before after : List (List UInt8)}
    (honce : (fileKeys content).Nodup) (hls : lines newline content = before ++ l :: after) :
    StandsOnce content l := by
  rw [fileKeys, hls, List.flatMap_append, List.flatMap_cons] at honce
  obtain ⟨-, hrest, hbefore⟩ := List.nodup_append'.mp honce
  obtain ⟨hline, -, hafter⟩ := List.nodup_append'.mp hrest
  obtain ⟨-, -, hown⟩ := List.nodup_append'.mp hline
  constructor
  · intro k hk hmem
    have hkl : k ∈ lineKey l ++ strayKeys l := List.mem_append_right _ hk
    rw [lineKeys, hls, List.flatMap_append, List.flatMap_cons, List.mem_append, List.mem_append] at hmem
    rcases hmem with hmem | hmem | hmem
    · exact hbefore (flatMap_lineKey_subset _ hmem) (List.mem_append_left _ hkl)
    · exact hown hmem hk
    · exact hafter hkl (flatMap_lineKey_subset _ hmem)
  · intro k hk hhead hmem
    have hkl : k ∈ lineKey l ++ strayKeys l := List.mem_append_left _ hk
    rw [hls, List.flatMap_append, List.flatMap_cons, List.mem_append, List.mem_append] at hmem
    rcases hmem with hmem | hmem | hmem
    · exact hbefore (flatMap_shownKeys_subset _ hmem) (List.mem_append_left _ hkl)
    · rw [shownKeys, hhead, List.nil_append] at hmem
      exact hown hk hmem
    · exact hafter hkl (flatMap_shownKeys_subset _ hmem)

/-- As long as the buffer does not come in between, the pieces show the keys of the lines. -/
theorem take_shownKeys {ls : List (List UInt8)} {n : ℕ}
    (hinside : ∀ before l after, ls = before ++ l :: after →
      (before.flatMap lineKey).length + (lineKey l).length < n → strayKeys l = [])
    (hindented : ∀ before l after, ls = before ++ l :: after → lineKey l ≠ [] →
      (before.flatMap lineKey).length < n → indent l ≤ 63) :
    (ls.flatMap shownKeys).take n = (ls.flatMap lineKey).take n := by
  induction ls generalizing n with
  | nil => rfl
  | cons l ls ih =>
    rcases Nat.eq_zero_or_pos n with rfl | hn
    · rw [List.take_zero, List.take_zero]
    have hfirst := hinside [] l ls rfl
    have hhead := hindented [] l ls rfl
    simp only [List.flatMap_nil, List.length_nil, Nat.zero_add] at hfirst hhead
    have hrest : (ls.flatMap shownKeys).take (n - (lineKey l).length) =
        (ls.flatMap lineKey).take (n - (lineKey l).length) := by
      refine ih (fun before l' after hls hlt => ?_) (fun before l' after hls hne hlt => ?_)
      · refine hinside (l :: before) l' after (by rw [hls]; rfl) ?_
        rw [List.flatMap_cons, List.length_append]
        omega
      · refine hindented (l :: before) l' after (by rw [hls]; rfl) hne ?_
        rw [List.flatMap_cons, List.length_append]
        omega
    rw [List.flatMap_cons, List.flatMap_cons]
    rcases lineKey_cases l with hnone | ⟨k, hk⟩
    · have hempty : headKey l = [] := List.eq_nil_of_subset_nil (hnone ▸ headKey_subset l)
      rw [hnone] at hfirst hrest ⊢
      rw [shownKeys, hempty, hfirst hn]
      exact hrest
    · have hsame : headKey l = [k] := by
        rw [headKey_eq, if_pos (hhead (by simp [hk]) hn), hk]
      rw [hk] at hfirst hrest ⊢
      obtain ⟨m, rfl⟩ := Nat.exists_eq_succ_of_ne_zero hn.ne'
      rw [shownKeys, hsame]
      rcases Nat.eq_zero_or_pos m with rfl | hm
      · rfl
      · rw [hfirst (by rw [List.length_singleton]; omega)]
        exact congrArg (k :: ·) hrest

theorem KeysWhole.take_eq {content : List UInt8} (h : KeysWhole content) :
    ((lines newline content).flatMap shownKeys).take whitelistMaxAgents =
      (lineKeys content).take whitelistMaxAgents :=
  take_shownKeys (fun before l after hls => h.inside before l ⟨after, hls⟩)
    fun before l after hls => h.indented before l ⟨after, hls⟩

/-- Where every key stands once, a line whose key the buffer adds or hides shows in the table. -/
theorem KeysWhole.of_once {content : List UInt8} (honce : (fileKeys content).Nodup)
    (h : ∀ k, k ∈ ((lines newline content).flatMap shownKeys).take whitelistMaxAgents ↔
      k ∈ (lineKeys content).take whitelistMaxAgents) : KeysWhole content := by
  -- line by line: what is before the line is whole already
  suffices hall : ∀ before l after, lines newline content = before ++ l :: after →
      ((before.flatMap lineKey).length + (lineKey l).length < whitelistMaxAgents →
        strayKeys l = []) ∧
      (lineKey l ≠ [] → (before.flatMap lineKey).length < whitelistMaxAgents → indent l ≤ 63) from
    ⟨fun before l ⟨after, hls⟩ => (hall before l after hls).1,
      fun before l ⟨after, hls⟩ => (hall before l after hls).2⟩
  intro before
  induction hlen : before.length using Nat.strong_induction_on generalizing before with
  | _ n ih =>
    intro l after hls
    have hsame : (before.flatMap lineKey).length < whitelistMaxAgents →
        before.flatMap shownKeys = before.flatMap lineKey := by
      intro hlt
      have hprev : ∀ b l' a, before = b ++ l' :: a → b.length < n ∧
          lines newline content = b ++ l' :: (a ++ l :: after) := fun b l' a hb => by
        refine ⟨?_, by rw [hls, hb]; simp⟩
        rw [← hlen, hb, List.length_append, List.length_cons]
        omega
      refine eq_of_take_eq ?_ hlt
      exact take_shownKeys
        (fun b l' a hb => (ih _ (hprev b l' a hb).1 b rfl l' _ (hprev b l' a hb).2).1)
        (fun b l' a hb => (ih _ (hprev b l' a hb).1 b rfl l' _ (hprev b l' a hb).2).2)
    have hkeys := StandsOnce.of_nodup honce hls
    constructor
    · intro hlt
      by_contra hstray
      obtain ⟨k, rest, hk⟩ := List.exists_cons_of_ne_nil hstray
      have hmem : k ∈ strayKeys l := by simp [hk]
      have hshown : k ∈ ((lines newline content).flatMap shownKeys).take whitelistMaxAgents := by
        refine mem_take_iff.mpr ⟨before.flatMap shownKeys ++ headKey l,
          rest ++ after.flatMap shownKeys, ?_, ?_⟩
        · simp [hls, shownKeys, hk]
        · have hhead := headKey_length l
          rw [List.length_append, hsame (by omega)]
          omega
      exact hkeys.stray k hmem (List.mem_of_mem_take ((h k).mp hshown))
    · intro hkey hlt
      by_contra hindent
      obtain ⟨k, hk⟩ := (lineKey_cases l).resolve_left hkey
      have hmem : k ∈ lineKey l := by simp [hk]
      have hlisted : k ∈ (lineKeys content).take whitelistMaxAgents :=
        mem_take_iff.mpr ⟨before.flatMap lineKey, after.flatMap lineKey, by simp [lineKeys, hls, hk], hlt⟩
      refine hkeys.lost k hmem ?_ (List.mem_of_mem_take ((h k).mpr hlisted))
      rw [headKey_eq, if_neg hindent]

/-- Lines that fit the buffer are whole. -/
theorem keysWhole_short {content : List UInt8}
    (h : ∀ l ∈ lines newline content, l.length ≤ lineRoom) : KeysWhole content := by
  refine ⟨?_, ?_⟩
  · rintro before l ⟨after, hls⟩ -
    have hl : l ∈ lines newline content := by simp [hls]
    rw [strayKeys, List.drop_eq_nil_of_le (h l hl), pieces_nil]
    rfl
  · rintro before l ⟨after, hls⟩ hkey -
    have hl : l ∈ lines newline content := by simp [hls]
    have hroom := h l hl
    rcases Nat.lt_or_ge (l.dropWhile isBlank).length 64 with hshort | hlong
    · rw [lineKey, entryKey, if_neg (not_le.mpr hshort)] at hkey
      exact absurd rfl hkey
    · have hsplit := congrArg List.length (List.takeWhile_append_dropWhile (p := isBlank) (l := l))
      rw [List.length_append] at hsplit
      rw [indent]
      simp only [lineRoom] at hroom
      omega

theorem whitelistCheck_readWhitelist {content : List UInt8} (h0 : 0 ∉ content) (k : List UInt8) :
    whitelistCheck (readWhitelist content) k = true ↔
      k ∈ ((lines newline content).flatMap shownKeys).take whitelistMaxAgents := by
  rw [whitelistCheck_iff, ← readWhitelist_pubs h0, List.mem_map]

/-- The keys granted from the file are those of its first 64 keyed lines. -/
def GrantsKeyedLines (content : List UInt8) : Prop :=
  ∀ (wl : Whitelist) (write : Bool) (written : ℕ) (k : List UInt8),
    whitelistCheck (whitelistLoad ⟨true, write, written⟩ ⟨some content, wl⟩).wl k = true ↔
      k ∈ (lineKeys content).take whitelistMaxAgents

theorem grantsKeyedLines_iff {content : List UInt8} (h0 : 0 ∉ content) :
    GrantsKeyedLines content ↔
      ∀ k, k ∈ ((lines newline content).flatMap shownKeys).take whitelistMaxAgents ↔
        k ∈ (lineKeys content).take whitelistMaxAgents := by
  have hload : ∀ (wl : Whitelist) (write : Bool) (written : ℕ),
      (whitelistLoad ⟨true, write, written⟩ ⟨some content, wl⟩).wl = readWhitelist content :=
    fun _ _ _ => rfl
  constructor
  · intro h k
    rw [← whitelistCheck_readWhitelist h0]
    exact h .empty true 0 k
  · intro h wl write written k
    rw [hload, whitelistCheck_readWhitelist h0]
    exact h k

/-- CORRECT: the keys granted from a file are those of its first 64 keyed lines when the buffer does
    not come in between, and, where no key stands twice in the file, only then. -/
theorem whitelistLoad_grants_iff {content : List UInt8} (h0 : 0 ∉ content) :
    (KeysWhole content → GrantsKeyedLines content) ∧
      ((fileKeys content).Nodup → (GrantsKeyedLines content ↔ KeysWhole content)) := by
  have henough : KeysWhole content → GrantsKeyedLines content := fun h => by
    rw [grantsKeyedLines_iff h0]
    intro k
    rw [h.take_eq]
  exact ⟨henough, fun honce => ⟨fun h => .of_once honce ((grantsKeyedLines_iff h0).mp h), henough⟩⟩

/-- One entry with a label, then a comment. -/
def smallFile : List UInt8 :=
  List.replicate 64 0x61 ++ bytesOf "  my-agent\n# revoked: none\n"

theorem whitelistLoad_grants_smallFile : 0 ∉ smallFile ∧ GrantsKeyedLines smallFile := by
  have h0 : 0 ∉ smallFile := by decide +kernel
  have hshort : ∀ l ∈ lines newline smallFile, l.length ≤ lineRoom := by decide +kernel
  exact ⟨h0, (whitelistLoad_grants_iff h0).1 (keysWhole_short hshort)⟩

/-- A comment of 127 bytes that goes on with 64 digits. -/
def longComment : List UInt8 :=
  0x23 :: List.replicate 126 0x2D ++ List.replicate 64 0x30 ++ [newline]

/-- The key in the comment is granted, and no line of the file is an entry. -/
theorem whitelistLoad_grants_comment : 0 ∉ longComment ∧
    whitelistCheck (whitelistLoad ⟨true, true, 0⟩ ⟨some longComment, .empty⟩).wl
      (List.replicate 32 0) = true ∧
    List.replicate 32 0 ∉ (lineKeys longComment).take whitelistMaxAgents := by
  decide +kernel

/-! ### A file that does not open for reading -/

/-- CORRECT: a reload that cannot read the file denies every agent. -/
theorem whitelistLoad_failed_denies (write : Bool) (written : ℕ) (s : Agents) (k : List UInt8) :
    whitelistCheck (whitelistLoad ⟨false, write, written⟩ s).wl k = false := by
  have hwl : (whitelistLoad ⟨false, write, written⟩ s).wl = .empty := by
    cases hf : s.file <;> cases write <;> simp [whitelistLoad, hf]
  rw [hwl]
  rfl

/-- CORRECT (exact): a failed reload leaves file and table as they were when, and only when, the
    table was empty and the file either does not open for writing or is what gets written. -/
theorem whitelistLoad_failed_iff (content : List UInt8) (wl : Whitelist) (write : Bool)
    (written : ℕ) :
    whitelistLoad ⟨false, write, written⟩ ⟨some content, wl⟩ = ⟨some content, wl⟩ ↔
      wl.entries = [] ∧ (write = false ∨ content = whitelistTemplate.take written) := by
  have hempty : Whitelist.empty = wl ↔ wl.entries = [] := by
    cases wl
    simp [Whitelist.empty, eq_comm]
  cases write with
  | false => simp [whitelistLoad, hempty]
  | true =>
    have hfile : whitelistTemplate.take written = content ↔
        content = whitelistTemplate.take written := eq_comm
    simp [whitelistLoad, hempty, hfile, and_comm]

/-- A reload with the descriptors used up, one of them free again at the second open: the list of
    the administrator is gone and the agent is locked out. -/
theorem whitelistLoad_failed_destroys :
    whitelistLoad ⟨false, true, whitelistTemplate.length⟩ ⟨some smallFile, readWhitelist smallFile⟩ ≠
      ⟨some smallFile, readWhitelist smallFile⟩ ∧
    whitelistCheck (readWhitelist smallFile) (List.replicate 32 0xAA) = true := by
  refine ⟨fun h => ?_, by decide +kernel⟩
  have hfile := congrArg Agents.file h
  have hhead : (whitelistTemplate.take whitelistTemplate.length).head? ≠ smallFile.head? := by
    decide +kernel
  exact hhead (congrArg List.head? (Option.some.inj hfile))

end Asys
