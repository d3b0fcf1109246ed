/-
  THE MODS REPORT — what the guest says about the mods of a boot, as lines and as a value.

  cfgd sends a report as lines: `mods off`, `mods pending`, or one `mod` line for each mod between
  `mods begin` and `mods end`.  A `mod` line that reads as an outcome is kept as the outcome; one
  that only names a mod is kept as it stands; the rest is dropped, and so is whatever is too long or
  too much.

  A report is written back with its outcomes first and its unread lines after them.  The round trip
  holds because writing is a fixed point of reading, line by line: an outcome's line reads as that
  outcome, an unread line reads as itself, and neither is longer than what was read, nor are there
  more of them.
-/
import CdjEmu.Lib.Chars

namespace CdjEmu.Runtime

/-! ## Outcomes -/

/-- How the mod's `loader.sh` ended. -/
inductive Script where
  | exit (rc : Int)
  /-- Stopped at the 60 s cap. -/
  | timeout
  /-- The mod has no `loader.sh`. -/
  | missing
  deriving DecidableEq

/-- What one mod came to in the guest. -/
structure ModOutcome where
  name : Chars
  script : Script
  libs : Nat
  deriving DecidableEq

/-- Names that Windows treats as devices. -/
def deviceNames : List Chars :=
  ["con", "prn", "aux", "nul", "com1", "com2", "com3", "com4", "com5", "com6", "com7", "com8",
    "com9", "lpt1", "lpt2", "lpt3", "lpt4", "lpt5", "lpt6", "lpt7", "lpt8", "lpt9"].map chars

/-- `is_ascii_lowercase` or `is_ascii_digit`. -/
def lowerOrDigit (c : Char) : Bool := c.isLower || c.isDigit

/-- Whether `name` is a valid mod name. -/
def validName (name : Chars) : Bool :=
  Chars.utf8Len name ≤ 48 && name.head?.any lowerOrDigit &&
    name.all (fun c => lowerOrDigit c || c == '.' || c == '_' || c == '-') &&
    name.getLast? != some '.' && !deviceNames.contains (name.takeWhile (· ≠ '.'))

/-- `Script::parse`. -/
def Script.parse (script : Chars) : Option Script :=
  if script = chars "timeout" then some .timeout
  else if script = chars "none" then some .missing
  else (Chars.parseI32 script).map .exit

/-- `mod <name> script <rc|timeout|none> libs <n>`, without the leading `mod `. -/
def ModOutcome.parse (rest : Chars) : Option ModOutcome :=
  match Chars.splitWhitespace rest with
  | [name, s, script, l, libs] =>
    if s = chars "script" ∧ l = chars "libs" ∧ validName name then do
      let script ← Script.parse script
      let libs ← Chars.parseUnsigned (2 ^ 32) libs
      return ⟨name, script, libs⟩
    else none
  | _ => none

/-- And as it is written. -/
def Script.text : Script → Chars
  | .exit rc => Chars.ofInt rc
  | .timeout => chars "timeout"
  | .missing => chars "none"

/-- What `ModOutcome::line` writes after `mod `. -/
def ModOutcome.rest (o : ModOutcome) : Chars :=
  o.name ++ chars " script " ++ o.script.text ++ chars " libs " ++ Chars.ofNat o.libs

/-- The `mod …` line of an outcome. -/
def ModOutcome.line (o : ModOutcome) : Chars := chars "mod " ++ o.rest

/-! ## Reports -/

/-- A `mod` line that names a valid mod but cannot be parsed as an outcome. -/
structure Unread where
  name : Chars
  line : Chars
  deriving DecidableEq

/-- What the guest reported about this boot's mods. -/
inductive ModsReport where
  | unknown
  | off
  | pending
  | done (outcomes : List ModOutcome) (unread : List Unread)
  deriving DecidableEq

/-- The `mod` lines received between `mods begin` and `mods end`. -/
structure Partial where
  outcomes : List ModOutcome
  unread : List Unread
  deriving DecidableEq

/-- The maximum number of `mod` lines in a report. -/
def maxLines : Nat := 256

/-- The maximum length of a `mod` line, in bytes. -/
def lineMax : Nat := 1024

/-- `Partial::default`. -/
def Partial.empty : Partial := ⟨[], []⟩

/-- Add `rest`, a `mod` line without its leading `mod `; `none` when it is dropped. -/
def Partial.push (p : Partial) (rest : Chars) : Option Partial :=
  if p.outcomes.length + p.unread.length ≥ maxLines ∨ Chars.utf8Len rest > lineMax then none
  else
    match ModOutcome.parse rest with
    | some outcome => some { p with outcomes := p.outcomes ++ [outcome] }
    | none =>
      match (Chars.splitWhitespace rest).head?.filter validName with
      | some name => some { p with unread := p.unread ++ [⟨name, Chars.trim rest⟩] }
      | none => none

/-- The report is complete. -/
def Partial.done (p : Partial) : ModsReport := .done p.outcomes p.unread

/-- The report as the lines cfgd sends. -/
def ModsReport.lines : ModsReport → List Chars
  | .unknown => []
  | .off => [chars "mods off"]
  | .pending => [chars "mods pending"]
  | .done outcomes unread =>
    [chars "mods begin"] ++ outcomes.map ModOutcome.line ++ unread.map (chars "mod " ++ ·.line) ++
      [chars "mods end"]

/-- A report being read: the last one, and the one that has begun. -/
structure Reading where
  report : ModsReport
  begun : Option Partial

/-- Nothing has been read. -/
def Reading.fresh : Reading := ⟨.unknown, none⟩

/-- One line of `from_lines`. -/
def Reading.line (r : Reading) (line : Chars) : Reading :=
  let line := Chars.trim line
  if line = chars "mods off" then { r with report := .off }
  else if line = chars "mods pending" then { r with report := .pending }
  else if line = chars "mods begin" then { r with begun := some .empty }
  else if line = chars "mods end" then
    match r.begun with
    | some p => ⟨p.done, none⟩
    | none => r
  else
    match Chars.strip (chars "mod ") line, r.begun with
    | some rest, some p => { r with begun := some ((p.push rest).getD p) }
    | _, _ => r

/-- Several lines, one after the other. -/
def Reading.lines (r : Reading) (lines : List Chars) : Reading := lines.foldl Reading.line r

/-- Parse lines written by `lines`. -/
def ModsReport.fromLines (lines : List Chars) : ModsReport := (Reading.fresh.lines lines).report

/-! ## An outcome's line reads as the outcome -/

/-- A name has no blanks and is ASCII. -/
theorem validName_char {name : Chars} (h : validName name = true) {c : Char} (hc : c ∈ name) :
    c.toNat < 0x80 ∧ Chars.isWhitespace c = false := by
  simp only [validName, Bool.and_eq_true, List.all_eq_true] at h
  have hchar := h.1.1.2 c hc
  simp only [lowerOrDigit, Char.isLower, Char.isDigit, Bool.or_eq_true, Bool.and_eq_true,
    decide_eq_true_eq, beq_iff_eq, UInt32.le_iff_toNat_le, ge_iff_le] at hchar
  rcases hchar with (((⟨hlo, hhi⟩ | hdigit) | rfl) | rfl) | rfl
  · have h1 : 97 ≤ c.toNat := hlo
    have h2 : c.toNat ≤ 122 := hhi
    refine ⟨by omega, ?_⟩
    simp only [Chars.isWhitespace, List.contains_eq_mem, List.mem_cons, List.not_mem_nil,
      Bool.or_eq_false_iff, Bool.and_eq_false_iff, decide_eq_false_iff_not, or_false]
    omega
  · have h1 : 48 ≤ c.toNat := hdigit.1
    have h2 : c.toNat ≤ 57 := hdigit.2
    refine ⟨by omega, Chars.not_whitespace_of_isDigit ?_⟩
    simp only [Char.isDigit, Bool.and_eq_true, decide_eq_true_eq, UInt32.le_iff_toNat_le, ge_iff_le]
    exact hdigit
  all_goals decide

/-- It is not empty. -/
theorem validName_ne_nil {name : Chars} (h : validName name = true) : name ≠ [] := by
  rintro rfl
  exact absurd h (by decide)

/-- It has at most 48 octets. -/
theorem length_of_validName {name : Chars} (h : validName name = true) :
    Chars.utf8Len name ≤ 48 := by
  simp only [validName, Bool.and_eq_true, decide_eq_true_eq] at h
  exact h.1.1.1.1

/-- The values `rc` can have as an `i32`. -/
def Script.InRange : Script → Prop
  | .exit rc => -(2 ^ 31) ≤ rc ∧ rc < 2 ^ 31
  | _ => True

/-- What parsing makes sure of. -/
structure ModOutcome.Parsed (o : ModOutcome) : Prop where
  name : validName o.name = true
  script : o.script.InRange
  libs : o.libs < 2 ^ 32

/-- A number that was read is within its bound. -/
theorem parseUnsigned_lt {bound n : Nat} {s : Chars} (h : Chars.parseUnsigned bound s = some n) :
    n < bound := by
  rw [Chars.parseUnsigned, Option.filter_eq_some_iff] at h
  simpa using h.2

theorem parseI32_range {s : Chars} {i : Int} (h : Chars.parseI32 s = some i) :
    -(2 ^ 31) ≤ i ∧ i < 2 ^ 31 := by
  unfold Chars.parseI32 at h
  split at h
  · rename_i digits
    obtain ⟨n, -, hn⟩ := Option.bind_eq_some_iff.mp h
    split at hn
    · cases hn
      omega
    · cases hn
  · obtain ⟨n, hn, rfl⟩ := Option.map_eq_some_iff.mp h
    have hlt := parseUnsigned_lt hn
    omega

/-- The script that was read has a status of 32 bits. -/
theorem Script.parse_inRange {text : Chars} {script : Script}
    (h : Script.parse text = some script) :
    script.InRange := by
  unfold Script.parse at h
  split at h
  · cases h
    trivial
  · split at h
    · cases h
      trivial
    · obtain ⟨rc, hrc, rfl⟩ := Option.map_eq_some_iff.mp h
      exact parseI32_range hrc

/-- An outcome that was read is one that a line can hold. -/
theorem ModOutcome.parsed_of_parse {rest : Chars} {o : ModOutcome}
    (h : ModOutcome.parse rest = some o) :
    o.Parsed := by
  unfold ModOutcome.parse at h
  split at h
  · split at h
    · rename_i hshape
      obtain ⟨script, hscript, h⟩ := Option.bind_eq_some_iff.mp h
      obtain ⟨libs, hlibs, h⟩ := Option.bind_eq_some_iff.mp h
      cases h
      exact ⟨hshape.2.2, Script.parse_inRange hscript, parseUnsigned_lt hlibs⟩
    · cases h
  · cases h

/-- A number has a sign and digits. -/
theorem ofInt_char {i : Int} {c : Char} (h : c ∈ Chars.ofInt i) : c = '-' ∨ c.isDigit = true := by
  cases i with
  | ofNat n => exact .inr (Chars.isDigit_of_mem_ofNat h)
  | negSucc n =>
    rcases List.mem_cons.mp h with rfl | hmem
    · exact .inl rfl
    · exact .inr (Chars.isDigit_of_mem_ofNat hmem)

theorem ofInt_ne_nil (i : Int) : Chars.ofInt i ≠ [] := by
  cases i with
  | ofNat n => exact Chars.ofNat_ne_nil n
  | negSucc n => exact List.cons_ne_nil _ _

/-- A number is none of the words. -/
theorem ofInt_ne_word {i : Int} {w : Chars} (hw : 't' ∈ w ∨ 'n' ∈ w) : Chars.ofInt i ≠ w := by
  rintro rfl
  rcases hw with ht | hn
  · exact absurd (ofInt_char ht) (by decide)
  · exact absurd (ofInt_char hn) (by decide)

/-- A script's text has no blanks and is ASCII. -/
theorem Script.text_char {script : Script} {c : Char} (hc : c ∈ script.text) :
    c.toNat < 0x80 ∧ Chars.isWhitespace c = false := by
  cases script with
  | exit rc =>
    rcases ofInt_char hc with rfl | hd
    · decide
    · refine ⟨?_, Chars.not_whitespace_of_isDigit hd⟩
      simp only [Char.isDigit, Bool.and_eq_true, decide_eq_true_eq, UInt32.le_iff_toNat_le,
        ge_iff_le] at hd
      have : c.toNat ≤ 57 := hd.2
      omega
  | timeout =>
    have hall : ∀ c ∈ chars "timeout", c.toNat < 0x80 ∧ Chars.isWhitespace c = false := by
      simp [chars, Chars.isWhitespace]
    exact hall c hc
  | missing =>
    have hall : ∀ c ∈ chars "none", c.toNat < 0x80 ∧ Chars.isWhitespace c = false := by
      simp [chars, Chars.isWhitespace]
    exact hall c hc

theorem Script.text_ne_nil (script : Script) : script.text ≠ [] := by
  cases script with
  | exit rc => exact ofInt_ne_nil rc
  | timeout | missing => decide

/-- A script that is written is read. -/
theorem Script.parse_text {script : Script} (h : script.InRange) :
    Script.parse script.text = some script := by
  cases script with
  | exit rc =>
    have ht : Chars.ofInt rc ≠ chars "timeout" := ofInt_ne_word (.inl (by decide))
    have hn : Chars.ofInt rc ≠ chars "none" := ofInt_ne_word (.inr (by decide))
    rw [Script.parse, Script.text, if_neg ht, if_neg hn, Chars.parseI32_ofInt h.1 h.2]
    rfl
  | timeout => decide
  | missing => decide

/-- The words of an outcome's line. -/
theorem ModOutcome.splitWhitespace_rest {o : ModOutcome} (h : validName o.name = true) :
    Chars.splitWhitespace o.rest =
      [o.name, chars "script", o.script.text, chars "libs", Chars.ofNat o.libs] := by
  have hspace : Chars.isWhitespace ' ' = true := by decide
  have hshape : o.rest = o.name ++ ' ' :: (chars "script" ++ ' ' :: (o.script.text ++ ' ' ::
      (chars "libs" ++ ' ' :: Chars.ofNat o.libs))) := by
    have hscript : chars " script " = ' ' :: (chars "script" ++ [' ']) := by decide
    have hlibs : chars " libs " = ' ' :: (chars "libs" ++ [' ']) := by decide
    rw [ModOutcome.rest, hscript, hlibs]
    simp
  rw [hshape, Chars.splitWhitespace_word_cons (validName_ne_nil h)
    (fun c hc => (validName_char h hc).2) hspace, Chars.splitWhitespace_word_cons (by decide)
      (by simp [chars, Chars.isWhitespace]) hspace,
    Chars.splitWhitespace_word_cons o.script.text_ne_nil
      (fun c hc => (Script.text_char hc).2) hspace,
    Chars.splitWhitespace_word_cons (by decide) (by simp [chars, Chars.isWhitespace]) hspace,
    Chars.splitWhitespace_word (Chars.ofNat_ne_nil _)
      (fun c hc => Chars.not_whitespace_of_isDigit (Chars.isDigit_of_mem_ofNat hc))]

/-- So an outcome that is written is read. -/
theorem ModOutcome.parse_rest {o : ModOutcome} (h : o.Parsed) :
    ModOutcome.parse o.rest = some o := by
  rw [ModOutcome.parse, ModOutcome.splitWhitespace_rest h.name]
  dsimp only
  rw [if_pos ⟨rfl, rfl, h.name⟩, Script.parse_text h.script, Chars.parseUnsigned_ofNat h.libs]
  rfl

/-- What an outcome writes fits a line. -/
theorem ModOutcome.utf8Len_rest_le {o : ModOutcome} (h : o.Parsed) :
    Chars.utf8Len o.rest ≤ lineMax := by
  have hname := length_of_validName h.name
  have hlibs : Chars.utf8Len (Chars.ofNat o.libs) ≤ 10 := by
    rw [Chars.utf8Len_of_ascii fun c hc => (Chars.ascii_of_isDigit (Chars.isDigit_of_mem_ofNat hc))]
    exact Chars.length_ofNat_le (by omega) (by have := h.libs; omega)
  have hscript : Chars.utf8Len o.script.text ≤ 11 := by
    rw [Chars.utf8Len_of_ascii fun c hc => (Script.text_char hc).1]
    have hrange := h.script
    cases hs : o.script with
    | exit rc =>
      rw [hs] at hrange
      have hr : -(2 ^ 31) ≤ rc ∧ rc < 2 ^ 31 := hrange
      cases rc with
      | ofNat n =>
        have hn : n < 10 ^ 10 := by have : (n : Int) < 2 ^ 31 := hr.2; omega
        exact (Chars.length_ofNat_le (by omega) hn).trans (by omega)
      | negSucc n =>
        have hn : n + 1 < 10 ^ 10 := by have : -(2 ^ 31) ≤ Int.negSucc n := hr.1; omega
        exact Nat.succ_le_succ (Chars.length_ofNat_le (by omega) hn)
    | timeout | missing => decide
  have h1 : Chars.utf8Len (chars " script ") = 8 := by decide
  have h2 : Chars.utf8Len (chars " libs ") = 6 := by decide
  simp only [ModOutcome.rest, Chars.utf8Len_append, h1, h2, lineMax]
  omega

/-! ## Reading one line -/

/-- What is kept of an unread line. -/
structure Unread.Kept (u : Unread) : Prop where
  unparsed : ModOutcome.parse u.line = none
  name : (Chars.splitWhitespace u.line).head?.filter validName = some u.name
  trimmed : Chars.trim u.line = u.line
  short : Chars.utf8Len u.line ≤ lineMax

/-- A line that could not be read is not empty. -/
theorem Unread.Kept.line_ne_nil {u : Unread} (h : u.Kept) : u.line ≠ [] := by
  intro hnil
  have hname := h.name
  rw [hnil] at hname
  cases hname

/-- Parsing and naming a line look at its words only. -/
theorem ModOutcome.parse_trim (rest : Chars) :
    ModOutcome.parse (Chars.trim rest) = ModOutcome.parse rest := by
  unfold ModOutcome.parse
  rw [Chars.splitWhitespace_trim]

/-- What a partial report holds is what was parsed and kept, and there is not too much of it. -/
structure Partial.Ok (p : Partial) : Prop where
  outcomes : ∀ o ∈ p.outcomes, o.Parsed
  unread : ∀ u ∈ p.unread, u.Kept
  count : p.outcomes.length + p.unread.length ≤ maxLines

/-- Nothing has been collected. -/
theorem Partial.ok_empty : Partial.empty.Ok := by
  constructor <;> simp [Partial.empty]

/-- Whatever a line says, what is collected stays within its bounds. -/
theorem Partial.Ok.push {p q : Partial} {rest : Chars} (h : p.Ok) (hq : p.push rest = some q) :
    q.Ok := by
  unfold Partial.push at hq
  split at hq
  · cases hq
  · rename_i hroom
    have hcount : p.outcomes.length + p.unread.length < maxLines := by omega
    have hshort : Chars.utf8Len rest ≤ lineMax := by omega
    cases hparse : ModOutcome.parse rest with
    | some o =>
      rw [hparse] at hq
      cases hq
      refine ⟨fun o' ho => ?_, h.unread, ?_⟩
      · rcases List.mem_append.mp ho with hold | hnew
        · exact h.outcomes o' hold
        · obtain rfl : o' = o := by simpa using hnew
          exact ModOutcome.parsed_of_parse hparse
      · simp only [List.length_append, List.length_singleton]
        omega
    | none =>
      rw [hparse] at hq
      dsimp only at hq
      split at hq
      · rename_i name hname
        cases hq
        refine ⟨h.outcomes, fun u hu => ?_, ?_⟩
        · rcases List.mem_append.mp hu with hold | hnew
          · exact h.unread u hold
          · obtain rfl : u = ⟨name, Chars.trim rest⟩ := by simpa using hnew
            exact ⟨by rw [ModOutcome.parse_trim, hparse], by rw [Chars.splitWhitespace_trim, hname],
              Chars.trim_trim rest, (Chars.utf8Len_trim_le rest).trans hshort⟩
        · simp only [List.length_append, List.length_singleton]
          omega
      · cases hq

/-- An outcome's line adds that outcome, as long as there is room. -/
theorem Partial.push_outcome {p : Partial} {o : ModOutcome} (ho : o.Parsed)
    (hroom : p.outcomes.length + p.unread.length < maxLines) :
    p.push o.rest = some { p with outcomes := p.outcomes ++ [o] } := by
  have hlen := ModOutcome.utf8Len_rest_le ho
  rw [Partial.push, if_neg (by omega), ModOutcome.parse_rest ho]

/-- A line that cannot be read is kept as it is. -/
theorem Partial.push_unread {p : Partial} {u : Unread} (hu : u.Kept)
    (hroom : p.outcomes.length + p.unread.length < maxLines) :
    p.push u.line = some { p with unread := p.unread ++ [u] } := by
  have hlen := hu.short
  rw [Partial.push, if_neg (by omega), hu.unparsed]
  dsimp only
  rw [hu.name, hu.trimmed]

/-! ## Reading all of them -/

/-- A report that lines can give. -/
def ModsReport.Ok : ModsReport → Prop
  | .done outcomes unread => Partial.Ok ⟨outcomes, unread⟩
  | _ => True

/-- Everything that was read, and is being read, is within its bounds. -/
structure Reading.Ok (r : Reading) : Prop where
  report : r.report.Ok
  begun : ∀ p, r.begun = some p → p.Ok

/-- One more line keeps it so. -/
theorem Reading.Ok.line {r : Reading} (h : r.Ok) (line : Chars) : (r.line line).Ok := by
  unfold Reading.line
  dsimp only
  split
  · exact ⟨trivial, h.begun⟩
  · split
    · exact ⟨trivial, h.begun⟩
    · split
      · refine ⟨h.report, fun p hp => ?_⟩
        cases hp
        exact Partial.ok_empty
      · split
        · split
          · rename_i p hp
            exact ⟨h.begun p hp, fun _ hnone => (by cases hnone)⟩
          · exact h
        · split
          · rename_i rest p _ hp
            refine ⟨h.report, fun q hq => ?_⟩
            cases hq
            cases hpush : p.push rest with
            | none => exact h.begun p hp
            | some q => exact (h.begun p hp).push hpush
          · exact h

theorem Reading.Ok.lines {r : Reading} (h : r.Ok) (lines : List Chars) : (r.lines lines).Ok := by
  induction lines generalizing r with
  | nil => exact h
  | cons line lines ih => exact ih (h.line line)

/-- Every report that is read can be written back. -/
theorem ModsReport.ok_fromLines (lines : List Chars) : (ModsReport.fromLines lines).Ok :=
  (Reading.Ok.lines (r := Reading.fresh) ⟨trivial, fun _ hp => (by cases hp)⟩ lines).report

/-! ## Writing and reading back -/

/-- A `mod` line adds to the report that has begun. -/
theorem Reading.line_of_mod (r : Reading) {line rest : Chars}
    (h : Chars.trim line = chars "mod " ++ rest) :
    r.line line = { r with begun := r.begun.map fun p => (p.push rest).getD p } := by
  have hnone : ∀ w ∈ [chars "mods off", chars "mods pending", chars "mods begin", chars "mods end"],
      chars "mod " ++ rest ≠ w := by
    intro w hw heq
    have hfour : w.take 4 = chars "mod " := by
      rw [← heq]
      exact List.take_left' (by decide)
    have hlit : ∀ w ∈
        [chars "mods off", chars "mods pending", chars "mods begin", chars "mods end"],
        w.take 4 ≠ chars "mod " := by decide
    exact hlit w hw hfour
  unfold Reading.line
  dsimp only
  rw [h, if_neg (hnone _ (by simp)), if_neg (hnone _ (by simp)), if_neg (hnone _ (by simp)),
    if_neg (hnone _ (by simp)), Chars.strip_append]
  obtain ⟨report, begun⟩ := r
  cases begun <;> rfl

/-- The line `mod` and `rest`, which does not end in white space. -/
theorem Reading.line_mod (report : ModsReport) (p : Partial) {rest : Chars} (hne : rest ≠ [])
    (htrim : Chars.trimEnd rest = rest) :
    (Reading.mk report (some p)).line (chars "mod " ++ rest) =
      ⟨report, some ((p.push rest).getD p)⟩ :=
  Reading.line_of_mod _ (Chars.trim_append (by decide) (by decide) hne htrim)

/-- An outcome's line loses nothing when it is trimmed. -/
theorem ModOutcome.rest_ends (o : ModOutcome) : o.rest ≠ [] ∧ Chars.trimEnd o.rest = o.rest := by
  have hne : Chars.ofNat o.libs ≠ [] := Chars.ofNat_ne_nil _
  have hrest : o.rest ≠ [] := by simp [ModOutcome.rest, hne]
  refine ⟨hrest, ?_⟩
  rw [Chars.trimEnd, List.rdropWhile_eq_self_iff]
  intro hl
  have hlast : o.rest.getLast hl = (Chars.ofNat o.libs).getLast hne :=
    List.getLast_append_of_ne_nil _ hne
  rw [hlast]
  have hdigit : ((Chars.ofNat o.libs).getLast hne).isDigit = true :=
    Chars.isDigit_of_mem_ofNat (List.getLast_mem hne)
  simp [Chars.not_whitespace_of_isDigit hdigit]

/-- The lines of several outcomes add them in order. -/
theorem Reading.lines_outcomes (report : ModsReport) {os : List ModOutcome}
    (hos : ∀ o ∈ os, o.Parsed) :
    ∀ {p : Partial}, p.outcomes.length + p.unread.length + os.length ≤ maxLines →
      (Reading.mk report (some p)).lines (os.map ModOutcome.line) =
        ⟨report, some { p with outcomes := p.outcomes ++ os }⟩ := by
  induction os with
  | nil => simp [Reading.lines]
  | cons o os ih =>
    intro p hroom
    simp only [List.length_cons] at hroom
    have ho := hos o (by simp)
    have hrest := o.rest_ends
    show (Reading.line _ (chars "mod " ++ o.rest)).lines _ = _
    rw [Reading.line_mod report p hrest.1 hrest.2, Partial.push_outcome ho (by omega),
      Option.getD_some, ih (fun o' ho' => hos o' (List.mem_cons_of_mem o ho'))
        (by simp only [List.length_append, List.length_singleton]; omega)]
    simp

/-- The lines kept as they are likewise. -/
theorem Reading.lines_unread (report : ModsReport) {us : List Unread} (hus : ∀ u ∈ us, u.Kept) :
    ∀ {p : Partial}, p.outcomes.length + p.unread.length + us.length ≤ maxLines →
      (Reading.mk report (some p)).lines (us.map (chars "mod " ++ ·.line)) =
        ⟨report, some { p with unread := p.unread ++ us }⟩ := by
  induction us with
  | nil => simp [Reading.lines]
  | cons u us ih =>
    intro p hroom
    simp only [List.length_cons] at hroom
    have hu := hus u (by simp)
    have htrim : Chars.trimEnd u.line = u.line := by
      rw [← hu.trimmed]
      exact Chars.trimEnd_trim u.line
    show (Reading.line _ (chars "mod " ++ u.line)).lines _ = _
    rw [Reading.line_mod report p hu.line_ne_nil htrim, Partial.push_unread hu (by omega),
      Option.getD_some, ih (fun u' hu' => hus u' (List.mem_cons_of_mem u hu'))
        (by simp only [List.length_append, List.length_singleton]; omega)]
    simp

theorem Reading.lines_append (r : Reading) (a b : List Chars) :
    r.lines (a ++ b) = (r.lines a).lines b :=
  List.foldl_append

/-- What is written is read back. -/
theorem ModsReport.fromLines_lines {report : ModsReport} (h : report.Ok) :
    ModsReport.fromLines report.lines = report := by
  cases report with
  | unknown => rfl
  | off => decide
  | pending => decide
  | done outcomes unread =>
    have hcount := h.count
    dsimp only at hcount
    have hbegin : Reading.fresh.lines [chars "mods begin"] = ⟨.unknown, some .empty⟩ := by rfl
    rw [ModsReport.fromLines, ModsReport.lines, Reading.lines_append, Reading.lines_append,
      Reading.lines_append, hbegin, Reading.lines_outcomes .unknown h.outcomes
        (by simp only [Partial.empty, List.length_nil]; omega),
      Reading.lines_unread .unknown h.unread
        (by simp only [Partial.empty, List.length_nil, List.nil_append]; omega)]
    rfl

end CdjEmu.Runtime
