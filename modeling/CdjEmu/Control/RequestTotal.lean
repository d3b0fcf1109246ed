/-
  REQUESTS, ON EVERY LINE — the parser ends, and what it admits is in range.

  Each parser ends whatever the words are (`Steps.Ends`), and says what it gives; `parse` puts them
  together over the table of the verbs.  One step is out of line: `i32::abs` of the lowest number
  overflows.  A build that checks stops there, one that does not takes the number for a small one.
  So a line is parsed as it should be just where it does not ask for that many detents
  (`LowestDetents`).

  The text of `sh`, `media attach` and `mods push` is cut out of the line with the words in front of
  it (`RestAfter`).

  1. **Program** — the parsers of `Control/Request`, with every slice and every sum of the source
     checked; floats, their tests and whether the build checks for overflows are parameters
     (`Rust`).

  2. **Specification** — `Command.Admitted` says for each command which numbers, names and texts it
     may carry, in terms of the line.  `Ends` says that a parser comes to an end, with an error or
     with something admitted, and that no check fails on the way.

  3. **The crux** — one lemma for each parser, in the order in which they call one another;
     `restAfter_trim` and `textAfterSubcommand_spec` carry the texts that are cut out of the line,
     which keep their own blanks.

  4. **Bridge** — `parse_eq` takes the line to the parser of its verb.  Where the line asks for the
     lowest number of detents, `not_ends_lowest` shows what is lost in either build.
-/
import CdjEmu.Control.Request
import CdjEmu.Lib.Except

namespace CdjEmu.Request

open Chars Steps

/-! ## What is to hold -/

def Blank (s : Chars) : Prop := ∀ c ∈ s, isWhitespace c = true

/-- A word: not empty, and without a blank. -/
def Word (s : Chars) : Prop := s ≠ [] ∧ ∀ c ∈ s, isWhitespace c = false

/-- `t` is what stands in `s` behind its first `k` words, as it is written: white space at the two
    ends is left out, and nothing else. -/
def RestAfter : Nat → Chars → Chars → Prop
  | 0, s, t => t ≠ [] ∧ trim t = t ∧ ∃ lead trail, Blank lead ∧ Blank trail ∧ s = lead ++ t ++ trail
  | k + 1, s, t => ∃ lead word c s', Blank lead ∧ Word word ∧ isWhitespace c = true ∧
      s = lead ++ word ++ c :: s' ∧
      RestAfter k s' t

/-- The names that `watch log` puts into the guest's command. -/
def LogSource.Admitted : LogSource → Prop
  | unit name => name ≠ [] ∧ ∀ c ∈ name, c.isAlphanum = true ∨ c ∈ chars "@._:-"
  | mod name => name ≠ [] ∧ ∀ c ∈ name, c.isLower = true ∨ c.isDigit = true ∨ c ∈ chars "._-"
  | _ => True

/-- The numbers of detents that a request may name. -/
def Detents (n : Int) : Prop := 1 ≤ |n| ∧ |n| ≤ maxDetents

/-- A turn lasts some time, and at most the longest wait. -/
def JogMove.Admitted {F32 : Type} : JogMove F32 → Prop
  | turn _ time _ => 1 ≤ time ∧ time ≤ maxWait
  | _ => True

/-- The path is what stands behind the second word of the line. -/
def MediaCommand.Admitted (line : Chars) : MediaCommand → Prop
  | attach path => RestAfter 2 line path
  | _ => True

/-- So is the path of `mods push`. -/
def ModsCommand.Admitted (line : Chars) : ModsCommand → Prop
  | push path => RestAfter 2 line path
  | _ => True

/-- A watched log has an admitted source. -/
def Topic.Admitted {F32 : Type} : Topic F32 → Prop
  | log source _ => source.Admitted
  | _ => True

/-- What a command that `line` asks for may be. -/
def Command.Admitted {F32 : Type} (line : Chars) : Command F32 → Prop
  | rotary n => Detents n
  | encoder n => Detents n
  | wait _ timeout => timeout ≤ maxWait
  | jog move => move.Admitted
  | sh command => RestAfter 1 line command
  | media command => command.Admitted line
  | mods command => command.Admitted line
  | watch topic => topic.Admitted
  | _ => True

/-- The word that is read as a number of detents. -/
def detentWord (line : Chars) : Option Chars :=
  match splitWhitespace line with
  | [] => none
  | verb :: args =>
    if lower verb = chars "rotary" then args.head?
    else if lower verb = chars "encoder" then
      match args with
      | [name, n] => if sameWord name "beatloop" then some n else none
      | _ => none
    else none

/-- The line asks for the lowest number of detents that there is. -/
def LowestDetents (line : Chars) : Prop := (detentWord line).bind parseI32 = some (-2 ^ 31)

instance (line : Chars) : Decidable (LowestDetents line) := inferInstanceAs (Decidable (_ = _))

/-! ## The rest of the line -/

/-- The first blank splits a text. -/
theorem splitOnceSpace_some {s a b : Chars} (h : splitOnceSpace s = some (a, b)) :
    (∀ c ∈ a, isWhitespace c = false) ∧ ∃ c, isWhitespace c = true ∧ s = a ++ c :: b := by
  induction s generalizing a with
  | nil => exact absurd h (Option.some_ne_none _).symm
  | cons d s ih =>
    rw [splitOnceSpace] at h
    split at h
    · rename_i hd
      obtain ⟨rfl, rfl⟩ := Prod.mk.inj (Option.some.inj h)
      exact ⟨fun c hc => absurd hc List.not_mem_nil, d, hd, rfl⟩
    · rename_i hd
      obtain ⟨⟨a', b'⟩, hp, heq⟩ := Option.map_eq_some_iff.mp h
      obtain ⟨rfl, rfl⟩ := Prod.mk.inj heq
      obtain ⟨ha, c, hc, rfl⟩ := ih hp
      refine ⟨?_, c, hc, rfl⟩
      intro e he
      rcases List.mem_cons.mp he with rfl | he
      · simpa using hd
      · exact ha e he

/-- The first word of a text that begins with one. -/
theorem word_of_splitOnceSpace {s a b : Chars} (hs : trimStart s = s)
    (h : splitOnceSpace s = some (a, b)) : Word a := by
  obtain ⟨ha, c, hc, rfl⟩ := splitOnceSpace_some h
  refine ⟨?_, ha⟩
  rintro rfl
  rw [not_whitespace_of_trimStart hs] at hc
  exact Bool.false_ne_true hc

/-- What is left of a text after trimming is the rest behind no word. -/
theorem restAfter_trim {b trail : Chars} (hb : trim b ≠ []) (htrail : Blank trail) :
    RestAfter 0 (b ++ trail) (trim b) := by
  obtain ⟨lead, tail, hlead, htail, hsplit⟩ := trim_split b
  refine ⟨hb, trim_trim b, lead, tail ++ trail, hlead, ?_, ?_⟩
  · intro c hc
    rcases List.mem_append.mp hc with hc | hc
    · exact htail c hc
    · exact htrail c hc
  · rw [← List.append_assoc, ← hsplit]

/-- The command of `sh` is the line behind its first word. -/
theorem shCommand_spec {line r : Chars} (h : Rust.shCommand line = .ok r) : RestAfter 1 line r := by
  obtain ⟨lead, trail, hlead, htrail, hline⟩ := trim_split line
  unfold Rust.shCommand at h
  split at h
  · rename_i verb b hsplit
    split at h
    · rename_i hne
      obtain rfl := Except.ok.inj h
      have hword := word_of_splitOnceSpace (trimStart_trim line) hsplit
      obtain ⟨-, c, hc, htext⟩ := splitOnceSpace_some hsplit
      refine ⟨lead, verb, c, b ++ trail, hlead, hword, hc, ?_, restAfter_trim hne htrail⟩
      rw [hline, htext]
      simp
    · cases h
  · cases h

/-- And a subcommand's text is the line behind its second. -/
theorem textAfterSubcommand_spec {line r : Chars} (h : Rust.textAfterSubcommand line = some r) :
    RestAfter 2 line r := by
  obtain ⟨lead, trail, hlead, htrail, hline⟩ := trim_split line
  unfold Rust.textAfterSubcommand at h
  obtain ⟨⟨verb, b⟩, hverb, h⟩ := Option.bind_eq_some_iff.mp h
  obtain ⟨⟨sub, b'⟩, hsub, h⟩ := Option.bind_eq_some_iff.mp h
  obtain ⟨hne, hr⟩ := Option.ite_none_right_eq_some.mp h
  obtain rfl := Option.some.inj hr
  have hword := word_of_splitOnceSpace (trimStart_trim line) hverb
  obtain ⟨-, c, hc, htext⟩ := splitOnceSpace_some hverb
  have hword' := word_of_splitOnceSpace (trimStart_idem b) hsub
  obtain ⟨-, c', hc', htext'⟩ := splitOnceSpace_some hsub
  obtain ⟨lead', hlead', hb⟩ := trimStart_split b
  refine ⟨lead, verb, c, b ++ trail, hlead, hword, hc, ?_, lead', sub, c', b' ++ trail, hlead',
    hword', hc', ?_, restAfter_trim hne htrail⟩
  · rw [hline, htext]
    simp
  · rw [hb, htext']
    simp

/-! ## The parsers end -/

variable {R : Rust} {args : List Chars}

/-- Anything will do. -/
def Any {α : Type} : α → Prop := fun _ => True

/-- What makes no slice ends. -/
theorem ends_any {α : Type} (r : Except Chars α) : Ends (liftM r : Steps Chars α) Any :=
  ends_except fun _ _ => trivial

/-- The number of detents is in range, unless it is the one whose negation overflows. -/
theorem ends_detents {s : Chars} (h : parseI32 s ≠ some (-2 ^ 31)) :
    Ends (R.detents s) Detents := by
  unfold Rust.detents
  dsimp only
  split
  · exact ends_throw _
  · rename_i n hn
    apply ends_ite
    · intro _
      exact ends_throw _
    · intro hzero
      have habs : R.abs n = some |n| := by
        rw [Rust.abs, if_neg]
        rintro rfl
        exact h hn
      apply ends_bind (ends_check habs rfl)
      rintro a rfl
      apply ends_ite
      · intro hle
        exact ends_pure ⟨Int.one_le_abs hzero, hle⟩
      · intro _
        exact ends_throw _

/-- The words of a wait end for every text. -/
theorem ends_lampWant (s : Chars) : Ends (R.lampWant s) Any := by
  have hword : ∀ want : LampWant, Ends (pure want : Steps Chars LampWant) Any :=
    fun _ => ends_pure trivial
  unfold Rust.lampWant
  refine ends_ite (fun _ => hword _) fun _ => ends_ite (fun _ => hword _) fun _ =>
    ends_ite (fun _ => hword _) fun _ =>
    ends_ite (fun _ => hword _) fun _ => ends_ite (fun _ => hword _) fun _ => ?_
  split
  · rename_i rgb _
    apply ends_ite
    · intro _
      exact hword _
    · intro _
      apply ends_ite
      · intro hone
        have hlt : 0 < rgb.length := by omega
        apply ends_bind (ends_check (Checked.index_eq hlt) (Q := Any) trivial)
        intro _ _
        exact hword _
      · intro _
        exact ends_throw _
  · exact ends_throw _

/-- The time of a turn is in range. -/
theorem ends_jogTime (rest : List Chars) :
    Ends (R.jogTime rest) fun p => 1 ≤ p.1 ∧ p.1 ≤ maxWait := by
  have hdefault : 1 ≤ defaultJogTime ∧ defaultJogTime ≤ maxWait := by decide
  unfold Rust.jogTime
  split
  · exact ends_pure hdefault
  · rename_i s hs
    split
    · rename_i ms _
      apply ends_ite
      · intro _
        exact ends_throw _
      · intro hle
        have hone : 1 ≤ maxWait := by decide
        refine ends_pure ⟨?_, ?_⟩
        · exact Nat.le_max_right _ _
        · exact Nat.max_le.mpr ⟨Nat.not_lt.mp hle, hone⟩
    · apply ends_ite
      · intro _
        exact ends_pure hdefault
      · intro _
        -- There is a first word: it is not a number.
        have hlt : 0 < rest.length := by
          rcases rest with _ | ⟨w, rest⟩
          · exact absurd hs (Option.some_ne_none s).symm
          · exact Nat.succ_pos _
        apply ends_bind (ends_check (Checked.index_eq hlt) (Q := Any) trivial)
        intro _ _
        exact ends_throw _

/-- A turn is admitted. -/
theorem ends_parseTurn (degrees : Chars) (rest : List Chars) :
    Ends (R.parseTurn degrees rest) JogMove.Admitted := by
  unfold Rust.parseTurn
  apply ends_bind (ends_any _)
  intro _ _
  apply ends_bind (ends_jogTime rest)
  rintro ⟨time, word⟩ htime
  apply ends_bind (ends_any _)
  intro _ _
  exact ends_pure htime

/-- A spin is admitted. -/
theorem ends_parseSpin (rps : Chars) (rest : List Chars) :
    Ends (liftM (R.parseSpin rps rest) : Steps Chars (JogMove R.F32)) JogMove.Admitted := by
  apply ends_except
  intro move hmove
  obtain ⟨v, -, hmove⟩ := bind_eq_ok.mp hmove
  obtain ⟨grip, -, hmove⟩ := bind_eq_ok.mp hmove
  obtain rfl := Except.ok.inj hmove
  trivial

theorem ends_parseTurnWords (args : List Chars) :
    Ends (R.parseTurnWords args) JogMove.Admitted := by
  unfold Rust.parseTurnWords
  dsimp only
  split
  · apply ends_ite
    · intro _
      exact ends_parseTurn _ _
    · intro _
      exact ends_throw _
  · exact ends_throw _

/-- So is whatever `jog` reads. -/
theorem ends_parseJog (args : List Chars) : Ends (R.parseJog args) JogMove.Admitted := by
  unfold Rust.parseJog
  split
  · apply ends_ite
    · intro _
      exact ends_parseSpin _ _
    · intro _
      exact ends_parseTurnWords _
  · exact ends_parseTurnWords _

theorem ends_modName (hne : args ≠ []) : Ends (Rust.modName args) Any := by
  unfold Rust.modName
  split
  · exact ends_pure trivial
  · have hlt : 0 < args.length := List.length_pos_iff.mpr hne
    apply ends_bind (ends_check (Checked.index_eq hlt) (Q := Any) trivial)
    intro _ _
    exact ends_throw _

/-- `mods`; the name of a subcommand is looked for only where there is one. -/
theorem ends_parseMods (line : Chars) (args : List Chars) :
    Ends (R.parseMods line args) (ModsCommand.Admitted line) := by
  unfold Rust.parseMods
  split
  · exact ends_pure trivial
  · rename_i word hword
    have hne : args ≠ [] := by
      rintro rfl
      exact absurd hword (Option.some_ne_none word).symm
    have hname : ∀ f : Chars → ModsCommand, (∀ name, (f name).Admitted line) →
        Ends (do return f (← Rust.modName args) : Steps Chars ModsCommand)
          (ModsCommand.Admitted line) := by
      intro f hf
      apply ends_bind (ends_modName hne)
      intro name _
      exact ends_pure (hf name)
    refine ends_ite (fun _ => ends_pure trivial) fun _ => ends_ite (fun _ => ?_) fun _ =>
      ends_ite (fun _ => hname _ fun _ => trivial) fun _ =>
        ends_ite (fun _ => hname _ fun _ => trivial) fun _ =>
        ends_ite (fun _ => hname _ fun _ => trivial) fun _ =>
          ends_ite (fun _ => hname _ fun _ => trivial) fun _ =>
          ends_throw _
    split
    · rename_i p hp
      exact ends_pure (textAfterSubcommand_spec hp)
    · exact ends_throw _

/-- `media` makes no slice. -/
theorem parseMedia_spec {line : Chars} {command : MediaCommand}
    (h : R.parseMedia line args = .ok command) :
    command.Admitted line := by
  unfold Rust.parseMedia at h
  split at h
  · obtain rfl := Except.ok.inj h
    trivial
  · split at h
    · obtain rfl := Except.ok.inj h
      trivial
    · split at h
      · obtain rfl := Except.ok.inj h
        trivial
      · split at h
        · split at h
          · rename_i p hp
            obtain rfl := Except.ok.inj h
            exact textAfterSubcommand_spec hp
          · cases h
        · cases h

/-- A name that `watch log` accepts. -/
theorem logName_spec {kind : String} {word : Option Chars} {name : Chars}
    (h : R.logName kind word = .ok name) :
    name ≠ [] ∧ ∀ c ∈ name, Rust.nameChar kind c = true := by
  unfold Rust.logName at h
  split at h
  · split at h
    · rename_i hn
      obtain rfl := Except.ok.inj h
      exact ⟨hn.1, List.all_eq_true.mp hn.2.2⟩
    · cases h
  · cases h

/-- The source of a log, with its name. -/
theorem ends_logSource (args : List Chars) : Ends (R.logSource args) fun p => p.1.Admitted := by
  unfold Rust.logSource
  dsimp only
  split
  · exact ends_pure trivial
  · rename_i word hword
    have hne : args ≠ [] := by
      rintro rfl
      exact absurd hword (Option.some_ne_none word).symm
    refine ends_ite (fun _ => ?_) fun _ => ends_ite (fun _ => ?_) fun _ =>
      ends_ite (fun _ => ?_) fun _ => ends_pure trivial
    · have hle : 1 ≤ args.length := List.length_pos_iff.mpr hne
      apply ends_bind (ends_check (Checked.behind_eq hle) (Q := Any) trivial)
      intro _ _
      exact ends_pure trivial
    · apply ends_bind (ends_except fun _ hname => logName_spec hname)
      rintro name ⟨hne, hall⟩
      refine ends_pure ⟨hne, ?_⟩
      intro c hc
      simpa [Rust.nameChar] using hall c hc
    · apply ends_bind (ends_except fun _ hname => logName_spec hname)
      rintro name ⟨hne, hall⟩
      refine ends_pure ⟨hne, ?_⟩
      intro c hc
      simpa [Rust.nameChar, or_assoc] using hall c hc

/-- The log behind its source; the slice behind a word is within the arguments. -/
theorem ends_parseLog (args : List Chars) : Ends (R.parseLog args) Topic.Admitted := by
  unfold Rust.parseLog
  apply ends_bind (ends_logSource args)
  rintro ⟨source, rest⟩ hsource
  dsimp only
  split
  · exact ends_pure hsource
  · apply ends_ite
    · intro _
      exact ends_pure hsource
    · intro _
      exact ends_throw _

theorem ends_lcdScreen (rest : List Chars) : Ends (Rust.lcdScreen rest) Any := by
  unfold Rust.lcdScreen
  split
  · rename_i screen hscreen
    have hle : 1 ≤ rest.length := by
      rcases rest with _ | ⟨w, rest⟩
      · exact absurd hscreen (Option.some_ne_none screen).symm
      · exact Nat.succ_pos _
    apply ends_bind (ends_check (Checked.behind_eq hle) (Q := Any) trivial)
    intro _ _
    exact ends_pure trivial
  · exact ends_pure trivial

/-- A topic is admitted. -/
theorem ends_parseTopic (args : List Chars) : Ends (R.parseTopic args) Topic.Admitted := by
  unfold Rust.parseTopic
  dsimp only
  split
  · exact ends_throw _
  · refine ends_ite (fun _ => ends_pure trivial) fun _ => ends_ite (fun _ => ?_) fun _ =>
      ends_ite (fun _ => ?_) fun _ =>
      ends_ite (fun _ => ends_parseLog _) fun _ => ends_throw _
    · apply ends_bind (ends_lcdScreen _)
      rintro ⟨screen, rest⟩ _
      dsimp only
      split
      · exact ends_pure trivial
      · apply ends_bind (ends_any _)
        intro _ _
        exact ends_pure trivial
      · exact ends_throw _
    · apply ends_ite
      · intro _
        exact ends_pure trivial
      · intro _
        exact ends_throw _

/-- An argument that is there. -/
theorem arg_spec {i : Nat} {missing : String} {s : Chars} (h : arg args i missing = .ok s) :
    i < args.length := by
  unfold arg at h
  split at h
  · rename_i hs
    exact (List.getElem?_eq_some_iff.mp hs).1
  · cases h

theorem ends_waitFor (args : List Chars) : Ends (R.waitFor args) Any := by
  unfold Rust.waitFor
  split
  · exact ends_throw _
  · rename_i word hword
    have hne : args ≠ [] := by
      rintro rfl
      exact absurd hword (Option.some_ne_none word).symm
    refine ends_ite (fun _ => ?_) fun _ => ends_ite (fun _ => ?_) fun _ => ends_throw _
    · have hle : 1 ≤ args.length := List.length_pos_iff.mpr hne
      apply ends_bind (ends_check (Checked.behind_eq hle) (Q := Any) trivial)
      intro _ _
      exact ends_pure trivial
    · apply ends_bind (ends_any _)
      intro _ _
      apply ends_bind (ends_except fun _ harg => arg_spec harg)
      intro state hlt
      apply ends_bind (ends_lampWant state)
      intro _ _
      have hle : 3 ≤ args.length := hlt
      apply ends_bind (ends_check (Checked.behind_eq hle) (Q := Any) trivial)
      intro _ _
      exact ends_pure trivial

/-- A wait is admitted. -/
theorem ends_parseWait (line : Chars) (args : List Chars) :
    Ends (R.parseWait args) (Command.Admitted line) := by
  unfold Rust.parseWait
  apply ends_bind (ends_waitFor args)
  rintro ⟨what, rest⟩ _
  apply ends_bind (ends_any _)
  intro timeout _
  apply ends_ite
  · intro _
    exact ends_throw _
  · intro hle
    exact ends_pure (Nat.not_lt.mp hle)

/-! ## The verbs -/

variable {line : Chars}

/-- A parser whose command any words may give. -/
theorem ends_parsePress :
    Ends (liftM (R.parsePress args) : Steps Chars (Command R.F32)) (Command.Admitted line) := by
  unfold Rust.parsePress
  apply ends_except_bind
  intro _
  apply ends_except_bind
  intro _
  exact ends_pure trivial

/-- The commands that make no slice end with what they parsed; each keeps its own conditions. -/
theorem ends_parseClear :
    Ends (liftM (R.parseClear args) : Steps Chars (Command R.F32)) (Command.Admitted line) := by
  unfold Rust.parseClear
  apply ends_except_bind
  intro _
  apply ends_except_bind
  intro _
  exact ends_pure trivial

theorem ends_parseTouch :
    Ends (liftM (R.parseTouch args) : Steps Chars (Command R.F32)) (Command.Admitted line) := by
  unfold Rust.parseTouch
  iterate 5
    apply ends_except_bind
    intro _
  exact ends_pure trivial

theorem ends_parseRelease :
    Ends (liftM (R.parseRelease args) : Steps Chars (Command R.F32)) (Command.Admitted line) := by
  unfold Rust.parseRelease
  apply ends_except_bind
  intro _
  exact ends_pure trivial

theorem ends_parseLcd :
    Ends (liftM (R.parseLcd args) : Steps Chars (Command R.F32)) (Command.Admitted line) := by
  unfold Rust.parseLcd
  split
  · exact ends_pure trivial
  · split
    · exact ends_pure trivial
    · exact ends_throw _

theorem ends_parseSetting :
    Ends (liftM (R.parseSetting args) : Steps Chars (Command R.F32)) (Command.Admitted line) := by
  unfold Rust.parseSetting
  split
  · exact ends_pure trivial
  · exact ends_pure trivial
  · exact ends_throw _

theorem ends_parseKnob :
    Ends (liftM (R.parseKnob args) : Steps Chars (Command R.F32)) (Command.Admitted line) := by
  unfold Rust.parseKnob
  iterate 3
    apply ends_except_bind
    intro _
  exact ends_pure trivial

theorem ends_parseDirection :
    Ends (liftM (R.parseDirection args) : Steps Chars (Command R.F32)) (Command.Admitted line) := by
  unfold Rust.parseDirection
  split
  · exact ends_pure trivial
  · split
    · exact ends_pure trivial
    · split
      · exact ends_pure trivial
      · exact ends_throw _

/-- Each verb's parser ends, on a line with its verb that does not ask for the
    lowest number of detents. -/
theorem ends_verbs {verb : Chars} (hwords : splitWhitespace line = verb :: args)
    (h : ¬ LowestDetents line) :
    ∀ v ∈ R.verbs, v.1 = lower verb → Ends (v.2 line args) (Command.Admitted line) := by
  -- the word that each of the two verbs reads is the one the condition speaks of
  have hrotary : lower verb = chars "rotary" → ∀ n, args.head? = some n →
      parseI32 n ≠ some (-2 ^ 31) := by
    intro hverb n hn hlow
    apply h
    rw [LowestDetents, detentWord, hwords]
    dsimp only
    rw [if_pos hverb, hn]
    exact hlow
  have hencoder : lower verb = chars "encoder" → ∀ name n, args = [name, n] →
      sameWord name "beatloop" = true →
      parseI32 n ≠ some (-2 ^ 31) := by
    intro hverb name n hn hname hlow
    apply h
    have hne : ¬ lower verb = chars "rotary" := by
      rw [hverb]
      decide
    rw [LowestDetents, detentWord, hwords, hn]
    dsimp only
    rw [if_neg hne, if_pos hverb, if_pos hname]
    exact hlow
  have hplain : ∀ {command : Command R.F32}, command.Admitted line →
      Ends (pure command : Steps Chars (Command R.F32)) (Command.Admitted line) :=
        fun hc => ends_pure hc
  unfold Rust.verbs
  -- verb by verb; those without a number of detents end on any line
  simp only [List.forall_mem_cons]
  refine ⟨fun _ => hplain trivial, fun _ => hplain trivial, fun _ => hplain trivial,
    fun _ => hplain trivial, fun _ => ends_parsePress, fun _ => ?hold, fun _ => ends_parseClear,
    fun _ => ends_parseTouch,
    fun _ => ends_parseRelease, fun hverb => ?rotary, fun _ => ?tempo, fun _ => hplain trivial,
    fun _ => ends_parseLcd,
    fun _ => hplain trivial, fun _ => ends_parseWait line args, fun _ => ?watch, fun _ => ?unwatch,
    fun _ => ?sh,
    fun _ => ?mods, fun _ => ?jog, fun _ => ?media, fun _ => ends_parseSetting,
    fun hverb => ?encoder,
    fun _ => ends_parseKnob, fun _ => ends_parseDirection, fun _ => hplain trivial,
    fun _ => hplain trivial,
    fun _ => hplain trivial, fun v hv => absurd hv List.not_mem_nil⟩
  case hold =>
    apply ends_bind (ends_any _)
    intro _ _
    exact hplain trivial
  case rotary =>
    show Ends (R.parseRotary args) _
    unfold Rust.parseRotary
    apply ends_bind (ends_except (Q := fun n => args.head? = some n) ?_)
    · intro n hn
      apply ends_bind (ends_detents (hrotary hverb.symm n hn))
      intro _ hdetents
      exact hplain hdetents
    · intro n hn
      unfold arg at hn
      split at hn
      · rename_i hhead
        obtain rfl := Except.ok.inj hn
        rw [List.head?_eq_getElem?, hhead]
      · cases hn
  case tempo =>
    apply ends_bind (ends_any _)
    intro _ _
    apply ends_bind (ends_any _)
    intro _ _
    exact hplain trivial
  case watch =>
    apply ends_bind (ends_parseTopic args)
    intro _ htopic
    exact hplain htopic
  case unwatch =>
    apply ends_bind (ends_any _)
    intro _ _
    exact hplain trivial
  case sh =>
    apply ends_bind (ends_except fun _ hsh => shCommand_spec hsh)
    intro _ hrest
    exact hplain hrest
  case mods =>
    apply ends_bind (ends_parseMods line args)
    intro _ hmods
    exact hplain hmods
  case jog =>
    apply ends_bind (ends_parseJog args)
    intro _ hjog
    exact hplain hjog
  case media =>
    apply ends_bind (ends_except fun _ hmedia => parseMedia_spec hmedia)
    intro _ hmedia
    exact hplain hmedia
  case encoder =>
    show Ends (R.parseEncoder args) _
    unfold Rust.parseEncoder
    split
    · rename_i name n
      -- only the beat loop's encoder counts detents
      apply ends_ite
      · intro hname
        apply ends_bind (ends_detents (hencoder hverb.symm name n rfl hname))
        intro _ hdetents
        exact hplain hdetents
      · intro _
        exact ends_throw _
    · exact ends_throw _

/-! ## The lowest number of detents -/

/-- It is refused by no one: the step overflows, or the number is taken for a small one. -/
theorem detents_lowest {s : Chars} (h : parseI32 s = some (-2 ^ 31)) :
    R.detents s = none ∨ R.detents s = some (.ok (-2 ^ 31)) := by
  have habs : R.abs (-2 ^ 31) = if R.overflowChecks then none else some (-2 ^ 31) := if_pos rfl
  unfold Rust.detents
  dsimp only
  rw [h]
  dsimp only
  rw [if_neg (by decide), habs]
  cases R.overflowChecks with
  | true => exact .inl rfl
  | false => exact .inr rfl

/-- The lowest number of 32 bits is no number of detents. -/
theorem not_detents_lowest : ¬ Detents (-2 ^ 31) := by
  unfold Detents maxDetents
  decide

/-- It stops the parser where it is asked for its absolute value. -/
theorem not_ends_lowest {s : Chars} (h : parseI32 s = some (-2 ^ 31)) {f : Int → Command R.F32}
    (hf : (f (-2 ^ 31)).Admitted line → Detents (-2 ^ 31)) :
    ¬ Ends (R.detents s >>= fun n => pure (f n)) (Command.Admitted line) := by
  rintro ⟨r, hr, hadmitted⟩
  rcases detents_lowest h with hnone | hsome
  · rw [hnone] at hr
    exact Option.some_ne_none r hr.symm
  · rw [hsome] at hr
    obtain rfl := Option.some.inj hr
    exact not_detents_lowest (hf (hadmitted _ rfl))

/-- The parser of a line with a verb of the table. -/
theorem parse_eq {verb : Chars} (hwords : splitWhitespace line = verb :: args)
    {v : Chars × R.VerbParser} (hfind : (R.verbs.find? fun v => v.1 = lower verb) = some v) :
    R.parse line = v.2 line args := by
  rw [Rust.parse, hwords]
  dsimp only
  rw [hfind]

/-- Such a line does not end as it should. -/
theorem not_ends_of_lowest (hlow : LowestDetents line) :
    ¬ Ends (R.parse line) (Command.Admitted line) := by
  intro hends
  rw [LowestDetents, detentWord] at hlow
  split at hlow
  -- a line without words has no such number
  · exact absurd hlow (Option.some_ne_none _).symm
  · rename_i verb args hwords
    split at hlow
    · rename_i hverb
      obtain ⟨n, hn, hlow⟩ := Option.bind_eq_some_iff.mp hlow
      obtain ⟨rest, rfl⟩ := List.head?_eq_some_iff.mp hn
      -- the verb is found by its name, and its parser is asked for the number
      have hfind : (R.verbs.find? fun v => v.1 = lower verb) =
          some (chars "rotary", fun _ a => R.parseRotary a) := by
        rw [hverb]
        rfl
      rw [parse_eq hwords hfind] at hends
      exact not_ends_lowest hlow (f := .rotary) id hends
    · split at hlow
      · rename_i hverb
        split at hlow
        · rename_i name n
          split at hlow
          · rename_i hname
            have hfind : (R.verbs.find? fun v => v.1 = lower verb) =
                some (chars "encoder", fun _ a => R.parseEncoder a) := by
              rw [hverb]
              rfl
            have hparse :
                R.parseEncoder [name, n] = (R.detents n >>= fun n => pure (.encoder n)) := by
              rw [Rust.parseEncoder, if_pos hname]
            rw [parse_eq hwords hfind] at hends
            dsimp only at hends
            rw [hparse] at hends
            exact not_ends_lowest hlow (f := .encoder) id hends
          · exact absurd hlow (Option.some_ne_none _).symm
        · exact absurd hlow (Option.some_ne_none _).symm
      · exact absurd hlow (Option.some_ne_none _).symm

/-- Every other line does. -/
theorem ends_of_not_lowest (h : ¬ LowestDetents line) :
    Ends (R.parse line) (Command.Admitted line) := by
  unfold Rust.parse
  split
  · exact ends_throw _
  · rename_i verb args hwords
    split
    · exact ends_throw _
    · rename_i v hfind
      have hverb : v.1 = lower verb := by simpa using List.find?_some hfind
      exact ends_verbs hwords h v (List.mem_of_find?_eq_some hfind) hverb

/-- **A line is parsed as it should be just where it does not ask for the lowest number of
    detents**: the parser ends without a stop, and a command that it gives is in range. -/
theorem parse_ends_iff (R : Rust) (line : Chars) :
    Ends (R.parse line) (Command.Admitted line) ↔ ¬ LowestDetents line :=
  ⟨fun hends hlow => not_ends_of_lowest hlow hends, ends_of_not_lowest⟩

/-- Whole numbers for floats, in a build that checks for overflows or not. -/
def plainRust (overflowChecks : Bool) : Rust where
  F32 := Nat
  parseF32 := digits
  inUnit n := n ≤ 1
  within max n := n ≤ max
  ge n m := m ≤ n
  debug s := chars "\"" ++ s ++ chars "\""
  overflowChecks := overflowChecks

/-- The selector is asked to turn by the lowest number there is. -/
def lowestRotary : Chars := chars "rotary -2147483648"

/-- A build that checks for overflows stops at this line, and one that does not admits it. -/
theorem lowest_rotary_parsed :
    ¬ Ends ((plainRust true).parse lowestRotary) (Command.Admitted lowestRotary) ∧
      ¬ Ends ((plainRust false).parse lowestRotary) (Command.Admitted lowestRotary) := by
  have hlow : LowestDetents lowestRotary := by decide
  exact ⟨not_ends_of_lowest hlow, not_ends_of_lowest hlow⟩

end CdjEmu.Request
