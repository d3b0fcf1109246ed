/-
  SCENARIO FILES — whether an accepted scenario addresses only slots that it has.

  A scenario is a script with `#@` directives, which may stand anywhere and may repeat; the steps of
  an included file stand at the line of its `include`.  A `slot` step is checked against the number
  of slots that the directives before it have set.  The runner is given the number that the last
  directive of all has set.

  1. **A line** (`takeLine_spec`) — what one line adds to the steps and what it does to the number
     of slots.

  2. **The file** (`takeLines_spec`) — the steps are those of the lines; each was checked at its
     line.  They all fit the final number just if no later directive leaves the file with fewer
     slots than a step names (`Kept`).

  3. **The runner** (`selected_lt`) — a scenario whose steps are addressed selects only slots that
     it was given, since a `slot` step goes by the number it names and the others by the one before
     them.

  Reading an included file is a parameter.  The words of a line, the comments and the two forms of a
  directive are the source's; an error names the line it was found at, in the file that is read or
  in the one that includes it.
-/
import CdjEmu.Lib.Except
import CdjEmu.Lib.KeyValue

namespace CdjEmu.E2e

open Chars

structure Scenario where
  path : Chars
  name : Chars
  /-- The model slugs it runs on; empty for every model. -/
  models : List Chars
  slots : Nat
  settings : List (Chars × Chars)
  media : Option Chars
  reset : Bool
  needsAccel : Bool
  /-- The steps with their line numbers, from 1. -/
  steps : List (Nat × List Chars)
  deriving DecidableEq

inductive Error where
  /-- "slots takes 1 to 4, not …" -/
  | slots (n : Chars)
  /-- "… is not a directive: name, models, slots, setting, media, reset,
      needs hw-accel or include" -/
  | directive (line : Chars)
  /-- The path, and why it cannot be read. -/
  | unreadable (file why : Chars)
  /-- "… has a directive; an included file holds only steps" -/
  | included (file : Chars)
  /-- "slot takes a number from 1 to …; set `#@ slots` first" -/
  | slot (slots : Nat)
  deriving DecidableEq

/-! ## Reading a scenario -/

/-- The words of a script line, without its comment. -/
def scriptWords (line : Chars) : List Chars := splitWhitespace ((line.splitOn '#').headD [])

def parseUsize (s : Chars) : Option Nat := parseUnsigned (2 ^ 64) s

/-- The first word of a `slot` step. -/
def slotWord : Chars := chars "slot"

namespace Scenario

variable (s : Scenario)

def directive (line : Chars) : Except Error Scenario :=
  let unknown : Except Error Scenario := .error (.directive (trim line))
  match splitWhitespace line with
  | [] => unknown
  | word :: rest =>
    if word = chars "name" then .ok { s with name := [' '].intercalate rest }
    else if word = chars "models" then .ok { s with models := rest }
    else if word = chars "slots" then
      match rest with
      | [n] => match (parseUsize n).filter fun n => 1 ≤ n ∧ n ≤ 4 with
        | some slots => .ok { s with slots := slots }
        | none => .error (.slots n)
      | _ => unknown
    else if word = chars "setting" then
      match rest with
      | [name, value] => .ok { s with settings := s.settings ++ [(name, value)] }
      | _ => unknown
    else if word = chars "media" then
      if rest ≠ [] then .ok { s with media := some ([' '].intercalate rest) } else unknown
    else if word = chars "reset" then
      if rest = [chars "on"] then .ok { s with reset := true }
      else if rest = [chars "off"] then .ok { s with reset := false }
      else unknown
    else if word = chars "needs" then
      if rest = [chars "hw-accel"] then .ok { s with needsAccel := true } else unknown
    else unknown

/-- A `slot <k>` step names one of the scenario's slots. -/
def checkSlot (words : List Chars) : Except Error Unit :=
  match words with
  | [_, k] =>
    if (parseUsize k).any fun k => 1 ≤ k ∧ k ≤ s.slots then .ok () else .error (.slot s.slots)
  | _ => .error (.slot s.slots)

/-- The step is added at line `n`. -/
def add (n : Nat) (words : List Chars) : Scenario := { s with steps := s.steps ++ [(n, words)] }

/-- A line that is a step or empty. -/
def takeStep (n : Nat) (line : Chars) : Except Error Scenario :=
  let words := scriptWords line
  match words.head? with
  | none => .ok s
  | some first => do
    if first = slotWord then s.checkSlot words
    return s.add n words

/-- The lines of an included file. -/
def includeLines (file : Chars) (n : Nat) : Scenario → List Chars → Except Error Scenario
  | s, [] => .ok s
  | s, line :: rest =>
    if (chars "#@").isPrefixOf (trimStart line) then .error (.included file)
    else do includeLines file n (← s.takeStep n line) rest

/-- `include`; `included` reads a file relative to the scenario's folder. -/
def takeInclude (included : Chars → Except Chars Chars) (file : Chars) (n : Nat) :
    Except Error Scenario :=
  match included file with
  | .error why => .error (.unreadable file why)
  | .ok text => includeLines file n s (lines text)

def takeLine (included : Chars → Except Chars Chars) (n : Nat) (line : Chars) :
    Except Error Scenario :=
  match strip (chars "#@") (trimStart line) with
  | some directive => match strip (chars "include ") (trim directive) with
    | some file => s.takeInclude included (trim file) n
    | none => s.directive directive
  | none => s.takeStep n line

/-- The lines from line `n` on; an error names its line. -/
def takeLines (included : Chars → Except Chars Chars) :
    Nat → Scenario → List Chars → Except (Nat × Error) Scenario
  | _, s, [] => .ok s
  | n, s, line :: rest =>
    match s.takeLine included n line with
    | .ok s => takeLines included (n + 1) s rest
    | .error e => .error (n, e)

end Scenario

/-- `Scenario::parse`; `name` is the path's file stem. -/
def parse (path name : Chars) (included : Chars → Except Chars Chars) (text : Chars) :
    Except (Nat × Error) Scenario :=
  Scenario.takeLines included 1 ⟨path, name, [], 1, [], none, true, false, []⟩ (lines text)

/-- The slot that each step of `run_steps` goes to; a `slot` step goes to none. -/
def selected : Nat → List (List Chars) → List Nat
  | _, [] => []
  | current, words :: rest =>
    if words.head? = some slotWord then selected (((words[1]?).bind parseUsize).elim 0 (· - 1)) rest
    else current :: selected current rest

/-! ## What the lines say -/

/-- A step that is no `slot` step, or has one argument, which is a number from 1 to `slots`. -/
def Addresses (slots : Nat) (words : List Chars) : Prop :=
  words.head? = some slotWord →
    ∃ k n, words = [slotWord, k] ∧ parseUsize k = some n ∧ 1 ≤ n ∧ n ≤ slots

def Addressed (s : Scenario) : Prop := ∀ step ∈ s.steps, Addresses s.slots step.2

/-- The steps of lines that are none of them directives. -/
def wordsOf (l : List Chars) : List (List Chars) := (l.map scriptWords).filter (· ≠ [])

/-- The steps of a line. -/
def lineSteps (included : Chars → Except Chars Chars) (line : Chars) : List (List Chars) :=
  match strip (chars "#@") (trimStart line) with
  | some directive => match strip (chars "include ") (trim directive) with
    | some file => match included (trim file) with
      | .ok text => wordsOf (lines text)
      | .error _ => []
    | none => []
  | none => wordsOf [line]

/-- The number that a directive of these words sets. -/
def directiveSlots : List Chars → Option Nat
  | [word, n] => if word = chars "slots" then (parseUsize n).filter fun n => 1 ≤ n ∧ n ≤ 4 else none
  | _ => none

/-- The number that a `#@ slots` directive sets. -/
def lineSlots (line : Chars) : Option Nat :=
  match strip (chars "#@") (trimStart line) with
  | some directive => match strip (chars "include ") (trim directive) with
    | some _ => none
    | none => directiveSlots (splitWhitespace directive)
  | none => none

/-- The number that the last directive sets. -/
def lastSlots : List Chars → Option Nat
  | [] => none
  | line :: rest => (lastSlots rest).or (lineSlots line)

/-- The slot that a step names. -/
def named (words : List Chars) : Option Nat :=
  if words.head? = some slotWord then (words[1]?).bind parseUsize else none

/-- No step names a slot above the number that the last directive behind it sets. -/
def Kept (included : Chars → Except Chars Chars) : List Chars → Prop
  | [] => True
  | line :: rest =>
    (∀ words ∈ lineSteps included line, ∀ k ∈ named words, ∀ slots ∈ lastSlots rest, k ≤ slots) ∧
      Kept included rest

/-! ## Directives -/

/-- Where it ends well, a computation leaves the steps and the number of slots. -/
def Keeps (s : Scenario) (r : Except Error Scenario) : Prop :=
  ∀ s', r = .ok s' → s'.steps = s.steps ∧ s'.slots = s.slots

section

variable {s : Scenario}

theorem Keeps.error (e : Error) : Keeps s (.error e) := fun _ h => (by cases h)

theorem Keeps.ok {s' : Scenario} (hsteps : s'.steps = s.steps) (hslots : s'.slots = s.slots) :
    Keeps s (.ok s') := by
  intro s'' h
  obtain rfl := Except.ok.inj h
  exact ⟨hsteps, hslots⟩

theorem Keeps.ite {p : Prop} [Decidable p] {a b : Except Error Scenario} (ha : Keeps s a)
    (hb : Keeps s b) :
    Keeps s (if p then a else b) := by
  split
  · exact ha
  · exact hb

theorem directiveSlots_of_ne {word : Chars} (h : word ≠ chars "slots") (rest : List Chars) :
    directiveSlots (word :: rest) = none := by
  rcases rest with _ | ⟨n, _ | ⟨m, rest⟩⟩
  · rfl
  · exact if_neg h
  · rfl

/-- A directive leaves the steps; only `slots` changes the number of slots. -/
theorem directive_spec {line : Chars} {s' : Scenario} (h : s.directive line = .ok s') :
    s'.steps = s.steps ∧ s'.slots = (directiveSlots (splitWhitespace line)).getD s.slots := by
  unfold Scenario.directive at h
  dsimp only at h
  rcases hwords : splitWhitespace line with _ | ⟨word, rest⟩
  -- A line without words is refused.
  · rw [hwords] at h
    exact absurd h (by simp)
  · rw [hwords] at h
    dsimp only at h
    -- `slots` is the one directive that changes the number; it takes one word, from 1 to 4.
    by_cases hslots : word = chars "slots"
    · have hname : word ≠ chars "name" := by
        rw [hslots]
        decide
      have hmodels : word ≠ chars "models" := by
        rw [hslots]
        decide
      rw [if_neg hname, if_neg hmodels, if_pos hslots] at h
      rcases rest with _ | ⟨n, _ | ⟨m, rest⟩⟩
      · exact absurd h (by simp)
      · have hset : directiveSlots [word, n] = (parseUsize n).filter fun n => 1 ≤ n ∧ n ≤ 4 :=
          if_pos hslots
        rw [hset]
        dsimp only at h
        rcases hn : (parseUsize n).filter fun n => decide (1 ≤ n ∧ n ≤ 4) with _ | slots
        · rw [hn] at h
          exact absurd h (by simp)
        · rw [hn] at h
          obtain rfl := Except.ok.inj h
          exact ⟨rfl, rfl⟩
      · exact absurd h (by simp)
    · rw [directiveSlots_of_ne hslots]
      rw [if_neg hslots] at h
      -- Every other directive keeps the steps and the number, or is an error.
      refine (?_ : Keeps s _) s' h
      refine Keeps.ite (.ok rfl rfl)
        (Keeps.ite (.ok rfl rfl) (Keeps.ite ?_ (Keeps.ite ?_ (Keeps.ite ?_ (Keeps.ite ?_
        (.error _))))))
      · rcases rest with _ | ⟨name, _ | ⟨value, _ | ⟨more, rest⟩⟩⟩
        · exact .error _
        · exact .error _
        · exact .ok rfl rfl
        · exact .error _
      · exact Keeps.ite (.ok rfl rfl) (.error _)
      · exact Keeps.ite (.ok rfl rfl) (Keeps.ite (.ok rfl rfl) (.error _))
      · exact Keeps.ite (.ok rfl rfl) (.error _)

/-! ## Steps -/

/-- `s'` is `s` with the steps of `words` added at line `n`, each of which it has
    been checked to address. -/
structure Adds (n : Nat) (s : Scenario) (words : List (List Chars)) (s' : Scenario) : Prop where
  slots : s'.slots = s.slots
  steps : s'.steps = s.steps ++ words.map fun w => (n, w)
  addresses : ∀ w ∈ words, Addresses s.slots w

theorem checkSlot_spec {words : List Chars} (hfirst : words.head? = some slotWord)
    (h : s.checkSlot words = .ok ()) :
    Addresses s.slots words := by
  intro _
  unfold Scenario.checkSlot at h
  rcases words with _ | ⟨first, _ | ⟨k, _ | ⟨more, rest⟩⟩⟩
  · exact absurd h (by simp)
  · exact absurd h (by simp)
  · obtain rfl : first = slotWord := by simpa using hfirst
    dsimp only at h
    split at h
    · rename_i hk
      obtain ⟨n, hn, hrange⟩ := (Option.any_eq_true _ _).mp hk
      exact ⟨k, n, rfl, hn, of_decide_eq_true hrange⟩
    · exact absurd h (by simp)
  · exact absurd h (by simp)

theorem takeStep_spec {n : Nat} {line : Chars} {s' : Scenario} (h : s.takeStep n line = .ok s') :
    Adds n s (wordsOf [line]) s' := by
  unfold Scenario.takeStep at h
  have hwords : wordsOf [line] = if scriptWords line = [] then [] else [scriptWords line] := by
    unfold wordsOf
    by_cases hnil : scriptWords line = []
    · simp [hnil]
    · simp [hnil]
  rw [hwords]
  dsimp only at h
  rcases hline : scriptWords line with _ | ⟨first, args⟩
  · rw [hline] at h
    obtain rfl := Except.ok.inj h
    exact ⟨rfl, (List.append_nil _).symm, fun w hw => absurd hw (by simp)⟩
  · rw [hline] at h
    rw [if_neg (List.cons_ne_nil _ _)]
    dsimp only [List.head?_cons] at h
    have hchecked : Addresses s.slots (first :: args) ∧ s' = s.add n (first :: args) := by
      by_cases hslot : first = slotWord
      · rw [if_pos hslot] at h
        obtain ⟨_, hcheck, hadd⟩ := bind_eq_ok.mp h
        exact ⟨checkSlot_spec (congrArg some hslot) hcheck, (Except.ok.inj hadd).symm⟩
      · rw [if_neg hslot] at h
        refine ⟨fun hfirst => absurd (Option.some.inj hfirst) hslot, (Except.ok.inj h).symm⟩
    obtain ⟨haddresses, rfl⟩ := hchecked
    refine ⟨rfl, rfl, ?_⟩
    intro w hw
    rw [List.mem_singleton.mp hw]
    exact haddresses

/-- The steps of two lots of lines. -/
theorem Adds.trans {n : Nat} {s₁ s₂ : Scenario} {l k : List (List Chars)} (h : Adds n s l s₁)
    (h' : Adds n s₁ k s₂) :
    Adds n s (l ++ k) s₂ := by
  refine ⟨h'.slots.trans h.slots, ?_, ?_⟩
  · rw [h'.steps, h.steps, List.map_append, List.append_assoc]
  · intro w hw
    rcases List.mem_append.mp hw with hl | hk
    · exact h.addresses w hl
    · have haddresses := h'.addresses w hk
      rw [h.slots] at haddresses
      exact haddresses

theorem includeLines_spec {file : Chars} {n : Nat} {l : List Chars} {s' : Scenario}
    (h : Scenario.includeLines file n s l = .ok s') : Adds n s (wordsOf l) s' := by
  induction l generalizing s with
  | nil =>
    obtain rfl := Except.ok.inj h
    exact ⟨rfl, (List.append_nil _).symm, fun w hw => absurd hw (by simp [wordsOf])⟩
  | cons line rest ih =>
    rw [Scenario.includeLines] at h
    split at h
    · exact absurd h (by simp)
    · obtain ⟨s₁, hstep, hrest⟩ := bind_eq_ok.mp h
      have hsplit : wordsOf (line :: rest) = wordsOf [line] ++ wordsOf rest := by
        unfold wordsOf
        rw [← List.filter_append, ← List.map_append]
        rfl
      rw [hsplit]
      exact (takeStep_spec hstep).trans (ih hrest)

variable {included : Chars → Except Chars Chars}

/-- What one line adds to the steps and does to the number of slots: never both. -/
theorem takeLine_spec {n : Nat} {line : Chars} {s' : Scenario}
    (h : s.takeLine included n line = .ok s') :
    s'.slots = (lineSlots line).getD s.slots ∧
      s'.steps = s.steps ++ (lineSteps included line).map (fun w => (n, w)) ∧
      (∀ w ∈ lineSteps included line, Addresses s.slots w) ∧
      (lineSteps included line ≠ [] → lineSlots line = none) := by
  unfold Scenario.takeLine at h
  unfold lineSlots lineSteps
  rcases hstrip : strip (chars "#@") (trimStart line) with _ | directive
  · rw [hstrip] at h
    have hadds := takeStep_spec h
    exact ⟨hadds.slots, hadds.steps, hadds.addresses, fun _ => rfl⟩
  · rw [hstrip] at h
    dsimp only at h ⊢
    rcases hinclude : strip (chars "include ") (trim directive) with _ | file
    · rw [hinclude] at h
      obtain ⟨hsteps, hslots⟩ := directive_spec h
      refine ⟨hslots, hsteps.trans (List.append_nil _).symm, ?_, fun hne => absurd rfl hne⟩
      intro w hw
      exact absurd hw List.not_mem_nil
    · rw [hinclude] at h
      dsimp only [Scenario.takeInclude] at h ⊢
      rcases htext : included (trim file) with why | text
      · rw [htext] at h
        exact absurd h (by simp)
      · rw [htext] at h
        have hadds := includeLines_spec h
        exact ⟨hadds.slots, hadds.steps, hadds.addresses, fun _ => rfl⟩

/-! ## The file -/

/-- A step that fits some number of slots fits another just if the other is not below
    the slot that it names. -/
theorem addresses_iff {slots slots' : Nat} {words : List Chars} (h : Addresses slots words) :
    Addresses slots' words ↔ ∀ k ∈ named words, k ≤ slots' := by
  unfold named
  by_cases hfirst : words.head? = some slotWord
  · obtain ⟨k, n, rfl, hn, hpos, -⟩ := h hfirst
    have hnamed : ([slotWord, k][1]?).bind parseUsize = some n := hn
    rw [if_pos hfirst, hnamed]
    constructor
    · intro haddresses m hm
      obtain ⟨k', n', heq, hn', -, hle⟩ := haddresses hfirst
      obtain rfl : k = k' := by simpa using heq
      obtain rfl : n = m := Option.some.inj hm
      obtain rfl : n = n' := Option.some.inj (hn.symm.trans hn')
      exact hle
    · intro hle _
      exact ⟨k, n, rfl, hn, hpos, hle n rfl⟩
  · rw [if_neg hfirst]
    constructor
    · intro _ k hk
      exact absurd hk (by simp)
    · intro _ hyes
      exact absurd hyes hfirst

/-- The steps of a file's lines, and when they fit the final number of slots. -/
theorem takeLines_spec {n : Nat} {l : List Chars} {s' : Scenario}
    (h : Scenario.takeLines included n s l = .ok s') :
    s'.slots = (lastSlots l).getD s.slots ∧
      ∃ steps, s'.steps = s.steps ++ steps ∧
      ((∀ step ∈ steps, Addresses s'.slots step.2) ↔ Kept included l) := by
  induction l generalizing n s with
  | nil =>
    obtain rfl := Except.ok.inj h
    exact ⟨rfl, [], (List.append_nil _).symm,
      ⟨fun _ => trivial, fun _ step hstep => absurd hstep List.not_mem_nil⟩⟩
  | cons line rest ih =>
    rw [Scenario.takeLines] at h
    rcases hline : s.takeLine included n line with e | s₁
    · rw [hline] at h
      exact absurd h (by simp)
    · rw [hline] at h
      obtain ⟨hslots₁, hsteps₁, haddresses, hapart⟩ := takeLine_spec hline
      obtain ⟨hslots, steps, hsteps, hiff⟩ := ih h
      have hfinal : s'.slots = (lastSlots (line :: rest)).getD s.slots := by
        rw [hslots, hslots₁, lastSlots]
        rcases lastSlots rest with _ | m
        · rfl
        · rfl
      refine ⟨hfinal, (lineSteps included line).map (fun w => (n, w)) ++ steps, ?_, ?_⟩
      · rw [hsteps, hsteps₁, List.append_assoc]
      · -- the steps of this line have been checked against the number that holds until the next
        -- directive
        have hhere : (∀ w ∈ lineSteps included line, Addresses s'.slots w) ↔
            ∀ w ∈ lineSteps included line, ∀ k ∈ named w, ∀ slots ∈ lastSlots rest, k ≤ slots := by
          refine forall₂_congr fun w hw => ?_
          have hnow := haddresses w hw
          have hnone := hapart (List.ne_nil_of_mem hw)
          rw [addresses_iff hnow, hslots, hslots₁, hnone]
          refine forall₂_congr fun k hk => ?_
          rcases lastSlots rest with _ | m
          · exact iff_of_true ((addresses_iff hnow).mp hnow k hk) fun slots hslots =>
              absurd hslots (by simp)
          · constructor
            · intro hle slots hmem
              obtain rfl : m = slots := Option.some.inj hmem
              exact hle
            · intro hle
              exact hle m rfl
        rw [Kept, ← hiff, ← hhere]
        constructor
        · intro hall
          refine ⟨fun w hw => ?_, fun step hstep => hall step (List.mem_append_right _ hstep)⟩
          exact hall (n, w) (List.mem_append_left _ (List.mem_map_of_mem hw))
        · rintro ⟨hfirst, hrest⟩ step hstep
          rcases List.mem_append.mp hstep with hmem | hmem
          · obtain ⟨w, hw, rfl⟩ := List.mem_map.mp hmem
            exact hfirst w hw
          · exact hrest step hmem

theorem directiveSlots_pos {words : List Chars} {slots : Nat}
    (h : directiveSlots words = some slots) : 1 ≤ slots := by
  unfold directiveSlots at h
  split at h
  · split at h
    · have hrange := (Option.filter_eq_some_iff.mp h).2
      exact (of_decide_eq_true hrange).1
    · exact absurd h (by simp)
  · exact absurd h (by simp)

theorem lastSlots_pos {l : List Chars} {slots : Nat} (h : lastSlots l = some slots) :
    1 ≤ slots := by
  induction l with
  | nil => exact absurd h (by simp [lastSlots])
  | cons line rest ih =>
    rw [lastSlots] at h
    rcases hrest : lastSlots rest with _ | m
    · rw [hrest] at h
      have hline : lineSlots line = some slots := h
      unfold lineSlots at hline
      split at hline
      · split at hline
        · exact absurd hline (by simp)
        · exact directiveSlots_pos hline
      · exact absurd hline (by simp)
    · rw [hrest] at h
      exact ih (hrest.trans h)

/-- The runner selects only slots that there are. -/
theorem selected_lt {slots current : Nat} {steps : List (List Chars)}
    (h : ∀ w ∈ steps, Addresses slots w) (hcurrent : current < slots) :
    ∀ i ∈ selected current steps, i < slots := by
  induction steps generalizing current with
  | nil =>
    intro i hi
    exact absurd hi List.not_mem_nil
  | cons words rest ih =>
    have hrest : ∀ w ∈ rest, Addresses slots w := fun w hw => h w (List.mem_cons_of_mem _ hw)
    rw [selected]
    by_cases hfirst : words.head? = some slotWord
    · obtain ⟨k, n, rfl, hn, hpos, hle⟩ := h words List.mem_cons_self hfirst
      have hnamed : ([slotWord, k][1]?).bind parseUsize = some n := hn
      rw [if_pos hfirst, hnamed]
      apply ih hrest
      show n - 1 < slots
      omega
    · rw [if_neg hfirst]
      intro i hi
      rcases List.mem_cons.mp hi with rfl | hmem
      · exact hcurrent
      · exact ih hrest hcurrent i hmem

/-- An accepted scenario addresses only slots that it has just if no later directive takes one away;
    the runner then selects none that it was not given. -/
theorem addressed_iff {path name text : Chars} {s : Scenario}
    (h : parse path name included text = .ok s) :
    (Addressed s ↔ Kept included (lines text)) ∧
      (Addressed s → ∀ i ∈ selected 0 (s.steps.map Prod.snd), i < s.slots) := by
  obtain ⟨hslots, steps, hsteps, hiff⟩ := takeLines_spec h
  rw [List.nil_append] at hsteps
  refine ⟨?_, ?_⟩
  · unfold Addressed
    rw [hsteps]
    exact hiff
  · intro haddressed
    have hpos : 0 < s.slots := by
      rw [hslots]
      rcases hlast : lastSlots (lines text) with _ | m
      · exact Nat.one_pos
      · exact lastSlots_pos hlast
    refine selected_lt ?_ hpos
    intro w hw
    obtain ⟨step, hstep, rfl⟩ := List.mem_map.mp hw
    exact haddressed step hstep

end

/-- Two slots, the second of which is pressed on. -/
theorem two_slots_addressed :
    ∃ s, parse [] (chars "two") (fun _ => .error [])
      (chars "#@ slots 2\nslot 2\npress PLAY\n") = .ok s ∧
      (Addressed s ↔ Kept (fun _ => .error []) (lines (chars "#@ slots 2\nslot 2\npress PLAY\n"))) ∧
      selected 0 (s.steps.map Prod.snd) = [1] := by
  have hparse :
      parse [] (chars "two") (fun _ => .error []) (chars "#@ slots 2\nslot 2\npress PLAY\n") =
      .ok ⟨[], chars "two", [], 2, [], none, true, false,
        [(2, [chars "slot", chars "2"]), (3, [chars "press", chars "PLAY"])]⟩ := by
    decide
  exact ⟨_, hparse, (addressed_iff hparse).1, by decide⟩

/-- A directive behind the step leaves the file with two slots: the step names the fourth. -/
theorem slots_lowered :
    ¬ ∀ (path name text : Chars) (included : Chars → Except Chars Chars) (s : Scenario),
      parse path name included text = .ok s → Addressed s := by
  intro h
  have hparse :
      parse [] (chars "four") (fun _ => .error []) (chars "#@ slots 4\nslot 4\n#@ slots 2\n") =
      .ok ⟨[], chars "four", [], 2, [], none, true, false, [(2, [chars "slot", chars "4"])]⟩ := by
    decide
  obtain ⟨k, n, hwords, hn, -, hle⟩ :=
    h _ _ _ _ _ hparse (2, [chars "slot", chars "4"]) List.mem_cons_self rfl
  obtain rfl : chars "4" = k := by simpa using (List.cons.inj (List.cons.inj hwords).2).1
  have hfour : parseUsize (chars "4") = some 4 := by
    decide
  obtain rfl : 4 = n := Option.some.inj (hfour.symm.trans hn)
  exact absurd hle (by decide)

end CdjEmu.E2e
