/-
  COMMAND LINES — how Windows makes arguments of one text.

  `expand` is what a command shell does to the variables between percent signs, and
  `commandLineToArgv` splits the text: the program up to the second quote, then words, in which a
  quote opens or closes a part that may hold blanks, and backslashes count only in front of a quote.

  The crux is a program and arguments that are all in quotes.  They come back as they were when no
  quote stands in the program and no argument is empty, holds a quote or ends in a backslash
  (`argv_plain`).  When a quote does stand in the program, whatever it is, the rest falls apart
  (`argv_broken`): its own closing quote ends a quoted part, and there are more arguments than were
  written, or begins one, and from there on what was inside the quotes is outside.
-/
import CdjEmu.Lib.Chars

namespace CdjEmu.CommandLine

def quote : Char := Char.ofNat 0x22

/-- The backslash, which counts in front of quotation marks. -/
def backslash : Char := Char.ofNat 0x5C

/-- The characters between two arguments. -/
def isBlank (c : Char) : Bool := c = ' ' || c = '\t'

/-! ## Variables -/

/-- The text with the variables' values; `pending` is what has been read since a percent sign. -/
def expandFrom (env : Chars → Option Chars) : Option Chars → Chars → Chars
  | none, [] => []
  | some name, [] => '%' :: name
  | none, c :: s => if c = '%' then expandFrom env (some []) s else c :: expandFrom env none s
  | some name, c :: s =>
    if c = '%' then
      match env name with
      | some value => value ++ expandFrom env none s
      -- not a variable: the second sign may begin one
      | none => '%' :: name ++ expandFrom env (some []) s
    else expandFrom env (some (name ++ [c])) s

/-- The text with its variables put in. -/
def expand (env : Chars → Option Chars) (s : Chars) : Chars := expandFrom env none s

section Expand

variable {env : Chars → Option Chars} {t : Chars}

theorem expandFrom_cons {c : Char} (hc : c ≠ '%') (s : Chars) :
    expandFrom env none (c :: s) = c :: expandFrom env none s := by
  rw [expandFrom, if_neg hc]

/-- Inside a pair of percent signs the name is collected. -/
theorem expandFrom_name {c : Char} (hc : c ≠ '%') (name s : Chars) :
    expandFrom env (some name) (c :: s) = expandFrom env (some (name ++ [c])) s := by
  rw [expandFrom, if_neg hc]

/-- What holds no percent sign is left alone. -/
theorem expandFrom_plain (h : '%' ∉ t) (pending : Option Chars) :
    expandFrom env pending t = expandFrom env pending [] ++ t := by
  induction t generalizing pending with
  | nil => rw [List.append_nil]
  | cons c t ih =>
    rw [List.mem_cons, not_or] at h
    obtain ⟨hc, ht⟩ := h
    rcases pending with _ | name
    · rw [expandFrom_cons (Ne.symm hc), ih ht]
      rfl
    · rw [expandFrom_name (Ne.symm hc), ih ht]
      simp [expandFrom]

/-- And it closes nothing that stands in front of it. -/
theorem expandFrom_append (h : '%' ∉ t) (pending : Option Chars) (s : Chars) :
    expandFrom env pending (s ++ t) = expandFrom env pending s ++ t := by
  induction s generalizing pending with
  | nil => exact expandFrom_plain h pending
  | cons c s ih =>
    rw [List.cons_append]
    rcases pending with _ | name
    · rw [expandFrom, expandFrom]
      split
      · exact ih _
      · rw [ih, List.cons_append]
    · rw [expandFrom, expandFrom]
      split
      · split
        · rw [ih, List.append_assoc]
        · rw [ih, List.append_assoc]
      · exact ih _

/-- Text without a percent sign is kept behind any other. -/
theorem expand_append (h : '%' ∉ t) (s : Chars) : expand env (s ++ t) = expand env s ++ t :=
  expandFrom_append h none s

theorem expand_cons {c : Char} (h : c ≠ '%') (s : Chars) :
    expand env (c :: s) = c :: expand env s := expandFrom_cons h s

/-- It is kept when it stands alone. -/
theorem expand_plain (h : '%' ∉ t) : expand env t = t := expandFrom_plain h none

end Expand

/-! ## Arguments -/

/-- How many quotes count: in front of a third one, two are none. -/
inductive Quotes where
  | none
  | one
  | two
  deriving DecidableEq

/-- Behind a run of quotes. -/
def Quotes.rest : Quotes → Quotes
  | .one => .one
  | _ => .none

/-- The state of the splitting: the arguments so far, the one that is read, and
    what is known of quotes. -/
structure Splitter where
  args : List Chars
  /-- The argument that is being read. -/
  cur : Option Chars
  quotes : Quotes
  /-- The last character was a quote. -/
  run : Bool
  /-- The backslashes just read. -/
  back : Nat

namespace Splitter

/-- Between two arguments. -/
def fresh (args : List Chars) : Splitter := ⟨args, none, .none, false, 0⟩

/-- A quotation mark opens, closes or stands for itself, by those in front of it. -/
def quoted (s : Splitter) : Splitter :=
  let cur := s.cur.getD []
  if s.run then
    match s.quotes with
    | .none => ⟨s.args, some cur, .one, true, 0⟩
    | .one => ⟨s.args, some cur, .two, true, 0⟩
    | .two => ⟨s.args, some (cur ++ [quote]), .none, true, 0⟩
  else if s.back % 2 = 0 then
    ⟨s.args, some (cur.take (cur.length - s.back / 2)), if s.quotes.rest = .one then .two else .one,
      true, 0⟩
  -- a quote of the text
  else ⟨s.args, some (cur.take (cur.length - s.back / 2 - 1) ++ [quote]), s.quotes.rest, true, 0⟩

/-- One character more. -/
def step (s : Splitter) (c : Char) : Splitter :=
  if c = quote then s.quoted
  else if isBlank c ∧ s.quotes.rest = .none then fresh (s.args ++ s.cur.toList)
  else
    { s with
      cur := some (s.cur.getD [] ++ [c])
      quotes := s.quotes.rest
      run := false
      back := if c = backslash then s.back + 1 else 0 }

/-- A text, character by character. -/
def read (s : Splitter) (text : Chars) : Splitter := text.foldl step s

/-- At the end the open argument counts. -/
def finish (s : Splitter) : List Chars := s.args ++ s.cur.toList

end Splitter

open Splitter

/-- `CommandLineToArgvW` of a line that begins with a quote: the program ends at the
    next one, no matter what. -/
def commandLineToArgv : Chars → List Chars
  | [] => []
  | c :: s =>
    if c = quote then s.takeWhile (· ≠ quote) ::
      ((fresh []).read ((s.dropWhile (· ≠ quote)).drop 1)).finish
    else
      let s := c :: s
      s.takeWhile (fun c => !isBlank c) ::
        ((fresh []).read (s.dropWhile fun c => !isBlank c)).finish

/-! ## Arguments in quotes -/

/-- An argument that quotes keep together: not empty, without a quote, and with
    no backslash at its end. -/
structure Plain (a : Chars) : Prop where
  noQuote : quote ∉ a
  last : ∃ b c, a = b ++ [c] ∧ c ≠ backslash

/-- Each argument in quotes, with a blank between two. -/
def joined : List Chars → Chars
  | [] => []
  | [a] => quote :: a ++ [quote]
  | a :: b :: as => quote :: a ++ quote :: ' ' :: joined (b :: as)

/-- What follows the program: a word, and the arguments. -/
def tail (word : Chars) (as : List Chars) : Chars := ' ' :: word ++ ' ' :: joined as

/-- Arguments in quotation marks, with blanks between them. -/
theorem joined_eq (as : List Chars) :
    [' '].intercalate (as.map fun a => quote :: a ++ [quote]) = joined as := by
  induction as with
  | nil => rfl
  | cons a as ih =>
    rcases as with _ | ⟨b, as⟩
    · simp [joined, List.intercalate]
    · rw [joined, ← ih]
      simp [List.intercalate]

/-- Nothing else stands in such a line. -/
theorem mem_joined {c : Char} {as : List Chars} (h : c ∈ joined as) :
    c = quote ∨ c = ' ' ∨ ∃ a ∈ as, c ∈ a := by
  fun_induction joined as with
  | case1 => cases h
  | case2 a =>
    simp only [List.cons_append, List.mem_cons, List.mem_append, List.not_mem_nil, or_false] at h
    rcases h with rfl | h | rfl
    · exact Or.inl rfl
    · exact Or.inr (Or.inr ⟨a, List.mem_cons_self, h⟩)
    · exact Or.inl rfl
  | case3 a b as ih =>
    simp only [List.cons_append, List.mem_cons, List.mem_append] at h
    rcases h with rfl | h | rfl | rfl | h
    · exact Or.inl rfl
    · exact Or.inr (Or.inr ⟨a, List.mem_cons_self, h⟩)
    · exact Or.inl rfl
    · exact Or.inr (Or.inl rfl)
    · rcases ih h with hc | hc | ⟨x, hx, hc⟩
      · exact Or.inl hc
      · exact Or.inr (Or.inl hc)
      · exact Or.inr (Or.inr ⟨x, List.mem_cons_of_mem _ hx, hc⟩)

/-- The word needs no quotes. -/
structure Word (w : Chars) : Prop where
  plain : Plain w
  noBlank : ∀ c ∈ w, isBlank c = false

namespace Splitter

variable {s : Splitter} {a t : Chars} {as : List Chars} {c : Char}

theorem read_append (s : Splitter) (t u : Chars) : s.read (t ++ u) = (s.read t).read u :=
  List.foldl_append

theorem read_cons (s : Splitter) (c : Char) (t : Chars) : s.read (c :: t) = (s.step c).read t := rfl

/-- Inside quotes a blank is a character like another. -/
theorem step_inside (hq : s.quotes.rest = .one) (hc : c ≠ quote) : s.step c =
    ⟨s.args, some (s.cur.getD [] ++ [c]), .one, false,
      if c = backslash then s.back + 1 else 0⟩ := by
  rw [step, if_neg hc, if_neg (fun h => by rw [hq] at h; exact absurd h.2 (by decide)), hq]

/-- Without a quotation mark the argument goes on inside the quotes. -/
theorem read_inside (hq : s.quotes.rest = .one) (ht : quote ∉ t) :
    (s.read t).args = s.args ∧ (s.read t).cur.getD [] = s.cur.getD [] ++ t ∧
    (s.read t).quotes.rest = .one := by
  induction t generalizing s with
  | nil => exact ⟨rfl, (List.append_nil _).symm, hq⟩
  | cons c t ih =>
    rw [List.mem_cons, not_or] at ht
    have hstep := step_inside hq (Ne.symm ht.1)
    obtain ⟨hargs, hcur, hquotes⟩ := ih (s := s.step c) (by rw [hstep]; rfl) ht.2
    rw [read_cons]
    refine ⟨?_, ?_, hquotes⟩
    · rw [hargs, hstep]
    · rw [hcur, hstep]
      simp

/-- A plain one goes on as it is. -/
theorem read_plain_inside (hq : s.quotes.rest = .one) (ha : Plain a) :
    s.read a = ⟨s.args, some (s.cur.getD [] ++ a), .one, false, 0⟩ := by
  obtain ⟨b, c, rfl, hc⟩ := ha.last
  have hno := ha.noQuote
  rw [List.mem_append, not_or, List.mem_singleton] at hno
  obtain ⟨hargs, hcur, hquotes⟩ := read_inside hq hno.1
  rw [read_append]
  show (s.read b).step c = _
  rw [step_inside hquotes (Ne.symm hno.2), hargs, hcur, if_neg hc, List.append_assoc]

/-- Outside of quotes a blank ends the argument. -/
theorem step_blank (hq : s.quotes.rest = .none) (hc : isBlank c = true) :
    s.step c = fresh (s.args ++ s.cur.toList) := by
  have hne : c ≠ quote := by
    rintro rfl
    exact absurd hc (by decide)
  rw [step, if_neg hne, if_pos ⟨hc, hq⟩]

/-- Outside them a character that is no blank goes on with the argument. -/
theorem step_outside (hq : s.quotes.rest = .none) (hc : c ≠ quote) (hblank : isBlank c = false) :
    s.step c =
    ⟨s.args, some (s.cur.getD [] ++ [c]), .none, false,
      if c = backslash then s.back + 1 else 0⟩ := by
  rw [step, if_neg hc, if_neg (fun h => by rw [hblank] at h; exact absurd h.1 (by decide)), hq]

/-- Without a quotation mark the quotes stay closed. -/
theorem read_outside (hq : s.quotes.rest = .none) (ht : quote ∉ t) :
    (s.read t).quotes.rest = .none := by
  induction t generalizing s with
  | nil => exact hq
  | cons c t ih =>
    rw [List.mem_cons, not_or] at ht
    refine ih ?_ ht.2
    cases hblank : isBlank c with
    | true => rw [step_blank hq hblank]; rfl
    | false => rw [step_outside hq (Ne.symm ht.1) hblank]; rfl

theorem read_plain_outside (hq : s.quotes.rest = .none) (ha : Plain a) :
    ∃ args cur, s.read a = ⟨args, cur, .none, false, 0⟩ := by
  obtain ⟨b, c, rfl, hc⟩ := ha.last
  have hno := ha.noQuote
  rw [List.mem_append, not_or, List.mem_singleton] at hno
  have hquotes := read_outside hq hno.1
  rw [read_append]
  show ∃ args cur, (s.read b).step c = _
  cases hblank : isBlank c with
  | true => exact ⟨_, _, step_blank hquotes hblank⟩
  | false =>
    rw [step_outside hquotes (Ne.symm hno.2) hblank, if_neg hc]
    exact ⟨_, _, rfl⟩

/-- And without a blank it is one argument. -/
theorem read_noBlank (hq : s.quotes.rest = .none) (ht : quote ∉ t)
    (hblank : ∀ c ∈ t, isBlank c = false) :
    (s.read t).args = s.args ∧ (s.read t).cur.getD [] = s.cur.getD [] ++ t := by
  induction t generalizing s with
  | nil => exact ⟨rfl, (List.append_nil _).symm⟩
  | cons c t ih =>
    rw [List.mem_cons, not_or] at ht
    rw [List.forall_mem_cons] at hblank
    have hstep := step_outside hq (Ne.symm ht.1) hblank.1
    obtain ⟨hargs, hcur⟩ := ih (s := s.step c) (by rw [hstep]; rfl) ht.2 hblank.2
    rw [read_cons, hargs, hcur, hstep]
    exact ⟨rfl, by simp⟩

/-- A word goes on with the argument that is being read. -/
theorem read_word (hq : s.quotes.rest = .none) (ha : Word a) :
    s.read a = ⟨s.args, some (s.cur.getD [] ++ a), .none, false, 0⟩ := by
  obtain ⟨b, c, rfl, hc⟩ := ha.plain.last
  have hno := ha.plain.noQuote
  rw [List.mem_append, not_or, List.mem_singleton] at hno
  have hblank : ∀ d ∈ b, isBlank d = false := fun d hd => ha.noBlank d (List.mem_append_left _ hd)
  obtain ⟨hargs, hcur⟩ := read_noBlank hq hno.1 hblank
  rw [read_append]
  show (s.read b).step c = _
  rw [step_outside (read_outside hq hno.1) (Ne.symm hno.2) (ha.noBlank c (by simp)), hargs, hcur,
    if_neg hc, List.append_assoc]

/-- A quote behind other characters, without a backslash in front. -/
theorem step_quote (args : List Chars) (cur : Option Chars) (q : Quotes) :
    step ⟨args, cur, q, false, 0⟩ quote =
      ⟨args, some (cur.getD []), if q.rest = .one then .two else .one, true, 0⟩ := by
  rw [step, if_pos rfl, quoted]
  dsimp only
  rw [if_neg Bool.false_ne_true, if_pos rfl]
  simp

/-- An argument in quotes. -/
theorem read_quoted (args : List Chars) (ha : Plain a) :
    (fresh args).read (quote :: a ++ [quote]) = ⟨args, some a, .two, true, 0⟩ := by
  rw [List.cons_append, read_cons, fresh, step_quote, read_append, read_plain_inside rfl ha]
  exact step_quote _ _ _

/-- Arguments in quotes come back. -/
theorem read_joined (args : List Chars) (h : ∀ a ∈ as, Plain a) :
    ((fresh args).read (joined as)).finish = args ++ as := by
  induction as generalizing args with
  | nil => rfl
  | cons a as ih =>
    rw [List.forall_mem_cons] at h
    rcases as with _ | ⟨b, as⟩
    · rw [joined, read_quoted args h.1]
      rfl
    · have hsplit : joined (a :: b :: as) = (quote :: a ++ [quote]) ++ ' ' :: joined (b :: as) := by
        simp [joined]
      rw [hsplit, read_append, read_quoted args h.1, read_cons, step_blank rfl rfl, ih _ h.2]
      simp

/-- Outside of quotes, the word and the arguments follow what has been read. -/
theorem read_tail (hq : s.quotes.rest = .none) {w : Chars} (hw : Word w) (h : ∀ a ∈ as, Plain a) :
    (s.read (tail w as)).finish = s.args ++ s.cur.toList ++ w :: as := by
  rw [tail, List.cons_append, read_cons, step_blank hq rfl, read_append, read_word rfl hw,
    read_cons, step_blank rfl rfl, read_joined _ h]
  simp [fresh]

/-- Inside quotes, an argument with its quotes is outside. -/
theorem read_quoted_inside (args : List Chars) (x : Chars) (ha : Plain a) :
    ∃ args' y, read ⟨args, some x, .one, false, 0⟩ (quote :: a ++ [quote]) =
      ⟨args', some y, .one, true, 0⟩ := by
  rw [List.cons_append, read_cons, step_quote, read_append]
  obtain ⟨args', cur, hread⟩ := read_plain_outside (s := ⟨args, some x, .two, true, 0⟩) rfl ha
  rw [if_pos (show Quotes.one.rest = .one from rfl), Option.getD_some, hread]
  exact ⟨args', cur.getD [], step_quote _ _ _⟩

/-- And the last one ends an argument that has a blank in front of it. -/
theorem read_joined_inside (args : List Chars) (x : Chars) {last : Chars} (h : ∀ a ∈ as, Plain a)
    (hlast : Word last) :
    ∃ y, (read ⟨args, some (x ++ [' ']), .one, false, 0⟩ (joined (as ++ [last]))).finish.getLast? =
      some (y ++ ' ' :: last) := by
  induction as generalizing args x with
  | nil =>
    refine ⟨x, ?_⟩
    rw [List.nil_append, joined, List.cons_append, read_cons, step_quote,
      if_pos (show Quotes.one.rest = .one from rfl), read_append, read_word rfl hlast]
    have hclose := step_quote args (some (x ++ [' '] ++ last)) .none
    refine (congrArg (fun s => (finish s).getLast?) hclose).trans ?_
    simp [finish]
  | cons a as ih =>
    rw [List.forall_mem_cons] at h
    have hsplit :
        joined (a :: as ++ [last]) = (quote :: a ++ [quote]) ++ ' ' :: joined (as ++ [last]) := by
      rcases as with _ | ⟨b, as⟩
      · simp [joined]
      · simp [joined]
    obtain ⟨args', y, hread⟩ := read_quoted_inside args (x ++ [' ']) h.1
    rw [hsplit, read_append, hread, read_cons, step_inside rfl (by decide), if_neg (by decide)]
    exact ih args' y h.2

/-- Behind a quote. -/
theorem step_quote_eq (s : Splitter) : ∃ x q, s.step quote = ⟨s.args, some x, q, true, 0⟩ := by
  rw [step, if_pos rfl, quoted]
  split
  · split
    · exact ⟨_, _, rfl⟩
    · exact ⟨_, _, rfl⟩
    · exact ⟨_, _, rfl⟩
  · split
    · exact ⟨_, _, rfl⟩
    · exact ⟨_, _, rfl⟩

end Splitter

section Argv

variable {e w last : Chars} {as : List Chars}

/-- A program in quotation marks ends at the next one, whatever backslashes are in front of it. -/
theorem commandLineToArgv_quote (s : Chars) : commandLineToArgv (quote :: s) =
    s.takeWhile (· ≠ quote) :: ((fresh []).read ((s.dropWhile (· ≠ quote)).drop 1)).finish := by
  rw [commandLineToArgv, if_pos rfl]

theorem ne_quote (he : quote ∉ e) {c : Char} (hc : c ∈ e) : decide (c ≠ quote) = true := by
  rw [decide_eq_true_eq]
  rintro rfl
  exact he hc

/-- The first quotation mark ends what has none. -/
theorem takeWhile_quote (he : quote ∉ e) (t : Chars) :
    (e ++ quote :: t).takeWhile (· ≠ quote) = e := by
  rw [List.takeWhile_append_of_pos fun c hc => ne_quote he hc, List.takeWhile_cons_of_neg (by simp),
    List.append_nil]

theorem dropWhile_quote (he : quote ∉ e) (t : Chars) :
    (e ++ quote :: t).dropWhile (· ≠ quote) = quote :: t := by
  rw [List.dropWhile_append_of_pos fun c hc => ne_quote he hc, List.dropWhile_cons_of_neg (by simp)]

/-- So the program's name is split off first. -/
theorem argv_quote (he : quote ∉ e) (t : Chars) :
    commandLineToArgv (quote :: (e ++ quote :: t)) = e :: ((fresh []).read t).finish := by
  rw [commandLineToArgv_quote, takeWhile_quote he, dropWhile_quote he, List.drop_one,
    List.tail_cons]

/-- A program without a quote, and its arguments. -/
theorem argv_plain (he : quote ∉ e) (hw : Word w) (h : ∀ a ∈ as, Plain a) :
    commandLineToArgv (quote :: e ++ quote :: tail w as) = e :: w :: as := by
  rw [List.cons_append, argv_quote he, read_tail rfl hw h]
  rfl

/-- A word between blanks keeps to the argument that is being read inside quotes. -/
theorem read_tail_inside (args : List Chars) (x : Chars) (hw : Word w) (h : ∀ a ∈ as, Plain a)
    (hlast : Word last) :
    ∃ y, (read ⟨args, some x, .one, true, 0⟩ (tail w (as ++ [last]))).finish.getLast? =
      some (y ++ ' ' :: last) := by
  have hinside : Plain (' ' :: w) := by
    obtain ⟨b, c, hb, hc⟩ := hw.plain.last
    refine ⟨?_, ' ' :: b, c, by rw [hb]; rfl, hc⟩
    rw [List.mem_cons, not_or]
    exact ⟨by decide, hw.plain.noQuote⟩
  rw [tail, read_append, read_plain_inside rfl hinside, read_cons, step_inside rfl (by decide),
    if_neg (by decide)]
  exact read_joined_inside args _ h hlast

/-- A quote in the program takes the arguments apart. -/
theorem argv_broken (he : quote ∈ e) (hw : Word w) (h : ∀ a ∈ as ++ [last], Plain a)
    (hlast : Word last) :
    ∃ p rest, commandLineToArgv (quote :: e ++ quote :: tail w (as ++ [last])) = p :: rest ∧
      ((as ++ [last]).length + 1 < rest.length ∨ ∃ y, rest.getLast? = some (y ++ ' ' :: last)) := by
  obtain ⟨front, back, rfl, hfront⟩ := List.eq_append_cons_of_mem he
  obtain ⟨x, q, hstep⟩ := step_quote_eq ((fresh []).read back)
  refine ⟨front,
    (read ⟨((fresh []).read back).args, some x, q, true, 0⟩ (tail w (as ++ [last]))).finish, ?_, ?_⟩
  · have hsplit : quote :: (front ++ quote :: back) ++ quote :: tail w (as ++ [last]) =
        quote :: (front ++ quote :: (back ++ quote :: tail w (as ++ [last]))) := by
      simp
    rw [hsplit, argv_quote hfront, read_append, read_cons, hstep]
  · by_cases hq : q = .one
    · right
      rw [hq]
      exact read_tail_inside _ x hw (fun a ha => h a (List.mem_append_left _ ha)) hlast
    · left
      have hrest : q.rest = .none := by
        rcases q
        · rfl
        · exact absurd rfl hq
        · rfl
      rw [read_tail hrest hw h]
      simp only [Option.toList_some, List.length_append, List.length_cons, List.length_nil]
      omega

end Argv

end CdjEmu.CommandLine
