/-
  TEXT BY CHARACTERS — a `str` as the sequence of its characters, for code that reads words and
  lines.

  `Lib/Text` keeps a `str` as its bytes, which is what files and sockets hold.  Code that trims,
  splits at white space and compares words says nothing about bytes but how many there are; over
  characters its functions are those of lists: `trim` drops at both ends, `splitWhitespace` keeps
  the words between.

  The laws used are about texts that trimming leaves alone, about the words of a text written as
  word, space, word, and about numbers: reading back what was written gives the number.
-/
import Mathlib

namespace CdjEmu

/-- A `str`. -/
abbrev Chars := List Char

/-- The text of a literal. -/
def chars (s : String) : Chars := s.toList

namespace Chars

/-! ## White space -/

/-- `char::is_whitespace`: the Unicode property White_Space. -/
def isWhitespace (c : Char) : Bool :=
  (9 ≤ c.toNat && c.toNat ≤ 13) || (0x2000 ≤ c.toNat && c.toNat ≤ 0x200A) ||
    [0x20, 0x85, 0xA0, 0x1680, 0x2028, 0x2029, 0x202F, 0x205F, 0x3000].contains c.toNat

/-- `trim_start`. -/
def trimStart (s : Chars) : Chars := s.dropWhile isWhitespace

/-- `trim_end`. -/
def trimEnd (s : Chars) : Chars := s.rdropWhile isWhitespace

/-- `trim`. -/
def trim (s : Chars) : Chars := trimEnd (trimStart s)

/-- The words of `s`. -/
def splitWhitespace (s : Chars) : List Chars := (s.splitOnP isWhitespace).filter (· ≠ [])

/-- What follows `p` at the start of `s`. -/
def strip (p s : Chars) : Option Chars := if p.isPrefixOf s then some (s.drop p.length) else none

/-- The number of bytes. -/
def utf8Len (s : Chars) : Nat := (s.map Char.utf8Size).sum

/-- A prefix that is there is stripped. -/
@[simp] theorem strip_append (p s : Chars) : strip p (p ++ s) = some s := by
  simp [strip]

/-- And only one that is there. -/
theorem strip_eq_some {p s t : Chars} : strip p s = some t ↔ s = p ++ t := by
  constructor
  · intro h
    unfold strip at h
    split at h
    · rename_i hp
      obtain ⟨u, rfl⟩ := List.isPrefixOf_iff_prefix.mp hp
      simpa using h
    · cases h
  · rintro rfl
    exact strip_append p t

/-- Texts that differ in their first `k` characters. -/
theorem strip_of_take_ne {p q : Chars} (k : Nat) (hp : k ≤ p.length) (hq : k ≤ q.length)
    (h : p.take k ≠ q.take k) (t : Chars) : strip p (q ++ t) = none := by
  rw [Option.eq_none_iff_forall_ne_some]
  intro u hu
  have htake := congrArg (List.take k) (strip_eq_some.mp hu)
  rw [List.take_append_of_le_length hq, List.take_append_of_le_length hp] at htake
  exact h htake.symm

/-! ### Trimming -/

/-- Trimming twice is trimming once. -/
theorem trimStart_idem (s : Chars) : trimStart (trimStart s) = trimStart s :=
  List.dropWhile_idempotent _ _

theorem trimEnd_idem (s : Chars) : trimEnd (trimEnd s) = trimEnd s := List.rdropWhile_idempotent _ _

/-- Trimming the end leaves the first character: it goes only if all of the text goes. -/
theorem trimStart_trimEnd_of {s : Chars} (h : trimStart s = s) :
    trimStart (trimEnd s) = trimEnd s := by
  cases s with
  | nil => rfl
  | cons c s =>
    have hc : isWhitespace c = false := by
      by_contra hw
      have hlen := congrArg List.length h
      rw [trimStart, List.dropWhile_cons, if_pos (by simpa using hw)] at hlen
      have hle := (List.dropWhile_suffix isWhitespace (l := s)).length_le
      simp only [List.length_cons] at hlen
      omega
    obtain ⟨t, ht⟩ : trimEnd (c :: s) <+: c :: s := List.rdropWhile_prefix _ _
    cases hs : trimEnd (c :: s) with
    | nil => rfl
    | cons d u =>
      rw [hs] at ht
      obtain rfl : d = c := by simpa using congrArg List.head? ht
      simp [trimStart, hc]

theorem trimStart_trim (s : Chars) : trimStart (trim s) = trim s :=
  trimStart_trimEnd_of (trimStart_idem s)

theorem trimEnd_trim (s : Chars) : trimEnd (trim s) = trim s := trimEnd_idem _

theorem trim_trim (s : Chars) : trim (trim s) = trim s := by
  rw [trim, trimStart_trim, trimEnd_trim]

/-- A text that starts as `a` and ends as `b` is left alone when `a` and `b` are at these ends. -/
theorem trim_append {a b : Chars} (hane : a ≠ []) (ha : trimStart a = a) (hbne : b ≠ [])
    (hb : trimEnd b = b) :
    trim (a ++ b) = a ++ b := by
  have hstart : trimStart (a ++ b) = a ++ b := by
    cases a with
    | nil => exact absurd rfl hane
    | cons c a =>
      have hc : isWhitespace c = false := by
        have := List.dropWhile_eq_self_iff.mp ha (by simp)
        simpa using this
      simp [trimStart, hc]
  rw [trim, hstart, trimEnd, List.rdropWhile_eq_self_iff]
  intro hne
  rw [List.getLast_append_of_ne_nil _ hbne]
  exact List.rdropWhile_eq_self_iff.mp hb hbne

/-- What comes off is white space. -/
theorem trimStart_split (s : Chars) : ∃ lead :
    Chars, (∀ c ∈ lead, isWhitespace c = true) ∧ s = lead ++ trimStart s :=
  ⟨s.takeWhile isWhitespace, fun _ hc => List.mem_takeWhile_imp hc,
    List.takeWhile_append_dropWhile.symm⟩

/-- What is trimmed off the end is blank. -/
theorem trimEnd_split (s : Chars) : ∃ trail :
    Chars, (∀ c ∈ trail, isWhitespace c = true) ∧ s = trimEnd s ++ trail := by
  refine ⟨s.rtakeWhile isWhitespace, ?_, List.rdropWhile_append_rtakeWhile.symm⟩
  intro c hc
  exact List.mem_rtakeWhile_imp hc

/-- A text is what is left of it between blanks. -/
theorem trim_split (s : Chars) : ∃ lead trail : Chars, (∀ c ∈ lead, isWhitespace c = true) ∧
    (∀ c ∈ trail, isWhitespace c = true) ∧ s = lead ++ trim s ++ trail := by
  obtain ⟨lead, hlead, hs⟩ := trimStart_split s
  obtain ⟨trail, htrail, ht⟩ := trimEnd_split (trimStart s)
  refine ⟨lead, trail, hlead, htrail, ?_⟩
  rw [List.append_assoc, trim, ← ht, ← hs]

/-- What is trimmed begins with no white space. -/
theorem not_whitespace_of_trimStart {c : Char} {s t : Chars} (h : trimStart s = c :: t) :
    isWhitespace c = false := by
  have hidem := trimStart_idem s
  rw [h, trimStart, List.dropWhile_eq_self_iff] at hidem
  have hhead : ¬ isWhitespace c = true := hidem (by simp)
  simpa using hhead

/-- What is trimmed off two texts is trimmed off the second, and off the first only when
    nothing is left of it. -/
theorem trimEnd_append (s t : Chars) :
    trimEnd (s ++ t) = if trimEnd t = [] then trimEnd s else s ++ trimEnd t := by
  induction t using List.reverseRecOn with
  | nil => simp [trimEnd]
  | append_singleton t c ih =>
    by_cases hc : isWhitespace c = true
    · have h1 : trimEnd (s ++ (t ++ [c])) = trimEnd (s ++ t) := by
        rw [← List.append_assoc]
        exact List.rdropWhile_concat_pos _ _ _ hc
      have h2 : trimEnd (t ++ [c]) = trimEnd t := List.rdropWhile_concat_pos _ _ _ hc
      rw [h1, h2, ih]
    · have h1 : trimEnd (s ++ (t ++ [c])) = s ++ (t ++ [c]) := by
        rw [← List.append_assoc]
        exact List.rdropWhile_concat_neg _ _ _ hc
      have h2 : trimEnd (t ++ [c]) = t ++ [c] := List.rdropWhile_concat_neg _ _ _ hc
      rw [h1, h2, if_neg (by simp)]

/-- A text without blanks is trimmed already. -/
theorem trim_of_words {s : Chars} (h : ∀ c ∈ s, isWhitespace c = false) : trim s = s := by
  have hstart : trimStart s = s := by
    rw [trimStart, List.dropWhile_eq_self_iff]
    intro hne
    simpa using h _ (List.getElem_mem hne)
  rw [trim, hstart, trimEnd, List.rdropWhile_eq_self_iff]
  intro hne
  simpa using h _ (List.getLast_mem hne)

/-! ### Words -/

/-- Blanks at either end make no word. -/
theorem splitWhitespace_cons {c : Char} (hc : isWhitespace c = true) (s : Chars) :
    splitWhitespace (c :: s) = splitWhitespace s := by
  simp [splitWhitespace, List.splitOnP_cons_eq_if_modifyHead, hc]

theorem splitWhitespace_concat {c : Char} (hc : isWhitespace c = true) (s : Chars) :
    splitWhitespace (s ++ [c]) = splitWhitespace s := by
  simp [splitWhitespace, List.splitOnP_append_cons s [] hc]

/-- A word, white space, and more. -/
theorem splitWhitespace_word_cons {w : Chars} (hne : w ≠ []) (hw : ∀ c ∈ w, isWhitespace c = false)
    {c : Char} (hc : isWhitespace c = true) (s : Chars) :
    splitWhitespace (w ++ c :: s) = w :: splitWhitespace s := by
  rw [splitWhitespace, List.splitOnP_append_cons_of_forall_mem hw c hc, List.filter_cons,
    if_pos (by simpa using hne)]
  rfl

/-- A text without blanks is one word. -/
theorem splitWhitespace_word {w : Chars} (hne : w ≠ []) (hw : ∀ c ∈ w, isWhitespace c = false) :
    splitWhitespace w = [w] := by
  simp [splitWhitespace, List.splitOnP_eq_singleton hw, hne]

theorem splitWhitespace_trimStart (s : Chars) :
    splitWhitespace (trimStart s) = splitWhitespace s := by
  induction s with
  | nil => rfl
  | cons c s ih =>
    by_cases hc : isWhitespace c = true
    · rw [trimStart, List.dropWhile_cons_of_pos hc, splitWhitespace_cons hc]
      exact ih
    · rw [trimStart, List.dropWhile_cons_of_neg hc]

theorem splitWhitespace_trimEnd (s : Chars) : splitWhitespace (trimEnd s) = splitWhitespace s := by
  induction s using List.reverseRecOn with
  | nil => rfl
  | append_singleton s c ih =>
    by_cases hc : isWhitespace c = true
    · rw [trimEnd, List.rdropWhile_concat_pos _ _ _ hc, splitWhitespace_concat hc]
      exact ih
    · rw [trimEnd, List.rdropWhile_concat_neg _ _ _ hc]

/-- Trimming changes no word. -/
theorem splitWhitespace_trim (s : Chars) : splitWhitespace (trim s) = splitWhitespace s := by
  rw [trim, splitWhitespace_trimEnd, splitWhitespace_trimStart]

/-! ### Length -/

@[simp] theorem utf8Len_nil : utf8Len [] = 0 := rfl

@[simp] theorem utf8Len_append (s t : Chars) : utf8Len (s ++ t) = utf8Len s + utf8Len t := by
  simp [utf8Len]

/-- A text that is not empty has octets. -/
theorem utf8Len_pos {s : Chars} (h : s ≠ []) : 0 < utf8Len s := by
  cases s with
  | nil => exact absurd rfl h
  | cons c s =>
    have hc := c.utf8Size_pos
    simp only [utf8Len, List.map_cons, List.sum_cons]
    omega

/-- Leaving characters out does not make a text longer. -/
theorem utf8Len_le_of_sublist {s t : Chars} (h : s.Sublist t) : utf8Len s ≤ utf8Len t :=
  (h.map _).sum_le_sum (fun _ _ => Nat.zero_le _)

theorem utf8Len_trim_le (s : Chars) : utf8Len (trim s) ≤ utf8Len s :=
  utf8Len_le_of_sublist <|
    ((List.rdropWhile_prefix _ _).sublist).trans (List.dropWhile_suffix _).sublist

/-- A text of ASCII characters has as many bytes as characters. -/
theorem utf8Len_of_ascii {s : Chars} (h : ∀ c ∈ s, c.toNat < 0x80) : utf8Len s = s.length := by
  induction s with
  | nil => rfl
  | cons c s ih =>
    have hc : c.utf8Size = 1 := Char.utf8Size_eq_one_iff.mpr (by
      have := h c (by simp)
      exact Nat.le_of_lt_succ this)
    have hs := ih fun d hd => h d (List.mem_cons_of_mem c hd)
    simp only [utf8Len, List.map_cons, List.sum_cons, List.length_cons] at hs ⊢
    omega

/-! ## Numbers -/

/-- At least one digit, and nothing else. -/
def digits (s : Chars) : Option Nat :=
  if s ≠ [] ∧ s.all Char.isDigit then some (Nat.ofDigitChars 10 s 0) else none

/-- Rust's numbers may start with a plus sign. -/
def dropPlus : Chars → Chars
  | '+' :: s => s
  | s => s

/-- `u32::from_str`, for the unsigned type whose values are below `bound`. -/
def parseUnsigned (bound : Nat) (s : Chars) : Option Nat := (digits (dropPlus s)).filter (· < bound)

/-- `i32::from_str`. -/
def parseI32 (s : Chars) : Option Int :=
  match s with
  | '-' :: s => (digits s).bind fun n => if n ≤ 2 ^ 31 then some (-(n : Int)) else none
  | s => (parseUnsigned (2 ^ 31) s).map (↑)

/-- How `Display` writes a number. -/
def ofNat (n : Nat) : Chars := Nat.toDigits 10 n

/-- A number in decimal, with its sign. -/
def ofInt : Int → Chars
  | .ofNat n => ofNat n
  | .negSucc n => '-' :: ofNat (n + 1)

/-- A number is written in digits. -/
theorem isDigit_of_mem_ofNat {n : Nat} {c : Char} (h : c ∈ ofNat n) : c.isDigit = true :=
  Nat.isDigit_of_mem_toDigits (by omega) (by omega) h

/-- It has at least one digit. -/
theorem ofNat_ne_nil (n : Nat) : ofNat n ≠ [] := Nat.toDigits_ne_nil

/-- It has no more than its size needs. -/
theorem length_ofNat_le {n k : Nat} (hk : 0 < k) (h : n < 10 ^ k) : (ofNat n).length ≤ k :=
  (Nat.length_toDigits_le_iff (by omega) hk).mpr h

/-- What is written is read. -/
@[simp] theorem digits_ofNat (n : Nat) : digits (ofNat n) = some n := by
  have hall : (ofNat n).all Char.isDigit = true := by
    rw [List.all_eq_true]
    exact fun c hc => isDigit_of_mem_ofNat hc
  rw [digits, if_pos ⟨ofNat_ne_nil n, hall⟩, ofNat, Nat.ofDigitChars_ten_toDigits]

/-- A number is written without a sign. -/
theorem ofNat_head {n : Nat} {c : Char} {s : Chars} (h : ofNat n = c :: s) : c ≠ '+' ∧ c ≠ '-' := by
  have hd : c.isDigit = true := isDigit_of_mem_ofNat (n := n) (by rw [h]; simp)
  constructor <;> (rintro rfl; revert hd; decide)

/-- So is an unsigned number within its bound. -/
theorem parseUnsigned_ofNat {bound n : Nat} (h : n < bound) :
    parseUnsigned bound (ofNat n) = some n := by
  have hsign : dropPlus (ofNat n) = ofNat n := by
    unfold dropPlus
    split
    · rename_i s hs
      exact absurd rfl (ofNat_head hs).1
    · rfl
  rw [parseUnsigned, hsign, digits_ofNat]
  simp [h]

/-- So is a signed number of 32 bits. -/
theorem parseI32_ofInt {i : Int} (hlo : -(2 ^ 31) ≤ i) (hhi : i < 2 ^ 31) :
    parseI32 (ofInt i) = some i := by
  cases i with
  | ofNat n =>
    have hn : n < 2 ^ 31 := by
      have : ((n : Nat) : Int) < 2 ^ 31 := hhi
      omega
    show parseI32 (ofNat n) = some (n : Int)
    unfold parseI32
    split
    · rename_i s hs
      exact absurd rfl (ofNat_head hs).2
    · rw [parseUnsigned_ofNat hn]
      rfl
  | negSucc n =>
    have hn : n + 1 ≤ 2 ^ 31 := by
      have : -(2 ^ 31) ≤ Int.negSucc n := hlo
      omega
    show (digits (ofNat (n + 1))).bind _ = _
    rw [digits_ofNat]
    show (if n + 1 ≤ 2 ^ 31 then some (-((n + 1 : Nat) : Int)) else none) = _
    rw [if_pos hn]
    rfl

/-- Digits are ASCII. -/
theorem ascii_of_isDigit {c : Char} (h : c.isDigit = true) : c.toNat < 0x80 := by
  simp only [Char.isDigit, Bool.and_eq_true, decide_eq_true_eq, UInt32.le_iff_toNat_le,
    ge_iff_le] at h
  obtain ⟨-, hhi⟩ : 48 ≤ c.toNat ∧ c.toNat ≤ 57 := h
  omega

/-- A digit is no white space. -/
theorem not_whitespace_of_isDigit {c : Char} (h : c.isDigit = true) : isWhitespace c = false := by
  simp only [Char.isDigit, Bool.and_eq_true, decide_eq_true_eq, UInt32.le_iff_toNat_le,
    ge_iff_le] at h
  obtain ⟨hlo, hhi⟩ : 48 ≤ c.toNat ∧ c.toNat ≤ 57 := h
  simp only [isWhitespace, List.contains_eq_mem, List.mem_cons, List.not_mem_nil,
    Bool.or_eq_false_iff, Bool.and_eq_false_iff, decide_eq_false_iff_not, or_false]
  omega

end Chars

end CdjEmu
