/-
  DECIMAL NUMBERS IN BYTES — reading what `Text.decimal` writes, with the two parsers of the
  standard library and the scanner of C.

  `parseUnsigned` and `parseI32` are those of `Lib/Chars`, on the characters of the octets.  `value`
  is what a scanner of C makes of the digits that it has found.
-/
import CdjEmu.Lib.Chars
import CdjEmu.Lib.Text

namespace CdjEmu.Text

/-- The octets `0` to `9`. -/
def isDigit (c : UInt8) : Bool := 48 ≤ c ∧ c ≤ 57

/-- The number that the digits write. -/
def value (s : Bytes) : Nat := s.foldl (fun n c => 10 * n + (c.toNat - 48)) 0

/-- The octets as characters, one for one; what is no ASCII becomes no digit and no sign. -/
def latin (s : Bytes) : Chars := s.map fun c => Char.ofNat c.toNat

/-- `from_str` of the unsigned type whose values are below `bound`. -/
def parseUnsigned (bound : Nat) (s : Bytes) : Option Nat := Chars.parseUnsigned bound (latin s)

/-- `i32::from_str`. -/
def parseI32 (s : Bytes) : Option Int := Chars.parseI32 (latin s)

/-! ## Reading back -/

theorem isDigit_of_mem_decimal {c : UInt8} {n : Nat} (h : c ∈ decimal n) : isDigit c = true := by
  have := digit_of_mem_decimal h
  simp [isDigit, this]

theorem decimal_ne_nil (n : Nat) : decimal n ≠ [] := by
  intro h
  exact Nat.toDigits_ne_nil (List.map_eq_nil_iff.mp h)

/-- An octet of a digit has the digit's number. -/
theorem toNat_of_digit {d : Char} (h : d.isDigit = true) :
    (UInt8.ofNat d.toNat).toNat = d.toNat := by
  rw [Char.isDigit, Bool.and_eq_true, decide_eq_true_eq, decide_eq_true_eq] at h
  have hhi : d.toNat ≤ 57 := UInt32.le_iff_toNat_le.mp h.2
  rw [UInt8.toNat_ofNat']
  omega

/-- How long a number is. -/
theorem length_decimal_le {n k : Nat} (hk : 0 < k) : (decimal n).length ≤ k ↔ n < 10 ^ k := by
  rw [decimal, List.length_map]
  exact Nat.length_toDigits_le_iff (by decide) hk

theorem value_decimal (n : Nat) : value (decimal n) = n := by
  have hfold : ∀ (l : List Char) (i : Nat), (∀ d ∈ l, d.isDigit = true) →
      (l.map fun c => UInt8.ofNat c.toNat).foldl (fun n c => 10 * n + (c.toNat - 48)) i =
        Nat.ofDigitChars 10 l i := by
    intro l
    induction l with
    | nil => exact fun _ _ => rfl
    | cons d l ih =>
      intro i hl
      rw [List.map_cons, List.foldl_cons, toNat_of_digit (hl d List.mem_cons_self), ih _ fun c hc =>
        hl c (List.mem_cons_of_mem _ hc)]
      rfl
  rw [value, decimal, hfold _ _ fun d hd => Nat.isDigit_of_mem_toDigits (by decide) (by decide) hd]
  exact Nat.ofDigitChars_ten_toDigits

/-- What is read as a number begins with a digit or a plus. -/
theorem head_of_parseUnsigned {bound n : Nat} {s : Bytes} (h : parseUnsigned bound s = some n) :
    ∃ c t, s = c :: t ∧ (c = 43 ∨ isDigit c = true) := by
  have hchar : ∀ c : UInt8, Char.ofNat c.toNat = '+' ∨ (Char.ofNat c.toNat).isDigit = true →
      c = 43 ∨ isDigit c = true := by
    decide +kernel
  obtain ⟨hdigits, -⟩ := Option.filter_eq_some_iff.mp h
  cases s with
  | nil => cases hdigits
  | cons c t =>
    refine ⟨c, t, rfl, hchar c ?_⟩
    by_cases hplus : Char.ofNat c.toNat = '+'
    · exact Or.inl hplus
    · right
      have hsign : Chars.dropPlus (latin (c :: t)) = Char.ofNat c.toNat :: latin t := by
        unfold Chars.dropPlus
        split
        · rename_i heq
          exact absurd (List.cons.inj heq).1 hplus
        · rfl
      rw [hsign, Chars.digits] at hdigits
      obtain ⟨⟨-, hall⟩, -⟩ := Option.ite_none_right_eq_some.mp hdigits
      exact List.all_eq_true.mp hall _ List.mem_cons_self

/-- The digits in front of another octet. -/
theorem takeWhile_decimal (n : Nat) {s : Bytes} (h : ∀ c ∈ s.head?, isDigit c = false) :
    (decimal n ++ s).takeWhile isDigit = decimal n := by
  rw [List.takeWhile_append_of_pos fun c hc => isDigit_of_mem_decimal hc]
  cases s with
  | nil => simp
  | cons c s => simp [h c rfl]

end CdjEmu.Text
