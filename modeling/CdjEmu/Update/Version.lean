/-
  RELEASE VERSIONS — `MAJOR.MINOR.PATCH[-PRE]`, read and written.

  An identifier of a pre-release is a text of its own type (`Ident`), so every version is one that
  `parse` can give: what `Display` writes is read back as the version (`parse_display`).
-/
import CdjEmu.Lib.Chars
import CdjEmu.Lib.Split

namespace CdjEmu.Update

open Chars

/-- An identifier that `parse` takes: ASCII letters, digits and hyphens, at least one. -/
def validIdent (id : Chars) : Bool := !id.isEmpty && id.all fun c => c.isAlphanum || c = '-'

structure Ident where
  text : Chars
  valid : validIdent text = true
  deriving DecidableEq

structure Version where
  major : UInt64
  minor : UInt64
  patch : UInt64
  /-- The dot-separated identifiers after the hyphen; empty for a release. -/
  pre : List Ident
  deriving DecidableEq

/-- One number of the core. -/
def parseField (p : Chars) : Option UInt64 :=
  if p.isEmpty || !p.all Char.isDigit then none else (parseUnsigned (2 ^ 64) p).map UInt64.ofNat

def parseIdent (id : Chars) : Option Ident := if h :
    validIdent id = true then some ⟨id, h⟩ else none

/-- The identifiers, or `none` where one is not valid. -/
def parseIdents : List Chars → Option (List Ident)
  | [] => some []
  | id :: ids => do return (← parseIdent id) :: (← parseIdents ids)

/-- The pre-release, where there is one. -/
def parsePre : Option Chars → Option (List Ident)
  | none => some []
  | some pre => parseIdents (pre.splitOn '.')

/-- Without the build metadata. -/
def withoutBuild (s : Chars) : Chars :=
  match splitOnce '+' s with
  | some (v, _build) => v
  | none => s

/-- The core and, behind the first hyphen, the pre-release. -/
def splitPre (s : Chars) : Chars × Option Chars :=
  match splitOnce '-' s with
  | some (core, pre) => (core, some pre)
  | none => (s, none)

namespace Version

def parse (s : Chars) : Option Version :=
  let (core, pre) := splitPre (withoutBuild ((trim s).dropWhile (· = 'v')))
  match core.splitOn '.' with
  | [major, minor, patch] => do
    return ⟨← parseField major, ← parseField minor, ← parseField patch, ← parsePre pre⟩
  | _ => none

def core (v : Version) : Chars :=
  ofNat v.major.toNat ++ '.' :: ofNat v.minor.toNat ++ '.' :: ofNat v.patch.toNat

/-- `Display`. -/
def display (v : Version) : Chars :=
  v.core ++ if v.pre.isEmpty then [] else '-' :: ['.'].intercalate (v.pre.map Ident.text)

end Version

/-! ## The characters of a version -/

theorem Ident.mem {id : Ident} {c : Char} (h : c ∈ id.text) : c.isAlphanum = true ∨ c = '-' := by
  have hall := List.all_eq_true.mp (Bool.and_eq_true_iff.mp id.valid).2 c h
  simpa using hall

/-- A letter or a digit is in one of three ranges. -/
theorem isAlphanum_range {c : Char} (h : c.isAlphanum = true) :
    48 ≤ c.toNat ∧ c.toNat ≤ 57 ∨ 65 ≤ c.toNat ∧ c.toNat ≤ 90 ∨ 97 ≤ c.toNat ∧ c.toNat ≤ 122 := by
  simp only [Char.isAlphanum, Char.isAlpha, Char.isUpper, Char.isLower, Char.isDigit,
    Bool.or_eq_true, Bool.and_eq_true, decide_eq_true_eq, UInt32.le_iff_toNat_le, ge_iff_le] at h
  have hrange : ((65 ≤ c.toNat ∧ c.toNat ≤ 90) ∨ 97 ≤ c.toNat ∧ c.toNat ≤ 122) ∨ 48 ≤ c.toNat ∧
      c.toNat ≤ 57 := h
  omega

/-- It is no white space, no dot, no plus and no hyphen. -/
theorem isAlphanum_apart {c : Char} (h : c.isAlphanum = true) :
    isWhitespace c = false ∧ c ≠ '.' ∧ c ≠ '+' ∧ c ≠ '-' := by
  have hrange := isAlphanum_range h
  refine ⟨?_, ?_, ?_, ?_⟩
  · simp only [isWhitespace, List.contains_eq_mem, List.mem_cons, List.not_mem_nil,
      Bool.or_eq_false_iff, Bool.and_eq_false_iff, decide_eq_false_iff_not, or_false]
    omega
  · rintro rfl
    exact absurd hrange (by decide)
  · rintro rfl
    exact absurd hrange (by decide)
  · rintro rfl
    exact absurd hrange (by decide)

theorem isAlphanum_of_isDigit {c : Char} (h : c.isDigit = true) : c.isAlphanum = true := by
  rw [Char.isAlphanum, h, Bool.or_true]

/-- A character of an identifier. -/
theorem Ident.apart {id : Ident} {c : Char} (h : c ∈ id.text) :
    isWhitespace c = false ∧ c ≠ '.' ∧ c ≠ '+' := by
  rcases id.mem h with halnum | rfl
  · obtain ⟨hspace, hdot, hplus, -⟩ := isAlphanum_apart halnum
    exact ⟨hspace, hdot, hplus⟩
  · decide

theorem ofNat_apart {n : Nat} {c : Char} (h : c ∈ ofNat n) :
    isWhitespace c = false ∧ c ≠ '.' ∧ c ≠ '+' ∧ c ≠ '-' :=
  isAlphanum_apart (isAlphanum_of_isDigit (isDigit_of_mem_ofNat h))

namespace Version

variable (v : Version)

theorem core_apart {c : Char} (h : c ∈ v.core) : isWhitespace c = false ∧ c ≠ '+' ∧ c ≠ '-' := by
  have hdigit : ∀ n, c ∈ ofNat n → isWhitespace c = false ∧ c ≠ '+' ∧ c ≠ '-' := by
    intro n hn
    obtain ⟨hspace, -, hplus, hminus⟩ := ofNat_apart hn
    exact ⟨hspace, hplus, hminus⟩
  unfold core at h
  simp only [List.mem_append, List.mem_cons] at h
  rcases h with (h | rfl | h) | rfl | h
  · exact hdigit _ h
  · decide
  · exact hdigit _ h
  · decide
  · exact hdigit _ h

/-- A character of a text that is written with dots between identifiers. -/
theorem intercalate_apart {ids : List Ident} {c : Char}
    (h : c ∈ ['.'].intercalate (ids.map Ident.text)) :
    isWhitespace c = false ∧ c ≠ '+' := by
  induction ids with
  | nil => exact absurd h List.not_mem_nil
  | cons id ids ih =>
    rcases ids with _ | ⟨id', ids⟩
    · have hid : c ∈ id.text := by simpa [List.intercalate] using h
      exact ⟨(Ident.apart hid).1, (Ident.apart hid).2.2⟩
    · have hsplit : ['.'].intercalate ((id :: id' :: ids).map Ident.text) =
          id.text ++ '.' :: ['.'].intercalate ((id' :: ids).map Ident.text) := by
        simp [List.intercalate]
      rw [hsplit] at h
      rcases List.mem_append.mp h with hid | hrest
      · exact ⟨(Ident.apart hid).1, (Ident.apart hid).2.2⟩
      · rcases List.mem_cons.mp hrest with rfl | hrest
        · decide
        · exact ih hrest

theorem display_apart {c : Char} (h : c ∈ v.display) : isWhitespace c = false ∧ c ≠ '+' := by
  unfold display at h
  rcases List.mem_append.mp h with hcore | hpre
  · exact ⟨(v.core_apart hcore).1, (v.core_apart hcore).2.1⟩
  · split at hpre
    · exact absurd hpre List.not_mem_nil
    · rcases List.mem_cons.mp hpre with rfl | hpre
      · decide
      · exact intercalate_apart hpre

/-! ## Reading back -/

theorem parseField_ofNat (n : UInt64) : parseField (ofNat n.toNat) = some n := by
  have hall : (ofNat n.toNat).all Char.isDigit = true := List.all_eq_true.mpr fun c hc =>
    isDigit_of_mem_ofNat hc
  have hne : (ofNat n.toNat).isEmpty = false := by
    rw [List.isEmpty_eq_false_iff]
    exact ofNat_ne_nil _
  rw [parseField, hall, hne, parseUnsigned_ofNat n.toNat_lt]
  simp

theorem parseIdents_texts (ids : List Ident) : parseIdents (ids.map Ident.text) = some ids := by
  induction ids with
  | nil => rfl
  | cons id ids ih =>
    have hid : parseIdent id.text = some id := dif_pos id.valid
    rw [List.map_cons, parseIdents, hid, ih]
    rfl

theorem core_splitOn :
    v.core.splitOn '.' = [ofNat v.major.toNat, ofNat v.minor.toNat, ofNat v.patch.toNat] := by
  have hdot : ∀ n, '.' ∉ ofNat n := fun n hn => (ofNat_apart hn).2.1 rfl
  unfold core
  rw [List.append_assoc, List.cons_append, splitOn_append_cons (hdot _),
    splitOn_append_cons (hdot _), splitOn_of_notMem (hdot _)]

/-- What `Display` writes starts with a digit. -/
theorem display_dropWhile : v.display.dropWhile (· = 'v') = v.display := by
  have hhead : ∀ c, v.display.head? = some c → c.isDigit = true := by
    intro c hc
    have hne := ofNat_ne_nil v.major.toNat
    rcases hmajor : ofNat v.major.toNat with _ | ⟨d, s⟩
    · exact absurd hmajor hne
    · unfold display core at hc
      rw [hmajor] at hc
      obtain rfl : d = c := by simpa using hc
      exact isDigit_of_mem_ofNat (n := v.major.toNat) (by rw [hmajor]; exact List.mem_cons_self)
  rcases hdisplay : v.display with _ | ⟨c, s⟩
  · rfl
  · have hdigit := hhead c (by rw [hdisplay]; rfl)
    have hne : c ≠ 'v' := by
      rintro rfl
      exact absurd hdigit (by decide)
    rw [List.dropWhile_cons, if_neg (by simpa using hne)]

/-- What is written is read back. -/
theorem parse_display : parse v.display = some v := by
  have htrim : trim v.display = v.display := trim_of_words fun c hc => (v.display_apart hc).1
  have hbuild : withoutBuild v.display = v.display := by
    rw [withoutBuild, splitOnce_of_notMem fun h => (v.display_apart h).2 rfl]
  have hhyphen : '-' ∉ v.core := fun h => (v.core_apart h).2.2 rfl
  unfold parse
  rw [htrim, display_dropWhile, hbuild]
  unfold display splitPre
  by_cases hpre : v.pre.isEmpty = true
  · have hnil : v.pre = [] := List.isEmpty_iff.mp hpre
    rw [if_pos hpre, List.append_nil, splitOnce_of_notMem hhyphen]
    simp only [core_splitOn, parseField_ofNat, parsePre, ← hnil]
    rfl
  · have hne : v.pre.map Ident.text ≠ [] := by
      intro hnil
      exact hpre (List.isEmpty_iff.mpr (List.map_eq_nil_iff.mp hnil))
    have hdots : ∀ s ∈ v.pre.map Ident.text, '.' ∉ s := by
      intro s hs hdot
      obtain ⟨id, -, rfl⟩ := List.mem_map.mp hs
      exact (Ident.apart hdot).2.1 rfl
    rw [if_neg hpre, splitOnce_append hhyphen]
    simp only [core_splitOn, parseField_ofNat, parsePre, List.splitOn_intercalate _ hdots hne,
      parseIdents_texts]
    rfl

end Version

end CdjEmu.Update
