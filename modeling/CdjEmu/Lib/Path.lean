/-
  UNIX PATHS — what a path names, as the list of its components.

  A path is a byte string.  Two paths are the SAME path when they have the same components
  (`Path.Eqv`): repeated and trailing separators do not count, and neither does a `.`, except at the
  very start of a relative path.  So `/.` and `/` are one path, and `a//b` and `a/./b` are another.

  `mem_parts_iff` is the bridge used to tell paths apart: an octet that is neither a separator nor a
  dot is in a path exactly when it is in one of its components.
-/
import CdjEmu.Lib.Split
import CdjEmu.Lib.Text

namespace CdjEmu

namespace Path

/-- The separator. -/
def sep : UInt8 := 47

/-- The dot. -/
def dot : UInt8 := 46

/-- The components of a path that are not `.`, its root apart. -/
def parts (p : Bytes) : List Bytes := (p.splitOn sep).filter fun c => c ≠ [] ∧ c ≠ [dot]

def isAbsolute (p : Bytes) : Bool := p.head? = some sep

/-- A relative path that starts with the component `.`. -/
def startsHere (p : Bytes) : Bool := (p.splitOn sep).head? = some [dot]

/-- The components of a path: whether it starts at the root, whether it starts with `.`, and the
    names that follow. -/
def components (p : Bytes) : Bool × Bool × List Bytes := (isAbsolute p, startsHere p, parts p)

/-- `q` seen from `p`: behind a separator, or on its own when it starts at the root. -/
def join (p q : Bytes) : Bytes :=
  if isAbsolute q then q
  else match p.getLast? with
    | none => q
    | some c => if c = sep then p ++ q else p ++ sep :: q

/-- The last component, unless it is `..`. -/
def fileName (p : Bytes) : Option Bytes := (parts p).getLast?.filter (· ≠ [dot, dot])

/-- The path without its last component, spelled with one separator between components. -/
def parent (p : Bytes) : Option Bytes :=
  if parts p = [] then if startsHere p then some [] else none
  else
    let front := [sep].intercalate ((if startsHere p then [[dot]] else []) ++ (parts p).dropLast)
    some (if isAbsolute p then sep :: front else front)

/-- Whether an absolute path is `base` or below it, `base` being absolute. -/
def startsWith (p base : Bytes) : Bool := (parts base).isPrefixOf (parts p)

/-- The two spellings name one path. -/
def Eqv (p q : Bytes) : Prop := components p = components q

instance (p q : Bytes) : Decidable (Eqv p q) := inferInstanceAs (Decidable (_ = _))

theorem Eqv.refl (p : Bytes) : Eqv p p := rfl

theorem Eqv.trans {p q r : Bytes} (h : Eqv p q) (h' : Eqv q r) : Eqv p r := Eq.trans h h'

theorem Eqv.parts {p q : Bytes} (h : Eqv p q) : parts p = parts q := congrArg (·.2.2) h

/-- An absolute path spelled with one separator before each component and nothing else. -/
def NormalAbsolute (p : Bytes) : Prop := p = sep :: [sep].intercalate (parts p)

instance (p : Bytes) : Decidable (NormalAbsolute p) := inferInstanceAs (Decidable (_ = _))

/-! ## Octets and components -/

/-- An octet that is no separator stands in a path exactly when it stands in one of the pieces. -/
theorem mem_splitOn_iff {x : UInt8} (hx : x ≠ sep) (p : Bytes) :
    x ∈ p ↔ ∃ c ∈ p.splitOn sep, x ∈ c := by
  constructor
  · intro h
    exact (mem_splitOn_of_mem sep h).resolve_left hx
  · rintro ⟨c, hc, h⟩
    exact mem_of_mem_splitOn hc h

/-- An octet that is neither a separator nor a dot is in a path exactly when it is in
    one of its components. -/
theorem mem_parts_iff {x : UInt8} (hs : x ≠ sep) (hd : x ≠ dot) (p : Bytes) :
    x ∈ p ↔ ∃ c ∈ parts p, x ∈ c := by
  rw [mem_splitOn_iff hs]
  constructor
  · rintro ⟨c, hc, hx⟩
    refine ⟨c, List.mem_filter.mpr ⟨hc, ?_⟩, hx⟩
    have h1 : c ≠ [] := List.ne_nil_of_mem hx
    have h2 : c ≠ [dot] := by
      rintro rfl
      exact hd (List.mem_singleton.mp hx)
    simp [h1, h2]
  · rintro ⟨c, hc, hx⟩
    exact ⟨c, (List.mem_filter.mp hc).1, hx⟩

/-- Separators behind the root do not matter. -/
theorem eqv_dropWhile (n : Bytes) : Eqv (sep :: n) (sep :: n.dropWhile (· = sep)) := by
  have hroot : ∀ n, components (sep :: n) = (true, false, parts n) := by
    intro n
    have hsplit : (sep :: n).splitOn sep = [] :: n.splitOn sep := by
      rw [List.splitOn, List.splitOnP_cons_eq_if_modifyHead, if_pos (by simp)]
      rfl
    simp [components, isAbsolute, startsHere, parts, hsplit]
  have hparts : parts n = parts (n.dropWhile (· = sep)) := by
    induction n with
    | nil => rfl
    | cons x n ih =>
      rw [List.dropWhile_cons]
      split
      · rename_i hx
        rw [show x = sep by simpa using hx, ← ih]
        exact congrArg (·.2.2) (hroot n)
      · rfl
  rw [Eqv, hroot, hroot, hparts]

/-- An octet that counts is neither a separator nor a dot; the others do not matter
    for what a path names. -/
def counts (c : UInt8) : Bool := c ≠ sep ∧ c ≠ dot

theorem countP_splitOn (p : Bytes) :
    p.countP counts = ((p.splitOn sep).map (List.countP counts)).sum := by
  induction p with
  | nil => rfl
  | cons x p ih =>
    rw [List.splitOn, List.splitOnP_cons_eq_if_modifyHead]
    split
    · rename_i hx
      have hx : counts x = false := by simp_all [counts]
      rw [List.map_cons, List.sum_cons, List.countP_cons_of_neg (by simp [hx]), ih]
      simp [List.splitOn]
    · obtain ⟨d, ds, hd⟩ := List.exists_cons_of_ne_nil (List.splitOnP_ne_nil (· == sep) p)
      rw [List.splitOn, hd, List.map_cons, List.sum_cons] at ih
      rw [hd, List.modifyHead_cons, List.map_cons, List.sum_cons, List.countP_cons,
        List.countP_cons, ih]
      omega

/-- What counts in a path is what counts in its components. -/
theorem countP_parts (p : Bytes) : p.countP counts = ((parts p).map (List.countP counts)).sum := by
  rw [countP_splitOn, parts]
  induction p.splitOn sep with
  | nil => rfl
  | cons c cs ih =>
    rw [List.map_cons, List.sum_cons, ih, List.filter_cons]
    split
    · rw [List.map_cons, List.sum_cons]
    · rename_i hc
      have hc : c = [] ∨ c = [dot] := by
        by_contra hne
        exact hc (by simpa [not_or] using hne)
      rcases hc with rfl | rfl
      · simp
      · simp [counts]

/-- Two spellings of one path agree on what counts. -/
theorem Eqv.countP {p q : Bytes} (h : Eqv p q) : p.countP counts = q.countP counts := by
  rw [countP_parts, countP_parts, h.parts]

/-- A normal path is a separator followed by something that does not start with one. -/
theorem NormalAbsolute.cons {p : Bytes} (h : NormalAbsolute p) :
    ∃ n, p = sep :: n ∧ n.head? ≠ some sep := by
  refine ⟨_, h, ?_⟩
  cases hp : parts p with
  | nil => simp [List.intercalate]
  | cons c cs =>
    have hc : c ∈ parts p := by rw [hp]; exact List.mem_cons_self ..
    obtain ⟨hmem, hne⟩ := List.mem_filter.mp hc
    have hsep : sep ∉ c := not_mem_of_mem_splitOn hmem
    cases c with
    | nil => simp at hne
    | cons x xs =>
      have hx : x ≠ sep := fun h => hsep (by rw [h]; exact List.mem_cons_self ..)
      cases cs with
      | nil => simpa [List.intercalate] using hx
      | cons d ds => simpa [List.intercalate, List.intersperse] using hx

end Path

end CdjEmu
