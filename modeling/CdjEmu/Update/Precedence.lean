/-
  THE ORDER OF VERSIONS — the order that the code compares by, and semver's.

  1. **The code** — `cmp_pre` compares two lists of identifiers until a pair differs.  A number is
     what `u64` can hold; a longer one is a word.

  2. **Semver's precedence** — the same rules with numbers of any size.

  3. **Keys** — both orders compare keys, lists of lists of numbers (`cmp_eq`, `precedence_eq`): an
     identifier that is a number is 0 and its value, a word is 1 and its characters.  So both are
     total preorders whatever counts as a number, and they differ just in what does.

  4. **Canonical identifiers** — a number that `u64` holds, written without zeros in front.
     Versions of such identifiers are ordered as semver says and equal just where they compare
     equal; for every other version there is one of canonical identifiers with which this fails
     (`lawful_iff`).
-/
import CdjEmu.Update.Version

namespace CdjEmu.Update

open Chars Std

/-! ## The code -/

/-- A number of 64 bits. -/
def parseU64 (s : Chars) : Option Nat := parseUnsigned (2 ^ 64) s

/-- The comparison of two texts, by their characters. -/
def compareText (x y : Chars) : Ordering := List.compareLex (compareOn Char.toNat) x y

/-- The comparison of two identifiers; `number` tells which are numbers. -/
def compareIdent (number : Chars → Option Nat) (x y : Ident) : Ordering :=
  match number x.text, number y.text with
  | some m, some n => compare m n
  | some _, none => .lt
  | none, some _ => .gt
  | none, none => compareText x.text y.text

/-- The first pair that differs. -/
def firstDifference : List (Ident × Ident) → Ordering
  | [] => .eq
  | (x, y) :: pairs =>
    let o := compareIdent parseU64 x y
    if o ≠ .eq then o else firstDifference pairs

/-- The words behind the dash, in order. -/
def cmpPre (a b : List Ident) : Ordering :=
  (firstDifference (a.zip b)).then (compare a.length b.length)

namespace Version

/-- The core's `cmp`. -/
def cmpCore (v w : Version) : Ordering :=
  (compare v.major w.major).then ((compare v.minor w.minor).then (compare v.patch w.patch))

/-- `cmp`: a version without such words comes last. -/
def cmp (v w : Version) : Ordering :=
  (v.cmpCore w).then <|
    match v.pre.isEmpty, w.pre.isEmpty with
    | true, true => .eq
    | true, false => .gt
    | false, true => .lt
    | false, false => cmpPre v.pre w.pre

end Version

/-! ## Semver's precedence -/

/-- Identifier by identifier, numbers of any size among them; the shorter list of two that agree as
    far as both go is first. -/
def precedencePre : List Ident → List Ident → Ordering := List.compareLex (compareIdent digits)

/-- The precedence of two versions. -/
def precedence (v w : Version) : Ordering :=
  (v.cmpCore w).then <|
    if v.pre = [] ∧ w.pre = [] then .eq
    else if v.pre = [] then .gt
    else if w.pre = [] then .lt
    else precedencePre v.pre w.pre

/-! ## Keys -/

/-- A word as a list of numbers: numbers sort first. -/
def identKey (number : Chars → Option Nat) (x : Ident) : List Nat :=
  match number x.text with
  | some n => [0, n]
  | none => 1 :: x.text.map Char.toNat

/-- The words of a version. -/
def preKey (number : Chars → Option Nat) (pre : List Ident) : List (List Nat) :=
  [if pre.isEmpty then 1 else 0] :: pre.map (identKey number)

/-- A version: its three numbers, and its words. -/
def versionKey (number : Chars → Option Nat) (v : Version) : List (List Nat) :=
  [v.major.toNat, v.minor.toNat, v.patch.toNat] :: preKey number v.pre

/-- The order of texts, and of lists of texts, over numbers. -/
def compareNats : List Nat → List Nat → Ordering := List.compareLex compare

/-- Lists of numbers in lexicographic order. -/
def compareKeys : List (List Nat) → List (List Nat) → Ordering := List.compareLex compareNats

instance : TransCmp compareNats := inferInstanceAs (TransCmp (List.compareLex compare))

instance : LawfulEqCmp compareNats := inferInstanceAs (LawfulEqCmp (List.compareLex compare))

instance : TransCmp compareKeys := inferInstanceAs (TransCmp (List.compareLex compareNats))

instance : LawfulEqCmp compareKeys := inferInstanceAs (LawfulEqCmp (List.compareLex compareNats))

section

variable (number : Chars → Option Nat)

/-- Texts compare as their characters' numbers. -/
theorem compareText_eq (x y : Chars) :
    compareText x y = compareNats (x.map Char.toNat) (y.map Char.toNat) := by
  unfold compareText compareNats
  induction x generalizing y with
  | nil => rcases y with _ | ⟨d, y⟩ <;> rfl
  | cons c x ih =>
    rcases y with _ | ⟨d, y⟩
    · rfl
    · rw [List.compareLex_cons_cons, ih, List.map_cons, List.map_cons, List.compareLex_cons_cons]
      rfl

/-- Words compare as their lists. -/
theorem compareIdent_eq (x y : Ident) :
    compareIdent number x y = compareNats (identKey number x) (identKey number y) := by
  unfold compareIdent identKey
  rcases number x.text with _ | m
  · rcases number y.text with _ | n
    · exact compareText_eq _ _
    · rfl
  · rcases number y.text with _ | n
    · rfl
    · unfold compareNats
      rw [List.compareLex_cons_cons, List.compareLex_cons_cons, List.compareLex_nil_nil,
        Ordering.then_eq]
      rfl

theorem compareIdents_eq (a b : List Ident) :
    List.compareLex (compareIdent number) a b = compareKeys (a.map (identKey number))
      (b.map (identKey number)) := by
  unfold compareKeys
  induction a generalizing b with
  | nil => rcases b with _ | ⟨y, b⟩ <;> rfl
  | cons x a ih =>
    rcases b with _ | ⟨y, b⟩
    · rfl
    · rw [List.compareLex_cons_cons, ih, compareIdent_eq, List.map_cons, List.map_cons,
        List.compareLex_cons_cons]

/-- The loop and the comparison of the lengths are one comparison. -/
theorem cmpPre_eq (a b : List Ident) :
    cmpPre a b = List.compareLex (compareIdent parseU64) a b := by
  unfold cmpPre
  induction a generalizing b with
  | nil =>
    rcases b with _ | ⟨y, b⟩
    · rfl
    · show compare 0 (b.length + 1) = .lt
      exact Nat.compare_eq_lt.mpr (Nat.succ_pos _)
  | cons x a ih =>
    rcases b with _ | ⟨y, b⟩
    · show compare (a.length + 1) 0 = .gt
      exact Nat.compare_eq_gt.mpr (Nat.succ_pos _)
    · rw [List.zip_cons_cons, firstDifference, List.compareLex_cons_cons, ← ih]
      have hlen : compare (x :: a).length (y :: b).length = compare a.length b.length := by
        rw [List.length_cons, List.length_cons, Nat.compare_eq_ite_lt, Nat.compare_eq_ite_lt]
        simp only [Nat.add_lt_add_iff_right]
      rw [hlen]
      rcases compareIdent parseU64 x y with _ | _ | _
      · rfl
      · rfl
      · rfl

/-- The three numbers compare as a list. -/
theorem cmpCore_eq (v w : Version) :
    v.cmpCore w =
      compareNats [v.major.toNat, v.minor.toNat, v.patch.toNat]
        [w.major.toNat, w.minor.toNat, w.patch.toNat] := by
  unfold compareNats Version.cmpCore
  rw [List.compareLex_cons_cons, List.compareLex_cons_cons, List.compareLex_cons_cons,
    List.compareLex_nil_nil, Ordering.then_eq]
  have hword : ∀ m n : UInt64, compare m n = compare m.toNat n.toNat := by
    intro m n
    show compareOfLessAndEq m n = compareOfLessAndEq m.toNat n.toNat
    unfold compareOfLessAndEq
    simp only [UInt64.lt_iff_toNat_lt, UInt64.toNat_inj]
  rw [hword, hword, hword]

/-- What follows the core. -/
theorem compareKeys_preKey (a b : List Ident) :
    compareKeys (preKey number a) (preKey number b) =
      if a = [] ∧ b = [] then .eq
      else if a = [] then .gt
      else if b = [] then .lt
      else List.compareLex (compareIdent number) a b := by
  rw [compareIdents_eq]
  rcases a with _ | ⟨x, a⟩
  · rcases b with _ | ⟨y, b⟩
    · rfl
    · rfl
  · rcases b with _ | ⟨y, b⟩
    · rfl
    · rfl

/-- The code compares keys. -/
theorem cmp_eq (v w : Version) :
    v.cmp w = compareKeys (versionKey parseU64 v) (versionKey parseU64 w) := by
  have hpre := compareKeys_preKey parseU64 v.pre w.pre
  unfold versionKey compareKeys Version.cmp at *
  rw [List.compareLex_cons_cons, hpre, cmpCore_eq, ← cmpPre_eq]
  rcases v.pre with _ | ⟨x, a⟩
  · rcases w.pre with _ | ⟨y, b⟩
    · rfl
    · rfl
  · rcases w.pre with _ | ⟨y, b⟩
    · rfl
    · rfl

/-- And so does semver. -/
theorem precedence_eq (v w : Version) :
    precedence v w = compareKeys (versionKey digits v) (versionKey digits w) := by
  have hpre := compareKeys_preKey digits v.pre w.pre
  unfold versionKey compareKeys at *
  rw [List.compareLex_cons_cons, hpre, precedence, cmpCore_eq]
  rfl

end

/-! ## Canonical identifiers -/

/-- An identifier that is a number is one that `u64` holds, written without zeros in front. -/
def Ident.Canonical (x : Ident) : Prop := ∀ n ∈ digits x.text, n < 2 ^ 64 ∧ x.text = ofNat n

namespace Version

/-- A version whose words are written in one way only. -/
def Canonical (v : Version) : Prop := ∀ x ∈ v.pre, x.Canonical

/-- `v` and `w` compare equal just if they are, and compare as semver says. -/
def Lawful (v w : Version) : Prop := (v.cmp w = .eq ↔ v = w) ∧ v.cmp w = precedence v w

end Version

/-- An identifier has no sign. -/
theorem parseU64_eq (x : Ident) : parseU64 x.text = (digits x.text).filter (· < 2 ^ 64) := by
  have hsign : dropPlus x.text = x.text := by
    unfold dropPlus
    split
    · rename_i s hs
      have hplus : '+' ∈ x.text := by
        rw [hs]
        exact List.mem_cons_self
      exact absurd rfl (Ident.apart hplus).2.2
    · rfl
  rw [parseU64, parseUnsigned, hsign]

/-- Such a word is read the same, whatever the bound. -/
theorem Ident.Canonical.number {x : Ident} (h : x.Canonical) : parseU64 x.text = digits x.text := by
  rw [parseU64_eq]
  rcases hd : digits x.text with _ | n
  · rfl
  · exact Option.filter_some_pos (by simpa using (h n hd).1)

/-- Canonical identifiers have the same keys in both orders. -/
theorem Ident.Canonical.identKey {x : Ident} (h : x.Canonical) :
    identKey parseU64 x = identKey digits x := by
  unfold Update.identKey
  rw [h.number]

theorem Version.Canonical.versionKey {v : Version} (h : v.Canonical) :
    versionKey parseU64 v = versionKey digits v := by
  have hmap : v.pre.map (Update.identKey parseU64) = v.pre.map (Update.identKey digits) :=
    List.map_congr_left fun x hx => (h x hx).identKey
  unfold Update.versionKey preKey
  rw [hmap]

theorem Ident.ext_text {x y : Ident} (h : x.text = y.text) : x = y := by
  rcases x with ⟨s, hs⟩
  rcases y with ⟨t, ht⟩
  obtain rfl : s = t := h
  rfl

/-- Canonical identifiers with one key are one. -/
theorem Ident.Canonical.inj {x y : Ident} (hx : x.Canonical) (hy : y.Canonical)
    (h : Update.identKey digits x = Update.identKey digits y) : x = y := by
  apply Ident.ext_text
  unfold Update.identKey at h
  rcases hdx : digits x.text with _ | m
  · rcases hdy : digits y.text with _ | n
    · rw [hdx, hdy] at h
      exact List.map_injective_iff.mpr (fun c d hcd => Char.toNat_inj.mp hcd) (List.cons.inj h).2
    · rw [hdx, hdy] at h
      exact absurd (List.cons.inj h).1 (by decide)
  · rcases hdy : digits y.text with _ | n
    · rw [hdx, hdy] at h
      exact absurd (List.cons.inj h).1 (by decide)
    · rw [hdx, hdy] at h
      obtain rfl : m = n := (List.cons.inj (List.cons.inj h).2).1
      exact (hx m hdx).2.trans (hy m hdy).2.symm

/-- Such versions are equal when their keys are. -/
theorem Version.Canonical.inj {v w : Version} (hv : v.Canonical) (hw : w.Canonical)
    (h : Update.versionKey digits v = Update.versionKey digits w) : v = w := by
  unfold Update.versionKey preKey at h
  obtain ⟨hcore, hpre⟩ := List.cons.inj h
  have hlist := (List.cons.inj hpre).2
  simp only [List.cons.injEq, UInt64.toNat_inj, and_true] at hcore
  have hids : v.pre = w.pre := by
    have hmap : ∀ {a b : List Ident}, (∀ x ∈ a, x.Canonical) → (∀ x ∈ b, x.Canonical) →
        a.map (Update.identKey digits) = b.map (Update.identKey digits) → a = b := by
      intro a b ha hb heq
      induction a generalizing b with
      | nil => exact (List.map_eq_nil_iff.mp heq.symm).symm
      | cons x a ih =>
        rcases b with _ | ⟨y, b⟩
        · exact absurd heq (by simp)
        · obtain ⟨hxy, hab⟩ := List.cons.inj heq
          rw [(ha x List.mem_cons_self).inj (hb y List.mem_cons_self) hxy,
            ih (fun z hz => ha z (List.mem_cons_of_mem _ hz))
              (fun z hz => hb z (List.mem_cons_of_mem _ hz)) hab]
    exact hmap hv hw hlist
  rcases v with ⟨a, b, c, pre⟩
  rcases w with ⟨a', b', c', pre'⟩
  obtain ⟨rfl, rfl, rfl⟩ := hcore
  obtain rfl : pre = pre' := hids
  rfl

/-- So the order of the code is the intended one on them. -/
theorem Version.Canonical.lawful {v w : Version} (hv : v.Canonical) (hw : w.Canonical) :
    v.Lawful w := by
  have hcmp : v.cmp w = precedence v w := by
    rw [cmp_eq, precedence_eq, hv.versionKey, hw.versionKey]
  refine ⟨?_, hcmp⟩
  rw [hcmp, precedence_eq]
  constructor
  · intro heq
    exact hv.inj hw (LawfulEqCmp.compare_eq_iff_eq.mp heq)
  · rintro rfl
    exact ReflCmp.compare_self

/-! ## What goes wrong otherwise -/

theorem validIdent_ofNat (n : Nat) : validIdent (ofNat n) = true := by
  have hne : (ofNat n).isEmpty = false := by
    rw [List.isEmpty_eq_false_iff]
    exact ofNat_ne_nil n
  rw [validIdent, hne, Bool.not_false, Bool.true_and, List.all_eq_true]
  intro c hc
  rw [isAlphanum_of_isDigit (isDigit_of_mem_ofNat hc), Bool.true_or]

namespace Ident

/-- A number is written without zeros in front. -/
def canonical (x : Ident) : Ident :=
  match digits x.text with
  | some n => ⟨ofNat n, validIdent_ofNat n⟩
  | none => x

/-- A number that `u64` does not hold. -/
def big (x : Ident) : Bool := (digits x.text).any (2 ^ 64 ≤ ·)

variable {x : Ident}

/-- The canonical word has the same number. -/
theorem digits_canonical (x : Ident) : digits x.canonical.text = digits x.text := by
  unfold canonical
  rcases hd : digits x.text with _ | n
  · exact hd
  · exact digits_ofNat n

/-- It is canonical unless its number is too large. -/
theorem canonical_spec (h : x.big = false) : x.canonical.Canonical := by
  intro n hn
  rw [digits_canonical] at hn
  have hd : digits x.text = some n := hn
  unfold big at h
  rw [hd] at h
  refine ⟨by simpa using h, ?_⟩
  unfold canonical
  rw [hd]

theorem precedenceKey_canonical (x : Ident) :
    Update.identKey digits x.canonical = Update.identKey digits x := by
  unfold Update.identKey
  rw [digits_canonical]
  rcases hd : digits x.text with _ | n
  · unfold canonical
    rw [hd]
  · rfl

/-- And sorts in the same place. -/
theorem identKey_canonical (h : x.big = false) :
    Update.identKey parseU64 x.canonical = Update.identKey parseU64 x := by
  unfold Update.identKey
  rw [parseU64_eq, parseU64_eq, digits_canonical]
  rcases hd : digits x.text with _ | n
  · unfold canonical
    rw [hd]
  · unfold big at h
    rw [hd] at h
    have hlt : n < 2 ^ 64 := by simpa using h
    rw [Option.filter_some_pos (by simpa using hlt)]

end Ident

theorem map_canonical {a : List Ident} (h : ∀ x ∈ a, x.big = false) :
    (a.map Ident.canonical).map (identKey parseU64) = a.map (identKey parseU64) := by
  rw [List.map_map]
  exact List.map_congr_left fun x hx => Ident.identKey_canonical (h x hx)

/-- Lists that begin alike compare as the first elements that differ. -/
theorem compareKeys_append (a r s : List (List Nat)) {k l : List Nat} (h : compareNats k l ≠ .eq) :
    compareKeys (a ++ k :: r) (a ++ l :: s) = compareNats k l := by
  unfold compareKeys
  induction a with
  | nil =>
    rw [List.nil_append, List.nil_append, List.compareLex_cons_cons]
    rcases hkl : compareNats k l with _ | _ | _
    · rfl
    · exact absurd hkl h
    · rfl
  | cons c a ih =>
    have hself : compareNats c c = .eq := ReflCmp.compare_self
    rw [List.cons_append, List.cons_append, List.compareLex_cons_cons, hself, ih]
    rfl

/-- A word that is below every number as a text. -/
def hyphen : Ident := ⟨['-'], by decide⟩

/-- A version's key with a first identifier that differs. -/
theorem compareKeys_versionKey {number : Chars → Option Nat} {v w : Version} {a r s : List Ident}
    {a' : List Ident} {x y : Ident}
    (hcore : v.major = w.major ∧ v.minor = w.minor ∧ v.patch = w.patch) (hv : v.pre = a ++ x :: r)
    (hw : w.pre = a' ++ y :: s) (ha : a.map (identKey number) = a'.map (identKey number))
    (h : compareNats (identKey number x) (identKey number y) ≠ .eq) :
    compareKeys (versionKey number v) (versionKey number w) = compareNats (identKey number x)
      (identKey number y) := by
  unfold versionKey preKey
  have hne : ∀ (l : List Ident) (z : Ident) (m : List Ident), (l ++ z :: m).isEmpty = false := by
    intro l z m
    rw [List.isEmpty_eq_false_iff]
    exact List.append_ne_nil_of_right_ne_nil _ (List.cons_ne_nil _ _)
  rw [hcore.1, hcore.2.1, hcore.2.2, hv, hw, hne, hne, List.map_append, List.map_append,
    List.map_cons, List.map_cons, ha]
  exact compareKeys_append (_ :: _ :: a'.map (identKey number)) _ _ h

/-- A number begins with a digit. -/
theorem Ident.number_head {x : Ident} {n : Nat} (h : digits x.text = some n) :
    ∃ c s, x.text = c :: s ∧ 48 ≤ c.toNat := by
  unfold digits at h
  split at h
  · rename_i hdigits
    rcases htext : x.text with _ | ⟨c, s⟩
    · exact absurd htext hdigits.1
    · refine ⟨c, s, rfl, ?_⟩
      have hc : c.isDigit = true :=
        List.all_eq_true.mp hdigits.2 c (by rw [htext]; exact List.mem_cons_self)
      simp only [Char.isDigit, Bool.and_eq_true, decide_eq_true_eq, UInt32.le_iff_toNat_le,
        ge_iff_le] at hc
      exact hc.1
  · exact absurd h (by simp)

/-- A number that `u64` does not hold is a word to the code, one above the hyphen. -/
theorem big_hyphen {x : Ident} (h : x.big = true) :
    compareNats (identKey parseU64 x) (identKey parseU64 hyphen) = .gt ∧
      compareNats (identKey digits x) (identKey digits hyphen) = .lt := by
  unfold Ident.big at h
  obtain ⟨n, hn, hle⟩ := (Option.any_eq_true _ _).mp h
  have hword : parseU64 x.text = none := by
    rw [parseU64_eq, hn]
    exact Option.filter_some_neg (by simpa using hle)
  obtain ⟨c, s, htext, hc⟩ := Ident.number_head hn
  constructor
  · have hkey : identKey parseU64 x = 1 :: c.toNat :: s.map Char.toNat := by
      unfold identKey
      rw [hword, htext]
      rfl
    have hhyphen : identKey parseU64 hyphen = [1, 45] := by
      decide
    have hgt : compare c.toNat 45 = .gt := Nat.compare_eq_gt.mpr (by omega)
    rw [hkey, hhyphen]
    unfold compareNats
    rw [List.compareLex_cons_cons, List.compareLex_cons_cons, hgt]
    rfl
  · have hkey : identKey digits x = [0, n] := by
      unfold identKey
      rw [hn]
    rw [hkey]
    rfl

/-- For a version of other identifiers there is one of canonical ones with which it fails. -/
theorem lawful_iff (v : Version) : (∀ w : Version, w.Canonical → v.Lawful w) ↔ v.Canonical := by
  constructor
  · intro h
    by_contra hv
    rcases hbig : v.pre.find? Ident.big with _ | x
    · have hsmall : ∀ x ∈ v.pre, x.big = false := by
        intro x hx
        exact Bool.eq_false_iff.mpr (List.find?_eq_none.mp hbig x hx)
      -- the same version, its numbers without the zeros in front
      let w : Version := { v with pre := v.pre.map Ident.canonical }
      have hw : w.Canonical := by
        intro y hy
        obtain ⟨x, hx, rfl⟩ := List.mem_map.mp hy
        exact Ident.canonical_spec (hsmall x hx)
      have hkeys : versionKey parseU64 w = versionKey parseU64 v := by
        unfold versionKey preKey
        rw [List.isEmpty_map, map_canonical hsmall]
      have heq : v.cmp w = .eq := by
        rw [cmp_eq, hkeys]
        exact ReflCmp.compare_self
      have hvw := (h w hw).1.mp heq
      exact hv (hvw ▸ hw)
    · obtain ⟨hx, a, r, hsplit, ha⟩ := List.find?_eq_some_iff_append.mp hbig
      have hsmall : ∀ y ∈ a, y.big = false := by
        intro y hy
        simpa using ha y hy
      -- the first number that `u64` does not hold against a word below it
      let w : Version := { v with pre := a.map Ident.canonical ++ hyphen :: [] }
      have hw : w.Canonical := by
        intro y hy
        rcases List.mem_append.mp hy with hmem | hmem
        · obtain ⟨z, hz, rfl⟩ := List.mem_map.mp hmem
          exact Ident.canonical_spec (hsmall z hz)
        · rw [List.mem_singleton.mp hmem]
          have hnone : digits hyphen.text = none := by
            decide
          intro n hn
          rw [hnone] at hn
          exact absurd hn (by simp)
      obtain ⟨hgt, hlt⟩ := big_hyphen hx
      have hcode : v.cmp w = .gt := by
        rw [cmp_eq, compareKeys_versionKey (v := v) (w := w) ⟨rfl, rfl, rfl⟩ hsplit rfl
          (map_canonical hsmall).symm
          (by rw [hgt]; decide), hgt]
      have hsemver : precedence v w = .lt := by
        have hkeys : a.map (identKey digits) = (a.map Ident.canonical).map (identKey digits) := by
          rw [List.map_map]
          exact List.map_congr_left fun y _ => (Ident.precedenceKey_canonical y).symm
        rw [precedence_eq, compareKeys_versionKey (v := v) (w := w) ⟨rfl, rfl, rfl⟩ hsplit rfl hkeys
          (by rw [hlt]; decide), hlt]
      have heq := (h w hw).2
      rw [hcode, hsemver] at heq
      exact absurd heq (by decide)
  · intro hv w hw
    exact hv.lawful hw

end CdjEmu.Update
