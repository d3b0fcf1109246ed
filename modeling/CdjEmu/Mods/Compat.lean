/-
  RELEASES AND RANGES — the order of releases, and the intervals that a mod declares.

  A release is its numbers with zeros behind them, and releases are compared at the first number
  that differs (`compare_compares`).  So a clause admits an interval of releases, a range an
  intersection of such intervals, and what two ranges admit both is what the range of all their
  clauses admits.

  The load-bearing step is about text, not about order: trimming a range changes none of its clauses
  (`parse_clauses`), so two ranges written one behind the other with a comma are read as their
  clauses in a row.  The range `*` has no clauses and is no clause; behind a comma it is not read
  (`star_twice_refused`).

  1. **Program** — `parse_release`, the clauses with their signs, and `contains`, as `Mods/Manifest`
     has them with the bound of 32 bits on each number.

  2. **Specification** — `Intervals`: the order is total and compares padded releases number by
     number; a range is read clause by clause, with any white space around sign and release, and
     contains the releases that every clause admits; and two ranges with a comma between them admit
     what both admit.

  3. **Bridge** — a release that cannot be read is in every range, in the source as here, so what is
     said of contained releases is said of those that can.
-/
import CdjEmu.Lib.Split
import CdjEmu.Lib.Trim
import CdjEmu.Mods.Manifest

namespace CdjEmu.Mods

open Text
open Qemu (Model)

/-! ## The order -/

/-- A release's numbers, with zeros behind them. -/
def padded (r : List Nat) : Lex (Nat → Nat) := toLex fun i => r.getD i 0

/-- **Releases are compared at the first number that differs.** -/
theorem compare_compares (a b : List Nat) : (compare a b).Compares (padded a) (padded b) := by
  have hbeyond : ∀ i, max a.length b.length ≤ i → a.getD i 0 = b.getD i 0 := by
    intro i hi
    rw [List.getD_eq_default _ _ (by omega), List.getD_eq_default _ _ (by omega)]
  unfold compare
  rw [List.find?_map]
  cases hfind : (List.range (max a.length b.length)).find?
      ((fun o : Ordering => decide (o ≠ .eq)) ∘ fun i => Ord.compare (a.getD i 0) (b.getD i 0)) with
  | none =>
    rw [List.find?_range_eq_none] at hfind
    show padded a = padded b
    apply congrArg toLex
    funext i
    by_cases hi : i < max a.length b.length
    · have hsame := hfind i hi
      simpa using hsame
    · exact hbeyond i (Nat.le_of_not_lt hi)
  | some i =>
    obtain ⟨hne, -, hbefore⟩ := List.find?_range_eq_some.mp hfind
    have hsame : ∀ j < i, a.getD j 0 = b.getD j 0 := by
      intro j hj
      have h := hbefore j hj
      simpa using h
    rw [Option.map_some, Option.getD_some]
    cases horder : Ord.compare (a.getD i 0) (b.getD i 0) with
    | lt => exact ⟨i, hsame, Nat.compare_eq_lt.mp horder⟩
    | eq => exact absurd horder (of_decide_eq_true hne)
    | gt => exact ⟨i, fun j hj => (hsame j hj).symm, Nat.compare_eq_gt.mp horder⟩

theorem compare_congr {a a' b b' : List Nat} (ha : padded a = padded a')
    (hb : padded b = padded b') :
    compare a b = compare a' b' := by
  have h := compare_compares a b
  rw [ha, hb] at h
  exact h.inj (compare_compares a' b')

/-! ## Clauses -/

/-- The releases that a clause admits. -/
def admits : Op × List Nat → Set (Lex (Nat → Nat))
  | (.ge, v) => Set.Ici (padded v)
  | (.le, v) => Set.Iic (padded v)
  | (.gt, v) => Set.Ioi (padded v)
  | (.lt, v) => Set.Iio (padded v)
  | (.eq, v) => {padded v}

theorem holds_iff (c : Op × List Nat) (r : List Nat) :
    c.1.holds (compare r c.2) = true ↔ padded r ∈ admits c := by
  obtain ⟨op, v⟩ := c
  have h := compare_compares r v
  cases op with
  | ge => exact decide_eq_true_iff.trans h.ne_lt
  | le => exact decide_eq_true_iff.trans h.ne_gt
  | gt => exact decide_eq_true_iff.trans h.eq_gt
  | lt => exact decide_eq_true_iff.trans h.eq_lt
  | eq => exact decide_eq_true_iff.trans h.eq_eq

theorem ordConnected_admits (c : Op × List Nat) : (admits c).OrdConnected := by
  obtain ⟨op, v⟩ := c
  cases op with
  | ge => exact Set.ordConnected_Ici
  | le => exact Set.ordConnected_Iic
  | gt => exact Set.ordConnected_Ioi
  | lt => exact Set.ordConnected_Iio
  | eq => exact Set.ordConnected_singleton

/-- The releases that every clause of a range admits. -/
def Range.admitted (r : Range) : Set (Lex (Nat → Nat)) := ⋂ c ∈ r.clauses, admits c

theorem Range.ordConnected_admitted (r : Range) : r.admitted.OrdConnected :=
  Set.ordConnected_biInter fun c _ => ordConnected_admits c

theorem Range.contains_iff (r : Range) {release : Bytes} {v : List Nat}
    (h : parseRelease release = some v) :
    r.contains release = true ↔ padded v ∈ r.admitted := by
  rw [Range.contains, h, List.all_eq_true, Range.admitted, Set.mem_iInter₂]
  exact forall₂_congr fun c _ => holds_iff c v

/-! ## How a range is written -/

/-- The sign of a clause; a release without one is the only one admitted. -/
def Signed (sign : Bytes) (op : Op) : Prop := (sign, op) ∈ ops ∨ (sign = [] ∧ op = .eq)

/-- A text is read as a clause: a sign and a release, with white space around both. -/
def Reads (text : Bytes) (c : Op × List Nat) : Prop :=
  ∃ sign rest, Signed sign c.1 ∧ trim text = sign ++ rest ∧ parseRelease (trim rest) = some c.2

theorem stripPre_eq_some {p s rest : Bytes} : stripPre p s = some rest ↔ s = p ++ rest := by
  unfold stripPre
  constructor
  · intro h
    obtain ⟨hp, hrest⟩ := Option.ite_none_right_eq_some.mp h
    obtain ⟨t, rfl⟩ := List.isPrefixOf_iff_prefix.mp hp
    rw [List.drop_left] at hrest
    rw [Option.some.inj hrest]
  · rintro rfl
    rw [if_pos (List.isPrefixOf_iff_prefix.mpr (List.prefix_append p rest)), List.drop_left]

/-- A release begins with a digit or a plus. -/
theorem head_of_parseRelease {s : Bytes} {v : List Nat} (h : parseRelease s = some v) :
    ∃ c t, s = c :: t ∧ (c = 43 ∨ isDigit c = true) := by
  unfold parseRelease at h
  split at h
  · cases h
  · rename_i hne
    obtain ⟨c, t, rfl⟩ := List.exists_cons_of_ne_nil hne
    refine ⟨c, t, rfl, ?_⟩
    have hpieces : ∃ p ps, split 46 (c :: t) = p :: ps ∧ (p = [] ∨ ∃ q, p = c :: q) := by
      unfold split
      by_cases hc : c = 46
      · rw [hc, splitOn_cons_self]
        exact ⟨[], _, rfl, Or.inl rfl⟩
      · obtain ⟨p, ps, hp⟩ := List.exists_cons_of_ne_nil (splitOn_ne_nil 46 t)
        rw [splitOn_cons_of_ne hc, hp]
        exact ⟨c :: p, ps, rfl, Or.inr ⟨p, rfl⟩⟩
    obtain ⟨p, ps, hsplit, hp⟩ := hpieces
    rw [hsplit, List.mapM_cons] at h
    obtain ⟨n, hn, -⟩ := Option.bind_eq_some_iff.mp h
    obtain rfl | ⟨q, rfl⟩ := hp
    · cases hn
    · obtain ⟨d, r, hq, hd⟩ := head_of_parseUnsigned hn
      rwa [(List.cons.inj hq).1]

/-- What follows a sign is not part of one. -/
theorem rest_of_parseRelease {rest : Bytes} {v : List Nat} (h : parseRelease (trim rest) = some v) :
    ∃ c t, rest = c :: t ∧ c ≠ 60 ∧ c ≠ 61 ∧ c ≠ 62 := by
  obtain ⟨c, t, htrim, hc⟩ := head_of_parseRelease h
  cases rest with
  | nil => cases htrim
  | cons d rest =>
    refine ⟨d, rest, rfl, ?_⟩
    have hnot : ∀ e : UInt8, e ≠ 43 → isDigit e = false → (∀ w ∈ whitespace, e ∉ w) → d ≠ e := by
      rintro e hplus hdigit hwhite rfl
      obtain ⟨u, hu⟩ := trim_cons hwhite rest
      rw [htrim] at hu
      obtain rfl := (List.cons.inj hu).1
      obtain rfl | hd := hc
      · exact hplus rfl
      · exact absurd (hdigit.symm.trans hd) Bool.false_ne_true
    exact ⟨hnot 60 (by decide) (by decide) (by decide), hnot 61 (by decide) (by decide) (by decide),
      hnot 62 (by decide) (by decide) (by decide)⟩

/-- The sign that is found is the one in front of the release. -/
theorem findSome_sign {sign rest : Bytes} {op : Op} (hsign : Signed sign op) {c : UInt8} {t : Bytes}
    (hrest : rest = c :: t) (h60 : c ≠ 60) (h61 : c ≠ 61) (h62 : c ≠ 62) :
    ((ops.findSome? fun (p, op) => (stripPre p (sign ++ rest)).map fun rest => (op, rest)).getD
      (.eq, sign ++ rest)) =
      (op, rest) := by
  subst hrest
  have hops : ops = [([62, 61], .ge), ([60, 61], .le), ([61, 61], .eq), ([62], .gt), ([60], .lt),
      ([61], .eq)] := by decide
  unfold Signed at hsign
  rw [hops] at hsign ⊢
  simp only [List.mem_cons, List.not_mem_nil, or_false, Prod.mk.injEq] at hsign
  obtain (⟨rfl, rfl⟩ | ⟨rfl, rfl⟩ | ⟨rfl, rfl⟩ | ⟨rfl, rfl⟩ | ⟨rfl, rfl⟩ | ⟨rfl, rfl⟩) | ⟨rfl,
      rfl⟩ := hsign
  all_goals simp [stripPre, Ne.symm h60, Ne.symm h61, Ne.symm h62]

/-- What is found is in front of the rest. -/
theorem sign_of_findSome {text rest : Bytes} {op : Op}
    (h : (ops.findSome? fun (p, op) => (stripPre p text).map fun rest => (op, rest)).getD
      (.eq, text) = (op, rest)) :
    ∃ sign, Signed sign op ∧ text = sign ++ rest := by
  cases hfind : ops.findSome? fun (p, op) => (stripPre p text).map fun rest => (op, rest) with
  | none =>
    rw [hfind] at h
    cases h
    exact ⟨[], Or.inr ⟨rfl, rfl⟩, rfl⟩
  | some found =>
    rw [hfind] at h
    obtain ⟨⟨sign, op'⟩, hmem, hstrip⟩ := List.exists_of_findSome?_eq_some hfind
    obtain ⟨rest', hrest, rfl⟩ := Option.map_eq_some_iff.mp hstrip
    cases h
    exact ⟨sign, Or.inl hmem, stripPre_eq_some.mp hrest⟩

variable (k : Crates)

/-- **A text is read as the clause it says.** -/
theorem parseClause_eq_ok {text : Bytes} {c : Op × List Nat} :
    parseClause k text = .ok c ↔ Reads text c := by
  unfold parseClause
  dsimp only
  constructor
  · intro h
    generalize hpair :
      (ops.findSome? fun (p, op) => (stripPre p (trim text)).map fun rest => (op, rest)).getD
      (.eq, trim text) = pair at h
    obtain ⟨op, rest⟩ := pair
    obtain ⟨sign, hsign, htext⟩ := sign_of_findSome hpair
    dsimp only at h
    split at h
    · rename_i v hv
      obtain rfl := Except.ok.inj h
      exact ⟨sign, rest, hsign, htext, hv⟩
    · cases h
  · rintro ⟨sign, rest, hsign, htext, hrelease⟩
    obtain ⟨d, t, hrest, h60, h61, h62⟩ := rest_of_parseRelease hrelease
    rw [htext, findSome_sign hsign hrest h60 h61 h62]
    dsimp only
    rw [hrelease]

/-- A text is read as its trimmed form. -/
theorem reads_trimmed {a b : Bytes} (h : trim a = trim b) (c : Op × List Nat) :
    Reads a c ↔ Reads b c := by
  unfold Reads
  rw [h]

/-- No white space has a comma. -/
theorem comma_not_mem {l : List Bytes} (hl : ∀ w ∈ l, w ∈ whitespace) :
    (44 : UInt8) ∉ l.flatten := by
  intro h
  obtain ⟨w, hw, hc⟩ := List.mem_flatten.mp h
  have hall : ∀ w ∈ whitespace, (44 : UInt8) ∉ w := by decide
  exact hall w (hl w hw) hc

/-- Trimming a text does not change the trimmed pieces. -/
theorem split_trim (s : Bytes) : (split 44 (trim s)).map trim = (split 44 s).map trim := by
  obtain ⟨pre, post, hpre, hpost, -, hs⟩ := trim_split s
  unfold split
  obtain ⟨front, last, hplain, hbehind⟩ := splitOn_append_right (comma_not_mem hpost) (trim s)
  have hboth : (trim s ++ post.flatten).splitOn 44 = front ++ [last ++ post.flatten] := hbehind
  conv_rhs => rw [hs, splitOn_append_left (comma_not_mem hpre), hboth]
  rw [hplain]
  cases front with
  | nil =>
    rw [List.nil_append, List.nil_append, List.modifyHead_cons, List.map_singleton,
      List.map_singleton, trim_flatten_append hpre, trim_append_flatten hpost]
  | cons p front =>
    rw [List.cons_append, List.cons_append, List.modifyHead_cons, List.map_cons, List.map_cons,
      trim_flatten_append hpre, List.map_append, List.map_append, List.map_singleton,
      List.map_singleton, trim_append_flatten hpost]

/-- **A range is `*`, or each of its texts is read as a clause.** -/
theorem Range.parse_eq_ok {s : Bytes} {r : Range} : Range.parse k s = .ok r ↔
    (trim s = bytes "*" ∧ r.clauses = []) ∨
    (trim s ≠ bytes "*" ∧ List.Forall₂ Reads (split 44 s) r.clauses) := by
  -- Each text may be trimmed before it is read.
  have hforall : ∀ {l : List Bytes} {cs : List (Op × List Nat)},
      List.Forall₂ Reads l cs ↔ List.Forall₂ (fun t c => ∃ text, trim text = t ∧ Reads text c)
        (l.map trim) cs := by
    intro l cs
    rw [List.forall₂_map_left_iff]
    constructor
    · exact List.Forall₂.imp fun text c h => ⟨text, rfl, h⟩
    · exact List.Forall₂.imp fun text c ⟨_, htrim, h⟩ => (reads_trimmed htrim c).mp h
  unfold Range.parse
  dsimp only
  by_cases hstar : trim s = bytes "*"
  · rw [if_pos hstar]
    -- A star has no clauses, and no other text has an empty range.
    constructor
    · intro h
      obtain rfl := Except.ok.inj h
      exact Or.inl ⟨hstar, rfl⟩
    · rintro (⟨-, hnil⟩ | ⟨hne, -⟩)
      · obtain ⟨cs⟩ := r
        obtain rfl : cs = [] := hnil
        rfl
      · exact absurd hstar hne
  · rw [if_neg hstar, bind_eq_ok]
    have hclauses : ∀ cs, (split 44 (trim s)).mapM (parseClause k) = .ok cs ↔
        List.Forall₂ Reads (split 44 s) cs := by
      intro cs
      rw [mapM_eq_ok, hforall, ← split_trim, ← hforall]
      exact ⟨List.Forall₂.imp fun _ _ h => (parseClause_eq_ok k).mp h, List.Forall₂.imp fun _ _ h =>
        (parseClause_eq_ok k).mpr h⟩
    constructor
    · rintro ⟨cs, hcs, h⟩
      obtain rfl := Except.ok.inj h
      exact Or.inr ⟨hstar, (hclauses cs).mp hcs⟩
    · rintro (⟨hc, -⟩ | ⟨-, hcs⟩)
      · exact absurd hc hstar
      · exact ⟨r.clauses, (hclauses _).mpr hcs, rfl⟩

/-! ## Two ranges with a comma between them -/

/-- What is not white space is not trimmed off. -/
theorem mem_trim {c : UInt8} (hc : ∀ w ∈ whitespace, c ∉ w) {s : Bytes} (h : c ∈ s) :
    c ∈ trim s := by
  obtain ⟨pre, post, hpre, hpost, -, hs⟩ := trim_split s
  have hnot : ∀ {l : List Bytes}, (∀ w ∈ l, w ∈ whitespace) → c ∉ l.flatten := by
    intro l hl hin
    obtain ⟨w, hw, hcw⟩ := List.mem_flatten.mp hin
    exact hc w (hl w hw) hcw
  rw [hs] at h
  obtain h | h := List.mem_append.mp h
  · exact absurd h (hnot hpre)
  · exact (List.mem_append.mp h).resolve_right (hnot hpost)

/-- The ranges `s` and `t` in one. -/
def both (s t : Bytes) : Bytes := s ++ 44 :: t

theorem parse_both {s t : Bytes} {rs rt : Range} (hs : Range.parse k s = .ok rs)
    (ht : Range.parse k t = .ok rt) (hs' : trim s ≠ bytes "*") (ht' : trim t ≠ bytes "*") :
    Range.parse k (both s t) = .ok ⟨rs.clauses ++ rt.clauses⟩ := by
  have hcs := ((Range.parse_eq_ok k).mp hs).resolve_left (fun h => hs' h.1)
  have hct := ((Range.parse_eq_ok k).mp ht).resolve_left (fun h => ht' h.1)
  apply (Range.parse_eq_ok k).mpr
  refine Or.inr ⟨?_, ?_⟩
  · intro hstar
    have hcomma : (44 : UInt8) ∈ trim (both s t) :=
      mem_trim (by decide) (List.mem_append_right s List.mem_cons_self)
    rw [hstar] at hcomma
    exact absurd hcomma (by decide)
  · unfold split both
    rw [splitOn_append_sep]
    exact List.rel_append hcs.2 hct.2

theorem Range.contains_append (rs rt : Range) (release : Bytes) :
    (Range.mk (rs.clauses ++ rt.clauses)).contains release =
      (rs.contains release && rt.contains release) := by
  unfold Range.contains
  cases parseRelease release with
  | none => rfl
  | some v => exact List.all_append

/-! ## What ranges are -/

/-- Ranges behave like intervals of releases; `joinable` are those that may be
    written in one with others. -/
structure Intervals (joinable : Bytes → Prop) : Prop where
  lexicographic : ∀ a b, (compare a b).Compares (padded a) (padded b)
  refl : ∀ a, compare a a ≠ .gt
  trans : ∀ a b c, compare a b ≠ .gt → compare b c ≠ .gt → compare a c ≠ .gt
  total : ∀ a b, compare a b ≠ .gt ∨ compare b a ≠ .gt
  interchangeable : ∀ a a', compare a a' = .eq → ∀ b, compare a b = compare a' b ∧
    compare b a = compare b a'
  /-- A range is read clause by clause. -/
  reads : ∀ s r, Range.parse k s = .ok r →
    (trim s = bytes "*" ∧ r.clauses = []) ∨
    (trim s ≠ bytes "*" ∧ List.Forall₂ Reads (split 44 s) r.clauses)
  contains : ∀ s r, Range.parse k s = .ok r → ∀ release v, parseRelease release = some v →
    (r.contains release = true ↔ ∀ c ∈ r.clauses, padded v ∈ admits c)
  convex : ∀ s r, Range.parse k s = .ok r → ∀ a b c va vb vc, parseRelease a = some va →
    parseRelease b = some vb →
    parseRelease c = some vc → compare va vb ≠ .gt → compare vb vc ≠ .gt → r.contains a = true →
    r.contains c = true →
    r.contains b = true
  conjunction : ∀ s t rs rt, Range.parse k s = .ok rs → Range.parse k t = .ok rt → joinable s →
    joinable t →
    ∃ r, Range.parse k (both s t) = .ok r ∧ ∀ release,
    r.contains release = (rs.contains release && rt.contains release)
  commutative : ∀ s t rs rt, Range.parse k s = .ok rs → Range.parse k t = .ok rt → joinable s →
    joinable t →
    ∃ r r', Range.parse k (both s t) = .ok r ∧ Range.parse k (both t s) = .ok r' ∧
      ∀ release, r.contains release = r'.contains release
  idempotent : ∀ s rs, Range.parse k s = .ok rs → joinable s →
    ∃ r, Range.parse k (both s s) = .ok r ∧ ∀ release, r.contains release = rs.contains release
  check : ∀ (d : Declared) (model : Model) a b va vb, parseRelease a = some va →
    parseRelease b = some vb →
    compare va vb = .eq → d.check k model (some a) = d.check k model (some b)

/-- Releases that compare equal are contained alike. -/
theorem Range.contains_congr (r : Range) {a b : Bytes} {va vb : List Nat}
    (ha : parseRelease a = some va) (hb : parseRelease b = some vb) (h : padded va = padded vb) :
    r.contains a = r.contains b := by
  rw [Bool.eq_iff_iff, r.contains_iff ha, r.contains_iff hb, h]

theorem check_congr (d : Declared) (model : Model) {a b : Bytes}
    (h : ∀ r : Range, r.contains a = r.contains b) :
    d.check k model (some a) = d.check k model (some b) := by
  unfold Declared.check
  split
  · rfl
  · cases (d.ranges.find? (·.1 = model.slug)).map (·.2) with
    | none => rfl
    | some range => simp only [h]

/-- **Ranges other than `*` behave like intervals of releases**, written one by one or in one. -/
theorem ranges_are_intervals : Intervals k fun s => trim s ≠ bytes "*" := by
  constructor
  -- A version compares by its place, so the order is that of the places.
  · exact compare_compares
  · intro a
    exact (compare_compares a a).ne_gt.mpr (le_refl _)
  · intro a b c hab hbc
    apply (compare_compares a c).ne_gt.mpr
    exact le_trans ((compare_compares a b).ne_gt.mp hab) ((compare_compares b c).ne_gt.mp hbc)
  · intro a b
    rw [(compare_compares a b).ne_gt, (compare_compares b a).ne_gt]
    exact le_total _ _
  · intro a a' h b
    have hsame := (compare_compares a a').eq_eq.mp h
    exact ⟨compare_congr hsame rfl, compare_congr rfl hsame⟩
  · intro s r h
    exact (Range.parse_eq_ok k).mp h
  · intro s r _ release v hv
    rw [r.contains_iff hv, Range.admitted, Set.mem_iInter₂]
  -- The versions that a range admits are an interval.
  · intro s r _ a b c va vb vc ha hb hc hab hbc hina hinc
    rw [r.contains_iff ha] at hina
    rw [r.contains_iff hc] at hinc
    rw [r.contains_iff hb]
    apply r.ordConnected_admitted.out hina hinc
    exact ⟨(compare_compares va vb).ne_gt.mp hab, (compare_compares vb vc).ne_gt.mp hbc⟩
  -- Two ranges in one text have the clauses of both.
  · intro s t rs rt hs ht hs' ht'
    exact ⟨_, parse_both k hs ht hs' ht', rs.contains_append rt⟩
  · intro s t rs rt hs ht hs' ht'
    refine ⟨_, _, parse_both k hs ht hs' ht', parse_both k ht hs ht' hs', ?_⟩
    intro release
    rw [rs.contains_append rt, rt.contains_append rs, Bool.and_comm]
  · intro s rs hs hs'
    refine ⟨_, parse_both k hs hs hs' hs', ?_⟩
    intro release
    rw [rs.contains_append rs, Bool.and_self]
  -- Only the place of a version counts.
  · intro d model a b va vb ha hb h
    apply check_congr
    intro r
    exact r.contains_congr ha hb ((compare_compares va vb).eq_eq.mp h)

/-- `*` is a range and `*,*` is none. -/
theorem star_twice_refused : ¬ ∀ k : Crates, Intervals k fun _ => True := by
  intro hall
  let k : Crates := ⟨fun _ => .ok [], id, id, id⟩
  have hstar : Range.parse k (bytes "*") = .ok ⟨[]⟩ := by rfl
  obtain ⟨r, hr, -⟩ := (hall k).idempotent (bytes "*") ⟨[]⟩ hstar True.intro
  have hrefused :
      Range.parse k (both (bytes "*") (bytes "*")) = .error (bytes "* is not a range") := by rfl
  exact absurd (hrefused.symm.trans hr) (fun h => by cases h)

end CdjEmu.Mods
