/-
  TRIMMING — what `trim` takes off a text, and what it leaves.

  Off come whole white-space characters at both ends (`trim_split`), so a valid text stays valid
  (`valid_trim`).  What is left begins with none (`trim_head`), so a text that is not blank is not
  blank either with a line end behind it.

  The converse is `trim_of_split`: between white space stands the trimmed text.  It rests on the
  encoding, in which no character is cut off another one and none begins inside one.
-/
import CdjEmu.Lib.Text

namespace CdjEmu.Text

variable {ws : List Bytes} {s : Bytes}

/-! ## Stripping the front -/

/-- Members of `ws` come off. -/
theorem stripFront_split (ws : List Bytes) (fuel : Nat) (s : Bytes) :
    ∃ l : List Bytes, (∀ w ∈ l, w ∈ ws) ∧ s = l.flatten ++ stripFront ws fuel s := by
  induction fuel generalizing s with
  | zero => exact ⟨[], nofun, rfl⟩
  | succ n ih =>
    cases hfind : ws.find? (·.isPrefixOf s) with
    | none => exact ⟨[], nofun, by simp [stripFront, hfind]⟩
    | some w =>
      have hw : w.isPrefixOf s = true :=
        List.find?_some (p := fun v : Bytes => v.isPrefixOf s) hfind
      obtain ⟨t, rfl⟩ := List.isPrefixOf_iff_prefix.mp hw
      obtain ⟨l, hl, ht⟩ := ih t
      refine ⟨w :: l, fun v hv => ?_, ?_⟩
      · rcases List.mem_cons.mp hv with rfl | hv
        · exact List.mem_of_find?_eq_some hfind
        · exact hl v hv
      · simp only [stripFront, hfind, List.drop_left, List.flatten_cons, List.append_assoc]
        rw [← ht]

/-- No member of `ws` is left in front. -/
theorem stripFront_head (hws : ∀ w ∈ ws, w ≠ []) {fuel : Nat} (hfuel : s.length ≤ fuel) {w : Bytes}
    (hw : w ∈ ws) :
    ¬ w <+: stripFront ws fuel s := by
  induction fuel generalizing s with
  | zero =>
    obtain rfl := List.length_eq_zero_iff.mp (Nat.le_zero.mp hfuel)
    exact fun h => hws w hw (List.prefix_nil.mp h)
  | succ n ih =>
    cases hfind : ws.find? (·.isPrefixOf s) with
    | none =>
      intro h
      simp only [stripFront, hfind] at h
      exact absurd (List.isPrefixOf_iff_prefix.mpr h) (List.find?_eq_none.mp hfind w hw)
    | some v =>
      simp only [stripFront, hfind]
      have hpos := List.length_pos_of_ne_nil (hws v (List.mem_of_find?_eq_some hfind))
      refine ih ?_
      rw [List.length_drop]
      omega

/-! ## Both ends -/

theorem whitespace_ne_nil : ∀ w ∈ whitespace, w ≠ [] := by decide

/-- Whole characters come off at both ends. -/
theorem trim_split (s : Bytes) :
    ∃ pre post : List Bytes, (∀ w ∈ pre, w ∈ whitespace) ∧ (∀ w ∈ post, w ∈ whitespace) ∧
      stripFront whitespace s.length s = trim s ++ post.flatten ∧
      s = pre.flatten ++ (trim s ++ post.flatten) := by
  obtain ⟨pre, hpre, hs⟩ := stripFront_split whitespace s.length s
  obtain ⟨l, hl, hfront⟩ :=
    stripFront_split (whitespace.map List.reverse) (stripFront whitespace s.length s).length
    (stripFront whitespace s.length s).reverse
  have hsplit :
      stripFront whitespace s.length s = trim s ++ (l.map List.reverse).reverse.flatten := by
    have h := congrArg List.reverse hfront
    rw [List.reverse_reverse, List.reverse_append, List.reverse_flatten] at h
    exact h
  refine ⟨pre, (l.map List.reverse).reverse, hpre, fun w hw => ?_, hsplit, hsplit ▸ hs⟩
  obtain ⟨v, hv, rfl⟩ := List.mem_map.mp (List.mem_reverse.mp hw)
  obtain ⟨w, hw, rfl⟩ := List.mem_map.mp (hl v hv)
  rwa [List.reverse_reverse]

/-- No white space is left in front. -/
theorem trim_head {w : Bytes} (hw : w ∈ whitespace) : ¬ w <+: trim s := by
  obtain ⟨pre, post, -, -, hfront, -⟩ := trim_split s
  intro h
  refine stripFront_head whitespace_ne_nil (Nat.le_refl s.length) hw ?_
  rw [hfront]
  exact h.trans (List.prefix_append _ _)

/-- A text that is not blank is not blank with a line end behind it. -/
theorem trim_line_ne_nil (h : trim s ≠ []) : trim (trim s ++ [0x0A]) ≠ [] := by
  intro hblank
  obtain ⟨pre, post, hpre, hpost, -, hall⟩ := trim_split (trim s ++ [0x0A])
  rw [hblank, List.nil_append, ← List.flatten_append] at hall
  have hwords : ∀ w ∈ pre ++ post, w ∈ whitespace := fun w hw =>
    (List.mem_append.mp hw).elim (hpre w) (hpost w)
  rcases List.eq_nil_or_concat (pre ++ post) with hnil | ⟨words, last, hconcat⟩
  · rw [hnil] at hall
    simp at hall
  · rw [hconcat] at hall hwords
    -- the line end is the last word of white space, and the text begins with the first
    have hlast : last = [0x0A] := by
      have hmem := hwords last (by simp)
      have hend : last.getLast? = some 0x0A := by
        have h := congrArg List.getLast? hall
        rw [List.getLast?_concat, List.concat_eq_append, List.flatten_append,
          List.flatten_singleton,
          List.getLast?_append_of_ne_nil _ (whitespace_ne_nil last hmem)] at h
        exact h.symm
      have hone : ∀ w ∈ whitespace, w.getLast? = some 0x0A → w = [0x0A] := by decide
      exact hone last hmem hend
    have htext : trim s = words.flatten := by
      rw [hlast, List.concat_eq_append, List.flatten_append, List.flatten_singleton] at hall
      exact List.append_cancel_right hall
    cases words with
    | nil => exact h htext
    | cons w words =>
      refine trim_head (s := s) (hwords w (by simp)) ?_
      rw [htext, List.flatten_cons]
      exact List.prefix_append _ _

/-! ## What white space around a text changes -/

/-- No octet but its first begins a white-space character. -/
theorem whitespace_inside : ∀ w ∈ whitespace, ∀ v ∈ whitespace, ∀ c ∈ v.head?, c ∉ w.tail := by
  -- as a Boolean check of the table: a `∀` over octets would be decided octet by octet
  have hall : ∀ w ∈ whitespace, ∀ v ∈ whitespace, v.head?.all (!w.tail.contains ·) = true := by
    decide
  intro w hw v hv c hc hmem
  have hnot := hall w hw v hv
  rw [Option.mem_def.mp hc, Option.all_some, List.contains_iff_mem.mpr hmem] at hnot
  cases hnot

/-- No member of `ws` is cut off another one. -/
def PrefixFree (ws : List Bytes) : Prop := ∀ v ∈ ws, ∀ w ∈ ws, v.isPrefixOf w = true → v = w

theorem prefixFree_whitespace : PrefixFree whitespace := by
  have hall : ∀ v ∈ whitespace, ∀ w ∈ whitespace, v.isPrefixOf w = true → v = w := by decide
  exact hall

theorem prefixFree_reversed : PrefixFree (whitespace.map List.reverse) := by
  have hall : ∀ v ∈ whitespace.map List.reverse, ∀ w ∈ whitespace.map List.reverse,
      v.isPrefixOf w = true → v = w := by decide
  exact hall

theorem stripFront_word (hfree : PrefixFree ws) {w : Bytes} (hw : w ∈ ws) (fuel : Nat) (s : Bytes) :
    stripFront ws (fuel + 1) (w ++ s) = stripFront ws fuel s := by
  rw [stripFront]
  cases hfind : ws.find? (·.isPrefixOf (w ++ s)) with
  | none =>
    have hnot := List.find?_eq_none.mp hfind w hw
    exact absurd (List.isPrefixOf_iff_prefix.mpr (List.prefix_append w s)) hnot
  | some v =>
    have hv := List.mem_of_find?_eq_some hfind
    have hpre : v.isPrefixOf (w ++ s) = true :=
      List.find?_some (p := fun v : Bytes => v.isPrefixOf (w ++ s)) hfind
    have hboth :=
      List.prefix_or_prefix_of_prefix (List.isPrefixOf_iff_prefix.mp hpre) (List.prefix_append w s)
    have heq : v = w := by
      obtain hvw | hwv := hboth
      · exact hfree v hv w hw (List.isPrefixOf_iff_prefix.mpr hvw)
      · exact (hfree w hw v hv (List.isPrefixOf_iff_prefix.mpr hwv)).symm
    rw [heq]
    exact congrArg (stripFront ws fuel) List.drop_left

theorem stripFront_stop (h : ∀ w ∈ ws, ¬ w <+: s) (fuel : Nat) : stripFront ws fuel s = s := by
  cases fuel with
  | zero => rfl
  | succ n =>
    have hnone : ws.find? (·.isPrefixOf s) = none := by
      rw [List.find?_eq_none]
      intro w hw hpre
      exact h w hw (List.isPrefixOf_iff_prefix.mp hpre)
    rw [stripFront, hnone]

/-- The words in front come off, and nothing behind them. -/
theorem stripFront_words (hfree : PrefixFree ws) {l : List Bytes} (hl : ∀ w ∈ l, w ∈ ws)
    (hs : ∀ w ∈ ws, ¬ w <+: s) {fuel : Nat} (hfuel : l.length ≤ fuel) :
    stripFront ws fuel (l.flatten ++ s) = s := by
  induction l generalizing fuel with
  | nil => exact stripFront_stop hs fuel
  | cons w l ih =>
    obtain ⟨n, rfl⟩ : ∃ n, fuel = n + 1 := ⟨fuel - 1, by rw [List.length_cons] at hfuel; omega⟩
    rw [List.flatten_cons, List.append_assoc, stripFront_word hfree (hl w List.mem_cons_self)]
    apply ih (fun v hv => hl v (List.mem_cons_of_mem w hv))
    rw [List.length_cons] at hfuel
    omega

theorem length_le_flatten {l : List Bytes} (hl : ∀ w ∈ l, w ≠ []) :
    l.length ≤ l.flatten.length := by
  induction l with
  | nil => exact Nat.le_refl 0
  | cons w l ih =>
    have hw := List.length_pos_iff.mpr (hl w List.mem_cons_self)
    have hrest := ih fun v hv => hl v (List.mem_cons_of_mem w hv)
    rw [List.length_cons, List.flatten_cons, List.length_append]
    omega

/-- A text that begins with no white space does not with white space behind it either. -/
theorem not_prefix_append {t : Bytes} (ht : t ≠ []) (hhead : ∀ w ∈ whitespace, ¬ w <+: t)
    {l : List Bytes} (hl : ∀ w ∈ l, w ∈ whitespace) : ∀ w ∈ whitespace, ¬ w <+: t ++ l.flatten := by
  rintro w hw ⟨r, hr⟩
  obtain ⟨u, hu, -⟩ | ⟨u, rfl, hu⟩ := List.append_eq_append_iff.mp hr
  · exact hhead w hw ⟨u, hu.symm⟩
  · replace hu : u <+: l.flatten := ⟨r, hu.symm⟩
    cases l with
    | nil =>
      rw [List.flatten_nil, List.prefix_nil] at hu
      rw [hu, List.append_nil] at hw
      exact hhead t hw (List.prefix_refl t)
    | cons v l =>
      obtain ⟨c, u', rfl⟩ : ∃ c u', u = c :: u' := by
        apply List.exists_cons_of_ne_nil
        rintro rfl
        rw [List.append_nil] at hw
        exact hhead t hw (List.prefix_refl t)
      obtain ⟨d, v', rfl⟩ :=
        List.exists_cons_of_ne_nil (whitespace_ne_nil v (hl v List.mem_cons_self))
      rw [List.flatten_cons, List.cons_append, List.cons_prefix_cons] at hu
      obtain ⟨b, t', rfl⟩ := List.exists_cons_of_ne_nil ht
      apply whitespace_inside _ hw (d :: v') (hl _ List.mem_cons_self) d rfl
      rw [List.cons_append, List.tail_cons, hu.1]
      exact List.mem_append_right t' List.mem_cons_self

/-- No white space is left at the end. -/
theorem trim_last {w : Bytes} (hw : w ∈ whitespace) : ¬ w <:+ trim s := by
  intro h
  have hrev : w.reverse ∈ whitespace.map List.reverse := List.mem_map_of_mem hw
  have hne : ∀ v ∈ whitespace.map List.reverse, v ≠ [] := by decide
  refine stripFront_head hne (s := (stripFront whitespace s.length s).reverse)
    (Nat.le_of_eq (List.length_reverse ..)) hrev ?_
  have := List.reverse_prefix.mpr h
  rw [trim, List.reverse_reverse] at this
  exact this

/-- **What is left between white space is the trimmed text.** -/
theorem trim_of_split {pre post : List Bytes} (hpre : ∀ w ∈ pre, w ∈ whitespace)
    (hpost : ∀ w ∈ post, w ∈ whitespace) {t : Bytes} (hhead : ∀ w ∈ whitespace, ¬ w <+: t)
    (hlast : ∀ w ∈ whitespace, ¬ w <:+ t) :
    trim (pre.flatten ++ (t ++ post.flatten)) = t := by
  have hne : ∀ {l : List Bytes}, (∀ w ∈ l, w ∈ whitespace) → ∀ w ∈ l, w ≠ [] :=
    fun hl w hw => whitespace_ne_nil w (hl w hw)
  by_cases ht : t = []
  · subst ht
    have hfront : stripFront whitespace (pre.flatten ++ ([] ++ post.flatten)).length
        (pre.flatten ++ ([] ++ post.flatten)) = [] := by
      have hall : ∀ w ∈ pre ++ post, w ∈ whitespace := fun w hw =>
        (List.mem_append.mp hw).elim (hpre w) (hpost w)
      have hflat : pre.flatten ++ ([] ++ post.flatten) = (pre ++ post).flatten ++ [] := by
        rw [List.nil_append, List.append_nil, List.flatten_append]
      rw [hflat]
      apply stripFront_words prefixFree_whitespace hall hhead
      rw [List.append_nil]
      exact length_le_flatten (hne hall)
    rw [trim, hfront]
    rfl
  · have hfront : stripFront whitespace (pre.flatten ++ (t ++ post.flatten)).length
        (pre.flatten ++ (t ++ post.flatten)) =
        t ++ post.flatten := by
      apply stripFront_words prefixFree_whitespace hpre (not_prefix_append ht hhead hpost)
      rw [List.length_append]
      exact Nat.le_trans (length_le_flatten (hne hpre)) (Nat.le_add_right _ _)
    rw [trim, hfront]
    have hback : (t ++ post.flatten).reverse = (post.reverse.map List.reverse).flatten ++
        t.reverse := by
      rw [List.reverse_append, List.reverse_flatten, List.map_reverse]
    rw [hback]
    have hstrip : ∀ {fuel}, (post.reverse.map List.reverse).length ≤ fuel →
        stripFront (whitespace.map List.reverse) fuel
          ((post.reverse.map List.reverse).flatten ++ t.reverse) = t.reverse := by
      intro fuel hfuel
      apply stripFront_words prefixFree_reversed _ _ hfuel
      · intro w hw
        obtain ⟨v, hv, rfl⟩ := List.mem_map.mp hw
        exact List.mem_map_of_mem (hpost v (List.mem_reverse.mp hv))
      · intro w hw hpre
        obtain ⟨v, hv, rfl⟩ := List.mem_map.mp hw
        exact hlast v hv (List.reverse_prefix.mp hpre)
    rw [hstrip, List.reverse_reverse]
    rw [List.length_map, List.length_reverse, List.length_append]
    exact Nat.le_trans (length_le_flatten (hne hpost)) (Nat.le_add_left _ _)

/-- White space in front of a text is trimmed off. -/
theorem trim_flatten_append {l : List Bytes} (hl : ∀ w ∈ l, w ∈ whitespace) (s : Bytes) :
    trim (l.flatten ++ s) = trim s := by
  obtain ⟨pre, post, hpre, hpost, -, hs⟩ := trim_split s
  have hsplit : l.flatten ++ s = (l ++ pre).flatten ++ (trim s ++ post.flatten) := by
    rw [List.flatten_append, List.append_assoc, ← hs]
  rw [hsplit]
  apply trim_of_split _ hpost (fun w hw => trim_head hw) (fun w hw => trim_last hw)
  exact fun w hw => (List.mem_append.mp hw).elim (hl w) (hpre w)

theorem trim_append_flatten {l : List Bytes} (hl : ∀ w ∈ l, w ∈ whitespace) (s : Bytes) :
    trim (s ++ l.flatten) = trim s := by
  obtain ⟨pre, post, hpre, hpost, -, hs⟩ := trim_split s
  have hsplit : s ++ l.flatten = pre.flatten ++ (trim s ++ (post ++ l).flatten) := by
    rw [List.flatten_append, ← List.append_assoc (trim s), ← List.append_assoc, ← hs]
  rw [hsplit]
  apply trim_of_split hpre _ (fun w hw => trim_head hw) (fun w hw => trim_last hw)
  exact fun w hw => (List.mem_append.mp hw).elim (hpost w) (hl w)

/-- A text that begins with no part of white space keeps its first octet. -/
theorem trim_cons {c : UInt8} (hc : ∀ w ∈ whitespace, c ∉ w) (s : Bytes) :
    ∃ t, trim (c :: s) = c :: t := by
  obtain ⟨pre, post, hpre, hpost, -, hs⟩ := trim_split (c :: s)
  have hnot : ∀ {l : List Bytes}, (∀ w ∈ l, w ∈ whitespace) → c ∉ l.flatten := by
    intro l hl hin
    obtain ⟨w, hw, hcw⟩ := List.mem_flatten.mp hin
    exact hc w (hl w hw) hcw
  have hpre' : pre.flatten = [] := by
    by_contra hne
    obtain ⟨d, u, hu⟩ := List.exists_cons_of_ne_nil hne
    rw [hu, List.cons_append] at hs
    apply hnot hpre
    rw [hu, (List.cons.inj hs).1]
    exact List.mem_cons_self
  rw [hpre', List.nil_append] at hs
  cases ht : trim (c :: s) with
  | nil =>
    rw [ht, List.nil_append] at hs
    exact absurd (hs ▸ List.mem_cons_self) (hnot hpost)
  | cons d t =>
    rw [ht, List.cons_append] at hs
    exact ⟨t, by rw [(List.cons.inj hs).1]⟩

/-! ## Valid texts -/

/-- Inside a character only a continuation octet follows. -/
def State.Inside : State → Prop
  | .start => True
  | .mid lo hi _ => 0x80 ≤ lo ∧ hi ≤ 0xBF

theorem inside_of_step {q q' : State} {x : UInt8} (h : step q x = some q') : q'.Inside := by
  unfold step first at h
  split at h
  · split_ifs at h <;> cases h <;> trivial
  · split_ifs at h
    cases h
    trivial
  · split_ifs at h
    cases h
    exact ⟨by decide, by decide⟩

theorem inside_of_run {q q' : State} {b : Bytes} (hq : q.Inside) (h : run q b = some q') :
    q'.Inside := by
  induction b generalizing q with
  | nil =>
    cases h
    exact hq
  | cons x b ih =>
    obtain ⟨q₁, hq₁, hb⟩ := Option.bind_eq_some_iff.mp h
    exact ih (inside_of_step hq₁) hb

theorem Valid.of_append {a b : Bytes} (ha : Valid a) (h : Valid (a ++ b)) : Valid b := by
  rw [Valid, run_append, show run .start a = some .start from ha] at h
  exact h

/-- An octet that begins a character cuts a valid text. -/
theorem Valid.of_append_first {a b : Bytes} {c : UInt8} (hc : c < 0x80 ∨ 0xC2 ≤ c)
    (h : Valid (a ++ c :: b)) : Valid a := by
  rw [Valid, run_append] at h
  obtain ⟨q, hq, hlast⟩ := Option.bind_eq_some_iff.mp h
  have hinside := inside_of_run (q := .start) trivial hq
  cases q with
  | start => exact hq
  | mid lo hi n =>
    have hout : ¬ (lo ≤ c ∧ c ≤ hi) := by
      rintro ⟨hlo, hhi⟩
      have h80 := UInt8.le_trans hinside.1 hlo
      have hBF := UInt8.le_trans hhi hinside.2
      rcases hc with hc | hc
      · exact UInt8.not_le.mpr hc h80
      · exact absurd (UInt8.le_trans hc hBF) (by decide)
    cases n <;> simp [run, step, hout] at hlast

theorem valid_whitespace : ∀ w ∈ whitespace, Valid w ∧ ∃ c b, w = c :: b ∧
    (c < 0x80 ∨ 0xC2 ≤ c) := by
  intro w hw
  have hall : ∀ w ∈ whitespace, Valid w ∧ w.head?.any (fun c => c < 0x80 ∨ 0xC2 ≤ c) = true := by
    decide
  obtain ⟨hvalid, hhead⟩ := hall w hw
  cases w with
  | nil => cases hhead
  | cons c b => exact ⟨hvalid, c, b, rfl, of_decide_eq_true hhead⟩

theorem Valid.of_flatten_append {l : List Bytes} (hl : ∀ w ∈ l, w ∈ whitespace) {t : Bytes}
    (h : Valid (l.flatten ++ t)) :
    Valid t := by
  induction l with
  | nil => exact h
  | cons w l ih =>
    rw [List.flatten_cons, List.append_assoc] at h
    exact ih (fun v hv => hl v (List.mem_cons_of_mem _ hv))
      (Valid.of_append (valid_whitespace w (hl w List.mem_cons_self)).1 h)

theorem Valid.of_append_flatten {l : List Bytes} (hl : ∀ w ∈ l, w ∈ whitespace) {t : Bytes}
    (h : Valid (t ++ l.flatten)) :
    Valid t := by
  cases l with
  | nil => simpa using h
  | cons w l =>
    obtain ⟨-, c, b, rfl, hc⟩ := valid_whitespace w (hl w List.mem_cons_self)
    exact Valid.of_append_first hc h

/-- Trimming keeps a text valid. -/
theorem valid_trim (h : Valid s) : Valid (trim s) := by
  obtain ⟨pre, post, hpre, hpost, -, hs⟩ := trim_split s
  rw [hs] at h
  exact (h.of_flatten_append hpre).of_append_flatten hpost

end CdjEmu.Text
