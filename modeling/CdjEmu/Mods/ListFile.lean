/-
  `list.txt` — what `save` writes of a slot's mods, and what a line of the text is read as.

  1. **The text** — one line per mod: `on` or `off`, then the name and the origin of an installed
     mod, or the path of a folder.
  2. **A line read** — `readLine_cases`: a folder's absolute path, or an installed mod that the line
     names. What is read of either stands in the line.
  3. **A name written** — `not_mem_name`: no valid name has an octet in it that ends a name or a
     line.

  A path is written as it is.  One with a line feed is several lines, and these may name an
  installed mod.
-/
import CdjEmu.Mods.List

namespace CdjEmu.Mods

open Text

/-! ## Lines -/

/-- A line without the carriage return that may end it. -/
def stripCr (l : Bytes) : Bytes := if l.getLast? = some 13 then l.dropLast else l

/-- Whole lines come before what follows them. -/
theorem lines_append (a b : Bytes) :
    lines (a ++ 10 :: b) = (a.splitOn 10).map stripCr ++ lines b := by
  have hb := splitOn_ne_nil 10 b
  show ((a ++ 10 :: b).splitOn 10).dropLast.map stripCr ++
      (((a ++ 10 :: b).splitOn 10).getLast?.filter _).toList = _
  rw [splitOn_append_sep, List.dropLast_append_of_ne_nil hb, List.getLast?_append_of_ne_nil _ hb,
    List.map_append, List.append_assoc]
  rfl

/-! ## The mods that a text names as installed -/

/-- The name that a line of `list.txt` gives to an installed mod. -/
def installedName (line : Bytes) : Option Bytes :=
  match splitOnce 32 line with
  | none => none
  | some (state, entry) =>
    if (state = bytes "on" ∨ state = bytes "off") ∧ Path.isAbsolute entry = false then
      some ((splitOnce 9 entry).getD (entry, entry)).1 |>.filter (validName ·)
    else none

section ReadLine

variable {k : Crates} {fs : Files} {line : Bytes}

/-- What a line is read as: a folder's absolute path from the line, or an installed mod that it
    names, with an origin from the line. -/
theorem readLine_cases {m : SlotMod} (h : readLine k fs line = some m) :
    (∃ path, m.source = .folder path ∧ Path.isAbsolute path = true ∧ ∀ c ∈ path, c ∈ line) ∨
      ∃ origin, m.source = .installed origin ∧ installedName line = some m.name ∧
      validName m.name = true ∧ ∀ c ∈ origin, c ∈ line := by
  -- a part of a line has no octet that the line has not
  have hparts : ∀ {c : UInt8} {s a b : Bytes}, splitOnce c s = some (a, b) → ∀ d ∈ b, d ∈ s := by
    intro c s a b hs d hd
    rw [eq_of_splitOnce hs]
    exact List.mem_append_right _ (List.mem_cons_of_mem _ hd)
  unfold readLine at h
  -- `on` or `off`, then the entry
  cases hs : splitOnce 32 line with
  | none =>
    rw [hs] at h
    cases h
  | some p =>
    obtain ⟨state, entry⟩ := p
    rw [hs] at h
    dsimp only at h
    split at h
    · cases h
    · rename_i enabled hstate
      have hon : state = bytes "on" ∨ state = bytes "off" := by
        split_ifs at hstate with h1 h2
        · exact Or.inl h1
        · exact Or.inr h2
      -- an absolute path, or a name
      split at h
      · rename_i habs
        obtain rfl := Option.some.inj h
        exact Or.inl ⟨entry, rfl, habs, hparts hs⟩
      · rename_i hrel
        split_ifs at h with hvalid
        obtain rfl := Option.some.inj h
        refine Or.inr ⟨_, rfl, ?_, hvalid, ?_⟩
        · simp only [installedName, hs]
          rw [if_pos ⟨hon, by simpa using hrel⟩]
          exact Option.filter_eq_some_iff.mpr ⟨rfl, hvalid⟩
        · intro c hc
          apply hparts hs
          cases h9 : splitOnce 9 entry with
          | none =>
            rw [h9] at hc
            exact hc
          | some q =>
            rw [h9] at hc
            exact hparts (a := q.1) (b := q.2) h9 c hc

end ReadLine

/-! ## Writing -/

/-- The line of `m`, without its line feed. -/
def SlotMod.line (m : SlotMod) : Bytes :=
  (if m.enabled then bytes "on " else bytes "off ") ++
    match m.source with
    | .installed origin => m.name ++ 9 :: origin
    | .folder path => lossy path

/-- The text of `list.txt`. -/
def listText (mods : List SlotMod) : Bytes := mods.flatMap fun m => m.line ++ [10]

/-- A character of a valid name. -/
theorem nameChar_of_mem {name : Bytes} (h : validName name = true) {c : UInt8} (hc : c ∈ name) :
    (isLowercase c || isDigit c || decide (c = 46) || decide (c = 95) || decide (c = 45)) =
      true := by
  simp only [validName, Bool.and_eq_true] at h
  exact List.all_eq_true.mp h.1.1.2 c hc

/-- No valid name has a separator of the list, a line feed or a slash in it. -/
theorem not_mem_name {name : Bytes} (h : validName name = true) :
    9 ∉ name ∧ 10 ∉ name ∧ 32 ∉ name ∧ 47 ∉ name := by
  have hno : ∀ c :
      UInt8, (isLowercase c || isDigit c || decide (c = 46) || decide (c = 95) || decide (c = 45)) =
        false → c ∉ name := by
    intro c hc hmem
    rw [nameChar_of_mem h hmem] at hc
    cases hc
  exact ⟨hno 9 (by decide), hno 10 (by decide), hno 32 (by decide), hno 47 (by decide)⟩

/-! ## Loading -/

section Load

variable {k : Crates} {fs : Files} {dir text : Bytes}

theorem not_mem_of_mem_lines {line : Bytes} (h : line ∈ lines text) : 10 ∉ line := by
  have hpiece : ∀ {l : Bytes}, l ∈ split 10 text → 10 ∉ l := not_mem_of_mem_splitOn
  rcases List.mem_append.mp h with h | h
  · obtain ⟨l, hl, rfl⟩ := List.mem_map.mp h
    have hl := hpiece (List.mem_of_mem_dropLast hl)
    split
    · exact fun hc => hl (List.mem_of_mem_dropLast hc)
    · exact hl
  · exact hpiece (List.mem_of_getLast? (Option.filter_eq_some_iff.mp (Option.mem_toList.mp h)).1)

/-- The mods that are kept are among those that were read, and each name that was read is kept. -/
theorem foldl_keep (kept ms : List SlotMod) :
    (∀ m ∈ ms.foldl keep kept, m ∈ kept ∨ m ∈ ms) ∧ ∀ m, m ∈ kept ∨ m ∈ ms →
    m.name ∈ (ms.foldl keep kept).map SlotMod.name := by
  induction ms generalizing kept with
  | nil =>
    constructor
    · exact fun m hm => Or.inl hm
    · rintro m (hm | hm)
      · exact List.mem_map_of_mem hm
      · cases hm
  | cons x ms ih =>
    -- each round keeps the mod, or one of its name is kept
    obtain ⟨hfrom, hname⟩ := ih (keep kept x)
    have hkeep : ∀ m ∈ keep kept x, m ∈ kept ∨ m = x := by
      intro m hm
      unfold keep at hm
      split at hm
      · exact Or.inl hm
      · rcases List.mem_append.mp hm with hm | hm
        · exact Or.inl hm
        · exact Or.inr (List.mem_singleton.mp hm)
    have hkept : ∀ m ∈ kept, m ∈ keep kept x := by
      intro m hm
      unfold keep
      split
      · exact hm
      · exact List.mem_append_left _ hm
    constructor
    · intro m hm
      rcases hfrom m hm with hm | hm
      · rcases hkeep m hm with hm | rfl
        · exact Or.inl hm
        · exact Or.inr List.mem_cons_self
      · exact Or.inr (List.mem_cons_of_mem _ hm)
    · rintro m (hm | hm)
      · exact hname m (Or.inl (hkept m hm))
      · rcases List.mem_cons.mp hm with rfl | hm
        -- a mod of that name is kept already, or this one is
        · by_cases hdup : kept.any (·.name = m.name) = true
          · obtain ⟨m', hm', he⟩ := List.any_eq_true.mp hdup
            rw [← of_decide_eq_true he]
            exact hname m' (Or.inl (hkept m' hm'))
          · refine hname m (Or.inl ?_)
            unfold keep
            rw [if_neg hdup]
            exact List.mem_append_right _ List.mem_cons_self
        · exact hname m (Or.inr hm)

/-- What `list.txt` reads as; the empty text when it cannot be read. -/
def textOf (fs : Files) (dir : Bytes) : Bytes :=
  ((fs.readToString (Path.join dir (bytes "list.txt"))).toOption).getD []

/-- A loaded mod comes from a line. -/
theorem line_of_loaded {m : SlotMod} (h : m ∈ (SlotMods.loadIn k fs dir).mods) :
    ∃ line ∈ lines (textOf fs dir), readLine k fs line = some m := by
  rcases (foldl_keep [] _).1 m h with h | h
  · cases h
  · exact List.mem_filterMap.mp h

end Load

end CdjEmu.Mods
