/-
  THE LIST READ BACK — when `load_in` returns the mods that `save` wrote.

  A mod is `Kept` by the list when its own line is read as that mod: an installed mod's name is
  valid and its origin ends with the line, a folder's path is written as it is and the folder still
  has the name it was listed under.  `loadIn_listText` is the round trip of a whole list of such
  mods, and `kept_of_loaded` says that what was loaded is kept but for the ends of its lines and for
  paths that are no text.

  A folder's name is in no line: `folderName` is what its `mod.toml` declares at that moment, or
  else what the folder is called.
-/
import CdjEmu.Mods.ListFile

namespace CdjEmu.Mods

open Text

variable {k : Crates} {fs : Files}

/-- The name of a folder used in place: from its `mod.toml`, or else the folder's own. -/
def folderName (k : Crates) (fs : Files) (path : Bytes) : Bytes :=
  match read k fs path with
  | .ok m => m.name
  | .error _ => ((Path.fileName path).map lossy).getD path

/-- The line of `m` is read as `m`. -/
def SlotMod.Kept (k : Crates) (fs : Files) (m : SlotMod) : Prop :=
  match m.source with
  | .installed origin => validName m.name = true ∧ 10 ∉ origin ∧ origin.getLast? ≠ some 13
  | .folder path => Path.isAbsolute path = true ∧ 10 ∉ path ∧ lossy path = path ∧
      path.getLast? ≠ some 13 ∧
      m.name = folderName k fs path

/-! ## One line -/

/-- `on` or `off`, as the line has it. -/
def stateText (enabled : Bool) : Bytes := if enabled then bytes "on" else bytes "off"

/-- What the line of `m` says behind the state. -/
def SlotMod.entry (m : SlotMod) : Bytes :=
  match m.source with
  | .installed origin => m.name ++ 9 :: origin
  | .folder path => lossy path

theorem SlotMod.line_eq (m : SlotMod) : m.line = stateText m.enabled ++ 32 :: m.entry := by
  unfold SlotMod.line SlotMod.entry
  cases m.enabled <;> rfl

theorem not_mem_stateText {c : UInt8} (enabled : Bool) (h : c ∉ bytes "on" ∧ c ∉ bytes "off") :
    c ∉ stateText enabled := by
  cases enabled with
  | true => exact h.1
  | false => exact h.2

/-- A line is read by what stands behind its state. -/
theorem readLine_of_entry (enabled : Bool) (entry : Bytes) :
    readLine k fs (stateText enabled ++ 32 :: entry) =
      if Path.isAbsolute entry then some ⟨folderName k fs entry, .folder entry, enabled⟩
      else
        let (name, origin) := (splitOnce 9 entry).getD (entry, entry)
        if validName name then some ⟨name, .installed origin, enabled⟩ else none := by
  rw [readLine, splitOnce_append (not_mem_stateText enabled (by decide))]
  cases enabled <;> rfl

theorem readLine_line {m : SlotMod} (h : m.Kept k fs) : readLine k fs m.line = some m := by
  obtain ⟨name, source, enabled⟩ := m
  rw [SlotMod.line_eq, readLine_of_entry]
  cases source with
  | installed origin =>
    obtain ⟨hvalid, -, -⟩ := h
    obtain ⟨htab, -, -, hslash⟩ := not_mem_name hvalid
    -- a valid name does not start with a slash, so the entry is no path
    have hrel : Path.isAbsolute (name ++ 9 :: origin) = false := by
      cases name with
      | nil => rfl
      | cons c name =>
        have hne : c ≠ 47 := fun hc => hslash (by rw [hc]; exact List.mem_cons_self)
        simpa [Path.isAbsolute, Path.sep] using hne
    show (if Path.isAbsolute (name ++ 9 :: origin) = true then _ else _) = _
    rw [hrel, if_neg (by decide), SlotMod.entry, splitOnce_append htab]
    exact if_pos hvalid
  | folder path =>
    obtain ⟨habs, -, htext, -, hname⟩ := h
    show (if Path.isAbsolute (lossy path) = true then
        some (SlotMod.mk (folderName k fs (lossy path)) _ _)
      else _) = _
    rw [htext, if_pos habs, ← hname]
    exact congrArg (fun p => some (SlotMod.mk name (.folder p) enabled)) htext

/-! ## The whole text -/

/-- What ends in no carriage return does not when it stands behind something else. -/
theorem getLast?_ne {a o : Bytes} {c : UInt8} (hc : c ≠ 13) (h : o.getLast? ≠ some 13) :
    (a ++ c :: o).getLast? ≠ some 13 := by
  rw [List.getLast?_append_of_ne_nil _ (List.cons_ne_nil c o)]
  cases o with
  | nil => simpa using hc
  | cons d o =>
    rw [List.getLast?_cons_cons]
    exact h

/-- The line of a mod that is kept is one line, and does not end in a carriage return. -/
theorem line_of_kept {m : SlotMod} (h : m.Kept k fs) : 10 ∉ m.line ∧ m.line.getLast? ≠ some 13 := by
  obtain ⟨name, source, enabled⟩ := m
  rw [SlotMod.line_eq]
  have hstate : (10 : UInt8) ∉ stateText enabled := not_mem_stateText enabled (by decide)
  cases source with
  | installed origin =>
    obtain ⟨hvalid, hfeed, hend⟩ := h
    have hname := (not_mem_name hvalid).2.1
    constructor
    · simp [SlotMod.entry, hstate, hname, hfeed]
    · have hassoc : stateText enabled ++ 32 :: (name ++ 9 :: origin) =
          (stateText enabled ++ 32 :: name) ++ 9 :: origin := by simp
      show (stateText enabled ++ 32 :: (name ++ 9 :: origin)).getLast? ≠ _
      rw [hassoc]
      exact getLast?_ne (by decide) hend
  | folder path =>
    obtain ⟨habs, hfeed, htext, hend, -⟩ := h
    have hentry : SlotMod.entry ⟨name, .folder path, enabled⟩ = path := htext
    rw [hentry]
    constructor
    · simp [hstate, hfeed]
    · exact getLast?_ne (by decide) hend

/-- A text of whole lines has these lines. -/
theorem lines_flatMap {ls : List Bytes} (h : ∀ l ∈ ls, 10 ∉ l ∧ l.getLast? ≠ some 13) :
    lines (ls.flatMap fun l => l ++ [10]) = ls := by
  induction ls with
  | nil => rfl
  | cons l ls ih =>
    obtain ⟨hfeed, hend⟩ := h l List.mem_cons_self
    have hpieces : l.splitOn 10 = [l] := splitOn_of_notMem hfeed
    have hsplit : (l :: ls).flatMap (fun l => l ++ [10]) = l ++ 10 :: ls.flatMap
        (fun l => l ++ [10]) := by simp
    rw [hsplit, lines_append, hpieces, ih fun l' hl' => h l' (List.mem_cons_of_mem _ hl'),
      List.map_singleton, stripCr, if_neg hend]
    rfl

/-- Mods of different names are all kept. -/
theorem foldl_keep_eq {kept ms : List SlotMod} (h : ((kept ++ ms).map SlotMod.name).Nodup) :
    ms.foldl keep kept = kept ++ ms := by
  induction ms generalizing kept with
  | nil => exact (List.append_nil kept).symm
  | cons m ms ih =>
    have hsplit : kept ++ m :: ms = kept ++ [m] ++ ms := by simp
    have hnew : ¬ (kept.any (·.name = m.name)) = true := by
      intro hany
      obtain ⟨x, hx, hname⟩ := List.any_eq_true.mp hany
      rw [List.map_append, List.map_cons, List.nodup_append] at h
      exact h.2.2 x.name (List.mem_map_of_mem hx) m.name List.mem_cons_self
        (of_decide_eq_true hname)
    rw [List.foldl_cons, keep, if_neg hnew, ih (by rwa [hsplit] at h), ← hsplit]

/-- **The round trip**: the text of mods that are kept is loaded as these mods. -/
theorem loadIn_listText {slot : SlotMods}
    (htext : fs.readToString (Path.join slot.dir (bytes "list.txt")) = .ok (listText slot.mods))
    (h : ∀ m ∈ slot.mods, m.Kept k fs) : (SlotMods.loadIn k fs slot.dir).mods = slot.mods := by
  have hlines : lines (listText slot.mods) = slot.mods.map SlotMod.line := by
    have hflat : listText slot.mods = (slot.mods.map SlotMod.line).flatMap fun l => l ++ [10] := by
      rw [listText, List.flatMap_map]
    rw [hflat, lines_flatMap]
    intro l hl
    obtain ⟨m, hm, rfl⟩ := List.mem_map.mp hl
    exact line_of_kept (h m hm)
  have hread : (slot.mods.map SlotMod.line).filterMap (readLine k fs) = slot.mods := by
    rw [List.filterMap_map]
    exact (List.filterMap_congr fun m hm => readLine_line (h m hm)).trans List.filterMap_some
  show ((lines (((fs.readToString _).toOption).getD [])).filterMap (readLine k fs)).foldl
      keep [] = _
  rw [htext]
  show ((lines (listText slot.mods)).filterMap _).foldl keep [] = _
  rw [hlines, hread, foldl_keep_eq (by simpa using slot.unique), List.nil_append]

/-! ## What was loaded -/

/-- A mod whose line ends as it should and whose path is text. -/
def SlotMod.Clean (m : SlotMod) : Prop :=
  match m.source with
  | .installed origin => origin.getLast? ≠ some 13
  | .folder path => lossy path = path ∧ path.getLast? ≠ some 13

/-- A folder is listed under the name it has. -/
theorem name_of_readLine {line path : Bytes} {m : SlotMod} (h : readLine k fs line = some m)
    (hs : m.source = .folder path) :
    m.name = folderName k fs path := by
  unfold readLine at h
  cases hsplit : splitOnce 32 line with
  | none =>
    rw [hsplit] at h
    cases h
  | some p =>
    rw [hsplit] at h
    dsimp only at h
    split at h
    · cases h
    · split at h
      · obtain rfl := Option.some.inj h
        obtain rfl := Source.folder.inj hs
        rfl
      · split_ifs at h
        obtain rfl := Option.some.inj h
        cases hs

theorem kept_of_loaded {dir : Bytes} {m : SlotMod} (hm : m ∈ (SlotMods.loadIn k fs dir).mods)
    (h : m.Clean) : m.Kept k fs := by
  obtain ⟨line, hline, hread⟩ := line_of_loaded hm
  have hfeed := not_mem_of_mem_lines hline
  unfold SlotMod.Clean at h
  unfold SlotMod.Kept
  rcases readLine_cases hread with ⟨path, hs, habs, hpath⟩ | ⟨origin, hs, -, hvalid, horigin⟩
  · rw [hs] at h ⊢
    exact ⟨habs, fun h10 => hfeed (hpath _ h10), h.1, h.2, name_of_readLine hread hs⟩
  · rw [hs] at h ⊢
    exact ⟨hvalid, fun h10 => hfeed (horigin _ h10), h⟩

/-- Other files, on which the folder has the same name, keep the mod too. -/
theorem SlotMod.Kept.congr {fs' : Files} {m : SlotMod} (h : m.Kept k fs)
    (hname : ∀ path, m.source = .folder path → folderName k fs' path = folderName k fs path) :
    m.Kept k fs' := by
  unfold SlotMod.Kept at h ⊢
  cases hs : m.source with
  | installed origin =>
    rw [hs] at h
    exact h
  | folder path =>
    rw [hs] at h
    dsimp only at h ⊢
    rw [hname path hs]
    exact h

end CdjEmu.Mods
