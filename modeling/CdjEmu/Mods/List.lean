/-
  A SLOT'S MODS — the boot order kept in `list.txt`, and the sweep of what an add left behind.

  A `SlotMods` carries the fact everything else rests on: no two of its mods have one name, so a
  name finds the mod it belongs to (`get_of_mem`).  `load_in` makes such a list of any text
  whatever, the first entry with a name winning.

  A mod is installed, its files in `installed/<name>`, or a folder elsewhere that is read in place;
  its `boot_id` is the name, the source and the version its `mod.toml` has at that moment.
-/
import CdjEmu.Mods.Manifest

namespace CdjEmu.Mods

open Text

inductive Source where
  | installed (origin : Bytes)
  | folder (path : Bytes)
  deriving DecidableEq

structure SlotMod where
  name : Bytes
  source : Source
  enabled : Bool
  deriving DecidableEq

/-- A slot's mods in boot order. -/
structure SlotMods where
  dir : Bytes
  mods : List SlotMod
  unique : (mods.map SlotMod.name).Nodup

/-! ## Loading -/

/-- The lines of a text, without the line feed or carriage return and line feed that ends each. -/
def lines (text : Bytes) : List Bytes :=
  let pieces := split 10 text
  pieces.dropLast.map (fun l => if l.getLast? = some 13 then l.dropLast else l) ++
    (pieces.getLast?.filter (· ≠ [])).toList

/-- One line of `list.txt`: `on` or `off`, then an absolute folder path or a valid mod name. -/
def readLine (k : Crates) (fs : Files) (line : Bytes) : Option SlotMod :=
  match splitOnce 32 line with
  | none => none
  | some (state, entry) =>
    match (if state = bytes "on" then some true
      else if state = bytes "off" then some false
      else none) with
    | none => none
    | some enabled =>
      if Path.isAbsolute entry then
        let name := match read k fs entry with
          | .ok m => m.name
          | .error _ => ((Path.fileName entry).map lossy).getD entry
        some ⟨name, .folder entry, enabled⟩
      else
        let (name, origin) := (splitOnce 9 entry).getD (entry, entry)
        if validName name then some ⟨name, .installed origin, enabled⟩ else none

/-- `m` goes behind the mods kept so far unless one of them has its name. -/
def keep (kept : List SlotMod) (m : SlotMod) : List SlotMod :=
  if kept.any (·.name = m.name) then kept else kept ++ [m]

theorem keep_unique {kept : List SlotMod} (h : (kept.map SlotMod.name).Nodup) (m : SlotMod) :
    ((keep kept m).map SlotMod.name).Nodup := by
  unfold keep
  split
  · exact h
  · rename_i hnew
    rw [List.map_append, List.map_singleton, List.nodup_append]
    refine ⟨h, List.nodup_singleton _, ?_⟩
    intro a ha b hb hab
    obtain ⟨m', hm', rfl⟩ := List.mem_map.mp ha
    rw [List.mem_singleton] at hb
    exact hnew (List.any_eq_true.mpr ⟨m', hm', by simpa using hab.trans hb⟩)

theorem foldl_keep_unique {kept : List SlotMod} (h : (kept.map SlotMod.name).Nodup)
    (ms : List SlotMod) : ((ms.foldl keep kept).map SlotMod.name).Nodup := by
  induction ms generalizing kept with
  | nil => exact h
  | cons m ms ih => exact ih (keep_unique h m)

namespace SlotMods

/-- The mods of the folder `dir`; a `list.txt` that cannot be read is an empty one. -/
def loadIn (k : Crates) (fs : Files) (dir : Bytes) : SlotMods where
  dir
  mods :=
    let text := ((fs.readToString (Path.join dir (bytes "list.txt"))).toOption).getD []
    ((lines text).filterMap (readLine k fs)).foldl keep []
  unique := @foldl_keep_unique [] List.nodup_nil _

/-! ## Looking up -/

variable (slot : SlotMods)

/-- The folder of the installed mod `name`. -/
def installed (name : Bytes) : Bytes := Path.join (Path.join slot.dir (bytes "installed")) name

/-- Where `m`'s files are. -/
def dirOf (m : SlotMod) : Bytes :=
  match m.source with
  | .installed _ => slot.installed m.name
  | .folder path => path

/-- An id for the version of `m` that a boot runs. -/
def bootId (k : Crates) (fs : Files) (m : SlotMod) : Bytes :=
  let source := match m.source with
    | .installed origin => origin
    | .folder path => lossy path
  let version := match read k fs (slot.dirOf m) with
    | .ok man => man.version
    | .error _ => bytes "?"
  m.name ++ [9] ++ source ++ [9] ++ version

def get (name : Bytes) : Option SlotMod := slot.mods.find? (·.name = name)

/-- A name finds the mod it belongs to. -/
theorem get_of_mem {m : SlotMod} (hm : m ∈ slot.mods) : slot.get m.name = some m := by
  have huniq := slot.unique
  unfold get
  generalize slot.mods = ms at hm huniq
  induction ms with
  | nil => cases hm
  | cons x ms ih =>
    rw [List.map_cons, List.nodup_cons] at huniq
    rcases List.mem_cons.mp hm with rfl | hm
    · rw [List.find?_cons_of_pos (by simp)]
    · have hx : x.name ≠ m.name := fun h => huniq.1 (h ▸ List.mem_map_of_mem hm)
      rw [List.find?_cons_of_neg (by simpa using hx)]
      exact ih hm huniq.2

/-- The id of a mod depends on nothing but what its `mod.toml` reads as. -/
theorem bootId_congr {k : Crates} {fs fs' : Files} {m : SlotMod}
    (h : read k fs' (slot.dirOf m) = read k fs (slot.dirOf m)) :
    slot.bootId k fs' m = slot.bootId k fs m := by
  rw [bootId, bootId, h]

/-! ## Sweeping -/

/-- How old a leftover from an add, a replace or a download must be before it is
    deleted, in nanoseconds. -/
def leftoverAge : Int := 3600 * 10 ^ 9

/-- The names of leftovers: of an add, a download, a replace, or of any temporary file. -/
def leftover (file : Bytes) : Bool :=
  [bytes ".add-", bytes ".download-", bytes ".replaced-"].any (·.isPrefixOf file) ||
    (bytes ".tmp").isSuffixOf file

/-- `.replaced-<pid>-<nanos>-<name>`: the name. -/
def replacedName (file : Bytes) : Option Bytes := do
  let rest ← stripPre (bytes ".replaced-") file
  let (_, rest) ← splitOnce 45 rest
  let (_, name) ← splitOnce 45 rest
  some name

/-- One entry of the folder: an old leftover goes, and a mod whose replace stopped halfway gets its
    old copy back. -/
def sweepOne (os : Os) (fs : Files) (entry : Bytes) : Files :=
  let file := lossy entry
  let path := Path.join slot.dir entry
  let old : Bool := match fs.symlinkMetadata path with
    | .ok m => m.modified.any fun t => leftoverAge ≤ fs.now - t
    | .error _ => false
  if ¬ leftover file ∨ ¬ old then fs
  else
    match (replacedName file).filter fun name =>
      validName name ∧ (slot.get name).isSome ∧ ¬ fs.exist (slot.installed name) with
    | some name => after (os.rename path (slot.installed name)) fs
    | none =>
      if fs.isDir path then after (os.removeDirAll path) fs
      else after (os.removeFile path) fs

/-- Delete what an add, a replace or a download left behind more than an hour ago. -/
def sweep (os : Os) (fs : Files) : Files :=
  match fs.readDir slot.dir with
  | .error _ => fs
  | .ok entries => (entries.filterMap Except.toOption).foldl (slot.sweepOne os) fs

end SlotMods

end CdjEmu.Mods
