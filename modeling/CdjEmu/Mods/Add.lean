/-
  ADDING A MOD — `prepare`, `commit`, `remove` and the sweep, as programs of file-system calls.

  1. **The list** — what an edit makes of the mods, no two of which ever have one name.
  2. **The disk** — what a slot's `mods/` holds: `list.txt` and the temporary file it is written
     through, the folders under `installed/`, and every other entry, of which the leftovers of an
     add or a replace are some.
  3. **The calls** — what each may answer and leave behind.  A failed `remove_dir_all` may have
     deleted a part; a look at the files may fail and then says no.
  4. **The programs** — the source's functions, call by call.  Each returns the slot's mods as it
     leaves them and its result.

  What a folder holds is opaque.  A call on files outside `mods/` may answer anything.
-/
import CdjEmu.Lib.Program
import CdjEmu.Mods.Boot
import CdjEmu.Mods.ListFile

namespace CdjEmu.Mods

open Text

/-! ## The list -/

namespace SlotMods

variable (slot : SlotMods)

/-- Where the mod `name` stands. -/
def position (name : Bytes) : Option Nat := slot.mods.findIdx? (·.name = name)

theorem name_of_position {name : Bytes} {i : Nat} (h : slot.position name = some i) :
    (slot.mods.map SlotMod.name)[i]? = some name := by
  obtain ⟨hi, hname, -⟩ := List.findIdx?_eq_some_iff_getElem.mp h
  rw [List.getElem?_map, List.getElem?_eq_getElem hi]
  exact congrArg some (of_decide_eq_true hname)

theorem position_eq_none {name : Bytes} :
    slot.position name = none ↔ name ∉ slot.mods.map SlotMod.name := by
  rw [position, List.findIdx?_eq_none_iff]
  constructor
  · intro h hmem
    obtain ⟨m, hm, rfl⟩ := List.mem_map.mp hmem
    exact absurd (h m hm) (by simp)
  · intro h m hm
    exact decide_eq_false fun hname => h (hname ▸ List.mem_map_of_mem hm)

/-- `entry` in the place of the mod of its name, or behind all others. -/
def put (entry : SlotMod) : SlotMods where
  dir := slot.dir
  mods := match slot.position entry.name with
    | some i => slot.mods.set i entry
    | none => slot.mods ++ [entry]
  unique := by
    split
    · rename_i i hi
      -- a name is written over itself
      have hset : (slot.mods.set i entry).map SlotMod.name = slot.mods.map SlotMod.name := by
        rw [List.map_set]
        apply List.ext_getElem?
        intro j
        rw [List.getElem?_set]
        split_ifs with hij hlen
        · rw [← hij, slot.name_of_position hi]
        · rw [← hij, List.getElem?_eq_none (by omega)]
        · rfl
      rw [hset]
      exact slot.unique
    · rename_i hnew
      rw [List.map_append, List.nodup_append]
      refine ⟨slot.unique, List.nodup_singleton _, ?_⟩
      intro a ha b hb hab
      rw [List.map_singleton, List.mem_singleton] at hb
      exact slot.position_eq_none.mp hnew (by rwa [← hb, ← hab])

/-- The mods without the one at `i`. -/
def without (i : Nat) : SlotMods where
  dir := slot.dir
  mods := slot.mods.eraseIdx i
  unique := ((List.eraseIdx_sublist slot.mods i).map SlotMod.name).nodup slot.unique

/-- The first mod `name` switched on or off. -/
def switch (name : Bytes) (enabled : Bool) : SlotMods where
  dir := slot.dir
  mods := match slot.position name with
    | some i => slot.mods.modify i fun m => { m with enabled }
    | none => slot.mods
  unique := by
    split
    · rename_i i hi
      have hmodify : (slot.mods.modify i fun m => { m with enabled }).map SlotMod.name =
          slot.mods.map SlotMod.name := by
        apply List.ext_getElem?
        intro j
        rw [List.getElem?_map, List.getElem?_map, List.getElem?_modify]
        cases slot.mods[j]? with
        | none => rfl
        | some m =>
          show some (SlotMod.name (if i = j then { m with enabled } else m)) = some m.name
          split <;> rfl
      rw [hmodify]
      exact slot.unique
    · exact slot.unique

/-- The mod at `i` moved to `j`, the ones between shifted. -/
def move (i j : Nat) : SlotMods where
  dir := slot.dir
  mods := if h : i < slot.mods.length ∧ j < slot.mods.length ∧ i ≠ j then
    (slot.mods.eraseIdx i).insertIdx j (slot.mods.get ⟨i, h.1⟩) else slot.mods
  unique := by
    split
    · rename_i h
      have hlen : j ≤ (slot.mods.eraseIdx i).length := by
        rw [List.length_eraseIdx_of_lt h.1]
        omega
      have hperm : ((slot.mods.eraseIdx i).insertIdx j (slot.mods.get ⟨i, h.1⟩)).Perm slot.mods :=
        (List.perm_insertIdx _ _ hlen).trans (List.getElem_cons_eraseIdx_perm h.1)
      exact ((hperm.map SlotMod.name).nodup_iff).mpr slot.unique
    · exact slot.unique

end SlotMods

/-! ## The disk -/

/-- A slot's `mods/`; `γ` is what a folder or a file holds. -/
structure Disk (γ : Type) where
  /-- What `list.txt` reads as, the empty text when it is not there. -/
  list : Bytes
  /-- `list.<pid>.tmp`. -/
  tmp : Option Bytes
  installed : Bytes → Option γ
  /-- The other entries, by their names. -/
  other : Bytes → Option γ

/-- A place in `mods/`. -/
inductive Place where
  | installed (name : Bytes)
  | entry (file : Bytes)
  /-- The only folder of an entry. -/
  | inside (file : Bytes)
  deriving DecidableEq

variable {γ : Type}

def Disk.get (d : Disk γ) : Place → Option γ
  | .installed name => d.installed name
  | .entry file | .inside file => d.other file

/-- Taking the folder out of an entry leaves the entry. -/
def Disk.set (d : Disk γ) : Place → Option γ → Disk γ
  | .installed name, x => { d with installed := Function.update d.installed name x }
  | .entry file, x => { d with other := Function.update d.other file x }
  | .inside _, _ => d

/-- The mod whose folder an entry is the set-aside copy of. -/
def copyOf (file : Bytes) : Option Bytes := SlotMods.replacedName (lossy file)

/-- The two disks differ in entries that are no set-aside copies. -/
def Elsewhere (d d' : Disk γ) : Prop :=
  d'.list = d.list ∧ d'.tmp = d.tmp ∧ d'.installed = d.installed ∧ ∀ file name,
  copyOf file = some name → d'.other file = d.other file

/-! ## The calls -/

/-- `<pid>-<nanos>`. -/
structure Suffix where
  pid : Nat
  nanos : Nat

def Suffix.bytes (s : Suffix) : Bytes := decimal s.pid ++ 45 :: decimal s.nanos

/-- A folder named by an absolute path. -/
abbrev AbsolutePath := { p : Bytes // Path.isAbsolute p = true }

/-- A manifest that some folder's `mod.toml` reads as. -/
abbrev ReadManifest := { m : Manifest // ∃ k fs dir, read k fs dir = .ok m }

inductive Call where
  | readDir
  /-- Whether the entry was last modified long enough ago to be swept. -/
  | old (file : Bytes)
  | exist (p : Place)
  | isDir (p : Place)
  | rename (a b : Place)
  | removeDirAll (p : Place)
  | removeFile (p : Place)
  | createDirAll
  | writeTmp (text : Bytes)
  | moveTmp
  /-- `report::forget`. -/
  | forget (name : Bytes)
  | unpack (archive : Bytes) (tmp : Bytes)
  /-- Whether the unpacked entry has a manifest at its root. -/
  | rootHasManifest (tmp : Bytes)
  /-- Whether its only entry that is a folder has one. -/
  | onlyFolderHasManifest (tmp : Bytes)
  | pathIsDir (path : Bytes)
  | canonicalize (path : Bytes)
  /-- The canonical path of `mods/`. -/
  | canonicalizeDir
  | readManifest (dir : Bytes)
  | readUnpacked (p : Place)
  | version (m : SlotMod)

/-- What a call answers. -/
def Reply : Call → Type
  | .readDir => Except IoError (List Bytes)
  | .old _ | .exist _ | .isDir _ | .rootHasManifest _ | .onlyFolderHasManifest _
  | .pathIsDir _ => Bool
  | .rename .. | .removeDirAll _ | .removeFile _ | .createDirAll | .writeTmp _ | .moveTmp
  | .unpack .. => Except IoError Unit
  | .forget _ => Unit
  | .canonicalize _ | .canonicalizeDir => Except IoError AbsolutePath
  | .readManifest _ | .readUnpacked _ => Except Bytes ReadManifest
  | .version _ => Except Bytes Bytes

/-- What a call may answer on `d`, and the disk it leaves. -/
def effect : Effect (Disk γ) Call Reply
  | .readDir, d, r, d' => d' = d ∧ ∀ files, r = .ok files → ∀ f ∈ files, d.other f ≠ none
  | .exist p, d, r, d' => d' = d ∧ (r = true → d.get p ≠ none)
  | .rename a b, d, r, d' =>
    match r with
    | .ok () => d.get a ≠ none ∧ d' = (d.set b (d.get a)).set a none
    | .error _ => d' = d
  | .removeDirAll p, d, r, d' =>
    match r with
    | .ok () => d.get p ≠ none ∧ d' = d.set p none
    | .error _ => d' = d ∨ d.get p ≠ none ∧ ∃ rest, d' = d.set p (some rest)
  | .removeFile p, d, r, d' =>
    match r with
    | .ok () => d.get p ≠ none ∧ d' = d.set p none
    | .error _ => d' = d
  | .writeTmp text, d, r, d' =>
    match r with
    | .ok () => d' = { d with tmp := some text }
    | .error _ => ∃ t, d' = { d with tmp := t }
  | .moveTmp, d, r, d' =>
    match r with
    | .ok () => ∃ text, d.tmp = some text ∧ d' = { d with list := text, tmp := none }
    | .error _ => d' = d
  | .forget _, d, _, d' => Elsewhere d d'
  | .unpack _ tmp, d, _, d' => ∃ x, d' = d.set (.entry tmp) x
  | _, d, _, d' => d' = d

/-- A program over `mods/`. -/
abbrev Fs := Prog Call Reply

/-- The text of an error the program makes up itself. -/
def otherError (parts : List Bytes) : IoError := .other parts.flatten

/-! ## The programs -/

def ask (c : Call) : Fs (Reply c) := Prog.perform c

/-- A call whose result nobody looks at. -/
def ignore (c : Call) : Fs Unit := do
  let _ ← ask c
  pure ()

inductive PendingKind where
  /-- Unpacked into the entry `tmp`, with the mod's folder at `root` inside it. -/
  | archive (tmp : Bytes) (root : Place)
  | folder (path : AbsolutePath)

/-- A mod that has been read and checked but is not in the list yet. -/
structure PendingAdd where
  manifest : ReadManifest
  /-- The version of the same-name mod it would replace, or `?`. -/
  replaces : Option Bytes
  origin : Bytes
  /-- `none` once `commit` has taken it. -/
  kind : Option PendingKind

def PendingAdd.name (add : PendingAdd) : Bytes := add.manifest.val.name

/-- Dropping an add deletes its unpacked files. -/
def PendingAdd.drop (add : PendingAdd) : Fs Unit :=
  match add.kind with
  | some (.archive tmp _) => ignore (.removeDirAll (.entry tmp))
  | _ => pure ()

/-- The text with a space for each tab and line feed. -/
def oneLine (s : Bytes) : Bytes := s.map fun c => if c = 9 ∨ c = 10 then 32 else c

namespace SlotMods

variable (slot : SlotMods)

def save : Fs (Except IoError Unit) := do
  match ← ask .createDirAll with
  | .error e => pure (.error e)
  | .ok () =>
    match ← ask (.writeTmp (listText slot.mods)) with
    | .error e => pure (.error e)
    | .ok () => ask .moveTmp

/-- What deleting a leftover does. -/
def discard (entry : Bytes) : Fs Unit := do
  let dir : Bool ← ask (.isDir (.entry entry))
  if dir = true then ignore (.removeDirAll (.entry entry)) else ignore (.removeFile (.entry entry))

/-- One entry of the folder. -/
def sweepEntry (entry : Bytes) : Fs Unit := do
  let old : Bool ← ask (.old entry)
  if ¬ leftover (lossy entry) ∨ old = false then pure ()
  else
    match (replacedName (lossy entry)).filter (validName ·) with
    | none => discard entry
    | some name =>
      if (slot.get name).isSome then do
        let present : Bool ← ask (.exist (.installed name))
        if present = true then discard entry else ignore (.rename (.entry entry) (.installed name))
      else discard entry

def sweepDisk : Fs Unit := do
  match ← ask .readDir with
  | .error _ => pure ()
  | .ok entries => Prog.forEach slot.sweepEntry entries

/-- What an archive or a folder was read as: its manifest, how to add it, and its origin. -/
abbrev Found := ReadManifest × PendingKind × Bytes

/-- Read a folder used in place. -/
def readFolder (folder : Bytes) : Fs (Except IoError Found) := do
  match ← ask (.canonicalize folder) with
  | .error e => pure (.error e)
  | .ok folder =>
    let dir : Except IoError AbsolutePath ← ask .canonicalizeDir
    if dir.toOption.any fun d => Path.startsWith folder.val d.val then
      pure (.error (otherError
        [lossy folder.val,
          bytes ": this folder is inside the slot's mods folder; add the mod's archive ",
        bytes "or a copy of the folder"]))
    else
      match ← ask (.readManifest folder.val) with
      | .error e => pure (.error (.other e))
      | .ok manifest => pure (.ok (manifest, .folder folder, lossy folder.val))

/-- The mod's folder in an unpacked archive: the archive's root, or its only folder. -/
def modRoot (tmp : Bytes) : Fs (Option Place) := do
  let atRoot : Bool ← ask (.rootHasManifest tmp)
  if atRoot = true then pure (some (.entry tmp))
  else
    let only : Bool ← ask (.onlyFolderHasManifest tmp)
    pure (if only = true then some (.inside tmp) else none)

/-- Unpack `archive` into a new `.add-` folder, which is deleted again when
    it holds no valid mod. -/
def readArchive (archive : Bytes) (suffix : Suffix) :
    Fs (Except IoError (ReadManifest × PendingKind)) := do
  match ← ask .createDirAll with
  | .error e => pure (.error e)
  | .ok () =>
    let tmp := bytes ".add-" ++ suffix.bytes
    let refuse (e : IoError) : Fs (Except IoError (ReadManifest × PendingKind)) := do
      ignore (.removeDirAll (.entry tmp))
      pure (.error e)
    match ← ask (.unpack archive tmp) with
    | .error e => refuse e
    | .ok () =>
      match ← modRoot tmp with
      | none =>
        refuse (otherError [lossy archive, bytes ": the archive has no mod.toml at its root"])
      | some root =>
        match ← ask (.readUnpacked root) with
        | .error e => refuse (.other e)
        | .ok manifest => pure (.ok (manifest, .archive tmp root))

/-- The version of the mod that an add would replace. -/
def replaced (name : Bytes) : Fs (Option Bytes) :=
  match slot.get name with
  | none => pure none
  | some old => do
    let version : Except Bytes Bytes ← ask (.version old)
    pure (some (version.toOption.getD (bytes "?")))

/-- What `prepare` makes of a mod that was read. -/
def accept (manifest : ReadManifest) (kind : PendingKind) (origin : Bytes) :
    Fs (Except IoError PendingAdd) := do
  let replaces ← slot.replaced manifest.val.name
  let add : PendingAdd := ⟨manifest, replaces, oneLine origin, some kind⟩
  if add.replaces = none ∧ maxMods ≤ slot.mods.length then do
    add.drop
    pure (.error (otherError
      [bytes "a slot holds at most ", decimal maxMods, bytes " mods; remove one first"]))
  else pure (.ok add)

/-- Read the mod at `path`: an archive, a folder used in place, or the folder's `mod.toml`. -/
def prepare (path : Bytes) (origin : Option Bytes) (suffix : Suffix) :
    Fs (Except IoError PendingAdd) := do
  slot.sweepDisk
  let name := (Path.fileName path).map lossy
  let isDir : Bool ← ask (.pathIsDir path)
  let folder :=
    if isDir = true then some path
    else if name = some file then Path.parent path
    else none
  match folder with
  | some folder =>
    match ← readFolder folder with
    | .error e => pure (.error e)
    | .ok (manifest, kind, origin) => slot.accept manifest kind origin
  | none =>
    match ← readArchive path suffix with
    | .error e => pure (.error e)
    | .ok (manifest, kind) => slot.accept manifest kind ((origin.or name).getD (lossy path))

/-- A list that has been changed, written out. -/
def saved (name : Bytes) : Fs (SlotMods × Except IoError Bytes) := do
  let result ← slot.save
  pure (slot, result.map fun _ => name)

/-- What `commit` does once the files are in place. -/
def enlist (name : Bytes) (source : Source) (aside : Bytes) :
    Fs (SlotMods × Except IoError Bytes) := do
  let at? := slot.position name
  let enabled := (at?.bind fun i => slot.mods[i]?).all (·.enabled)
  ignore (.removeDirAll (.entry aside))
  if at?.isSome then ignore (.forget name)
  (slot.put ⟨name, source, enabled⟩).saved name

/-- Put an unpacked folder at `installed/<name>`. -/
def moveIn (root : Place) (name : Bytes) : Fs (Except IoError Unit) := do
  match ← ask .createDirAll with
  | .error e => pure (.error e)
  | .ok () => ask (.rename root (.installed name))

/-- Add `add` to the list: in the place of the mod of its name, which it
    replaces, or behind all others. -/
def commit (add : PendingAdd) (suffix : Suffix) : Fs (SlotMods × Except IoError Bytes) := do
  let aside := bytes ".replaced-" ++ suffix.bytes ++ 45 :: add.name
  let stepped : Except IoError Unit ← ask (.rename (.installed add.name) (.entry aside))
  match add.kind with
  | none => pure (slot, .error (otherError [bytes "this add was already committed"]))
  | some (.folder folder) => slot.enlist add.name (.folder folder.val) aside
  | some (.archive tmp root) =>
    let moved ← moveIn root add.name
    ignore (.removeDirAll (.entry tmp))
    match moved with
    | .error e => do
      if stepped.isOk then ignore (.rename (.entry aside) (.installed add.name))
      pure (slot, .error e)
    | .ok () => slot.enlist add.name (.installed add.origin) aside

/-- `prepare`, then `commit`, refusing a name already in the list. -/
def add (path : Bytes) (origin : Option Bytes) (prepared committed : Suffix) :
    Fs (SlotMods × Except IoError Bytes) := do
  match ← slot.prepare path origin prepared with
  | .error e => pure (slot, .error e)
  | .ok add =>
    if add.replaces.isSome then do
      add.drop
      pure (slot, .error (otherError [bytes "this slot already has a mod named ", add.name]))
    else slot.commit add committed

/-- Drop `name` from the list; the files of an installed mod are deleted. -/
def remove (name : Bytes) : Fs (SlotMods × Except IoError Unit) :=
  match slot.position name with
  | none => pure (slot, .ok ())
  | some i => do
    let left := slot.without i
    match ← left.save with
    | .error e => pure (left, .error e)
    | .ok () => do
      ignore (.forget name)
      match (slot.mods[i]?).map SlotMod.source with
      | some (.installed _) =>
        match ← ask (.removeDirAll (.installed name)) with
        | .error e => pure (left, if e.notFound then .ok () else .error e)
        | .ok () => pure (left, .ok ())
      | _ => pure (left, .ok ())

def setEnabled (name : Bytes) (enabled : Bool) : Fs (SlotMods × Except IoError Unit) := do
  let result ← (slot.switch name enabled).save
  pure (slot.switch name enabled, result)

/-- Move the mod at `i` to `j`. -/
def reorder (i j : Nat) : Fs (SlotMods × Except IoError Unit) := do
  let result ← (slot.move i j).save
  pure (slot.move i j, result)

end SlotMods

end CdjEmu.Mods
