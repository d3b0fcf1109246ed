/-
  PACKING A BOOT — a mod's folder as archive entries, and the archives behind the initramfs.

  `walk` descends through a folder, following links, and refuses a folder that lies below itself.
  It is written with a bound on the depth; a folder entered is one folder less to enter, so a bound
  of one more than the folders there are is never reached (`walk_fuel`) and `walk_dir` is the
  source's function.

  `pack` keeps the mods whose folder could be read and gives a reason for each of the others
  (`pack_failed`); `overlay` and `devd_overlay` are the archives made of them, and `cached_combined`
  the file they end up in.  gzip and SHA-256 are parameters, and so is every call that changes the
  files.
-/
import CdjEmu.Firmware.Cpio
import CdjEmu.Lib.Except
import CdjEmu.Mods.List

namespace CdjEmu.Mods

open Text
open Cpio (Entry)
open Qemu (Model)

/-! ## Entries -/

/-- An entry of root's, with a fixed time. -/
def entry (path : Bytes) (kind : Cpio.Kind) (mode : UInt32) : Entry where
  path
  kind
  mode := mode &&& 0o7777
  uid := 0
  gid := 0
  mtime := 0

def entryFile (path data : Bytes) (mode : UInt32) : Entry := entry path (.file data) mode

def entryDir (path : Bytes) (mode : UInt32) : Entry := entry path .dir mode

def entrySymlink (path : Bytes) (target : Str) : Entry := entry path (.symlink target) 0o777

/-! ## A folder -/

/-- A path and what went wrong there. -/
def errorAt (path text : Bytes) : IoError := .other (lossy path ++ text)

/-- The files under `dir` at the path `guest`, following links and skipping `.git`, at most `fuel`
    folders deep; `seen` holds the folders above `dir`. -/
def walk (fs : Files) : Nat → Bytes → Bytes → List Bytes → Except IoError (List Entry)
  | 0, dir, _, _ => .error (errorAt dir [])
  | fuel + 1, dir, guest, seen => do
    let real ← fs.canonicalize dir
    if seen.any fun s => Path.Eqv real s then
      .error (errorAt dir (bytes ": a symlink loops back to a folder above it"))
    else do
      let children ← (← fs.readDir dir).mapM id
      let entries ← ((children.insertionSort (· ≤ ·)).filter (· ≠ bytes ".git")).mapM fun name => do
        let path := Path.join dir name
        let target := Path.join guest name
        match fs.metadata path with
        | .error e => .error (errorAt path (bytes ": " ++ e.text))
        | .ok found =>
          let mode := found.mode &&& 0o7777
          match found.kind with
          | .dir => do
            let below ← walk fs fuel path target (real :: seen)
            .ok (entryDir target mode :: below)
          | .file =>
            match fs.read path with
            | .error e => .error (errorAt path (bytes ": " ++ e.text))
            | .ok data => .ok [entryFile target data mode]
          | .other => .error (errorAt path (bytes " is not a file or a folder"))
      .ok entries.flatten

/-- The files of the folder `dir`. -/
def walkDir (fs : Files) (dir : Bytes) : Except IoError (List Entry) :=
  walk fs (fs.dirs.length + 1) dir [] []

/-- A bound of more folders than are left to enter is as good as the next one. -/
theorem walk_succ (fs : Files) {fuel : Nat} {seen : List Bytes}
    (h : (fs.unseen seen).length < fuel) (dir guest : Bytes) :
    walk fs fuel dir guest seen = walk fs (fuel + 1) dir guest seen := by
  induction fuel generalizing dir guest seen with
  | zero => omega
  | succ fuel ih =>
    rw [walk, walk]
    cases hreal : fs.canonicalize dir with
    | error e => rfl
    | ok real =>
      show (if _ then _ else _) = (if _ then _ else _)
      by_cases hloop : (seen.any fun s => Path.Eqv real s) = true
      · rw [if_pos hloop, if_pos hloop]
      · rw [if_neg hloop, if_neg hloop]
        cases hlist : fs.readDir dir with
        | error e => rfl
        | ok names =>
          -- Below `dir` there is one folder less to enter.
          have hless := fs.unseen_lt (fs.dirs_complete dir real names hreal hlist)
            (Bool.eq_false_iff.mpr hloop)
          have hbelow : ∀ path target,
              walk fs fuel path target (real :: seen) = walk fs (fuel + 1) path target
                (real :: seen) :=
            fun path target => ih (by omega) path target
          simp only [hbelow]

/-- The bound on the depth is never reached. -/
theorem walk_fuel (fs : Files) (dir : Bytes) (n : Nat) :
    walk fs (fs.dirs.length + 1 + n) dir [] [] = walkDir fs dir := by
  have hall : (fs.unseen []).length ≤ fs.dirs.length := List.length_filter_le ..
  induction n with
  | zero => rfl
  | succ n ih =>
    have hmore : (fs.unseen []).length < fs.dirs.length + 1 + n := by omega
    rw [← ih]
    exact (walk_succ fs hmore dir []).symm

/-! ## Mods -/

/-- A mod of a boot: its name and its folder. -/
abbrev Mod := Bytes × Bytes

/-- A mod's files and what its `mod.toml` passes to the app. -/
structure Packed where
  name : Bytes
  files : List Entry
  declared : Manifest

/-- Read a mod's folder. -/
def packOne (k : Crates) (fs : Files) (m : Mod) : Except Bytes Packed := do
  let declared ← read k fs m.2
  let files ← (walkDir fs m.2).mapError IoError.text
  .ok ⟨m.1, files, declared⟩

/-- Whether a mod's folder can be read. -/
def packs (k : Crates) (fs : Files) (m : Mod) : Bool := (packOne k fs m).isOk

/-- Read each mod's folder: the mods read, and the others with the reason. -/
def pack (k : Crates) (fs : Files) : List Mod → List Packed × List (Bytes × Compat)
  | [] => ([], [])
  | m :: ms =>
    match packOne k fs m with
    | .ok p => (p :: (pack k fs ms).1, (pack k fs ms).2)
    | .error e => ((pack k fs ms).1, (m.1, .invalid e) :: (pack k fs ms).2)

/-- The others are named among the failures. -/
theorem pack_failed (k : Crates) (fs : Files) (ms : List Mod) :
    (pack k fs ms).2.map (·.1) = (ms.filter fun m => !packs k fs m).map (·.1) := by
  induction ms with
  | nil => rfl
  | cons m ms ih =>
    rw [pack, List.filter_cons, packs]
    cases h : packOne k fs m with
    | ok p => exact ih
    | error e =>
      show m.1 :: _ = m.1 :: _
      rw [ih]

/-- Of mods with different names, those no failure names are those whose folder could be read. -/
theorem filter_not_failed (k : Crates) (fs : Files) {ms : List Mod} (hnd : (ms.map (·.1)).Nodup) :
    (ms.filter fun m => ¬ (pack k fs ms).2.any (·.1 = m.1)) = ms.filter (packs k fs) := by
  refine List.filter_congr fun m hm => ?_
  have hfail : ((pack k fs ms).2.any (·.1 = m.1)) = true ↔ packs k fs m = false := by
    rw [List.any_eq_true]
    constructor
    · rintro ⟨f, hf, hname⟩
      have hmem : f.1 ∈ (ms.filter fun m => !packs k fs m).map (·.1) :=
        pack_failed k fs ms ▸ List.mem_map_of_mem hf
      obtain ⟨m', hm', hname'⟩ := List.mem_map.mp hmem
      obtain ⟨hm', hbad⟩ := List.mem_filter.mp hm'
      have hsame : m' = m :=
        List.inj_on_of_nodup_map hnd hm' hm (hname'.trans (by simpa using hname))
      simpa [hsame] using hbad
    · intro hbad
      have hmem : m.1 ∈ (pack k fs ms).2.map (·.1) := by
        rw [pack_failed]
        exact List.mem_map_of_mem (List.mem_filter.mpr ⟨hm, by simpa using hbad⟩)
      obtain ⟨f, hf, hname⟩ := List.mem_map.mp hmem
      exact ⟨f, hf, by simpa using hname⟩
  cases hp : packs k fs m with
  | true =>
    have : ¬ ((pack k fs ms).2.any (·.1 = m.1)) = true := fun h => by simp [hfail.mp h] at hp
    simp [this]
  | false => simp [hfail.mpr hp]

/-! ## Archives -/

def guestDir : Bytes := bytes "/opt/cdj3k-mods"

/-- `n` in decimal, with two digits at least. -/
def twoDigits (n : Nat) : Bytes := (if n < 10 then bytes "0" else []) ++ decimal n

/-- What the guest finds of the mod number `i`. -/
def overlayMod (i : Nat) (m : Packed) : List Entry :=
  let guest := guestDir ++ bytes "/" ++ twoDigits (i + 1) ++ bytes "-" ++ m.name
  let preload := m.declared.preload.flatMap fun lib =>
    bytes "preload " ++ guest ++ bytes "/" ++ lib ++ bytes "\n"
  let env := m.declared.env.flatMap fun (key, value) =>
    bytes "env " ++ key ++ bytes "=" ++ value ++ bytes "\n"
  [entryDir guest 0o755] ++
    m.files.map (fun f => { f with path := Path.join guest f.path }) ++
    [entryFile (guest ++ bytes ".mod") (preload ++ env) 0o644]

/-- The gzipped archive holding `mods` and the manifest. -/
def overlay (k : Crates) (mods : List Packed) (model : Model) (release : Option Bytes) : Bytes :=
  let manifest := bytes "deck_model=" ++ model.slug ++ bytes "\nfw_version=" ++ release.getD [] ++
    bytes "\n"
  k.gzip (Cpio.write
    ([entryDir guestDir 0o755, entryFile (guestDir ++ bytes "/manifest") manifest 0o644] ++
      (mods.mapIdx overlayMod).flatten))

def devdGuest : Bytes := bytes "/usr/sbin/cdj3k-devd"

def devdUnit : Str := ⟨bytes "/etc/systemd/system/cdj3k-devd.service", by decide⟩

def devdWants : Bytes := bytes "/etc/systemd/system/multi-user.target.wants/cdj3k-devd.service"

def devdService : Bytes :=
  bytes "[Unit]\nDescription=cdj3k Developer Mode daemon (cdj3k.dev virtio-serial port)\n" ++
    bytes "StartLimitIntervalSec=0\n\n[Service]\nType=simple\nExecStart=/usr/sbin/cdj3k-devd\n" ++
    bytes "Restart=always\nRestartSec=2s\n\n[Install]\nWantedBy=multi-user.target\n"

/-- The gzipped archive that installs the host file `binary` and enables its service. -/
def devdOverlay (k : Crates) (binary : Bytes) (fs : Files) : Except IoError Bytes :=
  match fs.read binary with
  | .error e => .error ⟨e.notFound, lossy binary ++ bytes ": " ++ e.text⟩
  | .ok data => .ok (k.gzip (Cpio.write
      [entryFile devdGuest data 0o755, entryFile devdUnit.bytes devdService 0o644,
        entrySymlink devdWants devdUnit]))

/-! ## The combined file -/

def cache : Bytes := bytes "boot-initramfs.cpio.gz"

def cacheKey : Bytes := bytes "boot-initramfs.key"

/-- `v` in `n` octets, the lowest first. -/
def leBytes (n v : Nat) : Bytes := (List.range n).map fun i => UInt8.ofNat (v / 256 ^ i)

/-- Delete a file that may not be there. -/
def removeIfThere (os : Os) (path : Bytes) : Io Unit := fun fs =>
  match os.removeFile path fs with
  | .ok _ fs' => .ok () fs'
  | .error e fs' => if e.notFound then .ok () fs' else .error e fs'

/-- What the combined file is made of, hashed. -/
def combinedKey (k : Crates) (base : Bytes) (found : Metadata) (overlay : Bytes) : Bytes :=
  let time := (found.modified.filter (0 ≤ ·)).map fun t => leBytes 16 t.toNat
  (k.sha256 (lossy base ++ leBytes 8 found.len.toNat ++ time.getD [] ++ overlay)).flatMap hexByte

/-- A file in `dir` holding `base` followed by `overlay`, reused while both are unchanged. -/
def cachedCombined (k : Crates) (os : Os) (dir base overlay : Bytes) : Io Bytes := do
  os.createDirAll dir
  let found ← look (·.metadata base)
  let key := combinedKey k base found overlay
  let out := Path.join dir cache
  let keyPath := Path.join dir cacheKey
  let fs ← get
  if fs.isFile out ∧ (fs.readToString keyPath).toOption = some key then
    pure out
  else do
    let tmp := Path.join dir (cache ++ bytes "." ++ decimal os.pid ++ bytes ".tmp")
    os.copy base tmp
    os.append tmp overlay
    removeIfThere os keyPath
    os.rename tmp out
    os.write keyPath key
    pure out

end CdjEmu.Mods
