/-
  FILES — what a program sees of the host's files, and the calls that change them.

  `Files` is one moment: what each reading call answers for each path, and the clock.  Nothing is
  said of how the answers hang together — a link, a file nobody may read and a folder that came and
  went are just answers — but that there are finitely many folders.  A call that changes the files
  is a function from one moment to the next, with a result (`Os`); a program is then a computation
  over moments that may fail, `Io`.

  `io_bind_eq_ok` peels such a program apart.  `unseen_lt` is the measure for a descent through
  folders that refuses to enter one twice: each folder entered leaves fewer to enter.
-/
import CdjEmu.Lib.Path

namespace CdjEmu

/-- A failed call: whether the path was not there, and the text it shows. -/
structure IoError where
  notFound : Bool
  text : Bytes
  deriving DecidableEq

/-- An error the program makes up itself. -/
def IoError.other (text : Bytes) : IoError := ⟨false, text⟩

inductive FileKind where
  | file
  | dir
  | other
  deriving DecidableEq

/-- What a path leads to; `modified` is in nanoseconds since the epoch. -/
structure Metadata where
  kind : FileKind
  mode : UInt32
  len : UInt64
  modified : Option Int

/-- The files of the host at one moment. -/
structure Files where
  readToString : Bytes → Except IoError Bytes
  read : Bytes → Except IoError Bytes
  metadata : Bytes → Except IoError Metadata
  /-- The same without following a link at the end of the path. -/
  symlinkMetadata : Bytes → Except IoError Metadata
  canonicalize : Bytes → Except IoError Bytes
  /-- The names in a folder, in the order the host gives them. -/
  readDir : Bytes → Except IoError (List (Except IoError Bytes))
  now : Int
  /-- The folders there are. -/
  dirs : List Bytes
  dirs_complete : ∀ p real names, canonicalize p = .ok real → readDir p = .ok names → real ∈ dirs

namespace Files

variable (fs : Files)

def isKind (kind : FileKind) (p : Bytes) : Bool :=
  match fs.metadata p with
  | .ok m => m.kind = kind
  | .error _ => false

def isFile (p : Bytes) : Bool := fs.isKind .file p

def isDir (p : Bytes) : Bool := fs.isKind .dir p

def exist (p : Bytes) : Bool := (fs.metadata p).isOk

/-- The folders that are none of `seen`. -/
def unseen (seen : List Bytes) : List Bytes := fs.dirs.filter fun d => ¬ seen.any fun s =>
  Path.Eqv d s

/-- A folder that is entered for the first time leaves fewer to enter. -/
theorem unseen_lt {seen : List Bytes} {real : Bytes} (hdir : real ∈ fs.dirs)
    (hnew : (seen.any fun s => Path.Eqv real s) = false) :
    (fs.unseen (real :: seen)).length < (fs.unseen seen).length := by
  have hsub : fs.unseen (real :: seen) =
      (fs.unseen seen).filter fun d => ¬ Path.Eqv d real := by
    rw [unseen, unseen, List.filter_filter]
    refine List.filter_congr fun d _ => ?_
    simp [not_or]
  have hmem : real ∈ fs.unseen seen := List.mem_filter.mpr ⟨hdir, by simpa using hnew⟩
  rw [hsub]
  exact List.length_filter_lt_length_iff_exists.mpr
    ⟨real, hmem, by simpa using Path.Eqv.refl real⟩

end Files

/-- A program over the host's files. -/
abbrev Io := EStateM IoError Files

/-- A program that only looks. -/
def look {α : Type} (f : Files → Except IoError α) : Io α := fun fs =>
  match f fs with
  | .ok a => .ok a fs
  | .error e => .error e fs

/-- The calls that change the files, and the number of this process. -/
structure Os where
  createDirAll : Bytes → Io Unit
  copy : Bytes → Bytes → Io Unit
  append : Bytes → Bytes → Io Unit
  write : Bytes → Bytes → Io Unit
  rename : Bytes → Bytes → Io Unit
  removeFile : Bytes → Io Unit
  removeDirAll : Bytes → Io Unit
  pid : Nat

/-- The files after a call whose result nobody looks at. -/
def after {α : Type} (call : Io α) (fs : Files) : Files :=
  match call fs with
  | .ok _ fs' => fs'
  | .error _ fs' => fs'

section Chain

variable {α β : Type} {fs fs' : Files}

/-- A program ends well exactly when each of its steps does. -/
theorem io_bind_eq_ok {x : Io α} {f : α → Io β} {b : β} :
    (x >>= f) fs = .ok b fs' ↔ ∃ a mid, x fs = .ok a mid ∧ f a mid = .ok b fs' := by
  show EStateM.bind x f fs = _ ↔ _
  unfold EStateM.bind
  cases hx : x fs with
  | ok a mid =>
    constructor
    · intro h
      exact ⟨a, mid, rfl, h⟩
    · rintro ⟨a', mid', h, h'⟩
      cases h
      exact h'
  | error e mid =>
    constructor
    · intro h
      cases h
    · rintro ⟨a', mid', h, -⟩
      cases h

theorem look_eq_ok {f : Files → Except IoError α} {a : α} :
    look f fs = .ok a fs' ↔ f fs = .ok a ∧ fs' = fs := by
  unfold look
  cases f fs with
  | ok a' =>
    constructor
    · intro h
      cases h
      exact ⟨rfl, rfl⟩
    · rintro ⟨h, rfl⟩
      cases h
      rfl
  | error e =>
    constructor
    · intro h
      cases h
    · rintro ⟨h, -⟩
      cases h

end Chain

end CdjEmu
