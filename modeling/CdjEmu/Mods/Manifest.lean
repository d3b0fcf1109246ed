/-
  A MOD'S DECLARATION — `mod.toml`, and the firmware it says the mod runs on.

  A folder is a mod when `read` accepts it: its `mod.toml` is there and is text, the `toml` crate
  reads it as a table, every field passes its check and every `preload` library is a file of the
  folder.  A refusal is a text, as the source words it.  `check_dir` is the one answer the boot asks
  for: whether the mod runs on this model and release, and if not why.

  Texts are their octets.  The `toml` crate is a parameter, a table being the list of its entries in
  the order the map is walked; so is `{:?}`, whose escapes follow a table of the standard library.
-/
import CdjEmu.Lib.Digits
import CdjEmu.Lib.Files
import CdjEmu.Lib.Split
import CdjEmu.Runtime.QemuArgs

namespace CdjEmu

open Text

/-- The players a range can be for. -/
def Qemu.Model.all : List Qemu.Model := [.cdj3k, .cdj3kx, .cdj1500x]

/-- Stable identifier for directory names and settings. -/
def Qemu.Model.slug : Qemu.Model → Bytes
  | .cdj3k => bytes "cdj3k"
  | .cdj3kx => bytes "cdj3kx"
  | .cdj1500x => bytes "cdj1500x"

namespace Mods

open Qemu (Model)

/-! ## TOML -/

/-- A TOML value; numbers, booleans and dates are `other`, which nothing here looks into. -/
inductive Value where
  | string (s : Bytes)
  | array (items : List Value)
  | table (entries : List (Bytes × Value))
  | other

/-- A TOML table, in the order of the file. -/
abbrev Table := List (Bytes × Value)

/-- The first value under a key. -/
def Table.get (t : Table) (key : Bytes) : Option Value := (t.find? (·.1 = key)).map (·.2)

def Value.asStr : Value → Option Bytes
  | .string s => some s
  | _ => none

def Value.asArray : Value → Option (List Value)
  | .array items => some items
  | _ => none

def Value.asTable : Value → Option Table
  | .table entries => some entries
  | _ => none

/-- What the mods code takes from other crates and from the standard library's tables. -/
structure Crates where
  /-- A text read as a TOML table, or the error as it is shown. -/
  toml : Bytes → Except Bytes Table
  /-- `{:?}` of a text. -/
  debug : Bytes → Bytes
  gzip : Bytes → Bytes
  sha256 : Bytes → Bytes

/-! ## Characters -/

/-- A character of `cs` stands somewhere in the text. -/
def containsAny (cs : List Bytes) : Bytes → Bool
  | [] => false
  | c :: s => cs.any (·.isPrefixOf (c :: s)) || containsAny cs s

/-- The control characters, encoded. -/
def control : List Bytes :=
  (List.range 32).map (fun n => [UInt8.ofNat n]) ++ [[0x7F]] ++
    (List.range 32).map fun n => [0xC2, UInt8.ofNat (0x80 + n)]

def isLowercase (c : UInt8) : Bool := 97 ≤ c ∧ c ≤ 122

def isUppercase (c : UInt8) : Bool := 65 ≤ c ∧ c ≤ 90

/-- The texts between the occurrences of `c`. -/
def split (c : UInt8) (s : Bytes) : List Bytes := s.splitOn c

/-- `strip_prefix`. -/
def stripPre (p s : Bytes) : Option Bytes := if p.isPrefixOf s then some (s.drop p.length) else none

/-! ## Compatibility -/

/-- The `[compat]` table: (slug, range). -/
structure Declared where
  ranges : List (Bytes × Bytes)

/-- Whether a mod runs on a slot. -/
inductive Compat where
  | unchecked
  | compatible
  | incompatible (wanted : Option Bytes) (models : List Bytes)
  | invalid (reason : Bytes)
  deriving DecidableEq

/-- Whether a mod may run. -/
def Compat.runs : Compat → Bool
  | .unchecked | .compatible => true
  | .incompatible .. | .invalid _ => false

/-- The comparisons in a range. -/
inductive Op where
  | ge
  | le
  | gt
  | lt
  | eq
  deriving DecidableEq

/-- A `u32` in decimal, after an optional `+`. -/
def parseU32 (s : Bytes) : Option Nat := parseUnsigned (2 ^ 32) s

/-- A release: numbers with dots between them. -/
def parseRelease (s : Bytes) : Option (List Nat) :=
  if s = [] then none else (split 46 s).mapM parseU32

/-- Compare two releases number by number; a missing number counts as 0. -/
def compare (a b : List Nat) : Ordering :=
  (((List.range (max a.length b.length)).map fun i => Ord.compare (a.getD i 0) (b.getD i 0)).find?
    (· ≠ .eq)).getD .eq

/-- A range is met by the releases that meet every clause. -/
structure Range where
  clauses : List (Op × List Nat)

/-- The comparisons as they are written, the longer ones first. -/
def ops : List (Bytes × Op) :=
  [(bytes ">=", .ge), (bytes "<=", .le), (bytes "==", .eq), (bytes ">", .gt), (bytes "<", .lt),
    (bytes "=", .eq)]

/-- A clause; without a comparison it is an equality. -/
def parseClause (k : Crates) (clause : Bytes) : Except Bytes (Op × List Nat) :=
  let clause := trim clause
  let (op, rest) :=
    (ops.findSome? fun (p, op) => (stripPre p clause).map fun rest => (op, rest)).getD (.eq, clause)
  match parseRelease (trim rest) with
  | some version => .ok (op, version)
  | none => .error (k.debug clause ++ bytes " is not a range")

/-- `Range::parse`. -/
def Range.parse (k : Crates) (s : Bytes) : Except Bytes Range :=
  let s := trim s
  if s = bytes "*" then .ok ⟨[]⟩ else do
    let clauses ← (split 44 s).mapM (parseClause k)
    .ok ⟨clauses⟩

/-- Whether a comparison holds of an order. -/
def Op.holds : Op → Ordering → Bool
  | .ge, ord => ord ≠ .lt
  | .le, ord => ord ≠ .gt
  | .gt, ord => ord = .gt
  | .lt, ord => ord = .lt
  | .eq, ord => ord = .eq

/-- `contains`; a release that cannot be read is not refused. -/
def Range.contains (r : Range) (release : Bytes) : Bool :=
  match parseRelease release with
  | none => true
  | some release => r.clauses.all fun (op, v) => op.holds (compare release v)

/-- One entry of the `[compat]` table. -/
def Declared.parseEntry (k : Crates) : Bytes × Value → Except Bytes (Bytes × Bytes)
  | (slug, range) =>
    match range.asStr with
    | none => .error (bytes "compat." ++ slug ++ bytes " is not a string")
    | some range =>
      if ¬ Model.all.any (·.slug = slug) then
        .error (bytes "compat." ++ slug ++ bytes ": " ++ slug ++
          bytes " is not a model; use one of " ++
          (bytes ", ").intercalate (Model.all.map Model.slug))
      else match Range.parse k range with
        | .error e => .error (bytes "compat." ++ slug ++ bytes ": " ++ e)
        | .ok _ => .ok (slug, range)

/-- Parse the `[compat]` table. -/
def Declared.parse (k : Crates) (compat : Value) : Except Bytes Declared :=
  match compat.asTable with
  | none => .error (bytes "`compat` is not a table")
  | some compat => do
    let out ← compat.mapM (Declared.parseEntry k)
    .ok ⟨out⟩

/-- `check`: a mod without ranges is not looked at. -/
def Declared.check (k : Crates) (d : Declared) (model : Model) (release : Option Bytes) : Compat :=
  if d.ranges = [] then .unchecked
  else
    let wanted := (d.ranges.find? (·.1 = model.slug)).map (·.2)
    let fits : Bool := match wanted, release with
      | none, _ => false
      | some _, none => true
      | some range, some release =>
        match Range.parse k range with
        | .ok r => r.contains release
        | .error _ => false
    if fits then .compatible else .incompatible wanted (d.ranges.map (·.1))

/-! ## The manifest -/

/-- The name of the manifest. -/
def file : Bytes := bytes "mod.toml"

/-- What a manifest says. -/
structure Manifest where
  name : Bytes
  version : Bytes
  author : Option Bytes
  description : Option Bytes
  url : Option Bytes
  preload : List Bytes
  env : List (Bytes × Bytes)
  compat : Declared

/-- The names Windows keeps for devices, whatever the extension. -/
def devices : List Bytes :=
  ["con", "prn", "aux", "nul", "com1", "com2", "com3", "com4", "com5", "com6", "com7",
    "com8", "com9", "lpt1", "lpt2", "lpt3", "lpt4", "lpt5", "lpt6", "lpt7", "lpt8", "lpt9"].map
      bytes

/-- Whether `name` is a valid mod name. -/
def validName (name : Bytes) : Bool :=
  name.length ≤ 48
    && name.head?.any (fun c => isLowercase c || isDigit c)
    && name.all (fun c => isLowercase c || isDigit c || c = 46 || c = 95 || c = 45)
    && name.getLast? ≠ some 46
    && name.takeWhile (· ≠ 46) ∉ devices

/-- Whether `value` reaches the app unchanged through the guest's `EnvironmentFile=`. -/
def validEnvValue (value : Bytes) : Bool :=
  !containsAny ([[92], [34], [39]] ++ control) value && trim value = value

/-- Whether `lib` can go into `LD_PRELOAD` unchanged. -/
def validPreload (lib : Bytes) : Bool :=
  !containsAny ([[58], [92], [34], [39]] ++ whitespace ++ control) lib

/-- The name of an environment variable. -/
def validEnvKey (key : Bytes) : Bool :=
  key.head?.any (fun c => isLowercase c || isUppercase c || c = 95)
    && key.all fun c => isLowercase c || isUppercase c || isDigit c || c = 95

/-- `mod.<key>`, which must be a string when present. -/
def string (m : Table) (key : Bytes) : Except Bytes (Option Bytes) :=
  match m.get key with
  | none => .ok none
  | some v =>
    match v.asStr with
    | some s => .ok (some s)
    | none => .error (bytes "mod." ++ key ++ bytes " is not a string")

/-- A key that has to be there. -/
def required (m : Table) (key : Bytes) : Except Bytes Bytes := do
  match ← string m key with
  | some s => .ok s
  | none => .error (bytes "mod." ++ key ++ bytes " is missing")

/-- A library to be loaded; its path stays inside the mod. -/
def parsePreloadItem (k : Crates) (item : Value) : Except Bytes Bytes :=
  match item.asStr with
  | none => .error (bytes "mod.preload contains a non-string")
  | some lib =>
    let inside := lib ≠ [] ∧ lib.head? ≠ some 47 ∧ [46, 46] ∉ split 47 lib
    if ¬ inside then
      .error (bytes "mod.preload " ++ k.debug lib ++ bytes ": must be a path inside the mod")
    else if ¬ validPreload lib then
      .error (bytes "mod.preload " ++ k.debug lib ++
        bytes ": must not contain ':', spaces, quotes or backslashes")
    else .ok lib

/-- `mod.preload`: a list of paths inside the mod that `LD_PRELOAD` can carry. -/
def parsePreload (k : Crates) (v : Value) : Except Bytes (List Bytes) :=
  match v.asArray with
  | none => .error (bytes "mod.preload is not a list")
  | some list => list.mapM (parsePreloadItem k)

/-- A variable with its value. -/
def parseEnvEntry : Bytes × Value → Except Bytes (Bytes × Bytes)
  | (key, value) =>
    match value.asStr with
    | none => .error (bytes "mod.env." ++ key ++ bytes " is not a string")
    | some value =>
      if ¬ validEnvKey key then
        .error (bytes "mod.env." ++ key ++ bytes ": the key is not a valid variable name")
      else if key = bytes "LD_PRELOAD" then .error (bytes "mod.env.LD_PRELOAD: use mod.preload")
      else if ¬ validEnvValue value then
        .error (bytes "mod.env." ++ key ++
          bytes ": the value contains a quote, a backslash or a control " ++
          bytes "character, or starts or ends with a space")
      else .ok (key, value)

/-- `mod.env`: a table of variables whose values reach the app unchanged. -/
def parseEnv (v : Value) : Except Bytes (List (Bytes × Bytes)) :=
  match v.asTable with
  | none => .error (bytes "mod.env is not a table")
  | some vars => vars.mapM parseEnvEntry

/-- The mod's name, which has its own alphabet. -/
def parseName (k : Crates) (m : Table) : Except Bytes Bytes := do
  let name ← required m (bytes "name")
  if ¬ validName name then
    .error (bytes "mod.name " ++ k.debug name ++
      bytes ": a name may contain only lowercase letters, " ++
      bytes "digits, '.', '_' and '-', and must start with a letter or digit")
  else .ok name

/-- The mod's version, without blanks. -/
def parseVersion (k : Crates) (m : Table) : Except Bytes Bytes := do
  let version ← required m (bytes "version")
  if version = [] ∨ containsAny whitespace version then
    .error (bytes "mod.version " ++ k.debug version ++ bytes ": must be one word")
  else .ok version

/-- The manifest of a TOML text. -/
def parseTables (k : Crates) (text : Bytes) : Except Bytes Manifest := do
  let table ← k.toml text
  match (table.get (bytes "mod")).bind Value.asTable with
  | none => .error (bytes "the [mod] table is missing")
  | some m => do
    let name ← parseName k m
    let version ← parseVersion k m
    let author ← string m (bytes "author")
    let description ← string m (bytes "description")
    let url ← string m (bytes "url")
    let preload ← ((m.get (bytes "preload")).map (parsePreload k)).getD (.ok [])
    let env ← ((m.get (bytes "env")).map parseEnv).getD (.ok [])
    let compat ← ((table.get (bytes "compat")).map (Declared.parse k)).getD (.ok ⟨[]⟩)
    .ok
      { name
        version
        author := author.filter (trim · ≠ [])
        description
        url := (url.map trim).filter (· ≠ [])
        preload
        env
        compat }

/-- Parse a `mod.toml`; each error starts with `mod.toml: `. -/
def parse (k : Crates) (text : Bytes) : Except Bytes Manifest :=
  (parseTables k text).mapError fun m => file ++ bytes ": " ++ m

/-- Read the `mod.toml` of the mod in `dir`, and check that its `preload`
    files exist in the folder. -/
def read (k : Crates) (fs : Files) (dir : Bytes) : Except Bytes Manifest :=
  match fs.readToString (Path.join dir file) with
  | .error e =>
    .error (if e.notFound then file ++ bytes " is missing" else file ++ bytes ": " ++ e.text)
  | .ok text => do
    let manifest ← parse k text
    match manifest.preload.find? fun lib => ¬ fs.isFile (Path.join dir lib) with
    | some lib => .error (file ++ bytes ": preload " ++ lib ++ bytes ": no such file in the mod")
    | none => .ok manifest

/-- Whether the mod in `dir` runs on the slot; one whose `mod.toml` is missing
    or invalid never does. -/
def checkDir (k : Crates) (fs : Files) (dir : Bytes) (model : Model) (release : Option Bytes) :
    Compat :=
  match read k fs dir with
  | .ok m => m.compat.check k model release
  | .error e => .invalid e

end Mods

end CdjEmu
