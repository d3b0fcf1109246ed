/-
  WINDOWS REQUESTS — what the app asks of its elevated copy, and what that copy reads.

  `WindowsBridge::setup` writes a request as one command line in quotes.  `cmd.exe /C` takes the
  outer quotes off and puts values in for variables, the new process splits the line into arguments,
  and `Request::parse` reads them.  The sender tests the slot's directory with `is_cmd_safe_path`,
  and the receiver tests the path of the INF file as well.  Nobody tests the path of the program.

  1. `parse_args` — an accepted request is read back from its own arguments.
  2. `quotable_args` — quotes keep each argument of a request of `setup` together, and no percent
     sign is in them.
  3. `received_of`, `of_received` — the request arrives exactly when the program's path is a text in
     which nothing is replaced and the receiver takes the INF file.  A program's path in which a
     value with a quote was put never does: the arguments behind it fall apart (`argv_broken`).

  The splitting of a line and the replacing of variables are in `Lib/CommandLine`, the decoding of
  16-bit units in `Lib/Utf16`; both follow what the system documents.  A path is its units and need
  not be a text, so that `display` may show another path than the one it was given:  `isCmdSafePath`
  refuses those.  Which characters are letters is a parameter, of which only ASCII is known.
-/
import CdjEmu.Lib.CommandLine
import CdjEmu.Lib.Split
import CdjEmu.Lib.Utf16
import CdjEmu.Storage.SlotSettings

namespace CdjEmu.Net.Elevated

open Chars CommandLine
open Settings (isValidMac isHexDigit ascii_of_isHexDigit isWhitespace_of_isHexDigit)

/-! ## The program -/

/-- A path on Windows: 16-bit units, which need not be a text. -/
abbrev WidePath := List UInt16

/-- `Path::display`. -/
def display (p : WidePath) : Chars := Utf16.decodeLossy p

/-- `char::is_alphanumeric`: letters and numbers of every script. -/
structure Alphanumeric where
  is : Char → Bool
  ascii : ∀ c : Char, c.toNat < 0x80 → is c = c.isAlphanum

/-- What a path between quotes must not hold for `cmd.exe`. -/
def special : Chars := quote :: chars "%&|<>^\n\r"

/-- A path that survives `cmd.exe /C` inside double quotes. -/
def isCmdSafePath (p : WidePath) : Bool := (Utf16.decode p).any fun s => s ≠ [] && !s.any fun c =>
  c ∈ special

/-- A connection name safe to write into a batch file and to hand to `netsh`. -/
def isValidAdapterName (A : Alphanumeric) (name : Chars) : Bool :=
  name ≠ [] && name.length ≤ 64 && name = trim name && name.all fun c => A.is c || c ∈ chars " ._-"

/-- A claim: the app's pid and a timestamp. -/
def isClaim (s : Chars) : Bool :=
  (splitOnce '-' s).any fun p => [p.1, p.2].all fun part =>
    part ≠ [] && utf8Len part ≤ 20 && part.all Char.isDigit

/-- The name of an instance's TAP adapter. -/
def tapName (instanceId : UInt32) : Chars := chars "cdj3k-emu-" ++ ofNat instanceId.toNat

/-- The first argument of the elevated copy. -/
def helperFlag : Chars := chars "--windows-net-helper"

/-- What the elevated copies of the app are asked to do. -/
structure Request where
  dir : WidePath
  tap : Chars
  nic : Chars
  /-- The tap driver's INF, when the adapter has to be made. -/
  inf : Option WidePath
  pid : UInt32
  claim : Chars
  mac : Chars
  deriving DecidableEq

namespace Request

/-- The arguments behind it. -/
def args (r : Request) : List Chars :=
  [display r.dir, r.tap, r.nic, (r.inf.map display).getD (chars "-"), ofNat r.pid.toNat,
    r.claim, r.mac]

/-- The command line that runs `exe` with `flag` and the request's arguments. -/
def command (r : Request) (exe : WidePath) (flag : Chars) : Chars :=
  quote :: display exe ++ [quote, ' '] ++ flag ++ [' '] ++ [' '].intercalate
    (r.args.map fun a => quote :: a ++ [quote])

/-- The command line for `cmd.exe /C`. -/
def cmdline (r : Request) (exe : WidePath) : Chars := quote :: r.command exe helperFlag ++ [quote]

/-- The path of the INF file in its argument. -/
def readInf (inf : Chars) : Option WidePath :=
  if inf = chars "-" then none else some (Utf16.encode inf)

/-- `Request::parse`. -/
def parse (A : Alphanumeric) : List Chars → Option Request
  | [dir, tap, nic, inf, pid, claim, mac] =>
    let dir := Utf16.encode dir
    let inf := readInf inf
    let ok := isCmdSafePath dir && inf.all isCmdSafePath && isValidAdapterName A tap &&
        isValidAdapterName A nic &&
      isClaim claim && isValidMac mac
    if ok then (parseUnsigned (2 ^ 32) pid).map fun pid =>
      ⟨dir, tap, nic, inf, UInt32.ofNat pid, claim, mac⟩ else none
  | _ => none

end Request

/-- What `setup` finds on the host. -/
structure Host where
  /-- `enumerate_interfaces`. -/
  interfaces : List Chars
  interfaceExists : Chars → Bool
  /-- The slot's directory, in the runtime directory. -/
  instanceDir : UInt32 → WidePath
  inRuntimeDir :
    ∀ id, ∃ root, instanceDir id = root ++ Utf16.encode (chars "instance-" ++ ofNat id.toNat)
  /-- `TAP_INF` in the resources directory. -/
  inf : WidePath
  inResources : ∃ root, inf = root ++ Utf16.encode (chars "OemVista.inf")
  infIsFile : Bool
  pid : UInt32
  /-- Of the lease that is taken. -/
  claim : Chars
  isClaim : isClaim claim = true

/-- The request that `WindowsBridge::setup` makes; `none` when it stops before. -/
def setup (A : Alphanumeric) (host : Host) (iface mac : Chars) (instanceId : UInt32) :
    Option Request :=
  if !isValidAdapterName A iface then none
  else if !isValidMac mac then none
  else if !host.interfaces.contains iface then none
  else
    let tap := tapName instanceId
    let dir := host.instanceDir instanceId
    if !host.interfaceExists tap && !host.infIsFile then none
    else if !isCmdSafePath dir then none
    else some ⟨dir, tap, iface, if host.infIsFile then some host.inf else none, host.pid,
      host.claim, mac⟩

/-- What `cmd.exe /C` runs: the line without the outer quotes, with the variables' values. -/
def cmdExe (env : Chars → Option Chars) (line : Chars) : Chars := expand env line.tail.dropLast

/-- The program that runs is `exe`, and it reads this request behind the flag. -/
def Received (A : Alphanumeric) (env : Chars → Option Chars) (exe : WidePath) (r : Request) :
    Prop :=
  ∃ program args, commandLineToArgv (cmdExe env (r.cmdline exe)) = program :: helperFlag :: args ∧
    Utf16.encode program = exe ∧ Request.parse A args = some r

section

variable {A : Alphanumeric} {args : List Chars} {r : Request} {p : WidePath}

/-! ## Paths -/

/-- A path that passes is a text without what `cmd.exe` takes for its own. -/
theorem isCmdSafePath_iff :
    isCmdSafePath p = true ↔ ∃ s, Utf16.decode p = some s ∧ s ≠ [] ∧ ∀ c ∈ s, c ∉ special := by
  rcases hd : Utf16.decode p with _ | s
  · simp [isCmdSafePath, hd]
  · simp [isCmdSafePath, hd]

/-- A safe path is shown as it is. -/
theorem encode_display (h : isCmdSafePath p = true) : Utf16.encode (display p) = p := by
  obtain ⟨s, hs, -⟩ := isCmdSafePath_iff.mp h
  rw [display, Utf16.decodeLossy_of_decode hs, Utf16.encode_decode hs]

theorem display_encode (s : Chars) : display (Utf16.encode s) = s := Utf16.decodeLossy_encode s

/-! ## What is accepted -/

/-- What `parse` tests. -/
structure Accepted (A : Alphanumeric) (r : Request) : Prop where
  dir : isCmdSafePath r.dir = true
  inf : r.inf.all isCmdSafePath = true
  tap : isValidAdapterName A r.tap = true
  nic : isValidAdapterName A r.nic = true
  claim : isClaim r.claim = true
  mac : isValidMac r.mac = true

/-- An accepted request is in its arguments. -/
theorem parse_eq_some (h : Request.parse A args = some r) : ∃ dir inf pid,
    args = [dir, r.tap, r.nic, inf, pid, r.claim, r.mac] ∧ Request.readInf inf = r.inf ∧
    Accepted A r := by
  unfold Request.parse at h
  split at h
  · rename_i dir tap nic inf pid claim mac
    dsimp only at h
    split at h
    · rename_i hok
      obtain ⟨n, -, rfl⟩ := Option.map_eq_some_iff.mp h
      simp only [Bool.and_eq_true] at hok
      obtain ⟨⟨⟨⟨⟨hdir, hinf⟩, htap⟩, hnic⟩, hclaim⟩, hmac⟩ := hok
      exact ⟨dir, inf, pid, rfl, rfl, hdir, hinf, htap, hnic, hclaim, hmac⟩
    · cases h
  · cases h

/-- The argument of the INF file, unless it is called like none. -/
theorem readInf_args (hsafe : r.inf.all isCmdSafePath = true)
    (hname : r.inf ≠ some (Utf16.encode (chars "-"))) :
    Request.readInf ((r.inf.map display).getD (chars "-")) = r.inf := by
  rcases hinf : r.inf with _ | i
  · rw [Option.map_none, Option.getD_none, Request.readInf, if_pos rfl]
  · rw [hinf] at hsafe hname
    have hencode := encode_display hsafe
    have hne : display i ≠ chars "-" := by
      intro he
      rw [he] at hencode
      exact hname (congrArg some hencode.symm)
    rw [Option.map_some, Option.getD_some, Request.readInf, if_neg hne, hencode]

/-- An accepted request is read back from its own arguments. -/
theorem parse_args (h : Accepted A r) (hname : r.inf ≠ some (Utf16.encode (chars "-"))) :
    Request.parse A r.args = some r := by
  have hok : (isCmdSafePath r.dir && r.inf.all isCmdSafePath && isValidAdapterName A r.tap &&
      isValidAdapterName A r.nic &&
      isClaim r.claim && isValidMac r.mac) = true := by
    simp only [Bool.and_eq_true]
    exact ⟨⟨⟨⟨⟨h.dir, h.inf⟩, h.tap⟩, h.nic⟩, h.claim⟩, h.mac⟩
  rw [Request.args, Request.parse, readInf_args h.inf hname, encode_display h.dir, if_pos hok,
    parseUnsigned_ofNat r.pid.toNat_lt, Option.map_some, UInt32.ofNat_toNat]

/-- A request that was received can be sent again. -/
theorem parse_args_of_parse (h : Request.parse A args = some r) :
    Request.parse A r.args = some r := by
  obtain ⟨dir, inf, pid, -, hinf, haccepted⟩ := parse_eq_some h
  refine parse_args haccepted ?_
  intro hname
  rw [← hinf, Request.readInf] at hname
  split at hname
  · cases hname
  · rename_i hne
    have hdecode := congrArg Utf16.decode (Option.some_inj.mp hname)
    rw [Utf16.decode_encode, Utf16.decode_encode] at hdecode
    exact hne (Option.some_inj.mp hdecode)

/-! ## Quotes -/

/-- Quotes keep it together, and no variable is in it. -/
structure Quotable (a : Chars) : Prop extends Plain a where
  noPercent : '%' ∉ a

/-- A character that does nothing between quotes. -/
def harmless (c : Char) : Bool := c ≠ quote && c ≠ backslash && c ≠ '%'

/-- A character that neither quoting nor expansion changes. -/
theorem harmless_iff {c : Char} : harmless c = true ↔ c ≠ quote ∧ c ≠ backslash ∧ c ≠ '%' := by
  simp [harmless, and_assoc]

theorem harmless_of_alnum {c : Char} (h : A.is c = true) : harmless c = true := by
  have hascii : ∀ d : Char, d.toNat < 0x80 → d.isAlphanum = false → c ≠ d := by
    rintro d hd hno rfl
    rw [A.ascii c hd, hno] at h
    exact Bool.false_ne_true h
  rw [harmless_iff]
  exact ⟨hascii _ (by decide) (by decide), hascii _ (by decide) (by decide),
    hascii _ (by decide) (by decide)⟩

theorem harmless_of_isHexDigit {c : Char} (h : isHexDigit c = true) : harmless c = true := by
  have hno : ∀ d : Char, isHexDigit d = false → c ≠ d := by
    rintro d hd rfl
    rw [hd] at h
    exact Bool.false_ne_true h
  rw [harmless_iff]
  exact ⟨hno _ (by decide), hno _ (by decide), hno _ (by decide)⟩

theorem harmless_of_isDigit {c : Char} (h : c.isDigit = true) : harmless c = true :=
  harmless_of_isHexDigit (by rw [isHexDigit, h]; rfl)

/-- An argument of such characters is quotable. -/
theorem quotable_of {a : Chars} (hne : a ≠ []) (h : ∀ c ∈ a, harmless c = true) : Quotable a := by
  refine ⟨⟨fun hc => (harmless_iff.mp (h _ hc)).1 rfl, ?_⟩,
    fun hc => (harmless_iff.mp (h _ hc)).2.2 rfl⟩
  obtain ⟨b, c, rfl⟩ := (List.eq_nil_or_concat a).resolve_left hne
  exact ⟨b, c, List.concat_eq_append, (harmless_iff.mp (h c (by simp))).2.1⟩

/-- A path that passes and ends in a name. -/
theorem quotable_path {root : WidePath} {name : Chars} (hsafe : isCmdSafePath p = true)
    (hp : p = root ++ Utf16.encode name) (hne : name ≠ [])
    (hname : ∀ c ∈ name, (harmless c && decide (c.toNat < 0x80)) = true) :
    Quotable (display p) := by
  obtain ⟨s, hs, -, hspecial⟩ := isCmdSafePath_iff.mp hsafe
  have hdisplay : display p = s := Utf16.decodeLossy_of_decode hs
  obtain ⟨b, c, rfl⟩ := (List.eq_nil_or_concat name).resolve_left hne
  have hc := hname c (by simp)
  rw [Bool.and_eq_true, decide_eq_true_eq] at hc
  have hunits : Utf16.encode s = (root ++ Utf16.encode b) ++ Utf16.encodeChar c := by
    rw [Utf16.encode_decode hs, hp, List.concat_eq_append, Utf16.encode_append, List.append_assoc]
    simp [Utf16.encode]
  obtain ⟨b', rfl⟩ := Utf16.last_of_encode (by omega) hunits
  rw [hdisplay]
  exact ⟨⟨fun hq => hspecial _ hq (by decide), b', c, rfl, (harmless_iff.mp hc.1).2.1⟩,
    fun hq => hspecial _ hq (by decide)⟩

theorem harmless_ofNat (n : Nat) : ∀ c ∈ ofNat n, harmless c = true :=
  fun _ hc => harmless_of_isDigit (isDigit_of_mem_ofNat hc)

/-- So are the adapter's name, and the other arguments one by one. -/
theorem quotable_tapName (id : UInt32) : Quotable (tapName id) := by
  have hname : (chars "cdj3k-emu-").all harmless = true := by decide
  refine quotable_of (by simp [tapName, ofNat_ne_nil]) ?_
  intro c hc
  rcases List.mem_append.mp hc with hc | hc
  · exact List.all_eq_true.mp hname c hc
  · exact harmless_ofNat _ c hc

theorem quotable_adapterName {name : Chars} (h : isValidAdapterName A name = true) :
    Quotable name := by
  simp only [isValidAdapterName, Bool.and_eq_true, decide_eq_true_eq, List.all_eq_true,
    Bool.or_eq_true] at h
  obtain ⟨⟨⟨hne, -⟩, -⟩, hall⟩ := h
  have hother : (chars " ._-").all harmless = true := by decide
  refine quotable_of hne ?_
  intro c hc
  rcases hall c hc with hc | hc
  · exact harmless_of_alnum hc
  · exact List.all_eq_true.mp hother c hc

theorem quotable_claim {s : Chars} (h : isClaim s = true) : Quotable s := by
  rw [isClaim, Option.any_eq_true] at h
  obtain ⟨⟨a, b⟩, hsplit, hparts⟩ := h
  simp only [List.all_cons, List.all_nil, Bool.and_true, Bool.and_eq_true,
    List.all_eq_true] at hparts
  obtain rfl := eq_of_splitOnce hsplit
  refine quotable_of (by simp) ?_
  intro c hc
  rw [List.mem_append, List.mem_cons] at hc
  rcases hc with hc | rfl | hc
  · exact harmless_of_isDigit (hparts.1.2 c hc)
  · decide
  · exact harmless_of_isDigit (hparts.2.2 c hc)

/-- A MAC needs no quotes. -/
theorem word_mac {mac : Chars} (h : isValidMac mac = true) : Word mac ∧ Quotable mac := by
  have hmem : ∀ c ∈ mac, c = ':' ∨ isHexDigit c = true := by
    intro c hc
    simp only [isValidMac, Bool.and_eq_true, List.all_eq_true] at h
    rcases mem_splitOn_of_mem ':' hc with rfl | ⟨part, hpart, hc⟩
    · exact Or.inl rfl
    · exact Or.inr ((h.1 part hpart).2 c hc)
  have hne : mac ≠ [] := by
    rintro rfl
    exact absurd h (by decide)
  have hquotable : Quotable mac := by
    refine quotable_of hne ?_
    intro c hc
    rcases hmem c hc with rfl | hc
    · decide
    · exact harmless_of_isHexDigit hc
  refine ⟨⟨hquotable.toPlain, ?_⟩, hquotable⟩
  intro c hc
  rcases hmem c hc with rfl | hc
  · rfl
  · have hblank := isWhitespace_of_isHexDigit hc
    rw [isBlank, Bool.or_eq_false_iff, decide_eq_false_iff_not, decide_eq_false_iff_not]
    constructor
    · rintro rfl
      exact absurd hblank (by decide)
    · rintro rfl
      exact absurd hblank (by decide)

theorem word_helperFlag : Word helperFlag ∧ Quotable helperFlag := by
  have hall : helperFlag.all (fun c => harmless c && !isBlank c) = true := by decide
  simp only [List.all_eq_true, Bool.and_eq_true, Bool.not_eq_true'] at hall
  have hquotable : Quotable helperFlag := quotable_of (by decide) fun c hc => (hall c hc).1
  exact ⟨⟨hquotable.toPlain, fun c hc => (hall c hc).2⟩, hquotable⟩

/-! ## The request of `setup` -/

variable {host : Host} {iface mac : Chars} {id : UInt32}

/-- A request is made of names and paths that were tested. -/
theorem setup_eq_some (h : setup A host iface mac id = some r) :
    isValidAdapterName A iface = true ∧ isValidMac mac = true ∧
    isCmdSafePath (host.instanceDir id) = true ∧
      r = ⟨host.instanceDir id, tapName id, iface, if host.infIsFile then some host.inf else none,
        host.pid, host.claim, mac⟩ := by
  unfold setup at h
  split at h
  · cases h
  split at h
  · cases h
  split at h
  · cases h
  dsimp only at h
  split at h
  · cases h
  split at h
  · cases h
  rename_i hnic hmac _ _ hdir
  rw [Bool.not_eq_true', Bool.not_eq_false] at hnic hmac hdir
  exact ⟨hnic, hmac, hdir, (Option.some_inj.mp h).symm⟩

/-- So all its arguments are quotable. -/
theorem quotable_args (h : setup A host iface mac id = some r)
    (hinf : r.inf.all isCmdSafePath = true) :
    ∀ a ∈ r.args, Quotable a := by
  obtain ⟨hnic, hmac, hdir, rfl⟩ := setup_eq_some h
  obtain ⟨root, hroot⟩ := host.inRuntimeDir id
  have hname : (chars "instance-").all (fun c => harmless c && decide (c.toNat < 0x80)) = true := by
    decide
  have hinfname : (chars "OemVista.inf").all (fun c => harmless c && decide (c.toNat < 0x80)) =
      true := by decide
  have hnone : (chars "-").all harmless = true := by decide
  have hdirq : Quotable (display (host.instanceDir id)) := by
    refine quotable_path hdir hroot (by simp [ofNat_ne_nil]) ?_
    intro c hc
    rcases List.mem_append.mp hc with hc | hc
    · exact List.all_eq_true.mp hname c hc
    · rw [harmless_ofNat _ c hc, decide_eq_true (ascii_of_isDigit (isDigit_of_mem_ofNat hc))]
      rfl
  have hinfq : Quotable
      (((if host.infIsFile then some host.inf else none).map display).getD (chars "-")) := by
    by_cases hfile : host.infIsFile = true
    · obtain ⟨root, hroot⟩ := host.inResources
      rw [if_pos hfile] at hinf ⊢
      exact quotable_path hinf hroot (by decide) (List.all_eq_true.mp hinfname)
    · rw [if_neg hfile]
      exact quotable_of (by decide) (List.all_eq_true.mp hnone)
  have hpid : Quotable (ofNat host.pid.toNat) := quotable_of (ofNat_ne_nil _) (harmless_ofNat _)
  intro a ha
  simp only [Request.args, List.mem_cons, List.not_mem_nil, or_false] at ha
  rcases ha with rfl | rfl | rfl | rfl | rfl | rfl | rfl
  · exact hdirq
  · exact quotable_tapName id
  · exact quotable_adapterName hnic
  · exact hinfq
  · exact hpid
  · exact quotable_claim host.isClaim
  · exact (word_mac hmac).2

theorem isValidAdapterName_tapName (id : UInt32) : isValidAdapterName A (tapName id) = true := by
  have hascii : ∀ c : Char, c.toNat < 0x80 → c.isAlphanum = true →
      (A.is c || c ∈ chars " ._-") = true := by
    intro c hc hal
    rw [A.ascii c hc, hal]
    rfl
  have hdigits : ∀ c ∈ ofNat id.toNat, isWhitespace c = false ∧
      (A.is c || c ∈ chars " ._-") = true := by
    intro c hc
    have hd := isDigit_of_mem_ofNat hc
    exact ⟨not_whitespace_of_isDigit hd,
      hascii c (ascii_of_isDigit hd) (by rw [Char.isAlphanum, hd, Bool.or_true])⟩
  have hname : (chars "cdj3k-emu-").all
      (fun c => !isWhitespace c && (c = '-' || decide (c.toNat < 0x80) && c.isAlphanum)) =
      true := by
    decide
  simp only [List.all_eq_true, Bool.and_eq_true, Bool.or_eq_true, Bool.not_eq_true',
    decide_eq_true_eq] at hname
  have hall : ∀ c ∈ tapName id, isWhitespace c = false ∧ (A.is c || c ∈ chars " ._-") = true := by
    intro c hc
    rcases List.mem_append.mp hc with hc | hc
    · refine ⟨(hname c hc).1, ?_⟩
      rcases (hname c hc).2 with rfl | ⟨hc, hal⟩
      · rw [Bool.or_eq_true]
        right
        decide
      · exact hascii c hc hal
    · exact hdigits c hc
  have hlen : (ofNat id.toNat).length ≤ 10 :=
    length_ofNat_le (by omega) (by have := id.toNat_lt; omega)
  have hten : (chars "cdj3k-emu-").length = 10 := by decide
  simp only [isValidAdapterName, Bool.and_eq_true, decide_eq_true_eq, List.all_eq_true]
  refine ⟨⟨⟨by simp [tapName, ofNat_ne_nil], ?_⟩, (trim_of_words fun c hc => (hall c hc).1).symm⟩,
    fun c hc => (hall c hc).2⟩
  rw [tapName, List.length_append]
  omega

/-- The receiver takes the request if it takes the INF file. -/
theorem accepted_of_setup (h : setup A host iface mac id = some r)
    (hinf : r.inf.all isCmdSafePath = true) :
    Accepted A r := by
  obtain ⟨hnic, hmac, hdir, rfl⟩ := setup_eq_some h
  exact ⟨hdir, hinf, isValidAdapterName_tapName id, hnic, host.isClaim, hmac⟩

/-! ## The line -/

variable {env : Chars → Option Chars} {exe : WidePath}

/-- The address comes last. -/
theorem args_eq (r : Request) : ∃ front, r.args = front ++ [r.mac] ∧ front.length = 6 :=
  ⟨[display r.dir, r.tap, r.nic, (r.inf.map display).getD (chars "-"), ofNat r.pid.toNat, r.claim],
    rfl, rfl⟩

/-- The command line, with the program in front. -/
theorem command_eq (r : Request) (exe : WidePath) :
    r.command exe helperFlag = quote :: display exe ++ quote :: tail helperFlag r.args := by
  rw [Request.command, joined_eq, tail]
  simp

/-- Variables stand in the program's path only. -/
theorem cmdExe_cmdline (h : ∀ a ∈ r.args, Quotable a) :
    cmdExe env (r.cmdline exe) = quote :: expand env (display exe) ++ quote ::
      tail helperFlag r.args := by
  have hstrip : (r.cmdline exe).tail.dropLast = r.command exe helperFlag := by
    rw [Request.cmdline, List.cons_append, List.tail_cons, List.dropLast_concat]
  have hno : '%' ∉ quote :: tail helperFlag r.args := by
    rw [tail]
    simp only [List.cons_append, List.mem_cons, List.mem_append, not_or]
    refine ⟨by decide, by decide, word_helperFlag.2.noPercent, by decide, ?_⟩
    intro hmem
    rcases mem_joined hmem with hc | hc | ⟨a, ha, hc⟩
    · exact absurd hc (by decide)
    · exact absurd hc (by decide)
    · exact (h a ha).noPercent hc
  rw [cmdExe, hstrip, command_eq, expand_append hno, expand_cons (by decide)]

/-- What the receiver reads. -/
theorem argv_cmdline (h : ∀ a ∈ r.args, Quotable a) (hexe : quote ∉ expand env (display exe)) :
    commandLineToArgv (cmdExe env (r.cmdline exe)) = expand env (display exe) :: helperFlag ::
      r.args := by
  rw [cmdExe_cmdline h]
  exact argv_plain hexe word_helperFlag.1 fun a ha => (h a ha).toPlain

/-- A quote in the program's path changes the arguments: too many are read, or another MAC. -/
theorem not_received_of_quote (h : ∀ a ∈ r.args, Quotable a) (hmac : Word r.mac)
    (hexe : quote ∈ expand env (display exe)) :
    ¬ Received A env exe r := by
  rintro ⟨program, args, hargv, -, hparse⟩
  obtain ⟨dir, inf, pid, rfl, -⟩ := parse_eq_some hparse
  obtain ⟨front, hfront, hlen⟩ := args_eq r
  have hplain : ∀ a ∈ front ++ [r.mac], Plain a := by
    rw [← hfront]
    exact fun a ha => (h a ha).toPlain
  obtain ⟨p, rest, hrest, hbroken⟩ := argv_broken hexe word_helperFlag.1 hplain hmac
  rw [cmdExe_cmdline h, hfront, hrest] at hargv
  obtain ⟨-, rfl⟩ := List.cons_eq_cons.mp hargv
  rcases hbroken with hmany | ⟨y, hlast⟩
  · rw [List.length_append, hlen] at hmany
    exact absurd hmany (by simp)
  · have hmac : r.mac = y ++ ' ' :: r.mac := by simpa using hlast
    have hlength := congrArg List.length hmac
    rw [List.length_append, List.length_cons] at hlength
    omega

/-- A path of a driver that arrives is safe. -/
theorem inf_of_received (h : Received A env exe r) : r.inf.all isCmdSafePath = true := by
  obtain ⟨program, args, -, -, hparse⟩ := h
  obtain ⟨dir, inf, pid, -, -, haccepted⟩ := parse_eq_some hparse
  exact haccepted.inf

/-- A request that arrives was started by a path that is a text and stays as it is. -/
theorem exe_of_received (hsetup : setup A host iface mac id = some r) (h : Received A env exe r) :
    ∃ e, Utf16.decode exe = some e ∧ expand env e = e := by
  have hquotable := quotable_args hsetup (inf_of_received h)
  have hmac : Word r.mac := by
    obtain ⟨-, hmac, -, rfl⟩ := setup_eq_some hsetup
    exact (word_mac hmac).1
  have hexe : quote ∉ expand env (display exe) :=
    fun hq => not_received_of_quote hquotable hmac hq h
  obtain ⟨program, args, hargv, rfl, -⟩ := h
  rw [argv_cmdline hquotable hexe, display_encode] at hargv
  obtain ⟨hprogram, -⟩ := List.cons_eq_cons.mp hargv
  exact ⟨program, Utf16.decode_encode program, hprogram⟩

/-- Windows allows no quote in a path. -/
theorem quote_notMem {e : Chars} (hexe : 0x22 ∉ exe) (he : Utf16.decode exe = some e) :
    quote ∉ e := by
  intro hq
  rw [← Utf16.encode_decode he] at hexe
  exact hexe (List.mem_flatMap.mpr ⟨quote, hq, by decide⟩)

/-- The INF file is not called like none. -/
theorem inf_ne_none (hsetup : setup A host iface mac id = some r) :
    r.inf ≠ some (Utf16.encode (chars "-")) := by
  obtain ⟨-, -, -, rfl⟩ := setup_eq_some hsetup
  obtain ⟨root, hroot⟩ := host.inResources
  intro hname
  dsimp only at hname
  split at hname
  · have hlen := congrArg List.length (Option.some_inj.mp hname)
    have hunits : (Utf16.encode (chars "OemVista.inf")).length = 12 := by decide
    have hone : (Utf16.encode (chars "-")).length = 1 := by decide
    rw [hroot, List.length_append] at hlen
    omega
  · cases hname

/-- A request arrives as it was sent. -/
theorem received_of (hsetup : setup A host iface mac id = some r) (hexe : 0x22 ∉ exe)
    (he : ∃ e, Utf16.decode exe = some e ∧ expand env e = e)
    (hinf : r.inf.all isCmdSafePath = true) :
    Received A env exe r := by
  obtain ⟨e, hdecode, hexpand⟩ := he
  have hdisplay : display exe = e := Utf16.decodeLossy_of_decode hdecode
  have hquote : quote ∉ expand env (display exe) := by
    rw [hdisplay, hexpand]
    exact quote_notMem hexe hdecode
  refine ⟨e, r.args, ?_, Utf16.encode_decode hdecode, ?_⟩
  · rw [argv_cmdline (quotable_args hsetup hinf) hquote, hdisplay, hexpand]
  · exact parse_args (accepted_of_setup hsetup hinf) (inf_ne_none hsetup)

/-- The test of the INF file, on the host. -/
theorem inf_of_setup (hsetup : setup A host iface mac id = some r) :
    r.inf.all isCmdSafePath = true ↔ (host.infIsFile = true → isCmdSafePath host.inf = true) := by
  obtain ⟨-, -, -, rfl⟩ := setup_eq_some hsetup
  by_cases hfile : host.infIsFile = true
  · simp [hfile]
  · simp [hfile]

end

/-- A request that was accepted is accepted again, as it is.  And one of `setup` is received exactly
    when the path of the program is a text that has nothing to replace, and that of the INF file,
    when there is one, passes the receiver's test. -/
theorem received_iff (A : Alphanumeric) :
    (∀ args r, Request.parse A args = some r → Request.parse A r.args = some r) ∧
    ∀ (env : Chars → Option Chars) (host : Host) (iface mac : Chars) (id : UInt32) (exe : WidePath)
      (r : Request),
      setup A host iface mac id = some r → 0x22 ∉ exe →
        (Received A env exe r ↔ (∃ e, Utf16.decode exe = some e ∧ expand env e = e) ∧
          (host.infIsFile = true → isCmdSafePath host.inf = true)) := by
  refine ⟨fun args r h => parse_args_of_parse h, ?_⟩
  intro env host iface mac id exe r hsetup hexe
  rw [← inf_of_setup hsetup]
  constructor
  · intro h
    exact ⟨exe_of_received hsetup h, inf_of_received h⟩
  · rintro ⟨he, hinf⟩
    exact received_of hsetup hexe he hinf

/-- Letters and digits of ASCII. -/
def asciiAlphanumeric : Alphanumeric := ⟨Char.isAlphanum, fun _ _ => rfl⟩

/-- A host with one adapter, and the driver in `resources`. -/
def desk (resources : Chars) : Host where
  interfaces := [chars "Ethernet 2"]
  interfaceExists := fun _ => false
  instanceDir := fun id =>
    Utf16.encode (chars "C:\\Users\\Jo Doe\\AppData\\Local\\cdj3k-emu\\") ++ Utf16.encode
      (chars "instance-" ++ ofNat id.toNat)
  inRuntimeDir := fun _ => ⟨_, rfl⟩
  inf := Utf16.encode (resources ++ chars "\\tap-windows6\\") ++ Utf16.encode (chars "OemVista.inf")
  inResources := ⟨_, rfl⟩
  infIsFile := true
  pid := 4356
  claim := chars "4356-1790933216403"
  isClaim := by decide

/-- A request from a folder with a blank in its name. -/
theorem program_files_received : ∃ r,
    setup asciiAlphanumeric (desk (chars "C:\\Program Files\\cdj3k-emu")) (chars "Ethernet 2")
        (chars "fe:a7:61:67:79:84") 0 = some r ∧
      Request.parse asciiAlphanumeric r.args = some r ∧
      Received asciiAlphanumeric (fun _ => none)
        (Utf16.encode (chars "C:\\Program Files\\cdj3k-emu\\cdj3k-emu.exe")) r := by
  have hsome : (setup asciiAlphanumeric (desk (chars "C:\\Program Files\\cdj3k-emu"))
      (chars "Ethernet 2")
      (chars "fe:a7:61:67:79:84") 0).isSome = true := by
    decide
  obtain ⟨r, hr⟩ := Option.isSome_iff_exists.mp hsome
  have hreceived := ((received_iff asciiAlphanumeric).2 (fun _ => none) _ _ _ _
    (Utf16.encode (chars "C:\\Program Files\\cdj3k-emu\\cdj3k-emu.exe")) r hr
      (by decide)).mpr
    ⟨⟨_, Utf16.decode_encode _, expand_plain (by decide)⟩, fun _ => by decide⟩
  obtain ⟨program, args, hargv, hexe, hparse⟩ := hreceived
  exact ⟨r, hr, (received_iff asciiAlphanumeric).1 args r hparse, program, args, hargv,
    hexe, hparse⟩

/-- In a directory with an ampersand the request is sent, and refused. -/
theorem ampersand_not_received : ∃ r,
    setup asciiAlphanumeric (desk (chars "C:\\R&B\\cdj3k-emu")) (chars "Ethernet 2")
        (chars "fe:a7:61:67:79:84") 0 = some r ∧
      0x22 ∉ Utf16.encode (chars "C:\\R&B\\cdj3k-emu\\cdj3k-emu.exe") ∧
      ¬ Received asciiAlphanumeric (fun _ => none)
        (Utf16.encode (chars "C:\\R&B\\cdj3k-emu\\cdj3k-emu.exe")) r := by
  have hsome : (setup asciiAlphanumeric (desk (chars "C:\\R&B\\cdj3k-emu")) (chars "Ethernet 2")
      (chars "fe:a7:61:67:79:84") 0).isSome = true := by
    decide
  obtain ⟨r, hr⟩ := Option.isSome_iff_exists.mp hsome
  refine ⟨r, hr, by decide, ?_⟩
  intro h
  have hsafe := (inf_of_setup hr).mp (inf_of_received h) rfl
  exact absurd hsafe (by decide)

end CdjEmu.Net.Elevated
