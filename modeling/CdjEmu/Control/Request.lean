/-
  REQUESTS OF THE CONTROL CONNECTION — one line of words becomes a command.

  A request begins with its verb; `verbs` has the parser of each.  A parser gets the whole line
  besides the words: `sh`, `media attach` and `mods push` take the rest of the line as it is
  written.

  Parsers are checked steps: an index or a slice that is not there, and an overflow where the build
  checks for it, stop them.  An error is the text that the caller gets.  Times are in milliseconds.
  What the standard library does with floats, and how `Debug` writes a text, is a parameter
  (`Rust`), as is whether the build checks for overflows.
-/
import CdjEmu.Lib.Checked
import CdjEmu.Lib.Chars

namespace CdjEmu.Request

open Chars

/-- The parts of the standard library and of the build that the parsers use. -/
structure Rust where
  F32 : Type
  parseF32 : Chars → Option F32
  /-- `(0.0..=1.0).contains`. -/
  inUnit : F32 → Bool
  /-- Finite, and at most `max` from zero. -/
  within : Nat → F32 → Bool
  ge : F32 → F32 → Bool
  /-- `{:?}` of a text. -/
  debug : Chars → Chars
  overflowChecks : Bool

/-- `DEFAULT_HOLD`. -/
def defaultHold : Nat := 200

/-- `DEFAULT_WAIT`. -/
def defaultWait : Nat := 10000

/-- `MAX_WAIT`. -/
def maxWait : Nat := 600000

/-- `MAX_DETENTS`. -/
def maxDetents : Int := 100

/-- `MAX_JOG_DEGREES`. -/
def maxJogDegrees : Nat := 36000

/-- `MAX_JOG_RPS`. -/
def maxJogRps : Nat := 20

/-- `DEFAULT_JOG_TIME`. -/
def defaultJogTime : Nat := 500

/-! ## Commands -/

/-- The two screens of a player. -/
inductive Screen where
  | main
  | jog

/-- What `release` names. -/
inductive Target where
  | bit (name : Chars)
  | touch
  | all

/-- A part of a screen, in fractions of its width and height. -/
structure Region (F32 : Type) where
  x0 : F32
  y0 : F32
  x1 : F32
  y1 : F32

/-- The part of the guest's log that is watched. -/
inductive LogSource where
  | all
  | kernel
  | unit (name : Chars)
  | mod (name : Chars)

/-- What a client may watch. -/
inductive Topic (F32 : Type) where
  | lamps (names : List Chars)
  | lcd (screen : Screen) (region : Option (Region F32))
  | emulation
  | log (source : LogSource) (grep : Option Chars)

/-- Where the wheel is held. -/
inductive JogGrip where
  | top
  | side

/-- A turn of the wheel for some time, or a spin until it is released. -/
inductive JogMove (F32 : Type) where
  | turn (degrees : F32) (time : Nat) (grip : JogGrip)
  | spin (rps : F32) (grip : JogGrip)

/-- The words after `media`. -/
inductive MediaCommand where
  | status
  | attach (path : Chars)
  | eject

inductive Knob where
  | vinylSpeed
  | jogAdjust

/-- The positions of the direction lever. -/
inductive Lever where
  | forward
  | reverse
  | slipReverse

/-- The words after `mods`. -/
inductive ModsCommand where
  | list
  | push (path : Chars)
  | enable (name : Chars) (on : Bool)
  | remove (name : Chars)
  | log (name : Chars)

/-- The JSON value that a lamp wait names. -/
inductive LampValue where
  | text (s : Chars)
  | bool (b : Bool)
  | level (n : Nat)
  | rgb (l : List Nat)

/-- What a wait wants of a lamp. -/
inductive LampWant where
  | on
  | off
  | is (value : LampValue)

inductive WaitFor where
  | boot
  | lamp (name : Chars) (want : LampWant)

/-- A request line as it was understood. -/
inductive Command (F32 : Type) where
  | hello
  | buttons
  | lamps
  | state
  | press (bit : Chars) (hold : Option Nat)
  | clear (bit : Chars) (hold : Option Nat)
  | touch (x y : F32) (hold : Option Nat)
  | release (target : Target)
  | rotary (n : Int)
  | tempo (pos : F32)
  | tilt
  | lcd (screen : Screen)
  | shot
  | wait (what : WaitFor) (timeout : Nat)
  | watch (topic : Topic F32)
  | unwatch (n : Option Nat)
  | sh (command : Chars)
  | mods (command : ModsCommand)
  | jog (move : JogMove F32)
  | media (command : MediaCommand)
  | setting (pair : Option (Chars × Chars))
  | encoder (n : Int)
  | knob (knob : Knob) (pos : F32)
  | direction (lever : Lever)
  | restart
  | reset
  | quit

/-! ## Words and numbers -/

/-- `to_ascii_lowercase`. -/
def lower (s : Chars) : Chars := s.map Char.toLower

/-- `eq_ignore_ascii_case`. -/
def sameWord (s : Chars) (t : String) : Bool := lower s = lower (chars t)

/-- `split_once(char::is_whitespace)`. -/
def splitOnceSpace : Chars → Option (Chars × Chars)
  | [] => none
  | c :: s =>
    if isWhitespace c then some ([], s)
    else (splitOnceSpace s).map fun p => (c :: p.1, p.2)

/-- `args.first()`, in lower case. -/
def first (args : List Chars) : Option Chars := args.head?.map lower

/-- `Screen::parse`, in any case of letters. -/
def Screen.parse (s : Chars) : Option Screen :=
  if lower s = chars "main" then some .main
  else if lower s = chars "jog" then some .jog
  else none

/-- An argument that must be there, or the message that asks for it. -/
def arg (args : List Chars) (i : Nat) (missing : String) : Except Chars Chars :=
  match args[i]? with
  | some s => .ok s
  | none => .error (chars missing)

namespace Rust

variable (R : Rust)

/-- `i32::abs`, which leaves the lowest number as it is in a build without overflow checks. -/
def abs (n : Int) : Option Int :=
  if n = -2 ^ 31 then (if R.overflowChecks then none else some n) else some |n|

/-- `millis`. -/
def millis (s : Chars) : Except Chars Nat :=
  match parseUnsigned (2 ^ 64) s with
  | some ms => .ok ms
  | none => .error (R.debug s ++ chars " is not a whole number of milliseconds")

/-- `hold`: a time of 0 holds until it is released. -/
def hold (s : Option Chars) (default : Option Nat) : Except Chars (Option Nat) :=
  match s with
  | none => .ok default
  | some s => do
    let ms ← R.millis s
    return if ms = 0 then none else some ms

/-- `fraction`: a number from 0 to 1. -/
def fraction (s : Chars) : Except Chars R.F32 :=
  match R.parseF32 s with
  | some v =>
    if R.inUnit v then .ok v else .error (R.debug s ++ chars " is not a number from 0 to 1")
  | none => .error (R.debug s ++ chars " is not a number from 0 to 1")

/-- `detents`: a number of steps either way, but not 0. -/
def detents (s : Chars) : Steps Chars Int :=
  let refused := throw
      (R.debug s ++ chars " is not a number of detents from -" ++ ofInt maxDetents ++
        chars " to " ++
    ofInt maxDetents ++ chars ", other than 0")
  match parseI32 s with
  | none => refused
  | some n =>
    if n = 0 then refused
    else do
      let a ← liftM (R.abs n)
      if a ≤ maxDetents then pure n else refused

/-- `lamp_want`: on, off, a level, or the bits that a lamp shows. -/
def lampWant (s : Chars) : Steps Chars LampWant :=
  let word := lower s
  if word = chars "on" then pure .on
  else if word = chars "off" then pure .off
  else if word = chars "full" ∨ word = chars "medium" then pure (.is (.text word))
  else if word = chars "true" then pure (.is (.bool true))
  else if word = chars "false" then pure (.is (.bool false))
  else
    let refused := throw
        (R.debug s ++ chars " is not on, off, full, medium, true, false, a number or r,g,b")
    match (s.splitOn ',').mapM (parseUnsigned (2 ^ 8)) with
    | some rgb =>
      if rgb.length = 3 then pure (.is (.rgb rgb))
      else if rgb.length = 1 then do
        let level ← liftM (Checked.index rgb 0)
        pure (.is (.level level))
      else refused
    | none => refused

/-- `Region::parse`. -/
def region (s : Chars) : Except Chars (Region R.F32) :=
  let words := (s.splitOnP fun c => c = ',' || isWhitespace c).filter (· ≠ [])
  match words.mapM R.parseF32 with
  | some [x0, y0, x1, y1] =>
    if !(R.inUnit x0 && R.inUnit y0 && R.inUnit x1 && R.inUnit y1) || R.ge x0 x1 || R.ge y0 y1 then
      .error (R.debug s ++ chars " is not a region: x0 < x1 and y0 < y1, all from 0 to 1")
    else .ok ⟨x0, y0, x1, y1⟩
  | _ => .error (R.debug s ++ chars " is not four numbers")

/-! ## The parsers of the verbs -/

/-- `press`, held for a moment unless a time is given. -/
def parsePress (args : List Chars) : Except Chars (Command R.F32) := do
  let bit ← arg args 0 "press needs a button"
  return .press bit (← R.hold args[1]? (some defaultHold))

/-- `touch`, at fractions of the screen. -/
def parseTouch (args : List Chars) : Except Chars (Command R.F32) := do
  let x ← R.fraction (← arg args 0 "touch needs an x and a y")
  let y ← R.fraction (← arg args 1 "touch needs an x and a y")
  return .touch x y (← R.hold args[2]? (some defaultHold))

/-- `release`: a word that is no other is a button. -/
def parseRelease (args : List Chars) : Except Chars (Command R.F32) := do
  let t ← arg args 0 "release needs a button, touch or all"
  return .release (if sameWord t "all" then .all else if sameWord t "touch" then .touch else .bit t)

/-- `sh_command`. -/
def shCommand (line : Chars) : Except Chars Chars :=
  match splitOnceSpace (trim line) with
  | some (_, r) => if trim r ≠ [] then .ok (trim r) else .error (chars "sh needs a command")
  | none => .error (chars "sh needs a command")

/-- The grip that a word of `jog` names. -/
def jogGrip (s : Option Chars) : Except Chars JogGrip :=
  match s.map lower with
  | none => .ok .top
  | some word =>
    if word = chars "top" then .ok .top
    else if word = chars "side" then .ok .side
    else .error (R.debug word ++ chars " is not top or side")

/-- A number of `jog`. -/
def jogNumber (s : Chars) (max : Nat) (what : String) : Except Chars R.F32 :=
  let refused := .error
      (R.debug s ++ chars " is not " ++ chars what ++ chars " from -" ++ ofNat max ++
        chars " to " ++
    ofNat max)
  match R.parseF32 s with
  | some v => if R.within max v then .ok v else refused
  | none => refused

/-- The time of a turn, and the argument behind it. -/
def jogTime (rest : List Chars) : Steps Chars (Nat × Option Chars) :=
  match rest.head? with
  | none => pure (defaultJogTime, none)
  | some s =>
    match parseUnsigned (2 ^ 64) s with
    | some ms =>
      if maxWait < ms then throw (chars "a turn lasts at most " ++ ofNat maxWait ++ chars " ms")
      else pure (max ms 1, rest[1]?)
    | none =>
      if rest.length = 1 then pure (defaultJogTime, rest.head?)
      else do
        let word ← liftM (Checked.index rest 0)
        throw (R.debug word ++ chars " is not milliseconds")

/-- `jog spin <rps> [top|side]`. -/
def parseSpin (rps : Chars) (rest : List Chars) : Except Chars (JogMove R.F32) := do
  let rps ← R.jogNumber rps maxJogRps "turns per second"
  return .spin rps (← R.jogGrip rest.head?)

/-- `jog <degrees> [ms] [top|side]`. -/
def parseTurn (degrees : Chars) (rest : List Chars) : Steps Chars (JogMove R.F32) := do
  let degrees ← R.jogNumber degrees maxJogDegrees "degrees"
  let (time, word) ← R.jogTime rest
  return .turn degrees time (← R.jogGrip word)

/-- The arms of `parse_jog` behind the one for `spin`. -/
def parseTurnWords (args : List Chars) : Steps Chars (JogMove R.F32) :=
  let refused := throw (chars "jog takes <degrees> [ms] [top|side] or spin <rps> [top|side]")
  match args with
  | degrees :: rest => if rest.length ≤ 2 then R.parseTurn degrees rest else refused
  | [] => refused

/-- `jog`: a first word `spin` decides which of the two forms it is. -/
def parseJog (args : List Chars) : Steps Chars (JogMove R.F32) :=
  match args with
  | spin :: rps :: rest =>
    if sameWord spin "spin" ∧ rest.length ≤ 1 then liftM (R.parseSpin rps rest)
    else R.parseTurnWords args
  | _ => R.parseTurnWords args

/-- `text_after_subcommand`. -/
def textAfterSubcommand (line : Chars) : Option Chars := do
  let afterVerb := (← splitOnceSpace (trim line)).2
  let rest := trim (← splitOnceSpace (trimStart afterVerb)).2
  if rest ≠ [] then some rest else none

/-- `media`; a path is everything behind the subcommand, blanks included. -/
def parseMedia (line : Chars) (args : List Chars) : Except Chars MediaCommand :=
  match first args with
  | none => .ok .status
  | some word =>
    if word = chars "status" then .ok .status
    else if word = chars "eject" then .ok .eject
    else if word = chars "attach" then
      match textAfterSubcommand line with
      | some p => .ok (.attach p)
      | none => .error (chars "media attach needs the path of a USB image")
    else .error (R.debug word ++ chars " is not a media command: attach, eject or status")

/-- The one name that a sub-command of `mods` takes. -/
def modName (args : List Chars) : Steps Chars Chars :=
  match args with
  | [_, name] => pure name
  | _ => do
    let word ← liftM (Checked.index args 0)
    throw (chars "mods " ++ word ++ chars " needs one mod name")

/-- `mods`, likewise. -/
def parseMods (line : Chars) (args : List Chars) : Steps Chars ModsCommand :=
  match first args with
  | none => pure .list
  | some word =>
    if word = chars "list" then pure .list
    else if word = chars "push" then
      match textAfterSubcommand line with
      | some p => pure (.push p)
      | none => throw (chars "mods push needs the path of a mod folder or archive")
    else if word = chars "enable" then return .enable (← modName args) true
    else if word = chars "disable" then return .enable (← modName args) false
    else if word = chars "remove" then return .remove (← modName args)
    else if word = chars "log" then return .log (← modName args)
    else throw (R.debug word ++
      chars " is not a mods command: list, push, enable, disable, remove or log")

/-- The characters of a unit's or a mod's name. -/
def nameChar (kind : String) (c : Char) : Bool :=
  if kind = "mod" then c.isLower || c.isDigit || (chars "._-").contains c
  else c.isAlphanum || (chars "@._:-").contains c

/-- A name in a log source: not empty, at most 128 octets, of the characters its kind allows. -/
def logName (kind : String) (name : Option Chars) : Except Chars Chars :=
  match name with
  | some n =>
    if n ≠ [] ∧ utf8Len n ≤ 128 ∧ n.all (nameChar kind) = true then .ok n
    else .error (R.debug n ++ chars " is not a " ++ chars kind ++ chars " name")
  | none => .error (chars "watch log " ++ chars kind ++ chars " needs a name")

/-- `args.get(i..).unwrap_or_default()`. -/
def behind (args : List Chars) (i : Nat) : List Chars := (Checked.behind args i).getD []

/-- The source of `watch log`, and the arguments behind it. -/
def logSource (args : List Chars) : Steps Chars (LogSource × List Chars) :=
  let rest := behind args 2
  match first args with
  | none => pure (.all, args)
  | some word =>
    if word = chars "kernel" then return (.kernel, ← liftM (Checked.behind args 1))
    else if word = chars "unit" then return (.unit (← R.logName "unit" args[1]?), rest)
    else if word = chars "mod" then return (.mod (← R.logName "mod" args[1]?), rest)
    else pure (.all, args)

/-- `text.join(" ")`. -/
def join : List Chars → Chars
  | [] => []
  | [w] => w
  | w :: rest => w ++ chars " " ++ join rest

/-- `watch log`, with an optional `grep` whose text is the rest of the line. -/
def parseLog (args : List Chars) : Steps Chars (Topic R.F32) := do
  let (source, rest) ← R.logSource args
  match rest with
  | [] => return .log source none
  | g :: text =>
    if sameWord g "grep" ∧ text ≠ [] then return .log source (some (join text))
    else throw (chars "watch log takes kernel, unit <name> or mod <name>, then grep <text>")

/-- The screen of `watch lcd`, and the words behind it. -/
def lcdScreen (rest : List Chars) : Steps Chars (Screen × List Chars) :=
  match rest.head?.bind Screen.parse with
  | some screen => return (screen, ← liftM (Checked.behind rest 1))
  | none => pure (.main, rest)

/-- `watch`, by its first word. -/
def parseTopic (args : List Chars) : Steps Chars (Topic R.F32) :=
  let rest := behind args 1
  let refused := throw (chars "watch takes lamps, lcd, emulation or log")
  match first args with
  | none => refused
  | some word =>
    if word = chars "lamps" then pure (.lamps rest)
    else if word = chars "lcd" then do
      let (screen, rest) ← lcdScreen rest
      match rest with
      | [] => return .lcd screen none
      | [r] => return .lcd screen (some (← R.region r))
      | _ => throw (chars "watch lcd takes a screen and one region")
    else if word = chars "emulation" then
      if rest = [] then pure .emulation else throw (chars "watch emulation takes no filter")
    else if word = chars "log" then R.parseLog rest
    else refused

/-- `unwatch`: one watch, or all of them. -/
def parseUnwatch (args : List Chars) : Except Chars (Option Nat) := do
  let a ← arg args 0 "unwatch needs a watch number or all"
  if sameWord a "all" then return none
  else
    match parseUnsigned (2 ^ 32) a with
    | some n => return some n
    | none => throw (R.debug a ++ chars " is not a watch number")

/-- What `wait` waits for, and the words behind it. -/
def waitFor (args : List Chars) : Steps Chars (WaitFor × List Chars) :=
  match first args with
  | none => throw (chars "wait takes boot or lamp")
  | some word =>
    if word = chars "boot" then return (.boot, ← liftM (Checked.behind args 1))
    else if word = chars "lamp" then do
      let name ← arg args 1 "wait lamp needs a lamp and a state"
      let want ← R.lampWant (← arg args 2 "wait lamp needs a lamp and a state")
      return (.lamp name want, ← liftM (Checked.behind args 3))
    else throw (chars "wait takes boot or lamp")

/-- The time that a wait is given. -/
def waitTimeout (s : Option Chars) : Except Chars Nat :=
  match s with
  | none => .ok defaultWait
  | some s => R.millis s

/-- `wait`, within the longest time. -/
def parseWait (args : List Chars) : Steps Chars (Command R.F32) := do
  let (what, rest) ← R.waitFor args
  let timeout ← R.waitTimeout rest.head?
  if maxWait < timeout then
    throw (chars "a wait lasts at most " ++ ofNat (maxWait / 1000) ++ chars " s")
  else return .wait what timeout

/-- `rotary`, by detents. -/
def parseRotary (args : List Chars) : Steps Chars (Command R.F32) := do
  let n ← arg args 0 "rotary needs a number of detents"
  return .rotary (← R.detents n)

/-- `clear`: a bit of the frame, cleared until it is released. -/
def parseClear (args : List Chars) : Except Chars (Command R.F32) := do
  let bit ← arg args 0 "clear needs a frame bit such as 12:0x01"
  return .clear bit (← R.hold args[1]? none)

/-- `lcd`, of the main screen by default. -/
def parseLcd (args : List Chars) : Except Chars (Command R.F32) :=
  match args.head? with
  | none => .ok (.lcd .main)
  | some s =>
    match Screen.parse s with
    | some screen => .ok (.lcd screen)
    | none => .error (chars "lcd takes main or jog")

/-- `setting`: all of them, or one with its value. -/
def parseSetting (args : List Chars) : Except Chars (Command R.F32) :=
  match args with
  | [] => .ok (.setting none)
  | [name, value] => .ok (.setting (some (lower name, value)))
  | _ => .error (chars "setting takes a name and a value, or nothing to list them")

/-- `encoder`, of which there is one. -/
def parseEncoder (args : List Chars) : Steps Chars (Command R.F32) :=
  match args with
  | [name, n] =>
    if sameWord name "beatloop" then return .encoder (← R.detents n)
    else throw (chars "encoder takes beatloop and a number of detents")
  | _ => throw (chars "encoder takes beatloop and a number of detents")

/-- The knob that a word names. -/
def knobOf (word : Option Chars) : Except Chars Knob :=
  if word = some (chars "vinyl") then .ok .vinylSpeed
  else if word = some (chars "jog_adjust") then .ok .jogAdjust
  else .error (chars "knob takes vinyl or jog_adjust, then a position from 0 to 1")

/-- `knob`, at a fraction of its way. -/
def parseKnob (args : List Chars) : Except Chars (Command R.F32) := do
  let knob ← knobOf (first args)
  return .knob knob (← R.fraction (← arg args 1 "knob needs a position from 0 to 1"))

/-- `direction`, in its three positions. -/
def parseDirection (args : List Chars) : Except Chars (Command R.F32) :=
  if first args = some (chars "fwd") then .ok (.direction .forward)
  else if first args = some (chars "rev") then .ok (.direction .reverse)
  else if first args = some (chars "slip_rev") then .ok (.direction .slipReverse)
  else .error (chars "direction takes fwd, rev or slip_rev")

/-! ## The grammar -/

/-- A verb's parser, of the line and the words behind the verb. -/
abbrev VerbParser := Chars → List Chars → Steps Chars (Command R.F32)

/-- `VERBS`. -/
def verbs : List (Chars × R.VerbParser) :=
  [(chars "hello", fun _ _ => pure .hello),
    (chars "buttons", fun _ _ => pure .buttons),
    (chars "lamps", fun _ _ => pure .lamps),
    (chars "state", fun _ _ => pure .state),
    (chars "press", fun _ a => liftM (R.parsePress a)),
    (chars "hold", fun _ a => return .press (← arg a 0 "hold needs a button") none),
    (chars "clear", fun _ a => liftM (R.parseClear a)),
    (chars "touch", fun _ a => liftM (R.parseTouch a)),
    (chars "release", fun _ a => liftM (R.parseRelease a)),
    (chars "rotary", fun _ a => R.parseRotary a),
    (chars "tempo", fun _ a =>
      return .tempo (← R.fraction (← arg a 0 "tempo needs a position from 0 to 1"))),
    (chars "tilt", fun _ _ => pure .tilt),
    (chars "lcd", fun _ a => liftM (R.parseLcd a)),
    (chars "shot", fun _ _ => pure .shot),
    (chars "wait", fun _ a => R.parseWait a),
    (chars "watch", fun _ a => return .watch (← R.parseTopic a)),
    (chars "unwatch", fun _ a => return .unwatch (← R.parseUnwatch a)),
    (chars "sh", fun line _ => return .sh (← shCommand line)),
    (chars "mods", fun line a => return .mods (← R.parseMods line a)),
    (chars "jog", fun _ a => return .jog (← R.parseJog a)),
    (chars "media", fun line a => return .media (← R.parseMedia line a)),
    (chars "setting", fun _ a => liftM (R.parseSetting a)),
    (chars "encoder", fun _ a => R.parseEncoder a),
    (chars "knob", fun _ a => liftM (R.parseKnob a)),
    (chars "direction", fun _ a => liftM (R.parseDirection a)),
    (chars "restart", fun _ _ => pure .restart),
    (chars "reset", fun _ _ => pure .reset),
    (chars "quit", fun _ _ => pure .quit)]

/-- `Command::parse`. -/
def parse (line : Chars) : Steps Chars (Command R.F32) :=
  match splitWhitespace line with
  | [] => throw (chars "the request is empty")
  | word :: args =>
    match R.verbs.find? fun v => v.1 = lower word with
    | none => throw (R.debug (lower word) ++ chars " is not a command")
    | some v => v.2 line args

end Rust

end CdjEmu.Request
