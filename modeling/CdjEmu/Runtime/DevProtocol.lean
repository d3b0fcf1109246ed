/-
  THE LINES BETWEEN THE HOST AND DEVD — what `DevClient` writes, and how it reads what devd answers.

  The host writes `exec`, `kill` and `ping`; `start` checks a command before it writes it
  (`checkCommand`): it is one line, and the line fits into devd's buffer.  devd answers with
  `hello`, `pong` and the three kinds of job line; `parse` reads them from a text whose octets may
  have been anything (`String::from_utf8_lossy`).
-/
import CdjEmu.Lib.Digits
import CdjEmu.Lib.Split

namespace CdjEmu.Dev

open Text

/-- `' '`. -/
def space : UInt8 := 32

/-! ## From the host -/

/-- The longest line devd reads; it drops a longer one unanswered. -/
def devdLineMax : Nat := 4095

/-- `exec <id> <command>`, without its end. -/
def execBody (id : Nat) (command : Str) : Bytes :=
  bytes "exec " ++ decimal id ++ space :: command.bytes

/-- `kill <id>`, without its end. -/
def killBody (id : Nat) : Bytes := bytes "kill " ++ decimal id

def pingBody : Bytes := bytes "ping"

/-- What `start` asks of a command before it looks at the connection: the line it
    will write, or why not. -/
def checkCommand (id : Nat) (command : Str) : Except Bytes Bytes :=
  if newline ∈ command.bytes then .error (bytes "a guest command is one line")
  else
    let line := execBody id command ++ [newline]
    if devdLineMax < line.length then
      .error (bytes "a guest command is at most " ++ decimal
        (devdLineMax - (line.length - command.bytes.length)) ++
        bytes " bytes")
    else .ok line

theorem checkCommand_eq_ok {id : Nat} {command : Str} {line : Bytes} :
    checkCommand id command = .ok line ↔
    newline ∉ command.bytes ∧ line = execBody id command ++ [newline] ∧
    line.length ≤ devdLineMax := by
  unfold checkCommand
  by_cases hline : newline ∈ command.bytes
  · rw [if_pos hline]
    exact ⟨fun h => (by cases h), fun h => absurd hline h.1⟩
  · rw [if_neg hline]
    dsimp only
    by_cases hlong : devdLineMax < (execBody id command ++ [newline]).length
    · rw [if_pos hlong]
      refine ⟨fun h => (by cases h), ?_⟩
      rintro ⟨-, rfl, h⟩
      omega
    · rw [if_neg hlong, Except.ok.injEq]
      refine ⟨?_, fun h => h.2.1.symm⟩
      rintro rfl
      exact ⟨hline, rfl, by omega⟩

/-! ## From devd -/

/-- What a job reports. -/
inductive JobEvent where
  /-- One line of output. -/
  | out (text : Bytes)
  /-- The job ended with this exit code, or 128 plus a signal number. -/
  | exit (status : Int)
  /-- The job did not start. -/
  | error (why : Bytes)
  /-- The connection to devd closed, or devd restarted, while the job ran. -/
  | lost
  deriving DecidableEq

/-- Whether the job goes on. -/
def JobEvent.isOut : JobEvent → Bool
  | .out _ => true
  | _ => false

inductive Line where
  | hello
  | pong
  | job (id : Nat) (event : JobEvent)
  deriving DecidableEq

/-- What the verb of a job line makes of its text. -/
def jobEvent (verb text : Bytes) : Option JobEvent :=
  if verb = bytes "out" then some (.out text)
  else if verb = bytes "exit" then (parseI32 (trim text)).map .exit
  else if verb = bytes "error" then some (.error text)
  else none

def parse (line : Bytes) : Option Line :=
  if (bytes "hello ").isPrefixOf line ∨ line = bytes "hello" then some .hello
  else if line = bytes "pong" then some .pong
  else do
    let (verb, rest) ← splitOnce space line
    let (id, text) := (splitOnce space rest).getD (rest, [])
    let id ← parseUnsigned (2 ^ 32) id
    return .job id (← jobEvent verb text)

/-- A line as `read_until` gives it: decoded, without the newlines at its end. -/
def readLine (buf : Bytes) : Option Line := parse ((lossy buf).rdropWhile (· = newline))

theorem jobEvent_ne_lost (verb text : Bytes) : jobEvent verb text ≠ some .lost := by
  unfold jobEvent
  intro h
  split at h
  · cases h
  · split at h
    · obtain ⟨n, -, hn⟩ := Option.map_eq_some_iff.mp h
      cases hn
    · split at h <;> cases h

/-- A line of a job carries no `lost`: that one the client makes up itself. -/
theorem parse_ne_lost {line : Bytes} {id : Nat} : parse line ≠ some (.job id .lost) := by
  unfold parse
  intro h
  split at h
  · cases h
  · split at h
    · cases h
    · simp only [Option.bind_eq_bind, Option.bind_eq_some_iff] at h
      obtain ⟨⟨verb, rest⟩, -, id', -, event, hevent, h⟩ := h
      cases h
      exact jobEvent_ne_lost _ _ hevent

end CdjEmu.Dev
