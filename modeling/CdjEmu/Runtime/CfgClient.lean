/-
  THE CFG CLIENT — callers, the reader thread and the ping thread over one shared state.

  A step is one section under the client's lock, with the writes made in it.  The reader thread
  connects, handles one line after another in two sections each, and clears the state when the
  connection ends; the ping thread writes while no line has arrived.  `request_mod_log` counts its
  request in one section and sends it in another, so it too is two steps.

  The lines are those that `next_line` returns, and any line can come at any time.  The environment
  also decides which writes fail and after how many bytes (`Wrote`), and whether the stream can be
  cloned.
-/
import CdjEmu.Lib.Machine
import CdjEmu.Runtime.CfgMessages

namespace CdjEmu.Runtime

/-! ## Commands -/

inductive Command where
  | usbAttach
  | usbDetach
  | pcLink (on : Bool)
  | setParam (name value : Chars)
  | getParam (name : Chars)

/-- The line of a command; `none` when its arguments are refused. -/
def Command.line : Command → Option Chars
  | .usbAttach => some (chars "usb attach\n")
  | .usbDetach => some (chars "usb detach\n")
  | .pcLink on => some (if on then chars "pc_link on\n" else chars "pc_link off\n")
  | .setParam name value =>
    if ' ' ∈ name ∨ '\n' ∈ value then none
    else some (chars "set " ++ name ++ chars " " ++ value ++ chars "\n")
  | .getParam name => if ' ' ∈ name then none else some (chars "get " ++ name ++ chars "\n")

/-- The line that asks for a mod's journal. -/
def logLine (name : Chars) : Chars := chars "mods log " ++ (name ++ chars "\n")

/-- The names `request_mod_log` takes. -/
def askable (name : Chars) : Bool := name ≠ [] ∧ name.all fun c => !Chars.isWhitespace c

def status : Chars := chars "mods status\n"

namespace Shared

variable (s : Shared)

/-- A connection is established. -/
def connected (conn : Nat) : Shared :=
  { s with
    writer := some conn
    guestReady := false
    pending :=
      if s.pending.any (·.text = status) then s.pending else s.pending ++ [⟨status, none⟩] }

/-- The connection has closed. -/
def disconnected : Shared :=
  { s with
    writer := none
    guestReady := false
    pcLinkState := none
    pcLinkFailures := 0
    mods := .unknown
    modsPartial := none
    modLogsPartial := fun _ => none
    modLogs := fun _ => none }

/-- Forget the mods report and journals of the boot that ended. -/
def newBoot : Shared :=
  { s with
    mods := .unknown
    modsPartial := none
    modLogsPartial := fun _ => none
    modLogs := fun _ => none }

/-- Count a request for the journal of `name`. -/
def countModLog (name : Chars) : Shared :=
  let entry := (s.modLogsPartial name).getD (0, [])
  { s with
    modLogs := Function.update s.modLogs name none
    modLogsPartial := Function.update s.modLogsPartial name (some (wrappingSucc entry.1, entry.2)) }

end Shared

/-! ## The client -/

/-- The reader thread: connecting, reading from a connection, or about to run a line's handler. -/
inductive Reader where
  | idle
  | reading (conn : Nat)
  | handling (conn : Nat) (line : Chars)
  deriving DecidableEq

structure Client where
  shared : Shared
  reader : Reader
  /-- How many connections there have been; they are numbered from 0. -/
  conns : Nat
  /-- What has been written on each connection. -/
  wire : Nat → List Sent
  /-- The calls of `request_mod_log` that have counted their request and not sent it. -/
  asking : List Chars
  /-- The commands that `send_line` has accepted. -/
  accepted : List Chars

inductive Client.Event where
  | command (c : Command) (w : Wrote)
  | ask (name : Chars)
  | send (name : Chars) (w : Wrote)
  | connect (cloned : Bool)
  | line (text : Chars) (luck : List Wrote)
  | handle
  | disconnect
  | ping (w : Wrote)
  | newBoot

namespace Client

variable (c : Client)

/-- `sent` has been written on the connection `writer`. -/
def put (writer : Option Nat) (sent : List Sent) : Client :=
  match writer with
  | some conn => { c with wire := Function.update c.wire conn (c.wire conn ++ sent) }
  | none => c

/-- `send_line`, which accepts every line. -/
def sendLine (text : Chars) (w : Wrote) : Client :=
  let r := c.shared.sendLine w ⟨text, some c.accepted.length⟩
  { c.put c.shared.writer r.2 with shared := r.1, accepted := c.accepted ++ [text] }

/-- A line has arrived: release the queue, unless the line is blank. -/
def lineArrived (conn : Nat) (text : Chars) (luck : List Wrote) : Client :=
  if Chars.trim text = [] then { c with reader := .handling conn text }
  else
    let r := c.shared.flushPending luck
    { c.put c.shared.writer r.2 with shared := r.1, reader := .handling conn text }

/-- The line's handler. -/
def handle (conn : Nat) (text : Chars) : Client :=
  { c with
    shared := if Chars.trim text = [] then c.shared else c.shared.dispatch text
    reader := .reading conn }

/-- One attempt of the ping thread. -/
def ping (w : Wrote) : Client :=
  if c.shared.guestReady then c else c.put c.shared.writer [w.sent ⟨chars "ping\n", none⟩]

def init : Client where
  shared := .fresh
  reader := .idle
  conns := 0
  wire := fun _ => []
  asking := []
  accepted := []

end Client

/-- The client's machine. -/
def client : Machine Client Client.Event where
  step c
    | .command cmd w =>
      match cmd.line with
      | some text => some (c.sendLine text w)
      | none => some c
    | .ask name =>
      if askable name then
        some { c with shared := c.shared.countModLog name, asking := c.asking ++ [name] }
      else some c
    | .send name w =>
      if name ∈ c.asking then
        some ({ c with asking := c.asking.erase name }.sendLine (logLine name) w) else none
    | .connect cloned =>
      match c.reader with
      | .idle =>
        some { c with
          shared := if cloned then c.shared.connected c.conns else c.shared
          reader := .reading c.conns
          conns := c.conns + 1 }
      | _ => none
    | .line text luck =>
      match c.reader with
      | .reading conn => some (c.lineArrived conn text luck)
      | _ => none
    | .handle =>
      match c.reader with
      | .handling conn text => some (c.handle conn text)
      | _ => none
    | .disconnect =>
      match c.reader with
      | .reading _ => some { c with shared := c.shared.disconnected, reader := .idle }
      | _ => none
    | .ping w => some (c.ping w)
    | .newBoot => some { c with shared := c.shared.newBoot }

/-! ## What a section can do -/

theorem Shared.sendLine_cases (s : Shared) (w : Wrote) (cmd : Cmd) :
    (s.guestReady = true ∧ s.writer ≠ none ∧ w = .all ∧ s.sendLine w cmd = (s, [w.sent cmd])) ∨
    (s.guestReady = true ∧ s.writer ≠ none ∧ w ≠ .all ∧ s.sendLine w cmd =
      ({ s with writer := none, guestReady := false, pending := s.pending ++ [cmd] },
        [w.sent cmd])) ∨
    (¬ (s.guestReady = true ∧ s.writer ≠ none) ∧
      s.sendLine w cmd = ({ s with pending := s.pending ++ [cmd] }, [])) := by
  unfold Shared.sendLine
  split
  · rename_i h
    cases w with
    | all => exact .inl ⟨h.1, h.2, rfl, rfl⟩
    | short n => exact .inr (.inl ⟨h.1, h.2, (by simp), rfl⟩)
  · rename_i h
    exact .inr (.inr ⟨h, rfl⟩)

theorem Shared.flushPending_cases (s : Shared) (luck : List Wrote) :
    (s.guestReady = true ∧ s.flushPending luck = (s, [])) ∨
    (s.guestReady = false ∧ s.writer = none ∧
      s.flushPending luck = ({ s with guestReady := true, pending := [] }, [])) ∨
    (s.guestReady = false ∧ s.writer ≠ none ∧
      s.flushPending luck =
        ({ s with guestReady := true, pending := [] }, writeQueue luck s.pending)) := by
  unfold Shared.flushPending
  split
  · rename_i h
    exact .inl ⟨h, rfl⟩
  · rename_i h
    dsimp only
    split
    · rename_i hw
      exact .inr (.inl ⟨by simpa using h, hw, rfl⟩)
    · rename_i hw
      exact .inr (.inr ⟨by simpa using h, hw, rfl⟩)

@[simp] theorem Client.put_wire (c : Client) (writer : Option Nat) (sent : List Sent) (conn : Nat) :
    (c.put writer sent).wire conn = c.wire conn ++ if writer = some conn then sent else [] := by
  cases writer with
  | none => simp [Client.put]
  | some n =>
    by_cases h : conn = n
    · subst h
      simp [Client.put]
    · simp [Client.put, Function.update_of_ne h, Ne.symm h]

@[simp] theorem Client.put_conns (c : Client) (writer : Option Nat) (sent : List Sent) :
    (c.put writer sent).conns = c.conns := by cases writer <;> rfl

@[simp] theorem Client.put_shared (c : Client) (writer : Option Nat) (sent : List Sent) :
    (c.put writer sent).shared = c.shared := by cases writer <;> rfl

@[simp] theorem Client.put_accepted (c : Client) (writer : Option Nat) (sent : List Sent) :
    (c.put writer sent).accepted = c.accepted := by cases writer <;> rfl

@[simp] theorem Client.put_asking (c : Client) (writer : Option Nat) (sent : List Sent) :
    (c.put writer sent).asking = c.asking := by cases writer <;> rfl

@[simp] theorem Client.put_reader (c : Client) (writer : Option Nat) (sent : List Sent) :
    (c.put writer sent).reader = c.reader := by cases writer <;> rfl

/-- The queue, the writer and whether the guest is heard: what the handlers leave alone. -/
structure Shared.SameQueue (s t : Shared) : Prop where
  writer : t.writer = s.writer
  guestReady : t.guestReady = s.guestReady
  pending : t.pending = s.pending

theorem Shared.sameQueue_dispatch (s : Shared) (line : Chars) : s.SameQueue (s.dispatch line) := by
  unfold Shared.dispatch
  cases h : messages.findSome? fun m => (Chars.strip m.1 (Chars.trim line)).map fun rest =>
    m.2 s rest with
  | none => exact ⟨rfl, rfl, rfl⟩
  | some t =>
    obtain ⟨m, hm, ht⟩ := List.exists_of_findSome?_eq_some h
    obtain ⟨rest, -, rfl⟩ := Option.map_eq_some_iff.mp ht
    have hall : ∀ m ∈ messages, s.SameQueue (m.2 s rest) := by
      unfold messages
      simp only [List.forall_mem_cons, List.not_mem_nil, false_implies, implies_true, and_true]
      refine ⟨⟨rfl, rfl, rfl⟩, ?_, ?_, ?_, ?_, ?_, ?_, ?_, ?_⟩
      · unfold Shared.onLatency
        dsimp only
        split <;> exact ⟨rfl, rfl, rfl⟩
      · unfold Shared.onParam
        split <;> exact ⟨rfl, rfl, rfl⟩
      · unfold Shared.onLogBegin
        split <;> exact ⟨rfl, rfl, rfl⟩
      · unfold Shared.onLog
        dsimp only
        (repeat' split) <;> exact ⟨rfl, rfl, rfl⟩
      · unfold Shared.onLogEnd
        dsimp only
        (repeat' split) <;> exact ⟨rfl, rfl, rfl⟩
      · unfold Shared.onMods
        (repeat' split) <;> exact ⟨rfl, rfl, rfl⟩
      · unfold Shared.onMod
        split <;> exact ⟨rfl, rfl, rfl⟩
      · unfold Shared.onPcLink
        dsimp only
        (repeat' split) <;> exact ⟨rfl, rfl, rfl⟩
    exact hall m hm

end CdjEmu.Runtime
