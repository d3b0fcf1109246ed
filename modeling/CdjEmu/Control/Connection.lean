/-
  A CONTROL CONNECTION — requests, replies and events between a client and the window.

  The client sends a line and reads until it has the reply; the events on the way are kept for
  `next_event`.  The server's thread takes up one request at a time and waits for its reply: from
  the window, through the `Responder`, or its own when the deadline is over.  Whoever comes first
  sets `done` and queues the reply, under one lock.  Events are queued by the window at any time,
  and one thread writes what is queued.

  PROGRAM.  What the server queues goes through the `Socket` of `Probe`: a bounded send buffer, the
  writer thread's calls of `write`, and the probe that sets the blocking flag they share.  So
  `connection` is that socket with a client on one side and `serve` with the window on the other.
  `ask_window` holds the lock of `done` while it probes, so nobody answers in between (`Locked`);
  events may still be queued.  A write that fails ends the writer thread and shuts the connection
  down: what is queued then is lost, the client reads the rest and then the end of the stream, and
  so does `serve`.

  What the client has not yet taken is `ahead`: what has arrived, the send buffer, and the rest of
  the line that the writer has begun.  The client's reader uses `part` and `buffer` only; its
  `transit` stays empty.

  Commands and their parser are parameters, and so is the JSON library.  `taken`, `lines`, `log`,
  `results` and `seen` are history, except that the number of the next request is the length of
  `taken`.

  SPECIFICATION.  `Polite` is what is asked of those who send, `Stays` that the client stays, and
  `Kept` that no write is called into a full send buffer while the probe holds the flag.
-/
import CdjEmu.Control.Probe
import CdjEmu.Lib.Json
import CdjEmu.Lib.LineReader
import CdjEmu.Lib.Machine

namespace CdjEmu.Connection

open Machine Text

/-- `MAX_LINE`. -/
def maxLine : Nat := 4096

/-- `Responder`'s error when it is dropped, the connection's own when nobody answered, and the one
    for a long line. -/
def droppedText : Bytes := bytes "the window dropped the request"

def lateText : Bytes := bytes "the window did not answer in time"

def tooLongText : Bytes := bytes "the request line is too long"

/-! ## The state -/

/-- What is queued for the client: the reply to a request, or an event.  It is the log's entry; the
    octets are in the socket's queue. -/
inductive Item (V : Type) where
  | reply (n : Nat) (v : V)
  | event (v : V)

/-- Where the client's thread is. -/
inductive Caller where
  | idle
  | requesting
  | listening
  deriving DecidableEq

/-- Where the connection's thread is: before the next line, in `ask_window`,
    or it has left `serve`. -/
inductive Server where
  | reading
  | asking (n : Nat)
  | gone
  deriving DecidableEq

/-- A `Responder`: there is none, the window has it, or its `send` is done and it
    is about to be dropped. -/
inductive Responder where
  | none
  | held
  | sent
  deriving DecidableEq

structure State (V : Type) where
  caller : Caller
  /-- The client's end; `part` is its `partial`. -/
  reader : LineReader UInt8
  events : List V
  /-- The server's end. -/
  requests : LineReader UInt8
  server : Server
  done : Nat → Bool
  responder : Nat → Responder
  /-- What the writer thread and the probe share. -/
  socket : Control.Socket
  /-- The requests that the client sent, and the lines that the server took up. -/
  lines : List Bytes
  taken : List Bytes
  log : List (Item V)
  /-- What `request` returned, `none` for an error, and what `next_event` returned. -/
  results : List (Option V)
  seen : List V

inductive Event (V : Type) where
  /-- The client calls `request` or `next_event`, and reads what has arrived;
      nothing arrives in time. -/
  | request (line : Str)
  | nextEvent
  | read
  | timeout
  | arrive (k : Nat)
  /-- The stream has ended, and all of it is read. -/
  | eof
  /-- The server's thread. -/
  | arriveRequest (k : Nat)
  | receive
  | wake
  | deadline
  /-- The window. -/
  | send (n : Nat) (v : V)
  | drop (n : Nat)
  | emit (v : V)
  /-- A step of the writer thread or of `peer_closed`. -/
  | wire (a : Control.Event)

def State.init {V : Type} : State V where
  caller := .idle
  reader := .empty
  events := []
  requests := .empty
  server := .reading
  done := fun _ => false
  responder := fun _ => .none
  socket := .init
  lines := []
  taken := []
  log := []
  results := []
  seen := []

/-! ## The program -/

namespace State

variable {V : Type} (s : State V)

/-- `ask_window` returns, and `serve` goes on to the next line. -/
def resume : State V := { s with server := .reading, socket := { s.socket with asker := .idle } }

/-- The lock of the `n`-th request's `done` is held: `peer_closed` runs under it. -/
def Locked (n : Nat) : Prop := s.server = .asking n ∧ s.socket.asker ≠ .waiting

instance (n : Nat) : Decidable (s.Locked n) := inferInstanceAs (Decidable (_ ∧ _))

/-- The request that `ask_window` has is not answered. -/
def pending : Bool :=
  match s.server with
  | .asking n => !s.done n
  | _ => false

/-- The steps of the writer thread and of the probe, which looks at `done` first.  The others of the
    socket belong to what is queued, taken, asked and answered here. -/
def Wired : Control.Event → Prop
  | .next | .write _ | .copy _ | .peek _ | .setBlocking => True
  | .setNonblocking _ => s.pending = true
  | .send _ | .drain _ | .ask | .answered => False

instance : (a : Control.Event) → Decidable (s.Wired a)
  | .next | .write _ | .copy _ | .peek _ | .setBlocking => .isTrue trivial
  | .setNonblocking _ => inferInstanceAs (Decidable (s.pending = true))
  | .send _ | .drain _ | .ask | .answered => .isFalse id

/-- The socket has moved.  `serve` returns when the probe finds that the client has gone. -/
def moved (k : Control.Socket) : State V :=
  { s with socket := k, server := if k.asker = .gone then .gone else s.server }

/-- The client finds the end of the stream: what it has is no line. -/
def ended : State V :=
  { s with
    caller := .idle
    reader := { s.reader with part := s.reader.part ++ s.reader.buffer, buffer := [] }
    results := if s.caller = .requesting then s.results ++ [none] else s.results }

end State

section Program

variable (J : Json)

/-- `crate::error`. -/
def error (why : Bytes) : J.Value := J.object [("ok", J.bool false), ("error", J.string why)]

namespace Item

variable {V : Type}

/-- The value in an item. -/
def value : Item V → V
  | .reply _ v => v
  | .event v => v

/-- The reply, with the number of its request. -/
def reply? : Item V → Option (Nat × V)
  | .reply n v => some (n, v)
  | .event _ => none

def event? : Item V → Option V
  | .reply _ _ => none
  | .event v => some v

end Item

/-- The line of an item. -/
def Item.line (i : Item J.Value) : Bytes := J.text i.value

namespace State

variable (s : State J.Value)

/-- `EventSink::send`, which queues nothing when the writer thread has ended. -/
def sink (i : Item J.Value) : State J.Value :=
  { s with
    socket := s.socket.send (i.line J)
    log := if s.socket.writer = .failed then s.log else s.log ++ [i] }

/-- `Answered::answer`: the request gets this reply unless it has one. -/
def answer (n : Nat) (v : J.Value) : State J.Value :=
  if s.done n then s else { s.sink J (.reply n v) with done := Function.update s.done n true }

/-- What the client makes of a line. -/
def message (line : Bytes) : State J.Value :=
  match s.caller, J.parse line with
  | .requesting, some msg =>
    if (J.get msg "event").isSome then { s with events := s.events ++ [msg] }
    else { s with caller := .idle, results := s.results ++ [some msg] }
  | .requesting, none => { s with caller := .idle, results := s.results ++ [none] }
  | _, some msg => { s with caller := .idle, seen := s.seen ++ [msg] }
  | _, none => { s with caller := .idle }

variable {κ : Type} (parse : Bytes → Except Bytes κ)

/-- `serve` on a line that fits.  It returns when its own reply cannot be queued. -/
def serve (line : Bytes) : State J.Value :=
  if ¬ Valid line then { s with server := .gone }
  else if trim line = [] then s
  else match parse (trim line) with
    | .error e => { s.sink J (.reply s.taken.length (error J e)) with
        server := if s.socket.writer = .failed then .gone else s.server
        taken := s.taken ++ [line] }
    | .ok _ => { s with
        server := .asking s.taken.length
        done := Function.update s.done s.taken.length false
        responder := Function.update s.responder s.taken.length .held
        socket := { s.socket with asker := .waiting }
        taken := s.taken ++ [line] }

/-- `serve` on a line that is cut: the connection ends. -/
def cutOff (line : Bytes) : State J.Value :=
  if ¬ Valid line then { s with server := .gone }
  else
    { s.sink J (.reply s.taken.length (error J tooLongText)) with
      server := .gone, taken := s.taken ++ [line] }

/-- The next turn of `serve`'s loop, if the line is there.  Behind a shutdown the stream ends with
    what has arrived, and the last line may lack its newline. -/
def receive : Option (State J.Value) :=
  let long := { s with requests := { s.requests with buffer := s.requests.buffer.drop maxLine } }
  match splitOnce newline s.requests.buffer with
  | some (l, rest) =>
    if l.length < maxLine then
      some (({ s with requests := { s.requests with buffer := rest } }).serve J parse
        (l ++ [newline]))
    else some (long.cutOff J (s.requests.buffer.take maxLine))
  | none =>
    if maxLine ≤ s.requests.buffer.length then some (long.cutOff J (s.requests.buffer.take maxLine))
    else if s.socket.shut = false then none
    else if s.requests.buffer = [] then some { s with server := .gone }
    else some (({ s with requests := { s.requests with buffer := [] } }).serve J parse
      s.requests.buffer)

end State

variable {κ : Type} (parse : Bytes → Except Bytes κ)

/-- The two ends of the connection, over a socket whose send buffer holds `cap` octets. -/
def connection (cap : Nat) : Machine (State J.Value) (Event J.Value) where
  step s
    | .request line =>
      if s.caller = .idle then some { s with
        caller := .requesting
        requests := s.requests.post newline (trim line.bytes)
        lines := s.lines ++ [trim line.bytes] }
      else none
    | .nextEvent =>
      if s.caller = .idle then
        match s.events with
        | e :: events => some { s with events := events, seen := s.seen ++ [e] }
        | [] => some { s with caller := .listening }
      else none
    | .read =>
      if s.caller = .idle ∨ s.reader.buffer = [] then none
      else match s.reader.readUntil newline with
        | (none, r) => some { s with reader := r }
        | (some l, r) => some (({ s with reader := r }).message J (l ++ [newline]))
    | .timeout =>
      if s.caller = .listening ∧ s.reader.buffer = [] then some { s with caller := .idle } else none
    | .arrive k =>
      ((Control.socket cap).step s.socket (.drain k)).map fun socket => { s with
        socket := socket
        reader := { s.reader with buffer := s.reader.buffer ++ s.socket.buffer.take k } }
    | .eof =>
      if s.caller ≠ .idle ∧ s.socket.shut = true ∧ s.socket.buffer = [] ∧
          newline ∉ s.reader.buffer then
        some s.ended
      else none
    | .arriveRequest k => some { s with requests := s.requests.arrive k }
    | .receive => if s.server = .reading then s.receive J parse else none
    | .wake =>
      match s.server with
      | .asking n => if s.done n ∧ s.socket.asker = .waiting then some s.resume else none
      | _ => none
    | .deadline =>
      match s.server with
      | .asking n =>
        if s.done n ∨ s.socket.asker ≠ .waiting then none
        else some (s.answer J n (error J lateText)).resume
      | _ => none
    | .send n v =>
      if s.responder n = .held ∧ ¬ s.Locked n then
        some { s.answer J n v with responder := Function.update s.responder n .sent }
      else none
    | .drop n =>
      if s.responder n ≠ .none ∧ ¬ s.Locked n then
        some { s.answer J n (error J droppedText) with
          responder := Function.update s.responder n .none }
      else none
    | .emit v => some (s.sink J (.event v))
    | .wire a => if s.Wired a then ((Control.socket cap).step s.socket a).map s.moved else none

end Program

/-! ## What is sent -/

section Polite

variable (J : Json)

/-- How the client reads a value that was sent. -/
def readBack (v : J.Value) : Option J.Value := J.parse (J.text v ++ [newline])

/-- The text is one line, and the value that is read from it has the key `event` or has it not. -/
def Fits (event : Bool) (v : J.Value) : Prop :=
  newline ∉ J.text v ∧ (readBack J v).any (fun w => (J.get w "event").isSome = event) = true

/-- Requests are single lines and not blank; replies have no key `event`, and events have it. -/
def Polite : Event J.Value → Prop
  | .request line => newline ∉ trim line.bytes ∧ trim line.bytes ≠ []
  | .send _ v => Fits J false v
  | .emit v => Fits J true v
  | _ => True

/-- The client stays connected. -/
def Stays {V : Type} : Event V → Prop
  | .wire a => Control.Stays a
  | _ => True

/-- The client stays, and no `write` is called into a full send buffer while
    the probe holds the flag. -/
def Kept {V : Type} (cap : Nat) (s : State V) : Event V → Prop
  | .wire a => Control.Spared cap s.socket a
  | _ => True

/-- What an error reply may say. -/
def Failure {κ : Type} (parse : Bytes → Except Bytes κ) (why : Bytes) : Prop :=
  why = droppedText ∨ why = lateText ∨ why = tooLongText ∨ ∃ line, parse line = .error why

instance (event : Bool) (v : J.Value) : Decidable (Fits J event v) :=
  inferInstanceAs (Decidable (_ ∧ _))

instance (a : Event J.Value) : Decidable (Polite J a) := by
  cases a <;> (unfold Polite; infer_instance)

instance {V : Type} (a : Event V) : Decidable (Stays a) := by
  cases a <;> (unfold Stays; infer_instance)

instance {V : Type} (cap : Nat) (s : State V) (a : Event V) : Decidable (Kept cap s a) := by
  cases a <;> (unfold Kept; infer_instance)

end Polite

end CdjEmu.Connection
