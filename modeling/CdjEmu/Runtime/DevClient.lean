/-
  THE DEV CLIENT — guest jobs, the threads that start them, and the one thread that reads devd's
  answers.

  `start` takes the lock once: it writes its line and enters the job into the table in one section.
  Everything before that (the checks, the look at `up`, the number) happens outside the lock, and
  any number of callers may be anywhere in it.  The reader takes the lock for each line, and once
  when the connection is gone; only it sends events.

  Each step below is one such section, or one access to an atomic.  A job's channel is the pair of
  what has been sent and not taken (`queue`) and what has been taken (`taken`); an event for a job
  whose `Job` is gone is not delivered.  `heard` lists the job lines that devd sent; no step reads
  it.
-/
import CdjEmu.Lib.Machine
import CdjEmu.Runtime.DevProtocol

namespace CdjEmu.Dev

open Text

/-! ## The program -/

/-- How far a `Job` has come: held by its owner, inside `drop` (the kill is written), or gone. -/
inductive Phase where
  | held
  | dropping
  | gone
  deriving DecidableEq

structure Job where
  id : Nat
  queue : List JobEvent
  taken : List JobEvent
  ended : Bool
  phase : Phase

/-- All that has been delivered. -/
def Job.events (j : Job) : List JobEvent := j.taken ++ j.queue

/-- `tx.send`, which fails when the receiver is gone. -/
def Job.send (e : JobEvent) (j : Job) : Job :=
  if j.phase = .gone then j else { j with queue := j.queue ++ [e] }

/-- `Job::take`. -/
def Job.take (j : Job) : Job :=
  { j with
    queue := []
    taken := j.taken ++ j.queue
    ended := j.ended || j.queue.any fun e => !e.isOut }

/-- How far a call of `start` has come. -/
inductive Stage where
  | idle
  /-- The command is accepted. -/
  | checked (command : Str)
  /-- devd is up. -/
  | seen (command : Str)
  /-- The job has its number. -/
  | numbered (id : Nat) (command : Str)

/-- Where the reader thread is. -/
inductive Reader where
  | idle
  | connecting
  /-- The ping is written, and the writer is not yet shared. -/
  | opened (conn : Nat)
  | reading (conn : Nat)
  /-- The stream has ended, and the jobs are not yet told. -/
  | closing
  deriving DecidableEq

structure Client where
  /-- The connection whose write half is shared. -/
  writer : Option Nat
  /-- The jobs by number. -/
  table : List (Nat × Nat)
  up : Bool
  stop : Bool
  nextId : Nat
  reader : Reader
  conns : Nat
  /-- What has been written, and on which connection. -/
  wire : List (Nat × Bytes)
  caller : Nat → Stage
  job : Nat → Job
  /-- How many jobs there are. -/
  made : Nat
  heard : List (Nat × JobEvent)

/-- How a `write_all` ends: with all of the line, or with an error after its first `n` bytes. -/
inductive Wrote where
  | all
  | short (n : Nat)
  deriving DecidableEq

namespace Client

variable (c : Client)

def init : Client where
  writer := none
  table := []
  up := false
  stop := false
  nextId := 1
  reader := .idle
  conns := 0
  wire := []
  caller := fun _ => .idle
  job := fun _ => ⟨0, [], [], false, .gone⟩
  made := 0
  heard := []

/-- `line` is written on the shared connection, if there is one. -/
def write (line : Bytes) (w : Wrote) : Client :=
  match c.writer, w with
  | none, _ => c
  | some conn, .all => { c with wire := c.wire ++ [(conn, line)] }
  | some conn, .short n => { c with wire := c.wire ++ [(conn, line.take n)] }

/-- The table without a number. -/
def remove (id : Nat) : Client := { c with table := c.table.filter fun p => p.1 ≠ id }

/-- `start` under the lock: write the line, enter the job. -/
def register (n id : Nat) (command : Str) (w : Wrote) : Client :=
  let c := { c with caller := Function.update c.caller n .idle }
  match c.writer with
  | none => c
  | some _ =>
    let c := c.write (execBody id command ++ [newline]) w
    match w with
    | .short _ => c
    | .all => { c with
        table := (id, c.made) :: c.table.filter fun p => p.1 ≠ id
        job := Function.update c.job c.made ⟨id, [], [], false, .held⟩
        made := c.made + 1 }

/-- `Job::kill`. -/
def kill (j : Nat) (w : Wrote) : Client :=
  if (c.job j).ended then c else c.write (killBody (c.job j).id ++ [newline]) w

/-- `lose_all`. -/
def loseAll : Client :=
  { c with
    job := c.table.foldl (fun job p => Function.update job p.2 ((job p.2).send .lost)) c.job
    table := [] }

/-- A line of a job: its event goes to the job of that number, which is done
    unless the line is output. -/
def jobLine (id : Nat) (e : JobEvent) : Client :=
  let job := match c.table.lookup id with
    | some j => Function.update c.job j ((c.job j).send e)
    | none => c.job
  let c := { c with job := job, heard := c.heard ++ [(id, e)] }
  if e.isOut then c else c.remove id

/-- `on_line`. -/
def onLine (buf : Bytes) : Client :=
  match readLine buf with
  | some .hello => { c.loseAll with up := true }
  | some .pong => { c with up := true }
  | some (.job id e) => c.jobLine id e
  | none => c

end Client

inductive Event where
  /-- A caller enters `start`, loads the number and checks the command. -/
  | begin (n : Nat) (command : Str)
  /-- It looks at `up`. -/
  | look (n : Nat)
  /-- It takes a number. -/
  | number (n : Nat)
  /-- It writes and registers, under the lock. -/
  | register (n : Nat) (w : Wrote)
  | take (j : Nat)
  | kill (j : Nat) (w : Wrote)
  /-- The two sections of `Job`'s `drop`. -/
  | dropKill (j : Nat) (w : Wrote)
  | dropRemove (j : Nat)
  /-- The reader's loop: it has looked at `stop`; it could not connect; it has connected and written
      `ping`; it shares the writer; it handles a line; the stream has ended; it tells the jobs. -/
  | retry
  | connectFailed
  | connected
  | publish
  | line (buf : Bytes)
  | eof
  | lose
  /-- `DevClient`'s `drop`. -/
  | close

/-- The client's machine. -/
def devClient : Machine Client Event where
  step c
    | .begin n command =>
      match c.caller n with
      | .idle =>
        if c.stop then none
        else match checkCommand c.nextId command with
          | .ok _ => some { c with caller := Function.update c.caller n (.checked command) }
          | .error _ => some c
      | _ => none
    | .look n =>
      match c.caller n with
      | .checked command =>
          some { c with
            caller := Function.update c.caller n (if c.up then .seen command else .idle) }
      | _ => none
    | .number n =>
      match c.caller n with
      | .seen command => some { c with
          nextId := (c.nextId + 1) % 2 ^ 32
          caller := Function.update c.caller n (.numbered c.nextId command) }
      | _ => none
    | .register n w =>
      match c.caller n with
      | .numbered id command => some (c.register n id command w)
      | _ => none
    | .take j =>
      if j < c.made ∧ (c.job j).phase = .held then
        some { c with job := Function.update c.job j (c.job j).take }
      else none
    | .kill j w => if j < c.made ∧ (c.job j).phase = .held then some (c.kill j w) else none
    | .dropKill j w =>
      if j < c.made ∧ (c.job j).phase = .held then
        some { c.kill j w with job := Function.update c.job j { c.job j with phase := .dropping } }
      else none
    | .dropRemove j =>
      if j < c.made ∧ (c.job j).phase = .dropping then
        some { c.remove (c.job j).id with
          job := Function.update c.job j { c.job j with phase := .gone } }
      else none
    | .retry =>
      if c.reader = .idle ∧ c.stop = false then some { c with reader := .connecting } else none
    | .connectFailed => if c.reader = .connecting then some { c with reader := .idle } else none
    | .connected =>
      if c.reader = .connecting then
        some { c with
          reader := .opened c.conns
          conns := c.conns + 1
          wire := c.wire ++ [(c.conns, pingBody ++ [newline])] }
      else none
    | .publish =>
      match c.reader with
      | .opened conn => some { c with writer := some conn, reader := .reading conn }
      | _ => none
    | .line buf =>
      match c.reader with
      | .reading _ => some (c.onLine buf)
      | _ => none
    | .eof =>
      match c.reader with
      | .reading _ => some { c with up := false, reader := .closing }
      | _ => none
    | .lose => if c.reader = .closing then some { c.loseAll with writer := none, reader := .idle }
        else none
    | .close => some { c with stop := true, writer := none }

end CdjEmu.Dev
