/-
  GUEST COMMANDS — `sh` requests from their arrival to their reply.

  A request waits for devd, then its job runs, then it is answered.  `settle_sh` takes what each job
  has sent since the last pass and keeps a line while the output with it stays below the limit.  The
  test is made for each line on its own, so a line that is too long is left out and a shorter one
  behind it is kept.

  1. `Placed` — every request is in one place: it waits, it runs, or it has its answer (`places`);
     what a running command has kept, and what an answer says, is a function of what its own job was
     taken from (`Collects`, `Tells`).
  2. `Moves` — what a step does to those that wait and those that run.  The deadlines follow
     (`answered_in_time`).
  3. `startOf_iff_steady` — the kept output is the start of what was sent exactly when no line fits
     behind the first that did not.

  What a job's channel carries is `Dev.Job`; that it is lines and then at most one end is proved in
  Runtime/DevJobs.  The `kill` that is written for a job that ran out of time changes nothing here.

  4. **Specification** — `Right` says of a reply that it tells how its own job ended and holds the
     start of what that job sent, with the mark that something is missing where it is.
     `replies_right_iff` is about every run: at most one answer to each request, one within the two
     deadlines if the loop goes on, and a right one exactly when the job's lines are `Steady`.

  Requests are named by their order, and so are jobs; `asked`, `jobs` and `answers` are what has
  happened so far, and no step reads them.
-/
import CdjEmu.Lib.Machine
import CdjEmu.Runtime.DevClient
import CdjEmu.Runtime.QemuArgs

namespace CdjEmu.Sh

open Text Machine Function
open Dev (Job JobEvent)
open Qemu (decimalInt)

/-! ## The program -/

/-- In nanoseconds. -/
def seconds (n : Nat) : Nat := n * 1000000000

/-- How long a command waits for devd to come up. -/
def devdWait : Nat := seconds 20

/-- How long a command may run. -/
def shWait : Nat := seconds 30

/-- The most output that a reply carries. -/
def shOutputMax : Nat := 2 ^ 20

/-- A guest command that `sh` runs, and the output it has sent. -/
structure PendingSh where
  job : Nat
  deadline : Nat
  reply : Nat
  output : Bytes
  truncated : Bool

/-- A guest command waiting for devd to connect. -/
structure QueuedSh where
  command : Bytes
  deadline : Nat
  reply : Nat

/-- The reply of a command that ran. -/
structure ShReply where
  ok : Bool
  error : Option Bytes
  status : Option Int
  output : Bytes
  truncated : Bool
  deriving DecidableEq

/-- A reply to a client: an error, or what the command did. -/
inductive Answer where
  | error (why : Bytes)
  | ran (reply : ShReply)
  deriving DecidableEq

/-- Why a guest job ended. -/
def jobEnd : JobEvent → Bytes
  | .exit status => bytes "the command exited with status " ++ decimalInt status
  | .error why => bytes "the command did not start: " ++ why
  | .lost => bytes "the guest's devd stopped or restarted"
  | .out _ => bytes "the command is still running"

/-- A line of output. -/
def PendingSh.out (p : PendingSh) (line : Bytes) : PendingSh :=
  if p.output.length + line.length < shOutputMax then
    { p with output := p.output ++ line ++ [newline] }
  else { p with truncated := true }

/-- An event, and the end that was seen. -/
def PendingSh.event (s : PendingSh × Option JobEvent) : JobEvent → PendingSh × Option JobEvent
  | .out line => (s.1.out line, s.2)
  | other => (s.1, some other)

/-- The exit status in an end. -/
def exitStatus : Option JobEvent → Option Int
  | some (.exit status) => some status
  | _ => none

/-- Why a command did not succeed: none for status 0. -/
def why (status : Option Int) (stop : Option JobEvent) : Option Bytes :=
  if status = some 0 then none
  else match stop with
    | some stop => some (jobEnd stop)
    | none => some (bytes "the command ran longer than 30 s and was killed")

/-- The reply that ends a command, from its last event or from the time that ran out. -/
def PendingSh.answer (p : PendingSh) (stop : Option JobEvent) : ShReply where
  ok := (why (exitStatus stop) stop).isNone
  error := why (exitStatus stop) stop
  status := exitStatus stop
  output := p.output
  truncated := p.truncated

/-- The window's side of `sh`, with the requests, jobs and answers there have been.  A request is
    named by the order of its arrival, and a job by the order of its start. -/
structure Host where
  clock : Nat
  queued : List QueuedSh
  sh : List PendingSh
  job : Nat → Job
  /-- The commands that were asked for. -/
  asked : List Bytes
  /-- For each job, the request and the command it was started for. -/
  jobs : List (Nat × Bytes)
  answers : List (Nat × Answer)

/-- What a step finds: the connection to devd, if there is one, and whether devd is up; whether the
    worker is finished; how `start` ends for a request, with the job's number where it does; and the
    time, also when `begin_sh` reads it and when the step is over. -/
structure Found where
  dev : Option Bool
  finished : Bool
  start : Nat → Except Bytes Nat
  now : Nat
  begun : Nat → Nat
  later : Nat

namespace Host

variable (h : Host) (f : Found)

/-- A window that has served nobody. -/
def init : Host where
  clock := 0
  queued := []
  sh := []
  job := fun _ => ⟨0, [], [], false, .gone⟩
  asked := []
  jobs := []
  answers := []

/-- `reply.send`. -/
def send (r : Nat) (a : Answer) : Host := { h with answers := h.answers ++ [(r, a)] }

/-- `start_sh`: Developer Mode is needed, and then devd's own refusal is passed on. -/
def startSh (r : Nat) : Except Bytes Nat :=
  match f.dev with
  | none => .error (bytes "guest commands need Developer Mode")
  | some _ => f.start r

/-- Start the job of a request; one that cannot start comes back with the reason. -/
def beginSh (command : Bytes) (r : Nat) : Host × Option (Nat × Bytes) :=
  match startSh f r with
  | .error why => (h, some (r, why))
  | .ok id => ({ h with
      job := update h.job h.jobs.length ⟨id, [], [], false, .held⟩
      jobs := h.jobs ++ [(r, command)]
      sh := h.sh ++ [⟨h.jobs.length, f.begun r + shWait, r, [], false⟩] }, none)

/-- `start_sh_job`: a command that comes before devd is up waits in the queue. -/
def startShJob (command : Bytes) (r : Nat) : Host × Option (Nat × Bytes) :=
  let devdDown := f.dev = some false
  if devdDown ∧ f.finished = false then
    ({ h with queued := h.queued ++ [⟨command, f.now + devdWait, r⟩] }, none)
  else h.beginSh f command r

/-- A request that was refused is answered. -/
def refuse : Host × Option (Nat × Bytes) → Host
  | (h, some (r, why)) => h.send r (.error why)
  | (h, none) => h

/-- A request arrives. -/
def request (command : Bytes) : Host :=
  refuse (startShJob { h with asked := h.asked ++ [command] } f command h.asked.length)

/-- One queued command: it is started or refused, or it waits on. -/
def startQueued (h : Host) (q : QueuedSh) : Host :=
  if f.dev = some true ∨ q.deadline ≤ f.now then refuse (h.beginSh f q.command q.reply)
  else { h with queued := h.queued ++ [q] }

/-- `start_queued_sh`: every queued command is tried anew. -/
def startQueuedSh : Host := h.queued.foldl (startQueued f) { h with queued := [] }

/-- One running command: what its job has sent is collected, and it is answered or runs on. -/
def settle (now : Nat) (h : Host) (p : PendingSh) : Host :=
  let job := (h.job p.job).take
  let s := (h.job p.job).queue.foldl PendingSh.event (p, none)
  if s.2 = none ∧ now < p.deadline then
    { h with job := update h.job p.job job, sh := h.sh ++ [s.1] }
  else
    send { h with job := update h.job p.job { job with phase := .gone } } p.reply
      (.ran (s.1.answer s.2))

/-- `settle_sh`: every command that runs is looked at once. -/
def settleSh (now : Nat) : Host := h.sh.foldl (settle now) { h with sh := [] }

end Host

/-- What reaches the host: a request, an event of a job, and the two turns of the loop. -/
inductive Event where
  | request (command : Bytes) (f : Found)
  /-- A job sends an event. -/
  | event (j : Nat) (e : JobEvent)
  | startQueued (f : Found)
  | settle (now : Nat)

/-- The machine.  Time does not go back. -/
def shell : Machine Host Event where
  step h
    | .request command f =>
      if h.clock ≤ f.now ∧ f.now ≤ f.begun h.asked.length ∧ f.begun h.asked.length ≤ f.later then
        some { h.request f command with clock := f.later }
      else none
    | .event j e =>
        if j < h.jobs.length then some { h with job := update h.job j ((h.job j).send e) } else none
    | .startQueued f =>
      if h.clock ≤ f.now ∧ f.now ≤ f.later ∧
          ∀ q ∈ h.queued, f.now ≤ f.begun q.reply ∧ f.begun q.reply ≤ f.later then
        some { h.startQueuedSh f with clock := f.later }
      else none
    | .settle now => if h.clock ≤ now then some { h.settleSh now with clock := now } else none

/-! ## What is kept -/

/-- Lines, each with its end. -/
def joined (ls : List Bytes) : Bytes := ls.flatMap (· ++ [newline])

/-- The output with the lines that fit. -/
def kept : Bytes → List Bytes → Bytes
  | out, [] => out
  | out, l :: ls =>
      if out.length + l.length < shOutputMax then kept (out ++ l ++ [newline]) ls else kept out ls

/-- Whether a line does not fit. -/
def cut : Bytes → List Bytes → Bool
  | _, [] => false
  | out, l :: ls =>
      if out.length + l.length < shOutputMax then cut (out ++ l ++ [newline]) ls else true

section Kept

variable {out l : Bytes} {ls before after : List Bytes}

/-- The lines of an output, each with its newline. -/
theorem joined_cons (l : Bytes) (ls : List Bytes) :
    joined (l :: ls) = l ++ [newline] ++ joined ls := List.flatMap_cons

theorem joined_append (ls ms : List Bytes) : joined (ls ++ ms) = joined ls ++ joined ms :=
  List.flatMap_append

/-- What one line adds to the output. -/
theorem length_joined_cons (l : Bytes) (ls : List Bytes) :
    (joined (l :: ls)).length = l.length + 1 + (joined ls).length := by
  rw [joined_cons, List.length_append, List.length_append, List.length_singleton]

/-- The front of the lines takes no more room. -/
theorem length_joined_take (n : Nat) (ls : List Bytes) :
    (joined (ls.take n)).length ≤ (joined ls).length := by
  conv_rhs => rw [← List.take_append_drop n ls]
  rw [joined_append, List.length_append]
  omega

/-- What was kept stays in front. -/
theorem kept_keeps (out : Bytes) (ls : List Bytes) : out <+: kept out ls := by
  induction ls generalizing out with
  | nil => exact List.prefix_rfl
  | cons l ls ih =>
    rw [kept]
    split
    · have hmore := ih (out ++ l ++ [newline])
      rw [List.append_assoc] at hmore
      exact (List.prefix_append out _).trans (by rwa [List.append_assoc])
    · exact ih out

/-- The limit is never passed. -/
theorem kept_le (h : out.length ≤ shOutputMax) : (kept out ls).length ≤ shOutputMax := by
  induction ls generalizing out with
  | nil => exact h
  | cons l ls ih =>
    rw [kept]
    split
    · apply ih
      rw [List.length_append, List.length_append, List.length_singleton]
      omega
    · exact ih h

/-- Lines that fit together are all kept. -/
theorem kept_append (after : List Bytes) (h : out.length + (joined before).length ≤ shOutputMax) :
    kept out (before ++ after) = kept (out ++ joined before) after ∧
    cut out (before ++ after) = cut (out ++ joined before) after := by
  induction before generalizing out with
  | nil => simp [joined]
  | cons l before ih =>
    rw [length_joined_cons] at h
    have hfit : out.length + l.length < shOutputMax := by omega
    rw [List.cons_append, kept, cut, if_pos hfit, if_pos hfit, joined_cons, ← List.append_assoc,
      ← List.append_assoc]
    apply ih
    rw [List.length_append, List.length_append, List.length_singleton]
    omega

/-- Nothing more is kept exactly when no line fits. -/
theorem kept_eq_self_iff : kept out ls = out ↔ ∀ l ∈ ls, shOutputMax ≤ out.length + l.length := by
  induction ls with
  | nil => simp [kept]
  | cons l ls ih =>
    rw [kept, List.forall_mem_cons]
    split
    · rename_i hfit
      constructor
      · intro h
        have hlen := (kept_keeps (out ++ l ++ [newline]) ls).length_le
        rw [h, List.length_append, List.length_append, List.length_singleton] at hlen
        omega
      · intro h
        omega
    · rename_i hlong
      rw [ih]
      exact ⟨fun h => ⟨by omega, h⟩, fun h => h.2⟩

/-- Lines that do not fit together have a first one that does not fit. -/
theorem first_long (hout : out.length ≤ shOutputMax)
    (h : shOutputMax < out.length + (joined ls).length) :
    ∃ before l after, ls = before ++ l :: after ∧
    out.length + (joined before).length ≤ shOutputMax ∧
      shOutputMax ≤ out.length + (joined before).length + l.length := by
  induction ls generalizing out with
  | nil =>
    have hnil : (joined []).length = 0 := rfl
    omega
  | cons l ls ih =>
    rw [length_joined_cons] at h
    by_cases hfit : out.length + l.length < shOutputMax
    · have hlen : (out ++ l ++ [newline]).length = out.length + l.length + 1 := by
        rw [List.length_append, List.length_append, List.length_singleton]
      have hout' : (out ++ l ++ [newline]).length ≤ shOutputMax := by omega
      have hmore : shOutputMax < (out ++ l ++ [newline]).length + (joined ls).length := by omega
      obtain ⟨before, m, after, rfl, hbefore, hm⟩ := ih hout' hmore
      refine ⟨l :: before, m, after, rfl, ?_, ?_⟩
      · rw [length_joined_cons]
        omega
      · rw [length_joined_cons]
        omega
    · have hnil : (joined []).length = 0 := rfl
      exact ⟨[], l, ls, rfl, by omega, by omega⟩

/-- No line fits behind the first that does not. -/
def Steady (ls : List Bytes) : Prop :=
  ∀ before l after, ls = before ++ l :: after → (joined before).length ≤ shOutputMax →
    shOutputMax ≤ (joined before).length + l.length →
    ∀ m ∈ after, shOutputMax ≤ (joined before).length + m.length

/-- The output is the start of the lines, and says so when some are missing. -/
def StartOf (output : Bytes) (truncated : Bool) (ls : List Bytes) : Prop :=
  ∃ n ≤ ls.length, output = joined (ls.take n) ∧ output.length ≤ shOutputMax ∧
  (truncated = true ↔ n < ls.length)

/-- There is one first line that does not fit. -/
theorem steady_iff (hbefore : (joined before).length ≤ shOutputMax)
    (hl : shOutputMax ≤ (joined before).length + l.length) :
    Steady (before ++ l :: after) ↔
    ∀ m ∈ after, shOutputMax ≤ (joined before).length + m.length := by
  constructor
  · intro h
    exact h before l after rfl hbefore hl
  · intro h before' l' after' heq hbefore' hl'
    have hlong : ∀ {b c : List Bytes} {x : Bytes}, shOutputMax ≤ (joined b).length + x.length →
        ¬ (joined (b ++ x :: c)).length ≤ shOutputMax := by
      intro b c x hx hle
      rw [joined_append, List.length_append, length_joined_cons] at hle
      omega
    rcases List.append_eq_append_iff.mp heq with ⟨mid, rfl, hmid⟩ | ⟨mid, rfl, hmid⟩
    · rcases mid with _ | ⟨x, mid⟩
      · obtain ⟨-, rfl⟩ := List.cons.inj hmid
        rw [List.append_nil]
        exact h
      · obtain ⟨rfl, -⟩ := List.cons.inj hmid
        exact absurd hbefore' (hlong hl)
    · rcases mid with _ | ⟨x, mid⟩
      · obtain ⟨-, rfl⟩ := List.cons.inj hmid
        rw [List.append_nil] at h
        exact h
      · obtain ⟨rfl, -⟩ := List.cons.inj hmid
        exact absurd hbefore (hlong hl')

/-- **When the output is the start.**  Exactly when no line fits behind the first that did not. -/
theorem startOf_iff_steady (ls : List Bytes) : StartOf (kept [] ls) (cut [] ls) ls ↔ Steady ls := by
  have hzero : ([] : Bytes).length = 0 := rfl
  -- it all fits, and so does every part of it
  by_cases hall : (joined ls).length ≤ shOutputMax
  · have hfit : ([] : Bytes).length + (joined ls).length ≤ shOutputMax := by omega
    obtain ⟨hkept, hcut⟩ := kept_append [] hfit
    rw [List.append_nil] at hkept hcut
    refine iff_of_true ⟨ls.length, le_rfl, ?_, kept_le (by omega), ?_⟩ ?_
    · rw [hkept, List.take_length]
      rfl
    · rw [hcut]
      simp [cut]
    · rintro before l after rfl hbefore hl
      rw [joined_append, List.length_append, length_joined_cons] at hall
      omega
  -- the first line that does not fit parts the output
  · have hempty : ([] : Bytes).length ≤ shOutputMax := by omega
    have hmore : shOutputMax < ([] : Bytes).length + (joined ls).length := by omega
    obtain ⟨before, l, after, rfl, hbefore, hl⟩ := first_long hempty hmore
    obtain ⟨hkept, hcut⟩ := kept_append (l :: after) hbefore
    rw [hzero, Nat.zero_add] at hbefore hl
    rw [List.nil_append, kept, if_neg (by omega)] at hkept
    rw [List.nil_append, cut, if_neg (by omega)] at hcut
    rw [steady_iff hbefore hl, ← kept_eq_self_iff, hkept, hcut]
    constructor
    -- if it is a start, then it ends there, and nothing behind it was taken
    · rintro ⟨n, -, htake, hle, -⟩
      rw [List.take_append] at htake
      rcases Nat.lt_or_ge before.length n with hn | hn
      · -- with the line there would be too much
        obtain ⟨k, hk⟩ := Nat.exists_eq_add_of_lt hn
        rw [List.take_of_length_le (by omega), show n - before.length = k + 1 by omega,
          List.take_succ_cons] at htake
        rw [htake, joined_append, List.length_append, length_joined_cons] at hle
        omega
      · rw [show n - before.length = 0 by omega, List.take_zero, List.append_nil] at htake
        refine ((kept_keeps _ after).eq_of_length_le ?_).symm
        rw [htake]
        exact length_joined_take n before
    · intro h
      rw [h]
      refine ⟨before.length, by simp, by simp, hbefore, by simp⟩

/-- Keeping some lines and then more. -/
theorem kept_more (out : Bytes) (ls ms : List Bytes) :
    kept out (ls ++ ms) = kept (kept out ls) ms := by
  induction ls generalizing out with
  | nil => rfl
  | cons l ls ih =>
    rw [List.cons_append, kept, kept]
    split
    · exact ih _
    · exact ih out

/-- Output is cut short as soon as one line of it is. -/
theorem cut_more (out : Bytes) (ls ms : List Bytes) :
    cut out (ls ++ ms) = (cut out ls || cut (kept out ls) ms) := by
  induction ls generalizing out with
  | nil => rfl
  | cons l ls ih =>
    rw [List.cons_append, cut, cut, kept]
    split
    · exact ih _
    · rfl

end Kept

/-! ## What is collected -/

/-- The lines among the events. -/
def lines (es : List JobEvent) : List Bytes :=
  es.filterMap fun
    | .out line => some line
    | _ => none

/-- The end among the events. -/
def lastEnd (es : List JobEvent) : Option JobEvent := (es.filter (!·.isOut)).getLast?

/-- The last event that ends a job, behind output. -/
theorem lastEnd_cons (e : JobEvent) (es : List JobEvent) (h : e.isOut = false) :
    lastEnd (e :: es) = (lastEnd es).or (some e) := by
  rw [lastEnd, List.filter_cons_of_pos (by simp [h]), List.getLast?_cons, lastEnd]
  cases (es.filter (!·.isOut)).getLast? <;> rfl

/-- Where nothing has ended before, the end is in what comes. -/
theorem lastEnd_append {es : List JobEvent} (h : lastEnd es = none) (more : List JobEvent) :
    lastEnd (es ++ more) = lastEnd more := by
  rw [lastEnd, List.filter_append, List.getLast?_eq_none_iff.mp h]
  rfl

/-- `out` is `kept` with one line, and `cut` with one line. -/
theorem out_eq (p : PendingSh) (l : Bytes) :
    p.out l = { p with
      output := kept p.output [l]
      truncated := p.truncated || cut p.output [l] } := by
  rw [PendingSh.out, kept, cut]
  split <;> simp [kept, cut]

/-- What the pass makes of the events. -/
theorem foldl_event (p : PendingSh) (stop : Option JobEvent) (es : List JobEvent) :
    es.foldl PendingSh.event (p, stop) =
      ({ p with
        output := kept p.output (lines es)
        truncated := p.truncated || cut p.output (lines es) },
        (lastEnd es).or stop) := by
  induction es generalizing p stop with
  | nil => simp [lines, kept, cut, lastEnd]
  | cons e es ih =>
    cases e with
    | out l =>
      rw [List.foldl_cons, PendingSh.event, ih, out_eq]
      have hlines : lines (.out l :: es) = [l] ++ lines es := rfl
      rw [hlines, kept_more, cut_more, Bool.or_assoc]
      rfl
    | exit status | error why | lost =>
      rw [List.foldl_cons, PendingSh.event, ih, lastEnd_cons _ _ rfl, Option.or_assoc]
      · rfl
      · intro l hl
        cases hl

/-- A running command has kept what fits of the lines that were taken from its job. -/
structure Collects (p : PendingSh) (taken : List JobEvent) : Prop where
  output : p.output = kept [] (lines taken)
  truncated : p.truncated = cut [] (lines taken)
  runs : lastEnd taken = none

/-- An answer says what was taken. -/
structure Tells (x : ShReply) (taken : List JobEvent) : Prop where
  output : x.output = kept [] (lines taken)
  truncated : x.truncated = cut [] (lines taken)
  status : x.status = exitStatus (lastEnd taken)

/-- What a pass does for a command. -/
theorem Collects.pass {p : PendingSh} {taken : List JobEvent} (h : Collects p taken)
    (more : List JobEvent) :
    ∃ output truncated, more.foldl PendingSh.event (p, none) =
      ({ p with output, truncated }, lastEnd (taken ++ more)) ∧
      output = kept [] (lines (taken ++ more)) ∧ truncated = cut [] (lines (taken ++ more)) := by
  have hlines : lines (taken ++ more) = lines taken ++ lines more := List.filterMap_append
  refine ⟨_, _, ?_, rfl, rfl⟩
  rw [foldl_event, lastEnd_append h.runs, Option.or_none, hlines, kept_more, cut_more, h.output,
    h.truncated]

/-! ## Every request is in one place -/

namespace Host

/-- What holds between the steps, and inside a pass: `qs` are queued commands and `ps` running ones
    that the pass has still in hand. -/
structure Placed (qs : List QueuedSh) (ps : List PendingSh) (h : Host) : Prop where
  places : ∀ r, ((h.queued ++ qs).map QueuedSh.reply).count r +
    ((h.sh ++ ps).map PendingSh.reply).count r +
    (h.answers.map Prod.fst).count r = if r < h.asked.length then 1 else 0
  /-- A request has one job, and none while it is queued. -/
  single : ∀ r, (h.jobs.map Prod.fst).count r + ((h.queued ++ qs).map QueuedSh.reply).count r ≤ 1
  waiting : ∀ q ∈ h.queued ++ qs, h.asked[q.reply]? = some q.command
  owned : ∀ (j r : Nat) (c : Bytes), h.jobs[j]? = some (r, c) → h.asked[r]? = some c
  running : ∀ p ∈ h.sh ++ ps, (∃ c, h.jobs[p.job]? = some (p.reply, c)) ∧
    Collects p (h.job p.job).taken
  told : ∀ r x, (r, Answer.ran x) ∈ h.answers → ∃ (j : Nat) (c : Bytes), h.jobs[j]? = some (r, c) ∧
    Tells x (h.job j).taken

variable {h : Host} {f : Found} {qs : List QueuedSh} {ps : List PendingSh} {q : QueuedSh}
    {p : PendingSh}

theorem mem_hand {α : Type} {a x : α} {l m : List α} (hx : x ∈ l ++ m) : x ∈ l ++ a :: m := by
  rcases List.mem_append.mp hx with hx | hx
  · exact List.mem_append_left _ hx
  · exact List.mem_append_right _ (List.mem_cons_of_mem _ hx)

theorem placed_init : Placed [] [] init where
  places := fun r => rfl
  single := fun r => Nat.zero_le _
  waiting := by
    intro q hq
    cases hq
  owned := by
    intro j r c hj
    cases hj
  running := by
    intro p hp
    cases hp
  told := by
    intro r x hx
    cases hx

/-- A job that has more to be taken. -/
theorem Placed.congr_job (hi : Placed qs ps h) {job : Nat → Job}
    (hjob : ∀ j, (job j).taken = (h.job j).taken) :
    Placed qs ps { h with job := job } where
  places := hi.places
  single := hi.single
  waiting := hi.waiting
  owned := hi.owned
  running := by
    intro p hp
    obtain ⟨hc, hcollects⟩ := hi.running p hp
    exact ⟨hc, by rwa [hjob]⟩
  told := by
    intro r x hx
    obtain ⟨j, c, hj, htells⟩ := hi.told r x hx
    exact ⟨j, c, hj, by rwa [hjob]⟩

/-- The time is no part of where a request is. -/
theorem Placed.clock (hi : Placed qs ps h) (t : Nat) : Placed qs ps { h with clock := t } :=
  ⟨hi.places, hi.single, hi.waiting, hi.owned, hi.running, hi.told⟩

/-- A request arrives, and is in hand. -/
theorem Placed.ask (hi : Placed [] [] h) (command : Bytes) :
    Placed [⟨command, 0, h.asked.length⟩] [] { h with asked := h.asked ++ [command] } where
  -- the new request is in hand, and nowhere else
  places := by
    intro r
    have hr := hi.places r
    simp only [List.append_nil, List.map_append, List.count_append, List.map_cons, List.map_nil,
      List.count_singleton, List.length_append, List.length_singleton, beq_iff_eq] at hr ⊢
    split at hr <;> split <;> split <;> omega
  single := by
    intro r
    have hr := hi.single r
    have hjob : (h.jobs.map Prod.fst).count h.asked.length = 0 := by
      rw [List.count_eq_zero]
      intro hmem
      -- its number is above that of every job
      obtain ⟨⟨_, c⟩, hjc, hreply⟩ := List.mem_map.mp hmem
      obtain ⟨j, hj⟩ := List.mem_iff_getElem?.mp hjc
      have hlt := (List.getElem?_eq_some_iff.mp (hi.owned j _ c hj)).1
      exact Nat.ne_of_lt hlt hreply
    have hqueue := hi.places h.asked.length
    rw [if_neg (Nat.lt_irrefl _)] at hqueue
    simp only [List.append_nil, List.map_append, List.count_append, List.map_cons, List.map_nil,
      List.count_singleton, beq_iff_eq] at hr hqueue ⊢
    split
    · rename_i heq
      subst heq
      omega
    · omega
  waiting := by
    intro q hq
    rcases List.mem_append.mp hq with hq | hq
    · have hold := hi.waiting q (List.mem_append_left _ hq)
      rwa [List.getElem?_append_left (List.getElem?_eq_some_iff.mp hold).1]
    · obtain rfl := List.mem_singleton.mp hq
      exact List.getElem?_concat_length
  owned := by
    intro j r c hj
    have hold := hi.owned j r c hj
    rwa [List.getElem?_append_left (List.getElem?_eq_some_iff.mp hold).1]
  running := hi.running
  told := hi.told

/-- A request in hand is answered with a reason. -/
theorem Placed.refused (hi : Placed (q :: qs) ps h) (why : Bytes) :
    Placed qs ps (h.send q.reply (.error why)) where
  places := by
    intro r
    have hr := hi.places r
    show _ + _ + ((h.answers ++ [(q.reply, Answer.error why)]).map Prod.fst).count r =
      if r < h.asked.length then 1 else 0
    simp only [send, List.map_append, List.count_append, List.map_cons, List.map_nil,
      List.count_cons, List.count_nil] at hr ⊢
    omega
  single := by
    intro r
    have hr := hi.single r
    simp only [send, List.map_append, List.count_append, List.map_cons, List.count_cons] at hr ⊢
    omega
  waiting := by
    intro q' hq'
    exact hi.waiting q' (mem_hand hq')
  owned := hi.owned
  running := hi.running
  told := by
    intro r x hx
    rcases List.mem_append.mp hx with hx | hx
    · exact hi.told r x hx
    · cases List.mem_singleton.mp hx

/-- A request in hand is put into the queue. -/
theorem Placed.queue (hi : Placed (q :: qs) ps h) (deadline : Nat) :
    Placed qs ps { h with queued := h.queued ++ [⟨q.command, deadline, q.reply⟩] } where
  places := by
    intro r
    have hr := hi.places r
    simp only [List.map_append, List.count_append, List.map_cons, List.map_nil, List.count_cons,
      List.count_nil] at hr ⊢
    omega
  single := by
    intro r
    have hr := hi.single r
    simp only [List.map_append, List.count_append, List.map_cons, List.map_nil, List.count_cons,
      List.count_nil] at hr ⊢
    omega
  waiting := by
    intro q' hq'
    rw [List.append_assoc] at hq'
    rcases List.mem_append.mp hq' with hq' | hq'
    · exact hi.waiting q' (List.mem_append_left _ hq')
    · rcases List.mem_cons.mp hq' with rfl | hq'
      · exact hi.waiting q (List.mem_append_right _ List.mem_cons_self)
      · exact hi.waiting q' (List.mem_append_right _ (List.mem_cons_of_mem _ hq'))
  owned := hi.owned
  running := hi.running
  told := hi.told

/-- A request in hand gets a job. -/
theorem Placed.started (hi : Placed (q :: qs) ps h) (id deadline : Nat) :
    Placed qs ps { h with
      job := update h.job h.jobs.length ⟨id, [], [], false, .held⟩
      jobs := h.jobs ++ [(q.reply, q.command)]
      sh := h.sh ++ [⟨h.jobs.length, deadline, q.reply, [], false⟩] } where
  -- it has moved from the hand to the list of jobs
  places := by
    intro r
    have hr := hi.places r
    simp only [List.map_append, List.count_append, List.map_cons, List.map_nil, List.count_cons,
      List.count_nil] at hr ⊢
    omega
  single := by
    intro r
    have hr := hi.single r
    simp only [List.map_append, List.count_append, List.map_cons, List.map_nil, List.count_cons,
      List.count_nil] at hr ⊢
    omega
  waiting := by
    intro q' hq'
    exact hi.waiting q' (mem_hand hq')
  owned := by
    intro j r c hj
    -- a job of before, or the new one
    rcases Nat.lt_or_ge j h.jobs.length with hlt | hge
    · rw [List.getElem?_append_left hlt] at hj
      exact hi.owned j r c hj
    · rw [List.getElem?_append_right hge] at hj
      obtain ⟨_, hget⟩ := List.getElem?_eq_some_iff.mp hj
      rw [List.getElem_singleton] at hget
      cases hget
      exact hi.waiting q (List.mem_append_right _ List.mem_cons_self)
  running := by
    intro p hp
    rw [List.append_assoc] at hp
    -- the jobs of before are where they were
    have hold : p ∈ h.sh ++ ps →
        (∃ c, (h.jobs ++ [(q.reply, q.command)])[p.job]? = some (p.reply, c)) ∧
        Collects p (update h.job h.jobs.length ⟨id, [], [], false, .held⟩ p.job).taken := by
      intro hp
      obtain ⟨⟨c, hc⟩, hcollects⟩ := hi.running p hp
      have hlt := (List.getElem?_eq_some_iff.mp hc).1
      refine ⟨⟨c, by rw [List.getElem?_append_left hlt, hc]⟩, ?_⟩
      rwa [update_of_ne (Nat.ne_of_lt hlt)]
    rcases List.mem_append.mp hp with hp | hp
    · exact hold (List.mem_append_left _ hp)
    · rcases List.mem_cons.mp hp with rfl | hp
      · refine ⟨⟨q.command, List.getElem?_concat_length⟩, ?_⟩
        show Collects _ (update h.job h.jobs.length _ h.jobs.length).taken
        rw [update_self]
        exact ⟨rfl, rfl, rfl⟩
      · exact hold (List.mem_append_right _ hp)
  told := by
    intro r x hx
    obtain ⟨j, c, hj, htells⟩ := hi.told r x hx
    have hlt := (List.getElem?_eq_some_iff.mp hj).1
    refine ⟨j, c, by rw [List.getElem?_append_left hlt, hj], ?_⟩
    show Tells x (update h.job h.jobs.length _ j).taken
    rwa [update_of_ne (Nat.ne_of_lt hlt)]

/-- Beginning a command moves its request from the hand into the list, or answers it. -/
theorem Placed.begin (hi : Placed (q :: qs) ps h) (f : Found) :
    Placed qs ps (refuse (h.beginSh f q.command q.reply)) := by
  unfold beginSh
  split
  · exact hi.refused _
  · exact hi.started _ _

/-- A running command in hand: it runs on, or it is answered. -/
theorem Placed.settle (hi : Placed [] (p :: ps) h) (now : Nat) : Placed [] ps (settle now h p) := by
  obtain ⟨⟨c, hc⟩, hcollects⟩ := hi.running p (List.mem_append_right _ List.mem_cons_self)
  obtain ⟨output, truncated, hfold, houtput, htruncated⟩ := hcollects.pass (h.job p.job).queue
  -- nothing else was taken from this job
  have hplaces := hi.places p.reply
  have hother : ∀ p' ∈ h.sh ++ ps, p'.job ≠ p.job := by
    intro p' hp' hjob
    obtain ⟨⟨c', hc'⟩, -⟩ := hi.running p' (mem_hand hp')
    rw [hjob, hc] at hc'
    obtain ⟨hreply, -⟩ := Prod.mk.inj (Option.some.inj hc')
    have hcount : 0 < ((h.sh ++ ps).map PendingSh.reply).count p.reply :=
      List.count_pos_iff.mpr (List.mem_map.mpr ⟨p', hp', hreply.symm⟩)
    simp only [List.map_append, List.count_append, List.map_cons, List.count_cons_self]
      at hplaces hcount
    split at hplaces <;> omega
  have hanswered : ∀ r x j c', (r, Answer.ran x) ∈ h.answers → h.jobs[j]? = some (r, c') →
      j ≠ p.job := by
    rintro r x j c' hx hj rfl
    rw [hc] at hj
    obtain ⟨rfl, -⟩ := Prod.mk.inj (Option.some.inj hj)
    have hcount : 0 < (h.answers.map Prod.fst).count p.reply :=
      List.count_pos_iff.mpr (List.mem_map.mpr ⟨_, hx, rfl⟩)
    simp only [List.map_append, List.count_append, List.map_cons, List.count_cons_self] at hplaces
    split at hplaces <;> omega
  unfold Host.settle
  rw [hfold]
  dsimp only
  split
  · rename_i hruns
    refine ⟨?_, hi.single, hi.waiting, hi.owned, ?_, ?_⟩
    · intro r
      have hr := hi.places r
      simp only [List.map_append, List.count_append, List.map_cons, List.map_nil, List.count_cons,
        List.count_nil] at hr ⊢
      omega
    · intro p' hp'
      rw [List.append_assoc] at hp'
      have hold : p' ∈ h.sh ++ ps → (∃ c, h.jobs[p'.job]? = some (p'.reply, c)) ∧
          Collects p' (update h.job p.job (h.job p.job).take p'.job).taken := by
        intro hp'
        rw [update_of_ne (hother p' hp')]
        exact hi.running p' (mem_hand hp')
      rcases List.mem_append.mp hp' with hp' | hp'
      · exact hold (List.mem_append_left _ hp')
      · rcases List.mem_cons.mp hp' with rfl | hp'
        · refine ⟨⟨c, hc⟩, ?_⟩
          dsimp only
          rw [update_self]
          exact ⟨houtput, htruncated, hruns.1⟩
        · exact hold (List.mem_append_right _ hp')
    · intro r x hx
      obtain ⟨j, c', hj, htells⟩ := hi.told r x hx
      refine ⟨j, c', hj, ?_⟩
      show Tells x (update h.job p.job _ j).taken
      rwa [update_of_ne (hanswered r x j c' hx hj)]
  · refine ⟨?_, hi.single, hi.waiting, hi.owned, ?_, ?_⟩
    · intro r
      have hr := hi.places r
      show _ + _ + ((h.answers ++ [(p.reply, Answer.ran _)]).map Prod.fst).count r =
        if r < h.asked.length then 1 else 0
      simp only [send, List.map_append, List.count_append, List.map_cons, List.map_nil,
        List.count_cons, List.count_nil] at hr ⊢
      omega
    · intro p' hp'
      show _ ∧ Collects p' (update h.job p.job _ p'.job).taken
      rw [update_of_ne (hother p' hp')]
      exact hi.running p' (mem_hand hp')
    · intro r x hx
      rcases List.mem_append.mp hx with hx | hx
      · obtain ⟨j, c', hj, htells⟩ := hi.told r x hx
        refine ⟨j, c', hj, ?_⟩
        show Tells x (update h.job p.job _ j).taken
        rwa [update_of_ne (hanswered r x j c' hx hj)]
      · cases List.mem_singleton.mp hx
        refine ⟨p.job, c, hc, ?_⟩
        show Tells _ (update h.job p.job _ p.job).taken
        rw [update_self]
        exact ⟨houtput, htruncated, rfl⟩

/-! ### Passes -/

/-- A turn of the queue places every request it held. -/
theorem Placed.startQueued (hi : Placed qs [] h) (f : Found) :
    Placed [] [] (qs.foldl (startQueued f) h) := by
  induction qs generalizing h with
  | nil => exact hi
  | cons q qs ih =>
    apply ih
    unfold Host.startQueued
    split
    · exact hi.begin f
    · exact hi.queue q.deadline

/-- A turn of the running commands places every request it held. -/
theorem Placed.settles (hi : Placed [] ps h) (now : Nat) :
    Placed [] [] (ps.foldl (Host.settle now) h) := by
  induction ps generalizing h with
  | nil => exact hi
  | cons p ps ih => exact ih (hi.settle now)

/-- The pass takes the queue in hand. -/
theorem Placed.queue_taken (hi : Placed [] [] h) : Placed h.queued [] { h with queued := [] } := by
  refine ⟨?_, ?_, ?_, hi.owned, hi.running, hi.told⟩
  · intro r
    simpa using hi.places r
  · intro r
    simpa using hi.single r
  · intro q hq
    exact hi.waiting q (by simpa using hq)

/-- The commands taken out of the list are in the hand. -/
theorem Placed.sh_taken (hi : Placed [] [] h) : Placed [] h.sh { h with sh := [] } := by
  refine ⟨?_, hi.single, hi.waiting, hi.owned, ?_, hi.told⟩
  · intro r
    simpa using hi.places r
  · intro p hp
    exact hi.running p (by simpa using hp)

/-- A new request is placed at once. -/
theorem Placed.request (hi : Placed [] [] h) (f : Found) (command : Bytes) :
    Placed [] [] (h.request f command) := by
  unfold Host.request startShJob
  dsimp only
  split
  · exact (hi.ask command).queue (f.now + devdWait)
  · exact (hi.ask command).begin f

/-- A job that goes on sending has had the same events taken. -/
theorem taken_send (e : JobEvent) (j : Job) : (j.send e).taken = j.taken := by
  unfold Job.send
  split <;> rfl

/-- **The step.** -/
theorem Placed.step {t : Host} {a : Event} (hi : Placed [] [] h) (hs : shell.step h a = some t) :
    Placed [] [] t := by
  cases a with
  | request command f =>
    dsimp only [shell] at hs
    split at hs
    · cases hs
      exact (hi.request f command).clock f.later
    · cases hs
  | event j e =>
    dsimp only [shell] at hs
    split at hs
    · cases hs
      refine hi.congr_job fun i => ?_
      by_cases hij : i = j
      · rw [hij, update_self, taken_send]
      · rw [update_of_ne hij]
    · cases hs
  | startQueued f =>
    dsimp only [shell] at hs
    split at hs
    · cases hs
      exact (hi.queue_taken.startQueued f).clock f.later
    · cases hs
  | settle now =>
    dsimp only [shell] at hs
    split at hs
    · cases hs
      exact (hi.sh_taken.settles now).clock now
    · cases hs

/-- **The run.** -/
theorem placed_reach (hr : shell.Reach Free init h) : Placed [] [] h :=
  hr.inv placed_init fun _ _ _ hi _ hs => hi.step hs

/-! ## Deadlines -/

/-- What a step does to the requests that wait and to those that run: nobody's deadline changes, and
    who is new has a new one. -/
structure Moves (h t : Host) : Prop where
  clock : h.clock ≤ t.clock
  asked : h.asked.length ≤ t.asked.length
  queued : ∀ q ∈ t.queued, q ∈ h.queued ∨ q.reply = h.asked.length ∧ q.deadline ≤ t.clock + devdWait
  sh : ∀ p ∈ t.sh, (∃ p' ∈ h.sh, p'.reply = p.reply ∧ p'.deadline = p.deadline) ∨
    (p.reply = h.asked.length ∨ ∃ q ∈ h.queued, q.reply = p.reply) ∧ p.deadline ≤ t.clock + shWait

/-- Beginning a command asks for nothing and queues nothing. -/
theorem refuse_beginSh (h : Host) (f : Found) (command : Bytes) (r : Nat) :
    (refuse (h.beginSh f command r)).asked = h.asked ∧
    (refuse (h.beginSh f command r)).queued = h.queued ∧
      ∀ p ∈ (refuse (h.beginSh f command r)).sh, p ∈ h.sh ∨ p.reply = r ∧
      p.deadline = f.begun r + shWait := by
  unfold beginSh
  split
  · exact ⟨rfl, rfl, fun p hp => .inl hp⟩
  · refine ⟨rfl, rfl, fun p hp => ?_⟩
    rcases List.mem_append.mp hp with hp | hp
    · exact .inl hp
    · obtain rfl := List.mem_singleton.mp hp
      exact .inr ⟨rfl, rfl⟩

/-- The queue's pass: who still waits has time left, and who is new among
    the running was waiting. -/
theorem startQueued_spec (f : Found) (qs : List QueuedSh) (h : Host) :
    (qs.foldl (startQueued f) h).asked = h.asked ∧
      (∀ q ∈ (qs.foldl (startQueued f) h).queued, q ∈ h.queued ∨ q ∈ qs ∧ f.now < q.deadline) ∧
      ∀ p ∈ (qs.foldl (startQueued f) h).sh, p ∈ h.sh ∨
        ∃ q ∈ qs, q.reply = p.reply ∧ p.deadline = f.begun q.reply + shWait := by
  induction qs generalizing h with
  | nil => exact ⟨rfl, fun q hq => .inl hq, fun p hp => .inl hp⟩
  | cons q qs ih =>
    obtain ⟨hasked, hqueued, hsh⟩ := ih (startQueued f h q)
    rw [List.foldl_cons]
    have hone : (startQueued f h q).asked = h.asked ∧
        (∀ q' ∈ (startQueued f h q).queued, q' ∈ h.queued ∨ q' = q ∧ f.now < q.deadline) ∧
        ∀ p ∈ (startQueued f h q).sh, p ∈ h.sh ∨ p.reply = q.reply ∧
        p.deadline = f.begun q.reply + shWait := by
      unfold startQueued
      split
      · obtain ⟨ha, hq, hp⟩ := refuse_beginSh h f q.command q.reply
        exact ⟨ha, fun q' hq' => .inl (hq ▸ hq'), hp⟩
      · rename_i hwaits
        refine ⟨rfl, fun q' hq' => ?_, fun p hp => .inl hp⟩
        rcases List.mem_append.mp hq' with hq' | hq'
        · exact .inl hq'
        · exact .inr ⟨List.mem_singleton.mp hq', by omega⟩
    obtain ⟨ha, hq, hp⟩ := hone
    refine ⟨hasked.trans ha, fun q' hq' => ?_, fun p hp' => ?_⟩
    · rcases hqueued q' hq' with hq' | ⟨hmem, hlt⟩
      · rcases hq q' hq' with hq' | ⟨rfl, hlt⟩
        · exact .inl hq'
        · exact .inr ⟨List.mem_cons_self, hlt⟩
      · exact .inr ⟨List.mem_cons_of_mem _ hmem, hlt⟩
    · rcases hsh p hp' with hp' | ⟨q', hmem, hsame⟩
      · rcases hp p hp' with hp' | ⟨hreply, hdeadline⟩
        · exact .inl hp'
        · exact .inr ⟨q, List.mem_cons_self, hreply.symm, hdeadline⟩
      · exact .inr ⟨q', List.mem_cons_of_mem _ hmem, hsame⟩

/-- The running commands' pass: who still runs has time left. -/
theorem settle_spec (now : Nat) (ps : List PendingSh) (h : Host) :
    (ps.foldl (Host.settle now) h).asked = h.asked ∧
    (ps.foldl (Host.settle now) h).queued = h.queued ∧
      ∀ p ∈ (ps.foldl (Host.settle now) h).sh, p ∈ h.sh ∨
        ∃ p' ∈ ps, p'.reply = p.reply ∧ p'.deadline = p.deadline ∧ now < p'.deadline := by
  induction ps generalizing h with
  | nil => exact ⟨rfl, rfl, fun p hp => .inl hp⟩
  | cons p ps ih =>
    obtain ⟨hasked, hqueued, hsh⟩ := ih (Host.settle now h p)
    rw [List.foldl_cons]
    have hone : (Host.settle now h p).asked = h.asked ∧ (Host.settle now h p).queued = h.queued ∧
        ∀ p' ∈ (Host.settle now h p).sh, p' ∈ h.sh ∨ p.reply = p'.reply ∧ p.deadline = p'.deadline ∧
        now < p.deadline := by
      unfold Host.settle
      dsimp only
      split
      · rename_i hruns
        refine ⟨rfl, rfl, fun p' hp' => ?_⟩
        rcases List.mem_append.mp hp' with hp' | hp'
        · exact .inl hp'
        · obtain rfl := List.mem_singleton.mp hp'
          rw [foldl_event]
          exact .inr ⟨rfl, rfl, hruns.2⟩
      · exact ⟨rfl, rfl, fun p' hp' => .inl hp'⟩
    obtain ⟨ha, hq, hp⟩ := hone
    refine ⟨hasked.trans ha, hqueued.trans hq, fun p' hp' => ?_⟩
    rcases hsh p' hp' with hp' | ⟨p'', hmem, hsame⟩
    · rcases hp p' hp' with hp' | hsame
      · exact .inl hp'
      · exact .inr ⟨p, List.mem_cons_self, hsame⟩
    · exact .inr ⟨p'', List.mem_cons_of_mem _ hmem, hsame⟩

/-- A request is such a move. -/
theorem moves_request {command : Bytes} (hnow : h.clock ≤ f.now)
    (hbegun : f.now ≤ f.begun h.asked.length ∧ f.begun h.asked.length ≤ f.later) :
    Moves h { h.request f command with clock := f.later } := by
  unfold Host.request startShJob
  dsimp only
  split
  · refine ⟨?_, ?_, fun q hq => ?_, fun p hp => .inl ⟨p, hp, rfl, rfl⟩⟩
    · show h.clock ≤ f.later
      omega
    · show h.asked.length ≤ (h.asked ++ [command]).length
      simp
    · rcases List.mem_append.mp hq with hq | hq
      · exact .inl hq
      · obtain rfl := List.mem_singleton.mp hq
        refine .inr ⟨rfl, ?_⟩
        show f.now + devdWait ≤ f.later + devdWait
        omega
  · obtain ⟨ha, hq, hp⟩ :=
      refuse_beginSh { h with asked := h.asked ++ [command] } f command h.asked.length
    refine ⟨?_, ?_, fun q hq' => .inl (hq ▸ hq'), fun p hp' => ?_⟩
    · show h.clock ≤ f.later
      omega
    · rw [ha]
      simp
    · rcases hp p hp' with hp' | ⟨hreply, hdeadline⟩
      · exact .inl ⟨p, hp', rfl, rfl⟩
      · refine .inr ⟨.inl hreply, ?_⟩
        show p.deadline ≤ f.later + shWait
        omega

/-- What a step can do. -/
theorem moves_of_step {t : Host} {a : Event} (hs : shell.step h a = some t) : Moves h t := by
  -- a request is taken up, an event arrives, the queue is started, the list is settled
  cases a with
  | request command f =>
    dsimp only [shell] at hs
    split at hs
    · rename_i hnow
      cases hs
      exact moves_request hnow.1 hnow.2
    · cases hs
  | event j e =>
    dsimp only [shell] at hs
    split at hs
    · cases hs
      exact ⟨le_rfl, le_rfl, fun q hq => .inl hq, fun p hp => .inl ⟨p, hp, rfl, rfl⟩⟩
    · cases hs
  | startQueued f =>
    dsimp only [shell] at hs
    split at hs
    · rename_i hnow
      cases hs
      -- the queue is started with what is in it, one after the other
      obtain ⟨ha, hq, hp⟩ := startQueued_spec f h.queued { h with queued := [] }
      refine ⟨hnow.1.trans hnow.2.1, ?_, fun q hq' => ?_, fun p hp' => ?_⟩
      · exact le_of_eq (congrArg List.length ha).symm
      · rcases hq q hq' with hnone | ⟨hmem, -⟩
        · cases hnone
        · exact .inl hmem
      · rcases hp p hp' with hold | ⟨q, hmem, hreply, hdeadline⟩
        · exact .inl ⟨p, hold, rfl, rfl⟩
        · have hbegun := (hnow.2.2 q hmem).2
          refine .inr ⟨.inr ⟨q, hmem, hreply⟩, ?_⟩
          show p.deadline ≤ f.later + shWait
          omega
    · cases hs
  | settle now =>
    dsimp only [shell] at hs
    split at hs
    · rename_i hnow
      cases hs
      -- each command in the list is looked at once
      obtain ⟨ha, hq, hp⟩ := settle_spec now h.sh { h with sh := [] }
      refine ⟨hnow, le_of_eq (congrArg List.length ha).symm, fun q hq' => .inl (hq ▸ hq'),
        fun p hp' => ?_⟩
      rcases hp p hp' with hnone | ⟨p', hmem, hreply, hdeadline, -⟩
      · cases hnone
      · exact .inl ⟨p', hmem, hreply, hdeadline⟩
    · cases hs

/-- Of the first `n` requests, who waits gives up by `d`. -/
structure Waits (n d : Nat) (h : Host) : Prop where
  asked : n ≤ h.asked.length
  queued : ∀ q ∈ h.queued, q.reply < n → q.deadline ≤ d

/-- Of the first `n` requests nobody waits, and who runs is out of time by `d`. -/
structure Runs (n d : Nat) (h : Host) : Prop where
  asked : n ≤ h.asked.length
  queued : ∀ q ∈ h.queued, n ≤ q.reply
  sh : ∀ p ∈ h.sh, p.reply < n → p.deadline ≤ d

/-- The first `n` requests are answered. -/
structure Settled (n : Nat) (h : Host) : Prop where
  asked : n ≤ h.asked.length
  queued : ∀ q ∈ h.queued, n ≤ q.reply
  sh : ∀ p ∈ h.sh, n ≤ p.reply

/-- Nobody's deadline is further away than the time to wait. -/
structure Bounded (h : Host) : Prop where
  queued : ∀ q ∈ h.queued, q.deadline ≤ h.clock + devdWait
  sh : ∀ p ∈ h.sh, p.deadline ≤ h.clock + shWait

section Phases

variable {n d : Nat} {t : Host}

/-- Deadlines stay within reach of the clock. -/
theorem Moves.bounded (hm : Moves h t) (hb : Bounded h) : Bounded t where
  queued := by
    intro q hq
    have hclock := hm.clock
    rcases hm.queued q hq with hold | ⟨-, hnew⟩
    · have := hb.queued q hold
      omega
    · exact hnew
  sh := by
    intro p hp
    have hclock := hm.clock
    rcases hm.sh p hp with ⟨p', hold, -, hsame⟩ | ⟨-, hnew⟩
    · have := hb.sh p' hold
      omega
    · exact hnew

/-- A queued request keeps its deadline. -/
theorem Moves.waits (hm : Moves h t) (hw : Waits n d h) : Waits n d t where
  asked := hw.asked.trans hm.asked
  queued := by
    intro q hq hlt
    have hn := hw.asked
    rcases hm.queued q hq with hold | ⟨hreply, -⟩
    · exact hw.queued q hold hlt
    · omega

/-- Of the first `n` requests nobody comes back into the queue. -/
theorem Moves.none_queued (hm : Moves h t) (hn : n ≤ h.asked.length)
    (hq : ∀ q ∈ h.queued, n ≤ q.reply) :
    ∀ q ∈ t.queued, n ≤ q.reply := by
  intro q hmem
  rcases hm.queued q hmem with hold | ⟨hreply, -⟩
  · exact hq q hold
  · omega

/-- Nor is one of them started again. -/
theorem Moves.none_started (hm : Moves h t) (hn : n ≤ h.asked.length)
    (hq : ∀ q ∈ h.queued, n ≤ q.reply) {p : PendingSh} (hp : p ∈ t.sh) :
    n ≤ p.reply ∨ ∃ p' ∈ h.sh, p'.reply = p.reply ∧ p'.deadline = p.deadline := by
  rcases hm.sh p hp with hold | ⟨hreply | ⟨q, hmem, hreply⟩, -⟩
  · exact .inr hold
  · exact .inl (by omega)
  · exact .inl (hreply ▸ hq q hmem)

/-- A running command keeps its deadline. -/
theorem Moves.runs (hm : Moves h t) (hw : Runs n d h) : Runs n d t where
  asked := hw.asked.trans hm.asked
  queued := hm.none_queued hw.asked hw.queued
  sh := by
    intro p hp hlt
    rcases hm.none_started hw.asked hw.queued hp with hge | ⟨p', hold, hreply, hsame⟩
    · omega
    · have := hw.sh p' hold (by omega)
      omega

/-- A request answered stays answered. -/
theorem Moves.settled (hm : Moves h t) (hw : Settled n h) : Settled n t where
  asked := hw.asked.trans hm.asked
  queued := hm.none_queued hw.asked hw.queued
  sh := by
    intro p hp
    rcases hm.none_started hw.asked hw.queued hp with hge | ⟨p', hold, hreply, -⟩
    · exact hge
    · exact hreply ▸ hw.sh p' hold

/-- Every deadline is at most its wait away, in every run. -/
theorem bounded_reach (hr : shell.Reach Free init h) : Bounded h := by
  refine hr.inv ⟨?_, ?_⟩ fun _ _ _ hb _ hs => (moves_of_step hs).bounded hb
  · intro q hq
    cases hq
  · intro p hp
    cases hp

/-- The queue's pass, once everybody's time is up. -/
theorem Waits.pass (hw : Waits n d h) (hb : Bounded h) (hs : shell.step h (.startQueued f) = some t)
    (hd : d ≤ f.now) :
    Runs n (t.clock + shWait) t := by
  have hm := moves_of_step hs
  refine ⟨hw.asked.trans hm.asked, ?_, fun p hp _ => (hm.bounded hb).sh p hp⟩
  dsimp only [shell] at hs
  split at hs
  · cases hs
    intro q hq
    by_contra hlt
    rcases (startQueued_spec f h.queued { h with queued := [] }).2.1 q hq with hnone | ⟨hmem, hlate⟩
    · cases hnone
    · have := hw.queued q hmem (by omega)
      omega
  · cases hs

/-- The running commands' pass, once everybody's time is up. -/
theorem Runs.pass (hw : Runs n d h) {now : Nat} (hs : shell.step h (.settle now) = some t)
    (hd : d ≤ now) : Settled n t := by
  have hm := moves_of_step hs
  refine ⟨hw.asked.trans hm.asked, (hm.runs hw).queued, ?_⟩
  dsimp only [shell] at hs
  split at hs
  · cases hs
    intro p hp
    by_contra hlt
    rcases (settle_spec now h.sh { h with sh := [] }).2.2 p
        hp with hnone | ⟨p', hmem, hreply, -, hlate⟩
    · cases hnone
    · have := hw.sh p' hmem (by omega)
      omega
  · cases hs

/-- How often a request was answered. -/
def answered (h : Host) (r : Nat) : Nat := (h.answers.map Prod.fst).count r

/-- A request that is neither queued nor running has had its one answer. -/
theorem Settled.answered (hw : Settled n h) (hi : Placed [] [] h) {r : Nat} (hr : r < n) :
    h.answered r = 1 := by
  have hplaces := hi.places r
  rw [if_pos (Nat.lt_of_lt_of_le hr hw.asked), List.append_nil, List.append_nil] at hplaces
  have hqueued : (h.queued.map QueuedSh.reply).count r = 0 := by
    rw [List.count_eq_zero]
    intro hmem
    obtain ⟨q, hq, rfl⟩ := List.mem_map.mp hmem
    have := hw.queued q hq
    omega
  have hsh : (h.sh.map PendingSh.reply).count r = 0 := by
    rw [List.count_eq_zero]
    intro hmem
    obtain ⟨p, hp, rfl⟩ := List.mem_map.mp hmem
    have := hw.sh p hp
    omega
  unfold Host.answered
  omega

/-- And none has had two. -/
theorem Placed.answered_le (hi : Placed [] [] h) (r : Nat) : h.answered r ≤ 1 := by
  have hplaces := hi.places r
  unfold Host.answered
  split at hplaces <;> omega

end Phases

end Host

open Host

/-- Every request is answered in time: the queue's pass when `DEVD_WAIT` is over, and the running
    commands' pass when `SH_WAIT` is over from there, and it has its answer for good. -/
theorem answered_in_time {s t u v w x : Host} {f : Found} {now r : Nat}
    (hs : shell.Reach Free init s) (hr : r < s.asked.length) (ht : shell.Reach Free s t)
    (hu : shell.step t (.startQueued f) = some u) (hf : s.clock + devdWait ≤ f.now)
    (hv : shell.Reach Free u v) (hw : shell.step v (.settle now) = some w)
    (hnow : u.clock + shWait ≤ now) (hx : shell.Reach Free w x) : x.answered r = 1 := by
  have hbt : Bounded t := bounded_reach (hs.trans ht)
  have hwaits : Waits s.asked.length (s.clock + devdWait) t :=
    ht.inv ⟨le_rfl, fun q hq _ => (bounded_reach hs).queued q hq⟩ fun _ _ _ h _ hstep =>
      (moves_of_step hstep).waits h
  have hruns : Runs s.asked.length (u.clock + shWait) v :=
    hv.inv (hwaits.pass hbt hu hf) fun _ _ _ h _ hstep => (moves_of_step hstep).runs h
  have hsettled : Settled s.asked.length x :=
    hx.inv (hruns.pass hw hnow) fun _ _ _ h _ hstep => (moves_of_step hstep).settled h
  have hreach := (((hs.trans ht).step trivial hu).trans hv |>.step trivial hw).trans hx
  exact hsettled.answered (placed_reach hreach) hr

/-- The reply of a command that ran: it says how its job ended, and holds the
    start of what the job sent. -/
structure Right (x : ShReply) (taken : List JobEvent) : Prop where
  output : StartOf x.output x.truncated (lines taken)
  status : x.status = exitStatus (lastEnd taken)

/-- **When `sh` says what its command said.**  In every run each request is answered at most once,
    and in time; and a reply is right, for the one job that was started for its request, exactly
    when no line fits behind the first that did not. -/
theorem replies_right_iff {s : Host} (hs : shell.Reach Free init s) :
    (∀ r, s.answered r ≤ 1) ∧
    (∀ r < s.asked.length, ∀ t u v w x f now, shell.Reach Free s t →
      shell.step t (.startQueued f) = some u →
      s.clock + devdWait ≤ f.now → shell.Reach Free u v → shell.step v (.settle now) = some w →
      u.clock + shWait ≤ now →
      shell.Reach Free w x → x.answered r = 1) ∧
    ∀ r x, (r, Answer.ran x) ∈ s.answers → ∃ (j : Nat) (c : Bytes), s.asked[r]? = some c ∧
    s.jobs[j]? = some (r, c) ∧
      (∀ i, s.jobs[i]?.map Prod.fst = some r → i = j) ∧
      (Right x (s.job j).taken ↔ Steady (lines (s.job j).taken)) := by
  have hi := placed_reach hs
  refine ⟨hi.answered_le, fun r hr t u v w x f now ht hu hf hv hw hnow hx => ?_, fun r x hx => ?_⟩
  · exact answered_in_time hs hr ht hu hf hv hw hnow hx
  · obtain ⟨j, c, hj, htells⟩ := hi.told r x hx
    refine ⟨j, c, hi.owned j r c hj, hj, fun i hir => ?_, ?_⟩
    · have hnodup : (s.jobs.map Prod.fst).Nodup := by
        rw [List.nodup_iff_count_le_one]
        intro a
        have := hi.single a
        omega
      have hjr : (s.jobs.map Prod.fst)[j]? = some r := by
        rw [List.getElem?_map, hj, Option.map_some]
      have hir' : (s.jobs.map Prod.fst)[i]? = some r := by rw [List.getElem?_map, hir]
      exact (List.getElem?_inj (List.getElem?_eq_some_iff.mp hir').1 hnodup).mp
        (hir'.trans hjr.symm)
    · rw [← startOf_iff_steady, ← htells.output, ← htells.truncated]
      exact ⟨fun h => h.output, fun h => ⟨h, htells.status⟩⟩

/-! ### A short line behind a long one -/

/-- A job sends some events. -/
theorem reach_events {h : Host} {j : Nat} (hj : j < h.jobs.length) (hheld : (h.job j).phase = .held)
    (es : List JobEvent) :
    shell.Reach Free h
      { h with job := update h.job j { h.job j with queue := (h.job j).queue ++ es } } := by
  induction es using List.reverseRecOn with
  | nil =>
    rw [List.append_nil, update_eq_self]
    exact .refl
  | append_singleton es e ih =>
    refine ih.step (a := .event j e) trivial ?_
    show (if j < h.jobs.length then _ else _) = _
    rw [if_pos hj]
    simp only [update_self, update_idem, Job.send, hheld, reduceCtorEq, if_false, List.append_assoc]

/-- devd is up, and time stands still. -/
def found : Found where
  dev := some true
  finished := false
  start := fun _ => .ok 1
  now := 0
  begun := fun _ => 0
  later := 0

/-- `ls` is running, and its job has sent some events. -/
def listing (es : List JobEvent) : Host where
  clock := 0
  queued := []
  sh := [⟨0, shWait, 0, [], false⟩]
  job := update init.job 0 ⟨1, es, [], false, .held⟩
  asked := [bytes "ls"]
  jobs := [(0, bytes "ls")]
  answers := []

/-- A run in which a command lists its output. -/
theorem reach_listing (es : List JobEvent) : shell.Reach Free init (listing es) := by
  have hbegun : shell.Reach Free init (listing []) :=
    Reach.refl.step (a := .request (bytes "ls") found) trivial rfl
  have hevents := reach_events (h := listing []) (j := 0) (by decide) rfl es
  have hjob : update (listing []).job 0
      { (listing []).job 0 with queue := ((listing []).job 0).queue ++ es } =
      (listing es).job := update_idem ..
  rw [hjob] at hevents
  exact hbegun.trans hevents

/-- `ls` has its answer. -/
def listed (es : List JobEvent) : Host := { (listing es).settleSh 0 with clock := 0 }

theorem reach_listed (es : List JobEvent) : shell.Reach Free init (listed es) :=
  (reach_listing es).step (a := .settle 0) trivial rfl

/-- Its output are the lines sent. -/
theorem lines_outs (ls : List Bytes) (status : Int) :
    lines (ls.map .out ++ [.exit status]) = ls := by
  induction ls with
  | nil => rfl
  | cons l ls ih =>
    show l :: lines (ls.map .out ++ [.exit status]) = _
    rw [ih]

/-- And its end is the status. -/
theorem lastEnd_outs (ls : List Bytes) (status : Int) :
    lastEnd (ls.map .out ++ [.exit status]) = some (.exit status) := by
  rw [lastEnd_append]
  · rfl
  · rw [lastEnd, List.filter_map]
    simp [Function.comp_def, JobEvent.isOut]

/-- What `ls` is answered with when it has sent some lines and exits. -/
theorem listed_answer (ls : List Bytes) :
    ((listed (ls.map .out ++ [.exit 0])).job 0).taken = ls.map .out ++ [.exit 0] ∧
      (listed (ls.map .out ++ [.exit 0])).jobs = [(0, bytes "ls")] ∧
      ∃ x, (0, Answer.ran x) ∈ (listed (ls.map .out ++ [.exit 0])).answers ∧ x.output = kept [] ls ∧
        x.truncated = cut [] ls := by
  have hend := lastEnd_outs ls 0
  have hlines := lines_outs ls 0
  generalize ls.map JobEvent.out ++ [.exit 0] = es at hend hlines
  have hanswer : (listing es).settleSh 0 = settle 0 { listing es with sh := [] }
      ⟨0, shWait, 0, [], false⟩ := rfl
  have hqueue : ((listing es).job 0).queue = es := rfl
  unfold listed
  rw [hanswer, settle]
  dsimp only
  rw [hqueue, foldl_event, hend, hlines, if_neg fun hruns => Option.some_ne_none _ hruns.1]
  refine ⟨?_, rfl, _, List.mem_singleton_self _, rfl, rfl⟩
  show (update (listing es).job 0 _ 0).taken = es
  rw [update_self]
  rfl

/-- One line, and the exit: the reply is right. -/
theorem short_listing_right : ∃ s, shell.Reach Free init s ∧ ∃ x, (0, Answer.ran x) ∈ s.answers ∧
    Right x [.out (bytes "a.txt"), .exit 0] := by
  obtain ⟨htaken, hjobs, x, hx, -⟩ := listed_answer [bytes "a.txt"]
  refine ⟨_, reach_listed _, x, hx, ?_⟩
  obtain ⟨-, -, hright⟩ := replies_right_iff (reach_listed ([bytes "a.txt"].map .out ++ [.exit 0]))
  obtain ⟨j, c, -, -, honly, hiff⟩ := hright 0 x hx
  obtain rfl : 0 = j := honly 0 (by rw [hjobs]; rfl)
  rw [htaken, ← startOf_iff_steady] at hiff
  exact hiff.mpr ⟨1, le_rfl, by decide, by decide, by decide⟩

/-- The output that fills all but 1024 octets, a line of 1024, and a line of one. -/
def fullListing : List Bytes :=
  List.replicate 1023 (List.replicate 1023 97) ++ [List.replicate 1024 97, [120]]

theorem length_joined_replicate (n : Nat) (l : Bytes) :
    (joined (List.replicate n l)).length = n * (l.length + 1) := by
  induction n with
  | zero =>
    rw [List.replicate_zero, Nat.zero_mul]
    rfl
  | succ n ih =>
    rw [List.replicate_succ, length_joined_cons, ih, Nat.succ_mul]
    omega

/-- A listing of 2^20 octets and more is not steady: its first line fills the room. -/
theorem not_steady_fullListing : ¬ Steady fullListing := by
  have hlen := length_joined_replicate 1023 (List.replicate 1023 97)
  rw [List.length_replicate] at hlen
  intro h
  have hlast := h (List.replicate 1023 (List.replicate 1023 97)) (List.replicate 1024 97)
      [[120]] rfl
    (by rw [hlen]; decide) (by rw [hlen, List.length_replicate]; decide) [120]
      (List.mem_singleton_self _)
  rw [hlen] at hlast
  exact absurd hlast (by decide)

/-- The last line is kept though the one in front of it is not: no prefix of
    the lines is the output. -/
theorem full_listing_wrong : ∃ s, shell.Reach Free init s ∧ s.jobs = [(0, bytes "ls")] ∧
    (s.job 0).taken = fullListing.map .out ++ [.exit 0] ∧
      ∃ x, (0, Answer.ran x) ∈ s.answers ∧ ¬ StartOf x.output x.truncated fullListing := by
  obtain ⟨htaken, hjobs, x, hx, houtput, htruncated⟩ := listed_answer fullListing
  refine ⟨_, reach_listed _, hjobs, htaken, x, hx, ?_⟩
  rw [houtput, htruncated, startOf_iff_steady]
  exact not_steady_fullListing

end CdjEmu.Sh
