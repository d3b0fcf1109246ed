/-
  WHAT CFGD'S LINES DO TO THE CFG CLIENT — its shared state, the queue of commands, and one handler
  for each guest message.

  The client's threads share one state under one lock.  A line of the guest is handled in two such
  sections: it releases the queued commands if it is the first on its connection, then its handler
  runs.

  A write sends the whole line or stops short with an error (`flush` does nothing on these sockets).
  `Cmd.tag` numbers the commands in the order in which `send_line` accepted them; no step reads it.
  `due` is a `u32` that wraps.  When a latency arrived is not kept.

  The mods report follows from the lines as `from_lines` reads them: the handler table and the
  string match are two descriptions of one step.

  1. **Program** — `Shared` with its handlers, `send_line`, `flush_pending` and `dispatch`; a
     handler is a function of the shared state and the rest of the line, in a table by prefix.

  2. **Specification** — the report that the lines build is `from_lines` of the same lines, and the
     lines that the report is saved as give that report again.

  3. **The crux** — the shared state's report, with what has begun of the next one, is
     `Runtime/ModsReport`'s reading (`Shared.reading`), line by line, since no other handler touches
     it.
-/
import CdjEmu.Runtime.ModsReport

namespace CdjEmu.Runtime

/-! ## The shared state -/

/-- A command, and its number among those that `send_line` accepted. -/
structure Cmd where
  text : Chars
  tag : Option Nat
  deriving DecidableEq

structure Latency where
  guestMs : Nat
  hostMs : Nat
  totalMs : Nat

/-- The state the client's threads share.  The writer is named by its connection. -/
structure Shared where
  usbState : Option Bool
  latency : Option Latency
  params : Chars → Option Chars
  pcLinkState : Option Bool
  pcLinkFailures : Nat
  writer : Option Nat
  guestReady : Bool
  pending : List Cmd
  mods : ModsReport
  modsPartial : Option Partial
  modLogsPartial : Chars → Option (Nat × List Chars)
  modLogs : Chars → Option (List Chars)

/-- `Shared::default`. -/
def Shared.fresh : Shared where
  usbState := none
  latency := none
  params := fun _ => none
  pcLinkState := none
  pcLinkFailures := 0
  writer := none
  guestReady := false
  pending := []
  mods := .unknown
  modsPartial := none
  modLogsPartial := fun _ => none
  modLogs := fun _ => none

/-! ## Writing -/

/-- How a `write_all` ends: with all of the line, or with an error after its first `n` bytes. -/
inductive Wrote where
  | all
  | short (n : Nat)
  deriving DecidableEq

/-- What a connection holds of a command. -/
structure Sent where
  cmd : Cmd
  bytes : Nat
  deriving DecidableEq

def Sent.whole (s : Sent) : Bool := s.bytes = Chars.utf8Len s.cmd.text

def Wrote.sent (w : Wrote) (cmd : Cmd) : Sent :=
  match w with
  | .all => ⟨cmd, Chars.utf8Len cmd.text⟩
  | .short n => ⟨cmd, min n (Chars.utf8Len cmd.text - 1)⟩

/-- The writes of a queue; the first that fails is the last.  Writes that `luck`
    does not mention succeed. -/
def writeQueue : List Wrote → List Cmd → List Sent
  | [], queued => queued.map Wrote.all.sent
  | _, [] => []
  | .all :: luck, cmd :: queued => Wrote.all.sent cmd :: writeQueue luck queued
  | .short n :: _, cmd :: _ => [(Wrote.short n).sent cmd]

namespace Shared

variable (s : Shared)

/-- Send `cmd`, or queue it; and what it writes on the writer's connection. -/
def sendLine (w : Wrote) (cmd : Cmd) : Shared × List Sent :=
  if s.guestReady ∧ s.writer ≠ none then
    match w with
    | .all => (s, [w.sent cmd])
    | .short _ =>
      ({ s with writer := none, guestReady := false, pending := s.pending ++ [cmd] }, [w.sent cmd])
  else ({ s with pending := s.pending ++ [cmd] }, [])

/-- A line from the guest proves that cfgd is reading: write the commands queued in the meantime. -/
def flushPending (luck : List Wrote) : Shared × List Sent :=
  if s.guestReady then (s, [])
  else
    let queued := s.pending
    let s := { s with guestReady := true, pending := [] }
    if s.writer = none then (s, []) else (s, writeQueue luck queued)

/-! ## The guest's messages -/

/-- `usb_state <0|1>`. -/
def onUsbState (rest : Chars) : Shared := { s with usbState := some (Chars.trim rest = chars "1") }

def latencyPart (part : Option Chars) : Option Nat := part.bind fun p =>
  Chars.parseUnsigned (2 ^ 32) (Chars.trim p)

/-- `latency <g>,<h>,<t>`. -/
def onLatency (rest : Chars) : Shared :=
  let parts := rest.splitOn ','
  match latencyPart parts[0]?, latencyPart parts[1]?, latencyPart parts[2]? with
  | some guestMs, some hostMs, some totalMs => { s with latency := some ⟨guestMs, hostMs, totalMs⟩ }
  | _, _, _ => s

/-- `param <name> <value>`. -/
def onParam (rest : Chars) : Shared :=
  if ' ' ∈ rest then
    let name := rest.takeWhile (· ≠ ' ')
    { s with
      params := Function.update s.params name (some (Chars.trimStart (rest.drop name.length))) }
  else s

/-- `pc_link on|off|on_failed|off_failed|?`. -/
def onPcLink (rest : Chars) : Shared :=
  let reply := Chars.trim rest
  if reply = chars "on" then { s with pcLinkState := some true }
  else if reply = chars "off" then { s with pcLinkState := some false }
  else if reply = chars "on_failed" ∨ reply = chars "off_failed" ∨ reply = chars "?" then
    { s with pcLinkFailures := min (s.pcLinkFailures + 1) (2 ^ 32 - 1) }
  else s

/-- `mods off|pending|begin|end`. -/
def onMods (rest : Chars) : Shared :=
  if rest = chars "off" then { s with mods := .off }
  else if rest = chars "pending" then { s with mods := .pending }
  else if rest = chars "begin" then { s with modsPartial := some .empty }
  else if rest = chars "end" then
    match s.modsPartial with
    | some p => { s with mods := p.done, modsPartial := none }
    | none => s
  else s

/-- `mod <name> …`. -/
def onMod (rest : Chars) : Shared :=
  match s.modsPartial with
  | some p => { s with modsPartial := some ((p.push rest).getD p) }
  | none => s

/-- The maximum number of lines kept from a mod's journal. -/
def modLogLines : Nat := 600

/-- The maximum length of a journal line, in bytes. -/
def modLogLineMax : Nat := 1024

/-- The longest start of the text that has at most `max` bytes. -/
def clip : Nat → Chars → Chars
  | _, [] => []
  | max, c :: text => if c.utf8Size ≤ max then c :: clip (max - c.utf8Size) text else []

/-- `log_begin <name>`. -/
def onLogBegin (name : Chars) : Shared :=
  match s.modLogsPartial name with
  | some (due, _) =>
      { s with modLogsPartial := Function.update s.modLogsPartial name (some (due, [])) }
  | none => s

/-- `rest.split_once(' ').unwrap_or((rest, ""))`. -/
def splitName (rest : Chars) : Chars × Chars :=
  (rest.takeWhile (· ≠ ' '), (rest.dropWhile (· ≠ ' ')).drop 1)

/-- `log <name> <line>`. -/
def onLog (rest : Chars) : Shared :=
  let name := (splitName rest).1
  match s.modLogsPartial name with
  | some (due, lines) =>
    if lines.length < modLogLines then
      let line := clip modLogLineMax (splitName rest).2
      { s with
        modLogsPartial := Function.update s.modLogsPartial name (some (due, lines ++ [line])) }
    else s
  | none => s

/-- One less, as a `u32`. -/
def wrappingPred (n : Nat) : Nat := if n = 0 then 2 ^ 32 - 1 else n - 1

/-- One more, as a `u32`. -/
def wrappingSucc (n : Nat) : Nat := if n = 2 ^ 32 - 1 then 0 else n + 1

/-- `log_end <name>`. -/
def onLogEnd (name : Chars) : Shared :=
  match s.modLogsPartial name with
  | some (due, lines) =>
    let due := wrappingPred due
    if due = 0 then
      { s with
        modLogsPartial := Function.update s.modLogsPartial name none
        modLogs := Function.update s.modLogs name (some lines) }
    else { s with modLogsPartial := Function.update s.modLogsPartial name (some (due, lines)) }
  | none => s

end Shared

/-- Each guest message's prefix and its handler. -/
def messages : List (Chars × (Shared → Chars → Shared)) :=
  [(chars "usb_state ", Shared.onUsbState),
    (chars "latency ", Shared.onLatency),
    (chars "param ", Shared.onParam),
    (chars "log_begin ", Shared.onLogBegin),
    (chars "log ", Shared.onLog),
    (chars "log_end ", Shared.onLogEnd),
    (chars "mods ", Shared.onMods),
    (chars "mod ", Shared.onMod),
    (chars "pc_link ", Shared.onPcLink)]

/-- The handler's part of `handle_line`. -/
def Shared.dispatch (s : Shared) (line : Chars) : Shared :=
  match messages.findSome? fun m => (Chars.strip m.1 (Chars.trim line)).map fun rest =>
    m.2 s rest with
  | some s => s
  | none => s

/-- Apply one line from cfgd, with nobody else in between. -/
def Shared.handleLine (s : Shared) (luck : List Wrote) (line : Chars) : Shared :=
  if Chars.trim line = [] then s else (s.flushPending luck).1.dispatch line

/-! ## The report -/

/-- The report as far as it has been read. -/
def Shared.reading (s : Shared) : Reading := ⟨s.mods, s.modsPartial⟩

theorem Shared.reading_flushPending (s : Shared) (luck : List Wrote) :
    (s.flushPending luck).1.reading = s.reading := by
  unfold Shared.flushPending
  dsimp only
  (repeat' split) <;> rfl

theorem Shared.reading_onMods (s : Shared) (rest : Chars) {line : Chars}
    (h : Chars.trim line = chars "mods " ++ rest) :
    (s.onMods rest).reading = s.reading.line line := by
  have hoff : chars "mods off" = chars "mods " ++ chars "off" := by decide
  have hpending : chars "mods pending" = chars "mods " ++ chars "pending" := by decide
  have hbegin : chars "mods begin" = chars "mods " ++ chars "begin" := by decide
  have hend : chars "mods end" = chars "mods " ++ chars "end" := by decide
  have hmod : Chars.strip (chars "mod ") (chars "mods " ++ rest) = none := by
    rw [Option.eq_none_iff_forall_ne_some]
    intro t ht
    rw [Chars.strip_eq_some] at ht
    have hfour := congrArg (List.take 4) ht
    rw [List.take_append_of_le_length (by decide),
      List.take_append_of_le_length (by decide)] at hfour
    exact absurd hfour (by decide)
  unfold Shared.onMods Reading.line
  dsimp only
  rw [h, hmod, hoff, hpending, hbegin, hend]
  simp only [List.append_cancel_left_eq]
  split
  · rfl
  · split
    · rfl
    · split
      · rfl
      · split
        · cases hp : s.modsPartial <;> simp [Shared.reading, hp]
        · rfl

theorem Shared.reading_onMod (s : Shared) (rest : Chars) {line : Chars}
    (h : Chars.trim line = chars "mod " ++ rest) :
    (s.onMod rest).reading = s.reading.line line := by
  rw [Reading.line_of_mod _ h]
  unfold Shared.onMod Shared.reading
  cases hp : s.modsPartial <;> simp [hp]

/-- The handlers of the other messages leave the report alone. -/
theorem Shared.reading_others (s : Shared) (rest : Chars) :
    (s.onUsbState rest).reading = s.reading ∧ (s.onLatency rest).reading = s.reading ∧
      (s.onParam rest).reading = s.reading ∧ (s.onLogBegin rest).reading = s.reading ∧
      (s.onLog rest).reading = s.reading ∧ (s.onLogEnd rest).reading = s.reading ∧
      (s.onPcLink rest).reading = s.reading := by
  refine ⟨rfl, ?_, ?_, ?_, ?_, ?_, ?_⟩
  · unfold Shared.onLatency
    dsimp only
    split <;> rfl
  · unfold Shared.onParam
    split <;> rfl
  · unfold Shared.onLogBegin
    split <;> rfl
  · unfold Shared.onLog
    dsimp only
    (repeat' split) <;> rfl
  · unfold Shared.onLogEnd
    dsimp only
    (repeat' split) <;> rfl
  · unfold Shared.onPcLink
    dsimp only
    (repeat' split) <;> rfl

/-- A line that starts with neither `mods ` nor `mod ` is no line of a report. -/
theorem Reading.line_unknown (r : Reading) {line : Chars}
    (hmods : Chars.strip (chars "mods ") (Chars.trim line) = none)
    (hmod : Chars.strip (chars "mod ") (Chars.trim line) = none) : r.line line = r := by
  have hword : ∀ w ∈ [chars "mods off", chars "mods pending", chars "mods begin", chars "mods end"],
      Chars.trim line ≠ w := by
    intro w hw heq
    have hall : ∀ w ∈
        [chars "mods off", chars "mods pending", chars "mods begin", chars "mods end"],
        Chars.strip (chars "mods ") w ≠ none := by decide
    exact hall w hw (heq ▸ hmods)
  unfold Reading.line
  dsimp only
  rw [if_neg (hword _ (by simp)), if_neg (hword _ (by simp)), if_neg (hword _ (by simp)),
    if_neg (hword _ (by simp)), hmod]

/-- A line that does not start with `mod` is no line of a report. -/
theorem Reading.line_other (r : Reading) {line : Chars}
    (h : (Chars.trim line).take 3 ≠ chars "mod") :
    r.line line = r := by
  have hstrip : ∀ p : Chars, p.take 3 = chars "mod" → 3 ≤ p.length →
      Chars.strip p (Chars.trim line) = none := by
    intro p hp hlen
    rw [Option.eq_none_iff_forall_ne_some]
    intro rest hrest
    rw [Chars.strip_eq_some.mp hrest, List.take_append_of_le_length hlen] at h
    exact h hp
  exact r.line_unknown (hstrip _ (by decide) (by decide)) (hstrip _ (by decide) (by decide))

theorem Reading.line_of_strip (r : Reading) {p line rest : Chars}
    (h : Chars.strip p (Chars.trim line) = some rest) (hlen : 3 ≤ p.length)
    (hp : p.take 3 ≠ chars "mod") : r.line line = r := by
  refine r.line_other ?_
  rw [Chars.strip_eq_some.mp h, List.take_append_of_le_length hlen]
  exact hp

/-- A line does to the report what `from_lines` makes of it. -/
theorem Shared.reading_dispatch (s : Shared) (line : Chars) :
    (s.dispatch line).reading = s.reading.line line := by
  have hothers := s.reading_others
  unfold Shared.dispatch messages
  simp only [List.findSome?_cons, List.findSome?_nil]
  -- the prefixes in the order of the table
  rcases h1 : Chars.strip (chars "usb_state ") (Chars.trim line) with _ | rest
  · rcases h2 : Chars.strip (chars "latency ") (Chars.trim line) with _ | rest
    · rcases h3 : Chars.strip (chars "param ") (Chars.trim line) with _ | rest
      · rcases h4 : Chars.strip (chars "log_begin ") (Chars.trim line) with _ | rest
        · rcases h5 : Chars.strip (chars "log ") (Chars.trim line) with _ | rest
          · rcases h6 : Chars.strip (chars "log_end ") (Chars.trim line) with _ | rest
            · rcases h7 : Chars.strip (chars "mods ") (Chars.trim line) with _ | rest
              · rcases h8 : Chars.strip (chars "mod ") (Chars.trim line) with _ | rest
                · rcases h9 : Chars.strip (chars "pc_link ") (Chars.trim line) with _ | rest
                  · exact (s.reading.line_unknown h7 h8).symm
                  · exact ((hothers rest).2.2.2.2.2.2).trans
                      (s.reading.line_of_strip h9 (by decide) (by decide)).symm
                · exact s.reading_onMod rest (Chars.strip_eq_some.mp h8)
              · exact s.reading_onMods rest (Chars.strip_eq_some.mp h7)
            · exact ((hothers rest).2.2.2.2.2.1).trans
                (s.reading.line_of_strip h6 (by decide) (by decide)).symm
          · exact ((hothers rest).2.2.2.2.1).trans
              (s.reading.line_of_strip h5 (by decide) (by decide)).symm
        · exact ((hothers rest).2.2.2.1).trans
            (s.reading.line_of_strip h4 (by decide) (by decide)).symm
      · exact ((hothers rest).2.2.1).trans (s.reading.line_of_strip h3 (by decide) (by decide)).symm
    · exact ((hothers rest).2.1).trans (s.reading.line_of_strip h2 (by decide) (by decide)).symm
  · exact ((hothers rest).1).trans (s.reading.line_of_strip h1 (by decide) (by decide)).symm

theorem Shared.reading_handleLine (s : Shared) (luck : List Wrote) (line : Chars) :
    (s.handleLine luck line).reading = s.reading.line line := by
  unfold Shared.handleLine
  split
  · rename_i hblank
    refine (s.reading.line_other ?_).symm
    rw [hblank]
    decide
  · rw [Shared.reading_dispatch, Shared.reading_flushPending]

/-- The state after the lines `lines`, whatever the writes they release meet. -/
def Shared.handleLines (s : Shared) (lines : List (List Wrote × Chars)) : Shared :=
  lines.foldl (fun s l => s.handleLine l.1 l.2) s

theorem Shared.reading_handleLines (s : Shared) (lines : List (List Wrote × Chars)) :
    (s.handleLines lines).reading = s.reading.lines (lines.map Prod.snd) := by
  induction lines generalizing s with
  | nil => rfl
  | cons l lines ih =>
    show (Shared.handleLines (s.handleLine l.1 l.2) lines).reading = (s.reading.line l.2).lines _
    rw [ih, Shared.reading_handleLine]

/-- The live report and the stored one agree, whatever the lines; and the report that any lines give
    is what its own lines give: nothing is lost or reordered when it is saved and read back. -/
theorem live_report_round_trips (lines : List (List Wrote × Chars)) :
    (Shared.fresh.handleLines lines).mods = ModsReport.fromLines (lines.map Prod.snd) ∧
      ModsReport.fromLines (Shared.fresh.handleLines lines).mods.lines =
        (Shared.fresh.handleLines lines).mods := by
  have hlive : (Shared.fresh.handleLines lines).mods = ModsReport.fromLines (lines.map Prod.snd) :=
    congrArg Reading.report (Shared.fresh.reading_handleLines lines)
  refine ⟨hlive, ?_⟩
  rw [hlive]
  exact ModsReport.fromLines_lines (ModsReport.ok_fromLines _)

end CdjEmu.Runtime
