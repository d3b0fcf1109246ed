/-
  A MOD'S JOURNAL AND THE REQUEST IT ANSWERS.

  The client counts how many answers it waits for, and keeps the journal that ends when the count
  reaches zero.  That is the answer to the latest request as long as the count covers every request
  whose answer can still come: those being sent, queued, on the connection, and those that cfgd is
  answering, which together are `waiting`, oldest first.  Requests that are lost on the way only
  leave the count too high.

  The count is cleared when the connection ends and when QEMU starts, and the queue is not.  A
  request that starts a new count over an old one still `waiting` gets the old one's answer.
  `CountCovers` rules out just that, and a count that wraps; under it the invariant `Journal` holds
  along every run.

  1. **Program** — the whole system: the cfg client, the lines on the connection that cfgd has not
     read, cfgd's answers as groups of lines, and the lines that are still to be delivered. cfgd may
     say other things in between, but nothing inside a group.

  2. **Specification** — the journal that the client keeps for a mod is what cfgd answered to the
     latest request for it, cut to its newest lines, whenever the client waits for no answer of that
     mod.

  3. **The crux (`Journal`)** — the count is at least the number of requests in `waiting`, so it
     reaches zero with the last of them; and what has been collected of a journal is the part of the
     group that has been handled.

  4. **Bridge** — `Wired` is the smaller invariant under it: what is on the wire and what the host
     answers are in the order of the tags.
-/
import CdjEmu.Runtime.CfgGuest
import CdjEmu.Runtime.CfgQueue

namespace CdjEmu.Runtime

open Machine Shared

/-! ## Requests -/

/-- The number of the last accepted request for the journal of `name`. -/
def latest (accepted : List Chars) (name : Chars) : Option Nat :=
  (accepted.zipIdx.filter fun p => p.1 = logLine name).getLast?.map Prod.snd

/-- One more accepted line is the latest request of its own mod, and leaves the others' alone. -/
theorem latest_concat (accepted : List Chars) (text name : Chars) :
    latest (accepted ++ [text]) name =
      if text = logLine name then some accepted.length else latest accepted name := by
  by_cases h : text = logLine name
  · simp [latest, List.zipIdx_append, List.filter_append, h]
  · simp [latest, List.zipIdx_append, List.filter_append, h]

/-- The numbers of the requests for the journal of `name` among `cmds`. -/
def requests (name : Chars) (cmds : List Cmd) : List (Option Nat) :=
  (cmds.filter fun c => c.text = logLine name).map Cmd.tag

@[simp] theorem requests_append (name : Chars) (a b : List Cmd) :
    requests name (a ++ b) = requests name a ++ requests name b := by
  simp [requests]

@[simp] theorem requests_nil (name : Chars) : requests name [] = [] := rfl

/-- A line asks for a mod's log only if it is that mod's log line. -/
theorem requests_singleton (name : Chars) (cmd : Cmd) :
    requests name [cmd] = if cmd.text = logLine name then [cmd.tag] else [] := by
  by_cases h : cmd.text = logLine name <;> simp [requests, h]

/-- The requests among what a connection holds whole. -/
def sentRequests (name : Chars) (sent : List Sent) : List (Option Nat) :=
  requests name ((sent.filter Sent.whole).map Sent.cmd)

@[simp] theorem sentRequests_append (name : Chars) (a b : List Sent) :
    sentRequests name (a ++ b) = sentRequests name a ++ sentRequests name b := by
  simp [sentRequests]

@[simp] theorem sentRequests_nil (name : Chars) : sentRequests name [] = [] := rfl

/-- What asks for no log leaves no request. -/
theorem sentRequests_eq_nil {name : Chars} {sent : List Sent}
    (h : ∀ x ∈ sent, x.cmd.text ≠ logLine name) :
    sentRequests name sent = [] := by
  rw [sentRequests, requests, List.map_eq_nil_iff, List.filter_eq_nil_iff]
  intro cmd hcmd
  obtain ⟨x, hx, rfl⟩ := List.mem_map.mp hcmd
  simpa using h x (List.mem_filter.mp hx).1

/-- The request that a reply answers. -/
def Out.request (name : Chars) : Out → Option (Option Nat)
  | .group g _ => if g.name = name then some g.tag else none
  | .other _ => none

@[simp] theorem Out.request_self (g : Group) (k : Nat) :
    Out.request g.name (.group g k) = some g.tag := by
  simp [Out.request]

namespace System

variable (s : System)

/-- The requests for a mod's log that the host has yet to answer. -/
def onHost (name : Chars) : List (Option Nat) := s.toHost.filterMap (Out.request name)

/-- Those that the host has yet to read. -/
def onWire (name : Chars) : List (Option Nat) :=
  match s.client.reader.conn with
  | some conn => sentRequests name ((s.client.wire conn).drop s.read)
  | none => []

/-- The requests whose answers can still come, oldest first. -/
def waiting (name : Chars) : List (Option Nat) :=
  s.onHost name ++ (s.onWire name ++ requests name s.client.shared.pending)

end System

/-! ### No other command is a request -/

/-- A line that differs in its first six characters asks for no log. -/
theorem ne_logLine_of_take {text : Chars} (h : text.take 6 ≠ chars "mods l") (name : Chars) :
    text ≠ logLine name := by
  rintro rfl
  refine h ?_
  rw [logLine, List.take_append_of_le_length (by decide)]
  decide

/-- No other command asks for a log. -/
theorem Command.line_ne_logLine {c : Command} {text : Chars} (h : c.line = some text)
    (name : Chars) :
    text ≠ logLine name := by
  refine ne_logLine_of_take ?_ name
  cases c with
  | usbAttach | usbDetach =>
    cases h
    decide
  | pcLink on =>
    cases h
    cases on <;> decide
  | setParam n value =>
    rw [Command.line] at h
    split at h
    · cases h
    · cases h
      intro heq
      have hfour := congrArg (List.take 4) heq
      rw [List.take_take, List.append_assoc, List.append_assoc, List.append_assoc,
        List.take_append_of_le_length (by decide)] at hfour
      exact absurd hfour (by decide)
  | getParam n =>
    rw [Command.line] at h
    split at h
    · cases h
    · cases h
      intro heq
      have hfour := congrArg (List.take 4) heq
      rw [List.take_take, List.append_assoc, List.take_append_of_le_length (by decide)] at hfour
      exact absurd hfour (by decide)

/-- A command's line is not empty. -/
theorem Command.line_ne_nil {c : Command} {text : Chars} (h : c.line = some text) : text ≠ [] := by
  rintro rfl
  cases c with
  | usbAttach => exact absurd (Option.some.inj h) (by decide)
  | usbDetach => exact absurd (Option.some.inj h) (by decide)
  | pcLink on =>
    cases on with
    | false => exact absurd (Option.some.inj h) (by decide)
    | true => exact absurd (Option.some.inj h) (by decide)
  | setParam n value =>
    rw [Command.line] at h
    split at h
    · cases h
    · simp [chars] at h
  | getParam n =>
    rw [Command.line] at h
    split at h
    · cases h
    · simp [chars] at h

/-- Neither does the status poll, nor the ping. -/
theorem status_ne_logLine (name : Chars) : status ≠ logLine name :=
  ne_logLine_of_take (by decide) name

theorem ping_ne_logLine (name : Chars) : chars "ping\n" ≠ logLine name :=
  ne_logLine_of_take (by decide) name

/-! ## What holds of the connection -/

/-- The lines kept of a journal: the white space at their ends is gone, and they are clipped. -/
def kept (journal : List Chars) : List Chars :=
  (journal.map fun line => clip modLogLineMax (Chars.trimEnd line)).take modLogLines

/-- How the connection, cfgd and the reader stand to each other. -/
structure System.Wired (s : System) : Prop where
  ordered : s.client.Ordered
  writer : ∀ conn, s.client.shared.writer = some conn → s.client.reader.conn = some conn
  read_le : ∀ conn, s.client.reader.conn = some conn → s.read ≤ (s.client.wire conn).length
  idle : s.client.reader.conn = none → s.toHost = []
  handling : ∀ conn line, s.client.reader = .handling conn line →
    s.toHost.head?.map Out.line = some line
  groups : ∀ g k, Out.group g k ∈ s.toHost →
    askable g.name = true ∧ (g.tag, g.journal) ∈ s.answered ∧ k < g.lines.length
  later : ∀ g k, Out.group g k ∈ s.toHost.tail → k = 0
  free : ∀ line, Out.other line ∈ s.toHost → logFree line = true
  asked : ∀ name, name ∉ s.requested → s.client.shared.modLogsPartial name = none

/-- A count of `d` covers the requests `w` and `calls` calls; where it is exact and no call is under
    way, the last of `w` is the latest request. -/
structure Counts (d : Nat) (w : List (Option Nat)) (calls : Nat) (last : Option Nat) : Prop where
  pos : 0 < d
  lt : d < 2 ^ 32
  covers : w.length + calls ≤ d
  tight : w.length + calls = d → calls = 0 → last.isSome ∧ w.getLast? = some last

/-- Requests that are lost leave the count too high. -/
theorem Counts.sublist {d calls : Nat} {w w' : List (Option Nat)} {last : Option Nat}
    (h : Counts d w calls last) (hsub : w'.Sublist w) : Counts d w' calls last := by
  have hlen := hsub.length_le
  have hcov := h.covers
  refine ⟨h.pos, h.lt, by omega, fun heq hcalls => ?_⟩
  have hw : w' = w := hsub.eq_of_length (by omega)
  rw [hw]
  exact h.tight (by omega) hcalls

/-- Every count covers what is waiting, and every journal is the answer to the latest request. -/
structure System.Journal (s : System) : Prop extends s.Wired where
  counts : ∀ name d lines, s.client.shared.modLogsPartial name = some (d, lines) →
    Counts d (s.waiting name) (s.client.asking.count name) (latest s.client.accepted name)
  receiving : ∀ g k rest d lines, s.toHost = .group g k :: rest → 0 < k →
    s.client.shared.modLogsPartial g.name = some (d, lines) → lines = kept (g.journal.take (k - 1))
  complete : ∀ name lines, s.client.shared.modLogs name = some lines → name ∉ s.client.asking ∧
    ∃ n journal, latest s.client.accepted name = some n ∧ (some n, journal) ∈ s.answered ∧
    lines = kept journal

/-- Whether one more request can be counted, over the requests `w` and `calls` calls under way: a
    count is there and does not wrap, or there is nothing to count. -/
def CanCount (w : List (Option Nat)) (calls : Nat) : Option (Nat × List Chars) → Prop
  | none => w = [] ∧ calls = 0
  | some (d, _) => d + 1 < 2 ^ 32

/-- A request that starts a new count finds no earlier request for the same name waiting or being
    made, and no count wraps. -/
def CountCovers (s : System) : System.Event → Prop
  | .client (.ask name) => askable name = true →
      CanCount (s.waiting name) (s.client.asking.count name) (s.client.shared.modLogsPartial name)
  | _ => True

/-! ## The connection, step by step -/

/-- What `send_line` leaves alone. -/
theorem Client.sendLine_frame (c : Client) (text : Chars) (w : Wrote) :
    (c.sendLine text w).reader = c.reader ∧ (c.sendLine text w).asking = c.asking ∧
      (c.sendLine text w).shared.logs = c.shared.logs ∧
      ((c.sendLine text w).shared.writer = c.shared.writer ∨
        (c.sendLine text w).shared.writer = none) := by
  unfold Client.sendLine
  refine ⟨by simp, by simp, ?_, ?_⟩
  · rcases c.shared.sendLine_cases w
        ⟨text, some c.accepted.length⟩ with ⟨-, -, -, hs⟩ | ⟨-, -, -, hs⟩ | ⟨-, hs⟩ <;>
      simp [hs, Shared.logs]
  · rcases c.shared.sendLine_cases w
        ⟨text, some c.accepted.length⟩ with ⟨-, -, -, hs⟩ | ⟨-, -, -, hs⟩ | ⟨-, hs⟩
    · exact .inl (by rw [hs])
    · exact .inr (by rw [hs])
    · exact .inl (by rw [hs])

/-- What the first section of a line leaves alone. -/
theorem Client.lineArrived_frame (c : Client) (conn : Nat) (text : Chars) (luck : List Wrote) :
    (c.lineArrived conn text luck).reader = .handling conn text ∧
    (c.lineArrived conn text luck).asking = c.asking ∧
      (c.lineArrived conn text luck).accepted = c.accepted ∧
      (c.lineArrived conn text luck).shared.logs = c.shared.logs ∧
      (c.lineArrived conn text luck).shared.writer = c.shared.writer ∧
      ∀ n, (c.wire n).length ≤ ((c.lineArrived conn text luck).wire n).length := by
  unfold Client.lineArrived
  split
  · exact ⟨rfl, rfl, rfl, rfl, rfl, fun n => le_refl _⟩
  · have hwire : ∀ sent n, (c.wire n).length ≤ ((c.put c.shared.writer sent).wire n).length := by
      intro sent n
      rw [Client.put_wire, List.length_append]
      omega
    rcases c.shared.flushPending_cases luck with ⟨-, hs⟩ | ⟨-, -, hs⟩ | ⟨-, -, hs⟩ <;>
      exact ⟨rfl, by simp, by simp, by simp [hs, Shared.logs], by simp [hs], hwire _⟩

/-- A blank line has no handler to run. -/
theorem Shared.dispatch_blank (s : Shared) {text : Chars} (h : Chars.trim text = []) :
    s.dispatch text = s := by
  unfold Shared.dispatch
  cases hf : messages.findSome? fun m => (Chars.strip m.1 (Chars.trim text)).map fun rest =>
    m.2 s rest with
  | none => rfl
  | some t =>
    obtain ⟨m, hm, ht⟩ := List.exists_of_findSome?_eq_some hf
    obtain ⟨rest, hrest, -⟩ := Option.map_eq_some_iff.mp ht
    have hnil : m.1 = [] := by
      rw [h, Chars.strip_eq_some] at hrest
      exact (List.append_eq_nil_iff.mp hrest.symm).1
    have hall : ∀ m ∈ messages, m.1 ≠ [] := by
      unfold messages
      simp only [List.forall_mem_cons, List.not_mem_nil, false_implies, implies_true, and_true]
      refine ⟨?_, ?_, ?_, ?_, ?_, ?_, ?_, ?_, ?_⟩ <;> decide
    exact absurd hnil (hall m hm)

/-- What a line from the host does to the shared part is `dispatch`. -/
theorem Client.handle_shared (c : Client) (conn : Nat) (text : Chars) :
    (c.handle conn text).shared = c.shared.dispatch text := by
  unfold Client.handle
  dsimp only
  split
  · rename_i hblank
    exact (c.shared.dispatch_blank hblank).symm
  · rfl

/-- No handler starts a count. -/
theorem Shared.modLogsPartial_dispatch_none (s : Shared) {name : Chars}
    (h : s.modLogsPartial name = none) (text : Chars) :
    (s.dispatch text).modLogsPartial name = none := by
  have hupdate : ∀ key entry, s.modLogsPartial key ≠ none →
      Function.update s.modLogsPartial key entry name = none := by
    intro key entry hkey
    have hne : name ≠ key := by
      rintro rfl
      exact hkey h
    rw [Function.update_of_ne hne]
    exact h
  unfold Shared.dispatch
  cases hf : messages.findSome? fun m => (Chars.strip m.1 (Chars.trim text)).map fun rest =>
    m.2 s rest with
  | none => exact h
  | some t =>
    obtain ⟨m, hm, ht⟩ := List.exists_of_findSome?_eq_some hf
    obtain ⟨rest, -, rfl⟩ := Option.map_eq_some_iff.mp ht
    show (m.2 s rest).modLogsPartial name = none
    -- only the three log messages touch the counts, and each of them writes under a key that it has
    -- found
    rcases logs_of_message s rest hm with ⟨-, hlog⟩ | hlogs
    · rcases hlog with hm | hm | hm <;> rw [hm]
      · unfold Shared.onLogBegin
        split
        · rename_i hkey
          exact hupdate _ _ (by rw [hkey]; simp)
        · exact h
      · unfold Shared.onLog
        dsimp only
        split
        · rename_i hkey
          split
          · exact hupdate _ _ (by rw [hkey]; simp)
          · exact h
        · exact h
      · unfold Shared.onLogEnd
        dsimp only
        split
        · rename_i hkey
          split
          · exact hupdate _ _ (by rw [hkey]; simp)
          · exact hupdate _ _ (by rw [hkey]; simp)
        · exact h
    · exact (congrFun (congrArg Prod.fst hlogs) name).trans h

/-- Writing only adds to a connection's wire. -/
theorem Client.length_put_le (c : Client) (sent : List Sent) (conn : Nat) :
    (c.wire conn).length ≤ ((c.put c.shared.writer sent).wire conn).length := by
  rw [Client.put_wire, List.length_append]
  omega

namespace System.Wired

variable {s : System}

/-- At the start nothing has been asked, and the invariant holds. -/
theorem init : System.init.Wired where
  ordered := .init
  writer conn h := by cases h
  read_le conn h := by cases h
  idle _ := rfl
  handling conn line h := by cases h
  groups g k h := by cases h
  later g k h := by cases h
  free line h := by cases h
  asked _ _ := rfl

/-- A section of the client that leaves the reader alone. -/
theorem section_ {c : Client} {requested : List Chars} (h : s.Wired) (hordered : c.Ordered)
    (hreader : c.reader = s.client.reader)
    (hwriter : c.shared.writer = s.client.shared.writer ∨ c.shared.writer = none)
    (hwire : ∀ conn, (s.client.wire conn).length ≤ (c.wire conn).length)
    (hasked : ∀ name, name ∉ requested → c.shared.modLogsPartial name = none) :
    System.Wired { s with client := c, requested := requested } where
  ordered := hordered
  writer conn hc := by
    show c.reader.conn = some conn
    rw [hreader]
    rcases hwriter with hsame | hnone
    · exact h.writer conn (hsame ▸ hc)
    · cases hnone.symm.trans hc
  read_le conn hc := by
    have hc' : s.client.reader.conn = some conn := hreader ▸ hc
    exact (h.read_le conn hc').trans (hwire conn)
  idle hc := h.idle (by rw [← hreader]; exact hc)
  handling conn line hc := h.handling conn line (by rw [← hreader]; exact hc)
  groups := h.groups
  later := h.later
  free := h.free
  asked := hasked

/-- Sending a line keeps the wire in order, whether it is written or kept for later. -/
theorem sendLine (h : s.Wired) (text : Chars) (w : Wrote) (asking : List Chars) :
    System.Wired { s with client := { s.client with asking := asking }.sendLine text w } := by
  have hasking : Client.Ordered { s.client with asking := asking } :=
    h.ordered.same ⟨rfl, rfl, rfl⟩ rfl rfl rfl
  obtain ⟨hreader, -, hlogs, hwriter⟩ :=
    Client.sendLine_frame { s.client with asking := asking } text w
  refine h.section_ (hasking.sendLine text w) hreader hwriter (fun conn => ?_) fun name hn => ?_
  · exact Client.length_put_le { s.client with asking := asking } _ conn
  · exact (congrFun (congrArg Prod.fst hlogs) name).trans (h.asked name hn)

/-- A new connection, or none: nothing is on its way. -/
theorem reset {c : Client} (hordered : c.Ordered)
    (hwriter : ∀ conn, c.shared.writer = some conn → c.reader.conn = some conn)
    (hreader : ∀ conn line, c.reader ≠ .handling conn line)
    (hasked : ∀ name, name ∉ s.requested → c.shared.modLogsPartial name = none) :
    System.Wired { s with client := c, read := 0, ragged := false, toHost := [] } where
  ordered := hordered
  writer := hwriter
  read_le conn _ := Nat.zero_le _
  idle _ := rfl
  handling conn line hc := absurd hc (hreader conn line)
  groups g k hg := by cases hg
  later g k hg := by cases hg
  free line hl := by cases hl
  asked := hasked

/-- A step of the client. -/
theorem client_step {a : Client.Event} {c : Client} (h : s.Wired) (hown : a.own = true)
    (hs : Runtime.client.step s.client a = some c) : (s.follow a c).Wired := by
  have hordered := h.ordered.step hs
  -- every step but the client's own is a section under the lock, or makes a new reader
  cases a with
  | line | handle => cases hown
  | command cmd w =>
    simp only [Runtime.client] at hs
    split at hs
    · cases hs
      exact h.sendLine _ w s.client.asking
    · cases hs
      exact h
  | send name w =>
    simp only [Runtime.client] at hs
    split at hs
    · cases hs
      exact h.sendLine _ w _
    · cases hs
  | ask name =>
    simp only [Runtime.client] at hs
    split at hs
    · cases hs
      -- the count of the mod is what changes, and from now on the mod has been asked for
      refine h.section_ hordered rfl (.inl rfl) (fun conn => le_refl _) fun other hother => ?_
      rw [List.mem_cons, not_or] at hother
      exact (Function.update_of_ne hother.1 _ _).trans (h.asked other hother.2)
    · cases hs
      refine h.section_ hordered rfl (.inl rfl) (fun conn => le_refl _) fun other hother => ?_
      exact h.asked other fun hmem => hother (List.mem_cons_of_mem name hmem)
  | connect cloned =>
    simp only [Runtime.client] at hs
    split at hs
    · rename_i hidle
      cases hs
      -- a new connection: nothing is read of it yet, and no line of it is in hand
      refine reset hordered (fun conn hc => ?_) (fun conn line hc => by cases hc) fun name hn => ?_
      · cases cloned with
        | true => exact hc
        | false =>
          have := h.writer conn hc
          rw [hidle] at this
          cases this
      · cases cloned <;> exact h.asked name hn
    · cases hs
  | disconnect =>
    simp only [Runtime.client] at hs
    split at hs
    · cases hs
      exact reset hordered (fun conn hc => by cases hc)
        (fun conn line hc => by cases hc) fun name _ => rfl
    · cases hs
  -- a ping writes to the wire at most
  | ping w =>
    cases hs
    have hping : (s.client.ping w).reader = s.client.reader ∧
        (s.client.ping w).shared = s.client.shared ∧
        ∀ conn, (s.client.wire conn).length ≤ ((s.client.ping w).wire conn).length := by
      unfold Client.ping
      split
      · exact ⟨rfl, rfl, fun conn => le_refl _⟩
      · exact ⟨by simp, by simp, fun conn => s.client.length_put_le _ conn⟩
    refine h.section_ hordered hping.1 (.inl (by rw [hping.2.1])) hping.2.2 fun name hn => ?_
    rw [hping.2.1]
    exact h.asked name hn
  | newBoot =>
    cases hs
    exact h.section_ hordered rfl (.inl rfl) (fun conn => le_refl _) fun name _ => rfl

/-- The host takes the next line off the wire and answers it behind what it has said. -/
theorem hear {conn : Nat} {sent : Sent} (h : s.Wired) (hconn : s.client.reader.conn = some conn)
    (hsent : (s.client.wire conn)[s.read]? = some sent) (journal : List Chars) :
    (s.hear sent journal).Wired := by
  have hlt : s.read < (s.client.wire conn).length := (List.getElem?_eq_some_iff.mp hsent).1
  have hread : ∀ conn', s.client.reader.conn = some conn' →
      s.read + 1 ≤ (s.client.wire conn').length := by
    intro conn' hc
    cases hconn.symm.trans hc
    exact hlt
  -- a torn line, a blank one and one that is no request leave everything but the read position
  have hsame : ∀ ragged, System.Wired { s with read := s.read + 1, ragged := ragged } :=
    fun ragged =>
    ⟨h.ordered, h.writer, hread, h.idle, h.handling, h.groups, h.later, h.free, h.asked⟩
  unfold System.hear
  dsimp only
  split
  · exact hsame _
  · split
    · exact hsame _
    · split
      · rename_i name hname
        -- a request: its group goes to the end of what is to be said, and the group says its first
        -- line first
        exact {
          ordered := h.ordered
          writer := h.writer
          read_le := hread
          idle := fun hc => by cases hconn.symm.trans hc
          handling := fun conn line hc => by
            have hhead := h.handling conn line hc
            cases hto : s.toHost with
            | nil =>
              -- the line in hand is the head of the queue, so a group behind it does not disturb it
              rw [hto] at hhead
              cases hhead
            | cons out rest =>
              rw [hto] at hhead
              exact hhead
          groups := fun g k hg => by
            rcases List.mem_append.mp hg with hold | hnew
            · obtain ⟨h1, h2, h3⟩ := h.groups g k hold
              exact ⟨h1, List.mem_append_left _ h2, h3⟩
            · cases List.mem_singleton.mp hnew
              exact ⟨(eq_logLine_of_asked hname).2,
                List.mem_append_right _ (List.mem_singleton_self _), by simp [Group.lines]⟩
          later := fun g k hg => by
            cases hto : s.toHost with
            | nil =>
              rw [hto] at hg
              cases hg
            | cons out rest =>
              rw [hto] at hg
              rcases List.mem_append.mp hg with hold | hnew
              · exact h.later g k (by rw [hto]; exact hold)
              · cases List.mem_singleton.mp hnew
                rfl
          free := fun line hl => by
            rcases List.mem_append.mp hl with hold | hnew
            · exact h.free line hold
            · cases List.mem_singleton.mp hnew
          asked := h.asked }
      · exact hsame _

/-- The host may say other things at any time. -/
theorem push (h : s.Wired) {line : Chars} (hfree : logFree line = true)
    (hconn : s.client.reader.conn ≠ none) :
    System.Wired { s with toHost := s.toHost ++ [.other line] } where
  ordered := h.ordered
  writer := h.writer
  read_le := h.read_le
  idle hc := absurd hc hconn
  handling conn text hc := by
    have hhead := h.handling conn text hc
    cases hto : s.toHost with
    | nil =>
      rw [hto] at hhead
      cases hhead
    | cons out rest =>
      rw [hto] at hhead
      exact hhead
  groups g k hg := by
    rcases List.mem_append.mp hg with hold | hnew
    · exact h.groups g k hold
    · cases List.mem_singleton.mp hnew
  later g k hg := by
    cases hto : s.toHost with
    | nil =>
      rw [hto] at hg
      cases hg
    | cons out rest =>
      rw [hto] at hg
      rcases List.mem_append.mp hg with hold | hnew
      · exact h.later g k (by rw [hto]; exact hold)
      · cases List.mem_singleton.mp hnew
  free text hl := by
    rcases List.mem_append.mp hl with hold | hnew
    · exact h.free text hold
    · cases List.mem_singleton.mp hnew
      exact hfree
  asked := h.asked

/-- A line reaches the reader. -/
theorem deliver {conn : Nat} {out : Out} {luck : List Wrote} (h : s.Wired)
    (hreader : s.client.reader = .reading conn) (hout : s.toHost.head? = some out) :
    System.Wired { s with client := s.client.lineArrived conn out.line luck } := by
  obtain ⟨hreader', -, -, hlogs, hwriter, hwire⟩ := s.client.lineArrived_frame conn out.line luck
  have hconn : s.client.reader.conn = some conn := by rw [hreader]; rfl
  exact {
    ordered := h.ordered.lineArrived conn out.line luck
    writer := fun conn' hc => by
      rw [hreader']
      rw [hwriter] at hc
      exact hconn.symm.trans (h.writer conn' hc)
    read_le := fun conn' hc => by
      rw [hreader'] at hc
      exact (h.read_le conn' (hconn.trans hc)).trans (hwire conn')
    idle := fun hc => by
      rw [hreader'] at hc
      cases hc
    handling := fun conn' line hc => by
      rw [hreader'] at hc
      cases hc
      show s.toHost.head?.map Out.line = _
      rw [hout]
      rfl
    groups := h.groups
    later := h.later
    free := h.free
    asked := fun name hn => (congrFun (congrArg Prod.fst hlogs) name).trans (h.asked name hn) }

/-- The reader is done with a line. -/
theorem handle {conn : Nat} {out : Out} {rest : List Out} (h : s.Wired)
    (hreader : s.client.reader = .handling conn out.line) (hout : s.toHost = out :: rest) :
    System.Wired { s with
      client := s.client.handle conn out.line, toHost := out.next ++ rest } := by
  have hconn : s.client.reader.conn = some conn := by rw [hreader]; rfl
  have hqueue : s.client.shared.SameQueue (s.client.handle conn out.line).shared := by
    rw [Client.handle_shared]
    exact s.client.shared.sameQueue_dispatch _
  exact {
    ordered := h.ordered.same hqueue rfl rfl rfl
    writer := fun conn' hc => by
      rw [hqueue.writer] at hc
      exact hconn.symm.trans (h.writer conn' hc)
    read_le := fun conn' hc => h.read_le conn' (hconn.trans hc)
    idle := fun hc => by cases hc
    handling := fun conn' line hc => by cases hc
    groups := fun g k hg => by
      rcases List.mem_append.mp hg with hnew | hold
      · rcases out.next_cases with hnil | ⟨g', k', rfl, hlt, hone⟩
        -- the next line of the same group takes the place of the one that was handled
        · rw [hnil] at hnew
          cases hnew
        · rw [hone] at hnew
          cases List.mem_singleton.mp hnew
          have hold := h.groups g k' (by rw [hout]; exact List.mem_cons_self)
          exact ⟨hold.1, hold.2.1, hlt⟩
      · exact h.groups g k (by rw [hout]; exact List.mem_cons_of_mem _ hold)
    later := fun g k hg => by
      have hlater : ∀ g k, Out.group g k ∈ rest → k = 0 := by
        -- only the head of the queue may be a group that has begun
        intro g k hmem
        exact h.later g k (by rw [hout]; exact hmem)
      rcases out.next_cases with hnil | ⟨g', k', -, -, hone⟩
      · rw [hnil] at hg
        exact hlater g k (List.mem_of_mem_tail hg)
      · rw [hone] at hg
        exact hlater g k hg
    free := fun line hl => by
      rcases List.mem_append.mp hl with hnew | hold
      · rcases out.next_cases with hnil | ⟨g', k', -, -, hone⟩
        · rw [hnil] at hnew
          cases hnew
        · rw [hone] at hnew
          cases List.mem_singleton.mp hnew
      · exact h.free line (by rw [hout]; exact List.mem_cons_of_mem _ hold)
    asked := fun name hn => by
      rw [Client.handle_shared]
      exact s.client.shared.modLogsPartial_dispatch_none (h.asked name hn) _ }

/-! ## What is waiting, step by step -/

/-- What is on the wire depends on the wire alone. -/
theorem onWire_put (h : s.Wired) (c : Client) (sent : List Sent)
    (hwire : ∀ conn, c.wire conn = (s.client.put s.client.shared.writer sent).wire conn)
    (hreader : c.reader.conn = s.client.reader.conn) (name : Chars) :
    System.onWire { s with client := c } name =
      s.onWire name ++ if s.client.shared.writer = none then [] else sentRequests name sent := by
  unfold System.onWire
  rw [hreader]
  cases hconn : s.client.reader.conn with
  | none =>
    have hnone : s.client.shared.writer = none := by
      cases hw : s.client.shared.writer with
      | none => rfl
      | some conn => cases hconn.symm.trans (h.writer conn hw)
    rw [if_pos hnone]
    rfl
  | some conn =>
    show sentRequests name ((c.wire conn).drop s.read) = sentRequests name
        ((s.client.wire conn).drop s.read) ++ _
    rw [hwire, Client.put_wire, List.drop_append_of_le_length (h.read_le conn hconn),
      sentRequests_append]
    cases hw : s.client.shared.writer with
    | none => simp
    | some conn' =>
      cases hconn.symm.trans (h.writer conn' hw)
      simp

/-- A command that is accepted waits behind all others. -/
theorem waiting_sendLine (h : s.Wired) {text : Chars} (htext : text ≠ []) (w : Wrote)
    (asking : List Chars) (name : Chars) :
    System.waiting { s with client := { s.client with asking := asking }.sendLine text w } name =
      s.waiting name ++ requests name [⟨text, some s.client.accepted.length⟩] := by
  have hshort : ∀ n tag, ((Wrote.short n).sent ⟨text, tag⟩).whole = false := by
    intro n tag
    have hlen := Chars.utf8Len_pos htext
    have hne : min n (Chars.utf8Len text - 1) ≠ Chars.utf8Len text := by omega
    exact decide_eq_false hne
  have honWire := h.onWire_put ({ s.client with asking := asking }.sendLine text w)
    ({ s.client with asking := asking }.shared.sendLine w ⟨text, some s.client.accepted.length⟩).2
    (fun conn => by simp [Client.sendLine]) (by rw [(Client.sendLine_frame _ text w).1]) name
  show s.onHost name ++ (System.onWire { s with client := _ } name ++ requests name _) = _
  rw [honWire]
  show s.onHost name ++
      (s.onWire name ++ _ ++ requests name (s.client.shared.sendLine w _).1.pending) = _
  rcases s.client.shared.sendLine_cases w ⟨text, some s.client.accepted.length⟩ with
    ⟨hready, hw, rfl, hs⟩ | ⟨-, hw, hnot, hs⟩ | ⟨-, hs⟩
  · rw [hs]
    have hnil := h.ordered.empty hready hw
    simp [System.waiting, hnil, hw, sentRequests, Wrote.sent, Sent.whole]
  · rw [hs]
    obtain ⟨n, rfl⟩ : ∃ n, w = .short n := by
      cases w with
      | all => exact absurd rfl hnot
      | short n => exact ⟨n, rfl⟩
    simp [System.waiting, sentRequests, hshort]
  · rw [hs]
    simp [System.waiting]

/-- A ping leaves the waiting requests as they were. -/
theorem waiting_ping (h : s.Wired) (w : Wrote) (name : Chars) :
    System.waiting { s with client := s.client.ping w } name = s.waiting name := by
  unfold Client.ping
  split
  · rfl
  · have hnone : sentRequests name [w.sent ⟨chars "ping\n", none⟩] = [] := by
      refine sentRequests_eq_nil fun sent hsent => ?_
      rw [List.mem_singleton.mp hsent, Wrote.sent_cmd]
      exact ping_ne_logLine name
    have honWire :=
      h.onWire_put (s.client.put s.client.shared.writer [w.sent ⟨chars "ping\n", none⟩]) _
      (fun conn => rfl) (by simp) name
    show s.onHost name ++ (System.onWire { s with client := _ } name ++ requests name _) = _
    rw [honWire, hnone, Client.put_shared]
    simp [System.waiting]

/-- A line of the guest loses requests at most. -/
theorem waiting_lineArrived (h : s.Wired) {conn : Nat} (hconn : s.client.reader.conn = some conn)
    (text : Chars) (luck : List Wrote) (name : Chars) :
    (System.waiting { s with client := s.client.lineArrived conn text luck } name).Sublist
      (s.waiting name) := by
  have honWire : ∀ (c : Client) (sent : List Sent),
      (∀ n, c.wire n = (s.client.put s.client.shared.writer sent).wire n) →
      c.reader.conn = some conn → System.onWire { s with client := c } name =
        s.onWire name ++ if s.client.shared.writer = none then [] else sentRequests name sent :=
    fun c sent hc hr => h.onWire_put c sent hc (hr.trans hconn.symm) name
  unfold Client.lineArrived
  split
  -- a blank line is only taken in hand; any other flushes the queue first
  · refine List.Sublist.append_left ?_ _
    have hsame := honWire { s.client with reader := .handling conn text } [] (fun n => by simp) rfl
    show (System.onWire { s with client := _ } name ++
        requests name s.client.shared.pending).Sublist _
    rw [hsame]
    simp
  · refine List.Sublist.append_left ?_ _
    have hflush : System.onWire { s with client :=
        { s.client.put s.client.shared.writer (s.client.shared.flushPending luck).2 with
          shared := (s.client.shared.flushPending luck).1
          reader := .handling conn text } } name = _ := honWire _ _ (fun n => rfl) rfl
    show (System.onWire
        { s with
          client := { s.client.put s.client.shared.writer (s.client.shared.flushPending luck).2 with
            shared := (s.client.shared.flushPending luck).1
            reader := .handling conn text } } name ++
      requests name (s.client.shared.flushPending luck).1.pending).Sublist _
    rw [hflush, List.append_assoc]
    refine List.Sublist.append_left ?_ _
    -- no writer, nothing written; a write that fails; a write that succeeds
    rcases s.client.shared.flushPending_cases luck with ⟨-, hs⟩ | ⟨-, hw, hs⟩ | ⟨-, hw, hs⟩
    · rw [hs]
      simp
    · rw [hs, hw]
      simp
    · rw [hs, if_neg hw]
      -- what was written whole is a part of what was queued, in its order
      have hsub :
          ((writeQueue luck s.client.shared.pending).filter Sent.whole).map Sent.cmd
            |>.Sublist s.client.shared.pending :=
        (List.filter_sublist.map _).trans (writeQueue_isStart luck s.client.shared.pending).sublist
      simpa [sentRequests, requests] using (hsub.filter _).map Cmd.tag

/-- What cfgd takes from the connection it answers, or it is lost. -/
theorem waiting_hear {conn : Nat} {sent : Sent} (hconn : s.client.reader.conn = some conn)
    (hsent : (s.client.wire conn)[s.read]? = some sent) (journal : List Chars) (name : Chars) :
    ((s.hear sent journal).waiting name).Sublist (s.waiting name) := by
  have hwire : s.onWire name = sentRequests name [sent] ++ sentRequests name
      ((s.client.wire conn).drop (s.read + 1)) := by
    obtain ⟨hlt, rfl⟩ := List.getElem?_eq_some_iff.mp hsent
    unfold System.onWire
    rw [hconn]
    show sentRequests name _ = _
    rw [List.drop_eq_getElem_cons hlt, ← sentRequests_append]
    rfl
  have hnext : ∀ ragged toHost answered, System.onWire
      { s with read := s.read + 1, ragged := ragged, toHost := toHost, answered := answered } name =
        sentRequests name ((s.client.wire conn).drop (s.read + 1)) := by
    intro ragged toHost answered
    unfold System.onWire
    dsimp only
    rw [hconn]
  -- whatever is read and not answered is out of the waiting requests
  have hlost : ∀ ragged,
      (System.waiting { s with read := s.read + 1, ragged := ragged } name).Sublist
        (s.waiting name) := by
    intro ragged
    refine List.Sublist.append_left ?_ _
    show (System.onWire { s with read := s.read + 1, ragged := ragged } name ++ _).Sublist _
    rw [hnext ragged s.toHost s.answered, hwire, List.append_assoc]
    exact List.sublist_append_right _ _
  unfold System.hear
  dsimp only
  split
  · exact hlost _
  · rename_i hwhole
    split
    · exact hlost _
    · split
      · rename_i asked hasked
        have htext := (eq_logLine_of_asked hasked).1
        -- an answered request moves from the wire to the groups
        have htag : sentRequests name [sent] =
            [Out.group ⟨sent.cmd.tag, asked, journal⟩ 0].filterMap (Out.request name) := by
          have hw : sent.whole = true := by simpa using hwhole
          by_cases hname : asked = name
          · subst hname
            simp [sentRequests, requests_singleton, hw, htext, Out.request]
          · have hne : logLine asked ≠ logLine name := fun heq => hname (logLine_injective heq)
            simp [sentRequests, requests_singleton, hw, htext, hne, Out.request, hname]
        unfold System.waiting
        rw [hnext, hwire, htag]
        unfold System.onHost
        dsimp only
        rw [List.filterMap_append, List.append_assoc, List.append_assoc]
      · exact hlost _

end System.Wired

namespace System.Journal

variable {s t : System}

/-- A step that leaves the journals alone and loses requests at most. -/
theorem of_logs (h : s.Journal) (hw : t.Wired) (hlogs : t.client.shared.logs = s.client.shared.logs)
    (hwaiting : ∀ name, (t.waiting name).Sublist (s.waiting name))
    (hasking : t.client.asking = s.client.asking)
    (hlatest : ∀ name, latest t.client.accepted name = latest s.client.accepted name)
    (hhead : ∀ g k rest, t.toHost = .group g k :: rest → 0 < k →
      ∃ rest', s.toHost = .group g k :: rest')
    (hanswered : ∀ x ∈ s.answered, x ∈ t.answered) : t.Journal where
  toWired := hw
  counts name d lines hp := by
    rw [show t.client.shared.modLogsPartial = _ from congrArg Prod.fst hlogs] at hp
    rw [hasking, hlatest]
    exact (h.counts name d lines hp).sublist (hwaiting name)
  receiving g k rest d lines hto hk hp := by
    rw [show t.client.shared.modLogsPartial = _ from congrArg Prod.fst hlogs] at hp
    obtain ⟨rest', hto'⟩ := hhead g k rest hto hk
    exact h.receiving g k rest' d lines hto' hk hp
  complete name lines hl := by
    rw [show t.client.shared.modLogs = _ from congrArg Prod.snd hlogs] at hl
    obtain ⟨hask, n, journal, hn, hmem, heq⟩ := h.complete name lines hl
    rw [hasking, hlatest]
    exact ⟨hask, n, journal, hn, hanswered _ hmem, heq⟩

/-- A step that clears the journals. -/
theorem of_cleared (hw : t.Wired) (hcounts0 : ∀ name, t.client.shared.modLogsPartial name = none)
    (hlogs : ∀ name, t.client.shared.modLogs name = none) : t.Journal where
  toWired := hw
  counts name d lines hp := by cases (hcounts0 name).symm.trans hp
  receiving g k rest d lines hto hk hp := by cases (hcounts0 g.name).symm.trans hp
  complete name lines hl := by cases (hlogs name).symm.trans hl

/-- No log has been shown, and none is waited for. -/
theorem init : System.init.Journal := of_cleared .init (fun _ => rfl) fun _ => rfl

/-- A command that is no request. -/
theorem command (h : s.Journal) {text : Chars} (htext : text ≠ [])
    (hno : ∀ name, text ≠ logLine name) (w : Wrote) :
    System.Journal { s with client := s.client.sendLine text w } := by
  obtain ⟨-, hasking, hlogs, -⟩ := s.client.sendLine_frame text w
  refine h.of_logs (h.toWired.sendLine text w s.client.asking) hlogs (fun name => ?_) hasking
    (fun name => ?_)
    (fun g k rest hto _ => ⟨rest, hto⟩) fun x hx => hx
  -- it is no request, so nobody waits for more
  · have hwaiting := h.toWired.waiting_sendLine htext w s.client.asking name
    rw [requests_singleton, if_neg (hno name), List.append_nil] at hwaiting
    exact (List.Sublist.refl _).trans (hwaiting ▸ List.Sublist.refl _)
  -- and it is not the latest of any mod
  · show latest (s.client.accepted ++ [text]) name = _
    rw [latest_concat, if_neg (hno name)]

/-- A request that is accepted: it waits behind all others, and is the latest. -/
theorem send (h : s.Journal) {name : Chars} (hask : name ∈ s.client.asking) (w : Wrote) :
    System.Journal { s with client :=
      { s.client with asking := s.client.asking.erase name }.sendLine (logLine name) w } := by
  have hne : logLine name ≠ [] := by simp [logLine, chars]
  obtain ⟨-, hasking, hlogs, -⟩ :=
    Client.sendLine_frame { s.client with asking := s.client.asking.erase name } (logLine name) w
  have hwaiting := h.toWired.waiting_sendLine hne w (s.client.asking.erase name)
  have hlatest : ∀ other, latest (s.client.accepted ++ [logLine name]) other =
      if name = other then some s.client.accepted.length else latest s.client.accepted other := by
    intro other
    rw [latest_concat]
    by_cases heq : name = other
    · rw [if_pos heq, if_pos (congrArg logLine heq)]
    · rw [if_neg heq, if_neg fun hl => heq (logLine_injective hl)]
  have hcounts0 :
      ∀ other, ({ s.client with asking := s.client.asking.erase name }.sendLine
        (logLine name) w).shared.modLogsPartial
      other = s.client.shared.modLogsPartial other := congrFun (congrArg Prod.fst hlogs)
  exact {
    toWired := h.toWired.sendLine _ w _
    counts := fun other d lines hp => by
      rw [hcounts0] at hp
      have hcounts := h.counts other d lines hp
      have hcov := hcounts.covers
      rw [hwaiting, hasking]
      show Counts d _ ((s.client.asking.erase name).count other)
          (latest (s.client.accepted ++ [logLine name]) other)
      rw [hlatest, requests_singleton]
      by_cases heq : name = other
      -- one call of `asking` has become one waiting request
      · subst heq
        have hpos : 0 < s.client.asking.count name := List.count_pos_iff.mpr hask
        rw [if_pos rfl, if_pos rfl, List.count_erase_self]
        refine ⟨hcounts.pos, hcounts.lt, ?_, fun _ _ => ⟨rfl, by simp⟩⟩
        simp only [List.length_append, List.length_singleton]
        omega
      -- the other mods' requests are as they were
      · have hno : logLine name ≠ logLine other := fun hl => heq (logLine_injective hl)
        rw [if_neg heq, if_neg hno, List.append_nil, List.count_erase_of_ne (Ne.symm heq)]
        exact hcounts
    receiving := fun g k rest d lines hto hk hp => by
      rw [hcounts0] at hp
      exact h.receiving g k rest d lines hto hk hp
    complete := fun other lines hl => by
      have hold : s.client.shared.modLogs other = some lines :=
        (congrFun (congrArg Prod.snd hlogs) other).symm.trans hl
      obtain ⟨hnot, n, journal, hn, hmem, heq⟩ := h.complete other lines hold
      -- a journal that is complete has no call outstanding
      have hno : name ≠ other := by
        rintro rfl
        exact hnot hask
      refine ⟨?_, n, journal, ?_, hmem, heq⟩
      · rw [hasking]
        exact fun hmem => hnot (List.mem_of_mem_erase hmem)
      · show latest (s.client.accepted ++ [logLine name]) other = _
        rw [hlatest, if_neg hno]
        exact hn }

/-- A request that is counted: it starts a count over nothing, or adds to one. -/
theorem ask (h : s.Journal) {name : Chars} (hname : askable name = true)
    (hg : CountCovers s (.client (.ask name))) (hw : System.Wired { s with
      client := { s.client with
        shared := s.client.shared.countModLog name, asking := s.client.asking ++ [name] }
      requested := name :: s.requested }) :
    System.Journal { s with
      client := { s.client with
        shared := s.client.shared.countModLog name, asking := s.client.asking ++ [name] }
      requested := name :: s.requested } := by
  have hguard := hg hname
  have hentry : (s.client.shared.countModLog name).modLogsPartial name =
      some (wrappingSucc ((s.client.shared.modLogsPartial name).getD (0, [])).1,
        ((s.client.shared.modLogsPartial name).getD (0, [])).2) := Function.update_self ..
  have hother : ∀ other, other ≠ name →
      (s.client.shared.countModLog name).modLogsPartial other =
        s.client.shared.modLogsPartial other :=
    fun other hne => Function.update_of_ne hne ..
  exact {
    toWired := hw
    counts := fun other d lines hp => by
      show Counts d (s.waiting other) ((s.client.asking ++ [name]).count other)
          (latest s.client.accepted other)
      rw [List.count_append]
      by_cases heq : other = name
      · subst heq
        have hone : [other].count other = 1 := by simp
        have hcount : (s.client.shared.countModLog other).modLogsPartial other = some (d, lines) :=
          hp
        rw [hentry] at hcount
        cases hold : s.client.shared.modLogsPartial other with
        | none =>
          rw [hold] at hguard hcount
          cases hcount
          -- nothing waits and nobody asks, so the count starts at one
          rw [hguard.1, hguard.2, hone]
          exact ⟨by decide, by decide, by decide, fun _ hc => by cases hc⟩
        | some entry =>
          obtain ⟨d', lines'⟩ := entry
          rw [hold] at hguard hcount
          have hcounts := h.counts other d' lines' hold
          have hcov := hcounts.covers
          have hroom : d' + 1 < 2 ^ 32 := hguard
          -- the guard keeps the count from wrapping
          have hsucc : wrappingSucc d' = d' + 1 := by
            unfold wrappingSucc
            rw [if_neg (by omega)]
          obtain ⟨rfl, rfl⟩ : d = d' + 1 ∧ lines = lines' := by
            simp only [Option.getD_some, hsucc, Option.some.injEq, Prod.mk.injEq] at hcount
            exact ⟨hcount.1.symm, hcount.2.symm⟩
          rw [hone]
          exact ⟨by omega, hguard, by omega, fun _ hc => by omega⟩
      · have hzero : [name].count other = 0 := by simp [Ne.symm heq]
        have hold : s.client.shared.modLogsPartial other = some (d, lines) :=
          (hother other heq).symm.trans hp
        rw [hzero, Nat.add_zero]
        exact h.counts other d lines hold
    receiving := fun g k rest d lines hto hk hp => by
      by_cases heq : g.name = name
      · have hcount : (s.client.shared.countModLog name).modLogsPartial name = some (d, lines) :=
          heq ▸ hp
        rw [hentry] at hcount
        cases hold : s.client.shared.modLogsPartial name with
        | none =>
          -- no group of this mod can be on its way: none of its requests waits
          rw [hold] at hguard
          have hto' : s.toHost = .group g k :: rest := hto
          have hmem : g.tag ∈ s.waiting name := by
            refine List.mem_append_left _ ?_
            unfold System.onHost
            rw [hto']
            simp [Out.request, heq]
          rw [hguard.1] at hmem
          cases hmem
        | some entry =>
          rw [hold] at hcount
          cases hcount
          exact h.receiving g k rest entry.1 entry.2 hto hk (heq ▸ hold)
      · exact h.receiving g k rest d lines hto hk ((hother g.name heq).symm.trans hp)
    complete := fun other lines hl => by
      -- the count clears the journal of its own mod, and of no other
      have hne : other ≠ name := by
        rintro rfl
        have hgone : (s.client.shared.countModLog other).modLogs other = none :=
          Function.update_self ..
        cases hgone.symm.trans hl
      have hold : s.client.shared.modLogs other = some lines :=
        (Function.update_of_ne hne _ _).symm.trans hl
      obtain ⟨hnot, n, journal, hn, hmem, heq⟩ := h.complete other lines hold
      refine ⟨fun hin => ?_, n, journal, hn, hmem, heq⟩
      rcases List.mem_append.mp hin with hold | hnew
      · exact hnot hold
      · exact hne (List.mem_singleton.mp hnew) }

/-- A new connection starts with the requests that are kept for resending. -/
theorem connect (h : s.Journal) (cloned : Bool)
    (hw : System.Wired (s.follow (.connect cloned) { s.client with
      shared := if cloned then s.client.shared.connected s.client.conns else s.client.shared
      reader := .reading s.client.conns
      conns := s.client.conns + 1 })) :
    System.Journal (s.follow (.connect cloned) { s.client with
      shared := if cloned then s.client.shared.connected s.client.conns else s.client.shared
      reader := .reading s.client.conns
      conns := s.client.conns + 1 }) := by
  refine h.of_logs hw ?_ (fun name => ?_) rfl (fun name => rfl)
    (fun g k rest hto => by cases hto) fun x hx => hx
  · cases cloned <;> rfl
  -- `status` is put behind the requests; it is no request itself
  · have hqueued :
        requests name
          (if cloned = true then s.client.shared.connected s.client.conns else
            s.client.shared).pending =
        requests name s.client.shared.pending := by
      cases cloned with
      | false => rfl
      | true =>
        show requests name (if _ then _ else _) = _
        split
        · rfl
        · rw [requests_append, requests_singleton, if_neg (status_ne_logLine name), List.append_nil]
    have honWire : System.onWire (s.follow (.connect cloned) { s.client with
        shared := if cloned then s.client.shared.connected s.client.conns else s.client.shared
        reader := .reading s.client.conns
        conns := s.client.conns + 1 }) name = [] := by
      show sentRequests name ((s.client.wire s.client.conns).drop 0) = []
      rw [h.ordered.unused s.client.conns (le_refl _)]
      rfl
    unfold System.waiting
    rw [honWire]
    show (_ ++ ([] ++ requests name (if cloned = true then s.client.shared.connected s.client.conns
      else s.client.shared).pending)).Sublist _
    rw [hqueued]
    exact (List.sublist_append_right _ _).trans (List.sublist_append_right _ _)

/-- A step of the client that is not the reader's. -/
theorem client_step {a : Client.Event} {c : Client} (h : s.Journal) (hown : a.own = true)
    (hg : CountCovers s (.client a)) (hs : Runtime.client.step s.client a = some c) :
    (s.follow a c).Journal := by
  have hw := h.toWired.client_step hown hs
  -- the cases of the client's own events; the reader's two have their own lemmas
  cases a with
  | line | handle => cases hown
  | command cmd w =>
    simp only [Runtime.client] at hs
    split at hs
    · rename_i text htext
      cases hs
      exact h.command (Command.line_ne_nil htext) (Command.line_ne_logLine htext) w
    · cases hs
      exact h
  | send name w =>
    simp only [Runtime.client] at hs
    split at hs
    -- only a call that has counted its request sends it
    · rename_i hask
      cases hs
      exact h.send hask w
    · cases hs
  | ask name =>
    simp only [Runtime.client] at hs
    split at hs
    · rename_i hname
      cases hs
      exact h.ask hname hg hw
    · cases hs
      exact h.of_logs hw rfl (fun name => List.Sublist.refl _) rfl (fun name => rfl)
        (fun g k rest hto _ => ⟨rest, hto⟩) fun x hx => hx
  | connect cloned =>
    simp only [Runtime.client] at hs
    split at hs
    · cases hs
      exact h.connect cloned hw
    · cases hs
  | disconnect =>
    simp only [Runtime.client] at hs
    split at hs
    · cases hs
      exact of_cleared hw (fun name => rfl) fun name => rfl
    · cases hs
  -- a ping changes the wire alone
  | ping w =>
    cases hs
    have hping : (s.client.ping w).shared = s.client.shared ∧
        (s.client.ping w).asking = s.client.asking ∧
        (s.client.ping w).accepted = s.client.accepted := by
      unfold Client.ping
      split <;> simp
    refine h.of_logs hw (congrArg Shared.logs hping.1) (fun name => ?_) hping.2.1
      (fun name => ?_) (fun g k rest hto _ => ⟨rest, hto⟩) fun x hx => hx
    · exact (h.toWired.waiting_ping w name) ▸ List.Sublist.refl _
    · show latest (s.client.ping w).accepted name = _
      rw [hping.2.2]
  -- a new boot forgets the counts, and with them what they stood for
  | newBoot =>
    cases hs
    exact of_cleared hw (fun name => rfl) fun name => rfl

/-- The host's answer to a request carries its tag. -/
theorem hear {conn : Nat} {sent : Sent} (h : s.Journal) (hconn : s.client.reader.conn = some conn)
    (hsent : (s.client.wire conn)[s.read]? = some sent) (journal : List Chars) :
    (s.hear sent journal).Journal := by
  have hframe : (s.hear sent journal).client = s.client ∧
      (∀ x ∈ s.answered, x ∈ (s.hear sent journal).answered) ∧
      ∀ g k rest, (s.hear sent journal).toHost = .group g k :: rest → 0 < k →
        ∃ rest', s.toHost = .group g k :: rest' := by
    unfold System.hear
    dsimp only
    split
    · exact ⟨rfl, fun x hx => hx, fun g k rest hto _ => ⟨rest, hto⟩⟩
    · split
      · exact ⟨rfl, fun x hx => hx, fun g k rest hto _ => ⟨rest, hto⟩⟩
      · split
        · refine ⟨rfl, fun x hx => List.mem_append_left _ hx, fun g k rest hto hk => ?_⟩
          have hto' : s.toHost ++ _ = .group g k :: rest := hto
          cases hold : s.toHost with
          | nil =>
            rw [hold] at hto'
            cases hto'
            omega
          | cons out rest' =>
            rw [hold] at hto'
            cases hto'
            exact ⟨rest', rfl⟩
        · exact ⟨rfl, fun x hx => hx, fun g k rest hto _ => ⟨rest, hto⟩⟩
  obtain ⟨hclient, hanswered, hhead⟩ := hframe
  exact h.of_logs (h.toWired.hear hconn hsent journal) (by rw [hclient])
    (fun name => System.Wired.waiting_hear hconn hsent journal name) (by rw [hclient])
      (fun name => by rw [hclient])
    hhead hanswered

/-- A line without a log changes no log. -/
theorem push (h : s.Journal) {line : Chars} (hfree : logFree line = true)
    (hconn : s.client.reader.conn ≠ none) :
    System.Journal { s with toHost := s.toHost ++ [.other line] } := by
  refine h.of_logs (h.toWired.push hfree hconn) rfl (fun name => ?_) rfl (fun name => rfl)
    (fun g k rest hto hk => ?_)
    fun x hx => hx
  · have hsame : System.onHost { s with toHost := s.toHost ++ [.other line] } name =
        s.onHost name := by
      unfold System.onHost
      dsimp only
      rw [List.filterMap_append]
      simp [Out.request]
    show (System.onHost { s with toHost := s.toHost ++ [.other line] } name ++ _).Sublist _
    rw [hsame]
    exact List.Sublist.refl _
  · have hto' : s.toHost ++ [.other line] = .group g k :: rest := hto
    cases hold : s.toHost with
    | nil =>
      rw [hold] at hto'
      cases hto'
    | cons out rest' =>
      rw [hold] at hto'
      cases hto'
      exact ⟨rest', rfl⟩

/-- Nor does a line on its way. -/
theorem deliver {conn : Nat} {out : Out} {luck : List Wrote} (h : s.Journal)
    (hreader : s.client.reader = .reading conn) (hout : s.toHost.head? = some out) :
    System.Journal { s with client := s.client.lineArrived conn out.line luck } := by
  obtain ⟨-, hasking, hacc, hlogs, -, -⟩ := s.client.lineArrived_frame conn out.line luck
  have hconn : s.client.reader.conn = some conn := by rw [hreader]; rfl
  refine h.of_logs (h.toWired.deliver hreader hout) hlogs
    (fun name => h.toWired.waiting_lineArrived hconn out.line luck name) hasking (fun name => ?_)
    (fun g k rest hto _ => ⟨rest, hto⟩) fun x hx => hx
  show latest (s.client.lineArrived conn out.line luck).accepted name = _
  rw [hacc]

end System.Journal

/-! ## A line of a group -/

/-- A log is kept up to its newest lines. -/
theorem length_kept (journal : List Chars) :
    (kept journal).length = min modLogLines journal.length := by
  simp [kept]

/-- One more line is kept while there is room. -/
theorem kept_concat (journal : List Chars) (line : Chars) :
    (if (kept journal).length < modLogLines then kept journal ++
      [clip modLogLineMax (Chars.trimEnd line)]
      else kept journal) = kept (journal ++ [line]) := by
  rw [length_kept]
  unfold kept
  rw [List.map_append, List.map_singleton]
  split
  · rename_i hroom
    have hlen : journal.length < modLogLines := by omega
    rw [List.take_of_length_le (by simp; omega), List.take_of_length_le (by simp; omega)]
  · rename_i hfull
    rw [List.take_append_of_le_length (by simp; omega)]

/-- What a line of a group does to the journal it belongs to. -/
inductive Effect (d : Nat) (lines : List Chars) (g : Group) (k : Nat) (s t : Shared) : Prop
  | starts : k = 0 → t.modLogsPartial g.name = some (d, []) → t.modLogs g.name = s.modLogs g.name →
      Effect d lines g k s t
  | adds (line : Chars) : 0 < k → g.journal[k - 1]? = some line →
      t.modLogsPartial g.name = some (d,
        if lines.length < modLogLines then lines ++ [clip modLogLineMax (Chars.trimEnd line)]
        else lines) →
      t.modLogs g.name = s.modLogs g.name → Effect d lines g k s t
  | counts : k = g.journal.length + 1 → wrappingPred d ≠ 0 →
      t.modLogsPartial g.name = some (wrappingPred d, lines) →
      t.modLogs g.name = s.modLogs g.name → Effect d lines g k s t
  | ends : k = g.journal.length + 1 → wrappingPred d = 0 → t.modLogsPartial g.name = none →
      t.modLogs g.name = some lines → Effect d lines g k s t

/-- The lines of a group, by position. -/
theorem Group.line_cases (g : Group) {k : Nat} (hk : k < g.lines.length) :
    (k = 0 ∧ (Out.group g k).line = logBegin g.name) ∨
    (∃ line, 0 < k ∧ g.journal[k - 1]? = some line ∧ (Out.group g k).line = logText g.name line) ∨
    (k = g.journal.length + 1 ∧ (Out.group g k).line = logEnd g.name) := by
  have hlen : g.lines.length = g.journal.length + 2 := by simp [Group.lines]
  cases k with
  | zero => exact .inl ⟨rfl, rfl⟩
  | succ k =>
    rcases Nat.lt_or_ge k g.journal.length with hlt | hge
    · refine .inr (.inl ⟨g.journal[k], by omega, by simp [hlt], ?_⟩)
      simp [Out.line, Group.lines, List.getElem?_append, hlt]
    · obtain rfl : k = g.journal.length := by omega
      refine .inr (.inr ⟨rfl, ?_⟩)
      simp [Out.line, Group.lines]

/-- A line of a group adds to its own mod's log, and only to that. -/
theorem dispatch_group (s : Shared) (g : Group) {k : Nat} (hk : k < g.lines.length)
    (hname : askable g.name = true) :
    (∀ other, other ≠ g.name → (s.dispatch (Out.group g k).line).modLogsPartial other =
      s.modLogsPartial other ∧
      (s.dispatch (Out.group g k).line).modLogs other = s.modLogs other) ∧
    (s.modLogsPartial g.name = none → s.dispatch (Out.group g k).line = s) ∧
    (∀ d lines, s.modLogsPartial g.name = some (d, lines) →
      Effect d lines g k s (s.dispatch (Out.group g k).line)) := by
  -- the first line of a group, a line of the journal, the last line
  rcases g.line_cases hk with ⟨hpos, hline⟩ | ⟨line, hpos, hat, hline⟩ | ⟨hpos, hline⟩
  · rw [hline, dispatch_logBegin s hname]
    unfold Shared.onLogBegin
    cases hp : s.modLogsPartial g.name with
    | none => exact ⟨fun other _ => ⟨rfl, rfl⟩, fun _ => rfl, fun d lines hd => by cases hd⟩
    | some entry =>
      refine ⟨fun other hne => ⟨Function.update_of_ne hne .., rfl⟩, fun hnone => (by cases hnone),
        fun d lines hd => ?_⟩
      cases hd
      exact .starts hpos (Function.update_self ..) rfl
  · obtain ⟨rest, hrest, hsplit⟩ := dispatch_logText s hname line
    rw [hline, hrest]
    unfold Shared.onLog
    rw [hsplit]
    dsimp only
    -- without a count, the guest's answer is to nothing that was asked
    cases hp : s.modLogsPartial g.name with
    | none => exact ⟨fun other _ => ⟨rfl, rfl⟩, fun _ => rfl, fun d lines hd => by cases hd⟩
    | some entry =>
      dsimp only
      -- a journal line past the limits is dropped, and the count stays
      split
      · rename_i hroom
        refine ⟨fun other hne => ⟨Function.update_of_ne hne .., rfl⟩, fun hnone => (by cases hnone),
          fun d lines hd => ?_⟩
        cases hd
        refine .adds line hpos hat ?_ rfl
        rw [if_pos hroom]
        exact Function.update_self ..
      · rename_i hfull
        refine ⟨fun other hne => ⟨rfl, rfl⟩, fun hnone => (by cases hnone), fun d lines hd => ?_⟩
        cases hd
        refine .adds line hpos hat ?_ rfl
        rw [if_neg hfull]
        exact hp
  · rw [hline, dispatch_logEnd s hname]
    unfold Shared.onLogEnd
    cases hp : s.modLogsPartial g.name with
    | none => exact ⟨fun other _ => ⟨rfl, rfl⟩, fun _ => rfl, fun d lines hd => by cases hd⟩
    | some entry =>
      dsimp only
      -- the last count to come in completes the log; others are waited for
      split
      · rename_i hzero
        refine ⟨fun other hne => ⟨Function.update_of_ne hne .., Function.update_of_ne hne ..⟩,
          fun hnone => (by cases hnone), fun d lines hd => ?_⟩
        cases hd
        exact .ends hpos hzero (Function.update_self ..) (Function.update_self ..)
      · rename_i hmore
        refine ⟨fun other hne => ⟨Function.update_of_ne hne .., rfl⟩, fun hnone => (by cases hnone),
          fun d lines hd => ?_⟩
        cases hd
        exact .counts hpos hmore (Function.update_self ..) rfl

/-- Where an answer ends, the requests that wait are the ones behind it. -/
theorem Counts.answered {d calls : Nat} {tag : Option Nat} {w : List (Option Nat)}
    {last : Option Nat} (h : Counts d (tag :: w) calls last) :
    (d = 1 ∧ w = [] ∧ calls = 0 ∧ last.isSome ∧ tag = last) ∨
    (1 < d ∧ Counts (d - 1) w calls last) := by
  have hcov := h.covers
  have hlt := h.lt
  simp only [List.length_cons] at hcov
  rcases Nat.lt_or_ge 1 d with hd | hd
  · refine .inr ⟨hd, by omega, by omega, by omega, fun heq hcalls => ?_⟩
    obtain ⟨hsome, hlast⟩ := h.tight (by simp only [List.length_cons]; omega) hcalls
    refine ⟨hsome, ?_⟩
    cases w with
    | nil =>
      simp only [List.length_nil] at heq
      omega
    | cons x w => rwa [List.getLast?_cons_cons] at hlast
  · have hw : w = [] := List.length_eq_zero_iff.mp (by omega)
    subst hw
    obtain ⟨hsome, hlast⟩ :=
      h.tight (by simp only [List.length_cons, List.length_nil]; omega) (by omega)
    exact .inl ⟨by omega, rfl, by omega, hsome, by simpa using hlast⟩

namespace System

/-- The state once the reader has run the handler of `out`. -/
def handled (s : System) (conn : Nat) (out : Out) (rest : List Out) : System :=
  { s with client := s.client.handle conn out.line, toHost := out.next ++ rest }

variable {s : System} {conn : Nat} {out : Out} {rest : List Out}

/-- Once a line is handled its request waits no longer, unless the group has more lines. -/
theorem waiting_handled (hreader : s.client.reader = .handling conn out.line) (name : Chars) :
    (s.handled conn out rest).waiting name =
      (out.next ++ rest).filterMap (Out.request name) ++
        (s.onWire name ++ requests name s.client.shared.pending) := by
  have honWire : (s.handled conn out rest).onWire name = s.onWire name := by
    unfold onWire
    rw [hreader]
    rfl
  have hpending : (s.handled conn out rest).client.shared.pending = s.client.shared.pending := by
    show (s.client.handle conn out.line).shared.pending = _
    rw [Client.handle_shared]
    exact (s.client.shared.sameQueue_dispatch _).pending
  unfold waiting
  rw [honWire, hpending]
  rfl

/-- The waiting requests, the host's next line first. -/
theorem waiting_of_toHost (hout : s.toHost = out :: rest) (name : Chars) :
    s.waiting name =
      (out :: rest).filterMap (Out.request name) ++
        (s.onWire name ++ requests name s.client.shared.pending) := by
  unfold waiting onHost
  rw [hout]

/-- Handling another line keeps the journal. -/
theorem Journal.handled_other {line : Chars} (h : s.Journal)
    (hreader : s.client.reader = .handling conn line) (hout : s.toHost = .other line :: rest) :
    (s.handled conn (.other line) rest).Journal := by
  have hfree := h.free line (by rw [hout]; exact List.mem_cons_self)
  have hline : s.client.reader = .handling conn (Out.other line).line := hreader
  have hlogs : (s.client.handle conn line).shared.logs = s.client.shared.logs := by
    rw [Client.handle_shared]
    exact logs_dispatch_of_logFree _ hfree
  refine h.of_logs (h.toWired.handle hline hout) hlogs (fun name => ?_) rfl (fun name => rfl)
    (fun g k rest' hto hk => ?_) fun x hx => hx
  · rw [waiting_handled hline, waiting_of_toHost hout]
    exact List.Sublist.refl _
  · have hmem : Out.group g k ∈ s.toHost.tail := by
      rw [hout]
      have hto' : rest = .group g k :: rest' := hto
      rw [hto']
      exact List.mem_cons_self
    have := h.later g k hmem
    omega

/-- Handling a line of a group keeps it, too; its last line completes the log. -/
theorem Journal.handled_group {g : Group} {k : Nat} (h : s.Journal)
    (hreader : s.client.reader = .handling conn (Out.group g k).line)
    (hout : s.toHost = .group g k :: rest) :
    (s.handled conn (.group g k) rest).Journal := by
  obtain ⟨hname, hanswered, hk⟩ := h.groups g k (by rw [hout]; exact List.mem_cons_self)
  obtain ⟨hother, hnone, heffect⟩ := dispatch_group s.client.shared g hk hname
  rw [← Client.handle_shared s.client conn] at hother hnone heffect
  have hlen : g.lines.length = g.journal.length + 2 := by simp [Group.lines]
  -- the last line ends the group: its request is off the waiting list
  have hlast : k = g.journal.length + 1 → (Out.group g k).next = [] := by
    intro heq
    rw [Out.next, if_neg (by omega)]
  have hmore : k ≠ g.journal.length + 1 → (Out.group g k).next = [.group g (k + 1)] := by
    intro hne
    rw [Out.next, if_pos (by omega)]
  have hkeep : k ≠ g.journal.length + 1 → ∀ name, (s.handled conn (.group g k) rest).waiting name =
      s.waiting name := by
    intro hne name
    rw [waiting_handled hreader, waiting_of_toHost hout, hmore hne]
    rfl
  refine ⟨h.toWired.handle hreader hout, fun name d lines hp => ?_,
    fun g' k' rest' d lines hto hk' hp => ?_, fun name lines hl => ?_⟩
  · -- the counts
    have hp' : (s.client.handle conn (Out.group g k).line).shared.modLogsPartial name =
        some (d, lines) := hp
    show Counts d _ (s.client.asking.count name) (latest s.client.accepted name)
    by_cases heq : name = g.name
    · subst heq
      cases hold : s.client.shared.modLogsPartial g.name with
      | none =>
        rw [hnone hold, hold] at hp'
        cases hp'
      | some entry =>
        -- which line it was decides what it did to the count
        have hcounts := h.counts g.name entry.1 entry.2 hold
        rcases heffect entry.1 entry.2 hold with ⟨hpos, hnew, -⟩ | ⟨line, -, hat, hnew, -⟩ | ⟨hpos,
            hpred, hnew, -⟩ |
          ⟨-, -, hnew, -⟩
        · cases hnew.symm.trans hp'
          rw [hkeep (by omega)]
          exact hcounts
        · cases hnew.symm.trans hp'
          have hlt := (List.getElem?_eq_some_iff.mp hat).1
          rw [hkeep (by omega)]
          exact hcounts
        · cases hnew.symm.trans hp'
          rw [waiting_handled hreader, hlast hpos]
          rw [waiting_of_toHost hout, List.filterMap_cons_some (Out.request_self g k)] at hcounts
          have hzero := hcounts.pos
          unfold wrappingPred at hpred ⊢
          rw [if_neg (by omega)] at hpred ⊢
          rcases hcounts.answered with ⟨hone, -⟩ | ⟨-, hrest⟩
          · omega
          · exact hrest
        · cases hnew.symm.trans hp'
    -- another mod's log: neither its count nor its waiting requests have moved
    · rw [(hother name heq).1] at hp'
      have hsame : (s.handled conn (.group g k) rest).waiting name = s.waiting name := by
        rw [waiting_handled hreader, waiting_of_toHost hout]
        have hskip : ∀ j, Out.request name (.group g j) = none := fun j => by
          simp [Out.request, Ne.symm heq]
        rcases Nat.lt_or_ge (k + 1) g.lines.length with hlt | hge
        · rw [hmore (by omega)]
          simp [hskip]
        · rw [hlast (by omega)]
          simp [hskip]
      rw [hsame]
      exact h.counts name d lines hp'
  · -- the journal being received
    have hnot : Out.group g' k' ∉ rest := by
      intro hmem
      have := h.later g' k' (by rw [hout]; exact hmem)
      omega
    have hto' : (Out.group g k).next ++ rest = .group g' k' :: rest' := hto
    -- the last line of a group would leave none at the head
    have hne : k ≠ g.journal.length + 1 := by
      intro hend
      rw [hlast hend] at hto'
      exact hnot (by rw [show rest = _ from hto']; exact List.mem_cons_self)
    rw [hmore hne] at hto'
    cases hto'
    have hp' : (s.client.handle conn (Out.group g k).line).shared.modLogsPartial g.name =
        some (d, lines) := hp
    cases hold : s.client.shared.modLogsPartial g.name with
    | none =>
      rw [hnone hold, hold] at hp'
      cases hp'
    | some entry =>
      rcases heffect entry.1 entry.2 hold with ⟨hpos, hnew, -⟩ | ⟨line, hpos, hat, hnew, -⟩ | ⟨hpos,
          -, -, -⟩ |
        ⟨hpos, -, -, -⟩
      · cases hnew.symm.trans hp'
        subst hpos
        rfl
      -- one more line was received, as far as the limits take it
      · cases hnew.symm.trans hp'
        have hbefore := h.receiving g k rest entry.1 entry.2 hout hpos hold
        obtain ⟨hlt, rfl⟩ := List.getElem?_eq_some_iff.mp hat
        have htake : g.journal.take k = g.journal.take (k - 1) ++ [g.journal[k - 1]] := by
          conv_lhs => rw [show k = k - 1 + 1 by omega]
          exact List.take_succ_eq_append_getElem hlt
        rw [Nat.add_sub_cancel, htake, ← kept_concat, ← hbefore]
      · exact absurd hpos hne
      · exact absurd hpos hne
  · -- the journals received
    have hl' : (s.client.handle conn (Out.group g k).line).shared.modLogs name = some lines := hl
    by_cases heq : name = g.name
    · subst heq
      cases hold : s.client.shared.modLogsPartial g.name with
      | none =>
        rw [hnone hold] at hl'
        exact h.complete g.name lines hl'
      | some entry =>
        rcases heffect entry.1 entry.2 hold with
          ⟨-, -, hsame⟩ | ⟨-, -, -, -, hsame⟩ | ⟨-, -, -, hsame⟩ | ⟨hpos, hpred, -, hnew⟩
        · exact h.complete g.name lines (hsame.symm.trans hl')
        · exact h.complete g.name lines (hsame.symm.trans hl')
        · exact h.complete g.name lines (hsame.symm.trans hl')
        -- the count had come to one, so this answer is to the last request that was accepted
        · cases hnew.symm.trans hl'
          have hcounts := h.counts g.name entry.1 entry.2 hold
          have hzero := hcounts.pos
          rw [waiting_of_toHost hout, List.filterMap_cons_some (Out.request_self g k)] at hcounts
          unfold wrappingPred at hpred
          rw [if_neg (by omega)] at hpred
          rcases hcounts.answered with ⟨-, -, hcalls, hsome, htag⟩ | ⟨hmany, -⟩
          · obtain ⟨n, hn⟩ := Option.isSome_iff_exists.mp hsome
            have hlines := h.receiving g k rest entry.1 entry.2 hout (by omega) hold
            refine ⟨fun hmem => ?_, n, g.journal, hn, ?_, ?_⟩
            · have hasking : g.name ∈ s.client.asking := hmem
              have := List.count_pos_iff.mpr hasking
              omega
            · rw [← hn, ← htag]
              exact hanswered
            · rw [hlines, hpos, Nat.add_sub_cancel, List.take_length]
          · omega
    · rw [(hother name heq).2] at hl'
      exact h.complete name lines hl'

/-- Every step of the system keeps the journal, as long as the counts cover it. -/
theorem Journal.step {t : System} {a : System.Event} (h : s.Journal) (hg : CountCovers s a)
    (hs : system.step s a = some t) : t.Journal := by
  cases a with
  -- each event is a lemma above; what is left is to take the guards apart
  | client a =>
    simp only [system] at hs
    split at hs
    · rename_i hown
      obtain ⟨c, hc, rfl⟩ := Option.map_eq_some_iff.mp hs
      exact h.client_step hown hg hc
    · cases hs
  | hear journal =>
    obtain ⟨conn, hconn, hs⟩ := Option.bind_eq_some_iff.mp hs
    obtain ⟨sent, hsent, hs⟩ := Option.bind_eq_some_iff.mp hs
    cases hs
    exact h.hear hconn hsent journal
  | push line =>
    simp only [system] at hs
    split at hs
    · rename_i hline
      cases hs
      exact h.push hline.1 hline.2
    · cases hs
  | deliver luck =>
    obtain ⟨out, hout, hs⟩ := Option.bind_eq_some_iff.mp hs
    obtain ⟨c, hc, hs⟩ := Option.bind_eq_some_iff.mp hs
    cases hs
    simp only [Runtime.client] at hc
    split at hc
    · rename_i conn hreader
      cases hc
      exact h.deliver hreader hout
    · cases hc
  | handle =>
    obtain ⟨out, hout, hs⟩ := Option.bind_eq_some_iff.mp hs
    obtain ⟨c, hc, hs⟩ := Option.bind_eq_some_iff.mp hs
    cases hs
    simp only [Runtime.client] at hc
    split at hc
    · rename_i conn text hreader
      obtain rfl : s.client.handle conn text = c := Option.some.inj hc
      cases hto : s.toHost with
      | nil =>
        rw [hto] at hout
        cases hout
      | cons out' rest =>
        rw [hto] at hout
        cases hout
        -- the line in the reader's hand is the one that the host said
        obtain rfl : out.line = text := by
          have hhead := h.handling conn text hreader
          rw [hto] at hhead
          exact Option.some.inj hhead
        show (s.handled conn out rest).Journal
        cases out with
        | other line => exact h.handled_other hreader hto
        | group g k => exact h.handled_group hreader hto
    · cases hc

end System

/-! ## The journal is the latest answer -/

/-- So does every run. -/
theorem journal_of_reach {s : System} (h : system.Reach CountCovers System.init s) : s.Journal :=
  h.inv .init fun _ _ _ hj hg hs => hj.step hg hs

/-- What is kept of a journal that `name` has: the answer to its latest request. -/
def System.LatestAnswer (s : System) (name : Chars) (lines : List Chars) : Prop :=
  name ∉ s.client.asking ∧ ∃ n journal, latest s.client.accepted name = some n ∧
    (some n, journal) ∈ s.answered ∧ lines = kept journal

/-- The counters and the groups of names that nobody asked for. -/
structure System.Strict (s : System) : Prop where
  journals : ∀ name lines, s.client.shared.modLogs name = some lines → s.LatestAnswer name lines
  strangers : ∀ g : Group, askable g.name = true → g.name ∉ s.requested →
    ∀ line ∈ g.lines, s.client.shared.dispatch line = s.client.shared
  due : ∀ name d lines, s.client.shared.modLogsPartial name = some (d, lines) → 0 < d

/-- In every run in which each request that starts a new count finds no earlier request for
    that name waiting or being made, and no count wraps: a journal is the answer to the
    latest request for it, groups for names that were not asked for change nothing, and no
    count is decremented at zero. -/
theorem journal_is_latest_answer {s : System} (h : system.Reach CountCovers System.init s) :
    s.Strict := by
  have hj := journal_of_reach h
  refine ⟨hj.complete, fun g hname hnot line hline => ?_, fun name d lines hp =>
    (hj.counts name d lines hp).pos⟩
  obtain ⟨k, hk, rfl⟩ := List.mem_iff_getElem.mp hline
  have hget : (Out.group g k).line = g.lines[k] := by simp [Out.line, hk]
  rw [← hget]
  exact (dispatch_group s.client.shared g hk hname).2.1 (hj.asked g.name hnot)

/-- A request is queued, the connection ends and clears the count, and the next request counts from
    zero again, with the old one still queued: the journal that is kept answers the old one. -/
theorem stale_journal_after_reconnect : ¬ ∀ s, system.Reach Free System.init s → s.Strict := by
  intro hall
  obtain ⟨s, hreach, hstale⟩ := Reach.of_run_any (M := system) (G := Free) (s := System.init)
    (p := fun s => s.client.shared.modLogs (chars "a") == some [chars "1"] &&
      latest s.client.accepted (chars "a") == some 1 &&
      s.answered.all fun x => x.1 != some 1 || kept x.2 != [chars "1"])
    [.client (.connect true), .client (.ask (chars "a")), .client (.send (chars "a") .all),
      .client .disconnect, .client (.connect true), .client (.ask (chars "a")),
      .client (.send (chars "a") .all),
      .push (chars "pong"), .deliver [], .handle, .hear [], .hear [chars "1"], .hear [chars "2"],
      .deliver [], .handle, .deliver [], .handle, .deliver [], .handle] (by decide)
  simp only [Bool.and_eq_true, beq_iff_eq, List.all_eq_true] at hstale
  obtain ⟨⟨hlog, hlatest⟩, hanswered⟩ := hstale
  obtain ⟨-, n, journal, hn, hmem, hlines⟩ := (hall s hreach).journals (chars "a") _ hlog
  rw [hlatest] at hn
  cases hn
  have hother := hanswered _ hmem
  rw [← hlines] at hother
  simp at hother

instance (w : List (Option Nat)) (calls : Nat) (entry : Option (Nat × List Chars)) :
    Decidable (CanCount w calls entry) :=
  match entry with
  | none => inferInstanceAs (Decidable (_ ∧ _))
  | some _ => inferInstanceAs (Decidable (_ < _))

instance (s : System) (a : System.Event) : Decidable (CountCovers s a) :=
  match a with
  | .client (.ask name) => inferInstanceAs (Decidable (askable name = true → CanCount _ _ _))
  | .client (.command ..) | .client (.send ..) | .client (.connect _) | .client (.line ..)
  | .client .handle
  | .client .disconnect | .client (.ping _) | .client .newBoot | .hear _ | .push _ | .deliver _
  | .handle =>
    .isTrue trivial

/-- Two requests, the second while the first is being answered: the journal that is
    kept answers the second. -/
theorem second_answer_kept : ∃ s, system.Reach CountCovers System.init s ∧
    s.client.shared.modLogs (chars "a") = some [chars "2"] ∧ s.Strict := by
  obtain ⟨s, hreach, hlog⟩ := Reach.of_run_any (M := system) (G := CountCovers) (s := System.init)
    (p := fun s => s.client.shared.modLogs (chars "a") == some [chars "2"])
    [.client (.connect true), .client (.ask (chars "a")), .client (.send (chars "a") .all),
      .push (chars "pong"), .deliver [], .handle, .hear [], .hear [chars "1"], .deliver [], .handle,
      .client (.ask (chars "a")),
      .client (.send (chars "a") .all), .hear [chars "2"], .deliver [], .handle, .deliver [],
      .handle,
      .deliver [], .handle, .deliver [], .handle, .deliver [], .handle] (by decide)
  exact ⟨s, hreach, by simpa using hlog, journal_is_latest_answer hreach⟩

end CdjEmu.Runtime
