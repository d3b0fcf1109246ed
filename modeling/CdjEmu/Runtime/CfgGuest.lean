/-
  THE CFG CLIENT AND CFGD — requests for journals, and the groups of lines that answer them.

  cfgd reads the lines of the connection in the order they were written.  It answers each `mods log
  <name>` with one group: `log_begin`, the journal, `log_end`; its other lines come between groups.
  What a connection has not delivered when it ends is lost, in both directions.  A line that was cut
  short spoils the next one, for cfgd reads the two as one line (`ragged`).

  A line stays at the head of `toHost` until its handler has run.  `answered` lists the groups that
  cfgd has sent, by the number of the command they answer, and `requested` the names that were asked
  for; no step reads them.
-/
import CdjEmu.Runtime.CfgClient

namespace CdjEmu.Runtime

open Shared

/-! ## Groups -/

/-- The answer to one request. -/
structure Group where
  tag : Option Nat
  name : Chars
  journal : List Chars

def logBegin (name : Chars) : Chars := chars "log_begin " ++ name

def logText (name line : Chars) : Chars := chars "log " ++ (name ++ ' ' :: line)

def logEnd (name : Chars) : Chars := chars "log_end " ++ name

def Group.lines (g : Group) : List Chars :=
  logBegin g.name :: (g.journal.map (logText g.name) ++ [logEnd g.name])

/-- What is on its way to the host: a line, or a group of which the first `k`
    lines have been handled. -/
inductive Out where
  | other (line : Chars)
  | group (g : Group) (k : Nat)

/-- The next line of it. -/
def Out.line : Out → Chars
  | .other line => line
  | .group g k => g.lines[k]?.getD []

/-- What is left of it after that line. -/
def Out.next : Out → List Out
  | .other _ => []
  | .group g k => if k + 1 < g.lines.length then [.group g (k + 1)] else []

/-- Whether a line is none of a journal's. -/
def logFree (line : Chars) : Bool :=
  [chars "log_begin ", chars "log ", chars "log_end "].all fun p =>
    Chars.strip p (Chars.trim line) = none

/-- The name whose journal a command asks for. -/
def asked (text : Chars) : Option Chars :=
  ((Chars.strip (chars "mods log ") text).bind fun rest =>
    if rest.getLast? = some '\n' then some rest.dropLast else none).filter askable

/-! ## The system -/

def Reader.conn : Reader → Option Nat
  | .idle => none
  | .reading conn | .handling conn _ => some conn

structure System where
  client : Client
  /-- How many of the connection's lines cfgd has taken. -/
  read : Nat
  ragged : Bool
  toHost : List Out
  answered : List (Option Nat × List Chars)
  requested : List Chars

inductive System.Event where
  | client (a : Client.Event)
  | hear (journal : List Chars)
  | push (line : Chars)
  | deliver (luck : List Wrote)
  | handle

namespace System

variable (s : System)

/-- cfgd takes the line `sent`. -/
def hear (sent : Sent) (journal : List Chars) : System :=
  let s := { s with read := s.read + 1 }
  if sent.whole = false then { s with ragged := s.ragged || 0 < sent.bytes }
  else if s.ragged then { s with ragged := false }
  else
    match asked sent.cmd.text with
    | some name =>
      { s with
        toHost := s.toHost ++ [.group ⟨sent.cmd.tag, name, journal⟩ 0]
        answered := s.answered ++ [(sent.cmd.tag, journal)] }
    | none => s

def init : System where
  client := .init
  read := 0
  ragged := false
  toHost := []
  answered := []
  requested := []

/-- What a step of the client means to the connection. -/
def follow (a : Client.Event) (c : Client) : System :=
  match a with
  | .connect _ | .disconnect => { s with client := c, read := 0, ragged := false, toHost := [] }
  | .ask name => { s with client := c, requested := name :: s.requested }
  | _ => { s with client := c }

end System

/-- The lines that come from the guest, and their handlers, are steps of the system. -/
def Client.Event.own : Client.Event → Bool
  | .line .. | .handle => false
  | _ => true

/-- The machine of the client and cfgd. -/
def system : Machine System System.Event where
  step s
    | .client a => if a.own then (client.step s.client a).map (s.follow a) else none
    | .hear journal => do
      let conn ← s.client.reader.conn
      let sent ← (s.client.wire conn)[s.read]?
      return s.hear sent journal
    | .push line =>
      if logFree line ∧ s.client.reader.conn ≠ none then
        some { s with toHost := s.toHost ++ [.other line] }
      else none
    | .deliver luck => do
      let out ← s.toHost.head?
      let c ← client.step s.client (.line out.line luck)
      return { s with client := c }
    | .handle => do
      let out ← s.toHost.head?
      let c ← client.step s.client .handle
      return { s with client := c, toHost := out.next ++ s.toHost.tail }

/-! ## The lines of a group -/

/-- A line is followed by nothing of its own, or by the next line of its group. -/
theorem Out.next_cases (out : Out) :
    out.next = [] ∨ ∃ g k, out = .group g k ∧ k + 1 < g.lines.length ∧
    out.next = [.group g (k + 1)] := by
  cases out with
  | other line => exact .inl rfl
  | group g k =>
    by_cases h : k + 1 < g.lines.length
    · exact .inr ⟨g, k, rfl, h, by rw [Out.next, if_pos h]⟩
    · exact .inl (by rw [Out.next, if_neg h])

theorem askable_iff {name : Chars} :
    askable name = true ↔ name ≠ [] ∧ ∀ c ∈ name, Chars.isWhitespace c = false := by
  simp [askable]

theorem eq_logLine_of_asked {text name : Chars} (h : asked text = some name) :
    text = logLine name ∧ askable name = true := by
  rw [asked, Option.filter_eq_some_iff, Option.bind_eq_some_iff] at h
  obtain ⟨⟨rest, hrest, hname⟩, hask⟩ := h
  split at hname
  · rename_i hlast
    cases hname
    have hsplit : rest.dropLast ++ chars "\n" = rest := List.dropLast_append_getLast? '\n' hlast
    exact ⟨by rw [logLine, hsplit]; exact Chars.strip_eq_some.mp hrest, hask⟩
  · cases hname

theorem logLine_injective {a b : Chars} (h : logLine a = logLine b) : a = b :=
  List.append_cancel_right (List.append_cancel_left h)

theorem trimEnd_name {name : Chars} (h : askable name = true) : Chars.trimEnd name = name := by
  obtain ⟨-, hc⟩ := askable_iff.mp h
  have htrim := Chars.trim_of_words hc
  rw [← htrim]
  exact Chars.trimEnd_trim name

/-- A line that starts as `p` does and ends in a name is left alone. -/
theorem trim_append_name {p name : Chars} (hne : p ≠ []) (hp : Chars.trimStart p = p)
    (h : askable name = true) :
    Chars.trim (p ++ name) = p ++ name :=
  Chars.trim_append hne hp (askable_iff.mp h).1 (trimEnd_name h)

/-- The handler of a line that starts as the `i`-th message does, and as none before it. -/
theorem dispatch_of_trim (s : Shared) {line p rest : Chars} {f : Shared → Chars → Shared}
    (before after : _) (hsplit : messages = before ++ (p, f) :: after)
    (hline : Chars.trim line = p ++ rest)
    (hbefore : ∀ m ∈ before, Chars.strip m.1 (p ++ rest) = none) : s.dispatch line = f s rest := by
  have hnone : (before.findSome? fun m => (Chars.strip m.1 (p ++ rest)).map fun t => m.2 s t) =
      none := by
    rw [List.findSome?_eq_none_iff]
    intro m hm
    rw [hbefore m hm]
    rfl
  unfold Shared.dispatch
  rw [hsplit, hline, List.findSome?_append, hnone, Option.none_or, List.findSome?_cons,
    Chars.strip_append]
  rfl

theorem dispatch_logBegin (s : Shared) {name : Chars} (h : askable name = true) :
    s.dispatch (logBegin name) = s.onLogBegin name := by
  refine dispatch_of_trim s (messages.take 3) (messages.drop 4) rfl
    (trim_append_name (by decide) (by decide) h) ?_
  simp only [messages, List.take_succ_cons, List.take_zero, List.forall_mem_cons, List.not_mem_nil,
    false_implies, implies_true, and_true]
  refine ⟨?_, ?_, ?_⟩ <;> exact Chars.strip_of_take_ne 4 (by decide) (by decide) (by decide) _

theorem dispatch_logEnd (s : Shared) {name : Chars} (h : askable name = true) :
    s.dispatch (logEnd name) = s.onLogEnd name := by
  refine dispatch_of_trim s (messages.take 5) (messages.drop 6) rfl
    (trim_append_name (by decide) (by decide) h) ?_
  simp only [messages, List.take_succ_cons, List.take_zero, List.forall_mem_cons, List.not_mem_nil,
    false_implies, implies_true, and_true]
  refine ⟨?_, ?_, ?_, ?_, ?_⟩
  · exact Chars.strip_of_take_ne 4 (by decide) (by decide) (by decide) _
  · exact Chars.strip_of_take_ne 4 (by decide) (by decide) (by decide) _
  · exact Chars.strip_of_take_ne 4 (by decide) (by decide) (by decide) _
  · exact Chars.strip_of_take_ne 5 (by decide) (by decide) (by decide) _
  · exact Chars.strip_of_take_ne 4 (by decide) (by decide) (by decide) _

/-- What the handler of `log` sees: the line without the white space at its end. -/
theorem trim_logText {name : Chars} (h : askable name = true) (line : Chars) :
    ∃ rest, Chars.trim (logText name line) = chars "log " ++ rest ∧
    splitName rest = (name, Chars.trimEnd line) := by
  have hname := askable_iff.mp h
  have hspace : ∀ c ∈ name, decide (c ≠ ' ') = true := by
    intro c hc
    have hws := hname.2 c hc
    simp only [decide_eq_true_eq]
    rintro rfl
    exact absurd hws (by decide)
  have hstart : Chars.trimStart (logText name line) = logText name line := by
    have hlit : chars "log " = 'l' :: chars "og " := by decide
    rw [logText, hlit]
    exact List.dropWhile_cons_of_neg (by decide)
  have hgroup : logText name line = (chars "log " ++ name) ++ ([' '] ++ line) := by simp [logText]
  have htrim : Chars.trim (logText name line) =
      if Chars.trimEnd line = [] then chars "log " ++ name
      else chars "log " ++ (name ++ ' ' :: Chars.trimEnd line) := by
    rw [Chars.trim, hstart, hgroup, Chars.trimEnd_append, Chars.trimEnd_append [' '] line]
    have hp : Chars.trimEnd (chars "log " ++ name) = chars "log " ++ name := by
      rw [Chars.trimEnd_append, trimEnd_name h, if_neg hname.1]
    have hs : Chars.trimEnd [' '] = [] := by decide
    by_cases hl : Chars.trimEnd line = []
    · rw [if_pos hl, if_pos hl, if_pos hs, hp]
    · rw [if_neg hl, if_neg hl, if_neg (by simp)]
      simp
  rw [htrim]
  by_cases hl : Chars.trimEnd line = []
  · refine ⟨name, by rw [if_pos hl], ?_⟩
    rw [splitName, List.takeWhile_eq_self_iff.mpr hspace, List.dropWhile_eq_nil_iff.mpr hspace, hl]
    rfl
  · refine ⟨name ++ ' ' :: Chars.trimEnd line, by rw [if_neg hl], ?_⟩
    rw [splitName, List.takeWhile_append_of_pos hspace, List.dropWhile_append_of_pos hspace]
    simp

theorem dispatch_logText (s : Shared) {name : Chars} (h : askable name = true) (line : Chars) :
    ∃ rest, s.dispatch (logText name line) = s.onLog rest ∧
    splitName rest = (name, Chars.trimEnd line) := by
  obtain ⟨rest, htrim, hrest⟩ := trim_logText h line
  refine ⟨rest, ?_, hrest⟩
  refine dispatch_of_trim s (messages.take 4) (messages.drop 5) rfl htrim ?_
  simp only [messages, List.take_succ_cons, List.take_zero, List.forall_mem_cons, List.not_mem_nil,
    false_implies, implies_true, and_true]
  refine ⟨?_, ?_, ?_, ?_⟩ <;> exact Chars.strip_of_take_ne 4 (by decide) (by decide) (by decide) _

/-- The journals, received and being received. -/
def Shared.logs (s : Shared) :
    (Chars → Option (Nat × List Chars)) × (Chars → Option (List Chars)) :=
  (s.modLogsPartial, s.modLogs)

/-- A message is one of a journal's, or its handler leaves the journals alone. -/
theorem logs_of_message (s : Shared) (rest : Chars) {m : Chars × (Shared → Chars → Shared)}
    (hm : m ∈ messages) :
    (m.1 ∈ [chars "log_begin ", chars "log ", chars "log_end "] ∧
      (m.2 = Shared.onLogBegin ∨ m.2 = Shared.onLog ∨ m.2 = Shared.onLogEnd)) ∨
        (m.2 s rest).logs = s.logs := by
  simp only [messages, List.mem_cons, List.not_mem_nil, or_false] at hm
  rcases hm with rfl | rfl | rfl | rfl | rfl | rfl | rfl | rfl | rfl
  · exact .inr rfl
  · refine .inr ?_
    show (s.onLatency rest).logs = _
    unfold Shared.onLatency
    dsimp only
    split <;> rfl
  · refine .inr ?_
    show (s.onParam rest).logs = _
    unfold Shared.onParam
    split <;> rfl
  · exact .inl ⟨List.mem_cons_self, .inl rfl⟩
  · exact .inl ⟨by simp, .inr (.inl rfl)⟩
  · exact .inl ⟨by simp, .inr (.inr rfl)⟩
  · refine .inr ?_
    show (s.onMods rest).logs = _
    unfold Shared.onMods
    (repeat' split) <;> rfl
  · refine .inr ?_
    show (s.onMod rest).logs = _
    unfold Shared.onMod
    split <;> rfl
  · refine .inr ?_
    show (s.onPcLink rest).logs = _
    unfold Shared.onPcLink
    dsimp only
    (repeat' split) <;> rfl

/-- The other handlers leave the journals alone. -/
theorem logs_dispatch_of_logFree (s : Shared) {line : Chars} (h : logFree line = true) :
    (s.dispatch line).logs = s.logs := by
  unfold Shared.dispatch
  cases hf : messages.findSome? fun m => (Chars.strip m.1 (Chars.trim line)).map fun rest =>
    m.2 s rest with
  | none => rfl
  | some t =>
    obtain ⟨m, hm, ht⟩ := List.exists_of_findSome?_eq_some hf
    obtain ⟨rest, hrest, rfl⟩ := Option.map_eq_some_iff.mp ht
    simp only [logFree, List.all_eq_true, decide_eq_true_eq] at h
    rcases logs_of_message s rest hm with ⟨hlog, -⟩ | hlogs
    · rw [h _ hlog] at hrest
      cases hrest
    · exact hlogs

end CdjEmu.Runtime
