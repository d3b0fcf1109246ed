/-
  THE QMP CLIENT — commands to QEMU, and the lines that are read until a reply.

  A reply has no number: a call takes the first one that it reads as its own.  A read that times out
  ends the call. What it has taken of a line is lost, the rest of the line and all that QEMU sends
  later stay in the stream for the next call.

  `asked` are the commands that QEMU has not answered yet.  `inbox` and `cut` are history, no step
  reads them to decide anything: the messages in the stream, and whether the front of the first one
  is lost.  `owed` are the commands whose answers are still to come or to be read from the start.  A
  call that begins with nothing owed gets its own answer (`own_answer`), and one that begins with an
  answer owed may get that one.

  1. **Program** — `execute` on one connection, with the reader's line between calls, the time-out
     of a read, and events in between; QEMU answers each command once, in order, and says other
     things when it likes.

  2. **Specification** — a call that ends with a reply has read a message which answers its own
     command, and its result is what that message says.

  3. **The crux (`Sound`)** — what is owed are the commands of earlier calls whose answers have not
     come or have not been begun.  While nothing is owed the first reply in the stream is the call's
     own.
-/
import CdjEmu.Lib.Json
import CdjEmu.Lib.LineReader
import CdjEmu.Lib.Machine

namespace CdjEmu.Qmp

open Machine Text

/-! ## The program -/

/-- How `execute` ends: `Ok`, or an error. -/
inductive Outcome (V : Type) where
  | ok (ret : V)
  | qemuError (desc : Bytes)
  | json
  | io
  deriving DecidableEq

/-- It has the answer to a command. -/
def Outcome.isReply {V : Type} : Outcome V → Bool
  | .ok _ => true
  | .qemuError _ => true
  | _ => false

/-- A line that QEMU sends: the command that it answers, if any. -/
structure Message where
  answers : Option Nat
  text : Bytes
  deriving DecidableEq

/-- The end of the `call`-th call, with the message that it took for its reply. -/
structure Result (V : Type) where
  call : Nat
  outcome : Outcome V
  message : Option Message

structure State (V : Type) where
  reader : LineReader UInt8
  /-- The call that waits in `read_reply`. -/
  running : Option Nat
  calls : Nat
  wire : List Bytes
  asked : List Nat
  inbox : List Message
  cut : Bool
  results : List (Result V)

inductive Event (V : Type) where
  /-- `execute` writes its command, or the write fails. -/
  | execute (cmd : Bytes) (args : V)
  | refuse
  /-- Bytes arrive; the client looks at what has arrived; nothing arrives in time. -/
  | arrive (k : Nat)
  | scan
  | timeout
  /-- QEMU answers the oldest command, or reports an event. -/
  | answer (text : Bytes)
  | notify (text : Bytes)

/-- Connected, and the greeting has been read. -/
def State.init {V : Type} : State V := ⟨.empty, none, 0, [], [], [], false, []⟩

/-- The commands whose answers are still to come or to be read from the start. -/
def State.owed {V : Type} (s : State V) : List Nat :=
  (if s.cut then s.inbox.tail else s.inbox).filterMap Message.answers ++ s.asked

variable (J : Json)

/-- The line that `execute` writes. -/
def commandLine (cmd : Bytes) (args : J.Value) : Bytes :=
  let msg := if ((J.asObject args).map fun m => m.isEmpty).getD true then
      J.object [("execute", J.string cmd)]
    else J.object [("execute", J.string cmd), ("arguments", args)]
  J.text msg ++ [newline]

/-- `read_reply` on one line: how the call ends, `none` if it reads on. -/
def readReply (line : Bytes) : Option (Outcome J.Value) :=
  if ¬ Valid line then some .io
  else if trim line = [] then none
  else match J.parse line with
    | none => some .json
    | some resp =>
      match J.get resp "return" with
      | some ret => some (.ok ret)
      | none => (J.get resp "error").map fun err =>
          .qemuError (((J.get err "desc").bind J.asStr).getD (bytes "unknown QMP error"))

/-- The client, and QEMU at the other end. -/
def client : Machine (State J.Value) (Event J.Value) where
  step s
    | .execute cmd args =>
      if s.running = none then some { s with
        running := some s.calls
        calls := s.calls + 1
        wire := s.wire ++ [commandLine J cmd args]
        asked := s.asked ++ [s.calls] }
      else none
    | .refuse =>
      if s.running = none then some { s with
        calls := s.calls + 1
        results := s.results ++ [⟨s.calls, .io, none⟩] }
      else none
    | .arrive k => some { s with reader := s.reader.arrive k }
    | .scan =>
      match s.running with
      | none => none
      | some n =>
        if s.reader.buffer = [] then none
        else match s.reader.readUntil newline with
          | (none, r) => some { s with reader := r }
          | (some l, r) =>
            match readReply J (l ++ [newline]) with
            | none => some { s with reader := r, inbox := s.inbox.tail, cut := false }
            | some out => some { s with
                reader := r
                inbox := s.inbox.tail
                cut := false
                running := none
                results := s.results ++ [⟨n, out, s.inbox.head?⟩] }
    | .timeout =>
      match s.running with
      | none => none
      | some n =>
        if s.reader.buffer = [] then some { s with
          reader := s.reader.forget
          cut := s.cut || !s.reader.part.isEmpty
          running := none
          results := s.results ++ [⟨n, .io, none⟩] }
        else none
    | .answer text =>
      match s.asked with
      | [] => none
      | n :: asked => some { s with
          reader := s.reader.post newline text
          asked := asked
          inbox := s.inbox ++ [⟨some n, text⟩] }
    | .notify text => some { s with
        reader := s.reader.post newline text
        inbox := s.inbox ++ [⟨none, text⟩] }

/-! ## What QEMU sends -/

/-- A line of the protocol: the end of it is not itself a reply. -/
def Line (text : Bytes) : Prop :=
  newline ∉ text ∧ ∀ t ∈ text.tails, t ≠ text →
  (readReply J (t ++ [newline])).any Outcome.isReply = false

/-- QEMU speaks the protocol: it answers with replies, and its events are none. -/
def Speaks : Event J.Value → Prop
  | .answer text => Line J text ∧ (readReply J (text ++ [newline])).any Outcome.isReply = true
  | .notify text => Line J text ∧ (readReply J (text ++ [newline])).isNone = true
  | _ => True

/-- No answer to an earlier command is to come, or to be read from its start. -/
def Fresh (s : State J.Value) : Event J.Value → Prop
  | .execute _ _ => s.owed = []
  | _ => True

instance (text : Bytes) : Decidable (Line J text) := inferInstanceAs (Decidable (_ ∧ _))

instance (a : Event J.Value) : Decidable (Speaks J a) := by
  cases a <;> (unfold Speaks; infer_instance)

instance (s : State J.Value) (a : Event J.Value) : Decidable (Fresh J s a) := by
  cases a <;> (unfold Fresh; infer_instance)

/-! ## The stream and its messages -/

variable {J} {s u : State J.Value} {a : Event J.Value}

/-- A message as QEMU sends it. -/
def Message.Sent (J : Json) (m : Message) : Prop :=
  Line J m.text ∧ (readReply J (m.text ++ [newline])).elim (m.answers = none) fun out =>
    out.isReply = true ∧ m.answers ≠ none

/-- The lines before the reader are the messages of the inbox; of the first one
    the front may be lost. -/
def Holds (cut : Bool) (inbox : List Message) (lines : List Bytes) : Prop :=
  if cut then
    ∃ m ms t, inbox = m :: ms ∧ lines = t :: ms.map Message.text ∧ t <:+ m.text ∧ t ≠ m.text
  else lines = inbox.map Message.text

/-- The stream is in order, and a call began with nothing owed. -/
structure Sound (s : State J.Value) : Prop where
  due : ∃ lines, s.reader.Due newline lines ∧ Holds s.cut s.inbox lines
  idle : s.running = none → s.reader.part = []
  sent : ∀ m ∈ s.inbox, m.Sent J
  owed : ∀ n, s.running = some n → s.owed = [n]
  /-- A call that returned a reply has taken the answer to its own command. -/
  own : ∀ r ∈ s.results, r.outcome.isReply = true →
    ∃ text, r.message = some ⟨some r.call, text⟩ ∧ readReply J (text ++ [newline]) = some r.outcome

/-- One more message. -/
theorem Holds.append {cut : Bool} {inbox : List Message} {lines : List Bytes}
    (h : Holds cut inbox lines) (m : Message) :
    Holds cut (inbox ++ [m]) (lines ++ [m.text]) := by
  cases cut with
  | false =>
    obtain rfl : lines = _ := h
    show _ = List.map _ _
    rw [List.map_append]
    rfl
  | true =>
    obtain ⟨m₀, ms, t, rfl, rfl, hsuffix, hne⟩ := h
    exact ⟨m₀, ms ++ [m], t, rfl, by simp, hsuffix, hne⟩

/-- The first line is what is left of the first message. -/
theorem Holds.cons {cut : Bool} {inbox : List Message} {l : Bytes} {lines : List Bytes}
    (h : Holds cut inbox (l :: lines)) :
    ∃ m ms, inbox = m :: ms ∧ lines = ms.map Message.text ∧ l <:+ m.text ∧
    (cut = true ↔ l ≠ m.text) := by
  cases cut with
  | false =>
    obtain ⟨m, ms, rfl, rfl, rfl⟩ :=
      List.map_eq_cons_iff.mp (show inbox.map Message.text = l :: lines from h.symm)
    exact ⟨m, ms, rfl, rfl, List.suffix_refl _, by simp⟩
  | true =>
    obtain ⟨m, ms, t, rfl, hlines, hsuffix, hne⟩ := h
    obtain ⟨rfl, rfl⟩ := List.cons_eq_cons.mp hlines
    exact ⟨m, ms, rfl, rfl, hsuffix, by simpa using hne⟩

/-- A read that gives up in a line loses the front of its message. -/
theorem Holds.cut {cut : Bool} {inbox : List Message} {lines : List Bytes}
    (h : Holds cut inbox lines) {r : LineReader UInt8} (hdue : r.Due newline lines) :
    Holds (cut || !r.part.isEmpty) inbox (lines.modifyHead (List.drop r.part.length)) := by
  rcases eq_or_ne r.part [] with hnil | hne
  · have hlines : lines.modifyHead (List.drop r.part.length) = lines := by
      rw [hnil]
      cases lines <;> rfl
    rw [hlines, hnil]
    simpa using h
  · obtain ⟨l, ls, rfl, q, rfl⟩ := hdue.part_front.resolve_left hne
    obtain ⟨m, ms, rfl, rfl, hsuffix, -⟩ := h.cons
    have hflag : (cut || !r.part.isEmpty) = true := by simp [hne]
    rw [hflag, List.modifyHead_cons, List.drop_left]
    refine ⟨m, ms, q, rfl, rfl, (List.suffix_append r.part q).trans hsuffix, ?_⟩
    -- the rest is shorter than the message
    intro heq
    have hlength := hsuffix.length_le
    have hpos := List.length_pos_of_ne_nil hne
    rw [← heq, List.length_append] at hlength
    omega

/-- The part of a message whose front is lost is no reply. -/
theorem Message.Sent.not_reply {m : Message} (h : m.Sent J) {l : Bytes} (hl : l <:+ m.text)
    (hne : l ≠ m.text) :
    (readReply J (l ++ [newline])).any Outcome.isReply = false :=
  h.1.2 l (List.mem_tails l m.text |>.mpr hl) hne

/-! ## Steps -/

/-- A message joins the stream. -/
theorem Sound.post (h : Sound s) {m : Message} (hm : m.Sent J) {asked : List Nat}
    (howed : m.answers.toList ++ asked = s.asked) :
    Sound { s with
      reader := s.reader.post newline m.text
      asked := asked
      inbox := s.inbox ++ [m] } := by
  obtain ⟨lines, hdue, hholds⟩ := h.due
  refine ⟨⟨_, hdue.post hm.1.1, hholds.append m⟩, h.idle, ?_, fun n hn => ?_, h.own⟩
  · intro m' hm'
    rcases List.mem_append.mp hm' with hold | hnew
    · exact h.sent m' hold
    · exact List.mem_singleton.mp hnew ▸ hm
  · have hsame : State.owed
        { s with reader := s.reader.post newline m.text, asked := asked, inbox := s.inbox ++ [m] } =
        s.owed := by
      have hone : [m].filterMap Message.answers = m.answers.toList := by
        cases m with
        | mk answers text => cases answers <;> rfl
      cases hcut : s.cut with
      | false =>
        simp only [State.owed, hcut, Bool.false_eq_true, if_false]
        rw [List.filterMap_append, hone, List.append_assoc, howed]
      | true =>
        rw [hcut] at hholds
        obtain ⟨m₀, ms, t, hinbox, -⟩ := hholds
        simp only [State.owed, hcut, if_true, hinbox, List.cons_append, List.tail_cons]
        rw [List.filterMap_append, hone, List.append_assoc, howed]
    rw [hsame]
    exact h.owed n hn

/-- A call ends without a reply. -/
theorem own_append (h : Sound s) {r : Result J.Value}
    (hr : r.outcome.isReply = true → ∃ text, r.message = some ⟨some r.call, text⟩ ∧
      readReply J (text ++ [newline]) = some r.outcome) :
    ∀ r' ∈ s.results ++ [r], r'.outcome.isReply = true →
      ∃ text, r'.message = some ⟨some r'.call, text⟩ ∧
      readReply J (text ++ [newline]) = some r'.outcome := by
  intro r' hr'
  rcases List.mem_append.mp hr' with hold | hnew
  · exact h.own r' hold
  · exact List.mem_singleton.mp hnew ▸ hr

/-- A whole line has been read: what it says of the messages. -/
theorem Sound.line (h : Sound s) {n : Nat} (hrun : s.running = some n) {l : Bytes}
    {r : LineReader UInt8} (hread : s.reader.readUntil newline = (some l, r)) :
    (∃ lines, r.Due newline lines ∧ Holds false s.inbox.tail lines) ∧ r.part = [] ∧
      (∀ out, readReply J (l ++ [newline]) = some out → out.isReply = true →
        ∃ text, s.inbox.head? = some ⟨some n, text⟩ ∧ readReply J (text ++ [newline]) = some out) ∧
      (readReply J (l ++ [newline]) = none →
        s.inbox.tail.filterMap Message.answers ++ s.asked = [n]) := by
  obtain ⟨lines, hdue, hholds⟩ := h.due
  obtain ⟨lines', rfl, hdue', hpart⟩ := hdue.readUntil_some hread
  -- the line is the first message under way, or what a cut has left of it
  obtain ⟨m, ms, hinbox, rfl, hsuffix, hcut⟩ := hholds.cons
  have hsent := h.sent m (by rw [hinbox]; exact List.mem_cons_self)
  have howed := h.owed n hrun
  rw [hinbox, List.tail_cons]
  refine ⟨⟨_, hdue', rfl⟩, hpart, fun out hout hreply => ?_, fun hnone => ?_⟩
  · -- the message is whole, and the first one owed
    have hwhole : l = m.text := by
      by_contra hne
      have := hsent.not_reply hsuffix hne
      rw [hout] at this
      exact absurd (this.symm.trans hreply) (by decide)
    have hflag : s.cut = false := by
      rw [Bool.eq_false_iff, Ne, hcut]
      exact fun hne => hne hwhole
    have hanswers : m.answers ≠ none := by
      have := hsent.2
      rw [← hwhole, hout] at this
      exact this.2
    -- the first one owed is the command that runs
    obtain ⟨k, hk⟩ := Option.ne_none_iff_exists'.mp hanswers
    rw [State.owed, hflag, hinbox] at howed
    simp only [Bool.false_eq_true, if_false, List.filterMap_cons_some hk, List.cons_append] at howed
    obtain ⟨rfl, -⟩ := List.cons_eq_cons.mp howed
    refine ⟨m.text, ?_, hwhole ▸ hout⟩
    show some m = some ⟨some k, m.text⟩
    rw [← hk]
  -- no reply: an event, or the end of a line that was cut
  · rw [State.owed, hinbox, List.tail_cons] at howed
    cases hflag : s.cut with
    | true =>
      rw [hflag, if_pos rfl] at howed
      exact howed
    | false =>
      have hwhole : l = m.text := by
        by_contra hne
        exact absurd (hflag.symm.trans (hcut.mpr hne)) (by decide)
      have hanswers : m.answers = none := by
        have := hsent.2
        rw [← hwhole, hnone] at this
        exact this
      rw [hflag] at howed
      simpa only [Bool.false_eq_true, if_false, List.filterMap_cons_none hanswers] using howed

/-- **The step.** -/
theorem Sound.step (h : Sound s) (hspeaks : Speaks J a) (hfresh : Fresh J s a)
    (hs : (client J).step s a = some u) :
    Sound u := by
  obtain ⟨lines, hdue, hholds⟩ := h.due
  cases a with
  -- a new command is sent only when nothing is owed
  | execute cmd args =>
    obtain ⟨hidle, hu⟩ := Option.ite_none_right_eq_some.mp hs
    obtain rfl := Option.some.inj hu
    refine ⟨h.due, fun _ => h.idle hidle, h.sent, fun n hn => ?_, h.own⟩
    obtain rfl := Option.some.inj hn
    have hempty : s.owed = [] := hfresh
    show _ ++ (s.asked ++ [s.calls]) = _
    rw [← List.append_assoc]
    exact congrArg (· ++ [s.calls]) hempty
  | refuse =>
    obtain ⟨hidle, hu⟩ := Option.ite_none_right_eq_some.mp hs
    obtain rfl := Option.some.inj hu
    exact ⟨h.due, h.idle, h.sent, h.owed, own_append h nofun⟩
  | arrive k =>
    obtain rfl := Option.some.inj hs
    exact ⟨⟨lines, hdue.arrive k, hholds⟩, h.idle, h.sent, h.owed, h.own⟩
  | scan =>
    cases hrun : s.running with
    | none =>
      simp only [client, hrun] at hs
      cases hs
    | some n =>
      simp only [client, hrun] at hs
      obtain ⟨-, hu⟩ := Option.ite_none_left_eq_some.mp hs
      -- a line, or not enough of one
      rcases hread : s.reader.readUntil newline with ⟨line, r⟩
      cases line with
      | none =>
        rw [hread] at hu
        obtain rfl := Option.some.inj hu
        exact ⟨⟨lines, hdue.readUntil_none hread, hholds⟩, nofun, h.sent,
          fun k hk => h.owed k (hrun.trans hk), h.own⟩
      | some l =>
        obtain ⟨hdue', hpart, hreply, howed⟩ := h.line hrun hread
        have hsent : ∀ m ∈ s.inbox.tail, m.Sent J := fun m hm => h.sent m (List.mem_of_mem_tail hm)
        rw [hread] at hu
        cases hout : readReply J (l ++ [newline]) with
        | none =>
          simp only [hout] at hu
          obtain rfl := Option.some.inj hu
          refine ⟨hdue', fun _ => hpart, hsent, fun k hk => ?_, h.own⟩
          obtain rfl := Option.some.inj hk
          exact howed hout
        | some out =>
          simp only [hout] at hu
          obtain rfl := Option.some.inj hu
          exact ⟨hdue', fun _ => hpart, hsent, nofun, own_append h fun hr => hreply out hout hr⟩
  | timeout =>
    cases hrun : s.running with
    | none =>
      simp only [client, hrun] at hs
      cases hs
    | some n =>
      simp only [client, hrun] at hs
      obtain ⟨-, hu⟩ := Option.ite_none_right_eq_some.mp hs
      obtain rfl := Option.some.inj hu
      -- a time-out leaves the rest of the line for later
      exact ⟨⟨_, hdue.forget, hholds.cut hdue⟩, fun _ => rfl, h.sent, nofun, own_append h nofun⟩
  | answer text =>
    cases hasked : s.asked with
    | nil =>
      simp only [client, hasked] at hs
      cases hs
    | cons n asked =>
      simp only [client, hasked] at hs
      obtain rfl := Option.some.inj hs
      -- the answer is the first one that was asked for
      refine h.post (m := ⟨some n, text⟩) ⟨hspeaks.1, ?_⟩ (by rw [hasked]; rfl)
      obtain ⟨out, hout, hreply⟩ := (Option.any_eq_true _ _).mp hspeaks.2
      rw [hout]
      exact ⟨hreply, nofun⟩
  | notify text =>
    obtain rfl := Option.some.inj hs
    refine h.post (m := ⟨none, text⟩) ⟨hspeaks.1, ?_⟩ rfl
    rw [Option.isNone_iff_eq_none.mp hspeaks.2]
    rfl

/-! ## Runs -/

theorem sound_init : Sound (State.init : State J.Value) :=
  ⟨⟨[], .empty, rfl⟩, fun _ => rfl, nofun, nofun, nofun⟩

/-- **A call gets its own answer** if nothing was owed when it began. -/
theorem own_answer (hr : (client J).Reach (fun s a => Speaks J a ∧ Fresh J s a) .init s) :
    ∀ r ∈ s.results, r.outcome.isReply = true →
      ∃ text, r.message = some ⟨some r.call, text⟩ ∧
      readReply J (text ++ [newline]) = some r.outcome :=
  (hr.inv (I := Sound) sound_init fun _ _ _ h hg hs => h.step hg.1 hg.2 hs).own

/-- `{"return": {}}`, as QEMU ends its lines. -/
def emptyReturn : Bytes := bytes "\x7b\"return\": \x7b\x7d\x7d\r"

def docs : Json := .ofLines [(emptyReturn ++ [newline], .object [("return", .nil)])]

/-- One call, whose answer comes in two pieces. -/
theorem one_call_answered :
    ∃ s, (client docs).Reach (fun s a => Speaks docs a ∧ Fresh docs s a) .init s ∧
    s.results.map (fun r => (r.call, r.outcome.isReply)) = [(0, true)] ∧
    ∀ r ∈ s.results, r.outcome.isReply = true → ∃ text, r.message = some ⟨some r.call, text⟩ ∧
      readReply docs (text ++ [newline]) = some r.outcome := by
  obtain ⟨s, hr, hs⟩ := Reach.of_run_any (M := client docs)
      (G := fun s a => Speaks docs a ∧ Fresh docs s a) (s := .init)
    (p := fun s => s.results.map (fun r => (r.call, r.outcome.isReply)) = [(0, true)])
    [.execute (bytes "device_del") Doc.nil, .answer emptyReturn, .arrive 4, .scan, .arrive 16,
      .scan] (by decide)
  exact ⟨s, hr, of_decide_eq_true hs, own_answer hr⟩

/-- The first call times out, and the second one gets its answer. -/
theorem late_answer_goes_to_the_next_call :
    ¬ ∀ s, (client docs).Reach (fun _ a => Speaks docs a) .init s →
    ∀ r ∈ s.results, r.outcome.isReply = true → ∃ text, r.message = some ⟨some r.call, text⟩ := by
  intro hall
  obtain ⟨s, hr, hs⟩ :=
    Reach.of_run_any (M := client docs) (G := fun _ a => Speaks docs a) (s := .init)
    (p := fun s => s.results.map (fun r => (r.call, r.outcome.isReply, r.message)) =
      [(0, false, none), (1, true, some ⟨some 0, emptyReturn⟩)])
    [.execute (bytes "device_del") Doc.nil, .timeout,
      .execute (bytes "blockdev-change-medium") Doc.nil, .answer emptyReturn, .arrive 16, .scan]
        (by decide)
  obtain ⟨r₁, l, hl, -, hrest⟩ := List.map_eq_cons_iff.mp (of_decide_eq_true hs)
  obtain ⟨r₂, l', rfl, hr₂, -⟩ := List.map_eq_cons_iff.mp hrest
  obtain ⟨hcall, hreply, hmessage⟩ : r₂.call = 1 ∧ r₂.outcome.isReply = true ∧
      r₂.message = some ⟨some 0, emptyReturn⟩ := by
    simpa only [Prod.mk.injEq] using hr₂
  obtain ⟨text, htext⟩ := hall s hr r₂ (by rw [hl]; simp) hreply
  rw [hmessage, hcall] at htext
  cases htext

end CdjEmu.Qmp
