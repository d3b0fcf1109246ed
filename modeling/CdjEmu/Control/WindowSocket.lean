/-
  THE WINDOW SOCKET — commands from other windows to the one that holds a slot.

  Each connection has a thread in the window's process.  The thread queues its command and waits for
  the reply; the window takes commands from the queue once a frame.  Both try to set `taken`, and
  whoever finds it unset has the command.  The thread tries when the window has not answered for
  `ANSWER_WAIT`, and then answers `busy` in the window's place.

  1. `readReply_line` — the reply that one side writes the other reads.
  2. `Sane` — whose a command is: the queue's, the window's, or nobody's any more.
  3. `told_of_reach` — a client is told what the window did with its command, or `busy` for a
     command that the window has not acted on and never will.  No command is acted on twice.
  4. `answered_alone` — a thread whose command the window does not hold answers without the window.

  What the window does with a command is a parameter.  `acted` is read by no step.

  The machine gives each connection's thread its own steps: it writes its command into the queue,
  waits, finds a reply or the end of its time, and writes what it found.  The window takes, acts,
  replies, or drops what it holds, and it may close its socket at any moment; then the queue goes
  with it, and whoever waits finds its channel closed.  A connection may hang up, which its thread
  does not notice.

  The crux is `Sane`: a command is in the queue with its flag unset, or the window holds it and has
  set the flag, or its thread has its answer.  `Live` is the part of it that the window may still
  act on; the commands that it has acted on come in the order of their connections because the queue
  does.
-/
import CdjEmu.Lib.Chars
import CdjEmu.Lib.Machine

namespace CdjEmu.WindowSocket

open Machine Function

/-! ## The lines -/

/-- What another window may ask. -/
inductive Command where
  | delete
  | quit
  | restartMods
  | restartInstall
  | installReady
  | restartPending
  deriving DecidableEq

/-- `ALL`. -/
def Command.ALL : List Command :=
  [.delete, .quit, .restartMods, .restartInstall, .installReady, .restartPending]

/-- `as_str`: the word on the wire. -/
def Command.asStr : Command → Chars
  | .delete => chars "delete"
  | .quit => chars "quit"
  | .restartMods => chars "restart-mods"
  | .restartInstall => chars "restart-install"
  | .installReady => chars "install-ready"
  | .restartPending => chars "restart-pending"

/-- `parse`: the command with that word. -/
def Command.parse (s : Chars) : Option Command := Command.ALL.find? fun c => c.asStr = s

/-- What the window, or the thread in its place, answers. -/
inductive Reply where
  | ok
  | yes
  | no
  | busy
  | notRunning
  deriving DecidableEq

/-- `ALL`. -/
def Reply.ALL : List Reply := [.ok, .yes, .no, .busy, .notRunning]

/-- `as_str`: the word on the wire. -/
def Reply.asStr : Reply → Chars
  | .ok => chars "ok"
  | .yes => chars "yes"
  | .no => chars "no"
  | .busy => chars "busy"
  | .notRunning => chars "not-running"

/-- `parse`: the reply with that word. -/
def Reply.parse (s : Chars) : Option Reply := Reply.ALL.find? fun r => r.asStr = s

/-- What `send_at` makes of the line that it reads. -/
inductive Sent where
  | reply (r : Reply)
  | refused (why : Chars)
  | unexpected (line : Chars)
  deriving DecidableEq

/-- What `send_at` makes of the line it reads: a word that it knows, a refusal with
    its reason, or neither. -/
def readReply (line : Chars) : Sent :=
  let line := Chars.trim line
  match Chars.strip (chars "error ") line with
  | some why => .refused why
  | none => ((Reply.parse line).map Sent.reply).getD (.unexpected line)

/-- What each side writes. -/
def Command.line (c : Command) : Chars := c.asStr ++ ['\n']

/-- A reply as its thread writes it. -/
def Reply.line (r : Reply) : Chars := r.asStr ++ ['\n']

/-- Every reply is read back as itself. -/
theorem readReply_line (r : Reply) : readReply r.line = .reply r := by
  cases r <;> decide

/-! ## The program -/

/-- Where a connection's thread is. -/
inductive Thread where
  /-- In `recv_timeout`. -/
  | asking
  /-- The time is over, and the flag is next. -/
  | late
  /-- In `recv`: the window has the command. -/
  | waiting
  | answered (r : Reply)
  deriving DecidableEq

/-- A command in `ask`: its flag, and the channel for its reply. -/
structure Request where
  command : Command
  taken : Bool
  reply : Option Reply
  /-- The channel's sender has been dropped. -/
  hungUp : Bool
  thread : Thread

/-- The window, the commands by the number of their connection, and what the window has of them. -/
structure State (W : Type) where
  window : W
  requests : Nat → Option Request
  asked : Nat
  queue : List Nat
  /-- The window has its `WindowSocket`. -/
  listening : Bool
  /-- The window's `Responder`, and the reply once the command is done. -/
  holding : Option (Nat × Option Reply)
  acted : List (Nat × Command × Reply)

/-- A step of the window's thread, or of one connection's. -/
inductive Event (W : Type) where
  | connect (line : Chars)
  /-- The window's thread: one turn of `next`, `on_command`, `Responder::reply`, or its drop; what
      it does else; its exit. -/
  | next
  | act
  | reply
  | drop
  | other (w : W)
  | leave
  /-- The thread of a connection. -/
  | receive (i : Nat)
  | timeout (i : Nat)
  | swap (i : Nat)

section Program

variable {W : Type}

namespace State

/-- The window has its socket, and nobody has asked anything. -/
def init (w : W) : State W := ⟨w, fun _ => none, 0, [], true, none, []⟩

/-- The command of one connection changes, and no other. -/
def put (s : State W) (i : Nat) (r : Request) : State W :=
  { s with requests := update s.requests i (some r) }

/-- `ask`, as far as its wait. -/
def ask (s : State W) (c : Command) : State W :=
  if s.listening then
    { s.put s.asked ⟨c, false, none, false, .asking⟩ with
      queue := s.queue ++ [s.asked], asked := s.asked + 1 }
  else { s.put s.asked ⟨c, false, none, true, .answered .busy⟩ with asked := s.asked + 1 }

/-- One turn of `next`: a command whose thread has answered is skipped. -/
def next (s : State W) : Option (State W) :=
  if s.listening then
    match s.holding, s.queue with
    | none, i :: queue => (s.requests i).map fun r =>
      if r.taken then { s.put i { r with hungUp := true } with queue := queue }
      else { s.put i { r with taken := true } with queue := queue, holding := some (i, none) }
    | _, _ => none
  else none

/-- `on_command`. -/
def act (onCommand : W → Command → W × Reply) (s : State W) : Option (State W) :=
  match s.holding with
  | some (i, none) => (s.requests i).map fun r =>
    let a := onCommand s.window r.command
    { s with
      window := a.1, holding := some (i, some a.2), acted := s.acted ++ [(i, r.command, a.2)] }
  | _ => none

/-- `Responder::reply`: the window is done with its command, and the channel
    closes behind the reply. -/
def reply (s : State W) : Option (State W) :=
  match s.holding with
  | some (i, some a) => (s.requests i).map fun r =>
      { s.put i { r with reply := some a, hungUp := true } with holding := none }
  | _ => none

/-- A responder that is dropped without a reply: the thread finds the channel closed. -/
def drop (s : State W) : Option (State W) :=
  match s.holding with
  | some (i, none) => (s.requests i).map fun r =>
      { s.put i { r with hungUp := true } with holding := none }
  | _ => none

/-- The queue goes with the socket. -/
def leave (s : State W) : Option (State W) :=
  if s.listening ∧ s.holding.isNone then
    some { s with
      listening := false
      queue := []
      requests := fun i => (s.requests i).map fun r =>
        if i ∈ s.queue then { r with hungUp := true } else r }
  else none

end State

/-- The end of `recv_timeout` or `recv` with a reply, or with none to come. -/
def Request.receive (r : Request) : Option Request :=
  if r.thread = .asking ∨ r.thread = .waiting then
    match r.reply with
    | some a => some { r with thread := .answered a }
    | none => if r.hungUp then some { r with thread := .answered .busy } else none
  else none

/-- The time is over and nothing has come. -/
def Request.timeout (r : Request) : Option Request :=
  if r.thread = .asking ∧ r.reply = none then some { r with thread := .late } else none

/-- The command is withdrawn unless the window has it. -/
def Request.swap (r : Request) : Option Request :=
  if r.thread = .late then
    if r.taken then some { r with thread := .waiting } else
      some { r with taken := true, thread := .answered .busy }
  else none

/-- A step of the thread of `i`. -/
def State.go (s : State W) (i : Nat) (f : Request → Option Request) : Option (State W) :=
  (s.requests i).bind fun r => (f r).map (s.put i)

/-- The window, its connections, and whoever connects. -/
def machine (onCommand : W → Command → W × Reply) : Machine (State W) (Event W) where
  step s
    -- a line that is no command is answered with an error, and the window never sees it
    | .connect line => some (((Command.parse (Chars.trim line)).map s.ask).getD s)
    | .next => s.next
    | .act => s.act onCommand
    | .reply => s.reply
    | .drop => s.drop
    | .other w => some { s with window := w }
    | .leave => s.leave
    | .receive i => s.go i Request.receive
    | .timeout i => s.go i Request.timeout
    | .swap i => s.go i Request.swap

/-! ## Whose a command is -/

namespace State

/-- The window has acted on the command, or still can, the flag apart. -/
def Live (s : State W) (i : Nat) : Prop := (∃ c a, (i, c, a) ∈ s.acted) ∨
    s.holding = some (i, none) ∨ i ∈ s.queue

/-- The live commands, in the order of the queue. -/
def line (s : State W) : List Nat :=
  s.acted.map Prod.fst ++ (match s.holding with
    | some (i, none) => [i]
    | _ => []) ++ s.queue

/-- The line is the commands that are alive. -/
theorem mem_line {s : State W} {i : Nat} : i ∈ s.line ↔ s.Live i := by
  have hacted : i ∈ s.acted.map Prod.fst ↔ ∃ c a, (i, c, a) ∈ s.acted := by
    rw [List.mem_map]
    constructor
    · rintro ⟨⟨j, c, a⟩, h, rfl⟩
      exact ⟨c, a, h⟩
    · rintro ⟨c, a, h⟩
      exact ⟨_, h, rfl⟩
  rw [line, List.mem_append, List.mem_append, hacted, Live, or_assoc]
  rcases s.holding with _ | ⟨j, _ | a⟩
  · simp
  · simp [eq_comm]
  · simp

end State

/-- What is true of the request `i` in `s`. -/
structure Fits (s : State W) (i : Nat) (r : Request) : Prop where
  replied : ∀ a, r.reply = some a → (i, r.command, a) ∈ s.acted ∧ r.hungUp = true ∧ r.taken = true
  dropped : r.reply = none → r.hungUp = true → ¬ s.Live i
  queued : i ∈ s.queue → r.hungUp = false ∧
    (r.taken = false ∧ (r.thread = .asking ∨ r.thread = .late) ∨ r.taken = true ∧
      r.thread = .answered .busy)
  held : ∀ a, s.holding = some (i, a) → r.taken = true ∧ r.hungUp = false ∧
    ∀ b, r.thread ≠ .answered b
  done : ∀ a, s.holding = some (i, some a) → (i, r.command, a) ∈ s.acted
  kept : r.hungUp = false → i ∈ s.queue ∨ ∃ a, s.holding = some (i, a)
  waiting : r.thread = .waiting → r.taken = true
  answered : ∀ a, r.thread = .answered a → (i, r.command, a) ∈ s.acted ∨ a = .busy ∧
    (s.Live i → i ∈ s.queue ∧ r.taken = true)

/-- **The invariant.**  Commands are in the order of their connections, numbers are given out
    once, and each command is where its flag and its thread say it is: with the queue, with the
    window, or with nobody. -/
structure Sane (s : State W) : Prop where
  order : s.line.Pairwise (· < ·)
  known : ∀ i, (s.requests i).isSome = true ↔ i < s.asked
  line : ∀ i, s.Live i → i < s.asked
  holder : ∀ i a, s.holding = some (i, a) → i < s.asked
  fits : ∀ i r, s.requests i = some r → Fits s i r

/-- Nothing changes for the request `i`. -/
structure Same (s t : State W) (i : Nat) : Prop where
  acted : ∀ c a, (i, c, a) ∈ t.acted ↔ (i, c, a) ∈ s.acted
  holding : ∀ a, t.holding = some (i, a) ↔ s.holding = some (i, a)
  queue : i ∈ t.queue ↔ i ∈ s.queue

section Steps

variable {onCommand : W → Command → W × Reply} {s t : State W} {i : Nat} {r : Request}

/-- A step that leaves a command alone leaves it alive or dead. -/
theorem Same.live (h : Same s t i) : t.Live i ↔ s.Live i := by
  rw [State.Live, State.Live, h.holding, h.queue]
  simp only [h.acted]

/-- What fits a command depends on what is the same for it. -/
theorem Fits.congr (h : Fits s i r) (hsame : Same s t i) : Fits t i r where
  replied a ha := by
    rw [hsame.acted]
    exact h.replied a ha
  dropped := by
    rw [hsame.live]
    exact h.dropped
  queued hq := h.queued (hsame.queue.mp hq)
  held a ha := h.held a ((hsame.holding a).mp ha)
  done a ha := (hsame.acted _ _).mpr (h.done a ((hsame.holding _).mp ha))
  kept := by
    rw [hsame.queue]
    simp only [hsame.holding]
    exact h.kept
  waiting := h.waiting
  answered := by
    rw [hsame.live, hsame.queue]
    simp only [hsame.acted]
    exact h.answered

/-- Nothing has been asked, so nothing can be out of place. -/
theorem sane_init (w : W) : Sane (State.init w) where
  order := List.Pairwise.nil
  known i := by simp [State.init]
  line i hi := by simp [State.init, State.Live] at hi
  holder i a ha := by simp [State.init] at ha
  fits i r hr := by simp [State.init] at hr

/-- A live command is in one place. -/
theorem Sane.queued (h : Sane s) (hq : i ∈ s.queue) :
    (∀ c a, (i, c, a) ∉ s.acted) ∧ s.holding ≠ some (i, none) := by
  have horder := h.order
  rw [State.line, List.append_assoc, List.pairwise_append, List.pairwise_append] at horder
  obtain ⟨-, ⟨-, -, hheld⟩, hacted⟩ := horder
  constructor
  · intro c a hmem
    exact Nat.lt_irrefl i (hacted i (List.mem_map_of_mem hmem) i (List.mem_append_right _ hq))
  · intro hholding
    rw [hholding] at hheld
    exact Nat.lt_irrefl i (hheld i (List.mem_singleton_self i) i hq)

/-- The command that the window holds has not been acted on yet: it will be
    acted on at most once. -/
theorem Sane.held (h : Sane s) (hheld : s.holding = some (i, none)) (c : Command) (a : Reply) :
    (i, c, a) ∉ s.acted := by
  intro hmem
  have horder := h.order
  rw [State.line, List.append_assoc, List.pairwise_append, hheld] at horder
  exact Nat.lt_irrefl i
    (horder.2.2 i (List.mem_map_of_mem hmem) i (List.mem_append_left _ (List.mem_singleton_self i)))

/-- A step that changes one request. -/
theorem Sane.change (h : Sane s) (hr : s.requests i = some r) {v : Request}
    (hrequests : t.requests = update s.requests i (some v)) (hasked : t.asked = s.asked)
    (hline : t.line.Sublist s.line) (hothers : ∀ j, j ≠ i → Same s t j) (hfits : Fits t i v) :
    Sane t where
  order := h.order.sublist hline
  known j := by
    rw [hrequests, hasked, ← h.known]
    rcases eq_or_ne j i with rfl | hne
    · rw [update_self, hr]
      rfl
    · rw [update_of_ne hne]
  line j hj := by
    rw [hasked]
    exact h.line j (State.mem_line.mp (hline.subset (State.mem_line.mpr hj)))
  holder j a ha := by
    rw [hasked]
    rcases eq_or_ne j i with rfl | hne
    · exact (h.known j).mp (by rw [hr]; rfl)
    · exact h.holder j a (((hothers j hne).holding a).mp ha)
  fits j q hq := by
    rw [hrequests] at hq
    rcases eq_or_ne j i with rfl | hne
    · rw [update_self] at hq
      obtain rfl := Option.some_inj.mp hq
      exact hfits
    · rw [update_of_ne hne] at hq
      exact (h.fits j q hq).congr (hothers j hne)

/-- A step of a connection's thread leaves the window and the queue alone. -/
theorem Sane.go (h : Sane s) {f : Request → Option Request} (hs : s.go i f = some t)
    (hfits : ∀ r r', Fits s i r → f r = some r' → Fits (s.put i r') i r') : Sane t := by
  obtain ⟨r, hr, hstep⟩ := Option.bind_eq_some_iff.mp hs
  obtain ⟨r', hr', rfl⟩ := Option.map_eq_some_iff.mp hstep
  have hothers : ∀ j, j ≠ i → Same s (s.put i r') j := fun j _ =>
    ⟨fun _ _ => Iff.rfl, fun _ => Iff.rfl, Iff.rfl⟩
  exact h.change hr rfl rfl (List.Sublist.refl _) hothers (hfits r r' (h.fits i r hr) hr')

/-- `recv` ends the thread's wait and nothing else. -/
theorem fits_receive {r' : Request} (h : Fits s i r) (hr : r.receive = some r') :
    Fits (s.put i r') i r' := by
  unfold Request.receive at hr
  split at hr
  · rename_i hthread
    -- the sender is gone, so nobody has the command any more
    have hgone : ∀ a, r.hungUp = true →
        ((i, r.command, a) ∈ s.acted ∨ a = .busy ∧ (s.Live i → i ∈ s.queue ∧ r.taken = true)) →
        Fits (s.put i { r with thread := .answered a }) i { r with thread := .answered a } := by
      intro a hhung ha
      exact {
        replied := h.replied
        dropped := h.dropped
        queued := fun hq => by
          rw [(h.queued hq).1] at hhung
          cases hhung
        held := fun b hb => by
          rw [(h.held b hb).2.1] at hhung
          cases hhung
        done := h.done
        kept := h.kept
        waiting := fun hw => by cases hw
        answered := fun b hb => by
          cases hb
          exact ha }
    split at hr
    · rename_i a ha
      cases hr
      obtain ⟨hacted, hhung, -⟩ := h.replied a ha
      exact hgone a hhung (Or.inl hacted)
    · rename_i hnone
      split at hr
      · rename_i hhung
        cases hr
        exact hgone .busy hhung (Or.inr ⟨rfl, fun hlive => absurd hlive (h.dropped hnone hhung)⟩)
      · cases hr
  · cases hr

/-- The time-out only makes the thread late. -/
theorem fits_timeout {r' : Request} (h : Fits s i r) (hr : r.timeout = some r') :
    Fits (s.put i r') i r' := by
  unfold Request.timeout at hr
  split at hr
  · rename_i hthread
    cases hr
    exact {
      replied := h.replied
      dropped := h.dropped
      queued := fun hq => by
        refine ⟨(h.queued hq).1, ?_⟩
        rcases (h.queued hq).2 with ⟨htaken, -⟩ | ⟨-, hanswered⟩
        · exact Or.inl ⟨htaken, Or.inr rfl⟩
        · rw [hthread.1] at hanswered
          cases hanswered
      held := fun a ha => ⟨(h.held a ha).1, (h.held a ha).2.1, fun b hb => by cases hb⟩
      done := h.done
      kept := h.kept
      waiting := fun hw => by cases hw
      answered := fun b hb => by cases hb }
  · cases hr

/-- The swap decides whose the command is: the thread's, if the flag was not set. -/
theorem fits_swap {r' : Request} (h : Fits s i r) (hr : r.swap = some r') :
    Fits (s.put i r') i r' := by
  unfold Request.swap at hr
  split at hr
  · rename_i hthread
    split at hr
    · rename_i htaken
      cases hr
      exact {
        replied := h.replied
        dropped := h.dropped
        queued := fun hq => by
          rcases (h.queued hq).2 with ⟨hno, -⟩ | ⟨-, hanswered⟩
          · rw [hno] at htaken
            cases htaken
          · rw [hthread] at hanswered
            cases hanswered
        held := fun a ha => ⟨(h.held a ha).1, (h.held a ha).2.1, fun b hb => by cases hb⟩
        done := h.done
        kept := h.kept
        waiting := fun _ => htaken
        answered := fun b hb => by cases hb }
    · rename_i htaken
      cases hr
      -- the flag was not set: the window does not have the command, and will skip it
      have hheld : ∀ a, s.holding ≠ some (i, a) := fun a ha => htaken (h.held a ha).1
      exact {
        replied := fun a ha => ⟨(h.replied a ha).1, (h.replied a ha).2.1, rfl⟩
        dropped := h.dropped
        queued := fun hq => ⟨(h.queued hq).1, Or.inr ⟨rfl, rfl⟩⟩
        held := fun a ha => absurd ha (hheld a)
        done := h.done
        kept := h.kept
        waiting := fun hw => by cases hw
        answered := fun b hb => by
          cases hb
          by_cases hhung : r.hungUp = true
          · rcases hreply : r.reply with _ | a
            · exact Or.inr ⟨rfl, fun hlive => absurd hlive (h.dropped hreply hhung)⟩
            · exact absurd (h.replied a hreply).2.2 htaken
          · refine Or.inr ⟨rfl, fun _ => ⟨?_, rfl⟩⟩
            exact (h.kept (by simpa using hhung)).resolve_right fun ⟨a, ha⟩ => hheld a ha }
  · cases hr

/-- A new connection's command goes behind all others. -/
theorem sane_ask (h : Sane s) (c : Command) : Sane (s.ask c) := by
  -- the new number is above all those that are live, so nothing speaks of it yet
  have hfresh : ¬ s.Live s.asked := fun hlive => Nat.lt_irrefl _ (h.line _ hlive)
  have hacted : ∀ c a, (s.asked, c, a) ∉ s.acted := fun c a hmem => hfresh (Or.inl ⟨c, a, hmem⟩)
  have hheld : ∀ a, s.holding ≠ some (s.asked, a) := fun a ha => Nat.lt_irrefl _ (h.holder _ a ha)
  have hold : ∀ {q : Request} {j r}, update s.requests s.asked (some q) j = some r → j = s.asked ∧
      r = q ∨ j ≠ s.asked ∧ s.requests j = some r := by
    intro q j r hr
    rcases eq_or_ne j s.asked with rfl | hne
    · rw [update_self] at hr
      exact Or.inl ⟨rfl, (Option.some_inj.mp hr).symm⟩
    · rw [update_of_ne hne] at hr
      exact Or.inr ⟨hne, hr⟩
  have hknown : ∀ (q : Request) j, (update s.requests s.asked (some q) j).isSome = true ↔
      j < s.asked + 1 := by
    intro q j
    rcases eq_or_ne j s.asked with rfl | hne
    · rw [update_self]
      exact iff_of_true rfl (Nat.lt_succ_self _)
    · rw [update_of_ne hne, h.known]
      omega
  -- the window listens, and the command is queued; or it does not, and the answer is there at once
  unfold State.ask
  split
  · -- behind those that are live already
    have hlive : ∀ j, State.Live { s with queue := s.queue ++ [s.asked] } j → s.Live j ∨
        j = s.asked := by
      rintro j (hj | hj | hj)
      · exact Or.inl (Or.inl hj)
      · exact Or.inl (Or.inr (Or.inl hj))
      · rcases List.mem_append.mp hj with hj | hj
        · exact Or.inl (Or.inr (Or.inr hj))
        · exact Or.inr (List.mem_singleton.mp hj)
    exact {
      order := by
        show (s.acted.map Prod.fst ++ _ ++ (s.queue ++ [s.asked])).Pairwise (· < ·)
        rw [← List.append_assoc, List.pairwise_append]
        refine ⟨h.order, List.pairwise_singleton _ _, fun j hj k hk => ?_⟩
        rw [List.mem_singleton.mp hk]
        exact h.line j (State.mem_line.mp hj)
      known := hknown _
      line := fun j hj => by
        rcases hlive j hj with hj | rfl
        · exact Nat.lt_succ_of_lt (h.line j hj)
        · exact Nat.lt_succ_self _
      holder := fun j a ha => Nat.lt_succ_of_lt (h.holder j a ha)
      fits := fun j r hr => by
        rcases hold hr with ⟨rfl, rfl⟩ | ⟨hne, hr⟩
        · exact {
            replied := fun a ha => by cases ha
            dropped := fun _ hhung => by cases hhung
            queued := fun _ => ⟨rfl, Or.inl ⟨rfl, Or.inl rfl⟩⟩
            held := fun a ha => absurd ha (hheld a)
            done := fun a ha => absurd ha (hheld _)
            kept := fun _ => Or.inl (List.mem_append_right _ (List.mem_singleton_self _))
            waiting := fun hw => by cases hw
            answered := fun a ha => by cases ha }
        · refine (h.fits j r hr).congr ⟨fun _ _ => Iff.rfl, fun _ => Iff.rfl, ?_⟩
          show j ∈ s.queue ++ [s.asked] ↔ j ∈ s.queue
          rw [List.mem_append, List.mem_singleton, or_iff_left hne] }
  -- nobody listens: the thread answers that the window is busy
  · exact {
      order := h.order
      known := hknown _
      line := fun j hj => Nat.lt_succ_of_lt (h.line j hj)
      holder := fun j a ha => Nat.lt_succ_of_lt (h.holder j a ha)
      fits := fun j r hr => by
        rcases hold hr with ⟨rfl, rfl⟩ | ⟨hne, hr⟩
        · exact {
            replied := fun a ha => by cases ha
            dropped := fun _ _ => hfresh
            queued := fun hq => absurd (Or.inr (Or.inr hq)) hfresh
            held := fun a ha => absurd ha (hheld a)
            done := fun a ha => absurd ha (hheld _)
            kept := fun hhung => by cases hhung
            waiting := fun hw => by cases hw
            answered := fun a ha => by
              cases ha
              exact Or.inr ⟨rfl, fun hlive => absurd hlive hfresh⟩ }
        · exact (h.fits j r hr).congr ⟨fun _ _ => Iff.rfl, fun _ => Iff.rfl, Iff.rfl⟩ }

/-- `next` takes the front of the queue, unless its thread was faster. -/
theorem sane_next (h : Sane s) (hs : s.next = some t) : Sane t := by
  unfold State.next at hs
  split at hs
  · split at hs
    · rename_i i queue hholding hqueue
      obtain ⟨r, hr, ht⟩ := Option.map_eq_some_iff.mp hs
      have hfits := h.fits i r hr
      have hq : i ∈ s.queue := hqueue ▸ List.mem_cons_self
      obtain ⟨hacted, -⟩ := h.queued hq
      obtain ⟨hhung, hthread⟩ := hfits.queued hq
      -- what is queued is not acted on and not held, so its fields are still the first ones
      have hreply : r.reply = none := Option.eq_none_iff_forall_ne_some.mpr fun a ha =>
        hacted _ _ (hfits.replied a ha).1
      have hline : s.line = s.acted.map Prod.fst ++ i :: queue := by
        rw [State.line, hholding, hqueue, List.append_nil]
      -- the queue is in order, so a number stands in it once
      have hnot : i ∉ queue := by
        have horder := h.order
        rw [hline, List.pairwise_append, List.pairwise_cons] at horder
        exact fun hmem => Nat.lt_irrefl i (horder.2.1.1 i hmem)
      have hrest : ∀ j, j ≠ i → (j ∈ queue ↔ j ∈ s.queue) := by
        intro j hne
        rw [hqueue, List.mem_cons, or_iff_right hne]
      have hheld : ∀ a, s.holding ≠ some (i, a) := fun a ha => by
        rw [hholding] at ha
        cases ha
      split at ht
      · -- the thread has answered already: the command is skipped
        rename_i htaken
        subst ht
        have hgone : ¬ State.Live { s.put i { r with hungUp := true } with queue := queue } i := by
          rintro (⟨c, a, hmem⟩ | hmem | hmem)
          · exact hacted c a hmem
          · exact hheld _ hmem
          · exact hnot hmem
        have hanswered : r.thread = .answered .busy := by
          rcases hthread with ⟨hno, -⟩ | ⟨-, hanswered⟩
          · rw [hno] at htaken
            cases htaken
          · exact hanswered
        refine h.change hr rfl rfl ?_
          (fun j hne => ⟨fun _ _ => Iff.rfl, fun _ => Iff.rfl, hrest j hne⟩) ?_
        · rw [hline, State.line]
          dsimp only [State.put]
          rw [hholding, List.append_nil]
          exact (List.sublist_cons_self i queue).append_left _
        · exact {
            replied := fun a ha => by
              rw [hreply] at ha
              cases ha
            dropped := fun _ _ => hgone
            queued := fun hmem => absurd hmem hnot
            held := fun a ha => absurd ha (hheld a)
            done := fun a ha => absurd ha (hheld _)
            kept := fun hno => by cases hno
            waiting := hfits.waiting
            answered := fun a ha => by
              rw [hanswered] at ha
              cases ha
              exact Or.inr ⟨rfl, fun hlive => absurd hlive hgone⟩ }
      -- the thread waits still: the command is held from now on
      · rename_i htaken
        subst ht
        -- the flag is not set, so the thread has not answered
        have hrunning : ∀ b, r.thread ≠ .answered b := by
          intro b hb
          rcases hthread with ⟨-, hasking | hlate⟩ | ⟨hno, -⟩
          · rw [hasking] at hb
            cases hb
          · rw [hlate] at hb
            cases hb
          · exact htaken hno
        refine h.change hr rfl rfl ?_
          (fun j hne => ⟨fun _ _ => Iff.rfl, fun a => ?_, hrest j hne⟩) ?_
        · rw [hline, State.line]
          dsimp only [State.put]
          rw [List.append_assoc, List.singleton_append]
        · rw [hholding]
          dsimp only
          constructor
          · intro ha
            cases ha
            exact absurd rfl hne
          · intro ha
            cases ha
        · exact {
            replied := fun a ha => by
              rw [hreply] at ha
              cases ha
            dropped := fun _ hno => by
              rw [hhung] at hno
              cases hno
            queued := fun hmem => absurd hmem hnot
            held := fun a _ => ⟨rfl, hhung, hrunning⟩
            done := fun a ha => by cases ha
            kept := fun _ => Or.inr ⟨none, rfl⟩
            waiting := fun _ => rfl
            answered := fun a ha => absurd ha (hrunning a) }
    · cases hs
  · cases hs

/-- `on_command` acts on the command that is held. -/
theorem sane_act (h : Sane s) (hs : s.act onCommand = some t) : Sane t := by
  unfold State.act at hs
  split at hs
  · rename_i i hholding
    obtain ⟨r, hr, rfl⟩ := Option.map_eq_some_iff.mp hs
    have hfits := h.fits i r hr
    -- a held command: taken, its sender kept, and the thread waiting for it
    obtain ⟨htaken, hhung, hrunning⟩ := hfits.held _ hholding
    have hnot : i ∉ s.queue := fun hq => (h.queued hq).2 hholding
    have hother : ∀ j, j ≠ i → ∀ c a b, (j, c, a) ∈ s.acted ++ [(i, r.command, b)] ↔
        (j, c, a) ∈ s.acted := by
      intro j hne c a b
      rw [List.mem_append, List.mem_singleton]
      refine or_iff_left fun heq => hne ?_
      cases heq
      rfl
    refine h.change (v := r) hr (update_eq_self_iff.mpr hr.symm).symm rfl ?_
      (fun j hne => ⟨fun c a => hother j hne c a _, fun a => ?_, Iff.rfl⟩) ?_
    -- from held to acted on: the place in the line is the same
    · rw [State.line, State.line, hholding]
      simp
    · rw [hholding]
      simp [Ne.symm hne]
    · exact {
        replied := fun a ha =>
          absurd (hfits.replied a ha).2.1 (by rw [hhung]; exact Bool.false_ne_true)
        dropped := fun _ hno => by
          rw [hhung] at hno
          cases hno
        queued := fun hq => absurd hq hnot
        held := fun a _ => ⟨htaken, hhung, hrunning⟩
        done := fun a ha => by
          cases ha
          exact List.mem_append_right _ (List.mem_singleton_self _)
        kept := fun _ => Or.inr ⟨_, rfl⟩
        waiting := hfits.waiting
        answered := fun a ha => absurd ha (hrunning a) }
  · cases hs

/-- The reply reaches the one who asked. -/
theorem sane_reply (h : Sane s) (hs : s.reply = some t) : Sane t := by
  unfold State.reply at hs
  split at hs
  · rename_i i a hholding
    obtain ⟨r, hr, rfl⟩ := Option.map_eq_some_iff.mp hs
    have hfits := h.fits i r hr
    obtain ⟨htaken, -, hrunning⟩ := hfits.held _ hholding
    have hacted := hfits.done a hholding
    have hnot : i ∉ s.queue := fun hq => (h.queued hq).1 _ _ hacted
    refine h.change hr rfl rfl ?_ (fun j hne => ⟨fun _ _ => Iff.rfl, fun b => ?_, Iff.rfl⟩) ?_
    · rw [State.line, State.line, hholding]
      exact List.Sublist.refl _
    · rw [hholding]
      simp [Ne.symm hne]
    · exact {
        replied := fun b hb => by
          cases hb
          exact ⟨hacted, rfl, htaken⟩
        dropped := fun hno => by cases hno
        queued := fun hq => absurd hq hnot
        held := fun b hb => by cases hb
        done := fun b hb => by cases hb
        kept := fun hno => by cases hno
        waiting := hfits.waiting
        answered := fun b hb => absurd hb (hrunning b) }
  · cases hs

/-- So does the end without one. -/
theorem sane_drop (h : Sane s) (hs : s.drop = some t) : Sane t := by
  unfold State.drop at hs
  split at hs
  · rename_i i hholding
    obtain ⟨r, hr, rfl⟩ := Option.map_eq_some_iff.mp hs
    have hfits := h.fits i r hr
    obtain ⟨htaken, hhung, hrunning⟩ := hfits.held _ hholding
    have hnot : i ∉ s.queue := fun hq => (h.queued hq).2 hholding
    have hgone : ¬ State.Live { s.put i { r with hungUp := true } with holding := none } i := by
      rintro (⟨c, a, hmem⟩ | hmem | hmem)
      · exact h.held hholding c a hmem
      · cases hmem
      · exact hnot hmem
    refine h.change hr rfl rfl ?_ (fun j hne => ⟨fun _ _ => Iff.rfl, fun b => ?_, Iff.rfl⟩) ?_
    · rw [State.line, State.line, hholding]
      dsimp only [State.put]
      rw [List.append_nil]
      exact (List.sublist_append_left _ _).append_right _
    · rw [hholding]
      simp [Ne.symm hne]
    · exact {
        replied := fun b hb =>
          absurd (hfits.replied b hb).2.1 (by rw [hhung]; exact Bool.false_ne_true)
        dropped := fun _ _ => hgone
        queued := fun hq => absurd hq hnot
        held := fun b hb => by cases hb
        done := fun b hb => by cases hb
        kept := fun hno => by cases hno
        waiting := hfits.waiting
        answered := fun b hb => absurd hb (hrunning b) }
  · cases hs

/-- A window that goes drops what it holds and what is queued. -/
theorem sane_leave (h : Sane s) (hs : s.leave = some t) : Sane t := by
  unfold State.leave at hs
  split at hs
  · rename_i hguard
    have hholding : s.holding = none := Option.isNone_iff_eq_none.mp hguard.2
    cases hs
    -- what is live after that was live before, and was not queued
    have hfewer : ∀ j, State.Live { s with queue := [] } j → s.Live j ∧ j ∉ s.queue := by
      rintro j (⟨c, a, hj⟩ | hj | hj)
      · exact ⟨Or.inl ⟨c, a, hj⟩, fun hq => (h.queued hq).1 c a hj⟩
      · rw [show s.holding = some (j, none) from hj] at hholding
        cases hholding
      · cases hj
    exact {
      order := by
        refine h.order.sublist ?_
        rw [State.line, State.line]
        exact (List.nil_sublist _).append_left _
      known := fun j => by
        rw [← h.known, Option.isSome_map]
      line := fun j hj => h.line j (hfewer j hj).1
      holder := h.holder
      fits := fun j q hq => by
        obtain ⟨r, hr, rfl⟩ := Option.map_eq_some_iff.mp hq
        have hfits := h.fits j r hr
        by_cases hj : j ∈ s.queue
        · -- it was in the queue: the sender goes with it
          rw [if_pos hj]
          have hgone : ¬ State.Live { s with queue := [] } j := fun hlive => (hfewer j hlive).2 hj
          obtain ⟨hhung, hthread⟩ := hfits.queued hj
          exact {
            replied := fun a ha =>
              absurd (hfits.replied a ha).2.1 (by rw [hhung]; exact Bool.false_ne_true)
            dropped := fun _ _ => hgone
            queued := fun hno => by cases hno
            held := fun a ha => by
              rw [show s.holding = some (j, a) from ha] at hholding
              cases hholding
            done := fun a ha => by
              rw [show s.holding = some (j, some a) from ha] at hholding
              cases hholding
            kept := fun hno => by cases hno
            waiting := hfits.waiting
            answered := fun a ha => by
              rcases hthread with ⟨-, hasking | hlate⟩ | ⟨-, hanswered⟩
              · cases hasking.symm.trans ha
              · cases hlate.symm.trans ha
              · cases hanswered.symm.trans ha
                exact Or.inr ⟨rfl, fun hlive => absurd hlive hgone⟩ }
        -- any other command is as it was
        · rw [if_neg hj]
          exact hfits.congr
            ⟨fun _ _ => Iff.rfl, fun _ => Iff.rfl, iff_of_false List.not_mem_nil hj⟩ }
  · cases hs

/-- **One step.** -/
theorem sane_step {e : Event W} (h : Sane s) (hs : (machine onCommand).step s e = some t) :
    Sane t := by
  cases e with
  | connect line =>
    cases hs
    rcases Command.parse (Chars.trim line) with _ | c
    · exact h
    · exact sane_ask h c
  | next => exact sane_next h hs
  | act => exact sane_act h hs
  | reply => exact sane_reply h hs
  | drop => exact sane_drop h hs
  | other w =>
    cases hs
    exact ⟨h.order, h.known, h.line, h.holder, fun j r hr =>
      (h.fits j r hr).congr ⟨fun _ _ => Iff.rfl, fun _ => Iff.rfl, Iff.rfl⟩⟩
  | leave => exact sane_leave h hs
  | receive i => exact h.go hs fun _ _ => fits_receive
  | timeout i => exact h.go hs fun _ _ => fits_timeout
  | swap i => exact h.go hs fun _ _ => fits_swap

/-- The invariant in every reachable state, by the steps above. -/
theorem sane_reach {w : W} (h : (machine onCommand).Reach Free (.init w) s) : Sane s :=
  h.inv (sane_init w) fun _ _ _ ht _ hs => sane_step ht hs

/-! ## Withdrawn commands -/

/-- The window has not acted on the command and cannot take it. -/
def Withdrawn (s : State W) (i : Nat) : Prop :=
  ∃ r, s.requests i = some r ∧ (∀ c a, (i, c, a) ∉ s.acted) ∧ s.holding ≠ some (i, none) ∧
  (i ∈ s.queue → r.taken = true)

/-- A withdrawn command stays withdrawn while no flag is taken back. -/
theorem withdrawn_put {j : Nat} {q p : Request} (h : Withdrawn s i) (hq : s.requests j = some q)
    (htaken : q.taken = true → p.taken = true) :
    Withdrawn (s.put j p) i := by
  obtain ⟨r, hr, hacted, hheld, hqueue⟩ := h
  rcases eq_or_ne i j with rfl | hne
  · obtain rfl := Option.some_inj.mp (hr.symm.trans hq)
    exact ⟨p, update_self .., hacted, hheld, fun hmem => htaken (hqueue hmem)⟩
  · exact ⟨r, (update_of_ne hne ..).trans hr, hacted, hheld, hqueue⟩

/-- The threads take no flag back. -/
theorem withdrawn_go {j : Nat} {f : Request → Option Request} (h : Withdrawn s i)
    (hs : s.go j f = some t) (htaken : ∀ q q', f q = some q' → q.taken = true → q'.taken = true) :
    Withdrawn t i := by
  obtain ⟨q, hq, hstep⟩ := Option.bind_eq_some_iff.mp hs
  obtain ⟨q', hq', rfl⟩ := Option.map_eq_some_iff.mp hstep
  exact withdrawn_put h hq (htaken q q' hq')

/-- Nor does the window: it leaves a command whose flag is set. -/
theorem withdrawn_step {e : Event W} (hsane : Sane s) (h : Withdrawn s i)
    (hs : (machine onCommand).step s e = some t) : Withdrawn t i := by
  have hkept := h
  obtain ⟨r, hr, hacted, hheld, hqueue⟩ := h
  cases e with
  | connect line =>
    cases hs
    rcases Command.parse (Chars.trim line) with _ | c
    · exact hkept
    · have hne : i ≠ s.asked := Nat.ne_of_lt ((hsane.known i).mp (by rw [hr]; rfl))
      show Withdrawn (s.ask c) i
      unfold State.ask
      split
      · refine ⟨r, (update_of_ne hne ..).trans hr, hacted, hheld, fun hmem => ?_⟩
        rcases List.mem_append.mp hmem with hmem | hmem
        · exact hqueue hmem
        · exact absurd (List.mem_singleton.mp hmem) hne
      · exact ⟨r, (update_of_ne hne ..).trans hr, hacted, hheld, hqueue⟩
  | next =>
    change s.next = some t at hs
    unfold State.next at hs
    split at hs
    · split at hs
      · rename_i j queue hholding hq
        obtain ⟨q, hj, ht⟩ := Option.map_eq_some_iff.mp hs
        have hrest : ∀ {k}, k ∈ queue → k ∈ s.queue := fun hmem => hq ▸ List.mem_cons_of_mem _ hmem
        split at ht
        · subst ht
          obtain ⟨r', hr', -, -, hqueue'⟩ :=
            withdrawn_put (p := { q with hungUp := true }) hkept hj id
          exact ⟨r', hr', hacted, hheld, fun hmem => hqueue' (hrest hmem)⟩
        · rename_i htaken
          subst ht
          -- the flag was not set, so it is another command
          have hne : j ≠ i := by
            rintro rfl
            obtain rfl := Option.some_inj.mp (hr.symm.trans hj)
            exact htaken (hqueue (hq ▸ List.mem_cons_self))
          refine ⟨r, (update_of_ne hne.symm ..).trans hr, hacted, ?_, fun hmem =>
            hqueue (hrest hmem)⟩
          intro heq
          cases heq
          exact hne rfl
      · cases hs
    · cases hs
  | act =>
    change s.act onCommand = some t at hs
    unfold State.act at hs
    split at hs
    · rename_i j hholding
      obtain ⟨q, -, rfl⟩ := Option.map_eq_some_iff.mp hs
      refine ⟨r, hr, ?_, ?_, hqueue⟩
      · intro c a hmem
        rcases List.mem_append.mp hmem with hmem | hmem
        · exact hacted c a hmem
        · cases List.mem_singleton.mp hmem
          exact hheld hholding
      · intro heq
        cases heq
    · cases hs
  | reply =>
    change s.reply = some t at hs
    unfold State.reply at hs
    split at hs
    · obtain ⟨q, hj, rfl⟩ := Option.map_eq_some_iff.mp hs
      obtain ⟨r', hr', -, -, hqueue'⟩ :=
        withdrawn_put (p := { q with reply := some _, hungUp := true }) hkept hj id
      exact ⟨r', hr', hacted, fun heq => (by cases heq), hqueue'⟩
    · cases hs
  | drop =>
    change s.drop = some t at hs
    unfold State.drop at hs
    split at hs
    · obtain ⟨q, hj, rfl⟩ := Option.map_eq_some_iff.mp hs
      obtain ⟨r', hr', -, -, hqueue'⟩ := withdrawn_put (p := { q with hungUp := true }) hkept hj id
      exact ⟨r', hr', hacted, fun heq => (by cases heq), hqueue'⟩
    · cases hs
  | other w =>
    cases hs
    exact hkept
  | leave =>
    change s.leave = some t at hs
    unfold State.leave at hs
    split at hs
    · cases hs
      exact ⟨_, Option.map_eq_some_iff.mpr ⟨r, hr, rfl⟩, hacted, hheld, fun hmem => (by cases hmem)⟩
    · cases hs
  | receive j =>
    refine withdrawn_go hkept hs fun q q' hq htaken => ?_
    unfold Request.receive at hq
    split at hq
    · split at hq
      · cases hq
        exact htaken
      · split at hq
        · cases hq
          exact htaken
        · cases hq
    · cases hq
  | timeout j =>
    refine withdrawn_go hkept hs fun q q' hq htaken => ?_
    unfold Request.timeout at hq
    split at hq
    · cases hq
      exact htaken
    · cases hq
  | swap j =>
    refine withdrawn_go hkept hs fun q q' hq => ?_
    unfold Request.swap at hq
    split at hq
    · split at hq
      · cases hq
        exact id
      · cases hq
        exact fun _ => rfl
    · cases hq

/-- So a withdrawn command is never acted on. -/
theorem withdrawn_reach {w : W} (hs : (machine onCommand).Reach Free (.init w) s)
    (h : Withdrawn s i) (ht : (machine onCommand).Reach Free s t) (c : Command) (a : Reply) :
    (i, c, a) ∉ t.acted := by
  have hboth : Sane t ∧ Withdrawn t i :=
    ht.inv (I := fun t => Sane t ∧ Withdrawn t i) ⟨sane_reach hs, h⟩ fun _ _ _ hi _ hstep =>
    ⟨sane_step hi.1 hstep, withdrawn_step hi.1 hi.2 hstep⟩
  obtain ⟨-, -, -, hacted, -⟩ := hboth
  exact hacted c a

end Steps

/-! ## What a client is told -/

/-- The line that the thread of `i` has written. -/
def State.written (s : State W) (i : Nat) : Option Chars :=
  match s.requests i with
  | some r =>
    match r.thread with
    | .answered a => some a.line
    | _ => none
  | none => none

/-- **What a client is told is so.**  The window acts on the commands in the order of its queue,
    each once.  The line that a client gets reads as the reply that the window gave its command, or
    as `busy`, and then the window has not acted on the command and never will. -/
theorem told_of_reach (onCommand : W → Command → W × Reply) (w : W) {s : State W}
    (h : (machine onCommand).Reach Free (.init w) s) :
    (s.acted.map Prod.fst).Pairwise (· < ·) ∧ ∀ i line, s.written i = some line →
    ∃ a, readReply line = .reply a ∧
      ((∃ r, s.requests i = some r ∧ (i, r.command, a) ∈ s.acted) ∨
        a = .busy ∧ ∀ t, (machine onCommand).Reach Free s t → ∀ c b, (i, c, b) ∉ t.acted) := by
  have hsane := sane_reach h
  refine ⟨?_, ?_⟩
  · have horder := hsane.order
    rw [State.line, List.append_assoc, List.pairwise_append] at horder
    exact horder.1
  · intro i line hline
    unfold State.written at hline
    split at hline
    · rename_i r hr
      split at hline
      · rename_i a ha
        cases hline
        refine ⟨a, readReply_line a, ?_⟩
        have hfits := hsane.fits i r hr
        rcases hfits.answered a ha with hacted | ⟨hbusy, hlive⟩
        · exact Or.inl ⟨r, hr, hacted⟩
        · refine Or.inr ⟨hbusy, fun t ht => withdrawn_reach h ⟨r, hr, ?_, ?_, ?_⟩ ht⟩
          · intro c b hmem
            exact (hsane.queued (hlive (Or.inl ⟨c, b, hmem⟩)).1).1 c b hmem
          · intro hheld
            exact (hfits.held _ hheld).2.2 a ha
          · intro hmem
            exact (hlive (Or.inr (Or.inr hmem))).2
      · cases hline
    · cases hline

/-- The steps of one connection's thread. -/
def Own (i : Nat) (_ : State W) (e : Event W) : Prop :=
  e = .receive i ∨ e = .timeout i ∨ e = .swap i

section Alone

variable {onCommand : W → Command → W × Reply} {s : State W} {i : Nat} {r r' : Request}

/-- A step of the command's own thread, as one of the thread's runs. -/
theorem own_go {e : Event W} {f : Request → Option Request} (he : Own i s e)
    (hstep : (machine onCommand).step s e = s.go i f) (hr : s.requests i = some r)
    (hr' : f r = some r') : (machine onCommand).Reach (Own i) s (s.put i r') := by
  refine Reach.refl.step he (hstep.trans ?_)
  rw [State.go, hr, Option.bind_some, hr']
  rfl

/-- A thread that has answered has written its line. -/
theorem written_put {a : Reply} (ha : r.thread = .answered a) :
    ((s.put i r).written i).isSome = true := by
  simp [State.written, State.put, ha]

/-- Behind the sender's end. -/
theorem receive_hungUp (hhung : r.hungUp = true)
    (hthread : r.thread = .asking ∨ r.thread = .waiting) :
    ∃ r' a, r.receive = some r' ∧ r'.thread = .answered a := by
  unfold Request.receive
  rw [if_pos hthread]
  rcases r.reply with _ | a
  · rw [if_pos hhung]
    exact ⟨_, _, rfl, rfl⟩
  · exact ⟨_, _, rfl, rfl⟩

/-- The flag: the thread answers, or waits for the window. -/
theorem swap_late (hthread : r.thread = .late) :
    ∃ r', r.swap = some r' ∧
    (r'.thread = .answered .busy ∨ r'.thread = .waiting ∧ r.taken = true ∧
      r'.hungUp = r.hungUp) := by
  unfold Request.swap
  rw [if_pos hthread]
  split
  · rename_i htaken
    exact ⟨_, rfl, Or.inr ⟨rfl, htaken, rfl⟩⟩
  · exact ⟨_, rfl, Or.inl rfl⟩

end Alone

/-- **Nobody waits for a window that does not take the command.**  As long as the window does not
    hold it, the steps of the command's own thread lead to an answer. -/
theorem answered_alone (onCommand : W → Command → W × Reply) (w : W) {s : State W}
    (h : (machine onCommand).Reach Free (.init w) s) {i : Nat} (hi : i < s.asked)
    (hfree : ∀ a, s.holding ≠ some (i, a)) :
    ∃ t, (machine onCommand).Reach (Own i) s t ∧ (t.written i).isSome = true := by
  have hsane := sane_reach h
  obtain ⟨r, hr⟩ := Option.isSome_iff_exists.mp ((hsane.known i).mpr hi)
  have hfits := hsane.fits i r hr
  -- its sender is gone, or it is kept
  by_cases hhung : r.hungUp = true
  · have hreceive : ∀ (u : State W) (q : Request), (machine onCommand).Reach (Own i) s u →
        u.requests i = some q → q.hungUp = true →
        (q.thread = .asking ∨ q.thread = .waiting) → ∃ t, (machine onCommand).Reach (Own i) s t ∧
        (t.written i).isSome = true := by
      intro u q hu hq hhung hthread
      obtain ⟨q', a, hq', ha⟩ := receive_hungUp hhung hthread
      exact ⟨_, hu.trans (own_go (Or.inl rfl) rfl hq hq'), written_put ha⟩
    -- the thread may ask, be late, wait or have answered; each leads on by its own steps
    rcases hthread : r.thread with _ | _ | _ | a
    · exact hreceive s r .refl hr hhung (Or.inl hthread)
    · obtain ⟨r', hr', hanswered | ⟨hwaiting, -, hsame⟩⟩ := swap_late hthread
      · exact ⟨_, own_go (Or.inr (Or.inr rfl)) rfl hr hr', written_put hanswered⟩
      · exact hreceive _ r' (own_go (Or.inr (Or.inr rfl)) rfl hr hr') (update_self ..)
          (hsame.trans hhung) (Or.inr hwaiting)
    · exact hreceive s r .refl hr hhung (Or.inr hthread)
    · exact ⟨s, .refl, by simp [State.written, hr, hthread]⟩
  · -- it is in the queue, and the flag is not set unless the thread has answered
    have hqueue : i ∈ s.queue := (hfits.kept (by simpa using hhung)).resolve_right fun ⟨a, ha⟩ =>
      hfree a ha
    have hswap : ∀ (u : State W) (q : Request), (machine onCommand).Reach (Own i) s u →
        u.requests i = some q → q.taken = false →
        q.thread = .late → ∃ t, (machine onCommand).Reach (Own i) s t ∧
        (t.written i).isSome = true := by
      intro u q hu hq htaken hlate
      obtain ⟨q', hq', hanswered | ⟨-, hno, -⟩⟩ := swap_late hlate
      · exact ⟨_, hu.trans (own_go (Or.inr (Or.inr rfl)) rfl hq hq'), written_put hanswered⟩
      · rw [htaken] at hno
        cases hno
    -- it asks: its time runs out first; it is late: it answers then
    rcases (hfits.queued hqueue).2 with ⟨htaken, hasking | hlate⟩ | ⟨-, hanswered⟩
    · have hreply : r.reply = none := Option.eq_none_iff_forall_ne_some.mpr fun a ha =>
        hhung (hfits.replied a ha).2.1
      have htimeout : r.timeout = some { r with thread := .late } := if_pos ⟨hasking, hreply⟩
      exact hswap _ _ (own_go (Or.inr (Or.inl rfl)) rfl hr htimeout) (update_self ..) htaken rfl
    · exact hswap s r .refl hr htaken hlate
    · exact ⟨s, .refl, by simp [State.written, hr, hanswered]⟩

/-- A window that does what it is asked. -/
def obeys (w : Unit) (_ : Command) : Unit × Reply := (w, .ok)

/-- Both threads are late.  The first withdraws its command; the window is
    faster than the second. -/
def lateTake : List (Event Unit) :=
  [.connect Command.delete.line, .connect Command.quit.line, .timeout 0, .swap 0, .timeout 1, .next,
    .next, .swap 1, .act, .reply, .receive 1]

/-- The first client is told `busy` and its command is never acted on; the
    second one gets its reply. -/
theorem late_take_told : ∃ s, (machine obeys).Reach Free (.init ()) s ∧
    s.written 0 = some Reply.busy.line ∧
    s.written 1 = some Reply.ok.line ∧ ∀ t, (machine obeys).Reach Free s t →
    ∀ c b, (0, c, b) ∉ t.acted := by
  obtain ⟨s, hreach, hs⟩ := Reach.of_run_any (M := machine obeys) (G := Free) (s := .init ())
    (p := fun s => s.written 0 = some Reply.busy.line && s.written 1 = some Reply.ok.line &&
      s.acted.map Prod.fst = [1]) lateTake
    (by decide)
  simp only [Bool.and_eq_true, decide_eq_true_eq] at hs
  obtain ⟨⟨hbusy, hok⟩, hacted⟩ := hs
  refine ⟨s, hreach, hbusy, hok, ?_⟩
  obtain ⟨-, htold⟩ := told_of_reach obeys () hreach
  obtain ⟨a, -, ⟨r, -, hmem⟩ | ⟨-, hnever⟩⟩ := htold 0 _ hbusy
  · have hzero := List.mem_map_of_mem (f := Prod.fst) hmem
    rw [hacted] at hzero
    cases List.mem_singleton.mp hzero
  · exact hnever

/-- Two windows ask, and the window takes the first command. -/
def firstTaken : List (Event Unit) :=
  [.connect Command.restartInstall.line, .connect Command.delete.line, .next]

/-- While the window holds the first command, the thread of the second one answers without it. -/
theorem second_command_answered : ∃ s t, (machine obeys).Reach Free (.init ()) s ∧
    s.holding = some (0, none) ∧
    s.written 1 = none ∧ (machine obeys).Reach (Own 1) s t ∧ (t.written 1).isSome = true := by
  obtain ⟨s, hreach, hs⟩ := Reach.of_run_any (M := machine obeys) (G := Free) (s := .init ())
    (p := fun s => s.asked = 2 && s.holding = some (0, none) && s.written 1 = none) firstTaken
      (by decide)
  simp only [Bool.and_eq_true, decide_eq_true_eq] at hs
  obtain ⟨⟨hasked, hholding⟩, hunanswered⟩ := hs
  have hfree : ∀ a, s.holding ≠ some (1, a) := by
    intro a ha
    rw [hholding] at ha
    cases ha
  obtain ⟨t, ht, hwritten⟩ := answered_alone obeys () hreach (i := 1) (by omega) hfree
  exact ⟨s, t, hreach, hholding, hunanswered, ht, hwritten⟩

end Program

end CdjEmu.WindowSocket
