/-
  THE LIVENESS PROBE — `peer_closed` against the writer thread of the same connection.

  All handles of a connection share one open file description, and with it the blocking flag.  While
  a request waits for the window the connection's thread sets the flag to non-blocking, peeks, and
  sets it back; meanwhile the writer thread may be anywhere in `write_all`.

  A call of `write` looks at the flag when it is made.  Into a full send buffer a non-blocking call
  writes nothing and fails, and the writer thread then shuts the connection down; a blocking call
  waits, whatever happens to the flag later.  `spared_iff` says that this is the only way to lose
  the connection of a client that stays, and `probe_spares` follows it along a run.

  1. **Program** — the connection with its send buffer, the writer thread inside `write_all`, the
     probe with the flag it sets and takes back, and the client, which may stay, close or reset.

  2. **Specification** — `Healthy`: no write has failed, the connection is open, and every line is
     where it belongs, with the client, in the buffer, under way or in the queue, in the order in
     which it was queued.

  3. **The crux (`spared_iff`)** — one step of a client that stays keeps `Healthy` exactly if it
     does not call `write` into a full buffer while the flag is set.  Everything else that the two
     threads may do to each other is harmless.

  4. **Bridge** — `Healthy.reach` is the run, and `finishes` the progress: a line that has been
     begun can be brought into the buffer, since a client that stays reads.
-/
import CdjEmu.Lib.Machine
import CdjEmu.Lib.Text

namespace CdjEmu.Control

/-! ## The program -/

/-- Where the writer thread is. -/
inductive Writer where
  /-- It waits for a line. -/
  | idle
  /-- In `write_all`, about to call `write` with what is left of the line. -/
  | ready (rest : Bytes)
  /-- In a blocking call of `write`. -/
  | writing (rest : Bytes)
  /-- A write has failed, and the thread has ended. -/
  | failed
  deriving DecidableEq

/-- What is left of the line that has been begun. -/
def Writer.rest : Writer → Bytes
  | .ready rest => rest
  | .writing rest => rest
  | _ => []

/-- Where the connection's thread is. -/
inductive Asker where
  /-- No request waits. -/
  | idle
  /-- In `ask_window`. -/
  | waiting
  /-- In `peer_closed`, with the flag set. -/
  | probing
  /-- It has peeked. -/
  | peeked (closed : Bool)
  /-- It has left `serve`. -/
  | gone
  deriving DecidableEq

/-- What `peek` gives. -/
inductive Peek where
  | data
  | eof
  | wouldBlock
  | failed
  deriving DecidableEq

/-- Whether the client has closed the connection. -/
def Peek.closed : Peek → Bool
  | .data => false
  | .eof => true
  | .wouldBlock => false
  | .failed => true

structure Socket where
  nonblocking : Bool
  /-- What the client has not yet taken. -/
  buffer : Bytes
  /-- What the client has taken. -/
  taken : Bytes
  queue : List Bytes
  writer : Writer
  asker : Asker
  shut : Bool
  /-- Every line that was queued. -/
  queued : List Bytes
  deriving DecidableEq

namespace Socket

def init : Socket where
  nonblocking := false
  buffer := []
  taken := []
  queue := []
  writer := .idle
  asker := .idle
  shut := false
  queued := []

/-- `EventSink::send`, which fails when the writer thread has ended. -/
def send (s : Socket) (event : Bytes) : Socket :=
  if s.writer = .failed then s
  else { s with
    queue := s.queue ++ [event ++ bytes "\n"], queued := s.queued ++ [event ++ bytes "\n"] }

/-- `n` octets of the line go to the send buffer, in a call after which the writer is at `next` if
    some are left. -/
def put (s : Socket) (n : Nat) (rest : Bytes) (next : Bytes → Writer) : Socket :=
  { s with
    buffer := s.buffer ++ rest.take n
    writer := if rest.drop n = [] then .idle else next (rest.drop n) }

end Socket

inductive Event where
  /-- Someone queues a line. -/
  | send (event : Bytes)
  /-- The writer thread takes the next line. -/
  | next
  /-- It calls `write`; if there is room the call writes `n` octets at once. -/
  | write (n : Nat)
  /-- A blocking call goes on. -/
  | copy (n : Nat)
  /-- The client takes `n` octets. -/
  | drain (n : Nat)
  /-- A request is handed to the window, and gets its reply. -/
  | ask
  | answered
  /-- The three steps of `peer_closed`. -/
  | setNonblocking (ok : Bool)
  | peek (r : Peek)
  | setBlocking

/-- A connection whose send buffer holds `cap` octets. -/
def socket (cap : Nat) : Machine Socket Event where
  step s
    | .send event => some (s.send event)
    | .next =>
      match s.writer, s.queue with
      | .idle, line :: queue => some { s with queue := queue, writer := .ready line }
      | _, _ => none
    | .write n =>
      match s.writer with
      | .ready rest =>
        if s.buffer.length < cap then
          if 0 < n ∧ n ≤ rest.length ∧ s.buffer.length + n ≤ cap then
            some (s.put n rest (if s.nonblocking then .ready else .writing))
          else none
        else if s.nonblocking then some { s with writer := .failed, shut := true }
        else some { s with writer := .writing rest }
      | _ => none
    | .copy n =>
      match s.writer with
      | .writing rest =>
        if 0 < n ∧ n ≤ rest.length ∧ s.buffer.length + n ≤ cap then some (s.put n rest .writing)
        else none
      | _ => none
    | .drain n =>
      if n ≤ s.buffer.length then
        some { s with buffer := s.buffer.drop n, taken := s.taken ++ s.buffer.take n } else none
    | .ask => if s.asker = .idle then some { s with asker := .waiting } else none
    | .answered => if s.asker = .waiting then some { s with asker := .idle } else none
    | .setNonblocking ok =>
      if s.asker = .waiting then
        some { s with
          nonblocking := ok || s.nonblocking, asker := if ok then .probing else .waiting }
      else none
    | .peek r => if s.asker = .probing then some { s with asker := .peeked r.closed } else none
    | .setBlocking =>
      match s.asker with
      | .peeked false => some { s with nonblocking := false, asker := .waiting }
      -- `serve` returns, and the connection is closed
      | .peeked true => some { s with nonblocking := false, asker := .gone, shut := true }
      | _ => none

/-! ## What costs the connection -/

/-- The client neither closes nor resets. -/
def Stays : Event → Prop
  | .peek r => r.closed = false
  | _ => True

/-- A step of a client that stays, in which `write` is not called into a full
    buffer with the flag set. -/
def Spared (cap : Nat) (s : Socket) : Event → Prop
  | .write _ => s.nonblocking = true → s.buffer.length < cap
  | a => Stays a

instance (a : Event) : Decidable (Stays a) := by
  cases a <;> (unfold Stays; infer_instance)

instance (cap : Nat) (s : Socket) (a : Event) : Decidable (Spared cap s a) := by
  cases a <;> (unfold Spared; infer_instance)

theorem Spared.stays {cap : Nat} {s : Socket} {a : Event} (h : Spared cap s a) : Stays a := by
  cases a with
  | peek r => exact h
  | _ => trivial

/-- No write has failed, the connection is open, and every line is where it belongs: taken by the
    client, in the send buffer, begun, or queued, in order. -/
structure Healthy (s : Socket) : Prop where
  writes : s.writer ≠ .failed
  unshut : s.shut = false
  lines : s.taken ++ s.buffer ++ s.writer.rest ++ s.queue.flatten = s.queued.flatten

/-- The flag is set only inside the probe; the probe of a client that stays finds it there; lines
    are not empty. -/
structure Placed (s : Socket) : Prop where
  flag : s.nonblocking = true → s.asker = .probing ∨ s.asker = .peeked false
  found : s.asker ≠ .peeked true
  begun : s.writer = .idle ∨ s.writer = .failed ∨ s.writer.rest ≠ []
  waiting : [] ∉ s.queue

variable {cap : Nat} {s t : Socket} {a : Event}

theorem healthy_init : Healthy .init := ⟨fun h => (by cases h), rfl, rfl⟩

theorem placed_init : Placed .init :=
  ⟨fun h => (by cases h), fun h => (by cases h), .inl rfl, List.not_mem_nil⟩

/-! ## Steps -/

theorem rest_put (s : Socket) (n : Nat) (rest : Bytes) {next : Bytes → Writer}
    (h : ∀ r, (next r).rest = r) :
    (s.put n rest next).writer.rest = rest.drop n := by
  show (if rest.drop n = [] then Writer.idle else next (rest.drop n)).rest = rest.drop n
  split
  · rename_i hdone
    exact hdone.symm
  · exact h _

/-- The send buffer and what is left of the line are the same octets as before. -/
theorem ahead_put (s : Socket) (n : Nat) (rest : Bytes) {next : Bytes → Writer}
    (h : ∀ r, (next r).rest = r) :
    (s.put n rest next).buffer ++ (s.put n rest next).writer.rest = s.buffer ++ rest := by
  rw [rest_put s n rest h]
  show s.buffer ++ rest.take n ++ rest.drop n = s.buffer ++ rest
  rw [List.append_assoc, List.take_append_drop]

/-- Octets that go to the send buffer leave the line. -/
theorem Healthy.put (h : Healthy s) {rest : Bytes} (hrest : s.writer.rest = rest) (n : Nat)
    {next : Bytes → Writer} (hnext : ∀ r, (next r).rest = r ∧ next r ≠ .failed) :
    Healthy (s.put n rest next) := by
  refine ⟨?_, h.unshut, ?_⟩
  · show (if rest.drop n = [] then Writer.idle else next (rest.drop n)) ≠ .failed
    split
    · exact fun he => by cases he
    · exact (hnext _).2
  · have hlines := h.lines
    rw [hrest] at hlines
    rw [rest_put s n rest fun r => (hnext r).1]
    show s.taken ++ (s.buffer ++ rest.take n) ++ rest.drop n ++ s.queue.flatten = s.queued.flatten
    rw [← hlines]
    congr 1
    rw [List.append_assoc, List.append_assoc, List.take_append_drop, ← List.append_assoc]

theorem Placed.put (h : Placed s) (n : Nat) (rest : Bytes) {next : Bytes → Writer}
    (hnext : ∀ r, (next r).rest = r) :
    Placed (s.put n rest next) := by
  refine ⟨h.flag, h.found, ?_, h.waiting⟩
  by_cases hdone : rest.drop n = []
  · exact .inl (if_pos hdone)
  · refine .inr (.inr ?_)
    rw [rest_put s n rest hnext]
    exact hdone

theorem Placed.step (h : Placed s) (hg : Stays a) (hs : (socket cap).step s a = some t) :
    Placed t := by
  cases a with
  | send event =>
    cases hs
    unfold Socket.send
    split
    · exact h
    -- a line has its newline, so what is queued is never empty
    · refine ⟨h.flag, h.found, h.begun, ?_⟩
      rw [List.mem_append, List.mem_singleton]
      rintro (hq | he)
      · exact h.waiting hq
      · exact List.append_ne_nil_of_right_ne_nil event (by decide) he.symm
  | next =>
    dsimp only [socket] at hs
    split at hs
    · rename_i line queue hwriter hqueue
      cases hs
      have hwaiting := h.waiting
      rw [hqueue, List.mem_cons, not_or] at hwaiting
      exact ⟨h.flag, h.found, .inr (.inr (Ne.symm hwaiting.1)), hwaiting.2⟩
    · cases hs
  | write n =>
    dsimp only [socket] at hs
    split at hs
    · rename_i rest hwriter
      -- what the writer has in hand is not empty: that is what it looked at last
      have hbegun : rest ≠ [] := by
        rcases h.begun with hi | hf | hr
        · rw [hwriter] at hi
          cases hi
        · rw [hwriter] at hf
          cases hf
        · rwa [hwriter] at hr
      split at hs
      · obtain ⟨-, ⟨⟩⟩ := Option.ite_none_right_eq_some.mp hs
        exact h.put n rest fun r => by split <;> rfl
      -- a full buffer: with the flag set the writer fails, without it waits
      · split at hs
        · cases hs
          exact ⟨h.flag, h.found, .inr (.inl rfl), h.waiting⟩
        · cases hs
          exact ⟨h.flag, h.found, .inr (.inr hbegun), h.waiting⟩
    · cases hs
  | copy n =>
    dsimp only [socket] at hs
    split at hs
    · obtain ⟨-, ⟨⟩⟩ := Option.ite_none_right_eq_some.mp hs
      exact h.put n _ fun r => rfl
    · cases hs
  | drain n =>
    obtain ⟨-, ⟨⟩⟩ := Option.ite_none_right_eq_some.mp hs
    exact ⟨h.flag, h.found, h.begun, h.waiting⟩
  | ask | answered =>
    obtain ⟨hasker, ⟨⟩⟩ := Option.ite_none_right_eq_some.mp hs
    -- the flag is set by a probe alone, and none is under way here
    refine ⟨fun hflag => ?_, fun he => (by cases he), h.begun, h.waiting⟩
    have := h.flag hflag
    simp [hasker] at this
  | setNonblocking ok =>
    obtain ⟨hasker, ⟨⟩⟩ := Option.ite_none_right_eq_some.mp hs
    cases ok with
    | true => exact ⟨fun _ => .inl rfl, fun he => (by cases he), h.begun, h.waiting⟩
    | false =>
      refine ⟨fun hflag => ?_, fun he => (by cases he), h.begun, h.waiting⟩
      have := h.flag hflag
      simp [hasker] at this
  | peek r =>
    obtain ⟨-, ⟨⟩⟩ := Option.ite_none_right_eq_some.mp hs
    -- the run keeps its client, so the probe finds it there
    have hr : r.closed = false := hg
    refine ⟨fun _ => .inr (congrArg Asker.peeked hr), fun he => ?_, h.begun, h.waiting⟩
    rw [Asker.peeked.injEq, hr] at he
    cases he
  | setBlocking =>
    dsimp only [socket] at hs
    split at hs
    · cases hs
      exact ⟨fun he => (by cases he), fun he => (by cases he), h.begun, h.waiting⟩
    · rename_i hasker
      exact absurd hasker h.found
    · cases hs

theorem Healthy.step (h : Healthy s) (hp : Placed s) (hg : Spared cap s a)
    (hs : (socket cap).step s a = some t) :
    Healthy t := by
  cases a with
  | send event =>
    cases hs
    -- a new line goes behind all others
    rw [Socket.send, if_neg h.writes]
    refine ⟨h.writes, h.unshut, ?_⟩
    show s.taken ++ s.buffer ++ s.writer.rest ++ (s.queue ++ [_]).flatten =
        (s.queued ++ [_]).flatten
    rw [List.flatten_concat, List.flatten_concat, ← List.append_assoc, h.lines]
  | next =>
    dsimp only [socket] at hs
    split at hs
    · rename_i line queue hwriter hqueue
      cases hs
      have hlines := h.lines
      rw [hwriter, hqueue, List.flatten_cons] at hlines
      refine ⟨fun he => (by cases he), h.unshut, ?_⟩
      rw [← hlines]
      show s.taken ++ s.buffer ++ line ++ queue.flatten = s.taken ++ s.buffer ++ [] ++
          (line ++ queue.flatten)
      rw [List.append_nil, List.append_assoc _ line]
    · cases hs
  | write n =>
    dsimp only [socket] at hs
    split at hs
    · rename_i rest hwriter
      split at hs
      · obtain ⟨-, ⟨⟩⟩ := Option.ite_none_right_eq_some.mp hs
        exact h.put (by rw [hwriter]; rfl) n fun r => by
          split <;> exact ⟨rfl, fun he => by cases he⟩
      -- the writer would fail here; the condition excludes it
      · rename_i hfull
        split at hs
        · rename_i hflag
          exact absurd (hg hflag) hfull
        · cases hs
          refine ⟨fun he => (by cases he), h.unshut, ?_⟩
          have hlines := h.lines
          rwa [hwriter] at hlines
    · cases hs
  | copy n =>
    dsimp only [socket] at hs
    split at hs
    · rename_i rest hwriter
      obtain ⟨-, ⟨⟩⟩ := Option.ite_none_right_eq_some.mp hs
      exact h.put (by rw [hwriter]; rfl) n fun r => ⟨rfl, fun he => by cases he⟩
    · cases hs
  | drain n =>
    obtain ⟨-, ⟨⟩⟩ := Option.ite_none_right_eq_some.mp hs
    refine ⟨h.writes, h.unshut, ?_⟩
    show s.taken ++ s.buffer.take n ++ s.buffer.drop n ++ s.writer.rest ++ s.queue.flatten =
        s.queued.flatten
    -- what the client takes leaves the buffer at its front
    rw [List.append_assoc s.taken, List.take_append_drop, h.lines]
  | ask | answered | setNonblocking ok | peek r =>
    obtain ⟨-, ⟨⟩⟩ := Option.ite_none_right_eq_some.mp hs
    exact ⟨h.writes, h.unshut, h.lines⟩
  | setBlocking =>
    dsimp only [socket] at hs
    split at hs
    · cases hs
      exact ⟨h.writes, h.unshut, h.lines⟩
    · rename_i hasker
      exact absurd hasker hp.found
    · cases hs

/-- **Where the connection is lost.**  From a healthy state, a step of a client that stays leads to
    a healthy one exactly when it does not call `write` into a full buffer with the flag set. -/
theorem healthy_iff (h : Healthy s) (hp : Placed s) (hg : Stays a)
    (hs : (socket cap).step s a = some t) :
    Healthy t ↔ Spared cap s a := by
  refine ⟨fun ht => ?_, fun hspared => h.step hp hspared hs⟩
  cases a with
  | write n =>
    intro hflag
    by_contra hfull
    dsimp only [socket] at hs
    split at hs
    · rw [if_neg hfull, if_pos hflag] at hs
      cases hs
      exact ht.writes rfl
    · cases hs
  | _ => exact hg

/-! ## A line that is begun can be finished -/

/-- Into an empty buffer the writer puts what fits. -/
theorem advance (hcap : 0 < cap) (hbuffer : s.buffer = []) {rest : Bytes} (hrest : rest ≠ [])
    (hw : s.writer = .ready rest ∨ s.writer = .writing rest) :
    ∃ a next, (∃ n, a = .write n ∨ a = .copy n) ∧ (∀ r, (next r).rest = r ∧ next r ≠ .failed) ∧
    Spared cap s a ∧
      (socket cap).step s a = some (s.put (min rest.length cap) rest next) := by
  have hpos := List.length_pos_iff.mpr hrest
  have hfits : 0 < min rest.length cap ∧ min rest.length cap ≤ rest.length ∧
      s.buffer.length + min rest.length cap ≤ cap := by
    rw [hbuffer, List.length_nil]
    omega
  have hroom : s.buffer.length < cap := by
    rw [hbuffer]
    exact hcap
  rcases hw with hw | hw
  · refine ⟨.write (min rest.length cap), if s.nonblocking then .ready else .writing, ⟨_, .inl rfl⟩,
      fun r => ?_, fun _ => hroom, ?_⟩
    · split <;> exact ⟨rfl, fun he => by cases he⟩
    · dsimp only [socket]
      rw [hw]
      dsimp only
      rw [if_pos hroom, if_pos hfits]
  · refine ⟨.copy (min rest.length cap), .writing, ⟨_, .inr rfl⟩,
      fun r => ⟨rfl, fun he => by cases he⟩, trivial, ?_⟩
    dsimp only [socket]
    rw [hw]
    exact if_pos hfits

/-- The client makes room and the writer goes on, until the line is in the send buffer. -/
theorem finishes (hcap : 0 < cap) (h : Placed s) (hw : s.writer ≠ .failed) :
    ∃ t, (socket cap).Reach (Spared cap) s t ∧ t.writer = .idle ∧ t.queue = s.queue ∧
    t.queued = s.queued := by
  induction hn : s.writer.rest.length using Nat.strong_induction_on generalizing s with
  | _ n ih =>
    subst hn
    by_cases hidle : s.writer = .idle
    · exact ⟨s, .refl, hidle, rfl, rfl⟩
    · obtain ⟨rest, hrest, hplace⟩ :
          ∃ rest, rest ≠ [] ∧ (s.writer = .ready rest ∨ s.writer = .writing rest) := by
        have hbegun := (h.begun.resolve_left hidle).resolve_left hw
        cases hwriter : s.writer with
        | idle => exact absurd hwriter hidle
        | failed => exact absurd hwriter hw
        | ready rest | writing rest =>
          rw [hwriter] at hbegun
          exact ⟨rest, hbegun, by simp⟩
      have hlen : s.writer.rest.length = rest.length := by
        rcases hplace with he | he <;> rw [he] <;> rfl
      -- the client takes everything, and then there is room
      obtain ⟨u, hdrain, hbuffer, hwriter, hqueue, hqueued⟩ :
          ∃ u, (socket cap).step s (.drain s.buffer.length) = some u ∧
          u.buffer = [] ∧ u.writer = s.writer ∧ u.queue = s.queue ∧ u.queued = s.queued :=
        ⟨_, if_pos (Nat.le_refl _), List.drop_length, rfl, rfl, rfl⟩
      have hu : Placed u := h.step (a := .drain s.buffer.length) trivial hdrain
      rw [← hwriter] at hplace
      obtain ⟨a, next, -, hnext, hspared, hput⟩ := advance hcap hbuffer hrest hplace
      have hreach : (socket cap).Reach (Spared cap) s (u.put (min rest.length cap) rest next) :=
        (Machine.Reach.refl.step (a := .drain s.buffer.length) trivial hdrain).step hspared hput
      have hshorter :
          (u.put (min rest.length cap) rest next).writer.rest.length < s.writer.rest.length := by
        have hpos := List.length_pos_iff.mpr hrest
        rw [rest_put u _ rest fun r => (hnext r).1, List.length_drop, hlen]
        omega
      have hgoes : (u.put (min rest.length cap) rest next).writer ≠ .failed := by
        show (if rest.drop (min rest.length cap) = [] then Writer.idle else next _) ≠ .failed
        split
        · exact fun he => by cases he
        · exact (hnext _).2
      obtain ⟨t, ht, hdone, htq, htl⟩ := ih _ hshorter (hu.step hspared.stays hput) hgoes rfl
      exact ⟨t, hreach.trans ht, hdone, htq.trans hqueue, htl.trans hqueued⟩

/-! ## Runs -/

/-- What is kept along a run, from any state on. -/
theorem Healthy.reach (hh : Healthy s) (hp : Placed s) (h : (socket cap).Reach (Spared cap) s t) :
    Healthy t ∧ Placed t :=
  h.inv (I := fun s => Healthy s ∧ Placed s) ⟨hh, hp⟩ fun _ _ _ hi hg hs =>
    ⟨hi.1.step hi.2 hg hs, hi.2.step hg.stays hs⟩

/-- In every run of a client that stays, in which no `write` is called into a full buffer while the
    probe holds the flag: no write fails, the connection stays open, every line is in its place in
    order, and the line that has been begun can be brought into the send buffer.  And the first step
    of another kind fails. -/
theorem probe_spares (hcap : 0 < cap) (h : (socket cap).Reach (Spared cap) .init s) :
    Healthy s ∧ (s.nonblocking = true → s.asker = .probing ∨ s.asker = .peeked false) ∧
      (∃ t, (socket cap).Reach (Spared cap) s t ∧ t.writer = .idle ∧ t.queue = s.queue ∧
        t.queued = s.queued) ∧
      ∀ a t, Stays a → (socket cap).step s a = some t → (Healthy t ↔ Spared cap s a) := by
  obtain ⟨hh, hp⟩ := healthy_init.reach placed_init h
  exact ⟨hh, hp.flag, finishes hcap hp hh.writes, fun a t hg hs => healthy_iff hh hp hg hs⟩

/-- An event is written while the probe holds the flag; the client takes it. -/
theorem event_written_during_probe : ∃ s :
    Socket, s.taken = bytes "jog\n" ∧ s.asker = .waiting ∧ Healthy s := by
  obtain ⟨s, hreach, hs⟩ := Machine.Reach.of_run_any (M := socket 4) (G := Spared 4) (s := .init)
    (p := fun s => decide (s.taken = bytes "jog\n" ∧ s.asker = .waiting))
    [.ask, .setNonblocking true, .send (bytes "jog"), .next, .write 3, .peek .wouldBlock, .write 1,
      .setBlocking, .drain 4]
    (by decide)
  obtain ⟨htaken, hasker⟩ := of_decide_eq_true hs
  exact ⟨s, htaken, hasker, (probe_spares (by decide) hreach).1⟩

/-- A client that reads slowly: an event finds the send buffer full during a probe, and the
    connection is shut down. -/
theorem probe_costs_the_connection :
    ¬ ∀ (cap : Nat) (s : Socket), 0 < cap → (socket cap).Reach (fun _ a => Stays a) .init s →
    Healthy s := by
  intro hall
  obtain ⟨s, hreach, hs⟩ :=
    Machine.Reach.of_run_any (M := socket 4) (G := fun _ a => Stays a) (s := .init)
    (p := fun s => decide (s.shut = true))
    [.ask, .send (bytes "jog"), .next, .write 4, .send (bytes "key"), .next, .setNonblocking true,
      .write 1] (by decide)
  have hshut := of_decide_eq_true hs
  rw [(hall 4 s (by decide) hreach).unshut] at hshut
  cases hshut

end CdjEmu.Control
