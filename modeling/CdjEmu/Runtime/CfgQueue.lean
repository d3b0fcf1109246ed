/-
  ACCEPTED CFG COMMANDS — kept in the queue until they are written, or dropped by a line of the
  guest.

  A command that `send_line` accepts is written at once or queued, and a write that fails queues it
  again. The queue empties in one place only: the first line of the guest on a connection takes all
  of it.  What it finds no writer for is dropped, and so is what follows the first write that fails.

  The order is safe in every run (`Ordered`): once the guest is heard and the writer is there the
  queue is empty, so a command written at once never overtakes a queued one, and the tags on a
  connection go up.

  1. **Program** — `Runtime/CfgClient` has the client with its connections and its reader; tags
     number the accepted commands and are read by no step.

  2. **Specification** — every accepted command is in the queue or stands in full on some
     connection, and each connection holds its commands in the order in which they were accepted.  A
     part of a command that a failed write has left does not count.

  3. **The crux (`Ordered`)** — what a connection may still get is behind what it has: the queue as
     a whole, or, where it is released, the commands of the moment.
-/
import CdjEmu.Runtime.CfgClient

namespace CdjEmu.Runtime

open Machine

/-! ## Tags -/

def tags (cmds : List Cmd) : List Nat := cmds.filterMap Cmd.tag

def sentTags (sent : List Sent) : List Nat := tags (sent.map Sent.cmd)

@[simp] theorem tags_append (a b : List Cmd) : tags (a ++ b) = tags a ++ tags b :=
  List.filterMap_append

@[simp] theorem sentTags_append (a b : List Sent) :
    sentTags (a ++ b) = sentTags a ++ sentTags b := by
  simp [sentTags]

@[simp] theorem Wrote.sent_cmd (w : Wrote) (cmd : Cmd) : (w.sent cmd).cmd = cmd := by
  cases w <;> rfl

/-- What is written of a queue is a start of it. -/
theorem writeQueue_isStart (luck : List Wrote) (queued : List Cmd) :
    (writeQueue luck queued).map Sent.cmd <+: queued := by
  fun_induction writeQueue luck queued with
  | case1 queued => simp [Function.comp_def, Wrote.sent]
  | case2 luck => exact List.nil_prefix
  | case3 luck cmd queued ih =>
    rw [List.map_cons, Wrote.sent_cmd]
    exact List.cons_prefix_cons.mpr ⟨rfl, ih⟩
  | case4 n luck cmd queued =>
    rw [List.map_singleton, Wrote.sent_cmd]
    exact List.cons_prefix_cons.mpr ⟨rfl, List.nil_prefix⟩

/-- With no failure all of the queue is written. -/
theorem writeQueue_all {luck : List Wrote} {queued : List Cmd}
    (h : ∀ w ∈ luck.take queued.length, w = .all) :
    writeQueue luck queued = queued.map Wrote.all.sent := by
  fun_induction writeQueue luck queued with
  | case1 queued => rfl
  | case2 luck => rfl
  | case3 luck cmd queued ih =>
    rw [List.map_cons, ih fun w hw => h w (by simp [hw])]
  | case4 n luck cmd queued => cases h (.short n) (by simp)

/-! ## Order -/

/-- The tags of the commands that a connection holds or can still get. -/
def Client.inLine (c : Client) (conn : Nat) : List Nat :=
  sentTags (c.wire conn) ++ if c.shared.writer = some conn then tags c.shared.pending else []

structure Client.Ordered (c : Client) : Prop where
  /-- Once the guest is heard and there is a writer, nothing is queued. -/
  empty : c.shared.guestReady = true → c.shared.writer ≠ none → c.shared.pending = []
  pending : (tags c.shared.pending).Pairwise (· < ·)
  wire : ∀ conn, (c.inLine conn).Pairwise (· < ·)
  pending_lt : ∀ n ∈ tags c.shared.pending, n < c.accepted.length
  wire_lt : ∀ conn, ∀ n ∈ sentTags (c.wire conn), n < c.accepted.length
  writer_lt : ∀ conn, c.shared.writer = some conn → conn < c.conns
  unused : ∀ conn, c.conns ≤ conn → c.wire conn = []

namespace Client.Ordered

variable {c : Client}

theorem init : Client.init.Ordered := by
  constructor <;> simp [Client.init, Shared.fresh, tags, sentTags, Client.inLine]

/-- The next tag is above all others. -/
theorem concat {l : List Nat} {n : Nat} (h : l.Pairwise (· < ·)) (hlt : ∀ m ∈ l, m < n) :
    (l ++ [n]).Pairwise (· < ·) := by
  rw [List.pairwise_append]
  refine ⟨h, List.pairwise_singleton .., fun a ha b hb => ?_⟩
  obtain rfl := List.mem_singleton.mp hb
  exact hlt a ha

theorem wire_pairwise (h : c.Ordered) (conn : Nat) : (sentTags (c.wire conn)).Pairwise (· < ·) :=
  (List.pairwise_append.mp (h.wire conn)).1

/-- What is written goes on a connection that exists. -/
theorem put_unused (h : c.Ordered) (sent : List Sent) (conn : Nat)
    (hle : (c.put c.shared.writer sent).conns ≤ conn) :
    (c.put c.shared.writer sent).wire conn = [] := by
  rw [Client.put_conns] at hle
  have hne : c.shared.writer ≠ some conn := by
    intro hw
    have := h.writer_lt conn hw
    omega
  simp [h.unused conn hle, hne]

/-- A section that leaves the queue alone and writes nothing. -/
theorem same {d : Client} (h : c.Ordered) (hq : c.shared.SameQueue d.shared)
    (hwire : d.wire = c.wire) (hconns : d.conns = c.conns) (hacc : d.accepted = c.accepted) :
    d.Ordered where
  empty := by
    rw [hq.guestReady, hq.writer, hq.pending]
    exact h.empty
  pending := by
    rw [hq.pending]
    exact h.pending
  wire conn := by
    rw [Client.inLine, hwire, hq.writer, hq.pending]
    exact h.wire conn
  pending_lt := by
    rw [hq.pending, hacc]
    exact h.pending_lt
  wire_lt := by
    rw [hwire, hacc]
    exact h.wire_lt
  writer_lt := by
    rw [hq.writer, hconns]
    exact h.writer_lt
  unused := by
    rw [hconns, hwire]
    exact h.unused

theorem sendLine (h : c.Ordered) (text : Chars) (w : Wrote) : (c.sendLine text w).Ordered := by
  -- the new command has the highest number of all, wherever it goes
  have hpending_lt : ∀ n ∈ tags (c.shared.pending ++ [⟨text, some c.accepted.length⟩]),
      n < c.accepted.length + 1 := by
    intro n hn
    rcases List.mem_append.mp (tags_append _ _ ▸ hn) with hold | hnew
    · exact Nat.lt_succ_of_lt (h.pending_lt n hold)
    · obtain rfl : n = c.accepted.length := by simpa [tags] using hnew
      exact Nat.lt_succ_self _
  have hpending :
      (tags (c.shared.pending ++ [⟨text, some c.accepted.length⟩])).Pairwise (· < ·) := by
    rw [tags_append]
    exact concat h.pending h.pending_lt
  have hwire_lt : ∀ conn,
      ∀ n ∈ sentTags ((c.put c.shared.writer [w.sent ⟨text, some c.accepted.length⟩]).wire conn),
      n < c.accepted.length + 1 := by
    intro conn n hn
    rw [Client.put_wire, sentTags_append, List.mem_append] at hn
    rcases hn with hold | hnew
    · exact Nat.lt_succ_of_lt (h.wire_lt conn n hold)
    · split at hnew
      · obtain rfl : n = c.accepted.length := by simpa [sentTags, tags] using hnew
        exact Nat.lt_succ_self _
      · cases hnew
  -- a wire stays in order with the new number at its end
  have hput : ∀ conn,
      (sentTags ((c.put c.shared.writer [w.sent ⟨text, some c.accepted.length⟩]).wire
        conn)).Pairwise
      (· < ·) := by
    intro conn
    rw [Client.put_wire, sentTags_append]
    split
    · simpa [sentTags, tags] using concat (h.wire_pairwise conn) (h.wire_lt conn)
    · simpa [sentTags, tags] using h.wire_pairwise conn
  unfold Client.sendLine
  rcases c.shared.sendLine_cases w ⟨text, some c.accepted.length⟩ with
    ⟨hready, hw, -, hs⟩ | ⟨-, -, -, hs⟩ | ⟨hnot, hs⟩
  · -- written at once: nothing is queued
    rw [hs]
    have hnil := h.empty hready hw
    exact {
      empty := fun _ _ => hnil
      pending := h.pending
      wire := fun conn => by
        simp only [Client.inLine, hnil]
        simpa [tags] using hput conn
      pending_lt := by simp [hnil, tags]
      wire_lt := by simpa using hwire_lt
      writer_lt := by simpa using h.writer_lt
      unused := h.put_unused _ }
  · -- the write failed: the writer is gone and the command is queued
    rw [hs]
    exact {
      empty := fun hr => by cases hr
      pending := hpending
      wire := fun conn => by
        rw [Client.inLine, if_neg (by simp), List.append_nil]
        exact hput conn
      pending_lt := by simpa using hpending_lt
      wire_lt := by simpa using hwire_lt
      writer_lt := fun conn hw => by cases hw
      unused := h.put_unused _ }
  · -- queued
    rw [hs]
    have hwire : ∀ conn, (c.put c.shared.writer []).wire conn = c.wire conn := by simp
    exact {
      empty := fun hr hw => absurd ⟨hr, hw⟩ hnot
      pending := hpending
      -- it is behind whatever waits for the same connection
      wire := fun conn => by
        have hold := h.wire conn
        simp only [Client.inLine, hwire] at hold ⊢
        split
        · rename_i hw
          rw [if_pos hw] at hold
          rw [tags_append, ← List.append_assoc]
          refine concat hold fun m hm => ?_
          rcases List.mem_append.mp hm with hm | hm
          · exact h.wire_lt conn m hm
          · exact h.pending_lt m hm
        · rename_i hw
          rwa [if_neg hw] at hold
      pending_lt := by simpa using hpending_lt
      wire_lt := fun conn n hn => by
        rw [hwire] at hn
        simpa using Nat.lt_succ_of_lt (h.wire_lt conn n hn)
      writer_lt := by simpa using h.writer_lt
      unused := h.put_unused _ }

theorem lineArrived (h : c.Ordered) (conn : Nat) (text : Chars) (luck : List Wrote) :
    (c.lineArrived conn text luck).Ordered := by
  unfold Client.lineArrived
  split
  · exact h.same ⟨rfl, rfl, rfl⟩ rfl rfl rfl
  -- no writer, nothing written; a write that fails; a write that succeeds
  · rcases c.shared.flushPending_cases luck with ⟨-, hs⟩ | ⟨-, hw, hs⟩ | ⟨-, -, hs⟩
    · rw [hs]
      exact h.same ⟨rfl, rfl, rfl⟩ (by funext n; simp) (by simp) (by simp)
    · rw [hs, hw]
      exact {
        empty := fun _ _ => rfl
        pending := List.Pairwise.nil
        wire := fun conn => by simpa [Client.inLine, hw, tags] using h.wire_pairwise conn
        pending_lt := fun n hn => by cases hn
        wire_lt := by simpa using h.wire_lt
        writer_lt := fun conn hc => by cases hc
        unused := by simpa using h.unused }
    · rw [hs]
      -- what is written has left the queue, in the queue's order
      have hsub : (sentTags (writeQueue luck c.shared.pending)).Sublist (tags c.shared.pending) :=
        ((writeQueue_isStart luck c.shared.pending).sublist).filterMap _
      have hline : ∀ conn,
          (sentTags ((c.put c.shared.writer (writeQueue luck c.shared.pending)).wire conn)).Sublist
          (c.inLine conn) := by
        intro conn
        rw [Client.put_wire, sentTags_append, Client.inLine]
        refine List.Sublist.append_left ?_ _
        split
        · exact hsub
        · exact List.Sublist.refl _
      exact {
        empty := fun _ _ => rfl
        pending := List.Pairwise.nil
        wire := fun conn => by
          have hall := (h.wire conn).sublist (hline conn)
          simpa [Client.inLine, tags] using hall
        pending_lt := fun n hn => by cases hn
        wire_lt := fun conn n hn => by
          have hmem := (hline conn).subset hn
          rw [Client.inLine, List.mem_append] at hmem
          rw [Client.put_accepted]
          rcases hmem with hold | hnew
          · exact h.wire_lt conn n hold
          · split at hnew
            · exact h.pending_lt n hnew
            · cases hnew
        writer_lt := by simpa using h.writer_lt
        unused := h.put_unused _ }

theorem connect (h : c.Ordered) (cloned : Bool) : Client.Ordered { c with
    shared := if cloned then c.shared.connected c.conns else c.shared
    reader := .reading c.conns
    conns := c.conns + 1 } := by
  have hwriter_lt : ∀ conn, c.shared.writer = some conn → conn < c.conns + 1 :=
    fun conn hw => Nat.lt_succ_of_lt (h.writer_lt conn hw)
  have hunused : ∀ conn, c.conns + 1 ≤ conn → c.wire conn = [] := fun conn hle =>
    h.unused conn (by omega)
  cases cloned with
  | false => exact ⟨h.empty, h.pending, h.wire, h.pending_lt, h.wire_lt, hwriter_lt, hunused⟩
  | true =>
    -- `status` has no number
    have htags : tags (c.shared.connected c.conns).pending = tags c.shared.pending := by
      unfold Shared.connected
      dsimp only
      split
      · rfl
      · simp [tags]
    exact {
      empty := fun hr => by cases hr
      pending := htags ▸ h.pending
      wire := fun conn => by
        show (sentTags (c.wire conn) ++ if some c.conns = some conn then tags
            (c.shared.connected c.conns).pending
          else []).Pairwise (· < ·)
        -- the queue's turn comes on the new connection, which has carried nothing yet
        rw [htags]
        split
        · rename_i heq
          cases heq
          simpa [h.unused c.conns (le_refl _), sentTags, tags] using h.pending
        · simpa using h.wire_pairwise conn
      pending_lt := htags ▸ h.pending_lt
      wire_lt := h.wire_lt
      writer_lt := fun conn hw => by
        cases hw
        exact Nat.lt_succ_self _
      unused := hunused }

theorem disconnect (h : c.Ordered) :
    Client.Ordered { c with shared := c.shared.disconnected, reader := .idle } where
  empty hr := by cases hr
  pending := h.pending
  wire conn := by simpa [Client.inLine, Shared.disconnected] using h.wire_pairwise conn
  pending_lt := h.pending_lt
  wire_lt := h.wire_lt
  writer_lt conn hw := by cases hw
  unused := h.unused

theorem ping (h : c.Ordered) (w : Wrote) : (c.ping w).Ordered := by
  unfold Client.ping
  split
  · exact h
  · have htags : ∀ conn,
        sentTags ((c.put c.shared.writer [w.sent ⟨chars "ping\n", none⟩]).wire conn) =
        sentTags (c.wire conn) := by
      intro conn
      rw [Client.put_wire, sentTags_append]
      split <;> simp [sentTags, tags]
    exact {
      empty := by simpa using h.empty
      pending := by simpa using h.pending
      wire := fun conn => by
        rw [Client.inLine, htags, Client.put_shared]
        exact h.wire conn
      pending_lt := by simpa using h.pending_lt
      wire_lt := fun conn => by
        rw [htags, Client.put_accepted]
        exact h.wire_lt conn
      writer_lt := by simpa using h.writer_lt
      unused := h.put_unused _ }

theorem step {d : Client} {a : Client.Event} (h : c.Ordered) (hs : client.step c a = some d) :
    d.Ordered := by
  -- the queue's own steps are above; the others leave it and the wires as they are
  cases a with
  | command cmd w =>
    simp only [client] at hs
    split at hs
    · cases hs
      exact h.sendLine _ w
    · cases hs
      exact h
  | ask name =>
    simp only [client] at hs
    split at hs
    · cases hs
      exact h.same ⟨rfl, rfl, rfl⟩ rfl rfl rfl
    · cases hs
      exact h
  | send name w =>
    simp only [client] at hs
    split at hs
    · cases hs
      have hasked : Client.Ordered { c with asking := c.asking.erase name } :=
        h.same ⟨rfl, rfl, rfl⟩ rfl rfl rfl
      exact hasked.sendLine _ w
    · cases hs
  | connect cloned =>
    simp only [client] at hs
    split at hs
    · cases hs
      exact h.connect cloned
    · cases hs
  | line text luck =>
    simp only [client] at hs
    split at hs
    · cases hs
      exact h.lineArrived _ text luck
    · cases hs
  | handle =>
    simp only [client] at hs
    split at hs
    · cases hs
      refine h.same ?_ rfl rfl rfl
      -- a handler does not touch the queue
      unfold Client.handle
      dsimp only
      split
      · exact ⟨rfl, rfl, rfl⟩
      · exact c.shared.sameQueue_dispatch _
    · cases hs
  | disconnect =>
    simp only [client] at hs
    split at hs
    · cases hs
      exact h.disconnect
    · cases hs
  | ping w =>
    cases hs
    exact h.ping w
  | newBoot =>
    cases hs
    exact h.same ⟨rfl, rfl, rfl⟩ rfl rfl rfl

end Client.Ordered

/-- Commands never overtake each other on a connection. -/
theorem ordered_of_reach {G : Client → Client.Event → Prop} {c : Client}
    (h : client.Reach G Client.init c) :
    c.Ordered :=
  h.inv .init fun _ _ _ ho _ hs => ho.step hs

/-! ## Nothing accepted is lost -/

/-- The command is queued, or some connection holds all of it. -/
def Client.Has (c : Client) (cmd : Cmd) : Prop :=
  cmd ∈ c.shared.pending ∨ ∃ conn, ∃ sent ∈ c.wire conn, sent.cmd = cmd ∧ sent.whole = true

/-- Every command that was accepted is queued or written in full. -/
def Client.Kept (c : Client) : Prop :=
  ∀ n text, c.accepted[n]? = some text → c.Has ⟨text, some n⟩

/-- The queue that the guest's line releases is written in full, or holds no caller's command. -/
def Shared.Released (s : Shared) (luck : List Wrote) : Prop :=
  s.guestReady = true ∨ (∀ cmd ∈ s.pending, cmd.tag = none) ∨
    (s.writer ≠ none ∧ ∀ w ∈ luck.take s.pending.length, w = .all)

/-- A line of the guest that finds commands of callers queued finds a writer, and each queued line
    is written without an error. -/
def QueueWritten (c : Client) : Client.Event → Prop
  | .line text luck => Chars.trim text ≠ [] → c.shared.Released luck
  | _ => True

namespace Client.Kept

variable {c d : Client}

theorem has_mono {cmd : Cmd} (h : c.Has cmd)
    (hpending : ∀ x ∈ c.shared.pending, x ∈ d.shared.pending)
    (hwire : ∀ conn, ∀ x ∈ c.wire conn, x ∈ d.wire conn) : d.Has cmd := by
  rcases h with hq | ⟨conn, sent, hmem, hsent⟩
  · exact .inl (hpending _ hq)
  · exact .inr ⟨conn, sent, hwire conn sent hmem, hsent⟩

theorem mono (h : c.Kept) (hpending : ∀ x ∈ c.shared.pending, x ∈ d.shared.pending)
    (hwire : ∀ conn, ∀ x ∈ c.wire conn, x ∈ d.wire conn) (hacc : d.accepted = c.accepted) :
    d.Kept := by
  intro n text hn
  rw [hacc] at hn
  exact has_mono (h n text hn) hpending hwire

theorem put_mono (sent : List Sent) (conn : Nat) (x : Sent) (hx : x ∈ c.wire conn) :
    x ∈ (c.put c.shared.writer sent).wire conn := by
  rw [Client.put_wire]
  exact List.mem_append_left _ hx

theorem sendLine (h : c.Kept) (text : Chars) (w : Wrote) : (c.sendLine text w).Kept := by
  have hwhole : (Wrote.all.sent ⟨text, some c.accepted.length⟩).whole = true := by
    simp [Wrote.sent, Sent.whole]
  -- the command itself: queued, or written whole
  have hnew : (c.sendLine text w).Has ⟨text, some c.accepted.length⟩ := by
    unfold Client.sendLine Client.Has
    rcases c.shared.sendLine_cases w
        ⟨text, some c.accepted.length⟩ with ⟨-, hw, rfl, hs⟩ | ⟨-, -, -, hs⟩ | ⟨-, hs⟩
    · obtain ⟨conn, hconn⟩ := Option.ne_none_iff_exists'.mp hw
      refine .inr ⟨conn, Wrote.all.sent ⟨text, some c.accepted.length⟩, ?_, rfl, hwhole⟩
      rw [hs]
      simp [hconn]
    · exact .inl (by rw [hs]; simp)
    · exact .inl (by rw [hs]; simp)
  have hpending : ∀ x ∈ c.shared.pending, x ∈ (c.sendLine text w).shared.pending := by
    intro x hx
    unfold Client.sendLine
    rcases c.shared.sendLine_cases w
        ⟨text, some c.accepted.length⟩ with ⟨-, -, -, hs⟩ | ⟨-, -, -, hs⟩ | ⟨-, hs⟩
    · rw [hs]
      exact hx
    · rw [hs]
      exact List.mem_append_left _ hx
    · rw [hs]
      exact List.mem_append_left _ hx
  intro n t hn
  have hacc : (c.accepted ++ [text])[n]? = some t := hn
  rw [List.getElem?_append] at hacc
  split at hacc
  · exact has_mono (h n t hacc) hpending (put_mono _)
  · rename_i hge
    rw [List.getElem?_singleton] at hacc
    split at hacc
    · rename_i hz
      obtain rfl : n = c.accepted.length := by omega
      cases hacc
      exact hnew
    · cases hacc

theorem lineArrived (h : c.Kept) (conn : Nat) (text : Chars) (luck : List Wrote)
    (hg : Chars.trim text ≠ [] → c.shared.Released luck) : (c.lineArrived conn text luck).Kept := by
  unfold Client.lineArrived
  split
  · exact h.mono (fun x hx => hx) (fun _ x hx => hx) rfl
  · rename_i htext
    intro n t hn
    rw [Client.put_accepted] at hn
    rcases h n t hn with hqueued | ⟨conn', sent, hmem, hsent⟩
    · rcases c.shared.flushPending_cases luck with ⟨-, hs⟩ | ⟨hready, hw, hs⟩ | ⟨hready, hw, hs⟩
      · rw [hs]
        exact .inl hqueued
      · rcases hg htext with hr | hnone | ⟨hwriter, -⟩
        · cases hready.symm.trans hr
        · cases hnone _ hqueued
        · exact absurd hw hwriter
      · rcases hg htext with hr | hnone | ⟨-, hall⟩
        · cases hready.symm.trans hr
        · cases hnone _ hqueued
        · obtain ⟨writer, hwriter⟩ := Option.ne_none_iff_exists'.mp hw
          refine .inr ⟨writer, Wrote.all.sent ⟨t, some n⟩, ?_,
            rfl, by simp [Wrote.sent, Sent.whole]⟩
          rw [hs, writeQueue_all hall, hwriter, Client.put_wire, if_pos rfl]
          exact List.mem_append_right _ (List.mem_map_of_mem hqueued)
    · exact .inr ⟨conn', sent, put_mono _ conn' sent hmem, hsent⟩

theorem step {a : Client.Event} (h : c.Kept) (hg : QueueWritten c a)
    (hs : client.step c a = some d) : d.Kept := by
  -- a command accepted is on a wire or queued, whatever is done next
  cases a with
  | command cmd w =>
    simp only [client] at hs
    split at hs
    · cases hs
      exact h.sendLine _ w
    · cases hs
      exact h
  | ask name =>
    simp only [client] at hs
    split at hs
    · cases hs
      exact h.mono (fun x hx => hx) (fun _ x hx => hx) rfl
    · cases hs
      exact h
  | send name w =>
    simp only [client] at hs
    split at hs
    · cases hs
      have hasked : Client.Kept { c with asking := c.asking.erase name } :=
        h.mono (fun x hx => hx) (fun _ x hx => hx) rfl
      exact hasked.sendLine _ w
    · cases hs
  | connect cloned =>
    simp only [client] at hs
    split at hs
    · cases hs
      refine h.mono (fun x hx => ?_) (fun _ x hx => hx) rfl
      cases cloned with
      | false => exact hx
      | true =>
        -- a new connection puts `status` behind the queue
        show x ∈ if _ then c.shared.pending else c.shared.pending ++ [_]
        split
        · exact hx
        · exact List.mem_append_left _ hx
    · cases hs
  | line text luck =>
    simp only [client] at hs
    split at hs
    · cases hs
      exact h.lineArrived _ text luck hg
    · cases hs
  | handle =>
    simp only [client] at hs
    split at hs
    · cases hs
      refine h.mono (fun x hx => ?_) (fun _ x hx => hx) rfl
      show x ∈ (if _ then c.shared else c.shared.dispatch _).pending
      split
      · exact hx
      · rw [(c.shared.sameQueue_dispatch _).pending]
        exact hx
    · cases hs
  | disconnect =>
    simp only [client] at hs
    split at hs
    · cases hs
      exact h.mono (fun x hx => hx) (fun _ x hx => hx) rfl
    · cases hs
  | ping w =>
    cases hs
    unfold Client.ping
    -- a ping adds to a wire at most
    split
    · exact h
    · exact h.mono (fun x hx => by simpa using hx) (put_mono _) (by simp)
  | newBoot =>
    cases hs
    exact h.mono (fun x hx => hx) (fun _ x hx => hx) rfl

end Client.Kept

/-- In every run in which each line of the guest that releases queued commands of callers finds a
    writer and writes them without an error: every command that `send_line` accepted is still queued
    or was written in full on some connection, and each connection holds its commands in the order
    they were accepted. -/
theorem accepted_commands_kept {c : Client} (h : client.Reach QueueWritten Client.init c) :
    c.Kept ∧ ∀ conn, (sentTags (c.wire conn)).Pairwise (· < ·) := by
  constructor
  · exact h.inv (fun n text hn => (by cases hn)) fun _ _ _ hk hg hs => hk.step hg hs
  · exact (ordered_of_reach h).wire_pairwise

/-- A write fails, so the command is queued and the writer dropped; the guest's next line, already
    on its way, finds the command queued and no writer. -/
theorem command_lost_without_writer : ¬ ∀ c, client.Reach Free Client.init c →
    c.Kept ∧ ∀ conn, (sentTags (c.wire conn)).Pairwise (· < ·) := by
  intro hall
  obtain ⟨c, hreach, hlost⟩ := Reach.of_run_any (M := client) (G := Free) (s := Client.init)
    (p := fun c => c.accepted[0]? = some (chars "usb attach\n") && c.shared.pending.isEmpty &&
      c.conns == 1 &&
      (c.wire 0).all fun sent => sent.cmd.tag.isNone || !sent.whole)
    [.connect true, .line (chars "pong") [], .handle, .command .usbAttach (.short 0),
      .line (chars "pong") []]
    (by decide)
  simp only [Bool.and_eq_true, decide_eq_true_eq, beq_iff_eq, List.isEmpty_iff,
    List.all_eq_true] at hlost
  obtain ⟨⟨⟨hacc, hempty⟩, hconns⟩, hwire⟩ := hlost
  rcases (hall c hreach).1 0 _ hacc with hqueued | ⟨conn, sent, hmem, hcmd, hwhole⟩
  · rw [hempty] at hqueued
    cases hqueued
  · cases conn with
    | zero =>
      have hshort := hwire sent hmem
      rw [hcmd, hwhole] at hshort
      cases hshort
    | succ conn =>
      rw [(ordered_of_reach hreach).unused (conn + 1) (by omega)] at hmem
      cases hmem

instance (s : Shared) (luck : List Wrote) : Decidable (s.Released luck) :=
  inferInstanceAs (Decidable (_ ∨ _ ∨ _))

instance (c : Client) (a : Client.Event) : Decidable (QueueWritten c a) :=
  match a with
  | .line text luck => inferInstanceAs (Decidable (Chars.trim text ≠ [] → c.shared.Released luck))
  | .command .. | .ask _ | .send .. | .connect _ | .handle | .disconnect | .ping _ | .newBoot =>
      .isTrue trivial

/-- A command queued before the first line, and one sent after it: both are on the connection. -/
theorem two_commands_kept : ∃ c, client.Reach QueueWritten Client.init c ∧ c.accepted.length = 2 ∧
    c.Kept := by
  obtain ⟨c, hreach, hlen⟩ := Reach.of_run_any (M := client) (G := QueueWritten) (s := Client.init)
    (p := fun c => c.accepted.length == 2)
    [.connect true, .command .usbAttach .all, .line (chars "pong") [.all, .all], .handle,
      .command (.pcLink true) .all] (by decide)
  exact ⟨c, hreach, by simpa using hlen, (accepted_commands_kept hreach).1⟩

end CdjEmu.Runtime
