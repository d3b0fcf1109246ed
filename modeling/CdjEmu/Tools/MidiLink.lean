/-
  FROM THE GUEST TO MIDI APPS — the outbox, the link to the driver, and the driver's reads.

  The guest's octets come in entries of any length.  The outbox holds 1024 of them and drops the
  oldest when it is full.  The writer thread takes one after another and writes it on the link of
  the attached driver, or nowhere; the driver reads its link in pieces and hands on what its parser
  makes of them.  A link that ends loses what has not been read, and the slot starts afresh on the
  next one.  An entry that was dropped leaves a gap in the middle of a link.

  1. `Own` — what an octet completes on its link it completes in the guest's stream.  An entry keeps
     it if it joins on (`own_tag`): the parser is where the guest's stream is, or holds no status,
     or meets a status before any data.
  2. `Sound` — the host's side and the driver's side over whole runs (`sound_step`).
  3. `faithful_of_kept` — every message handed on is the guest's own, in the guest's order.

  Octets are numbered in the guest's stream.  `guest` and `told`, the messages handed on with their
  last octets' numbers, are read by no step.

  The result is about faithfulness, not about delivery: messages may be lost, with the octets that
  were dropped or with a link, but none is made up, none is doubled and none is out of order.  The
  condition is on the entries that are written, in terms of the guest's own stream: each joins on.
-/
import CdjEmu.Lib.Machine
import CdjEmu.Tools.MidiDriver

namespace CdjEmu.MidiLink

open Machine Midi MidiDriver Function

/-! ## The program -/

/-- The number of entries held for a slow driver. -/
def OUTBOX_CAP : Nat := 1024

/-- An octet and its number. -/
abbrev Tagged := Nat × UInt8

/-- The octets with their numbers. -/
def tag : Nat → Bytes → List Tagged
  | _, [] => []
  | i, b :: bs => (i, b) :: tag (i + 1) bs

/-- The octets without their numbers. -/
def octets (ts : List Tagged) : Bytes := ts.map Prod.snd

/-- What one call of `publish_from_guest` queues. -/
structure Entry where
  start : Nat
  octets : Bytes

/-- The messages that a read completes. -/
def notes : Bytes → List Tagged → List (Nat × Event)
  | _, [] => []
  | past, (i, b) :: ts => ((eventsAt past b).filter Event.whole).map (Prod.mk i) ++ notes
      (past ++ [b]) ts

/-- What the guest wrote, the outbox, what the writer holds, and the client. -/
structure State where
  guest : Bytes
  /-- The outbox, the oldest first. -/
  queue : List Entry
  /-- What the writer thread has taken. -/
  holding : Option Entry
  /-- The link that the writer writes on. -/
  client : Option Nat
  /-- The accept thread is in `read_loop`. -/
  serving : Bool
  /-- How many links the driver has dialed, and how many the accept thread has taken. -/
  dialed : Nat
  accepted : Nat
  /-- What has been written on each link. -/
  wire : Nat → List Tagged
  /-- The link of the driver's slot, and how much of it has been read. -/
  driver : Option Nat
  pos : Nat
  slot : Slot
  received : List Bytes
  told : List (Nat × Event)

/-- What may happen: the guest writes, the writer takes and writes, clients come and go. -/
inductive Action where
  | publish (bytes : Bytes)
  | pop
  /-- `fails n`: the write fails behind `n` octets. -/
  | write (fails : Option Nat)
  | attach (greeted : Bool)
  | detach
  | dial
  | close
  /-- `published`: the slot has its endpoint. -/
  | read (n : Nat) (published : Bool)

namespace State

/-- Nothing has been written. -/
def init : State where
  guest := []
  queue := []
  holding := none
  client := none
  serving := false
  dialed := 0
  accepted := 0
  wire := fun _ => []
  driver := none
  pos := 0
  slot := slotDetach ⟨0, #v[0, 0, 0], 0, 0, false⟩
  received := []
  told := []

/-- `Outbox::push`. -/
def push (s : State) (bytes : Bytes) : State :=
  { s with
    queue := (if OUTBOX_CAP ≤ s.queue.length then s.queue.drop 1 else s.queue) ++
      [⟨s.guest.length, bytes⟩]
    guest := s.guest ++ bytes }

/-- One turn of `write_loop`, with the entry `c`. -/
def write (s : State) (c : Entry) (fails : Option Nat) : State :=
  match s.client with
  | none => { s with holding := none }
  | some k =>
    match fails with
    | none => { s with holding := none, wire := update s.wire k (s.wire k ++ tag c.start c.octets) }
    | some n => { s with
        holding := none
        wire := update s.wire k (s.wire k ++ (tag c.start c.octets).take n)
        client := none }

/-- The driver reads `buf` on the link `d`. -/
def read (s : State) (d : Nat) (buf : List Tagged) (sl : Slot) (packets : List Bytes)
    (published : Bool) : State :=
  { s with
    slot := sl
    pos := s.pos + buf.length
    received := if published then s.received ++ packets else s.received
    told := if published then s.told ++ notes (octets ((s.wire d).take s.pos)) buf else s.told }

end State

/-- The outbox, the writer, the accept thread and the driver. -/
def machine (M : CoreMidi) : Machine State Action where
  step s
    | .publish bytes => if bytes = [] then some s else some (s.push bytes)
    | .pop =>
      match s.holding, s.queue with
      | none, c :: queue => some { s with holding := some c, queue := queue }
      | _, _ => none
    | .write fails => s.holding.map fun c => s.write c fails
    | .attach greeted =>
      if s.serving ∨ s.accepted = s.dialed then none
      else if greeted then
        some { s with client := some s.accepted, accepted := s.accepted + 1, serving := true }
      else some { s with accepted := s.accepted + 1 }
    | .detach => if s.serving then some { s with client := none, serving := false } else none
    | .dial => if s.driver.isSome then none else
        some { s with driver := some s.dialed, dialed := s.dialed + 1, pos := 0 }
    | .close => s.driver.map fun _ => { s with driver := none, slot := slotDetach s.slot }
    | .read n published =>
      s.driver.bind fun d =>
        let buf := ((s.wire d).drop s.pos).take n
        if buf = [] ∨ READ_CHUNK < n then none
        else
          (slotParse M PARSE_LIST_BYTES s.slot (octets buf)).map fun r =>
            s.read d buf r.1 r.2.packets published

/-- The entry that is written joins on to what its link holds. -/
def Joins (s : State) (k : Nat) (c : Entry) : Prop :=
  Seamless (modeOf (octets (s.wire k))) (modeOf (s.guest.take c.start)) c.octets

instance (s : State) (k : Nat) (c : Entry) : Decidable (Joins s k c) :=
  inferInstanceAs (Decidable (Seamless _ _ _))

/-- The condition on a step: an entry is written where it joins on. -/
def Kept (s : State) : Action → Prop
  | .write _ => ∀ c ∈ s.holding, ∀ k ∈ s.client, Joins s k c
  | _ => True

instance (s : State) (a : Action) : Decidable (Kept s a) := by
  unfold Kept
  split <;> infer_instance

/-! ## Tags -/

section Tags

variable {g past bs : Bytes} {ts us : List Tagged} {i n : Nat}

/-- The octets of two pieces. -/
theorem octets_append (ts us : List Tagged) : octets (ts ++ us) = octets ts ++ octets us :=
  List.map_append

/-- The numbers start where they are told to. -/
theorem mem_tag {t : Tagged} (h : t ∈ tag i bs) : i ≤ t.1 ∧ t.1 < i + bs.length := by
  induction bs generalizing i with
  | nil => cases h
  | cons b bs ih =>
    rw [List.length_cons]
    rcases List.mem_cons.mp h with rfl | h
    · exact ⟨Nat.le_refl i, by show i < _; omega⟩
    · have hrest := ih h
      omega

/-- In the guest's order. -/
def Ordered (ts : List Tagged) : Prop := ts.Pairwise fun t u => t.1 < u.1

theorem ordered_tag (i : Nat) (bs : Bytes) : Ordered (tag i bs) := by
  induction bs generalizing i with
  | nil => exact List.Pairwise.nil
  | cons b bs ih =>
    refine List.Pairwise.cons ?_ (ih (i + 1))
    intro t ht
    exact (mem_tag ht).1

/-! ## What octets complete -/

/-- Behind `past`, what each octet completes it completes in the guest's stream. -/
def Own (g : Bytes) : Bytes → List Tagged → Prop
  | _, [] => True
  | past, (i, b) :: ts =>
    (g[i]? = some b ∧ ∀ e ∈ eventsAt past b, e.whole = true → e ∈ eventsAt (g.take i) b) ∧
      Own g (past ++ [b]) ts

/-- A client has its own octets when both pieces are. -/
theorem own_append : Own g past (ts ++ us) ↔ Own g past ts ∧ Own g (past ++ octets ts) us := by
  induction ts generalizing past with
  | nil => simp [Own, octets]
  | cons t ts ih =>
    obtain ⟨i, b⟩ := t
    have hpast : past ++ [b] ++ octets ts = past ++ octets ((i, b) :: ts) := by simp [octets]
    rw [List.cons_append, Own, Own, ih, hpast]
    exact and_assoc.symm

/-- The front of what is its own is its own. -/
theorem own_take (h : Own g past ts) (n : Nat) : Own g past (ts.take n) := by
  rw [← List.take_append_drop n ts, own_append] at h
  exact h.1

/-- A number in the stream stays what it is. -/
theorem take_grow {b : UInt8} (h : g[i]? = some b) (bs : Bytes) :
    (g ++ bs)[i]? = some b ∧ (g ++ bs).take i = g.take i := by
  obtain ⟨hi, -⟩ := List.getElem?_eq_some_iff.mp h
  exact ⟨by rw [List.getElem?_append_left hi, h], List.take_append_of_le_length (Nat.le_of_lt hi)⟩

/-- And stays so when the guest writes on. -/
theorem own_grow (h : Own g past ts) (bs : Bytes) : Own (g ++ bs) past ts := by
  induction ts generalizing past with
  | nil => trivial
  | cons t ts ih =>
    obtain ⟨i, b⟩ := t
    obtain ⟨⟨hget, hevents⟩, hrest⟩ := h
    obtain ⟨hget', htake⟩ := take_grow hget bs
    refine ⟨⟨hget', ?_⟩, ih hrest⟩
    rw [htake]
    exact hevents

/-- **An entry that joins on.** -/
theorem own_tag {before os after : Bytes} (hg : g = before ++ os ++ after)
    (hjoins : Seamless (modeOf past) (modeOf before) os) : Own g past (tag before.length os) := by
  induction os generalizing before past with
  | nil => trivial
  | cons b os ih =>
    obtain ⟨hevents, hnext⟩ := seamless_next hjoins
    have htake : g.take before.length = before := by
      rw [hg, List.append_assoc, List.take_left']; rfl
    refine ⟨⟨?_, ?_⟩, ?_⟩
    · rw [hg, List.append_assoc, List.getElem?_append_right (Nat.le_refl _), Nat.sub_self]
      rfl
    · rw [htake, eventsAt_eq, eventsAt_eq]
      exact hevents
    · have hlen : before.length + 1 = (before ++ [b]).length := by
        rw [List.length_append, List.length_singleton]
      rw [hlen]
      refine ih (by rw [hg]; simp) ?_
      rw [modeOf_concat, modeOf_concat]
      exact hnext

/-! ## What is told -/

/-- An octet completes at most one message. -/
theorem next_length (m : Mode) (b : UInt8) : (m.next b).2.length ≤ 1 := by
  unfold Mode.next
  split
  · exact Nat.le_refl 1
  · split
    · split
      · exact Nat.le_refl 1
      · split
        · exact Nat.le_refl 1
        · exact Nat.zero_le 1
    · split
      · exact Nat.zero_le 1
      · exact Nat.le_refl 1
      · split
        · exact Nat.zero_le 1
        · split
          · exact Nat.zero_le 1
          · exact Nat.le_refl 1

/-- The messages are those that a parser finds. -/
theorem notes_events (past : Bytes) (ts : List Tagged) :
    (notes past ts).map Prod.snd = ((modeOf past).run (octets ts)).2.filter Event.whole := by
  induction ts generalizing past with
  | nil => rfl
  | cons t ts ih =>
    obtain ⟨i, b⟩ := t
    have hrun : ((modeOf past).run (octets ((i, b) :: ts))).2 =
        ((modeOf past).next b).2 ++ ((modeOf (past ++ [b])).run (octets ts)).2 := by
      rw [modeOf_concat]
      rfl
    rw [notes, List.map_append, ih, hrun, List.filter_append, List.map_map, eventsAt_eq]
    congr 1
    exact List.map_id _

theorem mem_notes {t : Nat × Event} (h : t ∈ notes past ts) : ∃ u ∈ ts, u.1 = t.1 := by
  induction ts generalizing past with
  | nil => cases h
  | cons u ts ih =>
    obtain ⟨i, b⟩ := u
    rcases List.mem_append.mp h with h | h
    · obtain ⟨e, -, rfl⟩ := List.mem_map.mp h
      exact ⟨(i, b), List.mem_cons_self, rfl⟩
    · obtain ⟨u, hu, heq⟩ := ih h
      exact ⟨u, List.mem_cons_of_mem _ hu, heq⟩

/-- A message is one that the guest sent, at its place. -/
theorem notes_own (h : Own g past ts) {t : Nat × Event} (ht : t ∈ notes past ts) :
    ∃ b, g[t.1]? = some b ∧ t.2 ∈ eventsAt (g.take t.1) b := by
  induction ts generalizing past with
  | nil => cases ht
  | cons u ts ih =>
    obtain ⟨i, b⟩ := u
    obtain ⟨⟨hget, hevents⟩, hrest⟩ := h
    rcases List.mem_append.mp ht with ht | ht
    · obtain ⟨e, he, rfl⟩ := List.mem_map.mp ht
      rw [List.mem_filter] at he
      exact ⟨b, hget, hevents e he.1 he.2⟩
    · exact ih hrest ht

/-- And they come in order. -/
theorem notes_ordered (h : Ordered ts) : (notes past ts).Pairwise fun t u => t.1 < u.1 := by
  induction ts generalizing past with
  | nil => exact List.Pairwise.nil
  | cons u ts ih =>
    obtain ⟨i, b⟩ := u
    obtain ⟨hfirst, hrest⟩ := List.pairwise_cons.mp h
    refine List.pairwise_append.mpr ⟨?_, ih hrest, ?_⟩
    · -- one octet completes one message at most
      have hlen : (((eventsAt past b).filter Event.whole).map (Prod.mk i)).length ≤ 1 := by
        rw [List.length_map, eventsAt_eq]
        exact (List.length_filter_le _ _).trans (next_length _ _)
      rcases hnotes :
          ((eventsAt past b).filter Event.whole).map (Prod.mk i) with _ | ⟨x, _ | ⟨y, l⟩⟩
      · exact List.Pairwise.nil
      · exact List.pairwise_singleton _ _
      · rw [hnotes] at hlen
        simp at hlen
    · intro t ht u hu
      obtain ⟨e, -, rfl⟩ := List.mem_map.mp ht
      obtain ⟨v, hv, hvu⟩ := mem_notes hu
      rw [← hvu]
      exact hfirst v hv

end Tags

/-! ## The host's side -/

/-- The entries that can still be written. -/
def State.pending (s : State) : List Entry := s.holding.toList ++ s.queue

/-- Their octets. -/
def State.ahead (s : State) : List Tagged := s.pending.flatMap fun c => tag c.start c.octets

/-- An entry is a piece of the guest's stream. -/
def Entry.Of (g : Bytes) (c : Entry) : Prop := ∃ before after, g = before ++ c.octets ++ after ∧
    before.length = c.start

/-- An entry stays the guest's when the guest writes on. -/
theorem Entry.Of.grow {g : Bytes} {c : Entry} (h : c.Of g) (bs : Bytes) : c.Of (g ++ bs) := by
  obtain ⟨before, after, rfl, hlen⟩ := h
  exact ⟨before, after ++ bs, by simp, hlen⟩

theorem Entry.Of.lt {g : Bytes} {c : Entry} (h : c.Of g) {t : Tagged}
    (ht : t ∈ tag c.start c.octets) : t.1 < g.length := by
  obtain ⟨before, after, rfl, hlen⟩ := h
  have hmem := (mem_tag ht).2
  rw [List.length_append, List.length_append]
  omega

/-- The entries and the links. -/
structure Sound (s : State) : Prop where
  entries : ∀ c ∈ s.pending, c.Of s.guest
  ordered : Ordered s.ahead
  own : ∀ k, Own s.guest [] (s.wire k)
  wires : ∀ k, Ordered (s.wire k)
  before : ∀ k, ∀ t ∈ s.wire k, ∀ u ∈ s.ahead, t.1 < u.1
  fresh : ∀ k, s.accepted ≤ k → s.wire k = []
  client : ∀ k, s.client = some k → k < s.accepted
  dialed : s.accepted ≤ s.dialed
  /-- The driver's slot stands behind what it has read. -/
  slot : ∀ d, s.driver = some d → s.pos ≤ (s.wire d).length ∧
    Agrees s.slot (modeOf (octets ((s.wire d).take s.pos)))
  idle : s.driver = none → Agrees s.slot .idle
  unread : ∀ d, s.driver = some d → ∀ t ∈ s.told, ∀ u ∈ (s.wire d).drop s.pos, t.1 < u.1
  untold : ∀ t ∈ s.told, ∀ u ∈ s.ahead, t.1 < u.1
  toldOrdered : s.told.Pairwise fun t u => t.1 < u.1
  toldOwn : ∀ t ∈ s.told, ∃ b, s.guest[t.1]? = some b ∧ t.2 ∈ eventsAt (s.guest.take t.1) b
  received : s.received.filter isWhole = s.told.map fun t => t.2.packet

section Steps

variable {s t : State}

/-- Nothing is in the outbox. -/
theorem sound_init : Sound .init := by
  refine ⟨?_, List.Pairwise.nil, fun _ => trivial, fun _ => List.Pairwise.nil, ?_, fun _ _ => rfl,
    ?_, Nat.le_refl 0, ?_, fun _ => agrees_detach _, ?_, ?_, List.Pairwise.nil, ?_, rfl⟩
  · exact fun c hc => absurd hc List.not_mem_nil
  · exact fun k u hu => absurd hu List.not_mem_nil
  · exact fun k hk => by cases hk
  · exact fun d hd => by cases hd
  · exact fun d hd => by cases hd
  · exact fun u hu => absurd hu List.not_mem_nil
  · exact fun u hu => absurd hu List.not_mem_nil

/-- Fewer entries, and as many octets. -/
theorem Sound.fewer (h : Sound s) {holding : Option Entry} {queue : List Entry}
    (hsub : (holding.toList ++ queue).Sublist s.pending) :
    Sound { s with holding := holding, queue := queue } := by
  have hahead : ({ s with holding := holding, queue := queue } : State).ahead.Sublist s.ahead :=
    hsub.flatMap _
  exact { h with
    entries := fun c hc => h.entries c (hsub.subset hc)
    ordered := h.ordered.sublist hahead
    before := fun k t ht u hu => h.before k t ht u (hahead.subset hu)
    untold := fun t ht u hu => h.untold t ht u (hahead.subset hu) }

/-- The guest sends octets, which become an entry. -/
theorem Sound.append (h : Sound s) (bytes : Bytes) :
    Sound { s with queue := s.queue ++ [⟨s.guest.length, bytes⟩], guest := s.guest ++ bytes } := by
  have hpending :
      ({ s with queue := s.queue ++ [⟨s.guest.length, bytes⟩], guest := s.guest ++ bytes } :
        State).pending =
      s.pending ++ [⟨s.guest.length, bytes⟩] := (List.append_assoc _ _ _).symm
  have hahead :
      ({ s with queue := s.queue ++ [⟨s.guest.length, bytes⟩], guest := s.guest ++ bytes } :
        State).ahead =
      s.ahead ++ tag s.guest.length bytes := by
    rw [State.ahead, hpending, List.flatMap_append, List.flatMap_singleton]
    rfl
  -- what there is has smaller numbers
  have hnew : ∀ i b, s.guest[i]? = some b → ∀ u ∈ tag s.guest.length bytes, i < u.1 := by
    intro i b hget u hu
    have hi := (List.getElem?_eq_some_iff.mp hget).1
    exact Nat.lt_of_lt_of_le hi (mem_tag hu).1
  have hwire : ∀ {past : Bytes} {ts : List Tagged}, Own s.guest past ts →
      ∀ t ∈ ts, ∃ b, s.guest[t.1]? = some b := by
    intro past ts hown
    induction ts generalizing past with
    | nil => exact fun t ht => absurd ht List.not_mem_nil
    | cons u ts ih =>
      obtain ⟨i, b⟩ := u
      exact List.forall_mem_cons.mpr ⟨⟨b, hown.1.1⟩, ih hown.2⟩
  exact { h with
    entries := by
      rw [hpending]
      intro c hc
      rcases List.mem_append.mp hc with hc | hc
      · exact (h.entries c hc).grow bytes
      · obtain rfl := List.mem_singleton.mp hc
        exact ⟨s.guest, [], by simp, rfl⟩
    ordered := by
      rw [hahead]
      refine List.pairwise_append.mpr ⟨h.ordered, ordered_tag _ _, ?_⟩
      intro t ht u hu
      obtain ⟨c, hc, htc⟩ := List.mem_flatMap.mp ht
      exact Nat.lt_of_lt_of_le ((h.entries c hc).lt htc) (mem_tag hu).1
    own := fun k => own_grow (h.own k) bytes
    before := by
      rw [hahead]
      intro k t ht u hu
      rcases List.mem_append.mp hu with hu | hu
      · exact h.before k t ht u hu
      · obtain ⟨b, hb⟩ := hwire (h.own k) t ht
        exact hnew _ b hb u hu
    untold := by
      rw [hahead]
      intro t ht u hu
      rcases List.mem_append.mp hu with hu | hu
      · exact h.untold t ht u hu
      · obtain ⟨b, hb, -⟩ := h.toldOwn t ht
        exact hnew _ b hb u hu
    toldOwn := by
      intro t ht
      obtain ⟨b, hb, he⟩ := h.toldOwn t ht
      obtain ⟨hget, htake⟩ := take_grow hb bytes
      exact ⟨b, hget, by rwa [htake]⟩ }

/-- The writer writes octets of its entry. -/
theorem Sound.written (h : Sound s) {c : Entry} {k : Nat} (hc : s.holding = some c)
    (hk : s.client = some k) (hjoins : Joins s k c) (n : Nat) :
    Sound { s with
      holding := none, wire := update s.wire k (s.wire k ++ (tag c.start c.octets).take n) } := by
  have hahead : s.ahead = tag c.start c.octets ++ s.queue.flatMap fun c =>
    tag c.start c.octets := by
    rw [State.ahead, State.pending, hc]
    rfl
  have hrest : (none : Option Entry).toList ++ s.queue = s.queue := rfl
  have hfewer : Sound { s with holding := none, queue := s.queue } := h.fewer (by
    rw [hrest, State.pending, hc]
    exact List.sublist_cons_self _ _)
  -- what is written is a front of the entry that was popped
  have hnew : ∀ {t}, t ∈ (tag c.start c.octets).take n → t ∈ tag c.start c.octets :=
    fun ht => List.mem_of_mem_take ht
  have hordered := h.ordered
  rw [hahead] at hordered
  obtain ⟨-, -, hbehind⟩ := List.pairwise_append.mp hordered
  have hin : ∀ {t}, t ∈ tag c.start c.octets → t ∈ s.ahead := fun ht => by
    rw [hahead]
    exact List.mem_append_left _ ht
  exact { hfewer with
    own := by
      intro j
      -- the wire that the entry goes to, or another one
      by_cases hj : j = k
      · obtain ⟨before, after, hg, hlen⟩ :=
          h.entries c (by rw [State.pending, hc]; exact List.mem_cons_self)
        have htake : s.guest.take c.start = before := by
          rw [hg, List.append_assoc, ← hlen, List.take_left']; rfl
        rw [hj]
        dsimp only
        rw [update_self, own_append, ← hlen]
        -- the entry joins on: that is the condition
        refine ⟨h.own k, own_take (own_tag hg ?_) n⟩
        rw [Joins, htake] at hjoins
        exact hjoins
      · dsimp only
        rw [update_of_ne hj]
        exact h.own j
    wires := by
      intro j
      by_cases hj : j = k
      · rw [hj]
        dsimp only
        rw [update_self]
        refine List.pairwise_append.mpr
          ⟨h.wires k, (ordered_tag _ _).sublist (List.take_sublist _ _), ?_⟩
        -- its octets are behind those of the wire, in the guest's order
        exact fun t ht u hu => h.before k t ht u (hin (hnew hu))
      · dsimp only
        rw [update_of_ne hj]
        exact h.wires j
    before := by
      intro j t ht u hu
      dsimp only at ht
      by_cases hj : j = k
      · rw [hj, update_self] at ht
        rcases List.mem_append.mp ht with ht | ht
        · exact hfewer.before k t ht u hu
        · exact hbehind t (hnew ht) u hu
      · rw [update_of_ne hj] at ht
        exact hfewer.before j t ht u hu
    fresh := by
      intro j hj
      -- a wire that is yet to be has no client
      have hne : j ≠ k := by
        rintro rfl
        exact Nat.not_lt.mpr hj (h.client j hk)
      dsimp only
      rw [update_of_ne hne]
      exact h.fresh j hj
    slot := by
      intro d hd
      obtain ⟨hpos, hslot⟩ := h.slot d hd
      dsimp only
      by_cases hj : d = k
      · rw [hj] at hpos hslot ⊢
        rw [update_self, List.length_append, List.take_append_of_le_length hpos]
        exact ⟨Nat.le_add_right_of_le hpos, hslot⟩
      · rw [update_of_ne hj]
        exact ⟨hpos, hslot⟩
    unread := by
      intro d hd t ht u hu
      dsimp only at hu
      by_cases hj : d = k
      -- what is written comes behind what the reader has still to read
      · rw [hj, update_self, List.drop_append_of_le_length (hj ▸ (h.slot d hd).1)] at hu
        rcases List.mem_append.mp hu with hu | hu
        · exact h.unread d hd t ht u (hj ▸ hu)
        · exact h.untold t ht u (hin (hnew hu))
      · rw [update_of_ne hj] at hu
        exact h.unread d hd t ht u hu }

/-- The driver reads. -/
theorem Sound.read {M : CoreMidi} (h : Sound s) {d n : Nat} (hd : s.driver = some d)
    (hn : n ≤ READ_CHUNK) {r : Slot × Emit}
    (hr : slotParse M PARSE_LIST_BYTES s.slot (octets (((s.wire d).drop s.pos).take n)) = some r)
    (published : Bool) :
    Sound (s.read d (((s.wire d).drop s.pos).take n) r.1 r.2.packets published) := by
  obtain ⟨hpos, hslot⟩ := h.slot d hd
  obtain ⟨pre, hpre⟩ : ∃ pre, (s.wire d).take s.pos = pre := ⟨_, rfl⟩
  obtain ⟨buf, hbuf⟩ : ∃ buf, ((s.wire d).drop s.pos).take n = buf := ⟨_, rfl⟩
  obtain ⟨rest, hrest⟩ : ∃ rest, ((s.wire d).drop s.pos).drop n = rest := ⟨_, rfl⟩
  have hdrop : (s.wire d).drop s.pos = buf ++ rest := by rw [← hbuf, ← hrest, List.take_append_drop]
  have hwire : s.wire d = pre ++ (buf ++ rest) := by rw [← hpre, ← hdrop, List.take_append_drop]
  have hlen : pre.length = s.pos := by rw [← hpre, List.length_take_of_le hpos]
  have hsize : (octets buf).length ≤ READ_CHUNK := by
    have : buf.length ≤ n := hbuf ▸ List.length_take_le n _
    rw [octets, List.length_map]
    omega
  rw [hpre] at hslot
  rw [hbuf] at hr ⊢
  -- what the parser makes of it
  obtain ⟨sl, list, hparse, hagrees, hpacks, -, -⟩ := slotParse_spec (M := M) hslot hsize
  rw [hr] at hparse
  cases hparse
  have hnext : (s.wire d).take (s.pos + buf.length) = pre ++ buf ∧
      (s.wire d).drop (s.pos + buf.length) = rest := by
    rw [hwire, ← List.append_assoc, ← hlen, ← List.length_append]
    exact ⟨List.take_left, List.drop_left⟩
  have hown : Own s.guest (octets pre) buf := by
    have hall := h.own d
    rw [hwire, own_append, own_append] at hall
    exact hall.2.1
  have hordered := h.wires d
  rw [hwire] at hordered
  obtain ⟨-, hbufrest, -⟩ := List.pairwise_append.mp hordered
  obtain ⟨hbufOrdered, -, hcross⟩ := List.pairwise_append.mp hbufrest
  have hslot' : ∀ e, s.driver = some e → s.pos + buf.length ≤ (s.wire e).length ∧
      Agrees sl (modeOf (octets ((s.wire e).take (s.pos + buf.length)))) := by
    intro e he
    obtain rfl : d = e := Option.some_inj.mp (hd.symm.trans he)
    refine ⟨?_, ?_⟩
    · rw [hwire, List.length_append, List.length_append]
      omega
    · rw [hnext.1, octets_append, modeOf_append]
      exact hagrees
  have hidle : s.driver = none → Agrees sl .idle := by
    intro hnone
    rw [hd] at hnone
    cases hnone
  have hunread : ∀ e, s.driver = some e → ∀ t ∈ s.told, ∀ u ∈ (s.wire e).drop (s.pos + buf.length),
      t.1 < u.1 := by
    intro e he t ht u hu
    refine h.unread e he t ht u ?_
    rw [← List.drop_drop] at hu
    exact List.mem_of_mem_drop hu
  cases published with
  | false => exact { h with slot := hslot', idle := hidle, unread := hunread }
  | true =>
    have hnotes : ∀ t ∈ notes (octets pre) buf, ∃ u ∈ buf, u.1 = t.1 := fun t ht => mem_notes ht
    have hin : ∀ u ∈ buf, u ∈ s.wire d := by
      intro u hu
      rw [hwire]
      exact List.mem_append_right _ (List.mem_append_left _ hu)
    rw [State.read, hpre]
    exact { h with
      slot := hslot'
      idle := hidle
      unread := by
        intro e he t ht u hu
        rcases List.mem_append.mp ht with ht | ht
        · exact hunread e he t ht u hu
        · obtain rfl : d = e := Option.some_inj.mp (hd.symm.trans he)
          obtain ⟨v, hv, hvt⟩ := hnotes t ht
          rw [← hvt]
          dsimp only at hu
          rw [hnext.2] at hu
          exact hcross v hv u hu
      untold := by
        intro t ht u hu
        rcases List.mem_append.mp ht with ht | ht
        · exact h.untold t ht u hu
        · obtain ⟨v, hv, hvt⟩ := hnotes t ht
          rw [← hvt]
          exact h.before d v (hin v hv) u hu
      toldOrdered := by
        refine List.pairwise_append.mpr ⟨h.toldOrdered, notes_ordered hbufOrdered, ?_⟩
        intro t ht u hu
        obtain ⟨v, hv, hvu⟩ := hnotes u hu
        rw [← hvu]
        refine h.unread d hd t ht v ?_
        rw [hdrop]
        exact List.mem_append_left _ hv
      toldOwn := by
        intro t ht
        rcases List.mem_append.mp ht with ht | ht
        · exact h.toldOwn t ht
        · exact notes_own hown ht
      received := by
        have hpackets := hpacks.filter_whole (sane_run (sane_modeOf _) _)
        rw [← notes_events, List.map_map] at hpackets
        show (s.received ++ list.packets).filter isWhole = (s.told ++ notes (octets pre) buf).map _
        rw [List.filter_append, List.map_append, h.received, hpackets]
        rfl }

/-- **One step** that meets the condition. -/
theorem sound_step {M : CoreMidi} {a : Action} (h : Sound s) (hkept : Kept s a)
    (hs : (machine M).step s a = some t) : Sound t := by
  -- what the host does, and what the driver does
  cases a with
  | publish bytes =>
    dsimp only [machine] at hs
    split at hs
    · cases hs
      exact h
    · cases hs
      rw [State.push]
      -- a full queue throws its oldest entry out
      split
      · exact (h.fewer (List.Sublist.append_left (List.drop_sublist 1 _) _)).append bytes
      · exact h.append bytes
  | pop =>
    dsimp only [machine] at hs
    split at hs
    · rename_i c queue hholding hqueue
      cases hs
      refine h.fewer ?_
      rw [State.pending, hholding, hqueue]
      exact List.Sublist.refl _
    · cases hs
  | write fails =>
    obtain ⟨c, hc, rfl⟩ := Option.map_eq_some_iff.mp hs
    rw [State.write]
    split
    -- nobody is connected: the entry is lost
    · have hfewer : Sound { s with holding := none, queue := s.queue } := h.fewer (by
        rw [State.pending, hc]
        exact List.sublist_cons_self _ _)
      exact hfewer
    · rename_i k hk
      have hjoins : Joins s k c := hkept c hc k hk
      split
      -- whole, or as far as the client took it
      · have hall := h.written hc hk hjoins (tag c.start c.octets).length
        rw [List.take_length] at hall
        exact hall
      · rename_i n
        exact { h.written hc hk hjoins n with client := fun j hj => by cases hj }
  | attach greeted =>
    dsimp only [machine] at hs
    split at hs
    · cases hs
    · rename_i hno
      rw [not_or] at hno
      have hdialed := h.dialed
      split at hs
      · cases hs
        exact { h with
          -- the wires beyond the new one are empty still
          fresh := fun k hk => h.fresh k (Nat.le_of_succ_le hk)
          client := fun k hk => by
            cases hk
            exact Nat.lt_succ_self _
          dialed := by
            show s.accepted + 1 ≤ s.dialed
            omega }
      · cases hs
        exact { h with
          fresh := fun k hk => h.fresh k (Nat.le_of_succ_le hk)
          client := fun k hk => Nat.lt_succ_of_lt (h.client k hk)
          dialed := by
            show s.accepted + 1 ≤ s.dialed
            omega }
  | detach =>
    dsimp only [machine] at hs
    split at hs
    · cases hs
      exact { h with client := fun k hk => by cases hk }
    · cases hs
  | dial =>
    dsimp only [machine] at hs
    split at hs
    · cases hs
    · rename_i hnone
      cases hs
      -- the driver's new link begins at the start of a wire
      have hwire : s.wire s.dialed = [] := h.fresh _ h.dialed
      exact { h with
        dialed := Nat.le_succ_of_le h.dialed
        slot := fun d hd => by
          cases hd
          refine ⟨Nat.zero_le _, ?_⟩
          rw [hwire]
          exact h.idle (by simpa using hnone)
        idle := fun hd => by cases hd
        unread := fun d hd t ht u hu => by
          cases hd
          dsimp only at hu
          rw [hwire] at hu
          cases hu }
  | close =>
    obtain ⟨d, -, rfl⟩ := Option.map_eq_some_iff.mp hs
    exact { h with
      -- the driver starts afresh with its next link
      slot := fun d hd => by cases hd
      idle := fun _ => agrees_detach _
      unread := fun d hd => by cases hd }
  | read n published =>
    obtain ⟨d, hd, hread⟩ := Option.bind_eq_some_iff.mp hs
    dsimp only at hread
    split at hread
    · cases hread
    · rename_i hno
      rw [not_or, Nat.not_lt] at hno
      obtain ⟨r, hr, rfl⟩ := Option.map_eq_some_iff.mp hread
      exact h.read hd hno.2 hr published

end Steps

/-! ## The messages handed on -/

/-- What has been handed on, SysEx apart, are messages of the guest's stream, each with the number
    of the octet that completes it there; and the numbers go up. -/
def Faithful (s : State) : Prop :=
  ∃ told : List (Nat × Event), (told.Pairwise fun t u => t.1 < u.1) ∧
    (∀ t ∈ told, ∃ b, s.guest[t.1]? = some b ∧ t.2 ∈ eventsAt (s.guest.take t.1) b) ∧
    s.received.filter isWhole = told.map fun t => t.2.packet

/-- **The messages are the guest's** as long as every entry that is written joins on. -/
theorem faithful_of_kept (M : CoreMidi) {s : State} (h : (machine M).Reach Kept .init s) :
    Faithful s := by
  have hsound : Sound s := h.inv sound_init fun _ _ _ ht hkept hs => sound_step ht hkept hs
  exact ⟨s.told, hsound.toldOrdered, hsound.toldOwn, hsound.received⟩

/-- A driver is attached and has the first two octets of a note. -/
def opened : List Action :=
  [.dial, .attach true, .publish [0x90, 60], .pop, .write none, .read 2 true]

/-- The note's last octet comes in another entry. -/
theorem split_note_faithful : ∃ s, (machine coreMidi).Reach Kept .init s ∧
    s.received = [[0x90, 60, 100]] ∧ Faithful s := by
  obtain ⟨s, hreach, hreceived⟩ := Reach.of_run_any (M := machine coreMidi) (G := Kept) (s := .init)
    (p := fun s => s.received = [[0x90, 60, 100]])
      (opened ++ [.publish [100, 0x80], .pop, .write none, .read 2 true]) (by decide)
  exact ⟨s, hreach, of_decide_eq_true hreceived, faithful_of_kept coreMidi hreach⟩

/-- A message at a place is among those of the whole stream. -/
theorem mem_run {g : Bytes} {i : Nat} {b : UInt8} {e : Event} (hget : g[i]? = some b)
    (he : e ∈ eventsAt (g.take i) b) :
    e ∈ (Mode.idle.run g).2 := by
  have hsplit : g = g.take i ++ b :: g.drop (i + 1) := by
    obtain ⟨hi, rfl⟩ := List.getElem?_eq_some_iff.mp hget
    rw [List.getElem_cons_drop, List.take_append_drop]
  rw [hsplit, Mode.run_append]
  refine List.mem_append_right _ (List.mem_append_left _ ?_)
  rw [eventsAt_eq] at he
  exact he

/-- Clocks from the guest, while the writer waits. -/
def clocks : Nat → State → State
  | 0, s => s
  | n + 1, s => clocks n (s.push [0xf8])

section Overflow

variable {M : CoreMidi}

theorem reach_push (s : State) (bytes : Bytes) (hne : bytes ≠ []) :
    (machine M).Reach Free s (s.push bytes) :=
  Reach.refl.step (a := .publish bytes) trivial (if_neg hne)

/-- A run in which the guest sends clocks. -/
theorem reach_clocks (n : Nat) (s : State) : (machine M).Reach Free s (clocks n s) := by
  induction n generalizing s with
  | zero => exact .refl
  | succ n ih => exact (reach_push s [0xf8] (by decide)).trans (ih _)

/-- There is room for them. -/
theorem clocks_eq (n : Nat) (s : State) (h : s.queue.length + n ≤ OUTBOX_CAP) :
    ∃ more, more.length = n ∧
    clocks n s = { s with
      queue := s.queue ++ more, guest := s.guest ++ List.replicate n 0xf8 } := by
  induction n generalizing s with
  | zero => exact ⟨[], rfl, by simp [clocks]⟩
  | succ n ih =>
    have hroom : ¬ OUTBOX_CAP ≤ s.queue.length := by omega
    have hpush : s.push [0xf8] =
        { s with queue := s.queue ++ [⟨s.guest.length, [0xf8]⟩], guest := s.guest ++ [0xf8] } := by
      rw [State.push, if_neg hroom]
    obtain ⟨more, hmore, heq⟩ := ih (s.push [0xf8]) (by
      rw [hpush]
      show (s.queue ++ [_]).length + n ≤ _
      rw [List.length_append, List.length_singleton]
      omega)
    refine ⟨⟨s.guest.length, [0xf8]⟩ :: more, by rw [List.length_cons, hmore], ?_⟩
    rw [clocks, heq, hpush]
    simp [List.replicate_succ]

/-- Clocks change nothing of the parser's state. -/
theorem run_clocks (n : Nat) (m : Mode) :
    m.run (List.replicate n 0xf8) = (m, List.replicate n (.realTime 0xf8)) := by
  induction n with
  | zero => rfl
  | succ n ih =>
    have hnext : m.next 0xf8 = (m, [.realTime 0xf8]) := rfl
    rw [List.replicate_succ, Mode.run, hnext, ih]
    rfl

end Overflow

/-- The outbox is full. -/
theorem push_full (s : State) {c : Entry} {queue : List Entry} (hqueue : s.queue = c :: queue)
    (hfull : OUTBOX_CAP ≤ s.queue.length) (bytes : Bytes) : s.push bytes =
      { s with queue := queue ++ [⟨s.guest.length, bytes⟩], guest := s.guest ++ bytes } := by
  rw [State.push, if_pos hfull, hqueue]
  rfl

/-- The driver reads what is there. -/
theorem step_read {s : State} {d n : Nat} {buf : List Tagged} {r : Slot × Emit}
    (hd : s.driver = some d) (hbuf : ((s.wire d).drop s.pos).take n = buf) (hne : buf ≠ [])
    (hn : n ≤ READ_CHUNK) (hr : slotParse M PARSE_LIST_BYTES s.slot (octets buf) = some r)
    (published : Bool) :
    (machine M).step s (.read n published) = some (s.read d buf r.1 r.2.packets published) := by
  dsimp only [machine]
  rw [hd, Option.bind_some, if_neg (by rw [hbuf, not_or, Nat.not_lt]; exact ⟨hne, hn⟩), hbuf, hr]
  rfl

/-- A note that nobody sent: the outbox drops the entry with the note's last
    octet and the next status. -/
theorem overflow_not_faithful : ¬ ∀ s, (machine coreMidi).Reach Free .init s → Faithful s := by
  intro h
  obtain ⟨s, hreach, hp⟩ := Reach.of_run_any (M := machine coreMidi) (G := Free) (s := .init)
    (p := fun s => s.queue.isEmpty && s.holding.isNone && s.client = some 0 && s.driver = some 0 &&
      s.pos = 2 && s.guest = [0x90, 60] &&
      s.wire 0 = [(0, 0x90), (1, 60)] && s.received = [] &&
      ((slotParse coreMidi PARSE_LIST_BYTES s.slot [62]).map fun r => r.2.packets) =
        some [[0x90, 60, 62]]) opened (by decide)
  simp only [Bool.and_eq_true, decide_eq_true_eq, List.isEmpty_iff, Option.isNone_iff_eq_none] at hp
  obtain ⟨⟨⟨⟨⟨⟨⟨⟨hqueue, hholding⟩, hclient⟩, hdriver⟩, hpos⟩, hguest⟩, hwire⟩, hreceived⟩,
      hparse⟩ := hp
  obtain ⟨r, hr, hpackets⟩ := Option.map_eq_some_iff.mp hparse
  -- the outbox is full, and one entry more drops the oldest
  obtain ⟨n, hn⟩ : ∃ n, 2 + n = OUTBOX_CAP := ⟨1022, rfl⟩
  have hnotes : (s.push [100, 0x80]).push [62, 0] =
      { s with
        queue := [⟨2, [100, 0x80]⟩, ⟨4, [62, 0]⟩], guest := [0x90, 60, 100, 0x80, 62, 0] } := by
    simp [State.push, hqueue, hguest, OUTBOX_CAP]
  obtain ⟨more, hmore, hclocks⟩ := clocks_eq n
    { s with queue := [⟨2, [100, 0x80]⟩, ⟨4, [62, 0]⟩], guest := [0x90, 60, 100, 0x80, 62, 0] }
      (Nat.le_of_eq hn)
  obtain ⟨i, hfull⟩ : ∃ i, (clocks n ((s.push [100, 0x80]).push [62, 0])).push [0xf8] =
      { s with
        queue := ⟨4, [62, 0]⟩ :: (more ++ [⟨i, [0xf8]⟩])
        guest := [0x90, 60, 100, 0x80, 62, 0] ++ List.replicate (n + 1) 0xf8 } := by
    have hlen : OUTBOX_CAP ≤ ([⟨2, [100, 0x80]⟩, ⟨4, [62, 0]⟩] ++ more : List Entry).length := by
      rw [List.length_append, hmore]
      exact Nat.le_of_eq hn.symm
    rw [hnotes, hclocks, push_full _ rfl hlen, List.replicate_succ', ← List.append_assoc]
    exact ⟨_, rfl⟩
  have hpushed :=
    ((((hreach.trans (reach_push s [100, 0x80] (by decide))).trans
      (reach_push _ [62, 0] (by decide))).trans
    (reach_clocks n _)).trans (reach_push _ [0xf8] (by decide)))
  rw [hfull] at hpushed
  -- the entry behind it is written, and its first octet read
  have hpopped := hpushed.step (a := .pop) trivial (by dsimp only [machine]; rw [hholding])
  have hwire' :
      (((update s.wire 0 (s.wire 0 ++ tag 4 [62, 0])) 0).drop s.pos).take 1 = [(4, 62)] := by
    rw [update_self, hwire, hpos]
    rfl
  obtain ⟨w, hwritten, hguest', hdriver', hunread, hslot⟩ :
      ∃ w, (machine coreMidi).Reach Free .init w ∧
      w.guest = [0x90, 60, 100, 0x80, 62, 0] ++ List.replicate (n + 1) 0xf8 ∧ w.driver = some 0 ∧
      ((w.wire 0).drop w.pos).take 1 = [(4, 62)] ∧ w.slot = s.slot := by
    refine ⟨_, hpopped.step (a := .write none) trivial rfl, ?_⟩
    dsimp only [State.write]
    rw [hclient]
    exact ⟨rfl, hdriver, hwire', rfl⟩
  rw [← hslot] at hr
  have hread := hwritten.step (a := .read 1 true) trivial
      (step_read hdriver' hunread (List.cons_ne_nil _ _) (by decide) hr true)
  have hin : [0x90, 60, 62] ∈ (r.2.packets.filter isWhole) := by
    rw [hpackets]
    decide
  obtain ⟨told, -, hown, hwhole⟩ := h _ hread
  dsimp only [State.read] at hown hwhole
  rw [if_pos rfl, List.filter_append] at hwhole
  have hmem : [0x90, 60, 62] ∈ told.map fun t => t.2.packet := by
    rw [← hwhole]
    exact List.mem_append_right _ hin
  obtain ⟨t, ht, hpacket⟩ := List.mem_map.mp hmem
  obtain ⟨b, hget, hevents⟩ := hown t ht
  have hmade := mem_run hget hevents
  rw [hguest', Mode.run_append, run_clocks] at hmade
  rcases List.mem_append.mp hmade with hmade | hmade
  · have hno : ∀ e ∈ (Mode.idle.run [0x90, 60, 100, 0x80, 62, 0]).2, e.packet ≠ [0x90, 60, 62] := by
      decide
    exact hno _ hmade hpacket
  · rw [List.eq_of_mem_replicate hmade] at hpacket
    exact absurd hpacket (by decide)

end CdjEmu.MidiLink
