/-
  THE TOUCH PANEL — the contacts in the control frames, as the evdev records that the player's app
  reads.

  The CDJ-3000X and the CDJ-1500X read their panel as a Goodix input device.  `publish` finds the
  contact in each control frame and writes only what differs from the contact that it has managed to
  write last: a group of records goes into the pipe whole or, where the pipe is full, not at all.

  `Reader` is the yardstick: it reads the records back and stops at a group that no panel sends (a
  second contact, a lift without one, a tracking id that has been used, a point off the screen).
  The invariant (`Inv`) ties it to the publisher: the reader shows the publisher's contact, whatever
  was dropped in between, and has seen no id behind the publisher's.

  A frame's touch words are the state's as long as no raw bit of the state lies in them
  (`Panel.Model.reads_encode`).

  The source writes a group with one `write`, so a reader never sees a part of one; `Pipe` is what
  the writer finds of it, with another thread in the middle of a group as one of the cases.  The
  frames are those that `Panel.Model.encode` gives, read again at the place where the model has its
  touch, and as far as the app has read them.

  Two conditions are on the run.  `Spared`: no raw bit that a client presses or clears lies in the
  touch words.  `HasId`: a new contact has a tracking id left, since the ids of 32 bits do not start
  again at a value that was used.  What goes wrong without them stands at the end.
-/
import CdjEmu.Lib.Machine
import CdjEmu.Panel.Model

namespace CdjEmu.Gt928

open Panel (Frame Model PanelState)
open Octets (Field)

/-- The kinds and codes of Linux input records. -/
def EV_SYN : Nat := 0x00
def EV_ABS : Nat := 0x03
def SYN_REPORT : Nat := 0x00
def ABS_MT_SLOT : Nat := 0x2f
def ABS_MT_POSITION_X : Nat := 0x35
def ABS_MT_POSITION_Y : Nat := 0x36
def ABS_MT_TRACKING_ID : Nat := 0x39

/-- `FRAME_TOUCH_DOWN`, which the host calls `TOUCH_DOWN`. -/
def touchDown : UInt16 := 0x8000

/-- `main_lcd` of both players. -/
def mainLcd : Nat × Nat := (1280, 800)

/-- `struct touch_event` without its time. -/
structure Record where
  type : Nat
  code : Nat
  value : Int
  deriving DecidableEq

/-- `g_touch_down`, `g_touch_x`, `g_touch_y` and `g_touch_id`: the last contact published. -/
structure Publisher where
  down : Bool
  x : Int
  y : Int
  id : Int
  deriving DecidableEq

/-- What a frame says about the panel. -/
structure Contact where
  down : Bool
  x : Int
  y : Int
  deriving DecidableEq

/-- What `deck_touch_publish` finds of the pipe: no pipe, nobody who listens or another thread at it
    (`absent`), no room for a group of records (`full`), or room for one. -/
inductive Pipe where
  | absent
  | full
  | free
  deriving DecidableEq

/-- `touch_is_ours`. -/
def touchIsOurs (m : Model) : Bool := m == .cdj3kx || m == .cdj1500x

/-- `touch_offset`. -/
def touchOffset (m : Model) : Nat := if m = .cdj1500x then 26 else 20

/-- A touch in a frame: whether it is down, and where. -/
def contact (frame : Frame) (i : Nat) : Contact :=
  let rx := frame.wordLe i
  let ry := frame.wordLe (i + 2)
  { down := rx &&& touchDown ≠ 0, x := (rx &&& ~~~touchDown).toNat, y := ry.toNat }

namespace Publisher

variable (g : Publisher) (c : Contact)

/-- The 32-bit `g_touch_id + 1`. -/
def nextId : Int := Int.bmod (g.id + 1) (2 ^ 32)

/-- The test for a frame that changes nothing. -/
def unchanged : Bool := c.down == g.down && (!c.down || c.x == g.x && c.y == g.y)

/-- The group of records that takes the reader from the last contact to `c`. -/
def records : List Record :=
  [⟨EV_ABS, ABS_MT_SLOT, 0⟩] ++
    (if c.down then
      (if g.down then [] else [⟨EV_ABS, ABS_MT_TRACKING_ID, g.nextId⟩]) ++
        [⟨EV_ABS, ABS_MT_POSITION_X, c.x⟩, ⟨EV_ABS, ABS_MT_POSITION_Y, c.y⟩]
    else [⟨EV_ABS, ABS_MT_TRACKING_ID, -1⟩]) ++
    [⟨EV_SYN, SYN_REPORT, 0⟩]

/-- The publisher once the group is in the pipe. -/
def published : Publisher :=
  { down := c.down, x := c.x, y := c.y, id := if c.down && !g.down then g.nextId else g.id }

/-- A contact is published unless it changes nothing or there is no room for its records. -/
def offer (pipe : Pipe) : Option (Publisher × List Record) :=
  if g.unchanged c then some (g, [])
  else if pipe = .full then none
  else some (g.published c, g.records c)

end Publisher

/-- `deck_touch_publish` of the `n` octets that were read: the publisher and what went into the
    pipe, or `none` where the frame is skipped or its records are dropped. -/
def publish (m : Model) (g : Publisher) (frame : Frame) (n : Nat) (pipe : Pipe) :
    Option (Publisher × List Record) :=
  if !touchIsOurs m then none
  else if n < touchOffset m + 4 then none
  else if pipe = .absent then none
  else g.offer (contact frame (touchOffset m)) pipe

/-! ## The reader -/

/-- Who decodes the records: the contact, the tracking ids so far, and what
    the last `EV_SYN` showed. -/
structure Reader where
  down : Bool
  x : Int
  y : Int
  seen : List Int
  shown : Option (Int × Int)

namespace Reader

/-- A reader that has seen no record. -/
def fresh : Reader := { down := false, x := 0, y := 0, seen := [], shown := none }

/-- A record, if a panel with one slot and this screen can have sent it here. -/
def take (r : Reader) (ev : Record) : Option Reader :=
  if ev.type = EV_SYN then some { r with shown := if r.down then some (r.x, r.y) else none }
  else if ev.type ≠ EV_ABS then none
  else if ev.code = ABS_MT_SLOT then
    if ev.value = 0 then some r else none
  else if ev.code = ABS_MT_TRACKING_ID then
    if ev.value = -1 then
      if r.down then some { r with down := false } else none
    else if 0 ≤ ev.value ∧ r.down = false ∧ ev.value ∉ r.seen then
      some { r with down := true, seen := ev.value :: r.seen }
    else none
  else if ev.code = ABS_MT_POSITION_X then
    if r.down = true ∧ 0 ≤ ev.value ∧ ev.value < mainLcd.1 then some { r with x := ev.value }
    else none
  else if ev.code = ABS_MT_POSITION_Y then
    if r.down = true ∧ 0 ≤ ev.value ∧ ev.value < mainLcd.2 then some { r with y := ev.value }
    else none
  else none

/-- A stream of records, read to its end. -/
def decode (l : List Record) : Option Reader := l.foldlM take fresh

end Reader

/-! ## The runs -/

/-- The pairs that `touch_units` returns: it clamps the point to the
    display and flags the X word. -/
def IsTouchUnits (p : UInt16 × UInt16) : Prop :=
  p.1 &&& touchDown ≠ 0 ∧ (p.1 &&& ~~~touchDown).toNat < mainLcd.1 ∧ p.2.toNat < mainLcd.2

instance (p : UInt16 × UInt16) : Decidable (IsTouchUnits p) := inferInstanceAs (Decidable (_ ∧ _))

/-- The state has no touch or one that `touch_units` returns. -/
def OwnTouch (s : PanelState) : Prop := ∀ p ∈ s.touch, IsTouchUnits p

instance (s : PanelState) : Decidable (OwnTouch s) :=
  decidable_of_iff (s.touch.all fun p => IsTouchUnits p) <| by
    cases h : s.touch with
    | none => simp [OwnTouch, h]
    | some p => simp [OwnTouch, h]

/-- The touch of a state as the app is to see it. -/
def point (s : PanelState) : Option (Int × Int) :=
  s.touch.map fun p => (((p.1 &&& ~~~touchDown).toNat : Int), (p.2.toNat : Int))

/-- The publisher, the pipe with all its records, and the panel's last state. -/
structure Sys where
  g : Publisher
  /-- All that went into the pipe. -/
  pipe : List Record
  /-- The state of the last frame that was written or needed no records. -/
  last : Option PanelState
  /-- What was written for frames that repeat the touch of `last`. -/
  repeated : List Record

/-- A control frame: the state that the host encodes, how much of the frame the app reads, and the
    pipe at that time. -/
structure Event where
  state : PanelState
  n : Nat
  pipe : Pipe

/-- The frame of `s` is behind the publisher. -/
def Sys.after (t : Sys) (s : PanelState) : Option (Publisher × List Record) → Sys
  | none => t
  | some (g, l) =>
    { g := g, pipe := t.pipe ++ l, last := some s,
      repeated := if t.last.any fun s' => s'.touch = s.touch then t.repeated ++ l else t.repeated }

/-- A frame of the panel's state goes through the publisher. -/
def machine (m : Model) : Machine Sys Event where
  step t e :=
    if OwnTouch e.state then
      (m.encode e.state).map fun frame => t.after e.state (publish m t.g frame e.n e.pipe)
    else none

/-- Nothing is published and nothing written. -/
def start : Sys := { g := ⟨false, 0, 0, 0⟩, pipe := [], last := none, repeated := [] }

/-- The records read back, the reader shows the touch of the last frame that was written or needed
    no records, and no frame that repeats that touch has written anything. -/
structure Reproduced (t : Sys) : Prop where
  shown : ∃ r, Reader.decode t.pipe = some r ∧ ∀ s, t.last = some s → r.shown = point s
  quiet : t.repeated = []

/-- The state's raw bits spare the touch words. -/
def Spared (m : Model) (e : Event) : Prop := ∀ b ∈ e.state.pressed ++ e.state.cleared,
    b.1 ∉ m.touchOctets

instance (m : Model) (e : Event) : Decidable (Spared m e) :=
  inferInstanceAs (Decidable (∀ _ ∈ _, _))

/-- A new contact has an id left in the 32 bits of `g_touch_id`. -/
def HasId (g : Publisher) (s : PanelState) : Prop :=
  s.touch.isSome = true → g.down = false → g.id < 2 ^ 31 - 1

instance (g : Publisher) (s : PanelState) : Decidable (HasId g s) :=
  inferInstanceAs (Decidable (_ → _ → _))

/-- The frames that the touches go through unchanged. -/
def Plain (m : Model) (t : Sys) (e : Event) : Prop := Spared m e ∧ HasId t.g e.state

instance (m : Model) (t : Sys) (e : Event) : Decidable (Plain m t e) :=
  inferInstanceAs (Decidable (_ ∧ _))

/-! ## The contact of a frame -/

/-- The contact of a state. -/
def contactOf (s : PanelState) : Contact :=
  match s.touch with
  | some p => { down := true, x := (p.1 &&& ~~~touchDown).toNat, y := p.2.toNat }
  | none => { down := false, x := 0, y := 0 }

/-- The touch is read where it is written. -/
theorem touchOffset_eq {m : Model} (h : touchIsOurs m = true) : touchOffset m = m.touchAt := by
  revert h
  cases m <;> decide

/-- What is read from a frame is what was put there. -/
theorem contact_encode {m : Model} {s : PanelState} {frame : Frame} (hm : touchIsOurs m = true)
    (he : m.encode s = some frame) (hs : ∀ b ∈ s.pressed ++ s.cleared, b.1 ∉ m.touchOctets)
    (ht : OwnTouch s) : contact frame (touchOffset m) = contactOf s := by
  have hword : ∀ fd ∈ m.fields s, (∀ c ∈ fd.bits, c.1 ∈ m.touchOctets) → Field.Reads frame fd := by
    intro fd hfd hbits
    refine Model.reads_encode he hfd hs ?_
    intro b hb c hc heq
    exact hs b hb (heq ▸ hbits c hc)
  have hx : frame.wordLe m.touchAt = (s.touch.getD (0, 0)).1 :=
    hword (.le m.touchAt (s.touch.getD (0, 0)).1) (by simp [Model.fields])
      (by simp [Field.bits, Model.touchOctets])
  have hy : frame.wordLe (m.touchAt + 2) = (s.touch.getD (0, 0)).2 :=
    hword (.le (m.touchAt + 2) (s.touch.getD (0, 0)).2) (by simp [Model.fields])
      (by simp [Field.bits, Model.touchOctets])
  rw [touchOffset_eq hm, contact, contactOf, hx, hy]
  cases hp : s.touch with
  | none => rfl
  | some p =>
    have hdown : p.1 &&& touchDown ≠ 0 := (ht p hp).1
    simp [hdown]

/-! ## The invariant -/

/-- What the app is to see. -/
def Contact.shown (c : Contact) : Option (Int × Int) := if c.down then some (c.x, c.y) else none

/-- What the publisher shows: the point, while it is down. -/
def Publisher.shown (g : Publisher) : Option (Int × Int) := if g.down then some (g.x, g.y) else none

/-- Of a panel's state that is the panel's own point. -/
theorem shown_contactOf (s : PanelState) : (contactOf s).shown = point s := by
  rw [contactOf, point]
  cases s.touch with
  | none => rfl
  | some p => rfl

/-- A frame changes nothing just when it shows what the publisher has published. -/
theorem Publisher.unchanged_iff {g : Publisher} {c : Contact} :
    g.unchanged c = true ↔ g.shown = c.shown := by
  unfold Publisher.unchanged Publisher.shown Contact.shown
  rcases g with ⟨_ | _, gx, gy, gid⟩ <;> rcases c with ⟨_ | _, cx, cy⟩
  · simp
  · simp
  · simp
  · simp only [beq_self_eq_true, Bool.not_true, Bool.false_or, Bool.true_and, Bool.and_eq_true,
      beq_iff_eq, if_true, Option.some.injEq, Prod.mk.injEq]
    rw [eq_comm, @eq_comm _ cy gy]

/-- The reader has the publisher's contact, and no id behind the publisher's. -/
structure Reader.Follows (r : Reader) (g : Publisher) : Prop where
  down : r.down = g.down
  seen : ∀ i ∈ r.seen, i ≤ g.id
  shown : r.shown = g.shown

/-- A contact on the screen. -/
def Contact.OnScreen (c : Contact) : Prop :=
  c.down = true → 0 ≤ c.x ∧ c.x < mainLcd.1 ∧ 0 ≤ c.y ∧ c.y < mainLcd.2

/-- A touch of the panel is on its screen. -/
theorem onScreen_contactOf {s : PanelState} (ht : OwnTouch s) : (contactOf s).OnScreen := by
  rw [contactOf]
  cases hp : s.touch with
  | none => simp [Contact.OnScreen]
  | some p =>
    obtain ⟨-, hx, hy⟩ := ht p hp
    intro _
    refine ⟨?_, ?_, ?_, ?_⟩
    · exact Int.natCast_nonneg _
    · exact Int.ofNat_lt.mpr hx
    · exact Int.natCast_nonneg _
    · exact Int.ofNat_lt.mpr hy

theorem down_contactOf (s : PanelState) : (contactOf s).down = s.touch.isSome := by
  rw [contactOf]
  cases s.touch with
  | none => rfl
  | some p => rfl

/-- The id of a contact counts up, as long as it does not wrap. -/
theorem Publisher.nextId_eq {g : Publisher} (h0 : 0 ≤ g.id) (h1 : g.id < 2 ^ 31 - 1) :
    g.nextId = g.id + 1 := by
  unfold Publisher.nextId
  apply Int.bmod_eq_of_le
  · omega
  · omega

/-- **One group.**  The reader takes the group of a contact that differs from the publisher's, and
    follows the publisher. -/
theorem Reader.Follows.group {r : Reader} {g : Publisher} {c : Contact} (h : r.Follows g)
    (h0 : 0 ≤ g.id) (h1 : c.down = true → g.down = false → g.id < 2 ^ 31 - 1) (hc : c.OnScreen)
    (hne : g.unchanged c = false) :
    ∃ r', (g.records c).foldlM Reader.take r = some r' ∧ r'.Follows (g.published c) := by
  rcases hdown : c.down with _ | _
  · -- A lift: the reader has the contact, or nothing would change.
    have hg : g.down = true := by
      by_contra hg
      simp [Publisher.unchanged, hdown, hg] at hne
    refine ⟨{ r with down := false, shown := none }, ?_, ?_⟩
    · simp [Publisher.records, hdown, Reader.take, EV_SYN, EV_ABS, ABS_MT_SLOT, ABS_MT_TRACKING_ID,
        h.down, hg]
    · constructor
      · exact hdown.symm
      · simpa [Publisher.published, hdown] using h.seen
      · simp [Publisher.published, Publisher.shown, hdown]
  · obtain ⟨hx0, hx1, hy0, hy1⟩ := hc hdown
    rcases hg : g.down with _ | _
    · -- A new contact takes the next id.
      have hnext := Publisher.nextId_eq h0 (h1 hdown hg)
      refine ⟨{
        down := true
        x := c.x
        y := c.y
        seen := g.nextId :: r.seen
        shown := some (c.x, c.y) }, ?_, ?_⟩
      -- the id is above all those that the reader has seen
      · have hfresh : g.id + 1 ∉ r.seen := by
          intro hmem
          have := h.seen _ hmem
          omega
        have hpos : 0 ≤ g.id + 1 := by omega
        have hlift : g.id + 1 ≠ -1 := by omega
        simp [Publisher.records, hdown, hg, Reader.take, EV_SYN, EV_ABS, ABS_MT_SLOT,
          ABS_MT_TRACKING_ID, ABS_MT_POSITION_X, ABS_MT_POSITION_Y, h.down, hnext, hfresh, hpos,
          hlift, hx0, hx1, hy0, hy1]
      · constructor
        · exact hdown.symm
        · intro i hi
          show i ≤ if c.down && !g.down then g.nextId else g.id
          rw [hdown, hg]
          rcases List.mem_cons.mp hi with rfl | hi
          · exact Int.le_refl _
          · have := h.seen i hi
            simp only [Bool.not_false, Bool.and_self, if_true]
            omega
        · simp [Publisher.published, Publisher.shown, hdown]
    · -- The contact moves.
      refine ⟨{ r with x := c.x, y := c.y, shown := some (c.x, c.y) }, ?_, ?_⟩
      · simp [Publisher.records, hdown, hg, Reader.take, EV_SYN, EV_ABS, ABS_MT_SLOT,
          ABS_MT_TRACKING_ID, ABS_MT_POSITION_X, ABS_MT_POSITION_Y, h.down, hx0, hx1, hy0, hy1]
      · constructor
        · exact h.down.trans (hg.trans hdown.symm)
        · simpa [Publisher.published, hdown, hg] using h.seen
        · simp [Publisher.published, Publisher.shown, hdown]

/-- The reader follows the publisher, which has the touch of the last frame that it
    did not have to give up. -/
structure Inv (t : Sys) : Prop where
  reader : ∃ r, Reader.decode t.pipe = some r ∧ r.Follows t.g
  last : ∀ s, t.last = some s → t.g.shown = point s
  id : 0 ≤ t.g.id
  quiet : t.repeated = []

/-- Nothing has been shown. -/
theorem inv_start : Inv start := by
  refine ⟨⟨Reader.fresh, rfl, rfl, ?_, rfl⟩, ?_, Int.le_refl _, rfl⟩
  · intro i hi
    exact absurd hi List.not_mem_nil
  · intro s hs
    exact absurd hs (Option.some_ne_none s).symm

/-- The invariant gives the property. -/
theorem Inv.reproduced {t : Sys} (h : Inv t) : Reproduced t := by
  obtain ⟨r, hr, hfollows⟩ := h.reader
  refine ⟨⟨r, hr, ?_⟩, h.quiet⟩
  intro s hs
  rw [hfollows.shown, h.last s hs]

/-- What a frame can do. -/
theorem step_cases {m : Model} {t u : Sys} {e : Event} (h : (machine m).step t e = some u) :
    OwnTouch e.state ∧
      ∃ frame, m.encode e.state = some frame ∧
      u = t.after e.state (publish m t.g frame e.n e.pipe) := by
  unfold machine at h
  dsimp only at h
  split at h
  · rename_i ht
    obtain ⟨frame, he, rfl⟩ := Option.map_eq_some_iff.mp h
    exact ⟨ht, frame, he, rfl⟩
  · exact absurd h (Option.some_ne_none u).symm

/-- The publisher skips the frame, or is offered its contact. -/
theorem publish_cases (m : Model) (g : Publisher) (frame : Frame) (n : Nat) (pipe : Pipe) :
    publish m g frame n pipe = none ∨
      touchIsOurs m = true ∧
      publish m g frame n pipe = g.offer (contact frame (touchOffset m)) pipe := by
  unfold publish
  split
  · exact .inl rfl
  · rename_i hours
    split
    · exact .inl rfl
    · split
      · exact .inl rfl
      · exact .inr ⟨by simpa using hours, rfl⟩

/-- Offering the contact of a state keeps the invariant. -/
theorem Inv.offer {t : Sys} {s : PanelState} (h : Inv t) (h1 : HasId t.g s) (ht : OwnTouch s)
    (pipe : Pipe) : Inv (t.after s (t.g.offer (contactOf s) pipe)) := by
  have hpoint := shown_contactOf s
  obtain ⟨r, hr, hfollows⟩ := h.reader
  unfold Publisher.offer
  split
  · -- Nothing changes: the publisher has had this touch already.
    rename_i hun
    have hshown : t.g.shown = point s := (Publisher.unchanged_iff.mp hun).trans hpoint
    constructor
    · exact ⟨r, by rw [Sys.after, List.append_nil]; exact hr, hfollows⟩
    · intro s' hs
      obtain rfl : s = s' := Option.some.inj hs
      exact hshown
    · exact h.id
    · simp [Sys.after, h.quiet]
  · rename_i hun
    -- no room in the pipe: the write is left out
    split
    · exact h
    -- it is written, and the reader takes it as the publisher means it
    · have h1' : (contactOf s).down = true → t.g.down = false → t.g.id < 2 ^ 31 - 1 := by
        rw [down_contactOf]
        exact h1
      obtain ⟨r', hr', hfollows'⟩ :=
        hfollows.group h.id h1' (onScreen_contactOf ht) (by simpa using hun)
      constructor
      · refine ⟨r', ?_, hfollows'⟩
        show (t.pipe ++ _).foldlM Reader.take Reader.fresh = some r'
        rw [List.foldlM_append, show t.pipe.foldlM Reader.take Reader.fresh = some r from hr]
        exact hr'
      · intro s' hs
        obtain rfl : s = s' := Option.some.inj hs
        exact hpoint
      · show 0 ≤ if (contactOf s).down && !t.g.down then t.g.nextId else t.g.id
        have hid := h.id
        split
        · rename_i hnew
          rw [Bool.and_eq_true, Bool.not_eq_true'] at hnew
          have hnext := Publisher.nextId_eq hid (h1' hnew.1 hnew.2)
          omega
        · exact hid
      · -- A frame with the touch of `last` would have been one that changes nothing.
        have hother : ¬ (t.last.any fun s' => s'.touch = s.touch) = true := by
          intro hany
          cases hlast : t.last with
          | none =>
            rw [hlast] at hany
            exact Bool.false_ne_true hany
          | some s' =>
            rw [hlast] at hany
            have hsame : s'.touch = s.touch := of_decide_eq_true hany
            have hshown : t.g.shown = (contactOf s).shown := by
              rw [h.last s' hlast, hpoint, point, point, hsame]
            exact hun (Publisher.unchanged_iff.mpr hshown)
        show (if _ then _ else _) = _
        rw [if_neg hother]
        exact h.quiet

/-- A plain frame keeps it. -/
theorem Inv.step {m : Model} {t u : Sys} {e : Event} (h : Inv t) (hg : Plain m t e)
    (hs : (machine m).step t e = some u) : Inv u := by
  obtain ⟨ht, frame, he, rfl⟩ := step_cases hs
  rcases publish_cases m t.g frame e.n e.pipe with hp | ⟨hm, hp⟩
  · rw [hp]
    exact h
  · rw [hp, contact_encode hm he hg.1 ht]
    exact h.offer hg.2 ht e.pipe

/-- So it holds in every run of plain frames. -/
theorem Inv.of_reach {m : Model} {t : Sys} (h : (machine m).Reach (Plain m) start t) : Inv t :=
  h.inv (I := Inv) inv_start fun _ _ _ hI hg hs => hI.step hg hs

/-- **The records reproduce the touches**, in every run of frames whose raw bits spare the touch
    words and whose new contacts have a tracking id left.  (The CDJ-3000 has its touch in the frame
    alone, and nothing is published.) -/
theorem touches_reproduced {m : Model} {t : Sys} (h : (machine m).Reach (Plain m) start t) :
    Reproduced t :=
  (Inv.of_reach h).reproduced

/-- A touch of the point `(x, y)`. -/
def touching (x y : UInt16) : PanelState :=
  { PanelState.atRest with touch := some (x ||| touchDown, y) }

/-- A contact whose move finds the pipe full, its lift, and a contact at the same point. -/
def touchTwice : List Event :=
  [⟨touching 10 20, 64, .free⟩, ⟨touching 30 20, 64, .full⟩, ⟨touching 10 20, 64, .free⟩,
    ⟨.atRest, 64, .free⟩, ⟨touching 10 20, 64, .free⟩]

/-- Its records: two contacts, without the move. -/
theorem touch_twice_reproduced : ∃ t, Reproduced t ∧ t.pipe.length = 13 ∧
    t.g = ⟨true, 10, 20, 2⟩ := by
  obtain ⟨t, hreach, hend⟩ : ∃ t, (machine .cdj3kx).Reach (Plain .cdj3kx) start t ∧
      decide (t.pipe.length = 13 ∧ t.g = ⟨true, 10, 20, 2⟩) = true :=
    Machine.Reach.of_run_any touchTwice (by decide +kernel)
  exact ⟨t, touches_reproduced hreach, of_decide_eq_true hend⟩

/-! ## What the two conditions exclude -/

/-- A frame that gets as far as the pipe. -/
theorem step_offer {m : Model} {t : Sys} {s : PanelState} {frame : Frame} {c : Contact}
    (hm : touchIsOurs m = true) (he : m.encode s = some frame)
    (hc : contact frame (touchOffset m) = c) (ht : OwnTouch s) :
    (machine m).step t ⟨s, 64, .free⟩ = some (t.after s (t.g.offer c .free)) := by
  have hn : ¬ 64 < touchOffset m + 4 := by
    unfold touchOffset
    split <;> decide
  have hpublish : publish m t.g frame 64 .free = t.g.offer c .free := by
    rw [publish, hm, hc, if_neg (by decide), if_neg hn, if_neg (by decide)]
  unfold machine
  dsimp only
  rw [if_pos ht, he, Option.map_some, hpublish]

/-- A state without raw bits that differs from the last contact extends a run: its
    records go into the pipe. -/
theorem reach_published {m : Model} {G : Sys → Event → Prop} {t : Sys}
    (h : (machine m).Reach G start t) {s : PanelState} (hm : touchIsOurs m = true)
    (hbits : s.pressed ++ s.cleared = []) (ht : OwnTouch s)
    (hun : t.g.unchanged (contactOf s) = false) (hG : G t ⟨s, 64, .free⟩) :
    ∃ u, (machine m).Reach G start u ∧ u.g = t.g.published (contactOf s) ∧
      u.pipe = t.pipe ++ t.g.records (contactOf s) := by
  have he : m.encode s = some _ := Model.encode_eq_some.mpr ⟨by simp [hbits], rfl⟩
  have hc := contact_encode hm he (by simp [hbits]) ht
  refine ⟨_, h.step hG (step_offer hm he hc ht), ?_, ?_⟩
  · simp [Publisher.offer, hun, Sys.after]
  · simp [Publisher.offer, hun, Sys.after]

/-- As many contacts as there are ids. -/
theorem reach_contacts {m : Model} (hm : touchIsOurs m = true) (k : Nat) (hk : k ≤ 2 ^ 31 - 1) :
    ∃ t, (machine m).Reach (Plain m) start t ∧ t.g.down = false ∧ t.g.id = k := by
  induction k with
  | zero => exact ⟨start, .refl, rfl, rfl⟩
  | succ k ih =>
    obtain ⟨t, ht, hdown, hid⟩ := ih (by omega)
    have hroom : t.g.id < 2 ^ 31 - 1 := by omega
    have hspared : ∀ {s : PanelState}, s.pressed ++ s.cleared = [] → Spared m ⟨s, 64, .free⟩ := by
      intro s hs b hb
      rw [hs] at hb
      exact absurd hb List.not_mem_nil
    obtain ⟨u, hu, hgu, -⟩ := reach_published (s := touching 10 20) ht hm rfl (by decide)
      (by rw [Publisher.unchanged, hdown]; rfl) ⟨hspared rfl, fun _ _ => hroom⟩
    have hdownu : u.g.down = true := by
      rw [hgu]
      rfl
    obtain ⟨v, hv, hgv, -⟩ := reach_published (s := .atRest) hu hm rfl (by decide)
      (by rw [Publisher.unchanged, hdownu]; rfl)
        ⟨hspared rfl, fun hsome => absurd hsome Bool.false_ne_true⟩
    refine ⟨v, hv, ?_, ?_⟩
    · rw [hgv]
      rfl
    · have hidu : u.g.id = t.g.nextId := by
        rw [hgu, Publisher.published, hdown]
        rfl
      have hnext := Publisher.nextId_eq (g := t.g) (by omega) hroom
      rw [hgv, Publisher.published, hdownu]
      show u.g.id = _
      omega

/-- A raw bit in the touch words is a touch of its own: the CDJ-3000X's state with all of octet 21
    pressed and no touch puts a contact off the screen into the pipe. -/
theorem raw_bits_touch :
    ∃ t, (machine .cdj3kx).Reach (fun t e => HasId t.g e.state) start t ∧ ¬ Reproduced t := by
  obtain ⟨t, hreach, hend⟩ : ∃ t, (machine .cdj3kx).Reach (fun t e => HasId t.g e.state) start t ∧
      (Reader.decode t.pipe).isNone = true :=
    Machine.Reach.of_run_any [⟨{ PanelState.atRest with pressed := [(21, 0xFF)] }, 64, .free⟩]
      (by decide +kernel)
  refine ⟨t, hreach, ?_⟩
  intro h
  obtain ⟨r, hr, -⟩ := h.shown
  rw [hr] at hend
  exact Bool.false_ne_true hend

/-- The contact behind the last id takes a negative one, with no raw bit in any frame. -/
theorem ids_run_out : ∃ t, (machine .cdj3kx).Reach (fun _ e => Spared .cdj3kx e) start t ∧
    ¬ Reproduced t := by
  obtain ⟨t, ht, hdown, hid⟩ := reach_contacts (m := .cdj3kx) rfl (2 ^ 31 - 1) (Nat.le_refl _)
  obtain ⟨r, hr, -⟩ := (Inv.of_reach ht).reader
  have hspared : (machine .cdj3kx).Reach (fun _ e => Spared .cdj3kx e) start t :=
    ht.mono fun _ _ _ hg => hg.1
  obtain ⟨u, hu, -, hpipe⟩ := reach_published (s := touching 10 20) hspared rfl rfl (by decide)
    (by rw [Publisher.unchanged, hdown]; rfl) (by decide)
  have hnext : t.g.nextId = -2 ^ 31 := by
    rw [Publisher.nextId, hid]
    decide
  refine ⟨u, hu, ?_⟩
  intro h
  obtain ⟨r', hr', -⟩ := h.shown
  have hgroup : (t.g.records (contactOf (touching 10 20))).foldlM Reader.take r = none := by
    rw [Publisher.records, hdown, hnext]
    rfl
  rw [Reader.decode, hpipe, List.foldlM_append, show t.pipe.foldlM Reader.take Reader.fresh =
    some r from hr] at hr'
  exact absurd (hgroup.symm.trans hr') (Option.some_ne_none r').symm

/-- Free runs do not reproduce the touches, and neither of the two conditions can be dropped. -/
theorem touches_not_reproduced :
    (¬ ∀ (m : Model) (t : Sys), touchIsOurs m = true → (machine m).Reach Machine.Free start t →
      Reproduced t) ∧
      (¬ ∀ (m : Model) (t : Sys), touchIsOurs m = true →
        (machine m).Reach (fun t e => HasId t.g e.state) start t → Reproduced t) ∧
      ¬ ∀ (m : Model) (t : Sys), touchIsOurs m = true →
        (machine m).Reach (fun _ e => Spared m e) start t → Reproduced t := by
  obtain ⟨t, ht, hraw⟩ := raw_bits_touch
  obtain ⟨u, hu, hids⟩ := ids_run_out
  refine ⟨?_, ?_, ?_⟩
  · intro hall
    exact hraw (hall .cdj3kx t rfl (ht.mono fun _ _ _ _ => trivial))
  · intro hall
    exact hraw (hall .cdj3kx t rfl ht)
  · intro hall
    exact hids (hall .cdj3kx u rfl hu)

end CdjEmu.Gt928
