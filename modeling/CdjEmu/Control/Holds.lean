/-
  WHAT THE CONTROL API HOLDS — the panel's bits, touch and jog turn against the host's table of
  holds.

  Every hold is written down twice.  `ControlHost` has the table: who made the hold, or when it
  ends.  `CdjApp` has what goes into the frames: the pressed and the cleared bits, the touch flag
  with its coordinate, and the jog turn.  Most operations change both (`release`), and whatever
  changes one side only has to find nothing held.

  Three operations do not look.  `switch_model` empties the panel's side, `on_leave_panel` takes the
  touch's coordinate away, and `follow_dev_mode` lets go of the holds but not of the jog turn.
  Where they find nothing that they would part, the two sides agree in every state (`Agrees`),
  through every message of every pass.

  `release` is the step that everything else is made of: `release_eq` says what is left of the table
  and of the panel after a list of releases, and closing a connection, a due release and the end of
  the server are such lists.

  1. **Program** — the functions of the app that touch the held inputs, those of `ControlHost`, and
     one pass `serve_control` with its messages, its due releases and the turn at its end.  Names of
     bits and points on the display are parameters of the player (`Deck`).

  2. **Specification** — `Agrees`: whatever the table has is on the panel, whatever the API has put
     on the panel is in the table, and nothing stands in the table twice.  `Kept` adds what a
     closing connection and the end of the server leave: the connection's own holds are gone and the
     others are as they were, and a server that is off holds nothing.

  3. **The crux (`Lets`)** — a release is seen through `tracked` and `App.has`, two lists of holds,
     so that letting go of several is one fact about lists, and the order in which the three tables
     of the source are gone through does not matter.

  4. **Bridge** — `Inv.step` goes through the requests, the panel's own inputs and the pass;
     `Inv.parted` is its converse, that a step which does part the two sides shows it in the state
     after it.
-/
import CdjEmu.Lib.Machine
import CdjEmu.Panel.Model

namespace CdjEmu.Holds

open Machine Panel

/-- Something the control API holds on the panel. -/
inductive Hold where
  | btn (bit : FrameBit)
  | cleared (bit : FrameBit)
  | touch
  deriving DecidableEq

/-- A jog turn: when it ends.  `conn`, whose request it is, is read by no step. -/
structure ApiJog where
  ends : Nat
  conn : Nat
  deriving DecidableEq

/-- What the control clients hold: the touch, the buttons and the jog wheel. -/
structure ApiInputs where
  touch : Bool
  btns : List FrameBit
  jog : Option ApiJog
  deriving DecidableEq

def ApiInputs.default : ApiInputs := ⟨false, [], none⟩

/-- `CdjApp`: the panel's inputs that the API, the slate's buttons and the main LCD change. -/
structure App where
  model : Model
  clearedBits : List FrameBit
  api : ApiInputs
  lcdTouch : Option (UInt16 × UInt16)
  lcdTouchCtrlLatched : Bool
  lcdNavMode : Bool
  heldBtn : Option FrameBit
  latchedBtns : List FrameBit

/-- `ControlHost`, as far as it concerns the panel. -/
structure ControlHost where
  server : Bool
  bindFailed : Bool
  holds : List (Nat × Hold)
  timed : List (Nat × Hold)
  /-- The connection whose jog turn is under way. -/
  jog : Option Nat

/-- No server, no restart under way, and nothing on behalf of a client. -/
def ControlHost.default : ControlHost := ⟨false, false, [], [], none⟩

/-- The window, and the menu's Developer Mode.  `asked` is where the API touched
    last, read by no step. -/
structure State where
  app : App
  control : ControlHost
  devMode : Bool
  toggleRequested : Bool
  clock : Nat
  asked : Option (UInt16 × UInt16)

/-- What a request does with the jog wheel: turn it for some time, or spin
    it until it is released. -/
inductive JogMove where
  | turn (time : Nat)
  | spin

/-- What `release` names: everything of the connection, the touch, or one bit. -/
inductive Target (N : Type) where
  | all
  | touch
  | bit (name : N)

/-- The requests that hold something or let go of it: names are of type `N`, points of type `P`. -/
inductive Command (N P : Type) where
  | press (bit : N) (hold : Option Nat)
  | clear (bit : N) (hold : Option Nat)
  | touch (at_ : P) (hold : Option Nat)
  | release (target : Target N)
  | jog (mv : JogMove)

/-- What the server hands to the window: a request, or the end of a connection. -/
inductive Incoming (N P : Type) where
  | request (conn : Nat) (command : Command N P)
  | closed (conn : Nat)

/-- What the pointer does over the main LCD in a frame. -/
structure LcdTouchCapture (P : Type) where
  hovered : Bool
  scrolled : Bool
  pointerMoved : Bool
  isDown : Bool
  ctrl : Bool
  rightDown : Bool
  interactPos : Option P

/-- How a player names its bits and measures its display. -/
structure Deck (N P : Type) where
  buttonByName : Model → N → Option FrameBit
  touchUnits : Model → P → UInt16 × UInt16

variable {N P : Type} (D : Deck N P)

/-! ## The panel -/

namespace App

variable (x : App)

/-- `set_bit_cleared`: the bit is forced to zero in the frame, or no longer. -/
def setBitCleared (bit : FrameBit) (on : Bool) : App :=
  { x with clearedBits := x.clearedBits.filter (· ≠ bit) ++ if on then [bit] else [] }

/-- `set_api_btn`: a client's button, beside those that the mouse holds. -/
def setApiBtn (btn : FrameBit) (on : Bool) : App :=
  { x with api := { x.api with btns := x.api.btns.filter (· ≠ btn) ++ if on then [btn] else [] } }

/-- `set_api_touch`, with the coordinate in the display's units. -/
def setApiTouch (at_ : Option (UInt16 × UInt16)) : App :=
  { x with
    api := { x.api with touch := at_.isSome }, lcdTouchCtrlLatched := false, lcdTouch := at_ }

/-- `start_api_jog`: a turn replaces a turn under way. -/
def startApiJog (now conn : Nat) : JogMove → App
  | .turn time => { x with api := { x.api with jog := some ⟨now + time, conn⟩ } }
  | .spin => { x with api := { x.api with jog := none } }

/-- `stop_api_jog`: the wheel no longer moves for a client. -/
def stopApiJog : App := { x with api := { x.api with jog := none } }

/-- `step_api_jog`: the turn ends once its time is up. -/
def stepApiJog (now : Nat) : App :=
  if x.api.jog.any fun j => decide (j.ends ≤ now) then x.stopApiJog else x

/-- `on_leave_panel`: the mouse holds nothing once the panel is not shown.  What
    the clients hold stays. -/
def onLeavePanel : App :=
  if x.heldBtn.isSome || !x.latchedBtns.isEmpty || x.lcdTouch.isSome then
    { x with heldBtn := none, latchedBtns := [], lcdTouch := none, lcdTouchCtrlLatched := false }
  else x

/-- `switch_model`: another player has other bits, so nothing that was held or cleared survives. -/
def switchModel (model : Model) : App :=
  { ({ x with model } : App).onLeavePanel with clearedBits := [], api := ApiInputs.default }

/-- `handle_btn_interaction`: press and release of a button by the mouse; with
    Ctrl it stays latched. -/
def handleBtnInteraction (isDown ctrl : Bool) (btn : FrameBit) : App :=
  let wasHeld := decide (x.heldBtn = some btn)
  if isDown && !wasHeld && !x.latchedBtns.contains btn then { x with heldBtn := some btn }
  else if !isDown && wasHeld then
    { x with
      heldBtn := none, latchedBtns := if ctrl then x.latchedBtns.insert btn else x.latchedBtns }
  else x

/-- `clear_lcd_touch`. -/
def clearLcdTouch : App := { x with lcdTouch := none, lcdTouchCtrlLatched := false }

/-- `handle_lcd_press`: the mouse puts the touch where it is, unless a touch is latched. -/
def handleLcdPress (cap : LcdTouchCapture P) : App :=
  if x.lcdTouchCtrlLatched then if cap.ctrl then x else x.clearLcdTouch
  else
    { x with
      lcdTouch := (cap.interactPos.map (D.touchUnits x.model)).or x.lcdTouch
      lcdTouchCtrlLatched := cap.ctrl || x.lcdTouchCtrlLatched }

/-- The wheel turns the rotary selector, and the main LCD's clicks press it
    until the pointer moves. -/
def noteNav (cap : LcdTouchCapture P) : App :=
  let x := if cap.hovered && cap.scrolled then { x with lcdNavMode := true } else x
  if cap.hovered && cap.pointerMoved then { x with lcdNavMode := false } else x

/-- `apply_lcd_touch`: a touch from the control API owns the coordinate. -/
def applyLcdTouch (cap : LcdTouchCapture P) : App :=
  if x.api.touch then x
  else
    let x := x.noteNav cap
    if x.lcdNavMode then
      let x := (x.model.button .rotaryPress).elim x (x.handleBtnInteraction cap.isDown cap.ctrl)
      (x.model.button .back).elim x (x.handleBtnInteraction cap.rightDown false)
    else if cap.isDown then x.handleLcdPress D cap
    else if x.lcdTouchCtrlLatched then if cap.ctrl then x else x.clearLcdTouch
    else if x.lcdTouch.isSome then x.clearLcdTouch
    else x

end App

/-! ## The table of holds -/

namespace ControlHost

variable (c : ControlHost)

/-- A hold is neither a connection's nor timed any more. -/
def forget (hold : Hold) : ControlHost :=
  { c with holds := c.holds.filter (·.2 ≠ hold), timed := c.timed.filter (·.2 ≠ hold) }

/-- `track`: the hold replaces any earlier one of the same input. -/
def track (now conn : Nat) (hold : Hold) : Option Nat → ControlHost
  | some t => { c.forget hold with timed := (c.forget hold).timed ++ [(now + t, hold)] }
  | none => { c.forget hold with holds := (c.forget hold).holds ++ [(conn, hold)] }

/-- What is held, with and without a time limit. -/
def tracked : List Hold := c.holds.map Prod.snd ++ c.timed.map Prod.snd

/-- What `conn` holds without a time limit. -/
def heldBy (conn : Nat) : List Hold := (c.holds.filter (·.1 = conn)).map Prod.snd

/-- What is due. -/
def due (now : Nat) : List Hold := (c.timed.filter (·.1 ≤ now)).map Prod.snd

end ControlHost

/-! ## A pass of the window -/

namespace State

variable (s : State)

/-- `apply`: a touch is put on the panel with its coordinate. -/
def apply (on : Bool) : Hold → State
  | .btn bit => { s with app := s.app.setApiBtn bit on }
  | .cleared bit => { s with app := s.app.setBitCleared bit on }
  | .touch => if on then s else { s with app := s.app.setApiTouch none }

/-- One hold is dropped from the books and undone in the app. -/
def release (hold : Hold) : State :=
  ({ s with control := s.control.forget hold } : State).apply false hold

/-- Several holds are released, one after the other. -/
def releaseEach (holds : List Hold) : State := holds.foldl release s

/-- The timed holds whose time has come. -/
def releaseDue : State := s.releaseEach (s.control.due s.clock)

/-- `release_conn`: the connection's jog turn, then what it holds without a time limit. -/
def releaseConn (conn : Nat) : State :=
  let s := if s.control.jog = some conn then
      { s with app := s.app.stopApiJog, control := { s.control with jog := none } } else s
  s.releaseEach (s.control.heldBy conn)

/-- Everything that the clients hold. -/
def releaseAll : State := s.releaseEach s.control.tracked

/-- `hold_bit`; an unknown name is refused. -/
def holdBit (conn : Nat) (name : N) (time : Option Nat) (clear : Bool) : State :=
  match D.buttonByName s.app.model name with
  | none => s
  | some bit =>
    let hold := if clear then Hold.cleared bit else Hold.btn bit
    let s := s.apply true hold
    { s with control := s.control.track s.clock conn hold time }

/-- What `release` names.  A bit may be held or cleared, so both are undone. -/
def releaseTarget (conn : Nat) : Target N → State
  | .all => s.releaseConn conn
  | .touch => s.release .touch
  | .bit name =>
    match D.buttonByName s.app.model name with
    | none => s
    | some bit => (s.release (.btn bit)).release (.cleared bit)

/-- `start_jog`; a turn under way refuses another. -/
def startJog (conn : Nat) (mv : JogMove) : State :=
  if s.control.jog.isSome then s
  else
    let app := s.app.startApiJog s.clock conn mv
    { s with app, control := if app.api.jog.isSome then { s.control with jog := some conn } else
      s.control }

/-- `on_control`, for the requests that hold something or let go of it. -/
def onControl (conn : Nat) : Command N P → State
  | .press bit hold => s.holdBit D conn bit hold false
  | .clear bit hold => s.holdBit D conn bit hold true
  | .touch at_ hold =>
    let units := D.touchUnits s.app.model at_
    { s with
      app := s.app.setApiTouch (some units), control := s.control.track s.clock conn .touch hold,
      asked := some units }
  | .release target => s.releaseTarget D conn target
  | .jog mv => s.startJog conn mv

/-- One message from the server. -/
def onIncoming : Incoming N P → State
  | .request conn command => s.onControl D conn command
  | .closed conn => s.releaseConn conn

def wait (d : Nat) : State := { s with clock := s.clock + d }

/-- The messages that a pass takes, each after a delay; without a server there are none. -/
def takeEach (msgs : List (Nat × Incoming N P)) : State :=
  if s.control.server then msgs.foldl (fun s m => (s.wait m.1).onIncoming D m.2) s else s

/-- `settle_jog`: a turn that is over is answered. -/
def settleJog : State :=
  let app := s.app.stepApiJog s.clock
  { s with
    app, control := if app.api.jog.isSome then s.control else { s.control with jog := none } }

/-- The menu's toggle is taken: the server may listen again. -/
def noteToggle : State :=
  if s.toggleRequested then
    { s with toggleRequested := false, control := { s.control with bindFailed := false } }
  else s

/-- `follow_dev_mode`; `bindOk` says whether the server can listen. -/
def followDevMode (bindOk : Bool) : State :=
  let s := s.noteToggle
  if s.devMode then
    if s.control.server || s.control.bindFailed then s
    else { s with control := { s.control with server := bindOk, bindFailed := !bindOk } }
  else if s.control.server then { s.releaseAll with control := ControlHost.default }
  else s

/-- What `serve_control` does before it settles what is under way, as far as
    it has taken messages. -/
def served (bindOk : Bool) (msgs : List (Nat × Incoming N P)) : State :=
  (s.followDevMode bindOk).releaseDue.takeEach D msgs

/-- One pass of `serve_control`: the messages, some time, and the turn of the wheel at its end. -/
def serveControl (bindOk : Bool) (msgs : List (Nat × Incoming N P)) (late : Nat) : State :=
  ((s.served D bindOk msgs).wait late).settleJog

end State

/-! ## The window between passes -/

/-- What may happen between two looks at the window. -/
inductive Event (N P : Type) where
  /-- `serve_control`: whether the server can listen, the messages that are there, and how long the
      rest of it takes. -/
  | pass (bindOk : Bool) (msgs : List (Nat × Incoming N P)) (late : Nat)
  | idle (d : Nat)
  /-- Developer Mode in the menu. -/
  | toggle
  /-- `stop_emulation` and `show_picker_window`; showing the panel again changes none of this. -/
  | leavePanel
  /-- `launch`, unless the model runs already. -/
  | switchModel (model : Model)
  /-- A button of the slate, the Ctrl key let go of, and the pointer over the main LCD. -/
  | button (isDown ctrl : Bool) (btn : FrameBit)
  | unlatch
  | pointer (cap : LcdTouchCapture P)

/-- The window with its control host. -/
def window : Machine State (Event N P) where
  step s
    | .pass bindOk msgs late => some (s.serveControl D bindOk msgs late)
    | .idle d => some (s.wait d)
    | .toggle => some { s with devMode := !s.devMode, toggleRequested := true }
    | .leavePanel => some { s with app := s.app.onLeavePanel }
    | .switchModel model => some { s with app := s.app.switchModel model }
    | .button isDown ctrl btn => some { s with app := s.app.handleBtnInteraction isDown ctrl btn }
    | .unlatch => some { s with app := { s.app with latchedBtns := [] } }
    | .pointer cap => some { s with app := s.app.applyLcdTouch D cap }

/-- A window that has been opened, with Developer Mode as it was saved. -/
def opened (model : Model) (devMode : Bool) : State :=
  ⟨⟨model, [], ApiInputs.default, none, false, false, none, []⟩, ControlHost.default, devMode,
    false, 0, none⟩

/-! ## Panel and table -/

/-- The panel has what the table has, and each input is there once. -/
structure Agrees (s : State) : Prop where
  nodup : s.app.api.btns.Nodup
  btns : ∀ bit, bit ∈ s.app.api.btns ↔ .btn bit ∈ s.control.tracked
  nodup_cleared : s.app.clearedBits.Nodup
  cleared : ∀ bit, bit ∈ s.app.clearedBits ↔ .cleared bit ∈ s.control.tracked
  touch : s.app.api.touch = true ↔ .touch ∈ s.control.tracked
  coordinate : s.app.api.touch = true → s.app.lcdTouch = s.asked ∧ s.asked.isSome
  once : s.control.tracked.Nodup

/-- What closing `conn` does in `s`: its holds without a time limit and its jog turn are gone, and
    the rest is as before, on the panel too. -/
structure Closes (conn : Nat) (s : State) : Prop where
  holds : (s.releaseConn conn).control.holds = s.control.holds.filter (·.1 ≠ conn)
  timed : (s.releaseConn conn).control.timed = s.control.timed
  turn : ∀ j, (s.releaseConn conn).app.api.jog = some j → j.conn ≠ conn
  other_turn : ∀ j, s.app.api.jog = some j → j.conn ≠ conn →
    (s.releaseConn conn).app.api.jog = some j
  panel : Agrees (s.releaseConn conn)
  touched : .touch ∈ (s.releaseConn conn).control.tracked →
    (s.releaseConn conn).app.lcdTouch = s.app.lcdTouch ∧ .touch ∈ s.control.tracked

/-- Nothing that the API held is on the panel. -/
structure Released (s : State) : Prop where
  untracked : s.control.tracked = []
  btns : s.app.api.btns = []
  cleared : s.app.clearedBits = []
  touch : s.app.api.touch = false
  jog : s.app.api.jog = none

/-- The panel and the table agree; so they do when a connection closes, at whatever message of the
    next pass; and without a server nothing is held. -/
structure Kept (s : State) : Prop where
  agrees : Agrees s
  closes : ∀ bindOk (msgs : List (Nat × Incoming N P)) conn,
    (s.served D bindOk msgs).control.server = true → Closes conn (s.served D bindOk msgs)
  stopped : s.control.server = false → Released s

/-- What parts the two sides finds nothing to part: the deck changes while nothing is held,
    the panel is left while the API does not touch it, and no jog turn outlasts the pass in
    which the server stops. -/
def Whole (s : State) : Event N P → Prop
  | .switchModel _ => s.control.tracked = []
  | .leavePanel => s.app.api.touch = false
  | .pass _ _ late => s.devMode = false → s.control.server = true → ∀ j ∈ s.app.api.jog,
      j.ends ≤ s.clock + late
  | _ => True

/-! ## The panel, hold by hold -/

/-- Whether a hold is on the panel. -/
def App.has (x : App) : Hold → Prop
  | .btn bit => bit ∈ x.api.btns
  | .cleared bit => bit ∈ x.clearedBits
  | .touch => x.api.touch = true

/-- Where books and app agree, the app has exactly the holds that are tracked. -/
theorem Agrees.has {s : State} (h : Agrees s) (k : Hold) : s.app.has k ↔ k ∈ s.control.tracked :=
  match k with
  | .btn bit => h.btns bit
  | .cleared bit => h.cleared bit
  | .touch => h.touch

/-- And it is enough to show that for every hold. -/
theorem Agrees.of_has {s : State} (hn : s.app.api.btns.Nodup) (hc : s.app.clearedBits.Nodup)
    (hhas : ∀ k, s.app.has k ↔ k ∈ s.control.tracked)
    (hat : s.app.api.touch = true → s.app.lcdTouch = s.asked ∧ s.asked.isSome)
    (honce : s.control.tracked.Nodup) :
    Agrees s :=
  ⟨hn, fun bit => hhas (.btn bit), hc, fun bit => hhas (.cleared bit), hhas .touch, hat, honce⟩

/-- The members of a list in which one bit has been set or cleared. -/
theorem mem_set {l : List FrameBit} {bit b : FrameBit} {on : Bool} :
    b ∈ l.filter (· ≠ bit) ++ (if on then [bit] else []) ↔ (b = bit ∧ on = true) ∨
    (b ∈ l ∧ b ≠ bit) := by
  rw [List.mem_append, List.mem_filter, decide_eq_true_iff]
  constructor
  · rintro (hl | hon)
    · exact Or.inr hl
    · split at hon
      · rename_i hc
        exact Or.inl ⟨List.mem_singleton.mp hon, hc⟩
      · exact absurd hon List.not_mem_nil
  · rintro (⟨rfl, rfl⟩ | hl)
    · exact Or.inr (List.mem_singleton.mpr rfl)
    · exact Or.inl hl

/-- Setting a bit adds it at most once. -/
theorem nodup_set {l : List FrameBit} (h : l.Nodup) (bit : FrameBit) (on : Bool) :
    (l.filter (· ≠ bit) ++ (if on then [bit] else [])).Nodup := by
  have hl : (l.filter (· ≠ bit)).Nodup := h.filter _
  split
  · apply List.Nodup.append hl (List.nodup_singleton bit)
    intro b hb hbit
    obtain rfl := List.mem_singleton.mp hbit
    exact of_decide_eq_true (List.mem_filter.mp hb).2 rfl
  · rw [List.append_nil]
    exact hl

/-! ## Letting go -/

/-- What letting go of `hs` makes of `s`. -/
structure Lets (hs : List Hold) (s t : State) : Prop where
  control : t.control = { s.control with
    holds := s.control.holds.filter (·.2 ∉ hs), timed := s.control.timed.filter (·.2 ∉ hs) }
  has : ∀ k, t.app.has k ↔ s.app.has k ∧ k ∉ hs
  btns : t.app.api.btns.Sublist s.app.api.btns
  cleared : t.app.clearedBits.Sublist s.app.clearedBits
  lcdTouch : .touch ∉ hs → t.app.lcdTouch = s.app.lcdTouch
  jog : t.app.api.jog = s.app.api.jog
  asked : t.asked = s.asked
  clock : t.clock = s.clock

/-- Letting go of nothing changes nothing. -/
theorem Lets.nil (s : State) : Lets [] s s := by
  have hall : ∀ l : List (Nat × Hold), l.filter (·.2 ∉ ([] : List Hold)) = l := by
    intro l
    apply List.filter_eq_self.mpr
    intro e _
    exact decide_eq_true List.not_mem_nil
  refine ⟨?_, fun k => ⟨fun h => ⟨h, List.not_mem_nil⟩, And.left⟩, List.Sublist.refl _,
    List.Sublist.refl _, fun _ => rfl, rfl, rfl, rfl⟩
  rw [hall, hall]

/-- Letting go of some holds and then of others lets go of all of them. -/
theorem Lets.trans {hs ks : List Hold} {s t u : State} (h : Lets hs s t) (h' : Lets ks t u) :
    Lets (hs ++ ks) s u := by
  have hfilter : ∀ l :
      List (Nat × Hold), (l.filter (·.2 ∉ hs)).filter (·.2 ∉ ks) = l.filter (·.2 ∉ hs ++ ks) := by
    intro l
    rw [List.filter_filter]
    congr 1
    funext e
    rw [← Bool.decide_and]
    apply decide_eq_decide.mpr
    rw [List.mem_append, not_or]
    exact And.comm
  constructor
  · rw [h'.control, h.control]
    dsimp only
    rw [hfilter, hfilter]
  · intro k
    rw [h'.has, h.has, List.mem_append, not_or]
    exact and_assoc
  · exact h'.btns.trans h.btns
  · exact h'.cleared.trans h.cleared
  · intro hk
    rw [List.mem_append, not_or] at hk
    rw [h'.lcdTouch hk.2, h.lcdTouch hk.1]
  · rw [h'.jog, h.jog]
  · rw [h'.asked, h.asked]
  · rw [h'.clock, h.clock]

/-- `release` lets go of its hold. -/
theorem release_lets (s : State) (hold : Hold) : Lets [hold] s (s.release hold) := by
  have hcontrol : s.control.forget hold = { s.control with
      holds := s.control.holds.filter (·.2 ∉ [hold]),
      timed := s.control.timed.filter (·.2 ∉ [hold]) } := by
    simp only [ControlHost.forget, List.mem_singleton]
  have hoff : ∀ {l : List FrameBit} {bit : FrameBit},
      (l.filter (· ≠ bit) ++ if false then [bit] else []).Sublist l := by
    intro l bit
    rw [if_neg Bool.false_ne_true, List.append_nil]
    exact List.filter_sublist
  cases hold with
  | btn bit =>
    refine ⟨hcontrol, ?_, hoff, List.Sublist.refl _, fun _ => rfl, rfl, rfl, rfl⟩
    intro k
    cases k with
    | btn b => simp [State.release, State.apply, App.setApiBtn, App.has]
    | cleared b => simp [State.release, State.apply, App.setApiBtn, App.has]
    | touch => simp [State.release, State.apply, App.setApiBtn, App.has]
  | cleared bit =>
    refine ⟨hcontrol, ?_, List.Sublist.refl _, hoff, fun _ => rfl, rfl, rfl, rfl⟩
    intro k
    cases k with
    | btn b => simp [State.release, State.apply, App.setBitCleared, App.has]
    | cleared b => simp [State.release, State.apply, App.setBitCleared, App.has]
    | touch => simp [State.release, State.apply, App.setBitCleared, App.has]
  | touch =>
    refine ⟨hcontrol, ?_, List.Sublist.refl _, List.Sublist.refl _,
      fun h => absurd (List.mem_singleton.mpr rfl) h, rfl, rfl, rfl⟩
    intro k
    cases k with
    | btn b => simp [State.release, State.apply, App.setApiTouch, App.has]
    | cleared b => simp [State.release, State.apply, App.setApiTouch, App.has]
    | touch => simp [State.release, State.apply, App.setApiTouch, App.has]

/-- `release_each` lets go of what it is given. -/
theorem releaseEach_lets (s : State) (hs : List Hold) : Lets hs s (s.releaseEach hs) := by
  induction hs generalizing s with
  | nil => exact Lets.nil s
  | cons hold hs ih => exact (release_lets s hold).trans (ih (s.release hold))

/-- What is tracked afterwards are the other holds. -/
theorem Lets.tracked {hs : List Hold} {s t : State} (h : Lets hs s t) :
    t.control.tracked = s.control.tracked.filter (· ∉ hs) := by
  rw [ControlHost.tracked, ControlHost.tracked, h.control, List.filter_append, List.filter_map,
    List.filter_map]
  rfl

/-- Letting go keeps books and app in agreement: the hold leaves both. -/
theorem Agrees.lets {hs : List Hold} {s t : State} (h : Agrees s) (ht : Lets hs s t) :
    Agrees t := by
  have hmem : ∀ k, k ∈ t.control.tracked ↔ k ∈ s.control.tracked ∧ k ∉ hs := by
    intro k
    rw [ht.tracked, List.mem_filter, decide_eq_true_iff]
  apply Agrees.of_has (h.nodup.sublist ht.btns) (h.nodup_cleared.sublist ht.cleared)
  · intro k
    rw [ht.has, hmem, h.has]
  · intro htouch
    have hs' : s.app.has .touch ∧ Hold.touch ∉ hs := (ht.has .touch).mp htouch
    rw [ht.lcdTouch hs'.2, ht.asked]
    exact h.coordinate hs'.1
  · rw [ht.tracked]
    exact h.once.filter _

/-! ## Holding -/

/-- Tracking a hold puts it in front, and drops its earlier entry. -/
theorem tracked_track (c : ControlHost) (now conn : Nat) (hold : Hold) (time : Option Nat) :
    (c.track now conn hold time).tracked.Perm (hold :: c.tracked.filter (· ≠ hold)) := by
  have hforget : (c.forget hold).tracked = c.tracked.filter (· ≠ hold) := by
    rw [ControlHost.tracked, ControlHost.tracked, List.filter_append, List.filter_map,
      List.filter_map]
    rfl
  rw [← hforget]
  cases time with
  | some t =>
    rw [ControlHost.tracked, ControlHost.tracked, ControlHost.track, List.map_append,
      ← List.append_assoc]
    exact List.perm_append_singleton hold _
  | none =>
    rw [ControlHost.tracked, ControlHost.tracked, ControlHost.track, List.map_append,
      List.append_assoc]
    exact List.perm_middle

/-- What is tracked after `track`: the new hold and the old ones. -/
theorem mem_tracked_track {c : ControlHost} {now conn : Nat} {hold k : Hold} {time : Option Nat} :
    k ∈ (c.track now conn hold time).tracked ↔ k = hold ∨ k ∈ c.tracked := by
  rw [(tracked_track c now conn hold time).mem_iff, List.mem_cons, List.mem_filter,
    decide_eq_true_iff]
  by_cases hk : k = hold
  · exact ⟨fun _ => Or.inl hk, fun _ => Or.inl hk⟩
  · exact or_congr_right ⟨And.left, fun h => ⟨h, hk⟩⟩

/-- No hold is tracked twice. -/
theorem nodup_track {c : ControlHost} (h : c.tracked.Nodup) (now conn : Nat) (hold : Hold)
    (time : Option Nat) :
    (c.track now conn hold time).tracked.Nodup := by
  rw [(tracked_track c now conn hold time).nodup_iff, List.nodup_cons, List.mem_filter]
  refine ⟨?_, h.filter _⟩
  intro hmem
  exact of_decide_eq_true hmem.2 rfl

/-- A hold that is put on the panel and into the table. -/
theorem Agrees.put {s : State} (h : Agrees s) {x : App} {asked : Option (UInt16 × UInt16)}
    {hold : Hold} (hn : x.api.btns.Nodup) (hc : x.clearedBits.Nodup)
    (hhas : ∀ k, x.has k ↔ k = hold ∨ s.app.has k) (hat : x.api.touch = true → x.lcdTouch = asked ∧
      asked.isSome) (conn : Nat) (time : Option Nat) :
    Agrees { s with app := x, control := s.control.track s.clock conn hold time, asked } := by
  apply Agrees.of_has hn hc ?_ hat (nodup_track h.once _ _ _ _)
  intro k
  rw [hhas, mem_tracked_track, h.has]

/-! ## The invariant -/

/-- The two sides agree, a jog turn is that of the request under way, and a server
    that is off has nothing. -/
structure Inv (s : State) : Prop where
  agrees : Agrees s
  owned : ∀ j, s.app.api.jog = some j → s.control.jog = some j.conn
  stopped : s.control.server = false → s.control.tracked = [] ∧ s.control.jog = none

/-- A window that has just opened has nothing to keep. -/
theorem opened_inv (model : Model) (devMode : Bool) : Inv (opened model devMode) := by
  refine ⟨?_, fun _ h => absurd h.symm (Option.some_ne_none _), fun _ => ⟨rfl, rfl⟩⟩
  refine Agrees.of_has List.nodup_nil List.nodup_nil ?_ (fun h => absurd h Bool.false_ne_true)
    List.nodup_nil
  intro k
  cases k with
  | btn bit => exact ⟨fun h => absurd h List.not_mem_nil, fun h => absurd h List.not_mem_nil⟩
  | cleared bit => exact ⟨fun h => absurd h List.not_mem_nil, fun h => absurd h List.not_mem_nil⟩
  | touch => exact ⟨fun h => absurd h Bool.false_ne_true, fun h => absurd h List.not_mem_nil⟩

/-- Letting go keeps the invariant. -/
theorem Inv.lets {hs : List Hold} {s t : State} (h : Inv s) (ht : Lets hs s t) : Inv t := by
  refine ⟨h.agrees.lets ht, ?_, ?_⟩
  · intro j hj
    rw [ht.jog] at hj
    rw [ht.control]
    exact h.owned j hj
  · intro hserver
    rw [ht.control] at hserver
    obtain ⟨htracked, hjog⟩ := h.stopped hserver
    rw [ht.tracked, htracked, ht.control]
    exact ⟨rfl, hjog⟩

/-- The panel's side with nothing held. -/
theorem Agrees.empty {s : State} (h : Agrees s) (hnone : s.control.tracked = []) :
    s.app.api.btns = [] ∧ s.app.clearedBits = [] ∧ s.app.api.touch = false := by
  have hno : ∀ k, ¬ s.app.has k := by
    intro k hk
    rw [h.has, hnone] at hk
    exact List.not_mem_nil hk
  refine ⟨?_, ?_, ?_⟩
  · apply List.eq_nil_iff_forall_not_mem.mpr
    intro bit
    exact hno (.btn bit)
  · apply List.eq_nil_iff_forall_not_mem.mpr
    intro bit
    exact hno (.cleared bit)
  · exact Bool.eq_false_iff.mpr (hno .touch)

/-- Without a server nothing is held. -/
theorem Inv.released {s : State} (h : Inv s) (hserver : s.control.server = false) : Released s := by
  obtain ⟨htracked, hjog⟩ := h.stopped hserver
  obtain ⟨hbtns, hcleared, htouch⟩ := h.agrees.empty htracked
  refine ⟨htracked, hbtns, hcleared, htouch, ?_⟩
  cases hturn : s.app.api.jog with
  | none => rfl
  | some j => exact absurd ((h.owned j hturn).symm.trans hjog) (Option.some_ne_none _)

/-! ## A connection closes -/

/-- `conn`'s jog turn is let go of. -/
def dropTurn (conn : Nat) (s : State) : State :=
  if s.control.jog = some conn then
    { s with app := s.app.stopApiJog, control := { s.control with jog := none } } else s

/-- Dropping a connection's turn of the wheel keeps the invariant. -/
theorem dropTurn_inv {conn : Nat} {s : State} (h : Inv s) : Inv (dropTurn conn s) := by
  unfold dropTurn
  split
  · exact ⟨⟨h.agrees.nodup, h.agrees.btns, h.agrees.nodup_cleared, h.agrees.cleared, h.agrees.touch,
      h.agrees.coordinate, h.agrees.once⟩,
      fun j hj => absurd hj.symm (Option.some_ne_none j), fun hserver =>
        ⟨(h.stopped hserver).1, rfl⟩⟩
  · exact h

/-- It leaves the holds and the server alone. -/
theorem dropTurn_control (conn : Nat) (s : State) :
    (dropTurn conn s).control.holds = s.control.holds ∧
    (dropTurn conn s).control.timed = s.control.timed ∧
    (dropTurn conn s).control.server = s.control.server := by
  unfold dropTurn
  split
  · exact ⟨rfl, rfl, rfl⟩
  · exact ⟨rfl, rfl, rfl⟩

/-- And the touch. -/
theorem dropTurn_lcdTouch (conn : Nat) (s : State) :
    (dropTurn conn s).app.lcdTouch = s.app.lcdTouch := by
  unfold dropTurn
  split
  · rfl
  · rfl

/-- The end of a connection lets go of its holds, once its turn is dropped. -/
theorem releaseConn_lets (conn : Nat) (s : State) :
    Lets (s.control.heldBy conn) (dropTurn conn s) (s.releaseConn conn) := by
  have hheld : s.control.heldBy conn = (dropTurn conn s).control.heldBy conn := by
    rw [ControlHost.heldBy, ControlHost.heldBy, (dropTurn_control conn s).1]
  rw [hheld]
  exact releaseEach_lets (dropTurn conn s) _

/-- An input is held once, so `conn`'s inputs are held by `conn` alone. -/
theorem mem_heldBy {c : ControlHost} (h : c.tracked.Nodup) {conn : Nat} {e : Nat × Hold}
    (he : e ∈ c.holds) :
    e.2 ∈ c.heldBy conn ↔ e.1 = conn := by
  have hinj := List.inj_on_of_nodup_map (List.Nodup.of_append_left h)
  constructor
  · intro hmem
    obtain ⟨e', he', heq⟩ := List.mem_map.mp hmem
    obtain ⟨hin, hconn⟩ := List.mem_filter.mp he'
    have hsame : e' = e := hinj hin he heq
    rw [← hsame]
    exact of_decide_eq_true hconn
  · intro hconn
    exact List.mem_map.mpr ⟨e, List.mem_filter.mpr ⟨he, decide_eq_true hconn⟩, rfl⟩

/-- A timed hold is nobody's: no connection's end releases it. -/
theorem timed_notMem_heldBy {c : ControlHost} (h : c.tracked.Nodup) {conn : Nat} {e : Nat × Hold}
    (he : e ∈ c.timed) :
    e.2 ∉ c.heldBy conn := by
  intro hmem
  obtain ⟨e', he', heq⟩ := List.mem_map.mp hmem
  have hdisjoint := List.disjoint_of_nodup_append h
  exact hdisjoint (List.mem_map.mpr ⟨e', (List.mem_filter.mp he').1, heq⟩)
    (List.mem_map.mpr ⟨e, he, rfl⟩)

/-- The end of a connection keeps the invariant. -/
theorem Inv.releaseConn {s : State} (h : Inv s) (conn : Nat) : Inv (s.releaseConn conn) :=
  (dropTurn_inv h).lets (releaseConn_lets conn s)

/-- It ends what the connection held, and nothing of another one. -/
theorem Inv.closes {s : State} (h : Inv s) (conn : Nat) : Closes conn s := by
  have hlets := releaseConn_lets conn s
  obtain ⟨hholds, htimed, -⟩ := dropTurn_control conn s
  -- field by field, from what the release lets go
  constructor
  · rw [hlets.control]
    dsimp only
    rw [hholds]
    apply List.filter_congr
    -- a hold is the connection's when the connection is what holds its target
    intro e he
    apply decide_eq_decide.mpr
    exact not_congr (mem_heldBy h.agrees.once he)
  · rw [hlets.control]
    dsimp only
    rw [htimed]
    apply List.filter_eq_self.mpr
    intro e he
    exact decide_eq_true (timed_notMem_heldBy h.agrees.once he)
  · intro j hj
    -- the turn is dropped when it is its own
    rw [hlets.jog, dropTurn] at hj
    split at hj
    · exact absurd hj.symm (Option.some_ne_none j)
    · rename_i hother
      intro hconn
      apply hother
      rw [h.owned j hj, hconn]
  · intro j hj hconn
    rw [hlets.jog, dropTurn, if_neg]
    · exact hj
    -- a turn of another connection stays
    · intro hjog
      rw [h.owned j hj] at hjog
      exact hconn (Option.some.inj hjog)
  · exact (h.releaseConn conn).agrees
  · intro htouch
    have hmem := ((releaseConn_lets conn s).tracked ▸ htouch)
    obtain ⟨hin, hnot⟩ := List.mem_filter.mp hmem
    rw [hlets.lcdTouch (of_decide_eq_true hnot), dropTurn_lcdTouch]
    refine ⟨rfl, ?_⟩
    rw [ControlHost.tracked, hholds, htimed] at hin
    exact hin

/-! ## The requests -/

/-- The step behind every new hold: the app gets it, the books get it, and nothing else changes. -/
theorem Inv.put {s : State} (h : Inv s) (hserver : s.control.server = true) (x : App)
    {asked : Option (UInt16 × UInt16)} {hold : Hold} (hn : x.api.btns.Nodup)
    (hc : x.clearedBits.Nodup) (hhas : ∀ k, x.has k ↔ k = hold ∨ s.app.has k)
    (hat : x.api.touch = true → x.lcdTouch = asked ∧ asked.isSome)
    (hjog : x.api.jog = s.app.api.jog) (conn : Nat) (time : Option Nat) :
    Inv { s with app := x, control := s.control.track s.clock conn hold time, asked } := by
  have hcontrol : (s.control.track s.clock conn hold time).jog = s.control.jog ∧
      (s.control.track s.clock conn hold time).server = s.control.server := by
    cases time with
    | none => exact ⟨rfl, rfl⟩
    | some t => exact ⟨rfl, rfl⟩
  refine ⟨h.agrees.put hn hc hhas hat conn time, ?_, ?_⟩
  · intro j hj
    dsimp only at hj ⊢
    rw [hcontrol.1]
    exact h.owned j (hjog ▸ hj)
  · intro hoff
    dsimp only at hoff
    rw [hcontrol.2, hserver] at hoff
    exact absurd hoff.symm Bool.false_ne_true

/-- What is held once a client's button is down. -/
theorem has_setApiBtn (x : App) (bit : FrameBit) (k : Hold) :
    (x.setApiBtn bit true).has k ↔ k = .btn bit ∨ x.has k := by
  cases k with
  | btn b =>
    rw [App.has, App.setApiBtn, mem_set, App.has, Hold.btn.injEq]
    by_cases hb : b = bit
    · exact ⟨fun _ => Or.inl hb, fun _ => Or.inl ⟨hb, rfl⟩⟩
    · exact ⟨fun h => Or.inr (h.elim (fun h' => absurd h'.1 hb) And.left),
        fun h => Or.inr ⟨h.resolve_left hb, hb⟩⟩
  | cleared b => exact ⟨Or.inr, fun h => h.resolve_left (fun heq => by cases heq)⟩
  | touch => exact ⟨Or.inr, fun h => h.resolve_left (fun heq => by cases heq)⟩

/-- What is held once a bit is cleared. -/
theorem has_setBitCleared (x : App) (bit : FrameBit) (k : Hold) :
    (x.setBitCleared bit true).has k ↔ k = .cleared bit ∨ x.has k := by
  cases k with
  | btn b => exact ⟨Or.inr, fun h => h.resolve_left (fun heq => by cases heq)⟩
  | cleared b =>
    rw [App.has, App.setBitCleared, mem_set, App.has, Hold.cleared.injEq]
    by_cases hb : b = bit
    · exact ⟨fun _ => Or.inl hb, fun _ => Or.inl ⟨hb, rfl⟩⟩
    · exact ⟨fun h => Or.inr (h.elim (fun h' => absurd h'.1 hb) And.left),
        fun h => Or.inr ⟨h.resolve_left hb, hb⟩⟩
  | touch => exact ⟨Or.inr, fun h => h.resolve_left (fun heq => by cases heq)⟩

/-- What is held once the screen is touched. -/
theorem has_setApiTouch (x : App) (units : UInt16 × UInt16) (k : Hold) :
    (x.setApiTouch (some units)).has k ↔ k = .touch ∨ x.has k := by
  cases k with
  | btn b => exact ⟨Or.inr, fun h => h.resolve_left (fun heq => by cases heq)⟩
  | cleared b => exact ⟨Or.inr, fun h => h.resolve_left (fun heq => by cases heq)⟩
  | touch => exact ⟨fun _ => Or.inl rfl, fun _ => rfl⟩

/-- `hold_bit` keeps the invariant, for a button and for a bit to clear. -/
theorem Inv.holdBit {s : State} (h : Inv s) (hserver : s.control.server = true) (conn : Nat)
    (name : N) (time : Option Nat) (clear : Bool) : Inv (s.holdBit D conn name time clear) := by
  unfold State.holdBit
  split
  · exact h
  · rename_i bit _
    cases clear with
    | true =>
      exact h.put hserver (s.app.setBitCleared bit true) h.agrees.nodup
        (nodup_set h.agrees.nodup_cleared bit true)
        (has_setBitCleared s.app bit) h.agrees.coordinate rfl conn time
    | false =>
      exact h.put hserver (s.app.setApiBtn bit true)
        (nodup_set h.agrees.nodup bit true) h.agrees.nodup_cleared
        (has_setApiBtn s.app bit) h.agrees.coordinate rfl conn time

/-- `release` of a target keeps it. -/
theorem Inv.releaseTarget {s : State} (h : Inv s) (conn : Nat) (target : Target N) :
    Inv (s.releaseTarget D conn target) := by
  cases target with
  | all => exact h.releaseConn conn
  | touch => exact h.lets (release_lets s .touch)
  | bit name =>
    unfold State.releaseTarget
    dsimp only
    split
    · exact h
    · rename_i bit _
      exact h.lets ((release_lets s (.btn bit)).trans (release_lets _ (.cleared bit)))

/-- The jog turn is no part of what the two sides agree on. -/
theorem Agrees.jog {s : State} (h : Agrees s) (turn : Option ApiJog) (conn : Option Nat) :
    Agrees { s with app := { s.app with api := { s.app.api with jog := turn } },
                    control := { s.control with jog := conn } } :=
  ⟨h.nodup, h.btns, h.nodup_cleared, h.cleared, h.touch, h.coordinate, h.once⟩

/-- A request that moves the wheel keeps it. -/
theorem Inv.startJog {s : State} (h : Inv s) (hserver : s.control.server = true) (conn : Nat)
    (mv : JogMove) :
    Inv (s.startJog conn mv) := by
  unfold State.startJog
  split
  · exact h
  · cases mv with
    | turn time =>
      refine ⟨h.agrees.jog _ _, ?_, fun hoff => absurd (hoff.symm.trans hserver) Bool.false_ne_true⟩
      intro j hj
      obtain rfl := Option.some.inj hj
      rfl
    | spin =>
      refine ⟨h.agrees.jog none s.control.jog, fun j hj => absurd hj.symm (Option.some_ne_none j),
        ?_⟩
      exact fun hoff => absurd (hoff.symm.trans hserver) Bool.false_ne_true

/-- Every message keeps it. -/
theorem Inv.onIncoming {s : State} (h : Inv s) (hserver : s.control.server = true)
    (m : Incoming N P) :
    Inv (s.onIncoming D m) := by
  cases m with
  | closed conn => exact h.releaseConn conn
  | request conn command =>
    cases command with
    | press bit hold => exact h.holdBit D hserver conn bit hold false
    | clear bit hold => exact h.holdBit D hserver conn bit hold true
    | touch at_ hold =>
      exact h.put hserver (s.app.setApiTouch (some (D.touchUnits s.app.model at_))) h.agrees.nodup
        h.agrees.nodup_cleared
        (has_setApiTouch s.app _) (fun _ => ⟨rfl, rfl⟩) rfl conn hold
    | release target => exact h.releaseTarget D conn target
    | jog mv => exact h.startJog hserver conn mv

/-! ## Passes -/

/-- Letting go does not start or stop the server. -/
theorem Lets.server {hs : List Hold} {s t : State} (h : Lets hs s t) :
    t.control.server = s.control.server := by
  rw [h.control]

/-- No message does. -/
theorem onIncoming_server (s : State) (m : Incoming N P) :
    (s.onIncoming D m).control.server = s.control.server := by
  -- presses and clears differ in the time they take, not in the server
  have hholdBit : ∀ conn name time clear, (s.holdBit D conn name time clear).control.server =
      s.control.server := by
    intro conn name time clear
    unfold State.holdBit
    split
    · rfl
    · cases clear <;> cases time <;> rfl
  have hreleaseConn : ∀ conn, (s.releaseConn conn).control.server = s.control.server := by
    intro conn
    rw [(releaseConn_lets conn s).server, (dropTurn_control conn s).2.2]
  -- a message, by its command
  cases m with
  | closed conn => exact hreleaseConn conn
  | request conn command =>
    cases command with
    | press bit hold => exact hholdBit conn bit hold false
    | clear bit hold => exact hholdBit conn bit hold true
    | touch at_ hold => cases hold <;> rfl
    | release target =>
      cases target with
      | all => exact hreleaseConn conn
      | touch => exact (release_lets s .touch).server
      -- a name that no button has changes nothing
      | bit name =>
        unfold State.onIncoming State.onControl State.releaseTarget
        dsimp only
        split
        · rfl
        · rename_i bit _
          exact ((release_lets s (.btn bit)).trans (release_lets _ (.cleared bit))).server
    | jog mv =>
      -- a turn is begun, or refused
      unfold State.onIncoming State.onControl State.startJog
      dsimp only
      split
      · rfl
      · cases mv <;> rfl

/-- Time alone changes nothing that is held. -/
theorem Inv.wait {s : State} (h : Inv s) (d : Nat) : Inv (s.wait d) :=
  ⟨⟨h.agrees.nodup, h.agrees.btns, h.agrees.nodup_cleared, h.agrees.cleared, h.agrees.touch,
    h.agrees.coordinate, h.agrees.once⟩, h.owned, h.stopped⟩

/-- The messages of a pass, one after the other, by induction on their list. -/
theorem Inv.takeEach {s : State} (h : Inv s) (msgs : List (Nat × Incoming N P)) :
    Inv (s.takeEach D msgs) := by
  unfold State.takeEach
  split
  · rename_i hserver
    induction msgs generalizing s with
    | nil => exact h
    | cons m msgs ih =>
      apply ih ((h.wait m.1).onIncoming D hserver m.2)
      exact (onIncoming_server D (s.wait m.1) m.2).trans hserver
  · exact h

/-- Agreement is about the app, the tracked holds and the touch only. -/
theorem Agrees.same {s t : State} (h : Agrees s) (happ : t.app = s.app)
    (htracked : t.control.tracked = s.control.tracked) (hasked : t.asked = s.asked) : Agrees t := by
  refine Agrees.of_has ?_ ?_ ?_ ?_ ?_
  · rw [happ]
    exact h.nodup
  · rw [happ]
    exact h.nodup_cleared
  · intro k
    rw [happ, htracked]
    exact h.has k
  · rw [happ, hasked]
    exact h.coordinate
  · rw [htracked]
    exact h.once

/-- The toggle of Developer Mode stops the server and releases everything, or leaves both. -/
theorem Inv.noteToggle {s : State} (h : Inv s) : Inv s.noteToggle := by
  unfold State.noteToggle
  split
  · exact ⟨h.agrees.same rfl rfl rfl, h.owned, h.stopped⟩
  · exact h

/-- What it leaves alone. -/
theorem noteToggle_frame (s : State) : s.noteToggle.app = s.app ∧ s.noteToggle.devMode = s.devMode ∧
    s.noteToggle.control.server = s.control.server ∧ s.noteToggle.clock = s.clock := by
  unfold State.noteToggle
  split
  · exact ⟨rfl, rfl, rfl, rfl⟩
  · exact ⟨rfl, rfl, rfl, rfl⟩

/-- Where it does not stop the server, `follow_dev_mode` changes nothing that is held. -/
theorem Inv.followDevMode {s : State} (h : Inv s) (bindOk : Bool)
    (hstay : s.devMode = false → s.control.server = false) : Inv (s.followDevMode bindOk) := by
  obtain ⟨-, hdev, hserver, -⟩ := noteToggle_frame s
  unfold State.followDevMode
  dsimp only
  split
  · split
    · exact h.noteToggle
    · rename_i hoff
      rw [Bool.or_eq_true, not_or, Bool.not_eq_true] at hoff
      refine ⟨h.noteToggle.agrees.same rfl rfl rfl, h.noteToggle.owned, ?_⟩
      exact fun _ => h.noteToggle.stopped hoff.1
  · rename_i hmode
    rw [hdev, Bool.not_eq_true] at hmode
    rw [if_neg]
    · exact h.noteToggle
    · rw [hserver, hstay hmode]
      exact Bool.false_ne_true

/-- Where it stops the server, nothing is held, and a jog turn under way goes on. -/
theorem Inv.follow_off {s : State} (h : Inv s) (bindOk : Bool) (hdev : s.devMode = false)
    (hserver : s.control.server = true) :
    Agrees (s.followDevMode bindOk) ∧ (s.followDevMode bindOk).control = ControlHost.default ∧
    (s.followDevMode bindOk).app.api.jog = s.app.api.jog ∧
    (s.followDevMode bindOk).clock = s.clock := by
  obtain ⟨happ, hmode, hon, hclock⟩ := noteToggle_frame s
  have hlets := releaseEach_lets s.noteToggle s.noteToggle.control.tracked
  have heq : s.followDevMode bindOk =
      { s.noteToggle.releaseAll with control := ControlHost.default } := by
    unfold State.followDevMode
    dsimp only
    rw [if_neg, if_pos]
    · rw [hon, hserver]
    · rw [hmode, hdev]
      exact Bool.false_ne_true
  rw [heq]
  have hagrees : Agrees s.noteToggle.releaseAll := h.noteToggle.agrees.lets hlets
  have hnone : s.noteToggle.releaseAll.control.tracked = [] := by
    rw [State.releaseAll, hlets.tracked]
    apply List.filter_eq_nil_iff.mpr
    intro k hk hnot
    exact of_decide_eq_true hnot hk
  refine ⟨hagrees.same rfl hnone.symm rfl, rfl, ?_, ?_⟩
  · rw [← happ]
    exact hlets.jog
  · rw [← hclock]
    exact hlets.clock

/-- The part of a pass up to the wheel keeps the invariant. -/
theorem Inv.served {s : State} (h : Inv s) (bindOk : Bool) (msgs : List (Nat × Incoming N P))
    (hstay : s.devMode = false → s.control.server = false) : Inv (s.served D bindOk msgs) :=
  ((h.followDevMode bindOk hstay).lets (releaseEach_lets _ _)).takeEach D msgs

/-- Once the server has stopped, a pass takes nothing. -/
theorem Inv.served_off {s : State} (h : Inv s) (bindOk : Bool) (msgs : List (Nat × Incoming N P))
    (hdev : s.devMode = false) (hserver : s.control.server = true) :
    s.served D bindOk msgs = s.followDevMode bindOk := by
  obtain ⟨-, hcontrol, -, -⟩ := h.follow_off bindOk hdev hserver
  have hdue : (s.followDevMode bindOk).releaseDue = s.followDevMode bindOk := by
    rw [State.releaseDue, hcontrol]
    rfl
  rw [State.served, hdue, State.takeEach, hcontrol]
  rfl

/-- So does the wheel. -/
theorem Inv.settleJog {s : State} (h : Inv s) : Inv s.settleJog := by
  unfold State.settleJog App.stepApiJog
  dsimp only
  split
  · refine ⟨h.agrees.jog none none, fun j hj => absurd hj.symm (Option.some_ne_none j), ?_⟩
    exact fun hoff => ⟨(h.stopped hoff).1, rfl⟩
  · split
    · exact h
    · rename_i hnone
      refine ⟨h.agrees.jog s.app.api.jog none, ?_, fun hoff => ⟨(h.stopped hoff).1, rfl⟩⟩
      intro j hj
      exact absurd (Option.isSome_of_eq_some hj) hnone

/-- A pass without a server to serve for: the turn goes on, unless it is over by then. -/
theorem settleJog_off {t : State} (h : Agrees t) (hcontrol : t.control = ControlHost.default) :
    Agrees t.settleJog ∧ t.settleJog.control = ControlHost.default ∧
    (t.settleJog.app.api.jog = none ↔ ∀ j ∈ t.app.api.jog, j.ends ≤ t.clock) := by
  have hjog : ({ t.control with jog := none } : ControlHost) = t.control := by
    rw [hcontrol]
    rfl
  unfold State.settleJog App.stepApiJog
  dsimp only
  rw [hjog, ite_self]
  split
  · rename_i hover
    refine ⟨(h.jog none t.control.jog).same rfl rfl rfl, hcontrol, fun _ j hj => ?_, fun _ => rfl⟩
    rw [Option.mem_def.mp hj, Option.any_some] at hover
    exact of_decide_eq_true hover
  · rename_i hgoes
    refine ⟨h.same rfl rfl rfl, hcontrol, fun hnone j hj => ?_, fun hall => ?_⟩
    · exact absurd (hnone.symm.trans (Option.mem_def.mp hj)).symm (Option.some_ne_none j)
    · cases hturn : t.app.api.jog with
      | none => rfl
      | some j =>
        rw [hturn, Option.any_some] at hgoes
        exact absurd (decide_eq_true (hall j hturn)) hgoes

/-- The pass that stops the server. -/
theorem Inv.pass_off {s : State} (h : Inv s) (bindOk : Bool) (msgs : List (Nat × Incoming N P))
    (late : Nat) (hdev : s.devMode = false) (hserver : s.control.server = true) :
    Agrees (s.serveControl D bindOk msgs late) ∧
    (s.serveControl D bindOk msgs late).control = ControlHost.default ∧
    ((s.serveControl D bindOk msgs late).app.api.jog = none ↔ ∀ j ∈ s.app.api.jog,
      j.ends ≤ s.clock + late) := by
  obtain ⟨hagrees, hcontrol, hjog, hclock⟩ := h.follow_off bindOk hdev hserver
  have hsettled :=
    settleJog_off (t := (s.followDevMode bindOk).wait late) (hagrees.same rfl rfl rfl) hcontrol
  rw [State.serveControl, h.served_off D bindOk msgs hdev hserver]
  refine ⟨hsettled.1, hsettled.2.1, ?_⟩
  rw [hsettled.2.2, ← hjog, ← hclock]
  exact Iff.rfl

/-! ## The panel's own inputs -/

/-- What the API holds is the same in both, apart from its coordinate. -/
def App.Same (x y : App) : Prop := y.api = x.api ∧ y.clearedBits = x.clearedBits

/-- Two steps that keep the clients' inputs keep them together. -/
theorem App.Same.trans {x y z : App} (h : x.Same y) (h' : y.Same z) : x.Same z :=
  ⟨h'.1.trans h.1, h'.2.trans h.2⟩

/-- The mouse keeps the invariant: it does not reach the clients' inputs, and
    it leaves their touch. -/
theorem Inv.input {s : State} (h : Inv s) {x : App} (hsame : s.app.Same x)
    (hat : s.app.api.touch = true → x.lcdTouch = s.app.lcdTouch) : Inv { s with app := x } := by
  obtain ⟨hapi, hcleared⟩ := hsame
  refine ⟨?_, ?_, h.stopped⟩
  · refine Agrees.of_has ?_ ?_ ?_ ?_ h.agrees.once
    · rw [hapi]
      exact h.agrees.nodup
    · rw [hcleared]
      exact h.agrees.nodup_cleared
    · intro k
      rw [← h.agrees.has k]
      cases k with
      | btn bit => rw [App.has, hapi, App.has]
      | cleared bit => rw [App.has, hcleared, App.has]
      | touch => rw [App.has, hapi, App.has]
    · intro htouch
      rw [hapi] at htouch
      rw [hat htouch]
      exact h.agrees.coordinate htouch
  · intro j hj
    rw [hapi] at hj
    exact h.owned j hj

/-- A button of the mouse is no client's. -/
theorem handleBtnInteraction_same (x : App) (isDown ctrl : Bool) (btn : FrameBit) :
    x.Same (x.handleBtnInteraction isDown ctrl btn) ∧
    (x.handleBtnInteraction isDown ctrl btn).lcdTouch = x.lcdTouch := by
  unfold App.handleBtnInteraction
  dsimp only
  split
  · exact ⟨⟨rfl, rfl⟩, rfl⟩
  · split
    · exact ⟨⟨rfl, rfl⟩, rfl⟩
    · exact ⟨⟨rfl, rfl⟩, rfl⟩

/-- A button of the slate, where the player has it. -/
theorem button_same (x : App) (bit : Option FrameBit) (isDown ctrl : Bool) :
    x.Same (bit.elim x (x.handleBtnInteraction isDown ctrl)) := by
  cases bit with
  | none => exact ⟨rfl, rfl⟩
  | some b => exact (handleBtnInteraction_same x isDown ctrl b).1

/-- Nor is anything that leaving the panel drops. -/
theorem onLeavePanel_same (x : App) : x.Same x.onLeavePanel := by
  unfold App.onLeavePanel
  split
  · exact ⟨rfl, rfl⟩
  · exact ⟨rfl, rfl⟩

/-- Nor a press on the screen. -/
theorem handleLcdPress_same (x : App) (cap : LcdTouchCapture P) :
    x.Same (x.handleLcdPress D cap) := by
  unfold App.handleLcdPress
  split
  · split
    · exact ⟨rfl, rfl⟩
    · exact ⟨rfl, rfl⟩
  · exact ⟨rfl, rfl⟩

/-- Nor the note of where it began. -/
theorem noteNav_same (x : App) (cap : LcdTouchCapture P) : x.Same (x.noteNav cap) := by
  unfold App.noteNav
  dsimp only
  split
  · split
    · exact ⟨rfl, rfl⟩
    · exact ⟨rfl, rfl⟩
  · split
    · exact ⟨rfl, rfl⟩
    · exact ⟨rfl, rfl⟩

/-- Nor the whole handling of the touch. -/
theorem applyLcdTouch_same (x : App) (cap : LcdTouchCapture P) :
    x.Same (x.applyLcdTouch D cap) := by
  unfold App.applyLcdTouch
  dsimp only
  split
  · exact ⟨rfl, rfl⟩
  · apply (noteNav_same x cap).trans
    generalize x.noteNav cap = y
    split
    · exact (button_same y _ _ _).trans (button_same _ _ _ _)
    · split
      · exact handleLcdPress_same D y cap
      · split
        · split
          · exact ⟨rfl, rfl⟩
          · exact ⟨rfl, rfl⟩
        · split
          · exact ⟨rfl, rfl⟩
          · exact ⟨rfl, rfl⟩

/-- A player that starts with nothing held. -/
theorem Inv.switchModel {s : State} (h : Inv s) (hnone : s.control.tracked = []) (model : Model) :
    Inv { s with app := s.app.switchModel model } := by
  refine ⟨?_, fun j hj => absurd hj.symm (Option.some_ne_none j), h.stopped⟩
  refine Agrees.of_has List.nodup_nil List.nodup_nil ?_
    (fun htouch => absurd htouch Bool.false_ne_true) h.agrees.once
  intro k
  dsimp only
  rw [hnone]
  cases k with
  | btn bit => exact ⟨fun hk => absurd hk List.not_mem_nil, fun hk => absurd hk List.not_mem_nil⟩
  | cleared bit =>
      exact ⟨fun hk => absurd hk List.not_mem_nil, fun hk => absurd hk List.not_mem_nil⟩
  | touch => exact ⟨fun hk => absurd hk Bool.false_ne_true, fun hk => absurd hk List.not_mem_nil⟩

/-! ## Every step -/

/-- **Every step keeps the invariant**, as long as the pass is whole. -/
theorem Inv.step {s t : State} {e : Event N P} (h : Inv s) (he : Whole s e)
    (hs : (window D).step s e = some t) :
    Inv t := by
  cases e with
  | pass bindOk msgs late =>
    obtain rfl := Option.some.inj hs
    -- the pass that finds Developer Mode switched off, or any other
    by_cases hoff : s.devMode = false ∧ s.control.server = true
    · obtain ⟨hagrees, hcontrol, hjog⟩ := h.pass_off D bindOk msgs late hoff.1 hoff.2
      refine ⟨hagrees, ?_, ?_⟩
      · intro j hj
        exact absurd (hj.symm.trans (hjog.mpr (he hoff.1 hoff.2))) (Option.some_ne_none j)
      · rw [hcontrol]
        exact fun _ => ⟨rfl, rfl⟩
    -- the server is stopped, or the mode is on
    · have hstay : s.devMode = false → s.control.server = false := by
        intro hdev
        exact Bool.eq_false_iff.mpr (fun hserver => hoff ⟨hdev, hserver⟩)
      exact ((h.served D bindOk msgs hstay).wait late).settleJog
  | idle d =>
    obtain rfl := Option.some.inj hs
    exact h.wait d
  | toggle =>
    obtain rfl := Option.some.inj hs
    exact ⟨h.agrees.same rfl rfl rfl, h.owned, h.stopped⟩
  -- the panel left: by the condition nothing is touched
  | leavePanel =>
    obtain rfl := Option.some.inj hs
    exact h.input (onLeavePanel_same s.app)
      (fun htouch => absurd (he.symm.trans htouch) Bool.false_ne_true)
  -- another model: by the condition nothing is held
  | switchModel model =>
    obtain rfl := Option.some.inj hs
    exact h.switchModel he model
  | button isDown ctrl btn =>
    obtain rfl := Option.some.inj hs
    obtain ⟨hsame, hat⟩ := handleBtnInteraction_same s.app isDown ctrl btn
    exact h.input hsame (fun _ => hat)
  | unlatch =>
    obtain rfl := Option.some.inj hs
    exact h.input (x := { s.app with latchedBtns := [] }) ⟨rfl, rfl⟩ (fun _ => rfl)
  -- the pointer's touch is the app's own
  | pointer cap =>
    obtain rfl := Option.some.inj hs
    refine h.input (applyLcdTouch_same D s.app cap) (fun htouch => ?_)
    rw [App.applyLcdTouch, if_pos htouch]

/-- What the invariant says in the terms of `Kept`. -/
theorem Inv.kept {s : State} (h : Inv s) : Kept D s := by
  refine ⟨h.agrees, ?_, h.released⟩
  intro bindOk msgs conn hserver
  apply Inv.closes
  apply h.served D bindOk msgs
  intro hdev
  apply Bool.eq_false_iff.mpr
  intro hon
  rw [h.served_off D bindOk msgs hdev hon, (h.follow_off bindOk hdev hon).2.1] at hserver
  exact Bool.false_ne_true hserver

/-- Where the two sides are parted, they do not agree any more. -/
theorem Inv.parted {s t : State} {e : Event N P} (h : Inv s) (hs : (window D).step s e = some t)
    (ht : Kept D t) :
    Whole s e := by
  cases e with
  | pass bindOk msgs late =>
    obtain rfl := Option.some.inj hs
    -- the pass that stops the server has ended every turn
    intro hdev hserver
    obtain ⟨-, hcontrol, hjog⟩ := h.pass_off D bindOk msgs late hdev hserver
    apply hjog.mp
    apply (ht.stopped _).jog
    rw [hcontrol]
    rfl
  | leavePanel =>
    obtain rfl := Option.some.inj hs
    apply Bool.eq_false_iff.mpr
    -- the touch is tracked still, and the panel has dropped it
    intro htouch
    obtain ⟨hat, hsome⟩ := h.agrees.coordinate htouch
    have hleft : s.app.onLeavePanel.lcdTouch = none := by
      rw [App.onLeavePanel, if_pos]
      rw [hat, hsome, Bool.or_true]
    have hafter := ht.agrees.coordinate
        (show s.app.onLeavePanel.api.touch = true by rw [(onLeavePanel_same s.app).1, htouch])
    rw [← hafter.1, hleft] at hafter
    exact Bool.false_ne_true hafter.2
  | switchModel model =>
    obtain rfl := Option.some.inj hs
    -- the new model's panel holds nothing, so nothing may be tracked
    apply List.eq_nil_iff_forall_not_mem.mpr
    intro k hk
    have hpanel := (ht.agrees.has k).mpr hk
    cases k with
    | btn bit => exact List.not_mem_nil hpanel
    | cleared bit => exact List.not_mem_nil hpanel
    | touch => exact Bool.false_ne_true hpanel
  | idle d => exact True.intro
  | toggle => exact True.intro
  | button isDown ctrl btn => exact True.intro
  | unlatch => exact True.intro
  | pointer cap => exact True.intro

/-- **The panel has what the host tracks**, as long as nothing parts the two; and a further step
    keeps it so exactly if it does not part them. -/
theorem panel_has_what_is_tracked {model : Model} {devMode : Bool} {s : State}
    (h : (window D).Reach Whole (opened model devMode) s) :
    Kept D s ∧ ∀ e t, (window D).step s e = some t → (Kept D t ↔ Whole s e) := by
  have hinv : Inv s :=
    Reach.inv (I := Inv) (opened_inv model devMode) (fun _ _ _ hi hg hs => hi.step D hg hs) h
  refine ⟨hinv.kept D, ?_⟩
  intro e t hs
  constructor
  · exact hinv.parted D hs
  · exact fun he => (hinv.step D he hs).kept D

/-! ## A window -/

/-- The players' buttons by what they are, and the main LCD in thousandths. -/
def players : Deck Btn (Nat × Nat) where
  buttonByName := Model.button
  touchUnits
    | .cdj3k, at_ => (.ofNat (1000 - min at_.1 1000), .ofNat (min at_.2 1000))
    | .cdj3kx, at_ =>
        (.ofNat (min at_.1 1000 * 1279 / 1000) ||| 0x8000, .ofNat (min at_.2 1000 * 799 / 1000))
    | .cdj1500x, at_ =>
        (.ofNat (min at_.1 1000 * 1279 / 1000) ||| 0x8000, .ofNat (min at_.2 1000 * 799 / 1000))

instance (s : State) (e : Event N P) : Decidable (Whole s e) := by
  unfold Whole
  split <;> infer_instance

/-- A button held, a bit cleared for a while and a touch, a turn that is over before the server
    stops, and another player once nothing is held. -/
def session : List (Event Btn (Nat × Nat)) :=
  [.toggle,
   .pass true [(0, .request 1 (.press .play none)), (5, .request 2 (.clear .cue (some 100))),
     (1, .request 1 (.touch (250, 500) none)), (0, .request 2 (.jog (.turn 40)))] 1,
   .pointer ⟨true, false, true, true, false, false, some (10, 10)⟩, .idle 30,
   .pass true [(2, .closed 1)] 0, .leavePanel,
   .idle 100, .toggle, .pass false [] 3, .switchModel .cdj3kx]

/-- A session on a CDJ-3000X: holds are made, and a step is whole exactly when it keeps them. -/
theorem session_kept : ∃ s,
    (Kept players s ∧ ∀ e t, (window players).step s e = some t → (Kept players t ↔ Whole s e)) ∧
    s.app.model = .cdj3kx := by
  obtain ⟨s, hr, hs⟩ :=
    Reach.of_run_any (M := window players) (G := Whole) (s := opened .cdj3k false)
    (p := fun s => decide (s.app.model = .cdj3kx)) session (by decide)
  exact ⟨s, panel_has_what_is_tracked players hr, of_decide_eq_true hs⟩

/-- A turn of ten seconds is asked for, and a second later Developer Mode is turned off. -/
def stoppedMidTurn : List (Event Btn (Nat × Nat)) :=
  [.toggle, .pass true [(0, .request 1 (.jog (.turn 10000)))] 0, .idle 1000, .toggle,
    .pass true [] 0]

/-- **The jog turn goes on** after the server has let go of everything else. -/
theorem stopped_server_leaves_the_turn :
    ¬ ∀ s, (window players).Reach Machine.Free (opened .cdj3k false) s → Kept players s := by
  intro hall
  obtain ⟨s, hr, hs⟩ :=
    Reach.of_run_any (M := window players) (G := Machine.Free) (s := opened .cdj3k false)
    (p := fun s => decide (s.control.server = false ∧ s.app.api.jog ≠ none)) stoppedMidTurn
      (by decide)
  obtain ⟨hserver, hjog⟩ := of_decide_eq_true hs
  exact hjog ((hall s hr).stopped hserver).jog

end CdjEmu.Holds
