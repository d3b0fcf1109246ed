/-
  WAITING FOR THE BOOT — `booted` after a restart that was asked for, until the new run drives the
  panel.

  Three threads look at the same few flags.  The window answers control requests and, once a pass,
  follows the restart (`follow_restart`); the worker takes the request, stops QEMU and starts it
  again; the control stream's thread connects to QEMU's socket, reads LED frames, and notes when one
  of them has a lamp lit.  `booted` is that note, while QEMU runs and no restart is on its way.

  `follow_restart` takes three signs for the old run's end: QEMU is down, it is respawning, or the
  panel has lost its driver.  An old run that has not driven the panel yet gives the last sign from
  the start.  Where the flag is cleared only after the old runs have ended, `booted` is right
  (`Signs.Inv`): from there on every run that the stream can be connected to was started after the
  request, and the note falls with the connection.

  What is left out of a pass is `follow_dev_mode`: where it stops the server it puts a new
  `ControlHost` in place of the old one, whose `restarting` is false, and drops the waits with it.

  QEMUs are numbered as they start.  `asked`, `lit` and `answers` are read by no step: how many had
  been started when the latest request was answered, the latest one that a frame with a lamp lit was
  read from, and both of them for every `wait boot` that was answered with ok.
-/
import CdjEmu.Lib.Machine

namespace CdjEmu.Runtime.WaitBoot

open Machine

/-- Where the control stream's thread is. -/
inductive Stream where
  /-- In `wait_until_running`. -/
  | waiting
  /-- It has seen a QEMU that runs. -/
  | ready
  /-- In `read_loop`, connected to the QEMU of that number. -/
  | on (run : Nat)
  deriving DecidableEq

/-- What `booted` goes by, the QEMUs, and what has been asked and read. -/
structure Signs where
  /-- `qemu_running`. -/
  running : Bool
  /-- `ControlHost::restarting`. -/
  restarting : Bool
  stream : Stream
  /-- `CtrlStream::driven`. -/
  driven : Bool
  /-- How many QEMUs have been started, and which of them are alive. -/
  runs : Nat
  alive : List Nat
  asked : Nat
  lit : Nat
  answers : List (Nat × Nat)

/-- Why QEMU starts; a restart knows the network selection that its tick has drained. -/
inductive Cause where
  | launch
  | guestExit
  | restart (selected : Nat)
  | network
  deriving DecidableEq

/-- What the worker stops QEMU for. -/
inductive Stop where
  | leave
  | guestExit
  | restart (selected : Nat)
  | network
  deriving DecidableEq

/-- Where the worker is. -/
inductive Place where
  | gone
  /-- A tick starts here. -/
  | top
  /-- `stop_instance` waits for QEMU's end. -/
  | stopping (k : Stop)
  | stopped (k : Stop)
  /-- `reap_guest` is over. -/
  | reaped
  | drain
  | restart (pending : Bool) (selected : Nat)
  | network (selected : Nat)
  | spawning (c : Cause)
  | connecting (run : Nat) (c : Cause)
  /-- `spawn` has returned: the menu has still to be told. -/
  | report (c : Cause) (ok : Bool)
  /-- `respawn` has still to clear `qemu_respawning`. -/
  | respawned (c : Cause)
  deriving DecidableEq

/-- What follows a start of QEMU in the tick. -/
def Cause.next : Cause → Place
  | .launch => .top
  | .guestExit => .drain
  | .restart selected => .network selected
  | .network => .top

/-- The worker and the window: the signs they share, and where in a tick the worker is. -/
structure State where
  signs : Signs
  /-- `restart_requested`, a toggled setting that needs a restart, and
      `selected_interface` (0: none). -/
  restartRequested : Bool
  toggled : Bool
  selected : Nat
  respawning : Bool
  /-- The `wait boot` requests that are not answered yet. -/
  waits : Nat
  /-- The QEMU that `ctrl.sock` belongs to. -/
  path : Option Nat
  inst : Option Nat
  /-- `prev_net_idx`. -/
  prev : Nat
  place : Place

/-- What restarts QEMU when it is changed. -/
inductive Change where
  | audio
  | serviceMode
  | mods
  | network (selected : Nat)

/-- What either may do next, and what happens to QEMU meanwhile. -/
inductive Event where
  /-- The window: `follow_restart`, `restart_from_api`, `on_setting`, a `wait boot`, and
      `settle_waits`, where a wait's time may be up. -/
  | follow
  | restart
  | setting (x : Change)
  | waitBoot
  | settle (late : Bool)
  /-- The menu's own restart or setting. -/
  | menu
  | change (x : Change)
  /-- The control stream. -/
  | look
  | connect (ok : Bool)
  | read (lit : Bool)
  | ends
  /-- QEMU exits. -/
  | exit (run : Nat)
  | launch
  /-- `exit_requested` leaves the restart to the next launch. -/
  | handOver
  /-- The worker's next step; `ok`: it does not fail, or the worker stays. -/
  | step (ok : Bool)
  /-- `start_qemu`. -/
  | start

namespace Signs

variable (x : Signs)

/-- The app has started and no QEMU is up. -/
def boot : Signs := ⟨false, false, .waiting, false, 0, [], 0, 0, []⟩

/-- What `wait boot` waits for. -/
def booted : Bool := x.running && x.driven && !x.restarting

/-- A request that restarts QEMU is answered. -/
def ask : Signs := { x with restarting := true, asked := x.runs }

/-- `read_loop` with a frame of the QEMU `run`. -/
def read (lit : Bool) (run : Nat) : Signs :=
  if lit then { x with driven := true, lit := max x.lit run } else x

/-- The stream connects, or it ends. -/
def reconnect (stream : Stream) : Signs := { x with stream := stream, driven := false }

end Signs

/-- `worker_is_finished` is false. -/
def Place.working : Place → Bool
  | .gone | .spawning .launch | .connecting _ .launch | .report .launch _ => false
  | _ => true

namespace State

/-- The worker at its start. -/
def boot : State := ⟨.boot, false, false, 0, false, 0, none, none, 0, .gone⟩

variable (s : State)

/-- `follow_restart` sees a sign of the old run's end. -/
def ended : Bool := !s.signs.running || s.respawning || !s.signs.driven

/-- `follow_restart`: the mark is set while a restart is asked for, and cleared once
    the old run has ended. -/
def follow : State :=
  if s.restartRequested then { s with signs := { s.signs with restarting := true } }
  else if s.signs.restarting && s.ended then
    { s with signs := { s.signs with restarting := false } }
  else s

/-- The menu's action for a change. -/
def change : Change → State
  | .audio => { s with toggled := true }
  | .serviceMode => { s with restartRequested := true }
  | .mods => if s.signs.running then { s with restartRequested := true } else s
  | .network selected => { s with selected := selected }

/-- `on_setting` answers that the change restarts QEMU. -/
def restarts : Change → Bool
  | .mods => s.signs.running
  | _ => true

/-- A setting is changed; some need a restart. -/
def setting (x : Change) : State :=
  if s.restarts x then { s.change x with signs := (s.change x).signs.ask } else s.change x

/-- `settle_waits`, for one wait. -/
def settle (late : Bool) : State :=
  if s.signs.booted then
    { s with
      waits := s.waits - 1,
      signs := { s.signs with answers := (s.signs.asked, s.signs.lit) :: s.signs.answers } }
  else if late then { s with waits := s.waits - 1 }
  else s

/-- What the menu is told once QEMU has been stopped. -/
def stopped : Stop → State
  | .leave => { s with
      signs := { s.signs with running := false }, restartRequested := false, place := .gone }
  | .guestExit =>
      { s with signs := { s.signs with running := false }, respawning := true, place := .reaped }
  | .restart selected =>
    { s with
      signs := { s.signs with running := false }
      respawning := true
      place := .spawning (.restart selected) }
  | .network => { s with place := .spawning .network }

/-- `switch_network`. -/
def switchNetwork (ok : Bool) (selected : Nat) : State :=
  if selected = s.prev then { s with place := .top }
  else
    let place := if s.inst.isSome then .stopping .network else .top
    if ok then { s with prev := selected, place := place }
    -- `reject_selection`
    else { s with prev := 0, selected := 0, place := place }

/-- What the menu is told once `spawn` has returned. -/
def report (ok : Bool) : Cause → State
  | .launch => { s with signs := { s.signs with running := ok }, place := .top }
  | .network => { s with place := .top }
  | c => if ok then { s with signs := { s.signs with running := true }, place := .respawned c }
    else { s with place := .respawned c }

/-- The worker's next step. -/
def next (ok : Bool) : Option State :=
  match s.place with
  | .gone => none
  | .top =>
    if !ok then some { s with place := .stopping .leave }
    else match s.inst with
      | some run =>
          some { s with place := if run ∈ s.signs.alive then .drain else .stopping .guestExit }
      | none => some { s with place := .drain }
  | .stopping k => match s.inst with
    | none => some { s with place := .stopped k }
    | some run =>
      if run ∈ s.signs.alive then none
      -- `QemuInstance::restart` keeps the instance
      else some { s with inst := if k = .network then some run else none, place := .stopped k }
  | .stopped k => some (s.stopped k)
  | .reaped =>
    if ok then some { s with place := .spawning .guestExit }
    else some { s with respawning := false, place := .gone }
  | .drain =>
    some { s with restartRequested := false, toggled := false,
                  place := .restart (s.restartRequested || s.toggled) s.selected }
  | .restart pending selected =>
    some { s with place := if pending then .stopping (.restart selected) else .network selected }
  | .network selected => some (s.switchNetwork ok selected)
  | .spawning c => if ok then none else some { s with place := .report c false }
  | .connecting run c =>
    if ok then some { s with inst := some run, place := .report c true } else
      some { s with place := .report c false }
  | .report c up => some (s.report up c)
  | .respawned c => some { s with respawning := false, place := c.next }

end State

/-- The window, the worker, the control stream's thread and the QEMUs.

    A pass of the window is `follow_restart` and `settle_waits` here.  Its `follow_dev_mode`, which
    drops the whole `ControlHost` with `restarting` when Developer Mode is switched off, is left
    out; `Control.Holds` has it. -/
def machine : Machine State Event where
  step s
    | .follow => some s.follow
    | .restart =>
      if s.place.working then some { s with signs := s.signs.ask, restartRequested := true }
        else none
    | .setting x => some (s.setting x)
    | .waitBoot => some { s with waits := s.waits + 1 }
    | .settle late => if s.waits = 0 then none else some (s.settle late)
    | .menu => some { s with restartRequested := true }
    | .change x => some (s.change x)
    | .look => match s.signs.stream with
      | .waiting =>
          if s.signs.running then some { s with signs := { s.signs with stream := .ready } }
            else none
      | _ => none
    | .connect ok => match s.signs.stream with
      | .ready =>
        if ok then match s.path with
          | some run =>
              if run ∈ s.signs.alive then some { s with signs := s.signs.reconnect (.on run) }
                else none
          | none => none
        else some { s with signs := { s.signs with stream := .waiting } }
      | _ => none
    | .read lit => match s.signs.stream with
      | .on run => some { s with signs := s.signs.read lit run }
      | _ => none
    | .ends => match s.signs.stream with
      | .on _ => some { s with signs := s.signs.reconnect .waiting }
      | _ => none
    | .exit run => some { s with signs := { s.signs with alive := s.signs.alive.filter (· ≠ run) } }
    | .launch => if s.place = .gone then some { s with place := .spawning .launch } else none
    | .handOver =>
        if s.place = .top then some { s with restartRequested := false, place := .stopping .leave }
          else none
    | .step ok => s.next ok
    | .start => match s.place with
      | .spawning c =>
        let run := s.signs.runs + 1
        some { s with
          signs := { s.signs with runs := run, alive := run :: s.signs.alive }, path := some run,
                      place := .connecting run c }
      | _ => none

/-- The emulation counts as booted, and a `wait boot` is answered, only once a QEMU started after
    the latest request has sent a frame with a lamp lit. -/
structure Awaited (x : Signs) : Prop where
  booted : x.booted = true → x.asked < x.lit
  answers : ∀ a ∈ x.answers, a.1 < a.2

/-- The stream is not connected to a QEMU of before the request. -/
def Signs.Left (x : Signs) : Prop :=
  match x.stream with
  | .on run => x.asked < run
  | _ => True

instance (x : Signs) : Decidable x.Left := by
  unfold Signs.Left
  split <;> infer_instance

/-- The step tells the menu that a new QEMU runs. -/
def State.reports (s : State) : Bool :=
  match s.place with
  | .report .network _ => false
  | .report _ up => up
  | _ => false

/-- `follow_restart` clears the flag only where no QEMU of before the request is alive, and the
    stream has left them if the menu says that QEMU runs; and where the flag is clear, the worker
    reports a new QEMU only when the stream has left the old ones. -/
def Timely (s : State) : Event → Prop
  | .follow => s.restartRequested = false → s.signs.restarting = true → s.ended = true →
      (∀ run ∈ s.signs.alive, s.signs.asked < run) ∧ (s.signs.running = true → s.signs.Left)
  | .step _ => s.reports = true → s.signs.restarting = false → s.signs.Left
  | _ => True

instance (s : State) (a : Event) : Decidable (Timely s a) := by
  unfold Timely
  split <;> infer_instance

/-! ## The invariant -/

/-- A driven panel shows a QEMU that is up, and no restart is under way once the old run is left. -/
structure Signs.Inv (x : Signs) : Prop where
  asked : x.asked ≤ x.runs
  /-- The note of a driven panel is that of the QEMU the stream is connected to. -/
  driven : x.driven = true → ∃ run, x.stream = .on run ∧ run ≤ x.lit
  /-- Where the flag is clear, the old runs have ended. -/
  clear : x.restarting = false → (∀ run ∈ x.alive, x.asked < run) ∧ (x.running = true → x.Left)
  answers : ∀ a ∈ x.answers, a.1 < a.2

variable {x y : Signs} {s t : State}

/-- It holds at the start. -/
theorem boot_inv : Signs.boot.Inv := by
  refine ⟨Nat.le_refl 0, fun h => absurd h Bool.false_ne_true, fun _ => ⟨?_, fun _ => trivial⟩, ?_⟩
  · intro run hrun
    exact absurd hrun List.not_mem_nil
  · intro a ha
    exact absurd ha List.not_mem_nil

/-- Where the emulation counts as booted, a QEMU of after the request has lit a lamp. -/
theorem Signs.Inv.booted (h : x.Inv) (hbooted : x.booted = true) : x.asked < x.lit := by
  obtain ⟨hup, hclear⟩ := (Bool.and_eq_true _ _).mp hbooted
  obtain ⟨hrunning, hdriven⟩ := (Bool.and_eq_true _ _).mp hup
  obtain ⟨run, hon, hlit⟩ := h.driven hdriven
  have hleft : x.Left := (h.clear (Bool.not_eq_true' _ ▸ hclear)).2 hrunning
  rw [Signs.Left, hon] at hleft
  exact Nat.lt_of_lt_of_le hleft hlit

/-- It gives what is awaited of every answer. -/
theorem Signs.Inv.awaited (h : x.Inv) : Awaited x := ⟨h.booted, h.answers⟩

/-- Asking for a restart needs nothing to keep it. -/
theorem Signs.Inv.ask (h : x.Inv) : x.ask.Inv :=
  ⟨Nat.le_refl _, h.driven, fun hclear => absurd hclear.symm Bool.false_ne_true, h.answers⟩

/-- `follow_restart` sets the flag. -/
theorem Signs.Inv.flag (h : x.Inv) : { x with restarting := true : Signs }.Inv :=
  ⟨h.asked, h.driven, fun hclear => absurd hclear.symm Bool.false_ne_true, h.answers⟩

/-- `follow_restart` clears the flag. -/
theorem Signs.Inv.unflag (h : x.Inv) (hgone : ∀ run ∈ x.alive, x.asked < run)
    (hleft : x.running = true → x.Left) :
    { x with restarting := false : Signs }.Inv :=
  ⟨h.asked, h.driven, fun _ => ⟨hgone, hleft⟩, h.answers⟩

/-- Neither does the end of a run. -/
theorem Signs.Inv.down (h : x.Inv) : { x with running := false : Signs }.Inv :=
  ⟨h.asked, h.driven,
    fun hclear => ⟨(h.clear hclear).1, fun hrunning => absurd hrunning Bool.false_ne_true⟩,
    h.answers⟩

/-- A new run may only come up once the old one has been left. -/
theorem Signs.Inv.up (h : x.Inv) (hleft : x.restarting = false → x.Left) :
    { x with running := true : Signs }.Inv :=
  ⟨h.asked, h.driven, fun hclear => ⟨(h.clear hclear).1, fun _ => hleft hclear⟩, h.answers⟩

theorem Signs.Inv.ready (h : x.Inv) (hstream : x.stream = .waiting) :
    { x with stream := .ready : Signs }.Inv := by
  refine ⟨h.asked, fun hdriven => ?_, fun hclear => ⟨(h.clear hclear).1, fun _ => trivial⟩,
    h.answers⟩
  obtain ⟨run, hon, -⟩ := h.driven hdriven
  rw [hstream] at hon
  cases hon

/-- The stream connects to a QEMU that is alive. -/
theorem Signs.Inv.connect (h : x.Inv) {run : Nat} (hrun : run ∈ x.alive) :
    (x.reconnect (.on run)).Inv :=
  ⟨h.asked, fun hdriven => absurd hdriven Bool.false_ne_true,
    fun hclear => ⟨(h.clear hclear).1, fun _ => (h.clear hclear).1 run hrun⟩, h.answers⟩

theorem Signs.Inv.ends (h : x.Inv) : (x.reconnect .waiting).Inv :=
  ⟨h.asked, fun hdriven => absurd hdriven Bool.false_ne_true,
    fun hclear => ⟨(h.clear hclear).1, fun _ => trivial⟩, h.answers⟩

theorem Signs.Inv.refused (h : x.Inv) (hstream : x.stream = .ready) :
    { x with stream := .waiting : Signs }.Inv := by
  refine ⟨h.asked, fun hdriven => ?_, fun hclear => ⟨(h.clear hclear).1, fun _ => trivial⟩,
    h.answers⟩
  obtain ⟨run, hon, -⟩ := h.driven hdriven
  rw [hstream] at hon
  cases hon

/-- A frame is that of the run that the stream is on. -/
theorem Signs.Inv.read (h : x.Inv) {run : Nat} (hon : x.stream = .on run) (lit : Bool) :
    (x.read lit run).Inv := by
  cases lit with
  | true => exact ⟨h.asked, fun _ => ⟨run, hon, Nat.le_max_right _ _⟩, h.clear, h.answers⟩
  | false => exact h

theorem Signs.Inv.exit (h : x.Inv) (run : Nat) :
    { x with alive := x.alive.filter (· ≠ run) : Signs }.Inv := by
  refine ⟨h.asked, h.driven, fun hclear => ⟨?_, (h.clear hclear).2⟩, h.answers⟩
  intro other hother
  exact (h.clear hclear).1 other (List.mem_of_mem_filter hother)

/-- A QEMU that starts is newer than every request. -/
theorem Signs.Inv.start (h : x.Inv) :
    { x with runs := x.runs + 1, alive := (x.runs + 1) :: x.alive : Signs }.Inv := by
  refine ⟨Nat.le_succ_of_le h.asked, h.driven, fun hclear => ⟨?_, (h.clear hclear).2⟩, h.answers⟩
  intro run hrun
  obtain rfl | hrun := List.mem_cons.mp hrun
  · exact Nat.lt_succ_of_le h.asked
  · exact (h.clear hclear).1 run hrun

/-- An answer is given while the player has booted. -/
theorem Signs.Inv.answer (h : x.Inv) (hbooted : x.booted = true) :
    { x with answers := (x.asked, x.lit) :: x.answers : Signs }.Inv := by
  refine ⟨h.asked, h.driven, h.clear, ?_⟩
  intro a ha
  obtain rfl | ha := List.mem_cons.mp ha
  · exact h.booted hbooted
  · exact h.answers a ha

/-! ## The window's steps -/

/-- The pass keeps it, unless the window looks before the worker has stopped the old run. -/
theorem follow_inv (h : s.signs.Inv) (htimely : Timely s .follow) : s.follow.signs.Inv := by
  unfold State.follow
  split
  · exact h.flag
  · rename_i hrequested
    split
    · rename_i hclears
      obtain ⟨hflag, hended⟩ := (Bool.and_eq_true _ _).mp hclears
      obtain ⟨hgone, hleft⟩ := htimely (Bool.not_eq_true _ ▸ hrequested) hflag hended
      exact h.unflag hgone hleft
    · exact h

/-- A setting is no sign. -/
theorem change_signs (s : State) (x : Change) : (s.change x).signs = s.signs := by
  cases x with
  | mods => unfold State.change; dsimp only; split <;> rfl
  | _ => rfl

theorem setting_inv (h : s.signs.Inv) (x : Change) : (s.setting x).signs.Inv := by
  unfold State.setting
  split
  · rw [change_signs]
    exact h.ask
  · rw [change_signs]
    exact h

/-- Settling answers only where the player has booted. -/
theorem settle_inv (h : s.signs.Inv) (late : Bool) : (s.settle late).signs.Inv := by
  unfold State.settle
  split
  · rename_i hbooted
    exact h.answer hbooted
  · split <;> exact h

/-! ## The worker's steps -/

/-- Stopping a run keeps it. -/
theorem stopped_inv (h : s.signs.Inv) (k : Stop) : (s.stopped k).signs.Inv := by
  cases k with
  | network => exact h
  | _ => exact h.down

theorem switchNetwork_signs (s : State) (ok : Bool) (selected : Nat) :
    (s.switchNetwork ok selected).signs = s.signs := by
  unfold State.switchNetwork
  split
  · rfl
  · dsimp only
    split <;> rfl

theorem report_inv (h : s.signs.Inv) {up : Bool} {c : Cause} (hp : s.place = .report c up)
    (htimely : Timely s (.step true)) : (s.report up c).signs.Inv := by
  have hreports : c ≠ .network → up = true → s.reports = true := by
    intro hc hup
    rw [State.reports, hp]
    cases c with
    | network => exact absurd rfl hc
    | _ => exact hup
  cases up with
  | false =>
    cases c with
    | launch => exact h.down
    | _ => exact h
  | true =>
    cases c with
    | network => exact h
    | launch => exact h.up (htimely (hreports (fun hc => by cases hc) rfl))
    | guestExit => exact h.up (htimely (hreports (fun hc => by cases hc) rfl))
    | restart selected => exact h.up (htimely (hreports (fun hc => by cases hc) rfl))

/-- The worker's next step, by the place it has reached. -/
theorem next_inv (h : s.signs.Inv) {ok : Bool} (htimely : Timely s (.step ok))
    (hs : s.next ok = some t) : t.signs.Inv := by
  -- place by place; only the stop and the report touch the signs
  unfold State.next at hs
  split at hs
  · cases hs
  · split at hs
    · obtain rfl := Option.some.inj hs
      exact h
    · split at hs
      · obtain rfl := Option.some.inj hs
        exact h
      · obtain rfl := Option.some.inj hs
        exact h
  · split at hs
    · obtain rfl := Option.some.inj hs
      exact h
    · obtain ⟨-, ⟨⟩⟩ := Option.ite_none_left_eq_some.mp hs
      exact h
  · rename_i k hp
    obtain rfl := Option.some.inj hs
    exact stopped_inv h k
  · split at hs
    · obtain rfl := Option.some.inj hs
      exact h
    · obtain rfl := Option.some.inj hs
      exact h
  · obtain rfl := Option.some.inj hs
    exact h
  · obtain rfl := Option.some.inj hs
    exact h
  · rename_i selected hp
    obtain rfl := Option.some.inj hs
    rw [switchNetwork_signs]
    exact h
  · obtain ⟨-, ⟨⟩⟩ := Option.ite_none_left_eq_some.mp hs
    exact h
  · split at hs
    · obtain rfl := Option.some.inj hs
      exact h
    · obtain rfl := Option.some.inj hs
      exact h
  · rename_i c up hp
    obtain rfl := Option.some.inj hs
    exact report_inv h hp htimely
  · obtain rfl := Option.some.inj hs
    exact h

/-- Every step of the machine. -/
theorem step_inv (h : s.signs.Inv) {a : Event} (htimely : Timely s a)
    (hs : machine.step s a = some t) : t.signs.Inv := by
  -- the worker's places, then what the window does at any time
  cases a with
  | follow =>
    obtain rfl := Option.some.inj hs
    exact follow_inv h htimely
  | restart =>
    obtain ⟨-, ⟨⟩⟩ := Option.ite_none_right_eq_some.mp hs
    exact h.ask
  | setting x =>
    obtain rfl := Option.some.inj hs
    exact setting_inv h x
  | waitBoot =>
    obtain rfl := Option.some.inj hs
    exact h
  | settle late =>
    obtain ⟨-, ⟨⟩⟩ := Option.ite_none_left_eq_some.mp hs
    exact settle_inv h late
  | menu =>
    obtain rfl := Option.some.inj hs
    exact h
  | change x =>
    obtain rfl := Option.some.inj hs
    rw [change_signs]
    exact h
  | look =>
    simp only [machine] at hs
    split at hs
    · rename_i hstream
      obtain ⟨-, ⟨⟩⟩ := Option.ite_none_right_eq_some.mp hs
      exact h.ready hstream
    · cases hs
  | connect ok =>
    simp only [machine] at hs
    split at hs
    · rename_i hstream
      split at hs
      · split at hs
        · obtain ⟨hrun, ⟨⟩⟩ := Option.ite_none_right_eq_some.mp hs
          exact h.connect hrun
        · cases hs
      · obtain rfl := Option.some.inj hs
        exact h.refused hstream
    · cases hs
  | read lit =>
    simp only [machine] at hs
    split at hs
    · rename_i run hon
      obtain rfl := Option.some.inj hs
      exact h.read hon lit
    · cases hs
  | ends =>
    simp only [machine] at hs
    split at hs
    · obtain rfl := Option.some.inj hs
      exact h.ends
    · cases hs
  | exit run =>
    obtain rfl := Option.some.inj hs
    exact h.exit run
  | launch =>
    obtain ⟨-, ⟨⟩⟩ := Option.ite_none_right_eq_some.mp hs
    exact h
  | handOver =>
    obtain ⟨-, ⟨⟩⟩ := Option.ite_none_right_eq_some.mp hs
    exact h
  | step ok => exact next_inv h htimely hs
  | start =>
    simp only [machine] at hs
    split at hs
    · obtain rfl := Option.some.inj hs
      exact h.start
    · cases hs

/-! ## Runs -/

/-- **After a restart request, `wait boot` waits for the new run**, in every run whose passes clear
    the flag only after the old runs have ended. -/
theorem booted_awaits_the_new_run (h : machine.Reach Timely .boot s) : Awaited s.signs :=
  Signs.Inv.awaited
    (Reach.inv (I := fun s => s.signs.Inv) boot_inv
      (fun _ _ _ hI htimely hs => step_inv hI htimely hs) h)

/-- The app launches: the first QEMU runs, and the stream is connected to it. -/
def launched : List Event := [.launch, .start, .step true, .step true, .look, .connect true]

/-- A restart is asked for while the first QEMU still boots; the worker has taken the request when
    the window clears the flag, and the old QEMU lights its lamps before it has ended. -/
def early : List Event :=
  launched ++ [.restart, .step true, .step true, .step true, .follow, .read true]

/-- A restart is asked for while the first QEMU runs, and it ends before the
    window clears the flag. -/
def orderly : List Event :=
  launched ++ [.read true, .restart, .waitBoot, .follow, .step true, .step true, .step true,
    .exit 1, .ends, .step true, .step true, .follow, .start, .step true, .step true, .step true,
    .look, .connect true, .read true, .settle false]

/-- The emulation counts as booted by the run that is about to be stopped. -/
theorem early_pass_takes_the_old_run : ¬ ∀ s, machine.Reach Free .boot s → Awaited s.signs := by
  intro h
  have hrun : ∃ s, machine.Reach Free .boot s ∧
      decide (s.signs.booted = true ∧ s.signs.asked = 1 ∧ s.signs.lit = 1) = true :=
    Reach.of_run_any early (by decide)
  obtain ⟨s, hreach, hs⟩ := hrun
  obtain ⟨hbooted, hasked, hlit⟩ := of_decide_eq_true hs
  have hlt := (h s hreach).booted hbooted
  omega

/-- A `wait boot` of after a restart request is answered by the second QEMU's lamps. -/
theorem orderly_wait_answered : ∃ s, machine.Reach Timely .boot s ∧ s.signs.answers = [(1, 2)] ∧
    s.signs.booted = true ∧
    Awaited s.signs := by
  have hrun : ∃ s, machine.Reach Timely .boot s ∧
      decide (s.signs.answers = [(1, 2)] ∧ s.signs.booted = true) = true :=
    Reach.of_run_any orderly (by decide)
  obtain ⟨s, hreach, hs⟩ := hrun
  obtain ⟨hanswers, hbooted⟩ := of_decide_eq_true hs
  exact ⟨s, hreach, hanswers, hbooted, booted_awaits_the_new_run hreach⟩

end CdjEmu.Runtime.WaitBoot
