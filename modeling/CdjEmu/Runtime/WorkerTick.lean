/-
  THE RUNTIME WORKER — one tick after another, against the menu, the window, the guest and quitting.

  The worker, the window and the signal handler share the menu state and hold its lock for an
  instant at a time.  One step of the worker here is one such instant, or one thing it does that the
  others can notice: it stops or starts QEMU, looks at `APP_SHUTDOWN`, writes a setting.  Between
  any two of them the others may do anything, so a tick lasts as long as a schedule makes it.

  A tick asks whether the worker has to go; starts a guest again that has exited; requests the
  restart that changed mods are waiting for; drains the requests; saves the toggled settings;
  restarts QEMU if that was asked for, and once more if the network selection has changed.  Every
  start of QEMU reads the mods first: it RECORDS how many mods restarts have been asked for, and
  reads only then.

  What the environment decides is in the events: whether an interface can be attached and QEMU
  starts (`Luck`), when the guest exits, when cfgd is heard and lost.  The count of mods restarts is
  a `Nat`. `stop_requested` and `qemu_boot_requested` are set nowhere; what the tick does for USB,
  the host bridge of PC Link and the mods report changes nothing that is modelled here.

  `asOf`, `starts`, `toggled` and `quit` are read by no step: up to which mods restart the running
  QEMU's mods account for, how often QEMU was started, which settings were toggled while a worker
  was alive, and what the menu showed and the slot held when a worker ended after `APP_SHUTDOWN`.
-/
import CdjEmu.Lib.Machine

namespace CdjEmu.Runtime

/-! ## Settings -/

/-- The settings the menu toggles and the worker saves. -/
inductive Setting where
  | audio
  | device
  | alc
  | haptic
  | mods
  | pcLink
  deriving DecidableEq

/-- In the order a tick saves them. -/
def Setting.all : List Setting := [.audio, .device, .alc, .haptic, .mods, .pcLink]

theorem Setting.mem_all (x : Setting) : x ∈ Setting.all := by cases x <;> decide

/-- A switch, or the uid of the output device (`none` follows the system default). -/
inductive Val where
  | switch (on : Bool)
  | uid (device : Option String)
  deriving DecidableEq

def Val.flip : Val → Val
  | .switch on => .switch !on
  | .uid device => .uid device

/-- The values of the settings. -/
abbrev Values := Setting → Val

def Values.set (vs : Values) (x : Setting) (v : Val) : Values := fun y => if y = x then v else vs y

/-- The values after the writes of `todo`. -/
def Values.setAll (vs : Values) (todo : List (Setting × Val)) : Values :=
  todo.foldl (fun vs w => vs.set w.1 w.2) vs

/-- All settings off. -/
def allOff : Values := fun
  | .device => .uid none
  | _ => .switch false

/-! ## The worker -/

/-- Why QEMU starts, with the network selection the tick has drained. -/
inductive Cause where
  | guestExit
  | restart (iface : Option Nat)
  | network

/-- `Worker::instance`: none, a running QEMU, or one that has exited. -/
inductive Qemu where
  | none
  | running
  | exited
  deriving DecidableEq

/-- Where the worker is. -/
inductive Place where
  /-- There is no worker. -/
  | gone
  | new
  /-- A tick starts here. -/
  | top
  /-- `exit_requested` looks for a restart that is due. -/
  | restartDue (retire : Bool)
  /-- `exit_requested` leaves the restart to the next launch. -/
  | handOver
  | exitTest (retire : Bool)
  /-- `shut_down`: take Enable Mods, save it, stop QEMU. -/
  | leave
  | leaveSave (todo : List (Setting × Val))
  | leaveStop
  | guestTest
  /-- `reap_guest` has stopped the instance. -/
  | reaping
  | reaped
  /-- `ModsLaunch::boot` records the count, then reads the mods; then QEMU starts. -/
  | record (c : Cause)
  | readMods (c : Cause)
  | start (c : Cause) (asOf : Nat)
  | started (c : Cause)
  | modsCheck
  | drain
  | persist (todo : List (Setting × Val)) (restart : Bool) (iface : Option Nat)
  | restart (pending : Bool) (iface : Option Nat)
  /-- `restart_qemu` has stopped the instance. -/
  | restarting (iface : Option Nat)
  | network (iface : Option Nat)
  | rest

/-- What follows a start of QEMU in the tick. -/
def Cause.next : Cause → Place
  | .guestExit => .modsCheck
  | .restart iface => .network iface
  | .network => .rest

/-- What the menu showed and the slot held when a worker ended after `APP_SHUTDOWN`. -/
structure Snapshot where
  menu : Values
  saved : Values
  toggled : Setting → Bool

structure State where
  -- the menu state
  qemuRunning : Bool
  qemuRespawning : Bool
  restartRequested : Bool
  modsRestartSeq : Nat
  modsRestartSeqBooted : Nat
  shadeForced : Bool
  selectedInterface : Option Nat
  workerExitRequested : Bool
  relaunchRequested : Bool
  menu : Values
  toggleRequested : Setting → Bool
  -- the process and the window
  appShutdown : Bool
  panel : Bool
  workerStopping : Bool
  pendingInstall : Bool
  -- the worker
  place : Place
  qemu : Qemu
  prevNet : Option Nat
  guestHeard : Bool
  -- the slot's settings file
  saved : Values
  -- read by no step
  asOf : Nat
  starts : Nat
  toggled : Setting → Bool
  quit : Option Snapshot

/-- Whether the selected interface is still listed, whether it can be attached,
    and whether QEMU starts. -/
structure Luck where
  listed : Bool := true
  attach : Bool := true
  start : Bool := true

inductive Event where
  | work (luck : Luck)
  | restartForMods
  /-- Restart or Service Mode in the menu, or a restart through the control API. -/
  | restartMenu
  | toggle (x : Setting)
  | selectDevice (uid : Option String)
  | selectInterface (iface : Option Nat)
  /-- The window shows the deck, or something else. -/
  | view (panel : Bool)
  /-- The window brings the shade down. -/
  | shade
  | stopEmulation
  | reapWorker
  | saveModsToggle
  | launch (luck : Luck)
  | install (waiting : Bool)
  | quit
  | guestExits
  | cfgdHeard
  | cfgdLost

namespace State

variable (s : State)

/-! ## The window -/

inductive Reply where
  | ok
  | notRunning
  | busy
  deriving DecidableEq

/-- Whether a worker is alive. -/
def alive : Bool :=
  match s.place with
  | .gone => false
  | _ => true

/-- Restart the emulation so that it boots with the slot's current mods. -/
def restartForMods : Reply × State :=
  if ¬ s.panel ∨ ¬ s.alive then (.notRunning, s)
  else if s.workerStopping then (.busy, s)
  else if ¬ s.qemuRunning ∧ ¬ s.qemuRespawning ∧ ¬ s.restartRequested then (.notRunning, s)
  else
    let s := { s with modsRestartSeq := s.modsRestartSeq + 1 }
    if ¬ s.restartRequested ∧ ¬ s.shadeForced ∧ ¬ s.qemuRespawning then
      (.ok, { s with shadeForced := true, restartRequested := true })
    else (.ok, s)

/-- `x` has the value `v` in the menu, and the worker is told. -/
def choose (x : Setting) (v : Val) : State :=
  { s with
    menu := s.menu.set x v
    toggleRequested := fun y => y = x || s.toggleRequested y
    toggled := fun y => (y = x && s.alive) || s.toggled y }

/-- A click on a switch of the menu. -/
def toggle (x : Setting) : State :=
  let s := s.choose x (s.menu x).flip
  match x with
  | .audio => { s with shadeForced := true }
  | .mods => if s.qemuRunning then { s with shadeForced := true, restartRequested := true } else s
  | _ => s

/-- A click on an output device. -/
def selectDevice (uid : Option String) : State :=
  if s.menu .device = .uid uid then s else { s.choose .device (.uid uid) with shadeForced := true }

/-- A click on a network. -/
def selectInterface (iface : Option Nat) : State :=
  { s with
    shadeForced := s.shadeForced || s.selectedInterface ≠ iface
    selectedInterface := iface }

/-- The toggled settings among `xs` with the values of the menu. -/
def taken (xs : List Setting) : List (Setting × Val) :=
  (xs.filter s.toggleRequested).map fun x => (x, s.menu x)

/-- Take the requests of `xs`. -/
def untoggle (xs : List Setting) : State :=
  { s with toggleRequested := fun y => s.toggleRequested y && y ∉ xs }

/-! ## The worker's steps -/

/-- The worker's thread ends. -/
def finish : State :=
  { s with
    place := .gone
    quit := if s.appShutdown then some ⟨s.menu, s.saved, s.toggled⟩ else s.quit }

/-- Start QEMU with mods that account for the first `asOf` mods restarts. -/
def startQemu (asOf : Nat) : State :=
  { s with qemu := .running, asOf, starts := s.starts + 1 }

/-- `spawn_qemu`, and `restart_for_network`, which has nothing to do without an instance. -/
def startFor (luck : Luck) (c : Cause) (asOf : Nat) : State :=
  match c with
  | .network =>
    if s.qemu = .none then { s with shadeForced := false, place := .rest }
    else if luck.start then { s.startQemu asOf with shadeForced := false, place := .rest }
    else { s with qemu := .exited, place := .rest }
  | c =>
    if luck.start then
      { s.startQemu asOf with qemuRunning := true, shadeForced := false, place := .started c }
    else { s with place := .started c }

/-- Whether a mods restart was asked for after the running QEMU's mods were
    read, and can be made. -/
def modsRestartDue : Bool :=
  s.qemu ≠ .none && s.qemuRunning && s.modsRestartSeq ≠ s.modsRestartSeqBooted && s.guestHeard &&
    !s.restartRequested

/-- The worker's next step. -/
def work (luck : Luck) : Option State :=
  match s.place with
  | .gone => none
  | .new =>
    some { s with
      qemuRunning := s.qemu ≠ .none
      shadeForced := s.shadeForced && s.qemu = .none
      place := .top }
  | .top => some { s with workerExitRequested := false, place := .restartDue s.workerExitRequested }
  | .restartDue retire =>
    if ¬ retire ∧ (s.restartRequested ∨ s.qemu = .exited) ∧ s.pendingInstall then
      some { s with place := .handOver }
    else some { s with place := .exitTest retire }
  | .handOver =>
    some { s with
      restartRequested := false
      relaunchRequested := true
      shadeForced := true
      place := .exitTest true }
  | .exitTest retire =>
    some { s with place := if s.appShutdown ∨ retire then .leave else .guestTest }
  | .leave => some { s.untoggle [.mods] with place := .leaveSave (s.taken [.mods]) }
  | .leaveSave [] => some { s with place := .leaveStop }
  | .leaveSave (w :: todo) => some { s with saved := s.saved.set w.1 w.2, place := .leaveSave todo }
  | .leaveStop =>
    some ({ s with qemu := .none, qemuRunning := false, restartRequested := false }).finish
  | .guestTest =>
    if s.qemu = .exited then some { s with qemu := .none, place := .reaping }
    else some { s with place := .modsCheck }
  | .reaping => some { s with qemuRunning := false, qemuRespawning := true, place := .reaped }
  | .reaped =>
    if s.appShutdown then some ({ s with qemuRespawning := false }).finish
    else some { s with place := .record .guestExit }
  | .record c => some { s with modsRestartSeqBooted := s.modsRestartSeq, place := .readMods c }
  | .readMods c => some { s with place := .start c s.modsRestartSeq }
  | .start c asOf => some (s.startFor luck c asOf)
  | .started c => some { s with qemuRespawning := false, place := c.next }
  | .modsCheck =>
    if s.modsRestartDue then
      some { s with restartRequested := true, shadeForced := true, place := .drain }
    else some { s with place := .drain }
  | .drain =>
    some { s.untoggle Setting.all with
      restartRequested := false
      place := .persist (s.taken Setting.all)
        (s.restartRequested || s.toggleRequested .audio || s.toggleRequested .device)
          s.selectedInterface }
  | .persist [] restart iface => some { s with place := .restart restart iface }
  | .persist (w :: todo) restart iface =>
    some { s with saved := s.saved.set w.1 w.2, place := .persist todo restart iface }
  | .restart pending iface =>
    if pending then some { s with qemu := .none, place := .restarting iface }
    else some { s with place := .network iface }
  | .restarting iface =>
    some { s with qemuRunning := false, qemuRespawning := true, place := .record (.restart iface) }
  | .network iface =>
    if iface = s.prevNet then some { s with place := .rest }
    else if luck.attach ∨ iface = none then
      some { s with prevNet := iface, place := .record .network }
    else some { s with prevNet := none, selectedInterface := none, place := .record .network }
  | .rest => some { s with place := .top }

/-- A launch: `ModsLaunch::boot`, the network, QEMU and a new worker. -/
def launch (luck : Luck) : State :=
  { s with
    modsRestartSeqBooted := s.modsRestartSeq
    selectedInterface := if luck.attach ∨ ¬ luck.listed then s.selectedInterface else none
    prevNet := if luck.attach ∧ luck.listed then s.selectedInterface else none
    qemu := if luck.start then .running else .none
    asOf := s.modsRestartSeq
    starts := s.starts + 1
    place := .new }

end State

open State

/-- The machine of the worker, the window, the guest and the process. -/
def worker : Machine State Event where
  step s
    | .work luck => s.work luck
    | .restartForMods => some s.restartForMods.2
    | .restartMenu => some { s with shadeForced := true, restartRequested := true }
    | .toggle x => some (s.toggle x)
    | .selectDevice uid => some (s.selectDevice uid)
    | .selectInterface iface => some (s.selectInterface iface)
    | .view panel => some { s with panel }
    | .shade => some { s with shadeForced := true }
    | .stopEmulation =>
      if s.alive then some { s with workerExitRequested := true, workerStopping := true } else none
    | .reapWorker => if s.alive then none else some { s with workerStopping := false }
    | .saveModsToggle =>
      if s.alive then none
      else some { s.untoggle [.mods] with saved := s.saved.setAll (s.taken [.mods]) }
    | .launch luck => if s.alive then none else some (s.launch luck)
    | .install waiting => some { s with pendingInstall := waiting }
    | .quit => some { s with appShutdown := true }
    | .guestExits => if s.qemu = .running then some { s with qemu := .exited } else none
    | .cfgdHeard => some { s with guestHeard := true }
    | .cfgdLost => some { s with guestHeard := false }

/-- The process has started: the slot holds `saved` and the menu shows `menu`. -/
def State.init (menu saved : Values) (iface : Option Nat) : State where
  qemuRunning := false
  qemuRespawning := false
  restartRequested := false
  modsRestartSeq := 0
  modsRestartSeqBooted := 0
  shadeForced := false
  selectedInterface := iface
  workerExitRequested := false
  relaunchRequested := false
  menu
  toggleRequested := fun _ => false
  appShutdown := false
  panel := false
  workerStopping := false
  pendingInstall := false
  place := .gone
  qemu := .none
  prevNet := none
  guestHeard := false
  saved
  asOf := 0
  starts := 0
  toggled := fun _ => false
  quit := none

end CdjEmu.Runtime
