/-
  THE RUNTIME WORKER'S STORAGE — `Worker::tick` and `runtime_worker/{usb,qemu,net}.rs`, with the
  menu, the control API's `media` requests, the guest's `usb_state` lines and the host's disks.

  The worker and the user interface share the menu state and take its lock for an instant at a time.
  One step here is one such acquisition together with the worker's own work before it, which nobody
  else can see: the interface may act between any two steps, also in the middle of a tick.

  A tick is: a guest that has exited is reaped and started again; the requests are drained; the
  menu's restart; the network's restart; create, mount, eject, pick; the guest's eject; the pending
  remount; the scan of the host's disks.  A restart reads the menu's mounted flags, resets the USB
  manager and the flags, and queues what was mounted for a remount, under three separate locks.

  What the environment decides in a worker step is its `Luck`.  On a QEMU that has exited every QMP
  command fails.  A setting that needs a restart and a mods restart are the menu's restart here, and
  a worker that is asked to exit ends the run.  `stop_requested` and `qemu_boot_requested` are
  drained by the source and set nowhere, so neither is modelled; labels and sizes of disks are only
  displayed, and saved settings are only written.
-/
import CdjEmu.Lib.Machine
import CdjEmu.Usb.Manager

namespace CdjEmu.Usb

open Machine

/-! ## Data model -/

/-- The storage part of the menu's `AppState`.  `NO_USB_MOUNTED` is `none`. -/
structure Menu where
  virtualImg : Option String
  virtualMounted : Bool
  mountReq : Bool
  createReq : Bool
  ejectReq : Bool
  physDisks : List String
  physMountedIdx : Option Nat
  physToggleIdx : Option Nat
  physPermDenied : Bool
  /-- The alert that offers Retry is open. -/
  alert : Bool
  physRetryReq : Bool
  restartRequested : Bool
deriving DecidableEq, Repr

/-- `Requests`, as far as storage and restarts go. -/
structure Requests where
  create : Bool
  virtMount : Bool
  eject : Bool
  physToggle : Option Nat
  physRetry : Bool
  restart : Bool
  virtualImg : Option String
deriving DecidableEq, Repr

/-- `PendingRemount`. -/
inductive PendingRemount
  | physical (disk : PhysicalDisk) (idx : Nat)
  | virtual (path : String)
deriving DecidableEq, Repr

/-- `Worker::instance`: none, a running QEMU, or one that has exited. -/
inductive Qemu
  | none | running | exited
deriving DecidableEq, Repr

/-- Why QEMU restarts, with what the tick does afterwards. -/
inductive Cause
  | guestExit | restart (req : Requests) | network (req : Requests)
deriving DecidableEq, Repr

/-- The restart of `restart_for_network`. -/
def Cause.isNetwork : Cause → Bool
  | .network _ => true
  | _ => false

/-- Where the worker is in its tick. -/
inductive Place
  | idle
  /-- The mounted flags are read; `reset_usb` comes next. -/
  | resetting (prevPhys : Option Nat) (prevVirt : Bool) (k : Cause)
  /-- The flags are reset; `PendingRemount::capture` comes next, then the start of QEMU. -/
  | capturing (prevPhys : Option Nat) (prevVirt : Bool) (k : Cause)
  | drain
  | restart (req : Requests)
  | network (req : Requests)
  | create (req : Requests)
  | mount (req : Requests)
  | eject (req : Requests)
  | pick (req : Requests)
  | acknowledge
  | remount
  | refresh
deriving DecidableEq, Repr

/-- What follows a restart in the tick. -/
def Cause.next : Cause → Place
  | .guestExit => .drain
  | .restart req => .network req
  | .network req => .create req

/-- The drained requests that the tick has not served yet. -/
def Place.req : Place → Option Requests
  | .resetting _ _ (.restart req) | .resetting _ _ (.network req) => some req
  | .capturing _ _ (.restart req) | .capturing _ _ (.network req) => some req
  | .restart req | .network req | .create req | .mount req | .eject req | .pick req => some req
  | _ => none

/-- A `usb_state` line; `medium` is the serial of the medium in the drive when the guest sent it,
    which the line does not carry and no step reads. -/
structure Line where
  mounted : Bool
  medium : Nat
deriving DecidableEq, Repr

/-- The menu, the worker and what they talk to. -/
structure State where
  menu : Menu
  physDisks : List PhysicalDisk
  lastPhysToggle : Option Nat
  pendingRemount : Option PendingRemount
  usb : Manager
  qemu : Qemu
  savedPhysBsd : Option String
  physRestoreAttempted : Bool
  /-- The lines on their way, the oldest first. -/
  wire : List Line
  /-- `Shared::usb_state`. -/
  usbState : Option Line
  place : Place
deriving DecidableEq, Repr

/-- What the environment decides in one step of the worker: the faults of a USB operation, whether
    QEMU starts, whether an image can be created, whether the network selection has changed, and
    what the host lists when a scan is due. -/
structure Luck where
  faults : Faults := {}
  spawn : Bool := true
  createImage : Bool := true
  switchNetwork : Bool := false
  scan : Option (List PhysicalDisk) := none
deriving DecidableEq, Repr

/-- What happens next. -/
inductive Ev
  /-- A click on the disk at index `i` of the list the menu shows. -/
  | clickDisk (i : Nat)
  | clickEject
  /-- The file dialog's answer, for Create New or Mount Image. -/
  | pickImage (create : Bool) (path : String)
  | apiAttach (path : String)
  | apiEject
  /-- The alert opens. -/
  | showAlert
  /-- The alert is answered. -/
  | answerAlert (retry : Bool)
  | requestRestart
  /-- The guest's QEMU exits. -/
  | guestExit
  /-- cfgd sends a `usb_state` line. -/
  | guestLine (mounted : Bool)
  /-- The reader thread reads the oldest line. -/
  | deliver
  | work (l : Luck)
deriving DecidableEq, Repr

/-- The `attached` field of a `media` reply. -/
inductive Attached
  | virtual | physical | none
deriving DecidableEq, Repr

/-- A `media` reply: what is attached, and the image. -/
structure MediaReply where
  attached : Attached
  image : Option String
deriving DecidableEq, Repr

/-! ## The menu -/

namespace Menu

/-- The steps of the menu and of the control API. -/
def act (m : Menu) : Ev → Option Menu
  -- `select_physical_disk`
  | .clickDisk i =>
    if i < m.physDisks.length then
      some (if m.physMountedIdx = some i then m else { m with physToggleIdx := some i })
    else none
  | .clickEject => some { m with ejectReq := true }
  | .pickImage true path => some { m with virtualImg := some path, createReq := true }
  | .pickImage false path => some { m with virtualImg := some path, mountReq := true }
  -- `start_media`
  | .apiAttach path =>
    some (if m.virtualMounted ∧ m.virtualImg = some path then m
      else { m with virtualMounted := false, virtualImg := some path, mountReq := true })
  | .apiEject =>
    some (if ¬ m.virtualMounted ∧ m.physMountedIdx = none then m else { m with ejectReq := true })
  -- `drain_alerts` and `show_raw_disk_alert`
  | .showAlert =>
      if m.physPermDenied then some { m with physPermDenied := false, alert := true } else none
  | .answerAlert retry =>
    if m.alert then some { m with alert := false, physRetryReq := m.physRetryReq || retry }
      else none
  | .requestRestart => some { m with restartRequested := true }
  | _ => none

/-- `Requests::drain`: what is read, and what is left. -/
def drain (m : Menu) : Requests × Menu :=
  (⟨m.createReq, m.mountReq, m.ejectReq, m.physToggleIdx, m.physRetryReq, m.restartRequested,
      m.virtualImg⟩,
    { m with createReq := false, mountReq := false, ejectReq := false, physToggleIdx := none,
             physRetryReq := false, restartRequested := false })

/-- `mark_virtual_mounted`. -/
def markVirtualMounted (m : Menu) : Menu :=
  { m with virtualMounted := true, physMountedIdx := none }

/-- `mark_physical_mounted`. -/
def markPhysicalMounted (m : Menu) (idx : Nat) : Menu :=
  { m with physMountedIdx := some idx, virtualMounted := false }

/-- `mark_unmounted`, and the flags in `reset_usb`. -/
def markUnmounted (m : Menu) : Menu := { m with virtualMounted := false, physMountedIdx := none }

/-- `publish_disks`. -/
def publishDisks (m : Menu) (fresh : List PhysicalDisk) (restore : Option Nat) : Menu :=
  { m with physDisks := fresh.map (·.bsdName), physToggleIdx := restore.or m.physToggleIdx }

/-- The `media` reply of `media_state`. -/
def mediaState (m : Menu) : MediaReply :=
  ⟨if m.virtualMounted then .virtual else if m.physMountedIdx ≠ none then .physical else .none,
    if m.virtualMounted then m.virtualImg else none⟩

end Menu

/-! ## The worker -/

/-- A call of `attach_virtual` or `attach_physical`, with what it serves. -/
inductive Call
  | create (path : String)
  | mount (path : String)
  | pick (idx : Nat) (disk : PhysicalDisk)
  | retry (idx : Nat) (disk : PhysicalDisk)
  | remount (r : PendingRemount)
deriving DecidableEq, Repr

def PendingRemount.target : PendingRemount → Target
  | .physical disk _ => .disk disk
  | .virtual path => .image path

def Call.target : Call → Target
  | .create path => .image path
  | .mount path => .image path
  | .pick _ disk => .disk disk
  | .retry _ disk => .disk disk
  | .remount r => r.target

/-- What a call that succeeds does to the menu.  A remount sets its own flag only. -/
def Call.mark (m : Menu) : Call → Menu
  | .create _ => m.markVirtualMounted
  | .mount _ => m.markVirtualMounted
  | .pick idx _ => m.markPhysicalMounted idx
  | .retry idx _ => m.markPhysicalMounted idx
  | .remount (.physical _ idx) => { m with physMountedIdx := some idx }
  | .remount (.virtual _) => { m with virtualMounted := true }

/-- What a call that fails does to the menu: a pick that the host refused raises the alert. -/
def Call.refused (m : Menu) : Call → UsbError → Menu
  | .pick _ _, .permissionDenied _ => { m with physPermDenied := true }
  | .retry _ _, .permissionDenied _ => { m with physPermDenied := true }
  | _, _ => m

def Call.isRemount : Call → Bool
  | .remount _ => true
  | _ => false

/-- A call that succeeds sets the mounted flags and nothing else. -/
theorem Call.mark_eq (m : Menu) (c : Call) :
    ∃ v p, c.mark m = { m with virtualMounted := v, physMountedIdx := p } := by
  rcases c with _ | _ | _ | _ | (_ | _) <;> exact ⟨_, _, rfl⟩

/-- A call that fails raises the alert or does nothing. -/
theorem Call.refused_eq (m : Menu) (c : Call) (e : UsbError) :
    ∃ b, c.refused m e = { m with physPermDenied := b } := by
  unfold Call.refused
  split
  · exact ⟨true, rfl⟩
  · exact ⟨true, rfl⟩
  · exact ⟨m.physPermDenied, rfl⟩

namespace State

/-- The faults of a USB operation: on a QEMU that has exited, no QMP command succeeds. -/
def faultsOn (s : State) (l : Luck) : Faults :=
  match s.qemu with
  | .running => l.faults
  | _ => { l.faults with eject := false, change := .failed }

/-- The attach that the worker makes at its place, if it makes one. -/
def call (s : State) (l : Luck) : Option Call :=
  if s.qemu = .none then none
  else
    match s.place with
    | .create req => if req.create && l.createImage then req.virtualImg.map .create else none
    | .mount req => if req.virtMount then req.virtualImg.map .mount else none
    -- `physical_target`
    | .pick req =>
      match req.physToggle with
      | some idx => s.physDisks[idx]?.map (.pick idx)
      | none =>
        if req.physRetry then
          s.lastPhysToggle.bind fun idx => s.physDisks[idx]?.map (.retry idx)
        else none
    | .remount => s.pendingRemount.map .remount
    | _ => none

/-- Make the call, if there is one, and go on to `next`. -/
def serve (s : State) (l : Luck) (next : Place) : State :=
  match s.call l with
  | none => { s with place := next }
  | some c =>
    match s.usb.attach (s.faultsOn l) c.target with
    | (usb, none) =>
      { s with usb := usb, menu := c.mark s.menu,
               pendingRemount := if c.isRemount then none else s.pendingRemount, place := next }
    | (usb, some e) => { s with usb := usb, menu := c.refused s.menu e, place := next }

/-- `eject`. -/
def serveEject (s : State) (l : Luck) (next : Place) : State :=
  match s.usb.detach (s.faultsOn l) with
  | (usb, none) => { s with usb := usb, menu := s.menu.markUnmounted, place := next }
  | (usb, some _) => { s with usb := usb, place := next }

/-- `acknowledge_guest_eject`. -/
def acknowledge (s : State) (l : Luck) : State :=
  let polled := { s with usbState := none, place := .remount }
  if s.qemu ≠ .none ∧ s.usbState.map (·.mounted) = some false then
    match s.usb.acknowledgeGuestEject (s.faultsOn l) with
    | (usb, .ok true) => { polled with usb := usb, menu := s.menu.markUnmounted }
    | (usb, _) => { polled with usb := usb }
  else polled

/-- `PendingRemount::capture`. -/
def capture (s : State) (prevPhys : Option Nat) (prevVirt : Bool) : Option PendingRemount :=
  match prevPhys with
  | some idx => s.physDisks[idx]?.map (.physical · idx)
  | none => if prevVirt then s.menu.virtualImg.map .virtual else none

/-- `saved_disk_index`. -/
def savedDiskIndex (s : State) (fresh : List PhysicalDisk) : Option Nat :=
  if s.physRestoreAttempted then none
  else s.savedPhysBsd.bind fun name => fresh.findIdx? (·.bsdName = name)

/-- The flags are read for a restart. -/
def readFlags (s : State) (qemu : Qemu) (k : Cause) : State :=
  { s with qemu := qemu, place := .resetting s.menu.physMountedIdx s.menu.virtualMounted k }

/-- The worker's next step. -/
def work (s : State) (l : Luck) : State :=
  match s.place with
  | .idle =>
    -- `reap_guest`, then `respawn_after_guest_exit`
    if s.qemu = .exited then s.readFlags .none .guestExit else { s with place := .drain }
  | .resetting prevPhys prevVirt k =>
    -- a network restart starts the new QEMU before the reset, and keeps the old state when it fails
    if k.isNetwork && !l.spawn then { s with qemu := .exited, place := k.next }
    else
      { s with qemu := if k.isNetwork then .running else s.qemu,
               usb := .new s.usb.passesFds s.usb.serial, menu := s.menu.markUnmounted,
               place := .capturing prevPhys prevVirt k }
  | .capturing prevPhys prevVirt k =>
    { s with pendingRemount := s.capture prevPhys prevVirt,
             qemu := if k.isNetwork then s.qemu else if l.spawn then .running else .none,
             place := k.next }
  | .drain => { s with menu := s.menu.drain.2, place := .restart s.menu.drain.1 }
  | .restart req =>
    if req.restart then s.readFlags .none (.restart req) else { s with place := .network req }
  | .network req =>
    if l.switchNetwork && s.qemu ≠ .none then s.readFlags s.qemu (.network req)
    else { s with place := .create req }
  | .create req => s.serve l (.mount req)
  | .mount req => s.serve l (.eject req)
  | .eject req =>
    if req.eject && s.qemu ≠ .none then s.serveEject l
      (.pick req) else { s with place := .pick req }
  | .pick req =>
    { s.serve l .acknowledge with lastPhysToggle := req.physToggle.or s.lastPhysToggle }
  | .acknowledge => s.acknowledge l
  | .remount => s.serve l .refresh
  | .refresh =>
    match l.scan with
    | none => { s with place := .idle }
    | some fresh =>
      { s with menu := s.menu.publishDisks fresh (s.savedDiskIndex fresh), physDisks := fresh,
               physRestoreAttempted := true, place := .idle }

/-- One step of the menu, the guest or the worker. -/
def step (s : State) : Ev → Option State
  | .work l => some (s.work l)
  | .guestExit => if s.qemu = .running then some { s with qemu := .exited } else none
  | .guestLine mounted =>
    -- the guest speaks about the medium in its drive
    if s.qemu = .running ∧ s.usb.drive ≠ .placeholder then
      some { s with wire := s.wire ++ [⟨mounted, s.usb.serial⟩] }
    else none
  | .deliver =>
    match s.wire with
    | line :: wire => some { s with wire := wire, usbState := some line }
    | [] => none
  | e => (s.menu.act e).map fun m => { s with menu := m }

end State

/-- The menu, the worker and the guest as a machine. -/
abbrev usbMachine : Machine State Ev := ⟨State.step⟩

/-- The state of the first worker of the process, as `Worker::new` and `connect_or_start` leave it,
    with or without a QEMU: the slot's saved image is selected and queued, or its saved disk is to
    be picked at the first scan.

    A worker that is started again after `worker_exit_requested` does not begin here: it finds the
    flags and `usb_virtual_img` of the menu as the one before it has left them.  Nothing is said of
    such a relaunch. -/
def started (passesFds : Bool) (qemu : Qemu) (img savedPhysBsd : Option String) : State where
  menu := ⟨img, false, false, false, false, [], none, none, false, false, false, false⟩
  physDisks := []
  lastPhysToggle := none
  pendingRemount := img.map .virtual
  usb := .new passesFds 0
  qemu := qemu
  savedPhysBsd := savedPhysBsd
  physRestoreAttempted := savedPhysBsd.isNone
  wire := []
  usbState := none
  place := .idle

/-- `n` steps of the worker in which nothing goes wrong; eleven are a tick without a restart. -/
def ticks (n : Nat) : List Ev := List.replicate n (.work {})

/-! ## What one step can do

  `Works` lists the worker's steps once; the invariants of the modules that follow go through this
  list and never through `State.work`. -/

/-- The attaches that the worker can make, with where each comes from. -/
inductive Calls (s : State) : Call → Prop
  | create {req path} : s.place = .create req → req.create → req.virtualImg = some path →
      Calls s (.create path)
  | mount {req path} : s.place = .mount req → req.virtMount → req.virtualImg = some path →
      Calls s (.mount path)
  | pick {req i d} : s.place = .pick req → req.physToggle = some i → s.physDisks[i]? = some d →
      Calls s (.pick i d)
  | retry {req i d} : s.place = .pick req → req.physToggle = none → req.physRetry →
      s.lastPhysToggle = some i → s.physDisks[i]? = some d → Calls s (.retry i d)
  | remount {r} : s.place = .remount → s.pendingRemount = some r → Calls s (.remount r)

theorem calls {s : State} {l : Luck} {c : Call} (h : s.call l = some c) : Calls s c := by
  unfold State.call at h
  obtain ⟨-, h⟩ := Option.ite_none_left_eq_some.mp h
  cases hp : s.place with
  | create req =>
    simp only [hp, Option.ite_none_right_eq_some, Bool.and_eq_true, Option.map_eq_some_iff] at h
    obtain ⟨⟨hreq, -⟩, path, hpath, rfl⟩ := h
    exact .create hp hreq hpath
  | mount req =>
    simp only [hp, Option.ite_none_right_eq_some, Option.map_eq_some_iff] at h
    obtain ⟨hreq, path, hpath, rfl⟩ := h
    exact .mount hp hreq hpath
  | pick req =>
    simp only [hp] at h
    cases htog : req.physToggle with
    | some i =>
      simp only [htog, Option.map_eq_some_iff] at h
      obtain ⟨d, hd, rfl⟩ := h
      exact .pick hp htog hd
    | none =>
      simp only [htog, Option.ite_none_right_eq_some, Option.bind_eq_some_iff,
        Option.map_eq_some_iff] at h
      obtain ⟨hretry, i, hi, d, hd, rfl⟩ := h
      exact .retry hp htog hretry hi hd
  | remount =>
    simp only [hp, Option.map_eq_some_iff] at h
    obtain ⟨r, hr, rfl⟩ := h
    exact .remount hp hr
  | _ => simp [hp] at h

/-- What serving a place leaves. -/
inductive Served (s : State) (l : Luck) (next : Place) : State → Prop
  | skipped : s.call l = none → Served s l next { s with place := next }
  | attached {c : Call} {v : Manager} : s.call l = some c →
      s.usb.attach (s.faultsOn l) c.target = (v, none) →
      AttachResult s.usb (s.faultsOn l) c.target v none →
      Served s l next { s with
        usb := v, menu := c.mark s.menu,
        pendingRemount := if c.isRemount then none else s.pendingRemount, place := next }
  | failed {c : Call} {v : Manager} {e : UsbError} : s.call l = some c →
      s.usb.attach (s.faultsOn l) c.target = (v, some e) →
      AttachResult s.usb (s.faultsOn l) c.target v (some e) →
      Served s l next { s with usb := v, menu := c.refused s.menu e, place := next }

theorem served (s : State) (l : Luck) (next : Place) : Served s l next (s.serve l next) := by
  unfold State.serve
  split
  · exact .skipped ‹_›
  · rename_i c hc
    have hres := attachResult s.usb (s.faultsOn l) c.target
    split
    · rename_i v hv
      rw [hv] at hres
      exact .attached hc hv hres
    · rename_i v e hv
      rw [hv] at hres
      exact .failed hc hv hres

theorem Served.place {s t : State} {l : Luck} {next : Place} (h : Served s l next t) :
    t.place = next := by
  cases h <;> rfl

/-- The places that make an attach, but for the pick, and the place after each. -/
def Place.serves : Place → Option Place
  | .create req => some (.mount req)
  | .mount req => some (.eject req)
  | .remount => some .refresh
  | _ => none

theorem Place.serves_cases {p next : Place} (h : p.serves = some next) :
    (∃ req, p = .create req ∧ next = .mount req) ∨ (∃ req, p = .mount req ∧ next = .eject req) ∨
      (p = .remount ∧ next = .refresh) := by
  cases p with
  | create req => exact .inl ⟨req, rfl, (Option.some.inj h).symm⟩
  | mount req => exact .inr (.inl ⟨req, rfl, (Option.some.inj h).symm⟩)
  | remount => exact .inr (.inr ⟨rfl, (Option.some.inj h).symm⟩)
  | _ => nomatch h

/-- The worker's steps: the state after each. -/
inductive Works (s : State) (l : Luck) : State → Prop
  | reap : s.place = .idle → s.qemu = .exited → Works s l (s.readFlags .none .guestExit)
  | begins : s.place = .idle → Works s l { s with place := .drain }
  | keeps {pp pv k} : s.place = .resetting pp pv k → k.isNetwork → l.spawn = false →
      Works s l { s with qemu := .exited, place := k.next }
  | resets {pp pv k} {q : Qemu} : s.place = .resetting pp pv k → (q = .running ∨ q = s.qemu) →
      Works s l { s with
        qemu := q, usb := .new s.usb.passesFds s.usb.serial, menu := s.menu.markUnmounted,
        place := .capturing pp pv k }
  | captures {pp pv k} {q : Qemu} : s.place = .capturing pp pv k →
      Works s l { s with
        pendingRemount := s.capture pp pv, qemu := q, place := k.next }
  | drains : s.place = .drain →
      Works s l { s with menu := s.menu.drain.2, place := .restart s.menu.drain.1 }
  | restarts {req} : s.place = .restart req → req.restart →
      Works s l (s.readFlags .none (.restart req))
  | restartsNot {req} : s.place = .restart req → Works s l { s with place := .network req }
  | switches {req} : s.place = .network req → l.switchNetwork → s.qemu ≠ .none →
      Works s l (s.readFlags s.qemu (.network req))
  | switchesNot {req} : s.place = .network req → Works s l { s with place := .create req }
  | serves {next t} : s.place.serves = some next → Served s l next t → Works s l t
  | ejects {req v} : s.place = .eject req → req.eject → Detached s.usb (s.faultsOn l) v none →
      s.qemu ≠ .none →
      Works s l { s with usb := v, menu := s.menu.markUnmounted, place := .pick req }
  | ejectFails {req v e} : s.place = .eject req → req.eject →
      Detached s.usb (s.faultsOn l) v (some e) → Works s l { s with usb := v, place := .pick req }
  | ejectsNot {req} : s.place = .eject req → (req.eject → s.qemu = .none) →
      Works s l { s with place := .pick req }
  | picks {req t} : s.place = .pick req → Served s l .acknowledge t →
      Works s l { t with lastPhysToggle := req.physToggle.or s.lastPhysToggle }
  | polls : s.place = .acknowledge →
      (s.qemu ≠ .none → s.usbState.map (·.mounted) = some false → s.usb.current = none) →
      Works s l { s with usbState := none, place := .remount }
  | acknowledges {line v} : s.place = .acknowledge → s.usbState = some line → line.mounted = false →
      s.usb.current ≠ none → Detached s.usb (s.faultsOn l) v none → s.qemu ≠ .none →
      Works s l { s with
        usbState := none, usb := v, menu := s.menu.markUnmounted, place := .remount }
  | acknowledgeFails {line v e} : s.place = .acknowledge → s.usbState = some line →
      line.mounted = false → Detached s.usb (s.faultsOn l) v (some e) →
      Works s l { s with usbState := none, usb := v, place := .remount }
  | scans {fresh} : s.place = .refresh → l.scan = some fresh →
      Works s l { s with
        menu := s.menu.publishDisks fresh (s.savedDiskIndex fresh), physDisks := fresh,
        physRestoreAttempted := true, place := .idle }
  | scansNot : s.place = .refresh → l.scan = none → Works s l { s with place := .idle }

theorem works_serveEject {s : State} {req : Requests} (l : Luck) (hp : s.place = .eject req)
    (hreq : req.eject) (hq : s.qemu ≠ .none) : Works s l (s.serveEject l (.pick req)) := by
  have hdet := detached s.usb (s.faultsOn l)
  unfold State.serveEject
  split
  · rename_i v hv
    rw [hv] at hdet
    exact .ejects hp hreq hdet hq
  · rename_i v e hv
    rw [hv] at hdet
    exact .ejectFails hp hreq hdet

theorem works_acknowledge {s : State} (l : Luck) (hp : s.place = .acknowledge) :
    Works s l (s.acknowledge l) := by
  unfold State.acknowledge
  split
  · rename_i hcell
    have hdet := detached s.usb (s.faultsOn l)
    obtain ⟨line, hline, hmounted⟩ := Option.map_eq_some_iff.mp hcell.2
    rw [acknowledgeGuestEject_eq]
    rcases hd : s.usb.detach (s.faultsOn l) with ⟨v, r⟩
    rw [hd] at hdet
    cases r with
    | some e => exact .acknowledgeFails hp hline hmounted hdet
    | none =>
      cases hc : s.usb.current with
      | some a => exact .acknowledges hp hline hmounted (by simp [hc]) hdet hcell.1
      | none =>
        cases hdet with
        | nothing => exact .polls hp fun _ _ => hc
        | ejected hne => exact absurd hc hne
  · rename_i hcell
    exact .polls hp fun hq hfalse => absurd ⟨hq, hfalse⟩ hcell

/-- **Inversion.**  Every step of the worker is one of the listed ones. -/
theorem works (s : State) (l : Luck) : Works s l (s.work l) := by
  unfold State.work
  -- each place has its step, with the guards as hypotheses
  cases hp : s.place with
  | idle =>
    dsimp only
    split
    · exact .reap hp ‹_›
    · exact .begins hp
  | resetting pp pv k =>
    dsimp only
    split
    · rename_i hk
      simp only [Bool.and_eq_true, Bool.not_eq_true'] at hk
      exact .keeps hp hk.1 hk.2
    · refine .resets hp ?_
      split
      · exact .inl rfl
      · exact .inr rfl
  | capturing pp pv k => exact .captures hp
  | drain => exact .drains hp
  | restart req =>
    dsimp only
    split
    · exact .restarts hp ‹_›
    · exact .restartsNot hp
  | network req =>
    dsimp only
    split
    · rename_i hn
      simp only [Bool.and_eq_true, decide_eq_true_eq] at hn
      exact .switches hp hn.1 hn.2
    · exact .switchesNot hp
  | create req => exact .serves (by rw [hp]; rfl) (served s l _)
  | mount req => exact .serves (by rw [hp]; rfl) (served s l _)
  | eject req =>
    dsimp only
    split
    · rename_i hreq
      simp only [Bool.and_eq_true, decide_eq_true_eq] at hreq
      exact works_serveEject l hp hreq.1 hreq.2
    · rename_i hnot
      simp only [Bool.and_eq_true, decide_eq_true_eq, not_and, not_not] at hnot
      exact .ejectsNot hp hnot
  | pick req => exact .picks hp (served s l _)
  | acknowledge => exact works_acknowledge l hp
  | remount => exact .serves (by rw [hp]; rfl) (served s l _)
  | refresh =>
    dsimp only
    cases hscan : l.scan with
    | none => exact .scansNot hp hscan
    | some fresh => exact .scans hp hscan

/-- The steps of the menu and of the API. -/
inductive Menu.Acts (m : Menu) : Ev → Menu → Prop
  | clickMounted {i} : m.physMountedIdx = some i → Acts m (.clickDisk i) m
  | click {i} : m.physMountedIdx ≠ some i →
      Acts m (.clickDisk i) { m with physToggleIdx := some i }
  | clickEject : Acts m .clickEject { m with ejectReq := true }
  | create {path} :
      Acts m (.pickImage true path) { m with virtualImg := some path, createReq := true }
  | mount {path} :
      Acts m (.pickImage false path) { m with virtualImg := some path, mountReq := true }
  | attachMounted {path} : Acts m (.apiAttach path) m
  | attach {path} : ¬ (m.virtualMounted ∧ m.virtualImg = some path) →
      Acts m (.apiAttach path)
        { m with virtualMounted := false, virtualImg := some path, mountReq := true }
  | ejectNothing : Acts m .apiEject m
  | eject : Acts m .apiEject { m with ejectReq := true }
  | showAlert : m.physPermDenied →
      Acts m .showAlert { m with physPermDenied := false, alert := true }
  | answerAlert {retry} : m.alert →
      Acts m (.answerAlert retry) { m with alert := false, physRetryReq := m.physRetryReq || retry }
  | requestRestart : Acts m .requestRestart { m with restartRequested := true }

theorem Menu.acts {m m' : Menu} {e : Ev} (ha : m.act e = some m') : m.Acts e m' := by
  cases e with
  -- a click, the API or the alert; each sets its own fields of the menu
  | clickDisk i =>
    obtain ⟨-, ha⟩ := Option.ite_none_right_eq_some.mp ha
    obtain rfl := Option.some.inj ha
    split
    · exact .clickMounted ‹_›
    · exact .click ‹_›
  | pickImage create path =>
    cases create with
    | true =>
      obtain rfl := Option.some.inj ha
      exact .create
    | false =>
      obtain rfl := Option.some.inj ha
      exact .mount
  | clickEject =>
    obtain rfl := Option.some.inj ha
    exact .clickEject
  | apiAttach path =>
    obtain rfl := Option.some.inj ha
    split
    · exact .attachMounted
    · exact .attach ‹_›
  | apiEject =>
    obtain rfl := Option.some.inj ha
    split
    · exact .ejectNothing
    · exact .eject
  | showAlert =>
    obtain ⟨hden, ha⟩ := Option.ite_none_right_eq_some.mp ha
    obtain rfl := Option.some.inj ha
    exact .showAlert hden
  | answerAlert retry =>
    obtain ⟨halert, ha⟩ := Option.ite_none_right_eq_some.mp ha
    obtain rfl := Option.some.inj ha
    exact .answerAlert halert
  | requestRestart =>
    obtain rfl := Option.some.inj ha
    exact .requestRestart
  | _ => nomatch ha

/-- The steps of the whole: the worker's, the guest's, the reader thread's and the menu's. -/
inductive Steps (s : State) : Ev → State → Prop
  | works {l t} : Works s l t → Steps s (.work l) t
  | exits : s.qemu = .running → Steps s .guestExit { s with qemu := .exited }
  | sends {b} : s.usb.drive ≠ .placeholder →
      Steps s (.guestLine b) { s with wire := s.wire ++ [⟨b, s.usb.serial⟩] }
  | delivers {line wire} : s.wire = line :: wire →
      Steps s .deliver { s with wire := wire, usbState := some line }
  | acts {e m} : s.menu.Acts e m → Steps s e { s with menu := m }

theorem steps {s t : State} {e : Ev} (h : usbMachine.step s e = some t) : Steps s e t := by
  have hacts : (s.menu.act e).map (fun m => { s with menu := m }) = some t → Steps s e t := by
    intro h
    obtain ⟨m, hm, rfl⟩ := Option.map_eq_some_iff.mp h
    exact .acts (Menu.acts hm)
  cases e with
  | work l =>
    obtain rfl : s.work l = t := Option.some.inj h
    exact .works (works s l)
  | guestExit =>
    obtain ⟨hq, h⟩ := Option.ite_none_right_eq_some.mp h
    obtain rfl := Option.some.inj h
    exact .exits hq
  | guestLine b =>
    obtain ⟨hq, h⟩ := Option.ite_none_right_eq_some.mp h
    obtain rfl := Option.some.inj h
    exact .sends hq.2
  | deliver =>
    change (match s.wire with | line :: wire => _ | [] => none) = some t at h
    cases hw : s.wire with
    | nil => rw [hw] at h; nomatch h
    | cons line wire =>
      rw [hw] at h
      obtain rfl := Option.some.inj h
      exact .delivers hw
  | _ => exact hacts h

/-! ## What holds in every run -/

/-- The worker is at a place where no QEMU runs that it has attached anything to. -/
def State.detached (s : State) : Prop :=
  match s.place with
  | .resetting _ _ _ => False
  | .capturing _ _ _ => True
  | _ => s.qemu = .none

/-- **The invariant of every run.**  The menu lists the worker's disks, what the manager remembers
    is in the drive, and it remembers nothing while there is no QEMU. -/
structure Sane (s : State) : Prop where
  published : s.menu.physDisks = s.physDisks.map (·.bsdName)
  named : ∀ a, s.usb.current = some a → a.Names s.usb.drive
  off : s.detached → s.usb.current = none

section Sane

variable {s t : State} {l : Luck} {e : Ev}

/-- A manager that remembers nothing. -/
theorem Sane.of_none (hpub : t.menu.physDisks = t.physDisks.map (·.bsdName))
    (hcur : t.usb.current = none) : Sane t where
  published := hpub
  named a ha := by rw [hcur] at ha; nomatch ha
  off _ := hcur

theorem Sane.detach {f : Faults} {v : Manager} {r : Option UsbError} {m : Menu} {c : Option Line}
    {p : Place} (h : Sane s) (hdet : Detached s.usb f v r)
    (hpub : m.physDisks = s.menu.physDisks) :
    Sane { s with usbState := c, usb := v, menu := m, place := p } := by
  have hpub : m.physDisks = s.physDisks.map (·.bsdName) := hpub.trans h.published
  exact .of_none hpub hdet.current

theorem qemu_of_call {c : Call} (h : s.call l = some c) : s.qemu ≠ .none :=
  (Option.ite_none_left_eq_some.mp h).1

theorem Served.sane {next : Place} (h : Sane s) (hserved : Served s l next t)
    (hnext : { s with place := next }.detached → s.qemu = .none)
    (hthis : s.qemu = .none → s.detached) : Sane t := by
  cases hserved with
  | skipped => exact { h with off := fun hd => h.off (hthis (hnext hd)) }
  | @attached c v hc _ hres =>
    obtain ⟨vm, pm, hmark⟩ := c.mark_eq s.menu
    rw [hmark]
    cases hres with
    | ok _ _ _ hcur hnames =>
      refine ⟨h.published, fun a ha => ?_, fun hd => absurd (hnext hd) (qemu_of_call hc)⟩
      obtain rfl := Option.some.inj (hcur.symm.trans ha)
      exact hnames
  | @failed c v err hc _ hres =>
    obtain ⟨b, hmenu⟩ := c.refused_eq s.menu err
    rw [hmenu]
    exact .of_none h.published hres.current

theorem Works.sane (h : Sane s) (hw : Works s l t) : Sane t := by
  have hoff : (s.qemu = .none → s.detached) → s.qemu = .none → s.usb.current = none :=
    fun hd hq => h.off (hd hq)
  cases hw with
  | reap hp => exact { h with off := fun hd => hd.elim }
  | restarts hp => exact { h with off := fun hd => hd.elim }
  | switches hp => exact { h with off := fun hd => hd.elim }
  | begins hp => exact { h with off := hoff (by simp [State.detached, hp]) }
  | restartsNot hp => exact { h with off := hoff (by simp [State.detached, hp]) }
  | switchesNot hp => exact { h with off := hoff (by simp [State.detached, hp]) }
  | ejectsNot hp => exact { h with off := hoff (by simp [State.detached, hp]) }
  | polls hp => exact { h with off := hoff (by simp [State.detached, hp]) }
  | scansNot hp => exact { h with off := hoff (by simp [State.detached, hp]) }
  | scans hp => exact { h with published := rfl, off := hoff (by simp [State.detached, hp]) }
  | @keeps pp pv k =>
    refine { h with off := fun hd => ?_ }
    cases k <;> nomatch hd
  | resets => exact .of_none h.published rfl
  | captures hp => exact .of_none h.published (h.off (by simp [State.detached, hp]))
  | drains hp => exact { h with off := hoff (by simp [State.detached, hp]) }
  | serves hserves hserved =>
    rcases Place.serves_cases hserves with ⟨req, hp, rfl⟩ | ⟨req, hp, rfl⟩ | ⟨hp, rfl⟩ <;>
      exact hserved.sane h id (by simp [State.detached, hp])
  | picks hp hserved => exact { hserved.sane h id (by simp [State.detached, hp]) with }
  | ejects _ _ hdet => exact h.detach hdet rfl
  | ejectFails _ _ hdet => exact h.detach hdet rfl
  | acknowledges _ _ _ _ hdet => exact h.detach hdet rfl
  | acknowledgeFails _ _ _ hdet => exact h.detach hdet rfl

/-- **Step lemma**, for every step. -/
theorem Sane.step (h : Sane s) (hs : usbMachine.step s e = some t) : Sane t := by
  cases steps hs with
  | works hw => exact hw.sane h
  | exits hq =>
    refine { h with off := fun hd => h.off ?_ }
    unfold State.detached at hd ⊢
    cases hp : s.place <;> simp_all
  | sends => exact { h with }
  | delivers => exact { h with }
  | acts ha =>
    -- no act touches the list that the menu shows
    cases ha <;> exact { h with }

end Sane

theorem sane_started (passesFds : Bool) (qemu : Qemu) (img savedPhysBsd : Option String) :
    Sane (started passesFds qemu img savedPhysBsd) :=
  .of_none rfl rfl

end CdjEmu.Usb
