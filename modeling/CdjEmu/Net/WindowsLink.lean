/-
  THE WINDOWS LINKS — apps, elevated helpers and watchers around the host's bridge.

  An app that is bridged takes its slot's lease and has a helper run elevated.  Under the bridge
  mutex the helper makes the slot's tap, joins tap and NIC to the bridge, and leaves a watcher
  behind.  Once the lease or the app is gone the watcher takes the tap out again, under the same
  mutex.  It does not where a later claim is in the slot's file: then that setup is to see to it,
  however it ends.

  Two arguments carry the results.  A link in use is safe because of the claim file: whoever is
  about to take something from the slot has looked at it under the mutex since the helper was done,
  and has found another claim (`Guarded`).  The app's bridge is removed because somebody still has
  to: every slot with a tap in it has a watcher that has not decided yet, or a setup that has not
  ended (`Covered`).  Where a setup ends badly, or a watcher leaves the matter to one, nobody may be
  left (`refused_setup_leaves_the_bridge`).

  Processes and requests are numbered as they come; a request's number is in nothing that a step
  looks at.

  `watcherMove`, `helperMove` and the app's moves say once what a step of each process can do to the
  host and to the files; the invariant is proved over these moves and not over the steps.  It has
  three parts: what each process knows of the host while it holds the mutex, who looks after each
  slot whose tap is in the bridge, and what the app of each slot has reached.

  The condition `Orderly` is on the run alone: a setup that was started comes to its end, a watcher
  that leaves a slot to a later claim leaves it to one whose setup is still to come, and no adapter
  that the user has named is one of ours.  Runs in which every helper works out meet it
  (`orderly_of_worksOut`).
-/
import CdjEmu.Lib.Machine
import CdjEmu.Net.Lease
import CdjEmu.Net.WindowsBridge

namespace CdjEmu.Net.Windows

open Machine Lease

/-- What the elevated copies are asked to do; `run` is the app's process,
    `no` which request it is. -/
structure Request where
  slot : Nat
  nic : Nat
  run : Nat
  claim : Claim
  no : Nat
  deriving DecidableEq

/-- Where a helper is. -/
inductive HelperStage where
  /-- The prompt is up. -/
  | prompt
  /-- `BridgeLock::take`. -/
  | lock
  /-- `slot_tap` and `prepare_tap`. -/
  | tap
  /-- `host_bridge`. -/
  | bridge
  /-- `join_bridge`, for the tap and for the NIC. -/
  | joinTap
  | joinNic
  /-- `wait_openable`. -/
  | openable
  /-- `start_watcher`. -/
  | watcher
  /-- The mutex is free again, and the verdict is to be written. -/
  | report (done : Bool)
  | ended
  deriving DecidableEq

/-- The elevated copy of the app, with the request it was started for. -/
structure Helper where
  req : Request
  stage : HelperStage
  deriving DecidableEq

/-- Where a watcher is. -/
inductive WatcherStage where
  /-- The claim is read, then the app is tested. -/
  | poll
  | test
  /-- `BridgeLock::take`, once either is gone. -/
  | lock
  /-- `reclaimed`. -/
  | check
  | takeDown
  /-- The answer is written, and the mutex let go. -/
  | answer
  /-- The adapter's turn: a second of sleep, then the mutex. -/
  | rest
  /-- `reclaimed`, once more. -/
  | again
  /-- The slot's adapter is looked up, and removed unless QEMU has it open. -/
  | look
  | finished
  deriving DecidableEq

/-- The process that outlives the app and takes its adapter down. -/
structure Watcher where
  req : Request
  stage : WatcherStage
  deriving DecidableEq

/-- Where the app's process is. -/
inductive Place where
  | idle
  /-- `setup` has removed the result. -/
  | begun (nic : Nat)
  /-- `Lease::take` has removed the answer. -/
  | cleared (nic : Nat)
  | claimed (req : Request)
  /-- In `run_elevated`. -/
  | elevating (req : Request) (helper : Nat)
  /-- A `WindowsBridge`. -/
  | live (req : Request)
  | dropping (req : Request) (watched : Bool) (d : Dropping)
  deriving DecidableEq

/-- An app's process. -/
structure App where
  pid : Nat
  run : Nat
  place : Place
  deriving DecidableEq

/-- A slot: its app, and the files of its directory. -/
structure Slot where
  app : Option App
  files : LeaseFiles
  /-- The helper's verdict, and the number of the request it was written for. -/
  result : Option (Bool × Nat)

/-- Who holds the mutex. -/
inductive Holder where
  | helper (i : Nat)
  | watcher (i : Nat)
  deriving DecidableEq

/-- All slots, the host's adapters and bridge, the mutex, and every helper
    and watcher ever started. -/
structure State where
  slot : Nat → Slot
  host : Host
  mutex : Option Holder
  helpers : List Helper
  watchers : List Watcher
  runs : Nat
  requests : Nat

/-- What an app does of its own accord. -/
inductive AppEvent where
  | launch (pid : Nat)
  | die
  | setup (nic : Nat)
  | clear
  | claim (ms : Nat)
  /-- The app's own path is not to be had. -/
  | abort
  | elevate
  /-- `run_elevated` returns, and the result is read. -/
  | ran
  | drop
  | settle (late : Bool)

/-- What happens to an elevated copy. -/
inductive HelperEvent where
  | granted
  | refused
  /-- The next step; `both` says whether `netsh bridge create` joins the NIC too. -/
  | go (both : Bool)
  /-- The step fails, or the copy crashes; `silent` says that it leaves no verdict. -/
  | fail (silent : Bool)

/-- Whose turn it is, and how its step ends. -/
inductive Event where
  | app (slot : Nat) (e : AppEvent)
  | helper (i : Nat) (e : HelperEvent)
  /-- A watcher's next step: whether it watches another process under the app's pid, whether its
      time for the adapter is up, and whether QEMU has the adapter open. -/
  | watcher (i : Nat) (other late connected : Bool)

namespace HelperStage

/-- Between the mutex and its release. -/
def locked : HelperStage → Bool
  | .tap | .bridge | .joinTap | .joinNic | .openable | .watcher => true
  | _ => false

/-- A watcher can still come of it. -/
def pending : HelperStage → Bool
  | .report _ | .ended => false
  | _ => true

end HelperStage

namespace WatcherStage

/-- The stages of a watcher inside the mutex. -/
def locked : WatcherStage → Bool
  | .check | .takeDown | .answer | .again | .look => true
  | _ => false

/-- It has not left the bridge to a later claim. -/
def undecided : WatcherStage → Bool
  | .poll | .test | .lock | .check | .takeDown => true
  | _ => false

end WatcherStage

variable (named : Nat → Bool)

namespace State

variable (s : State)

/-- One slot's files and app. -/
def setSlot (k : Nat) (x : Slot) : State := { s with slot := Function.update s.slot k x }

/-- One slot's app, with its files left alone. -/
def setApp (k : Nat) (app : App) : State := s.setSlot k { s.slot k with app := some app }

/-- One helper of the list. -/
def setHelper (i : Nat) (h : Helper) : State := { s with helpers := s.helpers.set i h }

/-- One watcher of the list. -/
def setWatcher (i : Nat) (w : Watcher) : State := { s with watchers := s.watchers.set i w }

/-! ## The app -/

/-- A process's own steps. -/
def appNext (k : Nat) (x : App) : Place → AppEvent → Option State
  | .idle, .setup nic =>
    some (s.setSlot k { s.slot k with app := some { x with place := .begun nic }, result := none })
  | .begun nic, .clear =>
    some (s.setSlot k { s.slot k with
      app := some { x with place := .cleared nic }, files := (s.slot k).files.forgetAnswer })
  | .cleared nic, .claim ms =>
    let req : Request := ⟨k, nic, x.run, ⟨x.pid, ms⟩, s.requests⟩
    some { s.setSlot k { s.slot k with
      app := some { x with place := .claimed req }, files := (s.slot k).files.take req.claim } with
      requests := s.requests + 1 }
  | .claimed req, .abort => some (s.setApp k { x with place := .dropping req false .compare })
  | .claimed req, .elevate =>
    some { s.setApp k { x with place := .elevating req s.helpers.length } with
      helpers := s.helpers ++ [⟨req, .prompt⟩] }
  | .elevating req i, .ran =>
    if (s.helpers[i]?.map Helper.stage) = some .ended then
      match (s.slot k).result with
      | some (true, _) => some (s.setApp k { x with place := .live req })
      | _ => some (s.setApp k { x with place := .dropping req false .compare })
    else none
  | .live req, .drop => some (s.setApp k { x with place := .dropping req true .compare })
  | .dropping req watched d, .settle late =>
    let r := d.step (s.slot k).files req.claim watched late
    some (s.setSlot k { s.slot k with
      app := some { x with place := r.2.elim .idle (.dropping req watched) }, files := r.1 })
  | _, _ => none

/-- The app of slot `k` takes a step; its next one depends on the place it has reached. -/
def appStep (k : Nat) : AppEvent → Option State
  | .launch pid =>
    if (s.slot k).app.isNone then some { s.setApp k ⟨pid, s.runs, .idle⟩ with runs := s.runs + 1 }
      else none
  | .die => if (s.slot k).app.isSome then some (s.setSlot k { s.slot k with app := none }) else none
  | e =>
    match (s.slot k).app with
    | some x => s.appNext k x x.place e
    | none => none

/-! ## The helper -/

/-- `set_up` goes on to `stage`, with the host as it is then. -/
def helperTo (i : Nat) (h : Helper) (stage : HelperStage) (host : Host) : State :=
  { s.setHelper i { h with stage } with host }

/-- A helper takes a step.  The user's answer comes before the mutex, and a
    crash may leave no verdict. -/
def helperStep (i : Nat) (h : Helper) : HelperEvent → Option State
  | .granted => if h.stage = .prompt then some (s.helperTo i h .lock s.host) else none
  | .refused => if h.stage = .prompt then some (s.helperTo i h .ended s.host) else none
  | .go both =>
    match h.stage with
    | .lock => if s.mutex.isNone then some { s.helperTo i h .tap s.host with
        mutex := some (.helper i) } else none
    | .tap => some (s.helperTo i h .bridge (s.host.slotTap h.req.slot))
    | .bridge => some (s.helperTo i h .joinTap (s.host.hostBridge h.req.slot h.req.nic both))
    | .joinTap => some (s.helperTo i h .joinNic (s.host.join (.tap h.req.slot)))
    | .joinNic => some (s.helperTo i h .openable (s.host.join (.nic h.req.nic)))
    | .openable => some (s.helperTo i h .watcher s.host)
    | .watcher =>
      some { s.helperTo i h (.report true) s.host with
        watchers := s.watchers ++ [⟨h.req, .poll⟩], mutex := none }
    | .report done =>
      some ((s.helperTo i h .ended s.host).setSlot h.req.slot
        { s.slot h.req.slot with result := some (done, h.req.no) })
    | _ => none
  | .fail silent =>
    if h.stage = .prompt ∨ h.stage = .ended then none
    else
      let stage := if silent || !h.stage.pending then .ended else .report false
      some { s.helperTo i h stage s.host with mutex := if h.stage.locked then none else s.mutex }

/-! ## The watcher -/

/-- Whether the slot's file has another claim. -/
def reclaimed (req : Request) : Bool := (s.slot req.slot).files.claim.any fun c =>
  decide (c ≠ req.claim)

/-- `watch` goes on to `stage`. -/
def watcherTo (i : Nat) (w : Watcher) (stage : WatcherStage) (mutex : Option Holder) (host : Host) :
    State :=
  { s.setWatcher i { w with stage } with mutex, host }

/-- A watcher takes a step.  It polls the claim, tests whether the app is alive, and then decides
    within the mutex. -/
def watcherStep (i : Nat) (w : Watcher) (other late connected : Bool) : Option State :=
  match w.stage with
  | .poll =>
    let claimed := decide ((s.slot w.req.slot).files.claim = some w.req.claim)
    some (s.watcherTo i w (if claimed then .test else .lock) s.mutex s.host)
  | .test =>
    let alive := other || (s.slot w.req.slot).app.any fun x => decide (x.run = w.req.run)
    some (s.watcherTo i w (if alive then .poll else .lock) s.mutex s.host)
  | .lock =>
    if s.mutex.isNone then some (s.watcherTo i w .check (some (.watcher i)) s.host) else none
  | .check =>
    some (s.watcherTo i w (if s.reclaimed w.req then .answer else .takeDown) s.mutex s.host)
  | .takeDown => some (s.watcherTo i w .answer s.mutex (s.host.takeDown named w.req.slot))
  | .answer =>
    some ((s.watcherTo i w .rest none s.host).setSlot w.req.slot
      { s.slot w.req.slot with
        files := { (s.slot w.req.slot).files with released := some w.req.claim } })
  | .rest =>
    if late then some (s.watcherTo i w .finished s.mutex s.host)
    else if s.mutex.isNone then some (s.watcherTo i w .again (some (.watcher i)) s.host) else none
  | .again =>
    some (if s.reclaimed w.req then s.watcherTo i w .finished none s.host
      else s.watcherTo i w .look s.mutex s.host)
  | .look =>
    if s.host.taps w.req.slot then
      if connected then some (s.watcherTo i w .rest none s.host)
      else some (s.watcherTo i w .finished none (s.host.removeTap w.req.slot))
    else some (s.watcherTo i w .finished none s.host)
  | .finished => none

end State

/-- The apps, the helpers and the watchers, interleaved step by step. -/
def links : Machine State Event where
  step s
    | .app k e => s.appStep k e
    | .helper i e => s.helpers[i]?.bind fun h => s.helperStep i h e
    | .watcher i other late connected => s.watchers[i]?.bind fun w =>
        s.watcherStep named i w other late connected

/-- A host with taps that are left over, and with or without a bridge of the user's. -/
def boot (taps : Nat → Bool) (bridge : Option (List Adapter)) : State :=
  ⟨fun _ => ⟨none, LeaseFiles.none, none⟩,
    ⟨taps, bridge.map fun members => ⟨0, members⟩, none, [], 1⟩, none, [], [], 0, 0⟩

/-! ## A bridge in use -/

/-- The request under which a process holds its lease. -/
def Place.leased : Place → Option Request
  | .claimed req => some req
  | .elevating req _ => some req
  | .live req => some req
  | _ => none

/-- No lease is held, by an app or by the helper of one, and every watcher has finished. -/
structure Over (s : State) : Prop where
  apps : ∀ k x, (s.slot k).app = some x → x.place.leased = none
  helpers : ∀ h ∈ s.helpers, h.stage = .ended
  watchers : ∀ w ∈ s.watchers, w.stage = .finished

/-- A link in use is up; only the app's bridge is destroyed, with no other slot's tap in it; and
    none is left in the end. -/
structure Kept (s : State) : Prop where
  live : ∀ k x req, (s.slot k).app = some x → x.place = .live req → s.host.Linked k req.nic
  destroys : ∀ w ∈ s.watchers, w.stage = .takeDown → ∀ g,
    (teardown named s.host.bridge s.host.owned w.req.slot).destroy = some g →
    g ∈ s.host.made ∧ ∃ b, s.host.bridge = some b ∧ b.guid = g ∧ ∀ j, .tap j ∈ b.members →
    j = w.req.slot
  nothing_left : Over s → ∀ b, s.host.bridge = some b → b.guid ∉ s.host.made

/-- Somebody who is to see to the slot's part of the bridge: a watcher that has not decided, a
    helper that is not done, or an app that is about to run one. -/
inductive Custodian where
  | watcher (i : Nat)
  | helper (i : Nat)
  | app (k : Nat)
  deriving DecidableEq

/-- A custodian still looks after slot `k`: it will see that its adapter goes when its app does. -/
def State.sees (s : State) (k : Nat) : Custodian → Prop
  | .watcher i => ∃ w, s.watchers[i]? = some w ∧ w.req.slot = k ∧ w.stage.undecided = true
  | .helper i => ∃ h, s.helpers[i]? = some h ∧ h.req.slot = k ∧ h.stage.pending = true
  | .app j => j = k ∧ ∃ x req, (s.slot k).app = some x ∧ x.place = .claimed req

/-- The app's bridge has somebody to see to it, and so has each slot's tap in it, apart from `c`. -/
def State.Spared (s : State) (c : Option Custodian) : Prop :=
  ∀ b, s.host.bridge = some b → b.guid ∈ s.host.made →
    (∃ k c', some c' ≠ c ∧ s.sees k c') ∧ ∀ k, .tap k ∈ b.members → ∃ c', some c' ≠ c ∧ s.sees k c'

/-- No NIC is named like a tap, no claim is one that a helper or a watcher of the slot still
    goes by, no app takes the verdict on another request for its own, and nobody leaves the
    app's bridge to nobody. -/
def Orderly (s : State) : Event → Prop
  | .app _ (.setup nic) => named nic = false
  | .app k (.claim ms) => ∀ x, (s.slot k).app = some x →
      (∀ w ∈ s.watchers, w.req.slot = k → w.stage ≠ .finished → w.req.claim ≠ ⟨x.pid, ms⟩) ∧
      ∀ h ∈ s.helpers, h.req.slot = k → h.stage ≠ .ended → h.req.claim ≠ ⟨x.pid, ms⟩
  | .app k .ran => ∀ x req i n, (s.slot k).app = some x → x.place = .elevating req i →
      (s.slot k).result = some (true, n) → n = req.no
  | .app k .abort => s.Spared (some (.app k))
  | .app k .die => (∃ x req, (s.slot k).app = some x ∧ x.place = .claimed req) →
      s.Spared (some (.app k))
  | .helper i .refused => s.Spared (some (.helper i))
  | .helper i (.fail _) => (∃ h, s.helpers[i]? = some h ∧ h.stage.pending = true) →
      s.Spared (some (.helper i))
  | .watcher i _ _ _ =>
      (∃ w, s.watchers[i]? = some w ∧ w.stage = .check ∧ s.reclaimed w.req = true) →
      s.Spared (some (.watcher i))
  | _ => True

/-! ## The invariant -/

/-- What a helper has done so far is there. -/
def Helper.Facts (x : Host) (h : Helper) : Prop :=
  match h.stage with
  | .bridge => x.taps h.req.slot = true
  | .joinTap => x.taps h.req.slot = true ∧ ∃ b, x.bridge = some b
  | .joinNic => x.taps h.req.slot = true ∧ ∃ b, x.bridge = some b ∧ .tap h.req.slot ∈ b.members
  | .openable => x.Linked h.req.slot h.req.nic
  | .watcher => x.Linked h.req.slot h.req.nic
  | _ => True

/-- The helper of the request is through, and the app knows or will. -/
def State.Ready (s : State) (k : Nat) (x : App) (req : Request) : Prop :=
  x.place = .live req ∨
  (∃ h ∈ s.helpers, h.req.slot = k ∧ h.req.no = req.no ∧ h.stage = .report true) ∨
  (s.slot k).result = some (true, req.no)

/-- A lease that is held: its claim is in the file, those that go by it are its own, and once its
    link is up nobody is about to take anything from the slot. -/
structure Guarded (s : State) (k : Nat) (x : App) (req : Request) : Prop where
  slot : req.slot = k
  run : req.run = x.run
  claim : (s.slot k).files.claim = some req.claim
  watchers : ∀ w ∈ s.watchers, w.req.slot = k → w.req.claim = req.claim →
    w.stage = .finished ∨ ((w.stage = .poll ∨ w.stage = .test) ∧ w.req.run = x.run)
  helpers : ∀ h ∈ s.helpers, h.req.slot = k → h.req.claim = req.claim → h.stage ≠ .ended →
    h.req.run = x.run
  number : req.no < s.requests
  own : ∀ h ∈ s.helpers, h.req.slot = k → h.req.no = req.no → h.req = req
  up : s.Ready k x req → s.host.Linked k req.nic
  quiet : s.Ready k x req → ∀ w ∈ s.watchers, w.req.slot = k → w.stage ≠ .takeDown ∧ w.stage ≠ .look

/-- The NIC of a setup. -/
def Place.nic : Place → Option Nat
  | .begun nic => some nic
  | .cleared nic => some nic
  | .claimed req => some req.nic
  | .elevating req _ => some req.nic
  | _ => none

/-- What every reachable state keeps.  The mutex names its holder, each helper's and watcher's facts
    hold of the host, and a bridge that is in use has a custodian. -/
structure Inv (s : State) : Prop where
  host : s.host.Sound named
  helper_mutex : ∀ i h, s.helpers[i]? = some h → h.stage.locked = true → s.mutex = some (.helper i)
  watcher_mutex : ∀ i w, s.watchers[i]? = some w → w.stage.locked = true →
    s.mutex = some (.watcher i)
  nics : ∀ h ∈ s.helpers, named h.req.nic = false
  places : ∀ k x nic, (s.slot k).app = some x → x.place.nic = some nic → named nic = false
  numbers : (∀ h ∈ s.helpers, h.req.no < s.requests) ∧ ∀ k d n, (s.slot k).result = some (d, n) →
    n < s.requests
  facts : ∀ h ∈ s.helpers, h.Facts s.host
  covered : s.Spared none
  guarded : ∀ k x req, (s.slot k).app = some x → x.place.leased = some req → Guarded s k x req

variable {named}

/-- A host without an app, whatever adapters and bridge it has. -/
theorem boot_inv (taps : Nat → Bool) (bridge : Option (List Adapter)) :
    Inv named (boot taps bridge) := by
  have hnil : ∀ {h : Helper}, h ∉ (boot taps bridge).helpers := List.not_mem_nil
  have hguid : ∀ b, (boot taps bridge).host.bridge = some b → b.guid = 0 := by
    intro b hb
    obtain ⟨members, -, rfl⟩ := Option.map_eq_some_iff.mp hb
    rfl
  constructor
  · refine ⟨fun g hg => absurd hg List.not_mem_nil, ?_,
      fun g hg => absurd hg.symm (Option.some_ne_none g),
      fun b _ hmade => absurd hmade List.not_mem_nil, fun b _ hmade =>
        absurd hmade List.not_mem_nil⟩
    intro b hb
    rw [hguid b hb]
    exact Nat.one_pos
  · exact fun i h hi => absurd (List.mem_of_getElem? hi) hnil
  · exact fun i w hi => absurd (List.mem_of_getElem? hi) List.not_mem_nil
  · exact fun h hh => absurd hh hnil
  · exact fun k x nic hx => absurd hx.symm (Option.some_ne_none x)
  · exact ⟨fun h hh => absurd hh hnil, fun k d n hr => absurd hr.symm (Option.some_ne_none _)⟩
  · exact fun h hh => absurd hh hnil
  · exact fun b _ hmade => absurd hmade List.not_mem_nil
  · exact fun k x req hx => absurd hx.symm (Option.some_ne_none x)

/-- The invariant gives the property of the states reached. -/
theorem Inv.kept {s : State} (h : Inv named s) : Kept named s := by
  refine ⟨?_, ?_, ?_⟩
  · intro k x req hx hplace
    have hleased : x.place.leased = some req := by
      rw [hplace]
      rfl
    exact (h.guarded k x req hx hleased).up (Or.inl hplace)
  · intro w _ _ g hg
    exact h.host.destroys_own hg
  · intro hover b hb hmade
    obtain ⟨⟨k, c, -, hsees⟩, -⟩ := h.covered b hb hmade
    cases c with
    | watcher i =>
      obtain ⟨w, hi, -, hstage⟩ := hsees
      rw [hover.watchers w (List.mem_of_getElem? hi)] at hstage
      exact Bool.false_ne_true hstage
    | helper i =>
      obtain ⟨h', hi, -, hstage⟩ := hsees
      rw [hover.helpers h' (List.mem_of_getElem? hi)] at hstage
      exact Bool.false_ne_true hstage
    | app j =>
      obtain ⟨-, x, req, hx, hplace⟩ := hsees
      have hnone := hover.apps k x hx
      rw [hplace] at hnone
      exact Option.some_ne_none _ hnone

/-! ## Who sees to the bridge -/

/-- A bridge of ours is spared where every TAP in it is looked after. -/
theorem spared_none {s : State} (h : ∀ b, s.host.bridge = some b → b.guid ∈ s.host.made →
    (∃ k c, s.sees k c) ∧ ∀ k, .tap k ∈ b.members → ∃ c, s.sees k c) : s.Spared none := by
  intro b hb hmade
  obtain ⟨⟨k, c, hc⟩, hall⟩ := h b hb hmade
  refine ⟨⟨k, c, Option.some_ne_none c, hc⟩, ?_⟩
  intro k' hk'
  obtain ⟨c', hc'⟩ := hall k' hk'
  exact ⟨c', Option.some_ne_none c', hc'⟩

/-- The bridge stays as it is, and whoever saw to it does, apart from one who was not needed. -/
theorem State.Spared.same {s t : State} {c₀ : Option Custodian} (h : s.Spared c₀)
    (hbridge : t.host.bridge = s.host.bridge) (hmade : t.host.made = s.host.made)
    (hsees : ∀ k c, some c ≠ c₀ → s.sees k c → ∃ c', t.sees k c') : t.Spared none := by
  apply spared_none
  intro b hb hm
  rw [hbridge] at hb
  rw [hmade] at hm
  obtain ⟨⟨k, c, hne, hc⟩, hall⟩ := h b hb hm
  refine ⟨⟨k, hsees k c hne hc⟩, ?_⟩
  intro k' hk'
  obtain ⟨c', hne', hc'⟩ := hall k' hk'
  exact hsees k' c' hne' hc'

/-! ## A watcher's step -/

/-- What a watcher's step does. -/
structure WatcherMove (named : Nat → Bool) (s t : State) (i : Nat) (w : Watcher)
    (stage : WatcherStage) : Prop where
  watchers : t.watchers = s.watchers.set i { w with stage }
  helpers : t.helpers = s.helpers
  requests : t.requests = s.requests
  app : ∀ k, (t.slot k).app = (s.slot k).app
  result : ∀ k, (t.slot k).result = (s.slot k).result
  claim : ∀ k, (t.slot k).files.claim = (s.slot k).files.claim
  mutex : (t.mutex = s.mutex ∧ (stage.locked = true → w.stage.locked = true)) ∨
    (s.mutex = none ∧ t.mutex = some (.watcher i)) ∨
    (w.stage.locked = true ∧ stage.locked = false ∧ t.mutex = none)
  host : (w.stage ≠ .takeDown ∧ t.host = s.host) ∨
    (w.stage = .takeDown ∧ t.host = s.host.takeDown named w.req.slot) ∨
    (w.stage = .look ∧ t.host = s.host.removeTap w.req.slot)
  /-- It goes on watching while the claim is there and the app is. -/
  watches : w.stage = .poll ∨ w.stage = .test → (s.slot w.req.slot).files.claim = some w.req.claim →
    (∃ x, (s.slot w.req.slot).app = some x ∧ x.run = w.req.run) → stage = .poll ∨ stage = .test
  /-- It takes nothing from a slot with another claim. -/
  takes : stage = .takeDown ∨ stage = .look →
    s.reclaimed w.req = false ∧ w.stage ≠ .poll ∧ w.stage ≠ .test
  decides : w.stage.undecided = true → stage.undecided = true ∨
    (w.stage = .check ∧ s.reclaimed w.req = true) ∨
    w.stage = .takeDown
  busy : w.stage ≠ .finished

/-- What one step of a watcher can do, read off `watcher_step` once. -/
theorem watcherMove {s t : State} {i : Nat} {w : Watcher} {other late connected : Bool}
    (h : s.watcherStep named i w other late connected = some t) :
    ∃ stage, WatcherMove named s t i w stage := by
  -- an answer sets the released claim of one slot, and nothing else of any slot
  have hslots : ∀ {k : Nat} {released : Option Claim}, ∀ k',
      let y := Function.update s.slot k
          { s.slot k with files := { (s.slot k).files with released } } k'
      y.app = (s.slot k').app ∧ y.result = (s.slot k').result ∧
        y.files.claim = (s.slot k').files.claim := by
    intro k released k'
    dsimp only
    by_cases hk : k' = k
    · rw [hk, Function.update_self]
      exact ⟨rfl, rfl, rfl⟩
    · rw [Function.update_of_ne hk]
      exact ⟨rfl, rfl, rfl⟩
  -- at all other places the two premises about the place are void
  have hrests : ∀ {w₀ : WatcherStage} {P : Prop}, w₀ ≠ .poll → w₀ ≠ .test → w₀ = .poll ∨
      w₀ = .test → P :=
    fun hp ht hor => absurd hor (not_or.mpr ⟨hp, ht⟩)
  have hspares : ∀ {stage : WatcherStage} {P : Prop}, stage ≠ .takeDown → stage ≠ .look →
      stage = .takeDown ∨ stage = .look → P :=
    fun hd hl hor => absurd hor (not_or.mpr ⟨hd, hl⟩)
  obtain ⟨req, stage₀⟩ := w
  unfold State.watcherStep at h
  -- per place: what becomes of the mutex, of the host's adapters, and of the guard of the take-down
  cases stage₀ with
  | poll =>
    obtain rfl := Option.some.inj h
    refine ⟨_, rfl, rfl, rfl, fun _ => rfl, fun _ => rfl, fun _ => rfl, Or.inl ⟨rfl, ?_⟩,
      Or.inl ⟨(fun hc => by cases hc), rfl⟩, ?_, ?_, ?_, ?_⟩
    · split <;> exact fun hl => absurd hl Bool.false_ne_true
    -- a poll that sees the lease held keeps on polling
    · intro _ hlease _
      rw [if_pos (decide_eq_true hlease)]
      exact Or.inr rfl
    · split <;> exact hspares (fun hc => by cases hc) (fun hc => by cases hc)
    · intro _
      split <;> exact Or.inl rfl
    · exact fun hc => by cases hc
  | test =>
    obtain rfl := Option.some.inj h
    refine ⟨_, rfl, rfl, rfl, fun _ => rfl, fun _ => rfl, fun _ => rfl, Or.inl ⟨rfl, ?_⟩,
      Or.inl ⟨(fun hc => by cases hc), rfl⟩, ?_, ?_, ?_, ?_⟩
    · split <;> exact fun hl => absurd hl Bool.false_ne_true
    -- a test that sees the app's run keeps on polling, too
    · rintro _ _ ⟨x, hx, hrun⟩
      dsimp only at hx hrun ⊢
      rw [hx, Option.any_some, decide_eq_true hrun, Bool.or_true]
      exact Or.inl rfl
    · split <;> exact hspares (fun hc => by cases hc) (fun hc => by cases hc)
    · intro _
      split <;> exact Or.inl rfl
    · exact fun hc => by cases hc
  | lock =>
    -- the mutex was free
    obtain ⟨hfree, heq⟩ := Option.ite_none_right_eq_some.mp h
    obtain rfl := Option.some.inj heq
    exact ⟨.check, rfl, rfl, rfl, fun _ => rfl, fun _ => rfl, fun _ => rfl,
      Or.inr (Or.inl ⟨Option.isNone_iff_eq_none.mp hfree, rfl⟩),
      Or.inl ⟨(fun hc => by cases hc), rfl⟩,
      hrests (fun hc => by cases hc) (fun hc => by cases hc),
      hspares (fun hc => by cases hc) (fun hc => by cases hc), fun _ => Or.inl rfl,
      fun hc => by cases hc⟩
  | check =>
    obtain rfl := Option.some.inj h
    dsimp only
    -- a claim taken again is answered without a take-down
    cases hre : s.reclaimed req with
    | true =>
      exact ⟨.answer, rfl, rfl, rfl, fun _ => rfl, fun _ => rfl, fun _ => rfl,
        Or.inl ⟨rfl, fun _ => rfl⟩, Or.inl ⟨(fun hc => by cases hc), rfl⟩,
        hrests (fun hc => by cases hc) (fun hc => by cases hc),
        hspares (fun hc => by cases hc) (fun hc => by cases hc),
        fun _ => Or.inr (Or.inl ⟨rfl, hre⟩),
        fun hc => by cases hc⟩
    | false =>
      exact ⟨.takeDown, rfl, rfl, rfl, fun _ => rfl, fun _ => rfl, fun _ => rfl,
        Or.inl ⟨rfl, fun _ => rfl⟩, Or.inl ⟨(fun hc => by cases hc), rfl⟩,
        hrests (fun hc => by cases hc) (fun hc => by cases hc),
        fun _ => ⟨hre, (fun hc => by cases hc), fun hc => by cases hc⟩, fun _ => Or.inl rfl,
        fun hc => by cases hc⟩
  -- the one place where the slot's adapters are taken down
  | takeDown =>
    obtain rfl := Option.some.inj h
    exact ⟨.answer, rfl, rfl, rfl, fun _ => rfl, fun _ => rfl, fun _ => rfl,
      Or.inl ⟨rfl, fun _ => rfl⟩, Or.inr (Or.inl ⟨rfl, rfl⟩),
      hrests (fun hc => by cases hc) (fun hc => by cases hc),
      hspares (fun hc => by cases hc) (fun hc => by cases hc), fun _ => Or.inr (Or.inr rfl),
      fun hc => by cases hc⟩
  | answer =>
    obtain rfl := Option.some.inj h
    exact ⟨.rest, rfl, rfl, rfl, fun k => (hslots k).1, fun k => (hslots k).2.1,
      fun k => (hslots k).2.2, Or.inr (Or.inr ⟨rfl, rfl, rfl⟩),
      Or.inl ⟨(fun hc => by cases hc), rfl⟩, hrests (fun hc => by cases hc) (fun hc => by cases hc),
      hspares (fun hc => by cases hc) (fun hc => by cases hc),
      fun hu => absurd hu Bool.false_ne_true,
      fun hc => by cases hc⟩
  | rest =>
    dsimp only at h
    split at h
    · obtain rfl := Option.some.inj h
      exact ⟨.finished, rfl, rfl, rfl, fun _ => rfl, fun _ => rfl, fun _ => rfl,
        Or.inl ⟨rfl, fun hl => absurd hl Bool.false_ne_true⟩, Or.inl ⟨(fun hc => by cases hc), rfl⟩,
        hrests (fun hc => by cases hc) (fun hc => by cases hc),
        hspares (fun hc => by cases hc) (fun hc => by cases hc),
        fun hu => absurd hu Bool.false_ne_true,
        fun hc => by cases hc⟩
    · obtain ⟨hfree, heq⟩ := Option.ite_none_right_eq_some.mp h
      obtain rfl := Option.some.inj heq
      exact ⟨.again, rfl, rfl, rfl, fun _ => rfl, fun _ => rfl, fun _ => rfl,
        Or.inr (Or.inl ⟨Option.isNone_iff_eq_none.mp hfree, rfl⟩),
        Or.inl ⟨(fun hc => by cases hc), rfl⟩,
        hrests (fun hc => by cases hc) (fun hc => by cases hc),
        hspares (fun hc => by cases hc) (fun hc => by cases hc),
        fun hu => absurd hu Bool.false_ne_true,
        fun hc => by cases hc⟩
  | again =>
    obtain rfl := Option.some.inj h
    dsimp only
    cases hre : s.reclaimed req with
    | true =>
      exact ⟨.finished, rfl, rfl, rfl, fun _ => rfl, fun _ => rfl, fun _ => rfl,
        Or.inr (Or.inr ⟨rfl, rfl, rfl⟩), Or.inl ⟨(fun hc => by cases hc), rfl⟩,
        hrests (fun hc => by cases hc) (fun hc => by cases hc),
        hspares (fun hc => by cases hc) (fun hc => by cases hc),
        fun hu => absurd hu Bool.false_ne_true,
        fun hc => by cases hc⟩
    | false =>
      exact ⟨.look, rfl, rfl, rfl, fun _ => rfl, fun _ => rfl, fun _ => rfl,
        Or.inl ⟨rfl, fun _ => rfl⟩, Or.inl ⟨(fun hc => by cases hc), rfl⟩,
        hrests (fun hc => by cases hc) (fun hc => by cases hc),
        fun _ => ⟨hre, (fun hc => by cases hc), fun hc => by cases hc⟩,
        fun hu => absurd hu Bool.false_ne_true,
        fun hc => by cases hc⟩
  -- the three ends of a look: it rests, it removes the tap, or it finds nothing
  | look =>
    dsimp only at h
    have hends : ∀ {stage host}, stage.locked = false →
        (host = s.host ∨ host = s.host.removeTap req.slot) → stage ≠ .takeDown → stage ≠ .look →
        WatcherMove named s (s.watcherTo i ⟨req, .look⟩ stage none host) i ⟨req, .look⟩ stage := by
      intro stage host hfree hhost hd hl
      refine ⟨rfl, rfl, rfl, fun _ => rfl, fun _ => rfl, fun _ => rfl,
        Or.inr (Or.inr ⟨rfl, hfree, rfl⟩), ?_,
        hrests (fun hc => by cases hc) (fun hc => by cases hc), hspares hd hl,
        fun hu => absurd hu Bool.false_ne_true, fun hc => by cases hc⟩
      exact hhost.imp (fun heq => ⟨(fun hc => by cases hc), heq⟩) fun heq => Or.inr ⟨rfl, heq⟩
    split at h
    · split at h
      · obtain rfl := Option.some.inj h
        exact ⟨.rest, hends rfl (Or.inl rfl) (fun hc => by cases hc) (fun hc => by cases hc)⟩
      · obtain rfl := Option.some.inj h
        exact ⟨.finished, hends rfl (Or.inr rfl) (fun hc => by cases hc) (fun hc => by cases hc)⟩
    · obtain rfl := Option.some.inj h
      exact ⟨.finished, hends rfl (Or.inl rfl) (fun hc => by cases hc) (fun hc => by cases hc)⟩
  | finished => cases h

/-- A watcher's step leaves the other custodians at their posts, and its own
    while it is undecided. -/
theorem WatcherMove.sees {s t : State} {i : Nat} {w : Watcher} {stage : WatcherStage}
    (h : WatcherMove named s t i w stage) (hi : s.watchers[i]? = some w) {k : Nat} {c : Custodian}
    (hc : c ≠ .watcher i ∨ (w.stage.undecided = true → stage.undecided = true))
    (hsees : s.sees k c) : t.sees k c := by
  cases c with
  | watcher j =>
    obtain ⟨w', hj, hslot, hstage⟩ := hsees
    by_cases hij : i = j
    · subst hij
      obtain rfl := Option.some.inj (hi.symm.trans hj)
      refine ⟨⟨w.req, stage⟩, ?_, hslot, ?_⟩
      · rw [h.watchers, List.getElem?_set_self (List.getElem?_eq_some_iff.mp hi).1]
      · obtain hne | hkeeps := hc
        · exact absurd rfl hne
        · exact hkeeps hstage
    · refine ⟨w', ?_, hslot, hstage⟩
      rw [h.watchers, List.getElem?_set_ne hij]
      exact hj
  | helper j =>
    unfold State.sees
    dsimp only
    rw [h.helpers]
    exact hsees
  | app j =>
    unfold State.sees
    dsimp only
    rw [h.app]
    exact hsees

/-- So what was covered stays covered. -/
theorem WatcherMove.covered {s t : State} {i : Nat} {w : Watcher} {stage : WatcherStage}
    (h : WatcherMove named s t i w stage) (hi : s.watchers[i]? = some w) (hinv : Inv named s)
    (hguard : w.stage = .check → s.reclaimed w.req = true → s.Spared (some (.watcher i))) :
    t.Spared none := by
  have hothers : ∀ {k c}, some c ≠ some (Custodian.watcher i) → s.sees k c → t.sees k c :=
    fun hne hc => h.sees hi (Or.inl (fun heq => hne (congrArg some heq))) hc
  obtain ⟨hdown, hhost⟩ | ⟨hdown, hhost⟩ | ⟨hlook, hhost⟩ := h.host
  · by_cases hkeeps : w.stage.undecided = true → stage.undecided = true
    · exact hinv.covered.same (by rw [hhost]) (by rw [hhost])
        (fun k c _ hc => ⟨c, h.sees hi (Or.inr hkeeps) hc⟩)
    · obtain ⟨hwas, hnow⟩ := Classical.not_imp.mp hkeeps
      obtain hstill | ⟨hcheck, hre⟩ | hdown' := h.decides hwas
      · exact absurd hstill hnow
      · exact (hguard hcheck hre).same (by rw [hhost]) (by rw [hhost])
          (fun k c hne hc => ⟨c, hothers hne hc⟩)
      · exact absurd hdown' hdown
  · have hsound := hinv.host
    obtain ⟨b, -, -, -, heq⟩ | ⟨hkeep, f, hf, heq⟩ := s.host.takeDown_cases named w.req.slot
    · apply spared_none
      intro b' hb'
      rw [hhost, heq] at hb'
      exact absurd hb'.symm (Option.some_ne_none b')
    · apply spared_none
      intro b' hb' hmade
      rw [hhost, heq] at hb' hmade
      obtain ⟨b, hb, rfl⟩ := Option.map_eq_some_iff.mp hb'
      obtain ⟨hguid, hmem⟩ := hf b hb
      rw [hguid] at hmade
      obtain ⟨-, htaps⟩ := hinv.covered b hb hmade
      -- A tap that stays is another slot's, and so is whoever sees to it.
      have hsees : ∀ k, .tap k ∈ b.members → k ≠ w.req.slot → ∃ c, t.sees k c := by
        intro k hk hne
        obtain ⟨c, -, hc⟩ := htaps k hk
        refine ⟨c, hothers ?_ hc⟩
        intro hcw
        obtain rfl := Option.some.inj hcw
        obtain ⟨w', hi', hslot, -⟩ := hc
        obtain rfl := Option.some.inj (hi.symm.trans hi')
        exact hne hslot.symm
      constructor
      · obtain ⟨b₁, hb₁, a, ha, htap, hne⟩ :=
          (s.host.others_iff named).mp (hkeep b hb (hsound.record b hb hmade))
        obtain rfl := Option.some.inj (hb.symm.trans hb₁)
        cases a with
        | nic n => exact absurd ((hsound.nics b hb hmade n ha).symm.trans htap) Bool.false_ne_true
        | tap k => exact ⟨k, hsees k ha (fun hk => hne (congrArg Adapter.tap hk))⟩
      · intro k hk
        obtain ⟨hin, hne⟩ := (hmem _).mp hk
        exact hsees k hin (fun heq => hne (congrArg Adapter.tap heq))
  · have hkeeps : w.stage.undecided = true → stage.undecided = true := by
      rw [hlook]
      exact fun hu => absurd hu Bool.false_ne_true
    apply spared_none
    intro b' hb' hmade
    rw [hhost] at hb' hmade
    obtain ⟨b, hb, rfl⟩ := Option.map_eq_some_iff.mp hb'
    obtain ⟨⟨k, c, -, hc⟩, hall⟩ := hinv.covered b hb hmade
    refine ⟨⟨k, c, h.sees hi (Or.inr hkeeps) hc⟩, ?_⟩
    intro k' hk'
    obtain ⟨c', -, hc'⟩ := hall k' (Bridge.mem_drop.mp hk').1
    exact ⟨c', h.sees hi (Or.inr hkeeps) hc'⟩

/-- Outside the mutex a helper knows nothing of the host. -/
theorem Helper.facts_of_unlocked {h : Helper} (hfree : h.stage.locked = false) (x : Host) :
    h.Facts x := by
  obtain ⟨req, stage⟩ := h
  cases stage with
  | prompt => exact True.intro
  | lock => exact True.intro
  | report done => exact True.intro
  | ended => exact True.intro
  | tap => exact True.intro
  | bridge => exact absurd hfree.symm Bool.false_ne_true
  | joinTap => exact absurd hfree.symm Bool.false_ne_true
  | joinNic => exact absurd hfree.symm Bool.false_ne_true
  | openable => exact absurd hfree.symm Bool.false_ne_true
  | watcher => exact absurd hfree.symm Bool.false_ne_true

/-- An app's guard survives a watcher's step. -/
theorem WatcherMove.guarded {s t : State} {i : Nat} {w : Watcher} {stage : WatcherStage}
    (h : WatcherMove named s t i w stage) (hi : s.watchers[i]? = some w) {k : Nat} {x : App}
    {req : Request} (hx : (s.slot k).app = some x) (hg : Guarded s k x req) :
    Guarded t k x req := by
  have hw := List.mem_of_getElem? hi
  have hready : t.Ready k x req → s.Ready k x req := by
    unfold State.Ready
    rw [h.helpers, h.result]
    exact id
  have hmem : ∀ {w'}, w' ∈ t.watchers → w' ∈ s.watchers ∨ w' = ⟨w.req, stage⟩ := by
    intro w' hw'
    rw [h.watchers] at hw'
    exact List.mem_or_eq_of_mem_set hw'
  -- What another claim's watcher, or the slot's own, does not take while the claim is there.
  have hspares : w.req.slot = k → stage ≠ .takeDown ∧ stage ≠ .look := by
    intro hslot
    by_contra hcon
    have htakes : stage = .takeDown ∨ stage = .look := by
      by_contra hnot
      exact hcon (not_or.mp hnot)
    obtain ⟨hre, hpoll, htest⟩ := h.takes htakes
    unfold State.reclaimed at hre
    rw [hslot, hg.claim, Option.any_some, decide_eq_false_iff_not, not_not] at hre
    obtain hfin | ⟨hpt, -⟩ := hg.watchers w hw hslot hre.symm
    · exact h.busy hfin
    · exact hpt.elim hpoll htest
  constructor
  · exact hg.slot
  · exact hg.run
  · rw [h.claim]
    exact hg.claim
  · intro w' hw' hslot hlease
    obtain hold | rfl := hmem hw'
    · exact hg.watchers w' hold hslot hlease
    · obtain hfin | ⟨hpt, hrun⟩ := hg.watchers w hw hslot hlease
      · exact absurd hfin h.busy
      · refine Or.inr ⟨h.watches hpt ?_ ?_, hrun⟩
        · rw [hslot, hlease]
          exact hg.claim
        · exact ⟨x, by rw [hslot]; exact hx, hrun.symm⟩
  · rw [h.helpers]
    exact hg.helpers
  · rw [h.requests]
    exact hg.number
  · rw [h.helpers]
    exact hg.own
  · intro hr
    have hup := hg.up (hready hr)
    obtain ⟨-, hhost⟩ | ⟨hdown, hhost⟩ | ⟨hlook, hhost⟩ := h.host
    · rw [hhost]
      exact hup
    · rw [hhost]
      apply hup.takeDown
      intro hk
      exact (hg.quiet (hready hr) w hw hk.symm).1 hdown
    · rw [hhost]
      apply hup.removeTap
      intro hk
      exact (hg.quiet (hready hr) w hw hk.symm).2 hlook
  · intro hr w' hw' hslot
    obtain hold | rfl := hmem hw'
    · exact hg.quiet (hready hr) w' hold hslot
    · exact hspares hslot

/-- A watcher's step keeps the invariant. -/
theorem Inv.watcherMove {s t : State} {i : Nat} {w : Watcher} {stage : WatcherStage}
    (hinv : Inv named s) (h : WatcherMove named s t i w stage) (hi : s.watchers[i]? = some w)
    (hguard : w.stage = .check → s.reclaimed w.req = true → s.Spared (some (.watcher i))) :
    Inv named t := by
  -- a mutex that another party holds stays with that party
  have hlocked : ∀ {c}, s.mutex = some c → c ≠ .watcher i → t.mutex = some c := by
    intro c hc hne
    obtain ⟨heq, -⟩ | ⟨hnone, -⟩ | ⟨hl, -, -⟩ := h.mutex
    · exact heq.trans hc
    · exact absurd (hnone.symm.trans hc).symm (Option.some_ne_none c)
    · exact absurd (Option.some.inj (hc.symm.trans (hinv.watcher_mutex i w hi hl))) hne
  constructor
  -- the host's adapters: as they were, or fewer
  · obtain ⟨-, hhost⟩ | ⟨-, hhost⟩ | ⟨-, hhost⟩ := h.host
    · rw [hhost]
      exact hinv.host
    · rw [hhost]
      exact hinv.host.takeDown _
    · rw [hhost]
      exact hinv.host.removeTap _
  · intro j h' hj hl
    rw [h.helpers] at hj
    exact hlocked (hinv.helper_mutex j h' hj hl) (fun hc => by cases hc)
  · intro j w' hj hl
    rw [h.watchers] at hj
    -- the watcher that moved, or another one
    by_cases hij : i = j
    · subst hij
      rw [List.getElem?_set_self (List.getElem?_eq_some_iff.mp hi).1] at hj
      obtain rfl := Option.some.inj hj
      obtain ⟨heq, hwas⟩ | ⟨-, hgot⟩ | ⟨-, hfree, -⟩ := h.mutex
      · exact heq.trans (hinv.watcher_mutex i w hi (hwas hl))
      · exact hgot
      · exact absurd (hfree.symm.trans hl) Bool.false_ne_true
    · rw [List.getElem?_set_ne hij] at hj
      refine hlocked (hinv.watcher_mutex j w' hj hl) ?_
      intro hc
      cases hc
      exact hij rfl
  · rw [h.helpers]
    -- the helpers, the apps' places and the requests are none of a watcher's business
    exact hinv.nics
  · intro k x nic hx
    rw [h.app] at hx
    exact hinv.places k x nic hx
  · rw [h.helpers, h.requests]
    refine ⟨hinv.numbers.1, ?_⟩
    intro k d n hr
    rw [h.result] at hr
    exact hinv.numbers.2 k d n hr
  · intro h' hh'
    rw [h.helpers] at hh'
    -- a helper under the mutex rules the watcher out, so the host is as the helper left it
    obtain ⟨j, hj⟩ := List.mem_iff_getElem?.mp hh'
    cases hl : h'.stage.locked with
    | false => exact Helper.facts_of_unlocked hl _
    | true =>
      have hmutex := hinv.helper_mutex j h' hj hl
      have hnot : w.stage.locked ≠ true := by
        intro hw
        have hboth := hmutex.symm.trans (hinv.watcher_mutex i w hi hw)
        cases hboth
      obtain ⟨-, hhost⟩ | ⟨hdown, -⟩ | ⟨hlook, -⟩ := h.host
      · rw [hhost]
        exact hinv.facts h' hh'
      · rw [hdown] at hnot
        exact absurd rfl hnot
      · rw [hlook] at hnot
        exact absurd rfl hnot
  -- the guard is for this: a take-down spares what is in use
  · exact h.covered hi hinv hguard
  · intro k x req hx hleased
    rw [h.app] at hx
    exact h.guarded hi hx (hinv.guarded k x req hx hleased)

/-! ## A helper's step -/

/-- What a helper's step does. -/
structure HelperMove (s t : State) (i : Nat) (h : Helper) (e : HelperEvent) (stage : HelperStage) :
    Prop where
  helpers : t.helpers = s.helpers.set i { h with stage }
  watchers : t.watchers = s.watchers ∨
    (h.stage = .watcher ∧ stage = .report true ∧ t.watchers = s.watchers ++ [⟨h.req, .poll⟩])
  requests : t.requests = s.requests
  app : ∀ k, (t.slot k).app = (s.slot k).app
  result : ∀ k d n, (t.slot k).result = some (d, n) →
    (s.slot k).result = some (d, n) ∨ (k = h.req.slot ∧ n = h.req.no ∧ h.stage = .report d)
  claim : ∀ k, (t.slot k).files.claim = (s.slot k).files.claim
  mutex : (t.mutex = s.mutex ∧ (stage.locked = true → h.stage.locked = true)) ∨
    (s.mutex = none ∧ t.mutex = some (.helper i)) ∨
    (h.stage.locked = true ∧ stage.locked = false ∧ t.mutex = none)
  host : t.host = s.host ∨ (h.stage = .tap ∧ t.host = s.host.slotTap h.req.slot) ∨
    (h.stage = .bridge ∧ ∃ both, t.host = s.host.hostBridge h.req.slot h.req.nic both) ∨
    (h.stage = .joinTap ∧ t.host = s.host.join (.tap h.req.slot)) ∨
    (h.stage = .joinNic ∧ t.host = s.host.join (.nic h.req.nic))
  facts : h.Facts s.host → Helper.Facts t.host { h with stage }
  linked : stage = .report true → h.stage = .watcher ∧ t.host = s.host
  pending : h.stage.pending = true → stage.pending = true ∨
    t.watchers = s.watchers ++ [⟨h.req, .poll⟩] ∨
    ((e = .refused ∨ ∃ silent, e = .fail silent) ∧ t.host = s.host)
  /-- Where the host changes the helper goes on. -/
  goes : h.stage.locked = true → t.host = s.host ∨ stage.pending = true
  busy : h.stage ≠ .ended

/-- What one step of a helper can do. -/
theorem helperMove {s t : State} {i : Nat} {h : Helper} {e : HelperEvent}
    (hs : s.helperStep i h e = some t) :
    ∃ stage, HelperMove s t i h e stage := by
  obtain ⟨req, stage₀⟩ := h
  -- A step that leaves the host as it is, and starts no watcher.
  have hplain : ∀ {stage mutex}, stage₀ ≠ .ended → stage ≠ .report true →
      ((mutex = s.mutex ∧ (stage.locked = true → stage₀.locked = true)) ∨
        (s.mutex = none ∧ mutex = some (.helper i)) ∨
        (stage₀.locked = true ∧ stage.locked = false ∧ mutex = none)) →
      (Helper.Facts s.host ⟨req, stage₀⟩ → Helper.Facts s.host ⟨req, stage⟩) →
      (stage₀.pending = true → stage.pending = true ∨ (e = .refused ∨ ∃ silent, e = .fail silent)) →
      HelperMove s { s.helperTo i ⟨req, stage₀⟩ stage s.host with mutex } i
        ⟨req, stage₀⟩ e stage := by
    intro stage mutex hbusy hreport hmutex hfacts hpending
    exact ⟨rfl, Or.inl rfl, rfl, fun _ => rfl, fun _ _ _ hr => Or.inl hr, fun _ => rfl, hmutex,
      Or.inl rfl, hfacts, fun hr => absurd hr hreport,
      fun hp => (hpending hp).imp id (fun he => Or.inr ⟨he, rfl⟩), fun _ => Or.inl rfl, hbusy⟩
  unfold State.helperStep at hs
  cases e with
  | granted =>
    obtain ⟨hstage, heq⟩ := Option.ite_none_right_eq_some.mp hs
    obtain rfl := Option.some.inj heq
    dsimp only at hstage
    obtain rfl := hstage
    exact ⟨.lock, hplain (fun hc => by cases hc) (fun hc => by cases hc)
      (Or.inl ⟨rfl, fun hl => absurd hl Bool.false_ne_true⟩) id (fun _ => Or.inl rfl)⟩
  | refused =>
    obtain ⟨hstage, heq⟩ := Option.ite_none_right_eq_some.mp hs
    obtain rfl := Option.some.inj heq
    dsimp only at hstage
    obtain rfl := hstage
    exact ⟨.ended, hplain (fun hc => by cases hc) (fun hc => by cases hc)
      (Or.inl ⟨rfl, fun hl => absurd hl Bool.false_ne_true⟩) id (fun _ => Or.inr (Or.inl rfl))⟩
  | fail silent =>
    dsimp only at hs
    split at hs
    · cases hs
    · rename_i hnot
      obtain rfl := Option.some.inj hs
      refine ⟨_, hplain (fun hc => hnot (Or.inr hc)) ?_ ?_ (fun _ => Helper.facts_of_unlocked ?_ _)
        (fun _ => Or.inr (Or.inr ⟨silent, rfl⟩))⟩
      · split <;> exact fun hc => by cases hc
      · split
        · rename_i hl
          refine Or.inr (Or.inr ⟨hl, ?_, rfl⟩)
          split <;> rfl
        · refine Or.inl ⟨rfl, ?_⟩
          split <;> exact fun hl => absurd hl Bool.false_ne_true
      · dsimp only
        split <;> rfl
  | go both =>
    cases stage₀ with
    | prompt => cases hs
    | ended => cases hs
    | lock =>
      obtain ⟨hfree, heq⟩ := Option.ite_none_right_eq_some.mp hs
      obtain rfl := Option.some.inj heq
      exact ⟨.tap, hplain (fun hc => by cases hc) (fun hc => by cases hc)
        (Or.inr (Or.inl ⟨Option.isNone_iff_eq_none.mp hfree, rfl⟩)) id (fun _ => Or.inl rfl)⟩
    | tap =>
      obtain rfl := Option.some.inj hs
      refine ⟨.bridge, rfl, Or.inl rfl, rfl, fun _ => rfl, fun _ _ _ hr => Or.inl hr, fun _ => rfl,
        Or.inl ⟨rfl, fun _ => rfl⟩, Or.inr (Or.inl ⟨rfl, rfl⟩), fun _ => Function.update_self _ _ _,
        (fun hc => by cases hc), fun _ => Or.inl rfl, fun _ => Or.inr rfl, fun hc => by cases hc⟩
    | bridge =>
      obtain rfl := Option.some.inj hs
      refine ⟨.joinTap, rfl, Or.inl rfl, rfl, fun _ => rfl, fun _ _ _ hr => Or.inl hr, fun _ => rfl,
        Or.inl ⟨rfl, fun _ => rfl⟩, Or.inr (Or.inr (Or.inl ⟨rfl, both, rfl⟩)), ?_,
        (fun hc => by cases hc), fun _ => Or.inl rfl, fun _ => Or.inr rfl, fun hc => by cases hc⟩
      intro htap
      exact ⟨(s.host.taps_hostBridge _ _ _ _).trans htap, s.host.bridge_hostBridge _ _ _⟩
    | joinTap =>
      obtain rfl := Option.some.inj hs
      refine ⟨.joinNic, rfl, Or.inl rfl, rfl, fun _ => rfl, fun _ _ _ hr => Or.inl hr, fun _ => rfl,
        Or.inl ⟨rfl, fun _ => rfl⟩, Or.inr (Or.inr (Or.inr (Or.inl ⟨rfl, rfl⟩))), ?_,
        (fun hc => by cases hc), fun _ => Or.inl rfl, fun _ => Or.inr rfl, fun hc => by cases hc⟩
      rintro ⟨htap, b, hb⟩
      refine ⟨htap, b.add (.tap req.slot), ?_, Bridge.mem_add.mpr (Or.inl rfl)⟩
      exact Option.map_eq_some_iff.mpr ⟨b, hb, rfl⟩
    | joinNic =>
      obtain rfl := Option.some.inj hs
      refine ⟨.openable, rfl, Or.inl rfl, rfl, fun _ => rfl, fun _ _ _ hr => Or.inl hr,
        fun _ => rfl, Or.inl ⟨rfl, fun _ => rfl⟩, Or.inr (Or.inr (Or.inr (Or.inr ⟨rfl, rfl⟩))), ?_,
        (fun hc => by cases hc), fun _ => Or.inl rfl, fun _ => Or.inr rfl, fun hc => by cases hc⟩
      rintro ⟨htap, b, hb, hin⟩
      refine ⟨htap, b.add (.nic req.nic), ?_, Bridge.mem_add.mpr (Or.inr hin),
        Bridge.mem_add.mpr (Or.inl rfl)⟩
      exact Option.map_eq_some_iff.mpr ⟨b, hb, rfl⟩
    | openable =>
      obtain rfl := Option.some.inj hs
      exact ⟨.watcher, hplain (fun hc => by cases hc) (fun hc => by cases hc)
        (Or.inl ⟨rfl, fun _ => rfl⟩) id
        (fun _ => Or.inl rfl)⟩
    | watcher =>
      obtain rfl := Option.some.inj hs
      exact ⟨.report true, rfl, Or.inr ⟨rfl, rfl, rfl⟩, rfl, fun _ => rfl,
        fun _ _ _ hr => Or.inl hr, fun _ => rfl, Or.inr (Or.inr ⟨rfl, rfl, rfl⟩), Or.inl rfl,
        fun _ => True.intro, fun _ => ⟨rfl, rfl⟩,
        fun _ => Or.inr (Or.inl rfl), fun _ => Or.inl rfl, fun hc => by cases hc⟩
    | report done =>
      obtain rfl := Option.some.inj hs
      have hslots : ∀ k,
          let y := Function.update s.slot req.slot
            { s.slot req.slot with result := some (done, req.no) } k
          y.app = (s.slot k).app ∧ y.files.claim = (s.slot k).files.claim ∧
          ∀ d n, y.result = some (d, n) → (s.slot k).result = some (d, n) ∨
            (k = req.slot ∧ n = req.no ∧ HelperStage.report done = .report d) := by
        intro k
        dsimp only
        by_cases hk : k = req.slot
        · rw [hk, Function.update_self]
          refine ⟨rfl, rfl, fun d n hr => Or.inr ?_⟩
          obtain ⟨rfl, rfl⟩ := Prod.mk.inj (Option.some.inj hr)
          exact ⟨rfl, rfl, rfl⟩
        · rw [Function.update_of_ne hk]
          exact ⟨rfl, rfl, fun _ _ hr => Or.inl hr⟩
      exact ⟨.ended, rfl, Or.inl rfl, rfl, fun k => (hslots k).1, fun k => (hslots k).2.2,
        fun k => (hslots k).2.1, Or.inl ⟨rfl, fun hl => absurd hl Bool.false_ne_true⟩, Or.inl rfl,
        fun _ => True.intro, (fun hc => by cases hc),
        fun hp => absurd hp Bool.false_ne_true, fun _ => Or.inl rfl, fun hc => by cases hc⟩

/-- A helper's step leaves the other custodians at their posts. -/
theorem HelperMove.sees {s t : State} {i : Nat} {h : Helper} {e : HelperEvent} {stage : HelperStage}
    (hm : HelperMove s t i h e stage) (hi : s.helpers[i]? = some h) {k : Nat} {c : Custodian}
    (hc : c ≠ .helper i ∨ (h.stage.pending = true → stage.pending = true)) (hsees : s.sees k c) :
    t.sees k c := by
  cases c with
  | watcher j =>
    obtain ⟨w, hj, hw⟩ := hsees
    refine ⟨w, ?_, hw⟩
    obtain heq | ⟨-, -, heq⟩ := hm.watchers
    · rw [heq]
      exact hj
    · rw [heq, List.getElem?_append_left (List.getElem?_eq_some_iff.mp hj).1]
      exact hj
  | helper j =>
    obtain ⟨h', hj, hslot, hstage⟩ := hsees
    by_cases hij : i = j
    · subst hij
      obtain rfl := Option.some.inj (hi.symm.trans hj)
      refine ⟨⟨h.req, stage⟩, ?_, hslot, ?_⟩
      · rw [hm.helpers, List.getElem?_set_self (List.getElem?_eq_some_iff.mp hi).1]
      · obtain hne | hkeeps := hc
        · exact absurd rfl hne
        · exact hkeeps hstage
    · refine ⟨h', ?_, hslot, hstage⟩
      rw [hm.helpers, List.getElem?_set_ne hij]
      exact hj
  | app j =>
    unfold State.sees
    dsimp only
    rw [hm.app]
    exact hsees

/-- Where it goes on, or has left a watcher, it or the watcher sees to its slot. -/
theorem HelperMove.succeeds {s t : State} {i : Nat} {h : Helper} {e : HelperEvent}
    {stage : HelperStage} (hm : HelperMove s t i h e stage) (hi : s.helpers[i]? = some h)
    (hstage : stage.pending = true ∨ t.watchers = s.watchers ++ [⟨h.req, .poll⟩]) :
    ∃ c, t.sees h.req.slot c := by
  obtain hp | hw := hstage
  · refine ⟨.helper i, ⟨h.req, stage⟩, ?_, rfl, hp⟩
    rw [hm.helpers, List.getElem?_set_self (List.getElem?_eq_some_iff.mp hi).1]
  · refine ⟨.watcher s.watchers.length, ⟨h.req, .poll⟩, ?_, rfl, rfl⟩
    rw [hw, List.getElem?_append_right (Nat.le_refl _), Nat.sub_self]
    rfl

/-- No tap but the slot's own comes into the app's bridge. -/
theorem HelperMove.taps {s t : State} {i : Nat} {h : Helper} {e : HelperEvent} {stage : HelperStage}
    (hm : HelperMove s t i h e stage) {b' : Bridge} (hb' : t.host.bridge = some b')
    (hmade : b'.guid ∈ t.host.made) {k : Nat} (hk : .tap k ∈ b'.members) :
    k = h.req.slot ∨ ∃ b, s.host.bridge = some b ∧ b.guid ∈ s.host.made ∧ .tap k ∈ b.members := by
  have hjoin : ∀ {a : Adapter}, t.host = s.host.join a → a = .tap k ∨
      ∃ b, s.host.bridge = some b ∧ b.guid ∈ s.host.made ∧ .tap k ∈ b.members := by
    intro a hhost
    rw [hhost] at hb' hmade
    obtain ⟨b, hb, rfl⟩ := Option.map_eq_some_iff.mp hb'
    rw [Bridge.guid_add] at hmade
    obtain ha | hin := Bridge.mem_add.mp hk
    · exact Or.inl ha.symm
    · exact Or.inr ⟨b, hb, hmade, hin⟩
  obtain hhost | ⟨-, hhost⟩ | ⟨-, both, hhost⟩ | ⟨-, hhost⟩ | ⟨-, hhost⟩ := hm.host
  · rw [hhost] at hb' hmade
    exact Or.inr ⟨b', hb', hmade, hk⟩
  · rw [hhost] at hb' hmade
    exact Or.inr ⟨b', hb', hmade, hk⟩
  · rw [hhost] at hb' hmade
    unfold Host.hostBridge at hb' hmade
    split at hb'
    · rename_i b hb
      rw [hb] at hmade
      exact Or.inr ⟨b', hb', hmade, hk⟩
    · obtain rfl := Option.some.inj hb'
      left
      dsimp only at hk
      split at hk
      · obtain hk | hk := List.mem_cons.mp hk
        · exact Adapter.tap.inj hk
        · cases List.mem_singleton.mp hk
      · exact Adapter.tap.inj (List.mem_singleton.mp hk)
  · exact (hjoin hhost).imp (fun ha => (Adapter.tap.inj ha).symm) id
  · exact (hjoin hhost).imp (fun ha => by cases ha) id

/-- Only under the mutex does it change anything. -/
theorem HelperMove.locked {s t : State} {i : Nat} {h : Helper} {e : HelperEvent}
    {stage : HelperStage} (hm : HelperMove s t i h e stage) :
    t.host = s.host ∨ h.stage.locked = true := by
  obtain hhost | ⟨hstage, -⟩ | ⟨hstage, -⟩ | ⟨hstage, -⟩ | ⟨hstage, -⟩ := hm.host
  · exact Or.inl hhost
  · exact Or.inr (hstage ▸ rfl)
  · exact Or.inr (hstage ▸ rfl)
  · exact Or.inr (hstage ▸ rfl)
  · exact Or.inr (hstage ▸ rfl)

/-- What was covered stays covered, for a helper that ends hands over to its watcher. -/
theorem HelperMove.covered {s t : State} {i : Nat} {h : Helper} {e : HelperEvent}
    {stage : HelperStage} (hm : HelperMove s t i h e stage) (hi : s.helpers[i]? = some h)
    (hinv : Inv named s) (hguard : h.stage.pending = true →
      (e = .refused ∨ ∃ silent, e = .fail silent) → s.Spared (some (.helper i))) :
    t.Spared none := by
  -- Whoever saw to a slot does, or the watcher that the helper has left.
  have hsees : stage.pending = true ∨ t.watchers = s.watchers ++ [⟨h.req, .poll⟩] ∨
      h.stage.pending ≠ true →
      ∀ k c, s.sees k c → ∃ c', t.sees k c' := by
    intro hgoes k c hc
    by_cases hci : c = .helper i
    · rw [hci] at hc
      obtain ⟨h', hi', hslot, hpending⟩ := hc
      obtain rfl := Option.some.inj (hi.symm.trans hi')
      obtain hp | hw | hnot := hgoes
      · exact hslot ▸ hm.succeeds hi (Or.inl hp)
      · exact hslot ▸ hm.succeeds hi (Or.inr hw)
      · exact absurd hpending hnot
    · exact ⟨c, hm.sees hi (Or.inl hci) hc⟩
  by_cases hhost : t.host = s.host
  · by_cases hpending : h.stage.pending = true
    · obtain hp | hw | ⟨hends, -⟩ := hm.pending hpending
      · exact hinv.covered.same (by rw [hhost]) (by rw [hhost])
          (fun k c _ hc => hsees (Or.inl hp) k c hc)
      · exact hinv.covered.same (by rw [hhost]) (by rw [hhost])
          (fun k c _ hc => hsees (Or.inr (Or.inl hw)) k c hc)
      · refine (hguard hpending hends).same (by rw [hhost]) (by rw [hhost])
          (fun k c hne hc => ⟨c, hm.sees hi (Or.inl ?_) hc⟩)
        exact fun heq => hne (congrArg some heq)
    · exact hinv.covered.same (by rw [hhost]) (by rw [hhost])
        (fun k c _ hc => hsees (Or.inr (Or.inr hpending)) k c hc)
  · -- Where it has changed the host it goes on, and sees to what it has joined.
    have hlocked := hm.locked.resolve_left hhost
    have hp := (hm.goes hlocked).resolve_left hhost
    apply spared_none
    intro b' hb' hmade
    refine ⟨⟨_, hm.succeeds hi (Or.inl hp)⟩, ?_⟩
    intro k hk
    obtain rfl | ⟨b, hb, hmade', hin⟩ := hm.taps hb' hmade hk
    · exact hm.succeeds hi (Or.inl hp)
    · obtain ⟨-, hall⟩ := hinv.covered b hb hmade'
      obtain ⟨c, -, hc⟩ := hall k hin
      exact hsees (Or.inl hp) k c hc

/-- The helpers after a step are those before, the one that moved at its new stage. -/
theorem HelperMove.mem_helpers {s t : State} {i : Nat} {h : Helper} {e : HelperEvent}
    {stage : HelperStage} (hm : HelperMove s t i h e stage) {h' : Helper} (hh' : h' ∈ t.helpers) :
    h' ∈ s.helpers ∨ h' = ⟨h.req, stage⟩ := by
  rw [hm.helpers] at hh'
  exact List.mem_or_eq_of_mem_set hh'

/-- And there is at most one new watcher, which polls. -/
theorem HelperMove.mem_watchers {s t : State} {i : Nat} {h : Helper} {e : HelperEvent}
    {stage : HelperStage} (hm : HelperMove s t i h e stage) {w : Watcher} (hw : w ∈ t.watchers) :
    w ∈ s.watchers ∨ w = ⟨h.req, .poll⟩ := by
  obtain heq | ⟨-, -, heq⟩ := hm.watchers
  · rw [heq] at hw
    exact Or.inl hw
  · rw [heq] at hw
    exact (List.mem_append.mp hw).imp id List.mem_singleton.mp

/-- An adapter that is linked stays so. -/
theorem HelperMove.up {s t : State} {i : Nat} {h : Helper} {e : HelperEvent} {stage : HelperStage}
    (hm : HelperMove s t i h e stage) {k nic : Nat} (hup : s.host.Linked k nic) :
    t.host.Linked k nic := by
  obtain hhost | ⟨-, hhost⟩ | ⟨-, both, hhost⟩ | ⟨-, hhost⟩ | ⟨-, hhost⟩ := hm.host
  · rw [hhost]
    exact hup
  · rw [hhost]
    exact hup.slotTap _
  · rw [hhost]
    exact hup.hostBridge _ _ _
  · rw [hhost]
    exact hup.join _
  · rw [hhost]
    exact hup.join _

/-- A request is through once its helper has left a watcher. -/
theorem HelperMove.ready {s t : State} {i : Nat} {h : Helper} {e : HelperEvent}
    {stage : HelperStage} (hm : HelperMove s t i h e stage) (hi : s.helpers[i]? = some h) {k : Nat}
    {x : App} {req : Request} (hg : Guarded s k x req) (hr : t.Ready k x req) :
    s.Ready k x req ∨ (h.stage = .watcher ∧ h.req = req) := by
  have hh := List.mem_of_getElem? hi
  obtain hlive | ⟨h', hh', hslot, hno, hstage⟩ | hresult := hr
  · exact Or.inl (Or.inl hlive)
  · obtain hold | rfl := hm.mem_helpers hh'
    · exact Or.inl (Or.inr (Or.inl ⟨h', hold, hslot, hno, hstage⟩))
    · exact Or.inr ⟨(hm.linked hstage).1, hg.own h hh hslot hno⟩
  · left
    obtain hold | ⟨hslot, hno, hstage⟩ := hm.result k true req.no hresult
    · exact Or.inr (Or.inr hold)
    · exact Or.inr (Or.inl ⟨h, hh, hslot.symm, hno.symm, hstage⟩)

/-- An app's guard survives a helper's step. -/
theorem HelperMove.guarded {s t : State} {i : Nat} {h : Helper} {e : HelperEvent}
    {stage : HelperStage} (hm : HelperMove s t i h e stage) (hi : s.helpers[i]? = some h)
    (hinv : Inv named s) {k : Nat} {x : App} {req : Request} (hg : Guarded s k x req) :
    Guarded t k x req := by
  have hh := List.mem_of_getElem? hi
  -- field by field: what a helper's step adds is the helper itself and the watcher that it starts
  constructor
  · exact hg.slot
  · exact hg.run
  · rw [hm.claim]
    exact hg.claim
  · intro w hw hslot hlease
    obtain hold | rfl := hm.mem_watchers hw
    · exact hg.watchers w hold hslot hlease
    · exact Or.inr ⟨Or.inl rfl, hg.helpers h hh hslot hlease hm.busy⟩
  · intro h' hh' hslot hlease hbusy
    obtain hold | rfl := hm.mem_helpers hh'
    · exact hg.helpers h' hold hslot hlease hbusy
    · exact hg.helpers h hh hslot hlease hm.busy
  · rw [hm.requests]
    exact hg.number
  · intro h' hh' hslot hno
    obtain hold | rfl := hm.mem_helpers hh'
    · exact hg.own h' hold hslot hno
    · exact hg.own h hh hslot hno
  · intro hr
    apply hm.up
    -- the result is there since before, or the helper has just finished its bridge
    obtain hs | ⟨hstage, rfl⟩ := hm.ready hi hg hr
    · exact hg.up hs
    · have hfacts := hinv.facts h hh
      unfold Helper.Facts at hfacts
      rw [hstage] at hfacts
      rw [← hg.slot]
      exact hfacts
  · intro hr w hw hslot
    obtain hold | rfl := hm.mem_watchers hw
    · obtain hs | ⟨hstage, -⟩ := hm.ready hi hg hr
      · exact hg.quiet hs w hold hslot
      · -- The helper has the mutex, so no watcher has.
        have hmutex := hinv.helper_mutex i h hi (by rw [hstage]; rfl)
        obtain ⟨j, hj⟩ := List.mem_iff_getElem?.mp hold
        have hfree : w.stage.locked ≠ true := by
          intro hl
          have hboth := hmutex.symm.trans (hinv.watcher_mutex j w hj hl)
          cases hboth
        constructor
        · intro hc
          rw [hc] at hfree
          exact hfree rfl
        · intro hc
          rw [hc] at hfree
          exact hfree rfl
    · exact ⟨(fun hc => by cases hc), fun hc => by cases hc⟩

/-- A helper's step keeps the invariant. -/
theorem Inv.helperMove {s t : State} {i : Nat} {h : Helper} {e : HelperEvent} {stage : HelperStage}
    (hinv : Inv named s) (hm : HelperMove s t i h e stage) (hi : s.helpers[i]? = some h)
    (hguard : h.stage.pending = true → (e = .refused ∨ ∃ silent, e = .fail silent) →
      s.Spared (some (.helper i))) :
    Inv named t := by
  have hh := List.mem_of_getElem? hi
  have hlt := (List.getElem?_eq_some_iff.mp hi).1
  -- a mutex that another party holds stays with that party
  have hlocked : ∀ {c}, s.mutex = some c → c ≠ .helper i → t.mutex = some c := by
    intro c hc hne
    obtain ⟨heq, -⟩ | ⟨hnone, -⟩ | ⟨hl, -, -⟩ := hm.mutex
    · exact heq.trans hc
    · exact absurd (hnone.symm.trans hc).symm (Option.some_ne_none c)
    · exact absurd (Option.some.inj (hc.symm.trans (hinv.helper_mutex i h hi hl))) hne
  constructor
  -- the host's adapters: as they were, the tap added, the bridge made, or an adapter joined to it
  · obtain hhost | ⟨-, hhost⟩ | ⟨-, both, hhost⟩ | ⟨-, hhost⟩ | ⟨-, hhost⟩ := hm.host
    · rw [hhost]
      exact hinv.host
    · rw [hhost]
      exact hinv.host.slotTap _
    · rw [hhost]
      exact hinv.host.hostBridge _ (hinv.nics h hh) _
    · rw [hhost]
      exact hinv.host.join (fun n hn => by cases hn)
    · rw [hhost]
      apply hinv.host.join
      intro n hn
      obtain rfl := Adapter.nic.inj hn
      exact hinv.nics h hh
  · intro j h' hj hl
    rw [hm.helpers] at hj
    -- the helper that moved, or another one
    by_cases hij : i = j
    · subst hij
      rw [List.getElem?_set_self hlt] at hj
      obtain rfl := Option.some.inj hj
      obtain ⟨heq, hwas⟩ | ⟨-, hgot⟩ | ⟨-, hfree, -⟩ := hm.mutex
      · exact heq.trans (hinv.helper_mutex i h hi (hwas hl))
      · exact hgot
      · exact absurd (hfree.symm.trans hl) Bool.false_ne_true
    · rw [List.getElem?_set_ne hij] at hj
      refine hlocked (hinv.helper_mutex j h' hj hl) ?_
      intro hc
      cases hc
      exact hij rfl
  · intro j w hj hl
    obtain heq | ⟨-, -, heq⟩ := hm.watchers
    · rw [heq] at hj
      exact hlocked (hinv.watcher_mutex j w hj hl) (fun hc => by cases hc)
    · rw [heq] at hj
      -- a watcher of before, or the one just started, which holds nothing
      obtain hlow | hhigh := Nat.lt_or_ge j s.watchers.length
      · rw [List.getElem?_append_left hlow] at hj
        exact hlocked (hinv.watcher_mutex j w hj hl) (fun hc => by cases hc)
      · rw [List.getElem?_append_right hhigh] at hj
        obtain rfl := List.mem_singleton.mp (List.mem_of_getElem? hj)
        exact absurd hl Bool.false_ne_true
  · intro h' hh'
    obtain hold | rfl := hm.mem_helpers hh'
    · exact hinv.nics h' hold
    · exact hinv.nics h hh
  · intro k x nic hx
    rw [hm.app] at hx
    exact hinv.places k x nic hx
  · rw [hm.requests]
    constructor
    · intro h' hh'
      obtain hold | rfl := hm.mem_helpers hh'
      · exact hinv.numbers.1 h' hold
      · exact hinv.numbers.1 h hh
    · intro k d n hr
      obtain hold | ⟨-, rfl, -⟩ := hm.result k d n hr
      · exact hinv.numbers.2 k d n hold
      · exact hinv.numbers.1 h hh
  · intro h' hh'
    rw [hm.helpers] at hh'
    obtain ⟨j, hj⟩ := List.mem_iff_getElem?.mp hh'
    by_cases hij : i = j
    · subst hij
      rw [List.getElem?_set_self hlt] at hj
      obtain rfl := Option.some.inj hj
      exact hm.facts (hinv.facts h hh)
    · rw [List.getElem?_set_ne hij] at hj
      -- a helper that changes the host holds the mutex, so no other one has facts to lose
      obtain hhost | hl := hm.locked
      · rw [hhost]
        exact hinv.facts h' (List.mem_of_getElem? hj)
      · apply Helper.facts_of_unlocked
        rw [Bool.eq_false_iff]
        intro hl'
        have hboth := (hinv.helper_mutex i h hi hl).symm.trans (hinv.helper_mutex j h' hj hl')
        cases hboth
        exact hij rfl
  · exact hm.covered hi hinv hguard
  · intro k x req hx hleased
    rw [hm.app] at hx
    exact hm.guarded hi hinv (hinv.guarded k x req hx hleased)

/-! ## An app's step -/

/-- What a step of the slot's app leaves as it is; `started` are the helpers it starts. -/
structure AppMove (s t : State) (k : Nat) (started : List Helper) : Prop where
  slot : ∀ j, j ≠ k → t.slot j = s.slot j
  host : t.host = s.host
  mutex : t.mutex = s.mutex
  watchers : t.watchers = s.watchers
  helpers : t.helpers = s.helpers ++ started
  requests : s.requests ≤ t.requests
  result : ∀ d n, (t.slot k).result = some (d, n) → (s.slot k).result = some (d, n)

/-- An app's step starts at most the helpers named. -/
theorem AppMove.mem_helpers {s t : State} {k : Nat} {started : List Helper}
    (hm : AppMove s t k started) {h : Helper} (hh : h ∈ t.helpers) :
    h ∈ s.helpers ∨ h ∈ started := by
  rw [hm.helpers] at hh
  exact List.mem_append.mp hh

/-- It leaves every custodian at its post but the app itself. -/
theorem AppMove.sees {s t : State} {k : Nat} {started : List Helper} (hm : AppMove s t k started)
    {j : Nat} {c : Custodian} (hc : c ≠ .app k) (hsees : s.sees j c) : t.sees j c := by
  cases c with
  | watcher i =>
    obtain ⟨w, hi, hw⟩ := hsees
    refine ⟨w, ?_, hw⟩
    rw [hm.watchers]
    exact hi
  | helper i =>
    obtain ⟨h, hi, hh⟩ := hsees
    refine ⟨h, ?_, hh⟩
    rw [hm.helpers, List.getElem?_append_left (List.getElem?_eq_some_iff.mp hi).1]
    exact hi
  | app j' =>
    obtain ⟨rfl, hx⟩ := hsees
    refine ⟨rfl, ?_⟩
    rw [hm.slot j' (fun heq => hc (congrArg Custodian.app heq))]
    exact hx

/-- An app that was about to run a helper has started it, or was not needed. -/
theorem AppMove.covered {s t : State} {k : Nat} {started : List Helper} (hm : AppMove s t k started)
    (hinv : Inv named s) (hclaimed : (∃ x req, (s.slot k).app = some x ∧ x.place = .claimed req) →
      s.Spared (some (.app k)) ∨ ∃ req, req.slot = k ∧ started = [⟨req, .prompt⟩]) :
        t.Spared none := by
  have hothers : ∀ j c, some c ≠ some (Custodian.app k) → s.sees j c → ∃ c', t.sees j c' :=
    fun j c hne hc => ⟨c, hm.sees (fun heq => hne (congrArg some heq)) hc⟩
  by_cases hwas : ∃ x req, (s.slot k).app = some x ∧ x.place = .claimed req
  · obtain hspared | ⟨req, hslot, hstarted⟩ := hclaimed hwas
    · exact hspared.same (by rw [hm.host]) (by rw [hm.host]) hothers
    · refine hinv.covered.same (by rw [hm.host]) (by rw [hm.host]) ?_
      intro j c _ hc
      by_cases hck : c = .app k
      · rw [hck] at hc
        obtain ⟨rfl, -⟩ := hc
        refine ⟨.helper s.helpers.length, ⟨req, .prompt⟩, ?_, hslot, rfl⟩
        rw [hm.helpers, hstarted, List.getElem?_append_right (Nat.le_refl _), Nat.sub_self]
        rfl
      · exact ⟨c, hm.sees hck hc⟩
  · refine hinv.covered.same (by rw [hm.host]) (by rw [hm.host]) ?_
    intro j c _ hc
    refine ⟨c, hm.sees ?_ hc⟩
    rintro rfl
    obtain ⟨rfl, hx⟩ := hc
    exact hwas hx

/-- A lease that is still held is guarded as before. -/
theorem AppMove.guarded {s t : State} {k : Nat} {started : List Helper} (hm : AppMove s t k started)
    {j : Nat} {x x' : App} {req : Request} (hg : Guarded s j x req) (hrun : x'.run = x.run)
    (hlease : (t.slot j).files.claim = (s.slot j).files.claim)
    (hready : t.Ready j x' req → s.Ready j x req)
    (hstarted : ∀ h ∈ started, h.req.slot = j → h.req = req) : Guarded t j x' req := by
  constructor
  · exact hg.slot
  · exact hg.run.trans hrun.symm
  · exact hlease.trans hg.claim
  · rw [hm.watchers, hrun]
    exact hg.watchers
  · intro h hh hslot hc hbusy
    rw [hrun]
    obtain hold | hnew := hm.mem_helpers hh
    · exact hg.helpers h hold hslot hc hbusy
    · rw [hstarted h hnew hslot]
      exact hg.run
  · exact Nat.lt_of_lt_of_le hg.number hm.requests
  · intro h hh hslot hno
    obtain hold | hnew := hm.mem_helpers hh
    · exact hg.own h hold hslot hno
    · exact hstarted h hnew hslot
  · intro hr
    rw [hm.host]
    exact hg.up (hready hr)
  · intro hr
    rw [hm.watchers]
    exact hg.quiet (hready hr)

/-- An app's step keeps the invariant, wherever it comes to stand. -/
theorem Inv.appMove {s t : State} {k : Nat} {started : List Helper} (hinv : Inv named s)
    (hm : AppMove s t k started) (hstarted : ∀ h ∈ started, h.stage = .prompt ∧ h.req.slot = k ∧
      h.req.no < s.requests ∧ named h.req.nic = false)
    (hplaces : ∀ x nic, (t.slot k).app = some x → x.place.nic = some nic → named nic = false)
    (hclaimed : (∃ x req, (s.slot k).app = some x ∧ x.place = .claimed req) →
      s.Spared (some (.app k)) ∨ ∃ req, req.slot = k ∧ started = [⟨req, .prompt⟩])
    (hguarded : ∀ x req, (t.slot k).app = some x → x.place.leased = some req → Guarded t k x req) :
    Inv named t := by
  constructor
  · rw [hm.host]
    exact hinv.host
  · intro i h hi hl
    rw [hm.mutex]
    rw [hm.helpers] at hi
    -- an elevated copy that has just been started stands at its prompt and holds nothing
    obtain hlow | hhigh := Nat.lt_or_ge i s.helpers.length
    · rw [List.getElem?_append_left hlow] at hi
      exact hinv.helper_mutex i h hi hl
    · rw [List.getElem?_append_right hhigh] at hi
      rw [(hstarted h (List.mem_of_getElem? hi)).1] at hl
      exact absurd hl Bool.false_ne_true
  · rw [hm.mutex, hm.watchers]
    exact hinv.watcher_mutex
  · intro h hh
    obtain hold | hnew := hm.mem_helpers hh
    · exact hinv.nics h hold
    · exact (hstarted h hnew).2.2.2
  · intro j x nic hx
    -- the slot of the app that moved, or another slot
    by_cases hj : j = k
    · rw [hj] at hx
      exact hplaces x nic hx
    · rw [hm.slot j hj] at hx
      exact hinv.places j x nic hx
  · constructor
    · intro h hh
      apply Nat.lt_of_lt_of_le _ hm.requests
      obtain hold | hnew := hm.mem_helpers hh
      · exact hinv.numbers.1 h hold
      · exact (hstarted h hnew).2.2.1
    · intro j d n hr
      apply Nat.lt_of_lt_of_le _ hm.requests
      by_cases hj : j = k
      · rw [hj] at hr
        exact hinv.numbers.2 k d n (hm.result d n hr)
      · rw [hm.slot j hj] at hr
        exact hinv.numbers.2 j d n hr
  · intro h hh
    rw [hm.host]
    -- a helper of before, or one at its prompt
    obtain hold | hnew := hm.mem_helpers hh
    · exact hinv.facts h hold
    · apply Helper.facts_of_unlocked
      rw [(hstarted h hnew).1]
      rfl
  · exact hm.covered hinv hclaimed
  · intro j x req hx hleased
    by_cases hj : j = k
    · rw [hj] at hx ⊢
      exact hguarded x req hx hleased
    · have hsame := hm.slot j hj
      rw [hsame] at hx
      apply hm.guarded (hinv.guarded j x req hx hleased) rfl (by rw [hsame])
      -- what makes the tap ready: the app's own report, a helper that has ended, a result on file
      · rintro (hlive | ⟨h, hh, hslot, hno, hstage⟩ | hresult)
        · exact Or.inl hlive
        · obtain hold | hnew := hm.mem_helpers hh
          · exact Or.inr (Or.inl ⟨h, hold, hslot, hno, hstage⟩)
          · exact absurd ((hstarted h hnew).1.symm.trans hstage) (fun hc => by cases hc)
        · rw [hsame] at hresult
          exact Or.inr (Or.inr hresult)
      · intro h hh hslot
        exact absurd (hslot.symm.trans (hstarted h hh).2.1) hj

/-- A step that writes only the slot is such a move. -/
theorem setSlot_move {s t : State} {k : Nat} {y : Slot} {started : List Helper}
    (hslot : t.slot = Function.update s.slot k y) (hresult : ∀ d n, y.result = some (d, n) →
      (s.slot k).result = some (d, n)) (hhost : t.host = s.host)
    (hmutex : t.mutex = s.mutex) (hwatchers : t.watchers = s.watchers)
    (hhelpers : t.helpers = s.helpers ++ started) (hrequests : s.requests ≤ t.requests) :
    AppMove s t k started := by
  refine ⟨?_, hhost, hmutex, hwatchers, hhelpers, hrequests, ?_⟩
  · intro j hj
    rw [hslot, Function.update_of_ne hj]
  · rw [hslot, Function.update_self]
    exact hresult

/-- A step after which the slot's process has no lease. -/
theorem Inv.unleased {s : State} (hinv : Inv named s) {k : Nat} {y : Slot} (runs : Nat)
    (hresult : ∀ d n, y.result = some (d, n) → (s.slot k).result = some (d, n))
    (hleased : ∀ x, y.app = some x → x.place.leased = none)
    (hnic : ∀ x nic, y.app = some x → x.place.nic = some nic → named nic = false)
    (hclaimed : (∃ x req, (s.slot k).app = some x ∧ x.place = .claimed req) →
      s.Spared (some (.app k))) :
    Inv named { s.setSlot k y with runs } := by
  have hm : AppMove s { s.setSlot k y with runs } k [] :=
    setSlot_move rfl hresult rfl rfl rfl (List.append_nil _).symm (Nat.le_refl _)
  have hself : Function.update s.slot k y k = y := Function.update_self k y s.slot
  refine hinv.appMove hm (fun h hh => absurd hh List.not_mem_nil) ?_
    (fun hwas => Or.inl (hclaimed hwas)) ?_
  · intro x nic hx
    dsimp only [State.setSlot] at hx
    rw [hself] at hx
    exact hnic x nic hx
  · intro x req hx hreq
    dsimp only [State.setSlot] at hx
    rw [hself] at hx
    exact absurd (hreq.symm.trans (hleased x hx)) (Option.some_ne_none req)

/-- The claim is the slot's own from its first moment. -/
theorem Inv.claim {s : State} (hinv : Inv named s) {k nic ms : Nat} {x : App}
    (hx : (s.slot k).app = some x) (hplace : x.place = .cleared nic)
    (hguard : Orderly named s (.app k (.claim ms))) :
    let req : Request := ⟨k, nic, x.run, ⟨x.pid, ms⟩, s.requests⟩
    Inv named { s.setSlot k { s.slot k with
      app := some { x with place := .claimed req }, files := (s.slot k).files.take req.claim } with
      requests := s.requests + 1 } := by
  intro req
  obtain ⟨hwatchers, hhelpers⟩ := hguard x hx
  have hm : AppMove s { s.setSlot k { s.slot k with
      app := some { x with place := .claimed req }, files := (s.slot k).files.take req.claim } with
      requests := s.requests + 1 } k [] :=
    setSlot_move rfl (fun _ _ => id) rfl rfl rfl (List.append_nil _).symm (Nat.le_succ _)
  refine hinv.appMove hm (fun h hh => absurd hh List.not_mem_nil) ?_ ?_ ?_
  · intro x' n hx' hn
    dsimp only [State.setSlot] at hx'
    rw [Function.update_self] at hx'
    obtain rfl := Option.some.inj hx'
    obtain rfl := Option.some.inj hn
    exact hinv.places k x nic hx (by rw [hplace]; rfl)
  · rintro ⟨x', req', hx', hplace'⟩
    obtain rfl := Option.some.inj (hx.symm.trans hx')
    exact absurd (hplace.symm.trans hplace') (fun hc => by cases hc)
  · intro x' req' hx' hleased
    dsimp only [State.setSlot] at hx'
    rw [Function.update_self] at hx'
    obtain rfl := Option.some.inj hx'
    obtain rfl := Option.some.inj hleased
    have hfresh : ∀ h ∈ s.helpers, h.req.no ≠ s.requests := fun h hh =>
      Nat.ne_of_lt (hinv.numbers.1 h hh)
    -- No verdict has its number yet.
    have hnotReady : ∀ {P : Prop}, State.Ready { s.setSlot k { s.slot k with
        app := some { x with place := .claimed req },
        files := (s.slot k).files.take req.claim } with
        requests := s.requests + 1 } k { x with place := .claimed req } req → P := by
      rintro P (hlive | ⟨h, hh, -, hno, -⟩ | hresult)
      · cases hlive
      · exact absurd hno (hfresh h hh)
      · have hlt := hinv.numbers.2 k true s.requests (hm.result true s.requests hresult)
        exact absurd hlt (Nat.lt_irrefl _)
    constructor
    · rfl
    · rfl
    · dsimp only [State.setSlot]
      rw [Function.update_self]
      rfl
    · intro w hw hslot hc
      by_contra hnot
      exact hwatchers w hw hslot (fun hf => hnot (Or.inl hf)) hc
    · intro h hh hslot hc hbusy
      exact absurd hc (hhelpers h hh hslot hbusy)
    · exact Nat.lt_succ_self _
    · intro h hh _ hno
      exact absurd hno (hfresh h hh)
    · exact hnotReady
    · exact hnotReady

/-- Starting the elevated copy keeps the invariant: the claim it names has just been taken. -/
theorem Inv.elevate {s : State} (hinv : Inv named s) {k : Nat} {x : App} {req : Request}
    (hx : (s.slot k).app = some x) (hplace : x.place = .claimed req) :
    Inv named { s.setApp k { x with place := .elevating req s.helpers.length } with
      helpers := s.helpers ++ [⟨req, .prompt⟩] } := by
  have hleased : x.place.leased = some req := by
    rw [hplace]
    rfl
  have hg := hinv.guarded k x req hx hleased
  have hnamed : named req.nic = false := hinv.places k x req.nic hx (by rw [hplace]; rfl)
  have hm : AppMove s { s.setApp k { x with place := .elevating req s.helpers.length } with
      helpers := s.helpers ++ [⟨req, .prompt⟩] } k [⟨req, .prompt⟩] :=
    setSlot_move rfl (fun _ _ => id) rfl rfl rfl rfl (Nat.le_refl _)
  refine hinv.appMove hm ?_ ?_ (fun _ => Or.inr ⟨req, hg.slot, rfl⟩) ?_
  · intro h hh
    obtain rfl := List.mem_singleton.mp hh
    exact ⟨rfl, hg.slot, hg.number, hnamed⟩
  · intro x' nic hx' hnic
    dsimp only [State.setApp, State.setSlot] at hx'
    rw [Function.update_self] at hx'
    obtain rfl := Option.some.inj hx'
    obtain rfl := Option.some.inj hnic
    exact hnamed
  · intro x' req' hx' hleased'
    dsimp only [State.setApp, State.setSlot] at hx'
    rw [Function.update_self] at hx'
    obtain rfl := Option.some.inj hx'
    obtain rfl := Option.some.inj hleased'
    -- the new helper has the claim's own number and slot
    refine hm.guarded hg rfl ?_ ?_ ?_
    · dsimp only [State.setApp, State.setSlot]
      rw [Function.update_self]
    · rintro (hlive | ⟨h, hh, hslot, hno, hstage⟩ | hresult)
      · cases hlive
      · obtain hold | hnew := hm.mem_helpers hh
        · exact Or.inr (Or.inl ⟨h, hold, hslot, hno, hstage⟩)
        -- a helper at its prompt has made nothing ready
        · obtain rfl := List.mem_singleton.mp hnew
          cases hstage
      · exact Or.inr (Or.inr (hm.result true req.no hresult))
    · intro h hh _
      obtain rfl := List.mem_singleton.mp hh
      rfl

/-- With its own request's verdict the app's link is up. -/
theorem Inv.ran {s : State} (hinv : Inv named s) {k i n : Nat} {x : App} {req : Request}
    (hx : (s.slot k).app = some x) (hplace : x.place = .elevating req i)
    (hresult : (s.slot k).result = some (true, n)) (hguard : Orderly named s (.app k .ran)) :
    Inv named (s.setApp k { x with place := .live req }) := by
  have hleased : x.place.leased = some req := by
    rw [hplace]
    rfl
  have hg := hinv.guarded k x req hx hleased
  obtain rfl := hguard x req i n hx hplace hresult
  have hm : AppMove s (s.setApp k { x with place := .live req }) k [] :=
    setSlot_move rfl (fun _ _ => id) rfl rfl rfl (List.append_nil _).symm (Nat.le_refl _)
  refine hinv.appMove hm (fun h hh => absurd hh List.not_mem_nil) ?_ ?_ ?_
  · intro x' nic hx' hnic
    dsimp only [State.setApp, State.setSlot] at hx'
    rw [Function.update_self] at hx'
    obtain rfl := Option.some.inj hx'
    exact absurd hnic.symm (Option.some_ne_none nic)
  · rintro ⟨x', req', hx', hplace'⟩
    obtain rfl := Option.some.inj (hx.symm.trans hx')
    exact absurd (hplace.symm.trans hplace') (fun hc => by cases hc)
  · intro x' req' hx' hleased'
    dsimp only [State.setApp, State.setSlot] at hx'
    rw [Function.update_self] at hx'
    obtain rfl := Option.some.inj hx'
    obtain rfl := Option.some.inj hleased'
    refine hm.guarded hg rfl ?_ (fun _ => Or.inr (Or.inr hresult))
      (fun h hh => absurd hh List.not_mem_nil)
    dsimp only [State.setApp, State.setSlot]
    rw [Function.update_self]

/-- A process goes on to a place without a lease. -/
theorem Inv.goes {s : State} (hinv : Inv named s) {k : Nat} {x : App} {p : Place} {y : Slot}
    (hx : (s.slot k).app = some x) (hy : y.app = some { x with place := p })
    (hresult : ∀ d n, y.result = some (d, n) → (s.slot k).result = some (d, n))
    (hleased : p.leased = none) (hnic : ∀ nic, p.nic = some nic → named nic = false)
    (hclaimed : (∀ req, x.place ≠ .claimed req) ∨ s.Spared (some (.app k))) :
    Inv named (s.setSlot k y) := by
  refine hinv.unleased s.runs hresult ?_ ?_ ?_
  · intro x' hx'
    obtain rfl := Option.some.inj (hy.symm.trans hx')
    exact hleased
  · intro x' nic hx'
    obtain rfl := Option.some.inj (hy.symm.trans hx')
    exact hnic nic
  · rintro ⟨x', req, hx', hplace⟩
    obtain rfl := Option.some.inj (hx.symm.trans hx')
    exact hclaimed.resolve_left (fun hne => hne req hplace)

/-- The app's next step, by the place it has reached. -/
theorem Inv.appNext {s t : State} {k : Nat} {x : App} {e : AppEvent} (hinv : Inv named s)
    (hx : (s.slot k).app = some x) (hs : s.appNext k x x.place e = some t)
    (hguard : Orderly named s (.app k e)) : Inv named t := by
  have hnone : ∀ nic, (none : Option Nat) = some nic → named nic = false :=
    fun nic hn => absurd hn.symm (Option.some_ne_none nic)
  unfold State.appNext at hs
  -- each place of the app has one step; only four of them change what others rely on
  split at hs
  · rename_i nic hplace
    obtain rfl := Option.some.inj hs
    refine hinv.goes hx rfl (fun _ _ hr => absurd hr.symm (Option.some_ne_none _)) rfl ?_
      (Or.inl ?_)
    -- the setup: the NIC is one that no run has named
    · intro n hn
      obtain rfl := Option.some.inj hn
      exact hguard
    · rw [hplace]
      exact fun _ hc => by cases hc
  · rename_i nic hplace
    obtain rfl := Option.some.inj hs
    refine hinv.goes hx rfl (fun _ _ => id) rfl ?_ (Or.inl ?_)
    · intro n hn
      obtain rfl := Option.some.inj hn
      exact hinv.places k x nic hx (by rw [hplace]; rfl)
    · rw [hplace]
      exact fun _ hc => by cases hc
  · rename_i nic ms hplace
    obtain rfl := Option.some.inj hs
    -- the claim
    exact hinv.claim hx hplace hguard
  · obtain rfl := Option.some.inj hs
    exact hinv.goes hx rfl (fun _ _ => id) rfl hnone (Or.inr hguard)
  · rename_i req hplace
    obtain rfl := Option.some.inj hs
    -- the elevated copy is started for the claim
    exact hinv.elevate hx hplace
  · rename_i req i hplace
    obtain ⟨-, hs⟩ := Option.ite_none_right_eq_some.mp hs
    -- its result is there, or the wait for it is over
    split at hs
    · rename_i n hresult
      obtain rfl := Option.some.inj hs
      exact hinv.ran hx hplace hresult hguard
    · obtain rfl := Option.some.inj hs
      refine hinv.goes hx rfl (fun _ _ => id) rfl hnone (Or.inl ?_)
      rw [hplace]
      exact fun _ hc => by cases hc
  · rename_i req hplace
    obtain rfl := Option.some.inj hs
    refine hinv.goes hx rfl (fun _ _ => id) rfl hnone (Or.inl ?_)
    rw [hplace]
    exact fun _ hc => by cases hc
  · rename_i req watched d late hplace
    obtain rfl := Option.some.inj hs
    -- over, or on the way out: neither place holds a lease
    have hover : ∀ o : Option Dropping, (o.elim Place.idle (.dropping req watched)).leased = none ∧
        (o.elim Place.idle (.dropping req watched)).nic = none := by
      intro o
      cases o with
      | none => exact ⟨rfl, rfl⟩
      | some d' => exact ⟨rfl, rfl⟩
    refine hinv.goes hx rfl (fun _ _ => id) (hover _).1 ?_ (Or.inl ?_)
    · rw [(hover _).2]
      exact hnone
    · rw [hplace]
      exact fun _ hc => by cases hc
  · cases hs

/-- Every step of an app. -/
theorem Inv.appStep {s t : State} {k : Nat} {e : AppEvent} (hinv : Inv named s)
    (hs : s.appStep k e = some t) (hguard : Orderly named s (.app k e)) : Inv named t := by
  unfold State.appStep at hs
  split at hs
  · obtain ⟨hnone, heq⟩ := Option.ite_none_right_eq_some.mp hs
    obtain rfl := Option.some.inj heq
    refine hinv.unleased (s.runs + 1) (fun _ _ => id) ?_ ?_ ?_
    · intro x hx
      obtain rfl := Option.some.inj hx
      rfl
    · intro x nic hx hnic
      obtain rfl := Option.some.inj hx
      exact absurd hnic.symm (Option.some_ne_none nic)
    · rintro ⟨x, req, hx, -⟩
      rw [Option.isNone_iff_eq_none.mp hnone] at hx
      exact absurd hx.symm (Option.some_ne_none x)
  · obtain ⟨-, heq⟩ := Option.ite_none_right_eq_some.mp hs
    obtain rfl := Option.some.inj heq
    exact hinv.unleased s.runs (fun _ _ => id) (fun x hx => absurd hx.symm (Option.some_ne_none x))
      (fun x _ hx => absurd hx.symm (Option.some_ne_none x)) hguard
  · split at hs
    · rename_i x hx
      exact hinv.appNext hx hs hguard
    · cases hs

/-! ## Runs -/

/-- Every step of the machine keeps the invariant. -/
theorem Inv.step {s t : State} {e : Event} (hinv : Inv named s) (hguard : Orderly named s e)
    (hs : (links named).step s e = some t) : Inv named t := by
  cases e with
  | app k e => exact hinv.appStep hs hguard
  | helper i e =>
    obtain ⟨h, hi, hs⟩ := Option.bind_eq_some_iff.mp hs
    obtain ⟨stage, hm⟩ := Windows.helperMove hs
    refine hinv.helperMove hm hi ?_
    rintro hpending (rfl | ⟨silent, rfl⟩)
    · exact hguard
    · exact hguard ⟨h, hi, hpending⟩
  | watcher i other late connected =>
    obtain ⟨w, hi, hs⟩ := Option.bind_eq_some_iff.mp hs
    obtain ⟨stage, hm⟩ := Windows.watcherMove hs
    refine hinv.watcherMove hm hi ?_
    intro hcheck hre
    exact hguard ⟨w, hi, hcheck, hre⟩

/-- **The bridge is kept while it is used, and only while it is.** -/
theorem bridge_kept_while_used (named : Nat → Bool) (taps : Nat → Bool)
    (bridge : Option (List Adapter)) {s : State}
    (h : (links named).Reach (Orderly named) (boot taps bridge) s) : Kept named s :=
  (Reach.inv (I := Inv named) (boot_inv taps bridge)
    (fun _ _ _ hinv hguard hs => hinv.step hguard hs) h).kept

/-- A step of a run in which every setup works out, as a schedule can check it. -/
def worksOut (s : State) : Event → Bool
  | .app _ (.setup nic) => nic = 0
  | .app _ (.claim _) => s.watchers.isEmpty && s.helpers.isEmpty
  | .app k .ran =>
    match (s.slot k).app.map App.place, (s.slot k).result with
    | some (.elevating req _), some (_, n) => n = req.no
    | _, _ => false
  | .app _ .abort => false
  | .app _ .die => false
  | .helper _ .refused => false
  | .helper _ (.fail _) => false
  | .watcher i _ _ _ => s.watchers[i]?.all fun w => !decide (w.stage = .check) || !s.reclaimed w.req
  | _ => true

/-- A run in which every helper succeeds is orderly. -/
theorem orderly_of_worksOut {s : State} {e : Event} (h : worksOut s e = true) :
    Orderly (fun _ => false) s e := by
  -- in such a run nobody is refused, nobody fails and no app dies
  cases e with
  | app k e =>
    cases e with
    | setup nic => rfl
    | claim ms =>
      obtain ⟨hw, hh⟩ := Bool.and_eq_true_iff.mp h
      rw [List.isEmpty_iff] at hw hh
      -- at a claim there is no watcher and no helper left
      intro x _
      rw [hw, hh]
      exact ⟨fun w hw => absurd hw List.not_mem_nil, fun h hh => absurd hh List.not_mem_nil⟩
    | ran =>
      intro x req i n hx hplace hresult
      unfold worksOut at h
      dsimp only at h
      rw [hx, hresult, Option.map_some, hplace] at h
      exact of_decide_eq_true h
    | abort => exact absurd h Bool.false_ne_true
    | die => exact absurd h Bool.false_ne_true
    | launch pid => exact True.intro
    | clear => exact True.intro
    | elevate => exact True.intro
    | drop => exact True.intro
    | settle late => exact True.intro
  | helper i e =>
    cases e with
    | refused => exact absurd h Bool.false_ne_true
    | fail silent => exact absurd h Bool.false_ne_true
    | granted => exact True.intro
    | go both => exact True.intro
  | watcher i other late connected =>
    -- a watcher that has polled does not find its claim taken again
    rintro ⟨w, hi, hcheck, hre⟩
    unfold worksOut at h
    dsimp only at h
    rw [hi, Option.all_some, hcheck, hre] at h
    exact absurd h Bool.false_ne_true

/-- An app sets its slot's link up with NIC 0, which makes the host's bridge. -/
def setsUp (pid ms helper : Nat) : List Event :=
  [.app 0 (.launch pid), .app 0 (.setup 0), .app 0 .clear, .app 0 (.claim ms), .app 0 .elevate,
    .helper helper .granted, .helper helper (.go false), .helper helper (.go false),
    .helper helper (.go false), .helper helper (.go false),
    .helper helper (.go false), .helper helper (.go false), .helper helper (.go false),
    .helper helper (.go false),
    .app 0 .ran]

/-- It drops the link, and the watcher takes down what was made. -/
theorem bridge_kept_till_dropped :
    ∃ s, (links fun _ => false).Reach (Orderly fun _ => false) (boot (fun _ => false) none) s ∧
    Kept (fun _ => false) s ∧ (s.host.made = [1] ∧ s.host.bridge = none) := by
  obtain ⟨s, hr, hend⟩ :=
    Reach.of_run_any (M := links fun _ => false) (G := fun s e => worksOut s e = true)
    (p := fun s => decide (s.host.made = [1] ∧ s.host.bridge = none))
      (s := boot (fun _ => false) none)
    (setsUp 7 100 0 ++
      [.app 0 .drop, .app 0 (.settle false), .app 0 (.settle false), .watcher 0 false false false,
        .watcher 0 false false false, .watcher 0 false false false, .watcher 0 false false false])
          (by decide)
  have horderly := hr.mono (fun _ _ _ hg => orderly_of_worksOut hg)
  exact ⟨s, horderly, bridge_kept_while_used _ _ _ horderly, of_decide_eq_true hend⟩

/-- An app's step changes its own slot only. -/
theorem appStep_slot {s t : State} {k : Nat} {e : AppEvent} (hs : s.appStep k e = some t) {j : Nat}
    (hj : j ≠ k) :
    t.slot j = s.slot j := by
  have hset : ∀ y, (s.setSlot k y).slot j = s.slot j := by
    intro y
    dsimp only [State.setSlot]
    rw [Function.update_of_ne hj]
  unfold State.appStep at hs
  split at hs
  · obtain ⟨-, heq⟩ := Option.ite_none_right_eq_some.mp hs
    obtain rfl := Option.some.inj heq
    exact hset _
  · obtain ⟨-, heq⟩ := Option.ite_none_right_eq_some.mp hs
    obtain rfl := Option.some.inj heq
    exact hset _
  · split at hs
    · unfold State.appNext at hs
      split at hs
      case h_6 =>
        obtain ⟨-, hs⟩ := Option.ite_none_right_eq_some.mp hs
        split at hs <;> (obtain rfl := Option.some.inj hs; exact hset _)
      case h_9 => cases hs
      all_goals (obtain rfl := Option.some.inj hs; exact hset _)
    · cases hs

/-- The only app is that of slot 0. -/
def alone : Event → Bool
  | .app k _ => decide (k = 0)
  | _ => true

/-- With one app launched, the other slots have none. -/
theorem app_of_alone {taps : Nat → Bool} {bridge : Option (List Adapter)} {s : State}
    (h : (links named).Reach (fun _ e => alone e = true) (boot taps bridge) s) {k : Nat}
    (hk : k ≠ 0) : (s.slot k).app = none := by
  refine Reach.inv (I := fun s => (s.slot k).app = none) rfl ?_ h
  intro s e t hnone hg hs
  cases e with
  | app j e =>
    obtain rfl := of_decide_eq_true hg
    rw [appStep_slot hs hk]
    exact hnone
  | helper i e =>
    obtain ⟨h, -, hs⟩ := Option.bind_eq_some_iff.mp hs
    obtain ⟨stage, hm⟩ := helperMove hs
    exact (hm.app k).trans hnone
  | watcher i other late connected =>
    obtain ⟨w, -, hs⟩ := Option.bind_eq_some_iff.mp hs
    obtain ⟨stage, hm⟩ := watcherMove hs
    exact (hm.app k).trans hnone

/-- **A setup that is refused leaves the bridge of the one before.**  The app dies and is
    started again; the watcher sees the new claim and leaves the bridge to it, and then
    the prompt is refused. -/
theorem refused_setup_leaves_the_bridge :
    ¬ ∀ s, (links fun _ => false).Reach Free (boot (fun _ => false) none) s →
    Kept (fun _ => false) s := by
  intro hall
  obtain ⟨s, hr, hend⟩ := Reach.of_run_any (M := links fun _ => false)
    (G := fun _ e => alone e = true)
    (p := fun s => decide (s.host.made = [1] ∧ (s.host.bridge.map Bridge.guid) = some 1 ∧
      (s.slot 0).app.map App.place = some .idle ∧ (∀ h ∈ s.helpers, h.stage = .ended) ∧
      ∀ w ∈ s.watchers, w.stage = .finished))
    (s := boot (fun _ => false) none)
    (setsUp 7 100 0 ++
      [.app 0 .die, .app 0 (.launch 8), .app 0 (.setup 0), .app 0 .clear, .app 0 (.claim 200),
        .app 0 .elevate, .watcher 0 false false false, .watcher 0 false false false,
        .watcher 0 false false false,
      .watcher 0 false false false, .watcher 0 false true false, .helper 1 .refused, .app 0 .ran,
      .app 0 (.settle false),
      .app 0 (.settle false)]) (by decide)
  obtain ⟨hmade, hguid, hplace, hhelpers, hwatchers⟩ := of_decide_eq_true hend
  obtain ⟨b, hb, hb1⟩ := Option.map_eq_some_iff.mp hguid
  have hover : Over s := by
    refine ⟨?_, hhelpers, hwatchers⟩
    intro k x hx
    by_cases hk : k = 0
    · rw [hk] at hx
      rw [hx] at hplace
      have hidle : x.place = .idle := Option.some.inj hplace
      rw [hidle]
      rfl
    · rw [app_of_alone hr hk] at hx
      exact absurd hx.symm (Option.some_ne_none x)
  apply (hall s (hr.mono fun _ _ _ _ => True.intro)).nothing_left hover b hb
  rw [hmade, hb1]
  exact List.mem_singleton.mpr rfl

end CdjEmu.Net.Windows
