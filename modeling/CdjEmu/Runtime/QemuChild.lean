/-
  THE QEMU CHILD — who can end it, and what keeps other processes off its eMMC image.

  `QemuInstance::spawn` locks the image, clears the way, starts QEMU and connects to its QMP port;
  `stop` and `Drop` end QEMU in steps and `restart` does both.  The lock, the child,
  `QEMU_CHILD_PID` and the instance are four things, and each step here changes what the code
  changes there.  The worker's operations come in any order; QEMU may exit, and another process may
  hold the lock, at any time.

  `spawn` returns the error of a QMP connection that timed out, and with it go the lock and the
  handle of the child that it has started: this child nobody ends.  It does not happen when no child
  is alive where the connection fails, and then a child is alive only at a place that keeps it
  (`Inv.keeper`).

  1. **Program** — `spawn` from the lock to the connection, `stop` and `Drop` with the steps of
     `shutdown_sequence`, and `restart`; what may fail at each place is an event's argument.

  2. **Specification** — `Controlled`: every child that is alive is the one in `QEMU_CHILD_PID`, so
     the exit hooks can end it, and its image is locked by the app; and none is alive once `spawn`
     or `restart` has failed or `stop` or `Drop` has returned.

  3. **The crux (`Inv.keeper`)** — a live child has an instance that keeps it, or a place of the
     worker that does; and the lock is held at those places.  The one place that lets go of both is
     the error of a connection that timed out.
-/
import CdjEmu.Lib.Machine

namespace CdjEmu.Runtime.Child

open Machine

/-- A `QemuInstance`: its child, and whether it has the monitor thread and the eMMC lock. -/
structure Instance where
  pid : Nat
  thread : Bool
  lock : Bool

/-- Who holds the lock of the eMMC image. -/
inductive Holder where
  | us
  | other
  deriving DecidableEq

/-- What follows when an instance has been stopped: nothing, `spawn_qemu`, or
    the rest of `restart`. -/
inductive After where
  | done
  | spawn
  | restart

/-- Who has called `spawn`: `spawn_qemu`, or `restart` on an instance. -/
inductive Caller where
  | worker
  | restart (i : Instance)

/-- The steps of `shutdown_sequence`. -/
inductive Phase where
  | power
  | quit
  | kill

/-- Where the worker is. -/
inductive Place where
  | idle
  /-- In `stop` or `Drop`. -/
  | shutdown (i : Instance) (phase : Phase) (k : After)
  | joining (i : Instance) (k : After)
  | clearing (i : Instance) (k : After)
  | releasing (i : Instance) (k : After)
  /-- In `lock_emmc`, after so many tries. -/
  | locking (tries : Nat) (c : Caller)
  /-- In `kill_stale`, `prepare_sock_dir` and `prepare_overlay`. -/
  | clearingStale (c : Caller)
  | preparing (c : Caller)
  | preparingOverlay (c : Caller)
  | starting (c : Caller)
  | connecting (p : Nat) (c : Caller)

structure State where
  /-- The children that are alive. -/
  alive : List Nat
  /-- `QEMU_CHILD_PID`. -/
  childPid : Option Nat
  lock : Option Holder
  inst : Option Instance
  place : Place
  /-- `spawn` or `restart` has returned an error, or `stop` or `Drop` has returned, and no child has
      been started since. -/
  ended : Bool

/-- What the worker's tick calls. -/
inductive Op where
  /-- `spawn_qemu`, for the menu's boot request or after a guest that has been reaped. -/
  | spawn
  /-- `stop_instance`, alone or in front of `spawn_qemu`. -/
  | stop (again : Bool)
  /-- `restart_for_network`. -/
  | network
  /-- The instance is dropped. -/
  | drop

inductive Event where
  | call (op : Op)
  /-- The worker's next step; `ok`: it does not fail, or what is waited for has happened. -/
  | step (ok : Bool)
  /-- `start_qemu` starts a child. -/
  | start (p : Nat)
  /-- QEMU exits by itself. -/
  | exit (p : Nat)
  | otherLocks
  | otherUnlocks

namespace State

def boot : State := ⟨[], none, none, none, .idle, false⟩

variable (s : State)

/-- `stop` or `Drop` of `i`: without its thread there is nothing to shut down. -/
def stopping (i : Instance) (k : After) : State :=
  { s with inst := none, place := if i.thread then .shutdown i .power k else .clearing i k }

/-- `spawn` returns an error: what it has locked is closed. -/
def failed (locked : Bool) : Caller → State
  | .worker => { s with lock := if locked then none else s.lock, place := .idle, ended := true }
  | .restart i =>
      { s with
        lock := if locked then none else s.lock, inst := some i, place := .idle, ended := true }

/-- What the tick calls. -/
def call : Op → Option State
  | .spawn => match s.inst with
    | none => some { s with place := .locking 0 .worker }
    | some _ => none
  | .stop again => match s.inst with
    | none => if again then some { s with place := .locking 0 .worker } else some s
    | some i => some (s.stopping i (if again then .spawn else .done))
  | .network => match s.inst with
    | none => some s
    | some i => some (s.stopping i .restart)
  | .drop => match s.inst with
    | none => some s
    | some i => some (s.stopping i .done)

/-- The worker's next step. -/
def next (ok : Bool) : Option State :=
  match s.place with
  | .idle => none
  -- `wait_for_exit` sees that QEMU has exited, or it times out
  | .shutdown i .power k =>
    if ok then (if i.pid ∈ s.alive then none else some { s with place := .joining i k })
    else some { s with place := .shutdown i .quit k }
  | .shutdown i .quit k =>
    if ok then (if i.pid ∈ s.alive then none else some { s with place := .joining i k })
    else some { s with place := .shutdown i .kill k }
  | .shutdown i .kill k =>
      some { s with alive := s.alive.filter (· ≠ i.pid), place := .joining i k }
  | .joining i k =>
      if i.pid ∈ s.alive then none else
        some { s with place := .clearing { i with thread := false } k }
  | .clearing i k => some { s with childPid := none, place := .releasing i k, ended := true }
  | .releasing i k =>
    let lock := if i.lock then none else s.lock
    match k with
    | .done => some { s with lock := lock, place := .idle }
    | .spawn => some { s with lock := lock, place := .locking 0 .worker }
    | .restart =>
        some { s with lock := lock, place := .locking 0 (.restart { i with lock := false }) }
  | .locking tries c =>
    if ok then match s.lock with
      | none => some { s with lock := some .us, place := .clearingStale c }
      | some _ => if tries + 1 > 12 then some (s.failed false c) else
          some { s with place := .locking (tries + 1) c }
    else some (s.failed false c)
  | .clearingStale c => some { s with place := .preparing c }
  | .preparing c =>
      if ok then some { s with place := .preparingOverlay c } else some (s.failed true c)
  | .preparingOverlay c =>
      if ok then some { s with place := .starting c } else some (s.failed true c)
  | .starting c => if ok then none else some (s.failed true c)
  | .connecting p c =>
    if ok then some { s with inst := some ⟨p, true, true⟩, place := .idle }
    else some (s.failed true c)

end State

def machine : Machine State Event where
  step s
    | .call op => match s.place with
      | .idle => s.call op
      | _ => none
    | .step ok => s.next ok
    | .start p => match s.place with
      | .starting c =>
        if p ∈ s.alive then none
        else
          some { s with
            alive := p :: s.alive, childPid := some p, place := .connecting p c, ended := false }
      | _ => none
    | .exit p => some { s with alive := s.alive.filter (· ≠ p) }
    | .otherLocks => match s.lock with
      | none => some { s with lock := some .other }
      | some _ => none
    | .otherUnlocks => match s.lock with
      | some .other => some { s with lock := none }
      | _ => none

/-- Every child that is alive can be ended by the exit hooks and has its image locked, and none is
    once `spawn` or `restart` has failed or `stop` or `Drop` has returned. -/
structure Controlled (s : State) : Prop where
  owned : ∀ p ∈ s.alive, s.lock = some .us ∧ s.childPid = some p
  ended : s.ended = true → s.alive = []

/-- Where the QMP connection fails, the child has exited. -/
def ExitedFirst (s : State) : Event → Prop
  | .step false => match s.place with
    | .connecting p _ => p ∉ s.alive
    | _ => True
  | _ => True

instance (s : State) (a : Event) : Decidable (ExitedFirst s a) := by
  unfold ExitedFirst
  split
  · split <;> infer_instance
  · infer_instance

/-! ## The invariant -/

/-- The instance that has a child to end. -/
def State.keeper (s : State) : Option Instance :=
  match s.place with
  | .idle => s.inst
  | .shutdown i _ _ => some i
  | .joining i _ => some i
  | .connecting p _ => some ⟨p, true, true⟩
  | _ => none

/-- In `spawn`, from `lock_emmc` on. -/
def Place.Locked : Place → Prop
  | .clearingStale _ | .preparing _ | .preparingOverlay _ | .starting _ | .connecting _ _ => True
  | _ => False

structure Inv (s : State) : Prop where
  keeper : ∀ p ∈ s.alive, ∃ i, s.keeper = some i ∧ i.pid = p ∧ i.thread = true
  owned : ∀ p ∈ s.alive, s.lock = some .us ∧ s.childPid = some p
  locked : s.place.Locked → s.lock = some .us
  ended : s.ended = true → s.alive = []

variable {s t : State}

theorem Inv.controlled (h : Inv s) : Controlled s := ⟨h.owned, h.ended⟩

/-- Where nobody keeps a child, none is alive. -/
theorem Inv.alive_of_keeper (h : Inv s) (hnone : s.keeper = none) : s.alive = [] := by
  apply List.eq_nil_iff_forall_not_mem.mpr
  intro p hp
  obtain ⟨i, hi, -⟩ := h.keeper p hp
  rw [hnone] at hi
  cases hi

/-- Where the one that keeps a child has none, none is alive. -/
theorem Inv.alive_of_gone (h : Inv s) {i : Instance} (hi : s.keeper = some i)
    (hgone : i.pid ∉ s.alive) : s.alive = [] := by
  apply List.eq_nil_iff_forall_not_mem.mpr
  intro p hp
  obtain ⟨j, hj, rfl, -⟩ := h.keeper p hp
  obtain rfl := Option.some.inj (hi.symm.trans hj)
  exact hgone hp

theorem Inv.alive_of_threadless (h : Inv s) {i : Instance} (hi : s.keeper = some i)
    (hthread : i.thread = false) :
    s.alive = [] := by
  apply List.eq_nil_iff_forall_not_mem.mpr
  intro p hp
  obtain ⟨j, hj, -, hj'⟩ := h.keeper p hp
  obtain rfl := Option.some.inj (hi.symm.trans hj)
  rw [hthread] at hj'
  cases hj'

/-- A step to where no child is alive. -/
theorem Inv.of_nil (hnil : t.alive = []) (hlocked : t.place.Locked → t.lock = some .us) :
    Inv t := by
  refine ⟨?_, ?_, hlocked, fun _ => hnil⟩
  · intro p hp
    rw [hnil] at hp
    exact absurd hp List.not_mem_nil
  · intro p hp
    rw [hnil] at hp
    exact absurd hp List.not_mem_nil

/-- A step to where the same instance keeps the child. -/
theorem Inv.of_keeper (h : Inv s) (hkeeper : t.keeper = s.keeper)
    (hframe : t.lock = s.lock ∧ t.childPid = s.childPid) (halive : ∀ p ∈ t.alive, p ∈ s.alive)
    (hlocked : t.place.Locked → t.lock = some .us) (hended : t.ended = true → s.ended = true) :
    Inv t := by
  obtain ⟨hlock, hpid⟩ := hframe
  refine ⟨?_, ?_, hlocked, ?_⟩
  · intro p hp
    rw [hkeeper]
    exact h.keeper p (halive p hp)
  · intro p hp
    rw [hlock, hpid]
    exact h.owned p (halive p hp)
  · intro ht
    apply List.eq_nil_iff_forall_not_mem.mpr
    intro p hp
    have hmem := halive p hp
    rw [h.ended (hended ht)] at hmem
    exact List.not_mem_nil hmem

theorem boot_inv : Inv .boot := Inv.of_nil rfl False.elim

/-! ## The worker's steps -/

theorem Inv.stopping (h : Inv s) (hidle : s.place = .idle) {i : Instance} (hi : s.inst = some i)
    (k : After) :
    Inv (s.stopping i k) := by
  have hkeeper : s.keeper = some i := by
    rw [State.keeper, hidle]
    exact hi
  unfold State.stopping
  cases hthread : i.thread with
  | true => exact h.of_keeper hkeeper.symm ⟨rfl, rfl⟩ (fun _ hp => hp) False.elim id
  | false => exact Inv.of_nil (h.alive_of_threadless hkeeper hthread) False.elim

theorem Inv.call (h : Inv s) (hidle : s.place = .idle) {op : Op} (hs : s.call op = some t) :
    Inv t := by
  have hnone : s.inst = none → s.keeper = none := by
    intro hi
    rw [State.keeper, hidle]
    exact hi
  -- a spawn needs that there is nothing; the other calls stop what there is
  cases op with
  | spawn =>
    simp only [State.call] at hs
    split at hs
    · rename_i hi
      obtain rfl := Option.some.inj hs
      exact Inv.of_nil (h.alive_of_keeper (hnone hi)) False.elim
    · cases hs
  | stop again =>
    simp only [State.call] at hs
    split at hs
    · rename_i hi
      -- nothing is there: a stop has nothing to do, or starts anew
      split at hs
      · obtain rfl := Option.some.inj hs
        exact Inv.of_nil (h.alive_of_keeper (hnone hi)) False.elim
      · obtain rfl := Option.some.inj hs
        exact h
    · rename_i i hi
      obtain rfl := Option.some.inj hs
      exact h.stopping hidle hi _
  | network =>
    simp only [State.call] at hs
    split at hs
    · obtain rfl := Option.some.inj hs
      exact h
    · rename_i i hi
      obtain rfl := Option.some.inj hs
      exact h.stopping hidle hi _
  | drop =>
    simp only [State.call] at hs
    split at hs
    · obtain rfl := Option.some.inj hs
      exact h
    · rename_i i hi
      obtain rfl := Option.some.inj hs
      exact h.stopping hidle hi _

/-- `spawn` fails where no child is alive. -/
theorem Inv.failed (hnil : s.alive = []) (locked : Bool) (c : Caller) :
    Inv (s.failed locked c) := by
  cases c with
  | worker => exact Inv.of_nil hnil False.elim
  | restart i => exact Inv.of_nil hnil False.elim

theorem Inv.next (h : Inv s) {ok : Bool} (hexited : ExitedFirst s (.step ok))
    (hs : s.next ok = some t) : Inv t := by
  have hlocked := h.locked
  unfold State.next at hs
  split at hs
  · cases hs
  -- while it waits for the exit, the instance is kept
  · rename_i i k hp
    have hkeeper : s.keeper = some i := by rw [State.keeper, hp]
    split at hs
    · obtain ⟨-, ⟨⟩⟩ := Option.ite_none_left_eq_some.mp hs
      exact h.of_keeper hkeeper.symm ⟨rfl, rfl⟩ (fun _ hp => hp) False.elim id
    · obtain rfl := Option.some.inj hs
      exact h.of_keeper hkeeper.symm ⟨rfl, rfl⟩ (fun _ hp => hp) False.elim id
  · rename_i i k hp
    have hkeeper : s.keeper = some i := by rw [State.keeper, hp]
    split at hs
    · obtain ⟨-, ⟨⟩⟩ := Option.ite_none_left_eq_some.mp hs
      exact h.of_keeper hkeeper.symm ⟨rfl, rfl⟩ (fun _ hp => hp) False.elim id
    · obtain rfl := Option.some.inj hs
      exact h.of_keeper hkeeper.symm ⟨rfl, rfl⟩ (fun _ hp => hp) False.elim id
  · rename_i i k hp
    have hkeeper : s.keeper = some i := by rw [State.keeper, hp]
    -- a signal takes children away at most
    obtain rfl := Option.some.inj hs
    exact h.of_keeper hkeeper.symm ⟨rfl, rfl⟩ (fun _ hp => List.mem_of_mem_filter hp) False.elim id
  · rename_i i k hp
    have hkeeper : s.keeper = some i := by rw [State.keeper, hp]
    -- the child has gone, so nobody is alive
    obtain ⟨hgone, ⟨⟩⟩ := Option.ite_none_left_eq_some.mp hs
    exact Inv.of_nil (h.alive_of_gone hkeeper hgone) False.elim
  · rename_i i k hp
    obtain rfl := Option.some.inj hs
    exact Inv.of_nil (h.alive_of_keeper (by rw [State.keeper, hp])) False.elim
  · rename_i i k hp
    have hnil := h.alive_of_keeper (by rw [State.keeper, hp])
    dsimp only at hs
    -- where the worker goes on depends on why it stopped
    split at hs
    · obtain rfl := Option.some.inj hs
      exact Inv.of_nil hnil False.elim
    · obtain rfl := Option.some.inj hs
      exact Inv.of_nil hnil False.elim
    · obtain rfl := Option.some.inj hs
      exact Inv.of_nil hnil False.elim
  · rename_i tries c hp
    have hnil := h.alive_of_keeper (by rw [State.keeper, hp])
    -- it tries for the lock, a bounded number of times
    split at hs
    · split at hs
      · obtain rfl := Option.some.inj hs
        exact Inv.of_nil hnil fun _ => rfl
      · split at hs
        · obtain rfl := Option.some.inj hs
          exact Inv.failed hnil false c
        · obtain rfl := Option.some.inj hs
          exact Inv.of_nil hnil False.elim
    · obtain rfl := Option.some.inj hs
      exact Inv.failed hnil false c
  · rename_i c hp
    -- the lock is its own from here
    rw [hp] at hlocked
    have hnil := h.alive_of_keeper (by rw [State.keeper, hp])
    obtain rfl := Option.some.inj hs
    exact Inv.of_nil hnil hlocked
  · rename_i c hp
    rw [hp] at hlocked
    have hnil := h.alive_of_keeper (by rw [State.keeper, hp])
    split at hs
    · obtain rfl := Option.some.inj hs
      exact Inv.of_nil hnil hlocked
    · obtain rfl := Option.some.inj hs
      exact Inv.failed hnil true c
  · rename_i c hp
    rw [hp] at hlocked
    have hnil := h.alive_of_keeper (by rw [State.keeper, hp])
    split at hs
    · obtain rfl := Option.some.inj hs
      exact Inv.of_nil hnil hlocked
    · obtain rfl := Option.some.inj hs
      exact Inv.failed hnil true c
  -- the lock goes back before the next
  · rename_i c hp
    have hnil := h.alive_of_keeper (by rw [State.keeper, hp])
    obtain ⟨-, ⟨⟩⟩ := Option.ite_none_left_eq_some.mp hs
    exact Inv.failed hnil true c
  · rename_i p c hp
    have hkeeper : s.keeper = some ⟨p, true, true⟩ := by rw [State.keeper, hp]
    -- a child that has not come up: by the condition it has exited first
    split at hs
    · obtain rfl := Option.some.inj hs
      exact h.of_keeper hkeeper.symm ⟨rfl, rfl⟩ (fun _ hp => hp) False.elim id
    · rename_i hfailed
      obtain rfl := Option.some.inj hs
      rw [Bool.not_eq_true] at hfailed
      rw [hfailed, ExitedFirst, hp] at hexited
      exact Inv.failed (h.alive_of_gone hkeeper hexited) true c

/-- Another process takes or gives back a lock that is not ours. -/
theorem Inv.of_others (h : Inv s) (hfree : s.lock ≠ some .us) (halive : t.alive = s.alive)
    (hplace : t.place = s.place) :
    Inv t := by
  apply Inv.of_nil
  · rw [halive]
    exact List.eq_nil_iff_forall_not_mem.mpr fun p hp => hfree (h.owned p hp).1
  · intro hl
    rw [hplace] at hl
    exact absurd (h.locked hl) hfree

theorem Inv.step (h : Inv s) {a : Event} (hexited : ExitedFirst s a)
    (hs : machine.step s a = some t) : Inv t := by
  cases a with
  -- a call, a step, or something that happens outside
  | call op =>
    simp only [machine] at hs
    split at hs
    · rename_i hidle
      exact h.call hidle hs
    · cases hs
  | step ok => exact h.next hexited hs
  | start p =>
    simp only [machine] at hs
    split at hs
    · rename_i c hp
      obtain ⟨-, ⟨⟩⟩ := Option.ite_none_left_eq_some.mp hs
      have hnil := h.alive_of_keeper (by rw [State.keeper, hp])
      have hlock : s.lock = some .us := h.locked (by rw [hp]; trivial)
      -- nobody was alive, so the new child is the only one
      refine ⟨?_, ?_, fun _ => hlock, fun hended => absurd hended Bool.false_ne_true⟩
      · intro q hq
        rw [hnil, List.mem_singleton] at hq
        exact ⟨⟨p, true, true⟩, rfl, hq.symm, rfl⟩
      · intro q hq
        rw [hnil, List.mem_singleton] at hq
        exact ⟨hlock, congrArg some hq.symm⟩
    · cases hs
  | exit p =>
    obtain rfl := Option.some.inj hs
    -- a child that exits leaves those that stay
    exact h.of_keeper rfl ⟨rfl, rfl⟩ (fun _ hq => List.mem_of_mem_filter hq) h.locked id
  | otherLocks =>
    simp only [machine] at hs
    split at hs
    -- another process's lock is not the worker's
    · rename_i hnone
      obtain rfl := Option.some.inj hs
      exact h.of_others (by rw [hnone]; exact fun hus => by cases hus) rfl rfl
    · cases hs
  | otherUnlocks =>
    simp only [machine] at hs
    split at hs
    · rename_i hother
      obtain rfl := Option.some.inj hs
      exact h.of_others (by rw [hother]; exact fun hus => by cases hus) rfl rfl
    · cases hs

/-! ## Runs -/

/-- **No QEMU lives outside the app's control**, in every run where no child is alive when its QMP
    connection fails. -/
theorem every_child_controlled (h : machine.Reach ExitedFirst .boot s) : Controlled s :=
  (Reach.inv (I := Inv) boot_inv (fun _ _ _ hI hexited hs => hI.step hexited hs) h).controlled

/-- A start of QEMU, up to where it is connected to. -/
def firstStart (p : Nat) : List Event :=
  [.call .spawn, .step true, .step true, .step true, .step true, .start p]

/-- QEMU has started and its QMP port does not answer: `spawn` gives the lock
    back, and the child stays. -/
theorem timed_out_child_is_left : ¬ ∀ s, machine.Reach Free .boot s → Controlled s := by
  intro h
  have hrun : machine.run Free .boot (firstStart 7 ++ [.step false]) =
      some ⟨[7], some 7, none, none, .idle, true⟩ := rfl
  have hlock := ((h _ (Reach.of_run hrun)).owned 7 List.mem_cons_self).1
  cases hlock

/-- QEMU has started and is connected. -/
theorem first_start_controlled :
    machine.Reach ExitedFirst .boot ⟨[7], some 7, some .us, some ⟨7, true, true⟩, .idle, false⟩ ∧
    Controlled ⟨[7], some 7, some .us, some ⟨7, true, true⟩, .idle, false⟩ := by
  have hrun : machine.run ExitedFirst .boot (firstStart 7 ++ [.step true]) =
      some ⟨[7], some 7, some .us, some ⟨7, true, true⟩, .idle, false⟩ := rfl
  exact ⟨Reach.of_run hrun, every_child_controlled (Reach.of_run hrun)⟩

end CdjEmu.Runtime.Child
