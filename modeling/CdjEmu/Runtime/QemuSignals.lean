/-
  SIGNALS TO QEMU — which process a SIGTERM or SIGKILL reaches on Unix.

  A pid names the app's child until the monitor thread has waited for it; from then on the system
  may give the pid to any other process.  The app keeps the pid in `QEMU_CHILD_PID`, which only
  `stop`, `Drop` and `kill_qemu_child` reset, in the instance, whose last look at `running` comes
  before the kill, and in the two functions that have loaded it.

  1. `Held` — the pids that something may still signal.  A signal goes to a held pid
     (`sent_of_step`), and a pid is held before it is signalled, or new (`held_of_step`).
  2. `only_own_of_kept` — while no held pid is given away, every signal reaches an own child, or
     nobody.
  3. `stray_of_held` — a held pid that is given away can be signalled by the steps that follow.  So
     the condition on the steps is what it takes.

  The machine has the worker with `stop`, `Drop` and the kill at the end, the monitor thread of each
  child, the main thread's `kill_qemu_child`, and the hooks, which load the pid and signal it in two
  steps.  A child that has ended stays a zombie with its pid until it is waited for, so the pid is
  its own until then.  The system may give a free pid to anyone at any time; `.reuse` is that step,
  and the condition is on it alone.
-/
import CdjEmu.Lib.Machine

namespace CdjEmu.Runtime.Signals

open Machine Function

/-! ## The processes -/

/-- Who has a pid. -/
inductive Owner where
  | free
  /-- The app's child number `k`, until it is reaped. -/
  | child (k : Nat)
  | other
  deriving DecidableEq

/-- How far a child has come: the monitor thread waits for it and then clears `running`. -/
inductive Life where
  | runs
  | exited
  | reaped
  | cleared
  deriving DecidableEq

/-- A child of the app: its pid, how far it is reaped, and whether somebody waits for it. -/
structure Child where
  pid : Nat
  life : Life
  /-- The monitor thread has been started. -/
  watched : Bool

/-- A `QemuInstance`: its pid, the child that its thread waits for, and
    whether it has the thread. -/
structure Instance where
  pid : Nat
  child : Nat
  thread : Bool

/-- Who has called `stop`'s steps. -/
inductive After where
  | stop
  | drop
  | restart

/-- Where the worker is. -/
inductive Place where
  | idle
  /-- In `shutdown_sequence`: the two waits, and the kill. -/
  | power (i : Instance) (k : After)
  | quit (i : Instance) (k : After)
  | killing (i : Instance) (k : After)
  | joining (i : Instance) (k : After)
  | clearing (i : Instance) (k : After)
  /-- In `spawn`, called on an instance by `restart`: in front of QEMU's start, behind it, and
      behind the store of the pid. -/
  | spawning (old : Option Instance)
  | started (i : Instance) (old : Option Instance)
  | connecting (i : Instance) (old : Option Instance)

/-- Where the main thread is in `kill_qemu_child`. -/
inductive Main where
  | idle
  | loaded (p : Nat)
  | waiting (p : Nat)
  | killed

/-- Who owns each pid, the children made, the pid that the signal handler
    reads, and what was sent. -/
structure State where
  owner : Nat → Owner
  child : Nat → Child
  made : Nat
  /-- `QEMU_CHILD_PID`; `none` is -1. -/
  childPid : Option Nat
  inst : Option Instance
  place : Place
  main : Main
  /-- What the calls of `kill_qemu_child_now` that are under way have loaded. -/
  hooks : List Nat
  /-- The signals that reached a process. -/
  sent : List (Nat × Owner)

/-- The worker's calls and steps, the main thread's, the hooks', and the
    system's giving out of pids. -/
inductive Event where
  /-- The worker's calls. -/
  | spawn
  | call (k : After)
  /-- The worker's next step; `ok`: it does not fail, or QEMU was seen to have exited. -/
  | step (ok : Bool)
  /-- `start_qemu` starts a child. -/
  | start (p : Nat)
  /-- A child exits; its monitor thread reaps it, and clears `running`. -/
  | exit (k : Nat)
  | reap (k : Nat)
  | clear (k : Nat)
  /-- The system gives a pid to another process, which ends. -/
  | reuse (p : Nat)
  | otherExits (p : Nat)
  /-- `kill_qemu_child` is called, and goes on. -/
  | mainCall
  | mainStep
  /-- `kill_qemu_child_now` loads, and kills. -/
  | hookLoad
  | hookKill (p : Nat)

namespace State

/-- No child has been made. -/
def boot : State where
  owner := fun _ => .free
  child := fun _ => ⟨0, .cleared, false⟩
  made := 0
  childPid := none
  inst := none
  place := .idle
  main := .idle
  hooks := []
  sent := []

variable (s : State)

/-- `terminate` and `kill`: who has the pid gets the signal. -/
def signal (p : Nat) : State :=
  if s.owner p = .free then s else { s with sent := s.sent ++ [(p, s.owner p)] }

/-- The instance's child has not been cleared. -/
def running (i : Instance) : Prop := (s.child i.child).life ≠ .cleared

instance (i : Instance) : Decidable (s.running i) := inferInstanceAs (Decidable (_ ≠ _))

/-- `stop` or `Drop` of `i`: without its thread there is nothing to shut down. -/
def stopping (i : Instance) (k : After) : State :=
  { s with inst := none, place := if i.thread then .power i k else .clearing i k }

/-- The worker's next step. -/
def next (ok : Bool) : Option State :=
  match s.place with
  | .idle => none
  -- `wait_for_exit` ends with a look at `running`
  | .power i k =>
    if ok then (if s.running i then none else some { s with place := .joining i k })
    else if s.running i then some { s with place := .quit i k } else none
  | .quit i k =>
    if ok then (if s.running i then none else some { s with place := .joining i k })
    else if s.running i then some { s with place := .killing i k } else none
  | .killing i k => some { s.signal i.pid with place := .joining i k }
  | .joining i k =>
      if s.running i then none else some { s with place := .clearing { i with thread := false } k }
  | .clearing i k => match k with
    | .stop => some { s with childPid := none, place := .idle, inst := some i }
    | .drop => some { s with childPid := none, place := .idle, inst := none }
    | .restart => some { s with childPid := none, place := .spawning (some i) }
  | .spawning old => if ok then none else some { s with place := .idle, inst := old }
  | .started i old => some { s with
      childPid := some i.pid
      child := update s.child i.child { s.child i.child with watched := true }
      place := .connecting i old }
  | .connecting i old => some { s with place := .idle, inst := if ok then some i else old }

end State

/-- The app's threads step by step; a pid is only given out when nobody owns it. -/
def machine : Machine State Event where
  step s
    | .spawn => match s.place, s.inst with
      | .idle, none => some { s with place := .spawning none }
      | _, _ => none
    | .call k => match s.place, s.inst with
      | .idle, some i => some (s.stopping i k)
      | _, _ => none
    | .step ok => s.next ok
    | .start p => match s.place with
      | .spawning old =>
        if s.owner p = .free then some { s with
          owner := update s.owner p (.child s.made)
          child := update s.child s.made ⟨p, .runs, false⟩
          made := s.made + 1
          place := .started ⟨p, s.made, true⟩ old }
        else none
      | _ => none
    | .exit k =>
      if (s.child k).life = .runs then
        some { s with child := update s.child k { s.child k with life := .exited } } else none
    | .reap k =>
      if (s.child k).life = .exited ∧ (s.child k).watched = true then some { s with
        owner := update s.owner (s.child k).pid .free
        child := update s.child k { s.child k with life := .reaped } }
      else none
    | .clear k =>
      if (s.child k).life = .reaped then
        some { s with child := update s.child k { s.child k with life := .cleared } } else none
    | .reuse p =>
        if s.owner p = .free then some { s with owner := update s.owner p .other } else none
    | .otherExits p =>
        if s.owner p = .other then some { s with owner := update s.owner p .free } else none
    | .mainCall => match s.main, s.childPid with
      | .idle, some p => some { s with main := .loaded p }
      | .idle, none => some s
      | _, _ => none
    | .mainStep => match s.main with
      | .idle => none
      | .loaded p => some { s.signal p with main := .waiting p }
      -- the wait for `is_alive` is over
      | .waiting p => some { s.signal p with main := .killed }
      | .killed => some { s with childPid := none, main := .idle }
    | .hookLoad => match s.childPid with
      | some p => some { s with hooks := p :: s.hooks }
      | none => some s
    | .hookKill p => if p ∈ s.hooks then some { s.signal p with hooks := s.hooks.erase p } else none

/-! ## The pids that may be signalled -/

/-- What the main thread has loaded. -/
def Main.pid : Main → Option Nat
  | .loaded p | .waiting p => some p
  | _ => none

/-- The instance whose thread has been taken. -/
def Place.taken : Place → Option Instance
  | .clearing i _ => some i
  | .spawning old | .started _ old | .connecting _ old => old
  | _ => none

namespace State

/-- The pid of an instance that may still be found running. -/
def live (s : State) (i : Instance) : Option Nat := if s.running i then some i.pid else none

/-- The pid of an instance that may still be shut down. -/
def target (s : State) (i : Instance) : Option Nat := if i.thread = true then s.live i else none

/-- The pid that the worker may come to kill. -/
def workerPid (s : State) : Option Nat :=
  match s.place with
  | .idle => s.inst.bind s.target
  | .connecting i _ => s.target i
  | .power i _ | .quit i _ => s.live i
  | .killing i _ | .started i _ => some i.pid
  | _ => none

/-- A pid that the app may still signal. -/
def Held (s : State) (p : Nat) : Prop := s.childPid = some p ∨ s.main.pid = some p ∨ p ∈ s.hooks ∨
    s.workerPid = some p

/-- The thread of the instance has been joined. -/
def Stopped (s : State) : Prop := ∀ i, s.place.taken = some i → i.thread = false

/-- Every signal reached an own child that was not reaped. -/
def OnlyOwn (s : State) : Prop := ∀ x ∈ s.sent, ∃ k, x.2 = .child k

end State

open State

/-- No pid that is held is given to another process. -/
def Kept (s : State) : Event → Prop
  | .reuse p => ¬ s.Held p
  | _ => True

instance (s : State) (p : Nat) : Decidable (s.Held p) := inferInstanceAs (Decidable (_ ∨ _ ∨ _ ∨ _))

instance (s : State) (a : Event) : Decidable (Kept s a) := by
  unfold Kept
  split
  · infer_instance
  · infer_instance

/-! ## What a step does -/

section Steps

variable {s t : State} {p : Nat} {i : Instance}

/-- A signal changes nothing but what has been sent. -/
theorem signal_eq (s : State) (p : Nat) : ∃ sent, s.signal p = { s with sent := sent } ∧
    ∀ x ∈ sent, x ∈ s.sent ∨ x = (p, s.owner p) ∧ s.owner p ≠ .free := by
  unfold State.signal
  split
  · exact ⟨s.sent, rfl, fun x hx => .inl hx⟩
  · rename_i hthere
    refine ⟨_, rfl, fun x hx => ?_⟩
    rcases List.mem_append.mp hx with hx | hx
    · exact .inl hx
    · exact .inr ⟨List.mem_singleton.mp hx, hthere⟩

/-- The pid that the worker may signal is its instance's, while that runs. -/
theorem live_eq_some : s.live i = some p ↔ i.pid = p ∧ s.running i := by
  unfold State.live
  split
  · rename_i hruns
    simp [hruns]
  · rename_i hnot
    simp [hnot]

/-- And it does so only with a monitor thread. -/
theorem target_eq_some : s.target i = some p ↔ i.thread = true ∧ i.pid = p ∧ s.running i := by
  unfold State.target
  split
  · rename_i hthread
    simp [hthread, live_eq_some]
  · rename_i hnot
    simp [hnot]

/-- What a step does to the pids: a held pid was held before, or it is a child's; another process
    gets a pid when the system gives it one; and a signal goes to who has a held pid. -/
structure Does (s t : State) (a : Event) : Prop where
  held : ∀ p, t.Held p → s.Held p ∨ ∃ k, t.owner p = .child k
  owner : ∀ p, t.owner p = .other → s.owner p = .other ∨ a = .reuse p
  sent : ∀ x ∈ t.sent, x ∈ s.sent ∨ s.Held x.1 ∧ x.2 = s.owner x.1 ∧ x.2 ≠ .free

/-- A step that gives no pid away and sends nothing. -/
theorem Does.quiet {a : Event} (howner : t.owner = s.owner) (hsent : t.sent = s.sent)
    (hheld : ∀ p, t.Held p → s.Held p) :
    Does s t a where
  held := fun p hp => .inl (hheld p hp)
  owner := fun _ hp => .inl (howner ▸ hp)
  sent := fun _ hx => .inl (hsent ▸ hx)

/-- A step that signals a held pid. -/
theorem Does.signals {a : Event} (hp : s.Held p) (howner : t.owner = s.owner)
    (hsent : t.sent = (s.signal p).sent) (hheld : ∀ q, t.Held q → s.Held q) : Does s t a where
  held := fun q hq => .inl (hheld q hq)
  owner := fun q hq => .inl (howner ▸ hq)
  sent := by
    intro x hx
    obtain ⟨sent, hsignal, hnew⟩ := signal_eq s p
    rw [hsent, hsignal] at hx
    rcases hnew x hx with hold | ⟨rfl, hthere⟩
    · exact .inl hold
    · exact .inr ⟨hp, rfl, hthere⟩

/-- A move of the worker: what it comes to hold was held. -/
theorem held_of_worker (hmain : t.main = s.main) (hhooks : t.hooks = s.hooks)
    (hpid : ∀ p, t.childPid = some p → s.Held p) (hworker : ∀ p, t.workerPid = some p → s.Held p) :
    ∀ p, t.Held p → s.Held p := by
  rintro p (h | h | h | h)
  · exact hpid p h
  · exact .inr (.inl (hmain ▸ h))
  · exact .inr (.inr (.inl (hhooks ▸ h)))
  · exact hworker p h

/-- A pid that the worker is about to signal is held by it. -/
theorem held_of_workerPid (h : s.workerPid = some p) : s.Held p := .inr (.inr (.inr h))

/-- A stopped instance has nothing to signal. -/
theorem target_stopped (h : i.thread = false) : s.target i ≠ some p := by
  intro htarget
  rw [(target_eq_some.mp htarget).1] at h
  cases h

/-- A wait of `shutdown_sequence`: QEMU is seen to have exited, or the next phase is entered while
    it is found running. -/
theorem does_wait {ok : Bool} {k : After} {q : Place} {a : Event} (hnow : s.workerPid = s.live i)
    (hq : State.workerPid { s with place := q } = s.live i ∨
      State.workerPid { s with place := q } = some i.pid)
    (hs : (if ok = true then (if s.running i then none else some { s with place := .joining i k })
      else if s.running i then some { s with place := q } else none) = some t) : Does s t a := by
  split at hs
  · split at hs
    · cases hs
    · cases hs
      exact .quiet rfl rfl (held_of_worker rfl rfl (fun p hp => .inl hp) fun p hp => by cases hp)
  · split at hs
    · rename_i hruns
      cases hs
      have hheld : s.workerPid = some i.pid := hnow.trans (live_eq_some.mpr ⟨rfl, hruns⟩)
      refine .quiet rfl rfl
        (held_of_worker rfl rfl (fun p hp => .inl hp) fun p hp => held_of_workerPid ?_)
      rcases hq with hq | hq
      · rw [hnow, ← hq, hp]
      · rw [hheld, ← hq, hp]
    · cases hs

/-- The worker's steps. -/
theorem does_next {ok : Bool} (hstop : s.Stopped) (hs : s.next ok = some t) :
    Does s t (.step ok) := by
  unfold State.next at hs
  -- place by place: the worker waits, signals, or takes another child for its own
  split at hs
  · cases hs
  · rename_i i k hplace
    exact does_wait (by rw [State.workerPid, hplace]) (.inl rfl) hs
  · rename_i i k hplace
    exact does_wait (by rw [State.workerPid, hplace]) (.inr rfl) hs
  · rename_i i k hplace
    cases hs
    -- the signal goes to the pid that is held
    obtain ⟨sent, hsignal, -⟩ := signal_eq s i.pid
    refine .signals (p := i.pid) (held_of_workerPid (by rw [State.workerPid, hplace])) ?_ rfl ?_
    · rw [hsignal]
    · rw [hsignal]
      exact held_of_worker rfl rfl (fun p hp => .inl hp) fun p hp => by cases hp
  · split at hs
    · cases hs
    · cases hs
      exact .quiet rfl rfl (held_of_worker rfl rfl (fun p hp => .inl hp) fun p hp => by cases hp)
  · rename_i i k hplace
    -- an instance at this place has no thread any more, so none is signalled through it
    have hthread : i.thread = false := hstop i (by rw [hplace]; rfl)
    split at hs
    · cases hs
      refine .quiet rfl rfl (held_of_worker rfl rfl (fun p hp => by cases hp) fun p hp => ?_)
      exact absurd hp (target_stopped hthread)
    · cases hs
      exact .quiet rfl rfl
        (held_of_worker rfl rfl (fun p hp => by cases hp) fun p hp => by cases hp)
    · cases hs
      exact .quiet rfl rfl
        (held_of_worker rfl rfl (fun p hp => by cases hp) fun p hp => by cases hp)
  · rename_i old hplace
    split at hs
    · cases hs
    -- a spawn that fails: the old instance is the worker's again
    · cases hs
      refine .quiet rfl rfl (held_of_worker rfl rfl (fun p hp => .inl hp) fun p hp => ?_)
      obtain ⟨i, rfl, htarget⟩ := Option.bind_eq_some_iff.mp hp
      exact absurd htarget (target_stopped (hstop i (by rw [hplace]; rfl)))
  · rename_i i old hplace
    cases hs
    have hheld : s.workerPid = some i.pid := by rw [State.workerPid, hplace]
    refine .quiet rfl rfl (held_of_worker rfl rfl (fun p hp => ?_) fun p hp => ?_)
    · exact held_of_workerPid (hheld.trans hp)
    -- the new child's pid was held as that of the spawn already
    · obtain ⟨-, rfl, -⟩ := target_eq_some.mp hp
      exact held_of_workerPid hheld
  · rename_i i old hplace
    cases hs
    refine .quiet rfl rfl (held_of_worker rfl rfl (fun p hp => .inl hp) fun p hp => ?_)
    -- connected, the new instance is the worker's; else it is the old one, which was stopped
    cases ok with
    | true =>
      refine held_of_workerPid ?_
      rw [State.workerPid, hplace]
      exact hp
    | false =>
      obtain ⟨i, rfl, htarget⟩ := Option.bind_eq_some_iff.mp hp
      exact absurd htarget (target_stopped (hstop i (by rw [hplace]; rfl)))

/-- Where the worker stays and no child comes back to life, it holds no more than before. -/
theorem workerPid_mono (hplace : t.place = s.place) (hinst : t.inst = s.inst)
    (hrunning : ∀ i, t.running i → s.running i) (h : t.workerPid = some p) :
    s.workerPid = some p := by
  -- a child that runs now has run before
  have hlive : ∀ i, t.live i = some p → s.live i = some p := by
    intro i hi
    obtain ⟨hpid, hruns⟩ := live_eq_some.mp hi
    exact live_eq_some.mpr ⟨hpid, hrunning i hruns⟩
  have htarget : ∀ i, t.target i = some p → s.target i = some p := by
    intro i hi
    obtain ⟨hthread, hpid, hruns⟩ := target_eq_some.mp hi
    exact target_eq_some.mpr ⟨hthread, hpid, hrunning i hruns⟩
  unfold State.workerPid at h ⊢
  rw [hplace, hinst] at h
  -- each place holds the pid of its own child
  split
  · rename_i hidle
    rw [hidle] at h
    obtain ⟨i, hi, hpid⟩ := Option.bind_eq_some_iff.mp h
    exact Option.bind_eq_some_iff.mpr ⟨i, hi, htarget i hpid⟩
  · rename_i i old hconnecting
    rw [hconnecting] at h
    exact htarget i h
  · rename_i i k hpower
    rw [hpower] at h
    exact hlive i h
  · rename_i i k hquit
    rw [hquit] at h
    exact hlive i h
  · rename_i i k hkilling
    rw [hkilling] at h
    exact h
  · rename_i i old hstarted
    rw [hstarted] at h
    exact h
  · rename_i h1 h2 h3 h4 h5 h6
    split at h
    · exact absurd ‹_› h1
    · exact absurd ‹_› (h2 _ _)
    · exact absurd ‹_› (h3 _ _)
    · exact absurd ‹_› (h4 _ _)
    · exact absurd ‹_› (h5 _ _)
    · exact absurd ‹_› (h6 _ _)
    · cases h

/-- A step of a child or its monitor thread, or of another process. -/
theorem does_child {a : Event} (hplace : t.place = s.place) (hinst : t.inst = s.inst)
    (hmain : t.main = s.main) (hhooks : t.hooks = s.hooks) (hpid : t.childPid = s.childPid)
    (hsent : t.sent = s.sent) (hrunning : ∀ i, t.running i → s.running i)
    (howner : ∀ p, t.owner p = .other → s.owner p = .other ∨ a = .reuse p) :
    Does s t a where
  held := by
    intro p hp
    refine .inl (held_of_worker hmain hhooks (fun p hp => .inl (hpid ▸ hp)) (fun p hp => ?_) p hp)
    exact held_of_workerPid (workerPid_mono hplace hinst hrunning hp)
  owner := howner
  sent := fun x hx => .inl (hsent ▸ hx)

/-- A child's life goes on. -/
theorem running_update {k : Nat} {c : Child} (h : c.life ≠ .cleared → (s.child k).life ≠ .cleared)
    (i : Instance) (hi : State.running { s with child := update s.child k c } i) : s.running i := by
  unfold State.running at hi ⊢
  by_cases hik : i.child = k
  · dsimp only at hi
    rw [hik, update_self] at hi
    rw [hik]
    exact h hi
  · dsimp only at hi
    rwa [update_of_ne hik] at hi

/-- A call of the worker changes no pid. -/
theorem does_call {k : After} (hidle : s.place = .idle) (hi : s.inst = some i) :
    Does s (s.stopping i k) (.call k) := by
  refine .quiet rfl rfl
    (held_of_worker rfl rfl (fun p hp => .inl hp) fun p hp => held_of_workerPid ?_)
  rw [State.workerPid, hidle, hi]
  unfold State.stopping at hp
  split at hp
  · rename_i hthread
    exact (if_pos hthread).trans hp
  · cases hp

/-- A child that is made takes a pid that was free. -/
theorem does_start (hfree : s.owner p = .free) {old : Option Instance} : Does s { s with
    owner := update s.owner p (.child s.made)
    child := update s.child s.made ⟨p, .runs, false⟩
    made := s.made + 1
    place := .started ⟨p, s.made, true⟩ old } (.start p) where
  held := by
    rintro q (h | h | h | h)
    · exact .inl (.inl h)
    · exact .inl (.inr (.inl h))
    · exact .inl (.inr (.inr (.inl h)))
    · cases h
      exact .inr ⟨s.made, update_self ..⟩
  owner := by
    intro q hq
    by_cases hqp : q = p
    · subst hqp
      exact absurd ((update_self ..).symm.trans hq) (by simp)
    · exact .inl ((update_of_ne hqp ..).symm.trans hq)
  sent := fun x hx => .inl hx

/-- A move of the main thread, or of the exit hooks. -/
theorem held_of_others (hplace : t.place = s.place) (hinst : t.inst = s.inst)
    (hchild : t.child = s.child) (hpid : ∀ p, t.childPid = some p → s.Held p)
    (hmain : ∀ p, t.main.pid = some p → s.Held p) (hhooks : ∀ p ∈ t.hooks, s.Held p) :
    ∀ p, t.Held p → s.Held p := by
  rintro p (h | h | h | h)
  · exact hpid p h
  · exact hmain p h
  · exact hhooks p h
  · refine held_of_workerPid (workerPid_mono hplace hinst (fun i hi => ?_) h)
    unfold State.running at hi ⊢
    rwa [hchild] at hi

/-- The main thread's step. -/
theorem does_mainStep (hs : machine.step s .mainStep = some t) : Does s t .mainStep := by
  dsimp only [machine] at hs
  split at hs
  · cases hs
  · rename_i p hmain
    cases hs
    obtain ⟨sent, hsignal, -⟩ := signal_eq s p
    have hp : s.Held p := .inr (.inl (by rw [hmain]; rfl))
    refine .signals hp ?_ rfl ?_
    · rw [hsignal]
    · rw [hsignal]
      exact held_of_others rfl rfl rfl (fun q hq => .inl hq)
        (fun q hq => by cases hq; exact hp) fun q hq => .inr (.inr (.inl hq))
  · rename_i p hmain
    cases hs
    obtain ⟨sent, hsignal, -⟩ := signal_eq s p
    have hp : s.Held p := .inr (.inl (by rw [hmain]; rfl))
    refine .signals hp ?_ rfl ?_
    · rw [hsignal]
    · rw [hsignal]
      exact held_of_others rfl rfl rfl (fun q hq => .inl hq) (fun q hq => by cases hq) fun q hq =>
        .inr (.inr (.inl hq))
  · cases hs
    refine .quiet rfl rfl ?_
    exact held_of_others rfl rfl rfl (fun q hq => by cases hq) (fun q hq => by cases hq) fun q hq =>
      .inr (.inr (.inl hq))

/-- The steps of the hooks. -/
theorem does_hooks {a : Event} (ha : a = .hookLoad ∨ ∃ p, a = .hookKill p)
    (hs : machine.step s a = some t) : Does s t a := by
  rcases ha with rfl | ⟨p, rfl⟩
  · dsimp only [machine] at hs
    split at hs
    · rename_i p hpid
      cases hs
      refine .quiet rfl rfl ?_
      refine held_of_others rfl rfl rfl (fun q hq => .inl hq)
        (fun q hq => .inr (.inl hq)) fun q hq => ?_
      rcases List.mem_cons.mp hq with rfl | hq
      · exact .inl hpid
      · exact .inr (.inr (.inl hq))
    · cases hs
      exact .quiet rfl rfl fun q hq => hq
  · dsimp only [machine] at hs
    split at hs
    · rename_i hmem
      cases hs
      obtain ⟨sent, hsignal, -⟩ := signal_eq s p
      refine .signals (p := p) (.inr (.inr (.inl hmem))) ?_ rfl ?_
      · rw [hsignal]
      · rw [hsignal]
        refine held_of_others rfl rfl rfl (fun q hq => .inl hq)
          (fun q hq => .inr (.inl hq)) fun q hq => ?_
        exact .inr (.inr (.inl (List.mem_of_mem_erase hq)))
    · cases hs

/-- What any step can do to the pids, in one place. -/
theorem does_of_step {a : Event} (hstop : s.Stopped) (hs : machine.step s a = some t) :
    Does s t a := by
  -- the worker, the main thread and the hook; then the kernel and the children
  cases a with
  | spawn =>
    dsimp only [machine] at hs
    split at hs
    · cases hs
      exact .quiet rfl rfl (held_of_worker rfl rfl (fun p hp => .inl hp) fun p hp => by cases hp)
    · cases hs
  | call k =>
    dsimp only [machine] at hs
    split at hs
    · rename_i i hidle hi
      cases hs
      exact does_call hidle hi
    · cases hs
  | step ok => exact does_next hstop hs
  | start p =>
    dsimp only [machine] at hs
    split at hs
    · split at hs
      · rename_i hfree
        cases hs
        exact does_start hfree
      · cases hs
    · cases hs
  | exit k =>
    dsimp only [machine] at hs
    split at hs
    · rename_i hruns
      cases hs
      -- a child that exits still has its pid
      refine does_child rfl rfl rfl rfl rfl rfl (running_update fun _ => ?_) fun p hp => .inl hp
      rw [hruns]
      decide
    · cases hs
  | reap k =>
    dsimp only [machine] at hs
    split at hs
    · rename_i hexited
      cases hs
      refine does_child rfl rfl rfl rfl rfl rfl (running_update (s := s) fun _ => ?_) fun p hp => ?_
      · rw [hexited.1]
        decide
      -- a pid that is reaped is nobody's
      · by_cases hpk : p = (s.child k).pid
        · subst hpk
          exact absurd ((update_self ..).symm.trans hp) (by simp)
        · exact .inl ((update_of_ne hpk ..).symm.trans hp)
    · cases hs
  | clear k =>
    dsimp only [machine] at hs
    split at hs
    · cases hs
      exact does_child rfl rfl rfl rfl rfl rfl (running_update fun h => absurd rfl h) fun p hp =>
        .inl hp
    · cases hs
  | reuse p =>
    dsimp only [machine] at hs
    split at hs
    · cases hs
      refine does_child rfl rfl rfl rfl rfl rfl (fun i hi => hi) fun q hq => ?_
      -- a pid that is used again is new to everybody
      by_cases hqp : q = p
      · exact .inr (by rw [hqp])
      · exact .inl ((update_of_ne hqp ..).symm.trans hq)
    · cases hs
  | otherExits p =>
    dsimp only [machine] at hs
    split at hs
    · cases hs
      refine does_child rfl rfl rfl rfl rfl rfl (fun i hi => hi) fun q hq => ?_
      -- some other process exits, and its pid is free
      by_cases hqp : q = p
      · subst hqp
        exact absurd ((update_self ..).symm.trans hq) (by simp)
      · exact .inl ((update_of_ne hqp ..).symm.trans hq)
    · cases hs
  | mainCall =>
    dsimp only [machine] at hs
    split at hs
    · rename_i p hmain hpid
      cases hs
      refine .quiet rfl rfl
        -- the main thread has read the pid that is on file
        (held_of_others rfl rfl rfl (fun q hq => .inl hq) (fun q hq => ?_) fun q hq =>
          .inr (.inr (.inl hq)))
      cases hq
      exact .inl hpid
    · cases hs
      exact .quiet rfl rfl fun q hq => hq
    · cases hs
  | mainStep => exact does_mainStep hs
  | hookLoad => exact does_hooks (.inl rfl) hs
  | hookKill p => exact does_hooks (.inr ⟨p, rfl⟩) hs

/-- An instance that is kept behind its stop has no thread. -/
theorem stopped_next {ok : Bool} (hstop : s.Stopped) (hs : s.next ok = some t) : t.Stopped := by
  unfold State.next at hs
  intro j hj
  split at hs
  · cases hs
  · split at hs <;> split at hs <;> cases hs <;> cases hj
  · split at hs <;> split at hs <;> cases hs <;> cases hj
  · cases hs
    cases hj
  · split at hs
    · cases hs
    · cases hs
      cases hj
      rfl
  · rename_i i k hplace
    have hi : i.thread = false := hstop i (by rw [hplace]; rfl)
    split at hs <;> cases hs <;> cases hj
    exact hi
  · split at hs <;> cases hs
    cases hj
  · rename_i i old hplace
    cases hs
    exact hstop j (by rw [hplace]; exact hj)
  · cases hs
    cases hj

/-- A worker that has stopped its QEMU stays so until it spawns. -/
theorem stopped_of_step {a : Event} (hstop : s.Stopped) (hs : machine.step s a = some t) :
    t.Stopped := by
  have hsame : t.place = s.place → t.Stopped := fun hplace i hi => hstop i (hplace ▸ hi)
  cases a with
  | step ok => exact stopped_next hstop hs
  | spawn =>
    dsimp only [machine] at hs
    split at hs
    · cases hs
      intro i hi
      cases hi
    · cases hs
  | call k =>
    dsimp only [machine] at hs
    split at hs
    · rename_i i hidle hi
      cases hs
      intro j hj
      -- an instance without its thread goes straight to the clearing
      unfold State.stopping at hj
      split at hj
      · cases hj
      · rename_i hthread
        cases hj
        exact Bool.eq_false_of_not_eq_true hthread
    · cases hs
  | start p =>
    dsimp only [machine] at hs
    split at hs
    · rename_i old hplace
      split at hs
      · cases hs
        intro i hi
        exact hstop i (by rw [hplace]; exact hi)
      · cases hs
    · cases hs
  | exit k | reap k | clear k | reuse p | otherExits p =>
    dsimp only [machine] at hs
    split at hs
    · cases hs
      exact hsame rfl
    · cases hs
  | mainCall | hookLoad =>
    dsimp only [machine] at hs
    split at hs <;> cases hs <;> exact hsame rfl
  | mainStep =>
    dsimp only [machine] at hs
    split at hs <;> cases hs
    · exact hsame (by obtain ⟨_, hsignal, -⟩ := signal_eq s ‹_›; rw [hsignal])
    · exact hsame (by obtain ⟨_, hsignal, -⟩ := signal_eq s ‹_›; rw [hsignal])
    · exact hsame rfl
  | hookKill p =>
    dsimp only [machine] at hs
    split at hs
    · cases hs
      exact hsame (by obtain ⟨_, hsignal, -⟩ := signal_eq s p; rw [hsignal])
    · cases hs

end Steps

/-! ## Runs -/

/-- No held pid is another process's. -/
structure Safe (s : State) : Prop where
  stopped : s.Stopped
  held : ∀ p, s.Held p → s.owner p ≠ .other
  sent : s.OnlyOwn

/-- A step that meets the condition keeps every held pid the app's own. -/
theorem Safe.step {s t : State} {a : Event} (h : Safe s) (hkept : Kept s a)
    (hs : machine.step s a = some t) : Safe t := by
  have hdoes := does_of_step h.stopped hs
  refine ⟨stopped_of_step h.stopped hs, fun p hp hother => ?_, fun x hx => ?_⟩
  · rcases hdoes.held p hp with hold | ⟨k, hchild⟩
    · rcases hdoes.owner p hother with hbefore | rfl
      · exact h.held p hold hbefore
      · exact hkept hold
    · rw [hother] at hchild
      cases hchild
  · rcases hdoes.sent x hx with hold | ⟨hheld, howner, hthere⟩
    · exact h.sent x hold
    · have hnot := h.held x.1 hheld
      rw [← howner] at hnot
      rcases x with ⟨p, _ | k | _⟩
      · exact absurd rfl hthere
      · exact ⟨k, rfl⟩
      · exact absurd rfl hnot

/-- At the start no pid is held. -/
theorem boot_safe : Safe .boot where
  stopped := by
    intro i hi
    cases hi
  held := by
    intro p _ hother
    cases hother
  sent := by
    intro x hx
    cases hx

/-- So no run that meets the condition reaches a state in which a held pid is another's. -/
theorem safe_reach {s : State} (h : machine.Reach Kept .boot s) : Safe s :=
  h.inv boot_safe fun _ _ _ hi hk hs => hi.step hk hs

/-! ### A held pid that is given away -/

section Stray

variable {s t : State} {p : Nat} {i : Instance} {k : After}

/-- Some steps that follow signal another process. -/
def Strays (s : State) : Prop := ∃ t, machine.Reach Free s t ∧ ¬ t.OnlyOwn

/-- A stray signal stays on the record. -/
theorem Strays.of_step {a : Event} (hs : machine.step s a = some t) (h : Strays t) : Strays s := by
  obtain ⟨u, hu, hstray⟩ := h
  exact ⟨u, (Reach.refl.step (a := a) trivial hs).trans hu, hstray⟩

/-- A signal to another's pid is one. -/
theorem strays_of_signal {a : Event} (hs : machine.step s a = some t)
    (hsent : t.sent = (s.signal p).sent) (hother : s.owner p = .other) : Strays s := by
  refine ⟨t, Reach.refl.step (a := a) trivial hs, fun honly => ?_⟩
  have hmem : (p, Owner.other) ∈ t.sent := by
    rw [hsent, State.signal, hother]
    exact List.mem_append_right _ List.mem_cons_self
  obtain ⟨k, hk⟩ := honly _ hmem
  cases hk

/-- Each place that holds another's pid leads on to a stray signal: the hooks. -/
theorem strays_of_hook (hp : p ∈ s.hooks) (hother : s.owner p = .other) : Strays s := by
  have hkill : machine.step s (.hookKill p) = some { s.signal p with hooks := s.hooks.erase p } :=
    if_pos hp
  exact strays_of_signal hkill rfl hother

/-- The variable that the handler reads. -/
theorem strays_of_childPid (hpid : s.childPid = some p) (hother : s.owner p = .other) :
    Strays s := by
  have hload : machine.step s .hookLoad = some { s with hooks := p :: s.hooks } := by
    dsimp only [machine]
    rw [hpid]
  exact .of_step hload (strays_of_hook List.mem_cons_self hother)

/-- The main thread, which has read it. -/
theorem strays_of_main (hmain : s.main.pid = some p) (hother : s.owner p = .other) : Strays s := by
  rcases hplace : s.main with _ | q | q | _
  · rw [hplace] at hmain
    cases hmain
  · rw [hplace] at hmain
    cases hmain
    have hterm : machine.step s .mainStep = some { s.signal p with main := .waiting p } := by
      dsimp only [machine]
      rw [hplace]
    exact strays_of_signal hterm rfl hother
  · rw [hplace] at hmain
    cases hmain
    have hkill : machine.step s .mainStep = some { s.signal p with main := .killed } := by
      dsimp only [machine]
      rw [hplace]
    exact strays_of_signal hkill rfl hother
  · rw [hplace] at hmain
    cases hmain

/-- The worker that is about to kill. -/
theorem strays_of_killing (hplace : s.place = .killing i k) (hother : s.owner i.pid = .other) :
    Strays s := by
  have hkill : machine.step s (.step true) =
      some { s.signal i.pid with place := .joining i k } := by
    dsimp only [machine]
    rw [State.next, hplace]
  exact strays_of_signal hkill rfl hother

/-- The wait for QEMU's exit behind `quit` is over. -/
theorem strays_of_quit (hplace : s.place = .quit i k) (hruns : s.running i)
    (hother : s.owner i.pid = .other) : Strays s := by
  have hlate : machine.step s (.step false) = some { s with place := .killing i k } := by
    dsimp only [machine]
    rw [State.next, hplace]
    exact if_pos hruns
  exact .of_step hlate (strays_of_killing rfl hother)

/-- The wait behind the power-off stimuli is over. -/
theorem strays_of_power (hplace : s.place = .power i k) (hruns : s.running i)
    (hother : s.owner i.pid = .other) : Strays s := by
  have hlate : machine.step s (.step false) = some { s with place := .quit i k } := by
    dsimp only [machine]
    rw [State.next, hplace]
    exact if_pos hruns
  exact .of_step hlate (strays_of_quit rfl hruns hother)

/-- The worker between two calls. -/
theorem strays_of_idle (hplace : s.place = .idle) (hi : s.inst = some i) (hthread : i.thread = true)
    (hruns : s.running i) (hother : s.owner i.pid = .other) : Strays s := by
  have hstop : machine.step s (.call .stop) =
      some { s with inst := none, place := .power i .stop } := by
    dsimp only [machine]
    rw [hplace, hi]
    dsimp only
    rw [State.stopping, if_pos hthread]
  exact .of_step hstop (strays_of_power rfl hruns hother)

/-- Whatever the worker holds it may come to kill. -/
theorem strays_of_worker (h : s.workerPid = some p) (hother : s.owner p = .other) : Strays s := by
  unfold State.workerPid at h
  split at h
  · rename_i hplace
    obtain ⟨i, hi, htarget⟩ := Option.bind_eq_some_iff.mp h
    obtain ⟨hthread, rfl, hruns⟩ := target_eq_some.mp htarget
    exact strays_of_idle hplace hi hthread hruns hother
  · rename_i i old hplace
    obtain ⟨hthread, rfl, hruns⟩ := target_eq_some.mp h
    have hconnected :
        machine.step s (.step true) = some { s with place := .idle, inst := some i } := by
      dsimp only [machine]
      rw [State.next, hplace]
      rfl
    exact .of_step hconnected (strays_of_idle rfl rfl hthread hruns hother)
  · rename_i i k hplace
    obtain ⟨rfl, hruns⟩ := live_eq_some.mp h
    exact strays_of_power hplace hruns hother
  · rename_i i k hplace
    obtain ⟨rfl, hruns⟩ := live_eq_some.mp h
    exact strays_of_quit hplace hruns hother
  · rename_i i k hplace
    cases h
    exact strays_of_killing hplace hother
  · rename_i i old hplace
    cases h
    have hstored : machine.step s (.step true) = some { s with
        childPid := some i.pid
        child := update s.child i.child { s.child i.child with watched := true }
        place := .connecting i old } := by
      dsimp only [machine]
      rw [State.next, hplace]
    exact .of_step hstored (strays_of_childPid rfl hother)
  · cases h

/-- A held pid that is another's can be signalled. -/
theorem strays_of_held (h : s.Held p) (hother : s.owner p = .other) : Strays s := by
  rcases h with h | h | h | h
  · exact strays_of_childPid h hother
  · exact strays_of_main h hother
  · exact strays_of_hook h hother
  · exact strays_of_worker h hother

/-- The system's step leaves the app as it is. -/
theorem held_reuse (hs : machine.step s (.reuse p) = some t) (h : s.Held p) :
    t.Held p ∧ t.owner p = .other := by
  dsimp only [machine] at hs
  split at hs
  · cases hs
    exact ⟨h, update_self ..⟩
  · cases hs

end Stray

/-- **The app signals only its own QEMU** while no pid that it holds is given to
    another process; and wherever the system gives away a held pid, steps can follow
    that signal the other process. -/
theorem only_own_of_kept {s : State} (h : machine.Reach Kept .boot s) :
    s.OnlyOwn ∧ ∀ p t, s.Held p → machine.step s (.reuse p) = some t → Strays t := by
  refine ⟨(safe_reach h).sent, fun p t hp hs => ?_⟩
  obtain ⟨hheld, hother⟩ := held_reuse hs hp
  exact strays_of_held hheld hother

/-- QEMU starts with the pid 7 and is connected. -/
def started : List Event := [.spawn, .start 7, .step true, .step true]

/-- It powers off, its pid is given to another process, and the window's
    exit terminates this one. -/
theorem powered_off_pid_is_signalled : ¬ ∀ s, machine.Reach Free .boot s → s.OnlyOwn := by
  intro h
  obtain ⟨s, hreach, hsent⟩ := Reach.of_run_any (M := machine) (G := Free) (s := .boot)
      (p := fun s => s.sent.contains (7, .other))
    (started ++ [.exit 0, .reap 0, .clear 0, .reuse 7, .mainCall, .mainStep]) (by decide)
  obtain ⟨k, hk⟩ := h s hreach (7, .other) (List.contains_iff_mem.mp hsent)
  cases hk

/-- The window's exit while QEMU runs; the pid is given away when nothing holds it any more. -/
theorem running_child_is_signalled : ∃ s, machine.Reach Kept .boot s ∧ s.OnlyOwn ∧
    (7, Owner.child 0) ∈ s.sent := by
  obtain ⟨s, hreach, hsent⟩ := Reach.of_run_any (M := machine) (G := Kept) (s := .boot)
      (p := fun s => s.sent.contains (7, .child 0))
    (started ++ [.mainCall, .mainStep, .exit 0, .reap 0, .clear 0, .mainStep, .mainStep, .reuse 7])
      (by decide)
  exact ⟨s, hreach, (only_own_of_kept hreach).1, List.contains_iff_mem.mp hsent⟩

end CdjEmu.Runtime.Signals
