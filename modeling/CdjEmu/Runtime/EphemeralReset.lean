/-
  RESETS OF AN EPHEMERAL SLOT — from the request to the overlay that QEMU boots from.

  `restart_from_api` sets `ephemeral_reset_requested`, every start of QEMU takes it into
  `config.fresh_overlay`, and `prepare_overlay` replaces the overlay when that is set or when there
  is none.  Between the taking and the replacing `spawn` locks the image and prepares the folder,
  and either may fail; a network change takes the request also when there is no instance to restart.
  What was taken is gone then: the next start reads the menu again.

  The CRUX is that request, overlay and start are compared by TIMES that no step reads: when the
  latest reset was accepted, when the overlay was made, and the latest reset at the moment a start
  read the menu.  The request stands for "the overlay is older than the latest reset" exactly
  (`Inv.asked`, `Inv.served`), as long as nothing that was taken is dropped and no reset arrives
  between a start's look at the menu and the overlay that it makes.

  1. **Program** — the request of the API, the start of QEMU with what it takes from the menu, the
     preparation of the overlay, and the network change that may take the request with no instance
     to restart.

  2. **Specification** — `Honoured`: every QEMU boots from an overlay made after the latest reset
     that its start could know of, and an overlay is replaced only where a reset was accepted since
     it was made.

  3. **The condition (`Keeps`)** — no step drops a request that was taken while there is an overlay
     to replace, and no reset is accepted while a start that has read the menu has still to make the
     overlay.
-/
import CdjEmu.Lib.Machine
import CdjEmu.Runtime.WorkerTick

namespace CdjEmu.Runtime.Ephemeral

open Machine

/-- Why QEMU starts; a restart knows the network selection that its tick has drained. -/
inductive Cause where
  | launch
  | guestExit
  | restart (selected : Nat)
  | network
  deriving DecidableEq

/-- Where the worker is. -/
inductive Place where
  /-- There is no worker: the shell may launch. -/
  | gone
  /-- A tick starts here. -/
  | top
  /-- `shut_down`: the instance has still to be stopped, then the restart request to be cleared. -/
  | leaving
  | left
  /-- `reap_guest` has stopped the instance. -/
  | reaped
  | drain
  | restart (pending : Bool) (selected : Nat)
  | network (selected : Nat)
  /-- `apply_menu_to_config`. -/
  | readMenu (c : Cause)
  /-- `QemuInstance::restart` has still to stop the old QEMU. -/
  | stopOld
  /-- The steps of `QemuInstance::spawn`. -/
  | locking (c : Cause)
  | preparing (c : Cause)
  | overlay (c : Cause)
  | starting (c : Cause)
  | connecting (c : Cause)
  deriving DecidableEq

/-- What follows a start of QEMU in the tick. -/
def Cause.next : Cause → Place
  | .launch => .top
  | .guestExit => .drain
  | .restart selected => .network selected
  | .network => .top

/-- The request, the overlay, and the times of both. -/
structure Slot where
  /-- `ephemeral_reset_requested`. -/
  reset : Bool
  /-- `config.fresh_overlay`. -/
  fresh : Bool
  /-- The overlay file, if there is one, with the time it was made. -/
  file : Option Nat
  clock : Nat
  /-- The latest reset that was accepted, and the latest one when the
      current start read the menu. -/
  accepted : Nat
  seen : Nat
  /-- For each QEMU that was started: its overlay, and the latest reset when
      the start read the menu. -/
  boots : List (Option Nat × Nat)
  /-- For each overlay that was replaced or removed: when it was made, and
      the latest reset by then. -/
  replaced : List (Nat × Nat)

structure State where
  slot : Slot
  /-- `restart_requested`, and a toggled setting that needs a restart. -/
  restart : Bool
  toggled : Bool
  /-- `selected_interface` and `prev_net_idx`; 0 is no interface. -/
  selected : Nat
  prev : Nat
  inst : Qemu
  place : Place

/-- How making the overlay ends: it is made, or `qemu-img` fails and leaves no file, half a file, or
    the old one, which could not be removed. -/
inductive Outcome where
  | made
  | absent
  | half
  | old

inductive Event where
  /-- `restart_from_api`. -/
  | request (fresh : Bool)
  /-- A setting, the menu or the mods ask for a restart. -/
  | setting (toggle : Bool)
  | select (iface : Nat)
  /-- QEMU exits. -/
  | exit
  | launch
  /-- The worker's next step; `ok`: it does not fail, or the worker stays. -/
  | step (ok : Bool)
  | overlay (o : Outcome)

namespace Slot

variable (x : Slot)

/-- A session starts with a request; an overlay that is there is from before. -/
def boot (leftover : Bool) : Slot :=
  ⟨true, false, if leftover then some 0 else none, 2, 1, 0, [], []⟩

def accept (fresh : Bool) : Slot :=
  if fresh then { x with reset := true, accepted := x.clock, clock := x.clock + 1 } else x

/-- `apply_menu_to_config`. -/
def take : Slot := { x with fresh := x.reset, reset := false, seen := x.accepted }

/-- `prepare_overlay` has to make the overlay. -/
def toMake : Bool := x.fresh || x.file.isNone

def loses : List (Nat × Nat) :=
  match x.file with
  | some made => (made, x.accepted) :: x.replaced
  | none => x.replaced

/-- The making of the overlay. -/
def make : Outcome → Slot
  | .made | .half => { x with file := some x.clock, clock := x.clock + 1, replaced := x.loses }
  | .absent => { x with file := none, replaced := x.loses }
  | .old => x

/-- `start_qemu`. -/
def start : Slot := { x with boots := (x.file, x.seen) :: x.boots }

end Slot

/-- The place of a start that has read the menu and has still to prepare the overlay. -/
def Place.making : Place → Bool
  | .stopOld | .locking _ | .preparing _ | .overlay _ => true
  | _ => false

def Place.cause : Place → Option Cause
  | .readMenu c | .locking c | .preparing c | .overlay c | .starting c | .connecting c => some c
  | _ => none

/-- `worker_is_finished` is false. -/
def Place.working (p : Place) : Bool := p ≠ .gone ∧ p.cause ≠ some .launch

namespace State

def boot (leftover : Bool) : State := ⟨.boot leftover, false, false, 0, 0, .none, .gone⟩

variable (s : State)

/-- `spawn` has failed. -/
def failed (c : Cause) : State := { s with place := c.next }

/-- `switch_network`, up to `apply_menu_to_config`. -/
def switchNetwork (ok : Bool) (selected : Nat) : State :=
  if selected = s.prev then { s with place := .top }
  else if ok then { s with prev := selected, place := .readMenu .network }
  -- `reject_selection`
  else { s with prev := 0, selected := 0, place := .readMenu .network }

/-- The worker's next step. -/
def next (ok : Bool) : Option State :=
  match s.place with
  | .gone => none
  | .top =>
    if !ok then some { s with place := .leaving }
    else if s.inst = .exited then some { s with inst := .none, place := .reaped }
    else some { s with place := .drain }
  | .leaving => some { s with inst := .none, place := .left }
  | .left => some { s with restart := false, place := .gone }
  | .reaped => some { s with place := if ok then .readMenu .guestExit else .gone }
  | .drain =>
    some { s with
      restart := false, toggled := false, place := .restart (s.restart || s.toggled) s.selected }
  | .restart pending selected =>
    if pending then some { s with inst := .none, place := .readMenu (.restart selected) }
    else some { s with place := .network selected }
  | .network selected => some (s.switchNetwork ok selected)
  | .readMenu c =>
    -- `restart_for_network` returns when there is no instance
    if c = .network then
      some { s with slot := s.slot.take, place := if s.inst = .none then .top else .stopOld }
    else some { s with slot := s.slot.take, place := .locking c }
  | .stopOld => some { s with inst := .exited, place := .locking .network }
  | .locking c => some (if ok then { s with place := .preparing c } else s.failed c)
  | .preparing c => some (if ok then { s with place := .overlay c } else s.failed c)
  | .overlay _ => none
  | .starting c =>
      some (if ok then { s with slot := s.slot.start, place := .connecting c } else s.failed c)
  | .connecting c => some (if ok then { s with inst := .running, place := c.next } else s.failed c)

/-- `prepare_overlay`. -/
def prepareOverlay (o : Outcome) (c : Cause) : State :=
  if s.slot.toMake then
    match o with
    | .made => { s with slot := s.slot.make .made, place := .starting c }
    | o => { s with slot := s.slot.make o, place := c.next }
  else { s with place := .starting c }

end State

def machine : Machine State Event where
  step s
    | .request fresh =>
      if s.place.working then some { s with slot := s.slot.accept fresh, restart := true } else none
    | .setting toggle =>
      some (if toggle then { s with toggled := true } else { s with restart := true })
    | .select iface => some { s with selected := iface }
    | .exit => if s.inst = .running then some { s with inst := .exited } else none
    | .launch => if s.place = .gone then some { s with place := .readMenu .launch } else none
    | .step ok => s.next ok
    | .overlay o => match s.place with
      | .overlay c => some (s.prepareOverlay o c)
      | _ => none

/-- Every QEMU boots from an overlay made after the latest reset that its start could know of, and
    an overlay is replaced only where a reset was accepted since it was made. -/
structure Honoured (x : Slot) : Prop where
  boots : ∀ b ∈ x.boots, ∃ made, b.1 = some made ∧ b.2 < made
  replaced : ∀ r ∈ x.replaced, r.1 < r.2

/-- Nothing is left to be replaced that a request was taken for. -/
def Slot.Dropping (x : Slot) (taken : Bool) : Prop := taken = true ∧ x.file.isSome = true

instance (x : Slot) (taken : Bool) : Decidable (x.Dropping taken) :=
  inferInstanceAs (Decidable (_ ∧ _))

/-- The step drops no request that was taken while there is an overlay to replace, and no reset is
    accepted while a start that has read the menu has still to make the overlay. -/
def Keeps (s : State) : Event → Prop
  | .request fresh => fresh = true → s.place.making = true → s.slot.toMake = false
  | .step ok => match s.place with
    | .readMenu .network => s.inst = .none → ¬ s.slot.Dropping s.slot.reset
    | .locking _ | .preparing _ => ok = false → ¬ s.slot.Dropping s.slot.fresh
    | _ => True
  | .overlay .old => ¬ s.slot.Dropping s.slot.fresh
  | _ => True

instance (s : State) (a : Event) : Decidable (Keeps s a) := by
  unfold Keeps
  split
  · infer_instance
  · split <;> infer_instance
  · infer_instance
  · infer_instance

/-! ## The invariant -/

/-- What the slot's times are at a place: `making` says that the start has still to make the
    overlay, `starting` that it has. -/
structure Slot.Inv (x : Slot) (making starting : Bool) : Prop where
  past : (∀ made, x.file = some made → made < x.clock) ∧ x.accepted < x.clock ∧ x.seen ≤ x.accepted
  /-- A request that is open, or taken and not served, is newer than the overlay. -/
  asked : x.reset = true ∨ making = true ∧ x.fresh = true → ∀ made, x.file = some made →
    made < x.accepted
  /-- Where there is none, the overlay is newer than every reset. -/
  served : x.reset = false → ¬ (making = true ∧ x.fresh = true) → ∀ made, x.file = some made →
    x.accepted < made
  /-- An overlay that the start keeps is newer than what it has seen. -/
  kept : making = true → x.fresh = false → ∀ made, x.file = some made → x.seen < made
  alone : making = true → x.toMake = true → x.reset = false
  ready : starting = true → ∃ made, x.file = some made ∧ x.seen < made
  honoured : Honoured x

def Place.isStart : Place → Bool
  | .starting _ => true
  | _ => false

def State.Inv (s : State) : Prop := s.slot.Inv s.place.making s.place.isStart

variable {x : Slot} {s t : State} {making starting : Bool}

theorem boot_inv (leftover : Bool) : (State.boot leftover).Inv := by
  have hfile : ∀ made, (Slot.boot leftover).file = some made → made = 0 := by
    intro made hmade
    exact (Option.some.inj (Option.ite_none_right_eq_some.mp hmade).2).symm
  refine ⟨⟨?_, Nat.lt_succ_self 1, Nat.zero_le 1⟩, ?_, fun h => absurd h.symm Bool.false_ne_true,
    fun h => ?_, fun h => ?_, fun h => ?_, ⟨?_, ?_⟩⟩
  · intro made hmade
    rw [hfile made hmade]
    exact Nat.zero_lt_two
  · intro _ made hmade
    rw [hfile made hmade]
    exact Nat.one_pos
  · exact absurd h Bool.false_ne_true
  · exact absurd h Bool.false_ne_true
  · exact absurd h Bool.false_ne_true
  · intro b hb
    exact absurd hb List.not_mem_nil
  · intro r hr
    exact absurd hr List.not_mem_nil

/-- A step to a place outside of the making, where nothing that was taken is dropped. -/
theorem Slot.Inv.leave (h : x.Inv making starting) (hkeep : making = true → ¬ x.Dropping x.fresh) :
    x.Inv false false := by
  refine ⟨h.past, ?_, ?_, fun hm => absurd hm Bool.false_ne_true,
    fun hm => absurd hm Bool.false_ne_true, fun hm => absurd hm Bool.false_ne_true, h.honoured⟩
  · intro hasked
    obtain hreset | ⟨hm, -⟩ := hasked
    · exact h.asked (.inl hreset)
    · exact absurd hm Bool.false_ne_true
  · intro hreset _ made hmade
    refine h.served hreset ?_ made hmade
    rintro ⟨hm, hfresh⟩
    exact hkeep hm ⟨hfresh, by rw [hmade]; rfl⟩

/-- The start reads the menu and goes on. -/
theorem Slot.Inv.take (h : x.Inv false starting) : x.take.Inv true false := by
  refine ⟨⟨h.past.1, h.past.2.1, Nat.le_refl _⟩, ?_, ?_, ?_, fun _ _ => rfl,
    fun hm => absurd hm Bool.false_ne_true, ⟨h.honoured.boots, h.honoured.replaced⟩⟩
  · intro hasked
    obtain hreset | ⟨-, hfresh⟩ := hasked
    · exact absurd hreset Bool.false_ne_true
    · exact h.asked (.inl hfresh)
  · intro _ hfresh
    have hreset : x.reset = false := by
      rw [← Bool.not_eq_true]
      intro hr
      exact hfresh ⟨rfl, hr⟩
    exact h.served hreset fun hm => absurd hm.1 Bool.false_ne_true
  · intro _ hfresh
    exact h.served hfresh fun hm => absurd hm.1 Bool.false_ne_true

/-- A network change reads the menu and has nothing to restart. -/
theorem Slot.Inv.take_idle (h : x.Inv false starting) (hkeep : ¬ x.Dropping x.reset) :
    x.take.Inv false false :=
  h.take.leave fun _ => hkeep

theorem Slot.Inv.accept (h : x.Inv making starting) (hkeep : making = true → x.toMake = false) :
    (x.accept true).Inv making starting := by
  obtain ⟨hfile, haccepted, hseen⟩ := h.past
  refine ⟨⟨?_, Nat.lt_succ_self _, ?_⟩, fun _ => hfile, fun hr => ?_, h.kept, ?_, h.ready,
    ⟨h.honoured.boots, h.honoured.replaced⟩⟩
  · intro made hmade
    exact Nat.lt_succ_of_lt (hfile made hmade)
  · exact Nat.le_trans hseen (Nat.le_of_lt haccepted)
  · exact absurd hr.symm Bool.false_ne_true
  · intro hm hmake
    have hnot : x.toMake = false := hkeep hm
    exact absurd (hnot.symm.trans hmake) Bool.false_ne_true

/-- What is lost when the overlay is made again was older than a reset. -/
theorem Slot.Inv.loses (h : x.Inv true starting) (hmake : x.toMake = true) :
    ∀ r ∈ x.loses, r.1 < r.2 := by
  intro r hr
  unfold Slot.loses at hr
  split at hr
  · rename_i made hmade
    have hfresh : x.fresh = true := by
      rw [Slot.toMake, hmade, Option.isNone_some, Bool.or_false] at hmake
      exact hmake
    obtain rfl | hr := List.mem_cons.mp hr
    · exact h.asked (.inr ⟨rfl, hfresh⟩) made hmade
    · exact h.honoured.replaced r hr
  · exact h.honoured.replaced r hr

/-- The overlay is made, all of it or half. -/
theorem Slot.Inv.made (h : x.Inv true starting) (hmake : x.toMake = true) (ready : Bool) :
    (x.make .made).Inv false ready := by
  obtain ⟨-, haccepted, hseen⟩ := h.past
  have hreset : x.reset = false := h.alone rfl hmake
  refine ⟨⟨?_, Nat.lt_succ_of_lt haccepted, hseen⟩, ?_, ?_, fun hm => absurd hm Bool.false_ne_true,
    fun hm => absurd hm Bool.false_ne_true, ?_, ⟨h.honoured.boots, h.loses hmake⟩⟩
  · intro made hmade
    obtain rfl := Option.some.inj hmade
    exact Nat.lt_succ_self _
  · intro hasked
    obtain hr | ⟨hm, -⟩ := hasked
    · exact absurd (hreset.symm.trans hr) Bool.false_ne_true
    · exact absurd hm Bool.false_ne_true
  · intro _ _ made hmade
    obtain rfl := Option.some.inj hmade
    exact haccepted
  · intro _
    exact ⟨x.clock, rfl, Nat.lt_of_le_of_lt hseen haccepted⟩

theorem Slot.Inv.absent (h : x.Inv true starting) (hmake : x.toMake = true) :
    (x.make .absent).Inv false false := by
  obtain ⟨-, haccepted, hseen⟩ := h.past
  have hnone : ∀ P : Nat → Prop, ∀ made, (x.make .absent).file = some made → P made := by
    intro P made hmade
    cases hmade
  exact ⟨⟨hnone _, haccepted, hseen⟩, fun _ => hnone _, fun _ _ => hnone _, fun _ _ => hnone _,
    fun hm => absurd hm Bool.false_ne_true, fun hm => absurd hm Bool.false_ne_true,
    ⟨h.honoured.boots, h.loses hmake⟩⟩

/-- The overlay is kept as it is. -/
theorem Slot.Inv.keep (h : x.Inv true starting) (hmake : x.toMake = false) : x.Inv false true := by
  obtain ⟨hfresh, hfile⟩ := Bool.or_eq_false_iff.mp hmake
  have hleft := h.leave fun _ hdrop => absurd (hfresh.symm.trans hdrop.1) Bool.false_ne_true
  refine ⟨hleft.past, hleft.asked, hleft.served, hleft.kept, hleft.alone, fun _ => ?_,
    hleft.honoured⟩
  cases hmade : x.file with
  | none => rw [hmade] at hfile; exact absurd hfile.symm Bool.false_ne_true
  | some made => exact ⟨made, rfl, h.kept rfl hfresh made hmade⟩

theorem Slot.Inv.start (h : x.Inv false true) : x.start.Inv false false := by
  have hleft := h.leave fun hm => absurd hm Bool.false_ne_true
  refine ⟨hleft.past, hleft.asked, hleft.served, hleft.kept, hleft.alone, hleft.ready,
    ⟨?_, hleft.honoured.replaced⟩⟩
  intro b hb
  obtain rfl | hb := List.mem_cons.mp hb
  · exact h.ready rfl
  · exact hleft.honoured.boots b hb

/-! ## The steps -/

theorem Cause.next_making (c : Cause) : c.next.making = false ∧ c.next.isStart = false := by
  cases c <;> exact ⟨rfl, rfl⟩

/-- A step that fails outside of the making. -/
theorem State.Inv.failed (h : s.Inv) (c : Cause)
    (hkeep : s.place.making = true → ¬ s.slot.Dropping s.slot.fresh) :
    (s.failed c).Inv := by
  obtain ⟨hmaking, hstart⟩ := c.next_making
  rw [State.Inv, State.failed, hmaking, hstart]
  exact Slot.Inv.leave h hkeep

/-- The slot and what its place says of it stay the same. -/
theorem State.Inv.same (h : s.Inv) (hslot : t.slot = s.slot)
    (hmaking : t.place.making = s.place.making) (hstart : t.place.isStart = s.place.isStart) :
    t.Inv := by
  rw [State.Inv, hslot, hmaking, hstart]
  exact h

theorem State.Inv.switchNetwork (h : s.Inv) (hmaking : s.place.making = false)
    (hstart : s.place.isStart = false) (ok : Bool) (selected : Nat) :
    (s.switchNetwork ok selected).Inv := by
  unfold State.switchNetwork
  split
  · exact h.same rfl hmaking.symm hstart.symm
  · split
    · exact h.same rfl hmaking.symm hstart.symm
    · exact h.same rfl hmaking.symm hstart.symm

theorem State.Inv.prepareOverlay (h : s.Inv) {c : Cause} (hp : s.place = .overlay c) {o : Outcome}
    (hkeep : Keeps s (.overlay o)) :
    (s.prepareOverlay o c).Inv := by
  have hs : s.slot.Inv true false := by
    rw [State.Inv, hp] at h
    exact h
  obtain ⟨hmaking, hstart⟩ := c.next_making
  unfold State.prepareOverlay
  split
  · rename_i hmake
    cases o with
    | made => exact hs.made hmake true
    | absent =>
      dsimp only
      rw [State.Inv, hmaking, hstart]
      exact hs.absent hmake
    | half =>
      dsimp only
      rw [State.Inv, hmaking, hstart]
      exact hs.made hmake false
    | old =>
      dsimp only
      rw [State.Inv, hmaking, hstart]
      exact hs.leave fun _ => hkeep
  · rename_i hmake
    exact hs.keep (Bool.not_eq_true _ ▸ hmake)

theorem State.Inv.next (h : s.Inv) {ok : Bool} (hkeep : Keeps s (.step ok))
    (hs : s.next ok = some t) : t.Inv := by
  -- place by place; the flag is taken at the place that reads it
  unfold State.next at hs
  split at hs
  · cases hs
  · rename_i hp
    have hm : s.place.making = false := by rw [hp]; rfl
    have hb : s.place.isStart = false := by rw [hp]; rfl
    split at hs
    · obtain rfl := Option.some.inj hs
      exact h.same rfl hm.symm hb.symm
    · split at hs
      · obtain rfl := Option.some.inj hs
        exact h.same rfl hm.symm hb.symm
      · obtain rfl := Option.some.inj hs
        exact h.same rfl hm.symm hb.symm
  · rename_i hp
    obtain rfl := Option.some.inj hs
    exact h.same rfl (by rw [hp]; rfl) (by rw [hp]; rfl)
  · rename_i hp
    obtain rfl := Option.some.inj hs
    exact h.same rfl (by rw [hp]; rfl) (by rw [hp]; rfl)
  · rename_i hp
    have hm : s.place.making = false := by rw [hp]; rfl
    have hb : s.place.isStart = false := by rw [hp]; rfl
    obtain rfl := Option.some.inj hs
    cases ok with
    | true => exact h.same rfl hm.symm hb.symm
    | false => exact h.same rfl hm.symm hb.symm
  · rename_i hp
    obtain rfl := Option.some.inj hs
    exact h.same rfl (by rw [hp]; rfl) (by rw [hp]; rfl)
  · rename_i pending selected hp
    have hm : s.place.making = false := by rw [hp]; rfl
    have hb : s.place.isStart = false := by rw [hp]; rfl
    split at hs
    · obtain rfl := Option.some.inj hs
      exact h.same rfl hm.symm hb.symm
    · obtain rfl := Option.some.inj hs
      exact h.same rfl hm.symm hb.symm
  · rename_i selected hp
    obtain rfl := Option.some.inj hs
    exact h.switchNetwork (by rw [hp]; rfl) (by rw [hp]; rfl) ok selected
  -- the flag is read and cleared here
  · rename_i c hp
    have hread : s.slot.Inv false false := by
      rw [State.Inv, hp] at h
      exact h
    split at hs
    · rename_i hc
      obtain rfl := Option.some.inj hs
      rw [hc] at hp
      -- without an instance nothing is started, and by the condition no request is dropped
      by_cases hinst : s.inst = .none
      · rw [Keeps, hp] at hkeep
        rw [State.Inv, if_pos hinst]
        exact hread.take_idle (hkeep hinst)
      · rw [State.Inv, if_neg hinst]
        exact hread.take
    · obtain rfl := Option.some.inj hs
      exact hread.take
  · rename_i hp
    obtain rfl := Option.some.inj hs
    exact h.same rfl (by rw [hp]; rfl) (by rw [hp]; rfl)
  · rename_i c hp
    obtain rfl := Option.some.inj hs
    rw [Keeps, hp] at hkeep
    -- a start that fails here drops no request, by the condition
    cases ok with
    | true => exact h.same rfl (by rw [hp]; rfl) (by rw [hp]; rfl)
    | false => exact h.failed c fun _ => hkeep rfl
  · rename_i c hp
    obtain rfl := Option.some.inj hs
    rw [Keeps, hp] at hkeep
    cases ok with
    | true => exact h.same rfl (by rw [hp]; rfl) (by rw [hp]; rfl)
    | false => exact h.failed c fun _ => hkeep rfl
  · cases hs
  · rename_i c hp
    have hstart : s.slot.Inv false true := by
      rw [State.Inv, hp] at h
      exact h
    obtain rfl := Option.some.inj hs
    cases ok with
    | true => exact hstart.start
    | false => exact h.failed c fun hm => by rw [hp] at hm; exact absurd hm Bool.false_ne_true
  · rename_i c hp
    obtain ⟨hmaking, hb⟩ := c.next_making
    obtain rfl := Option.some.inj hs
    cases ok with
    | true => exact h.same rfl (by rw [hp]; exact hmaking) (by rw [hp]; exact hb)
    | false => exact h.failed c fun hm => by rw [hp] at hm; exact absurd hm Bool.false_ne_true

theorem State.Inv.step (h : s.Inv) {a : Event} (hkeep : Keeps s a)
    (hs : machine.step s a = some t) : t.Inv := by
  cases a with
  | request fresh =>
    obtain ⟨-, ⟨⟩⟩ := Option.ite_none_right_eq_some.mp hs
    cases fresh with
    | true => exact Slot.Inv.accept h (hkeep rfl)
    | false => exact h.same rfl rfl rfl
  | setting toggle =>
    obtain rfl := Option.some.inj hs
    cases toggle with
    | true => exact h.same rfl rfl rfl
    | false => exact h.same rfl rfl rfl
  | select iface =>
    obtain rfl := Option.some.inj hs
    exact h.same rfl rfl rfl
  | exit =>
    obtain ⟨-, ⟨⟩⟩ := Option.ite_none_right_eq_some.mp hs
    exact h.same rfl rfl rfl
  | launch =>
    obtain ⟨hp, ⟨⟩⟩ := Option.ite_none_right_eq_some.mp hs
    exact h.same rfl (by rw [hp]; rfl) (by rw [hp]; rfl)
  | step ok => exact h.next hkeep hs
  | overlay o =>
    simp only [machine] at hs
    split at hs
    · rename_i c hp
      obtain rfl := Option.some.inj hs
      exact h.prepareOverlay hp hkeep
    · cases hs

/-! ## Runs -/

/-- **An accepted reset is never lost, and nothing else discards the slot's state**, in every
    session whose steps drop no request that they took. -/
theorem resets_honoured (leftover : Bool) (h : machine.Reach Keeps (.boot leftover) s) :
    Honoured s.slot :=
  Slot.Inv.honoured
    (Reach.inv (I := State.Inv) (boot_inv leftover) (fun _ _ _ hI hkeep hs => hI.step hkeep hs) h)

/-- A start that reads the menu, makes the overlay or keeps it, and has QEMU running. -/
def started : List Event :=
  [.step true, .step true, .step true, .overlay .made, .step true, .step true]

/-- A tick that restarts QEMU, up to the reading of the menu. -/
def restarted : List Event := [.step true, .step true, .step true]

/-- A session launches and is reset; the restart cannot prepare its folder, and the next restart
    boots from the overlay that was to be replaced. -/
theorem failed_restart_loses_the_reset : ¬ ∀ leftover s, machine.Reach Free (.boot leftover) s →
    Honoured s.slot := by
  intro h
  have hrun : ∃ s, machine.Reach Free (.boot false) s ∧
      decide (s.slot.boots.head? = some (some 2, 3)) = true :=
    Reach.of_run_any
      (.launch :: started ++ .request true :: restarted ++ [.step true, .step true, .step false] ++
      .step true :: .request false :: restarted ++ started) (by decide)
  obtain ⟨s, hreach, hboot⟩ := hrun
  obtain ⟨made, hmade, hlt⟩ :=
    (h false s hreach).boots _ (List.mem_of_head? (of_decide_eq_true hboot))
  obtain rfl := Option.some.inj hmade
  exact absurd hlt (by decide)

/-- A session launches, is reset, and boots from the overlay that its restart makes. -/
theorem reset_session_honoured : ∃ s, machine.Reach Keeps (.boot false) s ∧
    s.slot.boots = [(some 4, 3), (some 2, 1)] ∧
    Honoured s.slot := by
  have hrun : ∃ s, machine.Reach Keeps (.boot false) s ∧
      decide (s.slot.boots = [(some 4, 3), (some 2, 1)]) = true :=
    Reach.of_run_any (.launch :: started ++ .request true :: restarted ++ started)
      (by decide)
  obtain ⟨s, hreach, hboots⟩ := hrun
  exact ⟨s, hreach, of_decide_eq_true hboots, resets_honoured false hreach⟩

end CdjEmu.Runtime.Ephemeral
