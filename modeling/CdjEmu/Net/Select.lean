/-
  NETWORK SELECTION — `menu_state::refresh_net_interfaces`, `menu::action::select_interface`,
  `network_change` of the control API, and `runtime_worker/net.rs`, one acquisition of the menu lock
  at a time.

  The menu keeps the selection as an INDEX into the interface list, and the worker decides whether
  there is anything to do by comparing that index with the one it has switched to last.  The list it
  points into is replaced whenever interfaces are enumerated again, also between the click and the
  lookup, and during an attach that waits for a password.  The state has the list, the two indices,
  what the worker's `QemuConfig` is attached to and what the running guest is on; the HISTORY says
  which interface the user meant.

  * Equal indices that mean different interfaces leave the guest where it was
    (`reordered_list_keeps_the_old_bridge`).
  * In every run in which the list holds still under a selection that is not attached yet, an index
    equal to the last one names the interface that is attached, and no other interface is selected
    during a switch, the guest follows the user (`guest_follows_the_selection`).

  Interface addresses are not modelled: they decide only whether the menu is drawn again.  An index
  never comes near the two sentinels at the top of `u32`, so the three kinds of selection are the
  constructors of `Sel`.

  1. **Program** — the functions that read or write the selection, each with the lock that it takes;
     the worker's tick is a place that it has reached, so that the menu and the host may come
     between any two of its locks.

  2. **Specification** — between ticks, once a tick has taken the user's selection, the guest is
     bridged on the interface that the user meant, by name, or its attach has failed and nothing is
     selected, or it has vanished from the list; and a name that is saved was selected and is
     attached.

  3. **The crux** — the index is compared, the name is meant.  The invariant ties the index that was
     switched to last to the name in the history; it is kept by every step that leaves the list's
     order alone while a selection waits.
-/
import CdjEmu.Lib.Machine

namespace CdjEmu.Net

open Machine

/-! ## Data model -/

/-- `AppState::selected_interface`: `NET_SEL_NONE`, `NET_SEL_VMNET_HOST`, or an index. -/
inductive Sel
  | none | host | iface (i : Nat)
deriving DecidableEq, Repr

/-- The index of a selected interface. -/
def Sel.index : Sel → Option Nat
  | .iface i => some i
  | _ => Option.none

/-- What a `QemuConfig` is attached to. -/
inductive Network
  | nat | host | bridged (name : String)
deriving DecidableEq, Repr

/-- The values of `InstanceSettings::net_iface`: the host-only token or a name. -/
inductive Saved
  | hostToken | iface (name : String)
deriving DecidableEq, Repr

/-- Where the worker is in its tick. -/
inductive Place
  /-- Between ticks. -/
  | idle
  /-- `Requests::drain` has read the selection `sel`. -/
  | drained (sel : Sel)
  /-- `attach_selection`: the interface of `sel` is to be looked up. -/
  | lookup (sel : Sel)
  /-- Inside `net_attach` or `net_attach_host_only`. -/
  | attaching (net : Network)
  /-- `restart_for_network`. -/
  | restarting
  /-- `persisted_iface_name` and `persist_inst`. -/
  | saving
  /-- The rest of the tick. -/
  | rest
deriving DecidableEq, Repr

/-- The menu's and the worker's network state. -/
structure State where
  ifaces : List String
  selected : Sel
  prev : Sel
  config : Network
  /-- The network of the running guest; `none` while no QEMU runs. -/
  guest : Option Network
  saved : Option Saved
  place : Place
deriving DecidableEq, Repr

/-- What happens next. -/
inductive Ev
  /-- `refresh_net_interfaces` by any of its callers, with what the host enumerates. -/
  | refresh (fresh : List String)
  /-- A selection in the menu or by the control API, of an entry of the current list. -/
  | select (sel : Sel)
  /-- A tick starts and drains the requests. -/
  | drain
  /-- The worker's next step succeeds. -/
  | go
  /-- The worker's next step fails. -/
  | fail
  /-- QEMU starts again on the worker's config, for another reason than the network. -/
  | respawn
  /-- QEMU exits, is stopped, or does not start. -/
  | exit
deriving DecidableEq, Repr

namespace State

/-- `persisted_iface_name`. -/
def persistedIfaceName (s : State) : Option Saved :=
  match s.selected with
  | .none => none
  | .host => some .hostToken
  | .iface i => s.ifaces[i]?.map .iface

/-- `attach_selection` up to the attach, for the selection `sel`. -/
def attachSelection (s : State) : Sel → Place
  | .none => .restarting
  | .host => .attaching .host
  | .iface i =>
    match s.ifaces[i]? with
    | some name => .attaching (.bridged name)
    -- the list has no such entry: the guest stays on NAT
    | none => .restarting

/-- The worker's step at each place. -/
def work (s : State) : Place → Ev → Option State
  | .idle, .drain => some { s with place := .drained s.selected }
  | .drained sel, .go =>
    if sel = s.prev then some { s with place := .rest }
    else some { s with prev := sel, config := .nat, place := .lookup sel }
  | .lookup sel, .go => some { s with place := s.attachSelection sel }
  | .attaching net, .go => some { s with config := net, place := .restarting }
  -- `reject_selection`
  | .attaching _, .fail => some { s with selected := .none, prev := .none, place := .restarting }
  | .restarting, .go => some { s with guest := some s.config, place := .saving }
  | .restarting, .fail => some { s with guest := none, place := .saving }
  | .saving, .go => some { s with saved := s.persistedIfaceName, place := .rest }
  | .saving, .fail => some { s with place := .rest }
  | .rest, .go => some { s with place := .idle }
  | .idle, .respawn => some { s with guest := some s.config }
  | .drained _, .respawn => some { s with guest := some s.config }
  | _, _ => none

/-- One step of the menu, the host or the worker. -/
def step (s : State) : Ev → Option State
  | .refresh fresh => some { s with ifaces := fresh }
  | .select (.iface i) =>
    if i < s.ifaces.length then some { s with selected := .iface i } else none
  | .select sel => some { s with selected := sel }
  | .exit => some { s with guest := none }
  | ev => s.work s.place ev

end State

/-- The history: which interface the user selected last, whether a tick has drained that selection,
    whether an attach to it has failed and whether a list without it was published since; and every
    interface ever selected. -/
structure Hist where
  want : Option String
  served : Bool
  failed : Bool
  vanished : Bool
  chosen : List String
deriving DecidableEq, Repr

/-- The history of one step. -/
def Hist.next (h : Hist) (s : State) (e : Ev) (_ : State) : Hist :=
  match e with
  | .select (.iface i) => ⟨s.ifaces[i]?, false, false, false, s.ifaces[i]?.toList ++ h.chosen⟩
  | .select _ => ⟨none, false, false, false, h.chosen⟩
  | .refresh fresh =>
    { h with vanished := h.vanished || h.want.any fun x => decide (x ∉ fresh) }
  | .drain => { h with served := true }
  | .fail =>
    match s.place with
    | .attaching (.bridged name) => { h with failed := h.failed || decide (h.want = some name) }
    | _ => h
  | _ => h

/-- The worker and the menu as a machine, with the history. -/
abbrev netMachine : Machine (State × Hist) Ev := (Machine.mk State.step).hist Hist.next

/-- The state after the first launch of the process: one that selected nothing, or one that restored
    the interface at index `i` and bridged the guest on it (`prebuild_net`).

    A later launch of the same window runs `prebuild_net` again, with the menu as it then is;
    nothing is said of it. -/
def launched (ifaces : List String) (saved : Option Saved) :
    Option (Fin ifaces.length) → State × Hist
  | none => (⟨ifaces, .none, .none, .nat, some .nat, saved, .idle⟩, ⟨none, true, false, false, []⟩)
  | some i =>
    (⟨ifaces, .iface i, .iface i, .bridged (ifaces.get i), some (.bridged (ifaces.get i)),
      saved, .idle⟩,
      ⟨some (ifaces.get i), true, false, false, [ifaces.get i]⟩)

/-! ## The condition -/

/-- The worker has begun to switch and has not saved the selection yet. -/
def Place.switching : Place → Bool
  | .lookup _ | .attaching _ | .restarting | .saving => true
  | _ => false

/-- The selection that the tick has drained and not acted on yet. -/
def Place.willServe : Place → Option Sel
  | .drained sel => some sel
  | _ => none

/-- The list that replaces the current one keeps the index `i` of the selection meaningful:
    before the lookup it names the wanted interface, or nothing and the interface is gone; after
    it, it names what the worker attaches to, or nothing.  Once a selection is settled the list
    may change in any way. -/
def KeepsIndex (s : State) (want : Option String) (fresh : List String) (i : Nat) : Place → Prop
  | .attaching net => fresh[i]? = none ∨ fresh[i]?.map .bridged = some net
  | .restarting => fresh[i]? = none ∨ fresh[i]?.map .bridged = some s.config
  | .saving => fresh[i]? = none ∨ fresh[i]?.map .bridged = some s.config
  | .lookup _ => fresh[i]? = want ∨ (fresh[i]? = none ∧ ∀ x ∈ want, x ∉ fresh)
  | _ => s.selected = s.prev ∨ fresh[i]? = want ∨ (fresh[i]? = none ∧ ∀ x ∈ want, x ∉ fresh)

instance (s : State) (want : Option String) (fresh : List String) (i : Nat) (l : Place) :
    Decidable (KeepsIndex s want fresh i l) :=
  match l with
  | .attaching _ => inferInstanceAs (Decidable (_ ∨ _))
  | .restarting => inferInstanceAs (Decidable (_ ∨ _))
  | .saving => inferInstanceAs (Decidable (_ ∨ _))
  | .lookup _ => inferInstanceAs (Decidable (_ ∨ _))
  | .idle => inferInstanceAs (Decidable (_ ∨ _))
  | .drained _ => inferInstanceAs (Decidable (_ ∨ _))
  | .rest => inferInstanceAs (Decidable (_ ∨ _))

/-- The entry `i` may be selected: an index equal to the last one names the attached interface, and
    during a switch, or once a switch is certain, no other interface is selected. -/
def SelectsApart (s : State) (i : Nat) : Prop :=
  (.iface i = s.prev → s.ifaces[i]?.map .bridged = some s.config) ∧
  (s.place.switching → .iface i = s.prev) ∧ ∀ sel ∈ s.place.willServe, sel = s.prev

instance (s : State) (i : Nat) : Decidable (SelectsApart s i) :=
  inferInstanceAs (Decidable (_ ∧ _ ∧ _))

/-- The condition under which the guest follows the selection. -/
def Follows (p : State × Hist) : Ev → Prop
  | .select (.iface i) => SelectsApart p.1 i
  | .refresh fresh => ∀ i ∈ p.1.selected.index, KeepsIndex p.1 p.2.want fresh i p.1.place
  | _ => True

instance (p : State × Hist) (e : Ev) : Decidable (Follows p e) :=
  match e with
  | .select (.iface i) => inferInstanceAs (Decidable (SelectsApart p.1 i))
  | .refresh _ => inferInstanceAs (Decidable (∀ i ∈ p.1.selected.index, _))
  | .select .none => inferInstanceAs (Decidable True)
  | .select .host => inferInstanceAs (Decidable True)
  | .drain => inferInstanceAs (Decidable True)
  | .go => inferInstanceAs (Decidable True)
  | .fail => inferInstanceAs (Decidable True)
  | .respawn => inferInstanceAs (Decidable True)
  | .exit => inferInstanceAs (Decidable True)

/-! ## The invariant -/

/-- The wanted interface `x` has been dealt with: the worker is attached to it, or an attach to it
    failed and nothing is selected, or it had vanished from the list. -/
def Settled (s : State) (h : Hist) (x : String) : Prop :=
  s.config = .bridged x ∨ (h.failed = true ∧ s.selected = .none) ∨ h.vanished = true

/-- The wanted interface `x` is still to be looked up: the selected index names it, or nothing and
    `x` had vanished. -/
def Pending (s : State) (h : Hist) (x : String) : Prop :=
  ∃ i, s.selected = .iface i ∧ (s.ifaces[i]? = some x ∨ (h.vanished = true ∧ s.ifaces[i]? = none))

/-- Between switches: settled, or pending and not drained yet. -/
def Steady (s : State) (h : Hist) (x : String) : Prop :=
  (s.selected = s.prev ∧ Settled s h x) ∨ (s.selected ≠ s.prev ∧ Pending s h x ∧ h.served = false)

/-- What the worker relies on at each place, for the wanted interface `x`. -/
def Sound (s : State) (h : Hist) (x : String) : Place → Prop
  | .idle => Steady s h x
  | .rest => Steady s h x
  | .drained sel => (sel = s.prev ∧ Steady s h x) ∨
      (sel ≠ s.prev ∧ s.selected = sel ∧ Pending s h x)
  | .lookup sel => s.selected = sel ∧ Pending s h x
  | .attaching net => net = .bridged x ∧ s.selected = s.prev ∧
    ∃ i, s.selected = .iface i ∧ (s.ifaces[i]? = none ∨ s.ifaces[i]? = some x)
  | _ => s.selected = s.prev ∧ Settled s h x ∧ (s.config = .nat ∨ s.config = .bridged x) ∧
    ∀ i, s.selected = .iface i → s.ifaces[i]? = none ∨ s.ifaces[i]?.map .bridged = some s.config

/-- What holds whatever is wanted. -/
def Frame (s : State) : Place → Prop
  | .lookup sel => s.prev = sel ∧ s.config = .nat
  | .attaching _ => s.config = .nat
  | .restarting => True
  | _ => s.guest = none ∨ s.guest = some s.config

/-- The invariant of runs that meet the condition. -/
structure Inv (p : State × Hist) : Prop where
  frame : Frame p.1 p.1.place
  sound : ∀ x, p.2.want = some x → Sound p.1 p.2 x p.1.place
  chosen : ∀ x, p.2.want = some x → x ∈ p.2.chosen
  wanted : ∀ i, p.1.selected = .iface i → ∃ x, p.2.want = some x

section Steps

variable {s t : State} {h : Hist} {x : String}

/-- A selection that is not an interface leaves nothing wanted. -/
theorem Inv.of_unwanted (hw : h.want = none) (hsel : s.selected.index = none)
    (hf : Frame s s.place) : Inv (s, h) where
  frame := hf
  sound x hx := by rw [hw] at hx; nomatch hx
  chosen x hx := by rw [hw] at hx; nomatch hx
  wanted i hi := by
    have hi' : s.selected = .iface i := hi
    rw [hi'] at hsel
    nomatch hsel

/-- A new list keeps a pending selection pending. -/
theorem Pending.refresh {fresh : List String} {served failed vanished : Bool} {chosen : List String}
    (hp : Pending s ⟨some x, served, failed, vanished, chosen⟩ x)
    (hk : ∀ i, s.selected = .iface i →
      fresh[i]? = some x ∨ (fresh[i]? = none ∧ ∀ y ∈ some x, y ∉ fresh)) :
    Pending { s with ifaces := fresh }
      ⟨some x, served, failed, vanished || decide (x ∉ fresh), chosen⟩ x := by
  obtain ⟨i, hi, -⟩ := hp
  refine ⟨i, hi, ?_⟩
  rcases hk i hi with hsome | ⟨hnone, hgone⟩
  · exact .inl hsome
  · exact .inr ⟨by simp [hgone x rfl], hnone⟩

theorem Settled.mono {h' : Hist} (hf : h.failed → h'.failed) (hv : h.vanished → h'.vanished)
    (hc : t.config = s.config) (hsel : t.selected = s.selected) (hs : Settled s h x) :
    Settled t h' x := by
  rcases hs with hs | ⟨hfail, hnone⟩ | hs
  · exact .inl (hc.trans hs)
  · exact .inr (.inl ⟨hf hfail, hsel.trans hnone⟩)
  · exact .inr (.inr (hv hs))

/-- The host enumerates another list. -/
theorem Inv.refresh (hi : Inv (s, h)) {fresh : List String} (hg : Follows (s, h) (.refresh fresh)) :
    Inv ({ s with ifaces := fresh }, h.next s (.refresh fresh) { s with ifaces := fresh }) := by
  obtain ⟨hframe, hsound, hchosen, hwanted⟩ := hi
  refine ⟨?_, fun x hx => ?_, hchosen, hwanted⟩
  · show Frame { s with ifaces := fresh } s.place
    cases hp : s.place <;> simp only [hp] at hframe <;> exact hframe
  -- the index that was chosen, and what it means in the new list
  obtain ⟨want, served, failed, vanished, chosen⟩ := h
  obtain rfl : want = some x := hx
  have hs := hsound x rfl
  have hk : ∀ i, s.selected = .iface i → KeepsIndex s (some x) fresh i s.place := by
    intro i hi
    exact hg i (by show s.selected.index = some i; rw [hi]; rfl)
  show Sound { s with ifaces := fresh }
    ⟨some x, served, failed, vanished || decide (x ∉ fresh), chosen⟩ x s.place
  -- what is settled stays so, or the chosen one has vanished
  have hset : Settled s ⟨some x, served, failed, vanished, chosen⟩ x →
      Settled { s with ifaces := fresh }
        ⟨some x, served, failed, vanished || decide (x ∉ fresh), chosen⟩ x :=
    Settled.mono id (fun hv => by simp_all) rfl rfl
  have hsteady : (∀ i, s.selected = .iface i → s.selected = s.prev ∨ fresh[i]? = some x ∨
        (fresh[i]? = none ∧ ∀ y ∈ some x, y ∉ fresh)) →
      Steady s ⟨some x, served, failed, vanished, chosen⟩ x →
      Steady { s with ifaces := fresh }
        ⟨some x, served, failed, vanished || decide (x ∉ fresh), chosen⟩ x := by
    intro hk hst
    rcases hst with ⟨heq, hst⟩ | ⟨hne, hst, hserved⟩
    · exact .inl ⟨heq, hset hst⟩
    · exact .inr ⟨hne, hst.refresh fun i hi => (hk i hi).resolve_left hne, hserved⟩
  have hkeep : (∀ i, s.selected = .iface i →
        fresh[i]? = none ∨ fresh[i]?.map .bridged = some s.config) →
      (s.selected = s.prev ∧ Settled s ⟨some x, served, failed, vanished, chosen⟩ x ∧
        (s.config = .nat ∨ s.config = .bridged x) ∧
        ∀ i, s.selected = .iface i → s.ifaces[i]? = none ∨
        s.ifaces[i]?.map .bridged = some s.config) →
      Sound { s with ifaces := fresh }
        ⟨some x, served, failed, vanished || decide (x ∉ fresh), chosen⟩ x .saving :=
    fun hk hst => ⟨hst.1, hset hst.2.1, hst.2.2.1, hk⟩
  -- what the place needs of the new list
  cases hp : s.place <;> rw [hp] at hs hk
  case idle => exact hsteady hk hs
  case rest => exact hsteady hk hs
  case drained sel =>
    rcases hs with ⟨heq, hst⟩ | ⟨hne, hsel, hpend⟩
    -- the choice is the one in force, or one that the worker has drained
    · exact .inl ⟨heq, hsteady hk hst⟩
    · exact .inr ⟨hne, hsel, hpend.refresh fun i hi => (hk i hi).resolve_left (hsel ▸ hne)⟩
  case lookup sel => exact ⟨hs.1, hs.2.refresh hk⟩
  case attaching net =>
    obtain ⟨rfl, heq, i, hi, -⟩ := hs
    refine ⟨rfl, heq, i, hi, ?_⟩
    -- the name is still at its index, or the index is gone
    rcases hk i hi with hnone | hsome
    · exact .inl hnone
    · exact .inr (by simpa using hsome)
  case restarting => exact hkeep hk hs
  case saving => exact hkeep hk hs

/-- The user selects the entry `i`, which names `x`. -/
theorem Inv.select (hi : Inv (s, h)) {i : Nat} (hx : s.ifaces[i]? = some x)
    (hg : SelectsApart s i) : Inv ({ s with selected := .iface i },
      ⟨some x, false, false, false, x :: h.chosen⟩) := by
  obtain ⟨hprev, hswitch, hdrained⟩ := hg
  rw [hx] at hprev
  refine ⟨?_, fun y hy => ?_, fun y hy => ?_, fun _ _ => ⟨x, rfl⟩⟩
  · have hframe := hi.frame
    show Frame { s with selected := .iface i } s.place
    cases hp : s.place <;> simp only [hp] at hframe <;> exact hframe
  · obtain rfl : x = y := Option.some.inj hy
    have hattached : .iface i = s.prev → s.config = .bridged x :=
      fun heq => (Option.some.inj (hprev heq)).symm
    have hpend : Pending { s with selected := .iface i }
        ⟨some x, false, false, false, x :: h.chosen⟩ x :=
      ⟨i, rfl, .inl hx⟩
    have hsteady : Steady { s with selected := .iface i }
        ⟨some x, false, false, false, x :: h.chosen⟩ x := by
      by_cases heq : .iface i = s.prev
      · exact .inl ⟨heq, .inl (hattached heq)⟩
      · exact .inr ⟨heq, hpend, rfl⟩
    have hframe := hi.frame
    have hdone (heq : .iface i = s.prev) : Sound { s with selected := .iface i }
        ⟨some x, false, false, false, x :: h.chosen⟩ x .saving := by
      refine ⟨heq, .inl (hattached heq), .inr (hattached heq), fun j hj => .inr ?_⟩
      obtain rfl : i = j := Sel.iface.inj hj
      show s.ifaces[i]?.map .bridged = some s.config
      rw [hx, hattached heq]
      rfl
    show Sound { s with selected := .iface i } _ x s.place
    cases hp : s.place <;> simp only [hp] at hframe hswitch hdrained
    case idle => exact hsteady
    case rest => exact hsteady
    case drained sel => exact .inl ⟨hdrained sel rfl, hsteady⟩
    -- before the attach the worker is on NAT, so no interface may be selected
    case lookup sel => exact absurd (hframe.2.symm.trans (hattached (hswitch rfl))) (by simp)
    case attaching net => exact absurd (hframe.symm.trans (hattached (hswitch rfl))) (by simp)
    case restarting => exact hdone (hswitch rfl)
    case saving => exact hdone (hswitch rfl)
  · obtain rfl : x = y := Option.some.inj hy
    exact List.mem_cons_self

/-- The user selects NAT or the host-only network. -/
theorem Inv.deselect (hi : Inv (s, h)) {sel : Sel} (hsel : sel.index = none) :
    Inv ({ s with selected := sel }, ⟨none, false, false, false, h.chosen⟩) := by
  refine Inv.of_unwanted rfl hsel ?_
  have hframe := hi.frame
  show Frame { s with selected := sel } s.place
  cases hp : s.place <;> simp only [hp] at hframe <;> exact hframe

/-- QEMU exits, or starts again on the worker's config. -/
theorem Inv.setGuest (hi : Inv (s, h)) {g : Option Network} (hg : g = none ∨ g = some s.config) :
    Inv ({ s with guest := g }, h) := by
  refine ⟨?_, fun x hx => ?_, hi.chosen, hi.wanted⟩
  · have hframe := hi.frame
    show Frame { s with guest := g } s.place
    cases hp : s.place <;> simp only [hp] at hframe <;> first | exact hframe | exact hg
  · have hs := hi.sound x hx
    show Sound { s with guest := g } h x s.place
    cases hp : s.place <;> simp only [hp] at hs <;> exact hs

/-- `attach_selection` of the pending interface attaches to it, or finds that it is gone. -/
theorem Inv.lookup (hi : Inv (s, h)) {sel : Sel} (hp : s.place = .lookup sel) :
    Inv ({ s with place := s.attachSelection sel }, h) := by
  have hframe := hi.frame
  have hsound := hi.sound
  simp only [hp] at hframe hsound
  obtain ⟨hprev, hnat⟩ := hframe
  have hframe' : Frame { s with place := s.attachSelection sel } (s.attachSelection sel) := by
    cases sel with
    | none => trivial
    | host => exact hnat
    | iface i => unfold State.attachSelection; dsimp only; split; exacts [hnat, trivial]
  refine ⟨hframe', fun x hx => ?_, hi.chosen, hi.wanted⟩
  obtain ⟨hsel, i, hi', hname⟩ := hsound x hx
  obtain rfl : sel = .iface i := hsel.symm.trans hi'
  show Sound { s with place := s.attachSelection (.iface i) } h x (s.attachSelection (.iface i))
  have heq : s.selected = s.prev := hsel.trans hprev.symm
  rcases hname with hname | ⟨hgone, hname⟩
  · simp only [State.attachSelection, hname]
    exact ⟨rfl, heq, i, hi', .inr hname⟩
  · simp only [State.attachSelection, hname]
    refine ⟨heq, .inr (.inr hgone), .inl hnat, fun j hj => .inl ?_⟩
    obtain rfl : i = j := Sel.iface.inj (hi'.symm.trans hj)
    exact hname

/-- The attach succeeds. -/
theorem Inv.attached (hi : Inv (s, h)) {net : Network} (hp : s.place = .attaching net) :
    Inv ({ s with config := net, place := .restarting }, h) := by
  refine ⟨trivial, fun x hx => ?_, hi.chosen, hi.wanted⟩
  have hs := hi.sound x hx
  simp only [hp] at hs
  obtain ⟨rfl, heq, i, hi', hname⟩ := hs
  refine ⟨heq, .inl rfl, .inr rfl, fun j hj => ?_⟩
  obtain rfl : i = j := Sel.iface.inj (hi'.symm.trans hj)
  rcases hname with hname | hname
  · exact .inl hname
  · exact .inr (by show s.ifaces[i]?.map Network.bridged = _; rw [hname]; rfl)

/-- `reject_selection`: the attach fails. -/
theorem Inv.rejected (hi : Inv (s, h)) {net : Network} (hp : s.place = .attaching net) :
    Inv ({ s with selected := .none, prev := .none, place := .restarting },
      h.next s .fail { s with selected := .none, prev := .none, place := .restarting }) := by
  have hnext : (h.next s .fail
      { s with selected := .none, prev := .none, place := .restarting }).want = h.want ∧
      (h.next s .fail
        { s with selected := .none, prev := .none, place := .restarting }).chosen = h.chosen := by
    simp only [Hist.next, hp]
    cases net <;> exact ⟨rfl, rfl⟩
  refine ⟨trivial, fun x hx => ?_, fun x hx => ?_, fun i hi => nomatch hi⟩
  · have hs := hi.sound x (hnext.1 ▸ hx)
    have hframe := hi.frame
    simp only [hp] at hs hframe
    obtain ⟨rfl, -⟩ := hs
    refine ⟨rfl, .inr (.inl ⟨?_, rfl⟩), .inl hframe, fun i hi => nomatch hi⟩
    have hw : h.want = some x := hnext.1 ▸ hx
    simp [Hist.next, hp, hw]
  · rw [hnext.2]
    exact hi.chosen x (hnext.1 ▸ hx)

/-- The tick moves on to a place that relies on no more than the last one did. -/
theorem Inv.move (hi : Inv (s, h)) {l : Place} (hf : Frame s s.place → Frame s l)
    (hs : ∀ x, h.want = some x → Sound s h x s.place → Sound s h x l) :
    Inv ({ s with place := l }, h) := by
  refine ⟨?_, fun x hx => ?_, hi.chosen, hi.wanted⟩
  · have hframe := hf hi.frame
    show Frame { s with place := l } l
    cases l <;> exact hframe
  · have hsound := hs x hx (hi.sound x hx)
    show Sound { s with place := l } h x l
    cases l <;> exact hsound

/-- After the save the selection is settled and the tick may end. -/
theorem Sound.steady (hs : Sound s h x .saving) : Steady s h x := .inl ⟨hs.1, hs.2.1⟩

/-- The worker's steps. -/
theorem Inv.work (hi : Inv (s, h)) {e : Ev} (hw : s.work s.place e = some t) :
    Inv (t, h.next s e t) := by
  -- place by place
  cases hp : s.place with
  | idle =>
    rw [hp] at hw
    cases e <;> simp only [State.work, Option.some.injEq, reduceCtorEq] at hw
    case drain =>
      subst hw
      have hframe := hi.frame
      simp only [hp] at hframe
      refine ⟨hframe, fun x hx => ?_, hi.chosen, hi.wanted⟩
      have hs := hi.sound x hx
      simp only [hp] at hs
      -- the choice is in force, or it is a new one
      by_cases heq : s.selected = s.prev
      · refine .inl ⟨heq, .inl ⟨heq, ?_⟩⟩
        rcases hs with ⟨-, hs⟩ | ⟨hne, -⟩
        · exact hs
        · exact absurd heq hne
      · rcases hs with ⟨heq', -⟩ | ⟨-, hs, -⟩
        · exact absurd heq' heq
        · exact .inr ⟨heq, rfl, hs⟩
    case respawn =>
      subst hw
      exact hi.setGuest (.inr rfl)
  | drained sel =>
    rw [hp] at hw
    cases e <;> simp only [State.work, Option.some.injEq, reduceCtorEq] at hw
    case go =>
      split at hw <;> cases hw
      -- nothing new: the tick rests
      case isTrue heq =>
        refine hi.move (by rw [hp]; exact id) fun x _ hs => ?_
        rw [hp] at hs
        rcases hs with ⟨-, hs⟩ | ⟨hne, -⟩
        · exact hs
        · exact absurd heq hne
      -- a new one is looked up
      case isFalse hne =>
        refine ⟨⟨rfl, rfl⟩, fun x hx => ?_, hi.chosen, hi.wanted⟩
        have hs := hi.sound x hx
        simp only [hp] at hs
        rcases hs with ⟨heq, -⟩ | ⟨-, hsel, hpend⟩
        · exact absurd heq hne
        · exact ⟨hsel, hpend⟩
    case respawn =>
      subst hw
      exact hi.setGuest (.inr rfl)
  | lookup sel =>
    rw [hp] at hw
    cases e <;> simp only [State.work, Option.some.injEq, reduceCtorEq] at hw
    subst hw
    exact hi.lookup hp
  | attaching net =>
    rw [hp] at hw
    cases e <;> simp only [State.work, Option.some.injEq, reduceCtorEq] at hw
    case go =>
      subst hw
      exact hi.attached hp
    case fail =>
      subst hw
      exact hi.rejected hp
  | restarting =>
    rw [hp] at hw
    -- whatever the guest has is its network, or none
    have hmove (g : Option Network) (hg : g = none ∨ g = some s.config) :
        Inv ({ s with guest := g, place := .saving }, h) :=
      (hi.setGuest hg).move (fun _ => hg) fun x _ hs => by simp only [hp] at hs ⊢; exact hs
    cases e <;> simp only [State.work, Option.some.injEq, reduceCtorEq] at hw
    case go =>
      subst hw
      exact hmove _ (.inr rfl)
    case fail =>
      subst hw
      have hnext : h.next s .fail { s with guest := none, place := .saving } = h := by
        simp only [Hist.next, hp]
      rw [hnext]
      exact hmove _ (.inl rfl)
  | saving =>
    rw [hp] at hw
    -- the choice is in force, with the network that it means
    have hrest : Inv ({ s with place := .rest }, h) := by
      refine hi.move (by rw [hp]; exact id) fun x _ hs => ?_
      rw [hp] at hs
      exact hs.steady
    cases e <;> simp only [State.work, Option.some.injEq, reduceCtorEq] at hw
    case go =>
      subst hw
      exact ⟨hrest.frame, hrest.sound, hrest.chosen, hrest.wanted⟩
    case fail =>
      subst hw
      have hnext : h.next s .fail { s with place := .rest } = h := by simp only [Hist.next, hp]
      rw [hnext]
      exact hrest
  | rest =>
    rw [hp] at hw
    cases e <;> simp only [State.work, Option.some.injEq, reduceCtorEq] at hw
    subst hw
    exact hi.move (by rw [hp]; exact id) fun x _ hs => by rw [hp] at hs; exact hs

/-- **The step lemma.**  A step that meets the condition keeps the invariant. -/
theorem Inv.step {p q : State × Hist} {e : Ev} (hi : Inv p) (hg : Follows p e)
    (hs : netMachine.step p e = some q) : Inv q := by
  obtain ⟨s, h⟩ := p
  obtain ⟨t, ht, rfl⟩ := hist_step hs
  change s.step e = some t at ht
  cases e with
  | refresh fresh =>
    obtain rfl := Option.some.inj ht
    exact hi.refresh hg
  | select sel =>
    cases sel with
    | iface i =>
      simp only [State.step, Option.ite_none_right_eq_some, Option.some.injEq] at ht
      obtain ⟨hlt, rfl⟩ := ht
      have hx : s.ifaces[i]? = some s.ifaces[i] := List.getElem?_eq_getElem hlt
      simp only [Hist.next, hx]
      exact hi.select hx hg
    | none =>
      obtain rfl := Option.some.inj ht
      exact hi.deselect rfl
    | host =>
      obtain rfl := Option.some.inj ht
      exact hi.deselect rfl
  | exit =>
    obtain rfl := Option.some.inj ht
    exact hi.setGuest (.inl rfl)
  | drain => exact hi.work ht
  | go => exact hi.work ht
  | fail => exact hi.work ht
  | respawn => exact hi.work ht

end Steps

/-! ## Whole runs -/

theorem inv_launched (ifaces : List String) (saved : Option Saved)
    (i : Option (Fin ifaces.length)) :
    Inv (launched ifaces saved i) := by
  cases i with
  | none => exact Inv.of_unwanted rfl rfl (.inr rfl)
  | some i =>
    refine ⟨.inr rfl, fun x hx => ?_, fun x hx => ?_, fun _ _ => ⟨_, rfl⟩⟩
    · obtain rfl := Option.some.inj hx
      exact .inl ⟨rfl, .inl rfl⟩
    · obtain rfl := Option.some.inj hx
      exact List.mem_cons_self

/-- **The guest follows the selection.**  In every run that meets the condition: between ticks, once
    a tick has drained the selection of `x`, the guest is bridged on `x` (or not running, with `x`
    configured), or an attach to `x` failed and nothing is selected, or `x` had vanished from the
    list; and a name that is saved was selected and is attached. -/
theorem guest_follows_the_selection (ifaces : List String) (saved : Option Saved)
    (i : Option (Fin ifaces.length)) {s : State} {h : Hist}
    (hr : netMachine.Reach Follows (launched ifaces saved i) (s, h)) :
    (s.place = .idle → h.served = true → ∀ x, h.want = some x →
      (s.config = .bridged x ∧ (s.guest = none ∨ s.guest = some (.bridged x))) ∨
      (h.failed = true ∧ s.selected = .none) ∨ h.vanished = true) ∧
    (s.place = .saving → ∀ x, s.persistedIfaceName = some (.iface x) →
      x ∈ h.chosen ∧ s.config = .bridged x) := by
  have hinv : Inv (s, h) :=
    hr.inv (I := Inv) (inv_launched ifaces saved i) fun _ _ _ hi hg hs => hi.step hg hs
  refine ⟨fun hp hserved x hx => ?_, fun hp x hsave => ?_⟩
  · have hs := hinv.sound x hx
    have hframe := hinv.frame
    simp only [hp] at hs hframe
    rcases hs with ⟨-, hset⟩ | ⟨-, -, hserved'⟩
    · rcases hset with hc | hfail | hgone
      · have hguest : s.guest = none ∨ s.guest = some s.config := hframe
        rw [hc] at hguest
        exact .inl ⟨hc, hguest⟩
      · exact .inr (.inl hfail)
      · exact .inr (.inr hgone)
    · rw [hserved] at hserved'
      nomatch hserved'
  · unfold State.persistedIfaceName at hsave
    cases hsel : s.selected with
    | none => rw [hsel] at hsave; nomatch hsave
    | host => rw [hsel] at hsave; nomatch hsave
    | iface j =>
      rw [hsel] at hsave
      obtain ⟨y, hy⟩ := hinv.wanted j hsel
      have hs := hinv.sound y hy
      simp only [hp] at hs
      obtain ⟨-, -, hconf, hname⟩ := hs
      obtain ⟨z, hz, hzx⟩ := Option.map_eq_some_iff.mp hsave
      obtain rfl : z = x := Saved.iface.inj hzx
      -- the entry at the selected index is what the worker is attached to, and that is wanted
      rcases hname j hsel with hnone | hmap
      · have hnone' : s.ifaces[j]? = none := hnone
        rw [hz] at hnone'
        nomatch hnone'
      · have hmap' : s.ifaces[j]?.map Network.bridged = some s.config := hmap
        rw [hz] at hmap'
        have hcz : s.config = .bridged z := (Option.some.inj hmap').symm
        rcases hconf with hnat | hyc
        · have hnat' : s.config = .nat := hnat
          rw [hcz] at hnat'
          nomatch hnat'
        · have hyc' : s.config = .bridged y := hyc
          obtain rfl : z = y := Network.bridged.inj (hcz.symm.trans hyc')
          exact ⟨hinv.chosen z hy, hcz⟩

/-- The schedule of a tick that switches, up to its end. -/
def switchSchedule : List Ev := [.drain, .go, .go, .go, .go, .go, .go]

/-- The user selects the second interface of the list, and a new one shows up at its end before the
    worker looks: the guest is bridged on the one selected. -/
theorem guest_follows_the_selection_of_en1 : ∃ s h,
    netMachine.Reach Follows (launched ["en0", "en1"] none none) (s, h) ∧
    s.place = .idle ∧ h.served = true ∧ h.want = some "en1" ∧
    ((s.config = .bridged "en1" ∧ (s.guest = none ∨ s.guest = some (.bridged "en1"))) ∨
      (h.failed = true ∧ s.selected = .none) ∨ h.vanished = true) := by
  obtain ⟨⟨s, h⟩, hr, hp⟩ := Reach.of_run_any (M := netMachine) (G := Follows)
    (s := launched ["en0", "en1"] none none)
    (p := fun p => decide (p.1.place = .idle) && p.2.served && decide (p.2.want = some "en1"))
    ([.select (.iface 1), .refresh ["en0", "en1", "en2"]] ++ switchSchedule) (by decide)
  simp only [Bool.and_eq_true, decide_eq_true_eq] at hp
  obtain ⟨⟨hidle, hserved⟩, hwant⟩ := hp
  exact ⟨s, h, hr, hidle, hserved, hwant,
    (guest_follows_the_selection _ _ _ hr).1 hidle hserved "en1" hwant⟩

/-- **The defect.**  The guest is bridged on the first interface; the host lists the same two
    interfaces in the other order; the user selects the first entry, now the other interface.  The
    index equals the last one, so the tick does nothing. -/
theorem reordered_list_keeps_the_old_bridge : ¬ ∀ s h,
    netMachine.Reach Free (launched ["en0", "en1"] none (some 0)) (s, h) →
    s.place = .idle → h.served = true → ∀ x, h.want = some x →
      s.config = .bridged x ∨ (h.failed = true ∧ s.selected = .none) ∨ h.vanished = true := by
  intro hall
  obtain ⟨⟨s, h⟩, hr, hp⟩ := Reach.of_run_any (M := netMachine) (G := Free)
    (s := launched ["en0", "en1"] none (some 0))
    (p := fun p => decide (p.1.place = .idle) && p.2.served && decide (p.2.want = some "en1") &&
      decide (p.1.config = .bridged "en0") && !p.2.failed && !p.2.vanished)
    [.refresh ["en1", "en0"], .select (.iface 0), .drain, .go, .go] (by decide)
  simp only [Bool.and_eq_true, decide_eq_true_eq, Bool.not_eq_true'] at hp
  obtain ⟨⟨⟨⟨⟨hidle, hserved⟩, hwant⟩, hconf⟩, hfail⟩, hgone⟩ := hp
  rcases hall s h hr hidle hserved "en1" hwant with hc | ⟨hf, -⟩ | hv
  · rw [hconf] at hc
    exact absurd hc (by decide)
  · rw [hfail] at hf; nomatch hf
  · rw [hgone] at hv; nomatch hv

end CdjEmu.Net
