/-
  THE USB SLOT — `UsbManager` of `cdj3k-emu-runtime/src/disk/mod.rs`.

  Every operation is a few effects on QEMU's drive, on the host's mounts and on the guest, with an
  early return after most of them.  What may go wrong is an ARGUMENT of the operation (`Faults`), so
  the operations compute; a failed effect changes nothing.  `remove_fd` and `remount_host` are best
  effort: they are made and their results are ignored.

  `Knows` is what the manager promises after every operation: `current` is what the drive holds, and
  no disk stays unmounted, nor any fdset open, for a medium that is not in the drive.  From a state
  with `Knows`, an operation keeps it EXACTLY WHEN two steps do not fail: the swap to the
  placeholder while something is attached (`host_side_eject` takes `current` before it), and the
  line to cfgd after the medium went in (`guest_usb_attach` returns before `current` is set).  Hence
  the exact condition for whole runs (`knows_the_drive_iff`).

  1. **Program** — `attach_virtual`, `attach_physical`, `eject`, the poll of guest ejects and the
     resets, effect by effect, with each early return.

  2. **Specification** — `Knows` is about QEMU's own drive, which the manager cannot see: it has to
     follow from what it was told.

  3. **The crux** — each operation's effects come in an order; an early return keeps `Knows` unless
     it stands between the effect and the field that records it, and there are two such places.
-/
import Mathlib

namespace CdjEmu.Usb

/-! ## Data model -/

/-- `PhysicalDisk`, without what is only displayed. -/
structure PhysicalDisk where
  bsdName : String
  bsdPath : String
deriving DecidableEq, Repr

/-- `AttachedMode` of the active medium. -/
inductive AttachedMode
  | virtual
  | physical (bsdName : String) (fdset : Option Nat)
deriving DecidableEq, Repr

/-- What QEMU's drive `usb0` holds. -/
inductive Medium
  | placeholder
  | image (path : String)
  | raw (bsdName : String) (fdset : Option Nat)
deriving DecidableEq, Repr

/-- `UsbError`. -/
inductive UsbError
  | qmp | io | permissionDenied (dev : String)
deriving DecidableEq, Repr

/-- How a step of an attach ends. -/
inductive Outcome
  | ok | failed | denied
deriving DecidableEq, Repr

/-- How each fallible step of an operation ends: the swap to the placeholder, `unmount_host`,
    `open_raw`, the swap to the new medium, and the line to cfgd. -/
structure Faults where
  eject : Bool := true
  unmount : Outcome := .ok
  openRaw : Outcome := .ok
  change : Outcome := .ok
  line : Bool := true
deriving DecidableEq, Repr

/-- The manager with what it acts on: the drive, the disks unmounted from the host and not offered
    back since, and the fdsets QEMU has open. -/
structure Manager where
  current : Option AttachedMode
  drive : Medium
  away : List String
  fdsets : List Nat
  nextFdset : Nat
  /-- `PASSES_FDS`: a raw disk reaches QEMU as a descriptor on this host. -/
  passesFds : Bool
  /-- How many media have gone into the drive; no operation reads it. -/
  serial : Nat
deriving DecidableEq, Repr

namespace Manager

/-- `UsbManager::new` on a QEMU that has just started: the drive holds the placeholder. -/
def new (passesFds : Bool) (serial : Nat) : Manager :=
  ⟨none, .placeholder, [], [], 0, passesFds, serial⟩

/-- `provider.remount_host`. -/
def remountHost (u : Manager) (bsdName : String) : Manager :=
  { u with away := u.away.filter (· ≠ bsdName) }

/-- `qmp.remove_fd`, for the fdset a medium has. -/
def removeFd (u : Manager) : Option Nat → Manager
  | some id => { u with fdsets := u.fdsets.filter (· ≠ id) }
  | none => u

/-- `host_side_eject`.  `current` is taken first. -/
def hostSideEject (u : Manager) (f : Faults) : Manager × Option UsbError :=
  let taken := { u with current := none }
  if f.eject then
    let swapped := { taken with drive := .placeholder }
    match u.current with
    | some (.physical bsdName fdset) => ((swapped.removeFd fdset).remountHost bsdName, none)
    | _ => (swapped, none)
  else (taken, some .qmp)

/-- `detach`. -/
def detach (u : Manager) (f : Faults) : Manager × Option UsbError :=
  if u.current.isNone then (u, none) else u.hostSideEject f

/-- `acknowledge_guest_eject`; the flag is the `bool` of its `Ok`. -/
def acknowledgeGuestEject (u : Manager) (f : Faults) : Manager × Except UsbError Bool :=
  if u.current.isNone then (u, .ok false)
  else
    match u.hostSideEject f with
    | (u, none) => (u, .ok true)
    | (u, some e) => (u, .error e)

/-- `attach_virtual`. -/
def attachVirtual (u : Manager) (f : Faults) (path : String) : Manager × Option UsbError :=
  match u.detach f with
  | (u, some e) => (u, some e)
  | (u, none) =>
    if f.change = .ok then
      let swapped := { u with drive := .image path, serial := u.serial + 1 }
      if f.line then ({ swapped with current := some .virtual }, none)
      else (swapped, some .io)
    else (u, some .qmp)

/-- `UsbError::opening`. -/
def opening (disk : PhysicalDisk) : Outcome → UsbError
  | .denied => .permissionDenied disk.bsdPath
  | _ => .io

/-- `attach_physical`. -/
def attachPhysical (u : Manager) (f : Faults) (disk : PhysicalDisk) : Manager × Option UsbError :=
  match u.detach f with
  | (u, some e) => (u, some e)
  | (u, none) =>
    if f.unmount = .ok then
      let unmounted := { u with away := disk.bsdName :: u.away }
      if f.openRaw = .ok then
        let fdset := if u.passesFds then some u.nextFdset else none
        let opened := { unmounted with
          fdsets := fdset.toList ++ u.fdsets, nextFdset := u.nextFdset + fdset.toList.length }
        if f.change = .ok then
          let swapped := { opened with drive := .raw disk.bsdName fdset, serial := u.serial + 1 }
          if f.line then
            ({ swapped with current := some (.physical disk.bsdName fdset) }, none)
          else (swapped, some .io)
        else
          ((opened.removeFd fdset).remountHost disk.bsdName,
            some (if f.change = .denied then .permissionDenied disk.bsdPath else .qmp))
      else (unmounted.remountHost disk.bsdName, some (opening disk f.openRaw))
    else (u, some (opening disk f.unmount))

end Manager

/-! ## What the manager promises -/

/-- The mode `a` is the one of the medium in the drive. -/
def AttachedMode.Names : AttachedMode → Medium → Prop
  | .virtual, .image _ => True
  | .physical b fd, .raw b' fd' => b = b' ∧ fd = fd'
  | _, _ => False

theorem AttachedMode.Names.image {m : Medium} (h : AttachedMode.virtual.Names m) :
    ∃ path, m = .image path := by
  cases m with
  | image path => exact ⟨path, rfl⟩
  | placeholder => exact h.elim
  | raw b fd => exact h.elim

theorem AttachedMode.Names.raw {m : Medium} {b : String} {fd : Option Nat}
    (h : (AttachedMode.physical b fd).Names m) : m = .raw b fd := by
  cases m with
  | raw b' fd' =>
    obtain ⟨rfl, rfl⟩ := h
    rfl
  | placeholder => exact h.elim
  | image path => exact h.elim

/-- **The promise.**  `current` is `None` exactly when the drive holds the placeholder and otherwise
    names the medium; every disk that is away and every open fdset is that of the medium. -/
structure Knows (u : Manager) : Prop where
  empty : u.current = none ↔ u.drive = .placeholder
  named : ∀ a, u.current = some a → a.Names u.drive
  back : ∀ b ∈ u.away, ∃ fd, u.drive = .raw b fd
  closed : ∀ id ∈ u.fdsets, ∃ b, u.drive = .raw b (some id)

/-- Nothing is attached, and nothing is left behind. -/
structure Clean (u : Manager) : Prop where
  current : u.current = none
  drive : u.drive = .placeholder
  away : u.away = []
  fdsets : u.fdsets = []

section Promise

variable {u : Manager} {f : Faults}

theorem Clean.knows (h : Clean u) : Knows u where
  empty := by simp [h.current, h.drive]
  named a ha := by rw [h.current] at ha; nomatch ha
  back b hb := by rw [h.away] at hb; nomatch hb
  closed id hid := by rw [h.fdsets] at hid; nomatch hid

/-- A manager that knows its drive and has nothing attached has nothing left behind. -/
theorem Knows.clean (h : Knows u) (hc : u.current = none) : Clean u := by
  have hd : u.drive = .placeholder := h.empty.mp hc
  refine ⟨hc, hd, List.eq_nil_iff_forall_not_mem.mpr fun b hb => ?_,
    List.eq_nil_iff_forall_not_mem.mpr fun id hid => ?_⟩
  · obtain ⟨fd, hfd⟩ := h.back b hb
    rw [hd] at hfd
    nomatch hfd
  · obtain ⟨b, hb⟩ := h.closed id hid
    rw [hd] at hb
    nomatch hb

theorem clean_new (passesFds : Bool) (serial : Nat) : Clean (Manager.new passesFds serial) :=
  ⟨rfl, rfl, rfl, rfl⟩

/-- A medium in the drive that `current` does not know of breaks the promise. -/
theorem not_knows_of_unknown (hc : u.current = none) (hd : u.drive ≠ .placeholder) : ¬ Knows u :=
  fun h => hd (h.empty.mp hc)

/-- `host_side_eject` of an attached medium leaves nothing behind when the swap succeeds, and a
    medium that nobody knows of when it fails. -/
theorem hostSideEject_spec (h : Knows u) (hc : u.current ≠ none) :
    (f.eject = true → Clean (u.hostSideEject f).1 ∧ (u.hostSideEject f).2 = none) ∧
    (f.eject = false → ¬ Knows (u.hostSideEject f).1 ∧ (u.hostSideEject f).2 ≠ none) := by
  obtain ⟨a, ha⟩ := Option.ne_none_iff_exists'.mp hc
  have hnames := h.named a ha
  have hback := h.back
  have hclosed := h.closed
  refine ⟨fun he => ?_, fun he => ?_⟩
  · cases a with
    | virtual =>
      cases hd : u.drive with
      | image path =>
        simp only [Manager.hostSideEject, he, ha, ↓reduceIte]
        simp only [hd, reduceCtorEq, exists_false, imp_false] at hback hclosed
        exact ⟨⟨rfl, rfl, List.eq_nil_iff_forall_not_mem.mpr hback,
          List.eq_nil_iff_forall_not_mem.mpr hclosed⟩, trivial⟩
      | _ => rw [hd] at hnames; exact hnames.elim
    | physical b fd =>
      cases hd : u.drive with
      | raw b' fd' =>
        rw [hd] at hnames
        obtain ⟨rfl, rfl⟩ := hnames
        simp only [Manager.hostSideEject, he, ha, ↓reduceIte]
        rw [hd] at hback hclosed
        -- every disk that is away is `b`, and every open fdset is its own
        have haway : ∀ x ∈ u.away, x = b := by
          intro x hx
          obtain ⟨fd', hfd⟩ := hback x hx
          exact (Medium.raw.inj hfd).1.symm
        have hfds : ∀ id ∈ u.fdsets, fd = some id := by
          intro id hid
          obtain ⟨b', hb⟩ := hclosed id hid
          exact (Medium.raw.inj hb).2
        cases fd with
        | none =>
          refine ⟨⟨rfl, rfl, ?_, ?_⟩, trivial⟩
          · simpa [Manager.remountHost, Manager.removeFd] using haway
          · exact List.eq_nil_iff_forall_not_mem.mpr fun id hid =>
              (Option.some_ne_none id).symm (hfds id hid)
        | some n =>
          refine ⟨⟨rfl, rfl, ?_, ?_⟩, trivial⟩
          · simpa [Manager.remountHost, Manager.removeFd] using haway
          · have hall : ∀ id ∈ u.fdsets, id = n := fun id hid =>
              (Option.some.inj (hfds id hid)).symm
            simpa [Manager.remountHost, Manager.removeFd] using hall
      | _ => rw [hd] at hnames; exact hnames.elim
  · have hd : u.drive ≠ .placeholder := fun hd => hc (h.empty.mpr hd)
    simp only [Manager.hostSideEject, he, Bool.false_eq_true, ↓reduceIte]
    exact ⟨not_knows_of_unknown rfl hd, by simp⟩

/-- The condition on an eject: the swap to the placeholder does not fail while
    something is attached. -/
def EjectSpared (u : Manager) (f : Faults) : Prop := u.current.isSome → f.eject = true

/-- A spared `detach` succeeds and leaves nothing behind. -/
theorem detach_clean (h : Knows u) (hs : EjectSpared u f) :
    ∃ v, u.detach f = (v, none) ∧ Clean v := by
  unfold Manager.detach
  cases hc : u.current with
  | none => exact ⟨u, rfl, h.clean hc⟩
  | some a =>
    obtain ⟨hclean, hok⟩ := (hostSideEject_spec h (by simp [hc])).1 (hs (by simp [hc]))
    exact ⟨(u.hostSideEject f).1, by rw [← hok]; rfl, hclean⟩

/-- Any other `detach` fails, and the manager has forgotten the medium. -/
theorem detach_unknown (h : Knows u) (hs : ¬ EjectSpared u f) :
    ∃ v e, u.detach f = (v, some e) ∧ ¬ Knows v := by
  obtain ⟨hc, he⟩ := Classical.not_imp.mp hs
  have hne : u.current ≠ none := Option.isSome_iff_ne_none.mp hc
  obtain ⟨hunk, herr⟩ := (hostSideEject_spec h hne).2 (by simpa using he)
  obtain ⟨e, herr⟩ := Option.ne_none_iff_exists'.mp herr
  refine ⟨(u.hostSideEject f).1, e, ?_, hunk⟩
  unfold Manager.detach
  rw [if_neg (by simpa using hne), ← herr]

/-- The medium that goes in is known when the guest is told of it, and unknown when it is not. -/
theorem attachVirtual_knows_iff (h : Knows u) (path : String) :
    Knows (u.attachVirtual f path).1 ↔ EjectSpared u f ∧ (f.change = .ok → f.line = true) := by
  unfold Manager.attachVirtual
  by_cases hs : EjectSpared u f
  · obtain ⟨v, hdet, hclean⟩ := detach_clean h hs
    rw [hdet]
    by_cases hch : f.change = .ok
    · cases hl : f.line with
      | false =>
        simp only [hch, ↓reduceIte, Bool.false_eq_true, hs, true_and, forall_const, iff_false]
        exact not_knows_of_unknown hclean.current (by simp)
      | true =>
        simp only [hch, ↓reduceIte, hs, implies_true, and_self, iff_true]
        refine ⟨by simp, fun a ha => ?_, fun b hb => ?_, fun id hid => ?_⟩
        · obtain rfl := Option.some.inj ha
          trivial
        · have hb' : b ∈ v.away := hb
          rw [hclean.away] at hb'
          nomatch hb'
        · have hid' : id ∈ v.fdsets := hid
          rw [hclean.fdsets] at hid'
          nomatch hid'
    · simp only [hch, ↓reduceIte, hs, false_imp_iff, and_self, iff_true]
      exact hclean.knows
  · obtain ⟨v, e, hdet, hunk⟩ := detach_unknown h hs
    rw [hdet]
    simp only [hs, false_and, iff_false]
    exact hunk

/-- A disk that was unmounted and opened and did not get into the drive is offered back. -/
theorem attachPhysical_knows_iff (h : Knows u) (disk : PhysicalDisk) :
    Knows (u.attachPhysical f disk).1 ↔ EjectSpared u f ∧
      (f.unmount = .ok → f.openRaw = .ok → f.change = .ok → f.line = true) := by
  unfold Manager.attachPhysical
  by_cases hs : EjectSpared u f
  · obtain ⟨v, hdet, hclean⟩ := detach_clean h hs
    rw [hdet]
    obtain ⟨hcur, hdrive, haway, hfds⟩ := hclean
    by_cases hun : f.unmount = .ok
    · by_cases hop : f.openRaw = .ok
      · by_cases hch : f.change = .ok
        · cases hl : f.line with
          | false =>
            simp only [hun, hop, hch, ↓reduceIte, Bool.false_eq_true, hs, true_and,
              forall_const, iff_false]
            exact not_knows_of_unknown hcur (by simp)
          | true =>
            simp only [hun, hop, hch, ↓reduceIte, hs, implies_true, and_self, iff_true]
            refine ⟨by simp, fun a ha => ?_, fun b hb => ?_, fun id hid => ?_⟩
            · obtain rfl := Option.some.inj ha
              exact ⟨rfl, rfl⟩
            · have hb' : b ∈ disk.bsdName :: v.away := hb
              rw [haway, List.mem_singleton] at hb'
              exact ⟨_, by rw [hb']⟩
            · refine ⟨disk.bsdName, ?_⟩
              cases hfd : v.passesFds <;> simp_all
        · simp only [hun, hop, hch, ↓reduceIte, hs, false_imp_iff, implies_true, and_self, iff_true]
          refine Clean.knows ⟨?_, ?_, ?_, ?_⟩ <;> cases hfd : v.passesFds <;>
            simp [Manager.remountHost, Manager.removeFd, hcur, hdrive, haway, hfds]
      · simp only [hun, hop, ↓reduceIte, hs, false_imp_iff, implies_true, and_self, iff_true]
        refine Clean.knows ⟨hcur, hdrive, ?_, hfds⟩
        simp [Manager.remountHost, haway]
    · simp only [hun, ↓reduceIte, hs, false_imp_iff, and_self, iff_true]
      exact Clean.knows ⟨hcur, hdrive, haway, hfds⟩
  · obtain ⟨v, e, hdet, hunk⟩ := detach_unknown h hs
    rw [hdet]
    simp only [hs, false_and, iff_false]
    exact hunk

end Promise

/-! ## Runs of operations -/

/-- An operation, with how its steps end. -/
inductive Op
  | attachVirtual (path : String) (f : Faults)
  | attachPhysical (disk : PhysicalDisk) (f : Faults)
  | detach (f : Faults)
  | acknowledgeGuestEject (f : Faults)
deriving DecidableEq, Repr

namespace Op

/-- The state after an operation, whatever it returns. -/
def apply (u : Manager) : Op → Manager
  | .attachVirtual path f => (u.attachVirtual f path).1
  | .attachPhysical disk f => (u.attachPhysical f disk).1
  | .detach f => (u.detach f).1
  | .acknowledgeGuestEject f => (u.acknowledgeGuestEject f).1

/-- The condition on an operation: the placeholder goes in when something is attached, and the
    guest is told of a medium that went in. -/
def Spared (u : Manager) : Op → Prop
  | .attachVirtual _ f => EjectSpared u f ∧ (f.change = .ok → f.line = true)
  | .attachPhysical _ f => EjectSpared u f ∧
    (f.unmount = .ok → f.openRaw = .ok → f.change = .ok → f.line = true)
  | .detach f => EjectSpared u f
  | .acknowledgeGuestEject f => EjectSpared u f

end Op

theorem detach_knows_iff {u : Manager} {f : Faults} (h : Knows u) :
    Knows (u.detach f).1 ↔ EjectSpared u f := by
  by_cases hs : EjectSpared u f
  · obtain ⟨v, hdet, hclean⟩ := detach_clean h hs
    rw [hdet]
    exact iff_of_true hclean.knows hs
  · obtain ⟨v, e, hdet, hunk⟩ := detach_unknown h hs
    rw [hdet]
    exact iff_of_false hunk hs

/-- The acknowledgement of a guest eject leaves what `detach` leaves. -/
theorem acknowledgeGuestEject_fst (u : Manager) (f : Faults) :
    (u.acknowledgeGuestEject f).1 = (u.detach f).1 := by
  unfold Manager.acknowledgeGuestEject Manager.detach
  cases hc : u.current with
  | none => rfl
  | some a =>
    simp only [Option.isNone_some, Bool.false_eq_true, ↓reduceIte]
    rcases u.hostSideEject f with ⟨v, r⟩
    cases r <;> rfl

/-- **One operation.**  From a state that keeps the promise, an operation keeps it exactly when it
    is spared the two failures. -/
theorem knows_apply_iff {u : Manager} (h : Knows u) (op : Op) :
    Knows (op.apply u) ↔ op.Spared u := by
  cases op with
  | attachVirtual path f => exact attachVirtual_knows_iff h path
  | attachPhysical disk f => exact attachPhysical_knows_iff h disk
  | detach f => exact detach_knows_iff h
  | acknowledgeGuestEject f =>
    show Knows (u.acknowledgeGuestEject f).1 ↔ _
    rw [acknowledgeGuestEject_fst]
    exact detach_knows_iff h

/-- The promise holds after every operation of the run. -/
def KnowsThroughout (u : Manager) : List Op → Prop
  | [] => True
  | op :: ops => Knows (op.apply u) ∧ KnowsThroughout (op.apply u) ops

/-- Every operation of the run is spared the two failures, in the state it starts from. -/
def SparedThroughout (u : Manager) : List Op → Prop
  | [] => True
  | op :: ops => op.Spared u ∧ SparedThroughout (op.apply u) ops

theorem knowsThroughout_iff : ∀ (ops : List Op) {u : Manager}, Knows u →
    (KnowsThroughout u ops ↔ SparedThroughout u ops)
  | [], _, _ => Iff.rfl
  | op :: ops, u, h => by
      have hop := knows_apply_iff h op
      constructor
      · rintro ⟨hk, hrest⟩
        exact ⟨hop.mp hk, (knowsThroughout_iff ops hk).mp hrest⟩
      · rintro ⟨hs, hrest⟩
        have hk : Knows (op.apply u) := hop.mpr hs
        exact ⟨hk, (knowsThroughout_iff ops hk).mpr hrest⟩

/-- **`UsbManager` knows what is in the drive, exactly when it is spared.**  In every
    run from a fresh manager, the promise holds after every operation if and only if no
    swap to the placeholder fails while something is attached, and no line to cfgd fails
    after its medium went in. -/
theorem knows_the_drive_iff (passesFds : Bool) (serial : Nat) (ops : List Op) :
    KnowsThroughout (.new passesFds serial) ops ↔ SparedThroughout (.new passesFds serial) ops :=
  knowsThroughout_iff ops (clean_new passesFds serial).knows

/-- **The defect.**  An image is attached and the swap to the placeholder fails when it is ejected:
    the manager has already forgotten the image, which is still in the drive. -/
theorem failed_eject_forgets_the_medium : ¬ ∀ ops, KnowsThroughout (.new false 0) ops := by
  intro hall
  have hrun := hall [.attachVirtual "/sticks/a.img" {}, .detach { eject := false }]
  have hdrive := hrun.2.1.empty.mp rfl
  exact absurd hdrive (by decide)

/-! ## What an operation leaves

  The callers of `UsbManager` need to know what each operation leaves in every case, also from a
  state that does not keep the promise any more.  These are the specifications they use. -/

/-- A medium as the user knows it: an image by its path, a disk by its name. -/
inductive Content
  | image (path : String) | disk (bsdName : String)
deriving DecidableEq, Repr

/-- What the drive holds, `none` for the placeholder. -/
def Medium.content : Medium → Option Content
  | .placeholder => none
  | .image path => some (.image path)
  | .raw b _ => some (.disk b)

/-- What an attach is asked for. -/
inductive Target
  | image (path : String) | disk (d : PhysicalDisk)
deriving DecidableEq, Repr

def Target.content : Target → Content
  | .image path => .image path
  | .disk d => .disk d.bsdName

/-- `attach_virtual` or `attach_physical`. -/
def Manager.attach (u : Manager) (f : Faults) : Target → Manager × Option UsbError
  | .image path => u.attachVirtual f path
  | .disk d => u.attachPhysical f d

/-- The steps that put the target into the drive do not fail. -/
def Target.GoesIn (f : Faults) : Target → Prop
  | .image _ => f.change = .ok
  | .disk _ => f.unmount = .ok ∧ f.openRaw = .ok ∧ f.change = .ok

instance (f : Faults) (m : Target) : Decidable (m.GoesIn f) :=
  match m with
  | .image _ => inferInstanceAs (Decidable (_ = _))
  | .disk _ => inferInstanceAs (Decidable (_ ∧ _ ∧ _))

instance (u : Manager) (f : Faults) : Decidable (EjectSpared u f) :=
  inferInstanceAs (Decidable (_ → _))

/-- An attach succeeds: the previous medium comes out, the target goes in, and the guest is told. -/
def Target.Succeeds (u : Manager) (f : Faults) (m : Target) : Prop :=
  EjectSpared u f ∧ m.GoesIn f ∧ f.line = true

instance (u : Manager) (f : Faults) (m : Target) : Decidable (m.Succeeds u f) :=
  inferInstanceAs (Decidable (_ ∧ _ ∧ _))

/-- What `detach` leaves. -/
inductive Detached (u : Manager) (f : Faults) : Manager → Option UsbError → Prop
  /-- Nothing was attached, as far as the manager knows. -/
  | nothing : u.current = none → Detached u f u none
  | ejected {v : Manager} : u.current ≠ none → f.eject = true → v.current = none →
      v.drive = .placeholder → v.serial = u.serial → v.passesFds = u.passesFds → Detached u f v none
  | stuck {v : Manager} {e : UsbError} : u.current ≠ none → f.eject = false → v.current = none →
      v.drive = u.drive → v.serial = u.serial → Detached u f v (some e)

/-- Whatever becomes of the medium, nothing is remembered of it. -/
theorem Detached.current {u v : Manager} {f : Faults} {r : Option UsbError}
    (h : Detached u f v r) : v.current = none := by
  cases h with
  | nothing hc => exact hc
  | ejected _ _ hc => exact hc
  | stuck _ _ hc => exact hc

theorem detached (u : Manager) (f : Faults) : Detached u f (u.detach f).1 (u.detach f).2 := by
  unfold Manager.detach
  cases hc : u.current with
  | none => exact .nothing hc
  | some a =>
    have hne : u.current ≠ none := by simp [hc]
    simp only [Option.isNone_some, Bool.false_eq_true, ↓reduceIte, Manager.hostSideEject, hc]
    cases he : f.eject with
    | false => exact .stuck hne he rfl rfl rfl
    | true =>
      cases a with
      | virtual => exact .ejected hne he rfl rfl rfl rfl
      | physical b fd => cases fd <;> exact .ejected hne he rfl rfl rfl rfl

/-- The acknowledgement of a guest eject reports `Ok(true)` exactly for an eject. -/
theorem acknowledgeGuestEject_eq (u : Manager) (f : Faults) :
    u.acknowledgeGuestEject f = ((u.detach f).1,
      match (u.detach f).2 with
      | none => .ok u.current.isSome
      | some e => .error e) := by
  unfold Manager.acknowledgeGuestEject Manager.detach
  cases hc : u.current with
  | none => rfl
  | some a =>
    simp only [Option.isNone_some, Bool.false_eq_true, ↓reduceIte, Option.isSome_some]
    rcases u.hostSideEject f with ⟨v, r⟩
    cases r <;> rfl

/-- What an attach leaves. -/
inductive AttachResult (u : Manager) (f : Faults) (m : Target) : Manager → Option UsbError → Prop
  /-- The eject of the previous medium fails: it stays in the drive, forgotten. -/
  | stuck {v : Manager} {e : UsbError} : ¬ EjectSpared u f → v.current = none →
      v.drive = u.drive → v.serial = u.serial → AttachResult u f m v (some e)
  /-- The previous medium is out and the new one does not go in. -/
  | refused {v : Manager} {e : UsbError} : EjectSpared u f → ¬ m.GoesIn f → v.current = none →
      v.drive = (if u.current = none then u.drive else .placeholder) → v.serial = u.serial →
      AttachResult u f m v (some e)
  /-- The medium is in and the guest could not be told: it is forgotten. -/
  | untold {v : Manager} {e : UsbError} : EjectSpared u f → m.GoesIn f → f.line = false →
      v.current = none → v.drive.content = some m.content → v.serial = u.serial + 1 →
      AttachResult u f m v (some e)
  | ok {v : Manager} {a : AttachedMode} : EjectSpared u f → m.GoesIn f → f.line = true →
      v.current = some a → a.Names v.drive → v.drive.content = some m.content →
      v.serial = u.serial + 1 → AttachResult u f m v none

/-- An attach that fails leaves nothing that is remembered. -/
theorem AttachResult.current {u v : Manager} {f : Faults} {m : Target} {err : UsbError}
    (h : AttachResult u f m v (some err)) : v.current = none := by
  cases h with
  | stuck _ hc => exact hc
  | refused _ _ hc => exact hc
  | untold _ _ _ hc => exact hc

theorem attachResult (u : Manager) (f : Faults) (m : Target) :
    AttachResult u f m (u.attach f m).1 (u.attach f m).2 := by
  have hdet := detached u f
  rcases hd : u.detach f with ⟨w, r⟩
  rw [hd] at hdet
  -- the state after the eject, for the cases in which it succeeds
  have hok : r = none → EjectSpared u f ∧ w.current = none ∧ w.serial = u.serial ∧
      w.drive = if u.current = none then u.drive else .placeholder := by
    rintro rfl
    cases hdet with
    | nothing hc =>
      have hnone : w.current = none := hc
      exact ⟨fun hs => by simp [hnone] at hs, hc, rfl, by rw [if_pos hc]⟩
    | ejected hc he hw hdr hser => exact ⟨fun _ => he, hw, hser, by rw [if_neg hc]; exact hdr⟩
  cases r with
  | some e =>
    have hstuck : AttachResult u f m w (some e) := by
      cases hdet with
      | stuck hc he hw hdr hser =>
        refine .stuck (fun hs => ?_) hw hdr hser
        rw [hs (Option.isSome_iff_ne_none.mpr hc)] at he
        nomatch he
    cases m with
    | image path => simpa only [Manager.attach, Manager.attachVirtual, hd] using hstuck
    | disk d => simpa only [Manager.attach, Manager.attachPhysical, hd] using hstuck
  | none =>
    obtain ⟨hs, hcur, hser, hdr⟩ := hok rfl
    cases m with
    | image path =>
      simp only [Manager.attach, Manager.attachVirtual, hd]
      by_cases hch : f.change = .ok
      · cases hl : f.line with
        | false => simpa [hch] using .untold hs hch hl hcur rfl (by rw [hser])
        | true => simpa [hch] using .ok (a := .virtual) hs hch hl rfl trivial rfl (by rw [hser])
      · simpa [hch] using .refused hs hch hcur hdr hser
    | disk d =>
      simp only [Manager.attach, Manager.attachPhysical, hd]
      by_cases hun : f.unmount = .ok
      · by_cases hop : f.openRaw = .ok
        · by_cases hch : f.change = .ok
          · have hin : Target.GoesIn f (.disk d) := ⟨hun, hop, hch⟩
            cases hl : f.line with
            | false => simpa [hun, hop, hch] using .untold hs hin hl hcur rfl (by rw [hser])
            | true => simpa [hun, hop, hch] using .ok hs hin hl rfl ⟨rfl, rfl⟩ rfl (by rw [hser])
          · simp only [hun, hop, hch, ↓reduceIte]
            refine .refused hs (fun h => hch h.2.2) ?_ ?_ ?_ <;>
              cases hfd : w.passesFds <;>
              simp [Manager.remountHost, Manager.removeFd, hcur, hdr, hser]
        · simp only [hun, hop, ↓reduceIte]
          exact .refused hs (fun h => hop h.2.1) hcur hdr hser
      · simp only [hun, ↓reduceIte]
        exact .refused hs (fun h => hun h.1) hcur hdr hser

/-- What the manager remembers of an image that is in the drive. -/
theorem AttachedMode.eq_of_image {a : AttachedMode} {m : Medium} {path : String}
    (hnames : a.Names m) (hm : m.content = some (.image path)) :
    a = .virtual ∧ m = .image path := by
  cases a with
  | virtual =>
    obtain ⟨path', rfl⟩ := hnames.image
    obtain rfl : path' = path := Content.image.inj (Option.some.inj hm)
    exact ⟨rfl, rfl⟩
  | physical b fd =>
    rw [hnames.raw] at hm
    nomatch hm

/-- What the manager remembers of a disk that is in the drive. -/
theorem AttachedMode.eq_of_disk {a : AttachedMode} {m : Medium} {b : String}
    (hnames : a.Names m) (hm : m.content = some (.disk b)) :
    ∃ fd, a = .physical b fd ∧ m = .raw b fd := by
  cases a with
  | virtual =>
    obtain ⟨path, rfl⟩ := hnames.image
    nomatch hm
  | physical b' fd =>
    obtain rfl := hnames.raw
    obtain rfl : b' = b := Content.disk.inj (Option.some.inj hm)
    exact ⟨fd, rfl, rfl⟩

theorem Detached.spared {u v : Manager} {f : Faults} (h : Detached u f v none) :
    EjectSpared u f := by
  cases h with
  | nothing hc => exact fun hs => absurd hc (Option.isSome_iff_ne_none.mp hs)
  | ejected _ he => exact fun _ => he

/-- An eject that fails is not spared. -/
theorem not_spared_of_stuck {u v : Manager} {f : Faults} {err : UsbError}
    (hdet : Detached u f v (some err)) : ¬ EjectSpared u f := by
  intro hs
  cases hdet with
  | stuck hne hf =>
    rw [hs (Option.isSome_iff_ne_none.mpr hne)] at hf
    nomatch hf

/-- An eject succeeds exactly when it is spared. -/
theorem detach_ok_iff (u : Manager) (f : Faults) : (u.detach f).2 = none ↔ EjectSpared u f := by
  have hdet := detached u f
  constructor
  · intro hok
    rw [hok] at hdet
    exact hdet.spared
  · intro hs
    cases hr : (u.detach f).2 with
    | none => rfl
    | some err =>
      rw [hr] at hdet
      exact absurd hs (not_spared_of_stuck hdet)

/-- An attach that succeeds has not failed. -/
theorem AttachResult.not_succeeds {u v : Manager} {f : Faults} {m : Target} {err : UsbError}
    (h : AttachResult u f m v (some err)) : ¬ m.Succeeds u f := by
  rintro ⟨hs, hin, hline⟩
  cases h with
  | stuck hns => exact hns hs
  | refused _ hnin => exact hnin hin
  | untold _ _ hnl =>
    rw [hline] at hnl
    nomatch hnl

/-- An attach succeeds exactly when none of its steps fails. -/
theorem attach_ok_iff (u : Manager) (f : Faults) (m : Target) :
    (u.attach f m).2 = none ↔ m.Succeeds u f := by
  have hres := attachResult u f m
  constructor
  · intro hok
    rw [hok] at hres
    cases hres with
    | ok hs hin hline => exact ⟨hs, hin, hline⟩
  · intro hs
    cases hr : (u.attach f m).2 with
    | none => rfl
    | some err =>
      rw [hr] at hres
      exact absurd hs hres.not_succeeds

end CdjEmu.Usb
