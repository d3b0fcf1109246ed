/-
  THE JOG LCD'S FLIP EVENTS — which descriptor gets them, while descriptor numbers are used again.

  The shim answers the app's flips itself: a flip that asks for an event marks a slot of its
  descriptor, `poll` reports the descriptor as readable, and `read` or `drmHandleEvent` takes the
  event.  Which descriptors are DRM ones is in a table of its own.  Opening a node changes the
  table; closing one has to change both, and the number is the kernel's to give again.

  `close` frees the slot with the table's entry, `drmClose` forgets it.  The slot then belongs to
  whatever gets the number next.  As long as `drmClose` closes no descriptor that has a slot, and
  `drmIoctl`, which asks no table, flips only descriptors of the table, a slot in use is that of an
  open DRM descriptor which has asked for a flip (`Inv`).

  An entry point is one atomic step.  A descriptor that is not in the table leaves the kernel's set
  when the shim or the link worker has really closed it.  `asked`, which no step reads, tells which
  descriptors have asked for a flip event since they were opened.

  1. **Program** — the slots and the two tables, with the calls of the C library that the shim
     wraps; a call that is none of its own changes what the kernel has open and nothing else.

  2. **Specification** — `Owned`: whoever has a slot has asked for a flip on a descriptor that is
     still open, and to any other descriptor `poll`, `read` and `drmHandleEvent` do what the kernel
     does.

  3. **The crux (`Inv.step`)** — a slot in use is a descriptor of the table, and the table has open
     numbers only, each once.  Every call keeps this but `drmClose` of a descriptor with a slot, and
     `drmIoctl` of one that the table does not have.
-/
import CdjEmu.Lib.Machine
import CdjEmu.Lib.Slots

namespace CdjEmu.Flip

open Machine Slots

/-- `jog_flip_slot_t`; the `fd` of a free slot is -1. -/
structure Slot where
  fd : Int
  pending : UInt32
  userData : UInt64
  deriving DecidableEq

/-- The flip slots there are. -/
def MAX_JOG_RENDER_FDS : Nat := 4

/-- The descriptors that a set holds. -/
def MAX_ACTIVE_FDS : Nat := 8

/-! ## The slots -/

/-- `flip_slot_for`. -/
def flipSlotFor (slots : List Slot) (fd : Int) : Option Slot := slots.find? (·.fd = fd)

/-- `inject_drm_flip_event`, with `flip_slot_alloc`. -/
def injectDrmFlipEvent (slots : List Slot) (fd : Int) (userData : UInt64) : List Slot :=
  match flipSlotFor slots fd with
  | some _ => onFirst (·.fd = fd)
      (fun x => { x with pending := x.pending + 1, userData := userData }) slots
  | none => onFirst (·.fd = -1) (fun x => ⟨fd, x.pending + 1, userData⟩) slots

/-- `flip_slot_free`. -/
def flipSlotFree (slots : List Slot) (fd : Int) : List Slot :=
  onFirst (·.fd = fd) (fun _ => ⟨-1, 0, 0⟩) slots

/-- The slot's flips are taken. -/
def clearPending (slots : List Slot) (fd : Int) : List Slot :=
  onFirst (·.fd = fd) (fun x => { x with pending := 0 }) slots

/-! ## The table of DRM descriptors -/

/-- A descriptor is in a set; a negative one never is. -/
def fdsetHas (set : List Int) (fd : Int) : Bool := 0 ≤ fd && set.any (· = fd)

/-- It takes the first free place, if there is one. -/
def fdsetAdd (set : List Int) (fd : Int) : Option (List Int) :=
  if set.any (· = -1) then some (onFirst (· = -1) (fun _ => fd) set) else none

/-- Its place is free again. -/
def fdsetRemove (set : List Int) (fd : Int) : List Int := onFirst (· = fd) (fun _ => -1) set

/-! ## The entry points -/

/-- The ioctls that matter here.  A page flip goes to the kernel first, and `fails` there. -/
inductive Request where
  | pageFlip (event fails : Bool) (userData : UInt64)
  | atomic (event : Bool) (userData : UInt64)
  | setClientCap
  | other

/-- The app asks for a flip event. -/
def Request.asks : Request → Bool
  | .pageFlip event _ _ => event
  | .atomic event _ => event
  | _ => false

/-- The shim sends the event itself. -/
def Request.injects : Request → Option UInt64
  | .pageFlip event fails userData => if event && fails then some userData else none
  | .atomic event userData => if event then some userData else none
  | _ => none

/-- `fake_event_ctx_t`: its version, and which handlers it has. -/
structure EventCtx where
  version : Int
  pageFlipHandler : Bool
  pageFlipHandler2 : Bool

/-- A `pollfd` that waits for `POLLIN`, and whether it is set in `revents`. -/
structure PollFd where
  fd : Int
  pollin : Bool
  readable : Bool

/-- The slots, the set of DRM descriptors, and what the kernel has open. -/
structure State where
  slots : List Slot
  /-- `g_drm_active`. -/
  drm : List Int
  /-- The numbers that are open. -/
  kernel : List Int
  asked : Int → Bool

namespace State

/-- No descriptor is open. -/
def boot : State :=
  ⟨List.replicate MAX_JOG_RENDER_FDS ⟨-1, 0, 0⟩, List.replicate MAX_ACTIVE_FDS (-1), [],
    fun _ => false⟩

variable (s : State)

/-- `is_drm_fd`. -/
def isDrmFd (fd : Int) : Bool := fdsetHas s.drm fd

/-- A number that was not open is given out. -/
def opened (fd : Int) : State :=
  { s with kernel := fd :: s.kernel, asked := Function.update s.asked fd false }

/-- A DRM node is opened, by `do_open` or `drmOpen`; where the table is full it is closed again. -/
def openDrm (fd : Int) : State :=
  match fdsetAdd s.drm fd with
  | some drm => { s.opened fd with drm := drm }
  | none => s

/-- The kernel closes a number. -/
def sysClose (fd : Int) : State := { s with kernel := s.kernel.filter (· ≠ fd) }

/-- `close`: the slot is freed with the descriptor. -/
def close (fd : Int) : State :=
  if s.isDrmFd fd then
    { s.sysClose fd with drm := fdsetRemove s.drm fd, slots := flipSlotFree s.slots fd }
  else s.sysClose fd

/-- `drmClose`: the descriptor leaves the set, its slot stays. -/
def drmClose (fd : Int) : State :=
  if s.isDrmFd fd then { s.sysClose fd with drm := fdsetRemove s.drm fd } else s.sysClose fd

/-- `handle_drm_ioctl`. -/
def handleDrmIoctl (fd : Int) (request : Request) : State :=
  match request with
  | .setClientCap => { s with slots := clearPending s.slots fd }
  | request => match request.injects with
    | some userData => { s with slots := injectDrmFlipEvent s.slots fd userData }
    | none => s

/-- The app has asked for what `request` asks for. -/
def asking (fd : Int) (request : Request) : State :=
  if request.asks then { s with asked := Function.update s.asked fd true } else s

/-- `ioctl` on a descriptor of the set has its flips taken out. -/
def ioctl (fd : Int) (request : Request) : State :=
  if s.isDrmFd fd then (s.asking fd request).handleDrmIoctl fd request else s.asking fd request

/-- `drmIoctl` does so for every descriptor. -/
def drmIoctl (fd : Int) (request : Request) : State :=
  (s.asking fd request).handleDrmIoctl fd request

/-- `pending` of the descriptor's slot is not zero. -/
def pending (fd : Int) : Bool :=
  match flipSlotFor s.slots fd with
  | some x => x.pending ≠ 0
  | none => false

/-- `read` from a DRM descriptor: the flip event's `user_data`; without one
    it fails with `EAGAIN`. -/
def read (fd : Int) (count : Nat) : Option UInt64 × State :=
  match flipSlotFor s.slots fd with
  | none => (none, s)
  | some x =>
    (if x.pending = 0 ∨ count < 32 then none else some x.userData,
      { s with slots := clearPending s.slots fd })

/-- `drmHandleEvent`: the `user_data` for the handler that it calls. -/
def drmHandleEvent (fd : Int) (ctx : Option EventCtx) : Option UInt64 × State :=
  match flipSlotFor s.slots fd with
  | none => (none, s)
  | some x =>
    let cleared := { s with slots := clearPending s.slots fd }
    if x.pending = 0 then (none, cleared)
    else match ctx with
      | none => (none, cleared)
      | some ctx =>
        (if 2 ≤ ctx.version ∧ ctx.pageFlipHandler2 = true ∨ ctx.pageFlipHandler = true then
          some x.userData
        else none, cleared)

/-- `poll`, from what the kernel has reported; `hidg` tells the USB gadget's descriptors. -/
def poll (hidg : Int → Bool) (fds : List PollFd) : List PollFd :=
  if fds.any (fun p => hidg p.fd) || !fds.any (fun p => s.isDrmFd p.fd && p.pollin) then fds
  else fds.map fun p =>
    if s.isDrmFd p.fd && s.pending p.fd && p.pollin then { p with readable := true } else p

end State

/-- The calls that a program makes. -/
inductive Event where
  | openDrm (fd : Int)
  /-- Another descriptor is opened, or one is made by `dup`. -/
  | openOther (fd : Int)
  | close (fd : Int)
  | drmClose (fd : Int)
  | ioctl (fd : Int) (request : Request)
  | drmIoctl (fd : Int) (request : Request)
  | read (fd : Int) (count : Nat)
  | drmHandleEvent (fd : Int) (ctx : Option EventCtx)

/-- The shim under those calls; a number is only given out when it is free. -/
def machine : Machine State Event where
  step s
    | .openDrm fd => if 0 ≤ fd ∧ fd ∉ s.kernel then some (s.openDrm fd) else none
    | .openOther fd => if 0 ≤ fd ∧ fd ∉ s.kernel then some (s.opened fd) else none
    | .close fd => some (s.close fd)
    | .drmClose fd => some (s.drmClose fd)
    | .ioctl fd request => some (s.ioctl fd request)
    | .drmIoctl fd request => some (s.drmIoctl fd request)
    -- the hook asks the table first
    | .read fd count => some (if s.isDrmFd fd then (s.read fd count).2 else s)
    | .drmHandleEvent fd ctx => some (s.drmHandleEvent fd ctx).2

/-- The slots in use are those of descriptors in the table, of each at most one, and a descriptor
    that has asked for no flip since it was opened gets none: neither `poll`, nor `read`, nor
    `drmHandleEvent` reports one. -/
structure Owned (s : State) : Prop where
  inUse : ∀ x ∈ s.slots, x.fd ≠ -1 → s.isDrmFd x.fd = true
  distinct : s.slots.Pairwise fun x y => x.fd = y.fd → x.fd = -1
  poll : ∀ fd, s.asked fd = false → ∀ hidg fds, (s.poll hidg fds).filter (·.fd = fd) = fds.filter
    (·.fd = fd)
  read : ∀ fd, s.asked fd = false → ∀ count, (s.read fd count).1 = none
  handle : ∀ fd, s.asked fd = false → ∀ ctx, (s.drmHandleEvent fd ctx).1 = none

/-- `drmClose` closes no descriptor that has a slot, and `drmIoctl` flips only
    descriptors of the table. -/
def Proper (s : State) : Event → Prop
  | .drmClose fd => s.isDrmFd fd = true → flipSlotFor s.slots fd = none
  | .drmIoctl fd request => request.injects.isSome = true → s.isDrmFd fd = true
  | _ => True

instance (s : State) (a : Event) : Decidable (Proper s a) := by
  unfold Proper
  split <;> infer_instance

/-! ## The invariant -/

/-- Every slot in use is that of an open DRM descriptor, and no descriptor stands twice. -/
structure Inv (s : State) : Prop where
  inUse : ∀ x ∈ s.slots, x.fd ≠ -1 → x.fd ∈ s.drm
  slots : Distinct Slot.fd (-1) s.slots
  drm : Distinct id (-1) s.drm
  isOpen : ∀ fd ∈ s.drm, fd ≠ -1 → 0 ≤ fd ∧ fd ∈ s.kernel
  asked : ∀ x ∈ s.slots, x.pending ≠ 0 → s.asked x.fd = true

variable {s : State} {fd : Int}

/-- The set has a descriptor when it is not negative and stands in it. -/
theorem isDrmFd_iff : s.isDrmFd fd = true ↔ 0 ≤ fd ∧ fd ∈ s.drm := by
  rw [State.isDrmFd, fdsetHas, Bool.and_eq_true, decide_eq_true_eq, List.any_eq_true]
  constructor
  · rintro ⟨hpos, e, he, heq⟩
    exact ⟨hpos, of_decide_eq_true heq ▸ he⟩
  · rintro ⟨hpos, hmem⟩
    exact ⟨hpos, fd, hmem, decide_eq_true rfl⟩

/-- It holds before the first call. -/
theorem boot_inv : Inv .boot := by
  have hslot : ∀ x ∈ State.boot.slots, x = ⟨-1, 0, 0⟩ := fun x hx => List.eq_of_mem_replicate hx
  refine ⟨?_, Distinct.replicate (x := (⟨-1, 0, 0⟩ : Slot)) rfl _,
    Distinct.replicate (x := (-1 : Int)) rfl _, ?_, ?_⟩
  · intro x hx hne
    rw [hslot x hx] at hne
    exact absurd rfl hne
  · intro fd hfd hne
    exact absurd (List.eq_of_mem_replicate hfd) hne
  · intro x hx hp
    rw [hslot x hx] at hp
    exact absurd rfl hp

/-- A slot that is found is one of the slots, and the descriptor's. -/
theorem flipSlotFor_some {slots : List Slot} {x : Slot} (h : flipSlotFor slots fd = some x) :
    x ∈ slots ∧ x.fd = fd :=
  ⟨List.mem_of_find?_eq_some h,
    of_decide_eq_true (List.find?_some (p := fun y : Slot => decide (y.fd = fd)) h)⟩

/-- Without a slot for a descriptor none of the slots is its own. -/
theorem flipSlotFor_none {slots : List Slot} (h : flipSlotFor slots fd = none) :
    ∀ x ∈ slots, x.fd ≠ fd := by
  intro x hx heq
  exact List.find?_eq_none.mp h x hx (decide_eq_true heq)

/-- A descriptor that has not asked has no flip pending. -/
theorem Inv.pending (h : Inv s) (hasked : s.asked fd = false) {x : Slot}
    (hx : flipSlotFor s.slots fd = some x) :
    x.pending = 0 := by
  obtain ⟨hmem, rfl⟩ := flipSlotFor_some hx
  by_contra hp
  exact absurd (hasked.symm.trans (h.asked x hmem hp)) Bool.false_ne_true

/-- `poll` leaves a descriptor alone that never asked for a flip. -/
theorem Inv.poll (h : Inv s) (hasked : s.asked fd = false) (hidg : Int → Bool) (fds : List PollFd) :
    (s.poll hidg fds).filter (·.fd = fd) = fds.filter (·.fd = fd) := by
  have hpending : s.pending fd = false := by
    unfold State.pending
    split
    · rename_i x hx
      exact decide_eq_false (not_not_intro (h.pending hasked hx))
    · rfl
  unfold State.poll
  split
  · rfl
  · rw [List.filter_map]
    have hsame : ∀ p ∈ fds.filter (fun p => decide (p.fd = fd)),
        (if s.isDrmFd p.fd && s.pending p.fd && p.pollin then { p with readable := true } else p) =
          p := by
      intro p hp
      have hfd : p.fd = fd := of_decide_eq_true (List.mem_filter.mp hp).2
      rw [hfd, hpending, Bool.and_false, Bool.false_and]
      rfl
    have hfilter : fds.filter ((fun p : PollFd => decide (p.fd = fd)) ∘ fun p : PollFd =>
        if s.isDrmFd p.fd && s.pending p.fd && p.pollin then { p with readable := true } else p) =
        fds.filter fun p => decide (p.fd = fd) := by
      apply List.filter_congr
      intro p _
      rw [Function.comp_apply]
      split <;> rfl
    rw [hfilter]
    exact (List.map_congr_left hsame).trans (List.map_id' _)

/-- `read` makes no event up for such a descriptor. -/
theorem Inv.read (h : Inv s) (hasked : s.asked fd = false) (count : Nat) :
    (s.read fd count).1 = none := by
  unfold State.read
  split
  · rfl
  · rename_i x hx
    exact if_pos (.inl (h.pending hasked hx))

/-- Nor does `drmHandleEvent`. -/
theorem Inv.handle (h : Inv s) (hasked : s.asked fd = false) (ctx : Option EventCtx) :
    (s.drmHandleEvent fd ctx).1 = none := by
  unfold State.drmHandleEvent
  split
  · rfl
  · rename_i x hx
    dsimp only
    rw [if_pos (h.pending hasked hx)]

/-- The invariant gives the property of the states reached. -/
theorem Inv.owned (h : Inv s) : Owned s := by
  refine ⟨?_, h.slots, fun fd hasked => h.poll hasked, fun fd hasked => h.read hasked,
    fun fd hasked => h.handle hasked⟩
  intro x hx hne
  have hmem := h.inUse x hx hne
  exact isDrmFd_iff.mpr ⟨(h.isOpen _ hmem hne).1, hmem⟩

/-! ## The steps -/

/-- A number that was not open has no entry in the table and no slot. -/
theorem Inv.unused (h : Inv s) (hpos : 0 ≤ fd) (hfd : fd ∉ s.kernel) :
    fd ∉ s.drm ∧ ∀ x ∈ s.slots, x.fd ≠ fd := by
  have hdrm : fd ∉ s.drm := by
    intro hmem
    exact hfd (h.isOpen fd hmem (by omega)).2
  refine ⟨hdrm, ?_⟩
  rintro x hx rfl
  exact hdrm (h.inUse x hx (by omega))

/-- Opening a number that was free keeps the invariant. -/
theorem Inv.opened (h : Inv s) (hpos : 0 ≤ fd) (hfd : fd ∉ s.kernel) : Inv (s.opened fd) := by
  refine ⟨h.inUse, h.slots, h.drm, ?_, ?_⟩
  · intro e he hne
    obtain ⟨hp, hmem⟩ := h.isOpen e he hne
    exact ⟨hp, List.mem_cons_of_mem _ hmem⟩
  · intro x hx hp
    exact (Function.update_of_ne ((h.unused hpos hfd).2 x hx) _ _).trans (h.asked x hx hp)

/-- So it does when the number is a DRM device's. -/
theorem Inv.openDrm (h : Inv s) (hpos : 0 ≤ fd) (hfd : fd ∉ s.kernel) : Inv (s.openDrm fd) := by
  unfold State.openDrm
  split
  · rename_i drm hadd
    obtain ⟨-, ⟨⟩⟩ := Option.ite_none_right_eq_some.mp hadd
    have hopened := h.opened hpos hfd
    refine ⟨?_, h.slots, ?_, ?_, hopened.asked⟩
    · intro x hx hne
      exact mem_onFirst_of_not (h.inUse x hx hne) (decide_eq_false hne)
    · apply h.drm.onFirst
      intro e _ _
      refine .inr (.inr ?_)
      rintro e he rfl
      exact (h.unused hpos hfd).1 he
    · intro e he hne
      obtain he | ⟨-, -, -, rfl⟩ := mem_onFirst he
      · exact hopened.isOpen e he hne
      · exact ⟨hpos, List.mem_cons_self⟩
  · exact h

/-- A descriptor that is not in the table is closed. -/
theorem Inv.sysClose (h : Inv s) (hfd : fd ≠ -1 → fd ∉ s.drm) : Inv (s.sysClose fd) := by
  refine ⟨h.inUse, h.slots, h.drm, ?_, h.asked⟩
  intro e he hne
  obtain ⟨hp, hmem⟩ := h.isOpen e he hne
  refine ⟨hp, List.mem_filter.mpr ⟨hmem, decide_eq_true ?_⟩⟩
  rintro rfl
  exact hfd hne he

/-- A DRM descriptor is closed that has no slot any more. -/
theorem Inv.remove (h : Inv s) (hpos : 0 ≤ fd) (hslots : ∀ x ∈ s.slots, x.fd ≠ fd) :
    Inv { s.sysClose fd with drm := fdsetRemove s.drm fd } := by
  have hgone : ∀ e ∈ fdsetRemove s.drm fd, e ≠ fd := h.drm.not_mem_freed (by omega) fun _ => rfl
  refine ⟨?_, h.slots, h.drm.onFirst fun _ _ _ => .inr (.inl rfl), ?_, h.asked⟩
  · intro x hx hne
    exact mem_onFirst_of_not (h.inUse x hx hne) (decide_eq_false (hslots x hx))
  · intro e he hne
    have hmem : e ∈ s.drm := by
      obtain he | ⟨-, -, -, rfl⟩ := mem_onFirst he
      · exact he
      · exact absurd rfl hne
    obtain ⟨hp, hk⟩ := h.isOpen e hmem hne
    exact ⟨hp, List.mem_filter.mpr ⟨hk, decide_eq_true (hgone e he)⟩⟩

/-- Slots that keep their descriptors or are freed, and get no flips. -/
theorem Inv.rewrite (h : Inv s) {p : Slot → Bool} {f : Slot → Slot}
    (hfd : ∀ x, (f x).fd = x.fd ∨ (f x).fd = -1) (hpending : ∀ x, (f x).pending = 0) :
    Inv { s with slots := onFirst p f s.slots } := by
  refine ⟨?_, ?_, h.drm, h.isOpen, ?_⟩
  · intro x hx hne
    obtain hx | ⟨y, hy, -, rfl⟩ := mem_onFirst hx
    · exact h.inUse x hx hne
    · have hsame := (hfd y).resolve_right hne
      rw [hsame] at hne ⊢
      exact h.inUse y hy hne
  · apply h.slots.onFirst
    intro y _ _
    obtain hsame | hfree := hfd y
    · exact .inl hsame
    · exact .inr (.inl hfree)
  · intro x hx hp
    obtain hx | ⟨y, hy, -, rfl⟩ := mem_onFirst hx
    · exact h.asked x hx hp
    · exact absurd (hpending y) hp

/-- Taking a flip out keeps it. -/
theorem Inv.clear (h : Inv s) (fd : Int) : Inv { s with slots := clearPending s.slots fd } :=
  h.rewrite (fun _ => .inl rfl) fun _ => rfl

/-- `close` keeps it, for the slot goes with the descriptor. -/
theorem Inv.close (h : Inv s) (fd : Int) : Inv (s.close fd) := by
  unfold State.close
  split
  · rename_i hdrm
    obtain ⟨hpos, -⟩ := isDrmFd_iff.mp hdrm
    have hfreed : Inv { s with slots := flipSlotFree s.slots fd } :=
      h.rewrite (fun _ => .inr rfl) fun _ => rfl
    exact hfreed.remove hpos (h.slots.not_mem_freed (by omega) fun _ => rfl)
  · rename_i hdrm
    exact h.sysClose fun hne hmem => hdrm (isDrmFd_iff.mpr ⟨(h.isOpen fd hmem hne).1, hmem⟩)

/-- `drmClose` keeps it when the descriptor has no slot. -/
theorem Inv.drmClose (h : Inv s) (hproper : s.isDrmFd fd = true → flipSlotFor s.slots fd = none) :
    Inv (s.drmClose fd) := by
  unfold State.drmClose
  split
  · rename_i hdrm
    exact h.remove (isDrmFd_iff.mp hdrm).1 (flipSlotFor_none (hproper hdrm))
  · rename_i hdrm
    exact h.sysClose fun hne hmem => hdrm (isDrmFd_iff.mpr ⟨(h.isOpen fd hmem hne).1, hmem⟩)

/-- A descriptor asks for a flip event, or for none. -/
theorem Inv.asking (h : Inv s) (fd : Int) (request : Request) : Inv (s.asking fd request) := by
  unfold State.asking
  split
  · refine ⟨h.inUse, h.slots, h.drm, h.isOpen, ?_⟩
    intro x hx hp
    by_cases hfd : x.fd = fd
    · rw [hfd]
      exact Function.update_self _ _ _
    · exact (Function.update_of_ne hfd _ _).trans (h.asked x hx hp)
  · exact h

/-- The shim marks a flip of a DRM descriptor that has asked for it. -/
theorem Inv.inject (h : Inv s) (hdrm : fd ∈ s.drm) (hasked : s.asked fd = true)
    (userData : UInt64) :
    Inv { s with slots := injectDrmFlipEvent s.slots fd userData } := by
  unfold injectDrmFlipEvent
  split
  · refine ⟨?_, h.slots.onFirst fun _ _ _ => .inl rfl, h.drm, h.isOpen, ?_⟩
    · intro x hx hne
      obtain hx | ⟨y, hy, -, rfl⟩ := mem_onFirst hx
      · exact h.inUse x hx hne
      · exact h.inUse y hy hne
    · intro x hx hp
      obtain hx | ⟨y, -, hyfd, rfl⟩ := mem_onFirst hx
      · exact h.asked x hx hp
      · have hy : y.fd = fd := of_decide_eq_true hyfd
        exact (congrArg s.asked hy).trans hasked
  · rename_i hnone
    refine ⟨?_, h.slots.onFirst fun _ _ _ => .inr (.inr (flipSlotFor_none hnone)), h.drm,
      h.isOpen, ?_⟩
    · intro x hx hne
      obtain hx | ⟨y, -, -, rfl⟩ := mem_onFirst hx
      · exact h.inUse x hx hne
      · exact hdrm
    · intro x hx hp
      obtain hx | ⟨y, -, -, rfl⟩ := mem_onFirst hx
      · exact h.asked x hx hp
      · exact hasked

/-- Only a request that asks for a flip is given one. -/
theorem injects_asks {request : Request} {userData : UInt64} (h : request.injects = some userData) :
    request.asks = true := by
  cases request with
  | pageFlip event fails data =>
    obtain ⟨hboth, -⟩ := Option.ite_none_right_eq_some.mp h
    exact ((Bool.and_eq_true _ _).mp hboth).1
  | atomic event data => exact (Option.ite_none_right_eq_some.mp h).1
  | setClientCap => cases h
  | other => cases h

/-- An ioctl that flips only where the descriptor is in the table. -/
theorem Inv.handleDrmIoctl (h : Inv s) {request : Request}
    (hdrm : request.injects.isSome = true → s.isDrmFd fd = true) :
    Inv ((s.asking fd request).handleDrmIoctl fd request) := by
  have hasking := h.asking fd request
  have hinjects : Inv (match request.injects with
      | some userData =>
          { s.asking fd request with
            slots := injectDrmFlipEvent (s.asking fd request).slots fd userData }
      | none => s.asking fd request) := by
    split
    · rename_i userData hrequest
      have htable : fd ∈ s.drm := (isDrmFd_iff.mp (hdrm (by rw [hrequest]; rfl))).2
      have hasks := injects_asks hrequest
      apply hasking.inject
      · rw [State.asking, if_pos hasks]
        exact htable
      · rw [State.asking, if_pos hasks]
        exact Function.update_self _ _ _
    · exact hasking
  cases request with
  | setClientCap => exact hasking.clear fd
  | _ => exact hinjects

/-- Every call keeps the invariant. -/
theorem Inv.step (h : Inv s) {t : State} {a : Event} (hproper : Proper s a)
    (hs : machine.step s a = some t) : Inv t := by
  cases a with
  | openDrm fd =>
    obtain ⟨⟨hpos, hfd⟩, ⟨⟩⟩ := Option.ite_none_right_eq_some.mp hs
    exact h.openDrm hpos hfd
  | openOther fd =>
    obtain ⟨⟨hpos, hfd⟩, ⟨⟩⟩ := Option.ite_none_right_eq_some.mp hs
    exact h.opened hpos hfd
  | close fd =>
    obtain rfl := Option.some.inj hs
    exact h.close fd
  | drmClose fd =>
    obtain rfl := Option.some.inj hs
    exact h.drmClose hproper
  | ioctl fd request =>
    obtain rfl := Option.some.inj hs
    unfold State.ioctl
    split
    · rename_i hdrm
      exact h.handleDrmIoctl fun _ => hdrm
    · exact h.asking fd request
  | drmIoctl fd request =>
    obtain rfl := Option.some.inj hs
    exact h.handleDrmIoctl hproper
  | read fd count =>
    obtain rfl := Option.some.inj hs
    split
    · unfold State.read
      split
      · exact h
      · exact h.clear fd
    · exact h
  | drmHandleEvent fd ctx =>
    obtain rfl := Option.some.inj hs
    unfold State.drmHandleEvent
    split
    · exact h
    · dsimp only
      split
      · exact h.clear fd
      · split
        · exact h.clear fd
        · exact h.clear fd

/-! ## Runs -/

/-- **A flip belongs to the open descriptor that asked for it**, in every run where `drmClose`
    closes no descriptor that has a slot. -/
theorem flips_owned (h : machine.Reach Proper .boot s) : Owned s :=
  Inv.owned (Reach.inv (I := Inv) boot_inv (fun _ _ _ hI hproper hs => hI.step hproper hs) h)

/-- A node is opened as 5 and flipped, `drmClose` closes it, and the number is given out again: the
    descriptor that has asked for nothing gets the flip of the old one. -/
theorem reused_number_gets_the_flip : ¬ ∀ s, machine.Reach Free .boot s → Owned s := by
  intro h
  have hrun : ∃ s, machine.Reach Free .boot s ∧
      decide (s.isDrmFd 5 = true ∧ s.asked 5 = false ∧ (s.read 5 32).1 = some 7) = true :=
    Reach.of_run_any [.openDrm 5, .ioctl 5 (.atomic true 7), .drmClose 5, .openDrm 5]
      (by decide)
  obtain ⟨s, hreach, hs⟩ := hrun
  obtain ⟨-, hasked, hread⟩ := of_decide_eq_true hs
  have hnone := (h s hreach).read 5 hasked 32
  rw [hread] at hnone
  cases hnone

/-- With `close` in the place of `drmClose` the new descriptor gets nothing. -/
theorem reused_number_owned : ∃ s, machine.Reach Proper .boot s ∧ s.isDrmFd 5 = true ∧
    s.asked 5 = false ∧ Owned s := by
  have hrun : ∃ s, machine.Reach Proper .boot s ∧
      decide (s.isDrmFd 5 = true ∧ s.asked 5 = false) = true :=
    Reach.of_run_any [.openDrm 5, .ioctl 5 (.atomic true 7), .close 5, .openDrm 5]
      (by decide)
  obtain ⟨s, hreach, hs⟩ := hrun
  obtain ⟨hdrm, hasked⟩ := of_decide_eq_true hs
  exact ⟨s, hreach, hdrm, hasked, flips_owned hreach⟩

end CdjEmu.Flip
