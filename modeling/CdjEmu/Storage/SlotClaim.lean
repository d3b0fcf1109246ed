/-
  SLOT CLAIMS — `SlotClaim::take`, `lock_exclusive_retry`, the probe of `slot_holder`, and
  `ephemeral::{prepare, remove, remove_leftovers}`, one system call at a time.

  A claim is a `flock` on an INODE, while what it stands for is a PATH, `instance-N/.open`.  `take`
  opens the path and locks what it has opened; between the two a holder may delete the path, and
  `remove` does exactly that.  The state keeps the two apart: `claimFile` is the inode the path
  names now, `lock x` is who has locked the inode `x`.

  A process here is one open-file owner: a program that asks twice counts as two, as it does for
  `flock`.  One slot is modelled; the machine allows every operation, so it covers the ephemeral
  slots, whose folder is deleted, and the others, whose folder never is.

  * Two claims at once, and the deletion of a claimed slot, are reachable
    (`stale_lock_claims_a_deleted_file`).
  * They are not as long as a lock is taken only on the file that the path still names, and not
    beside a `remove` that has deleted the claim file and still holds its claim, and as long as no
    `remove` deletes a claim file that another process has locked (`at_most_one_claim`).

  1. **Program** — every system call of the four functions is a step; what the kernel keeps are
     inodes with their locks, and what the folder keeps is which inode a path names.

  2. **Specification** — no two processes have a claim at once, and `remove_leftovers` deletes the
     folder of no slot that another process has claimed.

  3. **The crux** — a claim is good while its inode is the one that the path names.  The invariant
     says who may still delete that name, and the condition on the run is the smallest that keeps
     this apart from those who have claimed since.
-/
import CdjEmu.Lib.Machine

namespace CdjEmu.Storage.Claim

open Machine

/-! ## Data model -/

/-- An inode number. -/
abbrev Inode := Nat

/-- What the processes share: the slot's folder, the inode its `.open` names, the `flock` of each
    inode, and the next fresh inode. -/
structure Folder (ι : Type) where
  dir : Bool
  claimFile : Option Inode
  lock : Inode → Option ι
  nextInode : Inode

/-- What a `take` is for. -/
inductive Use
  /-- `claim_slot`: the process runs a session in the slot, with or without the claim. -/
  | session
  /-- `settle_install`: the claim is dropped after the swap. -/
  | settle
  /-- `remove_leftovers`. -/
  | leftovers
deriving DecidableEq, Repr

/-- How often `lock_exclusive_retry` tries again. -/
def maxTries : Nat := 12

/-- Where a process is. -/
inductive Place
  | idle
  /-- `take`: `create_dir_all` comes next. -/
  | mkdir (u : Use)
  /-- `take`: the open that creates `.open` comes next. -/
  | create (u : Use)
  /-- `lock_exclusive`: the open of `.open` comes next. -/
  | opening (tries : Nat) (u : Use)
  /-- `lock_exclusive`: `x` is open and its `flock` comes next. -/
  | locking (x : Inode) (tries : Nat) (u : Use)
  /-- `take`: `x` is locked and the pid is to be written. -/
  | writing (x : Inode) (u : Use)
  /-- A `SlotClaim` on `x`. -/
  | claimed (x : Inode)
  /-- A session whose `take` returned an error: it runs without a claim. -/
  | unclaimed
  /-- `ephemeral::remove`, with the claim it runs under; `gone` once it has deleted `.open`. -/
  | removing (claim : Option Inode) (gone : Bool) (u : Use)
  /-- `slot_holder`: `x` is open and its `flock` comes next. -/
  | probing (x : Inode)
  /-- `slot_holder`: the lock is held for an instant. -/
  | probed (x : Inode)
deriving DecidableEq, Repr

/-- The inode whose lock is kept for a claim: from the `flock` of `take` to the drop. -/
def Place.claim : Place → Option Inode
  | .writing x _ => some x
  | .claimed x => some x
  | .removing c _ _ => c
  | _ => none

/-- The place of a `remove` that still holds its claim and has deleted the claim file. -/
def Place.goneWithClaim : Place → Bool
  | .removing (some _) true _ => true
  | _ => false

/-- `remove_leftovers` inside its `remove`, which it calls only with the claim. -/
def Place.deletesLeftovers : Place → Bool
  | .removing (some _) _ .leftovers => true
  | _ => false

/-- What happens next. -/
inductive Ev
  | take (u : Use) | probe
  /-- The next system call of the operation in progress is made. -/
  | go
  /-- The next system call returns an error. -/
  | fail
  | prepare | remove
  /-- `remove_dir_all` comes across `.open` and deletes it. -/
  | unlink
  /-- `remove_dir_all` deletes the empty folder. -/
  | rmdir
  /-- The claim is dropped: its scope ends, or the process exits, however it exits. -/
  | drop
deriving DecidableEq, Repr

namespace Folder

variable {ι : Type} [DecidableEq ι]

/-- Close what `p` has open: its locks go with it. -/
def close (s : Folder ι) (p : ι) : Folder ι :=
  { s with lock := fun x => if s.lock x = some p then none else s.lock x }

/-- `p` has locked `x`. -/
def flock (s : Folder ι) (p : ι) (x : Inode) : Folder ι :=
  { s with lock := Function.update s.lock x (some p) }

/-- What an error of `take` leaves: a session goes on without a claim, the others give up. -/
def refused : Use → Place
  | .session => .unclaimed
  | _ => .idle

/-- What a claim is taken for. -/
def granted (x : Inode) : Use → Place
  | .leftovers => .removing (some x) false .leftovers
  | _ => .claimed x

/-- `SlotClaim::take`. -/
def take (s : Folder ι) (p : ι) : Place → Ev → Option (Folder ι × Place)
  | .mkdir u, .go => some ({ s with dir := true }, .create u)
  | .create u, .go =>
    match s.dir, s.claimFile with
    | true, some _ => some (s, .opening 0 u)
    | true, none => some ({ s with claimFile := some s.nextInode, nextInode := s.nextInode + 1 },
        .opening 0 u)
    -- the folder was deleted since
    | false, _ => some (s, refused u)
  | .opening tries u, .go =>
    match s.claimFile with
    | some x => some (s, .locking x tries u)
    -- `.open` vanished
    | none => some (s, refused u)
  | .locking x tries u, .go =>
    match s.lock x with
    | none => some (s.flock p x, .writing x u)
    | some _ =>
      if tries < maxTries then some (s, .opening (tries + 1) u)
      -- `Ok(None)`: another process holds the slot
      else some (s, .idle)
  | .writing x u, .go => some (s, granted x u)
  | .writing _ u, .fail => some (s.close p, refused u)
  | .mkdir u, .fail => some (s, refused u)
  | .create u, .fail => some (s, refused u)
  | .opening _ u, .fail => some (s, refused u)
  | _, _ => none

/-- What a process does with its claim, or without one. -/
def use (s : Folder ι) : Place → Ev → Option (Folder ι × Place)
  | .claimed x, .prepare => some ({ s with dir := true }, .claimed x)
  | .unclaimed, .prepare => some ({ s with dir := true }, .unclaimed)
  | .claimed x, .remove => some (s, .removing (some x) false .session)
  | .unclaimed, .remove => some (s, .removing none false .session)
  | .removing c _ u, .unlink =>
    if s.claimFile.isSome then some ({ s with claimFile := none }, .removing c true u) else none
  | .removing c gone u, .rmdir =>
    if s.claimFile.isSome then none else some ({ s with dir := false }, .removing c gone u)
  | _, _ => none

/-- The probe of `slot_holder` and `slot_in_use`. -/
def probe (s : Folder ι) (p : ι) : Place → Ev → Option (Folder ι × Place)
  | .probing x, .go =>
    match s.lock x with
    | none => some (s.flock p x, .probed x)
    | some _ => some (s, .idle)
  | _, _ => none

/-- The calls of a process that is between operations. -/
def call (s : Folder ι) : Ev → Option (Folder ι × Place)
  -- `remove_leftovers` looks for the folder first
  | .take .leftovers => some (s, if s.dir then .mkdir .leftovers else .idle)
  | .take u => some (s, .mkdir u)
  | .probe =>
    match s.claimFile with
    | some x => some (s, .probing x)
    | none => some (s, .idle)
  | _ => none

end Folder

/-- One step of a process. -/
def claimThreads (ι : Type) [DecidableEq ι] : Threads ι (Folder ι) Place Ev where
  trans p s l ev :=
    match l, ev with
    | _, .drop => some (s.close p, .idle)
    | .idle, ev => s.call ev
    | .probing x, ev => s.probe p (.probing x) ev
    | .mkdir u, ev => s.take p (.mkdir u) ev
    | .create u, ev => s.take p (.create u) ev
    | .opening n u, ev => s.take p (.opening n u) ev
    | .locking x n u, ev => s.take p (.locking x n u) ev
    | .writing x u, ev => s.take p (.writing x u) ev
    | l, ev => s.use l ev

/-- The processes of one slot as a machine. -/
abbrev claimMachine (ι : Type) [DecidableEq ι] : Machine (Folder ι × (ι → Place)) (ι × Ev) :=
  (claimThreads ι).machine

/-- A slot that no process has open, with or without a folder and a claim file. -/
def unopened {ι : Type} (dir : Bool) (claimFile : Option Inode) (nextInode : Inode) :
    Folder ι × (ι → Place) :=
  (⟨dir, claimFile, fun _ => none, nextInode⟩, fun _ => .idle)

/-! ## What one step can do -/

/-- The steps of process `p`, by what they do to the claim file, the locks and the claim. -/
inductive Does {ι : Type} [DecidableEq ι] (p : ι) (s : Folder ι) :
    Place → Ev → Folder ι → Place → Prop
  | quiet {l ev s' l'} : s'.claimFile = s.claimFile → s'.lock = s.lock → l'.claim = l.claim →
      l'.goneWithClaim = l.goneWithClaim → Does p s l ev s' l'
  | created {l ev s' l'} : s.claimFile = none → s'.lock = s.lock → l'.claim = none →
      Does p s l ev s' l'
  | locked {x n u} : s.lock x = none → Does p s (.locking x n u) .go (s.flock p x) (.writing x u)
  | probed {x l ev} : s.lock x = none → Does p s l ev (s.flock p x) (.probed x)
  | unlinked {c gone u} : Does p s (.removing c gone u) .unlink { s with claimFile := none }
      (.removing c true u)
  | closed {l ev l'} : l'.claim = none → Does p s l ev (s.close p) l'

section Inversion

variable {ι : Type} [DecidableEq ι] {p : ι} {s t : Folder ι} {l l' : Place} {ev : Ev}

theorem refused_claim (u : Use) :
    (Folder.refused u).claim = none ∧ (Folder.refused u).goneWithClaim = false := by
  cases u <;> exact ⟨rfl, rfl⟩

theorem granted_claim (x : Inode) (u : Use) :
    (Folder.granted x u).claim = some x ∧ (Folder.granted x u).goneWithClaim = false := by
  cases u <;> exact ⟨rfl, rfl⟩

theorem does_of_take (h : s.take p l ev = some (t, l')) : Does p s l ev t l' := by
  fun_cases Folder.take s p l ev
  all_goals simp only [Folder.take, *, Option.some.injEq, Prod.mk.injEq, reduceCtorEq,
    ↓reduceIte] at h
  all_goals obtain ⟨rfl, rfl⟩ := h
  all_goals first
    | exact .locked ‹_›
    | exact .created ‹_› rfl rfl
    | exact .closed (refused_claim _).1
    | exact .quiet rfl rfl rfl rfl
    | exact .quiet rfl rfl (refused_claim _).1 (refused_claim _).2
    | exact .quiet rfl rfl (granted_claim _ _).1 (granted_claim _ _).2

theorem does_of_use (h : s.use l ev = some (t, l')) : Does p s l ev t l' := by
  fun_cases Folder.use s l ev
  all_goals simp only [Folder.use, *, Option.some.injEq, Prod.mk.injEq, reduceCtorEq,
    ↓reduceIte, Bool.false_eq_true] at h
  all_goals obtain ⟨rfl, rfl⟩ := h
  all_goals first
    | exact .unlinked
    | exact .quiet rfl rfl rfl rfl

theorem does_of_probe (h : s.probe p l ev = some (t, l')) : Does p s l ev t l' := by
  fun_cases Folder.probe s p l ev
  all_goals simp only [Folder.probe, *, Option.some.injEq, Prod.mk.injEq, reduceCtorEq] at h
  all_goals obtain ⟨rfl, rfl⟩ := h
  all_goals first
    | exact .probed ‹_›
    | exact .quiet rfl rfl rfl rfl

theorem does_of_call (h : s.call ev = some (t, l')) : Does p s .idle ev t l' := by
  fun_cases Folder.call s ev
  all_goals simp only [Folder.call, *, Option.some.injEq, Prod.mk.injEq, reduceCtorEq] at h
  all_goals obtain ⟨rfl, rfl⟩ := h
  all_goals first
    | exact .quiet rfl rfl rfl rfl
    | (split <;> exact .quiet rfl rfl rfl rfl)

/-- **Inversion.**  Every step of the machine is one of the listed ones. -/
theorem does_of_trans (h : (claimThreads ι).trans p s l ev = some (t, l')) :
    Does p s l ev t l' := by
  simp only [claimThreads] at h
  split at h
  · cases h
    exact .closed rfl
  · exact does_of_call h
  · exact does_of_probe h
  all_goals first
    | exact does_of_take h
    | exact does_of_use h

end Inversion

/-! ## Mutual exclusion -/

/-- The inode whose `flock` is the process's next step. -/
def Place.locks : Place → Option Inode
  | .locking x _ _ => some x
  | _ => none

section Runs

variable {ι : Type} [DecidableEq ι] {s t : Folder ι × (ι → Place)} {a : ι × Ev}

/-- The condition under which a slot has one holder.  A `flock` that succeeds is on the file that
    the path still names, and no `remove` that has deleted the claim file still holds its claim;
    and `remove` deletes no claim file that another process has locked. -/
def LocksNamed (s : Folder ι × (ι → Place)) (a : ι × Ev) : Prop :=
  (∀ x ∈ (s.2 a.1).locks, a.2 = .go → s.1.lock x = none →
    s.1.claimFile = some x ∧ ∀ q, (s.2 q).goneWithClaim = false) ∧
  (a.2 = .unlink → ∀ x ∈ s.1.claimFile, s.1.lock x = none ∨ s.1.lock x = some a.1)

instance (n : Nat) (s : Folder (Fin n) × (Fin n → Place)) (a : Fin n × Ev) :
    Decidable (LocksNamed s a) :=
  inferInstanceAs (Decidable (_ ∧ _))

/-- What a process with a claim relies on: it has the lock, and the path names what it has locked
    until it deletes the path itself. -/
def Relies (p : ι) (s : Folder ι) (l : Place) : Prop :=
  ∀ x, l.claim = some x → s.lock x = some p ∧ (l.goneWithClaim = false → s.claimFile = some x)

omit [DecidableEq ι] in
theorem Relies.of_none {p : ι} {s : Folder ι} {l : Place} (h : l.claim = none) : Relies p s l := by
  intro x hx
  rw [h] at hx
  nomatch hx

/-- The mover's own assertion. -/
theorem Does.relies {p : ι} {s t : Folder ι} {l l' : Place} {ev : Ev} (h : Does p s l ev t l')
    (hp : Relies p s l)
    (hlock : ∀ x ∈ l.locks, ev = .go → s.lock x = none → s.claimFile = some x) :
    Relies p t l' := by
  cases h with
  | quiet hc hk hl hg =>
    intro x hx
    rw [hk, hc, hg]
    exact hp x (hl ▸ hx)
  | created _ _ hl => exact .of_none hl
  | probed => exact .of_none rfl
  | closed hl => exact .of_none hl
  | @locked x n u hfree =>
    intro y hy
    obtain rfl : x = y := Option.some.inj hy
    refine ⟨Function.update_self _ _ _, fun _ => ?_⟩
    exact hlock x rfl rfl hfree
  | @unlinked c gone u =>
    intro x hx
    obtain rfl : c = some x := hx
    exact ⟨(hp x rfl).1, fun hg => nomatch hg⟩

/-- A step of `p` does not disturb what another process relies on. -/
theorem Does.relies_other {p q : ι} {s t : Folder ι} {l l' lq : Place} {ev : Ev}
    (h : Does p s l ev t l') (hne : q ≠ p) (hq : Relies q s lq)
    (hunlink : ev = .unlink → ∀ x ∈ s.claimFile, s.lock x = none ∨ s.lock x = some p) :
    Relies q t lq := by
  intro y hy
  obtain ⟨hlock, hfile⟩ := hq y hy
  cases h with
  | quiet hc hk => rw [hk, hc]; exact ⟨hlock, hfile⟩
  | created hnone hk =>
    rw [hk]
    refine ⟨hlock, fun hg => ?_⟩
    have hsome := hfile hg
    rw [hnone] at hsome
    nomatch hsome
  | @locked x n u hfree =>
    have hyx : y ≠ x := by
      rintro rfl
      rw [hfree] at hlock
      nomatch hlock
    exact ⟨(Function.update_of_ne hyx _ _).trans hlock, hfile⟩
  | @probed x _ _ hfree =>
    have hyx : y ≠ x := by
      rintro rfl
      rw [hfree] at hlock
      nomatch hlock
    exact ⟨(Function.update_of_ne hyx _ _).trans hlock, hfile⟩
  | unlinked =>
    refine ⟨hlock, fun hg => ?_⟩
    rcases hunlink rfl y (hfile hg) with hnone | hp
    · rw [hlock] at hnone; nomatch hnone
    · exact absurd (Option.some.inj (hlock.symm.trans hp)) hne
  | closed =>
    refine ⟨?_, hfile⟩
    show (if s.lock y = some p then none else s.lock y) = some q
    rw [hlock, if_neg (by simpa using hne)]

/-- A step makes a claim only by a `flock`. -/
theorem Does.claim {p : ι} {s t : Folder ι} {l l' : Place} {ev : Ev} (h : Does p s l ev t l')
    {x : Inode} (hx : l'.claim = some x) :
    l.claim = some x ∨ (l.locks = some x ∧ ev = .go ∧ s.lock x = none) := by
  cases h with
  | quiet _ _ hl => exact .inl (hl ▸ hx)
  | created _ _ hl => rw [hl] at hx; nomatch hx
  | probed => nomatch hx
  | closed hl => rw [hl] at hx; nomatch hx
  | @locked y n u hfree =>
    obtain rfl : y = x := Option.some.inj hx
    exact .inr ⟨rfl, rfl, hfree⟩
  | unlinked => exact .inl hx

/-- The invariant: every claim is backed by its lock, and there is one at most. -/
def OneHolder (s : Folder ι × (ι → Place)) : Prop :=
  (∀ p, Relies p s.1 (s.2 p)) ∧
    ∀ p q x y, (s.2 p).claim = some x → (s.2 q).claim = some y → p = q

omit [DecidableEq ι] in
/-- A `flock` on the file that the path names succeeds only when nobody has a claim. -/
theorem no_claim_of_lock_none (h : ∀ p, Relies p s.1 (s.2 p)) {x : Inode}
    (hfree : s.1.lock x = none) (hfile : s.1.claimFile = some x)
    (hgone : ∀ q, (s.2 q).goneWithClaim = false) (q : ι) : (s.2 q).claim = none := by
  cases hq : (s.2 q).claim with
  | none => rfl
  | some y =>
    obtain ⟨hlock, hnamed⟩ := h q y hq
    obtain rfl : x = y := Option.some.inj (hfile.symm.trans (hnamed (hgone q)))
    rw [hfree] at hlock
    nomatch hlock

theorem OneHolder.step (h : OneHolder s) (hg : LocksNamed s a)
    (hs : (claimMachine ι).step s a = some t) : OneHolder t := by
  obtain ⟨p, ev⟩ := a
  obtain ⟨sh, l, hr, rfl⟩ := Threads.step_cases hs
  have hd := does_of_trans hr
  have hrelies : ∀ q, Relies q sh (Function.update s.2 p l q) := by
    intro q
    rcases eq_or_ne q p with rfl | hne
    · rw [Function.update_self]
      exact hd.relies (h.1 q) fun x hx hev hfree => (hg.1 x hx hev hfree).1
    · rw [Function.update_of_ne hne]
      exact hd.relies_other hne (h.1 q) hg.2
  refine ⟨hrelies, ?_⟩
  -- a process that has a claim now had it before, or has just locked and nobody else had one
  have hold : ∀ q x, (Function.update s.2 p l q).claim = some x →
      (s.2 q).claim = some x ∨ (q = p ∧ ∀ r, (s.2 r).claim = none) := by
    intro q x hq
    rcases eq_or_ne q p with rfl | hne
    · rw [Function.update_self] at hq
      rcases hd.claim hq with hc | ⟨hl, hev, hfree⟩
      · exact .inl hc
      · obtain ⟨hfile, hgone⟩ := hg.1 x hl hev hfree
        exact .inr ⟨rfl, no_claim_of_lock_none h.1 hfree hfile hgone⟩
    · rw [Function.update_of_ne hne] at hq
      exact .inl hq
  intro q r x y hq hr
  rcases hold q x hq with hqs | ⟨hqp, hnone⟩
  · rcases hold r y hr with hrs | ⟨hrp, hnone⟩
    · exact h.2 q r x y hqs hrs
    · rw [hnone q] at hqs; nomatch hqs
  · rcases hold r y hr with hrs | ⟨hrp, -⟩
    · rw [hnone r] at hrs; nomatch hrs
    · rw [hqp, hrp]

/-- **At most one process holds a slot.**  In every run whose locks are on the file that the path
    names, no two processes have a claim at once, and `remove_leftovers` deletes the folder of no
    slot that another process has claimed. -/
theorem at_most_one_claim (dir : Bool) (claimFile : Option Inode) (nextInode : Inode)
    (h : (claimMachine ι).Reach LocksNamed (unopened dir claimFile nextInode) s) :
    (∀ p q x y, (s.2 p).claim = some x → (s.2 q).claim = some y → p = q) ∧
    (∀ p q y, (s.2 p).deletesLeftovers → (s.2 q).claim = some y → p = q) := by
  have h0 : OneHolder (unopened dir claimFile nextInode : Folder ι × (ι → Place)) :=
    ⟨fun _ => .of_none rfl, fun _ _ _ _ hp => nomatch hp⟩
  have hone : OneHolder s := h.inv h0 fun _ _ _ hi hg hs => hi.step hg hs
  refine ⟨hone.2, fun p q y hp hq => ?_⟩
  obtain ⟨x, hx⟩ : ∃ x, (s.2 p).claim = some x := by
    unfold Place.deletesLeftovers at hp
    split at hp
    · rename_i x _ heq
      exact ⟨x, by rw [heq]; rfl⟩
    · nomatch hp
  exact hone.2 p q x y hx hq

end Runs

/-- The schedule of a `take` by process `p` that succeeds at its first try. -/
def takeSchedule {ι : Type} (p : ι) (u : Use) : List (ι × Ev) :=
  [.take u, .go, .go, .go, .go, .go].map fun ev => (p, ev)

/-- The leftovers of a crashed session go under the claim of process `1`, and process `0` then
    claims the slot afresh: process `0` is the one holder. -/
theorem at_most_one_claim_after_leftovers : ∃ s : Folder (Fin 2) × (Fin 2 → Place),
    (claimMachine (Fin 2)).Reach LocksNamed (unopened true (some 0) 1) s ∧ s.2 0 = .claimed 1 ∧
    ∀ q y, (s.2 q).claim = some y → 0 = q := by
  obtain ⟨s, hreach, hp⟩ := Reach.of_run_any (M := claimMachine (Fin 2)) (G := LocksNamed)
    (s := unopened true (some 0) 1) (p := fun s => decide (s.2 0 = .claimed 1))
    (takeSchedule 1 .leftovers ++ [(1, .unlink), (1, .rmdir), (1, .drop)] ++
      takeSchedule 0 .session)
    (by decide)
  have hclaimed : s.2 0 = .claimed 1 := of_decide_eq_true hp
  refine ⟨s, hreach, hclaimed, fun q y hq => ?_⟩
  exact (at_most_one_claim _ _ _ hreach).1 0 q 1 y (by rw [hclaimed]; rfl) hq

/-- **The defect.**  Process `0` has opened the claim file that a crashed session left and has not
    locked it yet.  Process `1` clears the leftovers: it claims the slot, deletes the folder with
    the claim file and drops the claim.  Process `0` locks the deleted inode and has a claim;
    process `2` finds no claim file, creates a new one and has a claim as well. -/
theorem stale_lock_claims_a_deleted_file : ¬ ∀ s : Folder (Fin 3) × (Fin 3 → Place),
    (claimMachine (Fin 3)).Reach Free (unopened true (some 0) 1) s →
    ∀ p q x y, s.2 p = .claimed x → s.2 q = .claimed y → p = q := by
  intro hall
  obtain ⟨s, hreach, hp⟩ := Reach.of_run_any (M := claimMachine (Fin 3)) (G := Free)
    (s := unopened true (some 0) 1)
    (p := fun s => decide (s.2 0 = .claimed 0) && decide (s.2 2 = .claimed 1))
    ([(0, .take .session), (0, .go), (0, .go), (0, .go)] ++ takeSchedule 1 .leftovers ++
      [(1, .unlink), (1, .rmdir), (1, .drop)] ++ [(0, .go), (0, .go)] ++ takeSchedule 2 .session)
    (by decide)
  simp only [Bool.and_eq_true, decide_eq_true_eq] at hp
  exact absurd (hall s hreach 0 2 0 1 hp.1 hp.2) (by decide)

end CdjEmu.Storage.Claim
