/-
  RAW DISKS — which disk each call of `attach_physical` exposes to the guest.

  The menu's pick, the retry memory, the mounted marker and a pending remount all carry an INDEX
  into a list of disks that the worker replaces at the end of any tick, and an index is looked up
  when it is used.  What each index was meant to name is a history (`Meant`): what the click showed,
  which disk the host refused, and which disk was in the drive when the old QEMU stopped.

  `Meaning` says that every remembered index still names its disk, or nothing.  It holds along every
  run in which a scan does not move another disk under one of them, no other disk is picked while a
  Retry is offered, and an attach that takes a marked disk out of the drive also takes its mark away
  (`IndicesHold`).

  1. **Program** — the list of disks, the pick, the refusal with its retry, the mark of what is
     mounted and the remount, all of them indices; the scan replaces the list.

  2. **Specification** — the disk that a call exposes is the one that was meant: at a click the disk
     shown there, at a retry the one that was refused, at a remount the one that was in the drive.

  3. **The crux (`Meaning`)** — for each remembered index, what the list has there now is the disk
     of the history.  A scan is the only step that can part them, and it does so only by moving
     another disk to the place.
-/
import CdjEmu.Usb.Worker

namespace CdjEmu.Usb

open Machine

/-! ## What was meant -/

/-- The name of a raw disk in the drive. -/
def Medium.diskName : Medium → Option String
  | .raw b _ => some b
  | _ => none

theorem Medium.diskName_of_content {m : Medium} {b : String} (h : m.content = some (.disk b)) :
    m.diskName = some b := by
  cases m with
  | raw b' fd =>
    obtain rfl : b' = b := Content.disk.inj (Option.some.inj h)
    rfl
  | placeholder => nomatch h
  | image path => nomatch h

/-- The disks that a run has meant. -/
structure Meant where
  /-- What the click that waits in the menu showed. -/
  shown : Option String := none
  /-- The same, of the click in the drained requests. -/
  taken : Option String := none
  /-- The disk whose attach the host refused last. -/
  refused : Option String := none
  /-- The disk in the drive when the QEMU that is being restarted stopped. -/
  stopping : Option String := none
  /-- The same, of the restart that queued the pending remount. -/
  stopped : Option String := none
deriving DecidableEq, Repr

/-- The disk of the worker's next step, if the host refuses it. -/
def State.refusedDisk (s : State) (l : Luck) : Option String :=
  match s.call l with
  | some (.pick _ d) | some (.retry _ d) =>
    match (s.usb.attachPhysical (s.faultsOn l) d).2 with
    | some (.permissionDenied _) => some d.bsdName
    | _ => none
  | _ => none

/-- The history after a step of the worker to the place `p`. -/
def Meant.after (x : Meant) (s : State) (l : Luck) (p : Place) : Meant :=
  match s.place with
  | .drain => { x with taken := x.shown }
  | .pick _ => { x with refused := (s.refusedDisk l).or x.refused }
  | .capturing _ _ _ => { x with stopped := x.stopping }
  -- the first scan picks the saved disk
  | .refresh =>
      { x with shown := if (l.scan.bind s.savedDiskIndex).isSome then s.savedPhysBsd else x.shown }
  | _ =>
    match p with
    | .resetting _ _ _ => { x with stopping := s.usb.drive.diskName }
    | _ => x

/-- The history after a step. -/
def meant (x : Meant) (s : State) (e : Ev) (t : State) : Meant :=
  match e with
  | .clickDisk i =>
    if s.menu.physMountedIdx = some i then x else { x with shown := s.menu.physDisks[i]? }
  | .work l => x.after s l t.place
  | _ => x

/-- The machine with its history. -/
abbrev rawDiskMachine : Machine (State × Meant) Ev := usbMachine.hist meant

/-- **The property.**  If the worker's next step calls `attach_physical`, it is with
    the disk that was meant. -/
def CallsRight (s : State) (x : Meant) (l : Luck) : Prop :=
  match s.call l with
  | some (.pick _ d) => x.taken = some d.bsdName
  | some (.retry _ d) => x.refused = some d.bsdName
  | some (.remount (.physical d _)) => x.stopped = some d.bsdName
  | _ => True

/-! ## The condition -/

/-- Entry `i` of the list is the disk of that name, or there is no entry `i`. -/
def Names (disks : List PhysicalDisk) (i : Nat) (name : Option String) : Prop :=
  ∀ d ∈ disks[i]?, name = some d.bsdName

instance (disks : List PhysicalDisk) (i : Nat) (name : Option String) :
    Decidable (Names disks i name) :=
  inferInstanceAs (Decidable (∀ d ∈ disks[i]?, _))

/-- The menu offers a Retry, or one has been asked for. -/
def Menu.offersRetry (m : Menu) : Prop := m.physPermDenied ∨ m.alert ∨ m.physRetryReq

instance (m : Menu) : Decidable m.offersRetry := inferInstanceAs (Decidable (_ ∨ _ ∨ _))

/-- A Retry is offered, or asked for and not served. -/
def State.retryWaits (s : State) : Prop :=
  s.menu.offersRetry ∨ ∃ req ∈ s.place.req, req.physRetry

instance (s : State) : Decidable s.retryWaits := inferInstanceAs (Decidable (_ ∨ _))

/-- The disk and the index of a remount of a disk. -/
def PendingRemount.disk? : PendingRemount → Option (PhysicalDisk × Nat)
  | .physical d i => some (d, i)
  | .virtual _ => none

def Call.remountsImage : Call → Bool
  | .remount (.virtual _) => true
  | _ => false

/-- A new list moves no other disk under an index that is still to be used. -/
def ScanHolds (s : State) (x : Meant) (fresh : List PhysicalDisk) : Prop :=
  (s.savedDiskIndex fresh = none → ∀ i ∈ s.menu.physToggleIdx, Names fresh i x.shown) ∧
  (s.retryWaits → ∀ i ∈ s.lastPhysToggle, Names fresh i x.refused) ∧
  (∀ i ∈ s.menu.physMountedIdx, Names fresh i s.usb.drive.diskName) ∧
  ∀ r ∈ s.pendingRemount.bind PendingRemount.disk?, Names fresh r.2 (some r.1.bsdName)

/-- The menu's click that the worker is about to serve. -/
def Place.picked : Place → Option Nat
  | .pick req => req.physToggle
  | _ => none

/-- While a Retry is offered, a pick is of the disk that the host refused. -/
def PickHolds (s : State) (x : Meant) : Prop :=
  s.menu.offersRetry → ∀ i ∈ s.place.picked, Names s.physDisks i x.refused

/-- While a disk is marked as mounted, an attach that gets past the eject either succeeds and marks
    the new medium alone, or leaves the drive as it was. -/
def MarkHolds (s : State) (l : Luck) : Prop :=
  s.menu.physMountedIdx ≠ none → ∀ c ∈ s.call l, EjectSpared s.usb (s.faultsOn l) →
    (c.target.GoesIn (s.faultsOn l) → (s.faultsOn l).line = true ∧ c.remountsImage = false) ∧
    (¬ c.target.GoesIn (s.faultsOn l) → s.usb.current = none)

/-- **The condition.** -/
def IndicesHold (p : State × Meant) : Ev → Prop
  | .work l => MarkHolds p.1 l ∧ PickHolds p.1 p.2 ∧
      (p.1.place = .refresh → ∀ fresh ∈ l.scan, ScanHolds p.1 p.2 fresh)
  | _ => True

instance (s : State) (x : Meant) (fresh : List PhysicalDisk) : Decidable (ScanHolds s x fresh) :=
  inferInstanceAs (Decidable (_ ∧ _ ∧ _ ∧ _))

instance (s : State) (x : Meant) : Decidable (PickHolds s x) :=
  inferInstanceAs (Decidable (_ → ∀ i ∈ s.place.picked, _))

instance (s : State) (l : Luck) : Decidable (MarkHolds s l) :=
  inferInstanceAs (Decidable (_ → ∀ c ∈ s.call l, _))

instance (p : State × Meant) (e : Ev) : Decidable (IndicesHold p e) :=
  match e with
  | .work _ => inferInstanceAs (Decidable (_ ∧ _ ∧ _))
  | .clickDisk _ | .clickEject | .pickImage _ _ | .apiAttach _ | .apiEject | .showAlert
  | .answerAlert _ | .requestRestart | .guestExit | .guestLine _ | .deliver =>
    inferInstanceAs (Decidable True)

/-! ## The invariant -/

/-- The index that a restart has read from the menu. -/
def Place.prevPhys : Place → Option Nat
  | .resetting prevPhys _ _ => prevPhys
  | .capturing prevPhys _ _ => prevPhys
  | _ => none

/-- **The invariant.**  Every remembered index names the disk that was meant, or nothing. -/
structure Meaning (s : State) (x : Meant) : Prop where
  shown : ∀ i ∈ s.menu.physToggleIdx, Names s.physDisks i x.shown
  taken : ∀ req ∈ s.place.req, ∀ i ∈ req.physToggle, Names s.physDisks i x.taken
  mounted : ∀ i ∈ s.menu.physMountedIdx, Names s.physDisks i s.usb.drive.diskName
  stopping : ∀ i ∈ s.place.prevPhys, Names s.physDisks i x.stopping
  stopped : ∀ r ∈ s.pendingRemount.bind PendingRemount.disk?, x.stopped = some r.1.bsdName
  pending : ∀ r ∈ s.pendingRemount.bind PendingRemount.disk?,
  Names s.physDisks r.2 (some r.1.bsdName)

/-- The index that Retry uses names the disk that the host refused, or nothing. -/
def RetryMeans (s : State) (x : Meant) : Prop :=
  s.retryWaits → ∀ i ∈ s.lastPhysToggle, Names s.physDisks i x.refused

section Steps

variable {s t : State} {x : Meant} {l : Luck} {e : Ev}

/-- Moving on in the tick keeps the invariant. -/
theorem Meaning.move {p : Place} {q : Qemu} (h : Meaning s x)
    (hreq : ∀ req ∈ p.req, req ∈ s.place.req) (hprev : p.prevPhys = none) :
    Meaning { s with qemu := q, place := p } x :=
  { h with
    taken := fun req hr => h.taken req (hreq req hr)
    stopping := fun i hi => by
      have hi : i ∈ p.prevPhys := hi
      rw [hprev] at hi
      nomatch hi }

/-- A restart reads the marked index while the disk is in the drive. -/
theorem Meaning.readFlags {q : Qemu} {k : Cause} (h : Meaning s x)
    (hreq : ∀ pp pv, ∀ req ∈ (Place.resetting pp pv k).req, req ∈ s.place.req) :
    Meaning (s.readFlags q k) { x with stopping := s.usb.drive.diskName } :=
  { h with
    taken := fun req hr => h.taken req (hreq _ _ req hr)
    stopping := h.mounted }

/-- A call that succeeds marks the disk it has put into the drive. -/
theorem Meaning.mark {c : Call} {v : Manager} (h : Meaning s x) (hg : MarkHolds s l)
    (hc : s.call l = some c) (hres : AttachResult s.usb (s.faultsOn l) c.target v none) :
    ∀ i ∈ (c.mark s.menu).physMountedIdx, Names s.physDisks i v.drive.diskName := by
  intro i hi
  cases hres with
  | ok hs hin _ _ _ hcontent =>
    cases calls hc with
    | create => nomatch hi
    | mount => nomatch hi
    | @pick _ idx disk _ _ hdisk =>
      obtain rfl : idx = i := Option.some.inj hi
      intro d hd
      obtain rfl : disk = d := Option.some.inj (hdisk.symm.trans hd)
      exact Medium.diskName_of_content hcontent
    | @retry _ idx disk _ _ _ _ hdisk =>
      obtain rfl : idx = i := Option.some.inj hi
      intro d hd
      obtain rfl : disk = d := Option.some.inj (hdisk.symm.trans hd)
      exact Medium.diskName_of_content hcontent
    | @remount r _ hr =>
      cases r with
      | physical disk idx =>
        obtain rfl : idx = i := Option.some.inj hi
        intro d hd
        have hname : some disk.bsdName = some d.bsdName :=
          h.pending (disk, idx) (by rw [hr]; rfl) d hd
        rw [← hname]
        exact Medium.diskName_of_content hcontent
      | virtual path =>
        -- the image would go in beside the mark of the disk
        have hmarked : s.menu.physMountedIdx ≠ none := by
          have hi : s.menu.physMountedIdx = some i := hi
          rw [hi]
          simp
        exact absurd ((hg hmarked _ hc hs).1 hin).2 (by simp [Call.remountsImage])

/-- A call that fails leaves a marked disk in the drive. -/
theorem drive_of_failed {c : Call} {v : Manager} {err : UsbError} (hg : MarkHolds s l)
    (hc : s.call l = some c) (hres : AttachResult s.usb (s.faultsOn l) c.target v (some err))
    (hmarked : s.menu.physMountedIdx ≠ none) : v.drive = s.usb.drive := by
  cases hres with
  | stuck _ _ hd => exact hd
  | refused hs hin _ hd => rw [hd, if_pos ((hg hmarked _ hc hs).2 hin)]
  | untold hs hin hline =>
    have htold := ((hg hmarked _ hc hs).1 hin).1
    rw [hline] at htold
    nomatch htold

theorem Served.meaning {next : Place} (h : Meaning s x) (hg : MarkHolds s l)
    (hserved : Served s l next t) (hreq : ∀ req ∈ next.req, req ∈ s.place.req)
    (hprev : next.prevPhys = none) : Meaning t x := by
  have hmove : Meaning { s with place := next } x := h.move hreq hprev
  cases hserved with
  | skipped => exact hmove
  | @attached c v hc _ hres =>
    obtain ⟨vm, pm, hmark⟩ := c.mark_eq s.menu
    have hsub : ∀ r ∈ (if c.isRemount then none else s.pendingRemount).bind PendingRemount.disk?,
        r ∈ s.pendingRemount.bind PendingRemount.disk? := by
      intro r hr
      split at hr
      · nomatch hr
      · exact hr
    refine { hmove with shown := ?_, mounted := h.mark hg hc hres
                        stopped := fun r hr => h.stopped r (hsub r hr)
                        pending := fun r hr => h.pending r (hsub r hr) }
    show ∀ i ∈ (c.mark s.menu).physToggleIdx, _
    rw [hmark]
    exact h.shown
  | @failed c v err hc _ hres =>
    obtain ⟨b, hmenu⟩ := c.refused_eq s.menu err
    rw [hmenu]
    refine { hmove with mounted := fun i hi => ?_ }
    have hi : s.menu.physMountedIdx = some i := hi
    show Names s.physDisks i v.drive.diskName
    rw [drive_of_failed hg hc hres (by rw [hi]; simp)]
    exact h.mounted i hi

/-- An eject takes the mark away, or leaves the drive as it was. -/
theorem Meaning.unmark {v : Manager} {c : Option Line} {p : Place} (h : Meaning s x)
    (hreq : ∀ req ∈ p.req, req ∈ s.place.req) (hprev : p.prevPhys = none) :
    Meaning { s with usbState := c, usb := v, menu := s.menu.markUnmounted, place := p } x :=
  { h.move (q := s.qemu) hreq hprev with mounted := fun _ hi => nomatch hi }

theorem Meaning.stuck {v : Manager} {c : Option Line} {p : Place} (h : Meaning s x)
    (hdrive : v.drive = s.usb.drive) (hreq : ∀ req ∈ p.req, req ∈ s.place.req)
    (hprev : p.prevPhys = none) : Meaning { s with usbState := c, usb := v, place := p } x :=
  { h.move (q := s.qemu) hreq hprev with
    mounted := fun i hi => by
      show Names s.physDisks i v.drive.diskName
      rw [hdrive]
      exact h.mounted i hi }

/-- What is captured for a remount is the disk that the restart found in the drive. -/
theorem Meaning.captures {pp : Option Nat} {pv : Bool} {k : Cause} {q : Qemu} (h : Meaning s x)
    (hp : s.place = .capturing pp pv k) :
    Meaning { s with pendingRemount := s.capture pp pv, qemu := q, place := k.next }
      { x with stopped := x.stopping } := by
  have hcaptured : ∀ r ∈ (s.capture pp pv).bind PendingRemount.disk?,
      pp = some r.2 ∧ s.physDisks[r.2]? = some r.1 := by
    intro r hr
    unfold State.capture at hr
    cases pp with
    | none =>
      cases pv with
      | false => nomatch hr
      | true =>
        cases himg : s.menu.virtualImg with
        | none => rw [himg] at hr; nomatch hr
        | some path => rw [himg] at hr; nomatch hr
    | some idx =>
      cases hd : s.physDisks[idx]? with
      | none => simp [hd] at hr
      | some d =>
        simp only [hd, Option.map_some, Option.bind_some, PendingRemount.disk?, Option.mem_def,
          Option.some.injEq] at hr
        rw [← hr]
        exact ⟨rfl, hd⟩
  have hmove : Meaning { s with qemu := q, place := k.next } x := by
    refine h.move ?_ ?_
    · rw [hp]
      cases k <;> simp [Cause.next, Place.req]
    · cases k <;> rfl
  refine { hmove with stopped := fun r hr => ?_, pending := fun r hr d hd => ?_ }
  · obtain ⟨hpp, hdisk⟩ := hcaptured r hr
    exact h.stopping r.2 (by rw [hp]; exact hpp) r.1 hdisk
  · obtain ⟨-, hdisk⟩ := hcaptured r hr
    obtain rfl : r.1 = d := Option.some.inj (hdisk.symm.trans hd)
    rfl

/-- A list that holds every index keeps the invariant; the first one picks the saved disk. -/
theorem Meaning.scans {fresh : List PhysicalDisk} (h : Meaning s x) (hg : ScanHolds s x fresh) :
    Meaning
      { s with menu := s.menu.publishDisks fresh (s.savedDiskIndex fresh), physDisks := fresh,
               physRestoreAttempted := true, place := .idle }
      { x with shown := if (s.savedDiskIndex fresh).isSome then s.savedPhysBsd else x.shown } where
  shown := by
    intro i hi
    cases hsaved : s.savedDiskIndex fresh with
    | none =>
      have hi : i ∈ s.menu.physToggleIdx := by simpa [Menu.publishDisks, hsaved] using hi
      simpa [hsaved] using hg.1 hsaved i hi
    | some j =>
      obtain rfl : j = i := by simpa [Menu.publishDisks, hsaved] using hi
      intro d hd
      show (if (some j).isSome then s.savedPhysBsd else x.shown) = some d.bsdName
      unfold State.savedDiskIndex at hsaved
      obtain ⟨-, hsaved⟩ := Option.ite_none_left_eq_some.mp hsaved
      obtain ⟨name, hname, hfind⟩ := Option.bind_eq_some_iff.mp hsaved
      obtain ⟨hlt, hthere, -⟩ := List.findIdx?_eq_some_iff_getElem.mp hfind
      have hd : fresh[j] = d := Option.some.inj ((List.getElem?_eq_getElem hlt).symm.trans hd)
      rw [hd] at hthere
      rw [hname, of_decide_eq_true hthere]
      rfl
  taken := fun _ hr => nomatch hr
  mounted := hg.2.2.1
  stopping := fun _ hi => nomatch hi
  stopped := h.stopped
  pending := hg.2.2.2

theorem Works.meaning (h : Meaning s x) (hg : IndicesHold (s, x) (.work l)) (hw : Works s l t) :
    Meaning t (x.after s l t.place) := by
  obtain ⟨hmark, -, hscan⟩ := hg
  -- each step moves the marks that say what an index means
  cases hw with
  | reap hp =>
    rw [show x.after s l _ = { x with stopping := s.usb.drive.diskName } by
      simp [Meant.after, hp, State.readFlags]]
    exact h.readFlags fun _ _ _ hr => nomatch hr
  | begins hp =>
    rw [show x.after s l _ = x by simp [Meant.after, hp]]
    exact h.move (fun _ hr => nomatch hr) rfl
  | @keeps pp pv k hp =>
    rw [show x.after s l _ = x by cases k <;> simp [Meant.after, hp, Cause.next]]
    refine h.move ?_ ?_
    · rw [hp]
      cases k <;> simp [Cause.next, Place.req]
    · cases k <;> rfl
  | @resets pp pv k q hp =>
    -- a reset leaves no disk mounted
    rw [show x.after s l _ = x by simp [Meant.after, hp]]
    exact { h with
      taken := fun req hr => h.taken req (by rw [hp]; cases k <;> exact hr)
      mounted := fun _ hi => nomatch hi
      stopping := fun i hi => h.stopping i (by rw [hp]; exact hi) }
  | captures hp =>
    rw [show x.after s l _ = { x with stopped := x.stopping } by simp [Meant.after, hp]]
    exact h.captures hp
  | drains hp =>
    rw [show x.after s l _ = { x with taken := x.shown } by simp [Meant.after, hp]]
    -- what the window shows becomes what the worker has taken
    refine { h with
      shown := fun _ hi => nomatch hi
      taken := ?_
      stopping := fun _ hi => nomatch hi }
    intro req hr i hi
    obtain rfl : s.menu.drain.1 = req := Option.some.inj hr
    exact h.shown i hi
  | restarts hp =>
    rw [show x.after s l _ = { x with stopping := s.usb.drive.diskName } by
      simp [Meant.after, hp, State.readFlags]]
    exact h.readFlags fun _ _ _ hr => by rw [hp]; exact hr
  | restartsNot hp =>
    rw [show x.after s l _ = x by simp [Meant.after, hp]]
    exact h.move (fun _ hr => by rw [hp]; exact hr) rfl
  | switches hp =>
    rw [show x.after s l _ = { x with stopping := s.usb.drive.diskName } by
      simp [Meant.after, hp, State.readFlags]]
    exact h.readFlags fun _ _ _ hr => by rw [hp]; exact hr
  | switchesNot hp =>
    rw [show x.after s l _ = x by simp [Meant.after, hp]]
    exact h.move (fun _ hr => by rw [hp]; exact hr) rfl
  | serves hserves hserved =>
    have hplace := hserved.place
    rw [hplace]
    -- create and mount belong to a request, the remount to none
    rcases Place.serves_cases hserves with ⟨req, hp, rfl⟩ | ⟨req, hp, rfl⟩ | ⟨hp, rfl⟩
    · rw [show x.after s l _ = x by simp [Meant.after, hp]]
      exact hserved.meaning h hmark (fun _ hr => by rw [hp]; exact hr) rfl
    · rw [show x.after s l _ = x by simp [Meant.after, hp]]
      exact hserved.meaning h hmark (fun _ hr => by rw [hp]; exact hr) rfl
    · rw [show x.after s l _ = x by simp [Meant.after, hp]]
      exact hserved.meaning h hmark (fun _ hr => nomatch hr) rfl
  | ejects hp =>
    rw [show x.after s l _ = x by simp [Meant.after, hp]]
    exact h.unmark (fun _ hr => by rw [hp]; exact hr) rfl
  | ejectFails hp _ hdet =>
    rw [show x.after s l _ = x by simp [Meant.after, hp]]
    cases hdet with
    | stuck _ _ _ hdrive => exact h.stuck hdrive (fun _ hr => by rw [hp]; exact hr) rfl
  | ejectsNot hp =>
    rw [show x.after s l _ = x by simp [Meant.after, hp]]
    exact h.move (fun _ hr => by rw [hp]; exact hr) rfl
  -- what is picked may be refused, and that is remembered
  | picks hp hserved =>
    have hserved := hserved.meaning h hmark (fun _ hr => nomatch hr) rfl
    rw [show x.after s l _ = { x with refused := (s.refusedDisk l).or x.refused } by
      simp [Meant.after, hp]]
    exact { hserved with }
  | polls hp =>
    rw [show x.after s l _ = x by simp [Meant.after, hp]]
    exact h.stuck rfl (fun _ hr => nomatch hr) rfl
  | acknowledges hp =>
    rw [show x.after s l _ = x by simp [Meant.after, hp]]
    exact h.unmark (fun _ hr => nomatch hr) rfl
  | acknowledgeFails hp _ _ hdet =>
    rw [show x.after s l _ = x by simp [Meant.after, hp]]
    cases hdet with
    | stuck _ _ _ hdrive => exact h.stuck hdrive (fun _ hr => nomatch hr) rfl
  -- a new list: the saved disk gives the index its meaning
  | @scans fresh hp hfresh =>
    rw [show x.after s l _ = { x with
      shown := if (s.savedDiskIndex fresh).isSome then s.savedPhysBsd else x.shown } by
      simp [Meant.after, hp, hfresh]]
    exact h.scans (hscan hp fresh hfresh)
  | scansNot hp hnone =>
    rw [show x.after s l _ = x by simp [Meant.after, hp, hnone]]
    exact h.move (fun _ hr => nomatch hr) rfl

/-- The history of refusals grows at a pick only. -/
theorem Meant.after_refused {p : Place} (hp : ∀ req, s.place ≠ .pick req) :
    (x.after s l p).refused = x.refused := by
  unfold Meant.after
  split
  case h_2 req hpick => exact absurd hpick (hp req)
  case h_5 => split <;> rfl
  all_goals rfl

/-- A step that offers no Retry and leaves the list and the memory alone keeps the meaning. -/
theorem RetryMeans.mono {x' : Meant} (h : RetryMeans s x) (hwaits : t.retryWaits → s.retryWaits)
    (hlast : t.lastPhysToggle = s.lastPhysToggle) (hdisks : t.physDisks = s.physDisks)
    (hrefused : x'.refused = x.refused) : RetryMeans t x' := by
  intro hw
  rw [hlast, hdisks, hrefused]
  exact h (hwaits hw)

/-- The offer is the menu's, or a request that the tick still has to serve. -/
theorem retryWaits_of {m : Menu} {p : Place} (hoffer : m.offersRetry → s.menu.offersRetry)
    (hreq : ∀ req ∈ p.req, req ∈ s.place.req)
    (h : m.offersRetry ∨ ∃ req ∈ p.req, req.physRetry) : s.retryWaits := by
  rcases h with h | ⟨req, hr, h⟩
  · exact .inl (hoffer h)
  · exact .inr ⟨req, hreq req hr, h⟩

theorem Served.retryMeans {next : Place} (h : RetryMeans s x) (hserved : Served s l next t)
    (hp : ∀ req, s.place ≠ .pick req) (hreq : ∀ req ∈ next.req, req ∈ s.place.req) :
    RetryMeans t (x.after s l t.place) := by
  have hrefused := Meant.after_refused (x := x) (l := l) (p := t.place) hp
  cases hserved with
  | skipped => exact h.mono (retryWaits_of id hreq) rfl rfl hrefused
  | @attached c v hc =>
    obtain ⟨vm, pm, hmark⟩ := c.mark_eq s.menu
    rw [hmark] at hrefused ⊢
    exact h.mono (retryWaits_of id hreq) rfl rfl hrefused
  | @failed c v err hc =>
    have hmenu : c.refused s.menu err = s.menu := by
      cases calls hc with
      | pick hpick => exact absurd hpick (hp _)
      | retry hpick => exact absurd hpick (hp _)
      | _ => rfl
    rw [hmenu] at hrefused ⊢
    exact h.mono (retryWaits_of id hreq) rfl rfl hrefused

/-- A pick or a retry that the host refuses is what Retry means from then on; any other pick is
    made while no Retry is offered. -/
theorem Works.retryMeans_pick {req : Requests} (h : RetryMeans s x) (hg : PickHolds s x)
    (hp : s.place = .pick req) (hserved : Served s l .acknowledge t) :
    RetryMeans { t with lastPhysToggle := req.physToggle.or s.lastPhysToggle }
      { x with refused := (s.refusedDisk l).or x.refused } := by
  -- when the step refuses nothing, the offer was there before it
  have hquiet : s.menu.offersRetry →
      ∀ i ∈ req.physToggle.or s.lastPhysToggle, Names s.physDisks i x.refused := by
    intro hw i hi
    cases htog : req.physToggle with
    | some j =>
      have hj : i ∈ s.place.picked := by rw [hp]; simpa [htog, Place.picked] using hi
      exact hg hw i hj
    | none => exact h (.inl hw) i (by simpa [htog] using hi)
  have hflags : ∀ {m : Menu}, (m.offersRetry ∨ ∃ r ∈ Place.acknowledge.req, r.physRetry) →
      m.offersRetry := by
    rintro m (hw | ⟨_, hr, _⟩)
    · exact hw
    · nomatch hr
  cases hserved with
  | skipped hc =>
    intro hw i hi
    have hnone : s.refusedDisk l = none := by simp [State.refusedDisk, hc]
    rw [hnone]
    exact hquiet (hflags hw) i hi
  | @attached c v hc hv =>
    intro hw i hi
    have hnone : s.refusedDisk l = none := by
      cases calls hc with
      | @pick _ _ d =>
        have hv : s.usb.attachPhysical (s.faultsOn l) d = (v, none) := hv
        simp [State.refusedDisk, hc, hv]
      | @retry _ _ d =>
        have hv : s.usb.attachPhysical (s.faultsOn l) d = (v, none) := hv
        simp [State.refusedDisk, hc, hv]
      | _ => simp [State.refusedDisk, hc]
    obtain ⟨vm, pm, hmark⟩ := c.mark_eq s.menu
    rw [hnone]
    rw [hmark] at hw
    exact hquiet (hflags hw) i hi
  | @failed c v err hc hv =>
    intro hw i hi
    cases calls hc with
    | create hcreate => rw [hp] at hcreate; nomatch hcreate
    | mount hmount => rw [hp] at hmount; nomatch hmount
    | remount hremount => rw [hp] at hremount; nomatch hremount
    | @pick req' j d hpick htog hd =>
      obtain rfl : req = req' := Place.pick.inj (hp.symm.trans hpick)
      have hv : s.usb.attachPhysical (s.faultsOn l) d = (v, some err) := hv
      cases err with
      | permissionDenied dev =>
        obtain rfl : j = i := by simpa [htog] using hi
        intro d' hd'
        obtain rfl : d = d' := Option.some.inj (hd.symm.trans hd')
        simp [State.refusedDisk, hc, hv]
      | qmp =>
        have hnone : s.refusedDisk l = none := by simp [State.refusedDisk, hc, hv]
        rw [hnone]
        exact hquiet (hflags hw) i hi
      | io =>
        have hnone : s.refusedDisk l = none := by simp [State.refusedDisk, hc, hv]
        rw [hnone]
        exact hquiet (hflags hw) i hi
    | @retry req' j d hpick htog hretry hlast hd =>
      obtain rfl : req = req' := Place.pick.inj (hp.symm.trans hpick)
      have hv : s.usb.attachPhysical (s.faultsOn l) d = (v, some err) := hv
      obtain rfl : j = i := by simpa [htog, hlast] using hi
      intro d' hd'
      obtain rfl : d = d' := Option.some.inj (hd.symm.trans hd')
      -- the retried disk is the refused one, whether the host refuses it again or not
      have hsame : x.refused = some d.bsdName := by
        refine h (.inr ⟨req, ?_, hretry⟩) j hlast d hd
        rw [hp]
        rfl
      cases err <;> simp [State.refusedDisk, hc, hv, hsame]

theorem Works.retryMeans (h : RetryMeans s x) (hg : IndicesHold (s, x) (.work l))
    (hw : Works s l t) : RetryMeans t (x.after s l t.place) := by
  -- every step but the pick and the scan leaves the list and the memory alone
  have hkeep : ∀ {u : State}, (∀ req, s.place ≠ .pick req) → u.lastPhysToggle = s.lastPhysToggle →
      u.physDisks = s.physDisks → (u.retryWaits → s.retryWaits) →
      RetryMeans u (x.after s l u.place) :=
    fun hp hlast hdisks hwaits => h.mono hwaits hlast hdisks (Meant.after_refused hp)
  cases hw with
  | reap hp =>
    exact hkeep (by simp [hp]) rfl rfl (retryWaits_of id fun _ hr => nomatch hr)
  | begins hp =>
    exact hkeep (by simp [hp]) rfl rfl (retryWaits_of id fun _ hr => nomatch hr)
  | @keeps pp pv k hp =>
    refine hkeep (by simp [hp]) rfl rfl (retryWaits_of id ?_)
    rw [hp]
    cases k <;> simp [Cause.next, Place.req]
  | @resets pp pv k q hp =>
    refine hkeep (by simp [hp]) rfl rfl (retryWaits_of id ?_)
    rw [hp]
    cases k <;> simp [Place.req]
  | @captures pp pv k q hp =>
    refine hkeep (by simp [hp]) rfl rfl (retryWaits_of id ?_)
    rw [hp]
    cases k <;> simp [Cause.next, Place.req]
  | drains hp =>
    refine hkeep (by simp [hp]) rfl rfl ?_
    rintro ((hw | hw | hw) | ⟨req, hr, hw⟩)
    · exact .inl (.inl hw)
    · exact .inl (.inr (.inl hw))
    · nomatch hw
    · -- the request is the one that was drained
      obtain rfl : s.menu.drain.1 = req := Option.some.inj hr
      exact .inl (.inr (.inr hw))
  | restarts hp =>
    exact hkeep (by simp [hp]) rfl rfl (retryWaits_of id fun _ hr => by rw [hp]; exact hr)
  | restartsNot hp =>
    exact hkeep (by simp [hp]) rfl rfl (retryWaits_of id fun _ hr => by rw [hp]; exact hr)
  | switches hp =>
    exact hkeep (by simp [hp]) rfl rfl (retryWaits_of id fun _ hr => by rw [hp]; exact hr)
  | switchesNot hp =>
    exact hkeep (by simp [hp]) rfl rfl (retryWaits_of id fun _ hr => by rw [hp]; exact hr)
  | serves hserves hserved =>
    rcases Place.serves_cases hserves with ⟨req, hp, rfl⟩ | ⟨req, hp, rfl⟩ | ⟨hp, rfl⟩
    · exact hserved.retryMeans h (by simp [hp]) fun _ hr => by rw [hp]; exact hr
    · exact hserved.retryMeans h (by simp [hp]) fun _ hr => by rw [hp]; exact hr
    · exact hserved.retryMeans h (by simp [hp]) fun _ hr => nomatch hr
  | ejects hp =>
    exact hkeep (by simp [hp]) rfl rfl (retryWaits_of id fun _ hr => by rw [hp]; exact hr)
  | ejectFails hp =>
    exact hkeep (by simp [hp]) rfl rfl (retryWaits_of id fun _ hr => by rw [hp]; exact hr)
  | ejectsNot hp =>
    exact hkeep (by simp [hp]) rfl rfl (retryWaits_of id fun _ hr => by rw [hp]; exact hr)
  | picks hp hserved =>
    rw [show x.after s l _ = { x with refused := (s.refusedDisk l).or x.refused } by
      simp [Meant.after, hp]]
    exact Works.retryMeans_pick h hg.2.1 hp hserved
  | polls hp =>
    exact hkeep (by simp [hp]) rfl rfl (retryWaits_of id fun _ hr => nomatch hr)
  | acknowledges hp =>
    exact hkeep (by simp [hp]) rfl rfl (retryWaits_of id fun _ hr => nomatch hr)
  | acknowledgeFails hp =>
    exact hkeep (by simp [hp]) rfl rfl (retryWaits_of id fun _ hr => nomatch hr)
  | @scans fresh hp hfresh =>
    intro hw i hi
    have hs : s.retryWaits := retryWaits_of (p := .idle) id (fun _ hr => nomatch hr) hw
    rw [Meant.after_refused (by simp [hp])]
    exact (hg.2.2 hp fresh hfresh).2.1 hs i hi
  | scansNot hp =>
    exact hkeep (by simp [hp]) rfl rfl (retryWaits_of id fun _ hr => nomatch hr)

/-- A click shows the disk that it picks. -/
theorem Meaning.click {i : Nat} (hsane : Sane s) (h : Meaning s x) :
    Meaning { s with menu := { s.menu with physToggleIdx := some i } }
      { x with shown := s.menu.physDisks[i]? } := by
  refine { h with shown := ?_ }
  intro j hj d hd
  obtain rfl : i = j := Option.some.inj hj
  have hd : s.physDisks[i]? = some d := hd
  show s.menu.physDisks[i]? = some d.bsdName
  rw [hsane.published, List.getElem?_map, hd]
  rfl

/-- **Step lemma.** -/
theorem meaning_step (hsane : Sane s) (h : Meaning s x ∧ RetryMeans s x) (hg : IndicesHold (s, x) e)
    (hs : usbMachine.step s e = some t) :
    Meaning t (meant x s e t) ∧ RetryMeans t (meant x s e t) := by
  cases steps hs with
  | works hw => exact ⟨hw.meaning h.1 hg, hw.retryMeans h.2 hg⟩
  | exits => exact ⟨{ h.1 with }, h.2⟩
  | sends => exact ⟨{ h.1 with }, h.2⟩
  | delivers => exact ⟨{ h.1 with }, h.2⟩
  | acts ha =>
    cases ha with
    | clickMounted hm =>
      simp only [meant, hm, ↓reduceIte]
      exact h
    | click hm =>
      simp only [meant, hm, ↓reduceIte]
      exact ⟨h.1.click hsane, h.2⟩
    | showAlert hden =>
      -- the alert is the offer that was waiting to be shown
      exact ⟨{ h.1 with }, h.2.mono (retryWaits_of (fun _ => .inl hden) fun _ hr => hr) rfl rfl rfl⟩
    | answerAlert halert =>
      exact ⟨{ h.1 with },
        h.2.mono (retryWaits_of (fun _ => .inr (.inl halert)) fun _ hr => hr) rfl rfl rfl⟩
    | _ => exact ⟨{ h.1 with }, h.2⟩

end Steps

/-! ## Whole runs -/

theorem meaning_started (passesFds : Bool) (qemu : Qemu) (img savedPhysBsd : Option String) :
    Meaning (started passesFds qemu img savedPhysBsd) {} where
  shown := fun _ hi => nomatch hi
  taken := fun _ hr => nomatch hr
  mounted := fun _ hi => nomatch hi
  stopping := fun _ hi => nomatch hi
  stopped := by cases img <;> exact fun _ hr => nomatch hr
  pending := by cases img <;> exact fun _ hr => nomatch hr

/-- **Main theorem.**  In every run whose steps meet `IndicesHold`, each call of `attach_physical`
    is made with the disk that the click showed, that the host refused, or that was in the drive
    when the old QEMU stopped. -/
theorem raw_disk_is_the_one_meant (passesFds : Bool) (qemu : Qemu)
    (img savedPhysBsd : Option String) {s : State} {x : Meant} (l : Luck)
    (hs : rawDiskMachine.Reach IndicesHold (started passesFds qemu img savedPhysBsd, {}) (s, x)) :
    CallsRight s x l := by
  have h0 : Sane (started passesFds qemu img savedPhysBsd) ∧
      Meaning (started passesFds qemu img savedPhysBsd) {} ∧
      RetryMeans (started passesFds qemu img savedPhysBsd) {} :=
    ⟨sane_started .., meaning_started .., fun _ _ hi => nomatch hi⟩
  have hinv : Sane s ∧ Meaning s x ∧ RetryMeans s x := by
    refine hs.inv (I := fun p => Sane p.1 ∧ Meaning p.1 p.2 ∧ RetryMeans p.1 p.2) h0 ?_
    rintro ⟨u, y⟩ e q ⟨hsane, hu⟩ hg hstep
    obtain ⟨v, hv, rfl⟩ := hist_step hstep
    exact ⟨hsane.step hv, meaning_step hsane hu hg hv⟩
  obtain ⟨-, hmeans, hretries⟩ := hinv
  unfold CallsRight
  split
  · rename_i i d hc
    cases calls hc with
    | pick hp htog hd => exact hmeans.taken _ (by rw [hp]; rfl) i htog d hd
  · rename_i i d hc
    cases calls hc with
    | retry hp _ hretry hlast hd =>
      refine hretries (.inr ⟨_, ?_, hretry⟩) i hlast d hd
      rw [hp]
      rfl
  · rename_i d i hc
    cases calls hc with
    | remount _ hr => exact hmeans.stopped (d, i) (by rw [hr]; rfl)
  · trivial

/-- Two disks of the host. -/
def disk2 : PhysicalDisk := ⟨"disk2", "/dev/rdisk2"⟩

def disk3 : PhysicalDisk := ⟨"disk3", "/dev/rdisk3"⟩

/-- The first disk is clicked, refused and retried; at the retry it is the one that was refused. -/
theorem raw_disk_is_the_one_meant_at_a_retry :
    ∃ s x, rawDiskMachine.Reach IndicesHold (started false .running none none, {}) (s, x) ∧
      s.call {} = some (.retry 0 disk2) ∧ x.refused = some "disk2" := by
  obtain ⟨⟨s, x⟩, hs, hp⟩ := Reach.of_run_any (M := rawDiskMachine) (G := IndicesHold)
    (s := (started false .running none none, {}))
    (p := fun p => decide (p.1.call {} = some (.retry 0 disk2)))
    (ticks 10 ++ .work { scan := some [disk2, disk3] } :: .clickDisk 0 :: ticks 7 ++
      .work { faults := { openRaw := .denied } } :: ticks 3 ++
      .showAlert :: .answerAlert true :: ticks 7)
    (by decide)
  have hc : s.call {} = some (.retry 0 disk2) := of_decide_eq_true hp
  have hright := raw_disk_is_the_one_meant false .running none none {} hs
  rw [CallsRight, hc] at hright
  exact ⟨s, x, hs, hc, hright⟩

/-- **The defect.**  A click shows the first disk while the worker is in its tick; the scan at the
    end of the tick puts another disk first, and the next tick hands that one to the guest. -/
theorem moved_list_exposes_another_disk :
    ¬ ∀ (s : State) (x : Meant) (l : Luck),
      rawDiskMachine.Reach Free (started false .running none none, {}) (s, x) →
        CallsRight s x l := by
  intro hall
  obtain ⟨⟨s, x⟩, hs, hp⟩ := Reach.of_run_any (M := rawDiskMachine) (G := Free)
    (s := (started false .running none none, {}))
    (p := fun p => decide (p.1.call {} = some (.pick 0 disk3)) && decide (p.2.taken = some "disk2"))
    (ticks 10 ++ .work { scan := some [disk2, disk3] } :: ticks 2 ++ .clickDisk 0 :: ticks 8 ++
      .work { scan := some [disk3, disk2] } :: ticks 7)
    (by decide)
  simp only [Bool.and_eq_true, decide_eq_true_eq] at hp
  have hright := hall s x {} hs
  rw [CallsRight, hp.1] at hright
  have hright : x.taken = some disk3.bsdName := hright
  rw [hp.2] at hright
  exact absurd hright (by decide)

end CdjEmu.Usb
