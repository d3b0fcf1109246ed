/-
  REMOUNTS — what a restart of QEMU does to the medium.

  The WANTED medium is a history: the result of the latest mount, eject or guest eject that
  succeeded, and the saved image at the start.  A restart reads the mounted flags, resets the
  manager and queues what the flags named; the remount is then tried at the end of every tick until
  it succeeds.  What is queued is computed from flags that the previous restart has reset, and
  neither a mount nor an eject looks at the queue: a second restart drops a remount that has not
  succeeded yet, and a remount displaces a medium that was mounted after the restart.

  `Kept` says that the drive holds the wanted medium, or the queue holds exactly it.  It is kept at
  every place of a tick but between the reset and the capture, where `Captures` says that the flags
  the restart has read name the wanted medium.  It needs the mirror (`MirrorHolds`), and that the
  user, the guest and further restarts leave a pending remount alone (`RemountHolds`).

  1. **Program** — a restart reads the flags, resets the manager, queues what was mounted and starts
     QEMU; every tick tries at its end what is queued.

  2. **Specification** — `Held`: between any two ticks the drive holds the wanted medium, or the
     queue holds exactly it.

  3. **The bridge** — `Usb/Mirror` says that the flags are true where they are read, so what is
     queued is what was in the drive; from there on the queue is the only memory of it.
-/
import CdjEmu.Usb.Mirror

namespace CdjEmu.Usb

open Machine

/-! ## The wanted medium -/

/-- The worker's next step ejects, for the user or for the guest, and the eject succeeds. -/
def State.ejected (s : State) (l : Luck) : Bool :=
  match s.place with
  | .eject req => s.qemu ≠ .none && req.eject && (s.usb.detach (s.faultsOn l)).2 = none
  | .acknowledge =>
    s.qemu ≠ .none && s.usbState.map (·.mounted) = some false &&
      (s.usb.acknowledgeGuestEject (s.faultsOn l)).2.toOption = some true
  | _ => false

/-- The history: the result of the latest mount or eject that succeeded. -/
def wanted (w : Option Content) (s : State) (e : Ev) (_ : State) : Option Content :=
  match e with
  | .work l =>
    match s.call l with
    | some c =>
      if !c.isRemount && (s.usb.attach (s.faultsOn l) c.target).2 = none then some c.target.content
      else w
    | none => if s.ejected l then none else w
  | _ => w

/-- The machine with its history. -/
abbrev remountMachine : Machine (State × Option Content) Ev := usbMachine.hist wanted

/-- **The property.**  The drive holds the wanted medium, or the pending
    remount is of exactly it. -/
def Held (s : State) (w : Option Content) : Prop :=
  s.usb.drive.content = w ∨ ∃ r, s.pendingRemount = some r ∧ w = some r.target.content

instance (s : State) (w : Option Content) : Decidable (Held s w) :=
  decidable_of_iff (s.usb.drive.content = w ∨ ∃ r ∈ s.pendingRemount, w = some r.target.content)
    Iff.rfl

/-! ## The condition -/

/-- The worker's next step begins a restart. -/
def State.restarts (s : State) (l : Luck) : Bool :=
  match s.place with
  | .idle => s.qemu = .exited
  | .restart req => req.restart
  | .network _ => l.switchNetwork && s.qemu ≠ .none
  | _ => false

/-- The worker's next step queues the image that is selected. -/
def Place.capturesImage : Place → Bool
  | .capturing _ prevVirt _ => prevVirt
  | _ => false

/-- A pending remount is left alone: nothing else is mounted, nothing is ejected, and no restart
    begins before it has succeeded. -/
def LeavesPending (s : State) (l : Luck) : Prop :=
  ∀ r ∈ s.pendingRemount,
    (∀ c ∈ s.call l, c.target.Succeeds s.usb (s.faultsOn l) → c.target.content = r.target.content) ∧
    s.ejected l = false ∧ s.restarts l = false

/-- With no remount pending, the guest is told of every medium that goes in. -/
def AllTold (s : State) (l : Luck) : Prop :=
  s.pendingRemount = none → ∀ c ∈ s.call l, EjectSpared s.usb (s.faultsOn l) →
    c.target.GoesIn (s.faultsOn l) → (s.faultsOn l).line = true

/-- No other image is asked for while a restart reads and queues the one that is mounted. -/
def SelectionStands (s : State) (l : Luck) : Prop :=
  (s.restarts l = true → s.usb.current = some .virtual → ¬ s.imageWaits) ∧
  (s.place.capturesImage = true → ¬ s.imageWaits)

/-- **The condition.** -/
def RemountHolds (p : State × Option Content) (e : Ev) : Prop :=
  MirrorHolds p.1 e ∧
    match e with
    | .work l => LeavesPending p.1 l ∧ AllTold p.1 l ∧ SelectionStands p.1 l
    | _ => True

instance (s : State) (l : Luck) : Decidable (LeavesPending s l) :=
  inferInstanceAs (Decidable (∀ r ∈ s.pendingRemount, (∀ c ∈ s.call l, _) ∧ _ ∧ _))

instance (s : State) (l : Luck) : Decidable (AllTold s l) :=
  inferInstanceAs (Decidable (_ → ∀ c ∈ s.call l, _))

instance (s : State) (l : Luck) : Decidable (SelectionStands s l) :=
  inferInstanceAs (Decidable (_ ∧ _))

instance (p : State × Option Content) (e : Ev) : Decidable (RemountHolds p e) :=
  match e with
  | .work _ => inferInstanceAs (Decidable (_ ∧ _ ∧ _ ∧ _))
  | .clickDisk _ | .clickEject | .pickImage _ _ | .apiAttach _ | .apiEject | .showAlert
  | .answerAlert _ | .requestRestart | .guestExit | .guestLine _ | .deliver =>
    inferInstanceAs (Decidable (_ ∧ True))

/-! ## The invariant -/

/-- The drive holds the wanted medium, or the queue does. -/
structure Kept (s : State) (w : Option Content) : Prop where
  queued : ∀ r ∈ s.pendingRemount, w = some r.target.content
  drive : s.pendingRemount = none → s.usb.drive.content = w
  attached : s.usb.current ≠ none → s.usb.drive.content = w
  empty : s.pendingRemount = none → s.usb.current = none → s.usb.drive = .placeholder

/-- The flags that a restart has read name the wanted medium. -/
def Captures (s : State) (w : Option Content) (prevPhys : Option Nat) (prevVirt : Bool) : Prop :=
  match prevPhys with
  | some i => ∃ d, s.physDisks[i]? = some d ∧ w = some (.disk d.bsdName)
  | none =>
    if prevVirt then ∃ path, w = some (.image path) ∧ (s.imageWaits ∨ s.menu.virtualImg = some path)
    else w = none

/-- **The invariant**, at every place of a tick. -/
def Keeps (s : State) (w : Option Content) : Prop :=
  match s.place with
  | .resetting prevPhys prevVirt _ =>
    s.pendingRemount = none ∧ Kept s w ∧ Captures s w prevPhys prevVirt
  | .capturing prevPhys prevVirt _ => s.usb.drive = .placeholder ∧ Captures s w prevPhys prevVirt
  | _ => Kept s w

/-- A restart has read the flags and has not queued the remount. -/
def Place.midRestart : Place → Bool
  | .resetting _ _ _ | .capturing _ _ _ => true
  | _ => false

theorem keeps_iff {s : State} {w : Option Content} (hp : s.place.midRestart = false) :
    Keeps s w ↔ Kept s w := by
  unfold Keeps
  cases h : s.place with
  | resetting => rw [h] at hp; nomatch hp
  | capturing => rw [h] at hp; nomatch hp
  | _ => rfl

theorem Cause.next_midRestart (k : Cause) : k.next.midRestart = false := by
  cases k <;> rfl

section Steps

variable {s t : State} {w : Option Content} {l : Luck} {e : Ev}

/-! ### What the steps do to the wanted medium -/

theorem wanted_of_call {c : Call} (hc : s.call l = some c) (hr : c.isRemount = false)
    (hs : c.target.Succeeds s.usb (s.faultsOn l)) :
    wanted w s (.work l) t = some c.target.content := by
  simp [wanted, hc, hr, (attach_ok_iff s.usb (s.faultsOn l) c.target).mpr hs]

theorem wanted_of_failed {c : Call} (hc : s.call l = some c)
    (hf : c.isRemount = true ∨ ¬ c.target.Succeeds s.usb (s.faultsOn l)) :
    wanted w s (.work l) t = w := by
  rw [← attach_ok_iff] at hf
  rcases hf with hf | hf <;> simp [wanted, hc, hf]

theorem wanted_of_none (hc : s.call l = none) (he : s.ejected l = false) :
    wanted w s (.work l) t = w := by
  simp [wanted, hc, he]

theorem wanted_of_ejected (hc : s.call l = none) (he : s.ejected l = true) :
    wanted w s (.work l) t = none := by
  simp [wanted, hc, he]

theorem ejected_eject {req : Requests} (hp : s.place = .eject req) :
    s.ejected l = true ↔ s.qemu ≠ .none ∧ req.eject ∧ EjectSpared s.usb (s.faultsOn l) := by
  simp only [State.ejected, hp, Bool.and_eq_true, decide_eq_true_eq, detach_ok_iff, and_assoc]

theorem ejected_acknowledge (hp : s.place = .acknowledge) :
    s.ejected l = true ↔ s.qemu ≠ .none ∧ s.usbState.map (·.mounted) = some false ∧
      s.usb.current ≠ none ∧ EjectSpared s.usb (s.faultsOn l) := by
  have hok : (s.usb.acknowledgeGuestEject (s.faultsOn l)).2.toOption = some true ↔
      s.usb.current ≠ none ∧ EjectSpared s.usb (s.faultsOn l) := by
    rw [acknowledgeGuestEject_eq, ← detach_ok_iff]
    cases (s.usb.detach (s.faultsOn l)).2 with
    | none => simp [Except.toOption, Option.isSome_iff_ne_none]
    | some err => simp [Except.toOption]
  simp only [State.ejected, hp, Bool.and_eq_true, decide_eq_true_eq, hok, and_assoc]

/-! ### Keeping the medium -/

/-- A step that leaves the drive, the manager and the queue alone. -/
theorem Kept.congr (h : Kept s w) (husb : t.usb = s.usb)
    (hpend : t.pendingRemount = s.pendingRemount) :
    Kept t w := by
  constructor
  · rw [hpend]
    exact h.queued
  · rw [hpend, husb]
    exact h.drive
  · rw [husb]
    exact h.attached
  · rw [hpend, husb]
    exact h.empty

/-- An eject that succeeds empties the drive; nothing is queued. -/
theorem Kept.ejected {f : Faults} {v : Manager} (h : Kept s w) (hpend : s.pendingRemount = none)
    (hdet : Detached s.usb f v none) (husb : t.usb = v)
    (hpend' : t.pendingRemount = s.pendingRemount) : Kept t none := by
  have hv : v.current = none ∧ v.drive = .placeholder := by
    cases hdet with
    | nothing hc => exact ⟨hc, h.empty hpend hc⟩
    | ejected _ _ hc hd => exact ⟨hc, hd⟩
  rw [← husb] at hv
  have hcontent : t.usb.drive.content = none := by rw [hv.2]; rfl
  rw [hpend] at hpend'
  refine ⟨fun r hr => ?_, fun _ => hcontent, fun _ => hcontent, fun _ _ => hv.2⟩
  rw [hpend'] at hr
  nomatch hr

/-- A medium that goes in is the wanted one from then on; a remount is of the wanted one. -/
theorem Kept.attached_call {c : Call} {v : Manager} {next : Place} (h : Kept s w)
    (hg : LeavesPending s l) (hc : s.call l = some c)
    (hres : AttachResult s.usb (s.faultsOn l) c.target v none) :
    Kept { s with usb := v, menu := c.mark s.menu,
                  pendingRemount := if c.isRemount then none else s.pendingRemount, place := next }
      (wanted w s (.work l) t) := by
  cases hres with
  | ok hs hin hline hcur _ hcontent =>
    have hsucc : c.target.Succeeds s.usb (s.faultsOn l) := ⟨hs, hin, hline⟩
    have hne : v.current ≠ none := by rw [hcur]; simp
    cases hr : c.isRemount with
    | true =>
      rw [wanted_of_failed hc (.inl hr)]
      have hw : v.drive.content = w := by
        cases calls hc with
        | remount _ hpend => rw [h.queued _ hpend]; exact hcontent
        | _ => nomatch hr
      exact ⟨fun _ hr => (nomatch hr), fun _ => hw, fun _ => hw, fun _ hc => absurd hc hne⟩
    | false =>
      rw [wanted_of_call hc hr hsucc]
      refine ⟨fun r hpend => ?_, fun _ => hcontent, fun _ => hcontent, fun _ hc => absurd hc hne⟩
      rw [((hg r hpend).1 c hc hsucc)]

/-- An attach that fails was made with nothing attached, and takes nothing out of the drive. -/
theorem Kept.failed_call {c : Call} {v : Manager} {err : UsbError} {m : Menu} {next : Place}
    (h : Kept s w) (hg : NothingFails s l) (htold : AllTold s l) (hc : s.call l = some c)
    (hres : AttachResult s.usb (s.faultsOn l) c.target v (some err)) :
    Kept { s with usb := v, menu := m, place := next } (wanted w s (.work l) t) := by
  rw [wanted_of_failed hc (.inr hres.not_succeeds)]
  have hcur : s.usb.current = none := hg.current hc hres
  cases hres with
  | stuck hns => exact absurd (fun hs => by simp [hcur] at hs) hns
  | refused _ _ hv hd =>
    rw [if_pos hcur] at hd
    have hcontent : v.drive.content = s.usb.drive.content := by rw [hd]
    refine ⟨h.queued, fun hp => hcontent.trans (h.drive hp), fun hne => absurd hv hne,
      fun hp _ => ?_⟩
    exact hd.trans (h.empty hp hcur)
  | untold hs hin hline hv =>
    -- the medium is in and forgotten; only a queued remount makes up for that
    have hpend : s.pendingRemount ≠ none := by
      intro hp
      have htrue := htold hp c hc hs hin
      rw [hline] at htrue
      nomatch htrue
    exact ⟨h.queued, fun hp => absurd hp hpend, fun hne => absurd hv hne, fun hp => absurd hp hpend⟩

theorem Served.kept {next : Place} (h : Kept s w) (hg : RemountHolds (s, w) (.work l))
    (hserved : Served s l next t) (hplace : s.ejected l = false) :
    Kept t (wanted w s (.work l) t) := by
  obtain ⟨hmirror, hpend, htold, -⟩ := hg
  cases hserved with
  | skipped hc =>
    rw [wanted_of_none hc hplace]
    exact h.congr rfl rfl
  | attached hc _ hres => exact h.attached_call hpend hc hres
  | failed hc _ hres => exact h.failed_call hmirror.1 htold hc hres

/-! ### Restarts -/

/-- While no image is asked for, no mount is coming. -/
theorem not_mountComes (h : ¬ s.imageWaits) (hp : ∀ req, s.place ≠ .mount req) :
    ¬ s.mountComes := by
  rintro (⟨req, hr, hmount⟩ | ⟨-, hmount⟩)
  · refine h (.inr ?_)
    have himaging : s.place.imaging = s.place.serving.any fun req =>
      req.create || req.virtMount := by
      unfold Place.imaging
      split
      · rename_i req hmount
        exact absurd hmount (hp req)
      · rfl
    have hr : s.place.serving = some req := hr
    rw [himaging, hr]
    simp [hmount]
  · exact h (.inl (.inl hmount))

/-- The flags that a restart reads name the wanted medium. -/
theorem Kept.captures (hsane : Sane s) (hmirror : Mirror s) (h : Kept s w)
    (hpend : s.pendingRemount = none)
    (hcomes : s.usb.current = some .virtual → s.menu.virtualMounted = true) :
    Captures s w s.menu.physMountedIdx s.menu.virtualMounted := by
  unfold Captures
  cases hpm : s.menu.physMountedIdx with
  | some i =>
    obtain ⟨d, fd, hcur, hd⟩ := hmirror.marked i hpm
    refine ⟨d, hd, ?_⟩
    rw [← h.attached (by rw [hcur]; simp), (hsane.named _ hcur).raw]
    rfl
  | none =>
    cases hvm : s.menu.virtualMounted with
    | true =>
      have hcur := hmirror.virt hvm
      obtain ⟨path, hdrive⟩ := (hsane.named _ hcur).image
      have hw : s.usb.drive.content = w := h.attached (by rw [hcur]; simp)
      rw [hdrive] at hw
      refine ⟨path, hw.symm, ?_⟩
      refine (hmirror.mounted hsane hvm).imp_right ?_
      rintro ⟨path', himg, hpath⟩
      rw [hdrive] at hpath
      rw [himg, Medium.image.inj hpath]
    | false =>
      -- neither flag is set, so nothing is attached and nothing is wanted
      have hcur : s.usb.current = none := by
        cases hcur : s.usb.current with
        | none => rfl
        | some a =>
          cases a with
          | virtual =>
            have hset := hcomes hcur
            rw [hvm] at hset
            nomatch hset
          | physical b fd => exact absurd hcur (hmirror.unmarked hpm b fd)
      have hw := h.drive hpend
      rw [h.empty hpend hcur] at hw
      exact hw.symm

/-- What the flags name does not change while the disks stay and only
    requests change the selection. -/
theorem Captures.mono {pp : Option Nat} {pv : Bool} (h : Captures s w pp pv)
    (hdisks : t.physDisks = s.physDisks)
    (himg : ∀ path, s.imageWaits ∨ s.menu.virtualImg = some path →
      t.imageWaits ∨ t.menu.virtualImg = some path) : Captures t w pp pv := by
  unfold Captures at h ⊢
  cases pp with
  | some i => rw [hdisks]; exact h
  | none =>
    cases pv with
    | false => exact h
    | true =>
      obtain ⟨path, hw, hpath⟩ := h
      exact ⟨path, hw, himg path hpath⟩

/-- A restart begins with nothing queued and reads flags that name the wanted medium. -/
theorem Kept.readFlags {q : Qemu} {k : Cause} (hsane : Sane s) (hmirror : Mirror s) (h : Kept s w)
    (hg : RemountHolds (s, w) (.work l)) (hrestart : s.restarts l = true)
    (hp : ∀ req, s.place ≠ .mount req)
    (himaging : ∀ pp pv, (Place.resetting pp pv k).imaging = s.place.imaging) :
    Keeps (s.readFlags q k) w := by
  obtain ⟨-, hleaves, -, hstands, -⟩ := hg
  have hpend : s.pendingRemount = none := by
    rw [Option.eq_none_iff_forall_ne_some]
    intro r hr
    have hnot := (hleaves r hr).2.2
    rw [hrestart] at hnot
    nomatch hnot
  have hcomes : s.usb.current = some .virtual → s.menu.virtualMounted = true := fun hcur =>
    (hmirror.comes hcur).resolve_right (not_mountComes (hstands hrestart hcur) hp)
  refine ⟨hpend, h.congr rfl rfl, (h.captures hsane hmirror hpend hcomes).mono rfl ?_⟩
  rintro path ((hw | hw) | himg)
  · exact .inl (.inl hw)
  · exact .inl (.inr ((himaging _ _).trans hw))
  · exact .inr himg

/-- The remount that is queued is of the wanted medium. -/
theorem Captures.kept {pp : Option Nat} {pv : Bool} {k : Cause} {q : Qemu} (hsane : Sane s)
    (h : Captures s w pp pv) (hp : s.place = .capturing pp pv k)
    (hdrive : s.usb.drive = .placeholder) (hstands : pv = true → ¬ s.imageWaits) :
    Kept { s with pendingRemount := s.capture pp pv, qemu := q, place := k.next } w := by
  have hcur : s.usb.current = none := hsane.off (by simp [State.detached, hp])
  -- something is queued exactly when something is wanted
  have hqueue : (s.capture pp pv).map (·.target.content) = w := by
    unfold Captures at h
    unfold State.capture
    cases pp with
    | some i =>
      obtain ⟨d, hd, hw⟩ := h
      dsimp only
      rw [hd, hw]
      rfl
    | none =>
      cases pv with
      | false => exact h.symm
      | true =>
        obtain ⟨path, hw, hpath⟩ := h
        dsimp only
        rw [hpath.resolve_left (hstands rfl), hw]
        rfl
  refine ⟨fun r hr => ?_, fun hnone => ?_, fun hne => absurd hcur hne, fun _ _ => hdrive⟩
  · have hr : s.capture pp pv = some r := hr
    rw [hr] at hqueue
    exact hqueue.symm
  · have hnone : s.capture pp pv = none := hnone
    rw [hnone] at hqueue
    show s.usb.drive.content = w
    rw [hdrive, ← hqueue]
    rfl

/-- Nothing is queued when an eject succeeds. -/
theorem pending_of_ejected (hg : RemountHolds (s, w) (.work l)) (he : s.ejected l = true) :
    s.pendingRemount = none := by
  rw [Option.eq_none_iff_forall_ne_some]
  intro r hr
  have hnot := (hg.2.1 r hr).2.1
  rw [he] at hnot
  nomatch hnot

theorem Works.keeps_medium (hsane : Sane s) (hmirror : Mirror s) (h : Keeps s w)
    (hg : RemountHolds (s, w) (.work l)) (hw : Works s l t) : Keeps t (wanted w s (.work l) t) := by
  -- a step that makes no call and no eject leaves the wanted medium as it is
  have hquiet : s.call l = none → s.ejected l = false → wanted w s (.work l) t = w := wanted_of_none
  have hkept : s.place.midRestart = false → Kept s w := fun hp => (keeps_iff hp).mp h
  cases hw with
  | reap hp hq =>
    rw [hquiet (by simp [State.call, hp]) (by simp [State.ejected, hp])]
    exact (hkept (by rw [hp]; rfl)).readFlags hsane hmirror hg (by simp [State.restarts, hp, hq])
      (by simp [hp]) fun _ _ => by rw [hp]; rfl
  | restarts hp hreq =>
    rw [hquiet (by simp [State.call, hp]) (by simp [State.ejected, hp])]
    exact (hkept (by rw [hp]; rfl)).readFlags hsane hmirror hg (by simp [State.restarts, hp, hreq])
      (by simp [hp]) fun _ _ => by rw [hp]; rfl
  | switches hp hnet hq =>
    rw [hquiet (by simp [State.call, hp]) (by simp [State.ejected, hp])]
    exact (hkept (by rw [hp]; rfl)).readFlags hsane hmirror hg
      (by simp [State.restarts, hp, hnet, hq]) (by simp [hp]) fun _ _ => by rw [hp]; rfl
  | begins hp =>
    rw [hquiet (by simp [State.call, hp]) (by simp [State.ejected, hp])]
    exact (hkept (by rw [hp]; rfl)).congr rfl rfl
  | restartsNot hp =>
    rw [hquiet (by simp [State.call, hp]) (by simp [State.ejected, hp])]
    exact (hkept (by rw [hp]; rfl)).congr rfl rfl
  | switchesNot hp =>
    rw [hquiet (by simp [State.call, hp]) (by simp [State.ejected, hp])]
    exact (hkept (by rw [hp]; rfl)).congr rfl rfl
  | drains hp =>
    rw [hquiet (by simp [State.call, hp]) (by simp [State.ejected, hp])]
    exact (hkept (by rw [hp]; rfl)).congr rfl rfl
  | @keeps pp pv k hp =>
    rw [hquiet (by simp [State.call, hp]) (by simp [State.ejected, hp])]
    rw [Keeps, hp] at h
    exact (keeps_iff k.next_midRestart).mpr (h.2.1.congr rfl rfl)
  | @resets pp pv k q hp =>
    rw [hquiet (by simp [State.call, hp]) (by simp [State.ejected, hp])]
    rw [Keeps, hp] at h
    refine ⟨rfl, h.2.2.mono rfl ?_⟩
    rintro path ((hwaits | himaging) | himg)
    · exact .inl (.inl hwaits)
    · rw [hp] at himaging
      exact .inl (.inr (by cases k <;> exact himaging))
    · exact .inr himg
  | @captures pp pv k q hp =>
    rw [hquiet (by simp [State.call, hp]) (by simp [State.ejected, hp])]
    rw [Keeps, hp] at h
    refine (keeps_iff k.next_midRestart).mpr (h.2.kept hsane hp h.1 fun hpv => ?_)
    exact hg.2.2.2.2 (by rw [hp]; exact hpv)
  | serves hserves hserved =>
    rcases Place.serves_cases hserves with ⟨req, hp, rfl⟩ | ⟨req, hp, rfl⟩ | ⟨hp, rfl⟩ <;>
    · refine (keeps_iff (by rw [hserved.place]; rfl)).mpr ?_
      exact hserved.kept (hkept (by rw [hp]; rfl)) hg (by simp [State.ejected, hp])
  | picks hp hserved =>
    refine (keeps_iff ?_).mpr ?_
    · show _ = false
      rw [hserved.place]
      rfl
    · exact (hserved.kept (hkept (by rw [hp]; rfl)) hg (by simp [State.ejected, hp])).congr rfl rfl
  | @ejects req v hp hreq hdet hq =>
    have hejected : s.ejected l = true := by
      rw [ejected_eject hp]
      exact ⟨hq, hreq, hdet.spared⟩
    rw [wanted_of_ejected (by simp [State.call, hp]) hejected]
    exact (hkept (by rw [hp]; rfl)).ejected (pending_of_ejected hg hejected) hdet rfl rfl
  | ejectFails hp hreq hdet =>
    exact absurd (hg.1.1.2.1 (by simpa [State.ejects, hp] using hreq)) (not_spared_of_stuck hdet)
  | ejectsNot hp hnot =>
    have hejected : s.ejected l = false := by
      rw [Bool.eq_false_iff, ne_eq, ejected_eject hp]
      rintro ⟨hq, hreq, -⟩
      exact hq (hnot hreq)
    rw [hquiet (by simp [State.call, hp]) hejected]
    exact (hkept (by rw [hp]; rfl)).congr rfl rfl
  | polls hp hnot =>
    have hejected : s.ejected l = false := by
      rw [Bool.eq_false_iff, ne_eq, ejected_acknowledge hp]
      rintro ⟨hq, hfalse, hcur, -⟩
      exact hcur (hnot hq hfalse)
    rw [hquiet (by simp [State.call, hp]) hejected]
    exact (hkept (by rw [hp]; rfl)).congr rfl rfl
  | @acknowledges line v hp hline hfalse hcur hdet hq =>
    have hejected : s.ejected l = true := by
      rw [ejected_acknowledge hp]
      exact ⟨hq, by rw [hline, Option.map_some, hfalse], hcur, hdet.spared⟩
    rw [wanted_of_ejected (by simp [State.call, hp]) hejected]
    exact (hkept (by rw [hp]; rfl)).ejected (pending_of_ejected hg hejected) hdet rfl rfl
  | acknowledgeFails hp hline hfalse hdet =>
    exact absurd (hg.1.1.2.1 (by simp [State.ejects, hp, hline, hfalse])) (not_spared_of_stuck hdet)
  | scans hp =>
    rw [hquiet (by simp [State.call, hp]) (by simp [State.ejected, hp])]
    exact (hkept (by rw [hp]; rfl)).congr rfl rfl
  | scansNot hp =>
    rw [hquiet (by simp [State.call, hp]) (by simp [State.ejected, hp])]
    exact (hkept (by rw [hp]; rfl)).congr rfl rfl

/-- **Step lemma.** -/
theorem Keeps.step (hsane : Sane s) (hmirror : Mirror s) (h : Keeps s w)
    (hg : RemountHolds (s, w) e) (hs : usbMachine.step s e = some t) :
    Keeps t (wanted w s e t) := by
  -- a step that leaves the worker alone and does not unselect an image without a request
  have hkeep : ∀ {u : State}, u.place = s.place → u.usb = s.usb → u.physDisks = s.physDisks →
      u.pendingRemount = s.pendingRemount →
      (∀ path, s.imageWaits ∨ s.menu.virtualImg = some path →
        u.imageWaits ∨ u.menu.virtualImg = some path) → Keeps u w := by
    intro u hplace husb hdisks hpend himg
    unfold Keeps at h ⊢
    rw [hplace]
    cases hp : s.place with
    | resetting pp pv k =>
      rw [hp] at h
      exact ⟨hpend.trans h.1, h.2.1.congr husb hpend, h.2.2.mono hdisks himg⟩
    | capturing pp pv k =>
      rw [hp] at h
      exact ⟨by rw [husb]; exact h.1, h.2.mono hdisks himg⟩
    | _ =>
      rw [hp] at h
      exact h.congr husb hpend
  cases steps hs with
  | works hw => exact hw.keeps_medium hsane hmirror h hg
  | exits => exact hkeep rfl rfl rfl rfl fun _ hi => hi
  | sends => exact hkeep rfl rfl rfl rfl fun _ hi => hi
  | delivers => exact hkeep rfl rfl rfl rfl fun _ hi => hi
  | acts ha =>
    cases ha with
    | create => exact hkeep rfl rfl rfl rfl fun _ _ => .inl (.inl (.inr rfl))
    | mount => exact hkeep rfl rfl rfl rfl fun _ _ => .inl (.inl (.inl rfl))
    | attach => exact hkeep rfl rfl rfl rfl fun _ _ => .inl (.inl (.inl rfl))
    | _ => exact hkeep rfl rfl rfl rfl fun _ hi => hi

end Steps

/-! ## Whole runs -/

theorem keeps_started (passesFds : Bool) (qemu : Qemu) (img savedPhysBsd : Option String) :
    Keeps (started passesFds qemu img savedPhysBsd) (img.map .image) := by
  constructor
  · intro r hr
    obtain ⟨path, hpath, rfl⟩ := Option.map_eq_some_iff.mp hr
    rw [hpath]
    rfl
  · intro hnone
    rw [Option.map_eq_none_iff.mp hnone]
    rfl
  · intro hne
    exact absurd rfl hne
  · exact fun _ _ => rfl

/-- **Main theorem.**  In every run whose steps meet `RemountHolds`, between any two ticks the drive
    holds the medium that is wanted, or the pending remount is of exactly it. -/
theorem restart_keeps_the_medium (passesFds : Bool) (qemu : Qemu) (img savedPhysBsd : Option String)
    {s : State} {w : Option Content}
    (hs : remountMachine.Reach RemountHolds
      (started passesFds qemu img savedPhysBsd, img.map .image) (s, w))
    (hp : s.place = .idle) : Held s w := by
  have h0 : Sane (started passesFds qemu img savedPhysBsd) ∧
      Mirror (started passesFds qemu img savedPhysBsd) ∧
      Keeps (started passesFds qemu img savedPhysBsd) (img.map .image) :=
    ⟨sane_started .., mirror_started .., keeps_started ..⟩
  have hinv : Sane s ∧ Mirror s ∧ Keeps s w := by
    refine hs.inv (I := fun p => Sane p.1 ∧ Mirror p.1 ∧ Keeps p.1 p.2) h0 ?_
    rintro ⟨u, y⟩ e q ⟨hsane, hmirror, hkeeps⟩ hg hstep
    obtain ⟨v, hv, rfl⟩ := hist_step hstep
    exact ⟨hsane.step hv, hmirror.step hsane hg.1 hv, hkeeps.step hsane hmirror hg hv⟩
  have hkept : Kept s w := (keeps_iff (by rw [hp]; rfl)).mp hinv.2.2
  cases hpend : s.pendingRemount with
  | none => exact .inl (hkept.drive hpend)
  | some r => exact .inr ⟨r, hpend, hkept.queued r hpend⟩

/-- An image is mounted, QEMU restarts, and the first try of the remount fails: the image is still
    queued at the end of the tick. -/
theorem restart_keeps_the_medium_until_it_is_remounted :
    ∃ s, remountMachine.Reach RemountHolds (started false .running none none, none)
        (s, some (.image "/sticks/a.img")) ∧
      s.place = .idle ∧ s.usb.drive = .placeholder ∧ Held s (some (.image "/sticks/a.img")) := by
  obtain ⟨⟨s, w⟩, hs, hp⟩ := Reach.of_run_any (M := remountMachine) (G := RemountHolds)
    (s := (started false .running none none, none))
    (p := fun p => decide (p.1.place = .idle) && decide (p.1.usb.drive = .placeholder) &&
      decide (p.2 = some (.image "/sticks/a.img")))
    (.pickImage false "/sticks/a.img" :: ticks 11 ++ .requestRestart :: ticks 11 ++
      .work { faults := { change := .failed } } :: ticks 1)
    (by decide)
  simp only [Bool.and_eq_true, decide_eq_true_eq] at hp
  obtain ⟨⟨hplace, hdrive⟩, rfl⟩ := hp
  exact ⟨s, hs, hplace, hdrive, restart_keeps_the_medium false .running none none hs hplace⟩

/-- **The defect.**  An image is mounted and QEMU restarts twice before the remount succeeds: the
    second restart reads the flags that the first one has reset and drops the remount. -/
theorem second_restart_drops_the_remount :
    ¬ ∀ (s : State) (w : Option Content),
      remountMachine.Reach Free (started false .running none none, none) (s, w) →
        s.place = .idle → Held s w := by
  intro hall
  obtain ⟨⟨s, w⟩, hs, hp⟩ := Reach.of_run_any (M := remountMachine) (G := Free)
    (s := (started false .running none none, none))
    (p := fun p => decide (p.1.place = .idle) && decide (¬ Held p.1 p.2))
    (.pickImage false "/sticks/a.img" :: ticks 11 ++ .requestRestart :: ticks 11 ++
      .work { faults := { change := .failed } } :: ticks 1 ++ .requestRestart :: ticks 13)
    (by decide)
  simp only [Bool.and_eq_true, decide_eq_true_eq] at hp
  exact hp.2 (hall s w hs hp.1)

end CdjEmu.Usb
