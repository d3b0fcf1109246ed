/-
  THE MENU'S MIRROR — what the menu says is mounted against what the manager has in the drive.

  The mounted flags are written on SUCCESS only, by the worker, after each attach or eject; the
  control API clears `usb_virtual_mounted` when it asks for another image, and the menu changes
  `usb_virtual_img` when the user picks one, both before the worker acts.

  `Mirror` says how far flags and drive agree at EVERY place of a tick: a flag that is set is true,
  a virtual medium without its flag has its mount still coming in this tick, and the selected image
  is the one in the drive unless a request for another one waits.  At the end of a tick nothing is
  still coming, which leaves the agreement the menu promises (`Shows`).  It is kept as long as no
  attach or eject fails while something is attached, a remount that succeeds fits the flags, scans
  leave the mounted disk where it is, and the API does not clear the flag after the tick has taken
  its requests (`MirrorHolds`).

  1. **Program** — the worker's tick by its places: guest ejects, requests of the menu and the API,
     attach and eject of each kind, scans, and the remount at the end.  The menu and the API may act
     between any two of them.

  2. **Specification** — `Shows`: at the end of a tick a mounted flag is set exactly for the kind of
     medium in the drive, and what is selected is that medium, unless a request for another image
     waits.

  3. **The scope** — runs of one worker, from the start of the process; a worker that is started
     anew finds the flags of the one before it.
-/
import CdjEmu.Usb.Worker

namespace CdjEmu.Usb

open Machine

/-! ## The property -/

/-- A request for an image waits in the menu. -/
def Menu.imageWaits (m : Menu) : Prop := m.mountReq ∨ m.createReq

instance (m : Menu) : Decidable m.imageWaits := inferInstanceAs (Decidable (_ ∨ _))

/-- **The property**, at the end of a tick. -/
structure Shows (s : State) : Prop where
  virt : s.menu.virtualMounted = true ↔ s.usb.current = some .virtual
  image : s.menu.virtualMounted = true → s.menu.imageWaits ∨
    ∃ path, s.menu.virtualImg = some path ∧ s.usb.drive = .image path
  phys : s.menu.physMountedIdx ≠ none ↔ ∃ b fd, s.usb.current = some (.physical b fd)
  disk : ∀ b fd, s.usb.current = some (.physical b fd) →
    s.usb.drive = .raw b fd ∧ s.menu.physMountedIdx.bind (s.menu.physDisks[·]?) = some b

/-- The drained requests whose image the tick has not mounted yet. -/
def Place.serving : Place → Option Requests
  | .eject _ | .pick _ => none
  | p => p.req

/-- The tick has not drained the requests yet. -/
def Place.beforeDrain : Place → Bool
  | .idle | .drain | .resetting _ _ .guestExit | .capturing _ _ .guestExit => true
  | _ => false

/-- A mount is still to come in this tick. -/
def State.mountComes (s : State) : Prop :=
  (∃ req ∈ s.place.serving, req.virtMount) ∨ (s.place.beforeDrain ∧ s.menu.mountReq)

instance (s : State) : Decidable s.mountComes := inferInstanceAs (Decidable (_ ∨ _))

/-- The tick is to create or mount an image. -/
def Place.imaging : Place → Bool
  | .mount req => req.virtMount
  | p => p.serving.any fun req => req.create || req.virtMount

/-- A request for an image waits, or is being served. -/
def State.imageWaits (s : State) : Prop := s.menu.imageWaits ∨ s.place.imaging

instance (s : State) : Decidable s.imageWaits := inferInstanceAs (Decidable (_ ∨ _))

/-- A `media` reply reports an image only if it is in the drive. -/
def ReportsTruly (s : State) : Prop :=
  (s.menu.mediaState.attached = .virtual → ∃ path, s.usb.drive = .image path) ∧
  ∀ path, s.menu.mediaState.image = some path → s.usb.drive = .image path

/-! ## The condition -/

def Place.creates : Place → Bool
  | .create req => req.create
  | _ => false

/-- The step ejects what is attached, for the user or for the guest. -/
def State.ejects (s : State) : Bool :=
  match s.place with
  | .eject req => req.eject
  | .acknowledge => s.usbState.any fun line => !line.mounted
  | _ => false

/-- While something is attached, no attach and no eject fails; while an image is, no new one fails
    to be created. -/
def NothingFails (s : State) (l : Luck) : Prop :=
  (s.usb.current ≠ none → ∀ c ∈ s.call l, c.target.Succeeds s.usb (s.faultsOn l)) ∧
  (s.ejects → EjectSpared s.usb (s.faultsOn l)) ∧
  (s.menu.virtualMounted = true → s.place.creates → l.createImage = true)

/-- A remount sets its own flag only: the other one is clear, and its image is the selected one, its
    disk at its index. -/
def RemountFits (s : State) : Call → Prop
  | .remount (.physical d i) =>
    s.menu.virtualMounted = false ∧ s.physDisks[i]?.map (·.bsdName) = some d.bsdName
  | .remount (.virtual path) =>
    s.menu.physMountedIdx = none ∧ (s.menu.imageWaits ∨ s.menu.virtualImg = some path)
  | _ => True

/-- A new list has the mounted disk at its index. -/
def ScanKeepsMounted (s : State) (fresh : List PhysicalDisk) : Prop :=
  ∀ i ∈ s.menu.physMountedIdx, fresh[i]?.map (·.bsdName) = s.physDisks[i]?.map (·.bsdName)

/-- **The condition.** -/
def MirrorHolds (s : State) : Ev → Prop
  | .work l => NothingFails s l ∧
      (∀ c ∈ s.call l, c.target.Succeeds s.usb (s.faultsOn l) → RemountFits s c) ∧
      (s.place = .refresh → ∀ fresh ∈ l.scan, ScanKeepsMounted s fresh)
  | .apiAttach path => s.menu.virtualMounted = true → s.menu.virtualImg ≠ some path →
      s.place.beforeDrain ∨ s.mountComes
  | _ => True

instance (s : State) (l : Luck) : Decidable (NothingFails s l) :=
  inferInstanceAs (Decidable ((_ → ∀ c ∈ s.call l, _) ∧ _ ∧ _))

instance (s : State) (c : Call) : Decidable (RemountFits s c) :=
  match c with
  | .remount (.physical _ _) => inferInstanceAs (Decidable (_ ∧ _))
  | .remount (.virtual _) => inferInstanceAs (Decidable (_ ∧ _))
  | .create _ | .mount _ | .pick _ _ | .retry _ _ => inferInstanceAs (Decidable True)

instance (s : State) (fresh : List PhysicalDisk) : Decidable (ScanKeepsMounted s fresh) :=
  inferInstanceAs (Decidable (∀ i ∈ s.menu.physMountedIdx, _))

instance (s : State) (e : Ev) : Decidable (MirrorHolds s e) :=
  match e with
  | .work l => inferInstanceAs (Decidable (_ ∧ (∀ c ∈ s.call l, _) ∧ (_ → ∀ fresh ∈ l.scan, _)))
  | .apiAttach _ => inferInstanceAs (Decidable (_ → _ → _))
  | .clickDisk _ | .clickEject | .pickImage _ _ | .apiEject | .showAlert | .answerAlert _
  | .requestRestart | .guestExit | .guestLine _ | .deliver => inferInstanceAs (Decidable True)

/-! ## The invariant -/

/-- What the requests, in the menu and drained, say about the selected image. -/
structure Asks (s : State) : Prop where
  selected : ∀ req ∈ s.place.serving, s.menu.imageWaits ∨ s.menu.virtualImg = req.virtualImg
  asked : s.menu.imageWaits → s.menu.virtualImg ≠ none
  taken : ∀ req ∈ s.place.serving, req.create ∨ req.virtMount → req.virtualImg ≠ none

/-- **The invariant**, at every place of a tick. -/
structure Mirror (s : State) : Prop where
  virt : s.menu.virtualMounted = true → s.usb.current = some .virtual
  comes : s.usb.current = some .virtual → s.menu.virtualMounted = true ∨ s.mountComes
  image : s.menu.virtualMounted = true →
    s.imageWaits ∨ s.usb.drive.content = s.menu.virtualImg.map .image
  marked : ∀ i ∈ s.menu.physMountedIdx,
    ∃ d fd, s.usb.current = some (.physical d.bsdName fd) ∧ s.physDisks[i]? = some d
  unmarked : s.menu.physMountedIdx = none → ∀ b fd, s.usb.current ≠ some (.physical b fd)
  asks : Asks s

section Steps

variable {s t : State} {l : Luck} {e : Ev}

/-! ### The three states of the mirror -/

theorem Mirror.of_none (hasks : Asks t) (hcur : t.usb.current = none)
    (hvm : t.menu.virtualMounted = false) (hpm : t.menu.physMountedIdx = none) : Mirror t where
  virt h := by rw [hvm] at h; nomatch h
  comes h := by rw [hcur] at h; nomatch h
  image h := by rw [hvm] at h; nomatch h
  marked i hi := by rw [hpm] at hi; nomatch hi
  unmarked _ b fd h := by rw [hcur] at h; nomatch h
  asks := hasks

theorem Mirror.of_virtual (hasks : Asks t) (hcur : t.usb.current = some .virtual)
    (hvm : t.menu.virtualMounted = true) (hpm : t.menu.physMountedIdx = none)
    (himage : t.imageWaits ∨ t.usb.drive.content = t.menu.virtualImg.map .image) : Mirror t where
  virt _ := hcur
  comes _ := .inl hvm
  image _ := himage
  marked i hi := by rw [hpm] at hi; nomatch hi
  unmarked _ b fd h := by rw [hcur] at h; nomatch h
  asks := hasks

theorem Mirror.of_physical {d : PhysicalDisk} {fd : Option Nat} {i : Nat} (hasks : Asks t)
    (hcur : t.usb.current = some (.physical d.bsdName fd)) (hvm : t.menu.virtualMounted = false)
    (hpm : t.menu.physMountedIdx = some i) (hd : t.physDisks[i]? = some d) : Mirror t where
  virt h := by rw [hvm] at h; nomatch h
  comes h := by rw [hcur] at h; nomatch h
  image h := by rw [hvm] at h; nomatch h
  marked j hj := by
    obtain rfl : i = j := Option.some.inj (hpm.symm.trans hj)
    exact ⟨d, fd, hcur, hd⟩
  unmarked h := by rw [hpm] at h; nomatch h
  asks := hasks

/-- Nothing attached, nothing marked. -/
theorem Mirror.flags_of_none (h : Mirror s) (hcur : s.usb.current = none) :
    s.menu.virtualMounted = false ∧ s.menu.physMountedIdx = none := by
  constructor
  · rw [Bool.eq_false_iff]
    intro hvm
    have hvirt := h.virt hvm
    rw [hcur] at hvirt
    nomatch hvirt
  · rw [Option.eq_none_iff_forall_ne_some]
    intro i hi
    obtain ⟨d, fd, hphys, -⟩ := h.marked i hi
    rw [hcur] at hphys
    nomatch hphys

/-! ### Moving on in the tick -/

theorem Asks.congr (h : Asks s) (himg : t.menu.virtualImg = s.menu.virtualImg)
    (hmount : t.menu.mountReq = s.menu.mountReq) (hcreate : t.menu.createReq = s.menu.createReq)
    (hserving : ∀ req ∈ t.place.serving, req ∈ s.place.serving) : Asks t := by
  have hwaits : t.menu.imageWaits = s.menu.imageWaits := by
    simp only [Menu.imageWaits, hmount, hcreate]
  refine ⟨fun req hr => ?_, ?_, fun req hr => h.taken req (hserving req hr)⟩
  · rw [hwaits, himg]
    exact h.selected req (hserving req hr)
  · rw [hwaits, himg]
    exact h.asked

/-- The place `q` still has everything to serve that `p` has. -/
structure Place.Carries (p q : Place) : Prop where
  serving : q.serving = p.serving
  before : p.beforeDrain → q.beforeDrain
  imaging : q.imaging = p.imaging

theorem Mirror.move (h : Mirror s) (hmenu : t.menu = s.menu) (husb : t.usb = s.usb)
    (hdisks : t.physDisks = s.physDisks) (hplace : s.place.Carries t.place) : Mirror t := by
  have hcomes : s.mountComes → t.mountComes := by
    rintro (⟨req, hr, hreq⟩ | ⟨hbefore, hreq⟩)
    · exact .inl ⟨req, hplace.serving ▸ hr, hreq⟩
    · exact .inr ⟨hplace.before hbefore, hmenu ▸ hreq⟩
  have hwaits : s.imageWaits → t.imageWaits := by
    rintro (hw | hw)
    · exact .inl (hmenu ▸ hw)
    · exact .inr (hplace.imaging ▸ hw)
  have hasks : Asks t := by
    refine h.asks.congr ?_ ?_ ?_ fun req hr => hplace.serving ▸ hr <;> rw [hmenu]
  constructor
  · rw [hmenu, husb]
    exact h.virt
  · rw [hmenu, husb]
    exact fun hc => (h.comes hc).imp_right hcomes
  · rw [hmenu, husb]
    exact fun hvm => (h.image hvm).imp_left hwaits
  · rw [hmenu, husb, hdisks]
    exact h.marked
  · rw [hmenu, husb]
    exact h.unmarked
  · exact hasks

theorem Cause.carries_next (k : Cause) (pp : Option Nat) (pv : Bool) :
    (Place.resetting pp pv k).Carries k.next ∧ (Place.capturing pp pv k).Carries k.next := by
  cases k <;> exact ⟨⟨rfl, id, rfl⟩, ⟨rfl, id, rfl⟩⟩

/-! ### Attaches -/

/-- An image that is mounted is the selected one, or another one waits. -/
theorem Asks.image {req : Requests} {path : String} (h : Asks s) (hreq : req ∈ s.place.serving)
    (hpath : req.virtualImg = some path) :
    s.menu.imageWaits ∨ some (Content.image path) = s.menu.virtualImg.map .image := by
  refine (h.selected req hreq).imp_right fun himg => ?_
  rw [himg, hpath]
  rfl

theorem Mirror.attached {c : Call} {v : Manager} {r : Option PendingRemount} {next : Place}
    (h : Mirror s) (hc : s.call l = some c) (hfits : RemountFits s c)
    (hres : AttachResult s.usb (s.faultsOn l) c.target v none)
    (hserving : ∀ req ∈ next.serving, req ∈ s.place.serving) :
    Mirror { s with usb := v, menu := c.mark s.menu, pendingRemount := r, place := next } := by
  obtain ⟨vm, pm, hmark⟩ := c.mark_eq s.menu
  have hasks : Asks { s with
      usb := v, menu := c.mark s.menu, pendingRemount := r, place := next } := by
    refine h.asks.congr ?_ ?_ ?_ hserving <;>
    · dsimp only
      rw [hmark]
  cases hres with
  -- by who has asked for the attach
  | ok _ _ _ hcur hnames hcontent =>
    cases calls hc with
    | create hp hreq hpath =>
      obtain ⟨rfl, hdrive⟩ := AttachedMode.eq_of_image hnames hcontent
      refine .of_virtual hasks hcur rfl rfl ?_
      refine (h.asks.image (by rw [hp]; rfl) hpath).imp .inl fun himg => ?_
      exact hcontent.trans himg
    | mount hp hreq hpath =>
      obtain ⟨rfl, hdrive⟩ := AttachedMode.eq_of_image hnames hcontent
      refine .of_virtual hasks hcur rfl rfl ?_
      refine (h.asks.image (by rw [hp]; rfl) hpath).imp .inl fun himg => ?_
      exact hcontent.trans himg
    | pick _ _ hd =>
      obtain ⟨fd, rfl, hdrive⟩ := AttachedMode.eq_of_disk hnames hcontent
      exact .of_physical hasks hcur rfl rfl hd
    | retry _ _ _ _ hd =>
      obtain ⟨fd, rfl, hdrive⟩ := AttachedMode.eq_of_disk hnames hcontent
      exact .of_physical hasks hcur rfl rfl hd
    -- what is remounted is what the condition says the menu shows
    | @remount r hp hr =>
      cases r with
      | virtual path =>
        obtain ⟨rfl, hdrive⟩ := AttachedMode.eq_of_image hnames hcontent
        refine .of_virtual hasks hcur rfl hfits.1 ?_
        refine hfits.2.imp .inl fun himg => ?_
        show v.drive.content = s.menu.virtualImg.map .image
        rw [himg]
        exact hcontent
      | physical d i =>
        obtain ⟨fd, rfl, hdrive⟩ := AttachedMode.eq_of_disk hnames hcontent
        obtain ⟨d', hd', hname⟩ := Option.map_eq_some_iff.mp hfits.2
        rw [← hname] at hcur
        exact .of_physical hasks hcur hfits.1 rfl hd'

/-- An attach that fails was made while nothing was attached. -/
theorem NothingFails.current {c : Call} {v : Manager} {err : UsbError} (hg : NothingFails s l)
    (hc : s.call l = some c) (hres : AttachResult s.usb (s.faultsOn l) c.target v (some err)) :
    s.usb.current = none := by
  by_contra hne
  exact hres.not_succeeds (hg.1 hne c hc)

/-- An attach that fails leaves nothing attached and nothing marked. -/
theorem Mirror.failed {c : Call} {v : Manager} {err : UsbError} {next : Place} (h : Mirror s)
    (hg : NothingFails s l) (hc : s.call l = some c)
    (hres : AttachResult s.usb (s.faultsOn l) c.target v (some err))
    (hserving : ∀ req ∈ next.serving, req ∈ s.place.serving) :
    Mirror { s with usb := v, menu := c.refused s.menu err, place := next } := by
  obtain ⟨hvm, hpm⟩ := h.flags_of_none (hg.current hc hres)
  obtain ⟨b, hmenu⟩ := c.refused_eq s.menu err
  rw [hmenu]
  exact .of_none (h.asks.congr rfl rfl rfl hserving) hres.current hvm hpm

/-- A create that is skipped was not asked for, or no image is mounted. -/
theorem Mirror.create_skipped {req : Requests} (hsane : Sane s) (h : Mirror s)
    (hg : NothingFails s l) (hp : s.place = .create req) (hc : s.call l = none) :
    Mirror { s with place := .mount req } := by
  have hserving : s.place.serving = some req := by rw [hp]; rfl
  refine { h with comes := fun hcur => ?_, image := fun hvm => ?_, asks := ?_ }
  · refine (h.comes hcur).imp_right ?_
    rintro (hreq | ⟨hbefore, -⟩)
    · rw [hserving] at hreq
      exact .inl hreq
    · rw [hp] at hbefore
      cases hbefore
  · rcases h.image hvm with (hw | hw) | himg
    · exact .inl (.inl hw)
    · rw [hp] at hw
      have hw : req.create = true ∨ req.virtMount = true := by
        simpa [Place.imaging, Place.serving, Place.req] using hw
      rcases hw with hcreate | hmount
      · -- the image was created, so only a missing QEMU explains the skip
        have himage : l.createImage = true := hg.2.2 hvm (by rw [hp]; exact hcreate)
        obtain ⟨path, hpath⟩ :=
          Option.ne_none_iff_exists'.mp (h.asks.taken req hserving (.inl hcreate))
        have hq : s.qemu = .none := by
          by_contra hq
          simp [State.call, hq, hp, hcreate, himage, hpath] at hc
        have hcur := h.virt hvm
        rw [hsane.off (by simp [State.detached, hp, hq])] at hcur
        cases hcur
      · exact .inl (.inr hmount)
    · exact .inr himg
  · exact h.asks.congr rfl rfl rfl fun r hr => by rw [hserving]; exact hr

/-- A mount that is skipped was not asked for, or nothing is attached. -/
theorem Mirror.mount_skipped {req : Requests} (hsane : Sane s) (h : Mirror s)
    (hp : s.place = .mount req) (hc : s.call l = none) :
    Mirror { s with place := .eject req } := by
  have hserving : s.place.serving = some req := by rw [hp]; rfl
  -- with the mount asked for, only a missing QEMU explains the skip
  have hnot : s.usb.current ≠ none → req.virtMount = false := by
    intro hcur
    rw [Bool.eq_false_iff]
    intro hmount
    obtain ⟨path, hpath⟩ := Option.ne_none_iff_exists'.mp (h.asks.taken req hserving (.inr hmount))
    have hq : s.qemu = .none := by
      by_contra hq
      simp [State.call, hq, hp, hmount, hpath] at hc
    exact hcur (hsane.off (by simp [State.detached, hp, hq]))
  refine { h with comes := fun hcur => ?_, image := fun hvm => ?_, asks := ?_ }
  · rcases h.comes hcur with hvm | (⟨r, hr, hmount⟩ | ⟨hbefore, -⟩)
    · exact .inl hvm
    · obtain rfl : req = r := Option.some.inj (hserving.symm.trans hr)
      have hcur : s.usb.current = some .virtual := hcur
      rw [hnot (by rw [hcur]; simp)] at hmount
      cases hmount
    · rw [hp] at hbefore
      cases hbefore
  · rcases h.image hvm with (hw | hw) | himg
    · exact .inl (.inl hw)
    · rw [hp] at hw
      have hmount : req.virtMount = true := hw
      rw [hnot (by rw [h.virt hvm]; simp)] at hmount
      cases hmount
    · exact .inr himg
  · exact h.asks.congr rfl rfl rfl fun r hr => by cases hr

/-- An eject that succeeds leaves nothing attached and nothing marked. -/
theorem Mirror.ejected {f : Faults} {v : Manager} {c : Option Line} {next : Place} (h : Mirror s)
    (hdet : Detached s.usb f v none) (hserving : ∀ req ∈ next.serving, req ∈ s.place.serving) :
    Mirror { s with usbState := c, usb := v, menu := s.menu.markUnmounted, place := next } := by
  exact .of_none (h.asks.congr rfl rfl rfl hserving) hdet.current rfl rfl

/-- The drained requests are the menu's. -/
theorem Mirror.drained (h : Mirror s) (hp : s.place = .drain) :
    Mirror { s with menu := s.menu.drain.2, place := .restart s.menu.drain.1 } := by
  refine { h with comes := fun hcur => ?_, image := fun hvm => ?_, asks := ?_ }
  · refine (h.comes hcur).imp_right ?_
    rintro (⟨req, hr, -⟩ | ⟨-, hreq⟩)
    · rw [hp] at hr
      nomatch hr
    · exact .inl ⟨_, rfl, hreq⟩
  · rcases h.image hvm with (hw | hw) | himg
    · refine .inl (.inr ?_)
      show (s.menu.createReq || s.menu.mountReq) = true
      rw [Bool.or_eq_true]
      exact hw.symm
    · rw [hp] at hw
      nomatch hw
    · exact .inr himg
  · refine ⟨fun req hr => ?_, fun hw => ?_, fun req hr hw => ?_⟩
    · obtain rfl : s.menu.drain.1 = req := Option.some.inj hr
      exact .inr rfl
    · exact hw.elim (nomatch ·) (nomatch ·)
    · obtain rfl : s.menu.drain.1 = req := Option.some.inj hr
      exact h.asks.asked hw.symm

theorem Served.mirror {next : Place} (h : Mirror s) (hg : MirrorHolds s (.work l))
    (hserved : Served s l next t) (hserving : ∀ req ∈ next.serving, req ∈ s.place.serving)
    (hskip : s.call l = none → Mirror { s with place := next }) : Mirror t := by
  cases hserved with
  | skipped hc => exact hskip hc
  | attached hc _ hres =>
    refine h.attached hc (hg.2.1 _ hc ?_) hres hserving
    cases hres with
    | ok hs hin hline => exact ⟨hs, hin, hline⟩
  | failed hc _ hres => exact h.failed hg.1 hc hres hserving

theorem Mirror.scanned {fresh : List PhysicalDisk} (h : Mirror s) (hg : ScanKeepsMounted s fresh)
    (hp : s.place = .refresh) :
    Mirror { s with
      menu := s.menu.publishDisks fresh (s.savedDiskIndex fresh), physDisks := fresh,
      physRestoreAttempted := true, place := .idle } := by
  have hmove : Mirror { s with place := .idle } :=
    h.move rfl rfl rfl (by rw [hp]; exact ⟨rfl, (nomatch ·), rfl⟩)
  refine { hmove with marked := fun i hi => ?_, asks := ?_ }
  · obtain ⟨d, fd, hcur, hd⟩ := h.marked i hi
    have hsame := hg i hi
    rw [hd] at hsame
    obtain ⟨d', hd', hname⟩ := Option.map_eq_some_iff.mp hsame
    exact ⟨d', fd, by rw [hname]; exact hcur, hd'⟩
  · exact hmove.asks.congr rfl rfl rfl fun _ hr => hr

theorem Works.mirror (hsane : Sane s) (h : Mirror s) (hg : MirrorHolds s (.work l))
    (hw : Works s l t) : Mirror t := by
  -- the run's condition spares the ejects
  have hspared : s.ejects → EjectSpared s.usb (s.faultsOn l) := hg.1.2.1
  cases hw with
  | reap hp => exact h.move rfl rfl rfl (by rw [hp]; exact ⟨rfl, id, rfl⟩)
  | begins hp => exact h.move rfl rfl rfl (by rw [hp]; exact ⟨rfl, id, rfl⟩)
  | @keeps pp pv k hp => exact h.move rfl rfl rfl (by rw [hp]; exact (k.carries_next pp pv).1)
  | @resets pp pv k q hp =>
    refine .of_none (h.asks.congr rfl rfl rfl ?_) rfl rfl rfl
    rw [hp]
    cases k <;> exact fun _ hr => hr
  | @captures pp pv k q hp => exact h.move rfl rfl rfl (by rw [hp]; exact (k.carries_next pp pv).2)
  | drains hp => exact h.drained hp
  | restarts hp => exact h.move rfl rfl rfl (by rw [hp]; exact ⟨rfl, id, rfl⟩)
  | restartsNot hp => exact h.move rfl rfl rfl (by rw [hp]; exact ⟨rfl, id, rfl⟩)
  | switches hp => exact h.move rfl rfl rfl (by rw [hp]; exact ⟨rfl, id, rfl⟩)
  | switchesNot hp => exact h.move rfl rfl rfl (by rw [hp]; exact ⟨rfl, id, rfl⟩)
  -- created, mounted or remounted
  | serves hserves hserved =>
    rcases Place.serves_cases hserves with ⟨req, hp, rfl⟩ | ⟨req, hp, rfl⟩ | ⟨hp, rfl⟩
    · exact hserved.mirror h hg (fun _ hr => by rw [hp]; exact hr)
        fun hc => h.create_skipped hsane hg.1 hp hc
    · exact hserved.mirror h hg (fun _ hr => nomatch hr) fun hc => h.mount_skipped hsane hp hc
    · exact hserved.mirror h hg (fun _ hr => nomatch hr)
        fun _ => h.move rfl rfl rfl (by rw [hp]; exact ⟨rfl, id, rfl⟩)
  | picks hp hserved =>
    have hmirror := hserved.mirror h hg (fun _ hr => nomatch hr)
      fun _ => h.move rfl rfl rfl (by rw [hp]; exact ⟨rfl, id, rfl⟩)
    exact hmirror.move rfl rfl rfl ⟨rfl, id, rfl⟩
  | ejects _ _ hdet => exact h.ejected hdet fun _ hr => nomatch hr
  | ejectFails hp hreq hdet =>
    -- a drive that is stuck is excluded
    exact absurd (hspared (by simpa [State.ejects, hp] using hreq)) (not_spared_of_stuck hdet)
  | ejectsNot hp => exact h.move rfl rfl rfl (by rw [hp]; exact ⟨rfl, id, rfl⟩)
  | polls hp => exact h.move rfl rfl rfl (by rw [hp]; exact ⟨rfl, id, rfl⟩)
  | acknowledges _ _ _ _ hdet => exact h.ejected hdet fun _ hr => nomatch hr
  | acknowledgeFails hp hline hfalse hdet =>
    exact absurd (hspared (by simp [State.ejects, hp, hline, hfalse])) (not_spared_of_stuck hdet)
  | scans hp hfresh => exact h.scanned (hg.2.2 hp _ hfresh) hp
  | scansNot hp => exact h.move rfl rfl rfl (by rw [hp]; exact ⟨rfl, (nomatch ·), rfl⟩)

/-! ### The menu and the API -/

/-- Asking for an image keeps the mirror, as long as the flag stays or its mount is coming. -/
theorem Mirror.asks_image {m : Menu} {path : String} (h : Mirror s)
    (hpm : m.physMountedIdx = s.menu.physMountedIdx) (himg : m.virtualImg = some path)
    (hwaits : m.imageWaits) (hmount : s.menu.mountReq → m.mountReq)
    (hset : m.virtualMounted = true → s.menu.virtualMounted = true)
    (hclear : s.menu.virtualMounted = true →
      m.virtualMounted = true ∨ { s with menu := m }.mountComes) :
    Mirror { s with menu := m } where
  virt hvm := h.virt (hset hvm)
  comes hcur := by
    rcases h.comes hcur with hvm | (hserving | ⟨hbefore, hreq⟩)
    · exact hclear hvm
    · exact .inr (.inl hserving)
    · exact .inr (.inr ⟨hbefore, hmount hreq⟩)
  image _ := .inl (.inl hwaits)
  marked := by
    show ∀ i ∈ m.physMountedIdx, _
    rw [hpm]
    exact h.marked
  unmarked := by
    show m.physMountedIdx = none → _
    rw [hpm]
    exact h.unmarked
  asks :=
    { selected := fun _ _ => .inl hwaits
      asked := fun _ => by
        show m.virtualImg ≠ none
        rw [himg]
        simp
      taken := h.asks.taken }

theorem Mirror.act {m : Menu} (h : Mirror s) (hg : MirrorHolds s e) (ha : s.menu.Acts e m) :
    Mirror { s with menu := m } := by
  cases ha with
  | create => exact h.asks_image rfl rfl (.inr rfl) id id .inl
  | mount => exact h.asks_image rfl rfl (.inl rfl) (fun _ => rfl) id .inl
  | attach hnot =>
    -- the API clears the flag: the mount comes in this tick
    refine h.asks_image rfl rfl (.inl rfl) (fun _ => rfl) (nomatch ·) fun hvm => .inr ?_
    rcases hg hvm fun himg => hnot ⟨hvm, himg⟩ with hbefore | (hserving | ⟨hbefore, -⟩)
    · exact .inr ⟨hbefore, rfl⟩
    · exact .inl hserving
    · exact .inr ⟨hbefore, rfl⟩
  | _ => exact { h with asks := { h.asks with } }

/-- **Step lemma.** -/
theorem Mirror.step (hsane : Sane s) (h : Mirror s) (hg : MirrorHolds s e)
    (hs : usbMachine.step s e = some t) : Mirror t := by
  cases steps hs with
  | works hw => exact hw.mirror hsane h hg
  | exits => exact { h with asks := { h.asks with } }
  | sends => exact { h with asks := { h.asks with } }
  | delivers => exact { h with asks := { h.asks with } }
  | acts ha => exact h.act hg ha

/-- The image that is marked as mounted is in the drive, or another one is asked for. -/
theorem Mirror.mounted (hsane : Sane s) (h : Mirror s) (hvm : s.menu.virtualMounted = true) :
    s.imageWaits ∨ ∃ path, s.menu.virtualImg = some path ∧ s.usb.drive = .image path := by
  refine (h.image hvm).imp_right fun himg => ?_
  obtain ⟨path, hdrive⟩ := (hsane.named _ (h.virt hvm)).image
  rw [hdrive] at himg
  obtain ⟨path', hpath, heq⟩ := Option.map_eq_some_iff.mp himg.symm
  obtain rfl := Content.image.inj heq
  exact ⟨path', hpath, hdrive⟩

/-- Where no mount is coming and none is being served, the menu shows the drive. -/
theorem Mirror.shows (hsane : Sane s) (h : Mirror s)
    (hcomes : s.usb.current = some .virtual → s.menu.virtualMounted = true)
    (himaging : s.place.imaging = false) : Shows s where
  virt := by
    constructor
    · exact h.virt
    · exact hcomes
  image hvm := by
    rcases h.mounted hsane hvm with (hw | hw) | himg
    · exact .inl hw
    · rw [himaging] at hw
      nomatch hw
    · exact .inr himg
  phys := by
    constructor
    · intro hpm
      obtain ⟨i, hi⟩ := Option.ne_none_iff_exists'.mp hpm
      obtain ⟨d, fd, hcur, -⟩ := h.marked i hi
      exact ⟨d.bsdName, fd, hcur⟩
    · rintro ⟨b, fd, hcur⟩ hpm
      exact h.unmarked hpm b fd hcur
  disk b fd hcur := by
    obtain ⟨i, hi⟩ := Option.ne_none_iff_exists'.mp fun hpm => h.unmarked hpm b fd hcur
    obtain ⟨d, fd', hcur', hd⟩ := h.marked i hi
    obtain ⟨rfl, rfl⟩ : b = d.bsdName ∧ fd = fd' := by
      simpa using hcur.symm.trans hcur'
    constructor
    · exact (hsane.named _ hcur).raw
    · rw [hi, hsane.published]
      simp [hd]

/-- The last step of a tick leaves a menu that shows the drive. -/
theorem Mirror.shows_at_end (hsane : Sane s) (h : Mirror s) (hg : MirrorHolds s (.work l))
    (hp : s.place = .refresh) : Shows (s.work l) := by
  have hstep : usbMachine.step s (.work l) = some (s.work l) := rfl
  have hcomes : s.usb.current = some .virtual → s.menu.virtualMounted = true := by
    intro hcur
    refine (h.comes hcur).resolve_right ?_
    rintro (⟨req, hr, -⟩ | ⟨hb, -⟩)
    · rw [hp] at hr
      nomatch hr
    · rw [hp] at hb
      nomatch hb
  have hmirror := h.step hsane hg hstep
  have hsane' := hsane.step hstep
  unfold State.work at hmirror hsane' ⊢
  rw [hp] at hmirror hsane' ⊢
  dsimp only at hmirror hsane' ⊢
  cases hscan : l.scan with
  | none =>
    rw [hscan] at hmirror hsane'
    exact hmirror.shows hsane' hcomes rfl
  | some fresh =>
    rw [hscan] at hmirror hsane'
    exact hmirror.shows hsane' hcomes rfl

/-- A reply that is asked for while no other image is picked is true. -/
theorem Mirror.reports (hsane : Sane s) (h : Mirror s) (hwaits : ¬ s.imageWaits) :
    ReportsTruly s := by
  unfold ReportsTruly Menu.mediaState
  cases hvm : s.menu.virtualMounted with
  | true =>
    obtain ⟨path, himg, hd⟩ := (h.mounted hsane hvm).resolve_left hwaits
    constructor
    · exact fun _ => ⟨path, hd⟩
    · intro p hp
      have hp : s.menu.virtualImg = some p := hp
      obtain rfl : path = p := Option.some.inj (himg.symm.trans hp)
      exact hd
  | false =>
    constructor
    · intro hatt
      simp only [Bool.false_eq_true, ↓reduceIte] at hatt
      split at hatt <;> nomatch hatt
    · intro p hp
      nomatch hp

end Steps

/-! ## Whole runs -/

theorem mirror_started (passesFds : Bool) (qemu : Qemu) (img savedPhysBsd : Option String) :
    Mirror (started passesFds qemu img savedPhysBsd) := by
  have hasks : Asks (started passesFds qemu img savedPhysBsd) := by
    refine ⟨fun _ hr => ?_, fun hw => ?_, fun _ hr => ?_⟩
    · nomatch hr
    · exact hw.elim (nomatch ·) (nomatch ·)
    · nomatch hr
  exact .of_none hasks rfl rfl rfl

/-- **Main theorem.**  In every run whose steps meet `MirrorHolds`, the menu shows at the end of
    every tick what is in the drive, and a `media` reply reports an image only if it is attached,
    unless another image has been picked and is not yet mounted. -/
theorem menu_shows_the_drive (passesFds : Bool) (qemu : Qemu) (img savedPhysBsd : Option String)
    {s : State}
    (hs : usbMachine.Reach MirrorHolds (started passesFds qemu img savedPhysBsd) s) :
    (∀ l, s.place = .refresh → MirrorHolds s (.work l) → Shows (s.work l)) ∧
      (¬ s.imageWaits → ReportsTruly s) := by
  have h0 : Sane (started passesFds qemu img savedPhysBsd) ∧
      Mirror (started passesFds qemu img savedPhysBsd) := ⟨sane_started .., mirror_started ..⟩
  have hinv : Sane s ∧ Mirror s := by
    refine hs.inv (I := fun s => Sane s ∧ Mirror s) h0 ?_
    rintro u e v ⟨hsane, hmirror⟩ hg hstep
    exact ⟨hsane.step hstep, hmirror.step hsane hg hstep⟩
  obtain ⟨hsane, hmirror⟩ := hinv
  exact ⟨fun _ hp hg => hmirror.shows_at_end hsane hg hp, hmirror.reports hsane⟩

/-- An image is mounted and replaced by another one: at the end of the tick the menu shows it. -/
theorem menu_shows_the_drive_after_a_change :
    ∃ s, usbMachine.Reach MirrorHolds (started false .running none none) s ∧
      s.usb.drive = .image "/sticks/b.img" ∧ Shows (s.work {}) ∧ ReportsTruly s := by
  obtain ⟨s, hs, hp⟩ := Reach.of_run_any (M := usbMachine) (G := MirrorHolds)
    (s := started false .running none none)
    (p := fun s => decide (s.usb.drive = .image "/sticks/b.img") && decide (s.place = .refresh) &&
      decide (MirrorHolds s (.work {})) && decide (¬ s.imageWaits))
    (.pickImage false "/sticks/a.img" :: ticks 11 ++ .apiAttach "/sticks/b.img" :: ticks 10)
    (by decide)
  simp only [Bool.and_eq_true, decide_eq_true_eq] at hp
  obtain ⟨⟨⟨hdrive, hplace⟩, hg⟩, hwaits⟩ := hp
  have hmain := menu_shows_the_drive false .running none none hs
  exact ⟨s, hs, hdrive, hmain.1 {} hplace hg, hmain.2 hwaits⟩

/-- **The defect.**  An image is mounted, and the swap to a second one fails after the
    first has been ejected: nothing is attached, and at the end of the tick the menu
    still has the flag set. -/
theorem failed_mount_stays_marked :
    ¬ ∀ s : State, usbMachine.Reach Free (started false .running none none) s →
      (∀ l, s.place = .refresh → Shows (s.work l)) ∧ ReportsTruly s := by
  intro hall
  obtain ⟨s, hs, hp⟩ := Reach.of_run_any (M := usbMachine) (G := Free)
    (s := started false .running none none)
    (p := fun s => decide (s.place = .refresh) &&
      decide ((s.work {}).menu.virtualMounted = true ∧ (s.work {}).usb.current = none))
    (.pickImage false "/sticks/a.img" :: ticks 11 ++ .pickImage false "/sticks/b.img" :: ticks 5 ++
      .work { faults := { change := .failed } } :: ticks 4)
    (by decide)
  simp only [Bool.and_eq_true, decide_eq_true_eq] at hp
  obtain ⟨hplace, hvm, hcur⟩ := hp
  have hvirt := ((hall s hs).1 {} hplace).virt.mp hvm
  rw [hcur] at hvirt
  nomatch hvirt

end CdjEmu.Usb
