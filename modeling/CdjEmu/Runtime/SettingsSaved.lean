/-
  WHAT THE MENU SHOWS AT QUIT, AND WHAT THE SLOT HOLDS THEN.

  A toggle changes the menu and raises a flag.  A tick takes the flags with the menu's values and
  writes them one after another; `shut_down` takes the flag of Enable Mods alone, and the window
  does the same when no worker is there.  So a setting toggled while a worker was alive is in one of
  three places: its flag is up, it is among the writes still to do, or the slot holds what the menu
  shows (`Settled`).

  Only the first can be left when the worker ends.  The exit test comes before the drain,
  `shut_down` takes one flag of six, QEMU stops after that, and the worker that finds a dead guest
  on quitting takes none: a flag that is up when the worker ends is the loss, and there is no other.

  1. **Program** — the six settings of the menu with their flags, the tick that takes the flags and
     writes the values, and `shut_down`; a worker may end at its exit test or after a dead guest,
     and another may be started.

  2. **Specification** — what the slot holds at quit is what the menu shows, setting by setting, for
     every setting toggled while a worker was alive.

  3. **The bridge** — `Settled` is an invariant of every run; the condition on the run removes its
     first case at the one moment that counts.
-/
import CdjEmu.Runtime.WorkerTick

namespace CdjEmu.Runtime

open Machine State

/-! ## Writes -/

theorem Values.set_apply (vs : Values) (x y : Setting) (v : Val) :
    vs.set x v y = if y = x then v else vs y := rfl

@[simp] theorem Values.setAll_nil (vs : Values) : vs.setAll [] = vs := rfl

@[simp] theorem Values.setAll_cons (vs : Values) (w : Setting × Val) (todo : List (Setting × Val)) :
    vs.setAll (w :: todo) = (vs.set w.1 w.2).setAll todo := rfl

/-- Taking the flags of `xs` and writing them gives each flagged setting of
    `xs` the menu's value. -/
theorem setAll_taken (s : State) (xs : List Setting) (vs : Values) (x : Setting) :
    vs.setAll (s.taken xs) x = if x ∈ xs ∧ s.toggleRequested x = true then s.menu x else vs x := by
  induction xs generalizing vs with
  | nil => simp [taken]
  | cons y xs ih =>
    by_cases hy : s.toggleRequested y = true
    · have hcons : s.taken (y :: xs) = (y, s.menu y) :: s.taken xs := by simp [taken, hy]
      rw [hcons, Values.setAll_cons, ih, Values.set_apply]
      by_cases hxy : x = y
      · subst hxy
        simp [hy]
      · simp [hxy]
    · have hskip : s.taken (y :: xs) = s.taken xs := by simp [taken, hy]
      rw [hskip, ih]
      by_cases hxy : x = y
      · subst hxy
        simp [hy]
      · simp [hxy]

/-! ## The invariant -/

/-- The writes the worker still has to do. -/
def Place.todo : Place → List (Setting × Val)
  | .leaveSave todo | .persist todo _ _ => todo
  | _ => []

/-- A setting toggled while a worker was alive is flagged, or shows in the slot
    after the writes to come. -/
def Settled (s : State) : Prop :=
  ∀ x, s.toggled x = true → s.toggleRequested x = true ∨ s.saved.setAll s.place.todo x = s.menu x

/-- The slot holds what the menu showed. -/
def Snapshot.Saved (q : Snapshot) : Prop := ∀ x, q.toggled x = true → q.saved x = q.menu x

/-- The worker's next step is its last, after `APP_SHUTDOWN`. -/
def State.quits (s : State) : Bool :=
  s.appShutdown &&
    match s.place with
    | .leaveStop | .reaped => true
    | _ => false

/-- No flag is up, of a setting toggled while a worker was alive, when the worker ends after
    `APP_SHUTDOWN`. -/
def NoneFlagged (s : State) : Event → Prop
  | .work _ => s.quits = true → ∀ x, s.toggled x = true → s.toggleRequested x = false
  | _ => True

structure Kept (s : State) : Prop where
  settled : Settled s
  quit : ∀ q, s.quit = some q → q.Saved

theorem kept_init (menu saved : Values) (iface : Option Nat) : Kept (State.init menu saved iface) :=
  ⟨fun _ hx => (by cases hx), fun _ hq => (by cases hq)⟩

/-! ## Steps that save nothing -/

/-- What a step that saves nothing leaves alone. -/
structure SameSettings (s t : State) : Prop where
  menu : t.menu = s.menu
  saved : t.saved = s.saved
  flags : t.toggleRequested = s.toggleRequested
  toggled : t.toggled = s.toggled
  quit : t.quit = s.quit
  todo : t.place.todo = s.place.todo

theorem Kept.same {s t : State} (h : Kept s) (f : SameSettings s t) : Kept t := by
  constructor
  · unfold Settled
    rw [f.menu, f.saved, f.flags, f.toggled, f.todo]
    exact h.settled
  · rw [f.quit]
    exact h.quit

theorem sameSettings_restartForMods (s : State) : SameSettings s s.restartForMods.2 := by
  unfold restartForMods
  dsimp only
  (repeat' split) <;> constructor <;> rfl

theorem sameSettings_launch {s : State} (hgone : s.place = .gone) (luck : Luck) :
    SameSettings s (s.launch luck) := by
  constructor <;> simp [launch, hgone, Place.todo]

/-! ## A toggle, and the flags taken -/

theorem Kept.choose {s : State} (h : Kept s) (x : Setting) (v : Val) : Kept (s.choose x v) := by
  refine ⟨fun y hy => ?_, h.quit⟩
  by_cases hyx : y = x
  · exact .inl (by simp [State.choose, hyx])
  · have hold : s.toggled y = true := by simpa [State.choose, hyx] using hy
    rcases h.settled y hold with hflag | hval
    · exact .inl (by simp [State.choose, hflag])
    · refine .inr ?_
      show s.saved.setAll s.place.todo y = s.menu.set x v y
      rw [hval, Values.set_apply, if_neg hyx]

theorem Kept.toggle {s : State} (h : Kept s) (x : Setting) : Kept (s.toggle x) := by
  have hc := h.choose x (s.menu x).flip
  unfold State.toggle
  cases x with
  | audio => exact ⟨hc.settled, hc.quit⟩
  | mods =>
    dsimp only
    split
    · exact ⟨hc.settled, hc.quit⟩
    · exact hc
  | device | alc | haptic | pcLink => exact hc

theorem Kept.selectDevice {s : State} (h : Kept s) (uid : Option String) :
    Kept (s.selectDevice uid) := by
  have hc := h.choose .device (.uid uid)
  unfold State.selectDevice
  split
  · exact h
  · exact ⟨hc.settled, hc.quit⟩

/-- What the flags of `xs` held is in the writes: no setting is lost when they are taken. -/
theorem settled_taken {s : State} (h : Settled s) (htodo : s.place.todo = []) (xs : List Setting)
    (x : Setting) (hx : s.toggled x = true) :
    (s.untoggle xs).toggleRequested x = true ∨ s.saved.setAll (s.taken xs) x = s.menu x := by
  rw [setAll_taken]
  by_cases hflag : s.toggleRequested x = true
  · by_cases hmem : x ∈ xs
    · exact .inr (by rw [if_pos ⟨hmem, hflag⟩])
    · exact .inl (by simp [untoggle, hflag, hmem])
  · refine .inr ?_
    rw [if_neg fun hc => hflag hc.2]
    have hval := (h x hx).resolve_left hflag
    rwa [htodo] at hval

/-- The worker's last step takes the menu and the slot as they are. -/
theorem Kept.finish {s : State} (h : Kept s) (htodo : s.place.todo = [])
    (hflags : s.appShutdown = true → ∀ x, s.toggled x = true → s.toggleRequested x = false) :
    Kept s.finish := by
  have hsettled : ∀ x, s.toggled x = true → s.toggleRequested x = true ∨ s.saved x = s.menu x := by
    intro x hx
    have hval := h.settled x hx
    rwa [htodo] at hval
  refine ⟨hsettled, fun q hq => ?_⟩
  by_cases hdown : s.appShutdown = true
  · simp only [State.finish, hdown, if_true, Option.some.injEq] at hq
    subst hq
    intro x hx
    refine (hsettled x hx).resolve_left ?_
    rw [hflags hdown x hx]
    simp
  · simp only [State.finish, hdown] at hq
    exact h.quit q hq

/-! ## The worker's steps -/

theorem Kept.work {s t : State} {luck : Luck} (h : Kept s) (hg : NoneFlagged s (.work luck))
    (hw : s.work luck = some t) : Kept t := by
  -- what has been taken and not saved yet counts as settled
  cases hp : s.place <;> rw [State.work, hp] at hw <;> dsimp only at hw
  case gone => cases hw
  case leave =>
    cases hw
    exact ⟨fun x hx => settled_taken h.settled (by rw [hp]; rfl) _ x hx, h.quit⟩
  case drain =>
    cases hw
    exact ⟨fun x hx => settled_taken h.settled (by rw [hp]; rfl) _ x hx, h.quit⟩
  case leaveSave todo =>
    have hsettled := h.settled
    unfold Settled at hsettled
    rw [hp] at hsettled
    cases todo <;> (cases hw; exact ⟨hsettled, h.quit⟩)
  case persist todo restart iface =>
    have hsettled := h.settled
    unfold Settled at hsettled
    rw [hp] at hsettled
    cases todo <;> (cases hw; exact ⟨hsettled, h.quit⟩)
  case leaveStop =>
    cases hw
    -- the worker quits here, so by the condition no flag is up
    have hflags : s.appShutdown = true → ∀ x, s.toggled x = true → s.toggleRequested x = false :=
      fun hdown => hg (by simp [State.quits, hdown, hp])
    have hstopped :
        Kept { s with qemu := .none, qemuRunning := false, restartRequested := false } :=
      h.same ⟨rfl, rfl, rfl, rfl, rfl, rfl⟩
    exact hstopped.finish (by rw [hp]; rfl) hflags
  case reaped =>
    split at hw
    · cases hw
      have hflags : s.appShutdown = true → ∀ x, s.toggled x = true → s.toggleRequested x = false :=
        fun hdown => hg (by simp [State.quits, hdown, hp])
      have hstopped : Kept { s with qemuRespawning := false } :=
        h.same ⟨rfl, rfl, rfl, rfl, rfl, rfl⟩
      exact hstopped.finish (by rw [hp]; rfl) hflags
    · cases hw
      exact h.same ⟨rfl, rfl, rfl, rfl, rfl, by rw [hp]; rfl⟩
  case exitTest retire =>
    cases hw
    refine h.same ⟨rfl, rfl, rfl, rfl, rfl, ?_⟩
    rw [hp]
    dsimp only
    split <;> rfl
  case start c n =>
    cases hw
    refine h.same ?_
    unfold startFor
    cases c <;> dsimp only <;> (repeat' split) <;>
      exact ⟨rfl, rfl, rfl, rfl, rfl, by rw [hp]; rfl⟩
  case started c =>
    cases hw
    exact h.same ⟨rfl, rfl, rfl, rfl, rfl, by rw [hp]; cases c <;> rfl⟩
  all_goals
    (repeat' split at hw) <;> cases hw <;> exact h.same ⟨rfl, rfl, rfl, rfl, rfl, by rw [hp]; rfl⟩

theorem kept_step {s t : State} {a : Event} (h : Kept s) (hg : NoneFlagged s a)
    (hs : worker.step s a = some t) : Kept t := by
  -- a worker that is gone saves nothing more; the window then does
  cases a with
  | work luck => exact h.work hg hs
  | restartForMods =>
    cases hs
    exact h.same (sameSettings_restartForMods s)
  | toggle x =>
    cases hs
    exact h.toggle x
  | selectDevice uid =>
    cases hs
    exact h.selectDevice uid
  | saveModsToggle =>
    simp only [worker] at hs
    split at hs
    · cases hs
    · rename_i hgone
      cases hs
      -- no worker, so nothing is left to save on its side
      have htodo : s.place.todo = [] := by
        cases hp : s.place <;> simp [alive, hp] at hgone
        rfl
      refine ⟨fun x hx => ?_, h.quit⟩
      show _ ∨ (s.saved.setAll (s.taken [.mods])).setAll s.place.todo x = s.menu x
      rw [htodo]
      exact settled_taken h.settled htodo _ x hx
  | launch luck =>
    simp only [worker] at hs
    split at hs
    · cases hs
    · rename_i hgone
      cases hs
      refine h.same (sameSettings_launch ?_ luck)
      cases hp : s.place <;> simp [alive, hp] at hgone
      rfl
  | guestExits | stopEmulation | reapWorker =>
    simp only [worker] at hs
    split at hs
    all_goals first | (cases hs; done) | (cases hs; exact h.same ⟨rfl, rfl, rfl, rfl, rfl, rfl⟩)
  | restartMenu | selectInterface | view | shade | install | quit | cfgdHeard | cfgdLost =>
    cases hs
    exact h.same ⟨rfl, rfl, rfl, rfl, rfl, rfl⟩

/-! ## At quit -/

/-- In every run in which the worker, whenever it ends after `APP_SHUTDOWN`, ends with no
    flag up of a setting toggled while a worker was alive: the slot then holds what the menu
    shows, setting by setting. -/
theorem saved_at_quit {menu saved : Values} {iface : Option Nat} {s : State}
    (h : worker.Reach NoneFlagged (State.init menu saved iface) s) :
    ∀ q, s.quit = some q → q.Saved :=
  (h.inv (kept_init menu saved iface) fun _ _ _ hk hg hs => kept_step hk hg hs).quit

/-- A worker's whole last tick, from its start to the end of its thread. -/
def lastTick : List Event := List.replicate 6 (.work {})

/-- Enable Audio is toggled, then the user quits: the tick that finds `APP_SHUTDOWN` looks at no
    flag but that of Enable Mods, and the toggle is lost. -/
theorem audio_toggle_lost_at_quit : ¬ ∀ menu saved iface s,
    worker.Reach Free (State.init menu saved iface) s → ∀ q, s.quit = some q → q.Saved := by
  intro hall
  obtain ⟨s, hreach, hlost⟩ :=
    Reach.of_run_any (M := worker) (G := Free) (s := State.init allOff allOff none)
    (p := fun t => t.quit.any fun q => q.toggled .audio && q.saved .audio ≠ q.menu .audio)
    ([.launch {}, .work {}, .toggle .audio, .quit] ++ lastTick) (by decide)
  cases hq : s.quit with
  | none =>
    rw [hq] at hlost
    cases hlost
  | some q =>
    rw [hq] at hlost
    simp only [Option.any_some, Bool.and_eq_true, decide_eq_true_eq] at hlost
    exact hlost.2 (hall allOff allOff none s hreach q hq .audio hlost.1)

instance (s : State) (a : Event) : Decidable (NoneFlagged s a) :=
  match a with
  | .work _ =>
    decidable_of_iff
      (s.quits = false ∨ ∀ x ∈ Setting.all, s.toggled x = true → s.toggleRequested x = false) <| by
      simp only [NoneFlagged, Setting.mem_all, true_implies]
      cases s.quits <;> simp
  | .restartForMods | .restartMenu | .toggle _ | .selectDevice _ | .selectInterface _ | .view _
  | .shade
  | .stopEmulation | .reapWorker | .saveModsToggle | .launch _ | .install _ | .quit | .guestExits
  | .cfgdHeard | .cfgdLost => .isTrue trivial

/-- Enable Audio is toggled and a tick drains and saves it, with the restart it asks for; then the
    user quits, and the slot holds what the menu shows. -/
theorem audio_toggle_saved_at_quit :
    ∃ s q, worker.Reach NoneFlagged (State.init allOff allOff none) s ∧
    s.quit = some q ∧ q.toggled .audio = true ∧ q.saved .audio = q.menu .audio := by
  obtain ⟨s, hreach, hquit⟩ :=
    Reach.of_run_any (M := worker) (G := NoneFlagged) (s := State.init allOff allOff none)
    (p := fun t => t.quit.any fun q => q.toggled .audio)
    ([.launch {}, .work {}, .toggle .audio] ++ List.replicate 16 (.work {}) ++ [.quit] ++ lastTick)
      (by decide)
  cases hq : s.quit with
  | none =>
    rw [hq] at hquit
    cases hquit
  | some q =>
    rw [hq] at hquit
    exact ⟨s, q, hreach, hq, hquit, saved_at_quit hreach q hq .audio hquit⟩

end CdjEmu.Runtime
