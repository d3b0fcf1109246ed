/-
  AN ACCEPTED MODS RESTART IS NOT FORGOTTEN — whatever the window, the guest and the menu do
  meanwhile.

  A request counts up `mods_restart_seq`; a start of QEMU copies the count and reads the mods only
  then. So outside such a start the copy is at most what the running QEMU's mods account for
  (`fresh`), and the two counts differ whenever a request came too late to be read.  The tick that
  finds them different, with cfgd heard, requests a restart itself, drains it and restarts.

  `Inv` holds along every run in which starts of QEMU succeed and the worker is not retired.  `Owes`
  follows one tick from its start: either QEMU has been started since, with mods read after the
  start of the tick, or the tick is on its way there (`Place.owes`), and the way ends at a restart.
  A tick ends because every step of the worker takes it further (`Place.rank`), and nobody else
  moves the worker.

  1. **Program** — the worker's tick of `Runtime/WorkerTick` step by step, with the window, the
     guest and the menu in between; a start of QEMU may fail and a worker may be retired, and then
     the condition of the result does not hold.

  2. **Specification** — at the start of a tick with QEMU there and cfgd heard, the mods that QEMU
     runs with were read after the last accepted request, or that tick restarts QEMU; and a request
     is accepted only while QEMU is there, or a restart is pending or under way.

  3. **The bridge** — `Owes` is carried along one tick by `work_counts` and the frame of all other
     steps; from any reachable state a tick that ends has restarted or had nothing to restart for,
     and a tick always ends.
-/
import CdjEmu.Runtime.WorkerTick

namespace CdjEmu.Runtime

open Machine State

/-! ## What the others do -/

/-- What every step but the worker's own and a launch leaves alone, as far as restarts go. -/
structure Frame (s t : State) : Prop where
  place : t.place = s.place
  qemu : t.qemu = .none ↔ s.qemu = .none
  running : t.qemuRunning = s.qemuRunning
  respawning : t.qemuRespawning = s.qemuRespawning
  booted : t.modsRestartSeqBooted = s.modsRestartSeqBooted
  asOf : t.asOf = s.asOf
  starts : t.starts = s.starts
  seq : s.modsRestartSeq ≤ t.modsRestartSeq
  restart : s.restartRequested = true → t.restartRequested = true

theorem Frame.refl (s : State) : Frame s s := by
  constructor <;> simp

theorem frame_restartForMods (s : State) : Frame s s.restartForMods.2 := by
  unfold restartForMods
  split
  · exact .refl s
  · split
    · exact .refl s
    · split
      · exact .refl s
      · dsimp only
        split <;> constructor <;> simp

theorem frame_choose (s : State) (x : Setting) (v : Val) : Frame s (s.choose x v) := by
  constructor <;> simp [choose]

theorem frame_toggle (s : State) (x : Setting) : Frame s (s.toggle x) := by
  have hc := frame_choose s x (s.menu x).flip
  unfold toggle
  cases x with
  | audio => exact { hc with }
  | mods =>
    dsimp only
    split
    · exact { hc with restart := fun _ => rfl }
    · exact hc
  | device | alc | haptic | pcLink => exact hc

theorem frame_selectDevice (s : State) (uid : Option String) : Frame s (s.selectDevice uid) := by
  have hc := frame_choose s .device (.uid uid)
  unfold selectDevice
  split
  · exact .refl s
  · exact { hc with }

/-- Whether the event is the worker's own step or a launch. -/
def Event.moves : Event → Bool
  | .work _ | .launch _ => true
  | _ => false

/-- Nobody but the worker and a launch moves the worker. -/
theorem frame_step {s t : State} {a : Event} (ha : a.moves = false) (h : worker.step s a = some t) :
    Frame s t := by
  cases a with
  | work luck => cases ha
  | launch luck => cases ha
  | restartForMods =>
    cases h
    exact frame_restartForMods s
  | toggle x =>
    cases h
    exact frame_toggle s x
  | selectDevice uid =>
    cases h
    exact frame_selectDevice s uid
  | guestExits =>
    simp only [worker] at h
    split at h
    · rename_i hq
      cases h
      constructor <;> simp [hq]
    · cases h
  | stopEmulation | reapWorker | saveModsToggle =>
    simp only [worker] at h
    split at h
    all_goals first | (cases h; done) | (cases h; constructor <;> simp [untoggle])
  | restartMenu | selectInterface | view | shade | install | quit | cfgdHeard | cfgdLost =>
    cases h
    constructor <;> simp [selectInterface]

/-! ## The invariant -/

/-- The places at which a start of QEMU, the one for the network apart, is under way. -/
def Place.respawns : Place → Bool
  | .reaped => true
  | .record c | .readMods c | .start c _ | .started c =>
    match c with
    | .network => false
    | _ => true
  | _ => false

/-- The places at which QEMU has been stopped and not started again. -/
def Place.down : Place → Bool
  | .gone | .reaping | .reaped | .restarting _ => true
  | .record c | .readMods c | .start c _ =>
    match c with
    | .network => false
    | _ => true
  | _ => false

/-- The places at which the count has been copied for a QEMU that does not run yet. -/
def Place.copied : Place → Bool
  | .readMods _ | .start _ _ => true
  | _ => false

/-- The places at which QEMU has been stopped and the menu does not say so yet. -/
def Place.stopping : Place → Bool
  | .reaping | .restarting _ => true
  | _ => false

/-- What holds along every run in which starts succeed and the worker is not retired. -/
structure Inv (s : State) : Prop where
  booted_le : s.modsRestartSeqBooted ≤ s.modsRestartSeq
  asOf_le : s.asOf ≤ s.modsRestartSeq
  /-- The running QEMU's mods account for the requests that were copied. -/
  fresh : s.qemu ≠ .none → s.place.copied = false → s.modsRestartSeqBooted ≤ s.asOf
  read_le : ∀ c n, s.place = .start c n → s.modsRestartSeqBooted ≤ n ∧ n ≤ s.modsRestartSeq
  down : s.place.down = true → s.qemu = .none
  running : s.qemuRunning = true → s.qemu ≠ .none ∨ s.place.stopping = true
  shown : s.qemu ≠ .none → s.place = .new ∨ s.qemuRunning = true
  respawning : s.qemuRespawning = true → s.place.respawns = true

/-- Starts of QEMU succeed, and the worker does not end. -/
def NotRetired (s : State) : Event → Prop
  | .work luck => luck.start = true ∧
      (∀ retire, s.place = .exitTest retire → ¬ s.appShutdown ∧ ¬ retire) ∧
      (s.place = .reaped → ¬ s.appShutdown)
  | .launch luck => luck.start = true
  | _ => True

theorem inv_init (menu saved : Values) (iface : Option Nat) :
    Inv (State.init menu saved iface) := by
  constructor <;> simp [State.init, Place.copied, Place.down, Place.stopping, Place.respawns]

theorem Inv.frame {s t : State} (h : Inv s) (f : Frame s t) : Inv t := by
  have hseq := f.seq
  have hb := h.booted_le
  have ha := h.asOf_le
  refine ⟨?_, ?_, ?_, ?_, ?_, ?_, ?_, ?_⟩
  · rw [f.booted]
    omega
  · rw [f.asOf]
    omega
  · rw [f.place, f.booted, f.asOf, Ne, f.qemu]
    exact h.fresh
  · intro c n hp
    rw [f.place] at hp
    have := h.read_le c n hp
    rw [f.booted]
    omega
  · rw [f.place, f.qemu]
    exact h.down
  · rw [f.running, f.place, Ne, f.qemu]
    exact h.running
  · rw [f.place, f.running, Ne, f.qemu]
    exact h.shown
  · rw [f.respawning, f.place]
    exact h.respawning

theorem inv_launch {s : State} (h : Inv s) (hg : s.place = .gone) {luck : Luck}
    (hl : luck.start = true) :
    Inv (s.launch luck) := by
  have hr := h.respawning
  have hq := h.down
  have hrun := h.running
  rw [hg] at hr hq hrun
  constructor <;> simp_all [State.launch, Place.copied, Place.down, Place.stopping, Place.respawns]

/-- The step changes nothing that a restart depends on. -/
structure Quiet (s t : State) : Prop where
  qemu : t.qemu = s.qemu
  running : t.qemuRunning = s.qemuRunning
  respawning : t.qemuRespawning = s.qemuRespawning
  seq : t.modsRestartSeq = s.modsRestartSeq
  booted : t.modsRestartSeqBooted = s.modsRestartSeqBooted
  asOf : t.asOf = s.asOf
  starts : t.starts = s.starts

/-- The places of a tick at which no start of QEMU is under way. -/
def Place.calm : Place → Bool
  | .gone | .new | .reaping | .reaped | .restarting _ => false
  | .record c | .started c =>
    match c with
    | .network => true
    | _ => false
  | .readMods _ | .start _ _ => false
  | _ => true

theorem Place.calm_spec {p : Place} (h : p.calm = true) : p.copied = false ∧ p.down = false ∧
    p.stopping = false ∧ p.respawns = false ∧ p ≠ .new ∧ ∀ c n, p ≠ .start c n := by
  cases p with
  | gone | new | reaping | reaped | restarting | readMods | start => cases h
  | record c | started c =>
    cases c with
    | guestExit | restart => cases h
    | network => simp [copied, down, stopping, respawns]
  | _ => simp [copied, down, stopping, respawns]

theorem Inv.calm {s t : State} (h : Inv s) (hs : s.place.calm = true) (ht : t.place.calm = true)
    (q : Quiet s t) : Inv t := by
  obtain ⟨hsc, hsd, hss, hsr, hsn, -⟩ := Place.calm_spec hs
  obtain ⟨htc, htd, hts, htr, -, htstart⟩ := Place.calm_spec ht
  refine ⟨?_, ?_, ?_, ?_, ?_, ?_, ?_, ?_⟩
  · rw [q.booted, q.seq]
    exact h.booted_le
  · rw [q.asOf, q.seq]
    exact h.asOf_le
  · rw [q.booted, q.asOf, q.qemu]
    exact fun hq _ => h.fresh hq hsc
  · exact fun c n hp => absurd hp (htstart c n)
  · rw [htd]
    exact fun hd => by cases hd
  · rw [q.running, q.qemu, hts, ← hss]
    exact h.running
  · rw [q.qemu, q.running]
    exact fun hq => .inr ((h.shown hq).resolve_left hsn)
  · rw [q.respawning, htr, ← hsr]
    exact h.respawning

/-- A start of QEMU for a guest that has exited or a restart. -/
def Cause.respawns : Cause → Bool
  | .network => false
  | _ => true

theorem inv_record {s : State} {c : Cause} (h : Inv s) (hp : s.place = .record c) :
    Inv { s with modsRestartSeqBooted := s.modsRestartSeq, place := .readMods c } := by
  obtain ⟨-, ha, -, -, hd, hrun, hs, hresp⟩ := h
  rw [hp] at hd hrun hs hresp
  cases c <;> exact ⟨le_refl _, ha, fun _ hc => (by cases hc), fun _ _ hp => (by cases hp),
    hd, hrun, fun hq => .inr ((hs hq).resolve_left (by simp)), hresp⟩

theorem inv_readMods {s : State} {c : Cause} (h : Inv s) (hp : s.place = .readMods c) :
    Inv { s with place := .start c s.modsRestartSeq } := by
  obtain ⟨hb, ha, -, -, hd, hrun, hs, hresp⟩ := h
  rw [hp] at hd hrun hs hresp
  refine ⟨hb, ha, fun _ hc => (by cases hc), ?_, ?_, ?_,
    fun hq => .inr ((hs hq).resolve_left (by simp)), ?_⟩
  · intro c' n hn
    cases hn
    exact ⟨hb, le_refl _⟩
  · cases c <;> exact hd
  · cases c <;> exact hrun
  · cases c <;> exact hresp

theorem inv_start {s : State} {luck : Luck} {c : Cause} {n : Nat} (h : Inv s)
    (hl : luck.start = true) (hp : s.place = .start c n) : Inv (s.startFor luck c n) := by
  obtain ⟨hb, ha, -, hr, hd, hrun, hs, hresp⟩ := h
  obtain ⟨hn, hn'⟩ := hr c n hp
  rw [hp] at hd hrun hs hresp
  cases c with
  | guestExit | restart =>
    simp only [startFor, hl, if_true, startQemu]
    exact ⟨hb, hn', fun _ _ => hn, fun _ _ hp => (by cases hp), fun hd => (by cases hd),
      fun _ => .inl (by simp), fun _ => .inr rfl, fun _ => rfl⟩
  | network =>
    simp only [startFor, hl, if_true]
    split
    · rename_i hq
      exact ⟨hb, ha, fun hne => absurd hq hne, fun _ _ hp => (by cases hp),
        fun hd => (by cases hd), hrun, fun hne => absurd hq hne, hresp⟩
    · rename_i hq
      exact ⟨hb, hn', fun _ _ => hn, fun _ _ hp => (by cases hp), fun hd => (by cases hd),
        fun _ => .inl (by simp [startQemu]), fun _ => .inr ((hs hq).resolve_left (by simp)), hresp⟩

theorem inv_work {s t : State} {luck : Luck} (h : Inv s) (hg : NotRetired s (.work luck))
    (hw : s.work luck = some t) : Inv t := by
  have hcalm : ∀ u : State, s.place.calm = true → u.place.calm = true → Quiet s u → Inv u :=
    fun u => h.calm
  obtain ⟨hluck, hexit, hreap⟩ := hg
  -- the places where nothing changes but the place are calm; the others have their own case
  cases hp : s.place with
  | gone =>
    rw [work, hp] at hw
    cases hw
  | new =>
    rw [work, hp] at hw
    cases hw
    have hresp := h.respawning
    rw [hp] at hresp
    -- a new worker sees from QEMU itself whether it runs
    exact ⟨h.booted_le, h.asOf_le, fun hq _ => h.fresh hq (by rw [hp]; rfl),
      fun _ _ hp => (by cases hp), fun hd => (by cases hd),
      fun hrun => .inl (of_decide_eq_true hrun),
      fun hq => .inr (decide_eq_true hq), hresp⟩
  | record c =>
    rw [work, hp] at hw
    cases hw
    exact inv_record h hp
  | readMods c =>
    rw [work, hp] at hw
    cases hw
    exact inv_readMods h hp
  | start c n =>
    rw [work, hp] at hw
    cases hw
    exact inv_start h hluck hp
  | top =>
    rw [work, hp] at hw
    cases hw
    exact hcalm _ (by rw [hp]; rfl) rfl ⟨rfl, rfl, rfl, rfl, rfl, rfl, rfl⟩
  | restartDue retire =>
    rw [work, hp] at hw
    dsimp only at hw
    split at hw
    · cases hw
      exact hcalm _ (by rw [hp]; rfl) rfl ⟨rfl, rfl, rfl, rfl, rfl, rfl, rfl⟩
    · cases hw
      exact hcalm _ (by rw [hp]; rfl) rfl ⟨rfl, rfl, rfl, rfl, rfl, rfl, rfl⟩
  | handOver =>
    rw [work, hp] at hw
    cases hw
    exact hcalm _ (by rw [hp]; rfl) rfl ⟨rfl, rfl, rfl, rfl, rfl, rfl, rfl⟩
  | exitTest retire =>
    rw [work, hp] at hw
    cases hw
    -- the run's guard keeps the worker at this exit test
    obtain ⟨hquit, hretire⟩ := hexit retire hp
    have hstay : ¬ (s.appShutdown = true ∨ retire = true) := fun h => h.elim hquit hretire
    rw [if_neg hstay]
    exact hcalm _ (by rw [hp]; rfl) rfl ⟨rfl, rfl, rfl, rfl, rfl, rfl, rfl⟩
  | leave =>
    rw [work, hp] at hw
    cases hw
    exact hcalm _ (by rw [hp]; rfl) rfl ⟨rfl, rfl, rfl, rfl, rfl, rfl, rfl⟩
  | leaveSave todo =>
    rw [work, hp] at hw
    cases todo with
    | nil =>
      cases hw
      exact hcalm _ (by rw [hp]; rfl) rfl ⟨rfl, rfl, rfl, rfl, rfl, rfl, rfl⟩
    | cons w todo =>
      cases hw
      exact hcalm _ (by rw [hp]; rfl) rfl ⟨rfl, rfl, rfl, rfl, rfl, rfl, rfl⟩
  | leaveStop =>
    rw [work, hp] at hw
    cases hw
    have hresp := h.respawning
    rw [hp] at hresp
    -- QEMU is stopped, so the booted count binds no more
    exact ⟨h.booted_le, h.asOf_le, fun hq => absurd rfl hq, fun _ _ hp => (by cases hp),
      fun _ => rfl, fun hrun => (by cases hrun), fun hq => absurd rfl hq, hresp⟩
  | guestTest =>
    rw [work, hp] at hw
    dsimp only at hw
    split at hw
    · rename_i hq
      cases hw
      -- the guest has powered off, which is the same
      have hresp := h.respawning
      rw [hp] at hresp
      exact ⟨h.booted_le, h.asOf_le, fun hq => absurd rfl hq, fun _ _ hp => (by cases hp),
        fun _ => rfl, fun _ => .inr rfl, fun hq => absurd rfl hq, hresp⟩
    · cases hw
      exact hcalm _ (by rw [hp]; rfl) rfl ⟨rfl, rfl, rfl, rfl, rfl, rfl, rfl⟩
  | reaping =>
    rw [work, hp] at hw
    cases hw
    -- QEMU was down before; the respawn is what is left to do
    have hq : s.qemu = .none := h.down (by rw [hp]; rfl)
    exact ⟨h.booted_le, h.asOf_le, fun hne => absurd hq hne, fun _ _ hp => (by cases hp),
      fun _ => hq, fun hrun => (by cases hrun), fun hne => absurd hq hne, fun _ => rfl⟩
  | reaped =>
    rw [work, hp] at hw
    dsimp only at hw
    -- within the guard the reap does not give up
    rw [if_neg (hreap hp)] at hw
    cases hw
    have hq : s.qemu = .none := h.down (by rw [hp]; rfl)
    have hrun := h.running
    rw [hp] at hrun
    exact ⟨h.booted_le, h.asOf_le, fun hne => absurd hq hne, fun _ _ hp => (by cases hp),
      fun _ => hq, hrun, fun hne => absurd hq hne, fun _ => rfl⟩
  | started c =>
    rw [work, hp] at hw
    cases hw
    -- a QEMU that is up has been shown as running
    have hs : s.qemu ≠ .none → s.qemuRunning = true :=
      fun hq => (h.shown hq).resolve_left (by simp [hp])
    have hrun := h.running
    rw [hp] at hrun
    have hfresh : s.qemu ≠ .none → s.modsRestartSeqBooted ≤ s.asOf :=
      fun hq => h.fresh hq (by rw [hp]; rfl)
    -- where the tick goes on depends on why QEMU was started
    cases c <;> exact ⟨h.booted_le, h.asOf_le, fun hq _ => hfresh hq, fun _ _ hp => (by cases hp),
      fun hd => (by cases hd), hrun, fun hq => .inr (hs hq), fun hresp => (by cases hresp)⟩
  | modsCheck =>
    rw [work, hp] at hw
    dsimp only at hw
    split at hw
    · cases hw
      exact hcalm _ (by rw [hp]; rfl) rfl ⟨rfl, rfl, rfl, rfl, rfl, rfl, rfl⟩
    · cases hw
      exact hcalm _ (by rw [hp]; rfl) rfl ⟨rfl, rfl, rfl, rfl, rfl, rfl, rfl⟩
  | drain =>
    rw [work, hp] at hw
    cases hw
    exact hcalm _ (by rw [hp]; rfl) rfl ⟨rfl, rfl, rfl, rfl, rfl, rfl, rfl⟩
  | persist todo restart iface =>
    rw [work, hp] at hw
    cases todo with
    | nil =>
      cases hw
      exact hcalm _ (by rw [hp]; rfl) rfl ⟨rfl, rfl, rfl, rfl, rfl, rfl, rfl⟩
    | cons w todo =>
      cases hw
      exact hcalm _ (by rw [hp]; rfl) rfl ⟨rfl, rfl, rfl, rfl, rfl, rfl, rfl⟩
  | restart pending iface =>
    rw [work, hp] at hw
    dsimp only at hw
    -- a restart that is asked for stops QEMU
    split at hw
    · cases hw
      have hresp := h.respawning
      rw [hp] at hresp
      exact ⟨h.booted_le, h.asOf_le, fun hq => absurd rfl hq, fun _ _ hp => (by cases hp),
        fun _ => rfl, fun _ => .inr rfl, fun hq => absurd rfl hq, hresp⟩
    · cases hw
      exact hcalm _ (by rw [hp]; rfl) rfl ⟨rfl, rfl, rfl, rfl, rfl, rfl, rfl⟩
  | restarting iface =>
    rw [work, hp] at hw
    cases hw
    have hq : s.qemu = .none := h.down (by rw [hp]; rfl)
    exact ⟨h.booted_le, h.asOf_le, fun hne => absurd hq hne, fun _ _ hp => (by cases hp),
      fun _ => hq, fun hrun => (by cases hrun), fun hne => absurd hq hne, fun _ => rfl⟩
  | network iface =>
    rw [work, hp] at hw
    dsimp only at hw
    split at hw
    · cases hw
      exact hcalm _ (by rw [hp]; rfl) rfl ⟨rfl, rfl, rfl, rfl, rfl, rfl, rfl⟩
    · split at hw
      · cases hw
        exact hcalm _ (by rw [hp]; rfl) rfl ⟨rfl, rfl, rfl, rfl, rfl, rfl, rfl⟩
      · cases hw
        exact hcalm _ (by rw [hp]; rfl) rfl ⟨rfl, rfl, rfl, rfl, rfl, rfl, rfl⟩
  | rest =>
    rw [work, hp] at hw
    cases hw
    exact hcalm _ (by rw [hp]; rfl) rfl ⟨rfl, rfl, rfl, rfl, rfl, rfl, rfl⟩

theorem inv_step {s t : State} {a : Event} (h : Inv s) (hg : NotRetired s a)
    (hs : worker.step s a = some t) : Inv t := by
  cases a with
  | work luck => exact inv_work h hg hs
  | launch luck =>
    simp only [worker] at hs
    split at hs
    · cases hs
    · rename_i hgone
      cases hs
      have hp : s.place = .gone := by
        cases hp : s.place <;> simp [alive, hp] at hgone ⊢
      exact inv_launch h hp hg
  | _ => exact h.frame (frame_step rfl hs)

/-! ## One tick -/

/-- The places of a tick before it has looked whether a mods restart is due. -/
def Place.looking : Place → Bool
  | .restartDue _ | .handOver | .exitTest _ | .guestTest | .modsCheck => true
  | _ => false

/-- The tick that starts at `top` and ends there: the worker does not start another, and cfgd, once
    heard, is not lost before the tick has looked. -/
def InTick (s : State) (a : Event) : Prop :=
  NotRetired s a ∧ (a = .cfgdLost → s.place.looking = false) ∧ ∀ luck, a = .work luck →
  s.place ≠ .top

/-- QEMU has been started after `k` starts, with mods that account for `n` requests. -/
def Restarted (n k : Nat) (s : State) : Prop := k < s.starts ∧ n ≤ s.asOf

/-- The tick is on its way to a restart, which a request among the first `n` is waiting for. -/
def OnTheWay (n : Nat) (s : State) : Prop :=
  match s.place with
  | .restartDue _ | .guestTest | .modsCheck =>
    s.qemu ≠ .none ∧ s.qemuRunning = true ∧ s.guestHeard = true ∧ s.modsRestartSeqBooted < n
  | .exitTest retire => retire = true ∨
    s.qemu ≠ .none ∧ s.qemuRunning = true ∧ s.guestHeard = true ∧ s.modsRestartSeqBooted < n
  | .handOver | .reaping | .reaped | .restarting _ => True
  | .record c | .readMods c | .start c _ => c.respawns = true
  | .drain => s.restartRequested = true
  | .persist _ restart _ => restart = true
  | .restart pending _ => pending = true
  | _ => False

/-- The places of a worker that ticks. -/
def Place.ticks : Place → Bool
  | .gone | .new | .leave | .leaveSave _ | .leaveStop => false
  | _ => true

/-- What holds from the start of the tick on. -/
structure Owes (n k : Nat) (s : State) : Prop where
  ticks : s.place.ticks = true
  seq : n ≤ s.modsRestartSeq
  starts : k ≤ s.starts
  read : ∀ c m, s.place = .start c m → n ≤ m
  kept : Restarted n k s ∨ OnTheWay n s

/-- What a step of the worker does to the counts: it starts QEMU with the mods it has read or leaves
    alone what runs, and mods are read as of the requests so far. -/
theorem work_counts {s t : State} {luck : Luck} (hl : luck.start = true)
    (hw : s.work luck = some t) :
    t.modsRestartSeq = s.modsRestartSeq ∧ (∀ c m, t.place = .start c m → m = s.modsRestartSeq) ∧
      ((t.starts = s.starts ∧ t.asOf = s.asOf) ∨
        ∃ c m, s.place = .start c m ∧ t.starts = s.starts + 1 ∧ t.asOf = m) := by
  have same : ∀ u : State, u.modsRestartSeq = s.modsRestartSeq → (∀ c m, u.place ≠ .start c m) →
      u.starts = s.starts → u.asOf = s.asOf →
      u.modsRestartSeq = s.modsRestartSeq ∧ (∀ c m, u.place = .start c m → m = s.modsRestartSeq) ∧
        ((u.starts = s.starts ∧ u.asOf = s.asOf) ∨
          ∃ c m, s.place = .start c m ∧ u.starts = s.starts + 1 ∧ u.asOf = m) :=
    fun u hseq hstart hstarts hasOf =>
      ⟨hseq, fun c m h => absurd h (hstart c m), .inl ⟨hstarts, hasOf⟩⟩
  -- the start is the case that counts; all others leave both counts alone
  cases hp : s.place <;> rw [State.work, hp] at hw <;> dsimp only at hw
  case start c m =>
    cases hw
    cases c with
    | guestExit | restart =>
      rw [startFor, if_pos hl]
      · exact ⟨rfl, fun _ _ h => (by cases h), .inr ⟨_, m, rfl, rfl, rfl⟩⟩
      · simp
    | network =>
      -- a start for the network may find that QEMU has exited, and is left to the next tick
      simp only [startFor, hl, if_true]
      split
      · exact ⟨rfl, fun _ _ h => (by cases h), .inl ⟨rfl, rfl⟩⟩
      · exact ⟨rfl, fun _ _ h => (by cases h), .inr ⟨_, m, rfl, rfl, rfl⟩⟩
  case readMods c =>
    cases hw
    -- the mods are read together with the count of requests
    exact ⟨rfl, fun _ _ h => (by cases h; rfl), .inl ⟨rfl, rfl⟩⟩
  case leaveSave todo =>
    cases todo <;> cases hw <;>
      exact hp ▸ same _ rfl (fun _ _ => by simp) rfl rfl
  case persist todo r i =>
    cases todo <;> cases hw <;>
      exact hp ▸ same _ rfl (fun _ _ => by simp) rfl rfl
  case network i =>
    split at hw
    · cases hw
      exact hp ▸ same _ rfl (fun _ _ => by simp) rfl rfl
    · split at hw <;> cases hw <;> exact hp ▸ same _ rfl (fun _ _ => by simp) rfl rfl
  case started c =>
    cases c <;> cases hw <;>
      exact hp ▸ same _ rfl (fun _ _ => by simp [Cause.next]) rfl rfl
  case exitTest retire =>
    cases hw
    refine hp ▸ same _ rfl (fun c m => ?_) rfl rfl
    dsimp only
    split <;> simp
  all_goals (try split at hw) <;> cases hw <;>
    exact hp ▸ same _ rfl (fun _ _ => by simp [finish]) rfl rfl

/-- What has been restarted stays so. -/
theorem Restarted.work {n k : Nat} {s t : State} {luck : Luck} (hl : luck.start = true)
    (hread : ∀ c m, s.place = .start c m → n ≤ m) (hw : s.work luck = some t)
    (h : Restarted n k s) :
    Restarted n k t := by
  obtain ⟨hk, hn⟩ := h
  obtain ⟨-, -, ⟨hstarts, hasOf⟩ | ⟨c, m, hp, hstarts, hasOf⟩⟩ := work_counts hl hw
  · exact ⟨by omega, by omega⟩
  · exact ⟨by omega, hasOf ▸ hread c m hp⟩

/-- A step of the worker on its way. -/
theorem OnTheWay.work {n k : Nat} {s t : State} {luck : Luck} (hg : NotRetired s (.work luck))
    (hseq : n ≤ s.modsRestartSeq) (hread : ∀ c m, s.place = .start c m → n ≤ m) (hk : k ≤ s.starts)
    (hw : s.work luck = some t) (h : OnTheWay n s) : Restarted n k t ∨ OnTheWay n t := by
  obtain ⟨hluck, hexit, hreap⟩ := hg
  unfold OnTheWay at h
  -- from place to place, each with what keeps the restart on its way
  cases hp : s.place with
  | restartDue retire =>
    rw [hp] at h
    rw [State.work, hp] at hw
    dsimp only at hw
    split at hw
    -- an install is waiting: the run is handed over, and that is a restart, too
    · cases hw
      exact .inr trivial
    · cases hw
      exact .inr (.inr h)
  | handOver =>
    rw [State.work, hp] at hw
    cases hw
    exact .inr (.inl rfl)
  | exitTest retire =>
    rw [hp] at h
    rw [State.work, hp] at hw
    obtain ⟨hquit, hretire⟩ := hexit retire hp
    -- the run's guard keeps the worker here
    have hstay : ¬ (s.appShutdown = true ∨ retire = true) := fun h => h.elim hquit hretire
    dsimp only at hw
    rw [if_neg hstay] at hw
    cases hw
    exact .inr (h.resolve_left hretire)
  | guestTest =>
    rw [hp] at h
    rw [State.work, hp] at hw
    dsimp only at hw
    split at hw
    · cases hw
      exact .inr trivial
    · cases hw
      exact .inr h
  | modsCheck =>
    rw [hp] at h
    rw [State.work, hp] at hw
    obtain ⟨hq, hrun, hheard, hbooted⟩ := h
    -- the request is not the one that the running QEMU has booted with
    have hne : s.modsRestartSeq ≠ s.modsRestartSeqBooted := by omega
    dsimp only at hw
    split at hw
    · cases hw
      exact .inr rfl
    · rename_i hdue
      cases hw
      -- every condition of the check holds, so the restart is asked for
      refine .inr ?_
      show s.restartRequested = true
      simpa [modsRestartDue, hq, hrun, hheard, hne] using hdue
  | drain =>
    rw [hp] at h
    rw [State.work, hp] at hw
    cases hw
    refine .inr ?_
    show (s.restartRequested || _ || _) = true
    rw [show s.restartRequested = true from h]
    rfl
  | persist todo restart iface =>
    rw [hp] at h
    rw [State.work, hp] at hw
    cases todo with
    | nil =>
      cases hw
      exact .inr h
    | cons w todo =>
      cases hw
      exact .inr h
  | restart pending iface =>
    rw [hp] at h
    rw [State.work, hp] at hw
    dsimp only at hw
    -- asked for, and QEMU is stopped
    rw [if_pos h] at hw
    cases hw
    exact .inr trivial
  | restarting iface =>
    rw [State.work, hp] at hw
    cases hw
    exact .inr rfl
  | reaping =>
    rw [State.work, hp] at hw
    cases hw
    exact .inr trivial
  | reaped =>
    rw [State.work, hp] at hw
    dsimp only at hw
    rw [if_neg (hreap hp)] at hw
    cases hw
    -- nothing gives up between the stop and the start
    exact .inr rfl
  | record c =>
    rw [hp] at h
    rw [State.work, hp] at hw
    cases hw
    exact .inr h
  | readMods c =>
    rw [hp] at h
    rw [State.work, hp] at hw
    cases hw
    exact .inr h
  | start c m =>
    rw [hp] at h
    rw [State.work, hp] at hw
    cases hw
    cases c with
    | network => cases h
    | guestExit | restart =>
      have hm := hread _ m hp
      refine .inl ?_
      -- the start reads a count at least as high: the mods are in
      rw [startFor, if_pos hluck]
      · exact ⟨Nat.lt_succ_of_le hk, hm⟩
      · simp
  | gone | new | top | leave | leaveSave | leaveStop | started | network | rest =>
    rw [hp] at h
    exact h.elim

/-- A worker that is not retired goes on ticking. -/
theorem ticks_work {s t : State} {luck : Luck} (hg : NotRetired s (.work luck))
    (h : s.place.ticks = true) (hw : s.work luck = some t) : t.place.ticks = true := by
  obtain ⟨hluck, hexit, hreap⟩ := hg
  cases hp : s.place <;> rw [State.work, hp] at hw <;> rw [hp] at h <;> dsimp only at hw
  case gone | new | leave | leaveSave | leaveStop => cases h
  case exitTest retire =>
    obtain ⟨hquit, hretire⟩ := hexit retire hp
    have hstay : ¬ (s.appShutdown = true ∨ retire = true) := fun h => h.elim hquit hretire
    rw [if_neg hstay] at hw
    cases hw
    rfl
  case reaped =>
    rw [if_neg (hreap hp)] at hw
    cases hw
    rfl
  case start c m =>
    cases hw
    cases c with
    | network =>
      rw [startFor, if_pos hluck]
      split <;> rfl
    | guestExit | restart =>
      rw [startFor, if_pos hluck]
      · rfl
      · simp
  case started c => cases c <;> cases hw <;> rfl
  case persist todo r i => cases todo <;> cases hw <;> rfl
  case network i =>
    split at hw
    · cases hw
      rfl
    · split at hw <;> cases hw <;> rfl
  all_goals (try split at hw) <;> cases hw <;> rfl

theorem heard_frame {s t : State} {a : Event} (ha : a.moves = false) (hlost : a ≠ .cfgdLost)
    (h : worker.step s a = some t) (hs : s.guestHeard = true) : t.guestHeard = true := by
  cases a with
  | work luck => cases ha
  | launch luck => cases ha
  | cfgdLost => exact absurd rfl hlost
  | cfgdHeard =>
    cases h
    rfl
  | restartForMods =>
    cases h
    unfold restartForMods
    dsimp only
    (repeat' split) <;> exact hs
  | toggle x =>
    cases h
    unfold State.toggle
    cases x with
    | mods =>
      dsimp only
      split <;> exact hs
    | audio | device | alc | haptic | pcLink => exact hs
  | selectDevice uid =>
    cases h
    unfold State.selectDevice
    split <;> exact hs
  | guestExits | stopEmulation | reapWorker | saveModsToggle =>
    simp only [worker] at h
    split at h
    all_goals first | (cases h; done) | (cases h; exact hs)
  | restartMenu | selectInterface | view | shade | install | quit =>
    cases h
    exact hs

theorem OnTheWay.frame {n : Nat} {s t : State} (f : Frame s t)
    (hheard : s.place.looking = true → s.guestHeard = true → t.guestHeard = true)
    (h : OnTheWay n s) :
    OnTheWay n t := by
  unfold OnTheWay at h ⊢
  rw [f.place]
  cases hp : s.place <;> rw [hp] at h hheard
  case restartDue | guestTest | modsCheck =>
    obtain ⟨hq, hrun, hh, hb⟩ := h
    exact ⟨fun hq' => hq (f.qemu.mp hq'), f.running.trans hrun,
      hheard rfl hh, by rw [f.booted]; exact hb⟩
  case exitTest retire =>
    rcases h with h | ⟨hq, hrun, hh, hb⟩
    · exact .inl h
    · exact .inr ⟨fun hq' => hq (f.qemu.mp hq'), f.running.trans hrun, hheard rfl hh,
        by rw [f.booted]; exact hb⟩
  case drain => exact f.restart h
  all_goals exact h

theorem owes_step {n k : Nat} {s t : State} {a : Event} (h : Owes n k s) (hg : InTick s a)
    (hs : worker.step s a = some t) : Owes n k t := by
  obtain ⟨hguard, hlost, -⟩ := hg
  -- a party other than the worker, or the worker itself
  cases hmoves : a.moves with
  | false =>
    have f := frame_step hmoves hs
    refine ⟨by rw [f.place]; exact h.ticks, h.seq.trans f.seq, by rw [f.starts]; exact h.starts, ?_,
      ?_⟩
    · rw [f.place]
      exact h.read
    · rcases h.kept with hdone | hway
      · exact .inl ⟨by rw [f.starts]; exact hdone.1, by rw [f.asOf]; exact hdone.2⟩
      · refine .inr (hway.frame f fun hlook hheard => ?_)
        refine heard_frame hmoves (fun ha => ?_) hs hheard
        -- the guest is not lost while the tick looks
        rw [hlost ha] at hlook
        cases hlook
  | true =>
    cases a with
    | work luck =>
      have hw : s.work luck = some t := hs
      obtain ⟨hseq, hstart, hcount⟩ := work_counts hguard.1 hw
      refine ⟨ticks_work hguard h.ticks hw, hseq ▸ h.seq, ?_, ?_, ?_⟩
      -- a start more, or none
      · have hk := h.starts
        rcases hcount with ⟨heq, -⟩ | ⟨c, m, -, heq, -⟩ <;> omega
      · intro c m hp
        rw [hstart c m hp]
        exact h.seq
      · rcases h.kept with hdone | hway
        · exact .inl (hdone.work hguard.1 h.read hw)
        · exact hway.work hguard h.seq h.read h.starts hw
    | launch luck =>
      -- a launch is for a worker that is gone, and this one is in its tick
      simp only [worker] at hs
      split at hs
      · cases hs
      · rename_i hgone
        have hticks := h.ticks
        cases hp : s.place <;> simp [alive, hp, Place.ticks] at hgone hticks
    | _ => cases hmoves

/-! ## A tick ends -/

/-- How much of the tick is left. -/
def Place.rank : Place → Nat
  | .gone | .new | .top | .leave | .leaveSave _ | .leaveStop => 0
  | .restartDue _ => 30
  | .handOver => 29
  | .exitTest _ => 28
  | .guestTest => 27
  | .reaping => 26
  | .reaped => 25
  | .record .guestExit => 24
  | .readMods .guestExit => 23
  | .start .guestExit _ => 22
  | .started .guestExit => 21
  | .modsCheck => 20
  | .drain => 19
  | .persist todo _ _ => 12 + todo.length
  | .restart _ _ => 11
  | .restarting _ => 10
  | .record (.restart _) => 9
  | .readMods (.restart _) => 8
  | .start (.restart _) _ => 7
  | .started (.restart _) => 6
  | .network _ => 5
  | .record .network => 4
  | .readMods .network => 3
  | .start .network _ => 2
  | .started .network => 2
  | .rest => 1

/-- The worker is never held up, and each of its steps leaves less of the tick. -/
theorem work_progress {s : State} (h : s.place.ticks = true) (htop : s.place ≠ .top) (luck : Luck) :
    ∃ t, s.work luck = some t ∧ t.place.rank < s.place.rank := by
  cases hp : s.place <;> rw [State.work, hp] <;> rw [hp] at h htop <;> dsimp only
  case gone | new | leave | leaveSave | leaveStop => cases h
  case top => exact absurd rfl htop
  case exitTest retire =>
    refine ⟨_, rfl, ?_⟩
    -- the exit may lead out of the tick; that is less as well
    dsimp only
    split <;> simp [Place.rank]
  case drain =>
    refine ⟨_, rfl, ?_⟩
    -- at most the six settings are saved
    have hlen : (s.taken Setting.all).length ≤ 6 := by
      rw [taken, List.length_map]
      exact List.length_filter_le ..
    show 12 + (s.taken Setting.all).length < 19
    omega
  case persist todo restart iface =>
    cases todo with
    | nil => exact ⟨_, rfl, by simp [Place.rank]⟩
    | cons w todo => exact ⟨_, rfl, by simp [Place.rank]⟩
  case start c m =>
    refine ⟨_, rfl, ?_⟩
    unfold startFor
    cases c with
    | network =>
      dsimp only
      (repeat' split) <;> simp [Place.rank]
    | guestExit | restart =>
      dsimp only
      split <;> simp [Place.rank]
  case record c => exact ⟨_, rfl, by cases c <;> simp [Place.rank]⟩
  case readMods c => exact ⟨_, rfl, by cases c <;> simp [Place.rank]⟩
  case started c => exact ⟨_, rfl, by cases c <;> simp [Place.rank, Cause.next]⟩
  case network iface =>
    split
    · exact ⟨_, rfl, by simp [Place.rank]⟩
    · split <;> exact ⟨_, rfl, by simp [Place.rank]⟩
  all_goals (try split) <;> exact ⟨_, rfl, by simp [Place.rank, finish]⟩

/-! ## No accepted request is forgotten -/

theorem restartForMods_ok {s : State} (h : s.restartForMods.1 = .ok) :
    s.qemuRunning = true ∨ s.qemuRespawning = true ∨ s.restartRequested = true := by
  by_contra hnone
  rw [not_or, not_or] at hnone
  unfold restartForMods at h
  rw [if_pos hnone] at h
  split at h
  · cases h
  · split at h <;> cases h

/-- The tick that starts in `s` restarts QEMU, with mods read after its start: it does whenever it
    ends, and it ends, for the worker always has a step and each leaves less of the tick. -/
def TickRestarts (s : State) : Prop :=
  ∀ luck s₁ t, worker.step s (.work luck) = some s₁ → worker.Reach InTick s₁ t →
    (t.place = .top → Restarted s.modsRestartSeq s.starts t) ∧
      (t.place ≠ .top → ∀ luck, ∃ u, worker.step t (.work luck) = some u ∧
        u.place.rank < t.place.rank)

theorem tickRestarts_of_outdated {s : State} (h : Inv s) (htop : s.place = .top)
    (hq : s.qemu ≠ .none) (hheard : s.guestHeard = true) (hold : s.asOf ≠ s.modsRestartSeq) :
    TickRestarts s := by
  intro luck s₁ t hstep hreach
  have hfresh := h.fresh hq (by rw [htop]; rfl)
  have hle := h.asOf_le
  have hrun := (h.shown hq).resolve_left (by simp [htop])
  have hlt : s.modsRestartSeqBooted < s.modsRestartSeq := by omega
  have hfirst : Owes s.modsRestartSeq s.starts s₁ := by
    simp only [worker, State.work, htop] at hstep
    cases hstep
    exact ⟨rfl, le_refl _, le_refl _, fun _ _ hp => (by cases hp), .inr ⟨hq, hrun, hheard, hlt⟩⟩
  have howes : Owes s.modsRestartSeq s.starts t :=
    hreach.inv hfirst fun _ _ _ ho hg hs => owes_step ho hg hs
  constructor
  · intro hend
    refine howes.kept.resolve_right fun hway => ?_
    unfold OnTheWay at hway
    rw [hend] at hway
    exact hway
  · intro hmid luck
    exact work_progress howes.ticks hmid luck

/-- A restart of QEMU is under way. -/
def Place.underWay (p : Place) : Bool := p.respawns || p.stopping

/-- With starts of QEMU that succeed and a worker that is not retired: at the start of a tick, QEMU
    being there and cfgd heard, the mods QEMU runs with were read after the last accepted request,
    or that tick restarts QEMU.  And a request is accepted only while QEMU is there, or a restart is
    pending or under way. -/
theorem mods_restart_not_forgotten {menu saved : Values} {iface : Option Nat} {s : State}
    (h : worker.Reach NotRetired (State.init menu saved iface) s) :
    (s.place = .top → s.qemu ≠ .none → s.guestHeard = true → s.asOf = s.modsRestartSeq ∨
      TickRestarts s) ∧
      (s.restartForMods.1 = .ok →
        s.qemu ≠ .none ∨ s.restartRequested = true ∨ s.place.underWay = true) := by
  have hinv : Inv s := h.inv (inv_init menu saved iface) fun _ _ _ hi hg hs => inv_step hi hg hs
  constructor
  · intro htop hq hheard
    by_cases hnew : s.asOf = s.modsRestartSeq
    · exact .inl hnew
    · exact .inr (tickRestarts_of_outdated hinv htop hq hheard hnew)
  · intro hok
    rcases restartForMods_ok hok with hrun | hresp | hreq
    · rcases hinv.running hrun with hq | hstop
      · exact .inl hq
      · exact .inr (.inr (by rw [Place.underWay, hstop, Bool.or_true]))
    · exact .inr (.inr (by rw [Place.underWay, hinv.respawning hresp, Bool.true_or]))
    · exact .inr (.inl hreq)

/-- A launch, cfgd heard, and one request: the next tick restarts. -/
theorem one_request_restarts : ∃ s, worker.Reach NotRetired (State.init allOff allOff none) s ∧
    s.asOf ≠ s.modsRestartSeq ∧ TickRestarts s := by
  have hlaunched : worker.Reach NotRetired (State.init allOff allOff none) _ :=
    Reach.refl.step (a := Event.launch {}) rfl rfl
  have hnew : worker.Reach NotRetired (State.init allOff allOff none) _ :=
    hlaunched.step (a := Event.work {})
      ⟨rfl, fun _ hp => (by cases hp), fun hp => (by cases hp)⟩ rfl
  have hheard : worker.Reach NotRetired (State.init allOff allOff none) _ :=
    hnew.step (a := Event.cfgdHeard) trivial rfl
  have hpanel : worker.Reach NotRetired (State.init allOff allOff none) _ :=
    hheard.step (a := Event.view true) trivial rfl
  have hasked : worker.Reach NotRetired (State.init allOff allOff none) _ :=
    hpanel.step (a := Event.restartForMods) trivial rfl
  refine ⟨_, hasked, by decide, ?_⟩
  exact ((mods_restart_not_forgotten hasked).1 rfl (by decide) rfl).resolve_left (by decide)

end CdjEmu.Runtime
