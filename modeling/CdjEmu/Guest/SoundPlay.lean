/-
  THE PERIODS OF A SESSION — what the tasklet passes over, and what QEMU is given of it.

  `Play` is the driver with the contents of its TX buffers.  A session is what lies between START
  and the next STOP; its periods are numbered as `hw_ptr` passes over them.  Phase 2 drops some, and
  the others are copied: they are in the buffers that were submitted, and the last few in the
  accumulation buffer (`Kept`).

  The stop work of one session may run in the next one: EP122 calls STOP, PREPARE and START in quick
  succession.  It then throws away what the new session has accumulated.  `no_period_lost` says that
  nothing else loses a period.

  1. **Program** — the sections of the driver with the data they copy; `call` is ALSA's order of
     START, STOP, PREPARE and what may come between, and `firstPrepared` the state after the first
     PREPARE.

  2. **Specification** — `Kept`: every period of the session that was not dropped is in the buffers
     that were submitted, once and in order, and those at the end are in the accumulation buffer.

  3. **The crux (`Kept.period`)** — one round of the tasklet's loop: the period is dropped, or it is
     copied to the end of the accumulation buffer, which goes to the device when it is full.  The
     other sections leave the batch alone (`SameBatch`), and are not looked at again.

  4. **Bridge** — the machine refines the driver's own step by step (`periods_vsnd`,
     `taskletSection_vsnd`), so what is known of the buffers' places is known here.
-/
import CdjEmu.Guest.SoundPool

namespace CdjEmu.Sound

open Machine

/-- How far ALSA has come with the stream. -/
inductive Stage where
  | setup
  | prepared
  | running
  deriving DecidableEq

/-- The driver with what is played: the data of its buffers, and the periods that have gone by. -/
structure Play where
  vsnd : Vsnd
  stage : Stage
  /-- The periods in the data of each TX buffer, `none` for silence. -/
  data : Buf → Nat → Option Nat
  /-- The periods that `hw_ptr` has passed since START, those of them that `dbg_phase2_drop` counts,
      and the data that was submitted. -/
  advanced : Nat
  dropped : List Nat
  sent : List (List (Option Nat))

namespace Play

variable (s : Play)

/-! ## The tasklet -/

/-- `Vsnd.accumulate`, with the copy. -/
def accumulate (b : Buf) : Play :=
  let data := Function.update s.data b
      (Function.update (s.data b) s.vsnd.accumCount (some s.advanced))
  { s with
    vsnd := s.vsnd.accumulate b
    data := data
    advanced := s.advanced + 1
    sent :=
      if s.vsnd.accumCount + 1 = s.vsnd.params.qemuFactor then
        s.sent ++ [(List.range s.vsnd.params.qemuFactor).map (data b)]
      else s.sent }

/-- No buffer is free, and the period is dropped. -/
def drop : Play := { s with advanced := s.advanced + 1, dropped := s.dropped ++ [s.advanced] }

/-- One round of the tasklet's loop. -/
def period : Play × Bool :=
  match s.vsnd.accumBuf with
  | some b => (s.accumulate b, true)
  | none =>
    let v := if s.vsnd.poolEmpty then s.vsnd.collect s.vsnd.params.bufFrames else s.vsnd
    if v.poolEmpty then
      let (v, on) := v.stall
      (if on then { s.drop with vsnd := v } else { s with vsnd := v }, on)
    else
      let (b, v) := v.startBatch
      (({ s with vsnd := v } : Play).accumulate b, true)

/-- `n` periods in one batch, as the driver's loop makes them; it ends where a period fails. -/
def periods : Nat → Play → Play × Nat
  | 0, s => (s, 0)
  | n + 1, s =>
    if s.period.2 then ((periods n s.period.1).1, (periods n s.period.1).2 + 1) else (s.period.1, 0)

/-- The tasklet's section. -/
def taskletSection (hz jiffies count : Nat) : Play :=
  if s.vsnd.running then
    let cap := s.vsnd.params.bufferSize / s.vsnd.params.periodSize - 1
    let v := if cap < count then
        { s.vsnd with pendingPeriods := s.vsnd.pendingPeriods + (count - cap) } else s.vsnd
    let (s, i) := periods (min count cap) { s with vsnd := v }
    { s with
      vsnd := { s.vsnd.watchdog hz jiffies with
        xrunPending := false, tasklet := .putBack (min count cap - i) } }
  else { s with vsnd := { s.vsnd with tasklet := .putBack count } }

/-! ## The calls -/

/-- ALSA's order of the calls, with what they do besides. -/
def call (v : Vsnd) : Event → Option Play
  | .hwParams _ =>
      if s.stage = .running then none else
        some { s with vsnd := v, stage := .setup, data := fun _ _ => none }
  | .hwFree | .prepareBegin =>
      if s.stage = .running then none else some { s with vsnd := v, stage := .setup }
  | .prepare => if s.stage = .running then none else some { s with vsnd := v, stage := .prepared }
  | .start =>
    if s.stage = .prepared then
      some { s with vsnd := v, stage := .running, advanced := 0, dropped := [], sent := [] }
    else none
  | .stop => if s.stage = .running then some { s with vsnd := v, stage := .setup } else none
  | _ => some { s with vsnd := v }

/-- The state after the first PREPARE. -/
def firstPrepared (p : HwParams) : Play where
  vsnd := .firstPrepared p
  stage := .prepared
  data := fun _ _ => none
  advanced := 0
  dropped := []
  sent := []

end Play

/-- The driver's machine, with the tasklet's section over the data. -/
def player : Machine Play Event where
  step s
    | .taskletSection hz jiffies =>
      match s.vsnd.tasklet with
      | .took count => some (s.taskletSection hz jiffies count)
      | _ => none
    | a => (vsnd.step s.vsnd a).bind fun v => s.call v a

namespace Play

/-- The periods of the session that were not dropped. -/
def played (s : Play) : List Nat := (List.range s.advanced).filter fun i => i ∉ s.dropped

/-- The periods in the accumulation buffer. -/
def pending (s : Play) : List (Option Nat) :=
  s.vsnd.accumBuf.elim [] fun b => (List.range s.vsnd.accumCount).map (s.data b)

/-- Every period that was not dropped is in the buffers submitted, once and in order, or waits in
    the accumulation buffer. -/
structure Kept (s : Play) : Prop where
  all : s.played.map some = s.sent.flatten ++ s.pending
  full : ∀ l ∈ s.sent, l.length = s.vsnd.params.qemuFactor
  few : s.pending.length ≤ s.vsnd.params.qemuFactor - 1
  drops : s.dropped.Sublist (List.range s.advanced)

/-- The stop work finds nothing to throw away in a stream that runs. -/
def Undisturbed (s : Play) : Event → Prop
  | .stopWork => s.stage = .running → s.vsnd.accumCount = 0
  | _ => True

instance (s : Play) : Decidable s.Kept :=
  decidable_of_iff (s.played.map some = s.sent.flatten ++ s.pending ∧
    (∀ l ∈ s.sent, l.length = s.vsnd.params.qemuFactor) ∧
    s.pending.length ≤ s.vsnd.params.qemuFactor - 1 ∧ s.dropped.Sublist (List.range s.advanced))
    ⟨fun h => ⟨h.1, h.2.1, h.2.2.1, h.2.2.2⟩, fun h => ⟨h.all, h.full, h.few, h.drops⟩⟩

instance (s : Play) (a : Event) : Decidable (s.Undisturbed a) := by
  unfold Undisturbed
  split <;> infer_instance

end Play

/-! ## The accumulation -/

namespace Vsnd

variable {v w : Vsnd}

/-- Nothing is accumulated or submitted. -/
structure SameBatch (v w : Vsnd) : Prop where
  params : w.params = v.params
  accumBuf : w.accumBuf = v.accumBuf
  accumCount : w.accumCount = v.accumCount

/-- What touches nothing of a batch leaves it the same. -/
theorem Untouched.sameBatch (h : v.Untouched w) : v.SameBatch w :=
  ⟨h.params, h.accumBuf, h.accumCount⟩

theorem SameBatch.trans {u : Vsnd} (h : v.SameBatch w) (h' : w.SameBatch u) : v.SameBatch u :=
  ⟨h'.params.trans h.params, h'.accumBuf.trans h.accumBuf, h'.accumCount.trans h.accumCount⟩

/-- Collecting returned buffers is no part of a batch. -/
theorem collectLoop_sameBatch (frames : Int) (n : Nat) (v : Vsnd) :
    v.SameBatch (collectLoop frames n v) := by
  induction n generalizing v with
  | zero => exact ⟨rfl, rfl, rfl⟩
  | succ n ih =>
    rw [collectLoop]
    split
    · exact ⟨rfl, rfl, rfl⟩
    · rename_i b rest _
      have hrest := ih ({ v with used := rest }.takeBack frames b)
      exact ⟨hrest.params, hrest.accumBuf, hrest.accumCount⟩

/-- Neither is a stall. -/
theorem stall_sameBatch (v : Vsnd) : v.SameBatch v.stall.1 := v.stall_untouched.sameBatch

/-- A batch that starts has no period yet. -/
theorem startBatch_same (v : Vsnd) : v.startBatch.2.params = v.params ∧
    v.startBatch.2.accumCount = v.accumCount := by
  unfold startBatch
  dsimp only
  split <;> exact ⟨rfl, rfl⟩

/-- Whether the stream runs is for the trigger alone: no other part of the driver changes it. -/
theorem collectLoop_running (frames : Int) (n : Nat) (v : Vsnd) :
    (collectLoop frames n v).running = v.running := by
  induction n generalizing v with
  | zero => rfl
  | succ n ih =>
    rw [collectLoop]
    split
    · rfl
    · exact ih _

theorem accumulate_running (v : Vsnd) (b : Buf) : (v.accumulate b).running = v.running := by
  unfold accumulate
  dsimp only
  split <;> rfl

theorem stall_running (v : Vsnd) : v.stall.1.running = v.running := by
  unfold stall
  dsimp only
  split
  · rfl
  · split
    · rfl
    · split <;> rfl

theorem startBatch_running (v : Vsnd) : v.startBatch.2.running = v.running := by
  unfold startBatch
  dsimp only
  split <;> rfl

theorem period_running (v : Vsnd) : v.period.1.running = v.running := by
  unfold period
  split
  · exact v.accumulate_running _
  · dsimp only
    generalize hu : (if v.poolEmpty = true then v.collect v.params.bufFrames else v) = u
    have hrunning : u.running = v.running := by
      rw [← hu]
      split
      · exact collectLoop_running _ _ v
      · rfl
    split
    · exact u.stall_running.trans hrunning
    · exact (accumulate_running _ _).trans (u.startBatch_running.trans hrunning)

theorem periods_running (n : Nat) (v : Vsnd) : (periods n v).1.running = v.running := by
  induction n generalizing v with
  | zero => rfl
  | succ n ih =>
    have hone := v.period_running
    unfold periods
    split
    · rename_i u hp
      rwa [hp] at hone
    · rename_i u hp
      rw [hp] at hone
      exact (ih u).trans hone

theorem watchdog_running (v : Vsnd) (hz jiffies : Nat) :
    (v.watchdog hz jiffies).running = v.running := by
  unfold watchdog
  split
  · split
    · rfl
    · split <;> rfl
  · rfl

/-- The tasklet neither starts nor stops the stream, and does nothing while it is stopped. -/
theorem taskletSection_running (v : Vsnd) (hz jiffies count : Nat) :
    (v.taskletSection hz jiffies count).running = v.running ∧
      (v.running = false → v.SameBatch (v.taskletSection hz jiffies count)) := by
  unfold taskletSection
  split
  · rename_i hrunning
    refine ⟨?_, fun hfalse => by rw [hrunning] at hfalse; cases hfalse⟩
    refine (watchdog_running _ hz jiffies).trans ((periods_running _ _).trans ?_)
    split <;> rfl
  · exact ⟨rfl, fun _ => ⟨rfl, rfl, rfl⟩⟩

/-- Moving buffers leaves the stream as prepared as it was. -/
theorem Moves.prepared {frames : Int} (h : Moves frames v w) : w.prepared = v.prepared := by
  induction h with
  | refl => rfl
  | tail _ hm ih =>
    rw [← ih]
    cases hm with
    | other hu => exact hu.prepared
    | _ => rfl

/-- The stop work releases what is accumulated. -/
theorem stopSection_fields (v : Vsnd) :
    v.stopSection.running = v.running ∧ v.stopSection.prepared = v.prepared ∧
    v.stopSection.accumBuf = none ∧
      v.stopSection.params = v.params := by
  have hmoves := v.stopSection_moves
  have hrunning : (v.collect 0).running = v.running := collectLoop_running 0 _ v
  refine ⟨?_, Moves.prepared hmoves, ?_, hmoves.params⟩
  · unfold stopSection
    dsimp only
    split <;> exact hrunning
  · unfold stopSection
    dsimp only
    split
    · rfl
    · assumption

theorem prepareSection_running (v : Vsnd) : v.prepareSection.running = v.running := by
  have hloop : ∀ (l : List Buf) (u : Vsnd),
      (l.foldl (fun v b => if v.inFlight b then v else v.poolPush b) u).running = u.running := by
    intro l
    induction l with
    | nil => exact fun _ => rfl
    | cons b l ih =>
      intro u
      rw [List.foldl_cons, ih]
      split <;> rfl
  refine (hloop _ _).trans ?_
  show v.resetStream.running = _
  unfold resetStream
  dsimp only
  split <;> rfl

end Vsnd

namespace Play

variable {s t : Play}

/-- What the invariant looks at. -/
theorem Kept.congr (h : s.Kept) (hpending : t.pending = s.pending)
    (hparams : t.vsnd.params = s.vsnd.params) (hadvanced : t.advanced = s.advanced)
    (hdropped : t.dropped = s.dropped) (hsent : t.sent = s.sent) : t.Kept := by
  have hplayed : t.played = s.played := by rw [played, hadvanced, hdropped, played]
  refine ⟨?_, ?_, ?_, ?_⟩
  · rw [hplayed, hsent, hpending]
    exact h.all
  · rw [hsent, hparams]
    exact h.full
  · rw [hpending, hparams]
    exact h.few
  · rw [hdropped, hadvanced]
    exact h.drops

/-- A step that leaves the batch the same keeps the invariant. -/
theorem Kept.same (h : s.Kept) {v : Vsnd} (hsame : s.vsnd.SameBatch v) (stage : Stage) :
    ({ s with vsnd := v, stage := stage } : Play).Kept := by
  refine h.congr ?_ hsame.params rfl rfl rfl
  rw [pending, hsame.accumBuf, hsame.accumCount, pending]

/-- The next period is not dropped yet. -/
theorem Kept.notMem_dropped (h : s.Kept) : s.advanced ∉ s.dropped := by
  intro hmem
  exact absurd (List.mem_range.mp (h.drops.subset hmem)) (Nat.lt_irrefl _)

/-- A period is dropped: it counts as passed, and is not among those to play. -/
theorem Kept.drop (h : s.Kept) : s.drop.Kept := by
  have hplayed : s.drop.played = s.played := by
    show (List.range (s.advanced + 1)).filter (fun i => i ∉ s.dropped ++ [s.advanced]) = _
    rw [List.range_succ, List.filter_append, played]
    have hlast : [s.advanced].filter (fun i => i ∉ s.dropped ++ [s.advanced]) = [] := by simp
    rw [hlast, List.append_nil]
    refine List.filter_congr fun i hi => ?_
    have hne : i ≠ s.advanced := (List.mem_range.mp hi).ne
    simp [hne]
  refine ⟨hplayed ▸ h.all, h.full, h.few, ?_⟩
  show (s.dropped ++ [s.advanced]).Sublist (List.range (s.advanced + 1))
  rw [List.range_succ]
  exact h.drops.append (List.Sublist.refl _)

/-- **The step**: a period is copied behind those of its buffer. -/
theorem Kept.accumulate (h : s.Kept) {b : Buf} (hb : s.vsnd.accumBuf = some b)
    (hroom : s.vsnd.accumCount < s.vsnd.params.qemuFactor) : (s.accumulate b).Kept := by
  -- what the buffer holds afterwards
  have hdata : (List.range (s.vsnd.accumCount + 1)).map ((s.accumulate b).data b) = s.pending ++
      [some s.advanced] := by
    have hslots :
        (s.accumulate b).data b = Function.update (s.data b) s.vsnd.accumCount (some s.advanced) :=
      Function.update_self ..
    rw [hslots, List.range_succ, List.map_append, List.map_singleton, Function.update_self, pending,
      hb, Option.elim_some]
    congr 1
    refine List.map_congr_left fun i hi => ?_
    exact Function.update_of_ne (List.mem_range.mp hi).ne _ _
  have hplayed :
      (s.accumulate b).played.map some = s.sent.flatten ++ (s.pending ++ [some s.advanced]) := by
    have hmem : s.advanced ∉ s.dropped := h.notMem_dropped
    show ((List.range (s.advanced + 1)).filter (fun i => i ∉ s.dropped)).map some = _
    rw [List.range_succ, List.filter_append, List.map_append, ← List.append_assoc, ← h.all, played]
    simp [hmem]
  have hdrops : s.dropped.Sublist (List.range (s.advanced + 1)) := by
    rw [List.range_succ]
    exact h.drops.trans (List.sublist_append_left _ _)
  by_cases hfull : s.vsnd.accumCount + 1 = s.vsnd.params.qemuFactor
  · -- the buffer is full and goes to QEMU
    have hvsnd : (s.accumulate b).vsnd.accumBuf = none ∧
        (s.accumulate b).vsnd.params = s.vsnd.params := by
      show (s.vsnd.accumulate b).accumBuf = none ∧ (s.vsnd.accumulate b).params = _
      rw [Vsnd.accumulate]
      dsimp only
      rw [if_pos hfull]
      exact ⟨rfl, rfl⟩
    have hsent : (s.accumulate b).sent = s.sent ++ [s.pending ++ [some s.advanced]] := by
      show (if s.vsnd.accumCount + 1 = s.vsnd.params.qemuFactor then
        s.sent ++ [(List.range s.vsnd.params.qemuFactor).map ((s.accumulate b).data b)] else
          s.sent) = _
      rw [if_pos hfull, ← hfull, hdata]
    have hpending : (s.accumulate b).pending = [] := by rw [Play.pending, hvsnd.1, Option.elim_none]
    refine ⟨?_, fun l hl => ?_, ?_, hdrops⟩
    · rw [hplayed, hsent, hpending, List.append_nil, List.flatten_append, List.flatten_singleton]
    · rw [hvsnd.2]
      rw [hsent] at hl
      rcases List.mem_append.mp hl with hold | hnew
      · exact h.full l hold
      · rw [List.mem_singleton.mp hnew, ← hdata, List.length_map, List.length_range, hfull]
    · rw [hpending]
      exact Nat.zero_le _
  · have hvsnd : (s.accumulate b).vsnd.accumBuf = some b ∧
        (s.accumulate b).vsnd.params = s.vsnd.params ∧
        (s.accumulate b).vsnd.accumCount = s.vsnd.accumCount + 1 := by
      show (s.vsnd.accumulate b).accumBuf = some b ∧ (s.vsnd.accumulate b).params = _ ∧
        (s.vsnd.accumulate b).accumCount = _
      rw [Vsnd.accumulate]
      dsimp only
      rw [if_neg hfull]
      exact ⟨hb, rfl, rfl⟩
    have hsent : (s.accumulate b).sent = s.sent := if_neg hfull
    have hpending : (s.accumulate b).pending = s.pending ++ [some s.advanced] := by
      rw [Play.pending, hvsnd.1, Option.elim_some, hvsnd.2.2, hdata]
    refine ⟨?_, ?_, ?_, hdrops⟩
    · rw [hplayed, hsent, hpending]
    · rw [hsent, hvsnd.2.1]
      exact h.full
    · have hlen := congrArg List.length hdata
      rw [List.length_map, List.length_range] at hlen
      rw [hpending, ← hlen, hvsnd.2.1]
      omega

/-! ## The tasklet's section -/

/-- The driver does what it did. -/
theorem period_vsnd (s : Play) : s.period.1.vsnd = s.vsnd.period.1 ∧
    s.period.2 = s.vsnd.period.2 := by
  cases hb : s.vsnd.accumBuf with
  | some b =>
    simp only [period, Vsnd.period, hb]
    exact ⟨rfl, trivial⟩
  | none =>
    simp only [period, Vsnd.period, hb]
    generalize (if s.vsnd.poolEmpty = true then s.vsnd.collect s.vsnd.params.bufFrames else
      s.vsnd) = u
    split
    · refine ⟨?_, rfl⟩
      dsimp only
      split <;> rfl
    · exact ⟨rfl, rfl⟩

/-- The periods over the data are those of the driver. -/
theorem periods_vsnd (n : Nat) (s : Play) :
    (periods n s).1.vsnd = (Vsnd.periods n s.vsnd).1 ∧
    (periods n s).2 = (Vsnd.periods n s.vsnd).2 := by
  induction n generalizing s with
  | zero => exact ⟨rfl, rfl⟩
  | succ n ih =>
    obtain ⟨hv, hon⟩ := period_vsnd s
    unfold periods Vsnd.periods
    split
    · rename_i hp
      obtain ⟨hv', hi'⟩ := ih s.period.1
      have hone : s.vsnd.period = (s.vsnd.period.1, true) := by rw [← hp, hon]
      rw [hone]
      dsimp only
      rw [hv', hi', hv]
      exact ⟨rfl, rfl⟩
    · rename_i hp
      have hone : s.vsnd.period = (s.vsnd.period.1, false) := by
        rw [← Bool.eq_false_of_not_eq_true hp, hon]
      rw [hone]
      exact ⟨hv, rfl⟩

/-- So is the tasklet's section. -/
theorem taskletSection_vsnd (s : Play) (hz jiffies count : Nat) :
    (s.taskletSection hz jiffies count).vsnd = s.vsnd.taskletSection hz jiffies count := by
  unfold taskletSection Vsnd.taskletSection
  split
  · dsimp only
    obtain ⟨hv, hi⟩ :=
      periods_vsnd (min count (s.vsnd.params.bufferSize / s.vsnd.params.periodSize - 1))
      { s with vsnd := if s.vsnd.params.bufferSize / s.vsnd.params.periodSize - 1 < count then
          { s.vsnd with pendingPeriods := s.vsnd.pendingPeriods +
            (count - (s.vsnd.params.bufferSize / s.vsnd.params.periodSize - 1)) } else s.vsnd }
    rw [hv, hi]
  · rfl

/-- A period leaves the stage as it was. -/
theorem period_stage (s : Play) : s.period.1.stage = s.stage := by
  unfold period
  split
  · rfl
  · dsimp only
    generalize (if s.vsnd.poolEmpty = true then s.vsnd.collect s.vsnd.params.bufFrames else
      s.vsnd) = u
    split
    · dsimp only
      split <;> rfl
    · rfl

theorem periods_stage (n : Nat) (s : Play) : (periods n s).1.stage = s.stage := by
  induction n generalizing s with
  | zero => rfl
  | succ n ih =>
    unfold periods
    split
    · exact (ih _).trans s.period_stage
    · exact s.period_stage

theorem taskletSection_stage (s : Play) (hz jiffies count : Nat) :
    (s.taskletSection hz jiffies count).stage = s.stage := by
  unfold taskletSection
  split
  · exact periods_stage _ _
  · rfl

/-- One period keeps the invariant: the buffer taken holds the next period. -/
theorem Kept.period (h : s.Kept) (hplaced : s.vsnd.Placed) (hprep : s.vsnd.prepared = true) :
    s.period.1.Kept := by
  have hroom := hplaced.partly hprep
  unfold Play.period
  split
  · rename_i b hb
    exact h.accumulate hb hroom
  · rename_i hnone
    dsimp only
    generalize hu :
      (if s.vsnd.poolEmpty = true then s.vsnd.collect s.vsnd.params.bufFrames else s.vsnd) = u
    have hsame : s.vsnd.SameBatch u := by
      rw [← hu]
      split
      · exact Vsnd.collectLoop_sameBatch _ _ _
      · exact ⟨rfl, rfl, rfl⟩
    split
    · have hstall := hsame.trans u.stall_sameBatch
      dsimp only
      split
      · exact h.drop.same hstall _
      · exact h.same hstall _
    · obtain ⟨hparams, hcount⟩ := u.startBatch_same
      have hzero : s.vsnd.accumCount = 0 := hplaced.empty hnone
      have hcount' : u.startBatch.2.accumCount = 0 := by rw [hcount, hsame.accumCount, hzero]
      have hparams' : u.startBatch.2.params = s.vsnd.params := by rw [hparams, hsame.params]
      -- the buffer that is taken has no periods yet
      have hbatch : ({ s with vsnd := u.startBatch.2 } : Play).Kept := by
        have hpending : ({ s with vsnd := u.startBatch.2 } : Play).pending = s.pending := by
          rw [Play.pending, Play.pending, hnone, hcount']
          exact rfl
        refine ⟨hpending ▸ h.all, ?_, ?_, h.drops⟩
        · show ∀ l ∈ s.sent, l.length = u.startBatch.2.params.qemuFactor
          rw [hparams']
          exact h.full
        · rw [hpending]
          show _ ≤ u.startBatch.2.params.qemuFactor - 1
          rw [hparams']
          exact h.few
      refine hbatch.accumulate rfl ?_
      show u.startBatch.2.accumCount < u.startBatch.2.params.qemuFactor
      rw [hcount', hparams']
      exact hplaced.factor

/-- So does a batch of them. -/
theorem Kept.periods (h : s.Kept) (hplaced : s.vsnd.Placed) (hprep : s.vsnd.prepared = true)
    (n : Nat) :
    (Play.periods n s).1.Kept := by
  induction n generalizing s with
  | zero => exact h
  | succ n ih =>
    have hone := h.period hplaced hprep
    have hmoves := s.vsnd.period_moves
    rw [← (period_vsnd s).1] at hmoves
    unfold Play.periods
    split
    · exact ih hone (hmoves.placed hplaced) (hmoves.prepared.trans hprep)
    · exact hone

/-- And so does the tasklet's section. -/
theorem Kept.taskletSection (h : s.Kept) (hplaced : s.vsnd.Placed) (hprep : s.vsnd.prepared = true)
    (hz jiffies count : Nat) :
    (s.taskletSection hz jiffies count).Kept := by
  unfold Play.taskletSection
  split
  · dsimp only
    generalize hu : (if s.vsnd.params.bufferSize / s.vsnd.params.periodSize - 1 < count then
      { s.vsnd with pendingPeriods := s.vsnd.pendingPeriods +
        (count - (s.vsnd.params.bufferSize / s.vsnd.params.periodSize - 1)) } else s.vsnd) = u
    have hstart : s.vsnd.Untouched u := by
      rw [← hu]
      split <;> exact ⟨rfl, rfl, rfl, rfl, rfl, rfl, rfl, rfl, rfl⟩
    have hmoves : Vsnd.Moves 0 s.vsnd u := .single (.other hstart)
    have hloop := Kept.periods (s := { s with vsnd := u }) (h.same hstart.sameBatch _)
      (hmoves.placed hplaced) (hmoves.prepared.trans hprep)
      (min count (s.vsnd.params.bufferSize / s.vsnd.params.periodSize - 1))
    generalize Play.periods (min count (s.vsnd.params.bufferSize / s.vsnd.params.periodSize - 1))
      { s with vsnd := u } = r
      at hloop ⊢
    have hwatch := r.1.vsnd.watchdog_untouched hz jiffies
    exact hloop.same (v := { r.1.vsnd.watchdog hz jiffies with xrunPending := false, tasklet := _ })
      ⟨hwatch.params, hwatch.accumBuf, hwatch.accumCount⟩ _
  · exact h.same (v := { s.vsnd with tasklet := .putBack count }) ⟨rfl, rfl, rfl⟩ _

/-! ## Steps -/

/-- The steps that neither call the driver nor touch the accumulation. -/
def Aside : Event → Bool
  | .timer _ | .taskletTake | .taskletPutBack | .txDone | .stopWorkBegin | .returns _ => true
  | _ => false

/-- The steps that are no part of a batch. -/
theorem aside_step {v w : Vsnd} {a : Event} (ha : Aside a = true)
    (hs : Sound.vsnd.step v a = some w) :
    v.SameBatch w ∧ w.running = v.running ∧ w.prepared = v.prepared := by
  cases a with
  | timer overrun =>
    obtain rfl := Option.some.inj hs
    unfold Vsnd.timer
    split <;> exact ⟨⟨rfl, rfl, rfl⟩, rfl, rfl⟩
  | txDone =>
    obtain rfl := Option.some.inj hs
    exact ⟨Vsnd.collectLoop_sameBatch _ _ v, Vsnd.collectLoop_running _ _ v,
      Vsnd.Moves.prepared v.collect_moves⟩
  | taskletTake | taskletPutBack | stopWorkBegin | returns =>
    simp only [Sound.vsnd] at hs
    split at hs <;> cases hs
    exact ⟨⟨rfl, rfl, rfl⟩, rfl, rfl⟩
  | _ => cases ha

/-- A step of the player is the tasklet's section, or one of the driver's other steps. -/
theorem step_cases {a : Event} (hs : player.step s a = some t) :
    (∃ hz jiffies count, a = .taskletSection hz jiffies ∧ s.vsnd.tasklet = .took count ∧
      t = s.taskletSection hz jiffies count) ∨
    (∀ hz jiffies, a ≠ .taskletSection hz jiffies) ∧ ∃ v, Sound.vsnd.step s.vsnd a = some v ∧
    s.call v a = some t := by
  cases a with
  | taskletSection hz jiffies =>
    left
    simp only [player] at hs
    split at hs
    · rename_i count htook
      exact ⟨hz, jiffies, count, rfl, htook, (Option.some.inj hs).symm⟩
    · cases hs
  | _ => exact .inr ⟨nofun, Option.bind_eq_some_iff.mp hs⟩

/-- A call of ALSA is none of the driver's steps. -/
theorem call_vsnd {v : Vsnd} {a : Event} (h : s.call v a = some t) : t.vsnd = v := by
  cases a with
  | hwParams | hwFree | prepareBegin | prepare | start | stop =>
    simp only [call] at h
    split at h <;> cases h
    rfl
  | _ =>
    cases h
    rfl

/-- Each step is one of the driver. -/
theorem vsnd_of_step {a : Event} (hs : player.step s a = some t) :
    Sound.vsnd.step s.vsnd a = some t.vsnd := by
  rcases step_cases hs with ⟨hz, jiffies, count, rfl, htook, rfl⟩ | ⟨-, v, hv, hcall⟩
  · simp only [Sound.vsnd, htook, taskletSection_vsnd]
  · rw [hv, call_vsnd hcall]

/-- The invariant. -/
structure Session (s : Play) : Prop where
  placed : s.vsnd.Placed
  running : s.vsnd.running = true → s.stage = .running
  prepared : s.stage ≠ .setup → s.vsnd.prepared = true
  fresh : s.stage = .prepared → s.vsnd.accumBuf = none
  kept : s.stage = .running → s.Kept

/-- A step that leaves the accumulation alone. -/
theorem Session.same (h : s.Session) {v : Vsnd} (hplaced : v.Placed) (hsame : s.vsnd.SameBatch v)
    (hrunning : v.running = s.vsnd.running) (hprep : v.prepared = s.vsnd.prepared) :
    ({ s with vsnd := v } : Play).Session :=
  ⟨hplaced, fun hr => h.running (hrunning ▸ hr), fun hstage => hprep.trans (h.prepared hstage),
    fun hstage => hsame.accumBuf.trans (h.fresh hstage), fun hstage => (h.kept hstage).same hsame _⟩

/-- Nothing is passed, dropped or accumulated at START. -/
theorem kept_start {v : Vsnd} (hnone : v.accumBuf = none) :
    ({ s with vsnd := v, stage := .running, advanced := 0, dropped := [], sent := [] } :
      Play).Kept := by
  have hpending :
      ({ s with vsnd := v, stage := .running, advanced := 0, dropped := [], sent := [] } :
        Play).pending = [] := by
    rw [pending, hnone, Option.elim_none]
  refine ⟨?_, nofun, ?_, List.Sublist.refl _⟩
  · rw [hpending]
    rfl
  · rw [hpending]
    exact Nat.zero_le _

/-- The tasklet takes its turn. -/
theorem Session.taskletSection (h : s.Session) (hz jiffies count : Nat) :
    (s.taskletSection hz jiffies count).Session := by
  have hv := taskletSection_vsnd s hz jiffies count
  have hstage : (s.taskletSection hz jiffies count).stage = s.stage :=
    taskletSection_stage s hz jiffies count
  have hmoves := s.vsnd.taskletSection_moves hz jiffies count
  obtain ⟨hrunning, hidle⟩ := s.vsnd.taskletSection_running hz jiffies count
  refine ⟨hv ▸ hmoves.placed h.placed, fun hr => ?_, fun hs => ?_, fun hs => ?_, fun hs => ?_⟩
  · rw [hv, hrunning] at hr
    exact hstage.trans (h.running hr)
  · rw [hv]
    exact hmoves.prepared.trans (h.prepared (hstage ▸ hs))
  · have hstopped : s.vsnd.running = false := by
      refine Bool.eq_false_of_not_eq_true fun hr => ?_
      rw [hstage, h.running hr] at hs
      cases hs
    rw [hv, (hidle hstopped).accumBuf]
    exact h.fresh (hstage ▸ hs)
  · have hs' := hstage ▸ hs
    exact (h.kept hs').taskletSection h.placed (h.prepared (by rw [hs']; nofun)) hz jiffies count

/-- A stream that does not run is in no session. -/
theorem Session.outside {v : Vsnd} (h : v.Placed) (hrunning : v.running = false)
    {data : Buf → Nat → Option Nat} :
    ({ s with vsnd := v, stage := .setup, data := data } : Play).Session :=
  ⟨h, fun hr => (nomatch hrunning.symm.trans hr), fun hstage => absurd rfl hstage, nofun, nofun⟩

/-- In a session that is not at the running stage the stream does not run. -/
theorem Session.stopped (h : s.Session) (hstage : s.stage ≠ .running) : s.vsnd.running = false :=
  Bool.eq_false_of_not_eq_true fun hr => hstage (h.running hr)

/-- **The step.** -/
theorem Session.step (h : s.Session) {a : Event} (hguard : s.Undisturbed a)
    (hs : player.step s a = some t) : t.Session := by
  -- the buffers' side of the step is that of the pool
  have hplaced := h.placed.step (vsnd_of_step hs)
  rcases step_cases hs with ⟨hz, jiffies, count, rfl, -, rfl⟩ | ⟨hother, v, hv, hcall⟩
  · exact h.taskletSection hz jiffies count
  obtain rfl := call_vsnd hcall
  cases a with
  | taskletSection hz jiffies => exact absurd rfl (hother hz jiffies)
  -- late stop work finds nothing pending, by the condition
  | stopWork =>
    obtain ⟨-, hw⟩ := Option.ite_none_right_eq_some.mp hv
    obtain ⟨hrunning, hprep, hnone, hparams⟩ := s.vsnd.stopSection_fields
    have hfields : t.vsnd.running = s.vsnd.running ∧ t.vsnd.params = s.vsnd.params ∧
        t.vsnd.accumBuf = none := by
      rw [← Option.some.inj hw]
      exact ⟨hrunning, hparams, hnone⟩
    have hprep' : t.vsnd.prepared = s.vsnd.prepared := by
      rw [← Option.some.inj hw]
      exact hprep
    rw [← Option.some.inj hcall]
    refine ⟨hplaced, fun hr => h.running (hfields.1 ▸ hr),
      fun hstage => hprep'.trans (h.prepared hstage), fun _ => hfields.2.2, fun hstage => ?_⟩
    have hnothing : s.pending = [] := by
      rw [pending, hguard hstage]
      cases s.vsnd.accumBuf <;> rfl
    refine (h.kept hstage).congr ?_ ?_ rfl rfl rfl
    · rw [hnothing, pending, hfields.2.2, Option.elim_none]
    · exact hfields.2.1
  -- the stream is stopped while its parameters change
  | hwParams p =>
    obtain ⟨hstage, ht⟩ := Option.ite_none_left_eq_some.mp hcall
    have hrunning : t.vsnd.running = false := by
      rw [← Option.some.inj hv]
      exact h.stopped hstage
    rw [← Option.some.inj ht]
    exact .outside hplaced hrunning
  | hwFree =>
    obtain ⟨hstage, ht⟩ := Option.ite_none_left_eq_some.mp hcall
    obtain ⟨-, hw⟩ := Option.ite_none_left_eq_some.mp hv
    have hrunning : t.vsnd.running = false := by
      rw [← Option.some.inj hw]
      exact h.stopped hstage
    rw [← Option.some.inj ht]
    exact .outside hplaced hrunning
  | prepareBegin =>
    obtain ⟨hstage, ht⟩ := Option.ite_none_left_eq_some.mp hcall
    have hrunning : t.vsnd.running = false := by
      rw [← Option.some.inj hv]
      exact h.stopped hstage
    rw [← Option.some.inj ht]
    exact .outside hplaced hrunning
  -- PREPARE leaves no buffer that is being filled
  | prepare =>
    obtain ⟨hstage, ht⟩ := Option.ite_none_left_eq_some.mp hcall
    obtain ⟨-, hw⟩ := Option.ite_none_right_eq_some.mp hv
    obtain ⟨o, ho⟩ := h.placed.owned
    have hfields : t.vsnd.running = false ∧ t.vsnd.prepared = true ∧ t.vsnd.accumBuf = none := by
      rw [← Option.some.inj hw]
      exact ⟨s.vsnd.prepareSection_running.trans (h.stopped hstage), rfl,
        (Vsnd.prepareSection_spec ho.flagged).1.accumBuf⟩
    rw [← Option.some.inj ht]
    exact ⟨hplaced, fun hr => (nomatch hfields.1.symm.trans hr), fun _ => hfields.2.1,
      fun _ => hfields.2.2, nofun⟩
  -- the first buffer after a start is a fresh one
  | start =>
    obtain ⟨hstage, ht⟩ := Option.ite_none_right_eq_some.mp hcall
    have hfields : t.vsnd.prepared = true ∧ t.vsnd.accumBuf = none := by
      rw [← Option.some.inj hv]
      exact ⟨h.prepared (by rw [hstage]; nofun), h.fresh hstage⟩
    rw [← Option.some.inj ht]
    exact ⟨hplaced, fun _ => rfl, fun _ => hfields.1, nofun, fun _ => kept_start hfields.2⟩
  | stop =>
    obtain ⟨-, ht⟩ := Option.ite_none_right_eq_some.mp hcall
    have hrunning : t.vsnd.running = false := by
      rw [← Option.some.inj hv]
    rw [← Option.some.inj ht]
    exact .outside hplaced hrunning
  -- the other steps leave the session as it is
  | _ =>
    obtain ⟨hsame, hrunning, hprep⟩ := aside_step rfl hv
    have ht := h.same hplaced hsame hrunning hprep
    rwa [Option.some.inj hcall] at ht

/-! ## Runs -/

/-- A stream that is prepared for the first time. -/
theorem session_firstPrepared (p : HwParams) : (firstPrepared p).Session := by
  have hplaced := Vsnd.placed_firstPrepared p
  have hrunning := (Vsnd.probed p).prepareSection_running
  have hnone := (Vsnd.prepareSection_spec (Vsnd.flagged_probed p)).1.accumBuf
  unfold firstPrepared
  unfold Vsnd.firstPrepared at hplaced ⊢
  generalize (Vsnd.probed p).prepareSection = q at hplaced hrunning hnone ⊢
  exact ⟨hplaced, fun hr => (nomatch hrunning.symm.trans hr), fun _ => rfl, fun _ => hnone, nofun⟩

/-- What a stop work throws away is missing. -/
theorem Kept.disturbed (h : s.Kept) (hempty : s.vsnd.accumBuf = none → s.vsnd.accumCount = 0)
    {v : Vsnd} (hnone : v.accumBuf = none) (ht : ({ s with vsnd := v } : Play).Kept) :
    s.vsnd.accumCount = 0 := by
  have hall := ht.all
  rw [show ({ s with vsnd := v } : Play).pending =
    [] by rw [pending, hnone, Option.elim_none]] at hall
  have hlen := congrArg List.length (hall.symm.trans h.all)
  rw [List.length_append, List.length_append] at hlen
  have hpending : s.pending.length = 0 := by
    simp only [List.length_nil] at hlen
    omega
  cases haccum : s.vsnd.accumBuf with
  | none => exact hempty haccum
  | some b =>
    rw [pending, haccum, Option.elim_some, List.length_map, List.length_range] at hpending
    exact hpending

/-- A stream that runs goes on, or is stopped. -/
theorem next_of_running (hstage : s.stage = .running) {a : Event} (hs : player.step s a = some t) :
    t.stage = .running ∨
    t = { s with
      vsnd := { s.vsnd with running := false, stopQueued := true }, stage := .setup } := by
  rcases step_cases hs with ⟨hz, jiffies, count, -, -, rfl⟩ | ⟨-, v, hv, hcall⟩
  · exact .inl ((taskletSection_stage s hz jiffies count).trans hstage)
  cases a with
  | hwParams | hwFree | prepareBegin | prepare =>
    obtain ⟨hidle, -⟩ := Option.ite_none_left_eq_some.mp hcall
    exact absurd hstage hidle
  | start =>
    obtain ⟨hprep, -⟩ := Option.ite_none_right_eq_some.mp hcall
    cases hprep.symm.trans hstage
  | stop =>
    obtain ⟨-, ht⟩ := Option.ite_none_right_eq_some.mp hcall
    obtain rfl := Option.some.inj hv
    exact .inr (Option.some.inj ht).symm
  | _ =>
    obtain rfl := Option.some.inj hcall
    exact .inl hstage

/-- Nothing else but a stop work loses a period. -/
theorem Session.step_kept (h : s.Session) (hstage : s.stage = .running) {a : Event}
    (hs : player.step s a = some t) :
    t.Kept ↔ s.Undisturbed a := by
  have hkept := h.kept hstage
  by_cases hwork : a = .stopWork
  · subst hwork
    refine ⟨fun ht _ => ?_, fun hguard => ?_⟩
    · obtain ⟨v, hv, hcall⟩ := Option.bind_eq_some_iff.mp hs
      obtain ⟨-, hw⟩ := Option.ite_none_right_eq_some.mp hv
      obtain ⟨-, -, hnone, -⟩ := s.vsnd.stopSection_fields
      obtain rfl := Option.some.inj hcall
      refine hkept.disturbed h.placed.empty ?_ ht
      rw [← Option.some.inj hw]
      exact hnone
    · refine (h.step hguard hs).kept ?_
      obtain ⟨v, -, hcall⟩ := Option.bind_eq_some_iff.mp hs
      rw [← Option.some.inj hcall]
      exact hstage
  · have hguard : s.Undisturbed a := by
      cases a with
      | stopWork => exact absurd rfl hwork
      | _ => trivial
    refine iff_of_true ?_ hguard
    rcases next_of_running hstage hs with hrunning | rfl
    · exact (h.step hguard hs).kept hrunning
    · exact hkept.same (v := { s.vsnd with running := false, stopQueued := true }) ⟨rfl, rfl, rfl⟩ _

/-- **No period is lost** while no stop work finds a period in a stream that runs; and a step from
    there loses one exactly if it is such a stop work. -/
theorem no_period_lost {p : HwParams} (hr : player.Reach Undisturbed (firstPrepared p) s)
    (hstage : s.stage = .running) :
    s.Kept ∧ ∀ a t, player.step s a = some t → (t.Kept ↔ s.Undisturbed a) := by
  have h : s.Session := hr.inv (session_firstPrepared p) fun _ _ _ h hg hs => h.step hg hs
  exact ⟨h.kept hstage, fun _ _ hs => h.step_kept hstage hs⟩

/-- Two periods are played and QEMU gets them as one buffer. -/
theorem two_periods_kept : ∃ s : Play, s.sent = [[some 0, some 1]] ∧ s.Kept := by
  obtain ⟨s, hr, hs⟩ :=
    Reach.of_run_any (M := player) (G := Undisturbed) (s := firstPrepared Vsnd.wide)
    (p := fun s => s.stage = .running ∧ s.sent = [[some 0, some 1]])
    [.start, .timer 3, .taskletTake, .taskletSection 100 0, .taskletPutBack] (by decide)
  obtain ⟨hstage, hsent⟩ := of_decide_eq_true hs
  exact ⟨s, hsent, (no_period_lost hr hstage).1⟩

/-- A stop work that was queued before PREPARE runs when the stream has been started again, and
    throws a period away. -/
theorem late_stop_work_loses_a_period : ¬ ∀ (p : HwParams) (s : Play),
    player.Reach Free (firstPrepared p) s → s.stage = .running → s.Kept := by
  intro hall
  obtain ⟨s, hr, hs⟩ := Reach.of_run_any (M := player) (G := Free) (s := firstPrepared Vsnd.wide)
    (p := fun s => s.stage = .running ∧ ¬ s.Kept)
    [.start, .stop, .prepareBegin, .prepare, .start, .timer 1, .taskletTake, .taskletSection 100 0,
      .taskletPutBack, .stopWorkBegin, .stopWork] (by decide +kernel)
  obtain ⟨hstage, hlost⟩ := of_decide_eq_true hs
  exact hlost (hall _ s hr hstage)

end Play

end CdjEmu.Sound
