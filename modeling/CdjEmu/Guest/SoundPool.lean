/-
  EACH SOUND BUFFER IS IN ONE PLACE — the pool, the accumulation buffer or QEMU's queue.

  The abstract view gives every buffer an owner, so a buffer in two places or in none cannot be
  said.  `Holds` relates it to the driver's state: the pool lists the buffers it owns once each, the
  queue likewise, and the flag `in_flight` is up for the buffers that the pool does not own.

  What the sections do to the buffers is a sequence of few MOVES, each with one change of owner;
  PREPARE alone goes over all buffers, and rebuilds the pool from the flags.  The pool has one slot
  more than there are buffers, and a buffer that goes to it comes from elsewhere, so it never runs
  over.

  1. **Program** — `Guest/SoundDriver` has the driver: its sections under the lock, the tasklet, the
     stop work and PREPARE, and a device that uses buffers in any order.

  2. **Specification** — `InOnePlace`: each buffer is in the pool, is being filled, or is QEMU's, in
     one of these and once, and its flag says which; and the accumulation buffer never holds as many
     periods as it has room for, from a PREPARE to the next `hw_params`.

  3. **The crux (`Move.placed`)** — one change of owner keeps the places apart.  That a section is
     made of such changes is proved once for each section, and the runs follow from the moves.

  4. **Bridge** — `hw_params` may change the room of the accumulation buffer while it is filled,
     which is allowed while the stream is stopped; the second half of the result is therefore said
     from PREPARE on.
-/
import CdjEmu.Guest.SoundDriver

namespace CdjEmu.Sound

open Machine

/-! ## Owners -/

/-- Who has a buffer. -/
inductive Owner where
  | pool
  | accum
  | qemu
  deriving DecidableEq

namespace Vsnd

/-- Each buffer is where its owner is. -/
structure Holds (v : Vsnd) (o : Buf → Owner) : Prop where
  pool : ∀ b, b ∈ v.pool.toList ↔ o b = .pool
  poolOnce : v.pool.toList.Nodup
  accum : ∀ b, v.accumBuf = some b ↔ o b = .accum
  qemu : ∀ b, b ∈ v.submitted ++ v.used ↔ o b = .qemu
  qemuOnce : (v.submitted ++ v.used).Nodup
  flag : ∀ b, v.inFlight b = true ↔ o b ≠ .pool

/-- What the sections change that is not about buffers. -/
structure Untouched (v w : Vsnd) : Prop where
  params : w.params = v.params
  inFlight : w.inFlight = v.inFlight
  pool : w.pool = v.pool
  accumBuf : w.accumBuf = v.accumBuf
  accumCount : w.accumCount = v.accumCount
  framesInFlight : w.framesInFlight = v.framesInFlight
  submitted : w.submitted = v.submitted
  used : w.used = v.used
  prepared : w.prepared = v.prepared

/-- Nothing happens to the buffers. -/
theorem Untouched.refl (v : Vsnd) : v.Untouched v := ⟨rfl, rfl, rfl, rfl, rfl, rfl, rfl, rfl, rfl⟩

/-- One change of owner; a buffer that is collected takes `frames` from the count. -/
inductive Move (frames : Int) (v : Vsnd) : Vsnd → Prop
  | other {w : Vsnd} (h : v.Untouched w) : Move frames v w
  | takeBack {b : Buf} {rest : List Buf} (h : v.used = b :: rest) :
      Move frames v ({ v with used := rest }.takeBack frames b)
  | fill (h : v.accumBuf = none) (hpool : v.poolEmpty = false) :
      Move frames v { v.poolPop.2 with accumBuf := some v.poolPop.1 }
  | count {b : Buf} (h : v.accumBuf = some b) (hc : v.accumCount + 1 ≠ v.params.qemuFactor) :
      Move frames v { v with accumCount := v.accumCount + 1 }
  | submit {b : Buf} (h : v.accumBuf = some b) (hc : v.accumCount + 1 = v.params.qemuFactor) :
      Move frames v { v.txSubmit b with accumBuf := none, accumCount := 0 }
  | release {b : Buf} (h : v.accumBuf = some b) :
      Move frames v
        { { v with inFlight := Function.update v.inFlight b false }.poolPush b with
          accumBuf := none, accumCount := 0 }
  | returns {b : Buf} (h : b ∈ v.submitted) :
      Move frames v { v with submitted := v.submitted.erase b, used := v.used ++ [b] }

/-- A sequence of moves. -/
abbrev Moves (frames : Int) : Vsnd → Vsnd → Prop := Relation.ReflTransGen (Move frames)

variable {frames : Int} {v w : Vsnd}

/-- Moving a buffer leaves the stream's parameters. -/
theorem Move.params (h : Move frames v w) : w.params = v.params := by
  cases h with
  | other h => exact h.params
  | takeBack | fill | count | submit | release | returns => rfl

theorem Moves.params (h : Moves frames v w) : w.params = v.params := by
  induction h with
  | refl => rfl
  | tail _ h ih => exact h.params.trans ih

/-! ## What the sections do -/

/-- Collecting only moves buffers, from those that have come back. -/
theorem collectLoop_moves (n : Nat) (v : Vsnd) : Moves frames v (collectLoop frames n v) := by
  induction n generalizing v with
  | zero => exact .refl
  | succ n ih =>
    rw [collectLoop]
    split
    · exact .refl
    · rename_i b rest hused
      exact .head (.takeBack hused) (ih _)

theorem collect_moves (v : Vsnd) : Moves frames v (v.collect frames) := collectLoop_moves _ v

/-- Copying a period is one move, or submits the buffer. -/
theorem accumulate_moves {b : Buf} (h : v.accumBuf = some b) : Moves frames v (v.accumulate b) := by
  have hcopy : v.Untouched
      { v with hwPtr := (v.hwPtr + v.params.periodSize) % v.params.bufferSize } :=
    ⟨rfl, rfl, rfl, rfl, rfl, rfl, rfl, rfl, rfl⟩
  refine .head (.other hcopy) (.single ?_)
  unfold accumulate
  dsimp only
  split
  · rename_i hc
    exact .submit (v := { v with hwPtr := _ }) h hc
  · rename_i hc
    exact .count (v := { v with hwPtr := _ }) h hc

/-- A stall moves none. -/
theorem stall_untouched (v : Vsnd) : v.Untouched v.stall.1 := by
  unfold stall
  dsimp only
  split
  · exact ⟨rfl, rfl, rfl, rfl, rfl, rfl, rfl, rfl, rfl⟩
  · split
    · exact ⟨rfl, rfl, rfl, rfl, rfl, rfl, rfl, rfl, rfl⟩
    · split <;> exact ⟨rfl, rfl, rfl, rfl, rfl, rfl, rfl, rfl, rfl⟩

/-- A batch starts with a buffer of the pool. -/
theorem startBatch_moves (h : v.accumBuf = none) (hpool : v.poolEmpty = false) :
    Moves frames v v.startBatch.2 ∧ v.startBatch.2.accumBuf = some v.startBatch.1 := by
  refine ⟨?_, rfl⟩
  unfold startBatch
  dsimp only
  split
  · have hreset : v.Untouched { v with poolStallTicks := 0, phase2Streak := 0 } :=
      ⟨rfl, rfl, rfl, rfl, rfl, rfl, rfl, rfl, rfl⟩
    exact .head (.other hreset)
      (.single (.fill (v := { v with poolStallTicks := 0, phase2Streak := 0 }) h hpool))
  · exact .single (.fill h hpool)

/-- Collecting leaves the buffer that is being filled. -/
theorem collectLoop_accumBuf (n : Nat) (v : Vsnd) :
    (collectLoop frames n v).accumBuf = v.accumBuf := by
  induction n generalizing v with
  | zero => rfl
  | succ n ih =>
    rw [collectLoop]
    split
    · rfl
    · exact ih _

/-- A period moves them from the pool to the device. -/
theorem period_moves (v : Vsnd) : Moves v.params.bufFrames v v.period.1 := by
  unfold period
  split
  · rename_i b h
    exact accumulate_moves h
  · rename_i h
    dsimp only
    -- the returned buffers are collected first when the pool is empty
    generalize hu : (if v.poolEmpty = true then v.collect v.params.bufFrames else v) = u
    have hmoves : Moves v.params.bufFrames v u := by
      rw [← hu]
      split
      · exact collect_moves v
      · exact .refl
    have hnone : u.accumBuf = none := by
      rw [← hu]
      split
      · exact (collectLoop_accumBuf _ v).trans h
      · exact h
    split
    · exact hmoves.trans (.single (.other u.stall_untouched))
    · rename_i hpool
      obtain ⟨hstart, haccum⟩ := startBatch_moves hnone (by simpa using hpool)
      exact (hmoves.trans hstart).trans (accumulate_moves haccum)

/-- So does a batch of them. -/
theorem periods_moves (n : Nat) (v : Vsnd) : Moves v.params.bufFrames v (periods n v).1 := by
  induction n generalizing v with
  | zero => exact .refl
  | succ n ih =>
    have hone := period_moves v
    unfold periods
    split
    · rename_i u hp
      rwa [hp] at hone
    · rename_i u hp
      rw [hp] at hone
      have hrest := ih u
      rw [hone.params] at hrest
      exact hone.trans hrest

/-- The watchdog moves none. -/
theorem watchdog_untouched (v : Vsnd) (hz jiffies : Nat) : v.Untouched (v.watchdog hz jiffies) := by
  unfold watchdog
  (repeat' split) <;> exact ⟨rfl, rfl, rfl, rfl, rfl, rfl, rfl, rfl, rfl⟩

/-- The tasklet's section moves buffers. -/
theorem taskletSection_moves (v : Vsnd) (hz jiffies count : Nat) :
    Moves v.params.bufFrames v (v.taskletSection hz jiffies count) := by
  unfold taskletSection
  split
  · dsimp only
    generalize hu : (if v.params.bufferSize / v.params.periodSize - 1 < count then
      { v with pendingPeriods :=
        v.pendingPeriods + (count - (v.params.bufferSize / v.params.periodSize - 1)) }
      else v) = u
    have huntouched : v.Untouched u := by
      rw [← hu]
      split
      · exact ⟨rfl, rfl, rfl, rfl, rfl, rfl, rfl, rfl, rfl⟩
      · exact .refl v
    have hloop := periods_moves (min count (v.params.bufferSize / v.params.periodSize - 1)) u
    rw [huntouched.params] at hloop
    refine .head (.other huntouched) (hloop.trans ?_)
    have hdog := watchdog_untouched
        (periods (min count (v.params.bufferSize / v.params.periodSize - 1)) u).1 hz jiffies
    exact .head (.other hdog) (.single (.other ⟨rfl, rfl, rfl, rfl, rfl, rfl, rfl, rfl, rfl⟩))
  · exact .single (.other ⟨rfl, rfl, rfl, rfl, rfl, rfl, rfl, rfl, rfl⟩)

/-- Stopping moves them too. -/
theorem stopSection_moves (v : Vsnd) : Moves 0 v v.stopSection := by
  refine (collect_moves v).trans ?_
  unfold stopSection
  dsimp only
  split
  · rename_i b h
    exact .single (.release h)
  · exact .refl

/-! ## A move keeps each buffer in one place -/

variable {o : Buf → Owner}

/-- Giving `b` to `y` takes it from every other owner. -/
theorem update_eq_iff {b : Buf} {x y : Owner} (hx : x ≠ y) (c : Buf) :
    Function.update o b y c = x ↔ o c = x ∧ c ≠ b := by
  by_cases hc : c = b
  · subst hc
    simp [Ne.symm hx]
  · simp [hc]

/-- A buffer that the pool does not own has a slot free. -/
theorem Holds.room (h : v.Holds o) {b : Buf} (hb : o b ≠ .pool) : v.pool.count < txBufs := by
  have hnot : b ∉ v.pool.toList := fun hm => hb ((h.pool b).mp hm)
  have hlen := (List.nodup_cons.mpr ⟨hnot, h.poolOnce⟩).length_le_card
  rw [List.length_cons, Ring.length_toList, Fintype.card_fin] at hlen
  omega

/-- A buffer that was not in the pool goes behind the others. -/
theorem Holds.toList_push (h : v.Holds o) {b : Buf} (hb : o b ≠ .pool) :
    (v.pool.push b).toList = v.pool.toList ++ [b] := by
  have hroom := h.room hb
  exact v.pool.toList_push (Nat.dvd_refl _) (by omega) (by omega)

/-- **A buffer goes to the pool**: it leaves where it was, and its flag is down. -/
theorem Holds.freed (h : v.Holds o) {b : Buf} (hb : o b ≠ .pool) (hpool : w.pool = v.pool.push b)
    (hflag : w.inFlight = Function.update v.inFlight b false)
    (haccum : ∀ c, w.accumBuf = some c ↔ v.accumBuf = some c ∧ c ≠ b)
    (hqemu : ∀ c, c ∈ w.submitted ++ w.used ↔ c ∈ v.submitted ++ v.used ∧ c ≠ b)
    (honce : (w.submitted ++ w.used).Nodup) : w.Holds (Function.update o b .pool) := by
  have hlist : w.pool.toList = v.pool.toList ++ [b] := by rw [hpool, h.toList_push hb]
  refine ⟨fun c => ?_, ?_, fun c => ?_, fun c => ?_, honce, fun c => ?_⟩
  · rw [hlist, List.mem_append, List.mem_singleton, h.pool c]
    by_cases hc : c = b
    · subst hc
      simp
    · simp [hc]
  · rw [hlist]
    have hnot : b ∉ v.pool.toList := fun hm => hb ((h.pool b).mp hm)
    exact List.nodup_append.mpr ⟨h.poolOnce, List.nodup_singleton b, fun x hx y hy => by
      obtain rfl := List.mem_singleton.mp hy
      exact fun he => hnot (he ▸ hx)⟩
  · rw [haccum, update_eq_iff (by decide) c, h.accum c]
  · rw [hqemu, update_eq_iff (by decide) c, h.qemu c]
  · rw [hflag]
    by_cases hc : c = b
    · subst hc
      simp
    · rw [Function.update_of_ne hc, Function.update_of_ne hc]
      exact h.flag c

/-- Who has which buffer is seen from the buffers alone. -/
theorem Holds.untouched (h : v.Holds o) (hu : v.Untouched w) : w.Holds o := by
  refine ⟨?_, ?_, ?_, ?_, ?_, ?_⟩
  · rw [hu.pool]
    exact h.pool
  · rw [hu.pool]
    exact h.poolOnce
  · rw [hu.accumBuf]
    exact h.accum
  · rw [hu.submitted, hu.used]
    exact h.qemu
  · rw [hu.submitted, hu.used]
    exact h.qemuOnce
  · rw [hu.inFlight]
    exact h.flag

/-- **The step**: a move changes at most one buffer's owner. -/
theorem Move.holds (hm : Move frames v w) (h : v.Holds o) : ∃ o', w.Holds o' := by
  cases hm with
  -- each case says where its buffer goes
  | other hu => exact ⟨o, h.untouched hu⟩
  | @takeBack b rest hused =>
    -- a used buffer was QEMU's, and it is in the queues once
    have hqemu : o b = .qemu := (h.qemu b).mp (by simp [hused])
    have honce := h.qemuOnce
    rw [hused] at honce
    have hperm : (v.submitted ++ b :: rest).Perm (b :: (v.submitted ++ rest)) := List.perm_middle
    have honce' := List.nodup_cons.mp (hperm.nodup_iff.mp honce)
    refine ⟨_, h.freed (b := b) (by rw [hqemu]; decide) rfl rfl (fun c => ?_)
      (fun c => ?_) honce'.2⟩
    · show v.accumBuf = some c ↔ _
      constructor
      · intro hc
        refine ⟨hc, ?_⟩
        rintro rfl
        cases hqemu.symm.trans ((h.accum c).mp hc)
      · exact fun hc => hc.1
    · show c ∈ v.submitted ++ rest ↔ _
      rw [hused, hperm.mem_iff, List.mem_cons]
      constructor
      · exact fun hc => ⟨Or.inr hc, fun he => honce'.1 (he ▸ hc)⟩
      · rintro ⟨rfl | hc, hne⟩
        · exact absurd rfl hne
        · exact hc
  | fill hnone hpool =>
    -- the pool is not empty, so its first buffer goes to the period
    have hcount : 0 < v.pool.count := by
      refine Nat.pos_of_ne_zero fun h0 => ?_
      have := v.pool.count_eq_zero.mp h0
      simp [poolEmpty, this] at hpool
    have hlist := v.pool.toList_cons hcount
    generalize hb : v.pool.entry 0 = b at hlist
    have hpoolb : o b = .pool := (h.pool b).mp (by rw [hlist]; exact List.mem_cons_self)
    have honce := h.poolOnce
    rw [hlist] at honce
    have honce' := List.nodup_cons.mp honce
    -- no buffer is being filled, so none has that owner
    have hnoaccum : ∀ c, o c ≠ .accum := fun c hc => by
      have := (h.accum c).mpr hc
      rw [hnone] at this
      cases this
    refine ⟨Function.update o b .accum,
      ⟨fun c => ?_, honce'.2, fun c => ?_, fun c => ?_, h.qemuOnce, fun c => ?_⟩⟩
    · show c ∈ v.pool.drop.toList ↔ _
      rw [update_eq_iff (by decide) c, ← h.pool c, hlist, List.mem_cons]
      constructor
      · exact fun hc => ⟨Or.inr hc, fun he => honce'.1 (he ▸ hc)⟩
      · rintro ⟨rfl | hc, hne⟩
        · exact absurd rfl hne
        · exact hc
    · show some (v.pool.entry 0) = some c ↔ _
      rw [hb]
      by_cases hc : c = b
      · subst hc
        simp
      · rw [Function.update_of_ne hc]
        simp [Ne.symm hc, hnoaccum c]
    · show c ∈ v.submitted ++ v.used ↔ _
      rw [update_eq_iff (by decide) c, h.qemu c]
      constructor
      · refine fun hc => ⟨hc, ?_⟩
        rintro rfl
        cases hpoolb.symm.trans hc
      · exact fun hc => hc.1
    · show Function.update v.inFlight (v.pool.entry 0) true c = true ↔ _
      rw [hb]
      by_cases hc : c = b
      · subst hc
        simp
      · rw [Function.update_of_ne hc, Function.update_of_ne hc]
        exact h.flag c
  | count _ _ => exact ⟨o, ⟨h.pool, h.poolOnce, h.accum, h.qemu, h.qemuOnce, h.flag⟩⟩
  | @submit b haccum _ =>
    -- the buffer that was filled becomes QEMU's; it was in no queue before
    have hb : o b = .accum := (h.accum b).mp haccum
    have hnot : b ∉ v.submitted ++ v.used := fun hm => by cases hb.symm.trans ((h.qemu b).mp hm)
    have hperm : (v.submitted ++ [b] ++ v.used).Perm (b :: (v.submitted ++ v.used)) := by
      rw [List.append_assoc]
      exact List.perm_middle
    refine ⟨Function.update o b .qemu,
      ⟨fun c => ?_, h.poolOnce, fun c => ?_, fun c => ?_, ?_, fun c => ?_⟩⟩
    · show c ∈ v.pool.toList ↔ _
      -- for each of the owners: who has a buffer is as it was, but for this one
      rw [update_eq_iff (by decide) c, h.pool c]
      constructor
      · refine fun hc => ⟨hc, ?_⟩
        rintro rfl
        cases hb.symm.trans hc
      · exact fun hc => hc.1
    · show none = some c ↔ _
      rw [update_eq_iff (by decide) c, ← h.accum c, haccum]
      simp [eq_comm]
    · show c ∈ v.submitted ++ [b] ++ v.used ↔ _
      rw [hperm.mem_iff, List.mem_cons, h.qemu c]
      by_cases hc : c = b
      · subst hc
        simp
      · simp [hc]
    · exact hperm.nodup_iff.mpr (List.nodup_cons.mpr ⟨hnot, h.qemuOnce⟩)
    · show v.inFlight c = true ↔ _
      by_cases hc : c = b
      · subst hc
        simp [h.flag c, hb]
      · rw [Function.update_of_ne hc]
        exact h.flag c
  | @release b haccum =>
    -- the one being filled goes back to the pool
    have hb : o b = .accum := (h.accum b).mp haccum
    have hnot : ∀ c, c ∈ v.submitted ++ v.used → c ≠ b := by
      rintro c hm rfl
      cases hb.symm.trans ((h.qemu c).mp hm)
    refine ⟨_, h.freed (b := b) (by rw [hb]; decide) rfl rfl (fun c => ?_) (fun c => ?_) h.qemuOnce⟩
    · show none = some c ↔ _
      rw [haccum]
      simp [eq_comm]
    · exact ⟨fun hc => ⟨hc, hnot c hc⟩, fun hc => hc.1⟩
  | @returns b hb =>
    -- a buffer that QEMU is done with stays in its queues, further on
    have hperm : (v.submitted.erase b ++ (v.used ++ [b])).Perm (v.submitted ++ v.used) := by
      have hback : (v.submitted.erase b ++ (v.used ++ [b])).Perm
          (b :: v.submitted.erase b ++ v.used) := by
        rw [← List.append_assoc]
        exact List.perm_append_singleton _ _
      exact hback.trans ((List.perm_cons_erase hb).symm.append_right _)
    exact ⟨o, ⟨h.pool, h.poolOnce, h.accum, fun c => by rw [← h.qemu c]; exact hperm.mem_iff,
      hperm.nodup_iff.mpr h.qemuOnce, h.flag⟩⟩

/-! ## PREPARE -/

/-- The flags are up for what QEMU holds and what is being filled. -/
structure Flagged (v : Vsnd) : Prop where
  flag : ∀ b, v.inFlight b = true ↔ v.accumBuf = some b ∨ b ∈ v.submitted ++ v.used
  once : (v.submitted ++ v.used).Nodup
  apart : ∀ b, v.accumBuf = some b → b ∉ v.submitted ++ v.used

/-- The flags agree with who has them. -/
theorem Holds.flagged (h : v.Holds o) : v.Flagged := by
  refine ⟨fun b => ?_, h.qemuOnce, fun b hb hm => ?_⟩
  · rw [h.flag, h.accum, h.qemu]
    cases o b <;> simp
  · cases ((h.accum b).mp hb).symm.trans ((h.qemu b).mp hm)

/-- A driver that has been probed has all of them in the pool. -/
theorem flagged_probed (p : HwParams) : (probed p).Flagged := by
  refine ⟨fun b => ?_, List.nodup_nil, fun b hb => by cases hb⟩
  simp [probed]

/-- The loop that rebuilds the pool pushes the buffers without a flag. -/
theorem foldl_poolPush (l : List Buf) (v : Vsnd) (h : v.pool.count + l.length ≤ txBufs) :
    ∃ pool : Ring Buf (txBufs + 1) (txBufs + 1),
      l.foldl (fun v b => if v.inFlight b then v else v.poolPush b) v = { v with pool := pool } ∧
      pool.toList = v.pool.toList ++ l.filter fun b => !v.inFlight b := by
  induction l generalizing v with
  | nil => exact ⟨v.pool, rfl, by simp⟩
  | cons b l ih =>
    rw [List.length_cons] at h
    rw [List.foldl_cons, List.filter_cons]
    by_cases hb : v.inFlight b = true
    · rw [if_pos hb]
      obtain ⟨pool, hfold, hlist⟩ := ih v (by omega)
      exact ⟨pool, hfold, by simpa [hb] using hlist⟩
    · rw [if_neg hb]
      have hcount : (v.poolPush b).pool.count = v.pool.count + 1 := v.pool.count_push (by omega)
      obtain ⟨pool, hfold, hlist⟩ := ih (v.poolPush b) (by omega)
      refine ⟨pool, hfold, ?_⟩
      have hpush : (v.poolPush b).pool.toList = v.pool.toList ++ [b] :=
        v.pool.toList_push (Nat.dvd_refl _) (by omega) (by omega)
      rw [hlist, hpush]
      simp [poolPush, hb]

/-- What PREPARE leaves alone, and the count it starts from. -/
structure Prepared (v w : Vsnd) : Prop where
  params : w.params = v.params
  accumBuf : w.accumBuf = none
  accumCount : w.accumCount = 0
  submitted : w.submitted = v.submitted
  used : w.used = v.used
  framesInFlight : w.framesInFlight = v.reseed

/-- A reset leaves with the device what the device has. -/
theorem resetStream_spec (h : v.Flagged) :
    v.Prepared v.resetStream ∧ ∀ b, v.resetStream.inFlight b = true ↔
    b ∈ v.submitted ++ v.used := by
  unfold resetStream
  dsimp only
  split
  · rename_i b hb
    refine ⟨⟨rfl, rfl, rfl, rfl, rfl, rfl⟩, fun c => ?_⟩
    show Function.update v.inFlight b false c = true ↔ _
    by_cases hc : c = b
    · subst hc
      simpa using h.apart c hb
    · rw [Function.update_of_ne hc, h.flag c, show v.accumBuf = some b from hb]
      simp [Ne.symm hc]
  · rename_i hnone
    refine ⟨⟨rfl, hnone, rfl, rfl, rfl, rfl⟩, fun c => ?_⟩
    show v.inFlight c = true ↔ _
    rw [h.flag c, show v.accumBuf = none from hnone]
    simp

/-- **PREPARE** gives the pool every buffer that QEMU does not hold. -/
theorem prepareSection_spec (h : v.Flagged) :
    v.Prepared v.prepareSection ∧ ∃ o, v.prepareSection.Holds o := by
  -- after the reset the flags say who is QEMU's
  obtain ⟨hkept, hflag⟩ := resetStream_spec h
  -- the loop pushes every buffer that is not flagged
  obtain ⟨pool, hfold, hlist⟩ := foldl_poolPush (List.finRange txBufs)
    { v.resetStream with pool := ⟨v.resetStream.pool.slot, 0, 0, by decide, by decide⟩ }
      (by simp [Ring.count])
  have hsection : v.prepareSection = { v.resetStream with pool := pool } := hfold
  have hpool : pool.toList = (List.finRange txBufs).filter fun b => !v.resetStream.inFlight b := by
    simpa [Ring.toList, Ring.count] using hlist
  rw [hsection]
  -- the owner of a buffer is read off the queues
  refine ⟨⟨hkept.params, hkept.accumBuf, hkept.accumCount, hkept.submitted, hkept.used,
    hkept.framesInFlight⟩, fun b => if b ∈ v.submitted ++ v.used then .qemu else .pool, ?_, ?_, ?_,
      ?_, ?_, ?_⟩
  · intro b
    show b ∈ pool.toList ↔ (if b ∈ v.submitted ++ v.used then Owner.qemu else .pool) = .pool
    rw [hpool, List.mem_filter]
    -- in the queues or in the pool, one of the two
    by_cases hb : b ∈ v.submitted ++ v.used
    · rw [if_pos hb, (hflag b).mpr hb]
      simp
    · rw [if_neg hb, Bool.eq_false_iff.mpr fun he => hb ((hflag b).mp he)]
      simp
  · show pool.toList.Nodup
    rw [hpool]
    exact (List.nodup_finRange _).filter _
  · intro b
    show v.resetStream.accumBuf = some b ↔
        (if b ∈ v.submitted ++ v.used then Owner.qemu else .pool) = .accum
    rw [hkept.accumBuf]
    split <;> simp
  · intro b
    show b ∈ v.resetStream.submitted ++ v.resetStream.used ↔
        (if b ∈ v.submitted ++ v.used then Owner.qemu else .pool) = .qemu
    rw [hkept.submitted, hkept.used]
    by_cases hb : b ∈ v.submitted ++ v.used
    · rw [if_pos hb]
      exact iff_of_true hb rfl
    · rw [if_neg hb]
      exact iff_of_false hb (by decide)
  · show (v.resetStream.submitted ++ v.resetStream.used).Nodup
    rw [hkept.submitted, hkept.used]
    exact h.once
  · intro b
    show v.resetStream.inFlight b = true ↔
        (if b ∈ v.submitted ++ v.used then Owner.qemu else .pool) ≠ .pool
    rw [hflag b]
    by_cases hb : b ∈ v.submitted ++ v.used
    · rw [if_pos hb]
      exact iff_of_true hb (by decide)
    · rw [if_neg hb]
      exact iff_of_false hb (by decide)

/-! ## Runs -/

/-- What a step does to the buffers. -/
theorem step_cases {a : Event} (h : vsnd.step v a = some w) :
    (∃ p, a = .hwParams p ∧ w = { v with params := p.params, prepared := false }) ∨
    (a = .prepare ∧ w = { v.prepareSection with preparing := false, prepared := true }) ∨
    (a = .stopWork ∧ w = { v.stopSection with stopRunning := false }) ∨
    (a ≠ .prepare ∧ a ≠ .stopWork ∧ Moves v.params.bufFrames v w) := by
  -- the two works change many buffers at once; every other step is a few moves
  cases a with
  | hwParams p =>
    cases h
    exact .inl ⟨p, rfl, rfl⟩
  | prepare =>
    simp only [vsnd] at h
    split at h
    · cases h
      exact .inr (.inl ⟨rfl, rfl⟩)
    · cases h
  | stopWork =>
    simp only [vsnd] at h
    split at h
    · cases h
      exact .inr (.inr (.inl ⟨rfl, rfl⟩))
    · cases h
  | txDone =>
    cases h
    exact .inr (.inr (.inr ⟨(by simp), (by simp), collect_moves v⟩))
  | taskletSection hz jiffies =>
    simp only [vsnd] at h
    split at h
    · cases h
      exact .inr (.inr (.inr ⟨(by simp), (by simp), taskletSection_moves v ..⟩))
    · cases h
  | returns b =>
    simp only [vsnd] at h
    split at h
    · rename_i hb
      cases h
      exact .inr (.inr (.inr ⟨(by simp), (by simp), .single (.returns hb)⟩))
    · cases h
  -- these leave the buffers alone
  | hwFree | stopWorkBegin =>
    simp only [vsnd] at h
    split at h <;> cases h
    exact .inr (.inr
      (.inr ⟨(by simp), (by simp), .single (.other ⟨rfl, rfl, rfl, rfl, rfl, rfl, rfl, rfl, rfl⟩)⟩))
  | taskletTake | taskletPutBack =>
    simp only [vsnd] at h
    split at h <;> cases h
    exact .inr (.inr
      (.inr ⟨(by simp), (by simp), .single (.other ⟨rfl, rfl, rfl, rfl, rfl, rfl, rfl, rfl, rfl⟩)⟩))
  | prepareBegin | start | stop =>
    cases h
    exact .inr (.inr
      (.inr ⟨(by simp), (by simp), .single (.other ⟨rfl, rfl, rfl, rfl, rfl, rfl, rfl, rfl, rfl⟩)⟩))
  | timer overrun =>
    cases h
    -- the timer sets the pointer of the stream only
    refine .inr (.inr (.inr ⟨(by simp), (by simp), .single (.other ?_)⟩))
    unfold timer
    split <;> exact ⟨rfl, rfl, rfl, rfl, rfl, rfl, rfl, rfl, rfl⟩

/-- The invariant: the buffers have owners, and the accumulation buffer is not full. -/
structure Placed (v : Vsnd) : Prop where
  owned : ∃ o, v.Holds o
  empty : v.accumBuf = none → v.accumCount = 0
  factor : 0 < v.params.qemuFactor
  partly : v.prepared = true → v.accumCount < v.params.qemuFactor

/-- A stream's factor is at least 1. -/
theorem factor_pos (p : HwParams) : 0 < p.params.qemuFactor :=
  Nat.lt_of_lt_of_le Nat.one_pos (Nat.le_max_left _ _)

/-- Each buffer stays in one place. -/
theorem Move.placed (hm : Move frames v w) (h : v.Placed) : w.Placed := by
  obtain ⟨o, ho⟩ := h.owned
  refine ⟨hm.holds ho, ?_, by rw [hm.params]; exact h.factor, ?_⟩
  · cases hm with
    | other hu =>
      rw [hu.accumBuf, hu.accumCount]
      exact h.empty
    | takeBack _ | returns _ => exact h.empty
    | fill _ _ => exact fun hnone => by cases hnone
    | count haccum _ => exact fun hnone => by cases haccum.symm.trans hnone
    | submit _ _ | release _ => exact fun _ => rfl
  · cases hm with
    | other hu =>
      rw [hu.prepared, hu.accumCount, hu.params]
      exact h.partly
    | takeBack _ | returns _ | fill _ _ => exact h.partly
    | count _ hc =>
      intro hprep
      have := h.partly hprep
      show v.accumCount + 1 < v.params.qemuFactor
      omega
    | submit _ _ | release _ => exact fun _ => h.factor

theorem Moves.placed (hm : Moves frames v w) (h : v.Placed) : w.Placed := by
  induction hm with
  | refl => exact h
  | tail _ hm ih => exact hm.placed ih

/-- Preparing puts each buffer into one place. -/
theorem Flagged.placed_prepare (h : v.Flagged) (hfactor : 0 < v.params.qemuFactor)
    (preparing : Bool) :
    Placed { v.prepareSection with preparing := preparing, prepared := true } := by
  obtain ⟨hkept, o, ho⟩ := prepareSection_spec h
  refine ⟨⟨o, ⟨ho.pool, ho.poolOnce, ho.accum, ho.qemu, ho.qemuOnce, ho.flag⟩⟩,
    fun _ => hkept.accumCount, ?_, fun _ => ?_⟩
  · show 0 < v.prepareSection.params.qemuFactor
    rw [hkept.params]
    exact hfactor
  · show v.prepareSection.accumCount < v.prepareSection.params.qemuFactor
    rw [hkept.accumCount, hkept.params]
    exact hfactor

/-- So does the first time. -/
theorem placed_firstPrepared (p : HwParams) : (firstPrepared p).Placed :=
  (flagged_probed p).placed_prepare (factor_pos p) _

/-- Every step of the driver keeps it there. -/
theorem Placed.step {a : Event} (h : v.Placed) (hs : vsnd.step v a = some w) : w.Placed := by
  obtain ⟨o, ho⟩ := h.owned
  rcases step_cases hs with ⟨p, -, rfl⟩ | ⟨-, rfl⟩ | ⟨-, rfl⟩ | ⟨-, -, hm⟩
  · exact ⟨⟨o, ⟨ho.pool, ho.poolOnce, ho.accum, ho.qemu, ho.qemuOnce, ho.flag⟩⟩, h.empty,
      factor_pos p, fun hp => by cases hp⟩
  · exact ho.flagged.placed_prepare h.factor false
  · have hstop := (stopSection_moves v).placed h
    obtain ⟨o', ho'⟩ := hstop.owned
    exact ⟨⟨o', ⟨ho'.pool, ho'.poolOnce, ho'.accum, ho'.qemu, ho'.qemuOnce, ho'.flag⟩⟩, hstop.empty,
      hstop.factor, hstop.partly⟩
  · exact hm.placed h

/-- So does every run of steps. -/
theorem placed_of_reach {G : Vsnd → Event → Prop} {p : HwParams}
    (h : vsnd.Reach G (firstPrepared p) v) : v.Placed :=
  h.inv (placed_firstPrepared p) fun _ _ _ hp _ hs => hp.step hs

/-! ## One place for each buffer -/

/-- `b` is in this place. -/
def In (v : Vsnd) (b : Buf) : Owner → Prop
  | .pool => b ∈ v.pool.toList
  | .accum => v.accumBuf = some b
  | .qemu => b ∈ v.submitted ++ v.used

/-- Each buffer is in exactly one place, and the flags say so. -/
structure InOnePlace (v : Vsnd) : Prop where
  place : ∀ b, ∃! x, v.In b x
  poolOnce : v.pool.toList.Nodup
  queueOnce : (v.submitted ++ v.used).Nodup
  /-- The places hold all buffers, so the pool has one of its slots free. -/
  fits : v.pool.toList.length + v.accumBuf.toList.length + (v.submitted ++ v.used).length = txBufs
  flag : ∀ b, v.inFlight b = true ↔ v.In b .accum ∨ v.In b .qemu
  empty : v.accumBuf = none → v.accumCount = 0

/-- A buffer is in the place of the one who has it. -/
theorem Holds.in_iff (h : v.Holds o) (b : Buf) (x : Owner) : v.In b x ↔ o b = x := by
  cases x with
  | pool => exact h.pool b
  | accum => exact h.accum b
  | qemu => exact h.qemu b

/-- The places together have all buffers. -/
theorem Holds.fits (h : v.Holds o) :
    v.pool.toList.length + v.accumBuf.toList.length + (v.submitted ++ v.used).length = txBufs := by
  have honce : (v.pool.toList ++ (v.accumBuf.toList ++ (v.submitted ++ v.used))).Nodup := by
    refine List.nodup_append.mpr ⟨h.poolOnce, List.nodup_append.mpr ⟨?_, h.qemuOnce, ?_⟩, ?_⟩
    · cases v.accumBuf <;> simp
    · rintro b hb c hc rfl
      cases ((h.accum b).mp (Option.mem_toList.mp hb)).symm.trans ((h.qemu b).mp hc)
    · rintro b hb c hc rfl
      have hpool := (h.pool b).mp hb
      rcases List.mem_append.mp hc with hc | hc
      · cases hpool.symm.trans ((h.accum b).mp (Option.mem_toList.mp hc))
      · cases hpool.symm.trans ((h.qemu b).mp hc)
  have hall : ∀ b, b ∈ v.pool.toList ++ (v.accumBuf.toList ++ (v.submitted ++ v.used)) := by
    intro b
    rw [List.mem_append, List.mem_append (s := v.accumBuf.toList), Option.mem_toList, h.pool,
      h.accum, h.qemu]
    cases o b <;> simp
  have hperm : (v.pool.toList ++ (v.accumBuf.toList ++ (v.submitted ++ v.used))).Perm
      (List.finRange txBufs) :=
    (List.perm_ext_iff_of_nodup honce (List.nodup_finRange _)).mpr fun b => by simp [hall b]
  have hlen := hperm.length_eq
  rw [List.length_finRange, List.length_append, List.length_append] at hlen
  omega

/-- That is the property of the states reached. -/
theorem Placed.inOnePlace (h : v.Placed) : v.InOnePlace := by
  obtain ⟨o, ho⟩ := h.owned
  refine ⟨fun b => ⟨o b, (ho.in_iff b _).mpr rfl, fun x hx => ((ho.in_iff b x).mp hx).symm⟩,
    ho.poolOnce, ho.qemuOnce, ho.fits, fun b => ?_, h.empty⟩
  rw [ho.flag, ho.in_iff, ho.in_iff]
  cases o b <;> simp

/-- From the first PREPARE on each buffer is in one place; and from a PREPARE to the next
    `hw_params` the accumulation buffer holds fewer periods than it has room for. -/
theorem each_buffer_in_one_place {p : HwParams} (h : vsnd.Reach Free (firstPrepared p) v) :
    v.InOnePlace ∧ (v.prepared = true → v.accumCount ≤ v.params.qemuFactor - 1) := by
  have hplaced := placed_of_reach h
  exact ⟨hplaced.inOnePlace, fun hprep => Nat.le_sub_one_of_lt (hplaced.partly hprep)⟩

/-- Two periods of 512 frames in a buffer. -/
def wide : HwParams := ⟨.s32, 512, 4, by decide⟩

/-- The same number of octets in a period, in half the octets a frame. -/
def narrow : HwParams := ⟨.s16, 1024, 4, by decide⟩

set_option maxRecDepth 4000 in
/-- One period is played before PREPARE comes again. -/
theorem one_period_in_one_place : ∃ v : Vsnd, v.accumCount = 1 ∧ v.InOnePlace ∧
    v.accumCount ≤ v.params.qemuFactor - 1 := by
  obtain ⟨v, hreach, hv⟩ := Reach.of_run_any (M := vsnd) (G := Free) (s := firstPrepared wide)
    (p := fun v => v.accumCount == 1 && v.prepared)
    [.start, .timer 1, .taskletTake, .taskletSection 250 1, .taskletPutBack] (by decide)
  simp only [Bool.and_eq_true, beq_iff_eq] at hv
  obtain ⟨hplace, hpartly⟩ := each_buffer_in_one_place hreach
  exact ⟨v, hv.1, hplace, hpartly hv.2⟩

set_option maxRecDepth 4000 in
/-- The stream stops with one period in the accumulation buffer, and new parameters make a buffer of
    one period before the stop work or PREPARE empties it. -/
theorem new_params_overfill_the_buffer :
    ¬ ∀ (p : HwParams) (v : Vsnd), vsnd.Reach Free (firstPrepared p) v →
    v.InOnePlace ∧ v.accumCount ≤ v.params.qemuFactor - 1 := by
  intro hall
  obtain ⟨v, hreach, hv⟩ := Reach.of_run_any (M := vsnd) (G := Free) (s := firstPrepared wide)
    (p := fun v => v.accumCount == 1 && v.params.qemuFactor == 1)
    [.start, .timer 1, .taskletTake, .taskletSection 250 1, .taskletPutBack, .stop,
      .hwParams narrow] (by decide)
  simp only [Bool.and_eq_true, beq_iff_eq] at hv
  have hle := (hall wide v hreach).2
  omega

end Vsnd

end CdjEmu.Sound
