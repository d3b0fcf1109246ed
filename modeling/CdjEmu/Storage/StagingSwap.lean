/-
  THE SWAP — `apply_staged` across crashes and retries.

  `apply_staged` takes a staged file that is not there for one that an earlier try has already moved
  into the slot.  `Backed` is that belief, for one file: while a record is there, a missing staged
  file means that the live file is the record's.  It is a LOCK invariant: it holds whenever nobody
  has the staging lock, and a holder keeps it at every place but one, a `clear` that has deleted the
  staged file and has not deleted the record yet (`Pc.halfCleared`).

  A `clear` that stops there leaves a record whose file is neither staged nor in the slot, and the
  next `apply_staged` returns `Ok` with the old file in the slot
  (`interrupted_clear_mixes_installs`). In every run without such a stop the swap is whole
  (`swapped_in_whole`).

  1. **Program** — `apply_staged` file by file, with what it makes of a missing staged file, and
     `clear` in its order: the staged files, then the record.

  2. **Specification** — when `apply_staged` returns the record of an install, the three live files
     are that install's and the settings are the record's, whatever tries before it have crashed.

  3. **The crux (`Backed`)** — one file at a time: staged, or already in the slot.  The swap of one
     file takes it from the first to the second in one rename, which is why a crash in between does
     no harm.
-/
import CdjEmu.Storage.StagingFinished

namespace CdjEmu.Storage

open Machine

/-! ## The lock invariant for one file -/

/-- A `clear` that has deleted the staged file `f` and has not deleted the record yet. -/
def Pc.halfCleared (f : FirmwareFile) : Pc → Bool
  | .clearing done todo _ => decide (.record ∈ todo) && decide (.file f ∈ done)
  | _ => false

/-- An operation does not return half-way through a `clear`. -/
theorem Pc.halfCleared_of_ends {f : FirmwareFile} {pc : Pc} (h : pc.ends) :
    pc.halfCleared f = false := by
  unfold Pc.ends at h
  split at h <;> simp_all [Pc.halfCleared]

/-- The place of `remove` that deletes the live file `f` next. -/
def Pc.removes (f : FirmwareFile) : Pc → Bool
  | .removing (g :: _) => decide (g = f)
  | _ => false

/-- While a record is there, a staged file `f` that is not there left the slot's `f` in the state
    `ok`.  The two states used are "the record's own file" and "nothing, or the record's own". -/
def Backed {ι : Type} (ok : Install → Option Install → Prop) (f : FirmwareFile) (s : Slot ι) :
    Prop :=
  ∀ c, s.dir .record = some c → s.dir (.file f) = none → ok c.writer (s.live f)

/-- What a holder of the staging lock keeps: `Backed`, except half-way through a `clear`. -/
def Keeps {ι : Type} (ok : Install → Option Install → Prop) (f : FirmwareFile) (s : Slot ι)
    (pc : Pc) :
    Prop :=
  pc.holds → pc.halfCleared f ∨ Backed ok f s

section Steps

variable {ι : Type} {p q : ι} {s t : Slot ι} {pc l : Pc} {ev : Ev}
  {ok : Install → Option Install → Prop} {f : FirmwareFile}

theorem Backed.congr (hd : t.dir = s.dir) (hl : t.live f = s.live f) (h : Backed ok f s) :
    Backed ok f t := by
  intro c hc hf
  rw [hd] at hc hf
  rw [hl]
  exact h c hc hf

theorem Backed.of_none (h : s.dir .record = none) : Backed ok f s := by
  intro c hc
  rw [h] at hc
  nomatch hc

/-- The step of a `clear`: either the record is gone after it, or the file is deleted before the
    record, or neither is touched. -/
theorem Keeps.delete {done todo : List Entry} {e : Entry} {k : After}
    (hP : Place s (.clearing done (e :: todo) k))
    (h : Keeps ok f s (.clearing done (e :: todo) k)) :
    Keeps ok f (s.put e none) (.clearing (e :: done) todo k) := by
  intro _
  by_cases hr : Entry.record ∈ todo
  · by_cases hf : Entry.file f ∈ e :: done
    · exact .inl (by simp only [Pc.halfCleared, hr, hf, decide_true, Bool.and_self])
    · have hfe : Entry.file f ≠ e := fun heq => hf (heq ▸ List.mem_cons_self)
      have hdone : Entry.file f ∉ done := fun hm => hf (List.mem_cons_of_mem _ hm)
      have hb : Backed ok f s := (h rfl).resolve_left (by simp [Pc.halfCleared, hdone])
      refine .inr fun c hc hn => ?_
      rcases eq_or_ne Entry.record e with rfl | hre
      · simp [Slot.put] at hc
      · exact hb c (by simpa [Slot.put, hre] using hc) (by simpa [Slot.put, hfe] using hn)
  · refine .inr (.of_none ?_)
    rcases eq_or_ne Entry.record e with rfl | hre
    · simp [Slot.put]
    · by_contra hne
      have hmem := hP.1 .record (by simpa [Slot.put, hre] using hne)
      rcases List.mem_cons.mp hmem with heq | hmem
      · exact hre heq
      · exact hr hmem

/-- `remove` deletes the live file `f` only where that breaks nothing. -/
def RemovesSafely (ok : Install → Option Install → Prop) (f : FirmwareFile) (s : Slot ι) (pc : Pc)
    (ev : Ev) : Prop :=
  pc.removes f → ev = .go → s.dir .record = none ∨ ∀ r, ok r none

/-- The step of `remove`. -/
theorem Backed.remove {g : FirmwareFile} {todo : List FirmwareFile} (h : Backed ok f s)
    (hrem : RemovesSafely ok f s (.removing (g :: todo)) .go) : Backed ok f (s.putLive g none) := by
  rcases eq_or_ne f g with rfl | hfg
  · rcases hrem (by simp [Pc.removes]) rfl with hr | hnone
    · exact .of_none hr
    · intro c _ _
      simpa [Slot.putLive] using hnone c.writer
  · exact Backed.congr (s := s) rfl (by simp [Slot.putLive, hfg]) h

variable [DecidableEq ι]

omit [DecidableEq ι] in
/-- Outside a `clear` the two halves of the lock invariant are one. -/
theorem Backed.keeps (h : Backed ok f t) : (t.lock = none → Backed ok f t) ∧ Keeps ok f t l :=
  ⟨fun _ => h, fun _ => .inr h⟩

/-- A stop gives the lock back with `Backed`: it is not half-way through a `clear`. -/
theorem Keeps.leave (hO : Owns p s pc) (hfree : s.lock = none → Backed ok f s)
    (hA : Keeps ok f s pc) (hstop : ev = .fail ∨ ev = .crash → pc.halfCleared f = false)
    (hend : ev = .fail ∨ ev = .crash ∨ pc.ends) (hl : (s.release p).lock = none) :
    Backed ok f s := by
  by_cases hh : pc.holds
  · rcases hA hh with hc | hb
    · rcases hend with hev | hev | hend
      · rw [hstop (.inl hev)] at hc; nomatch hc
      · rw [hstop (.inr hev)] at hc; nomatch hc
      · rw [Pc.halfCleared_of_ends hend] at hc; nomatch hc
    · exact hb
  · have hne : s.lock ≠ some p := fun heq => hh (hO.mpr heq)
    exact hfree (by simpa [Slot.release, hne] using hl)

/-- **The step lemma.**  A move that does not stop half-way through a `clear`
    keeps the lock invariant. -/
theorem Moves.keeps (hok : ∀ r, ok r (some r)) (h : Moves p s pc ev t l) (hF : Filed s)
    (hP : Place s pc) (hO : Owns p s pc) (hfree : s.lock = none → Backed ok f s)
    (hA : Keeps ok f s pc) (hstop : ev = .fail ∨ ev = .crash → pc.halfCleared f = false)
    (hrem : RemovesSafely ok f s pc ev) :
    (t.lock = none → Backed ok f t) ∧ Keeps ok f t l := by
  have hb (hh : pc.holds) (hc : pc.halfCleared f = false) : Backed ok f s :=
    (hA hh).resolve_left (by simp [hc])
  cases h with
  | busy => exact ⟨hfree, fun h => by cases h⟩
  | startRemove => exact ⟨hfree, fun h => by cases h⟩
  | skipDiscard => exact ⟨hfree, fun h => by cases h⟩
  | quitRemove => exact ⟨hfree, fun h => by cases h⟩
  -- taking the lock takes over `Backed`
  | lockNew hl => exact ⟨(fun h => by cases h), fun _ => .inr (hfree hl)⟩
  | lockRead hl => exact ⟨(fun h => by cases h), fun _ => .inr (hfree hl)⟩
  | lockApply hl => exact ⟨(fun h => by cases h), fun _ => .inr (hfree hl)⟩
  | lockRemove hl => exact ⟨(fun h => by cases h), fun _ => .inr (hfree hl)⟩
  -- an unfinished install has no record
  | write => exact Backed.keeps (.of_none (by simpa [Slot.put] using hP.1))
  | written => exact Backed.keeps (.of_none (by simpa [Slot.put] using hP.1))
  | scratch => exact Backed.keeps (.of_none (by simpa [Slot.put] using hP.1))
  | createTmp => exact Backed.keeps (.of_none (by simpa [Slot.put] using hP.1))
  | writeTmp => exact Backed.keeps (.of_none (by simpa [Slot.put] using hP.1))
  | giveUp hi => exact Backed.keeps (.of_none (hP.record_none hi))
  | publish =>
    -- `finish` publishes the record only with every file staged
    refine ⟨fun _ c _ hn => ?_, fun h => by cases h⟩
    simp [Slot.put, Slot.release, hP.2 f] at hn
  | listQuit _ hr _ _ =>
    rcases hr with rfl | hr
    · exact Backed.keeps (.of_none hP)
    · exact Backed.keeps (.of_none hr)
  | @rename r g todo c hd =>
    have hrec : s.dir .record = some ⟨r, true⟩ := hP
    have hw : c.writer = r := by rw [(hF _ hrec).2 g c hd]
    refine Backed.keeps fun d hdir hn => ?_
    obtain rfl : (⟨r, true⟩ : Content) = d := by
      simpa [Slot.put, Slot.putLive, hrec] using hdir
    rcases eq_or_ne f g with rfl | hfg
    · simpa [Slot.put, Slot.putLive, hw] using hok r
    · have hlive := hb rfl rfl _ hrec (by simpa [Slot.put, Slot.putLive, hfg] using hn)
      simpa [Slot.put, Slot.putLive, hfg] using hlive
  | @delete done e todo k =>
    refine ⟨fun hl => ?_, hA.delete hP⟩
    have hlock : s.lock = some p := hO.mp rfl
    exact absurd (hlock.symm.trans hl) (by simp)
  | clearedRemove =>
    have hr : s.dir .record = none := by
      by_contra hne
      exact absurd (hP.1 _ hne) (by simp)
    exact ⟨fun _ => .of_none hr, fun h => by cases h⟩
  | @removeLive g todo =>
    refine ⟨fun hl => ?_, fun h => by cases h⟩
    exact (hfree hl).remove hrem
  | leave hend =>
      exact ⟨fun hl => (hA.leave hO hfree hstop hend hl).congr rfl rfl, fun h => by cases h⟩
  | _ => exact Backed.keeps ((hb rfl (by simp [Pc.halfCleared])).congr rfl rfl)

/-- The frame: a move of another process keeps what the holder keeps. -/
theorem Moves.keeps_other (h : Moves p s pc ev t l) (hO : Owns p s pc) (hne : q ≠ p) {pq : Pc}
    (hq : Owns q s pq) (hrem : RemovesSafely ok f s pc ev) (hA : Keeps ok f s pq) :
    Keeps ok f t pq := by
  intro hh
  have hlock := hq.mp hh
  obtain ⟨hd, -, -⟩ := h.frame hO hlock hne
  rcases hA hh with hc | hb
  · exact .inl hc
  have hfree : pc.holds = false := by
    by_contra hh'
    exact hne (Option.some.inj (hlock.symm.trans (hO.mp (by simpa using hh'))))
  refine .inr ?_
  cases h with
  | removeLive => exact hb.remove hrem
  | rename => nomatch hfree
  | _ => exact hb.congr hd rfl

end Steps

/-! ## The swap is whole -/

/-- What `apply_staged` returns when the step `ev` at the place `pc` is its last: the
    record it has swapped in. -/
def returned : Pc → Ev → Option Install
  | .clearing _ [] (.applied r), .go => some r
  | _, _ => none

/-- The places of an `apply_staged` that has renamed every file. -/
def Pc.applied : Pc → Bool
  | .clearing _ _ (.applied _) => true
  | _ => false

/-- What `apply_staged` relies on from its first rename on: the settings are the record's, the files
    it is done with are not staged, and after the last one all of the slot is the record's. -/
def Swapping {ι : Type} (s : Slot ι) : Pc → Prop
  | .moving r todo => s.settings = r.record.settings ∧ ∀ f, f ∉ todo → s.dir (.file f) = none
  | .clearing _ _ (.applied r) => s.settings = r.record.settings ∧ (∀ f, s.live f = some r) ∧
    ∀ c, s.dir .record = some c → c.writer = r
  | _ => True

/-- The live file is the record's own. -/
def Own (r : Install) (x : Option Install) : Prop := x = some r

theorem own_some (r : Install) : Own r (some r) := rfl

theorem returned_eq_some {pc : Pc} {ev : Ev} {r : Install} (h : returned pc ev = some r) :
    ∃ done, pc = .clearing done [] (.applied r) ∧ ev = .go := by
  unfold returned at h
  split at h
  · rename_i done r'
    obtain rfl : r' = r := Option.some.inj h
    exact ⟨done, rfl, rfl⟩
  · nomatch h

section Swap

variable {ι : Type} [DecidableEq ι] {p q : ι} {s t : Slot ι} {pc l : Pc} {ev : Ev}

/-- A move leads to a place at which `Swapping` holds. -/
theorem Moves.swapping (h : Moves p s pc ev t l) (hP : Place s pc) (hA : ∀ f, Keeps Own f s pc)
    (hS : Swapping s pc) : Swapping t l := by
  cases h with
  | update => exact ⟨rfl, fun f hf => absurd (mem_firmwareFiles f) hf⟩
  | @rename r g todo c hd =>
    refine ⟨hS.1, fun f hf => ?_⟩
    rcases eq_or_ne f g with rfl | hfg
    · simp [Slot.put]
    · simpa [Slot.put, Slot.putLive, hfg] using hS.2 f (by simp [hfg, hf])
  | @skip r g todo hd =>
    refine ⟨hS.1, fun f hf => ?_⟩
    rcases eq_or_ne f g with rfl | hfg
    · exact hd
    · exact hS.2 f (by simp [hfg, hf])
  | @listApplied r order hl =>
    -- nothing is staged any more, so every live file is the record's
    have hrec : s.dir .record = some ⟨r, true⟩ := hP
    refine ⟨hS.1, fun f => ?_, fun c hc => ?_⟩
    · have hb : Backed Own f s := (hA f rfl).resolve_left (by simp [Pc.halfCleared])
      exact hb _ hrec (hS.2 f (by simp))
    · rw [hrec] at hc
      cases hc
      rfl
  | @delete done e todo k =>
    cases k with
    | applied r =>
      refine ⟨hS.1, hS.2.1, fun c hc => ?_⟩
      rcases eq_or_ne Entry.record e with rfl | hre
      · simp [Slot.put] at hc
      · exact hS.2.2 c (by simpa [Slot.put, hre] using hc)
    | _ => trivial
  | listQuit _ _ hk => rcases hk with rfl | rfl <;> trivial
  | _ => trivial

/-- The frame: while `q` swaps, the others leave the slot alone, but for `remove`. -/
theorem Moves.swapping_other (h : Moves p s pc ev t l) (hO : Owns p s pc) (hne : q ≠ p) {pq : Pc}
    (hq : Owns q s pq) (hS : Swapping s pq)
    (hrem : ∀ f, pc.removes f → ev = .go → s.dir .record = none ∧ pq.applied = false) :
    Swapping t pq := by
  by_cases hh : pq.holds
  · have hlock := hq.mp hh
    obtain ⟨hd, hset, -⟩ := h.frame hO hlock hne
    have hfree : pc.holds = false := by
      by_contra hh'
      exact hne (Option.some.inj (hlock.symm.trans (hO.mp (by simpa using hh'))))
    cases pq with
    | moving r todo => exact ⟨hset ▸ hS.1, fun f hf => by rw [hd]; exact hS.2 f hf⟩
    | clearing done todo k =>
      cases k with
      | applied r =>
        refine ⟨hset ▸ hS.1, fun f => ?_, fun c hc => hS.2.2 c (by rwa [hd] at hc)⟩
        cases h with
        | @removeLive g _ =>
            exact absurd (hrem g (by simp [Pc.removes]) rfl).2 (by simp [Pc.applied])
        | rename => nomatch hfree
        | _ => exact hS.2.1 f
      | _ => trivial
    | _ => trivial
  · cases pq <;> trivial

end Swap

section SwapRuns

variable {ι : Type} [DecidableEq ι] {s t : Slot ι × (ι → Pc)} {a : ι × Ev}

/-- A step that does not stop a `clear` between a staged file and the record. -/
def StopsClean (s : Slot ι × (ι → Pc)) (a : ι × Ev) : Prop :=
  a.2 = .fail ∨ a.2 = .crash → ∀ f, (s.2 a.1).halfCleared f = false

/-- A step at which `remove` deletes no live file under a finished install or under an
    `apply_staged` that is about to return. -/
def RemovesApart (s : Slot ι × (ι → Pc)) (a : ι × Ev) : Prop :=
  ∀ f, (s.2 a.1).removes f → a.2 = .go → s.1.dir .record = none ∧ ∀ q, (s.2 q).applied = false

/-- The condition under which the swap is whole. -/
def SwapsWhole (s : Slot ι × (ι → Pc)) (a : ι × Ev) : Prop := StopsClean s a ∧ RemovesApart s a

instance (n : Nat) (s : Slot (Fin n) × (Fin n → Pc)) (a : Fin n × Ev) :
    Decidable (SwapsWhole s a) :=
  inferInstanceAs (Decidable
    ((a.2 = .fail ∨ a.2 = .crash → ∀ f, (s.2 a.1).halfCleared f = false) ∧
      ∀ f, (s.2 a.1).removes f → a.2 = .go →
        s.1.dir .record = none ∧ ∀ q, (s.2 q).applied = false))

/-- The invariant of runs that meet the condition. -/
def Whole (s : Slot ι × (ι → Pc)) : Prop :=
  Ordered s ∧ (∀ f, s.1.lock = none → Backed Own f s.1) ∧
    ∀ q, (∀ f, Keeps Own f s.1 (s.2 q)) ∧ Swapping s.1 (s.2 q)

theorem Whole.step (h : Whole s) (hg : SwapsWhole s a) (hs : (slotMachine ι).step s a = some t) :
    Whole t := by
  obtain ⟨hord, hfree, hA⟩ := h
  obtain ⟨p, ev⟩ := a
  have hrem : ∀ f, RemovesSafely Own f s.1 (s.2 p) ev := fun f hf hev => .inl (hg.2 f hf hev).1
  refine ⟨hord.step hs, ?_⟩
  refine Threads.inv_step (J := fun sh => ∀ f, sh.lock = none → Backed Own f sh)
    (A := fun _ sh pc => (∀ f, Keeps Own f sh pc) ∧ Swapping sh pc) hs
    (fun sh l hr => ?_) (fun sh l hr q hq => ?_)
  · have hm := moves_of_trans hr
    have hk := fun f => hm.keeps (f := f) own_some hord.1 (hord.2 p).2 (hord.2 p).1 (hfree f)
      ((hA p).1 f) (fun hev => hg.1 hev f) (hrem f)
    exact ⟨fun f => (hk f).1, fun f => (hk f).2,
      hm.swapping (hord.2 p).2 (hA p).1 (hA p).2⟩
  · have hm := moves_of_trans hr
    refine ⟨fun f => hm.keeps_other (hord.2 p).1 hq (hord.2 q).1 (hrem f) ((hA q).1 f), ?_⟩
    exact hm.swapping_other (hord.2 p).1 hq (hord.2 q).1 (hA q).2
      fun f hf hev => ⟨(hg.2 f hf hev).1, (hg.2 f hf hev).2 q⟩

/-- **The swap is whole.**  In every run without a `clear` that stops between a staged file and the
    record, and without a `remove` under an install that is being applied: when `apply_staged`
    returns the record of `r`, the three live files are those of `r` and the settings are its. -/
theorem swapped_in_whole (live : FirmwareFile → Option Install) (settings : InstanceSettings)
    (nextId : Nat) (h : (slotMachine ι).Reach SwapsWhole (emptyStaging live settings nextId) s)
    (hs : (slotMachine ι).step s a = some t) {r : Install} (hr : returned (s.2 a.1) a.2 = some r) :
    (∀ f, t.1.live f = some r) ∧ t.1.settings = r.record.settings := by
  have hw : Whole s := h.inv
    ⟨ordered_emptyStaging live settings nextId, fun f _ => .of_none rfl,
      fun q => ⟨fun _ => (nomatch ·), trivial⟩⟩
    fun _ _ _ hi hg hs => hi.step hg hs
  obtain ⟨p, ev⟩ := a
  obtain ⟨sh, l, htr, rfl⟩ := Threads.step_cases hs
  obtain ⟨done, hpc, rfl⟩ := returned_eq_some hr
  have hS : Swapping s.1 (.clearing done [] (.applied r)) := hpc ▸ (hw.2.2 p).2
  obtain ⟨rfl, rfl⟩ : s.1.release p = sh ∧ Pc.idle = l := by
    simpa [slotThreads, Slot.sweep, Slot.cleared, show s.2 p = _ from hpc] using htr
  exact ⟨hS.2.1, hS.1⟩

end SwapRuns

/-- The install in the slot at the start of the schedules below. -/
def factoryInstall : Install := ⟨0, ⟨.cdj3k, some "0.9", featureSet, "0123456789abcd05"⟩⟩

/-- A slot with the factory install in it and nothing staged. -/
def factorySlot (ι : Type) : Slot ι × (ι → Pc) :=
  emptyStaging (fun _ => some factoryInstall) factoryInstall.record.settings 1

/-- `apply_staged` of one process from its call to its last step, which is not taken. -/
def applySchedule {ι : Type} (p : ι) : List (ι × Ev) :=
  let evs : List Ev := [.applyStaged, .go, .go, .go, .go, .go, .go, .go, .list [.record], .go]
  evs.map fun ev => (p, ev)

/-- The process that applies an install crashes after the first rename and applies it again: the
    swap is whole. -/
theorem swapped_in_whole_after_a_crash : ∃ s t r,
    (slotMachine (Fin 1)).Reach SwapsWhole (factorySlot (Fin 1)) s ∧
    (slotMachine (Fin 1)).step s (0, .go) = some t ∧ returned (s.2 0) .go = some r ∧
    (∀ f, t.1.live f = some r) ∧ t.1.settings = r.record.settings := by
  obtain ⟨s, hreach, hp⟩ := Reach.of_run_any (M := slotMachine (Fin 1)) (G := SwapsWhole)
    (s := factorySlot (Fin 1))
    (p := fun s => (returned (s.2 0) .go).isSome && ((slotMachine (Fin 1)).step s (0, .go)).isSome)
    (installSchedule 0 "1123456789abcd05" ++
      [(0, .applyStaged), (0, .go), (0, .go), (0, .go), (0, .go), (0, .go), (0, .crash)] ++
      applySchedule 0)
    (by decide)
  simp only [Bool.and_eq_true, Option.isSome_iff_exists] at hp
  obtain ⟨⟨r, hr⟩, t, ht⟩ := hp
  exact ⟨s, t, r, hreach, ht, hr, swapped_in_whole _ _ _ hreach ht hr⟩

/-- **The defect.**  A `new` that would replace a finished install crashes after its `clear` has
    deleted the staged kernel and before it deletes `complete`.  The next `apply_staged` takes the
    missing kernel for one it has already moved and returns `Ok` with the old kernel beside the new
    initramfs and eMMC. -/
theorem interrupted_clear_mixes_installs : ¬ ∀ s t a r,
    (slotMachine (Fin 1)).Reach Free (factorySlot (Fin 1)) s →
    (slotMachine (Fin 1)).step s a = some t → returned (s.2 a.1) a.2 = some r →
    (∀ f, t.1.live f = some r) ∧ t.1.settings = r.record.settings := by
  intro hall
  obtain ⟨s, hreach, hp⟩ := Reach.of_run_any (M := slotMachine (Fin 1)) (G := Free)
    (s := factorySlot (Fin 1))
    (p := fun s => (returned (s.2 0) .go).any fun r =>
      ((slotMachine (Fin 1)).step s (0, .go)).any fun t => t.1.live .kernel != some r)
    (installSchedule 0 "1123456789abcd05" ++
      [(0, .new .cdj3k (some "2.0") "2123456789abcd05"),
        (0, .list [.file .kernel, .file .initramfs, .file .emmc, .record]), (0, .go),
        (0, .crash)] ++
      applySchedule 0)
    (by decide)
  obtain ⟨r, hr, hp⟩ := (Option.any_eq_true _ _).mp hp
  obtain ⟨t, ht, hp⟩ := (Option.any_eq_true _ _).mp hp
  have hkernel := (hall s t (0, .go) r hreach ht hr).1 .kernel
  rw [hkernel] at hp
  simp at hp

end CdjEmu.Storage
