/-
  ONLY A FINISHED INSTALL IS EVER PENDING — the first invariant of a slot's staging dir.

  `complete` is the last thing `finish` writes and `new` clears the dir before an install may write
  into it, so while a record is there every staged file is a full file of the install that wrote
  the record.  The invariant has two parts, and both survive a stop after any step:

  * `Filed` — what the record says about the files, in every state;
  * `Place` — what a process that holds the staging lock relies on, at each of its places.

  Nothing is assumed about the interleaving: the lock alone keeps the others away
  (`Moves.frame`).

  1. **Program** — `Storage/Staging` has the machine: installs, swaps and clears of several
     processes, every file operation a step, a crash at any of them.

  2. **Specification** — beside a record every staged file is a full file of the install that wrote
     it; no step writes into the dir while the record is there; and what comes into the slot is a
     staged file of that install.

  3. **The crux** — the order of the writes: the record last when it is made and last when it is
     deleted.  `Filed` needs no more of the other processes than that they hold no lock.
-/
import CdjEmu.Storage.Staging

namespace CdjEmu.Storage

open Machine

/-! ## The invariant -/

/-- A record that is present is full, and so is every staged file beside it, by its install. -/
def Filed {ι : Type} (s : Slot ι) : Prop :=
  ∀ c, s.dir .record = some c → c.full ∧ ∀ f d, s.dir (.file f) = some d → d = ⟨c.writer, true⟩

/-- What the holder of the staging lock relies on. -/
def Place {ι : Type} (s : Slot ι) : Pc → Prop
  | .clearing _ todo k =>
    (∀ e, s.dir e ≠ none → e ∈ todo) ∧ (k = .quit ∨ k = .applyNone → s.dir .record = none)
  | .installing i w => s.dir .record = none ∧
    ∀ f c, s.dir (.file f) = some c → c.writer = i ∧ (w ≠ some f → c.full)
  | .syncing i todo => s.dir .record = none ∧
    (∀ f c, s.dir (.file f) = some c → c = ⟨i, true⟩) ∧ ∀ f, f ∉ todo → s.dir (.file f) ≠ none
  | .recording i => s.dir .record = none ∧ ∀ f, s.dir (.file f) = some ⟨i, true⟩
  | .publishing i => s.dir .record = none ∧ ∀ f, s.dir (.file f) = some ⟨i, true⟩
  | .dropping => s.dir .record = none
  | .applyLive r => s.dir .record = some ⟨r, true⟩
  | .applyAside r => s.dir .record = some ⟨r, true⟩
  | .applyUpdate r => s.dir .record = some ⟨r, true⟩
  | .moving r _ => s.dir .record = some ⟨r, true⟩
  | _ => True

/-- The assertion of process `p`: it respects the lock, and its place is as it left it. -/
def Tidy {ι : Type} (p : ι) (s : Slot ι) (pc : Pc) : Prop := Owns p s pc ∧ Place s pc

section Steps

variable {ι : Type} [DecidableEq ι] {p q : ι} {s t : Slot ι} {pc l : Pc} {ev : Ev}

omit [DecidableEq ι] in
/-- `Place` reads the staging dir only. -/
theorem Place.congr (hd : t.dir = s.dir) (h : Place s pc) : Place t pc := by
  obtain ⟨_, _, _, _, _⟩ := s
  obtain ⟨_, _, _, _, _⟩ := t
  cases hd
  cases pc <;> exact h

omit [DecidableEq ι] in
/-- `Filed` reads the staging dir only. -/
theorem Filed.congr (hd : t.dir = s.dir) (h : Filed s) : Filed t := by
  unfold Filed
  rw [hd]
  exact h

omit [DecidableEq ι] in
/-- Without a record there is nothing to say about the files. -/
theorem Filed.of_none (h : s.dir .record = none) : Filed s := by
  intro c hc
  rw [h] at hc
  nomatch hc

omit [DecidableEq ι] in
/-- Deleting an entry keeps `Filed`: it deletes the record, or a file the record speaks about. -/
theorem Filed.delete (e : Entry) (h : Filed s) : Filed (s.put e none) := by
  intro c hc
  by_cases he : Entry.record = e
  · subst he
    simp [Slot.put] at hc
  · have hc' : s.dir .record = some c := by simpa [Slot.put, Function.update_of_ne he] using hc
    refine ⟨(h c hc').1, fun f d hd => (h c hc').2 f d ?_⟩
    by_cases hf : Entry.file f = e
    · subst hf
      simp [Slot.put] at hd
    · simpa [Slot.put, Function.update_of_ne hf] using hd

omit [DecidableEq ι] in
/-- A listing of the staging dir has every entry that is there. -/
theorem Slot.Lists.mem {order : List Entry} {e : Entry} (h : s.Lists order) (he : s.dir e ≠ none) :
    e ∈ order :=
  (h.2 e (mem_entries e)).mpr (Option.isSome_iff_ne_none.mpr he)

omit [DecidableEq ι] in
/-- At a place of an unfinished install there is no record. -/
theorem Place.record_none (h : Place s pc) (hi : pc.isInstall) : s.dir .record = none := by
  cases pc <;> simp_all [Place, Pc.isInstall]

/-- **The step lemma, shared part.**  Every move keeps `Filed`. -/
theorem Moves.filed (h : Moves p s pc ev t l) (hF : Filed s) (hP : Place s pc) : Filed t := by
  cases h with
  | delete => exact hF.delete _
  | rename hd => exact (hF.congr (s := s) (t := s.putLive _ _) rfl).delete _
  | publish =>
    intro c hc
    obtain rfl : c = _ := by simpa [Slot.put, Slot.release] using hc.symm
    refine ⟨rfl, fun f d hd => ?_⟩
    have hf := hP.2 f
    simp only [Slot.put, Slot.release, ne_eq, reduceCtorEq, not_false_eq_true,
      Function.update_of_ne, hf, Option.some.injEq] at hd
    exact hd.symm
  -- the installer's writes: no record is there
  | write => exact .of_none (by simpa [Slot.put] using hP.1)
  | written => exact .of_none (by simpa [Slot.put] using hP.1)
  | scratch => exact .of_none (by simpa [Slot.put] using hP.1)
  | createTmp => exact .of_none (by simpa [Slot.put] using hP.1)
  | writeTmp => exact .of_none (by simpa [Slot.put] using hP.1)
  | _ => exact hF.congr rfl

/-- **The step lemma, own part.**  A move leads to a place whose assertion holds. -/
theorem Moves.place (h : Moves p s pc ev t l) (hF : Filed s) (hP : Place s pc) : Place t l := by
  cases h with
  | @write i f =>
    refine ⟨by simpa [Slot.put] using hP.1, fun g c hc => ?_⟩
    by_cases hg : g = f
    · subst hg
      have hc' : c = ⟨i, false⟩ := by simpa [Slot.put] using hc.symm
      simp [hc']
    · have hc' : s.dir (.file g) = some c := by simpa [Slot.put, hg] using hc
      exact ⟨(hP.2 g c hc').1, fun _ => (hP.2 g c hc').2 (by simp)⟩
  | @written i f =>
    refine ⟨by simpa [Slot.put] using hP.1, fun g c hc => ?_⟩
    by_cases hg : g = f
    · subst hg
      have hc' : c = ⟨i, true⟩ := by simpa [Slot.put] using hc.symm
      simp [hc']
    · have hc' : s.dir (.file g) = some c := by simpa [Slot.put, hg] using hc
      exact ⟨(hP.2 g c hc').1, fun _ => (hP.2 g c hc').2 (by simpa using fun h => hg h.symm)⟩
  | scratch => exact ⟨by simpa [Slot.put] using hP.1, by simpa [Slot.put] using hP.2⟩
  | @finish i =>
    refine ⟨hP.1, fun f c hc => ?_, fun f hf => absurd (mem_firmwareFiles f) hf⟩
    obtain ⟨hw, hfull⟩ := hP.2 f c hc
    cases c
    simp_all
  | @synced i f todo hd =>
    refine ⟨hP.1, hP.2.1, fun g hg => ?_⟩
    by_cases hgf : g = f
    · subst hgf
      exact Option.isSome_iff_ne_none.mp hd
    · exact hP.2.2 g (by simp [hgf, hg])
  | @createTmp i =>
    refine ⟨by simpa [Slot.put] using hP.1, fun f => ?_⟩
    obtain ⟨c, hc⟩ := Option.ne_none_iff_exists'.mp (hP.2.2 f (by simp))
    simpa [Slot.put, hc] using hP.2.1 f c hc
  | writeTmp => exact ⟨by simpa [Slot.put] using hP.1, by simpa [Slot.put] using hP.2⟩
  | giveUp hi => exact hP.record_none hi
  | listNew _ hl => exact ⟨fun e he => hl.mem he, by simp⟩
  | listQuit _ hr _ hl =>
    refine ⟨fun e he => hl.mem he, fun _ => ?_⟩
    rcases hr with rfl | hr
    · exact hP
    · exact hr
  | listApplied hl => exact ⟨fun e he => hl.mem he, by simp⟩
  | listRemove hl => exact ⟨fun e he => hl.mem he, by simp⟩
  | @delete done e todo k =>
    refine ⟨fun g hg => ?_, fun hk => ?_⟩
    · by_cases hge : g = e
      · subst hge
        simp [Slot.put] at hg
      · have hg' := hP.1 g (by simpa [Slot.put, hge] using hg)
        simpa [hge] using hg'
    · by_cases hre : Entry.record = e
      · subst hre
        simp [Slot.put]
      · simpa [Slot.put, hre] using hP.2 hk
  | @clearedNew done i =>
    have hempty : ∀ e, s.dir e = none := fun e => by
      by_contra hne
      simpa using hP.1 e hne
    exact ⟨hempty _, fun f c hc => by simp [hempty] at hc⟩
  | @readRecord c hc =>
    have hfull := (hF c hc).1
    show s.dir .record = some ⟨c.writer, true⟩
    rw [hc, ← hfull]
  | lockLive => exact hP
  | readable => exact hP
  | aside => exact hP
  | update => exact hP
  | rename => simpa [Place, Slot.put, Slot.putLive] using hP
  | skip => exact hP
  | _ => trivial

/-- While a record is there no move writes into the staging dir. -/
theorem Moves.deletes (h : Moves p s pc ev t l) (hP : Place s pc) {c : Content}
    (hc : s.dir .record = some c) (e : Entry) : t.dir e = s.dir e ∨ t.dir e = none := by
  cases h with
  | @delete _ g _ _ =>
    by_cases he : e = g
    · exact .inr (by simp [Slot.put, he])
    · exact .inl (by simp [Slot.put, he])
  | @rename _ f _ _ _ =>
    by_cases he : e = .file f
    · exact .inr (by simp [Slot.put, he])
    · exact .inl (by simp [Slot.put, Slot.putLive, he])
  -- the installer's writes: at these places there is no record
  | write => rw [hP.1] at hc; cases hc
  | written => rw [hP.1] at hc; cases hc
  | scratch => rw [hP.1] at hc; cases hc
  | createTmp => rw [hP.1] at hc; cases hc
  | writeTmp => rw [hP.1] at hc; cases hc
  | publish => rw [hP.1] at hc; cases hc
  | _ => exact .inl rfl

/-- A live file changes only when it is deleted, or when `apply_staged` renames into the slot a
    staged file of the install that wrote the record. -/
theorem Moves.live (h : Moves p s pc ev t l) (hF : Filed s) (hP : Place s pc) {f : FirmwareFile}
    {j : Install} (hj : t.live f = some j) (hne : s.live f ≠ some j) :
    s.dir (.file f) = some ⟨j, true⟩ ∧ s.dir .record = some ⟨j, true⟩ := by
  cases h with
  | @rename r g todo c hd =>
    have hc : c = ⟨r, true⟩ := (hF _ hP).2 g c hd
    by_cases hfg : f = g
    · subst hfg
      have hrj : r = j := by simpa [Slot.put, Slot.putLive, hc] using hj
      subst hrj
      exact ⟨hc ▸ hd, hP⟩
    · exact absurd (by simpa [Slot.put, Slot.putLive, hfg] using hj) hne
  | @removeLive g todo =>
    by_cases hfg : f = g
    · simp [Slot.putLive, hfg] at hj
    · exact absurd (by simpa [Slot.putLive, hfg] using hj) hne
  | _ => exact absurd hj hne

end Steps

/-! ## Whole runs -/

section Runs

variable {ι : Type} [DecidableEq ι] {s t : Slot ι × (ι → Pc)}

/-- The invariant of a slot and its processes. -/
def Ordered (s : Slot ι × (ι → Pc)) : Prop := Filed s.1 ∧ ∀ q, Tidy q s.1 (s.2 q)

/-- One step of any process keeps the invariant: the mover by `Moves.filed` and `Moves.place`, the
    others because they hold the lock or rely on nothing. -/
theorem Ordered.step {a : ι × Ev} (h : Ordered s) (hs : (slotMachine ι).step s a = some t) :
    Ordered t := by
  obtain ⟨p, ev⟩ := a
  refine Threads.inv_step hs (fun sh l hr => ?_) (fun sh l hr q hq => ?_)
  · have hm := moves_of_trans hr
    exact ⟨hm.filed h.1 (h.2 p).2, hm.owns (h.2 p).1, hm.place h.1 (h.2 p).2⟩
  · have hm := moves_of_trans hr
    refine ⟨hm.owns_other (h.2 p).1 hq (h.2 q).1, ?_⟩
    by_cases hh : (s.2 q).holds
    · exact (h.2 q).2.congr (hm.frame (h.2 p).1 ((h.2 q).1.mp hh) hq).1
    · cases hq' : s.2 q <;> simp_all [Place, Pc.holds]

omit [DecidableEq ι] in
theorem ordered_emptyStaging (live : FirmwareFile → Option Install) (settings : InstanceSettings)
    (nextId : Nat) : Ordered (emptyStaging live settings nextId : Slot ι × (ι → Pc)) :=
  ⟨.of_none rfl, fun _ => ⟨⟨(nomatch ·), (nomatch ·)⟩, trivial⟩⟩

/-- The invariant in every state of every run, whatever guard the run meets. -/
theorem Ordered.of_reach {G : Slot ι × (ι → Pc) → ι × Ev → Prop}
    {live : FirmwareFile → Option Install} {settings : InstanceSettings} {nextId : Nat}
    (h : (slotMachine ι).Reach G (emptyStaging live settings nextId) s) : Ordered s :=
  h.inv (ordered_emptyStaging live settings nextId) fun _ _ _ hi _ hs => hi.step hs

/-- **Only a finished install is ever pending or applied.**  In every state that any number of
    processes reach, stopping anywhere: beside a record every staged file is a full file of the
    install that wrote it; no step writes into the dir while the record is there; and a file that
    comes into the slot is a staged file of the install that wrote the record. -/
theorem only_finished_installs_are_applied (live : FirmwareFile → Option Install)
    (settings : InstanceSettings) (nextId : Nat)
    (h : (slotMachine ι).Reach Free (emptyStaging live settings nextId) s) :
    (∀ c, s.1.dir .record = some c →
      c.full ∧ ∀ f d, s.1.dir (.file f) = some d → d.full ∧ d.writer = c.writer) ∧
    (∀ c, s.1.dir .record = some c → ∀ a t, (slotMachine ι).step s a = some t →
      ∀ e, t.1.dir e = s.1.dir e ∨ t.1.dir e = none) ∧
    (∀ a t, (slotMachine ι).step s a = some t → ∀ f j, t.1.live f = some j → s.1.live f ≠ some j →
      s.1.dir (.file f) = some ⟨j, true⟩ ∧ s.1.dir .record = some ⟨j, true⟩) := by
  obtain ⟨hF, hA⟩ := Ordered.of_reach h
  refine ⟨fun c hc => ⟨(hF c hc).1, fun f d hd => ?_⟩, ?_, ?_⟩
  · rw [(hF c hc).2 f d hd]
    exact ⟨rfl, rfl⟩
  · rintro c hc ⟨p, ev⟩ t hs e
    obtain ⟨sh, l, hr, rfl⟩ := Threads.step_cases hs
    exact (moves_of_trans hr).deletes (hA p).2 hc e
  · rintro ⟨p, ev⟩ t hs f j hj hne
    obtain ⟨sh, l, hr, rfl⟩ := Threads.step_cases hs
    exact (moves_of_trans hr).live hF (hA p).2 hj hne

/-- A schedule of one install by process `p`, from the call of `new` in an empty staging dir to the
    rename of `complete`. -/
def installSchedule (p : ι) (socSerial : String) : List (ι × Ev) :=
  let evs : List Ev := [.new .cdj3k (some "1.0") socSerial, .list [], .go] ++
    firmwareFiles.flatMap (fun f => [.write f, .written]) ++
    [.finish, .go, .go, .go, .go, .go, .go]
  evs.map fun ev => (p, ev)

end Runs

/-- A second process applies what the first one installed, and stops after its first rename: the
    kernel in the slot and the two files still staged are those of the finished install. -/
theorem only_finished_installs_are_applied_half_way : ∃ s : Slot (Fin 2) × (Fin 2 → Pc),
    (slotMachine (Fin 2)).Reach Free (emptyStaging (fun _ => none) {} 0) s ∧
    (s.1.dir .record).isSome ∧ (s.1.live .kernel).isSome ∧
    ∀ c, s.1.dir .record = some c →
      c.full ∧ ∀ f d, s.1.dir (.file f) = some d → d.full ∧ d.writer = c.writer := by
  obtain ⟨s, hr, hp⟩ := Reach.of_run_any (M := slotMachine (Fin 2)) (G := Free)
    (s := emptyStaging (fun _ => none) {} 0)
    (p := fun s => (s.1.dir .record).isSome && (s.1.live .kernel).isSome)
    (installSchedule 0 "0123456789abcd05" ++
      [(1, .applyStaged), (1, .go), (1, .go), (1, .go), (1, .go), (1, .go), (1, .crash)])
    (by decide)
  simp only [Bool.and_eq_true] at hp
  exact ⟨s, hr, hp.1, hp.2, (only_finished_installs_are_applied _ _ _ hr).1⟩

end CdjEmu.Storage
