/-
  THE SLOT'S RECORDED IDENTITY — the settings against the live eMMC.

  `apply_staged` writes the settings before its first rename: a failure there leaves the slot as it
  was, and a failed rename is picked up on the next try.  Between the settings and the rename of the
  eMMC, though, the settings name an install that is not in the slot yet, and only the staged record
  can still bring the two together.  `touches` is the HISTORY variable that says whether the slot is
  in that gap.

  `new` refuses to replace a half-applied install only when a staged file has already been moved.
  One whose settings are written and whose first rename failed is cleared like any other, and the
  slot keeps the settings of an install that is gone (`cleared_install_leaves_its_settings`).  In
  every run that deletes no record inside the gap the settings name the eMMC's install whenever
  nothing is staged (`settings_name_the_emmc`).

  The machine is that of `Storage/Staging` with the settings beside the files; which install an eMMC
  is from, and which one the settings describe, are numbers that the source does not have.  The
  invariant speaks of the moments at which nothing is staged, since in between a swap is on its way
  and the record says which.  A deletion of the record inside the gap is the one step that must not
  happen, and any process that starts a new install may do it.
-/
import CdjEmu.Storage.StagingSwap

namespace CdjEmu.Storage

open Machine

/-! ## The gap between the settings and the eMMC -/

section Gap

variable {ι : Type} [DecidableEq ι] {p q : ι} {s t : Slot ι} {pc l : Pc} {ev : Ev} {b : Bool}

/-- The history of one step at the place `pc`: the settings move ahead of the eMMC when they are set
    aside, or written while the install's eMMC is still staged; the eMMC's turn in the renames
    closes the gap. -/
def touchesAt (b : Bool) (s : Slot ι) : Pc → Ev → Bool
  | .applyAside _, .aside => true
  | .applyUpdate _, .go => (s.dir (.file .emmc)).isSome
  | .moving _ (.emmc :: _), .go => false
  | _, _ => b

omit [DecidableEq ι] in
/-- A stop and a listing do not move the settings. -/
theorem touchesAt_of_ne (hgo : ev ≠ .go) (haside : ev ≠ .aside) : touchesAt b s pc ev = b := by
  unfold touchesAt
  split <;> simp_all

/-- The step that deletes the record. -/
def Pc.deletesRecord : Pc → Bool
  | .clearing _ (.record :: _) _ => true
  | _ => false

/-- The slot's eMMC is the record's own, or there is none. -/
def OwnOrNone (r : Install) (x : Option Install) : Prop := ∀ i, x = some i → i = r

theorem ownOrNone_some (r : Install) : OwnOrNone r (some r) := by
  intro i hi
  exact (Option.some.inj hi).symm

theorem ownOrNone_none (r : Install) : OwnOrNone r none := by
  intro i hi
  nomatch hi

/-- The settings name the install of the slot's eMMC. -/
def NamesEmmc (s : Slot ι) : Prop := ∀ i, s.live .emmc = some i → s.settings = i.record.settings

/-- Outside the gap the settings name the eMMC's install, and inside it a record is staged. -/
def Identity (s : Slot ι) (b : Bool) : Prop :=
  (b = false → NamesEmmc s) ∧ (s.dir .record = none → b = false)

/-- From its first rename on, `apply_staged` has the record's settings in the slot. -/
def Named (s : Slot ι) : Pc → Prop
  | .moving r _ => s.settings = r.record.settings
  | _ => True

theorem Moves.named (h : Moves p s pc ev t l) (hN : Named s pc) : Named t l := by
  cases h with
  | update => rfl
  | rename => exact hN
  | skip => exact hN
  | _ => trivial

omit [DecidableEq ι] in
theorem Identity.congr (hd : t.dir .record = s.dir .record) (hl : t.live .emmc = s.live .emmc)
    (hset : t.settings = s.settings) (h : Identity s b) : Identity t b := by
  unfold Identity NamesEmmc at *
  rw [hd, hl, hset]
  exact h

/-- **The step lemma.**  A move that deletes no record inside the gap keeps the identity. -/
theorem Moves.identity (h : Moves p s pc ev t l) (hF : Filed s) (hP : Place s pc)
    (hA : Keeps OwnOrNone .emmc s pc) (hN : Named s pc) (hI : Identity s b)
    (hdel : pc.deletesRecord → ev = .go → b = false) : Identity t (touchesAt b s pc ev) := by
  cases h with
  | write => exact hI.congr (by simp [Slot.put]) rfl rfl
  | written => exact hI.congr (by simp [Slot.put]) rfl rfl
  | scratch => exact hI.congr (by simp [Slot.put]) rfl rfl
  | createTmp => exact hI.congr (by simp [Slot.put]) rfl rfl
  | writeTmp => exact hI.congr (by simp [Slot.put]) rfl rfl
  | publish =>
    have hb : b = false := hI.2 hP.1
    exact ⟨fun _ => hI.1 hb, fun _ => hb⟩
  | @delete done e todo k =>
    rcases eq_or_ne e .record with rfl | hne
    · have hb : b = false := hdel rfl rfl
      exact ⟨fun _ => hI.1 hb, fun _ => hb⟩
    · show Identity (s.put e none) b
      exact Identity.congr (s := s) (by simp [Slot.put, hne.symm]) rfl rfl hI
  | @aside r =>
    have hrec : s.dir .record = some ⟨r, true⟩ := hP
    exact ⟨(fun h => by cases h), fun hn => by cases hrec.symm.trans hn⟩
  | @update r =>
    have hrec : s.dir .record = some ⟨r, true⟩ := hP
    refine ⟨fun hb i hi => ?_, fun hn => by cases hrec.symm.trans hn⟩
    -- the eMMC is not staged any more, so the slot has the record's own
    have hstaged : s.dir (.file .emmc) = none := by simpa [touchesAt] using hb
    have hback : Backed OwnOrNone .emmc s := (hA rfl).resolve_left (by simp [Pc.halfCleared])
    rw [hback _ hrec hstaged i hi]
  | @rename r f todo c hd =>
    have hrec : s.dir .record = some ⟨r, true⟩ := hP
    have hset : s.settings = r.record.settings := hN
    have hw : c.writer = r := by rw [(hF _ hrec).2 f c hd]
    refine ⟨fun hb i hi => ?_, fun hn => ?_⟩
    · rcases eq_or_ne f .emmc with rfl | hne
      · obtain rfl : r = i := by simpa [Slot.put, Slot.putLive, hw] using hi
        exact hset
      · have hb' : b = false := by cases f <;> first | exact hb | exact absurd rfl hne
        exact hI.1 hb' i (by simpa [Slot.put, Slot.putLive, hne.symm] using hi)
    · simp [Slot.put, Slot.putLive, hrec] at hn
  | @skip r f todo hd =>
    have hrec : s.dir .record = some ⟨r, true⟩ := hP
    have hset : s.settings = r.record.settings := hN
    refine ⟨fun hb i hi => ?_, fun hn => by cases hrec.symm.trans hn⟩
    rcases eq_or_ne f .emmc with rfl | hne
    · have hback : Backed OwnOrNone .emmc s := (hA rfl).resolve_left (by simp [Pc.halfCleared])
      rw [hset, hback _ hrec hd i hi]
    · have hb' : b = false := by cases f <;> first | exact hb | exact absurd rfl hne
      exact hI.1 hb' i hi
  | @removeLive f todo =>
    rcases eq_or_ne FirmwareFile.emmc f with rfl | hne
    · exact ⟨fun _ i hi => by simp [Slot.putLive] at hi, hI.2⟩
    · show Identity (s.putLive f none) b
      exact Identity.congr (s := s) rfl (by simp [Slot.putLive, hne]) rfl hI
  | giveUp hi =>
    have hb : touchesAt b s pc ev = b := by cases pc <;> first | rfl | cases hi
    rw [hb]
    exact hI
  | listQuit =>
    rw [touchesAt_of_ne (by simp) (by simp)]
    exact hI
  | quitRemove hf =>
    have hb : touchesAt b s pc ev = b := by cases pc <;> first | rfl | cases hf
    rw [hb]
    exact hI
  | leave hend =>
    have hb : touchesAt b s pc ev = b := by
      rcases hend with rfl | rfl | hend
      · exact touchesAt_of_ne (by simp) (by simp)
      · exact touchesAt_of_ne (by simp) (by simp)
      · cases pc <;> first | rfl | cases hend
    rw [hb]
    exact hI.congr rfl rfl rfl
  | _ => exact hI.congr rfl rfl rfl

end Gap

/-! ## Whole runs -/

section IdentityRuns

variable {ι : Type} [DecidableEq ι] {s t : (Slot ι × (ι → Pc)) × Bool} {a : ι × Ev}

/-- The history variable of the slot's machine. -/
def touches (b : Bool) (s : Slot ι × (ι → Pc)) (a : ι × Ev) (_ : Slot ι × (ι → Pc)) : Bool :=
  touchesAt b s.1 (s.2 a.1) a.2

/-- The slot's machine with its history. -/
abbrev identityMachine (ι : Type) [DecidableEq ι] :
    Machine ((Slot ι × (ι → Pc)) × Bool) (ι × Ev) :=
  (slotMachine ι).hist touches

/-- The condition under which the settings name the eMMC: no `clear` deletes the record while the
    settings are ahead of the eMMC, and none stops between the staged eMMC and the record. -/
def KeepsIdentity (s : (Slot ι × (ι → Pc)) × Bool) (a : ι × Ev) : Prop :=
  ((s.1.2 a.1).deletesRecord → a.2 = .go → s.2 = false) ∧
    (a.2 = .fail ∨ a.2 = .crash → (s.1.2 a.1).halfCleared .emmc = false)

instance (s : (Slot ι × (ι → Pc)) × Bool) (a : ι × Ev) : Decidable (KeepsIdentity s a) :=
  inferInstanceAs (Decidable (_ ∧ _))

/-- The invariant of runs that meet the condition. -/
def Identified (s : (Slot ι × (ι → Pc)) × Bool) : Prop :=
  Ordered s.1 ∧ Identity s.1.1 s.2 ∧ (s.1.1.lock = none → Backed OwnOrNone .emmc s.1.1) ∧
    ∀ q, Keeps OwnOrNone .emmc s.1.1 (s.1.2 q) ∧ Named s.1.1 (s.1.2 q)

theorem Identified.step (h : Identified s) (hg : KeepsIdentity s a)
    (hs : (identityMachine ι).step s a = some t) : Identified t := by
  obtain ⟨hord, hI, hfree, hA⟩ := h
  obtain ⟨p, ev⟩ := a
  obtain ⟨⟨sh, pcs⟩, b⟩ := s
  obtain ⟨t, hst, rfl⟩ := hist_step hs
  have hrem : RemovesSafely OwnOrNone .emmc sh (pcs p) ev := fun _ _ => .inr ownOrNone_none
  have hkeep : ((t.1.lock = none → Backed OwnOrNone .emmc t.1) ∧
        Identity t.1 (touchesAt b sh (pcs p) ev)) ∧
      ∀ q, Keeps OwnOrNone .emmc t.1 (t.2 q) ∧ Named t.1 (t.2 q) := by
    refine Threads.inv_step (A := fun _ sh pc => Keeps OwnOrNone .emmc sh pc ∧ Named sh pc)
      (J := fun sh' => (sh'.lock = none → Backed OwnOrNone .emmc sh') ∧
        Identity sh' (touchesAt b sh (pcs p) ev)) hst (fun sh' l hr => ?_) (fun sh' l hr q hq => ?_)
    · have hm := moves_of_trans hr
      have hk := hm.keeps ownOrNone_some hord.1 (hord.2 p).2 (hord.2 p).1 hfree (hA p).1 hg.2 hrem
      have hid := hm.identity hord.1 (hord.2 p).2 (hA p).1 (hA p).2 hI hg.1
      exact ⟨⟨hk.1, hid⟩, hk.2, hm.named (hA p).2⟩
    · have hm := moves_of_trans hr
      refine ⟨hm.keeps_other (hord.2 p).1 hq (hord.2 q).1 hrem (hA q).1, ?_⟩
      have hN : Named sh (pcs q) := (hA q).2
      show Named sh' (pcs q)
      cases hpc : pcs q with
      | moving r todo =>
        rw [hpc] at hN
        have hlock : sh.lock = some q := (hord.2 q).1.mp (by simp [hpc, Pc.holds])
        exact (hm.frame (hord.2 p).1 hlock hq).2.1.trans hN
      | _ => trivial
  exact ⟨hord.step hst, hkeep.1.2, hkeep.1.1, hkeep.2⟩

/-- **The recorded identity.**  From a slot whose files and settings come from one install, in every
    run that deletes no record while the settings are ahead of the eMMC: whenever no record is
    staged, the settings are those of the install the slot's eMMC came from. -/
theorem settings_name_the_emmc (i : Install) (nextId : Nat)
    (h : (identityMachine ι).Reach KeepsIdentity
      (emptyStaging (fun _ => some i) i.record.settings nextId, false) s)
    (hrec : s.1.1.dir .record = none) (j : Install) (hj : s.1.1.live .emmc = some j) :
    s.1.1.settings = j.record.settings := by
  have h0 : Identified
      ((emptyStaging (fun _ => some i) i.record.settings nextId : Slot ι × (ι → Pc)), false) := by
    refine ⟨ordered_emptyStaging _ _ _, ⟨fun _ k hk => ?_, fun _ => rfl⟩, fun _ => .of_none rfl,
      fun q => ⟨(nomatch ·), trivial⟩⟩
    obtain rfl : i = k := Option.some.inj hk
    rfl
  have hid : Identified s := h.inv h0 fun _ _ _ hi hg hs => hi.step hg hs
  exact hid.2.1.1 (hid.2.1.2 hrec) j hj

end IdentityRuns

/-- A rename fails after the settings are written; the next `apply_staged` finishes the swap, and
    the settings name the install that is now in the slot. -/
theorem settings_name_the_emmc_after_a_retry : ∃ s,
    (identityMachine (Fin 1)).Reach KeepsIdentity (factorySlot (Fin 1), false) s ∧
    s.1.1.dir .record = none ∧ s.1.1.live .emmc ≠ some factoryInstall ∧
    ∃ j, s.1.1.live .emmc = some j ∧ s.1.1.settings = j.record.settings := by
  obtain ⟨s, hreach, hp⟩ := Reach.of_run_any (M := identityMachine (Fin 1)) (G := KeepsIdentity)
    (s := (factorySlot (Fin 1), false))
    (p := fun s => decide (s.1.1.dir .record = none) &&
      decide (s.1.1.live .emmc ≠ some factoryInstall) && (s.1.1.live .emmc).isSome)
    (installSchedule 0 "1123456789abcd05" ++
      [(0, .applyStaged), (0, .go), (0, .go), (0, .go), (0, .go), (0, .fail)] ++
      applySchedule 0 ++ [(0, .go)])
    (by decide)
  simp only [Bool.and_eq_true, decide_eq_true_eq, Option.isSome_iff_exists] at hp
  obtain ⟨⟨hrec, hne⟩, j, hj⟩ := hp
  exact ⟨s, hreach, hrec, hne, j, hj, settings_name_the_emmc _ _ hreach hrec j hj⟩

/-- **The defect.**  `apply_staged` writes the settings and fails at its first rename; an installer
    then calls `new`, which finds all three files staged and clears the dir.  Nothing is staged, the
    factory files are all in the slot, and the settings name the install that is gone. -/
theorem cleared_install_leaves_its_settings : ¬ ∀ s,
    (slotMachine (Fin 1)).Reach Free (factorySlot (Fin 1)) s → s.1.dir .record = none →
    (∀ f, (s.1.live f).isSome) → ∃ j, s.1.live .emmc = some j ∧
    s.1.settings = j.record.settings := by
  intro hall
  obtain ⟨s, hreach, hp⟩ := Reach.of_run_any (M := slotMachine (Fin 1)) (G := Free)
    (s := factorySlot (Fin 1))
    (p := fun s => decide (s.1.dir .record = none) && decide (∀ f, s.1.live f = some factoryInstall)
      && decide (s.1.settings ≠ factoryInstall.record.settings))
    (installSchedule 0 "1123456789abcd05" ++
      [(0, .applyStaged), (0, .go), (0, .go), (0, .go), (0, .go), (0, .fail),
        (0, .new .cdj3k (some "2.0") "2123456789abcd05"),
        (0, .list [.file .kernel, .file .initramfs, .file .emmc, .record]),
        (0, .go), (0, .go), (0, .go), (0, .go), (0, .go)])
    (by decide)
  simp only [Bool.and_eq_true, decide_eq_true_eq] at hp
  obtain ⟨⟨hrec, hlive⟩, hset⟩ := hp
  obtain ⟨j, hj, hname⟩ := hall s hreach hrec fun f => by rw [hlive f]; rfl
  obtain rfl : factoryInstall = j := Option.some.inj ((hlive .emmc).symm.trans hj)
  exact hset hname

end CdjEmu.Storage
