/-
  THE REPORT OF A BOOT — the slot's mods it names, against the slot's mods it runs.

  `Reports` is what the report is for: the ids, in boot order, of exactly the slot's mods whose own
  folder went in, none for a name that boots from a folder of this launch.  The report is made by
  looking the names of the boot up in the slot's list, and the names whose place was taken are left
  out of it.  A folder that took nobody's place is looked up as well: `slot_run_eq` splits the
  report into the right ids and the ids of those folders, so it is right exactly when none of them
  has a namesake in the list — a mod that is switched off, or does not run on the firmware
  (`reports_iff`).

  The planned run stops before the folders are read; with the files unchanged it is the run exactly
  when every mod it counts can be read (`planned_iff`).

  1. **Program** — `prepare_boot` and `planned_slot_run` with their lists; what is read of the files
     is a table of answers, which may change between the calls.

  2. **Specification** — stated by the names alone: `newcomers` are the folders of this launch that
     took nobody's place, `running` the names that boot, and the mods that could not be packed are
     those whose files do not read.

  3. **Bridge** — the small host at the end has a mod that is installed, one in a folder with a link
     to itself, and a folder of the launch with the installed one's name; the counterexample and the
     witnesses are launches on it.
-/
import CdjEmu.Mods.Boot

namespace CdjEmu.Mods

open Text
open Qemu (Model)

section Report

variable {k : Crates} {fs now : Files} {l : Launch}

/-- The folders of this launch that boot without taking anybody's place. -/
def Launch.guests (k : Crates) (fs : Files) (l : Launch) : List Mod :=
  ((l.newcomers k fs).take (maxMods - (l.running k fs).length)).filter (packs k fs)

/-- The slot's mods of the boot, in order: those whose own folder went in. -/
def Launch.ownMods (k : Crates) (fs : Files) (l : Launch) : List SlotMod :=
  (l.bootOrder k fs).filterMap Booted.own

/-- Places of the slot's mods, then the guests. -/
theorem bootOrder_eq (l : Launch) : l.bootOrder k fs =
    (((l.running k fs).take maxMods).map (l.inPlaceOf k fs)).filter (fun b => packs k fs b.mod) ++
      (l.guests k fs).map Launch.newcomer := by
  rw [Launch.bootOrder, Launch.line, List.take_append, List.filter_append, List.length_map,
    ← List.map_take, ← List.map_take, Launch.guests, List.filter_map (f := Launch.newcomer)]
  rfl

theorem mem_replaced {name : Bytes} : name ∈ (select k fs l).replaced ↔
    name ∈ (l.extraRun k fs).map (·.1) ∧ name ∈ (l.running k fs).map SlotMod.name := by
  rw [select_replaced]
  constructor
  · intro h
    obtain ⟨e, he, rfl⟩ := List.mem_map.mp h
    obtain ⟨he, hname⟩ := List.mem_filter.mp he
    exact ⟨List.mem_map_of_mem he, of_decide_eq_true hname⟩
  · rintro ⟨h, hname⟩
    obtain ⟨e, he, rfl⟩ := List.mem_map.mp h
    exact List.mem_map_of_mem (List.mem_filter.mpr ⟨he, decide_eq_true hname⟩)

/-- The report's look-up in the place of a slot's mod finds that mod, or nothing
    when its place was taken. -/
theorem look_up_inPlaceOf {m : SlotMod} (hm : m ∈ l.running k fs) :
    (if (l.inPlaceOf k fs m).name ∉ (select k fs l).replaced then l.slot.get
      (l.inPlaceOf k fs m).name
      else none) = (l.inPlaceOf k fs m).own := by
  have hrun : m.name ∈ (l.running k fs).map SlotMod.name := List.mem_map_of_mem hm
  rw [inPlaceOf_name]
  cases hfind : (l.extraRun k fs).find? (·.1 = m.name) with
  | some e =>
    have hin : m.name ∈ (select k fs l).replaced := by
      refine mem_replaced.mpr ⟨List.mem_map.mpr ⟨e, List.mem_of_find?_eq_some hfind, ?_⟩, hrun⟩
      simpa using List.find?_some hfind
    rw [if_neg (not_not_intro hin), Launch.inPlaceOf, hfind]
    rfl
  | none =>
    have hout : m.name ∉ (select k fs l).replaced := by
      intro h
      obtain ⟨e, he, hname⟩ := List.mem_map.mp (mem_replaced.mp h).1
      exact List.find?_eq_none.mp hfind e he (by simpa using hname)
    rw [if_pos hout, l.slot.get_of_mem (List.mem_of_mem_filter hm), Launch.inPlaceOf, hfind]
    rfl

/-- A guest has a name of its own among the mods that run, so the report looks it up. -/
theorem guest_not_replaced {e : Mod} (he : e ∈ l.guests k fs) : e.1 ∉ (select k fs l).replaced := by
  intro h
  have hnew := List.mem_of_mem_take (List.mem_of_mem_filter he)
  exact of_decide_eq_true (List.mem_filter.mp hnew).2 (mem_replaced.mp h).2

/-- The report: the ids of the slot's mods of the boot, then those of the guests' namesakes. -/
theorem slotRun_eq {os : Os} {base : Bytes} {devd : Option Bytes} {before : Files} {r : BootMods}
    (h : prepareBootOf k os l base devd before = .ok r now) (hfs : l.slot.sweep os before = fs) :
    r.slotRun = (l.ownMods k fs).map (l.slot.bootId k now) ++
      ((l.guests k fs).filterMap fun e => l.slot.get e.1).map (l.slot.bootId k now) := by
  have hids : ∀ names : List Bytes, ids k now l.slot names =
      (names.filterMap l.slot.get).map (l.slot.bootId k now) := fun names => by
    rw [ids, List.map_filterMap]
  have hguests : ∀ es : List Mod, (es.map Launch.newcomer).filterMap Booted.own = [] := fun es => by
    rw [List.filterMap_map]
    exact List.filterMap_eq_nil_iff.mpr fun e _ => rfl
  rw [(prepareBootOf_ok h hfs).2, hids, ← List.map_append, Launch.ownMods, bootOrder_eq,
    List.filterMap_append, hguests, List.append_nil, List.map_append, List.filter_append,
    List.filterMap_append]
  congr 2
  · rw [List.filterMap_filter, List.filterMap_map]
    refine List.filterMap_congr fun b hb => ?_
    obtain ⟨m, hm, rfl⟩ := List.mem_map.mp (List.mem_of_mem_filter hb)
    simpa using look_up_inPlaceOf (List.mem_of_mem_take hm)
  · have hkept : ((l.guests k fs).map Launch.newcomer).map Booted.name = (l.guests k fs).map
        (·.1) := by
      rw [List.map_map]
      rfl
    rw [hkept, List.filter_eq_self.mpr, List.filterMap_map]
    · rfl
    · intro name hname
      obtain ⟨e, he, rfl⟩ := List.mem_map.mp hname
      exact decide_eq_true (guest_not_replaced he)

/-- A mod of the boot that is the slot's own has its name and its folder. -/
theorem mod_of_own {b : Booted} {m : SlotMod} (hb : b ∈ l.bootOrder k fs) (hown : b.own = some m) :
    b.mod = (m.name, l.slot.dirOf m) := by
  have hline := List.mem_of_mem_take (List.mem_of_mem_filter hb)
  rcases List.mem_append.mp hline with h | h
  · obtain ⟨m', -, rfl⟩ := List.mem_map.mp h
    unfold Launch.inPlaceOf at hown ⊢
    split at hown
    · cases hown
    · cases hown
      rfl
  · obtain ⟨e, -, rfl⟩ := List.mem_map.mp h
    cases hown

/-- What the report of a boot is for. -/
structure Reports (k : Crates) (fs now : Files) (l : Launch) (r : BootMods) : Prop where
  /-- The ids of the slot's mods whose own folder went in, in boot order. -/
  slotRun : r.slotRun = (l.ownMods k fs).map (l.slot.bootId k now)
  /-- None of them has the name of a mod that boots from a folder of this launch. -/
  notExtra : ∀ m ∈ l.ownMods k fs, ∀ b ∈ l.bootOrder k fs, b.own = none → b.name ≠ m.name
  run : r.run = (l.bootOrder k fs).map Booted.name
  nodup : r.run.Nodup
  atMost : r.run.length ≤ maxMods

/-- A name boots once, so it does not boot from two folders. -/
theorem name_ne_of_own {m : SlotMod} (hm : m ∈ l.ownMods k fs) {b : Booted}
    (hb : b ∈ l.bootOrder k fs) (hextra : b.own = none) : b.name ≠ m.name := by
  intro hname
  obtain ⟨b', hb', hown⟩ := List.mem_filterMap.mp hm
  have hname' : b'.name = m.name := congrArg Prod.fst (mod_of_own hb' hown)
  have hsame : b = b' :=
    List.inj_on_of_nodup_map (bootOrder_nodup l) hb hb' (hname.trans hname'.symm)
  rw [hsame, hown] at hextra
  cases hextra

/-- The report is right exactly when no folder of this launch that boots without taking anybody's
    place has a namesake in the slot's list. -/
theorem reports_iff {os : Os} {base : Bytes} {devd : Option Bytes} {before : Files} {r : BootMods}
    (h : prepareBootOf k os l base devd before = .ok r now) :
    Reports k (l.slot.sweep os before) now l r ↔
      ∀ e ∈ (l.newcomers k (l.slot.sweep os before)).take
          (maxMods - (l.running k (l.slot.sweep os before)).length),
        packs k (l.slot.sweep os before) e = true → l.slot.get e.1 = none := by
  have heq := slotRun_eq h rfl
  have hrun := (prepareBootOf_ok h rfl).1
  constructor
  · intro hr e he hpacks
    have hnil := List.self_eq_append_right.mp (hr.slotRun.symm.trans heq)
    rw [List.map_eq_nil_iff] at hnil
    exact List.filterMap_eq_nil_iff.mp hnil e (List.mem_filter.mpr ⟨he, hpacks⟩)
  · intro hnone
    have hnil : (l.guests k (l.slot.sweep os before)).filterMap (fun e => l.slot.get e.1) = [] := by
      refine List.filterMap_eq_nil_iff.mpr fun e he => ?_
      obtain ⟨he, hpacks⟩ := List.mem_filter.mp he
      exact hnone e he hpacks
    rw [hnil, List.map_nil, List.append_nil] at heq
    exact
      { slotRun := heq
        notExtra := fun m hm b hb => name_ne_of_own hm hb
        run := hrun
        nodup := hrun ▸ bootOrder_nodup l
        atMost := by rw [hrun, List.length_map]; exact length_bootOrder_le l }

end Report

/-! ## A small host -/

/-- A host on which every write succeeds and none is seen. -/
def quiet : Os where
  createDirAll _ := pure ()
  copy _ _ := pure ()
  append _ _ := pure ()
  write _ _ := pure ()
  rename _ _ := pure ()
  removeFile _ := pure ()
  removeDirAll _ := pure ()
  pid := 1

theorem combined_quiet {k : Crates} {fs : Files} {base : Bytes} {found : Metadata}
    (h : fs.metadata base = .ok found) (dir archives : Bytes) :
    ∃ out, combined k quiet dir base archives fs = .ok out fs := by
  unfold combined
  by_cases hnone : archives = []
  · rw [if_pos hnone]
    exact ⟨base, rfl⟩
  · rw [if_neg hnone]
    refine ⟨Path.join dir cache, io_bind_eq_ok.mpr ⟨(), fs, rfl, ?_⟩⟩
    refine io_bind_eq_ok.mpr ⟨found, fs, look_eq_ok.mpr ⟨h, rfl⟩, ?_⟩
    refine io_bind_eq_ok.mpr ⟨fs, fs, rfl, ?_⟩
    split <;> rfl

theorem prepareBootOf_quiet (k : Crates) (l : Launch) (fs : Files) (base : Bytes) {found : Metadata}
    (hsweep : l.slot.sweep quiet fs = fs) (h : fs.metadata base = .ok found) :
    ∃ r, prepareBootOf k quiet l base none fs = .ok r fs := by
  unfold prepareBootOf
  rw [hsweep]
  dsimp only
  obtain ⟨out, hout⟩ := combined_quiet (k := k) h l.slot.dir _
  exact ⟨_, io_bind_eq_ok.mpr ⟨[], fs, rfl, io_bind_eq_ok.mpr ⟨out, fs, hout, rfl⟩⟩⟩

/-- A table of answers; whatever is not in it is not there. -/
def lookUp {α : Type} (t : List (Bytes × α)) (p : Bytes) : Except IoError α :=
  match t.find? (·.1 = p) with
  | some e => .ok e.2
  | none => .error ⟨true, bytes "No such file or directory (os error 2)"⟩

def modText (name : String) : Bytes :=
  bytes "[mod]\nname = \"" ++ bytes name ++ bytes "\"\nversion = \"1\"\n"

def modTable (name : String) : Table :=
  [(bytes "mod",
    .table [(bytes "name", .string (bytes name)), (bytes "version", .string (bytes "1"))])]

def sampleToml (text : Bytes) : Except Bytes Table :=
  if text = modText "a" then .ok (modTable "a")
  else if text = modText "b" then .ok (modTable "b")
  else if text = modText "c" then .ok (modTable "c")
  else .error (bytes "TOML parse error")

def sampleTexts : List (Bytes × Bytes) :=
  [(bytes "/x/mod.toml", modText "a"), (bytes "/mods/installed/a/mod.toml", modText "a"),
    (bytes "/y/mod.toml", modText "b"), (bytes "/z/mod.toml", modText "c"), (bytes "/base", [])]

def sampleReal : List (Bytes × Bytes) :=
  [(bytes "/x", bytes "/x"), (bytes "/mods/installed/a", bytes "/mods/installed/a"),
    (bytes "/y", bytes "/y"), (bytes "/y/self", bytes "/y"), (bytes "/z", bytes "/z")]

def sampleMeta (kind : FileKind) : Metadata := ⟨kind, 0o644, 0, none⟩

/-- Two mods named `a`, installed and in the folder `/x`, a mod named `b` in the folder `/y`, which
    has a link to itself, and a mod named `c` in the folder `/z`. -/
def sampleFiles : Files where
  readToString := lookUp sampleTexts
  read := lookUp sampleTexts
  metadata := lookUp (sampleTexts.map (fun e => (e.1, sampleMeta .file)) ++
    sampleReal.map fun e => (e.1, sampleMeta .dir))
  symlinkMetadata := lookUp (sampleTexts.map fun e => (e.1, sampleMeta .file))
  canonicalize := lookUp sampleReal
  readDir := lookUp
    [(bytes "/x", [.ok (bytes "mod.toml")]), (bytes "/mods/installed/a", [.ok (bytes "mod.toml")]),
      (bytes "/y", [.ok (bytes "mod.toml"), .ok (bytes "self")]),
      (bytes "/y/self", [.ok (bytes "mod.toml"), .ok (bytes "self")]),
      (bytes "/z", [.ok (bytes "mod.toml")])]
  now := 0
  dirs := sampleReal.map (·.2)
  dirs_complete := by
    intro p real names h _
    unfold lookUp at h
    split at h
    · rename_i e he
      cases h
      exact List.mem_map_of_mem (List.mem_of_find?_eq_some he)
    · cases h

/-! ## A report that names too much -/

/-- The installed mod `a` switched off. -/
def offSlot : SlotMods where
  dir := bytes "/mods"
  mods := [⟨bytes "a", .installed (bytes "a.tgz"), false⟩]
  unique := by decide

def offLaunch (extra : List Bytes) : Launch := ⟨offSlot, .cdj3k, some (bytes "3.20"), true, extra⟩

/-- Whatever gzip and SHA-256 give: the mod `a` is switched off, the folder `/x` has a mod of that
    name, and the report of a boot with that folder names the installed one. -/
theorem report_names_mod_switched_off : ¬ ∃ debug gzip sha256,
    ∀ (os : Os) (l : Launch) (base : Bytes) (devd : Option Bytes) (before now : Files)
      (r : BootMods),
      prepareBootOf ⟨sampleToml, debug, gzip, sha256⟩ os l base devd before = .ok r now →
        Reports ⟨sampleToml, debug, gzip, sha256⟩ (l.slot.sweep os before) now l r := by
  rintro ⟨debug, gzip, sha256, h⟩
  obtain ⟨r, hr⟩ := prepareBootOf_quiet ⟨sampleToml, debug, gzip, sha256⟩
    (offLaunch [bytes "/x"]) sampleFiles (bytes "/base") rfl rfl
  have hreport := (h _ _ _ _ _ _ _ hr).slotRun
  have hlisted : r.slotRun = [bytes "a\ta.tgz\t1"] := slotRun_eq hr rfl
  rw [hlisted] at hreport
  cases hreport

def sampleCrates : Crates := ⟨sampleToml, id, id, id⟩

/-- The installed mod `a` switched on. -/
def onSlot : SlotMods where
  dir := bytes "/mods"
  mods := [⟨bytes "a", .installed (bytes "a.tgz"), true⟩]
  unique := by decide

def onLaunch : Launch := ⟨onSlot, .cdj3k, some (bytes "3.20"), true, [bytes "/y", bytes "/z"]⟩

/-- The slot's own mod `a` boots, the folder `/y` cannot be read, and `/z` boots behind it: the
    report names `a` and leaves the folders out. -/
theorem reports_of_own_mod_and_folders : ∃ r,
    prepareBootOf sampleCrates quiet onLaunch (bytes "/base") none sampleFiles = .ok r sampleFiles ∧
      r.run = [bytes "a", bytes "c"] ∧ r.slotRun = [bytes "a\ta.tgz\t1"] ∧
      Reports sampleCrates sampleFiles sampleFiles onLaunch r := by
  obtain ⟨r, hr⟩ := prepareBootOf_quiet sampleCrates onLaunch sampleFiles (bytes "/base") rfl rfl
  refine ⟨r, hr, (prepareBootOf_ok hr rfl).1, slotRun_eq hr rfl, (reports_iff hr).mpr ?_⟩
  intro e he hpacks
  -- of the two folders only `/z` can be read, and the slot lists no `c`
  have hmem : e ∈ onLaunch.guests sampleCrates sampleFiles := List.mem_filter.mpr ⟨he, hpacks⟩
  have hguests : onLaunch.guests sampleCrates sampleFiles = [(bytes "c", bytes "/z")] := rfl
  rw [hguests, List.mem_singleton] at hmem
  subst hmem
  rfl

/-! ## The planned run -/

/-- The files of the slot's mods read the same at the two moments. -/
def SameMods (k : Crates) (slot : SlotMods) (fs fs' : Files) : Prop :=
  ∀ m ∈ slot.mods, read k fs' (slot.dirOf m) = read k fs (slot.dirOf m) ∧
    walkDir fs' (slot.dirOf m) = walkDir fs (slot.dirOf m)

section Planned

variable {k : Crates} {slot : SlotMods} {fs fs' : Files} {model : Model} {release : Option Bytes}
  {enabled : Bool}

/-- A launch without folders of its own. -/
def Launch.plain (slot : SlotMods) (model : Model) (release : Option Bytes) (enabled : Bool) :
    Launch :=
  ⟨slot, model, release, enabled, []⟩

theorem SameMods.running (h : SameMods k slot fs fs') :
    (Launch.plain slot model release enabled).running k fs' =
      (Launch.plain slot model release enabled).running k fs := by
  refine List.filter_congr fun m hm => ?_
  have hdir : checkDir k fs' (slot.dirOf m) model release = checkDir k fs
      (slot.dirOf m) model release := by
    rw [checkDir, checkDir, (h m hm).1]
  show (_ && _ && (checkDir k fs' (slot.dirOf m) model release).runs) = _
  rw [hdir]
  rfl

theorem SameMods.packs (h : SameMods k slot fs fs') {m : SlotMod} (hm : m ∈ slot.mods) :
    packs k fs' (m.name, slot.dirOf m) = packs k fs (m.name, slot.dirOf m) := by
  rw [Mods.packs, Mods.packs, packOne, packOne, (h m hm).1, (h m hm).2]

/-- Without folders of this launch the boot is the slot's first mods that run, as
    far as they can be read. -/
theorem ownMods_plain : (Launch.plain slot model release enabled).ownMods k fs =
    (((Launch.plain slot model release enabled).running k fs).take maxMods).filter fun m =>
      packs k fs (m.name, slot.dirOf m) := by
  have hnew : (Launch.plain slot model release enabled).newcomers k fs = [] := rfl
  have hown : ∀ m, (Launch.plain slot model release enabled).inPlaceOf k fs m =
      ⟨.slot m, m.name, slot.dirOf m⟩ := fun m => rfl
  rw [Launch.ownMods, bootOrder_eq, Launch.guests, hnew, List.take_nil, List.filter_nil,
    List.map_nil, List.append_nil, List.filter_map, List.filterMap_map]
  exact List.filterMap_some

/-- The planned run: the ids of the slot's first mods that run. -/
theorem planned_eq : plannedSlotRunOf k fs slot model release enabled =
    (((Launch.plain slot model release enabled).running k fs).take maxMods).map
      (slot.bootId k fs) := by
  have hsort := sortOut_candidates k fs (Launch.plain slot model release enabled)
  show ids k fs slot ((((sortOut k fs (candidates slot enabled) model release).1).take maxMods).map
    (·.1)) = _
  rw [show (sortOut k fs (candidates slot enabled) model release).1 = _ from hsort, ← List.map_take,
    List.map_map, ids, List.filterMap_map, ← List.filterMap_eq_map]
  refine List.filterMap_congr fun m hm => ?_
  have hmem : m ∈ slot.mods := List.mem_of_mem_filter (List.mem_of_mem_take hm)
  show (slot.get m.name).map _ = _
  rw [slot.get_of_mem hmem]
  rfl

/-- On unchanged files, the planned run is the run exactly when every mod it counts can be read. -/
theorem planned_iff {os : Os} {base : Bytes} {devd : Option Bytes} {before now : Files}
    {r : BootMods}
    (h : prepareBootOf k os (Launch.plain slot model release enabled) base devd before = .ok r now)
    (hsweep : SameMods k slot before (slot.sweep os before)) (hnow : SameMods k slot before now) :
    plannedSlotRunOf k before slot model release enabled = r.slotRun ↔
      ∀ m ∈ ((Launch.plain slot model release enabled).running k before).take maxMods,
        packs k before (m.name, slot.dirOf m) = true := by
  set first := ((Launch.plain slot model release enabled).running k before).take maxMods with hfirst
  have hmem : ∀ m ∈ first, m ∈ slot.mods := fun m hm =>
    List.mem_of_mem_filter (List.mem_of_mem_take hm)
  have hrun : r.slotRun = (first.filter fun m => packs k before (m.name, slot.dirOf m)).map
      (slot.bootId k before) := by
    have hguests : (Launch.plain slot model release enabled).guests k (slot.sweep os before) =
        [] := by
      show (([] : List Mod).take _).filter _ = []
      rw [List.take_nil, List.filter_nil]
    have hids : ∀ m ∈ first, slot.bootId k now m = slot.bootId k before m := fun m hm =>
      slot.bootId_congr (hnow m (hmem m hm)).1
    have hpacks : ∀ m ∈ first, packs k (slot.sweep os before) (m.name, slot.dirOf m) =
        packs k before (m.name, slot.dirOf m) := fun m hm => hsweep.packs (hmem m hm)
    rw [slotRun_eq h rfl, show (Launch.plain slot model release enabled).slot = slot from rfl,
      hguests, List.filterMap_nil, List.map_nil, List.append_nil, ownMods_plain, hsweep.running,
      ← hfirst,
      List.filter_congr hpacks]
    exact List.map_congr_left fun m hm => hids m (List.mem_of_mem_filter hm)
  rw [planned_eq, hrun]
  constructor
  · intro heq
    have hlen := congrArg List.length heq
    rw [List.length_map, List.length_map] at hlen
    exact List.length_filter_eq_length_iff.mp hlen.symm
  · intro hall
    rw [List.filter_eq_self.mpr hall]

end Planned

/-- The mod `b`, in the folder with a link to itself. -/
def loopSlot : SlotMods where
  dir := bytes "/mods"
  mods := [⟨bytes "b", .folder (bytes "/y"), true⟩]
  unique := by decide

/-- The mod `b` is planned, and its folder cannot be read. -/
theorem planned_mod_cannot_be_read : ¬ ∀ (k : Crates) (os : Os) (slot : SlotMods) (model : Model)
    (release : Option Bytes) (enabled : Bool) (base : Bytes) (devd : Option Bytes)
    (before now : Files) (r : BootMods),
      prepareBootOf k os (Launch.plain slot model release enabled) base devd before = .ok r now →
        SameMods k slot before (slot.sweep os before) → SameMods k slot before now →
          plannedSlotRunOf k before slot model release enabled = r.slotRun := by
  intro h
  obtain ⟨r, hr⟩ := prepareBootOf_quiet sampleCrates
    (Launch.plain loopSlot .cdj3k (some (bytes "3.20")) true) sampleFiles (bytes "/base") rfl rfl
  have hsame : SameMods sampleCrates loopSlot sampleFiles sampleFiles := fun m _ => ⟨rfl, rfl⟩
  have hrun : r.slotRun = [] := slotRun_eq hr rfl
  have heq := h _ _ _ _ _ _ _ _ _ _ _ hr hsame hsame
  rw [hrun] at heq
  cases heq

theorem planned_iff_loop : ∃ r,
    prepareBootOf sampleCrates quiet (Launch.plain loopSlot .cdj3k (some (bytes "3.20")) true)
        (bytes "/base") none sampleFiles = .ok r sampleFiles ∧
      plannedSlotRunOf sampleCrates sampleFiles loopSlot .cdj3k (some (bytes "3.20")) true ≠
        r.slotRun := by
  obtain ⟨r, hr⟩ := prepareBootOf_quiet sampleCrates
    (Launch.plain loopSlot .cdj3k (some (bytes "3.20")) true) sampleFiles (bytes "/base") rfl rfl
  have hsame : SameMods sampleCrates loopSlot sampleFiles sampleFiles := fun m _ => ⟨rfl, rfl⟩
  refine ⟨r, hr, fun heq => ?_⟩
  have hall := (planned_iff hr hsame hsame).mp heq
  have hmem : (⟨bytes "b", .folder (bytes "/y"), true⟩ : SlotMod) ∈
      ((Launch.plain loopSlot .cdj3k (some (bytes "3.20")) true).running sampleCrates
        sampleFiles).take
        maxMods := List.mem_singleton_self _
  exact absurd (hall _ hmem) (by decide)

end CdjEmu.Mods
