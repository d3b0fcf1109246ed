/-
  PREPARING A BOOT — which mods go into the initramfs, and what is reported of them.

  Five filters stand between a slot's list and a boot: a mod is switched on, it runs on the
  firmware, no folder given for this launch takes its place, at most `max_mods` go in, and its
  folder can be read. The source runs them over pairs of a name and a folder, so what comes out no
  longer says whose folder it was; the report is then made by NAME.

  `boot_order` keeps what the source forgets: each mod of the boot with its origin.  Erasing the
  origins gives back the source's own list (`select_chosen`), so the slot's mods in a boot are those
  of `boot_order`, and the report can be held against them.  A folder given for this launch that
  takes nobody's place goes BEHIND the slot's mods, so a report that names more than it should has
  the right ids in front and the others behind them: comparing the two lists is looking at what is
  behind.
-/
import CdjEmu.Mods.Pack

namespace CdjEmu.Mods

open Text
open Qemu (Model)

/-- The most mods a slot holds. -/
def maxMods : Nat := 10

/-- The initramfs a boot uses, and the mods in it. -/
structure BootMods where
  initramfs : Bytes
  run : List Bytes
  slotRun : List Bytes
  incompatible : List (Bytes × Compat)
  noMods : Bool

/-- What a boot is prepared for: the slot's list and firmware, whether Enable Mods is on, and the
    folders given for this launch only. -/
structure Launch where
  slot : SlotMods
  model : Model
  release : Option Bytes
  enabled : Bool
  extra : List Bytes

section Boot

variable (k : Crates) (fs : Files)

/-! ## The selection -/

/-- One mod sorted out: behind those that run, behind those that do not, or dropped because a mod of
    its name runs. -/
def sortOne (model : Model) (release : Option Bytes) (s : List Mod × List (Bytes × Compat))
    (m : Mod) :
    List Mod × List (Bytes × Compat) :=
  if s.1.any (·.1 = m.1) then s
  else
    let compat := checkDir k fs m.2 model release
    if compat.runs then (s.1 ++ [m], s.2) else (s.1, s.2 ++ [(m.1, compat)])

/-- Split mods into those that run on the slot's firmware and those that do not, each in order. -/
def sortOut (mods : List Mod) (model : Model) (release : Option Bytes) :
    List Mod × List (Bytes × Compat) :=
  mods.foldl (sortOne k fs model release) ([], [])

/-- The slot's mods that are switched on. -/
def candidates (slot : SlotMods) (enabled : Bool) : List Mod :=
  (slot.mods.filter fun m => enabled && m.enabled).map fun m => (m.name, slot.dirOf m)

/-- A folder given for this launch, with the name its `mod.toml` or else the folder itself has. -/
def named (dir : Bytes) : Mod :=
  let name := match read k fs dir with
    | .ok m => m.name
    | .error _ => ((Path.fileName dir).map lossy).getD (bytes "mod")
  (name, dir)

/-- One folder of this launch: in the place of the slot's mod of its name, among the first
    `fromSlot`, or behind all others. -/
def place (fromSlot : Nat) (s : List Mod × List Bytes) (e : Mod) : List Mod × List Bytes :=
  match (s.1.take fromSlot).findIdx? (·.1 = e.1) with
  | some i => (s.1.modify i fun m => (m.1, e.2), s.2 ++ [e.1])
  | none => (s.1 ++ [e], s.2)

/-- What is chosen before any folder is read. -/
structure Selection where
  chosen : List Mod
  replaced : List Bytes
  incompatible : List (Bytes × Compat)

def select (l : Launch) : Selection :=
  let own := sortOut k fs (candidates l.slot l.enabled) l.model l.release
  let extra := sortOut k fs (l.extra.map (named k fs)) l.model l.release
  let placed := extra.1.foldl (place own.1.length) (own.1, [])
  ⟨placed.1.take maxMods, placed.2, own.2 ++ extra.2⟩

/-- The boot ids of the mods of `slot` named in `names`. -/
def ids (slot : SlotMods) (names : List Bytes) : List Bytes :=
  names.filterMap fun name => (slot.get name).map (slot.bootId k fs)

end Boot

/-- The archive of Developer Mode, empty when it is off. -/
def devdArchive (k : Crates) : Option Bytes → Io Bytes
  | none => pure []
  | some devd => look (devdOverlay k devd)

/-- The file to boot: `base`, unless there is something to put behind it. -/
def combined (k : Crates) (os : Os) (dir base archives : Bytes) : Io Bytes :=
  if archives = [] then pure base else cachedCombined k os dir base archives

/-- The initramfs for the next boot of a slot whose list is loaded: `base` with the chosen mods
    behind it, and with the guest binary of Developer Mode when `devd` gives it. -/
def prepareBootOf (k : Crates) (os : Os) (l : Launch) (base : Bytes) (devd : Option Bytes) :
    Io BootMods := fun before =>
  let fs := l.slot.sweep os before
  let s := select k fs l
  let packed := pack k fs s.chosen
  let chosen := s.chosen.filter fun m => ¬ packed.2.any (·.1 = m.1)
  let mods := if chosen = [] then [] else overlay k packed.1 l.model l.release
  (show Io BootMods from do
    let dev ← devdArchive k devd
    let initramfs ← combined k os l.slot.dir base (mods ++ dev)
    let now ← get
    pure
      { initramfs
        run := chosen.map (·.1)
        slotRun := ids k now l.slot ((chosen.filter fun m => m.1 ∉ s.replaced).map (·.1))
        incompatible := s.incompatible ++ packed.2
        noMods := false }) fs

/-- The initramfs for the next boot of the slot whose mods are in `dir`. -/
def prepareBoot (k : Crates) (os : Os) (dir base : Bytes) (model : Model) (release : Option Bytes)
    (enabled : Bool) (extra : List Bytes) (devd : Option Bytes) : Io BootMods := fun before =>
  let slot := SlotMods.loadIn k before dir
  prepareBootOf k os ⟨slot, model, release, enabled, extra⟩ base devd before

/-- The mods of `slot` that the next boot would run, in order, as boot ids. -/
def plannedSlotRunOf (k : Crates) (fs : Files) (slot : SlotMods) (model : Model)
    (release : Option Bytes) (enabled : Bool) : List Bytes :=
  let chosen := (sortOut k fs (candidates slot enabled) model release).1
  ids k fs slot ((chosen.take maxMods).map (·.1))

/-- The same for the slot whose mods are in `dir`. -/
def plannedSlotRun (k : Crates) (fs : Files) (dir : Bytes) (model : Model) (release : Option Bytes)
    (enabled : Bool) : List Bytes :=
  plannedSlotRunOf k fs (SlotMods.loadIn k fs dir) model release enabled

/-! ## The boot order, with origins -/

/-- Whose folder a mod of the boot is. -/
inductive Origin where
  | slot (m : SlotMod)
  | extra

/-- A mod of the boot. -/
structure Booted where
  origin : Origin
  name : Bytes
  dir : Bytes

def Booted.mod (b : Booted) : Mod := (b.name, b.dir)

/-- The slot's mod whose own folder it is. -/
def Booted.own (b : Booted) : Option SlotMod :=
  match b.origin with
  | .slot m => some m
  | .extra => none

/-- Whether a mod runs on the slot's firmware. -/
def runs (k : Crates) (fs : Files) (model : Model) (release : Option Bytes) (m : Mod) : Bool :=
  (checkDir k fs m.2 model release).runs

namespace Launch

variable (k : Crates) (fs : Files) (l : Launch)

/-- The slot's mods that are switched on and run on the firmware. -/
def running : List SlotMod :=
  l.slot.mods.filter fun m =>
    (l.enabled && m.enabled) && runs k fs l.model l.release (m.name, l.slot.dirOf m)

/-- The folders of this launch that run on the firmware, the first of each name. -/
def extraRun : List Mod := (sortOut k fs (l.extra.map (named k fs)) l.model l.release).1

/-- The folders of this launch that take nobody's place. -/
def newcomers : List Mod :=
  (l.extraRun k fs).filter fun e => e.1 ∉ (l.running k fs).map SlotMod.name

/-- What boots in the place of the slot's mod `m`. -/
def inPlaceOf (m : SlotMod) : Booted :=
  match (l.extraRun k fs).find? (·.1 = m.name) with
  | some e => ⟨.extra, m.name, e.2⟩
  | none => ⟨.slot m, m.name, l.slot.dirOf m⟩

def newcomer (e : Mod) : Booted := ⟨.extra, e.1, e.2⟩

/-- The mods chosen for the boot. -/
def line : List Booted :=
  ((l.running k fs).map (l.inPlaceOf k fs) ++ (l.newcomers k fs).map newcomer).take maxMods

/-- The mods of the boot: those chosen whose folder can be read. -/
def bootOrder : List Booted := (l.line k fs).filter fun b => packs k fs b.mod

end Launch

/-! ## Sorting out -/

section Sorting

variable {k : Crates} {fs : Files} {model : Model} {release : Option Bytes}

theorem foldl_sortOne {s : List Mod × List (Bytes × Compat)} {ms : List Mod}
    (hnd : ((s.1 ++ ms).map (·.1)).Nodup) :
    (ms.foldl (sortOne k fs model release) s).1 = s.1 ++ ms.filter (runs k fs model release) := by
  induction ms generalizing s with
  | nil => rw [List.filter_nil, List.append_nil]; rfl
  | cons m ms ih =>
    have hsplit : s.1 ++ m :: ms = s.1 ++ [m] ++ ms := by simp
    have hnew : ¬ (s.1.any (·.1 = m.1)) = true := by
      intro h
      obtain ⟨x, hx, hname⟩ := List.any_eq_true.mp h
      rw [List.map_append, List.map_cons, List.nodup_append] at hnd
      exact hnd.2.2 x.1 (List.mem_map_of_mem hx) m.1 (List.mem_cons_self ..) (by simpa using hname)
    by_cases hruns : runs k fs model release m = true
    · have hstep : sortOne k fs model release s m = (s.1 ++ [m], s.2) := by
        rw [sortOne, if_neg hnew]
        exact if_pos hruns
      rw [List.foldl_cons, hstep, ih (by rwa [hsplit] at hnd), List.filter_cons_of_pos hruns,
        List.append_assoc, List.singleton_append]
    · have hstep : sortOne k fs model release s m =
          (s.1, s.2 ++ [(m.1, checkDir k fs m.2 model release)]) := by
        rw [sortOne, if_neg hnew]
        exact if_neg hruns
      have hsub : (s.1 ++ ms).Sublist (s.1 ++ m :: ms) :=
        List.Sublist.append_left (List.sublist_cons_self m ms) s.1
      rw [List.foldl_cons, hstep, List.filter_cons_of_neg hruns]
      exact ih ((hsub.map _).nodup hnd)

theorem foldl_sortOne_nodup {s : List Mod × List (Bytes × Compat)} (h : (s.1.map (·.1)).Nodup)
    (ms : List Mod) : ((ms.foldl (sortOne k fs model release) s).1.map (·.1)).Nodup := by
  induction ms generalizing s with
  | nil => exact h
  | cons m ms ih =>
    rw [List.foldl_cons]
    refine ih ?_
    unfold sortOne
    split
    · exact h
    · rename_i hnew
      dsimp only
      split
      · rw [List.map_append, List.nodup_append]
        refine ⟨h, List.nodup_singleton _, ?_⟩
        intro a ha b hb hab
        obtain ⟨x, hx, rfl⟩ := List.mem_map.mp ha
        rw [List.map_singleton, List.mem_singleton] at hb
        exact hnew (List.any_eq_true.mpr ⟨x, hx, by simpa using hab.trans hb⟩)
      · exact h

theorem extraRun_nodup (k : Crates) (fs : Files) (l : Launch) :
    ((l.extraRun k fs).map (·.1)).Nodup :=
  @foldl_sortOne_nodup k fs l.model l.release ([], []) List.nodup_nil _

theorem running_nodup (k : Crates) (fs : Files) (l : Launch) :
    ((l.running k fs).map SlotMod.name).Nodup :=
  (List.filter_sublist.map SlotMod.name).nodup l.slot.unique

/-- The slot's mods have different names, so none of them is dropped for its name. -/
theorem sortOut_candidates (k : Crates) (fs : Files) (l : Launch) :
    (sortOut k fs (candidates l.slot l.enabled) l.model l.release).1 =
      (l.running k fs).map fun m => (m.name, l.slot.dirOf m) := by
  have hnd : ((candidates l.slot l.enabled).map (·.1)).Nodup := by
    rw [candidates, List.map_map]
    exact (List.filter_sublist.map SlotMod.name).nodup l.slot.unique
  rw [sortOut, foldl_sortOne (by simpa using hnd), List.nil_append, candidates, List.filter_map,
    Launch.running, List.filter_filter]
  congr 1
  refine List.filter_congr fun m _ => ?_
  exact Bool.and_comm ..

/-! ## Folders of this launch -/

/-- `m` with the folder that takes its place among `es`, if one does. -/
def substitute (es : List Mod) (m : Mod) : Mod :=
  match es.find? (·.1 = m.1) with
  | some e => (m.1, e.2)
  | none => m

theorem substitute_fst (es : List Mod) (m : Mod) : (substitute es m).1 = m.1 := by
  unfold substitute
  split <;> rfl

/-- Two substitutions one after the other are one, the folders having different names. -/
theorem substitute_cons {e : Mod} {es : List Mod} (hnew : e.1 ∉ es.map (·.1)) (m : Mod) :
    substitute es (substitute [e] m) = substitute (e :: es) m := by
  by_cases hname : e.1 = m.1
  · have hnone : es.find? (·.1 = m.1) = none := by
      rw [List.find?_eq_none]
      intro x hx h
      exact hnew (List.mem_map.mpr ⟨x, hx, by rw [hname]; simpa using h⟩)
    simp [substitute, hname, hnone]
  · simp [substitute, hname]

/-- Writing at the place of a name is a substitution, the names being different. -/
theorem modify_findIdx {base : List Mod} (hnd : (base.map (·.1)).Nodup) {e : Mod} {i : Nat}
    (h : base.findIdx? (·.1 = e.1) = some i) (behind : List Mod) :
    (base ++ behind).modify i (fun m => (m.1, e.2)) = base.map (substitute [e]) ++ behind := by
  induction base generalizing i with
  | nil => cases h
  | cons m base ih =>
    rw [List.map_cons, List.nodup_cons] at hnd
    rw [List.findIdx?_cons] at h
    by_cases hname : m.1 = e.1
    · rw [if_pos (by simpa using hname)] at h
      cases h
      have hrest : base.map (substitute [e]) = base := by
        refine (List.map_congr_left fun x hx => ?_).trans (List.map_id base)
        have hx : e.1 ≠ x.1 := fun hx' => hnd.1 (by rw [hname, hx']; exact List.mem_map_of_mem hx)
        simp [substitute, hx]
      simp [hrest, substitute, hname]
    · rw [if_neg (by simpa using hname)] at h
      obtain ⟨j, hj, rfl⟩ := Option.map_eq_some_iff.mp h
      have hm : substitute [e] m = m := by simp [substitute, Ne.symm hname]
      rw [List.cons_append, List.modify_succ_cons, ih hnd.2 hj, List.map_cons, hm, List.cons_append]

/-- The loop over the folders of this launch: the slot's mods stay in their places, those with a
    namesake among the folders with the folder's files; the other folders go behind, in order. -/
theorem foldl_place {es : List Mod} (hes : (es.map (·.1)).Nodup) {base : List Mod}
    (hbase : (base.map (·.1)).Nodup) (behind : List Mod) (replaced : List Bytes) :
    es.foldl (place base.length) (base ++ behind, replaced) =
      (base.map (substitute es) ++ (behind ++ es.filter fun e => e.1 ∉ base.map (·.1)),
        replaced ++ (es.filter fun e => e.1 ∈ base.map (·.1)).map (·.1)) := by
  induction es generalizing base behind replaced with
  | nil =>
    have hid : base.map (substitute []) = base := List.map_id base
    simp [hid]
  | cons e es ih =>
    rw [List.map_cons, List.nodup_cons] at hes
    have htake : (base ++ behind).take base.length = base := List.take_left' rfl
    rw [List.foldl_cons, place, htake]
    cases hfind : base.findIdx? (·.1 = e.1) with
    | none =>
      have hout : e.1 ∉ base.map (·.1) := by
        intro h
        obtain ⟨m, hm, hname⟩ := List.mem_map.mp h
        exact absurd (by simpa using hname) (by simpa using List.findIdx?_eq_none_iff.mp hfind m hm)
      have hsub : base.map (substitute (e :: es)) = base.map (substitute es) := by
        refine List.map_congr_left fun m hm => ?_
        have hne : e.1 ≠ m.1 := fun h => hout (h ▸ List.mem_map_of_mem hm)
        simp [substitute, hne]
      show es.foldl _ ((base ++ behind) ++ [e], replaced) = _
      rw [List.append_assoc, ih hes.2 hbase, hsub, List.filter_cons_of_pos (by simpa using hout),
        List.filter_cons_of_neg (by simpa using hout), List.append_assoc, List.singleton_append]
    | some i =>
      have hin : e.1 ∈ base.map (·.1) := by
        obtain ⟨hi, hname, -⟩ := List.findIdx?_eq_some_iff_getElem.mp hfind
        exact List.mem_map.mpr ⟨_, List.getElem_mem hi, by simpa using hname⟩
      have hnames : (base.map (substitute [e])).map (·.1) = base.map (·.1) := by
        rw [List.map_map]
        exact List.map_congr_left fun m _ => substitute_fst [e] m
      have hlen : base.length = (base.map (substitute [e])).length := (List.length_map ..).symm
      have hsub : (base.map (substitute [e])).map (substitute es) = base.map
          (substitute (e :: es)) := by
        rw [List.map_map]
        exact List.map_congr_left fun m _ => substitute_cons hes.1 m
      show es.foldl _ ((base ++ behind).modify i _, replaced ++ [e.1]) = _
      rw [modify_findIdx hbase hfind, hlen, ih hes.2 (by rwa [hnames]), hsub, hnames,
        List.filter_cons_of_neg (by simpa using hin), List.filter_cons_of_pos (by simpa using hin),
        List.map_cons, List.append_assoc, List.singleton_append]

end Sorting

/-! ## The code's selection is the boot order -/

section Selection

variable {k : Crates} {fs : Files} {l : Launch}

theorem inPlaceOf_name (m : SlotMod) : (l.inPlaceOf k fs m).name = m.name := by
  unfold Launch.inPlaceOf
  split <;> rfl

theorem inPlaceOf_mod (m : SlotMod) :
    (l.inPlaceOf k fs m).mod = substitute (l.extraRun k fs) (m.name, l.slot.dirOf m) := by
  rw [Launch.inPlaceOf, substitute]
  cases (l.extraRun k fs).find? (·.1 = m.name) with
  | some e => rfl
  | none => rfl

/-- The loop of the source, over the slot's mods that run. -/
theorem foldl_place_running (k : Crates) (fs : Files) (l : Launch) :
    (l.extraRun k fs).foldl (place (l.running k fs).length)
        ((l.running k fs).map (fun m => (m.name, l.slot.dirOf m)), []) =
      (((l.running k fs).map (l.inPlaceOf k fs) ++ (l.newcomers k fs).map Launch.newcomer).map
        Booted.mod,
        ((l.extraRun k fs).filter fun e => e.1 ∈ (l.running k fs).map SlotMod.name).map (·.1)) := by
  have hnames : ((l.running k fs).map fun m => (m.name, l.slot.dirOf m)).map (·.1) =
      (l.running k fs).map SlotMod.name := by
    rw [List.map_map]
    rfl
  have hplace := foldl_place (extraRun_nodup k fs l) (hnames ▸ running_nodup k fs l) [] []
  rw [hnames, List.append_nil, List.nil_append, List.nil_append, List.length_map,
    List.map_map] at hplace
  have hown : (l.running k fs).map
      (substitute (l.extraRun k fs) ∘ fun m => (m.name, l.slot.dirOf m)) =
      ((l.running k fs).map (l.inPlaceOf k fs)).map Booted.mod := by
    rw [List.map_map]
    exact List.map_congr_left fun m _ => (inPlaceOf_mod m).symm
  have hnew : (l.extraRun k fs).filter (fun e => e.1 ∉ (l.running k fs).map SlotMod.name) =
      ((l.newcomers k fs).map Launch.newcomer).map Booted.mod := by
    rw [List.map_map]
    exact (List.map_id _).symm
  rw [hplace, hown, hnew, List.map_append]

theorem select_chosen (l : Launch) : (select k fs l).chosen = (l.line k fs).map Booted.mod := by
  have hloop := foldl_place_running k fs l
  show (((l.extraRun k fs).foldl (place _) (_, [])).1).take maxMods = _
  rw [sortOut_candidates, List.length_map, hloop, Launch.line, List.map_take]

theorem select_replaced (l : Launch) : (select k fs l).replaced =
    ((l.extraRun k fs).filter fun e => e.1 ∈ (l.running k fs).map SlotMod.name).map (·.1) := by
  have hloop := foldl_place_running k fs l
  show ((l.extraRun k fs).foldl (place _) (_, [])).2 = _
  rw [sortOut_candidates, List.length_map, hloop]

/-- No two mods of the boot have one name. -/
theorem line_nodup (l : Launch) : ((l.line k fs).map Booted.name).Nodup := by
  have hown : ((l.running k fs).map (l.inPlaceOf k fs)).map Booted.name =
      (l.running k fs).map SlotMod.name := by
    rw [List.map_map]
    exact List.map_congr_left fun m _ => inPlaceOf_name m
  have hnew : ((l.newcomers k fs).map Launch.newcomer).map Booted.name = (l.newcomers k fs).map
      (·.1) := by
    rw [List.map_map]
    rfl
  rw [Launch.line, List.map_take, List.map_append, hown, hnew]
  refine (List.take_sublist ..).nodup (List.nodup_append.mpr ⟨running_nodup k fs l, ?_, ?_⟩)
  · exact (List.filter_sublist.map _).nodup (extraRun_nodup k fs l)
  · intro a ha b hb hab
    obtain ⟨e, he, rfl⟩ := List.mem_map.mp hb
    have hout := (List.mem_filter.mp he).2
    rw [decide_eq_true_eq] at hout
    exact hout (hab ▸ ha)

theorem bootOrder_nodup (l : Launch) : ((l.bootOrder k fs).map Booted.name).Nodup :=
  (List.filter_sublist.map _).nodup (line_nodup l)

theorem length_bootOrder_le (l : Launch) : (l.bootOrder k fs).length ≤ maxMods :=
  (List.length_filter_le ..).trans (List.length_take_le ..)

/-- What a boot that was prepared reports; `fs` is what the sweep left, `now`
    what there is at the end. -/
theorem prepareBootOf_ok {os : Os} {base : Bytes} {devd : Option Bytes} {before now : Files}
    {r : BootMods} (h : prepareBootOf k os l base devd before = .ok r now)
    (hfs : l.slot.sweep os before = fs) :
    r.run = (l.bootOrder k fs).map Booted.name ∧
      r.slotRun = ids k now l.slot
        (((l.bootOrder k fs).map Booted.name).filter (· ∉ (select k fs l).replaced)) := by
  have hnames : ((select k fs l).chosen.map (·.1)).Nodup := by
    rw [select_chosen, List.map_map]
    exact line_nodup l
  have hchosen : ((select k fs l).chosen.filter fun m => ¬ (pack k fs (select k fs l).chosen).2.any
      (·.1 = m.1)) = (l.bootOrder k fs).map Booted.mod := by
    rw [filter_not_failed k fs hnames, select_chosen, List.filter_map, Launch.bootOrder]
    rfl
  unfold prepareBootOf at h
  rw [hfs] at h
  dsimp only at h
  obtain ⟨dev, mid, -, h⟩ := io_bind_eq_ok.mp h
  obtain ⟨initramfs, late, -, h⟩ := io_bind_eq_ok.mp h
  obtain ⟨fs', late', hget, h⟩ := io_bind_eq_ok.mp h
  cases hget
  cases h
  rw [hchosen]
  refine ⟨List.map_map .., ?_⟩
  rw [List.filter_map, List.filter_map, List.map_map, List.map_map]
  rfl

end Selection

end CdjEmu.Mods
