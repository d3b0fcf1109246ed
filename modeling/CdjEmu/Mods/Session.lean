/-
  A SESSION WITH A SLOT'S LIST — edits in any order, several adds prepared before one is committed.

  1. **What each program leaves** — `prepare` an add that is `Ready`, `commit` the list with that
     mod put into it, the others the list with a mod less, switched or moved.  A save that succeeds
     leaves the text of the list in `list.txt`.
  2. **The session** — the list, the adds that are prepared and not yet committed, the disk, and the
     folders elsewhere, which others edit between the calls.
  3. **The law** — every mod of the list stays `Kept`, so what was saved is loaded again, and the
     list stays below its bound, in every run whose commits find room in the list.

  The cap is checked where an add is prepared, against the list of that moment; `commit` checks
  nothing, so adds that were prepared together fill the list beyond it (`eleven_mods`).

  4. **The condition** — an origin without a carriage return and a path without a line feed
     (`Source.Plain`), a path that the list can carry (`Source.Written`), and room in the list at
     each commit.  All of them are conditions on the edits, not on what the programs compute.

  The disk answers any way it likes, call by call (`effectOn`): a save may fail, and then the list
  stays as it was on the disk and the session goes on with its own.
-/
import CdjEmu.Mods.Add
import CdjEmu.Mods.BootReport
import CdjEmu.Mods.Reload

namespace CdjEmu.Mods

open Text

variable {γ : Type} {k : Crates} {fs : Files}

/-! ## The list after an edit -/

namespace SlotMods

variable {slot : SlotMods}

/-- The mods after one was put in. -/
theorem mem_put {entry m : SlotMod} (h : m ∈ (slot.put entry).mods) :
    m ∈ slot.mods ∨ m = entry := by
  unfold put at h
  dsimp only at h
  split at h
  · exact List.mem_or_eq_of_mem_set h
  · rcases List.mem_append.mp h with h | h
    · exact Or.inl h
    · exact Or.inr (List.mem_singleton.mp h)

/-- Only a new name makes the list longer. -/
theorem length_put (entry : SlotMod) : (slot.put entry).mods.length =
    if slot.position entry.name = none then slot.mods.length + 1 else slot.mods.length := by
  unfold put
  dsimp only
  cases slot.position entry.name with
  | none =>
    rw [if_pos rfl]
    exact List.length_append
  | some i =>
    rw [if_neg (by simp)]
    exact List.length_set

/-- And after one was switched. -/
theorem mem_switch {name : Bytes} {enabled : Bool} {m : SlotMod}
    (h : m ∈ (slot.switch name enabled).mods) :
    ∃ m' ∈ slot.mods, m.name = m'.name ∧ m.source = m'.source := by
  unfold switch at h
  dsimp only at h
  split at h
  · rename_i i hi
    obtain ⟨j, hj⟩ := List.mem_iff_getElem?.mp h
    rw [List.getElem?_modify] at hj
    obtain ⟨m', hm', he⟩ := Option.map_eq_some_iff.mp hj
    refine ⟨m', List.mem_of_getElem? hm', ?_⟩
    rw [← he]
    split <;> exact ⟨rfl, rfl⟩
  · exact ⟨m, h, rfl, rfl⟩

theorem length_switch (name : Bytes) (enabled : Bool) :
    (slot.switch name enabled).mods.length = slot.mods.length := by
  unfold switch
  dsimp only
  split
  · exact List.length_modify _ _ _
  · rfl

/-- Moving a mod makes no other mods of them. -/
theorem move_perm (i j : Nat) : (slot.move i j).mods.Perm slot.mods := by
  unfold move
  dsimp only
  split
  · rename_i h
    have hlen : j ≤ (slot.mods.eraseIdx i).length := by
      rw [List.length_eraseIdx_of_lt h.1]
      omega
    exact (List.perm_insertIdx _ _ hlen).trans (List.getElem_cons_eraseIdx_perm h.1)
  · exact List.Perm.refl _

end SlotMods

/-! ## What the programs leave -/

/-- What every call may answer while the folders elsewhere read as `fs` says. -/
def effectOn (k : Crates) (fs : Files) : Effect (Disk γ) Call Reply
  | .readManifest dir, d, r, d' =>
      d' = d ∧ Except.map Subtype.val (show Except Bytes ReadManifest from r) = read k fs dir
  | c, d, r, d' => effect c d r d'

section Programs

variable {E : Effect (Disk γ) Call Reply} {d : Disk γ} {slot : SlotMods}

/-- What is said of the end of a program. -/
abbrev Leaves {α : Type} (E : Effect (Disk γ) Call Reply) (p : Fs α) (d : Disk γ)
    (Q : α → Disk γ → Prop) : Prop :=
  Prog.Always E (fun _ => True) Q p d

/-- What a program leaves behind, step by step; a value changes nothing. -/
theorem Leaves.pure {α : Type} {a : α} {Q : α → Disk γ → Prop} (h : Q a d) :
    Leaves E (Pure.pure a) d Q := ⟨trivial, h⟩

/-- A call leaves what the system makes of it. -/
theorem Leaves.ask {α : Type} {c : Call} {f : Reply c → Fs α} {Q : α → Disk γ → Prop}
    (h : ∀ r d', E c d r d' → Leaves E (f r) d' Q) : Leaves E (ask c >>= f) d Q := ⟨trivial, h⟩

/-- A part of which nothing need be known. -/
theorem Leaves.behind {α β : Type} {p : Fs β} {f : β → Fs α} {Q : α → Disk γ → Prop}
    (h : ∀ b d', Leaves E (f b) d' Q) : Leaves E (p >>= f) d Q :=
  Prog.Always.bind (Prog.Always.triv p d) fun b d' _ _ => h b d'

/-- One program and then another. -/
theorem Leaves.bind {α β : Type} {p : Fs β} {f : β → Fs α} {P : β → Disk γ → Prop}
    {Q : α → Disk γ → Prop} (hp : Leaves E p d P) (h : ∀ b d', P b d' → Leaves E (f b) d' Q) :
    Leaves E (p >>= f) d Q :=
  Prog.Always.bind hp fun b d' _ hb => h b d' hb

/-- **A save that succeeds** leaves the text of the list. -/
theorem save_leaves (d : Disk γ) : Leaves (effectOn k fs) slot.save d fun r d' => r = .ok () →
    d'.list = listText slot.mods := by
  unfold SlotMods.save
  refine Leaves.ask fun created d1 _ => ?_
  cases created with
  | error e => exact Leaves.pure fun h => by cases h
  | ok u =>
    refine Leaves.ask fun written d2 hwrite => ?_
    cases written with
    | error e => exact Leaves.pure fun h => by cases h
    | ok u =>
      obtain rfl : d2 = { d1 with tmp := some (listText slot.mods) } := hwrite
      refine ⟨trivial, fun moved d3 hmove => Leaves.pure fun h => ?_⟩
      obtain rfl : moved = .ok () := h
      obtain ⟨text, htext, rfl⟩ := hmove
      exact (Option.some.inj htext).symm

/-- An add whose mod will be kept by the list, as far as `prepare` sees to it. -/
def PendingAdd.Ready (k : Crates) (fs : Files) (add : PendingAdd) : Prop :=
  match add.kind with
  | none => False
  | some (.archive _ _) => validName add.name = true ∧ 10 ∉ add.origin
  | some (.folder path) => add.name = folderName k fs path.val

/-- A manifest that was read has a valid name. -/
theorem validName_of_read {dir : Bytes} {m : Manifest} (h : read k fs dir = .ok m) :
    validName m.name = true := by
  -- each of the parsers passes the name on as it was tested
  have hname : ∀ {t : Table} {name : Bytes}, parseName k t = .ok name → validName name = true := by
    intro t name h
    obtain ⟨found, -, h⟩ := bind_eq_ok.mp h
    split_ifs at h with hvalid
    obtain rfl := Except.ok.inj h
    simpa using hvalid
  have htables : ∀ {text : Bytes} {m : Manifest}, parseTables k text = .ok m →
      validName m.name = true := by
    intro text m h
    obtain ⟨table, -, h⟩ := bind_eq_ok.mp h
    split at h
    · cases h
    · obtain ⟨name, hparsed, h⟩ := bind_eq_ok.mp h
      obtain ⟨version, -, h⟩ := bind_eq_ok.mp h
      obtain ⟨author, -, h⟩ := bind_eq_ok.mp h
      obtain ⟨description, -, h⟩ := bind_eq_ok.mp h
      obtain ⟨url, -, h⟩ := bind_eq_ok.mp h
      obtain ⟨preload, -, h⟩ := bind_eq_ok.mp h
      obtain ⟨env, -, h⟩ := bind_eq_ok.mp h
      obtain ⟨compat, -, h⟩ := bind_eq_ok.mp h
      obtain rfl := Except.ok.inj h
      exact hname hparsed
  -- the text is read, parsed and capped; the name is the parser's
  unfold read at h
  split at h
  · cases h
  · rename_i text _
    obtain ⟨manifest, hparse, h⟩ := bind_eq_ok.mp h
    split at h
    · cases h
    · obtain rfl := Except.ok.inj h
      rw [parse] at hparse
      cases htext : parseTables k text with
      | error e =>
        rw [htext] at hparse
        cases hparse
      | ok m' =>
        rw [htext] at hparse
        obtain rfl := Except.ok.inj hparse
        exact htables htext

/-- A name on one line has no line feed. -/
theorem oneLine_no_feed (s : Bytes) : 10 ∉ oneLine s := by
  intro h
  obtain ⟨c, -, hc⟩ := List.mem_map.mp h
  split_ifs at hc with hfeed
  · cases hc
  · exact hfeed (Or.inr hc)

/-- What was found is ready to be listed under its manifest's name. -/
def Found.Ready (k : Crates) (fs : Files) (manifest : ReadManifest) (kind : PendingKind) : Prop :=
  match kind with
  | .archive _ _ => True
  | .folder path => read k fs path.val = .ok manifest.val

/-- What an accepted mod needs was found. -/
theorem accept_leaves {manifest : ReadManifest} {kind : PendingKind} (origin : Bytes)
    (h : Found.Ready k fs manifest kind) :
    Leaves E (slot.accept manifest kind origin) d fun r _ => ∀ add, r = .ok add →
    add.Ready k fs := by
  unfold SlotMods.accept
  refine Leaves.behind fun replaces d1 => ?_
  dsimp only
  split
  · exact Leaves.behind fun _ _ => Leaves.pure fun add h => by cases h
  · refine Leaves.pure fun add hadd => ?_
    obtain rfl := Except.ok.inj hadd
    cases kind with
    | archive tmp root =>
      obtain ⟨m, k', fs', dir, hread⟩ := manifest
      exact ⟨validName_of_read hread, oneLine_no_feed origin⟩
    | folder path =>
      have hread : read k fs path.val = .ok manifest.val := h
      show manifest.val.name = folderName k fs path.val
      rw [folderName, hread]

/-- A folder that was read is ready to be added. -/
theorem readFolder_leaves (folder : Bytes) : Leaves (effectOn k fs) (SlotMods.readFolder folder) d
    fun r _ => ∀ manifest kind origin, r = .ok (manifest, kind, origin) →
      Found.Ready k fs manifest kind := by
  unfold SlotMods.readFolder
  refine Leaves.ask fun real d1 _ => ?_
  cases real with
  | error e => exact Leaves.pure fun _ _ _ h => by cases h
  | ok real =>
    refine Leaves.ask fun dir d2 _ => ?_
    split
    · exact Leaves.pure fun _ _ _ h => by cases h
    · refine Leaves.ask fun m d3 hread => ?_
      cases m with
      | error e => exact Leaves.pure fun _ _ _ h => by cases h
      | ok m =>
        refine Leaves.pure fun manifest kind origin h => ?_
        cases h
        exact hread.2.symm

/-- A refusal adds nothing. -/
theorem refuse_leaves {α : Type} (c : Call) (e : IoError) {Q : Except IoError α → Disk γ → Prop}
    (hQ : ∀ d, Q (.error e) d) :
    Leaves E (do ignore c; pure (.error e)) d Q := Leaves.behind fun _ d' => Leaves.pure (hQ d')

/-- So is an archive, once it is unpacked. -/
theorem readArchive_leaves (archive : Bytes) (suffix : Suffix) :
    Leaves E (SlotMods.readArchive archive suffix) d
    fun r _ => ∀ manifest kind, r = .ok (manifest, kind) →
      ∃ tmp root, kind = .archive tmp root := by
  unfold SlotMods.readArchive
  refine Leaves.ask fun created d1 _ => ?_
  cases created with
  | error e => exact Leaves.pure fun _ _ h => by cases h
  | ok u =>
    refine Leaves.ask fun unpacked d2 _ => ?_
    cases unpacked with
    | error e => exact refuse_leaves _ _ fun _ _ _ h => by cases h
    | ok u =>
      refine Leaves.behind fun root d3 => ?_
      cases root with
      | none => exact refuse_leaves _ _ fun _ _ _ h => by cases h
      | some root =>
        refine Leaves.ask fun m d4 _ => ?_
        cases m with
        | error e => exact refuse_leaves _ _ fun _ _ _ h => by cases h
        | ok m =>
          refine Leaves.pure fun manifest kind h => ?_
          cases h
          exact ⟨_, _, rfl⟩

/-- **What `prepare` returns is ready.** -/
theorem prepare_leaves (path : Bytes) (origin : Option Bytes) (suffix : Suffix) (d : Disk γ) :
    Leaves (effectOn k fs) (slot.prepare path origin suffix) d fun r _ => ∀ add, r = .ok add →
    add.Ready k fs := by
  unfold SlotMods.prepare
  refine Leaves.behind fun _ d1 => Leaves.ask fun isDir d2 _ => ?_
  dsimp only
  split
  · rename_i folder _
    refine Leaves.bind (readFolder_leaves folder) fun found d3 hfound => ?_
    cases found with
    | error e => exact Leaves.pure fun _ h => by cases h
    | ok found => exact accept_leaves _ (hfound _ _ _ rfl)
  · refine Leaves.bind (readArchive_leaves path suffix) fun found d3 hfound => ?_
    cases found with
    | error e => exact Leaves.pure fun _ h => by cases h
    | ok found =>
      obtain ⟨tmp, root, hkind⟩ := hfound _ _ rfl
      refine accept_leaves _ ?_
      rw [hkind]
      trivial

/-- The source a committed add is listed with. -/
def PendingAdd.source (add : PendingAdd) : Option Source :=
  add.kind.map fun kind => match kind with
    | .archive _ _ => .installed add.origin
    | .folder path => .folder path.val

/-- A mod that is enlisted is in the slot under its name. -/
theorem enlist_leaves (name : Bytes) (source : Source) (aside : Bytes) :
    Leaves E (slot.enlist name source aside) d
    fun r _ => ∃ enabled, r.1 = slot.put ⟨name, source, enabled⟩ := by
  unfold SlotMods.enlist
  refine Leaves.behind fun _ d1 => ?_
  dsimp only
  split
  · exact Leaves.behind fun _ d2 => Leaves.behind fun _ d3 => Leaves.pure ⟨_, rfl⟩
  · exact Leaves.behind fun _ d2 => Leaves.pure ⟨_, rfl⟩

/-- **What `commit` leaves of the list**: nothing changes, or the add's mod is put into it. -/
theorem commit_leaves (add : PendingAdd) (suffix : Suffix) (d : Disk γ) :
    Leaves E (slot.commit add suffix) d
    fun r _ => r.1 = slot ∨ ∃ source enabled, add.source = some source ∧
      r.1 = slot.put ⟨add.name, source, enabled⟩ := by
  have henlist : ∀ source d', add.source = some source → Leaves E (slot.enlist add.name source
      (bytes ".replaced-" ++ suffix.bytes ++ 45 :: add.name)) d'
      fun r _ => r.1 = slot ∨ ∃ source enabled, add.source = some source ∧
        r.1 = slot.put ⟨add.name, source, enabled⟩ := by
    intro source d' hsource
    refine (enlist_leaves _ _ _).mono (fun _ _ _ _ h => h) (fun _ _ => trivial) fun r _ _ h => ?_
    obtain ⟨enabled, h⟩ := h
    exact Or.inr ⟨source, enabled, hsource, h⟩
  unfold SlotMods.commit
  refine Leaves.ask fun stepped d1 _ => ?_
  cases hkind : add.kind with
  | none => exact Leaves.pure (Or.inl rfl)
  | some kind =>
    cases kind with
    | folder path => exact henlist _ _ (by rw [PendingAdd.source, hkind]; rfl)
    | archive tmp root =>
      refine Leaves.behind fun moved d2 => Leaves.behind fun _ d3 => ?_
      cases moved with
      | error e =>
        dsimp only
        split
        · exact Leaves.behind fun _ d4 => Leaves.pure (Or.inl rfl)
        · exact Leaves.pure (Or.inl rfl)
      | ok u => exact henlist _ _ (by rw [PendingAdd.source, hkind]; rfl)

/-- **What `remove` leaves of the list.** -/
theorem remove_leaves (name : Bytes) (d : Disk γ) :
    Leaves E (slot.remove name) d fun r _ => r.1 = slot ∨ ∃ i, r.1 = slot.without i := by
  unfold SlotMods.remove
  split
  · exact Leaves.pure (Or.inl rfl)
  · rename_i i _
    refine Leaves.behind fun result d1 => ?_
    cases result with
    | error e => exact Leaves.pure (Or.inr ⟨i, rfl⟩)
    | ok u =>
      refine Leaves.behind fun _ d2 => ?_
      split
      · refine Leaves.ask fun gone d3 _ => ?_
        cases gone <;> exact Leaves.pure (Or.inr ⟨i, rfl⟩)
      · exact Leaves.pure (Or.inr ⟨i, rfl⟩)

end Programs

/-! ## The session -/

/-- A slot, the adds that are prepared, and the disk. -/
structure Session (γ : Type) where
  slot : SlotMods
  /-- The adds that were prepared and neither committed nor dropped. -/
  pending : List PendingAdd
  disk : Disk γ
  /-- The files elsewhere at this moment. -/
  fs : Files

/-- The folder a source is read from. -/
def Source.path : Source → Option Bytes
  | .installed _ => none
  | .folder path => some path

/-- The folders used in place, listed or about to be. -/
def Session.folders (s : Session γ) : List Bytes :=
  s.slot.mods.filterMap (fun m => m.source.path) ++ s.pending.filterMap fun add =>
    add.source.bind Source.path

/-- What a user may do. -/
inductive Edit where
  | prepare (path : Bytes) (origin : Option Bytes)
  | commit (i : Nat)
  | drop (i : Nat)
  | remove (name : Bytes)
  | setEnabled (name : Bytes) (enabled : Bool)
  | reorder (i j : Nat)
  /-- Others change the files elsewhere. -/
  | others (fs : Files)

/-- The edit can lead from `s` to `t`. -/
def Edit.does (k : Crates) (edit : Edit) (s t : Session γ) : Prop :=
  match edit with
  | .prepare path origin => ∃ suffix r d,
      Prog.Ends (effectOn k s.fs) (s.slot.prepare path origin suffix) s.disk r d ∧
      t = { s with pending := s.pending ++ r.toOption.toList, disk := d }
  | .commit i => ∃ add suffix r d, s.pending[i]? = some add ∧
      Prog.Ends (effectOn k s.fs) (s.slot.commit add suffix) s.disk r d ∧
      t = { s with slot := r.1, pending := s.pending.eraseIdx i, disk := d }
  | .drop i => ∃ add d, s.pending[i]? = some add ∧
      Prog.Ends (effectOn k s.fs) add.drop s.disk () d ∧
      t = { s with pending := s.pending.eraseIdx i, disk := d }
  | .remove name => ∃ r d, Prog.Ends (effectOn k s.fs) (s.slot.remove name) s.disk r d ∧
      t = { s with slot := r.1, disk := d }
  | .setEnabled name enabled => ∃ r d,
      Prog.Ends (effectOn k s.fs) (s.slot.setEnabled name enabled) s.disk r d ∧
      t = { s with slot := r.1, disk := d }
  | .reorder i j => ∃ r d, Prog.Ends (effectOn k s.fs) (s.slot.reorder i j) s.disk r d ∧
      t = { s with slot := r.1, disk := d }
  | .others fs => t = { s with fs }

/-- A guarded run. -/
abbrev Runs (k : Crates) (G : Session γ → Edit → Prop) : Session γ → Session γ → Prop :=
  Relation.ReflTransGen fun s t => ∃ edit, G s edit ∧ edit.does k s t

/-- The session that starts by loading the list. -/
def Session.load (k : Crates) (fs : Files) (dir : Bytes) (disk : Disk γ) : Session γ :=
  ⟨SlotMods.loadIn k fs dir, [], disk, fs⟩

/-! ## What is asked of a run -/

/-- No carriage return in an origin, no line feed in a path. -/
def Source.Plain : Source → Prop
  | .installed origin => 13 ∉ origin
  | .folder path => 10 ∉ path

instance (source : Source) : Decidable source.Plain := by
  cases source <;> exact inferInstanceAs (Decidable (_ ∉ _))

/-- A path that the list can carry: text, with no carriage return at its end. -/
def Source.Written : Source → Prop
  | .installed _ => True
  | .folder path => lossy path = path ∧ path.getLast? ≠ some 13

instance (source : Source) : Decidable source.Written := by
  cases source with
  | installed origin => exact inferInstanceAs (Decidable True)
  | folder path => exact inferInstanceAs (Decidable (lossy path = path ∧ path.getLast? ≠ some 13))

/-- The adds that are committed have plain sources, and others leave the `mod.toml`
    of the folders as it is. -/
def Plainly (s : Session γ) : Edit → Prop
  | .commit i => ∀ add ∈ s.pending[i]?, ∀ source ∈ add.source, source.Plain
  | .others fs => ∀ path ∈ s.folders, fs.readToString (Path.join path file) = s.fs.readToString
      (Path.join path file)
  | _ => True

/-- An add is committed while its name is listed or there is room for one more, with a
    path that the list can carry, and no folder gets another name (from a `preload`
    library that is gone, or is back). -/
def WithRoom (k : Crates) (bound : Nat) (s : Session γ) : Edit → Prop
  | .commit i => ∀ add ∈ s.pending[i]?,
      (s.slot.position add.name = none → s.slot.mods.length < bound) ∧
      ∀ source ∈ add.source, source.Written
  | .others fs => ∀ path ∈ s.folders, folderName k fs path = folderName k s.fs path
  | _ => True

/-- The names differ, there are no more mods than `bound`, and what is saved is loaded again. -/
structure Survives (k : Crates) (bound : Nat) (s : Session γ) : Prop where
  names : (s.slot.mods.map SlotMod.name).Nodup
  capped : s.slot.mods.length ≤ bound
  reload : ∀ d d' : Disk γ, Prog.Ends (effectOn k s.fs) s.slot.save d (.ok ()) d' → ∀ fs : Files,
    fs.readToString (Path.join s.slot.dir (bytes "list.txt")) = .ok d'.list →
      (∀ path ∈ s.folders, read k fs path = read k s.fs path) →
      (SlotMods.loadIn k fs s.slot.dir).mods = s.slot.mods

/-! ## What every step keeps -/

/-- Every mod of the slot is on the disk as it should be, and every prepared add is ready. -/
structure Session.Inv (k : Crates) (bound : Nat) (s : Session γ) : Prop where
  kept : ∀ m ∈ s.slot.mods, m.Kept k s.fs
  ready : ∀ add ∈ s.pending, add.Ready k s.fs
  capped : s.slot.mods.length ≤ bound

section Kept

variable {bound : Nat} {s : Session γ}

/-- A folder that a mod or an add names is one of the session's. -/
theorem Session.mem_folders_of_mod {m : SlotMod} {path : Bytes} (hm : m ∈ s.slot.mods)
    (hs : m.source = .folder path) :
    path ∈ s.folders := by
  refine List.mem_append_left _ (List.mem_filterMap.mpr ⟨m, hm, ?_⟩)
  rw [hs]
  rfl

theorem Session.mem_folders_of_add {add : PendingAdd} {path : AbsolutePath} (hadd : add ∈ s.pending)
    (hkind : add.kind = some (.folder path)) : path.val ∈ s.folders := by
  refine List.mem_append_right _ (List.mem_filterMap.mpr ⟨add, hadd, ?_⟩)
  rw [PendingAdd.source, hkind]
  rfl

/-- The mod of a committed add is kept by the list. -/
theorem PendingAdd.Ready.kept {add : PendingAdd} (h : add.Ready k fs) {source : Source}
    (hsource : add.source = some source) (hplain : source.Plain) (hwritten : source.Written)
    (enabled : Bool) : SlotMod.Kept k fs ⟨add.name, source, enabled⟩ := by
  unfold PendingAdd.Ready at h
  unfold PendingAdd.source at hsource
  cases hkind : add.kind with
  | none =>
    rw [hkind] at h
    exact h.elim
  | some kind =>
    rw [hkind] at h hsource
    cases kind with
    | archive tmp root =>
      obtain rfl := Option.some.inj hsource
      exact ⟨h.1, h.2, fun hend => hplain (List.mem_of_getLast? hend)⟩
    | folder path =>
      obtain rfl := Option.some.inj hsource
      exact ⟨path.2, hplain, hwritten.1, hwritten.2, h⟩

/-- Putting a mod in keeps the invariant, as long as there is room. -/
theorem Session.Inv.put (h : s.Inv k bound) {name : Bytes} {source : Source} {enabled : Bool}
    (hroom : s.slot.position name = none → s.slot.mods.length < bound)
    (hkept : SlotMod.Kept k s.fs ⟨name, source, enabled⟩) :
    (∀ m ∈ (s.slot.put ⟨name, source, enabled⟩).mods, m.Kept k s.fs) ∧
    (s.slot.put ⟨name, source, enabled⟩).mods.length ≤ bound := by
  constructor
  · intro m hm
    rcases SlotMods.mem_put hm with hm | rfl
    · exact h.kept m hm
    · exact hkept
  · rw [SlotMods.length_put]
    split
    · rename_i hnew
      exact hroom hnew
    · exact h.capped

/-- The programs' laws, for the runs of an edit. -/
theorem Leaves.ends {α : Type} {E : Effect (Disk γ) Call Reply} {p : Fs α} {d d' : Disk γ} {a : α}
    {Q : α → Disk γ → Prop} (h : Leaves E p d Q) (he : Prog.Ends E p d a d') : Q a d' :=
      (Prog.Always.ends h he).2

/-- **One edit** that meets the conditions keeps the invariant. -/
theorem Session.Inv.step {t : Session γ} {edit : Edit} (h : s.Inv k bound) (hplain : Plainly s edit)
    (hroom : WithRoom k bound s edit) (hstep : edit.does k s t) : t.Inv k bound := by
  cases edit with
  | prepare path origin =>
    obtain ⟨suffix, r, d, hends, rfl⟩ := hstep
    -- a prepared mod is ready to be committed
    have hready := (prepare_leaves path origin suffix s.disk).ends hends
    refine ⟨h.kept, ?_, h.capped⟩
    intro add hadd
    rcases List.mem_append.mp hadd with hadd | hadd
    · exact h.ready add hadd
    · cases r with
      | error e => cases hadd
      | ok add' =>
        obtain rfl := List.mem_singleton.mp hadd
        exact hready _ rfl
  | commit i =>
    obtain ⟨add, suffix, r, d, hi, hends, rfl⟩ := hstep
    -- the other prepared mods are ready still
    have hpending : ∀ add' ∈ s.pending.eraseIdx i, add'.Ready k s.fs :=
      fun add' hadd' => h.ready add' (List.mem_of_mem_eraseIdx hadd')
    rcases (commit_leaves add suffix s.disk).ends
        hends with hsame | ⟨source, enabled, hsource, hput⟩
    -- the commit fails and changes nothing, or puts one mod into the list
    · refine ⟨?_, hpending, ?_⟩
      · rw [hsame]
        exact h.kept
      · rw [hsame]
        exact h.capped
    · obtain ⟨hfree, hwritten⟩ := hroom add hi
      have hkept := (h.ready add (List.mem_of_getElem? hi)).kept hsource
          (hplain add hi source hsource) (hwritten source hsource) enabled
      obtain ⟨hmods, hcap⟩ := h.put hfree hkept
      refine ⟨?_, hpending, ?_⟩
      · rw [hput]
        exact hmods
      · rw [hput]
        exact hcap
  | drop i =>
    obtain ⟨add, d, -, -, rfl⟩ := hstep
    exact ⟨h.kept, fun add' hadd' => h.ready add' (List.mem_of_mem_eraseIdx hadd'), h.capped⟩
  | remove name =>
    obtain ⟨r, d, hends, rfl⟩ := hstep
    -- the name is not in the list, or its mod goes
    rcases (remove_leaves name s.disk).ends hends with hsame | ⟨i, hless⟩
    · refine ⟨?_, h.ready, ?_⟩
      · rw [hsame]
        exact h.kept
      · rw [hsame]
        exact h.capped
    · refine ⟨?_, h.ready, ?_⟩
      · rw [hless]
        exact fun m hm => h.kept m (List.mem_of_mem_eraseIdx hm)
      · rw [hless]
        exact (List.eraseIdx_sublist s.slot.mods i).length_le.trans h.capped
  | setEnabled name enabled =>
    obtain ⟨r, d, hends, rfl⟩ := hstep
    -- a switch changes no name and no source
    have hswitch : r.1 = s.slot.switch name enabled := by
      obtain ⟨result, d1, -, hend, -⟩ := Prog.ends_bind.mp hends
      rw [hend]
    refine ⟨?_, h.ready, ?_⟩
    · rw [hswitch]
      intro m hm
      obtain ⟨m', hm', hname, hsource⟩ := SlotMods.mem_switch hm
      have hkept := h.kept m' hm'
      unfold SlotMod.Kept at hkept ⊢
      rw [hname, hsource]
      exact hkept
    · rw [hswitch, SlotMods.length_switch]
      exact h.capped
  | reorder i j =>
    obtain ⟨r, d, hends, rfl⟩ := hstep
    have hmove : r.1 = s.slot.move i j := by
      obtain ⟨result, d1, -, hend, -⟩ := Prog.ends_bind.mp hends
      rw [hend]
    -- the same mods in another order
    have hperm := @SlotMods.move_perm s.slot i j
    refine ⟨?_, h.ready, ?_⟩
    · rw [hmove]
      exact fun m hm => h.kept m (hperm.mem_iff.mp hm)
    · rw [hmove, hperm.length_eq]
      exact h.capped
  | others fs =>
    obtain rfl := hstep
    refine ⟨?_, ?_, h.capped⟩
    -- others may write, but by the condition not into the mods' folders
    · intro m hm
      exact (h.kept m hm).congr fun path hs => hroom path (Session.mem_folders_of_mod hm hs)
    · intro add hadd
      have hready := h.ready add hadd
      unfold PendingAdd.Ready at hready ⊢
      split
      · rename_i hkind
        rw [hkind] at hready
        exact hready
      · rename_i hkind
        rw [hkind] at hready
        exact hready
      · rename_i path hkind
        rw [hkind] at hready
        exact hready.trans (hroom path.val (Session.mem_folders_of_add hadd hkind)).symm

/-- **The law of a state.** -/
theorem Session.Inv.survives (h : s.Inv k bound) : Survives k bound s where
  names := s.slot.unique
  capped := h.capped
  reload := by
    intro d d' hsave fs htext hsame
    rw [(save_leaves d).ends hsave rfl] at htext
    apply loadIn_listText htext
    intro m hm
    apply (h.kept m hm).congr
    intro path hs
    rw [folderName, hsame path (Session.mem_folders_of_mod hm hs)]
    rfl

end Kept

/-- The slot's mod list survives a reload. -/
theorem mod_list_survives {fs : Files} {dir : Bytes} {disk : Disk γ} {s : Session γ}
    (hplain : ∀ m ∈ (SlotMods.loadIn k fs dir).mods, m.source.Plain)
    (hwritten : ∀ m ∈ (SlotMods.loadIn k fs dir).mods, m.source.Written)
    (h : Runs k (fun s edit => Plainly s edit ∧
      WithRoom k (max maxMods (SlotMods.loadIn k fs dir).mods.length) s edit)
      (Session.load k fs dir disk) s) :
        Survives k (max maxMods (SlotMods.loadIn k fs dir).mods.length) s := by
  apply Session.Inv.survives
  induction h with
  | refl =>
    refine ⟨?_, fun add hadd => (by cases hadd), le_max_right _ _⟩
    intro m hm
    apply kept_of_loaded hm
    unfold SlotMod.Clean
    have hend := hplain m hm
    have hpath := hwritten m hm
    cases hs : m.source with
    | installed origin =>
      rw [hs] at hend
      exact fun hlast => hend (List.mem_of_getLast? hlast)
    | folder path =>
      rw [hs] at hpath
      exact hpath
  | tail _ hstep ih =>
    obtain ⟨edit, ⟨hp, hr⟩, hdoes⟩ := hstep
    exact ih.step hp hr hdoes

/-! ## Ten mods and one more -/

/-- A host on which saving works and nothing is left over. -/
def calm (k : Crates) (fs : Files) : (c : Call) → Disk Unit → Reply c × Disk Unit
  | .readDir, d => (.ok [], d)
  | .old _, d | .exist _, d | .isDir _, d | .rootHasManifest _, d | .onlyFolderHasManifest _, d =>
      (false, d)
  | .rename .., d | .removeDirAll _, d | .removeFile _, d | .unpack .., d => (.error (.other []), d)
  | .createDirAll, d => (.ok (), d)
  | .writeTmp text, d => (.ok (), { d with tmp := some text })
  | .moveTmp, d =>
    match d.tmp with
    | some text => (.ok (), { d with list := text, tmp := none })
    | none => (.error (.other []), d)
  | .forget _, d => ((), d)
  | .pathIsDir _, d => (true, d)
  | .canonicalize path, d =>
      (if h : Path.isAbsolute path = true then .ok ⟨path, h⟩ else .error (.other []), d)
  | .canonicalizeDir, d => (.error (.other []), d)
  | .readManifest dir, d =>
    (match h : read k fs dir with
      | .ok m => .ok ⟨m, k, fs, dir, h⟩
      | .error e => .error e, d)
  | .readUnpacked _, d | .version _, d => (.error [], d)

/-- A disk on which every call succeeds. -/
theorem calm_effect (c : Call) (d : Disk Unit) :
    effectOn k fs c d (calm k fs c d).1 (calm k fs c d).2 := by
  cases c with
  | readManifest dir =>
    refine ⟨rfl, ?_⟩
    show Except.map Subtype.val (match h : read k fs dir with
      | .ok m => (.ok ⟨m, k, fs, dir, h⟩ : Except Bytes ReadManifest)
      | .error e => .error e) = read k fs dir
    split
    · rename_i m h
      exact h.symm
    · rename_i e h
      exact h.symm
  | readDir => exact ⟨rfl, fun files h f hf => by cases h; cases hf⟩
  | exist p => exact ⟨rfl, fun h => by cases h⟩
  | removeDirAll p => exact Or.inl rfl
  | unpack archive tmp =>
    refine ⟨d.other tmp, ?_⟩
    show d = { d with other := Function.update d.other tmp (d.other tmp) }
    rw [Function.update_eq_self]
  | moveTmp =>
    show effect .moveTmp d (calm k fs .moveTmp d).1 (calm k fs .moveTmp d).2
    unfold calm
    dsimp only
    cases htmp : d.tmp with
    | none => rfl
    | some text => exact ⟨text, htmp, rfl⟩
  | forget name => exact ⟨rfl, rfl, rfl, fun _ _ _ => rfl⟩
  | _ => rfl

/-- The list has nine installed mods. -/
def nineText : Bytes :=
  bytes "on m1\non m2\non m3\non m4\non m5\non m6\non m7\non m8\non m9\n"

/-- A slot with nine mods. -/
def nineFiles : Files :=
  { sampleFiles with readToString := lookUp ((bytes "/mods/list.txt", nineText) :: sampleTexts) }

def nine : Session Unit :=
  .load sampleCrates nineFiles (bytes "/mods") ⟨nineText, none, fun _ => none, fun _ => none⟩

/-- After the folder `path` was prepared on the calm host. -/
def Session.prepared (s : Session Unit) (path : Bytes) : Session Unit :=
  let e := Prog.exec (calm sampleCrates s.fs) (s.slot.prepare path none ⟨1, 1⟩) s.disk
  { s with pending := s.pending ++ e.1.toOption.toList, disk := e.2 }

/-- After the first add was committed on the calm host. -/
def Session.committed (s : Session Unit) : Session Unit :=
  match s.pending[0]? with
  | none => s
  | some add =>
    let e := Prog.exec (calm sampleCrates s.fs) (s.slot.commit add ⟨1, 2⟩) s.disk
    { s with slot := e.1.1, pending := s.pending.eraseIdx 0, disk := e.2 }

section Calm

variable {G : Session Unit → Edit → Prop} {r s : Session Unit}

/-- A run goes on with an add that is prepared. -/
theorem Runs.prepared (h : Runs sampleCrates G r s) (path : Bytes) (hG : G s (.prepare path none)) :
    Runs sampleCrates G r (s.prepared path) :=
  h.tail ⟨_, hG, ⟨1, 1⟩, _, _, Prog.exec_ends calm_effect _ _, rfl⟩

/-- A run goes on with one that is committed. -/
theorem Runs.committed (h : Runs sampleCrates G r s) (hpending : s.pending[0]?.isSome)
    (hG : G s (.commit 0)) :
    Runs sampleCrates G r s.committed := by
  obtain ⟨add, hadd⟩ := Option.isSome_iff_exists.mp hpending
  refine h.tail ⟨_, hG, add, ⟨1, 2⟩, _, _, hadd, Prog.exec_ends calm_effect _ _, ?_⟩
  rw [Session.committed, hadd]

end Calm

/-- Two adds prepared when the list has nine mods are both committed, and the list has eleven. -/
theorem eleven_mods :
    ¬ ∀ (k : Crates) (fs : Files) (dir : Bytes) (disk : Disk Unit) (s : Session Unit),
    (∀ m ∈ (SlotMods.loadIn k fs dir).mods, m.source.Plain) →
    Runs k Plainly (Session.load k fs dir disk) s →
      Survives k (max maxMods (SlotMods.loadIn k fs dir).mods.length) s := by
  intro h
  have hrun : Runs sampleCrates Plainly nine
      (((nine.prepared (bytes "/x")).prepared (bytes "/y")).committed.committed) := by
    refine Runs.committed
      (Runs.committed (Runs.prepared (Runs.prepared .refl _ trivial) _ trivial) ?_ ?_) ?_ ?_
    · decide
    · show ∀ add : PendingAdd, add ∈ (_ : Option PendingAdd) → ∀ source ∈ add.source, source.Plain
      decide
    · decide
    · show ∀ add : PendingAdd, add ∈ (_ : Option PendingAdd) → ∀ source ∈ add.source, source.Plain
      decide
  have hcap := (h sampleCrates nineFiles (bytes "/mods") _ _ (by decide) hrun).capped
  exact absurd hcap (by decide)

/-- One add is committed, and the ten mods are loaded again. -/
theorem ten_mods_survive : ∃ s : Session Unit, s.slot.mods.length = 10 ∧
    Survives sampleCrates 10 s := by
  refine ⟨(nine.prepared (bytes "/x")).committed, by decide, ?_⟩
  refine @mod_list_survives Unit sampleCrates nineFiles (bytes "/mods") nine.disk _ ?_ ?_ ?_
  · decide
  · decide
  · refine Runs.committed (Runs.prepared .refl _ ⟨trivial, trivial⟩) ?_ ⟨?_, ?_⟩
    · decide
    · show ∀ add : PendingAdd, add ∈ (_ : Option PendingAdd) → ∀ source ∈ add.source, source.Plain
      decide
    · show ∀ add : PendingAdd, add ∈ (_ : Option PendingAdd) → (_ → _ < _) ∧ ∀ source ∈ add.source,
          source.Written
      decide

end CdjEmu.Mods
