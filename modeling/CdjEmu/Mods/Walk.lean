/-
  WALKING A MOD'S FOLDER — `walk` over a host whose folders hold files, folders and links to either.

  A `ModTree` is what there is: folders by their real paths, and what each name in them leads to.  A
  link counts as what it points to, so folders can be reached along several routes and can lie below
  themselves.  `Shows` says that the host answers every call as the tree has it, and that no call
  fails.

  `walk` is then the descent of the library over the tree without `.git`, with the names in order
  (`walk_eq_ok_iff`).  So it ends, it refuses exactly the trees in which a folder it can get to lies
  below itself, and otherwise it lists every route once (`walk_lists_routes`).  What is called
  `.git` is left out whatever it is, a plain file of that name too.

  The depth that the source bounds is never reached: the number of folders is one, and `walk` is
  given one step more than there are folders.  A host whose answers contradict one another is not
  spoken of, but links may lead anywhere, and the same folder may be listed under several names.
-/
import CdjEmu.Lib.FolderGraph
import CdjEmu.Mods.Pack

namespace CdjEmu.Mods

open Cpio (Entry)
open Relation

structure PlainFile where
  mode : UInt32
  data : Bytes
  deriving DecidableEq

/-- The folders there are, by their real paths, and what is in them. -/
structure ModTree extends FolderGraph Bytes Bytes PlainFile where
  folders : List Bytes
  mode : Bytes → UInt32
  closed : ∀ d ∈ folders, ∀ e, toFolderGraph.Below d e → e ∈ folders
  /-- Two folders are not spelled alike. -/
  apart : ∀ d ∈ folders, ∀ e ∈ folders, Path.Eqv d e → d = e

/-- The host answers as the tree says. -/
structure Shows (fs : Files) (g : ModTree) : Prop where
  readDir : ∀ p d, fs.canonicalize p = .ok d → d ∈ g.folders →
    fs.readDir p = .ok ((g.names d).map .ok)
  file : ∀ p d n f, fs.canonicalize p = .ok d → d ∈ g.folders → n ∈ g.names d →
    g.target d n = .file f →
    (∃ m, fs.metadata (Path.join p n) = .ok m ∧ m.kind = .file ∧ m.mode = f.mode) ∧
    fs.read (Path.join p n) = .ok f.data
  folder : ∀ p d n e, fs.canonicalize p = .ok d → d ∈ g.folders → n ∈ g.names d →
    g.target d n = .folder e →
    (∃ m, fs.metadata (Path.join p n) = .ok m ∧ m.kind = .dir ∧ m.mode = g.mode e) ∧
    fs.canonicalize (Path.join p n) = .ok e

namespace ModTree

variable (g : ModTree)

/-- The tree without what is called `.git`. -/
def tracked : FolderGraph Bytes Bytes PlainFile where
  names d := (g.names d).filter (· ≠ bytes ".git")
  target := g.target
  nodup d := (g.nodup d).filter _

/-- The same with the names in order. -/
def sorted : FolderGraph Bytes Bytes PlainFile where
  names d := ((g.names d).insertionSort (· ≤ ·)).filter (· ≠ bytes ".git")
  target := g.target
  nodup d := ((List.perm_insertionSort _ _).nodup_iff.mpr (g.nodup d)).filter _

/-- The archive entry for what a route leads to. -/
def entryOf (guest : Bytes) (r : List Bytes × Target Bytes PlainFile) : Entry :=
  match r.2 with
  | .file f => entryFile (r.1.foldl Path.join guest) f.data (f.mode &&& 0o7777)
  | .folder d => entryDir (r.1.foldl Path.join guest) (g.mode d &&& 0o7777)

variable {g}

theorem mem_names_sorted {d n : Bytes} : n ∈ g.sorted.names d ↔ n ∈ g.tracked.names d := by
  simp [sorted, tracked, List.mem_insertionSort]

theorem below_sorted : g.sorted.Below = g.tracked.Below := by
  funext d e
  exact propext (exists_congr fun n => and_congr_left fun _ => mem_names_sorted)

theorem route_sorted {d : Bytes} {ns : List Bytes} {t : Target Bytes PlainFile} :
    g.sorted.Route d ns t ↔ g.tracked.Route d ns t :=
  ⟨FolderGraph.Route.of_names (fun _ _ => mem_names_sorted.mp) rfl,
    FolderGraph.Route.of_names (fun _ _ => mem_names_sorted.mpr) rfl⟩

end ModTree

/-! ## The walk is the descent -/

section

variable {fs : Files} {g : ModTree} {p d guest : Bytes} {seen : List Bytes}

/-- Names that can all be read are read. -/
theorem mapM_id_ok (names : List Bytes) :
    (names.map (Except.ok (ε := IoError))).mapM id = .ok names := by
  rw [mapM_eq_ok, List.forall₂_map_left_iff]
  exact List.forall₂_same.mpr fun n _ => rfl

theorem seen_any_iff (hin : d ∈ g.folders) (hseen : ∀ s ∈ seen, s ∈ g.folders) :
    (seen.any fun s => Path.Eqv d s) = true ↔ d ∈ seen := by
  rw [List.any_eq_true]
  constructor
  · rintro ⟨s, hs, heqv⟩
    rwa [g.apart d hin s (hseen s hs) (of_decide_eq_true heqv)]
  · intro hd
    exact ⟨d, hd, decide_eq_true (Path.Eqv.refl d)⟩

/-- What `walk` adds for one name of the folder at `dir`. -/
def walkName (fs : Files) (below : Bytes → Bytes → Except IoError (List Entry))
    (dir guest name : Bytes) :
    Except IoError (List Entry) :=
  let path := Path.join dir name
  let target := Path.join guest name
  match fs.metadata path with
  | .error e => .error (errorAt path (bytes ": " ++ e.text))
  | .ok found =>
    let mode := found.mode &&& 0o7777
    match found.kind with
    | .dir => do
      let below ← below path target
      .ok (entryDir target mode :: below)
    | .file =>
      match fs.read path with
      | .error e => .error (errorAt path (bytes ": " ++ e.text))
      | .ok data => .ok [entryFile target data mode]
    | .other => .error (errorAt path (bytes " is not a file or a folder"))

theorem walk_succ_eq_ok (h : Shows fs g) {fuel : Nat} (hd : fs.canonicalize p = .ok d)
    (hin : d ∈ g.folders) (hseen : ∀ s ∈ seen, s ∈ g.folders) {es : List Entry} :
    walk fs (fuel + 1) p guest seen = .ok es ↔
      d ∉ seen ∧ ∃ parts,
        List.Forall₂ (fun n part => walkName fs
          (fun path target => walk fs fuel path target (d :: seen)) p guest n = .ok part)
          (g.sorted.names d) parts ∧
        es = parts.flatten := by
  rw [walk, hd]
  show (if _ then _ else _) = _ ↔ _
  rw [check_eq_ok, seen_any_iff hin hseen, h.readDir p d hd hin]
  refine and_congr_right fun _ => ?_
  show (((g.names d).map Except.ok).mapM id : Except IoError (List Bytes)) >>= _ = _ ↔ _
  rw [mapM_id_ok, bind_eq_ok]
  constructor
  · rintro ⟨names, hnames, hes⟩
    cases hnames
    obtain ⟨parts, hparts, hes⟩ := bind_eq_ok.mp hes
    cases hes
    exact ⟨parts, mapM_eq_ok.mp hparts, rfl⟩
  · rintro ⟨parts, hparts, rfl⟩
    exact ⟨g.names d, rfl, bind_eq_ok.mpr ⟨parts, mapM_eq_ok.mpr hparts, rfl⟩⟩

/-- One name: where the folders below are walked as the tree has them, so is the name. -/
theorem walkName_eq_ok (h : Shows fs g) {below : Bytes → Bytes → Except IoError (List Entry)}
    {lower : Bytes → Except Bytes (List (List Bytes × Target Bytes PlainFile))} {n : Bytes}
    (hd : fs.canonicalize p = .ok d) (hin : d ∈ g.folders) (hn : n ∈ g.names d)
    (hbelow : ∀ e, g.target d n = .folder e →
      ∀ es, below (Path.join p n) (Path.join guest n) = .ok es ↔
      ∃ rs, lower e = .ok rs ∧ es = rs.map (g.entryOf (Path.join guest n))) {part : List Entry} :
    walkName fs below p guest n = .ok part ↔ ∃ rs, g.sorted.under lower d n = .ok rs ∧
    part = rs.map (g.entryOf guest) := by
  unfold walkName
  dsimp only
  -- a file is one entry; a folder is an entry and what is below it
  cases ht : g.target d n with
  | file f =>
    obtain ⟨⟨m, hm, hkind, hmode⟩, hread⟩ := h.file p d n f hd hin hn ht
    have hunder : g.sorted.under lower d n = .ok [([n], .file f)] :=
      FolderGraph.under_eq_ok.mpr (.inl ⟨f, ht, rfl⟩)
    rw [hunder, hm]
    dsimp only
    rw [hkind, hread, hmode]
    constructor
    · rintro ⟨⟩
      exact ⟨_, rfl, rfl⟩
    · rintro ⟨rs, ⟨⟩, rfl⟩
      rfl
  | folder e =>
    obtain ⟨⟨m, hm, hkind, hmode⟩, -⟩ := h.folder p d n e hd hin hn ht
    rw [hm]
    dsimp only
    rw [hkind, hmode]
    show below _ _ >>= _ = _ ↔ _
    rw [bind_eq_ok]
    constructor
    · rintro ⟨es, hes, hpart⟩
      obtain ⟨rs, hrs, rfl⟩ := (hbelow e ht es).mp hes
      cases hpart
      refine ⟨_, FolderGraph.under_eq_ok.mpr (.inr ⟨e, rs, ht, hrs, rfl⟩), ?_⟩
      rw [List.map_cons, List.map_map]
      rfl
    · rintro ⟨_, hunder, rfl⟩
      -- the target is the folder that it was
      rcases FolderGraph.under_eq_ok.mp hunder with ⟨f, hf, -⟩ | ⟨e', rs, he', hrs, rfl⟩
      · rw [show g.sorted.target d n = g.target d n from rfl, ht] at hf
        cases hf
      · rw [show g.sorted.target d n = g.target d n from rfl, ht] at he'
        cases he'
        refine ⟨_, (hbelow e ht _).mpr ⟨rs, hrs, rfl⟩, ?_⟩
        rw [List.map_cons, List.map_map]
        rfl

/-- `walk` is the descent over the tree, with each route as an entry. -/
theorem walk_eq_ok_iff (h : Shows fs g) {fuel : Nat} (hd : fs.canonicalize p = .ok d)
    (hin : d ∈ g.folders) (hseen : ∀ s ∈ seen, s ∈ g.folders) (es : List Entry) :
    walk fs fuel p guest seen = .ok es ↔ ∃ rs, g.sorted.collect fuel d seen = .ok rs ∧
    es = rs.map (g.entryOf guest) := by
  induction fuel generalizing p d guest seen es with
  | zero =>
    constructor
    · intro hw
      cases hw
    · rintro ⟨rs, hrs, -⟩
      cases hrs
  | succ fuel ih =>
    have hseen' : ∀ s ∈ d :: seen, s ∈ g.folders := by
      intro s hs
      rcases List.mem_cons.mp hs with rfl | hs
      · exact hin
      · exact hseen s hs
    have hname : ∀ n ∈ g.sorted.names d, ∀ part,
        walkName fs (fun path target => walk fs fuel path target (d :: seen)) p guest n = .ok part ↔
          ∃ rs, g.sorted.under (fun e => g.sorted.collect fuel e (d :: seen)) d n = .ok rs ∧
          part = rs.map (g.entryOf guest) := by
      intro n hn part
      have hn' : n ∈ g.names d := List.mem_of_mem_filter (ModTree.mem_names_sorted.mp hn)
      refine walkName_eq_ok h hd hin hn' fun e he es => ?_
      exact ih (h.folder p d n e hd hin hn' he).2 (g.closed d hin e ⟨n, hn', he⟩) hseen' es
    rw [walk_succ_eq_ok h hd hin hseen]
    constructor
    · rintro ⟨hnew, parts, hparts, rfl⟩
      obtain ⟨rss, hrss, rfl⟩ := (FolderGraph.forall₂_map_iff hname).mp hparts
      exact ⟨_, FolderGraph.collect_succ_eq_ok.mpr ⟨hnew, rss, hrss, rfl⟩, List.map_flatten.symm⟩
    · rintro ⟨rs, hrs, rfl⟩
      obtain ⟨hnew, rss, hrss, rfl⟩ := FolderGraph.collect_succ_eq_ok.mp hrs
      exact ⟨hnew, _, (FolderGraph.forall₂_map_iff hname).mpr ⟨rss, hrss, rfl⟩, List.map_flatten⟩

end

/-! ## What it comes to -/

/-- **Packing a folder ends.**  No bound on the depth is ever reached; the walk refuses exactly the
    folders below which one lies below itself; and otherwise it lists every route, once. -/
theorem walk_lists_routes (fs : Files) (g : ModTree) (h : Shows fs g) (dir root : Bytes)
    (hroot : fs.canonicalize dir = .ok root) (hin : root ∈ g.folders) :
    (∀ n, walk fs (fs.dirs.length + 1 + n) dir [] [] = walkDir fs dir) ∧
    ((∃ e, walkDir fs dir = .error e) ↔
      ∃ d, ReflTransGen g.tracked.Below root d ∧ TransGen g.tracked.Below d d) ∧
    ∀ es, walkDir fs dir = .ok es →
      ∃ rs : List (List Bytes × Target Bytes PlainFile),
        rs.Nodup ∧ (∀ ns t, (ns, t) ∈ rs ↔ g.tracked.Route root ns t) ∧
        es = rs.map (g.entryOf []) := by
  -- the walk and the graph's own collection agree, folder by folder
  have hok : ∀ es, walkDir fs dir = .ok es ↔
      ∃ rs, g.sorted.collect (fs.dirs.length + 1 + g.folders.length) root [] = .ok rs ∧
      es = rs.map (g.entryOf []) := by
    intro es
    rw [← walk_fuel fs dir g.folders.length]
    exact walk_eq_ok_iff h hroot hin (by simp) es
  have hclosed : ∀ d ∈ g.folders, ∀ e, g.sorted.Below d e → e ∈ g.folders := by
    rintro d hd e ⟨n, hn, he⟩
    exact g.closed d hd e ⟨n, List.mem_of_mem_filter (ModTree.mem_names_sorted.mp hn), he⟩
  -- the fuel is above the number of folders
  have hdeep : (FolderGraph.unseen g.folders []).length < fs.dirs.length + 1 +
      g.folders.length := by
    refine Nat.lt_of_le_of_lt (List.length_filter_le _ _) ?_
    omega
  have hiff := FolderGraph.collect_ok_iff hclosed hin hdeep
  rw [ModTree.below_sorted] at hiff
  refine ⟨walk_fuel fs dir, ?_, ?_⟩
  -- it fails exactly where it does not succeed
  · have hfails : (∃ e, walkDir fs dir = .error e) ↔ ¬ ∃ es, walkDir fs dir = .ok es := by
      cases walkDir fs dir with
      | error e => simp
      | ok es => simp
    have hsome : (∃ es, walkDir fs dir = .ok es) ↔
        ∃ rs, g.sorted.collect (fs.dirs.length + 1 + g.folders.length) root [] = .ok rs := by
      constructor
      · rintro ⟨es, hes⟩
        obtain ⟨rs, hrs, -⟩ := (hok es).mp hes
        exact ⟨rs, hrs⟩
      · rintro ⟨rs, hrs⟩
        exact ⟨_, (hok _).mpr ⟨rs, hrs, rfl⟩⟩
    rw [hfails, hsome, hiff]
    push Not
    simp
  · intro es hes
    obtain ⟨rs, hrs, rfl⟩ := (hok es).mp hes
    obtain ⟨hnd, hmem⟩ := FolderGraph.collect_routes hrs
    exact ⟨rs, hnd, fun ns t => (hmem ns t).trans ModTree.route_sorted, rfl⟩

/-! ### A mod with a link -/

/-- A folder with a folder in it, a link to that folder, and a plain file called `.git`. -/
def linkedTree : ModTree where
  names d :=
    if d = bytes "/m" then [bytes "lib", bytes ".git", bytes "a"]
    else if d = bytes "/m/a" then [bytes "f"]
    else []
  target d n :=
    if d = bytes "/m/a" then .file ⟨0o644, bytes "data"⟩
    else if n = bytes ".git" then .file ⟨0o644, bytes "gitdir: /r"⟩
    else .folder (bytes "/m/a")
  nodup d := by
    split
    · decide
    · split
      · decide
      · exact List.nodup_nil
  folders := [bytes "/m", bytes "/m/a"]
  mode _ := 0o755
  closed := by
    rintro d - e ⟨n, hn, he⟩
    dsimp only at he
    split at he
    · cases he
    · split at he
      · cases he
      · cases he
        decide
  apart := by decide

/-- Where a path to a folder leads. -/
def linkedPath (p : Bytes) : Option Bytes :=
  if p = bytes "/m" then some (bytes "/m")
  else if p ∈ [bytes "/m/a", bytes "/m/lib"] then some (bytes "/m/a")
  else none

theorem linkedPath_eq_some {p d : Bytes} (h : linkedPath p = some d) :
    p = bytes "/m" ∧ d = bytes "/m" ∨ p ∈ [bytes "/m/a", bytes "/m/lib"] ∧ d = bytes "/m/a" := by
  unfold linkedPath at h
  split at h
  · cases h
    exact .inl ⟨‹_›, rfl⟩
  · split at h
    · cases h
      exact .inr ⟨‹_›, rfl⟩
    · cases h

def linkedFiles : Files where
  readToString _ := .error (.other [])
  read p := if p = bytes "/m/.git" then .ok (bytes "gitdir: /r") else .ok (bytes "data")
  metadata p :=
    if p ∈ [bytes "/m/.git", bytes "/m/a/f", bytes "/m/lib/f"] then .ok
      ⟨.file, 0o644, 0, none⟩ else .ok ⟨.dir, 0o755, 0, none⟩
  symlinkMetadata _ := .error (.other [])
  canonicalize p := (linkedPath p).elim (.error (.other [])) .ok
  readDir p := (linkedPath p).elim (.error (.other [])) fun d => .ok ((linkedTree.names d).map .ok)
  now := 0
  dirs := [bytes "/m", bytes "/m/a"]
  dirs_complete p real names h _ := by
    rcases hp : linkedPath p with _ | d
    · rw [hp] at h
      cases h
    · rw [hp] at h
      cases h
      rcases linkedPath_eq_some hp with ⟨-, rfl⟩ | ⟨-, rfl⟩
      · decide
      · decide

theorem linkedFiles_canonicalize {p d : Bytes} (h : linkedFiles.canonicalize p = .ok d) :
    linkedPath p = some d := by
  rcases hp : linkedPath p with _ | e
  · exact absurd h (by simp [linkedFiles, hp])
  · simpa [linkedFiles, hp] using h

/-- What is in the folders of `linkedTree`. -/
theorem mem_linkedTree {d n : Bytes} (h : n ∈ linkedTree.names d) :
    d = bytes "/m" ∧ n ∈ [bytes "lib", bytes "a"] ∨ d = bytes "/m" ∧ n = bytes ".git" ∨
    d = bytes "/m/a" ∧ n = bytes "f" := by
  dsimp only [linkedTree] at h
  split at h
  · rename_i hd
    rcases List.mem_cons.mp h with rfl | h
    · exact .inl ⟨hd, List.mem_cons_self⟩
    rcases List.mem_cons.mp h with rfl | h
    · exact .inr (.inl ⟨hd, rfl⟩)
    · exact .inl ⟨hd, List.mem_cons_of_mem _ h⟩
  · split at h
    · exact .inr (.inr ⟨‹_›, List.mem_singleton.mp h⟩)
    · cases h

theorem shows_linkedFiles : Shows linkedFiles linkedTree where
  readDir p d hd _ := by
    show (linkedPath p).elim _ _ = _
    rw [linkedFiles_canonicalize hd]
    rfl
  file p d n f hd _ hn ht := by
    rcases linkedPath_eq_some (linkedFiles_canonicalize hd) with ⟨rfl, rfl⟩ | ⟨hp, rfl⟩
    · rcases mem_linkedTree hn with ⟨-, hn⟩ | ⟨-, rfl⟩ | ⟨hd, -⟩
      · rw [show linkedTree.target (bytes "/m") n = .folder
          (bytes "/m/a") by fin_cases hn <;> rfl] at ht
        cases ht
      · cases ht
        exact ⟨⟨_, rfl, rfl, rfl⟩, rfl⟩
      · exact absurd hd (by decide)
    · rcases mem_linkedTree hn with ⟨hd, -⟩ | ⟨hd, -⟩ | ⟨-, rfl⟩
      · exact absurd hd (by decide)
      · exact absurd hd (by decide)
      · cases ht
        fin_cases hp
        · exact ⟨⟨_, rfl, rfl, rfl⟩, rfl⟩
        · exact ⟨⟨_, rfl, rfl, rfl⟩, rfl⟩
  folder p d n e hd _ hn ht := by
    rcases linkedPath_eq_some (linkedFiles_canonicalize hd) with ⟨rfl, rfl⟩ | ⟨hp, rfl⟩
    · rcases mem_linkedTree hn with ⟨-, hn⟩ | ⟨-, rfl⟩ | ⟨hd, -⟩
      · fin_cases hn
        · cases ht
          exact ⟨⟨_, rfl, rfl, rfl⟩, rfl⟩
        · cases ht
          exact ⟨⟨_, rfl, rfl, rfl⟩, rfl⟩
      · cases ht
      · exact absurd hd (by decide)
    · rcases mem_linkedTree hn with ⟨hd, -⟩ | ⟨hd, -⟩ | ⟨-, rfl⟩
      · exact absurd hd (by decide)
      · exact absurd hd (by decide)
      · cases ht

/-- The folder with a link in it is listed through both of its names. -/
theorem linked_folder_listed_twice : ∃ es, walkDir linkedFiles (bytes "/m") = .ok es ∧
    ∃ rs : List (List Bytes × Target Bytes PlainFile),
      rs.Nodup ∧ (∀ ns t, (ns, t) ∈ rs ↔ linkedTree.tracked.Route (bytes "/m") ns t) ∧
      es = rs.map (linkedTree.entryOf []) := by
  have hlist := walk_lists_routes linkedFiles linkedTree shows_linkedFiles (bytes "/m")
      (bytes "/m") rfl (by decide)
  exact ⟨_, rfl, hlist.2.2 _ rfl⟩

/-- A plain file called `.git` is in the folder and not in the list. -/
theorem git_file_left_out : ¬ ∀ (fs : Files) (g : ModTree) (dir root : Bytes) (es : List Entry),
    Shows fs g →
    fs.canonicalize dir = .ok root → root ∈ g.folders → walkDir fs dir = .ok es →
    ∀ n f, n ∈ g.names root → g.target root n = .file f → g.entryOf [] ([n], .file f) ∈ es := by
  intro h
  have hgit := h linkedFiles linkedTree (bytes "/m") (bytes "/m") _ shows_linkedFiles rfl
      (by decide) rfl (bytes ".git")
    ⟨0o644, bytes "gitdir: /r"⟩ (by decide) rfl
  revert hgit
  decide

end CdjEmu.Mods
