/-
  THE FIT READER — the tree of a Flattened Image Tree, read as a list of properties.

  `Tree.parse` walks the tokens of the structure block with a stack of names and keeps, for every
  property, the path of its node, its name and its value.  It follows the file's own offsets, so it
  is proved in two steps: read token by token, a placed block does what its tokens say
  (`loop_flat`), and the tokens of a tree give its properties (`walk_forest`).

  `children` looks for the paths that continue a node's path by a `/` and a name.  The root's path
  is that `/` itself, which no path continues so: asked for the root's children it lists none
  (`tree_read_back` says what is left).

  1. **Program** — `Fit::parse` with its loop over the tokens, `children` and `prop`.  A property is
     kept under its node's path, so what is said about nodes afterwards is said about paths.

  2. **Specification** — `Lib/DeviceTree` has the trees and the files that place one: where the
     structure block and the strings stand, with any tokens that do nothing between the others
     (`Placement`).  For such a file the reader has to give the tree's own entries, and the children
     that the tree lists.

  3. **The crux (`walk_tree`)** — the tokens of a subtree leave the stack as it was and add the
     entries of the subtree, in document order; it is proved over a forest, so that the siblings
     carry their own hypothesis.

  4. **Bridge** — `loop_flat` reads a placed block token by token, and `isChild_iff` turns the test
     on paths into one on names, which no `/` is in.
-/
import CdjEmu.Lib.DeviceTree

namespace CdjEmu.Fit

open Text

open DeviceTree
    (Token Piece Flat Forest Name NodeName Property Placement block pathOf NameAt align4 pad4)

/-- What may be wrong with an image. -/
inductive ExtractError where
  | badIso (what : String)
  | fileNotFound (what : Bytes)
  deriving DecidableEq

/-- The first word of a flattened device tree. -/
def FDT_MAGIC : UInt32 := 0xd00dfeed

/-- The tokens of the structure block. -/
def FDT_BEGIN_NODE : UInt32 := 1

def FDT_END_NODE : UInt32 := 2

def FDT_PROP : UInt32 := 3

def FDT_NOP : UInt32 := 4

def FDT_END : UInt32 := 9

/-- Every property of the tree, keyed by its node's path. -/
structure Tree where
  totalSize : Nat
  props : List (Bytes × Bytes × Bytes)
  deriving DecidableEq

/-! ## Reading -/

/-- The word at `pos`, if the file reaches that far. -/
def word (fit : Bytes) (pos : Nat) : Option UInt32 :=
  if pos + 4 ≤ fit.length then some (be32 fit pos) else none

/-- A word of the header, or the error that it is cut short. -/
def header (fit : Bytes) (pos : Nat) : Except ExtractError Nat :=
  match word fit pos with
  | some w => .ok w.toNat
  | none => .error (.badIso "the FDT header is truncated")

/-- The text up to the first NUL; what is no text is empty. -/
def cstr (b : Bytes) : Bytes :=
  let s := b.takeWhile (· ≠ 0)
  if Valid s then s else []

/-- The next multiple of four. -/
def nextMultipleOf4 (n : Nat) : Nat := (n + 3) / 4 * 4

/-- The root node's name is empty, so the path starts "/". -/
def nodePath (path : List Bytes) : Bytes := if path.length ≤ 1 then [47] else [47].intercalate path

/-- The octets from `pos` on, if the file has that many. -/
def get (fit : Bytes) (pos len : Nat) : Option Bytes :=
  if pos + len ≤ fit.length then some (slice fit pos len) else none

/-- A word that is read lies within the file. -/
theorem length_of_word {fit : Bytes} {pos : Nat} {w : UInt32} (h : word fit pos = some w) :
    pos + 4 ≤ fit.length := by
  unfold word at h
  split at h
  · assumption
  · cases h

/-- The walk over the structure block, from the token at `pos`. -/
def loop (fit strings : Bytes) (pos : Nat) (path : List Bytes)
    (props : List (Bytes × Bytes × Bytes)) :
    Except ExtractError (List (Bytes × Bytes × Bytes)) :=
  match _h : word fit pos with
  | none => .error (.badIso "FDT structure runs past the file")
  | some token =>
    if token = FDT_BEGIN_NODE then
      let name := cstr (fit.drop (pos + 4))
      loop fit strings (nextMultipleOf4 (pos + 4 + name.length + 1)) (path ++ [name]) props
    else if token = FDT_END_NODE then loop fit strings (pos + 4) path.dropLast props
    else if token = FDT_PROP then
      match header fit (pos + 4), header fit (pos + 8) with
      | .error e, _ => .error e
      | _, .error e => .error e
      | .ok len, .ok nameOff =>
        match get fit (pos + 12) len with
        | none => .error (.badIso "FDT property runs past the file")
        | some value =>
          loop fit strings (nextMultipleOf4 (pos + 12 + len)) path
            (props ++ [(nodePath path, cstr (strings.drop nameOff), value)])
    else if token = FDT_NOP then loop fit strings (pos + 4) path props
    else if token = FDT_END then .ok props
    else .error (.badIso "the FDT has an unknown token")
termination_by fit.length - pos
decreasing_by
  all_goals
    have := length_of_word _h
    first
      | omega
      | (unfold nextMultipleOf4; omega)

namespace Tree

/-- `Fit::parse`: the header is checked, and the properties are collected in
    the order of the file. -/
def parse (fit : Bytes) : Except ExtractError Tree :=
  if word fit 0 ≠ some FDT_MAGIC then .error (.badIso "not a flattened device tree")
  else do
    let totalSize ← Fit.header fit 4
    let structOff ← Fit.header fit 8
    let stringsOff ← Fit.header fit 12
    let stringsEnd := min totalSize fit.length
    if stringsOff ≤ stringsEnd then do
      let props ← loop fit (slice fit stringsOff (stringsEnd - stringsOff)) structOff [] []
      .ok { totalSize, props }
    else .error (.badIso "the FDT strings block is out of range")

/-- What follows `p` at the start of `s`. -/
def stripPre (p s : Bytes) : Option Bytes := if p.isPrefixOf s then some (s.drop p.length) else none

/-- Whether `n` is `node`, a `/` and a name. -/
def isChild (node n : Bytes) : Bool :=
  match (stripPre node n).bind (stripPre [47]) with
  | some name => 47 ∉ name
  | none => false

/-- The paths of `node`'s direct children that carry a property. -/
def children (t : Tree) (node : Bytes) : List Bytes :=
  t.props.foldl (fun seen p => if isChild node p.1 ∧ p.1 ∉ seen then seen ++ [p.1] else seen) []

/-- `prop`: the first property of a node under a name. -/
def prop (t : Tree) (node name : Bytes) : Option Bytes :=
  (t.props.find? fun p => p.1 = node ∧ p.2.1 = name).map (·.2.2)

end Tree

/-! ## Token by token -/

/-- What the walk does with tokens. -/
def walk : List Token → List Bytes → List (Bytes × Bytes × Bytes) → List (Bytes × Bytes × Bytes)
  | [], _, props => props
  | .beginNode name :: ts, path, props => walk ts (path ++ [name.octets]) props
  | .endNode :: ts, path, props => walk ts path.dropLast props
  | .prop name value :: ts, path, props =>
      walk ts path (props ++ [(nodePath path, name.octets, value)])
  | .finish :: _, _, props => props

/-- What starts with a word is read as that word. -/
theorem word_of_start {fit rest : Bytes} {pos : Nat} {w : UInt32}
    (h : toBe32 w ++ rest <+: fit.drop pos) :
    word fit pos = some w := by
  have hw : toBe32 w <+: fit.drop pos := (List.prefix_append _ _).trans h
  have hlen : pos + 4 ≤ fit.length := le_of_start hw (by simp [toBe32])
  rw [word, if_pos hlen, be32_of_slice (slice_of_start hw)]

theorem header_of_start {fit rest : Bytes} {pos : Nat} {w : UInt32}
    (h : toBe32 w ++ rest <+: fit.drop pos) :
    header fit pos = .ok w.toNat := by
  rw [header, word_of_start h]

/-- A name ends at its NUL. -/
theorem cstr_name (name : Name) (rest : Bytes) : cstr (name.octets ++ 0 :: rest) = name.octets := by
  have htake : (name.octets ++ 0 :: rest).takeWhile (· ≠ 0) = name.octets := by
    rw [List.takeWhile_append_of_pos]
    · simp
    · intro c hc
      have hne : c ≠ 0 := fun h => name.noNul (h ▸ hc)
      simpa using hne
  rw [cstr, htake]
  simp [name.valid]

/-- Rounding up to four is what the alignment of a piece adds. -/
theorem nextMultipleOf4_add {pos : Nat} (h : pos % 4 = 0) (n : Nat) :
    nextMultipleOf4 (pos + n) = pos + align4 n :=
  DeviceTree.align4_of_aligned h n

section Loop

variable {fit strings : Bytes} {pos : Nat} {path : List Bytes}
    {props : List (Bytes × Bytes × Bytes)}

/-- One turn of the loop at each token: a node is entered. -/
theorem loop_beginNode (h : word fit pos = some FDT_BEGIN_NODE) {name : Bytes}
    (hname : cstr (fit.drop (pos + 4)) = name) :
    loop fit strings pos path props =
      loop fit strings (nextMultipleOf4 (pos + 4 + name.length + 1)) (path ++ [name]) props := by
  rw [loop]
  split
  · rename_i h'
    cases h.symm.trans h'
  · rename_i token h'
    cases h.symm.trans h'
    rw [if_pos rfl, hname]

/-- A node is left. -/
theorem loop_endNode (h : word fit pos = some FDT_END_NODE) :
    loop fit strings pos path props = loop fit strings (pos + 4) path.dropLast props := by
  rw [loop]
  split
  · rename_i h'
    cases h.symm.trans h'
  · rename_i token h'
    cases h.symm.trans h'
    rw [if_neg (by decide), if_pos rfl]

/-- A property is collected under the path reached. -/
theorem loop_prop (h : word fit pos = some FDT_PROP) {len nameOff : Nat} {value : Bytes}
    (hlen : header fit (pos + 4) = .ok len) (hoff : header fit (pos + 8) = .ok nameOff)
    (hvalue : get fit (pos + 12) len = some value) :
    loop fit strings pos path props = loop fit strings (nextMultipleOf4 (pos + 12 + len)) path
      (props ++ [(nodePath path, cstr (strings.drop nameOff), value)]) := by
  rw [loop]
  split
  · rename_i h'
    cases h.symm.trans h'
  · rename_i token h'
    cases h.symm.trans h'
    rw [if_neg (by decide), if_neg (by decide), if_pos rfl, hlen, hoff]
    dsimp only
    rw [hvalue]

/-- A token that does nothing. -/
theorem loop_nop (h : word fit pos = some FDT_NOP) :
    loop fit strings pos path props = loop fit strings (pos + 4) path props := by
  rw [loop]
  split
  · rename_i h'
    cases h.symm.trans h'
  · rename_i token h'
    cases h.symm.trans h'
    rw [if_neg (by decide), if_neg (by decide), if_neg (by decide), if_pos rfl]

/-- The properties are handed back. -/
theorem loop_finish (h : word fit pos = some FDT_END) :
    loop fit strings pos path props = .ok props := by
  rw [loop]
  split
  · rename_i h'
    cases h.symm.trans h'
  · rename_i token h'
    cases h.symm.trans h'
    rw [if_neg (by decide), if_neg (by decide), if_neg (by decide), if_neg (by decide), if_pos rfl]

end Loop

/-- A name in the strings block is read back, whatever follows the block. -/
theorem cstr_of_nameAt {strings : Bytes} {off : UInt32} {name : Name} (h : NameAt strings off name)
    (more : Bytes) :
    cstr ((strings ++ more).drop off.toNat) = name.octets := by
  obtain ⟨rest, hrest⟩ := h
  have hlen : off.toNat ≤ strings.length := by
    have hlen := congrArg List.length hrest
    simp only [List.length_append, List.length_drop, List.length_singleton] at hlen
    omega
  rw [List.drop_append_of_le_length hlen, ← hrest]
  simp only [List.append_assoc, List.singleton_append]
  exact cstr_name name (rest ++ more)

/-- **A placed block does what its tokens say.** -/
theorem loop_flat {fit strings : Bytes} (more : Bytes) {ts : List Token} {ps : List Piece}
    (h : Flat strings ts ps) (hend : Token.finish ∈ ts) :
    ∀ {pos : Nat} (path : List Bytes) (props : List (Bytes × Bytes × Bytes)), pos % 4 = 0 →
    block ps <+: fit.drop pos →
      loop fit (strings ++ more) pos path props = .ok (walk ts path props) := by
  induction h with
  | nil => cases hend
  | @nop ts ps _ ih =>
    intro pos path props hpos hblock
    have hblock' : toBe32 4 ++ block ps <+: fit.drop pos := hblock
    rw [loop_nop (word_of_start hblock')]
    exact ih hend path props (by omega) (start_append hblock')
  | @beginNode ts ps name _ ih =>
    intro pos path props hpos hblock
    have hin : Token.finish ∈ ts := by simpa using hend
    have hnext :=
      start_append (show pad4 (toBe32 1 ++ name.octets ++ [0]) ++ block ps <+: _ from hblock)
    have hsize : (toBe32 1 ++ name.octets ++ [0]).length = 4 + name.octets.length + 1 := by
      simp only [List.length_append, length_toBe32, List.length_singleton]
    rw [DeviceTree.length_pad4, hsize] at hnext
    have hstart :
        toBe32 1 ++ (name.octets ++ 0 ::
          (List.replicate (align4 (toBe32 1 ++ name.octets ++ [0]).length -
        (toBe32 1 ++ name.octets ++ [0]).length) 0 ++ block ps)) <+: fit.drop pos := by
      simpa [block, Piece.octets, pad4] using hblock
    have hname : cstr (fit.drop (pos + 4)) = name.octets := by
      obtain ⟨rest, hrest⟩ := start_append hstart
      rw [length_toBe32] at hrest
      rw [← hrest, List.append_assoc, List.cons_append]
      exact cstr_name _ _
    have hto : nextMultipleOf4 (pos + 4 + name.octets.length + 1) = pos + align4
        (4 + name.octets.length + 1) := by
      rw [← nextMultipleOf4_add hpos, show pos + (4 + name.octets.length + 1) = pos + 4 +
        name.octets.length + 1 by omega]
    rw [loop_beginNode (word_of_start hstart) hname, hto]
    refine ih hin _ props ?_ hnext
    unfold align4
    omega
  | @endNode ts ps _ ih =>
    intro pos path props hpos hblock
    have hin : Token.finish ∈ ts := by simpa using hend
    have hblock' : toBe32 2 ++ block ps <+: fit.drop pos := hblock
    rw [loop_endNode (word_of_start hblock')]
    exact ih hin _ props (by omega) (start_append hblock')
  | @prop ts ps name off value hname hvalue _ ih =>
    intro pos path props hpos hblock
    have hin : Token.finish ∈ ts := by simpa using hend
    have hnext := start_append
      (show pad4 (toBe32 3 ++ toBe32 (UInt32.ofNat value.length) ++ toBe32 off ++ value) ++
        block ps <+: _ from hblock)
    have hsize : (toBe32 3 ++ toBe32 (UInt32.ofNat value.length) ++ toBe32 off ++ value).length =
        12 + value.length := by
      simp only [List.length_append, length_toBe32]
    rw [DeviceTree.length_pad4, hsize] at hnext
    have hstart :
        toBe32 3 ++ (toBe32 (UInt32.ofNat value.length) ++ (toBe32 off ++ (value ++ (List.replicate
        (align4 (12 + value.length) - (12 + value.length)) 0 ++ block ps)))) <+: fit.drop pos := by
      rw [← hsize]
      simpa only [block, Piece.octets, pad4, List.flatMap_cons, List.append_assoc] using hblock
    -- the words behind the token, and the value behind them
    have hlen := start_append hstart
    have hoff := start_append hlen
    have hvalueAt := start_append hoff
    simp only [length_toBe32, Nat.add_assoc, Nat.reduceAdd] at hlen hoff hvalueAt
    have hget : get fit (pos + 12) value.length = some value := by
      have hin := le_of_start
          ((List.prefix_append_right_inj (toBe32 off)).mpr
            (List.prefix_append value _) |>.trans hoff)
        (by simp [toBe32])
      simp only [List.length_append, length_toBe32] at hin
      rw [get, if_pos (by omega)]
      exact congrArg some (slice_of_start ((List.prefix_append value _).trans hvalueAt))
    have hlenWord := header_of_start hlen
    rw [UInt32.toNat_ofNat_of_lt' hvalue] at hlenWord
    have hto : nextMultipleOf4 (pos + 12 + value.length) = pos + align4 (12 + value.length) := by
      rw [← nextMultipleOf4_add hpos, Nat.add_assoc]
    rw [loop_prop (word_of_start hstart) hlenWord (header_of_start hoff) hget,
      cstr_of_nameAt hname, hto]
    refine ih hin path _ ?_ hnext
    unfold align4
    omega
  | @finish ts ps _ ih =>
    intro pos path props hpos hblock
    have hblock' : toBe32 9 ++ block ps <+: fit.drop pos := hblock
    rw [loop_finish (word_of_start hblock')]
    rfl

/-! ## The tokens of a tree -/

/-- A path on the stack: the root's empty name, and the names below it. -/
def stack (names : List NodeName) : List Bytes := [] :: names.map (·.octets)

/-- An entry as the reader keeps it. -/
def keyed (e : List NodeName × Property) : Bytes × Bytes × Bytes :=
  (pathOf e.1, e.2.name.octets, e.2.value)

theorem intercalate_slash (a : Bytes) (ms : List Bytes) :
    [47].intercalate (a :: ms) = a ++ ms.flatMap fun m => 47 :: m := by
  induction ms generalizing a with
  | nil => simp
  | cons m ms ih =>
    rw [List.intercalate_cons_cons, ih, List.append_assoc, List.flatMap_cons]
    simp

/-- The path that the loop keeps is the path of the node. -/
theorem nodePath_stack (names : List NodeName) : nodePath (stack names) = pathOf names := by
  cases names with
  | nil => rfl
  | cons n ns =>
    have hlong : ¬ (stack (n :: ns)).length ≤ 1 := by simp [stack]
    rw [nodePath, if_neg hlong, stack, intercalate_slash, List.flatMap_map]
    rfl

/-- The properties of one node. -/
theorem walk_props (props : List Property) (names : List NodeName) (ts : List Token)
    (acc : List (Bytes × Bytes × Bytes)) :
    walk (DeviceTree.propTokens props ++ ts) (stack names) acc =
      walk ts (stack names) (acc ++ (props.map fun p => (names, p)).map keyed) := by
  induction props generalizing acc with
  | nil => simp [DeviceTree.propTokens]
  | cons p props ih =>
    show walk (DeviceTree.propTokens props ++ ts) (stack names)
        (acc ++ [(nodePath (stack names), _, _)]) = _
    rw [ih, nodePath_stack, List.append_assoc]
    rfl

theorem stack_concat (names : List NodeName) (n : NodeName) :
    stack names ++ [n.octets] = stack (names ++ [n]) := by
  simp [stack]

/-- **The tokens of nodes give their properties**, each under its node's path, and
    leave the stack as it was. -/
theorem walk_forest (f : Forest) :
    ∀ (names : List NodeName) (ts : List Token) (acc : List (Bytes × Bytes × Bytes)),
    walk (f.tokens ++ ts) (stack names) acc = walk ts (stack names)
      (acc ++ (f.entries names).map keyed) := by
  induction f with
  | nil =>
    intro names ts acc
    simp [Forest.tokens, Forest.entries]
  | cons name props children siblings ihc ihs =>
    intro names ts acc
    have htokens : (Forest.cons name props children siblings).tokens ++ ts =
        .beginNode name.toName ::
          (DeviceTree.propTokens props ++
            (children.tokens ++ (.endNode :: (siblings.tokens ++ ts)))) := by
      simp [Forest.tokens]
    rw [htokens]
    show walk (DeviceTree.propTokens props ++ _) (stack names ++ [name.octets]) acc = _
    rw [stack_concat, walk_props, ihc]
    show walk (siblings.tokens ++ ts) (stack (names ++ [name])).dropLast _ = _
    rw [← stack_concat, List.dropLast_concat, ihs]
    simp [Forest.entries]

/-- The walk over a tree's tokens collects its entries, in order. -/
theorem walk_tree (t : DeviceTree.Tree) : walk t.tokens [] [] = t.entries.map keyed := by
  show walk (DeviceTree.propTokens t.props ++ t.children.tokens ++ [.endNode, .finish])
      (stack []) [] = _
  rw [List.append_assoc, walk_props, walk_forest]
  simp [walk, DeviceTree.Tree.entries]

/-! ## Reading a placed tree -/

/-- **The reader recovers the tree**: its size, and its properties in document order
    under their nodes' paths. -/
theorem parse_placed {t : DeviceTree.Tree} {fit : Bytes} (p : Placement t fit) :
    Tree.parse fit = .ok ⟨p.totalSize.toNat, t.entries.map keyed⟩ := by
  have hmagic :
      toBe32 FDT_MAGIC ++
        (toBe32 p.totalSize ++ (toBe32 p.structOff ++ (toBe32 p.stringsOff ++ []))) <+:
          fit.drop 0 := by
    simpa [FDT_MAGIC, DeviceTree.magic] using p.header
  have htotal := start_append hmagic
  have hstruct := start_append htotal
  have hstrings := start_append hstruct
  simp only [length_toBe32, Nat.zero_add, Nat.reduceAdd] at htotal hstruct hstrings
  have hend : p.stringsOff.toNat ≤ min p.totalSize.toNat fit.length := by
    have := p.inTree
    have := p.inFile
    omega
  -- what the reader takes for the strings block goes on to the end of the tree
  obtain ⟨more, hmore⟩ :
      ∃ more, slice fit p.stringsOff.toNat (min p.totalSize.toNat fit.length - p.stringsOff.toNat) =
      p.strings ++ more := by
    obtain ⟨rest, hrest⟩ := p.stringsBlock
    have hlen : p.strings.length ≤ min p.totalSize.toNat fit.length - p.stringsOff.toNat := by
      have := p.inTree
      have := p.inFile
      omega
    refine ⟨rest.take (min p.totalSize.toNat fit.length - p.stringsOff.toNat - p.strings.length),
      ?_⟩
    rw [slice, ← hrest, List.take_append, List.take_of_length_le hlen]
  have hloop :=
    loop_flat more p.flat (by simp [DeviceTree.Tree.tokens]) [] [] p.aligned p.structBlock
  rw [Tree.parse, if_neg (by simp [word_of_start hmagic]), header_of_start htotal,
    header_of_start hstruct, header_of_start hstrings]
  simp only [bind, Except.bind]
  rw [if_pos hend, hmore, hloop, walk_tree]

/-! ## Children -/

/-- The path of a node below the root is its names, each behind a `/`. -/
theorem pathOf_eq_intercalate {names : List NodeName} (h : names ≠ []) :
    pathOf names = [47].intercalate ([] :: names.map (·.octets)) := by
  obtain ⟨n, ns, rfl⟩ := List.exists_cons_of_ne_nil h
  rw [intercalate_slash, List.flatMap_map]
  rfl

/-- Names without `/` are told from the path they make. -/
theorem names_of_intercalate {ms ns : List Bytes} (hms : ∀ m ∈ ms, 47 ∉ m) (hns : ∀ n ∈ ns, 47 ∉ n)
    (h : [47].intercalate ([] :: ms) = [47].intercalate (([] : Bytes) :: ns)) : ms = ns := by
  have hsplit : ∀ {ks : List Bytes}, (∀ k ∈ ks, 47 ∉ k) →
      ([47].intercalate ([] :: ks)).splitOn 47 = [] :: ks := by
    intro ks hks
    refine List.splitOn_intercalate 47 ?_ (by simp)
    intro k hk
    rcases List.mem_cons.mp hk with rfl | hk
    · exact List.not_mem_nil
    · exact hks k hk
  have := hsplit hms
  rw [h, hsplit hns] at this
  exact (List.cons.inj this).2.symm

/-- A node's name has no slash. -/
theorem noSlash_of_names (names : List NodeName) : ∀ m ∈ names.map (·.octets), 47 ∉ m := by
  intro m hm
  obtain ⟨n, -, rfl⟩ := List.mem_map.mp hm
  exact n.noSlash

theorem octets_inj {m n : NodeName} (h : m.octets = n.octets) : m = n := by
  obtain ⟨⟨a, _, _⟩, _⟩ := m
  obtain ⟨⟨b, _, _⟩, _⟩ := n
  obtain rfl : a = b := h
  rfl

/-- So a path tells the names of its nodes. -/
theorem names_inj {ms ns : List NodeName} (h : ms.map (·.octets) = ns.map (·.octets)) : ms = ns :=
  List.map_injective_iff.mpr (fun _ _ => octets_inj) h

/-- A child's path is its parent's with one name more. -/
theorem isChild_iff {node c : Bytes} : Tree.isChild node c = true ↔ ∃ x, 47 ∉ x ∧
    c = node ++ 47 :: x := by
  have hstrip : ∀ (p s t : Bytes), Tree.stripPre p s = some t ↔ s = p ++ t := by
    intro p s t
    unfold Tree.stripPre
    constructor
    · intro h
      split at h
      · rename_i hp
        obtain ⟨u, rfl⟩ := List.isPrefixOf_iff_prefix.mp hp
        simpa using h
      · cases h
    · rintro rfl
      simp
  unfold Tree.isChild
  constructor
  · intro h
    split at h
    · rename_i x hx
      obtain ⟨s, hs, hsx⟩ := Option.bind_eq_some_iff.mp hx
      rw [hstrip] at hs hsx
      exact ⟨x, by simpa using h, by rw [hs, hsx]; rfl⟩
    · cases h
  · rintro ⟨x, hx, rfl⟩
    have hbind : (Tree.stripPre node (node ++ 47 :: x)).bind (Tree.stripPre [47]) = some x := by
      rw [(hstrip _ _ (47 :: x)).mpr rfl, Option.bind_some, hstrip]
      rfl
    rw [hbind]
    simpa using hx

/-- What continues the path of a node below the root is the path of a child. -/
theorem isChild_of_ne {names ns : List NodeName} (h : names ≠ []) :
    Tree.isChild (pathOf names) (pathOf ns) = true ↔ ∃ n, ns = names ++ [n] := by
  rw [isChild_iff]
  constructor
  · rintro ⟨x, hx, hpath⟩
    have hnames := pathOf_eq_intercalate h
    have hcont : pathOf names ++ 47 :: x = [47].intercalate
        ([] :: (names.map (·.octets) ++ [x])) := by
      rw [hnames, intercalate_slash, intercalate_slash]
      simp
    cases ns with
    | nil =>
      have hlen := congrArg List.length hpath
      obtain ⟨n, rest, rfl⟩ := List.exists_cons_of_ne_nil h
      simp [pathOf] at hlen
    | cons m ms =>
      rw [hcont, pathOf_eq_intercalate (by simp)] at hpath
      have hall : ∀ y ∈ names.map (·.octets) ++ [x], 47 ∉ y := by
        intro y hy
        rcases List.mem_append.mp hy with hy | hy
        · exact noSlash_of_names names y hy
        · rw [List.mem_singleton.mp hy]
          exact hx
      have hmap := names_of_intercalate (noSlash_of_names (m :: ms)) hall hpath
      obtain ⟨front, last, hsplit, hfront, hlast⟩ := List.map_eq_append_iff.mp hmap
      obtain ⟨n, rfl, -⟩ := List.map_eq_singleton_iff.mp hlast
      exact ⟨n, by rw [hsplit, names_inj hfront]⟩
  · rintro ⟨n, rfl⟩
    exact ⟨n.octets, n.noSlash, DeviceTree.pathOf_concat h n⟩

/-- What continues the root's path is the path of a node below a nameless child of the root. -/
theorem isChild_root {ns : List NodeName} :
    Tree.isChild (pathOf []) (pathOf ns) = true ↔ ∃ m n, m.octets = [] ∧ ns = [m, n] := by
  rw [isChild_iff]
  constructor
  · rintro ⟨x, hx, hpath⟩
    cases ns with
    | nil => cases hpath
    | cons k ks =>
      have hcont : pathOf ([] : List NodeName) ++ 47 :: x = [47].intercalate ([] :: [[], x]) := by
        rw [intercalate_slash]
        simp [pathOf]
      rw [hcont, pathOf_eq_intercalate (by simp)] at hpath
      have hmap := names_of_intercalate (noSlash_of_names (k :: ks)) (by simpa using hx) hpath
      obtain ⟨m, rest, hns, hm, hrest⟩ := List.map_eq_cons_iff.mp hmap
      obtain ⟨n, rfl, -⟩ := List.map_eq_singleton_iff.mp hrest
      exact ⟨m, n, hm, hns⟩
  · rintro ⟨m, n, hm, rfl⟩
    exact ⟨n.octets, n.noSlash, by simp [pathOf, hm]⟩

/-- A list of the paths that pass a test, each once. -/
theorem mem_children {t : Tree} {node c : Bytes} :
    c ∈ t.children node ↔ Tree.isChild node c = true ∧ ∃ e ∈ t.props, e.1 = c := by
  have hfold : ∀ (props : List (Bytes × Bytes × Bytes)) (seen : List Bytes),
      c ∈ props.foldl
        (fun seen p => if Tree.isChild node p.1 ∧ p.1 ∉ seen then seen ++ [p.1] else seen) seen ↔
        c ∈ seen ∨ Tree.isChild node c = true ∧ ∃ e ∈ props, e.1 = c := by
    intro props
    -- The list that is gathered is arbitrary, so that the step can be taken from its front.
    induction props with
    | nil =>
      intro seen
      simp
    | cons e props ih =>
      intro seen
      rw [List.foldl_cons, ih]
      split
      · rename_i hnew
        constructor
        · rintro (h | ⟨hc, e', he', rfl⟩)
          · rcases List.mem_append.mp h with h | h
            · exact Or.inl h
            · obtain rfl := List.mem_singleton.mp h
              exact Or.inr ⟨hnew.1, e, List.mem_cons_self, rfl⟩
          · exact Or.inr ⟨hc, e', List.mem_cons_of_mem _ he', rfl⟩
        · rintro (h | ⟨hc, e', he', rfl⟩)
          · exact Or.inl (List.mem_append_left _ h)
          · rcases List.mem_cons.mp he' with rfl | he'
            · exact Or.inl (List.mem_append_right _ (List.mem_singleton.mpr rfl))
            · exact Or.inr ⟨hc, e', he', rfl⟩
      · rename_i hold
        constructor
        · rintro (h | ⟨hc, e', he', rfl⟩)
          · exact Or.inl h
          · exact Or.inr ⟨hc, e', List.mem_cons_of_mem _ he', rfl⟩
        · rintro (h | ⟨hc, e', he', rfl⟩)
          · exact Or.inl h
          · rcases List.mem_cons.mp he' with rfl | he'
            · exact Or.inl (by_contra fun hn => hold ⟨hc, hn⟩)
            · exact Or.inr ⟨hc, e', he', rfl⟩
  exact (hfold t.props []).trans (by simp)

/-- No child is listed twice. -/
theorem nodup_children (t : Tree) (node : Bytes) : (t.children node).Nodup := by
  have hfold : ∀ (props : List (Bytes × Bytes × Bytes)) (seen : List Bytes), seen.Nodup →
      (props.foldl
        (fun seen p => if Tree.isChild node p.1 ∧ p.1 ∉ seen then seen ++ [p.1] else seen)
        seen).Nodup := by
    intro props
    induction props with
    | nil =>
      intro seen h
      exact h
    | cons e props ih =>
      intro seen h
      rw [List.foldl_cons]
      apply ih
      split
      · rename_i hnew
        exact List.Nodup.append h (List.nodup_singleton _) (by simpa using hnew.2)
      · exact h
  exact hfold t.props [] List.nodup_nil

/-- The list of a node's children that is asked for: each child with a property, once. -/
def ListsChildren (t : DeviceTree.Tree) (names : List NodeName) (paths : List Bytes) : Prop :=
  paths.Nodup ∧ ∀ c, c ∈ paths ↔ ∃ n p, (names ++ [n], p) ∈ t.entries ∧ c = pathOf (names ++ [n])

/-- Below the root, the children are listed. -/
theorem children_of_ne {t : DeviceTree.Tree} {size : Nat} {names : List NodeName} (h : names ≠ []) :
    ListsChildren t names ((Tree.mk size (t.entries.map keyed)).children (pathOf names)) := by
  refine ⟨nodup_children _ _, fun c => ?_⟩
  rw [mem_children]
  constructor
  · rintro ⟨hc, e, he, rfl⟩
    obtain ⟨⟨ns, p⟩, hmem, rfl⟩ := List.mem_map.mp he
    obtain ⟨n, rfl⟩ := (isChild_of_ne h).mp hc
    exact ⟨n, p, hmem, rfl⟩
  · rintro ⟨n, p, hmem, rfl⟩
    exact ⟨(isChild_of_ne h).mpr ⟨n, rfl⟩, keyed (names ++ [n], p), List.mem_map_of_mem hmem, rfl⟩

/-- For the root, the list is right only when there is nothing to list and nothing is listed. -/
theorem children_root_iff {t : DeviceTree.Tree} {size : Nat} :
    ListsChildren t [] ((Tree.mk size (t.entries.map keyed)).children (pathOf [])) ↔
      (∀ n p, ([n], p) ∉ t.entries) ∧ ∀ m n p, m.octets = [] → ([m, n], p) ∉ t.entries := by
  constructor
  · rintro ⟨-, hlist⟩
    constructor
    · intro n p hmem
      have hc := (mem_children.mp ((hlist (pathOf [n])).mpr ⟨n, p, hmem, rfl⟩)).1
      obtain ⟨m, n', -, heq⟩ := isChild_root.mp hc
      cases heq
    · intro m n p hm hmem
      have hc := (hlist (pathOf [m, n])).mp
        (mem_children.mpr
          ⟨isChild_root.mpr ⟨m, n, hm, rfl⟩, keyed ([m, n], p), List.mem_map_of_mem hmem, rfl⟩)
      obtain ⟨k, q, -, heq⟩ := hc
      rw [pathOf_eq_intercalate (by simp), pathOf_eq_intercalate (by simp)] at heq
      have hnames := names_inj (names_of_intercalate (noSlash_of_names _) (noSlash_of_names _) heq)
      cases hnames
  · rintro ⟨hnone, hbelow⟩
    refine ⟨nodup_children _ _, fun c => ?_⟩
    constructor
    · intro h
      obtain ⟨hc, e, he, rfl⟩ := mem_children.mp h
      obtain ⟨⟨ns, p⟩, hmem, rfl⟩ := List.mem_map.mp he
      obtain ⟨m, n, hm, rfl⟩ := isChild_root.mp hc
      exact absurd hmem (hbelow m n p hm)
    · rintro ⟨n, p, hmem, -⟩
      exact absurd hmem (hnone n p)

/-- **A placed tree is read back** — its size, its properties in document order under their
    nodes' paths, the first property of a name, a node's children that have one — if and
    only if the node asked for is not the root, or the root has no such children and neither
    has a nameless child of it. -/
theorem tree_read_back (t : DeviceTree.Tree) (fit : Bytes) (p : Placement t fit)
    (names : List NodeName) :
    (∃ tree, Tree.parse fit = .ok tree ∧ tree.totalSize = p.totalSize.toNat ∧
      tree.props = t.entries.map keyed ∧
        (∀ node name, tree.prop node name =
          (t.entries.find? fun e => pathOf e.1 = node ∧ e.2.name.octets = name).map (·.2.value)) ∧
        ListsChildren t names (tree.children (pathOf names))) ↔
      (names = [] → (∀ n q, ([n], q) ∉ t.entries) ∧ ∀ m n q, m.octets = [] →
        ([m, n], q) ∉ t.entries) := by
  have hparse := parse_placed p
  constructor
  · rintro ⟨tree, htree, -, -, -, hlist⟩ rfl
    cases hparse.symm.trans htree
    exact children_root_iff.mp hlist
  · intro h
    refine ⟨_, hparse, rfl, rfl, fun node name => ?_, ?_⟩
    · rw [Tree.prop, List.find?_map, Option.map_map]
      rfl
    · by_cases hn : names = []
      · subst hn
        exact children_root_iff.mpr (h rfl)
      · exact children_of_ne hn

/-! ### The root's children -/

/-- A tree with one node, written with a token that does nothing. -/
def images : NodeName := ⟨⟨bytes "images", by decide, by decide⟩, by decide⟩

def dataSize : Property := ⟨⟨bytes "data-size", by decide, by decide⟩, [0, 0, 0, 7]⟩

/-- `/images`, with one property. -/
def imagesTree : DeviceTree.Tree := ⟨[], .cons images [dataSize] .nil .nil⟩

def imagesPieces : List Piece :=
  [.beginNode .empty, .beginNode images.toName, .nop, .prop 0 [0, 0, 0, 7], .endNode, .endNode,
    .finish]

/-- A header, the structure block, the strings block, and more. -/
def imagesFile : Bytes :=
  toBe32 DeviceTree.magic ++ toBe32 78 ++ toBe32 16 ++ toBe32 68 ++ block imagesPieces ++
    bytes "data-size" ++ [0, 1, 2, 3]

def imagesPlacement : Placement imagesTree imagesFile where
  totalSize := 78
  structOff := 16
  stringsOff := 68
  pieces := imagesPieces
  strings := bytes "data-size" ++ [0]
  header := ⟨imagesFile.drop 16, by decide⟩
  aligned := by decide
  flat := .beginNode
    _ (.beginNode _ (.nop (.prop ⟨[], by decide⟩ (by decide) (.endNode (.endNode (.finish .nil))))))
  structBlock := ⟨imagesFile.drop 68, by decide⟩
  stringsBlock := ⟨[1, 2, 3], by decide⟩
  inFile := by decide
  inTree := by decide

/-- `children "/"` is empty where the root has the child `/images`. -/
theorem root_children_not_listed :
    ¬ ∀ (t : DeviceTree.Tree) (fit : Bytes) (p : Placement t fit) (names : List NodeName),
        ∃ tree, Tree.parse fit = .ok tree ∧ tree.totalSize = p.totalSize.toNat ∧
        tree.props = t.entries.map keyed ∧
          (∀ node name, tree.prop node name =
            (t.entries.find? fun e => pathOf e.1 = node ∧ e.2.name.octets = name).map (·.2.value)) ∧
          ListsChildren t names (tree.children (pathOf names)) := by
  intro h
  obtain ⟨tree, -, -, hprops, -, -, hlist⟩ := h imagesTree imagesFile imagesPlacement []
  have hmem := (hlist (pathOf [images])).mpr ⟨images, dataSize, List.mem_singleton.mpr rfl, rfl⟩
  have hnone : tree.children (pathOf []) = [] := by
    unfold Tree.children
    rw [hprops]
    decide
  rw [hnone] at hmem
  cases hmem

end CdjEmu.Fit
