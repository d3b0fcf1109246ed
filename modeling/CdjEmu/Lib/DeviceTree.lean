/-
  FLATTENED DEVICE TREES — a tree of named nodes with properties, and how a file lays it out.

  1. **Trees** — a node has ordered properties and ordered children; the root has an empty name.
     Names are texts without NUL, node names without `/`, and the types say so.  `Forest` is a
     node's children: the first child, its own children, and the siblings after it.
  2. **Tokens** — a tree is written as a sequence of tokens, each node between its begin and its
     end.
  3. **Octets** — a token is a big-endian word and what belongs to it, padded to a multiple of four.
     A property's name stands in a block of strings, at the offset its token gives; tokens that mean
     nothing may stand before any other.
  4. **Placement** — the header gives the places of the two blocks, anywhere in a file.

  `entries` is what there is to read: the properties in document order, each with the names that
  lead to its node.
-/
import CdjEmu.Lib.Buffer

namespace CdjEmu.DeviceTree

open Text

/-! ## Trees -/

/-- A text without NUL. -/
structure Name where
  octets : Bytes
  valid : Valid octets
  noNul : 0 ∉ octets

/-- The name of a node. -/
structure NodeName extends Name where
  noSlash : 47 ∉ octets

/-- The root's name. -/
def Name.empty : Name := ⟨[], valid_nil, List.not_mem_nil⟩

structure Property where
  name : Name
  value : Bytes

/-- Nodes that follow one another. -/
inductive Forest where
  | nil
  | cons (name : NodeName) (props : List Property) (children siblings : Forest)

structure Tree where
  props : List Property
  children : Forest

/-- The properties of the nodes, each with the names that lead to its node from `above`. -/
def Forest.entries (above : List NodeName) : Forest → List (List NodeName × Property)
  | .nil => []
  | .cons name props children siblings =>
    props.map (fun p => (above ++ [name], p)) ++ children.entries (above ++ [name]) ++
      siblings.entries above

/-- The properties of the tree in document order, each with the names of its node and of the nodes
    above it below the root. -/
def Tree.entries (t : Tree) : List (List NodeName × Property) :=
  t.props.map (fun p => ([], p)) ++ t.children.entries []

/-- The path of a node: `/` for the root, and else each name behind a `/`. -/
def pathOf : List NodeName → Bytes
  | [] => [47]
  | n :: ns => (n :: ns).flatMap fun m => 47 :: m.octets

/-! ## Tokens -/

inductive Token where
  | beginNode (name : Name)
  | endNode
  | prop (name : Name) (value : Bytes)
  | finish

def propTokens (props : List Property) : List Token := props.map fun p => .prop p.name p.value

def Forest.tokens : Forest → List Token
  | .nil => []
  | .cons name props children siblings =>
    .beginNode name.toName :: (propTokens props ++ children.tokens ++ .endNode :: siblings.tokens)

def Tree.tokens (t : Tree) : List Token :=
  .beginNode .empty :: (propTokens t.props ++ t.children.tokens ++ [.endNode, .finish])

/-! ## Octets -/

/-- The next multiple of four. -/
def align4 (n : Nat) : Nat := (n + 3) / 4 * 4

/-- `b` filled up with zeros. -/
def pad4 (b : Bytes) : Bytes := b ++ List.replicate (align4 b.length - b.length) 0

/-- A token as it is written: a property's name is an offset. -/
inductive Piece where
  | beginNode (name : Name)
  | endNode
  | prop (nameOff : UInt32) (value : Bytes)
  | nop
  | finish

def Piece.octets : Piece → Bytes
  | .beginNode name => pad4 (toBe32 1 ++ name.octets ++ [0])
  | .endNode => toBe32 2
  | .prop nameOff value =>
      pad4 (toBe32 3 ++ toBe32 (UInt32.ofNat value.length) ++ toBe32 nameOff ++ value)
  | .nop => toBe32 4
  | .finish => toBe32 9

/-- The name stands in the block of strings, with the NUL that ends it. -/
def NameAt (strings : Bytes) (off : UInt32) (name : Name) : Prop :=
  name.octets ++ [0] <+: strings.drop off.toNat

/-- `Flat strings ts ps` — the tokens `ts` are written as `ps`. -/
inductive Flat (strings : Bytes) : List Token → List Piece → Prop
  | nil : Flat strings [] []
  | nop {ts ps} : Flat strings ts ps → Flat strings ts (.nop :: ps)
  | beginNode {ts ps} (name : Name) : Flat strings ts ps →
      Flat strings (.beginNode name :: ts) (.beginNode name :: ps)
  | endNode {ts ps} : Flat strings ts ps → Flat strings (.endNode :: ts) (.endNode :: ps)
  | prop {ts ps} {name : Name} {off : UInt32} {value : Bytes} :
      NameAt strings off name → value.length < 2 ^ 32 →
      Flat strings ts ps → Flat strings (.prop name value :: ts) (.prop off value :: ps)
  | finish {ts ps} : Flat strings ts ps → Flat strings (.finish :: ts) (.finish :: ps)

/-- The structure block. -/
def block (ps : List Piece) : Bytes := ps.flatMap Piece.octets

def magic : UInt32 := 0xd00dfeed

/-! ## Placement -/

/-- A file that holds the tree: its header, and the two blocks where the header says. -/
structure Placement (t : Tree) (file : Bytes) where
  totalSize : UInt32
  structOff : UInt32
  stringsOff : UInt32
  pieces : List Piece
  strings : Bytes
  header : toBe32 magic ++ toBe32 totalSize ++ toBe32 structOff ++ toBe32 stringsOff <+: file
  aligned : structOff.toNat % 4 = 0
  flat : Flat strings t.tokens pieces
  structBlock : block pieces <+: file.drop structOff.toNat
  stringsBlock : strings <+: file.drop stringsOff.toNat
  inFile : stringsOff.toNat + strings.length ≤ file.length
  inTree : stringsOff.toNat + strings.length ≤ totalSize.toNat

/-! ## Laws -/

theorem length_pad4 (b : Bytes) : (pad4 b).length = align4 b.length := by
  rw [pad4, List.length_append, List.length_replicate]
  unfold align4
  omega

theorem align4_of_aligned {pos : Nat} (h : pos % 4 = 0) (n : Nat) :
    align4 (pos + n) = pos + align4 n := by
  unfold align4
  omega

/-! ### Paths -/

/-- A child's path. -/
theorem pathOf_concat {ns : List NodeName} (h : ns ≠ []) (n : NodeName) :
    pathOf (ns ++ [n]) = pathOf ns ++ 47 :: n.octets := by
  obtain ⟨m, ms, rfl⟩ := List.exists_cons_of_ne_nil h
  simp [pathOf]

end CdjEmu.DeviceTree
