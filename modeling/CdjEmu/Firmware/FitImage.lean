/-
  THE PAYLOADS OF A FIT — `image`, on any bytes.

  A payload stands in its node or elsewhere in the file, and a hash node below has its SHA-256.  The
  digest is a parameter.  `image` is stated over the reader of `Firmware/Fit`; the reader is then
  written again with every sum and every range checked, in a loop with fuel, and none of the checks
  fails (`imageAt_eq`).

  What `image` hands out is a part of the file, because every value of the tree is one
  (`values_inside`), and its digest is the value that a path below the node's has.  It is the path,
  not a node: a tree may have two children of one name, and then the algorithm of the one and the
  value of the other pass for one hash node.

  1. **Program** — `image` with `data`, `want` and the rule which node is a hash; then the checked
     versions of all functions between the file and the answer, with `none` where the source would
     stop.

  2. **Specification** — `Source`: the payload is the value of the node's own property, or stands at
     the place that `data-position` or `data-offset` gives.  `Recorded`: an algorithm and a value
     below one hash path of the node, the value being the digest of the payload.

  3. **The crux (`imageAt_eq`)** — a position in the tree is at most the length of the file and a
     few octets, and a number that was read has 32 bits, so no sum of the reader comes near 64.

  4. **Bridge** — the checked reader is the plain one, and what the plain one hands out is traced to
     the properties it was read from.
-/
import CdjEmu.Firmware.Fit
import CdjEmu.Lib.Checked
import CdjEmu.Lib.Split

namespace CdjEmu.Fit

open Text Checked

open DeviceTree (Forest NodeName Property Piece Placement block)

section

variable (sha256 : Bytes → Bytes)

/-! ## The payload -/

/-- The error that names a property which is not there. -/
def missing (node : Bytes) (prop : String) : ExtractError :=
  .fileNotFound (node ++ bytes " has no " ++ bytes prop)

/-- `/images/<name>`. -/
def imageNode (name : Bytes) : Bytes := bytes "/images/" ++ name

/-- A value that is one word. -/
def number (v : Bytes) : Option Nat := if v.length = 4 then some (be32 v 0).toNat else none

/-- The value of a word-sized property. -/
def Tree.number (t : Tree) (node : Bytes) (name : String) : Option Nat :=
  (t.prop node (bytes name)).bind Fit.number

/-- Where data outside the tree starts: `data-position` is from the start of the file, `data-offset`
    from the end of the tree. -/
def Tree.dataStart (t : Tree) (node : Bytes) : Option Nat :=
  match t.prop node (bytes "data-position"), t.prop node (bytes "data-offset") with
  | some p, _ => Fit.number p
  | none, some o => (Fit.number o).map fun o => nextMultipleOf4 t.totalSize + o
  | none, none => none

/-- `data`: inside the tree, or behind it at the place that the node gives. -/
def Tree.data (t : Tree) (fit node : Bytes) : Except ExtractError Bytes :=
  match t.prop node (bytes "data") with
  | some inline => .ok inline
  | none =>
    match t.number node "data-size" with
    | none => .error (missing node "data-size")
    | some size =>
      match t.dataStart node with
      | none => .error (missing node "data-position")
      | some start =>
        match get fit start size with
        | none => .error (.badIso "FIT image data runs past the end of the file")
        | some data => .ok data

/-- `hash` and `hash-N`. -/
def isHashName (n : Bytes) : Bool := n == bytes "hash" || (bytes "hash-").isPrefixOf n

/-- The last component of a path. -/
def lastName (path : Bytes) : Option Bytes := (path.splitOn 47).getLast?

/-- The name of a node is that of a hash. -/
def isHashNode (path : Bytes) : Bool :=
  match lastName path with
  | some n => isHashName n
  | none => false

/-- The digest that is recorded for a node: the value below the first hash path with one. -/
def Tree.want (t : Tree) (node : Bytes) : Option Bytes :=
  (((t.children node).filter isHashNode).filter fun child =>
    t.prop child (bytes "algo") = some (bytes "sha256" ++ [0])).findSome? fun child =>
      t.prop child (bytes "value")

/-- The payload of `/images/<name>`, checked against the SHA-256 that a hash node records. -/
def image (fit name : Bytes) : Except ExtractError Bytes := do
  let tree ← Tree.parse fit
  let data ← tree.data fit (imageNode name)
  match tree.want (imageNode name) with
  | none => .error (missing (imageNode name) "sha256 hash node")
  | some want =>
    if sha256 data ≠ want then .error (.badIso "FIT image does not match its sha256")
    else .ok data

/-! ## The reader, checked -/

/-- `word`. -/
def wordAt (fit : Bytes) (pos : Nat) : Option (Option UInt32) := do
  let stop ← add pos 4
  pure (if stop ≤ fit.length then some (be32 fit pos) else none)

/-- `header`. -/
def headerAt (fit : Bytes) (pos : Nat) : Steps ExtractError Nat := do
  match ← wordAt fit pos with
  | some w => pure w.toNat
  | none => throw (.badIso "the FDT header is truncated")

/-- `fit.get(at..at + len)`. -/
def getAt (fit : Bytes) (pos len : Nat) : Option (Option Bytes) := do
  let stop ← add pos len
  pure (if stop ≤ fit.length then some (slice fit pos len) else none)

/-- `cstr`. -/
def textAt (b : Bytes) : Option Bytes := do
  let text ← range b 0 (b.findIdx (· = 0))
  pure (if Valid text then text else [])

/-- `n.next_multiple_of(4)`. -/
def roundUp (n : Nat) : Option Nat := if n % 4 = 0 then some n else add n (4 - n % 4)

/-- The loop of `Tree::parse`, for at most so many tokens. -/
def loopAt (fit strings : Bytes) : Nat → Nat → List Bytes → List (Bytes × Bytes × Bytes) →
    Steps ExtractError (List (Bytes × Bytes × Bytes))
  | 0, _, _, _ => (none : Option (Except ExtractError (List (Bytes × Bytes × Bytes))))
  | fuel + 1, pos, path, props => do
    match ← wordAt fit pos with
    | none => throw (.badIso "FDT structure runs past the file")
    | some token =>
      let pos ← add pos 4
      if token = FDT_BEGIN_NODE then do
        let name ← textAt (fit.drop pos)
        let pos ← roundUp (← add (← add pos name.length) 1)
        loopAt fit strings fuel pos (path ++ [name]) props
      else if token = FDT_END_NODE then loopAt fit strings fuel pos path.dropLast props
      else if token = FDT_PROP then do
        let len ← headerAt fit pos
        let nameOff ← headerAt fit (← add pos 4)
        let pos ← add pos 8
        match ← getAt fit pos len with
        | none => throw (.badIso "FDT property runs past the file")
        | some value =>
          let name ← textAt (strings.drop nameOff)
          let pos ← roundUp (← add pos len)
          loopAt fit strings fuel pos path (props ++ [(nodePath path, name, value)])
      else if token = FDT_NOP then loopAt fit strings fuel pos path props
      else if token = FDT_END then pure props
      else throw (.badIso "the FDT has an unknown token")

/-- `Tree::parse`. -/
def Tree.parseAt (fit : Bytes) : Steps ExtractError Tree := do
  if (← wordAt fit 0) ≠ some FDT_MAGIC then throw (.badIso "not a flattened device tree")
  else do
    let totalSize ← headerAt fit 4
    let structOff ← headerAt fit 8
    let stringsOff ← headerAt fit 12
    let stringsEnd := min totalSize fit.length
    if stringsOff ≤ stringsEnd then do
      let strings ← range fit stringsOff stringsEnd
      let props ← loopAt fit strings (fit.length + 1) structOff [] []
      pure { totalSize, props }
    else throw (.badIso "the FDT strings block is out of range")

/-- The same sum, checked. -/
def Tree.dataStartAt (t : Tree) (node : Bytes) : Option (Option Nat) :=
  match t.prop node (bytes "data-position"), t.prop node (bytes "data-offset") with
  | some p, _ => pure (Fit.number p)
  | none, some o =>
    match Fit.number o with
    | none => pure none
    | some o => do
      let stop ← roundUp t.totalSize
      let start ← add stop o
      pure (some start)
  | none, none => pure none

/-- And the slice, checked. -/
def Tree.dataAt (t : Tree) (fit node : Bytes) : Steps ExtractError Bytes :=
  match t.prop node (bytes "data") with
  | some inline => pure inline
  | none =>
    match t.number node "data-size" with
    | none => throw (missing node "data-size")
    | some size => do
      match ← t.dataStartAt node with
      | none => throw (missing node "data-position")
      | some start =>
        match add start size with
        | none => throw (.badIso "FIT image data runs past the end of the file")
        | some stop =>
          if stop ≤ fit.length then pure (slice fit start size)
          else throw (.badIso "FIT image data runs past the end of the file")

/-- `image`. -/
def imageAt (fit name : Bytes) : Steps ExtractError Bytes := do
  let tree ← Tree.parseAt fit
  let data ← tree.dataAt fit (imageNode name)
  match tree.want (imageNode name) with
  | none => throw (missing (imageNode name) "sha256 hash node")
  | some want =>
    if sha256 data ≠ want then throw (.badIso "FIT image does not match its sha256")
    else pure data

/-! ### No check fails -/

omit sha256

/-- No slice of the reader leaves its buffer: each checked part is the plain one. -/
theorem textAt_eq (b : Bytes) : textAt b = some (cstr b) := by
  have htake : slice b 0 (b.findIdx (· = 0) - 0) = b.takeWhile (· ≠ 0) := by
    rw [List.takeWhile_eq_take_findIdx_not]
    simp [slice]
  rw [textAt, bind_of_eq (range_eq (Nat.zero_le _) List.findIdx_le_length), htake]
  rfl

/-- The sums stay below the word as long as the file does. -/
theorem roundUp_eq {n : Nat} (h : n + 4 < 2 ^ 64) : roundUp n = some (nextMultipleOf4 n) := by
  unfold roundUp nextMultipleOf4
  by_cases h4 : n % 4 = 0
  · rw [if_pos h4]
    congr 1
    omega
  · rw [if_neg h4, add_eq (by omega)]
    congr 1
    omega

section Reader

variable {fit : Bytes}

theorem wordAt_eq {pos : Nat} (h : pos + 4 < 2 ^ 64) : wordAt fit pos = some (word fit pos) := by
  rw [wordAt, bind_of_eq (add_eq h)]
  rfl

theorem headerAt_eq {pos : Nat} (h : pos + 4 < 2 ^ 64) :
    headerAt fit pos = some (header fit pos) := by
  unfold headerAt header
  rw [Steps.lift_bind (wordAt_eq h)]
  cases word fit pos with
  | none => rfl
  | some w => rfl

theorem getAt_eq {pos len : Nat} (h : pos + len < 2 ^ 64) :
    getAt fit pos len = some (get fit pos len) := by
  rw [getAt, bind_of_eq (add_eq h)]
  rfl

/-- A number of the header has 32 bits. -/
theorem header_lt {pos n : Nat} (h : header fit pos = .ok n) : n < 2 ^ 32 := by
  unfold header at h
  split at h
  · rename_i w _
    cases h
    exact w.toNat_lt
  · cases h

/-- A name is no longer than the octets it was read from. -/
theorem length_cstr_le (b : Bytes) : (cstr b).length ≤ b.length := by
  have htake := (List.takeWhile_sublist (fun c : UInt8 => decide (c ≠ 0)) (l := b)).length_le
  unfold cstr
  dsimp only
  split
  · exact htake
  · exact Nat.zero_le _

/-- A round of the loop, by the word it finds. -/
theorem loop_word (fit strings : Bytes) (pos : Nat) (path : List Bytes)
    (props : List (Bytes × Bytes × Bytes)) :
    loop fit strings pos path props =
      match word fit pos with
      | none => .error (.badIso "FDT structure runs past the file")
      | some token =>
        if token = FDT_BEGIN_NODE then
          loop fit strings (nextMultipleOf4 (pos + 4 + (cstr (fit.drop (pos + 4))).length + 1))
            (path ++ [cstr (fit.drop (pos + 4))]) props
        else if token = FDT_END_NODE then loop fit strings (pos + 4) path.dropLast props
        else if token = FDT_PROP then do
          let len ← header fit (pos + 4)
          let nameOff ← header fit (pos + 8)
          match get fit (pos + 12) len with
          | none => .error (.badIso "FDT property runs past the file")
          | some value =>
            loop fit strings (nextMultipleOf4 (pos + 12 + len)) path
              (props ++ [(nodePath path, cstr (strings.drop nameOff), value)])
        else if token = FDT_NOP then loop fit strings (pos + 4) path props
        else if token = FDT_END then .ok props
        else .error (.badIso "the FDT has an unknown token") := by
  rw [loop]
  split
  · rename_i h
    rw [h]
  · rename_i token h
    rw [h]
    dsimp only
    cases header fit (pos + 4) with
    | error e => rfl
    | ok len =>
      cases header fit (pos + 8) with
      | error e => rfl
      | ok nameOff => rfl

variable (hsmall : fit.length < 2 ^ 63)

include hsmall

/-- The walk: every position stays within the file and a few octets. -/
theorem loopAt_eq (strings : Bytes) (fuel : Nat) {pos : Nat} (path : List Bytes)
    (props : List (Bytes × Bytes × Bytes)) (hpos : pos < 2 ^ 63 + 2 ^ 33)
    (hfuel : fit.length - pos < fuel) :
    loopAt fit strings fuel pos path props = some (loop fit strings pos path props) := by
  induction fuel generalizing pos path props with
  | zero => omega
  | succ fuel ih =>
    -- Only the word at `pos` can be read there, so `pos + 4` is still within the file.
    rw [loopAt, loop_word, Steps.lift_bind (wordAt_eq (by omega))]
    cases hw : word fit pos with
    | none => rfl
    | some token =>
      have hin := length_of_word hw
      dsimp only
      rw [Steps.lift_bind (add_eq (by omega))]
      refine Steps.refines_ite (fun _ => ?_) fun _ => ?_
      -- A node begins: its name ends within the file, and the next position is rounded up.
      · have hname := length_cstr_le (fit.drop (pos + 4))
        rw [List.length_drop] at hname
        have hle : nextMultipleOf4 (pos + 4 + (cstr (fit.drop (pos + 4))).length + 1) ≤
            fit.length + 4 := by
          unfold nextMultipleOf4
          omega
        have hge : pos + 4 ≤ nextMultipleOf4
            (pos + 4 + (cstr (fit.drop (pos + 4))).length + 1) := by
          unfold nextMultipleOf4
          omega
        rw [Steps.lift_bind (textAt_eq _), Steps.lift_bind (add_eq (by omega)),
          Steps.lift_bind (add_eq (by omega)), Steps.lift_bind (roundUp_eq (by omega))]
        exact ih _ _ (by omega) (by omega)
      refine Steps.refines_ite (fun _ => ih _ _ (by omega) (by omega)) fun _ => ?_
      refine Steps.refines_ite (fun _ => ?_) fun _ => ?_
      -- A property: the two fields of its header, then a value of `len` octets that must be in the
      -- file.
      · refine Steps.refines_bind (headerAt_eq (by omega)) fun len hlen => ?_
        rw [Steps.lift_bind (add_eq (by omega))]
        refine Steps.refines_bind (headerAt_eq (by omega)) fun nameOff _ => ?_
        have hlen := header_lt hlen
        have hfields : pos + 4 + 8 = pos + 12 := rfl
        rw [Steps.lift_bind (add_eq (by omega)), hfields, Steps.lift_bind (getAt_eq (by omega))]
        show (match get fit (pos + 12) len with | none => _ | some value => _) =
          some (match get fit (pos + 12) len with | none => _ | some value => _)
        cases hget : get fit (pos + 12) len with
        | none => rfl
        | some value =>
          have hvalue : pos + 12 + len ≤ fit.length := by
            unfold get at hget
            split at hget
            · assumption
            · cases hget
          have hle : nextMultipleOf4 (pos + 12 + len) ≤ fit.length + 4 := by
            unfold nextMultipleOf4
            omega
          have hge : pos + 4 ≤ nextMultipleOf4 (pos + 12 + len) := by
            unfold nextMultipleOf4
            omega
          dsimp only
          rw [Steps.lift_bind (textAt_eq _), Steps.lift_bind (add_eq (by omega)),
            Steps.lift_bind (roundUp_eq (by omega))]
          exact ih _ _ (by omega) (by omega)
      refine Steps.refines_ite (fun _ => ih _ _ (by omega) (by omega)) fun _ => ?_
      exact Steps.refines_ite (fun _ => rfl) fun _ => rfl

/-- So parsing never leaves the buffer. -/
theorem parseAt_eq : Tree.parseAt fit = some (Tree.parse fit) := by
  unfold Tree.parseAt Tree.parse
  rw [Steps.lift_bind (wordAt_eq (by omega))]
  refine Steps.refines_ite (fun _ => rfl) fun _ => ?_
  refine Steps.refines_bind (headerAt_eq (by omega)) fun totalSize _ => ?_
  refine Steps.refines_bind (headerAt_eq (by omega)) fun structOff hstruct => ?_
  refine Steps.refines_bind (headerAt_eq (by omega)) fun stringsOff _ => ?_
  have hlow := header_lt hstruct
  refine Steps.refines_ite (fun hle => ?_) fun _ => rfl
  rw [Steps.lift_bind (range_eq hle (by omega))]
  exact Steps.refines_bind (loopAt_eq hsmall _ _ _ _ (by omega) (by omega)) fun props _ => rfl

omit hsmall

/-- A number in a property has 32 bits. -/
theorem number_lt {v : Bytes} {n : Nat} (h : number v = some n) : n < 2 ^ 32 := by
  obtain ⟨-, h⟩ := Option.ite_none_right_eq_some.mp h
  cases h
  exact (be32 v 0).toNat_lt

/-- So has the tree's size. -/
theorem totalSize_lt {t : Tree} (h : Tree.parse fit = .ok t) : t.totalSize < 2 ^ 32 := by
  obtain ⟨-, h⟩ := check_eq_ok.mp h
  obtain ⟨totalSize, htotal, h⟩ := bind_eq_ok.mp h
  obtain ⟨structOff, -, h⟩ := bind_eq_ok.mp h
  obtain ⟨stringsOff, -, h⟩ := bind_eq_ok.mp h
  dsimp only at h
  split at h
  · obtain ⟨props, -, h⟩ := bind_eq_ok.mp h
    cases h
    exact header_lt htotal
  · cases h

theorem dataStartAt_eq {t : Tree} (ht : t.totalSize < 2 ^ 32) (node : Bytes) :
    t.dataStartAt node = some (t.dataStart node) := by
  unfold Tree.dataStartAt Tree.dataStart
  cases t.prop node (bytes "data-position") with
  | some p => rfl
  | none =>
    cases t.prop node (bytes "data-offset") with
    | none => rfl
    | some o =>
      dsimp only
      cases ho : number o with
      | none => rfl
      | some off =>
        have hoff := number_lt ho
        have hround : nextMultipleOf4 t.totalSize < 2 ^ 33 := by
          unfold nextMultipleOf4
          omega
        dsimp only
        rw [bind_of_eq (roundUp_eq (by omega)), bind_of_eq (add_eq (by omega))]
        rfl

include hsmall

/-- The payload's slice is checked in both ways it may be given. -/
theorem dataAt_eq {t : Tree} (ht : t.totalSize < 2 ^ 32) (node : Bytes) :
    t.dataAt fit node = some (t.data fit node) := by
  unfold Tree.dataAt Tree.data
  cases t.prop node (bytes "data") with
  | some inline => rfl
  | none =>
    dsimp only
    cases t.number node "data-size" with
    | none => rfl
    | some size =>
      dsimp only
      rw [Steps.lift_bind (dataStartAt_eq ht node)]
      cases t.dataStart node with
      | none => rfl
      | some start =>
        dsimp only
        by_cases hfit : start + size < 2 ^ 64
        · rw [add_eq hfit, get]
          dsimp only
          split
          · rfl
          · rfl
        · have hout : ¬ start + size ≤ fit.length := by omega
          rw [show add start size = none from if_neg hfit, get, if_neg hout]
          rfl

/-- The checked `image` does what `image` does. -/
theorem imageAt_eq (sha256 : Bytes → Bytes) (name : Bytes) :
    imageAt sha256 fit name = some (image sha256 fit name) := by
  unfold imageAt image
  refine Steps.refines_bind (parseAt_eq hsmall) fun t ht => ?_
  refine Steps.refines_bind (dataAt_eq hsmall (totalSize_lt ht) _) fun data _ => ?_
  cases t.want (imageNode name) with
  | none => rfl
  | some want => exact Steps.refines_ite (fun _ => rfl) fun _ => rfl

end Reader

end

/-! ## What is handed out -/

/-- `data` is the part of the file from `start` on. -/
def PartAt (fit : Bytes) (start : Nat) (data : Bytes) : Prop :=
  start + data.length ≤ fit.length ∧ data = slice fit start data.length

/-- A slice that was taken lies in the file. -/
theorem partAt_of_get {fit data : Bytes} {start len : Nat} (h : get fit start len = some data) :
    PartAt fit start data ∧ data.length = len := by
  obtain ⟨hin, h⟩ := Option.ite_none_right_eq_some.mp h
  cases h
  have hlen := length_slice hin
  exact ⟨⟨by rw [hlen]; exact hin, by rw [hlen]⟩, hlen⟩

/-- The values the walk keeps are parts of the file. -/
theorem values_inside {fit strings : Bytes} {pos : Nat} {path : List Bytes}
    {props props' : List (Bytes × Bytes × Bytes)} (h : loop fit strings pos path props = .ok props')
    (hprops : ∀ e ∈ props, ∃ i, PartAt fit i e.2.2) :
    ∀ e ∈ props', ∃ i, PartAt fit i e.2.2 := by
  fun_induction loop fit strings pos path props with
  | case1 => cases h
  | case2 =>
    rename_i ih
    exact ih h hprops
  | case3 =>
    rename_i ih
    exact ih h hprops
  | case4 => cases h
  | case5 => cases h
  | case6 => cases h
  | case7 =>
    -- a property: its value was taken from the file
    rename_i hget _ _ _ ih
    refine ih h fun e he => ?_
    rcases List.mem_append.mp he with he | he
    · exact hprops e he
    · rw [List.mem_singleton.mp he]
      exact ⟨_, (partAt_of_get hget).1⟩
  | case8 =>
    rename_i ih
    exact ih h hprops
  | case9 =>
    cases h
    exact hprops
  | case10 => cases h

/-- So does a property. -/
theorem partAt_of_prop {fit node name v : Bytes} {t : Tree} (ht : Tree.parse fit = .ok t)
    (h : t.prop node name = some v) :
    ∃ i, PartAt fit i v := by
  obtain ⟨-, ht⟩ := check_eq_ok.mp ht
  obtain ⟨totalSize, -, ht⟩ := bind_eq_ok.mp ht
  obtain ⟨structOff, -, ht⟩ := bind_eq_ok.mp ht
  obtain ⟨stringsOff, -, ht⟩ := bind_eq_ok.mp ht
  dsimp only at ht
  split at ht
  · obtain ⟨props, hloop, ht⟩ := bind_eq_ok.mp ht
    cases ht
    obtain ⟨e, he, rfl⟩ := Option.map_eq_some_iff.mp h
    exact values_inside hloop (fun e he => by cases he) e (List.mem_of_find?_eq_some he)
  · cases ht

/-- Where the payload of a node stands in the file. -/
inductive Source (fit : Bytes) (t : Tree) (node data : Bytes) : Prop
  | inline (i : Nat) (hprop : t.prop node (bytes "data") = some data) (hpart : PartAt fit i data)
  | position (start : Nat) (hnone : t.prop node (bytes "data") = none)
      (hstart : t.number node "data-position" = some start)
      (hsize : t.number node "data-size" = some data.length) (hpart : PartAt fit start data)
  | offset (off : Nat) (hnone : t.prop node (bytes "data") = none)
      (hposition : t.prop node (bytes "data-position") = none)
      (hoff : t.number node "data-offset" = some off)
      (hsize : t.number node "data-size" = some data.length)
      (hpart : PartAt fit (nextMultipleOf4 t.totalSize + off) data)

/-- A payload comes from one of the two places that a node can give. -/
theorem source_of_data {fit node data : Bytes} {t : Tree} (ht : Tree.parse fit = .ok t)
    (h : t.data fit node = .ok data) :
    Source fit t node data := by
  unfold Tree.data at h
  -- The payload is inline, or its size and its start are given by two numbers of the node.
  split at h
  · rename_i inline hinline
    cases h
    obtain ⟨i, hpart⟩ := partAt_of_prop ht hinline
    exact .inline i hinline hpart
  rename_i hnone
  split at h
  · cases h
  rename_i size hsize
  split at h
  · cases h
  rename_i start hstart
  split at h
  · cases h
  rename_i part hget
  cases h
  obtain ⟨hpart, hlen⟩ := partAt_of_get hget
  rw [← hlen] at hsize
  unfold Tree.dataStart at hstart
  -- The start is a position in the file, or an offset from the end of the tree.
  split at hstart
  · rename_i p hp
    refine .position start hnone ?_ hsize hpart
    rw [Tree.number, hp]
    exact hstart
  · rename_i o hp ho
    obtain ⟨off, hoff, rfl⟩ := Option.map_eq_some_iff.mp hstart
    refine .offset off hnone hp ?_ hsize hpart
    rw [Tree.number, ho]
    exact hoff
  · cases hstart

/-- A hash that vouches for `data`, by the paths of the tree: the first algorithm and the first
    value found under a path that continues the node's. -/
structure Recorded (sha256 : Bytes → Bytes) (t : Tree) (node data h : Bytes) : Prop where
  noSlash : 47 ∉ h
  name : h = bytes "hash" ∨ bytes "hash-" <+: h
  algo : t.prop (node ++ 47 :: h) (bytes "algo") = some (bytes "sha256" ++ [0])
  value : t.prop (node ++ 47 :: h) (bytes "value") = some (sha256 data)

/-- The digest that is wanted is recorded in the tree. -/
theorem recorded_of_want {sha256 : Bytes → Bytes} {t : Tree} {node data : Bytes}
    (h : t.want node = some (sha256 data)) :
    ∃ h, Recorded sha256 t node data h := by
  obtain ⟨child, hchild, hvalue⟩ := List.exists_of_findSome?_eq_some h
  obtain ⟨hchild, halgo⟩ := List.mem_filter.mp hchild
  obtain ⟨hchild, hname⟩ := List.mem_filter.mp hchild
  obtain ⟨x, hx, rfl⟩ := isChild_iff.mp (mem_children.mp hchild).1
  have hlast : lastName (node ++ 47 :: x) = some x := by
    have hone : x.splitOn 47 = [x] := List.splitOnP_eq_singleton fun c hc =>
      beq_false_of_ne fun he => hx (he ▸ hc)
    rw [lastName, splitOn_append_sep, hone, List.getLast?_append]
    rfl
  rw [isHashNode, hlast] at hname
  refine ⟨x, hx, ?_, of_decide_eq_true halgo, hvalue⟩
  rcases Bool.or_eq_true_iff.mp hname with hname | hname
  · exact .inl (beq_iff_eq.mp hname)
  · exact .inr (List.isPrefixOf_iff_prefix.mp hname)

/-- **`image` on any bytes**: no check fails, and what it hands out is a part of the file, where its
    node says, with the digest that is recorded below the node's path. -/
theorem image_verified (sha256 : Bytes → Bytes) (s : Slice) (name : Bytes) :
    ∃ r, imageAt sha256 s.octets name = some r ∧ ∀ data, r = .ok data →
      ∃ t, Tree.parse s.octets = .ok t ∧ Source s.octets t (imageNode name) data ∧
        ∃ h, Recorded sha256 t (imageNode name) data h := by
  refine ⟨_, imageAt_eq s.small sha256 name, ?_⟩
  intro data hok
  obtain ⟨t, ht, hok⟩ := bind_eq_ok.mp hok
  obtain ⟨data', hdata, hok⟩ := bind_eq_ok.mp hok
  cases hwant : t.want (imageNode name) with
  | none =>
    rw [hwant] at hok
    cases hok
  | some want =>
    rw [hwant] at hok
    obtain ⟨hdigest, hok⟩ := check_eq_ok.mp hok
    cases hok
    rw [← not_not.mp hdigest] at hwant
    exact ⟨t, ht, source_of_data ht hdata, recorded_of_want hwant⟩

/-! ### Two hash nodes of one name -/

/-- The nodes of a forest, each with the names that lead to it and its own properties. -/
def nodes (above : List Bytes) : Forest → List (List Bytes × List Property)
  | .nil => []
  | .cons name props children siblings =>
    (above ++ [name.octets], props) ::
      (nodes (above ++ [name.octets]) children ++ nodes above siblings)

/-- The SHA-256 of no octets. -/
def sha256Empty : Bytes :=
  [0xe3, 0xb0, 0xc4, 0x42, 0x98, 0xfc, 0x1c, 0x14, 0x9a, 0xfb, 0xf4, 0xc8, 0x99, 0x6f, 0xb9, 0x24,
    0x27, 0xae, 0x41, 0xe4, 0x64, 0x9b, 0x93, 0x4c, 0xa4, 0x95, 0x99, 0x1b, 0x78, 0x52, 0xb8, 0x55]

/-- An image with two hash nodes, of which the first says another algorithm. -/
def ramdisk : NodeName := ⟨⟨bytes "ramdisk", by decide, by decide⟩, by decide⟩

def hash : NodeName := ⟨⟨bytes "hash", by decide, by decide⟩, by decide⟩

def noData : Property := ⟨⟨bytes "data", by decide, by decide⟩, []⟩

def value : Property := ⟨⟨bytes "value", by decide, by decide⟩, sha256Empty⟩

def algoOf (v : Bytes) : Property := ⟨⟨bytes "algo", by decide, by decide⟩, v ++ [0]⟩

/-- `/images/ramdisk` with two nodes `hash`: the first names the algorithm, the second has another
    one and a value. -/
def twoHashes : DeviceTree.Tree :=
  ⟨[], .cons images [] (.cons ramdisk [noData] (.cons hash [algoOf (bytes "sha256")] .nil
    (.cons hash [algoOf (bytes "sha1"), value] .nil .nil)) .nil) .nil⟩

/-- Its structure block, piece by piece. -/
def twoHashesPieces : List Piece :=
  [.beginNode .empty, .beginNode images.toName, .beginNode ramdisk.toName, .prop 0 [],
    .beginNode hash.toName, .prop 5 (bytes "sha256" ++ [0]), .endNode,
    .beginNode hash.toName, .prop 5 (bytes "sha1" ++ [0]), .prop 10 sha256Empty, .endNode,
    .endNode, .endNode, .endNode, .finish]

/-- Its block of names. -/
def twoHashesStrings : Bytes := bytes "data" ++ [0] ++ bytes "algo" ++ [0] ++ bytes "value" ++ [0]

/-- And the file. -/
def twoHashesFile : Bytes :=
  toBe32 DeviceTree.magic ++ toBe32 208 ++ toBe32 16 ++ toBe32 192 ++ block twoHashesPieces ++
    twoHashesStrings

theorem twoHashes_aligned : (16 : UInt32).toNat % 4 = 0 := by decide

def twoHashesPlacement : Placement twoHashes twoHashesFile where
  totalSize := 208
  structOff := 16
  stringsOff := 192
  pieces := twoHashesPieces
  strings := twoHashesStrings
  header := ⟨twoHashesFile.drop 16, by decide +kernel⟩
  aligned := twoHashes_aligned
  flat := .beginNode _ (.beginNode _ (.beginNode _ (.prop ⟨_, rfl⟩ (by decide)
    (.beginNode _ (.prop ⟨_, rfl⟩ (by decide) (.endNode
      (.beginNode _ (.prop ⟨_, rfl⟩ (by decide) (.prop ⟨[], rfl⟩ (by decide) (.endNode
        (.endNode (.endNode (.endNode (.finish .nil))))))))))))))
  structBlock := ⟨twoHashesFile.drop 192, by decide +kernel⟩
  stringsBlock := ⟨[], by decide⟩
  inFile := by decide +kernel
  inTree := by decide

/-- A payload passes whose digest stands in a node with another algorithm. -/
theorem image_value_of_other_node :
    ¬ ∀ (sha256 : Bytes → Bytes), sha256 [] = sha256Empty →
    ∀ (t : DeviceTree.Tree) (fit : Bytes) (_ : Placement t fit)
        (name data : Bytes), image sha256 fit name = .ok data →
          ∃ n ∈ nodes [] t.children, (∃ h, n.1 = [bytes "images", name, h] ∧ isHashName h) ∧
            (∃ p ∈ n.2, p.name.octets = bytes "algo" ∧ p.value = bytes "sha256" ++ [0]) ∧
            ∃ p ∈ n.2, p.name.octets = bytes "value" ∧ p.value = sha256 data := by
  intro h
  have hok : image (fun _ => sha256Empty) twoHashesFile (bytes "ramdisk") = .ok [] := by
    rw [image, parse_placed twoHashesPlacement]
    decide
  obtain ⟨n, hn, -, ⟨p, hp, -, halgo⟩, ⟨q, hq, hname, -⟩⟩ :=
    h (fun _ => sha256Empty) rfl twoHashes twoHashesFile twoHashesPlacement (bytes "ramdisk") [] hok
  have hnone : ∀ n ∈ nodes [] twoHashes.children,
      (∃ p ∈ n.2, p.value = bytes "sha256" ++ [0]) →
      ¬ ∃ q ∈ n.2, q.name.octets = bytes "value" := by
    decide
  exact hnone n hn ⟨p, hp, halgo⟩ ⟨q, hq, hname⟩

end CdjEmu.Fit
