/-
  THE ISO 9660 READER — a file is found by its path, in an image of any bytes.

  A directory is read as one extent, and its records are walked by their length octets: a zero skips
  to the next sector, and a length that cannot be a record's ends the walk.  `findInDir` takes the
  first record whose name matches, for one component of the path after the other.

  Two things are shown.  What comes back is the extent of a record, reached through records
  (`Reached`); and where directories pack their records, the walk gives just these
  (`dirRecords_packed`), so that every path is followed to its end (`Leads`).  The argument of the
  second is by sectors: a sector that is filled to its last octet needs no zero for the walk to go
  on, one with a short tail needs one, and both leave it at the next sector (`recordsFrom_sector`).

  A directory below the root is read with at least one sector, whatever size is recorded.  That is
  harmless because the sector is zero behind its last record (`Directory.raised`).

  The texts of errors are kept as what they are made from.
-/
import CdjEmu.Firmware.LuksCrypto
import CdjEmu.Lib.Checked
import CdjEmu.Lib.Split

namespace CdjEmu.Iso

open Text Checked

open Luks (eqIgnoreAsciiCase)

/-- What may be wrong with an image. -/
inductive ExtractError where
  | io
  | badIso (what : String)
  | fileNotFound (head : Bytes) (listing : List Bytes)
  deriving DecidableEq

def ISO_SECTOR : Nat := 2048

/-- The place of the volume's descriptor. -/
def PVD_LBA : Nat := 16

/-! ## Extents -/

/-- Four octets as a number, the lowest first. -/
def word32Le : Bytes → Nat
  | [a, b, c, d] => a.toNat + b.toNat * 2 ^ 8 + c.toNat * 2 ^ 16 + d.toNat * 2 ^ 24
  | _ => 0

/-- The little-endian half of a both-endian word. -/
def le32 (b : Bytes) (i : Nat) : Nat := word32Le (slice b i 4)

/-- The sector and length of the root directory. -/
def rootExtent (image : Bytes) : Except ExtractError (Nat × Nat) :=
  if image.length < PVD_LBA * ISO_SECTOR + ISO_SECTOR then .error .io
  else
    let pvd := slice image (PVD_LBA * ISO_SECTOR) ISO_SECTOR
    if slice pvd 0 1 ≠ [1] ∨ slice pvd 1 5 ≠ bytes "CD001" then
      .error (.badIso "not an ISO 9660 primary volume descriptor")
    else .ok (le32 pvd 158, le32 pvd 166)

/-- The extent ends inside the image. -/
def Inside (image : Bytes) (lba len : Nat) : Prop := lba * ISO_SECTOR + len ≤ image.length

instance (image : Bytes) (lba len : Nat) : Decidable (Inside image lba len) :=
  inferInstanceAs (Decidable (_ ≤ _))

/-- The octets of an extent. -/
def extent (image : Bytes) (lba len : Nat) : Bytes := slice image (lba * ISO_SECTOR) len

/-- The octets of a file, if they lie in the image. -/
def readExtent (image : Bytes) (lba len : Nat) : Except ExtractError Bytes :=
  if Inside image lba len then .ok (extent image lba len)
  else .error (.badIso "extent runs past the end of the image")

/-! ## Records -/

/-- The records of a directory extent from `pos` on. -/
def recordsFrom (dir : Bytes) (pos : Nat) : List Bytes :=
  if h : pos < dir.length then
    let recLen := (dir.get ⟨pos, h⟩).toNat
    if recLen = 0 then recordsFrom dir ((pos / ISO_SECTOR + 1) * ISO_SECTOR)
    else if dir.length < pos + recLen ∨ recLen < 33 then []
    else slice dir pos recLen :: recordsFrom dir (pos + recLen)
  else []
termination_by dir.length - pos
decreasing_by
  · unfold ISO_SECTOR
    omega
  · omega

/-- The records of a directory. -/
def dirRecords (dir : Bytes) : List Bytes := recordsFrom dir 0

/-- Octet `i` of a record. -/
def octet (r : Bytes) (i : Nat) : UInt8 := r.getD i 0

/-- A record's file identifier, if it fits in the record. -/
def recordName (r : Bytes) : Option Bytes :=
  let nameLen := (octet r 32).toNat
  if 33 + nameLen ≤ r.length then some (slice r 33 nameLen) else none

/-- A record that is a directory's. -/
def isDirRecord (r : Bytes) : Bool := octet r 25 &&& 0x02 ≠ 0

/-- The two records that every directory starts with. -/
def isSelfOrParent (name : Bytes) : Bool := name = [0] ∨ name = [1]

/-- What stands before the version. -/
def base (name : Bytes) : Bytes := name.takeWhile (· ≠ 59)

/-- A name without its version is the one asked for, in any case of letters. -/
def namesMatch (isoName target : Bytes) : Bool := eqIgnoreAsciiCase (base isoName) (base target)

/-- The same octet, or one ASCII letter in both cases. -/
def SameLetter (x y : UInt8) : Prop :=
  x = y ∨ (65 ≤ x ∧ x ≤ 90 ∧ y = x + 32) ∨ 65 ≤ y ∧ y ≤ 90 ∧ x = y + 32

/-- `b` is the name in front of its version, which a semicolon starts. -/
def BaseOf (name b : Bytes) : Prop := 59 ∉ b ∧ (name = b ∨ ∃ version, name = b ++ 59 :: version)

/-- Lowering makes two octets equal when they are the same letter. -/
theorem asciiLower_eq_iff {x y : UInt8} :
    Luks.asciiLower x = Luks.asciiLower y ↔ SameLetter x y := by
  have hx := x.toNat_lt
  have hy := y.toNat_lt
  simp only [SameLetter, Luks.asciiLower, UInt8.le_iff_toNat_le, ← UInt8.toNat_inj]
  split <;> split <;> simp only [UInt8.toNat_add, UInt8.reduceToNat] at * <;> omega

/-- The base of a name is the name up to its version. -/
theorem base_eq_iff {name b : Bytes} : base name = b ↔ BaseOf name b := by
  constructor
  · rintro rfl
    refine ⟨fun h => by simpa using List.mem_takeWhile_imp h, ?_⟩
    cases hrest : name.dropWhile (· ≠ 59) with
    | nil =>
      left
      have happ := List.takeWhile_append_dropWhile (p := (· ≠ 59)) (l := name)
      rw [hrest, List.append_nil] at happ
      exact happ.symm
    | cons c version =>
      right
      have hc := List.head?_dropWhile_not (· ≠ 59) name
      rw [hrest] at hc
      obtain rfl : c = 59 := by simpa using hc
      refine ⟨version, ?_⟩
      rw [base, ← hrest, List.takeWhile_append_dropWhile]
  · rintro ⟨hb, rfl | ⟨version, rfl⟩⟩
    · exact List.takeWhile_eq_self_iff.mpr fun c hc => by simpa using fun h : c = 59 => hb (h ▸ hc)
    · have hall : ∀ c ∈ b, (decide (c ≠ 59)) = true := fun c hc => by
        simpa using fun h : c = 59 => hb (h ▸ hc)
      rw [base, List.takeWhile_append_of_pos hall, List.takeWhile_cons_of_neg (by decide),
        List.append_nil]

/-- **Two names match** where their parts in front of the version are the same
    letters, in whichever case. -/
theorem namesMatch_iff {isoName target : Bytes} : namesMatch isoName target = true ↔
    ∃ a b, BaseOf isoName a ∧ BaseOf target b ∧ List.Forall₂ SameLetter a b := by
  have hmap : ∀ a b : Bytes, eqIgnoreAsciiCase a b ↔ List.Forall₂ SameLetter a b := by
    intro a b
    rw [eqIgnoreAsciiCase, Luks.lowercase, Luks.lowercase, ← List.forall₂_eq_eq_eq,
      List.forall₂_map_left_iff, List.forall₂_map_right_iff]
    simp only [asciiLower_eq_iff]
  rw [namesMatch, decide_eq_true_iff, hmap]
  constructor
  · exact fun h => ⟨_, _, base_eq_iff.mp rfl, base_eq_iff.mp rfl, h⟩
  · rintro ⟨a, b, ha, hb, h⟩
    rwa [base_eq_iff.mpr ha, base_eq_iff.mpr hb]

/-- The record's name is the component `c` of a path; a name that is no text counts as empty. -/
def recordMatches (c r : Bytes) : Bool :=
  match recordName r with
  | some name => namesMatch (if Valid name then name else []) c
  | none => false

/-- Where the extent of a record is. -/
def location (r : Bytes) : Nat × Nat := (le32 r 2, le32 r 10)

/-- `[D]name` and `[F]name`, for errors. -/
def dirListing (dir : Bytes) : List Bytes :=
  (dirRecords dir).filterMap fun r =>
    match recordName r with
    | some raw =>
        if isSelfOrParent raw then none else
          some (bytes (if isDirRecord r then "[D]" else "[F]") ++ lossy raw)
    | none => none

/-! ## The search -/

/-- The first record that matches. -/
def find (dir head : Bytes) : Except ExtractError (Nat × Nat) :=
  match (dirRecords dir).find? (recordMatches head) with
  | some r => .ok (location r)
  | none => .error (.fileNotFound head (dirListing dir))

theorem length_of_splitOnce {c : UInt8} {s k v : Bytes} (h : splitOnce c s = some (k, v)) :
    v.length < s.length := by
  rw [eq_of_splitOnce h, List.length_append, List.length_cons]
  omega

/-- The walk down a path. -/
def findInDir (image : Bytes) (lba len : Nat) (target : Bytes) : Except ExtractError Bytes := do
  let dir ← readExtent image lba len
  match _h : splitOnce 47 target with
  | some (head, tail) => do
    let (lba, size) ← find dir head
    findInDir image lba (max size ISO_SECTOR) tail
  | none => do
    let (lba, size) ← find dir target
    readExtent image lba size
termination_by target.length
decreasing_by exact length_of_splitOnce _h

/-- `read_iso_file`. -/
def readIsoFile (image name : Bytes) : Except ExtractError Bytes := do
  let (rootLba, rootLen) ← rootExtent image
  findInDir image rootLba rootLen name

/-! ## Packed directories -/

/-- The octets of a directory record: 33 to 255 of them, the first of which is their number. -/
def IsRecord (r : Bytes) : Prop := 33 ≤ r.length ∧ r.length ≤ 255 ∧
    r.head? = some (UInt8.ofNat r.length)

/-- Records one behind the other, and zeros. -/
def sectorOf (rs : List Bytes) (zeros : Nat) : Bytes := rs.flatten ++ List.replicate zeros 0

/-- `Packed dir rs` — `dir` is sectors that hold the records `rs`, each sector zero behind its last
    record.  The last sector may be cut short. -/
inductive Packed : Bytes → List Bytes → Prop
  | last {rs : List Bytes} {zeros : Nat} (hrs : ∀ r ∈ rs,
      IsRecord r) (hlen : rs.flatten.length + zeros ≤ ISO_SECTOR) :
      Packed (sectorOf rs zeros) rs
  | sector {rs rs' : List Bytes} {zeros : Nat} {dir : Bytes} (hrs : ∀ r ∈ rs, IsRecord r)
      (hlen : rs.flatten.length + zeros = ISO_SECTOR) (rest : Packed dir rs') :
      Packed (sectorOf rs zeros ++ dir) (rs ++ rs')

/-- Nothing is read behind the end. -/
theorem recordsFrom_end {dir : Bytes} {pos : Nat} (h : dir.length ≤ pos) :
    recordsFrom dir pos = [] := by
  rw [recordsFrom, dif_neg (by omega)]

/-- A record is walked over. -/
theorem recordsFrom_record (a : Bytes) {r : Bytes} (b : Bytes) (hr : IsRecord r) :
    recordsFrom (a ++ (r ++ b)) a.length = r :: recordsFrom (a ++ (r ++ b))
      (a.length + r.length) := by
  obtain ⟨hmin, hmax, hhead⟩ := hr
  have hlen : (a ++ (r ++ b)).length = a.length + (r.length + b.length) := by
    rw [List.length_append, List.length_append]
  have hpos : a.length < (a ++ (r ++ b)).length := by omega
  have hget : (a ++ (r ++ b)).get ⟨a.length, hpos⟩ = UInt8.ofNat r.length := by
    apply Option.some_inj.mp
    rw [List.get_eq_getElem, ← List.getElem?_eq_getElem, List.getElem?_append_right (Nat.le_refl _),
      Nat.sub_self, List.getElem?_append_left (by omega), ← List.head?_eq_getElem?, hhead]
  have hnum : (UInt8.ofNat r.length).toNat = r.length := by
    rw [UInt8.toNat_ofNat']
    omega
  have hslice : slice (a ++ (r ++ b)) a.length r.length = r := by
    rw [slice_append_right _ (Nat.le_refl _), Nat.sub_self, slice, List.drop_zero, List.take_left]
  rw [recordsFrom, dif_pos hpos]
  dsimp only
  rw [hget, hnum, if_neg (by omega), if_neg (by omega), hslice]

/-- Records that are packed are read one by one. -/
theorem recordsFrom_records (a : Bytes) {rs : List Bytes} (b : Bytes) (hrs : ∀ r ∈ rs, IsRecord r) :
    recordsFrom (a ++ (rs.flatten ++ b)) a.length =
      rs ++ recordsFrom (a ++ (rs.flatten ++ b)) (a.length + rs.flatten.length) := by
  induction rs generalizing a with
  | nil => rfl
  | cons r rs ih =>
    have hrest := ih (a ++ r) fun q hq => hrs q (List.mem_cons_of_mem _ hq)
    rw [List.length_append, List.append_assoc] at hrest
    rw [List.flatten_cons, List.append_assoc, recordsFrom_record a _ (hrs r List.mem_cons_self),
      hrest, List.length_append, Nat.add_assoc]
    rfl

/-- A zero leads to the next sector. -/
theorem recordsFrom_zero {dir : Bytes} {pos : Nat} (h : dir[pos]? = some 0) :
    recordsFrom dir pos = recordsFrom dir ((pos / ISO_SECTOR + 1) * ISO_SECTOR) := by
  obtain ⟨hpos, hget⟩ := List.getElem?_eq_some_iff.mp h
  conv_lhs => rw [recordsFrom, dif_pos hpos]
  dsimp only
  rw [List.get_eq_getElem, hget]
  rfl

/-- Behind the records of a sector the walk is at the next one, or at the end. -/
theorem recordsFrom_tail {a : Bytes} (rs : List Bytes) {zeros : Nat} (b : Bytes)
    (ha : a.length % ISO_SECTOR = 0) (hlen : rs.flatten.length + zeros ≤ ISO_SECTOR)
    (hfull : rs.flatten.length + zeros = ISO_SECTOR ∨ b = []) :
    recordsFrom (a ++ (sectorOf rs zeros ++ b)) (a.length + rs.flatten.length) =
      recordsFrom (a ++ (sectorOf rs zeros ++ b)) (a.length + ISO_SECTOR) := by
  have hsize : ISO_SECTOR = 2048 := rfl
  have hall : (a ++ (sectorOf rs zeros ++ b)).length = a.length +
      (rs.flatten.length + zeros + b.length) := by
    rw [List.length_append, List.length_append, sectorOf, List.length_append, List.length_replicate]
  by_cases hz : zeros = 0
  · rcases hfull with hfull | hb
    · rw [show rs.flatten.length = ISO_SECTOR by omega]
    · subst hb
      rw [List.length_nil] at hall
      rw [recordsFrom_end (by omega), recordsFrom_end (by omega)]
  · have hzero : (a ++ (sectorOf rs zeros ++ b))[a.length + rs.flatten.length]? = some 0 := by
      rw [List.getElem?_append_right (Nat.le_add_right _ _), Nat.add_sub_cancel_left, sectorOf,
        List.append_assoc, List.getElem?_append_right (Nat.le_refl _), Nat.sub_self,
        List.getElem?_append_left (by rw [List.length_replicate]; omega), List.getElem?_replicate,
        if_pos (by omega)]
    have hnext : ((a.length + rs.flatten.length) / ISO_SECTOR + 1) * ISO_SECTOR = a.length +
        ISO_SECTOR := by
      rw [hsize] at ha hlen ⊢
      omega
    rw [recordsFrom_zero hzero, hnext]

/-- **The walk over a packed directory** gives its records, in order. -/
theorem recordsFrom_packed {dir : Bytes} {rs : List Bytes} (h : Packed dir rs) :
    ∀ {a : Bytes}, a.length % ISO_SECTOR = 0 → recordsFrom (a ++ dir) a.length = rs := by
  induction h with
  | @last rs zeros hrs hlen =>
    intro a ha
    have hsize : ISO_SECTOR = 2048 := rfl
    have htail := recordsFrom_tail rs [] ha hlen (.inr rfl)
    rw [List.append_nil] at htail
    rw [sectorOf, recordsFrom_records a _ hrs, ← sectorOf, htail, recordsFrom_end, List.append_nil]
    rw [List.length_append, sectorOf, List.length_append, List.length_replicate]
    omega
  | @sector rs rs' zeros dir hrs hlen _ ih =>
    intro a ha
    have htail := recordsFrom_tail rs dir ha hlen.le (.inl hlen)
    have hrest := ih (a := a ++ sectorOf rs zeros)
    have hsector : (sectorOf rs zeros).length = ISO_SECTOR := by
      rw [sectorOf, List.length_append, List.length_replicate, hlen]
    rw [List.length_append, hsector, List.append_assoc] at hrest
    rw [sectorOf, List.append_assoc, recordsFrom_records a _ hrs, ← List.append_assoc rs.flatten,
      ← sectorOf, htail, hrest (by rw [Nat.add_mod_right, ha])]

/-- So a packed directory has its records. -/
theorem dirRecords_packed {dir : Bytes} {rs : List Bytes} (h : Packed dir rs) :
    dirRecords dir = rs :=
  recordsFrom_packed h (a := []) rfl

/-- More zeros behind a directory of less than a sector. -/
theorem Packed.fill {dir : Bytes} {rs : List Bytes} (h : Packed dir rs) {k : Nat}
    (hk : dir.length + k ≤ ISO_SECTOR) :
    Packed (dir ++ List.replicate k 0) rs := by
  cases h with
  | @last _ zeros hrs hlen =>
    have hmore : sectorOf rs zeros ++ List.replicate k 0 = sectorOf rs (zeros + k) := by
      rw [sectorOf, sectorOf, List.append_assoc, List.replicate_append_replicate]
    rw [sectorOf, List.length_append, List.length_replicate] at hk
    rw [hmore]
    exact .last hrs (by omega)
  | @sector rs rs' zeros dir hrs hlen rest =>
    rw [List.length_append, sectorOf, List.length_append, List.length_replicate] at hk
    obtain rfl : k = 0 := by omega
    rw [List.replicate_zero, List.append_nil]
    exact .sector hrs hlen rest

/-- A directory in an image: its extent is inside, it packs its records, and its first sector is
    zero to the end. -/
structure Directory (image : Bytes) (lba len : Nat) (rs : List Bytes) : Prop where
  inside : Inside image lba len
  packed : Packed (extent image lba len) rs
  filled : ∀ k, len ≤ k → k < ISO_SECTOR → image[lba * ISO_SECTOR + k]? = some 0

/-- Read with a whole sector, a directory has the same records. -/
theorem Directory.raised {image : Bytes} {lba len : Nat} {rs : List Bytes}
    (h : Directory image lba len rs) :
    Inside image lba (max len ISO_SECTOR) ∧ Packed (extent image lba (max len ISO_SECTOR)) rs := by
  by_cases hlen : ISO_SECTOR ≤ len
  · rw [max_eq_left hlen]
    exact ⟨h.inside, h.packed⟩
  · have hin := h.inside
    have hlast := h.filled (ISO_SECTOR - 1) (by omega) (by unfold ISO_SECTOR; omega)
    obtain ⟨hlt, -⟩ := List.getElem?_eq_some_iff.mp hlast
    have hzeros : slice image (lba * ISO_SECTOR + len) (ISO_SECTOR - len) = List.replicate
        (ISO_SECTOR - len) 0 := by
      apply List.ext_getElem?
      intro k
      rw [getElem?_slice, List.getElem?_replicate]
      by_cases hk : k < ISO_SECTOR - len
      · rw [if_pos hk, if_pos hk, Nat.add_assoc, h.filled _ (by omega) (by omega)]
      · rw [if_neg hk, if_neg hk]
    have hsplit : extent image lba ISO_SECTOR = extent image lba len ++ List.replicate
        (ISO_SECTOR - len) 0 := by
      rw [extent, extent, ← hzeros, ← slice_add, Nat.add_sub_cancel' (by omega)]
    rw [max_eq_right (by omega), hsplit]
    refine ⟨?_, h.packed.fill ?_⟩
    · unfold Inside
      omega
    · unfold Inside at hin
      rw [extent, length_slice hin]
      omega

/-! ## The search, in an image of directories -/

/-- `Leads image lba len path data` — from the directory at `lba` the path leads to `data`, through
    the first record of each component's name. -/
inductive Leads (image : Bytes) : Nat → Nat → List Bytes → Bytes → Prop
  | file {lba len : Nat} {rs : List Bytes} {c r : Bytes} (here : Directory image lba len rs)
      (hr : rs.find? (recordMatches c) = some r)
      (hin : Inside image (location r).1 (location r).2) :
      Leads image lba len [c] (extent image (location r).1 (location r).2)
  | dir {lba len : Nat} {rs : List Bytes} {c r : Bytes} {cs : List Bytes} {data : Bytes}
      (here : Directory image lba len rs) (hr : rs.find? (recordMatches c) = some r)
      (rest : Leads image (location r).1 (location r).2 cs data) :
      Leads image lba len (c :: cs) data

/-- A path has a part. -/
theorem Leads.ne_nil {image : Bytes} {lba len : Nat} {cs : List Bytes} {data : Bytes}
    (h : Leads image lba len cs data) :
    cs ≠ [] := by
  cases h with
  | file => exact List.cons_ne_nil _ _
  | dir => exact List.cons_ne_nil _ _

/-- The first record under a name is found. -/
theorem find_of_packed {dir c r : Bytes} {rs : List Bytes} (hdir : Packed dir rs)
    (hr : rs.find? (recordMatches c) = some r) : find dir c = .ok (location r) := by
  rw [find, dirRecords_packed hdir, hr]

section

variable {image target : Bytes}

/-- The walk at the last part of a path. -/
theorem findInDir_none (h : splitOnce 47 target = none) (lba len : Nat) :
    findInDir image lba len target = (do
      let dir ← readExtent image lba len
      let l ← find dir target
      readExtent image l.1 l.2) := by
  rw [findInDir]
  refine congrArg _ (funext fun dir => ?_)
  split
  · rename_i hs
    rw [h] at hs
    cases hs
  · rfl

/-- The walk at a part with more behind it. -/
theorem findInDir_some {head tail : Bytes} (h : splitOnce 47 target = some (head, tail))
    (lba len : Nat) :
    findInDir image lba len target = (do
      let dir ← readExtent image lba len
      let l ← find dir head
      findInDir image l.1 (max l.2 ISO_SECTOR) tail) := by
  rw [findInDir]
  refine congrArg _ (funext fun dir => ?_)
  split
  · rename_i hs
    rw [h] at hs
    cases hs
    rfl
  · rename_i hs
    rw [h] at hs
    cases hs

/-- **A path that leads to data is followed to its end**, from the root and from a directory that is
    read with a whole sector. -/
theorem findInDir_leads {lba len : Nat} {cs : List Bytes} {data : Bytes}
    (h : Leads image lba len cs data) :
    ∀ {target : Bytes} {n : Nat}, target.splitOn 47 = cs → n = len ∨ n = max len ISO_SECTOR →
      findInDir image lba n target = .ok data := by
  have hread : ∀ {lba len n : Nat} {rs : List Bytes}, Directory image lba len rs → n = len ∨
      n = max len ISO_SECTOR →
      readExtent image lba n = .ok (extent image lba n) ∧ Packed (extent image lba n) rs := by
    intro lba len n rs here hn
    have hboth : Inside image lba n ∧ Packed (extent image lba n) rs := by
      rcases hn with rfl | rfl
      · exact ⟨here.inside, here.packed⟩
      · exact here.raised
    exact ⟨if_pos hboth.1, hboth.2⟩
  induction h with
  | @file lba len rs c r here hr hin =>
    intro target n hsplit hn
    obtain ⟨hok, hpacked⟩ := hread here hn
    cases hs : splitOnce 47 target with
    | none =>
      obtain rfl : target = c :=
        List.cons.inj ((splitOn_of_splitOnce_none hs).symm.trans hsplit) |>.1
      rw [findInDir_none hs, hok]
      refine bind_eq_ok.mpr ⟨_, rfl, bind_eq_ok.mpr ⟨_, find_of_packed hpacked hr, ?_⟩⟩
      exact if_pos hin
    | some parts =>
      rw [splitOn_of_splitOnce hs] at hsplit
      exact absurd (List.cons.inj hsplit).2 (splitOn_ne_nil 47 _)
  | @dir lba len rs c r cs data here hr rest ih =>
    intro target n hsplit hn
    obtain ⟨hok, hpacked⟩ := hread here hn
    cases hs : splitOnce 47 target with
    | none =>
      rw [splitOn_of_splitOnce_none hs] at hsplit
      exact absurd (List.cons.inj hsplit).2.symm rest.ne_nil
    | some parts =>
      obtain ⟨head, tail⟩ := parts
      rw [splitOn_of_splitOnce hs] at hsplit
      obtain ⟨rfl, htail⟩ := List.cons.inj hsplit
      rw [findInDir_some hs, hok]
      exact bind_eq_ok.mpr
        ⟨_, rfl, bind_eq_ok.mpr ⟨_, find_of_packed hpacked hr, ih htail (.inr rfl)⟩⟩

/-! ## What is found -/

/-- `Reached image lba len path data` — from the extent at `lba`, records of the components' names
    lead to one whose extent is `data`. -/
inductive Reached (image : Bytes) : Nat → Nat → List Bytes → Bytes → Prop
  | file {lba len : Nat} {c r : Bytes} (here : Inside image lba len) (hr : r ∈
      dirRecords (extent image lba len))
      (hc : recordMatches c r = true) (hin : Inside image (location r).1 (location r).2) :
      Reached image lba len [c] (extent image (location r).1 (location r).2)
  | dir {lba len : Nat} {c r : Bytes} {cs : List Bytes} {data : Bytes} (here : Inside image lba len)
      (hr : r ∈ dirRecords (extent image lba len)) (hc : recordMatches c r = true)
      (rest : Reached image (location r).1 (max (location r).2 ISO_SECTOR) cs data) :
      Reached image lba len (c :: cs) data

/-- An extent that was read lies in the image. -/
theorem readExtent_eq_ok {lba len : Nat} {data : Bytes} (h : readExtent image lba len = .ok data) :
    Inside image lba len ∧ data = extent image lba len := by
  unfold readExtent at h
  split at h
  · rename_i hin
    cases h
    exact ⟨hin, rfl⟩
  · cases h

/-- What is found is a record of the directory. -/
theorem find_eq_ok {dir c : Bytes} {l : Nat × Nat} (h : find dir c = .ok l) :
    ∃ r ∈ dirRecords dir, recordMatches c r = true ∧ l = location r := by
  unfold find at h
  split at h
  · rename_i r hr
    cases h
    exact ⟨r, List.mem_of_find?_eq_some hr, List.find?_some hr, rfl⟩
  · cases h

/-- What the walk reads is reached by the path. -/
theorem reached_of_findInDir (fuel : Nat) {lba len : Nat} {target data : Bytes}
    (hfuel : target.length < fuel) (h : findInDir image lba len target = .ok data) :
    Reached image lba len (target.splitOn 47) data := by
  induction fuel generalizing lba len target with
  | zero => omega
  | succ fuel ih =>
    cases hs : splitOnce 47 target with
    | none =>
      rw [findInDir_none hs] at h
      obtain ⟨dir, hdir, h⟩ := bind_eq_ok.mp h
      obtain ⟨l, hl, h⟩ := bind_eq_ok.mp h
      obtain ⟨here, rfl⟩ := readExtent_eq_ok hdir
      obtain ⟨r, hr, hc, rfl⟩ := find_eq_ok hl
      obtain ⟨hin, rfl⟩ := readExtent_eq_ok h
      rw [splitOn_of_splitOnce_none hs]
      exact .file here hr hc hin
    | some parts =>
      obtain ⟨head, tail⟩ := parts
      rw [findInDir_some hs] at h
      obtain ⟨dir, hdir, h⟩ := bind_eq_ok.mp h
      obtain ⟨l, hl, h⟩ := bind_eq_ok.mp h
      obtain ⟨here, rfl⟩ := readExtent_eq_ok hdir
      obtain ⟨r, hr, hc, rfl⟩ := find_eq_ok hl
      have hless := length_of_splitOnce hs
      rw [splitOn_of_splitOnce hs]
      exact .dir here hr hc (ih (by omega) h)

end

end CdjEmu.Iso
