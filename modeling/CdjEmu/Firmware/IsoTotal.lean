/-
  READING ANY IMAGE — the ISO 9660 reader with its checks.

  Every index, range, sum and product of the reader is checked here, and the walk over the records
  runs on fuel.  No check fails and the two readers agree (`readIsoFileAt_eq`).  Two facts carry it:
  the record walk only gives records of at least 33 octets, which the fields are read from
  (`isRecord_of_mem`), and it never stands still.

  1. **Program** — each function of the reader once more with its checks: `None` of `checked_add` is
     an error of the source's own, `none` is a stop.

  2. **Specification** — `Firmware/Iso` has it: `Reached` says how a file is found that was read,
     `Leads` when a path must be found, both by records of the directories on the way; `Packed` is a
     directory whose records stand one behind another.

  3. **The crux (`findInDirAt_eq`)** — the walk down a path, by induction on the path: what is
     handed down are a place and a length of 32 bits, and the product with the sector's size stays
     within 64.

  4. **Bridge** — the sample image is read field by field, so that a path with two parts is followed
     to its file without evaluating forty thousand octets.
-/
import CdjEmu.Firmware.Iso
import CdjEmu.Lib.Words

namespace CdjEmu.Iso

open Text Checked

/-! ## The reader, checked -/

/-- `le32`. -/
def le32At (b : Bytes) (i : Nat) : Option Nat := do
  let w ← range b i (← add i 4)
  pure (word32Le w)

/-- `root_extent`. -/
def rootExtentAt (image : Bytes) : Steps ExtractError (Nat × Nat) := do
  let start ← mul PVD_LBA ISO_SECTOR
  if image.length < start + ISO_SECTOR then throw .io
  else do
    let pvd ← range image start (← add start ISO_SECTOR)
    let kind ← range pvd 0 1
    let magic ← range pvd 1 6
    if kind ≠ [1] ∨ magic ≠ bytes "CD001" then
      throw (.badIso "not an ISO 9660 primary volume descriptor")
    else do
      let lba ← le32At pvd 158
      let len ← le32At pvd 166
      pure (lba, len)

/-- `extent_len`: the sums are checked by the source. -/
def extentLen (image : Bytes) (lba len : Nat) : Except ExtractError Nat :=
  match (mul lba ISO_SECTOR).bind fun start => add start len with
  | some stop =>
    if stop ≤ image.length then .ok len
    else .error (.badIso "extent runs past the end of the image")
  | none => .error (.badIso "extent runs past the end of the image")

/-- `read_extent`. -/
def readExtentAt (image : Bytes) (lba len : Nat) : Steps ExtractError Bytes := do
  let len ← extentLen image lba len
  let start ← mul lba ISO_SECTOR
  range image start (← add start len)

/-- `dir_records`, for at most so many steps. -/
def recordsAt (dir : Bytes) : Nat → Nat → Option (List Bytes)
  | 0, _ => none
  | fuel + 1, pos =>
    if pos < dir.length then do
      let c ← index dir pos
      if c.toNat = 0 then do
        let sector ← add (pos / ISO_SECTOR) 1
        recordsAt dir fuel (← mul sector ISO_SECTOR)
      else do
        let stop ← add pos c.toNat
        if dir.length < stop ∨ c.toNat < 33 then pure []
        else do
          let r ← range dir pos stop
          let rs ← recordsAt dir fuel stop
          pure (r :: rs)
    else pure []

/-- `record_name`. -/
def recordNameAt (r : Bytes) : Option (Option Bytes) := do
  let n ← index r 32
  let stop ← add 33 n.toNat
  if stop ≤ r.length then do
    let name ← range r 33 stop
    pure (some name)
  else pure none

/-- What the closure of `find_in_dir` gives for a record. -/
def findRecordAt (head r : Bytes) : Option (Option (Nat × Nat)) := do
  match ← recordNameAt r with
  | none => pure none
  | some name =>
    if namesMatch (if Valid name then name else []) head then do
      let lba ← le32At r 2
      let size ← le32At r 10
      pure (some (lba, size))
    else pure none

/-- What `dir_listing` gives for a record. -/
def listRecordAt (r : Bytes) : Option (Option Bytes) := do
  match ← recordNameAt r with
  | none => pure none
  | some raw =>
    if isSelfOrParent raw then pure none
    else do
      let flags ← index r 25
      pure (some (bytes (if flags &&& 0x02 ≠ 0 then "[D]" else "[F]") ++ lossy raw))

/-- The search among records. -/
def findFirstAt (head : Bytes) : List Bytes → Option (Option (Nat × Nat))
  | [] => pure none
  | r :: rs => do
    match ← findRecordAt head r with
    | some l => pure (some l)
    | none => findFirstAt head rs

/-- The search in one directory. -/
def findAt (dir head : Bytes) : Steps ExtractError (Nat × Nat) := do
  let rs ← recordsAt dir (dir.length + 1) 0
  match ← findFirstAt head rs with
  | some l => pure l
  | none => do
    let listing ← (rs.mapM listRecordAt : Option (List (Option Bytes)))
    throw (.fileNotFound head (listing.filterMap id))

/-- `find_in_dir`. -/
def findInDirAt (image : Bytes) (lba len : Nat) (target : Bytes) : Steps ExtractError Bytes := do
  let dir ← readExtentAt image lba len
  match _h : splitOnce 47 target with
  | some (head, tail) => do
    let (lba, size) ← findAt dir head
    findInDirAt image lba (max size ISO_SECTOR) tail
  | none => do
    let (lba, size) ← findAt dir target
    readExtentAt image lba size
termination_by target.length
decreasing_by exact length_of_splitOnce _h

/-- `read_iso_file`. -/
def readIsoFileAt (image name : Bytes) : Steps ExtractError Bytes := do
  let (rootLba, rootLen) ← rootExtentAt image
  findInDirAt image rootLba rootLen name

/-! ## No check fails -/

/-- A word inside its buffer is read by the checked reader as by the plain one. -/
theorem le32At_eq {b : Bytes} {i : Nat} (h : i + 4 ≤ b.length) (hi : i < 2 ^ 32) :
    le32At b i = some (le32 b i) := by
  rw [le32At, bind_of_eq (add_eq (by omega)), bind_of_eq (range_add h)]
  rfl

theorem word32Le_lt (b : Bytes) : word32Le b < 2 ^ 32 := by
  unfold word32Le
  split
  · rename_i a b c d
    have := a.toNat_lt
    have := b.toNat_lt
    have := c.toNat_lt
    have := d.toNat_lt
    omega
  · decide

/-- A place and a length have 32 bits. -/
theorem location_lt (r : Bytes) : (location r).1 < 2 ^ 32 ∧ (location r).2 < 2 ^ 32 :=
  ⟨word32Le_lt _, word32Le_lt _⟩

/-- What the walk gives are records, parts of the directory. -/
theorem isRecord_of_mem {dir r : Bytes} {pos : Nat} (h : r ∈ recordsFrom dir pos) :
    IsRecord r ∧ ∃ i, i + r.length ≤ dir.length ∧ r = slice dir i r.length := by
  fun_induction recordsFrom dir pos with
  | case1 pos hpos recLen hzero ih => exact ih h
  | case2 => cases h
  | case3 pos hpos recLen hzero hbad ih =>
    rcases List.mem_cons.mp h with rfl | h
    · have hmax : recLen < 256 := (dir.get ⟨pos, hpos⟩).toNat_lt
      have hlen : (slice dir pos recLen).length = recLen := length_slice (by omega)
      refine ⟨⟨by omega, by omega, ?_⟩, pos, by omega, by rw [hlen]⟩
      rw [hlen, List.head?_eq_getElem?, getElem?_slice, if_pos (by omega), Nat.add_zero,
        List.getElem?_eq_getElem hpos]
      exact congrArg some UInt8.ofNat_toNat.symm
    · exact ih h
  | case4 => cases h

/-- The walk over a directory stays within it. -/
theorem recordsAt_eq {dir : Bytes} (hsmall : dir.length < 2 ^ 63) {fuel pos : Nat}
    (hfuel : dir.length - pos < fuel) :
    recordsAt dir fuel pos = some (recordsFrom dir pos) := by
  induction fuel generalizing pos with
  | zero => omega
  | succ fuel ih =>
    rw [recordsAt, recordsFrom]
    by_cases hpos : pos < dir.length
    · rw [if_pos hpos, dif_pos hpos, bind_of_eq (index_eq hpos)]
      dsimp only
      rw [List.get_eq_getElem]
      have hlen := (dir[pos]).toNat_lt
      by_cases hzero : (dir[pos]).toNat = 0
      · have hle : (pos / ISO_SECTOR + 1) * ISO_SECTOR ≤ pos + 2048 := by
          unfold ISO_SECTOR
          omega
        have hgt : pos < (pos / ISO_SECTOR + 1) * ISO_SECTOR := by
          unfold ISO_SECTOR
          omega
        have hdiv := Nat.div_le_self pos ISO_SECTOR
        rw [if_pos hzero, if_pos hzero, bind_of_eq (add_eq (by omega)),
          bind_of_eq (mul_eq (by omega))]
        exact ih (by omega)
      · rw [if_neg hzero, if_neg hzero, bind_of_eq (add_eq (by omega))]
        by_cases hbad : dir.length < pos + (dir[pos]).toNat ∨ (dir[pos]).toNat < 33
        · rw [if_pos hbad, if_pos hbad]
          rfl
        · rw [if_neg hbad, if_neg hbad, bind_of_eq (range_add (by omega)),
            bind_of_eq (ih (by omega))]
          rfl
    · rw [if_neg hpos, dif_neg hpos]
      rfl

theorem index_octet {r : Bytes} {i : Nat} (h : i < r.length) : index r i = some (octet r i) := by
  rw [index_eq h, octet, List.getD_eq_getElem _ _ h]

/-- So does a record's name. -/
theorem recordNameAt_eq {r : Bytes} (h : 33 ≤ r.length) : recordNameAt r = some (recordName r) := by
  have hn := (octet r 32).toNat_lt
  rw [recordNameAt, recordName, bind_of_eq (index_octet (by omega)), bind_of_eq (add_eq (by omega))]
  by_cases hfit : 33 + (octet r 32).toNat ≤ r.length
  · rw [if_pos hfit, if_pos hfit, bind_of_eq (range_add hfit)]
    rfl
  · rw [if_neg hfit, if_neg hfit]
    rfl

/-- A record is looked at as far as its name goes. -/
theorem findRecordAt_eq {r : Bytes} (head : Bytes) (h : 33 ≤ r.length) :
    findRecordAt head r = some (if recordMatches head r then some (location r) else none) := by
  rw [findRecordAt, recordMatches, bind_of_eq (recordNameAt_eq h)]
  cases recordName r with
  | none => rfl
  | some name =>
    dsimp only
    by_cases hm : namesMatch (if Valid name then name else []) head = true
    · rw [if_pos hm, if_pos hm, bind_of_eq (le32At_eq (by omega) (by omega)),
        bind_of_eq (le32At_eq (by omega) (by omega))]
      rfl
    · rw [if_neg hm, if_neg hm]
      rfl

theorem findFirstAt_eq {rs : List Bytes} (head : Bytes) (h : ∀ r ∈ rs, 33 ≤ r.length) :
    findFirstAt head rs = some ((rs.find? (recordMatches head)).map location) := by
  induction rs with
  | nil => rfl
  | cons r rs ih =>
    rw [findFirstAt, bind_of_eq (findRecordAt_eq head (h r List.mem_cons_self)), List.find?_cons]
    cases recordMatches head r with
    | true => rfl
    | false => exact ih fun q hq => h q (List.mem_cons_of_mem _ hq)

theorem listRecordAt_eq {r : Bytes} (h : 33 ≤ r.length) :
    listRecordAt r = some (match recordName r with
      | some raw =>
        if isSelfOrParent raw then none else
          some (bytes (if isDirRecord r then "[D]" else "[F]") ++ lossy raw)
      | none => none) := by
  rw [listRecordAt, bind_of_eq (recordNameAt_eq h)]
  cases recordName r with
  | none => rfl
  | some raw =>
    dsimp only
    by_cases hself : isSelfOrParent raw = true
    · rw [if_pos hself, if_pos hself]
      rfl
    · rw [if_neg hself, if_neg hself, bind_of_eq (index_octet (by omega)), isDirRecord]
      simp only [decide_eq_true_eq]
      rfl

/-- A name is looked for in a directory. -/
theorem findAt_eq {dir : Bytes} (hsmall : dir.length < 2 ^ 63) (head : Bytes) :
    findAt dir head = some (find dir head) := by
  have hmin : ∀ r ∈ dirRecords dir, 33 ≤ r.length := fun r hr => (isRecord_of_mem hr).1.1
  unfold findAt find
  rw [Steps.lift_bind (recordsAt_eq hsmall (by omega)), ← dirRecords,
    Steps.lift_bind (findFirstAt_eq head hmin)]
  cases (dirRecords dir).find? (recordMatches head) with
  | some r => rfl
  | none =>
    dsimp only [Option.map_none]
    rw [Steps.lift_bind (mapM_eq fun r hr => listRecordAt_eq (hmin r hr)), List.filterMap_map]
    rfl

section

variable {image : Bytes} (hsmall : image.length < 2 ^ 63)

include hsmall

omit hsmall in
/-- The place of the root directory. -/
theorem rootExtentAt_eq : rootExtentAt image = some (rootExtent image) := by
  have hsize : ISO_SECTOR = 2048 := rfl
  have hstart : PVD_LBA * ISO_SECTOR = 32768 := rfl
  unfold rootExtentAt rootExtent
  rw [Steps.lift_bind (mul_eq (by omega))]
  refine Steps.refines_ite (fun _ => rfl) fun hlong => ?_
  have hlen : (slice image (PVD_LBA * ISO_SECTOR) ISO_SECTOR).length = 2048 :=
    length_slice (by omega)
  rw [Steps.lift_bind (add_eq (by omega)), Steps.lift_bind (range_add (by omega)),
    Steps.lift_bind (range_eq (by omega) (by omega)),
    Steps.lift_bind (range_eq (by omega) (by omega))]
  refine Steps.refines_ite (fun _ => rfl) fun _ => ?_
  rw [Steps.lift_bind (le32At_eq (by omega) (by omega)),
    Steps.lift_bind (le32At_eq (by omega) (by omega))]
  rfl

/-- A file's extent; its end is computed in 64 bits and then tested. -/
theorem readExtentAt_eq {lba len : Nat} (hlba : lba < 2 ^ 32) (hlen : len < 2 ^ 33) :
    readExtentAt image lba len = some (readExtent image lba len) := by
  have hmul : lba * ISO_SECTOR < 2 ^ 43 := by
    unfold ISO_SECTOR
    omega
  unfold readExtentAt extentLen readExtent
  rw [mul_eq (by omega), Option.bind_some, add_eq (by omega)]
  dsimp only
  by_cases hin : Inside image lba len
  · have hin' : lba * ISO_SECTOR + len ≤ image.length := hin
    rw [if_pos hin', if_pos hin]
    rw [Steps.ok_bind, Steps.lift_bind rfl, Steps.lift_bind (add_eq (by omega)), range_add hin']
    rfl
  · have hout : ¬ lba * ISO_SECTOR + len ≤ image.length := hin
    rw [if_neg hout, if_neg hin]
    rfl

omit hsmall in
/-- The checked walk at the last part of a path. -/
theorem findInDirAt_none {target : Bytes} (h : splitOnce 47 target = none) (lba len : Nat) :
    findInDirAt image lba len target = (do
      let dir ← readExtentAt image lba len
      let l ← findAt dir target
      readExtentAt image l.1 l.2) := by
  rw [findInDirAt]
  refine congrArg _ (funext fun dir => ?_)
  split
  · rename_i hs
    rw [h] at hs
    cases hs
  · rfl

omit hsmall in
/-- A part with more behind it. -/
theorem findInDirAt_some {target head tail : Bytes} (h : splitOnce 47 target = some (head, tail))
    (lba len : Nat) :
    findInDirAt image lba len target = (do
      let dir ← readExtentAt image lba len
      let l ← findAt dir head
      findInDirAt image l.1 (max l.2 ISO_SECTOR) tail) := by
  rw [findInDirAt]
  refine congrArg _ (funext fun dir => ?_)
  split
  · rename_i hs
    rw [h] at hs
    cases hs
    rfl
  · rename_i hs
    rw [h] at hs
    cases hs

/-- So the whole walk never leaves the image. -/
theorem findInDirAt_eq (fuel : Nat) {lba len : Nat} (target : Bytes) (hfuel : target.length < fuel)
    (hlba : lba < 2 ^ 32) (hlen : len < 2 ^ 33) :
    findInDirAt image lba len target = some (findInDir image lba len target) := by
  induction fuel generalizing lba len target with
  | zero => omega
  | succ fuel ih =>
    have hread : ∀ {lba len : Nat} {dir : Bytes}, readExtent image lba len = .ok dir →
        dir.length < 2 ^ 63 := by
      intro lba len dir hdir
      obtain ⟨-, rfl⟩ := readExtent_eq_ok hdir
      have hle := (List.take_sublist len (image.drop (lba * ISO_SECTOR))).length_le
      rw [List.length_drop] at hle
      unfold extent slice
      omega
    cases hs : splitOnce 47 target with
    | none =>
      rw [findInDirAt_none hs, findInDir_none hs]
      refine Steps.refines_bind (readExtentAt_eq hsmall hlba hlen) fun dir hdir => ?_
      refine Steps.refines_bind (findAt_eq (hread hdir) target) fun l hl => ?_
      obtain ⟨r, -, -, rfl⟩ := find_eq_ok hl
      have hlow := location_lt r
      exact readExtentAt_eq hsmall hlow.1 (by omega)
    | some parts =>
      obtain ⟨head, tail⟩ := parts
      rw [findInDirAt_some hs, findInDir_some hs]
      refine Steps.refines_bind (readExtentAt_eq hsmall hlba hlen) fun dir hdir => ?_
      refine Steps.refines_bind (findAt_eq (hread hdir) head) fun l hl => ?_
      obtain ⟨r, -, -, rfl⟩ := find_eq_ok hl
      have hlow := location_lt r
      have hless := length_of_splitOnce hs
      have hsize : ISO_SECTOR = 2048 := rfl
      exact ih tail (by omega) hlow.1 (by omega)

omit hsmall in
theorem rootExtent_lt {l : Nat × Nat} (h : rootExtent image = .ok l) :
    l.1 < 2 ^ 32 ∧ l.2 < 2 ^ 32 := by
  obtain ⟨-, h⟩ := check_eq_ok.mp h
  obtain ⟨-, h⟩ := check_eq_ok.mp h
  cases h
  exact ⟨word32Le_lt _, word32Le_lt _⟩

/-- The checked reader does what `readIsoFile` does. -/
theorem readIsoFileAt_eq (name : Bytes) :
    readIsoFileAt image name = some (readIsoFile image name) := by
  unfold readIsoFileAt readIsoFile
  refine Steps.refines_bind rootExtentAt_eq fun l hl => ?_
  have hlow := rootExtent_lt hl
  exact findInDirAt_eq hsmall _ name (Nat.lt_succ_self _) hlow.1 (by omega)

end

/-- **The reader on any image**: no check fails; a file that it finds is the extent of a record,
    reached through records of the path's names; and where directories pack their records, the walk
    gives these and every path that leads to a file is followed to it. -/
theorem readIsoFileAt_total (s : Slice) (name : Bytes) :
    (∃ r, readIsoFileAt s.octets name = some r ∧
      (∀ data, r = .ok data → ∃ lba len, rootExtent s.octets = .ok (lba, len) ∧
        Reached s.octets lba len (name.splitOn 47) data) ∧
      ∀ lba len data, rootExtent s.octets = .ok (lba, len) →
      Leads s.octets lba len (name.splitOn 47) data → r = .ok data) ∧
    ∀ dir rs, Packed dir rs → dirRecords dir = rs := by
  refine ⟨⟨_, readIsoFileAt_eq s.small name, ?_, ?_⟩, fun dir rs => dirRecords_packed⟩
  · intro data hok
    obtain ⟨⟨lba, len⟩, hroot, hok⟩ := bind_eq_ok.mp hok
    exact ⟨lba, len, hroot, reached_of_findInDir _ (Nat.lt_succ_self _) hok⟩
  · intro lba len data hroot hleads
    exact bind_eq_ok.mpr ⟨_, hroot, findInDir_leads hleads rfl (.inl rfl)⟩

/-! ## An image with one file -/

/-- A sector that starts with `b`. -/
def padded (b : Bytes) : Bytes := b ++ List.replicate (ISO_SECTOR - b.length) 0

/-- A directory record for the extent at `lba`, of the little-endian size given; the
    flags tell a directory. -/
def recordOf (lba : UInt8) (size : Bytes) (flags : UInt8) (name : Bytes) : Bytes :=
  let body := [0, lba, 0, 0, 0, 0, 0, 0, lba] ++ size ++ size.reverse ++
      [124, 1, 1, 0, 0, 0, 0, flags, 0, 0, 1, 0, 0, 1] ++
    [UInt8.ofNat name.length] ++ name
  UInt8.ofNat (body.length + 1) :: body

def sectorSize : Bytes := [0, 8, 0, 0]

def fileSize : Bytes := [5, 0, 0, 0]

/-- A small image: a folder with one file. -/
def bootRecord : Bytes := recordOf 18 sectorSize 2 (bytes "BOOT")

def updateRecord : Bytes := recordOf 19 fileSize 0 (bytes "UPDATE.IMG;1")

/-- The records of its two directories. -/
def rootRecords : List Bytes :=
  [recordOf 17 sectorSize 2 [0], recordOf 17 sectorSize 2 [1], bootRecord]

def bootRecords : List Bytes :=
  [recordOf 18 sectorSize 2 [0], recordOf 17 sectorSize 2 [1], updateRecord]

/-- Sixteen sectors of nothing, the volume descriptor, the root, the directory
    BOOT and the file in it. -/
def sampleSectors : List Bytes :=
  List.replicate 16 (List.replicate ISO_SECTOR 0) ++
    [padded ([1] ++ bytes "CD001" ++ List.replicate 150 0 ++ recordOf 17 sectorSize 2 [0]),
      padded rootRecords.flatten, padded bootRecords.flatten, padded (bytes "hello")]

/-- The image, sector by sector. -/
def sampleImage : Bytes := sampleSectors.flatten

theorem length_sampleSector : ∀ r ∈ sampleSectors, r.length = ISO_SECTOR := by decide +kernel

theorem length_sampleImage : sampleImage.length = 20 * ISO_SECTOR := by
  have hall : sampleSectors.map List.length = List.replicate 20 ISO_SECTOR := by decide +kernel
  rw [sampleImage, List.length_flatten, hall, List.sum_replicate, smul_eq_mul]

/-- Each of its sectors is the extent at that sector's number. -/
theorem sampleExtent {n : Nat} {row : Bytes} (h : sampleSectors[n]? = some row) :
    extent sampleImage n ISO_SECTOR = row :=
  slice_row length_sampleSector h

/-- A directory of it is packed with its records. -/
theorem sampleDirectory {n : Nat} {rs : List Bytes}
    (h : sampleSectors[n]? = some (padded rs.flatten)) (hrs : ∀ r ∈ rs, IsRecord r)
    (hlen : rs.flatten.length ≤ ISO_SECTOR) (hn : n < 20) :
    Directory sampleImage n ISO_SECTOR rs where
  inside := by
    unfold Inside
    rw [length_sampleImage]
    unfold ISO_SECTOR
    omega
  packed := by
    rw [sampleExtent h]
    exact .last hrs (by omega)
  filled k hlow hhigh := by omega

instance (r : Bytes) : Decidable (IsRecord r) := inferInstanceAs (Decidable (_ ∧ _ ∧ _))

/-- Its root directory is the sector behind the descriptor. -/
theorem rootExtent_sampleImage : rootExtent sampleImage = .ok (17, ISO_SECTOR) := by
  have hpvd : slice sampleImage (PVD_LBA * ISO_SECTOR) ISO_SECTOR = _ := sampleExtent (n := 16) rfl
  rw [rootExtent, length_sampleImage, if_neg (by decide), hpvd]
  decide

/-- From the root the path goes to BOOT, and from there to the file. -/
theorem sample_leads :
    Leads sampleImage 17 ISO_SECTOR [bytes "boot", bytes "update.img"] (bytes "hello") := by
  have hfile : extent sampleImage (location updateRecord).1 (location updateRecord).2 =
      bytes "hello" := by
    have hrow : extent sampleImage 19 ISO_SECTOR = padded (bytes "hello") := sampleExtent rfl
    have hloc : location updateRecord = (19, 5) := by decide
    rw [hloc, extent, show 19 * ISO_SECTOR = 19 * ISO_SECTOR + 0 from rfl,
      ← slice_slice (n := ISO_SECTOR) (by decide), ← extent, hrow]
    decide
  rw [← hfile]
  have hroot : Directory sampleImage 17 ISO_SECTOR rootRecords :=
    sampleDirectory rfl (by decide) (by decide) (by decide)
  have hboot : Directory sampleImage (location bootRecord).1 (location bootRecord).2 bootRecords :=
    sampleDirectory rfl (by decide) (by decide) (by decide)
  refine .dir hroot (r := bootRecord) (by decide) (.file hboot (by decide) ?_)
  unfold Inside
  rw [length_sampleImage]
  decide

/-- The file is found under its name in small letters, and without its version. -/
theorem update_found :
    readIsoFileAt sampleImage (bytes "boot/update.img") = some (.ok (bytes "hello")) := by
  have hsmall : sampleImage.length < 2 ^ 63 := by
    rw [length_sampleImage]
    decide
  obtain ⟨⟨r, hr, -, hleads⟩, -⟩ :=
    readIsoFileAt_total ⟨sampleImage, hsmall⟩ (bytes "boot/update.img")
  have hpath : (bytes "boot/update.img").splitOn 47 = [bytes "boot", bytes "update.img"] := by
    decide
  rw [hr, hleads 17 ISO_SECTOR (bytes "hello") rootExtent_sampleImage
    (by rw [hpath]; exact sample_leads)]

end CdjEmu.Iso
