/-
  THE PARTITION TABLE — writing a GPT to a disk, and a reader of it.

  1. **The writer** — `writeGpt` puts five things on a disk of `diskSectors` sectors: the protective
     MBR, the primary header and the primary entries at its start, the backup entries and the backup
     header at its end.  Sector arithmetic is checked: a subtraction below zero or a product beyond
     64 bits is a panic.
  2. **The reader** — `readHeader` and `readEntries` follow the layout a firmware expects:
     signature, sizes, both CRCs, the header's own place; an entry with an all-zero type is none.
  3. **The law** — `gpt_read_back`: what is written is read, at both ends.

  The five regions do not overlap from 68 sectors on, so each is read as it was written; a header is
  read from the list of its fields.

  What the checks need of a disk is its number of sectors; `diskSectors` below 68 leaves no room for
  both tables and a partition, and the writer stops in its arithmetic for small ones.  CRC-32 is the
  table's polynomial, computed octet by octet, so that both sides compute the same and the reader's
  test is a real one.
-/
import CdjEmu.Lib.Chars
import CdjEmu.Lib.Words

namespace CdjEmu.Gpt

def SECTOR : Nat := 512

/-- The place of the header, of the table behind it, and their sizes. -/
def GPT_HEADER_LBA : Nat := 1

def GPT_ENTRIES_LBA : Nat := 2

def GPT_ENTRY_SIZE : Nat := 128

def GPT_MAX_ENTRIES : Nat := 128

/-- Sectors consumed by the entry table. -/
def GPT_ENTRY_TABLE_SECTORS : Nat := GPT_MAX_ENTRIES * GPT_ENTRY_SIZE / SECTOR

def GPT_BACKUP_RESERVED_SECTORS : Nat := 1 + GPT_ENTRY_TABLE_SECTORS

def GPT_FIRST_USABLE_LBA : Nat := GPT_ENTRIES_LBA + GPT_ENTRY_TABLE_SECTORS

/-- A GUID as it is stored. -/
abbrev Guid := Vector UInt8 16

/-- A GUID's 16-octet form: the first three numbers little-endian. -/
def guidToMixed (d1 : UInt32) (d2 d3 : UInt16) (d4 : Vector UInt8 8) : Guid :=
  ⟨⟨toLe 4 d1.toNat ++ toLe 2 d2.toNat ++ toLe 2 d3.toNat ++ d4.toList⟩, by simp⟩

/-- The type of the partitions. -/
def TYPE_LINUX_DATA : Guid :=
  guidToMixed 0x0FC63DAF 0x8483 0x4772 #v[0x8E, 0x79, 0x3D, 0x69, 0xD8, 0x47, 0x7D, 0xE4]

/-- A partition to be written. -/
structure PartEntry where
  typeGuid : Guid
  partGuid : Guid
  firstLba : UInt64
  lastLba : UInt64
  attrs : UInt64
  name : Chars

/-! ## The writer -/

/-- `a - b` of a `u64`, which panics below zero. -/
def checkedSub (a b : Nat) : Option Nat := if b ≤ a then some (a - b) else none

/-- `a * b` of a `u64`, which panics beyond 64 bits. -/
def checkedMul (a b : Nat) : Option Nat := if a * b < 2 ^ 64 then some (a * b) else none

/-- `str::encode_utf16`. -/
def encodeUtf16 (s : Chars) : List UInt16 :=
  s.flatMap fun c =>
    if c.toNat < 0x10000 then [UInt16.ofNat c.toNat]
    else [UInt16.ofNat (0xD800 + (c.toNat - 0x10000) / 0x400),
      UInt16.ofNat (0xDC00 + (c.toNat - 0x10000) % 0x400)]

/-- The protective MBR: one partition of type 0xEE over the whole disk, and the signature. -/
def protectiveMbr (diskSectors : Nat) : Bytes :=
  [List.replicate 450 0, [0xEE, 0, 0, 0], toLe 4 1, toLe 4 (min (diskSectors - 1) 0xFFFFFFFF),
    List.replicate 48 0, [0x55, 0xAA]].flatten

/-- A name in UTF-16LE, padded with NUL to 36 units. -/
def nameUnits (name : Chars) : List UInt16 :=
  (encodeUtf16 name).take 36 ++ List.replicate (36 - ((encodeUtf16 name).take 36).length) 0

/-- The fields of its entry, in order. -/
def entryFields (p : PartEntry) : List Bytes :=
  [p.typeGuid.toList, p.partGuid.toList, toLe 8 p.firstLba.toNat, toLe 8 p.lastLba.toNat,
    toLe 8 p.attrs.toNat, (nameUnits p.name).flatMap fun u => toLe 2 u.toNat]

/-- The partition entry array: `partitions` followed by empty entries. -/
def entryTable (partitions : List PartEntry) : Bytes :=
  (partitions.map (fun p => (entryFields p).flatten) ++
    List.replicate (GPT_MAX_ENTRIES - partitions.length) (List.replicate GPT_ENTRY_SIZE 0)).flatten

/-- The fields of a header, the fourth its CRC. -/
def headerFields (crc myLba alternateLba entriesStartLba lastUsableLba entriesCrc : Nat)
    (diskGuid : Guid) : List Bytes :=
  [bytes "EFI PART", [0, 0, 1, 0], toLe 4 92, toLe 4 crc, toLe 4 0, toLe 8 myLba,
    toLe 8 alternateLba, toLe 8 GPT_FIRST_USABLE_LBA, toLe 8 lastUsableLba, diskGuid.toList,
    toLe 8 entriesStartLba, toLe 4 GPT_MAX_ENTRIES,
    toLe 4 GPT_ENTRY_SIZE, toLe 4 entriesCrc]

/-- A header: the CRC is taken with its own field zero and then filled in. -/
def buildHeader (myLba alternateLba entriesStartLba diskSectors : Nat) (entriesCrc : UInt32)
    (diskGuid : Guid) :
    Option Bytes := do
  let lastUsableLba ← (checkedSub diskSectors GPT_BACKUP_RESERVED_SECTORS).bind (checkedSub · 1)
  let h := (headerFields 0 myLba alternateLba entriesStartLba lastUsableLba entriesCrc.toNat
      diskGuid).flatten
  let h := splice h 16 (toLe 4 (crc32 h).toNat)
  some (h ++ List.replicate (SECTOR - 92) 0)

/-- Write a complete GPT to `disk`; `none` is a panic. -/
def writeGpt (disk : Bytes) (diskSectors : Nat) (partitions : List PartEntry) (diskGuid : Guid) :
    Option Bytes := do
  if ¬ partitions.length ≤ GPT_MAX_ENTRIES then none
  let disk := splice disk 0 (protectiveMbr diskSectors)
  let entryBuf := entryTable partitions
  let entriesCrc := crc32 entryBuf
  let disk := splice disk (GPT_ENTRIES_LBA * SECTOR) entryBuf
  let backupEntriesLba ← checkedSub diskSectors GPT_BACKUP_RESERVED_SECTORS
  let backupEntriesAt ← checkedMul backupEntriesLba SECTOR
  let disk := splice disk backupEntriesAt entryBuf
  let lastLba ← checkedSub diskSectors 1
  let primary ← buildHeader GPT_HEADER_LBA lastLba GPT_ENTRIES_LBA diskSectors entriesCrc diskGuid
  let disk := splice disk (GPT_HEADER_LBA * SECTOR) primary
  let backup ← buildHeader lastLba GPT_HEADER_LBA backupEntriesLba diskSectors entriesCrc diskGuid
  let lastAt ← checkedMul lastLba SECTOR
  some (splice disk lastAt backup)

/-! ## The reader -/

/-- A header as it is read. -/
structure Header where
  myLba : Nat
  alternateLba : Nat
  firstUsable : Nat
  lastUsable : Nat
  diskGuid : Bytes
  entriesLba : Nat
  entryCount : Nat
  entrySize : Nat
  entriesCrc : Nat

/-- The header at `lba`: signature, size, CRC with its own field zero, and its own place. -/
def readHeader (disk : Bytes) (lba : Nat) : Option Header :=
  let s := slice disk (lba * SECTOR) SECTOR
  let size := le s 12 4
  if slice s 0 8 = bytes "EFI PART" ∧ 92 ≤ size ∧ size ≤ SECTOR ∧
      (crc32 (splice (slice s 0 size) 16 [0, 0, 0, 0])).toNat = le s 16 4 ∧ le s 24 8 = lba then
    some
      { myLba := le s 24 8
        alternateLba := le s 32 8
        firstUsable := le s 40 8
        lastUsable := le s 48 8
        diskGuid := slice s 56 16
        entriesLba := le s 72 8
        entryCount := le s 80 4
        entrySize := le s 84 4
        entriesCrc := le s 88 4 }
  else none

/-- An entry as it is read. -/
structure Entry where
  typeGuid : Bytes
  partGuid : Bytes
  firstLba : Nat
  lastLba : Nat
  attrs : Nat
  /-- The 36 units of the name field. -/
  units : List UInt16

/-- The name: the units before the first NUL. -/
def Entry.name (e : Entry) : List UInt16 := e.units.takeWhile (· ≠ 0)

/-- An entry; one without a type is not in use. -/
def readEntry (e : Bytes) : Option Entry :=
  if slice e 0 16 = List.replicate 16 0 then none
  else
    some
      { typeGuid := slice e 0 16
        partGuid := slice e 16 16
        firstLba := le e 32 8
        lastLba := le e 40 8
        attrs := le e 48 8
        units := (List.range 36).map fun j => UInt16.ofNat (le e (56 + 2 * j) 2) }

/-- The table that the header points at, if its CRC is the header's. -/
def entriesOf (disk : Bytes) (h : Header) : Option Bytes :=
  let table := slice disk (h.entriesLba * SECTOR) (h.entryCount * h.entrySize)
  if (crc32 table).toNat = h.entriesCrc then some table else none

/-- The entries that a header points to. -/
def readEntries (disk : Bytes) (h : Header) : Option (List Entry) :=
  (entriesOf disk h).map fun table =>
    (List.range h.entryCount).filterMap fun i =>
      readEntry (slice table (i * h.entrySize) h.entrySize)

/-- A partition as a reader finds it. -/
def PartEntry.entry (p : PartEntry) : Entry where
  typeGuid := p.typeGuid.toList
  partGuid := p.partGuid.toList
  firstLba := p.firstLba.toNat
  lastLba := p.lastLba.toNat
  attrs := p.attrs.toNat
  units := nameUnits p.name

/-! ## Entries -/

/-- A name has 36 units, whatever its length. -/
theorem length_nameUnits (name : Chars) : (nameUnits name).length = 36 := by
  rw [nameUnits, List.length_append, List.length_replicate, List.length_take]
  omega

/-- A name without NUL is read up to its 36th unit. -/
theorem name_of_nul_free {p : PartEntry} (h : 0 ∉ (encodeUtf16 p.name).take 36) :
    p.entry.name = (encodeUtf16 p.name).take 36 := by
  show ((encodeUtf16 p.name).take 36 ++ List.replicate _ 0).takeWhile _ = _
  rw [List.takeWhile_append_of_pos]
  · rw [List.takeWhile_replicate]
    simp
  · intro u hu
    have hne : u ≠ 0 := fun he => h (he ▸ hu)
    simpa using hne

theorem length_unitOctets (units : List UInt16) :
    (units.flatMap fun u => toLe 2 u.toNat).length = 2 * units.length := by
  induction units with
  | nil => rfl
  | cons u units ih =>
    rw [List.flatMap_cons, List.length_append, length_toLe, ih, List.length_cons]
    omega

/-- An entry has the size the header names. -/
theorem length_entry (p : PartEntry) : (entryFields p).flatten.length = GPT_ENTRY_SIZE := by
  simp [entryFields, length_nameUnits, GPT_ENTRY_SIZE]

/-- The units of a name field are read one by one. -/
theorem units_read (p : PartEntry) :
    ((List.range 36).map fun j => UInt16.ofNat (le (entryFields p).flatten (56 + 2 * j) 2)) =
      nameUnits p.name := by
  have hfield : slice (entryFields p).flatten 56 72 =
      ((nameUnits p.name).map fun u => toLe 2 u.toNat).flatten := by
    refine slice_field 5 56 rfl ?_ ?_
    · simp [entryFields]
    · rw [← List.flatMap_def, length_unitOctets, length_nameUnits]
  apply List.ext_getElem
  · rw [List.length_map, List.length_range, length_nameUnits]
  · intro j hj hj'
    rw [List.length_map, List.length_range] at hj
    have hrow : slice ((nameUnits p.name).map fun u => toLe 2 u.toNat).flatten (j * 2) 2 = toLe 2
        (nameUnits p.name)[j].toNat := by
      refine slice_row ?_ ?_
      · intro r hr
        obtain ⟨u, -, rfl⟩ := List.mem_map.mp hr
        exact length_toLe _ _
      · rw [List.getElem?_map, List.getElem?_eq_getElem hj']
        rfl
    rw [List.getElem_map, List.getElem_range, le, ← slice_slice (n := 72) (by omega), hfield,
      Nat.mul_comm 2 j, hrow, ofLe_toLe (by have := (nameUnits p.name)[j].toNat_lt; omega)]
    simp

/-- **An entry is read back.** -/
theorem readEntry_entry {p : PartEntry} (h : p.typeGuid.toList ≠ List.replicate 16 0) :
    readEntry (entryFields p).flatten = some p.entry := by
  have htype : slice (entryFields p).flatten 0 16 = p.typeGuid.toList :=
    slice_field 0 0 rfl rfl (by simp)
  have hpart : slice (entryFields p).flatten 16 16 = p.partGuid.toList :=
    slice_field 1 16 rfl (by simp [entryFields]) (by simp)
  have hword : ∀ (i at' : Nat) (v : UInt64), (entryFields p)[i]? = some (toLe 8 v.toNat) →
      ((entryFields p).take i).flatten.length = at' →
      le (entryFields p).flatten at' 8 = v.toNat := by
    intro i at' v hf hat
    rw [le, slice_field i at' hf hat (length_toLe _ _), ofLe_toLe (by have := v.toNat_lt; omega)]
  rw [readEntry, if_neg (by rw [htype]; exact h), htype, hpart, units_read,
    hword 2 32 p.firstLba rfl (by simp [entryFields]),
    hword 3 40 p.lastLba rfl (by simp [entryFields]),
    hword 4 48 p.attrs rfl (by simp [entryFields])]
  rfl

/-- An empty one is not in use. -/
theorem readEntry_empty : readEntry (List.replicate GPT_ENTRY_SIZE 0) = none := by
  rw [readEntry, if_pos (by decide)]

/-- The rows of the table: the partitions, and empty ones. -/
def rows (partitions : List PartEntry) : List Bytes :=
  partitions.map (fun p => (entryFields p).flatten) ++
    List.replicate (GPT_MAX_ENTRIES - partitions.length) (List.replicate GPT_ENTRY_SIZE 0)

theorem length_of_mem_rows {partitions : List PartEntry} :
    ∀ r ∈ rows partitions, r.length = GPT_ENTRY_SIZE := by
  intro r hr
  rcases List.mem_append.mp hr with hr | hr
  · obtain ⟨p, -, rfl⟩ := List.mem_map.mp hr
    exact length_entry p
  · rw [List.eq_of_mem_replicate hr, List.length_replicate]

theorem length_rows {partitions : List PartEntry} (h : partitions.length ≤ GPT_MAX_ENTRIES) :
    (rows partitions).length = GPT_MAX_ENTRIES := by
  rw [rows, List.length_append, List.length_map, List.length_replicate]
  omega

/-- The table has the size of all its entries. -/
theorem length_entryTable {partitions : List PartEntry} (h : partitions.length ≤ GPT_MAX_ENTRIES) :
    (entryTable partitions).length = GPT_MAX_ENTRIES * GPT_ENTRY_SIZE := by
  have hall : ∀ l ∈ (rows partitions).map List.length, l = GPT_ENTRY_SIZE := by
    intro l hl
    obtain ⟨r, hr, rfl⟩ := List.mem_map.mp hl
    exact length_of_mem_rows r hr
  show (rows partitions).flatten.length = _
  rw [List.length_flatten, List.eq_replicate_of_mem hall, List.sum_replicate, List.length_map,
    length_rows h, smul_eq_mul]

/-- **The table is read back**: the partitions in order, and no other entry. -/
theorem entries_read {partitions : List PartEntry} (h : partitions.length ≤ GPT_MAX_ENTRIES)
    (htype : ∀ p ∈ partitions, p.typeGuid.toList ≠ List.replicate 16 0) :
    ((List.range GPT_MAX_ENTRIES).filterMap fun i =>
      readEntry (slice (entryTable partitions) (i * GPT_ENTRY_SIZE) GPT_ENTRY_SIZE)) =
      partitions.map PartEntry.entry := by
  -- The entries that were written come first, and the rest of the table is empty.
  have hrows : (List.range GPT_MAX_ENTRIES).map
      (fun i => slice (entryTable partitions) (i * GPT_ENTRY_SIZE) GPT_ENTRY_SIZE) =
      rows partitions := by
    apply List.ext_getElem
    · rw [List.length_map, List.length_range, length_rows h]
    · intro i hi hi'
      rw [List.getElem_map, List.getElem_range]
      exact slice_row length_of_mem_rows (List.getElem?_eq_getElem hi')
  have hempty :
      (List.replicate (GPT_MAX_ENTRIES - partitions.length)
        (List.replicate GPT_ENTRY_SIZE 0)).filterMap readEntry = [] := by
    rw [List.filterMap_eq_nil_iff]
    intro r hr
    rw [List.eq_of_mem_replicate hr]
    exact readEntry_empty
  calc _ = ((List.range GPT_MAX_ENTRIES).map fun i =>
          slice (entryTable partitions) (i * GPT_ENTRY_SIZE) GPT_ENTRY_SIZE).filterMap
            readEntry := by
        rw [List.filterMap_map]
        rfl
    _ = (partitions.map fun p => (entryFields p).flatten).filterMap readEntry := by
        rw [hrows, rows, List.filterMap_append, hempty, List.append_nil]
    _ = partitions.filterMap fun p => some p.entry := by
        rw [List.filterMap_map]
        apply List.filterMap_congr
        intro p hp
        exact readEntry_entry (htype p hp)
    _ = partitions.map PartEntry.entry := by
        rw [← List.filterMap_eq_map]
        rfl

/-! ## Headers -/

section Headers

variable {my alternate entriesLba lastUsable entriesCrc : Nat} {guid : Guid}

/-- A header has 92 octets. -/
theorem length_headerFields (crc : Nat) :
    (headerFields crc my alternate entriesLba lastUsable entriesCrc guid).flatten.length = 92 := by
  simp [headerFields]
  decide

/-- A header's sector: its fields with the CRC filled in, and zeros. -/
def headerSector (my alternate entriesLba lastUsable entriesCrc : Nat) (guid : Guid) : Bytes :=
  (headerFields
    (crc32 (headerFields 0 my alternate entriesLba lastUsable entriesCrc guid).flatten).toNat
    my alternate entriesLba lastUsable entriesCrc guid).flatten ++ List.replicate 420 0

/-- What a reader takes from it. -/
def headerRead (my alternate entriesLba lastUsable entriesCrc : Nat) (guid : Guid) : Header where
  myLba := my
  alternateLba := alternate
  firstUsable := GPT_FIRST_USABLE_LBA
  lastUsable := lastUsable
  diskGuid := guid.toList
  entriesLba := entriesLba
  entryCount := GPT_MAX_ENTRIES
  entrySize := GPT_ENTRY_SIZE
  entriesCrc := entriesCrc

/-- Filling in the CRC replaces that field. -/
theorem fill_crc (c d : Nat) :
    splice (headerFields c my alternate entriesLba lastUsable entriesCrc guid).flatten 16
      (toLe 4 d) =
      (headerFields d my alternate entriesLba lastUsable entriesCrc guid).flatten :=
  splice_field 3 16 (f := toLe 4 c) rfl rfl rfl

/-- On a disk with room for both tables no sum overflows. -/
theorem buildHeader_eq {diskSectors : Nat} (h : GPT_BACKUP_RESERVED_SECTORS + 1 ≤ diskSectors)
    (crc : UInt32) :
    buildHeader my alternate entriesLba diskSectors crc guid =
      some (headerSector my alternate entriesLba (diskSectors - GPT_BACKUP_RESERVED_SECTORS - 1)
        crc.toNat guid) := by
  have hsub : (checkedSub diskSectors GPT_BACKUP_RESERVED_SECTORS).bind (checkedSub · 1) =
      some (diskSectors - GPT_BACKUP_RESERVED_SECTORS - 1) := by
    rw [checkedSub, if_pos (by omega), Option.bind_some, checkedSub, if_pos (by omega)]
  rw [buildHeader, hsub]
  simp only [bind, Option.bind, fill_crc]
  rfl

/-- It is one sector with what is behind them. -/
theorem length_headerSector :
    (headerSector my alternate entriesLba lastUsable entriesCrc guid).length = SECTOR := by
  rw [headerSector, List.length_append, length_headerFields, List.length_replicate]
  rfl

/-- **A header is read back.** -/
theorem readHeader_sector {disk : Bytes}
    (hs : slice disk (my * SECTOR) SECTOR = headerSector my alternate entriesLba lastUsable
      entriesCrc guid)
    (hmy : my < 2 ^ 64) (halternate : alternate < 2 ^ 64) (hentries : entriesLba < 2 ^ 64)
    (hlast : lastUsable < 2 ^ 64) (hcrc : entriesCrc < 2 ^ 32) :
    readHeader disk my = some (headerRead my alternate entriesLba lastUsable entriesCrc guid) := by
  obtain ⟨crc, hcrc'⟩ :
      ∃ crc, crc = crc32
        (headerFields 0 my alternate entriesLba lastUsable entriesCrc guid).flatten := ⟨_, rfl⟩
  have hsector : headerSector my alternate entriesLba lastUsable entriesCrc guid =
      (headerFields crc.toNat my alternate entriesLba lastUsable entriesCrc guid).flatten ++
        List.replicate 420 0 := by
    rw [hcrc']
    rfl
  have hlen : (headerFields crc.toNat my alternate entriesLba lastUsable entriesCrc
      guid).flatten.length = 92 :=
    length_headerFields _
  -- a field of the header, and its value when it is a word
  have hfield : ∀ (i at' n : Nat) (f : Bytes),
      (headerFields crc.toNat my alternate entriesLba lastUsable entriesCrc guid)[i]? = some f →
      ((headerFields crc.toNat my alternate entriesLba lastUsable entriesCrc guid).take
        i).flatten.length = at' →
      f.length = n → at' + n ≤ 92 →
      slice (headerSector my alternate entriesLba lastUsable entriesCrc guid) at' n = f := by
    intro i at' n f hf hat hn hin
    rw [hsector, slice_append_left _ (by omega), slice_field i at' hf hat hn]
  have hword : ∀ (i at' n v : Nat),
      (headerFields crc.toNat my alternate entriesLba lastUsable entriesCrc guid)[i]? =
        some (toLe n v) →
      ((headerFields crc.toNat my alternate entriesLba lastUsable entriesCrc guid).take
        i).flatten.length = at' →
      at' + n ≤ 92 → v < 256 ^ n →
      le (headerSector my alternate entriesLba lastUsable entriesCrc guid) at' n = v := by
    intro i at' n v hf hat hin hv
    rw [le, hfield i at' n _ hf hat (length_toLe _ _) hin, ofLe_toLe hv]
  have hguid : ∀ k,
      ((headerFields crc.toNat my alternate entriesLba lastUsable entriesCrc guid).take
        (10 + k)).flatten.length =
      72 + ((headerFields crc.toNat my alternate entriesLba lastUsable entriesCrc guid).drop 10
        |>.take k).flatten.length := by
    intro k
    rw [List.take_add, List.flatten_append, List.length_append]
    congr 1
    simp [headerFields]
    decide
  have hbytes := hword 2 12 4 92 rfl rfl (by omega) (by decide)
  have hzero : crc32
      (splice (slice (headerSector my alternate entriesLba lastUsable entriesCrc guid) 0 92) 16
        [0, 0, 0, 0]) = crc := by
    rw [hsector, slice_append_left _ (by omega), slice, List.drop_zero,
      List.take_of_length_le (by omega)]
    exact (congrArg crc32 (fill_crc crc.toNat 0)).trans hcrc'.symm
  have hstored := hword 3 16 4 crc.toNat rfl rfl (by omega) (by have := crc.toNat_lt; omega)
  have hplace := hword 5 24 8 my rfl rfl (by omega) (by omega)
  unfold readHeader
  simp only [hs, hbytes]
  rw [if_pos ⟨hfield 0 0 8 _ rfl rfl rfl (by omega), by omega, by decide, by rw [hzero, hstored],
    hplace⟩, hplace, hword 6 32 8 alternate rfl rfl (by omega) (by omega),
      hword 7 40 8 GPT_FIRST_USABLE_LBA rfl rfl (by omega) (by decide),
    hword 8 48 8 lastUsable rfl rfl (by omega) (by omega),
    hfield 9 56 16 guid.toList rfl rfl (by simp) (by omega),
    hword 10 72 8 entriesLba rfl (hguid 0) (by omega) (by omega),
    hword 11 80 4 GPT_MAX_ENTRIES rfl (hguid 1) (by omega) (by decide),
    hword 12 84 4 GPT_ENTRY_SIZE rfl (hguid 2) (by omega) (by decide),
    hword 13 88 4 entriesCrc rfl (hguid 3) (by omega) (by omega)]
  rfl

end Headers

/-! ## The disk -/

section Disk

variable {disk : Bytes} {diskSectors : Nat} {partitions : List PartEntry} {guid : Guid}

/-- What is written, and where. -/
def gptWrites (diskSectors : Nat) (partitions : List PartEntry) (guid : Guid) :
    List (Nat × Bytes) :=
  let table := entryTable partitions
  let crc := (crc32 table).toNat
  [(0, protectiveMbr diskSectors), (GPT_ENTRIES_LBA * SECTOR, table),
    ((diskSectors - GPT_BACKUP_RESERVED_SECTORS) * SECTOR, table), (GPT_HEADER_LBA * SECTOR,
      headerSector GPT_HEADER_LBA (diskSectors - 1) GPT_ENTRIES_LBA
        (diskSectors - GPT_BACKUP_RESERVED_SECTORS - 1) crc guid),
    ((diskSectors - 1) * SECTOR,
      headerSector (diskSectors - 1) GPT_HEADER_LBA (diskSectors - GPT_BACKUP_RESERVED_SECTORS)
        (diskSectors - GPT_BACKUP_RESERVED_SECTORS - 1) crc guid)]

/-- **No step of the writer panics** on a disk of 68 sectors or more. -/
theorem writeGpt_eq (hparts : partitions.length ≤ GPT_MAX_ENTRIES) (hsectors : 68 ≤ diskSectors)
    (hmax : diskSectors * SECTOR < 2 ^ 64) :
    writeGpt disk diskSectors partitions guid =
      some (writeAll disk (gptWrites diskSectors partitions guid)) := by
  have hreserved : GPT_BACKUP_RESERVED_SECTORS = 33 := rfl
  have hbackup : checkedSub diskSectors GPT_BACKUP_RESERVED_SECTORS =
      some (diskSectors - GPT_BACKUP_RESERVED_SECTORS) := by
    rw [checkedSub, if_pos (by omega)]
  have hbackupAt : checkedMul (diskSectors - GPT_BACKUP_RESERVED_SECTORS) SECTOR =
      some ((diskSectors - GPT_BACKUP_RESERVED_SECTORS) * SECTOR) := by
    rw [checkedMul, if_pos (Nat.lt_of_le_of_lt (Nat.mul_le_mul_right _ (Nat.sub_le _ _)) hmax)]
  have hlast : checkedSub diskSectors 1 = some (diskSectors - 1) := by
    rw [checkedSub, if_pos (by omega)]
  have hlastAt : checkedMul (diskSectors - 1) SECTOR = some ((diskSectors - 1) * SECTOR) := by
    rw [checkedMul, if_pos (Nat.lt_of_le_of_lt (Nat.mul_le_mul_right _ (Nat.sub_le _ _)) hmax)]
  unfold writeGpt
  rw [if_neg (by simpa using hparts)]
  simp only [bind, Option.bind, hbackup, hbackupAt, hlast, hlastAt,
    buildHeader_eq (show 33 + 1 ≤ diskSectors by omega)]
  rfl

/-- The protective MBR is one sector. -/
theorem length_protectiveMbr (n : Nat) : (protectiveMbr n).length = SECTOR := by
  simp only [protectiveMbr, List.flatten_cons, List.flatten_nil, List.length_append,
    List.length_replicate, length_toLe, List.length_cons, List.length_nil, SECTOR]

/-- The five regions: the octets before and after which nothing is written. -/
theorem gptWrites_inside (hparts : partitions.length ≤ GPT_MAX_ENTRIES)
    (hsectors : 68 ≤ diskSectors) :
    Inside (diskSectors * SECTOR) (gptWrites diskSectors partitions guid) := by
  have htable := length_entryTable hparts
  have hreserved : GPT_BACKUP_RESERVED_SECTORS = 33 := rfl
  intro w hw
  simp only [gptWrites, List.mem_cons, List.not_mem_nil, or_false] at hw
  rcases hw with rfl | rfl | rfl | rfl | rfl <;>
    simp only [length_protectiveMbr, htable, length_headerSector] <;>
    simp only [hreserved, SECTOR, GPT_MAX_ENTRIES, GPT_ENTRY_SIZE, GPT_ENTRIES_LBA,
      GPT_HEADER_LBA] <;> omega

/-- No write touches another's sectors. -/
theorem gptWrites_apart (hparts : partitions.length ≤ GPT_MAX_ENTRIES)
    (hsectors : 68 ≤ diskSectors) :
    (gptWrites diskSectors partitions guid).Pairwise Apart := by
  have htable := length_entryTable hparts
  have hreserved : GPT_BACKUP_RESERVED_SECTORS = 33 := rfl
  simp only [gptWrites, List.pairwise_cons, List.mem_cons, List.not_mem_nil, or_false,
    forall_eq_or_imp, forall_eq, Apart, length_protectiveMbr, htable, length_headerSector,
    List.Pairwise.nil, IsEmpty.forall_iff, implies_true, and_true]
  simp only [hreserved, SECTOR, GPT_MAX_ENTRIES, GPT_ENTRY_SIZE, GPT_ENTRIES_LBA, GPT_HEADER_LBA]
  omega

/-- Nothing is written between the primary table and the backup table. -/
theorem gptWrites_ends (hparts : partitions.length ≤ GPT_MAX_ENTRIES)
    (hsectors : 68 ≤ diskSectors) :
    ∀ w ∈ gptWrites diskSectors partitions guid,
      w.1 + w.2.length ≤ GPT_FIRST_USABLE_LBA * SECTOR ∨
      (diskSectors - GPT_BACKUP_RESERVED_SECTORS) * SECTOR ≤ w.1 := by
  have htable := length_entryTable hparts
  have hreserved : GPT_BACKUP_RESERVED_SECTORS = 33 := rfl
  have hfirst : GPT_FIRST_USABLE_LBA = 34 := rfl
  intro w hw
  simp only [gptWrites, List.mem_cons, List.not_mem_nil, or_false] at hw
  rcases hw with rfl | rfl | rfl | rfl | rfl <;>
    simp only [length_protectiveMbr, htable, length_headerSector] <;>
    simp only [hreserved, hfirst, SECTOR, GPT_MAX_ENTRIES, GPT_ENTRY_SIZE, GPT_ENTRIES_LBA,
      GPT_HEADER_LBA] <;> omega

/-- A region of the disk: its first sector, and how many. -/
abbrev Region := Nat × Nat

/-- The regions that the MBR, the headers and their tables take. -/
def gptRegions (h b : Header) : List Region :=
  [(0, 1), (h.myLba, 1), (h.entriesLba, h.entryCount * h.entrySize / SECTOR), (b.myLba, 1),
    (b.entriesLba, b.entryCount * b.entrySize / SECTOR)]

/-- What a reader finds that the disk is to have. -/
structure ReadsBack (disk : Bytes) (diskSectors : Nat) (partitions : List PartEntry)
    (h b : Header) : Prop where
  primary : readHeader disk 1 = some h
  backup : readHeader disk (diskSectors - 1) = some b
  each_other : h.myLba = 1 ∧ h.alternateLba = diskSectors - 1 ∧ b.myLba = diskSectors - 1 ∧
    b.alternateLba = 1
  guid : h.diskGuid = b.diskGuid
  usable : h.firstUsable = b.firstUsable ∧ h.lastUsable = b.lastUsable ∧
    h.firstUsable ≤ h.lastUsable
  primary_entries : readEntries disk h = some (partitions.map PartEntry.entry)
  backup_entries : readEntries disk b = some (partitions.map PartEntry.entry)
  disjoint : (gptRegions h b).Pairwise fun r s => r.1 + r.2 ≤ s.1 ∨ s.1 + s.2 ≤ r.1
  outside : ∀ r ∈ gptRegions h b, r.1 + r.2 ≤ h.firstUsable ∨ h.lastUsable < r.1

/-- What the writer leaves on the disk is read back. -/
theorem readsBack_of_slices {disk : Bytes} (hparts : partitions.length ≤ GPT_MAX_ENTRIES)
    (hsectors : 68 ≤ diskSectors) (hmax : diskSectors * SECTOR < 2 ^ 64)
    (htype : ∀ p ∈ partitions, p.typeGuid.toList ≠ List.replicate 16 0)
    (hslices : ∀ w ∈ gptWrites diskSectors partitions guid, slice disk w.1 w.2.length = w.2) :
    ∃ h b, ReadsBack disk diskSectors partitions h b := by
  have hreserved : GPT_BACKUP_RESERVED_SECTORS = 33 := rfl
  have hcount : GPT_MAX_ENTRIES * GPT_ENTRY_SIZE / SECTOR = 32 := rfl
  have hfirst : GPT_FIRST_USABLE_LBA = 34 := rfl
  -- The sizes are below 2^64, so no field of a header wraps.
  have hbound : diskSectors < 2 ^ 64 := by
    have : diskSectors * 1 ≤ diskSectors * SECTOR := Nat.mul_le_mul_left _ (by decide)
    omega
  have hcrc : (crc32 (entryTable partitions)).toNat < 2 ^ 32 := UInt32.toNat_lt _
  have htable := length_entryTable hparts
  have hprimary :=
    hslices _ (List.mem_cons_of_mem
      _ (List.mem_cons_of_mem _ (List.mem_cons_of_mem _ List.mem_cons_self)))
  have hbackup :=
    hslices _ (List.mem_cons_of_mem
      _ (List.mem_cons_of_mem
          _ (List.mem_cons_of_mem _ (List.mem_cons_of_mem _ List.mem_cons_self))))
  have hentries := hslices _ (List.mem_cons_of_mem _ List.mem_cons_self)
  have hbackupEntries :=
    hslices _ (List.mem_cons_of_mem _ (List.mem_cons_of_mem _ List.mem_cons_self))
  simp only [length_headerSector, htable] at hprimary hbackup hentries hbackupEntries
  -- Both headers name the same table, at the sectors where their copies of it were written.
  have hread : ∀ (my alternate lba last : Nat),
      slice disk (lba * SECTOR) (GPT_MAX_ENTRIES * GPT_ENTRY_SIZE) = entryTable partitions →
      readEntries disk
        (headerRead my alternate lba last (crc32 (entryTable partitions)).toNat guid) =
        some (partitions.map PartEntry.entry) := by
    intro my alternate lba last hslice
    have hentries :
        entriesOf disk
          (headerRead my alternate lba last (crc32 (entryTable partitions)).toNat guid) =
        some (entryTable partitions) := by
      simp only [entriesOf, headerRead, hslice, if_true]
    rw [readEntries, hentries]
    exact congrArg some (entries_read hparts htype)
  refine ⟨headerRead GPT_HEADER_LBA (diskSectors - 1) GPT_ENTRIES_LBA
    (diskSectors - GPT_BACKUP_RESERVED_SECTORS - 1)
      (crc32 (entryTable partitions)).toNat guid,
    headerRead (diskSectors - 1) GPT_HEADER_LBA (diskSectors - GPT_BACKUP_RESERVED_SECTORS)
      (diskSectors - GPT_BACKUP_RESERVED_SECTORS - 1) (crc32 (entryTable partitions)).toNat guid,
        ?_⟩
  exact
    { primary := readHeader_sector hprimary (by decide) (by omega) (by decide) (by omega) hcrc
      backup := readHeader_sector hbackup (by omega) (by decide) (by omega) (by omega) hcrc
      each_other := ⟨rfl, rfl, rfl, rfl⟩
      guid := rfl
      usable := ⟨rfl, rfl, by
        show 34 ≤ diskSectors - 33 - 1
        omega⟩
      primary_entries := hread _ _ _ _ hentries
      backup_entries := hread _ _ _ _ hbackupEntries
      disjoint := by
        simp only [gptRegions, headerRead, hcount, hreserved, GPT_HEADER_LBA, GPT_ENTRIES_LBA,
          List.pairwise_cons, List.mem_cons, List.not_mem_nil, or_false, forall_eq_or_imp,
          forall_eq, List.Pairwise.nil, IsEmpty.forall_iff, implies_true, and_true]
        omega
      outside := by
        simp only [gptRegions, headerRead, hcount, hreserved, hfirst, GPT_HEADER_LBA,
          GPT_ENTRIES_LBA, List.mem_cons, List.not_mem_nil, or_false, forall_eq_or_imp, forall_eq]
        omega }

end Disk

/-- **A written GPT is read back.**  On a disk of 68 sectors or more, the writer does not panic, and
    a reader finds at the second and at the last sector two valid headers that point at each other,
    have one disk GUID and lead to tables that decode to the partitions, in order; the MBR, the
    headers and the tables do not overlap and lie outside the usable sectors.  A name that has no
    NUL is read up to its 36th unit. -/
theorem gpt_read_back (disk : Bytes) (diskSectors : Nat) (partitions : List PartEntry) (guid : Guid)
    (hdisk : disk.length = diskSectors * SECTOR) (hsectors : 68 ≤ diskSectors)
    (hmax : diskSectors * SECTOR < 2 ^ 64) (hparts : partitions.length ≤ 128)
    (htype : ∀ p ∈ partitions, p.typeGuid.toList ≠ List.replicate 16 0) :
    ∃ disk' h b, writeGpt disk diskSectors partitions guid = some disk' ∧
    disk'.length = disk.length ∧
      ReadsBack disk' diskSectors partitions h b ∧
      ∀ p ∈ partitions, 0 ∉ (encodeUtf16 p.name).take 36 →
      p.entry.name = (encodeUtf16 p.name).take 36 := by
  have hinside : Inside disk.length (gptWrites diskSectors partitions guid) := by
    rw [hdisk]
    exact gptWrites_inside hparts hsectors
  obtain ⟨h, b, hread⟩ := readsBack_of_slices hparts hsectors hmax htype
    fun w hw => slice_writeAll hinside (gptWrites_apart hparts hsectors) hw
  exact ⟨_, h, b, writeGpt_eq hparts hsectors hmax, length_writeAll hinside, hread, fun p _ =>
    name_of_nul_free⟩

/-- One partition on the smallest disk: its only usable sector. -/
def onePartition : PartEntry := ⟨TYPE_LINUX_DATA, .replicate 16 7, 34, 34, 0, chars "data"⟩

/-- The smallest disk there can be, with one partition. -/
theorem smallest_gpt_read_back :
    ∃ disk' h, writeGpt (List.replicate (68 * SECTOR) 0) 68 [onePartition] (.replicate 16 9) =
      some disk' ∧
      readHeader disk' 1 = some h ∧ readEntries disk' h = some [onePartition.entry] := by
  obtain ⟨disk', h, b, hwrite, -, hread, -⟩ :=
    gpt_read_back (List.replicate (68 * SECTOR) 0) 68 [onePartition]
    (.replicate 16 9) List.length_replicate (Nat.le_refl 68) (by decide) (by decide) (by decide)
  exact ⟨disk', h, hwrite, hread.primary, hread.primary_entries⟩

end CdjEmu.Gpt
