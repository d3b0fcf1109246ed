/-
  `newc` CPIO — the archive codec of the initramfs, read and written as bytes.

  A record is a header of 110 octets (a magic and thirteen fields of eight hexadecimal digits), the
  name with its NUL, and the payload, the name padded relative to the RECORD and the payload
  relative to ITSELF.  `write` puts the records one behind another and ends with the record
  `TRAILER!!!`; `read` walks them back, skipping NULs between records, and stops at the first
  trailer, so whatever follows it does not matter.

  `Entry.path` is the octets of the `PathBuf`; two entries are equal as the source compares them
  (`Entry.Same`) when their paths have the same components and every other field is equal.  A
  `String` is a `Text.Str`, a `u32` a `UInt32`; sizes wrap where the source writes `as u32`.

  `parse_writeRecord` is the step lemma — what the reader makes of one written record, whatever
  follows — and `read_write` the run lemma, by induction on the entries.  The offset sums of
  `Record::parse` cannot overflow: a slice is shorter than `2 ^ 63` and a field below `2 ^ 32`.

  1. **Program** — `Kind`, `Entry` and the functions of the codec under their own names; the loops
     of `read` and `write` are recursion on the octets still to be read and on the entries still to
     be written.

  2. **Specification** — `ReadsAs`: reading gives the entries, each with every field, in order.
     `Entry.Plain` is what an entry must be for that, and says nothing of the codec: an absolute
     path in normal form without a backslash, permission bits only, and sizes of 32 bits.

  3. **The crux (`parse_writeRecord`)** — the thirteen fields are written at the width in which they
     are read, so a record parses back to the numbers put into it, and its `next` is the length that
     was written.  What is in the payload, a magic or the trailer's name included, is never looked
     at.

  4. **Bridge** — `readFrom_writeFrom` follows the records by induction, `readFrom_writeTrailer`
     ends them, and `Entry.same_stored` compares what comes back as the source compares entries.
-/
import CdjEmu.Lib.Buffer
import CdjEmu.Lib.Path

namespace CdjEmu.Cpio

open Text

/-! ## Entries -/

/-- Six octets of magic and thirteen fields of eight. -/
def headerLen : Nat := 110

/-- The magic of the format. -/
def magicNewc : Bytes := bytes "070701"

/-- The magic of the format with checksums, which is read as well. -/
def magicCrc : Bytes := bytes "070702"

/-- The name that ends an archive. -/
def trailerName : Bytes := bytes "TRAILER!!!"

/-- The bits of a mode that tell what an entry is. -/
def sIfmt : UInt32 := 0o170000

def sIfreg : UInt32 := 0o100000

def sIfdir : UInt32 := 0o040000

def sIflnk : UInt32 := 0o120000

def sIfchr : UInt32 := 0o020000

/-- The type of an entry and the data that type carries. -/
inductive Kind where
  | file (data : Bytes)
  | dir
  | symlink (target : Str)
  | charDev (major minor : UInt32)
  deriving DecidableEq

/-- Those bits of each kind. -/
def Kind.typeBits : Kind → UInt32
  | .file _ => sIfreg
  | .dir => sIfdir
  | .symlink _ => sIflnk
  | .charDev .. => sIfchr

/-- One archive member. -/
structure Entry where
  path : Bytes
  kind : Kind
  mode : UInt32
  uid : UInt32
  gid : UInt32
  mtime : UInt32
  deriving DecidableEq

/-- Equality of entries: paths are compared by their components. -/
structure Entry.Same (e e' : Entry) : Prop where
  path : Path.Eqv e.path e'.path
  kind : e.kind = e'.kind
  mode : e.mode = e'.mode
  uid : e.uid = e'.uid
  gid : e.gid = e'.gid
  mtime : e.mtime = e'.mtime

instance (e e' : Entry) : Decidable (e.Same e') :=
  decidable_of_iff (Path.Eqv e.path e'.path ∧ e.kind = e'.kind ∧ e.mode = e'.mode ∧
      e.uid = e'.uid ∧ e.gid = e'.gid ∧ e.mtime = e'.mtime)
    ⟨fun ⟨a, b, c, d, e, f⟩ => ⟨a, b, c, d, e, f⟩, fun ⟨a, b, c, d, e, f⟩ => ⟨a, b, c, d, e, f⟩⟩

/-- What may be wrong with an archive. -/
inductive CpioError where
  | truncated (pos : Nat)
  | badMagic (pos : Nat)
  | badField (pos : Nat) (field : String)
  | unsupportedMode (path : Str) (mode : UInt32)
  | missingTrailer
  deriving DecidableEq

/-! ## Reading -/

/-- Round a length up to the next multiple of 4. -/
def pad4 (len : Nat) : Nat := (len + 3) / 4 * 4

/-- One record as it sits in the archive; `next` is the offset of the record behind it, counted from
    its own start. -/
structure Record where
  rawMode : UInt32
  uid : UInt32
  gid : UInt32
  mtime : UInt32
  rdevmajor : UInt32
  rdevminor : UInt32
  name : Str
  data : Bytes
  next : Nat

/-- Field `i` of the thirteen, in the record `rest` that starts at `pos`. -/
def field (pos : Nat) (rest : Bytes) (i : Nat) (name : String) : Except CpioError UInt32 :=
  let s := slice rest (6 + i * 8) 8
  if Valid s then
    match fromHex 32 (trim s) with
    | some v => .ok (UInt32.ofNat v)
    | none => .error (.badField pos name)
  else .error (.badField pos name)

/-- The record at the front of `rest`, which starts at offset `pos` of the archive. -/
def Record.parse (pos : Nat) (rest : Bytes) : Except CpioError Record :=
  if rest.length < headerLen then .error (.truncated pos)
  else if rest.take 6 ≠ magicNewc ∧ rest.take 6 ≠ magicCrc then .error (.badMagic pos)
  else do
    let rawMode ← field pos rest 1 "mode"
    let uid ← field pos rest 2 "uid"
    let gid ← field pos rest 3 "gid"
    let mtime ← field pos rest 5 "mtime"
    let filesize ← field pos rest 6 "filesize"
    let rdevmajor ← field pos rest 9 "rdevmajor"
    let rdevminor ← field pos rest 10 "rdevminor"
    let namesize ← field pos rest 11 "namesize"
    if namesize = 0 then .error (.badField pos "namesize")
    else
      let nameEnd := headerLen + namesize.toNat
      if rest.length < nameEnd then .error (.truncated pos)
      else
        let dataAt := pad4 nameEnd
        let dataEnd := dataAt + filesize.toNat
        if rest.length < dataEnd then .error (.truncated pos)
        else .ok {
          rawMode, uid, gid, mtime, rdevmajor, rdevminor
          name := .ofLossy (slice rest headerLen (namesize.toNat - 1))
          data := slice rest dataAt filesize.toNat
          next := pad4 dataEnd }

/-- The path a record's name stands for. -/
def entryPath (name : Bytes) : Bytes := Path.sep :: name.dropWhile (· = Path.sep)

/-- The kind that the file-type bits of a record stand for. -/
def Record.kind (r : Record) : Except CpioError Kind :=
  let ty := r.rawMode &&& sIfmt
  if ty = sIfreg then .ok (.file r.data)
  else if ty = sIfdir then .ok .dir
  else if ty = sIflnk then .ok (.symlink (.ofLossy r.data))
  else if ty = sIfchr then .ok (.charDev r.rdevmajor r.rdevminor)
  else .error (.unsupportedMode r.name r.rawMode)

/-- `into_entry`: a record as an entry, under the name it is kept by. -/
def Record.intoEntry (r : Record) : Except CpioError Entry := do
  let kind ← r.kind
  .ok {
    path := entryPath r.name.bytes
    kind
    mode := r.rawMode &&& 0o7777
    uid := r.uid
    gid := r.gid
    mtime := r.mtime }

/-- The loop of `read`, at offset `pos` with `rest` still to read.  Every round takes a record of
    more than 110 octets away, so as many rounds as there are octets are enough: the checked
    reader never runs out of them and does the same (`readLoop_eq`). -/
def readFrom : Nat → Nat → Bytes → Except CpioError (List Entry)
  | 0, _, _ => .error .missingTrailer
  | fuel + 1, pos, rest =>
    let rest' := rest.dropWhile (· = 0)
    let pos' := pos + (rest.length - rest'.length)
    if rest' = [] then .error .missingTrailer
    else do
      let record ← Record.parse pos' rest'
      if record.name.bytes = trailerName then .ok []
      else
        let e ← record.intoEntry
        let es ← readFrom fuel (pos' + record.next) (rest'.drop record.next)
        .ok (e :: es)

/-- Parses an archive, up to the first `TRAILER!!!`. -/
def read (b : Bytes) : Except CpioError (List Entry) := readFrom (b.length + 1) 0 b

/-- What an accepted record says about the octets it was read from. -/
theorem parse_ok {pos : Nat} {rest : Bytes} {r : Record} (h : Record.parse pos rest = .ok r) :
    ∃ namesize filesize : UInt32, namesize ≠ 0 ∧
      pad4 (headerLen + namesize.toNat) + filesize.toNat ≤ rest.length ∧
      r.name = .ofLossy (slice rest headerLen (namesize.toNat - 1)) ∧
      r.data = slice rest (pad4 (headerLen + namesize.toNat)) filesize.toNat ∧
      r.next = pad4 (pad4 (headerLen + namesize.toNat) + filesize.toNat) := by
  unfold Record.parse at h
  split at h
  · cases h
  split at h
  · cases h
  obtain ⟨rawMode, -, h⟩ := bind_eq_ok.mp h
  obtain ⟨uid, -, h⟩ := bind_eq_ok.mp h
  obtain ⟨gid, -, h⟩ := bind_eq_ok.mp h
  obtain ⟨mtime, -, h⟩ := bind_eq_ok.mp h
  obtain ⟨filesize, -, h⟩ := bind_eq_ok.mp h
  obtain ⟨rdevmajor, -, h⟩ := bind_eq_ok.mp h
  obtain ⟨rdevminor, -, h⟩ := bind_eq_ok.mp h
  obtain ⟨namesize, -, h⟩ := bind_eq_ok.mp h
  dsimp only at h
  split at h
  · cases h
  split at h
  · cases h
  split at h
  · cases h
  rename_i h0 _ hend
  cases h
  exact ⟨namesize, filesize, h0, Nat.not_lt.mp hend, rfl, rfl, rfl⟩

/-! ## Writing -/

/-- `b` padded with NULs to a multiple of 4. -/
def padTo4 (b : Bytes) : Bytes := b ++ List.replicate (pad4 b.length - b.length) 0

/-- The magic and the fields `vs`. -/
def header (vs : List UInt32) : Bytes := magicNewc ++ vs.flatMap fun v => hexN 8 v.toNat

/-- Archive names are relative and carry no leading slash. -/
def archiveName (path : Bytes) : Bytes :=
  let s := (lossy path).map fun c => if c = 92 then Path.sep else c
  let s := s.dropWhile (· = Path.sep)
  if s = [] then [Path.dot] else s

/-- The octets behind the name. -/
def Kind.payload : Kind → Bytes
  | .file data => data
  | .symlink target => target.bytes
  | .dir | .charDev .. => []

/-- The device that a special file stands for. -/
def Kind.rdev : Kind → UInt32 × UInt32
  | .charDev major minor => (major, minor)
  | _ => (0, 0)

/-- The number of links that a writer puts down. -/
def Kind.nlink : Kind → UInt32
  | .dir => 2
  | _ => 1

/-- The thirteen fields of the record that stores `e`. -/
def Entry.fields (e : Entry) (ino : UInt32) : List UInt32 :=
  [ino, e.kind.typeBits ||| (e.mode &&& 0o7777), e.uid, e.gid, e.kind.nlink, e.mtime,
    UInt32.ofNat e.kind.payload.length, 0, 0, e.kind.rdev.1, e.kind.rdev.2,
    UInt32.ofNat (archiveName e.path).length + 1, 0]

/-- What `write_record` appends for `e`. -/
def writeRecord (e : Entry) (ino : UInt32) : Bytes :=
  padTo4 (header (e.fields ino) ++ archiveName e.path ++ [0]) ++ padTo4 e.kind.payload

/-- The fields of the last record. -/
def trailerFields : List UInt32 :=
  [0, 0, 0, 0, 1, 0, 0, 0, 0, 0, 0, UInt32.ofNat trailerName.length + 1, 0]

/-- The last record. -/
def writeTrailer : Bytes := padTo4 (header trailerFields ++ trailerName ++ [0])

/-- The records of `es`, the first of them numbered `i`. -/
def writeFrom : Nat → List Entry → Bytes
  | _, [] => []
  | i, e :: es => writeRecord e (UInt32.ofNat i + 1) ++ writeFrom (i + 1) es

/-- Serialise entries, in the order given, terminated by `TRAILER!!!`. -/
def write (es : List Entry) : Bytes := writeFrom 0 es ++ writeTrailer

/-! ## One record, read back -/

/-- Padding only adds. -/
theorem le_pad4 (n : Nat) : n ≤ pad4 n := by unfold pad4; omega

@[simp] theorem length_padTo4 (b : Bytes) : (padTo4 b).length = pad4 b.length := by
  have := le_pad4 b.length
  rw [padTo4, List.length_append, List.length_replicate]
  omega

/-- A header's length is that of its fields. -/
theorem length_header (vs : List UInt32) : (header vs).length = 6 + 8 * vs.length := by
  have hfields : ∀ vs :
      List UInt32, (vs.flatMap fun v => hexN 8 v.toNat).length = 8 * vs.length := by
    intro vs
    induction vs with
    | nil => rfl
    | cons v vs ih =>
      rw [List.flatMap_cons, List.length_append, length_hexN, ih, List.length_cons]
      omega
  rw [header, List.length_append, hfields, show magicNewc.length = 6 from rfl]

/-- Field `i` of a header, as its digits. -/
theorem slice_header {vs : List UInt32} {i : Nat} (hi : i < vs.length) (s : Bytes) :
    slice (header vs ++ s) (6 + i * 8) 8 = hexN 8 vs[i].toNat := by
  have hfields : ∀ (vs : List UInt32) (i : Nat) (hi : i < vs.length),
      slice (vs.flatMap (fun v => hexN 8 v.toNat) ++ s) (i * 8) 8 = hexN 8 vs[i].toNat := by
    intro vs
    induction vs with
    | nil => intro i hi; exact absurd hi (Nat.not_lt_zero i)
    | cons v vs ih =>
      intro i hi
      rw [List.flatMap_cons, List.append_assoc]
      cases i with
      | zero =>
        rw [slice_append_left _ (by simp), slice, Nat.zero_mul, List.drop_zero]
        exact List.take_of_length_le (by simp)
      | succ i =>
        rw [slice_append_right _ (by rw [length_hexN]; omega), length_hexN,
          show (i + 1) * 8 - 8 = i * 8 by omega]
        exact ih i (by simpa using hi)
  rw [header, List.append_assoc,
    slice_append_right _ (by rw [show magicNewc.length = 6 from rfl]; omega),
    show magicNewc.length = 6 from rfl, Nat.add_sub_cancel_left]
  exact hfields vs i hi

/-- What a header puts down is read from it. -/
theorem field_header {vs : List UInt32} {i : Nat} (hi : i < vs.length) (s : Bytes) (pos : Nat)
    (name : String) : field pos (header vs ++ s) i name = .ok vs[i] := by
  have hlt : vs[i].toNat < 2 ^ 32 := vs[i].toNat_lt
  rw [field, slice_header hi, if_pos (valid_hexN ..), trim_hexN (by omega),
    fromHex_hexN (by omega) (by omega) hlt]
  simp

/-- What the reader makes of a header with thirteen fields and the octets `s` behind it. -/
theorem parse_header {vs : List UInt32} (hlen : vs.length = 13) (pos : Nat) (s : Bytes) :
    Record.parse pos (header vs ++ s) =
      if vs[11] = 0 then .error (.badField pos "namesize")
      else if s.length < vs[11].toNat then .error (.truncated pos)
      else if 110 + s.length < pad4 (110 + vs[11].toNat) + vs[6].toNat then .error (.truncated pos)
      else .ok {
        rawMode := vs[1], uid := vs[2], gid := vs[3], mtime := vs[5]
        rdevmajor := vs[9], rdevminor := vs[10]
        name := .ofLossy (s.take (vs[11].toNat - 1))
        data := slice (header vs ++ s) (pad4 (110 + vs[11].toNat)) vs[6].toNat
        next := pad4 (pad4 (110 + vs[11].toNat) + vs[6].toNat) } := by
  have hlh : (header vs).length = 110 := by rw [length_header, hlen]
  have hall : (header vs ++ s).length = 110 + s.length := by rw [List.length_append, hlh]
  have hmagic : (header vs ++ s).take 6 = magicNewc := by
    rw [header, List.append_assoc, List.take_append_of_le_length (by decide)]
    rfl
  have hname : ∀ n, slice (header vs ++ s) headerLen n = s.take n := by
    intro n
    rw [slice_append_right _ (by rw [hlh]; exact Nat.le_refl _), hlh, slice]
    rfl
  rw [Record.parse, if_neg (by rw [hall]; unfold headerLen; omega), if_neg (by simp [hmagic])]
  simp only [field_header (show 1 < vs.length by omega), field_header (show 2 < vs.length by omega),
    field_header (show 3 < vs.length by omega), field_header (show 5 < vs.length by omega),
    field_header (show 6 < vs.length by omega), field_header (show 9 < vs.length by omega),
    field_header (show 10 < vs.length by omega), field_header (show 11 < vs.length by omega)]
  show (if _ then _ else _) = _
  rw [hall, hname]
  simp only [headerLen, Nat.add_lt_add_iff_left]
  rfl

/-- The sizes of the record that stores `e` fit its fields. -/
structure Entry.Fits (e : Entry) : Prop where
  name : (archiveName e.path).length + 1 < 2 ^ 32
  payload : e.kind.payload.length < 2 ^ 32

theorem length_fields (e : Entry) (ino : UInt32) : (e.fields ino).length = 13 := rfl

/-- The length of a name that fits is read as it is. -/
theorem Entry.Fits.namesize {e : Entry} (h : e.Fits) :
    (UInt32.ofNat (archiveName e.path).length + 1).toNat = (archiveName e.path).length + 1 := by
  have := h.name
  rw [UInt32.toNat_add, UInt32.toNat_ofNat', UInt32.toNat_one]
  omega

/-- So is the length of a payload. -/
theorem Entry.Fits.filesize {e : Entry} (h : e.Fits) :
    (UInt32.ofNat e.kind.payload.length).toNat = e.kind.payload.length := by
  have := h.payload
  rw [UInt32.toNat_ofNat']
  omega

/-- The octets of a record behind its header, with `s` behind them. -/
theorem writeRecord_eq (e : Entry) (ino : UInt32) (s : Bytes) :
    ∃ nuls, writeRecord e ino ++ s =
      header (e.fields ino) ++
        (archiveName e.path ++ [0] ++ nuls ++ padTo4 e.kind.payload ++ s) := by
  refine ⟨List.replicate (pad4 (header (e.fields ino) ++ archiveName e.path ++ [0]).length -
    (header (e.fields ino) ++ archiveName e.path ++ [0]).length) 0, ?_⟩
  rw [writeRecord]
  nth_rewrite 1 [padTo4]
  simp only [List.append_assoc]

/-- The length of a record. -/
theorem length_writeRecord (e : Entry) (ino : UInt32) :
    (writeRecord e ino).length =
      pad4 (110 + ((archiveName e.path).length + 1)) + pad4 e.kind.payload.length := by
  rw [writeRecord, List.length_append, length_padTo4, length_padTo4, List.length_append,
    List.length_append, length_header, length_fields, List.length_singleton, Nat.add_assoc]

/-- The payload stands right behind the padded name. -/
theorem slice_payload (e : Entry) (ino : UInt32) (s : Bytes) (n : Nat) :
    slice (writeRecord e ino ++ s) (pad4 (110 + ((archiveName e.path).length + 1))) n =
      (padTo4 e.kind.payload ++ s).take n := by
  have hhead : (padTo4 (header (e.fields ino) ++ archiveName e.path ++ [0])).length =
      pad4 (110 + ((archiveName e.path).length + 1)) := by
    rw [length_padTo4, List.length_append, List.length_append, length_header, length_fields,
      List.length_singleton, Nat.add_assoc]
  rw [writeRecord, List.append_assoc, slice_append_right _ (by rw [hhead]), hhead,
    Nat.sub_self, slice, List.drop_zero]

/-- The record of an entry whose sizes fit. -/
def Entry.record (e : Entry) : Record where
  rawMode := e.kind.typeBits ||| (e.mode &&& 0o7777)
  uid := e.uid
  gid := e.gid
  mtime := e.mtime
  rdevmajor := e.kind.rdev.1
  rdevminor := e.kind.rdev.2
  name := .ofLossy (archiveName e.path)
  data := e.kind.payload
  next := pad4 (110 + ((archiveName e.path).length + 1)) + pad4 e.kind.payload.length

/-- **One record is read back** as it was written, whatever follows it. -/
theorem parse_writeRecord {e : Entry} (h : e.Fits) (ino : UInt32) (pos : Nat) (s : Bytes) :
    Record.parse pos (writeRecord e ino ++ s) = .ok e.record := by
  have hn := h.namesize
  have hp := h.filesize
  have hlen : (writeRecord e ino ++ s).length = pad4 (110 + ((archiveName e.path).length + 1)) +
      pad4 e.kind.payload.length + s.length := by
    rw [List.length_append, length_writeRecord]
  have hdata : slice (writeRecord e ino ++ s) (pad4 (110 + ((archiveName e.path).length + 1)))
      e.kind.payload.length = e.kind.payload := by
    rw [slice_payload, padTo4, List.append_assoc, List.take_left]
  obtain ⟨nuls, hrec⟩ := writeRecord_eq e ino s
  have hbody : 110 + (archiveName e.path ++ [0] ++ nuls ++ padTo4 e.kind.payload ++ s).length =
      pad4 (110 + ((archiveName e.path).length + 1)) + pad4 e.kind.payload.length + s.length := by
    have hall := congrArg List.length hrec
    rw [hlen, List.length_append, length_header, length_fields] at hall
    exact hall.symm
  have hpad := le_pad4 e.kind.payload.length
  have hpadn := le_pad4 (110 + ((archiveName e.path).length + 1))
  rw [hrec, parse_header (length_fields e ino), ← hrec]
  simp only [Entry.fields, List.getElem_cons_succ, List.getElem_cons_zero, hn, hp]
  rw [if_neg (fun h0 => by rw [h0] at hn; simp at hn), if_neg (by omega), if_neg (by omega), hdata]
  have htake : (archiveName e.path ++ [0] ++ nuls ++ padTo4 e.kind.payload ++ s).take
      ((archiveName e.path).length + 1 - 1) = archiveName e.path := by
    rw [Nat.add_sub_cancel]
    simp only [List.append_assoc]
    exact List.take_left
  rw [htake]
  congr 1
  rw [Entry.record]
  congr 1
  unfold pad4
  omega

/-- The entry that comes back for `e`. -/
def Entry.stored (e : Entry) : Entry :=
  { e with path := entryPath (lossy (archiveName e.path)), mode := e.mode &&& 0o7777 }

theorem and_or_distrib (a b c : UInt32) : (a ||| b) &&& c = (a &&& c) ||| (b &&& c) := by
  apply UInt32.toBitVec_inj.mp
  simp only [UInt32.toBitVec_and, UInt32.toBitVec_or, BitVec.and_or_distrib_right]

/-- Type bits are type bits and no permission bits. -/
theorem typeBits_and (k : Kind) : k.typeBits &&& sIfmt = k.typeBits ∧
    k.typeBits &&& 0o7777 = 0 := by
  have hreg : sIfreg &&& sIfmt = sIfreg ∧ sIfreg &&& 0o7777 = 0 := by decide
  have hdir : sIfdir &&& sIfmt = sIfdir ∧ sIfdir &&& 0o7777 = 0 := by decide
  have hlnk : sIflnk &&& sIfmt = sIflnk ∧ sIflnk &&& 0o7777 = 0 := by decide
  have hchr : sIfchr &&& sIfmt = sIfchr ∧ sIfchr &&& 0o7777 = 0 := by decide
  cases k with
  | file => exact hreg
  | dir => exact hdir
  | symlink => exact hlnk
  | charDev => exact hchr

/-- The permission bits do not reach the type bits. -/
theorem typeBits_of_mode (k : Kind) (m : UInt32) :
    (k.typeBits ||| (m &&& 0o7777)) &&& sIfmt = k.typeBits := by
  have hm : m &&& 0o7777 &&& sIfmt = 0 := by
    rw [UInt32.and_assoc, show (0o7777 : UInt32) &&& sIfmt = 0 by decide, UInt32.and_zero]
  rw [and_or_distrib, hm, UInt32.or_zero, (typeBits_and k).1]

/-- The type bits do not reach the permission bits. -/
theorem mode_of_mode (k : Kind) (m : UInt32) :
    (k.typeBits ||| (m &&& 0o7777)) &&& 0o7777 = m &&& 0o7777 := by
  rw [and_or_distrib, (typeBits_and k).2, UInt32.zero_or, UInt32.and_assoc, UInt32.and_self]

/-- The record of an entry gives back what is stored of it. -/
theorem intoEntry_record (e : Entry) : e.record.intoEntry = .ok e.stored := by
  obtain ⟨path, kind, mode, uid, gid, mtime⟩ := e
  simp only [Record.intoEntry, Record.kind, Entry.record, typeBits_of_mode, mode_of_mode]
  cases kind with
  | file data => rfl
  | dir => rfl
  | symlink target =>
    show Except.ok _ = Except.ok _
    rw [show Kind.payload (.symlink target) = target.bytes from rfl, Str.ofLossy_bytes]
    rfl
  | charDev major minor => rfl

/-! ## The whole archive -/

/-- A record starts with a digit, so the reader skips nothing in front of it. -/
theorem dropWhile_header (vs : List UInt32) (s : Bytes) :
    (header vs ++ s).dropWhile (· = 0) = header vs ++ s := by
  have : header vs ++ s = 48 :: (bytes "70701" ++ vs.flatMap (fun v => hexN 8 v.toNat) ++ s) := rfl
  rw [this, List.dropWhile_cons_of_neg (by decide)]

/-- The loop of `read` on a record with the header `vs` and `s` behind it. -/
theorem readFrom_header (vs : List UInt32) (s : Bytes) (fuel pos : Nat) :
    readFrom (fuel + 1) pos (header vs ++ s) =
      (Record.parse pos (header vs ++ s)).bind fun record =>
        if record.name.bytes = trailerName then .ok []
        else record.intoEntry.bind fun e =>
          (readFrom fuel (pos + record.next) ((header vs ++ s).drop record.next)).map (e :: ·) := by
  have hne : header vs ++ s ≠ [] := by
    intro h
    have := congrArg List.length h
    rw [List.length_append, length_header, List.length_nil] at this
    omega
  rw [readFrom]
  simp only [dropWhile_header, hne, if_false, Nat.sub_self, Nat.add_zero]
  rfl

/-- Reading ends at the trailer, whatever follows. -/
theorem readFrom_writeTrailer (fuel pos : Nat) (t : Bytes) :
    readFrom (fuel + 1) pos (writeTrailer ++ t) = .ok [] := by
  have hlen : (header trailerFields ++ trailerName ++ [0]).length = 121 := by
    rw [List.length_append, List.length_append, length_header]
    rfl
  have hsplit :
      writeTrailer ++ t = header trailerFields ++ (trailerName ++ ([0, 0, 0, 0] ++ t)) := by
    rw [writeTrailer, padTo4, hlen, show List.replicate (pad4 121 - 121) (0 : UInt8) =
      [0, 0, 0] from rfl]
    simp only [List.append_assoc, List.cons_append, List.nil_append]
  have hbody : (trailerName ++ ([0, 0, 0, 0] ++ t)).length = 14 + t.length := by
    rw [List.length_append, List.length_append, ← Nat.add_assoc]
    rfl
  have hname : (trailerName ++ ([0, 0, 0, 0] ++ t)).take 10 = trailerName := List.take_left' rfl
  rw [hsplit, readFrom_header, parse_header (show trailerFields.length = 13 from rfl),
    if_neg (by decide), show trailerFields[11].toNat = 11 by decide,
    show trailerFields[6].toNat = 0 by
  decide, if_neg (by omega), if_neg (by unfold pad4; omega), hname,
    Except.bind, if_pos (show (Str.ofLossy trailerName).bytes = trailerName by decide)]

/-- **The step**: the reader takes a written entry off the front of the archive. -/
theorem readFrom_writeRecord {e : Entry} (h : e.Fits) (ino : UInt32) (fuel pos : Nat) (s : Bytes) :
    readFrom (fuel + 1) pos (writeRecord e ino ++ s) =
      if lossy (archiveName e.path) = trailerName then .ok []
      else (readFrom fuel (pos + e.record.next) s).map (e.stored :: ·) := by
  obtain ⟨nuls, hrec⟩ := writeRecord_eq e ino s
  rw [hrec, readFrom_header, ← hrec, parse_writeRecord h, Except.bind, intoEntry_record,
    Except.bind]
  have hdrop : (writeRecord e ino ++ s).drop e.record.next = s := by
    rw [show e.record.next = (writeRecord e ino).length from (length_writeRecord e ino).symm,
      List.drop_left]
  rw [hdrop]
  rfl

/-- **The run**: the entries come back in order, whatever follows the trailer. -/
theorem readFrom_writeFrom {es : List Entry} (hfit : ∀ e ∈ es, e.Fits)
    (hname : ∀ e ∈ es, lossy (archiveName e.path) ≠ trailerName) {fuel : Nat}
    (hfuel : es.length < fuel) (i pos : Nat) (t : Bytes) :
    readFrom fuel pos (writeFrom i es ++ (writeTrailer ++ t)) = .ok (es.map Entry.stored) := by
  induction es generalizing fuel i pos with
  | nil =>
    obtain ⟨fuel, rfl⟩ : ∃ k, fuel = k + 1 := ⟨fuel - 1, by simp at hfuel; omega⟩
    exact readFrom_writeTrailer fuel pos t
  | cons e es ih =>
    obtain ⟨fuel, rfl⟩ : ∃ k, fuel = k + 1 := ⟨fuel - 1, by simp at hfuel; omega⟩
    rw [writeFrom, List.append_assoc, readFrom_writeRecord (hfit e (List.mem_cons_self ..)),
      if_neg (hname e (List.mem_cons_self ..)),
      ih (fun e' h => hfit e' (List.mem_cons_of_mem _ h))
        (fun e' h => hname e' (List.mem_cons_of_mem _ h)) (by simp at hfuel; omega)]
    rfl

/-- There is fuel enough: an archive is at least as long as it has entries. -/
theorem length_writeFrom (es : List Entry) (i : Nat) : es.length ≤ (writeFrom i es).length := by
  induction es generalizing i with
  | nil => exact Nat.le_refl _
  | cons e es ih =>
    have := ih (i + 1)
    have hpad := le_pad4 (110 + ((archiveName e.path).length + 1))
    rw [writeFrom, List.length_append, length_writeRecord, List.length_cons]
    omega

/-- An archive is read back as the entries it stores. -/
theorem read_write {es : List Entry} (hfit : ∀ e ∈ es, e.Fits)
    (hname : ∀ e ∈ es, lossy (archiveName e.path) ≠ trailerName) (t : Bytes) :
    read (write es ++ t) = .ok (es.map Entry.stored) := by
  have hlen := length_writeFrom es 0
  rw [read, write, List.append_assoc]
  exact readFrom_writeFrom hfit hname (by rw [List.length_append]; omega) 0 0 t

/-! ## Reading undoes writing -/

/-- Reading `b` gives the entries `es`. -/
def ReadsAs (b : Bytes) (es : List Entry) : Prop :=
  ∃ es', read b = .ok es' ∧ List.Forall₂ Entry.Same es es'

/-- The name under which a rooted text without backslashes is stored. -/
theorem archiveName_rooted {n : Bytes} (hv : Valid n) (hb : 92 ∉ n) :
    archiveName (Path.sep :: n) =
      if n.dropWhile (· = Path.sep) = [] then [Path.dot] else n.dropWhile (· = Path.sep) := by
  have hlossy : lossy (Path.sep :: n) = Path.sep :: n :=
    lossy_of_valid (hv.cons_ascii (by decide))
  have hmap : (Path.sep :: n).map (fun c => if c = 92 then Path.sep else c) = Path.sep :: n := by
    have hn : ∀ c ∈ n, (if c = 92 then Path.sep else c) = c := by
      intro c hc
      have hne : c ≠ 92 := by
        rintro rfl
        exact hb hc
      rw [if_neg hne]
    rw [List.map_cons, if_neg (by decide), List.map_congr_left hn, List.map_id']
  rw [archiveName, hlossy, hmap, List.dropWhile_cons_of_pos (by simp)]

/-- What the storing and reading of a path needs: it is rooted, valid UTF-8
    and free of backslashes. -/
structure Rooted (p : Bytes) : Prop where
  cons : ∃ n, p = Path.sep :: n
  utf8 : Valid p
  backslash : 92 ∉ p

/-- The name of a rooted path in the archive, without the leading slashes. -/
theorem Rooted.archiveName {p : Bytes} (h : Rooted p) : ∃ n, p = Path.sep :: n ∧ Valid n ∧
    Cpio.archiveName p =
      if n.dropWhile (· = Path.sep) = [] then [Path.dot] else n.dropWhile (· = Path.sep) := by
  obtain ⟨n, rfl⟩ := h.cons
  have hv : Valid n := (valid_cons_ascii (by decide) n).mp h.utf8
  exact ⟨n, rfl, hv, archiveName_rooted hv fun hm => h.backslash (List.mem_cons_of_mem _ hm)⟩

/-- The name of a rooted path is read as it was written. -/
theorem Rooted.lossy_archiveName {p : Bytes} (h : Rooted p) :
    lossy (Cpio.archiveName p) = Cpio.archiveName p := by
  obtain ⟨n, -, hv, hname⟩ := h.archiveName
  apply lossy_of_valid
  rw [hname]
  split
  · decide
  · exact hv.dropWhile fun c hc => by rw [show c = Path.sep by simpa using hc]; decide

/-- A rooted path comes back as the same path. -/
theorem Rooted.eqv {p : Bytes} (h : Rooted p) :
    Path.Eqv p (entryPath (lossy (Cpio.archiveName p))) := by
  rw [h.lossy_archiveName]
  obtain ⟨n, rfl, -, hname⟩ := h.archiveName
  refine (Path.eqv_dropWhile n).trans ?_
  rw [hname]
  split
  · rename_i hn
    rw [hn]
    decide
  · rw [entryPath, List.dropWhile_idempotent]
    exact .refl _

/-- A mode without type bits is kept. -/
theorem mode_of_le {m : UInt32} (h : m ≤ 0o7777) : m &&& 0o7777 = m := by
  apply UInt32.toNat_inj.mp
  rw [UInt32.toNat_and, show (0o7777 : UInt32).toNat = 2 ^ 12 - 1 by decide,
    Nat.and_two_pow_sub_one_eq_mod]
  have : m.toNat ≤ 4095 := UInt32.le_iff_toNat_le.mp h
  omega

/-- What is stored of a rooted entry is the same entry. -/
theorem Entry.same_stored {e : Entry} (h : Rooted e.path) (hm : e.mode &&& 0o7777 = e.mode) :
    e.Same e.stored where
  path := h.eqv
  kind := rfl
  mode := hm.symm
  uid := rfl
  gid := rfl
  mtime := rfl

/-- Archives of rooted entries whose sizes fit, other than the trailer, are read back. -/
theorem readsAs_write {es : List Entry} (hroot : ∀ e ∈ es, Rooted e.path) (hfit : ∀ e ∈ es, e.Fits)
    (hmode : ∀ e ∈ es, e.mode &&& 0o7777 = e.mode)
    (hname : ∀ e ∈ es, archiveName e.path ≠ trailerName) (t : Bytes) :
    ReadsAs (write es ++ t) es := by
  refine ⟨es.map Entry.stored, read_write hfit (fun e he => ?_) t, ?_⟩
  · rw [(hroot e he).lossy_archiveName]
    exact hname e he
  · rw [List.forall₂_map_right_iff, List.forall₂_same]
    exact fun e he => Entry.same_stored (hroot e he) (hmode e he)

/-- An entry with an absolute path in normal form, without a backslash and not `/TRAILER!!!`, with
    permission bits only in its mode and with sizes below `2 ^ 32 - 1`. -/
structure Entry.Plain (e : Entry) : Prop where
  normal : Path.NormalAbsolute e.path
  backslash : 92 ∉ e.path
  trailer : e.path ≠ bytes "/TRAILER!!!"
  mode : e.mode ≤ 0o7777
  name : (archiveName e.path).length < 2 ^ 32 - 1
  payload : e.kind.payload.length < 2 ^ 32 - 1

instance (e : Entry) : Decidable e.Plain :=
  decidable_of_iff (Path.NormalAbsolute e.path ∧ 92 ∉ e.path ∧ e.path ≠ bytes "/TRAILER!!!" ∧
      e.mode ≤ 0o7777 ∧ (archiveName e.path).length < 2 ^ 32 - 1 ∧
      e.kind.payload.length < 2 ^ 32 - 1)
    ⟨fun ⟨a, b, c, d, e, f⟩ => ⟨a, b, c, d, e, f⟩, fun ⟨a, b, c, d, e, f⟩ => ⟨a, b, c, d, e, f⟩⟩

/-- Of the paths in normal form, only `/TRAILER!!!` is stored under the trailer's name. -/
theorem Entry.Plain.archiveName_ne_trailer {e : Entry} (h : e.Plain) (hroot : Rooted e.path) :
    archiveName e.path ≠ trailerName := by
  obtain ⟨n, hn, -, hname⟩ := hroot.archiveName
  obtain ⟨n', hn', hsep⟩ := h.normal.cons
  have heq : n = n' := (List.cons.inj (hn.symm.trans hn')).2
  subst heq
  have hdrop : n.dropWhile (· = Path.sep) = n := by
    cases n with
    | nil => rfl
    | cons c n => exact List.dropWhile_cons_of_neg (by simpa using hsep)
  intro htrailer
  rw [hname, hdrop] at htrailer
  split at htrailer
  · exact absurd htrailer (by decide)
  · refine h.trailer ?_
    rw [hn, htrailer]
    decide

/-- **Reading undoes writing**, whatever follows: entries whose paths are UTF-8 come back with every
    field and in order. -/
theorem read_undoes_write (es : List Entry) (hes : ∀ e ∈ es, e.Plain)
    (hutf8 : ∀ e ∈ es, Valid e.path) (t : Bytes) : ReadsAs (write es ++ t) es := by
  have hroot : ∀ e ∈ es, Rooted e.path := by
    intro e he
    obtain ⟨n, hn, -⟩ := (hes e he).normal.cons
    exact ⟨⟨n, hn⟩, hutf8 e he, (hes e he).backslash⟩
  apply readsAs_write hroot
  · intro e he
    have hn := (hes e he).name
    have hp := (hes e he).payload
    exact ⟨by omega, by omega⟩
  · intro e he
    exact mode_of_le (hes e he).mode
  · intro e he
    exact (hes e he).archiveName_ne_trailer (hroot e he)

/-- The root directory, a file whose contents are a magic and NULs, a link and a device. -/
def sampleEntries : List Entry :=
  [⟨bytes "/", .dir, 0o755, 0, 0, 0⟩,
    ⟨bytes "/etc/shadow", .file (magicNewc ++ [0, 0] ++ trailerName), 0o600, 1, 2, 3⟩,
    ⟨bytes "/etc/null", .symlink ⟨bytes "/dev/null", by decide⟩, 0o777, 0, 0, 0⟩,
    ⟨bytes "/dev/console", .charDev 5 1, 0o600, 0, 5, 0⟩]

/-- Whatever stands behind the trailer is not looked at. -/
theorem read_undoes_write_sample :
    ReadsAs (write sampleEntries ++ bytes "070701 and more") sampleEntries :=
  read_undoes_write sampleEntries (by decide) (by decide) _

/-- A path that is not UTF-8 comes back with a replacement character in it. -/
theorem read_changes_a_name_that_is_not_utf8 :
    ¬ ∀ (es : List Entry) (t : Bytes), (∀ e ∈ es, e.Plain) → ReadsAs (write es ++ t) es := by
  intro h
  have hplain : ∀ e ∈ [(⟨[47, 0xFF], .file [], 0o644, 0, 0, 0⟩ : Entry)], e.Plain := by
    decide
  have hread : read (write [⟨[47, 0xFF], .file [], 0o644, 0, 0, 0⟩] ++ []) =
      .ok [⟨47 :: replacement, .file [], 0o644, 0, 0, 0⟩] := by
    decide +kernel
  obtain ⟨es', hes', hsame⟩ := h _ [] hplain
  rw [hread] at hes'
  cases hes'
  rcases hsame with _ | ⟨⟨hpath, -⟩, -⟩
  exact absurd hpath (by decide)

end CdjEmu.Cpio
