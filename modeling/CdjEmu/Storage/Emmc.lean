/-
  THE RAW EMMC IMAGE — a partition table, a staged cabinet and a U-Boot environment on one disk.

  1. **Layout** — each deck's partitions, placed one behind the other on 1 MiB boundaries by a
     cursor, the last one up to the backup table.
  2. **The writers** — the GPT; the cabinet behind a header at the start of its partition; the
     environment, as `key=value` texts, at an offset of its own that lies in the first partition.
  3. **The environment's reader** — CRC, entries up to the first empty one, each cut at its first
     `=`.
  4. **The law** — `image_holds_everything`: the writes are apart, so the final image holds each of
     them whole, and `refused_of_long`: a cabinet that does not fit is refused before any of it is
     written.

  The image is a list of octets of the disk's size, and each writer gives the places and the octets
  of its writes.  Names of partitions are texts that are stored in 16-bit units, the sizes come from
  a table by the player, and the GUIDs are parameters.  The firmware's revision, the serial and the
  title become variables of the environment, of which the reader has to find every one, in order,
  and no other.
-/
import CdjEmu.Lib.Split
import CdjEmu.Runtime.QemuArgs
import CdjEmu.Storage.Gpt

namespace CdjEmu.Emmc

open Text Gpt
open Qemu (Model)

/-- The sizes, and the places of what is written. -/
def MB : Nat := 1024 * 1024

def GB : Nat := 1024 * MB

/-- Total virtual disk size. -/
def EMMC_SIZE : Nat := 29 * GB + 100 * MB

def UBOOT_ENV_OFFSET : Nat := 0x003f8000

def UBOOT_ENV_SIZE : Nat := 0x8000

/-- Version metadata from the firmware ISO. -/
structure FirmwareInfo where
  release : Option Str
  revApl : Option Str
  revSystem : Option Str
  miniloader : Option Str

/-- What an image is made for. -/
structure EmmcConfig where
  instanceId : UInt32
  model : Model
  firmware : FirmwareInfo
  cabinet : Option Bytes

/-- Why a writer stops. -/
inductive Stop where
  | panic
  | other (message : Bytes)
  deriving DecidableEq

/-! ## The environment -/

/-- `{n:06}`. -/
def decimal6 (n : Nat) : Bytes := List.replicate (6 - (decimal n).length) 48 ++ decimal n

/-- The deck's serial number. -/
def deviceSerial (instanceId : UInt32) : Bytes :=
  bytes "DJMP" ++ decimal6 instanceId.toNat ++ bytes "EH"

/-- A player's name, as its environment has it. -/
def title : Model → Bytes
  | .cdj3k => bytes "CDJ-3000"
  | .cdj3kx => bytes "CDJ-3000X"
  | .cdj1500x => bytes "CDJ-1500X"

def modelEnv : Model → Bytes
  | .cdj3k => bytes "CDJ3K-RK3399"
  | .cdj3kx => bytes "CDJ3000X"
  | .cdj1500x => bytes "6516d11b-fad9-4f28-9a01-fd2af5e1ef40"

def systemRevEnv : Model → Option Bytes
  | .cdj3k => some (bytes "rev_kernel")
  | .cdj3kx => some (bytes "rev_system")
  | .cdj1500x => none

/-- A text, or the empty one. -/
def orEmpty (s : Option Str) : Bytes := (s.map Str.bytes).getD []

/-- The variables of a deck's kind, before the revision and the serial. -/
def modelVars (model : Model) (fw : FirmwareInfo) : List (Bytes × Bytes) :=
  match model with
  | .cdj1500x =>
    [(bytes "arch", bytes "arm"),
      (bytes "baudrate", bytes "1500000"),
      (bytes "board", bytes "evb_rk3568"),
      (bytes "board_name", bytes "evb_rk3568"),
      (bytes "bootcmd", bytes "boot_fit"),
      (bytes "bootcmd_emmc", bytes "boot_fit"),
      (bytes "bootdelay", bytes "0"),
      (bytes "cpu", bytes "armv8"),
      (bytes "devnum", bytes "0"),
      (bytes "devtype", bytes "mmc"),
      (bytes "fdt_addr_r", bytes "0x0a100000"),
      (bytes "kernel_addr_no_low_bl32_r", bytes "0x00280000"),
      (bytes "kernel_addr_r", bytes "0x00a80000"),
      (bytes "kernel_bank", bytes "A"),
      (bytes "model", modelEnv model),
      (bytes "model_name", title model),
      (bytes "ramdisk_addr_r", bytes "0x0a200000"),
      (bytes "soc", bytes "rockchip"),
      (bytes "stderr", bytes "serial,vidconsole"),
      (bytes "stdin", bytes "serial,usbkbd"),
      (bytes "stdout", bytes "serial,vidconsole"),
      (bytes "vendor", bytes "rockchip")]
  | .cdj3k | .cdj3kx =>
    [(bytes "arch", bytes "arm"),
      (bytes "baudrate", bytes "115200"),
      (bytes "board", bytes "evb_rk3399"),
      (bytes "board_name", bytes "evb_rk3399"),
      (bytes "bootargs_emmc",
        bytes "earlycon=uart8250,mmio32,0xff1a0000 swiotlb=1 console=ttyFIQ0 rw rootfstype=ramfs rootwait quiet loglevel=3 coherent_pool=1m"),
      (bytes "bootcmd", bytes "run bootcmd_emmc"),
      (bytes "bootcmd_emmc",
        bytes "setenv bootargs $\x7bbootargs_emmc\x7d;load mmc $\x7bpart\x7d $\x7bkernel_addr_r\x7d /$\x7bimage\x7d;run booti_cmd"),
      (bytes "bootdelay", bytes "0"),
      (bytes "booti_cmd", bytes "booti $\x7bkernel_addr_r\x7d - $\x7bfdt_addr_r\x7d"),
      (bytes "boot_type", bytes "normal"),
      (bytes "cpu", bytes "armv8"),
      (bytes "fdt_addr_r", bytes "0x00280000"),
      (bytes "image", bytes "Image"),
      (bytes "kernel_addr_r", bytes "0x10480000"),
      (bytes "kernel_bank", bytes "B"),
      (bytes "miniloader", orEmpty fw.miniloader),
      (bytes "model", modelEnv model),
      (bytes "part", bytes "0:6"),
      (bytes "pxefile_addr_r", bytes "0x00600000"),
      (bytes "ramdisk_addr_r", bytes "0x0a200000"),
      (bytes "release", orEmpty fw.release),
      (bytes "rev_apl", orEmpty fw.revApl),
      (bytes "soc", bytes "rockchip"),
      (bytes "stderr", bytes "serial,vidconsole"),
      (bytes "stdout", bytes "serial,vidconsole"),
      (bytes "update_status", bytes "success"),
      (bytes "vendor", bytes "rockchip")]

/-- The variables a deck's U-Boot environment holds. -/
def ubootVars (model : Model) (fw : FirmwareInfo) (serial : Bytes) : List (Bytes × Bytes) :=
  modelVars model fw ++ (match systemRevEnv model with
    | some rev => [(rev, orEmpty fw.revSystem)]
    | none => []) ++ [(bytes "serial_number", serial)]

/-- `Vec::resize`. -/
def resize (b : Bytes) (n : Nat) : Bytes := b.take n ++ List.replicate (n - b.length) 0

/-- One `key=value` text with the NUL that ends it. -/
def envEntry (kv : Bytes × Bytes) : Bytes := kv.1 ++ 61 :: kv.2 ++ [0]

/-- The environment's data: the entries, an empty one, and zeros; it has to fit its block. -/
def envData (vars : List (Bytes × Bytes)) : Option Bytes :=
  let data := vars.flatMap envEntry ++ [0]
  if data.length ≤ UBOOT_ENV_SIZE - 4 then some (resize data (UBOOT_ENV_SIZE - 4)) else none

/-- Write the environment block: the CRC, and the data behind it. -/
def writeUbootEnv (file : Bytes) (instanceId : UInt32) (model : Model) (fw : FirmwareInfo) :
    Bytes × Except Stop Unit :=
  match envData (ubootVars model fw (deviceSerial instanceId)) with
  | none => (file, .error .panic)
  | some data =>
    let file := splice file UBOOT_ENV_OFFSET (toLe 4 (crc32 data).toNat)
    (splice file (UBOOT_ENV_OFFSET + 4) data, .ok ())

/-- `BTreeMap<String, String>`, from pairs inserted one after the other. -/
def envMap (vars : List (Bytes × Bytes)) : Std.TreeMap Bytes Bytes :=
  vars.foldl (fun m p => m.insert p.1 p.2) ∅

/-- What an environment block holds, none when its CRC is wrong. -/
def readUbootEnv (block : Bytes) : Option (Std.TreeMap Bytes Bytes) :=
  let stored := ofLe (block.take 4)
  let data := block.drop 4
  if (crc32 data).toNat ≠ stored then none
  else some (envMap
    (((data.splitOn 0).takeWhile (· ≠ [])).filterMap fun entry => splitOnce 61 (lossy entry)))

/-! ## The partitions -/

/-- A deck's partitions: the sized ones, the one that takes the rest, and
    the one for the cabinet. -/
structure Layout where
  sized : List (Nat × Chars)
  rest : Chars
  stage : Nat

/-- The partitions of each player. -/
def layout : Model → Layout
  | .cdj1500x =>
    { sized := [(4 * MB, chars "uboot"), (256 * MB, chars "boota"), (256 * MB, chars "bootb"),
      (64 * MB, chars "setting"),
        (512 * MB, chars "update")]
      rest := chars "reserve"
      stage := 2 }
  | .cdj3k | .cdj3kx =>
    { sized := [(4 * MB, chars "bootloader"), (4 * MB, chars "trustfirmware"),
      (4 * MB, chars "resource"),
        (128 * MB, chars "recovery"), (256 * MB, chars "firmware-a"),
        (256 * MB, chars "firmware-b"), (64 * MB, chars "settings")]
      rest := chars "userdata"
      stage := 3 }

/-- The sectors that a size takes. -/
def sectors (size : Nat) : Nat := (size + (SECTOR - 1)) / SECTOR

/-- 1 MiB in sectors. -/
def align : Nat := 2048

/-- A partition's sectors, and its name. -/
structure Placed where
  first : Nat
  last : Nat
  name : Chars

/-- The partition at the cursor, and the cursor behind it, rounded up to a boundary. -/
def place (cursor : Nat) (size : Nat) (name : Chars) : Placed × Nat :=
  let last := cursor + sectors size - 1
  let next := last + 1
  (⟨cursor, last, name⟩, if next % align = 0 then next else (next / align + 1) * align)

/-- The sized partitions one behind the other, and the cursor after them. -/
def placeAll : Nat → List (Nat × Chars) → List Placed × Nat
  | cursor, [] => ([], cursor)
  | cursor, (size, name) :: rest =>
    let (p, next) := place cursor size name
    let (ps, last) := placeAll next rest
    (p :: ps, last)

/-- The sectors of the disk. -/
def diskSectors : Nat := EMMC_SIZE / SECTOR

/-- A deck's partitions: the sized ones, and the rest of the disk up to the backup table. -/
def placed (l : Layout) : List Placed :=
  let (ps, cursor) := placeAll align l.sized
  ps ++ [⟨cursor, diskSectors - GPT_BACKUP_RESERVED_SECTORS - 1, l.rest⟩]

/-- `PartEntry::new`, with the partition's random GUID. -/
def Placed.entry (p : Placed) (guid : Guid) : PartEntry where
  typeGuid := TYPE_LINUX_DATA
  partGuid := guid
  firstLba := UInt64.ofNat p.first
  lastLba := UInt64.ofNat p.last
  attrs := 0
  name := p.name

/-- The partition table of a model; `guids` are the partitions' random GUIDs. -/
def partitions (model : Model) (guids : Nat → Guid) : List PartEntry :=
  (placed (layout model)).zipIdx.map fun p => p.1.entry (guids p.2)

/-! ## The cabinet -/

/-- What a staged cabinet starts with. -/
def CABINET_STAGE_MAGIC : Bytes := bytes "CDJ3KCAB1"

def CABINET_STAGE_HEADER : Nat := 512

/-- The header's text. -/
def stageText (size : Nat) : Bytes :=
  CABINET_STAGE_MAGIC ++ bytes "\nsize=" ++ decimal size ++ bytes "\n"

/-- The sectors of the partition, in octets. -/
def capacity (part : PartEntry) : Nat := (part.lastLba.toNat - part.firstLba.toNat + 1) * SECTOR

/-- A name as octets, for a message. -/
def utf8 (s : Chars) : Bytes := s.flatMap String.utf8EncodeChar

/-- Write `cabinet` into `part`, behind the header. -/
def stageCabinet (file : Bytes) (part : PartEntry) (cabinet : Bytes) : Bytes × Except Stop Unit :=
  let needed := CABINET_STAGE_HEADER + cabinet.length
  if capacity part < needed then
    (file, .error
      (.other (bytes "cabinet.img (" ++ decimal cabinet.length ++ bytes " B) exceeds the " ++
        utf8 part.name ++
      bytes " partition (" ++ decimal (capacity part) ++ bytes " B)")))
  else
    let at' := part.firstLba.toNat * SECTOR
    let file := splice file at' (resize (stageText cabinet.length) CABINET_STAGE_HEADER)
    (splice file (at' + CABINET_STAGE_HEADER) cabinet, .ok ())

/-! ## The image -/

/-- Write the whole image into `file`: the table, the cabinet, the environment. -/
def writeGptRaw (file : Bytes) (config : EmmcConfig) (guids : Nat → Guid) (diskGuid : Guid) :
    Bytes × Except Stop Unit :=
  let parts := partitions config.model guids
  match writeGpt file diskSectors parts diskGuid with
  | none => (file, .error .panic)
  | some file =>
    match config.cabinet with
    | none => writeUbootEnv file config.instanceId config.model config.firmware
    | some cabinet =>
      match parts[(layout config.model).stage]? with
      | none => (file, .error .panic)
      | some part =>
        match stageCabinet file part cabinet with
        | (file, .error e) => (file, .error e)
        | (file, .ok ()) => writeUbootEnv file config.instanceId config.model config.firmware

/-! ## Where the partitions lie -/

/-- What the cursor leaves behind: the partitions in order, each on a boundary, all
    before where it stands. -/
structure Laid (cursor : Nat) (ps : List Placed) (next : Nat) : Prop where
  aligned : align ∣ next
  first : ∀ p ∈ ps, align ∣ p.first ∧ cursor ≤ p.first ∧ p.first ≤ p.last ∧ p.last < next
  apart : ps.Pairwise fun p q => p.last < q.first
  le : cursor ≤ next

/-- One partition: the cursor moves behind it, to a boundary again. -/
theorem place_spec (name : Chars) {cursor size : Nat} (hcursor : align ∣ cursor)
    (hsize : 0 < size) :
    Laid cursor [(place cursor size name).1] (place cursor size name).2 := by
  have hsectors : 0 < sectors size := by
    rw [sectors, show SECTOR = 512 from rfl]
    omega
  have hnext : align ∣ (place cursor size name).2 ∧
      cursor + sectors size ≤ (place cursor size name).2 := by
    rw [place, show align = 2048 from rfl]
    split
    · omega
    · omega
  constructor
  · exact hnext.1
  · intro p hp
    obtain rfl := List.mem_singleton.mp hp
    show align ∣ cursor ∧ cursor ≤ cursor ∧ cursor ≤ cursor + sectors size - 1 ∧
        cursor + sectors size - 1 < _
    refine ⟨hcursor, Nat.le_refl _, ?_, ?_⟩
    · omega
    · omega
  · exact List.pairwise_singleton _ _
  · omega

/-- Partitions behind partitions. -/
theorem Laid.append {c₁ c₂ c₃ : Nat} {ps qs : List Placed} (h : Laid c₁ ps c₂)
    (h' : Laid c₂ qs c₃) : Laid c₁ (ps ++ qs) c₃ := by
  have hle := h.le
  have hle' := h'.le
  constructor
  · exact h'.aligned
  · intro p hp
    rcases List.mem_append.mp hp with hp | hp
    · obtain ⟨ha, hc, hl, hn⟩ := h.first p hp
      exact ⟨ha, hc, hl, by omega⟩
    · obtain ⟨ha, hc, hl, hn⟩ := h'.first p hp
      exact ⟨ha, by omega, hl, hn⟩
  · refine List.pairwise_append.mpr ⟨h.apart, h'.apart, ?_⟩
    intro p hp q hq
    have := (h.first p hp).2.2.2
    have := (h'.first q hq).2.1
    omega
  · omega

/-- **The cursor's run**: sizes that are not zero are laid one behind the other. -/
theorem placeAll_spec {cursor : Nat} {sized : List (Nat × Chars)} (hcursor : align ∣ cursor)
    (hsize : ∀ s ∈ sized, 0 < s.1) :
    Laid cursor (placeAll cursor sized).1 (placeAll cursor sized).2 := by
  induction sized generalizing cursor with
  | nil =>
    constructor
    · exact hcursor
    · intro p hp
      cases hp
    · exact List.Pairwise.nil
    · exact Nat.le_refl _
  | cons s sized ih =>
    have hone := place_spec s.2 hcursor (hsize s List.mem_cons_self)
    exact hone.append (ih hone.aligned fun t ht => hsize t (List.mem_cons_of_mem _ ht))

/-- Each deck's sized partitions leave room for the last one. -/
theorem sized_fit (model : Model) :
    (∀ s ∈ (layout model).sized, 0 < s.1) ∧
      (placeAll align (layout model).sized).2 ≤ diskSectors - GPT_BACKUP_RESERVED_SECTORS - 1 := by
  cases model <;> decide

/-- **The partitions of a deck**: on 1 MiB boundaries, one behind the other,
    up to the backup table. -/
theorem placed_spec (model : Model) :
    (∀ p ∈ placed (layout model), align ∣ p.first ∧ align ≤ p.first ∧ p.first ≤ p.last ∧
        p.last ≤ diskSectors - GPT_BACKUP_RESERVED_SECTORS - 1) ∧
      (placed (layout model)).Pairwise fun p q => p.last < q.first := by
  obtain ⟨hsize, hroom⟩ := sized_fit model
  have hlaid := placeAll_spec (Nat.dvd_refl align) hsize
  constructor
  · intro p hp
    rcases List.mem_append.mp hp with hp | hp
    · obtain ⟨ha, hc, hl, hn⟩ := hlaid.first p hp
      exact ⟨ha, hc, hl, by omega⟩
    · obtain rfl := List.mem_singleton.mp hp
      exact ⟨hlaid.aligned, hlaid.le, hroom, Nat.le_refl _⟩
  · refine List.pairwise_append.mpr ⟨hlaid.apart, List.pairwise_singleton _ _, ?_⟩
    intro p hp q hq
    obtain rfl := List.mem_singleton.mp hq
    exact (hlaid.first p hp).2.2.2

/-- The disk's size in sectors. -/
theorem diskSectors_eq : diskSectors = 61022208 := by decide

section Partitions

variable {model : Model} {guids : Nat → Guid}

/-- Their places fit the entries. -/
theorem lba_of_placed {p : Placed}
    (h : p.first ≤ p.last ∧ p.last ≤ diskSectors - GPT_BACKUP_RESERVED_SECTORS - 1) (guid : Guid) :
    (p.entry guid).firstLba.toNat = p.first ∧ (p.entry guid).lastLba.toNat = p.last := by
  have hsectors := diskSectors_eq
  constructor
  · exact UInt64.toNat_ofNat_of_lt' (show p.first < 2 ^ 64 by omega)
  · exact UInt64.toNat_ofNat_of_lt' (show p.last < 2 ^ 64 by omega)

/-- An entry of the table is a placed partition's. -/
theorem placed_of_mem {part : PartEntry} (h : part ∈ partitions model guids) :
    ∃ p ∈ placed (layout model), ∃ guid, part = p.entry guid := by
  obtain ⟨q, hq, rfl⟩ := List.mem_map.mp h
  exact ⟨q.1, List.fst_mem_of_mem_zipIdx hq, _, rfl⟩

/-- **The partitions of the table** start on 1 MiB boundaries, inside the usable
    sectors, and are disjoint. -/
theorem partitions_spec (model : Model) (guids : Nat → Guid) :
    (∀ p ∈ partitions model guids, align ∣ p.firstLba.toNat ∧
      GPT_FIRST_USABLE_LBA ≤ p.firstLba.toNat ∧
        p.firstLba.toNat ≤ p.lastLba.toNat ∧
        p.lastLba.toNat ≤ diskSectors - GPT_BACKUP_RESERVED_SECTORS - 1) ∧
      (partitions model guids).Pairwise fun p q => p.lastLba.toNat < q.firstLba.toNat := by
  obtain ⟨hplaced, hapart⟩ := placed_spec model
  constructor
  · intro part hpart
    obtain ⟨p, hp, guid, rfl⟩ := placed_of_mem hpart
    obtain ⟨ha, hc, hl, hn⟩ := hplaced p hp
    obtain ⟨hfirst, hlast⟩ := lba_of_placed ⟨hl, hn⟩ guid
    rw [hfirst, hlast]
    exact ⟨ha, Nat.le_trans (by decide) hc, hl, hn⟩
  · rw [partitions, List.pairwise_map]
    have hzip : ((placed (layout model)).zipIdx.map Prod.fst).Pairwise fun p q =>
      p.last < q.first := by
      rw [List.zipIdx_map_fst]
      exact hapart
    rw [List.pairwise_map] at hzip
    refine hzip.imp_of_mem ?_
    intro p q hp hq hlt
    have hboundsP := hplaced p.1 (List.fst_mem_of_mem_zipIdx hp)
    have hboundsQ := hplaced q.1 (List.fst_mem_of_mem_zipIdx hq)
    rw [(lba_of_placed hboundsP.2.2 _).2, (lba_of_placed hboundsQ.2.2 _).1]
    exact hlt

/-- No player has more partitions than the table has entries. -/
theorem partitions_fit : (partitions model guids).length ≤ GPT_MAX_ENTRIES := by
  rw [partitions, List.length_map, List.length_zipIdx]
  cases model <;> decide

/-- Every partition has a type. -/
theorem partitions_typed :
    ∀ p ∈ partitions model guids, p.typeGuid.toList ≠ List.replicate 16 0 := by
  intro part hpart
  obtain ⟨p, -, guid, rfl⟩ := placed_of_mem hpart
  exact (by decide : TYPE_LINUX_DATA.toList ≠ List.replicate 16 0)

/-- The partition for the cabinet begins behind the environment. -/
theorem stage_spec (model : Model) (guids : Nat → Guid) :
    ∃ part ∈ partitions model guids, (partitions model guids)[(layout model).stage]? = some part ∧
      UBOOT_ENV_OFFSET + UBOOT_ENV_SIZE ≤ part.firstLba.toNat * SECTOR := by
  have hplaced : ∃ p, (placed (layout model))[(layout model).stage]? = some p ∧
      UBOOT_ENV_OFFSET + UBOOT_ENV_SIZE ≤ p.first * SECTOR := by
    cases model
    · exact ⟨⟨26624, 288767, chars "recovery"⟩, by rfl, by decide⟩
    · exact ⟨⟨26624, 288767, chars "recovery"⟩, by rfl, by decide⟩
    · exact ⟨⟨534528, 1058815, chars "bootb"⟩, by rfl, by decide⟩
  obtain ⟨p, hp, hafter⟩ := hplaced
  have hget : (partitions model guids)[(layout model).stage]? =
      some (p.entry (guids (layout model).stage)) := by
    rw [partitions, List.getElem?_map, List.getElem?_zipIdx, hp]
    simp
  obtain ⟨-, -, hl, hn⟩ := (placed_spec model).1 p (List.mem_of_getElem? hp)
  refine ⟨_, List.mem_of_getElem? hget, hget, ?_⟩
  rw [(lba_of_placed ⟨hl, hn⟩ _).1]
  exact hafter

end Partitions

/-! ## What the environment's reader finds -/

/-- A text that can stand in the environment: valid, and no NUL ends it early. -/
def EnvText (s : Bytes) : Prop := Valid s ∧ 0 ∉ s

instance (s : Bytes) : Decidable (EnvText s) := inferInstanceAs (Decidable (_ ∧ _))

/-- A variable that can stand in the environment: no `=` cuts its name. -/
def Variable (kv : Bytes × Bytes) : Prop := EnvText kv.1 ∧ 61 ∉ kv.1 ∧ EnvText kv.2

/-- A variable is read back from its text. -/
theorem entry_read {kv : Bytes × Bytes} (h : Variable kv) :
    splitOnce 61 (lossy (kv.1 ++ 61 :: kv.2)) = some kv := by
  obtain ⟨⟨hkey, -⟩, heq, hvalue, -⟩ := h
  rw [lossy_of_valid (hkey.append (hvalue.cons_ascii (by decide))), splitOnce_append heq]

/-- **The entries up to the first empty one** are the variables, in order. -/
theorem entries_split {vars : List (Bytes × Bytes)} (hvars : ∀ kv ∈ vars, Variable kv)
    (rest : Bytes) :
    ((vars.flatMap envEntry ++ 0 :: rest).splitOn 0).takeWhile (· ≠ []) = vars.map fun kv =>
      kv.1 ++ 61 :: kv.2 := by
  induction vars with
  | nil =>
    rw [List.flatMap_nil, List.nil_append, splitOn_cons_self]
    rfl
  | cons kv vars ih =>
    obtain ⟨⟨-, hkey⟩, -, -, hvalue⟩ := hvars kv List.mem_cons_self
    have hnul : (0 : UInt8) ∉ kv.1 ++ 61 :: kv.2 := by
      intro hmem
      rcases List.mem_append.mp hmem with hmem | hmem
      · exact hkey hmem
      · rcases List.mem_cons.mp hmem with h61 | hmem
        · exact absurd h61 (by decide)
        · exact hvalue hmem
    have htext : (kv :: vars).flatMap envEntry ++ 0 :: rest = (kv.1 ++ 61 :: kv.2) ++ 0 ::
        (vars.flatMap envEntry ++ 0 :: rest) := by
      simp [envEntry]
    rw [htext, splitOn_append_cons hnul, List.takeWhile_cons_of_pos (by simp), ih fun v hv =>
      hvars v (List.mem_cons_of_mem _ hv)]
    rfl

/-- The environment's data, when it fits: the entries, the empty one, and zeros. -/
theorem envData_some {vars : List (Bytes × Bytes)} {data : Bytes} (h : envData vars = some data) :
    data.length = UBOOT_ENV_SIZE - 4 ∧ ∃ zeros, data = vars.flatMap envEntry ++ 0 :: zeros := by
  unfold envData at h
  dsimp only at h
  split_ifs at h with hfit
  obtain rfl := Option.some.inj h
  constructor
  · rw [resize, List.length_append, List.length_take, List.length_replicate]
    omega
  · rw [resize, List.take_of_length_le hfit, List.append_assoc]
    exact ⟨_, rfl⟩

/-- **The environment is read back**: its block, with the CRC before the
    data, gives the variables. -/
theorem readUbootEnv_block {vars : List (Bytes × Bytes)} {data : Bytes}
    (hvars : ∀ kv ∈ vars, Variable kv) (hdata : envData vars = some data) :
    readUbootEnv (toLe 4 (crc32 data).toNat ++ data) = some (envMap vars) := by
  obtain ⟨-, zeros, hzeros⟩ := envData_some hdata
  have htake : (toLe 4 (crc32 data).toNat ++ data).take 4 = toLe 4 (crc32 data).toNat :=
    List.take_left' (length_toLe _ _)
  have hdrop : (toLe 4 (crc32 data).toNat ++ data).drop 4 = data :=
    List.drop_left' (length_toLe _ _)
  have hcrc : ofLe (toLe 4 (crc32 data).toNat) = (crc32 data).toNat := by
    have := (crc32 data).toNat_lt
    exact ofLe_toLe (by omega)
  have hpairs : (vars.map fun kv => kv.1 ++ 61 :: kv.2).filterMap
      (fun entry => splitOnce 61 (lossy entry)) = vars := by
    rw [List.filterMap_map]
    calc vars.filterMap ((fun entry => splitOnce 61 (lossy entry)) ∘ fun kv => kv.1 ++ 61 :: kv.2)
        = vars.filterMap some := List.filterMap_congr fun kv hkv => entry_read (hvars kv hkv)
      _ = vars := List.filterMap_some
  rw [readUbootEnv, htake, hdrop, hcrc, if_neg (by simp), hzeros, entries_split hvars, hpairs]

/-! ### The variables of a deck -/

/-- The firmware's strings have no NUL. -/
def FirmwareInfo.NulFree (fw : FirmwareInfo) : Prop :=
  ∀ s : Str, some s ∈ [fw.release, fw.revApl, fw.revSystem, fw.miniloader] → 0 ∉ s.bytes

theorem envText_orEmpty {s : Option Str} (h : ∀ t : Str, s = some t → 0 ∉ t.bytes) :
    EnvText (orEmpty s) := by
  cases s with
  | none => exact ⟨valid_nil, List.not_mem_nil⟩
  | some t => exact ⟨t.valid, h t rfl⟩

/-- A text of digits and capital letters. -/
theorem envText_deviceSerial (instanceId : UInt32) : EnvText (deviceSerial instanceId) := by
  have hdigits : ∀ c ∈ decimal6 instanceId.toNat, 48 ≤ c ∧ c ≤ 57 := by
    intro c hc
    rcases List.mem_append.mp hc with hc | hc
    · rw [List.eq_of_mem_replicate hc]
      decide
    · exact digit_of_mem_decimal hc
  have hdecimal : EnvText (decimal6 instanceId.toNat) := by
    constructor
    · exact valid_of_ascii fun c hc => UInt8.lt_of_le_of_lt (hdigits c hc).2 (by decide)
    · intro hmem
      exact absurd (hdigits 0 hmem).1 (by decide)
  have hstart : EnvText (bytes "DJMP") := by decide
  have hend : EnvText (bytes "EH") := by decide
  constructor
  · exact (hstart.1.append hdecimal.1).append hend.1
  · rw [deviceSerial, List.mem_append, List.mem_append]
    rintro ((hmem | hmem) | hmem)
    · exact hstart.2 hmem
    · exact hdecimal.2 hmem
    · exact hend.2 hmem

/-- The names of a deck's variables are fixed. -/
theorem keys_modelVars (model : Model) (fw : FirmwareInfo) :
    (modelVars model fw).map Prod.fst = (modelVars model ⟨none, none, none, none⟩).map
      Prod.fst := by
  cases model <;> rfl

/-- Each value of a deck's variables is fixed or one of the firmware's strings. -/
theorem envText_values {fw : FirmwareInfo} (hfw : fw.NulFree) (model : Model) :
    ∀ kv ∈ modelVars model fw, EnvText kv.2 := by
  have hrelease : EnvText (orEmpty fw.release) := envText_orEmpty fun t ht => hfw t (by simp [ht])
  have hrevApl : EnvText (orEmpty fw.revApl) := envText_orEmpty fun t ht => hfw t (by simp [ht])
  have hminiloader : EnvText (orEmpty fw.miniloader) := envText_orEmpty fun t ht =>
    hfw t (by simp [ht])
  cases model <;>
    simp only [modelVars, List.forall_mem_cons, hrelease, hrevApl, hminiloader, true_and] <;>
      decide +kernel

/-- A text without NUL is a variable's value. -/
theorem variable_of {key value : Bytes} (hkey : EnvText key ∧ 61 ∉ key) (hvalue : EnvText value) :
    Variable (key, value) :=
  ⟨hkey.1, hkey.2, hvalue⟩

/-- So are all values of the environment. -/
theorem variable_ubootVars {fw : FirmwareInfo} (hfw : fw.NulFree) (model : Model)
    (instanceId : UInt32) :
    ∀ kv ∈ ubootVars model fw (deviceSerial instanceId), Variable kv := by
  have hrevSystem : EnvText (orEmpty fw.revSystem) := envText_orEmpty fun t ht =>
    hfw t (by simp [ht])
  have hkeys : ∀ k ∈ (modelVars model ⟨none, none, none, none⟩).map Prod.fst, EnvText k ∧
      61 ∉ k := by
    cases model <;> decide
  intro kv hkv
  rcases List.mem_append.mp hkv with hkv | hkv
  · rcases List.mem_append.mp hkv with hkv | hkv
    · have hkey := hkeys kv.1 (by rw [← keys_modelVars model fw]; exact List.mem_map_of_mem hkv)
      exact variable_of hkey (envText_values hfw model kv hkv)
    · cases model with
      | cdj3k =>
        obtain rfl := List.mem_singleton.mp hkv
        exact variable_of (by decide) hrevSystem
      | cdj3kx =>
        obtain rfl := List.mem_singleton.mp hkv
        exact variable_of (by decide) hrevSystem
      | cdj1500x => cases hkv
  · obtain rfl := List.mem_singleton.mp hkv
    exact variable_of (by decide) (envText_deviceSerial instanceId)

/-! ## The image -/

/-- The cabinet's writes: the header, and the cabinet behind it. -/
def stageWrites (part : PartEntry) (cabinet : Bytes) : List (Nat × Bytes) :=
  [(part.firstLba.toNat * SECTOR, resize (stageText cabinet.length) CABINET_STAGE_HEADER),
    (part.firstLba.toNat * SECTOR + CABINET_STAGE_HEADER, cabinet)]

/-- The environment's writes: the CRC, and the data behind it. -/
def envWrites (data : Bytes) : List (Nat × Bytes) :=
  [(UBOOT_ENV_OFFSET, toLe 4 (crc32 data).toNat), (UBOOT_ENV_OFFSET + 4, data)]

/-- The writes between the table and the environment. -/
def cabinetWrites (part : PartEntry) (cabinet : Option Bytes) : List (Nat × Bytes) :=
  (cabinet.map (stageWrites part)).getD []

/-- A file has the size it was given. -/
theorem length_resize {b : Bytes} {n : Nat} : (resize b n).length = n := by
  rw [resize, List.length_append, List.length_take, List.length_replicate]
  omega

/-- The header's text fits the header: a length below 2 ^ 64 has at most 20 digits. -/
theorem length_stageText (size : Nat) (h : size < 2 ^ 64) :
    (stageText size).length ≤ CABINET_STAGE_HEADER := by
  have hdigits : (decimal size).length ≤ 20 := by
    rw [decimal, List.length_map]
    rcases Nat.eq_zero_or_pos size with rfl | hpos
    · decide
    · exact (Nat.length_toDigits_le_iff (by decide) (by decide)).mpr (by omega)
  have hmagic : CABINET_STAGE_MAGIC.length = 9 := by decide
  have hkey : (bytes "\nsize=").length = 6 := by decide
  have hend : (bytes "\n").length = 1 := by decide
  rw [stageText, List.length_append, List.length_append, List.length_append, hmagic, hkey, hend,
    show CABINET_STAGE_HEADER = 512 from rfl]
  omega

section Image

variable {file image : Bytes} {config : EmmcConfig} {guids : Nat → Guid} {diskGuid : Guid}

/-- The table is on the disk before anything else is written. -/
theorem table_written (file : Bytes) (model : Model) :
    writeGpt file diskSectors (partitions model guids) diskGuid =
      some (writeAll file (gptWrites diskSectors (partitions model guids) diskGuid)) := by
  have hsectors := diskSectors_eq
  exact writeGpt_eq partitions_fit (by omega) (by rw [hsectors]; decide)

/-- **What is written** when the writer returns `Ok`, and that the cabinet fits. -/
theorem writes_of_ok {part : PartEntry}
    (hpart : (partitions config.model guids)[(layout config.model).stage]? = some part)
    (hok : writeGptRaw file config guids diskGuid = (image, .ok ())) :
    ∃ data, envData (ubootVars config.model config.firmware (deviceSerial config.instanceId)) =
      some data ∧
      image = writeAll file (gptWrites diskSectors (partitions config.model guids) diskGuid ++
        (cabinetWrites part config.cabinet ++ envWrites data)) ∧
      ∀ cabinet, config.cabinet = some cabinet →
      CABINET_STAGE_HEADER + cabinet.length ≤ capacity part := by
  -- the environment is what every run that returns `Ok` ends with
  have henv : ∀ file : Bytes, writeUbootEnv file config.instanceId config.model config.firmware =
      (image, .ok ()) →
      ∃ data, envData (ubootVars config.model config.firmware (deviceSerial config.instanceId)) =
        some data ∧
        image = writeAll file (envWrites data) := by
    intro file h
    unfold writeUbootEnv at h
    split at h
    · cases h
    · rename_i data hdata
      exact ⟨data, hdata, (congrArg Prod.fst h).symm⟩
  unfold writeGptRaw at hok
  simp only [table_written, hpart] at hok
  rw [cabinetWrites]
  split at hok
  · rename_i hnone
    obtain ⟨data, hdata, himage⟩ := henv _ hok
    refine ⟨data, hdata, ?_, ?_⟩
    · rw [himage, hnone, writeAll_append]
      rfl
    · intro cabinet h
      cases hnone.symm.trans h
  · rename_i cabinet hcabinet
    unfold stageCabinet at hok
    dsimp only at hok
    split_ifs at hok with hlong
    · cases hok
    · obtain ⟨data, hdata, himage⟩ := henv _ hok
      refine ⟨data, hdata, ?_, ?_⟩
      · rw [himage, hcabinet, writeAll_append, writeAll_append]
        rfl
      · intro c h
        obtain rfl : cabinet = c := Option.some.inj (hcabinet.symm.trans h)
        omega

/-- **The writes do not touch each other**, and stay on the disk. -/
theorem writes_apart (diskGuid : Guid) {part : PartEntry} {data : Bytes}
    (hpart : part ∈ partitions config.model guids)
    (hafter : UBOOT_ENV_OFFSET + UBOOT_ENV_SIZE ≤ part.firstLba.toNat * SECTOR)
    (hdata : data.length = UBOOT_ENV_SIZE - 4) (hfit : ∀ cabinet, config.cabinet = some cabinet →
      CABINET_STAGE_HEADER + cabinet.length ≤ capacity part) :
    Inside (diskSectors * SECTOR) (gptWrites diskSectors (partitions config.model guids) diskGuid ++
        (cabinetWrites part config.cabinet ++ envWrites data)) ∧
      (gptWrites diskSectors (partitions config.model guids) diskGuid ++
        (cabinetWrites part config.cabinet ++ envWrites data)).Pairwise Apart := by
  have hsectors := diskSectors_eq
  have hreserved : GPT_BACKUP_RESERVED_SECTORS = 33 := rfl
  have hsector : SECTOR = 512 := rfl
  have hoffset : UBOOT_ENV_OFFSET = 0x3f8000 := rfl
  have hsize : UBOOT_ENV_SIZE = 0x8000 := rfl
  have hheader : CABINET_STAGE_HEADER = 512 := rfl
  have henough : 68 ≤ diskSectors := by omega
  have hroom : 0x400000 ≤ (diskSectors - 33) * 512 := by omega
  obtain ⟨-, -, hle, hlast⟩ := (partitions_spec config.model guids).1 part hpart
  rw [hsector] at hafter
  -- the table is at the ends, the environment in the first partition, the cabinet behind it
  have hgpt : ∀ w ∈ gptWrites diskSectors (partitions config.model guids) diskGuid,
      w.1 + w.2.length ≤ 34 * 512 ∨ (diskSectors - 33) * 512 ≤ w.1 :=
        gptWrites_ends partitions_fit henough
  have henv : ∀ w ∈ envWrites data, 34 * 512 ≤ w.1 ∧ w.1 + w.2.length ≤ 0x400000 := by
    intro w hw
    rcases List.mem_cons.mp hw with rfl | hw
    · simp only [length_toLe]
      omega
    · obtain rfl := List.mem_singleton.mp hw
      dsimp only
      omega
  have hcabinet : ∀ w ∈ cabinetWrites part config.cabinet, 0x400000 ≤ w.1 ∧
      w.1 + w.2.length ≤ (diskSectors - 33) * 512 := by
    intro w hw
    cases hc : config.cabinet with
    | none =>
      rw [hc] at hw
      cases hw
    | some cabinet =>
      rw [hc] at hw
      have hroom := hfit cabinet hc
      rw [capacity, hsector] at hroom
      rcases List.mem_cons.mp hw with rfl | hw
      · simp only [length_resize, hsector]
        omega
      · obtain rfl := List.mem_singleton.mp hw
        simp only [hsector]
        omega
  constructor
  · intro w hw
    rcases List.mem_append.mp hw with hw | hw
    · exact gptWrites_inside partitions_fit henough w hw
    · rw [hsector]
      rcases List.mem_append.mp hw with hw | hw
      · have := hcabinet w hw
        omega
      · have := henv w hw
        omega
  · refine List.pairwise_append.mpr
      ⟨gptWrites_apart partitions_fit henough, List.pairwise_append.mpr ⟨?_, ?_, ?_⟩, ?_⟩
    · cases config.cabinet with
      | none => exact List.Pairwise.nil
      | some cabinet =>
        refine List.pairwise_pair.mpr (Or.inl ?_)
        exact Nat.le_of_eq (congrArg _ length_resize)
    · refine List.pairwise_pair.mpr (Or.inl ?_)
      exact Nat.le_of_eq (congrArg _ (length_toLe _ _))
    · intro v hv w hw
      have := (hcabinet v hv).1
      have := (henv w hw).2
      exact Or.inr (by omega)
    · intro v hv w hw
      have hw : 34 * 512 ≤ w.1 ∧ w.1 + w.2.length ≤ (diskSectors - 33) * 512 := by
        rcases List.mem_append.mp hw with hw | hw
        · obtain ⟨hafterEnv, hbefore⟩ := hcabinet w hw
          exact ⟨by omega, hbefore⟩
        · obtain ⟨hafterTable, hbefore⟩ := henv w hw
          exact ⟨hafterTable, Nat.le_trans hbefore hroom⟩
      rcases hgpt v hv with hv | hv
      · exact Or.inl (by omega)
      · exact Or.inr (by omega)

/-- **It returns `Ok`** whenever the variables fit the block and the cabinet its partition. -/
theorem ok_of_fit (file : Bytes) (diskGuid : Guid) {part : PartEntry} {data : Bytes}
    (hpart : (partitions config.model guids)[(layout config.model).stage]? = some part)
    (hdata : envData (ubootVars config.model config.firmware (deviceSerial config.instanceId)) =
      some data)
    (hfit : ∀ cabinet, config.cabinet = some cabinet →
      CABINET_STAGE_HEADER + cabinet.length ≤ capacity part) :
    ∃ image, writeGptRaw file config guids diskGuid = (image, .ok ()) := by
  have henv : ∀ file : Bytes, ∃ image,
      writeUbootEnv file config.instanceId config.model config.firmware = (image, .ok ()) := by
    intro file
    exact ⟨writeAll file (envWrites data), by simp only [writeUbootEnv, hdata]; rfl⟩
  unfold writeGptRaw
  simp only [table_written, hpart]
  cases hc : config.cabinet with
  | none => exact henv _
  | some cabinet =>
    have hroom := hfit cabinet hc
    simp only [stageCabinet,
      if_neg (show ¬ capacity part < CABINET_STAGE_HEADER + cabinet.length by omega)]
    exact henv _

/-- **A cabinet that does not fit is refused**: the disk holds the table and nothing else. -/
theorem refused_of_long (file : Bytes) (diskGuid : Guid) {part : PartEntry} {cabinet : Bytes}
    (hpart : (partitions config.model guids)[(layout config.model).stage]? = some part)
    (hcabinet : config.cabinet = some cabinet)
    (hlong : capacity part < CABINET_STAGE_HEADER + cabinet.length) :
    ∃ message, writeGptRaw file config guids diskGuid =
      (writeAll file (gptWrites diskSectors (partitions config.model guids) diskGuid),
        .error (.other message)) := by
  unfold writeGptRaw
  simp only [table_written, hpart, hcabinet, stageCabinet, if_pos hlong]
  exact ⟨_, rfl⟩

/-- What a reader finds in an image of `config`. -/
structure Holds (image : Bytes) (config : EmmcConfig) (guids : Nat → Guid) : Prop where
  /-- The partition table, at both ends. -/
  table : ∃ h b, ReadsBack image diskSectors (partitions config.model guids) h b
  /-- The header and exactly the cabinet, in the partition for it. -/
  staged : ∀ cabinet, config.cabinet = some cabinet → ∃ part,
    (partitions config.model guids)[(layout config.model).stage]? = some part ∧
    CABINET_STAGE_HEADER + cabinet.length ≤ capacity part ∧
    (∃ zeros, slice image (part.firstLba.toNat * SECTOR) CABINET_STAGE_HEADER =
      stageText cabinet.length ++ List.replicate zeros 0) ∧
    slice image (part.firstLba.toNat * SECTOR + CABINET_STAGE_HEADER) cabinet.length = cabinet
  /-- The variables of the deck, with a valid CRC. -/
  env : readUbootEnv (slice image UBOOT_ENV_OFFSET UBOOT_ENV_SIZE) =
    some (envMap (ubootVars config.model config.firmware (deviceSerial config.instanceId)))

/-- When every write succeeds the image holds everything. -/
theorem holds_of_ok (hfile : file.length = EMMC_SIZE) (hfw : config.firmware.NulFree)
    (hok : writeGptRaw file config guids diskGuid = (image, .ok ())) :
    Holds image config guids := by
  have hsectors := diskSectors_eq
  obtain ⟨part, hmem, hpart, hafter⟩ := stage_spec config.model guids
  obtain ⟨data, hdata, himage, hfit⟩ := writes_of_ok hpart hok
  obtain ⟨hlen, -⟩ := envData_some hdata
  obtain ⟨hinside, hapart⟩ := writes_apart diskGuid hmem hafter hlen hfit
  rw [← show EMMC_SIZE = diskSectors * SECTOR from by decide, ← hfile] at hinside
  -- so each write is found in the image
  have hslice : ∀ w ∈ gptWrites diskSectors (partitions config.model guids) diskGuid ++
      (cabinetWrites part config.cabinet ++ envWrites data), slice image w.1 w.2.length = w.2 := by
    intro w hw
    rw [himage]
    exact slice_writeAll hinside hapart hw
  constructor
  · exact readsBack_of_slices partitions_fit (by omega) (by rw [hsectors]; decide) partitions_typed
      fun w hw => hslice w (List.mem_append_left _ hw)
  · intro cabinet hcabinet
    have hwrites : ∀ w ∈ stageWrites part cabinet, slice image w.1 w.2.length = w.2 := by
      intro w hw
      refine hslice w (List.mem_append_right _ (List.mem_append_left _ ?_))
      rw [hcabinet]
      exact hw
    have hheader := hwrites _ List.mem_cons_self
    have hbody := hwrites _ (List.mem_cons_of_mem _ List.mem_cons_self)
    refine ⟨part, hpart, hfit cabinet hcabinet, ?_, hbody⟩
    have hroom := hfit cabinet hcabinet
    obtain ⟨-, -, hle, hlast⟩ := (partitions_spec config.model guids).1 part hmem
    rw [capacity, show SECTOR = 512 from rfl] at hroom
    have htext := length_stageText cabinet.length (by omega)
    rw [length_resize] at hheader
    rw [hheader, resize, List.take_of_length_le htext]
    exact ⟨_, rfl⟩
  · have hcrc := hslice (UBOOT_ENV_OFFSET, toLe 4 (crc32 data).toNat)
      (List.mem_append_right _ (List.mem_append_right _ List.mem_cons_self))
    have hblock := hslice (UBOOT_ENV_OFFSET + 4, data)
      (List.mem_append_right
        _ (List.mem_append_right _ (List.mem_cons_of_mem _ List.mem_cons_self)))
    rw [length_toLe] at hcrc
    rw [hlen] at hblock
    rw [show UBOOT_ENV_SIZE = 4 + (UBOOT_ENV_SIZE - 4) from rfl, slice_add, hcrc, hblock]
    exact readUbootEnv_block (variable_ubootVars hfw config.model config.instanceId) hdata

end Image

/-- A deck with a revision that has an `=`, an empty one, and a small cabinet. -/
def smallConfig : EmmcConfig where
  instanceId := 7
  model := .cdj3k
  firmware :=
    { release := some ⟨bytes "1.10", by decide⟩
      revApl := some ⟨bytes "a=b=c", by decide⟩
      revSystem := some ⟨[], by decide⟩
      miniloader := none }
  cabinet := some (bytes "cab")

end CdjEmu.Emmc
