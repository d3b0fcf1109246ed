/-
  ONE FILE, TWO STRUCTS — every run of the settings operations on a slot.

  The panel's three keys stand in the slot's `settings.txt` beside the settings of
  `Storage/SlotSettings`. Each struct is saved by reading the whole file, setting its own keys and
  writing the file again, a load mints and saves a MAC when the file has none, and an update is a
  load, a change and a save.

  The abstract view of the file is what it HOLDS: a value for each registered key.  `held_step` says
  once what an operation does to that view — it puts what it has written, and nothing else — and the
  laws of whole runs are read off it, through a record of what the run's operations wrote:

    * the panel's keys hold what the last successful panel save wrote, the other keys what was last
      written to them for the settings, each whatever the other struct's operations did in between;
    * a valid MAC stays until an update or a save sets another, a serial until one is set;
    * a file that is no text stays as it is, byte for byte, and no write to it succeeds.

  `f32` is a parameter: how it is written, read and clamped.

  1. **Program** — the six operations on a slot's settings file, each with its reads and writes that
     may fail; the two structs with their keys, of which none is in both.

  2. **The crux (`held_step`)** — an operation that writes has read the file first, so every key
     that it does not set comes through; one that fails leaves the file.  A MAC that a load mints is
     written like any other setting.

  3. **Bridge** — a value survives because its text is clean; the texts that users and hosts choose
     are the only ones that need not be, and the condition on the run names them.
-/
import CdjEmu.Lib.Machine
import CdjEmu.Storage.SlotSettings

namespace CdjEmu.Settings

open Chars KeyValue

/-! ## The other operations on the settings -/

namespace InstanceSettings

/-- Load, change and save: nothing is written when the file cannot be read. -/
def update (uuid : Vector UInt8 16) (mutate : InstanceSettings → InstanceSettings)
    (luck luck' : Luck) (file : SlotFile) :
    SlotFile × Bool :=
  match loadOrInitUnlocked uuid luck file with
  | (none, file) => (file, false)
  | (some s, file) => (mutate s).save luck' file

/-- `serial` trimmed and in lower case, if that is 16 hex digits. -/
def parseSocSerial (serial : Chars) : Option Chars :=
  let serial := serial.trim.map Char.toLower
  if isValidSocSerial serial then some serial else none

/-- Pin the slot's serial, giving the stored form. -/
def setSocSerial (uuid : Vector UInt8 16) (serial : Chars) (luck luck' : Luck) (file : SlotFile) :
    SlotFile × Option Chars :=
  match parseSocSerial serial with
  | none => (file, none)
  | some serial =>
    let r := update uuid (fun s => { s with socSerial := some serial }) luck luck' file
    (r.1, if r.2 then some serial else none)

end InstanceSettings

/-! ## The panel's struct -/

/-- `f32`, as the panel's struct uses it. -/
structure Floats (J : Type) where
  half : J
  display : J → Chars
  parse : Chars → Option J
  isFinite : J → Bool
  /-- `clamp(0.0, 1.0)`. -/
  clamp : J → J

/-- What is documented of `f32`: it is written without white space, and a
    finite value is read back. -/
structure Floats.Lawful {J : Type} (F : Floats J) : Prop where
  words : ∀ j, ∀ c ∈ F.display j, isWhitespace c = false
  parse_display : ∀ j, F.isFinite j = true → F.parse (F.display j) = some j

/-- The settings of a panel that a slot keeps. -/
structure PanelSettings (J : Type) where
  screenExtended : Bool
  jogAdjust : J
  vinylSpeed : UInt8

namespace PanelSettings

variable {J : Type} (F : Floats J)

/-- Those of a slot without a file. -/
def default : PanelSettings J := ⟨false, F.half, 0⟩

/-- Read the knobs without writing anything: a file that cannot be read is an empty one. -/
def load (luck : Luck) (file : SlotFile) : PanelSettings J :=
  let map := (tryReadKv luck file).getD ∅
  let d := default F
  { screenExtended := flag map (chars "screen_extended") d.screenExtended
    jogAdjust := (((map[chars "jog_adjust"]?.bind F.parse).filter F.isFinite).map F.clamp).getD
      d.jogAdjust
    vinylSpeed := ((map[chars "vinyl_speed"]?.bind (parseUnsigned (2 ^ 8))).map UInt8.ofNat).getD
      d.vinylSpeed }

/-- As they stand in the file. -/
def pairs (p : PanelSettings J) : List (Chars × Chars) :=
  [(chars "screen_extended", flagValue p.screenExtended),
    (chars "jog_adjust", F.display p.jogAdjust),
    (chars "vinyl_speed", Chars.ofNat p.vinylSpeed.toNat)]

/-- Put over what is there. -/
def store (p : PanelSettings J) (map : Pairs) : Pairs := putAll map (p.pairs F)

/-- Write the three keys into the slot's file, leaving the rest alone. -/
def save (p : PanelSettings J) (luck : Luck) (file : SlotFile) : SlotFile × Bool :=
  match tryReadKv luck file with
  | none => (file, false)
  | some map => writeKv luck file (p.store F map) SLOT_KEYS

end PanelSettings

/-! ## Operations -/

variable {J : Type}

/-- What the app does with a slot's file. -/
inductive Op (J : Type) where
  | loadOrInit (uuid : Vector UInt8 16) (luck : Luck)
  | update (uuid : Vector UInt8 16) (mutate : InstanceSettings →
      InstanceSettings) (luck luck' : Luck)
  | save (s : InstanceSettings) (luck : Luck)
  | setSocSerial (uuid : Vector UInt8 16) (serial : Chars) (luck luck' : Luck)
  | panelLoad (luck : Luck)
  | panelSave (p : PanelSettings J) (luck : Luck)

namespace Op

/-- The file after the operation, and whether it went well; a load always does. -/
def run (F : Floats J) (op : Op J) (file : SlotFile) : SlotFile × Bool :=
  match op with
  | loadOrInit uuid luck => ((InstanceSettings.loadOrInit uuid luck file).2, true)
  | update uuid mutate luck luck' => InstanceSettings.update uuid mutate luck luck' file
  | save s luck => s.save luck file
  | setSocSerial uuid serial luck luck' =>
    let r := InstanceSettings.setSocSerial uuid serial luck luck' file
    (r.1, r.2.isSome)
  | panelLoad _ => (file, true)
  | panelSave p luck => p.save F luck file

/-- The operations that are there to write. -/
def writes : Op J → Bool
  | loadOrInit _ _ | panelLoad _ => false
  | _ => true

/-- The texts that the caller has put into the settings are clean. -/
def CleanTexts (op : Op J) (file : SlotFile) : Prop :=
  match op with
  | update uuid mutate luck _ =>
    ∀ s, (InstanceSettings.loadOrInitUnlocked uuid luck file).1 = some s → (mutate s).Storable
  | save s _ => s.Storable
  | _ => True

end Op

/-- A slot's file under its operations. -/
def slot (F : Floats J) : Machine SlotFile (Op J) where
  step file op := some (op.run F file).1

/-! ## What an operation has written -/

/-- The values an operation has written: a MAC that a load minted, a struct that a save stored. -/
structure Written (J : Type) where
  mac : Option Chars
  settings : Option InstanceSettings
  panel : Option (PanelSettings J)

namespace Written

/-- The pairs written for the settings, in the order of the writes. -/
def settingsPairs (w : Written J) : List (Chars × Chars) :=
  (w.mac.map fun mac => (chars "mac", mac)).toList ++
    (w.settings.map InstanceSettings.pairs).getD []

/-- The pairs of the panel that an operation wrote. -/
def panelPairs (F : Floats J) (w : Written J) : List (Chars × Chars) :=
  (w.panel.map (PanelSettings.pairs F)).getD []

end Written

/-- The MAC that a load has minted and saved. -/
def mintedMac (uuid : Vector UInt8 16) (luck : Luck) (file : SlotFile) : Option Chars :=
  match tryReadKv luck file with
  | none => none
  | some map =>
    if (map[chars "mac"]?.filter isValidMac).isNone ∧ luck.writes = true then
      some (generateMac uuid)
    else none

/-- The settings that an update has saved. -/
def updated (uuid : Vector UInt8 16) (mutate : InstanceSettings → InstanceSettings)
    (luck luck' : Luck) (file : SlotFile) :
    Option InstanceSettings :=
  match InstanceSettings.loadOrInitUnlocked uuid luck file with
  | (none, _) => none
  | (some s, file) => if ((mutate s).save luck' file).2 then some (mutate s) else none

namespace Op

/-- What an operation wrote, where it succeeded. -/
def written (F : Floats J) (op : Op J) (file : SlotFile) : Written J :=
  match op with
  | loadOrInit uuid luck => ⟨mintedMac uuid luck file, none, none⟩
  | update uuid mutate luck luck' =>
      ⟨mintedMac uuid luck file, updated uuid mutate luck luck' file, none⟩
  | save s luck => ⟨none, if (s.save luck file).2 then some s else none, none⟩
  | setSocSerial uuid serial luck luck' =>
    match InstanceSettings.parseSocSerial serial with
    | none => ⟨none, none, none⟩
    | some serial =>
      ⟨mintedMac uuid luck file,
        updated uuid (fun s => { s with socSerial := some serial }) luck luck' file, none⟩
  | panelLoad _ => ⟨none, none, none⟩
  | panelSave p luck => ⟨none, none, if (p.save F luck file).2 then some p else none⟩

/-- The MAC that an update or a save has set: an update that leaves the MAC alone sets none. -/
def setsMac (op : Op J) (file : SlotFile) : Option Chars :=
  match op with
  | update uuid mutate luck luck' =>
    (updated uuid mutate luck luck' file).bind fun s' =>
      if (InstanceSettings.loadOrInitUnlocked uuid luck file).1.map (·.mac) = some s'.mac then none
      else some s'.mac
  | save s luck => if (s.save luck file).2 then some s.mac else none
  | _ => none

/-- The serial that the operation has set: an update that leaves the serial alone sets none, and no
    operation takes one away. -/
def setsSerial (op : Op J) (file : SlotFile) : Option Chars :=
  match op with
  | update uuid mutate luck luck' =>
    (updated uuid mutate luck luck' file).bind fun s' =>
      if (InstanceSettings.loadOrInitUnlocked uuid luck file).1.map (·.socSerial) =
          some s'.socSerial then
        none
      else s'.socSerial
  | save s luck => if (s.save luck file).2 then s.socSerial else none
  | setSocSerial uuid serial luck luck' =>
      (InstanceSettings.setSocSerial uuid serial luck luck' file).2
  | _ => none

end Op

/-- What the operations of a run have written: the panel's struct last saved, the value last written
    under each key for the settings, the MACs set, the serial last set. -/
structure Record (J : Type) where
  panel : Option (PanelSettings J) := none
  settings : Pairs := ∅
  macs : List Chars := []
  serial : Option Chars := none

/-- The record of what was last written. -/
def Record.note (F : Floats J) (r : Record J) (file : SlotFile) (op : Op J) (_ : SlotFile) :
    Record J where
  panel := (op.written F file).panel.or r.panel
  settings := putAll r.settings (op.written F file).settingsPairs
  macs := r.macs ++ (op.setsMac file).toList
  serial := (op.setsSerial file).or r.serial

/-- What the file holds under a key. -/
def held (file : SlotFile) (k : Chars) : Option Chars :=
  (tryReadKv ⟨true, true⟩ file).bind fun map => map[k]?

/-- The panel's keys. -/
def PANEL_KEYS : List Chars := ["screen_extended", "jog_adjust", "vinyl_speed"].map chars

/-! ## What an operation does to the file -/

section Steps

variable {F : Floats J} {file : SlotFile} {luck luck' : Luck} {map : Pairs} {k : Chars}

/-- What is held under a key is what reading gives. -/
theorem held_of_tryReadKv (h : tryReadKv luck file = some map) (k : Chars) :
    held file k = map[k]? := by
  unfold held
  cases file with
  | missing =>
    cases h
    rfl
  | text s =>
    rw [tryReadKv] at h
    split at h
    · cases h
      rw [tryReadKv_of_reads rfl]
      rfl
    · cases h
  | notUtf8 content => cases h

/-- Writing succeeds when the system's part does. -/
theorem writeKv_ok (file : SlotFile) (luck : Luck) (map : Pairs) (known : List Chars) :
    (writeKv luck file map known).2 = luck.writes := by
  unfold writeKv
  split
  · rename_i hw
    exact hw.symm
  · rename_i hw
    exact (Bool.eq_false_iff.mpr hw).symm

/-- The file is read, clean pairs are put into its map, and it is written: if that goes well the
    file holds the pairs, and what it held. -/
theorem held_putAll {ps : List (Chars × Chars)} (hps : ∀ p ∈ ps, Clean p.2)
    (hmap : tryReadKv luck file = some map) (hk : k ∈ SLOT_KEYS) :
    held (writeKv luck file (putAll map ps) SLOT_KEYS).1 k =
      (putAll ∅ (if (writeKv luck file (putAll map ps) SLOT_KEYS).2 then ps else []))[k]?.or
        (held file k) := by
  rw [writeKv_ok]
  unfold writeKv
  split
  · show (tryReadKv _ (.text _)).bind _ = _
    rw [tryReadKv_of_reads rfl, Option.bind_some,
      readPairs_kvText keys_of_slot ((cleanMap_of_tryReadKv hmap).putAll hps), if_pos hk,
      getElem?_putAll,
      held_of_tryReadKv hmap]
  · simp

namespace InstanceSettings

variable {uuid : Vector UInt8 16} {s : InstanceSettings}

/-- What a save leaves under a key: its own value when it succeeds, else what was there. -/
theorem held_save (luck : Luck) (file : SlotFile) (hs : s.Storable) (hk : k ∈ SLOT_KEYS) :
    held (s.save luck file).1 k = (putAll ∅ (if (s.save luck file).2 then s.pairs else []))[k]?.or
      (held file k) := by
  unfold save
  cases hmap : tryReadKv luck file with
  | none => simp
  | some map => exact held_putAll hs.clean_pairs hmap hk

/-- A load puts the MAC it mints. -/
theorem held_load (uuid : Vector UInt8 16) (luck : Luck) (file : SlotFile) (hk : k ∈ SLOT_KEYS) :
    held (loadOrInitUnlocked uuid luck file).2 k =
      (putAll ∅ ((mintedMac uuid luck file).map fun mac => (chars "mac", mac)).toList)[k]?.or
        (held file k) := by
  cases hmap : tryReadKv luck file with
  | none => simp [loadOrInitUnlocked, mintedMac, hmap]
  | some map =>
    rcases loadOrInitUnlocked_cases uuid hmap with ⟨mac, hmac, hv, hload⟩ | ⟨hnone, hload⟩
    · have hminted : mintedMac uuid luck file = none := by
        simp [mintedMac, hmap, hmac, hv]
      simp [hload, hminted]
    · have hclean : ∀ p ∈ [(chars "mac", generateMac uuid)], Clean p.2 := by
        intro p hp
        rw [List.mem_singleton.mp hp]
        exact clean_of_isValidMac (isValidMac_generateMac uuid)
      have hheld := held_putAll hclean hmap hk
      rw [writeKv_ok] at hheld
      have hminted :
          mintedMac uuid luck file = if luck.writes then some (generateMac uuid) else none := by
        simp [mintedMac, hmap, hnone]
      rw [hload, hminted]
      refine hheld.trans ?_
      cases luck.writes <;> rfl

/-- An update puts the MAC its load mints and then the settings. -/
theorem held_update {mutate : InstanceSettings → InstanceSettings} (hk : k ∈ SLOT_KEYS)
    (hs : ∀ s, (loadOrInitUnlocked uuid luck file).1 = some s → (mutate s).Storable) :
    held (update uuid mutate luck luck' file).1 k =
      (putAll ∅ (Written.settingsPairs (J := J)
        ⟨mintedMac uuid luck file, updated uuid mutate luck luck' file, none⟩))[k]?.or
        (held file k) := by
  have hload := held_load uuid luck file hk
  rw [Written.settingsPairs, putAll_append, getElem?_putAll, Option.or_assoc]
  dsimp only
  rw [← hload]
  unfold update updated
  cases h : loadOrInitUnlocked uuid luck file with
  | mk o file1 =>
    cases o with
    | none => simp
    | some s =>
      have hsave := held_save luck' file1 (hs s (by rw [h])) hk
      refine hsave.trans ?_
      congr 3
      split <;> simp_all

end InstanceSettings

/-- A number as it is shown is clean. -/
theorem clean_display (hF : F.Lawful) (j : J) : Clean (F.display j) := clean_of_words (hF.words j)

/-- So are a panel's settings. -/
theorem PanelSettings.clean_pairs (hF : F.Lawful) (p : PanelSettings J) :
    ∀ q ∈ p.pairs F, Clean q.2 := by
  intro q hq
  simp only [PanelSettings.pairs, List.mem_cons, List.not_mem_nil, or_false] at hq
  rcases hq with rfl | rfl | rfl
  · exact clean_flagValue _
  · exact clean_display hF _
  · exact clean_ofNat _

/-- What a save of them leaves under a key. -/
theorem PanelSettings.held_save (hF : F.Lawful) (p : PanelSettings J) (hk : k ∈ SLOT_KEYS) :
    held (p.save F luck file).1 k =
      (putAll ∅ (if (p.save F luck file).2 then p.pairs F else []))[k]?.or (held file k) := by
  unfold PanelSettings.save
  cases hmap : tryReadKv luck file with
  | none => simp
  | some map => exact held_putAll (p.clean_pairs hF) hmap hk

/-- Loading writes only the file it makes. -/
theorem InstanceSettings.loadOrInit_snd (uuid : Vector UInt8 16) (luck : Luck) (file : SlotFile) :
    (InstanceSettings.loadOrInit uuid luck file).2 =
      (InstanceSettings.loadOrInitUnlocked uuid luck file).2 := by
  unfold InstanceSettings.loadOrInit
  split <;> simp_all

/-- A serial number that was parsed is valid. -/
theorem isValidSocSerial_of_parse {serial stored : Chars}
    (h : InstanceSettings.parseSocSerial serial = some stored) :
    isValidSocSerial stored = true := by
  unfold InstanceSettings.parseSocSerial at h
  dsimp only at h
  split at h
  · rename_i hv
    cases h
    exact hv
  · cases h

/-- Settings with another serial that is valid. -/
theorem storable_withSerial {s : InstanceSettings} {serial stored : Chars} (hs : s.Storable)
    (h : InstanceSettings.parseSocSerial serial = some stored) :
    InstanceSettings.Storable { s with socSerial := some stored } where
  mac := hs.mac
  serial v hv := by
    cases hv
    exact clean_of_isValidSocSerial (isValidSocSerial_of_parse h)
  texts := hs.texts

/-- **The step law.**  An operation puts into the file what it has written, and nothing else. -/
theorem held_step (hF : F.Lawful) {op : Op J} (hclean : op.CleanTexts file) (hk : k ∈ SLOT_KEYS) :
    held (op.run F file).1 k =
      (putAll ∅ ((op.written F file).settingsPairs ++ (op.written F file).panelPairs F))[k]?.or
        (held file k) := by
  cases op with
  | loadOrInit uuid luck =>
    show held (InstanceSettings.loadOrInit uuid luck file).2 k = _
    rw [InstanceSettings.loadOrInit_snd, InstanceSettings.held_load _ _ _ hk]
    simp [Op.written, Written.settingsPairs, Written.panelPairs]
  | update uuid mutate luck luck' =>
    refine (InstanceSettings.held_update (J := J) hk hclean).trans ?_
    simp [Op.written, Written.panelPairs]
  | save s luck =>
    refine (InstanceSettings.held_save _ _ hclean hk).trans ?_
    simp only [Op.written, Written.settingsPairs, Written.panelPairs]
    split <;> simp
  | setSocSerial uuid serial luck luck' =>
    simp only [Op.run, InstanceSettings.setSocSerial, Op.written]
    cases hparse : InstanceSettings.parseSocSerial serial with
    | none => simp [Written.settingsPairs, Written.panelPairs]
    | some stored =>
      have hs : ∀ s, (InstanceSettings.loadOrInitUnlocked uuid luck file).1 = some s →
          InstanceSettings.Storable { s with socSerial := some stored } :=
        fun s h => storable_withSerial (InstanceSettings.storable_of_load h) hparse
      refine (InstanceSettings.held_update (J := J) hk hs).trans ?_
      simp [Written.panelPairs]
  | panelLoad luck => simp [Op.run, Op.written, Written.settingsPairs, Written.panelPairs]
  | panelSave p luck =>
    refine (p.held_save hF hk).trans ?_
    simp only [Op.written, Written.settingsPairs, Written.panelPairs]
    split <;> simp

end Steps

/-! ## Whole runs -/

/-- The settings' keys. -/
def SETTINGS_KEYS : List Chars := SLOT_KEYS.filter fun k => !PANEL_KEYS.contains k

/-- The two groups of settings have no key in common. -/
theorem InstanceSettings.keys_of_pairs (s : InstanceSettings) :
    ∀ p ∈ s.pairs, p.1 ∉ PANEL_KEYS := by
  have hkeys : ∀ k ∈ s.pairs.map Prod.fst, k ∉ PANEL_KEYS := by
    cases h : s.socSerial with
    | none =>
      simp only [InstanceSettings.pairs, h, Option.map_none, Option.toList_none, List.append_nil,
        List.map_append, List.map_cons, List.map_nil]
      decide
    | some serial =>
      simp only [InstanceSettings.pairs, h, Option.map_some, Option.toList_some, List.map_append,
        List.map_cons, List.map_nil]
      decide
  exact fun p hp => hkeys _ (List.mem_map_of_mem hp)

theorem Written.settingsPairs_keys (w : Written J) : ∀ p ∈ w.settingsPairs, p.1 ∉ PANEL_KEYS := by
  intro p hp
  rcases List.mem_append.mp hp with hp | hp
  · obtain ⟨mac, -, rfl⟩ := Option.map_eq_some_iff.mp (Option.mem_toList.mp hp)
    show chars "mac" ∉ PANEL_KEYS
    decide
  · cases h : w.settings with
    | none => simp [h] at hp
    | some s =>
      rw [h] at hp
      exact s.keys_of_pairs p hp

theorem Written.panelPairs_keys {F : Floats J} (w : Written J) :
    ∀ p ∈ w.panelPairs F, p.1 ∈ PANEL_KEYS := by
  intro p hp
  cases h : w.panel with
  | none => simp [Written.panelPairs, h] at hp
  | some s =>
    simp only [Written.panelPairs, h, PanelSettings.pairs, Option.map_some, Option.getD_some,
      List.mem_cons, List.not_mem_nil, or_false] at hp
    rcases hp with rfl | rfl | rfl
    · show chars "screen_extended" ∈ PANEL_KEYS
      decide
    · show chars "jog_adjust" ∈ PANEL_KEYS
      decide
    · show chars "vinyl_speed" ∈ PANEL_KEYS
      decide

section Steps

variable {F : Floats J} {file : SlotFile} {k : Chars}

/-- A settings key holds what was last written for the settings. -/
theorem held_step_settings (hF : F.Lawful) {op : Op J} (hclean : op.CleanTexts file)
    (hk : k ∈ SETTINGS_KEYS) :
    held (op.run F file).1 k = (putAll ∅ (op.written F file).settingsPairs)[k]?.or
      (held file k) := by
  obtain ⟨hslot, hpanel⟩ := List.mem_filter.mp hk
  rw [held_step hF hclean hslot, putAll_append, getElem?_putAll_of_not_mem]
  intro p hp he
  have := Written.panelPairs_keys _ p hp
  simp_all

/-- A panel key holds what the panel's struct was last saved with. -/
theorem held_step_panel (hF : F.Lawful) {op : Op J} (hclean : op.CleanTexts file)
    (hk : k ∈ PANEL_KEYS) :
    held (op.run F file).1 k = (putAll ∅ ((op.written F file).panelPairs F))[k]?.or
      (held file k) := by
  have hslot : ∀ k ∈ PANEL_KEYS, k ∈ SLOT_KEYS := by decide
  have hnone : (putAll ∅ (op.written F file).settingsPairs)[k]? = none := by
    rw [getElem?_putAll_of_not_mem]
    · simp
    · intro p hp he
      exact Written.settingsPairs_keys _ p hp (he ▸ hk)
  rw [held_step hF hclean (hslot k hk), putAll_append, getElem?_putAll, hnone, Option.or_none]

/-! ### The MAC and the serial -/

/-- An update that succeeds has loaded and saved. -/
theorem updated_cases {uuid : Vector UInt8 16} {mutate : InstanceSettings → InstanceSettings}
    {luck luck' : Luck} {s' : InstanceSettings}
    (h : updated uuid mutate luck luck' file = some s') :
    ∃ s, (InstanceSettings.loadOrInitUnlocked uuid luck file).1 = some s ∧ s' = mutate s := by
  unfold updated at h
  split at h
  · cases h
  · rename_i s file' hload
    split at h
    · cases h
      exact ⟨s, by rw [hload], rfl⟩
    · cases h

/-- What a load takes from a file that holds a valid MAC. -/
theorem loaded_of_mac {uuid : Vector UInt8 16} {luck : Luck} {mac : Chars}
    (hheld : held file (chars "mac") = some mac) (hv : isValidMac mac = true) :
    mintedMac uuid luck file = none ∧
      ∀ s, (InstanceSettings.loadOrInitUnlocked uuid luck file).1 = some s → s.mac = mac := by
  cases hmap : tryReadKv luck file with
  | none =>
    constructor
    · simp [mintedMac, hmap]
    · intro s hs
      simp [InstanceSettings.loadOrInitUnlocked, hmap] at hs
  | some map =>
    have hmac : map[chars "mac"]? = some mac := (held_of_tryReadKv hmap _).symm.trans hheld
    constructor
    · simp [mintedMac, hmap, hmac, hv]
    · intro s hs
      rcases InstanceSettings.loadOrInitUnlocked_cases uuid
          hmap with ⟨mac', hmac', -, hload⟩ | ⟨hnone, -⟩
      · rw [hload] at hs
        cases hs
        exact Option.some.inj (hmac'.symm.trans hmac)
      · simp [hmac, hv] at hnone

/-- A serial that a load takes is the file's. -/
theorem held_of_loaded_serial {uuid : Vector UInt8 16} {luck : Luck} {s : InstanceSettings}
    {serial : Chars} (hs : (InstanceSettings.loadOrInitUnlocked uuid luck file).1 = some s)
    (h : s.socSerial = some serial) :
    held file (chars "soc_serial") = some serial := by
  cases hmap : tryReadKv luck file with
  | none => simp [InstanceSettings.loadOrInitUnlocked, hmap] at hs
  | some map =>
    rw [held_of_tryReadKv hmap]
    rcases InstanceSettings.loadOrInitUnlocked_cases uuid hmap with ⟨mac, -, -, hload⟩ | ⟨-, hload⟩
    · rw [hload] at hs
      cases hs
      exact (Option.filter_eq_some_iff.mp h).1
    · rw [hload] at hs
      cases hs
      have hsome := (Option.filter_eq_some_iff.mp h).1
      rwa [getElem?_insert, if_neg (by decide)] at hsome

/-- The pair under `mac` is the address. -/
theorem InstanceSettings.mac_of_mem_pairs {s : InstanceSettings} {v : Chars}
    (h : (chars "mac", v) ∈ s.pairs) : v = s.mac := by
  have hmac : (s.store ∅)[chars "mac"]? = some s.mac :=
    InstanceSettings.store_of_mem (by simp [InstanceSettings.pairs])
  exact Option.some.inj ((InstanceSettings.store_of_mem h).symm.trans hmac)

/-- **A valid MAC stays**, unless the operation sets another. -/
theorem mac_step (hF : F.Lawful) {op : Op J} (hclean : op.CleanTexts file) {mac : Chars}
    (hheld : held file (chars "mac") = some mac) (hv : isValidMac mac = true)
    (hset : ∀ m ∈ op.setsMac file, m = mac) :
    held (op.run F file).1 (chars "mac") = some mac := by
  -- settings that are written have the MAC that is held, or the one that is set
  have hsettings : ∀ s, (op.written F file).settings = some s → s.mac = mac := by
    intro s' hs'
    cases op with
    | loadOrInit uuid luck => cases hs'
    | update uuid mutate luck luck' =>
      have hupdated : updated uuid mutate luck luck' file = some s' := hs'
      obtain ⟨s, hs, rfl⟩ := updated_cases hupdated
      by_cases he : s.mac = (mutate s).mac
      · exact he ▸ (loaded_of_mac hheld hv).2 s hs
      · refine hset _ ?_
        simp [Op.setsMac, hupdated, hs, he]
    | save s luck =>
      refine hset _ ?_
      simp only [Op.written] at hs'
      split at hs'
      · rename_i hok
        cases hs'
        simp [Op.setsMac, hok]
      · cases hs'
    | setSocSerial uuid serial luck luck' =>
      simp only [Op.written] at hs'
      split at hs'
      · cases hs'
      · obtain ⟨s, hs, rfl⟩ := updated_cases hs'
        exact (loaded_of_mac hheld hv).2 s hs
    | panelLoad luck => cases hs'
    | panelSave p luck => cases hs'
  -- a MAC is minted only where there is none
  have hminted : (op.written F file).mac = none := by
    cases op with
    | loadOrInit uuid luck => exact (loaded_of_mac hheld hv).1
    | update uuid mutate luck luck' => exact (loaded_of_mac hheld hv).1
    | save s luck => rfl
    | setSocSerial uuid serial luck luck' =>
      simp only [Op.written]
      split
      · rfl
      · exact (loaded_of_mac hheld hv).1
    | panelLoad luck => rfl
    | panelSave p luck => rfl
  rw [held_step_settings hF hclean (by decide), hheld]
  -- the key's value is the last one that was put
  cases hput : (putAll ∅ (op.written F file).settingsPairs)[chars "mac"]? with
  | none => rfl
  | some v =>
    -- what was put for the key is the settings' own
    rcases mem_of_getElem?_putAll hput with hmem | hempty
    · rw [Written.settingsPairs, hminted] at hmem
      cases hs : (op.written F file).settings with
      | none => simp [hs] at hmem
      | some s =>
        have hpair : (chars "mac", v) ∈ s.pairs := by simpa [hs] using hmem
        rw [InstanceSettings.mac_of_mem_pairs hpair, hsettings s hs]
        rfl
    · simp at hempty

/-- A serial number is only written when there is one. -/
theorem InstanceSettings.serial_of_pairs (s : InstanceSettings) :
    (putAll ∅ s.pairs)[chars "soc_serial"]? = s.socSerial := by
  cases h : s.socSerial with
  | some serial => exact InstanceSettings.store_of_mem (by simp [InstanceSettings.pairs, h])
  | none =>
    rw [getElem?_putAll_of_not_mem (InstanceSettings.no_serial_pair h)]
    simp

/-- **A serial stays**, unless the operation sets one. -/
theorem serial_step (hF : F.Lawful) {op : Op J} (hclean : op.CleanTexts file) :
    held (op.run F file).1 (chars "soc_serial") = (op.setsSerial file).or
      (held file (chars "soc_serial")) := by
  -- of the pairs that are put only the settings' own can be the serial
  have hput : (putAll ∅ (op.written F file).settingsPairs)[chars "soc_serial"]? =
      (op.written F file).settings.bind (·.socSerial) := by
    have hnone : (putAll ∅ ((op.written F file).mac.map fun mac => (chars "mac", mac)).toList)[chars
        "soc_serial"]? = none := by
      rw [getElem?_putAll_of_not_mem]
      · simp
      · intro p hp
        obtain ⟨mac, -, rfl⟩ := Option.map_eq_some_iff.mp (Option.mem_toList.mp hp)
        show chars "mac" ≠ chars "soc_serial"
        decide
    rw [Written.settingsPairs, putAll_append, getElem?_putAll, hnone, Option.or_none]
    cases (op.written F file).settings with
    | none => simp
    | some s => exact s.serial_of_pairs
  rw [held_step_settings hF hclean (by decide), hput]
  cases op with
  | loadOrInit uuid luck => rfl
  | update uuid mutate luck luck' =>
    show ((updated uuid mutate luck luck' file).bind _).or _ = _
    simp only [Op.setsSerial]
    cases hupdated : updated uuid mutate luck luck' file with
    | none => rfl
    -- the update keeps the serial that it has loaded
    | some s' =>
      obtain ⟨s, hs, rfl⟩ := updated_cases hupdated
      simp only [Option.bind_some, hs, Option.map_some, Option.some.injEq]
      split
      · rename_i he
        rw [← he]
        cases hserial : s.socSerial with
        | none => rfl
        | some serial => simp [held_of_loaded_serial hs hserial]
      · rfl
  | save s luck =>
    simp only [Op.written, Op.setsSerial]
    split <;> rfl
  | setSocSerial uuid serial luck luck' =>
    simp only [Op.written, Op.setsSerial, InstanceSettings.setSocSerial]
    cases hparse : InstanceSettings.parseSocSerial serial with
    | none => rfl
    | some stored =>
      -- whether the update succeeds does not depend on which serial it stores
      have hok : (InstanceSettings.update uuid (fun s => { s with socSerial := some stored }) luck
          luck' file).2 =
          (updated uuid (fun s => { s with socSerial := some stored }) luck luck' file).isSome := by
        unfold InstanceSettings.update updated
        split
        · rfl
        · dsimp only
          split <;> simp_all
      simp only [hok]
      cases hupdated :
        updated uuid (fun s => { s with socSerial := some stored }) luck luck' file with
      | none => rfl
      | some s' =>
        obtain ⟨s, hs, rfl⟩ := updated_cases hupdated
        rfl
  | panelLoad luck => rfl
  | panelSave p luck => rfl

end Steps

/-! ### The laws of a run -/

/-- What a run from the file `file` keeps; `p` is the file it has led to, with
    the record of its writes. -/
structure Kept (F : Floats J) (file : SlotFile) (p : SlotFile × Record J) : Prop where
  settings : ∀ k ∈ SETTINGS_KEYS, held p.1 k = p.2.settings[k]?.or (held file k)
  panel : ∀ k ∈ PANEL_KEYS,
  held p.1 k = (putAll ∅ ((p.2.panel.map (PanelSettings.pairs F)).getD []))[k]?.or (held file k)
  mac : ∀ mac, held file (chars "mac") = some mac → isValidMac mac = true →
    (∀ m ∈ p.2.macs, m = mac) →
    held p.1 (chars "mac") = some mac
  serial : held p.1 (chars "soc_serial") = p.2.serial.or (held file (chars "soc_serial"))
  content : ∀ content, file = .notUtf8 content → p.1 = .notUtf8 content

/-- No operation touches a file that is no text, and none that is there to write goes well. -/
theorem run_notUtf8 (F : Floats J) (op : Op J) (content : List UInt8) :
    (op.run F (.notUtf8 content)).1 = .notUtf8 content ∧
    (op.writes = true → (op.run F (.notUtf8 content)).2 = false) := by
  cases op with
  | loadOrInit uuid luck => exact ⟨rfl, fun h => nomatch h⟩
  | update uuid mutate luck luck' => exact ⟨rfl, fun _ => rfl⟩
  | save s luck => exact ⟨rfl, fun _ => rfl⟩
  | setSocSerial uuid serial luck luck' =>
    simp only [Op.run, InstanceSettings.setSocSerial]
    split <;> exact ⟨rfl, fun _ => rfl⟩
  | panelLoad luck => exact ⟨rfl, fun h => nomatch h⟩
  | panelSave p luck => exact ⟨rfl, fun _ => rfl⟩

/-- At the start the file is what it was. -/
theorem kept_start (F : Floats J) (file : SlotFile) : Kept F file (file, {}) where
  settings k _ := by simp
  panel k _ := by simp
  mac mac h _ _ := h
  serial := rfl
  content _ h := h

/-- A panel's settings have different keys. -/
theorem PanelSettings.distinct {F : Floats J} {p : PanelSettings J} :
    (p.pairs F).Pairwise fun q r => q.1 ≠ r.1 := by
  have hkeys : ((p.pairs F).map Prod.fst).Nodup := by
    show (PANEL_KEYS).Nodup
    decide
  exact List.pairwise_map.mp hkeys

/-- They have every key of a panel. -/
theorem PanelSettings.pairs_keys {F : Floats J} {p : PanelSettings J} {k : Chars}
    (h : k ∈ PANEL_KEYS) :
    ∃ v, (k, v) ∈ p.pairs F := by
  have hkeys : k ∈ (p.pairs F).map Prod.fst := h
  obtain ⟨⟨k', v⟩, hmem, rfl⟩ := List.mem_map.mp hkeys
  exact ⟨v, hmem⟩

/-- Every operation keeps the file in step with the record. -/
theorem Kept.step {F : Floats J} (hF : F.Lawful) {file file' : SlotFile} {r : Record J} {op : Op J}
    (h : Kept F file (file', r)) (hclean : op.CleanTexts file') :
    Kept F file ((op.run F file').1, r.note F file' op (op.run F file').1) where
  settings k hk := by
    have hnote : (r.note F file' op (op.run F file').1).settings[k]? =
        (putAll ∅ (op.written F file').settingsPairs)[k]?.or r.settings[k]? := getElem?_putAll _ _ _
    rw [held_step_settings hF hclean hk, h.settings k hk, hnote, Option.or_assoc]
  panel k hk := by
    rw [held_step_panel hF hclean hk, h.panel k hk]
    show _ = (putAll ∅
        ((((op.written F file').panel.or r.panel).map (PanelSettings.pairs F)).getD []))[k]?.or _
    unfold Written.panelPairs
    cases (op.written F file').panel with
    | none => simp
    | some p =>
      obtain ⟨v, hv⟩ := PanelSettings.pairs_keys (F := F) (p := p) hk
      have hput : (putAll ∅ (p.pairs F))[k]? = some v :=
        getElem?_putAll_of_mem PanelSettings.distinct hv
      simp [hput]
  mac mac hheld hv hmacs := by
    have hold : held file' (chars "mac") = some mac :=
      h.mac mac hheld hv fun m hm => hmacs m (List.mem_append_left _ hm)
    exact mac_step hF hclean hold hv fun m hm =>
      hmacs m (List.mem_append_right _ (Option.mem_toList.mpr hm))
  serial := by
    rw [serial_step hF hclean, h.serial]
    exact (Option.or_assoc ..).symm
  content content hfile := by
    obtain rfl : file' = .notUtf8 content := h.content content hfile
    exact (run_notUtf8 F op content).1

/-- So does every run of them. -/
theorem kept_of_reach {F : Floats J} (hF : F.Lawful) {file : SlotFile} {p : SlotFile × Record J}
    (h : ((slot F).hist (Record.note F)).Reach (fun p op => op.CleanTexts p.1) (file, {}) p) :
    Kept F file p := by
  refine h.inv (kept_start F file) fun q op q' hq hclean hstep => ?_
  obtain ⟨file', r⟩ := q
  obtain ⟨file'', hrun, rfl⟩ := Machine.hist_step hstep
  cases hrun
  exact hq.step hF hclean

/-- A panel struct is read back from its keys when its rotary is in range. -/
theorem panel_load_of_held {F : Floats J} (hF : F.Lawful) {p : PanelSettings J} {file : SlotFile}
    {luck : Luck} (hreads : luck.reads = true) (hheld : ∀ q ∈ p.pairs F, held file q.1 = some q.2)
    (hfinite : F.isFinite p.jogAdjust = true) (hrange : F.clamp p.jogAdjust = p.jogAdjust) :
    PanelSettings.load F luck file = p := by
  have hscreen :=
    hheld (chars "screen_extended", flagValue p.screenExtended) (by simp [PanelSettings.pairs])
  have hjog := hheld (chars "jog_adjust", F.display p.jogAdjust) (by simp [PanelSettings.pairs])
  have hvinyl :=
    hheld (chars "vinyl_speed", Chars.ofNat p.vinylSpeed.toNat) (by simp [PanelSettings.pairs])
  obtain ⟨map, hmap⟩ : ∃ map, tryReadKv luck file = some map := by
    cases file with
    | missing => exact ⟨∅, rfl⟩
    | text s => exact ⟨_, tryReadKv_of_reads hreads s⟩
    | notUtf8 content => cases hscreen
  rw [held_of_tryReadKv hmap] at hscreen hjog hvinyl
  unfold PanelSettings.load
  simp only [hmap, Option.getD_some, flag_flagValue _ hscreen, hjog, hvinyl, Option.bind_some,
    hF.parse_display _ hfinite, parseUnsigned_ofNat p.vinylSpeed.toNat_lt]
  rw [Option.filter_some, if_pos hfinite, Option.map_some, Option.getD_some, hrange]
  simp

/-- **One file, two structs.**  In every run of the operations on a slot, from any file, whose
    texts are clean: the panel's keys hold what the last successful panel save wrote, and a load
    gives that struct; each of the other keys holds what was last written to it for the
    settings, or what it held; a valid MAC stays unless an update or a save sets another; the
    serial is the last one set, or the file's; and a file that is no text stays as it is, with
    every write to it failing. -/
theorem slot_file_kept {F : Floats J} (hF : F.Lawful) {file file' : SlotFile} {r : Record J}
    (h : ((slot F).hist (Record.note F)).Reach (fun p op => op.CleanTexts p.1) (file, {})
      (file', r)) :
    (∀ p, r.panel = some p → (∀ q ∈ p.pairs F, held file' q.1 = some q.2) ∧
      (F.isFinite p.jogAdjust = true → F.clamp p.jogAdjust = p.jogAdjust →
        ∀ luck : Luck, luck.reads = true →
        PanelSettings.load F luck file' = p)) ∧
    (r.panel = none → ∀ k ∈ PANEL_KEYS, held file' k = held file k) ∧
    (∀ k ∈ SETTINGS_KEYS, held file' k = r.settings[k]?.or (held file k)) ∧
    (∀ mac, held file (chars "mac") = some mac → isValidMac mac = true → (∀ m ∈ r.macs, m = mac) →
      held file' (chars "mac") = some mac) ∧
    held file' (chars "soc_serial") = r.serial.or (held file (chars "soc_serial")) ∧
    (∀ content, file = .notUtf8 content →
      file' = .notUtf8 content ∧ ∀ op : Op J, op.writes = true → (op.run F file').2 = false) := by
  have hkept := kept_of_reach hF h
  refine ⟨fun p hp => ?_, fun hnone k hk => ?_, hkept.settings, hkept.mac, hkept.serial,
    fun content hfile => ?_⟩
  · have hheld : ∀ q ∈ p.pairs F, held file' q.1 = some q.2 := by
      intro q hq
      have hkey : q.1 ∈ (p.pairs F).map Prod.fst := List.mem_map_of_mem hq
      rw [hkept.panel q.1 hkey, hp, Option.map_some, Option.getD_some,
        getElem?_putAll_of_mem PanelSettings.distinct hq]
      rfl
    exact ⟨hheld, fun hfinite hrange luck hreads =>
      panel_load_of_held hF hreads hheld hfinite hrange⟩
  · rw [hkept.panel k hk, hnone]
    simp
  · obtain rfl : file' = .notUtf8 content := hkept.content content hfile
    exact ⟨rfl, fun op => (run_notUtf8 F op content).2⟩

/-- The rotary's two ends and its middle. -/
def threeStops : Floats (Fin 3) where
  half := 1
  display j := [chars "0", chars "0.5", chars "1"][j]
  parse s := [(chars "0", 0), (chars "0.5", 1), (chars "1", 2)].lookup s
  isFinite _ := true
  clamp j := j

/-- A table of three numbers meets what is asked of numbers. -/
theorem threeStops_lawful : threeStops.Lawful where
  words j := by
    fin_cases j <;> simp [threeStops, chars, isWhitespace]
  parse_display j _ := by
    revert j
    decide

/-- The panel is saved, then the settings: the panel's struct is still there. -/
theorem panel_kept_by_a_save :
    PanelSettings.load threeStops ⟨true, true⟩
        ((Op.save (InstanceSettings.withImage (chars "/tmp/usb.img")) ⟨true, true⟩).run threeStops
          ((Op.panelSave ⟨true, 2, 9⟩ ⟨true, true⟩).run threeStops .missing).1).1 =
            ⟨true, 2, 9⟩ := by
  have hstorable : (InstanceSettings.withImage (chars "/tmp/usb.img")).Storable :=
    ⟨by decide, by decide, by decide⟩
  have hrun := slot_file_kept threeStops_lawful
      (.step (a := .save (InstanceSettings.withImage (chars "/tmp/usb.img")) ⟨true, true⟩)
    (.step (s := (SlotFile.missing, ({} : Record (Fin 3))))
      (a := .panelSave ⟨true, 2, 9⟩ ⟨true, true⟩) .refl trivial rfl)
    hstorable rfl)
  exact (hrun.1 ⟨true, 2, 9⟩ rfl).2 rfl rfl ⟨true, true⟩ rfl

end CdjEmu.Settings
