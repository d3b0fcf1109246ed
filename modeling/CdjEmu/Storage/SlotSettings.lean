/-
  SLOT SETTINGS — `settings.txt` of a slot, and the settings struct it keeps.

  One file holds the slot's identity, its hardware selections and its menu state as `key=value`
  lines.  A save reads the file, puts every field of the struct into the map under its key and
  writes the keys of the registry; a load reads the file and takes each field from its key, with a
  default where the key is absent or its value unusable.

  Values are written as they are.  `saved_settings_read_back` says when that is enough: a load after
  a save gives the settings that were saved exactly when every text among them is clean — no line
  feed in it, no white space at its ends.  A path that is not clean is a file name like any other,
  and its second line can be another field's.

  1. **Program** — the fields with their defaults and their validity tests, `store`, `save` and
     `load_or_init`; the file itself is `Lib/KeyValue`'s, with its trimming and its last line for a
     key.

  2. **Specification** — the settings that a load gives after a save are those that were saved.  The
     serial is an exception by design: one that is there stays until another is saved.

  3. **The crux (`pairs_distinct`)** — the fields go to different keys, all of them in the registry,
     so a field is read from the line that it was written to; what remains is a condition on each
     text by itself.
-/
import CdjEmu.Lib.KeyValue
import CdjEmu.Runtime.QemuArgs

namespace CdjEmu.Settings

open Chars KeyValue
open Qemu (Model)

/-! ## The file -/

/-- `settings.txt` of a slot; `notUtf8` is a file that is no text. -/
inductive SlotFile where
  | missing
  | text (s : Chars)
  | notUtf8 (content : List UInt8)
  deriving DecidableEq

/-- Whether the file system goes along: with reading a file that is there, with replacing it. -/
structure Luck where
  reads : Bool
  writes : Bool

/-- Every key a slot's `settings.txt` may hold. -/
def SLOT_KEYS : List Chars :=
  ["alc_enabled", "audio_device_uid", "audio_enabled", "dev_mode", "firmware_release", "fs",
    "haptic_enabled", "jog_adjust", "mac", "model", "mods_enabled", "net_iface", "pc_link_enabled",
    "screen_extended", "soc_serial",
    "usb_physical_bsd", "usb_virtual_path", "vinyl_speed"].map chars

/-- The pairs in the file, none when it cannot be read. -/
def tryReadKv (luck : Luck) : SlotFile → Option Pairs
  | .missing => some ∅
  | .text s => if luck.reads then some (readPairs s) else none
  | .notUtf8 _ => none

/-- Write the keys of `map` that `known` lists: the new file replaces the old one in one step. -/
def writeKv (luck : Luck) (file : SlotFile) (map : Pairs) (known : List Chars) : SlotFile × Bool :=
  if luck.writes then (.text (kvText (knownPairs known map)), true) else (file, false)

/-- `key` as a flag. -/
def flag (map : Pairs) (key : Chars) (default : Bool) : Bool :=
  match map[key]? with
  | some v => v = chars "1" || v.map Char.toLower = chars "true"
  | none => default

/-- A flag as the file has it. -/
def flagValue (on : Bool) : Chars := if on then chars "1" else chars "0"

/-- `key` as a number, 0 when it is absent or not a `u32`. -/
def number (map : Pairs) (key : Chars) : UInt32 :=
  ((map[key]?.bind (parseUnsigned (2 ^ 32))).map UInt32.ofNat).getD 0

/-- `key`'s value, none when absent or empty. -/
def text (map : Pairs) (key : Chars) : Option Chars := map[key]?.filter (· ≠ [])

/-! ## Identity -/

/-- A hexadecimal digit of either case. -/
def isHexDigit (c : Char) : Bool := c.isDigit || ('a' ≤ c && c ≤ 'f') || ('A' ≤ c && c ≤ 'F')

/-- `is_valid_mac`: six groups of two digits, with colons between them. -/
def isValidMac (mac : Chars) : Bool :=
  let parts := mac.splitOn ':'
  parts.all (fun part => utf8Len part = 2 && part.all isHexDigit) && parts.length = 6

/-- `is_valid_soc_serial`: sixteen digits in lower case. -/
def isValidSocSerial (s : Chars) : Bool := utf8Len s = 16 && s.all fun c =>
  c.isDigit || ('a' ≤ c && c ≤ 'f')

/-- `{:02x}`. -/
def hexByte (b : UInt8) : Chars := [Nat.digitChar (b.toNat / 16), Nat.digitChar (b.toNat % 16)]

/-- A locally administered unicast MAC from the bytes of a v4 UUID. -/
def generateMac (uuid : Vector UInt8 16) : Chars :=
  let m0 := (uuid[0] &&& 0xfe) ||| 0x02
  hexByte m0 ++ ':' :: hexByte uuid[1] ++ ':' :: hexByte uuid[2] ++ ':' :: hexByte uuid[3] ++ ':' ::
    hexByte uuid[4] ++
    ':' :: hexByte uuid[5]

/-- A model's own name in the file. -/
def slug : Model → Chars
  | .cdj3k => chars "cdj3k"
  | .cdj3kx => chars "cdj3kx"
  | .cdj1500x => chars "cdj1500x"

/-- The names that are read as well. -/
def aliases : Model → List Chars
  | .cdj3k => [chars "3000", chars "3k"]
  | .cdj3kx => [chars "3000x", chars "3kx"]
  | .cdj1500x => [chars "1500x", chars "1k5x"]

/-- The models there are. -/
def allModels : List Model := [.cdj3k, .cdj3kx, .cdj1500x]

/-- A model from a user's spelling. -/
def parseModel (s : Chars) : Option Model :=
  let s := s.trim.map Char.toLower
  match allModels.find? (fun m => slug m = s) with
  | some m => some m
  | none =>
    let s := (strip (chars "cdj") s).getD s
    let s := (strip (chars "-") s).getD s
    allModels.find? (fun m => (aliases m).contains s)

/-! ## The struct -/

/-- A path is its text: one that is no text is written with replacement characters. -/
structure InstanceSettings where
  mac : Chars
  socSerial : Option Chars
  audioEnabled : Bool
  audioDeviceUid : Option Chars
  alcEnabled : Bool
  hapticEnabled : Bool
  pcLinkEnabled : Bool
  model : Option Model
  firmwareRelease : Option Chars
  fs : UInt32
  modsEnabled : Bool
  devMode : Bool
  netIface : Option Chars
  usbVirtualPath : Option Chars
  usbPhysicalBsd : Option Chars
  deriving DecidableEq

/-- `map[key]` when `valid` accepts it, or else a fresh value, put into `map`. -/
def keptOrMinted (map : Pairs) (key : Chars) (valid : Chars → Bool) (fresh : Chars) :
    Chars × Pairs × Bool :=
  match map[key]?.filter valid with
  | some v => (v, map, false)
  | none => (fresh, map.insert key fresh, true)

namespace InstanceSettings

/-- The settings `map` holds, with the MAC they have. -/
def ofMap (map : Pairs) (mac : Chars) : InstanceSettings where
  mac := mac
  socSerial := map[chars "soc_serial"]?.filter isValidSocSerial
  audioEnabled := flag map (chars "audio_enabled") false
  audioDeviceUid := text map (chars "audio_device_uid")
  alcEnabled := flag map (chars "alc_enabled") true
  hapticEnabled := flag map (chars "haptic_enabled") true
  pcLinkEnabled := flag map (chars "pc_link_enabled") false
  model := map[chars "model"]?.bind parseModel
  firmwareRelease := text map (chars "firmware_release")
  fs := number map (chars "fs")
  modsEnabled := flag map (chars "mods_enabled") true
  devMode := flag map (chars "dev_mode") false
  netIface := text map (chars "net_iface")
  usbVirtualPath := text map (chars "usb_virtual_path")
  usbPhysicalBsd := text map (chars "usb_physical_bsd")

/-- The settings `map` holds, `map` with the MAC they have, and whether that was minted. -/
def fromMap (uuid : Vector UInt8 16) (map : Pairs) : InstanceSettings × Pairs × Bool :=
  let (mac, map, minted) := keptOrMinted map (chars "mac") isValidMac (generateMac uuid)
  (ofMap map mac, map, minted)

/-- A load that fails when the file cannot be read; a minted MAC is saved,
    or is not if that fails. -/
def loadOrInitUnlocked (uuid : Vector UInt8 16) (luck : Luck) (file : SlotFile) :
    Option InstanceSettings × SlotFile :=
  match tryReadKv luck file with
  | none => (none, file)
  | some map =>
    let (settings, map, minted) := fromMap uuid map
    (some settings, if minted then (writeKv luck file map SLOT_KEYS).1 else file)

/-- Load the slot's settings; the defaults when the file cannot be read. -/
def loadOrInit (uuid : Vector UInt8 16) (luck : Luck) (file : SlotFile) :
    InstanceSettings × SlotFile :=
  match loadOrInitUnlocked uuid luck file with
  | (some settings, file) => (settings, file)
  | (none, file) => ((fromMap uuid ∅).1, file)

/-- The keys a save sets, each with its value: a slot without a serial keeps what the file holds. -/
def pairs (s : InstanceSettings) : List (Chars × Chars) :=
  [(chars "mac", s.mac)] ++ (s.socSerial.map fun serial => (chars "soc_serial", serial)).toList ++
  [(chars "audio_enabled", flagValue s.audioEnabled),
    (chars "audio_device_uid", s.audioDeviceUid.getD []),
    (chars "alc_enabled", flagValue s.alcEnabled),
    (chars "haptic_enabled", flagValue s.hapticEnabled),
    (chars "pc_link_enabled", flagValue s.pcLinkEnabled),
    (chars "model", (s.model.map slug).getD []),
    (chars "firmware_release", s.firmwareRelease.getD []),
    (chars "fs", Chars.ofNat s.fs.toNat),
    (chars "mods_enabled", flagValue s.modsEnabled),
    (chars "dev_mode", flagValue s.devMode),
    (chars "net_iface", s.netIface.getD []),
    (chars "usb_virtual_path", s.usbVirtualPath.getD []),
    (chars "usb_physical_bsd", s.usbPhysicalBsd.getD [])]

/-- `map` with the struct's keys set. -/
def store (s : InstanceSettings) (map : Pairs) : Pairs := putAll map s.pairs

/-- Save the settings, keeping the keys of the file that are not the struct's. -/
def save (s : InstanceSettings) (luck : Luck) (file : SlotFile) : SlotFile × Bool :=
  match tryReadKv luck file with
  | none => (file, false)
  | some map => writeKv luck file (s.store map) SLOT_KEYS

/-- The texts among the settings that are the user's or the host's to choose. -/
def texts (s : InstanceSettings) : List Chars :=
  [s.audioDeviceUid, s.firmwareRelease, s.netIface, s.usbVirtualPath, s.usbPhysicalBsd].filterMap id

end InstanceSettings

/-! ## What the keys hold -/

/-- The keys of the file are well formed. -/
theorem keys_of_slot : ∀ k ∈ SLOT_KEYS, Key k := by decide

/-- A flag that was written is read. -/
@[simp] theorem flag_flagValue {map : Pairs} {key : Chars} {on : Bool} (default : Bool)
    (h : map[key]? = some (flagValue on)) : flag map key default = on := by
  simp only [flag, h]
  cases on
  · show (decide (chars "0" = chars "1") || decide ((chars "0").map Char.toLower = chars "true")) =
        false
    decide
  · show (decide (chars "1" = chars "1") || decide ((chars "1").map Char.toLower = chars "true")) =
        true
    decide

/-- So is a number. -/
theorem number_ofNat {map : Pairs} {key : Chars} {n : UInt32}
    (h : map[key]? = some (Chars.ofNat n.toNat)) :
    number map key = n := by
  unfold number
  rw [h, Option.bind_some, parseUnsigned_ofNat n.toNat_lt]
  simp

/-- So is a text that is not empty. -/
theorem text_getD {map : Pairs} {key : Chars} {v : Option Chars} (hne : ∀ w ∈ v, w ≠ [])
    (h : map[key]? = some (v.getD [])) :
    text map key = v := by
  unfold text
  rw [h]
  cases v with
  | none => simp
  | some w => simp [hne w rfl]

/-- So is a model. -/
theorem parseModel_slug (m : Model) : parseModel (slug m) = some m := by
  cases m <;> decide

/-- An empty text is no model. -/
theorem parseModel_nil : parseModel [] = none := by decide

/-- Hexadecimal digits are no blanks. -/
theorem isWhitespace_of_isHexDigit {c : Char} (h : isHexDigit c = true) :
    isWhitespace c = false := by
  simp only [isHexDigit, Bool.or_eq_true, Bool.and_eq_true, decide_eq_true_eq] at h
  rcases h with (h | h) | h
  · exact not_whitespace_of_isDigit h
  · obtain ⟨hlo, hhi⟩ : 97 ≤ c.toNat ∧ c.toNat ≤ 102 := h
    simp only [isWhitespace, List.contains_eq_mem, List.mem_cons, List.not_mem_nil,
      Bool.or_eq_false_iff, Bool.and_eq_false_iff, decide_eq_false_iff_not, or_false]
    omega
  · obtain ⟨hlo, hhi⟩ : 65 ≤ c.toNat ∧ c.toNat ≤ 70 := h
    simp only [isWhitespace, List.contains_eq_mem, List.mem_cons, List.not_mem_nil,
      Bool.or_eq_false_iff, Bool.and_eq_false_iff, decide_eq_false_iff_not, or_false]
    omega

theorem ascii_of_isHexDigit {c : Char} (h : isHexDigit c = true) : c.toNat < 0x80 := by
  simp only [isHexDigit, Bool.or_eq_true, Bool.and_eq_true, decide_eq_true_eq] at h
  rcases h with (h | h) | h
  · exact ascii_of_isDigit h
  · obtain ⟨-, hhi⟩ : 97 ≤ c.toNat ∧ c.toNat ≤ 102 := h
    omega
  · obtain ⟨-, hhi⟩ : 65 ≤ c.toNat ∧ c.toNat ≤ 70 := h
    omega

/-- A valid MAC is hexadecimal digits and colons. -/
theorem clean_of_isValidMac {mac : Chars} (h : isValidMac mac = true) : Clean mac := by
  refine clean_of_words fun c hc => ?_
  simp only [isValidMac, Bool.and_eq_true, List.all_eq_true] at h
  rcases mem_splitOn_of_mem ':' hc with rfl | ⟨part, hpart, hc⟩
  · decide
  · exact isWhitespace_of_isHexDigit ((h.1 part hpart).2 c hc)

theorem isHexDigit_of_mem_hexByte {b : UInt8} {c : Char} (h : c ∈ hexByte b) :
    isHexDigit c = true := by
  have hdigit : ∀ n < 16, isHexDigit (Nat.digitChar n) = true := by decide
  have hb := b.toNat_lt
  simp only [hexByte, List.mem_cons, List.not_mem_nil, or_false] at h
  rcases h with rfl | rfl
  · exact hdigit _ (by omega)
  · exact hdigit _ (by omega)

/-- An octet in hexadecimal is a group of a MAC address. -/
theorem part_of_hexByte (b : UInt8) : utf8Len (hexByte b) = 2 ∧
    (hexByte b).all isHexDigit = true := by
  have hall : ∀ c ∈ hexByte b, isHexDigit c = true := fun c hc => isHexDigit_of_mem_hexByte hc
  constructor
  · exact utf8Len_of_ascii fun c hc => ascii_of_isHexDigit (hall c hc)
  · exact List.all_eq_true.mpr hall

/-- A minted MAC always passes its own validator. -/
theorem isValidMac_generateMac (uuid : Vector UInt8 16) : isValidMac (generateMac uuid) = true := by
  have hcolon : ∀ b : UInt8, ∀ c ∈ hexByte b, (c == ':') = false := by
    intro b c hc
    by_contra hne
    obtain rfl : c = ':' := by simpa using hne
    exact absurd (isHexDigit_of_mem_hexByte hc) (by decide)
  have hcons : ∀ (b : UInt8) (s : Chars), (hexByte b ++ ':' :: s).splitOn ':' = hexByte b ::
      s.splitOn ':' :=
    fun b s => List.splitOnP_append_cons_of_forall_mem (hcolon b) ':' rfl s
  have hlast : ∀ b : UInt8, (hexByte b).splitOn ':' = [hexByte b] :=
    fun b => List.splitOnP_eq_singleton (hcolon b)
  have hsplit : (generateMac uuid).splitOn ':' =
      [hexByte ((uuid[0] &&& 0xfe) ||| 0x02), hexByte uuid[1], hexByte uuid[2], hexByte uuid[3],
        hexByte uuid[4], hexByte uuid[5]] := by
    simp only [generateMac, List.append_assoc, List.cons_append, hcons, hlast]
  rw [isValidMac, hsplit]
  simp [part_of_hexByte]

/-- A valid serial number has no character that the file would lose. -/
theorem clean_of_isValidSocSerial {s : Chars} (h : isValidSocSerial s = true) : Clean s := by
  refine clean_of_words fun c hc => isWhitespace_of_isHexDigit ?_
  simp only [isValidSocSerial, Bool.and_eq_true, List.all_eq_true] at h
  have := h.2 c hc
  simp only [isHexDigit, Bool.or_eq_true] at this ⊢
  exact Or.inl this

/-- Neither has a flag. -/
theorem clean_flagValue (on : Bool) : Clean (flagValue on) := by
  cases on <;> decide

/-- Neither has a model's name. -/
theorem clean_slug (m : Model) : Clean (slug m) := by
  cases m <;> decide

/-- Neither has a number. -/
theorem clean_ofNat (n : Nat) : Clean (Chars.ofNat n) :=
  clean_of_words fun _ hc => not_whitespace_of_isDigit (isDigit_of_mem_ofNat hc)

/-! ## A save and the load after it -/

/-- A file that can be read gives its pairs. -/
theorem tryReadKv_of_reads {luck : Luck} (h : luck.reads = true) (s : Chars) :
    tryReadKv luck (.text s) = some (readPairs s) := by
  rw [tryReadKv, if_pos h]

/-- What a file holds is clean. -/
theorem cleanMap_of_tryReadKv {luck : Luck} {file : SlotFile} {map : Pairs}
    (h : tryReadKv luck file = some map) :
    CleanMap map := by
  cases file with
  | missing =>
    cases h
    exact cleanMap_empty
  | text s =>
    rw [tryReadKv] at h
    split at h
    · cases h
      exact cleanMap_readPairs s
    · cases h
  | notUtf8 content => cases h

namespace InstanceSettings

variable {s : InstanceSettings}

/-- The settings are written under different keys. -/
theorem pairs_distinct (s : InstanceSettings) : s.pairs.Pairwise fun p q => p.1 ≠ q.1 := by
  have hkeys : (s.pairs.map Prod.fst).Nodup := by
    cases h : s.socSerial with
    | none =>
      simp only [pairs, h, Option.map_none, Option.toList_none, List.append_nil, List.map_append,
        List.map_cons, List.map_nil]
      decide
    | some serial =>
      simp only [pairs, h, Option.map_some, Option.toList_some, List.map_append, List.map_cons,
        List.map_nil]
      decide
  exact List.pairwise_map.mp hkeys

/-- A key that a save sets has the saved value. -/
theorem store_of_mem {map : Pairs} {k v : Chars} (h : (k, v) ∈ s.pairs) :
    (s.store map)[k]? = some v :=
  getElem?_putAll_of_mem s.pairs_distinct h

/-- A key that is none of theirs is left as it was. -/
theorem store_of_not_mem {map : Pairs} {k : Chars} (h : ∀ p ∈ s.pairs, p.1 ≠ k) :
    (s.store map)[k]? = map[k]? :=
  getElem?_putAll_of_not_mem h

/-- A save that succeeds has read the file and written the settings over it. -/
theorem save_cases {luck : Luck} {file file' : SlotFile} (h : s.save luck file = (file', true)) :
    ∃ map, tryReadKv luck file = some map ∧
    file' = .text (kvText (knownPairs SLOT_KEYS (s.store map))) := by
  unfold save at h
  split at h
  · cases h
  · rename_i map hmap
    unfold writeKv at h
    split at h
    · cases h
      exact ⟨map, hmap, rfl⟩
    · cases h

/-- The texts of the struct are clean, and so is its identity. -/
structure Storable (s : InstanceSettings) : Prop where
  mac : Clean s.mac
  serial : ∀ v ∈ s.socSerial, Clean v
  texts : ∀ v ∈ s.texts, Clean v

/-- The texts of settings that can be stored are clean. -/
theorem Storable.clean_getD (h : s.Storable) (field : Option Chars)
    (hf : ∀ v ∈ field, v ∈ s.texts) :
    Clean (field.getD []) := by
  cases field with
  | none => exact clean_nil
  | some v => exact h.texts v (hf v rfl)

theorem Storable.clean_pairs (h : s.Storable) : ∀ p ∈ s.pairs, Clean p.2 := by
  have hmodel : Clean ((s.model.map slug).getD []) := by
    cases s.model with
    | none => exact clean_nil
    | some m => exact clean_slug m
  have hserial : ∀ p ∈ (s.socSerial.map fun serial => (chars "soc_serial", serial)).toList,
      Clean p.2 := by
    intro p hp
    obtain ⟨v, hv, rfl⟩ := Option.map_eq_some_iff.mp (Option.mem_toList.mp hp)
    exact h.serial v hv
  have haudio := h.clean_getD s.audioDeviceUid fun v hv => by simp_all [InstanceSettings.texts]
  have hrelease := h.clean_getD s.firmwareRelease fun v hv => by simp_all [InstanceSettings.texts]
  have hnet := h.clean_getD s.netIface fun v hv => by simp_all [InstanceSettings.texts]
  have hpath := h.clean_getD s.usbVirtualPath fun v hv => by simp_all [InstanceSettings.texts]
  have hbsd := h.clean_getD s.usbPhysicalBsd fun v hv => by simp_all [InstanceSettings.texts]
  intro p hp
  unfold pairs at hp
  rcases List.mem_append.mp hp with hp | hp
  · rcases List.mem_append.mp hp with hp | hp
    · obtain rfl := List.mem_singleton.mp hp
      exact h.mac
    · exact hserial p hp
  · simp only [List.mem_cons, List.not_mem_nil, or_false] at hp
    rcases hp with rfl | rfl | rfl | rfl | rfl | rfl | rfl | rfl | rfl | rfl | rfl | rfl | rfl
    all_goals first
      | exact clean_flagValue _
      | exact clean_ofNat _
      | assumption

/-- So what is stored over clean pairs is clean. -/
theorem Storable.cleanMap_store (hs : s.Storable) {map : Pairs} (hmap : CleanMap map) :
    CleanMap (s.store map) :=
  hmap.putAll hs.clean_pairs

/-- Every key of the settings is one of the file's. -/
theorem keys_registered (s : InstanceSettings) : ∀ p ∈ s.pairs, p.1 ∈ SLOT_KEYS := by
  have hkeys : ∀ k ∈ s.pairs.map Prod.fst, k ∈ SLOT_KEYS := by
    cases h : s.socSerial with
    | none =>
      simp only [pairs, h, Option.map_none, Option.toList_none, List.append_nil, List.map_append,
        List.map_cons, List.map_nil]
      decide
    | some serial =>
      simp only [pairs, h, Option.map_some, Option.toList_some, List.map_append, List.map_cons,
        List.map_nil]
      decide
  exact fun p hp => hkeys _ (List.mem_map_of_mem hp)

/-- Settings are what their keys hold, but for the serial that the map may have without them. -/
theorem ofMap_of_pairs {map : Pairs} (hne : ∀ v ∈ s.texts, v ≠ [])
    (h : ∀ p ∈ s.pairs, map[p.1]? = some p.2) :
    ofMap map s.mac = { s with socSerial := map[chars "soc_serial"]?.filter isValidSocSerial } := by
  have hmodel : map[chars "model"]?.bind parseModel = s.model := by
    rw [h (chars "model", (s.model.map slug).getD []) (by simp [pairs]), Option.bind_some]
    cases s.model with
    | none => exact parseModel_nil
    | some m => exact parseModel_slug m
  have htext : ∀ {key : Chars} {field : Option Chars}, (key, field.getD []) ∈ s.pairs →
      (∀ v ∈ field, v ∈ s.texts) →
      text map key = field := fun hp hf => text_getD (fun w hw => hne w (hf w hw)) (h _ hp)
  have hflag : ∀ {key : Chars} {on default : Bool}, (key, flagValue on) ∈ s.pairs →
      flag map key default = on :=
    fun hp => flag_flagValue _ (h _ hp)
  simp only [ofMap, InstanceSettings.mk.injEq, true_and]
  refine ⟨hflag (by simp [pairs]), htext (by simp [pairs]) ?_, hflag (by simp [pairs]),
    hflag (by simp [pairs]), hflag (by simp [pairs]), hmodel, htext (by simp [pairs]) ?_,
    number_ofNat (h (chars "fs", Chars.ofNat s.fs.toNat) (by simp [pairs])),
    hflag (by simp [pairs]),
    hflag (by simp [pairs]), htext (by simp [pairs]) ?_, htext (by simp [pairs]) ?_,
    htext (by simp [pairs]) ?_⟩
  all_goals
    intro v hv
    simp_all [InstanceSettings.texts]

/-- The serial that a load takes from the file. -/
def serialIn (luck : Luck) (file : SlotFile) : Option Chars :=
  (tryReadKv luck file).bind fun map => map[chars "soc_serial"]?.filter isValidSocSerial

end InstanceSettings

/-! ## The round trip -/

namespace InstanceSettings

variable {s : InstanceSettings}

/-- A slot without a serial saves none. -/
theorem no_serial_pair (h : s.socSerial = none) : ∀ p ∈ s.pairs, p.1 ≠ chars "soc_serial" := by
  have hkeys : ∀ k ∈ s.pairs.map Prod.fst, k ≠ chars "soc_serial" := by
    simp only [pairs, h, Option.map_none, Option.toList_none, List.append_nil, List.map_append,
      List.map_cons, List.map_nil]
    decide
  exact fun p hp => hkeys _ (List.mem_map_of_mem hp)

/-- A save without a serial number keeps the one that is there. -/
theorem serial_after_save {map : Pairs} (hserial : ∀ v ∈ s.socSerial, isValidSocSerial v = true) :
    (s.store map)[chars "soc_serial"]?.filter isValidSocSerial =
      s.socSerial.or (map[chars "soc_serial"]?.filter isValidSocSerial) := by
  cases h : s.socSerial with
  | some serial =>
    have hv := hserial serial h
    rw [store_of_mem (k := chars "soc_serial") (v := serial) (by simp [pairs, h])]
    simp [hv]
  | none =>
    rw [store_of_not_mem (no_serial_pair h)]
    rfl

/-- A load keeps the file's MAC when it is valid, and else mints one and saves it. -/
theorem loadOrInitUnlocked_cases (uuid : Vector UInt8 16) {luck : Luck} {file : SlotFile}
    {map : Pairs} (hmap : tryReadKv luck file = some map) :
    (∃ mac, map[chars "mac"]? = some mac ∧ isValidMac mac = true ∧
      loadOrInitUnlocked uuid luck file = (some (ofMap map mac), file)) ∨
    (map[chars "mac"]?.filter isValidMac = none ∧
      loadOrInitUnlocked uuid luck file =
        (some (ofMap (map.insert (chars "mac") (generateMac uuid)) (generateMac uuid)),
          (writeKv luck file (map.insert (chars "mac") (generateMac uuid)) SLOT_KEYS).1)) := by
  cases hv : map[chars "mac"]?.filter isValidMac with
  | some mac =>
    obtain ⟨hmac, hvalid⟩ := Option.filter_eq_some_iff.mp hv
    refine Or.inl ⟨mac, hmac, by simpa using hvalid, ?_⟩
    simp [loadOrInitUnlocked, hmap, fromMap, keptOrMinted, hv]
  | none =>
    refine Or.inr ⟨rfl, ?_⟩
    simp [loadOrInitUnlocked, hmap, fromMap, keptOrMinted, hv]

/-- What `load_or_init` answers is what it has read under the lock. -/
theorem loadOrInit_fst (uuid : Vector UInt8 16) {luck : Luck} {file : SlotFile}
    {settings : InstanceSettings} (h : (loadOrInitUnlocked uuid luck file).1 = some settings) :
    (loadOrInit uuid luck file).1 = settings := by
  unfold loadOrInit
  generalize loadOrInitUnlocked uuid luck file = r at h
  obtain ⟨o, file'⟩ := r
  cases h
  rfl

/-- The settings of a clean map are clean. -/
theorem storable_ofMap {m : Pairs} {mac : Chars} (hm : CleanMap m) (hmac : Clean mac) :
    (ofMap m mac).Storable where
  mac := hmac
  serial v hv := hm _ _ (Option.filter_eq_some_iff.mp hv).1
  texts v hv := by
    have htext : ∀ {key : Chars}, text m key = some v → Clean v :=
      fun h => hm _ _ (Option.filter_eq_some_iff.mp h).1
    simp only [InstanceSettings.texts, ofMap, List.mem_filterMap, List.mem_cons, List.not_mem_nil,
      or_false, id_eq] at hv
    obtain ⟨field, hfield, rfl⟩ := hv
    rcases hfield with h | h | h | h | h <;> exact htext h.symm

/-- Whatever is loaded is clean. -/
theorem storable_of_load {uuid : Vector UInt8 16} {luck : Luck} {file : SlotFile}
    {settings : InstanceSettings} (h : (loadOrInitUnlocked uuid luck file).1 = some settings) :
    settings.Storable := by
  cases hmap : tryReadKv luck file with
  | none =>
    simp only [loadOrInitUnlocked, hmap] at h
    cases h
  | some map =>
    have hclean := cleanMap_of_tryReadKv hmap
    rcases loadOrInitUnlocked_cases uuid hmap with ⟨mac, -, hv, hload⟩ | ⟨-, hload⟩
    · rw [hload] at h
      cases h
      exact storable_ofMap hclean (clean_of_isValidMac hv)
    · rw [hload] at h
      cases h
      have hfresh := clean_of_isValidMac (isValidMac_generateMac uuid)
      exact storable_ofMap (hclean.insert _ hfresh) hfresh

end InstanceSettings

/-- **Settings read back.**  Settings with a valid identity, whose texts are not empty, are what a
    load gives after a save — the serial being the file's when they have none — if and only if no
    text among them has a line feed in it or white space at its ends. -/
theorem saved_settings_read_back (s : InstanceSettings) (hmac : isValidMac s.mac = true)
    (hserial : ∀ v ∈ s.socSerial, isValidSocSerial v = true) (hne : ∀ v ∈ s.texts, v ≠ [])
    (luck luck' : Luck) (file file' : SlotFile) (hsaved : s.save luck file = (file', true))
    (hreads : luck'.reads = true) (uuid : Vector UInt8 16) :
    (InstanceSettings.loadOrInit uuid luck' file').1 =
        { s with socSerial := s.socSerial.or (InstanceSettings.serialIn luck file) } ↔
      ∀ v ∈ s.texts, Clean v := by
  obtain ⟨map, hmap, rfl⟩ := InstanceSettings.save_cases hsaved
  have hreadable := tryReadKv_of_reads hreads (kvText (knownPairs SLOT_KEYS (s.store map)))
  constructor
  · intro hload v hv
    obtain ⟨settings, hsome⟩ :
        ∃ settings, (InstanceSettings.loadOrInitUnlocked uuid luck' _).1 = some settings := by
      rcases InstanceSettings.loadOrInitUnlocked_cases uuid
          hreadable with ⟨mac, -, -, h⟩ | ⟨-, h⟩ <;> exact ⟨_, congrArg Prod.fst h⟩
    have hclean := (InstanceSettings.storable_of_load hsome).texts
    rw [← InstanceSettings.loadOrInit_fst uuid hsome, hload] at hclean
    exact hclean v hv
  · intro hclean
    have hstorable : s.Storable :=
      ⟨clean_of_isValidMac hmac, fun v hv => clean_of_isValidSocSerial (hserial v hv), hclean⟩
    have hread := fun k (hk : k ∈ SLOT_KEYS) =>
      (readPairs_kvText keys_of_slot (hstorable.cleanMap_store (cleanMap_of_tryReadKv hmap))
        k).trans (if_pos hk)
    have hpairs : ∀ p ∈ s.pairs, (readPairs (kvText (knownPairs SLOT_KEYS (s.store map))))[p.1]? =
        some p.2 := by
      intro p hp
      rw [hread p.1 (s.keys_registered p hp)]
      exact InstanceSettings.store_of_mem hp
    have hheld := hpairs (chars "mac", s.mac) (by simp [InstanceSettings.pairs])
    have hload := InstanceSettings.loadOrInitUnlocked_cases uuid hreadable
    rcases hload with ⟨mac, hkept, -, h⟩ | ⟨hnone, -⟩
    · obtain rfl : s.mac = mac := Option.some.inj (hheld.symm.trans hkept)
      rw [InstanceSettings.loadOrInit_fst uuid (congrArg Prod.fst h),
        InstanceSettings.ofMap_of_pairs hne hpairs, hread _ (by decide),
        InstanceSettings.serial_after_save hserial]
      simp [InstanceSettings.serialIn, hmap]
    · rw [hheld] at hnone
      simp [hmac] at hnone

namespace InstanceSettings

/-- A slot with a virtual USB image, and nothing else. -/
def withImage (path : Chars) : InstanceSettings where
  mac := chars "02:11:22:33:44:55"
  socSerial := none
  audioEnabled := false
  audioDeviceUid := none
  alcEnabled := true
  hapticEnabled := true
  pcLinkEnabled := false
  model := some .cdj3k
  firmwareRelease := none
  fs := 1
  modsEnabled := true
  devMode := false
  netIface := none
  usbVirtualPath := some path
  usbPhysicalBsd := none

end InstanceSettings

/-- An image's path is there after a save, also in a slot without a file. -/
theorem image_path_read_back :
    (InstanceSettings.loadOrInit (.replicate 16 0) ⟨true, true⟩
        ((InstanceSettings.withImage (chars "/tmp/usb.img")).save ⟨true, true⟩ .missing).1).1 =
      InstanceSettings.withImage (chars "/tmp/usb.img") :=
  (saved_settings_read_back (InstanceSettings.withImage (chars "/tmp/usb.img")) (by decide)
    (by decide) (by decide)
    ⟨true, true⟩ ⟨true, true⟩ .missing _ rfl rfl (.replicate 16 0)).mpr (by decide)

/-- A folder name with a line feed in it, which goes on as another field's line,
    gives the slot another MAC. -/
theorem image_path_sets_the_mac :
    ¬ ∀ (s : InstanceSettings) (luck : Luck) (file : SlotFile) (uuid : Vector UInt8 16),
        isValidMac s.mac = true → (∀ v ∈ s.socSerial, isValidSocSerial v = true) →
        (∀ v ∈ s.texts, v ≠ []) →
        (s.save luck file).2 = true → luck.reads = true →
        (InstanceSettings.loadOrInit uuid luck (s.save luck file).1).1 =
          { s with socSerial := s.socSerial.or (InstanceSettings.serialIn luck file) } := by
  intro h
  have := congrArg InstanceSettings.mac
      (h (InstanceSettings.withImage (chars "/tmp/a\nmac=0a:00:00:00:00:01\n/usb.img"))
    ⟨true, true⟩ .missing (.replicate 16 0) (by decide) (by decide) (by decide) (by decide) rfl)
  revert this
  decide

end CdjEmu.Settings
