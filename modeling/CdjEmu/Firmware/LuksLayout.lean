/-
  THE LUKS1 HEADER — reading it, and what an accepted header promises.

  `Luks1Layout.parse` checks every field against the image it came from.  What it accepts is stated
  once as a structure (`Keyslot.Parsed`, `Luks1Layout.Parsed`) and as an equivalence
  (`Keyslot.parse_eq_ok`, `Luks1Layout.parse_eq_ok`), so that a proof about an accepted image starts
  from the fields, and a proof that an image IS accepted ends with them: every material region lies
  behind the header, before the payload and inside the image, and no two overlap.

  A byte string is `Bytes`; a `usize` is a `Nat` with the source's checks at `2 ^ 64`.
-/
import CdjEmu.Firmware.LuksCrypto

namespace CdjEmu.Luks

open Text

/-- The words of a slot in use and of one that is not, and the sizes of the header. -/
def slotActive : UInt32 := 0x00AC71F3

def slotInactive : UInt32 := 0x0000DEAD

def slotCount : Nat := 8

def headerBytes : Nat := 592

def slotTableOffset : Nat := 208

def slotEntryBytes : Nat := 48

def luksSector : Nat := 512

def luks1Stripes : UInt32 := 4000

def luksMagic : Bytes := bytes "LUKS" ++ [0xba, 0xbe]

/-- Why an image is not rekeyed. -/
inductive RekeyError where
  | notLuks1
  | vendorSlotLocked
  | unsupportedCipher (what : Bytes)
  | malformed (what : String)
  | noFreeSlot
  | truncated
  deriving DecidableEq

/-! ## The header -/

/-- A key slot with the place of its material. -/
structure Keyslot where
  active : Bool
  iterations : UInt32
  salt : Bytes
  kmStart : Nat
  kmEnd : Nat
  stripes : Nat
  deriving DecidableEq

/-- A slot that is not in use. -/
def Keyslot.unused : Keyslot where
  active := false
  iterations := 0
  salt := List.replicate 32 0
  kmStart := 0
  kmEnd := 0
  stripes := 0

/-- What rekeying needs of a header. -/
structure Luks1Layout where
  hashSpec : Bytes
  keyBytes : Nat
  mkDigest : Bytes
  mkSalt : Bytes
  mkIter : UInt32
  slots : List Keyslot
  deriving DecidableEq

/-- The text up to the first NUL. -/
def cstr (b : Bytes) : Bytes := lossy (b.takeWhile (· ≠ 0))

/-- A header field counted in sectors, as an offset. -/
def sectorOffset (sectors : UInt32) (what : String) : Except RekeyError Nat :=
  if sectors.toNat * luksSector < 2 ^ 64 then .ok (sectors.toNat * luksSector)
  else .error (.malformed what)

/-- The magic, version, cipher, mode and hash; the hash in lowercase. -/
def parseIdentity (image : Bytes) : Except RekeyError Bytes :=
  if image.length < headerBytes ∨ slice image 0 6 ≠ luksMagic then .error .notLuks1
  else if be16 image 6 ≠ 1 then .error .notLuks1
  else
    let cipher := cstr (slice image 8 32)
    let mode := cstr (slice image 40 32)
    if ¬ eqIgnoreAsciiCase cipher (bytes "aes") ∨
        ¬ eqIgnoreAsciiCase mode (bytes "xts-plain64") then
      .error (.unsupportedCipher (cipher ++ bytes "-" ++ mode))
    else
      let hashSpec := lowercase (cstr (slice image 72 32))
      if hashSpec ≠ bytes "sha1" ∧ hashSpec ≠ bytes "sha256" then
        .error (.unsupportedCipher hashSpec)
      else .ok hashSpec

/-- Where the entry of a slot starts. -/
def entryAt (index : Nat) : Nat := slotTableOffset + index * slotEntryBytes

/-- The material of a slot from `kmStart` on, once its offset and stripes are read. -/
def Keyslot.place (image : Bytes) (entry keyBytes payloadStart : Nat) (active : Bool)
    (kmStart : Nat) : Except RekeyError Keyslot :=
  if kmStart < headerBytes then .error (.malformed "the key material is inside the header")
  else
    let kmEnd := kmStart + keyBytes * luks1Stripes.toNat
    if 2 ^ 64 ≤ kmEnd then .error (.malformed "key material end overflows")
    else if image.length < kmEnd then .error .truncated
    else if payloadStart < kmEnd then .error (.malformed "key material overlaps the payload")
    else .ok {
      active
      iterations := be32 image (entry + 4)
      salt := slice image (entry + 8) 32
      kmStart
      kmEnd
      stripes := luks1Stripes.toNat }

/-- The fields behind the state of a slot. -/
def Keyslot.parseFields (image : Bytes) (entry keyBytes payloadStart : Nat) (active : Bool) :
    Except RekeyError Keyslot :=
  if active = true ∧
  be32 image (entry + 4) = 0 then .error (.malformed "keyslot iterations are zero")
  else if be32 image (entry + 44) ≠ luks1Stripes then
    .error (.malformed "keyslot stripe count is not 4000")
  else do
    let kmStart ← sectorOffset (be32 image (entry + 40)) "key material offset"
    Keyslot.place image entry keyBytes payloadStart active kmStart

/-- `Keyslot::parse`: a slot that is neither active nor free is malformed. -/
def Keyslot.parse (image : Bytes) (index keyBytes payloadStart : Nat) : Except RekeyError Keyslot :=
  let entry := entryAt index
  if be32 image entry = slotActive then Keyslot.parseFields image entry keyBytes payloadStart true
  else if be32 image entry = slotInactive then
    Keyslot.parseFields image entry keyBytes payloadStart false
  else .error (.malformed "keyslot state is neither active nor inactive")

/-- Two material regions share an octet. -/
def Keyslot.Overlap (a b : Keyslot) : Prop := a.kmStart < b.kmEnd ∧ b.kmStart < a.kmEnd

instance (a b : Keyslot) : Decidable (a.Overlap b) := inferInstanceAs (Decidable (_ ∧ _))

/-- `check_disjoint`: no two materials overlap. -/
def checkDisjoint : List Keyslot → Except RekeyError Unit
  | [] => .ok ()
  | a :: rest =>
    if ∃ b ∈ rest, a.Overlap b then .error (.malformed "keyslot material regions overlap")
    else checkDisjoint rest

/-- The master-key digest fields and the slots, once the key size and the payload are known. -/
def Luks1Layout.parseSlots (image hashSpec : Bytes) (keyBytes payloadStart : Nat) :
    Except RekeyError Luks1Layout :=
  if be32 image 164 = 0 then .error (.malformed "mk-digest iterations are zero")
  else do
    let slots ← (List.range slotCount).mapM fun index =>
      Keyslot.parse image index keyBytes payloadStart
    checkDisjoint slots
    .ok {
      hashSpec
      keyBytes
      mkDigest := slice image 112 20
      mkSalt := slice image 132 32
      mkIter := be32 image 164
      slots }

/-- `Luks1Layout::parse`. -/
def Luks1Layout.parse (image : Bytes) : Except RekeyError Luks1Layout := do
  let hashSpec ← parseIdentity image
  let keyBytes := (be32 image 108).toNat
  if keyBytes ≠ 32 ∧ keyBytes ≠ 64 then .error (.malformed "master key size is not 32 or 64 bytes")
  else do
    let payloadStart ← sectorOffset (be32 image 104) "payload offset"
    if payloadStart < headerBytes then .error (.malformed "the payload offset is inside the header")
    else if image.length < payloadStart then .error .truncated
    else Luks1Layout.parseSlots image hashSpec keyBytes payloadStart

/-! ### What an accepted header says -/

/-- Entry `index` of the slot table was read as `s`. -/
structure Keyslot.Parsed (image : Bytes) (index keyBytes payloadStart : Nat) (s : Keyslot) :
    Prop where
  state : be32 image (entryAt index) = if s.active then slotActive else slotInactive
  iterations : s.iterations = be32 image (entryAt index + 4)
  iterations_ne : s.active = true → s.iterations ≠ 0
  salt : s.salt = slice image (entryAt index + 8) 32
  offset : s.kmStart = (be32 image (entryAt index + 40)).toNat * luksSector
  stripes_eq : be32 image (entryAt index + 44) = luks1Stripes
  stripes : s.stripes = luks1Stripes.toNat
  header_le : headerBytes ≤ s.kmStart
  kmEnd : s.kmEnd = s.kmStart + keyBytes * luks1Stripes.toNat
  small : s.kmEnd < 2 ^ 64
  le_length : s.kmEnd ≤ image.length
  le_payload : s.kmEnd ≤ payloadStart

/-- The cipher and its mode are the ones that are known. -/
theorem of_parseIdentity_eq_ok {image hashSpec : Bytes} (h : parseIdentity image = .ok hashSpec) :
    headerBytes ≤ image.length ∧ slice image 0 6 = luksMagic ∧ be16 image 6 = 1 ∧
      lowercase (cstr (slice image 40 32)) = bytes "xts-plain64" ∧
      hashSpec = lowercase (cstr (slice image 72 32)) := by
  rw [parseIdentity, check_eq_ok, check_eq_ok] at h
  obtain ⟨hmagic, hversion, h⟩ := h
  dsimp only at h
  rw [check_eq_ok, check_eq_ok] at h
  obtain ⟨hcipher, -, h⟩ := h
  cases h
  rw [not_or, not_lt, not_not] at hmagic
  rw [not_or, not_not, not_not] at hcipher
  exact ⟨hmagic.1, hmagic.2, not_not.mp hversion, hcipher.2.trans (by decide), rfl⟩

/-- A place in sectors, which does not overflow. -/
theorem sectorOffset_eq_ok {sectors : UInt32} {what : String} {n : Nat} :
    sectorOffset sectors what = .ok n ↔ n = sectors.toNat * luksSector := by
  have hlt : sectors.toNat * luksSector < 2 ^ 64 := by
    have := sectors.toNat_lt
    rw [luksSector]
    omega
  rw [sectorOffset, if_pos hlt]
  exact ⟨fun h => by cases h; rfl, fun h => by rw [h]⟩

/-- What was parsed of a slot stands in the image. -/
theorem Keyslot.parseFields_eq_ok {image : Bytes} {index keyBytes payloadStart : Nat}
    {active : Bool} {s : Keyslot}
    (hstate : be32 image (entryAt index) = if active then slotActive else slotInactive) :
    Keyslot.parseFields image (entryAt index) keyBytes payloadStart active = .ok s ↔
      s.active = active ∧ Keyslot.Parsed image index keyBytes payloadStart s := by
  rw [Keyslot.parseFields, check_eq_ok, check_eq_ok, bind_eq_ok]
  constructor
  · rintro ⟨hiter, hstripes, kmStart, hoff, h⟩
    rw [Keyslot.place, check_eq_ok] at h
    obtain ⟨hhead, h⟩ := h
    rw [check_eq_ok, check_eq_ok, check_eq_ok] at h
    obtain ⟨hsmall, hlen, hpay, h⟩ := h
    cases h
    refine ⟨rfl, hstate, rfl, ?_, rfl, sectorOffset_eq_ok.mp hoff, not_not.mp hstripes, rfl,
      not_lt.mp hhead, rfl, not_le.mp hsmall, not_lt.mp hlen, not_lt.mp hpay⟩
    intro ha hz
    exact hiter ⟨ha, hz⟩
  · rintro ⟨rfl, p⟩
    refine ⟨?_, not_not.mpr p.stripes_eq, s.kmStart, sectorOffset_eq_ok.mpr p.offset, ?_⟩
    · rintro ⟨ha, hz⟩
      exact p.iterations_ne ha (p.iterations.trans hz)
    · have hend := p.kmEnd
      have := p.small
      have := p.le_length
      have := p.le_payload
      rw [Keyslot.place, check_eq_ok]
      refine ⟨not_lt.mpr p.header_le, ?_⟩
      rw [check_eq_ok, check_eq_ok, check_eq_ok]
      refine ⟨by omega, by omega, by omega, ?_⟩
      rw [← hend, ← p.iterations, ← p.salt, ← p.stripes]

/-- A slot parses exactly when it is `Parsed`. -/
theorem Keyslot.parse_eq_ok {image : Bytes} {index keyBytes payloadStart : Nat} {s : Keyslot} :
    Keyslot.parse image index keyBytes payloadStart = .ok s ↔
      Keyslot.Parsed image index keyBytes payloadStart s := by
  rw [Keyslot.parse]
  split_ifs with hact hina
  · rw [Keyslot.parseFields_eq_ok (by simpa using hact)]
    refine ⟨And.right, fun p => ⟨?_, p⟩⟩
    cases ha : s.active with
    | true => rfl
    | false =>
      have := p.state
      rw [ha, hact] at this
      exact absurd this (by decide)
  · rw [Keyslot.parseFields_eq_ok (by simpa using hina)]
    refine ⟨And.right, fun p => ⟨?_, p⟩⟩
    cases ha : s.active with
    | false => rfl
    | true =>
      have := p.state
      rw [ha, hina] at this
      exact absurd this (by decide)
  · refine ⟨fun h => (by cases h), fun p => ?_⟩
    have := p.state
    cases ha : s.active with
    | true => exact absurd (by simpa [ha] using this) hact
    | false => exact absurd (by simpa [ha] using this) hina

/-- The test says what it looks for. -/
theorem checkDisjoint_eq_ok {slots : List Keyslot} :
    checkDisjoint slots = .ok () ↔ slots.Pairwise fun a b => ¬ a.Overlap b := by
  induction slots with
  | nil => exact ⟨fun _ => .nil, fun _ => rfl⟩
  | cons a rest ih =>
    rw [checkDisjoint, check_eq_ok, ih, List.pairwise_cons]
    exact and_congr_left fun _ => ⟨fun h b hb ho => h ⟨b, hb, ho⟩, fun h ⟨b, hb, ho⟩ => h b hb ho⟩

/-- The image has a header that was read as `layout`. -/
structure Luks1Layout.Parsed (image : Bytes) (payloadStart : Nat) (layout : Luks1Layout) :
    Prop where
  identity : parseIdentity image = .ok layout.hashSpec
  keyBytes : layout.keyBytes = (be32 image 108).toNat
  keyBytes_mem : layout.keyBytes = 32 ∨ layout.keyBytes = 64
  payload : payloadStart = (be32 image 104).toNat * luksSector
  header_le : headerBytes ≤ payloadStart
  payload_le : payloadStart ≤ image.length
  mkDigest : layout.mkDigest = slice image 112 20
  mkSalt : layout.mkSalt = slice image 132 32
  mkIter : layout.mkIter = be32 image 164
  mkIter_ne : layout.mkIter ≠ 0
  slots_length : layout.slots.length = slotCount
  slots_parsed : ∀ i s, layout.slots[i]? = some s →
    Keyslot.Parsed image i layout.keyBytes payloadStart s
  disjoint : layout.slots.Pairwise fun a b => ¬ a.Overlap b

/-- All slots parse, and are apart. -/
theorem Luks1Layout.parseSlots_eq_ok {image hashSpec : Bytes} {keyBytes payloadStart : Nat}
    {layout : Luks1Layout} :
    Luks1Layout.parseSlots image hashSpec keyBytes payloadStart = .ok layout ↔
      be32 image 164 ≠ 0 ∧ layout.slots.length = slotCount ∧
      (∀ i s, layout.slots[i]? = some s → Keyslot.Parsed image i keyBytes payloadStart s) ∧
      (layout.slots.Pairwise fun a b => ¬ a.Overlap b) ∧
      layout = { hashSpec, keyBytes, mkDigest := slice image 112 20, mkSalt := slice image 132 32,
                 mkIter := be32 image 164, slots := layout.slots } := by
  rw [Luks1Layout.parseSlots, check_eq_ok, bind_eq_ok]
  constructor
  · rintro ⟨hiter, slots, hslots, h⟩
    obtain ⟨u, hdis, h⟩ := bind_eq_ok.mp h
    cases h
    obtain ⟨hlen, hparsed⟩ := mapM_range_eq_ok.mp hslots
    exact ⟨hiter, hlen, fun i s hs => Keyslot.parse_eq_ok.mp (hparsed i s hs),
      checkDisjoint_eq_ok.mp hdis, rfl⟩
  · rintro ⟨hiter, hlen, hparsed, hdis, h⟩
    refine ⟨hiter, layout.slots,
      mapM_range_eq_ok.mpr ⟨hlen, fun i s hs => Keyslot.parse_eq_ok.mpr (hparsed i s hs)⟩, ?_⟩
    exact bind_eq_ok.mpr ⟨(), checkDisjoint_eq_ok.mpr hdis, congrArg Except.ok h.symm⟩

/-- A header parses exactly when it is `Parsed`. -/
theorem Luks1Layout.parse_eq_ok {image : Bytes} {layout : Luks1Layout} :
    Luks1Layout.parse image = .ok layout ↔ ∃ payloadStart, layout.Parsed image payloadStart := by
  rw [Luks1Layout.parse, bind_eq_ok]
  constructor
  · rintro ⟨hashSpec, hid, h⟩
    rw [check_eq_ok, bind_eq_ok] at h
    obtain ⟨hkey, payloadStart, hpay, h⟩ := h
    rw [check_eq_ok, check_eq_ok, Luks1Layout.parseSlots_eq_ok] at h
    obtain ⟨hhead, hlen, hiter, hslots, hparsed, hdis, h⟩ := h
    have hspec : layout.hashSpec = hashSpec := by rw [h]
    have hbytes : layout.keyBytes = (be32 image 108).toNat := by rw [h]
    refine ⟨payloadStart, ?_⟩
    constructor
    · rw [hspec, hid]
    · exact hbytes
    · rw [hbytes]
      omega
    · exact sectorOffset_eq_ok.mp hpay
    · exact not_lt.mp hhead
    · exact not_lt.mp hlen
    · rw [h]
    · rw [h]
    · rw [h]
    · rw [h]
      exact hiter
    · exact hslots
    · rw [hbytes]
      exact hparsed
    · exact hdis
  · rintro ⟨payloadStart, p⟩
    refine ⟨layout.hashSpec, p.identity, ?_⟩
    rw [check_eq_ok, ← p.keyBytes, bind_eq_ok]
    refine ⟨by have := p.keyBytes_mem; omega, payloadStart, sectorOffset_eq_ok.mpr p.payload, ?_⟩
    rw [check_eq_ok, check_eq_ok, Luks1Layout.parseSlots_eq_ok]
    refine ⟨not_lt.mpr p.header_le, not_lt.mpr p.payload_le, p.mkIter ▸ p.mkIter_ne, p.slots_length,
      p.slots_parsed, p.disjoint, ?_⟩
    rw [← p.mkDigest, ← p.mkSalt, ← p.mkIter]

end CdjEmu.Luks
