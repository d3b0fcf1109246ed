/-
  REKEYING A CABINET — adding a LUKS1 keyslot to an image without disturbing what is there.

  `addKeyslotWith` opens the image with the factory passphrase, keys the first inactive slot for the
  unit passphrase, and exchanges that slot's entry with entry 0.  In one buffer the writes are: the
  material of the chosen slot, its entry, and the exchange.  They are followed by ranges only
  (`Stored`, `slice_swapSlotEntries`), so that the new table is the old one with one entry
  rewritten, seen through the transposition of `0` and that slot.

  What an accepted image opens to is `opens`, slot by slot; `unlock_eq_ok` says that `unlock`
  returns the first of these.  The octets that `random_bytes` draws are an arbitrary stream.

  1. **Program** — `add_keyslot_with` with all that it calls: `unlock`, the choice of the slot,
     `write_slot` and `swap_slot_entries`.

  2. **Specification** — `Keyed`: the new entry is in front, every other entry is where the
     transposition of 0 and the chosen slot takes it, and no octet outside the table and the one
     region of material has changed.  Then: the unit passphrase opens slot 0, whatever opened before
     opens to the same key from its new place, and the payload is the same.

  3. **The crux (`Stored.keyed`)** — what the three writes leave of each range of the header.  The
     regions of material do not overlap and lie behind the header, so writing one changes no other;
     the exchange moves 48 octets whole.

  4. **Bridge** — `unlock_eq_ok` and `opens_eq_some` turn both openings into statements on ranges,
     and the anti-forensic split and the cipher are undone by `split_merges_back`'s lemmas and
     `XtsInverts`.
-/
import CdjEmu.Firmware.LuksLayout

namespace CdjEmu.Luks

/-! ## Opening a slot -/

section

variable (C : Crypto)

/-- The tweak of a sector: its number in the low eight octets. -/
def sectorTweak (sector : Nat) : Bytes := toLe64 sector ++ List.replicate 8 0

/-- XTS over the sectors of `material`, with AES keys of `aesKey` octets. -/
def xtsSectors (aesKey : Nat) (material key : Bytes) (encrypt : Bool) : Except RekeyError Bytes :=
  let dataKey := key.take (key.length / 2)
  let tweakKey := key.drop (key.length / 2)
  if dataKey.length ≠ aesKey ∨ tweakKey.length ≠ aesKey then
    .error (.malformed "master key size is not 32 or 64 bytes")
  else if material.length % 16 ≠ 0 then .error (.malformed "key material is not whole AES blocks")
  else
    let crypt := if encrypt then C.encryptSector else C.decryptSector
    .ok (onSectors (fun sector => crypt dataKey tweakKey (sectorTweak sector)) 0 material)

/-- The key material of a slot under the slot's key: AES-128 or AES-256, by its length. -/
def xtsMaterial (material slotKey : Bytes) (encrypt : Bool) : Except RekeyError Bytes :=
  if slotKey.length = 32 then xtsSectors C 16 material slotKey encrypt
  else if slotKey.length = 64 then xtsSectors C 32 material slotKey encrypt
  else .error (.malformed "master key size is not 32 or 64 bytes")

/-- The material of a slot. -/
def Keyslot.material (s : Keyslot) (image : Bytes) : Bytes :=
  slice image s.kmStart (s.kmEnd - s.kmStart)

/-- `mk` passes the master-key digest of the header. -/
def Luks1Layout.Accepts (layout : Luks1Layout) (mk : Bytes) : Prop :=
  pbkdf2Derive C layout.hashSpec mk layout.mkSalt layout.mkIter 20 = some layout.mkDigest

instance (layout : Luks1Layout) (mk : Bytes) : Decidable (layout.Accepts C mk) :=
  inferInstanceAs (Decidable (_ = _))

/-- One round of the loop of `unlock`: the master key, when the slot opens. -/
def openKeyslot (layout : Luks1Layout) (image passphrase : Bytes) (slot : Keyslot) :
    Except RekeyError (Option Bytes) :=
  match pbkdf2Derive C layout.hashSpec passphrase slot.salt slot.iterations layout.keyBytes with
  | none => .ok none
  | some slotKey => do
    let material ← xtsMaterial C (slot.material image) slotKey false
    let mk := afMerge C material layout.keyBytes slot.stripes layout.hashSpec
    .ok (if layout.Accepts C mk then some mk else none)

/-- `unlock` over the active slots that are left. -/
def unlockFrom (layout : Luks1Layout) (image passphrase : Bytes) :
    List Keyslot → Except RekeyError Bytes
  | [] => .error .vendorSlotLocked
  | slot :: rest => do
    match ← openKeyslot C layout image passphrase slot with
    | some mk => .ok mk
    | none => unlockFrom layout image passphrase rest

/-- `unlock`: the first active slot that a passphrase opens gives the master key. -/
def unlock (layout : Luks1Layout) (image passphrase : Bytes) : Except RekeyError Bytes :=
  unlockFrom C layout image passphrase (layout.slots.filter (·.active))

/-! ## Adding a slot -/

/-- `n` octets of the random stream, from its position `pos` on. -/
def randomBytes (random : Nat → UInt8) (pos n : Nat) : Bytes :=
  (List.range n).map fun i => random (pos + i)

/-- The material that wraps `masterKey` for `passphrase`. -/
def wrapMasterKey (random : Nat → UInt8) (layout : Luks1Layout) (slot : Keyslot)
    (masterKey passphrase : Bytes) (iterations : UInt32) : Except RekeyError Bytes :=
  let salt := randomBytes random 0 32
  match pbkdf2Derive C layout.hashSpec passphrase salt iterations layout.keyBytes with
  | none => .error (.unsupportedCipher layout.hashSpec)
  | some slotKey =>
    let filler := randomBytes random 32 (masterKey.length * (slot.stripes - 1))
    xtsMaterial C (afSplit C masterKey slot.stripes layout.hashSpec filler) slotKey true

/-- The image once the material and the entry of slot `index` are written. -/
def storeSlot (image : Bytes) (slot : Keyslot) (index : Nat) (material : Bytes)
    (iterations : UInt32) (salt : Bytes) : Bytes :=
  let image := splice image slot.kmStart material
  let entry := entryAt index
  let image := splice image entry (toBe32 slotActive)
  let image := splice image (entry + 4) (toBe32 iterations)
  splice image (entry + 8) salt

/-- `write_slot`: the master key is split, encrypted and written, and then the slot's entry. -/
def writeSlot (random : Nat → UInt8) (image : Bytes) (layout : Luks1Layout) (index : Nat)
    (masterKey passphrase : Bytes) (iterations : UInt32) : Except RekeyError Bytes := do
  let slot := layout.slots.getD index Keyslot.unused
  let material ← wrapMasterKey C random layout slot masterKey passphrase iterations
  .ok (storeSlot image slot index material iterations (randomBytes random 0 32))

/-- `swap_slot_entries`: the two entries trade places in the header, the
    material stays where it is. -/
def swapSlotEntries (image : Bytes) (a b : Nat) : Bytes :=
  if a = b then image
  else
    let lo := entryAt (min a b)
    let hi := entryAt (max a b)
    splice (splice image lo (slice image hi slotEntryBytes)) hi (slice image lo slotEntryBytes)

/-- The slot that was keyed and the new image. -/
def addKeyslotWith (random : Nat → UInt8) (image vendorPassphrase unitPassphrase : Bytes)
    (iterations : UInt32) : Except RekeyError (Nat × Bytes) := do
  let layout ← Luks1Layout.parse image
  let masterKey ← unlock C layout image vendorPassphrase
  match layout.slots.findIdx? (!·.active) with
  | none => .error .noFreeSlot
  | some index => do
    let image ← writeSlot C random image layout index masterKey unitPassphrase iterations
    .ok (0, swapSlotEntries image 0 index)

/-! ## What the slots open to -/

/-- The sectors of `material` through `crypt`, keyed with the two halves of `key`. -/
def xtsWith (crypt : Bytes → Bytes → Bytes → Bytes → Bytes) (material key : Bytes) : Bytes :=
  onSectors (fun sector =>
    crypt (key.take (key.length / 2)) (key.drop (key.length / 2)) (sectorTweak sector)) 0 material

/-- The master key that `slotKey` gives for a slot, right or wrong. -/
def recover (layout : Luks1Layout) (image : Bytes) (slot : Keyslot) (slotKey : Bytes) : Bytes :=
  afMerge C (xtsWith C.decryptSector (slot.material image) slotKey) layout.keyBytes slot.stripes
    layout.hashSpec

/-- What the loop of `unlock` finds in a slot. -/
def opens (layout : Luks1Layout) (image passphrase : Bytes) (slot : Keyslot) : Option Bytes :=
  (pbkdf2Derive C layout.hashSpec passphrase slot.salt slot.iterations layout.keyBytes).bind
    fun slotKey =>
      if layout.Accepts C (recover C layout image slot slotKey) then
        some (recover C layout image slot slotKey)
      else none

variable {C}

/-- The sectors go through when key and material have the lengths that the cipher wants. -/
theorem xtsSectors_ok (material key : Bytes) (encrypt : Bool) (hk : key.length % 2 = 0)
    (hm : material.length % 16 = 0) :
    xtsSectors C (key.length / 2) material key encrypt =
      .ok (xtsWith (if encrypt then C.encryptSector else C.decryptSector) material key) := by
  have htake : (key.take (key.length / 2)).length = key.length / 2 := by
    rw [List.length_take]
    omega
  have hdrop : (key.drop (key.length / 2)).length = key.length / 2 := by
    rw [List.length_drop]
    omega
  rw [xtsSectors, if_neg (by rw [htake, hdrop]; simp), if_neg (by omega)]
  rfl

/-- So does the material of a slot whose key is one of the two lengths. -/
theorem xtsMaterial_ok (material slotKey : Bytes) (encrypt : Bool)
    (hk : slotKey.length = 32 ∨ slotKey.length = 64) (hm : material.length % 16 = 0) :
    xtsMaterial C material slotKey encrypt =
      .ok (xtsWith (if encrypt then C.encryptSector else C.decryptSector) material slotKey) := by
  have hsectors := xtsSectors_ok (C := C) material slotKey encrypt (by omega) hm
  rw [xtsMaterial]
  rcases hk with hk | hk
  · rw [if_pos hk, ← hsectors, hk]
  · rw [if_neg (by omega), if_pos hk, ← hsectors, hk]

section

variable {layout : Luks1Layout} {image : Bytes} {payloadStart : Nat}

/-- The material that a parsed slot points to lies in the image as a whole. -/
theorem Keyslot.Parsed.length_material {index keyBytes : Nat} {s : Keyslot}
    (p : Keyslot.Parsed image index keyBytes payloadStart s) :
    (s.material image).length = keyBytes * luks1Stripes.toNat := by
  have := p.kmEnd
  have := p.le_length
  rw [Keyslot.material, length_slice (by omega)]
  omega

/-- In an accepted image no slot ends the loop with an error. -/
theorem openKeyslot_eq (p : layout.Parsed image payloadStart) (passphrase : Bytes) {slot : Keyslot}
    (hslot : slot ∈ layout.slots) :
    openKeyslot C layout image passphrase slot = .ok (opens C layout image passphrase slot) := by
  obtain ⟨i, hi⟩ := List.mem_iff_getElem?.mp hslot
  have hm := (p.slots_parsed i slot hi).length_material
  rw [openKeyslot, opens]
  cases hkdf : pbkdf2Derive C layout.hashSpec passphrase slot.salt slot.iterations
    layout.keyBytes with
  | none => rfl
  | some slotKey =>
    have hlen : slotKey.length = layout.keyBytes := C.length_pbkdf2 _ _ _ _ _ _ hkdf
    have hxts := xtsMaterial_ok (C := C) (slot.material image) slotKey false
      (by rw [hlen]; exact p.keyBytes_mem)
      (by rw [hm, show luks1Stripes.toNat = 16 * 250 from rfl]; omega)
    dsimp only
    rw [hxts]
    rfl

/-- Unlocking finds the first slot that opens. -/
theorem unlockFrom_eq_ok (p : layout.Parsed image payloadStart) {passphrase mk : Bytes}
    {slots : List Keyslot} (hslots : ∀ s ∈ slots, s ∈ layout.slots) :
    unlockFrom C layout image passphrase slots = .ok mk ↔
      slots.findSome? (opens C layout image passphrase) = some mk := by
  induction slots with
  | nil => exact ⟨fun h => (by cases h), fun h => (by cases h)⟩
  | cons s rest ih =>
    rw [unlockFrom, openKeyslot_eq p passphrase (hslots s List.mem_cons_self), List.findSome?_cons]
    change (match opens C layout image passphrase s with
      | some mk => Except.ok mk
      | none => unlockFrom C layout image passphrase rest) = .ok mk ↔ _
    cases opens C layout image passphrase s with
    | some mk' => exact ⟨fun h => by cases h; rfl, fun h => by cases h; rfl⟩
    | none => exact ih fun t ht => hslots t (List.mem_cons_of_mem _ ht)

/-- `unlock` returns what the first active slot that opens holds. -/
theorem unlock_eq_ok (p : layout.Parsed image payloadStart) {passphrase mk : Bytes} :
    unlock C layout image passphrase = .ok mk ↔
      (layout.slots.filter (·.active)).findSome? (opens C layout image passphrase) = some mk :=
  unlockFrom_eq_ok p fun _ hs => (List.mem_filter.mp hs).1

/-- A slot opens with a key exactly when the recovered key has the header's digest. -/
theorem opens_eq_some {passphrase mk : Bytes} {slot : Keyslot} :
    opens C layout image passphrase slot = some mk ↔
      ∃ slotKey, pbkdf2Derive C layout.hashSpec passphrase slot.salt slot.iterations
          layout.keyBytes = some slotKey ∧
        recover C layout image slot slotKey = mk ∧ layout.Accepts C mk := by
  rw [opens, Option.bind_eq_some_iff]
  refine exists_congr fun slotKey => and_congr_right fun _ => ?_
  rw [Option.ite_none_right_eq_some, Option.some_inj]
  constructor
  · rintro ⟨hacc, rfl⟩
    exact ⟨rfl, hacc⟩
  · rintro ⟨rfl, hacc⟩
    exact ⟨hacc, rfl⟩

/-- A key that opens has the length that the header gives. -/
theorem length_of_opens {passphrase mk : Bytes} {slot : Keyslot}
    (h : opens C layout image passphrase slot = some mk) : mk.length = layout.keyBytes := by
  obtain ⟨slotKey, -, hrec, -⟩ := opens_eq_some.mp h
  rw [← hrec, recover, length_afMerge]

/-- And the header accepts it. -/
theorem accepts_of_opens {passphrase mk : Bytes} {slot : Keyslot}
    (h : opens C layout image passphrase slot = some mk) : layout.Accepts C mk := by
  obtain ⟨slotKey, -, -, hacc⟩ := opens_eq_some.mp h
  exact hacc

end

/-! ## The writes -/

section

/-- `r` is `image` with slot `index` keyed: its material and the first 40 octets of its entry are
    written and nothing else is. -/
structure Stored (image : Bytes) (slot : Keyslot) (index : Nat) (material : Bytes)
    (iterations : UInt32) (salt r : Bytes) : Prop where
  length : r.length = image.length
  state : slice r (entryAt index) 4 = toBe32 slotActive
  iterations : slice r (entryAt index + 4) 4 = toBe32 iterations
  salt : slice r (entryAt index + 8) 32 = salt
  material : slot.material r = material
  outside : ∀ k, k < entryAt index ∨ entryAt index + 40 ≤ k → k < slot.kmStart ∨ slot.kmEnd ≤ k →
    r[k]? = (image : List UInt8)[k]?

/-- The entries lie one behind the other. -/
theorem entryAt_lt {i j : Nat} (h : i < j) : entryAt i + slotEntryBytes ≤ entryAt j := by
  rw [entryAt, entryAt, slotEntryBytes]
  omega

/-- All of them in the header. -/
theorem entryAt_lt_header {i : Nat} (h : i < slotCount) :
    entryAt i + slotEntryBytes ≤ headerBytes := by
  rw [slotCount] at h
  rw [entryAt, slotEntryBytes, slotTableOffset, headerBytes]
  omega

/-- Storing material and entry leaves the rest of the image as it was. -/
theorem stored_storeSlot {image : Bytes} {slot : Keyslot} {index keyBytes payloadStart : Nat}
    {material salt : Bytes} (p : Keyslot.Parsed image index keyBytes payloadStart slot)
    (hindex : index < slotCount) (hm : material.length = keyBytes * luks1Stripes.toNat)
    (hsalt : salt.length = 32) (iterations : UInt32) :
    Stored image slot index material iterations salt
      (storeSlot image slot index material iterations salt) := by
  have hentry := entryAt_lt_header hindex
  have hhead := p.header_le
  have hend := p.kmEnd
  have hlen := p.le_length
  rw [slotEntryBytes] at hentry
  -- the buffers one behind the other, each as long as the image
  have h₁ : (splice image slot.kmStart material).length = image.length := length_splice (by omega)
  have h₂ : (splice (splice image slot.kmStart material) (entryAt index)
      (toBe32 slotActive)).length = image.length :=
    (length_splice (by rw [h₁, length_toBe32]; omega)).trans h₁
  have h₃ : (splice (splice (splice image slot.kmStart material) (entryAt index)
      (toBe32 slotActive)) (entryAt index + 4) (toBe32 iterations)).length = image.length :=
    (length_splice (by rw [h₂, length_toBe32]; omega)).trans h₂
  constructor
  · rw [storeSlot, length_splice (by omega), h₃]
  · rw [storeSlot, slice_splice_of_disjoint (by omega) (by omega),
      slice_splice_of_disjoint (by omega) (by omega)]
    exact slice_splice _ _ (by omega) rfl
  · rw [storeSlot, slice_splice_of_disjoint (by omega) (by omega)]
    exact slice_splice _ _ (by omega) rfl
  · rw [storeSlot]
    exact slice_splice _ _ (by omega) hsalt
  · rw [Keyslot.material, storeSlot, slice_splice_of_disjoint (by omega) (by omega),
      slice_splice_of_disjoint (by omega) (by rw [length_toBe32]; omega),
      slice_splice_of_disjoint (by omega) (by rw [length_toBe32]; omega)]
    exact slice_splice _ _ (by omega) (by omega)
  · intro k hk hkm
    rw [storeSlot, getElem?_splice_of_outside (by omega) (by omega),
      getElem?_splice_of_outside (by omega) (by rw [length_toBe32]; omega),
      getElem?_splice_of_outside (by omega) (by rw [length_toBe32]; omega),
      getElem?_splice_of_outside (by omega) (by omega)]

variable {image : Bytes} {a b : Nat}

/-- For two different slots both splices happen, the lower one first. -/
theorem swapSlotEntries_of_lt (image : Bytes) (hab : a < b) :
    swapSlotEntries image a b =
      splice (splice image (entryAt a) (slice image (entryAt b) slotEntryBytes)) (entryAt b)
        (slice image (entryAt a) slotEntryBytes) := by
  rw [swapSlotEntries, if_neg (by omega), min_eq_left hab.le, max_eq_right hab.le]

section

variable (hab : a < b) (hb : b < slotCount) (hlen : headerBytes ≤ image.length)
include hab hb hlen

theorem length_entries : (slice image (entryAt a) slotEntryBytes).length = slotEntryBytes ∧
    (slice image (entryAt b) slotEntryBytes).length = slotEntryBytes ∧
    (splice image (entryAt a) (slice image (entryAt b) slotEntryBytes)).length = image.length := by
  have hend := entryAt_lt_header hb
  have ha := entryAt_lt hab
  have hslice : (slice image (entryAt b) slotEntryBytes).length = slotEntryBytes :=
    length_slice (by omega)
  exact ⟨length_slice (by omega), hslice, length_splice (by omega)⟩

/-- Swapping keeps the image's length. -/
theorem length_swapSlotEntries : (swapSlotEntries image a b).length = image.length := by
  have hend := entryAt_lt_header hb
  obtain ⟨h₁, h₂, h₃⟩ := length_entries hab hb hlen
  rw [swapSlotEntries_of_lt image hab, length_splice (by omega), h₃]

/-- The exchange stays inside the slot table. -/
theorem getElem?_swapSlotEntries {k : Nat} (hk : k < slotTableOffset ∨ headerBytes ≤ k) :
    (swapSlotEntries image a b)[k]? = image[k]? := by
  have hend := entryAt_lt_header hb
  have ha := entryAt_lt hab
  have hstart : slotTableOffset ≤ entryAt a := Nat.le_add_right _ _
  obtain ⟨h₁, h₂, h₃⟩ := length_entries hab hb hlen
  rw [swapSlotEntries_of_lt image hab, getElem?_splice_of_outside (by omega) (by omega),
    getElem?_splice_of_outside (by omega) (by omega)]

/-- Entry `i` of the result is the entry that the transposition sends `i` to. -/
theorem slice_swapSlotEntries (i : Nat) :
    slice (swapSlotEntries image a b) (entryAt i) slotEntryBytes =
      slice image (entryAt (Equiv.swap a b i)) slotEntryBytes := by
  have hend := entryAt_lt_header hb
  have ha := entryAt_lt hab
  obtain ⟨h₁, h₂, h₃⟩ := length_entries hab hb hlen
  rw [swapSlotEntries_of_lt image hab]
  by_cases hib : i = b
  · rw [hib, Equiv.swap_apply_right]
    exact slice_splice _ _ (by omega) h₁
  by_cases hia : i = a
  · rw [hia, Equiv.swap_apply_left, slice_splice_of_disjoint (by omega) (by omega)]
    exact slice_splice _ _ (by omega) h₂
  · have hda : entryAt i + slotEntryBytes ≤ entryAt a ∨ entryAt a + slotEntryBytes ≤ entryAt i :=
      (Nat.lt_or_gt_of_ne hia).imp entryAt_lt entryAt_lt
    have hdb : entryAt i + slotEntryBytes ≤ entryAt b ∨ entryAt b + slotEntryBytes ≤ entryAt i :=
      (Nat.lt_or_gt_of_ne hib).imp entryAt_lt entryAt_lt
    rw [Equiv.swap_apply_of_ne_of_ne hia hib, slice_splice_of_disjoint (by omega) (by omega),
      slice_splice_of_disjoint (by omega) (by omega)]

end

/-- The exchange of two entries that may be one and the same. -/
theorem swapSlotEntries_spec (hab : a ≤ b) (hb : b < slotCount)
    (hlen : headerBytes ≤ image.length) :
    (swapSlotEntries image a b).length = image.length ∧
    (∀ k, k < slotTableOffset ∨ headerBytes ≤ k → (swapSlotEntries image a b)[k]? = image[k]?) ∧
    ∀ i, slice (swapSlotEntries image a b) (entryAt i) slotEntryBytes =
      slice image (entryAt (Equiv.swap a b i)) slotEntryBytes := by
  rcases hab.eq_or_lt with rfl | hlt
  · rw [swapSlotEntries, if_pos rfl, Equiv.swap_self]
    exact ⟨rfl, fun _ _ => rfl, fun _ => rfl⟩
  · exact ⟨length_swapSlotEntries hlt hb hlen, fun _ hk => getElem?_swapSlotEntries hlt hb hlen hk,
      slice_swapSlotEntries hlt hb hlen⟩

end

/-! ## The new image -/

/-- `r` is `image` with slot `index` keyed and its entry in front: entry `0` is the new one, every
    other entry the one the transposition sends it to. -/
structure Keyed (image : Bytes) (slot : Keyslot) (index : Nat) (material : Bytes)
    (iterations : UInt32) (salt r : Bytes) : Prop where
  length : r.length = image.length
  state : be32 r (entryAt 0) = slotActive
  iterations : be32 r (entryAt 0 + 4) = iterations
  salt : slice r (entryAt 0 + 8) 32 = salt
  offset : be32 r (entryAt 0 + 40) = be32 image (entryAt index + 40)
  stripes : be32 r (entryAt 0 + 44) = be32 image (entryAt index + 44)
  entry : ∀ i, i ≠ 0 → i < slotCount → slice r (entryAt i) slotEntryBytes =
    slice image (entryAt (Equiv.swap 0 index i)) slotEntryBytes
  material : slot.material r = material
  outside : ∀ k, k < slotTableOffset ∨ headerBytes ≤ k → k < slot.kmStart ∨ slot.kmEnd ≤ k →
    r[k]? = (image : List UInt8)[k]?

theorem swap_ne (index : Nat) {i : Nat} (hi : i ≠ 0) : Equiv.swap 0 index i ≠ index := by
  intro h
  rw [Equiv.swap_apply_eq_iff, Equiv.swap_apply_right] at h
  exact hi h

theorem swap_lt {index i n : Nat} (hindex : index < n) (hi : i < n) : Equiv.swap 0 index i < n := by
  rw [Equiv.swap_apply_def]
  split_ifs
  · exact hindex
  · omega
  · exact hi

/-- What is stored in a slot's place is read back from it. -/
theorem Stored.keyed {image : Bytes} {slot : Keyslot} {index : Nat} {material : Bytes}
    {iterations : UInt32} {salt r : Bytes} (h : Stored image slot index material iterations salt r)
    (hindex : index < slotCount) (hhead : headerBytes ≤ slot.kmStart)
    (hlen : headerBytes ≤ image.length) :
    Keyed image slot index material iterations salt (swapSlotEntries r 0 index) := by
  obtain ⟨hlen', hout, hswap⟩ := swapSlotEntries_spec (Nat.zero_le index) hindex (h.length ▸ hlen)
  have hentry := entryAt_lt_header hindex
  have hstart : slotTableOffset ≤ entryAt index := Nat.le_add_right _ _
  have hbytes : slotEntryBytes = 48 := rfl
  -- a part of entry 0 of the result is that part of entry `index` before the exchange
  have hzero : ∀ k n, k + n ≤ slotEntryBytes →
      slice (swapSlotEntries r 0 index) (entryAt 0 + k) n = slice r (entryAt index + k) n := by
    intro k n hk
    rw [← slice_slice hk, hswap 0, Equiv.swap_apply_left, slice_slice hk]
  have hword : ∀ k, k + 4 ≤ slotEntryBytes →
      be32 (swapSlotEntries r 0 index) (entryAt 0 + k) = be32 r (entryAt index + k) := by
    intro k hk
    rw [be32, hzero k 4 hk, be32]
  -- the last two words of an entry are not written
  have hkeep : ∀ k, 40 ≤ k → k + 4 ≤ slotEntryBytes →
      be32 r (entryAt index + k) = be32 image (entryAt index + k) := by
    intro k hk hk'
    rw [be32, be32, slice_congr]
    intro m hm
    exact h.outside _ (by omega) (by omega)
  constructor
  · rw [hlen', h.length]
  · rw [← Nat.add_zero (entryAt 0), hword 0 (by decide)]
    exact be32_of_slice h.state
  · rw [hword 4 (by decide)]
    exact be32_of_slice h.iterations
  · rw [hzero 8 32 (by decide)]
    exact h.salt
  · rw [hword 40 (by decide), hkeep 40 (by decide) (by decide)]
  · rw [hword 44 (by decide), hkeep 44 (by decide) (by decide)]
  · intro i hi hi'
    have hlt := entryAt_lt_header (swap_lt hindex hi')
    -- another entry lies before or behind the one that was written
    have hother := (Nat.lt_or_gt_of_ne (swap_ne index hi)).imp entryAt_lt entryAt_lt
    rw [hswap i]
    apply slice_congr
    intro k hk
    exact h.outside _ (by omega) (by omega)
  · rw [← h.material, Keyslot.material, Keyslot.material]
    apply slice_congr
    intro k hk
    exact hout _ (by omega)
  · intro k hk hkm
    rw [hout k hk]
    exact h.outside k (by omega) hkm

/-- The layout of the new image. -/
def Luks1Layout.keyed (layout : Luks1Layout) (index : Nat) (iterations : UInt32) (salt : Bytes) :
    Luks1Layout :=
  let slot := layout.slots.getD index Keyslot.unused
  let front := { slot with active := true, iterations, salt }
  { layout with
    slots := (List.range slotCount).map fun i =>
      if i = 0 then front else layout.slots.getD (Equiv.swap 0 index i) Keyslot.unused }

/-- What the header says of itself stands before the table of slots. -/
theorem parseIdentity_congr {image r : Bytes} (hlen : r.length = image.length)
    (h : ∀ k < slotTableOffset, (r : List UInt8)[k]? = (image : List UInt8)[k]?) :
    parseIdentity r = parseIdentity image := by
  have hs : ∀ i n, i + n ≤ slotTableOffset → slice r i n = slice image i n := by
    intro i n hin
    apply slice_congr
    intro k hk
    exact h _ (by omega)
  rw [parseIdentity, parseIdentity, hlen, hs 0 6 (by decide), hs 8 32 (by decide),
    hs 40 32 (by decide), hs 72 32 (by decide), be16, hs 6 2 (by decide), ← be16]

/-- An entry is read the same wherever it stands. -/
theorem Keyslot.Parsed.congr {image r : Bytes} {i j keyBytes payloadStart : Nat} {s : Keyslot}
    (p : Keyslot.Parsed image i keyBytes payloadStart s) (hlen : r.length = image.length)
    (h : slice r (entryAt j) slotEntryBytes = slice image (entryAt i) slotEntryBytes) :
    Keyslot.Parsed r j keyBytes payloadStart s := by
  have hs : ∀ k n, k + n ≤ slotEntryBytes →
      slice r (entryAt j + k) n = slice image (entryAt i + k) n := by
    intro k n hk
    rw [← slice_slice hk, h, slice_slice hk]
  have hw : ∀ k, k + 4 ≤ slotEntryBytes → be32 r (entryAt j + k) = be32 image (entryAt i + k) := by
    intro k hk
    rw [be32, hs k 4 hk, be32]
  constructor
  · rw [← Nat.add_zero (entryAt j), hw 0 (by decide)]
    exact p.state
  · rw [hw 4 (by decide)]
    exact p.iterations
  · exact p.iterations_ne
  · rw [hs 8 32 (by decide)]
    exact p.salt
  · rw [hw 40 (by decide)]
    exact p.offset
  · rw [hw 44 (by decide)]
    exact p.stripes_eq
  · exact p.stripes
  · exact p.header_le
  · exact p.kmEnd
  · exact p.small
  · rw [hlen]
    exact p.le_length
  · exact p.le_payload

/-- Slots at different places do not overlap. -/
theorem Luks1Layout.Parsed.not_overlap {layout : Luks1Layout} {image : Bytes} {payloadStart : Nat}
    (p : layout.Parsed image payloadStart) {i j : Nat} {s t : Keyslot} (hij : i ≠ j)
    (hs : layout.slots[i]? = some s) (ht : layout.slots[j]? = some t) : ¬ s.Overlap t := by
  obtain ⟨hi, rfl⟩ := List.getElem?_eq_some_iff.mp hs
  obtain ⟨hj, rfl⟩ := List.getElem?_eq_some_iff.mp ht
  have hp := List.pairwise_iff_getElem.mp p.disjoint
  rcases Nat.lt_or_gt_of_ne hij with hlt | hgt
  · exact hp i j hi hj hlt
  · exact fun h => hp j i hj hi hgt ⟨h.2, h.1⟩

section

variable {layout : Luks1Layout} {image r : Bytes} {payloadStart index : Nat} {slot : Keyslot}
  {material salt : Bytes} {iterations : UInt32}

/-- After the swap the new slot is the first. -/
theorem getElem?_keyed_zero (hslot : layout.slots[index]? = some slot) (iterations : UInt32)
    (salt : Bytes) : (layout.keyed index iterations salt).slots[0]? =
      some { slot with active := true, iterations, salt } := by
  simp [Luks1Layout.keyed, slotCount, List.getD, hslot]

/-- The slot that was first takes the new one's place, and the others stay. -/
theorem getElem?_keyed (hcount : layout.slots.length = slotCount) (hindex : index < slotCount)
    (iterations : UInt32) (salt : Bytes) {i : Nat} (hi : i ≠ 0) (hi' : i < slotCount) :
    (layout.keyed index iterations salt).slots[i]? = layout.slots[Equiv.swap 0 index i]? := by
  have hlt := swap_lt hindex hi'
  rw [Luks1Layout.keyed, List.getElem?_map, List.getElem?_range hi', Option.map_some, if_neg hi,
    List.getD, List.getElem?_eq_getElem (hcount ▸ hlt), Option.getD_some]

/-- The new image has the new layout. -/
theorem Keyed.parsed (h : Keyed image slot index material iterations salt r)
    (p : layout.Parsed image payloadStart) (hslot : layout.slots[index]? = some slot)
    (hiter : iterations ≠ 0) : (layout.keyed index iterations salt).Parsed r payloadStart := by
  have hindex : index < slotCount := p.slots_length ▸ (List.getElem?_eq_some_iff.mp hslot).1
  have ps := p.slots_parsed index slot hslot
  have hhead := ps.header_le
  have htable : slotTableOffset ≤ headerBytes := by decide
  -- what stands before the slot table is as it was
  have hlow : ∀ k < slotTableOffset, (r : List UInt8)[k]? = (image : List UInt8)[k]? :=
    fun k hk => h.outside k (.inl hk) (by omega)
  have hs : ∀ i n, i + n ≤ slotTableOffset → slice r i n = slice image i n :=
    fun i n hin => slice_congr fun k hk => hlow _ (by omega)
  have hw : ∀ i, i + 4 ≤ slotTableOffset → be32 r i = be32 image i :=
    fun i hi => by rw [be32, hs i 4 hi, be32]
  have hzero := getElem?_keyed_zero hslot iterations salt
  have hother := fun i => getElem?_keyed p.slots_length hindex iterations salt (i := i)
  have hcount : (layout.keyed index iterations salt).slots.length = slotCount := by
    rw [Luks1Layout.keyed, List.length_map, List.length_range]
  constructor
  · rw [parseIdentity_congr h.length hlow]
    exact p.identity
  -- the identity, the payload and the digest are before the table
  · rw [hw 108 (by decide)]
    exact p.keyBytes
  · exact p.keyBytes_mem
  · rw [hw 104 (by decide)]
    exact p.payload
  · exact p.header_le
  · rw [h.length]
    exact p.payload_le
  · rw [hs 112 20 (by decide)]
    exact p.mkDigest
  · rw [hs 132 32 (by decide)]
    exact p.mkSalt
  · rw [hw 164 (by decide)]
    exact p.mkIter
  · exact p.mkIter_ne
  · exact hcount
  · intro i t ht
    -- the slot that was written, or another one
    by_cases hi : i = 0
    · obtain rfl := hi
      obtain rfl := Option.some_inj.mp (hzero.symm.trans ht)
      exact ⟨h.state, h.iterations.symm, fun _ => hiter, h.salt.symm,
        by rw [h.offset]; exact ps.offset, by rw [h.stripes]; exact ps.stripes_eq, ps.stripes,
        ps.header_le, ps.kmEnd, ps.small, by rw [h.length]; exact ps.le_length, ps.le_payload⟩
    -- another slot has its own entry, untouched
    · have hi' : i < slotCount := hcount ▸ (List.getElem?_eq_some_iff.mp ht).1
      rw [hother i hi hi'] at ht
      exact (p.slots_parsed _ t ht).congr h.length (h.entry i hi hi')
  · -- the regions are those of the old slots, seen through the transposition
    have hregion : ∀ i t, (layout.keyed index iterations salt).slots[i]? = some t →
        ∃ s, layout.slots[Equiv.swap 0 index i]? = some s ∧ s.kmStart = t.kmStart ∧
          s.kmEnd = t.kmEnd := by
      intro i t ht
      by_cases hi : i = 0
      · obtain rfl := hi
        obtain rfl := Option.some_inj.mp (hzero.symm.trans ht)
        exact ⟨slot, by rw [Equiv.swap_apply_left, hslot], rfl, rfl⟩
      · have hi' : i < slotCount := hcount ▸ (List.getElem?_eq_some_iff.mp ht).1
        exact ⟨t, by rw [← hother i hi hi', ht], rfl, rfl⟩
    -- two regions that overlap now overlapped before
    rw [List.pairwise_iff_getElem]
    intro i j hi hj hij ho
    obtain ⟨s, hs, hs₁, hs₂⟩ := hregion i _ (List.getElem?_eq_getElem hi)
    obtain ⟨t, ht, ht₁, ht₂⟩ := hregion j _ (List.getElem?_eq_getElem hj)
    have hne : Equiv.swap 0 index i ≠ Equiv.swap 0 index j :=
      fun h => hij.ne ((Equiv.swap 0 index).injective h)
    refine p.not_overlap hne hs ht ?_
    rw [Keyslot.Overlap, hs₁, hs₂, ht₁, ht₂]
    exact ho

/-- The material of every other slot is untouched. -/
theorem Keyed.material_eq (h : Keyed image slot index material iterations salt r)
    (p : layout.Parsed image payloadStart) (hslot : layout.slots[index]? = some slot) {i : Nat}
    {s : Keyslot} (hi : i ≠ index) (hs : layout.slots[i]? = some s) :
    s.material r = s.material image := by
  have hno := p.not_overlap hi hs hslot
  have ps := p.slots_parsed i s hs
  have hhead := ps.header_le
  rw [Keyslot.Overlap] at hno
  rw [Keyslot.material, Keyslot.material]
  apply slice_congr
  intro k hk
  exact h.outside _ (by omega) (by omega)

/-! ## Adding a keyslot -/

theorem length_randomBytes (random : Nat → UInt8) (pos n : Nat) :
    (randomBytes random pos n).length = n := by
  rw [randomBytes, List.length_map, List.length_range]

/-- Decrypting what was encrypted under the same key gives the material back. -/
theorem xtsWith_xtsWith (hx : C.XtsInverts) (key : Bytes) (h : 512 ∣ material.length) :
    xtsWith C.decryptSector (xtsWith C.encryptSector material key) key = material := by
  rw [xtsWith, xtsWith]
  apply onSectors_onSectors _ _ 0 h
  · intro n b
    exact hx.length _ _ _ _
  · intro n b hb
    exact hx.inverse _ _ _ _ (by omega)

/-- What a slot is keyed with. -/
theorem writeSlot_eq_ok (hx : C.XtsInverts) {random : Nat → UInt8} {mk passphrase : Bytes}
    (p : layout.Parsed image payloadStart) (hslot : layout.slots[index]? = some slot)
    (hmk : mk.length = layout.keyBytes)
    (h : writeSlot C random image layout index mk passphrase iterations = .ok r) :
    ∃ slotKey material,
      pbkdf2Derive C layout.hashSpec passphrase (randomBytes random 0 32) iterations
        layout.keyBytes = some slotKey ∧
      afMerge C (xtsWith C.decryptSector material slotKey) layout.keyBytes slot.stripes
        layout.hashSpec = mk ∧
      Stored image slot index material iterations (randomBytes random 0 32) r := by
  have hindex : index < slotCount := p.slots_length ▸ (List.getElem?_eq_some_iff.mp hslot).1
  have ps := p.slots_parsed index slot hslot
  have hget : layout.slots.getD index Keyslot.unused = slot := by
    rw [List.getD, hslot, Option.getD_some]
  obtain ⟨material, hwrap, h⟩ := bind_eq_ok.mp h
  cases h
  rw [hget, wrapMasterKey] at hwrap
  -- the derivation may fail, and then nothing is written
  cases hkdf : pbkdf2Derive C layout.hashSpec passphrase (randomBytes random 0 32) iterations
      layout.keyBytes with
  | none =>
    rw [hkdf] at hwrap
    cases hwrap
  | some slotKey =>
    rw [hkdf] at hwrap
    dsimp only at hwrap
    have hkey : slotKey.length = layout.keyBytes := C.length_pbkdf2 _ _ _ _ _ _ hkdf
    have hfill := length_randomBytes random 32 (mk.length * (slot.stripes - 1))
    have hstripes : slot.stripes = 4000 := ps.stripes
    have hlen := length_afSplit (C := C) (by omega) layout.hashSpec hfill
    have hmerge := afMerge_afSplit (C := C) layout.hashSpec hfill
    have hbytes := p.keyBytes_mem
    -- the split of the key is what goes into the slot
    generalize afSplit C mk slot.stripes layout.hashSpec
      (randomBytes random 32 (mk.length * (slot.stripes - 1))) = split at hwrap hlen hmerge
    rw [hmk, hstripes] at hlen
    rw [xtsMaterial_ok split slotKey true (by omega) (by omega)] at hwrap
    cases hwrap
    -- what is stored merges back to the key, once it is decrypted
    refine ⟨slotKey, xtsWith C.encryptSector split slotKey, rfl, ?_, ?_⟩
    · rw [xtsWith_xtsWith hx slotKey (by omega), ← hmk]
      exact hmerge
    · have hsame : (xtsWith C.encryptSector split slotKey).length = split.length :=
        length_onSectors (fun _ _ => hx.length _ _ _ _) 0 split
      rw [hget]
      exact stored_storeSlot ps hindex (by rw [hsame, hlen]; rfl) (length_randomBytes random 0 32)
        iterations

/-- A slot whose material is untouched opens as before: the new layout has the old key fields. -/
theorem opens_keyed {s : Keyslot} (hm : s.material r = s.material image) (passphrase : Bytes) :
    opens C (layout.keyed index iterations salt) r passphrase s =
      opens C layout image passphrase s := by
  have hrec : ∀ key, recover C (layout.keyed index iterations salt) r s key =
      recover C layout image s key := by
    intro key
    rw [recover, hm, recover]
    rfl
  simp only [opens, hrec]
  rfl

/-- The new slot opens with its passphrase. -/
theorem Keyed.opens_front {passphrase mk slotKey : Bytes}
    (h : Keyed image slot index material iterations salt r)
    (hkdf : pbkdf2Derive C layout.hashSpec passphrase salt iterations layout.keyBytes =
      some slotKey)
    (hmerge : afMerge C (xtsWith C.decryptSector material slotKey) layout.keyBytes slot.stripes
      layout.hashSpec = mk)
    (hmk : layout.Accepts C mk) :
    opens C (layout.keyed index iterations salt) r passphrase
      { slot with active := true, iterations, salt } = some mk := by
  refine opens_eq_some.mpr ⟨slotKey, hkdf, ?_, hmk⟩
  rw [recover, ← hmerge, ← h.material]
  rfl

/-- An active slot is found again behind the transposition, with its entry and its material. -/
theorem Keyed.active_slot (h : Keyed image slot index material iterations salt r)
    (p : layout.Parsed image payloadStart) (hslot : layout.slots[index]? = some slot)
    (hfree : slot.active = false) {i : Nat} {s : Keyslot} (hs : layout.slots[i]? = some s)
    (hactive : s.active = true) :
    (layout.keyed index iterations salt).slots[Equiv.swap 0 index i]? = some s ∧
      slice r (entryAt (Equiv.swap 0 index i)) slotEntryBytes =
        slice image (entryAt i) slotEntryBytes ∧
      s.material r = s.material image := by
  have hindex : index < slotCount := p.slots_length ▸ (List.getElem?_eq_some_iff.mp hslot).1
  have hi : i < slotCount := p.slots_length ▸ (List.getElem?_eq_some_iff.mp hs).1
  have hne : i ≠ index := by
    rintro rfl
    obtain rfl := Option.some_inj.mp (hs.symm.trans hslot)
    rw [hfree] at hactive
    cases hactive
  have hback : Equiv.swap 0 index (Equiv.swap 0 index i) = i := Equiv.swap_apply_self _ _ _
  have hzero : Equiv.swap 0 index i ≠ 0 := by
    intro h0
    rw [h0, Equiv.swap_apply_left] at hback
    exact hne hback.symm
  refine ⟨?_, ?_, h.material_eq p hslot hne hs⟩
  · rw [getElem?_keyed p.slots_length hindex iterations salt hzero (swap_lt hindex hi), hback, hs]
  · rw [h.entry _ hzero (swap_lt hindex hi), hback]

/-- A passphrase that opened the image opens it again. -/
theorem Keyed.unlock_again {passphrase mk : Bytes}
    (h : Keyed image slot index material iterations salt r) (p : layout.Parsed image payloadStart)
    (p' : (layout.keyed index iterations salt).Parsed r payloadStart)
    (hslot : layout.slots[index]? = some slot) (hfree : slot.active = false)
    (hunlock : unlock C layout image passphrase = .ok mk) :
    ∃ mk', unlock C (layout.keyed index iterations salt) r passphrase = .ok mk' := by
  obtain ⟨s, hs, hopen⟩ := List.exists_of_findSome?_eq_some ((unlock_eq_ok p).mp hunlock)
  obtain ⟨hmem, hactive⟩ := List.mem_filter.mp hs
  obtain ⟨i, hi⟩ := List.mem_iff_getElem?.mp hmem
  obtain ⟨hat, -, hmat⟩ := h.active_slot p hslot hfree hi hactive
  have hsome : (((layout.keyed index iterations salt).slots.filter (·.active)).findSome?
      (opens C (layout.keyed index iterations salt) r passphrase)).isSome := by
    rw [List.findSome?_isSome_iff]
    refine ⟨s, List.mem_filter.mpr ⟨List.mem_of_getElem? hat, hactive⟩, ?_⟩
    rw [opens_keyed hmat, hopen]
    rfl
  obtain ⟨mk', hmk'⟩ := Option.isSome_iff_exists.mp hsome
  exact ⟨mk', (unlock_eq_ok p').mpr hmk'⟩

end

/-- A slot is added to every image that opens, has a slot left and whose new key can be derived. -/
theorem addKeyslotWith_succeeds (random : Nat → UInt8) (unitPassphrase : Bytes)
    (iterations : UInt32) {layout : Luks1Layout} {image vendorPassphrase mk slotKey : Bytes}
    {index : Nat} (hparse : Luks1Layout.parse image = .ok layout)
    (hunlock : unlock C layout image vendorPassphrase = .ok mk)
    (hfind : layout.slots.findIdx? (!·.active) = some index)
    (hkdf : pbkdf2Derive C layout.hashSpec unitPassphrase (randomBytes random 0 32) iterations
      layout.keyBytes = some slotKey) :
    ∃ r, addKeyslotWith C random image vendorPassphrase unitPassphrase iterations = .ok (0, r) := by
  obtain ⟨payloadStart, p⟩ := Luks1Layout.parse_eq_ok.mp hparse
  obtain ⟨s, -, hopen⟩ := List.exists_of_findSome?_eq_some ((unlock_eq_ok p).mp hunlock)
  obtain ⟨hindex, -⟩ := List.findIdx?_eq_some_iff_getElem.mp hfind
  have hslot := List.getElem?_eq_getElem hindex
  have hstripes : layout.slots[index].stripes = 4000 := (p.slots_parsed index _ hslot).stripes
  have hmk := length_of_opens hopen
  have hkey : slotKey.length = layout.keyBytes := C.length_pbkdf2 _ _ _ _ _ _ hkdf
  have hbytes := p.keyBytes_mem
  have hsplit := length_afSplit (C := C) (show 1 ≤ layout.slots[index].stripes by omega)
    layout.hashSpec (length_randomBytes random 32 (mk.length * (layout.slots[index].stripes - 1)))
  rw [hstripes, hmk] at hsplit
  have hwrap : ∃ material, wrapMasterKey C random layout (layout.slots.getD index Keyslot.unused) mk
      unitPassphrase iterations = .ok material := by
    rw [wrapMasterKey, List.getD, hslot, Option.getD_some, hkdf, hstripes, hmk]
    exact ⟨_, xtsMaterial_ok _ slotKey true (by omega) (by omega)⟩
  obtain ⟨material, hwrap⟩ := hwrap
  refine ⟨swapSlotEntries (storeSlot image (layout.slots.getD index Keyslot.unused) index material
    iterations (randomBytes random 0 32)) 0 index, ?_⟩
  refine bind_eq_ok.mpr ⟨layout, hparse, bind_eq_ok.mpr ⟨mk, hunlock, ?_⟩⟩
  rw [hfind]
  exact bind_eq_ok.mpr ⟨_, bind_eq_ok.mpr ⟨_, hwrap, rfl⟩, rfl⟩

/-- Adding a keyslot is complete and leaves everything else alone.  `mk` is the master key the
    factory passphrase gave before, `front` the new slot. -/
theorem addKeyslotWith_complete (hx : C.XtsInverts) (random : Nat → UInt8)
    (image vendorPassphrase unitPassphrase : Bytes) (iterations : UInt32) (hiter : 1 ≤ iterations)
    (n : Nat) (r : Bytes)
    (h : addKeyslotWith C random image vendorPassphrase unitPassphrase iterations = .ok (n, r)) :
    ∃ layout layout' mk front,
      Luks1Layout.parse image = .ok layout ∧ unlock C layout image vendorPassphrase = .ok mk ∧
      n = 0 ∧ r.length = image.length ∧
      -- the header is read as before
      (Luks1Layout.parse r = .ok layout' ∧ layout'.keyBytes = layout.keyBytes ∧
        layout'.mkDigest = layout.mkDigest ∧ layout'.mkSalt = layout.mkSalt ∧
        layout'.mkIter = layout.mkIter) ∧
      -- the unit passphrase opens slot 0 and with it the image
      (layout'.slots[0]? = some front ∧ front.active = true ∧
        openKeyslot C layout' r unitPassphrase front = .ok (some mk) ∧
        unlock C layout' r unitPassphrase = .ok mk) ∧
      -- the factory passphrase still opens the image
      (∃ mk', unlock C layout' r vendorPassphrase = .ok mk') ∧
      -- the active slots are there, with their entries and their material
      (∀ i s, layout.slots[i]? = some s → s.active = true →
        ∃ j, layout'.slots[j]? = some s ∧
          slice r (entryAt j) slotEntryBytes = slice image (entryAt i) slotEntryBytes ∧
          s.material r = s.material image) ∧
      -- nothing but the slot table and the material region of an unused slot has changed
      (∃ s ∈ layout.slots, s.active = false ∧ s.kmStart = front.kmStart ∧ s.kmEnd = front.kmEnd) ∧
      ∀ k, k < slotTableOffset ∨ headerBytes ≤ k → k < front.kmStart ∨ front.kmEnd ≤ k →
        r[k]? = (image : List UInt8)[k]? := by
  rw [addKeyslotWith] at h
  obtain ⟨layout, hparse, h⟩ := bind_eq_ok.mp h
  obtain ⟨mk, hunlock, h⟩ := bind_eq_ok.mp h
  obtain ⟨payloadStart, p⟩ := Luks1Layout.parse_eq_ok.mp hparse
  cases hfind : layout.slots.findIdx? (!·.active) with
  | none =>
    rw [hfind] at h
    cases h
  | some index =>
    rw [hfind] at h
    obtain ⟨r₀, hwrite, h⟩ := bind_eq_ok.mp h
    cases h
    obtain ⟨hindex, hfree, -⟩ := List.findIdx?_eq_some_iff_getElem.mp hfind
    rw [Bool.not_eq_true'] at hfree
    have hslot := List.getElem?_eq_getElem hindex
    rw [p.slots_length] at hindex
    generalize layout.slots[index] = slot at hfree hslot
    obtain ⟨s₀, hs₀, hopen₀⟩ := List.exists_of_findSome?_eq_some ((unlock_eq_ok p).mp hunlock)
    obtain ⟨slotKey, material, hkdf, hmerge, hstored⟩ :=
      writeSlot_eq_ok hx p hslot (length_of_opens hopen₀) hwrite
    have ps := p.slots_parsed index slot hslot
    have hkeyed := hstored.keyed hindex ps.header_le (p.header_le.trans p.payload_le)
    have hparsed := hkeyed.parsed p hslot (by rintro rfl; exact absurd hiter (by decide))
    have hfront := getElem?_keyed_zero hslot iterations (randomBytes random 0 32)
    have hopen := hkeyed.opens_front hkdf hmerge (accepts_of_opens hopen₀)
    refine ⟨layout, layout.keyed index iterations (randomBytes random 0 32), mk, _, hparse, hunlock,
      rfl, hkeyed.length, ⟨Luks1Layout.parse_eq_ok.mpr ⟨_, hparsed⟩, rfl, rfl, rfl, rfl⟩,
      ⟨hfront, rfl, ?_, ?_⟩, ?_, ?_, ⟨slot, List.mem_of_getElem? hslot, hfree, rfl, rfl⟩,
      hkeyed.outside⟩
    · rw [openKeyslot_eq hparsed _ (List.mem_of_getElem? hfront), hopen]
    · -- slot 0 is the first active slot
      rw [unlock_eq_ok hparsed]
      obtain ⟨rest, hrest⟩ := List.head?_eq_some_iff.mp (List.head?_eq_getElem?.trans hfront)
      rw [hrest, List.filter_cons_of_pos rfl, List.findSome?_cons, hopen]
    · exact hkeyed.unlock_again p hparsed hslot hfree hunlock
    · intro i s hs hact
      exact ⟨_, hkeyed.active_slot p hslot hfree hs hact⟩

/-! ### A cabinet that can be rekeyed -/

theorem xtsInverts_zeroCrypto : zeroCrypto.XtsInverts := ⟨fun _ _ _ _ => rfl, fun _ _ _ _ _ => rfl⟩

/-- A text field of 32 octets. -/
def textField (s : String) : Bytes := bytes s ++ List.replicate (32 - (bytes s).length) 0

/-- Slot `0` is active and the material of slot `i` takes 500 sectors. -/
def cabinetEntry (i : Nat) : Bytes :=
  toBe32 (if i = 0 then slotActive else slotInactive) ++ toBe32 1000 ++ List.replicate 32 0 ++
    toBe32 (UInt32.ofNat (2 + 500 * i)) ++ toBe32 luks1Stripes

/-- The header of an image as a cabinet has it: AES in XTS mode, eight slots, the first in use. -/
def cabinetHeader : Bytes :=
  luksMagic ++ [0, 1] ++ textField "aes" ++ textField "XTS-plain64" ++ textField "SHA256" ++
    toBe32 4002 ++ toBe32 64 ++ List.replicate 52 0 ++ toBe32 1000 ++ List.replicate 40 0 ++
    (List.range 8).flatMap cabinetEntry

/-- The header, eight material regions and eight sectors of payload. -/
def cabinet : Bytes := cabinetHeader ++ List.replicate (4010 * 512 - 592) 0

/-- Its slots, each with room for 4000 stripes. -/
def cabinetSlot (i : Nat) : Keyslot where
  active := i = 0
  iterations := 1000
  salt := List.replicate 32 0
  kmStart := (2 + 500 * i) * 512
  kmEnd := (502 + 500 * i) * 512
  stripes := 4000

/-- What is read from it. -/
def cabinetLayout : Luks1Layout where
  hashSpec := bytes "sha256"
  keyBytes := 64
  mkDigest := List.replicate 20 0
  mkSalt := List.replicate 32 0
  mkIter := 1000
  slots := (List.range 8).map cabinetSlot

theorem length_cabinetHeader : cabinetHeader.length = 592 := by decide +kernel

theorem length_cabinet : cabinet.length = 4010 * 512 := by
  rw [cabinet, List.length_append, length_cabinetHeader, List.length_replicate]

/-- Behind the header nothing of the image is looked at. -/
theorem slice_cabinet {i n : Nat} (h : i + n ≤ 592) : slice cabinet i n = slice cabinetHeader i n :=
  slice_append_left _ (length_cabinetHeader ▸ h)

theorem be32_cabinet {i : Nat} (h : i + 4 ≤ 592) : be32 cabinet i = be32 cabinetHeader i := by
  rw [be32, slice_cabinet h, be32]

theorem parseIdentity_cabinet : parseIdentity cabinet = .ok (bytes "sha256") := by
  rw [parseIdentity, be16, slice_cabinet (by decide), slice_cabinet (by decide),
    slice_cabinet (by decide), slice_cabinet (by decide), slice_cabinet (by decide), length_cabinet]
  decide

theorem parsed_cabinetSlot {i : Nat} (h : i < 8) :
    Keyslot.Parsed cabinet i 64 (4002 * 512) (cabinetSlot i) := by
  have hentry := entryAt_lt_header h
  rw [slotEntryBytes, headerBytes] at hentry
  have hstart : (cabinetSlot i).kmStart = (2 + 500 * i) * 512 := rfl
  have hend : (cabinetSlot i).kmEnd = (502 + 500 * i) * 512 := rfl
  -- the header's fields, one table for all eight slots
  have hstate : ∀ i < 8, be32 cabinetHeader (entryAt i) =
      if (cabinetSlot i).active then slotActive else slotInactive := by decide +kernel
  have hiter : ∀ i < 8, be32 cabinetHeader (entryAt i + 4) = 1000 := by decide +kernel
  have hsalt : ∀ i < 8, slice cabinetHeader (entryAt i + 8) 32 = List.replicate 32 0 := by
    decide +kernel
  have hoff : ∀ i < 8, (be32 cabinetHeader (entryAt i + 40)).toNat = 2 + 500 * i := by
    decide +kernel
  have hstripes : ∀ i < 8, be32 cabinetHeader (entryAt i + 44) = luks1Stripes := by decide +kernel
  constructor
  · rw [be32_cabinet (by omega)]
    exact hstate i h
  · rw [be32_cabinet (by omega)]
    exact (hiter i h).symm
  · intro _
    exact (by decide : (1000 : UInt32) ≠ 0)
  · rw [slice_cabinet (by omega)]
    exact (hsalt i h).symm
  · rw [be32_cabinet (by omega), hoff i h]
    rfl
  · rw [be32_cabinet (by omega)]
    exact hstripes i h
  · rfl
  · rw [headerBytes]
    omega
  · rw [show luks1Stripes.toNat = 4000 from rfl]
    omega
  · omega
  · rw [length_cabinet]
    omega
  · omega

/-- The header is read as the layout above. -/
theorem parsed_cabinet : cabinetLayout.Parsed cabinet (4002 * 512) := by
  constructor
  · exact parseIdentity_cabinet
  · rw [be32_cabinet (by decide)]
    decide
  · exact .inr rfl
  · rw [be32_cabinet (by decide)]
    decide
  · decide
  · rw [length_cabinet]
    decide
  · rw [slice_cabinet (by decide)]
    decide
  · rw [slice_cabinet (by decide)]
    decide
  · rw [be32_cabinet (by decide)]
    decide
  · decide
  · rfl
  · intro i s hs
    rw [cabinetLayout, List.getElem?_map, Option.map_eq_some_iff] at hs
    obtain ⟨j, hj, rfl⟩ := hs
    obtain ⟨hi, rfl⟩ := List.getElem?_eq_some_iff.mp hj
    rw [List.length_range] at hi
    rw [List.getElem_range]
    exact parsed_cabinetSlot hi
  · decide

/-- A cipher that changes nothing opens it with every passphrase. -/
theorem unlock_cabinet (passphrase : Bytes) :
    ∃ mk, unlock zeroCrypto cabinetLayout cabinet passphrase = .ok mk := by
  have hactive : cabinetLayout.slots.filter (·.active) = [cabinetSlot 0] := by decide
  refine ⟨recover zeroCrypto cabinetLayout cabinet (cabinetSlot 0) (List.replicate 64 0),
    (unlock_eq_ok parsed_cabinet).mpr ?_⟩
  rw [hactive, List.findSome?_singleton]
  exact opens_eq_some.mpr ⟨_, rfl, rfl, rfl⟩

/-- A slot for the unit is added to the cabinet. -/
theorem addKeyslotWith_complete_cabinet :
    ∃ r mk layout', addKeyslotWith zeroCrypto (fun _ => 7) cabinet (bytes "vendor") (bytes "unit")
        200000 = .ok (0, r) ∧
      r.length = cabinet.length ∧ Luks1Layout.parse r = .ok layout' ∧
      unlock zeroCrypto cabinetLayout cabinet (bytes "vendor") = .ok mk ∧
      unlock zeroCrypto layout' r (bytes "unit") = .ok mk := by
  obtain ⟨mk, hunlock⟩ := unlock_cabinet (bytes "vendor")
  have hparse := Luks1Layout.parse_eq_ok.mpr ⟨_, parsed_cabinet⟩
  have hfind : cabinetLayout.slots.findIdx? (!·.active) = some 1 := by decide
  obtain ⟨r, hr⟩ :=
    addKeyslotWith_succeeds (fun _ => 7) (bytes "unit") 200000 hparse hunlock hfind rfl
  obtain ⟨layout, layout', mk', front, hl, hv, -, hlen, ⟨hp', -⟩, ⟨-, -, -, hu⟩, -⟩ :=
    addKeyslotWith_complete xtsInverts_zeroCrypto (fun _ => 7) cabinet (bytes "vendor")
      (bytes "unit") 200000 (by decide) 0 r hr
  obtain rfl := Except.ok.inj (hparse.symm.trans hl)
  exact ⟨r, mk', layout', hr, hlen, hp', hv, hu⟩

end

end CdjEmu.Luks
