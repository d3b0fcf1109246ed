/-
  OPENING A CONTAINER — the firmware's own LUKS1 opener, and that it agrees with the rekeyer.

  `readLuks1Header` reads a header without judging it; `tryKeySlots` walks the active slots and
  tries, for each, the keyfile and its base64 reading, and for each of these four ways to number the
  sectors and to order the key halves.  The search is wider than `unlock`'s and comes in another
  order.

  The agreement rests on three observations: on an accepted image the two headers say the same
  (`Agrees`), the hash name matters only in lowercase (`afMerge_lowercase`), and the FIRST variant
  of the first candidate is the computation of `unlock` (`tryKeyfile_of_opens`).  Whatever the
  search finds first passes the digest (`of_tryKeySlots_eq_ok`).

  Reading is from a byte string; seeking in it does not fail.  The base64 decoders are parameters,
  and the diagnostic is text.

  1. **Program** — the functions of `luks.rs` under their names: the header, the four variants of a
     slot, the two readings of the keyfile, and the diagnostic, which is carried along as text.

  2. **Specification** — on every image that the rekeyer accepts with a key of 64 octets and opens
     with a passphrase, this opener finds a key that the header's digest accepts; if only one key of
     that length is accepted it is the rekeyer's.

  3. **The crux (`openSlot_of_opens`)** — the slot that opens for the rekeyer opens here no later
     than at its first variant.  An earlier slot or an earlier variant may open as well, and then
     with a key that has passed the digest.
-/
import CdjEmu.Firmware.LuksRekey

namespace CdjEmu.Luks

open Text

/-- A key slot as the opener reads it. -/
structure KeySlot where
  active : Bool
  iterations : UInt32
  salt : Bytes
  keyMaterialOffset : UInt32
  stripes : UInt32

/-- The header as the opener reads it. -/
structure Luks1Header where
  cipherName : Bytes
  cipherMode : Bytes
  hashSpec : Bytes
  payloadOffset : UInt32
  keyBytes : UInt32
  mkDigest : Bytes
  mkDigestSalt : Bytes
  mkDigestIter : UInt32
  uuid : Bytes
  keySlots : List KeySlot

inductive LuksError where
  | io (what : Bytes)
  | badMagic
  | unsupportedVersion (version : Nat)
  | noValidKeySlot (diag : Bytes)

/-! ## Reading -/

/-- `n` octets of `image` from `pos` on, or what the reader says when they are not there. -/
def readExact (image : Bytes) (pos n : Nat) : Except Bytes Bytes :=
  if (slice image pos n).length = n then .ok (slice image pos n)
  else .error (bytes "failed to fill whole buffer")

/-- A text up to its NUL. -/
def cstring (b : Bytes) : Bytes := cstr b

/-- `read_key_slot`. -/
def readKeySlot (buf : Bytes) (i : Nat) : KeySlot where
  active := be32 buf (208 + i * 48) = 0x00AC71F3
  iterations := be32 buf (208 + i * 48 + 4)
  salt := slice buf (208 + i * 48 + 8) 32
  keyMaterialOffset := be32 buf (208 + i * 48 + 40)
  stripes := be32 buf (208 + i * 48 + 44)

/-- The fields of a header with the right magic and version. -/
def readFields (buf : Bytes) : Luks1Header where
  cipherName := cstring (slice buf 8 32)
  cipherMode := cstring (slice buf 40 32)
  hashSpec := cstring (slice buf 72 32)
  payloadOffset := be32 buf 104
  keyBytes := be32 buf 108
  mkDigest := slice buf 112 20
  mkDigestSalt := slice buf 132 32
  mkDigestIter := be32 buf 164
  uuid := cstring (slice buf 168 40)
  keySlots := (List.range 8).map (readKeySlot buf)

/-- `read_luks1_header`. -/
def readLuks1Header (image : Bytes) : Except LuksError Luks1Header :=
  match readExact image 0 592 with
  | .error e => .error (.io e)
  | .ok buf =>
    if slice buf 0 6 ≠ luksMagic then .error .badMagic
    else if be16 buf 6 ≠ 1 then .error (.unsupportedVersion (be16 buf 6))
    else .ok (readFields buf)

/-! ## The base64 reading of a keyfile -/

/-- The decoders of the base64 crate. -/
structure Base64 where
  standard : Bytes → Option Bytes
  urlSafe : Bytes → Option Bytes
  urlSafeNoPad : Bytes → Option Bytes

/-- The blanks that base64 may have. -/
def isAsciiWhitespace (c : UInt8) : Bool := c = 32 ∨ c = 9 ∨ c = 10 ∨ c = 12 ∨ c = 13

section

variable (B : Base64)

/-- `try_base64`: with as much padding as it takes. -/
def tryBase64 (s : Bytes) : Option Bytes :=
  let stripped := (s.reverse.dropWhile (· = 61)).reverse
  [0, 1, 2].findSome? fun pad =>
    let p := stripped ++ List.replicate pad 61
    B.standard p <|> B.urlSafe p <|> B.urlSafeNoPad p

/-- `diag` with one more line. -/
def writeln (diag line : Bytes) : Bytes := diag ++ line ++ [10]

/-- The start of a line on a slot. -/
def slotLabel (i : Nat) : Bytes := bytes "slot " ++ decimal i ++ bytes ": "

/-- The keyfile as given and, when it is base64 text, what it decodes to. -/
def keyfileCandidates (keyfile : Bytes) (i : Nat) (diag : Bytes) : List Bytes × Bytes :=
  if Valid keyfile then
    match tryBase64 B (keyfile.filter fun c => !isAsciiWhitespace c) with
    | some decoded =>
      ([keyfile, decoded],
        writeln diag (slotLabel i ++ bytes "also trying base64-decoded keyfile (" ++
          decimal decoded.length ++ bytes " bytes)"))
    | none => ([keyfile], diag)
  else ([keyfile], diag)

/-! ## Trying the slots -/

variable (C : Crypto)

/-- The number of a sector, as its mode wants it. -/
def xtsTweak (sector : Nat) (mode : Bytes) : Bytes :=
  if bytes "plain64" <:+: mode then toLe64 sector ++ List.replicate 8 0
  else toLe32 sector ++ List.replicate 12 0

/-- AES-256 XTS over `km`, its sectors numbered from `firstSector` on. -/
def xtsDecrypt (km dataKey tweakKey : Bytes) (firstSector : Nat) (modeLc : Bytes) : Option Bytes :=
  if dataKey.length = 32 ∧ tweakKey.length = 32 then
    some (onSectors (fun sector => C.decryptSector dataKey tweakKey (xtsTweak sector modeLc))
      firstSector km)
  else none

/-- The header's digest is that of the key. -/
def digestMatches (h : Luks1Header) (mk : Bytes) : Prop :=
  pbkdf2Derive C h.hashSpec mk h.mkDigestSalt h.mkDigestIter 20 = some h.mkDigest

instance (h : Luks1Header) (mk : Bytes) : Decidable (digestMatches C h mk) :=
  inferInstanceAs (Decidable (_ = _))

/-- One numbering of the sectors and one order of the key halves. -/
def tryVariant (h : Luks1Header) (slot : KeySlot) (km sk : Bytes) (variant : Nat × Bool) :
    Option Bytes :=
  let dataKey := if variant.2 then sk.drop 32 else sk.take 32
  let tweakKey := if variant.2 then sk.take 32 else sk.drop 32
  (xtsDecrypt C km dataKey tweakKey variant.1 (lowercase h.cipherMode)).bind fun material =>
    let mk := afMerge C material h.keyBytes.toNat slot.stripes.toNat h.hashSpec
    if digestMatches C h mk then some mk else none

/-- The ways in which material may have been encrypted. -/
def variants (slot : KeySlot) : List (Nat × Bool) :=
  [0, slot.keyMaterialOffset.toNat].flatMap fun firstSector =>
    [(firstSector, false), (firstSector, true)]

/-- A slot with one spelling of the key file. -/
def tryKeyfile (h : Luks1Header) (slot : KeySlot) (km kf : Bytes) : Option Bytes :=
  (pbkdf2Derive C h.hashSpec kf slot.salt slot.iterations h.keyBytes.toNat).bind fun sk =>
    (variants slot).findSome? (tryVariant C h slot km sk)

/-- A byte string as `{:02x?}` prints it. -/
def hexDebug (b : Bytes) : Bytes :=
  bytes "[" ++ (bytes ", ").intercalate (b.map hexByte) ++ bytes "]"

/-- What `open_slot` does with the material it has read. -/
def openMaterial (h : Luks1Header) (i : Nat) (slot : KeySlot) (km keyfile diag : Bytes) :
    Option Bytes × Bytes :=
  let (candidates, diag) := keyfileCandidates B keyfile i diag
  match candidates.findSome? (tryKeyfile C h slot km) with
  | some mk => (some mk, writeln diag (slotLabel i ++ bytes "digest OK"))
  | none =>
    let diag := writeln diag (slotLabel i ++ bytes "the digest does not match")
    let diag := writeln diag (bytes "  expected: " ++ hexDebug h.mkDigest)
    (none, writeln diag (bytes "  computed: (no candidate matched)"))

/-- A slot with each spelling. -/
def openSlot (image : Bytes) (h : Luks1Header) (i : Nat) (slot : KeySlot) (keyfile diag : Bytes) :
    Option Bytes × Bytes :=
  let kmSize := h.keyBytes.toNat * slot.stripes.toNat
  let diag := writeln diag (slotLabel i ++ bytes "iters=" ++ decimal slot.iterations.toNat ++
    bytes "  km_sector=" ++ decimal slot.keyMaterialOffset.toNat ++ bytes "  stripes=" ++
    decimal slot.stripes.toNat ++ bytes "  km_bytes=" ++ decimal kmSize)
  if slot.stripes ≠ luks1Stripes then
    (none, writeln diag (slotLabel i ++ bytes "the stripe count is not 4000"))
  else
    let diag := writeln diag (slotLabel i ++ bytes "keyfile_len=" ++ decimal keyfile.length)
    match readExact image (slot.keyMaterialOffset.toNat * luksSector) kmSize with
    | .error e =>
      (none, writeln diag
        (slotLabel i ++ bytes "read " ++ decimal kmSize ++ bytes " bytes failed: " ++ e))
    | .ok km => openMaterial B C h i slot km keyfile diag

/-- The loop over the active slots. -/
def tryKeySlotsFrom (image : Bytes) (h : Luks1Header) (keyfile : Bytes) :
    List (KeySlot × Nat) → Bytes → Except LuksError Bytes
  | [], diag => .error (.noValidKeySlot diag)
  | (slot, i) :: rest, diag =>
    match openSlot B C image h i slot keyfile diag with
    | (some mk, _) => .ok mk
    | (none, diag) => tryKeySlotsFrom image h keyfile rest diag

/-- `try_key_slots`: every active slot. -/
def tryKeySlots (image : Bytes) (h : Luks1Header) (keyfile : Bytes) : Except LuksError Bytes :=
  let diag := writeln [] (bytes "cipher=" ++ h.cipherName ++ bytes "-" ++ h.cipherMode ++
    bytes "  hash=" ++ h.hashSpec ++ bytes "  key_bytes=" ++ decimal h.keyBytes.toNat ++
    bytes "  payload_sector=" ++ decimal h.payloadOffset.toNat ++ bytes "  active_slots=" ++
    decimal (h.keySlots.countP (·.active)) ++ bytes "  key_input_bytes=" ++ decimal keyfile.length)
  if h.keyBytes ≠ 32 ∧ h.keyBytes ≠ 64 then
    .error (.noValidKeySlot (writeln diag (bytes "the master key size is not 32 or 64 bytes")))
  else tryKeySlotsFrom B C image h keyfile (h.keySlots.zipIdx.filter fun p => p.1.active) diag

/-! ## What is found passes the digest -/

variable {B C} {image keyfile : Bytes} {h : Luks1Header}

/-- A key that is found has the header's digest and length, whichever part has found it. -/
theorem of_tryVariant_eq_some {slot : KeySlot} {km sk mk : Bytes} {variant : Nat × Bool}
    (hv : tryVariant C h slot km sk variant = some mk) :
    digestMatches C h mk ∧ mk.length = h.keyBytes.toNat := by
  obtain ⟨material, -, hv⟩ := Option.bind_eq_some_iff.mp hv
  rw [Option.ite_none_right_eq_some] at hv
  obtain ⟨hdigest, hmk⟩ := hv
  rw [← Option.some_inj.mp hmk]
  exact ⟨hdigest, length_afMerge _ _ _ _⟩

theorem of_tryKeyfile_eq_some {slot : KeySlot} {km kf mk : Bytes}
    (hk : tryKeyfile C h slot km kf = some mk) :
    digestMatches C h mk ∧ mk.length = h.keyBytes.toNat := by
  obtain ⟨sk, -, hk⟩ := Option.bind_eq_some_iff.mp hk
  obtain ⟨variant, -, hv⟩ := List.exists_of_findSome?_eq_some hk
  exact of_tryVariant_eq_some hv

/-- What `open_slot` returns does not depend on the diagnostic. -/
theorem openSlot_fst (i : Nat) (slot : KeySlot) (diag : Bytes) :
    (openSlot B C image h i slot keyfile diag).1 =
      if slot.stripes ≠ luks1Stripes then none
      else match readExact image (slot.keyMaterialOffset.toNat * luksSector)
          (h.keyBytes.toNat * slot.stripes.toNat) with
        | .error _ => none
        | .ok km => (keyfileCandidates B keyfile i []).1.findSome? (tryKeyfile C h slot km) := by
  have hcand : ∀ diag, (keyfileCandidates B keyfile i diag).1 =
      (keyfileCandidates B keyfile i []).1 := by
    intro diag
    rw [keyfileCandidates, keyfileCandidates]
    split
    · cases tryBase64 B (keyfile.filter fun c => !isAsciiWhitespace c) <;> rfl
    · rfl
  rw [openSlot]
  split_ifs with hstripes
  · rfl
  · cases readExact image (slot.keyMaterialOffset.toNat * luksSector)
      (h.keyBytes.toNat * slot.stripes.toNat) with
    | error e => rfl
    | ok km =>
      dsimp only
      rw [openMaterial, ← hcand]
      dsimp only
      split
      · rename_i mk hmk
        rw [hmk]
      · rename_i hmk
        rw [hmk]

theorem of_openSlot_eq_some {i : Nat} {slot : KeySlot} {diag mk : Bytes}
    (ho : (openSlot B C image h i slot keyfile diag).1 = some mk) :
    digestMatches C h mk ∧ mk.length = h.keyBytes.toNat := by
  rw [openSlot_fst] at ho
  split_ifs at ho
  split at ho
  · cases ho
  · obtain ⟨kf, -, hk⟩ := List.exists_of_findSome?_eq_some ho
    exact of_tryKeyfile_eq_some hk

theorem of_tryKeySlotsFrom_eq_ok {slots : List (KeySlot × Nat)} {diag mk : Bytes}
    (ht : tryKeySlotsFrom B C image h keyfile slots diag = .ok mk) :
    digestMatches C h mk ∧ mk.length = h.keyBytes.toNat := by
  induction slots generalizing diag with
  | nil => cases ht
  | cons p rest ih =>
    rw [tryKeySlotsFrom] at ht
    split at ht
    · rename_i mk' diag' ho
      cases ht
      exact of_openSlot_eq_some (congrArg Prod.fst ho)
    · exact ih ht

theorem of_tryKeySlots_eq_ok {mk : Bytes} (ht : tryKeySlots B C image h keyfile = .ok mk) :
    digestMatches C h mk ∧ mk.length = h.keyBytes.toNat := by
  rw [tryKeySlots, check_eq_ok] at ht
  exact of_tryKeySlotsFrom_eq_ok ht.2

/-- The search ends with a key as soon as one of the slots has one. -/
theorem tryKeySlotsFrom_of_mem {slots : List (KeySlot × Nat)} {slot : KeySlot} {i : Nat}
    (hmem : (slot, i) ∈ slots)
    (hopen : ∀ diag, ((openSlot B C image h i slot keyfile diag).1).isSome) (diag : Bytes) :
    ∃ mk, tryKeySlotsFrom B C image h keyfile slots diag = .ok mk := by
  induction slots generalizing diag with
  | nil => cases hmem
  | cons p rest ih =>
    rw [tryKeySlotsFrom]
    split
    · rename_i mk diag' ho
      exact ⟨mk, rfl⟩
    · rename_i diag' ho
      rcases List.mem_cons.mp hmem with rfl | hmem
      · have := hopen diag
        rw [ho] at this
        cases this
      · exact ih hmem diag'

/-! ## The two headers agree -/

/-- Both readings of one slot entry. -/
structure SlotAgrees (s : Keyslot) (t : KeySlot) : Prop where
  active : t.active = s.active
  iterations : t.iterations = s.iterations
  salt : t.salt = s.salt
  offset : t.keyMaterialOffset.toNat * luksSector = s.kmStart
  stripes : t.stripes = luks1Stripes

/-- Both readings of one header. -/
structure Agrees (layout : Luks1Layout) (h : Luks1Header) : Prop where
  hash : layout.hashSpec = lowercase h.hashSpec
  mode : lowercase h.cipherMode = bytes "xts-plain64"
  keyBytes : h.keyBytes.toNat = layout.keyBytes
  mkDigest : h.mkDigest = layout.mkDigest
  mkSalt : h.mkDigestSalt = layout.mkSalt
  mkIter : h.mkDigestIter = layout.mkIter
  slots : ∀ (i : Nat) (s : Keyslot), layout.slots[i]? = some s →
    ∃ t, h.keySlots[i]? = some t ∧ SlotAgrees s t

variable {layout : Luks1Layout} {payloadStart : Nat}

/-- The two readers agree on a slot. -/
theorem slotAgrees_readKeySlot {i keyBytes : Nat} {s : Keyslot}
    (p : Keyslot.Parsed image i keyBytes payloadStart s) (hi : i < 8) :
    SlotAgrees s (readKeySlot (slice image 0 592) i) := by
  have hs : ∀ k n, k + n ≤ 48 →
      slice (slice image 0 592) (208 + i * 48 + k) n = slice image (entryAt i + k) n := by
    intro k n hk
    rw [slice_slice (by omega), Nat.zero_add]
    rfl
  have hw : ∀ k, k + 4 ≤ 48 →
      be32 (slice image 0 592) (208 + i * 48 + k) = be32 image (entryAt i + k) := by
    intro k hk
    rw [be32, hs k 4 hk, be32]
  constructor
  · have hstate : (readKeySlot (slice image 0 592) i).active =
        decide ((if s.active then slotActive else slotInactive) = 0x00AC71F3) := by
      rw [← p.state, readKeySlot]
      exact congrArg (fun w => decide (w = 0x00AC71F3)) (hw 0 (by decide))
    rw [hstate]
    cases s.active <;> decide
  · exact (hw 4 (by decide)).trans p.iterations.symm
  · exact (hs 8 32 (by decide)).trans p.salt.symm
  · rw [p.offset, ← hw 40 (by decide)]
    rfl
  · exact (hw 44 (by decide)).trans p.stripes_eq

/-- So they do on the header. -/
theorem exists_agrees (p : layout.Parsed image payloadStart) :
    ∃ h, readLuks1Header image = .ok h ∧ Agrees layout h := by
  obtain ⟨hlen, hmagic, hversion, hmode, hspec⟩ := of_parseIdentity_eq_ok p.identity
  -- The image holds the header whole, so the read does not fail.
  have hread : readExact image 0 592 = .ok (slice image 0 592) := by
    rw [readExact, if_pos (length_slice (by rw [Nat.zero_add]; exact hlen))]
  -- A field of the octets that were read is that field of the image.
  have hs : ∀ i n, i + n ≤ 592 → slice (slice image 0 592) i n = slice image i n := by
    intro i n hin
    rw [slice_slice hin, Nat.zero_add]
  have hw : ∀ i, i + 4 ≤ 592 → be32 (slice image 0 592) i = be32 image i := by
    intro i hi
    rw [be32, hs i 4 hi, be32]
  have hv : be16 (slice image 0 592) 6 = 1 := by
    rw [be16, hs 6 2 (by decide), ← be16, hversion]
  refine ⟨readFields (slice image 0 592), ?_, ?_⟩
  · rw [readLuks1Header, hread]
    dsimp only
    rw [if_neg (by rw [hs 0 6 (by decide), hmagic]; simp), if_neg (by rw [hv]; simp)]
  · constructor
    -- The fields of the header, each read at its own place, and then the eight slots.
    · rw [readFields, cstring, hs 72 32 (by decide)]
      exact hspec
    · rw [readFields, cstring, hs 40 32 (by decide)]
      exact hmode
    · rw [readFields, hw 108 (by decide)]
      exact p.keyBytes.symm
    · rw [readFields, hs 112 20 (by decide)]
      exact p.mkDigest.symm
    · rw [readFields, hs 132 32 (by decide)]
      exact p.mkSalt.symm
    · rw [readFields, hw 164 (by decide)]
      exact p.mkIter.symm
    · intro i s hs'
      have hi : i < 8 := lt_of_lt_of_eq (List.getElem?_eq_some_iff.mp hs').1 p.slots_length
      refine ⟨readKeySlot (slice image 0 592) i, ?_,
        slotAgrees_readKeySlot (p.slots_parsed i s hs') hi⟩
      rw [readFields, List.getElem?_map, List.getElem?_range hi, Option.map_some]

/-- So they accept the same keys. -/
theorem Agrees.digestMatches_iff (a : Agrees layout h) {mk : Bytes} :
    digestMatches C h mk ↔ layout.Accepts C mk := by
  rw [digestMatches, Luks1Layout.Accepts, a.hash, pbkdf2Derive_lowercase, a.mkSalt, a.mkIter,
    a.mkDigest]

/-- The first variant is the computation of `unlock`. -/
theorem tryVariant_of_opens (a : Agrees layout h)
    {s : Keyslot} {t : KeySlot} (hst : SlotAgrees s t) (hstripes : s.stripes = luks1Stripes.toNat)
    {sk : Bytes} (hsk : sk.length = 64)
    (hacc : layout.Accepts C (recover C layout image s sk)) :
    tryVariant C h t (s.material image) sk (0, false) = some (recover C layout image s sk) := by
  have hhalf : sk.length / 2 = 32 := by omega
  have htake : (sk.take 32).length = 32 := by
    rw [List.length_take]
    omega
  have hdrop : (sk.drop 32).length = 32 := by
    rw [List.length_drop]
    omega
  have htweak : ∀ sector, xtsTweak sector (lowercase h.cipherMode) = sectorTweak sector := by
    intro sector
    rw [xtsTweak, a.mode, if_pos (by decide)]
    rfl
  have hxts : xtsDecrypt C (s.material image) (sk.take 32) (sk.drop 32) 0 (lowercase h.cipherMode) =
      some (xtsWith C.decryptSector (s.material image) sk) := by
    rw [xtsDecrypt, if_pos ⟨htake, hdrop⟩, xtsWith, hhalf]
    simp only [htweak]
  have hrec : afMerge C (xtsWith C.decryptSector (s.material image) sk) h.keyBytes.toNat
      t.stripes.toNat h.hashSpec = recover C layout image s sk := by
    rw [recover, a.keyBytes, hst.stripes, hstripes, a.hash, afMerge_lowercase]
  rw [tryVariant]
  simp only [Bool.false_eq_true, if_false]
  rw [hxts, Option.bind_some, hrec, if_pos (a.digestMatches_iff.mpr hacc)]

/-- Where `unlock` finds a key, the keyfile itself gives one. -/
theorem tryKeyfile_of_opens (a : Agrees layout h) (hkey : layout.keyBytes = 64)
    {s : Keyslot} {t : KeySlot} (hst : SlotAgrees s t) (hstripes : s.stripes = luks1Stripes.toNat)
    {mk : Bytes} (ho : opens C layout image keyfile s = some mk) :
    tryKeyfile C h t (s.material image) keyfile = some mk := by
  obtain ⟨sk, hkdf, rfl, hacc⟩ := opens_eq_some.mp ho
  have hsk : sk.length = 64 := (C.length_pbkdf2 _ _ _ _ _ _ hkdf).trans hkey
  rw [a.hash, pbkdf2Derive_lowercase] at hkdf
  rw [tryKeyfile, hst.salt, hst.iterations, a.keyBytes, hkdf, Option.bind_some, variants,
    List.flatMap_cons, List.cons_append, List.findSome?_cons,
    tryVariant_of_opens a hst hstripes hsk hacc]

/-- A slot that opens for one opens for the other. -/
theorem openSlot_of_opens (p : layout.Parsed image payloadStart) (a : Agrees layout h)
    (hkey : layout.keyBytes = 64) {i : Nat} {s : Keyslot} {t : KeySlot}
    (hs : layout.slots[i]? = some s) (hst : SlotAgrees s t) {mk : Bytes}
    (ho : opens C layout image keyfile s = some mk) (diag : Bytes) :
    (openSlot B C image h i t keyfile diag).1 = some mk := by
  have ps := p.slots_parsed i s hs
  have hsize : s.kmEnd - s.kmStart = h.keyBytes.toNat * t.stripes.toNat := by
    have := ps.kmEnd
    rw [a.keyBytes, hst.stripes]
    omega
  have hread : readExact image (t.keyMaterialOffset.toNat * luksSector)
      (h.keyBytes.toNat * t.stripes.toNat) = .ok (s.material image) := by
    have hlen := ps.length_material
    rw [Keyslot.material, hsize] at hlen
    rw [readExact, hst.offset, Keyslot.material, hsize, if_pos]
    rw [hlen, a.keyBytes, hst.stripes]
  obtain ⟨more, hmore⟩ : ∃ more, (keyfileCandidates B keyfile i []).1 = keyfile :: more := by
    rw [keyfileCandidates]
    split
    · cases tryBase64 B (keyfile.filter fun c => !isAsciiWhitespace c) with
      | some decoded => exact ⟨[decoded], rfl⟩
      | none => exact ⟨[], rfl⟩
    · exact ⟨[], rfl⟩
  rw [openSlot_fst, if_neg (not_not.mpr hst.stripes), hread]
  dsimp only
  rw [hmore, List.findSome?_cons, tryKeyfile_of_opens a hkey hst ps.stripes ho]

/-- The two openers agree. -/
theorem tryKeySlots_of_unlock (B : Base64) (C : Crypto) (image passphrase mk : Bytes)
    (layout : Luks1Layout) (hparse : Luks1Layout.parse image = .ok layout)
    (hkey : layout.keyBytes = 64) (hunlock : unlock C layout image passphrase = .ok mk) :
    ∃ h mk', readLuks1Header image = .ok h ∧ tryKeySlots B C image h passphrase = .ok mk' ∧
      digestMatches C h mk' ∧
      ((∃! k : Bytes, k.length = 64 ∧ digestMatches C h k) → mk' = mk) := by
  obtain ⟨payloadStart, p⟩ := Luks1Layout.parse_eq_ok.mp hparse
  obtain ⟨h, hread, a⟩ := exists_agrees p
  obtain ⟨s, hs, ho⟩ := List.exists_of_findSome?_eq_some ((unlock_eq_ok p).mp hunlock)
  obtain ⟨hmem, hactive⟩ := List.mem_filter.mp hs
  obtain ⟨i, hi⟩ := List.mem_iff_getElem?.mp hmem
  obtain ⟨t, ht, hst⟩ := a.slots i s hi
  have hin : (t, i) ∈ h.keySlots.zipIdx.filter fun p => p.1.active := by
    refine List.mem_filter.mpr ⟨List.mk_mem_zipIdx_iff_getElem?.mpr ht, ?_⟩
    exact hst.active.trans hactive
  have hbytes : h.keyBytes = 64 := by
    apply UInt32.toNat_inj.mp
    rw [a.keyBytes, hkey]
    rfl
  obtain ⟨mk', hmk'⟩ : ∃ mk', tryKeySlots B C image h passphrase = .ok mk' := by
    rw [tryKeySlots, if_neg (by rw [hbytes]; simp)]
    apply tryKeySlotsFrom_of_mem hin
    intro diag
    rw [openSlot_of_opens p a hkey hi hst ho]
    rfl
  obtain ⟨hdigest, hlen⟩ := of_tryKeySlots_eq_ok hmk'
  refine ⟨h, mk', hread, hmk', hdigest, ?_⟩
  rintro ⟨k, -, hunique⟩
  rw [hunique mk' ⟨hlen.trans (by rw [hbytes]; rfl), hdigest⟩,
    hunique mk ⟨(length_of_opens ho).trans hkey, a.digestMatches_iff.mpr (accepts_of_opens ho)⟩]

/-- The sample cabinet opens both ways. -/
theorem tryKeySlots_cabinet :
    ∃ mk h mk', unlock zeroCrypto cabinetLayout cabinet (bytes "vendor") = .ok mk ∧
      readLuks1Header cabinet = .ok h ∧
      tryKeySlots ⟨fun _ => none, fun _ => none, fun _ => none⟩ zeroCrypto cabinet h
        (bytes "vendor") =
        .ok mk' ∧
      digestMatches zeroCrypto h mk' := by
  obtain ⟨mk, hunlock⟩ := unlock_cabinet (bytes "vendor")
  obtain ⟨h, mk', hread, htry, hdigest, -⟩ :=
    tryKeySlots_of_unlock ⟨fun _ => none, fun _ => none, fun _ => none⟩ zeroCrypto cabinet
      (bytes "vendor") mk cabinetLayout (Luks1Layout.parse_eq_ok.mpr ⟨_, parsed_cabinet⟩)
        rfl hunlock
  exact ⟨mk, h, mk', hunlock, hread, htry, hdigest⟩

end

end CdjEmu.Luks
