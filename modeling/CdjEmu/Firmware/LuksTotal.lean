/-
  REKEYING ANY BYTES — the rekeyer with its checks, on every image.

  Here the header is read by index, the key material by range, and the slot is written into the
  image as the source writes it, every step checked.  None of the checks fails and the rekeyer of
  `Firmware/LuksRekey` does the same (`addKeyslotWithAt_eq`).  What carries it is
  `Luks1Layout.Parsed`: all that the later steps index without a check of their own was compared
  with the image when the header was read, and the master key has the length that the header says,
  so the new material fills its region.

  Writing starts when every check of the new slot has passed, so an error leaves the image alone.

  1. **Program** — every function of the rekeyer once more, with `none` for an index out of range, a
     sum that overflows, a slice that does not fit and a copy between slices of different lengths.

  2. **Specification** — for every image, passphrases and count: no `none`; the result is the plain
     rekeyer's; and an error leaves the buffer as it was.

  3. **The crux (`writeSlotAt_eq`)** — the copy of the material into its region needs both to have
     one length: the key has the header's length because `unlock` took it apart at that length, and
     the cipher keeps the length (`Primitives`).

  4. **Bridge** — the header's parser is compared field by field, and from there on
     `Luks1Layout.Parsed` answers every check.
-/
import CdjEmu.Firmware.LuksRekey
import CdjEmu.Lib.Checked

namespace CdjEmu.Luks

open Text Checked

/-! ## Reading the header -/

/-- `be32`. -/
def be32At (image : Bytes) (pos : Nat) : Option UInt32 := do
  let a ← index image pos
  let b ← index image (← add pos 1)
  let c ← index image (← add pos 2)
  let d ← index image (← add pos 3)
  pure (UInt32.ofNat (word32 [a, b, c, d]))

/-- `u16::from_be_bytes([b[0], b[1]])`, at `pos`. -/
def be16At (image : Bytes) (pos : Nat) : Option Nat := do
  let a ← index image pos
  let b ← index image (← add pos 1)
  pure (a.toNat * 2 ^ 8 + b.toNat)

/-- `cstr`. -/
def cstrAt (b : Bytes) : Option Bytes := do
  let text ← range b 0 (b.findIdx (· = 0))
  pure (lossy text)

/-- `parse_identity`. -/
def parseIdentityAt (image : Bytes) : Steps RekeyError Bytes := do
  if image.length < headerBytes then throw .notLuks1
  else do
    let magic ← range image 0 6
    if magic ≠ luksMagic then throw .notLuks1
    else do
      let version ← be16At image 6
      if version ≠ 1 then throw .notLuks1
      else do
        let cipher ← cstrAt (← range image 8 40)
        let mode ← cstrAt (← range image 40 72)
        if ¬ eqIgnoreAsciiCase cipher (bytes "aes") ∨
            ¬ eqIgnoreAsciiCase mode (bytes "xts-plain64") then
          throw (.unsupportedCipher (cipher ++ bytes "-" ++ mode))
        else do
          let spec ← cstrAt (← range image 72 104)
          let hashSpec := lowercase spec
          if hashSpec ≠ bytes "sha1" ∧ hashSpec ≠ bytes "sha256" then
            throw (.unsupportedCipher hashSpec)
          else pure hashSpec

/-- `SLOT_TABLE_OFFSET + index * SLOT_ENTRY_BYTES`. -/
def entryOf (i : Nat) : Option Nat := do add slotTableOffset (← mul i slotEntryBytes)

/-- `Keyslot::parse`, behind the state of the slot. -/
def Keyslot.parseFieldsAt (image : Bytes) (entry keyBytes payloadStart : Nat) (active : Bool) :
    Steps RekeyError Keyslot := do
  let iterations ← be32At image (← add entry 4)
  if active = true ∧ iterations = 0 then throw (.malformed "keyslot iterations are zero")
  else do
    let stripes ← be32At image (← add entry 44)
    if stripes ≠ luks1Stripes then throw (.malformed "keyslot stripe count is not 4000")
    else do
      let sectors ← be32At image (← add entry 40)
      let kmStart ← sectorOffset sectors "key material offset"
      if kmStart < headerBytes then throw (.malformed "the key material is inside the header")
      else do
        let size ← mul keyBytes stripes.toNat
        match add kmStart size with
        | none => throw (.malformed "key material end overflows")
        | some kmEnd =>
          if image.length < kmEnd then throw .truncated
          else if payloadStart < kmEnd then throw (.malformed "key material overlaps the payload")
          else do
            let salt ← range image (← add entry 8) (← add entry 40)
            pure { active, iterations, salt, kmStart, kmEnd, stripes := stripes.toNat }

/-- `Keyslot::parse`. -/
def Keyslot.parseAt (image : Bytes) (i keyBytes payloadStart : Nat) : Steps RekeyError Keyslot := do
  let entry ← entryOf i
  let state ← be32At image entry
  if state = slotActive then Keyslot.parseFieldsAt image entry keyBytes payloadStart true
  else if state = slotInactive then Keyslot.parseFieldsAt image entry keyBytes payloadStart false
  else throw (.malformed "keyslot state is neither active nor inactive")

/-- The loop of `check_disjoint`, with the slots from `i` on still to compare. -/
def checkDisjointFrom (slots : List Keyslot) : Nat → List Keyslot → Steps RekeyError Unit
  | _, [] => pure ()
  | i, a :: more => do
    let rest ← behind slots (← add i 1)
    if ∃ b ∈ rest, a.Overlap b then throw (.malformed "keyslot material regions overlap")
    else checkDisjointFrom slots (i + 1) more

/-- `check_disjoint`. -/
def checkDisjointAt (slots : List Keyslot) : Steps RekeyError Unit :=
  checkDisjointFrom slots 0 slots

/-- `Luks1Layout::parse`, behind the key size and the payload. -/
def Luks1Layout.parseSlotsAt (image hashSpec : Bytes) (keyBytes payloadStart : Nat) :
    Steps RekeyError Luks1Layout := do
  let mkDigest ← range image 112 132
  let mkSalt ← range image 132 164
  let mkIter ← be32At image 164
  if mkIter = 0 then throw (.malformed "mk-digest iterations are zero")
  else do
    let slots ← (List.range slotCount).mapM fun i => Keyslot.parseAt image i keyBytes payloadStart
    checkDisjointAt slots
    pure { hashSpec, keyBytes, mkDigest, mkSalt, mkIter, slots }

/-- `Luks1Layout::parse`. -/
def Luks1Layout.parseAt (image : Bytes) : Steps RekeyError Luks1Layout := do
  let hashSpec ← parseIdentityAt image
  let size ← be32At image 108
  let keyBytes := size.toNat
  if keyBytes ≠ 32 ∧ keyBytes ≠ 64 then throw (.malformed "master key size is not 32 or 64 bytes")
  else do
    let sectors ← be32At image 104
    let payloadStart ← sectorOffset sectors "payload offset"
    if payloadStart < headerBytes then throw (.malformed "the payload offset is inside the header")
    else if image.length < payloadStart then throw .truncated
    else Luks1Layout.parseSlotsAt image hashSpec keyBytes payloadStart

/-! ### No check fails -/

/-- Each checked function is the plain one on an image that is small enough to be in memory; the
    words of the header come first. -/
theorem be32At_eq {image : Bytes} {pos : Nat} (hsmall : image.length < 2 ^ 63)
    (h : pos + 4 ≤ image.length) :
    be32At image pos = some (be32 image pos) := by
  have hs : slice image pos 4 = [image[pos], image[pos + 1], image[pos + 2], image[pos + 3]] := by
    rw [slice, List.drop_eq_getElem_cons (show pos < image.length by omega),
      List.drop_eq_getElem_cons (show pos + 1 < image.length by omega),
      List.drop_eq_getElem_cons (show pos + 2 < image.length by omega),
      List.drop_eq_getElem_cons (show pos + 3 < image.length by omega)]
    rfl
  unfold be32At
  rw [bind_of_eq (index_eq (by omega)), bind_of_eq (add_eq (by omega)),
    bind_of_eq (index_eq (by omega)), bind_of_eq (add_eq (by omega)),
    bind_of_eq (index_eq (by omega)), bind_of_eq (add_eq (by omega)),
    bind_of_eq (index_eq (by omega)), be32, hs]
  rfl

theorem be16At_eq {image : Bytes} {pos : Nat} (hsmall : image.length < 2 ^ 63)
    (h : pos + 2 ≤ image.length) :
    be16At image pos = some (be16 image pos) := by
  have hs : slice image pos 2 = [image[pos], image[pos + 1]] := by
    rw [slice, List.drop_eq_getElem_cons (show pos < image.length by omega),
      List.drop_eq_getElem_cons (show pos + 1 < image.length by omega)]
    rfl
  unfold be16At
  rw [bind_of_eq (index_eq (by omega)), bind_of_eq (add_eq (by omega)),
    bind_of_eq (index_eq (by omega)), be16, hs]
  rfl

theorem cstrAt_eq (b : Bytes) : cstrAt b = some (cstr b) := by
  have htake : slice b 0 (b.findIdx (· = 0) - 0) = b.takeWhile (· ≠ 0) := by
    rw [List.takeWhile_eq_take_findIdx_not]
    simp [slice]
  rw [cstrAt, bind_of_eq (range_eq (Nat.zero_le _) List.findIdx_le_length), htake]
  rfl

section

variable {image : Bytes} (hsmall : image.length < 2 ^ 63)

include hsmall

/-- The names in the header. -/
theorem parseIdentityAt_eq : parseIdentityAt image = some (parseIdentity image) := by
  unfold parseIdentityAt parseIdentity
  by_cases hlen : image.length < headerBytes
  · rw [if_pos hlen, if_pos (.inl hlen)]
    rfl
  have hin : 592 ≤ image.length := Nat.not_lt.mp hlen
  rw [if_neg hlen, Steps.lift_bind (range_eq (by omega) (by omega))]
  by_cases hmagic : slice image 0 6 ≠ luksMagic
  · rw [if_pos hmagic, if_pos (.inr hmagic)]
    rfl
  rw [if_neg hmagic, if_neg (not_or.mpr ⟨hlen, hmagic⟩),
    Steps.lift_bind (be16At_eq hsmall (by omega))]
  refine Steps.refines_ite (fun _ => rfl) fun _ => ?_
  rw [Steps.lift_bind (range_eq (by omega) (by omega)), Steps.lift_bind (cstrAt_eq _),
    Steps.lift_bind (range_eq (by omega) (by omega)), Steps.lift_bind (cstrAt_eq _)]
  refine Steps.refines_ite (fun _ => rfl) fun _ => ?_
  rw [Steps.lift_bind (range_eq (by omega) (by omega)), Steps.lift_bind (cstrAt_eq _)]
  exact Steps.refines_ite (fun _ => rfl) fun _ => rfl

omit hsmall in
/-- The place of an entry. -/
theorem entryOf_eq {i : Nat} (hi : i < slotCount) : entryOf i = some (entryAt i) := by
  have hentry := entryAt_lt_header hi
  rw [entryAt, slotTableOffset, headerBytes] at hentry
  rw [entryOf, bind_of_eq (mul_eq (by omega)), slotTableOffset, add_eq (by omega)]
  rfl

/-- The fields of a slot, whose sums stay within the image or are refused. -/
theorem Keyslot.parseFieldsAt_eq {entry keyBytes payloadStart : Nat} (active : Bool)
    (he : entry + 48 ≤ image.length) (hk : keyBytes ≤ 64) :
    Keyslot.parseFieldsAt image entry keyBytes payloadStart active =
      some (Keyslot.parseFields image entry keyBytes payloadStart active) := by
  unfold Keyslot.parseFieldsAt Keyslot.parseFields
  rw [Steps.lift_bind (add_eq (by omega)), Steps.lift_bind (be32At_eq hsmall (by omega))]
  refine Steps.refines_ite (fun _ => rfl) fun _ => ?_
  rw [Steps.lift_bind (add_eq (by omega)), Steps.lift_bind (be32At_eq hsmall (by omega))]
  refine Steps.refines_ite (fun _ => rfl) fun hstripes => ?_
  rw [not_not.mp hstripes, Steps.lift_bind (add_eq (by omega)),
    Steps.lift_bind (be32At_eq hsmall (by omega))]
  refine Steps.refines_bind rfl fun kmStart hstart => ?_
  unfold Keyslot.place
  refine Steps.refines_ite (fun _ => rfl) fun _ => ?_
  have hcount : luks1Stripes.toNat = 4000 := rfl
  have hlow : kmStart < 2 ^ 42 := by
    have hlt := (be32 image (entry + 40)).toNat_lt
    rw [sectorOffset_eq_ok.mp hstart, luksSector]
    omega
  have hsize : keyBytes * luks1Stripes.toNat ≤ 256000 := by
    rw [hcount]
    omega
  have hfit : ¬ 2 ^ 64 ≤ kmStart + keyBytes * luks1Stripes.toNat := by omega
  rw [Steps.lift_bind (mul_eq (by omega)), add_eq (by omega)]
  dsimp only
  rw [if_neg hfit]
  refine Steps.refines_ite (fun _ => rfl) fun _ => ?_
  refine Steps.refines_ite (fun _ => rfl) fun _ => ?_
  rw [Steps.lift_bind (add_eq (by omega)), Steps.lift_bind (add_eq (by omega)),
    Steps.lift_bind (range_eq (by omega) (by omega)), show entry + 40 - (entry + 8) = 32 by omega]
  rfl

theorem Keyslot.parseAt_eq {i keyBytes payloadStart : Nat} (hi : i < slotCount)
    (hin : headerBytes ≤ image.length) (hk : keyBytes ≤ 64) :
    Keyslot.parseAt image i keyBytes payloadStart =
      some (Keyslot.parse image i keyBytes payloadStart) := by
  have hentry := entryAt_lt_header hi
  have hbytes : slotEntryBytes = 48 := rfl
  unfold Keyslot.parseAt Keyslot.parse
  rw [Steps.lift_bind (entryOf_eq hi), Steps.lift_bind (be32At_eq hsmall (by omega))]
  refine Steps.refines_ite (fun _ => Keyslot.parseFieldsAt_eq hsmall true (by omega) hk) fun _ => ?_
  exact Steps.refines_ite (fun _ => Keyslot.parseFieldsAt_eq hsmall false (by omega) hk) fun _ =>
    rfl

omit hsmall in
/-- The test that no two slots overlap. -/
theorem checkDisjointFrom_eq {slots : List Keyslot} (hfew : slots.length < 2 ^ 63) {i : Nat}
    {more : List Keyslot} (h : slots.drop i = more) :
    checkDisjointFrom slots i more = some (checkDisjoint more) := by
  induction more generalizing i with
  | nil => rfl
  | cons a more ih =>
    have hi : i < slots.length := by
      by_contra hout
      rw [List.drop_eq_nil_of_le (by omega)] at h
      cases h
    have hrest : slots.drop (i + 1) = more := by
      rw [← List.drop_drop, h]
      rfl
    unfold checkDisjointFrom checkDisjoint
    rw [Steps.lift_bind (add_eq (by omega)), Steps.lift_bind (behind_eq (by omega)), hrest]
    exact Steps.refines_ite (fun _ => rfl) fun _ => ih hrest

theorem Luks1Layout.parseSlotsAt_eq {hashSpec : Bytes} {keyBytes payloadStart : Nat}
    (hin : headerBytes ≤ image.length) (hk : keyBytes ≤ 64) :
    Luks1Layout.parseSlotsAt image hashSpec keyBytes payloadStart =
      some (Luks1Layout.parseSlots image hashSpec keyBytes payloadStart) := by
  have hhead : headerBytes = 592 := rfl
  unfold Luks1Layout.parseSlotsAt Luks1Layout.parseSlots
  rw [Steps.lift_bind (range_eq (by omega) (by omega)),
    Steps.lift_bind (range_eq (by omega) (by omega)), Steps.lift_bind (be32At_eq hsmall (by omega))]
  refine Steps.refines_ite (fun _ => rfl) fun _ => ?_
  refine Steps.refines_bind (Steps.mapM_eq fun i hi => ?_) fun slots hslots => ?_
  · exact Keyslot.parseAt_eq hsmall (List.mem_range.mp hi) hin hk
  · have hlen : slots.length = 8 := (mapM_range_eq_ok.mp hslots).1
    exact Steps.refines_bind (checkDisjointFrom_eq (i := 0) (by omega) rfl) fun _ _ => rfl

/-- So is the parser of the whole header. -/
theorem Luks1Layout.parseAt_eq : Luks1Layout.parseAt image = some (Luks1Layout.parse image) := by
  unfold Luks1Layout.parseAt Luks1Layout.parse
  refine Steps.refines_bind (parseIdentityAt_eq hsmall) fun hashSpec hid => ?_
  have hin := (of_parseIdentity_eq_ok hid).1
  have hhead : headerBytes = 592 := rfl
  rw [Steps.lift_bind (be32At_eq hsmall (by omega))]
  refine Steps.refines_ite (fun _ => rfl) fun hk => ?_
  rw [Steps.lift_bind (be32At_eq hsmall (by omega))]
  refine Steps.refines_bind rfl fun payloadStart _ => ?_
  refine Steps.refines_ite (fun _ => rfl) fun _ => ?_
  refine Steps.refines_ite (fun _ => rfl) fun _ => ?_
  exact Luks1Layout.parseSlotsAt_eq hsmall hin (by omega)

end

/-! ## Splitting and merging -/

section

variable (C : Crypto)

/-- `diffuse_sha256` and `diffuse_sha1`. -/
def diffuseWithAt (h : Hash) (buf : Bytes) : Option Bytes := do
  let blocks := buf.length / h.len
  let padding := buf.length % h.len
  let out ← (List.range blocks).mapM fun j => do
    let block ← range buf (← mul j h.len) (← mul (← add j 1) h.len)
    pure (C.digest h (toBe32 (UInt32.ofNat j) ++ block))
  if padding > 0 then do
    let tail ← behind buf (← mul blocks h.len)
    let part ← range (C.digest h (toBe32 (UInt32.ofNat blocks) ++ tail)) 0 padding
    pure (out.flatten ++ part)
  else pure out.flatten

/-- `diffuse`. -/
def diffuseAt (buf spec : Bytes) : Option Bytes :=
  if eqIgnoreAsciiCase spec (bytes "sha256") then diffuseWithAt C .sha256 buf
  else diffuseWithAt C .sha1 buf

/-- The loop of `af_merge` and of `af_split`. -/
def afStateAt (spec : Bytes) (keyBytes : Nat) (src : Bytes) : Nat → Option Bytes
  | 0 => some (List.replicate keyBytes 0)
  | i + 1 => do
    let d ← afStateAt spec keyBytes src i
    let stripe ← range src (← mul i keyBytes) (← mul (← add i 1) keyBytes)
    diffuseAt C (xorInto d stripe) spec

/-- `af_merge`. -/
def afMergeAt (src : Bytes) (keyBytes stripes : Nat) (spec : Bytes) : Option Bytes := do
  let before ← sub stripes 1
  let d ← afStateAt C spec keyBytes src before
  let last ← range src (← mul before keyBytes) (← mul stripes keyBytes)
  pure (xorInto d last)

/-- `af_split`. -/
def afSplitAt (random : Nat → UInt8) (key : Bytes) (stripes : Nat) (spec : Bytes) :
    Option Bytes := do
  let before ← sub stripes 1
  let out := randomBytes random 32 (← mul key.length before)
  let d ← afStateAt C spec key.length out before
  pure (out ++ xorInto d key)

/-- A loop over the sectors of a buffer.  The cipher refuses one of less than a block. -/
def onSectorsAt (f : Nat → Bytes → Bytes) (n : Nat) (b : Bytes) : Option Bytes :=
  if _h : b = [] then some []
  else if 16 ≤ (b.take 512).length then do
    let rest ← onSectorsAt f (n + 1) (b.drop 512)
    pure (f n (b.take 512) ++ rest)
  else none
termination_by b.length
decreasing_by
  have := List.length_pos_iff.mpr ‹_›
  rw [List.length_drop]
  omega

/-- `xts_sectors`. -/
def xtsSectorsAt (aesKey : Nat) (material key : Bytes) (encrypt : Bool) :
    Steps RekeyError Bytes := do
  let dataKey ← range key 0 (key.length / 2)
  let tweakKey ← behind key (key.length / 2)
  if dataKey.length ≠ aesKey ∨ tweakKey.length ≠ aesKey then
    throw (.malformed "master key size is not 32 or 64 bytes")
  else if material.length % 16 ≠ 0 then throw (.malformed "key material is not whole AES blocks")
  else
    let crypt := if encrypt then C.encryptSector else C.decryptSector
    onSectorsAt (fun sector => crypt dataKey tweakKey (sectorTweak sector)) 0 material

/-- `xts_material`. -/
def xtsMaterialAt (material slotKey : Bytes) (encrypt : Bool) : Steps RekeyError Bytes :=
  if slotKey.length = 32 then xtsSectorsAt C 16 material slotKey encrypt
  else if slotKey.length = 64 then xtsSectorsAt C 32 material slotKey encrypt
  else throw (.malformed "master key size is not 32 or 64 bytes")

variable {C}

/-- The blocks of a diffusion. -/
theorem diffuseWithAt_eq {h : Hash} {buf : Bytes} (hsmall : buf.length < 2 ^ 63) :
    diffuseWithAt C h buf = some (diffuseWith C h buf) := by
  have hdiv := Nat.div_add_mod' buf.length h.len
  have hlen : 0 < h.len ∧ h.len ≤ 32 := by
    cases h with
    | sha1 => decide
    | sha256 => decide
  have hblock : ∀ j ∈ List.range (buf.length / h.len),
      (do
        let block ← range buf (← mul j h.len) (← mul (← add j 1) h.len)
        pure (C.digest h (toBe32 (UInt32.ofNat j) ++ block))) =
      some (C.digest h (toBe32 (UInt32.ofNat j) ++ slice buf (j * h.len) h.len)) := by
    intro j hj
    have hle := Nat.mul_le_mul_right h.len (List.mem_range.mp hj)
    have hjle := Nat.le_mul_of_pos_right j hlen.1
    rw [Nat.succ_mul] at hle
    rw [bind_of_eq (mul_eq (by omega)), bind_of_eq (add_eq (by omega)),
      bind_of_eq (mul_eq (by rw [Nat.succ_mul]; omega)), Nat.succ_mul,
      bind_of_eq (range_add (by omega))]
    rfl
  have hmod := Nat.mod_lt buf.length hlen.1
  unfold diffuseWithAt diffuseWith
  dsimp only
  rw [bind_of_eq (mapM_eq hblock)]
  by_cases hpad : buf.length % h.len > 0
  · rw [if_pos hpad, if_pos hpad, bind_of_eq (mul_eq (by omega)), bind_of_eq (behind_eq (by omega)),
      bind_of_eq (range_eq (Nat.zero_le _) (by rw [C.length_digest]; omega))]
    rfl
  · rw [if_neg hpad, if_neg hpad]
    rfl

theorem diffuseAt_eq {buf : Bytes} (spec : Bytes) (hsmall : buf.length < 2 ^ 63) :
    diffuseAt C buf spec = some (diffuse C buf spec) := by
  unfold diffuseAt diffuse
  by_cases hspec : eqIgnoreAsciiCase spec (bytes "sha256")
  · rw [if_pos hspec, if_pos hspec]
    exact diffuseWithAt_eq hsmall
  · rw [if_neg hspec, if_neg hspec]
    exact diffuseWithAt_eq hsmall

theorem afStateAt_eq (spec : Bytes) {keyBytes : Nat} {src : Bytes} (hk : keyBytes < 2 ^ 63)
    {i : Nat} (hi : i < 2 ^ 63) (h : i * keyBytes ≤ src.length) (hsmall : src.length < 2 ^ 63) :
    afStateAt C spec keyBytes src i = some (afState C spec keyBytes src i) := by
  induction i with
  | zero => rfl
  | succ i ih =>
    rw [Nat.succ_mul] at h
    unfold afStateAt afState
    rw [bind_of_eq (ih (by omega) (by omega)), bind_of_eq (mul_eq (by omega)),
      bind_of_eq (add_eq (by omega)), bind_of_eq (mul_eq (by rw [Nat.succ_mul]; omega)),
      Nat.succ_mul, bind_of_eq (range_add h)]
    exact diffuseAt_eq spec (by rw [length_xorInto, length_afState]; exact hk)

/-- The stripes of a merge. -/
theorem afMergeAt_eq {src : Bytes} {keyBytes stripes : Nat} (spec : Bytes) (hk : keyBytes < 2 ^ 63)
    (hs : 1 ≤ stripes) (hs' : stripes < 2 ^ 63) (h : src.length = keyBytes * stripes)
    (hsmall : src.length < 2 ^ 63) :
    afMergeAt C src keyBytes stripes spec = some (afMerge C src keyBytes stripes spec) := by
  obtain ⟨n, rfl⟩ : ∃ n, stripes = n + 1 := ⟨stripes - 1, by omega⟩
  rw [Nat.mul_comm, Nat.succ_mul] at h
  unfold afMergeAt afMerge
  rw [bind_of_eq (sub_eq hs), Nat.add_sub_cancel,
    bind_of_eq (afStateAt_eq spec hk (by omega) (by omega) hsmall), bind_of_eq (mul_eq (by omega)),
    bind_of_eq (mul_eq (by rw [Nat.succ_mul]; omega)), Nat.succ_mul,
    bind_of_eq (range_add (by omega))]
  rfl

/-- The stripes of a split. -/
theorem afSplitAt_eq (random : Nat → UInt8) {key : Bytes} {stripes : Nat} (spec : Bytes)
    (hs : 1 ≤ stripes) (hs' : stripes < 2 ^ 63) (hk : key.length < 2 ^ 63)
    (hsmall : key.length * (stripes - 1) < 2 ^ 63) :
    afSplitAt C random key stripes spec =
      some (afSplit C key stripes spec (randomBytes random 32 (key.length * (stripes - 1)))) := by
  have hout := length_randomBytes random 32 (key.length * (stripes - 1))
  have hcomm := Nat.mul_comm key.length (stripes - 1)
  unfold afSplitAt afSplit
  rw [bind_of_eq (sub_eq hs), bind_of_eq (mul_eq (by omega))]
  dsimp only
  rw [bind_of_eq (afStateAt_eq spec hk (by omega) (by omega) (by omega))]
  rfl

/-- The sectors of the material. -/
theorem onSectorsAt_eq (f : Nat → Bytes → Bytes) (n : Nat) {b : Bytes} (h : b.length % 16 = 0) :
    onSectorsAt f n b = some (onSectors f n b) := by
  fun_induction onSectorsAt f n b with
  | case1 n => rw [onSectors_nil]
  | case2 n b hne _ ih =>
    have hrest := ih (by rw [List.length_drop]; omega)
    rw [onSectors_of_ne_nil f n hne, bind_of_eq hrest]
    rfl
  | case3 n b hne hshort =>
    have hpos := List.length_pos_iff.mpr hne
    rw [List.length_take] at hshort
    omega

theorem xtsSectorsAt_eq (aesKey : Nat) (material key : Bytes) (encrypt : Bool) :
    xtsSectorsAt C aesKey material key encrypt =
      some (xtsSectors C aesKey material key encrypt) := by
  have hhalf : slice key 0 (key.length / 2 - 0) = key.take (key.length / 2) := rfl
  unfold xtsSectorsAt xtsSectors
  rw [Steps.lift_bind (range_eq (Nat.zero_le _) (by omega)),
    Steps.lift_bind (behind_eq (by omega)), hhalf]
  refine Steps.refines_ite (fun _ => rfl) fun _ => ?_
  refine Steps.refines_ite (fun _ => rfl) fun hwhole => ?_
  dsimp only
  rw [onSectorsAt_eq _ _ (not_not.mp hwhole)]
  rfl

/-- The two lengths of a key. -/
theorem xtsMaterialAt_eq (material slotKey : Bytes) (encrypt : Bool) :
    xtsMaterialAt C material slotKey encrypt = some (xtsMaterial C material slotKey encrypt) := by
  unfold xtsMaterialAt xtsMaterial
  refine Steps.refines_ite (fun _ => xtsSectorsAt_eq _ _ _ _) fun _ => ?_
  exact Steps.refines_ite (fun _ => xtsSectorsAt_eq _ _ _ _) fun _ => rfl

end

/-! ## Opening and writing -/

section

variable (C : Crypto)

/-- One round of the loop of `unlock`. -/
def openKeyslotAt (layout : Luks1Layout) (image passphrase : Bytes) (slot : Keyslot) :
    Steps RekeyError (Option Bytes) :=
  match pbkdf2Derive C layout.hashSpec passphrase slot.salt slot.iterations layout.keyBytes with
  | none => pure none
  | some slotKey => do
    let material ← range image slot.kmStart slot.kmEnd
    let material ← xtsMaterialAt C material slotKey false
    let mk ← afMergeAt C material layout.keyBytes slot.stripes layout.hashSpec
    pure (if layout.Accepts C mk then some mk else none)

/-- `unlock`, with its slices checked. -/
def unlockFromAt (layout : Luks1Layout) (image passphrase : Bytes) :
    List Keyslot → Steps RekeyError Bytes
  | [] => throw .vendorSlotLocked
  | slot :: rest => do
    match ← openKeyslotAt C layout image passphrase slot with
    | some mk => pure mk
    | none => unlockFromAt layout image passphrase rest

/-- `unlock`. -/
def unlockAt (layout : Luks1Layout) (image passphrase : Bytes) : Steps RekeyError Bytes :=
  unlockFromAt C layout image passphrase (layout.slots.filter (·.active))

/-- The new material, as `write_slot` makes it. -/
def wrapMasterKeyAt (random : Nat → UInt8) (layout : Luks1Layout) (slot : Keyslot)
    (masterKey passphrase : Bytes) (iterations : UInt32) : Steps RekeyError Bytes :=
  match pbkdf2Derive C layout.hashSpec passphrase (randomBytes random 0 32) iterations
    layout.keyBytes with
  | none => throw (.unsupportedCipher layout.hashSpec)
  | some slotKey => do
    let material ← afSplitAt C random masterKey slot.stripes layout.hashSpec
    xtsMaterialAt C material slotKey true

open InPlace

/-- `write_slot`. -/
def writeSlotAt (random : Nat → UInt8) (layout : Luks1Layout) (i : Nat)
    (masterKey passphrase : Bytes) (iterations : UInt32) : InPlace RekeyError Unit := do
  let slot ← reads fun _ => liftM (index layout.slots i)
  let material ← reads fun _ => wrapMasterKeyAt C random layout slot masterKey passphrase iterations
  writes fun image => copy image slot.kmStart slot.kmEnd material
  let entry ← reads fun _ => liftM (entryOf i)
  writes fun image => do copy image entry (← add entry 4) (toBe32 slotActive)
  writes fun image => do copy image (← add entry 4) (← add entry 8) (toBe32 iterations)
  writes fun image => do copy image (← add entry 8) (← add entry 40) (randomBytes random 0 32)

/-- `swap_slot_entries`: the image is split at the entry that comes second. -/
def swapSlotEntriesAt (image : Bytes) (a b : Nat) : Option Bytes :=
  if a = b then some image
  else do
    let lo ← entryOf (min a b)
    let hi ← entryOf (max a b)
    let head ← range image 0 hi
    let tail ← behind image hi
    let first ← range head lo (← add lo slotEntryBytes)
    let second ← range tail 0 slotEntryBytes
    let head ← copy head lo (← add lo slotEntryBytes) second
    let tail ← copy tail 0 slotEntryBytes first
    pure (head ++ tail)

/-- `add_keyslot_with`. -/
def addKeyslotWithAt (random : Nat → UInt8) (vendorPassphrase unitPassphrase : Bytes)
    (iterations : UInt32) :
    InPlace RekeyError Nat := do
  let layout ← reads Luks1Layout.parseAt
  let masterKey ← reads fun image => unlockAt C layout image vendorPassphrase
  match layout.slots.findIdx? (!·.active) with
  | none => throw .noFreeSlot
  | some i => do
    writeSlotAt C random layout i masterKey unitPassphrase iterations
    writes fun image => swapSlotEntriesAt image 0 i
    pure 0

end

/-! ### No check fails -/

/-- Primitives that work in place on a sector. -/
structure Primitives extends Crypto where
  length_encrypt : ∀ dk tk tweak s, (toCrypto.encryptSector dk tk tweak s).length = s.length
  length_decrypt : ∀ dk tk tweak s, (toCrypto.decryptSector dk tk tweak s).length = s.length

/-- Primitives that change nothing keep all lengths. -/
def zeroPrimitives : Primitives where
  toCrypto := zeroCrypto
  length_encrypt _ _ _ _ := rfl
  length_decrypt _ _ _ _ := rfl

/-- The cipher keeps the material's length. -/
theorem length_of_xtsMaterial (P : Primitives) {material slotKey r : Bytes} {encrypt : Bool}
    (h : xtsMaterial P.toCrypto material slotKey encrypt = .ok r) : r.length = material.length := by
  have hsectors : ∀ aesKey, xtsSectors P.toCrypto aesKey material slotKey encrypt = .ok r →
      r.length = material.length := by
    intro aesKey h
    rw [xtsSectors, check_eq_ok, check_eq_ok] at h
    obtain ⟨-, -, h⟩ := h
    cases h
    apply length_onSectors
    intro n b
    cases encrypt with
    | false => exact P.length_decrypt _ _ _ _
    | true => exact P.length_encrypt _ _ _ _
  unfold xtsMaterial at h
  split_ifs at h
  · exact hsectors 16 h
  · exact hsectors 32 h

section

variable (P : Primitives) {image : Bytes} {layout : Luks1Layout} {payloadStart : Nat}

open InPlace

/-- Opening a parsed slot never leaves the image. -/
theorem openKeyslotAt_eq (p : layout.Parsed image payloadStart) (passphrase : Bytes)
    {slot : Keyslot} (hslot : slot ∈ layout.slots) :
    openKeyslotAt P.toCrypto layout image passphrase slot =
      some (openKeyslot P.toCrypto layout image passphrase slot) := by
  obtain ⟨i, hi⟩ := List.mem_iff_getElem?.mp hslot
  have ps := p.slots_parsed i slot hi
  have hend := ps.kmEnd
  have hin := ps.le_length
  have hk := p.keyBytes_mem
  have hstripes : slot.stripes = 4000 := ps.stripes
  have hlen : (slot.material image).length = layout.keyBytes * 4000 := ps.length_material
  unfold openKeyslotAt openKeyslot
  cases pbkdf2Derive P.toCrypto layout.hashSpec passphrase slot.salt slot.iterations
    layout.keyBytes with
  | none => rfl
  | some slotKey =>
    dsimp only
    rw [Steps.lift_bind (range_eq (by omega) hin)]
    refine Steps.refines_bind (xtsMaterialAt_eq _ _ _) fun material hm => ?_
    have hm := length_of_xtsMaterial P hm
    rw [Steps.lift_bind
      (afMergeAt_eq _ (by omega) (by omega) (by omega) (by rw [hm, hlen, hstripes])
      (by rw [hm, hlen]; omega))]
    rfl

/-- Nor does trying several. -/
theorem unlockFromAt_eq (p : layout.Parsed image payloadStart) (passphrase : Bytes)
    {slots : List Keyslot} (hslots : ∀ s ∈ slots, s ∈ layout.slots) :
    unlockFromAt P.toCrypto layout image passphrase slots =
      some (unlockFrom P.toCrypto layout image passphrase slots) := by
  induction slots with
  | nil => rfl
  | cons slot rest ih =>
    unfold unlockFromAt unlockFrom
    refine Steps.refines_bind (openKeyslotAt_eq P p passphrase (hslots slot List.mem_cons_self))
      fun mk _ => ?_
    cases mk with
    | some mk => rfl
    | none => exact ih fun s hs => hslots s (List.mem_cons_of_mem _ hs)

theorem unlockAt_eq (p : layout.Parsed image payloadStart) (passphrase : Bytes) :
    unlockAt P.toCrypto layout image passphrase =
      some (unlock P.toCrypto layout image passphrase) :=
  unlockFromAt_eq P p passphrase fun _ hs => (List.mem_filter.mp hs).1

/-- The new material fills the region of its slot. -/
theorem wrapMasterKeyAt_eq (random : Nat → UInt8) (passphrase : Bytes) (iterations : UInt32)
    {slot : Keyslot} {mk : Bytes} (hk : layout.keyBytes = 32 ∨ layout.keyBytes = 64)
    (hmk : mk.length = layout.keyBytes) (hstripes : slot.stripes = 4000) :
    wrapMasterKeyAt P.toCrypto random layout slot mk passphrase iterations =
      some (wrapMasterKey P.toCrypto random layout slot mk passphrase iterations) := by
  unfold wrapMasterKeyAt wrapMasterKey
  dsimp only
  cases pbkdf2Derive P.toCrypto layout.hashSpec passphrase (randomBytes random 0 32) iterations
    layout.keyBytes with
  | none => rfl
  | some slotKey =>
    dsimp only
    rw [Steps.lift_bind
      (afSplitAt_eq random _ (by omega) (by omega) (by omega) (by rw [hstripes, hmk]; omega))]
    exact xtsMaterialAt_eq _ _ _

/-- A wrapped key is as long as the room of its slot. -/
theorem length_of_wrapMasterKey {random : Nat → UInt8} {passphrase : Bytes} {iterations : UInt32}
    {slot : Keyslot} {mk material : Bytes} (hmk : mk.length = layout.keyBytes)
    (hstripes : slot.stripes = 4000)
    (h : wrapMasterKey P.toCrypto random layout slot mk passphrase iterations = .ok material) :
    material.length = layout.keyBytes * 4000 := by
  unfold wrapMasterKey at h
  dsimp only at h
  cases hkdf : pbkdf2Derive P.toCrypto layout.hashSpec passphrase
    (randomBytes random 0 32) iterations layout.keyBytes with
  | none =>
    rw [hkdf] at h
    cases h
  | some slotKey =>
    rw [hkdf] at h
    rw [length_of_xtsMaterial P h, length_afSplit (by omega) _ (length_randomBytes _ _ _), hmk,
      hstripes]

omit P in
/-- The two entries lie in the header. -/
theorem swapSlotEntriesAt_eq {i : Nat} (hsmall : image.length < 2 ^ 63) (hi : i < slotCount)
    (hin : headerBytes ≤ image.length) :
    swapSlotEntriesAt image 0 i = some (swapSlotEntries image 0 i) := by
  unfold swapSlotEntriesAt
  by_cases h0 : 0 = i
  · rw [if_pos h0, swapSlotEntries, if_pos h0]
  have hlt : 0 < i := by omega
  have hlo := entryAt_lt hlt
  have hhi := entryAt_lt_header hi
  rw [if_neg h0, swapSlotEntries_of_lt image hlt, min_eq_left hlt.le, max_eq_right hlt.le,
    bind_of_eq (entryOf_eq (hlt.trans hi)), bind_of_eq (entryOf_eq hi)]
  generalize entryAt 0 = lo at hlo ⊢
  generalize entryAt i = hi at hlo hhi ⊢
  generalize slotEntryBytes = n at hlo hhi ⊢
  -- the image in two parts, the second entry at the front of the second part
  obtain ⟨head, tail, rfl, hhead⟩ : ∃ head tail, image = head ++ tail ∧ head.length = hi :=
    ⟨image.take hi, image.drop hi,
      (List.take_append_drop hi image).symm, by rw [List.length_take]; omega⟩
  rw [List.length_append] at hsmall hin
  have htake : slice (head ++ tail) 0 (hi - 0) = head := by
    rw [Nat.sub_zero, ← hhead, slice_append_left _ (by omega), slice, List.drop_zero,
      List.take_length]
  have hdrop : (head ++ tail).drop hi = tail := by rw [← hhead, List.drop_left]
  have hfirst : slice (head ++ tail) lo n = slice head lo n := slice_append_left _ (by omega)
  have hsecond : slice (head ++ tail) hi n = slice tail 0 n := by
    rw [slice_append_right _ (by omega), hhead, Nat.sub_self]
  have hlen₁ : (slice head lo n).length = n := length_slice (by omega)
  have hlen₂ : (slice tail 0 n).length = n := length_slice (by omega)
  have hwritten : (splice head lo (slice tail 0 n)).length = hi := by
    rw [length_splice (by omega), hhead]
  rw [bind_of_eq (range_eq (Nat.zero_le _) (by rw [List.length_append]; omega)), htake,
    bind_of_eq (behind_eq (by rw [List.length_append]; omega)), hdrop,
    bind_of_eq (add_eq (by omega)),
    bind_of_eq (range_add (by omega)), bind_of_eq (range_eq (Nat.zero_le _) (by omega)),
    Nat.sub_zero,
    bind_of_eq (add_eq (by omega)), bind_of_eq (copy_eq (by omega) (by omega) (by omega)),
    bind_of_eq (copy_eq (Nat.zero_le _) (by omega) (by omega)), hfirst, hsecond,
    splice_append_left _ (by omega), splice_append_right _ _ (by omega), hwritten, Nat.sub_self]
  rfl

/-- Writing a slot keeps the image's length. -/
theorem length_of_writeSlot {random : Nat → UInt8} {i : Nat} {slot : Keyslot}
    {mk passphrase written : Bytes} {iterations : UInt32} (p : layout.Parsed image payloadStart)
    (hslot : layout.slots[i]? = some slot) (hmk : mk.length = layout.keyBytes)
    (h : writeSlot P.toCrypto random image layout i mk passphrase iterations = .ok written) :
    written.length = image.length := by
  have hi : i < slotCount := p.slots_length ▸ (List.getElem?_eq_some_iff.mp hslot).1
  have ps := p.slots_parsed i slot hslot
  have hget : layout.slots.getD i Keyslot.unused = slot := by
    rw [List.getD, hslot]
    rfl
  rw [writeSlot, hget] at h
  obtain ⟨material, hm, h⟩ := bind_eq_ok.mp h
  cases h
  exact (stored_storeSlot ps hi (length_of_wrapMasterKey P hmk ps.stripes hm)
    (length_randomBytes random 0 32)
    iterations).length

/-- And stays within the image. -/
theorem writeSlotAt_eq (random : Nat → UInt8) {i : Nat} {slot : Keyslot} {mk : Bytes}
    (passphrase : Bytes) (iterations : UInt32)
    (hsmall : image.length < 2 ^ 63) (p : layout.Parsed image payloadStart)
    (hslot : layout.slots[i]? = some slot) (hmk : mk.length = layout.keyBytes) :
    writeSlotAt P.toCrypto random layout i mk passphrase iterations image =
      some (leave image
        ((writeSlot P.toCrypto random image layout i mk passphrase iterations).map fun r =>
          ((), r))) := by
  have hi : i < slotCount := p.slots_length ▸ (List.getElem?_eq_some_iff.mp hslot).1
  have ps := p.slots_parsed i slot hslot
  have hstripes : slot.stripes = 4000 := ps.stripes
  have hget : layout.slots.getD i Keyslot.unused = slot := by
    rw [List.getD, hslot]
    rfl
  unfold writeSlotAt writeSlot
  dsimp only
  rw [hget, bind_ok (reads_eq (r := .ok slot) (by rw [index, hslot]; rfl))]
  -- The wrapping may fail, and then nothing has been written.
  have hwrap := wrapMasterKeyAt_eq P random passphrase iterations p.keyBytes_mem hmk hstripes
  cases hm : wrapMasterKey P.toCrypto random layout slot mk passphrase iterations with
  | error e =>
    rw [hm] at hwrap
    rw [bind_error (reads_eq hwrap)]
    rfl
  | ok material =>
    rw [hm] at hwrap
    have hlen := length_of_wrapMasterKey P hmk hstripes hm
    have hend : slot.kmEnd = slot.kmStart + layout.keyBytes * 4000 := ps.kmEnd
    have hentry := entryAt_lt_header hi
    have hbytes : slotEntryBytes = 48 := rfl
    have hin := ps.le_length
    have hhead := p.header_le
    have hpay := p.payload_le
    have hsalt := length_randomBytes random 0 32
    have h₁ : (splice image slot.kmStart material).length = image.length := length_splice (by omega)
    have h₂ : (splice (splice image slot.kmStart material) (entryAt i) (toBe32 slotActive)).length =
        image.length :=
      (length_splice (by rw [h₁, length_toBe32]; omega)).trans h₁
    have h₃ : (splice (splice (splice image slot.kmStart material) (entryAt i) (toBe32 slotActive))
        (entryAt i + 4)
        (toBe32 iterations)).length = image.length :=
          (length_splice (by rw [h₂, length_toBe32]; omega)).trans h₂
    -- The four writes, each within the image that the one before it left: the material, then the
    -- state,
    have hmaterial :
        copy image slot.kmStart slot.kmEnd material = some (splice image slot.kmStart material) :=
      copy_eq (by omega) hin (by omega)
    have hstate : ∀ {b : Bytes}, b.length = image.length →
        (do copy b (entryAt i) (← add (entryAt i) 4) (toBe32 slotActive)) =
          some (splice b (entryAt i) (toBe32 slotActive)) := by
      intro b hb
      rw [bind_of_eq (add_eq (by omega))]
      exact copy_eq (by omega) (by omega) (by rw [length_toBe32]; omega)
    have hiter : ∀ {b : Bytes}, b.length = image.length →
        (do copy b (← add (entryAt i) 4) (← add (entryAt i) 8) (toBe32 iterations)) =
          some (splice b (entryAt i + 4) (toBe32 iterations)) := by
      intro b hb
      rw [bind_of_eq (add_eq (by omega)), bind_of_eq (add_eq (by omega))]
      exact copy_eq (by omega) (by omega) (by rw [length_toBe32]; omega)
    have hdrawn : ∀ {b : Bytes}, b.length = image.length →
        (do copy b (← add (entryAt i) 8) (← add (entryAt i) 40) (randomBytes random 0 32)) =
          some (splice b (entryAt i + 8) (randomBytes random 0 32)) := by
      intro b hb
      rw [bind_of_eq (add_eq (by omega)), bind_of_eq (add_eq (by omega))]
      exact copy_eq (by omega) (by omega) (by omega)
    -- With those facts the checked run is the plain one, write by write.
    rw [bind_ok (reads_eq hwrap)]
    refine (bind_ok (writes_eq hmaterial) _).trans ?_
    rw [bind_ok (reads_eq (r := .ok (entryAt i)) (by rw [entryOf_eq hi]; rfl))]
    refine (bind_ok (writes_eq (hstate h₁)) _).trans ?_
    refine (bind_ok (writes_eq (hiter h₂)) _).trans ?_
    exact writes_eq (hdrawn h₃)

/-- The checked rekeyer does what `addKeyslotWith` does. -/
theorem addKeyslotWithAt_eq (random : Nat → UInt8) (hsmall : image.length < 2 ^ 63)
    (vendorPassphrase unitPassphrase : Bytes) (iterations : UInt32) :
    addKeyslotWithAt P.toCrypto random vendorPassphrase unitPassphrase iterations image =
      some (leave image
        (addKeyslotWith P.toCrypto random image vendorPassphrase unitPassphrase iterations)) := by
  unfold addKeyslotWithAt addKeyslotWith
  refine refines_reads (Luks1Layout.parseAt_eq hsmall) fun layout hl => ?_
  obtain ⟨payloadStart, p⟩ := Luks1Layout.parse_eq_ok.mp hl
  refine refines_reads (unlockAt_eq P p vendorPassphrase) fun mk hmk => ?_
  cases hfind : layout.slots.findIdx? (!·.active) with
  | none => rfl
  | some i =>
    obtain ⟨hfew, -⟩ := List.findIdx?_eq_some_iff_getElem.mp hfind
    obtain ⟨s, -, hopen⟩ := List.exists_of_findSome?_eq_some ((unlock_eq_ok p).mp hmk)
    have hi : i < slotCount := p.slots_length ▸ hfew
    have hslot := List.getElem?_eq_getElem hfew
    have hwrite :=
      writeSlotAt_eq P random unitPassphrase iterations hsmall p hslot (length_of_opens hopen)
    dsimp only
    cases hw : writeSlot P.toCrypto random image layout i mk unitPassphrase iterations with
    | error e =>
      rw [hw] at hwrite
      exact bind_error hwrite _
    | ok written =>
      rw [hw] at hwrite
      have hlen := length_of_writeSlot P p hslot (length_of_opens hopen) hw
      have hin := p.header_le.trans p.payload_le
      refine (bind_ok hwrite _).trans ?_
      exact bind_ok (writes_eq (swapSlotEntriesAt_eq (by omega) hi (by omega))) _

end

/-- `add_keyslot_with` on any image: no check fails; it ends with the new image, or with an error
    that leaves the image as it was. -/
theorem addKeyslotWithAt_total (P : Primitives) (random : Nat → UInt8) (s : Slice)
    (vendorPassphrase unitPassphrase : Bytes) (iterations : UInt32) :
    ∃ r image', addKeyslotWithAt P.toCrypto random vendorPassphrase unitPassphrase iterations
      s.octets = some (r, image') ∧
      (∀ n, r = .ok n →
        addKeyslotWith P.toCrypto random s.octets vendorPassphrase unitPassphrase iterations = .ok
          (n, image')) ∧
      ∀ e, r = .error e → image' = s.octets := by
  have heq := addKeyslotWithAt_eq P random s.small vendorPassphrase unitPassphrase iterations
  cases h : addKeyslotWith P.toCrypto random s.octets vendorPassphrase unitPassphrase
    iterations with
  | ok made =>
    obtain ⟨n, image'⟩ := made
    rw [h] at heq
    refine ⟨_, _, heq, ?_, ?_⟩
    · intro m hm
      cases hm
      rfl
    · intro e he
      cases he
  | error e =>
    rw [h] at heq
    refine ⟨_, _, heq, ?_, ?_⟩
    · intro m hm
      cases hm
    · intro _ _
      rfl

/-- A slot for the unit is added to the cabinet, in place. -/
theorem addKeyslotWithAt_total_cabinet :
    ∃ image', addKeyslotWithAt zeroCrypto (fun _ => 7) (bytes "vendor")
      (bytes "unit") 200000 cabinet =
        some (.ok 0, image') ∧
      addKeyslotWith zeroCrypto (fun _ => 7) cabinet (bytes "vendor") (bytes "unit") 200000 = .ok
        (0, image') := by
  have hsmall : cabinet.length < 2 ^ 63 := by
    rw [length_cabinet]
    decide
  obtain ⟨r, image', hrun, hok, -⟩ :=
    addKeyslotWithAt_total zeroPrimitives (fun _ => 7) ⟨cabinet, hsmall⟩ (bytes "vendor")
      (bytes "unit") 200000
  -- the slot that is free is the second one
  obtain ⟨mk, hunlock⟩ := unlock_cabinet (bytes "vendor")
  have hfind : cabinetLayout.slots.findIdx? (!·.active) = some 1 := by decide
  obtain ⟨made, hmade⟩ := addKeyslotWith_succeeds (fun _ => 7) (bytes "unit") 200000
    (Luks1Layout.parse_eq_ok.mpr ⟨_, parsed_cabinet⟩) hunlock hfind rfl
  have heq := addKeyslotWithAt_eq zeroPrimitives (fun _ => 7) hsmall (bytes "vendor")
      (bytes "unit") 200000
  rw [show addKeyslotWith zeroPrimitives.toCrypto _ _ _ _ _ = .ok (0, made) from hmade] at heq
  obtain ⟨rfl, rfl⟩ := Prod.mk.inj (Option.some.inj (hrun.symm.trans heq))
  exact ⟨_, hrun, hok 0 rfl⟩

end CdjEmu.Luks
