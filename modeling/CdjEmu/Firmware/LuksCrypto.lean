/-
  LUKS1 KEYSLOT CRYPTO — the KDF, the anti-forensic split and the sector numbering, over arbitrary
  primitives.

  `Crypto` is what the code takes from its crypto crates: PBKDF2 and the hashes, of fixed output
  length, and the XTS transform of one sector.  Nothing else is known about them; where a result
  needs decryption to invert encryption it says so (`Crypto.XtsInverts`).

  * `afMerge` and `afSplit` share the running block `afState`, which depends on every stripe but the
    last; the last stripe is chosen so that merging gives the key (`afMerge_afSplit`).
  * `onSectors` applies a transform to the 512-octet sectors of a buffer, numbered from a first
    sector on; transforms that undo each other sector by sector undo each other
    (`onSectors_onSectors`).

  Texts are octets.  `to_lowercase` is taken on ASCII letters: of all other characters only U+0130
  and U+212A have an ASCII letter in their lowercase, and neither gives a text these functions look
  for.

  1. **Program** — `pbkdf2_derive` and the digests by their names, `diffuse` over blocks of the
     digest's length with its shorter last block, `af_merge` and `af_split`, and the loop over
     sectors.

  2. **Specification** — a split has one stripe for each that was asked for, and merging it gives
     the key, whatever the random octets are.  Nothing is said about what a part of the stripes
     gives away.

  3. **The crux (`afMerge_afSplit`)** — both go through the same stripes but the last, and the last
     is the running block exclusive-or the key; the running block does not change the length.
-/
import CdjEmu.Lib.Buffer

namespace CdjEmu.Luks

/-- The two digests. -/
inductive Hash where
  | sha1
  | sha256
  deriving DecidableEq

/-- The output length. -/
def Hash.len : Hash → Nat
  | .sha1 => 20
  | .sha256 => 32

/-- The primitives, with the output lengths they promise. -/
structure Crypto where
  pbkdf2 : Hash → (pwd salt : Bytes) → (iters : UInt32) → (n : Nat) → Option Bytes
  digest : Hash → Bytes → Bytes
  encryptSector : (dataKey tweakKey tweak sector : Bytes) → Bytes
  decryptSector : (dataKey tweakKey tweak sector : Bytes) → Bytes
  length_pbkdf2 : ∀ h pwd salt iters n out, pbkdf2 h pwd salt iters n = some out → out.length = n
  length_digest : ∀ h b, (digest h b).length = h.len

/-- Decryption inverts encryption, sector by sector. -/
structure Crypto.XtsInverts (C : Crypto) : Prop where
  length : ∀ dk tk tweak s, (C.encryptSector dk tk tweak s).length = s.length
  inverse : ∀ dk tk tweak s, 16 ≤ s.length →
    C.decryptSector dk tk tweak (C.encryptSector dk tk tweak s) = s

/-- Primitives whose hashes are all zero and whose sectors are not encrypted. -/
def zeroCrypto : Crypto where
  pbkdf2 _ _ _ _ n := some (List.replicate n 0)
  digest h _ := List.replicate h.len 0
  encryptSector _ _ _ s := s
  decryptSector _ _ _ s := s
  length_pbkdf2 _ _ _ _ n out h := by
    rw [← Option.some_inj.mp h, List.length_replicate]
  length_digest _ _ := List.length_replicate

/-! ## The KDF and its hash -/

/-- A letter of ASCII in lower case. -/
def asciiLower (c : UInt8) : UInt8 := if 65 ≤ c ∧ c ≤ 90 then c + 32 else c

def lowercase (b : Bytes) : Bytes := b.map asciiLower

theorem lowercase_lowercase (b : Bytes) : lowercase (lowercase b) = lowercase b := by
  have hlow : ∀ c : UInt8, asciiLower (asciiLower c) = asciiLower c := by decide +kernel
  rw [lowercase, lowercase, List.map_map]
  exact List.map_congr_left fun c _ => hlow c

/-- Two texts that differ in the case of letters only. -/
def eqIgnoreAsciiCase (a b : Bytes) : Prop := lowercase a = lowercase b

instance (a b : Bytes) : Decidable (eqIgnoreAsciiCase a b) := inferInstanceAs (Decidable (_ = _))

/-- `sha256` for that name, SHA-1 for every other. -/
def hashOf (spec : Bytes) : Hash := if lowercase spec = bytes "sha256" then .sha256 else .sha1

/-- A digest's name is read in any case. -/
theorem hashOf_lowercase (spec : Bytes) : hashOf (lowercase spec) = hashOf spec := by
  rw [hashOf, lowercase_lowercase, hashOf]

section

variable (C : Crypto)

/-- The key of a slot, from its passphrase. -/
def pbkdf2Derive (spec pwd salt : Bytes) (iters : UInt32) (n : Nat) : Option Bytes :=
  C.pbkdf2 (hashOf spec) pwd salt iters n

/-- Hash each block of the hash's length, prefixed with its index. -/
def diffuseWith (h : Hash) (buf : Bytes) : Bytes :=
  let blocks := buf.length / h.len
  let padding := buf.length % h.len
  let out := (List.range blocks).flatMap fun j =>
    C.digest h (toBe32 (UInt32.ofNat j) ++ slice buf (j * h.len) h.len)
  if padding > 0 then
    out ++ (C.digest h (toBe32 (UInt32.ofNat blocks) ++ buf.drop (blocks * h.len))).take padding
  else out

/-- The diffusion of each digest. -/
def diffuseSha256 : Bytes → Bytes := diffuseWith C .sha256

def diffuseSha1 : Bytes → Bytes := diffuseWith C .sha1

/-- And that of a digest by its name. -/
def diffuse (buf spec : Bytes) : Bytes :=
  if eqIgnoreAsciiCase spec (bytes "sha256") then diffuseSha256 C buf else diffuseSha1 C buf

/-! ## The anti-forensic split -/

/-- `d` with `s` xored onto its front. -/
def xorInto (d s : Bytes) : Bytes := List.zipWith (· ^^^ ·) d s ++ d.drop s.length

/-- The running block after the first `i` stripes of `src`. -/
def afState (spec : Bytes) (keyBytes : Nat) (src : Bytes) : Nat → Bytes
  | 0 => List.replicate keyBytes 0
  | i + 1 => diffuse C
      (xorInto (afState spec keyBytes src i) (slice src (i * keyBytes) keyBytes)) spec

/-- `af_merge`: the stripes are put together, and the last one gives the key. -/
def afMerge (src : Bytes) (keyBytes stripes : Nat) (spec : Bytes) : Bytes :=
  xorInto (afState C spec keyBytes src (stripes - 1))
    (slice src ((stripes - 1) * keyBytes) keyBytes)

/-- The split of `key`, with `out` the random octets of all stripes but the last. -/
def afSplit (key : Bytes) (stripes : Nat) (spec out : Bytes) : Bytes :=
  out ++ xorInto (afState C spec key.length out (stripes - 1)) key

variable {C}

/-- The hash is looked up by its lowercase name. -/
theorem diffuse_lowercase (buf spec : Bytes) :
    diffuse C buf (lowercase spec) = diffuse C buf spec := by
  have hname : eqIgnoreAsciiCase (lowercase spec) (bytes "sha256") ↔
      eqIgnoreAsciiCase spec (bytes "sha256") := by
    rw [eqIgnoreAsciiCase, lowercase_lowercase, eqIgnoreAsciiCase]
  simp only [diffuse, hname]

/-- Neither depends on the case of the digest's name. -/
theorem afState_lowercase (spec : Bytes) (keyBytes : Nat) (src : Bytes) (i : Nat) :
    afState C (lowercase spec) keyBytes src i = afState C spec keyBytes src i := by
  induction i with
  | zero => rfl
  | succ i ih => rw [afState, ih, diffuse_lowercase, afState]

theorem afMerge_lowercase (src : Bytes) (keyBytes stripes : Nat) (spec : Bytes) :
    afMerge C src keyBytes stripes (lowercase spec) = afMerge C src keyBytes stripes spec := by
  rw [afMerge, afState_lowercase, afMerge]

theorem pbkdf2Derive_lowercase (spec pwd salt : Bytes) (iters : UInt32) (n : Nat) :
    pbkdf2Derive C (lowercase spec) pwd salt iters n = pbkdf2Derive C spec pwd salt iters n := by
  rw [pbkdf2Derive, hashOf_lowercase, pbkdf2Derive]

/-! ### Lengths -/

theorem length_flatMap_const {α : Type} {f : α → Bytes} {k : Nat} (l : List α)
    (h : ∀ a, (f a).length = k) : (l.flatMap f).length = l.length * k := by
  induction l with
  | nil => simp
  | cons a l ih =>
    rw [List.flatMap_cons, List.length_append, h, ih, List.length_cons, Nat.succ_mul, Nat.add_comm]

/-- A diffusion keeps the length. -/
theorem length_diffuseWith (h : Hash) (buf : Bytes) :
    (diffuseWith C h buf).length = buf.length := by
  have hout := length_flatMap_const (List.range (buf.length / h.len))
    fun j => C.length_digest h (toBe32 (UInt32.ofNat j) ++ slice buf (j * h.len) h.len)
  rw [List.length_range] at hout
  have hdiv := Nat.div_add_mod' buf.length h.len
  have hlt : buf.length % h.len < h.len := Nat.mod_lt _ (by cases h <;> decide)
  rw [diffuseWith]
  split
  · rw [List.length_append, hout, List.length_take, C.length_digest]
    omega
  · rw [hout]
    omega

theorem length_diffuse (buf spec : Bytes) : (diffuse C buf spec).length = buf.length := by
  rw [diffuse]
  split
  · exact length_diffuseWith _ _
  · exact length_diffuseWith _ _

theorem length_xorInto (d s : Bytes) : (xorInto d s).length = d.length := by
  rw [xorInto, List.length_append, List.length_zipWith, List.length_drop]
  omega

/-- What is carried from stripe to stripe is as long as the key. -/
theorem length_afState (spec : Bytes) (keyBytes : Nat) (src : Bytes) (i : Nat) :
    (afState C spec keyBytes src i).length = keyBytes := by
  induction i with
  | zero => exact List.length_replicate
  | succ i ih => rw [afState, length_diffuse, length_xorInto, ih]

theorem length_afMerge (src : Bytes) (keyBytes stripes : Nat) (spec : Bytes) :
    (afMerge C src keyBytes stripes spec).length = keyBytes := by
  rw [afMerge, length_xorInto, length_afState]

/-! ### Merging undoes splitting -/

/-- Doing it twice undoes it. -/
theorem xorInto_xorInto {d s : Bytes} (h : d.length = s.length) : xorInto d (xorInto d s) = s := by
  have heq : ∀ {d s : Bytes}, d.length = s.length → xorInto d s = List.zipWith (· ^^^ ·) d s := by
    intro d s h
    rw [xorInto, ← h, List.drop_length, List.append_nil]
  rw [heq (by rw [length_xorInto]), heq h]
  induction d generalizing s with
  | nil =>
    rw [List.eq_nil_of_length_eq_zero h.symm]
    rfl
  | cons a d ih =>
    obtain ⟨b, s, rfl⟩ := List.exists_cons_of_length_eq_add_one h.symm
    rw [List.zipWith_cons_cons, List.zipWith_cons_cons, ih (by simpa using h), ← UInt8.xor_assoc,
      UInt8.xor_self, UInt8.zero_xor]

/-- The running block does not see what follows the stripes it covers. -/
theorem afState_append (spec : Bytes) (keyBytes : Nat) (src more : Bytes) {i : Nat}
    (h : i * keyBytes ≤ src.length) :
    afState C spec keyBytes (src ++ more) i = afState C spec keyBytes src i := by
  induction i with
  | zero => rfl
  | succ i ih =>
    rw [Nat.succ_mul] at h
    rw [afState, afState, ih (by omega), slice_append_left _ h]

/-- Merging a split gives the key. -/
theorem afMerge_afSplit {key out : Bytes} {stripes : Nat} (spec : Bytes)
    (hout : out.length = key.length * (stripes - 1)) :
    afMerge C (afSplit C key stripes spec out) key.length stripes spec = key := by
  have hlen : (stripes - 1) * key.length = out.length := by rw [hout, Nat.mul_comm]
  have hstate := length_afState (C := C) spec key.length out (stripes - 1)
  have hlast : slice (afSplit C key stripes spec out) ((stripes - 1) * key.length) key.length =
      xorInto (afState C spec key.length out (stripes - 1)) key := by
    rw [afSplit, slice_append_right _ (by omega), hlen, Nat.sub_self, slice, List.drop_zero]
    exact List.take_of_length_le (by rw [length_xorInto, hstate])
  rw [afMerge, hlast, afSplit, afState_append _ _ _ _ (by omega), xorInto_xorInto hstate]

/-- A split is as long as all its stripes. -/
theorem length_afSplit {key out : Bytes} {stripes : Nat} (hs : 1 ≤ stripes) (spec : Bytes)
    (hout : out.length = key.length * (stripes - 1)) :
    (afSplit C key stripes spec out).length = key.length * stripes := by
  obtain ⟨n, rfl⟩ : ∃ n, stripes = n + 1 := ⟨stripes - 1, by omega⟩
  rw [afSplit, List.length_append, length_xorInto, length_afState, hout, Nat.add_sub_cancel,
    Nat.mul_succ]

/-- Whatever the random octets are, merging undoes splitting: over any hashes, for any number of
    stripes, and although the last piece that `diffuse` hashes may be shorter than a digest. -/
theorem split_merges_back (spec key out : Bytes) (stripes : Nat) (hs : 1 ≤ stripes)
    (hout : out.length = key.length * (stripes - 1)) :
    afMerge C (afSplit C key stripes spec out) key.length stripes spec = key ∧
    (afSplit C key stripes spec out).length = key.length * stripes ∧
    ∀ buf, (diffuse C buf spec).length = buf.length := by
  refine ⟨?_, ?_, ?_⟩
  · exact afMerge_afSplit spec hout
  · exact length_afSplit hs spec hout
  · intro buf
    exact length_diffuse buf spec

/-- A key of 50 octets in three stripes: a whole digest and a piece of 18. -/
theorem fifty_octets_merge_back :
    afMerge zeroCrypto
      (afSplit zeroCrypto (List.replicate 50 7) 3 (bytes "sha256") (List.replicate 100 9)) 50 3
      (bytes "sha256") = List.replicate 50 7 :=
  (split_merges_back (bytes "sha256") (List.replicate 50 7) (List.replicate 100 9) 3 (by decide)
    (by decide)).1

end

/-! ## Sectors -/

/-- `f` applied to the 512-octet sectors of `b`, the first of them numbered `n`. -/
def onSectors (f : Nat → Bytes → Bytes) (n : Nat) (b : Bytes) : Bytes :=
  if b = [] then []
  else f n (b.take 512) ++ onSectors f (n + 1) (b.drop 512)
termination_by b.length
decreasing_by
  have := List.length_pos_iff.mpr ‹_›
  rw [List.length_drop]
  omega

/-- `n` as eight octets, the lowest first. -/
def toLe64 (n : Nat) : Bytes := (List.range 8).map fun i => UInt8.ofNat (n / 256 ^ i)

/-- `n` as four octets, the lowest first. -/
def toLe32 (n : Nat) : Bytes := (List.range 4).map fun i => UInt8.ofNat (n / 256 ^ i)

theorem onSectors_nil (f : Nat → Bytes → Bytes) (n : Nat) : onSectors f n [] = [] := by
  rw [onSectors, if_pos rfl]

theorem onSectors_of_ne_nil (f : Nat → Bytes → Bytes) (n : Nat) {b : Bytes} (h : b ≠ []) :
    onSectors f n b = f n (b.take 512) ++ onSectors f (n + 1) (b.drop 512) := by
  rw [onSectors, if_neg h]

/-- What keeps a sector's length keeps the whole. -/
theorem length_onSectors {f : Nat → Bytes → Bytes} (h : ∀ n b, (f n b).length = b.length) (n : Nat)
    (b : Bytes) : (onSectors f n b).length = b.length := by
  fun_induction onSectors f n b with
  | case1 n => rfl
  | case2 n b hne ih =>
    rw [List.length_append, h, ih, List.length_take, List.length_drop]
    omega

/-- Transforms that undo each other on a whole sector undo each other on a
    buffer of whole sectors. -/
theorem onSectors_onSectors {f g : Nat → Bytes → Bytes} (hlen : ∀ n b, (f n b).length = b.length)
    (hinv : ∀ n b, b.length = 512 → g n (f n b) = b) (n : Nat) {b : Bytes} (hb : 512 ∣ b.length) :
    onSectors g n (onSectors f n b) = b := by
  obtain ⟨k, hk⟩ := hb
  induction k generalizing n b with
  | zero =>
    obtain rfl := List.eq_nil_of_length_eq_zero hk
    rw [onSectors_nil, onSectors_nil]
  | succ k ih =>
    have hne : b ≠ [] := fun h => by rw [h, List.length_nil] at hk; omega
    have htake : (b.take 512).length = 512 := by
      rw [List.length_take]
      omega
    have hfirst : (f n (b.take 512)).length = 512 := by rw [hlen, htake]
    have hdrop : (b.drop 512).length = 512 * k := by
      rw [List.length_drop]
      omega
    rw [onSectors_of_ne_nil f n hne, onSectors_of_ne_nil g n, List.take_left' hfirst,
      List.drop_left' hfirst, hinv n _ htake, ih (n + 1) hdrop, List.take_append_drop]
    intro h
    rw [List.append_eq_nil_iff] at h
    rw [h.1] at hfirst
    exact absurd hfirst (by decide)

end CdjEmu.Luks
