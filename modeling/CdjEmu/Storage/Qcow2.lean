/-
  READING A QCOW2 IMAGE — a range of the disk through the two lookup tables, and what the disk holds
  there.

  `readAt` follows each cluster of the range to the place in the file where its octets are stored,
  and gives these.  The disk itself is `guestOctet`, as the format has it: a cluster may read as
  zeros whatever is stored for it, an image may be encrypted, and the disk ends at its size.  So the
  two agree just where the stored octets are the disk's (`Plain`).

  Before the loop the reader reserves room for the range, and panics when no allocation could be
  that large; how much memory there is does not count.  The loop takes one cluster after the other,
  and `loopAt_round` says all that one round can do: stop short of the range, run off the end of the
  64-bit offsets, or go on behind a part whose octets are all stored.  Only the first round can
  overflow in the L1 table, because a table that was read once lies in the file.

  Compression and encryption are parameters: nothing that is shown depends on them.

  1. **Program** — the header with its tests, the two tables, and the loop; a failed read, a place
     behind the end of the file and a cluster that is not stored are errors of the source's own.

  2. **Specification** — `guestOctet`, by the format's own words: version, bits of the entry,
     compression, encryption, the image's size.  The reader should give the octets of the range, and
     nothing else, without a stop.

  3. **The crux (`loopAt_round`)** — one round of the loop, and with it the exact place where an
     image that the format allows is read otherwise.

  4. **Bridge** — the octets of a range are looked at one by one, so that the round lemma, which
     speaks of parts of clusters, meets a specification that does not know them.
-/
import CdjEmu.Lib.Checked
import CdjEmu.Lib.Except

namespace CdjEmu.Qcow2

open Checked

/-- The octets that an image starts with. -/
def MAGIC : Bytes := [0x51, 0x46, 0x49, 0xfb]

/-- Bits 9..55 of an entry: the host offset of what it points at. -/
def OFFSET_MASK : UInt64 := 0x00fffffffffffe00

/-- The bit of a compressed cluster. -/
def COMPRESSED : UInt64 := (1 : UInt64) <<< (62 : UInt64)

/-- Every failure is one of reading. -/
inductive ReadError where
  | io
  deriving DecidableEq

/-- Eight octets as a number, the highest first. -/
def be64 (b : Bytes) (i : Nat) : UInt64 :=
  UInt64.ofNat ((slice b i 8).foldl (fun n c => n * 256 + c.toNat) 0)

/-- What the reader takes from the header. -/
structure Head where
  clusterBits : Nat
  l1Len : Nat
  l1Offset : Nat

def Head.cluster (h : Head) : Nat := 2 ^ h.clusterBits

/-- The entries of a table of the second level. -/
def Head.l2Entries (h : Head) : Nat := h.cluster / 8

/-! ## The reader -/

/-- `read_exact`, at `pos`. -/
def readExact (file : Bytes) (pos n : Nat) : Except ReadError Bytes :=
  if pos + n ≤ file.length then .ok (slice file pos n) else .error .io

/-- A number of 64 bits in the file. -/
def readU64 (file : Bytes) (pos : Nat) : Except ReadError UInt64 := do
  let b ← readExact file pos 8
  .ok (be64 b 0)

/-- The host offset of a cluster, if it is mapped and not compressed. -/
def hostAt (file : Bytes) (h : Head) (guest : Nat) : Steps ReadError (Option Nat) := do
  let l1Index := guest / h.l2Entries
  if h.l1Len ≤ l1Index then pure none
  else do
    let l1Entry ← readU64 file (← add h.l1Offset (← mul l1Index 8))
    let l2Table := l1Entry &&& OFFSET_MASK
    if l2Table = 0 then pure none
    else do
      let entry ← readU64 file (← add l2Table.toNat (← mul (guest % h.l2Entries) 8))
      let host := entry &&& OFFSET_MASK
      if host = 0 ∨ entry &&& COMPRESSED ≠ 0 then pure none
      else pure (some host.toNat)

/-- The loop of `read_at`, for at most so many clusters. -/
def loopAt (file : Bytes) (h : Head) (len : Nat) :
    Nat → Nat → Bytes → Steps ReadError (Option Bytes)
  | 0, _, _ => (none : Option (Except ReadError (Option Bytes)))
  | fuel + 1, pos, out =>
    if out.length < len then do
      let within := pos % h.cluster
      let take := min (h.cluster - within) (len - out.length)
      match ← hostAt file h (pos / h.cluster) with
      | none => pure none
      | some host => do
        let buf ← readExact file (← add host within) take
        let pos ← add pos take
        loopAt file h len fuel pos (out ++ buf)
    else pure (some out)

/-- The fields that reading needs. -/
def headOf (file : Bytes) : Head where
  clusterBits := (be32 file 20).toNat
  l1Len := (be32 file 36).toNat
  l1Offset := (be64 file 40).toNat

/-- `isize::MAX`. -/
def maxCapacity : Nat := 2 ^ 63 - 1

/-- `Vec::with_capacity` of octets: it panics when they are too many for an
    allocation of any size. -/
def withCapacity (len : Nat) : Option Bytes := if len ≤ maxCapacity then some [] else none

/-- `read_at`: `len` octets of the disk from `offset` on. -/
def readAt (file : Bytes) (offset len : Nat) : Steps ReadError (Option Bytes) := do
  let head ← readExact file 0 48
  if slice head 0 4 ≠ MAGIC then pure none
  else
    let h := headOf head
    if 9 ≤ h.clusterBits ∧ h.clusterBits ≤ 21 then do
      let out ← withCapacity len
      loopAt file h len (len + 1) offset out
    else pure none

/-! ## The disk -/

def version (file : Bytes) : UInt32 := be32 file 4

def size (file : Bytes) : Nat := (be64 file 24).toNat

def cryptMethod (file : Bytes) : UInt32 := be32 file 32

/-- An image of version 2 or 3 with no backing file and no incompatible feature. -/
structure Standard (file : Bytes) : Prop where
  magic : slice file 0 4 = MAGIC
  long : 72 ≤ file.length
  version : version file = 2 ∨ version file = 3 ∧ 104 ≤ file.length ∧ be64 file 72 = 0
  backing : be64 file 8 = 0
  clusterBits : 9 ≤ (headOf file).clusterBits ∧ (headOf file).clusterBits ≤ 21

/-- The octets of compressed clusters, by entry and place, and of an encrypted
    image, by place in the file. -/
structure Codec where
  inflate : Bytes → UInt64 → Nat → UInt8
  decipher : Bytes → Nat → UInt8

section

variable (file : Bytes) (h : Head)

/-- The table that a cluster is found in. -/
def l2Table (guest : Nat) : UInt64 :=
  be64 file (h.l1Offset + guest / h.l2Entries * 8) &&& OFFSET_MASK

/-- And its entry there. -/
def l2Entry (guest : Nat) : UInt64 :=
  be64 file ((l2Table file h guest).toNat + guest % h.l2Entries * 8)

/-- Where the octet at `pos` is in the file, if its cluster is a standard one. -/
def place (pos : Nat) : Nat :=
  (l2Entry file h (pos / h.cluster) &&& OFFSET_MASK).toNat + pos % h.cluster

/-- The cluster of `pos` reads as zeros: bit 0 of its entry, in version 3. -/
def ReadsAsZeros (pos : Nat) : Prop := version file = 3 ∧ l2Entry file h (pos / h.cluster) &&& 1 ≠ 0

instance (pos : Nat) : Decidable (ReadsAsZeros file h pos) := inferInstanceAs (Decidable (_ ∧ _))

end

/-- The octet of the disk at `pos`. -/
def guestOctet (K : Codec) (file : Bytes) (pos : Nat) : Option UInt8 :=
  let h := headOf file
  let guest := pos / h.cluster
  if size file ≤ pos ∨ h.l1Len ≤ guest / h.l2Entries then none
  else if l2Table file h guest = 0 then some 0
  else if l2Entry file h guest &&& COMPRESSED ≠ 0 then
    some (K.inflate file (l2Entry file h guest) (pos % h.cluster))
  else if ReadsAsZeros file h pos then some 0
  else if l2Entry file h guest &&& OFFSET_MASK = 0 then some 0
  else if cryptMethod file ≠ 0 then some (K.decipher file (place file h pos))
  else some (file.getD (place file h pos) 0)

/-! ## What is stored -/

/-- The cluster is mapped: both tables can be read, they point somewhere,
    and it is not compressed. -/
structure Mapped (file : Bytes) (h : Head) (guest : Nat) : Prop where
  l1 : guest / h.l2Entries < h.l1Len
  l1In : h.l1Offset + guest / h.l2Entries * 8 + 8 ≤ file.length
  table : l2Table file h guest ≠ 0
  l2In : (l2Table file h guest).toNat + guest % h.l2Entries * 8 + 8 ≤ file.length
  host : l2Entry file h guest &&& OFFSET_MASK ≠ 0
  standard : l2Entry file h guest &&& COMPRESSED = 0

/-- `Stored file h pos c` — the cluster of `pos` is mapped, and `c` is what the
    file has for the octet. -/
structure Stored (file : Bytes) (h : Head) (pos : Nat) (c : UInt8) : Prop where
  mapped : Mapped file h (pos / h.cluster)
  octet : file[place file h pos]? = some c

/-- A place is below 2^56. -/
theorem masked_lt (x : UInt64) : (x &&& OFFSET_MASK).toNat < 2 ^ 56 := by
  rw [UInt64.toNat_and]
  exact Nat.lt_of_le_of_lt Nat.and_le_right (by decide)

theorem readU64_eq {file : Bytes} {pos : Nat} :
    readU64 file pos = if pos + 8 ≤ file.length then .ok (be64 file pos) else .error .io := by
  unfold readU64 readExact
  by_cases hin : pos + 8 ≤ file.length
  · rw [if_pos hin, if_pos hin]
    show Except.ok (be64 (slice file pos 8) 0) = _
    rw [be64, slice_slice (by omega)]
    rfl
  · rw [if_neg hin, if_neg hin]
    rfl

/-- A number is read, or it lies behind the end. -/
theorem readU64_cases (file : Bytes) (pos : Nat) :
    pos + 8 ≤ file.length ∧ readU64 file pos = .ok (be64 file pos) ∨
      ¬ pos + 8 ≤ file.length ∧ readU64 file pos = .error .io := by
  rw [readU64_eq]
  by_cases hin : pos + 8 ≤ file.length
  · exact .inl ⟨hin, if_pos hin⟩
  · exact .inr ⟨hin, if_neg hin⟩

section

variable {file : Bytes} {h : Head} {guest : Nat}

/-- A host offset is found just for a mapped cluster. -/
theorem hostAt_cases (hbits : h.clusterBits ≤ 21) (hguest : guest < 2 ^ 60)
    (hl1 : guest / h.l2Entries < h.l1Len → h.l1Offset + guest / h.l2Entries * 8 < 2 ^ 64) :
    Mapped file h guest ∧
    hostAt file h guest = some (.ok (some (l2Entry file h guest &&& OFFSET_MASK).toNat)) ∨
      ¬ Mapped file h guest ∧ ∃ r, hostAt file h guest = some r ∧ ∀ p, r ≠ .ok (some p) := by
  have hindex := Nat.div_le_self guest h.l2Entries
  have hentries : h.l2Entries ≤ 2 ^ 18 := by
    have hpow : 2 ^ h.clusterBits ≤ 2 ^ 21 := Nat.pow_le_pow_right (by decide) hbits
    unfold Head.l2Entries Head.cluster
    omega
  have hmod : guest % h.l2Entries < 2 ^ 60 := Nat.lt_of_le_of_lt (Nat.mod_le _ _) hguest
  unfold hostAt
  dsimp only
  -- past the first table, in a table that is not there, or in a table that is there
  by_cases hlong : h.l1Len ≤ guest / h.l2Entries
  · refine .inr ⟨fun m => by have := m.l1; omega, .ok none, if_pos hlong, fun p hp => by cases hp⟩
  rw [if_neg hlong, Steps.lift_bind (mul_eq (by omega)), Steps.lift_bind (add_eq (hl1 (by omega)))]
  rcases readU64_cases file (h.l1Offset + guest / h.l2Entries * 8) with ⟨hin, hread⟩ | ⟨hout, hread⟩
  · have htable := masked_lt (be64 file (h.l1Offset + guest / h.l2Entries * 8))
    rw [hread, Steps.ok_bind, ← l2Table]
    rw [← l2Table] at htable
    -- no second table: the cluster is not mapped
    by_cases hz : l2Table file h guest = 0
    · exact .inr ⟨fun m => m.table hz, .ok none, if_pos hz, fun p hp => by cases hp⟩
    rw [if_neg hz, Steps.lift_bind (mul_eq (by omega)), Steps.lift_bind (add_eq (by omega))]
    rcases readU64_cases file ((l2Table file h guest).toNat + guest % h.l2Entries * 8) with ⟨hin',
        hread'⟩ | ⟨hout, hread'⟩
    · rw [hread', Steps.ok_bind, ← l2Entry]
      -- an entry that is empty or compressed gives no offset
      by_cases hbad : l2Entry file h guest &&& OFFSET_MASK = 0 ∨
        l2Entry file h guest &&& COMPRESSED ≠ 0
      · refine .inr ⟨fun m => ?_, .ok none, if_pos hbad, fun p hp => by cases hp⟩
        rcases hbad with hbad | hbad
        · exact m.host hbad
        · exact hbad m.standard
      · rw [not_or, not_not] at hbad
        exact .inl ⟨⟨by omega, hin, hz, hin', hbad.1, hbad.2⟩,
          if_neg (by rw [not_or, not_not]; exact hbad)⟩
    · rw [hread']
      exact .inr ⟨fun m => hout m.l2In, .error .io, rfl, fun p hp => by cases hp⟩
  · rw [hread]
    exact .inr ⟨fun m => hout m.l1In, .error .io, rfl, fun p hp => by cases hp⟩

/-- A place in the first table that does not fit 64 bits. -/
theorem hostAt_overflow (hguest : guest < 2 ^ 60) (hindex : guest / h.l2Entries < h.l1Len)
    (hover : 2 ^ 64 ≤ h.l1Offset + guest / h.l2Entries * 8) : hostAt file h guest = none := by
  have hdiv := Nat.div_le_self guest h.l2Entries
  have hadd : add h.l1Offset (guest / h.l2Entries * 8) = none := if_neg (by omega)
  unfold hostAt
  dsimp only
  rw [if_neg (by omega), Steps.lift_bind (mul_eq (by omega)), hadd]
  rfl

/-! ## The loop -/

theorem cluster_pos (h : Head) : 0 < h.cluster := Nat.two_pow_pos _

theorem le_cluster (hbits : 9 ≤ h.clusterBits) : 512 ≤ h.cluster :=
  Nat.pow_le_pow_right (by decide : 0 < 2) hbits

/-- Octets of one cluster are stored one behind the other. -/
theorem place_add {pos i : Nat} (hi : i < h.cluster - pos % h.cluster) :
    (pos + i) / h.cluster = pos / h.cluster ∧ place file h (pos + i) = place file h pos + i := by
  have hpos := cluster_pos h
  have hmod := Nat.mod_lt pos hpos
  have hsum : pos + i = pos % h.cluster + i + h.cluster * (pos / h.cluster) := by
    have := Nat.mod_add_div pos h.cluster
    omega
  have hdiv : (pos + i) / h.cluster = pos / h.cluster := by
    rw [hsum, Nat.add_mul_div_left _ _ hpos, Nat.div_eq_of_lt (by omega), Nat.zero_add]
  have hrem : (pos + i) % h.cluster = pos % h.cluster + i := by
    rw [hsum, Nat.add_mul_mod_self_left, Nat.mod_eq_of_lt (by omega)]
  refine ⟨hdiv, ?_⟩
  unfold place
  rw [hdiv, hrem]
  omega

/-- The clusters end with the 64-bit offsets. -/
theorem cluster_end_le {pos : Nat} (hbits : h.clusterBits ≤ 21) (hpos : pos < 2 ^ 64) :
    pos + (h.cluster - pos % h.cluster) ≤ 2 ^ 64 := by
  have hall : h.cluster * 2 ^ (64 - h.clusterBits) = 2 ^ 64 := by
    unfold Head.cluster
    rw [← Nat.pow_add, Nat.add_sub_cancel' (by omega)]
  have hlt : pos / h.cluster < 2 ^ (64 - h.clusterBits) :=
    Nat.div_lt_of_lt_mul (by rw [hall]; exact hpos)
  have hnext := Nat.mul_le_mul_left h.cluster hlt
  rw [hall, Nat.mul_succ] at hnext
  have := Nat.mod_add_div pos h.cluster
  have := Nat.mod_lt pos (cluster_pos h)
  omega

/-- The offset of the entry of `pos` in the L1 table is a number of 64 bits,
    if it is in the table. -/
def L1Fits (h : Head) (pos : Nat) : Prop :=
  pos / h.cluster / h.l2Entries < h.l1Len → h.l1Offset + pos / h.cluster / h.l2Entries * 8 < 2 ^ 64

/-- **What one round of the loop can do.**  It stops short of the range where an octet is not
    stored, it overflows at the end of the 64-bit offsets, or it goes on behind the part of the
    range that is in the cluster. -/
theorem loopAt_round (hsmall : file.length < 2 ^ 63)
    (hbits : 9 ≤ h.clusterBits ∧ h.clusterBits ≤ 21) {len pos : Nat} {out : Bytes} (fuel : Nat)
    (hpos : pos < 2 ^ 64) (hl1 : L1Fits h pos) (hmore : out.length < len) :
    ∃ take, 0 < take ∧ take ≤ len - out.length ∧
      ((∃ i < take, pos + i < 2 ^ 64 ∧ ∀ c, ¬ Stored file h (pos + i) c) ∧
          (∃ r, loopAt file h len (fuel + 1) pos out = some r ∧ ∀ b, r ≠ .ok (some b)) ∨
        ∃ chunk : Bytes, chunk.length = take ∧
        (∀ i c, chunk[i]? = some c → Stored file h (pos + i) c) ∧
          (pos + take = 2 ^ 64 ∧ loopAt file h len (fuel + 1) pos out = none ∨
            pos + take < 2 ^ 64 ∧ L1Fits h (pos + take) ∧
              loopAt file h len (fuel + 1) pos out = loopAt file h len fuel (pos + take)
                (out ++ chunk))) := by
  have hcluster := le_cluster hbits.1
  have hmod := Nat.mod_lt pos (cluster_pos h)
  have hguest : pos / h.cluster < 2 ^ 60 := by
    refine Nat.lt_of_le_of_lt (Nat.div_le_div_left hcluster (by decide)) ?_
    omega
  refine ⟨min (h.cluster - pos % h.cluster) (len - out.length), by omega, Nat.min_le_right _ _, ?_⟩
  generalize htake : min (h.cluster - pos % h.cluster) (len - out.length) = take
  have hin : take ≤ h.cluster - pos % h.cluster := by omega
  rcases @hostAt_cases file _ _ hbits.2 hguest hl1 with ⟨m, hhost⟩ | ⟨hno, r, hr, hnone⟩
  · -- the cluster is mapped: its octets are stored, if the file has them
    have hlow := masked_lt (l2Entry file h (pos / h.cluster))
    have hsize : h.cluster ≤ 2 ^ 21 := Nat.pow_le_pow_right (by decide) hbits.2
    have hround : loopAt file h len (fuel + 1) pos out = (do
        let buf ← readExact file (place file h pos) take
        let pos ← add pos take
        loopAt file h len fuel pos (out ++ buf) : Steps ReadError (Option Bytes)) := by
      rw [loopAt, if_pos hmore]
      dsimp only
      rw [htake, hhost]
      show ((liftM (add _ _) : Steps ReadError Nat) >>= _) = _
      rw [Steps.lift_bind (add_eq (by omega))]
      rfl
    have hend := cluster_end_le hbits.2 hpos
    rw [hround]
    by_cases hfile : place file h pos + take ≤ file.length
    · have hlen := length_slice hfile
      refine .inr ⟨slice file (place file h pos) take, hlen, ?_, ?_⟩
      · intro i c hi
        have hlt : i < take := hlen ▸ (List.getElem?_eq_some_iff.mp hi).1
        obtain ⟨hdiv, hat⟩ := @place_add file _ _ _ (show i < h.cluster - pos % h.cluster by omega)
        refine ⟨hdiv ▸ m, ?_⟩
        rw [hat, ← hi, getElem?_slice, if_pos hlt]
      · rw [readExact, if_pos hfile, Steps.ok_bind]
        by_cases hfit : pos + take < 2 ^ 64
        · refine .inr ⟨hfit, ?_, Steps.lift_bind (add_eq hfit) _⟩
          -- the next entry of the L1 table is at most one behind an entry that was read
          intro _
          have hnext : (pos + take) / h.cluster ≤ pos / h.cluster + 1 := by
            rw [← Nat.add_div_right _ (cluster_pos h)]
            exact Nat.div_le_div_right (by omega)
          have hentries : 0 < h.l2Entries := by
            unfold Head.l2Entries
            omega
          have hindex :
              (pos + take) / h.cluster / h.l2Entries ≤ pos / h.cluster / h.l2Entries + 1 := by
            rw [← Nat.add_div_right _ hentries]
            exact Nat.div_le_div_right (by omega)
          have hread := m.l1In
          omega
        · refine .inl ⟨by omega, ?_⟩
          rw [show add pos take = none from if_neg hfit]
          rfl
    · refine .inl ⟨⟨take - 1, by omega, by omega, fun c hc => ?_⟩, .error .io, ?_,
        fun b hb => by cases hb⟩
      · obtain ⟨-, hat⟩ :=
          @place_add file _ _ _ (show take - 1 < h.cluster - pos % h.cluster by omega)
        have hlt := (List.getElem?_eq_some_iff.mp hc.octet).1
        omega
      · rw [readExact, if_neg hfile]
        rfl
  · have hround : ∃ r', loopAt file h len (fuel + 1) pos out = some r' ∧
        ∀ b, r' ≠ .ok (some b) := by
      rw [loopAt, if_pos hmore]
      dsimp only
      rw [hr]
      cases r with
      | error e => exact ⟨.error e, rfl, fun b hb => by cases hb⟩
      | ok found =>
        cases found with
        | none => exact ⟨.ok none, rfl, fun b hb => by cases hb⟩
        | some p => exact absurd rfl (hnone p)
    exact .inl ⟨⟨0, by omega, hpos, fun c hc => hno hc.mapped⟩, hround⟩

/-- The rest of the range is stored. -/
structure Rest (file : Bytes) (h : Head) (pos n : Nat) (tail : Bytes) : Prop where
  length : tail.length = n
  inside : pos + n < 2 ^ 64
  stored : ∀ i c, tail[i]? = some c → Stored file h (pos + i) c

/-- **What the loop can do**: give the rest of the range, stop short of it, or run off
    the end of the offsets. -/
theorem loopAt_cases (hsmall : file.length < 2 ^ 63)
    (hbits : 9 ≤ h.clusterBits ∧ h.clusterBits ≤ 21) {len : Nat} (fuel : Nat) {pos : Nat}
    {out : Bytes} (hfuel : len - out.length < fuel) (hpos : pos < 2 ^ 64)
    (hl1 : out.length < len → L1Fits h pos) :
    (∃ tail, Rest file h pos (len - out.length) tail ∧
      loopAt file h len fuel pos out = some (.ok (some (out ++ tail)))) ∨
      ((∃ i < len - out.length, pos + i < 2 ^ 64 ∧ ∀ c, ¬ Stored file h (pos + i) c) ∧
        ∃ r, loopAt file h len fuel pos out = some r ∧ ∀ b, r ≠ .ok (some b)) ∨
      (2 ^ 64 ≤ pos + (len - out.length) ∧ (∀ q, pos ≤ q → q < 2 ^ 64 → ∃ c, Stored file h q c) ∧
        loopAt file h len fuel pos out = none) := by
  -- the induction is on the fuel; each round takes at least one octet
  induction fuel generalizing pos out with
  | zero => omega
  | succ fuel ih =>
    by_cases hmore : out.length < len
    · obtain ⟨take, hpos0, hle, hround⟩ := loopAt_round hsmall hbits fuel hpos (hl1 hmore) hmore
      -- the cluster gives nothing, or a chunk of what is wanted
      rcases hround with ⟨⟨i, hi, hlow, hno⟩, hr⟩ | ⟨chunk, hlen, hchunk, hnext⟩
      · exact .inr (.inl ⟨⟨i, by omega, hlow, hno⟩, hr⟩)
      have hhere : ∀ q, pos ≤ q → q < pos + take → ∃ c, Stored file h q c := by
        intro q hq hlt
        obtain ⟨i, rfl⟩ := Nat.exists_eq_add_of_le hq
        exact ⟨_, hchunk i _ (List.getElem?_eq_getElem (show i < chunk.length by omega))⟩
      -- the next position is past 64 bits, or the loop goes on
      rcases hnext with ⟨hend, hnone⟩ | ⟨hfit, hl1', heq⟩
      · exact .inr (.inr ⟨by omega, fun q hq hlt => hhere q hq (by omega), hnone⟩)
      rw [heq]
      have hlen' : (out ++ chunk).length = out.length + take := by rw [List.length_append, hlen]
      have hrest := @ih (pos + take) (out ++ chunk) (by omega) hfit fun _ => hl1'
      rw [hlen'] at hrest
      rcases hrest with ⟨tail, htail, hok⟩ | ⟨⟨i, hi, hlow, hno⟩, hr⟩ | ⟨hover, hall, hnone⟩
      · refine .inl ⟨chunk ++ tail, ⟨?_, ?_, ?_⟩, ?_⟩
        · rw [List.length_append, hlen, htail.length]
          omega
        · have := htail.inside
          omega
        · intro i c hi
          -- an octet of this chunk, or of a later one
          by_cases hfirst : i < chunk.length
          · rw [List.getElem?_append_left hfirst] at hi
            exact hchunk i c hi
          · rw [List.getElem?_append_right (by omega), hlen] at hi
            have hs := htail.stored _ c hi
            rwa [show pos + take + (i - take) = pos + i by omega] at hs
        · rw [hok, List.append_assoc]
      · refine .inr (.inl ⟨⟨take + i, by omega, by omega, fun c hc => hno c ?_⟩, hr⟩)
        rwa [Nat.add_assoc]
      -- the loop runs off the end later on: all octets up to there are stored
      · refine .inr (.inr ⟨by omega, fun q hq hlt => ?_, hnone⟩)
        by_cases hfirst : q < pos + take
        · exact hhere q hq hfirst
        · exact hall q (by omega) hlt
    · refine .inl ⟨[], ⟨?_, by omega, fun i c hi => by cases hi⟩, ?_⟩
      · rw [List.length_nil]
        omega
      · rw [loopAt, if_neg hmore, List.append_nil]
        rfl

end

/-! ## The whole reader -/

/-- The reader takes the file for an image. -/
structure Readable (file : Bytes) : Prop where
  long : 48 ≤ file.length
  magic : slice file 0 4 = MAGIC
  clusterBits : 9 ≤ (headOf file).clusterBits ∧ (headOf file).clusterBits ≤ 21

theorem headOf_slice (file : Bytes) : headOf (slice file 0 48) = headOf file := by
  unfold headOf
  rw [be32_slice (by omega), be32_slice (by omega), be64, slice_slice (by omega), be64,
    Nat.zero_add, Nat.zero_add, Nat.zero_add]

/-- An image that can be read is read cluster by cluster, as long as the buffer can be had. -/
theorem readAt_of_readable {file : Bytes} (hr : Readable file) (offset len : Nat) :
    readAt file offset len =
      if len ≤ maxCapacity then loopAt file (headOf file) len (len + 1) offset [] else none := by
  have hmagic : slice (slice file 0 48) 0 4 = MAGIC := by
    rw [slice_slice (by omega)]
    exact hr.magic
  unfold readAt
  rw [readExact, if_pos (by have := hr.long; omega), Steps.ok_bind, if_neg (not_not.mpr hmagic)]
  dsimp only
  rw [headOf_slice, if_pos hr.clusterBits, withCapacity]
  split
  · exact Steps.lift_bind rfl _
  · rfl

/-- Of any other no range is read. -/
theorem readAt_of_not_readable {file : Bytes} (hr : ¬ Readable file) (offset len : Nat) :
    ∃ r, readAt file offset len = some r ∧ ∀ b, r ≠ .ok (some b) := by
  unfold readAt
  by_cases hlong : 0 + 48 ≤ file.length
  · rw [readExact, if_pos hlong, Steps.ok_bind]
    by_cases hmagic : slice (slice file 0 48) 0 4 ≠ MAGIC
    · exact ⟨.ok none, if_pos hmagic, fun b hb => by cases hb⟩
    · rw [if_neg hmagic]
      dsimp only
      rw [headOf_slice]
      refine ⟨.ok none, if_neg fun hbits => hr ⟨by omega, ?_, hbits⟩, fun b hb => by cases hb⟩
      rw [← not_not.mp hmagic, slice_slice (by omega)]
  · rw [readExact, if_neg hlong]
    exact ⟨.error .io, rfl, fun b hb => by cases hb⟩

/-- The reader overflows: the capacity for the range, in the L1 table, at the first cluster
    of the range, or behind the last of the 64-bit offsets, when all of the disk from
    `offset` up to there is stored. -/
def Overflows (file : Bytes) (offset len : Nat) : Prop :=
  Readable file ∧ (maxCapacity < len ∨ 0 < len ∧ (¬ L1Fits (headOf file) offset ∨
    2 ^ 64 ≤ offset + len ∧ ∀ pos, offset ≤ pos → pos < 2 ^ 64 →
    ∃ c, Stored file (headOf file) pos c))

/-- Where the first table runs over, so does the reader. -/
theorem loopAt_of_not_l1Fits {file : Bytes} {h : Head} {len pos : Nat} {out : Bytes} (fuel : Nat)
    (hbits : 9 ≤ h.clusterBits) (hpos : pos < 2 ^ 64) (hmore : out.length < len)
    (hl1 : ¬ L1Fits h pos) :
    loopAt file h len (fuel + 1) pos out = none := by
  have hguest : pos / h.cluster < 2 ^ 60 := by
    refine Nat.lt_of_le_of_lt (Nat.div_le_div_left (le_cluster hbits) (by decide)) ?_
    omega
  unfold L1Fits at hl1
  rw [loopAt, if_pos hmore]
  dsimp only
  rw [hostAt_overflow hguest (by omega) (by omega)]
  rfl

/-- **What the reader can do**: overflow, give the range as it is stored, or give nothing because an
    octet of it is not stored. -/
theorem readAt_cases (s : Slice) {offset len : Nat} (hoffset : offset < 2 ^ 64) :
    (Overflows s.octets offset len ∧ readAt s.octets offset len = none) ∨
      (¬ Overflows s.octets offset len ∧ ∃ bytes : Bytes, bytes.length = len ∧
        (∀ i c, bytes[i]? = some c → Stored s.octets (headOf s.octets) (offset + i) c) ∧
        readAt s.octets offset len = some (.ok (some bytes))) ∨
      (¬ Overflows s.octets offset len ∧
        (Readable s.octets → ∃ i < len, ∀ c, ¬ Stored s.octets (headOf s.octets) (offset + i) c) ∧
        ∃ r, readAt s.octets offset len = some r ∧ ∀ b, r ≠ .ok (some b)) := by
  -- a header that is not accepted gives nothing, whatever is asked for
  by_cases hr : Readable s.octets
  · rw [readAt_of_readable hr]
    -- the buffer for the whole length is asked for before anything is read
    by_cases hcap : len ≤ maxCapacity
    swap
    · exact .inl ⟨⟨hr, .inl (by omega)⟩, if_neg hcap⟩
    rw [if_pos hcap]
    by_cases hfits : 0 < len → L1Fits (headOf s.octets) offset
    · have hcases := @loopAt_cases _ _ s.small hr.clusterBits len (len + 1) offset []
        (by rw [List.length_nil]; omega) hoffset hfits
      rw [List.length_nil, Nat.sub_zero] at hcases
      -- the three ends of the loop, from the position asked for and with nothing read
      rcases hcases with ⟨tail, htail, hok⟩ | ⟨⟨i, hi, hlow, hno⟩, hres⟩ | ⟨hover, hall, hnone⟩
      · refine .inr (.inl ⟨?_, tail, htail.length, htail.stored, hok⟩)
        rintro ⟨-, hlong | ⟨hpos, hbad | ⟨hover, -⟩⟩⟩
        · omega
        · exact hbad (hfits hpos)
        · have := htail.inside
          omega
      · refine .inr (.inr ⟨?_, fun _ => ⟨i, hi, hno⟩, hres⟩)
        rintro ⟨-, hlong | ⟨hpos, hbad | ⟨-, hall⟩⟩⟩
        · omega
        · exact hbad (hfits hpos)
        -- an octet that is stored nowhere, which is what the overflow rules out
        · obtain ⟨c, hc⟩ := hall (offset + i) (by omega) hlow
          exact hno c hc
      · exact .inl ⟨⟨hr, .inr ⟨by omega, .inr ⟨hover, hall⟩⟩⟩, hnone⟩
    · rw [Classical.not_imp] at hfits
      exact .inl ⟨⟨hr, .inr ⟨hfits.1, .inl hfits.2⟩⟩,
        loopAt_of_not_l1Fits _ hr.clusterBits.1 hoffset hfits.1 hfits.2⟩
  · refine .inr (.inr ⟨fun h => hr h.1, fun h => absurd h hr, readAt_of_not_readable hr _ _⟩)

/-! ## Where the reader and the disk agree -/

/-- The stored octet `c` at `pos` is the disk's: `pos` is on the disk, `c` is zero where the cluster
    reads as zeros, and else the image is not encrypted, or the cipher leaves the octet as it is. -/
structure Plain (K : Codec) (file : Bytes) (pos : Nat) (c : UInt8) : Prop where
  inDisk : pos < size file
  zero : ReadsAsZeros file (headOf file) pos → c = 0
  cipher : ¬ ReadsAsZeros file (headOf file) pos → cryptMethod file ≠ 0 →
    K.decipher file (place file (headOf file) pos) = c

/-- What is stored at a place is what the guest sees. -/
theorem guestOctet_iff (K : Codec) {file : Bytes} {pos : Nat} {c : UInt8}
    (hs : Stored file (headOf file) pos c) :
    guestOctet K file pos = some c ↔ Plain K file pos c := by
  have m := hs.mapped
  have hget : file.getD (place file (headOf file) pos) 0 = c := by
    rw [List.getD_eq_getElem?_getD, hs.octet]
    rfl
  unfold guestOctet
  dsimp only
  by_cases hend : size file ≤ pos
  · rw [if_pos (.inl hend)]
    exact ⟨fun h => (by cases h), fun h => by have := h.inDisk; omega⟩
  have hin : ¬ (size file ≤ pos ∨ (headOf file).l1Len ≤ pos / (headOf file).cluster /
      (headOf file).l2Entries) := by
    have := m.l1
    omega
  rw [if_neg hin, if_neg m.table, if_neg (not_not.mpr m.standard)]
  by_cases hzero : ReadsAsZeros file (headOf file) pos
  · rw [if_pos hzero, Option.some_inj]
    exact ⟨fun h => ⟨by omega, fun _ => h.symm, fun hn => absurd hzero hn⟩,
      fun h => (h.zero hzero).symm⟩
  rw [if_neg hzero, if_neg m.host]
  by_cases hcrypt : cryptMethod file ≠ 0
  · rw [if_pos hcrypt, Option.some_inj]
    exact ⟨fun h => ⟨by omega, fun hz => absurd hz hzero, fun _ _ => h⟩,
      fun h => h.cipher hzero hcrypt⟩
  · rw [if_neg hcrypt, hget]
    exact ⟨fun _ => ⟨by omega, fun hz => absurd hz hzero, fun _ hc => absurd hc hcrypt⟩,
      fun _ => rfl⟩

/-- The reader ends without overflow, and what it gives of an image is the range of the disk. -/
def Agrees (K : Codec) (file : Bytes) (offset len : Nat) : Prop :=
  ∃ r, readAt file offset len = some r ∧ (Standard file → ∀ bytes : Bytes, r = .ok (some bytes) →
    bytes.length = len ∧ ∀ i < len, guestOctet K file (offset + i) = bytes[i]?)

/-- The reader does not overflow, and where all of the range is stored in an image, each stored
    octet is the disk's. -/
def ReadsPlain (K : Codec) (file : Bytes) (offset len : Nat) : Prop :=
  ¬ Overflows file offset len ∧ (Standard file →
    (∀ i < len, ∃ c, Stored file (headOf file) (offset + i) c) →
      ∀ i < len, ∀ c, Stored file (headOf file) (offset + i) c → Plain K file (offset + i) c)

/-- A standard image can be read. -/
theorem Standard.readable {file : Bytes} (h : Standard file) : Readable file := by
  have := h.long
  exact ⟨by omega, h.magic, h.clusterBits⟩

/-- **The reader agrees with the disk exactly where the stored octets are the disk's**,
    and it does not overflow. -/
theorem readAt_agrees_iff (K : Codec) (s : Slice) (offset len : UInt64) :
    Agrees K s.octets offset.toNat len.toNat ↔ ReadsPlain K s.octets offset.toNat len.toNat := by
  generalize hn : len.toNat = n
  rcases @readAt_cases s offset.toNat n offset.toNat_lt with
    ⟨hover, hnone⟩ | ⟨hover, bytes, hlen, hstored, hok⟩ | ⟨hover, hmissing, r, hr, hnot⟩
  · constructor
    · rintro ⟨r, hr, -⟩
      rw [hnone] at hr
      cases hr
    · exact fun h => absurd hover h.1
  -- the reader gives the range: its octets are the stored ones
  · have hat : ∀ i, i < n → ∃ c, bytes[i]? = some c := fun i hi =>
      ⟨_, List.getElem?_eq_getElem (hlen ▸ hi)⟩
    constructor
    · rintro ⟨r, hr, h⟩
      refine ⟨hover, fun hstd _ i hi c hc => ?_⟩
      obtain rfl := Option.some_inj.mp (hok.symm.trans hr)
      obtain ⟨c', hc'⟩ := hat i hi
      have hs := hstored i c' hc'
      obtain rfl : c' = c := Option.some_inj.mp (hs.octet.symm.trans hc.octet)
      exact (guestOctet_iff K hs).mp (((h hstd bytes rfl).2 i hi).trans hc')
    · rintro ⟨-, h⟩
      refine ⟨_, hok, fun hstd b hb => ?_⟩
      cases hb
      refine ⟨hlen, fun i hi => ?_⟩
      obtain ⟨c, hc⟩ := hat i hi
      have hs := hstored i c hc
      rw [hc, guestOctet_iff K hs]
      -- all of the range is stored, or the reader had not given it
      refine h hstd (fun j hj => ?_) i hi c hs
      obtain ⟨c', hc'⟩ := hat j hj
      exact ⟨c', hstored j c' hc'⟩
  -- it gives nothing, and some octet is stored nowhere
  · constructor
    · rintro -
      refine ⟨hover, fun hstd hall => ?_⟩
      obtain ⟨i, hi, hno⟩ := hmissing hstd.readable
      obtain ⟨c, hc⟩ := hall i hi
      exact absurd hc (hno c)
    · rintro -
      exact ⟨r, hr, fun _ b hb => absurd hb (hnot b)⟩

/-! ### A cluster that reads as zeros -/

/-- The header of an image of version 3 with clusters of 512 octets: 512 octets of disk, one entry
    in the L1 table at
    512. -/
def zeroHeader : Bytes :=
  MAGIC ++ [0, 0, 0, 3] ++ List.replicate 8 0 ++ List.replicate 4 0 ++ [0, 0, 0, 9] ++
    [0, 0, 0, 0, 0, 0, 2, 0] ++
    [0, 0, 0, 0] ++ [0, 0, 0, 1] ++ [0, 0, 0, 0, 0, 0, 2, 0] ++ List.replicate 24 0 ++
      List.replicate 8 0 ++
    List.replicate 24 0

/-- The L1 table points at 1024, and the entry there at 1536, with bit 0: the cluster was kept when
    it was zeroed. -/
def zeroFile : Bytes :=
  zeroHeader ++ List.replicate 408 0 ++ [0x80, 0, 0, 0, 0, 0, 4, 0] ++ List.replicate 504 0 ++
    [0x80, 0, 0, 0, 0, 0, 6, 1] ++ List.replicate 504 0 ++ List.replicate 512 7

/-- What was stored in a cluster before it was zeroed comes back. -/
theorem zeroed_cluster_read :
    ¬ ∀ (K : Codec) (s : Slice) (offset len : UInt64),
    Agrees K s.octets offset.toNat len.toNat := by
  intro h
  obtain ⟨r, hr, hagree⟩ := h ⟨fun _ _ _ => 0, fun _ _ => 0⟩ ⟨zeroFile, by decide +kernel⟩ 0 1
  have hread : @Eq (Option (Except ReadError (Option Bytes))) (readAt zeroFile 0 1)
      (some (.ok (some [7]))) := by
    decide +kernel
  obtain rfl := Option.some_inj.mp (hread.symm.trans hr)
  have hstd : Standard zeroFile :=
    ⟨by decide +kernel, by decide +kernel,
      .inr ⟨by decide +kernel, by decide +kernel, by decide +kernel⟩, by decide +kernel, by
    decide⟩
  have hzero : guestOctet ⟨fun _ _ _ => 0, fun _ _ => 0⟩ zeroFile 0 = some 0 := by decide +kernel
  have hfirst := (hagree hstd [7] rfl).2 0 (by decide)
  rw [show (0 : UInt64).toNat + 0 = 0 from rfl, hzero] at hfirst
  cases hfirst

end CdjEmu.Qcow2
