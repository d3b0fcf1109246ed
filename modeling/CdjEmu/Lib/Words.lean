/-
  LITTLE-ENDIAN WORDS, RECORDS AND CRC-32 — what on-disk tables are made of.

  `toLe n v` is `v` as `n` octets, the least significant first; `le b i n` reads such a word at `i`.
  A record is a list of fields, written one behind the other: `slice_fields` reads a field back at
  the sum of the lengths before it, so a table is proved from the list of its fields and never by
  unfolding its octets.
-/
import CdjEmu.Lib.Buffer

namespace CdjEmu

/-- `v` as `n` octets, the least significant first. -/
def toLe : Nat → Nat → Bytes
  | 0, _ => []
  | n + 1, v => UInt8.ofNat v :: toLe n (v / 256)

/-- Octets as a number, the least significant first. -/
def ofLe : Bytes → Nat
  | [] => 0
  | b :: bs => b.toNat + 256 * ofLe bs

/-- The word of `n` octets at `i`. -/
def le (b : Bytes) (i n : Nat) : Nat := ofLe (slice b i n)

@[simp] theorem length_toLe (n v : Nat) : (toLe n v).length = n := by
  induction n generalizing v with
  | zero => rfl
  | succ n ih => simp [toLe, ih]

theorem ofLe_toLe {n v : Nat} (h : v < 256 ^ n) : ofLe (toLe n v) = v := by
  induction n generalizing v with
  | zero =>
    have : v = 0 := by omega
    simp [toLe, ofLe, this]
  | succ n ih =>
    have hdiv : v / 256 < 256 ^ n := by
      rw [Nat.div_lt_iff_lt_mul (by omega)]
      rwa [Nat.pow_succ] at h
    rw [toLe, ofLe, ih hdiv, UInt8.toNat_ofNat']
    omega

/-! ## Records -/

/-- A field of a record, where the fields before it end. -/
theorem slice_fields {fs : List Bytes} {i : Nat} (h : i < fs.length) :
    slice fs.flatten (fs.take i).flatten.length fs[i].length = fs[i] := by
  have hsplit : fs.flatten = (fs.take i).flatten ++ (fs[i] ++ (fs.drop (i + 1)).flatten) := by
    rw [← List.flatten_cons, ← List.drop_eq_getElem_cons h, ← List.flatten_append,
      List.take_append_drop]
  rw [hsplit, slice_append_right _ (Nat.le_refl _), Nat.sub_self, slice, List.drop_zero,
    List.take_left]

/-- A field of a record at a known place. -/
theorem slice_field {fs : List Bytes} {f : Bytes} (i at' : Nat) {n : Nat} (hf : fs[i]? = some f)
    (hat : (fs.take i).flatten.length = at') (hn : f.length = n) : slice fs.flatten at' n = f := by
  obtain ⟨h, hget⟩ := List.getElem?_eq_some_iff.mp hf
  have := slice_fields h
  rw [hat, hget, hn] at this
  exact this

/-- Writing a field of the same length over one of a record. -/
theorem splice_field {fs : List Bytes} {f : Bytes} (i at' : Nat) {g : Bytes} (hf : fs[i]? = some f)
    (hat : (fs.take i).flatten.length = at') (hg : g.length = f.length) :
    splice fs.flatten at' g = (fs.set i g).flatten := by
  obtain ⟨h, hget⟩ := List.getElem?_eq_some_iff.mp hf
  have hsplit : fs.flatten = (fs.take i).flatten ++ (f ++ (fs.drop (i + 1)).flatten) := by
    rw [← hget, ← List.flatten_cons, ← List.drop_eq_getElem_cons h, ← List.flatten_append,
      List.take_append_drop]
  rw [List.set_eq_take_append_cons_drop, if_pos h, List.flatten_append, List.flatten_cons, splice,
    hsplit, ← hat]
  rw [List.take_left, ← List.drop_drop, List.drop_left, hg, List.drop_left, List.append_assoc]

/-- Of equal records laid behind one another, the one at a multiple of their length. -/
theorem slice_row {rows : List Bytes} {k n : Nat} (hlen : ∀ r ∈ rows, r.length = k) {row : Bytes}
    (h : rows[n]? = some row) :
    slice rows.flatten (n * k) k = row := by
  have hmem := List.mem_of_getElem? h
  refine slice_field n (n * k) h ?_ (hlen row hmem)
  have hn : n < rows.length := (List.getElem?_eq_some_iff.mp h).1
  have hall : ∀ l ∈ (rows.take n).map List.length, l = k := by
    intro l hl
    obtain ⟨r, hr, rfl⟩ := List.mem_map.mp hl
    exact hlen r (List.mem_of_mem_take hr)
  rw [List.length_flatten, List.eq_replicate_of_mem hall, List.sum_replicate, List.length_map,
    List.length_take]
  have : min n rows.length = n := by omega
  rw [this, smul_eq_mul]

/-! ## CRC-32 -/

/-- One bit of the reflected CRC with the polynomial 0x04C11DB7. -/
def crcBit (c : UInt32) : UInt32 := if c &&& 1 = 1 then (c >>> 1) ^^^ 0xEDB88320 else c >>> 1

def crcOctet (c : UInt32) (b : UInt8) : UInt32 := crcBit^[8] (c ^^^ b.toUInt32)

/-- `CRC_32_ISO_HDLC`. -/
def crc32 (b : Bytes) : UInt32 := b.foldl crcOctet 0xFFFFFFFF ^^^ 0xFFFFFFFF

example : crc32 (bytes "123456789") = 0xCBF43926 := by decide +kernel

end CdjEmu
