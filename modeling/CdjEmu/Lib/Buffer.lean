/-
  BUFFERS — byte strings that are read and written in place.

  `slice b i n` reads `n` octets at `i`; `splice b i src` writes `src` over the octets at `i`.  The
  lemmas say what a write does NOT touch (`slice_splice_of_disjoint`, `getElem?_splice_of_outside`)
  and what it leaves where it wrote (`slice_splice`), so a sequence of writes into one buffer is
  followed by the ranges it names and never by unfolding the lists.

  `be32`, `toBe32` and `be16` are the big-endian words of on-disk headers.
-/
import CdjEmu.Lib.Text

namespace CdjEmu

/-- `n` octets of `b` from `i` on. -/
def slice (b : Bytes) (i n : Nat) : Bytes := (b.drop i).take n

/-- `b` with `src` written over the octets at `i`. -/
def splice (b : Bytes) (i : Nat) (src : Bytes) : Bytes := b.take i ++ src ++ b.drop (i + src.length)

/-! ## Reading -/

/-- A slice behind `a` is a slice of what follows. -/
theorem slice_append_right {a : Bytes} (b : Bytes) {i : Nat} (h : a.length ≤ i) (n : Nat) :
    slice (a ++ b) i n = slice b (i - a.length) n := by
  rw [slice, List.drop_append, List.drop_eq_nil_of_le h, List.nil_append]
  rfl

/-- A slice inside `a` does not see what follows. -/
theorem slice_append_left {a : Bytes} (b : Bytes) {i n : Nat} (h : i + n ≤ a.length) :
    slice (a ++ b) i n = slice a i n := by
  rw [slice, slice, List.drop_append_of_le_length (by omega), List.take_append_of_le_length]
  rw [List.length_drop]
  omega

theorem length_slice {b : Bytes} {i n : Nat} (h : i + n ≤ b.length) : (slice b i n).length = n := by
  rw [slice, List.length_take, List.length_drop]
  omega

theorem getElem?_slice (b : Bytes) (i n k : Nat) :
    (slice b i n)[k]? = if k < n then b[i + k]? else none := by
  rw [slice, List.getElem?_take]
  split
  · rw [List.getElem?_drop]
  · rfl

/-- Slices agree when the buffers agree on the octets they cover. -/
theorem slice_congr {b c : Bytes} {i j n : Nat}
    (h : ∀ k < n, (b : List UInt8)[i + k]? = (c : List UInt8)[j + k]?) :
    slice b i n = slice c j n := by
  apply List.ext_getElem?
  intro k
  rw [getElem?_slice, getElem?_slice]
  split
  · rename_i hk
    exact h k hk
  · rfl

theorem slice_slice {b : Bytes} {i n j m : Nat} (h : j + m ≤ n) :
    slice (slice b i n) j m = slice b (i + j) m := by
  apply slice_congr
  intro k hk
  rw [getElem?_slice, if_pos (by omega), Nat.add_assoc]

/-- Two slices one behind the other. -/
theorem slice_add (b : Bytes) (i m n : Nat) :
    slice b i (m + n) = slice b i m ++ slice b (i + m) n := by
  rw [slice, slice, slice, List.take_add, List.drop_drop]

/-- A buffer whose octets from `i` on start with `a`. -/
theorem slice_of_start {a b : Bytes} {i : Nat} (h : a <+: b.drop i) : slice b i a.length = a :=
  (List.prefix_iff_eq_take.mp h).symm

theorem le_of_start {a b : Bytes} {i : Nat} (h : a <+: b.drop i) (hne : a ≠ []) :
    i + a.length ≤ b.length := by
  have hlen := h.length_le
  have hpos := List.length_pos_iff.mpr hne
  rw [List.length_drop] at hlen
  omega

theorem start_append {a c b : Bytes} {i : Nat} (h : a ++ c <+: b.drop i) :
    c <+: b.drop (i + a.length) := by
  obtain ⟨t, ht⟩ := h
  refine ⟨t, ?_⟩
  rw [← List.drop_drop, ← ht, List.append_assoc, List.drop_left]

/-! ## Writing -/

theorem length_splice {b src : Bytes} {i : Nat} (h : i + src.length ≤ b.length) :
    (splice b i src).length = b.length := by
  rw [splice, List.length_append, List.length_append, List.length_take, List.length_drop]
  omega

theorem getElem?_splice_of_outside {b src : Bytes} {i k : Nat} (hi : i ≤ b.length)
    (h : k < i ∨ i + src.length ≤ k) : (splice b i src)[k]? = b[k]? := by
  have htake : (b.take i).length = i := by
    rw [List.length_take]
    omega
  rw [splice, List.append_assoc]
  rcases h with h | h
  · rw [List.getElem?_append_left (by omega), List.getElem?_take_of_lt h]
  · rw [List.getElem?_append_right (by omega), htake, List.getElem?_append_right (by omega),
      List.getElem?_drop]
    congr 1
    omega

/-- What was written is read back. -/
theorem slice_splice (b src : Bytes) {i n : Nat} (hi : i ≤ b.length) (hn : src.length = n) :
    slice (splice b i src) i n = src := by
  have htake : (b.take i).length = i := by
    rw [List.length_take]
    omega
  rw [splice, List.append_assoc, slice_append_right _ (by omega), htake, Nat.sub_self, slice,
    List.drop_zero, ← hn, List.take_left]

/-- A write does not reach a range it does not overlap. -/
theorem slice_splice_of_disjoint {b src : Bytes} {i j n : Nat} (hi : i ≤ b.length)
    (h : j + n ≤ i ∨ i + src.length ≤ j) : slice (splice b i src) j n = slice b j n := by
  apply slice_congr
  intro k hk
  exact getElem?_splice_of_outside hi (by omega)

/-- A write inside `a` leaves what follows. -/
theorem splice_append_left {a src : Bytes} (b : Bytes) {i : Nat} (h : i + src.length ≤ a.length) :
    splice (a ++ b) i src = splice a i src ++ b := by
  rw [splice, splice, List.take_append_of_le_length (by omega), List.drop_append_of_le_length h,
    List.append_assoc, List.append_assoc, List.append_assoc]

/-- A write behind `a` is a write into what follows. -/
theorem splice_append_right {a : Bytes} (b src : Bytes) {i : Nat} (h : a.length ≤ i) :
    splice (a ++ b) i src = a ++ splice b (i - a.length) src := by
  have htake : (a ++ b).take i = a ++ b.take (i - a.length) := by
    rw [List.take_append, List.take_of_length_le h]
  have hdrop : (a ++ b).drop (i + src.length) = b.drop (i - a.length + src.length) := by
    rw [List.drop_append, List.drop_eq_nil_of_le (by omega), List.nil_append]
    congr 1
    omega
  rw [splice, splice, htake, hdrop, List.append_assoc, List.append_assoc, List.append_assoc]

/-! ### Several writes -/

/-- The writes `ws`, one after the other: each a place and what is written there. -/
def writeAll (b : Bytes) (ws : List (Nat × Bytes)) : Bytes :=
  ws.foldl (fun b w => splice b w.1 w.2) b

/-- Two writes that do not touch the same octet. -/
def Apart (v w : Nat × Bytes) : Prop := v.1 + v.2.length ≤ w.1 ∨ w.1 + w.2.length ≤ v.1

/-- The writes stay inside a buffer of `n` octets. -/
def Inside (n : Nat) (ws : List (Nat × Bytes)) : Prop := ∀ w ∈ ws, w.1 + w.2.length ≤ n

theorem writeAll_cons (b : Bytes) (w : Nat × Bytes) (ws : List (Nat × Bytes)) :
    writeAll b (w :: ws) = writeAll (splice b w.1 w.2) ws := rfl

theorem writeAll_append (b : Bytes) (vs ws : List (Nat × Bytes)) :
    writeAll b (vs ++ ws) = writeAll (writeAll b vs) ws :=
  List.foldl_append

theorem length_writeAll {b : Bytes} {ws : List (Nat × Bytes)} (hin : Inside b.length ws) :
    (writeAll b ws).length = b.length := by
  induction ws generalizing b with
  | nil => rfl
  | cons w ws ih =>
    have hlen : (splice b w.1 w.2).length = b.length := length_splice (hin w List.mem_cons_self)
    rw [writeAll_cons, ih, hlen]
    intro v hv
    rw [hlen]
    exact hin v (List.mem_cons_of_mem _ hv)

/-- What no write touches is as before. -/
theorem slice_writeAll_of_apart {b : Bytes} {ws : List (Nat × Bytes)} (hin : Inside b.length ws)
    {j n : Nat} (h : ∀ w ∈ ws, j + n ≤ w.1 ∨ w.1 + w.2.length ≤ j) :
    slice (writeAll b ws) j n = slice b j n := by
  induction ws generalizing b with
  | nil => rfl
  | cons w ws ih =>
    have hw := hin w List.mem_cons_self
    have hlen : (splice b w.1 w.2).length = b.length := length_splice hw
    rw [writeAll_cons, ih, slice_splice_of_disjoint (by omega) (h w List.mem_cons_self)]
    · intro v hv
      rw [hlen]
      exact hin v (List.mem_cons_of_mem _ hv)
    · exact fun v hv => h v (List.mem_cons_of_mem _ hv)

/-- **Writes that are apart are all there.** -/
theorem slice_writeAll {b : Bytes} {ws : List (Nat × Bytes)} (hin : Inside b.length ws)
    (hapart : ws.Pairwise Apart) {w : Nat × Bytes} (hw : w ∈ ws) :
    slice (writeAll b ws) w.1 w.2.length = w.2 := by
  induction ws generalizing b with
  | nil => cases hw
  | cons v ws ih =>
    obtain ⟨hv, hapart⟩ := List.pairwise_cons.mp hapart
    have hlen : (splice b v.1 v.2).length = b.length := length_splice (hin v List.mem_cons_self)
    have hin' : Inside (splice b v.1 v.2).length ws := by
      intro u hu
      rw [hlen]
      exact hin u (List.mem_cons_of_mem _ hu)
    rw [writeAll_cons]
    rcases List.mem_cons.mp hw with rfl | hw
    · have hplace := hin w List.mem_cons_self
      rw [slice_writeAll_of_apart hin' hv, slice_splice _ _ (by omega) rfl]
    · exact ih hin' hapart hw

/-! ## Big-endian words -/

/-- The octets `a b c d` as a number. -/
def word32 : Bytes → Nat
  | [a, b, c, d] => a.toNat * 2 ^ 24 + b.toNat * 2 ^ 16 + c.toNat * 2 ^ 8 + d.toNat
  | _ => 0

/-- The 32-bit word at `i`. -/
def be32 (b : Bytes) (i : Nat) : UInt32 := UInt32.ofNat (word32 (slice b i 4))

/-- The 16-bit word at `i`. -/
def be16 (b : Bytes) (i : Nat) : Nat :=
  match slice b i 2 with
  | [hi, lo] => hi.toNat * 2 ^ 8 + lo.toNat
  | _ => 0

/-- A 32-bit word as octets. -/
def toBe32 (v : UInt32) : Bytes :=
  [UInt8.ofNat (v.toNat / 2 ^ 24), UInt8.ofNat (v.toNat / 2 ^ 16), UInt8.ofNat (v.toNat / 2 ^ 8),
    UInt8.ofNat v.toNat]

@[simp] theorem length_toBe32 (v : UInt32) : (toBe32 v).length = 4 := rfl

theorem word32_toBe32 (v : UInt32) : word32 (toBe32 v) = v.toNat := by
  have := v.toNat_lt
  simp only [toBe32, word32, UInt8.toNat_ofNat']
  omega

/-- A word inside a slice is the word at the same place of the buffer. -/
theorem be32_slice {b : Bytes} {i n k : Nat} (h : k + 4 ≤ n) :
    be32 (slice b i n) k = be32 b (i + k) := by
  rw [be32, slice_slice h, be32]

theorem be32_of_slice {b : Bytes} {i : Nat} {v : UInt32} (h : slice b i 4 = toBe32 v) :
    be32 b i = v := by
  rw [be32, h, word32_toBe32]
  simp

end CdjEmu
