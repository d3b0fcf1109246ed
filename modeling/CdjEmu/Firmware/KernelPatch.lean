/-
  THE KERNEL PATCH — every `smc #0` of the kernel image becomes `hvc #0`.

  An instruction is an aligned word.  The scan looks at every offset, and where it finds the four
  octets of `smc #0` it writes the four of `hvc #0` and goes on behind them.  Two places with these
  octets never overlap, so it finds all of them (`patch_octet`); whether it rewrites instructions
  only is a matter of where they are (`patch_rewrites_iff`).

  1. **Program** — the scan and its count, as it goes over the image that was read.

  2. **Specification** — `Rewrites`: an aligned word that was `smc #0` is `hvc #0` afterwards, every
     other word is what it was, the count is that of the words, and a second patch finds none.

  3. **The crux (`patch_octet`)** — an octet changes exactly if it is the first of a place with the
     four octets, wherever that is; the octets of `hvc #0` make no new place.

  4. **Bridge** — a place that is not aligned lies in two words, and rewriting it changes one of
     them, which was no `smc #0`.
-/
import CdjEmu.Lib.Buffer

namespace CdjEmu.KernelPatch

def smc : Bytes := [0x03, 0x00, 0x00, 0xd4]

def hvc : Bytes := [0x02, 0x00, 0x00, 0xd4]

/-- The scan from offset `i`. -/
def loop (data : Bytes) (i count : Nat) : Bytes × Nat :=
  if _h : i + 4 ≤ data.length then
    if slice data i 4 = smc then loop (splice data i hvc) (i + 4) (count + 1)
    else loop data (i + 1) count
  else (data, count)
termination_by data.length - i
decreasing_by
  · have hlen : (splice data i hvc).length = data.length := length_splice _h
    omega
  · omega

/-- `patch_kernel_smc_to_hvc`, between reading the file and writing it: the image, and the count. -/
def patchKernelSmcToHvc (data : Bytes) : Bytes × Nat := loop data 0 0

/-! ## Places -/

theorem smc_iff {data : Bytes} {p : Nat} : slice data p 4 = smc ↔
    data[p]? = some 0x03 ∧ data[p + 1]? = some 0x00 ∧ data[p + 2]? = some 0x00 ∧
    data[p + 3]? = some 0xd4 := by
  constructor
  · intro h
    have hget : ∀ k < 4, data[p + k]? = smc[k]? := by
      intro k hk
      rw [← h, getElem?_slice, if_pos hk]
    exact ⟨hget 0 (by omega), hget 1 (by omega), hget 2 (by omega), hget 3 (by omega)⟩
  · rintro ⟨h0, h1, h2, h3⟩
    apply List.ext_getElem?
    intro k
    rw [getElem?_slice]
    match k with
    | 0 => exact h0
    | 1 => exact h1
    | 2 => exact h2
    | 3 => exact h3
    | k + 4 => rw [if_neg (by omega)]; rfl

theorem le_of_smc {data : Bytes} {p : Nat} (h : slice data p 4 = smc) : p + 4 ≤ data.length := by
  obtain ⟨-, -, -, h3⟩ := smc_iff.mp h
  have hlt := (List.getElem?_eq_some_iff.mp h3).1
  omega

/-- Two places do not overlap. -/
theorem smc_apart {data : Bytes} {p q : Nat} (hp : slice data p 4 = smc) (hq : slice data q 4 = smc)
    (hlt : p < q) :
    p + 4 ≤ q := by
  obtain ⟨-, h1, h2, h3⟩ := smc_iff.mp hp
  obtain ⟨h0, -⟩ := smc_iff.mp hq
  by_contra hnear
  have hcases : q = p + 1 ∨ q = p + 2 ∨ q = p + 3 := by omega
  obtain rfl | rfl | rfl := hcases
  · exact absurd (Option.some.inj (h1.symm.trans h0)) (by decide)
  · exact absurd (Option.some.inj (h2.symm.trans h0)) (by decide)
  · exact absurd (Option.some.inj (h3.symm.trans h0)) (by decide)

/-! ## The scan -/

theorem getElem?_splice_hvc {data : Bytes} {i : Nat} (hi : slice data i 4 = smc) (p : Nat) :
    (splice data i hvc)[p]? = if p = i then some 0x02 else data[p]? := by
  have hle := le_of_smc hi
  obtain ⟨h0, h1, h2, h3⟩ := smc_iff.mp hi
  have hinside : ∀ k < 4, (splice data i hvc)[i + k]? = hvc[k]? := by
    intro k hk
    have hback : slice (splice data i hvc) i 4 = hvc := slice_splice data hvc (by omega) rfl
    have hget := getElem?_slice (splice data i hvc) i 4 k
    rw [hback, if_pos hk] at hget
    exact hget.symm
  split
  · rename_i hp
    rw [hp]
    exact hinside 0 (by omega)
  · rename_i hp
    by_cases hfar : p < i ∨ i + 4 ≤ p
    · exact getElem?_splice_of_outside (by omega) hfar
    · have hcases : p = i + 1 ∨ p = i + 2 ∨ p = i + 3 := by omega
      obtain rfl | rfl | rfl := hcases
      · exact (hinside 1 (by omega)).trans h1.symm
      · exact (hinside 2 (by omega)).trans h2.symm
      · exact (hinside 3 (by omega)).trans h3.symm

/-- Behind a rewritten place the image has the places it had. -/
theorem smc_splice {data : Bytes} {i p : Nat} (hi : slice data i 4 = smc) (hp : i + 4 ≤ p) :
    slice (splice data i hvc) p 4 = slice data p 4 :=
  slice_splice_of_disjoint (by have := le_of_smc hi; omega) (Or.inr hp)

/-- **The scan rewrites every place from `i` on**, and nothing else. -/
theorem loop_octet (data : Bytes) (i count p : Nat) :
    (loop data i count).1[p]? = if i ≤ p ∧ slice data p 4 = smc then some 0x02 else data[p]? := by
  fun_induction loop data i count with
  | case1 data i count hle hsmc ih =>
    rw [ih]
    by_cases hfar : i + 4 ≤ p
    · rw [smc_splice hsmc hfar, getElem?_splice_hvc hsmc, if_neg (show p ≠ i by omega)]
      have hboth : i + 4 ≤ p ∧ slice data p 4 = smc ↔ i ≤ p ∧ slice data p 4 = smc :=
        ⟨fun h => ⟨by omega, h.2⟩, fun h => ⟨hfar, h.2⟩⟩
      rw [if_congr hboth rfl rfl]
    · rw [if_neg (fun h => hfar h.1), getElem?_splice_hvc hsmc]
      by_cases hpi : p = i
      · rw [if_pos hpi, if_pos ⟨by omega, hpi ▸ hsmc⟩]
      · rw [if_neg hpi, if_neg]
        rintro ⟨hge, hp⟩
        have := smc_apart hsmc hp (by omega)
        omega
  | case2 data i count hle hno ih =>
    rw [ih]
    have hboth : i + 1 ≤ p ∧ slice data p 4 = smc ↔ i ≤ p ∧ slice data p 4 = smc := by
      constructor
      · exact fun h => ⟨by omega, h.2⟩
      · rintro ⟨hge, hp⟩
        refine ⟨?_, hp⟩
        by_contra hnot
        obtain rfl : p = i := by omega
        exact hno hp
    rw [if_congr hboth rfl rfl]
  | case3 data i count hend =>
    rw [if_neg]
    rintro ⟨hge, hp⟩
    have := le_of_smc hp
    omega

theorem loop_length (data : Bytes) (i count : Nat) :
    (loop data i count).1.length = data.length := by
  fun_induction loop data i count with
  | case1 data i count hle hsmc ih => exact ih.trans (length_splice hle)
  | case2 data i count hle hno ih => exact ih
  | case3 data i count hend => rfl

/-- The number of places from `i` on. -/
def behind (data : Bytes) (i : Nat) : Nat := (List.range' i (data.length - i)).countP fun p =>
  slice data p 4 = smc

theorem behind_succ {data : Bytes} {i : Nat} (hi : i < data.length) :
    behind data i = behind data (i + 1) + if slice data i 4 = smc then 1 else 0 := by
  have hrange :
      List.range' i (data.length - i) = i :: List.range' (i + 1) (data.length - (i + 1)) := by
    rw [show data.length - i = data.length - (i + 1) + 1 by omega, List.range'_succ]
  rw [behind, hrange, List.countP_cons]
  simp only [decide_eq_true_eq]
  rfl

/-- A place is counted once, and none of the three offsets behind it is one. -/
theorem behind_place {data : Bytes} {i : Nat} (hi : slice data i 4 = smc) :
    behind data i = behind data (i + 4) + 1 := by
  have hle := le_of_smc hi
  have hnot : ∀ k, 1 ≤ k → k ≤ 3 → slice data (i + k) 4 ≠ smc := by
    intro k hk1 hk3 hp
    have := smc_apart hi hp (by omega)
    omega
  rw [behind_succ (by omega), if_pos hi, behind_succ (by omega),
    if_neg (hnot 1 (by omega) (by omega)), behind_succ (by omega),
    if_neg (hnot 2 (by omega) (by omega)), behind_succ (by omega),
    if_neg (hnot 3 (by omega) (by omega))]

theorem loop_count (data : Bytes) (i count : Nat) :
    (loop data i count).2 = count + behind data i := by
  fun_induction loop data i count with
  | case1 data i count hle hsmc ih =>
    have hsame : behind (splice data i hvc) (i + 4) = behind data (i + 4) := by
      have hlen : (splice data i hvc).length = data.length := length_splice hle
      rw [behind, behind, hlen]
      apply List.countP_congr
      intro p hp
      rw [smc_splice hsmc (List.mem_range'_1.mp hp).1]
    rw [ih, hsame, behind_place hsmc]
    omega
  | case2 data i count hle hno ih =>
    rw [ih, behind_succ (i := i) (by omega), if_neg hno]
    rfl
  | case3 data i count hend =>
    have hnone : behind data i = 0 := by
      apply List.countP_eq_zero.mpr
      intro p hp
      rw [decide_eq_true_iff]
      intro hsmc
      have := le_of_smc hsmc
      have := (List.mem_range'_1.mp hp).1
      omega
    rw [hnone, Nat.add_zero]

/-! ## What the patch is for -/

/-- The patch rewrites instructions and nothing else, and a second one finds none. -/
structure Rewrites (data : Bytes) (r : Bytes × Nat) : Prop where
  length : r.1.length = data.length
  word : ∀ k, slice data (4 * k) 4 = smc → slice r.1 (4 * k) 4 = hvc
  rest : ∀ p, slice data (4 * (p / 4)) 4 ≠ smc → r.1[p]? = data[p]?
  count : r.2 = (List.range (data.length / 4)).countP fun k => slice data (4 * k) 4 = smc
  again : patchKernelSmcToHvc r.1 = (r.1, 0)

variable (data : Bytes)

theorem patch_octet (p : Nat) :
    (patchKernelSmcToHvc data).1[p]? = if slice data p 4 = smc then some 0x02 else data[p]? := by
  rw [patchKernelSmcToHvc, loop_octet, if_congr (and_iff_right (Nat.zero_le p)) rfl rfl]

/-- A rewritten octet is the first of its place. -/
theorem patch_octet_of_ne {p : Nat} {c : UInt8} (hc : c ≠ 0x02)
    (h : (patchKernelSmcToHvc data).1[p]? = some c) :
    slice data p 4 ≠ smc ∧ data[p]? = some c := by
  rw [patch_octet] at h
  split at h
  · exact absurd (Option.some.inj h).symm hc
  · rename_i hno
    exact ⟨hno, h⟩

theorem patch_none_left (p : Nat) : slice (patchKernelSmcToHvc data).1 p 4 ≠ smc := by
  intro hsmc
  obtain ⟨h0, h1, h2, h3⟩ := smc_iff.mp hsmc
  obtain ⟨hno, h0⟩ := patch_octet_of_ne data (by decide) h0
  obtain ⟨-, h1⟩ := patch_octet_of_ne data (by decide) h1
  obtain ⟨-, h2⟩ := patch_octet_of_ne data (by decide) h2
  obtain ⟨-, h3⟩ := patch_octet_of_ne data (by decide) h3
  exact hno (smc_iff.mpr ⟨h0, h1, h2, h3⟩)

/-- An image without a place is left alone. -/
theorem patch_of_none {data : Bytes} (h : ∀ p, slice data p 4 ≠ smc) :
    patchKernelSmcToHvc data = (data, 0) := by
  apply Prod.ext
  · apply List.ext_getElem?
    intro p
    rw [patch_octet, if_neg (h p)]
  · rw [patchKernelSmcToHvc, loop_count, Nat.zero_add, behind]
    apply List.countP_eq_zero.mpr
    intro p _
    rw [decide_eq_true_iff]
    exact h p

theorem patch_word {p : Nat} (h : slice data p 4 = smc) :
    slice (patchKernelSmcToHvc data).1 p 4 = hvc := by
  obtain ⟨-, h1, h2, h3⟩ := smc_iff.mp h
  have hkept : ∀ k, 1 ≤ k → k ≤ 3 → (patchKernelSmcToHvc data).1[p + k]? = data[p + k]? := by
    intro k hk1 hk3
    rw [patch_octet, if_neg]
    intro hp
    have := smc_apart h hp (by omega)
    omega
  apply List.ext_getElem?
  intro k
  rw [getElem?_slice]
  match k with
  | 0 => exact (patch_octet data p).trans (if_pos h)
  | 1 => exact (hkept 1 (by omega) (by omega)).trans h1
  | 2 => exact (hkept 2 (by omega) (by omega)).trans h2
  | 3 => exact (hkept 3 (by omega) (by omega)).trans h3
  | k + 4 =>
    rw [if_neg (by omega)]
    rfl

/-- Where every place is a word, the places are as many as the words. -/
theorem count_words {data : Bytes} (h : ∀ p, slice data p 4 = smc → p % 4 = 0) :
    behind data 0 = (List.range (data.length / 4)).countP fun k => slice data (4 * k) 4 = smc := by
  have hwords : ∀ m, (List.range (4 * m)).countP (fun p => slice data p 4 = smc) =
      (List.range m).countP fun k => slice data (4 * k) 4 = smc := by
    intro m
    induction m with
    | zero => rfl
    | succ m ih =>
      have hnot : ∀ k, 1 ≤ k → k ≤ 3 → decide (slice data (4 * m + k) 4 = smc) = false := by
        intro k hk1 hk3
        rw [decide_eq_false_iff_not]
        intro hp
        have := h _ hp
        omega
      rw [show 4 * (m + 1) = 4 * m + 1 + 1 + 1 + 1 by omega, List.range_succ, List.range_succ,
        List.range_succ, List.range_succ, List.range_succ]
      simp only [List.countP_append, List.countP_singleton, ih, hnot 1 (by omega) (by omega),
        hnot 2 (by omega) (by omega), hnot 3 (by omega) (by omega), Bool.false_eq_true, if_false,
        Nat.add_zero]
  rw [← hwords, behind, Nat.sub_zero, ← List.range_eq_range']
  have htail : List.range data.length = List.range (4 * (data.length / 4)) ++
      (List.range (data.length % 4)).map (4 * (data.length / 4) + ·) := by
    rw [← List.range_add, Nat.div_add_mod]
  rw [htail, List.countP_append]
  have hnone : ((List.range (data.length % 4)).map (4 * (data.length / 4) + ·)).countP
      (fun p => slice data p 4 = smc) = 0 := by
    apply List.countP_eq_zero.mpr
    intro p hp
    obtain ⟨k, hk, rfl⟩ := List.mem_map.mp hp
    rw [List.mem_range] at hk
    rw [decide_eq_true_iff]
    intro hsmc
    have := le_of_smc hsmc
    omega
  rw [hnone, Nat.add_zero]

/-- A place between words would be rewritten. -/
theorem aligned_of_rewrites {data : Bytes} (h : Rewrites data (patchKernelSmcToHvc data)) {p : Nat}
    (hp : slice data p 4 = smc) : p % 4 = 0 := by
  by_contra hodd
  have hword : slice data (4 * (p / 4)) 4 ≠ smc := by
    intro hq
    have := smc_apart hq hp (by omega)
    omega
  have hkept := h.rest p hword
  rw [patch_octet, if_pos hp, (smc_iff.mp hp).1] at hkept
  exact absurd (Option.some.inj hkept) (by decide)

/-- **The patch rewrites instructions and nothing else** if and only if the octets of `smc #0` stand
    at aligned offsets only. -/
theorem patch_rewrites_iff : Rewrites data (patchKernelSmcToHvc data) ↔ ∀ p, slice data p 4 = smc →
    p % 4 = 0 := by
  constructor
  · intro h p hp
    exact aligned_of_rewrites h hp
  · intro h
    refine ⟨loop_length data 0 0, fun k hk => patch_word data hk, ?_, ?_,
      patch_of_none (patch_none_left data)⟩
    · intro p hword
      rw [patch_octet, if_neg]
      intro hp
      have := h p hp
      rw [show 4 * (p / 4) = p by omega] at hword
      exact hword hp
    · rw [patchKernelSmcToHvc, loop_count, Nat.zero_add]
      exact count_words h

/-- In data that straddles two words the octets of `smc #0` are rewritten too. -/
theorem straddling_octets_rewritten : ¬ ∀ data, Rewrites data (patchKernelSmcToHvc data) := by
  intro hall
  have h : 1 % 4 = 0 := aligned_of_rewrites (hall [0x00, 0x03, 0x00, 0x00, 0xd4, 0x00, 0x00, 0x00])
      (by decide)
  exact absurd h (by decide)

end CdjEmu.KernelPatch
