/-
  THE JOG FRAME — the region the guest and the host share, and how the guest draws into it.

  The panel is 320×240; the player's own buffer is stretched four times in width and begins in its
  column 1024. `extractToShm` makes one 32-bit store for each pixel of the panel.  No octet is left
  out (`stored`), so what was drawn before does not show through (`extractToShm_eq`).
-/
import CdjEmu.Lib.Octets

namespace CdjEmu.Jog

/-- `JOG_OUT_W`, `JOG_FB_W`. -/
def jogOutW : Nat := 320

/-- `JOG_OUT_H`, `JOG_FB_H`. -/
def jogOutH : Nat := 240

/-- `JOG_OUT_BYTES`, `FRAME_BYTES`. -/
def frameBytes : Nat := jogOutW * jogOutH * 4

abbrev Frame := Octets frameBytes

/-- What `jog.shm` holds behind its magic. -/
structure Region where
  seq : UInt32
  width : UInt16
  height : UInt16
  format : UInt32
  pixels : Frame

/-- `JOG_SHM_FMT_XRGB8888`. -/
def fmtXrgb8888 : UInt32 := 1

/-- A new file that `jog_shm_init_once` has prepared. -/
def Region.initOnce : Region :=
  ⟨0, UInt16.ofNat jogOutW, UInt16.ofNat jogOutH, fmtXrgb8888, Octets.zero frameBytes⟩

/-- The stores of `extract_to_shm`, in its order: the pixel of the panel and
    the word of the source. -/
def stores : List (Nat × Nat) :=
  (List.range jogOutH).flatMap fun row =>
    ((List.range 64).map fun i => (row * jogOutW + i, row * (jogOutW * 4) + 1024 + i * 4)) ++
      (List.range 256).map fun j => (row * jogOutW + (64 + j), row * (jogOutW * 4) + j * 4)

/-- The octet `k` of a word, the lowest first. -/
def octet (v : UInt32) (k : Nat) : UInt8 := UInt8.ofNat (v.toNat / 256 ^ k)

/-- `out[p] = v`. -/
def storePixel (f : Frame) (p : Nat) (v : UInt32) : Frame :=
  (((f.store (4 * p) (octet v 0)).store (4 * p + 1) (octet v 1)).store (4 * p + 2)
    (octet v 2)).store (4 * p + 3) (octet v 3)

def storeAll (src : Nat → UInt32) (f : Frame) (l : List (Nat × Nat)) : Frame :=
  l.foldl (fun f st => storePixel f st.1 (src st.2)) f

def extractToShm (src : Nat → UInt32) (f : Frame) : Frame := storeAll src f stores

/-- The frame that a publish draws. -/
def frameOf (src : Nat → UInt32) : Frame := extractToShm src (Octets.zero frameBytes)

/-! ## Every octet is drawn -/

/-- A store draws the four octets of its pixel, whatever was there, and no others. -/
theorem byte_storePixel (f : Frame) (p : Nat) (v : UInt32) {i : Nat} (hi : i < frameBytes) :
    (storePixel f p v).byte i = if i / 4 = p then octet v (i % 4) else f.byte i := by
  unfold storePixel
  simp only [Octets.byte_store]
  by_cases hp : i / 4 = p
  · have hcases : i = 4 * p ∨ i = 4 * p + 1 ∨ i = 4 * p + 2 ∨ i = 4 * p + 3 := by omega
    rw [if_pos hp]
    rcases hcases with h | h | h | h
    · have hmod : i % 4 = 0 := by omega
      rw [hmod, if_neg (by omega), if_neg (by omega), if_neg (by omega), if_pos (by omega)]
    · have hmod : i % 4 = 1 := by omega
      rw [hmod, if_neg (by omega), if_neg (by omega), if_pos (by omega)]
    · have hmod : i % 4 = 2 := by omega
      rw [hmod, if_neg (by omega), if_pos (by omega)]
    · have hmod : i % 4 = 3 := by omega
      rw [hmod, if_pos (by omega)]
  · rw [if_neg hp, if_neg (by omega), if_neg (by omega), if_neg (by omega), if_neg (by omega)]

@[simp] theorem storeAll_nil (src : Nat → UInt32) (f : Frame) : storeAll src f [] = f := rfl

@[simp] theorem storeAll_cons (src : Nat → UInt32) (f : Frame) (st : Nat × Nat)
    (l : List (Nat × Nat)) :
    storeAll src f (st :: l) = storeAll src (storePixel f st.1 (src st.2)) l := rfl

/-- Where two frames agree, and where a pixel is drawn, they agree afterwards. -/
theorem storeAll_congr (src : Nat → UInt32) {l : List (Nat × Nat)} {f g : Frame} {i : Nat}
    (hi : i < frameBytes) (h : f.byte i = g.byte i ∨ ∃ st ∈ l, st.1 = i / 4) :
    (storeAll src f l).byte i = (storeAll src g l).byte i := by
  induction l generalizing f g with
  | nil =>
    rcases h with h | ⟨st, hst, -⟩
    · exact h
    · exact absurd hst List.not_mem_nil
  | cons st l ih =>
    rw [storeAll_cons, storeAll_cons]
    apply ih
    rw [byte_storePixel f _ _ hi, byte_storePixel g _ _ hi]
    by_cases hp : i / 4 = st.1
    · left
      rw [if_pos hp, if_pos hp]
    · rw [if_neg hp, if_neg hp]
      rcases h with h | ⟨st', hmem, heq⟩
      · exact .inl h
      · rcases List.mem_cons.mp hmem with rfl | hmem
        · exact absurd heq.symm hp
        · exact .inr ⟨st', hmem, heq⟩

/-- There is a store for each pixel. -/
theorem stored {p : Nat} (hp : p < jogOutW * jogOutH) : ∃ st ∈ stores, st.1 = p := by
  have hrow : p / jogOutW < jogOutH := Nat.div_lt_of_lt_mul hp
  have hcol : p % jogOutW < jogOutW := Nat.mod_lt _ (by decide)
  have hsplit : p / jogOutW * jogOutW + p % jogOutW = p := Nat.div_add_mod' p jogOutW
  unfold stores
  simp only [List.mem_flatMap, List.mem_append, List.mem_map, List.mem_range]
  by_cases hleft : p % jogOutW < 64
  · exact ⟨_, ⟨p / jogOutW, hrow, .inl ⟨p % jogOutW, hleft, rfl⟩⟩, hsplit⟩
  · have hw : jogOutW = 320 := rfl
    refine ⟨_, ⟨p / jogOutW, hrow, .inr ⟨p % jogOutW - 64, by omega, rfl⟩⟩, ?_⟩
    show p / jogOutW * jogOutW + (64 + (p % jogOutW - 64)) = p
    omega

/-- **A publish draws the whole frame.**  What memory held before does not matter. -/
theorem extractToShm_eq (src : Nat → UInt32) (f : Frame) : extractToShm src f = frameOf src := by
  apply Octets.ext_byte
  intro i hi
  have hpixel : i / 4 < jogOutW * jogOutH := by
    have hbytes : frameBytes = jogOutW * jogOutH * 4 := rfl
    omega
  rw [frameOf, extractToShm, extractToShm]
  exact storeAll_congr src hi (.inr (stored hpixel))

end CdjEmu.Jog
