/-
  COMPARING TWO CAPTURES — the report of `compare` and the picture of `diff_image`.

  `compare` has a short cut: it looks at whole rows first, and of two equal rows it only counts the
  pixels that no mask covers.  The other walk, `for_each_pixel`, looks at every pixel and is what
  the picture is drawn from.

  1. `calls` is the list of all calls that `for_each_pixel` makes, so the walk is a fold over it.
  2. `compareRow_eq` — a row, skipped or not, is a fold over its calls.  In two equal rows no pixel
     differs.
  3. `Tallied` — what the counters say of the calls so far; `Tallied.concat` is the step.

  A region is the set of pixels it contains: the fractions it is given in are not modelled.

  1. **Program** — `compare` with its short cut for equal rows, `for_each_pixel` over all pixels,
     and `diff_image`, which paints a pixel by its kind.  The counters of the source's loop are the
     fields of `Scan`, with the bounds of the box at their first values.

  2. **Specification** — `visited` is what `for_each_pixel` calls its function with.  The report has
     to count it, its box has to be the smallest around the changed pixels (`Box.Smallest`: no box
     that leaves a part of it out will do), and the picture has to be red exactly there.

  3. **The crux (`compareRow_eq`)** — of two equal rows no pixel differs, so the pixels that the
     short cut counts without looking at them are those that the slow walk would have counted as the
     same.  With a mask or a region it still has to ask each of them.

  4. **Bridge** — `visited_eq` and `tallied` bring both functions to the one list of calls, where
     they are compared.
-/
import CdjEmu.Lib.Buffer

namespace CdjEmu.Diff

open Text

/-! ## The program -/

/-- An 8-bit RGBA image, rows top to bottom. -/
structure Image where
  width : Nat
  height : Nat
  rgba : Bytes
  width_lt : width < 2 ^ 32
  height_lt : height < 2 ^ 32
  length_rgba : rgba.length = width * height * 4

/-- `Image::new`: an image needs four octets for each pixel. -/
def Image.new (width height : UInt32) (rgba : Bytes) : Except Bytes Image :=
  if h : rgba.length = width.toNat * height.toNat * 4 then
    .ok ⟨width.toNat, height.toNat, rgba, width.toNat_lt, height.toNat_lt, h⟩
  else
    .error (decimal rgba.length ++ bytes " bytes do not make a " ++ decimal width.toNat ++
      bytes "x" ++
      decimal height.toNat ++ bytes " RGBA image")

/-- A region: whether it contains the pixel `x`, `y` of a picture of `w` by `h`. -/
structure Region where
  contains : (x y w h : Nat) → Bool

/-- What is compared, and how strictly. -/
structure Options where
  /-- The largest channel difference that still counts as equal. -/
  threshold : UInt8
  masks : List Region
  /-- When set, only the pixels inside it are compared. -/
  region : Option Region

namespace Options

/-- A pixel that is left out: outside the region, or in a mask. -/
def masked (o : Options) (x y w h : Nat) : Bool :=
  o.region.any (fun r => !r.contains x y w h) || o.masks.any fun m => m.contains x y w h

/-- Whether any pixel can be left out. -/
def masksAnything (o : Options) : Bool := o.region.isSome || !o.masks.isEmpty

/-- A pixel differs where one of its channels differs by more than the threshold. -/
def differs (o : Options) (a b : Bytes) : Bool :=
  (a.zip b).any fun p => o.threshold.toNat < max (p.1.toNat - p.2.toNat) (p.2.toNat - p.1.toNat)

end Options

/-- x, y, width, height. -/
structure Box where
  x : Nat
  y : Nat
  width : Nat
  height : Nat
  deriving DecidableEq

/-- What the comparison came to. -/
structure Report where
  width : Nat
  height : Nat
  /-- The number of pixels compared, which leaves out the masked ones. -/
  compared : Nat
  changed : Nat
  /-- The box around every changed pixel. -/
  bbox : Option Box
  deriving DecidableEq

/-- Images of different sizes are not compared. -/
def sameSize (a b : Image) : Except Bytes Unit :=
  if (a.width, a.height) ≠ (b.width, b.height) then
    .error (bytes "the images differ in size: " ++ decimal a.width ++ bytes "x" ++
      decimal a.height ++ bytes " and " ++
      decimal b.width ++ bytes "x" ++ decimal b.height)
  else .ok ()

/-- The counters of the loop. -/
structure Scan where
  compared : Nat
  changed : Nat
  x0 : Nat
  y0 : Nat
  x1 : Nat
  y1 : Nat
  deriving DecidableEq

/-- No pixel has been looked at. -/
def Scan.start : Scan := ⟨0, 0, 2 ^ 32 - 1, 2 ^ 32 - 1, 0, 0⟩

section

variable (reference actual : Image) (o : Options)

/-- One pixel of a row. -/
def comparePixel (y : Nat) (s : Scan) (x : Nat) : Scan :=
  if o.masked x y actual.width actual.height then s
  else
    let i := y * (actual.width * 4) + x * 4
    let s := { s with compared := s.compared + 1 }
    if o.differs (slice reference.rgba i 4) (slice actual.rgba i 4) then
      { s with
        changed := s.changed + 1
        x0 := min s.x0 x
        y0 := min s.y0 y
        x1 := max s.x1 x
        y1 := max s.y1 y }
    else s

/-- One row; equal rows without a mask are skipped. -/
def compareRow (s : Scan) (y : Nat) : Scan :=
  let w := actual.width
  let rowBytes := w * 4
  -- most rows of two captures of one screen are equal
  if slice reference.rgba (y * rowBytes) rowBytes = slice actual.rgba (y * rowBytes) rowBytes then
    { s with compared := s.compared +
        if o.masksAnything then
          ((List.range w).filter fun x => !o.masked x y w actual.height).length else w }
  else (List.range w).foldl (comparePixel reference actual o y) s

def scan : Scan := (List.range actual.height).foldl (compareRow reference actual o) .start

/-- Compare `actual` with `reference`.  The images must be the same size. -/
def compare : Except Bytes Report := do
  sameSize reference actual
  let s := scan reference actual o
  return {
    width := actual.width
    height := actual.height
    compared := s.compared
    changed := s.changed
    bbox := if 0 < s.changed then some ⟨s.x0, s.y0, s.x1 - s.x0 + 1, s.y1 - s.y0 + 1⟩ else none }

/-- What became of a pixel. -/
inductive Pixel where
  | same
  | changed
  | masked
  deriving DecidableEq

/-- Call `f` with the position and the kind of every pixel. -/
def forEachPixel {σ : Type} (f : Nat → Nat → Pixel → σ → σ) (s : σ) : σ :=
  let w := actual.width
  let h := actual.height
  (List.range h).foldl (fun s y => (List.range w).foldl (fun s x =>
    if o.masked x y w h then f x y .masked s
    else
      let i := (y * w + x) * 4
      f x y (if o.differs (slice reference.rgba i 4) (slice actual.rgba i 4) then .changed else
        .same) s) s) s

/-- The colour of a pixel: dimmed to grey, tinted blue or red. -/
def Pixel.paint (p : Bytes) : Pixel → Bytes :=
  let grey := UInt8.ofNat
      (((p.getD 0 0).toNat * 3 + (p.getD 1 0).toNat * 6 + (p.getD 2 0).toNat) / 10 / 3)
  fun
  | .same => [grey, grey, grey, 0xff]
  | .masked => [grey / 2, grey / 2, grey / 2 + 0x60, 0xff]
  | .changed => [0xff, 0x10, 0x40, 0xff]

/-- A picture of the difference. -/
def diffImage : Except Bytes Image := do
  sameSize reference actual
  let out := forEachPixel reference actual o (fun x y kind out =>
    let i := (y * actual.width + x) * 4
    splice out i (kind.paint (slice actual.rgba i 4))) (List.replicate actual.rgba.length 0)
  Image.new (UInt32.ofNat actual.width) (UInt32.ofNat actual.height) out

/-! ## The calls -/

/-- A call of `for_each_pixel`: the position and the kind. -/
structure Call where
  x : Nat
  y : Nat
  kind : Pixel
  deriving DecidableEq

/-- And what becomes of the one at `x`, `y`. -/
def kindAt (x y : Nat) : Pixel :=
  if o.masked x y actual.width actual.height then .masked
  else if o.differs (slice reference.rgba ((y * actual.width + x) * 4) 4)
      (slice actual.rgba ((y * actual.width + x) * 4) 4) then
    .changed
  else .same

/-- The pixels of a row, as the walk comes to them. -/
def callsOfRow (y : Nat) : List Call := (List.range actual.width).map fun x =>
  ⟨x, y, kindAt reference actual o x y⟩

/-- Every call, in order. -/
def calls : List Call := (List.range actual.height).flatMap (callsOfRow reference actual o)

/-- The walk is the list of its calls. -/
theorem forEachPixel_eq {σ : Type} (f : Nat → Nat → Pixel → σ → σ) (s : σ) :
    forEachPixel reference actual o f s = (calls reference actual o).foldl
      (fun s c => f c.x c.y c.kind s) s := by
  rw [calls, List.foldl_flatMap, forEachPixel]
  congr 1
  funext s y
  rw [callsOfRow, List.foldl_map]
  congr 1
  funext s x
  rw [kindAt]
  dsimp only
  split
  · rfl
  · split <;> rfl

variable {reference actual o}

/-- Every pixel is called once, and by its kind. -/
theorem mem_calls {c : Call} : c ∈ calls reference actual o ↔
    c.x < actual.width ∧ c.y < actual.height ∧ c.kind = kindAt reference actual o c.x c.y := by
  rw [calls, List.mem_flatMap]
  constructor
  · rintro ⟨y, hy, hc⟩
    obtain ⟨x, hx, rfl⟩ := List.mem_map.mp hc
    exact ⟨List.mem_range.mp hx, List.mem_range.mp hy, rfl⟩
  · rintro ⟨hx, hy, hkind⟩
    refine ⟨c.y, List.mem_range.mpr hy, List.mem_map.mpr ⟨c.x, List.mem_range.mpr hx, ?_⟩⟩
    rw [← hkind]

/-! ## The counters -/

/-- What the counters make of one call. -/
def tally (s : Scan) (c : Call) : Scan :=
  match c.kind with
  | .masked => s
  | .same => { s with compared := s.compared + 1 }
  | .changed =>
      ⟨s.compared + 1, s.changed + 1, min s.x0 c.x, min s.y0 c.y, max s.x1 c.x, max s.y1 c.y⟩

/-- Comparing a pixel counts it by its kind. -/
theorem comparePixel_eq (s : Scan) (x y : Nat) :
    comparePixel reference actual o y s x = tally s ⟨x, y, kindAt reference actual o x y⟩ := by
  have hi : y * (actual.width * 4) + x * 4 = (y * actual.width + x) * 4 := by ring
  unfold comparePixel tally kindAt
  rw [hi]
  dsimp only
  by_cases hmask : o.masked x y actual.width actual.height
  · rw [if_pos hmask, if_pos hmask]
  · rw [if_neg hmask, if_neg hmask]
    split <;> rfl

/-- Calls none of which finds a change only count. -/
theorem foldl_tally_of_unchanged {l : List Call} (h : ∀ c ∈ l, c.kind ≠ .changed) (s : Scan) :
    l.foldl tally s = { s with compared := s.compared + l.countP fun c => c.kind ≠ .masked } := by
  induction l generalizing s with
  | nil => rfl
  | cons c l ih =>
    have hrest : ∀ d ∈ l, d.kind ≠ .changed := fun d hd => h d (List.mem_cons_of_mem _ hd)
    rw [List.foldl_cons, ih hrest, List.countP_cons]
    have hc := h c List.mem_cons_self
    obtain ⟨x, y, kind⟩ := c
    cases kind with
    | masked => simp [tally]
    | same => simp [tally, Nat.add_assoc, Nat.add_comm 1]
    | changed => exact absurd rfl hc

/-- Without a region and masks no pixel is masked. -/
theorem masked_eq_false (h : o.masksAnything = false) (x y w h' : Nat) :
    o.masked x y w h' = false := by
  simp only [Options.masksAnything, Bool.or_eq_false_iff, Option.isSome_eq_false_iff,
    Option.isNone_iff_eq_none, Bool.not_eq_false', List.isEmpty_iff] at h
  simp [Options.masked, h.1, h.2]

/-- A pixel is masked where the options leave it out. -/
theorem kindAt_eq_masked {x y : Nat} :
    kindAt reference actual o x y = .masked ↔ o.masked x y actual.width actual.height = true := by
  unfold kindAt
  split
  · simp_all
  · split <;> simp_all

/-- No channel of equal octets differs. -/
theorem differs_self (a : Bytes) : o.differs a a = false := by
  simp only [Options.differs, List.any_eq_false, decide_eq_true_eq, Prod.forall]
  intro p q hpq
  have hsame : p = q := by
    rw [List.zip_eq_zipWith, List.mem_iff_getElem?] at hpq
    obtain ⟨i, hi⟩ := hpq
    simp only [List.getElem?_zipWith] at hi
    grind
  rw [hsame]
  omega

/-- Pixels of equal rows are not changed. -/
theorem kindAt_ne_changed {y : Nat}
    (hrow : slice reference.rgba (y * (actual.width * 4)) (actual.width * 4) =
      slice actual.rgba (y * (actual.width * 4)) (actual.width * 4))
        {x : Nat} (hx : x < actual.width) :
    kindAt reference actual o x y ≠ .changed := by
  have hpixel : ∀ b : Bytes, slice b ((y * actual.width + x) * 4) 4 =
      slice (slice b (y * (actual.width * 4)) (actual.width * 4)) (x * 4) 4 := by
    intro b
    rw [slice_slice (by omega)]
    congr 1
    ring
  unfold kindAt
  rw [hpixel, hpixel actual.rgba, hrow, differs_self]
  split <;> simp

/-- **The short cut**: a row, skipped or not, counts what its calls say. -/
theorem compareRow_eq (s : Scan) (y : Nat) :
    compareRow reference actual o s y = (callsOfRow reference actual o y).foldl tally s := by
  have hwalk : (callsOfRow reference actual o y).foldl tally s =
      (List.range actual.width).foldl (comparePixel reference actual o y) s := by
    rw [callsOfRow, List.foldl_map]
    congr 1
    funext s x
    exact (comparePixel_eq s x y).symm
  unfold compareRow
  dsimp only
  split
  · rename_i hrow
    have hsame : ∀ c ∈ callsOfRow reference actual o y, c.kind ≠ .changed := by
      intro c hc
      obtain ⟨x, hx, rfl⟩ := List.mem_map.mp hc
      exact kindAt_ne_changed hrow (List.mem_range.mp hx)
    have hcount : (callsOfRow reference actual o y).countP (fun c => c.kind ≠ .masked) =
        ((List.range actual.width).filter fun x =>
          !o.masked x y actual.width actual.height).length := by
      rw [callsOfRow, List.countP_map, List.countP_eq_length_filter]
      congr 2
      funext x
      simp [kindAt_eq_masked]
    rw [foldl_tally_of_unchanged hsame, hcount]
    split
    · rfl
    · rename_i hnone
      simp [masked_eq_false (Bool.eq_false_iff.mpr hnone)]
  · exact hwalk.symm

/-- The scan with its skipped rows counts as the walk does. -/
theorem scan_eq : scan reference actual o = (calls reference actual o).foldl tally .start := by
  rw [calls, List.foldl_flatMap, scan]
  congr 1
  funext s y
  exact compareRow_eq s y

end

/-! ## What the counters say -/

/-- Some changed pixel has its coordinate `f` at `m`. -/
def Edge (l : List Call) (f : Call → Nat) (m : Nat) : Prop := ∃ c ∈ l, c.kind = .changed ∧ f c = m

/-- A bound of the changed pixels stays one behind any other pixel. -/
theorem Edge.concat {l : List Call} {f : Call → Nat} {m : Nat} (h : Edge l f m) (c : Call) :
    Edge (l ++ [c]) f m := by
  obtain ⟨d, hd, hkind⟩ := h
  exact ⟨d, List.mem_append_left _ hd, hkind⟩

/-- A changed pixel is a bound of its own. -/
theorem Edge.last (l : List Call) (f : Call → Nat) {c : Call} (h : c.kind = .changed) :
    Edge (l ++ [c]) f (f c) :=
  ⟨c, List.mem_append_right _ (List.mem_singleton_self c), h, rfl⟩

/-- An extreme of old and new is one of the two. -/
theorem Edge.of_or {l : List Call} {f : Call → Nat} {m n : Nat} {c : Call} (hc : c.kind = .changed)
    (h : Edge l f m) (hn : n = m ∨ n = f c) : Edge (l ++ [c]) f n := by
  rcases hn with rfl | rfl
  · exact h.concat c
  · exact Edge.last l f hc

/-- The counters after the calls `l`. -/
structure Tallied (l : List Call) (s : Scan) : Prop where
  compared : s.compared = l.countP fun c => c.kind ≠ .masked
  changed : s.changed = l.countP fun c => c.kind = .changed
  inside : ∀ c ∈ l, c.kind = .changed → s.x0 ≤ c.x ∧ c.x ≤ s.x1 ∧ s.y0 ≤ c.y ∧ c.y ≤ s.y1
  start : s.changed = 0 → s.x0 = 2 ^ 32 - 1 ∧ s.y0 = 2 ^ 32 - 1 ∧ s.x1 = 0 ∧ s.y1 = 0
  tight : 0 < s.changed → Edge l Call.x s.x0 ∧ Edge l Call.x s.x1 ∧ Edge l Call.y s.y0 ∧
    Edge l Call.y s.y1

/-- **The step**: one more call. -/
theorem Tallied.concat {l : List Call} {s : Scan} (h : Tallied l s) {c : Call} (hx : c.x < 2 ^ 32)
    (hy : c.y < 2 ^ 32) :
    Tallied (l ++ [c]) (tally s c) := by
  -- the box of before, or one that is wider, holds what it held
  have hinside :
      ∀ (s' : Scan), (c.kind = .changed → s'.x0 ≤ c.x ∧ c.x ≤ s'.x1 ∧ s'.y0 ≤ c.y ∧ c.y ≤ s'.y1) →
      s'.x0 ≤ s.x0 → s.x1 ≤ s'.x1 → s'.y0 ≤ s.y0 → s.y1 ≤ s'.y1 →
      ∀ d ∈ l ++ [c], d.kind = .changed → s'.x0 ≤ d.x ∧ d.x ≤ s'.x1 ∧ s'.y0 ≤ d.y ∧
      d.y ≤ s'.y1 := by
    intro s' hlast hx0 hx1 hy0 hy1 d hd hkind
    rcases List.mem_append.mp hd with hd | hd
    · have := h.inside d hd hkind
      omega
    · rw [List.mem_singleton] at hd
      subst hd
      exact hlast hkind
  have hcompared := h.compared
  have hchanged := h.changed
  -- a masked pixel is not compared, one that is the same changes no box
  cases hkind : c.kind with
  | masked =>
    have hstep : tally s c = s := by rw [tally, hkind]
    rw [hstep]
    refine ⟨by simp [hcompared, hkind], by simp [hchanged, hkind], ?_, h.start, fun hpos => ?_⟩
    · exact hinside s (fun hc => by rw [hkind] at hc; cases hc) le_rfl le_rfl le_rfl le_rfl
    · obtain ⟨h1, h2, h3, h4⟩ := h.tight hpos
      exact ⟨h1.concat c, h2.concat c, h3.concat c, h4.concat c⟩
  | same =>
    have hstep : tally s c = { s with compared := s.compared + 1 } := by rw [tally, hkind]
    rw [hstep]
    refine ⟨by simp [hcompared, hkind], by simp [hchanged, hkind], ?_, h.start, fun hpos => ?_⟩
    · exact hinside _ (fun hc => by rw [hkind] at hc; cases hc) le_rfl le_rfl le_rfl le_rfl
    · obtain ⟨h1, h2, h3, h4⟩ := h.tight hpos
      exact ⟨h1.concat c, h2.concat c, h3.concat c, h4.concat c⟩
  | changed =>
    have hstep : tally s c =
        ⟨s.compared + 1, s.changed + 1, min s.x0 c.x, min s.y0 c.y, max s.x1 c.x,
          max s.y1 c.y⟩ := by rw [tally, hkind]
    rw [hstep]
    refine ⟨by simp [hcompared, hkind], by simp [hchanged, hkind], ?_, by simp, fun _ => ?_⟩
    · apply hinside
      · intro _
        dsimp only
        omega
      · exact Nat.min_le_left _ _
      · exact Nat.le_max_left _ _
      · exact Nat.min_le_left _ _
      · exact Nat.le_max_left _ _
    · dsimp only
      rcases Nat.eq_zero_or_pos s.changed with hzero | hpos
      · -- the first change: the start values give way
        obtain ⟨hx0, hy0, hx1, hy1⟩ := h.start hzero
        have hminx : min s.x0 c.x = c.x := by omega
        have hmaxx : max s.x1 c.x = c.x := by omega
        have hminy : min s.y0 c.y = c.y := by omega
        have hmaxy : max s.y1 c.y = c.y := by omega
        rw [hminx, hmaxx, hminy, hmaxy]
        exact ⟨.last l _ hkind, .last l _ hkind, .last l _ hkind, .last l _ hkind⟩
      -- each side has been reached before, or is reached now
      · obtain ⟨h1, h2, h3, h4⟩ := h.tight hpos
        exact ⟨h1.of_or hkind (by omega), h2.of_or hkind (by omega), h3.of_or hkind (by omega),
          h4.of_or hkind (by omega)⟩

/-- What is counted over a list of pixels is what the report says of them. -/
theorem tallied {l : List Call} (h : ∀ c ∈ l, c.x < 2 ^ 32 ∧ c.y < 2 ^ 32) :
    Tallied l (l.foldl tally .start) := by
  induction l using List.reverseRecOn with
  | nil => exact ⟨rfl, rfl, by simp, fun _ => ⟨rfl, rfl, rfl, rfl⟩, fun hpos =>
      absurd hpos (Nat.lt_irrefl 0)⟩
  | append_singleton l c ih =>
    rw [List.foldl_append, List.foldl_cons, List.foldl_nil]
    obtain ⟨hx, hy⟩ := h c (List.mem_append_right _ (List.mem_singleton_self c))
    exact (ih fun d hd => h d (List.mem_append_left _ hd)).concat hx hy

/-! ## The box -/

def Box.Contains (b : Box) (x y : Nat) : Prop := b.x ≤ x ∧ x < b.x + b.width ∧ b.y ≤ y ∧
    y < b.y + b.height

/-- `b` contains every pixel of `P`, and so does no box that misses a part of `b`. -/
def Box.Smallest (b : Box) (P : Nat → Nat → Prop) : Prop :=
  (∀ x y, P x y → b.Contains x y) ∧ ∀ b' :
  Box, (∀ x y, P x y → b'.Contains x y) → ∀ x y, b.Contains x y → b'.Contains x y

/-- The box that is counted is the smallest around the changed pixels. -/
theorem Tallied.smallest {l : List Call} {s : Scan} (h : Tallied l s) (hpos : 0 < s.changed) :
    Box.Smallest ⟨s.x0, s.y0, s.x1 - s.x0 + 1, s.y1 - s.y0 + 1⟩ fun x y =>
      ⟨x, y, .changed⟩ ∈ l := by
  refine ⟨fun x y hc => ?_, fun b hb x y hxy => ?_⟩
  · have := h.inside _ hc rfl
    dsimp only [Box.Contains] at this ⊢
    omega
  · have hedge : ∀ {f : Call → Nat} {m : Nat}, Edge l f m → ∃ c :
        Call, f c = m ∧ b.Contains c.x c.y := by
      rintro f m ⟨c, hc, hkind, rfl⟩
      refine ⟨c, rfl, hb c.x c.y ?_⟩
      rw [← hkind]
      exact hc
    obtain ⟨hx0, hx1, hy0, hy1⟩ := h.tight hpos
    obtain ⟨c0, h0, hb0⟩ := hedge hx0
    obtain ⟨c1, h1, hb1⟩ := hedge hx1
    obtain ⟨c2, h2, hb2⟩ := hedge hy0
    obtain ⟨c3, h3, hb3⟩ := hedge hy1
    unfold Box.Contains at hxy hb0 hb1 hb2 hb3 ⊢
    dsimp only at hxy
    omega

/-! ## The picture -/

variable {reference actual : Image} {o : Options}

/-- The colour at `x`, `y`. -/
def Image.pixel (i : Image) (x y : Nat) : Bytes := slice i.rgba ((y * i.width + x) * 4) 4

/-- The calls go through the picture from the first pixel to the last. -/
theorem calls_ascend : (calls reference actual o).Pairwise fun c d =>
  c.y * actual.width + c.x < d.y * actual.width + d.x := by
  rw [calls, List.pairwise_flatMap]
  refine ⟨fun y _ => ?_, ?_⟩
  · rw [callsOfRow, List.pairwise_map]
    exact List.pairwise_lt_range.imp fun h => by dsimp only; omega
  · refine List.pairwise_lt_range.imp fun {y y'} hlt c hc d hd => ?_
    obtain ⟨x, hx, rfl⟩ := List.mem_map.mp hc
    obtain ⟨x', -, rfl⟩ := List.mem_map.mp hd
    have hrow : (y + 1) * actual.width ≤ y' * actual.width := Nat.mul_le_mul_right _ hlt
    rw [List.mem_range] at hx
    dsimp only
    rw [Nat.add_mul] at hrow
    omega

theorem length_paint (p : Bytes) (k : Pixel) : (k.paint p).length = 4 := by cases k <;> rfl

/-- Only a changed pixel is red. -/
theorem paint_eq_red (p : Bytes) (k : Pixel) :
    k.paint p = [0xff, 0x10, 0x40, 0xff] ↔ k = .changed := by
  -- the other two have equal red and green
  have hapart : ∀ g x y : UInt8, [g, g, x, y] ≠ [0xff, 0x10, 0x40, 0xff] := by
    intro g x y h
    obtain ⟨hred, h⟩ := List.cons.inj h
    obtain ⟨hgreen, -⟩ := List.cons.inj h
    rw [hred] at hgreen
    exact absurd hgreen (by decide)
  cases k with
  | changed => exact iff_of_true rfl rfl
  | same => exact iff_of_false (hapart _ _ _) (by decide)
  | masked => exact iff_of_false (hapart _ _ _) (by decide)

/-- Where a call draws, and what. -/
def drawnAt (actual : Image) (c : Call) : Nat × Bytes :=
  ((c.y * actual.width + c.x) * 4,
    c.kind.paint (slice actual.rgba ((c.y * actual.width + c.x) * 4) 4))

/-- A pixel of the image has its four octets. -/
theorem call_fits {c : Call} (hx : c.x < actual.width) (hy : c.y < actual.height) :
    (c.y * actual.width + c.x) * 4 + 4 ≤ actual.rgba.length := by
  have hrow : (c.y + 1) * actual.width ≤ actual.height * actual.width := Nat.mul_le_mul_right _ hy
  have hlen := actual.length_rgba
  rw [Nat.add_mul] at hrow
  rw [Nat.mul_comm actual.width] at hlen
  omega

/-- Images of one size are compared. -/
theorem sameSize_ok (h : (reference.width, reference.height) = (actual.width, actual.height)) :
    sameSize reference actual = .ok () := by
  rw [sameSize, if_neg (not_not_intro h)]

/-- **The picture** is of the same size, and each pixel has the colour of its kind. -/
theorem diffImage_spec (h : (reference.width, reference.height) = (actual.width, actual.height)) :
    ∃ picture, diffImage reference actual o = .ok picture ∧ picture.width = actual.width ∧
      picture.height = actual.height ∧
      ∀ c ∈ calls reference actual o, picture.pixel c.x c.y = c.kind.paint
        (actual.pixel c.x c.y) := by
  have hzeros : (List.replicate actual.rgba.length (0 : UInt8)).length = actual.rgba.length :=
    List.length_replicate
  have hin : Inside (List.replicate actual.rgba.length (0 : UInt8)).length
      ((calls reference actual o).map (drawnAt actual)) := by
    -- every pixel of the picture is inside
    intro d hd
    obtain ⟨c, hc, rfl⟩ := List.mem_map.mp hd
    obtain ⟨hx, hy, -⟩ := mem_calls.mp hc
    rw [hzeros, drawnAt, length_paint]
    exact call_fits hx hy
  -- no two calls paint the same pixel
  have hapart : ((calls reference actual o).map (drawnAt actual)).Pairwise Apart := by
    rw [List.pairwise_map]
    refine calls_ascend.imp fun {c d} hlt => ?_
    left
    rw [drawnAt, drawnAt, length_paint]
    dsimp only
    omega
  -- what is painted is written in the order of the calls
  have hout : forEachPixel reference actual o (fun x y kind out =>
      splice out ((y * actual.width + x) * 4)
        (kind.paint (slice actual.rgba ((y * actual.width + x) * 4) 4)))
      (List.replicate actual.rgba.length 0) =
      writeAll (List.replicate actual.rgba.length 0)
        ((calls reference actual o).map (drawnAt actual)) := by
    rw [forEachPixel_eq, writeAll, List.foldl_map]
    rfl
  have hlen := length_writeAll hin
  rw [hzeros] at hlen
  have hw : (UInt32.ofNat actual.width).toNat = actual.width :=
    UInt32.toNat_ofNat_of_lt' actual.width_lt
  have hh : (UInt32.ofNat actual.height).toNat = actual.height :=
    UInt32.toNat_ofNat_of_lt' actual.height_lt
  -- the buffer is as long as the picture needs
  unfold diffImage
  rw [sameSize_ok h]
  dsimp only [bind, Except.bind]
  rw [hout, Image.new, dif_pos (by rw [hlen, hw, hh, actual.length_rgba])]
  refine ⟨_, rfl, hw, hh, fun c hc => ?_⟩
  have hdrawn := slice_writeAll hin hapart (List.mem_map_of_mem hc)
  rw [drawnAt, length_paint] at hdrawn
  dsimp only [Image.pixel] at hdrawn ⊢
  rw [hw]
  exact hdrawn

/-! ## The two walks agree -/

/-- What `for_each_pixel` calls its function with, in order. -/
def visited (reference actual : Image) (o : Options) : List Call :=
  forEachPixel reference actual o (fun x y kind seen => seen ++ [⟨x, y, kind⟩]) []

/-- The pixels that the picture paints are those that the report counts. -/
theorem visited_eq : visited reference actual o = calls reference actual o := by
  rw [visited, forEachPixel_eq]
  show (calls reference actual o).foldl (fun seen c => seen ++ [c]) [] = calls reference actual o
  rw [List.foldl_append_eq_append, List.nil_append]
  exact List.flatMap_singleton' _

/-- For images of one size the report of `compare` counts what `for_each_pixel` visits,
    its box is the smallest one around the changed pixels, and the picture of `diff_image`
    is red exactly at these. -/
theorem report_agrees_with_picture
    (h : (reference.width, reference.height) = (actual.width, actual.height)) :
    ∃ report picture, compare reference actual o = .ok report ∧
    diffImage reference actual o = .ok picture ∧
      report.compared = (visited reference actual o).countP
        (fun c => c.kind = .same ∨ c.kind = .changed) ∧
      report.changed = (visited reference actual o).countP (fun c => c.kind = .changed) ∧
      (report.bbox = none ↔ report.changed = 0) ∧
      (∀ b, report.bbox = some b →
        b.Smallest fun x y => ⟨x, y, .changed⟩ ∈ visited reference actual o) ∧
      ∀ x < actual.width, ∀ y < actual.height,
        (picture.pixel x y = [0xff, 0x10, 0x40, 0xff] ↔
          ⟨x, y, .changed⟩ ∈ visited reference actual o) := by
  obtain ⟨picture, hpicture, -, -, hcolour⟩ := diffImage_spec (o := o) h
  have htally : Tallied (calls reference actual o) (scan reference actual o) := by
    rw [scan_eq]
    refine tallied fun c hc => ?_
    obtain ⟨hx, hy, -⟩ := mem_calls.mp hc
    exact ⟨hx.trans actual.width_lt, hy.trans actual.height_lt⟩
  rw [visited_eq]
  refine ⟨_, picture, by rw [compare, sameSize_ok h]; rfl, hpicture, ?_, htally.changed, ?_, ?_,
    fun x hx y hy => ?_⟩
  · rw [htally.compared]
    refine List.countP_congr fun c _ => ?_
    cases c.kind <;> simp
  -- without a change there is no box
  · dsimp only
    split
    · rename_i hpos
      exact iff_of_false (by simp) (by omega)
    · exact iff_of_true rfl (by omega)
  · intro b hb
    dsimp only at hb
    split at hb
    · rename_i hpos
      cases hb
      exact htally.smallest hpos
    · cases hb
  · have hcall : (⟨x, y, kindAt reference actual o x y⟩ : Call) ∈ calls reference actual o :=
      mem_calls.mpr ⟨hx, hy, rfl⟩
    have hpixel := hcolour _ hcall
    dsimp only at hpixel
    rw [hpixel, paint_eq_red, mem_calls]
    exact ⟨fun hk => ⟨hx, hy, hk.symm⟩, fun hc => hc.2.2.symm⟩

/-- A grey picture of four by three pixels. -/
def grid (levels : List UInt8) (h : levels.length = 12) : Image :=
  ⟨4, 3, levels.flatMap fun g => [g, g, g, 0xff], by decide, by decide, by simp [h]⟩

/-- A small image of one grey. -/
def plainGrid : Image := grid [10, 10, 10, 10, 10, 10, 10, 10, 10, 10, 10, 10] rfl

/-- Its first row is that of the plain one; below, one pixel differs by less than the threshold. -/
def markedGrid : Image := grid [10, 10, 10, 10, 10, 200, 200, 10, 200, 14, 10, 200] rfl

/-- The left three columns, without the pixel at 2, 1. -/
def leftPart : Options :=
  ⟨8, [⟨fun x y _ _ => x = 2 && y = 1⟩], some ⟨fun x _ _ _ => x < 3⟩⟩

/-- Two changed pixels: of the others that differ one is masked, one is outside the region, and one
    is within the threshold. -/
theorem grids_differ_in_two : ∃ report picture,
    compare plainGrid markedGrid leftPart = .ok report ∧
    diffImage plainGrid markedGrid leftPart = .ok picture ∧
      report.compared = 8 ∧ report.changed = 2 ∧ picture.pixel 1 1 = [0xff, 0x10, 0x40, 0xff] ∧
      picture.pixel 2 1 ≠ [0xff, 0x10, 0x40, 0xff] := by
  have hsize : (plainGrid.width, plainGrid.height) = (markedGrid.width, markedGrid.height) := rfl
  obtain ⟨report, picture, hreport, hpicture, hcompared, hchanged, -, -, hred⟩ :=
    report_agrees_with_picture (o := leftPart) hsize
  refine ⟨report, picture, hreport, hpicture, hcompared.trans (by decide),
    hchanged.trans (by decide), ?_, ?_⟩
  · exact (hred 1 (by decide) 1 (by decide)).mpr (by decide)
  · exact mt (hred 2 (by decide) 1 (by decide)).mp (by decide)

end CdjEmu.Diff
