/-
  THE BYPASS RESAMPLER — a buffer of frames at the guest's rate becomes frames at the host's rate.

  The loop walks over the segments between the input frames: in each it emits an output frame at
  every position that the phase `frac` comes to, and the ratio of the rates is what the phase
  advances by.  The positions are a stride (`Stride.points`); `frames_whole` says that a loop that
  is not cut short emits one frame for each of them.

  The room is reserved for the nominal ratio, and the loop runs at the one that the PLL has bent.  A
  call does what it should (`Call.Meets`) just where the bent ratio still leaves a frame of the
  reservation unused and the phase lies in the buffer (`Call.Suited`): else the loop is cut short,
  or the call has taken the buffer in and returns 0, as it does for a full ring.

  Phase, ratio and integrator are exact.  What is done with the samples (the lowpass, the cubic
  between two frames) is a parameter.  A buffer is its frames; where they go in the ring is
  `BypassRing`.

  Two results follow from one description of the loops.  A call by itself: whatever the window and
  the phase are, it consumes its buffer whole or not at all just where it is suited.  And the calls
  one after the other, as the writer's rounds make them: if each finds a suited buffer, the
  resampler has read every buffer that left the queue, once and in order.  The state between two
  calls is the window, the phase and the integrator, and nothing else.
-/
import CdjEmu.Lib.Stride
import CdjEmu.Qemu.BypassRing

namespace CdjEmu.Bypass

open Stride

/-- The last four input frames of `VsndResamplerState`, oldest first. -/
structure Window (σ : Type) where
  y0 : σ
  y1 : σ
  y2 : σ
  y3 : σ

/-- The oldest frame leaves and a new one enters. -/
def Window.shift {σ : Type} (y : Window σ) (x : σ) : Window σ := ⟨y.y1, y.y2, y.y3, x⟩

/-- What is done with the samples: the biquad in front of the window, and the Hermite curve in its
    middle segment; and the zeroed frame and biquad. -/
structure Dsp (σ β : Type) where
  lowpass : Nat → Nat → β → σ → σ × β
  hermite : Window σ → ℚ → σ
  silence : σ
  rest : β

/-- `vsnd_resampler` and `vsnd_pll_integrator`. -/
structure Resampler (σ β : Type) where
  y : Window σ
  frac : ℚ
  biq : β
  integrator : ℚ

section Loops

variable {σ β : Type}

/-- What the inner loop emits, the phase and the room behind it, and whether it ran into the
    reserved size. -/
structure Emitted (σ : Type) where
  out : List σ
  frac : ℚ
  room : Nat
  done : Bool

/-- `while (frac < 1.0)`; there is room for `room` frames up to the reserved size. -/
def emit (point : ℚ → σ) (ratio : ℚ) : Nat → ℚ → Emitted σ
  | 0, frac => if frac < 1 then ⟨[point frac], frac, 0, true⟩ else ⟨[], frac, 0, false⟩
  | room + 1, frac =>
    if frac < 1 then
      if room = 0 then ⟨[point frac], frac, 0, true⟩
      else
        let e := emit point ratio room (frac + ratio)
        { e with out := point frac :: e.out }
    else ⟨[], frac, room + 1, false⟩

/-- What the outer loop leaves: the input frames that were not read, and whether
    it took the early exit. -/
structure Looped (σ β : Type) where
  y : Window σ
  biq : β
  frac : ℚ
  out : List σ
  unread : List σ
  exited : Bool

/-- A frame on its way to the window: filtered when the rate goes down. -/
def Dsp.enter (D : Dsp σ β) (inRate outRate : Nat) (biq : β) (x : σ) : σ × β :=
  if outRate < inRate then D.lowpass inRate outRate biq x else (x, biq)

variable (D : Dsp σ β) (inRate outRate : Nat) (ratio : ℚ)

/-- The loop over the input frames. -/
def frames : List σ → Window σ → β → ℚ → Nat → Looped σ β
  | [], y, biq, frac, _ => ⟨y, biq, frac, [], [], false⟩
  | x :: src, y, biq, frac, room =>
    let x := D.enter inRate outRate biq x
    let y := y.shift x.1
    let e := emit (D.hermite y) ratio room frac
    if e.done then ⟨y, x.2, e.frac, e.out, src, true⟩
    else
      let l := frames src y x.2 (e.frac - 1) e.room
      { l with out := e.out ++ l.out }

end Loops

/-! ## The calls -/

/-- `VSND_PLL_MAX_CORRECTION`. -/
def pllMaxCorrection : ℚ := 5 / 1000

/-- `VSND_PLL_INTEGRATOR_STEP`. -/
def pllIntegratorStep : ℚ := 1 / 1000000

/-- `max_out_bytes`, in 64 bits. -/
def maxOutBytes (inFrames inRate outRate : Nat) : Nat :=
  ((inFrames * outRate + (inRate - 1)) % 2 ^ 64 / inRate + 2) * 8 % 2 ^ 64

def clampPll (i : ℚ) : ℚ :=
  let i := if pllMaxCorrection < i then pllMaxCorrection else i
  if i < -pllMaxCorrection then -pllMaxCorrection else i

/-- The integrator that a call at `depth` bytes goes on with. -/
def nextIntegrator (integrator : ℚ) (depth outRate : Nat) : ℚ :=
  let target := outRate * 8 * 80 / 1000
  let err := if 0 < target then ((depth : ℚ) - target) / target else 0
  clampPll (integrator + err * pllIntegratorStep)

/-- The ratio that it runs at. -/
def bentRatio (integrator : ℚ) (inRate outRate : Nat) : ℚ :=
  (inRate : ℚ) / outRate * (1 + integrator)

/-- What a call returns and leaves: `unread` and `exited` are history. -/
structure Written (σ β : Type) where
  ret : Nat
  rs : Resampler σ β
  out : List σ
  unread : List σ
  exited : Bool

/-- A buffer, what the ring holds (`h - t`), and the rates of the host and the guest. -/
structure Call (σ : Type) where
  halRate : Nat
  guestRate : Nat
  depth : Nat
  src : List σ

namespace Call

variable {σ β : Type} (D : Dsp σ β) (r : Resampler σ β) (c : Call σ)

/-- Returns 0, and nothing has changed. -/
def refused : Written σ β := { ret := 0, rs := r, out := [], unread := c.src, exited := false }

/-- `vsnd_bypass_write_passthrough`. -/
def writePassthrough : Written σ β :=
  if diff bypassBytes c.depth < 8 * c.src.length then c.refused r
  else { ret := 8 * c.src.length, rs := r, out := c.src, unread := [], exited := false }

/-- There is room for the reserved size. -/
def HasRoom (inRate outRate : Nat) : Prop :=
  maxOutBytes c.src.length inRate outRate ≤ diff bypassBytes c.depth

instance (inRate outRate : Nat) : Decidable (c.HasRoom inRate outRate) :=
  inferInstanceAs (Decidable (_ ≤ _))

/-- `vsnd_bypass_write_resampled`. -/
def writeResampled (inRate outRate : Nat) : Written σ β :=
  if c.src.length = 0 ∨ inRate = 0 ∨ outRate = 0 then c.refused r
  else if ¬ c.HasRoom inRate outRate then c.refused r
  else
    let integrator := nextIntegrator r.integrator c.depth outRate
    let l := frames D inRate outRate (bentRatio integrator inRate outRate) c.src r.y r.biq r.frac
      (maxOutBytes c.src.length inRate outRate / 8)
    { ret := 8 * l.out.length
      rs := { y := l.y, frac := l.frac, biq := l.biq, integrator := integrator }
      out := l.out
      unread := l.unread
      exited := l.exited }

/-- The rates are known and differ. -/
def Resamples : Prop := ¬ (c.halRate = 0 ∨ c.guestRate = 0 ∨ c.halRate = c.guestRate)

instance : Decidable c.Resamples := inferInstanceAs (Decidable (¬ _))

/-- `vsnd_bypass_write_convert`. -/
def writeConvert : Written σ β :=
  if c.Resamples then c.writeResampled D r c.guestRate c.halRate else c.writePassthrough r

/-! ## What a call should do -/

/-- The ratio of this call. -/
def ratio : ℚ := bentRatio (nextIntegrator r.integrator c.depth c.halRate) c.guestRate c.halRate

end Call

section Curve

variable {σ β : Type} (D : Dsp σ β) (inRate outRate : Nat)

/-- The frames as they enter the window. -/
def Dsp.entering : β → List σ → List σ
  | _, [] => []
  | biq, x :: src =>
      (D.enter inRate outRate biq x).1 :: Dsp.entering (D.enter inRate outRate biq x).2 src

/-- The window once the frames up to the `i`-th have entered. -/
def windowAt (y : Window σ) (xs : List σ) (i : Nat) : Window σ :=
  (xs.take (i + 1)).foldl Window.shift y

/-- The output at the position `p`: in the segment of the frame `⌊p⌋`, at the fraction of `p`. -/
def Dsp.pointAt (y : Window σ) (xs : List σ) (p : ℚ) : σ :=
  D.hermite (windowAt y xs ⌊p⌋₊) (p - ⌊p⌋₊)

end Curve

namespace Call

variable {σ β : Type} (D : Dsp σ β) (r : Resampler σ β) (c : Call σ)

/-- The whole buffer is read without the early exit, a frame is emitted for each position inside it,
    no more than was reserved, and the phase is the next position as seen from the next buffer. -/
structure Whole : Prop where
  read : (c.writeConvert D r).unread = []
  uncut : (c.writeConvert D r).exited = false
  out : (c.writeConvert D r).out = (points r.frac (c.ratio r) c.src.length).map
    (D.pointAt r.y (D.entering c.guestRate c.halRate r.biq c.src))
  reserved : 8 * (c.writeConvert D r).out.length ≤ maxOutBytes c.src.length c.guestRate c.halRate
  phase : (c.writeConvert D r).rs.frac = r.frac + count r.frac (c.ratio r) c.src.length *
    c.ratio r - c.src.length
  nonneg : 0 ≤ (c.writeConvert D r).rs.frac
  window : (c.writeConvert D r).rs.y = (D.entering c.guestRate c.halRate r.biq c.src).foldl
    Window.shift r.y

/-- With room for it the buffer is resampled whole; and 0 is returned only when
    nothing was read or changed. -/
structure Meets : Prop where
  whole : c.Resamples → c.HasRoom c.guestRate c.halRate → c.Whole D r
  zero : (c.writeConvert D r).ret = 0 → (c.writeConvert D r).unread = c.src ∧
    (c.writeConvert D r).rs = r

/-- Where the call resamples, the phase lies in the buffer, and the frames that are reserved but for
    one reach its end at the bent ratio. -/
def Suited : Prop := c.Resamples → c.HasRoom c.guestRate c.halRate → r.frac < c.src.length ∧
  c.src.length ≤ r.frac + (maxOutBytes c.src.length c.guestRate c.halRate / 8 - 1 : Nat) * c.ratio r

instance : Decidable (c.Suited r) := inferInstanceAs (Decidable (_ → _ → _ ∧ _))

end Call

/-! ## The writer's rounds -/

/-- A stream's queue and the resampler; what was put into the ring, and, as history, the frames that
    were read and the buffers that left the queue. -/
structure Feed (σ β : Type) where
  rs : Resampler σ β
  queue : List (List σ)
  out : List σ
  fed : List σ
  taken : List (List σ)

inductive FeedEvent (σ : Type) where
  | enqueue (src : List σ)
  /-- A round of `vsnd_writer_drain_stream`, with the rates and the ring's depth at that time. -/
  | round (halRate guestRate depth : Nat)
  /-- The same round for a stream that was torn down: the buffer leaves the queue unread. -/
  | tornDown
  /-- The bypass is activated with another format. -/
  | coldStart

section Feeding

variable {σ β : Type} (D : Dsp σ β)

def Dsp.cold : Resampler σ β where
  y := ⟨D.silence, D.silence, D.silence, D.silence⟩
  frac := 0
  biq := D.rest
  integrator := 0

/-- A buffer stays in the queue when the call returns 0. -/
def Feed.round (s : Feed σ β) (src : List σ) (queue : List (List σ)) (w : Written σ β) :
    Feed σ β where
  rs := w.rs
  queue := if w.ret = 0 then src :: queue else queue
  out := s.out ++ w.out
  fed := s.fed ++ src.take (src.length - w.unread.length)
  taken := if w.ret = 0 then s.taken else s.taken ++ [src]

def feeding : Machine (Feed σ β) (FeedEvent σ) where
  step s
    | .enqueue src => some { s with queue := s.queue ++ [src] }
    | .round halRate guestRate depth =>
      match s.queue with
      | [] => none
      | src :: queue =>
          some (s.round src queue (Call.writeConvert D s.rs ⟨halRate, guestRate, depth, src⟩))
    | .tornDown =>
      match s.queue with
      | [] => none
      | _ :: queue => some { s with queue := queue }
    | .coldStart => some { s with rs := D.cold }

/-- A cold resampler, with any value of the integrator. -/
def Feed.start (integrator : ℚ) : Feed σ β where
  rs := { D.cold with integrator := integrator }
  queue := []
  out := []
  fed := []
  taken := []

/-- A round finds a buffer that suits it. -/
def Suits (s : Feed σ β) : FeedEvent σ → Prop
  | .round halRate guestRate depth =>
    match s.queue with
    | [] => True
    | src :: _ => 0 < src.length → Call.Suited s.rs ⟨halRate, guestRate, depth, src⟩
  | _ => True

instance (s : Feed σ β) (e : FeedEvent σ) : Decidable (Suits s e) := by
  cases e with
  | round halRate guestRate depth =>
    unfold Suits
    cases s.queue <;> infer_instance
  | _ => exact inferInstanceAs (Decidable True)

end Feeding

/-! ## The loops -/

section Emit

variable {σ : Type} {ratio : ℚ}

/-- The inner loop emits a frame for each position in the segment. -/
theorem emit_whole (point : ℚ → σ) (hr : 0 < ratio) {room : Nat} {frac : ℚ}
    (h : count frac ratio 1 < room ∨ 1 ≤ frac) :
    emit point ratio room frac =
      ⟨(points frac ratio 1).map point, frac + count frac ratio 1 * ratio,
        room - count frac ratio 1, false⟩ := by
  induction room generalizing frac with
  | zero =>
    have hle : 1 ≤ frac := h.resolve_left (Nat.not_lt_zero _)
    rw [emit, if_neg (not_lt.mpr hle), points_of_le hr hle, (count_eq_zero hr).mpr hle]
    simp
  | succ room ih =>
    rw [emit]
    by_cases hlt : frac < 1
    · have hcount := count_of_lt hr hlt
      have hroom : count (frac + ratio) ratio 1 < room := by
        have := h.resolve_right (not_le.mpr hlt)
        omega
      rw [if_pos hlt, if_neg (by omega), ih (.inl hroom), points_of_lt hr hlt, hcount]
      simp only [List.map_cons, Nat.add_sub_add_right, Emitted.mk.injEq, true_and, and_true]
      push_cast
      ring
    · have hle : 1 ≤ frac := not_lt.mp hlt
      rw [if_neg hlt, points_of_le hr hle, (count_eq_zero hr).mpr hle]
      simp

/-- It takes the early exit when the segment has as many positions as there is room for frames. -/
theorem emit_exits (point : ℚ → σ) (hr : 0 < ratio) {room : Nat} {frac : ℚ} (h : frac < 1)
    (hroom : room ≤ count frac ratio 1) :
    (emit point ratio room frac).done = true := by
  induction room generalizing frac with
  | zero => rw [emit, if_pos h]
  | succ room ih =>
    rw [emit, if_pos h]
    split
    · rfl
    · have hcount := count_of_lt hr h
      have hnext : frac + ratio < 1 := (count_pos hr).mp (by omega)
      exact ih hnext (by omega)

theorem emit_frac (point : ℚ → σ) (room : Nat) (hr : 0 < ratio) {frac : ℚ} (h : 0 ≤ frac) :
    0 ≤ (emit point ratio room frac).frac ∧
      ((emit point ratio room frac).done = false → 1 ≤ (emit point ratio room frac).frac) := by
  induction room generalizing frac with
  | zero =>
    rw [emit]
    split
    · exact ⟨h, fun hd => absurd hd Bool.noConfusion⟩
    · rename_i hlt
      exact ⟨h, fun _ => not_lt.mp hlt⟩
  | succ room ih =>
    rw [emit]
    split
    · split
      · exact ⟨h, fun hd => absurd hd Bool.noConfusion⟩
      · exact ih (by linarith)
    · rename_i hlt
      exact ⟨h, fun _ => not_lt.mp hlt⟩

end Emit

section Frames

variable {σ β : Type} {D : Dsp σ β} {inRate outRate : Nat} {ratio : ℚ}

/-- The positions of a buffer: those in its first segment, and those of the rest one segment on. -/
theorem points_cons (hr : 0 < ratio) (frac : ℚ) (n : Nat) :
    points frac ratio (n + 1 : Nat) = points frac ratio 1 ++
    (points (frac + count frac ratio 1 * ratio - 1) ratio n).map (· + 1) := by
  have hle : (1 : ℚ) ≤ (n + 1 : Nat) := by exact_mod_cast Nat.le_add_left 1 n
  have hn : ((n + 1 : Nat) : ℚ) - 1 = n := by push_cast; ring
  have hshift :=
    points_shift (a := frac + count frac ratio 1 * ratio) (d := ratio) (b := ((n + 1 : Nat) : ℚ)) 1
  rw [points_add hr hle, hshift, hn]

theorem count_cons (hr : 0 < ratio) (frac : ℚ) (n : Nat) : count frac ratio (n + 1 : Nat) =
    count frac ratio 1 + count (frac + count frac ratio 1 * ratio - 1) ratio n := by
  have h := congrArg List.length (points_cons hr frac n)
  simpa using h

/-- In the first segment the window has the first frame. -/
theorem pointAt_first (y : Window σ) (x : σ) (xs : List σ) {p : ℚ} (h1 : p < 1) :
    D.pointAt y (x :: xs) p = D.hermite (y.shift x) p := by
  have hfloor : ⌊p⌋₊ = 0 := Nat.floor_eq_zero.mpr h1
  rw [Dsp.pointAt, hfloor, Nat.cast_zero, sub_zero]
  rfl

/-- One segment on, the window has moved by a frame. -/
theorem pointAt_next (y : Window σ) (x : σ) (xs : List σ) {p : ℚ} (h0 : 0 ≤ p) :
    D.pointAt y (x :: xs) (p + 1) = D.pointAt (y.shift x) xs p := by
  have hfloor : ⌊p + 1⌋₊ = ⌊p⌋₊ + 1 := Nat.floor_add_one h0
  rw [Dsp.pointAt, Dsp.pointAt, hfloor, Nat.cast_add, Nat.cast_one, add_sub_add_right_eq_sub]
  rfl

/-- **A loop that is not cut short** reads all frames, emits one for each position, and leaves the
    phase that the next buffer begins with. -/
theorem frames_whole (D : Dsp σ β) (inRate outRate : Nat) (y : Window σ) (biq : β) (hr : 0 < ratio)
    {src : List σ} {frac : ℚ} {room : Nat} (h0 : 0 ≤ frac)
    (h : count frac ratio src.length < room ∨ (src.length : ℚ) ≤ frac) :
    (frames D inRate outRate ratio src y biq frac room).unread = [] ∧
      (frames D inRate outRate ratio src y biq frac room).exited = false ∧
      (frames D inRate outRate ratio src y biq frac room).out =
        (points frac ratio src.length).map (D.pointAt y (D.entering inRate outRate biq src)) ∧
      (frames D inRate outRate ratio src y biq frac room).frac =
        frac + count frac ratio src.length * ratio - src.length ∧
      (frames D inRate outRate ratio src y biq frac room).y =
        (D.entering inRate outRate biq src).foldl Window.shift y := by
  induction src generalizing y biq frac room with
  | nil =>
    have hle : ((0 : Nat) : ℚ) ≤ frac := by simpa using h0
    rw [frames, List.length_nil, points_of_le hr hle, (count_eq_zero hr).mpr hle]
    simp [Dsp.entering]
  | cons x src ih =>
    rw [List.length_cons] at h ⊢
    have hcons := count_cons hr frac src.length
    -- The first segment is not cut short either: the room is enough, or nothing is emitted in it.
    have hone : count frac ratio 1 < room ∨ 1 ≤ frac := by
      rcases h with h | h
      · exact .inl (by omega)
      · refine .inr (le_trans ?_ h)
        exact_mod_cast Nat.le_add_left 1 _
    have hemit := emit_whole (D.hermite (y.shift (D.enter inRate outRate biq x).1)) hr hone
    have hstop := le_stop (a := frac) (b := 1) hr
    have hrest : count (frac + count frac ratio 1 * ratio - 1) ratio src.length <
        room - count frac ratio 1 ∨
        (src.length : ℚ) ≤ frac + count frac ratio 1 * ratio - 1 := by
      rcases h with h | h
      · exact .inl (by omega)
      · -- The phase is behind the whole buffer: nothing is emitted in this segment.
        have hle : (1 : ℚ) ≤ frac := by
          refine le_trans ?_ h
          exact_mod_cast Nat.le_add_left 1 _
        refine .inr ?_
        rw [(count_eq_zero hr).mpr hle]
        push_cast at h ⊢
        linarith
    obtain ⟨hunread, hexited, hout, hfrac, hy⟩ := ih (y.shift (D.enter inRate outRate biq x).1)
      (D.enter inRate outRate biq x).2 (by linarith) hrest
    rw [frames]
    dsimp only
    rw [hemit]
    -- The positions of the first segment come first, those of the rest are a segment further.
    refine ⟨hunread, hexited, ?_, ?_, hy⟩
    · show (points frac ratio 1).map _ ++ (frames D inRate outRate ratio src _ _ _ _).out = _
      rw [hout, points_cons hr, List.map_append, List.map_map]
      congr 1
      · apply List.map_congr_left
        intro p hp
        exact (pointAt_first y _ _ (mem_points hr hp).2).symm
      · apply List.map_congr_left
        intro p hp
        have hp0 := (mem_points hr hp).1
        exact (pointAt_next y _ _ (by linarith)).symm
    · show (frames D inRate outRate ratio src _ _ _ _).frac = _
      rw [hfrac, hcons]
      push_cast
      ring

/-- **A loop that has no room to spare is cut short.** -/
theorem frames_exits (D : Dsp σ β) (inRate outRate : Nat) (y : Window σ) (biq : β) (hr : 0 < ratio)
    {src : List σ} {frac : ℚ} {room : Nat} (h0 : 0 ≤ frac) (h : frac < src.length)
    (hroom : room ≤ count frac ratio src.length) :
    (frames D inRate outRate ratio src y biq frac room).exited = true := by
  induction src generalizing y biq frac room with
  | nil =>
    rw [List.length_nil, Nat.cast_zero] at h
    exact absurd h (not_lt.mpr h0)
  | cons x src ih =>
    rw [List.length_cons] at h hroom
    have hcons := count_cons hr frac src.length
    rw [frames]
    dsimp only
    by_cases hone : count frac ratio 1 < room ∨ 1 ≤ frac
    · rw [emit_whole _ hr hone, if_neg Bool.false_ne_true]
      have hstop := le_stop (a := frac) (b := 1) hr
      have hleft : room - count frac ratio 1 ≤ count (frac + count frac ratio 1 * ratio - 1) ratio
          src.length := by
        omega
      refine ih _ _ (by linarith) ?_ hleft
      -- The phase is still inside the buffer.
      rcases hone with hone | hone
      · have hlt : count frac ratio 1 < count frac ratio (src.length + 1 : Nat) := by omega
        have := (lt_count hr).mp hlt
        push_cast at this
        linarith
      · rw [(count_eq_zero hr).mpr hone]
        push_cast at h ⊢
        linarith
    · obtain ⟨hle, hlt⟩ := not_or.mp hone
      rw [emit_exits _ hr (not_le.mp hlt) (Nat.not_lt.mp hle), if_pos rfl]

/-- The phase never becomes negative. -/
theorem frames_frac (hr : 0 < ratio) {src : List σ} {y : Window σ} {biq : β} {frac : ℚ} {room : Nat}
    (h0 : 0 ≤ frac) :
    0 ≤ (frames D inRate outRate ratio src y biq frac room).frac := by
  induction src generalizing y biq frac room with
  | nil => exact h0
  | cons x src ih =>
    obtain ⟨hpos, hdone⟩ :=
      emit_frac (D.hermite (y.shift (D.enter inRate outRate biq x).1)) room hr h0
    rw [frames]
    dsimp only
    split
    · exact hpos
    · rename_i hd
      have hge := hdone (by simpa using hd)
      exact ih (by linarith)

end Frames

/-! ## The calls -/

theorem clampPll_bounds (i : ℚ) : -pllMaxCorrection ≤ clampPll i ∧
    clampPll i ≤ pllMaxCorrection := by
  have hmax : -pllMaxCorrection ≤ pllMaxCorrection := by decide +kernel
  have hhigh : (if pllMaxCorrection < i then pllMaxCorrection else i) ≤ pllMaxCorrection := by
    split
    · exact le_refl _
    · rename_i hle
      exact not_lt.mp hle
  unfold clampPll
  generalize (if pllMaxCorrection < i then pllMaxCorrection else i) = j at hhigh
  dsimp only
  split
  · exact ⟨le_refl _, hmax⟩
  · rename_i hle
    exact ⟨not_lt.mp hle, hhigh⟩

theorem bentRatio_pos {integrator : ℚ} {inRate outRate : Nat} (h : -pllMaxCorrection ≤ integrator)
    (hin : 0 < inRate) (hout : 0 < outRate) : 0 < bentRatio integrator inRate outRate := by
  have hone : 0 < 1 + integrator := by
    have hmax : (-1 : ℚ) < -pllMaxCorrection := by decide +kernel
    linarith
  have hin' : (0 : ℚ) < inRate := by exact_mod_cast hin
  have hout' : (0 : ℚ) < outRate := by exact_mod_cast hout
  exact mul_pos (div_pos hin' hout') hone

namespace Call

variable {σ β : Type} {D : Dsp σ β} {r : Resampler σ β} {c : Call σ}

theorem ratio_pos (h : c.Resamples) : 0 < c.ratio r := by
  obtain ⟨hhal, hrest⟩ := not_or.mp h
  obtain ⟨hguest, -⟩ := not_or.mp hrest
  exact bentRatio_pos (clampPll_bounds _).1 (Nat.pos_of_ne_zero hguest) (Nat.pos_of_ne_zero hhal)

/-- A call reads the whole buffer or nothing, unless it resamples. -/
theorem writeConvert_plain
    (h : ¬ (0 < c.src.length ∧ c.Resamples ∧ c.HasRoom c.guestRate c.halRate)) :
    c.writeConvert D r = c.refused r ∨
      c.writeConvert D r =
        { ret := 8 * c.src.length, rs := r, out := c.src, unread := [], exited := false } := by
  unfold writeConvert
  split
  · rename_i hresamples
    left
    rcases Nat.eq_zero_or_pos c.src.length with hzero | hpos
    · rw [writeResampled, if_pos (.inl hzero)]
    · have hroom : ¬ c.HasRoom c.guestRate c.halRate := fun hroom => h ⟨hpos, hresamples, hroom⟩
      rw [writeResampled, if_pos hroom, ite_self]
  · unfold writePassthrough
    split
    · exact .inl rfl
    · exact .inr rfl

/-- What a call that resamples leaves. -/
theorem writeConvert_resampled (h : c.Resamples) (hroom : c.HasRoom c.guestRate c.halRate)
    (hsrc : 0 < c.src.length) :
    c.writeConvert D r =
      let l := frames D c.guestRate c.halRate (c.ratio r) c.src r.y r.biq r.frac
        (maxOutBytes c.src.length c.guestRate c.halRate / 8)
      { ret := 8 * l.out.length
        rs := { y := l.y, frac := l.frac, biq := l.biq,
                integrator := nextIntegrator r.integrator c.depth c.halRate }
        out := l.out
        unread := l.unread
        exited := l.exited } := by
  have hrates : ¬ (c.src.length = 0 ∨ c.guestRate = 0 ∨ c.halRate = 0) := by
    unfold Resamples at h
    omega
  rw [writeConvert, if_pos h, writeResampled, if_neg hrates, if_neg (not_not.mpr hroom)]
  rfl

theorem plain_zero {w : Written σ β} (h : w = c.refused r ∨
    w = { ret := 8 * c.src.length, rs := r, out := c.src, unread := [], exited := false })
      (hret : w.ret = 0) :
    w.unread = c.src ∧ w.rs = r := by
  rcases h with rfl | rfl
  · exact ⟨rfl, rfl⟩
  · have hlength : 8 * c.src.length = 0 := hret
    have hsrc : c.src = [] := List.eq_nil_of_length_eq_zero (by omega)
    exact ⟨hsrc.symm, rfl⟩

/-- A suited call does what it should. -/
theorem Suited.meets (h0 : 0 ≤ r.frac) (hsrc : 0 < c.src.length) (h : c.Suited r) :
    c.Meets D r := by
  by_cases hcase : c.Resamples ∧ c.HasRoom c.guestRate c.halRate
  · obtain ⟨hresamples, hroom⟩ := hcase
    obtain ⟨hin, hreach⟩ := h hresamples hroom
    have hr : 0 < c.ratio r := ratio_pos hresamples
    have hpos := (count_pos hr).mpr hin
    have hle := (count_le hr).mpr hreach
    have hcount : count r.frac (c.ratio r) c.src.length < maxOutBytes c.src.length c.guestRate
        c.halRate / 8 := by omega
    obtain ⟨hunread, hexited, hout, hfrac, hy⟩ :=
      frames_whole D c.guestRate c.halRate r.y r.biq hr h0
      (.inl hcount)
    have hlength := congrArg List.length hout
    rw [List.length_map, length_points] at hlength
    constructor
    · intro _ _
      constructor
      all_goals rw [writeConvert_resampled hresamples hroom hsrc]
      · exact hunread
      · exact hexited
      · exact hout
      · show 8 * (frames ..).out.length ≤ _
        omega
      · exact hfrac
      · exact frames_frac hr h0
      · exact hy
    · rw [writeConvert_resampled hresamples hroom hsrc]
      intro hret
      have : 8 * (frames ..).out.length = 0 := hret
      omega
  · exact ⟨fun hresamples hroom => absurd ⟨hresamples, hroom⟩ hcase,
      plain_zero (writeConvert_plain fun h => hcase h.2)⟩

/-- A call that is not suited is cut short, or returns 0 with the buffer read. -/
theorem Meets.suited (h0 : 0 ≤ r.frac) (hsrc : 0 < c.src.length) (h : c.Meets D r) :
    c.Suited r := by
  intro hresamples hroom
  have hr : 0 < c.ratio r := ratio_pos hresamples
  obtain ⟨hread, huncut, hout, -, -, -, -⟩ := h.whole hresamples hroom
  have hin : r.frac < c.src.length := by
    by_contra hge
    have hzero : (c.writeConvert D r).ret = 0 := by
      rw [writeConvert_resampled hresamples hroom hsrc] at hout ⊢
      show 8 * (frames ..).out.length = 0
      rw [show (frames ..).out = _ from hout, points_of_le hr (not_lt.mp hge)]
      rfl
    have hkept := (h.zero hzero).1
    rw [hread] at hkept
    rw [← hkept] at hsrc
    exact Nat.lt_irrefl _ hsrc
  refine ⟨hin, ?_⟩
  have hcount : ¬ maxOutBytes c.src.length c.guestRate c.halRate / 8 ≤ count r.frac
      (c.ratio r) c.src.length := by
    intro hle
    rw [writeConvert_resampled hresamples hroom hsrc] at huncut
    have hexits := frames_exits D c.guestRate c.halRate r.y r.biq hr h0 hin hle
    exact Bool.false_ne_true (huncut.symm.trans hexits)
  rw [← count_le hr]
  omega

theorem frac_writeConvert (h0 : 0 ≤ r.frac) : 0 ≤ (c.writeConvert D r).rs.frac := by
  by_cases hcase : 0 < c.src.length ∧ c.Resamples ∧ c.HasRoom c.guestRate c.halRate
  · obtain ⟨hsrc, hresamples, hroom⟩ := hcase
    rw [writeConvert_resampled hresamples hroom hsrc]
    exact frames_frac (ratio_pos hresamples) h0
  · rcases writeConvert_plain (D := D) (r := r) hcase with h | h
    · rw [h]
      exact h0
    · rw [h]
      exact h0

/-- A call that suits the buffer, if it has a frame, reads it whole or
    returns 0 with nothing read. -/
theorem read_whole (h0 : 0 ≤ r.frac) (h : 0 < c.src.length → c.Suited r) :
    (c.writeConvert D r).ret = 0 ∧ (c.writeConvert D r).unread = c.src ∨
      (c.writeConvert D r).ret ≠ 0 ∧ (c.writeConvert D r).unread = [] := by
  by_cases hret : (c.writeConvert D r).ret = 0
  · left
    refine ⟨hret, ?_⟩
    rcases Nat.eq_zero_or_pos c.src.length with hzero | hpos
    · exact (plain_zero (writeConvert_plain fun hc => by omega) hret).1
    · exact (((h hpos).meets h0 hpos).zero hret).1
  · right
    refine ⟨hret, ?_⟩
    by_cases hcase : 0 < c.src.length ∧ c.Resamples ∧ c.HasRoom c.guestRate c.halRate
    · obtain ⟨hsrc, hresamples, hroom⟩ := hcase
      exact (((h hsrc).meets h0 hsrc).whole hresamples hroom).read
    · rcases writeConvert_plain (D := D) (r := r) hcase with hw | hw
      · rw [hw] at hret
        exact absurd rfl hret
      · rw [hw]

end Call

/-! ## The runs -/

section Runs

variable {σ β : Type} {D : Dsp σ β} {s t : Feed σ β} {e : FeedEvent σ}

theorem frac_step (h0 : 0 ≤ s.rs.frac) (hs : (feeding D).step s e = some t) : 0 ≤ t.rs.frac := by
  rcases e with src | ⟨halRate, guestRate, depth⟩ | _ | _
  · obtain rfl := Option.some.inj hs
    exact h0
  · dsimp only [feeding] at hs
    split at hs
    · exact absurd hs (Option.some_ne_none t).symm
    · obtain rfl := Option.some.inj hs
      exact Call.frac_writeConvert h0
  · dsimp only [feeding] at hs
    split at hs
    · exact absurd hs (Option.some_ne_none t).symm
    · obtain rfl := Option.some.inj hs
      exact h0
  · obtain rfl := Option.some.inj hs
    exact le_refl _

theorem frac_reach {G : Feed σ β → FeedEvent σ → Prop} {i : ℚ}
    (h : (feeding D).Reach G (Feed.start D i) s) :
    0 ≤ s.rs.frac :=
  h.inv (I := fun s => 0 ≤ s.rs.frac) (le_refl _) fun _ _ _ h0 _ hs => frac_step h0 hs

/-- A suited round reads the buffer and takes it, or does neither. -/
theorem fed_step (h0 : 0 ≤ s.rs.frac) (h : s.fed = s.taken.flatten) (hg : Suits s e)
    (hs : (feeding D).step s e = some t) : t.fed = t.taken.flatten := by
  rcases e with src | ⟨halRate, guestRate, depth⟩ | _ | _
  · obtain rfl := Option.some.inj hs
    exact h
  · dsimp only [feeding] at hs
    split at hs
    · exact absurd hs (Option.some_ne_none t).symm
    · rename_i src queue hqueue
      obtain rfl := Option.some.inj hs
      have hsuited : 0 < src.length → Call.Suited s.rs ⟨halRate, guestRate, depth, src⟩ := by
        have hmatch := hg
        unfold Suits at hmatch
        rw [hqueue] at hmatch
        exact hmatch
      unfold Feed.round
      dsimp only
      rcases @Call.read_whole _ _ D _ ⟨halRate, guestRate, depth, src⟩ h0
          hsuited with ⟨hret, hunread⟩ | ⟨hret, hunread⟩
      · rw [if_pos hret, hunread]
        show s.fed ++ src.take (src.length - src.length) = _
        rw [Nat.sub_self, List.take_zero, List.append_nil, h]
      · rw [if_neg hret, hunread, List.flatten_concat, h]
        show _ ++ src.take (src.length - 0) = _
        rw [Nat.sub_zero, List.take_length]
  · dsimp only [feeding] at hs
    split at hs
    · exact absurd hs (Option.some_ne_none t).symm
    · obtain rfl := Option.some.inj hs
      exact h
  · obtain rfl := Option.some.inj hs
    exact h

/-- **A call consumes its buffer whole or not at all just where it is suited**, whatever the calls
    before it were; and as long as the rounds find suited buffers, the resampler has read the
    buffers that left the queue, each once. -/
theorem buffers_whole_iff {i : ℚ} (h : (feeding D).Reach Machine.Free (Feed.start D i) s) :
    (∀ c : Call σ, 0 < c.src.length → (c.Meets D s.rs ↔ c.Suited s.rs)) ∧
      ((feeding D).Reach Suits (Feed.start D i) s → s.fed = s.taken.flatten) := by
  refine ⟨?_, ?_⟩
  · intro c hsrc
    have h0 := frac_reach h
    exact ⟨Call.Meets.suited h0 hsrc, Call.Suited.meets h0 hsrc⟩
  · intro hsuits
    have hboth := hsuits.inv (I := fun s : Feed σ β => 0 ≤ s.rs.frac ∧ s.fed = s.taken.flatten)
        ⟨le_refl _, rfl⟩
      fun _ _ _ hI hg hs => ⟨frac_step hI.1 hs, fed_step hI.1 hI.2 hg hs⟩
    exact hboth.2

end Runs

/-- The Hermite curve on exact samples of one channel, and no lowpass: the loops do
    not look at the samples. -/
def exactDsp : Dsp ℚ Unit where
  lowpass _ _ biq x := (x, biq)
  hermite y t :=
    let m1 := (y.y2 - y.y0) / 2
    let m2 := (y.y3 - y.y1) / 2
    (2 * t ^ 3 - 3 * t ^ 2 + 1) * y.y1 + (t ^ 3 - 2 * t ^ 2 + t) * m1 +
      (-2 * t ^ 3 + 3 * t ^ 2) * y.y2 +
      (t ^ 3 - t ^ 2) * m2
  silence := 0
  rest := ()

/-- Two buffers on their way from 44.1 kHz to 48 kHz. -/
theorem two_buffers_whole : ∃ s : Feed ℚ Unit, s.fed = [1, 2, 3, 4, 5, 6] ∧
    s.taken = [[1, 2, 3, 4], [5, 6]] ∧
    s.out.length = 7 ∧ s.fed = s.taken.flatten := by
  obtain ⟨s, hr, hs⟩ :=
    Machine.Reach.of_run_any (M := feeding exactDsp) (G := Suits) (s := Feed.start exactDsp 0)
    (p := fun s => s.fed = [1, 2, 3, 4, 5, 6] ∧ s.taken = [[1, 2, 3, 4], [5, 6]] ∧ s.out.length = 7)
    [.enqueue [1, 2, 3, 4], .enqueue [5, 6], .round 48000 44100 30720, .round 48000 44100 30720]
      (by decide +kernel)
  obtain ⟨hfed, htaken, hout⟩ := of_decide_eq_true hs
  exact ⟨s, hfed, htaken, hout, (buffers_whole_iff (hr.mono fun _ _ _ _ => trivial)).2 hr⟩

/-- 512 frames from 44.1 kHz to 96 kHz, while the ring has been empty for a while. -/
def longCall : Call ℚ :=
  { halRate := 96000, guestRate := 44100, depth := 0, src := List.replicate 512 0 }

/-- A long buffer at the PLL's lower bound overruns the reserved size; and where the rate goes down,
    a buffer of one frame behind the phase is read and stays in the queue, to be read again. -/
theorem buffers_cut_short_or_fed_twice :
    (¬ ∀ i, -pllMaxCorrection ≤ i → i ≤ pllMaxCorrection → ∀ c : Call ℚ, 0 < c.src.length →
      c.Meets exactDsp (Feed.start exactDsp i).rs) ∧
    ¬ ∀ s : Feed ℚ Unit, (feeding exactDsp).Reach Machine.Free (Feed.start exactDsp 0) s →
    s.fed = s.taken.flatten := by
  refine ⟨?_, ?_⟩
  · intro hall
    have hsrc : 0 < longCall.src.length := by
      rw [longCall, List.length_replicate]
      decide
    have hmeets := hall (-pllMaxCorrection) (by decide +kernel) (by decide +kernel) longCall hsrc
    have hsuited : longCall.Suited (Feed.start exactDsp (-pllMaxCorrection)).rs :=
      hmeets.suited (le_refl _) hsrc
    have hnot : ¬ longCall.Suited (Feed.start exactDsp (-pllMaxCorrection)).rs := by decide +kernel
    exact hnot hsuited
  · intro hall
    obtain ⟨s, hr, hs⟩ := Machine.Reach.of_run_any (M := feeding exactDsp) (G := Machine.Free)
      (s := Feed.start exactDsp 0) (p := fun s => s.fed = [1, 2, 2] ∧ s.taken = [[1], [2]])
      [.enqueue [1], .enqueue [2], .round 44100 96000 28224, .round 44100 96000 28224,
        .round 44100 96000 28224]
      (by decide +kernel)
    obtain ⟨hfed, htaken⟩ := of_decide_eq_true hs
    have htwice := hall s hr
    rw [hfed, htaken] at htwice
    revert htwice
    decide

end CdjEmu.Bypass
