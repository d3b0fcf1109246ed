/-
  THE SHIFTED CLOCK — the shim takes the audio latency off what `clock_gettime` and `gettimeofday`
  report.

  `apply_shift_ts` and `apply_shift_tv` are one subtraction in two units (`borrow`), which borrows
  one second at most. The crux is what the borrow leaves: the difference is always right as an
  amount of time (`total_borrow`), and its fraction is in range exactly when one second is enough
  (`normal_borrow_iff`).

  `refresh_shift_ms` stores whole milliseconds, up to five seconds.

  1. **Program** — `refresh_shift_ms` with what it takes for granted of its three settings, and the
     two functions that take the shift off; division and remainder are those of C.

  2. **Specification** — `Exact`: the time that is handed out is normalized and is the time before
     less the shift.  The clock goes on as the unshifted one, and the two calls agree to the
     microsecond.

  3. **The bridge** — the condition is one on the fraction of the time and the shift, so that for a
     shift of at most a second it always holds.
-/
import Mathlib

namespace CdjEmu.Guest.Clock

/-! ## The program -/

/-- `refresh_shift_ms`: what is stored in `g_shift_ns_atomic`, which holds `prev`, for what the
    three parameters read as. -/
def refreshShiftMs (prev enabled manual auto : Int) : Int :=
  if enabled ≤ 0 then if prev ≠ 0 then 0 else prev
  else
    let ms := if manual > 0 then manual else if auto < 0 then 0 else auto
    let ms := if ms > 5000 then 5000 else ms
    let next := ms * 1000000
    if prev = next then prev else next

/-- Seconds and a fraction, of which `unit` make a second. -/
structure Time where
  sec : Int
  frac : Int
  deriving DecidableEq

/-- Take `shift` fractions off. -/
def borrow (unit shift : Int) (t : Time) : Time :=
  if t.sec > 0 ∨ t.frac ≥ shift then
    if t.frac ≥ shift then ⟨t.sec, t.frac - shift⟩ else ⟨t.sec - 1, t.frac + (unit - shift)⟩
  else t

/-- On a `timespec`, in nanoseconds. -/
def applyShiftTs (ns : Int) (t : Time) : Time := if ns = 0 then t else borrow 1000000000 ns t

/-- On a `timeval`, in microseconds. -/
def applyShiftTv (ns : Int) (t : Time) : Time :=
  let us := ns.tdiv 1000
  if us = 0 then t else borrow 1000000 us t

/-! ## The subtraction -/

/-- The amount of time, in fractions. -/
def Time.total (unit : Int) (t : Time) : Int := t.sec * unit + t.frac

def Time.Normal (unit : Int) (t : Time) : Prop := 0 ≤ t.frac ∧ t.frac < unit

instance (unit : Int) (t : Time) : Decidable (t.Normal unit) := inferInstanceAs (Decidable (_ ∧ _))

section Borrow

variable {unit shift : Int} {t : Time}

/-- Where there is something to take `shift` off, `borrow` takes it off. -/
theorem borrow_of_le (hn : t.Normal unit) (h : shift ≤ t.total unit) :
    borrow unit shift t = if t.frac ≥ shift then ⟨t.sec, t.frac - shift⟩ else
      ⟨t.sec - 1, t.frac + (unit - shift)⟩ := by
  obtain ⟨h0, hlt⟩ := hn
  rw [borrow]
  by_cases hfrac : t.frac ≥ shift
  · rw [if_pos (Or.inr hfrac)]
  · -- the fraction is too small, so there is a second to borrow from
    have hsec : t.sec > 0 := by
      by_contra hle
      have hmul : t.sec * unit ≤ 0 := mul_nonpos_of_nonpos_of_nonneg (by omega) (by omega)
      unfold Time.total at h
      omega
    rw [if_pos (Or.inl hsec)]

theorem total_borrow (hn : t.Normal unit) (h : shift ≤ t.total unit) :
    (borrow unit shift t).total unit = t.total unit - shift := by
  rw [borrow_of_le hn h]
  unfold Time.total
  split
  · show t.sec * unit + (t.frac - shift) = _
    omega
  · show (t.sec - 1) * unit + (t.frac + (unit - shift)) = _
    rw [sub_mul]
    omega

/-- **The fraction** is in range exactly when one second is enough to borrow. -/
theorem normal_borrow_iff (h0 : 0 ≤ shift) (hn : t.Normal unit) (h : shift ≤ t.total unit) :
    (borrow unit shift t).Normal unit ↔ shift ≤ unit + t.frac := by
  obtain ⟨hfrac, hlt⟩ := hn
  rw [borrow_of_le ⟨hfrac, hlt⟩ h]
  unfold Time.Normal
  split
  · show 0 ≤ t.frac - shift ∧ t.frac - shift < unit ↔ _
    omega
  · show 0 ≤ t.frac + (unit - shift) ∧ t.frac + (unit - shift) < unit ↔ _
    omega

end Borrow

/-! ## The stored shift -/

/-- Whole milliseconds, up to five seconds. -/
theorem refreshShiftMs_spec (prev enabled manual auto : Int) :
    ∃ ms, refreshShiftMs prev enabled manual auto = ms * 1000000 ∧ 0 ≤ ms ∧ ms ≤ 5000 := by
  unfold refreshShiftMs
  by_cases hoff : enabled ≤ 0
  · refine ⟨0, ?_, by omega, by omega⟩
    rw [if_pos hoff]
    split <;> omega
  · have hstore : ∀ next : Int, (if prev = next then prev else next) = next := by
      intro next
      split
      · assumption
      · rfl
    rw [if_neg hoff]
    refine ⟨_, hstore _, ?_, ?_⟩ <;> split_ifs <;> omega

/-! ## The two clocks -/

/-- What `gettimeofday` reports of a time in nanoseconds. -/
def Time.toTv (t : Time) : Time := ⟨t.sec, t.frac / 1000⟩

section Clocks

variable {ns ms : Int} {t : Time}

theorem applyShiftTs_eq (hn : t.Normal 1000000000) :
    applyShiftTs ns t = borrow 1000000000 ns t := by
  unfold applyShiftTs
  split
  · rename_i h0
    rw [h0, borrow, if_pos (Or.inr hn.1), if_pos hn.1, sub_zero]
  · rfl

theorem applyShiftTv_eq (h : ns = ms * 1000000) (hn : t.Normal 1000000) :
    applyShiftTv ns t = borrow 1000000 (ms * 1000) t := by
  have hus : ns.tdiv 1000 = ms * 1000 := by
    have hmul : ns = ms * 1000 * 1000 := by
      rw [h]
      ring
    rw [hmul, Int.mul_tdiv_cancel _ (by decide)]
  unfold applyShiftTv
  rw [hus]
  dsimp only
  split
  · rename_i h0
    rw [h0, borrow, if_pos (Or.inr hn.1), if_pos hn.1, sub_zero]
  · rfl

/-- The two clocks agree to the microsecond. -/
theorem toTv_borrow (hn : t.Normal 1000000000) :
    borrow 1000000 (ms * 1000) t.toTv = (borrow 1000000000 (ms * 1000000) t).toTv := by
  obtain ⟨h0, hlt⟩ := hn
  have hiff : t.toTv.frac ≥ ms * 1000 ↔ t.frac ≥ ms * 1000000 := by
    show t.frac / 1000 ≥ ms * 1000 ↔ _
    omega
  rw [borrow, borrow]
  simp only [hiff]
  show (if t.sec > 0 ∨ t.frac ≥ ms * 1000000 then _ else _) = _
  split_ifs
  · show Time.mk t.sec (t.frac / 1000 - ms * 1000) = ⟨t.sec, (t.frac - ms * 1000000) / 1000⟩
    rw [Time.mk.injEq]
    omega
  · show Time.mk (t.sec - 1) (t.frac / 1000 + (1000000 - ms * 1000)) =
        ⟨t.sec - 1, (t.frac + (1000000000 - ms * 1000000)) / 1000⟩
    rw [Time.mk.injEq]
    omega
  · rfl

end Clocks

/-- A time of at least the shift is turned into exactly that time less the
    shift, normalized again. -/
def Exact (unit shift : Int) (t t' : Time) : Prop :=
  t'.Normal unit ∧ t'.total unit = t.total unit - shift

instance (unit shift : Int) (t t' : Time) : Decidable (Exact unit shift t t') :=
  inferInstanceAs (Decidable (_ ∧ _))

/-- For every shift that `refresh_shift_ms` stores: the shifted times are exact exactly
    where one second is enough to borrow; the clock goes on as the unshifted one does,
    and the two calls agree. -/
theorem shift_exact_iff (prev enabled manual auto : Int) :
    (∀ t : Time, t.Normal 1000000000 →
      refreshShiftMs prev enabled manual auto ≤ t.total 1000000000 →
      (Exact 1000000000 (refreshShiftMs prev enabled manual auto) t
        (applyShiftTs (refreshShiftMs prev enabled manual auto) t) ↔
        refreshShiftMs prev enabled manual auto ≤ 1000000000 + t.frac)) ∧
    (∀ t : Time, t.Normal 1000000 →
      refreshShiftMs prev enabled manual auto / 1000 ≤ t.total 1000000 →
      (Exact 1000000 (refreshShiftMs prev enabled manual auto / 1000) t
        (applyShiftTv (refreshShiftMs prev enabled manual auto) t) ↔
        refreshShiftMs prev enabled manual auto / 1000 ≤ 1000000 + t.frac)) ∧
    (∀ t t' : Time, t.Normal 1000000000 → t'.Normal 1000000000 →
      refreshShiftMs prev enabled manual auto ≤ t.total 1000000000 →
      t.total 1000000000 ≤ t'.total 1000000000 →
        (applyShiftTs (refreshShiftMs prev enabled manual auto) t).total 1000000000 ≤
          (applyShiftTs (refreshShiftMs prev enabled manual auto) t').total 1000000000) ∧
    (∀ t : Time, t.Normal 1000000000 →
      refreshShiftMs prev enabled manual auto ≤ t.total 1000000000 →
      applyShiftTv (refreshShiftMs prev enabled manual auto) t.toTv =
        (applyShiftTs (refreshShiftMs prev enabled manual auto) t).toTv) := by
  obtain ⟨ms, hms, h0, -⟩ := refreshShiftMs_spec prev enabled manual auto
  generalize refreshShiftMs prev enabled manual auto = ns at hms
  have hus : ns / 1000 = ms * 1000 := by omega
  refine ⟨?_, ?_, ?_, ?_⟩
  · intro t hn hle
    rw [applyShiftTs_eq hn, Exact, normal_borrow_iff (by omega) hn hle]
    exact and_iff_left (total_borrow hn hle)
  · intro t hn hle
    rw [hus] at hle ⊢
    rw [applyShiftTv_eq hms hn, Exact, normal_borrow_iff (by omega) hn hle]
    exact and_iff_left (total_borrow hn hle)
  · intro t t' hn hn' hle hlater
    rw [applyShiftTs_eq hn, applyShiftTs_eq hn', total_borrow hn hle,
      total_borrow hn' (hle.trans hlater)]
    omega
  · intro t hn _
    have hn' : t.toTv.Normal 1000000 := by
      obtain ⟨hlo, hhi⟩ := hn
      show 0 ≤ t.frac / 1000 ∧ t.frac / 1000 < 1000000
      omega
    rw [applyShiftTs_eq hn, applyShiftTv_eq hms hn', hms]
    exact toTv_borrow hn

/-- Five seconds off ten: nine seconds and minus four thousand million nanoseconds. -/
theorem five_seconds_denormalized : ¬ ∀ (prev enabled manual auto : Int) (t : Time),
    t.Normal 1000000000 →
    refreshShiftMs prev enabled manual auto ≤ t.total 1000000000 →
      Exact 1000000000 (refreshShiftMs prev enabled manual auto) t
        (applyShiftTs (refreshShiftMs prev enabled manual auto) t) := by
  intro h
  have hten := h 0 1 5000 0 ⟨10, 0⟩ (by decide) (by decide)
  exact absurd hten (by decide)

/-- Twenty milliseconds off ten seconds. -/
theorem twenty_milliseconds_exact :
    Exact 1000000000 20000000 ⟨10, 0⟩ (applyShiftTs 20000000 ⟨10, 0⟩) :=
  ((shift_exact_iff 0 1 20 0).1 ⟨10, 0⟩ (by decide) (by decide)).mpr (by decide)

end CdjEmu.Guest.Clock
