/-
  THE REPORTED PIPELINE DEPTH — `frames_in_flight` against what QEMU really holds.

  A buffer's frames are added when it is submitted and taken off when it is collected.  Two places
  break the balance.  The stop work collects without taking off, so what it finds is counted until
  the next PREPARE; and PREPARE counts the flags before it releases the accumulation buffer, whose
  flag is up although it was never submitted.

  `real_iff` says that nothing else does: from a state with the real depth, a step leads to one
  exactly when it is neither of the two.

  1. **Program** — the driver's machine of `Guest/SoundDriver`; nothing is added to it but the names
     of the two sections that break the balance.

  2. **Specification** — `Real`: the count is the number of buffers that QEMU holds, submitted or
     returned and not yet collected, times the frames of one.

  3. **The crux** — a move of a buffer changes both sides by the same (`Move` in `Guest/SoundPool`
     says by how much), so a section keeps the count if its moves are those that it counts; the
     frames of a buffer are not zero, so each of the two exceptions shows.
-/
import CdjEmu.Guest.SoundPool

namespace CdjEmu.Sound

open Machine

namespace Vsnd

/-- The frames of one TX buffer. -/
def Params.frames (p : Params) : Int := p.periodSize * p.qemuFactor

/-- `frames_in_flight` is what QEMU holds: the buffers submitted and not collected. -/
def Real (v : Vsnd) : Prop :=
  v.framesInFlight = (v.submitted.length + v.used.length : Nat) * Params.frames v.params

instance (v : Vsnd) : Decidable v.Real := inferInstanceAs (Decidable (_ = _))

/-- The parameters stay as they are. -/
def ParamsFixed (_ : Vsnd) : Event → Prop
  | .hwParams _ => False
  | _ => True

/-- A step that keeps the count: the stop work finds nothing to collect, and
    PREPARE nothing half filled. -/
def Counted (v : Vsnd) : Event → Prop
  | .stopWork => v.used = []
  | .prepare => v.accumBuf = none
  | a => v.ParamsFixed a

instance (v : Vsnd) (a : Event) : Decidable (v.ParamsFixed a) := by
  cases a <;> (unfold ParamsFixed; infer_instance)

instance (v : Vsnd) (a : Event) : Decidable (v.Counted a) := by
  cases a <;> (unfold Counted; infer_instance)

theorem Counted.paramsFixed {v : Vsnd} {a : Event} (h : v.Counted a) : v.ParamsFixed a := by
  cases a with
  | hwParams p => exact h
  | _ => trivial

/-! ## The frames of a buffer -/

theorem frameBytes_pos (p : HwParams) : 0 < p.params.frameBytes := by
  show 0 < 2 * p.format.bps
  cases p.format <;> decide

/-- What is added and taken off are the frames of one buffer. -/
theorem bufFrames_eq (p : HwParams) : p.params.bufFrames = Params.frames p.params := by
  have hpos := frameBytes_pos p
  have hbytes :
      (p.params.qemuPeriodBytes : Int) = Params.frames p.params * p.params.frameBytes := by
    show ((p.periodSize * p.params.frameBytes * p.params.qemuFactor : Nat) : Int) =
      (p.periodSize : Int) * p.params.qemuFactor * p.params.frameBytes
    push_cast
    ring
  rw [Params.bufFrames, if_neg (by omega), hbytes]
  exact Int.mul_ediv_cancel _ (by omega)

theorem frames_pos (p : HwParams) : 0 < Params.frames p.params := by
  have hfactor := factor_pos p
  have hsize := p.periodSize_pos
  exact Int.mul_pos (Int.natCast_pos.mpr hsize) (Int.natCast_pos.mpr hfactor)

variable {v w : Vsnd} {p : HwParams}

/-- The flags are counted into frames. -/
theorem reseed_eq (h : v.params = p.params) : v.reseed = v.flagged * Params.frames v.params := by
  have hpos := frameBytes_pos p
  have hframes := bufFrames_eq p
  rw [Params.bufFrames, if_neg (by omega)] at hframes
  have hdvd : (p.params.frameBytes : Int) ∣ p.params.qemuPeriodBytes := by
    show (p.params.frameBytes : Int) ∣
        ((p.periodSize * p.params.frameBytes * p.params.qemuFactor : Nat) : Int)
    exact Int.natCast_dvd_natCast.mpr ⟨p.periodSize * p.params.qemuFactor, by ring⟩
  rw [reseed, h, if_neg (by omega), Int.mul_ediv_assoc _ hdvd, hframes]

/-- The flags are up for the buffers of QEMU and the one that is being filled. -/
theorem Flagged.flagged_eq (h : v.Flagged) :
    v.flagged = v.submitted.length + v.used.length + v.accumBuf.toList.length := by
  have honce : (v.submitted ++ v.used ++ v.accumBuf.toList).Nodup := by
    refine List.nodup_append.mpr ⟨h.once, ?_, ?_⟩
    · cases v.accumBuf <;> simp
    · rintro b hb c hc rfl
      exact h.apart b (Option.mem_toList.mp hc) hb
  have hperm : ((List.finRange txBufs).filter v.inFlight).Perm
      (v.submitted ++ v.used ++ v.accumBuf.toList) := by
    refine (List.perm_ext_iff_of_nodup ((List.nodup_finRange _).filter _) honce).mpr fun b => ?_
    rw [List.mem_filter, List.mem_append (s := v.submitted ++ v.used), Option.mem_toList]
    have := h.flag b
    simp only [List.mem_finRange, true_and, this]
    exact Or.comm
  have hlen := hperm.length_eq
  simp only [List.length_append] at hlen
  rw [flagged, List.countP_eq_length_filter]
  omega

/-! ## Moves and sections -/

/-- **The step**: a move that takes a buffer's frames off for each buffer it
    collects keeps the count. -/
theorem Move.real (hp : v.params = p.params) (hm : Move v.params.bufFrames v w) (h : v.Real) :
    w.Real := by
  have hframes : v.params.bufFrames = Params.frames v.params := by
    rw [hp]
    exact bufFrames_eq p
  unfold Real at h ⊢
  rw [hm.params]
  cases hm with
  | other hu => rw [hu.framesInFlight, hu.submitted, hu.used, h]
  | @takeBack b rest hused =>
    show v.framesInFlight - v.params.bufFrames = (v.submitted.length + rest.length : Nat) * _
    rw [h, hframes, hused, List.length_cons]
    push_cast
    ring
  | fill _ _ | count _ _ | release _ => exact h
  | @submit b _ _ =>
    show v.framesInFlight + v.params.bufFrames =
        ((v.submitted ++ [b]).length + v.used.length : Nat) * _
    rw [h, hframes, List.length_append, List.length_singleton]
    push_cast
    ring
  | @returns b hb =>
    have hlen := List.length_erase_of_mem hb
    have hpos := List.length_pos_of_mem hb
    show v.framesInFlight = ((v.submitted.erase b).length + (v.used ++ [b]).length : Nat) * _
    rw [h, hlen, List.length_append, List.length_singleton]
    congr 2
    omega

theorem Moves.real (hp : v.params = p.params) (hm : Moves v.params.bufFrames v w) (h : v.Real) :
    w.Real := by
  induction hm with
  | refl => exact h
  | @tail u w hm hlast ih =>
    have hparams := Moves.params hm
    rw [← hparams] at hlast
    exact Move.real (hparams.trans hp) hlast ih

/-- The loop takes back all that was returned. -/
theorem collectLoop_spec (frames : Int) (v : Vsnd) :
    (v.collect frames).used = [] ∧ (v.collect frames).submitted = v.submitted ∧
      (v.collect frames).framesInFlight = v.framesInFlight - v.used.length * frames := by
  suffices h : ∀ n v, v.used.length = n → (collectLoop frames n v).used = [] ∧
      (collectLoop frames n v).submitted = v.submitted ∧
      (collectLoop frames n v).framesInFlight = v.framesInFlight - n * frames from h _ v rfl
  intro n
  induction n with
  | zero =>
    intro v hv
    exact ⟨List.eq_nil_of_length_eq_zero hv, rfl, by simp [collectLoop]⟩
  | succ n ih =>
    intro v hv
    obtain ⟨b, rest, hused⟩ := List.exists_cons_of_length_eq_add_one hv
    rw [hused, List.length_cons] at hv
    obtain ⟨hempty, hsub, hcount⟩ :=
      ih ({ v with used := rest }.takeBack frames b) (by show rest.length = n; omega)
    have hloop : collectLoop frames (n + 1) v = collectLoop frames n
        ({ v with used := rest }.takeBack frames b) := by
      rw [collectLoop, hused]
    rw [hloop]
    refine ⟨hempty, hsub, hcount.trans ?_⟩
    show v.framesInFlight - frames - n * frames = v.framesInFlight - (n + 1 : Nat) * frames
    push_cast
    ring

/-- The stop work collects, and its count stays. -/
theorem stopSection_spec (v : Vsnd) :
    v.stopSection.used = [] ∧ v.stopSection.submitted = v.submitted ∧
      v.stopSection.framesInFlight = v.framesInFlight := by
  obtain ⟨hused, hsub, hcount⟩ := collectLoop_spec 0 v
  rw [Int.mul_zero, Int.sub_zero] at hcount
  unfold stopSection
  dsimp only
  split <;> exact ⟨hused, hsub, hcount⟩

/-- **PREPARE** counts the flags: the depth is real unless a buffer was being filled. -/
theorem Flagged.real_prepare_iff (h : v.Flagged) (hp : v.params = p.params) (preparing : Bool) :
    Real { v.prepareSection with preparing := preparing, prepared := true } ↔
    v.accumBuf = none := by
  obtain ⟨hkept, -⟩ := prepareSection_spec h
  have hpos := frames_pos p
  generalize v.prepareSection = u at hkept
  show u.framesInFlight = (u.submitted.length + u.used.length : Nat) * Params.frames u.params ↔
      v.accumBuf = none
  rw [hkept.framesInFlight, hkept.submitted, hkept.used, hkept.params, reseed_eq hp,
    h.flagged_eq, hp, Int.mul_eq_mul_right_iff hpos.ne']
  cases v.accumBuf with
  | none => simp
  | some b =>
    simp only [Option.toList_some, List.length_singleton, reduceCtorEq, iff_false]
    omega

/-! ## Runs -/

/-- **Where the count goes wrong.**  From a state with the real depth a step leads to
    one exactly when it is no PREPARE that finds a half-filled buffer and no stop work
    that finds a returned one. -/
theorem real_iff {a : Event} (hp : v.params = p.params) (hv : v.Placed) (h : v.Real)
    (hfixed : v.ParamsFixed a) (hs : vsnd.step v a = some w) : w.Real ↔ v.Counted a := by
  have hpos := frames_pos p
  obtain ⟨o, ho⟩ := hv.owned
  rcases step_cases hs with ⟨q, rfl, -⟩ | ⟨rfl, rfl⟩ | ⟨rfl, rfl⟩ | ⟨hprep, hstop, hm⟩
  · exact absurd hfixed id
  · -- PREPARE: the flags count the accumulation buffer too
    exact ho.flagged.real_prepare_iff hp false
  · -- the stop work: what it collects leaves the queue and not the count
    obtain ⟨hused, hsub, hcount⟩ := stopSection_spec v
    have hparams := Moves.params (stopSection_moves v)
    show v.stopSection.framesInFlight =
        (v.stopSection.submitted.length + v.stopSection.used.length : Nat) *
      Params.frames v.stopSection.params ↔ v.used = []
    rw [hcount, hused, hsub, hparams, h, hp, Int.mul_eq_mul_right_iff hpos.ne',
      ← List.length_eq_zero_iff]
    simp
  · refine iff_of_true (Moves.real hp hm h) ?_
    cases a with
    | hwParams q => exact hfixed
    | prepare => exact absurd rfl hprep
    | stopWork => exact absurd rfl hstop
    | _ => trivial

theorem real_firstPrepared (p : HwParams) : (firstPrepared p).Real :=
  ((flagged_probed p).real_prepare_iff rfl _).mpr rfl

theorem params_firstPrepared (p : HwParams) : (firstPrepared p).params = p.params := by
  have hkept := (prepareSection_spec (flagged_probed p)).1.params
  generalize hu : (probed p).prepareSection = u at hkept
  rw [firstPrepared, hu]
  exact hkept

theorem params_of_step {a : Event} (hv : v.Placed) (hfixed : v.ParamsFixed a)
    (hs : vsnd.step v a = some w) :
    w.params = v.params := by
  obtain ⟨o, ho⟩ := hv.owned
  rcases step_cases hs with ⟨q, rfl, -⟩ | ⟨-, rfl⟩ | ⟨-, rfl⟩ | ⟨-, -, hm⟩
  · exact absurd hfixed id
  · exact (prepareSection_spec ho.flagged).1.params
  · exact (stopSection_moves v).params
  · exact hm.params

theorem params_of_reach (h : vsnd.Reach ParamsFixed (firstPrepared p) v) :
    v.params = p.params ∧ v.Placed :=
  h.inv (I := fun v => v.params = p.params ∧ v.Placed)
    ⟨params_firstPrepared p, placed_firstPrepared p⟩
    fun _ _ _ hv hg hs => ⟨(params_of_step hv.2 hg hs).trans hv.1, hv.2.step hs⟩

/-- In every run with fixed parameters whose stop work finds no returned buffer to collect, and
    whose PREPARE finds no half-filled buffer, `frames_in_flight` is the number of buffers QEMU
    holds times the frames of one; and the first step of another kind makes it wrong. -/
theorem depth_is_real (h : vsnd.Reach Counted (firstPrepared p) v) :
    v.Real ∧ 0 ≤ v.framesInFlight ∧ (v.submitted = [] → v.used = [] → v.framesInFlight = 0) ∧
      ∀ a w, v.ParamsFixed a → vsnd.step v a = some w → (w.Real ↔ v.Counted a) := by
  have hreal : v.Real ∧ v.params = p.params ∧ v.Placed := by
    refine h.inv (I := fun v => v.Real ∧ v.params = p.params ∧ v.Placed)
      ⟨real_firstPrepared p, params_firstPrepared p, placed_firstPrepared p⟩ ?_
    rintro t a u ⟨hr, hpar, hpl⟩ hg hs
    exact ⟨(real_iff hpar hpl hr hg.paramsFixed hs).mpr hg,
      (params_of_step hpl hg.paramsFixed hs).trans hpar, hpl.step hs⟩
  obtain ⟨hr, hpar, hpl⟩ := hreal
  have hpos := frames_pos p
  refine ⟨hr, ?_, fun hsub hused => ?_, fun a w hfixed hs => real_iff hpar hpl hr hfixed hs⟩
  · rw [hr, hpar]
    positivity
  · rw [hr, hsub, hused]
    simp

set_option maxRecDepth 4000 in
/-- A buffer is submitted, returned and collected by the interrupt. -/
theorem one_buffer_counted : ∃ v : Vsnd, v.params = wide.params ∧ v.Real ∧
    v.framesInFlight = 0 := by
  obtain ⟨v, hreach, hv⟩ := Reach.of_run_any (M := vsnd) (G := Counted) (s := firstPrepared wide)
    (p := fun v => v.submitted.isEmpty && v.used.isEmpty)
    [.start, .timer 2, .taskletTake, .taskletSection 250 1, .taskletPutBack,
      .returns ⟨0, by decide⟩, .txDone] (by decide)
  simp only [Bool.and_eq_true, List.isEmpty_iff] at hv
  obtain ⟨hr, -, hzero, -⟩ := depth_is_real hreach
  exact ⟨v, (params_of_reach (hreach.mono fun _ _ _ hg => hg.paramsFixed)).1, hr, hzero hv.1 hv.2⟩

set_option maxRecDepth 4000 in
/-- A buffer that QEMU returns while the stream stops is collected by the stop
    work and stays counted. -/
theorem stop_work_keeps_a_returned_buffer_counted :
    ¬ ∀ (p : HwParams) (v : Vsnd), vsnd.Reach ParamsFixed (firstPrepared p) v → v.Real := by
  intro hall
  obtain ⟨v, hreach, hv⟩ :=
    Reach.of_run_any (M := vsnd) (G := ParamsFixed) (s := firstPrepared wide)
    (p := fun v => !decide v.Real)
    [.start, .timer 2, .taskletTake, .taskletSection 250 1, .taskletPutBack, .stop, .stopWorkBegin,
      .returns ⟨0, by decide⟩, .stopWork] (by decide)
  simp only [Bool.not_eq_true', decide_eq_false_iff_not] at hv
  exact hv (hall wide v hreach)

end Vsnd

end CdjEmu.Sound
