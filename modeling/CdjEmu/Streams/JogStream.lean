/-
  THE JOG STREAM — from the guest's flips to the frames the UI holds.

  The guest publishes frames under a sequence lock; the host's thread ticks, copies a frame into one
  of two buffers and puts it into a slot; the UI takes frames from the slot, clones and drops them.
  A step is one load or store of the shared memory, one octet of a copy, one `Arc::get_mut` or one
  move of the UI, and they come in any order.

  Buffers are named by numbers.  `holders` lists every `Arc` there is, so its count is the strong
  count.  The connected flag, the repaint gate and the corner colours decide nothing here and are
  left out.  `count`, `history` and `inside` are history: how often the counter was advanced, the
  frames with the `seq` each was left with, the newest first, and the publishes finished since the
  last copy began.
-/
import CdjEmu.Lib.Machine
import CdjEmu.Lib.Seqlock
import CdjEmu.Streams.JogFrame

namespace CdjEmu.Jog

open Machine

/-- Where the guest is in `publish_frame`. -/
inductive Publisher where
  | idle
  | loaded (src : Nat → UInt32) (s : UInt32)
  | storing (src : Nat → UInt32) (s : UInt32) (rest : List (Nat × Nat))

/-- Where the host's thread is in `Session::tick`.  `left` is how many attempts of
    `copy_stable` are left. -/
inductive Reader where
  | idle
  | changed
  /-- In `writable`, in front of each `Arc::get_mut`. -/
  | getNext
  | getOther
  | ready
  | panicked
  | attempt (left : Nat)
  | copying (left : Nat) (seqBefore : UInt32) (i : Nat)
  | returned (seq : Option UInt32)
  /-- Behind `FrameBuffers::publish`, with the clone for the slot. -/
  | handing (image : Nat)

/-- The clone that the thread holds. -/
def Reader.image : Reader → Option Nat
  | .handing b => some b
  | _ => none

/-- From the moment `writable` has found a buffer until the frame is handed out. -/
def Reader.Writing : Reader → Prop
  | .ready | .attempt _ | .copying _ _ _ | .returned _ => True
  | _ => False

/-- Nothing found yet. -/
def Reader.Quiet : Reader → Prop
  | .idle | .changed | .getNext => True
  | _ => False

structure Stream where
  region : Region
  publisher : Publisher
  reader : Reader
  lastSeq : UInt32
  bufs : Bool → Nat
  next : Bool
  heap : Nat → Frame
  allocs : Nat
  slot : Option Nat
  ui : List Nat
  count : Nat
  history : List (UInt32 × Frame)
  inside : Nat

inductive Event where
  | publish (src : Nat → UInt32)
  | publisher
  /-- `free`: the slot's lock is free. -/
  | reader (free : Bool)
  | take
  | clone (b : Nat)
  | drop (b : Nat)
  | remap

/-- `blank_frame`, opaque black. -/
def blankFrame : Frame := Vector.ofFn fun i => if i.val % 4 = 3 then 255 else 0

/-- `header_is_xrgb_panel`. -/
def Region.IsXrgbPanel (r : Region) : Prop :=
  r.format = fmtXrgb8888 ∧ r.width.toNat = jogOutW ∧ r.height.toNat = jogOutH

instance (r : Region) : Decidable r.IsXrgbPanel := inferInstanceAs (Decidable (_ ∧ _))

namespace Stream

def boot : Stream where
  region := .initOnce
  publisher := .idle
  reader := .idle
  lastSeq := 0
  bufs := fun second => if second then 1 else 0
  next := false
  heap := fun _ => blankFrame
  allocs := 2
  slot := none
  ui := []
  count := 0
  history := [(0, Octets.zero frameBytes)]
  inside := 0

variable (s : Stream)

/-- The `Arc`s outside `FrameBuffers`. -/
def held : List Nat := s.slot.toList ++ s.reader.image.toList ++ s.ui

/-- Every `Arc` there is. -/
def holders : List Nat := [s.bufs false, s.bufs true] ++ s.held

/-- `Arc::get_mut` of the next buffer succeeds. -/
def Unshared : Prop := s.holders.count (s.bufs s.next) = 1

instance : Decidable s.Unshared := inferInstanceAs (Decidable (_ = _))

def canvas : Frame := s.heap (s.bufs s.next)

/-- The next step of `publish_frame`. -/
def publisherStep : Option Stream :=
  match s.publisher with
  | .idle => none
  | .loaded src v => some { s with
      region := { s.region with seq := v ||| 1 }, publisher := .storing src v stores,
      count := s.count + 1 }
  | .storing src v (st :: rest) => some { s with
      region := { s.region with pixels := storePixel s.region.pixels st.1 (src st.2) }
      publisher := .storing src v rest }
  | .storing src v [] => some { s with
      region := { s.region with seq := (v ||| 1) + 1 }, publisher := .idle, count := s.count + 1
      history := ((v ||| 1) + 1, frameOf src) :: s.history, inside := s.inside + 1 }

/-- The next step of `Session::tick`. -/
def readerStep (free : Bool) : Option Stream :=
  match s.reader with
  | .idle =>
    some (if s.region.seq = s.lastSeq ∨ s.region.seq &&& 1 ≠ 0 then s
      else { s with reader := .changed })
  | .changed => some { s with reader := if s.region.IsXrgbPanel then .getNext else .idle }
  | .getNext =>
      some (if s.Unshared then { s with reader := .ready } else
        { s with next := !s.next, reader := .getOther })
  | .getOther => some (if s.Unshared then { s with reader := .ready } else { s with
      bufs := Function.update s.bufs s.next s.allocs,
      heap := Function.update s.heap s.allocs blankFrame
      allocs := s.allocs + 1, reader := .ready })
  | .ready => some { s with reader := if s.Unshared then .attempt 4 else .panicked }
  | .panicked => none
  | .attempt 0 => some { s with reader := .returned none }
  | .attempt (left + 1) =>
      some (if s.region.seq &&& 1 ≠ 0 then { s with reader := .attempt left } else { s with
      reader := .copying left s.region.seq 0, inside := 0 })
  | .copying left seqBefore i =>
    if i < frameBytes then some { s with
      heap := Function.update s.heap (s.bufs s.next) (s.canvas.store i (s.region.pixels.byte i))
      reader := .copying left seqBefore (i + 1) }
    else some { s with
      reader := if s.region.seq = seqBefore then .returned (some seqBefore) else .attempt left }
  | .returned none => some { s with reader := .idle }
  | .returned (some v) => some (if v = s.lastSeq then { s with reader := .idle } else { s with
      lastSeq := v, next := !s.next, reader := .handing (s.bufs s.next) })
  | .handing image => some { s with slot := if free then some image else s.slot, reader := .idle }

end Stream

/-- `take`, and what the UI does with the frames it has.  A new file is mapped between two ticks. -/
def machine : Machine Stream Event where
  step s
    | .publish src => match s.publisher with
      | .idle => some { s with publisher := .loaded src s.region.seq }
      | _ => none
    | .publisher => s.publisherStep
    | .reader free => s.readerStep free
    | .take => some { s with slot := none, ui := s.slot.toList ++ s.ui }
    | .clone b => if b ∈ s.ui then some { s with ui := b :: s.ui } else none
    | .drop b => if b ∈ s.ui then some { s with ui := s.ui.erase b } else none
    | .remap => match s.reader with
      | .idle => some { s with
          region := .initOnce, publisher := .idle, lastSeq := 0, count := 0
          history := (0, Octets.zero frameBytes) :: s.history }
      | _ => none

/-! ## What a tick can do -/

/-- The steps of the thread. -/
inductive Ticked (s : Stream) (free : Bool) : Stream → Prop
  | quiet (r : Reader) : s.reader.Quiet ∨ s.reader = .returned none → r.Quiet →
      Ticked s free { s with reader := r }
  | same (v : UInt32) : s.reader = .returned (some v) → v = s.lastSeq →
      Ticked s free { s with reader := .idle }
  | flip : s.reader = .getNext → Ticked s free { s with next := !s.next, reader := .getOther }
  | found : s.reader = .getNext ∨ s.reader = .getOther → s.Unshared →
      Ticked s free { s with reader := .ready }
  | fresh : s.reader = .getOther → Ticked s free { s with
      bufs := Function.update s.bufs s.next s.allocs,
      heap := Function.update s.heap s.allocs blankFrame
      allocs := s.allocs + 1, reader := .ready }
  | panic : s.reader = .ready → ¬ s.Unshared → Ticked s free { s with reader := .panicked }
  | again (left : Nat) : s.reader = .ready ∨ s.reader = .attempt (left + 1) ∨
      (∃ v i, s.reader = .copying left v i) →
      Ticked s free { s with reader := .attempt left }
  | giveUp : s.reader = .attempt 0 → Ticked s free { s with reader := .returned none }
  | load (left : Nat) : s.reader = .attempt (left + 1) → s.region.seq &&& 1 = 0 →
      Ticked s free { s with
      reader := .copying left s.region.seq 0, inside := 0 }
  | octet (left : Nat) (v : UInt32) (i : Nat) :
      s.reader = .copying left v i → i < frameBytes → Ticked s free { s with
      heap := Function.update s.heap (s.bufs s.next) (s.canvas.store i (s.region.pixels.byte i))
      reader := .copying left v (i + 1) }
  | stable (left : Nat) (v : UInt32) (i : Nat) :
      s.reader = .copying left v i → frameBytes ≤ i → s.region.seq = v →
      Ticked s free { s with reader := .returned (some v) }
  | hand (v : UInt32) : s.reader = .returned (some v) → Ticked s free { s with
      lastSeq := v, next := !s.next, reader := .handing (s.bufs s.next) }
  | put (image : Nat) : s.reader = .handing image → Ticked s free { s with
      slot := if free then some image else s.slot, reader := .idle }

theorem readerStep_cases {s t : Stream} {free : Bool} (h : s.readerStep free = some t) :
    Ticked s free t := by
  unfold Stream.readerStep at h
  split at h
  · rename_i hr
    obtain rfl := Option.some.inj h
    split
    · have hs : s = { s with reader := .idle } := by rw [← hr]
      rw [hs]
      exact .quiet .idle (.inl trivial) trivial
    · exact .quiet .changed (.inl (by rw [hr]; trivial)) trivial
  · rename_i hr
    obtain rfl := Option.some.inj h
    split
    · exact .quiet .getNext (.inl (by rw [hr]; trivial)) trivial
    · exact .quiet .idle (.inl (by rw [hr]; trivial)) trivial
  · rename_i hr
    obtain rfl := Option.some.inj h
    split
    · rename_i hu
      exact .found (.inl hr) hu
    · exact .flip hr
  · rename_i hr
    obtain rfl := Option.some.inj h
    split
    · rename_i hu
      exact .found (.inr hr) hu
    · exact .fresh hr
  · rename_i hr
    obtain rfl := Option.some.inj h
    split
    · exact .again 4 (.inl hr)
    · rename_i hu
      exact .panic hr hu
  · cases h
  · rename_i hr
    obtain rfl := Option.some.inj h
    exact .giveUp hr
  · rename_i left hr
    obtain rfl := Option.some.inj h
    split
    · exact .again left (.inr (.inl hr))
    · rename_i heven
      exact .load left hr (not_not.mp heven)
  · rename_i left v i hr
    split at h
    · rename_i hi
      obtain rfl := Option.some.inj h
      exact .octet left v i hr hi
    · rename_i hi
      obtain rfl := Option.some.inj h
      split
      · rename_i heq
        exact .stable left v i hr (Nat.le_of_not_lt hi) heq
      · exact .again left (.inr (.inr ⟨v, i, hr⟩))
  · rename_i hr
    obtain rfl := Option.some.inj h
    exact .quiet .idle (.inr hr) trivial
  · rename_i v hr
    obtain rfl := Option.some.inj h
    split
    · rename_i hv
      exact .same v hr hv
    · exact .hand v hr
  · rename_i image hr
    obtain rfl := Option.some.inj h
    exact .put image hr

theorem Reader.Quiet.image_eq {r : Reader} (h : r.Quiet) :
    r.image = none ∧ ¬ r.Writing ∧ r ≠ .panicked := by
  cases r with
  | idle | changed | getNext => exact ⟨rfl, id, Reader.noConfusion⟩
  | _ => exact h.elim

theorem Reader.image_of_quiet {r : Reader} (h : r.Quiet ∨ r = .returned none) : r.image = none := by
  rcases h with hquiet | rfl
  · exact hquiet.image_eq.1
  · rfl

theorem Reader.image_of_get {r : Reader} (h : r = .getNext ∨ r = .getOther) : r.image = none := by
  rcases h with rfl | rfl
  · rfl
  · rfl

theorem Reader.writing_of_again {r : Reader} {left : Nat}
    (h : r = .ready ∨ r = .attempt (left + 1) ∨ ∃ v i, r = .copying left v i) : r.Writing := by
  rcases h with rfl | rfl | ⟨v, i, rfl⟩
  · trivial
  · trivial
  · trivial

theorem Reader.Writing.image_eq {r : Reader} (h : r.Writing) : r.image = none := by
  cases r with
  | ready | attempt | copying | returned => rfl
  | _ => exact h.elim

/-! ## The buffers -/

/-- No buffer of a number that is still to come, and the one that is written has no other holder. -/
structure Owned (s : Stream) : Prop where
  fresh : ∀ b ∈ s.holders, b < s.allocs
  unshared : s.reader.Writing → s.Unshared
  unpanicked : s.reader ≠ .panicked

namespace Stream

variable {s : Stream}

theorem mem_holders {b : Nat} : b ∈ s.holders ↔ (∃ i, b = s.bufs i) ∨ b ∈ s.held := by
  simp [holders, or_assoc]

theorem mem_held {b : Nat} : b ∈ s.held ↔ s.slot = some b ∨ s.reader.image = some b ∨ b ∈ s.ui := by
  simp only [held, List.mem_append, Option.mem_toList, or_assoc]

/-- What is put into the slot was held by the thread. -/
theorem held_put {image : Nat} {free : Bool} (hr : s.reader = .handing image) {b : Nat}
    (hb : b ∈ held { s with slot := if free then some image else s.slot, reader := .idle }) :
    b ∈ s.held := by
  have himg : s.reader.image = some image := by rw [hr]; rfl
  rcases mem_held.mp hb with hslot | hnone | hui
  · cases free with
    | false => exact mem_held.mpr (.inl hslot)
    | true => exact mem_held.mpr (.inr (.inl (himg.trans hslot)))
  · cases hnone
  · exact mem_held.mpr (.inr (.inr hui))

/-- What is handed out is the buffer that was written. -/
theorem held_hand {v : UInt32} {b : Nat}
    (hb : b ∈ held { s with lastSeq := v, next := !s.next, reader := .handing (s.bufs s.next) }) :
    b = s.bufs s.next ∨ b ∈ s.held := by
  rcases mem_held.mp hb with hslot | himg | hui
  · exact .inr (mem_held.mpr (.inl hslot))
  · exact .inl (Option.some.inj himg).symm
  · exact .inr (mem_held.mpr (.inr (.inr hui)))

/-- A buffer that `Arc::get_mut` gives out is not outside `FrameBuffers`. -/
theorem Unshared.not_held (h : s.Unshared) : s.bufs s.next ∉ s.held := by
  have hin : s.bufs s.next ∈ [s.bufs false, s.bufs true] := by
    cases s.next <;> simp
  have hpos := List.count_pos_iff.mpr hin
  have hsum : [s.bufs false, s.bufs true].count (s.bufs s.next) + s.held.count
      (s.bufs s.next) = 1 := by
    rw [← List.count_append]
    exact h
  apply List.count_eq_zero.mp
  omega

/-- A buffer that replaces one of the two has one holder. -/
theorem unshared_fresh (hfresh : ∀ b ∈ s.holders, b < s.allocs) {t : Stream}
    (hnext : t.next = s.next) (hbufs : t.bufs = Function.update s.bufs s.next s.allocs)
    (hheld : t.held = s.held) : t.Unshared := by
  have hother : s.bufs (!s.next) ≠ s.allocs :=
    Nat.ne_of_lt (hfresh _ (mem_holders.mpr (.inl ⟨_, rfl⟩)))
  have hrest : s.held.count s.allocs = 0 := by
    apply List.count_eq_zero.mpr
    intro hmem
    exact Nat.lt_irrefl _ (hfresh _ (mem_holders.mpr (.inr hmem)))
  unfold Unshared
  rw [holders, List.count_append, hheld, hnext, hbufs]
  cases hn : s.next with
  | false =>
    have htrue : s.bufs true ≠ s.allocs := by
      rw [hn] at hother
      exact hother
    simp [hrest, htrue]
  | true =>
    have hfalse : s.bufs false ≠ s.allocs := by
      rw [hn] at hother
      exact hother
    simp [hrest, hfalse]

theorem Unshared.congr (h : s.Unshared) {t : Stream} (hbufs : t.bufs = s.bufs)
    (hnext : t.next = s.next)
    (hheld : t.held.count (s.bufs s.next) = s.held.count (s.bufs s.next)) : t.Unshared := by
  unfold Unshared holders at h ⊢
  rw [hbufs, hnext, List.count_append, hheld, ← List.count_append]
  exact h

end Stream

/-- A step that takes no number and whose new clones are of buffers with a holder. -/
theorem Owned.of_held {s t : Stream} (h : Owned s) (hbufs : t.bufs = s.bufs)
    (hallocs : t.allocs = s.allocs) (hheld : ∀ b ∈ t.held, b ∈ s.holders)
    (hunpanicked : t.reader ≠ .panicked) (hunshared : t.reader.Writing → t.Unshared) : Owned t := by
  refine ⟨?_, hunshared, hunpanicked⟩
  intro b hb
  rw [hallocs]
  apply h.fresh
  rcases Stream.mem_holders.mp hb with ⟨i, rfl⟩ | hmem
  · exact Stream.mem_holders.mpr (.inl ⟨i, by rw [hbufs]⟩)
  · exact hheld b hmem

theorem Stream.held_of_image {s t : Stream} (h : s.reader.image = none) (h' : t.reader.image = none)
    (hslot : t.slot = s.slot) (hui : t.ui = s.ui) : t.held = s.held := by
  rw [held, held, hslot, hui, h, h']

/-- A step of the thread that hands nothing out. -/
theorem Owned.of_image {s t : Stream} (h : Owned s) (himg : s.reader.image = none)
    (himg' : t.reader.image = none) (hframe : t.bufs = s.bufs ∧ t.allocs = s.allocs ∧
      t.slot = s.slot ∧ t.ui = s.ui) (hunpanicked : t.reader ≠ .panicked)
    (hunshared : t.reader.Writing → s.Unshared ∧ t.next = s.next) : Owned t := by
  obtain ⟨hbufs, hallocs, hslot, hui⟩ := hframe
  have hheld := Stream.held_of_image himg himg' hslot hui
  refine h.of_held hbufs hallocs ?_ hunpanicked ?_
  · intro b hb
    rw [hheld] at hb
    exact Stream.mem_holders.mpr (.inr hb)
  · intro hw
    obtain ⟨hu, hnext⟩ := hunshared hw
    exact hu.congr hbufs hnext (by rw [hheld])

theorem Owned.ticked {s t : Stream} {free : Bool} (h : Owned s) (ht : Ticked s free t) :
    Owned t := by
  cases ht with
  | quiet r hfrom hr =>
    obtain ⟨himg, hw, hp⟩ := hr.image_eq
    exact h.of_image (Reader.image_of_quiet hfrom) himg ⟨rfl, rfl, rfl, rfl⟩ hp fun hwr =>
      absurd hwr hw
  | same v hr hv =>
    exact h.of_image (by rw [hr]; rfl) rfl ⟨rfl, rfl, rfl, rfl⟩ Reader.noConfusion False.elim
  | flip hr =>
    exact h.of_image (by rw [hr]; rfl) rfl ⟨rfl, rfl, rfl, rfl⟩ Reader.noConfusion False.elim
  | found hfrom hu =>
    exact h.of_image (Reader.image_of_get hfrom) rfl ⟨rfl, rfl, rfl, rfl⟩ Reader.noConfusion
      fun _ => ⟨hu, rfl⟩
  | fresh hr =>
    have hheld := Stream.held_of_image (s := s) (by rw [hr]; rfl) (t := { s with
      bufs := Function.update s.bufs s.next s.allocs,
      heap := Function.update s.heap s.allocs blankFrame
      allocs := s.allocs + 1, reader := .ready }) rfl rfl rfl
    refine ⟨?_, fun _ => Stream.unshared_fresh h.fresh rfl rfl hheld, Reader.noConfusion⟩
    intro b hb
    apply Nat.lt_succ_of_le
    rcases Stream.mem_holders.mp hb with ⟨i, rfl⟩ | hmem
    · show Function.update s.bufs s.next s.allocs i ≤ s.allocs
      rcases eq_or_ne i s.next with rfl | hne
      · rw [Function.update_self]
      · rw [Function.update_of_ne hne]
        exact (h.fresh _ (Stream.mem_holders.mpr (.inl ⟨i, rfl⟩))).le
    · rw [hheld] at hmem
      exact (h.fresh b (Stream.mem_holders.mpr (.inr hmem))).le
  | panic hr hu =>
    exact absurd (h.unshared (by rw [hr]; trivial)) hu
  | again left hfrom =>
    have hw := Reader.writing_of_again hfrom
    exact h.of_image hw.image_eq rfl ⟨rfl, rfl, rfl, rfl⟩ Reader.noConfusion fun _ =>
      ⟨h.unshared hw, rfl⟩
  | giveUp hr =>
    have hw : s.reader.Writing := by rw [hr]; trivial
    exact h.of_image hw.image_eq rfl ⟨rfl, rfl, rfl, rfl⟩ Reader.noConfusion fun _ =>
      ⟨h.unshared hw, rfl⟩
  | load left hr heven =>
    have hw : s.reader.Writing := by rw [hr]; trivial
    exact h.of_image hw.image_eq rfl ⟨rfl, rfl, rfl, rfl⟩ Reader.noConfusion fun _ =>
      ⟨h.unshared hw, rfl⟩
  | octet left v i hr hi =>
    have hw : s.reader.Writing := by rw [hr]; trivial
    exact h.of_image hw.image_eq rfl ⟨rfl, rfl, rfl, rfl⟩ Reader.noConfusion fun _ =>
      ⟨h.unshared hw, rfl⟩
  | stable left v i hr hi heq =>
    have hw : s.reader.Writing := by rw [hr]; trivial
    exact h.of_image hw.image_eq rfl ⟨rfl, rfl, rfl, rfl⟩ Reader.noConfusion fun _ =>
      ⟨h.unshared hw, rfl⟩
  | hand v hr =>
    refine h.of_held rfl rfl ?_ Reader.noConfusion False.elim
    intro b hb
    rcases Stream.held_hand hb with rfl | hheld
    · exact Stream.mem_holders.mpr (.inl ⟨_, rfl⟩)
    · exact Stream.mem_holders.mpr (.inr hheld)
  | put image hr =>
    refine h.of_held rfl rfl ?_ Reader.noConfusion False.elim
    intro b hb
    exact Stream.mem_holders.mpr (.inr (Stream.held_put hr hb))

/-- The guest moves nothing but the region and what is remembered of it. -/
theorem publisherStep_frame {s t : Stream} (h : s.publisherStep = some t) :
    t = { s with
      region := t.region, publisher := t.publisher, count := t.count, history := t.history,
                 inside := t.inside } := by
  unfold Stream.publisherStep at h
  split at h
  · cases h
  · obtain rfl := Option.some.inj h
    rfl
  · obtain rfl := Option.some.inj h
    rfl
  · obtain rfl := Option.some.inj h
    rfl

/-- The guest and the UI leave the buffers alone, and the UI holds what somebody held. -/
theorem others_frame {s t : Stream} {a : Event} (hs : machine.step s a = some t)
    (ha : ∀ free, a ≠ .reader free) :
    t.bufs = s.bufs ∧ t.allocs = s.allocs ∧ t.next = s.next ∧ t.reader = s.reader ∧
    t.heap = s.heap ∧
      ∀ b ∈ t.held, b ∈ s.held := by
  cases a with
  | publish src =>
    dsimp only [machine] at hs
    split at hs
    · obtain rfl := Option.some.inj hs
      exact ⟨rfl, rfl, rfl, rfl, rfl, fun b hb => hb⟩
    · cases hs
  | publisher =>
    rw [publisherStep_frame hs]
    exact ⟨rfl, rfl, rfl, rfl, rfl, fun b hb => hb⟩
  | reader free => exact absurd rfl (ha free)
  | take =>
    obtain rfl := Option.some.inj hs
    refine ⟨rfl, rfl, rfl, rfl, rfl, ?_⟩
    intro b hb
    rcases Stream.mem_held.mp hb with hnone | himg | hui
    · cases hnone
    · exact Stream.mem_held.mpr (.inr (.inl himg))
    · rcases List.mem_append.mp hui with hslot | hui
      · exact Stream.mem_held.mpr (.inl (Option.mem_toList.mp hslot))
      · exact Stream.mem_held.mpr (.inr (.inr hui))
  | clone b =>
    obtain ⟨hb, ⟨⟩⟩ := Option.ite_none_right_eq_some.mp hs
    refine ⟨rfl, rfl, rfl, rfl, rfl, ?_⟩
    intro x hx
    rcases Stream.mem_held.mp hx with hslot | himg | hui
    · exact Stream.mem_held.mpr (.inl hslot)
    · exact Stream.mem_held.mpr (.inr (.inl himg))
    · rcases List.mem_cons.mp hui with rfl | hui
      · exact Stream.mem_held.mpr (.inr (.inr hb))
      · exact Stream.mem_held.mpr (.inr (.inr hui))
  | drop b =>
    obtain ⟨-, ⟨⟩⟩ := Option.ite_none_right_eq_some.mp hs
    refine ⟨rfl, rfl, rfl, rfl, rfl, ?_⟩
    intro x hx
    rcases Stream.mem_held.mp hx with hslot | himg | hui
    · exact Stream.mem_held.mpr (.inl hslot)
    · exact Stream.mem_held.mpr (.inr (.inl himg))
    · exact Stream.mem_held.mpr (.inr (.inr (List.mem_of_mem_erase hui)))
  | remap =>
    dsimp only [machine] at hs
    split at hs
    · obtain rfl := Option.some.inj hs
      exact ⟨rfl, rfl, rfl, rfl, rfl, fun b hb => hb⟩
    · cases hs

theorem Owned.step {s t : Stream} {a : Event} (h : Owned s) (hs : machine.step s a = some t) :
    Owned t := by
  by_cases ha : ∃ free, a = .reader free
  · obtain ⟨free, rfl⟩ := ha
    exact h.ticked (readerStep_cases hs)
  · obtain ⟨hbufs, hallocs, hnext, hreader, -, hmem⟩ := others_frame hs (not_exists.mp ha)
    refine h.of_held hbufs hallocs (fun b hb => Stream.mem_holders.mpr (.inr (hmem b hb))) ?_ ?_
    · rw [hreader]
      exact h.unpanicked
    · intro hw
      rw [hreader] at hw
      have hnone := (h.unshared hw).not_held
      refine (h.unshared hw).congr hbufs hnext ?_
      rw [List.count_eq_zero.mpr hnone, List.count_eq_zero.mpr fun hb => hnone (hmem _ hb)]

/-- **What is held does not change.** -/
theorem Owned.heap_eq {s t : Stream} {free : Bool} (h : Owned s) (ht : Ticked s free t) {b : Nat}
    (hb : b ∈ s.held) : t.heap b = s.heap b := by
  cases ht with
  | fresh hr =>
    have hlt := h.fresh b (Stream.mem_holders.mpr (.inr hb))
    exact Function.update_of_ne (Nat.ne_of_lt hlt) ..
  | octet left v i hr hi =>
    have hnone := (h.unshared (by rw [hr]; trivial)).not_held
    refine Function.update_of_ne ?_ ..
    rintro rfl
    exact hnone hb
  | _ => rfl

theorem boot_owned : Owned Stream.boot := by
  refine ⟨?_, False.elim, Reader.noConfusion⟩
  intro b hb
  have hcases : b = 0 ∨ b = 1 := by
    simpa [Stream.holders, Stream.held, Stream.boot, Reader.image] using hb
  show b < 2
  omega

/-- **The thread's buffer is its own.**  However the UI takes, clones and drops frames, what is
    written is neither in the slot nor with the UI, and `writable` always finds a buffer. -/
theorem Owned.reach {s : Stream} (h : machine.Reach Free .boot s) : Owned s :=
  Reach.inv (I := Owned) boot_owned (fun _ _ _ hI _ hs => hI.step hs) h

end CdjEmu.Jog
