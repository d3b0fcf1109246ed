/-
  DELIVERY OF THE JOG FRAMES — what becomes of the last frame when the guest's app is killed and
  restarted, and when the UI holds the slot's lock.

  `Session::tick` remembers the `seq` of a frame before the slot has taken it, and knows a frame by
  its `seq` alone.  The frame is lost when the lock is held at that moment; a restarted app counts
  from 0 again, so a new frame may come under the `seq` remembered, and what it interrupted is
  copied under 0 as if it were a frame.

  `Watch` adds to the stream what the app's death does and the history of the deliveries.  The crux
  is `Inv.current`: when the frame delivered last is still the newest one, the slot or the UI's last
  take holds it.

  1. **Program** — the session's tick with its look at the counter, its copy and the slot it tries
     to lock; the UI that takes what the slot holds; the app, which may be killed at any store and
     starts with a new region.

  2. **Specification** — `Delivered`: once a tick has gone by after the last publish, the newest
     frame is in the slot, or it is what the UI took last.

  3. **The condition (`Kept`)** — a tick that ends with a copy of the newest frame finds the lock
     free and the copy whole, or the frame was delivered before; and it was, where the `seq` is the
     one remembered.  Each is said of the state before the step.
-/
import CdjEmu.Streams.JogCopy

namespace CdjEmu.Jog.Delivery

open Machine

/-- The stream, whether the app is down, and the history. -/
structure Watch where
  stream : Stream
  down : Bool
  /-- The app died in a publish and none has been finished since. -/
  torn : Bool
  /-- A pixel was stored between two octets of the copy. -/
  mixed : Bool
  /-- The copy was not mixed, nor of what a dead app left. -/
  good : Bool
  /-- No publish was finished since the copy. -/
  seen : Bool
  /-- No publish was finished since the copy of the frame that was delivered last. -/
  current : Bool
  /-- A tick has ended with a copy that no publish was finished since. -/
  ticked : Bool
  /-- The frame that the UI took last. -/
  taken : Option Frame

inductive Move where
  | stream (e : Event)
  | kill
  | restart

/-- `publish_frame` has made some of its stores. -/
def Drawing : Publisher → Prop
  | .storing _ _ rest => rest.length < stores.length
  | _ => False

instance (p : Publisher) : Decidable (Drawing p) := by
  unfold Drawing
  split <;> infer_instance

/-- Some octets have been copied. -/
def Copying : Reader → Prop
  | .copying _ _ i => 0 < i
  | _ => False

instance (r : Reader) : Decidable (Copying r) := by
  unfold Copying
  split <;> infer_instance

namespace Watch

def boot : Watch where
  stream := .boot
  down := false
  torn := false
  mixed := false
  good := false
  seen := false
  current := false
  ticked := false
  taken := none

variable (w : Watch)

/-- The newest frame that a publish has finished. -/
def newest : Frame := w.stream.left.2

/-- After a step of `publish_frame`. -/
def published (t : Stream) : Watch :=
  match w.stream.publisher with
  | .storing _ _ (_ :: _) =>
      { w with stream := t, mixed := w.mixed || decide (Copying w.stream.reader) }
  | .storing _ _ [] =>
      { w with stream := t, torn := false, seen := false, current := false, ticked := false }
  | _ => { w with stream := t }

/-- After a step of the thread. -/
def stepped (free : Bool) (t : Stream) : Watch :=
  match w.stream.reader, t.reader with
  | .attempt _, .copying _ _ _ => { w with stream := t, mixed := false }
  | .copying _ _ _, .returned _ => { w with stream := t, good := !w.mixed && !w.torn, seen := true }
  | .returned (some _), .idle => { w with stream := t, ticked := w.ticked || w.seen }
  | .handing _, _ =>
      { w with stream := t, ticked := w.ticked || w.seen, current := w.current || (free && w.seen) }
  | _, _ => { w with stream := t }

/-- The frame that the slot holds. -/
def shown : Option Frame := w.stream.slot.map w.stream.heap

end Watch

/-- The guest's app may die at any step; `jog_shm_init_once` of the next one stores the header anew,
    `seq` first.  The other fields get the values that they have. -/
def machine : Machine Watch Move where
  step w
    | .stream (.publish src) =>
      if w.down then none
      else (Jog.machine.step w.stream (.publish src)).map fun t => { w with stream := t }
    | .stream .publisher => (Jog.machine.step w.stream .publisher).map w.published
    | .stream (.reader free) => (Jog.machine.step w.stream (.reader free)).map (w.stepped free)
    | .stream .take => (Jog.machine.step w.stream .take).map fun t =>
        { w with stream := t, taken := w.shown <|> w.taken }
    | .stream (.clone b) => (Jog.machine.step w.stream (.clone b)).map fun t =>
        { w with stream := t }
    | .stream (.drop b) => (Jog.machine.step w.stream (.drop b)).map fun t => { w with stream := t }
    | .stream .remap => none
    | .kill => some { w with
        stream := { w.stream with publisher := .idle }, down := true
        torn := w.torn || decide (Drawing w.stream.publisher) }
    | .restart =>
      if w.down then some { w with
        stream := { w.stream with region := { w.stream.region with
          seq := 0, width := UInt16.ofNat jogOutW, height := UInt16.ofNat jogOutH,
          format := fmtXrgb8888 } }
        down := false }
      else none

/-- The newest frame is in the slot, or the UI took it last. -/
def Delivered (w : Watch) : Prop :=
  w.stream.publisher = .idle → w.ticked = true → w.shown = some w.newest ∨ w.taken = some w.newest

/-- What a tick that ends with a copy of the newest frame has to find: the lock is free and the copy
    is a whole one, or the frame has been delivered before; and when the `seq` is the one
    remembered, it has. -/
def Kept (w : Watch) : Move → Prop
  | .stream (.reader free) => match w.stream.reader with
    | .returned (some v) => v = w.stream.lastSeq → w.seen = true → w.current = true
    | .handing _ => w.seen = true → if free then w.good = true else w.current = true
    | _ => True
  | _ => True

/-! ## The invariant -/

structure Inv (w : Watch) : Prop where
  owned : Owned w.stream
  down : w.down = true → w.stream.publisher = .idle
  drawn : ∀ src v rest, w.stream.publisher = .storing src v rest →
    rest.length ≤ stores.length ∧ w.stream.region.seq &&& 1 ≠ 0 ∧
    storeAll src w.stream.region.pixels rest = frameOf src
  whole : w.torn = false → ¬ Drawing w.stream.publisher → w.stream.region.pixels = w.newest
  copying : ∀ left v i, w.stream.reader = .copying left v i →
    v &&& 1 = 0 ∧
    (w.mixed = false → ∀ k, k < i → w.stream.canvas.byte k = w.stream.region.pixels.byte k)
  returned : ∀ v, w.stream.reader = .returned (some v) →
    (w.current = true → w.seen = true) ∧
    (w.seen = true → w.good = true → w.stream.canvas = w.newest)
  handing : ∀ b, w.stream.reader = .handing b →
    (w.current = true → w.seen = true) ∧
    (w.seen = true → w.good = true → w.stream.heap b = w.newest)
  current : w.current = true → w.shown = some w.newest ∨ w.stream.slot = none ∧
    w.taken = some w.newest
  ticked : w.ticked = true → w.current = true

theorem boot_inv : Inv .boot where
  owned := boot_owned
  down _ := rfl
  drawn _ _ _ hp := by cases hp
  whole _ _ := rfl
  copying _ _ _ hr := by cases hr
  returned _ hr := by cases hr
  handing _ hr := by cases hr
  current hc := absurd hc Bool.false_ne_true
  ticked ht := absurd ht Bool.false_ne_true

/-- What is remembered is enough: a poll that has looked behind the last frame shows it. -/
theorem Inv.delivered {w : Watch} (h : Inv w) : Delivered w := by
  intro _ hticked
  rcases h.current (h.ticked hticked) with hshown | ⟨-, htaken⟩
  · exact .inl hshown
  · exact .inr htaken

/-! ## The thread -/

/-- A step at no place where a copy is made or handed over. -/
theorem Inv.quiet {w : Watch} (h : Inv w) {t : Stream} (howned : Owned t)
    (hframe : t.publisher = w.stream.publisher ∧ t.region = w.stream.region ∧
      t.history = w.stream.history ∧
      t.slot = w.stream.slot) (hheap : ∀ b ∈ w.stream.held, t.heap b = w.stream.heap b)
    (hcopying : ∀ left v i, t.reader ≠ .copying left v i)
    (hreturned : ∀ v, t.reader ≠ .returned (some v)) (hhanding : ∀ b, t.reader ≠ .handing b) :
    Inv { w with stream := t } := by
  obtain ⟨hpublisher, hregion, hhistory, hslot⟩ := hframe
  have hnewest : Watch.newest { w with stream := t } = w.newest := by
    show t.left.2 = w.stream.left.2
    rw [Stream.left, Stream.left, hhistory]
  have hshown : Watch.shown { w with stream := t } = w.shown := by
    show t.slot.map t.heap = w.stream.slot.map w.stream.heap
    rw [hslot]
    cases hb : w.stream.slot with
    | none => rfl
    | some b => exact congrArg some (hheap b (Stream.mem_held.mpr (.inl hb)))
  refine ⟨howned, fun hdown => hpublisher.trans (h.down hdown), ?_, ?_,
    fun left v i hr => absurd hr (hcopying left v i), fun v hr => absurd hr (hreturned v),
    fun b hr => absurd hr (hhanding b), ?_, h.ticked⟩
  · intro src v rest hp
    rw [show Watch.stream { w with stream := t } = t from rfl, hregion]
    exact h.drawn src v rest (hpublisher.symm.trans hp)
  · intro htorn hdrawing
    rw [hnewest]
    show t.region.pixels = w.newest
    rw [hregion]
    exact h.whole htorn fun hd => hdrawing (by rw [← hpublisher] at hd; exact hd)
  · intro hcurrent
    rw [hshown, hnewest]
    show w.shown = some w.newest ∨ t.slot = none ∧ w.taken = some w.newest
    rw [hslot]
    exact h.current hcurrent

theorem Inv.stepped {w : Watch} (h : Inv w) {t : Stream} {free : Bool} (ht : Ticked w.stream free t)
    (hkept : Kept w (.stream (.reader free))) : Inv (w.stepped free t) := by
  have howned := h.owned.ticked ht
  have hheap := fun b (hb : b ∈ w.stream.held) => h.owned.heap_eq ht hb
  cases ht with
  | quiet r hfrom hr =>
    have hstep : w.stepped free { w.stream with reader := r } =
        { w with stream := { w.stream with reader := r } } := by
      rcases hfrom with hquiet | hnone
      · cases hw : w.stream.reader with
        | idle | changed | getNext => rw [Watch.stepped, hw]
        | _ =>
          rw [hw] at hquiet
          exact hquiet.elim
      · rw [Watch.stepped, hnone]
    rw [hstep]
    refine h.quiet howned ⟨rfl, rfl, rfl, rfl⟩ hheap ?_ ?_ ?_
    · rintro left v i rfl
      exact hr
    · rintro v rfl
      exact hr
    · rintro b rfl
      exact hr
  | same v hr hv =>
    rw [Kept, hr] at hkept
    have hstep : w.stepped free { w.stream with reader := .idle } =
        { w with stream := { w.stream with reader := .idle }, ticked := w.ticked || w.seen } := by
      rw [Watch.stepped, hr]
    have hquiet := h.quiet howned ⟨rfl, rfl, rfl, rfl⟩ hheap (fun _ _ _ => Reader.noConfusion)
        (fun _ => Reader.noConfusion)
      fun _ => Reader.noConfusion
    rw [hstep]
    refine { hquiet with ticked := ?_ }
    intro hticked
    rcases Bool.or_eq_true_iff.mp hticked with hbefore | hseen
    · exact h.ticked hbefore
    · exact hkept hv hseen
  | flip hr =>
    rw [Watch.stepped, hr]
    exact h.quiet howned ⟨rfl, rfl, rfl, rfl⟩ hheap (fun _ _ _ => Reader.noConfusion)
      (fun _ => Reader.noConfusion)
      fun _ => Reader.noConfusion
  | found hfrom hu =>
    have hstep : w.stepped free { w.stream with reader := .ready } =
        { w with stream := { w.stream with reader := .ready } } := by
      rcases hfrom with hr | hr
      · rw [Watch.stepped, hr]
      · rw [Watch.stepped, hr]
    rw [hstep]
    exact h.quiet howned ⟨rfl, rfl, rfl, rfl⟩ hheap (fun _ _ _ => Reader.noConfusion)
      (fun _ => Reader.noConfusion)
      fun _ => Reader.noConfusion
  | fresh hr =>
    rw [Watch.stepped, hr]
    exact h.quiet howned ⟨rfl, rfl, rfl, rfl⟩ hheap (fun _ _ _ => Reader.noConfusion)
      (fun _ => Reader.noConfusion)
      fun _ => Reader.noConfusion
  | panic hr hu =>
    rw [Watch.stepped, hr]
    exact h.quiet howned ⟨rfl, rfl, rfl, rfl⟩ hheap (fun _ _ _ => Reader.noConfusion)
      (fun _ => Reader.noConfusion)
      fun _ => Reader.noConfusion
  | again left hfrom =>
    have hstep : w.stepped free { w.stream with reader := .attempt left } =
        { w with stream := { w.stream with reader := .attempt left } } := by
      rcases hfrom with hr | hr | ⟨v, i, hr⟩
      · rw [Watch.stepped, hr]
      · rw [Watch.stepped, hr]
      · rw [Watch.stepped, hr]
    rw [hstep]
    exact h.quiet howned ⟨rfl, rfl, rfl, rfl⟩ hheap (fun _ _ _ => Reader.noConfusion)
      (fun _ => Reader.noConfusion)
      fun _ => Reader.noConfusion
  | giveUp hr =>
    rw [Watch.stepped, hr]
    refine h.quiet howned ⟨rfl, rfl, rfl, rfl⟩ hheap (fun _ _ _ => Reader.noConfusion) ?_ fun _ =>
      Reader.noConfusion
    intro v hv
    cases hv
  | load left hr heven =>
    rw [Watch.stepped, hr]
    exact { h with
      owned := howned
      copying := by
        rintro _ _ _ ⟨⟩
        exact ⟨heven, fun _ k hk => absurd hk (Nat.not_lt_zero k)⟩
      returned := fun _ hv => by cases hv
      handing := fun _ hv => by cases hv }
  | octet left v i hr hi =>
    rw [Watch.stepped, hr]
    obtain ⟨heven, hsame⟩ := h.copying left v i hr
    have hshown : w.stream.slot.map (Function.update w.stream.heap (w.stream.bufs w.stream.next)
        (w.stream.canvas.store i (w.stream.region.pixels.byte i))) = w.shown := by
      rw [Watch.shown]
      cases hb : w.stream.slot with
      | none => rfl
      | some b => exact congrArg some (hheap b (Stream.mem_held.mpr (.inl hb)))
    exact { h with
      owned := howned
      copying := by
        rintro _ _ _ ⟨⟩
        refine ⟨heven, fun hmixed k hk => ?_⟩
        have hcanvas : Stream.canvas { w.stream with
            heap := Function.update w.stream.heap (w.stream.bufs w.stream.next)
              (w.stream.canvas.store i (w.stream.region.pixels.byte i))
            reader := .copying left v (i + 1) } = w.stream.canvas.store i
              (w.stream.region.pixels.byte i) :=
          Function.update_self ..
        rw [hcanvas]
        rcases Nat.lt_or_eq_of_le (Nat.le_of_lt_succ hk) with hlt | rfl
        · rw [Octets.byte_store_of_ne _ (Nat.ne_of_lt hlt)]
          exact hsame hmixed k hlt
        · rw [Octets.byte_store, if_pos ⟨rfl, hi⟩]
      returned := fun _ hv => by cases hv
      handing := fun _ hv => by cases hv
      current := fun hcurrent => by
        rw [Watch.shown, hshown]
        exact h.current hcurrent }
  | stable left v i hr hi heq =>
    rw [Watch.stepped, hr]
    obtain ⟨heven, hsame⟩ := h.copying left v i hr
    have hidle : ¬ Drawing w.stream.publisher := by
      intro hdrawing
      cases hp : w.stream.publisher with
      | storing src u rest => exact (h.drawn src u rest hp).2.1 (heq ▸ heven)
      | _ =>
        rw [hp] at hdrawing
        exact hdrawing
    exact { h with
      owned := howned
      copying := fun _ _ _ hv => by cases hv
      returned := by
        rintro _ ⟨⟩
        refine ⟨fun _ => rfl, fun _ hgood => ?_⟩
        obtain ⟨hmixed, htorn⟩ := Bool.and_eq_true_iff.mp hgood
        rw [Bool.not_eq_true'] at hmixed htorn
        show w.stream.canvas = w.newest
        rw [← h.whole htorn hidle]
        exact Octets.ext_byte fun k hk => hsame hmixed k (Nat.lt_of_lt_of_le hk hi)
      handing := fun _ hv => by cases hv }
  | hand v hr =>
    rw [Watch.stepped, hr]
    exact { h with
      owned := howned
      copying := fun _ _ _ hv => by cases hv
      returned := fun _ hv => by cases hv
      handing := by
        rintro _ ⟨⟩
        exact h.returned v hr }
  | put image hr =>
    rw [Watch.stepped, hr]
    rw [Kept, hr] at hkept
    obtain ⟨hseen, hgood⟩ := h.handing image hr
    have hticked : (w.ticked || w.seen) = true → w.current = true ∨ w.seen = true := by
      intro hor
      rcases Bool.or_eq_true_iff.mp hor with hbefore | hnow
      · exact .inl (h.ticked hbefore)
      · exact .inr hnow
    cases free with
    | true =>
      have hwhole : w.seen = true → w.stream.heap image = w.newest := fun hs => hgood hs (hkept hs)
      exact { h with
        owned := howned
        copying := fun _ _ _ hv => by cases hv
        returned := fun _ hv => by cases hv
        handing := fun _ hv => by cases hv
        current := fun hcurrent => by
          left
          rcases Bool.or_eq_true_iff.mp hcurrent with hbefore | hnow
          · exact congrArg some (hwhole (hseen hbefore))
          · exact congrArg some (hwhole hnow)
        ticked := fun hor => Bool.or_eq_true_iff.mpr (hticked hor) }
    | false =>
      -- the lock is held: the frame is lost, unless it was delivered before
      exact { h with
        owned := howned
        copying := fun _ _ _ hv => by cases hv
        returned := fun _ hv => by cases hv
        handing := fun _ hv => by cases hv
        current := fun hcurrent => h.current (by simpa using hcurrent)
        ticked := fun hor => by
          rcases hticked hor with hbefore | hnow
          · exact Bool.or_eq_true_iff.mpr (.inl hbefore)
          · exact Bool.or_eq_true_iff.mpr (.inl (hkept hnow)) }

/-! ## The others -/

/-- A step that leaves the buffers, the slot and the history alone. -/
theorem Inv.aside {w w' : Watch} (h : Inv w) (howned : Owned w'.stream)
    (hdown : w'.down = true → w'.stream.publisher = .idle)
    (hframe : w'.stream.reader = w.stream.reader ∧ w'.stream.bufs = w.stream.bufs ∧
      w'.stream.next = w.stream.next ∧
      w'.stream.heap = w.stream.heap ∧ w'.stream.slot = w.stream.slot ∧
      w'.stream.history = w.stream.history)
    (hghost : w'.good = w.good ∧ w'.seen = w.seen ∧ w'.current = w.current ∧ w'.ticked = w.ticked ∧
      w'.taken = w.taken)
    (hdrawn : ∀ src v rest, w'.stream.publisher = .storing src v rest →
      rest.length ≤ stores.length ∧ w'.stream.region.seq &&& 1 ≠ 0 ∧
        storeAll src w'.stream.region.pixels rest = frameOf src)
    (hwhole : w'.torn = false → ¬ Drawing w'.stream.publisher → w'.stream.region.pixels = w.newest)
    (hpixels : w'.mixed = false → Copying w.stream.reader →
      w.mixed = false ∧ w'.stream.region.pixels = w.stream.region.pixels) : Inv w' := by
  obtain ⟨hreader, hbufs, hnext, hheap, hslot, hhistory⟩ := hframe
  obtain ⟨hgood, hseen, hcurrent, hticked, htaken⟩ := hghost
  have hnewest : w'.newest = w.newest := by
    rw [Watch.newest, Watch.newest, Stream.left, Stream.left, hhistory]
  have hcanvas : w'.stream.canvas = w.stream.canvas := by
    rw [Stream.canvas, Stream.canvas, hheap, hbufs, hnext]
  have hshown : w'.shown = w.shown := by
    rw [Watch.shown, Watch.shown, hslot, hheap]
  constructor
  · exact howned
  · exact hdown
  · exact hdrawn
  · rw [hnewest]
    exact hwhole
  · intro left v i hr
    rw [hreader] at hr
    obtain ⟨heven, hsame⟩ := h.copying left v i hr
    refine ⟨heven, fun hmixed k hk => ?_⟩
    have hcopying : Copying w.stream.reader := by
      rw [hr]
      exact Nat.zero_lt_of_lt hk
    obtain ⟨hbefore, heq⟩ := hpixels hmixed hcopying
    rw [hcanvas, heq]
    exact hsame hbefore k hk
  · rw [hreader, hcurrent, hseen, hgood, hcanvas, hnewest]
    exact h.returned
  · rw [hreader, hcurrent, hseen, hgood, hheap, hnewest]
    exact h.handing
  · rw [hcurrent, hshown, hnewest, hslot, htaken]
    exact h.current
  · rw [hticked, hcurrent]
    exact h.ticked

theorem or_one_and_one (v : UInt32) : (v ||| 1) &&& 1 ≠ 0 := by
  intro heq
  have hnat := congrArg UInt32.toNat heq
  rw [UInt32.toNat_and, UInt32.toNat_or] at hnat
  have hmod : (v.toNat ||| 1) % 2 = 0 := by
    rw [← Nat.and_one_is_mod]
    exact hnat
  have hodd : (v.toNat ||| 1) % 2 = 1 := by
    rw [Nat.or_mod_two_eq_one]
    exact .inr rfl
  omega

theorem Inv.published {w : Watch} (h : Inv w) {t : Stream} (hs : w.stream.publisherStep = some t)
    (howned : Owned t) :
    Inv (w.published t) := by
  unfold Stream.publisherStep at hs
  -- the publisher enters, draws store by store, or finishes
  split at hs
  · cases hs
  · rename_i src v hp
    obtain rfl := Option.some.inj hs
    rw [Watch.published, hp]
    have hup : w.down ≠ true := fun hdown => by
      rw [h.down hdown] at hp
      cases hp
    refine h.aside howned (fun hd => absurd hd hup) ⟨rfl, rfl, rfl, rfl, rfl, rfl⟩
      ⟨rfl, rfl, rfl, rfl, rfl⟩ ?_ ?_
      fun hm _ => ⟨hm, rfl⟩
    · rintro _ _ _ ⟨⟩
      exact ⟨Nat.le_refl _, or_one_and_one v, extractToShm_eq src _⟩
    -- nothing is drawn yet, so the region is still the newest frame
    · exact fun htorn _ => h.whole htorn (by rw [hp]; exact id)
  · rename_i src v st rest hp
    obtain rfl := Option.some.inj hs
    rw [Watch.published, hp]
    obtain ⟨hlength, hodd, hrest⟩ := h.drawn src v (st :: rest) hp
    have hup : w.down ≠ true := fun hdown => by
      rw [h.down hdown] at hp
      cases hp
    refine h.aside howned (fun hd => absurd hd hup) ⟨rfl, rfl, rfl, rfl, rfl, rfl⟩
      ⟨rfl, rfl, rfl, rfl, rfl⟩ ?_ ?_ ?_
    · rintro _ _ _ ⟨⟩
      exact ⟨Nat.le_of_succ_le hlength, hodd, hrest⟩
    -- a frame half drawn is not whole, and nobody says so
    · exact fun _ hdrawing => absurd hlength hdrawing
    · intro hmixed hcopying
      exact absurd hcopying (of_decide_eq_false (Bool.or_eq_false_iff.mp hmixed).2)
  · rename_i src v hp
    obtain rfl := Option.some.inj hs
    rw [Watch.published, hp]
    obtain ⟨-, -, hdrawn⟩ := h.drawn src v [] hp
    rw [storeAll_nil] at hdrawn
    generalize frameOf src = frame at hdrawn howned ⊢
    -- a new frame is the newest: nothing has been delivered of it yet
    exact {
      owned := howned
      down := fun _ => rfl
      drawn := fun _ _ _ hidle => by cases hidle
      whole := fun _ _ => hdrawn
      copying := h.copying
      returned := fun _ _ =>
        ⟨fun hc => absurd hc Bool.false_ne_true, fun hc => absurd hc Bool.false_ne_true⟩
      handing := fun _ _ =>
        ⟨fun hc => absurd hc Bool.false_ne_true, fun hc => absurd hc Bool.false_ne_true⟩
      current := fun hc => absurd hc Bool.false_ne_true
      ticked := fun hc => absurd hc Bool.false_ne_true }

theorem Inv.step {w w' : Watch} {m : Move} (h : Inv w) (hkept : Kept w m)
    (hs : machine.step w m = some w') : Inv w' := by
  cases m with
  | stream e =>
    cases e with
    | publish src =>
      obtain ⟨hup, hs⟩ := Option.ite_none_left_eq_some.mp hs
      obtain ⟨t, ht, rfl⟩ := Option.map_eq_some_iff.mp hs
      have howned := h.owned.step ht
      dsimp only [Jog.machine] at ht
      split at ht
      · rename_i hidle
        -- the publish begins: the region is as it was
        obtain rfl := Option.some.inj ht
        refine h.aside howned (fun hd => absurd hd hup) ⟨rfl, rfl, rfl, rfl, rfl, rfl⟩
          ⟨rfl, rfl, rfl, rfl, rfl⟩ ?_ ?_
          fun hm _ => ⟨hm, rfl⟩
        · exact fun _ _ _ hp => by cases hp
        · exact fun htorn _ => h.whole htorn (by rw [hidle]; exact id)
      · cases ht
    | publisher =>
      obtain ⟨t, ht, rfl⟩ := Option.map_eq_some_iff.mp hs
      exact h.published ht (h.owned.step ht)
    | reader free =>
      obtain ⟨t, ht, rfl⟩ := Option.map_eq_some_iff.mp hs
      exact h.stepped (readerStep_cases ht) hkept
    | take =>
      obtain rfl := Option.some.inj hs
      have howned := h.owned.step (a := .take) rfl
      refine { h with owned := howned, current := fun hcurrent => .inr ⟨rfl, ?_⟩ }
      -- the UI takes what the slot has; that it was there is what counts
      show (w.shown <|> w.taken) = some w.newest
      rcases h.current hcurrent with hshown | ⟨hslot, htaken⟩
      · rw [hshown]
        rfl
      · rw [Watch.shown, hslot, htaken]
        rfl
    | clone b =>
      obtain ⟨t, ht, rfl⟩ := Option.map_eq_some_iff.mp hs
      have howned := h.owned.step ht
      obtain ⟨-, ⟨⟩⟩ := Option.ite_none_right_eq_some.mp ht
      exact h.aside howned h.down ⟨rfl, rfl, rfl, rfl, rfl, rfl⟩
        ⟨rfl, rfl, rfl, rfl, rfl⟩ h.drawn h.whole
        fun hm _ => ⟨hm, rfl⟩
    | drop b =>
      obtain ⟨t, ht, rfl⟩ := Option.map_eq_some_iff.mp hs
      have howned := h.owned.step ht
      obtain ⟨-, ⟨⟩⟩ := Option.ite_none_right_eq_some.mp ht
      exact h.aside howned h.down ⟨rfl, rfl, rfl, rfl, rfl, rfl⟩
        ⟨rfl, rfl, rfl, rfl, rfl⟩ h.drawn h.whole
        fun hm _ => ⟨hm, rfl⟩
    | remap => cases hs
  | kill =>
    obtain rfl := Option.some.inj hs
    have howned : Owned { w.stream with publisher := .idle } :=
      ⟨h.owned.fresh, h.owned.unshared, h.owned.unpanicked⟩
    refine h.aside howned (fun _ => rfl) ⟨rfl, rfl, rfl, rfl, rfl, rfl⟩
      ⟨rfl, rfl, rfl, rfl, rfl⟩ ?_ ?_
      fun hm _ => ⟨hm, rfl⟩
    · exact fun _ _ _ hp => by cases hp
    -- a publisher killed while it draws leaves the region torn
    · intro htorn _
      obtain ⟨hbefore, hnow⟩ := Bool.or_eq_false_iff.mp htorn
      exact h.whole hbefore (of_decide_eq_false hnow)
  | restart =>
    obtain ⟨hdown, ⟨⟩⟩ := Option.ite_none_right_eq_some.mp hs
    have howned : Owned { w.stream with region := { w.stream.region with
        seq := 0, width := UInt16.ofNat jogOutW, height := UInt16.ofNat jogOutH,
        format := fmtXrgb8888 } } :=
      ⟨h.owned.fresh, h.owned.unshared, h.owned.unpanicked⟩
    refine h.aside howned (fun hd => absurd hd Bool.false_ne_true) ⟨rfl, rfl, rfl, rfl, rfl, rfl⟩
      ⟨rfl, rfl, rfl, rfl, rfl⟩ ?_ h.whole fun hm _ => ⟨hm, rfl⟩
    -- an app that has been killed has no publisher
    intro src v rest hp
    have hidle := h.down hdown
    rw [show w.stream.publisher = .storing src v rest from hp] at hidle
    cases hidle

/-! ## Runs -/

/-- **The last frame is not lost**, when every tick that ends with a copy of the newest frame finds
    what `Kept` says. -/
theorem last_frame_delivered {w : Watch} (h : machine.Reach Kept .boot w) : Delivered w :=
  (Reach.inv (I := Inv) boot_inv (fun _ _ _ hI hkept hs => hI.step hkept hs) h).delivered

/-- A run of the guest and the thread alone is one here, which mixes and tears nothing. -/
theorem alone_lift {s t : Stream} (h : Jog.machine.Reach Alone s t) {w : Watch} (hw : w.stream = s)
    (hclean : w.down = false ∧ w.torn = false ∧ w.mixed = false) :
    ∃ w', machine.Reach Kept w w' ∧ w'.stream = t ∧ w'.taken = w.taken ∧
      w'.down = false ∧ w'.torn = false ∧ w'.mixed = false := by
  induction h with
  | refl => exact ⟨w, .refl, hw, rfl, hclean⟩
  | @step _ t a _ halone hs ih =>
    obtain ⟨u, hreach, rfl, htaken, hdown, htorn, hmixed⟩ := ih
    -- the same step in the watched machine, with the flags as they are
    cases a with
    | publish src =>
      have hmove : machine.step u (.stream (.publish src)) = some { u with stream := t } := by
        show (if u.down then none
          else (Jog.machine.step u.stream (.publish src)).map fun t => { u with stream := t }) = _
        rw [hdown, hs]
        rfl
      exact ⟨_, hreach.step (a := .stream (.publish src)) trivial hmove, rfl, htaken, hdown,
        htorn, hmixed⟩
    | publisher =>
      have hmove : machine.step u (.stream .publisher) = some (u.published t) :=
        congrArg (Option.map u.published) hs
      -- while the publisher draws, the reader is idle here, so nothing is mixed
      have hidle : decide (Copying u.stream.reader) = false := by
        rw [show u.stream.reader = .idle from halone]
        rfl
      refine ⟨_, hreach.step (a := .stream .publisher) trivial hmove, ?_⟩
      unfold Watch.published
      split
      · rw [hidle]
        exact ⟨rfl, htaken, hdown, htorn, by rw [Bool.or_false]; exact hmixed⟩
      · exact ⟨rfl, htaken, hdown, rfl, hmixed⟩
      · exact ⟨rfl, htaken, hdown, htorn, hmixed⟩
    | reader free =>
      have hmove : machine.step u (.stream (.reader free)) = some (u.stepped free t) :=
        congrArg (Option.map (u.stepped free)) hs
      obtain ⟨himg, hret⟩ := halone
      -- the reader alone meets the condition of the run
      have hkept : Kept u (.stream (.reader free)) := by
        unfold Kept
        dsimp only
        split
        · rename_i v hr
          exact absurd hr (hret _)
        · rename_i b hr
          rw [hr] at himg
          cases himg
        · trivial
      refine ⟨_, hreach.step hkept hmove, ?_⟩
      unfold Watch.stepped
      split
      · exact ⟨rfl, htaken, hdown, htorn, rfl⟩
      · exact ⟨rfl, htaken, hdown, htorn, hmixed⟩
      · exact ⟨rfl, htaken, hdown, htorn, hmixed⟩
      · exact ⟨rfl, htaken, hdown, htorn, hmixed⟩
      · exact ⟨rfl, htaken, hdown, htorn, hmixed⟩
    | _ => exact halone.elim

/-- The thread has the first frame in hand. -/
def firstHanded (frame pixels : Frame) (heap : Nat → Frame) : Stream :=
  { firstCopied frame pixels heap with reader := .handing 0, lastSeq := 2, next := true }

theorem firstHanded_reach (src : Nat → UInt32) : ∃ w pixels heap, machine.Reach Kept .boot w ∧
    w.stream = firstHanded (frameOf src) pixels heap ∧ w.seen = true ∧ w.good = true ∧
    w.taken = none := by
  obtain ⟨pixels, heap, hcopied⟩ := firstCopied_reach src
  obtain ⟨w, hreach, hstream, htaken, -, htorn, hmixed⟩ :=
    alone_lift hcopied (w := .boot) rfl ⟨rfl, rfl, rfl⟩
  generalize frameOf src = frame at hstream ⊢
  have hstable : machine.step w (.stream (.reader true)) = some { w with
      stream := { firstCopied frame pixels heap with reader := .returned (some 2) }, good := true,
      seen := true } := by
    show (Jog.machine.step w.stream (.reader true)).map (w.stepped true) = _
    rw [hstream]
    show some (w.stepped true { firstCopied frame pixels heap with reader := .returned (some 2) }) =
        _
    rw [Watch.stepped, hstream, htorn, hmixed]
    rfl
  have hhand : machine.step { w with
      stream := { firstCopied frame pixels heap with reader := .returned (some 2) }, good := true,
      seen := true }
      (.stream (.reader true)) = some { w with
        stream := firstHanded frame pixels heap, good := true, seen := true } := rfl
  have hnew : (2 : UInt32) ≠ 0 := by decide
  have hkept : Kept w (.stream (.reader true)) := by
    rw [Kept, hstream]
    trivial
  exact ⟨_, pixels, heap, (hreach.step hkept hstable).step (a := .stream (.reader true))
    (fun h => absurd h hnew) hhand, rfl, rfl, rfl, htaken⟩

/-- The slot's lock is held when the first frame comes: its `seq` is remembered,
    and the frame is gone. -/
theorem held_lock_loses_the_frame : ¬ ∀ w, machine.Reach Free .boot w → Delivered w := by
  intro h
  obtain ⟨w, pixels, heap, hreach, hstream, hseen, -, htaken⟩ := firstHanded_reach fun i =>
    UInt32.ofNat i
  generalize frameOf (fun i => UInt32.ofNat i) = frame at hstream
  have hput : machine.step w (.stream (.reader false)) = some { w with
      stream := { firstHanded frame pixels heap with reader := .idle }
      ticked := w.ticked || w.seen, current := w.current || (false && w.seen) } := by
    show (Jog.machine.step w.stream (.reader false)).map (w.stepped false) = _
    rw [hstream]
    show some (w.stepped false { firstHanded frame pixels heap with reader := .idle }) = _
    rw [Watch.stepped, hstream]
    rfl
  have hlost :=
    h _ ((hreach.mono fun _ _ _ _ => trivial).step trivial hput) rfl (by rw [hseen, Bool.or_true])
  rcases hlost with hslot | htook
  · cases hslot
  · rw [htaken] at htook
    cases htook

/-- The lock is free, and the first frame is in the slot. -/
theorem first_frame_delivered : ∃ w, machine.Reach Kept .boot w ∧ w.ticked = true ∧
    (w.shown = some w.newest ∨ w.taken = some w.newest) := by
  obtain ⟨w, pixels, heap, hreach, hstream, hseen, hgood, -⟩ := firstHanded_reach fun i =>
    UInt32.ofNat i
  generalize frameOf (fun i => UInt32.ofNat i) = frame at hstream
  have hput : machine.step w (.stream (.reader true)) = some { w with
      stream := { firstHanded frame pixels heap with slot := some 0, reader := .idle }
      ticked := w.ticked || w.seen, current := w.current || (true && w.seen) } := by
    show (Jog.machine.step w.stream (.reader true)).map (w.stepped true) = _
    rw [hstream]
    show some (w.stepped true
        { firstHanded frame pixels heap with slot := some 0, reader := .idle }) = _
    rw [Watch.stepped, hstream]
    rfl
  have hkept : Kept w (.stream (.reader true)) := by
    rw [Kept, hstream]
    exact fun _ => hgood
  have hticked : (w.ticked || w.seen) = true := by rw [hseen, Bool.or_true]
  have hdelivered := hreach.step hkept hput
  exact ⟨_, hdelivered, hticked, last_frame_delivered hdelivered rfl hticked⟩

end CdjEmu.Jog.Delivery
