/-
  THE JOG COPY — what `copy_stable` returns is one published frame.

  `Stream.lock` reads the shared region as a sequence lock: the octets are its cells, the newest
  frame of the history its last one.  `Shared` says that memory and history agree, with
  `publish_frame` at any of its stores; the copy is `Good` in the sense of the lock.  The counter in
  memory has 32 bits and gains two in each publish, so it comes back to where it was after 2³¹
  publishes; with fewer inside a copy an equal counter means the same count.

  1. **Program** — `Streams/JogStream` has the publisher in the guest's shim and the reader in the
     app, store by store and load by load, with the retries of `copy_stable`.

  2. **Specification** — with fewer than 2³¹ publishes inside the copy, the canvas is the frame of
     the publish that was the last one when the copy began; and no buffer that is being written is
     in the slot or with the UI.

  3. **The crux (`Lib/Seqlock`)** — an even counter that is the same before and after the copy has
     not moved, unless it has gone round; so no store lies between the two loads.

  4. **Bridge** — the memory's counter is the history's, cut to 32 bits, and each of the publisher's
     stores is a step of the lock or changes nothing that the lock reads.
-/
import CdjEmu.Streams.JogStream

namespace CdjEmu.Jog

open Machine

/-! ## The counter in memory -/

theorem ofNat_succ (n : Nat) : UInt32.ofNat n + 1 = UInt32.ofNat (n + 1) :=
  (UInt32.ofNat_add n 1).symm

theorem ofNat_and_one (n : Nat) : UInt32.ofNat n &&& 1 = 0 ↔ n % 2 = 0 := by
  rw [← UInt32.toNat_inj, UInt32.toNat_and, UInt32.toNat_ofNat']
  show n % 2 ^ 32 &&& 1 = 0 ↔ n % 2 = 0
  rw [Nat.and_one_is_mod]
  omega

theorem ofNat_or_one {n : Nat} (h : n % 2 = 0) : UInt32.ofNat n ||| 1 = UInt32.ofNat (n + 1) := by
  apply UInt32.toNat_inj.mp
  rw [UInt32.toNat_or, UInt32.toNat_ofNat', UInt32.toNat_ofNat']
  show n % 2 ^ 32 ||| 1 = (n + 1) % 2 ^ 32
  have heven : n % 2 ^ 32 = 2 ^ 1 * (n % 2 ^ 32 / 2) := by omega
  rw [heven, ← Nat.two_pow_add_eq_or_of_lt (by decide)]
  omega

theorem mod_eq_of_ofNat_eq {a b : Nat} (h : UInt32.ofNat a = UInt32.ofNat b) :
    a % 2 ^ 32 = b % 2 ^ 32 := by
  have hnat := congrArg UInt32.toNat h
  rwa [UInt32.toNat_ofNat', UInt32.toNat_ofNat'] at hnat

/-! ## Memory and history -/

namespace Stream

variable (s : Stream)

/-- What the last publish left. -/
def left : UInt32 × Frame := s.history.headD (0, Octets.zero frameBytes)

/-- The region as a sequence lock. -/
def lock : Seqlock Nat UInt8 := ⟨s.count, s.region.pixels.byte, s.left.2.byte⟩

end Stream

/-- What holds at each place of `publish_frame`; `m` is the counter. -/
def Publisher.At (m : Nat) (pixels : Frame) : Publisher → Prop
  | .idle => m % 2 = 0
  | .loaded _ v => m % 2 = 0 ∧ v = UInt32.ofNat m
  | .storing src v rest => m % 2 = 1 ∧ v = UInt32.ofNat (m - 1) ∧
      storeAll src pixels rest = frameOf src

structure Shared (s : Stream) : Prop where
  seq : s.region.seq = UInt32.ofNat s.count
  sound : s.lock.Sound
  history : s.history = s.left :: s.history.tail
  left : s.left.1 = UInt32.ofNat (s.count - s.count % 2)
  publisher : s.publisher.At s.count s.region.pixels

/-- What the thread and the UI do is not seen in the region. -/
theorem Shared.congr {s t : Stream} (h : Shared s) (hregion : t.region = s.region)
    (hpublisher : t.publisher = s.publisher) (hcount : t.count = s.count)
    (hhistory : t.history = s.history) : Shared t := by
  have hleft : t.left = s.left := by rw [Stream.left, Stream.left, hhistory]
  have hlock : t.lock = s.lock := by rw [Stream.lock, Stream.lock, hcount, hregion, hleft]
  constructor
  · rw [hregion, hcount]
    exact h.seq
  · rw [hlock]
    exact h.sound
  · rw [hhistory, hleft]
    exact h.history
  · rw [hleft, hcount]
    exact h.left
  · rw [hpublisher, hcount, hregion]
    exact h.publisher

theorem boot_shared : Shared .boot := ⟨rfl, fun _ => rfl, rfl, rfl, rfl⟩

/-- **A step of `publish_frame`** is one of the lock's writer; it is the last one when
    it finishes a publish. -/
theorem Shared.published {s t : Stream} (h : Shared s) (hs : s.publisherStep = some t) :
    Shared t ∧ Seqlock.Step s.lock t.lock ∧
      (t.count / 2 = s.count / 2 ∧ t.history = s.history ∧ t.inside = s.inside ∨
        t.count / 2 = s.count / 2 + 1 ∧ (∃ e, t.history = e :: s.history) ∧
        t.inside = s.inside + 1) := by
  have hpub := h.publisher
  unfold Stream.publisherStep at hs
  split at hs
  · cases hs
  -- The first store makes the number odd, and the drawing begins.
  · rename_i src v hp
    obtain rfl := Option.some.inj hs
    rw [hp] at hpub
    obtain ⟨heven, rfl⟩ := hpub
    refine ⟨⟨ofNat_or_one heven, ?_, h.history, ?_, ?_, ?_, extractToShm_eq src _⟩, .enter heven,
      .inl ⟨?_, rfl, rfl⟩⟩
    · exact Seqlock.Step.sound (.enter heven) h.sound
    · exact h.left.trans (congrArg UInt32.ofNat (by dsimp only; omega))
    · dsimp only
      omega
    · rfl
    · dsimp only
      omega
  -- A store of the drawing: the number stays odd, so the readers see that it is under way.
  · rename_i src v st rest hp
    obtain rfl := Option.some.inj hs
    rw [hp] at hpub
    obtain ⟨hodd, hv, hrest⟩ := hpub
    exact ⟨⟨h.seq, Seqlock.Step.sound (.write _ hodd) h.sound, h.history, h.left, hodd, hv, hrest⟩,
      .write _ hodd, .inl ⟨rfl, rfl, rfl⟩⟩
  -- The last store makes the number even again: the frame that was drawn is published.
  · rename_i src v hp
    obtain rfl := Option.some.inj hs
    rw [hp] at hpub
    obtain ⟨hodd, rfl, hdrawn⟩ := hpub
    generalize frameOf src = frame at hdrawn ⊢
    have hseq : (UInt32.ofNat (s.count - 1) ||| 1) + 1 = UInt32.ofNat (s.count + 1) := by
      rw [ofNat_or_one (by omega), ofNat_succ]
      exact congrArg UInt32.ofNat (by omega)
    have hlock : Seqlock.Step s.lock ⟨s.count + 1, s.region.pixels.byte, frame.byte⟩ := by
      rw [← hdrawn, storeAll_nil]
      exact .leave hodd
    refine ⟨⟨hseq, hlock.sound h.sound, rfl, ?_, ?_⟩, hlock, .inr ⟨?_, ⟨_, rfl⟩, rfl⟩⟩
    · exact hseq.trans (congrArg UInt32.ofNat (by dsimp only; omega))
    · show (s.count + 1) % 2 = 0
      omega
    · dsimp only
      omega

/-! ## The copy -/

/-- What holds while a frame is copied and when it has been: `seqBefore` is the counter of a moment
    since which `inside` publishes were finished, and what has been copied is what was there. -/
def Copied (s : Stream) : Prop :=
  match s.reader with
  | .copying _ v i => ∃ start, v = UInt32.ofNat start ∧ s.count / 2 = start / 2 + s.inside ∧
      Seqlock.Copy.Good ⟨start, fun k => k < i, s.canvas.byte⟩ s.lock
  | .returned (some v) => s.inside < 2 ^ 31 → s.history[s.inside]? = some (v, s.canvas)
  | _ => True

/-- **The second look at the counter.**  With fewer than 2³¹ publishes inside the copy, an equal
    counter means that the copy is the newest frame. -/
theorem Copied.frame {s : Stream} (hcopied : Copied s) (h : Shared s) {left i : Nat} {v : UInt32}
    (hr : s.reader = .copying left v i) (hi : frameBytes ≤ i) (hseq : s.region.seq = v)
    (hfew : s.inside < 2 ^ 31) :
    s.inside = 0 ∧ s.left = (v, s.canvas) := by
  unfold Copied at hcopied
  rw [hr] at hcopied
  obtain ⟨start, rfl, hcount, hgood⟩ := hcopied
  have hstable := hgood.stable
  have hle := hgood.le
  have hmod := mod_eq_of_ofNat_eq (hseq.symm.trans h.seq)
  have heq : start = s.count := by
    dsimp only [Stream.lock] at hstable hle
    apply Seqlock.eq_of_mod_eq hle _ hmod
    omega
  refine ⟨by omega, ?_⟩
  have hframe : s.canvas = s.left.2 := by
    apply Octets.ext_byte
    intro k hk
    exact hgood.frame h.sound heq.symm (Nat.lt_of_lt_of_le hk hi)
  have hfirst : s.left.1 = UInt32.ofNat start := by
    rw [h.left, heq]
    dsimp only at hstable
    exact congrArg UInt32.ofNat (by omega)
  rw [hframe, ← hfirst]

/-- What a step keeps of the copy, when the thread stays where it is. -/
theorem Copied.published {s t : Stream} (hcopied : Copied s)
    (hframe : t.reader = s.reader ∧ t.canvas = s.canvas) (hlock : Seqlock.Step s.lock t.lock)
    (hinside : t.count / 2 = s.count / 2 ∧ t.history = s.history ∧ t.inside = s.inside ∨
      t.count / 2 = s.count / 2 + 1 ∧ (∃ e, t.history = e :: s.history) ∧ t.inside = s.inside + 1) :
        Copied t := by
  obtain ⟨hreader, hcanvas⟩ := hframe
  unfold Copied at hcopied ⊢
  rw [hreader]
  split
  · rename_i v i hr
    rw [hr] at hcopied
    obtain ⟨start, hv, hcount, hgood⟩ := hcopied
    refine ⟨start, hv, ?_, ?_⟩
    · omega
    · rw [hcanvas]
      exact hgood.step hlock
  · rename_i v hr
    rw [hr] at hcopied
    intro hfew
    rw [hcanvas]
    rcases hinside with ⟨-, hhistory, hin⟩ | ⟨-, ⟨e, hhistory⟩, hin⟩
    · rw [hhistory, hin]
      exact hcopied (by omega)
    · rw [hhistory, hin, List.getElem?_cons_succ]
      exact hcopied (by omega)
  · trivial

theorem Copied.ticked {s t : Stream} {free : Bool} (hcopied : Copied s) (h : Shared s)
    (ht : Ticked s free t) : Copied t := by
  cases ht with
  -- The number that is loaded is even, so no publish is under way and no octet is copied yet.
  | load left hr heven =>
    have hstable : s.count % 2 = 0 := by
      rw [h.seq] at heven
      exact (ofNat_and_one s.count).mp heven
    exact ⟨s.count, h.seq, rfl, hstable, Nat.le_refl _, fun _ k hk => absurd hk (Nat.not_lt_zero k)⟩
  -- The octet that is copied is that of the region now; the earlier ones are as they were copied.
  | octet left v i hr hi =>
    unfold Copied at hcopied
    rw [hr] at hcopied
    obtain ⟨start, hv, hcount, hgood⟩ := hcopied
    refine ⟨start, hv, hcount, hgood.read ?_⟩
    intro k hk
    have hcanvas : Stream.canvas { s with
        heap := Function.update s.heap (s.bufs s.next) (s.canvas.store i (s.region.pixels.byte i))
        reader := .copying left v (i + 1) } = s.canvas.store i (s.region.pixels.byte i) :=
      Function.update_self ..
    rw [hcanvas]
    rcases Nat.lt_or_eq_of_le (Nat.le_of_lt_succ hk) with hlt | rfl
    · right
      exact ⟨hlt, Octets.byte_store_of_ne _ (Nat.ne_of_lt hlt)⟩
    · left
      rw [Octets.byte_store, if_pos ⟨rfl, hi⟩]
      rfl
  -- The number is still the one that was loaded, so the copy is one frame, the newest one.
  | stable left v i hr hi heq =>
    intro hfew
    obtain ⟨hzero, hleft⟩ := hcopied.frame h hr hi heq hfew
    show s.history[s.inside]? = some (v, s.canvas)
    rw [hzero, h.history, hleft]
    rfl
  | quiet r hfrom hr =>
    cases r with
    | idle | changed | getNext => trivial
    | _ => exact hr.elim
  | _ => trivial

/-! ## Runs -/

/-- The invariant of the stream. -/
structure Inv (s : Stream) : Prop where
  owned : Owned s
  shared : Shared s
  copied : Copied s

theorem Ticked.region_eq {s t : Stream} {free : Bool} (h : Ticked s free t) :
    t.region = s.region ∧ t.publisher = s.publisher ∧ t.count = s.count ∧
    t.history = s.history := by
  cases h with
  | _ => exact ⟨rfl, rfl, rfl, rfl⟩

theorem Inv.step {s t : Stream} {a : Event} (h : Inv s) (hs : machine.step s a = some t) :
    Inv t := by
  have howned := h.owned.step hs
  have hshared := h.shared
  cases a with
  | publish src =>
    dsimp only [machine] at hs
    split at hs
    · rename_i hidle
      obtain rfl := Option.some.inj hs
      have hpub := hshared.publisher
      rw [hidle] at hpub
      exact ⟨howned, ⟨hshared.seq, hshared.sound, hshared.history, hshared.left, hpub, hshared.seq⟩,
        h.copied⟩
    · cases hs
  -- The publisher draws in the region alone, which no buffer of the reader is.
  | publisher =>
    obtain ⟨hpublished, hlock, hinside⟩ := hshared.published hs
    have hframe : t.reader = s.reader ∧ t.canvas = s.canvas := by
      rw [publisherStep_frame hs]
      exact ⟨rfl, rfl⟩
    exact ⟨howned, hpublished, h.copied.published hframe hlock hinside⟩
  | reader free =>
    have ht := readerStep_cases hs
    obtain ⟨hregion, hpublisher, hcount, hhistory⟩ := ht.region_eq
    exact ⟨howned, hshared.congr hregion hpublisher hcount hhistory, h.copied.ticked hshared ht⟩
  -- The other events move buffers, and the region is left alone.
  | take =>
    obtain rfl := Option.some.inj hs
    exact ⟨howned, hshared.congr rfl rfl rfl rfl, h.copied⟩
  | clone b =>
    obtain ⟨-, ⟨⟩⟩ := Option.ite_none_right_eq_some.mp hs
    exact ⟨howned, hshared.congr rfl rfl rfl rfl, h.copied⟩
  | drop b =>
    obtain ⟨-, ⟨⟩⟩ := Option.ite_none_right_eq_some.mp hs
    exact ⟨howned, hshared.congr rfl rfl rfl rfl, h.copied⟩
  | remap =>
    dsimp only [machine] at hs
    split at hs
    · rename_i hidle
      obtain rfl := Option.some.inj hs
      refine ⟨howned, ⟨rfl, fun _ => rfl, rfl, rfl, rfl⟩, ?_⟩
      unfold Copied
      dsimp only
      rw [hidle]
      trivial
    · cases hs

theorem Inv.reach {s : Stream} (h : machine.Reach Free .boot s) : Inv s :=
  Reach.inv (I := Inv) ⟨boot_owned, boot_shared, trivial⟩ (fun _ _ _ hI _ hs => hI.step hs) h

/-- **A copied frame is one published frame**, and its buffer is nobody else's.  Whenever
    `copy_stable` has returned `Some(v)` and fewer than 2³¹ publishes were finished since the copy
    began, the canvas is the frame of the publish that was the last one when it began, and `v` is
    the `seq` it left; no buffer that is being written is in the slot or with the UI. -/
theorem copied_frame_published {s : Stream} (h : machine.Reach Free .boot s) :
    (∀ v, s.reader = .returned (some v) → s.inside < 2 ^ 31 →
      s.history[s.inside]? = some (v, s.canvas)) ∧
      (s.reader.Writing → s.slot ≠ some (s.bufs s.next) ∧ s.bufs s.next ∉ s.ui) := by
  obtain ⟨howned, -, hcopied⟩ := Inv.reach h
  constructor
  · intro v hr
    unfold Copied at hcopied
    rw [hr] at hcopied
    exact hcopied
  · intro hw
    have hnone := (howned.unshared hw).not_held
    constructor
    · exact fun hslot => hnone (Stream.mem_held.mpr (.inl hslot))
    · exact fun hui => hnone (Stream.mem_held.mpr (.inr (.inr hui)))

/-! ## An undisturbed publish and an undisturbed copy -/

/-- Only the guest and the thread move, one at a time, and nothing has been copied to its end. -/
def Alone (s : Stream) : Event → Prop
  | .publish _ | .publisher => s.reader = .idle
  | .reader _ => s.reader.image = none ∧ ∀ v, s.reader ≠ .returned v
  | _ => False

/-- The stores that are left are made. -/
theorem stores_run (src : Nat → UInt32) (v : UInt32) {rest : List (Nat × Nat)} {s : Stream}
    (hp : s.publisher = .storing src v rest) (hr : s.reader = .idle) :
    machine.Reach Alone s { s with
      region := { s.region with pixels := storeAll src s.region.pixels rest },
      publisher := .storing src v [] } := by
  induction rest generalizing s with
  | nil =>
    rw [storeAll_nil, ← hp]
    exact .refl
  | cons st rest ih =>
    have hstep : machine.step s .publisher = some { s with
        region := { s.region with pixels := storePixel s.region.pixels st.1 (src st.2) }
        publisher := .storing src v rest } := by
      show s.publisherStep = _
      rw [Stream.publisherStep, hp]
    have halone : Alone s .publisher := hr
    exact (Reach.refl.step halone hstep).trans (ih rfl hr)

/-- The octets that are left are copied. -/
theorem octets_run {n i left : Nat} {v : UInt32} {s : Stream} (hr : s.reader = .copying left v i)
    (hn : i + n = frameBytes) :
    ∃ heap, machine.Reach Alone s
      { s with heap := heap, reader := .copying left v frameBytes } := by
  induction n generalizing i s with
  | zero =>
    obtain rfl : i = frameBytes := hn
    refine ⟨s.heap, ?_⟩
    rw [← hr]
    exact .refl
  | succ n ih =>
    have hstep : machine.step s (.reader true) = some { s with
        heap := Function.update s.heap (s.bufs s.next) (s.canvas.store i (s.region.pixels.byte i))
        reader := .copying left v (i + 1) } := by
      show s.readerStep true = _
      rw [Stream.readerStep, hr]
      dsimp only
      rw [if_pos (by omega)]
    have halone : Alone s (.reader true) := by
      rw [Alone, hr]
      exact ⟨rfl, fun _ => Reader.noConfusion⟩
    obtain ⟨heap, hrest⟩ := ih (i := i + 1) (s := { s with
        heap := Function.update s.heap (s.bufs s.next) (s.canvas.store i (s.region.pixels.byte i))
        reader := .copying left v (i + 1) }) rfl (by omega)
    exact ⟨heap, (Reach.refl.step halone hstep).trans hrest⟩

theorem alone_reader {s : Stream} {r : Reader} (himg : r.image = none)
    (hret : ∀ v, r ≠ .returned v) :
    Alone { s with reader := r } (.reader true) := ⟨himg, hret⟩

/-- A tick that finds a new frame and a free buffer begins a copy. -/
theorem tick_runs {s : Stream} (hr : s.reader = .idle) (hnew : s.region.seq ≠ s.lastSeq)
    (heven : s.region.seq &&& 1 = 0) (hpanel : s.region.IsXrgbPanel)
    (hu : Stream.Unshared { s with reader := .getNext }) :
    machine.Reach Alone s { s with reader := .copying 3 s.region.seq 0, inside := 0 } := by
  have hlook : machine.step s (.reader true) = some { s with reader := .changed } := by
    show s.readerStep true = _
    rw [Stream.readerStep, hr]
    dsimp only
    rw [if_neg (not_or.mpr ⟨hnew, not_not.mpr heven⟩)]
  have halone : Alone s (.reader true) := by
    rw [Alone, hr]
    exact ⟨rfl, fun _ => Reader.noConfusion⟩
  have hheader : machine.step { s with reader := .changed } (.reader true) =
      some { s with reader := .getNext } := by
    show some { s with reader := if s.region.IsXrgbPanel then Reader.getNext else .idle } = _
    rw [if_pos hpanel]
  have hnext : machine.step { s with reader := .getNext } (.reader true) =
      some { s with reader := .ready } :=
    congrArg some (if_pos hu)
  have hready : machine.step { s with reader := .ready } (.reader true) =
      some { s with reader := .attempt 4 } := by
    show some { s with
        reader := if Stream.Unshared { s with reader := .ready } then Reader.attempt 4
          else .panicked } = _
    rw [if_pos (show Stream.Unshared { s with reader := .ready } from hu)]
  have hload : machine.step { s with reader := .attempt 4 } (.reader true) =
      some { s with reader := .copying 3 s.region.seq 0, inside := 0 } :=
    congrArg some (if_neg (not_not.mpr heven))
  have hchanged := Reach.refl.step halone hlook
  have hgetNext := hchanged.step (alone_reader rfl fun _ => Reader.noConfusion) hheader
  have hfound := hgetNext.step (alone_reader rfl fun _ => Reader.noConfusion) hnext
  have hbegin := hfound.step (alone_reader rfl fun _ => Reader.noConfusion) hready
  exact hbegin.step (alone_reader rfl fun _ => Reader.noConfusion) hload

/-- **A tick copies a new frame**, when nobody publishes meanwhile. -/
theorem frame_runs {s : Stream} (hr : s.reader = .idle) (hnew : s.region.seq ≠ s.lastSeq)
    (heven : s.region.seq &&& 1 = 0) (hpanel : s.region.IsXrgbPanel)
    (hu : Stream.Unshared { s with reader := .getNext }) :
    ∃ heap, machine.Reach Alone s { s with
      heap := heap, reader := .copying 3 s.region.seq frameBytes, inside := 0 } := by
  obtain ⟨heap, hoctets⟩ :=
    octets_run (s := { s with reader := .copying 3 s.region.seq 0, inside := 0 })
    rfl (Nat.zero_add frameBytes)
  exact ⟨heap, (tick_runs hr hnew heven hpanel hu).trans hoctets⟩

/-- The first frame is published, and all of it is copied. -/
def firstCopied (frame pixels : Frame) (heap : Nat → Frame) : Stream := { Stream.boot with
  region := { Region.initOnce with seq := 2, pixels := pixels }
  reader := .copying 3 2 frameBytes
  heap := heap
  count := 2
  history := [(2, frame), (0, Octets.zero frameBytes)] }

/-- The guest's first publish and the thread's first copy, from the boot on. -/
theorem firstCopied_reach (src : Nat → UInt32) :
    ∃ pixels heap, machine.Reach Alone .boot (firstCopied (frameOf src) pixels heap) := by
  have hload : machine.step .boot (.publish src) =
      some { Stream.boot with publisher := .loaded src 0 } := rfl
  have hlock : machine.step { Stream.boot with publisher := .loaded src 0 } .publisher =
      some { Stream.boot with
      region := { Region.initOnce with seq := 1 }, publisher := .storing src 0 stores,
      count := 1 } := rfl
  have hfirst : Alone .boot (.publish src) := rfl
  have hsecond : Alone { Stream.boot with publisher := .loaded src 0 } .publisher := rfl
  have hstores :=
    ((Reach.refl.step hfirst hload).step hsecond hlock).trans (stores_run src 0 rfl rfl)
  generalize storeAll src _ stores = pixels at hstores
  have hfinish : machine.step { Stream.boot with
      region := { Region.initOnce with seq := 1, pixels := pixels }, publisher := .storing src 0 [],
      count := 1 } .publisher =
        some { Stream.boot with
          region := { Region.initOnce with seq := 2, pixels := pixels }, count := 2, inside := 1
          history := [(2, frameOf src), (0, Octets.zero frameBytes)] } := rfl
  have halone : Alone { Stream.boot with
      region := { Region.initOnce with seq := 1, pixels := pixels }, publisher := .storing src 0 [],
      count := 1 } .publisher :=
    rfl
  have hpublish := Reach.step hstores halone hfinish
  have hnew : (2 : UInt32) ≠ 0 := by decide
  have heven : (2 : UInt32) &&& 1 = 0 := by decide
  obtain ⟨heap, hcopy⟩ := frame_runs (s := { Stream.boot with
    region := { Region.initOnce with seq := 2, pixels := pixels }, count := 2, inside := 1
    history := [(2, frameOf src), (0, Octets.zero frameBytes)] }) rfl hnew heven ⟨rfl, rfl, rfl⟩ rfl
  exact ⟨pixels, heap, hpublish.trans hcopy⟩

/-- The guest publishes its first frame, and the thread copies it. -/
theorem first_frame_copied : ∃ s, machine.Reach Free .boot s ∧ s.reader = .returned (some 2) ∧
    s.canvas = frameOf (fun i => UInt32.ofNat i) ∧ s.bufs s.next ∉ s.ui := by
  obtain ⟨pixels, heap, hcopied⟩ := firstCopied_reach fun i => UInt32.ofNat i
  generalize frameOf (fun i => UInt32.ofNat i) = frame at hcopied ⊢
  have hstable : machine.step (firstCopied frame pixels heap) (.reader true) =
      some { firstCopied frame pixels heap with reader := .returned (some 2) } := rfl
  have hreach := (hcopied.mono fun _ _ _ _ => trivial).step (G := Free) trivial hstable
  obtain ⟨hframe, hown⟩ := copied_frame_published hreach
  have hlast := hframe 2 rfl (Nat.two_pow_pos 31)
  exact ⟨_, hreach, rfl, (congrArg Prod.snd (Option.some.inj hlast)).symm, (hown trivial).2⟩

end CdjEmu.Jog
