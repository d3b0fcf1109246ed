/-
  THE AUDIO BYPASS RING — the writer thread, the host's callback and PREPARE.

  The writer puts whole buffers into the ring and the callback takes out what is there.  Each of the
  two loads both counters, copies in pieces and stores its own counter.  PREPARE with a format that
  is not the last one is a COLD START: it sets both counters anew, from a third thread.

  A step is one load, store or copy.  Counters have 64 bits, and so have the differences that are
  taken of them.  How a sample becomes a float is a parameter.  `stream`, `handed` and `clean` are
  history: the silence and the converted bytes that were published since the last cold start, what
  the callback got of them, and whether every write so far has spared the bytes between tail and
  head.

  1. **Program** — the writer and the callback with every load, copy and store as a step of its own,
     PREPARE with its three stores, and the conversion of samples to the ring's format.

  2. **Specification** — `Lossless`: what the callback has got is a front of what was published,
     byte by byte and in order, and the rest of it is what stands between tail and head.

  3. **The crux (`Reads` and `Writes`)** — what a thread has loaded is a bound: the tail that the
     writer has seen is not beyond the true one, and the head that the callback has seen is not
     beyond the true one, so each side's copy stays within its own half of the ring.

  4. **Bridge** — `Lib/Circular` has the list that a ring stands for and what a write of some bytes
     does to it, wrapping around included.
-/
import CdjEmu.Lib.Circular
import CdjEmu.Lib.Machine
import CdjEmu.Lib.Words

namespace CdjEmu.Bypass

open Machine

/-- `VSND_BYPASS_BYTES`. -/
def bypassBytes : Nat := 128 * 1024

/-- `VSND_BYPASS_PREFILL_BYTES`. -/
def prefillBytes : Nat := 16384

/-- `h - t` of two counters. -/
def diff (h t : Nat) : Nat := (h + 2 ^ 64 - t) % 2 ^ 64

/-- `AUDIO_FORMAT_F32` and `AUDIO_FORMAT_S32`. -/
inductive Format where
  | f32
  | s32
  deriving DecidableEq

/-! ## What the writer copies -/

section Convert

variable (toF32 : Nat → Nat)

/-- The `i`-th sample as a float. -/
def sample (src : Bytes) (i : Nat) : Bytes := toLe 4 (toF32 (ofLe (slice src (i * 4) 4)))

/-- The bytes of a buffer in the ring's format. -/
def converted (fmt : Format) (src : Bytes) : Bytes :=
  match fmt with
  | .f32 => src
  | .s32 => (List.range (src.length / 4)).flatMap (sample toF32 src)

/-- The copies of a buffer, and where they go. -/
def copies (fmt : Format) (off : Nat) (src : Bytes) : List (Nat × Bytes) :=
  match fmt with
  | .f32 =>
    let first := min src.length (bypassBytes - off)
    (off, src.take first) :: if first < src.length then [(0, src.drop first)] else []
  | .s32 => (List.range (src.length / 4)).map fun i =>
      ((off + i * 4) % bypassBytes, sample toF32 src i)

end Convert

/-! ## The state -/

/-- Where PREPARE is: in a cold start before the tail, the silence and the head, or
    before it starts the writer. -/
inductive Main where
  | idle
  | coldTail
  | coldFill
  | coldHead
  | starting
  deriving DecidableEq

/-- Where the callback is in `virtio_snd_bypass_read`. -/
inductive Reader where
  | idle
  | loadedTail (want t : Nat)
  | copying (t bytes : Nat) (got : Bytes) (rest : List (Nat × Nat))

/-- Where the writer is in `vsnd_bypass_write_passthrough`. -/
inductive Writer where
  | idle
  | loadedHead (src : Bytes) (h : Nat)
  | copying (h bytes : Nat) (out : Bytes) (rest : List (Nat × Bytes))

structure Ring where
  ring : Nat → UInt8
  head : Nat
  tail : Nat
  srcFmt : Option Format
  main : Main
  reader : Reader
  writer : Writer
  /-- Whether the writer thread has been started. -/
  started : Bool
  stream : Bytes
  handed : Bytes
  clean : Bool

inductive Event where
  | prepare (fmt : Format)
  | coldTail
  | coldFill
  | coldHead
  | startWriter
  | read (want : Nat)
  | readHead
  | readCopy
  | readStore
  | write (src : Bytes)
  | writeTail
  | writeCopy
  | writeStore

namespace Ring

/-- The state at boot. -/
def init : Ring where
  ring := fun _ => 0
  head := 0
  tail := 0
  srcFmt := none
  main := .idle
  reader := .idle
  writer := .idle
  started := false
  stream := []
  handed := []
  clean := true

variable (s : Ring)

/-- `virtio_snd_bypass_avail`. -/
def avail : Nat := diff s.head s.tail

/-- The byte at `pos` lies between tail and head. -/
def Live (pos : Nat) : Prop := (pos + bypassBytes - s.tail % bypassBytes) % bypassBytes < s.avail

/-- A write of `len` bytes at `pos` touches no byte between tail and head. -/
def Spares (pos len : Nat) : Prop := ∀ i, i < len → ¬ s.Live (pos + i)

end Ring

/-- Intervals around the end: the first byte is behind what is live, and the last one before it. -/
theorem Ring.spares_iff {s : Ring} {pos len : Nat} (h : pos + len ≤ bypassBytes) :
    s.Spares pos len ↔
      len = 0 ∨ s.avail = 0 ∨ (s.avail ≤ (pos + bypassBytes - s.tail % bypassBytes) % bypassBytes ∧
        (pos + bypassBytes - s.tail % bypassBytes) % bypassBytes + len ≤ bypassBytes) := by
  unfold Ring.Spares Ring.Live
  have hlt : s.tail % bypassBytes < bypassBytes := Nat.mod_lt _ (by decide)
  generalize s.tail % bypassBytes = a at hlt ⊢
  generalize s.avail = n
  have hN : bypassBytes = 131072 := rfl
  rw [hN] at h hlt ⊢
  constructor
  · intro hspares
    by_contra hno
    have h0 := hspares 0 (by omega)
    have hw := hspares (131072 + a - pos)
    have hend := hspares (a - pos)
    omega
  · rintro hor i hi
    omega

instance (s : Ring) (pos : Nat) : Decidable (s.Live pos) := inferInstanceAs (Decidable (_ < _))

instance (s : Ring) (pos len : Nat) : Decidable (s.Spares pos len) :=
  if h : pos + len ≤ bypassBytes then decidable_of_iff' _ (Ring.spares_iff h)
  else inferInstanceAs (Decidable (∀ i, i < len → ¬ s.Live (pos + i)))

/-! ## The machine -/

section Program

variable (toF32 : Nat → Nat)

def bypass : Machine Ring Event where
  step s
    -- `virtio_snd_bypass_set_active`
    | .prepare fmt =>
      if s.main = .idle then
        some { s with
          srcFmt := some fmt, main := if s.srcFmt = some fmt then .starting else .coldTail }
      else none
    | .coldTail => if s.main = .coldTail then some { s with tail := 0, main := .coldFill } else none
    | .coldFill =>
      if s.main = .coldFill then
        some { s with
          ring := fun i => if i < prefillBytes then 0 else s.ring i
          main := .coldHead
          clean := s.clean && decide (s.Spares 0 prefillBytes) }
      else none
    | .coldHead =>
      if s.main = .coldHead then
        some { s with
          head := prefillBytes
          main := .starting
          stream := List.replicate prefillBytes 0
          handed := [] }
      else none
    | .startWriter =>
        if s.main = .starting then some { s with started := true, main := .idle } else none
    -- `virtio_snd_bypass_read`
    | .read want =>
      match s.reader with
      | .idle => some { s with reader := .loadedTail want s.tail }
      | _ => none
    | .readHead =>
      match s.reader with
      | .loadedTail want t =>
        let bytes := min want (diff s.head t)
        some { s with
          reader := .copying t bytes [] (Circular.pieces bypassBytes (t % bypassBytes) bytes) }
      | _ => none
    | .readCopy =>
      match s.reader with
      | .copying t bytes got ((pos, len) :: rest) =>
        some { s with reader := .copying t bytes (got ++ Circular.slice s.ring pos len) rest }
      | _ => none
    | .readStore =>
      match s.reader with
      | .copying t bytes got [] =>
        some { s with tail := (t + bytes) % 2 ^ 64, reader := .idle, handed := s.handed ++ got }
      | _ => none
    -- `vsnd_bypass_write_passthrough`; the guest's buffers are whole frames
    | .write src =>
      match s.writer with
      | .idle =>
        if s.started ∧ src.length % 8 = 0 then some { s with writer := .loadedHead src s.head }
        else none
      | _ => none
    | .writeTail =>
      match s.writer, s.srcFmt with
      | .loadedHead src h, some fmt =>
        if diff bypassBytes (diff h s.tail) < src.length then some { s with writer := .idle }
        else
          some { s with
            writer := .copying h src.length (converted toF32 fmt src)
              (copies toF32 fmt (h % bypassBytes) src) }
      | _, _ => none
    | .writeCopy =>
      match s.writer with
      | .copying h bytes out ((pos, l) :: rest) =>
        some { s with
          ring := Circular.put s.ring pos l
          writer := .copying h bytes out rest
          clean := s.clean && decide (s.Spares pos l.length) }
      | _ => none
    | .writeStore =>
      match s.writer with
      | .copying h bytes out [] =>
          some { s with head := (h + bytes) % 2 ^ 64, writer := .idle, stream := s.stream ++ out }
      | _ => none

end Program

/-- The ring is a queue: what the callback got is the front of what was published, the counters are
    not further apart than the ring is long, and no write has touched what lies between them. -/
structure Ring.Lossless (s : Ring) : Prop where
  bound : s.avail ≤ bypassBytes
  order : s.handed <+: s.stream
  spared : s.clean = true

/-- PREPARE asks for the format of the first one. -/
def SameFormat (s : Ring) : Event → Prop
  | .prepare fmt => s.srcFmt = none ∨ s.srcFmt = some fmt
  | _ => True

instance (s : Ring) (a : Event) : Decidable (SameFormat s a) := by
  cases a <;> (unfold SameFormat; infer_instance)

/-! ## What is copied -/

variable {toF32 : Nat → Nat} {s t : Ring}

theorem length_sample (src : Bytes) (i : Nat) : (sample toF32 src i).length = 4 := length_toLe ..

theorem length_converted {fmt : Format} {src : Bytes} (h : src.length % 8 = 0) :
    (converted toF32 fmt src).length = src.length := by
  cases fmt with
  | f32 => rfl
  | s32 =>
    have hlen : ∀ n, ((List.range n).flatMap (sample toF32 src)).length = n * 4 := by
      intro n
      simp [List.length_flatMap, length_sample]
    rw [converted, hlen]
    omega

theorem flatten_copies (fmt : Format) (off : Nat) (src : Bytes) :
    ((copies toF32 fmt off src).map Prod.snd).flatten = converted toF32 fmt src := by
  cases fmt with
  | f32 =>
    unfold copies converted
    dsimp only
    split
    · rename_i hfirst
      have hmin : min src.length (bypassBytes - off) = bypassBytes - off := by omega
      simp
    · rename_i hfirst
      simp only [List.map_cons, List.map_nil, List.flatten_cons, List.flatten_nil, List.append_nil]
      exact List.take_of_length_le (by omega)
  | s32 =>
    rw [copies, converted, List.map_map, List.flatMap_def]
    rfl

theorem contiguous_copies {fmt : Format} {h : Nat} {src : Bytes} (hfit : src.length ≤ bypassBytes)
    (haligned : 8 ∣ h) :
    Circular.Contiguous bypassBytes h
      ((copies toF32 fmt (h % bypassBytes) src).map fun c => (c.1, c.2.length)) := by
  cases fmt with
  | f32 =>
    have hpieces : Circular.Contiguous bypassBytes h
        (Circular.pieces bypassBytes (h % bypassBytes) src.length) :=
      Circular.contiguous_pieces (by decide) hfit
    have hsame : ((copies toF32 .f32 (h % bypassBytes) src).map fun c => (c.1, c.2.length)) =
        Circular.pieces bypassBytes (h % bypassBytes) src.length := by
      unfold copies Circular.pieces
      dsimp only
      split
      · simp
      · simp
    rwa [hsame]
  | s32 =>
    have hsteps : Circular.Contiguous bypassBytes h
        ((List.range (src.length / 4)).map fun i => ((h % bypassBytes + i * 4) % bypassBytes, 4)) :=
      Circular.contiguous_steps (by decide) ((by decide : 4 ∣ 8).trans haligned) (by decide)
    rw [copies, List.map_map]
    simpa only [Function.comp_def, length_sample] using hsteps

/-! ## The invariant -/

open Circular (window Contiguous total)

theorem diff_counters {h t : Nat} (hle : t ≤ h) (hlt : h - t < 2 ^ 64) :
    diff (h % 2 ^ 64) (t % 2 ^ 64) = h - t := by
  unfold diff
  omega

theorem mod_bypassBytes (n : Nat) : n % 2 ^ 64 % bypassBytes = n % bypassBytes :=
  Nat.mod_mod_of_dvd n (by decide)

namespace Ring

/-- The callback has loaded the tail, and has copied a front of what it will take. -/
inductive Reads (s : Ring) : Reader → Prop
  | idle : Reads s .idle
  | loadedTail (want : Nat) : Reads s (.loadedTail want s.tail)
  | copying {bytes : Nat} {got : Bytes} {rest : List (Nat × Nat)} (hbytes : got.length +
      total rest = bytes)
      (hle : s.handed.length + bytes ≤ s.stream.length)
      (hgot : got <+: s.stream.drop s.handed.length)
      (hrest : Contiguous bypassBytes (s.handed.length + got.length) rest) :
      Reads s (.copying s.tail bytes got rest)

/-- The writer has loaded the head, and a front of what it writes stands behind it. -/
inductive Writes (s : Ring) : Writer → Prop
  | idle : Writes s .idle
  | loadedHead {src : Bytes} (hsrc : src.length % 8 = 0) : Writes s (.loadedHead src s.head)
  | copying {bytes : Nat} {out done : Bytes} {rest : List (Nat × Bytes)} (hbytes :
      out.length = bytes)
      (hframes : bytes % 8 = 0) (hroom : s.stream.length + bytes ≤ s.handed.length + bypassBytes)
      (hout : out = done ++ (rest.map Prod.snd).flatten)
      (hdone : window bypassBytes s.ring s.stream.length done.length = done)
      (hrest : Contiguous bypassBytes (s.stream.length + done.length)
        (rest.map fun c => (c.1, c.2.length))) :
      Writes s (.copying s.head bytes out rest)

structure Sound (s : Ring) : Prop where
  head : s.head = s.stream.length % 2 ^ 64
  tail : s.tail = s.handed.length % 2 ^ 64
  le : s.handed.length ≤ s.stream.length
  room : s.stream.length ≤ s.handed.length + bypassBytes
  order : s.handed <+: s.stream
  live : window bypassBytes s.ring s.handed.length (s.stream.length - s.handed.length) =
    s.stream.drop s.handed.length
  aligned : s.stream.length % 8 = 0
  /-- The cold start is the first one. -/
  cold : s.main ≠ .idle → s.main ≠ .starting → s.stream = [] ∧ s.started = false
  silent : s.main = .coldHead → ∀ i, i < prefillBytes → s.ring i = 0
  boot : s.srcFmt = none → s.main = .idle ∧ s.stream = [] ∧ s.started = false
  quiet : s.started = false → s.writer = .idle
  reads : s.Reads s.reader
  writes : s.Writes s.writer
  spared : s.clean = true

theorem Sound.avail_eq (h : s.Sound) : s.avail = s.stream.length - s.handed.length := by
  have hroom := h.room
  have hN : bypassBytes = 131072 := rfl
  rw [avail, h.head, h.tail]
  exact diff_counters h.le (by omega)

theorem Sound.no_loss (h : s.Sound) : s.Lossless := by
  have hroom := h.room
  refine ⟨?_, h.order, h.spared⟩
  rw [h.avail_eq]
  omega

/-- Before the first bytes are published, nothing is there. -/
theorem Sound.nothing (h : s.Sound) (hnil : s.stream = []) :
    s.handed = [] ∧ s.head = 0 ∧ s.tail = 0 := by
  have hhanded : s.handed = [] := by
    have horder := h.order
    rw [hnil] at horder
    exact List.prefix_nil.mp horder
  refine ⟨hhanded, ?_, ?_⟩
  · rw [h.head, hnil]
    rfl
  · rw [h.tail, hhanded]
    rfl

theorem sound_init : init.Sound where
  head := rfl
  tail := rfl
  le := Nat.le_refl 0
  room := Nat.zero_le _
  order := List.prefix_refl []
  live := rfl
  aligned := rfl
  cold := fun h => absurd rfl h
  silent := nofun
  boot := fun _ => ⟨rfl, rfl, rfl⟩
  quiet := fun _ => rfl
  reads := .idle
  writes := .idle
  spared := rfl

/-- More may be published while the callback copies. -/
theorem Reads.mono {u : Ring} {r : Reader} (h : s.Reads r) (htail : u.tail = s.tail)
    (hstream : s.stream <+: u.stream) (hhanded : u.handed = s.handed) : u.Reads r := by
  cases h with
  | idle => exact .idle
  | loadedTail want => exact htail ▸ .loadedTail want
  | copying hbytes hle hgot hrest =>
    rw [← htail]
    refine .copying hbytes ?_ ?_ ?_
    · rw [hhanded]
      exact hle.trans hstream.length_le
    · rw [hhanded]
      exact hgot.trans (hstream.drop _)
    · rwa [hhanded]

/-- More may be taken while the writer copies. -/
theorem Writes.mono {u : Ring} {w : Writer} (h : s.Writes w) (hhead : u.head = s.head)
    (hstream : u.stream = s.stream) (hhanded : s.handed.length ≤ u.handed.length)
    (hring : u.ring = s.ring) : u.Writes w := by
  cases h with
  | idle => exact .idle
  | loadedHead hsrc => exact hhead ▸ .loadedHead hsrc
  | copying hbytes hframes hroom hout hdone hrest =>
    rw [← hhead]
    refine .copying hbytes hframes ?_ hout ?_ ?_
    · rw [hstream]
      omega
    · rwa [hring, hstream]
    · rwa [hstream]

/-! ## The callback -/

/-- The callback takes a step that only it sees. -/
theorem Sound.reader (h : s.Sound) {r : Reader} (hr : s.Reads r) :
    ({ s with reader := r } : Ring).Sound :=
  ⟨h.head, h.tail, h.le, h.room, h.order, h.live, h.aligned, h.cold, h.silent, h.boot, h.quiet,
    hr.mono rfl (List.prefix_refl _) rfl, h.writes.mono rfl rfl (Nat.le_refl _) rfl, h.spared⟩

theorem Sound.readHead (h : s.Sound) (want : Nat) :
    s.Reads (.copying s.tail (min want (diff s.head s.tail)) []
      (Circular.pieces bypassBytes (s.tail % bypassBytes) (min want (diff s.head s.tail)))) := by
  have havail := h.avail_eq
  have hroom := h.room
  have hle := h.le
  unfold avail at havail
  refine .copying ?_ ?_ (List.nil_prefix) ?_
  · rw [Circular.total_pieces, List.length_nil, Nat.zero_add]
  · omega
  · rw [h.tail, mod_bypassBytes, ← h.tail]
    exact Circular.contiguous_pieces (by decide) (by omega)

/-- A piece of what lies between the counters. -/
theorem Sound.readCopy (h : s.Sound) {t bytes pos len : Nat} {got : Bytes} {rest : List (Nat × Nat)}
    (hr : s.Reads (.copying t bytes got ((pos, len) :: rest))) :
    s.Reads (.copying t bytes (got ++ Circular.slice s.ring pos len) rest) := by
  cases hr with
  | copying hbytes hle hgot hrest =>
    obtain ⟨rfl, hfit, hrest⟩ := hrest
    rw [Circular.total_cons] at hbytes
    have hpiece : (s.stream.drop s.handed.length).drop got.length =
        Circular.slice s.ring ((s.handed.length + got.length) % bypassBytes) len ++
          (s.stream.drop s.handed.length).drop (got.length + len) := by
      rw [← Circular.window_eq_slice hfit, ← h.live, Circular.drop_window, Circular.drop_window]
      have hlen : s.stream.length - s.handed.length - got.length =
          len + (s.stream.length - s.handed.length - (got.length + len)) := by omega
      rw [hlen, Circular.window_add]
      congr 2
      omega
    refine .copying ?_ hle ?_ ?_
    · rw [List.length_append, Circular.length_slice, ← hbytes]
      exact Nat.add_assoc ..
    · obtain ⟨tail, htail⟩ := hgot
      rw [← htail, List.drop_left] at hpiece
      rw [← htail, hpiece, ← List.append_assoc]
      exact List.prefix_append _ _
    · rwa [List.length_append, Circular.length_slice, ← Nat.add_assoc]

/-- What was copied is given to the callback. -/
theorem Sound.readStore (h : s.Sound) {t bytes : Nat} {got : Bytes}
    (hr : s.Reads (.copying t bytes got [])) :
    ({ s with tail := (t + bytes) % 2 ^ 64, reader := .idle, handed := s.handed ++ got } :
      Ring).Sound := by
  cases hr with
  | copying hbytes hle hgot hrest =>
    obtain rfl : got.length = bytes := by simpa using hbytes
    have hlen : (s.handed ++ got).length = s.handed.length + got.length := List.length_append
    -- what was copied is the front of what is live
    have hrest : s.stream.drop s.handed.length = got ++ s.stream.drop
        (s.handed.length + got.length) := by
      have htake := List.prefix_iff_eq_take.mp hgot
      rw [← List.drop_drop]
      conv_lhs => rw [← List.take_append_drop got.length (s.stream.drop s.handed.length)]
      rw [← htake]
    have hroom := h.room
    have htail := h.tail
    -- the bytes handed over are the longer start of the stream
    refine ⟨h.head, ?_, ?_, ?_, ?_, ?_, h.aligned, h.cold, h.silent, h.boot, h.quiet, .idle, ?_,
      h.spared⟩
    · show (s.tail + got.length) % 2 ^ 64 = (s.handed ++ got).length % 2 ^ 64
      rw [hlen, htail, Nat.mod_add_mod]
    · show (s.handed ++ got).length ≤ s.stream.length
      omega
    · show s.stream.length ≤ (s.handed ++ got).length + bypassBytes
      omega
    · show s.handed ++ got <+: s.stream
      obtain ⟨tail, heq⟩ := h.order
      rw [← heq, List.drop_left] at hgot
      rw [← heq]
      exact (List.prefix_append_right_inj _).mpr hgot
    -- the rest of the ring is as before
    · show window bypassBytes s.ring (s.handed ++ got).length
          (s.stream.length - (s.handed ++ got).length) =
        s.stream.drop (s.handed ++ got).length
      rw [hlen, ← List.drop_drop, ← h.live, Circular.drop_window]
      congr 1
      omega
    · refine h.writes.mono rfl rfl ?_ rfl
      show s.handed.length ≤ (s.handed ++ got).length
      omega

/-! ## The writer -/

/-- The writer takes a step that only it sees. -/
theorem Sound.writer (h : s.Sound) {w : Writer} (hw : s.Writes w)
    (hstarted : s.started = false → w = .idle) :
    ({ s with writer := w } : Ring).Sound :=
  ⟨h.head, h.tail, h.le, h.room, h.order, h.live, h.aligned, h.cold, h.silent, h.boot, hstarted,
    h.reads.mono rfl (List.prefix_refl _) rfl, hw.mono rfl rfl (Nat.le_refl _) rfl, h.spared⟩

theorem Sound.writeTail (h : s.Sound) {src : Bytes} {w : Nat} (hw : s.Writes (.loadedHead src w))
    (hfits : ¬ diff bypassBytes (diff w s.tail) < src.length) (toF32 : Nat → Nat) (fmt : Format) :
    s.Writes (.copying w src.length (converted toF32 fmt src)
      (copies toF32 fmt (w % bypassBytes) src)) := by
  cases hw with
  | loadedHead hsrc =>
    have havail := h.avail_eq
    have hroom := h.room
    have hle := h.le
    have hN : bypassBytes = 131072 := rfl
    have hfree : src.length ≤ bypassBytes - (s.stream.length - s.handed.length) := by
      have hdiff : diff s.head s.tail = s.stream.length - s.handed.length := havail
      rw [hdiff, diff] at hfits
      omega
    have hcontiguous : Contiguous bypassBytes s.stream.length
        ((copies toF32 fmt (s.stream.length % bypassBytes) src).map fun c => (c.1, c.2.length)) :=
      contiguous_copies (by omega) (Nat.dvd_of_mod_eq_zero h.aligned)
    refine @Writes.copying _ _ _ [] _ (length_converted hsrc) hsrc (by omega) ?_ rfl ?_
    · rw [flatten_copies, List.nil_append]
    · rw [h.head, mod_bypassBytes]
      exact hcontiguous

/-- A copy behind the head leaves alone what is live. -/
theorem Sound.writeCopy (h : s.Sound) (hstarted : s.started = true) {w bytes pos : Nat}
    {out l : Bytes} {rest : List (Nat × Bytes)}
    (hw : s.Writes (.copying w bytes out ((pos, l) :: rest))) :
    s.Spares pos l.length ∧
    ({ s with ring := Circular.put s.ring pos l, writer := .copying w bytes out rest } :
      Ring).Sound := by
  cases hw with
  | @copying _ _ done _ hbytes hframes hroom hout hdone hrest =>
    obtain ⟨rfl, hfit, hrest⟩ := hrest
    have hfit : (s.stream.length + done.length) % bypassBytes + l.length ≤ bypassBytes := hfit
    have hle := h.le
    have hroom' := h.room
    have hlen : done.length + l.length ≤ bytes := by
      have hlength := congrArg List.length hout
      simp only [List.map_cons, List.flatten_cons, List.length_append] at hlength
      omega
    refine ⟨fun i hi hlive => ?_, ?_⟩
    -- a position behind the head is not live, for the room was asked for
    · have hlive : ((s.stream.length + done.length) % bypassBytes + i + bypassBytes -
          s.tail % bypassBytes) % bypassBytes <
          s.avail := hlive
      rw [h.avail_eq, h.tail, mod_bypassBytes] at hlive
      have hN : bypassBytes = 131072 := rfl
      rw [hN] at hlive hroom hfit
      omega
    · have hdone' :
          window bypassBytes (Circular.put s.ring ((s.stream.length + done.length) % bypassBytes) l)
          s.stream.length (done ++ l).length = done ++ l := by
        -- the piece is behind the pieces that were put there before
        rw [List.length_append, Circular.window_add, Circular.window_put hfit,
          Circular.window_put_other hfit (Nat.le_refl _) (by omega), hdone]
      refine ⟨h.head, h.tail, h.le, h.room, h.order, ?_, h.aligned, h.cold, fun hmain => ?_, h.boot,
        fun hs => (nomatch hstarted.symm.trans hs), h.reads.mono rfl (List.prefix_refl _) rfl, ?_,
        h.spared⟩
      · show window bypassBytes
            (Circular.put s.ring ((s.stream.length + done.length) % bypassBytes) l) s.handed.length
          (s.stream.length - s.handed.length) = s.stream.drop s.handed.length
        rw [Circular.window_put_other hfit (by omega) (by omega), h.live]
      -- a start that is under way has no writer
      · exact absurd (h.cold (by rw [hmain]; nofun) (by rw [hmain]; nofun)).2
          (by rw [hstarted]; nofun)
      · refine @Writes.copying _ _ _ (done ++ l) _ hbytes hframes hroom ?_ hdone' ?_
        · rw [hout]
          simp
        · rwa [List.length_append, ← Nat.add_assoc]

/-- What was copied is published. -/
theorem Sound.writeStore (h : s.Sound) (hstarted : s.started = true) {w bytes : Nat} {out : Bytes}
    (hw : s.Writes (.copying w bytes out [])) :
    ({ s with head := (w + bytes) % 2 ^ 64, writer := .idle, stream := s.stream ++ out } :
      Ring).Sound := by
  cases hw with
  | @copying _ _ done _ hbytes hframes hroom hout hdone hrest =>
    obtain rfl : out = done := by simpa using hout
    subst hbytes
    have hle := h.le
    have haligned := h.aligned
    have hlen : (s.stream ++ out).length = s.stream.length + out.length := List.length_append
    refine ⟨?_, h.tail, ?_, ?_, ?_, ?_, ?_, fun h₁ h₂ => ?_, h.silent, fun hfmt => ?_, fun _ => rfl,
      ?_, .idle, h.spared⟩
    · show (s.head + out.length) % 2 ^ 64 = (s.stream ++ out).length % 2 ^ 64
      rw [hlen, h.head, Nat.mod_add_mod]
    · show s.handed.length ≤ (s.stream ++ out).length
      omega
    · show (s.stream ++ out).length ≤ s.handed.length + bypassBytes
      omega
    · exact h.order.trans (List.prefix_append _ _)
    · show window bypassBytes s.ring s.handed.length ((s.stream ++ out).length - s.handed.length) =
        (s.stream ++ out).drop s.handed.length
      rw [hlen, List.drop_append_of_le_length hle, ← h.live,
        show s.stream.length + out.length - s.handed.length = s.stream.length - s.handed.length +
            out.length by omega,
        Circular.window_add, Nat.add_sub_cancel' hle, hdone]
    · show (s.stream ++ out).length % 8 = 0
      omega
    · exact (nomatch hstarted.symm.trans (h.cold h₁ h₂).2)
    · exact (nomatch hstarted.symm.trans (h.boot hfmt).2.2)
    · exact h.reads.mono rfl (List.prefix_append _ _) rfl

/-- A writer that is at work has been started. -/
theorem Sound.started_of (h : s.Sound) (hw : s.writer ≠ .idle) : s.started = true :=
  Bool.eq_true_of_not_eq_false fun hs => hw (h.quiet hs)

/-! ## The cold start -/

/-- The silence is published. -/
theorem Sound.coldHead (h : s.Sound) (hmain : s.main = .coldHead) :
    ({ s with
      head := prefillBytes
      main := .starting
      stream := List.replicate prefillBytes 0
      handed := [] } :
      Ring).Sound := by
  obtain ⟨hnil, hstarted⟩ := h.cold (by rw [hmain]; nofun) (by rw [hmain]; nofun)
  -- a start begins with nothing in the ring
  obtain ⟨hhanded, -, htail⟩ := h.nothing hnil
  have hlen : (List.replicate prefillBytes (0 : UInt8)).length = prefillBytes :=
    List.length_replicate
  refine ⟨?_, htail, ?_, ?_, List.nil_prefix, ?_, ?_, fun _ hne => absurd rfl hne, nofun,
    fun hfmt => ?_, h.quiet, ?_, ?_, h.spared⟩
  · rw [hlen]
    rfl
  · exact Nat.zero_le _
  · rw [hlen]
    show prefillBytes ≤ 0 + bypassBytes
    decide
  · show window bypassBytes s.ring 0 ((List.replicate prefillBytes (0 : UInt8)).length - 0) =
      (List.replicate prefillBytes (0 : UInt8)).drop 0
    rw [hlen, Nat.sub_zero, List.drop_zero]
    -- the prefill is silence
    refine List.eq_replicate_iff.mpr ⟨Circular.length_window .., fun b hb => ?_⟩
    obtain ⟨i, hi, rfl⟩ := List.mem_map.mp hb
    have hi := List.mem_range.mp hi
    have hlt : 0 + i < bypassBytes := by
      have : prefillBytes ≤ bypassBytes := by decide
      omega
    rw [Nat.mod_eq_of_lt hlt, Nat.zero_add]
    exact h.silent hmain i hi
  · rw [hlen]
    decide
  · exact (nomatch hmain.symm.trans (h.boot hfmt).1)
  · exact h.reads.mono rfl (hnil ▸ List.nil_prefix) hhanded.symm
  · show Writes _ s.writer
    -- no writer is there yet
    rw [h.quiet hstarted]
    exact .idle

/-! ## Runs -/

/-- **The step.** -/
theorem Sound.step (h : s.Sound) {a : Event} (hguard : SameFormat s a)
    (hs : (bypass toF32).step s a = some t) : t.Sound := by
  cases a with
  | prepare fmt =>
    obtain ⟨hmain, ht⟩ := Option.ite_none_right_eq_some.mp hs
    obtain rfl := Option.some.inj ht
    -- another format only comes where there is none
    refine ⟨h.head, h.tail, h.le, h.room, h.order, h.live, h.aligned, fun _ hne => ?_,
      fun hcold => ?_, nofun, h.quiet, h.reads.mono rfl (List.prefix_refl _) rfl,
      h.writes.mono rfl rfl (Nat.le_refl _) rfl, h.spared⟩
    · rcases hguard with hnone | hsame
      · exact (h.boot hnone).2
      · exact absurd (if_pos hsame) hne
    · split at hcold <;> cases hcold
  | coldTail =>
    obtain ⟨hmain, ht⟩ := Option.ite_none_right_eq_some.mp hs
    obtain rfl := Option.some.inj ht
    have hcold := h.cold (by rw [hmain]; nofun) (by rw [hmain]; nofun)
    obtain ⟨hhanded, -, htail⟩ := h.nothing hcold.1
    have hzero : 0 = s.handed.length % 2 ^ 64 := by rw [hhanded]; rfl
    exact ⟨h.head, hzero, h.le, h.room, h.order, h.live, h.aligned, fun _ _ => hcold, nofun,
      fun hfmt => (nomatch hmain.symm.trans (h.boot hfmt).1), h.quiet,
      h.reads.mono htail.symm (List.prefix_refl _) rfl,
      h.writes.mono rfl rfl (Nat.le_refl _) rfl, h.spared⟩
  | coldFill =>
    obtain ⟨hmain, ht⟩ := Option.ite_none_right_eq_some.mp hs
    obtain rfl := Option.some.inj ht
    have hcold := h.cold (by rw [hmain]; nofun) (by rw [hmain]; nofun)
    obtain ⟨hhanded, hhead, htail⟩ := h.nothing hcold.1
    have hspares : s.Spares 0 prefillBytes := by
      intro i _ hlive
      -- nothing is live, so the fill spares it
      have havail : s.avail = 0 := by rw [h.avail_eq, hcold.1]; exact Nat.zero_sub _
      have hlt : _ < s.avail := hlive
      omega
    refine ⟨h.head, h.tail, h.le, h.room, h.order, ?_, h.aligned, fun _ _ => hcold,
      fun _ i hi => if_pos hi, fun hfmt => (nomatch hmain.symm.trans (h.boot hfmt).1), h.quiet,
      h.reads.mono rfl (List.prefix_refl _) rfl, ?_, ?_⟩
    · show window bypassBytes _ s.handed.length (s.stream.length - s.handed.length) =
          s.stream.drop s.handed.length
      rw [hcold.1, List.length_nil, Nat.zero_sub, Circular.window_zero, List.drop_nil]
    · show Writes _ s.writer
      rw [h.quiet hcold.2]
      exact .idle
    · show (s.clean && decide (s.Spares 0 prefillBytes)) = true
      rw [h.spared, decide_eq_true hspares]
      rfl
  | coldHead =>
    obtain ⟨hmain, ht⟩ := Option.ite_none_right_eq_some.mp hs
    obtain rfl := Option.some.inj ht
    exact h.coldHead hmain
  | startWriter =>
    obtain ⟨hmain, ht⟩ := Option.ite_none_right_eq_some.mp hs
    obtain rfl := Option.some.inj ht
    exact ⟨h.head, h.tail, h.le, h.room, h.order, h.live, h.aligned,
      fun hne _ => absurd rfl hne, nofun, fun hfmt => (nomatch hmain.symm.trans (h.boot hfmt).1),
      nofun, h.reads.mono rfl (List.prefix_refl _) rfl,
      h.writes.mono rfl rfl (Nat.le_refl _) rfl, h.spared⟩
  | read want =>
    -- the reader's four places
    cases hr : s.reader <;> simp only [bypass, hr] at hs <;> cases hs
    exact h.reader (.loadedTail want)
  | readHead =>
    have hreads := h.reads
    cases hr : s.reader <;> simp only [bypass, hr] at hs <;> cases hs
    rw [hr] at hreads
    cases hreads
    exact h.reader (h.readHead _)
  | readCopy =>
    have hreads := h.reads
    rcases hr : s.reader with _ | _ | ⟨t, bytes, got, _ | ⟨⟨pos, len⟩, rest⟩⟩ <;>
      simp only [bypass, hr] at hs <;> cases hs
    exact h.reader (h.readCopy (hr ▸ hreads))
  | readStore =>
    have hreads := h.reads
    rcases hr : s.reader with _ | _ | ⟨t, bytes, got, _ | ⟨⟨pos, len⟩, rest⟩⟩ <;>
      simp only [bypass, hr] at hs <;> cases hs
    exact h.readStore (hr ▸ hreads)
  | write src =>
    -- the writer's four places
    cases hw : s.writer <;> simp only [bypass, hw] at hs
    · obtain ⟨⟨hstarted, hframes⟩, ht⟩ := Option.ite_none_right_eq_some.mp hs
      obtain rfl := Option.some.inj ht
      exact h.writer (.loadedHead hframes) fun hidle => (nomatch hstarted.symm.trans hidle)
    all_goals cases hs
  | writeTail =>
    have hwrites := h.writes
    rcases hw : s.writer with _ | ⟨src, w⟩ | _ <;> rcases hf : s.srcFmt with _ | fmt <;>
      simp only [bypass, hw, hf] at hs <;> try cases hs
    have hstarted := h.started_of (by rw [hw]; nofun)
    split at hs
    · obtain rfl := Option.some.inj hs
      have hnext := h.writer .idle fun _ => rfl
      -- it does not fit: the writer is back where it was
      rwa [hf] at hnext
    · rename_i hfits
      obtain rfl := Option.some.inj hs
      have hnext := h.writer (h.writeTail (hw ▸ hwrites) hfits toF32 fmt)
        fun hidle => (nomatch hstarted.symm.trans hidle)
      rwa [hf] at hnext
  | writeCopy =>
    have hwrites := h.writes
    rcases hw : s.writer with _ | _ | ⟨w, bytes, out, _ | ⟨⟨pos, l⟩, rest⟩⟩ <;>
      simp only [bypass, hw] at hs <;> cases hs
    -- a piece behind the head spares what is live
    obtain ⟨hspares, hnext⟩ := h.writeCopy (h.started_of (by rw [hw]; nofun)) (hw ▸ hwrites)
    rwa [decide_eq_true hspares, Bool.and_true]
  | writeStore =>
    have hwrites := h.writes
    rcases hw : s.writer with _ | _ | ⟨w, bytes, out, _ | ⟨⟨pos, l⟩, rest⟩⟩ <;>
      simp only [bypass, hw] at hs <;> cases hs
    exact h.writeStore (h.started_of (by rw [hw]; nofun)) (hw ▸ hwrites)

theorem sound_of_reach (hr : (bypass toF32).Reach SameFormat .init s) : s.Sound :=
  hr.inv sound_init fun _ _ _ h hg hs => h.step hg hs

/-- A second cold start clears bytes that the callback has not got. -/
theorem cold_start_touches {fmt : Format} (hfmt : s.srcFmt ≠ some fmt) (hhead : diff s.head 0 ≠ 0)
    (hs : (bypass toF32).step s (.prepare fmt) = some t) :
    ∃ u, (bypass toF32).Reach Free t u ∧ u.clean = false := by
  obtain ⟨hmain, ht⟩ := Option.ite_none_right_eq_some.mp hs
  obtain rfl := Option.some.inj ht
  have hcold : (if s.srcFmt = some fmt then Main.starting else .coldTail) = .coldTail := if_neg hfmt
  let w : Ring := { s with srcFmt := some fmt, tail := 0, main := .coldFill }
  let u : Ring := { w with
    ring := fun i => if i < prefillBytes then 0 else w.ring i
    main := .coldHead
    clean := w.clean && decide (w.Spares 0 prefillBytes) }
  have htail : (bypass toF32).step
      { s with srcFmt := some fmt, main := if s.srcFmt = some fmt then .starting else .coldTail }
      .coldTail = some w := if_pos hcold
  have hfill : (bypass toF32).step w .coldFill = some u := by
    show (if w.main = .coldFill then some u else none) = some u
    exact if_pos rfl
  have htouched : ¬ w.Spares 0 prefillBytes := by
    intro hspares
    refine hspares 0 (by decide) ?_
    show (0 + 0 + bypassBytes - 0 % bypassBytes) % bypassBytes < diff s.head 0
    have hzero : (0 + 0 + bypassBytes - 0 % bypassBytes) % bypassBytes = 0 := by decide
    rw [hzero]
    exact Nat.pos_of_ne_zero hhead
  refine ⟨u, .step (.step .refl trivial htail) trivial hfill, ?_⟩
  show (w.clean && decide (w.Spares 0 prefillBytes)) = false
  rw [decide_eq_false htouched, Bool.and_false]

/-- **The ring is a lossless queue** as long as no PREPARE changes the format; and a PREPARE that
    does, when the head is not at 0, can go on to clear what the callback has not got. -/
theorem lossless (hr : (bypass toF32).Reach SameFormat .init s) :
    s.Lossless ∧ ∀ a t, (bypass toF32).step s a = some t → s.head ≠ 0 → ¬ SameFormat s a →
      ∃ u, (bypass toF32).Reach Free t u ∧ ¬ u.Lossless := by
  have h := sound_of_reach hr
  refine ⟨h.no_loss, fun a t hs hhead hother => ?_⟩
  cases a with
  | prepare fmt =>
    have hdiff : diff s.head 0 = s.head := by
      have hhead' := h.head
      unfold diff
      omega
    obtain ⟨u, hu, hclean⟩ := cold_start_touches (fun heq => hother (.inr heq)) (by rwa [hdiff]) hs
    exact ⟨u, hu, fun hlossless => (nomatch hclean.symm.trans hlossless.spared)⟩
  | _ => exact absurd trivial hother

/-- Two frames are written while the callback takes silence. -/
theorem frames_follow_the_silence : ∃ s :
    Ring, s.handed.length = 16 ∧ s.stream.length = 16400 ∧ s.Lossless := by
  obtain ⟨s, hr, hs⟩ := Reach.of_run_any (M := bypass id) (G := SameFormat) (s := .init)
    (p := fun s => s.handed.length = 16 ∧ s.stream.length = 16400)
    [.read 100, .prepare .s32, .coldTail, .coldFill, .readHead, .coldHead, .readCopy, .readStore,
      .startWriter, .read 16, .write [1, 2, 3, 4, 5, 6, 7, 8, 9, 10, 11, 12, 13, 14, 15, 16],
      .writeTail, .readHead, .writeCopy, .writeCopy,
      .readCopy, .writeCopy, .readStore, .writeCopy, .writeStore] (by decide +kernel)
  obtain ⟨hhanded, hstream⟩ := of_decide_eq_true hs
  exact ⟨s, hhanded, hstream, (lossless hr).1⟩

/-- The callback has loaded the counters when a PREPARE changes the format, and stores a
    tail beyond the new head. -/
theorem cold_start_under_the_callback : ¬ ∀ toF32 s, (bypass toF32).Reach Free .init s →
    s.Lossless := by
  intro hall
  obtain ⟨s, hr, hs⟩ := Reach.of_run_any (M := bypass id) (G := Free) (s := .init)
    (p := fun s => s.head = 16384 ∧ s.tail = 16400)
    [.prepare .s32, .coldTail, .coldFill, .coldHead, .startWriter, .read 16384, .readHead,
      .readCopy, .readStore, .write [1, 2, 3, 4, 5, 6, 7, 8, 9, 10, 11, 12, 13, 14, 15, 16],
      .writeTail, .writeCopy, .writeCopy, .writeCopy, .writeCopy,
      .writeStore, .read 16, .readHead, .prepare .f32, .coldTail, .coldFill, .coldHead, .readCopy,
      .readStore]
    (by decide)
  obtain ⟨hhead, htail⟩ := of_decide_eq_true hs
  have hbound := (hall _ s hr).bound
  unfold avail at hbound
  rw [hhead, htail] at hbound
  exact absurd hbound (by decide)

end Ring

end CdjEmu.Bypass
