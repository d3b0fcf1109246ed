/-
  PC LINK FRAMES — two writers and three readers of one stream of length-prefixed frames.

  The host writes frames with `write_frame` and the guest with `send_frame`; the host's handshake
  reads with a `PartialFrame`, which keeps what it has of a frame when a read times out, its reader
  thread with `read_frame`, and the guest with `recv_and_dispatch`.  Nothing in the stream marks
  where a frame begins, so every reader has to take whole frames and no byte more.

  The handshake hands the stream over where a frame has been returned, and takes the read timeout
  away; each reader is a function of the `Source` it reads.  What counts in every proof is the
  stream in front of a reader with what it has of a frame already: `PartialFrame.read` keeps `buf ++
  content src` until it takes one frame off its front (`ReadSpec`).

  The guest's reads and writes look at `g_stop`, which its signal handlers set.  The handlers are
  installed without `SA_RESTART`, so a signal also interrupts the call that waits; `read_exact` then
  finds the flag set and gives up inside the frame.  When that happens is the `Stop` of a call, and
  it is part of what the call returns.  A call that is not asked to stop takes one frame; one that
  is takes a part of it at most (`recvAndDispatch_frame`).

  1. **Program** — the two writers piece by piece, with writes that take a part; the three readers
     with their own buffers, time-outs, interruptions and limits; and what each does with a frame,
     or with one that is too long.

  2. **Specification** — for every list of frames that fit, however the stream is cut into reads:
     the host's two readers return them in order, and the guest gets them one call after the other,
     too long ones drained whole.  A writer that succeeds has put the whole frame on the stream.

  3. **The crux (`ReadSpec`)** — one call of a reader takes octets off the front of the stream and
     either keeps them or returns one frame that they begin with.  The readers' own loops are
     inductions over what is left of the source.

  4. **Where it stops** — a call of the guest that is asked to stop returns -1 and may leave the end
     of the frame in the stream, and only such a call does (`Stop.Asked`); the counterexample is a
     run with one signal.
-/
import CdjEmu.Lib.ByteSource
import CdjEmu.Lib.Text

namespace CdjEmu.PcLink

open Source Sink

/-- A frame's type and payload. -/
abbrev Frame := UInt8 × Bytes

/-- The kinds of frames. -/
def FRAME_HID : UInt8 := 0x01
def FRAME_MIDI : UInt8 := 0x02
def FRAME_HELLO : UInt8 := 0x03
def FRAME_IDENTITY : UInt8 := 0x04

/-- The longest payload that is taken as a whole. -/
def MAX_PAYLOAD : Nat := 4096

/-! ## The wire format -/

/-- `u16::from_be_bytes`. -/
def lenOf (high low : UInt8) : Nat := 256 * high.toNat + low.toNat

/-- The kind and the length, high octet first. -/
def header (kind : UInt8) (len : UInt16) : Bytes :=
  [kind, (len >>> 8).toUInt8, (len &&& 0xff).toUInt8]

/-- A frame as it goes on the wire. -/
def encode (f : Frame) : Bytes := header f.1 (UInt16.ofNat f.2.length) ++ f.2

/-- A length has two octets. -/
theorem lenOf_lt (high low : UInt8) : lenOf high low < 65536 := by
  have hhigh := high.toNat_lt
  have hlow := low.toNat_lt
  unfold lenOf
  omega

theorem high_toNat (len : UInt16) : ((len >>> 8).toUInt8).toNat = len.toNat / 256 := by
  have hlt := len.toNat_lt
  rw [UInt16.toNat_toUInt8, UInt16.toNat_shiftRight]
  have hshift : len.toNat >>> ((8 : UInt16).toNat % 16) = len.toNat / 256 :=
    Nat.shiftRight_eq_div_pow _ 8
  rw [hshift]
  omega

theorem low_toNat (len : UInt16) : ((len &&& 0xff).toUInt8).toNat = len.toNat % 256 := by
  rw [UInt16.toNat_toUInt8, UInt16.toNat_and]
  have hand : len.toNat &&& (0xff : UInt16).toNat = len.toNat % 256 :=
    Nat.and_two_pow_sub_one_eq_mod _ 8
  rw [hand]
  omega

/-- And is read as it was written. -/
theorem lenOf_header (len : UInt16) :
    lenOf (len >>> 8).toUInt8 (len &&& 0xff).toUInt8 = len.toNat := by
  rw [lenOf, high_toNat, low_toNat]
  omega

/-- A header is that of the length it says. -/
theorem header_lenOf (kind high low : UInt8) :
    header kind (UInt16.ofNat (lenOf high low)) = [kind, high, low] := by
  have hlt := lenOf_lt high low
  have hhigh := high.toNat_lt
  have hlow := low.toNat_lt
  have hlen : (UInt16.ofNat (lenOf high low)).toNat = lenOf high low :=
    UInt16.toNat_ofNat_of_lt' hlt
  have h1 : (UInt16.ofNat (lenOf high low) >>> 8).toUInt8 = high := by
    apply UInt8.toNat_inj.mp
    rw [high_toNat, hlen, lenOf]
    omega
  have h2 : (UInt16.ofNat (lenOf high low) &&& 0xff).toUInt8 = low := by
    apply UInt8.toNat_inj.mp
    rw [low_toNat, hlen, lenOf]
    omega
  rw [header, h1, h2]

/-- A frame has three octets more than its payload. -/
theorem length_encode (f : Frame) : (encode f).length = 3 + f.2.length := by
  rw [encode, List.length_append]
  rfl

/-! ## The writers -/

/-- Write one piece after the other, up to the first that fails; `write` writes one. -/
def writePieces {σ : Type} (write : σ → Bytes → Bool × Bytes × σ) :
    σ → List Bytes → Bool × Bytes × σ
  | w, [] => (true, [], w)
  | w, piece :: pieces =>
    let r := write w piece
    if r.1 then
      let q := writePieces write r.2.2 pieces
      (q.1, r.2.1 ++ q.2.1, q.2.2)
    else r

/-- `write_frame` on the host. -/
def writeFrame (ts : List Took) (kind : UInt8) (payload : Bytes) : Bool × Bytes × List Took :=
  if 65535 < payload.length then (false, [], ts)
  else writePieces Sink.writeAll ts
    (header kind (UInt16.ofNat payload.length) :: if payload = [] then [] else [payload])

/-- `write_all` in the guest: a write that has to be made again is, unless the
    bridge is asked to stop. -/
def guestWriteAll (w : Stop × List Took) (bs : Bytes) : Bool × Bytes × Stop × List Took :=
  Sink.writeAllUntil w.1 w.2 bs

/-- A write that succeeds has written everything. -/
theorem guestWriteAll_ok {w : Stop × List Took} {bs : Bytes} (h : (guestWriteAll w bs).1 = true) :
    (guestWriteAll w bs).2.1 = bs := writeAllUntil_ok h

/-- `send_frame` in the guest. -/
def sendFrame (w : Stop × List Took) (kind : UInt8) (payload : Bytes) :
    Bool × Bytes × Stop × List Took :=
  let len := if payload.length > MAX_PAYLOAD then MAX_PAYLOAD else payload.length
  writePieces guestWriteAll w
    ([kind, UInt8.ofNat (len >>> 8 &&& 0xff), UInt8.ofNat (len &&& 0xff)] ::
    if len > 0 then [payload.take len] else [])

/-- So have several, one after the other. -/
theorem writePieces_ok {σ : Type} {write : σ → Bytes → Bool × Bytes × σ}
    (hwrite : ∀ w bs, (write w bs).1 = true → (write w bs).2.1 = bs) {w : σ} {pieces : List Bytes}
    (h : (writePieces write w pieces).1 = true) :
    (writePieces write w pieces).2.1 = pieces.flatten := by
  induction pieces generalizing w with
  | nil => rfl
  | cons piece pieces ih =>
    rw [writePieces] at h ⊢
    dsimp only at h ⊢
    split at h
    · rename_i hpiece
      rw [if_pos hpiece]
      dsimp only at h ⊢
      rw [hwrite w piece hpiece, ih h, List.flatten_cons]
    · rename_i hpiece
      exact absurd h hpiece

/-- A frame that was written is on the wire as a whole. -/
theorem writeFrame_ok {ts : List Took} {kind : UInt8} {payload : Bytes}
    (h : (writeFrame ts kind payload).1 = true) :
    (writeFrame ts kind payload).2.1 = encode (kind, payload) := by
  unfold writeFrame at h ⊢
  split at h
  · exact absurd h Bool.false_ne_true
  · rename_i hlen
    rw [if_neg hlen]
    rw [writePieces_ok (fun _ _ => writeAll_ok) h, List.flatten_cons, encode]
    split
    · rename_i hnil
      rw [hnil]
      rfl
    · rw [List.flatten_cons, List.flatten_nil, List.append_nil]

/-- The guest writes the length as the host does. -/
theorem guest_header (kind : UInt8) {len : Nat} (hlen : len < 65536) :
    [kind, UInt8.ofNat (len >>> 8 &&& 0xff), UInt8.ofNat (len &&& 0xff)] = header kind
      (UInt16.ofNat len) := by
  have hto : (UInt16.ofNat len).toNat = len := UInt16.toNat_ofNat_of_lt' hlen
  have hshift : len >>> 8 &&& 0xff = len / 256 % 256 := by
    rw [Nat.shiftRight_eq_div_pow]
    exact Nat.and_two_pow_sub_one_eq_mod _ 8
  have hand : len &&& 0xff = len % 256 := Nat.and_two_pow_sub_one_eq_mod _ 8
  have h1 : UInt8.ofNat (len >>> 8 &&& 0xff) = (UInt16.ofNat len >>> 8).toUInt8 := by
    apply UInt8.toNat_inj.mp
    rw [high_toNat, hto, hshift, UInt8.toNat_ofNat']
    omega
  have h2 : UInt8.ofNat (len &&& 0xff) = (UInt16.ofNat len &&& 0xff).toUInt8 := by
    apply UInt8.toNat_inj.mp
    rw [low_toNat, hto, hand, UInt8.toNat_ofNat']
    omega
  rw [header, h1, h2]

/-- A frame that the guest has sent is whole, also when it was asked to stop meanwhile. -/
theorem sendFrame_ok {w : Stop × List Took} {kind : UInt8} {payload : Bytes}
    (hlen : payload.length ≤ MAX_PAYLOAD) (h : (sendFrame w kind payload).1 = true) :
    (sendFrame w kind payload).2.1 = encode (kind, payload) := by
  unfold sendFrame at h ⊢
  rw [if_neg (Nat.not_lt.mpr hlen)] at h ⊢
  dsimp only at h ⊢
  rw [writePieces_ok (fun _ _ => guestWriteAll_ok) h, List.flatten_cons, encode, List.take_length]
  rw [guest_header kind (by unfold MAX_PAYLOAD at hlen; omega)]
  split
  · rw [List.flatten_cons, List.flatten_nil, List.append_nil]
  · rename_i hpos
    rw [List.eq_nil_of_length_eq_zero (by omega : payload.length = 0)]
    rfl

/-! ## The handshake's reader -/

/-- What a reader returns: a frame, the end of the stream at a frame's end or
    inside a frame, or an error. -/
inductive Reply where
  | frame (f : Frame)
  | eof
  | early
  | timedOut
  | failed
  deriving DecidableEq

/-- The octets of a frame that has not yet come in as a whole. -/
structure PartialFrame where
  buf : Bytes
  deriving DecidableEq

namespace PartialFrame

variable (p : PartialFrame)

/-- How much of the frame there is to have, as far as it is known. -/
def want : Nat := if p.buf.length < 3 then 3 else 3 + lenOf (p.buf.getD 1 0) (p.buf.getD 2 0)

/-- `read`: at most what the frame still wants is taken from the source. -/
def read (p : PartialFrame) (src : Source UInt8) : Reply × PartialFrame × Source UInt8 :=
  if p.buf.length = p.want then (.frame (p.buf.getD 0 0, p.buf.drop 3), ⟨[]⟩, src)
  else match _hr : Source.read (p.want - p.buf.length) src with
    | (.interrupted, rest) => read p rest
    | (.timedOut, rest) => (.timedOut, p, rest)
    | (.failed, rest) => (.failed, p, rest)
    | (.data [], rest) => (if p.buf = [] then .eof else .early, p, rest)
    | (.data (b :: bs), rest) => read ⟨p.buf ++ b :: bs⟩ rest
termination_by src.length
decreasing_by
  · have hread := read_spec (p.want - p.buf.length) src
    rw [_hr] at hread
    exact (hread.error fun bs h => by cases h).2
  · have hread := read_spec (p.want - p.buf.length) src
    rw [_hr] at hread
    exact Nat.lt_of_lt_of_le (Nat.lt_add_of_pos_right (Nat.succ_pos _)) (hread.data _ rfl).2.2.1

/-- As long as the frame is not whole, the next octets are asked for. -/
theorem read_step {p : PartialFrame} (hp : p.buf.length ≠ p.want) (src : Source UInt8) :
    p.read src = match Source.read (p.want - p.buf.length) src with
      | (.interrupted, rest) => p.read rest
      | (.timedOut, rest) => (.timedOut, p, rest)
      | (.failed, rest) => (.failed, p, rest)
      | (.data [], rest) => (if p.buf = [] then .eof else .early, p, rest)
      | (.data (b :: bs), rest) => read ⟨p.buf ++ b :: bs⟩ rest := by
  rw [read, if_neg hp]
  split <;> rename_i h <;> rw [h]

/-- It has a part of a frame only. -/
def Part : Prop := p.buf.length < p.want

/-- What `read` takes: one frame off the front of what it has and what comes; an
    error keeps all of both. -/
def ReadSpec (p : PartialFrame) (src : Source UInt8) : Reply → PartialFrame → Source UInt8 → Prop
  | .frame f, q, rest => q.buf = [] ∧ p.buf ++ content src = encode f ++ content rest ∧
      f.2.length < 65536
  | .eof, q, rest => q.buf = [] ∧ p.buf = [] ∧ content src = [] ∧ content rest = []
  | .early, q, rest => q.Part ∧ q.buf ≠ [] ∧ p.buf ++ content src = q.buf ++ content rest ∧
      content rest = []
  | .timedOut, q, rest => q.Part ∧ p.buf ++ content src = q.buf ++ content rest ∧
      rest.length < src.length
  | .failed, q, rest => q.Part ∧ p.buf ++ content src = q.buf ++ content rest ∧ .sign .failed ∈ src

variable {p}

/-- A full buffer is a frame. -/
theorem encode_of_full (hp : p.buf.length = p.want) :
    p.buf = encode (p.buf.getD 0 0, p.buf.drop 3) ∧ (p.buf.drop 3).length < 65536 := by
  unfold want at hp
  split at hp
  · omega
  · rename_i hlong
    match hbuf : p.buf with
    | kind :: high :: low :: payload =>
      rw [hbuf] at hp
      have hlen : payload.length = lenOf high low := by
        rw [List.length_cons, List.length_cons, List.length_cons] at hp
        simp only [List.getD_cons_succ, List.getD_cons_zero] at hp
        omega
      constructor
      · show kind :: high :: low :: payload = header kind (UInt16.ofNat payload.length) ++ payload
        rw [hlen, header_lenOf]
        rfl
      · show payload.length < 65536
        rw [hlen]
        exact lenOf_lt _ _
    | [] | [_] | [_, _] =>
      rw [hbuf] at hlong
      exact absurd (by simp) hlong

/-- A part that gets no more than it wants is full or a part. -/
theorem part_or_full (hp : p.Part) {bs : Bytes} (hbs : bs.length ≤ p.want - p.buf.length) :
    (⟨p.buf ++ bs⟩ : PartialFrame).Part ∨
      (⟨p.buf ++ bs⟩ : PartialFrame).buf.length = (⟨p.buf ++ bs⟩ : PartialFrame).want := by
  unfold Part want at hp ⊢
  unfold want at hbs
  simp only [List.length_append] at hp hbs ⊢
  by_cases h3 : p.buf.length < 3
  · rw [if_pos h3] at hp hbs
    by_cases h3' : p.buf.length + bs.length < 3
    · rw [if_pos h3']
      omega
    · rw [if_neg h3']
      omega
  · rw [if_neg h3] at hp hbs
    rw [if_neg (by omega)]
    have hget : ∀ i < 3, (p.buf ++ bs).getD i 0 = p.buf.getD i 0 := by
      intro i hi
      rw [List.getD_append]
      omega
    rw [hget 1 (by omega), hget 2 (by omega)]
    omega

/-- What one call does, for a partial frame and a whole one. -/
theorem read_takes (src : Source UInt8) (hp : p.Part ∨ p.buf.length = p.want) :
    (p.read src).2.2 <:+ src ∧ ReadSpec p src (p.read src).1 (p.read src).2.1 (p.read src).2.2 := by
  -- by the length of the source: each read leaves less of it
  induction hlen : src.length using Nat.strong_induction_on generalizing p src with
  | _ len ih =>
    -- nothing is wanted any more, or something is
    by_cases hfull : p.buf.length = p.want
    · obtain ⟨hframe, hshort⟩ := encode_of_full hfull
      rw [read, if_pos hfull]
      exact ⟨List.suffix_rfl, rfl, congrArg (· ++ content src) hframe, hshort⟩
    · have hpart : p.Part := hp.resolve_right hfull
      have hpos : 0 < p.want - p.buf.length := Nat.sub_pos_of_lt hpart
      have hread := Source.read_spec (p.want - p.buf.length) src
      rw [read_step hfull]
      obtain ⟨got, rest, hgot⟩ :
          ∃ got rest, Source.read (p.want - p.buf.length) src = (got, rest) := ⟨_, _, rfl⟩
      rw [hgot] at hread ⊢
      dsimp only at hread
      have herror : (∀ bs, got ≠ .data bs) → content src = content rest ∧
          rest.length < src.length := hread.error
      cases got with
      | interrupted =>
        -- an interruption is tried again with what is left
        obtain ⟨hsame, hlt⟩ := herror fun bs h => by cases h
        obtain ⟨hsuffix, hspec⟩ := ih rest.length (by omega) rest (.inl hpart) rfl
        refine ⟨hsuffix.trans hread.suffix, ?_⟩
        dsimp only at hspec ⊢
        revert hspec
        cases (p.read rest).1 with
        | frame f => exact fun hspec => ⟨hspec.1, hsame ▸ hspec.2.1, hspec.2.2⟩
        | eof => exact fun hspec => ⟨hspec.1, hspec.2.1, hsame ▸ hspec.2.2.1, hspec.2.2.2⟩
        | early => exact fun hspec => ⟨hspec.1, hspec.2.1, hsame ▸ hspec.2.2.1, hspec.2.2.2⟩
        | timedOut => exact fun hspec => ⟨hspec.1, hsame ▸ hspec.2.1, hspec.2.2.trans hlt⟩
        | failed => exact fun hspec => ⟨hspec.1, hsame ▸ hspec.2.1, hread.suffix.mem hspec.2.2⟩
      | timedOut =>
        obtain ⟨hsame, hlt⟩ := herror fun bs h => by cases h
        exact ⟨hread.suffix, hpart, congrArg (p.buf ++ ·) hsame, hlt⟩
      | failed =>
        obtain ⟨hsame, -⟩ := herror fun bs h => by cases h
        exact ⟨hread.suffix, hpart, congrArg (p.buf ++ ·) hsame, hread.failed rfl⟩
      | data bs =>
        obtain ⟨hbytes, hle, hcount, hend⟩ := hread.data bs rfl
        -- an end inside a frame is not the end of the stream
        cases bs with
        | nil =>
          have hsrc : content src = [] := hend rfl hpos
          have hrest : content rest = [] := hbytes.symm.trans hsrc
          refine ⟨hread.suffix, ?_⟩
          dsimp only
          split
          · rename_i hnil
            exact ⟨hnil, hnil, hsrc, hrest⟩
          · rename_i hnil
            exact ⟨hpart, hnil, by rw [hsrc, hrest], hrest⟩
        | cons b bs =>
          rw [List.length_cons] at hcount
          -- some octets more: the rest of the call is a call on what is there
          obtain ⟨hsuffix, hspec⟩ := ih rest.length (by omega) rest (part_or_full hpart hle) rfl
          have hall : p.buf ++ content src = (p.buf ++ b :: bs) ++ content rest := by
            rw [hbytes, List.append_assoc]
          refine ⟨hsuffix.trans hread.suffix, ?_⟩
          dsimp only at hspec ⊢
          revert hspec
          cases (read ⟨p.buf ++ b :: bs⟩ rest).1 with
          | frame f => exact fun hspec => ⟨hspec.1, hall.trans hspec.2.1, hspec.2.2⟩
          | eof => exact fun hspec =>
              absurd hspec.2.1 (List.append_ne_nil_of_right_ne_nil _ (List.cons_ne_nil _ _))
          | early => exact fun hspec => ⟨hspec.1, hspec.2.1, hall.trans hspec.2.2.1, hspec.2.2.2⟩
          | timedOut => exact fun hspec =>
              ⟨hspec.1, hall.trans hspec.2.1, by have := hspec.2.2; omega⟩
          | failed => exact fun hspec => ⟨hspec.1, hall.trans hspec.2.1, hread.suffix.mem hspec.2.2⟩

/-- A part of a frame is no whole one. -/
theorem Part.not_frame {f : Frame} {tail : Bytes} (hp : p.Part) (hf : f.2.length < 65536) :
    p.buf ≠ encode f ++ tail := by
  intro hbuf
  have hlen : (UInt16.ofNat f.2.length).toNat = f.2.length := UInt16.toNat_ofNat_of_lt' hf
  unfold Part want at hp
  rw [hbuf, List.length_append, length_encode, if_neg (by omega)] at hp
  have hwant : lenOf ((encode f ++ tail).getD 1 0) ((encode f ++ tail).getD 2 0) = f.2.length :=
    (lenOf_header _).trans hlen
  omega

/-- The first frame of a stream is one frame. -/
theorem encode_inj {f g : Frame} {x y : Bytes} (hf : f.2.length < 65536) (hg : g.2.length < 65536)
    (h : encode f ++ x = encode g ++ y) : f = g ∧ x = y := by
  have hlen : ∀ {e : Frame} {z : Bytes}, e.2.length < 65536 →
      lenOf ((encode e ++ z).getD 1 0) ((encode e ++ z).getD 2 0) = e.2.length := by
    intro e z he
    exact (lenOf_header _).trans (UInt16.toNat_ofNat_of_lt' he)
  have hsame : f.2.length = g.2.length := by rw [← hlen hf (z := x), ← hlen hg (z := y), h]
  have hkind : f.1 = g.1 := congrArg (·.getD 0 0) h
  obtain ⟨henc, hrest⟩ := List.append_inj h (by rw [length_encode, length_encode, hsame])
  obtain ⟨-, hpayload⟩ := List.append_inj henc rfl
  exact ⟨Prod.ext hkind hpayload, hrest⟩

/-- A read that times out has taken at least that. -/
theorem read_shorter (p : PartialFrame) (src : Source UInt8) (h : (p.read src).1 = .timedOut) :
    (p.read src).2.2.length < src.length := by
  induction hlen : src.length using Nat.strong_induction_on generalizing p src with
  | _ len ih =>
    by_cases hfull : p.buf.length = p.want
    · rw [read, if_pos hfull] at h
      cases h
    · have hread := Source.read_spec (p.want - p.buf.length) src
      rw [read_step hfull] at h ⊢
      obtain ⟨got, rest, hgot⟩ :
          ∃ got rest, Source.read (p.want - p.buf.length) src = (got, rest) := ⟨_, _, rfl⟩
      rw [hgot] at hread h ⊢
      dsimp only at hread
      cases got with
      | interrupted =>
        have hlt := (hread.error fun bs h => by cases h).2
        exact (ih rest.length (by omega) p rest h rfl).trans (by omega)
      | timedOut =>
        have hlt := (hread.error fun bs h => by cases h).2
        exact hlen ▸ hlt
      | failed => cases h
      | data bs =>
        have hcount := (hread.data bs rfl).2.2.1
        cases bs with
        | nil =>
          dsimp only at h
          split at h
          · cases h
          · cases h
        | cons b bs =>
          rw [List.length_cons] at hcount
          exact (ih rest.length (by omega) _ rest h rfl).trans (by omega)

/-- The handshake reads again after a time-out. -/
def next (p : PartialFrame) (src : Source UInt8) : Option Frame × Source UInt8 :=
  match _hr : p.read src with
  | (.frame f, _, rest) => (some f, rest)
  | (.timedOut, q, rest) => next q rest
  | (.eof, _, rest) => (none, rest)
  | (.early, _, rest) => (none, rest)
  | (.failed, _, rest) => (none, rest)
termination_by src.length
decreasing_by
  have hlt := read_shorter p src (by rw [_hr])
  rw [_hr] at hlt
  exact hlt

/-- The next frame, across time-outs. -/
theorem next_step (p : PartialFrame) (src : Source UInt8) :
    p.next src = match p.read src with
      | (.frame f, _, rest) => (some f, rest)
      | (.timedOut, q, rest) => next q rest
      | (.eof, _, rest) => (none, rest)
      | (.early, _, rest) => (none, rest)
      | (.failed, _, rest) => (none, rest) := by
  rw [next]
  split <;> rename_i h <;> rw [h]

/-- **The handshake's reader takes the next frame and no byte more**, through every time-out. -/
theorem next_frame {f : Frame} {src : Source UInt8} {tail : Bytes} (hp : p.Part)
    (hf : f.2.length < 65536) (hfailed : .sign .failed ∉ src)
    (hsrc : p.buf ++ content src = encode f ++ tail) :
    ∃ rest, p.next src = (some f, rest) ∧ content rest = tail ∧ rest <:+ src := by
  induction hlen : src.length using Nat.strong_induction_on generalizing p src with
  | _ len ih =>
    obtain ⟨hsuffix, hspec⟩ := read_takes src (.inl hp)
    rw [next_step]
    obtain ⟨reply, q, rest, hr⟩ : ∃ reply q rest, p.read src = (reply, q, rest) := ⟨_, _, _, rfl⟩
    rw [hr] at hsuffix hspec ⊢
    dsimp only at hsuffix hspec ⊢
    cases reply with
    | frame g =>
      obtain ⟨-, htaken, hg⟩ := hspec
      obtain ⟨rfl, htail⟩ := encode_inj hf hg (hsrc.symm.trans htaken)
      exact ⟨rest, rfl, htail.symm, hsuffix⟩
    | eof =>
      obtain ⟨-, hnil, hend, -⟩ := hspec
      rw [hnil, hend] at hsrc
      have hlen := congrArg List.length hsrc
      rw [List.length_append, List.length_append, length_encode, List.length_nil] at hlen
      omega
    | early =>
      obtain ⟨hq, -, hkept, hend⟩ := hspec
      rw [hend, List.append_nil] at hkept
      exact absurd (hkept.symm.trans hsrc) (hq.not_frame hf)
    | timedOut =>
      -- what it had and what comes is still the frame and what follows
      obtain ⟨hq, hkept, hlt⟩ := hspec
      obtain ⟨last, hnext, hlast, hlastSuffix⟩ :=
        ih rest.length (by omega) hq (fun hm => hfailed (hsuffix.mem hm))
        (hkept.symm.trans hsrc) rfl
      exact ⟨last, hnext, hlast, hlastSuffix.trans hsuffix⟩
    | failed => exact absurd hspec.2.2 hfailed

end PartialFrame

/-! ## The reader thread -/

/-- `read_frame`. -/
def readFrame (src : Source UInt8) : Reply × Source UInt8 :=
  match readExact 3 src with
  | (.done hdr, rest) =>
    let kind := hdr.getD 0 0
    let len := lenOf (hdr.getD 1 0) (hdr.getD 2 0)
    if len > 0 then match readExact len rest with
      | (.done payload, rest) => (.frame (kind, payload), rest)
      | (.eof, rest) => (.early, rest)
      | (.failed, rest) => (.failed, rest)
    else (.frame (kind, []), rest)
  | (.eof, rest) => (.eof, rest)
  | (.failed, rest) => (.failed, rest)

/-- A frame takes its header at least. -/
theorem readFrame_shorter {src rest : Source UInt8} {f : Frame}
    (h : readFrame src = (.frame f, rest)) :
    rest.length < src.length := by
  unfold readFrame at h
  split at h
  · rename_i hdr mid hhdr
    obtain ⟨-, -, -, hcount⟩ := readExact_done hhdr
    dsimp only at h
    split at h
    · split at h
      · rename_i payload last hpayload
        obtain ⟨-, -, -, hle⟩ := readExact_done hpayload
        cases h
        omega
      · cases h
      · cases h
    · cases h
      omega
  · cases h
  · cases h

/-- `reader_loop`: the frames, and whether the stream has ended well. -/
def readFrames (src : Source UInt8) : List Frame × Bool :=
  match _hr : readFrame src with
  | (.frame f, rest) =>
    let r := readFrames rest
    (f :: r.1, r.2)
  | (.eof, _) => ([], true)
  | (.early, _) => ([], false)
  | (.timedOut, _) => ([], false)
  | (.failed, _) => ([], false)
termination_by src.length
decreasing_by exact readFrame_shorter _hr

/-- The first three elements of a frame. -/
theorem content_frame {f : Frame} {src : Source UInt8} {tail : Bytes}
    (hsrc : content src = encode f ++ tail) :
    content src = header f.1 (UInt16.ofNat f.2.length) ++ (f.2 ++ tail) := by
  rw [hsrc, encode, List.append_assoc]

/-- A frame on a wire that does not fail is read. -/
theorem readFrame_frame {f : Frame} {src : Source UInt8} {tail : Bytes} (hf : f.2.length < 65536)
    (hcalm : src.Calm) (hsrc : content src = encode f ++ tail) :
    ∃ rest, readFrame src = (.frame f, rest) ∧ content rest = tail ∧ rest <:+ src := by
  obtain ⟨mid, hhdr, hmid, hmidSuffix⟩ := readExact_calm hcalm (content_frame hsrc) (n := 3) rfl
  have hlen : lenOf ((header f.1 (UInt16.ofNat f.2.length)).getD 1 0)
      ((header f.1 (UInt16.ofNat f.2.length)).getD 2 0) =
      f.2.length := (lenOf_header _).trans (UInt16.toNat_ofNat_of_lt' hf)
  rw [readFrame, hhdr]
  dsimp only
  rw [hlen]
  split
  · obtain ⟨last, hpayload, hlast, hlastSuffix⟩ := readExact_calm (hcalm.suffix hmidSuffix) hmid rfl
    rw [hpayload]
    exact ⟨last, rfl, hlast, hlastSuffix.trans hmidSuffix⟩
  · rename_i hpos
    have hnil : f.2 = [] := List.eq_nil_of_length_eq_zero (by omega)
    rw [hnil, List.nil_append] at hmid
    exact ⟨mid, by rw [← hnil]; rfl, hmid, hmidSuffix⟩

/-- **The reader thread returns the frames of its stream**, in order, and then its end. -/
theorem readFrames_frames {frames : List Frame} (hframes : ∀ f ∈ frames, f.2.length < 65536)
    {src : Source UInt8} (hcalm : src.Calm) (hsrc : content src = frames.flatMap encode) :
    readFrames src = (frames, true) := by
  induction frames generalizing src with
  | nil =>
    have hend : (readExact 3 src).1 = .eof :=
      readExact_short hcalm (by rw [hsrc]; exact Nat.zero_lt_succ 2)
    obtain ⟨e, rest, he⟩ : ∃ e rest, readExact 3 src = (e, rest) := ⟨_, _, rfl⟩
    rw [he] at hend
    obtain rfl : e = .eof := hend
    have hframe : readFrame src = (.eof, rest) := by rw [readFrame, he]
    rw [readFrames]
    split <;> rename_i h <;> rw [hframe] at h <;> cases h
  | cons f frames ih =>
    rw [List.flatMap_cons] at hsrc
    obtain ⟨rest, hframe, hrest, hsuffix⟩ :=
      readFrame_frame (hframes f List.mem_cons_self) hcalm hsrc
    have hmore :=
      ih (fun g hg => hframes g (List.mem_cons_of_mem _ hg)) (hcalm.suffix hsuffix) hrest
    rw [readFrames]
    split <;> rename_i h <;> rw [hframe] at h <;> cases h
    rw [hmore]

/-! ## Both readers -/

/-- The first `k` frames of a connection, which the handshake reads. -/
def handshakeFrames : Nat → Source UInt8 → List Frame × Source UInt8
  | 0, src => ([], src)
  | k + 1, src => match PartialFrame.next ⟨[]⟩ src with
    | (some f, rest) =>
      let r := handshakeFrames k rest
      (f :: r.1, r.2)
    | (none, rest) => ([], rest)

/-- The frames of a connection, and whether its stream has ended well: the handshake reads the first
    `k`, then takes the read timeout away and hands the stream over. -/
def readConnection (k : Nat) (src : Source UInt8) : List Frame × Bool :=
  let r := handshakeFrames k src
  let q := readFrames r.2.withoutTimeout
  (r.1 ++ q.1, q.2)

/-- So are the frames of a handshake. -/
theorem handshakeFrames_frames {frames : List Frame} (hframes : ∀ f ∈ frames, f.2.length < 65536)
    {k : Nat} (hk : k ≤ frames.length) {src : Source UInt8} (hfailed : .sign .failed ∉ src)
    (hsrc : content src = frames.flatMap encode) :
    ∃ rest, handshakeFrames k src = (frames.take k, rest) ∧
    content rest = (frames.drop k).flatMap encode ∧ rest <:+ src := by
  induction k generalizing frames src with
  | zero => exact ⟨src, rfl, hsrc, List.suffix_rfl⟩
  | succ k ih =>
    match frames with
    | [] => exact absurd hk (Nat.not_succ_le_zero k)
    | f :: frames =>
      rw [List.flatMap_cons] at hsrc
      have hpart : (⟨[]⟩ : PartialFrame).Part := Nat.zero_lt_succ 2
      obtain ⟨mid, hnext, hmid, hmidSuffix⟩ :=
        PartialFrame.next_frame hpart (hframes f List.mem_cons_self) hfailed (p := ⟨[]⟩) hsrc
      obtain ⟨rest, hrest, hcontent, hsuffix⟩ :=
        ih (fun g hg => hframes g (List.mem_cons_of_mem _ hg))
        (Nat.le_of_succ_le_succ hk) (fun hm => hfailed (hmidSuffix.mem hm)) hmid
      refine ⟨rest, ?_, hcontent, hsuffix.trans hmidSuffix⟩
      rw [handshakeFrames, hnext]
      dsimp only
      rw [hrest]
      rfl

/-- **The two readers together return the frames**, wherever the stream is handed over. -/
theorem readConnection_frames {frames : List Frame} (hframes : ∀ f ∈ frames, f.2.length < 65536)
    {k : Nat} (hk : k ≤ frames.length) {src : Source UInt8} (hfailed : .sign .failed ∉ src)
    (hsrc : content src = frames.flatMap encode) : readConnection k src = (frames, true) := by
  obtain ⟨rest, hhand, hcontent, hsuffix⟩ := handshakeFrames_frames hframes hk hfailed hsrc
  have hcalm : rest.withoutTimeout.Calm := calm_withoutTimeout fun hm => hfailed (hsuffix.mem hm)
  have hmore := readFrames_frames (fun f hf => hframes f (List.mem_of_mem_drop hf)) hcalm
    ((content_withoutTimeout rest).trans hcontent)
  rw [readConnection, hhand]
  dsimp only
  rw [hmore, List.take_append_drop]

/-! ## The guest -/

/-- What the guest writes a frame to: whether HID and MIDI are open, how writes to them and to the
    port go, and the gadget's identity if it can be read. -/
structure Ends where
  hidraw : Bool
  midi : Bool
  writes : List Took
  identity : Option Bytes

/-- What one call does: its result, what is left to read, the stop flag after it,
    and what it has written. -/
structure Dispatched where
  ok : Bool
  rest : Source UInt8
  stop : Stop
  hidraw : Bytes
  midi : Bytes
  vport : Bytes

/-- Read a payload that is too long and drop it. -/
def drain (stop : Stop) (len : Nat) (src : Source UInt8) : Bool × Source UInt8 × Stop :=
  if len > 0 then
    let chunk := if len < 1024 then len else 1024
    match readExactUntil stop chunk src with
    | (.done _, rest, stop) => drain stop (len - chunk) rest
    | (.eof, rest, stop) => (false, rest, stop)
    | (.failed, rest, stop) => (false, rest, stop)
  else (true, src, stop)
termination_by len
decreasing_by
  split <;> omega

/-- Pass a payload on. -/
def dispatch (ends : Ends) (stop : Stop) (kind : UInt8) (payload : Bytes) (rest : Source UInt8) :
    Dispatched :=
  if kind = FRAME_HELLO then
    match ends.identity with
    | none => ⟨true, rest, stop, [], [], []⟩
    | some id =>
      let sent := sendFrame (stop, ends.writes) FRAME_IDENTITY id
      ⟨sent.1, rest, sent.2.2.1, [], [], sent.2.1⟩
  else if kind = FRAME_HID then
    if ends.hidraw = false ∨ payload.length = 0 then ⟨true, rest, stop, [], [], []⟩
    else
      -- the report number in front is not part of the report; a write that fails is only logged
      let sent := guestWriteAll (stop, ends.writes) (0 :: payload)
      ⟨true, rest, sent.2.2.1, sent.2.1, [], []⟩
  else if kind = FRAME_MIDI then
    if ends.midi = false ∨ payload.length = 0 then ⟨true, rest, stop, [], [], []⟩
    else
      let sent := guestWriteAll (stop, ends.writes) payload
      ⟨true, rest, sent.2.2.1, [], sent.2.1, []⟩
  else ⟨true, rest, stop, [], [], []⟩

/-- `recv_and_dispatch`. -/
def recvAndDispatch (ends : Ends) (stop : Stop) (src : Source UInt8) : Dispatched :=
  match readExactUntil stop 3 src with
  | (.done hdr, rest, stop) =>
    let kind := hdr.getD 0 0
    let len := lenOf (hdr.getD 1 0) (hdr.getD 2 0)
    if len > MAX_PAYLOAD then
      let drained := drain stop len rest
      ⟨drained.1, drained.2.1, drained.2.2, [], [], []⟩
    else if len > 0 then match readExactUntil stop len rest with
      | (.done payload, rest, stop) => dispatch ends stop kind payload rest
      | (.eof, rest, stop) => ⟨false, rest, stop, [], [], []⟩
      | (.failed, rest, stop) => ⟨false, rest, stop, [], [], []⟩
    else dispatch ends stop kind [] rest
  | (.eof, rest, stop) => ⟨false, rest, stop, [], [], []⟩
  | (.failed, rest, stop) => ⟨false, rest, stop, [], [], []⟩

/-- Draining takes the payload and nothing else, or a part of it and the flag is set. -/
theorem drain_payload (stop : Stop) {len : Nat} {src : Source UInt8} (hcalm : src.Calm)
    {payload tail : Bytes} (hsrc : content src = payload ++ tail) (hlen : payload.length = len) :
    ∃ rest stop', rest <:+ src ∧
      (drain stop len src = (true, rest, stop') ∧ content rest = tail ∨
        drain stop len src = (false, rest, stop') ∧ stop'.Asked ∧
          ∃ left, left <:+ payload ∧ content rest = left ++ tail) := by
  -- by the length that is left to drain
  induction len using Nat.strong_induction_on generalizing stop src payload with
  | _ len ih =>
    rw [drain]
    split
    · rename_i hpos
      generalize hchunk : (if len < 1024 then len else 1024) = chunk
      have hle : 0 < chunk ∧ chunk ≤ len := by
        rw [← hchunk]
        split <;> omega
      have hsplit : content src = payload.take chunk ++ (payload.drop chunk ++ tail) := by
        rw [hsrc, ← List.append_assoc, List.take_append_drop]
      -- a chunk at a time, and each of them may find the flag set
      obtain ⟨mid, stop₁, hmidSuffix, ⟨hread, hmid⟩ | ⟨hread, hasked, left, hleft, hmid⟩⟩ :=
        readExactUntil_calm stop hcalm hsplit (n := chunk) (by
          rw [List.length_take]
          omega)
      · obtain ⟨rest, stop₂, hsuffix, hend⟩ :=
          ih (len - chunk) (by omega) stop₁ (hcalm.suffix hmidSuffix) hmid
            (by rw [List.length_drop]; omega)
        refine ⟨rest, stop₂, hsuffix.trans hmidSuffix, ?_⟩
        dsimp only
        rw [hread]
        refine hend.imp_right fun h => ⟨h.1, h.2.1, ?_⟩
        obtain ⟨left, hleft, hrest⟩ := h.2.2
        exact ⟨left, hleft.trans (List.drop_suffix _ _), hrest⟩
      · -- what is left of the chunk, and the payload behind it
        refine ⟨mid, stop₁, hmidSuffix, .inr ⟨?_, hasked, left ++ payload.drop chunk, ?_, ?_⟩⟩
        · dsimp only
          rw [hread]
        · obtain ⟨front, hfront⟩ := hleft
          refine ⟨front, ?_⟩
          rw [← List.append_assoc, hfront, List.take_append_drop]
        · rw [hmid, List.append_assoc]
    · rename_i hzero
      have hnil : payload = [] := List.eq_nil_of_length_eq_zero (by omega)
      rw [hnil, List.nil_append] at hsrc
      exact ⟨src, stop, List.suffix_rfl, .inl ⟨rfl, hsrc⟩⟩

/-- Passing a payload on reads nothing. -/
theorem dispatch_rest (ends : Ends) (stop : Stop) (kind : UInt8) (payload : Bytes)
    (rest : Source UInt8) :
    (dispatch ends stop kind payload rest).rest = rest := by
  unfold dispatch
  split
  · split <;> rfl
  · split
    · split <;> rfl
    · split
      · split <;> rfl
      · rfl

/-- **One call takes one frame**: one that is too long is dropped, any other is passed on
    whole.  If it finds the flag set while it reads, it returns -1 and leaves the end of
    the frame in the stream. -/
theorem recvAndDispatch_frame (ends : Ends) (stop : Stop) {f : Frame} {src : Source UInt8}
    {tail : Bytes} (hf : f.2.length < 65536) (hcalm : src.Calm)
    (hsrc : content src = encode f ++ tail) :
    ∃ rest stop', rest <:+ src ∧
      (content rest = tail ∧ recvAndDispatch ends stop src =
          (if f.2.length > MAX_PAYLOAD then ⟨true, rest, stop', [], [], []⟩
            else dispatch ends stop' f.1 f.2 rest) ∨
        recvAndDispatch ends stop src = ⟨false, rest, stop', [], [], []⟩ ∧ stop'.Asked ∧
          ∃ left, left <:+ encode f ∧ content rest = left ++ tail) := by
  have hlen : lenOf ((header f.1 (UInt16.ofNat f.2.length)).getD 1 0)
      ((header f.1 (UInt16.ofNat f.2.length)).getD 2 0) =
      f.2.length := (lenOf_header _).trans (UInt16.toNat_ofNat_of_lt' hf)
  have hpayload : ∀ {left : Bytes}, left <:+ f.2 → left <:+ encode f :=
    fun h => h.trans (List.suffix_append _ _)
  -- the header first: it is read whole, or the flag is set inside it
  obtain ⟨mid, stop₁, hmidSuffix, ⟨hhdr, hmid⟩ | ⟨hhdr, hasked, left, ⟨front, hfront⟩, hmid⟩⟩ :=
    readExactUntil_calm stop hcalm (content_frame hsrc) (n := 3) rfl
  · rw [recvAndDispatch, hhdr]
    dsimp only
    rw [hlen]
    -- too long, and drained; or read; or there is no payload
    split
    · obtain ⟨rest, stop₂, hsuffix, ⟨hdrain, hrest⟩ | ⟨hdrain, hasked, left, hleft, hrest⟩⟩ :=
        drain_payload stop₁ (hcalm.suffix hmidSuffix) hmid rfl
      · rw [hdrain]
        exact ⟨rest, stop₂, hsuffix.trans hmidSuffix, .inl ⟨hrest, rfl⟩⟩
      · rw [hdrain]
        exact ⟨rest, stop₂, hsuffix.trans hmidSuffix,
          .inr ⟨rfl, hasked, left, hpayload hleft, hrest⟩⟩
    · split
      · obtain ⟨rest, stop₂, hsuffix, ⟨hread, hrest⟩ | ⟨hread, hasked, left, hleft, hrest⟩⟩ :=
          readExactUntil_calm stop₁ (hcalm.suffix hmidSuffix) hmid rfl
        · rw [hread]
          exact ⟨rest, stop₂, hsuffix.trans hmidSuffix, .inl ⟨hrest, rfl⟩⟩
        · rw [hread]
          exact ⟨rest, stop₂, hsuffix.trans hmidSuffix,
            .inr ⟨rfl, hasked, left, hpayload hleft, hrest⟩⟩
      · rename_i hpos
        have hnil : f.2 = [] := List.eq_nil_of_length_eq_zero (by omega)
        rw [hnil, List.nil_append] at hmid
        exact ⟨mid, stop₁, hmidSuffix, .inl ⟨hmid, by rw [hnil]; rfl⟩⟩
  · -- it gives up inside the header
    refine ⟨mid, stop₁, hmidSuffix,
      .inr ⟨by rw [recvAndDispatch, hhdr], hasked, left ++ f.2, ⟨front, ?_⟩, ?_⟩⟩
    · rw [← List.append_assoc, hfront, encode]
    · rw [hmid, List.append_assoc]

/-- An open endpoint gets its payload whole, unless the flag is found set meanwhile; an empty
    payload is no report. -/
theorem dispatch_whole (ends : Ends) (stop : Stop) (hwrites : .failed ∉ ends.writes) {kind : UInt8}
    (payload : Bytes) (rest : Source UInt8)
    (hasked : ¬ (dispatch ends stop kind payload rest).stop.Asked) :
    (kind = FRAME_HID → ends.hidraw = true → dispatch ends stop kind payload rest =
      ⟨true, rest, (dispatch ends stop kind payload rest).stop,
        if payload = [] then [] else 0 :: payload, [], []⟩) ∧
    (kind = FRAME_MIDI → ends.midi = true → dispatch ends stop kind payload rest =
      ⟨true, rest, (dispatch ends stop kind payload rest).stop, [], payload, []⟩) := by
  have hall : ∀ bs : Bytes, ¬ (guestWriteAll (stop, ends.writes) bs).2.2.1.Asked →
      (guestWriteAll (stop, ends.writes) bs).2.1 = bs := fun bs hclear =>
    guestWriteAll_ok ((writeAllUntil_of_not_failed stop hwrites bs).resolve_right hclear)
  constructor
  · rintro rfl hopen
    rw [dispatch, if_neg (by decide), if_pos rfl] at hasked ⊢
    split at hasked
    · rename_i hor
      have hnil : payload = [] := List.eq_nil_of_length_eq_zero (hor.resolve_left (by simp [hopen]))
      rw [if_pos hor, if_pos hnil]
    · rename_i hor
      have hne : payload ≠ [] := by
        rintro rfl
        exact hor (.inr rfl)
      rw [if_neg hor, if_neg hne]
      dsimp only
      rw [hall _ hasked]
  · rintro rfl hopen
    rw [dispatch, if_neg (by decide), if_neg (by decide), if_pos rfl] at hasked ⊢
    split at hasked
    · rename_i hor
      have hnil : payload = [] := List.eq_nil_of_length_eq_zero (hor.resolve_left (by simp [hopen]))
      rw [if_pos hor, hnil]
    · rename_i hor
      rw [if_neg hor]
      dsimp only
      rw [hall _ hasked]

/-! ### A bridge that is not asked to stop -/

/-- While nobody asks to stop, nothing stops a write. -/
theorem guestWriteAll_never (ts : List Took) (bs : Bytes) :
    (guestWriteAll (.never, ts) bs).2.2.1 = .never :=
  writeAllUntil_never ts bs

/-- Nor a frame. -/
theorem sendFrame_never (ts : List Took) (kind : UInt8) (payload : Bytes) :
    (sendFrame (.never, ts) kind payload).2.2.1 = .never := by
  have hpieces : ∀ (pieces : List Bytes) (ts : List Took),
      (writePieces guestWriteAll (.never, ts) pieces).2.2.1 = .never := by
    intro pieces
    induction pieces with
    | nil => exact fun _ => rfl
    | cons piece pieces ih =>
      intro ts
      have hpiece := guestWriteAll_never ts piece
      rw [writePieces]
      dsimp only
      split
      · obtain ⟨ok, bs, stop, ts', hw⟩ :
            ∃ ok bs stop ts', guestWriteAll (.never, ts) piece = (ok, bs, stop, ts') :=
          ⟨_, _, _, _, rfl⟩
        rw [hw] at hpiece ⊢
        obtain rfl : stop = .never := hpiece
        exact ih ts'
      · exact hpiece
  exact hpieces _ ts

/-- Nor the handling of one. -/
theorem dispatch_never (ends : Ends) (kind : UInt8) (payload : Bytes) (rest : Source UInt8) :
    (dispatch ends .never kind payload rest).stop = .never := by
  unfold dispatch
  split
  · split
    · rfl
    · exact sendFrame_never _ _ _
  · split
    · split
      · rfl
      · exact guestWriteAll_never _ _
    · split
      · split
        · rfl
        · exact guestWriteAll_never _ _
      · rfl

/-- Nor the draining of one that is too long. -/
theorem drain_never (len : Nat) (src : Source UInt8) : (drain .never len src).2.2 = .never := by
  induction len using Nat.strong_induction_on generalizing src with
  | _ len ih =>
    rw [drain]
    split
    · have hread := readExactUntil_never (if len < 1024 then len else 1024) src
      dsimp only
      split <;> rename_i hr <;> rw [hr] at hread <;> obtain rfl := hread
      · exact ih _ (by split <;> omega) _
      · rfl
      · rfl
    · rfl

/-- Its flag stays clear, so the call is never asked to stop. -/
theorem recvAndDispatch_never (ends : Ends) (src : Source UInt8) :
    (recvAndDispatch ends .never src).stop = .never := by
  have hhdr := readExactUntil_never 3 src
  unfold recvAndDispatch
  split <;> rename_i hr <;> rw [hr] at hhdr <;> obtain rfl := hhdr
  · rename_i hdr rest
    dsimp only
    split
    · exact drain_never _ _
    · split
      · have hpayload := readExactUntil_never (lenOf (hdr.getD 1 0) (hdr.getD 2 0)) rest
        split <;> rename_i hr' <;> rw [hr'] at hpayload <;> obtain rfl := hpayload
        · exact dispatch_never _ _ _ _
        · rfl
        · rfl
      · exact dispatch_never _ _ _ _
  · rfl
  · rfl

/-! ## What is written is read -/

/-- A frame that one of the two writers writes, how its writes go, and when the
    guest is asked to stop. -/
structure Sent where
  onHost : Bool
  kind : UInt8
  payload : Bytes
  writes : List Took
  stop : Stop

namespace Sent

variable (x : Sent)

/-- The frame of a packet. -/
def frame : Frame := (x.kind, x.payload)

/-- Whether the frame was written, and what was. -/
def write : Bool × Bytes :=
  if x.onHost then
    let r := writeFrame x.writes x.kind x.payload
    (r.1, r.2.1)
  else
    let r := sendFrame (x.stop, x.writes) x.kind x.payload
    (r.1, r.2.1)

/-- The payload is one that the writer takes whole, and its writes go well. -/
def Whole : Prop := x.payload.length ≤ (if x.onHost then 65535 else MAX_PAYLOAD) ∧ x.write.1 = true

variable {x}

/-- A packet that went out whole is its frame's encoding. -/
theorem Whole.written (h : x.Whole) : x.write.2 = encode x.frame ∧ x.frame.2.length < 65536 := by
  obtain ⟨hlen, hok⟩ := h
  unfold write at hok ⊢
  split at hok
  · rename_i hhost
    rw [if_pos hhost] at hlen ⊢
    exact ⟨writeFrame_ok hok, Nat.lt_succ_of_le hlen⟩
  · rename_i hhost
    rw [if_neg hhost] at hlen ⊢
    have hmax : MAX_PAYLOAD < 65536 := by decide
    exact ⟨sendFrame_ok hlen hok, Nat.lt_of_le_of_lt hlen hmax⟩

end Sent

/-- The stream of frames that have been written is the frames' encoding. -/
theorem written_frames {sent : List Sent} (hsent : ∀ x ∈ sent, x.Whole) :
    sent.flatMap (fun x => x.write.2) = (sent.map Sent.frame).flatMap encode ∧
      ∀ f ∈ sent.map Sent.frame, f.2.length < 65536 := by
  constructor
  · rw [List.flatMap_map]
    exact List.flatMap_congr fun x hx => (hsent x hx).written.1
  · intro f hf
    obtain ⟨x, hx, rfl⟩ := List.mem_map.mp hf
    exact (hsent x hx).written.2

/-- **PC Link frames survive any chunking and any reader.**  Of the frames that are written, the
    host's two readers return all, in order, wherever the handshake hands over; its reader takes no
    byte beyond the frame and keeps what it has across errors; and each call of the guest's takes
    one frame, passes on a payload of up to 4096 bytes whole and drops a longer one, unless it is
    asked to stop: then it returns -1 and may leave the end of the frame in the stream. -/
theorem pc_link_frames_survive :
    (∀ (sent : List Sent) (src : Source UInt8), (∀ x ∈ sent, x.Whole) → .sign .failed ∉ src →
      content src = sent.flatMap (fun x => x.write.2) → ∀ k ≤ sent.length,
        readConnection k src = (sent.map Sent.frame, true)) ∧
    (∀ (p : PartialFrame) (src : Source UInt8), p.Part →
      PartialFrame.ReadSpec p src (p.read src).1 (p.read src).2.1 (p.read src).2.2) ∧
    (∀ (ends : Ends) (stop : Stop) (f : Frame) (src : Source UInt8) (tail : Bytes),
      f.2.length ≤ 65535 → src.Calm →
      content src = encode f ++ tail →
        let call := recvAndDispatch ends stop src
        -- nothing behind the frame, and the whole frame unless it is asked to stop
        (∃ left, left <:+ encode f ∧ content call.rest = left ++ tail ∧
          (left ≠ [] → call.ok = false ∧ call.stop.Asked)) ∧
        (f.2.length > MAX_PAYLOAD →
          call = ⟨call.ok, call.rest, call.stop, [], [], []⟩ ∧ (call.ok = true ∨ call.stop.Asked)) ∧
        (f.2.length ≤ MAX_PAYLOAD → .failed ∉ ends.writes → ¬ call.stop.Asked →
          (f.1 = FRAME_HID → ends.hidraw = true →
            call = ⟨true, call.rest, call.stop, if f.2 = [] then [] else 0 :: f.2, [], []⟩) ∧
          (f.1 = FRAME_MIDI → ends.midi = true →
            call = ⟨true, call.rest, call.stop, [], f.2, []⟩)) ∧
        -- a bridge that is not asked to stop
        (stop = .never → ¬ call.stop.Asked)) := by
  refine ⟨?_, fun p src hp => (PartialFrame.read_takes src (.inl hp)).2, ?_⟩
  · intro sent src hsent hfailed hsrc k hk
    obtain ⟨hwritten, hframes⟩ := written_frames hsent
    exact readConnection_frames hframes (by rw [List.length_map]; exact hk) hfailed
      (hsrc.trans hwritten)
  · intro ends stop f src tail hf hcalm hsrc
    have hnever : stop = .never → ¬ (recvAndDispatch ends stop src).stop.Asked := by
      rintro rfl hasked
      rw [recvAndDispatch_never] at hasked
      cases hasked
    obtain ⟨rest, stop', -, ⟨hrest, hcall⟩ | ⟨hcall, hasked, left, hleft, hrest⟩⟩ :=
      recvAndDispatch_frame ends stop (Nat.lt_succ_of_le hf) hcalm hsrc
    · by_cases hlong : f.2.length > MAX_PAYLOAD
      · rw [if_pos hlong] at hcall
        dsimp only
        rw [hcall] at hnever ⊢
        exact ⟨⟨[], List.nil_suffix, hrest, fun h => absurd rfl h⟩, fun _ => ⟨rfl, .inl rfl⟩,
          fun hshort => absurd hlong (Nat.not_lt.mpr hshort), hnever⟩
      · rw [if_neg hlong] at hcall
        dsimp only
        rw [hcall] at hnever ⊢
        rw [dispatch_rest]
        refine ⟨⟨[], List.nil_suffix, hrest, fun h => absurd rfl h⟩, fun h => absurd h hlong,
          fun _ hwrites hclear => ?_, hnever⟩
        exact dispatch_whole ends stop' hwrites f.2 rest hclear
    · dsimp only
      rw [hcall] at hnever ⊢
      exact ⟨⟨left, hleft, hrest, fun _ => ⟨rfl, hasked⟩⟩, fun _ => ⟨rfl, .inr hasked⟩,
        fun _ _ hclear => absurd hasked hclear, hnever⟩

/-- A HID frame of the guest and an empty MIDI frame of the host; the handshake reads the first,
    with time-outs in its header and its payload.  The other way, a HID report in two reads, of
    which an interrupted one is made again. -/
theorem two_frames_survive :
    readConnection 1
      [.byte 1, .sign .timedOut, .byte 0, .byte 2, .byte 170, .sign .interrupted, .sign .timedOut,
        .byte 187, .byte 2, .sign .cut, .byte 0, .byte 0] =
          ([(FRAME_HID, [170, 187]), (FRAME_MIDI, [])], true) ∧
    (recvAndDispatch ⟨true, false, [.some 0, .again], none⟩ .never
      [.byte 1, .byte 0, .byte 2, .byte 170, .sign .interrupted, .byte 187, .byte 2]).hidraw =
        [0, 170, 187] := by
  constructor
  · refine pc_link_frames_survive.1 [⟨false, FRAME_HID, [170, 187], [.some 0, .again], .never⟩,
      ⟨true, FRAME_MIDI, [], [], .never⟩] _ ?_ (by decide) (by decide) 1 (by decide)
    intro x hx
    obtain rfl | hx := List.mem_cons.mp hx
    · exact ⟨by decide, by decide⟩
    · obtain rfl := List.mem_singleton.mp hx
      exact ⟨by decide, by decide⟩
  · obtain ⟨-, -, hwhole, hclear⟩ :=
      pc_link_frames_survive.2.2 ⟨true, false, [.some 0, .again], none⟩ .never
      (FRAME_HID, [170, 187])
        [.byte 1, .byte 0, .byte 2, .byte 170, .sign .interrupted, .byte 187, .byte 2] [2]
      (by decide) (by decide) (by decide)
    rw [(hwhole (by decide) (by decide) (hclear rfl)).1 rfl rfl]
    rfl

/-- The bridge is asked to stop while it waits for the last byte of a HID frame: the byte stays in
    the stream, and the next reader would take it for a type. -/
theorem stopped_inside_a_frame :
    ¬ ∀ (ends : Ends) (stop : Stop) (f : Frame) (src : Source UInt8) (tail : Bytes),
    f.2.length ≤ 65535 → src.Calm →
      content src = encode f ++ tail → content (recvAndDispatch ends stop src).rest = tail := by
  intro hall
  have hone := hall ⟨true, true, [], none⟩ (.after 3) (FRAME_HID, [170, 187])
    [.byte 1, .byte 0, .byte 2, .byte 170, .sign .interrupted, .byte 187] [] (by decide) (by decide)
      (by decide)
  have hleft : content (recvAndDispatch ⟨true, true, [], none⟩ (.after 3)
      [.byte 1, .byte 0, .byte 2, .byte 170, .sign .interrupted, .byte 187]).rest = [187] := by
        decide +kernel
  rw [hleft] at hone
  cases hone

end CdjEmu.PcLink
