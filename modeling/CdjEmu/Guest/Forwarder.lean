/-
  THE CONTROL PORT — the frames of the host on their way through `cdj3k.ctrl` to
  `subucom_forwarder`.

  The port is a stream of bytes without marks, on which the connections of the host follow each
  other.  The forwarder reads 64 bytes at a time; a read of no bytes, which the port returns while
  nothing is buffered and no host is connected, makes it drop what it has of a frame (`read_exact`
  returns 0).

  What is in the forwarder and in the port is some whole frames and a part of one (`Aligned`).  A
  connection that finds such a part puts its frames behind it.

  1. **Program** — the loop of the forwarder with `read_exact`, the frame it tests and the block it
     writes, and the power-off it arms; the host's side is a connection that puts frames on the port
     and may break off inside one.

  2. **Specification** — the blocks that are tested and written are a front of the frames that the
     host sent, and a power-off was armed for one of these.

  3. **The crux (`Aligned`)** — as long as a host connects only while the port and the forwarder
     together hold whole frames, the octets on their way are the frames that are yet to come.
-/
import CdjEmu.Guest.Subucom

namespace CdjEmu.Guest.Forwarder

open Panel

structure Ctrl where
  /-- Whether a host is connected to the socket. -/
  connected : Bool
  /-- Whether `inject` has a socket to write to. -/
  writer : Bool
  /-- The frame that `write_all` is writing, and how much of it is written. -/
  sending : Option (Frame × Nat)
  /-- What the port has for the guest. -/
  buffered : Bytes
  /-- What `read_exact` has of a frame. -/
  got : Bytes
  poweroffArmed : Bool
  /-- The blocks that were tested for the power flag and written to `/dev/subucom_ctrl`. -/
  blocks : List Frame
  /-- The frames that the host wrote in full. -/
  frames : List Frame

namespace Ctrl

inductive Event where
  | connect
  | inject (f : Frame)
  /-- `write_all` writes so many bytes. -/
  | put (n : Nat)
  /-- `write_all` fails. -/
  | fail
  | close
  /-- A read of the forwarder returns so many bytes. -/
  | read (n : Nat)
  /-- A read of the forwarder returns 0. -/
  | readNone

/-- The rest of the control loop, once `read_exact` has a frame. -/
def forward (m : Model) (t : Ctrl) : Ctrl :=
  if t.got.length = misoSize then
    let frame : Frame := Octets.ofBytes misoSize t.got
    { t with
      got := []
      poweroffArmed := t.poweroffArmed || decide (PowersOff m frame)
      blocks := t.blocks ++ [frame] }
  else t

def step (m : Model) (t : Ctrl) : Event → Option Ctrl
  | .connect =>
      if t.connected = false then some { t with connected := true, writer := true } else none
  | .inject f =>
      if t.writer = true ∧ t.sending = none then some { t with sending := some (f, 0) } else none
  | .put n =>
    match t.sending with
    | none => none
    | some (f, k) =>
      if 0 < n ∧ k + n ≤ misoSize then
        let u := { t with buffered := t.buffered ++ (f.toList.drop k).take n }
        some (if k + n = misoSize then { u with sending := none, frames := t.frames ++ [f] }
          else { u with sending := some (f, k + n) })
      else none
  | .fail => if t.sending ≠ none then some { t with writer := false, sending := none } else none
  | .close =>
    if t.connected = true then some { t with connected := false, writer := false, sending := none }
      else none
  | .read n =>
    if 0 < n ∧ n ≤ misoSize - t.got.length ∧ n ≤ t.buffered.length then
      some (forward m { t with got := t.got ++ t.buffered.take n, buffered := t.buffered.drop n })
    else none
  | .readNone => if t.buffered = [] ∧ t.connected = false then some { t with got := [] } else none

def machine (m : Model) : Machine Ctrl Event := ⟨step m⟩

def start : Ctrl := ⟨false, false, none, [], [], false, [], []⟩

/-- A host connects only when what the port and the forwarder have are whole frames. -/
def Clean (t : Ctrl) (e : Event) : Prop :=
  match e with
  | .connect => (t.got ++ t.buffered).length % misoSize = 0
  | _ => True

instance (t : Ctrl) (e : Event) : Decidable (Clean t e) := by
  unfold Clean
  split <;> infer_instance

/-! ## Whole frames and a part of one -/

/-- The bytes of some frames. -/
def stream (fs : List Frame) : Bytes := fs.flatMap Vector.toList

theorem length_stream (fs : List Frame) : (stream fs).length = misoSize * fs.length := by
  induction fs with
  | nil => rfl
  | cons f fs ih =>
    have hcons : stream (f :: fs) = f.toList ++ stream fs := rfl
    rw [hcons, List.length_append, ih, Vector.length_toList, List.length_cons, Nat.mul_succ,
      Nat.add_comm]

theorem stream_append (fs gs : List Frame) : stream (fs ++ gs) = stream fs ++ stream gs :=
  List.flatMap_append

theorem stream_singleton (f : Frame) : stream [f] = f.toList := List.append_nil _

/-- 64 bytes in front are the first frame. -/
theorem eq_cons_of_stream {fs : List Frame} {part a b : Bytes} (ha : a.length = misoSize)
    (hpart : part.length < misoSize) (h : a ++ b = stream fs ++ part) :
    ∃ f gs, fs = f :: gs ∧ a = f.toList ∧ b = stream gs ++ part := by
  cases fs with
  | nil =>
    have hlen := congrArg List.length h
    simp only [stream, List.flatMap_nil, List.nil_append, List.length_append] at hlen
    omega
  | cons f gs =>
    have hcons : stream (f :: gs) ++ part = f.toList ++ (stream gs ++ part) :=
      List.append_assoc _ _ _
    rw [hcons] at h
    obtain ⟨hfront, hback⟩ := List.append_inj h (by rw [ha, Vector.length_toList])
    exact ⟨f, gs, rfl, hfront, hback⟩

/-- What is on its way are the frames that were not forwarded yet and a part of one. -/
structure Aligned (m : Model) (t : Ctrl) (fs : List Frame) (part : Bytes) : Prop where
  bytes : t.got ++ t.buffered = stream fs ++ part
  frames : t.frames = t.blocks ++ fs
  short : part.length < misoSize
  got : t.got.length < misoSize
  /-- The part is what is written of the frame in progress, and there is none while
      the writer has no frame. -/
  sending : ∀ f k, t.sending = some (f, k) → t.writer = true ∧ k < misoSize ∧ part = f.toList.take k
  idle : t.writer = true → t.sending = none → part = []
  writer : t.writer = true → t.connected = true
  armed : t.poweroffArmed = true → ∃ f ∈ t.frames, PowersOff m f

theorem aligned_start (m : Model) : start.Aligned m [] [] :=
  ⟨rfl, rfl, by decide, by decide, nofun, fun _ _ => rfl, nofun, nofun⟩

variable {m : Model} {t u : Ctrl} {fs : List Frame} {part : Bytes}

/-- Nothing but whole frames is on its way when a host connects. -/
theorem Aligned.part_eq_nil (h : t.Aligned m fs part)
    (hclean : (t.got ++ t.buffered).length % misoSize = 0) :
    part = [] := by
  have hshort := h.short
  rw [h.bytes, List.length_append, length_stream, Nat.mul_add_mod,
    Nat.mod_eq_of_lt hshort] at hclean
  exact List.eq_nil_of_length_eq_zero hclean

/-- The writer goes on with its frame. -/
theorem Aligned.put (h : t.Aligned m fs part) {n k : Nat} {f : Frame}
    (hsending : t.sending = some (f, k)) (hfit : k + n ≤ misoSize)
    (hs :
      (if k + n = misoSize then
        { t with
          buffered := t.buffered ++ (f.toList.drop k).take n, sending := none,
          frames := t.frames ++ [f] }
      else
        { t with
          buffered := t.buffered ++ (f.toList.drop k).take n, sending := some (f, k + n) }) = u) :
    ∃ fs part, u.Aligned m fs part := by
  obtain ⟨hwriter, hk, hpart⟩ := h.sending f k hsending
  have hbytes : t.got ++ (t.buffered ++ (f.toList.drop k).take n) = stream fs ++ f.toList.take
      (k + n) := by
    rw [← List.append_assoc, h.bytes, hpart, List.append_assoc, List.take_add]
  by_cases hall : k + n = misoSize
  · rw [if_pos hall] at hs
    subst hs
    refine ⟨fs ++ [f], [], ?_, ?_, by decide, h.got, nofun, fun _ _ => rfl, h.writer,
      fun harmed => ?_⟩
    · rw [stream_append, stream_singleton, List.append_nil, hbytes, hall,
        List.take_of_length_le (by simp)]
    · rw [h.frames, List.append_assoc]
    · obtain ⟨g, hg, hoff⟩ := h.armed harmed
      exact ⟨g, List.mem_append_left _ hg, hoff⟩
  · rw [if_neg hall] at hs
    subst hs
    refine ⟨fs, f.toList.take (k + n), hbytes, h.frames, ?_, h.got, fun g j hg => ?_,
      fun _ hno => ?_, h.writer, h.armed⟩
    · rw [List.length_take]
      omega
    · obtain ⟨rfl, rfl⟩ := Prod.mk.inj (Option.some.inj hg)
      exact ⟨hwriter, by omega, rfl⟩
    · nomatch hno

/-- A read that completes a frame takes the first one off. -/
theorem Aligned.forward (h : t.Aligned m fs part) {n : Nat} (hroom : n ≤ misoSize - t.got.length)
    (hhas : n ≤ t.buffered.length) :
    ∃ fs part,
      (Ctrl.forward m
        { t with got := t.got ++ t.buffered.take n, buffered := t.buffered.drop n }).Aligned
        m fs part := by
  have hbytes : t.got ++ t.buffered.take n ++ t.buffered.drop n = stream fs ++ part := by
    rw [List.append_assoc, List.take_append_drop, h.bytes]
  have hgot := h.got
  have hlen : (t.got ++ t.buffered.take n).length = t.got.length + n := by
    rw [List.length_append, List.length_take, Nat.min_eq_left hhas]
  by_cases hfull : (t.got ++ t.buffered.take n).length = misoSize
  · obtain ⟨f, gs, rfl, hfront, hback⟩ := eq_cons_of_stream hfull h.short hbytes
    have hblock : Octets.ofBytes misoSize (t.got ++ t.buffered.take n) = f := by
      rw [hfront, Octets.ofBytes_toList]
    rw [Ctrl.forward, if_pos hfull]
    refine ⟨gs, part, hback, ?_, h.short, Nat.zero_lt_succ 63, h.sending, h.idle, h.writer,
      fun harmed => ?_⟩
    · show t.frames = t.blocks ++ [Octets.ofBytes misoSize _] ++ gs
      rw [hblock, h.frames, List.append_assoc]
      rfl
    · have hor : t.poweroffArmed = true ∨
          PowersOff m (Octets.ofBytes misoSize (t.got ++ t.buffered.take n)) := by
        simpa using harmed
      obtain hbefore | hnow := hor
      · exact h.armed hbefore
      · refine ⟨f, ?_, hblock ▸ hnow⟩
        show f ∈ t.frames
        rw [h.frames]
        exact List.mem_append_right _ List.mem_cons_self
  · rw [Ctrl.forward, if_neg hfull]
    refine ⟨fs, part, hbytes, h.frames, h.short, ?_, h.sending, h.idle, h.writer, h.armed⟩
    show (t.got ++ t.buffered.take n).length < misoSize
    omega

/-- Every clean step leaves whole frames and a part of one. -/
theorem Aligned.step (h : t.Aligned m fs part) {e : Event} (hclean : Clean t e)
    (hs : (machine m).step t e = some u) :
    ∃ fs part, u.Aligned m fs part := by
  cases e with
  | connect =>
    obtain ⟨hno, ⟨⟩⟩ := Option.ite_none_right_eq_some.mp hs
    have hpart := h.part_eq_nil hclean
    have hidle : t.sending = none := by
      cases hsending : t.sending with
      | none => rfl
      | some p =>
        have hconnected := h.writer (h.sending p.1 p.2 hsending).1
        rw [hno] at hconnected
        nomatch hconnected
    exact ⟨fs, part, h.bytes, h.frames, h.short, h.got,
      fun f k hk => absurd (hidle.symm.trans hk) nofun, fun _ _ => hpart, fun _ => rfl, h.armed⟩
  | inject f =>
    obtain ⟨⟨hwriter, hidle⟩, ⟨⟩⟩ := Option.ite_none_right_eq_some.mp hs
    have hpart := h.idle hwriter hidle
    refine ⟨fs, part, h.bytes, h.frames, h.short, h.got, fun g k hk => ?_,
      (fun _ hno => nomatch hno), h.writer, h.armed⟩
    obtain ⟨rfl, rfl⟩ := Prod.mk.inj (Option.some.inj hk)
    exact ⟨hwriter, by decide, hpart⟩
  | put n =>
    cases hsending : t.sending with
    | none =>
      have hs : Ctrl.step m t (.put n) = some u := hs
      rw [Ctrl.step, hsending] at hs
      nomatch hs
    | some p =>
      obtain ⟨f, k⟩ := p
      have hs : Ctrl.step m t (.put n) = some u := hs
      rw [Ctrl.step, hsending] at hs
      obtain ⟨⟨-, hfit⟩, hs⟩ := Option.ite_none_right_eq_some.mp hs
      exact h.put hsending hfit (Option.some.inj hs)
  | fail =>
    obtain ⟨-, ⟨⟩⟩ := Option.ite_none_right_eq_some.mp hs
    exact ⟨fs, part, h.bytes, h.frames, h.short, h.got, nofun, nofun, nofun, h.armed⟩
  | close =>
    obtain ⟨-, ⟨⟩⟩ := Option.ite_none_right_eq_some.mp hs
    exact ⟨fs, part, h.bytes, h.frames, h.short, h.got, nofun, nofun, nofun, h.armed⟩
  | read n =>
    obtain ⟨⟨-, hroom, hhas⟩, ⟨⟩⟩ := Option.ite_none_right_eq_some.mp hs
    exact h.forward hroom hhas
  | readNone =>
    obtain ⟨⟨hempty, hno⟩, ⟨⟩⟩ := Option.ite_none_right_eq_some.mp hs
    have hwriter : t.writer ≠ true :=
      fun hw => absurd (hno.symm.trans (h.writer hw)) Bool.false_ne_true
    -- the part is dropped, and no frame is: there are fewer than 64 bytes
    have hnone : fs = [] := by
      have hlen := congrArg List.length h.bytes
      have hgot := h.got
      have hsize : misoSize = 64 := rfl
      rw [hempty, List.append_nil, List.length_append, length_stream, hsize] at hlen
      exact List.eq_nil_of_length_eq_zero (by omega)
    subst hnone
    exact ⟨[], [], by rw [hempty]; rfl, h.frames, by decide, Nat.zero_lt_succ 63,
      fun f k hk => absurd (h.sending f k hk).1 hwriter, fun hw => absurd hw hwriter, h.writer,
      h.armed⟩

/-- In every run in which a host connects only to whole frames, the blocks that the forwarder
    tests and writes are frames of the host, one after the other, and it powers the player
    off only for one of them. -/
theorem blocks_are_frames {t : Ctrl} (h : (machine m).Reach Clean start t) :
    t.blocks <+: t.frames ∧ (t.poweroffArmed = true → ∃ f ∈ t.frames, PowersOff m f) := by
  have haligned : ∃ fs part, t.Aligned m fs part :=
    Machine.Reach.inv (I := fun t => ∃ fs part, t.Aligned m fs part) ⟨[], [], aligned_start m⟩
      (fun _ _ _ ⟨_, _, h⟩ hclean hs => h.step hclean hs) h
  obtain ⟨fs, part, h⟩ := haligned
  exact ⟨⟨fs, h.frames.symm⟩, h.armed⟩

/-- The frame of the CDJ-3000 at rest. -/
def restFrame : Frame := stampCrc (Model.body .cdj3k .atRest) 62 false

/-- Two connections; the second finds that the read between them returned 0, and what was there of a
    frame is gone. -/
theorem two_connections_aligned : ∃ t, (machine .cdj3k).Reach Clean start t ∧ t.blocks.length = 1 ∧
    t.poweroffArmed = false ∧ t.blocks <+: t.frames := by
  obtain ⟨t, ht, hp⟩ := Machine.Reach.of_run_any (M := machine .cdj3k) (G := Clean) (s := start)
    (p := fun t => t.blocks.length == 1 && !t.poweroffArmed)
    [.connect, .inject restFrame, .put 10, .fail, .read 10, .close, .readNone, .connect,
      .inject restFrame, .put 40, .read 30, .put 24, .read 34] (by decide +kernel)
  obtain ⟨hblocks, harmed⟩ := Bool.and_eq_true_iff.mp hp
  exact ⟨t, ht, by simpa using hblocks, by simpa using harmed, (blocks_are_frames ht).1⟩

/-- A connection closes after 10 bytes of a frame and the next one comes before the forwarder reads:
    the block is the 10 bytes and 54 of the next frame, which has no power flag at byte 12. -/
theorem slipped_frame_powers_off :
    ¬ ∀ m t, (machine m).Reach Machine.Free start t → ∀ b ∈ t.blocks, b ∈ t.frames := by
  intro h
  obtain ⟨t, ht, hp⟩ :=
    Machine.Reach.of_run_any (M := machine .cdj3k) (G := Machine.Free) (s := start)
    (p := fun t =>
      t.poweroffArmed && (t.blocks.any (·.byte 12 == 0x01) && t.frames.all (·.byte 12 == 0x81)))
    [.connect, .inject restFrame, .put 10, .close, .connect, .inject restFrame, .put 64, .read 64]
      (by decide +kernel)
  obtain ⟨-, hp⟩ := Bool.and_eq_true_iff.mp hp
  obtain ⟨hblocks, hframes⟩ := Bool.and_eq_true_iff.mp hp
  obtain ⟨b, hb, hbyte⟩ := List.any_eq_true.mp hblocks
  have hframe := List.all_eq_true.mp hframes b (h .cdj3k t ht b hb)
  rw [beq_iff_eq] at hbyte hframe
  rw [hbyte] at hframe
  exact absurd hframe (by decide)

end Ctrl

end CdjEmu.Guest.Forwarder
