/-
  THE VIRTUAL SUB-CPU — `subucom_virt.ko` between the control frames of the host and the player's
  reads.

  A frame that was written stays in effect until the next write.  `spi_read` stamps the checksum of
  whatever it delivers, so a frame that has its checksum is delivered as it is (`spiFrame_of_crc`).
  While the service-mode combo is held, its two bits are set in every frame.

  1. **Program** — the driver with its frame in effect, `ctrl_write`, `spi_read` with the checksum
     it stamps, and the transfer that ends the service-mode combo; the forwarder's test for a
     power-off.

  2. **Specification** — what the player reads is the frame that the panel's state encodes to, with
     each button's bit, each position and the checksum (`Carries`); and until the first transfer the
     two octets of the combo are its masks.

  3. **The crux (`spiFrame_of_crc`)** — stamping a checksum that is right already changes nothing.
     For the combo it is whether the frame in effect has bits of its own in the masked octets, which
     the idle frame of one model has.
-/
import CdjEmu.Lib.Machine
import CdjEmu.Panel.Model

namespace CdjEmu.Guest

open Panel

/-! ## The idle frames -/

/-- `miso_idle`. -/
def misoIdle : Frame :=
  #v[0x00, 0x00, 0x01, 0x04, 0x03, 0x00, 0x00, 0x00, 0x00, 0x00, 0x00, 0x00, 0x81, 0x00, 0xff, 0xff,
    0x00, 0x00, 0x00, 0x00, 0x00, 0x7f, 0x50, 0x7f, 0x00, 0x00, 0xff, 0xff, 0xff, 0xff, 0x00, 0x00,
    0x51, 0x01, 0xd5, 0xd6, 0xd6, 0xd5, 0xd5, 0xd6, 0xd6, 0xd5, 0xd5, 0xd6, 0x00, 0x00, 0x00, 0x00,
    0x00, 0x00, 0x00, 0x00, 0x00, 0x00, 0x00, 0x00, 0x00, 0x00, 0x00, 0x00, 0x00, 0x00, 0x00, 0x00]

/-- `miso_idle_model`, which `subucom_virt_init` derives. -/
def misoIdleModel : Model → Frame
  | .cdj1500x => (Octets.zero misoSize).store 0 0x01
  | .cdj3kx =>
    let f : Frame := (Octets.zero misoSize).store 0 0x01
    let f := (List.range (misoSize - 2 - 4)).foldl (fun f i => f.store (i + 4) (misoIdle.byte i)) f
    f.setBit (16, 0x01) false
  | .cdj3k => misoIdle

/-- `testmode_byte` and `testmode_mask`. -/
def testmodeCombo : Model → FrameBit × FrameBit
  | .cdj1500x => ((17, 0x01), (18, 0x40))
  | .cdj3kx => ((10, 0x04), (12, 0x01))
  | .cdj3k => ((6, 0x04), (8, 0x08))

/-! ## The driver -/

structure Subucom where
  model : Model
  hasInject : Bool
  injectPending : Frame
  testmodeHeld : Bool

namespace Subucom

/-- After `subucom_virt_init`. -/
def init (m : Model) (injectTestmode : Bool) : Subucom :=
  ⟨m, false, Octets.zero misoSize, injectTestmode⟩

variable (v : Subucom)

/-- `ctrl_write`; the second part is what it returns, `-EINVAL` for a part of a frame. -/
def ctrlWrite (buf : Bytes) : Subucom × Int :=
  if buf.length = 0 then ({ v with hasInject := false }, 0)
  else if buf.length < misoSize then (v, -22)
  else ({ v with injectPending := Octets.ofBytes misoSize buf, hasInject := true }, misoSize)

/-- The frame that `spi_read` builds. -/
def spiFrame : Frame :=
  let frame := if v.hasInject then v.injectPending else misoIdleModel v.model
  let frame : Frame :=
    if v.testmodeHeld then (frame.setBit (testmodeCombo v.model).1 true).setBit
      (testmodeCombo v.model).2 true else frame
  if v.model = .cdj1500x then
    let crc := crc16X25 (frame.front 24)
    (frame.store 24 (crc >>> 8).toUInt8).store 25 crc.toUInt8
  else
    let crc := crc16X25 (frame.front 62)
    (frame.store 62 crc.toUInt8).store 63 (crc >>> 8).toUInt8

/-- What `spi_read` of `count` bytes copies. -/
def spiRead (count : Nat) : Bytes := v.spiFrame.front (min count misoSize)

/-- `IOCTL_MOSI_TRANSFER` of a command with `size` bytes; an empty one is not a transfer. -/
def mosiTransfer (size : Nat) : Subucom :=
  if min size 64 = 0 then v else { v with testmodeHeld := false }

/-! ## What is delivered -/

/-- The frame in effect. -/
def inEffect : Frame := if v.hasInject then v.injectPending else misoIdleModel v.model

/-- The frame without its checksum. -/
def unstamped : Frame :=
  if v.testmodeHeld then (v.inEffect.setBit (testmodeCombo v.model).1 true).setBit
    (testmodeCombo v.model).2 true
  else v.inEffect

variable {v}

/-- The checksum is the one that the host stamps. -/
theorem spiFrame_eq : v.spiFrame = stampCrc v.unstamped v.model.crcAt v.model.crcBigEndian := by
  unfold spiFrame
  change (if v.model = .cdj1500x then v.unstamped.putBe 24 (crc16X25 (v.unstamped.front 24))
    else v.unstamped.putLe 62 (crc16X25 (v.unstamped.front 62))) = _
  unfold stampCrc
  cases v.model with
  | cdj3k => rfl
  | cdj3kx => rfl
  | cdj1500x => rfl

/-- A frame in effect that has its checksum is delivered unchanged, unless the combo is held. -/
theorem spiFrame_of_crc (hinject : v.hasInject = true) (hheld : v.testmodeHeld = false)
    (hcrc : crcOf v.injectPending v.model.crcAt v.model.crcBigEndian = crc16X25
      (v.injectPending.front v.model.crcAt)) :
    v.spiFrame = v.injectPending := by
  have hunstamped : v.unstamped = v.injectPending := by
    simp [unstamped, inEffect, hinject, hheld]
  rw [spiFrame_eq, hunstamped, stampCrc_of_crc hcrc]

theorem ctrlWrite_frame (f : Frame) :
    (v.ctrlWrite f.toList).1 = { v with injectPending := f, hasInject := true } := by
  have hlen : f.toList.length = misoSize := f.length_toList
  have hsize : misoSize = 64 := rfl
  rw [ctrlWrite, if_neg (by omega), if_neg (by omega), Octets.ofBytes_toList]

end Subucom

/-! ## The power-off test of the forwarder -/

namespace Forwarder

/-- `power_byte`. -/
def powerByte : Model → Nat
  | .cdj1500x => 30
  | _ => 12

/-- The host's power flag is clear. -/
def PowersOff (m : Model) (f : Frame) : Prop := f.byte (powerByte m) &&& 0x80 = 0

instance (m : Model) (f : Frame) : Decidable (PowersOff m f) := inferInstanceAs (Decidable (_ = _))

theorem powersOff_iff {m : Model} {s : PanelState} (h : s.OwnBits m) :
    PowersOff m (stampCrc (m.body s) m.crcAt m.crcBigEndian) ↔ s.power = false := by
  have hflag : (powerByte m, (0x80 : UInt8)) ∈ m.powerBits := by
    cases m <;> decide
  obtain ⟨-, hone, hfield, hcrc0, hcrc1, hidle⟩ := Model.powerBits_apart _ hflag
  have hcleared : (powerByte m, (0x80 : UInt8)) ∉ s.cleared := by
    intro hmem
    obtain ⟨btn, hne, hbtn⟩ := h.cleared _ hmem
    exact hne ((Model.powerBits_button hflag).1 btn hbtn)
  have hset : (stampCrc (m.body s) m.crcAt m.crcBigEndian).isSet (powerByte m, 0x80) ↔
      s.power = true := by
    rw [Octets.isSet_congr (byte_stampCrc_of_ne hcrc0 hcrc1), h.isSet_body hone hfield]
    simp [hidle, hcleared, hflag]
  rw [← Bool.not_eq_true, ← hset]
  exact not_not.symm

end Forwarder

/-! ## A panel state reaches the player -/

/-- The frame of a state carries it, the driver delivers the frame as it is, and the forwarder takes
    it for a request to power off exactly when the power is off.  While it is off, POWER ON is clear
    whatever is pressed; the tempo word of the CDJ-1500X has 14 bits. -/
theorem panel_reaches_player {m : Model} {s : PanelState} (h : s.OwnBits m) :
    ∃ f, m.encode s = some f ∧ Carries m s f ∧
      (∀ v : Subucom, v.model = m → v.testmodeHeld = false →
        ∀ count, (v.ctrlWrite f.toList).1.spiRead count = f.toList.take count) ∧
      (Forwarder.PowersOff m f ↔ s.power = false) := by
  refine ⟨_, h.encode_eq, h.carries, fun v hm hheld count => ?_, Forwarder.powersOff_iff h⟩
  subst hm
  have hread : ∀ f, crcOf f v.model.crcAt v.model.crcBigEndian = crc16X25 (f.front v.model.crcAt) →
      Subucom.spiFrame { v with injectPending := f, hasInject := true } = f :=
    fun f hcrc => Subucom.spiFrame_of_crc rfl hheld hcrc
  rw [Subucom.spiRead, Subucom.ctrlWrite_frame, hread _ h.carries.crc, Octets.front,
    ← List.take_take, ← Octets.front, Octets.front_of_le (Nat.le_refl _)]

/-- PLAY, pressed twice over, while CUE is released. -/
def playHeld : PanelState :=
  { PanelState.atRest with pressed := [(5, 0x01), (5, 0x01)], cleared := [(5, 0x02)] }

theorem play_reaches_player :
    ∃ f, Model.encode .cdj3k playHeld = some f ∧ f.isSet (5, 0x01) ∧ ¬ f.isSet (5, 0x02) ∧
      ¬ Forwarder.PowersOff .cdj3k f := by
  have hown : playHeld.OwnBits .cdj3k := by
    refine ⟨fun b hb => ⟨.play, ?_⟩, fun b hb => ⟨.cue, nofun, ?_⟩⟩
    · obtain rfl | rfl : b = (5, 0x01) ∨ b = (5, 0x01) := by simpa [playHeld] using hb
      · rfl
      · rfl
    · obtain rfl : b = (5, 0x02) := by simpa [playHeld] using hb
      rfl
  obtain ⟨f, hencode, hcarries, -, hpower⟩ := panel_reaches_player hown
  have hplay : Model.button .cdj3k .play = some (5, 0x01) := rfl
  have hcue : Model.button .cdj3k .cue = some (5, 0x02) := rfl
  refine ⟨f, hencode, (hcarries.buttons hplay nofun).mpr ⟨by decide, .inl (by decide)⟩,
    fun hset => ?_, fun hoff => ?_⟩
  · exact absurd ((hcarries.buttons hcue nofun).mp hset).1 (by decide)
  · exact absurd (hpower.mp hoff) (by decide)

/-- With the power off POWER ON is clear, though it is set in the idle frame
    and nothing releases it. -/
theorem power_off_clears_power_on :
    ¬ ∀ (m : Model) (s : PanelState), s.OwnBits m → ∀ f, m.encode s = some f →
    ∀ btn b, m.button btn = some b →
      (f.isSet b ↔ b ∉ s.cleared ∧ (b ∈ s.pressed ∨ m.idle.isSet b)) := by
  intro h
  have hown : PanelState.OwnBits { PanelState.atRest with power := false } .cdj3k := ⟨nofun, nofun⟩
  have hset := h .cdj3k _ hown _ hown.encode_eq .powerOn (12, 0x80) rfl
  exact hown.carries.powerOff rfl (12, 0x80) rfl (hset.mpr ⟨nofun, .inr (by decide)⟩)

/-! ## The service-mode combo -/

/-- What one `spi_read` delivered, the frame of the host that was in effect, and whether the player
    had sent a MOSI transfer by then. -/
structure Delivery where
  frame : Frame
  inject : Option Frame
  afterMosi : Bool

/-- Before the first transfer the two combo octets are the masks and the checksum is right; after it
    a frame of the host is delivered unchanged. -/
def Delivery.Good (m : Model) (d : Delivery) : Prop :=
  if d.afterMosi then ∀ f, d.inject = some f → d.frame = f
  else d.frame.byte (testmodeCombo m).1.1 = (testmodeCombo m).1.2 ∧
    d.frame.byte (testmodeCombo m).2.1 = (testmodeCombo m).2.2 ∧
    crcOf d.frame m.crcAt m.crcBigEndian = crc16X25 (d.frame.front m.crcAt)

structure Boot where
  dev : Subucom
  /-- Whether there was a MOSI transfer. -/
  mosi : Bool
  /-- The panel state whose frame is in effect. -/
  shown : Option PanelState
  delivered : List Delivery

namespace Boot

inductive Event where
  | host (s : PanelState)
  | clearing
  | read
  | mosi (size : Nat)

def delivery (t : Boot) : Delivery :=
  ⟨t.dev.spiFrame, if t.dev.hasInject then some t.dev.injectPending else none, t.mosi⟩

/-- The host writes frames of states with nothing pressed and the power on. -/
def step (t : Boot) : Event → Option Boot
  | .host s =>
    if s.pressed = [] ∧ s.power = true then
      (t.dev.model.encode s).map fun f =>
        { t with dev := (t.dev.ctrlWrite f.toList).1, shown := some s }
    else none
  | .clearing => some { t with dev := (t.dev.ctrlWrite []).1, shown := none }
  | .read => some { t with delivered := t.delivered ++ [t.delivery] }
  | .mosi size =>
      some { t with dev := t.dev.mosiTransfer size, mosi := t.mosi || decide (0 < size) }

def machine : Machine Boot Event := ⟨step⟩

def start (m : Model) : Boot := ⟨Subucom.init m true, false, none, []⟩

/-- The CDJ-3000X is not read while the combo is held and a frame of the host is in effect, unless
    the frame's state releases bit 7 of octet 12. -/
def Clean (t : Boot) (e : Event) : Prop :=
  e = .read → t.dev.model = .cdj3kx → t.mosi = false →
    ∀ s, t.shown = some s → ∃ b ∈ s.cleared, b.1 = 12 ∧ b.2 &&& 0x80 ≠ 0

/-- What holds along every run. -/
structure Inv (m : Model) (t : Boot) : Prop where
  model : t.dev.model = m
  held : t.dev.testmodeHeld = !t.mosi
  shown : t.shown = none ∧ t.dev.hasInject = false ∨ ∃ s, t.shown = some s ∧
      t.dev.hasInject = true ∧
    s.pressed = [] ∧ s.power = true ∧ m.encode s = some t.dev.injectPending

/-- A frame of the host takes effect. -/
theorem step_host {t : Boot} {s : PanelState} {f : Frame} (hpressed : s.pressed = [])
    (hpower : s.power = true) (hf : t.dev.model.encode s = some f) : machine.step t (.host s) =
      some { t with
        dev := { t.dev with injectPending := f, hasInject := true }, shown := some s } := by
  rw [← Subucom.ctrlWrite_frame]
  exact (if_pos ⟨hpressed, hpower⟩).trans (congrArg (Option.map _) hf)

theorem inv_start (m : Model) : (start m).Inv m := ⟨rfl, rfl, .inl ⟨rfl, rfl⟩⟩

theorem Inv.step {m : Model} {t u : Boot} {e : Event} (h : t.Inv m)
    (hs : machine.step t e = some u) : u.Inv m := by
  cases e with
  | host s =>
    obtain ⟨⟨hpressed, hpower⟩, hs⟩ := Option.ite_none_right_eq_some.mp hs
    obtain ⟨f, hf, rfl⟩ := Option.map_eq_some_iff.mp hs
    rw [h.model] at hf
    rw [Subucom.ctrlWrite_frame]
    exact ⟨h.model, h.held, .inr ⟨s, rfl, rfl, hpressed, hpower, hf⟩⟩
  | clearing =>
    obtain rfl := Option.some.inj hs
    exact ⟨h.model, h.held, .inl ⟨rfl, rfl⟩⟩
  | read =>
    obtain rfl := Option.some.inj hs
    exact ⟨h.model, h.held, h.shown⟩
  | mosi size =>
    obtain rfl := Option.some.inj hs
    by_cases hsize : size = 0
    · subst hsize
      have hsame : t.dev.mosiTransfer 0 = t.dev := rfl
      rw [hsame]
      exact ⟨h.model, by simpa using h.held, h.shown⟩
    · have hreleased : t.dev.mosiTransfer size = { t.dev with testmodeHeld := false } :=
        if_neg (by omega)
      rw [hreleased]
      exact ⟨h.model, by simp [Nat.pos_of_ne_zero hsize], h.shown⟩

/-! ### The two octets -/

/-- Where the combo is: in front of the checksum, in two octets without fields, which are zero in
    the idle frame. -/
theorem combo_apart (m : Model) : ∀ c ∈ [(testmodeCombo m).1, (testmodeCombo m).2],
    c.1 < m.crcAt ∧ c.1 ∉ m.fieldOctets ∧ (misoIdleModel m).byte c.1 = 0 ∧
      (m.idle.byte c.1 = 0 ∨ m = .cdj3kx ∧ c = (12, 0x01)) := by
  cases m <;> decide +kernel

/-- An octet without fields, in a frame of a state with nothing pressed. -/
theorem byte_host {m : Model} {s : PanelState} {f : Frame} (hpressed : s.pressed = [])
    (hpower : s.power = true) (hf : m.encode s = some f) {i : Nat} (hi : i < m.crcAt)
    (hfield : i ∉ m.fieldOctets) :
    f.byte i = ((m.write (fromIdle m.idle) s).setBits s.cleared false).byte i ∧
      (m.write (fromIdle m.idle) s).byte i = m.idle.byte i := by
  obtain ⟨-, rfl⟩ := Model.encode_eq_some.mp hf
  have htouch : ∀ j ∈ [m.touchAt, m.touchAt + 1, m.touchAt + 2, m.touchAt + 3],
      (fromIdle m.idle).byte j = 0 :=
    fun j hj => (byte_fromIdle _ j).trans (m.touch_idle j hj).2
  constructor
  · rw [byte_stampCrc_of_ne (by omega) (by omega), Model.body, hpressed, hpower]
    rfl
  · rw [Model.write_eq htouch, Octets.Field.byte_puts_of_ne fun fd hfd b hb heq => ?_,
      byte_fromIdle]
    exact hfield (heq ▸ Model.mem_fieldOctets hfd hb)

/-- A combo octet of such a frame is zero where it is in the idle frame. -/
theorem byte_host_zero {m : Model} {s : PanelState} {f : Frame} (hpressed : s.pressed = [])
    (hpower : s.power = true) (hf : m.encode s = some f) {c : FrameBit}
    (hc : c ∈ [(testmodeCombo m).1, (testmodeCombo m).2]) (hidle : m.idle.byte c.1 = 0) :
    f.byte c.1 = 0 := by
  obtain ⟨hi, hfield, -, -⟩ := combo_apart m c hc
  obtain ⟨hclear, hwrite⟩ := byte_host hpressed hpower hf hi hfield
  rw [hclear, Octets.byte_clearBits, hwrite, hidle, UInt8.and_zero]

/-- Octet 12 of a CDJ-3000X's frame holds the forwarder's power flag, which meets the combo. -/
theorem byte_host_twelve {s : PanelState} {f : Frame} (hpressed : s.pressed = [])
    (hpower : s.power = true) (hf : Model.encode .cdj3kx s = some f) :
    f.byte 12 ||| 0x01 = 0x01 ↔ ∃ b ∈ s.cleared, b.1 = 12 ∧ b.2 &&& 0x80 ≠ 0 := by
  have hidle : Cdj3kx.idle.byte 12 = 0x80 := by decide +kernel
  have hone : Octets.OneBit 0x80 := by decide
  obtain ⟨hclear, hwrite⟩ := byte_host hpressed hpower hf (i := 12) (by decide) (by decide)
  obtain ⟨hfit, -⟩ := Model.encode_eq_some.mp hf
  have hwritten : (Model.write .cdj3kx (fromIdle Cdj3kx.idle) s).byte 12 = 0x80 :=
    hwrite.trans hidle
  have hset : f.isSet (12, 0x80) ↔ ∀ b ∈ s.cleared, b.1 = 12 → b.2 &&& 0x80 = 0 := by
    rw [Octets.isSet_congr (c := (12, 0x80)) hclear,
      Octets.isSet_clearMasks (fun b hb => hfit b (List.mem_append_right _ hb)) hone]
    refine and_iff_right ?_
    rw [Octets.isSet]
    show Octets.byte _ 12 &&& 0x80 ≠ 0
    rw [hwrite]
    decide +kernel
  have hbyte : f.byte 12 = f.byte 12 &&& 0x80 := by
    rw [hclear]
    exact (Octets.byte_clearBits _ _).trans (congrArg _ hwritten)
  have hcleared : (∃ b ∈ s.cleared, b.1 = 12 ∧ b.2 &&& 0x80 ≠ 0) ↔ ¬ f.isSet (12, 0x80) := by
    rw [hset]
    push Not
    rfl
  rw [hcleared]
  obtain h0 | h1 := hone.and_eq (f.byte 12)
  · refine iff_of_true ?_ fun hon => hon h0
    rw [hbyte, h0]
    rfl
  · refine iff_of_false ?_ fun hoff => hoff ?_
    · rw [hbyte, h1]
      decide
    · show f.byte 12 &&& 0x80 ≠ 0
      rw [h1]
      decide

/-- The combo is shown exactly when the frame in effect has no other bit in its octets. -/
theorem good_iff_held {m : Model} {t : Boot} (h : t.Inv m) (hmosi : t.mosi = false) :
    t.delivery.Good m ↔
      ∀ c ∈ [(testmodeCombo m).1, (testmodeCombo m).2], t.dev.inEffect.byte c.1 ||| c.2 = c.2 := by
  have hheld : t.dev.testmodeHeld = true := by rw [h.held, hmosi]; rfl
  have hcrc := (m.crcAt_apart).1
  obtain ⟨hlt0, -⟩ := combo_apart m (testmodeCombo m).1 (by simp)
  obtain ⟨hlt1, -⟩ := combo_apart m (testmodeCombo m).2 (by simp)
  have hne : (testmodeCombo m).1.1 ≠ (testmodeCombo m).2.1 := by cases m <;> decide
  have hframe : t.delivery.frame = stampCrc t.dev.unstamped m.crcAt m.crcBigEndian := by
    rw [← h.model]
    exact Subucom.spiFrame_eq
  have hunstamped : t.dev.unstamped =
      (t.dev.inEffect.setBit (testmodeCombo m).1 true).setBit (testmodeCombo m).2 true := by
    rw [Subucom.unstamped, if_pos hheld, h.model]
  have hbyte0 : t.delivery.frame.byte (testmodeCombo m).1.1 =
      t.dev.inEffect.byte (testmodeCombo m).1.1 ||| (testmodeCombo m).1.2 := by
    rw [hframe, byte_stampCrc_of_ne (by omega) (by omega), hunstamped,
      Octets.byte_setBit_of_ne _ hne, Octets.setBit, Octets.byte_store, if_pos ⟨rfl, by omega⟩,
      if_pos rfl]
  have hbyte1 : t.delivery.frame.byte (testmodeCombo m).2.1 =
      t.dev.inEffect.byte (testmodeCombo m).2.1 ||| (testmodeCombo m).2.2 := by
    rw [hframe, byte_stampCrc_of_ne (by omega) (by omega), hunstamped, Octets.setBit,
      Octets.byte_store, if_pos ⟨rfl, by omega⟩, if_pos rfl, Octets.byte_setBit_of_ne _ hne.symm]
  have hstamp : crcOf t.delivery.frame m.crcAt m.crcBigEndian = crc16X25
      (t.delivery.frame.front m.crcAt) := by
    rw [hframe]
    exact crcOf_stampCrc _ hcrc
  have hbefore : ¬ t.delivery.afterMosi = true := fun hafter =>
    absurd (hmosi.symm.trans hafter) Bool.false_ne_true
  rw [Delivery.Good, if_neg hbefore, hbyte0, hbyte1, and_iff_left hstamp]
  simp

/-- What a read delivers is right exactly when the step is clean. -/
theorem Inv.good_iff {m : Model} {t : Boot} (h : t.Inv m) : t.delivery.Good m ↔ t.Clean .read := by
  cases hmosi : t.mosi with
  | true =>
    refine iff_of_true ?_ fun _ _ hno => ?_
    · have hafter : t.delivery.afterMosi = true := hmosi
      rw [Delivery.Good, if_pos hafter]
      intro f hf
      obtain ⟨-, hno⟩ | ⟨s, -, hinject, -, -, hencode⟩ := h.shown
      · simp [delivery, hno] at hf
      · obtain rfl : t.dev.injectPending = f := by simpa [delivery, hinject] using hf
        obtain ⟨-, hstamp⟩ := Model.encode_eq_some.mp hencode
        refine Subucom.spiFrame_of_crc hinject (by rw [h.held, hmosi]; rfl) ?_
        rw [h.model, ← hstamp]
        exact crcOf_stampCrc _ (m.crcAt_apart).1
    · rw [hmosi] at hno
      nomatch hno
  | false =>
    rw [good_iff_held h hmosi]
    obtain ⟨hshown, hno⟩ | ⟨s, hshown, hinject, hpressed, hpower, hencode⟩ := h.shown
    · refine iff_of_true (fun c hc => ?_) fun _ _ _ s hs => ?_
      · have hzero := (combo_apart m c hc).2.2.1
        rw [Subucom.inEffect, if_neg (by rw [hno]; exact Bool.false_ne_true), h.model, hzero,
          UInt8.zero_or]
      · rw [hshown] at hs
        nomatch hs
    · have heffect : t.dev.inEffect = t.dev.injectPending := if_pos hinject
      have hzero : ∀ c ∈ [(testmodeCombo m).1, (testmodeCombo m).2], m.idle.byte c.1 = 0 →
          t.dev.injectPending.byte c.1 ||| c.2 = c.2 := by
        intro c hc hidle
        rw [byte_host_zero hpressed hpower hencode hc hidle, UInt8.zero_or]
      rw [heffect]
      by_cases hx : m = .cdj3kx
      · subst hx
        have hfirst := hzero (10, 0x04) (by decide) (by decide +kernel)
        have hsecond := byte_host_twelve hpressed hpower hencode
        constructor
        · intro hall _ _ _ s' hs'
          obtain rfl : s = s' := Option.some.inj (hshown.symm.trans hs')
          exact hsecond.mp (hall (12, 0x01) (by decide))
        · intro hclean c hc
          obtain rfl | rfl : c = (10, 0x04) ∨ c = (12, 0x01) := by simpa [testmodeCombo] using hc
          · exact hfirst
          · exact hsecond.mpr (hclean rfl h.model hmosi s hshown)
      · refine iff_of_true (fun c hc => ?_) fun _ hmodel => absurd (h.model.symm.trans hmodel) hx
        obtain ⟨-, -, -, hidle | ⟨hmodel, -⟩⟩ := combo_apart m c hc
        · exact hzero c hc hidle
        · exact absurd hmodel hx

theorem inv_reach {m : Model} {G : Boot → Event → Prop} {t : Boot}
    (h : machine.Reach G (start m) t) : t.Inv m :=
  h.inv (inv_start m) fun _ _ _ h _ hs => h.step hs

/-! ### The runs -/

/-- In every run whose reads are clean the combo is shown until the first MOSI transfer and the
    frames of the host are delivered unchanged after it, and a read that is not clean shows
    something else. -/
theorem combo_held (m : Model) :
    (∀ t, machine.Reach Clean (start m) t → ∀ d ∈ t.delivered, d.Good m) ∧
      ∀ t, machine.Reach Machine.Free (start m) t → (t.delivery.Good m ↔ t.Clean .read) := by
  refine ⟨fun t ht => ?_, fun t ht => (inv_reach ht).good_iff⟩
  have hboth : t.Inv m ∧ ∀ d ∈ t.delivered, d.Good m := by
    refine Machine.Reach.inv (I := fun t => t.Inv m ∧ ∀ d ∈ t.delivered, d.Good m)
      ⟨inv_start m, nofun⟩
      (fun t e u h hclean hs => ⟨h.1.step hs, fun d hd => ?_⟩) ht
    cases e with
    | host s =>
      obtain ⟨-, hs⟩ := Option.ite_none_right_eq_some.mp hs
      obtain ⟨f, -, rfl⟩ := Option.map_eq_some_iff.mp hs
      exact h.2 d hd
    | clearing =>
      obtain rfl := Option.some.inj hs
      exact h.2 d hd
    | read =>
      obtain rfl := Option.some.inj hs
      obtain hd | hd := List.mem_append.mp hd
      · exact h.2 d hd
      · obtain rfl := List.mem_singleton.mp hd
        exact h.1.good_iff.mpr hclean
    | mosi size =>
      obtain rfl := Option.some.inj hs
      exact h.2 d hd
  exact hboth.2

/-- A frame at rest while the CDJ-3000's combo is held: octet 6 is 0x04 and octet 8 is 0x08. -/
theorem combo_held_at_rest :
    ∃ t, machine.Reach Clean (start .cdj3k) t ∧ ∃ d ∈ t.delivered, d.frame.byte 6 = 0x04 ∧
    d.frame.byte 8 = 0x08 := by
  have hown : PanelState.OwnBits .atRest .cdj3k := ⟨nofun, nofun⟩
  have hclean : ∀ t : Boot, t.dev.model = .cdj3k → ∀ e, t.Clean e := by
    intro t hmodel e _ hx
    rw [hmodel] at hx
    nomatch hx
  have hhost := step_host (t := start .cdj3k) rfl rfl hown.encode_eq
  have hrun := (Machine.Reach.refl.step (hclean _ rfl _) hhost).step (hclean _ rfl .read) rfl
  have hgood := (combo_held .cdj3k).1 _ hrun _ (List.mem_append_right _ (List.mem_singleton_self _))
  exact ⟨_, hrun, _, List.mem_append_right _ (List.mem_singleton_self _), hgood.1, hgood.2.1⟩

/-- A frame at rest while the CDJ-3000X's combo is held: octet 12 is 0x81. -/
theorem rest_frame_cancels_the_combo :
    ¬ ∀ m t, machine.Reach Machine.Free (start m) t → ∀ d ∈ t.delivered, d.Good m := by
  intro h
  obtain ⟨t, ht, hd⟩ :=
    Machine.Reach.of_run_any (M := machine) (G := Machine.Free) (s := start .cdj3kx)
    (p := fun t => t.delivered.any fun d => d.frame.byte 12 == 0x81 && !d.afterMosi)
    [.host .atRest, .read] (by decide +kernel)
  obtain ⟨d, hmem, hd⟩ := List.any_eq_true.mp hd
  obtain ⟨hbyte, hbefore⟩ := Bool.and_eq_true_iff.mp hd
  have hgood := h .cdj3kx t ht d hmem
  rw [Delivery.Good, if_neg (by simpa using hbefore)] at hgood
  have hcombo : d.frame.byte 12 = 0x01 := hgood.2.1
  rw [hcombo] at hbyte
  exact absurd hbyte (by decide)

end Boot

end CdjEmu.Guest
