/-
  THE PLAYERS' FRAMES — where each of the three players has its buttons, its analog fields and its
  checksum.

  The CDJ-3000X's frame is the CDJ-3000's moved 4 octets; the CDJ-1500X has one of its own, with the
  checksum in the middle.  An encoder starts from the idle frame, sets the pressed bits, writes the
  fields, clears the released bits and the power flag, and stamps the checksum.  `encode_eq_some`
  says so once for all of them; the disjointness of what the five steps write is a table of facts
  about each player (`Layout`).
-/
import CdjEmu.Panel.MisoFrame

namespace CdjEmu.Panel

open Octets (Field OneBit)

/-! ## The buttons -/

/-- The buttons of all players. -/
inductive Btn where
  | play | cue | searchNext | searchPrev | trackNext | trackPrev | beatjumpNext | beatjumpPrev
  | tempoReset | masterTempo | tempoRange | autoCue | keySync | beatSync | master
  | loopIn | loopOut | reloop | beatloopHalf | beatloop2x | slip
  | memory | delete | callNext | callPrev | callDelete
  | hotA | hotB | hotC | hotD | hotE | hotF | hotG | hotH
  | source | browse | tagList | playlist | searchMenu | menu | jogMode
  | back | tagTrack | trackFilter | shortcut | rotaryPress | sleep | timeMode | quantize
  | usbStop | powerOn
  /-- Not a button of the CDJ-3000, which has the cover of its SD slot in this bit. -/
  | usb2Stop
  /-- A button without a place in the CDJ-3000's frame. -/
  | shift
  deriving DecidableEq

/-- `POWER_ON`. -/
def powerOnBit : FrameBit := (12, 0x80)

namespace Btn

/-- The button's bit in the CDJ-3000's frame. -/
def bit : Btn → Option FrameBit
  | play => some (5, 0x01)
  | cue => some (5, 0x02)
  | searchNext => some (5, 0x04)
  | searchPrev => some (5, 0x08)
  | trackNext => some (5, 0x10)
  | trackPrev => some (5, 0x20)
  | beatjumpNext => some (5, 0x40)
  | beatjumpPrev => some (5, 0x80)
  | tempoReset => some (6, 0x01)
  | masterTempo => some (6, 0x02)
  | tempoRange => some (6, 0x04)
  | autoCue => some (6, 0x08)
  | keySync => some (6, 0x10)
  | beatSync => some (6, 0x20)
  | master => some (6, 0x40)
  | loopIn => some (7, 0x01)
  | loopOut => some (7, 0x02)
  | reloop => some (7, 0x04)
  | beatloopHalf => some (7, 0x10)
  | beatloop2x => some (7, 0x20)
  | slip => some (7, 0x80)
  | memory => some (8, 0x01)
  | delete => some (8, 0x02)
  | callNext => some (8, 0x04)
  | callPrev => some (8, 0x08)
  | callDelete => some (8, 0x20)
  | hotA => some (9, 0x01)
  | hotB => some (9, 0x02)
  | hotC => some (9, 0x04)
  | hotD => some (9, 0x08)
  | hotE => some (9, 0x10)
  | hotF => some (9, 0x20)
  | hotG => some (9, 0x40)
  | hotH => some (9, 0x80)
  | source => some (10, 0x01)
  | browse => some (10, 0x02)
  | tagList => some (10, 0x04)
  | playlist => some (10, 0x08)
  | searchMenu => some (10, 0x10)
  | menu => some (10, 0x20)
  | jogMode => some (10, 0x80)
  | back => some (11, 0x01)
  | tagTrack => some (11, 0x02)
  | trackFilter => some (11, 0x04)
  | shortcut => some (11, 0x08)
  | rotaryPress => some (11, 0x10)
  | sleep => some (11, 0x20)
  | timeMode => some (11, 0x40)
  | quantize => some (11, 0x80)
  | usbStop => some (12, 0x02)
  | powerOn => some powerOnBit
  | usb2Stop => some (12, 0x01)
  | shift => none

/-- `SHARED`, `EXTRA` and `OWN`. -/
def all : List Btn :=
  [play, cue, searchNext, searchPrev, trackNext, trackPrev, beatjumpNext, beatjumpPrev, tempoReset,
    masterTempo, tempoRange, autoCue, keySync, beatSync, master, loopIn, loopOut, reloop,
    beatloopHalf, beatloop2x, slip, memory,
    delete, callNext, callPrev, callDelete, hotA, hotB, hotC, hotD, hotE, hotF, hotG, hotH, source,
    browse, tagList,
    playlist, searchMenu, menu, jogMode, back, tagTrack, trackFilter, shortcut, rotaryPress, sleep,
    timeMode, quantize,
    usbStop, powerOn, usb2Stop, shift]

/-- `all` lists them all. -/
theorem mem_all (btn : Btn) : btn ∈ all := by
  cases btn <;> decide

/-- A button that every player inherits. -/
def isShared : Btn → Bool
  | usb2Stop => false
  | shift => false
  | _ => true

end Btn

/-! ## CDJ-3000 -/

namespace Fields

/-- The first octets of the fields of a frame. -/
def direction : Nat := 4
def rotary : Nat := 14
def touch : Nat := 16
def tempo : Nat := 22
def vinyl : Nat := 24
def jog : Nat := 26

end Fields

namespace Cdj3k

/-- `cdj3k::IDLE`. -/
def idle : Octets 62 :=
  #v[0x00, 0x00, 0x01, 0x04, 0x03, 0x00, 0x00, 0x00, 0x00, 0x00, 0x00, 0x00, 0x81, 0x00, 0xff, 0xff,
    0x00, 0x00, 0x00, 0x00, 0x00, 0x7f, 0x00, 0x00, 0x00, 0x00, 0xff, 0xff, 0xff, 0xff, 0x04, 0x00,
    0x51, 0x01, 0xd5, 0xd6, 0xd6, 0xd5, 0xd5, 0xd6, 0xd6, 0xd5, 0xd5, 0xd6, 0x00, 0x00, 0x00, 0x00,
    0x00, 0x00, 0x00, 0x00, 0x00, 0x00, 0x00, 0x00, 0x00, 0x00, 0x00, 0x00, 0x00, 0x00]

/-- `write_fields`: the analog values, `shift` octets behind where the oldest player has them. -/
def writeFields (f : Frame) (s : PanelState) (shift : Nat) : Frame :=
  let f := f.store (Fields.direction + shift) s.direction.asByte
  let jog := Fields.jog + shift
  let f := f.putLe jog s.jog.pos
  let f := f.putLe (jog + 2) s.jog.vel
  let f := f.store (jog + 4) s.jog.touch
  let f := f.putLe (Fields.rotary + shift) s.rotary
  let f := f.putLe (Fields.tempo + shift) s.tempo
  let f := f.store (Fields.vinyl + shift) s.vinyl
  match s.touch with
  | some (x, y) => (f.putLe (Fields.touch + shift) x).putLe (Fields.touch + shift + 2) y
  | none => f

/-- The bit of a button, where the player has that button. -/
def button (btn : Btn) : Option FrameBit := if btn.isShared then btn.bit else none

/-- The frame that a CDJ-3000 gets: the idle frame with buttons, values and the checksum. -/
def encode (s : PanelState) : Option Frame := do
  let f ← press (fromIdle idle) s
  let f ← clear (writeFields f s 0) s
  let f ← (if !s.power then setBit f powerOnBit false else some f)
  some (stampCrc f 62 false)

/-- Where `write_fields` puts what, but for the touch. -/
def analog (s : PanelState) (shift : Nat) : List Field :=
  [.octet (4 + shift) s.direction.asByte, .le (26 + shift) s.jog.pos, .le (28 + shift) s.jog.vel,
    .octet (30 + shift) s.jog.touch, .le (14 + shift) s.rotary, .le (22 + shift) s.tempo,
    .octet (24 + shift) s.vinyl]

end Cdj3k

/-! ## CDJ-3000X -/

namespace Cdj3kx

/-- `MISO_SHIFT`. -/
def misoShift : Nat := 4

/-- `cdj3kx::IDLE`, with the loop that copies the CDJ-3000's. -/
def idle : Octets 62 :=
  let f : Octets 62 := (Octets.zero 62).store 0 0x01
  let f := (List.range (62 - misoShift)).foldl
      (fun f i => f.store (i + misoShift) (Cdj3k.idle.byte i)) f
  (f.store 12 0x80).store 16 0x80

/-- `POWER_ON_SHIFTED`. -/
def powerOnShifted : FrameBit := (powerOnBit.1 + misoShift, powerOnBit.2)

/-- The same bits, moved with the frame; USB 2 is the new player's own. -/
def button (btn : Btn) : Option FrameBit :=
  if !btn.isShared && btn != .usb2Stop then none else btn.bit.map fun b => (b.1 + misoShift, b.2)

/-- The frame of a CDJ-3000X; without power both power bits are clear. -/
def encode (s : PanelState) : Option Frame := do
  let f ← press (fromIdle idle) s
  let f ← clear (Cdj3k.writeFields f s misoShift) s
  let f ← (if !s.power then (setBit f powerOnShifted false).bind fun f =>
      setBit f powerOnBit false else some f)
  some (stampCrc f 62 false)

end Cdj3kx

/-! ## CDJ-1500X -/

namespace Cdj1500x

/-- `POWER_FLAG`. -/
def powerFlag : FrameBit := (30, 0x80)

/-- `cdj1500x::IDLE`. -/
def idle : Octets 62 := ((Octets.zero 62).store 0 0x01).store powerFlag.1 powerFlag.2

/-- `BUTTONS`. -/
def buttons : List (Btn × FrameBit) :=
  [(.reloop, (10, 0x80)), (.delete, (16, 0x08)), (.play, (16, 0x40)), (.cue, (16, 0x80)),
    (.shift, (17, 0x01)), (.hotA, (18, 0x80)), (.hotB, (18, 0x40)), (.hotC, (18, 0x20)),
    (.hotD, (18, 0x10)), (.hotE, (18, 0x08)),
    (.hotF, (18, 0x04)), (.hotG, (18, 0x02)), (.hotH, (18, 0x01)), (.back, (22, 0x01)),
    (.tagTrack, (22, 0x02)),
    (.rotaryPress, (22, 0x80)), (.usbStop, (23, 0x02))]

/-- The bits of the older player. -/
def button (btn : Btn) : Option FrameBit := (buttons.find? fun b => b.1 == btn).map Prod.snd

/-- `TEMPO_DETENT`, half of `TEMPO_TOP`. -/
def tempoDetent : UInt16 := 0x3FF0 / 2

/-- `CRC_AT`. -/
def crcAt : Nat := 24

/-- The bits of the wheel. -/
def jogTouch : FrameBit := (19, 0x01)

def jogForward : FrameBit := (19, 0x02)

/-- A 14-bit word, high octet first. -/
def putTempoWord (f : Frame) (i : Nat) (v : UInt16) : Frame := f.putBe i (v &&& 0x3FFF)

/-- The part of `encode` between the pressed and the released bits. -/
def writeFields (f : Frame) (s : PanelState) : Frame :=
  let f := f.putBe 20 s.rotary
  let f := f.putBe 8 s.beatLoop
  let f := putTempoWord f 4 s.tempo
  let f := putTempoWord f 6 tempoDetent
  let f := f.putBe 12 s.jog.pulses
  let f := f.putBe 14 s.jog.period
  let f : Frame := f.setBit jogTouch s.jog.touched
  let f : Frame := f.setBit jogForward s.jog.forward
  match s.touch with
  | some (x, y) => (f.putLe 26 x).putLe (26 + 2) y
  | none => f

/-- The frame of a CDJ-1500X, with its own idle frame and its checksum the other way round. -/
def encode (s : PanelState) : Option Frame := do
  let f ← press (fromIdle idle) s
  let f ← clear (writeFields f s) s
  let f ← (if !s.power then setBit f powerFlag false else some f)
  some (stampCrc f crcAt true)

/-- Where the encoder puts what, but for the touch. -/
def analog (s : PanelState) : List Field :=
  [.be 20 s.rotary, .be 8 s.beatLoop, .be 4 (s.tempo &&& 0x3FFF), .be 6 tempoDetent,
    .be 12 s.jog.pulses, .be 14 s.jog.period, .bit jogTouch s.jog.touched,
    .bit jogForward s.jog.forward]

end Cdj1500x

/-! ## The three of them -/

/-- The players that a panel can be. -/
inductive Model where
  | cdj3k
  | cdj3kx
  | cdj1500x
  deriving DecidableEq

namespace Model

/-- The frame of each with nothing pressed. -/
def idle : Model → Octets 62
  | cdj3k => Cdj3k.idle
  | cdj3kx => Cdj3kx.idle
  | cdj1500x => Cdj1500x.idle

/-- The bit of a button. -/
def button : Model → Btn → Option FrameBit
  | cdj3k => Cdj3k.button
  | cdj3kx => Cdj3kx.button
  | cdj1500x => Cdj1500x.button

/-- `encode` of the player at hand. -/
def encode : Model → PanelState → Option Frame
  | cdj3k => Cdj3k.encode
  | cdj3kx => Cdj3kx.encode
  | cdj1500x => Cdj1500x.encode

/-- The fields that hold a position rather than a button. -/
def analog : Model → PanelState → List Field
  | cdj3k, s => Cdj3k.analog s 0
  | cdj3kx, s => Cdj3k.analog s Cdj3kx.misoShift
  | cdj1500x, s => Cdj1500x.analog s

/-- Where the two touch words are. -/
def touchAt : Model → Nat
  | cdj3k => Fields.touch
  | cdj3kx => Fields.touch + Cdj3kx.misoShift
  | cdj1500x => 26

/-- The analog fields of a frame: no touch reads as `(0, 0)`. -/
def fields (m : Model) (s : PanelState) : List Field :=
  m.analog s ++ [.le m.touchAt (s.touch.getD (0, 0)).1, .le (m.touchAt + 2) (s.touch.getD (0, 0)).2]

/-- Where the checksum is. -/
def crcAt : Model → Nat
  | cdj3k => 62
  | cdj3kx => 62
  | cdj1500x => Cdj1500x.crcAt

/-- The older player has its checksum the other way round. -/
def crcBigEndian : Model → Bool
  | cdj1500x => true
  | _ => false

/-- What writes the analog fields. -/
def write : Model → Frame → PanelState → Frame
  | cdj3k, f, s => Cdj3k.writeFields f s 0
  | cdj3kx, f, s => Cdj3k.writeFields f s Cdj3kx.misoShift
  | cdj1500x, f, s => Cdj1500x.writeFields f s

/-- The bits that are cleared while the power is off. -/
def powerBits : Model → List FrameBit
  | cdj3k => [powerOnBit]
  | cdj3kx => [Cdj3kx.powerOnShifted, powerOnBit]
  | cdj1500x => [Cdj1500x.powerFlag]

/-- The frame before its checksum. -/
def body (m : Model) (s : PanelState) : Frame :=
  ((m.write ((fromIdle m.idle).setBits s.pressed true) s).setBits s.cleared false).setBits
    (if s.power then [] else m.powerBits) false

/-- The five steps, of which only the lists of bits can fail. -/
theorem steps_eq_some {i g : Frame} {s : PanelState} {w q t : Frame → Frame}
    {p : Frame → Option Frame} (hp : ∀ f, p f = some (q f)) :
    ((press i s).bind fun f => (clear (w f) s).bind fun f => (p f).bind fun f => some (t f)) =
      some g ↔
      (∀ b ∈ s.pressed ++ s.cleared, b.1 < misoSize) ∧
        t (q ((w (i.setBits s.pressed true)).setBits s.cleared false)) = g := by
  simp only [Option.bind_eq_some_iff, press_eq_some, clear_eq_some, hp, List.mem_append, or_imp,
    forall_and, Option.some.injEq]
  constructor
  · rintro ⟨_, ⟨hpressed, rfl⟩, _, ⟨hcleared, rfl⟩, _, rfl, rfl⟩
    exact ⟨⟨hpressed, hcleared⟩, rfl⟩
  · rintro ⟨⟨hpressed, hcleared⟩, rfl⟩
    exact ⟨_, ⟨hpressed, rfl⟩, _, ⟨hcleared, rfl⟩, _, rfl, rfl⟩

/-- An encoder takes the five steps in this order, and panics over a bit off the frame. -/
theorem encode_eq_some {m : Model} {s : PanelState} {f : Frame} :
    m.encode s = some f ↔ (∀ b ∈ s.pressed ++ s.cleared, b.1 < misoSize) ∧
      stampCrc (m.body s) m.crcAt m.crcBigEndian = f := by
  cases m with
  | cdj3k =>
    refine steps_eq_some (s := s) (i := fromIdle Cdj3k.idle) (w := fun f => Cdj3k.writeFields f s 0)
      (t := fun f => stampCrc f 62 false)
        (p := fun f => if !s.power then setBit f powerOnBit false else some f)
      (q := fun f => f.setBits (if s.power then [] else powerBits cdj3k) false) fun f => ?_
    cases s.power with
    | true => rfl
    | false => rfl
  | cdj3kx =>
    refine steps_eq_some (s := s) (i := fromIdle Cdj3kx.idle)
      (w := fun f => Cdj3k.writeFields f s Cdj3kx.misoShift)
      (t := fun f => stampCrc f 62 false)
      (p := fun f =>
        if !s.power then (setBit f Cdj3kx.powerOnShifted false).bind fun f =>
          setBit f powerOnBit false else some f)
      (q := fun f => f.setBits (if s.power then [] else powerBits cdj3kx) false) fun f => ?_
    cases s.power with
    | true => rfl
    | false => rfl
  | cdj1500x =>
    refine steps_eq_some (s := s) (i := fromIdle Cdj1500x.idle)
      (w := fun f => Cdj1500x.writeFields f s)
      (t := fun f => stampCrc f Cdj1500x.crcAt true)
      (p := fun f => if !s.power then setBit f Cdj1500x.powerFlag false else some f)
      (q := fun f => f.setBits (if s.power then [] else powerBits cdj1500x) false) fun f => ?_
    cases s.power with
    | true => rfl
    | false => rfl

/-! ## What the steps share -/

/-- Where the fields are does not depend on the state. -/
theorem bits_fields (m : Model) (s : PanelState) :
    (m.fields s).map Field.bits = (m.fields .atRest).map Field.bits := by
  cases m <;> rfl

/-- The octets of the analog fields. -/
def fieldOctets (m : Model) : List Nat := ((m.fields .atRest).flatMap Field.bits).map Prod.fst

/-- A field's octets are among those listed. -/
theorem mem_fieldOctets {m : Model} {s : PanelState} {fd : Field} (hfd : fd ∈ m.fields s)
    {b : FrameBit} (hb : b ∈ fd.bits) : b.1 ∈ m.fieldOctets := by
  have hmem : b ∈ ((m.fields s).map Field.bits).flatten :=
    List.mem_flatten.mpr ⟨_, List.mem_map_of_mem hfd, hb⟩
  rw [bits_fields, ← List.flatMap_def] at hmem
  exact List.mem_map_of_mem hmem

/-- Every field lies within a frame. -/
theorem fields_fit (m : Model) (s : PanelState) :
    ∀ fd ∈ m.fields s, Field.Fits misoSize fd.bits := by
  have hrest : ∀ l ∈ (m.fields .atRest).map Field.bits, Field.Fits misoSize l := by
    cases m <;> decide
  intro fd hfd
  exact hrest _ (bits_fields m s ▸ List.mem_map_of_mem hfd)

/-- The fields of a frame are apart from one another. -/
theorem fields_apart (m : Model) (s : PanelState) :
    ((m.fields s).map Field.bits).Pairwise Field.Apart := by
  rw [bits_fields]
  cases m <;> decide

/-- The buttons are in front of the checksum, and no analog field takes their octets. -/
theorem button_apart {m : Model} {btn : Btn} {b : FrameBit} (h : m.button btn = some b) :
    b.1 < m.crcAt ∧ OneBit b.2 ∧ b.1 ∉ m.fieldOctets := by
  have hall : ∀ btn ∈ Btn.all, ∀ b ∈ m.button btn, b.1 < m.crcAt ∧ OneBit b.2 ∧
      b.1 ∉ m.fieldOctets := by
    cases m <;> decide
  exact hall btn (Btn.mem_all btn) b h

/-- So are the power bits apart, of which only POWER ON is a button's. -/
theorem powerBits_apart {m : Model} : ∀ b ∈ m.powerBits, b.1 < misoSize ∧ OneBit b.2 ∧
    b.1 ∉ m.fieldOctets ∧
    b.1 ≠ m.crcAt ∧ b.1 ≠ m.crcAt + 1 ∧ m.idle.isSet b := by
  cases m <;> decide +kernel

/-- The power bits are the power button's alone. -/
theorem powerBits_button {m : Model} {b : FrameBit} (h : b ∈ m.powerBits) :
    (∀ btn, m.button btn = some b → btn = .powerOn) ∧
      (b.1 < m.crcAt → ∃ btn c, m.button btn = some c ∧ c.1 = b.1) := by
  have hall : ∀ b ∈ m.powerBits, (∀ btn ∈ Btn.all, m.button btn = some b → btn = .powerOn) ∧
      (b.1 < m.crcAt → ∃ btn ∈ Btn.all, ∃ c ∈ m.button btn, c.1 = b.1) := by
    cases m <;> decide
  obtain ⟨hown, hshared⟩ := hall b h
  refine ⟨fun btn => hown btn (Btn.mem_all btn), fun hlt => ?_⟩
  obtain ⟨btn, -, c, hc, heq⟩ := hshared hlt
  exact ⟨btn, c, hc, heq⟩

theorem powerOn_mem {m : Model} {b : FrameBit} (h : m.button .powerOn = some b) :
    b ∈ m.powerBits := by
  have hall : ∀ b ∈ m.button .powerOn, b ∈ m.powerBits := by
    cases m <;> decide
  exact hall b h

/-- The checksum stands apart from the fields. -/
theorem crcAt_apart (m : Model) : m.crcAt + 1 < misoSize ∧ m.crcAt ∉ m.fieldOctets ∧
    m.crcAt + 1 ∉ m.fieldOctets := by
  cases m <;> decide

/-- The touch words are fields, and zero in the idle frame. -/
theorem touch_idle (m : Model) : ∀ i ∈ [m.touchAt, m.touchAt + 1, m.touchAt + 2, m.touchAt + 3],
    i ∈ m.fieldOctets ∧ m.idle.byte i = 0 := by
  cases m <;> decide +kernel

/-- So does the touch from the other positions. -/
theorem analog_apart_touch (m : Model) (s : PanelState) : ∀ fd ∈ m.analog s, ∀ b ∈ fd.bits,
    b.1 ∉ [m.touchAt, m.touchAt + 1, m.touchAt + 2, m.touchAt + 3] := by
  have hbits : (m.analog s).map Field.bits = (m.analog .atRest).map Field.bits := by
    cases m <;> rfl
  have hrest : ∀ l ∈ (m.analog .atRest).map Field.bits, ∀ b ∈ l,
      b.1 ∉ [m.touchAt, m.touchAt + 1, m.touchAt + 2, m.touchAt + 3] := by
    cases m <;> decide
  intro fd hfd
  exact hrest _ (hbits ▸ List.mem_map_of_mem hfd)

/-- What writes the analog fields puts each of them in its place; a touch that is not written reads
    as the zeros of the idle frame. -/
theorem write_eq {m : Model} {f : Frame} {s : PanelState}
    (h : ∀ i ∈ [m.touchAt, m.touchAt + 1, m.touchAt + 2, m.touchAt + 3], f.byte i = 0) :
    m.write f s = Field.puts f (m.fields s) := by
  cases ht : s.touch with
  | some p =>
    rw [fields, ht]
    cases m <;> simp only [write, Cdj3k.writeFields, Cdj1500x.writeFields, ht] <;> rfl
  | none =>
    have hwrite : m.write f s = Field.puts f (m.analog s) := by
      cases m <;> simp only [write, Cdj3k.writeFields, Cdj1500x.writeFields, ht] <;> rfl
    have hkept : ∀ i ∈ [m.touchAt, m.touchAt + 1, m.touchAt + 2, m.touchAt + 3],
        (Field.puts f (m.analog s)).byte i = 0 := by
      intro i hi
      rw [Field.byte_puts_of_ne fun fd hfd b hb heq => analog_apart_touch m s fd hfd b hb
        (heq ▸ hi), h i hi]
    have hputs : Field.puts f (m.fields s) =
        ((Field.puts f (m.analog s)).putLe m.touchAt 0).putLe (m.touchAt + 2) 0 := by
      rw [fields, ht, Field.puts, List.foldl_append]
      rfl
    rw [hputs, hwrite, Octets.putLe_zero (hkept _ (by simp)) (hkept _ (by simp)),
      Octets.putLe_zero (hkept _ (by simp)) (hkept _ (by simp))]

/-- The octets of the two touch words. -/
def touchOctets (m : Model) : List Nat := [m.touchAt, m.touchAt + 1, m.touchAt + 2, m.touchAt + 3]

/-- A field reads back from the frame of any state whose bits spare the field's
    octets and the touch words. -/
theorem reads_encode {m : Model} {s : PanelState} {f : Frame} {fd : Field}
    (he : m.encode s = some f) (hfd : fd ∈ m.fields s)
    (htouch : ∀ b ∈ s.pressed ++ s.cleared, b.1 ∉ m.touchOctets)
    (hspared : ∀ b ∈ s.pressed ++ s.cleared, ∀ c ∈ fd.bits, c.1 ≠ b.1) : fd.Reads f := by
  obtain ⟨-, rfl⟩ := encode_eq_some.mp he
  obtain ⟨-, hcrc0, hcrc1⟩ := m.crcAt_apart
  have hzero : ∀ i ∈ m.touchOctets, ((fromIdle m.idle).setBits s.pressed true).byte i = 0 := by
    intro i hi
    rw [Octets.byte_setBits_of_ne true, byte_fromIdle]
    · exact (m.touch_idle i hi).2
    · intro b hb heq
      exact htouch b (List.mem_append_left _ hb) (heq ▸ hi)
  have hputs : fd.Reads (Field.puts ((fromIdle m.idle).setBits s.pressed true) (m.fields s)) :=
    Field.reads_puts (m.fields_fit s) (m.fields_apart s) fd hfd
  refine Field.reads_congr (fun c hc => ?_) hputs
  have hmem := mem_fieldOctets hfd hc
  have hne0 : c.1 ≠ m.crcAt := fun heq => hcrc0 (heq ▸ hmem)
  have hne1 : c.1 ≠ m.crcAt + 1 := fun heq => hcrc1 (heq ▸ hmem)
  have hpower : ∀ b ∈ (if s.power then [] else m.powerBits), c.1 ≠ b.1 := by
    intro b hb heq
    split at hb
    · exact absurd hb List.not_mem_nil
    · exact (powerBits_apart b hb).2.2.1 (heq ▸ hmem)
  rw [byte_stampCrc_of_ne hne0 hne1, body, Octets.byte_setBits_of_ne false hpower,
    Octets.byte_setBits_of_ne false, write_eq hzero]
  intro b hb
  exact hspared b (List.mem_append_right _ hb) c hc

end Model

/-! ## What a frame carries -/

/-- The bits of a state are buttons of the player, and POWER ON is not released. -/
structure PanelState.OwnBits (s : PanelState) (m : Model) : Prop where
  pressed : ∀ b ∈ s.pressed, ∃ btn, m.button btn = some b
  cleared : ∀ b ∈ s.cleared, ∃ btn, btn ≠ .powerOn ∧ m.button btn = some b

namespace PanelState.OwnBits

variable {s : PanelState} {m : Model}

/-- What is pressed lies within the frame, a bit at a time. -/
theorem pressed_fit (h : s.OwnBits m) : ∀ b ∈ s.pressed, b.1 < misoSize ∧ OneBit b.2 := by
  intro b hb
  obtain ⟨btn, hbtn⟩ := h.pressed b hb
  have hcrc := (m.crcAt_apart).1
  obtain ⟨hlt, hone, -⟩ := Model.button_apart hbtn
  exact ⟨by omega, hone⟩

/-- So does what is cleared. -/
theorem cleared_fit (h : s.OwnBits m) : ∀ b ∈ s.cleared, b.1 < misoSize ∧ OneBit b.2 := by
  intro b hb
  obtain ⟨btn, -, hbtn⟩ := h.cleared b hb
  have hcrc := (m.crcAt_apart).1
  obtain ⟨hlt, hone, -⟩ := Model.button_apart hbtn
  exact ⟨by omega, hone⟩

/-- The encoder does not panic. -/
theorem encode_eq (h : s.OwnBits m) :
    m.encode s = some (stampCrc (m.body s) m.crcAt m.crcBigEndian) := by
  refine Model.encode_eq_some.mpr ⟨fun b hb => ?_, rfl⟩
  obtain hb | hb := List.mem_append.mp hb
  · exact (h.pressed_fit b hb).1
  · exact (h.cleared_fit b hb).1

/-- Before the fields are written nothing but the buttons differs from the idle frame. -/
theorem byte_pressed (h : s.OwnBits m) {i : Nat} (hi : ∀ btn b, m.button btn = some b → b.1 ≠ i) :
    (((fromIdle m.idle).setBits s.pressed true).byte i) = m.idle.byte i := by
  rw [Octets.byte_setBits_of_ne true fun b hb heq => ?_, byte_fromIdle]
  obtain ⟨btn, hbtn⟩ := h.pressed b hb
  exact hi btn b hbtn heq.symm

/-- Writing the frame puts its fields into the pressed one. -/
theorem write_eq (h : s.OwnBits m) : m.write ((fromIdle m.idle).setBits s.pressed true) s =
    Field.puts ((fromIdle m.idle).setBits s.pressed true) (m.fields s) := by
  refine Model.write_eq fun i hi => ?_
  obtain ⟨hfield, hzero⟩ := m.touch_idle i hi
  rw [h.byte_pressed fun btn b hb heq => (Model.button_apart hb).2.2 (heq ▸ hfield), hzero]

/-- The released bits and the power flag leave the other octets alone. -/
theorem byte_body (h : s.OwnBits m) {i : Nat} (hi : ∀ btn b, m.button btn = some b → b.1 ≠ i)
    (hpower : ∀ b ∈ m.powerBits, b.1 ≠ i) :
    (m.body s).byte i =
      (Field.puts ((fromIdle m.idle).setBits s.pressed true) (m.fields s)).byte i := by
  have hoff : ∀ b ∈ (if s.power then [] else m.powerBits), i ≠ b.1 := by
    intro b hb heq
    split at hb
    · exact absurd hb List.not_mem_nil
    · exact hpower b hb heq.symm
  rw [Model.body, Octets.byte_setBits_of_ne false hoff,
    Octets.byte_setBits_of_ne false fun b hb heq => ?_, h.write_eq]
  obtain ⟨btn, -, hbtn⟩ := h.cleared b hb
  exact hi btn b hbtn heq.symm

/-- The fields read back. -/
theorem fields_body (h : s.OwnBits m) : ∀ fd ∈ m.fields s, fd.Reads (m.body s) := by
  intro fd hfd
  have hreads : fd.Reads (Field.puts ((fromIdle m.idle).setBits s.pressed true) (m.fields s)) :=
    Field.reads_puts (m.fields_fit s) (m.fields_apart s) fd hfd
  refine Field.reads_congr (fun b hb => ?_) hreads
  have hmem := Model.mem_fieldOctets hfd hb
  exact h.byte_body (fun btn c hc heq => (Model.button_apart hc).2.2 (heq ▸ hmem))
    fun c hc heq => (Model.powerBits_apart c hc).2.2.1 (heq ▸ hmem)

/-- A bit of an octet without fields, at the end of the four steps that write bits. -/
theorem isSet_body (h : s.OwnBits m) {b : FrameBit} (hone : OneBit b.2)
    (hfield : b.1 ∉ m.fieldOctets) :
    (m.body s).isSet b ↔ ((m.idle.isSet b ∨ b ∈ s.pressed) ∧ b ∉ s.cleared) ∧
    (s.power = true ∨ b ∉ m.powerBits) := by
  have hidle : (fromIdle m.idle).isSet b ↔ m.idle.isSet b := by
    rw [Octets.isSet, Octets.isSet, byte_fromIdle]
  have hwrite : (m.write ((fromIdle m.idle).setBits s.pressed true) s).isSet b ↔
      ((fromIdle m.idle).setBits s.pressed true).isSet b := by
    refine Octets.isSet_congr ?_
    rw [h.write_eq, Field.byte_puts_of_ne fun fd hfd c hc heq => ?_]
    exact hfield (heq ▸ Model.mem_fieldOctets hfd hc)
  have hoff : ∀ c ∈ (if s.power then [] else m.powerBits), c.1 < misoSize ∧ OneBit c.2 := by
    intro c hc
    split at hc
    · exact absurd hc List.not_mem_nil
    · exact ⟨(Model.powerBits_apart c hc).1, (Model.powerBits_apart c hc).2.1⟩
  rw [Model.body, Octets.isSet_clearBits hoff hone,
    Octets.isSet_clearBits h.cleared_fit hone, hwrite,
    Octets.isSet_setBits h.pressed_fit hone, hidle]
  cases s.power with
  | true => simp
  | false => simp

end PanelState.OwnBits

/-- What a frame says: the fields, the buttons, and nothing else that the
    idle frame does not say. -/
structure Carries (m : Model) (s : PanelState) (f : Frame) : Prop where
  fields : ∀ fd ∈ m.fields s, fd.Reads f
  buttons : ∀ {btn : Btn} {b : FrameBit}, m.button btn = some b →
    (btn = .powerOn → s.power = true) →
    (f.isSet b ↔ b ∉ s.cleared ∧ (b ∈ s.pressed ∨ m.idle.isSet b))
  powerOff : s.power = false → ∀ b, m.button .powerOn = some b → ¬ f.isSet b
  rest : ∀ i < m.crcAt, i ∉ m.fieldOctets → (∀ btn b, m.button btn = some b → b.1 ≠ i) →
    f.byte i = m.idle.byte i
  crc : crcOf f m.crcAt m.crcBigEndian = crc16X25 (f.front m.crcAt)

/-- The frame of a state carries it. -/
theorem PanelState.OwnBits.carries {s : PanelState} {m : Model} (h : s.OwnBits m) :
    Carries m s (stampCrc (m.body s) m.crcAt m.crcBigEndian) := by
  obtain ⟨hcrc, hcrc0, hcrc1⟩ := m.crcAt_apart
  have hfront : ∀ {i : Nat}, i < m.crcAt →
      (stampCrc (m.body s) m.crcAt m.crcBigEndian).byte i = (m.body s).byte i :=
    fun hi => byte_stampCrc_of_ne (by omega) (by omega)
  refine ⟨fun fd hfd => ?_, fun {btn b} hb hpower => ?_, fun hpower b hb hset => ?_,
    fun i hi hfield hbutton => ?_, crcOf_stampCrc _ hcrc⟩
  · refine Field.reads_congr (fun b hb => ?_) (h.fields_body fd hfd)
    have hmem := Model.mem_fieldOctets hfd hb
    exact byte_stampCrc_of_ne (fun heq => hcrc0 (heq ▸ hmem)) fun heq => hcrc1 (heq ▸ hmem)
  · obtain ⟨hlt, hone, hfield⟩ := Model.button_apart hb
    have hon : s.power = true ∨ b ∉ m.powerBits := by
      by_cases hmem : b ∈ m.powerBits
      · exact .inl (hpower ((Model.powerBits_button hmem).1 btn hb))
      · exact .inr hmem
    rw [Octets.isSet_congr (hfront hlt), h.isSet_body hone hfield, and_iff_left hon, and_comm,
      or_comm]
  · obtain ⟨hlt, hone, hfield⟩ := Model.button_apart hb
    rw [Octets.isSet_congr (hfront hlt), h.isSet_body hone hfield] at hset
    obtain hon | hmem := hset.2
    · rw [hpower] at hon
      nomatch hon
    · exact hmem (Model.powerOn_mem hb)
  · have hpower : ∀ b ∈ m.powerBits, b.1 ≠ i := by
      intro b hb heq
      obtain ⟨btn, c, hc, hci⟩ := (Model.powerBits_button hb).2 (heq ▸ hi)
      exact hbutton btn c hc (hci.trans heq)
    rw [hfront hi, h.byte_body hbutton hpower, Field.byte_puts_of_ne fun fd hfd b hb heq => ?_,
      h.byte_pressed hbutton]
    exact hfield (heq ▸ Model.mem_fieldOctets hfd hb)

end CdjEmu.Panel
