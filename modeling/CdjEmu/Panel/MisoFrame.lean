/-
  THE CONTROL FRAME — the 64 octets in which the host tells the player what its panel is doing.

  `PanelState` is in no player's coordinates except for its button bits.  `tempo`, `pulses` and
  `period` stand for the words that the encoders compute with floats from the fader's travel and the
  platter's motion.

  A bit off the frame makes an encoder panic; it then has no frame.
-/
import CdjEmu.Lib.Octets

namespace CdjEmu.Panel

/-- `MISO_SIZE`. -/
def misoSize : Nat := 64

abbrev Frame := Octets misoSize

/-- An octet and a mask. -/
abbrev FrameBit := Nat × UInt8

inductive Direction where
  | reverse
  | slipReverse
  | forward
  deriving DecidableEq

def Direction.asByte : Direction → UInt8
  | reverse => 1
  | slipReverse => 2
  | forward => 3

structure JogState where
  pos : UInt16
  vel : UInt16
  touch : UInt8
  /-- The platter's travel in encoder pulses. -/
  pulses : UInt16
  /-- The time between two pulses. -/
  period : UInt16
  /-- Whether the platter turns forward, `rps > 0`. -/
  forward : Bool
  touched : Bool
  deriving DecidableEq

structure PanelState where
  pressed : List FrameBit
  cleared : List FrameBit
  tempo : UInt16
  jog : JogState
  rotary : UInt16
  beatLoop : UInt16
  direction : Direction
  vinyl : UInt8
  touch : Option (UInt16 × UInt16)
  power : Bool
  deriving DecidableEq

/-- `PanelState::at_rest`, with the tempo word of the centre. -/
def PanelState.atRest : PanelState where
  pressed := []
  cleared := []
  tempo := 0x7F50
  jog := ⟨0, 0xffff, 0x00, 0, 0xFFFF, false, false⟩
  rotary := 0xffff
  beatLoop := 0
  direction := .forward
  vinyl := 0
  touch := none
  power := true

/-! ## The checksum -/

/-- One bit of `crc16_x25`. -/
def crcBit (crc : UInt16) : UInt16 := if crc &&& 1 ≠ 0 then (crc >>> 1) ^^^ 0x8408 else crc >>> 1

/-- `crc16_x25`, which the host and `subucom_virt.ko` compute alike. -/
def crc16X25 (data : Bytes) : UInt16 :=
  data.foldl (fun crc b => crcBit^[8] (crc ^^^ b.toUInt16)) 0xFFFF ^^^ 0xFFFF

/-! ## The pieces that the encoders share -/

/-- `from_idle`. -/
def fromIdle (idle : Octets 62) : Frame := Vector.ofFn fun i => idle.byte i

def setBit (f : Frame) (bit : FrameBit) (on : Bool) : Option Frame :=
  if bit.1 < misoSize then some (f.setBit bit on) else none

def press (f : Frame) (s : PanelState) : Option Frame :=
  s.pressed.foldlM (fun f bit => setBit f bit true) f

def clear (f : Frame) (s : PanelState) : Option Frame :=
  s.cleared.foldlM (fun f bit => setBit f bit false) f

/-- `stamp_crc`. -/
def stampCrc (f : Frame) (i : Nat) (bigEndian : Bool) : Frame :=
  if bigEndian then f.putBe i (crc16X25 (f.front i)) else f.putLe i (crc16X25 (f.front i))

/-! ## What they do -/

theorem byte_fromIdle (idle : Octets 62) (i : Nat) : (fromIdle idle).byte i = idle.byte i := by
  by_cases hi : i < misoSize
  · rw [Octets.byte_of_lt hi, fromIdle, Vector.getElem_ofFn]
  · have hsize : misoSize = 64 := rfl
    rw [Octets.byte_of_ge (by omega), Octets.byte_of_ge (by omega)]

theorem foldlM_setBit {on : Bool} {l : List FrameBit} {f g : Frame} :
    l.foldlM (fun f bit => setBit f bit on) f = some g ↔ (∀ b ∈ l, b.1 < misoSize) ∧
    f.setBits l on = g := by
  induction l generalizing f with
  | nil => simp [Octets.setBits]
  | cons b l ih =>
    rw [List.foldlM_cons, setBit]
    by_cases hb : b.1 < misoSize
    · rw [if_pos hb, Option.bind_eq_bind, Option.bind_some, ih]
      simp [hb, Octets.setBits]
    · rw [if_neg hb]
      simp [hb]

theorem press_eq_some {f g : Frame} {s : PanelState} :
    press f s = some g ↔ (∀ b ∈ s.pressed, b.1 < misoSize) ∧ f.setBits s.pressed true = g :=
  foldlM_setBit

theorem clear_eq_some {f g : Frame} {s : PanelState} :
    clear f s = some g ↔ (∀ b ∈ s.cleared, b.1 < misoSize) ∧ f.setBits s.cleared false = g :=
  foldlM_setBit

theorem byte_stampCrc_of_ne {f : Frame} {i j : Nat} {bigEndian : Bool} (h0 : j ≠ i)
    (h1 : j ≠ i + 1) :
    (stampCrc f i bigEndian).byte j = f.byte j := by
  unfold stampCrc
  split
  · exact Octets.byte_putBe_of_ne _ h0 h1
  · exact Octets.byte_putLe_of_ne _ h0 h1

theorem front_stampCrc (f : Frame) (i : Nat) (bigEndian : Bool) :
    (stampCrc f i bigEndian).front i = f.front i :=
  Octets.front_congr fun _ hj => byte_stampCrc_of_ne (by omega) (by omega)

/-- The checksum as it stands in the frame. -/
def crcOf (f : Frame) (i : Nat) (bigEndian : Bool) : UInt16 :=
  if bigEndian then f.wordBe i else f.wordLe i

theorem crcOf_stampCrc {f : Frame} {i : Nat} (bigEndian : Bool) (h : i + 1 < misoSize) :
    crcOf (stampCrc f i bigEndian) i bigEndian = crc16X25 ((stampCrc f i bigEndian).front i) := by
  rw [front_stampCrc]
  cases bigEndian with
  | false => exact Octets.wordLe_putLe h _
  | true => exact Octets.wordBe_putBe h _

/-- A frame with its checksum is not changed by a second stamp. -/
theorem stampCrc_of_crc {f : Frame} {i : Nat} {bigEndian : Bool}
    (h : crcOf f i bigEndian = crc16X25 (f.front i)) :
    stampCrc f i bigEndian = f := by
  rw [stampCrc, ← h]
  cases bigEndian with
  | false => exact Octets.putLe_wordLe i
  | true => exact Octets.putBe_wordBe i

end CdjEmu.Panel
