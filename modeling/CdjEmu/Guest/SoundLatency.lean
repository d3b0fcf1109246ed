/-
  THE LATENCY PARAMETER — what `virtio_snd.ko` prints in `audio_latency_ms`, and what `deck_shim.so`
  reads there.

  The driver prints three numbers, and the last one is the latency that the clock and the link
  compensate.  The shim takes the last number of the line, but it reads 15 bytes of the file.
  `read_three` says what it returns: the last number when the whole line fits, and otherwise the one
  before it.

  1. **Program** — the driver's `audio_latency_ms_get` with its sums in 32 and 64 bits and the cap,
     and the shim's `shim_read_sysfs_long` over the 15 octets it reads.

  2. **Specification** — the shim's number is the driver's last.  For a stream that plays
     (`Vpcm.Plays`) the bound on the line's length is said as a bound on the two latencies.

  3. **The crux (`scan` over digits)** — the loop takes a number as soon as it ends, at a separator
     or at the end of the octets; a last number that is cut is not seen as one, and the one before
     it is returned.
-/
import CdjEmu.Guest.SoundDriver
import CdjEmu.Lib.Digits

namespace CdjEmu.Sound.Latency

open Text (decimal isDigit)

/-! ## The driver -/

/-- `AUDIO_LATENCY_MS_MAX`. -/
def audioLatencyMsMax : Nat := 200

/-- What `audio_latency_ms_get` loads under the lock of the stream. -/
structure Vpcm where
  framesInFlight : Int
  rate : Nat
  hostExtraFrames : Nat

namespace Vpcm

def guestMs (p : Vpcm) : Nat :=
  if p.rate > 0 ∧ p.framesInFlight > 0 then (p.framesInFlight * 1000 / p.rate).toNat % 2 ^ 32 else 0

def hostMs (p : Vpcm) : Nat :=
  if p.rate > 0 then p.hostExtraFrames * 1000 / p.rate % 2 ^ 32 else 0

/-- The sum, which wraps, and then the cap. -/
def ms (p : Vpcm) : Nat :=
  if (p.guestMs + p.hostMs) % 2 ^ 32 > audioLatencyMsMax then audioLatencyMsMax else
    (p.guestMs + p.hostMs) % 2 ^ 32

end Vpcm

/-- `"%u\n"`. -/
def line (n : Nat) : Bytes := decimal n ++ [10]

/-- `"%u,%u,%u\n"`. -/
def three (g h t : Nat) : Bytes := decimal g ++ 44 :: (decimal h ++ 44 :: line t)

/-- `audio_latency_ms_get`; without a device or a stream it prints a zero. -/
def audioLatencyMsGet : Option Vpcm → Bytes
  | none => line 0
  | some p => three p.guestMs p.hostMs p.ms

/-! ## The shim -/

/-- The loop of `shim_read_sysfs_long`. -/
def scan : Bytes → (v : Int) → (cur : Nat) → (inNum : Bool) → Int
  | [], v, _, _ => v
  | c :: s, v, cur, inNum =>
    if 48 ≤ c ∧ c ≤ 57 then scan s v (cur * 10 + (c.toNat - 48)) true
    else if c = 44 ∨ c = 32 then
      if inNum then scan s cur 0 false else scan s v cur inNum
    else if c = 10 ∨ c = 0 then
      if inNum then cur else v
    else -1

/-- `sizeof(buf) - 1`. -/
def bufBytes : Nat := 15

/-- `shim_read_sysfs_long`; `none` is a file that cannot be opened. -/
def shimReadSysfsLong : Option Bytes → Int
  | none => -1
  | some file =>
    let buf := file.take bufBytes
    if buf = [] then -1 else scan buf (-1) 0 false

/-! ## What the scan makes of digits -/

theorem scan_cons_digit {c : UInt8} (hc : isDigit c = true) (s : Bytes) (v : Int) (cur : Nat)
    (b : Bool) :
    scan (c :: s) v cur b = scan s v (10 * cur + (c.toNat - 48)) true := by
  have hc : 48 ≤ c ∧ c ≤ 57 := by simpa [isDigit] using hc
  rw [scan, if_pos hc, Nat.mul_comm]

/-- Digits are gathered in `cur`. -/
theorem scan_digits {d : Bytes} (hd : ∀ c ∈ d, isDigit c = true) (s : Bytes) (v : Int) :
    ∀ (cur : Nat) (b : Bool),
      scan (d ++ s) v cur b = scan s v (d.foldl (fun n c => 10 * n + (c.toNat - 48)) cur)
        (b || !d.isEmpty) := by
  induction d with
  | nil => simp
  | cons c d ih =>
    intro cur b
    rw [List.cons_append, scan_cons_digit (hd c List.mem_cons_self), ih fun e he =>
      hd e (List.mem_cons_of_mem _ he)]
    simp

theorem scan_decimal (n : Nat) (s : Bytes) (v : Int) :
    scan (decimal n ++ s) v 0 false = scan s v n true := by
  have hne : (decimal n).isEmpty = false := by
    rw [List.isEmpty_eq_false_iff]
    exact Text.decimal_ne_nil n
  rw [scan_digits (fun c hc => Text.isDigit_of_mem_decimal hc) s v, hne]
  exact congrArg (scan s v · true) (Text.value_decimal n)

/-- Digits that nothing follows are lost. -/
theorem scan_cut {d : Bytes} (hd : ∀ c ∈ d, isDigit c = true) (v : Int) (cur : Nat) (b : Bool) :
    scan d v cur b = v := by
  have := scan_digits hd [] v cur b
  rwa [List.append_nil] at this

theorem scan_line (n : Nat) (v : Int) : scan (line n) v 0 false = n := by
  rw [line, scan_decimal]
  rfl

theorem scan_comma (n : Nat) (s : Bytes) (v : Int) :
    scan (decimal n ++ 44 :: s) v 0 false = scan s n 0 false := by
  rw [scan_decimal]
  rfl

/-- A line whose end is cut off does not count. -/
theorem scan_take_line (n k : Nat) (v : Int) :
    scan ((line n).take k) v 0 false = if (decimal n).length < k then (n : Int) else v := by
  split
  · rename_i hk
    rw [List.take_of_length_le (by rw [line, List.length_append, List.length_singleton]; omega),
      scan_line]
  · rename_i hk
    rw [line, List.take_append_of_le_length (by omega)]
    exact scan_cut (fun c hc => Text.isDigit_of_mem_decimal (List.mem_of_mem_take hc)) v 0 false

/-- A number and its comma, of which nothing is cut off. -/
theorem take_comma {n k : Nat} (s : Bytes) (h : (decimal n).length < k) :
    (decimal n ++ 44 :: s).take k = decimal n ++ 44 :: s.take (k - (decimal n).length - 1) := by
  rw [List.take_append, List.take_of_length_le (by omega)]
  congr 1
  obtain ⟨j, hj⟩ : ∃ j, k - (decimal n).length = j + 1 := ⟨k - (decimal n).length - 1, by omega⟩
  rw [hj, List.take_succ_cons, Nat.add_sub_cancel]

theorem scan_take_comma {n k : Nat} (s : Bytes) (v : Int) (h : (decimal n).length < k) :
    scan ((decimal n ++ 44 :: s).take k) v 0 false = scan (s.take (k - (decimal n).length - 1)) n 0
      false := by
  rw [take_comma s h, scan_comma]

/-- The shim returns the last number of the line, or the one before it. -/
theorem read_three {g h : Nat} (t : Nat) (hfit : (decimal g).length + (decimal h).length ≤ 13) :
    shimReadSysfsLong (some (three g h t)) =
      if (decimal g).length + (decimal h).length + (decimal t).length < 13 then (t : Int)
      else h := by
  have hN : bufBytes = 15 := rfl
  have hne : (three g h t).take bufBytes ≠ [] := by
    intro hnil
    have hlen := congrArg List.length hnil
    rw [three, List.length_take, List.length_append, List.length_cons, List.length_nil] at hlen
    omega
  rw [shimReadSysfsLong, if_neg hne, three, scan_take_comma _ _ (by omega),
    scan_take_comma _ _ (by omega), scan_take_line]
  have hiff : (decimal t).length < bufBytes - (decimal g).length - 1 - (decimal h).length - 1 ↔
      (decimal g).length + (decimal h).length + (decimal t).length < 13 := by omega
  rw [if_congr hiff rfl rfl]

theorem read_line {n : Nat} (h : n < 2 ^ 32) : shimReadSysfsLong (some (line n)) = n := by
  have hlen : (decimal n).length ≤ 10 := (Text.length_decimal_le (by decide)).mpr (by omega)
  have hN : bufBytes = 15 := rfl
  have hne : (line n).take bufBytes ≠ [] := by
    intro hnil
    have hlen := congrArg List.length hnil
    rw [line, List.length_take, List.length_append, List.length_singleton, List.length_nil] at hlen
    omega
  rw [shimReadSysfsLong, if_neg hne, scan_take_line, if_pos (by omega)]

/-! ## How large the latencies are -/

/-- The stream within what the driver has buffers for, at a rate that it offers. -/
structure Vpcm.Plays (p : Vpcm) : Prop where
  frames : 0 ≤ p.framesInFlight ∧ p.framesInFlight ≤ txBufs * 1024
  rate : p.rate ∈ [44100, 48000, 96000]
  extra : p.hostExtraFrames < 2 ^ 32

namespace Vpcm.Plays

variable {p : Vpcm}

theorem guestMs_eq (h : p.Plays) : p.guestMs = (p.framesInFlight * 1000 / p.rate).toNat := by
  obtain ⟨hlo, hhi⟩ := h.frames
  have hbufs : txBufs = 32 := rfl
  have hrate := h.rate
  simp only [List.mem_cons, List.not_mem_nil, or_false] at hrate
  unfold guestMs
  by_cases hflight : p.framesInFlight > 0
  · obtain hr | hr | hr := hrate <;> rw [hr, if_pos ⟨by decide, hflight⟩] <;> omega
  · have hzero : p.framesInFlight = 0 := by omega
    rw [if_neg fun hpos => hflight hpos.2, hzero]
    simp

theorem hostMs_eq (h : p.Plays) : p.hostMs = p.hostExtraFrames * 1000 / p.rate := by
  have hextra := h.extra
  have hrate := h.rate
  simp only [List.mem_cons, List.not_mem_nil, or_false] at hrate
  unfold hostMs
  obtain hr | hr | hr := hrate <;> rw [hr, if_pos (by decide)] <;> omega

/-- The guest's part has three digits at most. -/
theorem guestMs_lt (h : p.Plays) :
    p.guestMs < 1000 ∧ (p.guestMs < 10 ↔ 100 * p.framesInFlight < p.rate) ∧
      (p.guestMs < 100 ↔ 10 * p.framesInFlight < p.rate) := by
  rw [h.guestMs_eq]
  obtain ⟨hlo, hhi⟩ := h.frames
  have hbufs : txBufs = 32 := rfl
  have hrate := h.rate
  simp only [List.mem_cons, List.not_mem_nil, or_false] at hrate
  obtain hr | hr | hr := hrate <;> rw [hr] <;> omega

/-- The host's part may have eight. -/
theorem hostMs_lt (h : p.Plays) :
    p.hostMs < 10 ^ 8 ∧ (p.hostMs < 10 ^ 6 ↔ p.hostExtraFrames < 1000 * p.rate) ∧
      (p.hostMs < 10 ^ 7 ↔ p.hostExtraFrames < 10000 * p.rate) := by
  rw [h.hostMs_eq]
  have hextra := h.extra
  have hrate := h.rate
  simp only [List.mem_cons, List.not_mem_nil, or_false] at hrate
  obtain hr | hr | hr := hrate <;> rw [hr] <;> omega

theorem ms_eq (h : p.Plays) : p.ms = min (p.guestMs + p.hostMs) audioLatencyMsMax := by
  have hguest := h.guestMs_lt.1
  have hhost := h.hostMs_lt.1
  have hmax : audioLatencyMsMax = 200 := rfl
  unfold ms
  split
  · omega
  · omega

end Vpcm.Plays

/-! ## What is read is what was printed -/

/-- The shim reads the latency that the driver prints exactly when the line is short enough: the
    guest's and the host's part have nine digits at most. -/
theorem latency_read {p : Vpcm} (h : p.Plays) :
    (shimReadSysfsLong (some (audioLatencyMsGet (some p))) =
      (min (p.guestMs + p.hostMs) audioLatencyMsMax : Nat) ↔
      p.hostExtraFrames < 1000 * p.rate ∨ p.hostExtraFrames < 10000 * p.rate ∧
      10 * p.framesInFlight < p.rate ∨
        100 * p.framesInFlight < p.rate) ∧
      ∀ v < 2 ^ 32, shimReadSysfsLong (some (line v)) = (v : Nat) := by
  refine ⟨?_, fun v hv => read_line hv⟩
  obtain ⟨hguest, hguest1, hguest2⟩ := h.guestMs_lt
  obtain ⟨hhost, hhost6, hhost7⟩ := h.hostMs_lt
  have hmax : audioLatencyMsMax = 200 := rfl
  have hms := h.ms_eq
  rw [← hguest1, ← hguest2, ← hhost6, ← hhost7, ← hms]
  have hg1 : (decimal p.guestMs).length ≤ 1 ↔ p.guestMs < 10 ^ 1 :=
    Text.length_decimal_le (by decide)
  have hg2 : (decimal p.guestMs).length ≤ 2 ↔ p.guestMs < 10 ^ 2 :=
    Text.length_decimal_le (by decide)
  have hg3 : (decimal p.guestMs).length ≤ 3 ↔ p.guestMs < 10 ^ 3 :=
    Text.length_decimal_le (by decide)
  have hh6 : (decimal p.hostMs).length ≤ 6 ↔ p.hostMs < 10 ^ 6 := Text.length_decimal_le (by decide)
  have hh7 : (decimal p.hostMs).length ≤ 7 ↔ p.hostMs < 10 ^ 7 := Text.length_decimal_le (by decide)
  have hh8 : (decimal p.hostMs).length ≤ 8 ↔ p.hostMs < 10 ^ 8 := Text.length_decimal_le (by decide)
  have ht2 : (decimal p.ms).length ≤ 2 ↔ p.ms < 10 ^ 2 := Text.length_decimal_le (by decide)
  have ht3 : (decimal p.ms).length ≤ 3 ↔ p.ms < 10 ^ 3 := Text.length_decimal_le (by decide)
  have hpos : 0 < (decimal p.guestMs).length := List.length_pos_iff.mpr (Text.decimal_ne_nil _)
  rw [audioLatencyMsGet, read_three _ (by omega)]
  split
  · rename_i hfits
    refine iff_of_true rfl ?_
    omega
  · rename_i hcut
    refine iff_of_false ?_ ?_
    · omega
    · omega

theorem ten_seconds_read :
    shimReadSysfsLong (some (audioLatencyMsGet (some ⟨1024, 44100, 441000⟩))) = 200 ∧
      ∀ v < 2 ^ 32, shimReadSysfsLong (some (line v)) = (v : Nat) := by
  have h : Vpcm.Plays ⟨1024, 44100, 441000⟩ := ⟨by decide, by decide, by decide⟩
  obtain ⟨hread, hline⟩ := latency_read h
  exact ⟨(hread.mpr (.inl (by decide))).trans (by decide), hline⟩

/-- The line is `743,97391548,200`, and the shim reads 97391548. -/
theorem long_line_cut :
    ¬ ∀ p : Vpcm, p.Plays →
      shimReadSysfsLong (some (audioLatencyMsGet (some p))) =
        (min (p.guestMs + p.hostMs) audioLatencyMsMax : Nat) := by
  intro h
  have hread := h ⟨32768, 44100, 4294967295⟩ ⟨by decide, by decide, by decide⟩
  exact absurd hread (by decide)

end CdjEmu.Sound.Latency
