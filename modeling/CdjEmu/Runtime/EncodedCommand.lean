/-
  THE ENCODED COMMAND — a script as a word of the command line that runs it.

  `powershell_command` writes the script as base64 of UTF-16LE, after a last space.  `base64`
  encodes three bytes at a time (`encodeChunk`); a chunk of one or two bytes is filled up with `=`.

  A decoder of base64 gives the bytes back, whatever their number (`decode64_base64`); with the one
  of UTF-16 what stands after the command's last space gives the script back, for every script
  (`decode_powershellCommand`).
-/
import CdjEmu.Lib.Split
import CdjEmu.Lib.Utf16

namespace CdjEmu.Elevate

open Chars

def alphabet : Chars := chars "ABCDEFGHIJKLMNOPQRSTUVWXYZabcdefghijklmnopqrstuvwxyz0123456789+/"

/-- The bytes of a chunk as one number, the first byte on top. -/
def chunkNumber (chunk : List UInt8) : Nat :=
  chunk.zipIdx.foldl (fun acc (b, i) => acc ||| b.toNat <<< (16 - 8 * i)) 0

/-- The four characters of a chunk. -/
def encodeChunk (chunk : List UInt8) : Chars :=
  (List.range 4).map fun i =>
    if i ≤ chunk.length then alphabet.getD (chunkNumber chunk >>> (18 - 6 * i) &&& 63) '=' else '='

def base64 : List UInt8 → Chars
  | [] => []
  | [a] => encodeChunk [a]
  | [a, b] => encodeChunk [a, b]
  | a :: b :: c :: bytes => encodeChunk [a, b, c] ++ base64 bytes

def powershellCommand (script : Chars) : Chars :=
  chars "powershell.exe -NoProfile -NonInteractive -ExecutionPolicy Bypass -EncodedCommand " ++
    base64 (Utf16.encodeLe script)

/-! ## Decoding -/

def digit64 (c : Char) : Option Nat := alphabet.idxOf? c

/-- The bytes of a base64 text; `none` where it is not one. -/
def decode64 : Chars → Option (List UInt8)
  | [] => some []
  | c0 :: c1 :: c2 :: c3 :: rest => do
    let d0 ← digit64 c0
    let d1 ← digit64 c1
    let first := UInt8.ofNat (d0 * 4 + d1 / 16)
    if c2 = '=' ∧ c3 = '=' ∧ rest = [] then return [first]
    let d2 ← digit64 c2
    let second := UInt8.ofNat (d1 % 16 * 16 + d2 / 4)
    if c3 = '=' ∧ rest = [] then return [first, second]
    let d3 ← digit64 c3
    return first :: second :: UInt8.ofNat (d2 % 4 * 64 + d3) :: (← decode64 rest)
  | _ => none

/-- What stands after the last space. -/
def lastWord (s : Chars) : Chars := (s.splitOn ' ').getLastD []

/-! ## The alphabet -/

/-- The character of a digit. -/
def char64 (d : Nat) : Char := alphabet.getD d '='

theorem digit64_char64 : ∀ d < 64, digit64 (char64 d) = some d := by
  decide

theorem char64_ne : ∀ d < 64, char64 d ≠ '=' ∧ char64 d ≠ ' ' := by
  decide +kernel

/-! ## The chunks -/

section

variable (a b c : UInt8)

theorem chunkNumber_one : chunkNumber [a] = a.toNat * 65536 := by
  show 0 ||| a.toNat <<< 16 = _
  rw [Nat.zero_or, Nat.shiftLeft_eq]

theorem chunkNumber_two : chunkNumber [a, b] = a.toNat * 65536 + b.toNat * 256 := by
  have hb := b.toNat_lt
  show chunkNumber [a] ||| b.toNat <<< 8 = _
  have hsplit : a.toNat * 65536 = 2 ^ 16 * a.toNat := by
    omega
  rw [chunkNumber_one, Nat.shiftLeft_eq, hsplit, ← Nat.two_pow_add_eq_or_of_lt (by omega)]

theorem chunkNumber_three : chunkNumber [a, b, c] = a.toNat * 65536 + b.toNat * 256 + c.toNat := by
  have hc := c.toNat_lt
  show chunkNumber [a, b] ||| c.toNat <<< 0 = _
  have hsplit : a.toNat * 65536 + b.toNat * 256 = 2 ^ 8 * (a.toNat * 256 + b.toNat) := by
    omega
  rw [chunkNumber_two, Nat.shiftLeft_zero, hsplit, ← Nat.two_pow_add_eq_or_of_lt hc]

end

/-- Six bits of a number. -/
theorem sixBits (n k : Nat) : n >>> k &&& 63 = n / 2 ^ k % 64 := by
  rw [Nat.shiftRight_eq_div_pow]
  exact Nat.and_two_pow_sub_one_eq_mod _ 6

/-- The digits of a full chunk. -/
theorem encodeChunk_three (a b c : UInt8) :
    encodeChunk [a, b, c] =
      [char64 (a.toNat / 4), char64 (a.toNat % 4 * 16 + b.toNat / 16),
        char64 (b.toNat % 16 * 4 + c.toNat / 64), char64 (c.toNat % 64)] := by
  have ha := a.toNat_lt
  have hb := b.toNat_lt
  have hc := c.toNat_lt
  show [char64 (chunkNumber [a, b, c] >>> 18 &&& 63), char64 (chunkNumber [a, b, c] >>> 12 &&& 63),
    char64 (chunkNumber [a, b, c] >>> 6 &&& 63), char64 (chunkNumber [a, b, c] >>> 0 &&& 63)] = _
  rw [sixBits, sixBits, sixBits, sixBits, chunkNumber_three]
  have h0 : (a.toNat * 65536 + b.toNat * 256 + c.toNat) / 2 ^ 18 % 64 = a.toNat / 4 := by omega
  have h1 : (a.toNat * 65536 + b.toNat * 256 + c.toNat) / 2 ^ 12 % 64 = a.toNat % 4 * 16 +
      b.toNat / 16 := by omega
  have h2 : (a.toNat * 65536 + b.toNat * 256 + c.toNat) / 2 ^ 6 % 64 = b.toNat % 16 * 4 +
      c.toNat / 64 := by omega
  have h3 : (a.toNat * 65536 + b.toNat * 256 + c.toNat) / 2 ^ 0 % 64 = c.toNat % 64 := by omega
  rw [h0, h1, h2, h3]

theorem encodeChunk_two (a b : UInt8) :
    encodeChunk [a, b] =
      [char64 (a.toNat / 4), char64 (a.toNat % 4 * 16 + b.toNat / 16), char64 (b.toNat % 16 * 4),
        '='] := by
  have ha := a.toNat_lt
  have hb := b.toNat_lt
  show [char64 (chunkNumber [a, b] >>> 18 &&& 63), char64 (chunkNumber [a, b] >>> 12 &&& 63),
    char64 (chunkNumber [a, b] >>> 6 &&& 63), '='] = _
  rw [sixBits, sixBits, sixBits, chunkNumber_two]
  have h0 : (a.toNat * 65536 + b.toNat * 256) / 2 ^ 18 % 64 = a.toNat / 4 := by omega
  have h1 : (a.toNat * 65536 + b.toNat * 256) / 2 ^ 12 % 64 = a.toNat % 4 * 16 + b.toNat / 16 := by
    omega
  have h2 : (a.toNat * 65536 + b.toNat * 256) / 2 ^ 6 % 64 = b.toNat % 16 * 4 := by omega
  rw [h0, h1, h2]

theorem encodeChunk_one (a : UInt8) :
    encodeChunk [a] = [char64 (a.toNat / 4), char64 (a.toNat % 4 * 16), '=', '='] := by
  have ha := a.toNat_lt
  show [char64 (chunkNumber [a] >>> 18 &&& 63), char64 (chunkNumber [a] >>> 12 &&& 63), '=', '='] =
      _
  rw [sixBits, sixBits, chunkNumber_one]
  have h0 : a.toNat * 65536 / 2 ^ 18 % 64 = a.toNat / 4 := by omega
  have h1 : a.toNat * 65536 / 2 ^ 12 % 64 = a.toNat % 4 * 16 := by omega
  rw [h0, h1]

/-! ## Reading the chunks back -/

section

variable {d0 d1 d2 d3 : Nat}

theorem decode64_one (h0 : d0 < 64) (h1 : d1 < 64) :
    decode64 [char64 d0, char64 d1, '=', '='] = some [UInt8.ofNat (d0 * 4 + d1 / 16)] := by
  rw [decode64, digit64_char64 d0 h0, digit64_char64 d1 h1]
  rfl

theorem decode64_two (h0 : d0 < 64) (h1 : d1 < 64) (h2 : d2 < 64) :
    decode64 [char64 d0, char64 d1, char64 d2, '='] =
      some [UInt8.ofNat (d0 * 4 + d1 / 16), UInt8.ofNat (d1 % 16 * 16 + d2 / 4)] := by
  rw [decode64, digit64_char64 d0 h0, digit64_char64 d1 h1, digit64_char64 d2 h2]
  simp [(char64_ne d2 h2).1]

theorem decode64_three (h0 : d0 < 64) (h1 : d1 < 64) (h2 : d2 < 64) (h3 : d3 < 64) (rest : Chars) :
    decode64 (char64 d0 :: char64 d1 :: char64 d2 :: char64 d3 :: rest) =
      (decode64 rest).map ([UInt8.ofNat (d0 * 4 + d1 / 16), UInt8.ofNat (d1 % 16 * 16 + d2 / 4),
        UInt8.ofNat (d2 % 4 * 64 + d3)] ++ ·) := by
  rw [decode64, digit64_char64 d0 h0, digit64_char64 d1 h1, digit64_char64 d2 h2,
    digit64_char64 d3 h3]
  simp only [(char64_ne d3 h3).1, false_and, and_false, if_false, Option.bind_eq_bind,
    Option.bind_some]
  rcases decode64 rest with _ | bytes
  · rfl
  · rfl

end

theorem ofNat_eq {n : Nat} {a : UInt8} (h : n = a.toNat) : UInt8.ofNat n = a := by
  rw [h, UInt8.ofNat_toNat]

/-- The decoder gives the bytes back, whatever their number. -/
theorem decode64_base64 (b : List UInt8) : decode64 (base64 b) = some b := by
  fun_induction base64 b with
  | case1 => rfl
  | case2 a =>
    have ha := a.toNat_lt
    rw [encodeChunk_one, decode64_one (by omega) (by omega), ofNat_eq (a := a) (by omega)]
  | case3 a b =>
    have ha := a.toNat_lt
    have hb := b.toNat_lt
    rw [encodeChunk_two, decode64_two (by omega) (by omega) (by omega),
      ofNat_eq (a := a) (by omega), ofNat_eq (a := b) (by omega)]
  | case4 a b c bytes ih =>
    have ha := a.toNat_lt
    have hb := b.toNat_lt
    have hc := c.toNat_lt
    show decode64 (encodeChunk [a, b, c] ++ base64 bytes) = _
    rw [encodeChunk_three, List.cons_append, List.cons_append, List.cons_append, List.cons_append,
      List.nil_append, decode64_three (by omega) (by omega) (by omega) (by omega), ih,
      ofNat_eq (a := a) (by omega),
      ofNat_eq (a := b) (by omega), ofNat_eq (a := c) (by omega)]
    rfl

/-! ## The command -/

/-- A base64 text has no spaces. -/
theorem notMem_base64 (b : List UInt8) : ' ' ∉ base64 b := by
  fun_induction base64 b with
  | case1 => exact List.not_mem_nil
  | case2 a =>
    have ha := a.toNat_lt
    rw [encodeChunk_one]
    simp [(char64_ne (a.toNat / 4) (by omega)).2.symm,
      (char64_ne (a.toNat % 4 * 16) (by omega)).2.symm]
  | case3 a b =>
    have ha := a.toNat_lt
    have hb := b.toNat_lt
    rw [encodeChunk_two]
    simp [(char64_ne (a.toNat / 4) (by omega)).2.symm,
      (char64_ne (a.toNat % 4 * 16 + b.toNat / 16) (by omega)).2.symm,
      (char64_ne (b.toNat % 16 * 4) (by omega)).2.symm]
  | case4 a b c bytes ih =>
    have ha := a.toNat_lt
    have hb := b.toNat_lt
    have hc := c.toNat_lt
    rw [encodeChunk_three]
    simp [(char64_ne (a.toNat / 4) (by omega)).2.symm,
      (char64_ne (a.toNat % 4 * 16 + b.toNat / 16) (by omega)).2.symm,
      (char64_ne (b.toNat % 16 * 4 + c.toNat / 64) (by omega)).2.symm,
      (char64_ne (c.toNat % 64) (by omega)).2.symm, ih]

theorem lastWord_append {w : Chars} (h : ' ' ∉ w) (s : Chars) : lastWord (s ++ ' ' :: w) = w := by
  unfold lastWord
  rw [splitOn_append_sep, splitOn_of_notMem h, List.getLastD_concat]

/-- What stands after the command's last space gives the script back. -/
theorem decode_powershellCommand (script : Chars) :
    (decode64 (lastWord (powershellCommand script))).bind Utf16.decodeLe = some script := by
  have hword : lastWord (powershellCommand script) = base64 (Utf16.encodeLe script) := by
    have hspace :
        chars "powershell.exe -NoProfile -NonInteractive -ExecutionPolicy Bypass -EncodedCommand " =
        chars "powershell.exe -NoProfile -NonInteractive -ExecutionPolicy Bypass -EncodedCommand" ++
          [' '] := by
      decide
    unfold powershellCommand
    rw [hspace, List.append_assoc]
    exact lastWord_append (notMem_base64 _) _
  rw [hword, decode64_base64]
  exact Utf16.decodeLe_encodeLe script

end CdjEmu.Elevate
