/-
  THE MIDI DRIVER'S PARSER — what `slot_parse` makes of a guest's octets, read by read.

  A read ends anywhere: inside a message, between the octets of a SysEx, in the middle of running
  status.  Six fields of the slot carry over to the next read; the SysEx buffer and the packet list
  do not.

  * `Agrees` says which fields stand for which mode of the reference machine.  A status in force
    with no data is two states of the slot: right behind the status octet it is in `msg`, and behind
    a whole message only in `rs`.
  * `Inv` follows a read: what has been handed on or is still in the buffer is what the machine has
    contributed.
  * The list cannot fill up.  An octet costs 12 at most, but for the one that completes a message
    begun in an earlier read: that one costs 16.  So a data octet that is held is counted 4 in
    advance (`Inv.size`).

  `packets_of_reads` puts the reads together: whatever the reads are, the packets carry what the
  stream says.

  The reference machine is `Lib/Midi`, the parser of the MIDI standard: real-time octets anywhere,
  running status, SysEx with any end.  What it contributes to a stream is a list of messages; the
  driver's packets carry the same messages in CoreMIDI's form, with long SysEx cut into pieces, and
  the list of packets has room for whatever a read of that size can complete.
-/
import CdjEmu.Lib.Midi

namespace CdjEmu.MidiDriver

open Midi

/-- The octets read at a time. -/
def READ_CHUNK : Nat := 256

/-- The room for the packets of one read. -/
def PARSE_LIST_BYTES : Nat := 4096

/-- What a packet of `n` octets takes in a list. -/
def packetBytes (n : Nat) : Nat := (10 + n + 3) / 4 * 4

/-- What a list of packets takes. -/
def listBytes (ps : List Bytes) : Nat := 4 + (ps.map fun p => packetBytes p.length).sum

/-- `MIDIPacketListAdd`: a packet is appended whenever it fits; when it does not,
    nothing else is promised. -/
structure CoreMidi where
  packetListAdd : (cap : Nat) → List Bytes → Bytes → Option (List Bytes)
  appends : ∀ cap ps b, listBytes (ps ++ [b]) ≤ cap → packetListAdd cap ps b = some (ps ++ [b])

/-- The parser's fields of a slot; `held` is the source's `have`. -/
structure Slot where
  rs : UInt8
  msg : Vector UInt8 3
  held : Nat
  need : Nat
  inSx : Bool

/-- Detach a slot. -/
def slotDetach (sl : Slot) : Slot :=
  { rs := 0, msg := sl.msg.set 0 0, held := 0, need := 0, inSx := false }

/-- The number of data octets that follow a status. -/
def dataLen (status : UInt8) : Nat :=
  if status &&& 0xf0 = 0xc0 ∨ status &&& 0xf0 = 0xd0 then 1
  else if status &&& 0xf0 = 0xf0 then
    if status = 0xf1 ∨ status = 0xf3 then 1
    else if status = 0xf2 then 2
    else 0
  else 2

/-- A packet list under construction; `room` while the last packet could be added. -/
structure Emit where
  packets : List Bytes
  room : Bool

section Parse

variable (M : CoreMidi) (cap : Nat)

def emit (e : Emit) (b : Bytes) : Emit :=
  if e.room = false ∨ b = [] then e
  else
    match M.packetListAdd cap e.packets b with
    | some ps => ⟨ps, true⟩
    | none => ⟨e.packets, false⟩

/-- The parser in the middle of a read. -/
structure Parser where
  slot : Slot
  sx : Bytes
  list : Emit

namespace Parser

/-- Hand on the SysEx octets that are buffered. -/
def flush (p : Parser) : Parser := { p with list := emit M cap p.list p.sx, sx := [] }

/-- Buffer a SysEx octet; `none` when the buffer has no room. -/
def push (p : Parser) (b : UInt8) : Option Parser :=
  if p.sx.length < READ_CHUNK then some { p with sx := p.sx ++ [b] } else none

/-- A status octet outside a SysEx. -/
def newStatus (p : Parser) (b : UInt8) : Option Parser :=
  if b = 0xf0 then push
    { p with slot := { p.slot with inSx := true, rs := 0, msg := p.slot.msg.set 0 0 } } b
  else if b = 0xf7 then some p
  else
    let slot := { p.slot with
        rs := if b < 0xf0 then b else 0, msg := p.slot.msg.set 0 b, held := 0, need := dataLen b }
    if slot.need = 0 then
      some { p with
        slot := { slot with msg := slot.msg.set 0 0 }
        list := emit M cap p.list (slot.msg.toList.take 1) }
    else some { p with slot }

/-- A status octet. -/
def status (p : Parser) (b : UInt8) : Option Parser :=
  if p.slot.inSx then
    let p := { p with slot := { p.slot with inSx := false } }
    if b = 0xf7 then (p.push b).map (flush M cap) else (p.flush M cap).newStatus M cap b
  else p.newStatus M cap b

/-- A data octet of the message in progress; `none` when `msg` has no room. -/
def store (p : Parser) (b : UInt8) : Option Parser :=
  if h : 1 + p.slot.held < 3 then
    let slot := { p.slot with msg := p.slot.msg.set (1 + p.slot.held) b, held := p.slot.held + 1 }
    if slot.held = slot.need then
      some { p with
        slot := { slot with msg := slot.msg.set 0 0 }
        list := emit M cap p.list (slot.msg.toList.take (1 + slot.need)) }
    else some { p with slot }
  else none

/-- A data octet. -/
def data (p : Parser) (b : UInt8) : Option Parser :=
  if p.slot.inSx then p.push b
  else if p.slot.msg[0] = 0 then
    if p.slot.rs = 0 then some p
    else store M cap
      { p with slot :=
        { p.slot with msg := p.slot.msg.set 0 p.slot.rs, held := 0, need := dataLen p.slot.rs } } b
  else p.store M cap b

/-- One octet. -/
def octet (p : Parser) (b : UInt8) : Option Parser :=
  if 0xf8 ≤ b then some { p.flush M cap with list := emit M cap (p.flush M cap).list [b] }
  else if b &&& 0x80 ≠ 0 then p.status M cap b
  else p.data M cap b

end Parser

/-- Assemble the octets of one read: the slot, and the packets made. -/
def slotParse (sl : Slot) (buf : Bytes) : Option (Slot × Emit) :=
  ((buf.take READ_CHUNK).foldlM (Parser.octet M cap) ⟨sl, [], ⟨[], true⟩⟩).map fun p =>
    (p.slot, (p.flush M cap).list)

end Parse

/-- The packet list of each read. -/
def reads (M : CoreMidi) : Slot → List Bytes → Option (List Emit)
  | _, [] => some []
  | sl, buf :: bufs => do
    let (sl, list) ← slotParse M PARSE_LIST_BYTES sl buf
    let lists ← reads M sl bufs
    some (list :: lists)

/-! ## Sizes -/

theorem listBytes_append (ps : List Bytes) (b : Bytes) :
    listBytes (ps ++ [b]) = listBytes ps + packetBytes b.length := by
  simp [listBytes, Nat.add_assoc]

/-- What the buffered SysEx octets will take. -/
def sxBytes (sx : Bytes) : Nat := if sx = [] then 0 else packetBytes sx.length

theorem sxBytes_append (sx : Bytes) (b : UInt8) : sxBytes (sx ++ [b]) ≤ sxBytes sx + 12 := by
  unfold sxBytes packetBytes
  rw [if_neg (by simp), List.length_append, List.length_singleton]
  by_cases h : sx = []
  · rw [if_pos h, h, List.length_nil]
  · rw [if_neg h]
    omega

/-! ## Statuses -/

theorem dataLen_eq : ∀ s : UInt8, 0x80 ≤ s → dataLen s = dataBytes s := by decide +kernel

theorem high_bit_iff : ∀ b : UInt8, b &&& 0x80 ≠ 0 ↔ 0x80 ≤ b := by decide +kernel

/-! ## The list -/

section List

variable {M : CoreMidi} {cap : Nat} {e : Emit} {es : List Event} {b : Bytes}

theorem emit_nil : emit M cap e [] = e := by
  rw [emit, if_pos (.inr rfl)]

/-- A packet that fits is added. -/
theorem emit_of_fits (hroom : e.room = true) (hb : b ≠ [])
    (hfits : listBytes e.packets + packetBytes b.length ≤ cap) :
    emit M cap e b = ⟨e.packets ++ [b], true⟩ := by
  rw [emit, if_neg (by simp [hroom, hb]), M.appends cap e.packets b (by rwa [listBytes_append])]

end List

/-! ## The slot and the mode -/

/-- The fields of the slot in the mode `m`. -/
inductive Agrees (sl : Slot) : Mode → Prop
  | idle (hsx : sl.inSx = false) (hrs : sl.rs = 0) (hmsg : sl.msg[0] = 0) : Agrees sl .idle
  | sysEx (hsx : sl.inSx = true) (hrs : sl.rs = 0) (hmsg : sl.msg[0] = 0) : Agrees sl .sysEx
  /-- A message is in progress, in `msg`. -/
  | held {s : UInt8} {data : Bytes} (hs : 0x80 ≤ s) (hless : data.length <
      dataBytes s) (hsx : sl.inSx = false)
      (hrs : sl.rs = if s < 0xf0 then s else 0)
      (hmsg : sl.msg.toList.take (1 + data.length) = s :: data) (hheld : sl.held = data.length)
      (hneed : sl.need = dataBytes s) : Agrees sl (.message s data)
  /-- Only the running status is left. -/
  | running {s : UInt8} (hs : 0x80 ≤ s) (hch : s < 0xf0) (hsx : sl.inSx = false) (hrs : sl.rs =
      s) (hmsg : sl.msg[0] = 0) :
      Agrees sl (.message s [])

/-- The data that a mode holds. -/
def heldData : Mode → Nat
  | .message _ data => data.length
  | _ => 0

/-- In the middle of a read, `k` octets in: `es` is what the machine has
    contributed, `m` is its mode. -/
structure Inv (M : CoreMidi) (k : Nat) (m : Mode) (es : List Event) (p : Parser) : Prop where
  slot : Agrees p.slot m
  packs : ∃ front, es = front ++ p.sx.map .sysEx ∧ Packs front p.list.packets
  room : p.list.room = true
  size : listBytes p.list.packets + sxBytes p.sx + 4 * heldData m ≤ 8 + 12 * k
  inside : p.sx ≠ [] → m = .sysEx
  buffer : p.sx.length ≤ k

section Steps

variable {M : CoreMidi} {cap k : Nat} {m m' : Mode} {es : List Event} {p : Parser} {sl : Slot}
    {b : UInt8}

theorem agrees_detach (sl : Slot) : Agrees (slotDetach sl) .idle := by
  refine .idle rfl rfl ?_
  show (sl.msg.set 0 0)[0] = 0
  rw [Vector.getElem_set_self]

theorem inv_start (h : Agrees sl m) : Inv M 0 m [] ⟨sl, [], ⟨[], true⟩⟩ := by
  refine ⟨h, ⟨[], rfl, .nil⟩, rfl, ?_, fun h => absurd rfl h, Nat.le_refl 0⟩
  -- one octet of data at most is held
  have hheld : heldData m ≤ 1 := by
    cases h with
    | idle => exact Nat.zero_le 1
    | sysEx => exact Nat.zero_le 1
    | @held s data _ hless =>
      have := dataBytes_le s
      show data.length ≤ 1
      omega
    | running => exact Nat.zero_le 1
  show 4 + 0 + 4 * heldData m ≤ 8 + 12 * 0
  omega

/-- What is buffered fits into the list. -/
theorem Inv.flush (h : Inv M k m es p) {cap : Nat} (hcap : 8 + 12 * k ≤ cap) :
    Inv M k m es (p.flush M cap) ∧ Packs es (p.flush M cap).list.packets := by
  obtain ⟨front, hes, hpacks⟩ := h.packs
  have hsize := h.size
  by_cases hsx : p.sx = []
  · have hflush : p.flush M cap = p := by
      obtain ⟨sl, sx, list⟩ := p
      obtain rfl : sx = [] := hsx
      rw [Parser.flush, emit_nil]
    rw [hsx, List.map_nil, List.append_nil] at hes
    rw [hflush]
    exact ⟨h, hes ▸ hpacks⟩
  · rw [sxBytes, if_neg hsx] at hsize
    have hemit : emit M cap p.list p.sx = ⟨p.list.packets ++ [p.sx], true⟩ :=
      emit_of_fits h.room hsx (by omega)
    have hall : Packs es (p.list.packets ++ [p.sx]) := by
      have hone : Packs (p.sx.map .sysEx ++ []) [p.sx] := .sysEx hsx .nil
      rw [List.append_nil] at hone
      exact hes ▸ hpacks.append hone
    rw [Parser.flush, hemit]
    refine ⟨⟨h.slot, ⟨es, by simp, hall⟩, rfl, ?_, fun h => absurd rfl h, Nat.zero_le k⟩, hall⟩
    show listBytes (p.list.packets ++ [p.sx]) + 0 + 4 * heldData m ≤ 8 + 12 * k
    rw [listBytes_append]
    omega

/-- An octet that contributes nothing. -/
theorem Inv.quiet (h : Inv M k m es p) (hsx : p.sx = []) (hslot : Agrees sl m')
    (hheld : heldData m' ≤ heldData m + 3) :
    Inv M (k + 1) m' es { p with slot := sl } := by
  have hsize := h.size
  refine ⟨hslot, h.packs, h.room, ?_, fun hne => absurd hsx hne, Nat.le_succ_of_le h.buffer⟩
  show listBytes p.list.packets + sxBytes p.sx + 4 * heldData m' ≤ 8 + 12 * (k + 1)
  omega

/-- An octet that completes a packet. -/
theorem Inv.emits (h : Inv M k m es p) (hsx : p.sx = []) (hcap : 8 + 12 * (k + 1) ≤ cap)
    (hslot : Agrees sl m') {e : Event} {octets : Bytes} (hne : octets ≠ [])
    (hpack : Packs [e] [octets])
    (hcost : packetBytes octets.length + 4 * heldData m' ≤ 12 + 4 * heldData m) :
    Inv M (k + 1) m' (es ++ [e]) { p with slot := sl, list := emit M cap p.list octets } := by
  obtain ⟨front, hes, hpacks⟩ := h.packs
  have hsize := h.size
  rw [emit_of_fits h.room hne (by omega)]
  rw [hsx, List.map_nil, List.append_nil] at hes
  refine ⟨hslot, ⟨es ++ [e], by simp [hsx], hes ▸ hpacks.append hpack⟩, rfl, ?_,
    fun hne => absurd hsx hne, Nat.le_succ_of_le h.buffer⟩
  show listBytes (p.list.packets ++ [octets]) + sxBytes p.sx + 4 * heldData m' ≤ 8 + 12 * (k + 1)
  rw [listBytes_append]
  omega

/-- The buffer has room for an octet of a SysEx. -/
theorem Inv.push_eq (h : Inv M k m es p) (hk : k < READ_CHUNK) (sl : Slot) (b : UInt8) :
    Parser.push { p with slot := sl } b = some ⟨sl, p.sx ++ [b], p.list⟩ := by
  have hroom : p.sx.length < READ_CHUNK := Nat.lt_of_le_of_lt h.buffer hk
  rw [Parser.push, if_pos hroom]

/-- An octet of a SysEx. -/
theorem Inv.push (h : Inv M k m es p) (hslot : Agrees sl .sysEx) (b : UInt8) :
    Inv M (k + 1) .sysEx (es ++ [.sysEx b]) ⟨sl, p.sx ++ [b], p.list⟩ := by
  obtain ⟨front, hes, hpacks⟩ := h.packs
  have hsize := h.size
  have hbuffer := h.buffer
  refine ⟨hslot, ⟨front, by simp [hes], hpacks⟩, h.room, ?_, fun _ => rfl, ?_⟩
  · have := sxBytes_append p.sx b
    show listBytes p.list.packets + sxBytes (p.sx ++ [b]) + 0 ≤ 8 + 12 * (k + 1)
    omega
  · show (p.sx ++ [b]).length ≤ k + 1
    rw [List.length_append, List.length_singleton]
    omega

/-- Fields that stand for another mode, with no more data held. -/
theorem Inv.reslot (h : Inv M k m es p) (hsx : p.sx = []) (hslot : Agrees sl m')
    (hheld : heldData m' ≤ heldData m) :
    Inv M k m' es { p with slot := sl } := by
  have hsize := h.size
  refine ⟨hslot, h.packs, h.room, ?_, fun hne => absurd hsx hne, h.buffer⟩
  show listBytes p.list.packets + sxBytes p.sx + 4 * heldData m' ≤ 8 + 12 * k
  omega

/-- Outside a SysEx nothing is buffered. -/
theorem Inv.sx_nil (h : Inv M k m es p) (hm : m ≠ .sysEx) : p.sx = [] := by
  by_contra hne
  exact hm (h.inside hne)

theorem inSx_false {sl : Slot} (h : Agrees sl m) (hm : m ≠ .sysEx) : sl.inSx = false := by
  cases h with
  | idle hsx => exact hsx
  | sysEx => exact absurd rfl hm
  | held _ _ hsx => exact hsx
  | running _ _ hsx => exact hsx

/-- The front of `msg` with an octet behind it. -/
theorem take_set (msg : Vector UInt8 3) {i : Nat} (hi : i < 3) (b : UInt8) :
    (msg.set i b).toList.take (i + 1) = msg.toList.take i ++ [b] := by
  rw [Vector.toList_set, List.take_add_one, List.take_set_of_le (Nat.le_refl i),
    List.getElem?_set_self (by simpa using hi)]
  rfl

theorem head_of_take {msg : Vector UInt8 3} {n : Nat} {s : UInt8} {l : Bytes}
    (h : msg.toList.take (1 + n) = s :: l) :
    msg[0] = s := by
  have hget : (msg.toList.take (1 + n))[0]? = some s := by rw [h]; rfl
  rw [List.getElem?_take_of_lt (by omega)] at hget
  simpa using hget

/-- A status octet outside a SysEx. -/
theorem newStatus_inv (h : Inv M k m es p) (hm : m ≠ .sysEx) (hk : k < READ_CHUNK)
    (hcap : 8 + 12 * (k + 1) ≤ cap) (hb : 0x80 ≤ b) (hrt : ¬ 0xf8 ≤ b) :
    ∃ p', p.newStatus M cap b = some p' ∧ Inv M (k + 1) (m.next b).1 (es ++ (m.next b).2) p' := by
  have hsx := h.sx_nil hm
  have hout := inSx_false h.slot hm
  unfold Parser.newStatus Mode.next
  rw [if_neg hrt]
  -- a SysEx begins
  by_cases hf0 : b = 0xf0
  · rw [if_pos hf0, if_pos (by rw [hf0]; decide), if_pos hf0]
    exact ⟨_, h.push_eq hk _ b, h.push (.sysEx rfl rfl (by simp)) b⟩
  rw [if_neg hf0]
  -- an end that ends nothing
  by_cases hf7 : b = 0xf7
  · rw [if_pos hf7, if_neg (by rw [hf7]; decide)]
    refine ⟨p, rfl, ?_⟩
    have hquiet := h.quiet hsx h.slot (Nat.le_add_right _ 3)
    cases m with
    | idle => simpa using hquiet
    | sysEx => exact absurd rfl hm
    | message s data => simpa [hf7] using hquiet
  · have hopens : Opens b := ⟨hb, UInt8.not_le.mp hrt, hf7⟩
    rw [if_neg hf7, if_pos hopens, if_neg hf0]
    dsimp only
    rw [dataLen_eq b hb]
    have hfirst : (p.slot.msg.set 0 b).toList.take 1 = [b] := take_set p.slot.msg (by omega) b
    -- a message of its own, at once
    by_cases hzero : dataBytes b = 0
    · rw [if_pos hzero, if_pos hzero, hfirst]
      have hcommon : ¬ b < 0xf0 := by
        intro hch
        rcases dataBytes_channel hch with hone | htwo <;> omega
      refine ⟨_, rfl, h.emits hsx hcap ?_ (by simp) (.message .nil) ?_⟩
      · exact .idle hout (if_neg hcommon) (by simp)
      · show packetBytes 1 + 4 * 0 ≤ 12 + 4 * heldData m
        simp only [packetBytes]
        omega
    -- a message that waits for its data
    · rw [if_neg hzero, if_neg hzero, List.append_nil]
      refine ⟨_, rfl, h.quiet hsx ?_ (Nat.zero_le _)⟩
      exact .held hb (Nat.pos_of_ne_zero hzero) hout rfl hfirst rfl rfl

/-- A data octet of the message in progress. -/
theorem store_inv {s : UInt8} {data : Bytes} (h : Inv M k (.message s data) es p)
    (hcap : 8 + 12 * (k + 1) ≤ cap) (hs : 0x80 ≤ s) (hless : data.length < dataBytes s)
    (hsx : p.slot.inSx = false) (hrs : p.slot.rs = if s < 0xf0 then s else 0)
    (hmsg : p.slot.msg.toList.take (1 + data.length) = s :: data)
    (hheld : p.slot.held = data.length) (hneed : p.slot.need = dataBytes s) (hb : b < 0x80) :
    ∃ p', p.store M cap b = some p' ∧
      Inv M (k + 1) (Mode.next (.message s data) b).1 (es ++ (Mode.next (.message s data) b).2)
        p' := by
  have hnil := h.sx_nil (by simp)
  have hbytes := dataBytes_le s
  have hrt : ¬ 0xf8 ≤ b := UInt8.not_le.mpr (UInt8.lt_trans hb (by decide))
  have hf7 : b ≠ 0xf7 := fun heq => absurd (heq ▸ hb) (by decide)
  have hroom : 1 + p.slot.held < 3 := by omega
  have hset : (p.slot.msg.set (1 + p.slot.held) b).toList.take (1 + p.slot.held + 1) =
      s :: (data ++ [b]) := by
    rw [take_set, hheld, hmsg, List.cons_append]
  unfold Parser.store Mode.next
  rw [dif_pos hroom, if_neg hrt, if_neg (not_opens_of_data hb)]
  dsimp only
  rw [if_neg hf7, hneed]
  -- more data is to come
  by_cases hmore : data.length + 1 < dataBytes s
  · rw [if_neg (by omega), if_pos hmore, List.append_nil]
    refine ⟨_, rfl, h.quiet hnil ?_ ?_⟩
    · refine .held hs (by simpa using hmore) hsx hrs ?_ ?_ rfl
      · rw [List.length_append, List.length_singleton, ← hheld,
          show 1 + (p.slot.held + 1) = 1 + p.slot.held + 1 by omega]
        exact hset
      · simp [hheld]
    · show (data ++ [b]).length ≤ data.length + 3
      rw [List.length_append, List.length_singleton]
      omega
  · -- the message is complete
    have hwhole : (p.slot.msg.set (1 + p.slot.held) b).toList.take (1 + dataBytes s) =
        s :: (data ++ [b]) := by
      rw [show 1 + dataBytes s = 1 + p.slot.held + 1 by omega]
      exact hset
    rw [if_pos (by omega), if_neg hmore, hwhole]
    refine ⟨_, rfl, h.emits hnil hcap ?_ (by simp) (.message .nil) ?_⟩
    -- running status stays for a channel message only
    · by_cases hch : s < 0xf0
      · rw [if_pos hch]
        exact .running hs hch hsx (by rw [hrs, if_pos hch]) (by simp)
      · rw [if_neg hch]
        exact .idle hsx (by rw [hrs, if_neg hch]) (by simp)
    · have hafter : heldData (if s < 0xf0 then .message s [] else .idle) = 0 := by
        split <;> rfl
      rw [hafter]
      show packetBytes (s :: (data ++ [b])).length + 0 ≤ 12 + 4 * data.length
      simp only [packetBytes, List.length_cons, List.length_append, List.length_nil]
      omega

/-- A data octet. -/
theorem data_inv (h : Inv M k m es p) (hk : k < READ_CHUNK) (hcap : 8 + 12 * (k + 1) ≤ cap)
    (hb : b < 0x80) :
    ∃ p', p.data M cap b = some p' ∧ Inv M (k + 1) (m.next b).1 (es ++ (m.next b).2) p' := by
  have hrt : ¬ 0xf8 ≤ b := UInt8.not_le.mpr (UInt8.lt_trans hb (by decide))
  have hf7 : b ≠ 0xf7 := fun heq => absurd (heq ▸ hb) (by decide)
  unfold Parser.data
  cases hslot : h.slot with
  | idle hsx hrs hmsg =>
    rw [if_neg (by simp [hsx]), if_pos hmsg, if_pos hrs]
    refine ⟨p, rfl, ?_⟩
    simpa [Mode.next, hrt, not_opens_of_data hb] using h.quiet (h.sx_nil (by simp)) h.slot
      (Nat.le_add_right _ 3)
  | sysEx hsx hrs hmsg =>
    rw [if_pos hsx]
    refine ⟨_, h.push_eq hk p.slot b, ?_⟩
    simpa [Mode.next, hrt, not_opens_of_data hb, hf7] using h.push h.slot b
  | @held s data hs hless hsx hrs hmsg hheld hneed =>
    have hfirst : p.slot.msg[0] = s := head_of_take hmsg
    have hzero : ¬ p.slot.msg[0] = 0 := by
      rw [hfirst]
      rintro rfl
      exact absurd hs (by decide)
    rw [if_neg (by simp [hsx]), if_neg hzero]
    exact store_inv h hcap hs hless hsx hrs hmsg hheld hneed hb
  | @running s hs hch hsx hrs hmsg =>
    have hzero : ¬ p.slot.rs = 0 := by
      rw [hrs]
      rintro rfl
      exact absurd hs (by decide)
    have hpos : 0 < dataBytes s := by
      rcases dataBytes_channel hch with hone | htwo <;> omega
    rw [if_neg (by simp [hsx]), if_pos hmsg, if_neg hzero]
    -- running status: the status is written out first
    have hneed : dataLen p.slot.rs = dataBytes s := by rw [hrs, dataLen_eq s hs]
    have hmsg' : (p.slot.msg.set 0 p.slot.rs).toList.take 1 = [s] := by
      rw [hrs]
      exact take_set p.slot.msg (by omega) s
    have hrs' : p.slot.rs = if s < 0xf0 then s else 0 := by rw [hrs, if_pos hch]
    have hinv := h.reslot (h.sx_nil (by simp)) (.held hs hpos hsx hrs' hmsg' rfl hneed
      : Agrees { p.slot with
        msg := p.slot.msg.set 0 p.slot.rs
        held := 0
        need := dataLen p.slot.rs } (.message s [])) (Nat.le_refl _)
    exact store_inv hinv hcap hs hpos hsx hrs' hmsg' rfl hneed hb

/-- A status octet. -/
theorem status_inv (h : Inv M k m es p) (hk : k < READ_CHUNK) (hcap : 8 + 12 * (k + 1) ≤ cap)
    (hb : 0x80 ≤ b) (hrt : ¬ 0xf8 ≤ b) :
    ∃ p', p.status M cap b = some p' ∧ Inv M (k + 1) (m.next b).1 (es ++ (m.next b).2) p' := by
  unfold Parser.status
  by_cases hm : m = .sysEx
  · subst hm
    have hslot := h.slot
    have hsx : p.slot.inSx = true := by
      cases hslot
      assumption
    -- outside the SysEx, with the other fields as they are
    have hidle : Agrees { p.slot with inSx := false } .idle := by
      cases hslot with
      | sysEx hsx hrs hmsg => exact .idle rfl hrs hmsg
    rw [if_pos hsx]
    dsimp only
    by_cases hf7 : b = 0xf7
    · rw [if_pos hf7, h.push_eq hk, Option.map_some]
      refine ⟨_, rfl, ?_⟩
      obtain ⟨hflush, -⟩ := (h.push hslot b).flush hcap
      have hnext : Mode.next .sysEx b = (.idle, [.sysEx b]) := by
        rw [hf7]
        rfl
      rw [hnext]
      exact hflush.reslot rfl hidle (Nat.le_refl _)
    · have hopens : Opens b := ⟨hb, UInt8.not_le.mp hrt, hf7⟩
      have hnext : Mode.next .sysEx b = Mode.next .idle b := by
        simp only [Mode.next, if_neg hrt, if_pos hopens]
      rw [if_neg hf7, hnext]
      obtain ⟨hflush, -⟩ := h.flush (show 8 + 12 * k ≤ cap by omega)
      exact newStatus_inv (hflush.reslot rfl hidle (Nat.le_refl _)) (by simp) hk hcap hb hrt
  · rw [if_neg (by simp [inSx_false h.slot hm])]
    exact newStatus_inv h hm hk hcap hb hrt

/-- **One octet.**  The parser goes on, and has handed on or buffered what
    the machine contributes. -/
theorem octet_inv (h : Inv M k m es p) (hk : k < READ_CHUNK) (hcap : 8 + 12 * (k + 1) ≤ cap)
    (b : UInt8) :
    ∃ p', p.octet M cap b = some p' ∧ Inv M (k + 1) (m.next b).1 (es ++ (m.next b).2) p' := by
  unfold Parser.octet
  by_cases hrt : 0xf8 ≤ b
  · rw [if_pos hrt]
    refine ⟨_, rfl, ?_⟩
    obtain ⟨hflush, -⟩ := h.flush (show 8 + 12 * k ≤ cap by omega)
    have hcost : packetBytes [b].length + 4 * heldData m ≤ 12 + 4 * heldData m := by
      simp only [packetBytes, List.length_singleton]
      omega
    have hemits := hflush.emits rfl hcap hflush.slot (List.cons_ne_nil b []) (.realTime .nil) hcost
    simpa [Mode.next, hrt] using hemits
  rw [if_neg hrt]
  by_cases hstatus : b &&& 0x80 ≠ 0
  · rw [if_pos hstatus]
    exact status_inv h hk hcap ((high_bit_iff b).mp hstatus) hrt
  · rw [if_neg hstatus]
    exact data_inv h hk hcap (UInt8.not_le.mp fun hle => hstatus ((high_bit_iff b).mpr hle))

end Steps

/-! ## Reads -/

section Reads

variable {M : CoreMidi} {cap k : Nat} {m : Mode} {es : List Event} {p : Parser}

/-- The octets of a read, one after the other. -/
theorem octets_inv (bs : Bytes) (h : Inv M k m es p) (hk : k + bs.length ≤ READ_CHUNK)
    (hcap : 8 + 12 * (k + bs.length) ≤ cap) :
    ∃ p', bs.foldlM (Parser.octet M cap) p = some p' ∧
    Inv M (k + bs.length) (m.run bs).1 (es ++ (m.run bs).2) p' := by
  induction bs generalizing k m es p with
  | nil => exact ⟨p, rfl, by simpa [Mode.run] using h⟩
  | cons b bs ih =>
    rw [List.length_cons] at hk hcap
    have hone : 8 + 12 * (k + 1) ≤ cap := by omega
    obtain ⟨p₁, hp₁, hinv₁⟩ := octet_inv h (by omega) hone b
    obtain ⟨p', hp', hinv⟩ := ih hinv₁ (by omega) (by omega)
    refine ⟨p', by rw [List.foldlM_cons, hp₁]; exact hp', ?_⟩
    rw [List.length_cons, Mode.run, ← List.append_assoc,
      show k + (bs.length + 1) = k + 1 + bs.length by omega]
    exact hinv

/-- **One read.**  Its packets carry what its octets contribute, none was refused, and the slot
    stands for the mode behind it. -/
theorem slotParse_spec {sl : Slot} (h : Agrees sl m) {buf : Bytes}
    (hbuf : buf.length ≤ READ_CHUNK) :
    ∃ sl' list, slotParse M PARSE_LIST_BYTES sl buf = some (sl', list) ∧ Agrees sl' (m.run buf).1 ∧
      Packs (m.run buf).2 list.packets ∧ list.room = true ∧
      listBytes list.packets ≤ PARSE_LIST_BYTES := by
  have hbound : 8 + 12 * (0 + buf.length) ≤ PARSE_LIST_BYTES := by
    have : READ_CHUNK = 256 := rfl
    have : PARSE_LIST_BYTES = 4096 := rfl
    omega
  obtain ⟨p, hp, hinv⟩ := octets_inv buf (inv_start (M := M) h) (by omega) hbound
  obtain ⟨hflush, hpacks⟩ := hinv.flush hbound
  refine ⟨p.slot, (p.flush M PARSE_LIST_BYTES).list, ?_, hinv.slot, hpacks, hflush.room, ?_⟩
  · rw [slotParse, List.take_of_length_le hbuf, hp, Option.map_some]
  · have := hflush.size
    omega

/-- **Whatever the reads are.**  From a freshly detached slot on, reads of any lengths that the
    driver asks for run through, without an index out of range and without a list that is full; and
    the packets carry what the whole stream says. -/
theorem packets_of_reads (M : CoreMidi) (sl : Slot) (bufs : List Bytes)
    (hbufs : ∀ buf ∈ bufs, 1 ≤ buf.length ∧ buf.length ≤ READ_CHUNK) :
    ∃ lists, reads M (slotDetach sl) bufs = some lists ∧
    Packs (parse bufs.flatten) (lists.flatMap Emit.packets) ∧
      ∀ list ∈ lists, list.room = true ∧ listBytes list.packets ≤ PARSE_LIST_BYTES := by
  have hrun : ∀ {sl m}, Agrees sl m → ∃ lists, reads M sl bufs = some lists ∧
      Packs (m.run bufs.flatten).2 (lists.flatMap Emit.packets) ∧
      ∀ list ∈ lists, list.room = true ∧ listBytes list.packets ≤ PARSE_LIST_BYTES := by
    induction bufs with
    | nil =>
      intro sl m _
      exact ⟨[], rfl, .nil, fun list hl => absurd hl List.not_mem_nil⟩
    | cons buf bufs ih =>
      intro sl m h
      obtain ⟨sl', list, hparse, hslot, hpacks, hroom, hsize⟩ :=
        slotParse_spec (M := M) h (hbufs buf List.mem_cons_self).2
      obtain ⟨lists, hlists, hrest, hall⟩ :=
        ih (fun buf hbuf => hbufs buf (List.mem_cons_of_mem _ hbuf)) hslot
      refine ⟨list :: lists, ?_, ?_, ?_⟩
      · rw [reads, hparse]
        show (reads M sl' bufs >>= _) = _
        rw [hlists]
        rfl
      · rw [List.flatten_cons, Mode.run_append, List.flatMap_cons]
        exact hpacks.append hrest
      · intro l hl
        rcases List.mem_cons.mp hl with rfl | hl
        · exact ⟨hroom, hsize⟩
        · exact hall l hl
  rw [← run_eq_parse]
  exact hrun (agrees_detach sl)

/-- A driver's list that never refuses a packet with room for it. -/
def coreMidi : CoreMidi where
  packetListAdd cap ps b := if listBytes (ps ++ [b]) ≤ cap then some (ps ++ [b]) else none
  appends _ _ _ h := if_pos h

/-- A note cut in two reads, with a clock in it, and running status. -/
theorem note_in_two_reads :
    ∃ lists, reads coreMidi (slotDetach ⟨0, #v[1, 2, 3], 7, 7, true⟩)
      [[0x90, 60], [0xf8, 100, 62, 0]] = some lists ∧
      Packs (parse [0x90, 60, 0xf8, 100, 62, 0]) (lists.flatMap Emit.packets) ∧
      ∀ list ∈ lists, list.room = true ∧ listBytes list.packets ≤ PARSE_LIST_BYTES :=
  packets_of_reads coreMidi ⟨0, #v[1, 2, 3], 7, 7, true⟩ [[0x90, 60], [0xf8, 100, 62, 0]]
    (by decide)

example : parse [0x90, 60, 0xf8, 100, 62, 0, 0xf0, 1, 0xf8, 2, 0xf7, 0xf7, 5] =
    [.realTime 0xf8, .message [0x90, 60, 100], .message [0x90, 62, 0], .sysEx 0xf0, .sysEx 1,
      .realTime 0xf8, .sysEx 2, .sysEx 0xf7] := by
  decide

end Reads

end CdjEmu.MidiDriver
