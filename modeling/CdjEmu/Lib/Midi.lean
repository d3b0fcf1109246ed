/-
  MIDI STREAMS — what a stream of MIDI octets says.

  `parse` is the meaning of a whole stream, and has no state.  What an octet contributes is read off
  the octets before it: the last status octet among them (`inForce`) and what has come since
  (`since`).  A real-time octet stands for itself wherever it falls.  A status in force that is a
  channel's takes its data again and again — running status — and a system common's once.  An end of
  exclusive outside a SysEx is nothing, and ends nothing.

  `Mode` is the same as a machine: outside everything, in a SysEx, or with a status in force and
  fewer data than it takes. `Mode.Of` says which mode a past leaves the machine in, and `next_of`
  that each octet then contributes what `parse` says.

  A SysEx may be handed on in pieces.  `Packs es ps` says that the packets `ps` carry the events
  `es`: each message and each real-time octet in a packet of its own, and the octets of a SysEx in
  as many as there happen to be.
-/
import CdjEmu.Lib.Text

namespace CdjEmu.Midi

/-- What a stream says. -/
inductive Event where
  /-- A whole message, its status first. -/
  | message (octets : Bytes)
  | realTime (b : UInt8)
  /-- One octet of a SysEx, its first and its last included. -/
  | sysEx (b : UInt8)
  deriving DecidableEq

/-- A status octet that starts something. -/
def Opens (b : UInt8) : Prop := 0x80 ≤ b ∧ b < 0xf8 ∧ b ≠ 0xf7

instance (b : UInt8) : Decidable (Opens b) := inferInstanceAs (Decidable (_ ∧ _))

/-- How many data octets a status takes. -/
def dataBytes (s : UInt8) : Nat :=
  if s < 0xc0 then 2
  else if s < 0xe0 then 1
  else if s < 0xf0 then 2
  else if s = 0xf1 ∨ s = 0xf3 then 1
  else if s = 0xf2 then 2
  else 0

section Meaning

variable (past : Bytes)

/-- The status in force after `past`. -/
def inForce : Option UInt8 := past.reverse.find? (Opens ·)

/-- What has come since that status. -/
def since : Bytes := (past.reverse.takeWhile (¬ Opens ·)).reverse

/-- The data among it. -/
def dataSince : Bytes := (since past).filter (· < 0x80)

/-- What the octet `b` contributes behind `past`. -/
def eventsAt (b : UInt8) : List Event :=
  if 0xf8 ≤ b then [.realTime b]
  else if Opens b then
    if b = 0xf0 then [.sysEx b] else if dataBytes b = 0 then [.message [b]] else []
  else
    match inForce past with
    | none => []
    | some s =>
      if s = 0xf0 then if 0xf7 ∈ since past then [] else [.sysEx b]
      else if b = 0xf7 then []
      else
        let data := dataSince past ++ [b]
        if s < 0xf0 then
          if dataBytes s ∣ data.length then
            [.message (s :: data.drop (data.length - dataBytes s))]
          else []
        else if data.length = dataBytes s then [.message (s :: data)] else []

/-- What the octets `bs` contribute behind `past`. -/
def parseFrom : Bytes → Bytes → List Event
  | _, [] => []
  | past, b :: bs => eventsAt past b ++ parseFrom (past ++ [b]) bs

end Meaning

/-- What a stream says. -/
def parse (bs : Bytes) : List Event := parseFrom [] bs

/-! ## Statuses -/

theorem not_opens_of_data {b : UInt8} (h : b < 0x80) : ¬ Opens b := by
  rintro ⟨h', -⟩
  exact absurd h (UInt8.not_lt.mpr h')

theorem dataBytes_channel {s : UInt8} (h : s < 0xf0) : dataBytes s = 1 ∨ dataBytes s = 2 := by
  unfold dataBytes
  split_ifs <;> simp

theorem dataBytes_le (s : UInt8) : dataBytes s ≤ 2 := by
  unfold dataBytes
  split_ifs <;> simp

/-! ## One octet more -/

variable {past : Bytes} {b : UInt8}

theorem inForce_append : inForce (past ++ [b]) = if Opens b then some b else inForce past := by
  unfold inForce
  rw [List.reverse_append, List.reverse_singleton, List.singleton_append, List.find?_cons]
  by_cases h : Opens b <;> simp [h]

theorem since_append : since (past ++ [b]) = if Opens b then [] else since past ++ [b] := by
  unfold since
  rw [List.reverse_append, List.reverse_singleton, List.singleton_append, List.takeWhile_cons]
  by_cases h : Opens b <;> simp [h]

/-! ## The machine -/

/-- Where a stream stands: outside everything, in a SysEx, or with a status in
    force and the data it has. -/
inductive Mode where
  | idle
  | sysEx
  | message (s : UInt8) (data : Bytes)
  deriving DecidableEq

/-- One octet. -/
def Mode.next (m : Mode) (b : UInt8) : Mode × List Event :=
  if 0xf8 ≤ b then (m, [.realTime b])
  else if Opens b then
    if b = 0xf0 then (.sysEx, [.sysEx b])
    else if dataBytes b = 0 then (.idle, [.message [b]])
    else (.message b [], [])
  else
    match m with
    | .idle => (.idle, [])
    | .sysEx => (if b = 0xf7 then .idle else .sysEx, [.sysEx b])
    | .message s data =>
      if b = 0xf7 then (.message s data, [])
      else if data.length + 1 < dataBytes s then (.message s (data ++ [b]), [])
      else (if s < 0xf0 then .message s [] else .idle, [.message (s :: data ++ [b])])

/-- The mode that `past` leaves the machine in. -/
inductive Mode.Of (past : Bytes) : Mode → Prop
  | start (h : inForce past = none) : Of past .idle
  | inSysEx (h : inForce past = some 0xf0) (hopen : 0xf7 ∉ since past) : Of past .sysEx
  | sysExEnded (h : inForce past = some 0xf0) (hend : 0xf7 ∈ since past) : Of past .idle
  /-- A channel's status: the data of its last message that is not complete. -/
  | channel {s : UInt8} {data front : Bytes} (h : inForce past = some s) (hs : s <
      0xf0) (hdata : dataSince past = front ++ data)
      (hfront : dataBytes s ∣ front.length) (hless : data.length < dataBytes s) :
      Of past (.message s data)
  | common {s : UInt8} (h : inForce past = some s) (hs : 0xf0 <
      s) (hless : (dataSince past).length < dataBytes s) :
      Of past (.message s (dataSince past))
  | commonDone {s : UInt8} (h : inForce past = some s) (hs : 0xf0 < s) (hdone : dataBytes s ≤
      (dataSince past).length) :
      Of past .idle

/-- An octet that starts nothing leaves the status in force, and is counted if it is data. -/
theorem behind_inForce (past : Bytes) (h : ¬ Opens b) : inForce (past ++ [b]) = inForce past ∧
    dataSince (past ++ [b]) = dataSince past ++ (if b < 0x80 then [b] else []) ∧
    (0xf7 ∈ since (past ++ [b]) ↔ 0xf7 ∈ since past ∨ 0xf7 = b) := by
  refine ⟨?_, ?_, ?_⟩
  · rw [inForce_append, if_neg h]
  · rw [dataSince, dataSince, since_append, if_neg h, List.filter_append, List.filter_singleton]
    by_cases hb : b < 0x80 <;> simp [hb]
  · rw [since_append, if_neg h, List.mem_append, List.mem_singleton]

/-- A status octet is in force at once, with no data. -/
theorem behind_status (past : Bytes) (h : Opens b) :
    inForce (past ++ [b]) = some b ∧ dataSince (past ++ [b]) = [] ∧ 0xf7 ∉ since (past ++ [b]) := by
  refine ⟨?_, ?_, ?_⟩
  · rw [inForce_append, if_pos h]
  · rw [dataSince, since_append, if_pos h, List.filter_nil]
  · rw [since_append, if_pos h]
    exact List.not_mem_nil

/-- An octet that is no data and ends no SysEx changes no mode. -/
theorem Mode.Of.keep {m : Mode} (h : m.Of past) (hb : ¬ Opens b) (hdata : ¬ b < 0x80)
    (hend : b = 0xf7 → m ≠ .sysEx) :
    m.Of (past ++ [b]) := by
  obtain ⟨hforce, hsince, hmem⟩ := behind_inForce past hb
  rw [if_neg hdata, List.append_nil] at hsince
  cases h with
  | start h => exact .start (hforce.trans h)
  | inSysEx h hopen =>
    refine .inSysEx (hforce.trans h) fun hm => ?_
    rcases hmem.mp hm with hm | rfl
    · exact hopen hm
    · exact hend rfl rfl
  | sysExEnded h hended => exact .sysExEnded (hforce.trans h) (hmem.mpr (.inl hended))
  | channel h hs hd hfront hless =>
      exact .channel (hforce.trans h) hs (hsince.trans hd) hfront hless
  | common h hs hless =>
    rw [← hsince] at hless ⊢
    exact .common (hforce.trans h) hs hless
  | commonDone h hs hdone => exact .commonDone (hforce.trans h) hs (hsince.symm ▸ hdone)

/-- A status octet that opens something. -/
theorem next_of_opens {m : Mode} (hopens : Opens b) :
    (m.next b).1.Of (past ++ [b]) ∧ (m.next b).2 = eventsAt past b := by
  obtain ⟨hforce, hsince, hmem⟩ := behind_status past hopens
  have hrt : ¬ 0xf8 ≤ b := UInt8.not_le.mpr hopens.2.1
  unfold Mode.next eventsAt
  rw [if_neg hrt, if_neg hrt, if_pos hopens, if_pos hopens]
  by_cases hf0 : b = 0xf0
  · rw [if_pos hf0, if_pos hf0]
    exact ⟨.inSysEx (hf0 ▸ hforce) hmem, rfl⟩
  · rw [if_neg hf0, if_neg hf0]
    by_cases hzero : dataBytes b = 0
    · rw [if_pos hzero, if_pos hzero]
      have hs : 0xf0 < b := by
        by_contra hlt
        have hch : b < 0xf0 := UInt8.lt_of_le_of_ne (UInt8.not_lt.mp hlt) hf0
        rcases dataBytes_channel hch with h | h <;> omega
      exact ⟨.commonDone hforce hs (by omega), rfl⟩
    · rw [if_neg hzero, if_neg hzero]
      refine ⟨?_, rfl⟩
      by_cases hch : b < 0xf0
      · have hfront : dataBytes b ∣ ([] : Bytes).length := Nat.dvd_zero _
        exact .channel hforce hch (by rw [hsince]; rfl) hfront (Nat.pos_of_ne_zero hzero)
      · have hs : 0xf0 < b := UInt8.lt_of_le_of_ne (UInt8.not_lt.mp hch) (Ne.symm hf0)
        have := Mode.Of.common hforce hs (by rw [hsince]; simpa using Nat.pos_of_ne_zero hzero)
        rwa [hsince] at this

/-- A data octet, or an end of exclusive. -/
theorem next_of_behind {m : Mode} (h : m.Of past) (hb : b < 0x80 ∨ b = 0xf7) :
    (m.next b).1.Of (past ++ [b]) ∧ (m.next b).2 = eventsAt past b := by
  have hopens : ¬ Opens b := by
    rcases hb with hb | rfl
    · exact not_opens_of_data hb
    · decide
  have hrt : ¬ 0xf8 ≤ b := by
    rcases hb with hb | rfl
    · exact UInt8.not_le.mpr (UInt8.lt_trans hb (by decide))
    · decide
  have hf7 : b ≠ 0xf7 → b < 0x80 := hb.resolve_right
  obtain ⟨hforce, hsince, hmem⟩ := behind_inForce past hopens
  unfold Mode.next eventsAt
  rw [if_neg hrt, if_neg hrt, if_neg hopens, if_neg hopens]
  -- by what the octets so far have made of the parser
  cases h with
  | start h =>
    rw [h]
    exact ⟨.start (hforce.trans h), rfl⟩
  | inSysEx h hopen =>
    rw [h]
    dsimp only
    rw [if_pos rfl, if_neg hopen]
    refine ⟨?_, rfl⟩
    by_cases hend : b = 0xf7
    · rw [if_pos hend]
      exact .sysExEnded (hforce.trans h) (hmem.mpr (.inr hend.symm))
    · rw [if_neg hend]
      exact .inSysEx (hforce.trans h) fun hm => (hmem.mp hm).elim hopen fun heq => hend heq.symm
  | sysExEnded h hended =>
    rw [h]
    dsimp only
    rw [if_pos rfl, if_pos hended]
    exact ⟨.sysExEnded (hforce.trans h) (hmem.mpr (.inl hended)), rfl⟩
  | @channel s data front h hs hd hfront hless =>
    rw [h]
    -- running status: the octets of a message that is under way count from the last whole one
    dsimp only
    have hf0 : s ≠ 0xf0 := UInt8.ne_of_lt hs
    rw [if_neg hf0]
    by_cases hend : b = 0xf7
    · rw [if_pos hend, if_pos hend]
      exact ⟨(Mode.Of.channel h hs hd hfront hless).keep hopens (by rw [hend]; decide)
        (fun _ => by simp), rfl⟩
    · rw [if_neg hend, if_neg hend, if_pos hs, if_pos hs]
      have hd' : dataSince (past ++ [b]) = front ++ (data ++ [b]) := by
        rw [hsince, if_pos (hf7 hend), hd, List.append_assoc]
      have hlen : (dataSince past ++ [b]).length = front.length + (data.length + 1) := by
        rw [hd, List.append_assoc, List.length_append, List.length_append, List.length_singleton]
      have hdvd : dataBytes s ∣ (dataSince past ++ [b]).length ↔ dataBytes s ∣ data.length + 1 := by
        rw [hlen]
        exact Nat.dvd_add_right hfront
      -- one octet of several
      by_cases hmore : data.length + 1 < dataBytes s
      · rw [if_pos hmore, if_neg]
        · exact ⟨.channel (hforce.trans h) hs hd' hfront (by simpa using hmore), rfl⟩
        · rw [hdvd]
          intro hle
          exact absurd (Nat.le_of_dvd (by omega) hle) (by omega)
      · -- the last octet of a message: as many octets as it takes, behind a multiple of that
        have heq : data.length + 1 = dataBytes s := by omega
        rw [if_neg hmore, if_pos (hdvd.mpr (by rw [heq]))]
        have hd'' : dataSince (past ++ [b]) = front ++ (data ++ [b]) ++ [] := by
          rw [hd', List.append_nil]
        refine ⟨.channel (hforce.trans h) hs hd'' ?_ ?_, ?_⟩
        · rw [List.length_append]
          exact (Nat.dvd_add_right hfront).mpr (by simp [heq])
        · simp only [List.length_nil]
          omega
        · have hdrop : (dataSince past ++ [b]).drop ((dataSince past ++ [b]).length - dataBytes s) =
              data ++ [b] := by
            rw [hlen, heq, Nat.add_sub_cancel, hd, List.append_assoc, List.drop_left]
          rw [hdrop, List.cons_append]
  | @common s h hs hless =>
    rw [h]
    dsimp only
    have hf0 : s ≠ 0xf0 := (UInt8.ne_of_lt hs).symm
    have hnot : ¬ s < 0xf0 := UInt8.not_lt.mpr (UInt8.le_of_lt hs)
    rw [if_neg hf0]
    by_cases hend : b = 0xf7
    · rw [if_pos hend, if_pos hend]
      exact ⟨(Mode.Of.common h hs hless).keep hopens (by rw [hend]; decide) (fun _ => by simp), rfl⟩
    · rw [if_neg hend, if_neg hend, if_neg hnot, if_neg hnot]
      have hd' : dataSince (past ++ [b]) = dataSince past ++ [b] := by
        rw [hsince, if_pos (hf7 hend)]
      -- a message that takes a fixed number of octets, once
      by_cases hmore : (dataSince past).length + 1 < dataBytes s
      · rw [if_pos hmore, if_neg (by rw [List.length_append, List.length_singleton]; omega)]
        have hof := Mode.Of.common (hforce.trans h) hs
            (by rw [hd', List.length_append]; exact hmore)
        rw [hd'] at hof
        exact ⟨hof, rfl⟩
      · rw [if_neg hmore, if_pos (by rw [List.length_append, List.length_singleton]; omega)]
        exact ⟨.commonDone (hforce.trans h) hs
          (by rw [hd', List.length_append, List.length_singleton]; omega), rfl⟩
  | @commonDone s h hs hdone =>
    rw [h]
    dsimp only
    have hf0 : s ≠ 0xf0 := (UInt8.ne_of_lt hs).symm
    have hnot : ¬ s < 0xf0 := UInt8.not_lt.mpr (UInt8.le_of_lt hs)
    have hlen : dataBytes s ≤ (dataSince (past ++ [b])).length := by
      rw [hsince, List.length_append]
      omega
    refine ⟨.commonDone (hforce.trans h) hs hlen, ?_⟩
    -- behind a whole one there is nothing to make of a data octet
    have hmany : ¬ (dataSince past ++ [b]).length = dataBytes s := by
      rw [List.length_append, List.length_singleton]
      omega
    rw [if_neg hf0, if_neg hnot, if_neg hmany, ite_self]

/-- **One octet.**  The machine goes where the longer past leaves it, and
    contributes what the stream says. -/
theorem next_of {m : Mode} (h : m.Of past) (b : UInt8) :
    (m.next b).1.Of (past ++ [b]) ∧ (m.next b).2 = eventsAt past b := by
  by_cases hrt : 0xf8 ≤ b
  · have hopens : ¬ Opens b := fun h => absurd h.2.1 (UInt8.not_lt.mpr hrt)
    have hkeep := h.keep hopens (UInt8.not_lt.mpr (UInt8.le_trans (by decide) hrt))
        (by rintro rfl; exact absurd hrt (by decide))
    unfold Mode.next eventsAt
    rw [if_pos hrt, if_pos hrt]
    exact ⟨hkeep, rfl⟩
  · by_cases hopens : Opens b
    · exact next_of_opens hopens
    · refine next_of_behind h ?_
      by_cases hdata : b < 0x80
      · exact .inl hdata
      · by_contra hne
        exact hopens ⟨UInt8.not_lt.mp hdata, UInt8.not_le.mp hrt, fun heq => hne (.inr heq)⟩

/-- The machine over a stream. -/
def Mode.run : Mode → Bytes → Mode × List Event
  | m, [] => (m, [])
  | m, b :: bs => (((m.next b).1.run bs).1, (m.next b).2 ++ ((m.next b).1.run bs).2)

theorem Mode.run_append (m : Mode) (bs cs : Bytes) :
    m.run (bs ++ cs) = (((m.run bs).1.run cs).1, (m.run bs).2 ++ ((m.run bs).1.run cs).2) := by
  induction bs generalizing m with
  | nil => rfl
  | cons b bs ih =>
    rw [List.cons_append, Mode.run, ih, Mode.run]
    simp only [List.append_assoc]

/-- The machine says what the stream says. -/
theorem run_eq_parse (bs : Bytes) : (Mode.idle.run bs).2 = parse bs := by
  have hfrom : ∀ {past m} (bs : Bytes), Mode.Of past m → (m.run bs).2 = parseFrom past bs := by
    intro past m bs
    induction bs generalizing past m with
    | nil => exact fun _ => rfl
    | cons b bs ih =>
      intro h
      obtain ⟨hnext, hevents⟩ := next_of h b
      rw [Mode.run, parseFrom, hevents, ih hnext]
  exact hfrom bs (.start rfl)

/-! ## Packets -/

/-- The packets `ps` carry the events `es`; a SysEx is cut anywhere. -/
inductive Packs : List Event → List Bytes → Prop
  | nil : Packs [] []
  | message {octets : Bytes} {es : List Event} {ps : List Bytes} (h : Packs es ps) :
      Packs (.message octets :: es) (octets :: ps)
  | realTime {b : UInt8} {es : List Event} {ps : List Bytes} (h : Packs es ps) :
      Packs (.realTime b :: es) ([b] :: ps)
  | sysEx {octets : Bytes} {es : List Event} {ps : List Bytes} (hne : octets ≠
      []) (h : Packs es ps) :
      Packs (octets.map .sysEx ++ es) (octets :: ps)

theorem Packs.append {es es' : List Event} {ps ps' : List Bytes} (h : Packs es ps)
    (h' : Packs es' ps') :
    Packs (es ++ es') (ps ++ ps') := by
  induction h with
  | nil => exact h'
  | message _ ih => exact .message ih
  | realTime _ ih => exact .realTime ih
  | sysEx hne _ ih =>
    rw [List.append_assoc]
    exact .sysEx hne ih

/-- Not a piece of a SysEx. -/
def Event.whole : Event → Bool
  | .sysEx _ => false
  | _ => true

/-- The packet of a message or a real-time octet. -/
def Event.packet : Event → Bytes
  | .message octets => octets
  | .realTime b => [b]
  | .sysEx b => [b]

/-- Whether a packet is no piece of a SysEx: it begins with a status that is neither end of one. -/
def isWhole : Bytes → Bool
  | [] => false
  | b :: _ => 0x80 ≤ b && b ≠ 0xf0 && b ≠ 0xf7

/-- What the machine makes: the status of a message in progress, and the events. -/
def Mode.Sane : Mode → Prop
  | .message s _ => Opens s ∧ s ≠ 0xf0
  | _ => True

def Event.Sane (e : Event) : Prop := isWhole e.packet = e.whole

theorem isWhole_of_opens {s : UInt8} (h : Opens s) (hs : s ≠ 0xf0) (data : Bytes) :
    isWhole (s :: data) = true := by
  simp [isWhole, h.1, hs, h.2.2]

theorem isWhole_of_data {b : UInt8} (h : b < 0x80) (bs : Bytes) : isWhole (b :: bs) = false := by
  have hno : ¬ 0x80 ≤ b := UInt8.not_le.mpr h
  simp [isWhole, hno]

theorem isWhole_of_realTime {b : UInt8} (h : 0xf8 ≤ b) : isWhole [b] = true := by
  have hne : ∀ c : UInt8, c < 0xf8 → b ≠ c := by
    rintro c hc rfl
    exact absurd h (UInt8.not_le.mpr hc)
  have hstatus : 0x80 ≤ b := UInt8.le_trans (by decide) h
  simp [isWhole, hstatus, hne 0xf0 (by decide), hne 0xf7 (by decide)]

theorem sane_next {m : Mode} (h : m.Sane) (b : UInt8) :
    (m.next b).1.Sane ∧ ∀ e ∈ (m.next b).2, e.Sane := by
  unfold Mode.next
  -- a real-time octet passes by
  by_cases hrt : 0xf8 ≤ b
  · rw [if_pos hrt]
    refine ⟨h, List.forall_mem_singleton.mpr ?_⟩
    exact isWhole_of_realTime hrt
  rw [if_neg hrt]
  -- a status begins a message, or an exclusive one
  by_cases hopens : Opens b
  · rw [if_pos hopens]
    by_cases hf0 : b = 0xf0
    · rw [if_pos hf0]
      refine ⟨trivial, List.forall_mem_singleton.mpr ?_⟩
      rw [hf0]
      exact (by decide : isWhole [0xf0] = false)
    · rw [if_neg hf0]
      split
      · exact ⟨trivial, List.forall_mem_singleton.mpr (isWhole_of_opens hopens hf0 [])⟩
      · exact ⟨⟨hopens, hf0⟩, fun e he => absurd he List.not_mem_nil⟩
  rw [if_neg hopens]
  -- what is left: a data octet, or an end of exclusive
  have hdata : b ≠ 0xf7 → b < 0x80 := by
    intro hf7
    by_contra hno
    exact hopens ⟨UInt8.not_lt.mp hno, UInt8.not_le.mp hrt, hf7⟩
  cases m with
  | idle => exact ⟨trivial, fun e he => absurd he List.not_mem_nil⟩
  | sysEx =>
    have hmode : Mode.Sane (if b = 0xf7 then .idle else .sysEx) := by
      split
      · trivial
      · trivial
    refine ⟨hmode, List.forall_mem_singleton.mpr ?_⟩
    by_cases hf7 : b = 0xf7
    · rw [hf7]
      exact (by decide : isWhole [0xf7] = false)
    · exact isWhole_of_data (hdata hf7) []
  | message s data =>
    dsimp only
    -- it ends nothing, it makes the message longer, or it completes one
    split
    · exact ⟨h, fun e he => absurd he List.not_mem_nil⟩
    · split
      · exact ⟨h, fun e he => absurd he List.not_mem_nil⟩
      · refine ⟨?_, List.forall_mem_singleton.mpr (isWhole_of_opens h.1 h.2 _)⟩
        split
        · exact h
        · trivial

theorem sane_run {m : Mode} (h : m.Sane) (bs : Bytes) : ∀ e ∈ (m.run bs).2, e.Sane := by
  induction bs generalizing m with
  | nil => exact fun e he => absurd he List.not_mem_nil
  | cons b bs ih =>
    obtain ⟨hmode, hevents⟩ := sane_next h b
    intro e he
    rcases List.mem_append.mp he with he | he
    · exact hevents e he
    · exact ih hmode e he

/-- The packets that are no pieces of a SysEx carry the events that are none. -/
theorem Packs.filter_whole {es : List Event} {ps : List Bytes} (h : Packs es ps)
    (hsane : ∀ e ∈ es, e.Sane) :
    ps.filter isWhole = (es.filter Event.whole).map Event.packet := by
  induction h with
  | nil => rfl
  | @message octets es ps _ ih =>
    rw [List.forall_mem_cons] at hsane
    have hfirst : isWhole octets = true := hsane.1
    rw [List.filter_cons_of_pos hfirst, List.filter_cons_of_pos rfl, ih hsane.2]
    rfl
  | @realTime b es ps _ ih =>
    rw [List.forall_mem_cons] at hsane
    have hfirst : isWhole [b] = true := hsane.1
    rw [List.filter_cons_of_pos hfirst, List.filter_cons_of_pos rfl, ih hsane.2]
    rfl
  | @sysEx octets es ps hne _ ih =>
    obtain ⟨b, octets, rfl⟩ := List.exists_cons_of_ne_nil hne
    have hpieces : (octets.map Event.sysEx).filter Event.whole = [] := by
      simp [Event.whole]
    rw [List.map_cons, List.cons_append, List.forall_mem_cons] at hsane
    have hfirst : isWhole (b :: octets) = false := hsane.1
    rw [List.filter_cons_of_neg (by simp [hfirst]), List.map_cons, List.cons_append,
      List.filter_cons_of_neg (by simp [Event.whole]), List.filter_append, hpieces,
      ih fun e he => hsane.2 e (List.mem_append_right _ he)]
    rfl

/-! ## Gaps -/

/-- The mode behind `past`. -/
def modeOf (past : Bytes) : Mode := (Mode.idle.run past).1

theorem modeOf_append (past bs : Bytes) : modeOf (past ++ bs) = ((modeOf past).run bs).1 := by
  rw [modeOf, Mode.run_append]
  rfl

theorem modeOf_concat (past : Bytes) (b : UInt8) :
    modeOf (past ++ [b]) = ((modeOf past).next b).1 := by
  rw [modeOf_append]
  rfl

theorem of_modeOf (past : Bytes) : (modeOf past).Of past := by
  induction past using List.reverseRecOn with
  | nil => exact .start rfl
  | append_singleton past b ih =>
    rw [modeOf_concat]
    exact (next_of ih b).1

theorem eventsAt_eq (past : Bytes) (b : UInt8) : eventsAt past b = ((modeOf past).next b).2 :=
  (next_of (of_modeOf past) b).2.symm

theorem sane_modeOf (past : Bytes) : (modeOf past).Sane := by
  induction past using List.reverseRecOn with
  | nil => trivial
  | append_singleton past b ih =>
    rw [modeOf_concat]
    exact (sane_next ih b).1

/-- A message is in progress, or running status is in force. -/
def Mode.busy : Mode → Bool
  | .message _ _ => true
  | _ => false

/-- A machine in the mode `m` that reads `bs` makes no message that one in the mode `m'` does not
    make there: they are in one mode, or it has no status in force, or no data stands in front of
    the first status. -/
def Seamless (m m' : Mode) (bs : Bytes) : Prop :=
  m = m' ∨ m.busy = false ∨ ∀ b ∈ bs.takeWhile (¬ Opens ·), 0x80 ≤ b

instance (m m' : Mode) (bs : Bytes) : Decidable (Seamless m m' bs) :=
  inferInstanceAs (Decidable (_ ∨ _ ∨ _))

theorem seamless_next {m m' : Mode} {b : UInt8} {bs : Bytes} (h : Seamless m m' (b :: bs)) :
    (∀ e ∈ (m.next b).2, e.whole = true → e ∈ (m'.next b).2) ∧
    Seamless (m.next b).1 (m'.next b).1 bs := by
  by_cases hopens : Opens b
  · -- a status leaves nothing of the mode
    have hrt : ¬ 0xf8 ≤ b := UInt8.not_le.mpr hopens.2.1
    have hsame : m.next b = m'.next b := by
      simp only [Mode.next, if_neg hrt, if_pos hopens]
    rw [hsame]
    exact ⟨fun e he _ => he, Or.inl rfl⟩
  rw [Seamless, List.takeWhile_cons_of_pos (by simpa using hopens), List.forall_mem_cons] at h
  -- a real-time octet is the same in every mode
  by_cases hrt : 0xf8 ≤ b
  · have hnext : ∀ m : Mode, m.next b = (m, [.realTime b]) := fun m => if_pos hrt
    rw [hnext, hnext]
    exact ⟨fun e he _ => he, h.imp_right (Or.imp_right And.right)⟩
  -- the same mode; data octets in a mode that is not a message; an end of exclusive
  rcases h with rfl | hbusy | ⟨hb, hbs⟩
  · exact ⟨fun e he _ => he, Or.inl rfl⟩
  · cases m with
    | idle =>
      have hnext : Mode.next .idle b = (.idle, []) := by
        simp only [Mode.next, if_neg hrt, if_neg hopens]
      rw [hnext]
      exact ⟨fun e he => absurd he List.not_mem_nil, Or.inr (Or.inl rfl)⟩
    | sysEx =>
      have hnext : Mode.next .sysEx b = (if b = 0xf7 then .idle else .sysEx, [.sysEx b]) := by
        simp only [Mode.next, if_neg hrt, if_neg hopens]
      rw [hnext]
      refine ⟨fun e he hwhole => ?_, Or.inr (Or.inl ?_)⟩
      · rw [List.mem_singleton.mp he] at hwhole
        cases hwhole
      · dsimp only
        split <;> rfl
    | message s data => cases hbusy
  · -- an end of exclusive, which is nothing in a message
    have hf7 : b = 0xf7 := by
      by_contra hne
      exact hopens ⟨hb, UInt8.not_le.mp hrt, hne⟩
    cases m with
    | idle =>
      have hnext : Mode.next .idle b = (.idle, []) := by
        simp only [Mode.next, if_neg hrt, if_neg hopens]
      rw [hnext]
      exact ⟨fun e he => absurd he List.not_mem_nil, Or.inr (Or.inl rfl)⟩
    | sysEx =>
      have hnext : Mode.next .sysEx b = (.idle, [.sysEx b]) := by
        simp only [Mode.next, if_neg hrt, if_neg hopens, if_pos hf7]
      rw [hnext]
      refine ⟨fun e he hwhole => ?_, Or.inr (Or.inl rfl)⟩
      rw [List.mem_singleton.mp he] at hwhole
      cases hwhole
    | message s data =>
      have hnext : Mode.next (.message s data) b = (.message s data, []) := by
        simp only [Mode.next, if_neg hrt, if_neg hopens, if_pos hf7]
      rw [hnext]
      exact ⟨fun e he => absurd he List.not_mem_nil, Or.inr (Or.inr hbs)⟩

end CdjEmu.Midi
