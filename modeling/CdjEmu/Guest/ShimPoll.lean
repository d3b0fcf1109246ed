/-
  THE SHIM'S `poll` — the kernel's answer with the events that the shim makes up.

  `poll` lets the kernel answer for every descriptor and then adds events of its own: `POLLIN` for a
  DRM descriptor with a pending flip, `POLLOUT` for a descriptor of the USB gadget.  One loop adds
  both kinds (`addEvent`); what differs is which entries it takes and which of them it counts.

  `poll` keeps its contract (`Contract`: the entries with events are counted, the kernel's events
  stay, the made-up ones are added where they were asked for) just where the flips that are asked
  for fall on entries that suit the path taken: the DRM path counts each entry that it changes, so
  the kernel must have reported nothing for it; the gadget's path adds no flip at all, so the kernel
  must have reported the entry as readable by itself (`Suited`).

  1. **Program** — `poll` with its two paths and the one loop behind both; the kernel is a
     parameter, which fails or gives the events of every entry.

  2. **Specification** — `granted` is the entry as `poll` ought to leave it, and `Contract` says
     that every entry is left so and that the number returned counts those with events.

  3. **The crux** — where the loop counts an entry that had events already, or leaves one out that
     had none, the number is wrong, and it cannot be made up for elsewhere: the sums differ by one
     for each such entry.
-/
import CdjEmu.Guest.FlipSlots

namespace CdjEmu.Flip

def POLLIN : BitVec 16 := 1#16

def POLLOUT : BitVec 16 := 4#16

/-- `struct pollfd`. -/
structure Entry where
  fd : Int
  events : BitVec 16
  revents : BitVec 16
  deriving DecidableEq

namespace Entry

def asks (p : Entry) (bit : BitVec 16) : Bool := p.events &&& bit ≠ 0#16

def reports (p : Entry) (bit : BitVec 16) : Bool := p.revents &&& bit ≠ 0#16

/-- The entry with `bit` added to its `revents`. -/
def plus (p : Entry) (bit : BitVec 16) : Entry := { p with revents := p.revents ||| bit }

end Entry

/-- The entries with events. -/
def countReady (fds : List Entry) : Nat := fds.countP fun p => p.revents ≠ 0#16

/-- The entries as the kernel leaves them. -/
def answered (fds : List Entry) (answer : Nat → BitVec 16) : List Entry :=
  fds.mapIdx fun i p => { p with revents := answer i }

/-- `raw_poll`: the kernel fails, or reports the events of each entry and counts
    the entries with events. -/
def rawPoll (kernel : Int → Option (Nat → BitVec 16)) (fds : List Entry) (timeout : Int) :
    Option (Nat × List Entry) :=
  (kernel timeout).map fun answer => (countReady (answered fds answer), answered fds answer)

/-- The loop after the kernel's answer: `bit` is added to the entries that `takes` selects, those
    that `counts` are counted. -/
def addEvent (bit : BitVec 16) (takes counts : Entry → Bool) : Nat → List Entry → Nat × List Entry
  | total, [] => (total, [])
  | total, p :: fds =>
    if takes p then
      let (total, fds) := addEvent bit takes counts (if counts p then total + 1 else total) fds
      (total, p.plus bit :: fds)
    else
      let (total, fds) := addEvent bit takes counts total fds
      (total, p :: fds)

/-- The DRM path's loop takes the entries that wait for a pending flip and are not
    readable yet, and counts each. -/
def State.addPollin (s : State) (total : Nat) (fds : List Entry) : Nat × List Entry :=
  addEvent POLLIN (fun p => s.isDrmFd p.fd && s.pending p.fd && p.asks POLLIN && !p.reports POLLIN)
    (fun _ => true)
    total fds

/-- The gadget's loop takes every entry that asks for `POLLOUT`, and counts those without events. -/
def addPollout (hidg : Int → Bool) (total : Nat) (fds : List Entry) : Nat × List Entry :=
  addEvent POLLOUT (fun p => hidg p.fd && p.asks POLLOUT) (fun p => p.revents = 0#16) total fds

namespace State

variable (s : State) (hidg : Int → Bool)

/-- `poll`: the number that it returns and the entries, or `none` where it returns -1.
    `hidg` is `is_hidg_fd`. -/
def shimPoll (kernel : Int → Option (Nat → BitVec 16)) (fds : List Entry) (timeout : Int) :
    Option (Nat × List Entry) :=
  let hidg_n := fds.countP fun p => hidg p.fd
  let drm_n := fds.countP fun p => !hidg p.fd && (s.isDrmFd p.fd && p.asks POLLIN)
  if hidg_n + drm_n = 0 then rawPoll kernel fds timeout
  else if drm_n ≠ 0 ∧ hidg_n = 0 then
    let flipPending := fds.any fun p => s.isDrmFd p.fd && s.pending p.fd
    let cap := if flipPending then 0 else if timeout < 0 ∨ 33 < timeout then 33 else timeout
    (rawPoll kernel fds cap).map fun (total, fds) => s.addPollin total fds
  else
    let hasPollout := fds.any fun p => hidg p.fd && p.asks POLLOUT
    (rawPoll kernel fds (if hasPollout then 0 else timeout)).map fun (total, fds) =>
      if hasPollout then addPollout hidg total fds else (total, fds)

/-- A DRM entry that asks for `POLLIN` and has a pending flip. -/
def awaitsFlip (p : Entry) : Bool := s.isDrmFd p.fd && s.pending p.fd && p.asks POLLIN

/-- A gadget's entry that asks for `POLLOUT`. -/
def awaitsRoom (p : Entry) : Bool := hidg p.fd && p.asks POLLOUT

/-- The entry as `poll` ought to leave it. -/
def granted (p : Entry) : Entry :=
  { p with revents := p.revents ||| (if s.awaitsFlip p then POLLIN else 0#16) |||
                      (if awaitsRoom hidg p then POLLOUT else 0#16) }

/-- `fds`, which the kernel has answered, becomes `out`: the kernel's events stay, `POLLIN` and
    `POLLOUT` are added just where they are due, and `total` counts the entries with events. -/
structure Contract (fds : List Entry) (total : Nat) (out : List Entry) : Prop where
  counted : total = countReady out
  merged : out = fds.map (s.granted hidg)

/-- An entry that waits for a pending flip: the kernel has reported it as readable, or, where no
    entry is the gadget's, has reported nothing for it. -/
def Suited (fds : List Entry) : Prop :=
  ∀ p ∈ fds, s.awaitsFlip p = true → p.reports POLLIN = true ∨ (∀ q ∈ fds, hidg q.fd = false) ∧
  p.revents = 0#16

/-- The timeout that the kernel is given. -/
def kernelTimeout (fds : List Entry) (timeout : Int) : Int :=
  let hidg_n := fds.countP fun p => hidg p.fd
  let drm_n := fds.countP fun p => !hidg p.fd && (s.isDrmFd p.fd && p.asks POLLIN)
  if hidg_n + drm_n = 0 then timeout
  else if drm_n ≠ 0 ∧ hidg_n = 0 then
    if fds.any fun p => s.isDrmFd p.fd && s.pending p.fd then 0
    else if timeout < 0 ∨ 33 < timeout then 33
    else timeout
  else if fds.any fun p => hidg p.fd && p.asks POLLOUT then 0 else timeout

end State

/-! ## Bits -/

variable {s : State} {hidg : Int → Bool} {p : Entry}

theorem Entry.reports_pollin : p.reports POLLIN = p.revents.getLsbD 0 := by
  unfold Entry.reports POLLIN
  rw [BitVec.and_one_eq_setWidth_ofBool_getLsbD]
  rcases Bool.eq_false_or_eq_true (p.revents.getLsbD 0) with h | h
  · rw [h]
    decide
  · rw [h]
    decide

/-- A bit that is reported adds nothing. -/
theorem Entry.or_pollin (h : p.reports POLLIN = true) : p.revents ||| POLLIN = p.revents := by
  rw [Entry.reports_pollin] at h
  ext i hi
  rcases Nat.eq_zero_or_pos i with rfl | hpos
  · rw [BitVec.getElem_or, ← BitVec.getLsbD_eq_getElem, h, Bool.true_or]
  · simp [POLLIN, BitVec.getElem_one, Nat.pos_iff_ne_zero.mp hpos]

/-- One that is not reported does, beside any other bits. -/
theorem Entry.or_pollin_ne (h : p.reports POLLIN = false) {other : BitVec 16}
    (hother : other.getLsbD 0 = false) :
    p.revents ||| other ≠ p.revents ||| POLLIN ||| other := by
  intro heq
  rw [Entry.reports_pollin] at h
  have hbit := congrArg (fun x => x.getLsbD 0) heq
  simp only [BitVec.getLsbD_or, h, hother] at hbit
  exact absurd hbit (by decide)

/-! ## The loops -/

/-- What the loop leaves, and what it counts. -/
theorem addEvent_eq (bit : BitVec 16) (takes counts : Entry → Bool) (total : Nat)
    (fds : List Entry) :
    addEvent bit takes counts total fds =
      (total + (fds.countP fun p => takes p && counts p), fds.map fun p =>
        if takes p then p.plus bit else p) := by
  induction fds generalizing total with
  | nil => rfl
  | cons p fds ih =>
    rw [addEvent, List.countP_cons, List.map_cons]
    by_cases ht : takes p = true
    · rw [if_pos ht, if_pos ht, ih, ht, Bool.true_and]
      by_cases hc : counts p = true
      · rw [if_pos hc, if_pos hc, Nat.add_right_comm, ← Nat.add_assoc]
      · rw [if_neg hc, if_neg hc, Nat.add_zero]
    · rw [if_neg ht, if_neg ht, ih, Bool.eq_false_iff.mpr ht]
      rfl

/-- The entries with events afterwards: those that had some, and those taken that had none. -/
theorem countReady_plus {bit : BitVec 16} (hbit : bit ≠ 0#16) (takes : Entry → Bool)
    (fds : List Entry) :
    countReady (fds.map fun p => if takes p then p.plus bit else p) =
      countReady fds + fds.countP fun p => takes p && decide (p.revents = 0#16) := by
  induction fds with
  | nil => rfl
  | cons p fds ih =>
    have hor : p.revents ||| bit ≠ 0#16 := by
      intro hzero
      exact hbit (BitVec.or_eq_zero_iff.mp hzero).2
    unfold countReady at *
    rw [List.map_cons, List.countP_cons, List.countP_cons, List.countP_cons, ih]
    by_cases ht : takes p = true
    · by_cases hz : p.revents = 0#16
      · simp [ht, hz, Entry.plus, hbit]
        omega
      · simp [ht, hz, Entry.plus, hor]
        omega
    · simp [ht]
      omega

/-- Counting each entry taken is counting those without events just where
    every entry taken has none. -/
theorem countP_taken_iff (takes : Entry → Bool) (fds : List Entry) :
    fds.countP takes = (fds.countP fun p => takes p && decide (p.revents = 0#16)) ↔
      ∀ p ∈ fds, takes p = true → p.revents = 0#16 := by
  have hsplit := List.countP_eq_countP_filter_add fds takes fun p => decide (p.revents = 0#16)
  rw [List.countP_filter, List.countP_filter] at hsplit
  constructor
  · intro heq p hp ht
    have hnone : (fds.countP fun p => takes p && !decide (p.revents = 0#16)) = 0 := by
      omega
    have hp' := List.countP_eq_zero.mp hnone p hp
    by_contra hne
    exact hp' (by simp [ht, hne])
  · intro h
    apply List.countP_congr
    intro p hp
    constructor
    · intro ht
      simp [ht, h p hp ht]
    · intro ht
      exact (Bool.and_eq_true_iff.mp ht).1

/-! ## The kernel's answer -/

/-- The kernel writes `revents` alone. -/
theorem answered_all {P : Entry → Prop} (h : ∀ p revents, P { p with revents := revents } ↔ P p)
    (fds : List Entry) (answer : Nat → BitVec 16) :
    (∀ p ∈ answered fds answer, P p) ↔ ∀ p ∈ fds, P p := by
  constructor
  · intro hall p hp
    obtain ⟨i, hi, rfl⟩ := List.getElem_of_mem hp
    exact (h _ _).mp (hall _ (List.mem_mapIdx.mpr ⟨i, hi, rfl⟩))
  · intro hall p hp
    obtain ⟨i, hi, rfl⟩ := List.mem_mapIdx.mp hp
    exact (h _ _).mpr (hall _ (List.getElem_mem hi))

theorem Entry.plus_if (c : Bool) (bit : BitVec 16) :
    (if c then p.plus bit else p) =
      { p with revents := p.revents ||| if c then bit else 0#16 } := by
  rcases Bool.eq_false_or_eq_true c with rfl | rfl
  · rfl
  · show p = { p with revents := p.revents ||| 0#16 }
    rw [BitVec.or_zero]

namespace State

variable {fds : List Entry}

/-- The flip alone. -/
theorem granted_flip (h : awaitsRoom hidg p = false) :
    s.granted hidg p =
      if s.isDrmFd p.fd && s.pending p.fd && p.asks POLLIN && !p.reports POLLIN then p.plus POLLIN
        else p := by
  show _ = if s.awaitsFlip p && !p.reports POLLIN then p.plus POLLIN else p
  rw [Entry.plus_if]
  unfold granted
  rw [h, if_neg Bool.false_ne_true, BitVec.or_zero]
  rcases Bool.eq_false_or_eq_true (p.reports POLLIN) with hrep | hrep
  · rw [hrep, Bool.not_true, Bool.and_false, if_neg Bool.false_ne_true, BitVec.or_zero]
    split
    · rw [Entry.or_pollin hrep]
    · rw [BitVec.or_zero]
  · rw [hrep, Bool.not_false, Bool.and_true]

/-- The entries that the gadget's path leaves as they ought to be. -/
theorem granted_room_iff :
    (if awaitsRoom hidg p then p.plus POLLOUT else p) = s.granted hidg p ↔
      (s.awaitsFlip p = true → p.reports POLLIN = true) := by
  rw [Entry.plus_if]
  unfold granted
  constructor
  · intro heq hflip
    by_contra hrep
    have hrevents := congrArg Entry.revents heq
    rw [if_pos hflip] at hrevents
    refine Entry.or_pollin_ne (Bool.eq_false_iff.mpr hrep) ?_ hrevents
    split <;> decide
  · intro h
    rcases Bool.eq_false_or_eq_true (s.awaitsFlip p) with hflip | hflip
    · rw [if_pos hflip, Entry.or_pollin (h hflip)]
    · rw [hflip, if_neg Bool.false_ne_true, BitVec.or_zero]

/-! ## The paths -/

/-- No entry is the gadget's, none is a DRM one that asks for `POLLIN`. -/
theorem contract_straight (hroom : ∀ p ∈ fds, hidg p.fd = false)
    (hflip : ∀ p ∈ fds, (s.isDrmFd p.fd && p.asks POLLIN) = false) :
    s.Contract hidg fds (countReady fds) fds ↔ s.Suited hidg fds := by
  have hawaits : ∀ p ∈ fds, s.awaitsFlip p = false := by
    intro p hp
    unfold awaitsFlip
    rw [Bool.and_right_comm, hflip p hp, Bool.false_and]
  constructor
  · intro _ p hp hyes
    exact absurd ((hawaits p hp).symm.trans hyes) Bool.false_ne_true
  · intro _
    refine ⟨rfl, ?_⟩
    have hsame : ∀ p ∈ fds, s.granted hidg p = p := by
      intro p hp
      have hno : awaitsRoom hidg p = false := by
        rw [awaitsRoom, hroom p hp, Bool.false_and]
      rw [← granted_room_iff.mpr fun hyes => absurd
        ((hawaits p hp).symm.trans hyes) Bool.false_ne_true, hno]
      rfl
    exact ((List.map_congr_left hsame).trans (List.map_id' _)).symm

/-- No entry is the gadget's. -/
theorem contract_drm (hroom : ∀ p ∈ fds, hidg p.fd = false) :
    s.Contract hidg fds (s.addPollin (countReady fds) fds).1 (s.addPollin (countReady fds) fds).2 ↔
    s.Suited hidg fds := by
  have hmerged : fds.map (s.granted hidg) = fds.map fun p =>
      if s.isDrmFd p.fd && s.pending p.fd && p.asks POLLIN && !p.reports POLLIN then p.plus POLLIN
        else p := by
    apply List.map_congr_left
    intro p hp
    apply granted_flip
    rw [awaitsRoom, hroom p hp, Bool.false_and]
  -- what is left is the count: each entry taken against each entry taken without events
  have hcount : s.Contract hidg fds (s.addPollin (countReady fds) fds).1
      (s.addPollin (countReady fds) fds).2 ↔
      ∀ p ∈ fds, (s.awaitsFlip p && !p.reports POLLIN) = true → p.revents = 0#16 := by
    rw [← countP_taken_iff]
    unfold addPollin
    rw [addEvent_eq]
    simp only [Bool.and_true]
    constructor
    · intro h
      have hc := h.counted
      rw [countReady_plus (by decide)] at hc
      exact Nat.add_left_cancel hc
    · intro heq
      refine ⟨?_, hmerged.symm⟩
      rw [countReady_plus (by decide)]
      exact congrArg (countReady fds + ·) heq
  rw [hcount]
  constructor
  · intro h p hp hflip
    rcases Bool.eq_false_or_eq_true (p.reports POLLIN) with hrep | hrep
    · exact .inl hrep
    · exact .inr ⟨hroom, h p hp (by rw [hflip, hrep]; rfl)⟩
  · intro h p hp htaken
    obtain ⟨hflip, hrep⟩ := Bool.and_eq_true_iff.mp htaken
    rcases h p hp hflip with hyes | hzero
    · rw [hyes] at hrep
      exact absurd hrep (by decide)
    · exact hzero.2

/-- Some entry is the gadget's. -/
theorem contract_gadget (hroom : ¬ ∀ p ∈ fds, hidg p.fd = false) {total : Nat} {out : List Entry}
    (htotal : total = countReady out)
    (hout : out = fds.map fun p => if awaitsRoom hidg p then p.plus POLLOUT else p) :
    s.Contract hidg fds total out ↔ s.Suited hidg fds := by
  have hmerged : s.Contract hidg fds total out ↔ ∀ p ∈ fds, s.awaitsFlip p = true →
      p.reports POLLIN = true := by
    constructor
    · intro h p hp
      have heq := hout.symm.trans h.merged
      exact granted_room_iff.mp (List.map_inj_left.mp heq p hp)
    · intro h
      refine ⟨htotal, hout.trans ?_⟩
      exact List.map_congr_left fun p hp => granted_room_iff.mpr (h p hp)
  rw [hmerged]
  constructor
  · intro h p hp hflip
    exact .inl (h p hp hflip)
  · intro h p hp hflip
    rcases h p hp hflip with hyes | ⟨hnone, _⟩
    · exact hyes
    · exact absurd hnone hroom

/-- The gadget's loop counts and marks as it ought to. -/
theorem addPollout_eq (fds : List Entry) :
    addPollout hidg (countReady fds) fds =
      (countReady (fds.map fun p => if awaitsRoom hidg p then p.plus POLLOUT else p),
        fds.map fun p => if awaitsRoom hidg p then p.plus POLLOUT else p) := by
  rw [countReady_plus (by decide)]
  exact addEvent_eq _ _ _ _ _

/-- Where the kernel fails, `poll` fails. -/
theorem shimPoll_none {kernel : Int → Option (Nat → BitVec 16)} {timeout : Int}
    (h : kernel (s.kernelTimeout hidg fds timeout) = none) :
    s.shimPoll hidg kernel fds timeout = none := by
  unfold kernelTimeout at h
  unfold shimPoll rawPoll
  dsimp only at *
  split at h
  · rename_i hn
    rw [if_pos hn, h]
    rfl
  · rename_i hn
    rw [if_neg hn]
    split at h
    · rename_i hdrm
      rw [if_pos hdrm, h]
      rfl
    · rename_i hdrm
      rw [if_neg hdrm, h]
      rfl

/-- Where it answers, one of the paths goes on from the answer, and keeps the contract
    just if that suits it. -/
theorem shimPoll_some {kernel : Int → Option (Nat → BitVec 16)} {timeout : Int}
    {answer : Nat → BitVec 16} (h : kernel (s.kernelTimeout hidg fds timeout) = some answer) :
    ∃ total out, s.shimPoll hidg kernel fds timeout = some (total, out) ∧
      (s.Contract hidg (answered fds answer) total out ↔ s.Suited hidg (answered fds answer)) := by
  have hroom : (∀ p ∈ answered fds answer, hidg p.fd = false) ↔
      (fds.countP fun p => hidg p.fd) = 0 := by
    rw [answered_all (P := fun p => hidg p.fd = false) (fun _ _ => Iff.rfl), List.countP_eq_zero]
    exact forall₂_congr fun p _ => Bool.eq_false_iff
  unfold kernelTimeout at h
  unfold shimPoll rawPoll
  dsimp only at *
  split at h
  · rename_i hn
    obtain ⟨hhidg, hdrm⟩ := Nat.add_eq_zero_iff.mp hn
    refine ⟨countReady (answered fds answer), answered fds answer, by rw [if_pos hn, h]; rfl, ?_⟩
    apply contract_straight (hroom.mpr hhidg)
    rw [answered_all (P := fun p => (s.isDrmFd p.fd && p.asks POLLIN) = false) (fun _ _ => Iff.rfl)]
    intro p hp
    have hno := List.countP_eq_zero.mp hdrm p hp
    rw [Bool.eq_false_iff.mpr (List.countP_eq_zero.mp hhidg p hp)] at hno
    exact Bool.eq_false_iff.mpr hno
  · rename_i hn
    rw [if_neg hn]
    split at h
    · rename_i hdrm
      rw [if_pos hdrm, h]
      exact ⟨_, _, rfl, contract_drm (hroom.mpr hdrm.2)⟩
    · rename_i hdrm
      have hsome : ¬ ∀ p ∈ answered fds answer, hidg p.fd = false := by
        rw [hroom]
        omega
      rw [if_neg hdrm, h]
      by_cases hany : (fds.any fun p => hidg p.fd && p.asks POLLOUT) = true
      · simp only [if_pos hany, Option.map_some, addPollout_eq]
        exact ⟨_, _, rfl, contract_gadget hsome rfl rfl⟩
      · simp only [if_neg hany, Option.map_some]
        refine ⟨_, _, rfl, contract_gadget hsome rfl ?_⟩
        have hnone : ∀ p ∈ answered fds answer, awaitsRoom hidg p = false := by
          rw [answered_all (P := fun p => awaitsRoom hidg p = false) (fun _ _ => Iff.rfl)]
          intro p hp
          exact Bool.eq_false_iff.mpr fun hyes => hany (List.any_eq_true.mpr ⟨p, hp, hyes⟩)
        have hsame : ∀ p ∈ answered fds answer,
            (if awaitsRoom hidg p then p.plus POLLOUT else p) = p := by
          intro p hp
          rw [hnone p hp, if_neg Bool.false_ne_true]
        exact ((List.map_congr_left hsame).trans (List.map_id' _)).symm

/-- Where the kernel fails `poll` fails; where it answers, `poll` keeps its contract just if the
    flips that are asked for fall on entries that suit the path. -/
theorem poll_contract_iff (s : State) (hidg : Int → Bool) (kernel : Int → Option (Nat → BitVec 16))
    (fds : List Entry) (timeout : Int) :
    match kernel (s.kernelTimeout hidg fds timeout), s.shimPoll hidg kernel fds timeout with
    | none, result => result = none
    | some _, none => False
    | some answer, some (total, out) =>
      s.Contract hidg (answered fds answer) total out ↔ s.Suited hidg (answered fds answer) := by
  rcases hkernel : kernel (s.kernelTimeout hidg fds timeout) with _ | answer
  · exact shimPoll_none hkernel
  · obtain ⟨total, out, heq, hiff⟩ := shimPoll_some hkernel
    rw [heq]
    exact hiff

/-- The shim with one DRM descriptor, 5, that has a pending flip. -/
def oneFlip : State := ⟨[⟨5, 1, 0⟩], [5], [5], fun fd => decide (fd = 5)⟩

/-- One DRM descriptor with a pending flip, for which the kernel reports `POLLERR`
    (8): `poll` returns 2. -/
theorem flip_beside_error_counted_twice :
    ¬ ∀ (s : State) (hidg : Int → Bool) (kernel : Int → Option (Nat → BitVec 16)) (fds : List Entry)
      (timeout : Int)
        (answer : Nat → BitVec 16) (total : Nat) (out : List Entry),
      kernel (s.kernelTimeout hidg fds timeout) = some answer →
      s.shimPoll hidg kernel fds timeout = some (total, out) →
      s.Contract hidg (answered fds answer) total out := by
  intro h
  have hcontract := h oneFlip (fun _ => false) (fun _ => some fun _ => 8#16) [⟨5, POLLIN, 0#16⟩]
      (-1) (fun _ => 8#16) 2
    [⟨5, POLLIN, 9#16⟩] rfl (by decide)
  exact absurd hcontract.counted (by decide)

/-- And a gadget's descriptor beside it: the flip is not reported. -/
example : oneFlip.shimPoll (· = 9) (fun _ => some fun _ => 0#16)
    [⟨5, POLLIN, 0#16⟩, ⟨9, POLLOUT, 0#16⟩] (-1) =
    some (1, [⟨5, POLLIN, 0#16⟩, ⟨9, POLLOUT, POLLOUT⟩]) := by
  decide

end State

end CdjEmu.Flip
