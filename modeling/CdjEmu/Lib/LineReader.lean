/-
  A READER OF LINES — `read_until` on a stream that arrives bit by bit.

  `transit` is under way, `buffer` has arrived, `part` is the begun line that the reader has taken
  out of the buffer. A read that gives up may keep `part` for the next one, or lose it (`forget`).

  `Due nl r ls` says that the reader has the lines `ls` before it, the begun one first.  Arriving
  and reading on do not change them, a whole line takes the first one off, and forgetting cuts it
  short: so what is lost is the front of one line, and all others come out as they were sent.
-/
import CdjEmu.Lib.Framing

namespace CdjEmu

structure LineReader (α : Type) where
  part : List α
  buffer : List α
  transit : List α
  deriving DecidableEq

namespace LineReader

variable {α : Type} (nl : α) (r : LineReader α)

/-- Nothing has been sent. -/
def empty : LineReader α := ⟨[], [], []⟩

/-- More is sent. -/
def send (s : List α) : LineReader α := { r with transit := r.transit ++ s }

/-- One more line is sent. -/
def post (l : List α) : LineReader α := r.send (l ++ [nl])

/-- The next `k` elements arrive. -/
def arrive (k : Nat) : LineReader α :=
  { r with buffer := r.buffer ++ r.transit.take k, transit := r.transit.drop k }

/-- Read up to the separator; the whole line without it, if it has arrived. -/
def readUntil [DecidableEq α] : Option (List α) × LineReader α :=
  match splitOnce nl r.buffer with
  | some (a, rest) => (some (r.part ++ a), { r with part := [], buffer := rest })
  | none => (none, { r with part := r.part ++ r.buffer, buffer := [] })

/-- The begun line is lost. -/
def forget : LineReader α := { r with part := [] }

/-- The lines before the reader. -/
structure Due (ls : List (List α)) : Prop where
  stream : r.part ++ r.buffer ++ r.transit = joinLines nl ls
  whole : ∀ l ∈ ls, nl ∉ l
  begun : nl ∉ r.part

variable {nl r} {ls : List (List α)}

theorem Due.empty : (empty : LineReader α).Due nl [] := ⟨rfl, nofun, List.not_mem_nil⟩

theorem Due.post (h : r.Due nl ls) {l : List α} (hl : nl ∉ l) :
    (r.post nl l).Due nl (ls ++ [l]) := by
  refine ⟨?_, fun m hm => ?_, h.begun⟩
  · rw [joinLines_append, ← h.stream]
    simp [LineReader.post, LineReader.send, joinLines]
  · rcases List.mem_append.mp hm with hold | hnew
    · exact h.whole m hold
    · exact List.mem_singleton.mp hnew ▸ hl

theorem Due.arrive (h : r.Due nl ls) (k : Nat) : (r.arrive k).Due nl ls := by
  refine ⟨?_, h.whole, h.begun⟩
  rw [← h.stream]
  simp [LineReader.arrive, List.append_assoc]

/-- The begun line is a part of the first one. -/
theorem Due.part_front (h : r.Due nl ls) : r.part = [] ∨ ∃ l ls', ls = l :: ls' ∧ r.part <+: l := by
  cases ls with
  | nil =>
    left
    have hnil : r.part ++ r.buffer ++ r.transit = [] := h.stream
    simp only [List.append_eq_nil_iff] at hnil
    exact hnil.1.1
  | cons l ls =>
    right
    refine ⟨l, ls, rfl, ?_⟩
    have hpart : r.part <+: l ++ nl :: joinLines nl ls := by
      rw [← joinLines_cons, ← h.stream, List.append_assoc]
      exact List.prefix_append _ _
    have hline : l ++ [nl] <+: l ++ nl :: joinLines nl ls := ⟨joinLines nl ls, by simp⟩
    rcases List.prefix_or_prefix_of_prefix hpart hline with hshort | hlong
    · rcases List.prefix_concat_iff.mp hshort with heq | hlt
      · exact absurd (heq ▸ List.mem_append_right _ (List.mem_singleton_self nl)) h.begun
      · exact hlt
    · exact absurd (hlong.subset (List.mem_append_right _ (List.mem_singleton_self nl))) h.begun

/-- What is lost is the front of the first line. -/
theorem Due.forget (h : r.Due nl ls) :
    r.forget.Due nl (ls.modifyHead (List.drop r.part.length)) := by
  rcases h.part_front with hnil | ⟨l, ls', rfl, q, rfl⟩
  · have hsame : r.forget = r := by
      rw [LineReader.forget, ← hnil]
    have hls : ls.modifyHead (List.drop r.part.length) = ls := by
      rw [hnil]
      cases ls <;> rfl
    rw [hsame, hls]
    exact h
  · refine ⟨?_, fun m hm => ?_, List.not_mem_nil⟩
    · have hstream := h.stream
      rw [joinLines_cons, List.append_assoc, List.append_assoc] at hstream
      rw [List.modifyHead_cons, List.drop_left, joinLines_cons, ← List.append_cancel_left hstream]
      rfl
    · rw [List.modifyHead_cons, List.drop_left] at hm
      rcases List.mem_cons.mp hm with rfl | hm
      · exact fun hq => h.whole _ List.mem_cons_self (List.mem_append_right _ hq)
      · exact h.whole m (List.mem_cons_of_mem _ hm)

variable [DecidableEq α]

/-- A whole line is the first one. -/
theorem Due.readUntil_some (h : r.Due nl ls) {l : List α} {r' : LineReader α}
    (hread : r.readUntil nl = (some l, r')) :
    ∃ ls', ls = l :: ls' ∧ r'.Due nl ls' ∧ r'.part = [] := by
  cases hsplit : splitOnce nl r.buffer with
  | none =>
    rw [readUntil, hsplit] at hread
    cases hread
  | some p =>
    obtain ⟨a, rest⟩ := p
    rw [readUntil, hsplit] at hread
    obtain ⟨hl, rfl⟩ := Prod.mk.inj hread
    obtain rfl := Option.some.inj hl
    have hbuffer := eq_of_splitOnce hsplit
    have ha : nl ∉ a := notMem_of_splitOnce hsplit
    have hline : nl ∉ r.part ++ a := by
      rw [List.mem_append, not_or]
      exact ⟨h.begun, ha⟩
    have hstream := h.stream
    rw [hbuffer] at hstream
    cases ls with
    | nil => simp [joinLines] at hstream
    | cons l ls =>
      rw [joinLines_cons] at hstream
      have hfirst := splitOnce_append (h.whole l List.mem_cons_self) (joinLines nl ls)
      rw [← hstream, show r.part ++ (a ++ nl :: rest) ++ r.transit = (r.part ++ a) ++ nl ::
        (rest ++ r.transit) by simp, splitOnce_append hline] at hfirst
      obtain ⟨rfl, hrest⟩ := Prod.mk.inj (Option.some.inj hfirst)
      exact ⟨ls, rfl, ⟨hrest, fun m hm => h.whole m (List.mem_cons_of_mem _ hm), List.not_mem_nil⟩,
        rfl⟩

/-- When all has arrived, the first line can be read. -/
theorem Due.readUntil_ready (h : r.Due nl ls) (hls : ls ≠ []) (harrived : r.transit = []) :
    ∃ l r', r.readUntil nl = (some l, r') := by
  obtain ⟨l, ls, rfl⟩ := List.exists_cons_of_ne_nil hls
  cases hsplit : splitOnce nl r.buffer with
  | some p => exact ⟨_, _, by rw [readUntil, hsplit]⟩
  | none =>
    have hmem : nl ∈ r.part ++ r.buffer ++ r.transit := by
      rw [h.stream, joinLines_cons]
      simp
    rw [harrived, List.append_nil, List.mem_append] at hmem
    exact absurd hmem (not_or_intro h.begun (notMem_of_splitOnce_none hsplit))

/-- A read that has not found the separator goes on later. -/
theorem Due.readUntil_none (h : r.Due nl ls) {r' : LineReader α}
    (hread : r.readUntil nl = (none, r')) : r'.Due nl ls := by
  cases hsplit : splitOnce nl r.buffer with
  | some p =>
    rw [readUntil, hsplit] at hread
    cases hread
  | none =>
    rw [readUntil, hsplit] at hread
    obtain ⟨-, rfl⟩ := Prod.mk.inj hread
    refine ⟨?_, h.whole, ?_⟩
    · rw [← h.stream]
      simp
    · rw [List.mem_append, not_or]
      exact ⟨h.begun, notMem_of_splitOnce_none hsplit⟩

end LineReader

end CdjEmu
