/-
  DEVD'S JOBS — what a job writes goes to the host line by line, out of a buffer of 1024 octets.

  A read appends to the buffer; `drain` sends the whole lines in it and keeps the rest, unless the
  rest fills the buffer or the output has ended.  `reap` collects the exit status and ends the job
  once its output is closed.

  1. `Scanned` — the invariant of the loop over the buffer: what has been sent is what stands in
     front of `start`, and no newline stands between `start` and the octet looked at.
  2. `drain_spec` — one drain sends and keeps exactly what was in the buffer.
  3. `Streamed` — at every moment what was sent and what is kept is what was read; there is room for
     the next read; the exit line comes last.

  A piece says whether its text ended at a newline of the output.  It is sent without saying so.

  The machine `life` is one job from its start on:  `main` reads while the output is open, and each
  read may be interrupted or be the last; `reap` may be called at any time, and collects the status
  when there is one.  A line to the host is as the source writes it, with the job's number and at
  most one piece of output; no piece has a newline inside, and none is longer than the buffer.

  The host's table of jobs relies on one thing of it: that a job's lines are pieces and then at most
  one end.
-/
import CdjEmu.Lib.Machine
import CdjEmu.Runtime.DevProtocol

namespace CdjEmu.Devd

open Machine Text Dev

/-! ## The program -/

/-- `OUT_MAX`. -/
def outMax : Nat := 1024

structure Piece where
  text : Bytes
  /-- It ended at a newline. -/
  ended : Bool

/-- What of the output a piece is. -/
def Piece.octets (p : Piece) : Bytes := if p.ended then p.text ++ [newline] else p.text

/-- A line to the host. -/
inductive Sent where
  | out (id : Nat) (piece : Piece)
  | exit (id : Nat) (status : Int)

/-- What `emit_out` and `emit` write. -/
def Sent.line : Sent → Bytes
  | .out id piece => bytes "out " ++ decimal id ++ 32 :: piece.text ++ [newline]
  | .exit id status => bytes "exit " ++ decimal id ++ 32 ::
      (if status < 0 then 45 :: decimal status.natAbs else decimal status.natAbs) ++ [newline]

/-- `struct job`; `n` is the length of `buf`. -/
structure Job where
  id : Nat
  /-- `pid` is not 0. -/
  live : Bool
  /-- `fd` is not -1. -/
  opened : Bool
  /-- `status`, once `exited` is set. -/
  exited : Option Int
  buf : Bytes

/-- What `start_job` makes. -/
def Job.start (id : Nat) : Job := ⟨id, true, true, none, []⟩

/-- One octet of the loop in `drain`: the pieces so far and `start`. -/
def drainOctet (buf : Bytes) (s : List Piece × Nat) (i : Nat) : List Piece × Nat :=
  if buf[i]? = some newline then (s.1 ++ [⟨(buf.take i).drop s.2, true⟩], i + 1) else s

/-- Send the complete lines in the job's buffer, and the rest too when it fills the buffer or when
    `flush` is set. -/
def drain (j : Job) (flush : Bool) : List Piece × Job :=
  let (pieces, start) := (List.range j.buf.length).foldl (drainOctet j.buf) ([], 0)
  let rest := j.buf.length - start
  if rest = outMax ∨ flush = true ∧ 0 < rest then
    (pieces ++ [⟨j.buf.drop start, false⟩], { j with buf := [] })
  else (pieces, { j with buf := j.buf.drop start })

/-- What `read` answers. -/
inductive Read where
  | data (chunk : Bytes)
  | interrupted
  /-- The end of the output, or an error. -/
  | ended

def readJob (j : Job) : Read → List Sent × Job
  | .interrupted => ([], j)
  | .ended =>
    let (pieces, j) := drain j true
    (pieces.map (.out j.id), { j with opened := false })
  | .data chunk =>
    let (pieces, j) := drain { j with buf := j.buf ++ chunk } false
    (pieces.map (.out j.id), j)

/-- `reap`, for one job; `waited` is what `waitpid` collects. -/
def reap (j : Job) (waited : Option Int) : List Sent × Job :=
  let j := if j.exited.isNone then { j with exited := waited } else j
  match j.exited with
  | some status => if j.opened then ([], j) else ([.exit j.id status], { j with live := false })
  | none => ([], j)

/-! ## A job's life -/

inductive JobStep where
  | read (r : Read)
  | reap (waited : Option Int)
  /-- `kill_all`, when the port opens again. -/
  | dropped

/-- A job, what was sent for it, and what was read of its output. -/
structure Life where
  job : Job
  sent : List Sent
  output : Bytes

/-- `read` gives at least one octet and no more than there is room for. -/
def Read.fits (j : Job) : Read → Bool
  | .data chunk => chunk ≠ [] ∧ chunk.length ≤ outMax - j.buf.length
  | _ => true

def Read.octets : Read → Bytes
  | .data chunk => chunk
  | _ => []

/-- The machine of one job: `main` reads while the output is open, and reaps. -/
def life : Machine Life JobStep where
  step s
    | .read r =>
      if s.job.live = true ∧ s.job.opened = true ∧ r.fits s.job = true then
        some ⟨(readJob s.job r).2, s.sent ++ (readJob s.job r).1, s.output ++ r.octets⟩
      else none
    | .reap waited =>
        if s.job.live then some ⟨(reap s.job waited).2, s.sent ++ (reap s.job waited).1, s.output⟩
          else none
    | .dropped =>
        if s.job.live then some ⟨{ s.job with live := false, opened := false }, s.sent, s.output⟩
          else none

def Life.start (id : Nat) : Life := ⟨.start id, [], []⟩

/-! ## One drain -/

/-- A piece that can be sent in one line. -/
def Piece.Good (p : Piece) : Prop := newline ∉ p.text ∧ p.text.length ≤ outMax

/-- The loop has looked at the first `i` octets. -/
structure Scanned (buf : Bytes) (i : Nat) (s : List Piece × Nat) : Prop where
  start_le : s.2 ≤ i
  octets : s.1.flatMap Piece.octets = buf.take s.2
  begun : newline ∉ (buf.take i).drop s.2
  good : ∀ p ∈ s.1, newline ∉ p.text ∧ p.text.length ≤ buf.length

theorem Scanned.octet {buf : Bytes} {i : Nat} {s : List Piece × Nat} (h : Scanned buf i s)
    (hi : i < buf.length) :
    Scanned buf (i + 1) (drainOctet buf s i) := by
  obtain ⟨hle, hoctets, hbegun, hgood⟩ := h
  have htake : buf.take (i + 1) = buf.take i ++ [buf[i]] := List.take_succ_eq_append_getElem hi
  have hlen : (buf.take i).length = i := by
    rw [List.length_take]
    omega
  unfold drainOctet
  by_cases hc : buf[i]? = some newline
  · rw [if_pos hc]
    have hnl : buf[i] = newline := Option.some.inj ((List.getElem?_eq_getElem hi).symm.trans hc)
    refine ⟨Nat.le_refl _, ?_, ?_, ?_⟩
    -- A newline ends the piece: the octets since the last one, and the newline, which is not kept.
    · rw [List.flatMap_append, hoctets, htake, hnl]
      show buf.take s.2 ++ (((buf.take i).drop s.2 ++ [newline]) ++ []) = _
      have hsplit : buf.take i = (buf.take i).take s.2 ++ (buf.take i).drop s.2 :=
        (List.take_append_drop _ _).symm
      rw [List.take_take, Nat.min_eq_left hle] at hsplit
      rw [List.append_nil, ← List.append_assoc, ← hsplit]
    · rw [List.drop_of_length_le (by rw [List.length_take]; omega)]
      exact List.not_mem_nil
    · intro p hp
      rcases List.mem_append.mp hp with hp | hp
      · exact hgood p hp
      · obtain rfl := List.mem_singleton.mp hp
        refine ⟨hbegun, ?_⟩
        rw [List.length_drop]
        omega
  -- Any other octet joins the piece that is begun.
  · rw [if_neg hc]
    refine ⟨by omega, hoctets, ?_, hgood⟩
    rw [htake, List.drop_append_of_le_length (by omega), List.mem_append, not_or]
    refine ⟨hbegun, ?_⟩
    intro hmem
    apply hc
    rw [List.getElem?_eq_getElem hi, ← List.mem_singleton.mp hmem]

theorem scanned (buf : Bytes) {i : Nat} (hi : i ≤ buf.length) :
    Scanned buf i ((List.range i).foldl (drainOctet buf) ([], 0)) := by
  induction i with
  | zero => exact ⟨Nat.le_refl 0, rfl, List.not_mem_nil, fun p hp => (by cases hp)⟩
  | succ i ih =>
    rw [List.range_succ, List.foldl_append]
    exact (ih (by omega)).octet hi

/-- **One drain** of a buffer that is not overfull. -/
structure Drained (j : Job) (flush : Bool) (pieces : List Piece) (j' : Job) : Prop where
  whole : pieces.flatMap Piece.octets ++ j'.buf = j.buf
  good : ∀ p ∈ pieces, p.Good
  room : j'.buf.length < outMax
  flushed : flush = true → j'.buf = []
  same : j' = { j with buf := j'.buf }

theorem drain_spec {j : Job} (h : j.buf.length ≤ outMax) (flush : Bool) :
    Drained j flush (drain j flush).1 (drain j flush).2 := by
  obtain ⟨hle, hoctets, hbegun, hgood⟩ := scanned j.buf (Nat.le_refl _)
  rw [List.take_length] at hbegun
  unfold drain
  -- The scan is done; what remains is the buffer after the last newline.
  generalize (List.range j.buf.length).foldl (drainOctet j.buf) ([], 0) =
    s at hle hoctets hbegun hgood
  obtain ⟨pieces, start⟩ := s
  have hwhole : pieces.flatMap Piece.octets ++ j.buf.drop start = j.buf := by
    rw [hoctets]
    exact List.take_append_drop _ _
  have hpieces : ∀ p ∈ pieces, p.Good := by
    intro p hp
    obtain ⟨hno, hlen⟩ := hgood p hp
    exact ⟨hno, hlen.trans h⟩
  have hlast : (j.buf.drop start).length ≤ outMax := by
    rw [List.length_drop]
    omega
  dsimp only
  split
  -- The rest goes out as a piece without a newline: the job has ended, or the buffer is full.
  · refine ⟨?_, ?_, Nat.zero_lt_succ _, fun _ => rfl, rfl⟩
    · simpa [List.flatMap_append, Piece.octets] using hwhole
    · intro p hp
      rcases List.mem_append.mp hp with hp | hp
      · exact hpieces p hp
      · obtain rfl := List.mem_singleton.mp hp
        exact ⟨hbegun, hlast⟩
  · rename_i hrest
    rw [not_or, not_and] at hrest
    -- The rest stays for the next read, and it is shorter than the buffer.
    refine ⟨hwhole, hpieces, ?_, ?_, rfl⟩
    · show (j.buf.drop start).length < outMax
      rw [List.length_drop] at hlast ⊢
      omega
    · intro hflush
      have hnil : j.buf.length - start = 0 := Nat.eq_zero_of_not_pos (hrest.2 hflush)
      show j.buf.drop start = []
      exact List.drop_of_length_le (by omega)

/-! ## A whole life -/

/-- The pieces of the `out` lines. -/
def piecesOf (sent : List Sent) : List Piece := sent.filterMap fun s => match s with
  | .out _ piece => some piece
  | .exit .. => none

/-- The octets of the output that the `out` lines carry. -/
def carried (sent : List Sent) : Bytes := (piecesOf sent).flatMap Piece.octets

/-- Nothing of the output is lost: what is not in the `out` lines is in the buffer, and after the
    final flush nothing is; each text is one line and not too long; there is room for the next read;
    nothing follows the exit line. -/
structure Streamed (s : Life) : Prop where
  whole : carried s.sent ++ s.job.buf = s.output
  good : ∀ p ∈ piecesOf s.sent, p.Good
  mine : ∀ id p, .out id p ∈ s.sent → id = s.job.id
  room : s.job.buf.length < outMax
  flushed : s.job.live = true → s.job.opened = false → s.job.buf = []
  last : ∀ l l' id status, s.sent = l ++ .exit id status :: l' → l' = [] ∧ s.job.buf = []

theorem carried_append (a b : List Sent) : carried (a ++ b) = carried a ++ carried b := by
  rw [carried, piecesOf, List.filterMap_append, List.flatMap_append]
  rfl

theorem piecesOf_map (id : Nat) (pieces : List Piece) :
    piecesOf (pieces.map (.out id)) = pieces := by
  rw [piecesOf, List.filterMap_map]
  exact List.filterMap_some

/-- What a read sends and keeps. -/
structure ReadSpec (j : Job) (r : Read) (pieces : List Piece) (j' : Job) : Prop where
  whole : pieces.flatMap Piece.octets ++ j'.buf = j.buf ++ r.octets
  good : ∀ p ∈ pieces, p.Good
  room : j'.buf.length < outMax
  flushed : j'.opened = false → j'.buf = []
  same : j'.id = j.id ∧ j'.live = j.live

theorem readJob_spec {j : Job} (hroom : j.buf.length < outMax) (hopened : j.opened = true)
    {r : Read} (hfits : r.fits j = true) :
    ∃ pieces, (readJob j r).1 = pieces.map (.out j.id) ∧ ReadSpec j r pieces (readJob j r).2 := by
  cases r with
  -- An interrupted read takes nothing.
  | interrupted =>
    refine ⟨[], rfl, (List.append_nil _).symm, fun p hp => (by cases hp), hroom, ?_, rfl, rfl⟩
    intro hclosed
    cases hopened.symm.trans hclosed
  | ended =>
    -- At the end the rest is flushed, so a job without open ends holds nothing.
    have hdrain := drain_spec (Nat.le_of_lt hroom) true
    have hid : (drain j true).2.id = j.id := by rw [hdrain.same]
    refine ⟨(drain j true).1, congrArg (fun i => (drain j true).1.map (Sent.out i)) hid, ?_,
      hdrain.good, hdrain.room, fun _ => hdrain.flushed rfl, hid, ?_⟩
    · rw [show Read.octets .ended = [] from rfl, List.append_nil]
      exact hdrain.whole
    · show (drain j true).2.live = j.live
      rw [hdrain.same]
  -- The read has left room, so the chunk fits in the buffer.
  | data chunk =>
    obtain ⟨-, hlen⟩ : chunk ≠ [] ∧ chunk.length ≤ outMax - j.buf.length := of_decide_eq_true hfits
    have hfull : (j.buf ++ chunk).length ≤ outMax := by
      rw [List.length_append]
      omega
    have hdrain := @drain_spec { j with buf := j.buf ++ chunk } hfull false
    generalize hres : drain { j with buf := j.buf ++ chunk } false = res at hdrain
    have hid : res.2.id = j.id := by rw [hdrain.same]
    have hread : readJob j (.data chunk) = (res.1.map (Sent.out res.2.id), res.2) := by
      rw [← hres]
      rfl
    rw [hread, hid]
    refine ⟨res.1, rfl, hdrain.whole, hdrain.good, hdrain.room, ?_, hid, ?_⟩
    · intro hclosed
      have hopened' : res.2.opened = j.opened := by rw [hdrain.same]
      cases hopened.symm.trans (hopened'.symm.trans hclosed)
    · rw [hdrain.same]

/-- The invariant: while the job lives, no exit line was sent. -/
structure Life.Inv (s : Life) : Prop extends Streamed s where
  outs : s.job.live = true → ∀ id status, .exit id status ∉ s.sent

theorem not_exit_of_map {id id' : Nat} {status : Int} {pieces : List Piece} :
    .exit id' status ∉ pieces.map (Sent.out id) := by
  intro h
  obtain ⟨p, -, hp⟩ := List.mem_map.mp h
  cases hp

theorem Life.Inv.read {s : Life} (h : s.Inv) {r : Read} (hlive : s.job.live = true)
    (hopened : s.job.opened = true) (hfits : r.fits s.job = true) :
    Life.Inv ⟨(readJob s.job r).2, s.sent ++ (readJob s.job r).1, s.output ++ r.octets⟩ := by
  obtain ⟨pieces, hsent, hspec⟩ := readJob_spec h.room hopened hfits
  have hout : ∀ id status, .exit id status ∉ s.sent ++ (readJob s.job r).1 := by
    intro id status hmem
    rw [hsent] at hmem
    rcases List.mem_append.mp hmem with hmem | hmem
    · exact h.outs hlive id status hmem
    · exact not_exit_of_map hmem
  refine ⟨⟨?_, ?_, ?_, hspec.room, fun _ => hspec.flushed, ?_⟩, fun _ => hout⟩
  · show carried (s.sent ++ (readJob s.job r).1) ++ _ = _
    rw [carried_append, hsent, ← h.whole, List.append_assoc, List.append_assoc, ← hspec.whole,
      carried, carried, piecesOf_map]
  · intro p hp
    rw [hsent, piecesOf, List.filterMap_append] at hp
    rcases List.mem_append.mp hp with hp | hp
    · exact h.good p hp
    · refine hspec.good p ?_
      rwa [← piecesOf_map s.job.id pieces]
  · intro id p hp
    rw [hspec.same.1]
    rw [hsent] at hp
    rcases List.mem_append.mp hp with hp | hp
    · exact h.mine id p hp
    · obtain ⟨q, -, hq⟩ := List.mem_map.mp hp
      exact (Sent.out.inj hq).1.symm
  · intro l l' id status hl
    refine absurd ?_ (hout id status)
    rw [show s.sent ++ (readJob s.job r).1 = l ++ .exit id status :: l' from hl]
    exact List.mem_append_right _ List.mem_cons_self

theorem Life.Inv.reap {s : Life} (h : s.Inv) (hlive : s.job.live = true) (waited : Option Int) :
    Life.Inv ⟨(reap s.job waited).2, s.sent ++ (reap s.job waited).1, s.output⟩ := by
  unfold Devd.reap
  generalize hj : (if s.job.exited.isNone then { s.job with exited := waited } else s.job) = j
  have hsame : j.id = s.job.id ∧ j.live = s.job.live ∧ j.opened = s.job.opened ∧
      j.buf = s.job.buf := by
    rw [← hj]
    split <;> exact ⟨rfl, rfl, rfl, rfl⟩
  obtain ⟨hid, hlive', hopened, hbuf⟩ := hsame
  dsimp only
  have hquiet : Life.Inv ⟨j, s.sent ++ [], s.output⟩ := by
    rw [List.append_nil]
    refine ⟨⟨?_, h.good, ?_, ?_, ?_, ?_⟩, ?_⟩
    · exact hbuf ▸ h.whole
    · exact hid ▸ h.mine
    · exact hbuf ▸ h.room
    · show j.live = true → j.opened = false → j.buf = []
      rw [hlive', hopened, hbuf]
      exact h.flushed
    · show ∀ l l' id status, _ → _ ∧ j.buf = []
      rw [hbuf]
      exact h.last
    · exact fun _ => h.outs hlive
  cases hexited : j.exited with
  | none => exact hquiet
  | some status =>
    dsimp only
    split
    · exact hquiet
    · rename_i hclosed
      have hempty : j.buf = [] :=
        hbuf.trans (h.flushed hlive (by rw [← hopened]; simpa using hclosed))
      refine ⟨⟨?_, ?_, ?_, ?_, ?_, ?_⟩, ?_⟩
      · show carried (s.sent ++ [Sent.exit j.id status]) ++ j.buf = s.output
        rw [carried_append, hbuf]
        show (carried s.sent ++ []) ++ s.job.buf = _
        rw [List.append_nil]
        exact h.whole
      · intro p hp
        rw [piecesOf, List.filterMap_append] at hp
        rcases List.mem_append.mp hp with hp | hp
        · exact h.good p hp
        · cases hp
      · intro id p hp
        rcases List.mem_append.mp hp with hp | hp
        · exact (h.mine id p hp).trans hid.symm
        · cases List.mem_singleton.mp hp
      · exact hbuf ▸ h.room
      · exact fun hfalse => (by cases hfalse)
      · intro l l' id st hl
        refine ⟨?_, hempty⟩
        -- no exit line stands in what was sent before
        rcases List.append_eq_append_iff.mp hl with ⟨a, rfl, ha⟩ | ⟨a, hs, ha⟩
        · cases a with
          | nil => exact ((List.cons.inj ha).2).symm
          | cons x a => exact absurd (List.cons.inj ha).2 (by simp)
        · cases a with
          | nil => exact (List.cons.inj ha).2
          | cons x a =>
            refine absurd ?_ (h.outs hlive id st)
            rw [hs, ← (List.cons.inj ha).1]
            exact List.mem_append_right _ List.mem_cons_self
      · exact fun hfalse => (by cases hfalse)

theorem Life.Inv.step {s t : Life} {e : JobStep} (h : s.Inv) (hs : life.step s e = some t) :
    t.Inv := by
  cases e with
  | read r =>
    simp only [life] at hs
    split_ifs at hs with hc
    obtain rfl := Option.some.inj hs
    exact h.read hc.1 hc.2.1 hc.2.2
  | reap waited =>
    simp only [life] at hs
    split_ifs at hs with hlive
    obtain rfl := Option.some.inj hs
    exact h.reap hlive waited
  | dropped =>
    simp only [life] at hs
    split_ifs at hs with hlive
    obtain rfl := Option.some.inj hs
    exact ⟨⟨h.whole, h.good, h.mine, h.room, fun hfalse => (by cases hfalse), h.last⟩, fun hfalse =>
      (by cases hfalse)⟩

/-- A job's output goes to the host without loss, and its exit line comes last. -/
theorem output_is_streamed {id : Nat} {s : Life} (h : life.Reach Free (.start id) s) :
    Streamed s := by
  have hinv : s.Inv := by
    refine Reach.inv (I := Life.Inv) ?_ (fun t e u ht _ hs => ht.step hs) h
    refine ⟨⟨rfl, fun p hp => (by cases hp), fun _ p hp => (by cases hp), Nat.zero_lt_succ _,
      fun _ _ => rfl, ?_⟩, fun _ _ _ hmem => (by cases hmem)⟩
    intro l l' id status hl
    exact absurd hl.symm (by simp [Life.start])
  exact hinv.toStreamed

/-- A line, a piece without its end and the exit status. -/
theorem two_reads_streamed : ∃ s, life.Reach Free (.start 3) s ∧ Streamed s ∧
    s.output = bytes "a\nb" := by
  have hrun : ∃ s, life.Reach Free (.start 3) s ∧ decide (s.output = bytes "a\nb") = true :=
    Reach.of_run_any [.read (.data (bytes "a")), .read (.data (bytes "\nb")), .read .ended,
      .reap (some 0)] (by decide)
  obtain ⟨s, hs, hout⟩ := hrun
  exact ⟨s, hs, output_is_streamed hs, of_decide_eq_true hout⟩

end CdjEmu.Devd
