/-
  DEVD'S RECEIVE LOOP — the guest takes the lines that the host writes out of a buffer of 4096
  octets.

  A read appends what has arrived; then `strchr` finds the newlines one after the other and
  `dispatch` gets each line; what is left moves to the front of the buffer.  All of this is C:
  `strchr` stops at a NUL, and so a NUL in a line hides every newline behind it.

  1. `takeLines_lines` — of lines without NUL the loop takes exactly the whole ones.
  2. `dispatch_body` — `sscanf` reads back what the host's `format!` wrote, for every request.
  3. `Served` — at every moment, whatever the reads: the requests that have arrived whole have been
     dispatched, each once, in order and as given, and the buffer holds the part of the next one
     that has arrived.
  4. `served_iff` — this holds exactly when no command contains a NUL.

  The functions of the C library are definitions of their own, as far as the two formats use them:
  white space in a format matches any run of it, `%u` takes a sign and digits and reduces to 32
  bits, and `%n` counts what was read.  `AllFit` is what the reads promise: at least one octet each,
  and no more than the room in front of the final NUL.

  The host's requests are those that `start` and `kill` accept (`Sent`): numbers of 32 bits and
  commands without a newline that fit a line.  A NUL is not excluded there, which is where the two
  sides differ.
-/
import CdjEmu.Lib.Framing
import CdjEmu.Runtime.DevProtocol

namespace CdjEmu.Dev

open Text

/-! ## The program -/

/-- `RX_MAX`. -/
def rxMax : Nat := 4096

/-- `strchr`: what stands before the first `c` of the C string and what follows it. -/
def strchr (c : UInt8) : Bytes → Option (Bytes × Bytes)
  | [] => none
  | b :: s => if b = c then some ([], s) else if b = 0 then none else (strchr c s).map fun p =>
      (b :: p.1, p.2)

/-- What `isspace` accepts in the C locale. -/
def isSpace (c : UInt8) : Bool := c = 32 ∨ (9 ≤ c ∧ c ≤ 13)

/-- White space in a `scanf` format. -/
def skipSpace (s : Bytes) : Bytes := s.dropWhile isSpace

/-- A word in a `scanf` format. -/
def literal (word s : Bytes) : Option Bytes :=
  if word.isPrefixOf s then some (s.drop word.length) else none

/-- `strtoul` of the digits, on a guest whose `unsigned long` has 64 bits. -/
def strtoul (negative : Bool) (v : Nat) : Nat :=
  if 2 ^ 64 ≤ v then 2 ^ 64 - 1 else if negative then (2 ^ 64 - v) % 2 ^ 64 else v

/-- A sign in front of a number: whether it is a minus, and what follows it. -/
def takeSign : Bytes → Bool × Bytes
  | 45 :: s => (true, s)
  | 43 :: s => (false, s)
  | s => (false, s)

/-- `%u`: the number and what follows it. -/
def scanUnsigned (s : Bytes) : Option (Nat × Bytes) :=
  let (negative, s) := takeSign (skipSpace s)
  let ds := s.takeWhile isDigit
  if ds = [] then none else some (strtoul negative (value ds) % 2 ^ 32, s.drop ds.length)

/-- `sscanf(line, "exec %u %n", &id, &used)`: the number and how many octets were read. -/
def scanExec (line : Bytes) : Option (Nat × Nat) := do
  let s ← literal (bytes "exec") line
  let (id, s) ← scanUnsigned (skipSpace s)
  return (id, line.length - (skipSpace s).length)

/-- `sscanf(line, "kill %u", &id)`. -/
def scanKill (line : Bytes) : Option Nat := do
  let s ← literal (bytes "kill") line
  let (id, _) ← scanUnsigned (skipSpace s)
  return id

/-- What devd does for a line. -/
inductive Action where
  | pong
  | startJob (id : Nat) (command : Bytes)
  | killJob (id : Nat)
  | ignored (line : Bytes)
  deriving DecidableEq

/-- `line` ends at the NUL that the loop put over its newline, and holds no other. -/
def dispatch (line : Bytes) : Action :=
  if line = bytes "ping" then .pong
  else match (scanExec line).filter (0 < ·.2) with
    | some (id, used) => .startJob id (line.drop used)
    | none => match scanKill line with
      | some id => .killJob id
      | none => .ignored line

/-- The `while` over `strchr`, for at most as many lines as there are octets: the
    lines and what is left. -/
def takeLines : Nat → Bytes → List Bytes × Bytes
  | 0, rx => ([], rx)
  | n + 1, rx => match strchr newline rx with
    | none => ([], rx)
    | some (line, rest) =>
      let (lines, rem) := takeLines n rest
      (line :: lines, rem)

/-- One turn of the main loop in which `chunk` is read behind `rx`. -/
def receive (rx chunk : Bytes) : List Action × Bytes :=
  let (lines, rem) := takeLines (rx ++ chunk).length (rx ++ chunk)
  -- a line that is too long is discarded
  (lines.map dispatch, if rxMax - 1 ≤ rem.length then [] else rem)

/-- The reads of a connection, from the buffer `rx` on. -/
def receiveAll : Bytes → List Bytes → List Action × Bytes
  | rx, [] => ([], rx)
  | rx, chunk :: chunks =>
    let (done, rx) := receive rx chunk
    let (more, rx) := receiveAll rx chunks
    (done ++ more, rx)

/-- `read` gives at least one octet, and no more than there is room for in
    front of the final NUL. -/
def AllFit : Bytes → List Bytes → Prop
  | _, [] => True
  | rx, chunk :: chunks => chunk ≠ [] ∧ chunk.length ≤ rxMax - rx.length - 1 ∧
      AllFit (receive rx chunk).2 chunks

/-! ## What the host writes -/

inductive Request where
  | ping
  | exec (id : Nat) (command : Str)
  | kill (id : Nat)

namespace Request

/-- The line without its end. -/
def body : Request → Bytes
  | .ping => pingBody
  | .exec id command => execBody id command
  | .kill id => killBody id

/-- The requests that the host writes: the numbers are `u32`, and a command is
    one that `start` accepts. -/
def Sent : Request → Prop
  | .ping => True
  | .exec id command => id < 2 ^ 32 ∧ ∃ line, checkCommand id command = .ok line
  | .kill id => id < 2 ^ 32

/-- What is asked of devd. -/
def asked : Request → Action
  | .ping => .pong
  | .exec id command => .startJob id (skipSpace command.bytes)
  | .kill id => .killJob id

/-- The command holds no NUL. -/
def NulFree : Request → Prop
  | .exec _ command => 0 ∉ command.bytes
  | _ => True

end Request

/-- What the host writes for the requests. -/
def wire (rs : List Request) : Bytes := joinLines newline (rs.map Request.body)

/-- However what is written is read, and at every moment: the first `k` requests have arrived whole
    and have been dispatched, each once, in order and as asked; the rest of what has arrived waits,
    and holds no whole line. -/
def Served (rs : List Request) : Prop :=
  ∀ chunks, AllFit [] chunks → chunks.flatten <+: wire rs →
    ∃ k rx, k ≤ rs.length ∧ receiveAll [] chunks = ((rs.take k).map Request.asked, rx) ∧
      chunks.flatten = wire (rs.take k) ++ rx ∧ newline ∉ rx

/-! ## The scanners -/

theorem literal_append (word s : Bytes) : literal word (word ++ s) = some s := by
  rw [literal, if_pos (List.isPrefixOf_iff_prefix.mpr (List.prefix_append word s)), List.drop_left]

theorem skipSpace_eq_self {s : Bytes} (h : ∀ c ∈ s.head?, isSpace c = false) : skipSpace s = s := by
  cases s with
  | nil => rfl
  | cons c s => rw [skipSpace, List.dropWhile_cons_of_neg (by simp [h c rfl])]

theorem takeSign_eq_self {s : Bytes} (h : ∀ c ∈ s.head?, isDigit c = true) :
    takeSign s = (false, s) := by
  unfold takeSign
  split
  · exact absurd (h 45 rfl) (by decide)
  · exact absurd (h 43 rfl) (by decide)
  · rfl

theorem not_space_of_isDigit {c : UInt8} (h : isDigit c = true) : isSpace c = false := by
  simp only [isDigit, decide_eq_true_eq, UInt8.le_iff_toNat_le] at h
  simp only [isSpace, decide_eq_false_iff_not, not_or, not_and, UInt8.le_iff_toNat_le,
    ← UInt8.toNat_inj]
  obtain ⟨hlo, -⟩ : 48 ≤ c.toNat ∧ c.toNat ≤ 57 := h
  show ¬ c.toNat = 32 ∧ (9 ≤ c.toNat → ¬ c.toNat ≤ 13)
  omega

theorem head?_decimal {id : Nat} {s : Bytes} {c : UInt8} (h : c ∈ (decimal id ++ s).head?) :
    isDigit c = true := by
  obtain ⟨d, ds, hds⟩ := List.exists_cons_of_ne_nil (decimal_ne_nil id)
  rw [hds] at h
  obtain rfl : d = c := Option.some.inj h
  exact isDigit_of_mem_decimal (n := id) (by rw [hds]; exact List.mem_cons_self)

/-- A number that the host wrote is read back. -/
theorem scanUnsigned_decimal {id : Nat} (hid : id < 2 ^ 32) {s : Bytes}
    (hs : ∀ c ∈ s.head?, isDigit c = false) :
    scanUnsigned (decimal id ++ s) = some (id, s) := by
  have hskip : skipSpace (decimal id ++ s) = decimal id ++ s :=
    skipSpace_eq_self fun c hc => not_space_of_isDigit (head?_decimal hc)
  have hsign : takeSign (decimal id ++ s) = (false, decimal id ++ s) := takeSign_eq_self fun c hc =>
    head?_decimal hc
  have hvalue : strtoul false (value (decimal id)) % 2 ^ 32 = id := by
    rw [value_decimal, strtoul, if_neg (by omega), if_neg (by decide)]
    omega
  unfold scanUnsigned
  rw [hskip, hsign]
  dsimp only
  rw [takeWhile_decimal id hs, if_neg (decimal_ne_nil id), hvalue, List.drop_left]

theorem scanExec_execBody {id : Nat} (hid : id < 2 ^ 32) (command : Str) :
    scanExec (execBody id command) =
      some (id, (execBody id command).length - (skipSpace command.bytes).length) := by
  have hsplit :
      execBody id command = bytes "exec" ++ (space :: decimal id ++ space :: command.bytes) := rfl
  have hspace : skipSpace (space :: decimal id ++ space :: command.bytes) = decimal id ++ space ::
      command.bytes := by
    show skipSpace (decimal id ++ space :: command.bytes) = _
    exact skipSpace_eq_self fun c hc => not_space_of_isDigit (head?_decimal hc)
  have hnumber :
      scanUnsigned (decimal id ++ space :: command.bytes) = some (id, space :: command.bytes) := by
    refine scanUnsigned_decimal hid fun c hc => ?_
    obtain rfl : space = c := Option.some.inj hc
    rfl
  unfold scanExec
  rw [hsplit, literal_append]
  simp only [Option.bind_eq_bind, Option.bind_some, hspace, hnumber]
  rfl

theorem scanKill_killBody {id : Nat} (hid : id < 2 ^ 32) : scanKill (killBody id) = some id := by
  have hsplit : killBody id = bytes "kill" ++ (space :: decimal id) := rfl
  have hspace : skipSpace (space :: decimal id) = decimal id ++ [] := by
    show skipSpace (decimal id) = _
    rw [List.append_nil]
    exact skipSpace_eq_self fun c hc =>
      not_space_of_isDigit (head?_decimal (s := []) (by rwa [List.append_nil]))
  have hnumber : scanUnsigned (decimal id ++ []) = some (id, []) :=
    scanUnsigned_decimal hid fun c hc => by cases hc
  unfold scanKill
  rw [hsplit, literal_append]
  simp only [Option.bind_eq_bind, Option.bind_some, hspace, hnumber]
  rfl

/-- **`sscanf` reads what `format!` wrote.** -/
theorem dispatch_body {r : Request} (h : r.Sent) : dispatch r.body = r.asked := by
  cases r with
  | ping => rfl
  | exec id command =>
    have hdrop : (execBody id command).drop
        ((execBody id command).length - (skipSpace command.bytes).length) =
        skipSpace command.bytes := by
      obtain ⟨front, hfront⟩ := List.dropWhile_suffix (l := command.bytes) isSpace
      have hbody : execBody id command = (bytes "exec " ++ decimal id ++ space :: front) ++
          skipSpace command.bytes := by
        rw [List.append_assoc, List.cons_append, skipSpace, hfront]
        rfl
      rw [hbody, List.length_append, Nat.add_sub_cancel, List.drop_left]
    have hused : 0 < (execBody id command).length - (skipSpace command.bytes).length := by
      have hle := (List.dropWhile_suffix (l := command.bytes) isSpace).length_le
      have hlen : (execBody id command).length = 5 + (decimal id).length +
          (1 + command.bytes.length) := by
        simp only [execBody, List.length_append, List.length_cons]
        show 5 + _ + _ = _
        omega
      show 0 < _ - (command.bytes.dropWhile isSpace).length
      omega
    show dispatch (execBody id command) = .startJob id (skipSpace command.bytes)
    unfold dispatch
    rw [if_neg (fun he => by cases congrArg List.head? he), scanExec_execBody h.1,
      Option.filter_some, if_pos (by simpa using hused)]
    dsimp only
    rw [hdrop]
  | kill id =>
    show dispatch (killBody id) = .killJob id
    have hexec : scanExec (killBody id) = none := rfl
    unfold dispatch
    rw [if_neg (fun he => by cases congrArg List.head? he), hexec, scanKill_killBody h]
    rfl

/-! ## The loop -/

theorem strchr_line {l : Bytes} (hl : newline ∉ l) (h0 : 0 ∉ l) (s : Bytes) :
    strchr newline (l ++ newline :: s) = some (l, s) := by
  induction l with
  | nil => rfl
  | cons b l ih =>
    rw [List.mem_cons, not_or] at hl h0
    rw [List.cons_append, strchr, if_neg (Ne.symm hl.1), if_neg (Ne.symm h0.1), ih hl.2 h0.2]
    rfl

theorem strchr_eq_none {s : Bytes} (h : newline ∉ s) : strchr newline s = none := by
  induction s with
  | nil => rfl
  | cons b s ih =>
    rw [List.mem_cons, not_or] at h
    rw [strchr, if_neg (Ne.symm h.1), ih h.2]
    split <;> rfl

/-- A NUL hides the newlines behind it. -/
theorem strchr_nul {l : Bytes} (hl : newline ∉ l) (h0 : 0 ∈ l) (s : Bytes) :
    strchr newline (l ++ s) = none := by
  induction l with
  | nil => cases h0
  | cons b l ih =>
    rw [List.mem_cons, not_or] at hl
    rw [List.cons_append, strchr, if_neg (Ne.symm hl.1)]
    split
    · rfl
    · rename_i hb
      rcases List.mem_cons.mp h0 with rfl | h0
      · exact absurd rfl hb
      · rw [ih hl.2 h0]
        rfl

/-- **The loop** takes the whole lines and leaves the rest. -/
theorem takeLines_lines {ls : List Bytes} (hls : ∀ l ∈ ls, newline ∉ l ∧ 0 ∉ l) {q : Bytes}
    (hq : newline ∉ q) {n : Nat} (hn : ls.length ≤ n) :
    takeLines n (joinLines newline ls ++ q) = (ls, q) := by
  induction ls generalizing n with
  | nil =>
    cases n with
    | zero => rfl
    | succ n =>
      show takeLines (n + 1) q = ([], q)
      rw [takeLines, strchr_eq_none hq]
  | cons l ls ih =>
    cases n with
    | zero => cases hn
    | succ n =>
      obtain ⟨hl, h0⟩ := hls l List.mem_cons_self
      rw [joinLines_cons, List.append_assoc, List.cons_append, takeLines, strchr_line hl h0]
      dsimp only
      rw [ih (fun m hm => hls m (List.mem_cons_of_mem _ hm)) (Nat.le_of_succ_le_succ hn)]

/-! ## The lines of the host -/

theorem newline_notMem_decimal (n : Nat) : newline ∉ decimal n :=
  fun h => absurd (digit_of_mem_decimal h).1 (by decide)

theorem nul_notMem_decimal (n : Nat) : (0 : UInt8) ∉ decimal n :=
  fun h => absurd (digit_of_mem_decimal h).1 (by decide)

/-- An octet outside numbers and words is in the body only if it is in the command. -/
theorem notMem_execBody {c : UInt8} (hword : c ∉ bytes "exec ") {id : Nat} (hid : c ∉ decimal id)
    (hspace : c ≠ space) {command : Str} (h : c ∉ command.bytes) : c ∉ execBody id command := by
  rw [execBody, List.mem_append, List.mem_append, List.mem_cons]
  tauto

theorem notMem_killBody {c : UInt8} (hword : c ∉ bytes "kill ") {id : Nat} (hid : c ∉ decimal id) :
    c ∉ killBody id := by
  rw [killBody, List.mem_append]
  tauto

namespace Request

theorem Sent.newline_notMem {r : Request} (h : r.Sent) : newline ∉ r.body := by
  cases r with
  | ping => decide
  | exec id command =>
    obtain ⟨-, line, hline⟩ := h
    exact notMem_execBody (by decide) (newline_notMem_decimal id) (by decide)
      (checkCommand_eq_ok.mp hline).1
  | kill id => exact notMem_killBody (by decide) (newline_notMem_decimal id)

theorem NulFree.nul_notMem {r : Request} (h : r.NulFree) : (0 : UInt8) ∉ r.body := by
  cases r with
  | ping => decide
  | exec id command => exact notMem_execBody (by decide) (nul_notMem_decimal id) (by decide) h
  | kill id => exact notMem_killBody (by decide) (nul_notMem_decimal id)

/-- Every line fits into the buffer. -/
theorem Sent.length_body {r : Request} (h : r.Sent) : r.body.length + 1 ≤ devdLineMax := by
  cases r with
  | ping => decide
  | exec id command =>
    obtain ⟨-, line, hline⟩ := h
    obtain ⟨-, rfl, hlen⟩ := checkCommand_eq_ok.mp hline
    rwa [List.length_append] at hlen
  | kill id =>
    have hdigits : (decimal id).length ≤ 10 := by
      have hid : id < 10 ^ 10 := Nat.lt_of_lt_of_le h (by decide)
      rw [decimal, List.length_map]
      exact (Nat.length_toDigits_le_iff (by decide) (by decide)).mpr hid
    have hlen : (killBody id).length = 5 + (decimal id).length := by
      rw [killBody, List.length_append]
      rfl
    show (killBody id).length + 1 ≤ 4095
    omega

end Request

variable {rs : List Request}

/-- **One read** behind which some lines are whole. -/
theorem receive_lines (hsent : ∀ r ∈ rs, r.Sent) (hnul : ∀ r ∈ rs, r.NulFree) {rx chunk q : Bytes}
    (h : rx ++ chunk = wire rs ++ q) (hq : newline ∉ q) (hlen : q.length + 1 < rxMax) :
    receive rx chunk = (rs.map Request.asked, q) := by
  have hlines : ∀ l ∈ rs.map Request.body, newline ∉ l ∧ 0 ∉ l := by
    intro l hl
    obtain ⟨r, hr, rfl⟩ := List.mem_map.mp hl
    exact ⟨(hsent r hr).newline_notMem, (hnul r hr).nul_notMem⟩
  have hcount : (rs.map Request.body).length ≤ (rx ++ chunk).length := by
    have hle : _ ≤ (joinLines newline (rs.map Request.body)).length := length_le_length_joinLines _
    rw [h, wire, List.length_append]
    omega
  have hactions : (rs.map Request.body).map dispatch = rs.map Request.asked := by
    rw [List.map_map]
    exact List.map_congr_left fun r hr => dispatch_body (hsent r hr)
  rw [receive, h, wire, takeLines_lines hlines hq (by rw [← wire, ← h]; exact hcount)]
  dsimp only
  rw [hactions, if_neg (by omega)]

/-- **All reads**, from a buffer that holds a part of a line. -/
theorem receiveAll_lines (hsent : ∀ r ∈ rs, r.Sent) (hnul : ∀ r ∈ rs, r.NulFree)
    {chunks : List Bytes} {rx : Bytes} (hrx : newline ∉ rx) (h : rx ++ chunks.flatten <+: wire rs) :
    ∃ k rx', k ≤ rs.length ∧ receiveAll rx chunks = ((rs.take k).map Request.asked, rx') ∧
      rx ++ chunks.flatten = wire (rs.take k) ++ rx' ∧ newline ∉ rx' := by
  induction chunks generalizing rx rs with
  | nil => exact ⟨0, rx, Nat.zero_le _, rfl, by simp [wire, joinLines], hrx⟩
  | cons chunk chunks ih =>
    rw [List.flatten_cons, ← List.append_assoc] at h
    have hbodies : ∀ l ∈ rs.map Request.body, newline ∉ l := by
      intro l hl
      obtain ⟨r, hr, rfl⟩ := List.mem_map.mp hl
      exact (hsent r hr).newline_notMem
    obtain ⟨k, q, hk, hsplit, hq, hnext⟩ :=
      prefix_joinLines hbodies ((List.prefix_append _ _).trans h)
    rw [List.length_map] at hk
    have htake : joinLines newline ((rs.map Request.body).take k) = wire (rs.take k) := by
      rw [wire, List.map_take]
    rw [htake] at hsplit
    have hlen : q.length + 1 < rxMax := by
      rcases hnext with rfl | ⟨l, hl, hpre⟩
      · decide
      · obtain ⟨r, hr, rfl⟩ : ∃ r ∈ rs, Request.body r = l := by
          rw [List.getElem?_map] at hl
          obtain ⟨r, hr, hl⟩ := Option.map_eq_some_iff.mp hl
          exact ⟨r, List.mem_of_getElem? hr, hl⟩
        have hbody := (hsent r hr).length_body
        have hle := hpre.length_le
        show _ < 4096
        change _ ≤ 4095 at hbody
        omega
    have hread := receive_lines (fun r hr => hsent r (List.mem_of_mem_take hr))
        (fun r hr => hnul r (List.mem_of_mem_take hr))
      hsplit hq hlen
    have hrest : q ++ chunks.flatten <+: wire (rs.drop k) := by
      have hwire : wire rs = wire (rs.take k) ++ wire (rs.drop k) := by
        rw [wire, wire, wire, ← joinLines_append, ← List.map_append, List.take_append_drop]
      rw [hsplit, hwire, List.append_assoc] at h
      exact (List.prefix_append_right_inj _).mp h
    obtain ⟨j, rx', hj, hall, hread', hrx'⟩ := ih (fun r hr => hsent r (List.mem_of_mem_drop hr))
      (fun r hr => hnul r (List.mem_of_mem_drop hr)) hq hrest
    rw [List.length_drop] at hj
    have hjoin : rs.take (k + j) = rs.take k ++ (rs.drop k).take j := List.take_add
    refine ⟨k + j, rx', by omega, ?_, ?_, hrx'⟩
    · rw [receiveAll, hread]
      dsimp only
      rw [hall, hjoin, List.map_append]
    · rw [List.flatten_cons, ← List.append_assoc, hsplit, List.append_assoc, hread', hjoin, wire,
        wire, wire, List.map_append, joinLines_append, List.append_assoc]

/-! ## What is served -/

/-- A line with a NUL, read at once, is not dispatched. -/
theorem receive_nul {r : Request} (hr : r.Sent) (h : ¬ r.NulFree) :
    (receive [] (r.body ++ [newline])).1 = [] := by
  have h0 : (0 : UInt8) ∈ r.body := by
    cases r with
    | exec id command =>
      rw [Request.body, execBody, List.mem_append, List.mem_cons]
      exact .inr (.inr (not_not.mp h))
    | _ => exact absurd trivial h
  have hnone : takeLines (r.body ++ [newline]).length (r.body ++ [newline]) =
      ([], r.body ++ [newline]) := by
    rw [List.length_append, List.length_singleton, takeLines, strchr_nul hr.newline_notMem h0]
  rw [receive, List.nil_append, hnone]
  rfl

/-- Lines without NUL, each read at once, and then any other reads. -/
theorem receiveAll_whole {chunks : List Bytes} (hsent : ∀ r ∈ rs, r.Sent)
    (hnul : ∀ r ∈ rs, r.NulFree) (hfit : AllFit [] chunks) :
    AllFit [] (rs.map (fun r => r.body ++ [newline]) ++ chunks) ∧
      receiveAll [] (rs.map (fun r => r.body ++ [newline]) ++ chunks) =
        (rs.map Request.asked ++ (receiveAll [] chunks).1, (receiveAll [] chunks).2) := by
  induction rs with
  | nil => exact ⟨hfit, rfl⟩
  | cons r rs ih =>
    obtain ⟨hrest, hall⟩ := ih (fun s hs => hsent s (List.mem_cons_of_mem _ hs)) fun s hs =>
      hnul s (List.mem_cons_of_mem _ hs)
    have hwhole : [] ++ (r.body ++ [newline]) = wire [r] ++ [] := by simp [wire, joinLines]
    have hone : receive [] (r.body ++ [newline]) = ([r.asked], []) :=
      receive_lines (fun s hs => hsent s (List.mem_singleton.mp hs ▸ List.mem_cons_self))
        (fun s hs => hnul s (List.mem_singleton.mp hs ▸ List.mem_cons_self)) hwhole List.not_mem_nil
          (by decide)
    have hbody := (hsent r List.mem_cons_self).length_body
    rw [List.map_cons, List.cons_append, AllFit, receiveAll, hone]
    refine ⟨⟨by simp, ?_, hrest⟩, ?_⟩
    · rw [List.length_append, List.length_singleton]
      exact hbody
    · dsimp only
      rw [hall, List.map_cons]
      rfl

/-- The first command with a NUL is left waiting when each line is read at once. -/
theorem nulFree_of_served (hsent : ∀ r ∈ rs, r.Sent) (h : Served rs) : ∀ r ∈ rs, r.NulFree := by
  classical
  by_contra hnot
  push Not at hnot
  obtain ⟨r₀, hr₀, hnul₀⟩ := hnot
  obtain ⟨r, hfind⟩ := Option.isSome_iff_exists.mp
      (List.find?_isSome (p := fun r => ¬ r.NulFree) |>.mpr ⟨r₀, hr₀, by simpa using hnul₀⟩)
  obtain ⟨hr, before, after, rfl, hbefore⟩ := List.find?_eq_some_iff_append.mp hfind
  have hbad : ¬ r.NulFree := by simpa using hr
  have hfree : ∀ s ∈ before, s.NulFree := by simpa using hbefore
  have hsent' : ∀ s ∈ before, s.Sent := fun s hs => hsent s (List.mem_append_left _ hs)
  have hrsent : r.Sent := hsent r (List.mem_append_right _ List.mem_cons_self)
  have hlast : AllFit [] [r.body ++ [newline]] := by
    refine ⟨by simp, ?_, trivial⟩
    rw [List.length_append]
    exact hrsent.length_body
  obtain ⟨hfit, hall⟩ := receiveAll_whole hsent' hfree hlast
  have hflat : (before.map (fun r => r.body ++ [newline]) ++ [r.body ++ [newline]]).flatten =
      wire before ++ (r.body ++ [newline]) := by
    rw [wire, joinLines, List.flatten_append, List.flatMap_map, List.flatMap_def]
    simp
  have hpre : (before.map (fun r => r.body ++ [newline]) ++ [r.body ++ [newline]]).flatten <+: wire
      (before ++ r :: after) := by
    rw [hflat, wire, wire, List.map_append, joinLines_append, List.map_cons, joinLines_cons]
    refine (List.prefix_append_right_inj _).mpr ⟨joinLines newline (after.map Request.body), ?_⟩
    simp
  obtain ⟨k, rx, hk, hserved, hread, hrx⟩ := h _ hfit hpre
  rw [hall] at hserved
  have hnone : (receiveAll [] [r.body ++ [newline]]).1 = [] := by
    rw [receiveAll]
    dsimp only
    rw [receive_nul hrsent hbad]
    rfl
  rw [hnone, List.append_nil] at hserved
  -- as many were dispatched as stand before `r`, so `r` waits
  have hcount : before.length = k := by
    have := congrArg (fun s => s.1.length) hserved
    simp only [List.length_map, List.length_take] at this
    omega
  rw [← hcount, List.take_left, hflat] at hread
  have hrest : r.body ++ [newline] = rx := List.append_cancel_left hread
  exact hrx (hrest ▸ List.mem_append_right _ (List.mem_singleton_self _))

/-- devd serves the requests as they are given, whatever the reads, exactly when no
    command contains a NUL. -/
theorem served_iff (hsent : ∀ r ∈ rs, r.Sent) : Served rs ↔ ∀ r ∈ rs, r.NulFree := by
  refine ⟨nulFree_of_served hsent, fun hnul chunks _ hpre => ?_⟩
  have hempty : [] ++ chunks.flatten <+: wire rs := hpre
  obtain ⟨k, rx, hk, hall, hread, hrx⟩ := receiveAll_lines hsent hnul List.not_mem_nil hempty
  exact ⟨k, rx, hk, hall, hread, hrx⟩

/-- The command `ls`. -/
def ls : Str := ⟨bytes "ls", by decide⟩

theorem two_commands_served : Served [.ping, .exec 1 ls, .exec 2 ls] := by
  refine (served_iff ?_).mpr ?_
  · intro r hr
    simp only [List.mem_cons, List.not_mem_nil, or_false] at hr
    rcases hr with rfl | rfl | rfl
    · trivial
    · exact ⟨by decide, _, checkCommand_eq_ok.mpr ⟨by decide, rfl, by decide⟩⟩
    · exact ⟨by decide, _, checkCommand_eq_ok.mpr ⟨by decide, rfl, by decide⟩⟩
  · intro r hr
    simp only [List.mem_cons, List.not_mem_nil, or_false] at hr
    rcases hr with rfl | rfl | rfl
    · trivial
    · show (0 : UInt8) ∉ ls.bytes
      decide
    · show (0 : UInt8) ∉ ls.bytes
      decide

/-- The command `ls` and a NUL. -/
def lsNul : Str := ⟨bytes "ls" ++ [0], by decide⟩

/-- A command with a NUL is accepted and not run, and neither is the one after it. -/
theorem nul_is_left_waiting : ¬ ∀ rs : List Request, (∀ r ∈ rs, r.Sent) → Served rs := by
  intro hall
  have hsent : ∀ r ∈ [Request.exec 1 lsNul, .exec 2 ls], r.Sent := by
    intro r hr
    simp only [List.mem_cons, List.not_mem_nil, or_false] at hr
    rcases hr with rfl | rfl
    · exact ⟨by decide, _, checkCommand_eq_ok.mpr ⟨by decide, rfl, by decide⟩⟩
    · exact ⟨by decide, _, checkCommand_eq_ok.mpr ⟨by decide, rfl, by decide⟩⟩
  have hnul : (0 : UInt8) ∉ lsNul.bytes :=
    nulFree_of_served hsent (hall _ hsent) _ List.mem_cons_self
  exact hnul (by decide)

end CdjEmu.Dev
