/-
  THE SOUND DRIVER'S BUFFERS — the free pool, the buffer being filled and QEMU's TX queue.

  A period of sound is copied into the accumulation buffer; a full buffer is submitted to QEMU,
  which returns it when it has been played.  The free buffers wait in a ring.  Five contexts move
  buffers: the TX interrupt (`txDone`), the tasklet, the stop work, PREPARE and QEMU itself.

  A step is one section under the driver's lock, or one access outside it: the timer's and the
  tasklet's counts, the flag `running`, and `hw_params`, which takes no lock.  The stop work is
  queued by STOP and runs at any later time; QEMU returns what it holds at any time and in any
  order.

  Left out: the sample data, the diagnostic counters, the control commands (what they make QEMU do
  is in what QEMU may do at any time), and `substream`, which is set before the first `hw_params`
  and never cleared.
-/
import CdjEmu.Lib.Machine
import CdjEmu.Lib.Ring

namespace CdjEmu.Sound

/-! ## The stream's parameters -/

/-- `VSND_TX_BUFS`. -/
def txBufs : Nat := 32

/-- A TX buffer. -/
abbrev Buf := Fin txBufs

/-- `VSND_QEMU_FRAMES`. -/
def qemuFrames : Nat := 64 * 16

inductive Format where
  | s16
  | s32
  deriving DecidableEq

def Format.bps : Format → Nat
  | .s16 => 2
  | .s32 => 4

/-- What ALSA has settled on: two channels, and a buffer of whole periods. -/
structure HwParams where
  format : Format
  periodSize : Nat
  periods : Nat
  periodSize_pos : 0 < periodSize

/-- What `hw_params` sets. -/
structure Params where
  frameBytes : Nat
  periodBytes : Nat
  periodSize : Nat
  bufferSize : Nat
  qemuFactor : Nat
  qemuPeriodBytes : Nat

def HwParams.params (p : HwParams) : Params :=
  let frameBytes := 2 * p.format.bps
  let periodBytes := p.periodSize * frameBytes
  let qemuFactor := max 1 (qemuFrames / p.periodSize)
  { frameBytes := frameBytes
    periodBytes := periodBytes
    periodSize := p.periodSize
    bufferSize := p.periods * p.periodSize
    qemuFactor := qemuFactor
    qemuPeriodBytes := periodBytes * qemuFactor }

/-- The frames of one TX buffer, as they are counted in and out. -/
def Params.bufFrames (p : Params) : Int :=
  if p.frameBytes = 0 then 0 else (p.qemuPeriodBytes : Int) / p.frameBytes

/-! ## The driver's state -/

/-- The tasklet: not running, with the periods it took, or with those it has to put back. -/
inductive Tasklet where
  | idle
  | took (count : Nat)
  | putBack (count : Nat)
  deriving DecidableEq

structure Vsnd where
  params : Params
  inFlight : Buf → Bool
  pool : Ring Buf (txBufs + 1) (txBufs + 1)
  accumBuf : Option Buf
  accumCount : Nat
  hwPtr : Nat
  framesInFlight : Int
  pendingPeriods : Nat
  poolStallTicks : Nat
  phase2Streak : Nat
  xrunPending : Bool
  watchdogDeepStart : Nat
  watchdogLastFired : Nat
  running : Bool
  tasklet : Tasklet
  /-- PREPARE has begun and its section is still to come. -/
  preparing : Bool
  stopQueued : Bool
  stopRunning : Bool
  /-- The buffers that QEMU holds. -/
  submitted : List Buf
  /-- The buffers that QEMU has returned and nobody has collected. -/
  used : List Buf
  /-- Whether no `hw_params` has run since the last PREPARE; no step reads it. -/
  prepared : Bool

namespace Vsnd

variable (v : Vsnd)

/-! ## The pool -/

def poolEmpty : Bool := v.pool.first = v.pool.next

def poolDepth : Nat :=
  if v.pool.first ≤ v.pool.next then v.pool.next - v.pool.first
  else v.pool.next + (txBufs + 1) - v.pool.first

def poolPush (b : Buf) : Vsnd := { v with pool := v.pool.push b }

def poolPop : Buf × Vsnd :=
  let b := v.pool.entry 0
  (b, { v with pool := v.pool.drop, inFlight := Function.update v.inFlight b true })

/-! ## The TX queue -/

def txSubmit (b : Buf) : Vsnd :=
  { v with
    submitted := v.submitted ++ [b], framesInFlight := v.framesInFlight + v.params.bufFrames }

/-- A returned buffer goes to the pool, and `frames` go from the count. -/
def takeBack (frames : Int) (b : Buf) : Vsnd :=
  { v with
    inFlight := Function.update v.inFlight b false
    framesInFlight := v.framesInFlight - frames }.poolPush b

/-- The loop over `virtqueue_get_buf`: no more rounds than returned buffers. -/
def collectLoop (frames : Int) : Nat → Vsnd → Vsnd
  | 0, v => v
  | n + 1, v =>
    match v.used with
    | [] => v
    | b :: rest => collectLoop frames n ({ v with used := rest }.takeBack frames b)

def collect (frames : Int) : Vsnd := collectLoop frames v.used.length v

/-- `vsnd_tx_done`. -/
def txDone : Vsnd := v.collect v.params.bufFrames

/-! ## The tasklet -/

/-- The period at `hw_ptr` is copied into the accumulation buffer `b`; a
    full buffer is submitted. -/
def accumulate (b : Buf) : Vsnd :=
  let v := { v with
    hwPtr := (v.hwPtr + v.params.periodSize) % v.params.bufferSize
    accumCount := v.accumCount + 1 }
  if v.accumCount = v.params.qemuFactor then
    { v.txSubmit b with accumBuf := none, accumCount := 0 }
  else v

/-- `VSND_POOL_HEALTHY`. -/
def poolHealthy : Nat := txBufs / 4

/-- A free buffer becomes the accumulation buffer. -/
def startBatch : Buf × Vsnd :=
  let v :=
    if poolHealthy ≤ v.poolDepth then { v with poolStallTicks := 0, phase2Streak := 0 } else v
  let (b, v) := v.poolPop
  (b, { v with accumBuf := some b })

/-- No buffer is free: wait (`false`), or drop the period. -/
def stall : Vsnd × Bool :=
  let v := { v with poolStallTicks := (v.poolStallTicks + 1) % 2 ^ 32 }
  if v.poolStallTicks < v.params.qemuFactor * 2 then (v, false)
  else if v.poolStallTicks < v.params.qemuFactor * 32 ∧
      (List.finRange txBufs).any v.inFlight = true then
    (v, false)
  else
    let v := { v with
      hwPtr := (v.hwPtr + v.params.periodSize) % v.params.bufferSize
      phase2Streak := (v.phase2Streak + 1) % 2 ^ 32 }
    if v.phase2Streak = v.params.qemuFactor * 4 ∧ v.xrunPending = false then
      ({ v with xrunPending := true }, true)
    else (v, true)

/-- One round of the tasklet's loop; `false` leaves the loop. -/
def period : Vsnd × Bool :=
  match v.accumBuf with
  | some b => (v.accumulate b, true)
  | none =>
    let v := if v.poolEmpty then v.collect v.params.bufFrames else v
    if v.poolEmpty then v.stall
    else
      let (b, v) := v.startBatch
      (v.accumulate b, true)

/-- The loop, and how many periods it has processed. -/
def periods : Nat → Vsnd → Vsnd × Nat
  | 0, v => (v, 0)
  | n + 1, v =>
    match v.period with
    | (v, false) => (v, 0)
    | (v, true) =>
      let (v, i) := periods n v
      (v, i + 1)

/-- The pipeline-depth watchdog; `hz` jiffies are a second. -/
def watchdog (hz jiffies : Nat) : Vsnd :=
  if v.framesInFlight > 10 * 1024 then
    if v.watchdogDeepStart = 0 then { v with watchdogDeepStart := jiffies }
    else if v.watchdogDeepStart + 8 * hz < jiffies ∧ v.watchdogLastFired + 60 * hz < jiffies ∧
        v.xrunPending = false then
      { v with xrunPending := true, watchdogLastFired := jiffies, watchdogDeepStart := 0 }
    else v
  else { v with watchdogDeepStart := 0 }

/-- The tasklet's section.  An xrun that is pending makes ALSA stop the
    stream, at any later time. -/
def taskletSection (hz jiffies count : Nat) : Vsnd :=
  if v.running then
    let cap := v.params.bufferSize / v.params.periodSize - 1
    let v :=
      if cap < count then { v with pendingPeriods := v.pendingPeriods + (count - cap) } else v
    let (v, i) := periods (min count cap) v
    { v.watchdog hz jiffies with xrunPending := false, tasklet := .putBack (min count cap - i) }
  else { v with tasklet := .putBack count }

/-- `vsnd_hrtimer_fn`. -/
def timer (overrun : Nat) : Vsnd :=
  if v.running then
    { v with pendingPeriods := v.pendingPeriods + min overrun (v.params.qemuFactor * txBufs / 2) }
  else v

/-! ## The stop work and PREPARE -/

/-- The section of `vsnd_stop_work`. -/
def stopSection : Vsnd :=
  let v := v.collect 0
  match v.accumBuf with
  | some b =>
    { { v with inFlight := Function.update v.inFlight b false }.poolPush b with
      accumBuf := none, accumCount := 0 }
  | none => v

/-- How many buffers are flagged as in flight. -/
def flagged : Nat := (List.finRange txBufs).countP v.inFlight

/-- `frames_in_flight` from the flags. -/
def reseed : Int :=
  if v.params.frameBytes = 0 then 0
  else (v.flagged : Int) * v.params.qemuPeriodBytes / v.params.frameBytes

/-- The first part of PREPARE's section; the accumulation buffer was never submitted,
    so its flag goes down. -/
def resetStream : Vsnd :=
  let v := { v with
    hwPtr := 0
    accumCount := 0
    poolStallTicks := 0
    phase2Streak := 0
    xrunPending := false
    watchdogDeepStart := 0
    framesInFlight := v.reseed }
  match v.accumBuf with
  | some b => { v with inFlight := Function.update v.inFlight b false, accumBuf := none }
  | none => v

/-- The free pool from the buffers that are not flagged. -/
def rebuildPool : Vsnd :=
  (List.finRange txBufs).foldl (fun v b => if v.inFlight b then v else v.poolPush b)
    { v with pool := ⟨v.pool.slot, 0, 0, by decide, by decide⟩ }

/-- The section of `vsnd_pcm_prepare`. -/
def prepareSection : Vsnd := v.resetStream.rebuildPool

/-- The zeroed state of the probe, with the parameters of the first `hw_params`. -/
def probed (p : HwParams) : Vsnd where
  params := p.params
  inFlight := fun _ => false
  pool := ⟨fun _ => ⟨0, by decide⟩, 0, 0, by decide, by decide⟩
  accumBuf := none
  accumCount := 0
  hwPtr := 0
  framesInFlight := 0
  pendingPeriods := 0
  poolStallTicks := 0
  phase2Streak := 0
  xrunPending := false
  watchdogDeepStart := 0
  watchdogLastFired := 0
  running := false
  tasklet := .idle
  preparing := false
  stopQueued := false
  stopRunning := false
  submitted := []
  used := []
  prepared := false

/-- The state after the first PREPARE. -/
def firstPrepared (p : HwParams) : Vsnd := { (probed p).prepareSection with prepared := true }

end Vsnd

/-! ## The machine -/

inductive Event where
  | hwParams (p : HwParams)
  | hwFree
  /-- `vsnd_pcm_prepare` up to its section, with the flush it may ask QEMU for. -/
  | prepareBegin
  | prepare
  | start
  | stop
  | timer (overrun : Nat)
  | taskletTake
  | taskletSection (hz jiffies : Nat)
  | taskletPutBack
  | txDone
  /-- The stop work leaves the queue; its control command is on the way. -/
  | stopWorkBegin
  | stopWork
  /-- QEMU returns a buffer. -/
  | returns (b : Buf)

def vsnd : Machine Vsnd Event where
  step v
    | .hwParams p => some { v with params := p.params, prepared := false }
    | .hwFree => if v.stopRunning then none else some { v with stopQueued := false }
    | .prepareBegin => some { v with pendingPeriods := 0, preparing := true }
    | .prepare =>
        if v.preparing then some { v.prepareSection with preparing := false, prepared := true }
          else none
    | .start => some { v with running := true }
    | .stop => some { v with running := false, stopQueued := true }
    | .timer overrun => some (v.timer overrun)
    | .taskletTake =>
      match v.tasklet with
      | .idle => some { v with
          pendingPeriods := 0
          tasklet := if v.pendingPeriods = 0 then .idle else .took v.pendingPeriods }
      | _ => none
    | .taskletSection hz jiffies =>
      match v.tasklet with
      | .took count => some (v.taskletSection hz jiffies count)
      | _ => none
    | .taskletPutBack =>
      match v.tasklet with
      | .putBack count =>
          some { v with pendingPeriods := v.pendingPeriods + count, tasklet := .idle }
      | _ => none
    | .txDone => some v.txDone
    | .stopWorkBegin =>
      if v.stopQueued ∧ ¬ v.stopRunning then
        some { v with stopQueued := false, stopRunning := true }
      else none
    | .stopWork => if v.stopRunning then some { v.stopSection with stopRunning := false } else none
    | .returns b =>
      if b ∈ v.submitted then
        some { v with submitted := v.submitted.erase b, used := v.used ++ [b] } else none

end CdjEmu.Sound
