/-
  THE LEASE — a slot's claim on the link it is bridged through, and the watcher's answer.

  The app takes a lease before it elevates and lets it go when it drops the bridge; what it goes
  through in between is the host's own (`Net/LinuxLease`, `Net/WindowsBridge`).  The two meet in two
  files of the instance directory: the claim that the app writes, and the answer in which a watcher
  writes the claim that it has released.

  A write is one step here.  To every reader a file that is being written, and is empty for a
  moment, reads like one with a claim that is not its own.
-/
import Mathlib

namespace CdjEmu.Net

/-- A claim's text: the app's pid and the time in milliseconds. -/
structure Claim where
  pid : Nat
  ms : Nat
  deriving DecidableEq

namespace Lease

/-- `net.claim` and `net.released`; `none` is a file that is not there. -/
structure LeaseFiles where
  claim : Option Claim
  released : Option Claim
  deriving DecidableEq

def LeaseFiles.none : LeaseFiles := ⟨.none, .none⟩

/-- `Lease::take`, in its two steps. -/
def LeaseFiles.forgetAnswer (f : LeaseFiles) : LeaseFiles := { f with released := .none }

def LeaseFiles.take (f : LeaseFiles) (c : Claim) : LeaseFiles := { f with claim := some c }

/-- Where a lease is that is being dropped. -/
inductive Dropping where
  /-- The claim is read. -/
  | compare
  /-- It is the lease's own and goes. -/
  | remove
  /-- The answer is waited for. -/
  | poll
  /-- The answer is there and goes. -/
  | answered
  deriving DecidableEq

/-- What follows once the claim is settled: only a lease that is watched waits. -/
def Dropping.settled (watched : Bool) : Option Dropping := if watched then some .poll else .none

/-- The next step of a drop: the files after it, and where it is then, if it is not over.  `late`
    says that the time for the answer is up. -/
def Dropping.step (f : LeaseFiles) (own : Claim) (watched late : Bool) :
    Dropping → LeaseFiles × Option Dropping
  | .compare => (f, if f.claim = some own then some .remove else settled watched)
  | .remove => ({ f with claim := .none }, settled watched)
  | .poll =>
    (f, if late then .none
      else if f.released = some own then some .answered
      else some .poll)
  | .answered => ({ f with released := .none }, .none)

theorem Dropping.step_released {f : LeaseFiles} {own c : Claim} {watched late : Bool} {d : Dropping}
    (h : (d.step f own watched late).1.released = some c) : f.released = some c := by
  cases d with
  | answered => exact absurd h.symm (Option.some_ne_none c)
  | compare => exact h
  | remove => exact h
  | poll => exact h

/-- **A drop takes no answer but its own.** -/
theorem Dropping.step_answered {f : LeaseFiles} {own : Claim} {watched late : Bool} {d : Dropping}
    (h : (d.step f own watched late).2 = some .answered) : f.released = some own := by
  have hsettled : ∀ {w : Bool}, settled w ≠ some .answered := by
    intro w
    cases w with
    | true => exact fun h => by cases h
    | false => exact fun h => by cases h
  cases d with
  | compare =>
    rw [step] at h
    dsimp only at h
    split at h
    · cases h
    · exact absurd h hsettled
  | remove => exact absurd h hsettled
  | poll =>
    rw [step] at h
    dsimp only at h
    split at h
    · cases h
    · split at h
      · assumption
      · cases h
  | answered => cases h

end Lease

end CdjEmu.Net
