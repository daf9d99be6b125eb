import Mathlib.Order.Lattice
import Mathlib.Data.Nat.Basic
import Mathlib.Order.Basic

/-!
# The lifecycle of an actor

The statuses are ordered by their `u8` representation. A status is published with `fetch_max`, so
that it never moves backwards.
-/

namespace Ractor

inductive ActorStatus where
  | unstarted | starting | running | upgrading | draining | stopping | stopped
  deriving DecidableEq, Repr

namespace ActorStatus

def code : ActorStatus → ℕ
  | unstarted => 0
  | starting => 1
  | running => 2
  | upgrading => 3
  | draining => 4
  | stopping => 5
  | stopped => 6

theorem code_injective : Function.Injective code := by
  intro s t h
  cases s <;> cases t <;> first | rfl | cases h

instance : LinearOrder ActorStatus:=LinearOrder.lift' code code_injective

theorem unstarted_le (s : ActorStatus) : unstarted ≤ s := by cases s <;> decide

theorem le_stopped (s : ActorStatus) : s ≤ stopped := by cases s <;> decide

theorem not_le_draining {s : ActorStatus} : ¬ s≤draining ↔ stopping ≤ s := by
  cases s <;> decide

end ActorStatus
end Ractor
