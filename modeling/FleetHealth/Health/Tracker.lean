import FleetHealth.Fleet.Record
/-!
# Judging health

A tracker folds the outcome of one check after the other into the health of an address or a node. The
verdict changes only after as many equal outcomes in a row as the threshold of that direction asks
for, and to down only where that may happen unattended.
-/

namespace FleetHealth

/-- A change of the verdict. -/
structure Transition where
  wasUp : Bool
  isUp : Bool
  deriving DecidableEq, Repr, Inhabited

/-- How many equal outcomes in a row change a verdict, and whether failures may change it at all. -/
structure Tracker where
  successThreshold : UInt32
  failThreshold : UInt32
  autoDown : Bool
  deriving DecidableEq, Repr, Inhabited

/-- One more, but no more than fits. -/
def bump (n : UInt32) : UInt32 :=
  if n = 4294967295 then n else n + 1

/-- The value, or one in place of zero. -/
def atLeastOne (n : UInt32) : UInt32 :=
  if n = 0 then 1 else n

namespace Tracker

/-- A tracker with the given thresholds, of which zero counts as one. -/
def ofThresholds (success fail : UInt32) (autoDown : Bool) : Tracker :=
  { successThreshold := atLeastOne success, failThreshold := atLeastOne fail, autoDown }

/-- The counters after one more outcome, before the verdict is looked at. -/
def count (h : Health) (passed : Bool) : Health :=
  if passed then { h with consecutiveUp := bump h.consecutiveUp, consecutiveDown := 0 }
  else { h with consecutiveDown := bump h.consecutiveDown, consecutiveUp := 0 }

/-- The verdict on counters that already hold the latest outcome. -/
def verdict (t : Tracker) (h : Health) (passed : Bool) : Bool :=
  if passed then h.isUp || t.successThreshold ≤ h.consecutiveUp
  else h.isUp && !(t.autoDown && t.failThreshold ≤ h.consecutiveDown)

/-- Folds the outcome of one check into the health, and reports a change of the verdict. -/
def record (t : Tracker) (h : Health) (passed : Bool) (now : UInt64) :
    Health × Option Transition :=
  let counted := count h passed
  let isUp := t.verdict counted passed
  if isUp = h.isUp then (counted, none)
  else ({ counted with isUp, changedAt := now }, some { wasUp := h.isUp, isUp })

end Tracker

end FleetHealth
