import FleetHealth.Policy.Snapshot
/-!
# Trying a probe again

A check probes one address until a probe passes or the attempts of the policy are used up, with a pause
between one attempt and the next. Times are in milliseconds.
-/

namespace FleetHealth

/-- What a probe found out. -/
structure Outcome where
  passed : Bool
  /-- Why it failed, if that is known. -/
  reason : Option String
  deriving DecidableEq, Repr, Inhabited

/-- How a probe ends: how long it takes, and what it found out. A probe without an outcome brings down
whoever waits for it. -/
structure Reply where
  latency : Nat
  outcome : Option Outcome
  deriving DecidableEq, Repr, Inhabited

/-- The result of a check. -/
structure CheckResult where
  passed : Bool
  /-- Why the last attempt failed; absent if it passed. -/
  reason : Option String
  /-- The time spent on probes, without the pauses. -/
  elapsed : Nat
  /-- The number of probes. -/
  attempts : Nat
  deriving DecidableEq, Repr, Inhabited

/-- Where a check stands before a probe: the number of that probe, and the time spent on those before. -/
structure Attempt where
  number : Nat := 1
  elapsed : Nat := 0
  deriving DecidableEq, Repr, Inhabited

/-- What follows from the outcome of a probe. -/
inductive Verdict where
  /-- The check has a result. -/
  | done (result : CheckResult)
  /-- There is one more attempt. -/
  | again (next : Attempt)
  deriving DecidableEq, Repr, Inhabited

/-- The reason given when the last attempt has none. -/
def unknownReason : String := "health check failed"

/-- What follows from the outcome of a probe that took a time. -/
def Attempt.after (a : Attempt) (p : PolicySnapshot) (took : Nat) (o : Outcome) : Verdict :=
  let elapsed := a.elapsed + took
  if o.passed then .done { passed := true, reason := none, elapsed, attempts := a.number }
  else if a.number < p.maxAttempts.toNat then .again { number := a.number + 1, elapsed }
  else
    .done
      { passed := false, reason := some (o.reason.getD unknownReason), elapsed,
        attempts := p.maxAttempts.toNat }

/-- The course of a whole check. -/
structure CheckCourse where
  /-- The result; absent if a probe brought the check down. -/
  result : Option CheckResult
  /-- When each probe started, first to last. -/
  starts : List Nat
  /-- When the check ended. -/
  finished : Nat
  deriving DecidableEq, Repr, Inhabited

/-- The course of a check from one attempt on, at a time, when probe number `k` is answered by
`replies k`. There are at most `fuel` attempts. -/
def Attempt.course (p : PolicySnapshot) (replies : Nat → Reply) :
    Nat → Attempt → Nat → CheckCourse
  | 0, _, now => { result := none, starts := [], finished := now }
  | fuel + 1, a, now =>
    let reply := replies a.number
    let answered := now + reply.latency
    match reply.outcome with
    | none => { result := none, starts := [now], finished := answered }
    | some o =>
      match a.after p reply.latency o with
      | .done result => { result := some result, starts := [now], finished := answered }
      | .again next =>
        let rest := next.course p replies fuel (answered + p.tryDelay.toNat)
        { rest with starts := now :: rest.starts }

/-- The course of a check that starts at time zero. -/
def checkCourse (p : PolicySnapshot) (replies : Nat → Reply) : CheckCourse :=
  Attempt.course p replies p.maxAttempts.toNat {} 0

end FleetHealth
