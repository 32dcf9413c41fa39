import FleetHealth.Probe.Attempt
/-!
# The rest of a check

A check that stands at an attempt has the rest of its course before it, which the next answer either ends
or takes one attempt further.

* `Attempt.rest_first` — at its first attempt a check has the whole course before it.
* `Attempt.rest_of_le` — the rest of a course, one answer further on.
* `Attempt.isSome_checkCourse` — a check that is always answered has a result.
* `Attempt.map_untimed_checkCourse` — which result that is, the answers decide, and not how long they take.
-/

namespace FleetHealth

/-- The result without the time that was spent on it. -/
def CheckResult.untimed (r : CheckResult) : CheckResult :=
  { r with elapsed := 0 }

namespace Attempt

variable {p : PolicySnapshot} {replies : Nat → Reply} {a : Attempt}

theorem course_result (p : PolicySnapshot) (replies : Nat → Reply) (fuel : Nat) (a : Attempt)
    (now now' : Nat) :
    (a.course p replies fuel now).result = (a.course p replies fuel now').result := by
  induction fuel generalizing a now now' with
  | zero => rfl
  | succ fuel ih =>
    simp only [course]
    cases (replies a.number).outcome with
    | none => rfl
    | some o =>
      simp only
      cases a.after p (replies a.number).latency o with
      | done result => rfl
      | again next => exact ih next _ _

/-- The result of a check that stands at an attempt. -/
def rest (p : PolicySnapshot) (replies : Nat → Reply) (a : Attempt) : Option CheckResult :=
  (a.course p replies (p.maxAttempts.toNat + 1 - a.number) 0).result

theorem rest_first (p : PolicySnapshot) (replies : Nat → Reply) :
    ({} : Attempt).rest p replies = (checkCourse p replies).result :=
  rfl

theorem after_eq_again {took : Nat} {o : Outcome} {next : Attempt} (h : a.after p took o = .again next) :
    next.number = a.number + 1 ∧ a.number < p.maxAttempts.toNat := by
  unfold after at h
  split at h
  · cases h
  · split at h
    · rename_i hlt
      cases h
      exact ⟨rfl, hlt⟩
    · cases h

/-- The next answer decides how a check goes on. -/
theorem rest_of_le (ha : a.number ≤ p.maxAttempts.toNat) :
    a.rest p replies = match (replies a.number).outcome with
      | none => none
      | some o => match a.after p (replies a.number).latency o with
        | .done result => some result
        | .again next => next.rest p replies := by
  have hfuel : p.maxAttempts.toNat + 1 - a.number = p.maxAttempts.toNat - a.number + 1 := by omega
  rw [rest, hfuel, course]
  cases (replies a.number).outcome with
  | none => rfl
  | some o =>
    simp only
    cases hafter : a.after p (replies a.number).latency o with
    | done result => rfl
    | again next =>
      obtain ⟨hnext, -⟩ := after_eq_again hafter
      have hfuel : p.maxAttempts.toNat + 1 - next.number = p.maxAttempts.toNat - a.number := by omega
      show (next.course p replies _ _).result = next.rest p replies
      rw [rest, hfuel]
      exact course_result p replies _ next _ _

theorem isSome_rest (hreplies : ∀ k, (replies k).outcome.isSome) (ha : a.number ≤ p.maxAttempts.toNat) :
    (a.rest p replies).isSome := by
  induction hleft : p.maxAttempts.toNat - a.number using Nat.strongRecOn generalizing a with
  | ind left ih =>
    obtain ⟨o, ho⟩ := Option.isSome_iff_exists.mp (hreplies a.number)
    rw [rest_of_le ha, ho]
    simp only
    cases hafter : a.after p (replies a.number).latency o with
    | done result => rfl
    | again next =>
      obtain ⟨hnext, hlt⟩ := after_eq_again hafter
      have hle : next.number ≤ p.maxAttempts.toNat := by omega
      exact ih (p.maxAttempts.toNat - next.number) (by omega) hle rfl

/-- **A check that is always answered has a result.** -/
theorem isSome_checkCourse (hreplies : ∀ k, (replies k).outcome.isSome)
    (hmax : 1 ≤ p.maxAttempts.toNat) : (checkCourse p replies).result.isSome := by
  rw [← rest_first]
  exact isSome_rest hreplies hmax

/-- The times that answers take have no say in how a check goes on. -/
theorem map_untimed_course {replies' : Nat → Reply} {a' : Attempt}
    (hsame : ∀ k, (replies' k).outcome = (replies k).outcome) (ha : a'.number = a.number)
    (fuel now now' : Nat) :
    (a'.course p replies' fuel now').result.map CheckResult.untimed
      = (a.course p replies fuel now).result.map CheckResult.untimed := by
  induction fuel generalizing a a' now now' with
  | zero => rfl
  | succ fuel ih =>
    simp only [course, ha, hsame]
    cases (replies a.number).outcome with
    | none => rfl
    | some o =>
      simp only [after, ha]
      by_cases hpassed : o.passed
      · simp only [hpassed, if_true]
        rfl
      · by_cases hlt : a.number < p.maxAttempts.toNat
        · simp only [hpassed, hlt, if_true, if_false, Bool.false_eq_true]
          apply ih
          rfl
        · simp only [hpassed, hlt, if_false, Bool.false_eq_true]
          rfl

/-- **The result of a check is decided by what its probes find out**, but for the time. -/
theorem map_untimed_checkCourse {replies' : Nat → Reply} (p : PolicySnapshot)
    (hsame : ∀ k, (replies' k).outcome = (replies k).outcome) :
    (checkCourse p replies').result.map CheckResult.untimed
      = (checkCourse p replies).result.map CheckResult.untimed :=
  map_untimed_course hsame rfl _ _ _

end Attempt

end FleetHealth
