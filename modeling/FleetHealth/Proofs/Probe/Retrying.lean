import FleetHealth.Proofs.Probe.Attempt
import Mathlib.Algebra.BigOperators.Group.Finset.Basic
/-!
# The law of retrying

A check goes on as long as its probes fail. The first probe that does not fail, or the last one that the
policy allows, decides what the check comes to, how many probes it sends and when.

* `checkCourse_of_fails` — a check whose first probes failed, before the next one.
* `checkCourse_of_passes`, `checkCourse_of_panics`, `checkCourse_of_forall_fails` — the whole course, for
  each way in which it can end.
* `checkCourse_follows_law` — the law, for any answers.
-/

namespace FleetHealth

/-! ## Answers -/

namespace Reply

/-- Whether the probe passed. -/
def Passes (r : Reply) : Prop :=
  ∃ o, r.outcome = some o ∧ o.passed = true

/-- Whether the probe failed, and left whoever waits for it alive. -/
def Fails (r : Reply) : Prop :=
  ∃ o, r.outcome = some o ∧ o.passed = false

/-- Whether the probe brought down whoever waited for it. -/
def Panics (r : Reply) : Prop :=
  r.outcome = none

theorem passes_or_panics_or_fails (r : Reply) : r.Passes ∨ r.Panics ∨ r.Fails := by
  rcases r with ⟨latency, _ | ⟨passed, reason⟩⟩
  · exact .inr (.inl rfl)
  · cases passed
    · exact .inr (.inr ⟨_, rfl, rfl⟩)
    · exact .inl ⟨_, rfl, rfl⟩

theorem Fails.not_passes {r : Reply} (h : r.Fails) : ¬r.Passes := by
  rintro ⟨o, ho, hpassed⟩
  obtain ⟨o', ho', hfailed⟩ := h
  rw [ho] at ho'
  obtain rfl := Option.some.inj ho'
  rw [hpassed] at hfailed
  cases hfailed

theorem Fails.not_panics {r : Reply} (h : r.Fails) : ¬r.Panics := by
  obtain ⟨o, ho, -⟩ := h
  intro hpanics
  rw [Panics, ho] at hpanics
  cases hpanics

end Reply

/-! ## Times -/

section Course

variable {p : PolicySnapshot} {replies : Nat → Reply} {k : Nat}

/-- The time that the first `k` probes take. -/
def probingTime (replies : Nat → Reply) (k : Nat) : Nat :=
  ∑ i ∈ Finset.range k, (replies (i + 1)).latency

/-- When the probe after the first `k` is sent. -/
def startAfter (p : PolicySnapshot) (replies : Nat → Reply) (k : Nat) : Nat :=
  ∑ i ∈ Finset.range k, ((replies (i + 1)).latency + p.tryDelay.toNat)

theorem probingTime_succ (replies : Nat → Reply) (k : Nat) :
    probingTime replies (k + 1) = probingTime replies k + (replies (k + 1)).latency :=
  Finset.sum_range_succ _ _

theorem startAfter_succ (p : PolicySnapshot) (replies : Nat → Reply) (k : Nat) :
    startAfter p replies (k + 1)
      = startAfter p replies k + (replies (k + 1)).latency + p.tryDelay.toNat := by
  rw [startAfter, Finset.sum_range_succ, ← Nat.add_assoc]
  rfl

/-- Before a probe there is a pause for each of those that were sent already. -/
theorem startAfter_eq (p : PolicySnapshot) (replies : Nat → Reply) (k : Nat) :
    startAfter p replies k = probingTime replies k + k * p.tryDelay.toNat := by
  induction k with
  | zero => simp [startAfter, probingTime]
  | succ k ih =>
    rw [startAfter_succ, probingTime_succ, ih, Nat.add_one_mul]
    omega

/-- A probe is answered after the time of all probes so far and the pauses between them. -/
theorem startAfter_add_latency (p : PolicySnapshot) (replies : Nat → Reply) (k : Nat) :
    startAfter p replies k + (replies (k + 1)).latency
      = probingTime replies (k + 1) + k * p.tryDelay.toNat := by
  rw [startAfter_eq, probingTime_succ]
  omega

theorem fails_of_le {i : Nat} (hfails : ∀ i < k, (replies (i + 1)).Fails) (hpos : 1 ≤ i) (hi : i ≤ k) :
    (replies i).Fails := by
  have hfailed := hfails (i - 1) (by omega)
  rwa [Nat.sub_add_cancel hpos] at hfailed

/-! ## The course of a check -/

/-- **A check whose first probes failed** has sent them one after the other and is about to send the next. -/
theorem checkCourse_of_fails (hk : k < p.maxAttempts.toNat)
    (hfails : ∀ i < k, (replies (i + 1)).Fails) :
    checkCourse p replies =
      let rest := Attempt.course p replies (p.maxAttempts.toNat - k) ⟨k + 1, probingTime replies k⟩
        (startAfter p replies k)
      { rest with starts := (List.range k).map (startAfter p replies) ++ rest.starts } := by
  induction k with
  | zero => rfl
  | succ k ih =>
    obtain ⟨o, ho, hfailed⟩ := hfails k (Nat.lt_succ_self k)
    have hfuel : p.maxAttempts.toNat - k = p.maxAttempts.toNat - (k + 1) + 1 := by omega
    have hafter : Attempt.after ⟨k + 1, probingTime replies k⟩ p (replies (k + 1)).latency o
        = .again ⟨k + 1 + 1, probingTime replies (k + 1)⟩ := by
      simp only [Attempt.after, hfailed, hk, probingTime_succ, if_true, if_false, Bool.false_eq_true]
    rw [ih (by omega) fun i hi => hfails i (by omega), hfuel]
    simp only [Attempt.course, ho, hafter, ← startAfter_succ, List.range_succ, List.map_append,
      List.append_assoc, List.map_cons, List.map_nil, List.singleton_append]

/-- A check ends with the first probe that passes. -/
theorem checkCourse_of_passes (hk : k < p.maxAttempts.toNat) (hfails : ∀ i < k, (replies (i + 1)).Fails)
    (hpasses : (replies (k + 1)).Passes) :
    checkCourse p replies =
      { result := some { passed := true, reason := none, elapsed := probingTime replies (k + 1),
                         attempts := k + 1 }
        starts := (List.range (k + 1)).map (startAfter p replies)
        finished := startAfter p replies k + (replies (k + 1)).latency } := by
  obtain ⟨o, ho, hpassed⟩ := hpasses
  have hfuel : p.maxAttempts.toNat - k = p.maxAttempts.toNat - (k + 1) + 1 := by omega
  have hafter : Attempt.after ⟨k + 1, probingTime replies k⟩ p (replies (k + 1)).latency o
      = .done { passed := true, reason := none, elapsed := probingTime replies (k + 1),
                attempts := k + 1 } := by
    simp only [Attempt.after, hpassed, probingTime_succ, if_true]
  rw [checkCourse_of_fails hk hfails, hfuel]
  simp only [Attempt.course, ho, hafter, List.range_succ, List.map_append, List.map_cons, List.map_nil]

/-- A check is brought down by the first probe that panics. -/
theorem checkCourse_of_panics (hk : k < p.maxAttempts.toNat) (hfails : ∀ i < k, (replies (i + 1)).Fails)
    (hpanics : (replies (k + 1)).Panics) :
    checkCourse p replies =
      { result := none
        starts := (List.range (k + 1)).map (startAfter p replies)
        finished := startAfter p replies k + (replies (k + 1)).latency } := by
  have hfuel : p.maxAttempts.toNat - k = p.maxAttempts.toNat - (k + 1) + 1 := by omega
  have hnone : (replies (k + 1)).outcome = none := hpanics
  rw [checkCourse_of_fails hk hfails, hfuel]
  simp only [Attempt.course, hnone, List.range_succ, List.map_append, List.map_cons, List.map_nil]

/-- A check all of whose probes fail ends with the last one, and for its reason. -/
theorem checkCourse_of_forall_fails {o : Outcome} (hmax : p.maxAttempts.toNat = k + 1)
    (hfails : ∀ i < k, (replies (i + 1)).Fails) (ho : (replies (k + 1)).outcome = some o)
    (hfailed : o.passed = false) :
    checkCourse p replies =
      { result := some { passed := false, reason := some (o.reason.getD unknownReason),
                         elapsed := probingTime replies (k + 1), attempts := k + 1 }
        starts := (List.range (k + 1)).map (startAfter p replies)
        finished := startAfter p replies k + (replies (k + 1)).latency } := by
  have hk : k < p.maxAttempts.toNat := by omega
  have hfuel : p.maxAttempts.toNat - k = 0 + 1 := by omega
  have hlast : ¬k + 1 < p.maxAttempts.toNat := by omega
  have hafter : Attempt.after ⟨k + 1, probingTime replies k⟩ p (replies (k + 1)).latency o
      = .done { passed := false, reason := some (o.reason.getD unknownReason),
                elapsed := probingTime replies (k + 1), attempts := k + 1 } := by
    simp only [Attempt.after, hfailed, hlast, probingTime_succ, if_false, Bool.false_eq_true]
    rw [hmax]
  rw [checkCourse_of_fails hk hfails, hfuel]
  simp only [Attempt.course, ho, hafter, List.range_succ, List.map_append, List.map_cons, List.map_nil]

/-- Of so many probes either all fail, or there is a first one that does not. -/
theorem forall_fails_or_exists_first (replies : Nat → Reply) (n : Nat) :
    (∀ i < n, (replies (i + 1)).Fails)
      ∨ ∃ k < n, (∀ i < k, (replies (i + 1)).Fails) ∧ ¬(replies (k + 1)).Fails := by
  induction n with
  | zero => exact .inl fun i hi => absurd hi (Nat.not_lt_zero i)
  | succ n ih =>
    rcases ih with hall | ⟨k, hk, hfirst⟩
    · by_cases hn : (replies (n + 1)).Fails
      · left
        intro i hi
        rcases Nat.lt_succ_iff_lt_or_eq.mp hi with hi | rfl
        · exact hall i hi
        · exact hn
      · exact .inr ⟨n, Nat.lt_succ_self n, hall, hn⟩
    · exact .inr ⟨k, Nat.lt_succ_of_lt hk, hfirst⟩

/-! ## The law -/

/-- What a check comes to that no probe brings down. -/
structure RetryLaw (p : PolicySnapshot) (replies : Nat → Reply) (course : CheckCourse)
    (r : CheckResult) : Prop where
  /-- It passes if one of the probes does that the policy allows. -/
  passed_iff : r.passed = true ↔ ∃ i, 1 ≤ i ∧ i ≤ p.maxAttempts.toNat ∧ (replies i).Passes
  /-- Then it ends with the first such probe. -/
  first : r.passed = true →
    (replies r.attempts).Passes ∧ ∀ i, 1 ≤ i → i < r.attempts → ¬(replies i).Passes
  /-- Otherwise all probes are sent that the policy allows. -/
  all : r.passed = false → r.attempts = p.maxAttempts.toNat
  /-- There are as many probes as attempts, each after the ones before it and a pause for each of them. -/
  starts : course.starts = (List.range r.attempts).map fun i =>
    ∑ m ∈ Finset.range i, ((replies (m + 1)).latency + p.tryDelay.toNat)
  elapsed : r.elapsed = ∑ m ∈ Finset.range r.attempts, (replies (m + 1)).latency
  /-- There is no pause after the last attempt. -/
  finished : course.finished = r.elapsed + (r.attempts - 1) * p.tryDelay.toNat
  reason_eq_none_iff : r.reason = none ↔ r.passed = true
  /-- The reason is that of the last attempt, and of no other. -/
  reason : r.passed = false → ∃ o, (replies r.attempts).outcome = some o
    ∧ r.reason = some (o.reason.getD "health check failed")

theorem retryLaw_of_passes (hk : k < p.maxAttempts.toNat) (hfails : ∀ i < k, (replies (i + 1)).Fails)
    (hpasses : (replies (k + 1)).Passes) :
    ∃ r, (checkCourse p replies).result = some r ∧ RetryLaw p replies (checkCourse p replies) r := by
  rw [checkCourse_of_passes hk hfails hpasses]
  refine ⟨_, rfl, ?_⟩
  constructor
  case passed_iff => exact iff_of_true rfl ⟨k + 1, by omega, by omega, hpasses⟩
  case first =>
    intro _
    refine ⟨hpasses, ?_⟩
    intro i hpos hi
    exact (fails_of_le hfails hpos (Nat.le_of_lt_succ hi)).not_passes
  case all => exact nofun
  case starts => rfl
  case elapsed => rfl
  case finished => exact startAfter_add_latency p replies k
  case reason_eq_none_iff => exact iff_of_true rfl rfl
  case reason => exact nofun

theorem retryLaw_of_forall_fails (hmax : p.maxAttempts.toNat = k + 1)
    (hfails : ∀ i < k + 1, (replies (i + 1)).Fails) :
    ∃ r, (checkCourse p replies).result = some r ∧ RetryLaw p replies (checkCourse p replies) r := by
  obtain ⟨o, ho, hfailed⟩ := hfails k (Nat.lt_succ_self k)
  rw [checkCourse_of_forall_fails hmax (fun i hi => hfails i (Nat.lt_succ_of_lt hi)) ho hfailed]
  refine ⟨_, rfl, ?_⟩
  constructor
  case passed_iff =>
    refine iff_of_false nofun ?_
    rintro ⟨i, hpos, hle, hpasses⟩
    exact (fails_of_le hfails hpos (hmax ▸ hle)).not_passes hpasses
  case first => exact nofun
  case all => exact fun _ => hmax.symm
  case starts => rfl
  case elapsed => rfl
  case finished => exact startAfter_add_latency p replies k
  case reason_eq_none_iff => exact iff_of_false nofun nofun
  case reason => exact fun _ => ⟨o, ho, rfl⟩

/-- A check follows the law, or a probe brings it down before one has passed. -/
theorem retryLaw_or_panics (hmax : 1 ≤ p.maxAttempts.toNat) (replies : Nat → Reply) :
    (∃ r, (checkCourse p replies).result = some r ∧ RetryLaw p replies (checkCourse p replies) r)
      ∨ ∃ k < p.maxAttempts.toNat, (∀ i < k, (replies (i + 1)).Fails) ∧ (replies (k + 1)).Panics := by
  rcases forall_fails_or_exists_first replies p.maxAttempts.toNat with hall | ⟨k, hk, hfails, hfirst⟩
  · have hsucc : p.maxAttempts.toNat = p.maxAttempts.toNat - 1 + 1 := by omega
    exact .inl (retryLaw_of_forall_fails hsucc (hsucc ▸ hall))
  · rcases (replies (k + 1)).passes_or_panics_or_fails with hpasses | hpanics | hfailed
    · exact .inl (retryLaw_of_passes hk hfails hpasses)
    · exact .inr ⟨k, hk, hfails, hpanics⟩
    · exact absurd hfailed hfirst

/-- The result of a check follows the law. -/
theorem retryLaw_of_result_eq_some (hmax : 1 ≤ p.maxAttempts.toNat) {result : CheckResult}
    (hresult : (checkCourse p replies).result = some result) :
    RetryLaw p replies (checkCourse p replies) result := by
  rcases retryLaw_or_panics hmax replies with ⟨r, hr, hlaw⟩ | ⟨k, hk, hfails, hpanics⟩
  · rw [hresult] at hr
    cases hr
    exact hlaw
  · -- a check that was brought down has no result
    rw [checkCourse_of_panics hk hfails hpanics] at hresult
    cases hresult

/-- **The law of retrying.** Unless a probe panics before one has passed, a check passes if one of its
probes does, ends with that one or the last, and gives the reason of its last attempt; otherwise it is
brought down by just that probe. -/
theorem checkCourse_follows_law (hmax : 1 ≤ p.maxAttempts.toNat) (replies : Nat → Reply) :
    ((∀ i, 1 ≤ i → i ≤ p.maxAttempts.toNat → (replies i).Panics →
        ∃ j, 1 ≤ j ∧ j < i ∧ (replies j).Passes) →
      ∃ r, (checkCourse p replies).result = some r ∧ RetryLaw p replies (checkCourse p replies) r)
    ∧ ∀ k, 1 ≤ k → k ≤ p.maxAttempts.toNat → (replies k).Panics →
      (∀ i, 1 ≤ i → i < k → ¬(replies i).Panics ∧ ¬(replies i).Passes) →
        (checkCourse p replies).result = none
          ∧ (checkCourse p replies).starts = (List.range k).map fun i =>
              ∑ m ∈ Finset.range i, ((replies (m + 1)).latency + p.tryDelay.toNat) := by
  constructor
  · intro hpanics
    rcases retryLaw_or_panics hmax replies with hlaw | ⟨k, hk, hfails, hpanicked⟩
    · exact hlaw
    · -- a probe before it would have passed, but they all failed
      obtain ⟨j, hpos, hj, hpasses⟩ := hpanics (k + 1) (by omega) (by omega) hpanicked
      exact absurd hpasses (fails_of_le hfails hpos (Nat.le_of_lt_succ hj)).not_passes
  · intro k hpos hk hpanics hearlier
    obtain ⟨k, rfl⟩ : ∃ j, k = j + 1 := ⟨k - 1, by omega⟩
    have hfails : ∀ i < k, (replies (i + 1)).Fails := by
      intro i hi
      obtain ⟨hnotPanics, hnotPasses⟩ := hearlier (i + 1) (by omega) (by omega)
      rcases (replies (i + 1)).passes_or_panics_or_fails with hpasses | hpanicked | hfailed
      · exact absurd hpasses hnotPasses
      · exact absurd hpanicked hnotPanics
      · exact hfailed
    rw [checkCourse_of_panics hk hfails hpanics]
    exact ⟨rfl, rfl⟩

end Course

/-- A policy of three attempts with pauses between them. -/
def patientSnapshot : PolicySnapshot :=
  { (default : PolicySnapshot) with maxAttempts := 3, tryDelay := 50 }

/-- The first probe fails, and `rest` answers those after it. -/
def afterOneFailure (rest : Reply) : Nat → Reply
  | 1 => ⟨10, some ⟨false, some "refused"⟩⟩
  | _ => rest

/-- The second probe passes, or it panics. -/
theorem checkCourse_follows_law_secondProbe :
    1 ≤ patientSnapshot.maxAttempts.toNat
      ∧ (∃ r, (checkCourse patientSnapshot (afterOneFailure ⟨20, some ⟨true, none⟩⟩)).result = some r
        ∧ RetryLaw patientSnapshot (afterOneFailure ⟨20, some ⟨true, none⟩⟩)
          (checkCourse patientSnapshot (afterOneFailure ⟨20, some ⟨true, none⟩⟩)) r)
      ∧ (checkCourse patientSnapshot (afterOneFailure ⟨20, none⟩)).result = none
      ∧ (checkCourse patientSnapshot (afterOneFailure ⟨20, none⟩)).starts = [0, 60] := by
  have hmax : 1 ≤ patientSnapshot.maxAttempts.toNat := by decide
  refine ⟨hmax, (checkCourse_follows_law hmax _).1 ?_, ?_⟩
  · intro i _ _ hpanics
    unfold afterOneFailure at hpanics
    split at hpanics <;> cases hpanics
  · have hpanics : (afterOneFailure ⟨20, none⟩ 2).Panics := rfl
    have hfirst : (afterOneFailure ⟨20, none⟩ 1).Fails := ⟨_, rfl, rfl⟩
    refine (checkCourse_follows_law hmax _).2 2 (by decide) (by decide) hpanics ?_
    intro i hpos hi
    obtain rfl : i = 1 := by omega
    exact ⟨hfirst.not_panics, hfirst.not_passes⟩

end FleetHealth
