import FleetHealth.Proofs.Health.Hysteresis
import Mathlib.Data.List.Forall2
/-!
# Better evidence and milder trackers

Two histories are fed to two trackers side by side. If the one has a pass wherever the other has one, and
its tracker is no stricter, then it is at no time worse off: a pass that comes on top never does harm, not
even later, and neither does a tracker that takes up sooner and lets go later. What carries this over an
outcome is that the counters and the verdict are compared together.

* `Health.Dominates.record` — one outcome.
* `Tracker.dominates_recordAll` — a history.
* `Tracker.healthAt_monotone` — health is monotone in the evidence and in the tracker.
-/

namespace FleetHealth

/-- Whether a history has an outcome for each one of another history, and a pass for each pass. -/
def Evidence.Improves (es es' : List Evidence) : Prop :=
  List.Forall₂ (fun e e' => e'.passed = true → e.passed = true) es es'

theorem Evidence.Improves.refl (es : List Evidence) : Improves es es :=
  List.forall₂_same.mpr fun _ _ => id

theorem Evidence.Improves.take {es es' : List Evidence} (h : Improves es es') (n : Nat) :
    Improves (es.take n) (es'.take n) :=
  List.forall₂_take n h

/-- Whether a health is at least as good as another one: more passes in a row, fewer failures, and up if
the other is. -/
structure Health.Dominates (h h' : Health) : Prop where
  up : h'.consecutiveUp ≤ h.consecutiveUp
  down : h.consecutiveDown ≤ h'.consecutiveDown
  isUp : h'.isUp = true → h.isUp = true

/-- Whether a tracker takes no more to go up than another one, and goes down no sooner. -/
structure Tracker.Milder (t t' : Tracker) : Prop where
  success : t.successThreshold ≤ t'.successThreshold
  fail : t'.failThreshold ≤ t.failThreshold
  autoDown : t.autoDown = true → t'.autoDown = true

theorem Health.Dominates.refl (h : Health) : h.Dominates h :=
  ⟨UInt32.le_refl _, UInt32.le_refl _, id⟩

theorem Tracker.Milder.refl (t : Tracker) : t.Milder t :=
  ⟨UInt32.le_refl _, UInt32.le_refl _, id⟩

theorem bump_le_bump {m n : UInt32} (h : m ≤ n) : bump m ≤ bump n := by
  rw [UInt32.le_iff_toNat_le] at h ⊢
  rw [toNat_bump, toNat_bump]
  omega

theorem atLeastOne_le_atLeastOne {m n : UInt32} (h : m ≤ n) : atLeastOne m ≤ atLeastOne n := by
  rw [UInt32.le_iff_toNat_le] at h ⊢
  rw [toNat_atLeastOne, toNat_atLeastOne]
  omega

/-- The thresholds that a tracker is made with may be compared before zero counts as one. -/
theorem Tracker.milder_ofThresholds {success success' fail fail' : UInt32} {autoDown autoDown' : Bool}
    (hsuccess : success ≤ success') (hfail : fail' ≤ fail) (hdown : autoDown = true → autoDown' = true) :
    (ofThresholds success fail autoDown).Milder (ofThresholds success' fail' autoDown') :=
  ⟨atLeastOne_le_atLeastOne hsuccess, atLeastOne_le_atLeastOne hfail, hdown⟩

/-- A verdict leaves the counters alone. -/
theorem Tracker.counters_record (t : Tracker) (h : Health) (passed : Bool) (now : UInt64) :
    (t.record h passed now).1.consecutiveUp = (count h passed).consecutiveUp
      ∧ (t.record h passed now).1.consecutiveDown = (count h passed).consecutiveDown := by
  simp only [record]
  split <;> exact ⟨rfl, rfl⟩

namespace Health

variable {t t' : Tracker} {h h' : Health} {passed passed' : Bool}

/-- The counters after one more outcome compare as before. -/
theorem Dominates.count (hh : h.Dominates h') (hpass : passed' = true → passed = true) :
    (Tracker.count h passed).Dominates (Tracker.count h' passed') := by
  cases passed with
  | true =>
    cases passed' with
    | true => exact ⟨bump_le_bump hh.up, UInt32.le_refl _, hh.isUp⟩
    | false => exact ⟨UInt32.zero_le, UInt32.zero_le, hh.isUp⟩
  | false =>
    cases passed' with
    | true => cases hpass rfl
    | false => exact ⟨UInt32.le_refl _, bump_le_bump hh.down, hh.isUp⟩

/-- So does the verdict on them. -/
theorem Dominates.verdict (hh : h.Dominates h') (ht : t.Milder t') (hpass : passed' = true → passed = true)
    (hup : t'.verdict h' passed' = true) : t.verdict h passed = true := by
  unfold Tracker.verdict at hup ⊢
  cases passed with
  | true =>
    rw [if_pos rfl, Bool.or_eq_true, decide_eq_true_iff]
    cases passed' with
    | true =>
      rw [if_pos rfl, Bool.or_eq_true, decide_eq_true_iff] at hup
      -- what is enough for the other tracker is enough for this one
      exact hup.imp hh.isUp fun henough =>
        UInt32.le_trans ht.success (UInt32.le_trans henough hh.up)
    | false =>
      rw [if_neg Bool.false_ne_true, Bool.and_eq_true] at hup
      exact .inl (hh.isUp hup.1)
  | false =>
    cases passed' with
    | true => cases hpass rfl
    | false =>
      simp only [Bool.false_eq_true, if_false, Bool.and_eq_true, Bool.not_eq_true', Bool.and_eq_false_iff,
        decide_eq_false_iff_not] at hup ⊢
      refine ⟨hh.isUp hup.1, ?_⟩
      cases hdown : t.autoDown with
      | false => exact .inl rfl
      | true =>
        -- what is not enough for the other tracker is not enough for this one
        rcases hup.2 with hkept | hfew
        · cases hkept.symm.trans (ht.autoDown hdown)
        · exact .inr fun henough =>
            hfew (UInt32.le_trans ht.fail (UInt32.le_trans henough hh.down))

/-- **One outcome leaves a better health better.** -/
theorem Dominates.record (hh : h.Dominates h') (ht : t.Milder t') (hpass : passed' = true → passed = true)
    (now now' : UInt64) : (t.record h passed now).1.Dominates (t'.record h' passed' now').1 := by
  have hcounted := hh.count hpass
  obtain ⟨hup, hdown⟩ := t.counters_record h passed now
  obtain ⟨hup', hdown'⟩ := t'.counters_record h' passed' now'
  refine ⟨?_, ?_, ?_⟩
  · rw [hup, hup']
    exact hcounted.up
  · rw [hdown, hdown']
    exact hcounted.down
  · rw [Tracker.isUp_record, Tracker.isUp_record]
    exact hcounted.verdict ht hpass

end Health

namespace Tracker

open Evidence

variable {t t' : Tracker} {h h' : Health} {es es' : List Evidence}

/-- **And so does a history.** -/
theorem dominates_recordAll (ht : t.Milder t') (hh : h.Dominates h') (hes : Improves es es') :
    (t.recordAll h es).Dominates (t'.recordAll h' es') := by
  induction hes generalizing h h' with
  | nil => exact hh
  | cons hpass _ ih => exact ih (hh.record ht hpass _ _)

/-- The thresholds have no part in the counters. -/
theorem counter_recordAll_eq (t t' : Tracker) (h : Health) (es : List Evidence) (kind : Bool) :
    (t.recordAll h es).counter kind = (t'.recordAll h es).counter kind :=
  UInt32.toNat_inj.mp ((t.counter_recordAll h es kind).trans (t'.counter_recordAll h es kind).symm)

/-- **Health is monotone in the evidence and in the tracker.** With a pass wherever another history has
one, a target is at no time worse off, from counters that are no worse to begin with; and one history
leaves the same counters under any two trackers, and under the milder one a verdict that is no worse. -/
theorem healthAt_monotone (t : Tracker) (h : Health) :
    (∀ h' es es', h.Dominates h' → Improves es es' →
      ∀ n, (t.healthAt h es n).Dominates (t.healthAt h' es' n))
    ∧ (∀ t' es n, (∀ kind, (t.healthAt h es n).counter kind = (t'.healthAt h es n).counter kind)
      ∧ (t.Milder t' → (t'.healthAt h es n).isUp = true → (t.healthAt h es n).isUp = true))
    ∧ ∀ success fail success' fail' : UInt32, ∀ autoDown autoDown' : Bool,
      success ≤ success' → fail' ≤ fail → (autoDown = true → autoDown' = true) →
      (ofThresholds success fail autoDown).Milder (ofThresholds success' fail' autoDown') := by
  refine ⟨?_, ?_, ?_⟩
  · intro h' es es' hh hes n
    exact dominates_recordAll (.refl t) hh (hes.take n)
  · intro t' es n
    refine ⟨counter_recordAll_eq t t' h (es.take n), ?_⟩
    intro ht
    exact (dominates_recordAll ht (.refl h) (.refl (es.take n))).isUp
  · intro success fail success' fail' autoDown autoDown' hsuccess hfail hdown
    exact milder_ofThresholds hsuccess hfail hdown

/-- Two failures take a target down that needs as many to go down, and one that needs three stays up; with
a pass for the second failure both stay up. -/
theorem healthAt_monotone_twoFailures :
    let failures : List Evidence := [⟨false, 1⟩, ⟨false, 2⟩]
    let recovery : List Evidence := [⟨false, 1⟩, ⟨true, 2⟩]
    let strict := ofThresholds 1 2 true
    let mild := ofThresholds 0 3 true
    (strict.recordAll { isUp := true } failures).isUp = false
      ∧ (strict.recordAll { isUp := true } recovery).Dominates (strict.recordAll { isUp := true } failures)
      ∧ (mild.recordAll { isUp := true } recovery).isUp = true := by
  intro failures recovery strict mild
  have hmild : mild.Milder strict :=
    (healthAt_monotone mild { isUp := true }).2.2 0 3 1 2 true true (by decide) (by decide) id
  refine ⟨rfl, ?_, ?_⟩
  · refine (healthAt_monotone strict { isUp := true }).1 _ recovery failures (.refl _) ?_ 2
    exact .cons id (.cons (fun _ => rfl) .nil)
  · exact ((healthAt_monotone mild { isUp := true }).2.1 strict recovery 2).2 hmild rfl

end Tracker

end FleetHealth
