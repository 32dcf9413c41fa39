import FleetHealth.Health.Tracker
/-!
# What a tracker reports

A tracker reports a change exactly when the verdict after an outcome is another one than before, and
the time of the last change has no say in any of it. A threshold of zero counts as one.
-/

namespace FleetHealth

theorem toNat_atLeastOne (n : UInt32) : (atLeastOne n).toNat = max n.toNat 1 := by
  unfold atLeastOne
  by_cases hn : n = 0
  · rw [if_pos hn, hn]
    rfl
  · have hne : n.toNat ≠ 0 := fun he => hn (UInt32.toNat_inj.mp he)
    rw [if_neg hn]
    omega

/-- Health without the time of its last change. -/
def Health.undated (h : Health) : Health :=
  { h with changedAt := 0 }

namespace Tracker

variable (t : Tracker) (h : Health) (passed : Bool) (now : UInt64)

/-- A change is reported if the verdict is another one, and with the verdict that it is. -/
theorem map_isUp_record :
    (t.record h passed now).2.map (·.isUp)
      = if (t.record h passed now).1.isUp = h.isUp then none
        else some (t.record h passed now).1.isUp := by
  have hcount : (count h passed).isUp = h.isUp := by
    unfold count
    split <;> rfl
  simp only [record]
  by_cases hup : t.verdict (count h passed) passed = h.isUp
  · -- the verdict stays: nothing is reported, and counting does not touch it
    simp [hup, hcount]
  · simp [hup]

theorem count_undated : count h.undated passed = (count h passed).undated := by
  rw [count, count]
  split <;> rfl

theorem verdict_undated : t.verdict h.undated passed = t.verdict h passed :=
  rfl

/-- Dates have no say in the counters and the verdict. -/
theorem undated_record (now' : UInt64) :
    (t.record h.undated passed now').1.undated = (t.record h passed now).1.undated := by
  have hup : h.undated.isUp = h.isUp := rfl
  simp only [record, count_undated, verdict_undated, hup]
  split <;> rfl

theorem map_isUp_record_undated (now' : UInt64) :
    (t.record h.undated passed now').2.map (·.isUp) = (t.record h passed now).2.map (·.isUp) := by
  have hup : h.undated.isUp = h.isUp := rfl
  simp only [record, count_undated, verdict_undated, hup]
  split <;> rfl

end Tracker

end FleetHealth
