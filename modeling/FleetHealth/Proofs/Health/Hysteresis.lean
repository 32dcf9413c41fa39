import FleetHealth.Proofs.Health.Tracker
import Mathlib.Data.List.Induction
/-!
# Hysteresis

A history of outcomes is folded into health one by one. The counters show for how long the last outcomes
have been the same, and the verdict changes only when they show a streak as long as the threshold of that
direction. So between one change and the next lies all the evidence for the next one.

* `Evidence.streak`, `Evidence.tally` — how many of the last outcomes are of one kind.
* `Tracker.counter_recordAll` — the counters show just that.
* `Tracker.Successive.earned` — what a change needs lies between it and the one before.
* `Tracker.hysteresis` — the law of a whole history, from any counters and for any thresholds.
-/

namespace FleetHealth

/-- The outcome of a check and the time at which it is recorded. -/
structure Evidence where
  passed : Bool
  now : UInt64
  deriving DecidableEq, Repr, Inhabited

namespace Evidence

/-- The number of outcomes of one kind, in a row, at the end of a history. -/
def streak (passed : Bool) (es : List Evidence) : Nat :=
  (es.reverse.takeWhile (·.passed == passed)).length

/-- What a counter of outcomes of one kind shows after a history: the streak, which is longer by what
the counter showed before if there was no other outcome, as far as a counter goes. -/
def tally (passed : Bool) (before : UInt32) (es : List Evidence) : Nat :=
  min (streak passed es + if es.all (·.passed == passed) then before.toNat else 0) 4294967295

variable {passed : Bool} {es : List Evidence} {e : Evidence}

@[simp] theorem streak_nil (passed : Bool) : streak passed [] = 0 :=
  rfl

theorem streak_concat (passed : Bool) (es : List Evidence) (e : Evidence) :
    streak passed (es ++ [e]) = if e.passed = passed then streak passed es + 1 else 0 := by
  unfold streak
  rw [List.reverse_append, List.reverse_singleton, List.singleton_append, List.takeWhile_cons]
  by_cases he : e.passed = passed
  · simp [he]
  · simp [he]

theorem streak_le_length (passed : Bool) (es : List Evidence) : streak passed es ≤ es.length := by
  unfold streak
  have hle := (List.takeWhile_sublist (l := es.reverse) (·.passed == passed)).length_le
  rw [List.length_reverse] at hle
  exact hle

/-- The outcomes of a streak are of its kind. -/
theorem passed_of_streak {k : Nat} (hk : es.length ≤ k + streak passed es) (he : es[k]? = some e) :
    e.passed = passed := by
  induction es using List.reverseRecOn generalizing k with
  | nil => cases he
  | append_singleton es last ih =>
    have hlt := (List.getElem?_eq_some_iff.mp he).1
    rw [streak_concat] at hk
    rw [List.length_append, List.length_singleton] at hk hlt
    by_cases hlast : last.passed = passed
    · rw [if_pos hlast] at hk
      by_cases hend : k = es.length
      · subst hend
        rw [List.getElem?_concat_length] at he
        exact Option.some.inj he ▸ hlast
      · rw [List.getElem?_append_left (by omega)] at he
        exact ih (by omega) he
    · -- after another outcome there is no streak to speak of
      rw [if_neg hlast] at hk
      omega

theorem tally_nil (passed : Bool) (before : UInt32) : tally passed before [] = before.toNat := by
  have hlt := before.toNat_lt
  simp only [tally, streak_nil, List.all_nil, if_true]
  omega

theorem tally_concat (passed : Bool) (before : UInt32) (es : List Evidence) (e : Evidence) :
    tally passed before (es ++ [e])
      = if e.passed = passed then min (tally passed before es + 1) 4294967295 else 0 := by
  unfold tally
  rw [streak_concat, List.all_append]
  by_cases he : e.passed = passed
  · simp only [he, if_true, List.all_cons, List.all_nil, beq_self_eq_true, Bool.and_true]
    omega
  · simp [he]

end Evidence

open Evidence

theorem toNat_bump (n : UInt32) : (bump n).toNat = min (n.toNat + 1) 4294967295 := by
  have hlt := n.toNat_lt
  unfold bump
  by_cases hn : n = 4294967295
  · rw [if_pos hn, hn]
    rfl
  · have hne : n.toNat ≠ 4294967295 := fun he => hn (UInt32.toNat_inj.mp he)
    rw [if_neg hn, UInt32.toNat_add]
    show (n.toNat + 1) % 4294967296 = min (n.toNat + 1) 4294967295
    omega

/-- The counter of outcomes of one kind. -/
def Health.counter (h : Health) (passed : Bool) : UInt32 :=
  if passed then h.consecutiveUp else h.consecutiveDown

namespace Tracker

/-- How many outcomes in a row a change to a verdict takes. -/
def needed (t : Tracker) (isUp : Bool) : Nat :=
  if isUp then t.successThreshold.toNat else t.failThreshold.toNat

/-! ## One outcome -/

section Step

variable (t : Tracker) (h : Health) (passed : Bool) (now : UInt64)

/-- An outcome counts for its kind, and ends the streak of the other. -/
theorem counter_record (kind : Bool) :
    (t.record h passed now).1.counter kind = if passed = kind then bump (h.counter kind) else 0 := by
  simp only [record]
  split <;> cases passed <;> cases kind <;> rfl

theorem isUp_count : (count h passed).isUp = h.isUp := by
  unfold count
  split <;> rfl

theorem changedAt_count : (count h passed).changedAt = h.changedAt := by
  unfold count
  split <;> rfl

theorem isUp_record : (t.record h passed now).1.isUp = t.verdict (count h passed) passed := by
  simp only [record]
  by_cases hup : t.verdict (count h passed) passed = h.isUp
  · rw [if_pos hup, isUp_count, hup]
  · rw [if_neg hup]

/-- A change is reported if there is one, and as what it is. -/
theorem report_record :
    (t.record h passed now).2 = if (t.record h passed now).1.isUp = h.isUp then none
      else some ⟨h.isUp, (t.record h passed now).1.isUp⟩ := by
  rw [isUp_record]
  simp only [record]
  by_cases hup : t.verdict (count h passed) passed = h.isUp
  · rw [if_pos hup, if_pos hup]
  · rw [if_neg hup, if_neg hup]

theorem changedAt_record :
    (t.record h passed now).1.changedAt
      = if (t.record h passed now).2 = none then h.changedAt else now := by
  by_cases hup : t.verdict (count h passed) passed = h.isUp
  · simp only [record, hup, if_true]
    exact changedAt_count h passed
  · simp only [record, hup, if_false, reduceCtorEq]

/-- A verdict goes up when it was down, the outcome is a pass and there were enough of them. -/
theorem report_eq_up_iff :
    (t.record h passed now).2 = some ⟨false, true⟩
      ↔ h.isUp = false ∧ passed = true
        ∧ t.needed true ≤ ((t.record h passed now).1.counter true).toNat := by
  rw [report_record, isUp_record, counter_record]
  cases hup : h.isUp <;> cases passed <;>
    simp [verdict, count, hup, needed, Health.counter, UInt32.le_iff_toNat_le]

/-- A verdict goes down when it was up, the outcome is a failure, there were enough of them, and that may
happen unattended. -/
theorem report_eq_down_iff :
    (t.record h passed now).2 = some ⟨true, false⟩
      ↔ t.autoDown = true ∧ h.isUp = true ∧ passed = false
        ∧ t.needed false ≤ ((t.record h passed now).1.counter false).toNat := by
  rw [report_record, isUp_record, counter_record]
  cases hup : h.isUp <;> cases passed <;>
    simp [verdict, count, hup, needed, Health.counter, UInt32.le_iff_toNat_le]

/-- A change to a verdict takes enough outcomes of its kind, the present one included. -/
theorem needed_le_of_report {c : Transition} (hc : (t.record h passed now).2 = some c) :
    passed = c.isUp ∧ t.needed c.isUp ≤ ((t.record h passed now).1.counter c.isUp).toNat := by
  have hreport := report_record t h passed now
  rw [hc] at hreport
  split at hreport
  · cases hreport
  · rename_i hne
    obtain rfl := Option.some.inj hreport
    have hnow : (t.record h passed now).1.isUp = !h.isUp := Bool.eq_not.mpr hne
    rw [hnow] at hc
    rw [hnow]
    cases hup : h.isUp with
    | false =>
      rw [hup] at hc
      exact ((report_eq_up_iff t h passed now).mp hc).2
    | true =>
      rw [hup] at hc
      exact ((report_eq_down_iff t h passed now).mp hc).2.2

end Step

/-! ## A history of outcomes -/

/-- The health after a history. -/
def recordAll (t : Tracker) (h : Health) (es : List Evidence) : Health :=
  es.foldl (fun h e => (t.record h e.passed e.now).1) h

/-- The health before the outcome at a place of a history. -/
def healthAt (t : Tracker) (h : Health) (es : List Evidence) (i : Nat) : Health :=
  t.recordAll h (es.take i)

/-- The change that the outcome at a place of a history brings about, if it does. -/
def changeAt? (t : Tracker) (h : Health) (es : List Evidence) (i : Nat) : Option Transition :=
  es[i]?.bind fun e => (t.record (t.healthAt h es i) e.passed e.now).2

section History

variable {t : Tracker} {h : Health} {es : List Evidence} {e : Evidence} {i j n : Nat}

@[simp] theorem recordAll_concat (t : Tracker) (h : Health) (es : List Evidence) (e : Evidence) :
    t.recordAll h (es ++ [e]) = (t.record (t.recordAll h es) e.passed e.now).1 := by
  rw [recordAll, List.foldl_append]
  rfl

/-- **A counter shows the outcomes of its kind at the end of a history.** -/
theorem counter_recordAll (t : Tracker) (h : Health) (es : List Evidence) (kind : Bool) :
    ((t.recordAll h es).counter kind).toNat = tally kind (h.counter kind) es := by
  induction es using List.reverseRecOn with
  | nil => exact (tally_nil kind (h.counter kind)).symm
  | append_singleton es e ih =>
    rw [recordAll_concat, counter_record, tally_concat, ← ih]
    split
    · exact toNat_bump _
    · rfl

theorem healthAt_succ (he : es[i]? = some e) :
    t.healthAt h es (i + 1) = (t.record (t.healthAt h es i) e.passed e.now).1 := by
  rw [healthAt, List.take_add_one, he]
  exact recordAll_concat t h _ e

theorem healthAt_succ_of_none (he : es[i]? = none) :
    t.healthAt h es (i + 1) = t.healthAt h es i := by
  rw [healthAt, List.take_add_one, he, Option.toList_none, List.append_nil, healthAt]

theorem changeAt?_of_getElem? (he : es[i]? = some e) :
    t.changeAt? h es i = (t.record (t.healthAt h es i) e.passed e.now).2 := by
  rw [changeAt?, he, Option.bind_some]

theorem exists_getElem?_of_changeAt? {c : Transition} (hc : t.changeAt? h es i = some c) :
    ∃ e, es[i]? = some e ∧ (t.record (t.healthAt h es i) e.passed e.now).2 = some c :=
  Option.bind_eq_some_iff.mp hc

/-- Nothing but a change moves the verdict and its date. -/
theorem keeps_of_changeAt?_eq_none (hc : t.changeAt? h es i = none) :
    (t.healthAt h es (i + 1)).isUp = (t.healthAt h es i).isUp
      ∧ (t.healthAt h es (i + 1)).changedAt = (t.healthAt h es i).changedAt := by
  cases he : es[i]? with
  | none =>
    rw [healthAt_succ_of_none he]
    exact ⟨rfl, rfl⟩
  | some e =>
    rw [changeAt?_of_getElem? he] at hc
    rw [healthAt_succ he]
    refine ⟨?_, ?_⟩
    · have hreport := report_record t (t.healthAt h es i) e.passed e.now
      rw [hc] at hreport
      by_contra hne
      rw [if_neg hne] at hreport
      cases hreport
    · rw [changedAt_record, if_pos hc]

/-- A change is from the verdict before it to the other one, which it leaves behind with its date. -/
theorem moves_of_changeAt? {c : Transition} (he : es[i]? = some e) (hc : t.changeAt? h es i = some c) :
    c.wasUp = (t.healthAt h es i).isUp ∧ c.isUp = !c.wasUp
      ∧ (t.healthAt h es (i + 1)).isUp = c.isUp
      ∧ (t.healthAt h es (i + 1)).changedAt = e.now := by
  rw [changeAt?_of_getElem? he] at hc
  have hreport := report_record t (t.healthAt h es i) e.passed e.now
  rw [hc] at hreport
  rw [healthAt_succ he]
  by_cases hup : (t.record (t.healthAt h es i) e.passed e.now).1.isUp = (t.healthAt h es i).isUp
  · rw [if_pos hup] at hreport
    cases hreport
  · rw [if_neg hup] at hreport
    obtain rfl := Option.some.inj hreport
    refine ⟨rfl, Bool.eq_not.mpr hup, rfl, ?_⟩
    rw [changedAt_record, if_neg (by rw [hc]; simp)]

/-- Without changes in between, verdict and date stay. -/
theorem healthAt_of_forall_none (hin : i ≤ n)
    (hnone : ∀ k, i ≤ k → k < n → t.changeAt? h es k = none) :
    (t.healthAt h es n).isUp = (t.healthAt h es i).isUp
      ∧ (t.healthAt h es n).changedAt = (t.healthAt h es i).changedAt := by
  induction hin with
  | refl => exact ⟨rfl, rfl⟩
  | @step n hin ih =>
    obtain ⟨hup, hat⟩ := ih fun k hk hkn => hnone k hk (Nat.lt_succ_of_lt hkn)
    obtain ⟨hup', hat'⟩ := keeps_of_changeAt?_eq_none (hnone n hin (Nat.lt_succ_self n))
    exact ⟨hup'.trans hup, hat'.trans hat⟩

/-- A later health is what the outcomes since an earlier one make of that. -/
theorem healthAt_eq_recordAll (hij : i ≤ j) :
    t.healthAt h es j = t.recordAll (t.healthAt h es i) ((es.take j).drop i) := by
  have hsplit : es.take i ++ (es.take j).drop i = es.take j := by
    have htake : (es.take j).take i = es.take i := by rw [List.take_take, Nat.min_eq_left hij]
    rw [← htake, List.take_append_drop]
  have hfold : t.recordAll h (es.take i ++ (es.take j).drop i)
      = t.recordAll (t.recordAll h (es.take i)) ((es.take j).drop i) := List.foldl_append
  rw [hsplit] at hfold
  exact hfold

end History

/-! ## The law -/

/-- Whether a history changes the verdict at two places and nowhere in between. -/
structure Successive (t : Tracker) (h : Health) (es : List Evidence) (i j : Nat) (c d : Transition) :
    Prop where
  lt : i < j
  first : t.changeAt? h es i = some c
  second : t.changeAt? h es j = some d
  between : ∀ k, i < k → k < j → t.changeAt? h es k = none

/-- **The outcomes that a change needs lie between it and the change before.** -/
theorem Successive.earned {t : Tracker} {h : Health} {es : List Evidence} {i j : Nat} {c d : Transition}
    (hs : t.Successive h es i j c d) :
    d.wasUp = c.isUp ∧ i + t.needed d.isUp ≤ j
      ∧ ∀ k e, j < k + t.needed d.isUp → k ≤ j → es[k]? = some e → e.passed = d.isUp := by
  obtain ⟨x, hx, hc⟩ := exists_getElem?_of_changeAt? hs.first
  obtain ⟨y, hy, hd⟩ := exists_getElem?_of_changeAt? hs.second
  obtain ⟨hcwas, hcis, hcup, -⟩ := moves_of_changeAt? hx hs.first
  obtain ⟨hdwas, hdis, -, -⟩ := moves_of_changeAt? hy hs.second
  have hlt := hs.lt
  have hlength : j < es.length := (List.getElem?_eq_some_iff.mp hy).1
  have halternate : d.wasUp = c.isUp := by
    rw [hdwas, (healthAt_of_forall_none hlt hs.between).1, hcup]
  -- the counter of the kind that the second change needs started afresh with the first one
  let since := (es.take (j + 1)).drop (i + 1)
  have hsince : since.length = j - i := by
    show ((es.take (j + 1)).drop (i + 1)).length = j - i
    rw [List.length_drop, List.length_take, Nat.min_eq_left hlength]
    omega
  have hfold : t.healthAt h es (j + 1) = t.recordAll (t.healthAt h es (i + 1)) since :=
    healthAt_eq_recordAll (by omega)
  have hzero : (t.healthAt h es (i + 1)).counter d.isUp = 0 := by
    rw [healthAt_succ hx, counter_record, (needed_le_of_report _ _ _ _ hc).1, hdis, halternate,
      if_neg (by simp)]
  have hstreak : t.needed d.isUp ≤ streak d.isUp since := by
    have henough := (needed_le_of_report _ _ _ _ hd).2
    rw [← healthAt_succ hy, hfold, counter_recordAll, hzero] at henough
    simp only [tally, UInt32.toNat_zero, ite_self, Nat.add_zero] at henough
    exact Nat.le_trans henough (Nat.min_le_left _ _)
  have hle := streak_le_length d.isUp since
  refine ⟨halternate, by omega, ?_⟩
  intro k e hk hkj he
  have hmem : since[k - (i + 1)]? = some e := by
    show ((es.take (j + 1)).drop (i + 1))[k - (i + 1)]? = some e
    rw [List.getElem?_drop, List.getElem?_take_of_lt (by omega)]
    rw [Nat.add_sub_cancel' (by omega), he]
  exact passed_of_streak (by omega) hmem

/-- The law of hysteresis for a history: what the counters show, when the verdict changes and when not,
and what lies between two changes. -/
structure Hysteresis (success fail : Nat) (autoDown : Bool) (t : Tracker) (h : Health)
    (es : List Evidence) : Prop where
  consecutiveUp : ∀ n,
    (t.healthAt h es n).consecutiveUp.toNat = tally true h.consecutiveUp (es.take n)
  consecutiveDown : ∀ n,
    (t.healthAt h es n).consecutiveDown.toNat = tally false h.consecutiveDown (es.take n)
  goesUp_iff : ∀ i e, es[i]? = some e →
    (t.changeAt? h es i = some ⟨false, true⟩
      ↔ (t.healthAt h es i).isUp = false ∧ e.passed = true
        ∧ success ≤ (t.healthAt h es (i + 1)).consecutiveUp.toNat)
  goesDown_iff : ∀ i e, es[i]? = some e →
    (t.changeAt? h es i = some ⟨true, false⟩
      ↔ autoDown = true ∧ (t.healthAt h es i).isUp = true ∧ e.passed = false
        ∧ fail ≤ (t.healthAt h es (i + 1)).consecutiveDown.toNat)
  /-- Every change is one of these two, and without one the verdict stays. -/
  changes : ∀ i, (∀ c, t.changeAt? h es i = some c → c = ⟨false, true⟩ ∨ c = ⟨true, false⟩)
    ∧ (t.changeAt? h es i = none → (t.healthAt h es (i + 1)).isUp = (t.healthAt h es i).isUp)
  /-- Before the first change everything is as it was. -/
  untouched : ∀ n, (∀ k < n, t.changeAt? h es k = none) →
    (t.healthAt h es n).isUp = h.isUp ∧ (t.healthAt h es n).changedAt = h.changedAt
  /-- After a change, verdict and date are those of the latest one. -/
  latest : ∀ i n c e, i < n → es[i]? = some e → t.changeAt? h es i = some c →
    (∀ k, i < k → k < n → t.changeAt? h es k = none) →
    (t.healthAt h es n).isUp = c.isUp ∧ (t.healthAt h es n).changedAt = e.now
  /-- The first change leaves the verdict of the start. -/
  leaves : ∀ j d, t.changeAt? h es j = some d → (∀ k < j, t.changeAt? h es k = none) →
    d.wasUp = h.isUp
  /-- Changes alternate. -/
  alternate : ∀ i j c d, t.Successive h es i j c d → d.wasUp = c.isUp ∧ d.isUp = c.wasUp
  /-- As many outcomes as the second of two changes needs lie between them, right before it. -/
  earned : ∀ i j c d, t.Successive h es i j c d →
    i + (if d.isUp then success else fail) ≤ j
      ∧ ∀ k e, j < k + (if d.isUp then success else fail) → k ≤ j → es[k]? = some e →
        e.passed = d.isUp

/-- **The law of hysteresis** holds for every history, whatever the thresholds, of which zero counts as
one, and whatever the counters and the verdict at its start. -/
theorem hysteresis (success fail : UInt32) (autoDown : Bool) (h : Health) (es : List Evidence) :
    Hysteresis (max success.toNat 1) (max fail.toNat 1) autoDown (ofThresholds success fail autoDown) h
      es := by
  have hsuccess : (ofThresholds success fail autoDown).successThreshold.toNat = max success.toNat 1 :=
    toNat_atLeastOne success
  have hfail : (ofThresholds success fail autoDown).failThreshold.toNat = max fail.toNat 1 :=
    toNat_atLeastOne fail
  have hdown : (ofThresholds success fail autoDown).autoDown = autoDown := rfl
  generalize ofThresholds success fail autoDown = t at hsuccess hfail hdown
  rw [← hsuccess, ← hfail, ← hdown]
  refine ⟨?_, ?_, ?_, ?_, ?_, ?_, ?_, ?_, ?_, ?_⟩
  · intro n
    exact counter_recordAll t h (es.take n) true
  · intro n
    exact counter_recordAll t h (es.take n) false
  · intro i e he
    rw [changeAt?_of_getElem? he, healthAt_succ he]
    exact report_eq_up_iff t _ _ _
  · intro i e he
    rw [changeAt?_of_getElem? he, healthAt_succ he]
    exact report_eq_down_iff t _ _ _
  · intro i
    refine ⟨?_, fun hnone => (keeps_of_changeAt?_eq_none hnone).1⟩
    intro c hc
    obtain ⟨e, he, -⟩ := exists_getElem?_of_changeAt? hc
    obtain ⟨-, hflip, -⟩ := moves_of_changeAt? he hc
    obtain ⟨was, is⟩ := c
    simp only at hflip
    subst hflip
    cases was
    · exact .inl rfl
    · exact .inr rfl
  · intro n hnone
    exact healthAt_of_forall_none (Nat.zero_le n) fun k _ hk => hnone k hk
  · intro i n c e hin he hc hnone
    obtain ⟨-, -, hup, hat⟩ := moves_of_changeAt? he hc
    obtain ⟨hup', hat'⟩ := healthAt_of_forall_none hin hnone
    exact ⟨hup'.trans hup, hat'.trans hat⟩
  · intro j d hd hnone
    obtain ⟨e, he, -⟩ := exists_getElem?_of_changeAt? hd
    obtain ⟨hwas, -⟩ := moves_of_changeAt? he hd
    rw [hwas]
    exact (healthAt_of_forall_none (Nat.zero_le j) fun k _ hk => hnone k hk).1
  · intro i j c d hs
    obtain ⟨x, hx, -⟩ := exists_getElem?_of_changeAt? hs.first
    obtain ⟨y, hy, -⟩ := exists_getElem?_of_changeAt? hs.second
    obtain ⟨-, hc, -⟩ := moves_of_changeAt? hx hs.first
    obtain ⟨-, hd, -⟩ := moves_of_changeAt? hy hs.second
    refine ⟨hs.earned.1, ?_⟩
    rw [hd, hs.earned.1, hc, Bool.not_not]
  · intro i j c d hs
    exact hs.earned.2

/-- Two passes in a row bring an address up, and two failures in a row take it down again. -/
example :
    (List.range 5).map ((ofThresholds 2 2 true).changeAt? { isUp := false }
        [⟨false, 1⟩, ⟨true, 2⟩, ⟨true, 3⟩, ⟨false, 4⟩, ⟨false, 5⟩])
      = [none, none, some ⟨false, true⟩, none, some ⟨true, false⟩] := by
  decide

end Tracker

end FleetHealth
