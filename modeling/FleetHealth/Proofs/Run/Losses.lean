import FleetHealth.Proofs.Run.Probing
import FleetHealth.Proofs.Run.Results
/-!
# What is lost with a worker

A probe may bring down the worker that waits for it. The worker is gone then, with the target that it
held, and there is one worker less for what still stands in the queue. A target is fatal if its check
ends that way. As each fatal target costs one worker, a target is reached as long as fewer fatal ones
stand before it than there are workers; the rest of the queue goes down with the last worker.

* `Run.Course.countP_take_lt` — whatever was taken from the queue had a worker left to take it.
* `Run.completes_iff` — which targets of a run complete, and which are given up.
* `Run.Course.perm_settledOf` — with no fatal target nothing is lost.
-/

namespace FleetHealth

namespace Run

variable {f : Target → Nat → Reply} {r₀ r r' : Run} {h g : List Happening} {s₀ s s' : Store}
  {m : Moment} {t : Target} {others : Store → Store → Prop}

/-- Whether the check of a target brings down the worker that makes it. -/
def fatal (f : Target → Nat → Reply) (r : Run) (t : Target) : Bool :=
  (checkCourse r.settings.policy (f t)).result.isNone

/-- Whether a target was probed, its check was settled once with the result that the answers lead to, and
it is reported once with that result. -/
def Completes (f : Target → Nat → Reply) (h : List Happening) (r : Run) (t : Target) : Prop :=
  answersTo h t ≠ [] ∧ ∃ result, (checkCourse r.settings.policy (f t)).result = some result
    ∧ (settledOf h).filter (·.1 == t) = [(t, result)]
    ∧ ∃ report, r.reportsOn t = [report] ∧ report.TellsResult t result

/-- Whether no check of a target was settled, and it is reported once as given up. -/
def GivenUp (h : List Happening) (r : Run) (t : Target) : Prop :=
  (∀ result, (t, result) ∉ settledOf h)
    ∧ ∃ report, r.reportsOn t = [report]
      ∧ report.TellsUnchecked t.node (some t.address) "health check worker aborted"

/-! ## Settled targets were probed -/

/-- Whether every check with a result goes back to an answer. -/
structure Probed (h : List Happening) (r : Run) : Prop where
  workers : ∀ w ∈ r.workers, ∀ t result, w = .checked t result → answersTo h t ≠ []
  settled : ∀ x ∈ settledOf h, answersTo h x.1 ≠ []

theorem answersTo_append_ne_nil (h' : answersTo h t ≠ []) : answersTo (h ++ g) t ≠ [] := by
  rw [answersTo_append]
  exact List.append_ne_nil_of_left_ne_nil h' _

theorem Probed.replace {before after : List Worker} {old new : Worker} (hr : Probed h r)
    (hworkers : r.workers = before ++ old :: after) (hworkers' : r'.workers = before ++ new :: after)
    (hnew : ∀ t result, new = .checked t result → answersTo (h ++ g) t ≠ [])
    (hsettled : ∀ x ∈ settledOf g, answersTo (h ++ g) x.1 ≠ []) : Probed (h ++ g) r' := by
  have hall := hr.workers
  rw [hworkers] at hall
  constructor
  · rw [hworkers']
    exact forall_mem_replace (fun w hw t result he => answersTo_append_ne_nil (hall w hw t result he)) hnew
  · intro x hx
    rw [settledOf_append] at hx
    rcases List.mem_append.mp hx with hx | hx
    · exact answersTo_append_ne_nil (hr.settled x hx)
    · exact hsettled x hx

theorem Probed.step (hr : Probed h r) (hmoves : r.Moves m s g s' r') : Probed (h ++ g) r' := by
  cases hmoves with
  | takes hworkers _ => exact hr.replace hworkers rfl (by rintro _ _ ⟨⟩) (by rintro _ ⟨⟩)
  | ends hworkers _ => exact hr.replace hworkers rfl (by rintro _ _ ⟨⟩) (by rintro _ ⟨⟩)
  | sends hworkers => exact hr.replace hworkers rfl (by rintro _ _ ⟨⟩) (by rintro _ ⟨⟩)
  | @receives before after t a sent reply hworkers _ =>
    refine hr.replace hworkers rfl ?_ (by rintro _ ⟨⟩)
    intro t' result he
    have htarget := target?_answered r.settings.policy t a sent m.clock reply
    rw [he] at htarget
    obtain rfl := Option.some.inj htarget
    rw [answersTo_append]
    exact List.append_ne_nil_of_right_ne_nil _ (by simp [answersTo])
  | resumes hworkers _ => exact hr.replace hworkers rfl (by rintro _ _ ⟨⟩) (by rintro _ ⟨⟩)
  | @settles before after t result report s' ledger hworkers _ =>
    refine hr.replace hworkers rfl (by rintro _ _ ⟨⟩) ?_
    intro x hx
    rw [List.mem_singleton.mp hx]
    exact answersTo_append_ne_nil (hr.workers (.checked t result) (by rw [hworkers]; simp) t result rfl)

theorem Course.probed (hcourse : Course others s₀ r₀ h s r) (hr₀ : r₀.Fresh) : Probed h r := by
  induction hcourse with
  | start =>
    refine ⟨?_, fun x hx => absurd hx List.not_mem_nil⟩
    intro w hw t result he
    cases (hr₀.eq_free hw).symm.trans he
  | step _ hstep ih => exact ih.step (moves_of_step hstep)
  | other _ _ ih => exact ih

/-! ## Counting fatal targets -/

theorem Follows.not_fatal_of_settled (hr : Follows f h r) {result : CheckResult}
    (ht : (t, result) ∈ settledOf h) : r.fatal f t = false := by
  rw [fatal, hr.settled _ ht]
  rfl

/-- The fatal targets among those that were taken are with workers. -/
theorem countP_taken (hledger : Ledger r₀ h r) (hr : Follows f h r) :
    (takenOf h).countP (r.fatal f) = r.held.countP (r.fatal f) := by
  have hsettled : ((settledOf h).map (·.1)).countP (r.fatal f) = 0 := by
    rw [List.countP_eq_zero]
    intro t ht
    obtain ⟨⟨_, result⟩, hmem, rfl⟩ := List.mem_map.mp ht
    rw [hr.not_fatal_of_settled hmem]
    exact Bool.false_ne_true
  rw [← hledger.held.countP_eq, List.countP_append, hsettled, Nat.zero_add]

theorem length_held_lt {before after : List Worker} (hworkers : r.workers = before ++ .free :: after) :
    r.held.length < r.workers.length := by
  have hbefore := List.length_filterMap_le Worker.target? before
  have hafter := List.length_filterMap_le Worker.target? after
  rw [held_eq hworkers, hworkers]
  simp only [List.length_append, List.length_cons, Worker.target?, Option.toList_none, List.length_nil]
  omega

/-- **Whatever was taken from the queue had a worker left to take it**: fewer fatal targets were taken
before it than there are workers. -/
theorem Course.countP_take_lt (hcourse : Course others s₀ r₀ h s r) (hr₀ : r₀.Fresh)
    (hmax : 1 ≤ r₀.settings.policy.maxAttempts.toNat) (hf : Agrees f h) :
    ∀ i < (takenOf h).length, ((takenOf h).take i).countP (r₀.fatal f) < r₀.workers.length := by
  induction hcourse with
  | start => exact fun i hi => absurd hi (Nat.not_lt_zero i)
  | @step m l h s s' r r' hcourse hstep ih =>
    have hf₁ : Agrees f h := fun t number reply hmem =>
      hf t number reply (List.mem_append_left _ hmem)
    have hledger := hcourse.ledger hr₀
    have hfollows := hcourse.follows hr₀ hmax hf₁
    have hfatal : r.fatal f = r₀.fatal f := by
      unfold fatal
      rw [hledger.settings]
    have hmoves := moves_of_step hstep
    rw [takenOf_append]
    generalize (r.happening? m l).toList = g at hmoves
    cases hmoves with
    | takes hworkers _ =>
      intro i hi
      rcases Nat.lt_or_ge i (takenOf h).length with hlt | hge
      · rw [List.take_append_of_le_length (Nat.le_of_lt hlt)]
        exact ih hf₁ i hlt
      · -- the worker that takes the next target holds none of the fatal ones before it
        have hlength : i ≤ (takenOf h).length := by
          rw [List.length_append] at hi
          exact Nat.le_of_lt_succ hi
        obtain rfl := Nat.le_antisymm hlength hge
        rw [List.take_append_of_le_length hlength, List.take_length, ← hfatal,
          countP_taken hledger hfollows, ← hledger.workers]
        exact Nat.lt_of_le_of_lt List.countP_le_length (length_held_lt hworkers)
    | _ => exact (List.append_nil (takenOf h)).symm ▸ ih hf₁
  | other _ _ ih => exact ih hf

/-! ## Runs that are over -/

theorem eq_ended_or_lost {w : Worker} (h : w.isOver) : w = .ended ∨ ∃ t, w = .lost t := by
  cases w with
  | ended => exact .inl rfl
  | lost t => exact .inr ⟨t, rfl⟩
  | _ => cases h

theorem forall_ended_or_lost (hover : r.isOver) : ∀ w ∈ r.workers, w = .ended ∨ ∃ t, w = .lost t :=
  fun w hw => eq_ended_or_lost (List.all_eq_true.mp hover w hw)

/-- In the end only fatal targets are still with workers. -/
theorem Follows.fatal_of_mem_held (hr : Follows f h r) (hover : r.isOver) (ht : t ∈ r.held) :
    r.fatal f t = true := by
  obtain ⟨w, hw, htarget⟩ := List.mem_filterMap.mp ht
  rcases forall_ended_or_lost hover w hw with rfl | ⟨t', rfl⟩
  · cases htarget
  · obtain rfl := Option.some.inj htarget
    have hlost : (checkCourse r.settings.policy (f t')).result = none := hr.workers _ hw
    rw [fatal, hlost]
    rfl

/-- If targets are left in the queue in the end, every worker went down with a fatal one. -/
theorem countP_taken_of_queue_ne_nil (hledger : Ledger r₀ h r) (hr : Follows f h r)
    (hover : r.isOver) (hqueue : r.queue ≠ []) :
    (takenOf h).countP (r.fatal f) = r.workers.length := by
  have hlost : ∀ w ∈ r.workers, w.target?.isSome := by
    intro w hw
    rcases forall_ended_or_lost hover w hw with rfl | ⟨t, rfl⟩
    · exact absurd (hledger.ended hw) hqueue
    · rfl
  have hlength : r.held.length = r.workers.length := List.length_filterMap_eq_countP.trans
    (List.countP_eq_length.mpr hlost)
  rw [countP_taken hledger hr, ← hlength]
  exact List.countP_eq_length.mpr fun t ht => hr.fatal_of_mem_held hover ht

/-- **A target is settled if it is not fatal itself and fewer fatal targets stand before it than there
are workers.** -/
theorem Course.settled_iff (hcourse : Course others s₀ r₀ h s r) (hr₀ : r₀.Fresh)
    (hmax : 1 ≤ r₀.settings.policy.maxAttempts.toNat) (hf : Agrees f h) (hdistinct : r.dispatched.Nodup)
    (hover : r.isOver) {i : Nat} (ht : r.dispatched[i]? = some t) :
    (∃ result, (t, result) ∈ settledOf h)
      ↔ r.fatal f t = false ∧ (r.dispatched.take i).countP (r.fatal f) < r₀.workers.length := by
  have hledger := hcourse.ledger hr₀
  have hfollows := hcourse.follows hr₀ hmax hf
  have hfatal : r.fatal f = r₀.fatal f := by
    unfold fatal
    rw [hledger.settings]
  have hqueue : r.dispatched = takenOf h ++ r.queue := by
    rw [hledger.dispatched, ← hr₀.queue, hledger.queue]
  constructor
  · rintro ⟨result, hsettled⟩
    refine ⟨hfollows.not_fatal_of_settled hsettled, ?_⟩
    -- a settled target was taken, and its place in the queue is its place among those taken
    have htaken : t ∈ takenOf h := hledger.held.mem_iff.mp
      (List.mem_append_left _ (List.mem_map_of_mem (f := (·.1)) hsettled))
    obtain ⟨j, hj⟩ := List.getElem?_of_mem htaken
    have hlt : j < (takenOf h).length := (List.getElem?_eq_some_iff.mp hj).1
    have hi : r.dispatched[j]? = some t := by
      rw [hqueue, List.getElem?_append_left hlt, hj]
    have hij : j = i := (List.getElem?_inj (List.getElem?_eq_some_iff.mp hi).1 hdistinct).mp
      (hi.trans ht.symm)
    subst hij
    rw [hqueue, List.take_append_of_le_length (Nat.le_of_lt hlt), hfatal]
    exact hcourse.countP_take_lt hr₀ hmax hf j hlt
  · rintro ⟨hharmless, hbefore⟩
    have htaken : t ∈ takenOf h := by
      rcases Nat.lt_or_ge i (takenOf h).length with hlt | hge
      · rw [hqueue, List.getElem?_append_left hlt] at ht
        exact List.mem_of_getElem? ht
      · -- the target was left in the queue, so all workers were lost before it
        have hne : r.queue ≠ [] := by
          intro hnil
          rw [hqueue, hnil, List.append_nil, List.getElem?_eq_none hge] at ht
          cases ht
        have hall := countP_taken_of_queue_ne_nil hledger hfollows hover hne
        have hle : (takenOf h).countP (r.fatal f) ≤ (r.dispatched.take i).countP (r.fatal f) := by
          rw [hqueue, List.take_append, List.take_of_length_le hge, List.countP_append]
          exact Nat.le_add_right _ _
        rw [hall, hledger.workers] at hle
        exact absurd hbefore (Nat.not_lt.mpr hle)
    rcases List.mem_append.mp (hledger.held.mem_iff.mpr htaken) with hsettled | hheld
    · obtain ⟨⟨_, result⟩, hmem, rfl⟩ := List.mem_map.mp hsettled
      exact ⟨result, hmem⟩
    · rw [hfollows.fatal_of_mem_held hover hheld] at hharmless
      cases hharmless

/-- A target of a run that is over is completed if its check was settled, and given up otherwise. -/
theorem Course.completes_or_givenUp (hcourse : Course others s₀ r₀ h s r) (hr₀ : r₀.Fresh)
    (hmax : 1 ≤ r₀.settings.policy.maxAttempts.toNat) (hf : Agrees f h) (hdistinct : r.Distinct)
    (ht : t ∈ r.dispatched) :
    (Completes f h r t ↔ ∃ result, (t, result) ∈ settledOf h)
      ∧ (GivenUp h r t ↔ ¬∃ result, (t, result) ∈ settledOf h) := by
  have hledger := hcourse.ledger hr₀
  refine ⟨⟨?_, ?_⟩, ⟨?_, ?_⟩⟩
  · rintro ⟨-, result, -, hsettled, -⟩
    have hmem : (t, result) ∈ (settledOf h).filter (·.1 == t) := by
      rw [hsettled]
      exact List.mem_singleton.mpr rfl
    exact ⟨result, (List.mem_filter.mp hmem).1⟩
  · rintro ⟨result, hsettled⟩
    have hkeys : ((settledOf h).map (·.1)).Nodup := by
      refine List.Nodup.of_map (fun t => t.address.id) ?_
      rw [List.map_map]
      exact hledger.settled_nodup hr₀ hdistinct
    exact ⟨(hcourse.probed hr₀).settled _ hsettled, result,
      (hcourse.follows hr₀ hmax hf).settled _ hsettled,
      filter_eq_singleton (·.1) hkeys hsettled, hledger.reportsOn_of_settled hr₀ hdistinct hsettled⟩
  · rintro ⟨hnone, -⟩ ⟨result, hsettled⟩
    exact hnone result hsettled
  · intro hnone
    have hnone' : ∀ result, (t, result) ∉ settledOf h := fun result hmem => hnone ⟨result, hmem⟩
    have hunsettled := (hledger.mem_unsettled_iff hr₀ hdistinct).mpr ⟨ht, hnone'⟩
    exact ⟨hnone', .aborted t, hledger.reportsOn_of_unsettled hr₀ hdistinct hunsettled,
      Report.tellsUnchecked_aborted t⟩

/-- **What a run makes of a target.** It completes the target if the target is not fatal itself and fewer
fatal targets stand before it in the queue than there are workers, and gives it up otherwise. -/
theorem completes_iff {clusterId : UInt64} {resolved : Resolved} {poolSize : Nat} {mode : TrackingMode}
    {handlers : List Handler} {ledger : Option Store} (hs₀ : s₀.WellFormed)
    (hresolve : s₀.resolve clusterId = .ok resolved)
    (hcourse : Course others s₀ (start resolved poolSize mode handlers ledger) h s r)
    (hover : r.isOver) (hf : Agrees f h) {i : Nat} (ht : (addressed resolved.targets)[i]? = some t) :
    (Completes f h r t
        ↔ r.fatal f t = false
          ∧ ((addressed resolved.targets).take i).countP (r.fatal f)
            < workerCount poolSize (addressed resolved.targets).length)
      ∧ (GivenUp h r t
        ↔ ¬(r.fatal f t = false
          ∧ ((addressed resolved.targets).take i).countP (r.fatal f)
            < workerCount poolSize (addressed resolved.targets).length)) := by
  have hfresh := fresh_start resolved poolSize mode handlers ledger
  have hledger := hcourse.ledger hfresh
  have hdistinct := hledger.distinct (distinct_start hs₀.keyed hresolve poolSize mode handlers ledger)
  have hmax : 1 ≤ (start resolved poolSize mode handlers ledger).settings.policy.maxAttempts.toNat :=
    Store.one_le_maxAttempts hresolve
  have hworkers : (start resolved poolSize mode handlers ledger).workers.length
      = workerCount poolSize (addressed resolved.targets).length := List.length_replicate
  have ht' : r.dispatched[i]? = some t := by
    rw [hledger.dispatched]
    exact ht
  have hsettled := hcourse.settled_iff hfresh hmax hf hdistinct.nodup hover ht'
  rw [hworkers, hledger.dispatched] at hsettled
  obtain ⟨hcompletes, hgivenUp⟩ := hcourse.completes_or_givenUp hfresh hmax hf hdistinct
    (List.mem_of_getElem? ht')
  exact ⟨hcompletes.trans hsettled, hgivenUp.trans (not_congr hsettled)⟩

/-! ## Runs without losses -/

section Answered

variable {clusterId : UInt64} {resolved : Resolved} {poolSize : Nat} {mode : TrackingMode}
  {handlers : List Handler} {ledger : Option Store} (hs₀ : s₀.Keyed)
  (hresolve : s₀.resolve clusterId = .ok resolved)
  (hcourse : Course others s₀ (Run.start resolved poolSize mode handlers ledger) h s r)
  (hf : Agrees f h) (hanswers : ∀ t k, (f t k).outcome.isSome) (hover : r.isOver)

include hs₀ hresolve hcourse hf hanswers hover

/-- In the end every target of a run whose probes are all answered is settled. -/
theorem Course.unsettled_eq_nil : r.unsettled = [] := by
  have hfresh := fresh_start resolved poolSize mode handlers ledger
  have hmax := Store.one_le_maxAttempts hresolve
  have hledger := hcourse.ledger hfresh
  have hdistinct := hledger.distinct (distinct_start hs₀ hresolve poolSize mode handlers ledger)
  -- no target is fatal, so whatever was dispatched is settled
  have hfatal (t : Target) : r.fatal f t = false := by
    have hsome := Attempt.isSome_checkCourse (p := resolved.policy) (hanswers t) hmax
    rw [fatal, hledger.settings]
    exact Option.isNone_eq_false_iff.mpr hsome
  apply List.eq_nil_iff_forall_not_mem.mpr
  intro t ht
  obtain ⟨hdispatched, hnone⟩ := (hledger.mem_unsettled_iff hfresh hdistinct).mp ht
  obtain ⟨i, hi⟩ := List.getElem?_of_mem hdispatched
  have hworkers : 0 < (Run.start resolved poolSize mode handlers ledger).workers.length := by
    have hlength : (Run.start resolved poolSize mode handlers ledger).workers.length
        = workerCount poolSize (addressed resolved.targets).length := List.length_replicate
    rw [hledger.dispatched] at hdispatched
    have hpos : 0 < (addressed resolved.targets).length := List.length_pos_of_mem hdispatched
    rw [hlength, workerCount]
    omega
  have hcount : (r.dispatched.take i).countP (r.fatal f) = 0 :=
    List.countP_eq_zero.mpr fun t _ => by rw [hfatal t]; exact Bool.false_ne_true
  obtain ⟨result, hsettled⟩ := (hcourse.settled_iff hfresh hmax hf hdistinct.nodup hover hi).mpr
    ⟨hfatal t, hcount ▸ hworkers⟩
  exact hnone result hsettled

/-- **In the end a run whose probes are all answered has settled every target** with the result that the
answers lead to. -/
theorem Course.perm_settledOf :
    (settledOf h).Perm ((addressed resolved.targets).filterMap fun t =>
      (checkCourse resolved.policy (f t)).result.map (t, ·)) := by
  have hfresh := fresh_start resolved poolSize mode handlers ledger
  have hledger := hcourse.ledger hfresh
  have hfollows := hcourse.follows hfresh (Store.one_le_maxAttempts hresolve) hf
  have hperm := hledger.perm_dispatched hfresh
    (hledger.distinct (distinct_start hs₀ hresolve poolSize mode handlers ledger))
  rw [Course.unsettled_eq_nil hs₀ hresolve hcourse hf hanswers hover, List.nil_append,
    hledger.dispatched] at hperm
  -- the result of a settled check can be told from its target
  have hresults : ((settledOf h).map (·.1)).filterMap
      (fun t => (checkCourse resolved.policy (f t)).result.map (t, ·)) = settledOf h := by
    rw [List.filterMap_map]
    conv_rhs => rw [← List.filterMap_some (l := settledOf h)]
    apply List.filterMap_congr
    intro x hx
    have hresult := hfollows.settled x hx
    rw [hledger.settings] at hresult
    exact congrArg (Option.map (x.1, ·)) hresult
  rw [← hresults]
  exact hperm.filterMap _

end Answered

/-- A prober that brings down whoever probes the address of a number, and lets every other pass. -/
def panicsOn (id : UInt64) (t : Target) (_ : Nat) : Reply :=
  if t.address.id = id then ⟨0, none⟩ else ⟨0, some ⟨true, none⟩⟩

theorem agrees_lossHistory : Agrees (panicsOn 1) lossHistory := by
  intro t number reply hmem
  obtain ⟨rfl, rfl, rfl⟩ : t = smallTarget 1 "10.0.0.1" ∧ number = 1 ∧ reply = ⟨0, none⟩ := by
    simpa [lossHistory] using hmem
  rfl

/-- A run whose only worker goes down with the first target completes neither of its two targets. -/
theorem completes_iff_lossRun :
    (Completes (panicsOn 1) lossHistory lossRun (smallTarget 2 "10.0.0.2")
        ↔ lossRun.fatal (panicsOn 1) (smallTarget 2 "10.0.0.2") = false
          ∧ ((addressed smallPlan.targets).take 1).countP (lossRun.fatal (panicsOn 1))
            < workerCount 1 (addressed smallPlan.targets).length)
      ∧ (GivenUp lossHistory lossRun (smallTarget 2 "10.0.0.2")
        ↔ ¬(lossRun.fatal (panicsOn 1) (smallTarget 2 "10.0.0.2") = false
          ∧ ((addressed smallPlan.targets).take 1).countP (lossRun.fatal (panicsOn 1))
            < workerCount 1 (addressed smallPlan.targets).length)) :=
  completes_iff Store.wellFormed_smallStore Store.resolve_smallStore course_lossRun rfl
    agrees_lossHistory rfl

/-- **A dying worker may lose more than it holds.** The second target is not fatal, and yet it is never
probed and is reported as given up. -/
theorem givenUp_of_not_fatal :
    smallStore.WellFormed ∧ smallStore.resolve 1 = .ok smallPlan
      ∧ Course (fun _ _ => False) smallStore (start smallPlan 1 .address standardPipeline none)
        lossHistory smallStore lossRun
      ∧ lossRun.isOver ∧ Agrees (panicsOn 1) lossHistory
      ∧ smallTarget 2 "10.0.0.2" ∈ addressed smallPlan.targets
      ∧ lossRun.fatal (panicsOn 1) (smallTarget 2 "10.0.0.2") = false
      ∧ answersTo lossHistory (smallTarget 2 "10.0.0.2") = []
      ∧ GivenUp lossHistory lossRun (smallTarget 2 "10.0.0.2") := by
  refine ⟨Store.wellFormed_smallStore, Store.resolve_smallStore, course_lossRun, rfl,
    agrees_lossHistory, by simp [smallPlan, addressed, smallTarget], rfl, by decide, ?_,
    .aborted (smallTarget 2 "10.0.0.2"), by decide, Report.tellsUnchecked_aborted _⟩
  intro result hmem
  cases hmem

end Run

end FleetHealth
