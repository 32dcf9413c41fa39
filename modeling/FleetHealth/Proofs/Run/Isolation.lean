import FleetHealth.Proofs.Run.Forecast
import FleetHealth.Proofs.Run.Frame
/-!
# Handlers that fail

A run goes the same way whatever its handlers do, as long as they leave health alone: the handlers of a
run may be exchanged for others, and the same history ends in the same health and in the same results,
but for the names of the handlers that failed. So no failure of a handler is felt anywhere else, and as
the answers to the probes decide about the rest, not even in a run that is scheduled otherwise.

* `Run.Twin`, `Run.Solo.exists_twin` — a run with its handlers exchanged.
* `Run.Solo.accords` — what a run has settled decides about its reports and about health.
* `Run.Solo.eq_of_outcomes` — what the probes find out decides about a run.
* `Run.failures_are_isolated` — the two together, and what the handlers do in each step.
-/

namespace FleetHealth

namespace RunSettings

variable {c c' : RunSettings} {t : Target} {result : CheckResult} {now : UInt64} {s s' u u' : Store}
  {report report' : Report}

/-- The handlers of a run have no say in what a check counts for. -/
theorem Counted.of_settings (h : c.Counted t result now s report s') (hpolicy : c'.policy = c.policy)
    (hmode : c'.mode = c.mode) : c'.Counted t result now s report s' := by
  have hsubject : c'.subject? t = c.subject? t := by
    rw [subject?, subject?, hpolicy, hmode]
  refine ⟨h.bare, ?_, ?_⟩
  · rw [hsubject, hpolicy]
    exact h.transitionedTo
  · intro j
    rw [hsubject, hpolicy]
    exact h.health j

/-- A check counts the same from stores of the same health. -/
theorem Counted.congr (h : c.Counted t result now s report s') (h' : c.Counted t result now u report' u')
    (hhealth : ∀ j, u.health? j = s.health? j) :
    report'.unblamed = report.unblamed ∧ ∀ j, u'.health? j = s'.health? j := by
  have hsame : u.health? = s.health? := funext hhealth
  constructor
  · rw [h'.unblamed_eq, h.unblamed_eq, hsame]
  · intro j
    rw [h'.health, h.health, hsame]

/-- A settled check of a run, with its result. -/
def judgementOf (c : RunSettings) (x : Target × CheckResult) : Judgement :=
  ⟨c, x.1.identity, x.2⟩

end RunSettings

/-- The report without the time that was spent on probes. -/
def Report.uncosted (r : Report) : Report :=
  { r with cost := 0 }

/-- A settled check without the time that was spent on it. -/
def untimedCheck (x : Target × CheckResult) : Target × CheckResult :=
  (x.1, x.2.untimed)

/-- The times that checks took show in their reports as such only. -/
theorem Judgement.map_uncosted (c : RunSettings) (u : Store) (checks : List (Target × CheckResult)) :
    (checks.map fun x => (c.judgementOf x).report u).map Report.uncosted
      = (checks.map untimedCheck).map fun x => (c.judgementOf x).report u := by
  rw [List.map_map, List.map_map]
  rfl

/-- The time that a check took has no say in health. -/
theorem Judgement.judge_untimedCheck (c : RunSettings) (x : Target × CheckResult) :
    (c.judgementOf (untimedCheck x)).judge = (c.judgementOf x).judge :=
  rfl

namespace Run

/-- The store that keeps the health that a run counts. -/
def healthStore (r : Run) (s : Store) : Store :=
  r.ledger.getD s

variable {r r' r₁ : Run} {h : List Happening} {s s' s₁ : Store} {m : Moment} {l : RunLabel}

/-! ## Exchanging the handlers -/

/-- Whether two runs, each with its store, are the same but for their handlers, what these did, and whom
the reports blame. -/
structure Twin (s : Store) (r : Run) (s' : Store) (r' : Run) : Prop where
  policy : r'.settings.policy = r.settings.policy
  mode : r'.settings.mode = r.settings.mode
  unaddressed : r'.unaddressed = r.unaddressed
  dispatched : r'.dispatched = r.dispatched
  queue : r'.queue = r.queue
  workers : r'.workers = r.workers
  reports : r'.reports.map Report.unblamed = r.reports.map Report.unblamed
  health : ∀ j, (r'.healthStore s').health? j = (r.healthStore s).health? j

theorem Twin.setWorker (htwin : Twin s r s' r') (w : Nat) (state : Worker) :
    Twin s (r.setWorker w state) s' (r'.setWorker w state) :=
  { htwin with workers := congrArg (·.set w state) htwin.workers }

theorem Twin.setQueue (htwin : Twin s r s' r') (queue : List Target) :
    Twin s { r with queue } s' { r' with queue } :=
  { htwin with queue := rfl }

theorem Twin.happening?_eq (htwin : Twin s r s' r') (m : Moment) (l : RunLabel) :
    r'.happening? m l = r.happening? m l := by
  unfold happening?
  rw [htwin.workers, htwin.queue]

/-- A check counts the same for the twin of a run. -/
theorem Twin.settle (htwin : Twin s r s' r') (hspares : ∀ h ∈ r.settings.handlers, h.SparesHealth)
    (hspares' : ∀ h ∈ r'.settings.handlers, h.SparesHealth) {t : Target} {result : CheckResult}
    {report report' : Report} {s₁ s₁' : Store} {ledger ledger' : Option Store}
    (hsettle : r.settings.settle t result m.now s r.ledger = (report, s₁, ledger))
    (hsettle' : r'.settings.settle t result m.now s' r'.ledger = (report', s₁', ledger')) :
    Twin s₁ { r with reports := r.reports ++ [report], ledger } s₁'
      { r' with reports := r'.reports ++ [report'], ledger := ledger' } := by
  have hcounted := (RunSettings.settle_isolated hspares hsettle).counted
  have hcounted' := (RunSettings.settle_isolated hspares' hsettle').counted
  -- the handlers aside, both runs judge alike, and from the same health
  obtain ⟨hreport, hhealth⟩ :=
    hcounted.congr (hcounted'.of_settings htwin.policy.symm htwin.mode.symm) htwin.health
  refine { htwin with reports := ?_, health := hhealth }
  simp only [List.map_append, List.map_singleton, htwin.reports, hreport]

/-- **The twin of a run takes the same step.** -/
theorem Twin.step (htwin : Twin s r s' r') (hspares : ∀ h ∈ r.settings.handlers, h.SparesHealth)
    (hspares' : ∀ h ∈ r'.settings.handlers, h.SparesHealth) (hstep : r.step m s l = some (s₁, r₁)) :
    ∃ s₁' r₁', r'.step m s' l = some (s₁', r₁') ∧ Twin s₁ r₁ s₁' r₁' := by
  cases l with
  | take w =>
    rw [Run.step] at hstep
    split at hstep
    · rename_i hw hqueue
      cases hstep
      refine ⟨_, _, ?_, htwin.setWorker w .ended⟩
      simp only [Run.step, htwin.workers, htwin.queue, hw, hqueue]
    · rename_i t rest hw hqueue
      cases hstep
      refine ⟨_, _, ?_, (htwin.setQueue rest).setWorker w (.poised t {})⟩
      simp only [Run.step, htwin.workers, htwin.queue, hw, hqueue]
    · cases hstep
  | send w reply =>
    rw [Run.step] at hstep ⊢
    rw [htwin.workers]
    split at hstep
    · cases hstep
      exact ⟨_, _, rfl, htwin.setWorker w _⟩
    · cases hstep
  | receive w =>
    rw [Run.step] at hstep ⊢
    rw [htwin.workers, htwin.policy]
    split at hstep
    · split at hstep
      · rename_i hclock
        cases hstep
        exact ⟨_, _, if_pos hclock, htwin.setWorker w _⟩
      · cases hstep
    · cases hstep
  | resume w =>
    rw [Run.step] at hstep ⊢
    rw [htwin.workers]
    split at hstep
    · split at hstep
      · rename_i hclock
        cases hstep
        exact ⟨_, _, if_pos hclock, htwin.setWorker w _⟩
      · cases hstep
    · cases hstep
  | settle w =>
    rw [Run.step] at hstep
    split at hstep
    · rename_i t result hw
      cases hstep
      refine ⟨_, _, step_settle_eq (htwin.workers ▸ hw) m s', ?_⟩
      exact (htwin.settle hspares hspares' rfl rfl).setWorker w .free
    · cases hstep

theorem Twin.isOver_eq (htwin : Twin s r s' r') : r'.isOver = r.isOver := by
  rw [isOver, isOver, htwin.workers]

/-- Whom the results of a run blame has no say in what else they tell. -/
theorem map_unblamed_results (r : Run) :
    r.results.map Report.unblamed = r.unaddressed.map .noAddress
      ++ (r.dispatched.filter fun t => !(r.reports.map Report.unblamed).any fun report =>
        report.addressId == some t.address.id).map .aborted
      ++ r.reports.map Report.unblamed := by
  rw [results, List.map_append, List.map_append, List.map_map, List.map_map]
  simp only [List.any_map]
  rfl

theorem Twin.map_unblamed_results_eq (htwin : Twin s r s' r') :
    r'.results.map Report.unblamed = r.results.map Report.unblamed := by
  rw [map_unblamed_results, map_unblamed_results, htwin.unaddressed, htwin.dispatched, htwin.reports]

/-! ## What a run comes to -/

/-- Whether the reports of a run and the health that it keeps are what its settled checks lead to under
some settings, from the health in a store. -/
structure Accords (c : RunSettings) (u : Store) (h : List Happening) (s : Store) (r : Run) : Prop where
  reports : r.reports.map Report.unblamed = (settledOf h).map fun x => (c.judgementOf x).report u
  pending : ∀ j, (∀ x ∈ settledOf h, c.subject? x.1 ≠ some j) →
    (r.healthStore s).health? j = u.health? j
  judged : ∀ j, ∀ x ∈ settledOf h, c.subject? x.1 = some j →
    ((r.healthStore s).health? j).map Health.undated = (u.health? j).map (c.judgementOf x).judge

/-- A check of a subject that no settled check counts for keeps the accord. -/
theorem Accords.settle {c : RunSettings} {u : Store} {g : List Happening} {t : Target} {result : CheckResult}
    {report : Report} (hr : Accords c u h s r) (hg : settledOf g = [(t, result)])
    (hreports : r'.reports = r.reports ++ [report])
    (hfirst : ∀ j, c.subject? t = some j → ∀ x ∈ settledOf h, c.subject? x.1 ≠ some j)
    (hcounted : c.Counted t result m.now (r.healthStore s) report (r'.healthStore s')) :
    Accords c u (h ++ g) s' r' := by
  have hsame (j : Subject) (hj : c.subject? t = some j) :
      ((r.healthStore s).health? j).map Health.undated = (u.health? j).map Health.undated := by
    rw [hr.pending j (hfirst j hj)]
  have hall : settledOf (h ++ g) = settledOf h ++ [(t, result)] := by
    rw [settledOf_append, hg]
  refine ⟨?_, ?_, ?_⟩
  · rw [hall, hreports, List.map_append, List.map_append, hr.reports, List.map_singleton,
      List.map_singleton, hcounted.unblamed_eq_report hsame]
    rfl
  · intro j hj
    rw [hall] at hj
    rw [hcounted.health, if_neg (hj (t, result) (List.mem_append_right _ List.mem_cons_self))]
    exact hr.pending j fun x hx => hj x (List.mem_append_left _ hx)
  · intro j x hx hj
    rw [hall] at hx
    rcases List.mem_append.mp hx with hx | hx
    · -- the subject of a check that was settled before is not judged again
      rw [hcounted.health, if_neg fun hj' => hfirst j hj' x hx hj]
      exact hr.judged j x hx hj
    · obtain rfl := List.mem_singleton.mp hx
      exact hcounted.map_undated_health? hj (hsame j hj)

section Course

variable {clusterId : UInt64} {resolved : Resolved} {poolSize : Nat} {mode : TrackingMode}
  {handlers handlers' : List Handler} {ledger : Option Store}
  (hspares : ∀ h ∈ handlers, h.SparesHealth)
  (hcourse : Solo s (start resolved poolSize mode handlers ledger) h s₁ r₁)

include hspares hcourse

/-- **A step of a run leaves store and reports alone, or settles a check**, which counts whatever the
handlers make of it. -/
theorem Solo.isolated {s₁' : Store} {r₁' : Run} (hstep : r₁.step m s₁ l = some (s₁', r₁')) :
    settledOf (r₁.happening? m l).toList = [] ∧ s₁' = s₁ ∧ r₁'.ledger = r₁.ledger
        ∧ r₁'.reports = r₁.reports
      ∨ ∃ t result report, settledOf (r₁.happening? m l).toList = [(t, result)]
        ∧ .checked t result ∈ r₁.workers ∧ r₁'.reports = r₁.reports ++ [report]
        ∧ RunSettings.Isolated ⟨resolved.policy, mode, handlers⟩ t result m.now s₁ r₁.ledger report s₁'
            r₁'.ledger := by
  have hsettings := (Course.ledger hcourse (fresh_start _ _ _ _ _)).settings
  have hmoves := moves_of_step hstep
  generalize (r₁.happening? m l).toList = g at hmoves
  cases hmoves with
  | @settles before after t result report s' ledger hworkers hsettle =>
    refine .inr ⟨t, result, report, rfl, ?_, rfl, ?_⟩
    · rw [hworkers]
      exact List.mem_append_right _ List.mem_cons_self
    · rw [hsettings] at hsettle
      exact RunSettings.settle_isolated hspares hsettle
  | _ => exact .inl ⟨rfl, rfl, rfl, rfl⟩

/-- **With other handlers a run can go the same way.** -/
theorem Solo.exists_twin (hspares' : ∀ h ∈ handlers', h.SparesHealth) :
    ∃ s₂ r₂, Solo s (start resolved poolSize mode handlers' ledger) h s₂ r₂ ∧ Twin s₁ r₁ s₂ r₂ := by
  induction hcourse with
  | start => exact ⟨_, _, .start, ⟨rfl, rfl, rfl, rfl, rfl, rfl, rfl, fun _ => rfl⟩⟩
  | @step m l h s₁ s₁' r₁ r₁' hcourse hstep ih =>
    obtain ⟨s₂, r₂, hcourse₂, htwin⟩ := ih
    have hsettings := (Course.ledger hcourse (fresh_start _ _ _ _ _)).settings
    have hsettings₂ := (Course.ledger hcourse₂ (fresh_start _ _ _ _ _)).settings
    obtain ⟨s₂', r₂', hstep₂, htwin'⟩ :=
      htwin.step (hsettings ▸ hspares) (hsettings₂ ▸ hspares') hstep
    -- the twin has the same worker do the same with the same target
    refine ⟨s₂', r₂', ?_, htwin'⟩
    rw [← htwin.happening?_eq]
    exact Course.step hcourse₂ hstep₂
  | other _ hother _ => cases hother

/-- **What a run has settled decides about its reports and about health**, whatever its handlers do. -/
theorem Solo.accords (hs : s.Keyed) (hresolve : s.resolve clusterId = .ok resolved) :
    Accords { policy := resolved.policy, mode, handlers := [] } (ledger.getD s) h s₁ r₁ := by
  induction hcourse with
  | start => exact ⟨rfl, fun _ _ => rfl, fun _ x hx => absurd hx List.not_mem_nil⟩
  | @step m l h s₁ s₁' r₁ r₁' hcourse hstep ih =>
    rcases Solo.isolated hspares hcourse hstep with
      ⟨hnone, rfl, hledger, hreports⟩ | ⟨t, result, report, hone, hchecked, hreports, hisolated⟩
    · have hstore : r₁'.healthStore s₁' = r₁.healthStore s₁' := by
        rw [healthStore, healthStore, hledger]
      have hall : settledOf (h ++ (r₁.happening? m l).toList) = settledOf h := by
        rw [settledOf_append, hnone, List.append_nil]
      exact ⟨by rw [hall, hreports]; exact ih.reports, by rw [hall, hstore]; exact ih.pending,
        by rw [hall, hstore]; exact ih.judged⟩
    · refine ih.settle hone hreports ?_ (hisolated.counted.of_settings rfl rfl)
      intro j hj
      have hheld : t ∈ r₁.held := List.mem_filterMap.mpr ⟨_, hchecked, rfl⟩
      exact Course.subject?_ne_of_held hs hresolve hcourse hheld hj
  | other _ hother _ => cases hother

/-- Whoever is blamed in the results of a run failed to react to a flip. -/
theorem Solo.failedHandlers_eq_nil : ∀ report ∈ r₁.results,
    report.transitionedTo = none → report.failedHandlers = [] := by
  have hreports : ∀ report ∈ r₁.reports, report.transitionedTo = none → report.failedHandlers = [] := by
    induction hcourse with
    | start => exact fun report hreport => absurd hreport List.not_mem_nil
    | step hcourse hstep ih =>
      rcases Solo.isolated hspares hcourse hstep with
        ⟨-, -, -, hreports⟩ | ⟨t, result, report, -, -, hreports, hisolated⟩
      · rw [hreports]
        exact ih
      · rw [hreports]
        intro report' hmem hnone
        rcases List.mem_append.mp hmem with hmem | hmem
        · exact ih report' hmem hnone
        · obtain rfl := List.mem_singleton.mp hmem
          refine (hisolated.steady fun hflipped => ?_).1
          have hsome := hisolated.counted.isSome_transitionedTo_iff.mpr hflipped
          rw [hnone] at hsome
          cases hsome
    | other _ hother _ => cases hother
  intro report hreport
  rw [results_eq, List.mem_append, List.mem_append, List.mem_map, List.mem_map] at hreport
  rcases hreport with (⟨n, -, rfl⟩ | ⟨t, -, rfl⟩) | hreport
  · exact fun _ => rfl
  · exact fun _ => rfl
  · exact hreports report hreport

/-- The store of the fleet is the one that counts, or it keeps its health. -/
theorem Solo.health?_cases : r₁.healthStore s₁ = s₁ ∧ ledger.isSome = false
    ∨ (∀ j, s₁.health? j = s.health? j) ∧ ledger.isSome = true := by
  -- which store counts does not change in the course of a run
  have haside : r₁.ledger.isSome = ledger.isSome ∧ (ledger.isSome → ∀ j, s₁.health? j = s.health? j) := by
    induction hcourse with
    | start => exact ⟨rfl, fun _ _ => rfl⟩
    | step hcourse hstep ih =>
      rcases Solo.isolated hspares hcourse hstep with
        ⟨-, rfl, hledger, -⟩ | ⟨t, result, report, -, -, -, hisolated⟩
      · exact hledger ▸ ih
      · refine ⟨hisolated.aside.1.trans ih.1, ?_⟩
        intro hsome j
        exact (hisolated.aside.2 (ih.1.trans hsome) j).trans (ih.2 hsome j)
    | other _ hother _ => cases hother
  cases hsome : ledger.isSome with
  | true => exact .inr ⟨haside.2 hsome, rfl⟩
  | false =>
    have hnone := Option.isSome_eq_false_iff.mp (haside.1.trans hsome)
    rw [Option.isNone_iff_eq_none] at hnone
    exact .inl ⟨by rw [healthStore, hnone]; rfl, rfl⟩

/-- Runs that count the same health end with the same health in the store of the fleet. -/
theorem Solo.map_health?_eq {α : Type} {φ : Health → α} {poolSize' : Nat} {h' : List Happening} {s₂ : Store}
    {r₂ : Run} (hspares' : ∀ h ∈ handlers', h.SparesHealth)
    (hcourse' : Solo s (start resolved poolSize' mode handlers' ledger) h' s₂ r₂)
    (hsame : ∀ j, ((r₂.healthStore s₂).health? j).map φ = ((r₁.healthStore s₁).health? j).map φ)
    (j : Subject) : (s₂.health? j).map φ = (s₁.health? j).map φ := by
  rcases hcourse.health?_cases hspares with ⟨hstore, hledger⟩ | ⟨hkept, hledger⟩
  · rcases hcourse'.health?_cases hspares' with ⟨hstore', -⟩ | ⟨-, hledger'⟩
    · rw [← hstore, ← hstore', hsame]
    · cases hledger.symm.trans hledger'
  · rcases hcourse'.health?_cases hspares' with ⟨-, hledger'⟩ | ⟨hkept', -⟩
    · cases hledger.symm.trans hledger'
    · rw [hkept, hkept']

variable {poolSize' : Nat} {h' : List Happening} {s₂ : Store} {r₂ : Run} {f f' : Target → Nat → Reply}
  (hs : s.Keyed) (hresolve : s.resolve clusterId = .ok resolved)
  (hanswers : ∀ t k, (f t k).outcome.isSome) (hf : Agrees f h) (hover : r₁.isOver)

include hs hresolve hanswers hf hover

/-- The results of a run whose probes are all answered tell what it settled, whatever its handlers do. -/
theorem Solo.map_unblamed_results_eq : r₁.results.map Report.unblamed
    = ((start resolved poolSize mode handlers ledger).unaddressed.map .noAddress)
      ++ (settledOf h).map fun x =>
        (RunSettings.judgementOf ⟨resolved.policy, mode, []⟩ x).report (ledger.getD s) := by
  have hreports := (hcourse.accords hspares hs hresolve).reports
  rw [results_eq, Course.unsettled_eq_nil hs hresolve hcourse hf hanswers hover,
    (Course.ledger hcourse (fresh_start _ _ _ _ _)).unaddressed, List.map_append, List.map_append, hreports,
    List.map_map]
  simp only [List.map_nil, List.append_nil]
  rfl

variable (hspares' : ∀ h ∈ handlers', h.SparesHealth)
  (hcourse' : Solo s (start resolved poolSize' mode handlers' ledger) h' s₂ r₂)
  (hover' : r₂.isOver)

include hspares' hcourse' hover'

/-- **The answers to the probes decide about the results of a run**, whatever its handlers do, and however
it is scheduled. -/
theorem Solo.perm_results (hf' : Agrees f h') :
    (r₂.results.map Report.unblamed).Perm (r₁.results.map Report.unblamed) := by
  -- both settle every target, with the result that the answers lead to
  have hperm : (settledOf h').Perm (settledOf h) :=
    (Course.perm_settledOf hs hresolve hcourse' hf' hanswers hover').trans
      (Course.perm_settledOf hs hresolve hcourse hf hanswers hover).symm
  rw [hcourse'.map_unblamed_results_eq hspares' hs hresolve hanswers hf' hover',
    hcourse.map_unblamed_results_eq hspares hs hresolve hanswers hf hover]
  exact (hperm.map _).append_left _

variable (hsame : ∀ t k, (f' t k).outcome = (f t k).outcome) (hf' : Agrees f' h')

include hsame hf'

omit hspares hspares' in
/-- Runs whose probes find out the same settle the same checks, whatever time these take. -/
theorem Solo.perm_untimed : ((settledOf h').map untimedCheck).Perm ((settledOf h).map untimedCheck) := by
  have hanswers' (t : Target) (k : Nat) : (f' t k).outcome.isSome := by
    rw [hsame]
    exact hanswers t k
  have hall := (Course.perm_settledOf hs hresolve hcourse hf hanswers hover).map untimedCheck
  have hall' := (Course.perm_settledOf hs hresolve hcourse' hf' hanswers' hover').map untimedCheck
  -- check by check, the results differ in their times at most
  have htargets : ((addressed resolved.targets).filterMap fun t =>
        (checkCourse resolved.policy (f' t)).result.map (t, ·)).map untimedCheck
      = ((addressed resolved.targets).filterMap fun t =>
        (checkCourse resolved.policy (f t)).result.map (t, ·)).map untimedCheck := by
    rw [List.map_filterMap, List.map_filterMap]
    apply List.filterMap_congr
    intro t _
    have huntimed := Attempt.map_untimed_checkCourse resolved.policy (hsame t)
    have hpair := congrArg (Option.map (t, ·)) huntimed
    rw [Option.map_map, Option.map_map] at hpair ⊢
    exact hpair
  rw [htargets] at hall'
  exact hall'.trans hall.symm

/-- **What the probes find out decides about a run**, whatever its handlers do, however it is scheduled and
whatever time the answers take. -/
theorem Solo.eq_of_outcomes :
    (r₂.results.map (Report.uncosted ∘ Report.unblamed)).Perm
        (r₁.results.map (Report.uncosted ∘ Report.unblamed))
      ∧ ∀ j, ((r₂.healthStore s₂).health? j).map Health.undated
        = ((r₁.healthStore s₁).health? j).map Health.undated := by
  have hanswers' (t : Target) (k : Nat) : (f' t k).outcome.isSome := by
    rw [hsame]
    exact hanswers t k
  have hperm := hcourse.perm_untimed hs hresolve hanswers hf hover hcourse' hover' hsame hf'
  constructor
  · have hresults := hcourse.map_unblamed_results_eq hspares hs hresolve hanswers hf hover
    have hresults' := hcourse'.map_unblamed_results_eq hspares' hs hresolve hanswers' hf' hover'
    rw [← List.map_map, ← List.map_map, hresults, hresults', List.map_append, List.map_append,
      Judgement.map_uncosted, Judgement.map_uncosted]
    exact (hperm.map _).append_left _
  · have haccords := hcourse.accords hspares hs hresolve
    have haccords' := hcourse'.accords hspares' hs hresolve
    intro j
    by_cases hj : ∃ x ∈ settledOf h,
        (RunSettings.mk resolved.policy mode []).subject? x.1 = some j
    · obtain ⟨x, hx, hj⟩ := hj
      obtain ⟨x', hx', huntimed⟩ := List.mem_map.mp (hperm.mem_iff.mpr (List.mem_map_of_mem hx))
      have htarget : x'.1 = x.1 := congrArg (·.1) huntimed
      rw [haccords.judged j x hx hj, haccords'.judged j x' hx' (htarget ▸ hj),
        ← Judgement.judge_untimedCheck, huntimed, Judgement.judge_untimedCheck]
    · have hnone (x : Target × CheckResult) (hx : x ∈ settledOf h)
          (hxj : (RunSettings.mk resolved.policy mode []).subject? x.1 = some j) : False := hj ⟨x, hx, hxj⟩
      rw [haccords.pending j hnone, haccords'.pending j]
      intro x' hx' hxj
      obtain ⟨x, hx, huntimed⟩ := List.mem_map.mp (hperm.mem_iff.mp (List.mem_map_of_mem hx'))
      have htarget : x.1 = x'.1 := congrArg (·.1) huntimed
      exact hnone x hx (htarget ▸ hxj)

end Course

/-- **Failures of handlers are isolated.** Take any run whose handlers leave health alone, and any other
handlers that do, such as ones that never fail. The same history is a course of the run with these, with
the same results, but for whom they blame, and the same health. Nobody is blamed for a target that did not
flip. Each step leaves everything alone or settles a check: if the target flipped, every handler is run
once on its event, in order, whatever came of those before; else none is. And if what the probes find out
depends on the target and the attempt only, any two such runs come to the same, however they are scheduled
and whatever time the answers take, which shows in the costs of the results only. -/
theorem failures_are_isolated {handlers handlers' : List Handler}
    (hspares : ∀ h ∈ handlers, h.SparesHealth) (hspares' : ∀ h ∈ handlers', h.SparesHealth) (s : Store)
    (resolved : Resolved) (mode : TrackingMode) (ledger : Option Store) :
    (∀ poolSize h s₁ r₁, Solo s (start resolved poolSize mode handlers ledger) h s₁ r₁ →
      (∃ s₂ r₂, Solo s (start resolved poolSize mode handlers' ledger) h s₂ r₂ ∧ r₂.isOver = r₁.isOver
        ∧ r₂.results.map Report.unblamed = r₁.results.map Report.unblamed
        ∧ ∀ j, (r₂.healthStore s₂).health? j = (r₁.healthStore s₁).health? j
          ∧ s₂.health? j = s₁.health? j)
      ∧ (∀ report ∈ r₁.results, report.transitionedTo = none → report.failedHandlers = [])
      ∧ ∀ m l s₁' r₁', r₁.step m s₁ l = some (s₁', r₁') →
        s₁' = s₁ ∧ r₁'.ledger = r₁.ledger ∧ r₁'.reports = r₁.reports
        ∨ ∃ t result report, .checked t result ∈ r₁.workers ∧ r₁'.reports = r₁.reports ++ [report]
          ∧ RunSettings.Isolated ⟨resolved.policy, mode, handlers⟩ t result m.now s₁ r₁.ledger report s₁'
              r₁'.ledger)
    ∧ ∀ clusterId, s.Keyed → s.resolve clusterId = .ok resolved →
      ∀ f f' : Target → Nat → Reply, (∀ t k, (f t k).outcome.isSome) →
      (∀ t k, (f' t k).outcome = (f t k).outcome) →
      ∀ poolSize h s₁ r₁, Solo s (start resolved poolSize mode handlers ledger) h s₁ r₁ →
      ∀ poolSize' h' s₂ r₂, Solo s (start resolved poolSize' mode handlers' ledger) h' s₂ r₂ →
      Agrees f h → Agrees f' h' → r₁.isOver → r₂.isOver →
      (r₂.results.map (Report.uncosted ∘ Report.unblamed)).Perm
          (r₁.results.map (Report.uncosted ∘ Report.unblamed))
        ∧ (f' = f → (r₂.results.map Report.unblamed).Perm (r₁.results.map Report.unblamed))
        ∧ ∀ j, ((r₂.healthStore s₂).health? j).map Health.undated
            = ((r₁.healthStore s₁).health? j).map Health.undated
          ∧ (s₂.health? j).map Health.undated = (s₁.health? j).map Health.undated := by
  constructor
  · intro poolSize h s₁ r₁ hcourse
    refine ⟨?_, hcourse.failedHandlers_eq_nil hspares, ?_⟩
    · obtain ⟨s₂, r₂, hcourse₂, htwin⟩ := hcourse.exists_twin hspares hspares'
      have hfleet := hcourse.map_health?_eq (φ := id) hspares hspares' hcourse₂ fun j => by rw [htwin.health]
      simp only [Option.map_id, id_eq] at hfleet
      exact ⟨s₂, r₂, hcourse₂, htwin.isOver_eq, htwin.map_unblamed_results_eq,
        fun j => ⟨htwin.health j, hfleet j⟩⟩
    · intro m l s₁' r₁' hstep
      refine (hcourse.isolated hspares hstep).imp And.right ?_
      rintro ⟨t, result, report, -, hsettled⟩
      exact ⟨t, result, report, hsettled⟩
  · intro clusterId hs hresolve f f' hanswers hsame poolSize h s₁ r₁ hcourse poolSize' h' s₂ r₂ hcourse' hf
      hf' hover hover'
    obtain ⟨hresults, hhealth⟩ := hcourse.eq_of_outcomes hspares hs hresolve hanswers hf hover hspares'
      hcourse' hover' hsame hf'
    refine ⟨hresults, ?_, fun j => ⟨hhealth j, hcourse.map_health?_eq hspares hspares' hcourse' hhealth j⟩⟩
    rintro rfl
    exact hcourse.perm_results hspares hs hresolve hanswers hf hover hspares' hcourse' hover' hf'

/-- What happens to the second target of a run when its only attempt fails too. -/
def secondFailureHistory : List Happening :=
  [⟨smallTarget 2 "10.0.0.2", .taken⟩, ⟨smallTarget 2 "10.0.0.2", .sent 1⟩,
    ⟨smallTarget 2 "10.0.0.2", .answered 1 ⟨0, some ⟨false, none⟩⟩⟩,
    ⟨smallTarget 2 "10.0.0.2", .settled failureResult⟩]

/-- What happens in a run from its start to its end when every probe fails. -/
def failuresHistory : List Happening :=
  failureHistory ++ [⟨smallTarget 1 "10.0.0.1", .settled failureResult⟩] ++ secondFailureHistory

/-- Such a run can be had, whatever its handlers make of the failures. -/
theorem exists_isOver_failuresHistory (handlers : List Handler) : ∃ s' r,
    Solo smallStore (start smallPlan 1 .address handlers none) failuresHistory s' r ∧ r.isOver := by
  have hfirst := (course_failureRun handlers).step (m := ⟨0, 0⟩) (l := .settle 0)
    (step_settle_eq rfl ⟨0, 0⟩ smallStore)
  have htaken := hfirst.step (m := ⟨0, 0⟩) (l := .take 0) rfl
  have hsent := htaken.step (m := ⟨0, 0⟩) (l := .send 0 ⟨0, some ⟨false, none⟩⟩) rfl
  have hanswered := hsent.step (m := ⟨0, 0⟩) (l := .receive 0) rfl
  have hsecond := hanswered.step (m := ⟨0, 0⟩) (l := .settle 0) (step_settle_eq rfl ⟨0, 0⟩ _)
  -- nothing is left in the queue
  have hended := hsecond.step (m := ⟨0, 0⟩) (l := .take 0) rfl
  exact ⟨_, _, hended, rfl⟩

theorem agrees_failuresHistory : Agrees (fun _ _ => ⟨0, some ⟨false, none⟩⟩) failuresHistory := by
  intro t number reply hmem
  have hreply : reply = ⟨0, some ⟨false, none⟩⟩ := by
    simp only [failuresHistory, failureHistory, secondFailureHistory, List.cons_append, List.nil_append,
      List.mem_cons, Happening.mk.injEq, reduceCtorEq, and_false, false_or, or_false, List.not_mem_nil] at hmem
    rcases hmem with ⟨-, h⟩ | ⟨-, h⟩ <;> cases h <;> rfl
  exact hreply.symm

/-- A notification that is refused is reported, and otherwise the run comes to the same as if it had been
delivered; so it is for runs that are brought to their ends. -/
theorem failures_are_isolated_refusedNotification : (∃ h s₁ r₁,
    Solo smallStore (start smallPlan 1 .address [Handler.notification.refusing] none) h s₁ r₁
    ∧ r₁.reports.map (·.failedHandlers) = [["notification"]]
    ∧ ∃ s₂ r₂, Solo smallStore (start smallPlan 1 .address [.notification] none) h s₂ r₂
      ∧ r₂.results.map Report.unblamed = r₁.results.map Report.unblamed
      ∧ ∀ j, s₂.health? j = s₁.health? j)
    ∧ ∃ s₁ r₁ s₂ r₂,
      Solo smallStore (start smallPlan 1 .address [Handler.notification.refusing] none) failuresHistory s₁ r₁
      ∧ r₁.isOver
      ∧ Solo smallStore (start smallPlan 1 .address [.notification] none) failuresHistory s₂ r₂ ∧ r₂.isOver
      ∧ (r₂.results.map Report.unblamed).Perm (r₁.results.map Report.unblamed)
      ∧ ∀ j, (s₂.health? j).map Health.undated = (s₁.health? j).map Health.undated := by
  have hspares : ∀ h ∈ [Handler.notification.refusing], h.SparesHealth := by
    intro h hh
    exact List.mem_singleton.mp hh ▸ Handler.sparesHealth_refusing _
  have hspares' : ∀ h ∈ [Handler.notification], h.SparesHealth := by
    intro h hh
    exact List.mem_singleton.mp hh ▸ Handler.sparesHealth_of_mem_standardPipeline List.mem_cons_self
  obtain ⟨hany, hover⟩ := failures_are_isolated hspares hspares' smallStore smallPlan .address none
  constructor
  · have hisolated := hany 1
    have hstart := course_failureRun [Handler.notification.refusing]
    obtain ⟨s₁, r₁, hstep, hcourse⟩ := exists_step_failureRun [Handler.notification.refusing]
    obtain ⟨⟨s₂, r₂, hcourse₂, -, hresults, hhealth⟩, -, -⟩ := hisolated _ s₁ r₁ hcourse
    refine ⟨_, s₁, r₁, hcourse, ?_, s₂, r₂, hcourse₂, hresults, fun j => (hhealth j).2⟩
    rcases (hisolated _ _ _ hstart).2.2 _ _ s₁ r₁ hstep with
      ⟨-, -, hreports⟩ | ⟨t, result, report, hchecked, hreports, hisolated⟩
    · -- the check was settled, so there is a report
      have hone := (Course.ledger hcourse (fresh_start _ _ _ _ _)).reports
      rw [hreports] at hone
      cases hone
    · obtain ⟨rfl, rfl⟩ := Worker.checked.inj (List.mem_singleton.mp hchecked)
      have hledger : (failureRun [Handler.notification.refusing]).ledger = none := rfl
      have hsubject : RunSettings.subject? ⟨smallPlan.policy, .address, [Handler.notification.refusing]⟩
          (smallTarget 1 "10.0.0.1") = some (.address 1) := rfl
      have hhealth₀ := (Store.mem_addressed_of_smallPlan Store.wellFormed_smallStore.keyed
        Store.resolve_smallStore).2
      rw [hledger] at hisolated
      have hsome : report.transitionedTo.isSome := by
        rw [hisolated.counted.transitionedTo, hsubject, Option.bind_some, Option.getD_none, hhealth₀]
        rfl
      obtain ⟨e, log, -, -, hfailed, hlog, hpasses, -⟩ :=
        hisolated.flipped (hisolated.counted.isSome_transitionedTo_iff.mp hsome)
      have hnames : failedNames log = ["notification"] := by
        cases hpasses with
        | nil => cases hlog
        | @cons h failed _ s' _ rest hhandle hrest =>
          obtain ⟨rfl, hrest⟩ := List.cons.inj hlog
          obtain rfl := List.map_eq_nil_iff.mp hrest
          rw [Handler.handle_refusing] at hhandle
          cases hhandle
          rfl
      have hone : (failureRun [Handler.notification.refusing]).reports = [] := rfl
      rw [hreports, hone, List.nil_append, List.map_singleton, hfailed, hnames]
  · obtain ⟨s₁, r₁, hcourse, hover₁⟩ := exists_isOver_failuresHistory [Handler.notification.refusing]
    obtain ⟨s₂, r₂, hcourse₂, hover₂⟩ := exists_isOver_failuresHistory [.notification]
    have hsame := hover 1 Store.wellFormed_smallStore.keyed Store.resolve_smallStore _ _ (fun _ _ => rfl)
      (fun _ _ => rfl) 1 _ s₁ r₁ hcourse 1 _ s₂ r₂ hcourse₂ agrees_failuresHistory agrees_failuresHistory
      hover₁ hover₂
    exact ⟨s₁, r₁, s₂, r₂, hcourse, hover₁, hcourse₂, hover₂, hsame.2.1 rfl, fun j => (hsame.2.2 j).2⟩

end Run

end FleetHealth
