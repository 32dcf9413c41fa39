import FleetHealth.Proofs.Run.Procedures
import FleetHealth.Proofs.Run.Replay
/-!
# Runs and clients on one store

Any number of runs share a store with clients that store records of their own. The runs go through it
transaction by transaction, and anyone may come between two of them. What clients store is not lost to
what runs write, and what runs check does not depend on what clients store. A run judges by the policy
that it found at its start; the thresholds for backups are read whenever a verdict changes.

* `Traffic.Steps` — the courses that things may take, with the transactions that were carried out.
* `Traffic.steps_of_step` — a step of a run is such a course, in which nobody comes between.
* `Traffic.edits_are_kept` — what becomes of the records, and of the runs.
-/

namespace FleetHealth

/-! ## A run, transaction by transaction -/

/-- What a run was begun with: what it resolved, whenever that was, and how it goes about it. -/
structure RunPlan where
  resolved : Resolved
  poolSize : Nat
  mode : TrackingMode
  reactions : List Reaction

namespace RunPlan

/-- The run before its first step. -/
def start (p : RunPlan) : Run :=
  .start p.resolved p.poolSize p.mode (p.reactions.map Reaction.handler) none

/-- The targets to check. -/
def targets (p : RunPlan) : List Target :=
  Run.addressed p.resolved.targets

end RunPlan

/-- A run that is under way. -/
structure Job where
  plan : RunPlan
  run : Run
  /-- What each worker that is settling its check has left to do. -/
  settling : Nat → Option (Procedure Report)
  /-- The steps that the run has taken, settled checks included. -/
  trail : List (Moment × RunLabel)
  /-- What has happened to its targets. -/
  history : List Happening

/-- A step of a run, or a part of one. -/
inductive JobLabel where
  /-- A step without a transaction. -/
  | work (l : RunLabel)
  /-- A worker begins to settle its check. -/
  | settle (w : Nat)
  /-- A worker carries out its next transaction. -/
  | commit (w : Nat)
  /-- A worker has settled its check and is free. -/
  | report (w : Nat)

namespace Job

/-- A run that has just begun. -/
def begun (p : RunPlan) : Job :=
  ⟨p, p.start, fun _ => none, [], []⟩

/-- The job with something else left to do for a worker. -/
def setSettling (j : Job) (w : Nat) (rest : Option (Procedure Report)) : Job :=
  { j with settling := fun v => if v = w then rest else j.settling v }

/-- The job after a step of its run. -/
def taken (j : Job) (m : Moment) (l : RunLabel) (run : Run) : Job :=
  { j with
    run
    trail := j.trail ++ [(m, l)]
    history := j.history ++ (j.run.happening? m l).toList }

/-- One step: the transaction that was carried out, if one was, the store and the job. -/
def step (m : Moment) (s : Store) (j : Job) : JobLabel → Option (List Access × Store × Job)
  | .work (.settle _) => none
  | .work l => (j.run.step m s l).map fun (_, run) => ([], s, j.taken m l run)
  | .settle w =>
    match j.run.workers[w]?, j.settling w with
    | some (.checked t result), none =>
      some ([], s, j.setSettling w (some (j.run.settings.settling j.plan.reactions t result)))
    | _, _ => none
  | .commit w =>
    match j.settling w with
    | some (.access x next) =>
      let (reply, s) := x.run m.now s
      some ([x], s, j.setSettling w (some (next reply)))
    | _ => none
  | .report w =>
    match j.settling w with
    | some (.done report) =>
      let run := { j.run with reports := j.run.reports ++ [report] }.setWorker w .free
      some ([], s, (j.setSettling w none).taken m (.settle w) run)
    | _ => none

section Equations

variable {m : Moment} {s s' : Store} {j : Job} {l : RunLabel} {run : Run} {w : Nat} {t : Target}
  {result : CheckResult} {rest : Option (Procedure Report)}
  {report : Report}

theorem step_work (hl : ∀ w, l ≠ .settle w) (h : j.run.step m s l = some (s', run)) :
    j.step m s (.work l) = some ([], s, j.taken m l run) := by
  cases l with
  | settle w => exact absurd rfl (hl w)
  | _ => exact congrArg (Option.map _) h

theorem step_settle (hw : j.run.workers[w]? = some (.checked t result)) (hidle : j.settling w = none) :
    j.step m s (.settle w)
      = some ([], s, j.setSettling w (some (j.run.settings.settling j.plan.reactions t result))) := by
  rw [step, hw, hidle]

theorem step_commit {x : Access} {next : Except StoreError x.Reply → Procedure Report}
    (hw : j.settling w = some (.access x next)) : j.step m s (.commit w)
      = some ([x], (x.run m.now s).2, j.setSettling w (some (next (x.run m.now s).1))) := by
  rw [step, hw]

theorem step_report (hw : j.settling w = some (.done report)) : j.step m s (.report w)
      = some ([], s, (j.setSettling w none).taken m (.settle w)
        ({ j.run with reports := j.run.reports ++ [report] }.setWorker w .free)) := by
  rw [step, hw]

theorem setSettling_self (hw : j.settling w = rest) : j.setSettling w rest = j := by
  subst hw
  refine congrArg (fun settling => { j with settling }) (funext fun v => ?_)
  split
  · rename_i hv
    rw [hv]
  · rfl

@[simp] theorem setSettling_setSettling (j : Job) (w : Nat) (rest rest' : Option (Procedure Report)) :
    (j.setSettling w rest).setSettling w rest' = j.setSettling w rest' := by
  refine congrArg (fun settling => { j with settling }) (funext fun v => ?_)
  simp only [setSettling]
  split <;> rfl

@[simp] theorem settling_setSettling (j : Job) (w : Nat) (rest : Option (Procedure Report)) :
    (j.setSettling w rest).settling w = rest :=
  if_pos rfl

theorem settling_setSettling_of_ne (rest : Option (Procedure Report)) {v : Nat} (h : v ≠ w) :
    (j.setSettling w rest).settling v = j.settling v :=
  if_neg h

end Equations

end Job

/-! ## Everybody together -/

/-- A store with the runs that are under way on it. A run is known by its place in the list. -/
structure Traffic where
  store : Store
  jobs : List Job

/-- Who does what. -/
inductive TrafficLabel where
  /-- A client stores a record. -/
  | edit (e : Edit)
  /-- A run begins. -/
  | begin (p : RunPlan)
  /-- A run goes on. -/
  | job (id : Nat) (l : JobLabel)

namespace Traffic

/-- A store that no run is under way on. -/
def idle (s : Store) : Traffic :=
  ⟨s, []⟩

/-- One step: the transaction that was carried out, if one was, and where it led. -/
def step (m : Moment) (c : Traffic) : TrafficLabel → Option (List Commit × Traffic)
  | .edit e => some ([.edit e], ⟨e.apply c.store, c.jobs⟩)
  | .begin p => some ([], ⟨c.store, c.jobs ++ [.begun p]⟩)
  | .job id l => do
    let j ← c.jobs[id]?
    let (done, s, j) ← j.step m c.store l
    some (done.map fun x => .access id x m.now, ⟨s, c.jobs.set id j⟩)

/-- The courses that things may take from some traffic on: the transactions that were carried out, in
their order, and where they led. -/
inductive Steps (c : Traffic) : List Commit → Traffic → Prop
  | refl : Steps c [] c
  | step {log g : List Commit} {c' c'' : Traffic} {m : Moment} {l : TrafficLabel} :
    Steps c log c' → c'.step m l = some (g, c'') → Steps c (log ++ g) c''

end Traffic

/-! ## What a run keeps to -/

namespace Job

variable {m : Moment} {s s' : Store} {j j' : Job} {done : List Access} {l : JobLabel}

/-- A step of a run that is done transaction by transaction. -/
inductive Moves (m : Moment) (s : Store) (j : Job) : JobLabel → List Access → Store → Job → Prop
  | works {l : RunLabel} {s' : Store} {run : Run} :
    (∀ w, l ≠ .settle w) → j.run.step m s l = some (s', run) →
    Moves m s j (.work l) [] s (j.taken m l run)
  | settles {w : Nat} {t : Target} {result : CheckResult} :
    j.run.workers[w]? = some (.checked t result) →
    Moves m s j (.settle w) [] s
      (j.setSettling w (some (j.run.settings.settling j.plan.reactions t result)))
  | commits {w : Nat} {x : Access} {next : Except StoreError x.Reply → Procedure Report} :
    j.settling w = some (.access x next) →
    Moves m s j (.commit w) [x] (x.run m.now s).2 (j.setSettling w (some (next (x.run m.now s).1)))
  | reports {w : Nat} {report : Report} :
    j.settling w = some (.done report) →
    Moves m s j (.report w) [] s ((j.setSettling w none).taken m (.settle w)
      ({ j.run with reports := j.run.reports ++ [report] }.setWorker w .free))

/-- Every step is one of these. -/
theorem moves_of_step (h : j.step m s l = some (done, s', j')) : j.Moves m s l done s' j' := by
  cases l with
  | work l =>
    have hworks (hl : ∀ w, l ≠ .settle w) (h : (j.run.step m s l).map
        (fun x => (([] : List Access), s, j.taken m l x.2)) = some (done, s', j')) :
        j.Moves m s (.work l) done s' j' := by
      obtain ⟨⟨s'', run⟩, hstep, heq⟩ := Option.map_eq_some_iff.mp h
      cases heq
      exact .works hl hstep
    cases l with
    | settle w => cases h
    | _ => exact hworks nofun h
  | settle w =>
    rw [step] at h
    split at h
    · rename_i hw _
      cases h
      exact .settles hw
    · cases h
  | commit w =>
    rw [step] at h
    split at h
    · rename_i hw
      cases h
      exact .commits hw
    · cases h
  | report w =>
    rw [step] at h
    split at h
    · rename_i hw
      cases h
      exact .reports hw
    · cases h

/-- A step keeps the plan. -/
theorem Moves.plan (h : j.Moves m s l done s' j') : j'.plan = j.plan := by
  cases h <;> rfl

/-- The store changes by transactions alone. -/
theorem Moves.store (h : j.Moves m s l done s' j') : s' = done.foldl (fun s x => (x.run m.now s).2) s := by
  cases h <;> rfl

/-- Whether a run has gone on as it was begun, whatever was stored meanwhile. -/
structure Undisturbed (j : Job) : Prop where
  /-- What happened to its targets and where it stands follow from its plan and its steps alone. -/
  replay : (j.plan.start.replay j.trail).map (fun x => (x.1, x.2.plain)) = some (j.history, j.run.plain)
  /-- It goes by the policy of its plan and the thresholds for a verdict in it. -/
  settings : j.run.settings = j.plan.start.settings
  /-- What was taken from the queue and what is still there are the targets of the plan. -/
  queue : Run.takenOf j.history ++ j.run.queue = j.plan.targets
  /-- What was taken is settled or in the hands of a worker. -/
  held : ((Run.settledOf j.history).map (·.1) ++ j.run.held).Perm (Run.takenOf j.history)
  /-- Nothing happened to anything else. -/
  targets : ∀ x ∈ j.history, x.target ∈ j.plan.targets

theorem undisturbed_of_replay
    (h : (j.plan.start.replay j.trail).map (fun x => (x.1, x.2.plain)) = some (j.history, j.run.plain)) :
    j.Undisturbed := by
  obtain ⟨⟨history, r⟩, hreplay, heq⟩ := Option.map_eq_some_iff.mp h
  obtain ⟨rfl, hplain⟩ := Prod.mk.inj heq
  obtain ⟨s, hcourse⟩ := Run.course_of_replay hreplay
  have hfresh : j.plan.start.Fresh := Run.fresh_start _ _ _ _ _
  have hledger := hcourse.ledger hfresh
  have hsettings : r.settings = j.run.settings := (congrArg Run.settings hplain :)
  have hqueue : r.queue = j.run.queue := (congrArg Run.queue hplain :)
  have hheld : r.held = j.run.held := (congrArg Run.held hplain :)
  exact ⟨h, hsettings ▸ hledger.settings, hqueue ▸ hledger.queue, hheld ▸ hledger.held,
    fun _ hx => hcourse.target_mem hfresh hx⟩

/-- A worker holds one of the targets of the plan. -/
theorem Undisturbed.checked_mem (hj : j.Undisturbed) {w : Nat} {t : Target} {result : CheckResult}
    (hw : j.run.workers[w]? = some (.checked t result)) : t ∈ j.plan.targets := by
  have hheld : t ∈ j.run.held := List.mem_filterMap.mpr ⟨_, List.mem_of_getElem? hw, rfl⟩
  rw [← hj.queue]
  exact List.mem_append_left _ (hj.held.mem_iff.mp (List.mem_append_right _ hheld))

/-- Whether a worker has a check to settle, and would not judge anyone but its target, or by another
policy than the plan's. -/
def Settles (j : Job) (w : Nat) (p : Procedure Report) : Prop :=
  ∃ t result, j.run.workers[w]? = some (.checked t result)
    ∧ p.All (Access.JudgesBy j.plan.resolved.policy t)

/-- What holds of a run between its steps. -/
structure Sound (j : Job) : Prop where
  undisturbed : j.Undisturbed
  ledger : j.run.ledger = none
  settling : ∀ w p, j.settling w = some p → j.Settles w p

theorem sound_begun (p : RunPlan) : (begun p).Sound :=
  ⟨undisturbed_of_replay rfl, rfl, nofun⟩

theorem Sound.setSettling (hj : j.Sound) {w : Nat} {rest : Option (Procedure Report)}
    (hrest : ∀ p, rest = some p → j.Settles w p) : (j.setSettling w rest).Sound := by
  refine ⟨undisturbed_of_replay hj.undisturbed.replay, hj.ledger, fun v p hp => ?_⟩
  simp only [Job.setSettling] at hp
  split at hp
  · rename_i hv
    exact hv ▸ hrest p hp
  · exact hj.settling v p hp

theorem Sound.step (hj : j.Sound) (hmoves : j.Moves m s l done s' j') : j'.Sound := by
  cases hmoves with
  | works hl hstep =>
    -- the worker that goes on has no check to settle, so those that settle theirs are left alone
    have hquiet := Run.quiet_of_step hl hstep
    refine ⟨undisturbed_of_replay (Run.replay_step hj.undisturbed.replay hstep), ?_, ?_⟩
    · exact hquiet.ledger.trans hj.ledger
    · intro w p hp
      obtain ⟨t, result, hw, hall⟩ := hj.settling w p hp
      exact ⟨t, result, hquiet.checked hw, hall⟩
  | @settles w t result hw =>
    have hall := j.run.settings.all_settling j.plan.reactions t result
    have hpolicy : j.run.settings.policy = j.plan.resolved.policy :=
      congrArg RunSettings.policy hj.undisturbed.settings
    rw [hpolicy] at hall
    refine hj.setSettling fun p hp => ?_
    cases hp
    exact ⟨t, result, hw, hall⟩
  | commits hcommits =>
    obtain ⟨t, result, hw, hall⟩ := hj.settling _ _ hcommits
    cases hall with
    | access hx hnext =>
      refine hj.setSettling fun p hp => ?_
      cases hp
      exact ⟨t, result, hw, hnext _⟩
  | @reports w report hreports =>
    obtain ⟨t, result, hw, -⟩ := hj.settling _ _ hreports
    refine ⟨undisturbed_of_replay ?_, hj.ledger, fun v p hp => ?_⟩
    · -- whatever the transactions led to, the replay settles the check on its own store
      exact (Run.replay_step hj.undisturbed.replay (Run.step_settle_eq hw m {}) :)
    · simp only [taken, Job.setSettling] at hp
      split at hp
      · cases hp
      · rename_i hv
        obtain ⟨t', result', hw', hall⟩ := hj.settling v p hp
        exact ⟨t', result', (List.getElem?_set_ne (Ne.symm hv)).trans hw', hall⟩

/-- A run judges no one but its targets, by the policy of its plan. -/
theorem Sound.judges (hj : j.Sound) (hmoves : j.Moves m s l done s' j') {x : Access} (hx : x ∈ done) :
    ∃ t ∈ j.plan.targets, x.JudgesBy j.plan.resolved.policy t := by
  cases hmoves with
  | commits hcommits =>
    obtain ⟨t, result, hw, hall⟩ := hj.settling _ _ hcommits
    rw [List.mem_singleton.mp hx]
    cases hall with
    | access hx _ => exact ⟨t, hj.undisturbed.checked_mem hw, hx⟩
  | _ => cases hx

end Job

/-! ## Any course -/

namespace Traffic

variable {m : Moment} {s₀ : Store} {c c' c'' : Traffic} {log log' g : List Commit} {l : TrafficLabel}

/-- Every step is a client's, the beginning of a run or a step of one. -/
inductive Moves (m : Moment) (c : Traffic) : List Commit → Traffic → Prop
  | edits {e : Edit} : Moves m c [.edit e] ⟨e.apply c.store, c.jobs⟩
  | begins {p : RunPlan} : Moves m c [] ⟨c.store, c.jobs ++ [.begun p]⟩
  | goesOn {id : Nat} {j j' : Job} {l : JobLabel} {done : List Access} {s : Store} :
    c.jobs[id]? = some j → j.Moves m c.store l done s j' →
    Moves m c (done.map fun x => .access id x m.now) ⟨s, c.jobs.set id j'⟩

theorem moves_of_step (h : c.step m l = some (g, c')) : c.Moves m g c' := by
  cases l with
  | edit e =>
    cases h
    exact .edits
  | begin p =>
    cases h
    exact .begins
  | job id l =>
    obtain ⟨j, hj, h⟩ := Option.bind_eq_some_iff.mp h
    obtain ⟨⟨done, s, j'⟩, hstep, h⟩ := Option.bind_eq_some_iff.mp h
    cases h
    exact .goesOn hj (Job.moves_of_step hstep)

theorem Steps.trans (h : c.Steps log c') (h' : c'.Steps log' c'') : c.Steps (log ++ log') c'' := by
  induction h' with
  | refl =>
    rw [List.append_nil]
    exact h
  | step _ hstep ih =>
    rw [← List.append_assoc]
    exact ih.step hstep

/-- The store is what the transactions made of it. -/
theorem Moves.store (h : c.Moves m g c') : c'.store = g.foldl Commit.apply c.store := by
  cases h with
  | edits => rfl
  | begins => rfl
  | goesOn _ hmoves =>
    rw [hmoves.store, List.foldl_map]
    rfl

theorem Steps.store (h : c.Steps log c') : c'.store = log.foldl Commit.apply c.store := by
  induction h with
  | refl => rfl
  | step _ hstep ih => rw [(moves_of_step hstep).store, ih, List.foldl_append]

theorem getElem?_set_of_some {id : Nat} {j : Job} (hj : c.jobs[id]? = some j) (j' : Job) :
    (c.jobs.set id j')[id]? = some j' :=
  List.getElem?_set_self (List.getElem?_eq_some_iff.mp hj).1

/-- A run that is under way stays so, with its plan. -/
theorem Moves.plan (h : c.Moves m g c') {id : Nat} {j : Job} (hj : c.jobs[id]? = some j) :
    ∃ j', c'.jobs[id]? = some j' ∧ j'.plan = j.plan := by
  cases h with
  | edits => exact ⟨j, hj, rfl⟩
  | begins => exact ⟨j, List.getElem?_append_left (List.getElem?_eq_some_iff.mp hj).1 ▸ hj, rfl⟩
  | @goesOn other i i' _ done s hi hmoves =>
    by_cases hother : other = id
    · subst hother
      cases hj.symm.trans hi
      exact ⟨i', getElem?_set_of_some hj i', hmoves.plan⟩
    · exact ⟨j, (List.getElem?_set_ne hother).trans hj, rfl⟩

theorem Steps.plan (h : c.Steps log c') {id : Nat} {j : Job} (hj : c.jobs[id]? = some j) :
    ∃ j', c'.jobs[id]? = some j' ∧ j'.plan = j.plan := by
  induction h with
  | refl => exact ⟨j, hj, rfl⟩
  | step _ hstep ih =>
    obtain ⟨i, hi, hplan⟩ := ih
    obtain ⟨j', hj', hplan'⟩ := (moves_of_step hstep).plan hi
    exact ⟨j', hj', hplan'.trans hplan⟩

/-- What holds of the runs between all steps. -/
structure Sound (log : List Commit) (c : Traffic) : Prop where
  jobs : ∀ (id : Nat) (j : Job), c.jobs[id]? = some j → j.Sound
  /-- Whoever was judged is a target of the run that judged it, by the policy of its plan. -/
  judged : ∀ id x now, .access id x now ∈ log → ∃ j : Job, c.jobs[id]? = some j ∧
    ∃ t ∈ j.plan.targets, x.JudgesBy j.plan.resolved.policy t

theorem sound_idle (s : Store) : (idle s).Sound [] := by
  refine ⟨fun id j hj => ?_, fun _ _ _ hx => absurd hx List.not_mem_nil⟩
  rw [idle, List.getElem?_nil] at hj
  cases hj

theorem Sound.step (hc : c.Sound log) (h : c.Moves m g c') : c'.Sound (log ++ g) := by
  constructor
  · intro id j hj
    cases h with
    | edits => exact hc.jobs id j hj
    | begins =>
      rcases List.mem_append.mp (List.mem_of_getElem? hj) with hmem | hmem
      · obtain ⟨i, hi⟩ := List.mem_iff_getElem?.mp hmem
        exact hc.jobs i j hi
      · exact List.mem_singleton.mp hmem ▸ Job.sound_begun _
    | goesOn hi hmoves =>
      rcases List.mem_or_eq_of_mem_set (List.mem_of_getElem? hj) with hmem | rfl
      · obtain ⟨i, hi⟩ := List.mem_iff_getElem?.mp hmem
        exact hc.jobs i j hi
      · exact (hc.jobs _ _ hi).step hmoves
  · intro id x now hx
    have hkept {j : Job} (hj : c.jobs[id]? = some j)
        (hjudged : ∃ t ∈ j.plan.targets, x.JudgesBy j.plan.resolved.policy t) :
        ∃ j : Job, c'.jobs[id]? = some j ∧ ∃ t ∈ j.plan.targets, x.JudgesBy j.plan.resolved.policy t := by
      obtain ⟨j', hj', hplan⟩ := h.plan hj
      exact ⟨j', hj', hplan ▸ hjudged⟩
    rcases List.mem_append.mp hx with hx | hx
    · obtain ⟨j, hj, hjudged⟩ := hc.judged id x now hx
      exact hkept hj hjudged
    · cases h with
      | edits => cases List.mem_singleton.mp hx
      | begins => cases hx
      | goesOn hi hmoves =>
        obtain ⟨y, hy, heq⟩ := List.mem_map.mp hx
        cases heq
        exact hkept hi ((hc.jobs _ _ hi).judges hmoves hy)

theorem Steps.sound (h : (idle s₀).Steps log c) : c.Sound log := by
  induction h with
  | refl => exact sound_idle s₀
  | step _ hstep ih => exact ih.step (moves_of_step hstep)

/-! ## In one go -/

theorem step_job (id : Nat) {j j' : Job} {done : List Access} {s : Store} {l : JobLabel}
    (hj : c.jobs[id]? = some j) (h : j.step m c.store l = some (done, s, j')) :
    c.step m (.job id l)
      = some (done.map fun x => .access id x m.now, ⟨s, c.jobs.set id j'⟩) := by
  rw [step, hj, Option.bind_eq_bind, Option.bind_some, h]
  rfl

/-- With nobody in between, a worker gets done with its transactions and reports. -/
theorem steps_of_run (m : Moment) {id w : Nat} {j : Job} (hj : c.jobs[id]? = some j)
    {p : Procedure Report} (hw : j.settling w = some p) :
    ∃ log, c.Steps log ⟨(p.run m.now c.store).2, c.jobs.set id ((j.setSettling w none).taken m (.settle w)
      ({ j.run with reports := j.run.reports ++ [(p.run m.now c.store).1] }.setWorker w .free))⟩ := by
  induction p generalizing c j with
  | done report => exact ⟨_, Steps.refl.step (step_job id hj (Job.step_report hw))⟩
  | access x next ih =>
    have hcommit := step_job (m := m) id hj (Job.step_commit hw)
    obtain ⟨log, hsteps⟩ := ih (x.run m.now c.store).1 (c := ⟨(x.run m.now c.store).2, _⟩)
      (getElem?_set_of_some hj _) (j.settling_setSettling w (some (next (x.run m.now c.store).1)))
    -- the transactions that follow are those of the worker as it was, with less left to do
    rw [List.set_set, Job.setSettling_setSettling] at hsteps
    exact ⟨_, (Steps.refl.step hcommit).trans hsteps⟩

/-- **A step of a run** is also taken transaction by transaction. -/
theorem steps_of_step {id : Nat} {j : Job} (hj : c.jobs[id]? = some j) (hsound : j.Sound) {l : RunLabel}
    (hidle : ∀ w, l = .settle w → j.settling w = none) {s' : Store} {r' : Run}
    (hstep : j.run.step m c.store l = some (s', r')) :
    ∃ log, c.Steps log ⟨s', c.jobs.set id (j.taken m l r')⟩ := by
  by_cases hl : ∀ w, l ≠ .settle w
  · rw [(Run.quiet_of_step hl hstep).store]
    exact ⟨_, Steps.refl.step (step_job id hj (Job.step_work hl hstep))⟩
  · obtain ⟨w, hw⟩ := Classical.not_forall.mp hl
    obtain rfl := Decidable.not_not.mp hw
    obtain ⟨t, result, hchecked⟩ : ∃ t result, j.run.workers[w]? = some (.checked t result) := by
      rw [Run.step] at hstep
      split at hstep
      · exact ⟨_, _, ‹_›⟩
      · cases hstep
    have hhandlers : j.run.settings.handlers = j.plan.reactions.map Reaction.handler :=
      congrArg RunSettings.handlers hsound.undisturbed.settings
    have hledger (reports : List Report) :
        ({ j.run with reports, ledger := none } : Run) = { j.run with reports } :=
      congrArg (fun ledger => ({ j.run with reports, ledger } : Run)) hsound.ledger.symm
    rw [Run.step_settle_eq hchecked, hsound.ledger, RunSettings.run_settling _ hhandlers, hledger] at hstep
    cases hstep
    have hbegin := step_job (m := m) id hj (Job.step_settle hchecked (hidle w rfl))
    obtain ⟨log, hsteps⟩ := steps_of_run m (c := ⟨c.store, _⟩) (getElem?_set_of_some hj _)
      (j.settling_setSettling w (some (j.run.settings.settling j.plan.reactions t result)))
    rw [List.set_set, Job.setSettling_setSettling, Job.setSettling_self (hidle w rfl)] at hsteps
    exact ⟨_, (Steps.refl.step hbegin).trans hsteps⟩

/-! ## Clients and runs -/

/-- A run of the small fleet that is about to begin. -/
def smallJob : Job :=
  .begun ⟨smallPlan, 1, .address, [.notification, .dnsTask, .threshold]⟩

/-- While the first address is checked, a client gives it another IP, and then the check fails. -/
theorem exists_steps_smallJob : ∃ c j, (⟨smallStore, [smallJob]⟩ : Traffic).Steps
    [.edit (.putAddress (smallAddress 1 "10.0.0.9")),
      .access 0 (.recordAddress 1 smallSnapshot.tracker false) 7] c ∧ c.jobs[0]? = some j ∧
    j.run.workers = [.checked (smallTarget 1 "10.0.0.1") ⟨false, some unknownReason, 0, 1⟩] := by
  have htaken := Steps.refl (c := ⟨smallStore, [smallJob]⟩).step (m := ⟨0, 7⟩)
    (step_job 0 rfl (Job.step_work (l := .take 0) nofun rfl))
  have hedited := htaken.step (m := ⟨0, 7⟩) (l := .edit (.putAddress (smallAddress 1 "10.0.0.9"))) rfl
  have hsent := hedited.step (m := ⟨0, 7⟩)
    (step_job 0 rfl (Job.step_work (l := .send 0 ⟨0, some ⟨false, none⟩⟩) nofun rfl))
  have hreceived := hsent.step (m := ⟨0, 7⟩)
    (step_job 0 rfl (Job.step_work (l := .receive 0) nofun rfl))
  have hsettling := hreceived.step (m := ⟨0, 7⟩)
    (step_job 0 rfl (Job.step_settle (w := 0) rfl rfl))
  have hcommitted := hsettling.step (m := ⟨0, 7⟩) (step_job 0 rfl
    (Job.step_commit (w := 0) (x := .recordAddress 1 smallSnapshot.tracker false) rfl))
  exact ⟨_, _, hcommitted, rfl, rfl⟩

/-- **Clients and runs do not get in each other's way.** A run that is under way goes on as if nobody
stored anything: by the policy and on the targets that it was begun with, and it judges no one else.
Nodes and addresses remain as they were stored, apart from the health that runs judged since and the
backups that they assigned, which may come in either order. -/
theorem edits_are_kept (h : (idle s₀).Steps log c) (h' : c.Steps log' c') :
    (∀ (id : Nat) (j : Job), c.jobs[id]? = some j →
      ∃ j', c'.jobs[id]? = some j' ∧ j'.plan = j.plan ∧ j'.Undisturbed ∧
        ∀ x now, .access id x now ∈ log ++ log' →
          ∃ t ∈ j.plan.targets, x.JudgesBy j.plan.resolved.policy t) ∧
    s₀.Keeps (log ++ log') c'.store ∧
    ∀ (s : Store) (run run' : Nat) (id id' : UInt64) (t : Tracker) (passed : Bool) (now now' : UInt64)
      (backup : Option (UInt64 × String)),
      Commit.apply (Commit.apply s (.access run (.recordAddress id t passed) now))
          (.access run' (.setBackup id' backup) now')
        = Commit.apply (Commit.apply s (.access run' (.setBackup id' backup) now'))
          (.access run (.recordAddress id t passed) now) := by
  have hall := h.trans h'
  refine ⟨fun id j hj => ?_, ?_, Store.apply_recordAddress_setBackup⟩
  · obtain ⟨j', hj', hplan⟩ := h'.plan hj
    refine ⟨j', hj', hplan, (hall.sound.jobs id j' hj').undisturbed, fun x now hx => ?_⟩
    obtain ⟨j'', hj'', hjudged⟩ := hall.sound.judged id x now hx
    cases hj'.symm.trans hj''
    exact hplan ▸ hjudged
  · rw [hall.store]
    exact s₀.keeps_foldl _

/-- An address that is taken down by a check on its old IP has the new one all the same. -/
theorem edits_are_kept_ipChanged : ∃ c j, (⟨smallStore, [smallJob]⟩ : Traffic).Steps
    [.edit (.putAddress (smallAddress 1 "10.0.0.9")),
      .access 0 (.recordAddress 1 smallSnapshot.tracker false) 7] c ∧ c.jobs[0]? = some j ∧
    j.Undisturbed ∧
    j.run.workers = [.checked (smallTarget 1 "10.0.0.1") ⟨false, some unknownReason, 0, 1⟩] ∧
    c.store.record? .addresses (idKey 1) = some { smallAddress 1 "10.0.0.9" with
      health := { isUp := false, consecutiveUp := 0, consecutiveDown := 1, changedAt := 7 } } := by
  have hbegun : (idle smallStore).Steps [] ⟨smallStore, [smallJob]⟩ :=
    Steps.refl.step (m := ⟨0, 7⟩) (l := .begin smallJob.plan) rfl
  obtain ⟨c, j, hsteps, hj, hworkers⟩ := exists_steps_smallJob
  obtain ⟨hruns, hkeeps, -⟩ := edits_are_kept hbegun hsteps
  obtain ⟨j', hj', -, hundisturbed, -⟩ := hruns 0 smallJob rfl
  cases hj.symm.trans hj'
  refine ⟨c, j, hsteps, hj, hundisturbed, hworkers, ?_⟩
  refine (hkeeps.address [] (smallAddress 1 "10.0.0.9") _ rfl ?_).trans ?_
  · intro b hb
    cases List.mem_singleton.mp hb
  · rfl

end Traffic

end FleetHealth
