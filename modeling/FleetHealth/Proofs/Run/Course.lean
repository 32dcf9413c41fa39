import FleetHealth.Proofs.Run.Settling
/-!
# The course of a run

A course of a run is any sequence of steps that its machine allows, at any moments, with others changing
the store in between. What happens in it to the targets is written down in a history.

* `Run.Moves`, `Run.moves_of_step` — what a step does, worker by worker.
* `Run.Ledger`, `Run.Course.ledger` — every target is in the queue, held by a worker or settled, and the
  reports are those on the settled ones.
-/

namespace FleetHealth

/-- What happens to a target in a step of a run. -/
inductive Deed where
  /-- A worker takes it from the queue. -/
  | taken
  /-- A probe of it is sent: the attempt of that number. -/
  | sent (number : Nat)
  /-- The probe of an attempt is answered, after a time. -/
  | answered (number : Nat) (reply : Reply)
  /-- Its check is settled. -/
  | settled (result : CheckResult)
  deriving DecidableEq, Repr

/-- Something that happens to a target. -/
structure Happening where
  target : Target
  deed : Deed
  deriving DecidableEq, Repr

namespace Run

/-- What happens in a step of a run at a moment. -/
def happening? (m : Moment) (r : Run) : RunLabel → Option Happening
  | .take w =>
    match r.workers[w]?, r.queue with
    | some .free, t :: _ => some ⟨t, .taken⟩
    | _, _ => none
  | .send w _ =>
    match r.workers[w]? with
    | some (.poised t a) => some ⟨t, .sent a.number⟩
    | _ => none
  | .receive w =>
    match r.workers[w]? with
    | some (.probing t a sent reply) =>
      some ⟨t, .answered a.number ⟨m.clock - sent, reply.outcome⟩⟩
    | _ => none
  | .resume _ => none
  | .settle w =>
    match r.workers[w]? with
    | some (.checked t result) => some ⟨t, .settled result⟩
    | _ => none

/-- The courses of a run from a store on, in which others may change the store between the steps of the
run: what has happened, and where it led. -/
inductive Course (others : Store → Store → Prop) (s₀ : Store) (r₀ : Run) :
    List Happening → Store → Run → Prop
  | start : Course others s₀ r₀ [] s₀ r₀
  | step {m : Moment} {l : RunLabel} {h : List Happening} {s s' : Store} {r r' : Run} :
    Course others s₀ r₀ h s r → r.step m s l = some (s', r') →
    Course others s₀ r₀ (h ++ (r.happening? m l).toList) s' r'
  | other {h : List Happening} {s s' : Store} {r : Run} :
    Course others s₀ r₀ h s r → others s s' → Course others s₀ r₀ h s' r

/-! ## One step -/

/-- A step of a run, told by the worker that takes it and those before and after it. -/
inductive Moves (m : Moment) (s : Store) (r : Run) : List Happening → Store → Run → Prop
  | takes {before after : List Worker} {t : Target} {rest : List Target} :
    r.workers = before ++ .free :: after → r.queue = t :: rest →
    Moves m s r [⟨t, .taken⟩] s { r with queue := rest, workers := before ++ .poised t {} :: after }
  | ends {before after : List Worker} :
    r.workers = before ++ .free :: after → r.queue = [] →
    Moves m s r [] s { r with workers := before ++ .ended :: after }
  | sends {before after : List Worker} {t : Target} {a : Attempt} {reply : Reply} :
    r.workers = before ++ .poised t a :: after →
    Moves m s r [⟨t, .sent a.number⟩] s
      { r with workers := before ++ .probing t a m.clock reply :: after }
  | receives {before after : List Worker} {t : Target} {a : Attempt} {sent : Nat} {reply : Reply} :
    r.workers = before ++ .probing t a sent reply :: after → sent + reply.latency ≤ m.clock →
    Moves m s r [⟨t, .answered a.number ⟨m.clock - sent, reply.outcome⟩⟩] s
      { r with workers := before ++ .answered r.settings.policy t a sent m.clock reply :: after }
  | resumes {before after : List Worker} {t : Target} {a : Attempt} {wake : Nat} :
    r.workers = before ++ .pausing t a wake :: after → wake ≤ m.clock →
    Moves m s r [] s { r with workers := before ++ .poised t a :: after }
  | settles {before after : List Worker} {t : Target} {result : CheckResult} {report : Report}
    {s' : Store} {ledger : Option Store} :
    r.workers = before ++ .checked t result :: after →
    r.settings.settle t result m.now s r.ledger = (report, s', ledger) →
    Moves m s r [⟨t, .settled result⟩] s'
      { r with workers := before ++ .free :: after, reports := r.reports ++ [report], ledger }

theorem exists_eq_append_cons {α : Type} {l : List α} {i : Nat} {x : α} (h : l[i]? = some x) :
    ∃ before after, l = before ++ x :: after ∧ ∀ y, l.set i y = before ++ y :: after := by
  obtain ⟨hi, rfl⟩ := List.getElem?_eq_some_iff.mp h
  refine ⟨l.take i, l.drop (i + 1), ?_, fun y => List.set_eq_take_append_cons_drop.trans (if_pos hi)⟩
  rw [← List.drop_eq_getElem_cons hi, List.take_append_drop]

/-- Every step of a run is one of these. -/
theorem moves_of_step {m : Moment} {s s' : Store} {r r' : Run} {l : RunLabel}
    (h : r.step m s l = some (s', r')) : r.Moves m s (r.happening? m l).toList s' r' := by
  cases l with
  | take w =>
    rw [step] at h
    split at h
    · rename_i hw hqueue
      obtain ⟨before, after, hworkers, hset⟩ := exists_eq_append_cons hw
      cases h
      rw [happening?, hw, hqueue, setWorker, hset]
      exact .ends hworkers hqueue
    · rename_i hw hqueue
      obtain ⟨before, after, hworkers, hset⟩ := exists_eq_append_cons hw
      cases h
      rw [happening?, hw, hqueue, setWorker, hset]
      exact .takes hworkers hqueue
    · cases h
  | send w reply =>
    rw [step] at h
    split at h
    · rename_i hw
      obtain ⟨before, after, hworkers, hset⟩ := exists_eq_append_cons hw
      cases h
      rw [happening?, hw, setWorker, hset]
      exact .sends hworkers
    · cases h
  | receive w =>
    rw [step] at h
    split at h
    · rename_i hw
      obtain ⟨before, after, hworkers, hset⟩ := exists_eq_append_cons hw
      split at h
      · rename_i hclock
        cases h
        rw [happening?, hw, setWorker, hset]
        exact .receives hworkers hclock
      · cases h
    · cases h
  | resume w =>
    rw [step] at h
    split at h
    · rename_i hw
      obtain ⟨before, after, hworkers, hset⟩ := exists_eq_append_cons hw
      split at h
      · rename_i hclock
        cases h
        rw [happening?, setWorker, hset]
        exact .resumes hworkers hclock
      · cases h
    · cases h
  | settle w =>
    rw [step] at h
    split at h
    · rename_i t result hw
      obtain ⟨before, after, hworkers, hset⟩ := exists_eq_append_cons hw
      cases h
      rw [happening?, hw, setWorker, hset]
      exact .settles hworkers rfl
    · cases h

/-! ## Who has which target -/

/-- The targets that were taken from the queue. -/
def takenOf (h : List Happening) : List Target :=
  h.filterMap fun x => match x.deed with
    | .taken => some x.target
    | _ => none

/-- The checks that were settled, with their results. -/
def settledOf (h : List Happening) : List (Target × CheckResult) :=
  h.filterMap fun x => match x.deed with
    | .settled result => some (x.target, result)
    | _ => none

/-- The targets that workers hold, lost ones included. -/
def held (r : Run) : List Target :=
  r.workers.filterMap Worker.target?

@[simp] theorem takenOf_append (h g : List Happening) : takenOf (h ++ g) = takenOf h ++ takenOf g :=
  List.filterMap_append

@[simp] theorem settledOf_append (h g : List Happening) :
    settledOf (h ++ g) = settledOf h ++ settledOf g :=
  List.filterMap_append

/-- How the targets of a run are accounted for after a history. -/
structure Ledger (r₀ : Run) (h : List Happening) (r : Run) : Prop where
  settings : r.settings = r₀.settings
  unaddressed : r.unaddressed = r₀.unaddressed
  dispatched : r.dispatched = r₀.dispatched
  queue : takenOf h ++ r.queue = r₀.queue
  held : ((settledOf h).map (·.1) ++ r.held).Perm (takenOf h)
  reports : r.reports.map Report.bare = (settledOf h).map fun x => .checked x.1 x.2
  workers : r.workers.length = r₀.workers.length
  ended : .ended ∈ r.workers → r.queue = []

/-- Whether a run has not taken a step yet. -/
structure Fresh (r : Run) : Prop where
  workers : ∃ n, r.workers = List.replicate n .free
  queue : r.queue = r.dispatched
  reports : r.reports = []

theorem Fresh.eq_free {r : Run} (hr : r.Fresh) {w : Worker} (hw : w ∈ r.workers) : w = .free := by
  obtain ⟨n, hn⟩ := hr.workers
  rw [hn] at hw
  exact List.eq_of_mem_replicate hw

theorem Fresh.held_eq_nil {r : Run} (hr : r.Fresh) : r.held = [] := by
  rw [held, List.filterMap_eq_nil_iff]
  intro w hw
  rw [hr.eq_free hw]
  rfl

theorem Fresh.ledger {r : Run} (hr : r.Fresh) : Ledger r [] r := by
  refine ⟨rfl, rfl, rfl, rfl, ?_, by rw [hr.reports]; rfl, rfl, ?_⟩
  · rw [hr.held_eq_nil]
    exact .refl _
  · intro hended
    cases hr.eq_free hended

theorem bare_of_settle {c : RunSettings} {t : Target} {result : CheckResult} {now : UInt64}
    {s s' : Store} {ledger ledger' : Option Store} {report : Report}
    (h : c.settle t result now s ledger = (report, s', ledger')) : report.bare = .checked t result := by
  have hconclude (event : Option Event) (s : Store) :
      (c.conclude t result event now s).1.bare = .checked t result := by
    cases event <;> rfl
  cases ledger with
  | none =>
    unfold RunSettings.settle at h
    cases h
    exact hconclude _ _
  | some l =>
    unfold RunSettings.settle at h
    cases h
    exact hconclude _ _

/-- An answer leaves the target with the worker. -/
theorem target?_answered (p : PolicySnapshot) (t : Target) (a : Attempt) (sent clock : Nat)
    (reply : Reply) : (Worker.answered p t a sent clock reply).target? = some t := by
  unfold Worker.answered
  split
  · rfl
  · split
    · rfl
    · split <;> rfl

theorem held_eq {r : Run} {before after : List Worker} {w : Worker}
    (h : r.workers = before ++ w :: after) :
    r.held = before.filterMap Worker.target? ++ (w.target?.toList ++ after.filterMap Worker.target?) := by
  rw [held, h, List.filterMap_append, List.filterMap_cons]
  cases w.target? <;> rfl

/-- A worker that goes on with its target changes nothing about who has which. -/
theorem Ledger.replace {r₀ r : Run} {h g : List Happening} {before after : List Worker} {old new : Worker}
    (hr : Ledger r₀ h r) (hworkers : r.workers = before ++ old :: after)
    (htarget : new.target? = old.target?) (hnew : new = .ended → r.queue = [])
    (htaken : takenOf g = []) (hsettled : settledOf g = []) :
    Ledger r₀ (h ++ g) { r with workers := before ++ new :: after } := by
  have hheld : Run.held { r with workers := before ++ new :: after } = r.held := by
    rw [held_eq hworkers, held_eq rfl, htarget]
  refine ⟨hr.settings, hr.unaddressed, hr.dispatched, ?_, ?_, ?_, ?_, ?_⟩
  · rw [takenOf_append, htaken, List.append_nil]
    exact hr.queue
  · rw [takenOf_append, settledOf_append, htaken, hsettled, List.append_nil, List.append_nil, hheld]
    exact hr.held
  · rw [settledOf_append, hsettled, List.append_nil]
    exact hr.reports
  · rw [← hr.workers, hworkers]
    simp
  · intro hended
    rcases List.mem_append.mp hended with hmem | hmem
    · exact hr.ended (hworkers ▸ List.mem_append_left _ hmem)
    · rcases List.mem_cons.mp hmem with hmem | hmem
      · exact hnew hmem.symm
      · exact hr.ended (hworkers ▸ List.mem_append_right _ (List.mem_cons_of_mem _ hmem))

theorem Ledger.step {r₀ r r' : Run} {h g : List Happening} {m : Moment} {s s' : Store}
    (hr : Ledger r₀ h r) (hmoves : r.Moves m s g s' r') : Ledger r₀ (h ++ g) r' := by
  cases hmoves with
  | @takes before after t rest hworkers hqueue =>
    have htaken : takenOf [⟨t, .taken⟩] = [t] := rfl
    have hsettled : settledOf [⟨t, .taken⟩] = [] := rfl
    have hnone : Worker.target? .free = none := rfl
    have hsome : Worker.target? (.poised t {}) = some t := rfl
    have hheld := hr.held
    refine ⟨hr.settings, hr.unaddressed, hr.dispatched, ?_, ?_, ?_, ?_, ?_⟩
    · rw [← hr.queue, hqueue, takenOf_append, htaken, List.append_assoc]
      rfl
    · -- the target leaves the queue for the hands of the worker
      rw [held_eq hworkers, hnone] at hheld
      rw [held_eq rfl, hsome, settledOf_append, takenOf_append, htaken, hsettled, List.append_nil]
      apply List.perm_iff_count.mpr
      intro x
      have hcount := List.perm_iff_count.mp hheld x
      simp only [List.count_append, Option.toList_none, Option.toList_some, List.count_nil] at hcount ⊢
      omega
    · rw [settledOf_append, hsettled, List.append_nil]
      exact hr.reports
    · rw [← hr.workers, hworkers]
      simp
    · intro hended
      -- a worker only ends when the queue is empty, which it was not
      have hempty : r.queue = [] := by
        apply hr.ended
        rw [hworkers]
        simpa using hended
      rw [hqueue] at hempty
      cases hempty
  | @ends before after hworkers hqueue =>
    exact hr.replace hworkers rfl (fun _ => hqueue) rfl rfl
  | sends hworkers =>
    exact hr.replace hworkers rfl nofun rfl rfl
  | @receives before after t a sent reply hworkers hclock =>
    have htarget := target?_answered r.settings.policy t a sent m.clock reply
    refine hr.replace hworkers htarget ?_ rfl rfl
    intro hended
    rw [hended] at htarget
    cases htarget
  | resumes hworkers hclock =>
    exact hr.replace hworkers rfl nofun rfl rfl
  | @settles before after t result report s' ledger hworkers hsettle =>
    have htaken : takenOf [⟨t, .settled result⟩] = [] := rfl
    have hsettled : settledOf [⟨t, .settled result⟩] = [(t, result)] := rfl
    have hnone : Worker.target? .free = none := rfl
    have hsome : Worker.target? (.checked t result) = some t := rfl
    have hheld := hr.held
    refine ⟨hr.settings, hr.unaddressed, hr.dispatched, ?_, ?_, ?_, ?_, ?_⟩
    · rw [takenOf_append, htaken, List.append_nil]
      exact hr.queue
    · -- the target leaves the hands of the worker for the settled ones
      rw [held_eq hworkers, hsome] at hheld
      rw [held_eq rfl, hnone, settledOf_append, takenOf_append, htaken, hsettled, List.append_nil]
      apply List.perm_iff_count.mpr
      intro x
      have hcount := List.perm_iff_count.mp hheld x
      simp only [List.map_append, List.map_cons, List.map_nil, List.count_append, Option.toList_none,
        Option.toList_some, List.count_nil] at hcount ⊢
      omega
    · rw [List.map_append, settledOf_append, List.map_append, hr.reports, hsettled]
      simp only [List.map_cons, List.map_nil, bare_of_settle hsettle]
    · rw [← hr.workers, hworkers]
      simp
    · intro hended
      apply hr.ended
      rw [hworkers]
      simpa using hended

theorem Course.ledger {others : Store → Store → Prop} {s₀ s : Store} {r₀ r : Run} {h : List Happening}
    (hcourse : Course others s₀ r₀ h s r) (hr₀ : r₀.Fresh) : Ledger r₀ h r := by
  induction hcourse with
  | start => exact hr₀.ledger
  | step _ hstep ih => exact ih.step (moves_of_step hstep)
  | other _ _ ih => exact ih

theorem fresh_start (r : Resolved) (poolSize : Nat) (mode : TrackingMode) (handlers : List Handler)
    (ledger : Option Store) : (start r poolSize mode handlers ledger).Fresh :=
  ⟨⟨_, rfl⟩, rfl, rfl⟩

/-! ## A small run -/

/-- What happens when the only worker of a run is brought down by its first target. -/
def lossHistory : List Happening :=
  [⟨smallTarget 1 "10.0.0.1", .taken⟩, ⟨smallTarget 1 "10.0.0.1", .sent 1⟩,
    ⟨smallTarget 1 "10.0.0.1", .answered 1 ⟨0, none⟩⟩]

/-- The run in which that happened: no worker is left for the second target. -/
def lossRun : Run :=
  { start smallPlan 1 .address standardPipeline none with
    queue := [smallTarget 2 "10.0.0.2"]
    workers := [.lost (smallTarget 1 "10.0.0.1")] }

theorem course_lossRun :
    Course (fun _ _ => False) smallStore (start smallPlan 1 .address standardPipeline none) lossHistory
      smallStore lossRun := by
  have htaken := Course.step (m := ⟨0, 0⟩) (l := .take 0)
    (.start : Course (fun _ _ => False) smallStore (start smallPlan 1 .address standardPipeline none)
      [] smallStore _) rfl
  have hsent := htaken.step (m := ⟨0, 0⟩) (l := .send 0 ⟨0, none⟩) rfl
  exact hsent.step (m := ⟨0, 0⟩) (l := .receive 0) rfl

end Run

end FleetHealth
