import FleetHealth.Proofs.Monitor.Keeping
import FleetHealth.Proofs.Run.Forecast
import FleetHealth.Proofs.Run.Progress
import Mathlib.Data.Multiset.Defs
/-!
# Executions

An execution of a service makes the runs that the service was assigned, in any order of the steps that
their workers can take, with a prober that answers every attempt on an address in its own time. Time never
passes over an answer that is due. Whatever the order, each run gets no further than to a part of what was
foreseen at the start, and the health of each subject is either what it was or what was foreseen for it.

* `Service.Goes`, `Service.Execution` — executions.
* `Service.Foreseen`, `Service.Foreseen.goes` — the invariant, and that it is kept.
-/

namespace FleetHealth

/-- A run of a cluster that is to be made. -/
structure Assignment where
  clusterId : UInt64
  poolSize : Nat
  mode : TrackingMode
  deriving DecidableEq, Repr

/-- The task of an assignment: one run with everything kept in the store of the service. -/
def Assignment.task (a : Assignment) : Task :=
  ⟨a.clusterId, { poolSize := a.poolSize, mode := a.mode }, none, false, .due⟩

/-- When the answer that a worker waits for is due. -/
def Worker.answerDue? : Worker → Option Nat
  | .probing _ _ sent reply => some (sent + reply.latency)
  | _ => none

namespace Service

/-- A service with a store that is to make some runs. -/
def assigned (s : Store) (as : List Assignment) : Service :=
  { store := s, tasks := as.map Assignment.task }

/-- When the answers that workers wait for are due. -/
def answersDue (v : Service) : List Nat :=
  v.tasks.flatMap fun t => t.run?.toList.flatMap fun r => r.workers.filterMap Worker.answerDue?

/-- Whether a step goes on with the runs of a service, and keeps to the answers of a prober. -/
def Answers (v : Service) (f : String → Nat → Reply) : ServiceLabel → Prop
  | .begin _ => True
  | .work id label => ∀ r, v.run? id = some r → r.Answers f label
  | .conclude _ => True
  | _ => False

/-- Whether a service gets to another one by waiting, but not longer than until the next answer is due,
and taking one step. -/
inductive Goes (f : String → Nat → Reply) (v v' : Service) : Prop
  | intro {u : Service} {ms : Nat} {now : UInt64} {label : ServiceLabel} :
    (∀ due ∈ v.answersDue, v.clock + ms ≤ due) → v.step now (.pass ms) = some u →
    v.Answers f label → u.step now label = some v' → Goes f v v'

/-- The executions of a service with a prober: where they lead. -/
inductive Execution (f : String → Nat → Reply) (v₀ : Service) : Service → Prop
  | start : Execution f v₀ v₀
  | step {v v' : Service} : Execution f v₀ v → v.Goes f v' → Execution f v₀ v'

end Service

/-! ## Answers in time -/

/-- Whether a worker that waits for an answer waits for that of a prober, and no longer than until it is
due. -/
def Worker.OnTime (f : String → Nat → Reply) (clock : Nat) : Worker → Prop
  | .probing t a sent reply =>
    reply = f t.address.ip a.number ∧ sent ≤ clock ∧ clock ≤ sent + reply.latency
  | _ => True

namespace Run

variable {f : String → Nat → Reply} {r r' : Run} {m : Moment} {s s' : Store} {l : RunLabel}

/-- Whether no worker of a run has overslept an answer. -/
def OnTime (f : String → Nat → Reply) (clock : Nat) (r : Run) : Prop :=
  ∀ w ∈ r.workers, w.OnTime f clock

theorem onTime_answered (p : PolicySnapshot) (t : Target) (a : Attempt) (sent clock : Nat)
    (reply : Reply) : (Worker.answered p t a sent clock reply).OnTime f clock := by
  unfold Worker.answered
  split
  · trivial
  · split
    · trivial
    · split <;> trivial

theorem OnTime.set {clock : Nat} (hr : r.OnTime f clock) (i : Nat) (w : Worker)
    (hw : w.OnTime f clock) : (r.setWorker i w).OnTime f clock := by
  intro w' hw'
  rcases List.mem_or_eq_of_mem_set hw' with hw' | rfl
  · exact hr w' hw'
  · exact hw

/-- A step on time gets no other answers than those of the prober, and keeps everybody on time. -/
theorem OnTime.step (hr : r.OnTime f m.clock) (hl : r.Answers f l)
    (h : r.step m s l = some (s', r')) :
    r'.OnTime f m.clock ∧ Agrees (fun t => f t.address.ip) (r.happening? m l).toList := by
  have hnone {g : Option Happening} (hg : ∀ t number reply, g ≠ some ⟨t, .answered number reply⟩) :
      Agrees (fun t => f t.address.ip) g.toList := by
    intro t number reply hmem
    exact absurd (Option.mem_toList.mp hmem) (hg t number reply)
  cases l with
  | take w =>
    rw [Run.step] at h
    split at h
    · rename_i hw hqueue
      cases h
      exact ⟨hr.set w .ended trivial, hnone (by rw [happening?, hw, hqueue]; rintro _ _ _ ⟨⟩)⟩
    · rename_i hw hqueue
      cases h
      exact ⟨OnTime.set (r := { r with queue := _ }) hr w (.poised _ {}) trivial,
        hnone (by rw [happening?, hw, hqueue]; rintro _ _ _ ⟨⟩)⟩
    · cases h
  | send w reply =>
    rw [Run.step] at h
    split at h
    · rename_i t a hw
      cases h
      obtain rfl : reply = f t.address.ip a.number := hl t a hw
      exact ⟨hr.set w (.probing t a m.clock _) ⟨rfl, Nat.le_refl _, Nat.le_add_right _ _⟩,
        hnone (by rw [happening?, hw]; rintro _ _ _ ⟨⟩)⟩
    · cases h
  | receive w =>
    rw [Run.step] at h
    split at h
    · rename_i t a sent reply hw
      split at h
      · rename_i hdue
        cases h
        refine ⟨hr.set w _ (onTime_answered _ _ _ _ _ _), ?_⟩
        intro t' number' reply' hmem
        obtain ⟨hreply, -, hclock⟩ : (Worker.probing t a sent reply).OnTime f m.clock :=
          hr _ (List.mem_of_getElem? hw)
        -- the answer is received when it is due, so it takes the time that the prober says
        have hlatency : m.clock - sent = reply.latency := by omega
        simp only [happening?, hw, hlatency] at hmem
        cases Option.mem_toList.mp hmem
        exact hreply.symm
      · cases h
    · cases h
  | resume w =>
    rw [Run.step] at h
    split at h
    · split at h
      · cases h
        exact ⟨hr.set w (.poised _ _) trivial, hnone (by rw [happening?]; rintro _ _ _ ⟨⟩)⟩
      · cases h
    · cases h
  | settle w =>
    rw [Run.step] at h
    split at h
    · rename_i t result hw
      cases h
      refine ⟨OnTime.set (r := { r with reports := _, ledger := _ }) hr w .free trivial, hnone ?_⟩
      rw [happening?, hw]
      rintro _ _ _ ⟨⟩
    · cases h

theorem OnTime.wait {clock ms : Nat} (hr : r.OnTime f clock)
    (hdue : ∀ due ∈ r.workers.filterMap Worker.answerDue?, clock + ms ≤ due) :
    r.OnTime f (clock + ms) := by
  intro w hw
  have hw' := hr w hw
  cases w with
  | probing t a sent reply =>
    obtain ⟨hreply, hsent, -⟩ := hw'
    refine ⟨hreply, Nat.le_trans hsent (Nat.le_add_right _ _), ?_⟩
    exact hdue _ (List.mem_filterMap.mpr ⟨_, hw, rfl⟩)
  | _ => trivial

end Run

/-! ## Where a run stands -/

/-- Where the run of an assignment stands when some of its checks are done: not further than to a part of
what was foreseen from a store. -/
inductive Assignment.Stands (a : Assignment) (f : String → Nat → Reply) (s₀ : Store) (clock : Nat)
    (s : Store) : List Judgement → TaskState → Prop
  | due : Stands a f s₀ clock s [] .due
  | running {s₁ : Store} {resolved : Resolved} {h : List Happening} {r : Run} :
    s₁.WellFormed → s₁.fleet = s₀.fleet → s₁.resolve a.clusterId = .ok resolved →
    Run.Course (fun _ _ => True) s₁ (.start resolved a.poolSize a.mode standardPipeline none) h s r →
    Run.Agrees (fun t => f t.address.ip) h → r.OnTime f clock →
    r.reports = (r.judged h).map (·.report s₀) → Stands a f s₀ clock s (r.judged h) (.running r)
  | finished {done : List Judgement} {outcome : Except RunError (List Report)} :
    done.Perm (s₀.judgements f a.mode a.clusterId) →
    outcome.map Multiset.ofList = (s₀.forecast f a.mode a.clusterId).map Multiset.ofList →
    Stands a f s₀ clock s done (.finished outcome)

namespace Assignment.Stands

variable {a : Assignment} {f : String → Nat → Reply} {s₀ s s' : Store} {clock : Nat}
  {done : List Judgement} {state : TaskState} {r r' : Run} {now : UInt64} {l : RunLabel}

theorem onTime (h : a.Stands f s₀ clock s done (.running r)) : r.OnTime f clock := by
  cases h with
  | running _ _ _ _ _ htime _ => exact htime

/-- What others do to the store does not touch where a run stands. -/
theorem other (h : a.Stands f s₀ clock s done state) (s' : Store) : a.Stands f s₀ clock s' done state := by
  cases h with
  | due => exact .due
  | running hs₁ hfleet hresolve hcourse hagrees htime hreports =>
    exact .running hs₁ hfleet hresolve (hcourse.other trivial) hagrees htime hreports
  | finished hdone houtcome => exact .finished hdone houtcome

theorem wait (h : a.Stands f s₀ clock s done state) {ms : Nat}
    (hdue : ∀ r, state = .running r → ∀ due ∈ r.workers.filterMap Worker.answerDue?, clock + ms ≤ due) :
    a.Stands f s₀ (clock + ms) s done state := by
  cases h with
  | due => exact .due
  | running hs₁ hfleet hresolve hcourse hagrees htime hreports =>
    exact .running hs₁ hfleet hresolve hcourse hagrees (htime.wait (hdue _ rfl)) hreports
  | finished hdone houtcome => exact .finished hdone houtcome

/-- A run begins, unless the cluster cannot be resolved. -/
theorem begun (a : Assignment) (f : String → Nat → Reply) (clock : Nat) (hs₀ : s₀.WellFormed)
    (hs : s.WellFormed) (hfleet : s.fleet = s₀.fleet) :
    (∀ resolved, s.resolve a.clusterId = .ok resolved → a.Stands f s₀ clock s []
      (.running (.start resolved a.poolSize a.mode standardPipeline none)))
    ∧ ∀ e, s.resolve a.clusterId = .error e → a.Stands f s₀ clock s [] (.finished (.error e)) := by
  constructor
  · intro resolved hresolve
    refine .running (h := []) hs hfleet hresolve .start ?_ ?_ rfl
    · intro t number reply hmem
      cases hmem
    · intro w hw
      rw [(Run.fresh_start _ _ _ _ _).eq_free hw]
      trivial
  · intro e hresolve
    have hresolve₀ := Store.resolve_error_congr hs hs₀ hfleet hresolve
    refine .finished ?_ ?_
    · rw [Store.judgements, hresolve₀]
    · rw [Store.forecast, hresolve₀]
      rfl

/-- A run that is over comes out as foreseen. -/
theorem conclude (hs₀ : s₀.WellFormed) (hf : ∀ ip k, (f ip k).outcome.isSome)
    (h : a.Stands f s₀ clock s done (.running r)) (hover : r.isOver) :
    a.Stands f s₀ clock s done (.finished (.ok r.results)) := by
  cases h with
  | @running s₁ resolved h r hs₁ hfleet hresolve hcourse hagrees _ hreports =>
    have hjudgements : s₁.judgements f a.mode a.clusterId = s₀.judgements f a.mode a.clusterId :=
      Store.judgements_congr hs₁ hs₀ hfleet
    -- the run started from a store of the same fleet, where the same was foreseen
    refine .finished ?_ ?_
    · rw [← hjudgements]
      exact Run.Course.perm_judgements hresolve hcourse hagrees hs₁.keyed hf hover
    · obtain ⟨resolved₀, hresolve₀, -, htargets⟩ := Store.resolve_ok_congr hs₀ hfleet hresolve
      have hresults := Run.Course.perm_results hresolve hcourse hagrees hs₁.keyed hf hover hreports
      rw [hjudgements, ← Store.map_withoutAddress_congr htargets] at hresults
      rw [Store.forecast, hresolve₀]
      exact congrArg Except.ok (Multiset.coe_eq_coe.mpr hresults)

/-- **A step of a run settles at most one check**, the next of those that were foreseen. -/
theorem work (hs₀ : s₀.WellFormed) (hs : s.WellFormed) (h : a.Stands f s₀ clock s done (.running r))
    (hl : r.Answers f l) (hstep : r.step ⟨clock, now⟩ s l = some (s', r')) :
    (s' = s ∧ a.Stands f s₀ clock s done (.running r'))
    ∨ ∃ (c : RunSettings) (t : Target) (result : CheckResult) (report : Report),
      c.Settled t result now s report s'
      ∧ (∃ rest, (done ++ [(⟨c, t.identity, result⟩ : Judgement)] ++ rest).Perm
          (s₀.judgements f a.mode a.clusterId))
      ∧ ((∀ j, c.subject? t = some j →
            (s.health? j).map Health.undated = (s₀.health? j).map Health.undated) →
          a.Stands f s₀ clock s' (done ++ [⟨c, t.identity, result⟩]) (.running r')) := by
  cases h with
  | @running s₁ resolved h r hs₁ hfleet hresolve hcourse hagrees htime hreports =>
    obtain ⟨htime', hanswers⟩ := htime.step (m := ⟨clock, now⟩) hl hstep
    have hcourse' := hcourse.step hstep
    have hsettings : r'.settings = r.settings := by
      rw [(hcourse'.ledger (Run.fresh_start _ _ _ _ _)).settings,
        (hcourse.ledger (Run.fresh_start _ _ _ _ _)).settings]
    have hback := hcourse.storeBacked (Run.storeBacked_start _ _ _)
    have heffect := ((Run.moves_of_step hstep).effect hback).2
    generalize (r.happening? ⟨clock, now⟩ l).toList = g at hcourse' hanswers heffect
    generalize hreports' : r'.reports = reports at heffect
    have hagrees' : Run.Agrees (fun t => f t.address.ip) (h ++ g) := fun t number reply hmem =>
      (List.mem_append.mp hmem).elim (hagrees t number reply) (hanswers t number reply)
    have hjudged : r'.judged (h ++ g) = r.judged h ++ r.judged g := by
      rw [Run.judged, Run.settledOf_append, List.map_append, hsettings]
      rfl
    cases heffect with
    | quiet hsettled =>
      -- nothing was settled: the run stands where it stood
      have hsame : r'.judged (h ++ g) = r.judged h := by
        have hnone : r.judged g = [] := by rw [Run.judged, hsettled]; rfl
        rw [hjudged, hnone, List.append_nil]
      refine .inl ⟨rfl, ?_⟩
      rw [← hsame]
      exact .running hs₁ hfleet hresolve hcourse' hagrees' htime' (by rw [hreports', hreports, hsame])
    | @settles t result report s' _ hsettled =>
      have hjudged' : r'.judged (h ++ [⟨t, .settled result⟩])
          = r.judged h ++ [⟨r.settings, t.identity, result⟩] := hjudged
      refine .inr ⟨_, t, result, report, hsettled, ?_, ?_⟩
      · rw [← hjudged', ← Store.judgements_congr hs₁ hs₀ hfleet]
        exact Run.Course.exists_perm_judgements hresolve hcourse' hagrees'
      · intro hsame
        have hreport := hsettled.report_eq hs hsame
        rw [← hjudged']
        refine .running hs₁ hfleet hresolve hcourse' hagrees' htime' ?_
        rw [hreports', hreports, hjudged', List.map_append, hreport]
        rfl

end Assignment.Stands

end FleetHealth
