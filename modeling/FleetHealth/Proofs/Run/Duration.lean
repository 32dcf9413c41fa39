import FleetHealth.Proofs.Run.Prompt
import Mathlib.Algebra.BigOperators.Group.Finset.Piecewise
import Mathlib.Algebra.Order.BigOperators.Group.Finset
/-!
# How long a run takes

A run takes its targets from the queue like a list of jobs for equal machines: whoever is free takes the
next one. When probes are answered within a time, and the clock only moves while nobody has anything to do,
none takes longer than its attempts and the pauses between them. So round after round as many targets are
through as there are workers, however unevenly the work is spread over them.

* `Worker.doneBy` — by when a worker will be through with its target. Only a new target puts it off.
* `exists_turnsOf_le` — some worker has not taken more targets than there are for each.
* `Run.OnSchedule`, `Run.Prompt.onSchedule` — where every worker stands, by the targets it has taken.
* `Run.ends_in_time` — when each target is taken, and when the run is over.
-/

namespace FleetHealth

/-! ## One worker -/

/-- How fast a worker is: the most attempts at a target, the longest time for one, and the pause between
one and the next. -/
structure Pace where
  attempts : Nat
  limit : Nat
  delay : Nat

namespace Pace

variable {c : Pace}

/-- The longest time for a target. -/
def turn (c : Pace) : Nat :=
  c.attempts * c.limit + (c.attempts - 1) * c.delay

/-- The longest time for the attempts after one of them. -/
def rest (c : Pace) (number : Nat) : Nat :=
  (c.attempts - number) * (c.delay + c.limit)

theorem rest_of_lt {number : Nat} (h : number < c.attempts) :
    c.rest number = c.delay + c.limit + c.rest (number + 1) := by
  have hnumber : c.attempts - number = c.attempts - (number + 1) + 1 := by omega
  rw [rest, rest, hnumber, Nat.succ_mul]
  omega

theorem limit_add_rest_one (h : 1 ≤ c.attempts) : c.limit + c.rest 1 = c.turn := by
  obtain ⟨n, hn⟩ := Nat.exists_eq_add_of_le' h
  rw [rest, turn, hn, Nat.add_sub_cancel, Nat.mul_add, Nat.succ_mul]
  omega

end Pace

namespace Worker

variable {c : Pace} {clock : Nat} {state : Worker}

/-- By when the worker will be through with its target, if it has one. -/
def doneBy (c : Pace) (clock : Nat) : Worker → Nat
  | .poised _ a => clock + c.limit + c.rest a.number
  | .probing _ a sent reply => sent + reply.latency + c.rest a.number
  | .pausing _ a wake => wake + c.limit + c.rest a.number
  | _ => clock

theorem Keeps.le_doneBy (h : state.Keeps clock) : clock ≤ state.doneBy c clock := by
  cases state with
  | poised t a => exact Nat.le_trans (Nat.le_add_right ..) (Nat.le_add_right ..)
  | probing t a sent reply => exact Nat.le_trans h.2.1 (Nat.le_add_right ..)
  | pausing t a wake => exact Nat.le_trans h.2 (Nat.le_trans (Nat.le_add_right ..) (Nat.le_add_right ..))
  | _ => exact Nat.le_refl clock

/-- A worker that waits will be through no later for that. -/
theorem doneBy_of_due? {due : Nat} (h : state.due? = some due) (time : Nat) :
    state.doneBy c time = state.doneBy c clock := by
  cases state with
  | probing t a sent reply => rfl
  | pausing t a wake => rfl
  | _ => cases h

/-- Nor does an answer in time put anything off. -/
theorem doneBy_answered_le {p : PolicySnapshot} {t : Target} {a : Attempt} {sent : Nat} {reply : Reply}
    (hmax : p.maxAttempts.toNat ≤ c.attempts) (hdelay : p.tryDelay.toNat = c.delay)
    (hclock : clock ≤ sent + reply.latency) :
    (answered p t a sent clock reply).doneBy c clock ≤ sent + reply.latency + c.rest a.number := by
  unfold answered
  split
  · exact Nat.le_trans hclock (Nat.le_add_right ..)
  · split
    · exact Nat.le_trans hclock (Nat.le_add_right ..)
    · rename_i next hafter
      obtain ⟨hnext, hlt⟩ := Attempt.after_eq_again hafter
      have hrest := Pace.rest_of_lt (Nat.lt_of_lt_of_le hlt hmax)
      rw [← hnext] at hrest
      split
      · show clock + c.limit + c.rest next.number ≤ sent + reply.latency + c.rest a.number
        omega
      · show clock + p.tryDelay.toNat + c.limit + c.rest next.number
          ≤ sent + reply.latency + c.rest a.number
        omega

end Worker

/-! ## Who has taken how many targets -/

/-- The entries of a log about targets that are taken. -/
def takesOf (log : List LogEntry) : List LogEntry :=
  log.filter (·.what.deed = .taken)

/-- How many targets a worker has taken. -/
def turnsOf (log : List LogEntry) (w : Nat) : Nat :=
  (takesOf log).countP (·.worker = w)

@[simp] theorem takesOf_append (log log' : List LogEntry) :
    takesOf (log ++ log') = takesOf log ++ takesOf log' :=
  List.filter_append ..

theorem map_target_takesOf (log : List LogEntry) :
    (takesOf log).map (·.what.target) = Run.takenOf (log.map (·.what)) := by
  induction log with
  | nil => rfl
  | cons e rest ih =>
    obtain ⟨w, clock, ⟨t, deed⟩⟩ := e
    cases deed with
    | taken => exact congrArg (t :: ·) ih
    | _ => exact ih

theorem turnsOf_take (log : List LogEntry) (w clock : Nat) (t : Target) (i : Nat) :
    turnsOf (log ++ [⟨w, clock, ⟨t, .taken⟩⟩]) i = turnsOf log i + if w = i then 1 else 0 := by
  rw [turnsOf, takesOf_append, List.countP_append]
  by_cases hi : w = i <;> simp [takesOf, turnsOf, hi]

theorem sum_turnsOf_le (log : List LogEntry) (n : Nat) :
    ∑ w ∈ Finset.range n, turnsOf log w ≤ (takesOf log).length := by
  unfold turnsOf
  induction takesOf log with
  | nil => simp
  | cons e rest ih =>
    -- an entry counts for its own worker only
    have hone : ∑ w ∈ Finset.range n, (if e.worker = w then 1 else 0) ≤ 1 := by
      rw [Finset.sum_ite_eq]
      split <;> omega
    simp only [List.countP_cons, decide_eq_true_eq, Finset.sum_add_distrib, List.length_cons]
    omega

/-- Some worker has taken no more targets than there are for each. -/
theorem exists_turnsOf_le {n : Nat} (log : List LogEntry) (hn : 0 < n) :
    ∃ w < n, turnsOf log w ≤ (takesOf log).length / n := by
  by_contra hnone
  have hmore : ∀ w ∈ Finset.range n, (takesOf log).length / n + 1 ≤ turnsOf log w := by
    intro w hw
    by_contra hle
    exact hnone ⟨w, Finset.mem_range.mp hw, by omega⟩
  have hsum : n * ((takesOf log).length / n + 1) ≤ ∑ w ∈ Finset.range n, turnsOf log w := by
    have hcard := Finset.card_nsmul_le_sum (Finset.range n) (turnsOf log) _ hmore
    rwa [Finset.card_range, Nat.nsmul_eq_mul] at hcard
  have hlt := Nat.lt_mul_div_succ (takesOf log).length hn
  have hle := sum_turnsOf_le log n
  omega

/-- In how many rounds workers get through targets, when each takes one in a round. -/
def roundCount (targets workers : Nat) : Nat :=
  (targets + workers - 1) / workers

theorem div_lt_roundCount {j targets workers : Nat} (hj : j < targets) (hworkers : 0 < workers) :
    j / workers + 1 ≤ roundCount targets workers := by
  rw [← Nat.add_div_right j hworkers]
  exact Nat.div_le_div_right (by omega)

namespace Run

/-! ## All workers -/

/-- Whether every worker is as far as a pace lets it be: it has had no more time than for the targets that
it has taken, and no more than for all rounds of the run. -/
structure OnSchedule (c : Pace) (began targets : Nat) (log : List LogEntry) (clock : Nat)
    (workers : List Worker) : Prop where
  clock_le : clock ≤ began + roundCount targets workers.length * c.turn
  turns : ∀ (w : Nat) (state : Worker), workers[w]? = some state → state.isOver = false →
    state.doneBy c clock ≤ began + turnsOf log w * c.turn
  rounds : ∀ (w : Nat) (state : Worker), workers[w]? = some state → state.isOver = false →
    state.doneBy c clock ≤ began + roundCount targets workers.length * c.turn
  takes : ∀ (j : Nat) (e : LogEntry), (takesOf log)[j]? = some e →
    e.clock ≤ began + j / workers.length * c.turn

namespace OnSchedule

variable {c : Pace} {began targets clock w : Nat} {log log' : List LogEntry} {workers : List Worker}
  {old new : Worker} {r : Run}

/-- A worker goes on, and will be through no later than before. -/
theorem goesOn (h : OnSchedule c began targets log clock workers) (hold : workers[w]? = some old)
    (hgoing : old.isOver = false) (hlog : takesOf log' = takesOf log)
    (hdone : new.doneBy c clock ≤ old.doneBy c clock) :
    OnSchedule c began targets log' clock (workers.set w new) := by
  have hturns (i : Nat) : turnsOf log' i = turnsOf log i := by
    rw [turnsOf, hlog, turnsOf]
  refine ⟨?_, ?_, ?_, ?_⟩
  · rw [List.length_set]
    exact h.clock_le
  · intro i state hi hstate
    rw [hturns]
    rcases Orderly.getElem?_set_cases hi with ⟨rfl, rfl⟩ | ⟨-, hi⟩
    · exact Nat.le_trans hdone (h.turns i old hold hgoing)
    · exact h.turns i state hi hstate
  · intro i state hi hstate
    rw [List.length_set]
    rcases Orderly.getElem?_set_cases hi with ⟨rfl, rfl⟩ | ⟨-, hi⟩
    · exact Nat.le_trans hdone (h.rounds i old hold hgoing)
    · exact h.rounds i state hi hstate
  · intro j e he
    rw [List.length_set]
    rw [hlog] at he
    exact h.takes j e he

/-- As long as no worker is over, the next target is in its round: the worker that has taken the fewest
targets has not had more time than for them. -/
theorem clock_le_of_going (h : OnSchedule c began targets log clock workers)
    (hworkers : 0 < workers.length) (hkeeps : ∀ state ∈ workers, state.Keeps clock)
    (hgoing : ∀ state ∈ workers, state.isOver = false) :
    clock ≤ began + (takesOf log).length / workers.length * c.turn := by
  obtain ⟨i, hi, hfew⟩ := exists_turnsOf_le log hworkers
  have hmem : workers[i] ∈ workers := List.getElem_mem hi
  calc clock
    _ ≤ workers[i].doneBy c clock := (hkeeps _ hmem).le_doneBy
    _ ≤ began + turnsOf log i * c.turn := h.turns i _ (List.getElem?_eq_getElem hi) (hgoing _ hmem)
    _ ≤ began + (takesOf log).length / workers.length * c.turn :=
      Nat.add_le_add_left (Nat.mul_le_mul_right _ hfew) _

/-- A worker takes a target, for which it has a turn of its own. -/
theorem take (h : OnSchedule c began targets log clock workers) (hattempts : 1 ≤ c.attempts)
    (hfree : workers[w]? = some .free) (htargets : (takesOf log).length < targets)
    (hclock : clock ≤ began + (takesOf log).length / workers.length * c.turn) (t : Target) :
    OnSchedule c began targets (log ++ [⟨w, clock, ⟨t, .taken⟩⟩]) clock
      (workers.set w (.poised t {})) := by
  have hworkers : 0 < workers.length := Nat.zero_lt_of_lt (List.getElem?_eq_some_iff.mp hfree).1
  have hdone : (Worker.poised t {}).doneBy c clock = clock + c.turn := by
    show clock + c.limit + c.rest 1 = clock + c.turn
    rw [Nat.add_assoc, Pace.limit_add_rest_one hattempts]
  refine ⟨?_, ?_, ?_, ?_⟩
  · rw [List.length_set]
    exact h.clock_le
  · intro i state hi hstate
    rw [turnsOf_take]
    rcases Orderly.getElem?_set_cases hi with ⟨rfl, rfl⟩ | ⟨hne, hi⟩
    · have hbefore : clock ≤ began + turnsOf log i * c.turn := h.turns i .free hfree rfl
      rw [hdone, if_pos rfl, Nat.succ_mul]
      omega
    · rw [if_neg (Ne.symm hne)]
      exact h.turns i state hi hstate
  · intro i state hi hstate
    rw [List.length_set]
    rcases Orderly.getElem?_set_cases hi with ⟨rfl, rfl⟩ | ⟨-, hi⟩
    · have hround := Nat.mul_le_mul_right c.turn (div_lt_roundCount htargets hworkers)
      rw [Nat.succ_mul] at hround
      omega
    · exact h.rounds i state hi hstate
  · intro j e he
    rw [List.length_set]
    rw [takesOf_append] at he
    rcases Nat.lt_or_ge j (takesOf log).length with hlt | hge
    · rw [List.getElem?_append_left hlt] at he
      exact h.takes j e he
    · -- the new entry
      have hone : takesOf [(⟨w, clock, ⟨t, .taken⟩⟩ : LogEntry)] = [⟨w, clock, ⟨t, .taken⟩⟩] := rfl
      rw [hone, List.getElem?_append_right hge, List.getElem?_singleton] at he
      split at he
      · rename_i hlast
        obtain rfl : j = (takesOf log).length := by omega
        cases he
        exact hclock
      · cases he

/-- Time passes. -/
theorem wait {time : Nat} (h : OnSchedule c began targets log clock r.workers) (hwait : r.Waits time)
    (hkeeps : ∀ state ∈ r.workers, state.Keeps time) : OnSchedule c began targets log time r.workers := by
  have hsame {state : Worker} (hmem : state ∈ r.workers) (hgoing : state.isOver = false) :
      state.doneBy c time = state.doneBy c clock := by
    obtain ⟨due, hdue, -⟩ := hwait.due state hmem hgoing
    exact Worker.doneBy_of_due? hdue time
  refine ⟨?_, ?_, ?_, h.takes⟩
  · obtain ⟨state, hmem, hgoing⟩ := exists_going hwait.going
    obtain ⟨w, hw⟩ := List.getElem?_of_mem hmem
    calc time
      _ ≤ state.doneBy c time := (hkeeps state hmem).le_doneBy
      _ = state.doneBy c clock := hsame hmem hgoing
      _ ≤ began + roundCount targets r.workers.length * c.turn := h.rounds w state hw hgoing
  · intro w state hw hgoing
    rw [hsame (List.mem_of_getElem? hw) hgoing]
    exact h.turns w state hw hgoing
  · intro w state hw hgoing
    rw [hsame (List.mem_of_getElem? hw) hgoing]
    exact h.rounds w state hw hgoing

/-- **Every step is on schedule.** -/
theorem step {now : UInt64} {g : List Happening} {queue' : List Target}
    (h : OnSchedule c began targets log clock r.workers) (hkeeps : ∀ state ∈ r.workers, state.Keeps clock)
    (hattempts : 1 ≤ c.attempts) (hmax : r.settings.policy.maxAttempts.toNat ≤ c.attempts)
    (hdelay : r.settings.policy.tryDelay.toNat = c.delay) (hended : .ended ∈ r.workers → r.queue = [])
    (hqueue : (takesOf log).length + r.queue.length = targets)
    (hprobe : ∀ t a sent reply, new = .probing t a sent reply →
      reply.latency ≤ c.limit ∧ reply.outcome.isSome)
    (hacts : Acts ⟨clock, now⟩ r w g new queue') :
    OnSchedule c began targets (log ++ g.map fun x => ⟨w, clock, x⟩) clock (r.workers.set w new) := by
  cases hacts with
  | @takes t rest hw hrest =>
    have htargets : (takesOf log).length < targets := by
      rw [hrest, List.length_cons] at hqueue
      omega
    refine h.take hattempts hw htargets (h.clock_le_of_going ?_ hkeeps ?_) t
    · exact Nat.zero_lt_of_lt (List.getElem?_eq_some_iff.mp hw).1
    · -- nobody leaves before the queue is empty
      intro state hmem
      cases state with
      | ended =>
        rw [hended hmem] at hrest
        cases hrest
      | lost t => exact (hkeeps _ hmem).elim
      | _ => rfl
  | ends hw hempty => exact h.goesOn hw rfl (by simp) (Nat.le_refl clock)
  | @sends t a reply hw =>
    have hlatency := (hprobe t a clock reply rfl).1
    refine h.goesOn hw rfl (by simp [takesOf]) ?_
    exact Nat.add_le_add_right (Nat.add_le_add_left hlatency clock) _
  | @receives t a sent reply hw hdue =>
    have hclock := (hkeeps _ (List.mem_of_getElem? hw)).2.1
    exact h.goesOn hw rfl (by simp [takesOf]) (Worker.doneBy_answered_le hmax hdelay hclock)
  | @resumes t a wake hw hwake =>
    have hclock := (hkeeps _ (List.mem_of_getElem? hw)).2
    refine h.goesOn hw rfl (by simp) ?_
    exact Nat.add_le_add_right (Nat.add_le_add_right hclock c.limit) _
  | @settles t result hw => exact h.goesOn hw rfl (by simp [takesOf]) (Nat.le_refl clock)

end OnSchedule

variable {others : Store → Store → Prop} {limit began clock : Nat} {s₀ s s' : Store} {r₀ r r' : Run}
  {log : List LogEntry} {l : RunLabel}

/-- **A run is on schedule** in every state, whatever its probes find out and however long each takes. -/
theorem Prompt.onSchedule {c : Pace} (hrun : Prompt others c.limit began s₀ r₀ log clock s r)
    (hr₀ : r₀.Fresh) (hattempts : 1 ≤ c.attempts)
    (hmax : r₀.settings.policy.maxAttempts.toNat ≤ c.attempts)
    (hdelay : r₀.settings.policy.tryDelay.toNat = c.delay) :
    OnSchedule c began r₀.queue.length log clock r.workers := by
  induction hrun with
  | start =>
    have hdone {w : Nat} {state : Worker} (hw : r₀.workers[w]? = some state) :
        state.doneBy c began = began := by
      rw [hr₀.eq_free (List.mem_of_getElem? hw)]
      rfl
    refine ⟨Nat.le_add_right .., ?_, ?_, ?_⟩
    · intro w state hw _
      rw [hdone hw]
      exact Nat.le_add_right ..
    · intro w state hw _
      rw [hdone hw]
      exact Nat.le_add_right ..
    · intro j e he
      cases he
  | step hrun hl hstep ih =>
    obtain ⟨last, -, htimed⟩ := hrun.timed
    have hledger := htimed.course.ledger hr₀
    obtain ⟨new, hacts, hworkers, hprobe⟩ := acts_within_of_step hl hstep
    have hqueue := congrArg List.length hledger.queue
    rw [List.length_append, ← map_target_takesOf, List.length_map] at hqueue
    rw [← hledger.settings] at hmax hdelay
    rw [hworkers]
    exact ih.step (hrun.keeps hr₀) hattempts hmax hdelay hledger.ended hqueue hprobe hacts
  | wait hrun hwait hlt ih => exact ih.wait hwait ((hrun.wait hwait hlt).keeps hr₀)
  | other _ _ ih => exact ih

/-! ## How long it takes -/

/-- What holds of a run on a clock that only moves when nobody has anything to do, with as many attempts
at a target as its policy allows and probes that all end within a time. -/
structure InTime (resolved : Resolved) (poolSize attempts limit began : Nat) (log : List LogEntry)
    (clock : Nat) (r : Run) : Prop where
  /-- The targets are taken in the order of the queue, each in its round at the latest. -/
  taken : ∀ (j : Nat) (e : LogEntry), (takesOf log)[j]? = some e →
    (addressed resolved.targets)[j]? = some e.what.target
      ∧ e.clock ≤ began + j / workerCount poolSize (addressed resolved.targets).length
          * (attempts * limit + (attempts - 1) * resolved.policy.tryDelay.toNat)
  /-- A target is probed for the first time when it is taken. -/
  begun : ∀ e ∈ log, e.what.deed = .sent 1 → ⟨e.worker, e.clock, ⟨e.what.target, .taken⟩⟩ ∈ log
  /-- The clock never shows a time after the last round. -/
  bounded : clock ≤ began
    + roundCount (addressed resolved.targets).length
        (workerCount poolSize (addressed resolved.targets).length)
      * (attempts * limit + (attempts - 1) * resolved.policy.tryDelay.toNat)
  /-- The run does not go on for ever. -/
  finite : Acc (Ticks limit) (clock, r)
  /-- While it is not over, a worker has something to do, whatever the answer to a probe is, or time
  passes. -/
  goesOn : ∀ f : String → Nat → Reply,
    (∀ ip k, (f ip k).latency ≤ limit ∧ (f ip k).outcome.isSome) → r.isOver = false →
    (∀ now s, ∃ l next, l.Within limit ∧ r.Answers f l ∧ r.step ⟨clock, now⟩ s l = some next)
      ∨ r.Waits (clock + 1)

/-- **A run ends in time**, whatever its probes find out, however long each of them takes within the
limit, and in whatever order the workers take their steps. -/
theorem ends_in_time {clusterId : UInt64} {resolved : Resolved} {poolSize attempts : Nat}
    {mode : TrackingMode} {handlers : List Handler} {ledger : Option Store}
    (hresolve : s₀.resolve clusterId = .ok resolved)
    (hattempts : resolved.policy.maxAttempts.toNat ≤ attempts)
    (hrun : Prompt others limit began s₀ (start resolved poolSize mode handlers ledger) log clock s r) :
    InTime resolved poolSize attempts limit began log clock r := by
  let c : Pace := ⟨attempts, limit, resolved.policy.tryDelay.toNat⟩
  have hfresh := fresh_start resolved poolSize mode handlers ledger
  have hone : 1 ≤ c.attempts := Nat.le_trans (Store.one_le_maxAttempts hresolve) hattempts
  obtain ⟨last, -, htimed⟩ := hrun.timed
  have hledger := htimed.course.ledger hfresh
  have hschedule := Prompt.onSchedule (c := c) hrun hfresh hone hattempts rfl
  have hworkers : r.workers.length = workerCount poolSize (addressed resolved.targets).length :=
    hledger.workers.trans List.length_replicate
  refine ⟨?_, (hrun.begun hfresh).sent, ?_, acc_ticks limit _, ?_⟩
  · intro j e he
    refine ⟨?_, ?_⟩
    · have htaken : (takenOf (log.map (·.what)))[j]? = some e.what.target := by
        rw [← map_target_takesOf, List.getElem?_map, he]
        rfl
      have hqueue : takenOf (log.map (·.what)) ++ r.queue = addressed resolved.targets := hledger.queue
      rw [← hqueue, List.getElem?_append_left (List.getElem?_eq_some_iff.mp htaken).1]
      exact htaken
    · rw [← hworkers]
      exact hschedule.takes j e he
  · rw [← hworkers]
    exact hschedule.clock_le
  · intro f hf hgoing
    exact exists_ticks hf hgoing clock

/-! ### One worker whose probes take as long as they may -/

/-- What the log says when such a worker checks a target, whose first probe passes. -/
def slowTurn (limit clock : Nat) (t : Target) : List LogEntry :=
  [⟨0, clock, ⟨t, .taken⟩⟩, ⟨0, clock, ⟨t, .sent 1⟩⟩,
    ⟨0, clock + limit, ⟨t, .answered 1 ⟨limit, some ⟨true, none⟩⟩⟩⟩,
    ⟨0, clock + limit, ⟨t, .settled ⟨true, none, limit, 1⟩⟩⟩]

theorem Prompt.does {now : UInt64} {x : Happening}
    (hrun : Prompt others limit began s₀ r₀ log clock s r) (hl : l.Within limit)
    (hstep : r.step ⟨clock, now⟩ s l = some (s', r')) (hx : r.happening? ⟨clock, now⟩ l = some x) :
    Prompt others limit began s₀ r₀ (log ++ [⟨l.worker, clock, x⟩]) clock s' r' := by
  have hnext := hrun.step hl hstep
  rwa [hx] at hnext

/-- It checks the next target and takes the whole of its turn for that. -/
theorem Prompt.checks_slowly {t : Target} {rest : List Target} (hlimit : 0 < limit)
    (hrun : Prompt others limit began s₀ r₀ log clock s r) (hworkers : r.workers = [.free])
    (hqueue : r.queue = t :: rest) :
    ∃ s' r', Prompt others limit began s₀ r₀ (log ++ slowTurn limit clock t) (clock + limit) s' r'
      ∧ r'.workers = [.free] ∧ r'.queue = rest := by
  let next (state : Worker) : Run := { r with queue := rest, workers := [state] }
  let reply : Reply := ⟨limit, some ⟨true, none⟩⟩
  let result : CheckResult := ⟨true, none, limit, 1⟩
  have htake : r.step ⟨clock, 0⟩ s (.take 0) = some (s, next (.poised t {})) := by
    simp [Run.step, hworkers, hqueue, setWorker, next]
  have htaken := hrun.does (l := .take 0) (x := ⟨t, .taken⟩) trivial htake
    (by simp [happening?, hworkers, hqueue])
  have hsend : (next (.poised t {})).step ⟨clock, 0⟩ s (.send 0 reply)
      = some (s, next (.probing t {} clock reply)) := rfl
  have hsent := htaken.does (l := .send 0 reply) ⟨Nat.le_refl _, rfl⟩ hsend rfl
  have hwaits : (next (.probing t {} clock reply)).Waits (clock + limit) := by
    refine ⟨rfl, ?_⟩
    intro state hmem _
    cases List.mem_singleton.mp hmem
    exact ⟨_, rfl, Nat.le_refl _⟩
  have hwaited := hsent.wait hwaits (Nat.lt_add_of_pos_right hlimit)
  have hreceive : (next (.probing t {} clock reply)).step ⟨clock + limit, 0⟩ s (.receive 0)
      = some (s, next (.checked t result)) := by
    simp [Run.step, next, setWorker, Worker.answered, Attempt.after, reply, result]
  have hanswered := hwaited.does (l := .receive 0) (x := ⟨t, .answered 1 reply⟩) trivial hreceive
    (by simp [happening?, next, reply])
  obtain ⟨s', r', hstep, hfree, hrest⟩ := step_settle (w := 0) (r := next (.checked t result)) rfl
    ⟨clock + limit, 0⟩ s
  have hsettled := hanswered.does (l := .settle 0) trivial hstep rfl
  refine ⟨s', r', ?_, hfree, hrest⟩
  simpa [slowTurn, RunLabel.worker] using hsettled

/-- A run with one worker whose probes take as long as they may is over at the last moment. -/
theorem ends_in_time_smallStore :
    ∃ log r, InTime smallPlan 1 1 30 0 log 60 r ∧ r.isOver ∧ (takesOf log).map (·.clock) = [0, 30] := by
  have hstart : Prompt (fun _ _ => False) 30 0 smallStore
      (start smallPlan 1 .address standardPipeline none) [] 0 smallStore _ := .start
  obtain ⟨s₁, r₁, hfirst, hworkers₁, hqueue₁⟩ := hstart.checks_slowly (by decide) rfl rfl
  obtain ⟨s₂, r₂, hsecond, hworkers₂, hqueue₂⟩ := hfirst.checks_slowly (by decide) hworkers₁ hqueue₁
  have hstep : r₂.step ⟨60, 0⟩ s₂ (.take 0) = some (s₂, r₂.setWorker 0 .ended) := by
    simp [Run.step, hworkers₂, hqueue₂]
  have hended := hsecond.step (l := .take 0) trivial hstep
  refine ⟨_, _, ends_in_time Store.resolve_smallStore (by decide) hended, ?_, ?_⟩
  · simp [isOver, setWorker, hworkers₂, Worker.isOver]
  · simp [happening?, hworkers₂, hqueue₂, takesOf, slowTurn]

end Run

end FleetHealth
