import FleetHealth.Proofs.Run.Pool
import FleetHealth.Proofs.Run.Progress
import Mathlib.Algebra.Order.BigOperators.Group.List
import Mathlib.Algebra.Order.Group.Nat
/-!
# Runs without delay

When a clock only moves while nobody has anything to do, no worker misses the time for which it waits, and
whoever is about to probe does so at once. And if every probe is answered within a time, no worker is lost,
and the run comes to its end.

* `Run.Prompt` — the courses of a run on such a clock, with such answers.
* `Run.Prompt.keeps` — workers are on time, and none is lost.
* `Run.Prompt.begun` — a target is probed as soon as it is taken.
* `Run.acc_ticks`, `Run.exists_ticks` — such a course does not go on for ever, and it does not get stuck.
-/

namespace FleetHealth

/-- Whether a step keeps to a prober that answers within a time and brings nobody down. -/
def RunLabel.Within (limit : Nat) : RunLabel → Prop
  | .send _ reply => reply.latency ≤ limit ∧ reply.outcome.isSome
  | _ => True

/-- Whether the worker has not missed the time for which it waits, and no probe brings it down. -/
def Worker.Keeps (clock : Nat) : Worker → Prop
  | .poised _ a => 1 ≤ a.number
  | .probing _ a sent reply => 1 ≤ a.number ∧ clock ≤ sent + reply.latency ∧ reply.outcome.isSome
  | .pausing _ a wake => 2 ≤ a.number ∧ clock ≤ wake
  | .lost _ => False
  | _ => True

namespace Run

/-- Whether nobody has anything to do before a time: whoever is not over waits for it or for a later one,
and there is somebody who does. -/
structure Waits (r : Run) (time : Nat) : Prop where
  going : r.isOver = false
  due : ∀ state ∈ r.workers, state.isOver = false → ∃ due, state.due? = some due ∧ time ≤ due

/-- The courses of a run on a clock that only moves when nobody has anything to do, with answers to probes
within a time: the log, the time, and where they led. Others may change the store. -/
inductive Prompt (others : Store → Store → Prop) (limit began : Nat) (s₀ : Store) (r₀ : Run) :
    List LogEntry → Nat → Store → Run → Prop
  | start : Prompt others limit began s₀ r₀ [] began s₀ r₀
  | step {now : UInt64} {l : RunLabel} {log : List LogEntry} {clock : Nat} {s s' : Store} {r r' : Run} :
    Prompt others limit began s₀ r₀ log clock s r → l.Within limit →
    r.step ⟨clock, now⟩ s l = some (s', r') →
    Prompt others limit began s₀ r₀
      (log ++ (r.happening? ⟨clock, now⟩ l).toList.map fun x => ⟨l.worker, clock, x⟩) clock s' r'
  | wait {time : Nat} {log : List LogEntry} {clock : Nat} {s : Store} {r : Run} :
    Prompt others limit began s₀ r₀ log clock s r → r.Waits time → clock < time →
    Prompt others limit began s₀ r₀ log time s r
  | other {log : List LogEntry} {clock : Nat} {s s' : Store} {r : Run} :
    Prompt others limit began s₀ r₀ log clock s r → others s s' →
    Prompt others limit began s₀ r₀ log clock s' r

variable {others : Store → Store → Prop} {limit began clock : Nat} {s₀ s s' : Store} {r₀ r r' : Run}
  {log : List LogEntry} {m : Moment} {l : RunLabel}

/-- They are courses by a clock that never goes back. -/
theorem Prompt.timed (h : Prompt others limit began s₀ r₀ log clock s r) :
    ∃ last ≤ clock, Timed others s₀ r₀ log last s r := by
  induction h with
  | start => exact ⟨_, Nat.le_refl _, .start⟩
  | @step now l log clock s s' r r' _ _ hstep ih =>
    obtain ⟨last, hlast, htimed⟩ := ih
    exact ⟨clock, Nat.le_refl clock, htimed.step (m := ⟨clock, now⟩) hlast hstep⟩
  | wait _ _ hlt ih =>
    obtain ⟨last, hlast, htimed⟩ := ih
    exact ⟨last, Nat.le_trans hlast (Nat.le_of_lt hlt), htimed⟩
  | other _ hother ih =>
    obtain ⟨last, hlast, htimed⟩ := ih
    exact ⟨last, hlast, htimed.other hother⟩

/-! ## Probes under way -/

theorem Acts.lt_length {w : Nat} {g : List Happening} {new : Worker} {queue' : List Target}
    (h : Acts m r w g new queue') : w < r.workers.length := by
  cases h <;> exact (List.getElem?_eq_some_iff.mp ‹_›).1

theorem answered_ne_probing {p : PolicySnapshot} {t t' : Target} {a a' : Attempt}
    {sent sent' clock : Nat} {reply reply' : Reply} :
    Worker.answered p t a sent clock reply ≠ .probing t' a' sent' reply' := by
  unfold Worker.answered
  split
  · nofun
  · split
    · nofun
    · split <;> nofun

/-- After an answer there is one more attempt, if any. -/
theorem number_answered {p : PolicySnapshot} {t t' : Target} {a next : Attempt} {sent clock : Nat}
    {reply : Reply} (h : Worker.answered p t a sent clock reply = .poised t' next) :
    next.number = a.number + 1 := by
  unfold Worker.answered at h
  split at h
  · cases h
  · split at h
    · cases h
    · rename_i hafter
      split at h
      · cases h
        exact (Attempt.after_eq_again hafter).1
      · cases h

/-- A probe is under way only if it was sent. -/
theorem send_of_step {t : Target} {a : Attempt} {sent : Nat} {reply : Reply}
    (h : r.step m s l = some (s', r')) (hw : r'.workers[l.worker]? = some (.probing t a sent reply)) :
    l = .send l.worker reply := by
  have hset {new : Worker} {w : Nat} (hw : (r.workers.set w new)[w]? = some (.probing t a sent reply)) :
      new = .probing t a sent reply := by
    rcases Orderly.getElem?_set_cases hw with ⟨-, hnew⟩ | ⟨hne, -⟩
    · exact hnew.symm
    · exact absurd rfl hne
  cases l with
  | take w =>
    rw [step] at h
    split at h
    · cases h
      cases hset hw
    · cases h
      cases hset hw
    · cases h
  | send w reply' =>
    rw [step] at h
    split at h
    · cases h
      cases hset hw
      rfl
    · cases h
  | receive w =>
    rw [step] at h
    split at h
    · split at h
      · cases h
        exact absurd (hset hw) answered_ne_probing
      · cases h
    · cases h
  | resume w =>
    rw [step] at h
    split at h
    · split at h
      · cases h
        cases hset hw
      · cases h
    · cases h
  | settle w =>
    rw [step] at h
    split at h
    · cases h
      cases hset hw
    · cases h

/-- What a step with an answer in time does: a probe that it sends is answered in time. -/
theorem acts_within_of_step (hl : l.Within limit) (h : r.step m s l = some (s', r')) :
    ∃ new, Acts m r l.worker (r.happening? m l).toList new r'.queue
      ∧ r'.workers = r.workers.set l.worker new
      ∧ ∀ t a sent reply, new = .probing t a sent reply →
        reply.latency ≤ limit ∧ reply.outcome.isSome := by
  obtain ⟨new, hacts, hworkers⟩ := acts_of_step h
  refine ⟨new, hacts, hworkers, ?_⟩
  rintro t a sent reply rfl
  have hw : r'.workers[l.worker]? = some (.probing t a sent reply) := by
    rw [hworkers]
    exact List.getElem?_set_self hacts.lt_length
  rw [send_of_step h hw] at hl
  exact hl

/-! ## Workers on time -/

theorem keeps_answered {p : PolicySnapshot} {t : Target} {a : Attempt} {sent : Nat} {reply : Reply}
    (h : (Worker.probing t a sent reply).Keeps clock) :
    (Worker.answered p t a sent clock reply).Keeps clock := by
  obtain ⟨hnumber, -, hsome⟩ := h
  unfold Worker.answered
  split
  · rename_i houtcome
    rw [houtcome] at hsome
    cases hsome
  · split
    · trivial
    · rename_i next hafter
      have hnext := (Attempt.after_eq_again hafter).1
      split
      · show 1 ≤ next.number
        omega
      · refine ⟨?_, Nat.le_add_right ..⟩
        omega

/-- A step leaves its worker on time. -/
theorem Acts.keeps {now : UInt64} {w : Nat} {g : List Happening} {new : Worker} {queue' : List Target}
    (h : ∀ state ∈ r.workers, state.Keeps clock)
    (hprobe : ∀ t a sent reply, new = .probing t a sent reply →
      reply.latency ≤ limit ∧ reply.outcome.isSome)
    (hacts : Acts ⟨clock, now⟩ r w g new queue') : new.Keeps clock := by
  cases hacts with
  | takes hw hqueue => exact Nat.le_refl 1
  | ends hw hqueue => trivial
  | sends hw => exact ⟨h _ (List.mem_of_getElem? hw), Nat.le_add_right .., (hprobe _ _ _ _ rfl).2⟩
  | receives hw hdue => exact keeps_answered (h _ (List.mem_of_getElem? hw))
  | resumes hw hwake => exact Nat.le_of_succ_le (h _ (List.mem_of_getElem? hw)).1
  | settles hw => trivial

/-- So does the time for which it waits. -/
theorem Waits.keeps {time : Nat} {state : Worker} (hwait : r.Waits time) (hmem : state ∈ r.workers)
    (h : state.Keeps clock) : state.Keeps time := by
  cases hover : state.isOver with
  | false =>
    obtain ⟨due, hdue, htime⟩ := hwait.due state hmem hover
    cases state with
    | probing t a sent reply =>
      cases hdue
      exact ⟨h.1, htime, h.2.2⟩
    | pausing t a wake =>
      cases hdue
      exact ⟨h.1, htime⟩
    | _ => cases hdue
  | true =>
    cases state with
    | ended => trivial
    | lost t => exact h.elim
    | _ => cases hover

/-- **Every worker is on time**, and none is lost. -/
theorem Prompt.keeps (hrun : Prompt others limit began s₀ r₀ log clock s r) (hr₀ : r₀.Fresh) :
    ∀ state ∈ r.workers, state.Keeps clock := by
  induction hrun with
  | start =>
    intro state hmem
    rw [hr₀.eq_free hmem]
    trivial
  | step _ hl hstep ih =>
    obtain ⟨new, hacts, hworkers, hprobe⟩ := acts_within_of_step hl hstep
    intro state hmem
    rw [hworkers] at hmem
    rcases List.mem_or_eq_of_mem_set hmem with hmem | rfl
    · exact ih state hmem
    · exact hacts.keeps ih hprobe
  | wait _ hwait _ ih => exact fun state hmem => hwait.keeps hmem (ih state hmem)
  | other _ _ ih => exact ih

/-! ## The first probe of a target -/

/-- Whether every target was probed as soon as it was taken. -/
structure Begun (log : List LogEntry) (clock : Nat) (workers : List Worker) : Prop where
  sent : ∀ e ∈ log, e.what.deed = .sent 1 → ⟨e.worker, e.clock, ⟨e.what.target, .taken⟩⟩ ∈ log
  poised : ∀ (w : Nat) (t : Target) (a : Attempt), workers[w]? = some (.poised t a) → a.number = 1 →
    ⟨w, clock, ⟨t, .taken⟩⟩ ∈ log

namespace Begun

variable {w : Nat} {workers : List Worker} {new : Worker} {g : List Happening}

/-- Nothing but taking a target leads to its first probe. -/
theorem goesOn (h : Begun log clock workers)
    (hsent : ∀ x ∈ g, x.deed = .sent 1 → ⟨w, clock, ⟨x.target, .taken⟩⟩ ∈ log)
    (hpoised : ∀ t a, new = .poised t a → a.number ≠ 1) :
    Begun (log ++ g.map fun x => ⟨w, clock, x⟩) clock (workers.set w new) := by
  refine ⟨?_, ?_⟩
  · intro e he hdeed
    rcases List.mem_append.mp he with he | he
    · exact List.mem_append_left _ (h.sent e he hdeed)
    · obtain ⟨x, hx, rfl⟩ := List.mem_map.mp he
      exact List.mem_append_left _ (hsent x hx hdeed)
  · intro i t a hi hnumber
    rcases Orderly.getElem?_set_cases hi with ⟨-, hnew⟩ | ⟨-, hi⟩
    · exact absurd hnumber (hpoised t a hnew.symm)
    · exact List.mem_append_left _ (h.poised i t a hi hnumber)

theorem step {now : UInt64} {queue' : List Target} (h : Begun log clock r.workers)
    (hkeeps : ∀ state ∈ r.workers, state.Keeps clock) (hacts : Acts ⟨clock, now⟩ r w g new queue') :
    Begun (log ++ g.map fun x => ⟨w, clock, x⟩) clock (r.workers.set w new) := by
  cases hacts with
  | @takes t rest hw hrest =>
    refine ⟨?_, ?_⟩
    · intro e he hdeed
      rcases List.mem_append.mp he with he | he
      · exact List.mem_append_left _ (h.sent e he hdeed)
      · cases List.mem_singleton.mp he
        cases hdeed
    · intro i t' a hi hnumber
      rcases Orderly.getElem?_set_cases hi with ⟨rfl, hnew⟩ | ⟨-, hi⟩
      · cases hnew
        simp
      · exact List.mem_append_left _ (h.poised i t' a hi hnumber)
  | ends hw hempty =>
    refine h.goesOn (fun x hx => absurd hx List.not_mem_nil) ?_
    rintro _ _ ⟨⟩
  | @sends t a reply hw =>
    refine h.goesOn ?_ (by rintro _ _ ⟨⟩)
    intro x hx hdeed
    cases List.mem_singleton.mp hx
    exact h.poised w t a hw (Deed.sent.inj hdeed)
  | @receives t a sent reply hw hdue =>
    refine h.goesOn ?_ ?_
    · intro x hx hdeed
      cases List.mem_singleton.mp hx
      cases hdeed
    · intro t' next hnext
      have hnumber := (hkeeps _ (List.mem_of_getElem? hw)).1
      rw [number_answered hnext]
      omega
  | @resumes t a wake hw hwake =>
    refine h.goesOn (fun x hx => absurd hx List.not_mem_nil) ?_
    rintro _ _ ⟨⟩
    have hnumber := (hkeeps _ (List.mem_of_getElem? hw)).1
    omega
  | @settles t result hw =>
    refine h.goesOn ?_ (by rintro _ _ ⟨⟩)
    intro x hx hdeed
    cases List.mem_singleton.mp hx
    cases hdeed

/-- Who is about to probe does not wait. -/
theorem wait {time : Nat} (h : Begun log clock r.workers) (hwait : r.Waits time) :
    Begun log time r.workers := by
  refine ⟨h.sent, ?_⟩
  intro w t a hw _
  obtain ⟨due, hdue, -⟩ := hwait.due _ (List.mem_of_getElem? hw) rfl
  cases hdue

end Begun

/-- **The first probe of a target is sent at the time at which it is taken.** -/
theorem Prompt.begun (hrun : Prompt others limit began s₀ r₀ log clock s r) (hr₀ : r₀.Fresh) :
    Begun log clock r.workers := by
  induction hrun with
  | start =>
    refine ⟨fun e he => absurd he List.not_mem_nil, ?_⟩
    intro w t a hw
    cases hr₀.eq_free (List.mem_of_getElem? hw)
  | step hrun _ hstep ih =>
    obtain ⟨new, hacts, hworkers⟩ := acts_of_step hstep
    rw [hworkers]
    exact ih.step (hrun.keeps hr₀) hacts
  | wait _ hwait _ ih => exact ih.wait hwait
  | other _ _ ih => exact ih

/-! ## The end of a run -/

/-- Whether a run is further on than before: by a step of it, or as time has passed. -/
inductive Ticks (limit : Nat) : Nat × Run → Nat × Run → Prop
  | step {clock : Nat} {now : UInt64} {s s' : Store} {r r' : Run} {l : RunLabel} : l.Within limit →
    r.step ⟨clock, now⟩ s l = some (s', r') → Ticks limit (clock, r') (clock, r)
  | wait {clock time : Nat} {r : Run} : r.Waits time → clock < time → Ticks limit (time, r) (clock, r)

/-- The times for which workers wait, all together. -/
def dues (r : Run) : Nat :=
  (r.workers.filterMap Worker.due?).sum

theorem Waits.le_dues {time : Nat} (h : r.Waits time) : time ≤ r.dues := by
  obtain ⟨state, hmem, hgoing⟩ := exists_going h.going
  obtain ⟨due, hdue, htime⟩ := h.due state hmem hgoing
  exact Nat.le_trans htime (List.le_sum_of_mem (List.mem_filterMap.mpr ⟨state, hmem, hdue⟩))

/-- **No run goes on for ever**: steps use up its work, and the passing of time what it waits for. -/
theorem acc_ticks (limit : Nat) (now : Nat × Run) : Acc (Ticks limit) now := by
  let left (now : Nat × Run) : Nat × Nat := (now.2.toDo, now.2.dues - now.1)
  refine Subrelation.accessible (r := InvImage (Prod.Lex (· < ·) (· < ·)) left) ?_
    (InvImage.accessible _ ((Prod.lex Nat.lt_wfRel Nat.lt_wfRel).wf.apply _))
  rintro _ _ (⟨-, hstep⟩ | @⟨clock, time, r, hwait, hlt⟩)
  · exact Prod.Lex.left _ _ (toDo_lt_of_step hstep)
  · have hdues := hwait.le_dues
    refine Prod.Lex.right _ ?_
    show r.dues - time < r.dues - clock
    omega

/-- A step that keeps to the answers of a prober keeps to its times. -/
theorem Answers.within {f : String → Nat → Reply} {next : Store × Run} (h : r.Answers f l)
    (hf : ∀ ip k, (f ip k).latency ≤ limit ∧ (f ip k).outcome.isSome)
    (hstep : r.step m s l = some next) : l.Within limit := by
  cases l with
  | send w reply =>
    rw [step] at hstep
    split at hstep
    · rename_i t a hw
      rw [h t a hw]
      exact hf _ _
    · cases hstep
  | _ => trivial

/-- **No run gets stuck**: as long as it is not over, one of its workers has something to do, whatever the
prober answers, or else time passes. -/
theorem exists_ticks {f : String → Nat → Reply}
    (hf : ∀ ip k, (f ip k).latency ≤ limit ∧ (f ip k).outcome.isSome) (h : r.isOver = false)
    (clock : Nat) :
    (∀ now s, ∃ l next, l.Within limit ∧ r.Answers f l ∧ r.step ⟨clock, now⟩ s l = some next)
      ∨ r.Waits (clock + 1) := by
  by_cases hwait : ∀ state ∈ r.workers, state.isOver = false →
      ∃ due, state.due? = some due ∧ clock + 1 ≤ due
  · exact .inr ⟨h, hwait⟩
  · left
    intro now s
    simp only [not_forall] at hwait
    obtain ⟨state, hmem, hgoing, hnone⟩ := hwait
    obtain ⟨i, hi⟩ := List.getElem?_of_mem hmem
    have hready : ∀ due, state.due? = some due → due ≤ clock := by
      intro due hdue
      by_contra hlt
      exact hnone ⟨due, hdue, by omega⟩
    obtain ⟨l, next, hanswers, hstep⟩ := exists_step_of_going (m := ⟨clock, now⟩) f hi hgoing hready s
    exact ⟨l, next, hanswers.within hf hstep, hanswers, hstep⟩

end Run

end FleetHealth
