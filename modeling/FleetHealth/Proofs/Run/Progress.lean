import FleetHealth.Proofs.Probe.Attempt
import FleetHealth.Proofs.Run.Course
import Mathlib.Algebra.GroupWithZero.Nat
/-!
# Runs end

Every step of a run uses up some of the work that is left, whichever worker takes it, so no run goes on
for ever. As long as some worker is not over, one of them can take a step, at the latest when it has
waited long enough.

* `Run.toDo_lt_of_step`, `Run.acc_next` — no run goes on for ever.
* `Run.exists_step_of_going`, `Run.exists_step` — no worker gets stuck, and no run.
-/

namespace FleetHealth

variable {p : PolicySnapshot}

/-- How many steps a worker may still take before it is free again or over. -/
def Worker.toDo (p : PolicySnapshot) : Worker → Nat
  | .free => 1
  | .poised _ a => 3 * (p.maxAttempts.toNat - a.number) + 4
  | .probing _ a _ _ => 3 * (p.maxAttempts.toNat - a.number) + 3
  | .pausing _ a _ => 3 * (p.maxAttempts.toNat - a.number) + 5
  | .checked _ _ => 2
  | .ended => 0
  | .lost _ => 0

theorem Worker.toDo_answered_lt (p : PolicySnapshot) (t : Target) (a : Attempt) (sent clock : Nat)
    (reply : Reply) :
    (Worker.answered p t a sent clock reply).toDo p < 3 * (p.maxAttempts.toNat - a.number) + 3 := by
  unfold answered
  split
  · exact Nat.succ_pos _
  · split
    · rw [toDo]
      omega
    · rename_i next hafter
      have hnext := Attempt.after_eq_again hafter
      split <;> rw [toDo] <;> omega

namespace Run

variable {r r' : Run} {m : Moment} {s s' : Store} {l : RunLabel}

/-- How many steps a run may still take. -/
def toDo (r : Run) : Nat :=
  r.queue.length * (3 * (r.settings.policy.maxAttempts.toNat - 1) + 4)
    + (r.workers.map (Worker.toDo r.settings.policy)).sum

theorem toDo_replace_lt {before after : List Worker} {old new : Worker}
    (hworkers : r.workers = before ++ old :: after)
    (hworkers' : r'.workers = before ++ new :: after) (hsettings : r'.settings = r.settings)
    (hqueue : r'.queue = r.queue)
    (hlt : new.toDo r.settings.policy < old.toDo r.settings.policy) : r'.toDo < r.toDo := by
  rw [toDo, toDo, hworkers, hworkers', hsettings, hqueue]
  simp only [List.map_append, List.map_cons, List.sum_append, List.sum_cons]
  omega

/-- **Every step uses up some of the work that is left.** -/
theorem toDo_lt_of_step (h : r.step m s l = some (s', r')) : r'.toDo < r.toDo := by
  have hmoves := moves_of_step h
  generalize (r.happening? m l).toList = g at hmoves
  cases hmoves with
  | @takes before after t rest hworkers hqueue =>
    -- a target in the queue counts for one step more than a worker that has just taken it
    rw [toDo, toDo, hworkers, hqueue]
    simp only [List.map_append, List.map_cons, List.sum_append, List.sum_cons, List.length_cons,
      Worker.toDo, Nat.succ_mul]
    omega
  | ends hworkers hqueue => exact toDo_replace_lt hworkers rfl rfl rfl Nat.zero_lt_one
  | sends hworkers => exact toDo_replace_lt hworkers rfl rfl rfl (Nat.lt_succ_self _)
  | receives hworkers _ =>
    exact toDo_replace_lt hworkers rfl rfl rfl (Worker.toDo_answered_lt _ _ _ _ _ _)
  | resumes hworkers _ => exact toDo_replace_lt hworkers rfl rfl rfl (Nat.lt_succ_self _)
  | settles hworkers _ => exact toDo_replace_lt hworkers rfl rfl rfl Nat.one_lt_two

/-- Whether a run with its store is one step further than another. -/
def Next (next now : Store × Run) : Prop :=
  ∃ m l, now.2.step m now.1 l = some next

/-- **No run goes on for ever.** -/
theorem acc_next (now : Store × Run) : Acc Next now := by
  refine Subrelation.accessible (r := InvImage (· < ·) fun now : Store × Run => now.2.toDo) ?_
    (InvImage.accessible _ (Nat.lt_wfRel.wf.apply _))
  rintro next now ⟨m, l, hstep⟩
  exact toDo_lt_of_step hstep

/-- Whether a step of a run keeps to the answers of a prober. -/
def Answers (r : Run) (f : String → Nat → Reply) : RunLabel → Prop
  | .send w reply => ∀ t a, r.workers[w]? = some (.poised t a) → reply = f t.address.ip a.number
  | _ => True

/-- A worker that is not over can take a step when it has waited long enough, whatever the answers to
probes are. -/
theorem exists_step_of_going (f : String → Nat → Reply) {i : Nat} {w : Worker}
    (hi : r.workers[i]? = some w) (hgoing : w.isOver = false)
    (hdue : ∀ due, w.due? = some due → due ≤ m.clock) (s : Store) :
    ∃ l next, r.Answers f l ∧ r.step m s l = some next := by
  cases w with
  | free =>
    refine ⟨.take i, ?_⟩
    rw [step, hi]
    cases r.queue with
    | nil => exact ⟨_, trivial, rfl⟩
    | cons t rest => exact ⟨_, trivial, rfl⟩
  | poised t a =>
    refine ⟨.send i (f t.address.ip a.number), ?_⟩
    rw [step, hi]
    refine ⟨_, ?_, rfl⟩
    intro t' a' hw
    rw [hi] at hw
    cases hw
    rfl
  | probing t a sent reply =>
    -- the answer is there when its time has passed
    have hclock : sent + reply.latency ≤ m.clock := hdue _ rfl
    refine ⟨.receive i, ?_⟩
    rw [step, hi]
    simp only [if_pos hclock]
    exact ⟨_, trivial, rfl⟩
  | pausing t a wake =>
    have hclock : wake ≤ m.clock := hdue _ rfl
    refine ⟨.resume i, ?_⟩
    rw [step, hi]
    simp only [if_pos hclock]
    exact ⟨_, trivial, rfl⟩
  | checked t result =>
    refine ⟨.settle i, ?_⟩
    rw [step, hi]
    exact ⟨_, trivial, rfl⟩
  | ended => cases hgoing
  | lost t => cases hgoing

theorem exists_going (h : r.isOver = false) : ∃ w ∈ r.workers, w.isOver = false := by
  rw [isOver, List.all_eq_false] at h
  obtain ⟨w, hmem, hgoing⟩ := h
  exact ⟨w, hmem, Bool.eq_false_iff.mpr hgoing⟩

/-- **No run gets stuck**: while it is not over there is a step for it, if only it waits long enough,
whatever the answers to its probes are. -/
theorem exists_step (f : String → Nat → Reply) (h : r.isOver = false) :
    ∃ clock, ∀ m s, clock ≤ m.clock → ∃ l next, r.Answers f l ∧ r.step m s l = some next := by
  obtain ⟨w, hmem, hgoing⟩ := exists_going h
  obtain ⟨i, hi⟩ := List.getElem?_of_mem hmem
  refine ⟨w.due?.getD 0, ?_⟩
  intro m s hclock
  refine exists_step_of_going f hi hgoing ?_ s
  intro due hdue
  rw [hdue] at hclock
  exact hclock

end Run

end FleetHealth
