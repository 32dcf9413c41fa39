import FleetHealth.Proofs.Probe.Attempt
import FleetHealth.Proofs.Run.Results
import Mathlib.Data.List.Chain
/-!
# The pool of workers

Who does what, and when, is written down in a log, by a clock that never goes back. A target is in the
hands of one worker from the moment it is taken, so the log says of each target what one worker did with
it: probes that follow each other, each some time after the answer to the one before.

* `Run.Acts`, `Run.acts_of_step` — what a step does to the worker that takes it.
* `Run.Orderly`, `Run.Timed.orderly` — where each worker stands is what the log says of its target.
* `Run.pool_is_safe` — what the pool of a run can be relied on for, in every state.
-/

namespace FleetHealth

/-- What happened to a target, with the worker that did it and the time on the clock. -/
structure LogEntry where
  worker : Nat
  clock : Nat
  what : Happening
  deriving DecidableEq, Repr

/-- The worker that takes a step. -/
def RunLabel.worker : RunLabel → Nat
  | .take w => w
  | .send w _ => w
  | .receive w => w
  | .resume w => w
  | .settle w => w

/-- Whether a probe begins or ends. -/
def Deed.isProbe : Deed → Bool
  | .sent _ => true
  | .answered _ _ => true
  | _ => false

/-- What a log says about the probes of a target. -/
def probesOf (log : List LogEntry) (t : Target) : List LogEntry :=
  log.filter fun e => e.what.deed.isProbe && decide (e.what.target = t)

/-- Whether one entry about the probes of a target may come right after another: a probe ends before the
next one begins, and that begins no sooner than a delay after the answer. -/
inductive Succeeds (delay : Nat) : LogEntry → LogEntry → Prop
  | answer {w sent clock number : Nat} {t : Target} {reply : Reply} : sent ≤ clock →
    Succeeds delay ⟨w, sent, ⟨t, .sent number⟩⟩ ⟨w, clock, ⟨t, .answered number reply⟩⟩
  | retry {w answered clock number : Nat} {t : Target} {reply : Reply} : answered + delay ≤ clock →
    Succeeds delay ⟨w, answered, ⟨t, .answered number reply⟩⟩ ⟨w, clock, ⟨t, .sent (number + 1)⟩⟩

/-- Whether the probes of a target follow each other as they should, from the first attempt on. -/
structure Spaced (delay : Nat) (probes : List LogEntry) : Prop where
  chain : probes.IsChain (Succeeds delay)
  first : ∀ e ∈ probes.head?, e.what.deed = .sent 1

/-- Whether an entry may come after others about the probes of a target. -/
structure Continues (delay : Nat) (probes : List LogEntry) (e : LogEntry) : Prop where
  first : probes = [] → e.what.deed = .sent 1
  next : ∀ last ∈ probes.getLast?, Succeeds delay last e

theorem spaced_nil {delay : Nat} : Spaced delay [] := by
  refine ⟨.nil, ?_⟩
  intro e he
  cases he

theorem continues_nil {delay : Nat} {e : LogEntry} (h : e.what.deed = .sent 1) : Continues delay [] e := by
  refine ⟨fun _ => h, ?_⟩
  intro last hlast
  cases hlast

theorem Spaced.concat {delay : Nat} {probes : List LogEntry} {e : LogEntry} (h : Spaced delay probes)
    (he : Continues delay probes e) : Spaced delay (probes ++ [e]) := by
  constructor
  · rw [List.isChain_append]
    refine ⟨h.chain, List.isChain_singleton e, ?_⟩
    intro last hlast first hfirst
    cases hfirst
    exact he.next last hlast
  · intro first hfirst
    cases probes with
    | nil =>
      cases hfirst
      exact he.first rfl
    | cons e' rest => exact h.first first hfirst

@[simp] theorem probesOf_append (log log' : List LogEntry) (t : Target) :
    probesOf (log ++ log') t = probesOf log t ++ probesOf log' t :=
  List.filter_append ..

theorem probesOf_single_ne {e : LogEntry} {t : Target} (h : e.what.target ≠ t) : probesOf [e] t = [] := by
  simp [probesOf, h]

theorem probesOf_concat_probe {log : List LogEntry} {e : LogEntry} (h : e.what.deed.isProbe) :
    probesOf (log ++ [e]) e.what.target = probesOf log e.what.target ++ [e] := by
  rw [probesOf_append]
  simp [probesOf, h]

theorem probesOf_concat_other {log : List LogEntry} {e : LogEntry} (h : e.what.deed.isProbe = false)
    (t : Target) : probesOf (log ++ [e]) t = probesOf log t := by
  rw [probesOf_append]
  simp [probesOf, h]

/-- Where a worker may stand, given what the log says about its target. -/
def Worker.Stands (delay : Nat) (log : List LogEntry) (clock w : Nat) : Worker → Prop
  | .poised t a => ∀ c, clock ≤ c → Continues delay (probesOf log t) ⟨w, c, ⟨t, .sent a.number⟩⟩
  | .probing t a sent _ => (probesOf log t).getLast? = some ⟨w, sent, ⟨t, .sent a.number⟩⟩
  | .pausing t a wake => ∀ c, wake ≤ c → Continues delay (probesOf log t) ⟨w, c, ⟨t, .sent a.number⟩⟩
  | .lost t => ∃ c number latency, ⟨w, c, ⟨t, .answered number ⟨latency, none⟩⟩⟩ ∈ log
  | _ => True

/-- A worker stands where it did as long as nothing is said about its target. -/
theorem Worker.Stands.mono {delay clock clock' w : Nat} {log log' : List LogEntry} {state : Worker}
    (h : state.Stands delay log clock w) (hclock : clock ≤ clock') (hlog : log ⊆ log')
    (hprobes : ∀ t, state.target? = some t → probesOf log' t = probesOf log t) :
    state.Stands delay log' clock' w := by
  cases state with
  | poised t a =>
    show ∀ c, clock' ≤ c → Continues delay (probesOf log' t) ⟨w, c, ⟨t, .sent a.number⟩⟩
    rw [hprobes t rfl]
    exact fun c hc => h c (Nat.le_trans hclock hc)
  | probing t a sent reply =>
    show (probesOf log' t).getLast? = some ⟨w, sent, ⟨t, .sent a.number⟩⟩
    rw [hprobes t rfl]
    exact h
  | pausing t a wake =>
    show ∀ c, wake ≤ c → Continues delay (probesOf log' t) ⟨w, c, ⟨t, .sent a.number⟩⟩
    rw [hprobes t rfl]
    exact h
  | lost t =>
    obtain ⟨c, number, latency, hmem⟩ := h
    exact ⟨c, number, latency, hlog hmem⟩
  | free => trivial
  | checked t result => trivial
  | ended => trivial

/-- After an answer a worker stands where the policy puts it. -/
theorem Worker.stands_answered {p : PolicySnapshot} {t : Target} {a : Attempt} {sent clock w : Nat}
    {reply : Reply} {log : List LogEntry}
    (hlast : (probesOf log t).getLast?
      = some ⟨w, clock, ⟨t, .answered a.number ⟨clock - sent, reply.outcome⟩⟩⟩)
    (hmem : ⟨w, clock, ⟨t, .answered a.number ⟨clock - sent, reply.outcome⟩⟩⟩ ∈ log) :
    (Worker.answered p t a sent clock reply).Stands p.tryDelay.toNat log clock w := by
  unfold answered
  split
  · rename_i houtcome
    rw [houtcome] at hmem
    exact ⟨clock, a.number, clock - sent, hmem⟩
  · split
    · trivial
    · rename_i next hafter
      obtain ⟨hnumber, -⟩ := Attempt.after_eq_again hafter
      -- the next attempt may be sent once the delay has passed
      have hnext : ∀ c, clock + p.tryDelay.toNat ≤ c →
          Continues p.tryDelay.toNat (probesOf log t) ⟨w, c, ⟨t, .sent next.number⟩⟩ := by
        intro c hc
        refine ⟨?_, ?_⟩
        · intro hnil
          rw [hnil] at hlast
          cases hlast
        · intro last hmem
          rw [hlast] at hmem
          cases hmem
          rw [hnumber]
          exact .retry hc
      split
      · rename_i hdelay
        intro c hc
        apply hnext
        rw [hdelay]
        exact hc
      · exact hnext

namespace Run

/-! ## One step -/

/-- What a step does to the worker that takes it and to the queue. -/
inductive Acts (m : Moment) (r : Run) (w : Nat) : List Happening → Worker → List Target → Prop
  | takes {t : Target} {rest : List Target} : r.workers[w]? = some .free → r.queue = t :: rest →
    Acts m r w [⟨t, .taken⟩] (.poised t {}) rest
  | ends : r.workers[w]? = some .free → r.queue = [] → Acts m r w [] .ended r.queue
  | sends {t : Target} {a : Attempt} {reply : Reply} : r.workers[w]? = some (.poised t a) →
    Acts m r w [⟨t, .sent a.number⟩] (.probing t a m.clock reply) r.queue
  | receives {t : Target} {a : Attempt} {sent : Nat} {reply : Reply} :
    r.workers[w]? = some (.probing t a sent reply) → sent + reply.latency ≤ m.clock →
    Acts m r w [⟨t, .answered a.number ⟨m.clock - sent, reply.outcome⟩⟩]
      (.answered r.settings.policy t a sent m.clock reply) r.queue
  | resumes {t : Target} {a : Attempt} {wake : Nat} : r.workers[w]? = some (.pausing t a wake) →
    wake ≤ m.clock → Acts m r w [] (.poised t a) r.queue
  | settles {t : Target} {result : CheckResult} : r.workers[w]? = some (.checked t result) →
    Acts m r w [⟨t, .settled result⟩] .free r.queue

theorem acts_of_step {m : Moment} {s s' : Store} {r r' : Run} {l : RunLabel}
    (h : r.step m s l = some (s', r')) :
    ∃ new, Acts m r l.worker (r.happening? m l).toList new r'.queue
      ∧ r'.workers = r.workers.set l.worker new := by
  cases l with
  | take w =>
    rw [step] at h
    split at h
    · rename_i hw hqueue
      cases h
      rw [happening?, hw, hqueue]
      exact ⟨_, .ends hw hqueue, rfl⟩
    · rename_i hw hqueue
      cases h
      rw [happening?, hw, hqueue]
      exact ⟨_, .takes hw hqueue, rfl⟩
    · cases h
  | send w reply =>
    rw [step] at h
    split at h
    · rename_i hw
      cases h
      rw [happening?, hw]
      exact ⟨_, .sends hw, rfl⟩
    · cases h
  | receive w =>
    rw [step] at h
    split at h
    · rename_i hw
      split at h
      · rename_i hclock
        cases h
        rw [happening?, hw]
        exact ⟨_, .receives hw hclock, rfl⟩
      · cases h
    · cases h
  | resume w =>
    rw [step] at h
    split at h
    · rename_i hw
      split at h
      · rename_i hclock
        cases h
        exact ⟨_, .resumes hw hclock, rfl⟩
      · cases h
    · cases h
  | settle w =>
    rw [step] at h
    split at h
    · rename_i hw
      cases h
      rw [happening?, hw]
      exact ⟨_, .settles hw, rfl⟩
    · cases h

/-! ## The log of a run -/

/-- The runs from a store on by a clock that never goes back, in which others may change the store: the
log, the time of its last step, and where it led. -/
inductive Timed (others : Store → Store → Prop) (s₀ : Store) (r₀ : Run) :
    List LogEntry → Nat → Store → Run → Prop
  | start {clock : Nat} : Timed others s₀ r₀ [] clock s₀ r₀
  | step {m : Moment} {l : RunLabel} {log : List LogEntry} {clock : Nat} {s s' : Store} {r r' : Run} :
    Timed others s₀ r₀ log clock s r → clock ≤ m.clock → r.step m s l = some (s', r') →
    Timed others s₀ r₀ (log ++ (r.happening? m l).toList.map fun x => ⟨l.worker, m.clock, x⟩)
      m.clock s' r'
  | other {log : List LogEntry} {clock : Nat} {s s' : Store} {r : Run} :
    Timed others s₀ r₀ log clock s r → others s s' → Timed others s₀ r₀ log clock s' r

variable {others : Store → Store → Prop} {s₀ s : Store} {r₀ r : Run} {log : List LogEntry} {clock : Nat}

/-- A log without workers and times is a history. -/
theorem Timed.course (h : Timed others s₀ r₀ log clock s r) :
    Course others s₀ r₀ (log.map (·.what)) s r := by
  induction h with
  | start => exact .start
  | step _ _ hstep ih =>
    have hcourse := ih.step hstep
    rw [List.map_append, List.map_map]
    simpa only [Function.comp_def, List.map_id'] using hcourse
  | other _ hother ih => exact ih.other hother

/-- Whether workers and queue are as a log says. -/
structure Orderly (delay : Nat) (log : List LogEntry) (clock : Nat) (workers : List Worker)
    (queue : List Target) : Prop where
  /-- Nothing has happened to a target in the queue. -/
  untouched : ∀ t ∈ queue, ∀ e ∈ log, e.what.target ≠ t
  /-- Whatever has happened to a target in a worker's hands was that worker's doing. -/
  inHand : ∀ (w : Nat) (state : Worker) (t : Target), workers[w]? = some state → state.target? = some t →
    (∃ e ∈ log, e.what.target = t) ∧ ∀ e ∈ log, e.what.target = t → e.worker = w
  /-- No target was in the hands of two workers. -/
  oneHand : ∀ e ∈ log, ∀ e' ∈ log, e.what.target = e'.what.target → e.worker = e'.worker
  spaced : ∀ t, Spaced delay (probesOf log t)
  stands : ∀ (w : Nat) (state : Worker), workers[w]? = some state → state.Stands delay log clock w

namespace Orderly

variable {delay clock' w : Nat} {workers : List Worker} {queue queue' : List Target} {old new : Worker}
  {x : Happening}

theorem getElem?_set_cases {i : Nat} {state : Worker} (h : (workers.set w new)[i]? = some state) :
    i = w ∧ state = new ∨ i ≠ w ∧ workers[i]? = some state := by
  by_cases hi : w = i
  · subst hi
    rw [List.getElem?_set_self'] at h
    obtain ⟨-, -, rfl⟩ := Option.map_eq_some_iff.mp h
    exact .inl ⟨rfl, rfl⟩
  · rw [List.getElem?_set_ne hi] at h
    exact .inr ⟨Ne.symm hi, h⟩

/-- A target is in the hands of one worker. -/
theorem eq_of_target? (h : Orderly delay log clock workers queue) {i j : Nat} {a b : Worker} {t : Target}
    (hi : workers[i]? = some a) (hj : workers[j]? = some b) (ha : a.target? = some t)
    (hb : b.target? = some t) : i = j := by
  obtain ⟨⟨e, he, ht⟩, hall⟩ := h.inHand i a t hi ha
  rw [← hall e he ht]
  exact (h.inHand j b t hj hb).2 e he ht

/-- A worker that says nothing about its target goes on in order. -/
theorem idle (h : Orderly delay log clock workers queue) (hclock : clock ≤ clock')
    (hold : workers[w]? = some old) (new : Worker)
    (htarget : ∀ t, new.target? = some t → old.target? = some t)
    (hnew : new.Stands delay log clock' w) :
    Orderly delay log clock' (workers.set w new) queue where
  untouched := h.untouched
  inHand i state t hi ht := by
    rcases getElem?_set_cases hi with ⟨rfl, rfl⟩ | ⟨-, hi⟩
    · exact h.inHand i old t hold (htarget t ht)
    · exact h.inHand i state t hi ht
  oneHand := h.oneHand
  spaced := h.spaced
  stands i state hi := by
    rcases getElem?_set_cases hi with ⟨rfl, rfl⟩ | ⟨-, hi⟩
    · exact hnew
    · exact (h.stands i state hi).mono hclock (List.Subset.refl log) fun _ _ => rfl

/-- A worker that does something to a target goes on in order, as long as no one else has to do with
that target. -/
theorem act (h : Orderly delay log clock workers queue) (hclock : clock ≤ clock')
    (hmine : ∀ e ∈ log, e.what.target = x.target → e.worker = w)
    (hothers : ∀ (i : Nat) (state : Worker), i ≠ w → workers[i]? = some state →
      state.target? ≠ some x.target)
    (hqueue : queue' ⊆ queue) (hout : x.target ∉ queue')
    (htarget : ∀ t, new.target? = some t → t = x.target)
    (hspaced : Spaced delay (probesOf (log ++ [⟨w, clock', x⟩]) x.target))
    (hnew : new.Stands delay (log ++ [⟨w, clock', x⟩]) clock' w) :
    Orderly delay (log ++ [⟨w, clock', x⟩]) clock' (workers.set w new) queue' where
  untouched t ht e he := by
    rcases List.mem_append.mp he with he | he
    · exact h.untouched t (hqueue ht) e he
    · rw [List.mem_singleton.mp he]
      rintro rfl
      exact hout ht
  inHand i state t hi ht := by
    rcases getElem?_set_cases hi with ⟨rfl, rfl⟩ | ⟨hne, hi⟩
    · obtain rfl := htarget t ht
      refine ⟨⟨⟨i, clock', x⟩, by simp, rfl⟩, ?_⟩
      intro e he hx
      rcases List.mem_append.mp he with he | he
      · exact hmine e he hx
      · rw [List.mem_singleton.mp he]
    · obtain ⟨⟨e, he, ht'⟩, hall⟩ := h.inHand i state t hi ht
      refine ⟨⟨e, List.mem_append_left _ he, ht'⟩, ?_⟩
      intro e' he' hx
      rcases List.mem_append.mp he' with he' | he'
      · exact hall e' he' hx
      · rw [List.mem_singleton.mp he'] at hx
        exact absurd (hx ▸ ht) (hothers i state hne hi)
  oneHand e he e' he' hx := by
    rcases List.mem_append.mp he with he | he <;> rcases List.mem_append.mp he' with he' | he'
    · exact h.oneHand e he e' he' hx
    · rw [List.mem_singleton.mp he'] at hx ⊢
      exact hmine e he hx
    · rw [List.mem_singleton.mp he] at hx ⊢
      exact (hmine e' he' hx.symm).symm
    · rw [List.mem_singleton.mp he, List.mem_singleton.mp he']
  spaced t := by
    by_cases ht : x.target = t
    · exact ht ▸ hspaced
    · rw [probesOf_append, probesOf_single_ne ht, List.append_nil]
      exact h.spaced t
  stands i state hi := by
    rcases getElem?_set_cases hi with ⟨rfl, rfl⟩ | ⟨hne, hi⟩
    · exact hnew
    · refine (h.stands i state hi).mono hclock (List.subset_append_left _ _) ?_
      intro t ht
      have hx : x.target ≠ t := fun he => hothers i state hne hi (he ▸ ht)
      rw [probesOf_append, probesOf_single_ne hx, List.append_nil]

/-- What a worker does to the target in its hands keeps the pool in order. -/
theorem act_inHand (h : Orderly delay log clock workers queue) (hclock : clock ≤ clock')
    (hold : workers[w]? = some old) (hmine : old.target? = some x.target)
    (htarget : ∀ t, new.target? = some t → t = x.target)
    (hspaced : Spaced delay (probesOf (log ++ [⟨w, clock', x⟩]) x.target))
    (hnew : new.Stands delay (log ++ [⟨w, clock', x⟩]) clock' w) :
    Orderly delay (log ++ [⟨w, clock', x⟩]) clock' (workers.set w new) queue := by
  obtain ⟨⟨e, he, hx⟩, hall⟩ := h.inHand w old x.target hold hmine
  refine h.act hclock hall ?_ (List.Subset.refl queue) ?_ htarget hspaced hnew
  · intro i state hne hi ht
    exact hne (h.eq_of_target? hi hold ht hmine)
  · intro hmem
    exact h.untouched x.target hmem e he hx

/-- **Every step keeps the pool in order.** -/
theorem step {m : Moment} {g : List Happening} {r : Run} {new : Worker} {queue' : List Target}
    (h : Orderly r.settings.policy.tryDelay.toNat log clock r.workers r.queue) (hqueue : r.queue.Nodup)
    (hclock : clock ≤ m.clock) (hacts : Acts m r w g new queue') :
    Orderly r.settings.policy.tryDelay.toNat (log ++ g.map fun x => ⟨w, m.clock, x⟩) m.clock
      (r.workers.set w new) queue' := by
  cases hacts with
  | @takes t rest hw hrest =>
    have ht : t ∈ r.queue := by
      rw [hrest]
      exact List.mem_cons_self
    have huntouched := h.untouched t ht
    have hnone : probesOf log t = [] := by
      rw [probesOf, List.filter_eq_nil_iff]
      intro e he
      simp [huntouched e he]
    have hprobes : probesOf (log ++ [⟨w, m.clock, ⟨t, .taken⟩⟩]) t = [] :=
      (probesOf_concat_other rfl t).trans hnone
    rw [hrest] at hqueue
    refine h.act (x := ⟨t, .taken⟩) hclock ?_ ?_ ?_ (List.nodup_cons.mp hqueue).1 ?_ ?_ ?_
    · intro e he hx
      exact absurd hx (huntouched e he)
    · intro i state _ hi hx
      obtain ⟨⟨e, he, hx⟩, -⟩ := h.inHand i state t hi hx
      exact huntouched e he hx
    · rw [hrest]
      exact List.subset_cons_self t queue'
    · rintro _ ⟨⟩
      rfl
    · rw [hprobes]
      exact spaced_nil
    · intro c _
      rw [hprobes]
      exact continues_nil rfl
  | ends hw hempty =>
    have hidle := h.idle hclock hw .ended (fun t ht => by cases ht) trivial
    simpa only [List.map_nil, List.append_nil] using hidle
  | @sends t a reply hw =>
    have hprobes : probesOf (log ++ [⟨w, m.clock, ⟨t, .sent a.number⟩⟩]) t
        = probesOf log t ++ [⟨w, m.clock, ⟨t, .sent a.number⟩⟩] := probesOf_concat_probe rfl
    have hstands := h.stands w (.poised t a) hw m.clock hclock
    refine h.act_inHand (x := ⟨t, .sent a.number⟩) hclock hw rfl ?_ ?_ ?_
    · rintro _ ⟨⟩
      rfl
    · rw [hprobes]
      exact (h.spaced t).concat hstands
    · show (probesOf _ t).getLast? = _
      rw [hprobes, List.getLast?_concat]
  | @receives t a sent reply hw hdue =>
    have hprobes : probesOf (log
          ++ [⟨w, m.clock, ⟨t, .answered a.number ⟨m.clock - sent, reply.outcome⟩⟩⟩]) t
        = probesOf log t
          ++ [⟨w, m.clock, ⟨t, .answered a.number ⟨m.clock - sent, reply.outcome⟩⟩⟩] :=
      probesOf_concat_probe rfl
    have hlast : (probesOf log t).getLast? = some ⟨w, sent, ⟨t, .sent a.number⟩⟩ :=
      h.stands w (.probing t a sent reply) hw
    refine h.act_inHand (x := ⟨t, .answered a.number ⟨m.clock - sent, reply.outcome⟩⟩) hclock hw rfl
      ?_ ?_ ?_
    · intro t' ht'
      rw [target?_answered] at ht'
      exact (Option.some.inj ht').symm
    · rw [hprobes]
      refine (h.spaced t).concat ⟨?_, ?_⟩
      · intro hnil
        rw [hnil] at hlast
        cases hlast
      · intro last hmem
        rw [hlast] at hmem
        cases hmem
        exact .answer (by omega)
    · apply Worker.stands_answered
      · rw [hprobes, List.getLast?_concat]
      · simp
  | @resumes t a wake hw hwake =>
    have hstands := h.stands w (.pausing t a wake) hw
    have hidle := h.idle hclock hw (.poised t a) (fun _ => id) fun c hc =>
      hstands c (Nat.le_trans hwake hc)
    simpa only [List.map_nil, List.append_nil] using hidle
  | @settles t result hw =>
    refine h.act_inHand (x := ⟨t, .settled result⟩) hclock hw rfl (fun t ht => by cases ht) ?_ trivial
    rw [probesOf_concat_other rfl]
    exact h.spaced t

end Orderly

/-- **The pool of a run is in order** in every state. -/
theorem Timed.orderly (h : Timed others s₀ r₀ log clock s r) (hr₀ : r₀.Fresh)
    (hqueue : r₀.queue.Nodup) :
    Orderly r₀.settings.policy.tryDelay.toNat log clock r.workers r.queue := by
  induction h with
  | start =>
    refine ⟨?_, ?_, ?_, fun t => spaced_nil, ?_⟩
    · intro t _ e he
      exact absurd he List.not_mem_nil
    · intro w state t hw ht
      rw [hr₀.eq_free (List.mem_of_getElem? hw)] at ht
      cases ht
    · intro e he
      exact absurd he List.not_mem_nil
    · intro w state hw
      rw [hr₀.eq_free (List.mem_of_getElem? hw)]
      trivial
  | @step m l log clock s s' r r' hrun hclock hstep ih =>
    have hledger := hrun.course.ledger hr₀
    obtain ⟨new, hacts, hworkers⟩ := acts_of_step hstep
    have hnodup : r.queue.Nodup := by
      rw [← hledger.queue] at hqueue
      exact (List.nodup_append.mp hqueue).2.1
    rw [← hledger.settings] at ih ⊢
    rw [hworkers]
    exact ih.step hnodup hclock hacts
  | other _ _ ih => exact ih

/-! ## What the pool can be relied on for -/

/-- What holds of the workers of a run in every state, whatever the policy, the answers to the probes
and the order in which the workers take their steps. -/
structure PoolSafe (resolved : Resolved) (poolSize : Nat) (log : List LogEntry) (r : Run) : Prop where
  /-- No more targets are in hand than the pool allows. -/
  bounded : r.held.length ≤ min (max poolSize 1) (addressed resolved.targets).length
  /-- Targets leave the queue from its front, and never come back. -/
  order : takenOf (log.map (·.what)) ++ r.queue = addressed resolved.targets
  /-- They stand in it in the order of their nodes; in particular, none stands in it twice. -/
  ascending : (addressed resolved.targets).Pairwise fun t t' => t.node.id < t'.node.id
  /-- Whatever happens to a target is the doing of one worker. -/
  oneHand : ∀ e ∈ log, ∀ e' ∈ log, e.what.target = e'.what.target → e.worker = e'.worker
  /-- The probes of a target do not overlap, and wait for the delay of the policy. -/
  spaced : ∀ t, Spaced resolved.policy.tryDelay.toNat (probesOf log t)
  /-- A worker that is over found the queue empty, or was brought down by a probe of its own. -/
  exits : ∀ (w : Nat) (state : Worker), r.workers[w]? = some state → state.isOver →
    r.queue = []
      ∨ ∃ clock t number latency, ⟨w, clock, ⟨t, .answered number ⟨latency, none⟩⟩⟩ ∈ log
  /-- A worker that has finished its target settles it and is free, whatever the others do. -/
  finishes : ∀ w t result, r.workers[w]? = some (.checked t result) → ∀ m s, ∃ s' r',
    r.step m s (.settle w) = some (s', r') ∧ r'.workers = r.workers.set w .free ∧ r'.queue = r.queue
  /-- A free worker takes the next target, whatever the others do. -/
  takes : ∀ w t rest, r.workers[w]? = some .free → r.queue = t :: rest → ∀ m s, ∃ r',
    r.step m s (.take w) = some (s, r') ∧ r'.workers = r.workers.set w (.poised t {}) ∧ r'.queue = rest

theorem length_held_le (r : Run) : r.held.length ≤ r.workers.length :=
  List.length_filterMap_le ..

theorem step_settle {w : Nat} {t : Target} {result : CheckResult}
    (hw : r.workers[w]? = some (.checked t result)) (m : Moment) (s : Store) :
    ∃ s' r', r.step m s (.settle w) = some (s', r') ∧ r'.workers = r.workers.set w .free
      ∧ r'.queue = r.queue := by
  simp only [step, hw]
  exact ⟨_, _, rfl, rfl, rfl⟩

theorem step_take {w : Nat} {t : Target} {rest : List Target} (hw : r.workers[w]? = some .free)
    (hqueue : r.queue = t :: rest) (m : Moment) (s : Store) :
    ∃ r', r.step m s (.take w) = some (s, r') ∧ r'.workers = r.workers.set w (.poised t {})
      ∧ r'.queue = rest := by
  simp only [step, hw, hqueue]
  exact ⟨_, rfl, rfl, rfl⟩

/-- **The pool of a run is safe** in every state that the run can reach from a well-formed store. -/
theorem pool_is_safe {clusterId : UInt64} {resolved : Resolved} {poolSize : Nat} {mode : TrackingMode}
    {handlers : List Handler} {ledger : Option Store} (hs : s₀.WellFormed)
    (hresolve : s₀.resolve clusterId = .ok resolved)
    (hrun : Timed others s₀ (start resolved poolSize mode handlers ledger) log clock s r) :
    PoolSafe resolved poolSize log r := by
  have hfresh := fresh_start resolved poolSize mode handlers ledger
  have hledger := hrun.course.ledger hfresh
  have hdistinct := distinct_start hs.keyed hresolve poolSize mode handlers ledger
  have horderly := hrun.orderly hfresh hdistinct.nodup
  refine ⟨?_, hledger.queue, ?_, horderly.oneHand, horderly.spaced, ?_, ?_, ?_⟩
  · refine Nat.le_trans r.length_held_le ?_
    rw [hledger.workers]
    exact Nat.le_of_eq List.length_replicate
  · rw [(Store.resolve_eq_ok hresolve).2]
    exact Store.pairwise_node_lt_addressed hs.keyed clusterId
  · intro w state hw hover
    cases state with
    | ended => exact .inl (hledger.ended (List.mem_of_getElem? hw))
    | lost t =>
      obtain ⟨c, number, latency, hmem⟩ := horderly.stands w (.lost t) hw
      exact .inr ⟨c, t, number, latency, hmem⟩
    | _ => cases hover
  · exact fun w t result hw => step_settle hw
  · exact fun w t rest hw hqueue => step_take hw hqueue

/-- What the log says when the only worker of a run is brought down by its first target. -/
def lossLog : List LogEntry :=
  lossHistory.map fun x => ⟨0, 0, x⟩

theorem timed_lossRun :
    Timed (fun _ _ => False) smallStore (start smallPlan 1 .address standardPipeline none) lossLog 0
      smallStore lossRun := by
  have htaken := Timed.step (m := ⟨0, 0⟩) (l := .take 0)
    (.start : Timed (fun _ _ => False) smallStore (start smallPlan 1 .address standardPipeline none)
      [] 0 smallStore _) (Nat.le_refl 0) rfl
  have hsent := htaken.step (m := ⟨0, 0⟩) (l := .send 0 ⟨0, none⟩) (Nat.le_refl 0) rfl
  exact hsent.step (m := ⟨0, 0⟩) (l := .receive 0) (Nat.le_refl 0) rfl

theorem pool_is_safe_lossRun : PoolSafe smallPlan 1 lossLog lossRun :=
  pool_is_safe Store.wellFormed_smallStore Store.resolve_smallStore timed_lossRun

end Run

end FleetHealth
