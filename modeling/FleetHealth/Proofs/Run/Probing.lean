import FleetHealth.Proofs.Probe.Attempt
import FleetHealth.Proofs.Run.Course
/-!
# The answers behind a result

A worker that checks a target retries as `checkCourse` does: whatever it still has to do is the rest of
the course that the answers to its probes prescribe. So the result that is settled is the result of that
course, and a worker is lost where that course has none.

* `Run.Course.follows` — the workers of a run follow the answers that they are given.
* `Run.Course.agrees_repliesTo` — no attempt is answered twice, so a history says what was answered.
-/

namespace FleetHealth

variable {p : PolicySnapshot} {t : Target} {a : Attempt}

/-! ## Workers that follow a prober -/

/-- Whether a worker stands where the answers of a prober have led it. -/
def Worker.Follows (p : PolicySnapshot) (f : Target → Nat → Reply) : Worker → Prop
  | .poised t a => a.number ≤ p.maxAttempts.toNat ∧ a.rest p (f t) = (checkCourse p (f t)).result
  | .probing t a _ _ => a.number ≤ p.maxAttempts.toNat ∧ a.rest p (f t) = (checkCourse p (f t)).result
  | .pausing t a _ => a.number ≤ p.maxAttempts.toNat ∧ a.rest p (f t) = (checkCourse p (f t)).result
  | .checked t result => (checkCourse p (f t)).result = some result
  | .lost t => (checkCourse p (f t)).result = none
  | .free => True
  | .ended => True

/-- The attempt that a worker is at, and its target. -/
def Worker.attempt? : Worker → Option (Target × Attempt)
  | .poised t a => some (t, a)
  | .probing t a _ _ => some (t, a)
  | .pausing t a _ => some (t, a)
  | _ => none

theorem Worker.target?_of_attempt? {w : Worker} (h : w.attempt? = some (t, a)) : w.target? = some t := by
  cases w <;> cases h <;> rfl

/-- An answer is followed by the next attempt, if by any. -/
theorem Worker.attempt?_answered {sent clock : Nat} {reply : Reply} {t' : Target} {a' : Attempt}
    (h : (Worker.answered p t a sent clock reply).attempt? = some (t', a')) :
    t' = t ∧ a'.number = a.number + 1 := by
  unfold answered at h
  split at h
  · cases h
  · split at h
    · cases h
    · rename_i next hafter
      obtain ⟨hnumber, -⟩ := Attempt.after_eq_again hafter
      split at h <;> cases h <;> exact ⟨rfl, hnumber⟩

/-- An answer of the prober leads a worker on. -/
theorem Worker.follows_answered {f : Target → Nat → Reply} {sent clock : Nat} {reply : Reply}
    (ha : a.number ≤ p.maxAttempts.toNat) (hrest : a.rest p (f t) = (checkCourse p (f t)).result)
    (hf : f t a.number = ⟨clock - sent, reply.outcome⟩) :
    (Worker.answered p t a sent clock reply).Follows p f := by
  rw [Attempt.rest_of_le ha, hf] at hrest
  unfold answered
  split
  · rename_i houtcome
    rw [houtcome] at hrest
    exact hrest.symm
  · rename_i o houtcome
    rw [houtcome] at hrest
    simp only at hrest
    cases hafter : a.after p (clock - sent) o with
    | done result =>
      rw [hafter] at hrest
      exact hrest.symm
    | again next =>
      rw [hafter] at hrest
      obtain ⟨hnumber, hlt⟩ := Attempt.after_eq_again hafter
      have hnext : next.number ≤ p.maxAttempts.toNat := by omega
      simp only
      -- at once or after a pause, the rest of the course is the same
      split
      · exact ⟨hnext, hrest⟩
      · exact ⟨hnext, hrest⟩

namespace Run

/-- Whether every answer of a history is that of a prober. -/
def Agrees (f : Target → Nat → Reply) (h : List Happening) : Prop :=
  ∀ t number reply, ⟨t, .answered number reply⟩ ∈ h → f t number = reply

/-- Whether the workers of a run stand where a prober has led them, and have settled what it said. -/
structure Follows (f : Target → Nat → Reply) (h : List Happening) (r : Run) : Prop where
  workers : ∀ w ∈ r.workers, w.Follows r.settings.policy f
  settled : ∀ x ∈ settledOf h, (checkCourse r.settings.policy (f x.1)).result = some x.2

variable {f : Target → Nat → Reply} {r₀ r r' : Run} {h g : List Happening} {s₀ s s' : Store}
  {m : Moment} {before after : List Worker} {old new : Worker}

theorem forall_mem_replace {P : Worker → Prop} (h : ∀ w ∈ before ++ old :: after, P w) (hnew : P new) :
    ∀ w ∈ before ++ new :: after, P w := by
  intro w hw
  rcases List.mem_append.mp hw with hw | hw
  · exact h w (List.mem_append_left _ hw)
  · rcases List.mem_cons.mp hw with rfl | hw
    · exact hnew
    · exact h w (List.mem_append_right _ (List.mem_cons_of_mem _ hw))

/-- A worker that goes on without settling keeps a run on the way of the prober. -/
theorem Follows.replace (hr : Follows f h r) (hworkers : r.workers = before ++ old :: after)
    (new : Worker) (hnew : old.Follows r.settings.policy f → new.Follows r.settings.policy f)
    (queue : List Target) (g : List Happening) (hsettled : settledOf g = []) :
    Follows f (h ++ g) { r with queue, workers := before ++ new :: after } where
  workers := by
    have hall := hr.workers
    rw [hworkers] at hall
    exact forall_mem_replace hall (hnew (hall old (by simp)))
  settled := by
    rw [settledOf_append, hsettled, List.append_nil]
    exact hr.settled

theorem Follows.step (hmax : 1 ≤ r.settings.policy.maxAttempts.toNat) (hf : Agrees f (h ++ g))
    (hr : Follows f h r) (hmoves : r.Moves m s g s' r') : Follows f (h ++ g) r' := by
  cases hmoves with
  | @takes before after t rest hworkers _ =>
    exact hr.replace hworkers (.poised t {}) (fun _ => ⟨hmax, Attempt.rest_first _ _⟩) rest _ rfl
  | ends hworkers _ => exact hr.replace hworkers .ended (fun _ => trivial) r.queue _ rfl
  | @sends before after t a reply hworkers =>
    exact hr.replace hworkers (.probing t a m.clock reply) id r.queue _ rfl
  | @receives before after t a sent reply hworkers _ =>
    have hanswer := hf t a.number ⟨m.clock - sent, reply.outcome⟩ (by simp)
    exact hr.replace hworkers _ (fun hold => Worker.follows_answered hold.1 hold.2 hanswer) r.queue _ rfl
  | @resumes before after t a wake hworkers _ =>
    exact hr.replace hworkers (.poised t a) id r.queue _ rfl
  | @settles before after t result report s' ledger hworkers _ =>
    have hall := hr.workers
    rw [hworkers] at hall
    have hresult : (checkCourse r.settings.policy (f t)).result = some result :=
      hall (.checked t result) (by simp)
    refine ⟨forall_mem_replace hall trivial, ?_⟩
    intro x hx
    rw [settledOf_append] at hx
    rcases List.mem_append.mp hx with hx | hx
    · exact hr.settled x hx
    · rw [List.mem_singleton.mp hx]
      exact hresult

/-- **The workers of a run follow the answers that they are given.** -/
theorem Course.follows {others : Store → Store → Prop} (hcourse : Course others s₀ r₀ h s r)
    (hr₀ : r₀.Fresh) (hmax : 1 ≤ r₀.settings.policy.maxAttempts.toNat) (hf : Agrees f h) :
    Follows f h r := by
  induction hcourse with
  | start =>
    refine ⟨?_, fun x hx => absurd hx List.not_mem_nil⟩
    intro w hw
    rw [hr₀.eq_free hw]
    trivial
  | step hcourse hstep ih =>
    rw [← (hcourse.ledger hr₀).settings] at hmax
    exact (ih fun t number reply hmem => hf t number reply (List.mem_append_left _ hmem)).step hmax hf
      (moves_of_step hstep)
  | other _ _ ih => exact ih hf

/-! ## Answers in a history -/

/-- The answers that a history holds for a target, with the numbers of their attempts. -/
def answersTo (h : List Happening) (t : Target) : List (Nat × Reply) :=
  h.filterMap fun x => match x.deed with
    | .answered number reply => if x.target = t then some (number, reply) else none
    | _ => none

/-- The prober that a history shows: the answer to each attempt on a target, as far as there is one. -/
def repliesTo (h : List Happening) (t : Target) (number : Nat) : Reply :=
  ((answersTo h t).lookup number).getD default

@[simp] theorem answersTo_append (h g : List Happening) (t : Target) :
    answersTo (h ++ g) t = answersTo h t ++ answersTo g t :=
  List.filterMap_append

theorem mem_answersTo {number : Nat} {reply : Reply} :
    (number, reply) ∈ answersTo h t ↔ ⟨t, .answered number reply⟩ ∈ h := by
  rw [answersTo, List.mem_filterMap]
  constructor
  · rintro ⟨⟨t', deed⟩, hmem, hx⟩
    cases deed with
    | answered number' reply' =>
      simp only at hx
      split at hx
      · rename_i ht
        cases hx
        exact ht ▸ hmem
      · cases hx
    | _ => cases hx
  · intro hmem
    exact ⟨_, hmem, by simp⟩

theorem answersTo_single_ne {t' : Target} {deed : Deed} (ht : t ≠ t') :
    answersTo [⟨t, deed⟩] t' = [] := by
  cases deed <;> simp [answersTo, ht]

/-- Whether attempts were answered one after the other, each at most once. -/
structure InOrder (h : List Happening) (r : Run) : Prop where
  increasing : ∀ t, (answersTo h t).Pairwise fun x y => x.1 < y.1
  before : ∀ w ∈ r.workers, ∀ t a, w.attempt? = some (t, a) → ∀ x ∈ answersTo h t, x.1 < a.number
  queue : ∀ t ∈ r.queue, answersTo h t = []

/-- No target is in two hands. -/
theorem Ledger.nodup (hr : Ledger r₀ h r) (hqueue : r₀.queue.Nodup) : (r.held ++ r.queue).Nodup := by
  rw [← hr.queue] at hqueue
  have hall : (((settledOf h).map (·.1) ++ r.held) ++ r.queue).Nodup :=
    (hr.held.append_right r.queue).nodup_iff.mpr hqueue
  rw [List.append_assoc] at hall
  exact (List.nodup_append.mp hall).2.1

/-- A worker that is not answered keeps the answers in order. -/
theorem InOrder.replace (hr : InOrder h r) (hworkers : r.workers = before ++ old :: after)
    (hworkers' : r'.workers = before ++ new :: after) (hqueue : r'.queue ⊆ r.queue)
    (hnew : ∀ t a, new.attempt? = some (t, a) → ∀ x ∈ answersTo h t, x.1 < a.number)
    (hg : ∀ t, answersTo g t = []) : InOrder (h ++ g) r' := by
  have hanswers (t : Target) : answersTo (h ++ g) t = answersTo h t := by
    rw [answersTo_append, hg, List.append_nil]
  have hall := hr.before
  rw [hworkers] at hall
  refine ⟨?_, ?_, ?_⟩
  · intro t
    rw [hanswers]
    exact hr.increasing t
  · simp only [hanswers, hworkers']
    exact forall_mem_replace hall hnew
  · intro t ht
    rw [hanswers]
    exact hr.queue t (hqueue ht)

theorem InOrder.receive {a : Attempt} {sent : Nat} {reply reply' : Reply} (hr : InOrder h r)
    (hnodup : (r.held ++ r.queue).Nodup) (hworkers : r.workers = before ++ .probing t a sent reply :: after) :
    InOrder (h ++ [⟨t, .answered a.number reply'⟩])
      { r with workers := before ++ .answered r.settings.policy t a sent m.clock reply :: after } := by
  have hall := hr.before
  have hnumbers : ∀ x ∈ answersTo h t, x.1 < a.number :=
    hall (.probing t a sent reply) (by rw [hworkers]; simp) t a rfl
  have hsame : answersTo (h ++ [⟨t, .answered a.number reply'⟩]) t
      = answersTo h t ++ [(a.number, reply')] := by
    rw [answersTo_append]
    simp [answersTo]
  have hother {t' : Target} (ht : t ≠ t') :
      answersTo (h ++ [⟨t, .answered a.number reply'⟩]) t' = answersTo h t' := by
    rw [answersTo_append, answersTo_single_ne ht, List.append_nil]
  rw [held_eq hworkers] at hnodup
  -- the target is in the hands of this worker only
  have halone {w : Worker} (hw : w ∈ before ++ after) (t' : Target) (ht : w.target? = some t') :
      t ≠ t' := by
    rintro rfl
    have hmem : t ∈ (before ++ after).filterMap Worker.target? := List.mem_filterMap.mpr ⟨w, hw, ht⟩
    obtain ⟨-, hafter, hbefore⟩ := List.nodup_append.mp (List.nodup_append.mp hnodup).1
    rw [List.filterMap_append] at hmem
    rcases List.mem_append.mp hmem with hmem | hmem
    · exact hbefore t hmem t (by simp [Worker.target?]) rfl
    · exact (List.nodup_cons.mp hafter).1 hmem
  refine ⟨?_, ?_, ?_⟩
  · intro t'
    by_cases ht : t = t'
    · subst ht
      rw [hsame]
      refine List.pairwise_append.mpr ⟨hr.increasing t, List.pairwise_singleton _ _, ?_⟩
      intro x hx y hy
      rw [List.mem_singleton.mp hy]
      exact hnumbers x hx
    · rw [hother ht]
      exact hr.increasing t'
  · intro w hw t' a' ha' x hx
    rw [List.mem_append, List.mem_cons] at hw
    rcases hw with hw | rfl | hw
    · have ht := halone (List.mem_append_left _ hw) t' (Worker.target?_of_attempt? ha')
      rw [hother ht] at hx
      exact hall w (by rw [hworkers]; exact List.mem_append_left _ hw) t' a' ha' x hx
    · -- this worker goes on with the next attempt
      obtain ⟨rfl, hnumber⟩ := Worker.attempt?_answered ha'
      rw [hsame] at hx
      rcases List.mem_append.mp hx with hx | hx
      · have := hnumbers x hx
        omega
      · rw [List.mem_singleton.mp hx]
        show a.number < a'.number
        omega
    · have ht := halone (List.mem_append_right _ hw) t' (Worker.target?_of_attempt? ha')
      rw [hother ht] at hx
      exact hall w (by rw [hworkers]; simp [hw]) t' a' ha' x hx
  · intro t' ht'
    have ht : t ≠ t' := by
      rintro rfl
      exact (List.nodup_append.mp hnodup).2.2 t (by simp [Worker.target?]) t ht' rfl
    rw [hother ht]
    exact hr.queue t' ht'

theorem InOrder.step (hledger : Ledger r₀ h r) (hqueue : r₀.queue.Nodup) (hr : InOrder h r)
    (hmoves : r.Moves m s g s' r') : InOrder (h ++ g) r' := by
  have hall := hr.before
  cases hmoves with
  | @takes before after t rest hworkers hrest =>
    have hnone : answersTo h t = [] := hr.queue t (by rw [hrest]; exact List.mem_cons_self)
    refine hr.replace hworkers rfl ?_ ?_ fun _ => rfl
    · rw [hrest]
      exact List.subset_cons_self t rest
    · rintro _ _ ⟨⟩ x hx
      rw [hnone] at hx
      cases hx
  | ends hworkers _ => exact hr.replace hworkers rfl (fun _ => id) (by rintro _ _ ⟨⟩) fun _ => rfl
  | @sends before after t a reply hworkers =>
    rw [hworkers] at hall
    refine hr.replace hworkers rfl (fun _ => id) ?_ fun _ => rfl
    rintro _ _ ⟨⟩
    exact hall (.poised t a) (by simp) t a rfl
  | receives hworkers _ => exact hr.receive (hledger.nodup hqueue) hworkers
  | @resumes before after t a wake hworkers _ =>
    rw [hworkers] at hall
    refine hr.replace hworkers rfl (fun _ => id) ?_ fun _ => rfl
    rintro _ _ ⟨⟩
    exact hall (.pausing t a wake) (by simp) t a rfl
  | settles hworkers _ => exact hr.replace hworkers rfl (fun _ => id) (by rintro _ _ ⟨⟩) fun _ => rfl

theorem Course.inOrder {others : Store → Store → Prop} (hcourse : Course others s₀ r₀ h s r)
    (hr₀ : r₀.Fresh) (hqueue : r₀.queue.Nodup) : InOrder h r := by
  induction hcourse with
  | start =>
    refine ⟨fun t => .nil, ?_, fun t _ => rfl⟩
    intro w hw t a ha
    rw [hr₀.eq_free hw] at ha
    cases ha
  | step hcourse hstep ih => exact ih.step (hcourse.ledger hr₀) hqueue (moves_of_step hstep)
  | other _ _ ih => exact ih

/-- **A history says what each attempt was answered**, since none is answered twice. -/
theorem Course.agrees_repliesTo {others : Store → Store → Prop} (hcourse : Course others s₀ r₀ h s r)
    (hr₀ : r₀.Fresh) (hqueue : r₀.queue.Nodup) : Agrees (repliesTo h) h := by
  intro t number reply hmem
  have hanswer := mem_answersTo.mpr hmem
  have hincreasing := (hcourse.inOrder hr₀ hqueue).increasing t
  -- as the numbers ascend, the first answer to an attempt is the only one
  have hlookup : (answersTo h t).lookup number = some reply := by
    rw [List.lookup_eq_some_iff]
    obtain ⟨before, after, hsplit⟩ := List.append_of_mem hanswer
    refine ⟨before, after, hsplit, fun x hx => bne_iff_ne.mpr ?_⟩
    rw [hsplit] at hincreasing
    exact Nat.ne_of_gt ((List.pairwise_append.mp hincreasing).2.2 x hx _ List.mem_cons_self)
  rw [repliesTo, hlookup]
  rfl

end Run

end FleetHealth
