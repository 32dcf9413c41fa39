import FleetHealth.Proofs.Store.Transactions
import FleetHealth.Run.Report
/-!
# Settling a check in transactions

Settling a check takes several transactions, each of which depends on what the ones before returned. A
procedure says which transaction comes next, so that others can be let in between. Carried out in one
go, it is what settling does.

* `Procedure.run_bind` — procedures one after the other.
* `Procedure.Ensures` — what a procedure comes to, at whatever times its transactions are carried out.
* `Reaction.run_deliver`, `run_reactAll` — the reactions to a change of health.
* `RunSettings.run_settling` — the whole of settling a check.
-/

namespace FleetHealth

/-- What is left to do: nothing, with a result, or a transaction and what follows from its reply. -/
inductive Procedure (α : Type) : Type where
  | done (a : α)
  | access (x : Access) (next : Except StoreError x.Reply → Procedure α)

/-- Whether a transaction does the same at all times. -/
def Access.Timeless (x : Access) : Prop :=
  ∀ now now' s, x.run now s = x.run now' s

namespace Procedure

variable {α β : Type}

/-- A procedure and then another one that depends on its result. -/
def bind (p : Procedure α) (f : α → Procedure β) : Procedure β :=
  match p with
  | done a => f a
  | access x next => access x fun reply => (next reply).bind f

/-- Carries a procedure out at one time, with nobody else in between. -/
def run (now : UInt64) (s : Store) : Procedure α → α × Store
  | done a => (a, s)
  | access x next => (next (x.run now s).1).run now (x.run now s).2

theorem run_access (now : UInt64) (s : Store) (x : Access)
    (next : Except StoreError x.Reply → Procedure α) :
    (access x next).run now s = (next (x.run now s).1).run now (x.run now s).2 := rfl

@[simp] theorem run_bind (now : UInt64) (s : Store) (p : Procedure α) (f : α → Procedure β) :
    (p.bind f).run now s = (f (p.run now s).1).run now (p.run now s).2 := by
  induction p generalizing s with
  | done a => rfl
  | access x next ih => exact ih _ _

/-- Whether all transactions of a procedure are of some kind, whatever the replies are. -/
inductive All (P : Access → Prop) : Procedure α → Prop
  | done (a : α) : All P (.done a)
  | access {x : Access} {next : Except StoreError x.Reply → Procedure α} :
    P x → (∀ reply, All P (next reply)) → All P (.access x next)

theorem All.bind {P : Access → Prop} {p : Procedure α} {f : α → Procedure β} (hp : p.All P)
    (hf : ∀ a, (f a).All P) : (p.bind f).All P := by
  induction hp with
  | done a => exact hf a
  | access hx _ ih => exact .access hx ih

/-- Whether a procedure that is begun on a store comes to a result and a store of some kind, when each of
its transactions is carried out at one of some times and nobody else comes in between. -/
def Ensures (times : UInt64 → Prop) (Q : α → Store → Prop) : Procedure α → Store → Prop
  | done a, s => Q a s
  | access x next, s => ∀ now, times now → (next (x.run now s).1).Ensures times Q (x.run now s).2

section Ensures

variable {times : UInt64 → Prop} {Q : α → Store → Prop} {R : β → Store → Prop} {p : Procedure α}
  {s : Store} {now : UInt64}

/-- A procedure that is carried out at one time comes to what it ensures. -/
theorem Ensures.run (hp : p.Ensures times Q s) (hnow : times now) : Q (p.run now s).1 (p.run now s).2 := by
  induction p generalizing s with
  | done a => exact hp
  | access x next ih => exact ih _ (hp now hnow)

theorem Ensures.mono {R : α → Store → Prop} (hp : p.Ensures times Q s) (h : ∀ a s', Q a s' → R a s') :
    p.Ensures times R s := by
  induction p generalizing s with
  | done a => exact h a s hp
  | access x next ih => exact fun now hnow => ih _ (hp now hnow)

theorem Ensures.bind {f : α → Procedure β} (hp : p.Ensures times Q s)
    (hf : ∀ a s', Q a s' → (f a).Ensures times R s') : (p.bind f).Ensures times R s := by
  induction p generalizing s with
  | done a => exact hf a s hp
  | access x next ih => exact fun now hnow => ih _ (hp now hnow)

/-- A procedure of one transaction is carried out at one time. -/
theorem ensures_of_single {x : Access} {next : Except StoreError x.Reply → Procedure α}
    (hnext : ∀ reply, ∃ a, next reply = .done a)
    (h : ∀ now, times now → Q ((access x next).run now s).1 ((access x next).run now s).2) :
    (access x next).Ensures times Q s := by
  intro now hnow
  obtain ⟨a, ha⟩ := hnext (x.run now s).1
  have hrun := h now hnow
  rw [run_access, ha] at hrun
  rw [ha]
  exact hrun

/-- A procedure that does the same at all times might as well be carried out at one. -/
theorem ensures_of_timeless (hp : p.All Access.Timeless) (now : UInt64)
    (h : Q (p.run now s).1 (p.run now s).2) : p.Ensures times Q s := by
  induction hp generalizing s with
  | done a => exact h
  | access hx _ ih =>
    intro now' _
    rw [hx now' now]
    exact ih _ h

end Ensures

end Procedure

/-! ## Reactions -/

/-- The transactions in which a threshold is applied. -/
def fireOne (role : Role) (t : Threshold) : Procedure (Except StoreError Unit) :=
  .access (.getAddress t.addressId) fun
    | .error e => .done (.error e)
    | .ok none => .done (.ok ())
    | .ok (some a) =>
      if a.role = role then
        match t.decide a with
        | none => .done (.ok ())
        | some backup => .access (.setBackup a.id backup) fun reply => .done (reply.map fun _ => ())
      else .done (.ok ())

/-- The transactions in which thresholds are applied in order. A failure ends the pass. -/
def fireEach (role : Role) : List Threshold → Procedure (Except StoreError Unit)
  | [] => .done (.ok ())
  | t :: rest =>
    (fireOne role t).bind fun
      | .ok () => fireEach role rest
      | .error e => .done (.error e)

theorem run_fireOne (now : UInt64) (s : Store) (role : Role) (t : Threshold) :
    (fireOne role t).run now s = match s.fireThreshold role t with
      | .ok s' => (.ok (), s')
      | .error e => (.error e, s) := by
  rw [fireOne, Procedure.run_access, Store.fireThreshold]
  cases hfound : s.getAddress t.addressId with
  | error e =>
    rw [show Access.run now s (.getAddress t.addressId) = (.error e, s) from Prod.ext hfound rfl]
    rfl
  | ok found =>
    rw [show Access.run now s (.getAddress t.addressId) = (.ok found, s) from Prod.ext hfound rfl]
    cases found with
    | none => rfl
    | some a =>
      -- whether there is a second transaction depends on what the first one found
      simp only [bind, Except.bind, pure, Except.pure]
      split
      · cases t.decide a with
        | none => rfl
        | some backup =>
          simp only [Procedure.run_access, Access.run, Access.settled]
          cases s.setAddressBackup a.id backup <;> rfl
      · rfl

theorem run_fireEach (now : UInt64) (s : Store) (role : Role) (ts : List Threshold) :
    (fireEach role ts).run now s = s.fireThresholds role ts := by
  induction ts generalizing s with
  | nil => rfl
  | cons t ts ih =>
    rw [fireEach, Procedure.run_bind, run_fireOne, Store.fireThresholds]
    cases s.fireThreshold role t with
    | ok s' => exact ih s'
    | error e => rfl

/-- What the program does about a change of health. -/
inductive Reaction where
  | notification
  | dnsTask
  | threshold
  /-- A reaction whose receiver refuses every delivery. -/
  | refused (r : Reaction)

namespace Reaction

/-- The handler that reacts so. -/
def handler : Reaction → Handler
  | notification => .notification
  | dnsTask => .dnsTask
  | threshold => .threshold
  | refused r => r.handler.refusing

/-- The transactions in which an event is delivered. -/
def deliver (e : Event) : Reaction → Procedure (Except StoreError Unit)
  | notification => .access (.notify e.draft) fun reply => .done (reply.map fun _ => ())
  | dnsTask => .access (.enqueueDnsTask e.nodeId .nodeChange) fun reply => .done (reply.map fun _ => ())
  | threshold =>
    .access (.listThresholds e.nodeId) fun
      | .ok ts => fireEach e.role ts
      | .error err => .done (.error err)
  | refused _ => .done (.error .unavailable)

theorem run_deliver (e : Event) (now : UInt64) (s : Store) (r : Reaction) :
    (r.deliver e).run now s = r.handler.deliver e now s := by
  cases r with
  | notification => rfl
  | dnsTask =>
    show (Procedure.access _ _).run now s = Handler.deliver .dnsTask e now s
    rw [Procedure.run_access]
    simp only [Access.run, Access.settled, Handler.dnsTask]
    cases s.enqueueDnsTask e.nodeId .nodeChange now <;> rfl
  | threshold =>
    show (Procedure.access _ _).run now s = s.fire e.role e.nodeId
    rw [Procedure.run_access, Store.fire]
    cases hts : s.listThresholds e.nodeId with
    | ok ts =>
      rw [show Access.run now s (.listThresholds e.nodeId) = (.ok ts, s) from Prod.ext hts rfl]
      exact run_fireEach now s e.role ts
    | error err =>
      rw [show Access.run now s (.listThresholds e.nodeId) = (.error err, s) from Prod.ext hts rfl]
      rfl
  | refused r => rfl

end Reaction

/-- What a fleet that keeps everything in one store does about a change of health. -/
def standardReactions : List Reaction :=
  [.notification, .dnsTask, .threshold]

/-- The transactions of all reactions to an event: the names of those that failed. -/
def reactAll (e : Event) : List Reaction → Procedure (List String)
  | [] => .done []
  | r :: rest =>
    if r.handler.concerns e then
      (r.deliver e).bind fun outcome =>
        (reactAll e rest).bind fun names =>
          .done (match outcome with
            | .ok () => names
            | .error _ => r.handler.name :: names)
    else reactAll e rest

theorem run_reactAll (e : Event) (now : UInt64) (s : Store) (rs : List Reaction) :
    (reactAll e rs).run now s = applyEvent e now (rs.map Reaction.handler) s := by
  induction rs generalizing s with
  | nil => rfl
  | cons r rs ih =>
    rw [reactAll, List.map_cons, applyEvent, Handler.handle]
    split
    · rw [Procedure.run_bind, Procedure.run_bind, r.run_deliver, ih]
      obtain ⟨outcome, s'⟩ := r.handler.deliver e now s
      cases outcome <;> rfl
    · exact ih s

/-! ## Which transactions there are -/

section All

variable {P : Access → Prop} (hget : ∀ id, P (.getAddress id)) (hset : ∀ id backup, P (.setBackup id backup))

include hget hset

theorem all_fireOne (role : Role) (threshold : Threshold) : (fireOne role threshold).All P := by
  refine .access (hget _) fun reply => ?_
  split
  · exact .done _
  · exact .done _
  · split
    · split
      · exact .done _
      · exact .access (hset _ _) fun _ => .done _
    · exact .done _

theorem all_fireEach (role : Role) (ts : List Threshold) : (fireEach role ts).All P := by
  induction ts with
  | nil => exact .done _
  | cons threshold ts ih =>
    refine (all_fireOne hget hset role threshold).bind fun outcome => ?_
    split
    · exact ih
    · exact .done _

theorem Reaction.all_deliver_threshold (hlist : ∀ id, P (.listThresholds id)) (e : Event) :
    (threshold.deliver e).All P := by
  refine .access (hlist _) fun reply => ?_
  split
  · exact all_fireEach hget hset _ _
  · exact .done _

end All

/-! ## Settling -/

namespace RunSettings

/-- The transaction in which a result is recorded, if there is one: the event to pass on. -/
def recording (c : RunSettings) (t : Target) (result : CheckResult) : Procedure (Option Event) :=
  match c.mode with
  | .address =>
    .access (.recordAddress t.address.id c.policy.tracker result.passed) fun
      | .ok (a, change) => .done (change.map fun change => .ofAddress t.node a change result.reason)
      | .error _ => .done none
  | .node =>
    if c.policy.autoDown then
      .access (.recordNode t.node.id c.policy.tracker result.passed) fun
        | .ok (n, change) => .done (change.map fun change => .ofNode n change result.reason)
        | .error _ => .done none
    else .done none

/-- The transactions in which a check is settled: the report on it. -/
def settling (c : RunSettings) (rs : List Reaction) (t : Target) (result : CheckResult) :
    Procedure Report :=
  (c.recording t result).bind fun
    | none => .done (Report.checked t result)
    | some e => (reactAll e rs).bind fun failed =>
      .done { Report.checked t result with transitionedTo := some e.isUp, failedHandlers := failed }

theorem run_recording (c : RunSettings) (t : Target) (result : CheckResult) (now : UInt64) (s : Store) :
    (c.recording t result).run now s = c.record t result now s := by
  unfold recording record
  cases c.mode with
  | address =>
    simp only [Procedure.run_access, Access.run, Access.settled]
    cases s.recordAddress t.address.id c.policy.tracker result.passed now <;> rfl
  | node =>
    simp only
    split
    · simp only [Procedure.run_access, Access.run, Access.settled]
      cases s.recordNode t.node.id c.policy.tracker result.passed now <;> rfl
    · rfl

/-- **Carried out in one go, the transactions settle the check.** -/
theorem run_settling (c : RunSettings) {rs : List Reaction} (hc : c.handlers = rs.map Reaction.handler)
    (t : Target) (result : CheckResult) (now : UInt64) (s : Store) :
    c.settle t result now s none
      = (((c.settling rs t result).run now s).1, ((c.settling rs t result).run now s).2, none) := by
  rw [settle, settling, Procedure.run_bind, run_recording]
  obtain ⟨event, s'⟩ := c.record t result now s
  cases event with
  | none => rfl
  | some e =>
    simp only [conclude, hc, Procedure.run_bind, run_reactAll]
    rfl

end RunSettings

/-! ## Who is judged, and how -/

/-- Whether a transaction judges the health of no one but a target, and by a policy. -/
def Access.JudgesBy (p : PolicySnapshot) (t : Target) : Access → Prop
  | recordAddress id tracker _ => id = t.address.id ∧ tracker = p.tracker
  | recordNode id tracker _ => id = t.node.id ∧ tracker = p.tracker
  | _ => True

section JudgesBy

variable {p : PolicySnapshot} {t : Target}

theorem Reaction.all_deliver (e : Event) (r : Reaction) : (r.deliver e).All (Access.JudgesBy p t) := by
  cases r with
  | notification => exact .access trivial fun _ => .done _
  | dnsTask => exact .access trivial fun _ => .done _
  | threshold => exact all_deliver_threshold (fun _ => trivial) (fun _ _ => trivial) (fun _ => trivial) e
  | refused r => exact .done _

theorem all_reactAll (e : Event) (rs : List Reaction) : (reactAll e rs).All (Access.JudgesBy p t) := by
  induction rs with
  | nil => exact .done _
  | cons r rs ih =>
    rw [reactAll]
    split
    · exact (r.all_deliver e).bind fun _ => ih.bind fun _ => .done _
    · exact ih

/-- A settled check judges its target by the policy of the run, and nobody else. -/
theorem RunSettings.all_settling (c : RunSettings) (rs : List Reaction) (t : Target)
    (result : CheckResult) : (c.settling rs t result).All (Access.JudgesBy c.policy t) := by
  have hrecording : (c.recording t result).All (Access.JudgesBy c.policy t) := by
    unfold recording
    split
    · refine .access ⟨rfl, rfl⟩ fun reply => ?_
      split <;> exact .done _
    · split
      · refine .access ⟨rfl, rfl⟩ fun reply => ?_
        split <;> exact .done _
      · exact .done _
  refine hrecording.bind fun event => ?_
  split
  · exact .done _
  · exact (all_reactAll _ _).bind fun _ => .done _

end JudgesBy

end FleetHealth
