import FleetHealth.Proofs.Propagation.Pipeline
/-!
# Passing an event from handler to handler

A pipeline hands an event to its handlers one after the other, to each of them once, and each of them
finds the store as the one before has left it, whether or not that one failed. Whatever handlers are in
the pipeline, it shows who failed and does no more to the store than they do.

* `Store.Passes`, `passes_applyEvent` — the way of an event through a pipeline.
* `Store.Passes.of_failsClean` — handlers that fail without a trace could as well not have been there.
* `Store.Passes.health?_eq` — if no handler touches health, the pipeline does not.
-/

namespace FleetHealth

namespace Handler

/-- Whether a handler leaves the health of everyone alone. -/
def SparesHealth (h : Handler) : Prop :=
  ∀ e now s j, (h.handle e now s).2.health? j = Store.health? s j

/-- Whether a handler leaves the store alone when it fails. -/
def FailsClean (h : Handler) : Prop :=
  ∀ e now s, (h.handle e now s).1 = true → (h.handle e now s).2 = s

theorem handle_refusing (h : Handler) (e : Event) (now : UInt64) (s : Store) :
    h.refusing.handle e now s = (h.concerns e, s) := by
  unfold handle refusing
  cases h.concerns e <;> rfl

theorem sparesHealth_refusing (h : Handler) : h.refusing.SparesHealth := by
  intro e now s j
  rw [handle_refusing]

theorem sparesHealth_of_mem_standardPipeline {h : Handler} (hh : h ∈ standardPipeline) :
    h.SparesHealth := by
  intro e now s j
  simp only [standardPipeline, List.mem_cons, List.not_mem_nil, or_false] at hh
  rcases hh with rfl | rfl | rfl
  · cases j <;> rfl
  · rcases handle_dnsTask e now s with hsame | ⟨task, -, -, hput⟩
    · rw [hsame]
    · rw [hput]
      cases j <;> rfl
  · exact (rebacked_handle_threshold e now s).health j

end Handler

/-- The names of those who failed, among handlers with what became of them. -/
def failedNames (log : List (Handler × Bool)) : List String :=
  (log.filter (·.2)).map (·.1.name)

namespace Store

/-- The way of an event through handlers: each is run once, on the store that the one before has left,
and fails or does not. -/
inductive Passes (e : Event) (now : UInt64) : Store → List (Handler × Bool) → Store → Prop
  | nil {s : Store} : Passes e now s [] s
  | cons {h : Handler} {failed : Bool} {s s' s'' : Store} {log : List (Handler × Bool)} :
    h.handle e now s = (failed, s') → Passes e now s' log s'' → Passes e now s ((h, failed) :: log) s''

variable {e : Event} {now : UInt64} {s s' : Store} {log : List (Handler × Bool)}

/-- **An event goes through the whole pipeline**, in the order of the handlers, and those that failed are
named. -/
theorem passes_applyEvent (e : Event) (now : UInt64) (handlers : List Handler) (s : Store) :
    ∃ log, log.map (·.1) = handlers ∧ Passes e now s log (applyEvent e now handlers s).2
      ∧ (applyEvent e now handlers s).1 = failedNames log := by
  induction handlers generalizing s with
  | nil => exact ⟨[], rfl, .nil, rfl⟩
  | cons h rest ih =>
    obtain ⟨log, hlog, hpasses, hnames⟩ := ih (h.handle e now s).2
    refine ⟨(h, (h.handle e now s).1) :: log, congrArg (h :: ·) hlog, .cons rfl hpasses, ?_⟩
    rw [applyEvent_cons, hnames, failedNames, failedNames, List.filter_cons]
    split <;> rfl

/-- If those that failed left no trace, the event may as well have passed the others alone. -/
theorem Passes.of_failsClean (h : Passes e now s log s') (hclean : ∀ x ∈ log, x.1.FailsClean) :
    Passes e now s (log.filter (!·.2)) s' := by
  induction h with
  | nil => exact .nil
  | @cons h failed s s' s'' log hhandle _ ih =>
    have hrest := ih fun x hx => hclean x (List.mem_cons_of_mem _ hx)
    cases failed with
    | false => exact .cons hhandle hrest
    | true =>
      have hsame := hclean (h, true) List.mem_cons_self e now s (congrArg Prod.fst hhandle)
      rw [hhandle] at hsame
      exact hsame ▸ hrest

theorem Passes.health?_eq (h : Passes e now s log s') (hspares : ∀ x ∈ log, x.1.SparesHealth)
    (j : Subject) : s'.health? j = s.health? j := by
  induction h with
  | nil => rfl
  | @cons h failed s s' s'' log hhandle _ ih =>
    have hhead := hspares (h, failed) List.mem_cons_self e now s j
    rw [hhandle] at hhead
    exact (ih fun x hx => hspares x (List.mem_cons_of_mem _ hx)).trans hhead

end Store

end FleetHealth
