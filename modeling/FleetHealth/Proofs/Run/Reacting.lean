import FleetHealth.Proofs.Run.Course
/-!
# What reactions leave alone

Reactions write notifications, DNS tasks and backups, and checks write health. The rest of the fleet is
nobody's to change, wherever health is kept and whether or not a reaction succeeds.

* `Handler.Standard` — the reactions at hand.
* `Store.KeepsFleet` — a store after something that left the fleet alone.
* `Run.Moves.keepsFleet` — a run does.
-/

namespace FleetHealth

/-- Whether a handler is one of the standard ones, perhaps with a receiver that refuses every delivery. -/
def Handler.Standard (h : Handler) : Prop :=
  ∃ h' ∈ standardPipeline, h = h' ∨ h = h'.refusing

/-- Whether a store has the fleet of another one, and is well-formed if that one is. -/
structure Store.KeepsFleet (s s' : Store) : Prop where
  fleet : s'.fleet = s.fleet
  wellFormed : s.WellFormed → s'.WellFormed

namespace Store

variable {s s' s'' : Store}

theorem KeepsFleet.refl (s : Store) : s.KeepsFleet s :=
  ⟨rfl, id⟩

theorem KeepsFleet.trans (h : s.KeepsFleet s') (h' : s'.KeepsFleet s'') : s.KeepsFleet s'' :=
  ⟨h'.fleet.trans h.fleet, fun hs => h'.wellFormed (h.wellFormed hs)⟩

/-- The standard handlers write notifications, DNS tasks and backups. -/
theorem keepsFleet_handle {h : Handler} (hh : h.Standard) (e : Event) (now : UInt64) (s : Store) :
    s.KeepsFleet (h.handle e now s).2 := by
  obtain ⟨h', hmem, rfl | rfl⟩ := hh
  · simp only [standardPipeline, List.mem_cons, List.not_mem_nil, or_false] at hmem
    rcases hmem with rfl | rfl | rfl
    · exact ⟨rfl, fun hs => wellFormed_createNotification hs e.draft now⟩
    · refine ⟨?_, fun hs => wellFormed_handle_dnsTask hs e now⟩
      rcases handle_dnsTask e now s with hsame | ⟨task, -, -, hput⟩
      · rw [hsame]
      · rw [hput]
        rfl
    · have hback := rebacked_handle_threshold e now s
      exact ⟨hback.fleet, hback.wellFormed⟩
  · -- a receiver that refuses leaves the store as it is
    unfold Handler.handle Handler.refusing
    split <;> exact .refl s

theorem keepsFleet_applyEvent {handlers : List Handler} (hh : ∀ h ∈ handlers, h.Standard) (e : Event)
    (now : UInt64) (s : Store) : s.KeepsFleet (applyEvent e now handlers s).2 := by
  induction handlers generalizing s with
  | nil => exact .refl s
  | cons h rest ih =>
    have hhead := keepsFleet_handle (hh h List.mem_cons_self) e now s
    exact hhead.trans (ih (fun h hmem => hh h (List.mem_cons_of_mem _ hmem)) _)

end Store

namespace RunSettings

variable {c : RunSettings} {t : Target} {result : CheckResult} {now : UInt64} {s s' : Store}

theorem keepsFleet_record (c : RunSettings) (t : Target) (result : CheckResult) (now : UInt64) (s : Store) :
    s.KeepsFleet (c.record t result now s).2 := by
  cases hjudged : (c.subject? t).bind s.health? with
  | none =>
    rw [record_of_not_judged hjudged]
    exact .refl s
  | some h =>
    obtain ⟨j, hj, hh⟩ := Option.bind_eq_some_iff.mp hjudged
    obtain ⟨event, s', hrecord, hs', -, -⟩ := record_of_health? hj hh result now
    rw [hrecord]
    exact ⟨hs'.fleet, hs'.wellFormed⟩

theorem keepsFleet_conclude (hc : ∀ h ∈ c.handlers, h.Standard) (t : Target) (result : CheckResult)
    (event : Option Event) (now : UInt64) (s : Store) :
    s.KeepsFleet (c.conclude t result event now s).2 := by
  cases event with
  | none => exact .refl s
  | some e => exact Store.keepsFleet_applyEvent hc e now s

/-- Settling a check leaves the fleet alone, wherever health is kept. -/
theorem keepsFleet_settle (hc : ∀ h ∈ c.handlers, h.Standard) {ledger ledger' : Option Store}
    {report : Report} (h : c.settle t result now s ledger = (report, s', ledger')) :
    s.KeepsFleet s' := by
  cases ledger with
  | none =>
    unfold settle at h
    cases h
    exact (keepsFleet_record c t result now s).trans (keepsFleet_conclude hc t result _ now _)
  | some l =>
    unfold settle at h
    cases h
    exact keepsFleet_conclude hc t result _ now s

end RunSettings

/-- **A run leaves the fleet alone.** -/
theorem Run.Moves.keepsFleet {r r' : Run} {g : List Happening} {s s' : Store} {m : Moment}
    (hr : ∀ h ∈ r.settings.handlers, h.Standard) (hmoves : r.Moves m s g s' r') : s.KeepsFleet s' := by
  cases hmoves with
  | settles _ hsettle => exact RunSettings.keepsFleet_settle hr hsettle
  | takes => exact .refl s
  | ends => exact .refl s
  | sends => exact .refl s
  | receives => exact .refl s
  | resumes => exact .refl s

end FleetHealth
