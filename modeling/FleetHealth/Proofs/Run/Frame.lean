import FleetHealth.Proofs.Monitor.Keeping
import FleetHealth.Proofs.Propagation.Footprint
import FleetHealth.Proofs.Run.Accounting
import FleetHealth.Proofs.Run.Flipping
import FleetHealth.Proofs.Run.Forecast
import FleetHealth.Proofs.Run.Reacting
import FleetHealth.Proofs.Run.Replay
/-!
# What a run may touch

A run changes the health of the targets that it dispatched, and what follows from a change of a verdict.
When health belongs to addresses, thresholds may lend backups to other addresses, those that they name;
when it belongs to nodes no address is touched, and nothing at all if the policy takes no nodes down.

* `RunSettings.within_settle` — what settling one check may touch.
* `Run.Solo.within` — what a run may touch, however far it has come.
* `Run.framed` — the same said table by table.
-/

namespace FleetHealth

namespace RunSettings

open Store

variable {c : RunSettings} {t : Target} {result : CheckResult} {now : UInt64} {s s' : Store}
  {f : Footprint} {report : Report}

/-- What a run may touch: the health of some targets, and what follows for those of them that flipped.
Thresholds are looked up by the node that they are on. -/
def footprint (c : RunSettings) (on : UInt64 → List Threshold) (judged flipped : Target → Prop) :
    Footprint where
  nodes id := c.mode = .node ∧ ∃ t, judged t ∧ t.node.id = id
  addresses id := c.mode = .address ∧ ∃ t, judged t ∧ t.address.id = id
  backups id role := c.mode = .address ∧ ∃ t, flipped t ∧ t.node.role = role
    ∧ ∃ threshold ∈ on t.node.id, threshold.addressId = id
  dns id := ∃ t, flipped t ∧ t.node.role.participatesInDns ∧ t.node.id = id

theorem footprint_mono {on : UInt64 → List Threshold} {judged judged' flipped flipped' : Target → Prop}
    (hjudged : ∀ t, judged t → judged' t) (hflipped : ∀ t, flipped t → flipped' t) :
    (c.footprint on judged flipped).Le (c.footprint on judged' flipped') where
  nodes := fun _ ⟨hmode, t, ht, hid⟩ => ⟨hmode, t, hjudged t ht, hid⟩
  addresses := fun _ ⟨hmode, t, ht, hid⟩ => ⟨hmode, t, hjudged t ht, hid⟩
  backups := fun _ _ ⟨hmode, t, ht, hnamed⟩ => ⟨hmode, t, hflipped t ht, hnamed⟩
  dns := fun _ ⟨t, ht, hrole, hid⟩ => ⟨t, hflipped t ht, hrole, hid⟩

/-! ## Settling one check -/

/-- Recording a result touches the health of its subject. -/
theorem within_record (hs : s.Keyed) (hnodes : c.mode = .node → f.nodes t.node.id)
    (haddresses : c.mode = .address → f.addresses t.address.id) (result : CheckResult) (now : UInt64) :
    Within f s (c.record t result now s).2 := by
  have hkept (hroom : s.HasRoom) : s.HasRoom ∧ ∃ added, s.notifications.rows
      = s.notifications.rows ++ added := ⟨hroom, [], (List.append_nil _).symm⟩
  unfold record
  cases hmode : c.mode with
  | address =>
    cases ha : s.record? .addresses (idKey t.address.id) with
    | none =>
      obtain ⟨e, he⟩ := recordAddress_of_record?_eq_none c.policy.tracker result.passed now ha
      simp only [he]
      exact .refl f s
    | some a =>
      have hallowed : f.addresses a.id := (hs.address_id ha).symm ▸ haddresses hmode
      simp only [recordAddress, updateAddressHealth, update_of_record? ha]
      refine ⟨rfl, rfl, hkept, rewrites_of_table_eq rfl, rewrites_put ?_, rewrites_of_table_eq rfl⟩
      exact ⟨a, ha, rfl, .inr hallowed, .inl ⟨rfl, rfl⟩, .inl hallowed⟩
  | node =>
    simp only
    split
    · cases hn : s.record? .nodes (idKey t.node.id) with
      | none =>
        obtain ⟨e, he⟩ := recordNode_of_record?_eq_none c.policy.tracker result.passed now hn
        rw [he]
        exact .refl f s
      | some n =>
        have hallowed : f.nodes n.id := (hs.node_id hn).symm ▸ hnodes hmode
        simp only [recordNode, updateNodeHealth, update_of_record? hn]
        exact ⟨rfl, rfl, hkept, rewrites_put ⟨n, hn, rfl, hallowed⟩, rewrites_of_table_eq rfl,
          rewrites_of_table_eq rfl⟩
    · exact .refl f s

/-- The event that recording a result brought about speaks of the target. -/
theorem event_of_record {e : Event} (ht : t.Rooted s) (he : (c.record t result now s).1 = some e) :
    e.nodeId = t.node.id ∧ e.role = t.node.role ∧ (e.addressId.isSome → c.mode = .address) := by
  cases hjudged : (c.subject? t).bind s.health? with
  | none =>
    rw [record_of_not_judged hjudged] at he
    cases he
  | some h =>
    obtain ⟨j, hj, hh⟩ := Option.bind_eq_some_iff.mp hjudged
    obtain ⟨event, s', hrecord, -, -, hevent⟩ := record_of_health? hj hh result now
    rw [hrecord] at he
    obtain rfl : event = some e := he
    obtain ⟨change, -, rfl⟩ := Option.map_eq_some_iff.mp (hevent ht).symm
    unfold eventOf
    cases hmode : c.mode with
    | address => exact ⟨rfl, rfl, fun _ => rfl⟩
    | node => exact ⟨rfl, rfl, fun h => by cases h⟩

/-- **Settling a check** touches the health of its target, and what follows if the target flipped. -/
theorem within_settle (hc : c.handlers = standardPipeline) (hs : s.WellFormed) (ht : t.Rooted s)
    {ledger : Option Store} (hsettle : c.settle t result now s none = (report, s', ledger)) :
    Within (c.footprint s.thresholdsOn (· = t) fun t' => t' = t ∧ report.transitionedTo.isSome) s s' := by
  have hrecorded (flipped : Target → Prop) :
      Within (c.footprint s.thresholdsOn (· = t) flipped) s (c.record t result now s).2 := by
    refine within_record hs.keyed ?_ ?_ result now
    · exact fun hmode => ⟨hmode, t, rfl, rfl⟩
    · exact fun hmode => ⟨hmode, t, rfl, rfl⟩
  have hs₁ := (keepsFleet_record c t result now s).wellFormed hs
  -- what the store holds of the target is what the run found, so the event names its node
  have hevent (e : Event) (he : (c.record t result now s).1 = some e) := event_of_record ht he
  unfold settle at hsettle
  generalize c.record t result now s = recorded at hrecorded hs₁ hevent hsettle
  obtain ⟨event, s₁⟩ := recorded
  cases event with
  | none =>
    cases hsettle
    exact hrecorded _
  | some e =>
    obtain ⟨hnode, hrole, hmode⟩ := hevent e rfl
    simp only [conclude, hc] at hsettle
    cases hsettle
    refine (hrecorded _).trans (within_applyEvent hs₁ now ?_ ?_)
    · intro hdns
      exact ⟨t, ⟨rfl, rfl⟩, hrole ▸ hdns, hnode.symm⟩
    · intro haddress threshold hthreshold
      rw [hnode, thresholdsOn_congr (hrecorded (fun _ => False)).thresholds] at hthreshold
      exact ⟨hmode haddress, t, ⟨rfl, rfl⟩, hrole.symm, threshold, hthreshold, rfl⟩

end RunSettings

/-! ## A whole run -/

namespace Run

open Store

variable {r₀ r r' : Run} {h g : List Happening} {s s' s'' : Store} {m : Moment} {clusterId : UInt64}
  {resolved : Resolved} {poolSize : Nat} {mode : TrackingMode}

/-- One step of a run leaves the store as it is, or settles a check. -/
theorem Moves.within (hr : r.Kept s) (hs : s.WellFormed) (hmoves : r.Moves m s g s' r') :
    s' = s ∨ ∃ t result report, t ∈ r.held
      ∧ r.settings.settle t result m.now s none = (report, s', none)
      ∧ r.settings.Settled t result m.now s report s'
      ∧ Within (r.settings.footprint s.thresholdsOn (· = t) fun t' => t' = t ∧ report.transitionedTo.isSome)
          s s' := by
  cases hmoves with
  | @settles before after t result report s' ledger hworkers hsettle =>
    have hheld : t ∈ r.held := by
      rw [held_eq hworkers]
      exact List.mem_append_right _ List.mem_cons_self
    have hrooted := hr.rooted t (List.mem_append_right _ hheld)
    obtain ⟨report', s₁, hsettle', hsettled⟩ :=
      RunSettings.settled_settle hr.storeBacked.handlers t result m.now s
    rw [hr.storeBacked.ledger, hsettle'] at hsettle
    cases hsettle
    exact .inr ⟨t, result, report, hheld, hsettle', hsettled,
      RunSettings.within_settle hr.storeBacked.handlers hs hrooted hsettle'⟩
  | _ => exact .inl rfl

section Solo

variable (hs : s.WellFormed) (hresolve : s.resolve clusterId = .ok resolved)
  (hcourse : Solo s (start resolved poolSize mode standardPipeline none) h s' r)

include hs hresolve hcourse

/-- The targets of a run on its own stay rooted in its store. -/
theorem Solo.kept : s'.WellFormed ∧ r.Kept s' := by
  induction hcourse with
  | start => exact ⟨hs, kept_start hs.keyed hresolve _ _⟩
  | step _ hstep ih =>
    obtain ⟨hkept, heffect⟩ := ih.2.step (moves_of_step hstep)
    exact ⟨heffect.wellFormed ih.1, hkept⟩
  | other _ hother _ => cases hother

/-- **What a run may touch**, however far it has come: the health of the targets that it dispatched, and
what follows for those of them whose verdict is another one by now. -/
theorem Solo.within :
    Within (r.settings.footprint s.thresholdsOn (· ∈ r.dispatched)
      fun t => t ∈ r.dispatched ∧ r.settings.Flipped s s' t) s s' := by
  induction hcourse with
  | start => exact .refl _ s
  | @step m l h s' s'' r r' hcourse hstep ih =>
    obtain ⟨hs', hkept⟩ := Solo.kept hs hresolve hcourse
    have hmoves := moves_of_step hstep
    have hledger := Course.ledger hcourse (fresh_start _ _ _ _ _)
    have hdispatched : r'.dispatched = r.dispatched :=
      (hledger.step hmoves).dispatched.trans hledger.dispatched.symm
    rw [hmoves.settings, hdispatched]
    rcases hmoves.within hkept hs' with rfl | ⟨t, result, report, ht, -, hsettled, hwithin⟩
    · exact ih
    · have hfresh {j : Subject} (hj : r.settings.subject? t = some j) : s'.health? j = s.health? j := by
        rw [hledger.settings] at hj
        exact Solo.health_eq hcourse (fresh_start _ _ _ _ _) (storeBacked_start _ _ _)
          (Course.subject?_ne_of_held hs.keyed hresolve hcourse ht hj)
      have hon : s'.thresholdsOn = s.thresholdsOn := funext (thresholdsOn_congr ih.thresholds)
      have htarget : t ∈ r.dispatched := (hledger.perm_targets (fresh_start _ _ _ _ _)).mem_iff.mp
        (List.mem_append_right _ (List.mem_append_left _ ht))
      rw [hon] at hwithin
      refine (ih.mono (RunSettings.footprint_mono (fun _ => id) ?_)).trans
        (hwithin.mono (RunSettings.footprint_mono ?_ ?_))
      · -- what has flipped before is not checked again
        rintro t' ⟨ht', j, hj, health, health', hh, hh', hne⟩
        refine ⟨ht', j, hj, health, health', hh, ?_, hne⟩
        rw [hsettled.health, if_neg, hh']
        intro hj'
        rw [hfresh hj', hh, Option.some_inj] at hh'
        exact hne (congrArg Health.isUp hh'.symm)
      · rintro _ rfl
        exact htarget
      · rintro _ ⟨rfl, hreport⟩
        obtain ⟨j, hj, health, health', hh, hh', hne⟩ := hsettled.counted.isSome_transitionedTo_iff.mp hreport
        rw [hfresh hj] at hh
        exact ⟨htarget, j, hj, health, health', hh, hh', hne⟩
  | other _ hother _ => cases hother

/-- A run that takes no nodes down when health belongs to them leaves no trace. -/
theorem Solo.store_eq (hmode : mode = .node) (hdown : resolved.policy.autoDown = false) : s' = s := by
  induction hcourse with
  | start => rfl
  | @step m l h s' s'' r r' hcourse hstep ih =>
    obtain ⟨hs', hkept⟩ := Solo.kept hs hresolve hcourse
    have hledger := Course.ledger hcourse (fresh_start _ _ _ _ _)
    rcases (moves_of_step hstep).within hkept hs' with rfl | ⟨t, result, report, -, hsettle, -, -⟩
    · exact ih
    · have hnode : r.settings.mode = .node := by rw [hledger.settings]; exact hmode
      have hkeeps : r.settings.policy.autoDown = false := by rw [hledger.settings]; exact hdown
      have hsubject : (r.settings.subject? t).bind s'.health? = none := by
        simp [RunSettings.subject?, hnode, hkeeps]
      rw [RunSettings.settle, RunSettings.record_of_not_judged hsubject] at hsettle
      cases hsettle
      exact ih
  | other _ hother _ => cases hother

end Solo

/-- What a run leaves as it was, when it has led from one store to another. -/
structure Framed (r₀ : Run) (s s' : Store) : Prop where
  clusters : s'.clusters = s.clusters
  thresholds : s'.thresholds = s.thresholds
  /-- As long as there is room, notifications are only appended. -/
  notifications : s'.HasRoom → ∃ added, s'.notifications.rows = s.notifications.rows ++ added
  /-- A DNS task stays as it is, or its node, which is published, has a target that flipped: then it is
  asked for, or asked for again. -/
  dnsTasks : ∀ key, s'.row? .dnsTasks key = s.row? .dnsTasks key
    ∨ ∃ t ∈ r₀.dispatched, r₀.settings.Flipped s s' t ∧ t.node.role.participatesInDns
      ∧ ∃ task, s'.record? .dnsTasks key = some task ∧ task.nodeId = t.node.id
        ∧ task.taskType = .nodeChange ∧ ∀ old ∈ s.record? .dnsTasks key, task.createdAt = old.createdAt
  /-- When health belongs to nodes, no address changes. -/
  addresses_of_node : r₀.settings.mode = .node → s'.addresses = s.addresses
  /-- Then nodes change in their health, and only those with a target. -/
  nodes_of_node : r₀.settings.mode = .node → ∀ key, s'.row? .nodes key = s.row? .nodes key
    ∨ ∃ n n', s.record? .nodes key = some n ∧ s'.record? .nodes key = some n'
      ∧ n'.identity = n.identity ∧ ∃ t ∈ r₀.dispatched, t.node.id = n.id
  /-- Nothing changes at all if the policy takes no nodes down. -/
  store_of_node : r₀.settings.mode = .node → r₀.settings.policy.autoDown = false → s' = s
  /-- When health belongs to addresses, no node changes. -/
  nodes_of_address : r₀.settings.mode = .address → s'.nodes = s.nodes
  /-- Then addresses change in their health, if they are those of targets, and in their backup, if they
  are of the role of a node with a target that flipped and named by a threshold on it. -/
  addresses_of_address : r₀.settings.mode = .address → ∀ key,
    s'.row? .addresses key = s.row? .addresses key
    ∨ ∃ a a', s.record? .addresses key = some a ∧ s'.record? .addresses key = some a'
      ∧ a'.identity = a.identity
      ∧ (a'.health = a.health ∨ ∃ t ∈ r₀.dispatched, t.address.id = a.id)
      ∧ (a'.backupIp = a.backupIp ∧ a'.backupThresholdId = a.backupThresholdId
        ∨ ∃ t ∈ r₀.dispatched, r₀.settings.Flipped s s' t ∧ t.node.role = a.role
          ∧ ∃ threshold ∈ s.thresholdsOn t.node.id, threshold.addressId = a.id)

/-- **The frame of a run.** A run that is refused leaves the store as it is. Any other run, however far it
has come and whatever its workers go through, touches nothing but the health of the targets that it has
dispatched and what follows for those whose verdict it has changed. -/
theorem framed (hs : s.WellFormed) (clusterId : UInt64) (poolSize : Nat) (mode : TrackingMode) :
    (∀ h e s', Performs s clusterId poolSize mode h (.error e) s' → s' = s)
    ∧ ∀ resolved, s.resolve clusterId = .ok resolved → ∀ h s' r,
      Solo s (start resolved poolSize mode standardPipeline none) h s' r →
      Framed (start resolved poolSize mode standardPipeline none) s s' := by
  constructor
  · intro h e s' hperforms
    cases hperforms
    rfl
  · intro resolved hresolve h s' r hcourse
    have hledger := hcourse.ledger (fresh_start _ _ _ _ _)
    have hwithin := hcourse.within hs hresolve
    rw [hledger.settings, hledger.dispatched] at hwithin
    have hmode {x y : TrackingMode} (hx : mode = x) (hy : mode = y) (hne : x ≠ y) : False :=
      hne (hx.symm.trans hy)
    refine ⟨hwithin.clusters, hwithin.thresholds, fun hroom => (hwithin.notifications hroom).2, ?_, ?_, ?_,
      hcourse.store_eq hs hresolve, ?_, ?_⟩
    · intro key
      refine (hwithin.dnsTasks key).imp_right ?_
      rintro ⟨task, htask, ⟨t, ⟨ht, hflipped⟩, hdns, hid⟩, htype, hcreated⟩
      exact ⟨t, ht, hflipped, hdns, task, htask, hid.symm, htype, hcreated⟩
    · intro hnode
      refine hwithin.addresses.table_eq ?_
      rintro old a ⟨o, -, -, -, -, ⟨haddress, -⟩ | ⟨haddress, -⟩⟩ <;>
        exact hmode hnode haddress nofun
    · intro hnode key
      refine (hwithin.nodes key).imp_right ?_
      rintro ⟨n', hn', n, hn, hidentity, -, t, ht, hid⟩
      exact ⟨n, n', hn, hn', hidentity, t, ht, hid⟩
    · intro haddress
      refine hwithin.nodes.table_eq ?_
      rintro old n ⟨o, -, -, hnode, -⟩
      exact hmode haddress hnode nofun
    · intro haddress key
      refine (hwithin.addresses key).imp_right ?_
      rintro ⟨a', ha', a, ha, hidentity, hhealth, hbackup, -⟩
      refine ⟨a, a', ha, ha', hidentity, hhealth.imp_right And.right, hbackup.imp_right ?_⟩
      rintro ⟨-, t, ⟨ht, hflipped⟩, hrole, hnamed⟩
      exact ⟨t, ht, hflipped, hrole, hnamed⟩

/-! ## The frame of a small run -/

/-- What the check of the first target finds when its only attempt fails. -/
def failureResult : CheckResult :=
  { passed := false, reason := some unknownReason, elapsed := 0, attempts := 1 }

/-- What happens to the first target of a run until its check has that result. -/
def failureHistory : List Happening :=
  [⟨smallTarget 1 "10.0.0.1", .taken⟩, ⟨smallTarget 1 "10.0.0.1", .sent 1⟩,
    ⟨smallTarget 1 "10.0.0.1", .answered 1 ⟨0, some ⟨false, none⟩⟩⟩]

/-- The run in which that happened. -/
def failureRun (handlers : List Handler) : Run :=
  { start smallPlan 1 .address handlers none with
    queue := [smallTarget 2 "10.0.0.2"]
    workers := [.checked (smallTarget 1 "10.0.0.1") failureResult] }

theorem course_failureRun (handlers : List Handler) :
    Solo smallStore (start smallPlan 1 .address handlers none) failureHistory smallStore
      (failureRun handlers) := by
  have htaken := Course.step (m := ⟨0, 0⟩) (l := .take 0)
    (.start : Solo smallStore (start smallPlan 1 .address handlers none) [] smallStore _) rfl
  have hsent := htaken.step (m := ⟨0, 0⟩) (l := .send 0 ⟨0, some ⟨false, none⟩⟩) rfl
  exact hsent.step (m := ⟨0, 0⟩) (l := .receive 0) rfl

theorem exists_step_failureRun (handlers : List Handler) : ∃ s' r,
    (failureRun handlers).step ⟨0, 0⟩ smallStore (.settle 0) = some (s', r)
    ∧ Solo smallStore (start smallPlan 1 .address handlers none)
      (failureHistory ++ [⟨smallTarget 1 "10.0.0.1", .settled failureResult⟩]) s' r := by
  have hsettle := step_settle_eq (r := failureRun handlers) (w := 0) rfl ⟨0, 0⟩ smallStore
  exact ⟨_, _, hsettle, (course_failureRun handlers).step hsettle⟩

/-- The run in which the first target fails has its frame. -/
theorem framed_failureRun : ∃ s' r,
    Solo smallStore (start smallPlan 1 .address standardPipeline none)
      (failureHistory ++ [⟨smallTarget 1 "10.0.0.1", .settled failureResult⟩]) s' r
    ∧ Framed (start smallPlan 1 .address standardPipeline none) smallStore s' := by
  obtain ⟨s', r, -, hcourse⟩ := exists_step_failureRun standardPipeline
  have hframed := framed Store.wellFormed_smallStore 1 1 .address
  exact ⟨s', r, hcourse, hframed.2 smallPlan Store.resolve_smallStore _ s' r hcourse⟩

end Run

end FleetHealth
