import FleetHealth.Proofs.Health.Tracker
import FleetHealth.Proofs.Monitor.Keeping
import Mathlib.Data.List.Forall2
/-!
# Transitions happen exactly once

A flip is a change of the stored verdict on an address or a node. Runs flip verdicts only by settling
checks, at most one at a time, and each flip is announced by one notification and reported by one report.
This holds for any number of runs under way at once, whatever their workers go through and whenever they
are dropped, with others taking the DNS tasks in between.

* `Store.flipsTo` — the flips from one store to another.
* `RunSettings.Settled.flipsTo_eq` — the flip of a settled check.
* `Service.flips_announced_once` — flips, notifications and reports in step with each other.
-/

namespace FleetHealth

/-- A change of the stored verdict on an address or a node. -/
structure Flip where
  subject : Subject
  /-- The node, or the node of the address. -/
  nodeId : UInt64
  /-- The new verdict. -/
  isUp : Bool
  deriving DecidableEq, Repr

/-- The tracking mode in which a subject is judged. -/
def Subject.mode : Subject → TrackingMode
  | .address _ => .address
  | .node _ => .node

/-- Whether a notification tells of a flip: it names the node, and the direction. -/
structure Flip.AnnouncedBy (f : Flip) (n : Notification) : Prop where
  nodeId : n.nodeId = f.nodeId
  messageType : n.messageType = if f.isUp then .nodeUp else .nodeDown
  level : n.level = if f.isUp then .success else .error

namespace Store

variable {s s' : Store} {x : Subject × UInt64}

/-- All that have health in a store, each with its node. -/
def subjects (s : Store) : List (Subject × UInt64) :=
  (s.records .addresses).map (fun a => (.address a.id, a.nodeId))
    ++ (s.records .nodes).map fun n => (.node n.id, n.id)

/-- The flip of a subject from one store to another, if its verdict is another one there. -/
def flip? (s s' : Store) (x : Subject × UInt64) : Option Flip :=
  match s.health? x.1, s'.health? x.1 with
  | some h, some h' => if h'.isUp = h.isUp then none else some ⟨x.1, x.2, h'.isUp⟩
  | _, _ => none

/-- The flips from one store to another. -/
def flipsTo (s s' : Store) : List Flip :=
  s.subjects.filterMap (s.flip? s')

/-! ## Flips -/

theorem flip?_of_health_eq (h : s'.health? x.1 = s.health? x.1) : s.flip? s' x = none := by
  rw [flip?, h]
  cases s.health? x.1 with
  | none => rfl
  | some h => exact if_pos rfl

theorem flipsTo_eq_nil (h : ∀ j, s'.health? j = s.health? j) : s.flipsTo s' = [] :=
  List.filterMap_eq_nil_iff.mpr fun x _ => flip?_of_health_eq (h x.1)

theorem nodup_subjects (hs : s.Keyed) : (s.subjects.map (·.1)).Nodup := by
  have haddresses := hs.nodup_map_records (c := .addresses)
  have hnodes := hs.nodup_map_records (c := .nodes)
  rw [subjects, List.map_append, List.map_map, List.map_map]
  refine List.nodup_append.mpr ⟨?_, ?_, ?_⟩
  · refine List.pairwise_map.mpr ((List.pairwise_map.mp haddresses).imp fun hne he => hne ?_)
    exact congrArg idKey (Subject.address.inj he)
  · refine List.pairwise_map.mpr ((List.pairwise_map.mp hnodes).imp fun hne he => hne ?_)
    exact congrArg idKey (Subject.node.inj he)
  · intro j hj k hk he
    obtain ⟨a, -, rfl⟩ := List.mem_map.mp hj
    obtain ⟨n, -, rfl⟩ := List.mem_map.mp hk
    cases he

/-- If the health of one subject only is another one, at most that subject flips. -/
theorem flipsTo_eq_toList (hs : s.Keyed) (hx : x ∈ s.subjects)
    (h : ∀ j, j ≠ x.1 → s'.health? j = s.health? j) : s.flipsTo s' = (s.flip? s' x).toList := by
  -- every subject stands in the list once, and those before and after this one do not flip
  obtain ⟨before, after, hsubjects⟩ := List.append_of_mem hx
  have hnodup := nodup_subjects hs
  rw [hsubjects, List.map_append, List.map_cons, List.nodup_append, List.nodup_cons] at hnodup
  obtain ⟨-, ⟨hafter, -⟩, hbefore⟩ := hnodup
  have hnone {part : List (Subject × UInt64)} (hpart : ∀ y ∈ part, y.1 ≠ x.1) :
      part.filterMap (s.flip? s') = [] :=
    List.filterMap_eq_nil_iff.mpr fun y hy => flip?_of_health_eq (h y.1 (hpart y hy))
  rw [flipsTo, hsubjects, List.filterMap_append, List.filterMap_cons,
    hnone fun y hy he => hbefore _ (List.mem_map_of_mem hy) _ List.mem_cons_self he,
    hnone fun y hy he => hafter (he ▸ List.mem_map_of_mem hy)]
  cases s.flip? s' x <;> rfl

end Store

/-! ## The flip of a settled check -/

namespace RunSettings

variable {c : RunSettings} {t : Target} {result : CheckResult} {now : UInt64} {s s' : Store}
  {report : Report}

/-- The flip that a change of the verdict on a target is. -/
def flipOf? (c : RunSettings) (t : Target) (isUp : Bool) : Option Flip :=
  (c.subject? t).map fun j => ⟨j, t.node.id, isUp⟩

/-- The subject of a rooted target is one of the store, with the node of the target. -/
theorem mem_subjects (ht : t.Rooted s) {j : Subject} (hj : c.subject? t = some j) :
    (j, t.node.id) ∈ s.subjects := by
  obtain ⟨n, hn, hnode⟩ := Option.map_eq_some_iff.mp ht.node
  obtain ⟨a, ha, haddress⟩ := Option.map_eq_some_iff.mp ht.address
  unfold subject? at hj
  split at hj
  · cases hj
    have hid : a.id = t.address.id := congrArg (fun a => a.id) haddress
    have howner : a.nodeId = t.address.nodeId := congrArg (fun a => a.nodeId) haddress
    refine List.mem_append_left _ (List.mem_map.mpr ⟨a, Store.mem_records.mpr ⟨_, ha⟩, ?_⟩)
    rw [hid, howner, ht.owner]
  · split at hj
    · cases hj
      have hid : n.id = t.node.id := congrArg (fun n => n.id) hnode
      refine List.mem_append_right _ (List.mem_map.mpr ⟨n, Store.mem_records.mpr ⟨_, hn⟩, ?_⟩)
      rw [hid]
    · cases hj

theorem Settled.exists_subject {isUp : Bool} (h : c.Settled t result now s report s')
    (hup : report.transitionedTo = some isUp) : ∃ j, c.subject? t = some j := by
  cases hj : c.subject? t with
  | none =>
    have hnone := h.transitionedTo
    rw [hj, hup] at hnone
    cases hnone
  | some j => exact ⟨j, rfl⟩

/-- **A settled check flips its subject if and only if its report says so**, and nobody else. -/
theorem Settled.flipsTo_eq (h : c.Settled t result now s report s') (hs : s.Keyed) (ht : t.Rooted s) :
    s.flipsTo s' = (report.transitionedTo.bind (c.flipOf? t)).toList := by
  cases hj : c.subject? t with
  | none =>
    have hsame (j : Subject) : s'.health? j = s.health? j := by
      rw [h.health, if_neg (by rw [hj]; exact nofun)]
    have htransition : report.transitionedTo = none := by
      rw [h.transitionedTo, hj]
      rfl
    rw [Store.flipsTo_eq_nil hsame, htransition]
    rfl
  | some j =>
    have hsame : ∀ k, k ≠ j → s'.health? k = s.health? k := by
      intro k hk
      rw [h.health, if_neg fun he => hk (Option.some.inj (he.symm.trans hj))]
    have hself : s'.health? j
        = (s.health? j).map fun h => (c.policy.tracker.record h result.passed now).1 := by
      rw [h.health, if_pos hj]
    rw [Store.flipsTo_eq_toList hs (mem_subjects ht hj) hsame, h.transitionedTo, hj,
      Option.bind_some, Store.flip?, hself]
    cases s.health? j with
    | none => rfl
    | some health =>
      simp only [Option.map_some, Option.bind_some, Tracker.map_isUp_record]
      split
      · rfl
      · simp [flipOf?, hj]

end RunSettings

/-! ## Chronicles -/

/-- What may happen to a service and its store. -/
inductive Act where
  /-- The service takes a step at a time of the calendar. -/
  | serve (now : UInt64) (label : ServiceLabel)
  /-- Someone takes all DNS tasks. -/
  | takeDnsTasks

/-- Whether an act adds no other tasks than those that keep everything in one store. -/
def Act.StoreBacked : Act → Prop
  | .serve _ label => label.StoreBacked
  | .takeDnsTasks => True

namespace Service

variable {v₀ v v' : Service} {flips : List Flip} {act : Act}

/-- The service after an act, if the act is possible. -/
def perform? (v : Service) : Act → Option Service
  | .serve now label => v.step now label
  | .takeDnsTasks =>
    match v.store.takeDnsTasks with
    | .ok (_, store) => some { v with store }
    | .error _ => none

/-- The chronicles of a service: the flips from one act to the next, and where the acts led. -/
inductive Chronicle (v₀ : Service) : List Flip → Service → Prop
  | start : Chronicle v₀ [] v₀
  | act {flips : List Flip} {v v' : Service} {act : Act} : Chronicle v₀ flips v →
    act.StoreBacked → v.perform? act = some v' →
    Chronicle v₀ (flips ++ v.store.flipsTo v'.store) v'

/-- What an act does to a service. -/
inductive Turn (v : Service) : Act → Service → Prop
  /-- The act does not settle a check: health and notifications stay as they are. -/
  | quiet {act : Act} {v' : Service} : (∀ now id w, act ≠ .serve now (.work id (.settle w))) →
    (∀ j, v'.store.health? j = v.store.health? j) → v'.store.notifications = v.store.notifications →
    (act ≠ .takeDnsTasks → v'.store.dnsTasks = v.store.dnsTasks) → Turn v act v'
  /-- A run settles a check. -/
  | settles {now : UInt64} {id w : Nat} {task : Task} {r r' : Run} {t : Target} {result : CheckResult}
    {report : Report} {v' : Service} : v.tasks[id]? = some task → task.run? = some r →
    v'.tasks[id]? = some { task with state := .running r' } → r'.reports = r.reports ++ [report] →
    t.Rooted v.store → r.settings.Settled t result now v.store report v'.store →
    Turn v (.serve now (.work id (.settle w))) v'

/-- What is settled in a step that settles, and in no other. -/
theorem exists_settle_of_happening? {m : Moment} {r : Run} {l : RunLabel} {t : Target}
    {result : CheckResult} (h : r.happening? m l = some ⟨t, .settled result⟩) : ∃ w, l = .settle w := by
  cases l with
  | settle w => exact ⟨w, rfl⟩
  | resume w => cases h
  | _ =>
    rw [Run.happening?] at h
    split at h <;> cases h

theorem settledOf_settle_ne_nil {m : Moment} {s s' : Store} {r r' : Run} {w : Nat}
    (h : r.step m s (.settle w) = some (s', r')) :
    Run.settledOf (r.happening? m (.settle w)).toList ≠ [] := by
  rw [Run.step] at h
  split at h
  · rename_i hw
    rw [Run.happening?, hw]
    exact List.cons_ne_nil _ _
  · cases h

theorem Kept.turn_work {now : UInt64} {id : Nat} {label : RunLabel} (hv : v.Kept)
    (h : v.step now (.work id label) = some v') :
    v'.Kept ∧ v.Turn (.serve now (.work id label)) v' := by
  obtain ⟨hkept', task, r, r', htask, hr, hkept, htask', hstep, heffect⟩ := hv.step_work h
  refine ⟨hkept', ?_⟩
  generalize hg : (r.happening? ⟨v.clock, now⟩ label).toList = g at heffect
  generalize hs : v'.store = s at heffect
  generalize hreports : r'.reports = reports at heffect
  cases heffect with
  | quiet hsettled =>
    refine .quiet ?_ (fun j => by rw [hs]) (by rw [hs]) fun _ => by rw [hs]
    rintro now' id' w heq
    cases heq
    exact settledOf_settle_ne_nil hstep (hg ▸ hsettled)
  | @settles t result report s hchecked hsettled =>
    obtain ⟨w, rfl⟩ := exists_settle_of_happening? (Option.toList_eq_singleton_iff.mp hg)
    have hrooted : t.Rooted v.store := by
      refine hkept.rooted t (List.mem_append_right _ (List.mem_filterMap.mpr ⟨_, hchecked, rfl⟩))
    exact .settles htask hr htask' hreports hrooted (hs ▸ hsettled)

/-- **Every act keeps everything in the store, and only settled checks change health.** -/
theorem Kept.turn (hv : v.Kept) (hact : act.StoreBacked) (h : v.perform? act = some v') :
    v'.Kept ∧ v.Turn act v' := by
  cases act with
  | takeDnsTasks =>
    simp only [perform?, Store.takeDnsTasks_of_wellFormed hv.wellFormed] at h
    cases h
    have hfleet : v.store.fleet = { v.store with dnsTasks := .empty : Store }.fleet := rfl
    refine ⟨⟨hv.wellFormed.withoutDnsTasks, fun t ht => (hv.tasks t ht).congr hfleet⟩,
      .quiet nofun ?_ rfl (absurd rfl)⟩
    intro j
    cases j <;> rfl
  | serve now label =>
    by_cases hwork : ∃ id l, label = .work id l
    · obtain ⟨id, l, rfl⟩ := hwork
      exact hv.turn_work h
    · have hlabel : ∀ id l, label ≠ .work id l := fun id l he => hwork ⟨id, l, he⟩
      obtain ⟨hkept', hstore⟩ := hv.step_aside hact hlabel h
      refine ⟨hkept', .quiet ?_ (fun j => by rw [hstore]) (by rw [hstore]) fun _ => by rw [hstore]⟩
      rintro now' id w heq
      cases heq
      exact hlabel _ _ rfl

/-! ## Flips and what tells of them -/

/-- Room after an act means room before it. -/
theorem Turn.hasRoom (hv : v.Kept) (hturn : v.Turn act v') (hroom : v'.store.HasRoom) :
    v.store.HasRoom := by
  cases hturn with
  | quiet _ _ hnotifications _ => exact hroom.congr hnotifications.symm
  | settles _ _ _ _ _ hsettled =>
    rcases hsettled.outbox with ⟨-, hnotifications, -⟩ | ⟨e, -, -, hnotifications, -⟩
    · exact hroom.congr hnotifications.symm
    · exact Store.hasRoom_of_createNotification hv.wellFormed (hroom.congr hnotifications.symm)

/-- The flips of an act are announced one by one. -/
theorem Turn.announced (hv : v.Kept) (hturn : v.Turn act v') (hroom : v.store.HasRoom) :
    ∃ notes, v'.store.records .notifications = v.store.records .notifications ++ notes
      ∧ List.Forall₂ Flip.AnnouncedBy (v.store.flipsTo v'.store) notes := by
  cases hturn with
  | quiet _ hhealth hnotifications _ =>
    refine ⟨[], ?_, ?_⟩
    · rw [Store.records_notifications_congr hnotifications, List.append_nil]
    · rw [Store.flipsTo_eq_nil hhealth]
      exact .nil
  | @settles now id w task r r' t result report v' _ _ _ _ hrooted hsettled =>
    rw [hsettled.flipsTo_eq hv.wellFormed.keyed hrooted]
    rcases hsettled.outbox with ⟨htransition, hnotifications, -⟩ |
      ⟨e, htransition, hevent, hnotifications, -⟩
    · -- no flip, and no notification
      refine ⟨[], ?_, ?_⟩
      · rw [Store.records_notifications_congr hnotifications, List.append_nil]
      · rw [htransition]
        exact .nil
    · -- one flip, and the notification of its event
      refine ⟨_, (Store.records_notifications_congr hnotifications).trans
        (Store.records_createNotification hv.wellFormed hroom e.draft now), ?_⟩
      obtain ⟨j, hj⟩ := hsettled.exists_subject htransition
      rw [htransition, Option.bind_some, RunSettings.flipOf?, hj]
      exact .cons ⟨(hevent hrooted).1, rfl, rfl⟩ .nil

theorem Chronicle.kept (hchronicle : Chronicle v₀ flips v) (hv₀ : v₀.Kept) : v.Kept := by
  induction hchronicle with
  | start => exact hv₀
  | act _ hact hstep ih => exact (ih.turn hact hstep).1

theorem Chronicle.announced (hchronicle : Chronicle v₀ flips v) (hv₀ : v₀.Kept)
    (hroom : v.store.HasRoom) :
    ∃ notes, v.store.records .notifications = v₀.store.records .notifications ++ notes
      ∧ List.Forall₂ Flip.AnnouncedBy flips notes := by
  induction hchronicle with
  | start => exact ⟨[], (List.append_nil _).symm, .nil⟩
  | act hchronicle hact hstep ih =>
    have hv := hchronicle.kept hv₀
    have hturn := (hv.turn hact hstep).2
    -- room in the end means that there was room all along
    have hroom' := hturn.hasRoom hv hroom
    obtain ⟨notes, hnotes, hannounced⟩ := ih hroom'
    obtain ⟨notes', hnotes', hannounced'⟩ := hturn.announced hv hroom'
    refine ⟨notes ++ notes', ?_, List.rel_append hannounced hannounced'⟩
    rw [hnotes', hnotes, List.append_assoc]

/-- What an act that settles a check has to show for it. -/
structure Reported (v v' : Service) (r : Run) (report : Report) : Prop where
  /-- The report tells of the flip, if there is one. -/
  transitionedTo : (v.store.flipsTo v'.store).map (fun f => (f.nodeId, f.isUp))
    = report.transitionedTo.toList.map fun isUp => (report.nodeId, isUp)
  /-- Only subjects of the mode of the run flip. -/
  mode : ∀ f ∈ v.store.flipsTo v'.store, f.subject.mode = r.settings.mode
  /-- A node that flips waits for the DNS service, if nodes of its role are published there. -/
  awaitsDns : ∀ f ∈ v.store.flipsTo v'.store, ∀ n, v.store.record? .nodes (idKey f.nodeId) = some n →
    n.role.participatesInDns → v'.store.AwaitsDns f.nodeId

theorem mode_of_flipOf? {c : RunSettings} {t : Target} {isUp : Bool} {f : Flip}
    (h : c.flipOf? t isUp = some f) : f.subject.mode = c.mode ∧ f.nodeId = t.node.id := by
  obtain ⟨j, hj, rfl⟩ := Option.map_eq_some_iff.mp h
  unfold RunSettings.subject? at hj
  split at hj
  · rename_i hmode
    cases hj
    exact ⟨hmode.symm, rfl⟩
  · rename_i hmode
    split at hj <;> cases hj
    exact ⟨hmode.symm, rfl⟩

/-- **A settled check reports the flip it makes**, and sees to the DNS of the node. -/
theorem reported_of_settled {r : Run} {t : Target} {result : CheckResult} {now : UInt64} {report : Report}
    (hv : v.Kept) (hrooted : t.Rooted v.store)
    (hsettled : r.settings.Settled t result now v.store report v'.store) : Reported v v' r report := by
  have hflips := hsettled.flipsTo_eq hv.wellFormed.keyed hrooted
  have hflip : ∀ f ∈ v.store.flipsTo v'.store,
      ∃ isUp, report.transitionedTo = some isUp ∧ r.settings.flipOf? t isUp = some f := by
    intro f hf
    rw [hflips, Option.mem_toList] at hf
    exact Option.bind_eq_some_iff.mp hf
  refine ⟨?_, ?_, ?_⟩
  · have hnode : report.nodeId = t.node.id := congrArg Report.nodeId hsettled.bare
    rw [hflips, hnode]
    cases hup : report.transitionedTo with
    | none => rfl
    | some isUp =>
      obtain ⟨j, hj⟩ := hsettled.exists_subject hup
      rw [Option.bind_some, RunSettings.flipOf?, hj]
      rfl
  · intro f hf
    obtain ⟨isUp, -, hof⟩ := hflip f hf
    exact (mode_of_flipOf? hof).1
  · intro f hf n hn hrole
    obtain ⟨isUp, hup, hof⟩ := hflip f hf
    obtain ⟨-, hnode⟩ := mode_of_flipOf? hof
    rcases hsettled.outbox with ⟨hnone, -⟩ | ⟨e, -, hevent, -, hawaits, -⟩
    · rw [hnone] at hup
      cases hup
    · obtain ⟨hid, herole⟩ := hevent hrooted
      have hidentity := hrooted.identity_of_record?_node (hnode ▸ hn)
      have hnrole : n.role = t.node.role := congrArg (fun n => n.role) hidentity
      rw [hnode, ← hid]
      exact hawaits hv.wellFormed (by rw [herole, ← hnrole]; exact hrole)

/-- **Flips are announced and reported exactly once.** After any acts on a service that started without
tasks, the notifications that were added are those of the flips, in their order. As for the next act:
unless it settles a check, it flips nothing, and if it does, the report it adds tells of the flip. Nodes
wait for the DNS service until someone takes the tasks. -/
theorem flips_announced_once (hstore : v₀.store.WellFormed) (htasks : v₀.tasks = [])
    (hchronicle : Chronicle v₀ flips v) (hroom : v.store.HasRoom) :
    (∃ notes, v.store.records .notifications = v₀.store.records .notifications ++ notes
      ∧ List.Forall₂ Flip.AnnouncedBy flips notes)
    ∧ ∀ act v', act.StoreBacked → v.perform? act = some v' →
      ((∀ now id w, act ≠ .serve now (.work id (.settle w))) → v.store.flipsTo v'.store = [])
      ∧ (∀ now id w, act = .serve now (.work id (.settle w)) →
        ∃ r r' report, v.run? id = some r ∧ v'.run? id = some r' ∧ r'.reports = r.reports ++ [report]
          ∧ Reported v v' r report)
      ∧ (act ≠ .takeDnsTasks → ∀ nodeId, v.store.AwaitsDns nodeId → v'.store.AwaitsDns nodeId) := by
  have hv₀ : v₀.Kept := ⟨hstore, fun t ht => by rw [htasks] at ht; cases ht⟩
  have hv := hchronicle.kept hv₀
  refine ⟨hchronicle.announced hv₀ hroom, ?_⟩
  intro act v' hact hstep
  cases (hv.turn hact hstep).2 with
  | quiet hlabel hhealth _ hdns =>
    refine ⟨fun _ => Store.flipsTo_eq_nil hhealth, fun now id w heq => absurd heq (hlabel now id w),
      fun htake nodeId hawaits => hawaits.congr (hdns htake)⟩
  | @settles now id w task r r' t result report v' htask hr htask' hreports hrooted hsettled =>
    refine ⟨fun hlabel => absurd rfl (hlabel now id w), ?_,
      ?_⟩
    · intro now' id' w' heq
      cases heq
      refine ⟨r, r', report, ?_, ?_, hreports, reported_of_settled hv hrooted hsettled⟩
      · rw [run?, htask]
        exact hr
      · rw [run?, htask']
        rfl
    · intro _ nodeId hawaits
      rcases hsettled.outbox with ⟨-, -, hdns⟩ | ⟨e, -, -, -, -, hkeeps⟩
      · exact hawaits.congr hdns
      · exact hkeeps nodeId hawaits

/-! ## A small chronicle -/

/-- A check of the small fleet that failed. -/
def smallFailure : CheckResult :=
  { passed := false, reason := some unknownReason, elapsed := 0, attempts := 1 }

/-- A service that has this check to settle, at a store. -/
def failedCheck (s : Store) : Service :=
  { store := s
    tasks := [⟨1, { poolSize := 1 }, none, false, .running
      { Run.start smallPlan 1 .address standardPipeline none with
        queue := [smallTarget 2 "10.0.0.2"]
        workers := [.checked (smallTarget 1 "10.0.0.1") smallFailure] }⟩] }

theorem Chronicle.aside (hchronicle : Chronicle v₀ flips v) (act : Act) (hact : act.StoreBacked)
    (hstep : v.perform? act = some v') (hstore : v'.store = v.store) : Chronicle v₀ flips v' := by
  have hnone : v.store.flipsTo v'.store = [] :=
    Store.flipsTo_eq_nil fun j => by rw [hstore]
  have hnext := hchronicle.act hact hstep
  rw [hnone, List.append_nil] at hnext
  exact hnext

theorem chronicle_failedCheck {s : Store} (hresolve : s.resolve 1 = .ok smallPlan) :
    Chronicle { store := s } [] (failedCheck s) := by
  have hspawned := (Chronicle.start : Chronicle { store := s } [] { store := s }).aside
    (.serve 0 (.spawn 1 { poolSize := 1 } none)) ⟨rfl, rfl⟩ rfl rfl
  have hbegin : perform? { store := s, tasks := [⟨1, { poolSize := 1 }, none, false, .due⟩] }
      (.serve 0 (.begin 0)) = some { store := s, tasks := [⟨1, { poolSize := 1 }, none, false, .running
        (Run.start smallPlan 1 .address standardPipeline none)⟩] } := by
    simp [perform?, step, beginRun, hresolve, setTask]
  have hbegun := hspawned.aside (.serve 0 (.begin 0)) trivial hbegin rfl
  have htaken := hbegun.aside (.serve 0 (.work 0 (.take 0))) trivial rfl rfl
  have hsent := htaken.aside (.serve 0 (.work 0 (.send 0 ⟨0, some ⟨false, none⟩⟩))) trivial rfl rfl
  exact hsent.aside (.serve 0 (.work 0 (.receive 0))) trivial rfl rfl

/-- The failed check takes its address down. -/
theorem exists_settle_failedCheck {s : Store} (hs : s.WellFormed) (hnone : s.notifications.rows = [])
    (hresolve : s.resolve 1 = .ok smallPlan) : ∃ v',
    (failedCheck s).perform? (.serve 0 (.work 0 (.settle 0))) = some v'
    ∧ s.flipsTo v'.store = [⟨.address 1, 1, false⟩] ∧ v'.store.HasRoom := by
  obtain ⟨report, s', hsettle, hsettled⟩ :=
    RunSettings.settled_settle (c := ⟨smallSnapshot, .address, standardPipeline⟩) rfl
      (smallTarget 1 "10.0.0.1") smallFailure 0 s
  obtain ⟨htarget, hhealth⟩ := Store.mem_addressed_of_smallPlan hs.keyed hresolve
  have hdown : report.transitionedTo = some false := by
    rw [hsettled.transitionedTo]
    show (s.health? (.address 1)).bind _ = _
    rw [hhealth]
    rfl
  refine ⟨⟨0, s', [⟨1, { poolSize := 1 }, none, false, .running
    { Run.start smallPlan 1 .address standardPipeline none with
      queue := [smallTarget 2 "10.0.0.2"], workers := [.free], reports := [report] }⟩], []⟩, ?_, ?_, ?_⟩
  · simp [perform?, step, failedCheck, Task.run?, Run.step, Run.start, smallPlan, Run.setWorker, setTask,
      hsettle]
  · rw [hsettled.flipsTo_eq hs.keyed (Store.rooted_of_mem_addressed hs.keyed htarget), hdown]
    rfl
  · have hroom := Store.hasRoom_of_rows_eq_nil hnone
    rcases hsettled.outbox with ⟨-, hnotifications, -⟩ | ⟨e, -, -, hnotifications, -⟩
    · exact hroom.congr hnotifications
    · intro n hn
      rw [Store.records_notifications_congr hnotifications, Store.records_createNotification hs hroom,
        Store.records_notifications_of_rows_eq_nil hnone] at hn
      rw [List.mem_singleton.mp hn, Store.numberDraft, Store.nextNotificationId, Table.lastKey?, hnone]
      exact (by decide : (1 : UInt64) < 18446744073709551615)

/-- The flip that the failed check makes is announced and reported. -/
theorem flips_announced_once_failedCheck : ∃ v',
    (failedCheck smallStore).perform? (.serve 0 (.work 0 (.settle 0))) = some v'
    ∧ Chronicle { store := smallStore } [⟨.address 1, 1, false⟩] v' ∧ v'.store.HasRoom
    ∧ (∃ notes, v'.store.records .notifications = smallStore.records .notifications ++ notes
      ∧ List.Forall₂ Flip.AnnouncedBy [⟨.address 1, 1, false⟩] notes)
    ∧ ∃ r r' report, (failedCheck smallStore).run? 0 = some r ∧ v'.run? 0 = some r'
      ∧ r'.reports = r.reports ++ [report] ∧ Reported (failedCheck smallStore) v' r report := by
  have hs := Store.wellFormed_smallStore
  have hnone : smallStore.notifications.rows = [] := rfl
  have hroom := Store.hasRoom_of_rows_eq_nil hnone
  have hchronicle := chronicle_failedCheck Store.resolve_smallStore
  obtain ⟨v', hstep, hflips, hroom'⟩ := exists_settle_failedCheck hs hnone Store.resolve_smallStore
  have hsettle : Act.StoreBacked (.serve 0 (.work 0 (.settle 0))) := trivial
  have hnext := hchronicle.act hsettle hstep
  rw [List.nil_append, show (failedCheck smallStore).store = smallStore from rfl, hflips] at hnext
  refine ⟨v', hstep, hnext, hroom', ?_, ?_⟩
  · exact (flips_announced_once hs rfl hnext hroom').1
  · exact ((flips_announced_once hs rfl hchronicle hroom).2 _ v' hsettle hstep).2.1 0 0 0 rfl

end Service

end FleetHealth
