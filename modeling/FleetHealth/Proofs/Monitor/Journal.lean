import FleetHealth.Proofs.Monitor.Integrity
import FleetHealth.Proofs.Monitor.Traffic
import FleetHealth.Proofs.Store.Contents
/-!
# The journal of a store

Whatever is done to a store comes down to requests: a load of an inventory puts its records one by one,
and a run makes its requests while it settles checks. So a journal of requests tells what a store holds,
whoever made them: every record is found under its own number, in the version that was written last, and
is listed in the order of the numbers.

* `Inventory.after_requests`, `RunSettings.after_requests` — loads and checks as requests.
* `Journal` — all that may happen to a store, with the requests that were made.
* `Journal.reflects_log` — what the store holds and lists throughout.
-/

namespace FleetHealth

open Store

/-! ## Transactions -/

/-- A transaction of a run as a request. -/
def Access.request (now : UInt64) : Access → StoreRequest
  | recordAddress id t passed => .updateAddressHealth id fun h => (t.record h passed now).1
  | recordNode id t passed => .updateNodeHealth id fun h => (t.record h passed now).1
  | notify draft => .createNotification draft now
  | enqueueDnsTask nodeId taskType => .enqueueDnsTask nodeId taskType now
  | listThresholds nodeId => .listThresholds nodeId
  | getAddress id => .getAddress id
  | setBackup id backup => .setAddressBackup id backup

/-- What a client stores as a request. -/
def Edit.request : Edit → StoreRequest
  | putCluster c => .putCluster c
  | putNode n => .putNode n
  | putAddress a => .putAddress a
  | putThreshold t => .putThreshold t

/-- A transaction as a request. -/
def Commit.request : Commit → StoreRequest
  | edit e => e.request
  | access _ x now => x.request now

theorem Access.after_request (now : UInt64) (s : Store) (x : Access) :
    s.after (x.request now) = (x.run now s).2 := by
  cases x with
  | recordAddress id t passed =>
    have hrun := apply_recordAddress 0 id t passed now s
    rw [Access.request, after_updateAddressHealth]
    exact hrun.symm
  | recordNode id t passed =>
    have hrun := apply_recordNode 0 id t passed now s
    rw [Access.request, after_updateNodeHealth]
    exact hrun.symm
  | setBackup id backup =>
    have hrun := apply_setBackup 0 id backup now s
    rw [Access.request, after_setAddressBackup]
    exact hrun.symm
  | enqueueDnsTask nodeId taskType =>
    show s.after (.enqueueDnsTask nodeId taskType now)
      = (settled s (s.enqueueDnsTask nodeId taskType now)).2
    rw [after_eq_settled]
    show (settled s ((s.enqueueDnsTask nodeId taskType now).map _)).2 = _
    cases s.enqueueDnsTask nodeId taskType now <;> rfl
  | notify draft => rfl
  | listThresholds nodeId => exact after_of_read rfl
  | getAddress id => exact after_of_read rfl

theorem Commit.after_request (s : Store) (x : Commit) : s.after x.request = x.apply s := by
  cases x with
  | edit e => cases e <;> rfl
  | access _ x now => exact x.after_request now s

theorem Commit.afterAll_requests (s : Store) (log : List Commit) :
    s.afterAll (log.map Commit.request) = log.foldl Commit.apply s := by
  rw [afterAll, List.foldl_map]
  congr 1
  funext s x
  exact x.after_request s

namespace Procedure

variable {α : Type}

/-- The requests that a procedure makes when it is carried out in one go. -/
def requests (now : UInt64) (s : Store) : Procedure α → List StoreRequest
  | done _ => []
  | access x next => x.request now :: (next (x.run now s).1).requests now (x.run now s).2

theorem afterAll_requests (now : UInt64) (s : Store) (p : Procedure α) :
    s.afterAll (p.requests now s) = (p.run now s).2 := by
  induction p generalizing s with
  | done a => rfl
  | access x next ih =>
    rw [requests, afterAll, List.foldl_cons, x.after_request]
    exact ih _ _

end Procedure

/-! ## Checks -/

namespace RunSettings

variable {c : RunSettings} {rs : List Reaction}

/-- What is left to do when the result of a check is recorded: the reactions to what it changed. -/
def concluding (rs : List Reaction) (t : Target) (result : CheckResult) : Option Event → Procedure Report
  | none => .done (Report.checked t result)
  | some e => (reactAll e rs).bind fun failed =>
    .done { Report.checked t result with transitionedTo := some e.isUp, failedHandlers := failed }

theorem run_concluding (hc : c.handlers = rs.map Reaction.handler) (t : Target) (result : CheckResult)
    (event : Option Event) (now : UInt64) (s : Store) :
    (concluding rs t result event).run now s = c.conclude t result event now s := by
  cases event with
  | none => rfl
  | some e =>
    unfold concluding conclude
    rw [hc, Procedure.run_bind, run_reactAll]
    rfl

/-- The requests that settling a check makes to the store of the fleet. Where health is kept in another
store, that is told of no more than the reactions. -/
def requests (c : RunSettings) (rs : List Reaction) (t : Target) (result : CheckResult) (now : UInt64)
    (s : Store) : Option Store → List StoreRequest
  | none => (c.settling rs t result).requests now s
  | some ledger => (concluding rs t result (c.record t result now ledger).1).requests now s

/-- **Settling a check is a sequence of requests.** -/
theorem afterAll_requests (hc : c.handlers = rs.map Reaction.handler) (t : Target)
    (result : CheckResult) (now : UInt64) (s : Store) (ledger : Option Store) :
    s.afterAll (c.requests rs t result now s ledger) = (c.settle t result now s ledger).2.1 := by
  cases ledger with
  | none =>
    rw [c.run_settling hc]
    exact Procedure.afterAll_requests now s _
  | some ledger =>
    rw [requests, Procedure.afterAll_requests, run_concluding hc]
    rfl

end RunSettings

/-- Standard handlers are reactions. -/
theorem exists_reactions {handlers : List Handler} (hhandlers : ∀ h ∈ handlers, h.Standard) :
    ∃ rs : List Reaction, handlers = rs.map Reaction.handler := by
  have hone {h : Handler} (hh : h.Standard) : ∃ r : Reaction, h = r.handler := by
    obtain ⟨h', hmem, hcase⟩ := hh
    obtain ⟨r, rfl⟩ : ∃ r : Reaction, h' = r.handler := by
      simp only [standardPipeline, List.mem_cons, List.not_mem_nil, or_false] at hmem
      rcases hmem with rfl | rfl | rfl
      · exact ⟨.notification, rfl⟩
      · exact ⟨.dnsTask, rfl⟩
      · exact ⟨.threshold, rfl⟩
    rcases hcase with rfl | rfl
    · exact ⟨r, rfl⟩
    · exact ⟨.refused r, rfl⟩
  induction handlers with
  | nil => exact ⟨[], rfl⟩
  | cons h rest ih =>
    obtain ⟨r, rfl⟩ := hone (hhandlers h List.mem_cons_self)
    obtain ⟨rs, rfl⟩ := ih fun h hh => hhandlers h (List.mem_cons_of_mem _ hh)
    exact ⟨r :: rs, rfl⟩

/-! ## Loads -/

namespace Inventory

variable {α : Type} {s : Store}

/-- Requests for records one by one, each of which depends on what the store holds at that time. -/
def requestsEach (request : Store → α → StoreRequest) (s : Store) : List α → List StoreRequest
  | [] => []
  | a :: rest => request s a :: requestsEach request (s.after (request s a)) rest

/-- The request that writes a node in place of the one of its number. -/
def nodeRequest (s : Store) (n : Node) : StoreRequest :=
  .putNode (n.inPlaceOf (s.record? .nodes (idKey n.id)))

/-- The request that writes an address in place of the one of its number. -/
def addressRequest (s : Store) (a : Address) : StoreRequest :=
  .putAddress (a.inPlaceOf (s.record? .addresses (idKey a.id)))

/-- The requests that writing an inventory makes. -/
def writes (i : Inventory) (s : Store) : List StoreRequest :=
  let clusters := i.clusters.map .putCluster
  let s := s.afterAll clusters
  let nodes := requestsEach nodeRequest s i.nodes
  let s := s.afterAll nodes
  clusters ++ nodes ++ requestsEach addressRequest s i.addresses ++ i.thresholds.map .putThreshold

/-- The requests that a load makes, none if it is rejected. -/
def requests (i : Inventory) (s : Store) : List StoreRequest :=
  match i.validate s with
  | .ok () => i.writes s
  | .error _ => []

theorem afterAll_requestsEach (request : Store → α → StoreRequest) (s : Store) (as : List α) :
    s.afterAll (requestsEach request s as) = as.foldl (fun s a => s.after (request s a)) s := by
  induction as generalizing s with
  | nil => rfl
  | cons a rest ih => exact ih _

theorem afterAll_writes (i : Inventory) (s : Store) : s.afterAll (i.writes s) = i.written s := by
  unfold writes written
  simp only [afterAll_append, afterAll_requestsEach]
  simp only [afterAll, List.foldl_map]
  rfl

/-- **A load is a sequence of requests.** -/
theorem afterAll_requests (hs : s.WellFormed) (i : Inventory) :
    s.afterAll (i.requests s) = (i.load s).2 := by
  unfold requests
  cases hvalid : i.validate s with
  | ok _ =>
    rw [load_of_validate hs hvalid]
    exact i.afterAll_writes s
  | error e =>
    rw [load, hvalid]
    rfl

end Inventory

/-! ## All that may happen -/

/-- What may become of a service whose store was empty, with the requests that were made to the store:
anyone makes requests, inventories are loaded, accepted or not, and the service takes steps, some of which
settle a check of a run. -/
inductive Journal : Service → List StoreRequest → Prop
  | empty : Journal {} []
  | asks {v : Service} {log : List StoreRequest} (r : StoreRequest) :
    Journal v log → Journal { v with store := v.store.after r } (log ++ [r])
  | loads {v : Service} {log : List StoreRequest} (i : Inventory) :
    Journal v log → Journal { v with store := (i.load v.store).2 } (log ++ i.requests v.store)
  | settles {v v' : Service} {log : List StoreRequest} {now : UInt64} {id w : Nat} {t : Task} {r : Run}
    {target : Target} {result : CheckResult} {rs : List Reaction} :
    Journal v log → v.tasks[id]? = some t → t.run? = some r →
    r.workers[w]? = some (.checked target result) → r.settings.handlers = rs.map Reaction.handler →
    v.step now (.work id (.settle w)) = some v' →
    Journal v' (log ++ r.settings.requests rs target result now v.store r.ledger)
  | works {v v' : Service} {log : List StoreRequest} {now : UInt64} {l : ServiceLabel} :
    Journal v log → l.Standard → (∀ id w, l ≠ .work id (.settle w)) → v.step now l = some v' →
    Journal v' log

namespace Journal

variable {v v' : Service} {log : List StoreRequest} {now : UInt64} {l : ServiceLabel}

/-- A step that settles no check leaves the store as it is. -/
theorem store_of_works (hl : ∀ id w, l ≠ .work id (.settle w)) (hstep : v.step now l = some v') :
    v'.store = v.store := by
  by_cases hwork : ∃ id label, l = .work id label
  · obtain ⟨id, label, rfl⟩ := hwork
    obtain ⟨t, r, store, r', -, -, hrun, rfl⟩ := Service.work_eq_some hstep
    refine (Run.quiet_of_step ?_ hrun).store
    rintro w rfl
    exact hl id w rfl
  · exact (Service.aside_of_step (fun id label he => hwork ⟨id, label, he⟩) hstep).1

/-- **The journal tells the store.** -/
theorem store_eq (hv : Journal v log) : v.store = ({} : Store).afterAll log := by
  induction hv with
  | empty => rfl
  | asks r _ ih =>
    rw [afterAll_append, ← ih]
    rfl
  | @loads v log i _ ih =>
    have hs : v.store.WellFormed := ih ▸ wellFormed_afterAll wellFormed_empty log
    rw [afterAll_append, ← ih]
    exact (Inventory.afterAll_requests hs i).symm
  | settles _ ht hr hw hrs hstep ih =>
    obtain ⟨t', r', store, r'', ht', hr', hrun, rfl⟩ := Service.work_eq_some hstep
    cases ht.symm.trans ht'
    cases hr.symm.trans hr'
    rw [Run.step_settle_eq hw] at hrun
    cases hrun
    rw [afterAll_append, ← ih]
    exact (RunSettings.afterAll_requests hrs _ _ _ _ _).symm
  | works _ _ hl hstep ih => rw [store_of_works hl hstep, ih]

theorem standard (hv : Journal v log) : ∀ t ∈ v.tasks, t.Standard := by
  induction hv with
  | empty => exact fun t ht => absurd ht List.not_mem_nil
  | asks r _ ih => exact ih
  | loads i _ ih => exact ih
  | settles _ _ _ _ _ hstep ih =>
    exact (Service.keepsFleet_step (l := .work _ (.settle _)) ih trivial hstep).2
  | works _ hl _ hstep ih => exact (Service.keepsFleet_step ih hl hstep).2

/-- Whatever step the service takes, the journal goes on. -/
theorem goesOn (hv : Journal v log) (hl : l.Standard) (hstep : v.step now l = some v') :
    ∃ made, Journal v' (log ++ made) := by
  by_cases hsettle : ∃ id w, l = .work id (.settle w)
  · obtain ⟨id, w, rfl⟩ := hsettle
    obtain ⟨t, r, store, r', ht, hr, hrun, -⟩ := Service.work_eq_some hstep
    obtain ⟨target, result, hw⟩ : ∃ target result, r.workers[w]? = some (.checked target result) := by
      rw [Run.step] at hrun
      split at hrun
      · exact ⟨_, _, ‹_›⟩
      · cases hrun
    have hstandard := hv.standard t (List.mem_of_getElem? ht)
    obtain ⟨rs, hrs⟩ := exists_reactions (hstandard.run r hr)
    exact ⟨_, hv.settles ht hr hw hrs hstep⟩
  · refine ⟨[], ?_⟩
    rw [List.append_nil]
    exact hv.works hl (fun id w he => hsettle ⟨id, w, he⟩) hstep

/-- **Records are kept by number.** The keys of numbers differ when the numbers do and are in the same
order, and so are those of the tasks of one type. So whatever was done to a store that was empty, every
row stands under the key of its own record, no two of them hold records of one key, and what is listed is
the last version of every record of its kind, in the order of the numbers; notifications are numbered in
a row. No step of the service is an exception, and runs may go through the store transaction by
transaction, with clients in between. -/
theorem reflects_log (hv : Journal v log) :
    ((∀ a b, idKey a = idKey b → a = b) ∧ (∀ a b, idKey a < idKey b ↔ a < b)
      ∧ ∀ taskType, (∀ a b, dnsTaskKey a taskType = dnsTaskKey b taskType → a = b)
        ∧ ∀ a b, dnsTaskKey a taskType < dnsTaskKey b taskType ↔ a < b)
    ∧ v.store.Reflects log
    ∧ (∀ now l v', l.Standard → v.step now l = some v' → ∃ made, Journal v' (log ++ made))
    ∧ ∀ commits c, (Traffic.idle v.store).Steps commits c →
      c.store.Reflects (log ++ commits.map Commit.request) := by
  refine ⟨⟨fun _ _ => idKey_injective, fun _ _ => ⟨lt_of_idKey_lt, idKey_lt_idKey⟩, ?_⟩, ?_, ?_, ?_⟩
  · intro taskType
    exact ⟨fun _ _ => dnsTaskKey_injective,
      fun _ _ => ⟨lt_of_dnsTaskKey_lt, dnsTaskKey_lt_dnsTaskKey taskType⟩⟩
  · rw [hv.store_eq]
    exact reflects_afterAll log
  · intro now l v' hl hstep
    exact hv.goesOn hl hstep
  · intro commits c hsteps
    have hstore : c.store = ({} : Store).afterAll (log ++ commits.map Commit.request) := by
      rw [hsteps.store, afterAll_append, ← hv.store_eq, Commit.afterAll_requests]
      rfl
    rw [hstore]
    exact reflects_afterAll _

/-- A notification of a node that went down. -/
def smallDraft : NotificationDraft :=
  { role := .node, clusterId := 1, nodeId := 1, messageType := .nodeDown, level := .error,
    subject := "down", body := "node 1 is down" }

/-- After a load and two notifications, with a monitor spawned in between, the notifications are listed
with the numbers one and two. -/
theorem reflects_log_twoNotifications : ∃ v : Service, v.tasks.length = 1
    ∧ v.store.listNotifications = .ok [smallDraft.stored 1 5, smallDraft.stored 2 7] := by
  have hasked := (empty.loads Life.linkedInventory).asks (.createNotification smallDraft 5)
  have hspawned := hasked.works (l := .spawn 1 {} (some 60)) (fun h hh => ⟨h, hh, .inl rfl⟩) nofun
    (rfl : Service.step 6 _ _ = some _)
  obtain ⟨-, hreflects, -, -⟩ := reflects_log (hspawned.asks (.createNotification smallDraft 7))
  exact ⟨_, rfl, hreflects.numbered (by decide)⟩

end Journal

end FleetHealth
