import FleetHealth.Proofs.Inventory.Loading
import FleetHealth.Proofs.Monitor.Traffic
import FleetHealth.Proofs.Run.Recovering
/-!
# Backups over the life of a fleet

A fleet comes into being by inventories, which may be loaded anew at any time between runs, and its
backups are lent and withdrawn by the runs. A run withdraws a backup when the address is up again, by the
thresholds that it finds on the node then. An inventory that was loaded in the meantime may have taken
the threshold of the backup away from there, and then the backup stays.

* `History` — what may happen to a store: loads and runs in any order, one check settled at a time.
* `History.failedHandlers_eq_nil` — no reaction to a change of health fails in it.
* `History.clear_iff_recoversInPlace` — no address that is up has a backup, just as long as those that
  recover find the threshold of their backup in place.
* `History.not_forall_clear` — which does not always hold.
-/

namespace FleetHealth

/-- Whether no worker of a run is settling its check. -/
def Job.Idle (j : Job) : Prop :=
  ∀ w, j.settling w = none

/-- What may happen to a store that was empty: inventories are loaded whose addresses bring along neither
health nor a backup, and clusters are checked, one at a time, with everything kept in the store. Any
number of workers go through a run, transaction by transaction, but none begins to settle its check while
another one is still settling its own: a threshold that had found an address down would lend it a backup
even if the other worker has brought it up by then (`lent_of_found_down`). Listed are the stores between
loads and settled checks, the last one first; then come the store as it is, and the run under way. -/
inductive History : List Store → Store → Option Job → Prop
  | empty : History [{}] {} none
  | loads {stores : List Store} {s s' : Store} {i : Inventory} {summary : ImportSummary} :
    History stores s none → (∀ a ∈ i.addresses, a.identity = a) → i.load s = (.ok summary, s') →
    History (s' :: stores) s' none
  | begins {stores : List Store} {s : Store} {clusterId : UInt64} {resolved : Resolved}
    {poolSize : Nat} : History stores s none → s.resolve clusterId = .ok resolved →
    History stores s (some (.begun ⟨resolved, poolSize, .address, standardReactions⟩))
  | works {stores : List Store} {s s' : Store} {j j' : Job} {m : Moment} {l : JobLabel}
    {done : List Access} : History stores s (some j) → (∀ w, l = .settle w → j.Idle) →
    (∀ w, l ≠ .report w) → j.step m s l = some (done, s', j') → History stores s' (some j')
  | reports {stores : List Store} {s s' : Store} {j j' : Job} {m : Moment} {w : Nat}
    {done : List Access} : History stores s (some j) → j.step m s (.report w) = some (done, s', j') →
    History (s' :: stores) s' (some j')
  | ends {stores : List Store} {s : Store} {j : Job} :
    History stores s (some j) → j.run.isOver → History stores s none

/-! ## Loads -/

namespace Inventory

variable {s s' : Store}

/-- An address after a load was there before, with the same health and the same backup, or is new. -/
theorem Reloaded.mem_records (h : Reloaded s s') (hs : s.WellFormed) (hs' : s'.WellFormed) {a : Address}
    (ha : a ∈ s'.records .addresses) :
    (∃ b ∈ s.records .addresses, b.id = a.id ∧ b.upkeep = a.upkeep)
      ∨ s.record? .addresses (idKey a.id) = none ∧ a.upkeep = ({}, none, none) := by
  have hrecord := (Store.mem_records_addresses hs').mp ha
  rcases h a.id with hsame | ⟨hnone, hbare⟩
  · rw [hrecord, Option.map_some, eq_comm] at hsame
    obtain ⟨b, hb, hupkeep⟩ := Option.map_eq_some_iff.mp hsame
    have hid : b.id = a.id := hs.keyed.address_id hb
    exact .inl ⟨b, (Store.mem_records_addresses hs).mpr (hid ▸ hb), hid, hupkeep⟩
  · rw [hrecord, Option.map_some] at hbare
    exact .inr ⟨hnone, Option.some.inj hbare⟩

theorem Reloaded.paired (h : Reloaded s s') (hs : s.WellFormed) (hs' : s'.WellFormed)
    (hpaired : s.Paired) : s'.Paired := by
  intro a ha
  unfold Address.Paired
  rcases h.mem_records hs hs' ha with ⟨b, hb, -, hupkeep⟩ | ⟨-, hbare⟩
  · obtain ⟨-, hip, hid⟩ := Address.upkeep_eq_iff.mp hupkeep
    have hpaired : b.backupIp.isSome = b.backupThresholdId.isSome := hpaired b hb
    rw [hip, hid] at hpaired
    exact hpaired
  · obtain ⟨-, hip, hid⟩ := Address.upkeep_eq_iff.mp hbare
    rw [hip, hid]
    rfl

/-- A load lends no backup. -/
theorem Reloaded.clear (h : Reloaded s s') (hs : s.WellFormed) (hs' : s'.WellFormed) (hclear : s.Clear) :
    s'.Clear := by
  intro a ha hup
  rcases h.mem_records hs hs' ha with ⟨b, hb, -, hupkeep⟩ | ⟨-, hbare⟩
  · obtain ⟨hhealth, hip, hid⟩ := Address.upkeep_eq_iff.mp hupkeep
    have hbefore := hclear b hb
    rw [hhealth, hip, hid] at hbefore
    exact hbefore hup
  · exact (Address.upkeep_eq_iff.mp hbare).2

/-- A load brings no address up. -/
theorem Reloaded.recoversInPlace (h : Reloaded s s') (hs : s.WellFormed) (hs' : s'.WellFormed) :
    s.RecoversInPlace s' := by
  intro a ha a' ha' hid hdown hup
  rw [Store.mem_records_addresses hs] at ha
  rcases h.mem_records hs hs' ha' with ⟨b, hb, hbid, hupkeep⟩ | ⟨hnone, -⟩
  · rw [Store.mem_records_addresses hs, hbid, hid, ha] at hb
    cases hb
    have hhealth : a.health = a'.health := (Address.upkeep_eq_iff.mp hupkeep).1
    rw [hhealth, hup] at hdown
    cases hdown
  · rw [hid, ha] at hnone
    cases hnone

end Inventory

/-! ## Steps of a run -/

/-- Whether a run checks addresses for themselves that a store knows, each as one of the node in whose
part it was found, and everything that follows is kept in the store. -/
structure RunPlan.StoreBacked (s : Store) (p : RunPlan) : Prop where
  mode : p.mode = .address
  reactions : p.reactions = standardReactions
  rooted : ∀ t ∈ p.targets, t.Rooted s
  role : ∀ t ∈ p.targets, t.address.role = t.node.role

theorem RunPlan.storeBacked_of_resolve {s : Store} {clusterId : UInt64} {resolved : Resolved}
    (hs : s.Keyed) (hresolve : s.resolve clusterId = .ok resolved) (poolSize : Nat) :
    RunPlan.StoreBacked s ⟨resolved, poolSize, .address, standardReactions⟩ := by
  have htargets : resolved.targets = s.probePlan clusterId := (Store.resolve_eq_ok hresolve).2
  refine ⟨rfl, rfl, ?_, ?_⟩ <;> intro t ht <;> rw [targets, htargets] at ht
  · exact Store.rooted_of_mem_addressed hs ht
  · have haddress := (Store.mem_addressed_probePlan.mp ht).2
    exact (Store.mem_eligibleAddresses.mp (Store.mem_of_firstOfGreatestOrder haddress)).2.2.1

/-- Settling a check leaves the targets where they are rooted. -/
theorem RunPlan.StoreBacked.amends {s s' : Store} {p : RunPlan} (hp : p.StoreBacked s) {c : RunSettings}
    {t : Target} {result : CheckResult} {now : UInt64} (h : c.Amends t result now s s') :
    p.StoreBacked s' :=
  ⟨hp.mode, hp.reactions, fun t ht => h.rooted (hp.rooted t ht), hp.role⟩

namespace Job

variable {before s s' : Store} {j j' : Job} {m : Moment} {l : JobLabel} {done : List Access}
  {p : Procedure Report}

/-- Whether the check of a target was settled without a failing reaction, as its report tells, and the
addresses amended. -/
def Amending (before : Store) (j : Job) (t : Target) (report : Report) (s : Store) : Prop :=
  report.failedHandlers = [] ∧
    ∃ result now, j.plan.start.settings.Amends t result now before s

/-- Whether a worker, and no other, is about to amend a store for one of the targets. -/
structure Amender (before s : Store) (j : Job) (w : Nat) (p : Procedure Report) : Prop where
  alone : ∀ v, v ≠ w → j.settling v = none
  ensures : ∃ t ∈ j.plan.targets, p.Ensures (fun _ => True) (j.Amending before t) s

/-- What holds of the run under way in every history. -/
structure Lending (before s : Store) (j : Job) : Prop where
  sound : j.Sound
  plan : j.plan.StoreBacked before
  reports : ∀ report ∈ j.run.reports, report.failedHandlers = []
  settling : ∀ w p, j.settling w = some p → j.Amender before s w p
  idle : j.Idle → s = before

theorem lending_begun {plan : RunPlan} (hplan : plan.StoreBacked s) : (begun plan).Lending s s :=
  ⟨sound_begun plan, hplan, nofun, nofun, fun _ => rfl⟩

/-- One worker goes on settling its check. -/
theorem Lending.setSettling (hj : j.Lending before s) {w : Nat} (hsound : (j.setSettling w (some p)).Sound)
    (halone : ∀ v, v ≠ w → j.settling v = none)
    (hensures : ∃ t ∈ j.plan.targets, p.Ensures (fun _ => True) (j.Amending before t) s') :
    (j.setSettling w (some p)).Lending before s' := by
  have hother (v : Nat) (hv : v ≠ w) : (j.setSettling w (some p)).settling v = none :=
    (settling_setSettling_of_ne _ hv).trans (halone v hv)
  refine ⟨hsound, hj.plan, hj.reports, fun v q hq => ?_, fun hidle => ?_⟩
  · by_cases hv : v = w
    · subst hv
      rw [settling_setSettling] at hq
      cases hq
      exact ⟨hother, hensures⟩
    · rw [hother v hv] at hq
      cases hq
  · have hnone := hidle w
    rw [settling_setSettling] at hnone
    cases hnone

/-- A step of a run, other than a report on a check that is settled. -/
theorem Lending.step (hj : j.Lending before s) (hs : before.WellFormed)
    (halone : ∀ w, l = .settle w → j.Idle) (hreport : ∀ w, l ≠ .report w)
    (hmoves : j.Moves m s l done s' j') : j'.Lending before s' := by
  have hsound := hj.sound.step hmoves
  cases hmoves with
  | works hl hstep =>
    have hreports := (Run.quiet_of_step hl hstep).reports
    refine ⟨hsound, hj.plan, fun report hmem => hj.reports report (hreports ▸ hmem), ?_, hj.idle⟩
    exact fun w p hp => ⟨(hj.settling w p hp).alone, (hj.settling w p hp).ensures⟩
  | @settles w t result hw =>
    -- nobody was settling a check, so that the store is still the one before
    have hidle := halone w rfl
    obtain rfl := hj.idle hidle
    refine hj.setSettling hsound (fun v _ => hidle v) ⟨t, hj.sound.undisturbed.checked_mem hw, ?_⟩
    rw [hj.sound.undisturbed.settings, hj.plan.reactions]
    refine (RunSettings.ensures_settling hj.plan.mode hs t result).mono ?_
    rintro report s' ⟨hfailed, now, -, hamends⟩
    exact ⟨hfailed, result, now, hamends⟩
  | commits hcommits =>
    obtain ⟨halone, t, ht, hensures⟩ := hj.settling _ _ hcommits
    exact hj.setSettling hsound halone ⟨t, ht, hensures m.now trivial⟩
  | reports => exact absurd rfl (hreport _)

/-- A report on a check that is settled. -/
theorem Lending.report (hj : j.Lending before s) {w : Nat} (hmoves : j.Moves m s (.report w) done s' j') :
    j'.Lending s' s' ∧ ∃ t ∈ j.plan.targets, ∃ result now,
      j.plan.start.settings.Amends t result now before s' := by
  have hsound := hj.sound.step hmoves
  cases hmoves with
  | reports hreports =>
    obtain ⟨halone, t, ht, hfailed, result, now, hamends⟩ := hj.settling _ _ hreports
    refine ⟨⟨hsound, hj.plan.amends hamends, ?_, ?_, fun _ => rfl⟩, t, ht, result, now, hamends⟩
    · exact List.forall_mem_append.mpr ⟨hj.reports, List.forall_mem_singleton.mpr hfailed⟩
    · intro v p hp
      -- it was the only worker with a check to settle
      have hnone : (j.setSettling w none).settling v = none := by
        by_cases hv : v = w
        · exact hv ▸ j.settling_setSettling w none
        · exact (settling_setSettling_of_ne _ hv).trans (halone v hv)
      cases hnone.symm.trans hp

/-- A run that is over leaves no check behind that is being settled. -/
theorem Sound.idle_of_isOver (hj : j.Sound) (hover : j.run.isOver) : j.Idle := by
  intro w
  cases hp : j.settling w with
  | none => rfl
  | some p =>
    obtain ⟨t, result, hw, -⟩ := hj.settling w p hp
    have hover := List.all_eq_true.mp hover _ (List.mem_of_getElem? hw)
    cases hover

end Job

/-! ## Histories -/

namespace History

variable {stores earlier : List Store} {before s s' : Store} {job : Option Job}

/-- What holds of the last store between checks, of the store as it is and of the run under way, whatever
has happened. -/
structure Sound (before s : Store) (job : Option Job) : Prop where
  wellFormed : before.WellFormed
  paired : before.Paired
  run : ∀ j ∈ job, j.Lending before s
  rest : job = none → s = before

theorem sound_none (hs : s.WellFormed) (hpaired : s.Paired) : Sound s s none :=
  ⟨hs, hpaired, (fun _ hj => by cases hj), fun _ => rfl⟩

theorem Sound.loads {i : Inventory} {summary : ImportSummary} (h : Sound before s none)
    (hbare : ∀ a ∈ i.addresses, a.identity = a) (hload : i.load s = (.ok summary, s')) :
    Sound s' s' none ∧ (before.Clear → (s'.Clear ↔ before.RecoversInPlace s')) := by
  obtain rfl := h.rest rfl
  obtain ⟨-, -, rfl⟩ := (Inventory.load_eq_ok_iff h.wellFormed).mp hload
  have hs' := Inventory.wellFormed_written h.wellFormed i
  have hreloaded := Inventory.reloaded_written s hbare
  refine ⟨sound_none hs' (hreloaded.paired h.wellFormed hs' h.paired), ?_⟩
  intro hclear
  exact ⟨fun _ => hreloaded.recoversInPlace h.wellFormed hs',
    fun _ => hreloaded.clear h.wellFormed hs' hclear⟩

theorem Sound.begins {clusterId : UInt64} {resolved : Resolved} (h : Sound before s none)
    (hresolve : s.resolve clusterId = .ok resolved) (poolSize : Nat) :
    Sound before s (some (.begun ⟨resolved, poolSize, .address, standardReactions⟩)) := by
  obtain rfl := h.rest rfl
  refine ⟨h.wellFormed, h.paired, fun j hj => ?_, fun hnone => by cases hnone⟩
  cases hj
  exact Job.lending_begun (RunPlan.storeBacked_of_resolve h.wellFormed.keyed hresolve poolSize)

theorem Sound.works {j j' : Job} {m : Moment} {l : JobLabel} {done : List Access}
    (h : Sound before s (some j)) (halone : ∀ w, l = .settle w → j.Idle) (hreport : ∀ w, l ≠ .report w)
    (hstep : j.step m s l = some (done, s', j')) : Sound before s' (some j') := by
  refine ⟨h.wellFormed, h.paired, fun j₁ hj₁ => ?_, fun hnone => by cases hnone⟩
  cases hj₁
  exact (h.run j rfl).step h.wellFormed halone hreport (Job.moves_of_step hstep)

theorem Sound.reports {j j' : Job} {m : Moment} {w : Nat} {done : List Access}
    (h : Sound before s (some j)) (hstep : j.step m s (.report w) = some (done, s', j')) :
    Sound s' s' (some j') ∧ (before.Clear → (s'.Clear ↔ before.RecoversInPlace s')) := by
  have hj := h.run j rfl
  obtain ⟨hj', t, ht, result, now, hamends⟩ := hj.report (Job.moves_of_step hstep)
  refine ⟨⟨hamends.wellFormed, hamends.paired h.wellFormed h.paired, fun j₁ hj₁ => ?_,
    fun hnone => by cases hnone⟩, fun hclear => ?_⟩
  · cases hj₁
    exact hj'
  · exact hamends.clear_iff h.wellFormed h.paired hclear (hj.plan.rooted t ht) (hj.plan.role t ht)

theorem Sound.ends {j : Job} (h : Sound before s (some j)) (hover : j.run.isOver) :
    Sound before s none := by
  have hj := h.run j rfl
  obtain rfl := hj.idle (hj.sound.idle_of_isOver hover)
  exact sound_none h.wellFormed h.paired

/-- Whether every address that came up from one store to the next, the last one first, found the threshold
of its backup in place. -/
def AlwaysInPlace (stores : List Store) : Prop :=
  stores.IsChain fun after before => before.RecoversInPlace after

/-- Whether all stores so far are clear, and the next one. -/
theorem clear_iff_cons (h : (∀ x ∈ before :: earlier, x.Clear) ↔ AlwaysInPlace (before :: earlier))
    (hnext : before.Clear → (s.Clear ↔ before.RecoversInPlace s)) :
    (∀ x ∈ s :: before :: earlier, x.Clear) ↔ AlwaysInPlace (s :: before :: earlier) := by
  rw [List.forall_mem_cons, AlwaysInPlace, List.isChain_cons_cons, h]
  -- either way the store before is clear, so that the next one can be judged
  exact and_congr_left fun hplace => hnext (h.mpr hplace before List.mem_cons_self)

/-- What every history keeps, with the equivalence that the next store adds to. -/
theorem sound_and_clear_iff (h : History stores s job) : ∃ before earlier, stores = before :: earlier
    ∧ Sound before s job ∧ ((∀ x ∈ stores, x.Clear) ↔ AlwaysInPlace stores) := by
  induction h with
  | empty =>
    have hempty : ∀ a ∈ ({} : Store).records .addresses, False := fun a ha => absurd ha List.not_mem_nil
    refine ⟨_, _, rfl, sound_none Store.wellFormed_empty fun a ha => (hempty a ha).elim, ?_⟩
    rw [List.forall_mem_singleton]
    exact iff_of_true (fun a ha => (hempty a ha).elim) (.singleton _)
  | loads _ hbare hload ih =>
    obtain ⟨before, earlier, rfl, hsound, hiff⟩ := ih
    obtain ⟨hsound, hnext⟩ := hsound.loads hbare hload
    exact ⟨_, _, rfl, hsound, clear_iff_cons hiff hnext⟩
  | begins _ hresolve ih =>
    obtain ⟨before, earlier, hstores, hsound, hiff⟩ := ih
    exact ⟨before, earlier, hstores, hsound.begins hresolve _, hiff⟩
  | works _ halone hreport hstep ih =>
    obtain ⟨before, earlier, hstores, hsound, hiff⟩ := ih
    exact ⟨before, earlier, hstores, hsound.works halone hreport hstep, hiff⟩
  | reports _ hstep ih =>
    obtain ⟨before, earlier, rfl, hsound, hiff⟩ := ih
    obtain ⟨hsound, hnext⟩ := hsound.reports hstep
    exact ⟨_, _, rfl, hsound, clear_iff_cons hiff hnext⟩
  | ends _ hover ih =>
    obtain ⟨before, earlier, hstores, hsound, hiff⟩ := ih
    exact ⟨before, earlier, hstores, hsound.ends hover, hiff⟩

/-- **No reaction to a change of health ever fails** in a history. -/
theorem failedHandlers_eq_nil {j : Job} (h : History stores s (some j)) :
    ∀ report ∈ j.run.reports, report.failedHandlers = [] := by
  obtain ⟨before, earlier, -, hsound, -⟩ := h.sound_and_clear_iff
  exact (hsound.run j rfl).reports

/-- **An address that is up has no backup, as long as addresses recover in place.** No store of a history
leaves a backup with an address that is up if and only if every address that comes up from one store to
the next found the threshold that lent it its backup still on its node, and still naming it. The store to
which everything led is one of them whenever no check is being settled, as after a run. -/
theorem clear_iff_recoversInPlace (h : History stores s job) :
    ((∀ x ∈ stores, x.Clear) ↔ AlwaysInPlace stores)
      ∧ ((∀ j ∈ job, j.Idle) → stores.head? = some s) := by
  obtain ⟨before, earlier, rfl, hsound, hiff⟩ := h.sound_and_clear_iff
  refine ⟨hiff, fun hidle => ?_⟩
  cases job with
  | none => rw [hsound.rest rfl, List.head?_cons]
  | some j => rw [(hsound.run j rfl).idle (hidle j rfl), List.head?_cons]

/-! ## A backup that stays -/

/-- An address of the small node that is probed only if the first one cannot be. -/
def spareAddress : Address :=
  { smallAddress 2 "10.0.0.2" with nodeId := 1 }

/-- A threshold of the small node, which names one of its two addresses. -/
def smallThreshold (id addressId : UInt64) : Threshold :=
  { id, nodeId := 1, addressId, backupIp := "10.9.9.9" }

/-- The small node, with a threshold for its first address. -/
def smallInventory : Inventory :=
  { clusters := [smallCluster], nodes := [smallNode 1],
    addresses := [smallAddress 1 "10.0.0.1", spareAddress], thresholds := [smallThreshold 5 1] }

/-- The same threshold for the spare address, and another one for the first address. -/
def laterThresholds : List Threshold :=
  [smallThreshold 5 2, smallThreshold 6 1]

/-- The address of the small node with what the service keeps in it. -/
def keptAddress (health : Health) (backup : Option (UInt64 × String)) : Address :=
  { smallAddress 1 "10.0.0.1" with
    health, backupIp := backup.map (·.2), backupThresholdId := backup.map (·.1) }

/-- What a run of the small cluster finds. -/
def keptPlan (health : Health) (backup : Option (UInt64 × String)) : Resolved :=
  ⟨smallCluster, smallSnapshot, [(smallNode 1, some (keptAddress health backup))]⟩

/-- Whether a store holds the small node, with its first address as given, and some thresholds on it. -/
structure Holds (s : Store) (a : Address) (ts : List Threshold) : Prop where
  wellFormed : s.WellFormed
  cluster : s.record? .clusters (idKey 1) = some smallCluster
  nodes : s.records .nodes = [smallNode 1]
  addresses : s.records .addresses = [a, spareAddress]
  thresholds : s.records .thresholds = ts
  onNode : ∀ t ∈ ts, t.nodeId = 1

variable {health : Health} {backup : Option (UInt64 × String)} {a : Address} {ts : List Threshold}

theorem Holds.resolve (h : Holds s (keptAddress health backup) ts) :
    s.resolve 1 = .ok (keptPlan health backup) := by
  have hs := h.wellFormed
  have hplan : s.probePlan 1 = (keptPlan health backup).targets := by
    simp only [Store.probePlan, Store.enabledNodes, Store.probeAddress?, Store.eligibleAddresses, h.nodes,
      h.addresses]
    rfl
  rw [Store.resolve_of_decodes (hs.decodes .nodes) (hs.decodes .addresses), hplan, Store.resolvePolicy,
    Store.findEnabledCluster, Store.getCluster, Store.find?_of_record? h.cluster]
  rfl

/-! ### Its loads -/

/-- The store of the small node before its addresses are loaded. -/
def nodeStore : Store :=
  (({} : Store).putCluster smallCluster).putNode (smallNode 1)

/-- The store after the inventory of the small node was loaded. -/
def listedStore : Store :=
  ((nodeStore.putAddress (smallAddress 1 "10.0.0.1")).putAddress spareAddress).putThreshold
    (smallThreshold 5 1)

theorem written_smallInventory : smallInventory.written {} = listedStore := by
  have hspare : (nodeStore.putAddress (smallAddress 1 "10.0.0.1")).record? .addresses (idKey 2)
      = none := by
    rw [Store.putAddress, Store.record?_put_ne]
    · rfl
    · intro he
      exact absurd (Store.idKey_injective he) (by decide)
  show ((nodeStore.putAddress (smallAddress 1 "10.0.0.1")).putAddress
    (spareAddress.inPlaceOf ((nodeStore.putAddress (smallAddress 1 "10.0.0.1")).record? .addresses
      (idKey 2)))).putThreshold (smallThreshold 5 1) = listedStore
  rw [hspare]
  rfl

theorem holds_listedStore : Holds listedStore (keptAddress {} none) [smallThreshold 5 1] where
  wellFormed := by
    rw [← written_smallInventory]
    exact Inventory.wellFormed_written Store.wellFormed_empty _
  cluster := by
    rw [listedStore, nodeStore, Store.putThreshold, Store.putAddress, Store.putAddress, Store.putNode,
      Store.putCluster]
    rw [Store.record?_put_of_table_ne _ (by decide), Store.record?_put_of_table_ne _ (by decide),
      Store.record?_put_of_table_ne _ (by decide), Store.record?_put_of_table_ne _ (by decide)]
    exact Store.record?_put_self smallCluster
  nodes := by
    rw [listedStore, nodeStore, Store.putThreshold, Store.putAddress, Store.putAddress, Store.putNode]
    rw [Store.records_put_of_table_ne _ (by decide), Store.records_put_of_table_ne _ (by decide),
      Store.records_put_of_table_ne _ (by decide)]
    exact Store.records_put_of_forall_lt (fun row hrow => absurd hrow List.not_mem_nil) (smallNode 1)
  addresses := by
    rw [listedStore, Store.putThreshold, Store.records_put_of_table_ne _ (by decide)]
    exact Store.records_put_put (c := .addresses) rfl
      (Store.idKey_lt_idKey (by decide : (1 : UInt64) < 2)) (smallAddress 1 "10.0.0.1") spareAddress
  thresholds := by
    rw [listedStore, Store.putThreshold]
    exact Store.records_put_of_forall_lt (fun row hrow => absurd hrow List.not_mem_nil)
      (smallThreshold 5 1)
  onNode := by decide

/-- The thresholds of the small node can be loaded anew. -/
theorem Holds.loads (h : Holds s a [smallThreshold 5 1]) (ha : a.id = 1)
    (hhistory : History stores s none) :
    ∃ stores' s', History stores' s' none ∧ Holds s' a laterThresholds := by
  have hs := h.wellFormed
  have hfound (b : Address) (hb : b ∈ [a, spareAddress]) : s.getAddress b.id = .ok (some b) := by
    rw [← h.addresses, Store.mem_records_addresses hs] at hb
    exact Store.find?_of_record? hb
  have hfirst : s.getAddress 1 = .ok (some a) := ha ▸ hfound a (by simp)
  have hspare : s.getAddress 2 = .ok (some spareAddress) := hfound spareAddress (by simp)
  have hvalid : Inventory.validate { thresholds := laterThresholds } s = .ok () := by
    unfold Inventory.validate laterThresholds smallThreshold
    simp only [List.forM_eq_forM, List.forM_nil, List.forM_cons, hfirst, hspare]
    rfl
  have hload := Inventory.load_of_validate hs hvalid
  refine ⟨_, _, hhistory.loads (fun a ha => absurd ha List.not_mem_nil) hload, ?_⟩
  have hput : (s.putThreshold (smallThreshold 5 2)).WellFormed :=
    Inventory.wellFormed_putThreshold s _ hs
  have hrecords : (s.putThreshold (smallThreshold 5 2)).records .thresholds = [smallThreshold 5 2] :=
    hs.records_put_of_singleton (c := .thresholds) h.thresholds rfl
  refine ⟨Inventory.wellFormed_written hs _, h.cluster, h.nodes, h.addresses, ?_, by decide⟩
  refine (hput.records_put_of_lt (c := .thresholds) (a := smallThreshold 6 1) ?_).trans ?_
  · intro t ht
    rw [hrecords, List.mem_singleton] at ht
    rw [ht]
    exact Store.idKey_lt_idKey (by decide)
  · rw [hrecords]
    rfl

/-! ### Its runs -/

/-- The settings of the runs of the small cluster. -/
def smallSettings : RunSettings :=
  { policy := smallSnapshot, mode := .address, handlers := standardPipeline }

/-- What a check of one attempt comes to. -/
def smallResult (passed : Bool) : CheckResult :=
  { passed, reason := if passed then none else some unknownReason, elapsed := 0, attempts := 1 }

/-- How the check of the first address is settled. -/
def smallSettling (health : Health) (backup : Option (UInt64 × String)) (passed : Bool) :
    Procedure Report :=
  smallSettings.settling standardReactions ⟨smallNode 1, keptAddress health backup⟩ (smallResult passed)

/-- A step of the run under way that has no transaction. -/
theorem goesOn {j : Job} (h : History stores s (some j)) {m : Moment} {l : RunLabel} {run : Run}
    (hl : ∀ w, l ≠ .settle w) (hstep : j.run.step m s l = some (s', run)) :
    History stores s (some (j.taken m l run)) :=
  h.works (fun _ hw => by cases hw) (fun _ hw => by cases hw) (Job.step_work hl hstep)

/-- With nobody in between, a worker gets done with its transactions and reports. -/
theorem reports_of_run {j : Job} (h : History stores s (some j)) {w : Nat} {p : Procedure Report}
    (hw : j.settling w = some p) (m : Moment) :
    History ((p.run m.now s).2 :: stores) (p.run m.now s).2
      (some ((j.setSettling w none).taken m (.settle w)
        ({ j.run with reports := j.run.reports ++ [(p.run m.now s).1] }.setWorker w .free))) := by
  induction p generalizing s j with
  | done report => exact h.reports (Job.step_report hw)
  | access x next ih =>
    have hcommitted := h.works (m := m) (fun _ hw => by cases hw) (fun _ hw => by cases hw)
      (Job.step_commit hw)
    have hreported := ih _ hcommitted (j.settling_setSettling w _)
    rw [Job.setSettling_setSettling] at hreported
    exact hreported

/-- With nobody in between, a worker settles its check. -/
theorem settles {j : Job} (h : History stores s (some j)) (hidle : j.Idle) {w : Nat} (t : Target)
    (result : CheckResult) (hw : j.run.workers[w]? = some (.checked t result)) (m : Moment) :
    let settled := (j.run.settings.settling j.plan.reactions t result).run m.now s
    History (settled.2 :: stores) settled.2
      (some (j.taken m (.settle w)
        ({ j.run with reports := j.run.reports ++ [settled.1] }.setWorker w .free))) := by
  have hsettling := h.works (m := m) (fun _ _ => hidle) (fun _ hw => by cases hw)
    (Job.step_settle hw (hidle w))
  have hreported := hsettling.reports_of_run (j.settling_setSettling w _) m
  rw [Job.setSettling_setSettling, Job.setSettling_self (hidle w)] at hreported
  exact hreported

/-- The small cluster can be checked, with either result. -/
theorem checks (h : History stores s none) (hresolve : s.resolve 1 = .ok (keptPlan health backup))
    (passed : Bool) :
    ∃ stores', History stores' ((smallSettling health backup passed).run 0 s).2 none := by
  have hbegun : History stores s
      (some (.begun ⟨keptPlan health backup, 1, .address, standardReactions⟩)) := h.begins hresolve
  have htaken := hbegun.goesOn (m := ⟨0, 0⟩) (l := .take 0) nofun rfl
  have hsent := htaken.goesOn (m := ⟨0, 0⟩) (l := .send 0 ⟨0, some ⟨passed, none⟩⟩) nofun rfl
  have hreceived := hsent.goesOn (m := ⟨0, 0⟩) (l := .receive 0) nofun rfl
  have hsettled := hreceived.settles (fun _ => rfl) (w := 0) ⟨smallNode 1, keptAddress health backup⟩
    (smallResult passed) (by cases passed <;> rfl) ⟨0, 0⟩
  have hover := hsettled.goesOn (m := ⟨0, 0⟩) (l := .take 0) nofun rfl
  exact ⟨_, hover.ends rfl⟩

/-- What a run of the small cluster makes of its first address, if the check changes the verdict. -/
theorem Holds.checks (h : Holds s (keptAddress health backup) ts) (passed : Bool)
    (hflips : (smallSnapshot.tracker.record health passed 0).2.isSome)
    (ha : Threshold.amendAll .node ts
      (keptAddress (smallSnapshot.tracker.record health passed 0).1 backup) = a) :
    Holds ((smallSettling health backup passed).run 0 s).2 a ts := by
  have hs := h.wellFormed
  have hrecord : s.record? .addresses (idKey 1) = some (keptAddress health backup) := by
    refine (Store.mem_records_addresses (a := keptAddress health backup) hs).mp ?_
    rw [h.addresses]
    simp
  have hon : s.thresholdsOn (smallNode 1).id = ts := by
    rw [Store.thresholdsOn, h.thresholds, List.filter_eq_self]
    intro t ht
    exact beq_iff_eq.mpr (h.onNode t ht)
  have hensures : (smallSettling health backup passed).Ensures (· = 0) _ s :=
    RunSettings.ensures_settling rfl hs ⟨smallNode 1, keptAddress health backup⟩ (smallResult passed)
  obtain ⟨-, _, rfl, hamends⟩ := hensures.run rfl
  have hamended := hamends.flips ⟨_, hrecord, hflips⟩
  rw [hon] at hamended
  refine ⟨hamended.wellFormed, (Store.record?_congr (c := .clusters) hamended.clusters _).trans h.cluster,
    (Store.records_congr (c := .nodes) hamended.nodes).trans h.nodes, ?_,
    (Store.records_congr (c := .thresholds) hamended.thresholds).trans h.thresholds, h.onNode⟩
  -- the spare address is up and has no backup that could be withdrawn
  have hspare : Threshold.amendAll .node ts spareAddress = spareAddress :=
    Threshold.amendAll_of_no_backup rfl rfl
  rw [hamended.records hs (by simp), h.addresses, ← ha]
  show [_, Threshold.amendAll .node ts spareAddress] = _
  rw [hspare]
  rfl

/-! ### Its history -/

def smallBackup : UInt64 × String :=
  (5, "10.9.9.9")

/-- The health of the address when it was found down, and when it was found up again. -/
def healthDown : Health :=
  { isUp := false, consecutiveDown := 1 }

def healthAgain : Health :=
  { isUp := true, consecutiveUp := 1 }

/-- The address goes down and is lent a backup by a threshold. Then the threshold is put to use for the
spare address, and another one is named for the address that is down. When this one comes up again, the
threshold in its place has not lent it anything, and the backup stays. -/
theorem exists_backup_of_up : ∃ stores s, History stores s none
    ∧ keptAddress healthAgain (some smallBackup) ∈ s.records .addresses := by
  have hload : smallInventory.load {} = (.ok smallInventory.summary, listedStore) := by
    rw [← written_smallInventory]
    exact Inventory.load_of_validate Store.wellFormed_empty rfl
  have hlisted := History.empty.loads (by decide) hload
  obtain ⟨_, hlent⟩ := hlisted.checks holds_listedStore.resolve false
  have hholds := holds_listedStore.checks false
    (a := keptAddress healthDown (some smallBackup)) (by decide) (by decide)
  obtain ⟨_, s, hmoved, hholds⟩ := hholds.loads rfl hlent
  obtain ⟨_, hup⟩ := hmoved.checks hholds.resolve true
  have hholds := hholds.checks true
    (a := keptAddress healthAgain (some smallBackup)) (by decide) (by decide)
  refine ⟨_, _, hup, ?_⟩
  rw [hholds.addresses]
  exact List.mem_cons_self

theorem not_clear_of_mem (h : keptAddress healthAgain (some smallBackup) ∈ s.records .addresses) :
    ¬s.Clear := by
  intro hclear
  obtain ⟨hip, -⟩ := hclear _ h rfl
  cases hip

/-- In that history the address does not recover in place. -/
theorem exists_not_recoversInPlace : ∃ stores s, History stores s none ∧ ¬AlwaysInPlace stores := by
  obtain ⟨stores, s, h, hmem⟩ := exists_backup_of_up
  refine ⟨stores, s, h, fun hplace => ?_⟩
  obtain ⟨hiff, hhead⟩ := h.clear_iff_recoversInPlace
  exact not_clear_of_mem hmem (hiff.mpr hplace s (List.mem_of_head? (hhead fun j hj => by cases hj)))

/-- **Loads and runs may leave a backup with an address that is up.** -/
theorem not_forall_clear : ¬∀ stores s, History stores s none → s.Clear := by
  intro hall
  obtain ⟨stores, s, h, hmem⟩ := exists_backup_of_up
  exact not_clear_of_mem hmem (hall stores s h)

end History

end FleetHealth
