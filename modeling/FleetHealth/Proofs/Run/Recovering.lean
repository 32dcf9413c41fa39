import FleetHealth.Proofs.Health.Tracker
import FleetHealth.Proofs.Propagation.Lending
import FleetHealth.Proofs.Run.Procedures
import FleetHealth.Proofs.Run.Settling
/-!
# Recovering

When a check brings an address up again, the thresholds on its node are applied, and the one that has
lent the address its backup takes it away, if it is still among them. An address that is up keeps a
backup if that threshold was put on another node in the meantime, or made to name another address.

* `RunSettings.ensures_settling` — what settling a check does to every address, if nobody comes between
  its transactions.
* `RunSettings.Amends.clear_iff` — then it leaves no backup with an address that is up, just when those
  that recover find the threshold of their backup in place.
* `lent_of_found_down` — what may happen if somebody does come between them.
-/

namespace FleetHealth

namespace Store

/-- No address that is up has a backup. -/
def Clear (s : Store) : Prop :=
  ∀ a ∈ s.records .addresses, a.health.isUp → a.backupIp = none ∧ a.backupThresholdId = none

/-- Whether backups come with the thresholds that lent them. -/
def Paired (s : Store) : Prop :=
  ∀ a ∈ s.records .addresses, a.Paired

/-- Whether the threshold that lent an address its backup, if there is one, still stands on the node of
the address and names the address. -/
def InPlace (s : Store) (a : Address) : Prop :=
  ∀ id ∈ a.backupThresholdId, ∃ t, s.record? .thresholds (idKey id) = some t ∧ t.nodeId = a.nodeId
    ∧ t.addressId = a.id

/-- Whether every address that is up in a second store and was down in a first one found the threshold of
its backup in place there. -/
def RecoversInPlace (s s' : Store) : Prop :=
  ∀ a ∈ s.records .addresses, ∀ a' ∈ s'.records .addresses, a'.id = a.id → a.health.isUp = false →
    a'.health.isUp → s.InPlace a

variable {s s' : Store} {f : Address → Address} {a : Address}

theorem mem_records_addresses (hs : s.WellFormed) :
    a ∈ s.records .addresses ↔ s.record? .addresses (idKey a.id) = some a :=
  hs.keyed.mem_records_iff (c := .addresses)

/-- The addresses after something was done to every address by itself. -/
theorem Amended.records (h : s.Amended f s') (hs : s.WellFormed) (hid : ∀ a, (f a).id = a.id) :
    s'.records .addresses = (s.records .addresses).map f := by
  refine h.wellFormed.keyed.records_eq (c := .addresses) ?_ ?_
  · rw [List.pairwise_map]
    refine (hs.keyed.pairwise_records (c := .addresses)).imp ?_
    intro a b hlt
    rw [hid, hid]
    exact hlt
  · intro a
    rw [h.address, Option.map_eq_some_iff, List.mem_map]
    constructor
    · rintro ⟨b, hb, rfl⟩
      refine ⟨b, ?_, rfl⟩
      rw [hid]
      exact (mem_records_addresses hs).mp hb
    · rintro ⟨b, hb, rfl⟩
      refine ⟨b, ?_, rfl⟩
      rw [mem_records_addresses hs]
      rw [hid] at hb
      exact hb

theorem Amended.mem_records_iff (h : s.Amended f s') (hs : s.WellFormed) (hid : ∀ a, (f a).id = a.id) :
    a ∈ s'.records .addresses ↔ ∃ b ∈ s.records .addresses, f b = a := by
  rw [h.records hs hid, List.mem_map]

theorem Amended.paired (h : s.Amended f s') (hs : s.WellFormed) (hid : ∀ a, (f a).id = a.id)
    (hf : ∀ a, a.Paired → (f a).Paired) (hpaired : s.Paired) : s'.Paired := by
  intro a' ha'
  obtain ⟨a, ha, rfl⟩ := (h.mem_records_iff hs hid).mp ha'
  exact hf a (hpaired a ha)

theorem Amended.rooted (h : s.Amended f s') (hf : ∀ a, (f a).identity = a.identity) {t : Target}
    (ht : t.Rooted s) : t.Rooted s' where
  node := by rw [record?_congr (c := .nodes) h.nodes]; exact ht.node
  address := by
    rw [h.address, Option.map_map, funext (f := Address.identity ∘ f) (g := Address.identity) hf]
    exact ht.address
  owner := ht.owner

/-- Whether a store is left clear can be told address by address. -/
theorem Amended.clear_iff (h : s.Amended f s') (hs : s.WellFormed) (hid : ∀ a, (f a).id = a.id)
    (hf : ∀ a ∈ s.records .addresses,
      ((f a).health.isUp → (f a).backupIp = none ∧ (f a).backupThresholdId = none)
        ↔ (a.health.isUp = false → (f a).health.isUp → s.InPlace a)) :
    s'.Clear ↔ s.RecoversInPlace s' := by
  constructor
  · intro hclear a ha a' ha' hsame hdown hup
    obtain ⟨b, hb, rfl⟩ := (h.mem_records_iff hs hid).mp ha'
    obtain rfl : b = a := by
      rw [hid] at hsame
      rw [mem_records_addresses hs] at ha hb
      rw [hsame, ha] at hb
      exact (Option.some.inj hb).symm
    exact (hf b ha).mp (hclear (f b) ha') hdown hup
  · intro hrecovers a' ha'
    obtain ⟨a, ha, rfl⟩ := (h.mem_records_iff hs hid).mp ha'
    exact (hf a ha).mpr fun hdown hup => hrecovers a ha (f a) ha' (hid a) hdown hup

end Store

namespace RunSettings

open Store Threshold

/-! ## A settled check, address by address -/

/-- What recording a result does to an address. -/
def judge (c : RunSettings) (t : Target) (result : CheckResult) (now : UInt64) (a : Address) : Address :=
  if a.id = t.address.id then
    { a with health := (c.policy.tracker.record a.health result.passed now).1 }
  else a

/-- Whether recording a result changes the verdict on an address. -/
def Flips (c : RunSettings) (t : Target) (result : CheckResult) (now : UInt64) (s : Store) : Prop :=
  ∃ a, s.record? .addresses (idKey t.address.id) = some a
    ∧ (c.policy.tracker.record a.health result.passed now).2.isSome

variable {c : RunSettings} {t : Target} {result : CheckResult} {now : UInt64} {s : Store} {a : Address}

@[simp] theorem judge_id : (c.judge t result now a).id = a.id := by
  unfold judge
  split <;> rfl

@[simp] theorem judge_role : (c.judge t result now a).role = a.role := by
  unfold judge
  split <;> rfl

@[simp] theorem judge_backupThresholdId :
    (c.judge t result now a).backupThresholdId = a.backupThresholdId := by
  unfold judge
  split <;> rfl

@[simp] theorem judge_backupIp : (c.judge t result now a).backupIp = a.backupIp := by
  unfold judge
  split <;> rfl

theorem judge_of_ne (h : a.id ≠ t.address.id) : c.judge t result now a = a :=
  if_neg h

theorem judge_of_eq (h : a.id = t.address.id) :
    c.judge t result now a
      = { a with health := (c.policy.tracker.record a.health result.passed now).1 } :=
  if_pos h

@[simp] theorem judge_identity : (c.judge t result now a).identity = a.identity := by
  unfold judge
  split <;> rfl

/-- Recording a result judges the address, and there is an event if that changes the verdict. -/
theorem amended_record (hmode : c.mode = .address) (hs : s.WellFormed) (t : Target)
    (result : CheckResult) (now : UInt64) :
    s.Amended (c.judge t result now) (c.record t result now s).2
      ∧ ((c.record t result now s).1.isSome ↔ c.Flips t result now s)
      ∧ ∀ e ∈ (c.record t result now s).1,
        e.addressId.isSome ∧ e.role = t.node.role ∧ e.nodeId = t.node.id := by
  unfold record
  simp only [hmode]
  cases ha : s.record? .addresses (idKey t.address.id) with
  | none =>
    -- there is no such address: nothing is recorded
    obtain ⟨e, he⟩ := recordAddress_of_record?_eq_none c.policy.tracker result.passed now ha
    rw [he]
    refine ⟨amended_of_forall_eq hs ?_, iff_of_false nofun ?_, nofun⟩
    · intro id b hb
      apply judge_of_ne
      intro hid
      rw [hs.keyed.address_id hb] at hid
      rw [hid, ha] at hb
      cases hb
    · rintro ⟨a, ha', -⟩
      rw [ha] at ha'
      cases ha'
  | some a =>
    have hid : a.id = t.address.id := hs.keyed.address_id ha
    have hrecord : s.recordAddress t.address.id c.policy.tracker result.passed now
        = .ok (c.judge t result now a, (c.policy.tracker.record a.health result.passed now).2,
          s.put .addresses (idKey t.address.id) (c.judge t result now a)) := by
      rw [recordAddress, updateAddressHealth, update_of_record? ha, judge_of_eq hid]
    rw [hrecord]
    refine ⟨amended_put hs ha judge_id fun b hb => judge_of_ne hb, ?_, ?_⟩
    · rw [Option.isSome_map]
      constructor
      · exact fun h => ⟨a, ha, h⟩
      · rintro ⟨b, hb, hflip⟩
        rw [ha] at hb
        cases hb
        exact hflip
    · intro e he
      obtain ⟨change, -, rfl⟩ := Option.map_eq_some_iff.mp he
      exact ⟨rfl, rfl, rfl⟩

end RunSettings

/-! ### Reactions -/

section Reactions

open Store Threshold

variable {times : UInt64 → Prop} {s : Store} {e : Event}

namespace Reaction

theorem ensures_notification (hs : s.WellFormed) (e : Event) : (notification.deliver e).Ensures times
    (fun outcome s' => outcome = .ok () ∧ s.Amended id s') s := by
  refine Procedure.ensures_of_single (fun reply => ⟨_, rfl⟩) fun now _ => ⟨rfl, ?_⟩
  exact amended_id rfl rfl rfl rfl (wellFormed_createNotification hs e.draft now)

theorem ensures_dnsTask (hs : s.WellFormed) (e : Event) : (dnsTask.deliver e).Ensures times
    (fun outcome s' => outcome = .ok () ∧ s.Amended id s') s := by
  refine Procedure.ensures_of_single (fun reply => ⟨_, rfl⟩) fun now _ => ?_
  simp only [Procedure.run, Access.run, Access.settled, enqueueDnsTask_eq hs]
  exact ⟨rfl, amended_id rfl rfl rfl rfl (hs.put .dnsTasks rfl)⟩

theorem ensures_threshold (hs : s.WellFormed) (e : Event) : (threshold.deliver e).Ensures times
    (fun outcome s' => outcome = .ok () ∧ s.Amended (amendAll e.role (s.thresholdsOn e.nodeId)) s') s := by
  -- backups are lent and withdrawn without a look at the clock
  have htimeless : (threshold.deliver e).All Access.Timeless :=
    all_deliver_threshold (fun _ _ _ _ => rfl) (fun _ _ _ _ _ => rfl) (fun _ _ _ _ => rfl) e
  refine Procedure.ensures_of_timeless htimeless 0 ?_
  rw [run_deliver]
  exact ⟨fire_of_wellFormed hs e.role e.nodeId, amended_fire hs e.role e.nodeId⟩

end Reaction

/-- A reaction that does not fail, and those after it. -/
theorem ensures_reactAll_cons {r : Reaction} {rs : List Reaction} {P Q : Store → Prop}
    (hr : r.handler.concerns e →
      (r.deliver e).Ensures times (fun outcome s' => outcome = .ok () ∧ P s') s)
    (hnot : ¬r.handler.concerns e → P s)
    (hrest : ∀ s', P s' →
      (reactAll e rs).Ensures times (fun failed s'' => failed = [] ∧ Q s'') s') :
    (reactAll e (r :: rs)).Ensures times (fun failed s'' => failed = [] ∧ Q s'') s := by
  rw [reactAll]
  split
  · rename_i hconcerns
    refine (hr hconcerns).bind ?_
    rintro _ s' ⟨rfl, hfirst⟩
    refine (hrest s' hfirst).bind ?_
    rintro _ s'' ⟨rfl, hothers⟩
    exact ⟨rfl, hothers⟩
  · rename_i hconcerns
    exact hrest s (hnot hconcerns)

/-- **All reactions together** apply the thresholds of the node, and none of them fails. -/
theorem ensures_standardReactions (hs : s.WellFormed) (he : e.addressId.isSome) :
    (reactAll e standardReactions).Ensures times
      (fun failed s' => failed = [] ∧ s.Amended (amendAll e.role (s.thresholdsOn e.nodeId)) s') s := by
  refine ensures_reactAll_cons (P := s.Amended id) (fun _ => Reaction.ensures_notification hs e)
    (fun h => absurd rfl h) fun s₁ h₁ => ?_
  refine ensures_reactAll_cons (P := s₁.Amended id) (fun _ => Reaction.ensures_dnsTask h₁.wellFormed e)
    (fun _ => amended_id rfl rfl rfl rfl h₁.wellFormed) fun s₂ h₂ => ?_
  refine ensures_reactAll_cons (fun _ => Reaction.ensures_threshold h₂.wellFormed e)
    (fun h => absurd he h) fun s₃ h₃ => ⟨rfl, ?_⟩
  have hon : s₂.thresholdsOn e.nodeId = s.thresholdsOn e.nodeId := by
    rw [thresholdsOn_congr h₂.thresholds, thresholdsOn_congr h₁.thresholds]
  rw [hon] at h₃
  exact (h₁.trans h₂).trans h₃

/-- **A threshold that has found an address down lends it the backup** in its next transaction, even if
another worker has brought the address up by then. -/
theorem lent_of_found_down {s' : Store} {t : Threshold} {a a' : Address} (hs : s.WellFormed)
    (ha : s.record? .addresses (idKey t.addressId) = some a) (hdown : a.health.isUp = false)
    (hnone : a.backupThresholdId = none) (ha' : s'.record? .addresses (idKey t.addressId) = some a')
    (now : UInt64) :
    ∃ next, fireOne a.role t = .access (.getAddress t.addressId) next ∧
      ((next (s.getAddress t.addressId)).run now s').2
        = s'.put .addresses (idKey t.addressId) (a'.withBackup (some (t.id, t.backupIp))) := by
  have hdecide : t.decide a = some (some (t.id, t.backupIp)) := by simp [Threshold.decide, hdown, hnone]
  refine ⟨_, rfl, ?_⟩
  rw [getAddress, find?_of_record? ha]
  simp only [if_true, hdecide]
  show (Access.run now s' (.setBackup a.id (some (t.id, t.backupIp)))).2 = _
  rw [Access.run, hs.keyed.address_id ha, setAddressBackup, update_of_record? ha']
  rfl

end Reactions

/-! ### Settling -/

namespace RunSettings

open Store Threshold

variable {c : RunSettings} {t : Target} {result : CheckResult} {now : UInt64} {times : UInt64 → Prop}
  {s s' : Store} {a : Address}

/-- What a settled check does to the addresses: its own is judged, and after a change of the verdict the
thresholds on its node are applied to all of them. -/
structure Amends (c : RunSettings) (t : Target) (result : CheckResult) (now : UInt64) (s s' : Store) :
    Prop where
  flips : c.Flips t result now s →
    s.Amended (amendAll t.node.role (s.thresholdsOn t.node.id) ∘ c.judge t result now) s'
  stays : ¬c.Flips t result now s → s.Amended (c.judge t result now) s'

/-- **A check is settled**, whenever its transactions are carried out: no reaction fails, and the
addresses are amended. -/
theorem ensures_settling (hmode : c.mode = .address) (hs : s.WellFormed) (t : Target)
    (result : CheckResult) :
    (c.settling standardReactions t result).Ensures times (fun report s' => report.failedHandlers = []
      ∧ ∃ now, times now ∧ c.Amends t result now s s') s := by
  have hrecording : (c.recording t result).Ensures times (fun event s' => ∃ now, times now
      ∧ s.Amended (c.judge t result now) s' ∧ (event.isSome ↔ c.Flips t result now s)
      ∧ ∀ e ∈ event, e.addressId.isSome ∧ e.role = t.node.role ∧ e.nodeId = t.node.id) s := by
    have hrun := run_recording c t result
    unfold recording at hrun ⊢
    simp only [hmode] at hrun ⊢
    refine Procedure.ensures_of_single ?_ fun now hnow => ⟨now, hnow, ?_⟩
    · intro reply
      split <;> exact ⟨_, rfl⟩
    · rw [hrun]
      exact amended_record hmode hs t result now
  refine hrecording.bind ?_
  rintro event s₁ ⟨now, hnow, hjudged, hflips, hevent⟩
  cases event with
  | none => exact ⟨rfl, now, hnow, fun h => absurd (hflips.mpr h) nofun, fun _ => hjudged⟩
  | some e =>
    obtain ⟨haddress, hrole, hnode⟩ := hevent e rfl
    refine (ensures_standardReactions hjudged.wellFormed haddress).bind ?_
    rintro failed s₂ ⟨rfl, hfired⟩
    rw [thresholdsOn_congr hjudged.thresholds, hrole, hnode] at hfired
    exact ⟨rfl, now, hnow, fun _ => hjudged.trans hfired, fun h => absurd (hflips.mp rfl) h⟩

/-! ## Backups of addresses that are up -/

/-- What a settled check does to the addresses keeps the backups paired. -/
theorem paired_judge (h : a.Paired) : (c.judge t result now a).Paired := by
  unfold Address.Paired
  rw [judge_backupIp, judge_backupThresholdId]
  exact h

/-- Only an address that is judged changes its verdict. -/
theorem isUp_judge_of_not_flips (h : ¬c.Flips t result now s)
    (ha : s.record? .addresses (idKey a.id) = some a) :
    (c.judge t result now a).health.isUp = a.health.isUp := by
  by_cases hid : a.id = t.address.id
  · rw [judge_of_eq hid]
    have hmap := c.policy.tracker.map_isUp_record a.health result.passed now
    apply Classical.byContradiction
    intro hne
    rw [if_neg hne] at hmap
    obtain ⟨change, hchange, -⟩ := Option.map_eq_some_iff.mp hmap
    exact h ⟨a, hid ▸ ha, by rw [hchange]; rfl⟩
  · rw [judge_of_ne hid]

/-- The threshold that lent an address of a target its backup is among those on the node of the target,
if it is in place. -/
theorem lends_iff_inPlace (hs : s.WellFormed) (c : RunSettings) (result : CheckResult) (now : UInt64)
    (hnode : a.nodeId = t.node.id) {id : UInt64} (hid : a.backupThresholdId = some id) :
    Lends (s.thresholdsOn t.node.id) (c.judge t result now a) ↔ s.InPlace a := by
  unfold Lends InPlace
  rw [judge_id, judge_backupThresholdId, hid, hnode]
  constructor
  · rintro ⟨th, hth, hnamed, hth'⟩ id' hid'
    obtain ⟨hrecord, hon⟩ := (mem_thresholdsOn hs).mp hth
    cases hid'
    refine ⟨th, ?_, hon, hnamed⟩
    rw [Option.some.inj hth']
    exact hrecord
  · intro hplace
    obtain ⟨th, hrecord, hon, hnamed⟩ := hplace id rfl
    have hkey : idKey id = idKey th.id := hs.keyed.key_eq (c := .thresholds) hrecord
    refine ⟨th, (mem_thresholdsOn hs).mpr ⟨hkey ▸ hrecord, hon⟩, hnamed, ?_⟩
    rw [idKey_injective hkey]

/-- Whether an address that a check brings up is left without a backup depends on the threshold that
lent it. -/
theorem clear_amendAll_iff (hs : s.WellFormed) (hpaired : a.Paired) (hrole : a.role = t.node.role)
    (hnode : a.nodeId = t.node.id) (hup : (c.judge t result now a).health.isUp) :
    ((amendAll t.node.role (s.thresholdsOn t.node.id) (c.judge t result now a)).backupIp = none
        ∧ (amendAll t.node.role (s.thresholdsOn t.node.id) (c.judge t result now a)).backupThresholdId
          = none)
      ↔ s.InPlace a := by
  cases hid : a.backupThresholdId with
  | none =>
    -- no threshold has lent it anything
    have hnone : (c.judge t result now a).backupThresholdId = none := by
      rw [judge_backupThresholdId]
      exact hid
    rw [amendAll_of_no_backup hup hnone, judge_backupIp, judge_backupThresholdId]
    constructor
    · intro _ id hmem
      rw [hid] at hmem
      cases hmem
    · intro _
      exact ⟨hpaired.backupIp_eq_none hid, hid⟩
  | some id =>
    obtain ⟨hwithdrawn, hkept⟩ :=
      amendAll_of_up (s.thresholdsOn t.node.id) hup (judge_role.trans hrole)
    rw [← lends_iff_inPlace hs c result now hnode hid]
    by_cases hlends : Lends (s.thresholdsOn t.node.id) (c.judge t result now a)
    · rw [hwithdrawn hlends]
      exact ⟨fun _ => hlends, fun _ => ⟨rfl, rfl⟩⟩
    · rw [hkept hlends, judge_backupThresholdId, hid]
      constructor
      · rintro ⟨-, hnone⟩
        cases hnone
      · intro h
        exact absurd h hlends

/-- **A settled check leaves a store clear just when every address that recovers finds the threshold of
its backup in place.** -/
theorem Amends.clear_iff (h : c.Amends t result now s s') (hs : s.WellFormed) (hpaired : s.Paired)
    (hclear : s.Clear) (hroot : t.Rooted s) (hrole : t.address.role = t.node.role) :
    s'.Clear ↔ s.RecoversInPlace s' := by
  by_cases hflip : c.Flips t result now s
  · refine (h.flips hflip).clear_iff hs (by simp) ?_
    intro a ha
    have hrecord := (mem_records_addresses hs).mp ha
    rw [Function.comp_apply, amendAll_health]
    by_cases hrecovers : a.health.isUp = false ∧ (c.judge t result now a).health.isUp
    · -- the address is the one that was checked, and it is up again
      obtain ⟨hdown, hup⟩ := hrecovers
      have hid : a.id = t.address.id := by
        apply Classical.byContradiction
        intro hne
        rw [judge_of_ne hne, hdown] at hup
        cases hup
      have hidentity := hroot.identity_of_record?_address (hid ▸ hrecord)
      have hnode : a.nodeId = t.node.id := (congrArg (fun a => a.nodeId) hidentity).trans hroot.owner
      have hrole : a.role = t.node.role := (congrArg (fun a => a.role) hidentity).trans hrole
      rw [← clear_amendAll_iff hs (hpaired a ha) hrole hnode hup]
      exact ⟨fun h _ _ => h hup, fun h _ => h hdown hup⟩
    · -- it was up before, without a backup that could be withdrawn
      constructor
      · intro _ hdown hup
        exact absurd ⟨hdown, hup⟩ hrecovers
      · intro _ hup
        have hbefore : a.health.isUp := by
          apply Classical.byContradiction
          intro hnot
          exact hrecovers ⟨Bool.eq_false_iff.mpr hnot, hup⟩
        obtain ⟨hip, hid⟩ := hclear a ha hbefore
        have hnone : (c.judge t result now a).backupThresholdId = none := by
          rw [judge_backupThresholdId]
          exact hid
        rw [amendAll_of_no_backup hup hnone, judge_backupIp]
        exact ⟨hip, hnone⟩
  · refine (h.stays hflip).clear_iff hs (by simp) ?_
    intro a ha
    have hup := isUp_judge_of_not_flips hflip ((mem_records_addresses hs).mp ha)
    rw [hup, judge_backupIp, judge_backupThresholdId]
    constructor
    · intro _ hdown hup
      rw [hdown] at hup
      cases hup
    · intro _
      exact hclear a ha

/-- A settled check keeps the backups paired. -/
theorem Amends.paired (h : c.Amends t result now s s') (hs : s.WellFormed) (hpaired : s.Paired) :
    s'.Paired := by
  by_cases hflip : c.Flips t result now s
  · refine (h.flips hflip).paired hs (by simp) ?_ hpaired
    intro a ha
    exact paired_amendAll (paired_judge ha) _ _
  · exact (h.stays hflip).paired hs (by simp) (fun a ha => paired_judge ha) hpaired

theorem Amends.wellFormed (h : c.Amends t result now s s') : s'.WellFormed := by
  by_cases hflip : c.Flips t result now s
  · exact (h.flips hflip).wellFormed
  · exact (h.stays hflip).wellFormed

/-- A settled check leaves targets rooted. -/
theorem Amends.rooted (h : c.Amends t result now s s') {t' : Target} (hroot : t'.Rooted s) :
    t'.Rooted s' := by
  by_cases hflip : c.Flips t result now s
  · exact (h.flips hflip).rooted (by simp) hroot
  · exact (h.stays hflip).rooted (by simp) hroot

end RunSettings

end FleetHealth
