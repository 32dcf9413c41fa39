import FleetHealth.Proofs.Propagation.Repeating
/-!
# Applying the thresholds of a node

Several thresholds of a node may name one address. What a pass over all of them makes of it can be told
without going through them one by one: the first of them lends a backup to an address that is down and
has none, the one that lent the backup keeps it up to date or takes it away, and the others do nothing.

* `Threshold.amendAll_eq_afterPass` — the pass over one address in closed form.
* `Store.fire_fire` — a second pass leaves every row as it is.
* `Store.fire_in_closed_form` — what a pass over the thresholds of a node does to a store.
-/

namespace FleetHealth

/-! ## One address -/

namespace Address

/-- The one of the thresholds that name an address which has to do with its backup: that which lent it,
or else, if none did, the first. -/
def guardian? (ts : List Threshold) (a : Address) : Option Threshold :=
  match a.backupThresholdId with
  | some id => ts.find? (·.id == id)
  | none => ts.head?

/-- What the thresholds that name an address, in ascending order, leave it with when they are applied for
a role. -/
def afterPass (role : Role) (ts : List Threshold) (a : Address) : Address :=
  if a.role = role then
    if a.health.isUp then
      if ∃ t ∈ ts, a.backupThresholdId = some t.id then a.withBackup none else a
    else
      match a.guardian? ts with
      | some t => a.withBackup (some (t.id, t.backupIp))
      | none => a
  else a

/-- Nothing but the backup changes. -/
theorem withoutBackup_afterPass (role : Role) (ts : List Threshold) (a : Address) :
    (a.afterPass role ts).withoutBackup = a.withoutBackup := by
  unfold afterPass
  split
  · split
    · split <;> rfl
    · split <;> rfl
  · rfl

end Address

namespace Threshold

variable {role : Role} {t : Threshold} {ts : List Threshold} {a : Address} {id : UInt64}

theorem amendAll_of_role_ne (h : a.role ≠ role) : amendAll role ts a = a := by
  induction ts with
  | nil => rfl
  | cons t rest ih =>
    have hamend : t.amend role a = a := by
      unfold amend
      rw [if_neg fun hnamed => h hnamed.2]
    show amendAll role rest (t.amend role a) = a
    rw [hamend]
    exact ih

/-- An address that is down is lent the backup of the first threshold, if none lent it one before. -/
theorem amend_of_down (hdown : a.health.isUp = false) (hnamed : t.addressId = a.id)
    (hfree : a.backupThresholdId = none ∨ a.backupThresholdId = some t.id) :
    t.amend a.role a = a.withBackup (some (t.id, t.backupIp)) := by
  unfold amend decide
  rcases hfree with hfree | hfree <;> simp [hdown, hnamed, hfree]

/-- A threshold that did not lend the backup of an address that is down leaves it alone. -/
theorem amend_of_lent (hdown : a.health.isUp = false) (hlent : a.backupThresholdId = some id)
    (hid : t.id ≠ id) : t.amend role a = a := by
  unfold amend decide
  simp [hdown, hlent, hid.symm]

theorem amendAll_of_lent (hdown : a.health.isUp = false) (hlent : a.backupThresholdId = some id)
    (hids : ∀ t ∈ ts, t.id ≠ id) : amendAll role ts a = a := by
  induction ts with
  | nil => rfl
  | cons t rest ih =>
    show amendAll role rest (t.amend role a) = a
    rw [amend_of_lent hdown hlent (hids t List.mem_cons_self)]
    exact ih fun t ht => hids t (List.mem_cons_of_mem _ ht)

/-- The thresholds that name an address which is down come to what its guardian does. -/
theorem amendAll_of_down (hdown : a.health.isUp = false) (hids : ts.Pairwise fun t u => t.id ≠ u.id) :
    amendAll a.role ts a
      = match a.guardian? (ts.filter (·.addressId == a.id)) with
        | some t => a.withBackup (some (t.id, t.backupIp))
        | none => a := by
  induction ts with
  | nil => cases hlent : a.backupThresholdId <;> simp [amendAll, Address.guardian?, hlent]
  | cons t rest ih =>
    obtain ⟨hhead, hrest⟩ := List.pairwise_cons.mp hids
    have hcons : amendAll a.role (t :: rest) a = amendAll a.role rest (t.amend a.role a) := rfl
    have hlends (hnamed : t.addressId = a.id)
        (hfree : a.backupThresholdId = none ∨ a.backupThresholdId = some t.id) :
        amendAll a.role (t :: rest) a = a.withBackup (some (t.id, t.backupIp)) := by
      -- once the first threshold has lent its backup, the others have no say
      rw [hcons, amend_of_down hdown hnamed hfree]
      have hlent : (a.withBackup (some (t.id, t.backupIp))).backupThresholdId = some t.id := rfl
      exact amendAll_of_lent hdown hlent fun u hu => (hhead u hu).symm
    by_cases hnamed : t.addressId = a.id
    · have hfilter : (t :: rest).filter (·.addressId == a.id)
          = t :: rest.filter (·.addressId == a.id) := by simp [hnamed]
      rw [hfilter]
      cases hlent : a.backupThresholdId with
      | none =>
        rw [hlends hnamed (.inl hlent)]
        simp [Address.guardian?, hlent]
      | some id =>
        by_cases hid : t.id = id
        · rw [hlends hnamed (.inr (hid ▸ hlent))]
          simp [Address.guardian?, hlent, hid]
        · have hguardian : a.guardian? (t :: rest.filter (·.addressId == a.id))
              = a.guardian? (rest.filter (·.addressId == a.id)) := by
            simp [Address.guardian?, hlent, hid]
          rw [hcons, amend_of_lent hdown hlent hid, hguardian]
          exact ih hrest
    · have hfilter : (t :: rest).filter (·.addressId == a.id)
          = rest.filter (·.addressId == a.id) := by simp [hnamed]
      rw [hcons, amend_of_ne hnamed, hfilter]
      exact ih hrest

/-- **A pass over one address in closed form**: of thresholds that differ by their numbers, those count
that name the address. -/
theorem amendAll_eq_afterPass (role : Role) (a : Address) (hids : ts.Pairwise fun t u => t.id ≠ u.id) :
    amendAll role ts a = a.afterPass role (ts.filter (·.addressId == a.id)) := by
  unfold Address.afterPass
  by_cases hrole : a.role = role
  · subst hrole
    rw [if_pos rfl]
    cases hup : a.health.isUp with
    | true =>
      have hlends : Lends ts a
          ↔ ∃ t ∈ ts.filter (·.addressId == a.id), a.backupThresholdId = some t.id := by
        simp only [Lends, List.mem_filter, beq_iff_eq, and_assoc]
      obtain ⟨hwithdraws, hleaves⟩ := amendAll_of_up ts hup (rfl : a.role = a.role)
      rw [if_pos rfl]
      by_cases h : Lends ts a
      · rw [hwithdraws h, if_pos (hlends.mp h)]
      · rw [hleaves h, if_neg fun hex => h (hlends.mpr hex)]
    | false => exact amendAll_of_down hup hids
  · rw [if_neg hrole, amendAll_of_role_ne hrole]

end Threshold

/-! ## A store -/

namespace Store

variable {s s' : Store} {role : Role} {nodeId : UInt64} {t : Threshold} {a : Address} {key : String}

/-- The thresholds on a node that name an address. -/
def thresholdsFor (s : Store) (nodeId : UInt64) (a : Address) : List Threshold :=
  (s.thresholdsOn nodeId).filter (·.addressId == a.id)

theorem pairwise_thresholdsOn (hs : s.WellFormed) (nodeId : UInt64) :
    (s.thresholdsOn nodeId).Pairwise fun t u => t.id < u.id :=
  ((hs.keyed.pairwise_records (c := .thresholds)).imp fun hlt => lt_of_idKey_lt hlt).filter _

theorem mem_thresholdsFor (hs : s.WellFormed) : t ∈ s.thresholdsFor nodeId a
    ↔ s.record? .thresholds (idKey t.id) = some t ∧ t.nodeId = nodeId ∧ t.addressId = a.id := by
  rw [thresholdsFor, List.mem_filter, mem_thresholdsOn hs, beq_iff_eq, and_assoc]

/-- What a pass over the thresholds of a node makes of the address under a key. -/
theorem record?_fire (hs : s.WellFormed) (role : Role) (nodeId : UInt64) (key : String) :
    (s.fire role nodeId).2.record? .addresses key
      = (s.record? .addresses key).map fun a => a.afterPass role (s.thresholdsFor nodeId a) := by
  have hids : (s.thresholdsOn nodeId).Pairwise fun t u => t.id ≠ u.id :=
    (pairwise_thresholdsOn hs nodeId).imp fun hlt => UInt64.ne_of_lt hlt
  cases ha : s.record? .addresses key with
  | none =>
    have hrow : s.row? .addresses key = none := by
      cases hrow : s.row? .addresses key with
      | none => rfl
      | some value =>
        obtain ⟨a, ha', -⟩ := rewrite_of_row? hs role default hrow
        rw [ha] at ha'
        cases ha'
    have hfired := row?_fire hs role nodeId key
    rw [hrow, Option.map_none] at hfired
    exact congrArg (Option.bind · Address.codec.read) hfired
  | some a =>
    have hkey := hs.keyed.key_eq ha
    subst hkey
    rw [(amended_fire hs role nodeId).address, ha, Option.map_some, Option.map_some,
      Threshold.amendAll_eq_afterPass role a hids]
    rfl

/-- The row of an address of another role, or of one that no threshold names, is not written. -/
theorem row?_fire_of_unconcerned (hs : s.WellFormed) (ha : s.record? .addresses key = some a)
    (h : a.role ≠ role ∨ s.thresholdsFor nodeId a = []) :
    (s.fire role nodeId).2.row? .addresses key = s.row? .addresses key := by
  rw [row?_fire hs]
  cases hrow : s.row? .addresses key with
  | none => rfl
  | some value =>
    rw [Option.map_some]
    rcases Threshold.rewriteAll_cases role (s.thresholdsOn nodeId) value with
      hsame | ⟨b, backup, hb, hrole, ⟨t, ht, hid⟩, -⟩
    · rw [hsame]
    · obtain rfl : b = a := by
        have hread : (s.row? .addresses key).bind Address.codec.read = some a := ha
        rw [hrow, Option.bind_some, hb] at hread
        exact Option.some.inj hread
      rcases h with hne | hnone
      · exact absurd hrole hne
      · have hmem : t ∈ s.thresholdsFor nodeId b := List.mem_filter.mpr ⟨ht, beq_iff_eq.mpr hid⟩
        rw [hnone] at hmem
        cases hmem

theorem thresholdsOn_fire (hs : s.WellFormed) (role : Role) (nodeId : UInt64) :
    (s.fire role nodeId).2.thresholdsOn nodeId = s.thresholdsOn nodeId :=
  thresholdsOn_congr (amended_fire hs role nodeId).thresholds nodeId

/-- A pass changes no table but that of the addresses. -/
theorem table_fire (hs : s.WellFormed) (role : Role) (nodeId : UInt64) {name : TableName}
    (h : name ≠ .addresses) : (s.fire role nodeId).2.table name = s.table name := by
  have hamended := amended_fire hs role nodeId
  have hback := rebacked_fire role nodeId s
  cases name with
  | clusters => exact hamended.clusters
  | nodes => exact hamended.nodes
  | addresses => exact absurd rfl h
  | notifications => exact hback.notifications
  | dnsTasks => exact hback.dnsTasks
  | thresholds => exact hamended.thresholds

/-- **A second pass leaves every row as it is**, to the letter. -/
theorem fire_fire (hs : s.WellFormed) (role : Role) (nodeId : UInt64) :
    (s.fire role nodeId).2.fire role nodeId = (.ok (), (s.fire role nodeId).2) := by
  have hfired := (amended_fire hs role nodeId).wellFormed
  refine Prod.ext (fire_of_wellFormed hfired role nodeId) (ext_table fun name => ?_)
  by_cases hname : name = .addresses
  · subst hname
    apply Table.ext_find?
    intro key
    have honce := row?_fire hs role nodeId key
    have htwice := row?_fire hfired role nodeId key
    rw [thresholdsOn_fire hs, honce, Option.map_map] at htwice
    refine htwice.trans (Eq.trans ?_ honce.symm)
    congr 1
    funext row
    -- after the first pass each of the thresholds is done
    exact Threshold.rewriteAll_of_forall fun t ht =>
      Threshold.rewrite_rewriteAll (fun t ht u hu => Event.eq_of_mem_thresholdsOn hs ht hu) ht
  · exact table_fire hfired role nodeId hname

theorem fireThresholds_append (hs : s.WellFormed) (role : Role) (before after : List Threshold) :
    s.fireThresholds role (before ++ after)
      = (s.fireThresholds role before).2.fireThresholds role after := by
  induction before generalizing s with
  | nil => rfl
  | cons t rest ih =>
    obtain ⟨s', hfire, hamended⟩ := amended_fireThreshold hs role t
    rw [List.cons_append, fireThresholds, fireThresholds, hfire]
    exact ih hamended.wellFormed

/-- A threshold of an address that there is not is passed over. -/
theorem fireThresholds_of_missing (hs : s.WellFormed) (role : Role) (before after : List Threshold)
    (hmissing : s.record? .addresses (idKey t.addressId) = none) :
    s.fireThresholds role (before ++ t :: after) = s.fireThresholds role (before ++ after) := by
  have hamended := amended_fireThresholds hs role before
  have hnone : (s.fireThresholds role before).2.record? .addresses (idKey t.addressId) = none := by
    rw [hamended.address, hmissing, Option.map_none]
  have hskip : (s.fireThresholds role before).2.fireThreshold role t
      = .ok (s.fireThresholds role before).2 := by
    unfold fireThreshold
    rw [getAddress, hamended.wellFormed.find?_of_record?_eq_none .addresses hnone]
    rfl
  rw [fireThresholds_append hs, fireThresholds_append hs, fireThresholds, hskip]

/-- Whether a store is what a pass over the thresholds of a node makes of another one. -/
structure Fired (role : Role) (nodeId : UInt64) (s s' : Store) : Prop where
  /-- Every address becomes what the thresholds of the node that name it leave it with. -/
  address : ∀ key, s'.record? .addresses key
    = (s.record? .addresses key).map fun a => a.afterPass role (s.thresholdsFor nodeId a)
  /-- No more than their backups changes of the addresses. -/
  backup : ∀ key, (s'.record? .addresses key).map Address.withoutBackup
    = (s.record? .addresses key).map Address.withoutBackup
  /-- The rows of addresses that are not concerned are not written. -/
  unconcerned : ∀ key a, s.record? .addresses key = some a →
    a.role ≠ role ∨ s.thresholdsFor nodeId a = [] → s'.row? .addresses key = s.row? .addresses key
  other : ∀ name, name ≠ .addresses → s'.table name = s.table name

/-- **What a pass over the thresholds of a node does**, over any well-formed store: it succeeds, it leaves
every address as those thresholds of the node say that name it, in ascending order, and nothing else is
changed; a threshold of an address that there is not might as well not be there; and a second pass does
nothing. -/
theorem fire_in_closed_form (hs : s.WellFormed) (role : Role) (nodeId : UInt64) :
    (∀ a, (s.thresholdsFor nodeId a).Pairwise (fun t u => t.id < u.id)
      ∧ ∀ t, t ∈ s.thresholdsFor nodeId a ↔ s.record? .thresholds (idKey t.id) = some t
        ∧ t.nodeId = nodeId ∧ t.addressId = a.id)
    ∧ (∃ s', s.fire role nodeId = (.ok (), s') ∧ Fired role nodeId s s'
      ∧ s'.fire role nodeId = (.ok (), s'))
    ∧ ∀ before t after, s.listThresholds nodeId = .ok (before ++ t :: after) →
      s.record? .addresses (idKey t.addressId) = none →
      s.fire role nodeId = s.fireThresholds role (before ++ after) := by
  refine ⟨?_, ?_, ?_⟩
  · intro a
    exact ⟨(pairwise_thresholdsOn hs nodeId).filter _, fun t => mem_thresholdsFor hs⟩
  · refine ⟨(s.fire role nodeId).2, Prod.ext (fire_of_wellFormed hs role nodeId) rfl, ?_,
      fire_fire hs role nodeId⟩
    refine ⟨record?_fire hs role nodeId, ?_, ?_, fun name => table_fire hs role nodeId⟩
    · intro key
      rw [record?_fire hs, Option.map_map]
      congr 1
      funext a
      exact Address.withoutBackup_afterPass role _ a
    · intro key a ha h
      exact row?_fire_of_unconcerned hs ha h
  · intro before t after hlist hmissing
    rw [fire, hlist]
    exact fireThresholds_of_missing hs role before after hmissing

/-! ### An address with two thresholds -/

/-- An address that is down. -/
def crowdedAddress : Address :=
  { id := 1, nodeId := 1, ip := "10.0.0.1", canAccess := true, isOn := true, health := { isUp := false } }

/-- A store in which two thresholds name that address, and one an address that there is not. -/
def crowdedStore : Store :=
  (((({} : Store).putAddress crowdedAddress).putThreshold ⟨1, 1, 7, "10.9.9.7"⟩).putThreshold
    ⟨2, 1, 1, "10.9.9.8"⟩).putThreshold ⟨3, 1, 1, "10.9.9.9"⟩

theorem wellFormed_crowdedStore : crowdedStore.WellFormed :=
  (((wellFormed_empty.put .addresses rfl).put .thresholds rfl).put .thresholds rfl).put .thresholds rfl

theorem record?_crowdedStore : crowdedStore.record? .addresses (idKey 1) = some crowdedAddress := by
  rw [crowdedStore, putThreshold, putThreshold, putThreshold, record?_put_of_table_ne _ (by decide),
    record?_put_of_table_ne _ (by decide), record?_put_of_table_ne _ (by decide)]
  exact record?_put_self crowdedAddress

theorem records_crowdedStore : crowdedStore.records .thresholds
    = [⟨1, 1, 7, "10.9.9.7"⟩, ⟨2, 1, 1, "10.9.9.8"⟩, ⟨3, 1, 1, "10.9.9.9"⟩] := by
  have h₀ := wellFormed_empty.put .addresses (a := crowdedAddress) rfl
  have h₁ := h₀.put .thresholds (a := ⟨1, 1, 7, "10.9.9.7"⟩) rfl
  have h₂ := h₁.put .thresholds (a := ⟨2, 1, 1, "10.9.9.8"⟩) rfl
  -- each threshold is written behind those before it
  have hfirst := h₀.records_put_of_lt (c := .thresholds) (a := ⟨1, 1, 7, "10.9.9.7"⟩) nofun
  have hsecond := h₁.records_put_of_lt (c := .thresholds) (a := ⟨2, 1, 1, "10.9.9.8"⟩) (by
    simp only [hfirst]
    exact List.forall_mem_singleton.mpr (idKey_lt_idKey (by decide)))
  have hthird := h₂.records_put_of_lt (c := .thresholds) (a := ⟨3, 1, 1, "10.9.9.9"⟩) (by
    simp only [hsecond, hfirst]
    exact List.forall_mem_cons.mpr ⟨idKey_lt_idKey (by decide),
      List.forall_mem_singleton.mpr (idKey_lt_idKey (by decide))⟩)
  rw [hsecond, hfirst] at hthird
  exact hthird

theorem thresholdsFor_crowdedStore : crowdedStore.thresholdsFor 1 crowdedAddress
    = [⟨2, 1, 1, "10.9.9.8"⟩, ⟨3, 1, 1, "10.9.9.9"⟩] := by
  rw [thresholdsFor, thresholdsOn, records_crowdedStore]
  rfl

/-- The first of them lends its backup, and a second pass finds nothing to do. -/
theorem fire_in_closed_form_crowdedStore :
    ∃ s', crowdedStore.fire .node 1 = (.ok (), s')
      ∧ s'.record? .addresses (idKey 1) = some (crowdedAddress.withBackup (some (2, "10.9.9.8")))
      ∧ s'.fire .node 1 = (.ok (), s') := by
  obtain ⟨-, ⟨s', hfire, hfired, hagain⟩, -⟩ := fire_in_closed_form wellFormed_crowdedStore .node 1
  refine ⟨s', hfire, ?_, hagain⟩
  rw [hfired.address, record?_crowdedStore, Option.map_some, thresholdsFor_crowdedStore]
  rfl

end Store

end FleetHealth
