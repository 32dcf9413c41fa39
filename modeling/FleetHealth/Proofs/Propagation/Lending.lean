import FleetHealth.Proofs.Propagation.Backup
/-!
# Lending and withdrawing

What thresholds do to the store they do to every address by itself: an address that is down is lent a
backup, and one that is up loses what the thresholds at hand have lent it.

* `Store.Amended`, `Store.amended_fire` — applying the thresholds of a node, address by address.
* `Threshold.amendAll_of_up` — what is left of the backup of an address that is up.
-/

namespace FleetHealth

/-! ## One address -/

/-- The address with a threshold's backup in place, or with none. -/
def Address.withBackup (a : Address) (backup : Option (UInt64 × String)) : Address :=
  { a with backupThresholdId := backup.map (·.1), backupIp := backup.map (·.2) }

/-- Whether an address has a backup just when it is known which threshold lent it. -/
def Address.Paired (a : Address) : Prop :=
  a.backupIp.isSome = a.backupThresholdId.isSome

theorem Address.paired_withBackup (a : Address) (backup : Option (UInt64 × String)) :
    (a.withBackup backup).Paired := by
  unfold Paired withBackup
  simp

/-- An address that is not lent anything has no backup. -/
theorem Address.Paired.backupIp_eq_none {a : Address} (h : a.Paired) (hid : a.backupThresholdId = none) :
    a.backupIp = none := by
  unfold Paired at h
  rw [hid] at h
  exact Option.isNone_iff_eq_none.mp (by simpa using h)

namespace Threshold

/-- What a threshold makes of an address when it is applied for a role. -/
def amend (role : Role) (t : Threshold) (a : Address) : Address :=
  if t.addressId = a.id ∧ a.role = role then
    match t.decide a with
    | none => a
    | some backup => a.withBackup backup
  else a

/-- What thresholds make of an address, one after the other. -/
def amendAll (role : Role) (ts : List Threshold) (a : Address) : Address :=
  ts.foldl (fun a t => t.amend role a) a

variable {role : Role} {t : Threshold} {ts : List Threshold} {a : Address}

theorem amend_cases (role : Role) (t : Threshold) (a : Address) :
    t.amend role a = a ∨ ∃ backup, t.amend role a = a.withBackup backup := by
  unfold amend
  split
  · split
    · exact .inl rfl
    · exact .inr ⟨_, rfl⟩
  · exact .inl rfl

@[simp] theorem amend_id (role : Role) (t : Threshold) (a : Address) : (t.amend role a).id = a.id := by
  rcases amend_cases role t a with h | ⟨backup, h⟩ <;> rw [h]
  rfl

@[simp] theorem amend_health (role : Role) (t : Threshold) (a : Address) :
    (t.amend role a).health = a.health := by
  rcases amend_cases role t a with h | ⟨backup, h⟩ <;> rw [h]
  rfl

@[simp] theorem amend_identity (role : Role) (t : Threshold) (a : Address) :
    (t.amend role a).identity = a.identity := by
  rcases amend_cases role t a with h | ⟨backup, h⟩ <;> rw [h]
  rfl

/-- A threshold that names another address leaves an address alone. -/
theorem amend_of_ne (h : t.addressId ≠ a.id) : t.amend role a = a := by
  unfold amend
  rw [if_neg]
  rintro ⟨hid, -⟩
  exact h hid

theorem paired_amend (h : a.Paired) (role : Role) (t : Threshold) : (t.amend role a).Paired := by
  rcases amend_cases role t a with he | ⟨backup, he⟩ <;> rw [he]
  · exact h
  · exact a.paired_withBackup backup

@[simp] theorem amendAll_health (role : Role) (ts : List Threshold) (a : Address) :
    (amendAll role ts a).health = a.health := by
  induction ts generalizing a with
  | nil => rfl
  | cons t rest ih => exact (ih _).trans (amend_health role t a)

@[simp] theorem amendAll_id (role : Role) (ts : List Threshold) (a : Address) :
    (amendAll role ts a).id = a.id := by
  induction ts generalizing a with
  | nil => rfl
  | cons t rest ih => exact (ih _).trans (amend_id role t a)

@[simp] theorem amendAll_identity (role : Role) (ts : List Threshold) (a : Address) :
    (amendAll role ts a).identity = a.identity := by
  induction ts generalizing a with
  | nil => rfl
  | cons t rest ih => exact (ih _).trans (amend_identity role t a)

theorem paired_amendAll (h : a.Paired) (role : Role) (ts : List Threshold) :
    (amendAll role ts a).Paired := by
  induction ts generalizing a with
  | nil => exact h
  | cons t rest ih => exact ih (paired_amend h role t)

/-- Whether one of some thresholds has lent an address its backup. -/
def Lends (ts : List Threshold) (a : Address) : Prop :=
  ∃ t ∈ ts, t.addressId = a.id ∧ a.backupThresholdId = some t.id

/-- An address that is up and has no backup is left alone. -/
theorem amend_of_no_backup (hup : a.health.isUp) (hid : a.backupThresholdId = none) :
    t.amend role a = a := by
  unfold amend decide
  simp [hup, hid]

theorem amendAll_of_no_backup (hup : a.health.isUp) (hid : a.backupThresholdId = none) :
    amendAll role ts a = a := by
  induction ts with
  | nil => rfl
  | cons t rest ih =>
    show amendAll role rest (t.amend role a) = a
    rw [amend_of_no_backup hup hid]
    exact ih

/-- **A backup is withdrawn by the threshold that lent it**, and by no other. -/
theorem amendAll_of_up (ts : List Threshold) (hup : a.health.isUp) (hrole : a.role = role) :
    (Lends ts a → amendAll role ts a = a.withBackup none)
      ∧ (¬Lends ts a → amendAll role ts a = a) := by
  induction ts with
  | nil =>
    constructor
    · rintro ⟨t, ht, -⟩
      cases ht
    · intro _
      rfl
  | cons t rest ih =>
    have hcons : amendAll role (t :: rest) a = amendAll role rest (t.amend role a) := rfl
    by_cases ht : t.addressId = a.id ∧ a.backupThresholdId = some t.id
    · -- the first threshold takes its backup away, and the others find nothing to take
      have hamend : t.amend role a = a.withBackup none := by
        unfold amend decide
        simp [hup, hrole, ht]
      constructor
      · intro _
        rw [hcons, hamend]
        exact amendAll_of_no_backup hup rfl
      · intro hnot
        exact absurd ⟨t, List.mem_cons_self, ht⟩ hnot
    · have hamend : t.amend role a = a := by
        unfold amend decide
        simp only [hup, if_true]
        split
        · rename_i hnamed
          have hne : a.backupThresholdId ≠ some t.id := fun he => ht ⟨hnamed.1, he⟩
          simp [hne]
        · rfl
      have hlends : Lends (t :: rest) a ↔ Lends rest a := by
        unfold Lends
        simp [ht]
      rw [hcons, hamend, hlends]
      exact ih

end Threshold

/-! ## All addresses -/

namespace Store

/-- Whether a store is another one after something was done to every address by itself, and nothing to
the rest of the fleet. -/
structure Amended (f : Address → Address) (s s' : Store) : Prop where
  address : ∀ id, s'.record? .addresses (idKey id) = (s.record? .addresses (idKey id)).map f
  clusters : s'.clusters = s.clusters
  nodes : s'.nodes = s.nodes
  thresholds : s'.thresholds = s.thresholds
  wellFormed : s'.WellFormed

/-- A store in which nothing was done to the fleet. -/
theorem amended_id {s s' : Store} (haddresses : s'.addresses = s.addresses)
    (hclusters : s'.clusters = s.clusters) (hnodes : s'.nodes = s.nodes)
    (hthresholds : s'.thresholds = s.thresholds) (hs' : s'.WellFormed) : s.Amended id s' where
  address other := by rw [Option.map_id_apply, record?_congr (c := .addresses) haddresses]
  clusters := hclusters
  nodes := hnodes
  thresholds := hthresholds
  wellFormed := hs'

variable {s s' s'' : Store} {f g : Address → Address} {a : Address} {id : UInt64}

/-- A store in which nothing is to be done. -/
theorem amended_of_forall_eq (hs : s.WellFormed)
    (hf : ∀ id a, s.record? .addresses (idKey id) = some a → f a = a) : s.Amended f s where
  address id := by
    cases ha : s.record? .addresses (idKey id) with
    | none => rfl
    | some a => rw [Option.map_some, hf id a ha]
  clusters := rfl
  nodes := rfl
  thresholds := rfl
  wellFormed := hs

theorem Amended.trans (h : s.Amended f s') (h' : s'.Amended g s'') : s.Amended (g ∘ f) s'' where
  address id := by rw [h'.address, h.address, Option.map_map]
  clusters := h'.clusters.trans h.clusters
  nodes := h'.nodes.trans h.nodes
  thresholds := h'.thresholds.trans h.thresholds
  wellFormed := h'.wellFormed

/-- One address written over, when nothing is to be done to the others. -/
theorem amended_put (hs : s.WellFormed) (ha : s.record? .addresses (idKey id) = some a)
    (hid : (f a).id = a.id) (hf : ∀ b : Address, b.id ≠ id → f b = b) :
    s.Amended f (s.put .addresses (idKey id) (f a)) where
  address other := by
    by_cases hother : other = id
    · rw [hother, record?_put_self, ha]
      rfl
    · rw [record?_put_ne _ fun he => hother (idKey_injective he)]
      cases hb : s.record? .addresses (idKey other) with
      | none => rfl
      | some b =>
        have hne : b.id ≠ id := by
          rw [hs.keyed.address_id hb]
          exact hother
        rw [Option.map_some, hf b hne]
  clusters := rfl
  nodes := rfl
  thresholds := rfl
  wellFormed := by
    rw [hs.keyed.address_id ha] at hid
    exact hs.put .addresses (congrArg idKey hid.symm)

/-- Applying a threshold over a well-formed store. -/
theorem amended_fireThreshold (hs : s.WellFormed) (role : Role) (t : Threshold) :
    ∃ s', s.fireThreshold role t = .ok s' ∧ s.Amended (t.amend role) s' := by
  unfold fireThreshold
  cases ha : s.record? .addresses (idKey t.addressId) with
  | none =>
    rw [getAddress, hs.find?_of_record?_eq_none .addresses ha]
    refine ⟨s, rfl, amended_of_forall_eq hs ?_⟩
    intro id b hb
    -- a threshold of no address names none that there is
    apply Threshold.amend_of_ne
    intro hid
    rw [hs.keyed.address_id hb] at hid
    rw [hid, hb] at ha
    cases ha
  | some a =>
    have hid : a.id = t.addressId := hs.keyed.address_id ha
    have hother (b : Address) (hb : b.id ≠ t.addressId) : t.amend role b = b :=
      Threshold.amend_of_ne hb.symm
    have hsame (h : t.amend role a = a) : s.Amended (t.amend role) s := by
      refine amended_of_forall_eq hs ?_
      intro id b hb
      by_cases hba : b.id = t.addressId
      · rw [hs.keyed.address_id hb] at hba
        rw [hba, ha] at hb
        cases hb
        exact h
      · exact hother b hba
    rw [getAddress, find?_of_record? ha]
    simp only [bind, Except.bind, pure, Except.pure]
    split
    · rename_i hrole
      split
      · rename_i hdecide
        refine ⟨s, rfl, hsame ?_⟩
        unfold Threshold.amend
        rw [if_pos ⟨hid.symm, hrole⟩, hdecide]
      · rename_i backup hdecide
        have hamend : t.amend role a = a.withBackup backup := by
          unfold Threshold.amend
          rw [if_pos ⟨hid.symm, hrole⟩, hdecide]
        rw [hid, setAddressBackup, update_of_record? ha]
        refine ⟨_, rfl, ?_⟩
        show s.Amended (t.amend role) (s.put .addresses (idKey t.addressId) (a.withBackup backup))
        rw [← hamend]
        exact amended_put hs ha (Threshold.amend_id role t a) hother
    · rename_i hrole
      refine ⟨s, rfl, hsame ?_⟩
      unfold Threshold.amend
      rw [if_neg fun h => hrole h.2]

theorem amended_fireThresholds (hs : s.WellFormed) (role : Role) (ts : List Threshold) :
    s.Amended (Threshold.amendAll role ts) (s.fireThresholds role ts).2 := by
  induction ts generalizing s with
  | nil => exact amended_of_forall_eq hs fun _ _ _ => rfl
  | cons t rest ih =>
    obtain ⟨s', hfire, hamended⟩ := amended_fireThreshold hs role t
    rw [fireThresholds, hfire]
    exact hamended.trans (ih hamended.wellFormed)

/-- The thresholds on a node. -/
def thresholdsOn (s : Store) (nodeId : UInt64) : List Threshold :=
  (s.records .thresholds).filter fun t => t.nodeId == nodeId

/-- **Applying the thresholds of a node** does to every address what they make of it. -/
theorem amended_fire (hs : s.WellFormed) (role : Role) (nodeId : UInt64) :
    s.Amended (Threshold.amendAll role (s.thresholdsOn nodeId)) (s.fire role nodeId).2 := by
  rw [fire, listThresholds, scan_of_decodes (hs.decodes .thresholds)]
  exact amended_fireThresholds hs role _

theorem mem_thresholdsOn (hs : s.WellFormed) {nodeId : UInt64} {t : Threshold} :
    t ∈ s.thresholdsOn nodeId ↔ s.record? .thresholds (idKey t.id) = some t ∧ t.nodeId = nodeId := by
  rw [thresholdsOn, List.mem_filter, hs.keyed.mem_records_iff (c := .thresholds), beq_iff_eq]

theorem thresholdsOn_congr (h : s'.thresholds = s.thresholds) (nodeId : UInt64) :
    s'.thresholdsOn nodeId = s.thresholdsOn nodeId := by
  rw [thresholdsOn, thresholdsOn, records_congr (c := .thresholds) h]

end Store

end FleetHealth
