import FleetHealth.Proofs.Store.Health
import FleetHealth.Propagation.Backup
/-!
# What thresholds do

Applying thresholds puts backups in place and takes them away; nobody's health changes by it, and over a
well-formed store it never fails.
-/

namespace FleetHealth.Store

variable {s s' s'' : Store} {a : Address}

/-- Whether a store is another one with other backups in place, and nothing else. -/
structure Rebacked (s s' : Store) : Prop where
  health : ∀ j, s'.health? j = s.health? j
  fleet : s'.fleet = s.fleet
  notifications : s'.notifications = s.notifications
  dnsTasks : s'.dnsTasks = s.dnsTasks
  wellFormed : s.WellFormed → s'.WellFormed

theorem Rebacked.refl (s : Store) : s.Rebacked s :=
  ⟨fun _ => rfl, rfl, rfl, rfl, id⟩

theorem Rebacked.trans (h : s.Rebacked s') (h' : s'.Rebacked s'') : s.Rebacked s'' where
  health j := (h'.health j).trans (h.health j)
  fleet := h'.fleet.trans h.fleet
  notifications := h'.notifications.trans h.notifications
  dnsTasks := h'.dnsTasks.trans h.dnsTasks
  wellFormed hs := h'.wellFormed (h.wellFormed hs)

theorem rebacked_put {id : UInt64} {b : Address} (ha : s.record? .addresses (idKey id) = some a)
    (hb : b.withoutBackup = a.withoutBackup) : s.Rebacked (s.put .addresses (idKey id) b) where
  health := by
    intro j
    cases j with
    | node other => rw [health?, record?_put_of_table_ne _ (by decide)]; rfl
    | address other =>
      have hview := view_put ha hb
      have hhealth := map_record?_congr (view_congr hview (·.health)) (idKey other)
      exact hhealth
  fleet := by
    have hview := view_congr (view_put ha hb) fun a : Address => { a with health := {} }
    have haddresses : (s.put .addresses (idKey id) b).view .addresses Address.identity
        = s.view .addresses Address.identity := hview
    rw [Store.fleet, haddresses]
    rfl
  notifications := rfl
  dnsTasks := rfl
  wellFormed hs := by
    have hid : b.withoutBackup.id = a.withoutBackup.id := congrArg Address.id hb
    replace hid : b.id = a.id := hid
    rw [hs.keyed.address_id ha] at hid
    exact hs.put .addresses (congrArg idKey hid.symm)

theorem rebacked_setAddressBackup {id : UInt64} {backup : Option (UInt64 × String)} {changed : Bool}
    (h : s.setAddressBackup id backup = .ok (changed, s')) : s.Rebacked s' := by
  unfold setAddressBackup at h
  cases hupdate : s.update .addresses (idKey id) fun a =>
      let a' := { a with backupThresholdId := backup.map (·.1), backupIp := backup.map (·.2) }
      (a', a'.backupThresholdId != a.backupThresholdId || a'.backupIp != a.backupIp) with
  | error e => rw [hupdate] at h; cases h
  | ok result =>
    obtain ⟨b, x, s''⟩ := result
    rw [hupdate] at h
    cases h
    obtain ⟨a, ha, hab, rfl⟩ := update_eq_ok_iff.mp hupdate
    cases hab
    exact rebacked_put ha rfl

theorem rebacked_fireThreshold {role : Role} {t : Threshold} (h : s.fireThreshold role t = .ok s') :
    s.Rebacked s' := by
  unfold fireThreshold at h
  cases hfind : s.getAddress t.addressId with
  | error e => rw [hfind] at h; cases h
  | ok found =>
    simp only [hfind, bind, Except.bind, pure, Except.pure] at h
    split at h
    · -- no such address
      cases h
      exact .refl s
    · split at h
      · split at h
        · -- the threshold asks for no other backup
          cases h
          exact .refl s
        · split at h
          · cases h
          · rename_i hset
            cases h
            exact rebacked_setAddressBackup hset
      · cases h
        exact .refl s

theorem rebacked_fireThresholds (role : Role) (thresholds : List Threshold) (s : Store) :
    s.Rebacked (s.fireThresholds role thresholds).2 := by
  induction thresholds generalizing s with
  | nil => exact .refl s
  | cons t rest ih =>
    unfold fireThresholds
    split
    · rename_i hfire
      exact (rebacked_fireThreshold hfire).trans (ih _)
    · exact .refl s

theorem rebacked_fire (role : Role) (nodeId : UInt64) (s : Store) : s.Rebacked (s.fire role nodeId).2 := by
  unfold fire
  split
  · exact rebacked_fireThresholds role _ s
  · exact .refl s

/-- A threshold can be applied whenever every address can be read. -/
theorem fireThreshold_of_wellFormed (hs : s.WellFormed) (role : Role) (t : Threshold) :
    ∃ s', s.fireThreshold role t = .ok s' := by
  unfold fireThreshold
  cases ha : s.record? .addresses (idKey t.addressId) with
  | none =>
    rw [getAddress, hs.find?_of_record?_eq_none .addresses ha]
    exact ⟨s, rfl⟩
  | some a =>
    rw [getAddress, find?_of_record? ha]
    have hid : s.record? .addresses (idKey a.id) = some a := (hs.keyed.address_id ha).symm ▸ ha
    simp only [bind, Except.bind, pure, Except.pure]
    split
    · split
      · exact ⟨s, rfl⟩
      · rw [setAddressBackup, update_of_record? hid]
        exact ⟨_, rfl⟩
    · exact ⟨s, rfl⟩

theorem fireThresholds_of_wellFormed (hs : s.WellFormed) (role : Role) (thresholds : List Threshold) :
    (s.fireThresholds role thresholds).1 = .ok () := by
  induction thresholds generalizing s with
  | nil => rfl
  | cons t rest ih =>
    obtain ⟨s', hfire⟩ := fireThreshold_of_wellFormed hs role t
    rw [fireThresholds, hfire]
    exact ih ((rebacked_fireThreshold hfire).wellFormed hs)

theorem fire_of_wellFormed (hs : s.WellFormed) (role : Role) (nodeId : UInt64) :
    (s.fire role nodeId).1 = .ok () := by
  rw [fire, listThresholds, scan_of_decodes (hs.decodes .thresholds)]
  exact fireThresholds_of_wellFormed hs role _

end FleetHealth.Store
