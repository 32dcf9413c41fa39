import FleetHealth.Proofs.Inventory.Rewriting
import FleetHealth.Proofs.Propagation.Backup
import FleetHealth.Proofs.Store.Requests
/-!
# References between records

A node belongs to a cluster, an address belongs to a node, and a threshold names an address. Loading an
inventory checks these references once, before it writes anything, against what the inventory lists and
what is stored. That is enough: no record is ever taken away, so a reference that leads somewhere when it
is checked leads there for good, whichever records are written over others.

* `Store.Linked` — every reference leads to a stored record.
* `Store.Linked.getAddress_fireThresholds` — then thresholds find the addresses that they name.
* `Inventory.linked_load` — loads keep it so, accepted and rejected ones.
* `Store.Linked.after` — so do all requests but those that write a record of the fleet.
-/

namespace FleetHealth

/-- Whether every reference of a stored record leads to a stored record. -/
structure Store.Linked (s : Store) : Prop where
  nodes : ∀ n ∈ s.records .nodes, (s.record? .clusters (idKey n.clusterId)).isSome
  addresses : ∀ a ∈ s.records .addresses, (s.record? .nodes (idKey a.nodeId)).isSome
  thresholds : ∀ t ∈ s.records .thresholds, (s.record? .addresses (idKey t.addressId)).isSome

/-! ## As long as the fleet stays the same -/

namespace Store

variable {α β : Type} {c : Collection α} {s s' : Store}

/-- Stores that show the same of a collection have records under the same keys. -/
theorem isSome_record?_congr {f : α → β} (h : s'.view c f = s.view c f) (key : String) :
    (s'.record? c key).isSome = (s.record? c key).isSome := by
  have hrecord := congrArg Option.isSome (map_record?_congr h key)
  rwa [Option.isSome_map, Option.isSome_map] at hrecord

/-- A record of one of two stores that show the same shows as one of the other. -/
theorem exists_mem_records_of_view {f : α → β} {a : α} (h : s'.view c f = s.view c f)
    (ha : a ∈ s'.records c) : ∃ b ∈ s.records c, f b = f a := by
  have hmem : f a ∈ (s'.records c).map f := List.mem_map_of_mem ha
  rw [map_records_congr h] at hmem
  exact List.mem_map.mp hmem

/-- References are part of the fleet. -/
theorem Linked.congr (hs : s.Linked) (hfleet : s'.fleet = s.fleet) : s'.Linked where
  nodes n hn := by
    obtain ⟨n', hn', hidentity⟩ := exists_mem_records_of_view (congrArg Fleet.nodes hfleet) hn
    have hcluster : n'.identity.clusterId = n.identity.clusterId := congrArg Node.clusterId hidentity
    replace hcluster : n'.clusterId = n.clusterId := hcluster
    rw [record?_congr (c := .clusters) (congrArg Fleet.clusters hfleet), ← hcluster]
    exact hs.nodes n' hn'
  addresses a ha := by
    obtain ⟨a', ha', hidentity⟩ := exists_mem_records_of_view (congrArg Fleet.addresses hfleet) ha
    have hnode : a'.identity.nodeId = a.identity.nodeId := congrArg Address.nodeId hidentity
    replace hnode : a'.nodeId = a.nodeId := hnode
    rw [isSome_record?_congr (congrArg Fleet.nodes hfleet), ← hnode]
    exact hs.addresses a' ha'
  thresholds t ht := by
    rw [records_congr (c := .thresholds) (congrArg Fleet.thresholds hfleet)] at ht
    rw [isSome_record?_congr (congrArg Fleet.addresses hfleet)]
    exact hs.thresholds t ht

/-- **Applying thresholds never meets an address that there is not**: whichever were applied before, the
next one finds the address that it names. -/
theorem Linked.getAddress_fireThresholds (hlinked : s.Linked) {nodeId : UInt64} {t : Threshold}
    {before after : List Threshold} (hlist : s.listThresholds nodeId = .ok (before ++ t :: after))
    (role : Role) :
    ∃ a, (s.fireThresholds role before).2.getAddress t.addressId = .ok (some a) := by
  have hmem : t ∈ before ++ t :: after := by simp
  rw [(scan_eq_ok_iff.mp hlist).2] at hmem
  have hstored := hlinked.thresholds t (List.mem_filter.mp hmem).1
  have hfleet := (rebacked_fireThresholds role before s).fleet
  rw [← isSome_record?_congr (congrArg Fleet.addresses hfleet)] at hstored
  obtain ⟨a, ha⟩ := Option.isSome_iff_exists.mp hstored
  exact ⟨a, find?_of_record? ha⟩

end Store

/-! ## Loads -/

namespace Inventory

variable {s : Store} {i : Inventory}

section Replacing

variable {α : Type} (c : Collection α) {keyOf : α → String} [c.Lawful keyOf]
  (inPlaceOf : α → Option α → α) (as : List α)

/-- A record that the inventory lists stands in the store after the load, and so does one that stood
there before. -/
theorem isSome_record?_written (hs : s.WellFormed) {key : String}
    (hafter : i.rowAfter c.table key = replacedRow c keyOf inPlaceOf as key)
    (h : (∃ a ∈ as, keyOf a = key) ∨ (s.record? c key).isSome) :
    ((i.written s).record? c key).isSome := by
  rw [isSome_record?_iff (wellFormed_written hs i), row?_written, hafter]
  rcases h with ⟨a, ha, hkey⟩ | hstored
  · have hlast : (as.findRev? (keyOf · == key)).isSome := by
      rw [List.findRev?_eq_find?_reverse, List.find?_isSome]
      exact ⟨a, List.mem_reverse.mpr ha, beq_iff_eq.mpr hkey⟩
    obtain ⟨b, hb⟩ := Option.isSome_iff_exists.mp hlast
    unfold replacedRow
    rw [hb]
    rfl
  · exact isSome_replacedRow ((isSome_record?_iff hs c key).mp hstored)

/-- A record in the store after the load is one that the inventory lists, with what was kept of another
one, or stood there before. -/
theorem of_mem_records_written
    (hafter : ∀ key, i.rowAfter c.table key = replacedRow c keyOf inPlaceOf as key) {b : α}
    (hb : b ∈ (i.written s).records c) :
    (∃ a ∈ as, ∃ old, b = inPlaceOf a old) ∨ b ∈ s.records c := by
  obtain ⟨key, hkey⟩ := Store.mem_records.mp hb
  have hread : ((i.written s).row? c.table key).bind c.codec.read = some b := hkey
  rw [row?_written, hafter, Replaces.read_replacedRow] at hread
  cases hlast : as.findRev? (keyOf · == key) with
  | none =>
    rw [hlast, Option.map_none, Option.none_or] at hread
    exact .inr (Store.mem_records.mpr ⟨key, hread⟩)
  | some a =>
    rw [hlast, Option.map_some, Option.some_or] at hread
    rw [List.findRev?_eq_find?_reverse] at hlast
    exact .inl ⟨a, List.mem_reverse.mp (List.mem_of_find?_eq_some hlast), _, (Option.some.inj hread).symm⟩

end Replacing

/-- **A load whose references lead somewhere leaves none that does not.** -/
theorem linked_written (hs : s.WellFormed) (hlinked : s.Linked) (hrefers : i.Refers s) :
    (i.written s).Linked := by
  have hcluster {id : UInt64} (h : id ∈ i.clusters.map (·.id) ∨ (s.record? .clusters (idKey id)).isSome) :
      ((i.written s).record? .clusters (idKey id)).isSome := by
    refine isSome_record?_written .clusters (fun c _ => c) i.clusters hs rfl (h.imp_left ?_)
    intro hlisted
    obtain ⟨c, hc, rfl⟩ := List.mem_map.mp hlisted
    exact ⟨c, hc, rfl⟩
  have hnode {id : UInt64} (h : id ∈ i.nodes.map (·.id) ∨ (s.record? .nodes (idKey id)).isSome) :
      ((i.written s).record? .nodes (idKey id)).isSome := by
    refine isSome_record?_written .nodes Node.inPlaceOf i.nodes hs rfl (h.imp_left ?_)
    intro hlisted
    obtain ⟨n, hn, rfl⟩ := List.mem_map.mp hlisted
    exact ⟨n, hn, rfl⟩
  have haddress {id : UInt64}
      (h : id ∈ i.addresses.map (·.id) ∨ (s.record? .addresses (idKey id)).isSome) :
      ((i.written s).record? .addresses (idKey id)).isSome := by
    refine isSome_record?_written .addresses Address.inPlaceOf i.addresses hs rfl (h.imp_left ?_)
    intro hlisted
    obtain ⟨a, ha, rfl⟩ := List.mem_map.mp hlisted
    exact ⟨a, ha, rfl⟩
  refine ⟨?_, ?_, ?_⟩
  · intro n hn
    apply hcluster
    rcases of_mem_records_written .nodes Node.inPlaceOf i.nodes (fun _ => rfl) hn with
      ⟨listed, hlisted, old, rfl⟩ | hstored
    · rw [Node.inPlaceOf_clusterId]
      exact hrefers.nodes listed hlisted
    · exact .inr (hlinked.nodes n hstored)
  · intro a ha
    apply hnode
    rcases of_mem_records_written .addresses Address.inPlaceOf i.addresses (fun _ => rfl) ha with
      ⟨listed, hlisted, old, rfl⟩ | hstored
    · rw [Address.inPlaceOf_nodeId]
      exact hrefers.addresses listed hlisted
    · exact .inr (hlinked.addresses a hstored)
  · intro t ht
    apply haddress
    rcases of_mem_records_written .thresholds (fun t _ => t) i.thresholds (fun _ => rfl) ht with
      ⟨listed, hlisted, -, rfl⟩ | hstored
    · exact hrefers.thresholds t hlisted
    · exact .inr (hlinked.thresholds t hstored)

/-- **Loads keep references leading somewhere**, whether the inventory is accepted or rejected. -/
theorem linked_load (hs : s.WellFormed) (hlinked : s.Linked) (i : Inventory) :
    (i.load s).2.WellFormed ∧ (i.load s).2.Linked := by
  cases hvalid : i.validate s with
  | error e =>
    rw [Inventory.load, hvalid]
    exact ⟨hs, hlinked⟩
  | ok _ =>
    rw [load_of_validate hs hvalid]
    exact ⟨wellFormed_written hs i, linked_written hs hlinked (validate_eq_ok_iff.mp hvalid)⟩

end Inventory

/-! ## Requests -/

/-- Whether a request writes a record of the fleet as a whole. -/
def StoreRequest.WritesFleet : StoreRequest → Prop
  | .putCluster _ => True
  | .putNode _ => True
  | .putAddress _ => True
  | .putThreshold _ => True
  | _ => False

namespace Store

variable {α : Type} {s : Store} {r : StoreRequest}

/-- A request leaves the fleet alone if it does so whenever it succeeds. -/
theorem fleet_after_of_map {x : Except StoreError α} {f : α → StoreReply × Store}
    (hhandle : s.handle r = x.map f) (h : ∀ a, x = .ok a → (f a).2.fleet = s.fleet) :
    (s.after r).fleet = s.fleet := by
  unfold after
  rw [hhandle]
  cases x with
  | error e => rfl
  | ok a => exact h a rfl

/-- A request that changes health, backups, notifications or tasks leaves the fleet alone, and so does
one that only reads. -/
theorem fleet_after (hr : ¬r.WritesFleet) : (s.after r).fleet = s.fleet := by
  cases r with
  | putCluster c => exact absurd trivial hr
  | putNode n => exact absurd trivial hr
  | putAddress a => exact absurd trivial hr
  | putThreshold t => exact absurd trivial hr
  | updateNodeHealth id change =>
    refine fleet_after_of_map rfl ?_
    rintro ⟨n', _, s'⟩ hupdate
    obtain ⟨n, hn, hchange, rfl⟩ := update_eq_ok_iff.mp hupdate
    cases hchange
    exact (rejudged_put_node hn _).fleet
  | updateAddressHealth id change =>
    refine fleet_after_of_map rfl ?_
    rintro ⟨a', _, s'⟩ hupdate
    obtain ⟨a, ha, hchange, rfl⟩ := update_eq_ok_iff.mp hupdate
    cases hchange
    exact (rejudged_put_address ha _).fleet
  | setAddressBackup id backup =>
    refine fleet_after_of_map rfl ?_
    rintro ⟨changed, s'⟩ hset
    exact (rebacked_setAddressBackup hset).fleet
  | createNotification draft now => rfl
  | enqueueDnsTask nodeId taskType now =>
    refine fleet_after_of_map rfl ?_
    rintro ⟨task, s'⟩ hqueued
    obtain ⟨-, -, rfl⟩ := enqueueDnsTask_eq_ok hqueued
    rfl
  | takeDnsTasks =>
    refine fleet_after_of_map rfl ?_
    rintro ⟨tasks, s'⟩ htaken
    unfold takeDnsTasks at htaken
    cases hlist : s.listDnsTasks with
    | error e => rw [hlist] at htaken; cases htaken
    | ok found =>
      rw [hlist] at htaken
      cases htaken
      rfl
  | getCluster | findEnabledCluster | listClusters | getNode | findEnabledNodes | getAddress
  | listAddresses | findFirstAccessible | listThresholds | listNotifications | listDnsTasks =>
    exact fleet_after_of_map rfl fun _ _ => rfl

theorem Linked.after (hs : s.Linked) (hr : ¬r.WritesFleet) : (s.after r).Linked :=
  hs.congr (fleet_after hr)

end Store

end FleetHealth
