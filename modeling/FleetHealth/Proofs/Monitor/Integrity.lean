import FleetHealth.Proofs.Inventory.References
import FleetHealth.Proofs.Monitor.Keeping
import FleetHealth.Proofs.Run.Reacting
/-!
# The life of a store

From an empty store on, inventories are loaded, clusters are checked, and whoever else uses the store
changes health, backups, notifications and DNS tasks, all in any order and with the checks of several
clusters under way. Whatever was done so far, every reference leads to a stored record: so thresholds
always find the address that they name, and a load that was not rejected succeeds.

* `Life` — all that may happen to a store.
* `Life.references_hold` — references lead somewhere throughout.
-/

namespace FleetHealth

/-! ## The service -/

/-- Whether a task reacts to changes of health by standard handlers, now and later. -/
structure Task.Standard (t : Task) : Prop where
  options : ∀ h ∈ t.options.handlers, h.Standard
  run : ∀ r, t.run? = some r → ∀ h ∈ r.settings.handlers, h.Standard

/-- Whether a label adds no tasks but those that react by standard handlers. -/
def ServiceLabel.Standard : ServiceLabel → Prop
  | .spawn _ o _ => ∀ h ∈ o.handlers, h.Standard
  | _ => True

theorem Task.Standard.aside {s : Store} {t t' : Task} (ht : t.Standard) (h : t.Aside s t') :
    t'.Standard := by
  cases h with
  | same => exact ht
  | marked => exact ⟨ht.options, ht.run⟩
  | begins =>
    refine ⟨ht.options, ?_⟩
    intro r hr
    cases hr
    exact ht.options
  | rests _ hoptions hrun =>
    refine ⟨hoptions ▸ ht.options, ?_⟩
    intro r hr
    rw [hrun] at hr
    cases hr

/-- **The service leaves the fleet alone**, and goes on with standard handlers. -/
theorem Service.keepsFleet_step {v v' : Service} {now : UInt64} {l : ServiceLabel}
    (hv : ∀ t ∈ v.tasks, t.Standard) (hl : l.Standard) (hstep : v.step now l = some v') :
    v.store.KeepsFleet v'.store ∧ ∀ t ∈ v'.tasks, t.Standard := by
  by_cases hwork : ∃ id label, l = .work id label
  · obtain ⟨id, label, rfl⟩ := hwork
    obtain ⟨t, r, store, r', ht, hr, hrun, rfl⟩ := work_eq_some hstep
    have hmoves := Run.moves_of_step hrun
    have hstandard := hv t (List.mem_of_getElem? ht)
    refine ⟨hmoves.keepsFleet (hstandard.run r hr), ?_⟩
    intro t' ht'
    rcases List.mem_or_eq_of_mem_set ht' with ht' | rfl
    · exact hv t' ht'
    · refine ⟨hstandard.options, ?_⟩
      intro r₁ hr₁
      cases hr₁
      rw [hmoves.settings]
      exact hstandard.run r hr
  · obtain ⟨hstore, htasks⟩ := aside_of_step (fun id label he => hwork ⟨id, label, he⟩) hstep
    refine ⟨hstore ▸ .refl _, ?_⟩
    intro t' ht'
    rcases htasks t' ht' with ⟨t, ht, haside⟩ | ⟨clusterId, options, interval, rfl, rfl⟩
    · exact (hv t ht).aside haside
    · exact ⟨hl, fun r hr => by cases hr⟩

/-! ## All that may happen -/

/-- What may become of a service whose store was empty: inventories are loaded into its store, accepted
or not; it takes steps; and others make requests to its store, which write no record of the fleet as a
whole. -/
inductive Life : Service → Prop
  | empty : Life {}
  | loads {v : Service} (i : Inventory) : Life v → Life { v with store := (i.load v.store).2 }
  | works {v v' : Service} {now : UInt64} {l : ServiceLabel} :
    Life v → l.Standard → v.step now l = some v' → Life v'
  | asks {v : Service} (r : StoreRequest) :
    Life v → ¬r.WritesFleet → Life { v with store := v.store.after r }

namespace Life

open Store

variable {v : Service}

/-- The invariant of the life of a store. -/
theorem sound (hv : Life v) :
    v.store.WellFormed ∧ v.store.Linked ∧ ∀ t ∈ v.tasks, t.Standard := by
  induction hv with
  | empty =>
    refine ⟨wellFormed_empty, ⟨?_, ?_, ?_⟩, ?_⟩ <;> exact fun _ h => absurd h List.not_mem_nil
  | loads i _ ih =>
    obtain ⟨hs, hlinked, htasks⟩ := ih
    have hload := Inventory.linked_load hs hlinked i
    exact ⟨hload.1, hload.2, htasks⟩
  | works _ hl hstep ih =>
    obtain ⟨hs, hlinked, htasks⟩ := ih
    obtain ⟨hkeeps, htasks'⟩ := Service.keepsFleet_step htasks hl hstep
    exact ⟨hkeeps.wellFormed hs, hlinked.congr hkeeps.fleet, htasks'⟩
  | asks r _ hr ih =>
    obtain ⟨hs, hlinked, htasks⟩ := ih
    exact ⟨wellFormed_after hs r, hlinked.after hr, htasks⟩

/-- **References lead somewhere throughout the life of a store**: the cluster of every node is stored, and
the node of every address, and the address of every threshold. So whoever applies the thresholds of a
node, to the store or in the middle of settling a check, finds the address of each; and a load that is
not rejected succeeds, with as many records of each kind as the inventory lists. -/
theorem references_hold (hv : Life v) :
    v.store.WellFormed ∧ v.store.Linked
      ∧ (∀ s, v.store.KeepsFleet s → ∀ role nodeId before t after,
          s.listThresholds nodeId = .ok (before ++ t :: after) →
          ∃ a, (s.fireThresholds role before).2.getAddress t.addressId = .ok (some a))
      ∧ ∀ i : Inventory, i.validate v.store = .ok () → ∃ s', i.load v.store
          = (.ok ⟨i.clusters.length, i.nodes.length, i.addresses.length, i.thresholds.length⟩, s') := by
  obtain ⟨hs, hlinked, -⟩ := hv.sound
  refine ⟨hs, hlinked, ?_, ?_⟩
  · intro s hkeeps role nodeId before t after hlist
    exact (hlinked.congr hkeeps.fleet).getAddress_fireThresholds hlist role
  · intro i hvalid
    exact ⟨i.written v.store, Inventory.load_of_validate hs hvalid⟩

/-- A cluster of one node, with an address that has a backup in store. -/
def linkedInventory : Inventory :=
  { clusters := [smallCluster], nodes := [smallNode 1], addresses := [smallAddress 1 "10.0.0.1"],
    thresholds := [{ id := 5, nodeId := 1, addressId := 1, backupIp := "10.9.9.9" }] }

/-- An address of a node that is not listed. -/
def strayInventory : Inventory :=
  { addresses := [{ smallAddress 2 "10.0.0.2" with nodeId := 9 }] }

/-- One inventory is accepted, the other one is rejected, and the first one can be loaded again. -/
theorem references_hold_strayInventory :
    ∃ v : Service, v.store = (strayInventory.load (linkedInventory.load {}).2).2 ∧ v.store.Linked
      ∧ ∃ s', linkedInventory.load v.store = (.ok ⟨1, 1, 1, 1⟩, s') := by
  obtain ⟨-, hlinked, -, hload⟩ := references_hold ((empty.loads linkedInventory).loads strayInventory)
  refine ⟨_, rfl, hlinked, hload linkedInventory (Inventory.validate_eq_ok_iff.mpr ⟨?_, ?_, ?_⟩)⟩ <;>
    simp [linkedInventory, smallCluster, smallNode, smallAddress]

end Life

end FleetHealth
