import FleetHealth.Health.Ledger
import FleetHealth.Proofs.Store.WellFormed
/-!
# Health in the store

Addresses and nodes have health. A check changes the health of one of them and nothing else; the fleet,
which is all that is left when health and backups are taken away, stays the same throughout.

* `Store.Rejudged` — the store after the health of one subject was changed.
* `Store.recordAddress_of_record?`, `Store.recordNode_of_record?` — recording an outcome does just that.
-/

namespace FleetHealth

/-! ## The fleet behind its health -/

/-- The node without its health. -/
def Node.identity (n : Node) : Node :=
  { n with health := {} }

/-- The address without its backup. -/
def Address.withoutBackup (a : Address) : Address :=
  { a with backupIp := none, backupThresholdId := none }

/-- The address without its health and its backup. -/
def Address.identity (a : Address) : Address :=
  { a.withoutBackup with health := {} }

/-- What no check of a fleet changes. -/
structure Fleet where
  clusters : Table
  thresholds : Table
  nodes : List (String × Option Node)
  addresses : List (String × Option Address)

/-- Who has health. -/
inductive Subject where
  | address (id : UInt64)
  | node (id : UInt64)
  deriving DecidableEq, Repr

namespace Store

variable {s s' s'' : Store} {j k : Subject} {h : Health}

/-- The fleet of a store. -/
def fleet (s : Store) : Fleet where
  clusters := s.clusters
  thresholds := s.thresholds
  nodes := s.view .nodes Node.identity
  addresses := s.view .addresses Address.identity

/-- The health of a subject, if the store knows it. -/
def health? (s : Store) : Subject → Option Health
  | .address id => (s.record? .addresses (idKey id)).map (·.health)
  | .node id => (s.record? .nodes (idKey id)).map (·.health)

/-! ## Changing health -/

/-- Whether a store is another one with the health of one subject changed, and nothing else. -/
structure Rejudged (s : Store) (j : Subject) (h : Health) (s' : Store) : Prop where
  self : s'.health? j = some h
  other : ∀ k, k ≠ j → s'.health? k = s.health? k
  fleet : s'.fleet = s.fleet
  notifications : s'.notifications = s.notifications
  dnsTasks : s'.dnsTasks = s.dnsTasks
  wellFormed : s.WellFormed → s'.WellFormed

theorem rejudged_put_node {id : UInt64} {n : Node} (hn : s.record? .nodes (idKey id) = some n)
    (h : Health) : s.Rejudged (.node id) h (s.put .nodes (idKey id) { n with health := h }) where
  self := by rw [health?, record?_put_self]; rfl
  other := by
    intro k hk
    cases k with
    | address other => rw [health?, record?_put_of_table_ne _ (by decide)]; rfl
    | node other =>
      have hkey : idKey other ≠ idKey id := fun he => hk (congrArg Subject.node (idKey_injective he))
      rw [health?, record?_put_ne _ hkey]
      rfl
  -- the row is written over, and nodes show without health in a fleet
  fleet := by
    have hnodes : (s.put .nodes (idKey id) { n with health := h }).view .nodes Node.identity
        = s.view .nodes Node.identity := view_put hn rfl
    rw [fleet, hnodes]
    rfl
  notifications := rfl
  dnsTasks := rfl
  wellFormed hs := hs.put .nodes (congrArg idKey (hs.keyed.node_id hn).symm)

theorem rejudged_put_address {id : UInt64} {a : Address}
    (ha : s.record? .addresses (idKey id) = some a) (h : Health) :
    s.Rejudged (.address id) h (s.put .addresses (idKey id) { a with health := h }) where
  self := by rw [health?, record?_put_self]; rfl
  other := by
    intro k hk
    cases k with
    | node other => rw [health?, record?_put_of_table_ne _ (by decide)]; rfl
    | address other =>
      have hkey : idKey other ≠ idKey id := fun he => hk (congrArg Subject.address (idKey_injective he))
      rw [health?, record?_put_ne _ hkey]
      rfl
  fleet := by
    have haddresses : (s.put .addresses (idKey id) { a with health := h }).view .addresses Address.identity
        = s.view .addresses Address.identity := view_put ha rfl
    rw [fleet, haddresses]
    rfl
  notifications := rfl
  dnsTasks := rfl
  wellFormed hs := hs.put .addresses (congrArg idKey (hs.keyed.address_id ha).symm)

/-! ## Recording an outcome -/

section Recording

variable {id : UInt64} (t : Tracker) (passed : Bool) (now : UInt64)

theorem recordAddress_of_record? {a : Address} (ha : s.record? .addresses (idKey id) = some a) :
    ∃ s', s.recordAddress id t passed now
        = .ok ({ a with health := (t.record a.health passed now).1 },
            (t.record a.health passed now).2, s')
      ∧ s.Rejudged (.address id) (t.record a.health passed now).1 s' := by
  refine ⟨_, ?_, rejudged_put_address ha _⟩
  rw [recordAddress, updateAddressHealth, update_of_record? ha]

theorem recordAddress_of_record?_eq_none (h : s.record? .addresses (idKey id) = none) :
    ∃ e, s.recordAddress id t passed now = .error e := by
  rw [recordAddress, updateAddressHealth]
  exact update_of_record?_eq_none h

theorem recordNode_of_record? {n : Node} (hn : s.record? .nodes (idKey id) = some n) :
    ∃ s', s.recordNode id t passed now
        = .ok ({ n with health := (t.record n.health passed now).1 },
            (t.record n.health passed now).2, s')
      ∧ s.Rejudged (.node id) (t.record n.health passed now).1 s' := by
  refine ⟨_, ?_, rejudged_put_node hn _⟩
  rw [recordNode, updateNodeHealth, update_of_record? hn]

theorem recordNode_of_record?_eq_none (h : s.record? .nodes (idKey id) = none) :
    ∃ e, s.recordNode id t passed now = .error e := by
  rw [recordNode, updateNodeHealth]
  exact update_of_record?_eq_none h

end Recording

end Store

end FleetHealth
