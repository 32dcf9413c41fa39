import FleetHealth.Health.Tracker
import FleetHealth.Store.Fleet
/-!
# Keeping health in the store

The outcome of a check is folded into the stored record in one step: the change of the verdict that is
reported is the one that was stored.
-/

namespace FleetHealth.Store

/-- Records the outcome of a check of an address. -/
def recordAddress (s : Store) (id : UInt64) (t : Tracker) (passed : Bool) (now : UInt64) :
    Except StoreError (Address × Option Transition × Store) :=
  s.updateAddressHealth id fun h => t.record h passed now

/-- Records the outcome of a check of a node. -/
def recordNode (s : Store) (id : UInt64) (t : Tracker) (passed : Bool) (now : UInt64) :
    Except StoreError (Node × Option Transition × Store) :=
  s.updateNodeHealth id fun h => t.record h passed now

end FleetHealth.Store
