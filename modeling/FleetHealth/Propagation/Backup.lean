import FleetHealth.Store.Fleet
/-!
# Backup addresses

While an address is down, the first threshold of its node that names it lends it a backup address. When
the address is up again, the threshold that lent the backup takes it away.
-/

namespace FleetHealth

/-- What a threshold does about the backup of an address: `none` when it leaves it alone, else the
backup from then on. -/
def Threshold.decide (t : Threshold) (a : Address) : Option (Option (UInt64 × String)) :=
  if a.health.isUp then
    if a.backupThresholdId = some t.id then some none else none
  else
    match a.backupThresholdId with
    | some id => if id = t.id then some (some (t.id, t.backupIp)) else none
    | none => some (some (t.id, t.backupIp))

namespace Store

/-- Applies one threshold to the address it names, if there is such an address and it plays the given
role. -/
def fireThreshold (s : Store) (role : Role) (t : Threshold) : Except StoreError Store := do
  match ← s.getAddress t.addressId with
  | none => return s
  | some a =>
    if a.role = role then
      match t.decide a with
      | none => return s
      | some backup => return (← s.setAddressBackup a.id backup).2
    else return s

/-- Applies thresholds in order. A failure ends the pass and keeps what was done before. -/
def fireThresholds (s : Store) (role : Role) : List Threshold → Except StoreError Unit × Store
  | [] => (.ok (), s)
  | t :: rest =>
    match s.fireThreshold role t with
    | .ok s' => fireThresholds s' role rest
    | .error e => (.error e, s)

/-- Applies every threshold of a node. -/
def fire (s : Store) (role : Role) (nodeId : UInt64) : Except StoreError Unit × Store :=
  match s.listThresholds nodeId with
  | .ok thresholds => s.fireThresholds role thresholds
  | .error e => (.error e, s)

end Store

end FleetHealth
