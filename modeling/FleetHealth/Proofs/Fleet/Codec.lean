import FleetHealth.Fleet.Codec
import FleetHealth.Proofs.Json.Faithful
/-!
# The records of a fleet are read back

The codec of every record is faithful.
-/

namespace FleetHealth

open Codec

instance : Role.codec.Faithful :=
  faithful_choice _ (by rintro (_ | _) <;> decide)

instance : TrackingMode.codec.Faithful :=
  faithful_choice _ (by rintro (_ | _) <;> decide)

instance : MessageType.codec.Faithful :=
  faithful_choice _ (by rintro (_ | _) <;> decide)

instance : Level.codec.Faithful :=
  faithful_choice _ (by rintro (_ | _) <;> decide)

instance : DnsTaskType.codec.Faithful :=
  faithful_choice _ (by rintro ⟨⟩; decide)

instance : Health.codec.Faithful := faithful_record (by decide) fun _ => rfl

instance : Policy.codec.Faithful := faithful_record (by decide) fun _ => rfl

instance : Policy.codec.Present := ⟨fun _ => nofun⟩

instance : Cluster.codec.Faithful := faithful_record (by decide) fun _ => rfl

instance : Node.codec.Faithful := faithful_record (by decide) fun _ => rfl

instance : Address.codec.Faithful := faithful_record (by decide) fun _ => rfl

instance : Threshold.codec.Faithful := faithful_record (by decide) fun _ => rfl

instance : Notification.codec.Faithful := faithful_record (by decide) fun _ => rfl

instance : DnsTask.codec.Faithful := faithful_record (by decide) fun _ => rfl

end FleetHealth
