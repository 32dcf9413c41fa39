import FleetHealth.Propagation.Backup
import FleetHealth.Propagation.Event
import FleetHealth.Store.Outbox
/-!
# Reacting to a change of health

A pipeline is a list of handlers. Each handler that an event concerns delivers it once; one that fails
is reported by name and stops nobody else, and nothing is undone.
-/

namespace FleetHealth

/-- One reaction to a change of health. -/
structure Handler where
  name : String
  /-- Whether there is anything to deliver for an event. -/
  concerns : Event → Bool
  /-- Delivers an event, at a time, into the store. -/
  deliver : Event → UInt64 → Store → Except StoreError Unit × Store

namespace Handler

/-- Notifies the people who look after the fleet. -/
def notification : Handler where
  name := "notification"
  concerns _ := true
  deliver e now s := (.ok (), (s.createNotification e.draft now).2)

/-- Asks for the node to be published again, if nodes of its role are. -/
def dnsTask : Handler where
  name := "dns_task"
  concerns e := e.role.participatesInDns
  deliver e now s :=
    match s.enqueueDnsTask e.nodeId .nodeChange now with
    | .ok (_, s') => (.ok (), s')
    | .error err => (.error err, s)

/-- Puts backup addresses in place, or takes them away, when the health of an address changed. -/
def threshold : Handler where
  name := "threshold"
  concerns e := e.addressId.isSome
  deliver e _ s := s.fire e.role e.nodeId

/-- The handler with a receiver that refuses every delivery. -/
def refusing (h : Handler) : Handler :=
  { h with deliver := fun _ _ s => (.error .unavailable, s) }

/-- Runs the handler on an event: whether it failed, and the store. -/
def handle (h : Handler) (e : Event) (now : UInt64) (s : Store) : Bool × Store :=
  if h.concerns e then
    match h.deliver e now s with
    | (.ok (), s') => (false, s')
    | (.error _, s') => (true, s')
  else (false, s)

end Handler

/-- The reactions of a fleet that keeps everything in one store. -/
def standardPipeline : List Handler :=
  [.notification, .dnsTask, .threshold]

/-- Runs every handler on an event: the names of those that failed, in order, and the store. -/
def applyEvent (e : Event) (now : UInt64) : List Handler → Store → List String × Store
  | [], s => ([], s)
  | h :: rest, s =>
    let (failed, s) := h.handle e now s
    let (names, s) := applyEvent e now rest s
    (if failed then h.name :: names else names, s)

end FleetHealth
