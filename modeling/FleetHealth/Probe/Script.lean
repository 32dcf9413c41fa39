import FleetHealth.Probe.Attempt
/-!
# Answering probes

A prober says how probes are answered. A scripted one has a queue of replies for every address, each of
which is used once; an address without a reply left refuses the connection.
-/

namespace FleetHealth

/-- How the probe of an address under a policy is answered, depending on a state and changing it. -/
abbrev Prober (σ : Type) := σ → PolicySnapshot → String → Reply × σ

/-- The replies that are left for each address. -/
abbrev Script := List (String × List Reply)

/-- The reply of an address that is not in the script. -/
def Reply.refused : Reply :=
  { latency := 0, outcome := some { passed := false, reason := some "connection refused" } }

namespace Script

/-- The script with other replies for an address. -/
def setReplies (s : Script) (ip : String) (replies : List Reply) : Script :=
  (ip, replies) :: s.filter (·.1 != ip)

/-- The next reply of an address, and the script without it. -/
def next (s : Script) (ip : String) : Reply × Script :=
  match s.lookup ip with
  | some (reply :: rest) => (reply, s.setReplies ip rest)
  | _ => (.refused, s)

/-- Answers probes from the script, whatever the policy. -/
def prober : Prober Script := fun s _ ip => s.next ip

end Script

end FleetHealth
