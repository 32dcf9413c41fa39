import FleetHealth.CommandLine.Disk
import FleetHealth.Main
import FleetHealth.Proofs.Config.RoundTrip
import FleetHealth.Proofs.Health.Hysteresis
import FleetHealth.Proofs.Inventory.Failing
import FleetHealth.Proofs.Inventory.History
import FleetHealth.Proofs.Monitor.Courses
import FleetHealth.Proofs.Monitor.Integrity
import FleetHealth.Proofs.Monitor.Schedule
import FleetHealth.Proofs.Monitor.Traffic
import FleetHealth.Proofs.Propagation.Redelivery
import FleetHealth.Proofs.Run.Isolation
import FleetHealth.Proofs.Run.Pool
import FleetHealth.Proofs.Store.Requests
import FleetHealth.Proofs.Propagation.Passing
import FleetHealth.Proofs.Run.Flipping
import FleetHealth.Proofs.Store.Queue
import FleetHealth.Proofs.Store.Contents
import FleetHealth.Proofs.Monitor.Journal
import FleetHealth.Proofs.Monitor.Registry
import FleetHealth.Proofs.Monitor.Timetable
import FleetHealth.Proofs.Monitor.Watch
import FleetHealth.Proofs.Monitor.Cadence
import FleetHealth.Proofs.Propagation.Firing
import FleetHealth.Proofs.Inventory.Validating
import FleetHealth.Proofs.Health.Monotone
import FleetHealth.Proofs.Run.Prompt
import FleetHealth.Proofs.Run.Duration
import FleetHealth.Proofs.Policy.NormalForm
import FleetHealth.Proofs.Probe.Retrying
import FleetHealth.Proofs.Run.Resolution
import FleetHealth.Proofs.Fleet.Drift
import FleetHealth.Proofs.Json.Exactness
import FleetHealth.Proofs.Probe.Substitution
import FleetHealth.Proofs.Config.Validating
