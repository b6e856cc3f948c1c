import GattHub.Octets
import GattHub.Text.Blank
import GattHub.Text.Record
import GattHub.Uuid.Text
import GattHub.Uuid.Named
import GattHub.Assigned
import GattHub.Identity
import GattHub.Table
import GattHub.Gatt.Tree
import GattHub.Host.Call
import GattHub.Host.Report
import GattHub.Notice.Text
import GattHub.Rejection
import GattHub.Settings
import GattHub.Octets.View
import GattHub.Hub.Snapshot
import GattHub.Desk
import GattHub.Scripted
import GattHub.Radio.Station
import GattHub.Proofs.Operation
import GattHub.Proofs.Reaction
import GattHub.Proofs.Run
import GattHub.Proofs.Fate
import GattHub.Proofs.Invariants
import GattHub.Proofs.Outcome
import GattHub.Proofs.Link
import GattHub.Proofs.Pruning
import GattHub.Proofs.Rebuilding
import GattHub.Proofs.Lineage
import GattHub.Proofs.Session
import GattHub.Proofs.Lifetime
import GattHub.Proofs.Settling
import GattHub.Proofs.Staleness
import GattHub.Proofs.Naming
import GattHub.Proofs.ConnectResult
import GattHub.Proofs.Quiescence
import GattHub.Proofs.Ordering
import GattHub.Proofs.ScanEffects
import GattHub.Proofs.Scanning
import GattHub.Proofs.ScanPeriod
import GattHub.Proofs.Lateness
import GattHub.Proofs.Interleaving
import GattHub.Proofs.Turns
import GattHub.Proofs.TaskStep
import GattHub.Proofs.HostCalls
import GattHub.Proofs.Schedule
import GattHub.Proofs.ScanCount
import GattHub.Proofs.ScanShare
import GattHub.Proofs.PeerCalls
import GattHub.Proofs.Provenance
import GattHub.Proofs.Isolation
import GattHub.Proofs.PeerUpdate
import GattHub.Proofs.Subscription
import GattHub.Proofs.Forwarding
import GattHub.Proofs.Origin
import GattHub.Proofs.Serving
import GattHub.Proofs.Asking
import GattHub.Proofs.Objection
import GattHub.Proofs.Teardown
import GattHub.Proofs.Muting
import GattHub.Proofs.Locality
import GattHub.Proofs.Succession
import GattHub.Proofs.Renaming
import GattHub.Proofs.RenamedRun
import GattHub.Proofs.Traffic
import GattHub.Proofs.Attempts
import GattHub.Proofs.Relaying
import GattHub.Proofs.Answering
import GattHub.Proofs.Listing
import GattHub.Proofs.Delivery
import GattHub.Proofs.Powering
import GattHub.Proofs.Listening
import GattHub.Proofs.Convergence
import GattHub.Proofs.Streaming
import GattHub.Proofs.Overtaking
import GattHub.Proofs.Enrolment
import GattHub.Proofs.TierRebuild
import GattHub.Proofs.SignalLevel
import GattHub.Proofs.Opening
import GattHub.Proofs.Spelling
import GattHub.Proofs.Addressing
import GattHub.Proofs.Arrangement
import GattHub.Proofs.Issuing
import GattHub.Proofs.LinkStates
import GattHub.Proofs.Regrowth
import GattHub.Proofs.TreeShape
