import TokenGate.Forge.Flow
import TokenGate.Forge.Network
import TokenGate.Gate.Admission
import TokenGate.Main
import TokenGate.Proofs.Budget.History
import TokenGate.Proofs.Cache.Balance
import TokenGate.Proofs.Cache.Queue
import TokenGate.Proofs.Cache.Reads
import TokenGate.Proofs.Cache.Representation
import TokenGate.Proofs.Cache.Schedule
import TokenGate.Proofs.Cache.Sweeps
import TokenGate.Proofs.Config
import TokenGate.Proofs.Forge.Access
import TokenGate.Proofs.Forge.Addressing
import TokenGate.Proofs.Forge.Classification
import TokenGate.Proofs.Forge.Exhaustion
import TokenGate.Proofs.Forge.Link
import TokenGate.Proofs.Forge.Listing
import TokenGate.Proofs.Forge.Origin
import TokenGate.Proofs.Gate.Disclosure
import TokenGate.Proofs.Gate.Teams
import TokenGate.Proofs.Identity
import TokenGate.Proofs.Json.Bytes
import TokenGate.Proofs.Resolution
import TokenGate.Proofs.Server.Admission
import TokenGate.Proofs.Server.Deadline
import TokenGate.Proofs.Service.Accounting
import TokenGate.Proofs.Service.Cancellation
import TokenGate.Proofs.Service.Capacity
import TokenGate.Proofs.Service.Dates
import TokenGate.Proofs.Service.Health
import TokenGate.Proofs.Service.Protocol
import TokenGate.Proofs.Service.Schedule
import TokenGate.Proofs.Service.Transparency
import TokenGate.Proofs.Traffic.Courses
import TokenGate.Proofs.Traffic.Freshness
import TokenGate.Simulation.Script
