import Fleet.Index.Operation
import Fleet.Main
import Fleet.Service.Bench
import Fleet.Proofs.Index.Consistency
import Fleet.Proofs.Index.Nearest
import Fleet.Proofs.Json.Token
import Fleet.Proofs.Json.RoundTrip
import Fleet.Proofs.Number.Rounding
import Fleet.Proofs.Number.Magnitude
import Fleet.Proofs.Number.Product
import Fleet.Proofs.Number.Monotone
import Fleet.Proofs.Geo.Distance
import Fleet.Proofs.Number.Shortest
import Fleet.Proofs.Json.Finite
import Fleet.Proofs.Wire.Record
import Fleet.Proofs.Store.Ensures
import Fleet.Proofs.Store.Faulty
import Fleet.Proofs.Wire.Track
import Fleet.Proofs.Wire.Finite
import Fleet.Proofs.Track.Finite
import Fleet.Proofs.Store.InStep
import Fleet.Proofs.Store.Operation
import Fleet.Proofs.Store.Call
import Fleet.Proofs.Store.Freshness
import Fleet.Proofs.Store.Integrity
import Fleet.Proofs.Forward.Conservation
import Fleet.Proofs.Forward.Drain
import Fleet.Proofs.Forward.Outstanding
import Fleet.Proofs.Index.Refinement
import Fleet.Proofs.Store.Locality
import Fleet.Proofs.Store.Restart
import Fleet.Proofs.Store.Tally
import Fleet.Proofs.Store.Sequence
import Fleet.Proofs.Backend.Order
import Fleet.Proofs.Backend.Agreement
import Fleet.Proofs.Store.Isolation
import Fleet.Proofs.Service.Pipeline
import Fleet.Proofs.Service.Independence
import Fleet.Proofs.Store.Assured
import Fleet.Proofs.Store.Legible
import Fleet.Proofs.Store.Crowd
import Fleet.Proofs.Store.Orderly
import Fleet.Proofs.Store.Progress
import Fleet.Proofs.Store.Serial
import Fleet.Proofs.Store.Invariant
import Fleet.Proofs.Store.Contents
import Fleet.Proofs.Store.Rejection
import Fleet.Proofs.Track.Verdicts
import Fleet.Proofs.Wire.Reread
import Fleet.Proofs.Store.Count
import Fleet.Proofs.Store.Latest
import Fleet.Proofs.Store.Attribution
import Fleet.Proofs.Store.Alone
import Fleet.Proofs.Wire.Stable
import Fleet.Proofs.Wire.Service
import Fleet.Proofs.Store.Retrieval
import Fleet.Proofs.Index.Staleness
import Fleet.Proofs.Service.Sweeps
import Fleet.Proofs.Service.Rush
import Fleet.Proofs.Number.Comparison
import Fleet.Proofs.Track.Specification
import Fleet.Proofs.Track.Windows
import Fleet.Proofs.Index.Commutation
import Fleet.Proofs.Store.Unfailing
import Fleet.Proofs.Node.Moment
import Fleet.Proofs.Node.Rejection
import Fleet.Proofs.Track.Reversal
import Fleet.Proofs.Index.Sweep
import Fleet.Proofs.Index.Modes
import Fleet.Proofs.Index.Vicinity
import Fleet.Proofs.Index.Seniority
import Fleet.Proofs.Backend.Expiry
import Fleet.Proofs.Index.Surroundings
import Fleet.Proofs.Store.Upkeep
import Fleet.Proofs.Store.Supersession
import Fleet.Proofs.Store.Exchange
import Fleet.Proofs.Store.Rack
import Fleet.Proofs.Store.Residence
