import BackedToken.Contract.Execute
import BackedToken.Host.Monitor
import BackedToken.Host.World
import BackedToken.Json.Forms
import BackedToken.Proofs.Contract.Admission
import BackedToken.Proofs.Contract.Operations
import BackedToken.Proofs.Host.Overlay
import BackedToken.Proofs.Contract.Atomicity
import BackedToken.Proofs.Payload.Blocks
import BackedToken.Proofs.Contract.Effects
import BackedToken.Proofs.Custody.Locked
import BackedToken.Proofs.Custody.Solvency
import BackedToken.Proofs.Custody.Guarantee
import BackedToken.Proofs.Pool.Splitting
import BackedToken.Proofs.History.Events
import BackedToken.Proofs.Pool.Changes
import BackedToken.Proofs.Pool.Dilution
import BackedToken.Proofs.History.Dilution
import BackedToken.Proofs.History.Lifetime
import BackedToken.Proofs.Ledger.Basic
import BackedToken.Proofs.Ledger.Records
import BackedToken.Proofs.Ledger.Mirrors
import BackedToken.Proofs.Ledger.Answers
import BackedToken.Proofs.Ledger.Operations
import BackedToken.Proofs.Ledger.Refinement
import BackedToken.Proofs.Payload.Creation
import BackedToken.Proofs.History.Conservation
import BackedToken.Proofs.Custody.Locking
import BackedToken.Proofs.Pool.Accounting
import BackedToken.Proofs.History.Accounting
import BackedToken.Proofs.Payload.Grammar
import BackedToken.Proofs.Outcome.Checks
import BackedToken.Proofs.Outcome.Creation
import BackedToken.Proofs.Outcome.Burn
import BackedToken.Proofs.Json.RoundTrip
import BackedToken.Proofs.Payload.Extent
import BackedToken.Proofs.Host.Layers
import BackedToken.Proofs.Outcome.Gas
import BackedToken.Proofs.Outcome.Query
import BackedToken.Proofs.Host.Buffer
import BackedToken.Proofs.Host.Requests
import BackedToken.Proofs.Outcome.Ordering
import BackedToken.Proofs.Outcome.Commuting
import BackedToken.Proofs.Outcome.Quote
import BackedToken.Proofs.Storage.Overlap
import BackedToken.Proofs.Pool.Pricing
import BackedToken.Proofs.Token.Validation
import BackedToken.Proofs.Payload.Fixed
import BackedToken.Proofs.Payload.Dynamic
import BackedToken.Proofs.Payload.Readers
import BackedToken.Proofs.Spelling
import BackedToken.Proofs.Json.Overrides
import BackedToken.Proofs.Token.Commitment
