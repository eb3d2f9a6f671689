import LeasePool.Failure
import LeasePool.Params
import LeasePool.Text.Scalar
import LeasePool.Json.Printer
import LeasePool.Json.Token
import LeasePool.Json.Reader
import LeasePool.Config
import LeasePool.Stats
import LeasePool.Statement
import LeasePool.Retry
import LeasePool.World.Step
import LeasePool.System
import LeasePool.Scenario.Script
import LeasePool.Scenario.Perform
import LeasePool.Config.Toml
import LeasePool.Proofs.Changes
import LeasePool.Proofs.Slots
import LeasePool.Proofs.Moves
import LeasePool.Proofs.Operations
import LeasePool.Proofs.Steps
import LeasePool.Proofs.Idle
import LeasePool.Proofs.Makers
import LeasePool.Proofs.Accounts
import LeasePool.Proofs.Conservation
import LeasePool.Proofs.Epochs
import LeasePool.Proofs.Returns
import LeasePool.Proofs.Custody
import LeasePool.Proofs.Capacity
import LeasePool.Proofs.Isolation
import LeasePool.Proofs.Invalidation
import LeasePool.Proofs.Courses
import LeasePool.Proofs.Provenance
import LeasePool.Proofs.Fates
import LeasePool.Proofs.Generations
import LeasePool.Proofs.Histories
import LeasePool.Proofs.Teardown
import LeasePool.Proofs.Dialogues
import LeasePool.Proofs.Registry
import LeasePool.Proofs.Disconnection
import LeasePool.Proofs.Undisturbed
import LeasePool.Proofs.Taking
import LeasePool.Proofs.Stories
import LeasePool.Proofs.Counters
import LeasePool.Proofs.Stocks
import LeasePool.Proofs.Demand
import LeasePool.Proofs.Vetting
import LeasePool.Proofs.Attempts
import LeasePool.Proofs.Pursuits
import LeasePool.Proofs.Settlements
import LeasePool.Proofs.Refusals
import LeasePool.Proofs.Exactness
import LeasePool.Proofs.Retries
import LeasePool.Proofs.Strangers
import LeasePool.Proofs.Sweeping
import LeasePool.Proofs.JsonTokens
import LeasePool.Proofs.JsonTrees
import LeasePool.Proofs.RoundTrip
import LeasePool.Proofs.Stacking
import LeasePool.Proofs.Evictions
import LeasePool.Proofs.Layers
import LeasePool.Proofs.Preference
import LeasePool.Proofs.Statistics
import LeasePool.Proofs.Registration
import LeasePool.Proofs.Descriptions
import LeasePool.Proofs.Delays
