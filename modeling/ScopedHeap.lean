import ScopedHeap.Ref
import ScopedHeap.Slot
import ScopedHeap.Error
import ScopedHeap.SlotList
import ScopedHeap.Storage
import ScopedHeap.Payload
import ScopedHeap.Command
import ScopedHeap.Record
import ScopedHeap.Table
import ScopedHeap.ScopeStack
import ScopedHeap.Settings
import ScopedHeap.Notice
import ScopedHeap.Context
import ScopedHeap.Equality
import ScopedHeap.Counting
import ScopedHeap.Allocation
import ScopedHeap.Containers
import ScopedHeap.Answer
import ScopedHeap.Bindings
import ScopedHeap.Machine
import ScopedHeap.Run
import ScopedHeap.Report
import ScopedHeap.Toml.Document
import ScopedHeap.Settings.Sources
import ScopedHeap.Log.Logger
import ScopedHeap.Proofs.Termination
import ScopedHeap.Proofs.Queues
import ScopedHeap.Proofs.Destruction
import ScopedHeap.Proofs.Ledger
import ScopedHeap.Proofs.Reclamation
import ScopedHeap.Proofs.Teardown
import ScopedHeap.Proofs.History
import ScopedHeap.Proofs.Agenda
import ScopedHeap.Proofs.Parting
import ScopedHeap.Proofs.Lifecycle
import ScopedHeap.Proofs.Allotment
import ScopedHeap.Proofs.Table.Links
import ScopedHeap.Proofs.Statistics
import ScopedHeap.Proofs.Levels
import ScopedHeap.Proofs.Span
import ScopedHeap.Proofs.Exits
import ScopedHeap.Proofs.Bracketing
import ScopedHeap.Proofs.Table.Sessions
import ScopedHeap.Proofs.Endings
import ScopedHeap.Proofs.Emptying
import ScopedHeap.Proofs.Atomicity
import ScopedHeap.Proofs.Contents
import ScopedHeap.Proofs.Layout
import ScopedHeap.Proofs.Statics
import ScopedHeap.Proofs.Agreement
import ScopedHeap.Proofs.Indifference
import ScopedHeap.Proofs.Cascade
import ScopedHeap.Proofs.Admission
import ScopedHeap.Proofs.Intake
import ScopedHeap.Proofs.Comparison
import ScopedHeap.Proofs.Uniqueness
import ScopedHeap.Proofs.Lookup
import ScopedHeap.Proofs.Survival
import ScopedHeap.Proofs.Insertion
import ScopedHeap.Proofs.Equivalence
import ScopedHeap.Proofs.RoundTrip
import ScopedHeap.Proofs.Overwriting
import ScopedHeap.Proofs.Solvency
import ScopedHeap.Proofs.Identity
import ScopedHeap.Proofs.Arithmetic
import ScopedHeap.Proofs.Deferral
import ScopedHeap.Proofs.Lowercase
import ScopedHeap.Proofs.Overrides
import ScopedHeap.Proofs.Table.Attachment
