import RelationalStore.Binary.Statement
import RelationalStore.Catalog.Stored
import RelationalStore.CommandLine.FileTree
import RelationalStore.Decimal.Reading
import RelationalStore.Decimal.Text
import RelationalStore.Digest.Sha3
import RelationalStore.Log.Basic
import RelationalStore.Main
import RelationalStore.Proofs.Binary.Reading
import RelationalStore.Proofs.Binary.RoundTrip
import RelationalStore.Proofs.Binary.Statement
import RelationalStore.Proofs.Catalog.Durable
import RelationalStore.Proofs.Catalog.Memory
import RelationalStore.Proofs.Collection.SortedMap
import RelationalStore.Proofs.Condition.Faults
import RelationalStore.Proofs.Condition.Filling
import RelationalStore.Proofs.Condition.Leftmost
import RelationalStore.Proofs.Condition.Negation
import RelationalStore.Proofs.Failing
import RelationalStore.Proofs.Integrity.Agreement
import RelationalStore.Proofs.Integrity.Arrangement
import RelationalStore.Proofs.Integrity.Basic
import RelationalStore.Proofs.Integrity.Blocking
import RelationalStore.Proofs.Integrity.Cascades
import RelationalStore.Proofs.Integrity.Definition
import RelationalStore.Proofs.Integrity.Deletion
import RelationalStore.Proofs.Integrity.Duplicates
import RelationalStore.Proofs.Integrity.Independent
import RelationalStore.Proofs.Integrity.Insertion
import RelationalStore.Proofs.Integrity.Lookups
import RelationalStore.Proofs.Integrity.Order
import RelationalStore.Proofs.Integrity.Overlap
import RelationalStore.Proofs.Integrity.Refusals
import RelationalStore.Proofs.Integrity.Restored
import RelationalStore.Proofs.Integrity.Runs
import RelationalStore.Proofs.Integrity.Selection
import RelationalStore.Proofs.Integrity.Separately
import RelationalStore.Proofs.Integrity.Sources
import RelationalStore.Proofs.Log.Cut
import RelationalStore.Proofs.Log.Interrupted
import RelationalStore.Proofs.Log.Listing
import RelationalStore.Proofs.Log.Opening
import RelationalStore.Proofs.Log.Runs
import RelationalStore.Proofs.Log.Shared
import RelationalStore.Proofs.Log.Space
import RelationalStore.Proofs.Log.Survival
import RelationalStore.Proofs.Statement.Atomic
import RelationalStore.Proofs.Statement.Drop
import RelationalStore.Proofs.Statement.Step
import RelationalStore.Proofs.Table.Definition
import RelationalStore.Proofs.Table.Deletion
import RelationalStore.Proofs.Table.Grouping
import RelationalStore.Proofs.Table.Insertion
import RelationalStore.Proofs.Table.Lookup
import RelationalStore.Proofs.Table.Query
import RelationalStore.Proofs.Table.Refusal
import RelationalStore.Proofs.Table.Resolution
import RelationalStore.Proofs.Table.Unfailing
import RelationalStore.Proofs.Value.Date
import RelationalStore.Report.Outcome
import RelationalStore.Report.Usage
import RelationalStore.Settings.File
import RelationalStore.Statement.Execution
import RelationalStore.Store.Memory
import RelationalStore.Text.Blank
import RelationalStore.Text.Quoted
import RelationalStore.Text.Upper
