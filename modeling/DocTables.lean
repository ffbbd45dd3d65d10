import DocTables.KeyMap
import DocTables.Binary64.Shortest
import DocTables.Text.Blank
import DocTables.Text.LowerCase
import DocTables.Text.Pattern
import DocTables.Value
import DocTables.Value.Untagged
import DocTables.PropertyType
import DocTables.Codec
import DocTables.Codec.RichText
import DocTables.Codec.DateSpan
import DocTables.Codec.Reference
import DocTables.Codec.Wire
import DocTables.Table.Error
import DocTables.Column
import DocTables.Column.Row
import DocTables.Column.Schema
import DocTables.Predicate.Filter
import DocTables.Store.Filter
import DocTables.Store.Order
import DocTables.Store.Memory.Batch
import DocTables.Store.Memory.Calls
import DocTables.Relation.Targets
import DocTables.Relation.Declaration
import DocTables.Table.Write
import DocTables.Workspace
import DocTables.Http.Connection
import DocTables.Record.Document
import DocTables.Predicate.Document
import DocTables.Http.Url
import DocTables.Json.Reader
import DocTables.Http.Remote
import DocTables.Proofs.Binary64
import DocTables.Proofs.Codec.Accepted
import DocTables.Proofs.Codec.Canonical
import DocTables.Proofs.Store.Written
import DocTables.Proofs.Predicate.Agreement
import DocTables.Proofs.Effect
import DocTables.Proofs.Store.Listing
import DocTables.Proofs.Table.Paging
import DocTables.Proofs.Store.Coherent
import DocTables.Proofs.Store.Records
import DocTables.Proofs.Pool
import DocTables.Proofs.Pool.Moves
import DocTables.Proofs.Pool.Jobs
import DocTables.Proofs.Column.Rows
import DocTables.Proofs.Store.Kept
import DocTables.Proofs.Column.Declared
import DocTables.Proofs.Workspace.Sound
import DocTables.Proofs.Workspace.Kept
import DocTables.Proofs.Workspace.Operations
import DocTables.Proofs.Workspace.Definitions
import DocTables.Proofs.Workspace.Reached
import DocTables.Proofs.Table.Insertion
import DocTables.Proofs.Store.SameData
import DocTables.Proofs.Workspace.SameData
import DocTables.Proofs.Workspace.Identified
import DocTables.Proofs.Relation.Fetching
import DocTables.Proofs.Relation.Expanding
import DocTables.Proofs.Store.Edited
import DocTables.Proofs.Table.Updating
import DocTables.Proofs.Table.Refusing
import DocTables.Proofs.Table.Failing
import DocTables.Proofs.Codec.Kinds
import DocTables.Proofs.Relation.Registry
import DocTables.Proofs.Relation.History
import DocTables.Proofs.Relation.Linking
import DocTables.Proofs.Workspace.Sources
import DocTables.Proofs.Workspace.Schemas
import DocTables.Proofs.Store.Events
import DocTables.Proofs.Store.Numbering
import DocTables.Proofs.Store.Lasting
import DocTables.Proofs.Store.Archive
import DocTables.Proofs.Table.Restoring
import DocTables.Proofs.Table.Choosing
import DocTables.Proofs.Predicate.Found
import DocTables.Proofs.Column.Introspection
import DocTables.Proofs.Column.Payloads
import DocTables.Proofs.Table.Successive
import DocTables.Proofs.Table.Interleaved
import DocTables.Proofs.Predicate.Lowering
import DocTables.Proofs.Column.Inserting
import DocTables.Proofs.Store.Steps
import DocTables.Proofs.Store.Refused
import DocTables.Proofs.Workspace.Housed
import DocTables.Proofs.Relation.Ordering
import DocTables.Proofs.StableSort
import DocTables.Proofs.Store.Sorting
import DocTables.Proofs.Store.Shown
import DocTables.Proofs.Table.Moving
import DocTables.Proofs.Table.Batching
import DocTables.Proofs.Binary64.Exact
import DocTables.Proofs.Relation.Projecting
import DocTables.Proofs.Predicate.Identifiers
import DocTables.Proofs.Codec.Dates
import DocTables.Proofs.Codec.Contacts
import DocTables.Proofs.Binary64.Nearest
import DocTables.Proofs.Column.Options
import DocTables.Proofs.Predicate.Integers
import DocTables.Proofs.Value
import DocTables.Proofs.Codec.Files
import DocTables.Proofs.Codec.DateParts
import DocTables.Proofs.Store.Batch
import DocTables.Proofs.Store.Times
import DocTables.Proofs.Codec.Segments
import DocTables.Proofs.Predicate.Parts
import DocTables.Proofs.Http.Addresses
import DocTables.Proofs.Relation.Counting
import DocTables.Proofs.Text.LowerCase
import DocTables.Proofs.Http.Encoding
import DocTables.Proofs.Http.Url
