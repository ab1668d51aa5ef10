import PatchLedger.Bytes
import PatchLedger.Bytes.Lossy
import PatchLedger.Ascending
import PatchLedger.Tree
import PatchLedger.Key
import PatchLedger.Tree.Record
import PatchLedger.Tree.Sheet
import PatchLedger.Text.Blank
import PatchLedger.Decimal
import PatchLedger.Instant
import PatchLedger.Instant.Calendar
import PatchLedger.Instant.Text
import PatchLedger.Instant.Reader
import PatchLedger.Text.Printable
import PatchLedger.Text.Quoted
import PatchLedger.Text.Located
import PatchLedger.Decimal.Shortest
import PatchLedger.Json.Double
import PatchLedger.Json
import PatchLedger.Json.Numeral
import PatchLedger.Json.StringBody
import PatchLedger.Json.Document
import PatchLedger.Json.Reader
import PatchLedger.Json.Writer
import PatchLedger.Schema.Misfit
import PatchLedger.Schema.Shape
import PatchLedger.Schema.Record
import PatchLedger.Node
import PatchLedger.Operation
import PatchLedger.Operation.Record
import PatchLedger.Error
import PatchLedger.Endpoint
import PatchLedger.Config
import PatchLedger.Uuid
import PatchLedger.Version
import PatchLedger.Patch
import PatchLedger.Instant.Stored
import PatchLedger.Ledger.History
import PatchLedger.Ledger
import PatchLedger.Ledger.Handoff
import PatchLedger.Folder.Place
import PatchLedger.Folder.Layout
import PatchLedger.Folder
import PatchLedger.Proofs.Ascending
import PatchLedger.Proofs.Key
import PatchLedger.Proofs.Key.Range
import PatchLedger.Proofs.Decimal
import PatchLedger.Proofs.Instant.Calendar
import PatchLedger.Proofs.Instant.RoundTrip
import PatchLedger.Proofs.Json.StringBody
import PatchLedger.Proofs.Json.Numeral
import PatchLedger.Proofs.Json.RoundTrip
import PatchLedger.Proofs.Json.Brackets
import PatchLedger.Proofs.Schema.Record
import PatchLedger.Proofs.Node
import PatchLedger.Proofs.Operation.RoundTrip
import PatchLedger.Proofs.Operation.Nesting
import PatchLedger.Proofs.Tree.Holding
import PatchLedger.Proofs.Instant.Stored
import PatchLedger.Proofs.Tree.Sheets
import PatchLedger.Proofs.Tree.Lookup
import PatchLedger.Proofs.Tree.Change
import PatchLedger.Proofs.Ranking
import PatchLedger.Proofs.Ledger.History
import PatchLedger.Proofs.Ledger.Keeping
import PatchLedger.Proofs.Ledger.RoundTrip
import PatchLedger.Proofs.Ledger.Run
import PatchLedger.Proofs.Ledger.Retention
import PatchLedger.Proofs.Ledger.Pruning
import PatchLedger.Proofs.Ledger.Suppression
import PatchLedger.Proofs.Ledger.Latest
import PatchLedger.Proofs.Ledger.Integrity
import PatchLedger.Proofs.Ledger.Restart
import PatchLedger.Proofs.Ledger.Direction
import PatchLedger.Proofs.Ledger.Handoff
import PatchLedger.Proofs.Ledger.Damage
import PatchLedger.Proofs.Ledger.Trimming
import PatchLedger.Proofs.Ledger.Paging
import PatchLedger.Proofs.Ledger.Resubmission
import PatchLedger.Proofs.Ledger.Failures
import PatchLedger.Proofs.Ledger.Stamps
import PatchLedger.Proofs.Operation.Incomplete
import PatchLedger.Proofs.Json.Reading
import PatchLedger.Proofs.Schema.Agreement
import PatchLedger.Proofs.Codec
import PatchLedger.Proofs.Json.Grammar
import PatchLedger.Proofs.Operation.Layout
