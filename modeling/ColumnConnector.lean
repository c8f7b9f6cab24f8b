import ColumnConnector.Connector
import ColumnConnector.Proofs.Store.Checkout
import ColumnConnector.Proofs.Store.Journal
import ColumnConnector.Proofs.Store.Reading
import ColumnConnector.Store.Recorder
import ColumnConnector.Store.Workspace
import ColumnConnector.Proofs.Store.Session
import ColumnConnector.Proofs.Store.Timestamps
import ColumnConnector.Proofs.Store.Answers
import ColumnConnector.Proofs.Connector.Failures
import ColumnConnector.Proofs.Outcomes
import ColumnConnector.Proofs.Row.Request
import ColumnConnector.Proofs.Connector.Reachable
import ColumnConnector.Proofs.Connector.Writes
import ColumnConnector.Proofs.Text.Utf8
import ColumnConnector.Proofs.Value.RoundTrip
import ColumnConnector.Proofs.Value.Forms
import ColumnConnector.Proofs.Row.ReadBack
import ColumnConnector.Proofs.Connector.RoundTrip
import ColumnConnector.Proofs.Connector.Process
import ColumnConnector.Proofs.Store.Scanning
import ColumnConnector.Proofs.Row.Scanning
import ColumnConnector.Proofs.Invocation.Scans
import ColumnConnector.Proofs.Invocation.Precedence
import ColumnConnector.Proofs.Invocation.Agreement
import ColumnConnector.Proofs.Mapping.Batches
import ColumnConnector.Proofs.Invocation.Keys
import ColumnConnector.Proofs.Row.Columns
import ColumnConnector.Proofs.Invocation.Columns
import ColumnConnector.Proofs.Filter.Matching
import ColumnConnector.Proofs.Filter.Acceptance
import ColumnConnector.Proofs.Connector.TypedColumns
import ColumnConnector.Proofs.Header
import ColumnConnector.Proofs.Numbering
import ColumnConnector.Proofs.Mapping.Headers
import ColumnConnector.Proofs.Connector.Results
import ColumnConnector.Proofs.Store.Accessors
import ColumnConnector.Proofs.Connector.Batching
import ColumnConnector.Proofs.Connector.Sharing
import ColumnConnector.Proofs.Mapping.Entries
import ColumnConnector.Proofs.Connector.Untyped
import ColumnConnector.Proofs.Connector.Preconditions
import ColumnConnector.Proofs.Invocation.Gets
import ColumnConnector.Proofs.Json.Records
import ColumnConnector.Proofs.Json.RoundTrip
import ColumnConnector.Proofs.Json.Messages
import ColumnConnector.Proofs.Store.Snapshots
import ColumnConnector.Proofs.Store.Stamps
import ColumnConnector.Proofs.Store.RowCount
import ColumnConnector.Proofs.Connector.Invocations
import ColumnConnector.Proofs.Connector.Accounting
import ColumnConnector.Proofs.Connector.Frame
import ColumnConnector.Proofs.Connector.StartRow
import ColumnConnector.Proofs.Mapping.FirstGap
import ColumnConnector.Proofs.Row.Completion
import ColumnConnector.Proofs.Mapping.EntryKeys
import ColumnConnector.Proofs.Mapping.HeaderNames
import ColumnConnector.Proofs.Value.Texts
import ColumnConnector.Proofs.Mapping.ReadBack
import ColumnConnector.Proofs.Text.WellFormed
import ColumnConnector.Proofs.Value.Codec
import ColumnConnector.Proofs.Value.Coercion
import ColumnConnector.Proofs.Filter.Comparison
import ColumnConnector.Proofs.Filter.Evaluation
import ColumnConnector.Proofs.Numeral.Reading
import ColumnConnector.Proofs.Numeral.Shortest
import ColumnConnector.Proofs.Numeral.Doubles
import ColumnConnector.Proofs.Value.DoubleTexts
import ColumnConnector.Proofs.Value.DoubleCoercion
import ColumnConnector.Proofs.Filter.Restriction
import ColumnConnector.Proofs.Filter.Binding
import ColumnConnector.Proofs.Value.Leads
import ColumnConnector.Proofs.Endpoint.Settings
