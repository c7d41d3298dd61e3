import ToolGateway.Python.Value
import ToolGateway.Python.Binary64
import ToolGateway.Python.Fnmatch
import ToolGateway.Python.Globs
import ToolGateway.Python.Text
import ToolGateway.Python.Escape
import ToolGateway.Python.Raise
import ToolGateway.Python.Dumps
import ToolGateway.Python.Loads
import ToolGateway.Python.RoundTrip
import ToolGateway.Python.Scanned
import ToolGateway.Python.Files
import ToolGateway.Python.Heap
import ToolGateway.Domain
import ToolGateway.FirstMatch
import ToolGateway.Tickets.Store
import ToolGateway.Tickets.Memory
import ToolGateway.Tickets.Objects
import ToolGateway.Tickets.Sql
import ToolGateway.Keyset
import ToolGateway.Tickets.Queue
import ToolGateway.Tickets.Paging
import ToolGateway.Tickets.SameMachine
import ToolGateway.Tickets.Columns
import ToolGateway.Tickets.ColumnRuns
import ToolGateway.Tickets.Filter
import ToolGateway.Tickets.Listed
import ToolGateway.Upstreams.Session
import ToolGateway.Upstreams.SessionRuns
import ToolGateway.Gateway.World
import ToolGateway.Gateway.Startup
import ToolGateway.Gateway.StartupRuns
import ToolGateway.Gateway.Steps
import ToolGateway.Gateway.Approval
import ToolGateway.Python.Same
import ToolGateway.Gateway.Edits
import ToolGateway.Gateway.Polling
import ToolGateway.Gateway.Rules
import ToolGateway.Gateway.Accepted
import ToolGateway.Gateway.Assembly
import ToolGateway.Gateway.Adapters
import ToolGateway.Gateway.Ledger
import ToolGateway.Gateway.AwaitPoints
import ToolGateway.Gateway.Execution
import ToolGateway.Gateway.EntryPoints
import ToolGateway.Gateway.Runs
import ToolGateway.Gateway.Watch
import ToolGateway.Gateway.Watched
import ToolGateway.Gateway.Accounting
import ToolGateway.Gateway.Timeline
import ToolGateway.Gateway.Deadlines
import ToolGateway.Gateway.Authority
import ToolGateway.Gateway.Operators
import ToolGateway.Gateway.Provenance
import ToolGateway.Gateway.Tracks
import ToolGateway.Gateway.Edge
import ToolGateway.Gateway.Routing
import ToolGateway.Upstreams.Catalog
import ToolGateway.Gateway.Agreement
import ToolGateway.Gateway.AtMostOnce
import ToolGateway.Gateway.OneOutcome
import ToolGateway.Gateway.Verdicts
import ToolGateway.Gateway.Stranded
import ToolGateway.Gateway.Secrecy
import ToolGateway.Gateway.Redaction
import ToolGateway.Gateway.Scripts
import ToolGateway.Gateway.Visits
import ToolGateway.Gateway.Arrangement
import ToolGateway.Gateway.Failures
import ToolGateway.Gateway.Privacy
import ToolGateway.Gateway.Schema
import ToolGateway.FixedWindow
import ToolGateway.Gateway.Limiter
import ToolGateway.Gateway.Webhook
import ToolGateway.Gateway.InForce
import ToolGateway.Gateway.Signal
import ToolGateway.Gateway.Wakeup
import ToolGateway.Gateway.Parties
import ToolGateway.Gateway.Outage
import ToolGateway.Policy.Rule
import ToolGateway.Policy.Compile
import ToolGateway.Policy.Visibility
import ToolGateway.Policy.Hints
import ToolGateway.Policy.FailClosed
import ToolGateway.Policy.Trust
import ToolGateway.Policy.Evaluate
import ToolGateway.Policy.IntegerOrder
import ToolGateway.Coroutine.Program
import ToolGateway.Coroutine.Rely
import ToolGateway.Coroutine.Trail
import ToolGateway.Coroutine.Steps
import ToolGateway.Coroutine.Views
import ToolGateway.Coroutine.Follow
import ToolGateway.Coroutine.Paths
import ToolGateway.Coroutine.Lockstep
import ToolGateway.Coroutine.Given
import ToolGateway.Coroutine.Monitor
import ToolGateway.Coroutine.Retold
import ToolGateway.Policy.Source
import ToolGateway.Policy.Replica
import ToolGateway.Policy.Malformed
import ToolGateway.Policy.Order
import ToolGateway.Policy.VersionRuns
import ToolGateway.Policy.Replicas
import ToolGateway.Policy.Coherence
import ToolGateway.Policy.Locking
import ToolGateway.Policy.Convergence
import ToolGateway.Policy.Interval
import ToolGateway.Policy.FileSource
import ToolGateway.Policy.FileRuns
import ToolGateway.Policy.FileReaders
import ToolGateway.Policy.Controller
import ToolGateway.Policy.Linearizable
import ToolGateway.Gateway.ToolsList
import ToolGateway.Gateway.ToolsListed
import ToolGateway.Gateway.Custody
