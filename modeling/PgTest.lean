import PgTest.Lib.Machine
import PgTest.Lib.Images
import PgTest.Lib.Like
import PgTest.Lib.Peg
import PgTest.Lib.Fifo
import PgTest.Lib.Sql
import PgTest.Lib.Window
import PgTest.Lib.Pool
import PgTest.Engine.Message
import PgTest.Engine.Inventory
import PgTest.Engine.Core
import PgTest.Engine.Ledger
import PgTest.Engine.Chronicle
import PgTest.Engine.Books
import PgTest.Engine.Lifecycle
import PgTest.Engine.Queue
import PgTest.Engine.Assignments
import PgTest.Engine.Replies
import PgTest.Engine.Invariant
import PgTest.Engine.Serve
import PgTest.Engine.Dispatch
import PgTest.Engine.Supply
import PgTest.Engine.Handlers
import PgTest.Engine.Refinement
import PgTest.Engine.Tokens
import PgTest.Engine.Late
import PgTest.Engine.Jobs
import PgTest.Engine.Panics
import PgTest.Engine.Requests
import PgTest.Engine.Isolation
import PgTest.Engine.Conservation
import PgTest.Engine.Release
import PgTest.Engine.Waiting
import PgTest.Engine.Matching
import PgTest.Engine.Growth
import PgTest.Engine.Records
import PgTest.Engine.Initialisation
import PgTest.Engine.Ranges
import PgTest.Engine.Active
import PgTest.Engine.Fairness
import PgTest.Manager.Deadlines
import PgTest.Manager.Timers
import PgTest.Manager.Sessions
import PgTest.Manager.Connections
import PgTest.Manager.Workers
import PgTest.Manager.Composition
import PgTest.Manager.Shutdown
import PgTest.Manager.Ownership
import PgTest.Manager.Routing
import PgTest.Manager.Cluster
import PgTest.Wire.Upstream
import PgTest.Wire.Framing
import PgTest.Wire.Relay
import PgTest.Wire.Handshake
import PgTest.Wire.Connection
import PgTest.Wire.Server
import PgTest.Wire.Clients
import PgTest.Wire.Closing
import PgTest.Operations.DatabaseName
import PgTest.Operations.Manager
import PgTest.Operations.Sweep
import PgTest.Operations.Existence
import PgTest.Operations.Ddl
import PgTest.Operations.Identifiers
import PgTest.Operations.Drops
import PgTest.Operations.Creation
import PgTest.Manager.Startup
import PgTest.ControlPanel.Grammar
import PgTest.ControlPanel.Statement
import PgTest.ControlPanel.Protocol
import PgTest.ControlPanel.Paths
import PgTest.Wire.Isolation
import PgTest.Wire.Deployment
import PgTest.Engine.Acknowledgement
import PgTest.Manager.Releases
import PgTest.Wire.Disconnection
