import Tumgrd.Effect.Program
import Tumgrd.Effect.Service
import Tumgrd.Effect.Process
import Tumgrd.Effect.Abstraction
import Tumgrd.Effect.Custody
import Tumgrd.Unix.Descriptors
import Tumgrd.Lex.Words
import Tumgrd.Lex.Lines
import Tumgrd.Lex.Numeral
import Tumgrd.Store.Keyed
import Tumgrd.Text
import Tumgrd.Urandom
import Tumgrd.Node
import Tumgrd.Sql
import Tumgrd.World
import Tumgrd.Db
import Tumgrd.Runner
import Tumgrd.Reconcile
import Tumgrd.Ubus
import Tumgrd.Address
import Tumgrd.Ipdetect
import Tumgrd.Rules
import Tumgrd.Call
import Tumgrd.Footprint
import Tumgrd.Conduct
import Tumgrd.Consistent
import Tumgrd.Handlers
import Tumgrd.Registration
import Tumgrd.Daemon
import Tumgrd.Scenario
import Tumgrd.Columns
import Tumgrd.Rows
import Tumgrd.Rotation
import Tumgrd.Skip
import Tumgrd.Recovery
import Tumgrd.Lifetime
import Tumgrd.Isolation
import Tumgrd.Identity
import Tumgrd.Timestamps
import Tumgrd.Merge
import Tumgrd.ClockStep
import Tumgrd.ExplicitKey
import Tumgrd.Deregister
import Tumgrd.Timeouts
import Tumgrd.Pointwise
import Tumgrd.Convergence
import Tumgrd.Options
import Tumgrd.Loop
import Tumgrd.Lifecycle
import Tumgrd.Truncation
import Tumgrd.Scripts
import Tumgrd.Secrets
import Tumgrd.Schema
import Tumgrd.Exec
import Tumgrd.Directories
import Tumgrd.Plumbing
import Tumgrd.Watchdog
import Tumgrd.Deadline
import Tumgrd.Pipes
import Tumgrd.Drain
import Tumgrd.Acceptance
import Tumgrd.Environ
import Tumgrd.Url
import Tumgrd.Request
import Tumgrd.Sockets
import Tumgrd.Cli
import Tumgrd.Spelling
import Tumgrd.Attributes
import Tumgrd.Heeding
import Tumgrd.Client
import Tumgrd.Restore
import Tumgrd.Refreshing
