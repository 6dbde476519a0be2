import Nhop.Cli.Arguments
import Nhop.Cli.Chronicle
import Nhop.Cli.Client
import Nhop.Cli.Doctor
import Nhop.Cli.Exit
import Nhop.Cli.FailedCommands
import Nhop.Cli.Follow
import Nhop.Cli.Growing
import Nhop.Cli.Invocations
import Nhop.Cli.Json
import Nhop.Cli.Logging
import Nhop.Cli.Lossless
import Nhop.Cli.Rendering
import Nhop.Cli.Report
import Nhop.Cli.SystemProxy
import Nhop.Cli.Tail
import Nhop.Daemon.Answering
import Nhop.Daemon.Atomicity
import Nhop.Daemon.Clients
import Nhop.Daemon.Commit
import Nhop.Daemon.Conversation
import Nhop.Daemon.Diagnosis
import Nhop.Daemon.Foretelling
import Nhop.Daemon.ForwardOrder
import Nhop.Daemon.Frontends
import Nhop.Daemon.Instance
import Nhop.Daemon.Isolation
import Nhop.Daemon.Ledger
import Nhop.Daemon.Load
import Nhop.Daemon.Opened
import Nhop.Daemon.Reconcile
import Nhop.Daemon.Refusal
import Nhop.Daemon.Relisting
import Nhop.Daemon.Rerun
import Nhop.Daemon.Serving
import Nhop.Daemon.Snapshot
import Nhop.Daemon.SoleInstance
import Nhop.Daemon.Staging
import Nhop.Daemon.State
import Nhop.Foundation.Accounts
import Nhop.Foundation.Address
import Nhop.Foundation.Cells
import Nhop.Foundation.ChangeLog
import Nhop.Foundation.Copying
import Nhop.Foundation.Display
import Nhop.Foundation.Draining
import Nhop.Foundation.Inodes
import Nhop.Foundation.Leftmost
import Nhop.Foundation.Lines
import Nhop.Foundation.Octets
import Nhop.Foundation.Reorder
import Nhop.Foundation.Runs
import Nhop.Foundation.Script
import Nhop.Foundation.Spelling
import Nhop.Foundation.Split
import Nhop.Foundation.Standard
import Nhop.Foundation.Utf8
import Nhop.Ipc.Command
import Nhop.Proxy.Alike
import Nhop.Proxy.Carousel
import Nhop.Proxy.Coherence
import Nhop.Proxy.Conveyance
import Nhop.Proxy.Course
import Nhop.Proxy.Decoding
import Nhop.Proxy.FrontEnd
import Nhop.Proxy.Http.Framing
import Nhop.Proxy.Http.Head
import Nhop.Proxy.Http.HopByHop
import Nhop.Proxy.Http.OneRequest
import Nhop.Proxy.Http.Rebuilt
import Nhop.Proxy.Http.Relay
import Nhop.Proxy.Http.Rewriting
import Nhop.Proxy.Http.Segments
import Nhop.Proxy.Http.Serve
import Nhop.Proxy.Http.Targets
import Nhop.Proxy.Listed
import Nhop.Proxy.Reading
import Nhop.Proxy.Refusals
import Nhop.Proxy.Routed
import Nhop.Proxy.Session
import Nhop.Proxy.Socks5
import Nhop.Proxy.Subscribers
import Nhop.Rules.Labels
import Nhop.Rules.Matcher
import Nhop.Rules.Precedence
import Nhop.Rules.Ruleset
import Nhop.Upstream.Causes
import Nhop.Upstream.Detection
import Nhop.Upstream.Dial
import Nhop.Upstream.Entries
import Nhop.Upstream.Health
import Nhop.Upstream.Hop
import Nhop.Upstream.Hysteresis
import Nhop.Upstream.Retirement
import Nhop.Upstream.Routes
import Nhop.Upstream.Select
import Nhop.Upstream.Selection
import Nhop.Upstream.Settling
import Nhop.Upstream.SwitchLog
import Nhop.Upstream.Tenancy
