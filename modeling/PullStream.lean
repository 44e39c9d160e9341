import PullStream.Service.Delivery
import PullStream.Service.StreamId
import PullStream.Service.Independence
import PullStream.Service.Stop
import PullStream.Service.Abort
import PullStream.Service.Recovery
import PullStream.Service.HostStop
import PullStream.Service.Placement
import PullStream.Service.Replies
import PullStream.Service.Register
import PullStream.Service.Watch
import PullStream.Control.Alone
import PullStream.Service.Pass
import PullStream.Service.Reload
import PullStream.Service.Spawn
import PullStream.Service.FailedQuery
import PullStream.Control.Guard
import PullStream.App.Fleet
import PullStream.Service.Ownership
import PullStream.Service.Command
import PullStream.Base.Words
import PullStream.Service.Arguments
import PullStream.Base.Trace
import PullStream.Service.Decoding
import PullStream.Service.Handlers
import PullStream.Service.Exits
import PullStream.Service.Forked
import PullStream.Service.Distinct
import PullStream.Base.Descriptors
import PullStream.App.PureLog
import PullStream.Pulld.LogFile
import PullStream.App.Pulld
import PullStream.Pulld.Probe
import PullStream.Pulld.Periods
import PullStream.Base.Precondition
import PullStream.Pulld.LogSlots
import PullStream.Pulld.LogLimits
import PullStream.App.IniReader
import PullStream.Config.Loading
import PullStream.Config.Lookups
import PullStream.Base.Sections
import PullStream.Config.Lines
import PullStream.Config.RoundTrip
import PullStream.Config.Splitting
import PullStream.Config.LongLines
import PullStream.Config.Headers
import PullStream.Base.Ends
import PullStream.App.Startup
import PullStream.App.Mains
import PullStream.Config.Settings
import PullStream.Config.Paths
import PullStream.App.PidFile
import PullStream.Pulld.Atoof
import PullStream.Service.PidFile
import PullStream.Base.FileSystem
import PullStream.Base.Potential
import PullStream.Service.Draining
import PullStream.Service.Accounts
import PullStream.Control.Requests
import PullStream.Service.Provenance
import PullStream.Service.Kills
import PullStream.Service.Serving
import PullStream.Service.FailingPass
import PullStream.Service.Driver
import PullStream.Pulld.LogJournal
import PullStream.Service.Exclusion
import PullStream.Service.Restart
import PullStream.Base.Tree
import PullStream.Config.Started
import PullStream.Config.Launched
import PullStream.Config.Layout
import PullStream.Service.Relaunch
