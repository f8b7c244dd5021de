import Autodialer.Lib.Fallible
import Autodialer.Lib.Heap
import Autodialer.Lib.Trace
import Autodialer.Lib.Chain
import Autodialer.Lib.Pending
import Autodialer.Lib.StableSort
import Autodialer.Lib.Logging
import Autodialer.Lib.Keyed
import Autodialer.Lib.Mealy
import Autodialer.Lib.Doubly
import Autodialer.Lib.Refinement
import Autodialer.Lib.Agenda
import Autodialer.Types
import Autodialer.Call
import Autodialer.CallSpec
import Autodialer.AllOrNothing
import Autodialer.Book
import Autodialer.ListSort
import Autodialer.Links
import Autodialer.LinksSpec
import Autodialer.LinksRun
import Autodialer.Timers
import Autodialer.Firing
import Autodialer.Db
import Autodialer.SqlQueue
import Autodialer.Dialer
import Autodialer.Tick
import Autodialer.CallEnd
import Autodialer.Pull
import Autodialer.System
import Autodialer.Database
import Autodialer.TickSpec
import Autodialer.CallEndSpec
import Autodialer.PullSpec
import Autodialer.Ownership
import Autodialer.Callbacks
import Autodialer.Steps
import Autodialer.Partition
import Autodialer.Invariant
import Autodialer.Selection
import Autodialer.CallLimit
import Autodialer.CallSteps
import Autodialer.HardLimit
import Autodialer.Sessions
import Autodialer.Contacts
import Autodialer.Campaigns
import Autodialer.Threads
import Autodialer.Loading
import Autodialer.Fate
import Autodialer.Statements
import Autodialer.CallLog
import Autodialer.CallStatements
import Autodialer.Causes
import Autodialer.Listing
import Autodialer.Connection
import Autodialer.Stopping
import Autodialer.Spacing
import Autodialer.Listening
import Autodialer.Faults
import Autodialer.Gateways
import Autodialer.Targets
import Autodialer.Reload
import Autodialer.Outcomes
import Autodialer.Retries
import Autodialer.StartMessages
import Autodialer.Serving
import Autodialer.Regex
import Autodialer.Print
import Autodialer.Uri
import Autodialer.GatewayUri
import Autodialer.Mirror
import Autodialer.Keys
import Autodialer.Mbuf
import Autodialer.RtpThread
import Autodialer.Stream
import Autodialer.AudioPath
import Autodialer.Negotiation
import Autodialer.PassEnds
import Autodialer.ResultSets
import Autodialer.Removal
import Autodialer.Lib.Separator
import Autodialer.Format
import Autodialer.StatementText
import Autodialer.ForwardingRecord
import Autodialer.Safety
import Autodialer.Capacity
import Autodialer.Leaks
import Autodialer.Shutdown
import Autodialer.Lib.Channel
import Autodialer.Telev
import Autodialer.TelevRun
import Autodialer.Lib.Paired
import Autodialer.SipRequest
import Autodialer.Sipsess
import Autodialer.UserAgent
import Autodialer.UserAgentSpec
import Autodialer.SipRequestSpec
import Autodialer.SipsessSpec
import Autodialer.SipsessCallbacks
import Autodialer.UserAgentSteps
import Autodialer.UserAgentRun
