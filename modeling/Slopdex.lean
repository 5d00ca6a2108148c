import Slopdex.Join.Completions
import Slopdex.Turn.Idle
import Slopdex.Turn.Reports
import Slopdex.Agent.Residency
import Slopdex.Agent.Registry
import Slopdex.Agent.StaleEdges
import Slopdex.Patch.RoundTrip
import Slopdex.Patch.Delta
import Slopdex.Patch.Verification
import Slopdex.Join.Residue
import Slopdex.Stream.AssistantText
import Slopdex.Stream.Utf8Stream
import Slopdex.ExecPolicy.Reload
import Slopdex.ExecPolicy.Overlay
import Slopdex.Permissions.FullDisk
import Slopdex.Permissions.EntryOrder
import Slopdex.NetworkProxy.BlockedLog
import Slopdex.Rollout.EarlyEnd
import Slopdex.Rollout.CallPairs
import Slopdex.ExecServer.HttpBody
import Slopdex.UnifiedExec.HeadTailBuffer
import Slopdex.Guardian.Transcript
import Slopdex.Sections.Order
import Slopdex.Readiness.Wakeup
import Slopdex.Join.Deliveries
import Slopdex.Queue.Dispatch
import Slopdex.Relay.Streams
import Slopdex.Relay.Records
import Slopdex.Tui.LiveWrap
import Slopdex.Strings.Truncate
import Slopdex.Strings.FuzzyMatch
import Slopdex.ShellCommand.Dangerous
