import MicroRos.Planning.RuleResolution
import MicroRos.Planning.Capacities
import MicroRos.Planning.OwnHeaders
import MicroRos.Planning.Agreement
import MicroRos.Planning.Sessions
import MicroRos.Planning.Undoing
import MicroRos.Planning.ZeroRequests
import MicroRos.Planning.Alignment
import MicroRos.Planning.RuleComparisons
import MicroRos.Planning.SizeBounds
import MicroRos.Planning.Mismatch
import MicroRos.Planning.InitMarks
import MicroRos.Transports.Clock
import MicroRos.Transports.Contract
import MicroRos.Transports.SerialTimeout
import MicroRos.Transports.SerialLifeCycle
import MicroRos.Planning.BufferRefinement
import MicroRos.Planning.MixedSessions
import MicroRos.Planning.FailingSessions
import MicroRos.Utilities.TypeInfoOutline
import MicroRos.Planning.RuleOrder
import MicroRos.Utilities.StringStore
import MicroRos.Transports.SerialWork
import MicroRos.Transports.AgentSessions
import MicroRos.Planning.EditedSessions
