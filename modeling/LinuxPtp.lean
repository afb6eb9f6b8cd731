import LinuxPtp.Wire.ParseBounds
import LinuxPtp.Wire.TlvList
import LinuxPtp.Port.StateMachine
import LinuxPtp.Lib.Conversion
import LinuxPtp.Wire.RoundTrip
import LinuxPtp.Wire.Resend
import LinuxPtp.Clock.MgmtForward
import LinuxPtp.Lib.Stepping
import LinuxPtp.Tc.Model
import LinuxPtp.Tc.Forward
import LinuxPtp.Tc.Ownership
import LinuxPtp.Tc.Traffic
import LinuxPtp.Tc.Lengths
import LinuxPtp.Tc.ReceivedBytes
import LinuxPtp.Bmc.Dataset
import LinuxPtp.Bmc.Standard
import LinuxPtp.Bmc.Election
import LinuxPtp.Lib.CellPool
import LinuxPtp.Ordinary.State
import LinuxPtp.Ordinary.Handlers
import LinuxPtp.Ordinary.Poll
import LinuxPtp.Ordinary.Effects
import LinuxPtp.Ordinary.Turns
import LinuxPtp.Bmc.Records
import LinuxPtp.Ordinary.Decision
import LinuxPtp.Ordinary.Runs
import LinuxPtp.Ordinary.Records
import LinuxPtp.Ordinary.Masters
import LinuxPtp.Ordinary.BestRecord
import LinuxPtp.Ordinary.Events
import LinuxPtp.Ordinary.Announces
import LinuxPtp.Ordinary.Requests
import LinuxPtp.Ordinary.Delays
import LinuxPtp.Wire.HostOrder
import LinuxPtp.Wire.Invertible
import LinuxPtp.Wire.HostList
import LinuxPtp.Wire.HostMessage
import LinuxPtp.Wire.Append
import LinuxPtp.Wire.PlainTlvs
import LinuxPtp.Clock.MgmtReply
import LinuxPtp.Clock.MgmtLaidOut
import LinuxPtp.Clock.ClockDescription
import LinuxPtp.Clock.MgmtReplies
import LinuxPtp.Clock.MgmtMeaning
import LinuxPtp.Clock.MgmtManage
import LinuxPtp.Wire.FirstTlv
import LinuxPtp.Clock.MgmtUses
import LinuxPtp.Config.Table
import LinuxPtp.Lib.ChainedTable
import LinuxPtp.Config.Keys
import LinuxPtp.Filter.Average
import LinuxPtp.Filter.Median
import LinuxPtp.Clock.Subscriptions
import LinuxPtp.Tc.StepsRemoved
import LinuxPtp.Clock.MgmtAnswers
import LinuxPtp.Clock.MgmtDispatch
import LinuxPtp.Nsm.Response
import LinuxPtp.Nsm.Understood
import LinuxPtp.Nsm.Client
import LinuxPtp.Phc.Node
import LinuxPtp.Phc.Reconfigure
import LinuxPtp.Phc.Offsets
import LinuxPtp.Wire.TimeCodec
import LinuxPtp.Tc.Pruning
import LinuxPtp.Clock.SyncInterval
import LinuxPtp.Bmc.Ageing
import LinuxPtp.Lib.BinaryHeap
import LinuxPtp.Port.PriorityQueue
import LinuxPtp.Port.Timers
import LinuxPtp.Clock.LeapSecond
import LinuxPtp.Filter.TimestampProcess
import LinuxPtp.Ordinary.Qualification
import LinuxPtp.Lib.RecordArray
import LinuxPtp.Wire.PathTrace
import LinuxPtp.Clock.PathTrace
import LinuxPtp.Lib.Grouping
import LinuxPtp.Timemaster.Script
import LinuxPtp.Timemaster.Partition
import LinuxPtp.Timemaster.NoClash
import LinuxPtp.Lib.Doubling
import LinuxPtp.Timemaster.PointerArray
import LinuxPtp.Config.Places
import LinuxPtp.Config.Overrides
import LinuxPtp.Config.Simulation
import LinuxPtp.Config.History
import LinuxPtp.Config.Lookups
import LinuxPtp.Config.File
import LinuxPtp.Config.Precedence
import LinuxPtp.Unicast.Contracts
import LinuxPtp.Unicast.Search
import LinuxPtp.Unicast.Invariant
import LinuxPtp.Unicast.Grants
import LinuxPtp.Unicast.Progress
import LinuxPtp.Ordinary.Faults
import LinuxPtp.Ordinary.Pairing
import LinuxPtp.Ordinary.Timers
import LinuxPtp.Lib.Oracle
import LinuxPtp.Tc.Accounting
import LinuxPtp.Unicast.Client
import LinuxPtp.Unicast.Masters
import LinuxPtp.Unicast.Renewals
import LinuxPtp.Lib.PacketFilter
import LinuxPtp.Ordinary.MasterTimers
import LinuxPtp.Transport.Raw
import LinuxPtp.Transport.Sockets
import LinuxPtp.Ordinary.MasterRuns
import LinuxPtp.Unicast.Agreement
import LinuxPtp.Unicast.Subscribers
import LinuxPtp.Tc.Ageing
import LinuxPtp.Ordinary.Changes
