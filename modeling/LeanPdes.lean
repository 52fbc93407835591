import LeanPdes.Words
import LeanPdes.Reach
import LeanPdes.TwoPartyBarrier
import LeanPdes.Message
import LeanPdes.Node
import LeanPdes.Engine
import LeanPdes.System
import LeanPdes.Control
import LeanPdes.Moves
import LeanPdes.Rounds
import LeanPdes.Faults
import LeanPdes.BarrierSafety
import LeanPdes.Clock
import LeanPdes.Causality
import LeanPdes.Delivery
import LeanPdes.ExitProtocol
import LeanPdes.ExitCalls
import LeanPdes.ExitHandshake
import LeanPdes.ExitAnnounced
import LeanPdes.Communicator
import LeanPdes.Traffic
import LeanPdes.SendDeadlock
import LeanPdes.SyncCounts
import LeanPdes.DrainStart
import LeanPdes.Netdev
import LeanPdes.TwoSenders
import LeanPdes.ExitThreads
import LeanPdes.CText
import LeanPdes.InflightJson
import LeanPdes.InflightList
import LeanPdes.CheckpointCounts
import LeanPdes.Startup
import LeanPdes.StartupBias
import LeanPdes.RingStart
import LeanPdes.CheckpointParty
import LeanPdes.CheckpointAgreement
import LeanPdes.ArrayAccess
import LeanPdes.DrainBounds
import LeanPdes.InitRendezvous
import LeanPdes.NodeRuns
import LeanPdes.QuantumCycle
import LeanPdes.DrainNotice
import LeanPdes.UnsyncedDelivery
import LeanPdes.Lookahead
import LeanPdes.SequentialRun
import LeanPdes.Contract
import LeanPdes.NodeContracts
import LeanPdes.CheckpointIdentity
import LeanPdes.CheckpointPledge
import LeanPdes.Faultless
import LeanPdes.SharedMemory
import LeanPdes.KeyedBag
import LeanPdes.InflightRemoval
import LeanPdes.PauseResume
import LeanPdes.UnaskedRuns
import LeanPdes.BarrierProgress
import LeanPdes.CommResources
import LeanPdes.ExitCompletion
import LeanPdes.UnsyncedFaults
