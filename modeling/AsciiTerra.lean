import AsciiTerra.Lib.Outcome
import AsciiTerra.Lib.Machine
import AsciiTerra.Lib.Codec
import AsciiTerra.Lib.Lists
import AsciiTerra.Lib.OrderedMap
import AsciiTerra.Lib.Ring
import AsciiTerra.Coords
import AsciiTerra.Matrices
import AsciiTerra.Vectors
import AsciiTerra.Quaternions
import AsciiTerra.World
import AsciiTerra.FixedString
import AsciiTerra.Timer
import AsciiTerra.Combat
import AsciiTerra.Agreement
import AsciiTerra.AITurn
import AsciiTerra.AITurnSteps
import AsciiTerra.AITurnTermination
import AsciiTerra.AITurnReplay
import AsciiTerra.Layouts
import AsciiTerra.Message
import AsciiTerra.Connection
import AsciiTerra.Framing
import AsciiTerra.BodyStack
import AsciiTerra.Handshake
import AsciiTerra.Challenges
import AsciiTerra.ServerInterface
import AsciiTerra.TurnOrder
import AsciiTerra.Server
import AsciiTerra.MessageBounds
import AsciiTerra.ApprovedAction
import AsciiTerra.ServerInvariant
import AsciiTerra.Handlers
import AsciiTerra.LegalMoves
import AsciiTerra.TurnHolder
import AsciiTerra.TurnBudget
import AsciiTerra.SendPump
import AsciiTerra.WriteOverlap
import AsciiTerra.Listening
import AsciiTerra.DeliveredBytes
import AsciiTerra.SmallSteps
import AsciiTerra.HookOrder
import AsciiTerra.KeyedLookups
import AsciiTerra.Reentrancy
import AsciiTerra.UndisturbedLoops
import AsciiTerra.RegisteredRecord
import AsciiTerra.RoundRobin
import AsciiTerra.InventorySupply
import AsciiTerra.RemovedItems
import AsciiTerra.AttackSafety
import AsciiTerra.ValidatedPeers
import AsciiTerra.RemovalNotices
import AsciiTerra.Broadcast
import AsciiTerra.DroppedOnce
import AsciiTerra.HolderBroadcast
import AsciiTerra.ActorRecord
import AsciiTerra.AITurnBroadcast
import AsciiTerra.SteadyServer
import AsciiTerra.StillSockets
import AsciiTerra.DisconnectEnds
import AsciiTerra.Client
import AsciiTerra.ClientStream
import AsciiTerra.KnownUnits
import AsciiTerra.InformedClients
import AsciiTerra.InformedRuns
import AsciiTerra.Departures
import AsciiTerra.ReferencesKnown
import AsciiTerra.TurnCounters
import AsciiTerra.OwnCounter
import AsciiTerra.MatchedCounters
import AsciiTerra.CountersInRange
import AsciiTerra.ClientViews
import AsciiTerra.SparedMessages
import AsciiTerra.MirroredTurns
import AsciiTerra.Replicas
import AsciiTerra.Delivery
import AsciiTerra.Replies
import AsciiTerra.ClientLoop
import AsciiTerra.ClosedGame
import AsciiTerra.AnsweredClients
import AsciiTerra.WorldOverBytes
import AsciiTerra.Announcements
import AsciiTerra.Lib.FirstLeft
import AsciiTerra.TurnMessages
import AsciiTerra.PlayingClients
import AsciiTerra.FallingHealth
import AsciiTerra.SentSizes
import AsciiTerra.RelayedFrames
import AsciiTerra.RingBuffer
import AsciiTerra.RingRefinement
import AsciiTerra.RingViews
import AsciiTerra.RingStorage
import AsciiTerra.RingResize
import AsciiTerra.RingCopies
import AsciiTerra.RingBlocks
import AsciiTerra.MemoryHandles
import AsciiTerra.ReferenceCounts
import AsciiTerra.WeakHandles
import AsciiTerra.UniqueHandles
import AsciiTerra.ThreadSafeQueue
import AsciiTerra.QueueThreads
import AsciiTerra.ThreadSafeRelease
import AsciiTerra.MapPlaces
import AsciiTerra.AttackTargets
import AsciiTerra.StrikeEffect
import AsciiTerra.ReplayOrder
import AsciiTerra.CombatEffect
import AsciiTerra.KillReports
import AsciiTerra.MoveEffect
import AsciiTerra.Lib.FirstLeast
import AsciiTerra.TargetChoice
import AsciiTerra.AimedSteps
import AsciiTerra.AimedActions
