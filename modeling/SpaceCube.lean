import SpaceCube.Library.InsertionDict
import SpaceCube.Library.ChunkAssembly
import SpaceCube.Library.MixedAssembly
import SpaceCube.Library.TracedAssembly
import SpaceCube.Library.Base64Text
import SpaceCube.Library.BoxGrid
import SpaceCube.Library.Runs
import SpaceCube.Library.BarrierBlock
import SpaceCube.Library.SerialThreads
import SpaceCube.Library.SetIteration
import SpaceCube.Orchestrator.PyValue
import SpaceCube.Orchestrator.ParticleMessages
import SpaceCube.Orchestrator.CollectUpdates
import SpaceCube.Orchestrator.WorkerSlots
import SpaceCube.Orchestrator.ReassemblyRoundTrip
import SpaceCube.Orchestrator.TornReply
import SpaceCube.Grid.WorkerBounds
import SpaceCube.Grid.GridCoverage
import SpaceCube.Orchestrator.MergeAndFrame
import SpaceCube.Orchestrator.MergeOwnership
import SpaceCube.Orchestrator.RunSimulation
import SpaceCube.Orchestrator.StepMachine
import SpaceCube.Orchestrator.AttemptCollection
import SpaceCube.Orchestrator.CompleteData
import SpaceCube.Orchestrator.AttemptBuffers
import SpaceCube.Orchestrator.WorkerReplies
import SpaceCube.Orchestrator.SynchronousRefinement
import SpaceCube.Orchestrator.Conservation
import SpaceCube.Orchestrator.FrameOrder
import SpaceCube.Orchestrator.BadMessages
import SpaceCube.Orchestrator.TopicCleanup
import SpaceCube.WebSocket.WebSocketServer
import SpaceCube.WebSocket.BroadcastDelivery
import SpaceCube.Kernel.ParticleForce
import SpaceCube.Kernel.TiledForce
import SpaceCube.Kernel.Float3Algebra
import SpaceCube.Kernel.Contact
import SpaceCube.Kernel.UpdateParticles
import SpaceCube.Kernel.CollisionLoop
import SpaceCube.Kernel.CxxStep
import SpaceCube.Kernel.ThreadOrder
import SpaceCube.Kernel.PartitionedLaunch
import SpaceCube.Kernel.Magnitude
import SpaceCube.Kernel.ContactOutcome
import SpaceCube.Kernel.NonLocal
import SpaceCube.Kernel.SpeedLimit
import SpaceCube.Library.CheckedArithmetic
import SpaceCube.Grid.WallsAndGrid
import SpaceCube.Kernel.HandleCollisions
import SpaceCube.Kernel.StoredAcceleration
import SpaceCube.Kernel.ForceBalance
import SpaceCube.Kernel.NoZeroDivision
import SpaceCube.Kernel.Displacement
import SpaceCube.WebSocket.HandlerCleanUp
import SpaceCube.WebSocket.ExactMembership
import SpaceCube.WebSocket.SendFrame
import SpaceCube.Grid.DimensionLoop
import SpaceCube.Kernel.IndexCoverage
import SpaceCube.Orchestrator.PurgeTopics
import SpaceCube.Orchestrator.Lifecycle
import SpaceCube.Orchestrator.RunExits
import SpaceCube.Orchestrator.StopSignal
import SpaceCube.Library.MachineWord
import SpaceCube.Library.Keystream
import SpaceCube.Library.Utf8Text
import SpaceCube.Wire.Masking
import SpaceCube.Wire.FrameHeader
import SpaceCube.Wire.HeaderChecks
import SpaceCube.Wire.Utf8Validator
import SpaceCube.Wire.Hybi13
import SpaceCube.Library.PiecewiseReader
import SpaceCube.Wire.ReadPieces
import SpaceCube.Wire.FrameMachine
import SpaceCube.Wire.FrameStream
import SpaceCube.Wire.PreparedFrames
import SpaceCube.Wire.SendQueue
import SpaceCube.Wire.Link
import SpaceCube.Wire.ClosingHandshake
import SpaceCube.Wire.ClosingSettles
import SpaceCube.Wire.CleanClose
import SpaceCube.Kernel.CubeSymmetry
import SpaceCube.Kernel.StepSimulation
import SpaceCube.WebSocket.MonoServer
import SpaceCube.WebSocket.FrameDelivery
import SpaceCube.WebSocket.CxxDelivery
import SpaceCube.Orchestrator.Distribution
import SpaceCube.Library.TextSearch
import SpaceCube.Library.HeadedReader
import SpaceCube.Library.OrderedMap
import SpaceCube.Wire.HttpParser
import SpaceCube.Wire.HttpRequest
import SpaceCube.Wire.HeadSize
import SpaceCube.Wire.HeaderFields
import SpaceCube.Wire.Base64
