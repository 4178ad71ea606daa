import LoadCell.Bench.Run
import LoadCell.Device.Run
import LoadCell.Proofs.CalibrationInForce
import LoadCell.Proofs.ConnectionIsolation
import LoadCell.Proofs.DurableRegister
import LoadCell.Proofs.ResponseQueue
import LoadCell.Proofs.Alike
import LoadCell.Proofs.CommandGrammar
import LoadCell.Proofs.Core
import LoadCell.Proofs.LinkIndependence
import LoadCell.Proofs.WindowSort
import LoadCell.Proofs.SlidingMedian
import LoadCell.Proofs.StreamTime
import LoadCell.Proofs.PipelineLaw
import LoadCell.Proofs.StreamHistory
import LoadCell.Proofs.LatestWeight
import LoadCell.Proofs.AcknowledgedCommit
import LoadCell.Proofs.FailedCommit
import LoadCell.Proofs.UnreadSlots
import LoadCell.Proofs.FrameAnswers
import LoadCell.Proofs.InterruptedClear
import LoadCell.Proofs.LostWrites
import LoadCell.Proofs.StreamOrigin
import LoadCell.Proofs.AlikeConsole
import LoadCell.Proofs.ConsoleLines
import LoadCell.Proofs.SwappedReference
import LoadCell.Proofs.LatchedDisconnect
import LoadCell.Proofs.CrossedFrames
import LoadCell.Proofs.WireFrames
import LoadCell.Proofs.BoundedList
import LoadCell.Proofs.BurstErrors
import LoadCell.Proofs.PromptWeights
import LoadCell.Proofs.TrueTimes
import LoadCell.Proofs.EngineUses
import LoadCell.Proofs.LastCaptures
import LoadCell.Proofs.TareAverage
import LoadCell.Proofs.NestedRequests
import LoadCell.Proofs.ReadBack
import LoadCell.Proofs.ConsoleStream
import LoadCell.Proofs.GenerationOrder
import LoadCell.Proofs.OppositeFloats
import LoadCell.Proofs.PointOrder
import LoadCell.Proofs.LowBatteryWarning
import LoadCell.Proofs.PolynomialRemainder
