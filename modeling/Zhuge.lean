import Zhuge.Lib.Run
import Zhuge.Lib.Binary64
import Zhuge.Lib.Codec
import Zhuge.Time
import Zhuge.DeltaDelay
import Zhuge.AckHold
import Zhuge.Packet
import Zhuge.Wire
import Zhuge.WireTrip
import Zhuge.Lib.Dict
import Zhuge.PacketGroup
import Zhuge.CreateBatch
import Zhuge.GroupFec
import Zhuge.BuiltGroup
import Zhuge.GroupRecovery
import Zhuge.VideoDecoder
import Zhuge.Playback
import Zhuge.PktHistory
import Zhuge.Receiver
import Zhuge.GroupClasses
import Zhuge.AckReply
import Zhuge.SendPackets
import Zhuge.Policies
import Zhuge.Sender
import Zhuge.SenderObjects
import Zhuge.SenderHistory
import Zhuge.Retransmission
import Zhuge.Session
import Zhuge.FrameAcks
import Zhuge.ReadyFrames
import Zhuge.TcpFrames
import Zhuge.FrameGroups
import Zhuge.SenderBasedController
import Zhuge.ControllerReset
import Zhuge.ControllerInvariant
import Zhuge.ControllerRuns
import Zhuge.BurstFeedback
import Zhuge.SendQueue
import Zhuge.SendQueueRuns
import Zhuge.Lib.Floating
import Zhuge.GccController
import Zhuge.GccRates
import Zhuge.GccLoss
import Zhuge.GccBounds
import Zhuge.Lib.Sweep
import Zhuge.DeltaHistory
import Zhuge.GroupDelivery
import Zhuge.GroupHeader
import Zhuge.FecSize
import Zhuge.SentSources
import Zhuge.EncodeTimes
import Zhuge.TxRate
import Zhuge.FastAck
import Zhuge.FastAckOrder
import Zhuge.ReceiveWindow
import Zhuge.FeedbackReports
import Zhuge.PerfectPath
import Zhuge.TransitHistory
import Zhuge.RecordedFeedback
import Zhuge.RecvRate
import Zhuge.AttributedSizes
import Zhuge.ArrivalOrder
import Zhuge.Lib.RunLength
import Zhuge.LossSequence
import Zhuge.GoodputWindow
import Zhuge.Lib.Bursts
import Zhuge.BurstStatistics
import Zhuge.FrameMoves
import Zhuge.FrameReplies
import Zhuge.MissRate
import Zhuge.DequeueRate
import Zhuge.ZhugeQueue
import Zhuge.HeadTime
import Zhuge.QueueArithmetic
import Zhuge.FeedbackIds
import Zhuge.QueueAhead
import Zhuge.FastAckPolling
import Zhuge.FastAckCache
import Zhuge.TcpCopa
import Zhuge.CopaWindow
import Zhuge.CopaVelocity
import Zhuge.CopaReversal
import Zhuge.SerialOrder
import Zhuge.Lib.Means
import Zhuge.RttStatistics
import Zhuge.FrameVerdict
import Zhuge.GroupStatistics
import Zhuge.FecQueries
import Zhuge.FecTable
import Zhuge.Lib.Extremes
import Zhuge.CopaDetection
import Zhuge.Lib.Batches
import Zhuge.CopaLoss
import Zhuge.TcpRate
import Zhuge.Lib.Reflection
import Zhuge.AbcMarking
import Zhuge.TcpAbc
import Zhuge.AbcLoop
import Zhuge.Lib.Regression
import Zhuge.GccDetector
import Zhuge.SentNames
import Zhuge.LedGroups
import Zhuge.SendStatistics
import Zhuge.GenuineDelivery
import Zhuge.Service
import Zhuge.AckedFrames
import Zhuge.EncoderLoop
import Zhuge.Streaming
import Zhuge.TcpBackoff
import Zhuge.Lib.Layout
import Zhuge.Dissector
import Zhuge.AckRtt
import Zhuge.Lib.MaximalRuns
import Zhuge.LossIntervals
import Zhuge.Lib.Loops
import Zhuge.Lib.Thinning
import Zhuge.HairpinMarkov
import Zhuge.NadaController
import Zhuge.Lib.Contraction
import Zhuge.NadaRates
import Zhuge.HairpinLosses
