import WebRtcAudio.Aec3.ConfigValidation
import WebRtcAudio.Aec3.ExternalAlignment
import WebRtcAudio.Aec3.LagHistogram
import WebRtcAudio.Aec3.LinearOutputFraming
import WebRtcAudio.Aec3.OverrunPropagation
import WebRtcAudio.Aec3.RenderDelayTracking
import WebRtcAudio.Aecm.AdaptationDirection
import WebRtcAudio.Aecm.ChannelCopies
import WebRtcAudio.Aecm.OutputStuffing
import WebRtcAudio.Agc.DigitalAgcSafety
import WebRtcAudio.Agc.GainControlImpl
import WebRtcAudio.Apm.AudioBuffer
import WebRtcAudio.Apm.Int16Interfaces
import WebRtcAudio.AudioCoding.AcmTimestamps
import WebRtcAudio.AudioCoding.SplitBySamples
import WebRtcAudio.CommonAudio.DivisionOperations
import WebRtcAudio.CommonAudio.PushSincResamplerRuns
import WebRtcAudio.CommonAudio.SqrtAccuracy
import WebRtcAudio.CommonAudio.VadHangover
import WebRtcAudio.CommonAudio.VadMinimum
import WebRtcAudio.CommonAudio.WavChunkWalk
import WebRtcAudio.CommonAudio.WavFile
import WebRtcAudio.Ilbc.FrameFormat
import WebRtcAudio.Ilbc.LsfCheck
import WebRtcAudio.Isac.HostileDecoding
import WebRtcAudio.Isac.RoundTrip
import WebRtcAudio.NetEq.ActiveDecoders
import WebRtcAudio.NetEq.AudioVectorRuns
import WebRtcAudio.NetEq.ConcealmentStatistics
import WebRtcAudio.NetEq.CrossCorrelation
import WebRtcAudio.NetEq.DtmfWrap
import WebRtcAudio.NetEq.MinimumDelay
import WebRtcAudio.NetEq.NackTimeToPlay
import WebRtcAudio.NetEq.PacketBufferRuns
import WebRtcAudio.NetEq.PacketExtraction
import WebRtcAudio.NetEq.PlainComparisons
import WebRtcAudio.NetEq.RedBlocks
import WebRtcAudio.NetEq.RelativeDelay
import WebRtcAudio.NetEq.SyncBufferRuns
import WebRtcAudio.NetEq.TimeStretch
import WebRtcAudio.RtcBase.AsyncTcpSocket
import WebRtcAudio.RtcBase.BitBufferRefinement
import WebRtcAudio.RtcBase.CopyOnWriteBufferSemantics
import WebRtcAudio.RtcBase.FifoBufferRefinement
import WebRtcAudio.RtcBase.SequenceNumbers
import WebRtcAudio.RtcBase.TimestampAligner
import WebRtcAudio.RtcBase.TimestampWrapAroundHandler
import WebRtcAudio.RtcBase.TmToSeconds
import WebRtcAudio.Utility.SpectrumCounts
import WebRtcAudio.Utility.Unwrapper
import WebRtcAudio.Wrapper.EchoCancellerChoice
import WebRtcAudio.Wrapper.FrameCopies
import WebRtcAudio.Wrapper.Lifecycle
