import IecCore.Lib.BigEndian
import IecCore.Lib.CLiteral
import IecCore.Lib.Conserved
import IecCore.Lib.Descriptors
import IecCore.Lib.Extremes
import IecCore.Lib.HexConstant
import IecCore.Lib.Hoare
import IecCore.Lib.Lockstep
import IecCore.Lib.NewestCell
import IecCore.Lib.Observation
import IecCore.Lib.OnePlace
import IecCore.Lib.Overflow
import IecCore.Lib.Positions
import IecCore.Lib.Replace
import IecCore.Lib.Rounding
import IecCore.Lib.Transition
import IecCore.Lib.Windows
import IecCore.Utils.Buffer
import IecCore.Utils.SequentialReads
import IecCore.Utils.ByteOp
import IecCore.Utils.Socket
import IecCore.Utils.ValueExchange
import IecCore.Utils.ValueExchangeWedge
import IecCore.Utils.ValueExchangeBlocking
import IecCore.Utils.BlockingFifo
import IecCore.Utils.BlockingReset
import IecCore.Utils.BlockingProgress
import IecCore.Utils.Helpers
import IecCore.Utils.MacAddress
import IecCore.Iec.Asdu
import IecCore.Iec.IecParser
import IecCore.Iec.FrameScan
import IecCore.Iec.Grammar
import IecCore.Iec.Completeness
import IecCore.Iec.Soundness
import IecCore.Iec.StandAlone
import IecCore.Iec.Locality
import IecCore.Iec.Neighbours
import IecCore.Iec.Lengths
import IecCore.Iec.Bounds
import IecCore.Iec.Rejection
import IecCore.Iec.Truncation
import IecCore.Iec.TruncatedFrame
import IecCore.Iec.LengthCounter
import IecCore.Iec.ParserReuse
import IecCore.Iec.Validator
import IecCore.Iec.ValidatorReset
import IecCore.Iec.LossStatistics
import IecCore.Iec.LossDetection
import IecCore.Iec.Conversion
import IecCore.Iec.MergingUnit
import IecCore.Algo.Processing
import IecCore.Algo.Crossings
import IecCore.Algo.SinglePrecision
import IecCore.Algo.Binary32
import IecCore.Engines.BpfEngine
import IecCore.Engines.Batching
import IecCore.Engines.BpfExec
import IecCore.Engines.EngineSetup
import IecCore.Handlers.NumberCrusher
import IecCore.Handlers.Batches
import IecCore.Bpf.EthernetParse
import IecCore.Bpf.Agreement
import IecCore.Bpf.Template
import IecCore.Bpf.GeneratedComparison
import IecCore.Bpf.Configuration
import IecCore.Bpf.Traffic
import IecCore.Bpf.NativeFilter
import IecCore.Bpf.Reconfiguration
import IecCore.PipelineBuilder
import IecCore.PipelineShutdown
import IecCore.PipelineLifecycle
import IecCore.Delivery
import IecCore.PipelineRun
import IecCore.EndToEnd
import IecCore.Wire
