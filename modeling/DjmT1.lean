import DjmT1.Audio.RingConcurrent
import DjmT1.Audio.RingFifo
import DjmT1.Audio.RingRange
import DjmT1.Audio.Engine
import DjmT1.Audio.EngineInv
import DjmT1.Audio.Gauge
import DjmT1.Audio.Paths
import DjmT1.Audio.Loss
import DjmT1.Audio.PassThrough
import DjmT1.Audio.Lifecycle
import DjmT1.Audio.Inflight
import DjmT1.Audio.Encoder
import DjmT1.Audio.PipeWire
import DjmT1.Audio.Graph
import DjmT1.Audio.EngineStart
import DjmT1.Lib.Period
import DjmT1.Kernel.Transfer
import DjmT1.Kernel.Stream
import DjmT1.Kernel.Handlers
import DjmT1.Kernel.Submission
import DjmT1.Kernel.FailedStart
import DjmT1.Kernel.StopFinal
import DjmT1.Kernel.Accounting
import DjmT1.Kernel.Stale
import DjmT1.Kernel.RingContents
import DjmT1.Kernel.Periods
import DjmT1.Kernel.Probe
import DjmT1.Kernel.Unplug
import DjmT1.Midi.Packet
import DjmT1.Midi.Inbound
import DjmT1.Midi.Outbound
import DjmT1.Midi.SystemOut
import DjmT1.Midi.Liveness
import DjmT1.Midi.BridgeEnd
import DjmT1.Lib.Overlay
import DjmT1.Midi.HidProbe
import DjmT1.Midi.Mixxx
import DjmT1.Midi.AudioGate
import DjmT1.Midi.DeviceLoss
import DjmT1.Lib.Json
import DjmT1.Tools.Calibrate
import DjmT1.Lib.Tally
import DjmT1.Tools.Aggregate
import DjmT1.Tools.Capture
import DjmT1.Tools.CalQuick
import DjmT1.Lib.Pattern
import DjmT1.Tools.EventLine
import DjmT1.Tools.EventLog
import DjmT1.Audio.RawCapture
import DjmT1.Audio.CaptureRun
import DjmT1.Audio.Playback
import DjmT1.Lib.PySeq
import DjmT1.Tools.Navigation
import DjmT1.Midi.MalformedOut
import DjmT1.Kernel.Card
import DjmT1.Lib.Streaming
import DjmT1.Midi.Session
import DjmT1.Midi.Gate
