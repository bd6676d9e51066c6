import FlashForwarder.Compressor.Independence
import FlashForwarder.Compressor.SnapshotAgreement
import FlashForwarder.Pgm.Session
import FlashForwarder.Spsc.WakeUp
import FlashForwarder.Spsc.PipePair
import FlashForwarder.Spsc.Deque
import FlashForwarder.Spsc.OutOfMemory
import FlashForwarder.Allocator.Ownership
import FlashForwarder.SzBinary.Delivery
import FlashForwarder.SzBinary.Progress
import FlashForwarder.SzBinary.Encoder
import FlashForwarder.Compressor.LateJoin
import FlashForwarder.Compressor.FailedDecode
import FlashForwarder.Service.Recovery
import FlashForwarder.Service.Heartbeats
import FlashForwarder.Monitor.Alarm
import FlashForwarder.Service.ConnectedSocket
import FlashForwarder.Service.SendBuffer
import FlashForwarder.Compressor.ParsedTemplates
import FlashForwarder.Compressor.PresenceMap
import FlashForwarder.Pgm.LossStatistics
import FlashForwarder.Pgm.MalformedDatagrams
import FlashForwarder.Pgm.SelfDescription
import FlashForwarder.Compressor.VarintWriters
import FlashForwarder.Compressor.DeltaArithmetic
import FlashForwarder.Common.Uri
import FlashForwarder.Common.DayPlaceholder
import FlashForwarder.Compressor.Batching
import FlashForwarder.Pgm.PushEnd
import FlashForwarder.Pgm.SenderPipe
import FlashForwarder.Compressor.KeptTemplates
import FlashForwarder.Compressor.TemplateSlots
import FlashForwarder.Pgm.SenderEngine
import FlashForwarder.Pgm.Broadcast
import FlashForwarder.Pgm.StatusReport
import FlashForwarder.Pgm.SocketLife
import FlashForwarder.Service.Conversation
import FlashForwarder.Compressor.Producer
import FlashForwarder.Monitor.Screen
