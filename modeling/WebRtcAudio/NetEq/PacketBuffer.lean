import WebRtcAudio.AudioCoding.AudioCodingModule
import WebRtcAudio.NetEq.Packet

/-! `PacketBuffer`: the packets that wait for being decoded, in the order of their timestamps. -/
namespace WebRtcAudio.NetEq

open AudioCoding

structure StatisticsCalculator where
  discardedPrimaryPackets : ℕ
  discardedSecondaryPackets : ℕ
  packetBufferFlushes : ℕ

namespace StatisticsCalculator

def packetsDiscarded (stats : StatisticsCalculator) (numPackets : ℕ) : StatisticsCalculator :=
  { stats with discardedPrimaryPackets := stats.discardedPrimaryPackets + numPackets }

def secondaryPacketsDiscarded (stats : StatisticsCalculator) (numPackets : ℕ) :
    StatisticsCalculator :=
  { stats with discardedSecondaryPackets := stats.discardedSecondaryPackets + numPackets }

def flushedPacketBuffer (stats : StatisticsCalculator) : StatisticsCalculator :=
  { stats with packetBufferFlushes := stats.packetBufferFlushes + 1 }

end StatisticsCalculator

def logPacketDiscarded (codecLevel : ℤ) (stats : StatisticsCalculator) : StatisticsCalculator :=
  if 0 < codecLevel then stats.secondaryPacketsDiscarded 1 else stats.packetsDiscarded 1

inductive BufferReturnCode where
  | ok
  | flushed
  | notFound
  | bufferEmpty
  | invalidPacket
  | invalidPointer
  deriving DecidableEq

structure PacketBuffer where
  maxNumberOfPackets : ℕ
  buffer : List Packet
  deriving DecidableEq

namespace PacketBuffer

def flush (b : PacketBuffer) : PacketBuffer := { b with buffer := [] }

def newTimestampIsLarger (newPacket packet : Packet) : Bool := newPacket.ge packet

/-- The packets before the place of a new packet, the last one first. The list is searched from
the back. -/
def before (packet : Packet) (buffer : List Packet) : List Packet :=
  buffer.reverse.dropWhile fun p => !newTimestampIsLarger packet p

def after (packet : Packet) (buffer : List Packet) : List Packet :=
  (buffer.reverse.takeWhile fun p => !newTimestampIsLarger packet p).reverse

def insertSorted (packet : Packet) (buffer : List Packet) (stats : StatisticsCalculator) :
    List Packet × StatisticsCalculator :=
  match before packet buffer with
  | rit :: front =>
    if packet.timestamp = rit.timestamp then
      (buffer, logPacketDiscarded packet.priority.codecLevel stats)
    else insertBefore packet (rit :: front) (after packet buffer) stats
  | [] => insertBefore packet [] (after packet buffer) stats
where
  /-- The packet after the place is replaced if it has the same timestamp. -/
  insertBefore (packet : Packet) (front back : List Packet) (stats : StatisticsCalculator) :
      List Packet × StatisticsCalculator :=
    match back with
    | it :: back =>
      if packet.timestamp = it.timestamp then
        (front.reverse ++ packet :: back, logPacketDiscarded it.priority.codecLevel stats)
      else (front.reverse ++ packet :: it :: back, stats)
    | [] => (front.reverse ++ [packet], stats)

def insertPacket (b : PacketBuffer) (tick : ℕ) (packet : Packet) (stats : StatisticsCalculator) :
    PacketBuffer × StatisticsCalculator × BufferReturnCode :=
  if packet.empty then (b, stats, .invalidPacket)
  else
    let packet := { packet with waitingTime := some tick }
    if b.maxNumberOfPackets ≤ b.buffer.length then
      let r := insertSorted packet b.flush.buffer stats.flushedPacketBuffer
      ({ b with buffer := r.1 }, r.2, .flushed)
    else
      let r := insertSorted packet b.buffer stats
      ({ b with buffer := r.1 }, r.2, .ok)

def nextHigherTimestamp (b : PacketBuffer) (timestamp : UInt32) : Except BufferReturnCode UInt32 :=
  if b.buffer.isEmpty then .error .bufferEmpty
  else
    match b.buffer.find? fun p => decide (timestamp ≤ p.timestamp) with
    | some p => .ok p.timestamp
    | none => .error .notFound

def peekNextPacket (b : PacketBuffer) : Option Packet := b.buffer.head?

def getNextPacket (b : PacketBuffer) : PacketBuffer × Option Packet :=
  ({ b with buffer := b.buffer.tail }, b.buffer.head?)

def discardNextPacket (b : PacketBuffer) (stats : StatisticsCalculator) :
    PacketBuffer × StatisticsCalculator × BufferReturnCode :=
  match b.buffer with
  | [] => (b, stats, .bufferEmpty)
  | p :: buffer => ({ b with buffer }, logPacketDiscarded p.priority.codecLevel stats, .ok)

def isObsoleteTimestamp (timestamp timestampLimit horizonSamples : UInt32) : Bool :=
  isNewerTimestamp timestampLimit timestamp &&
    (decide (horizonSamples = 0) || isNewerTimestamp timestamp (timestampLimit - horizonSamples))

def removeIf (b : PacketBuffer) (remove : Packet → Bool) (stats : StatisticsCalculator) :
    PacketBuffer × StatisticsCalculator :=
  ({ b with buffer := b.buffer.filter fun p => !remove p },
    (b.buffer.filter remove).foldl (fun stats p => logPacketDiscarded p.priority.codecLevel stats)
      stats)

def discardOldPackets (b : PacketBuffer) (timestampLimit horizonSamples : UInt32)
    (stats : StatisticsCalculator) : PacketBuffer × StatisticsCalculator :=
  b.removeIf (fun p => !(decide (timestampLimit = p.timestamp) ||
    !isObsoleteTimestamp p.timestamp timestampLimit horizonSamples)) stats

def discardPacketsWithPayloadType (b : PacketBuffer) (payloadType : UInt8)
    (stats : StatisticsCalculator) : PacketBuffer × StatisticsCalculator :=
  b.removeIf (fun p => !decide (p.payloadType ≠ payloadType)) stats

end PacketBuffer

end WebRtcAudio.NetEq
