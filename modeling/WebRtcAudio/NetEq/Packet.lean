import Mathlib.Algebra.Group.Nat.Defs

/-! The packets of NetEq. Timestamps and sequence numbers wrap at 32 and 16 bits. -/
namespace WebRtcAudio.NetEq

structure Buffer where
  data : List UInt8
  size_lt : data.length < 2 ^ 63
  deriving DecidableEq

namespace Buffer

def size (b : Buffer) : ℕ := b.data.length

def setData (b : Buffer) (pos n : ℕ) : Option Buffer :=
  if pos + n ≤ b.size then
    some ⟨(b.data.drop pos).take n,
      Nat.lt_of_le_of_lt (by rw [List.length_take, List.length_drop]; omega) b.size_lt⟩
  else none

end Buffer

structure AbsoluteCaptureTime where
  absoluteCaptureTimestamp : UInt64
  estimatedCaptureClockOffset : Option Int64
  deriving DecidableEq

structure RtpPacketInfo where
  ssrc : UInt32
  csrcs : List UInt32
  rtpTimestamp : UInt32
  audioLevel : Option UInt8
  absoluteCaptureTime : Option AbsoluteCaptureTime
  receiveTimeMs : Int64
  deriving DecidableEq

structure Priority where
  codecLevel : ℤ
  redLevel : ℤ
  deriving DecidableEq

def Priority.lt (a b : Priority) : Bool :=
  if a.codecLevel = b.codecLevel then decide (a.redLevel < b.redLevel)
  else decide (a.codecLevel < b.codecLevel)

structure EncodedAudioFrame where
  duration : ℕ
  isDtxPacket : Bool
  deriving DecidableEq

structure Packet where
  timestamp : UInt32
  sequenceNumber : UInt16
  payloadType : UInt8
  payload : Buffer
  priority : Priority
  packetInfo : RtpPacketInfo
  /-- The tick at which the stopwatch was started. -/
  waitingTime : Option ℕ
  frame : Option EncodedAudioFrame
  deriving DecidableEq

namespace Packet

def received (timestamp : UInt32) (sequenceNumber : UInt16) (payloadType : UInt8)
    (payload : Buffer) (packetInfo : RtpPacketInfo) : Packet where
  timestamp := timestamp
  sequenceNumber := sequenceNumber
  payloadType := payloadType
  payload := payload
  priority := ⟨0, 0⟩
  packetInfo := packetInfo
  waitingTime := none
  frame := none

def lt (lhs rhs : Packet) : Bool :=
  if lhs.timestamp = rhs.timestamp then
    if lhs.sequenceNumber = rhs.sequenceNumber then lhs.priority.lt rhs.priority
    else decide (rhs.sequenceNumber - lhs.sequenceNumber < 0xFFFF / 2)
  else decide (rhs.timestamp - lhs.timestamp < 0xFFFFFFFF / 2)

def ge (lhs rhs : Packet) : Bool := !lhs.lt rhs

def empty (p : Packet) : Bool := p.frame.isNone && p.payload.data.isEmpty

end Packet

end WebRtcAudio.NetEq
