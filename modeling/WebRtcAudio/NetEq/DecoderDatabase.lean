import WebRtcAudio.NetEq.Packet

/-! `DecoderDatabase`: the decoders that are registered for the RTP payload types. -/
namespace WebRtcAudio.NetEq

structure ParseResult where
  timestamp : UInt32
  priority : ℤ
  frame : EncodedAudioFrame

inductive Subtype where
  | normal
  | comfortNoise
  | dtmf
  | red
  deriving DecidableEq

/-- `DecoderDatabase::DecoderInfo`. The decoder of the payload type is known by its sample rate,
its channels and the way it parses payloads. -/
structure DecoderInfo where
  subtype : Subtype
  clockrateHz : ℤ
  decoderSampleRateHz : ℤ
  channels : ℕ
  parsePayload : Buffer → UInt32 → List ParseResult

namespace DecoderInfo

def isComfortNoise (info : DecoderInfo) : Bool := info.subtype = .comfortNoise

def isDtmf (info : DecoderInfo) : Bool := info.subtype = .dtmf

def isRed (info : DecoderInfo) : Bool := info.subtype = .red

def sampleRateHz (info : DecoderInfo) : ℤ :=
  if info.isDtmf then info.clockrateHz else info.decoderSampleRateHz

end DecoderInfo

def DecoderDatabase : Type := UInt8 → Option DecoderInfo

namespace DecoderDatabase

variable (db : DecoderDatabase)

def getDecoderInfo (rtpPayloadType : UInt8) : Option DecoderInfo := db rtpPayloadType

def getDecoder (rtpPayloadType : UInt8) : Option DecoderInfo :=
  (db.getDecoderInfo rtpPayloadType).filter fun info => info.subtype = .normal

def isComfortNoise (rtpPayloadType : UInt8) : Bool :=
  (db.getDecoderInfo rtpPayloadType).any (·.isComfortNoise)

def isDtmf (rtpPayloadType : UInt8) : Bool := (db.getDecoderInfo rtpPayloadType).any (·.isDtmf)

def isRed (rtpPayloadType : UInt8) : Bool := (db.getDecoderInfo rtpPayloadType).any (·.isRed)

def checkPayloadTypes (packetList : List Packet) : Bool :=
  packetList.all fun packet => (db.getDecoderInfo packet.payloadType).isSome

end DecoderDatabase

end WebRtcAudio.NetEq
