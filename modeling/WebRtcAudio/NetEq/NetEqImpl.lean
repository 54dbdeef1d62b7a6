import WebRtcAudio.NetEq.DecisionLogic
import WebRtcAudio.NetEq.RedPayloadSplitter
import WebRtcAudio.NetEq.TimestampScaler

/-! `NetEqImpl` without the samples; what depends on them is given with each call. -/
namespace WebRtcAudio.NetEq

open WebRtcAudio.Core

def RedPayloadSplitter.checkRedPayloads (db : DecoderDatabase) :
    Option UInt8 → List Packet → List Packet
  | _, [] => []
  | mainPayloadType, packet :: packetList =>
    if db.isRed packet.payloadType then checkRedPayloads db mainPayloadType packetList
    else if !db.isDtmf packet.payloadType && !db.isComfortNoise packet.payloadType then
      match mainPayloadType with
      | none => packet :: checkRedPayloads db (some packet.payloadType) packetList
      | some main =>
        if packet.payloadType ≠ main then checkRedPayloads db mainPayloadType packetList
        else packet :: checkRedPayloads db mainPayloadType packetList
    else packet :: checkRedPayloads db mainPayloadType packetList

def DecoderDatabase.equalSampleRates (db : DecoderDatabase) (pt1 pt2 : UInt8) : Bool :=
  match db.getDecoderInfo pt1, db.getDecoderInfo pt2 with
  | some di1, some di2 => decide (di1.sampleRateHz = di2.sampleRateHz)
  | _, _ => false

structure InsertList where
  packetBuffer : PacketBuffer
  currentRtpPayloadType : Option UInt8
  currentCngRtpPayloadType : Option UInt8
  stats : StatisticsCalculator
  flushed : Bool

namespace InsertList

def checkCodec (l : InsertList) (db : DecoderDatabase) (packet : Packet) : InsertList :=
  if db.isComfortNoise packet.payloadType then
    let newType := l.currentCngRtpPayloadType.any fun pt => decide (pt ≠ packet.payloadType)
    { l with
      packetBuffer := if newType then l.packetBuffer.flush else l.packetBuffer
      currentRtpPayloadType := if newType then none else l.currentRtpPayloadType
      currentCngRtpPayloadType := some packet.payloadType
      flushed := newType || l.flushed }
  else if !db.isDtmf packet.payloadType then
    let newType := (l.currentRtpPayloadType.any fun pt => decide (pt ≠ packet.payloadType)) ||
      l.currentCngRtpPayloadType.any fun pt => !db.equalSampleRates packet.payloadType pt
    { l with
      packetBuffer := if newType then l.packetBuffer.flush else l.packetBuffer
      currentRtpPayloadType := some packet.payloadType
      currentCngRtpPayloadType := if newType then none else l.currentCngRtpPayloadType
      flushed := newType || l.flushed }
  else l

end InsertList

def PacketBuffer.insertPacketList (db : DecoderDatabase) (tick : ℕ) :
    InsertList → List Packet → InsertList × BufferReturnCode
  | l, [] => (l, if l.flushed then .flushed else .ok)
  | l, packet :: packetList =>
    let l := l.checkCodec db packet
    let r := l.packetBuffer.insertPacket tick packet l.stats
    let l := { l with packetBuffer := r.1, stats := r.2.1 }
    match r.2.2 with
    | .flushed => insertPacketList db tick { l with flushed := true } packetList
    | .ok => insertPacketList db tick l packetList
    | code => (l, code)

/-- `DtmfBuffer::ParseEvent` gives an event that `InsertEvent` accepts. The volume of six bits and
the duration of 16 bits are always in range. -/
def acceptsDtmfEvent (payload : Buffer) : Bool :=
  match payload.data with
  | event :: _ :: high :: low :: _ =>
    decide (event.toNat ≤ 15) && decide (0 < high.toNat <<< 8 ||| low.toNat)
  | _ => false

def SampleRate.ofHz? (hz : ℤ) : Option SampleRate :=
  if hz = 8000 then some .hz8000
  else if hz = 16000 then some .hz16000
  else if hz = 32000 then some .hz32000
  else if hz = 48000 then some .hz48000
  else none

structure NetEqImpl where
  enableMutedState : Bool
  packetBuffer : PacketBuffer
  stats : StatisticsCalculator
  /-- The timer of the controller is the one of the whole object. -/
  controller : DecisionLogic
  timestampScaler : TimestampScaler
  lastMode : Mode
  newCodec : Bool
  firstPacket : Bool
  resetDecoder : Bool
  fs : SampleRate
  lastOutputSampleRate : SampleRate
  decoderFrameLength : ℕ
  decodedBufferLength : ℕ
  /-- The channels of the audio buffers. -/
  channels : ℕ
  timestamp : UInt32
  /-- The timestamp of the last sample in `sync_buffer_`. -/
  endTimestamp : UInt32
  /-- The tick at which the stopwatch was started. -/
  generatedNoiseStopwatch : Option ℕ
  currentRtpPayloadType : Option UInt8
  currentCngRtpPayloadType : Option UInt8
  activeDecoderType : Option UInt8

structure RtpHeader where
  payloadType : UInt8
  sequenceNumber : UInt16
  timestamp : UInt32

namespace NetEqImpl

def kMaxFrameSize : ℕ := 5760

def outputSizeSamples (s : NetEqImpl) : ℕ := 10 * 8 * (s.fs.hz / 8000)

def tick (s : NetEqImpl) : ℕ := s.controller.tick

def setSampleRateAndChannels (s : NetEqImpl) (fsHz : ℤ) (channels : ℕ) : Option NetEqImpl :=
  if channels = 0 then none
  else
    (SampleRate.ofHz? fsHz).map fun fs =>
      { s with
        fs := fs
        decoderFrameLength := 3 * (10 * 8 * (fs.hz / 8000))
        lastMode := .normal
        channels := channels
        endTimestamp := 0
        decodedBufferLength := max s.decodedBufferLength (kMaxFrameSize * channels)
        controller := s.controller.setSampleRate fs (10 * 8 * (fs.hz / 8000)) }

def initial (fs : SampleRate) (enableMutedState : Bool) (maxPacketsInBuffer : ℕ)
    (controller : DecisionLogic) : NetEqImpl where
  enableMutedState := enableMutedState
  packetBuffer := ⟨maxPacketsInBuffer, []⟩
  stats := ⟨0, 0, 0⟩
  controller := controller.setSampleRate fs (10 * 8 * (fs.hz / 8000))
  timestampScaler := .initial
  lastMode := .normal
  newCodec := false
  firstPacket := true
  resetDecoder := false
  fs := fs
  lastOutputSampleRate := fs
  decoderFrameLength := 3 * (10 * 8 * (fs.hz / 8000))
  decodedBufferLength := kMaxFrameSize
  channels := 1
  timestamp := 0
  endTimestamp := 0
  generatedNoiseStopwatch := none
  currentRtpPayloadType := none
  currentCngRtpPayloadType := none
  activeDecoderType := none

def flushBuffers (s : NetEqImpl) : NetEqImpl :=
  { s with packetBuffer := s.packetBuffer.flush, endTimestamp := 0, firstPacket := true }

/-- The start of `InsertPacketInternal`: the timestamp is scaled, unless the packet is to be split,
and the first packet starts over. -/
def receive (s : NetEqImpl) (db : DecoderDatabase) (packet : Packet) : NetEqImpl × List Packet :=
  let scaler := if s.firstPacket then s.timestampScaler.reset else s.timestampScaler
  let r :=
    if db.isRed packet.payloadType then (scaler, packet) else scaler.toInternalPacket db packet
  let s := { s with timestampScaler := r.1 }
  if s.firstPacket then
    ({ s with
        packetBuffer := s.packetBuffer.flush
        endTimestamp := s.endTimestamp + (r.2.timestamp - s.timestamp)
        timestamp := r.2.timestamp }, [r.2])
  else (s, [r.2])

/-- RED payloads are separated into several packets. The inner `none` is
`kRedundancySplitError`. -/
def separate (db : DecoderDatabase) (payloadType : UInt8) (packetList : List Packet) :
    Option (Option (List Packet)) :=
  if db.isRed payloadType then
    (RedPayloadSplitter.splitRed packetList).map fun r =>
      if r.2 then
        let packetList := RedPayloadSplitter.checkRedPayloads db none r.1
        if packetList.isEmpty then none else some packetList
      else none
  else some (some packetList)

def processDtmf (db : DecoderDatabase) : List Packet → Option (List Packet)
  | [] => some []
  | packet :: packetList =>
    if db.isDtmf packet.payloadType then
      if acceptsDtmfEvent packet.payload then processDtmf db packetList else none
    else (processDtmf db packetList).map (packet :: ·)

def packetFromResult (packet : Packet) (result : ParseResult) : Packet where
  timestamp := result.timestamp
  sequenceNumber := packet.sequenceNumber
  payloadType := packet.payloadType
  payload := ⟨[], by decide⟩
  priority := ⟨result.priority, packet.priority.redLevel⟩
  packetInfo := packet.packetInfo
  waitingTime := none
  frame := some result.frame

def parsePackets (db : DecoderDatabase) (packetList : List Packet) : List Packet :=
  packetList.flatMap fun packet =>
    match db.getDecoderInfo packet.payloadType with
    | none => []
    | some info =>
      if info.isComfortNoise then [packet]
      else (info.parsePayload packet.payload packet.timestamp).map (packetFromResult packet)

def updateSampleRateAndChannels (s : NetEqImpl) (db : DecoderDatabase) : Option NetEqImpl :=
  match s.packetBuffer.peekNextPacket with
  | none => some s
  | some nextPacket =>
    (db.getDecoderInfo nextPacket.payloadType).bind fun info =>
      let channels := if info.isComfortNoise then 1 else info.channels
      if info.sampleRateHz ≠ s.fs.hz ∨ channels ≠ s.channels then
        s.setSampleRateAndChannels info.sampleRateHz channels
      else some s

structure Arrived where
  delayManager : DelayManager
  packetLengthSamples : ℕ

def packetsInserted (s : NetEqImpl) (db : DecoderDatabase) (arrived : Arrived)
    (updateSampleRate : Bool) : Option (NetEqImpl × Bool) :=
  let s := if s.firstPacket then { s with firstPacket := false, newCodec := true } else s
  (if updateSampleRate then s.updateSampleRateAndChannels db else some s).map fun s =>
    ({ s with controller :=
        { s.controller with
          delayManager := arrived.delayManager
          packetLengthSamples := arrived.packetLengthSamples } }, true)

def insertParsed (s : NetEqImpl) (db : DecoderDatabase) (parsedPacketList : List Packet)
    (arrived : Arrived) : Option (NetEqImpl × Bool) :=
  let r := PacketBuffer.insertPacketList db s.tick
    ⟨s.packetBuffer, s.currentRtpPayloadType, s.currentCngRtpPayloadType, s.stats, false⟩
    parsedPacketList
  let s := { s with
    packetBuffer := r.1.packetBuffer
    currentRtpPayloadType := r.1.currentRtpPayloadType
    currentCngRtpPayloadType := r.1.currentCngRtpPayloadType
    stats := r.1.stats }
  match r.2 with
  | .flushed => { s with newCodec := true }.packetsInserted db arrived true
  | .ok => s.packetsInserted db arrived s.firstPacket
  | _ => some (s, false)

/-- `InsertPacket`: the new state and whether it returns `kOK`. The result is undefined where the
code reads outside a payload or an assertion fails. -/
def insertPacket (s : NetEqImpl) (db : DecoderDatabase) (header : RtpHeader) (payload : Buffer)
    (packetInfo : RtpPacketInfo) (arrived : Arrived) : Option (NetEqImpl × Bool) :=
  if payload.data.isEmpty then some (s, false)
  else
    let packet :=
      Packet.received header.timestamp header.sequenceNumber header.payloadType payload packetInfo
    let received := s.receive db packet
    let s := received.1
    match separate db header.payloadType received.2 with
    | none => none
    | some none => some (s, false)
    | some (some packetList) =>
      if !db.checkPayloadTypes packetList then some (s, false)
      else
        let scaled :=
          if db.isRed header.payloadType then s.timestampScaler.toInternalList db packetList
          else (s.timestampScaler, packetList)
        let s := { s with timestampScaler := scaled.1 }
        match processDtmf db scaled.2 with
        | none => some (s, false)
        | some packetList => s.insertParsed db (parsePackets db packetList) arrived

end NetEqImpl

end WebRtcAudio.NetEq
