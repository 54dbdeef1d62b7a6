import WebRtcAudio.NetEq.NetEqImpl

/-! `NetEqImpl::GetAudio` without an overridden action. -/
namespace WebRtcAudio.NetEq

open WebRtcAudio.Core

namespace PacketBuffer

def numSamples : List Packet → ℕ → ℕ
  | [], _ => 0
  | packet :: packets, lastDuration =>
    match packet.frame with
    | some frame =>
      if packet.priority ≠ ⟨0, 0⟩ then numSamples packets lastDuration
      else
        let lastDuration := if 0 < frame.duration then frame.duration else lastDuration
        lastDuration + numSamples packets lastDuration
    | none => lastDuration + numSamples packets lastDuration

def numSamplesInBuffer (b : PacketBuffer) (lastDecodedLength : ℕ) : ℕ :=
  toSizeT (numSamples b.buffer lastDecodedLength)

/-- `elapsedMs` is what a stopwatch started at a tick shows. -/
def getSpanSamples (b : PacketBuffer) (elapsedMs : ℕ → ℕ) (lastDecodedLength sampleRate : ℕ)
    (countDtxWaitingTime : Bool) : ℕ :=
  match b.buffer.head?, b.buffer.getLast? with
  | some front, some back =>
    let span := (back.timestamp - front.timestamp).toNat
    match back.frame with
    | some frame =>
      if 0 < frame.duration then
        let duration :=
          if countDtxWaitingTime && frame.isDtxPacket then
            max frame.duration (back.waitingTime.elim 0 elapsedMs * (sampleRate / 1000))
          else frame.duration
        span + duration
      else span + lastDecodedLength
    | none => span + lastDecodedLength
  | _, _ => 0

def containsDtxOrCngPacket (b : PacketBuffer) (db : DecoderDatabase) : Bool :=
  b.buffer.any fun packet =>
    packet.frame.any (·.isDtxPacket) || db.isComfortNoise packet.payloadType

def discardAllOldPackets (b : PacketBuffer) (timestampLimit : UInt32)
    (stats : StatisticsCalculator) : PacketBuffer × StatisticsCalculator :=
  b.discardOldPackets timestampLimit 0 stats

end PacketBuffer

inductive SpeechType where
  | speech
  | comfortNoise
  deriving DecidableEq

structure DecodeResult where
  numDecodedSamples : ℕ
  speechType : SpeechType

inductive StretchReturnCode where
  | success
  | successLowEnergy
  | noStretch
  | error

inductive ComfortNoiseReturnCode where
  | ok
  | unknownPayloadType
  | internalError
  | multiChannelNotSupported
  deriving DecidableEq

structure Answers where
  /-- `ElapsedMs` of a stopwatch that was started at a tick. -/
  elapsedMs : ℕ → ℕ
  /-- `expand_->Muted()` and `expand_->MuteFactor(0)`. -/
  muted : Bool
  muteFactor : ℤ
  /-- `sync_buffer_->FutureLength() - expand_->overlap_length()`. -/
  samplesLeft : ℕ
  /-- The timestamp of the event from `dtmf_buffer_->GetEvent`. -/
  dtmfEvent : Option UInt32
  /-- The frame of a packet is decoded. -/
  decode : Packet → Option DecodeResult
  /-- The active decoder makes comfort noise. -/
  decodeCng : Option DecodeResult
  /-- `GeneratePlc` of the active decoder has produced audio. -/
  generatePlc : Bool
  accelerate : StretchReturnCode
  preemptiveExpand : StretchReturnCode
  /-- `ComfortNoise::Generate`. -/
  generate : ComfortNoiseReturnCode
  /-- The tone generator reports no error. -/
  dtmfTone : Bool
  /-- The frame got all samples of the output. -/
  fullOutput : Bool

namespace NetEqImpl

def generatedNoiseSamples (s : NetEqImpl) (ticksBack : ℕ) : ℕ :=
  match s.generatedNoiseStopwatch with
  | some start =>
    toSizeT (((s.tick : ℤ) - start - ticksBack) * s.outputSizeSamples +
      s.controller.noiseFastForward)
  | none => 0

def discardsComfortNoise (db : DecoderDatabase) (endTimestamp : UInt32) (generatedNoise : ℕ)
    (packet : Packet) : Bool :=
  db.isComfortNoise packet.payloadType &&
    (decide (endTimestamp ≥ packet.timestamp) ||
      decide (toSizeT (endTimestamp.toNat + generatedNoise : ℕ) > packet.timestamp.toNat))

def purge (newCodec : Bool) (fs : SampleRate) (endTimestamp : UInt32)
    (r : PacketBuffer × StatisticsCalculator) : PacketBuffer × StatisticsCalculator :=
  if !newCodec then
    r.1.discardOldPackets endTimestamp (DecisionLogic.fiveSecondsSamples fs) r.2
  else r

def discardLoop (db : DecoderDatabase) (newCodec : Bool) (fs : SampleRate) (endTimestamp : UInt32)
    (generatedNoise : ℕ) :
    ℕ → PacketBuffer × StatisticsCalculator → PacketBuffer × StatisticsCalculator
  | 0, r => r
  | fuel + 1, r =>
    match r.1.peekNextPacket with
    | none => r
    | some packet =>
      if discardsComfortNoise db endTimestamp generatedNoise packet then
        let discarded := r.1.discardNextPacket r.2
        discardLoop db newCodec fs endTimestamp generatedNoise fuel
          (purge newCodec fs endTimestamp (discarded.1, discarded.2.1))
      else r

def discardPackets (s : NetEqImpl) (db : DecoderDatabase) : PacketBuffer × StatisticsCalculator :=
  let r := purge s.newCodec s.fs s.endTimestamp (s.packetBuffer, s.stats)
  if s.controller.cngState = .rfc3389On ∨ s.lastMode = .rfc3389Cng then
    discardLoop db s.newCodec s.fs s.endTimestamp (s.generatedNoiseSamples 1) r.1.buffer.length r
  else r

def status (s : NetEqImpl) (db : DecoderDatabase) (a : Answers) : NetEqStatus where
  targetTimestamp := s.endTimestamp
  expandMutefactor := a.muteFactor
  lastPacketSamples := s.decoderFrameLength
  nextPacket := s.packetBuffer.peekNextPacket.map fun packet =>
    ⟨packet.timestamp, packet.frame.any (·.isDtxPacket), db.isComfortNoise packet.payloadType⟩
  lastMode := s.lastMode
  playDtmf := a.dtmfEvent.isSome
  generatedNoiseSamples := s.generatedNoiseSamples 0
  packetBufferInfo :=
    { dtxOrCng := s.packetBuffer.containsDtxOrCngPacket db
      numSamples := s.packetBuffer.numSamplesInBuffer s.decoderFrameLength
      spanSamples := s.packetBuffer.getSpanSamples a.elapsedMs s.decoderFrameLength
        s.lastOutputSampleRate.hz true
      spanSamplesNoDtx := s.packetBuffer.getSpanSamples a.elapsedMs s.decoderFrameLength
        s.lastOutputSampleRate.hz false
      numPackets := s.packetBuffer.buffer.length }

def prepare (s : NetEqImpl) (db : DecoderDatabase) (a : Answers) : NetEqImpl :=
  let r := s.discardPackets db
  let s := { s with packetBuffer := r.1, stats := r.2 }
  if s.lastMode = .accelerateSuccess ∨ s.lastMode = .accelerateLowEnergy ∨
      s.lastMode = .preemptiveExpandSuccess ∨ s.lastMode = .preemptiveExpandLowEnergy then
    { s with controller :=
      { s.controller with sampleMemory :=
          s.controller.sampleMemory - (a.samplesLeft + s.outputSizeSamples : ℕ) } }
  else s

def controllerDecision (s : NetEqImpl) (db : DecoderDatabase) (a : Answers) : Operation :=
  let s := s.prepare db a
  (s.controller.getDecision (s.status db a) s.resetDecoder).1

def consult (s : NetEqImpl) (db : DecoderDatabase) (a : Answers) : NetEqImpl :=
  let s := s.prepare db a
  let r := (s.controller.getDecision (s.status db a) s.resetDecoder).2
  { s with resetDecoder := r.1, controller := r.2 }

def stretches (operation : Operation) : Bool :=
  decide (operation = .merge) || decide (operation = .accelerate) ||
    decide (operation = .fastAccelerate) || decide (operation = .preemptiveExpand)

def disallowForDtx (packet : Option Packet) (operation : Operation) : Operation :=
  if packet.any (fun p => p.frame.any (·.isDtxPacket)) && stretches operation then .normal
  else operation

/-- The reset for a new codec, with the timestamp to start from. It fails if a packet is
missing. -/
def resetCodec (s : NetEqImpl) (db : DecoderDatabase) (operation : Operation)
    (dtmfEvent : Option UInt32) : Option (NetEqImpl × Operation) :=
  let start : Option (UInt32 × Operation) :=
    match s.packetBuffer.peekNextPacket, dtmfEvent with
    | none, some timestamp => some (timestamp, operation)
    | none, none => none
    | some packet, _ =>
      if operation = .rfc3389CngNoPacket ∧ db.isComfortNoise packet.payloadType then
        some (packet.timestamp, .rfc3389Cng)
      else if operation ≠ .rfc3389Cng then some (packet.timestamp, .normal)
      else some (packet.timestamp, operation)
  start.map fun r =>
    ({ s with
        timestamp := r.1
        endTimestamp := s.endTimestamp + (r.1 - s.endTimestamp)
        newCodec := false
        controller := s.controller.softReset }, r.2)

def checkReset (s : NetEqImpl) (db : DecoderDatabase) (operation : Operation)
    (dtmfEvent : Option UInt32) : Option (NetEqImpl × Operation) :=
  if s.newCodec ∨ operation = .undefined then s.resetCodec db operation dtmfEvent
  else some (s, operation)

def rememberSamples (s : NetEqImpl) (samples : ℤ) : NetEqImpl :=
  { s with controller := { s.controller with sampleMemory := samples, prevTimeScale := true } }

def requiredSamples (s : NetEqImpl) (operation : Operation) (samplesLeft : ℕ) :
    NetEqImpl × Operation × Option ℕ :=
  let samples10Ms := 80 * (s.fs.hz / 8000)
  let samples20Ms := 2 * samples10Ms
  let samples30Ms := 3 * samples10Ms
  match operation with
  | .expand => ({ s with timestamp := s.endTimestamp }, operation, none)
  | .rfc3389CngNoPacket | .codecInternalCng => (s, operation, none)
  | .dtmf =>
    let generated := s.generatedNoiseSamples 0
    let jump := if 0 < generated ∧ s.lastMode ≠ .dtmf then UInt32.ofNat generated else 0
    ({ s with timestamp := s.endTimestamp + jump, endTimestamp := s.endTimestamp + jump },
      operation, none)
  | .accelerate | .fastAccelerate =>
    if samplesLeft ≥ samples30Ms then (s.rememberSamples samplesLeft, operation, none)
    else if samplesLeft ≥ samples10Ms ∧ s.decoderFrameLength ≥ samples30Ms then (s, .normal, none)
    else if samplesLeft < samples20Ms ∧ s.decoderFrameLength < samples30Ms then
      (s, .normal, some (2 * s.outputSizeSamples))
    else (s, operation, some s.outputSizeSamples)
  | .preemptiveExpand =>
    if samplesLeft ≥ samples30Ms ∨
        samplesLeft ≥ samples10Ms ∧ s.decoderFrameLength ≥ samples30Ms then
      (s.rememberSamples samplesLeft, operation, none)
    else if samplesLeft < samples20Ms ∧ s.decoderFrameLength < samples30Ms then
      (s, operation, some (2 * s.outputSizeSamples))
    else (s, operation, some s.outputSizeSamples)
  | .merge => (s, operation, some (max (s.fs.hz / 100 * s.channels) s.outputSizeSamples))
  | .normal | .rfc3389Cng | .undefined => (s, operation, some s.outputSizeSamples)

def packetDuration (decoderFrameLength : ℕ) (packet : Packet) : ℕ :=
  let duration := packet.frame.elim 0 (·.duration)
  if duration = 0 then decoderFrameLength else duration

def extractLoop (db : DecoderDatabase) (decoderFrameLength requiredSamples : ℕ)
    (firstTimestamp : UInt32) (prevPayloadType : UInt8) (packet : Packet) :
    List Packet → List Packet × List Packet × ℕ
  | [] =>
    ([packet], [], (packet.timestamp - firstTimestamp).toNat +
      packetDuration decoderFrameLength packet)
  | nextPacket :: buffer =>
    let duration := packetDuration decoderFrameLength packet
    let extractedSamples := (packet.timestamp - firstTimestamp).toNat + duration
    let seqNoDiff := nextPacket.sequenceNumber - packet.sequenceNumber
    if prevPayloadType = nextPacket.payloadType ∧ !db.isComfortNoise packet.payloadType ∧
        (seqNoDiff = 1 ∨ seqNoDiff = 0) ∧
        (nextPacket.timestamp - packet.timestamp).toNat ≤ duration ∧
        extractedSamples < requiredSamples then
      let r := extractLoop db decoderFrameLength requiredSamples firstTimestamp prevPayloadType
        nextPacket buffer
      (packet :: r.1, r.2)
    else ([packet], nextPacket :: buffer, extractedSamples)

def extractPackets (s : NetEqImpl) (db : DecoderDatabase) (requiredSamples : ℕ) :
    NetEqImpl × List Packet × ℤ :=
  match s.packetBuffer.buffer with
  | [] => (s, [], -1)
  | packet :: buffer =>
    let r := extractLoop db s.decoderFrameLength requiredSamples packet.timestamp
      packet.payloadType packet buffer
    let timestamp := (r.1.getLastD packet).timestamp
    let packetBuffer := { s.packetBuffer with buffer := r.2.1 }
    let kept :=
      if 0 < r.2.2 then packetBuffer.discardAllOldPackets timestamp s.stats
      else (packetBuffer, s.stats)
    ({ s with packetBuffer := kept.1, stats := kept.2, timestamp := timestamp }, r.1,
      toInt32 r.2.2)

def takePackets (s : NetEqImpl) (db : DecoderDatabase) (operation : Operation)
    (requiredSamples : ℕ) : NetEqImpl × List Packet × ℤ :=
  match s.packetBuffer.peekNextPacket with
  | none => (s, [], 0)
  | some packet =>
    let s := { s with
      endTimestamp := s.endTimestamp + (packet.timestamp - s.endTimestamp)
      controller :=
        if operation = Operation.rfc3389Cng then s.controller
        else { s.controller with cngState := .off } }
    s.extractPackets db requiredSamples

def decided (s : NetEqImpl) (operation : Operation) (samplesLeft : ℕ) (extractedSamples : ℤ) :
    NetEqImpl × Operation :=
  let accelerates := operation = .accelerate ∨ operation = .fastAccelerate
  let s :=
    if accelerates ∨ operation = .preemptiveExpand then
      s.rememberSamples (samplesLeft + extractedSamples)
    else s
  (s, if accelerates ∧ extractedSamples + samplesLeft < (3 * (80 * (s.fs.hz / 8000)) : ℕ) then
    .normal else operation)

structure Decision where
  state : NetEqImpl
  operation : Operation
  packetList : List Packet

/-- The part of `GetDecision` that follows the reset. The inner result is `none` if the call
fails. -/
def collect (s : NetEqImpl) (db : DecoderDatabase) (operation : Operation) (samplesLeft : ℕ) :
    NetEqImpl × Option Decision :=
  let required := s.requiredSamples operation samplesLeft
  match required.2.2 with
  | none => (required.1, some ⟨required.1, required.2.1, []⟩)
  | some requiredSamples =>
    let endTimestamp := required.1.endTimestamp
    let taken := required.1.takePackets db required.2.1 requiredSamples
    if taken.2.2 < 0 then (taken.1, none)
    else
      let r := taken.1.decided required.2.1 samplesLeft taken.2.2
      let s := { r.1 with timestamp := endTimestamp }
      (s, some ⟨s, r.2, taken.2.1⟩)

def getDecision (s : NetEqImpl) (db : DecoderDatabase) (a : Answers) :
    NetEqImpl × Option Decision :=
  let operation := s.controllerDecision db a
  let s := s.consult db a
  let operation := disallowForDtx s.packetBuffer.peekNextPacket operation
  if a.samplesLeft ≥ s.outputSizeSamples ∧ !stretches operation then (s, some ⟨s, .normal, []⟩)
  else
    let s := { s with controller := s.controller.expandDecision operation }
    match s.checkReset db operation a.dtmfEvent with
    | none => (s, none)
    | some (s, operation) => s.collect db operation a.samplesLeft

structure DecodeState where
  decodedLength : ℤ
  speechType : SpeechType
  decoderFrameLength : ℕ
  packetList : List Packet
  ok : Bool

def decodeLoop (db : DecoderDatabase) (a : Answers) (channels decodedBufferLength : ℕ) :
    List Packet → DecodeState → DecodeState
  | [], d => { d with packetList := [] }
  | packet :: packetList, d =>
    if db.isComfortNoise packet.payloadType then { d with packetList := packet :: packetList }
    else
      match a.decode packet with
      | none => { d with decodedLength := -1, packetList := [] }
      | some result =>
        let d := { d with speechType := result.speechType }
        let d :=
          if 0 < result.numDecodedSamples then
            { d with
              decodedLength := d.decodedLength + result.numDecodedSamples
              decoderFrameLength := result.numDecodedSamples / channels }
          else d
        if (decodedBufferLength : ℤ) < d.decodedLength then { d with packetList := [], ok := false }
        else decodeLoop db a channels decodedBufferLength packetList d

def decodeCng (a : Answers) (decoder : Option DecoderInfo) (decodedBufferLength : ℕ)
    (d : DecodeState) : DecodeState :=
  if decoder.isNone then { d with decodedLength := -1 }
  else
    match a.decodeCng with
    | none => { d with decodedLength := -1 }
    | some result =>
      { d with
        decodedLength := result.numDecodedSamples
        speechType := result.speechType
        ok := decide (result.numDecodedSamples ≤ decodedBufferLength) }

structure Decoded where
  state : NetEqImpl
  operation : Operation
  packetList : List Packet
  length : ℕ
  speechType : SpeechType
  /-- The samples in `sync_buffer_` that are still to be played. -/
  samplesLeft : ℕ
  ok : Bool

def getActiveDecoder (s : NetEqImpl) (db : DecoderDatabase) : Option DecoderInfo :=
  s.activeDecoderType.bind db.getDecoder

/-- `SetActiveDecoder` and what follows if the decoder has changed. The audio buffers may be new,
with nothing left to play. -/
def activate (s : NetEqImpl) (payloadType : UInt8) (decoder : DecoderInfo) (samplesLeft : ℕ) :
    Option (NetEqImpl × ℕ) :=
  if s.activeDecoderType = some payloadType then some (s, samplesLeft)
  else
    let s := { s with activeDecoderType := some payloadType }
    let r :=
      if decoder.sampleRateHz ≠ s.fs.hz ∨ decoder.channels ≠ s.channels then
        (s.setSampleRateAndChannels decoder.sampleRateHz decoder.channels).map (·, 0)
      else some (s, samplesLeft)
    r.map fun r => ({ r.1 with endTimestamp := r.1.timestamp }, r.2)

def decodeEnd (s : NetEqImpl) (operation : Operation) (d : DecodeState) (samplesLeft : ℕ) :
    Decoded :=
  let s := { s with decoderFrameLength := d.decoderFrameLength }
  let failed := d.decodedLength < 0
  let length := d.decodedLength.toNat
  let failedTimestamp :=
    if failed then s.endTimestamp + UInt32.ofNat s.decoderFrameLength else s.endTimestamp
  let endTimestamp :=
    if d.speechType ≠ .comfortNoise then failedTimestamp + UInt32.ofNat (length / s.channels)
    else failedTimestamp
  { state := { s with endTimestamp := endTimestamp }
    operation := if failed then .expand else operation
    packetList := d.packetList
    length := length
    speechType := d.speechType
    samplesLeft := samplesLeft
    ok := !decide failed && d.ok }

def decodeWith (s : NetEqImpl) (db : DecoderDatabase) (a : Answers) (operation : Operation)
    (packetList : List Packet) (decoder : Option DecoderInfo) (samplesLeft : ℕ) : Decoded :=
  let s := { s with resetDecoder := false }
  let d : DecodeState := ⟨0, .speech, s.decoderFrameLength, packetList, true⟩
  let d :=
    if operation = .codecInternalCng then decodeCng a decoder s.decodedBufferLength d
    else decodeLoop db a (decoder.elim 0 (·.channels)) s.decodedBufferLength packetList d
  s.decodeEnd operation d samplesLeft

def decode (db : DecoderDatabase) (a : Answers) (d : Decision) : Option Decoded :=
  let s := d.state
  let continueWithActive :=
    some (s.decodeWith db a d.operation d.packetList (s.getActiveDecoder db) a.samplesLeft)
  match d.packetList.head? with
  | none => continueWithActive
  | some packet =>
    if db.isComfortNoise packet.payloadType then continueWithActive
    else
      match db.getDecoder packet.payloadType with
      | none => some ⟨s, d.operation, [], 0, .speech, a.samplesLeft, false⟩
      | some decoder =>
        (s.activate packet.payloadType decoder a.samplesLeft).map fun r =>
          r.1.decodeWith db a d.operation d.packetList (some decoder) r.2

/-- The return value of an operation: error codes are positive, and the call goes on with them; it
ends with a negative value. -/
inductive ReturnValue where
  | zero
  | positive
  | negative
  deriving DecidableEq

def modeUnlessCng (speechType : SpeechType) (mode : Mode) : Mode :=
  if speechType = .comfortNoise then .codecInternalCng else mode

def startStopwatch (s : NetEqImpl) : NetEqImpl :=
  { s with generatedNoiseStopwatch := some (s.generatedNoiseStopwatch.getD s.tick) }

def doNormal (s : NetEqImpl) (length : ℕ) (speechType : SpeechType) : NetEqImpl :=
  let s := if length ≠ 0 then { s with lastMode := .normal } else s
  if speechType = .comfortNoise ∨ s.lastMode = .codecInternalCng ∧ length = 0 then
    { s with lastMode := .codecInternalCng }
  else s

def doMerge (s : NetEqImpl) (speechType : SpeechType) : NetEqImpl :=
  { s with lastMode := modeUnlessCng speechType .merge }

def doCodecPlc (s : NetEqImpl) (db : DecoderDatabase) (a : Answers) : Option NetEqImpl :=
  if (s.getActiveDecoder db).isSome && a.generatePlc then
    some { s with lastMode := .codecPlc }.startStopwatch
  else none

def doExpand (s : NetEqImpl) (samplesLeft : ℕ) : NetEqImpl :=
  let s := if samplesLeft < s.outputSizeSamples then { s with lastMode := .expand } else s
  s.startStopwatch

def doStretch (s : NetEqImpl) (returnCode : StretchReturnCode) (success lowEnergy fail : Mode)
    (speechType : SpeechType) : NetEqImpl × ReturnValue :=
  match returnCode with
  | .success => ({ s with lastMode := modeUnlessCng speechType success }, .zero)
  | .successLowEnergy => ({ s with lastMode := modeUnlessCng speechType lowEnergy }, .zero)
  | .noStretch => ({ s with lastMode := modeUnlessCng speechType fail }, .zero)
  | .error => ({ s with lastMode := fail }, .positive)

/-- `DoRfc3389Cng`. The parameters are only refused for an unknown payload type, which is
ignored. -/
def doRfc3389Cng (s : NetEqImpl) (db : DecoderDatabase) (a : Answers) (packetList : List Packet) :
    NetEqImpl × ReturnValue :=
  if packetList.head?.any fun packet => !db.isComfortNoise packet.payloadType then (s, .positive)
  else
    ({ s with lastMode := .rfc3389Cng },
      if a.generate = .internalError ∨ a.generate = .unknownPayloadType then .positive else .zero)

def doDtmf (s : NetEqImpl) (a : Answers) : NetEqImpl × ReturnValue :=
  if a.dtmfTone then
    ({ s with
        endTimestamp := s.endTimestamp + UInt32.ofNat s.outputSizeSamples
        lastMode := .dtmf }, .zero)
  else (s, .negative)

def perform (d : Decoded) (db : DecoderDatabase) (a : Answers) : NetEqImpl × ReturnValue :=
  let s := d.state
  match d.operation with
  | .normal => (s.doNormal d.length d.speechType, .zero)
  | .merge => (s.doMerge d.speechType, .zero)
  | .expand =>
    if s.currentRtpPayloadType.isSome then
      ((s.doCodecPlc db a).getD (s.doExpand d.samplesLeft), .zero)
    else (s.doExpand d.samplesLeft, .zero)
  | .accelerate | .fastAccelerate =>
    s.doStretch a.accelerate .accelerateSuccess .accelerateLowEnergy .accelerateFail d.speechType
  | .preemptiveExpand =>
    s.doStretch a.preemptiveExpand .preemptiveExpandSuccess .preemptiveExpandLowEnergy
      .preemptiveExpandFail d.speechType
  | .rfc3389Cng | .rfc3389CngNoPacket => s.doRfc3389Cng db a d.packetList
  | .codecInternalCng => ({ s with lastMode := .codecInternalCng }, .zero)
  | .dtmf => s.doDtmf a
  | .undefined => ({ s with lastMode := .error }, .negative)

def playOut (d : Decoded) (db : DecoderDatabase) (a : Answers) (startNumPackets : ℕ) :
    NetEqImpl × Bool :=
  let sidFrameAvailable := d.operation = .rfc3389Cng ∧ !d.packetList.isEmpty
  let codecInternalSidFrame :=
    d.speechType = .comfortNoise ∧ startNumPackets > d.packetList.length
  let d :=
    if sidFrameAvailable ∨ codecInternalSidFrame then
      { d with state := { d.state with generatedNoiseStopwatch := some d.state.tick } }
    else d
  let r := perform d db a
  if r.2 = .negative ∨ !a.fullOutput then (r.1, false)
  else
    -- A tone that is not the operation itself is added to the output.
    let playDtmf := a.dtmfEvent.isSome && decide (d.operation ≠ .dtmf)
    let generating := r.1.lastMode = .rfc3389Cng ∨ r.1.lastMode = .codecInternalCng ∨
      r.1.lastMode = .expand ∨ r.1.lastMode = .codecPlc
    ({ r.1 with
        generatedNoiseStopwatch := if generating then r.1.generatedNoiseStopwatch else none },
      d.ok && if playDtmf then a.dtmfTone else decide (r.2 = .zero))

def getAudioUnmuted (s : NetEqImpl) (db : DecoderDatabase) (a : Answers) :
    Option (NetEqImpl × Bool) :=
  match s.getDecision db a with
  | (s, none) => some ({ s with lastMode := .error }, false)
  | (_, some d) => (decode db a d).map fun decoded => playOut decoded db a d.packetList.length

/-- `GetAudio`: the new state and whether it returns `kOK`. The result is undefined where an
assertion fails. -/
def getAudio (s : NetEqImpl) (db : DecoderDatabase) (a : Answers) : Option (NetEqImpl × Bool) :=
  let s := { s with controller := { s.controller with tick := s.controller.tick + 1 } }
  let r :=
    if s.enableMutedState && a.muted && s.packetBuffer.buffer.isEmpty then some (s, true)
    else s.getAudioUnmuted db a
  r.map fun r => if r.2 then ({ r.1 with lastOutputSampleRate := r.1.fs }, true) else r

end NetEqImpl

end WebRtcAudio.NetEq
