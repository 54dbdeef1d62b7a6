import WebRtcAudio.Core.MachineInt
import WebRtcAudio.NetEq.PacketBuffer

/-! `DecisionLogic`. Products with a `size_t` are taken modulo `2 ^ 64` and converted to `int`. -/
namespace WebRtcAudio.NetEq

open WebRtcAudio.Core

inductive Mode where
  | normal
  | expand
  | merge
  | accelerateSuccess
  | accelerateLowEnergy
  | accelerateFail
  | preemptiveExpandSuccess
  | preemptiveExpandLowEnergy
  | preemptiveExpandFail
  | rfc3389Cng
  | codecInternalCng
  | codecPlc
  | dtmf
  | error
  deriving DecidableEq

inductive Operation where
  | normal
  | merge
  | expand
  | accelerate
  | fastAccelerate
  | preemptiveExpand
  | rfc3389Cng
  | rfc3389CngNoPacket
  | codecInternalCng
  | dtmf
  | undefined
  deriving DecidableEq

inductive SampleRate where
  | hz8000
  | hz16000
  | hz32000
  | hz48000

def SampleRate.hz : SampleRate → ℕ
  | .hz8000 => 8000
  | .hz16000 => 16000
  | .hz32000 => 32000
  | .hz48000 => 48000

structure DelayManager where
  targetLevel : ℤ
  baseTargetLevel : ℤ
  packetLenMs : ℤ

def DelayManager.reset : DelayManager where
  targetLevel := 4 * 2 ^ 8
  baseTargetLevel := 4
  packetLenMs := 0

def kDecelerationTargetLevelOffsetMs : ℤ := 85 * 2 ^ 8

def DelayManager.bufferLimits (m : DelayManager) : ℤ × ℤ :=
  let lowerLimit := (m.targetLevel * 3).tdiv 4
  let lowerLimit :=
    if 0 < m.packetLenMs then
      max lowerLimit (m.targetLevel - kDecelerationTargetLevelOffsetMs.tdiv m.packetLenMs)
    else lowerLimit
  let window20ms := if 0 < m.packetLenMs then (20 * 2 ^ 8 : ℤ).tdiv m.packetLenMs else 0x7FFF
  (lowerLimit, max m.targetLevel (lowerLimit + window20ms))

structure BufferLevelFilter where
  levelFactor : ℤ
  filteredCurrentLevel : ℤ

namespace BufferLevelFilter

def reset : BufferLevelFilter := ⟨253, 0⟩

def update (f : BufferLevelFilter) (bufferSizeSamples : ℕ) (timeStretchedSamples : ℤ) :
    BufferLevelFilter :=
  let filteredCurrentLevel := f.levelFactor * f.filteredCurrentLevel / 2 ^ 8 +
    (256 - f.levelFactor) * toInt32 bufferSizeSamples
  ⟨f.levelFactor, min (max 0 (filteredCurrentLevel - timeStretchedSamples * 2 ^ 8)) (2 ^ 31 - 1)⟩

def setTargetBufferLevel (f : BufferLevelFilter) (targetBufferLevel : ℤ) : BufferLevelFilter :=
  { f with levelFactor :=
      if targetBufferLevel ≤ 1 then 251
      else if targetBufferLevel ≤ 3 then 252
      else if targetBufferLevel ≤ 7 then 253
      else 254 }

def level (f : BufferLevelFilter) : ℤ := (f.filteredCurrentLevel + 2 ^ 7) / 2 ^ 8

end BufferLevelFilter

structure Countdown where
  start : ℕ
  ticksToCount : ℕ

inductive CngState where
  | off
  | rfc3389On
  | internalOn
  deriving DecidableEq

structure PacketBufferInfo where
  dtxOrCng : Bool
  numSamples : ℕ
  spanSamples : ℕ
  spanSamplesNoDtx : ℕ
  numPackets : ℕ

structure PacketInfo where
  timestamp : UInt32
  isDtx : Bool
  isCng : Bool

structure NetEqStatus where
  targetTimestamp : UInt32
  expandMutefactor : ℤ
  lastPacketSamples : ℕ
  nextPacket : Option PacketInfo
  lastMode : Mode
  playDtmf : Bool
  generatedNoiseSamples : ℕ
  packetBufferInfo : PacketBufferInfo

structure DecisionLogic where
  delayManager : DelayManager
  bufferLevelFilter : BufferLevelFilter
  /-- The ticks that `tick_timer_` has counted. -/
  tick : ℕ
  /-- `Finished` of a countdown, at a tick. -/
  finished : Countdown → ℕ → Bool
  sampleRate : SampleRate
  outputSizeSamples : ℕ
  cngState : CngState
  noiseFastForward : ℕ
  packetLengthSamples : ℕ
  sampleMemory : ℤ
  prevTimeScale : Bool
  disallowTimeStretching : Bool
  timescaleCountdown : Option Countdown
  numConsecutiveExpands : ℤ
  timeStretchedCnSamples : ℤ
  estimateDtxDelay : Bool
  timeStretchCn : Bool
  targetLevelWindowMs : ℤ

namespace DecisionLogic

def kReinitAfterExpands : ℤ := 100

def kMaxWaitForPacket : ℤ := 10

def kMinTimescaleInterval : ℕ := 5

def kPostponeDecodingLevel : ℤ := 50

def softReset (d : DecisionLogic) : DecisionLogic :=
  { d with
    packetLengthSamples := 0
    sampleMemory := 0
    prevTimeScale := false
    timescaleCountdown := some ⟨d.tick, kMinTimescaleInterval + 1⟩
    timeStretchedCnSamples := 0
    delayManager := .reset
    bufferLevelFilter := .reset }

def setSampleRate (d : DecisionLogic) (fs : SampleRate) (outputSizeSamples : ℕ) : DecisionLogic :=
  { d with sampleRate := fs, outputSizeSamples := outputSizeSamples }

def expandDecision (d : DecisionLogic) (operation : Operation) : DecisionLogic :=
  { d with numConsecutiveExpands :=
      if operation = .expand then d.numConsecutiveExpands + 1 else 0 }

def timescaleAllowed (d : DecisionLogic) : Bool :=
  d.timescaleCountdown.all fun c => d.finished c d.tick

def filterBufferLevel (d : DecisionLogic) (bufferSizeSamples : ℕ) : DecisionLogic :=
  let timeStretchedSamples :=
    if d.prevTimeScale then d.timeStretchedCnSamples + d.sampleMemory
    else d.timeStretchedCnSamples
  { d with
    bufferLevelFilter :=
      (d.bufferLevelFilter.setTargetBufferLevel d.delayManager.baseTargetLevel).update
        bufferSizeSamples timeStretchedSamples
    timescaleCountdown :=
      if d.prevTimeScale then some ⟨d.tick, kMinTimescaleInterval⟩ else d.timescaleCountdown
    prevTimeScale := false
    timeStretchedCnSamples := 0 }

def targetLevelSamples (d : DecisionLogic) : ℕ :=
  toSizeT (d.delayManager.targetLevel * d.packetLengthSamples) / 2 ^ 8

def cngOperation (d : DecisionLogic) (prevMode : Mode) (targetTimestamp availableTimestamp : UInt32)
    (generatedNoiseSamples : ℕ) : Operation × DecisionLogic :=
  let timestampDiff := toInt32
    (UInt32.ofNat (generatedNoiseSamples + targetTimestamp.toNat) - availableTimestamp).toNat
  let optimalLevelSamp := toInt32 d.targetLevelSamples
  let excessWaitingTimeSamp := -timestampDiff - optimalLevelSamp
  let forward := excessWaitingTimeSamp > optimalLevelSamp.tdiv 2
  let noiseFastForward :=
    if forward then toSizeT (d.noiseFastForward + excessWaitingTimeSamp) else d.noiseFastForward
  let timestampDiff :=
    if forward then max (-2 ^ 31) (min (timestampDiff + excessWaitingTimeSamp) (2 ^ 31 - 1))
    else timestampDiff
  if timestampDiff < 0 ∧ prevMode = .rfc3389Cng then
    (.rfc3389CngNoPacket, { d with noiseFastForward })
  else (.rfc3389Cng, { d with noiseFastForward := 0 })

def noPacket (d : DecisionLogic) (playDtmf : Bool) : Operation :=
  if d.cngState = .rfc3389On then .rfc3389CngNoPacket
  else if d.cngState = .internalOn then .codecInternalCng
  else if playDtmf then .dtmf
  else .expand

def bufferLevelPackets (d : DecisionLogic) : ℤ :=
  if 0 < d.packetLengthSamples then
    toInt32 (toSizeT (2 ^ 8 * d.bufferLevelFilter.level) / d.packetLengthSamples : ℕ)
  else 0

def expectedPacketAvailable (d : DecisionLogic) (prevMode : Mode) (playDtmf : Bool) : Operation :=
  if !d.disallowTimeStretching && decide (prevMode ≠ .expand) && !playDtmf then
    let limits := d.delayManager.bufferLimits
    if d.bufferLevelPackets ≥ limits.2 * 2 ^ 2 then .fastAccelerate
    else if d.timescaleAllowed then
      if d.bufferLevelPackets ≥ limits.2 then .accelerate
      else if d.bufferLevelPackets < limits.1 then .preemptiveExpand
      else .normal
    else .normal
  else .normal

def underTargetLevel (d : DecisionLogic) : Bool :=
  decide (d.bufferLevelPackets ≤ d.delayManager.targetLevel)

def reinitAfterExpands (d : DecisionLogic) (timestampLeap : UInt32) : Bool :=
  decide (timestampLeap ≥ UInt32.ofNat (toSizeT (d.outputSizeSamples * kReinitAfterExpands)))

def packetTooEarly (d : DecisionLogic) (timestampLeap : UInt32) : Bool :=
  decide (timestampLeap > UInt32.ofNat (toSizeT (d.outputSizeSamples * d.numConsecutiveExpands)))

def maxWaitForPacket (d : DecisionLogic) : Bool :=
  decide (d.numConsecutiveExpands ≥ kMaxWaitForPacket)

def cngSizeSamples (d : DecisionLogic) (decoderFrameLength spanSamples numPackets : ℕ) : ℕ :=
  if d.estimateDtxDelay then spanSamples else toSizeT (numPackets * decoderFrameLength)

def targetThresholdSamples (d : DecisionLogic) : ℕ :=
  toSizeT (d.targetLevelWindowMs.tdiv 2 * (d.sampleRate.hz / 1000 : ℕ))

def aboveTargetWindow (d : DecisionLogic) (curSizeSamples : ℕ) : Bool :=
  decide (curSizeSamples > toSizeT (d.targetLevelSamples + d.targetThresholdSamples))

def belowTargetWindow (d : DecisionLogic) (curSizeSamples : ℕ) : Bool :=
  decide (d.targetLevelSamples > d.targetThresholdSamples) &&
    decide (curSizeSamples < d.targetLevelSamples - d.targetThresholdSamples)

def generatedEnoughNoise (targetTimestamp availableTimestamp : UInt32)
    (generatedNoiseSamples : ℕ) : Bool :=
  decide (UInt32.ofNat (generatedNoiseSamples + targetTimestamp.toNat) ≥ availableTimestamp)

def endsComfortNoise (d : DecisionLogic) (curSizeSamples : ℕ) (enoughNoise : Bool) : Bool :=
  if d.timeStretchCn then
    enoughNoise && !d.belowTargetWindow curSizeSamples || d.aboveTargetWindow curSizeSamples
  else enoughNoise || decide (curSizeSamples > toSizeT (d.targetLevelSamples * 4))

def futurePacketAvailable (d : DecisionLogic) (decoderFrameLength : ℕ) (prevMode : Mode)
    (targetTimestamp availableTimestamp : UInt32) (playDtmf : Bool) (generatedNoiseSamples : ℕ)
    (spanSamplesInPacketBuffer numPacketsInPacketBuffer : ℕ) : Operation × DecisionLogic :=
  let timestampLeap := availableTimestamp - targetTimestamp
  if (prevMode = .expand ∨ prevMode = .codecPlc) ∧ !d.reinitAfterExpands timestampLeap ∧
      !d.maxWaitForPacket ∧ d.packetTooEarly timestampLeap ∧ d.underTargetLevel then
    if playDtmf then (.dtmf, d) else (.expand, d)
  else if prevMode = .codecPlc then (.normal, d)
  else if prevMode = .rfc3389Cng ∨ prevMode = .codecInternalCng then
    let curSizeSamples := d.cngSizeSamples decoderFrameLength spanSamplesInPacketBuffer
      numPacketsInPacketBuffer
    if d.endsComfortNoise curSizeSamples
        (generatedEnoughNoise targetTimestamp availableTimestamp generatedNoiseSamples) then
      (.normal, if d.timeStretchCn then
        { d with timeStretchedCnSamples :=
            toInt32 (toSizeT (timestampLeap.toNat - generatedNoiseSamples)) }
        else d)
    else if prevMode = .rfc3389Cng then (.rfc3389CngNoPacket, d)
    else (.codecInternalCng, d)
  else if prevMode = .expand then (.merge, d)
  else if playDtmf then (.dtmf, d)
  else (.expand, d)

def postponesDecoding (d : DecisionLogic) (status : NetEqStatus) : Bool :=
  let currentSpan :=
    if d.estimateDtxDelay then status.packetBufferInfo.spanSamples
    else status.packetBufferInfo.spanSamplesNoDtx
  (decide (status.lastMode = .expand) || decide (status.lastMode = .codecPlc)) &&
    decide (status.expandMutefactor < 16384 / 2) &&
    decide (currentSpan < toSizeT (d.delayManager.targetLevel * d.packetLengthSamples *
      kPostponeDecodingLevel) / 100 / 2 ^ 8) &&
    !status.packetBufferInfo.dtxOrCng

def updateLevel (d : DecisionLogic) (status : NetEqStatus) : DecisionLogic :=
  let cngState :=
    if status.lastMode = .rfc3389Cng then .rfc3389On
    else if status.lastMode = .codecInternalCng then .internalOn
    else d.cngState
  let curSizeSamples :=
    if d.estimateDtxDelay then status.packetBufferInfo.spanSamples
    else status.packetBufferInfo.numSamples
  let prevTimeScale := d.prevTimeScale &&
    (decide (status.lastMode = .accelerateSuccess) ||
      decide (status.lastMode = .accelerateLowEnergy) ||
      decide (status.lastMode = .preemptiveExpandSuccess) ||
      decide (status.lastMode = .preemptiveExpandLowEnergy))
  let d := { d with cngState, prevTimeScale }
  if status.lastMode ≠ .rfc3389Cng ∧ status.lastMode ≠ .codecInternalCng ∧
      !(status.nextPacket.any (·.isDtx) && !d.estimateDtxDelay) then
    d.filterBufferLevel curSizeSamples
  else d

def fiveSecondsSamples (fs : SampleRate) : UInt32 := UInt32.ofNat (5 * fs.hz)

def getDecision (d : DecisionLogic) (status : NetEqStatus) (resetDecoder : Bool) :
    Operation × Bool × DecisionLogic :=
  let d := d.updateLevel status
  match status.nextPacket with
  | none =>
    if status.lastMode = .error then (.expand, resetDecoder, d)
    else (d.noPacket status.playDtmf, resetDecoder, d)
  | some nextPacket =>
    if status.lastMode = .error then (.undefined, resetDecoder, d)
    else if nextPacket.isCng then
      let r := d.cngOperation status.lastMode status.targetTimestamp nextPacket.timestamp
        status.generatedNoiseSamples
      (r.1, resetDecoder, r.2)
    else if d.numConsecutiveExpands > kReinitAfterExpands then (.normal, true, d)
    else if d.postponesDecoding status then (.expand, resetDecoder, d)
    else if status.targetTimestamp = nextPacket.timestamp then
      (d.expectedPacketAvailable status.lastMode status.playDtmf, resetDecoder, d)
    else if !PacketBuffer.isObsoleteTimestamp nextPacket.timestamp status.targetTimestamp
        (fiveSecondsSamples d.sampleRate) then
      let r := d.futurePacketAvailable status.lastPacketSamples status.lastMode
        status.targetTimestamp nextPacket.timestamp status.playDtmf status.generatedNoiseSamples
        status.packetBufferInfo.spanSamples status.packetBufferInfo.numPackets
      (r.1, resetDecoder, r.2)
    else (.undefined, resetDecoder, d)

end DecisionLogic

end WebRtcAudio.NetEq
