import WebRtcAudio.Core.Run
import WebRtcAudio.NetEq.DecisionLogic
import WebRtcAudio.NetEq.Histogram
import WebRtcAudio.NetEq.NackTracker

/-! `DelayManager`. An operation on `int`s that overflows has no result. -/
namespace WebRtcAudio.NetEq

open WebRtcAudio.Core AudioCoding

def kMinBaseMinimumDelayMs : ℤ := 0
def kMaxBaseMinimumDelayMs : ℤ := 10000
def kMaxReorderedPackets : ℕ := 10
def kMaxHistoryMs : ℤ := 2000
def kDelayBuckets : ℕ := 100
def kBucketSizeMs : ℤ := 20

structure TickTimer where
  ticks : ℕ
  /-- `ElapsedMs` of a stopwatch that was started at a tick. -/
  elapsedMs : ℕ → ℕ

structure PacketDelay where
  iatDelayMs : ℤ
  timestamp : UInt32

structure DelayManagerState extends DelayManager where
  firstPacketReceived : Bool
  maxPacketsInBuffer : ℕ
  histogram : Histogram
  histogramQuantile : ℤ
  baseMinimumDelayMs : ℤ
  effectiveMinimumDelayMs : ℤ
  packetIatStopwatch : ℕ
  lastSeqNo : UInt16
  lastTimestamp : UInt32
  minimumDelayMs : ℤ
  maximumDelayMs : ℤ
  lastPackCngOrDtmf : ℤ
  enableRtxHandling : Bool
  numReorderedPackets : ℕ
  delayHistory : List PacketDelay

namespace DelayManagerState

variable (m : DelayManagerState)

def reset (timer : TickTimer) : DelayManagerState :=
  { m with
    toDelayManager := DelayManager.reset
    histogram := m.histogram.reset
    delayHistory := []
    packetIatStopwatch := timer.ticks
    lastPackCngOrDtmf := 1 }

def create (maxPacketsInBuffer : ℕ) (baseMinimumDelayMs histogramQuantile : ℤ)
    (enableRtxHandling : Bool) (timer : TickTimer) (histogram : Histogram) : DelayManagerState :=
  reset
    { targetLevel := 4 * 2 ^ 8
      baseTargetLevel := 4
      packetLenMs := 0
      firstPacketReceived := false
      maxPacketsInBuffer := maxPacketsInBuffer
      histogram := histogram
      histogramQuantile := histogramQuantile
      baseMinimumDelayMs := baseMinimumDelayMs
      effectiveMinimumDelayMs := baseMinimumDelayMs
      packetIatStopwatch := timer.ticks
      lastSeqNo := 0
      lastTimestamp := 0
      minimumDelayMs := 0
      maximumDelayMs := 0
      lastPackCngOrDtmf := 1
      enableRtxHandling := enableRtxHandling
      numReorderedPackets := 0
      delayHistory := [] } timer

def maxBufferTimeQ75? (maxPacketsInBuffer : ℕ) (packetLenMs : ℤ) : Option ℤ := do
  let maxBufferTime := toInt32 (toSizeT (maxPacketsInBuffer * packetLenMs))
  let scaled ← int32? (3 * maxBufferTime)
  return scaled.tdiv 4

def minimumDelayUpperBound? (maxPacketsInBuffer : ℕ) (packetLenMs maximumDelayMs : ℤ) :
    Option ℤ := do
  let q75 ← maxBufferTimeQ75? maxPacketsInBuffer packetLenMs
  let q75 := if 0 < q75 then q75 else kMaxBaseMinimumDelayMs
  let maximumDelayMs := if 0 < maximumDelayMs then maximumDelayMs else kMaxBaseMinimumDelayMs
  return min maximumDelayMs q75

def upperBound? : Option ℤ :=
  minimumDelayUpperBound? m.maxPacketsInBuffer m.packetLenMs m.maximumDelayMs

def updateEffectiveMinimumDelay? : Option DelayManagerState := do
  let bound ← m.upperBound?
  let baseMinimumDelayMs := max 0 (min m.baseMinimumDelayMs bound)
  return { m with effectiveMinimumDelayMs := max m.minimumDelayMs baseMinimumDelayMs }

def setMinimumDelay? (delayMs : ℤ) : Option (DelayManagerState × Bool) := do
  let bound ← m.upperBound?
  if ¬ (0 ≤ delayMs ∧ delayMs ≤ bound) then return (m, false)
  let m ← { m with minimumDelayMs := delayMs }.updateEffectiveMinimumDelay?
  return (m, true)

def setMaximumDelay? (delayMs : ℤ) : Option (DelayManagerState × Bool) := do
  if delayMs ≠ 0 ∧ (delayMs < m.minimumDelayMs ∨ delayMs < m.packetLenMs) then return (m, false)
  let m ← { m with maximumDelayMs := delayMs }.updateEffectiveMinimumDelay?
  return (m, true)

def setBaseMinimumDelay? (delayMs : ℤ) : Option (DelayManagerState × Bool) := do
  if ¬ (kMinBaseMinimumDelayMs ≤ delayMs ∧ delayMs ≤ kMaxBaseMinimumDelayMs) then
    return (m, false)
  let m ← { m with baseMinimumDelayMs := delayMs }.updateEffectiveMinimumDelay?
  return (m, true)

def setPacketAudioLength (timer : TickTimer) (lengthMs : ℤ) : DelayManagerState × ℤ :=
  if lengthMs ≤ 0 then (m, -1)
  else
    ({ m with
      packetLenMs := lengthMs
      packetIatStopwatch := timer.ticks
      lastPackCngOrDtmf := 1 }, 0)

def resetPacketIatCount (timer : TickTimer) : DelayManagerState :=
  { m with packetIatStopwatch := timer.ticks }

def lastDecodedWasCngOrDtmf (itWas : Bool) : DelayManagerState :=
  if itWas then { m with lastPackCngOrDtmf := 1 }
  else if m.lastPackCngOrDtmf ≠ 0 then { m with lastPackCngOrDtmf := -1 }
  else m

def setLastPackCngOrDtmf (value : ℤ) : DelayManagerState := { m with lastPackCngOrDtmf := value }

def registerEmptyPacket : DelayManagerState := { m with lastSeqNo := m.lastSeqNo + 1 }

/-- The packet length from this and the previous timestamp, or the stored one if the order is
wrong. -/
def packetLength (sequenceNumber : UInt16) (timestamp : UInt32) (sampleRateHz : ℤ) : ℤ :=
  if !isNewerTimestamp timestamp m.lastTimestamp ||
      !isNewerSequenceNumber sequenceNumber m.lastSeqNo then m.packetLenMs
  else
    let packetLenSamp : ℕ :=
      (timestamp - m.lastTimestamp).toNat / (sequenceNumber - m.lastSeqNo).toNat
    min (1000 * (packetLenSamp : ℤ) / sampleRateHz) (2 ^ 31 - 1)

def reordered (sequenceNumber : UInt16) : Bool :=
  !isNewerSequenceNumber sequenceNumber (m.lastSeqNo + 1) &&
    !isNewerSequenceNumber sequenceNumber m.lastSeqNo

def iatDelay? (timer : TickTimer) (sequenceNumber : UInt16) (packetLenMs : ℤ) : Option ℤ := do
  let iatMs := toInt32 (timer.elapsedMs m.packetIatStopwatch)
  let iatMs ←
    (if isNewerSequenceNumber sequenceNumber (m.lastSeqNo + 1) then do
      let packetOffset := (sequenceNumber - m.lastSeqNo - 1).toNat
      int32? (iatMs - (← int32? (packetOffset * packetLenMs)))
    else if !isNewerSequenceNumber sequenceNumber m.lastSeqNo then do
      let packetOffset := (m.lastSeqNo + 1 - sequenceNumber).toNat
      int32? (iatMs + (← int32? (packetOffset * packetLenMs)))
    else some iatMs)
  int32? (iatMs - packetLenMs)

def updateDelayHistory? (iatDelayMs : ℤ) (timestamp : UInt32) (sampleRateHz : ℤ) :
    Option DelayManagerState := do
  let maxHistory := toUInt32 ((← int32? (kMaxHistoryMs * sampleRateHz)).tdiv 1000)
  return { m with
    delayHistory := (m.delayHistory ++ [PacketDelay.mk iatDelayMs timestamp]).dropWhile fun delay =>
      decide (maxHistory < (timestamp - delay.timestamp).toNat) }

def calculateRelativePacketArrivalDelay? : Option ℤ :=
  m.delayHistory.foldlM (fun relativeDelay delay => do
    return max (← int32? (relativeDelay + delay.iatDelayMs)) 0) 0

def calculateTargetLevel? : Option DelayManagerState := do
  let bucketIndex ← m.histogram.quantile m.histogramQuantile
  let targetLevel ←
    (if 0 < m.packetLenMs then do
      int32? (1 + (← int32? (bucketIndex * kBucketSizeMs)).tdiv m.packetLenMs)
    else some 1)
  return { m with
    baseTargetLevel := targetLevel
    targetLevel := ← int32? (max targetLevel 1 * 2 ^ 8) }

def maxBufferPacketsQ8 (maxPacketsInBuffer : ℕ) : ℤ :=
  toInt32 (toSizeT (3 * toSizeT (maxPacketsInBuffer * 2 ^ 8)) / 4)

def limitTargetLevel? : Option DelayManagerState := do
  let targetLevel ←
    (if 0 < m.packetLenMs ∧ 0 < m.effectiveMinimumDelayMs then do
      let minimumDelayPacketQ8 := (← int32? (m.effectiveMinimumDelayMs * 2 ^ 8)).tdiv m.packetLenMs
      some (max m.targetLevel minimumDelayPacketQ8)
    else some m.targetLevel)
  let targetLevel ←
    (if 0 < m.maximumDelayMs ∧ 0 < m.packetLenMs then do
      let maximumDelayPacketQ8 := (← int32? (m.maximumDelayMs * 2 ^ 8)).tdiv m.packetLenMs
      some (min targetLevel maximumDelayPacketQ8)
    else some targetLevel)
  let targetLevel := min targetLevel (maxBufferPacketsQ8 m.maxPacketsInBuffer)
  return { m with targetLevel := max targetLevel (1 * 2 ^ 8) }

def updateStatistics? (relativeDelay : ℤ) : Option DelayManagerState := do
  let index := relativeDelay.tdiv kBucketSizeMs
  let histogram ←
    (if index < m.histogram.buckets.length then m.histogram.add index else some m.histogram)
  let m ← { m with histogram := histogram }.calculateTargetLevel?
  m.limitTargetLevel?

def updateDelays? (timer : TickTimer) (sequenceNumber : UInt16) (timestamp : UInt32)
    (sampleRateHz packetLenMs : ℤ) : Option (DelayManagerState × ℤ) := do
  let iatDelay ← m.iatDelay? timer sequenceNumber packetLenMs
  let (m, relativeDelay) ←
    (if m.reordered sequenceNumber then some (m, max iatDelay 0)
    else do
      let m ← m.updateDelayHistory? iatDelay timestamp sampleRateHz
      some (m, ← m.calculateRelativePacketArrivalDelay?))
  return (← m.updateStatistics? relativeDelay, relativeDelay)

def prepareForNext (timer : TickTimer) (sequenceNumber : UInt16) (timestamp : UInt32)
    (reordered : Bool) : DelayManagerState :=
  if m.enableRtxHandling && reordered && decide (m.numReorderedPackets < kMaxReorderedPackets) then
    { m with numReorderedPackets := m.numReorderedPackets + 1 }
  else
    { m with
      numReorderedPackets := 0
      packetIatStopwatch := timer.ticks
      lastSeqNo := sequenceNumber
      lastTimestamp := timestamp }

def update? (timer : TickTimer) (sequenceNumber : UInt16) (timestamp : UInt32)
    (sampleRateHz : ℤ) : Option (DelayManagerState × Option ℤ) :=
  if sampleRateHz ≤ 0 then some (m, none)
  else if !m.firstPacketReceived then
    some ({ m with
      packetIatStopwatch := timer.ticks
      lastSeqNo := sequenceNumber
      lastTimestamp := timestamp
      firstPacketReceived := true }, none)
  else
    let packetLenMs := m.packetLength sequenceNumber timestamp sampleRateHz
    if 0 < packetLenMs then do
      let reordered := m.reordered sequenceNumber
      let (m, relativeDelay) ← m.updateDelays? timer sequenceNumber timestamp sampleRateHz
        packetLenMs
      return (m.prepareForNext timer sequenceNumber timestamp reordered, some relativeDelay)
    else some (m.prepareForNext timer sequenceNumber timestamp false, none)

end DelayManagerState

inductive DelayManagerCall where
  | setMinimumDelay (delayMs : ℤ)
  | setMaximumDelay (delayMs : ℤ)
  | setBaseMinimumDelay (delayMs : ℤ)
  | setPacketAudioLength (lengthMs : ℤ)
  | update (sequenceNumber : UInt16) (timestamp : UInt32) (sampleRateHz : ℤ)
  | reset
  | resetPacketIatCount
  | lastDecodedWasCngOrDtmf (itWas : Bool)
  | setLastPackCngOrDtmf (value : ℤ)
  | registerEmptyPacket

inductive DelayManagerResult where
  | accepted (accepted : Bool)
  | code (code : ℤ)
  | relativeDelay (delay : Option ℤ)
  | done
  deriving DecidableEq

namespace DelayManagerState

def step (m : DelayManagerState) (c : TickTimer × DelayManagerCall) :
    Option (DelayManagerState × DelayManagerResult) :=
  match c.2 with
  | .setMinimumDelay delayMs => (m.setMinimumDelay? delayMs).map (Prod.map id .accepted)
  | .setMaximumDelay delayMs => (m.setMaximumDelay? delayMs).map (Prod.map id .accepted)
  | .setBaseMinimumDelay delayMs => (m.setBaseMinimumDelay? delayMs).map (Prod.map id .accepted)
  | .setPacketAudioLength lengthMs =>
    some (Prod.map id .code (m.setPacketAudioLength c.1 lengthMs))
  | .update sequenceNumber timestamp sampleRateHz =>
    (m.update? c.1 sequenceNumber timestamp sampleRateHz).map (Prod.map id .relativeDelay)
  | .reset => some (m.reset c.1, .done)
  | .resetPacketIatCount => some (m.resetPacketIatCount c.1, .done)
  | .lastDecodedWasCngOrDtmf itWas => some (m.lastDecodedWasCngOrDtmf itWas, .done)
  | .setLastPackCngOrDtmf value => some (m.setLastPackCngOrDtmf value, .done)
  | .registerEmptyPacket => some (m.registerEmptyPacket, .done)

/-- A delay manager for 200 packets with the default quantile and forget factor, but without a start
weight. -/
def defaultManager : DelayManagerState :=
  create 200 0 1041529569 false ⟨0, fun _ => 0⟩ ⟨List.replicate kDelayBuckets 0, 0, 32745, 0, none⟩

end DelayManagerState

end WebRtcAudio.NetEq
