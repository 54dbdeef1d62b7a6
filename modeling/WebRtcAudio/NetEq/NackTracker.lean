import Mathlib.Algebra.Group.Nat.Defs

/-! `NackTracker`: skipped packets, with an estimate of the time at which each has to be played. -/
namespace WebRtcAudio.NetEq

/-- `IsNewer` for sequence numbers. The difference in the first comparison is an `int`; it tells
numbers apart that are half a lap from each other. -/
def isNewerSequenceNumber (sequenceNumber prevSequenceNumber : UInt16) : Bool :=
  if (sequenceNumber.toNat : ℤ) - prevSequenceNumber.toNat = 0x8000 then
    decide (prevSequenceNumber < sequenceNumber)
  else decide (sequenceNumber ≠ prevSequenceNumber) &&
    decide (sequenceNumber - prevSequenceNumber < 0x8000)

structure NackElement where
  /-- Time in ms until the packet has to be decoded. -/
  timeToPlayMs : ℤ
  estimatedTimestamp : UInt32
  /-- Otherwise the packet is late only. -/
  isMissing : Bool
  deriving DecidableEq

abbrev NackList := List (UInt16 × NackElement)

namespace NackList

def compare (sequenceNumberOld sequenceNumberNew : UInt16) : Bool :=
  isNewerSequenceNumber sequenceNumberNew sequenceNumberOld

def erase (l : NackList) (key : UInt16) : NackList := l.filter fun e => decide (e.1 ≠ key)

def splitLower (l : NackList) (key : UInt16) : NackList × NackList :=
  (l.takeWhile fun e => compare e.1 key, l.dropWhile fun e => compare e.1 key)

def eraseUpTo (l : NackList) (key : UInt16) : NackList := l.dropWhile fun e => !compare key e.1

def insert (l : NackList) (key : UInt16) (element : NackElement) : NackList :=
  match l.splitLower key with
  | (front, []) => front ++ [(key, element)]
  | (front, e :: back) =>
    if compare key e.1 then front ++ (key, element) :: e :: back else front ++ e :: back

end NackList

def kDefaultSampleRateKhz : UInt32 := 48

def kDefaultPacketSizeMs : UInt32 := 20

def kNackListSizeLimit : ℕ := 500

/-- The sample rate and the samples of a packet are `int`s. What is computed from them goes into
timestamps, so they are kept modulo `2 ^ 32`; a signed product that overflows is undefined. -/
structure NackTracker where
  nackThresholdPackets : ℤ
  sequenceNumLastReceivedRtp : UInt16
  timestampLastReceivedRtp : UInt32
  anyRtpReceived : Bool
  sequenceNumLastDecodedRtp : UInt16
  timestampLastDecodedRtp : UInt32
  anyRtpDecoded : Bool
  sampleRateKhz : UInt32
  samplesPerPacket : UInt32
  nackList : NackList
  maxNackListSize : ℕ

namespace NackTracker

def create (nackThresholdPackets : ℤ) : NackTracker where
  nackThresholdPackets := nackThresholdPackets
  sequenceNumLastReceivedRtp := 0
  timestampLastReceivedRtp := 0
  anyRtpReceived := false
  sequenceNumLastDecodedRtp := 0
  timestampLastDecodedRtp := 0
  anyRtpDecoded := false
  sampleRateKhz := kDefaultSampleRateKhz
  samplesPerPacket := kDefaultSampleRateKhz * kDefaultPacketSizeMs
  nackList := []
  maxNackListSize := kNackListSizeLimit

def minusThreshold (t : NackTracker) (sequenceNumber : UInt16) : UInt16 :=
  sequenceNumber - UInt16.ofInt t.nackThresholdPackets

def limitNackListSize (t : NackTracker) : NackTracker :=
  let limit := t.sequenceNumLastReceivedRtp - UInt16.ofNat t.maxNackListSize - 1
  { t with nackList := t.nackList.eraseUpTo limit }

def setMaxNackListSize (t : NackTracker) (maxNackListSize : ℕ) : Option NackTracker :=
  if 0 < maxNackListSize ∧ maxNackListSize ≤ kNackListSizeLimit then
    some { t with maxNackListSize }.limitNackListSize
  else none

def updateSamplesPerPacket (t : NackTracker) (sequenceNumber : UInt16) (timestamp : UInt32) :
    NackTracker :=
  let timestampIncrease := timestamp - t.timestampLastReceivedRtp
  let sequenceNumIncrease := sequenceNumber - t.sequenceNumLastReceivedRtp
  { t with samplesPerPacket := timestampIncrease / sequenceNumIncrease.toUInt32 }

def changeFromLateToMissing (t : NackTracker) (sequenceNumber : UInt16) : NackTracker :=
  let (late, rest) := t.nackList.splitLower (t.minusThreshold sequenceNumber)
  { t with nackList := late.map (fun e => (e.1, { e.2 with isMissing := true })) ++ rest }

def estimateTimestamp (t : NackTracker) (sequenceNum : UInt16) : UInt32 :=
  let sequenceNumDiff := sequenceNum - t.sequenceNumLastReceivedRtp
  sequenceNumDiff.toUInt32 * t.samplesPerPacket + t.timestampLastReceivedRtp

def timeToPlay (t : NackTracker) (timestamp : UInt32) : ℤ :=
  let timestampIncrease := timestamp - t.timestampLastDecodedRtp
  ((timestampIncrease / t.sampleRateKhz).toNat : ℤ)

def skippedElement (t : NackTracker) (current n : UInt16) : NackElement :=
  let timestamp := t.estimateTimestamp n
  ⟨t.timeToPlay timestamp, timestamp, isNewerSequenceNumber (t.minusThreshold current) n⟩

def addLoop (t : NackTracker) (current : UInt16) : ℕ → UInt16 → NackList → NackList
  | 0, _, l => l
  | fuel + 1, n, l =>
    if isNewerSequenceNumber current n then
      t.addLoop current fuel (n + 1) (l.insert n (t.skippedElement current n))
    else l

def addToList (t : NackTracker) (current : UInt16) : NackTracker :=
  let n := t.sequenceNumLastReceivedRtp + 1
  { t with nackList := t.addLoop current (current - n).toNat n t.nackList }

def updateList (t : NackTracker) (current : UInt16) : NackTracker :=
  let t := t.changeFromLateToMissing current
  if isNewerSequenceNumber current (t.sequenceNumLastReceivedRtp + 1) then t.addToList current
  else t

def receiveFirst (t : NackTracker) (sequenceNumber : UInt16) (timestamp : UInt32) : NackTracker :=
  let t := { t with
    sequenceNumLastReceivedRtp := sequenceNumber
    timestampLastReceivedRtp := timestamp
    anyRtpReceived := true }
  if t.anyRtpDecoded then t
  else { t with
    sequenceNumLastDecodedRtp := sequenceNumber
    timestampLastDecodedRtp := timestamp }

def updateLastReceivedPacket (t : NackTracker) (sequenceNumber : UInt16) (timestamp : UInt32) :
    NackTracker :=
  if !t.anyRtpReceived then t.receiveFirst sequenceNumber timestamp
  else if sequenceNumber = t.sequenceNumLastReceivedRtp then t
  else
    let t := { t with nackList := t.nackList.erase sequenceNumber }
    if isNewerSequenceNumber t.sequenceNumLastReceivedRtp sequenceNumber then t
    else
      let t := (t.updateSamplesPerPacket sequenceNumber timestamp).updateList sequenceNumber
      { t with
        sequenceNumLastReceivedRtp := sequenceNumber
        timestampLastReceivedRtp := timestamp }.limitNackListSize

def updateEstimatedPlayoutTimeBy10ms (t : NackTracker) : NackTracker :=
  let kept := t.nackList.dropWhile fun e => decide (e.2.timeToPlayMs ≤ 10)
  { t with nackList :=
      kept.map fun e => (e.1, { e.2 with timeToPlayMs := e.2.timeToPlayMs - 10 }) }

def decodeNew (t : NackTracker) (sequenceNumber : UInt16) (timestamp : UInt32) : NackTracker :=
  let t := { t with
    sequenceNumLastDecodedRtp := sequenceNumber
    timestampLastDecodedRtp := timestamp }
  let kept := t.nackList.eraseUpTo t.sequenceNumLastDecodedRtp
  { t with nackList :=
      kept.map fun e => (e.1, { e.2 with timeToPlayMs := t.timeToPlay e.2.estimatedTimestamp }) }

def updateLastDecodedPacket (t : NackTracker) (sequenceNumber : UInt16) (timestamp : UInt32) :
    NackTracker :=
  let t :=
    if isNewerSequenceNumber sequenceNumber t.sequenceNumLastDecodedRtp || !t.anyRtpDecoded then
      t.decodeNew sequenceNumber timestamp
    else
      let t := t.updateEstimatedPlayoutTimeBy10ms
      { t with timestampLastDecodedRtp := t.timestampLastDecodedRtp + t.sampleRateKhz * 10 }
  { t with anyRtpDecoded := true }

inductive Call where
  | received (sequenceNumber : UInt16) (timestamp : UInt32)
  | decoded (sequenceNumber : UInt16) (timestamp : UInt32)

def step (t : NackTracker) : Call → NackTracker × Unit
  | .received sequenceNumber timestamp => (t.updateLastReceivedPacket sequenceNumber timestamp, ())
  | .decoded sequenceNumber timestamp => (t.updateLastDecodedPacket sequenceNumber timestamp, ())

end NackTracker

end WebRtcAudio.NetEq
