import WebRtcAudio.AudioCoding.AudioCodingModule
import WebRtcAudio.Core.Run
import WebRtcAudio.NetEq.AudioMultiVector

/-! `SyncBuffer`: the output of NetEq, of which the samples from `next_index_` on are to be played.
-/
namespace WebRtcAudio.NetEq

open WebRtcAudio.Core AudioCoding

structure SyncBuffer extends AudioMultiVector where
  nextIndex : ℕ
  endTimestamp : UInt32
  /-- The first sample that is not DTMF. -/
  dtmfIndex : ℕ

structure OutputFrame where
  data : List Int16
  numChannels : ℕ
  samplesPerChannel : ℕ

namespace SyncBuffer

def new (channels length : ℕ) : SyncBuffer :=
  { AudioMultiVector.new channels length with
    nextIndex := length
    endTimestamp := 0
    dtmfIndex := 0 }

variable (s : SyncBuffer)

def futureLength : ℕ := sizeTSub s.size s.nextIndex

def setNextIndex (value : ℕ) : SyncBuffer := { s with nextIndex := min value s.size }

def setDtmfIndex (value : ℕ) : SyncBuffer := { s with dtmfIndex := min value s.size }

section
variable (held : ℕ → ℕ → Int16)

def pushBack (appendThis : AudioMultiVector) : Option SyncBuffer := do
  let samplesAdded := appendThis.size
  let v ← s.toAudioMultiVector.pushBack held appendThis
  return { s with
    toAudioMultiVector := v.popFront samplesAdded
    nextIndex := if samplesAdded ≤ s.nextIndex then s.nextIndex - samplesAdded else 0
    dtmfIndex := s.dtmfIndex - min s.dtmfIndex samplesAdded }

def pushBackInterleaved (appendThis : List Int16) : Option SyncBuffer := do
  let sizeBeforeAdding := s.size
  let v ← s.toAudioMultiVector.pushBackInterleaved held appendThis
  let samplesAddedPerChannel := sizeTSub v.size sizeBeforeAdding
  if samplesAddedPerChannel * v.numChannels ≠ appendThis.length then none
  else
    return { s with
      toAudioMultiVector := v.popFront samplesAddedPerChannel
      nextIndex := s.nextIndex - min s.nextIndex samplesAddedPerChannel
      dtmfIndex := s.dtmfIndex - min s.dtmfIndex samplesAddedPerChannel }

def insertZerosAtIndex (length position : ℕ) : Option SyncBuffer := do
  let position := min position s.size
  let length := min length (s.size - position)
  let v ← (s.popBack length).forChannels fun i c => c.insertZerosAt (held i) length position
  let s := { s with toAudioMultiVector := v }
  let s := if position ≤ s.nextIndex then s.setNextIndex (s.nextIndex + length) else s
  return if 0 < s.dtmfIndex ∧ position ≤ s.dtmfIndex then s.setDtmfIndex (s.dtmfIndex + length)
    else s

def pushFrontZeros (length : ℕ) : Option SyncBuffer := s.insertZerosAtIndex held length 0

def replaceAtIndex (insertThis : AudioMultiVector) (length position : ℕ) : Option SyncBuffer := do
  let position := min position s.size
  let length := min length (s.size - position)
  let v ← s.overwriteAt held insertThis length position
  return { s with toAudioMultiVector := v }

def replaceAllAtIndex (insertThis : AudioMultiVector) (position : ℕ) : Option SyncBuffer :=
  s.replaceAtIndex held insertThis insertThis.size position

def flush : Option SyncBuffer := do
  let v ← s.zeros held s.size
  return { toAudioMultiVector := v, nextIndex := v.size, endTimestamp := 0, dtmfIndex := 0 }

end

def getNextAudioInterleaved (requestedLen : ℕ) : Option (SyncBuffer × OutputFrame) := do
  let samplesToRead := min s.futureLength requestedLen
  let data ← s.readInterleavedFromIndex s.nextIndex samplesToRead kMaxDataSizeSamples
  let samplesReadPerChannel := data.length / s.numChannels
  return ({ s with nextIndex := s.nextIndex + samplesReadPerChannel },
    ⟨data, s.numChannels, samplesReadPerChannel⟩)

/-- The calls, with what the memory of new arrays happens to hold. Another vector is an object of
its own. -/
inductive Call where
  | pushBack (appendThis : AudioMultiVector)
  | pushBackInterleaved (appendThis : List Int16)
  | insertZerosAtIndex (length position : ℕ)
  | pushFrontZeros (length : ℕ)
  | replaceAtIndex (insertThis : AudioMultiVector) (length position : ℕ)
  | replaceAllAtIndex (insertThis : AudioMultiVector) (position : ℕ)
  | getNextAudioInterleaved (requestedLen : ℕ)
  | setNextIndex (value : ℕ)
  | setDtmfIndex (value : ℕ)
  | increaseEndTimestamp (increment : UInt32)
  | setEndTimestamp (value : UInt32)
  | flush

def noFrame (next : Option SyncBuffer) : Option (SyncBuffer × Option OutputFrame) :=
  next.map fun s => (s, none)

def step (s : SyncBuffer) (request : (ℕ → ℕ → Int16) × Call) :
    Option (SyncBuffer × Option OutputFrame) :=
  match request with
  | (held, .pushBack appendThis) => noFrame (s.pushBack held appendThis)
  | (held, .pushBackInterleaved appendThis) => noFrame (s.pushBackInterleaved held appendThis)
  | (held, .insertZerosAtIndex length position) =>
    noFrame (s.insertZerosAtIndex held length position)
  | (held, .pushFrontZeros length) => noFrame (s.pushFrontZeros held length)
  | (held, .replaceAtIndex insertThis length position) =>
    noFrame (s.replaceAtIndex held insertThis length position)
  | (held, .replaceAllAtIndex insertThis position) =>
    noFrame (s.replaceAllAtIndex held insertThis position)
  | (_, .getNextAudioInterleaved requestedLen) =>
    (s.getNextAudioInterleaved requestedLen).map (Prod.map id some)
  | (_, .setNextIndex value) => some (s.setNextIndex value, none)
  | (_, .setDtmfIndex value) => some (s.setDtmfIndex value, none)
  | (_, .increaseEndTimestamp increment) =>
    some ({ s with endTimestamp := s.endTimestamp + increment }, none)
  | (_, .setEndTimestamp value) => some ({ s with endTimestamp := value }, none)
  | (held, .flush) => noFrame (s.flush held)

end SyncBuffer

end WebRtcAudio.NetEq
