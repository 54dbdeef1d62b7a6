import WebRtcAudio.Core.Run
import WebRtcAudio.Core.MachineInt
import WebRtcAudio.Core.CircularList

/-! The ring buffer of `common_audio`, counting elements. `none` is signed overflow. -/
namespace WebRtcAudio.CommonAudio

inductive Wrap
  | sameWrap
  | diffWrap
  deriving DecidableEq

structure RingBuffer (α : Type*) where
  readPos : ℕ
  writePos : ℕ
  elementCount : ℕ
  rwWrap : Wrap
  data : List α

namespace RingBuffer
variable {α : Type*}

def initBuffer [Zero α] (b : RingBuffer α) : RingBuffer α :=
  { b with
    readPos := 0, writePos := 0, rwWrap := .sameWrap, data := List.replicate b.elementCount 0 }

def createBuffer (α : Type*) [Zero α] (elementCount : ℕ) : Option (RingBuffer α) :=
  if elementCount = 0 then none else some (initBuffer ⟨0, 0, elementCount, .sameWrap, []⟩)

def availableRead (b : RingBuffer α) : ℕ :=
  match b.rwWrap with
  | .sameWrap => b.writePos - b.readPos
  | .diffWrap => b.elementCount - b.readPos + b.writePos

def availableWrite (b : RingBuffer α) : ℕ := b.elementCount - b.availableRead

def getBufferReadRegions (b : RingBuffer α) (elementCount : ℕ) : ℕ × List α × List α :=
  let readableElements := b.availableRead
  let readElements := if readableElements < elementCount then readableElements else elementCount
  let margin := b.elementCount - b.readPos
  if margin < readElements then
    (readElements, (b.data.drop b.readPos).take margin, b.data.take (readElements - margin))
  else (readElements, (b.data.drop b.readPos).take readElements, [])

def clampMove (b : RingBuffer α) (elementCount : ℤ) : ℤ :=
  let freeElements := Core.toInt32 b.availableWrite
  let readableElements := Core.toInt32 b.availableRead
  let elementCount := if readableElements < elementCount then readableElements else elementCount
  if elementCount < -freeElements then -freeElements else elementCount

def moveReadPtr (b : RingBuffer α) (elementCount : ℤ) : Option (RingBuffer α × ℤ) :=
  let elementCount := b.clampMove elementCount
  let readPos := Core.toInt32 b.readPos + elementCount
  if readPos < -2 ^ 31 ∨ 2 ^ 31 ≤ readPos then none
  else
    let forward : ℤ × Wrap :=
      if Core.toInt32 b.elementCount < readPos then
        (readPos - Core.toInt32 b.elementCount, .sameWrap)
      else (readPos, b.rwWrap)
    let backward : ℤ × Wrap :=
      if forward.1 < 0 then (forward.1 + Core.toInt32 b.elementCount, .diffWrap) else forward
    some ({ b with readPos := Core.toSizeT backward.1, rwWrap := backward.2 }, elementCount)

structure ReadResult (α : Type*) where
  readCount : ℕ
  data : List α
  dataPtr : Option (List α)

/-- The regions are joined in `data` when the read wraps; otherwise they are only copied when
the caller does not ask for a pointer. -/
def deliver (wantsPtr : Bool) (readCount : ℕ) (region1 region2 : List α) : ReadResult α :=
  let wraps := 0 < region2.length
  let data := if wraps then region1 ++ region2 else if wantsPtr then [] else region1
  let pointed := if wraps then data else region1
  ⟨readCount, data, if wantsPtr then (if readCount = 0 then none else some pointed) else none⟩

def readBuffer (b : RingBuffer α) (wantsPtr : Bool) (elementCount : ℕ) :
    Option (RingBuffer α × ReadResult α) :=
  let regions := b.getBufferReadRegions elementCount
  (b.moveReadPtr (Core.toInt32 regions.1)).map fun r =>
    (r.1, deliver wantsPtr regions.1 regions.2.1 regions.2.2)

def ReadResult.elements (r : ReadResult α) (wantsPtr : Bool) : List α :=
  if wantsPtr then r.dataPtr.getD [] else r.data

def writeBuffer (b : RingBuffer α) (data : List α) : RingBuffer α × ℕ :=
  let freeElements := b.availableWrite
  let writeElements := if freeElements < data.length then freeElements else data.length
  let margin := b.elementCount - b.writePos
  if margin < writeElements then
    let n := writeElements - margin
    ({ b with
        data := Core.writeAt (Core.writeAt b.data b.writePos (data.take margin)) 0
          ((data.drop (writeElements - n)).take n),
        writePos := 0 + n, rwWrap := .diffWrap }, writeElements)
  else
    ({ b with
        data := Core.writeAt b.data b.writePos (data.take writeElements),
        writePos := b.writePos + writeElements }, writeElements)

inductive Call (α : Type*)
  | write (data : List α)
  | read (wantsPtr : Bool) (elementCount : ℕ)
  | move (elementCount : ℤ)
  | init

def Call.InRange : Call α → Prop
  | .move k => -2 ^ 31 ≤ k ∧ k < 2 ^ 31
  | _ => True

/-- What a caller sees of a call: the returned count, the elements read, and what the two
queries answer afterwards. -/
structure Outcome (α : Type*) where
  count : ℤ
  elements : List α
  availableRead : ℕ
  availableWrite : ℕ

def outcome (b : RingBuffer α) (count : ℤ) (elements : List α) : RingBuffer α × Outcome α :=
  (b, ⟨count, elements, b.availableRead, b.availableWrite⟩)

def step [Zero α] (b : RingBuffer α) : Call α → Option (RingBuffer α × Outcome α)
  | .write data => some (outcome (b.writeBuffer data).1 (b.writeBuffer data).2 [])
  | .read wantsPtr n =>
    (b.readBuffer wantsPtr n).map fun r => outcome r.1 r.2.readCount (r.2.elements wantsPtr)
  | .move k => (b.moveReadPtr k).map fun r => outcome r.1 r.2 []
  | .init => some (outcome b.initBuffer 0 [])

end RingBuffer
end WebRtcAudio.CommonAudio
