import WebRtcAudio.Core.CircularList
import WebRtcAudio.Core.MachineInt

/-! `rtc::FifoBuffer`. Sizes are 64-bit; only the offset of a write can make a sum of them wrap. -/
namespace WebRtcAudio.RtcBase

open WebRtcAudio.Core

inductive StreamState where
  | closed
  | open
  deriving DecidableEq

inductive StreamResult where
  | error
  | success
  | block
  | eos
  deriving DecidableEq

inductive StreamEvent where
  | read
  | write

structure FifoBuffer where
  state : StreamState
  buffer : List UInt8
  dataLength : ℕ
  readPosition : ℕ

namespace FifoBuffer

def create (storage : List UInt8) : FifoBuffer := ⟨.open, storage, 0, 0⟩

def bufferLength (fifo : FifoBuffer) : ℕ := fifo.buffer.length

def getBuffered (fifo : FifoBuffer) : ℕ := fifo.dataLength

def getWriteRemaining (fifo : FifoBuffer) : ℕ := fifo.bufferLength - fifo.dataLength

def setCapacity (fifo : FifoBuffer) (storage : List UInt8) : FifoBuffer × Bool :=
  if fifo.dataLength > storage.length then (fifo, false)
  else if storage.length ≠ fifo.bufferLength then
    ({ fifo with
      buffer := writeAt storage 0 (readCircular fifo.buffer fifo.readPosition fifo.dataLength)
      readPosition := 0 }, true)
  else (fifo, true)

def readOffsetLocked (fifo : FifoBuffer) (bytes offset : ℕ) : StreamResult × List UInt8 :=
  if offset ≥ fifo.dataLength then
    (if fifo.state ≠ .closed then .block else .eos, [])
  else
    let available := fifo.dataLength - offset
    let readPosition := (fifo.readPosition + offset) % fifo.bufferLength
    let copy := min bytes available
    (.success, readCircular fifo.buffer readPosition copy)

def writeOffsetLocked (fifo : FifoBuffer) (bytes : List UInt8) (offset : ℕ) :
    FifoBuffer × StreamResult × ℕ :=
  if fifo.state = .closed then (fifo, .eos, 0)
  else if (fifo.dataLength + offset) % 2 ^ 64 ≥ fifo.bufferLength then (fifo, .block, 0)
  else
    let available := toSizeT (fifo.bufferLength - fifo.dataLength - offset)
    let writePosition := (fifo.readPosition + fifo.dataLength + offset) % 2 ^ 64 % fifo.bufferLength
    let copy := min bytes.length available
    ({ fifo with buffer := writeCircular fifo.buffer writePosition (bytes.take copy) },
      .success, copy)

/-- The bytes before the read position are given back, and the writer hears of a queue that is no
longer full. -/
def consumeReadData (fifo : FifoBuffer) (size : ℕ) : FifoBuffer × List StreamEvent :=
  let wasWritable := fifo.dataLength < fifo.bufferLength
  ({ fifo with
    readPosition := (fifo.readPosition + size) % fifo.bufferLength
    dataLength := fifo.dataLength - size },
    if ¬ wasWritable ∧ size > 0 then [.write] else [])

def consumeWriteBuffer (fifo : FifoBuffer) (size : ℕ) : FifoBuffer × List StreamEvent :=
  let wasReadable := fifo.dataLength > 0
  ({ fifo with dataLength := fifo.dataLength + size },
    if ¬ wasReadable ∧ size > 0 then [.read] else [])

def read (fifo : FifoBuffer) (bytes : ℕ) :
    FifoBuffer × StreamResult × List UInt8 × List StreamEvent :=
  let (result, data) := fifo.readOffsetLocked bytes 0
  if result = .success then
    let (fifo, events) := fifo.consumeReadData data.length
    (fifo, result, data, events)
  else (fifo, result, [], [])

def write (fifo : FifoBuffer) (bytes : List UInt8) :
    FifoBuffer × StreamResult × ℕ × List StreamEvent :=
  let (written, result, copy) := fifo.writeOffsetLocked bytes 0
  if result = .success then
    let (fifo, events) := written.consumeWriteBuffer copy
    (fifo, result, copy, events)
  else (fifo, result, 0, [])

def getReadData (fifo : FifoBuffer) : List UInt8 :=
  let size := if fifo.readPosition + fifo.dataLength ≤ fifo.bufferLength then fifo.dataLength
    else fifo.bufferLength - fifo.readPosition
  (fifo.buffer.drop fifo.readPosition).take size

/-- `GetWriteBuffer`: the position and the size of the free bytes up to the end of the store or
to the data. An empty queue starts again at the beginning of the store. -/
def getWriteBuffer (fifo : FifoBuffer) : FifoBuffer × Option (ℕ × ℕ) :=
  if fifo.state = .closed then (fifo, none)
  else
    let fifo := if fifo.dataLength = 0 then { fifo with readPosition := 0 } else fifo
    let writePosition := (fifo.readPosition + fifo.dataLength) % fifo.bufferLength
    let size := if writePosition > fifo.readPosition ∨ fifo.dataLength = 0 then
        fifo.bufferLength - writePosition
      else fifo.readPosition - writePosition
    (fifo, some (writePosition, size))

def close (fifo : FifoBuffer) : FifoBuffer := { fifo with state := .closed }

end FifoBuffer

end WebRtcAudio.RtcBase
