import WebRtcAudio.Core.CircularList

/-! `AudioVector`: samples in a circular array. An access outside of it has no result. The sizes of
samples in memory are natural numbers, since two of them never add up to `2 ^ 64`. The length of
zeros to insert is free, so that the sums with it wrap, and so does the subtraction `sizeTSub`. -/
namespace WebRtcAudio.NetEq

open WebRtcAudio.Core

structure AudioVector where
  array : List Int16
  beginIndex : ℕ
  endIndex : ℕ
  deriving DecidableEq

def sizeTSub (a b : ℕ) : ℕ := if b ≤ a then a - b else 2 ^ 64 + a - b

namespace AudioVector

def capacity (v : AudioVector) : ℕ := v.array.length

def size (v : AudioVector) : ℕ := (v.endIndex + v.capacity - v.beginIndex) % v.capacity

def new (initialSize : ℕ) : AudioVector := ⟨List.replicate (initialSize + 1) 0, 0, initialSize⟩

def ofDefaultSize : AudioVector :=
  { new 10 with beginIndex := 0, endIndex := 0 }

def clear (v : AudioVector) : AudioVector := { v with beginIndex := 0, endIndex := 0 }

def copyRest (array : List Int16) (n : ℕ) : Option (List Int16) :=
  if 0 < n then Memory.slice array 0 n else some []

def copyTo (v : AudioVector) (length position : ℕ) : Option (List Int16) :=
  if length = 0 then some []
  else do
    let length := min length (sizeTSub v.size position)
    let copyIndex := (v.beginIndex + position) % v.capacity
    let firstChunkLength := min length (v.capacity - copyIndex)
    let first ← Memory.slice v.array copyIndex firstChunkLength
    let rest ← copyRest v.array (length - firstChunkLength)
    return first ++ rest

section
variable (held : ℕ → Int16)

def reserve (v : AudioVector) (n : ℕ) : Option AudioVector :=
  if n < v.capacity then some v
  else do
    let copied ← v.copyTo v.size 0
    let array ← Memory.copy ((List.range (n + 1)).map held) 0 copied
    return ⟨array, 0, v.size⟩

def copyToVector (v copyTo : AudioVector) : Option AudioVector := do
  let target ← copyTo.reserve held v.size
  let copied ← v.copyTo v.size 0
  let array ← Memory.copy target.array 0 copied
  return ⟨array, 0, v.size⟩

def writeRest (array xs : List Int16) : Option (List Int16) :=
  if 0 < xs.length then Memory.copy array 0 xs else some array

def writeBack (v : AudioVector) (xs : List Int16) : Option AudioVector := do
  let firstChunkLength := min xs.length (v.capacity - v.endIndex)
  let array ← Memory.copy v.array v.endIndex (xs.take firstChunkLength)
  let array ← writeRest array (xs.drop firstChunkLength)
  return { v with array := array, endIndex := (v.endIndex + xs.length) % v.capacity }

def writeRestAtEnd (array xs : List Int16) : Option (List Int16) :=
  if 0 < xs.length then Memory.copy array (array.length - xs.length) xs else some array

def writeFront (v : AudioVector) (xs : List Int16) : Option AudioVector := do
  let firstChunkLength := min xs.length v.beginIndex
  let remainingLength := xs.length - firstChunkLength
  let array ← Memory.copy v.array (v.beginIndex - firstChunkLength) (xs.drop remainingLength)
  let array ← writeRestAtEnd array (xs.take remainingLength)
  return { v with
    array := array
    beginIndex := (v.beginIndex + v.capacity - xs.length) % v.capacity }

def pushFront (v : AudioVector) (xs : List Int16) : Option AudioVector :=
  if xs.length = 0 then some v
  else do
    let v ← v.reserve held (v.size + xs.length)
    v.writeFront xs

def pushBack (v : AudioVector) (xs : List Int16) : Option AudioVector :=
  if xs.length = 0 then some v
  else do
    let v ← v.reserve held (v.size + xs.length)
    v.writeBack xs

def ifAny (n : ℕ) (v : AudioVector) (pushed : Option AudioVector) : Option AudioVector :=
  if 0 < n then pushed else some v

def pushFrontVector (v prependThis : AudioVector) : Option AudioVector :=
  let length := prependThis.size
  if length = 0 then some v
  else do
    let v ← v.reserve held (v.size + length)
    let firstChunkLength := min length (prependThis.capacity - prependThis.beginIndex)
    let remainingLength := length - firstChunkLength
    let v ← ifAny remainingLength v do
      let rest ← Memory.slice prependThis.array 0 remainingLength
      v.pushFront held rest
    let first ← Memory.slice prependThis.array prependThis.beginIndex firstChunkLength
    v.pushFront held first

def pushBackSegment (v appendThis : AudioVector) (length position : ℕ) : Option AudioVector :=
  if position ≤ appendThis.size ∧ length ≤ appendThis.size - position then
    if length = 0 then some v
    else do
      let v ← v.reserve held (v.size + length)
      let startIndex := (appendThis.beginIndex + position) % appendThis.capacity
      let firstChunkLength := min length (appendThis.capacity - startIndex)
      let first ← Memory.slice appendThis.array startIndex firstChunkLength
      let v ← v.pushBack held first
      let remainingLength := length - firstChunkLength
      ifAny remainingLength v do
        let rest ← Memory.slice appendThis.array 0 remainingLength
        v.pushBack held rest
  else none

def pushBackVector (v appendThis : AudioVector) : Option AudioVector :=
  v.pushBackSegment held appendThis appendThis.size 0

def popFront (v : AudioVector) (length : ℕ) : AudioVector :=
  if length = 0 then v
  else { v with beginIndex := (v.beginIndex + min length v.size) % v.capacity }

def popBack (v : AudioVector) (length : ℕ) : AudioVector :=
  if length = 0 then v
  else { v with endIndex := (v.endIndex + v.capacity - min length v.size) % v.capacity }

def moveBack (v : AudioVector) (position : ℕ) : Option (List Int16 × AudioVector) :=
  let moveChunkLength := v.size - position
  if 0 < moveChunkLength then do
    let moved ← v.copyTo moveChunkLength position
    return (moved, v.popBack moveChunkLength)
  else some ([], v)

def moveFront (v : AudioVector) (position : ℕ) : Option (List Int16 × AudioVector) :=
  if 0 < position then do
    let moved ← v.copyTo position 0
    return (moved, v.popFront position)
  else some ([], v)

def insertByPushBack (v : AudioVector) (insertThis : List Int16) (position : ℕ) :
    Option AudioVector := do
  let moveChunkLength := v.size - position
  let (moved, v) ← v.moveBack position
  let v ← v.reserve held (v.size + insertThis.length + moveChunkLength)
  let v ← v.pushBack held insertThis
  ifAny moveChunkLength v (v.pushBack held moved)

def insertByPushFront (v : AudioVector) (insertThis : List Int16) (position : ℕ) :
    Option AudioVector := do
  let (moved, v) ← v.moveFront position
  let v ← v.reserve held (v.size + insertThis.length + position)
  let v ← v.pushFront held insertThis
  ifAny position v (v.pushFront held moved)

def insertZerosByPushBack (v : AudioVector) (length position : ℕ) : Option AudioVector := do
  let moveChunkLength := v.size - position
  let (moved, v) ← v.moveBack position
  let v ← v.reserve held ((v.size + length + moveChunkLength) % 2 ^ 64)
  let v ← v.writeBack (List.replicate length 0)
  ifAny moveChunkLength v (v.pushBack held moved)

def insertZerosByPushFront (v : AudioVector) (length position : ℕ) : Option AudioVector := do
  let (moved, v) ← v.moveFront position
  let v ← v.reserve held ((v.size + length + position) % 2 ^ 64)
  let v ← v.writeFront (List.replicate length 0)
  ifAny position v (v.pushFront held moved)

def extend (v : AudioVector) (extraLength : ℕ) : Option AudioVector :=
  if extraLength = 0 then some v else v.insertZerosByPushBack held extraLength v.size

def insertAt (v : AudioVector) (insertThis : List Int16) (position : ℕ) : Option AudioVector :=
  if insertThis.length = 0 then some v
  else
    let position := min v.size position
    if position ≤ v.size - position then v.insertByPushFront held insertThis position
    else v.insertByPushBack held insertThis position

def insertZerosAt (v : AudioVector) (length position : ℕ) : Option AudioVector :=
  if length = 0 then some v
  else
    let position := min v.size position
    if position ≤ v.size - position then v.insertZerosByPushFront held length position
    else v.insertZerosByPushBack held length position

def overwriteAt (v : AudioVector) (insertThis : List Int16) (position : ℕ) : Option AudioVector :=
  if insertThis.length = 0 then some v
  else do
    let position := min v.size position
    let newSize := max v.size (position + insertThis.length)
    let v ← v.reserve held newSize
    let overwriteIndex := (v.beginIndex + position) % v.capacity
    let firstChunkLength := min insertThis.length (v.capacity - overwriteIndex)
    let array ← Memory.copy v.array overwriteIndex (insertThis.take firstChunkLength)
    let array ← writeRest array (insertThis.drop firstChunkLength)
    return { v with array := array, endIndex := (v.beginIndex + newSize) % v.capacity }

def overwriteAtVector (v insertThis : AudioVector) (length position : ℕ) : Option AudioVector :=
  if length ≤ insertThis.size then
    if length = 0 then some v
    else do
      let position := min v.size position
      let v ← v.reserve held (max v.size (position + length))
      let firstChunkLength := min length (insertThis.capacity - insertThis.beginIndex)
      let first ← Memory.slice insertThis.array insertThis.beginIndex firstChunkLength
      let v ← v.overwriteAt held first position
      let remainingLength := length - firstChunkLength
      ifAny remainingLength v do
        let rest ← Memory.slice insertThis.array 0 remainingLength
        v.overwriteAt held rest (position + firstChunkLength)
  else none

end

end AudioVector

end WebRtcAudio.NetEq
