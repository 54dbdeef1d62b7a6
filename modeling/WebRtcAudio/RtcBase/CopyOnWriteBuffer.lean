import WebRtcAudio.Core.CircularList
import Mathlib.Data.Fintype.Card

/-! `rtc::CopyOnWriteBuffer`. An access outside a buffer is undefined; new memory holds the
unspecified bytes `junk`. -/
namespace WebRtcAudio.RtcBase

open WebRtcAudio.Core Function

def readBytes (data : List UInt8) (position n : ℕ) : Option (List UInt8) :=
  if position + n ≤ data.length then some ((data.drop position).take n) else none

def writeBytes (data : List UInt8) (position : ℕ) (bytes : List UInt8) : Option (List UInt8) :=
  if position + bytes.length ≤ data.length then some (writeAt data position bytes) else none

def uninitialized (junk : ℕ → UInt8) (n : ℕ) : List UInt8 := (List.range n).map junk

structure Buffer where
  data : List UInt8
  size : ℕ

namespace Buffer

def capacity (buffer : Buffer) : ℕ := buffer.data.length

def ofSize (junk : ℕ → UInt8) (size capacity : ℕ) : Buffer :=
  ⟨uninitialized junk (max size capacity), size⟩

def ofData (junk : ℕ → UInt8) (bytes : List UInt8) (capacity : ℕ) : Option Buffer := do
  let buffer := ofSize junk bytes.length capacity
  let data ← writeBytes buffer.data 0 bytes
  return { buffer with data }

def ensureCapacityWithHeadroom (buffer : Buffer) (junk : ℕ → UInt8) (capacity : ℕ)
    (extraHeadroom : Bool) : Option Buffer :=
  if capacity ≤ buffer.capacity then some buffer
  else do
    let newCapacity := if extraHeadroom then max capacity (buffer.capacity + buffer.capacity / 2)
      else capacity
    let old ← readBytes buffer.data 0 buffer.size
    let data ← writeBytes (uninitialized junk newCapacity) 0 old
    return { buffer with data }

def appendData (buffer : Buffer) (junk : ℕ → UInt8) (bytes : List UInt8) : Option Buffer := do
  let newSize := buffer.size + bytes.length
  let grown ← buffer.ensureCapacityWithHeadroom junk newSize true
  let data ← writeBytes grown.data grown.size bytes
  return ⟨data, newSize⟩

def setData (buffer : Buffer) (junk : ℕ → UInt8) (bytes : List UInt8) : Option Buffer :=
  { buffer with size := 0 }.appendData junk bytes

def setSize (buffer : Buffer) (junk : ℕ → UInt8) (size : ℕ) : Option Buffer := do
  let grown ← buffer.ensureCapacityWithHeadroom junk size true
  return { grown with size }

def clear (buffer : Buffer) : Buffer := { buffer with size := 0 }

end Buffer

structure CopyOnWriteBuffer where
  buffer : Option ℕ
  offset : ℕ
  size : ℕ

def CopyOnWriteBuffer.empty : CopyOnWriteBuffer := ⟨none, 0, 0⟩

def CopyOnWriteBuffer.view (heap : ℕ → Buffer) (handle : CopyOnWriteBuffer) : List UInt8 :=
  match handle.buffer with
  | none => []
  | some address => ((heap address).data.drop handle.offset).take handle.size

structure SharedBuffers (H : Type) where
  heap : ℕ → Buffer
  next : ℕ
  handles : H → CopyOnWriteBuffer

namespace SharedBuffers

variable {H : Type} [Fintype H] [DecidableEq H]

def refCount (m : SharedBuffers H) (address : ℕ) : ℕ :=
  (Finset.univ.filter fun h => (m.handles h).buffer = some address).card

def hasOneRef (m : SharedBuffers H) (address : ℕ) : Bool := m.refCount address = 1

def allocate (m : SharedBuffers H) (h : H) (buffer : Buffer) (size : ℕ) : SharedBuffers H :=
  { heap := update m.heap m.next buffer
    next := m.next + 1
    handles := update m.handles h ⟨some m.next, 0, size⟩ }

def setHandle (m : SharedBuffers H) (h : H) (handle : CopyOnWriteBuffer) : SharedBuffers H :=
  { m with handles := update m.handles h handle }

def setBuffer (m : SharedBuffers H) (address : ℕ) (buffer : Buffer) : SharedBuffers H :=
  { m with heap := update m.heap address buffer }

def contents (m : SharedBuffers H) (h : H) : List UInt8 := (m.handles h).view m.heap

def capacity (m : SharedBuffers H) (h : H) : ℕ :=
  match (m.handles h).buffer with
  | none => 0
  | some address => (m.heap address).capacity - (m.handles h).offset

def unshareAndEnsureCapacity (m : SharedBuffers H) (h : H) (address : ℕ) (junk : ℕ → UInt8)
    (newCapacity : ℕ) : Option (SharedBuffers H) :=
  if m.hasOneRef address ∧ newCapacity ≤ m.capacity h then some m
  else do
    let bytes ← readBytes (m.heap address).data (m.handles h).offset (m.handles h).size
    let buffer ← Buffer.ofData junk bytes newCapacity
    return m.allocate h buffer (m.handles h).size

def modifyBuffer (m : SharedBuffers H) (h : H) (modify : Buffer → Option Buffer) :
    Option (SharedBuffers H) := do
  let address ← (m.handles h).buffer
  let buffer ← modify (m.heap address)
  return m.setBuffer address buffer

def readShared (m : SharedBuffers H) (address position n : ℕ) : Option (List UInt8) :=
  if m.refCount address = 0 then none else readBytes (m.heap address).data position n

def constructSize (m : SharedBuffers H) (h : H) (junk : ℕ → UInt8) (size capacity : ℕ) :
    SharedBuffers H :=
  if size > 0 ∨ capacity > 0 then m.allocate h (.ofSize junk size capacity) size
  else m.setHandle h ⟨none, 0, size⟩

def constructData (m : SharedBuffers H) (h : H) (junk : ℕ → UInt8) (bytes : List UInt8)
    (capacity : ℕ) : Option (SharedBuffers H) := do
  let m := m.constructSize h junk bytes.length capacity
  match (m.handles h).buffer with
  | none => some m
  | some _ =>
    let m ← m.modifyBuffer h fun buffer => do
      let data ← writeBytes buffer.data 0 bytes
      return { buffer with data }
    return m.setHandle h { m.handles h with offset := 0, size := bytes.length }

def copy (m : SharedBuffers H) (h src : H) : SharedBuffers H :=
  if src ≠ h then m.setHandle h (m.handles src) else m

def move (m : SharedBuffers H) (h src : H) : SharedBuffers H :=
  if src ≠ h then (m.setHandle h (m.handles src)).setHandle src .empty
  else m.setHandle h { m.handles h with offset := 0, size := 0 }

def slice (m : SharedBuffers H) (h src : H) (offset length : ℕ) : SharedBuffers H :=
  m.setHandle h ⟨(m.handles src).buffer, (m.handles src).offset + offset, length⟩

def setData (m : SharedBuffers H) (h : H) (junk : ℕ → UInt8) (bytes : List UInt8) :
    Option (SharedBuffers H) :=
  match (m.handles h).buffer with
  | none =>
    if bytes.length > 0 then do
      let buffer ← Buffer.ofData junk bytes bytes.length
      return m.allocate h buffer bytes.length
    else some (m.setHandle h ⟨none, 0, bytes.length⟩)
  | some address =>
    if !m.hasOneRef address then do
      let buffer ← Buffer.ofData junk bytes (m.capacity h)
      return m.allocate h buffer bytes.length
    else do
      let buffer ← (m.heap address).setData junk bytes
      return (m.setBuffer address buffer).setHandle h ⟨some address, 0, bytes.length⟩

def appendFrom (m : SharedBuffers H) (h : H) (junk : ℕ → UInt8)
    (data : SharedBuffers H → Option (List UInt8)) (size : ℕ) : Option (SharedBuffers H) :=
  match (m.handles h).buffer with
  | none => do
    let bytes ← data m
    let buffer ← Buffer.ofData junk bytes size
    return m.allocate h buffer size
  | some address => do
    let m ← m.unshareAndEnsureCapacity h address junk
      (max (m.capacity h) ((m.handles h).size + size))
    -- Remove data to the right of the slice.
    let m ← m.modifyBuffer h fun buffer =>
      buffer.setSize junk ((m.handles h).offset + (m.handles h).size)
    let bytes ← data m
    let m ← m.modifyBuffer h fun buffer => buffer.appendData junk bytes
    return m.setHandle h { m.handles h with size := (m.handles h).size + size }

def appendData (m : SharedBuffers H) (h : H) (junk : ℕ → UInt8) (bytes : List UInt8) :
    Option (SharedBuffers H) :=
  m.appendFrom h junk (fun _ => some bytes) bytes.length

def appendBuffer (m : SharedBuffers H) (h src : H) (junk : ℕ → UInt8) : Option (SharedBuffers H) :=
  match m.handles src with
  | ⟨none, _, size⟩ => m.appendFrom h junk (fun _ => if size = 0 then some [] else none) size
  | ⟨some address, offset, size⟩ =>
    m.appendFrom h junk (fun m => m.readShared address offset size) size

def setSize (m : SharedBuffers H) (h : H) (junk : ℕ → UInt8) (size : ℕ) :
    Option (SharedBuffers H) :=
  match (m.handles h).buffer with
  | none => if size > 0 then some (m.allocate h (.ofSize junk size size) size) else some m
  | some address =>
    if size ≤ (m.handles h).size then some (m.setHandle h { m.handles h with size })
    else do
      let m ← m.unshareAndEnsureCapacity h address junk (max (m.capacity h) size)
      let m ← m.modifyBuffer h fun buffer => buffer.setSize junk (size + (m.handles h).offset)
      return m.setHandle h { m.handles h with size }

def ensureCapacity (m : SharedBuffers H) (h : H) (junk : ℕ → UInt8) (newCapacity : ℕ) :
    Option (SharedBuffers H) :=
  match (m.handles h).buffer with
  | none => if newCapacity > 0 then some (m.allocate h (.ofSize junk 0 newCapacity) 0) else some m
  | some address =>
    if newCapacity ≤ m.capacity h then some m
    else m.unshareAndEnsureCapacity h address junk newCapacity

def clear (m : SharedBuffers H) (h : H) (junk : ℕ → UInt8) : SharedBuffers H :=
  match (m.handles h).buffer with
  | none => m
  | some address =>
    if m.hasOneRef address then
      (m.setBuffer address (m.heap address).clear).setHandle h ⟨some address, 0, 0⟩
    else m.allocate h (.ofSize junk 0 (m.capacity h)) 0

def writeByte (m : SharedBuffers H) (h : H) (junk : ℕ → UInt8) (index : ℕ) (value : UInt8) :
    Option (SharedBuffers H) := do
  let address ← (m.handles h).buffer
  let m ← m.unshareAndEnsureCapacity h address junk (m.capacity h)
  m.modifyBuffer h fun buffer => do
    let data ← writeBytes buffer.data ((m.handles h).offset + index) [value]
    return { buffer with data }

end SharedBuffers

end WebRtcAudio.RtcBase
