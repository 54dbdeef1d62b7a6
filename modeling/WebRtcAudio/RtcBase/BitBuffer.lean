import Mathlib.Data.List.Basic

/-! `rtc::BitBuffer` and `BitBufferWriter`. An access to a byte outside the buffer is undefined. -/
namespace WebRtcAudio.RtcBase

def lowestBits (byte : BitVec 8) (bitCount : ℕ) : BitVec 8 :=
  (byte.setWidth 32 &&& (1#32 <<< bitCount - 1#32)).setWidth 8

def highestBits (byte : BitVec 8) (bitCount : ℕ) : BitVec 8 :=
  let shift := 8 - bitCount
  let mask : BitVec 8 := (0xFF#32 <<< shift).setWidth 8
  (byte &&& mask) >>> shift

def highestByte (val : BitVec 64) : BitVec 8 := (val >>> 56).setWidth 8

def writePartialByte (source : BitVec 8) (sourceBitCount : ℕ) (target : BitVec 8)
    (targetBitOffset : ℕ) : BitVec 8 :=
  -- A mask for just the bits that are overwritten.
  let mask := (0xFF#32 <<< (8 - sourceBitCount)).setWidth 8 >>> targetBitOffset
  (target &&& ~~~mask) ||| (source >>> targetBitOffset)

structure BitBuffer where
  bytes : List (BitVec 8)
  byteOffset : ℕ
  bitOffset : ℕ

namespace BitBuffer

def store (bytes : List (BitVec 8)) (index : ℕ) (byte : BitVec 8) : Option (List (BitVec 8)) :=
  if index < bytes.length then some (bytes.set index byte) else none

def remainingBitCount (buffer : BitBuffer) : ℕ :=
  (buffer.bytes.length - buffer.byteOffset) * 8 - buffer.bitOffset

def readFullBytes (bytes : List (BitVec 8)) :
    (bitCount : ℕ) → (index : ℕ) → (bits : BitVec 32) → Option (ℕ × ℕ × BitVec 32)
  | bitCount + 8, index, bits => do
    let byte ← bytes[index]?
    readFullBytes bytes bitCount (index + 1) (bits <<< 8 ||| byte.setWidth 32)
  | bitCount, index, bits => some (bitCount, index, bits)

def peekBits (buffer : BitBuffer) (bitCount : ℕ) : Option (Option (BitVec 32)) :=
  if bitCount > buffer.remainingBitCount ∨ bitCount > 32 then some none
  else do
    let byte ← buffer.bytes[buffer.byteOffset]?
    let remainingBitsInCurrentByte := 8 - buffer.bitOffset
    let bits : BitVec 32 := (lowestBits byte remainingBitsInCurrentByte).setWidth 32
    if bitCount < remainingBitsInCurrentByte then
      return some ((highestBits (bits.setWidth 8) (buffer.bitOffset + bitCount)).setWidth 32)
    else
      let (bitCount, index, bits) ←
        readFullBytes buffer.bytes (bitCount - remainingBitsInCurrentByte) (buffer.byteOffset + 1)
          bits
      if bitCount > 0 then
        let byte ← buffer.bytes[index]?
        return some (bits <<< bitCount ||| (highestBits byte bitCount).setWidth 32)
      else
        return some bits

def consumeBits (buffer : BitBuffer) (bitCount : ℕ) : BitBuffer × Bool :=
  if bitCount > buffer.remainingBitCount then (buffer, false)
  else
    ({ buffer with
        byteOffset := buffer.byteOffset + (buffer.bitOffset + bitCount) / 8
        bitOffset := (buffer.bitOffset + bitCount) % 8 }, true)

def readBits (buffer : BitBuffer) (bitCount : ℕ) : Option (BitBuffer × Option (BitVec 32)) := do
  match ← buffer.peekBits bitCount with
  | none => return (buffer, none)
  | some val =>
    match buffer.consumeBits bitCount with
    | (buffer, true) => return (buffer, some val)
    | (buffer, false) => return (buffer, none)

def seek (buffer : BitBuffer) (byteOffset bitOffset : ℕ) : BitBuffer × Bool :=
  if byteOffset > buffer.bytes.length ∨ bitOffset > 7 ∨
      byteOffset = buffer.bytes.length ∧ bitOffset > 0 then (buffer, false)
  else ({ buffer with byteOffset, bitOffset }, true)

def writeFullBytes : (bitCount : ℕ) → (bytes : List (BitVec 8)) → (index : ℕ) →
    (val : BitVec 64) → Option (ℕ × List (BitVec 8) × ℕ × BitVec 64)
  | bitCount + 8, bytes, index, val => do
    let bytes ← store bytes index (highestByte val)
    writeFullBytes bitCount bytes (index + 1) (val <<< 8)
  | bitCount, bytes, index, val => some (bitCount, bytes, index, val)

def writeBits (buffer : BitBuffer) (val : BitVec 64) (bitCount : ℕ) : Option (BitBuffer × Bool) :=
  if bitCount > buffer.remainingBitCount then some (buffer, false)
  else do
    let totalBits := bitCount
    -- The bits to write are the highest bits of `val`.
    let val := val <<< (64 - bitCount)
    let remainingBitsInCurrentByte := 8 - buffer.bitOffset
    let bitsInFirstByte := min bitCount remainingBitsInCurrentByte
    let target ← buffer.bytes[buffer.byteOffset]?
    let bytes ← store buffer.bytes buffer.byteOffset
      (writePartialByte (highestByte val) bitsInFirstByte target buffer.bitOffset)
    if bitCount ≤ remainingBitsInCurrentByte then
      return { buffer with bytes }.consumeBits totalBits
    else
      let (bitCount, bytes, index, val) ←
        writeFullBytes (bitCount - bitsInFirstByte) bytes (buffer.byteOffset + 1)
          (val <<< bitsInFirstByte)
      if bitCount > 0 then
        let target ← bytes[index]?
        let bytes ← store bytes index (writePartialByte (highestByte val) bitCount target 0)
        return { buffer with bytes }.consumeBits totalBits
      else
        return { buffer with bytes }.consumeBits totalBits

end BitBuffer

end WebRtcAudio.RtcBase
