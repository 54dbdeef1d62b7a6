import Mathlib.Data.Rat.Floor
import WebRtcAudio.Core.CircularList

/-! `SincResampler`, with exact positions and ratios and samples of any type. An access outside of a
buffer, a failed check and a conversion to `int` outside of its range have no result. -/
namespace WebRtcAudio.CommonAudio

open WebRtcAudio.Core

structure SampleArith (F : Type) where
  zero : F
  add : F → F → F
  mul : F → F → F
  /-- The sum of two values with the weights `1.0 - factor` and `factor`. -/
  interpolate : ℚ → F → F → F
  ofInt16 : Int16 → F
  floatS16ToS16 : F → Int16

def kKernelSize : ℕ := 32

def kKernelOffsetCount : ℕ := 32

def kKernelStorageSize : ℕ := kKernelSize * (kKernelOffsetCount + 1)

def castInt (x : ℤ) : Option ℤ := if -2 ^ 31 ≤ x ∧ x < 2 ^ 31 then some x else none

def truncate (x : ℚ) : ℤ := if 0 ≤ x then ⌊x⌋ else ⌈x⌉

def window {F : Type} (l : List F) (i : ℤ) : Option (List F) :=
  if 0 ≤ i then Memory.slice l i.toNat kKernelSize else none

structure SincResampler (F : Type) where
  ioSampleRateRatio : ℚ
  virtualSourceIdx : ℚ
  bufferPrimed : Bool
  requestFrames : ℕ
  blockSize : ℕ
  kernelStorage : List F
  inputBuffer : List F
  r0 : ℕ
  r3 : ℕ
  r4 : ℕ

namespace SincResampler

variable {F : Type} (arith : SampleArith F)

def r1 : ℕ := 0

def r2 : ℕ := kKernelSize / 2

def updateRegions (r : SincResampler F) (secondLoad : Bool) : Option (SincResampler F) :=
  let r0 := if secondLoad then kKernelSize else kKernelSize / 2
  let r3 := r0 + r.requestFrames - kKernelSize
  let r4 := r0 + r.requestFrames - kKernelSize / 2
  if r2 - r1 = r4 - r3 ∧ r2 < r3 then
    some { r with r0 := r0, r3 := r3, r4 := r4, blockSize := r4 - r2 }
  else none

def flush (r : SincResampler F) : Option (SincResampler F) :=
  updateRegions
    { r with
      virtualSourceIdx := 0
      bufferPrimed := false
      inputBuffer := List.replicate (r.requestFrames + kKernelSize) arith.zero }
    false

def new (ioSampleRateRatio : ℚ) (requestFrames : ℕ) (kernelStorage : List F) :
    Option (SincResampler F) :=
  if 0 < requestFrames then do
    let r ← flush arith ⟨ioSampleRateRatio, 0, false, requestFrames, 0, kernelStorage, [], 0, 0, 0⟩
    if kKernelSize < r.blockSize then some r else none
  else none

def convolution (input kernel : List F) : F :=
  (input.zip kernel).foldl (fun sum pair => arith.add sum (arith.mul pair.1 pair.2)) arith.zero

def output (r : SincResampler F) : Option F := do
  let sourceIdx ← castInt (truncate r.virtualSourceIdx)
  let subsampleRemainder := r.virtualSourceIdx - sourceIdx
  let virtualOffsetIdx := subsampleRemainder * kKernelOffsetCount
  let offsetIdx ← castInt (truncate virtualOffsetIdx)
  let k1 ← window r.kernelStorage (offsetIdx * kKernelSize)
  let k2 ← window r.kernelStorage (offsetIdx * kKernelSize + kKernelSize)
  let input ← window r.inputBuffer sourceIdx
  return arith.interpolate (virtualOffsetIdx - offsetIdx) (convolution arith input k1)
    (convolution arith input k2)

def advance (r : SincResampler F) : SincResampler F :=
  { r with virtualSourceIdx := r.virtualSourceIdx + r.ioSampleRateRatio }

/-- The inner loop of `Resample`, for `i` positions at most: the samples, the resampler and how
many frames remain. -/
def produce : ℕ → SincResampler F → ℕ → Option (List F × SincResampler F × ℕ)
  | 0, r, remainingFrames => some ([], r, remainingFrames)
  | i + 1, r, remainingFrames =>
    if r.virtualSourceIdx < r.blockSize then do
      let sample ← r.output arith
      if remainingFrames - 1 = 0 then some ([sample], r.advance, 0)
      else do
        let (samples, r, remainingFrames) ← produce i r.advance (remainingFrames - 1)
        return (sample :: samples, r, remainingFrames)
    else none

def wrap (r : SincResampler F) : Option (SincResampler F) :=
  if kKernelSize ≤ r.r3 then do
    let last ← Memory.slice r.inputBuffer r.r3 kKernelSize
    let inputBuffer ← Memory.copy r.inputBuffer r1 last
    let r := { r with
      virtualSourceIdx := r.virtualSourceIdx - r.blockSize
      inputBuffer := inputBuffer }
    if r.r0 = r2 then r.updateRegions true else some r
  else none

section
variable {σ : Type} (readCb : σ → ℕ → Option (σ × List F))

def load (r : SincResampler F) (s : σ) : Option (SincResampler F × σ) := do
  let (s, block) ← readCb s r.requestFrames
  let inputBuffer ← Memory.copy r.inputBuffer r.r0 block
  return ({ r with inputBuffer := inputBuffer }, s)

def prime (r : SincResampler F) (s : σ) (remainingFrames : ℕ) : Option (SincResampler F × σ) :=
  if r.bufferPrimed = false ∧ remainingFrames ≠ 0 then do
    let (r, s) ← r.load readCb s
    return ({ r with bufferPrimed := true }, s)
  else some (r, s)

def resampleLoop : ℕ → SincResampler F → σ → ℕ → Option (List F × SincResampler F × σ)
  | 0, _, _, _ => none
  | fuel + 1, r, s, remainingFrames =>
    if remainingFrames = 0 then some ([], r, s)
    else do
      let i ← castInt ⌈(r.blockSize - r.virtualSourceIdx) / r.ioSampleRateRatio⌉
      let (samples, r, remainingFrames) ← r.produce arith i.toNat remainingFrames
      if remainingFrames = 0 then some (samples, r, s)
      else do
        let r ← r.wrap
        let (r, s) ← r.load readCb s
        let (rest, r, s) ← resampleLoop fuel r s remainingFrames
        return (samples ++ rest, r, s)

def resample (fuel : ℕ) (r : SincResampler F) (s : σ) (frames : ℕ) :
    Option (List F × SincResampler F × σ) := do
  let (r, s) ← r.prime readCb s frames
  r.resampleLoop arith readCb fuel s frames

end

def chunkSize (r : SincResampler F) : ℕ := ⌊r.blockSize / r.ioSampleRateRatio⌋.toNat

end SincResampler

end WebRtcAudio.CommonAudio
