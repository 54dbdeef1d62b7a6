import WebRtcAudio.CommonAudio.SignalProcessing

/-! Decimation, energies and the square root. Signed operations that overflow have no result. -/
namespace WebRtcAudio.CommonAudio

open WebRtcAudio.Core

def satW32ToW16 (value : ℤ) : ℤ := max (-2 ^ 15) (min value (2 ^ 15 - 1))

def addSatW16 (a b : ℤ) : ℤ := satW32ToW16 (a + b)

def divW32W16ResW16 (num den : ℤ) : ℤ := if den = 0 then 2 ^ 15 - 1 else toInt16 (num.tdiv den)

def scaleDiff32 (a b c : ℤ) : Option ℤ := do
  let high ← int32? (b / 2 ^ 16 * a)
  let sum ← int32? (c + high)
  return toInt32 (sum + b % 2 ^ 16 * a / 2 ^ 16)

structure Allpass where
  state0 : ℤ
  state1 : ℤ
  state2 : ℤ
  state3 : ℤ
  deriving DecidableEq

def Allpass.filter (s : Allpass) (k₀ k₁ k₂ input : ℤ) : Option Allpass := do
  let in32 := input * 2 ^ 10
  let tmp1 ← scaleDiff32 k₀ (← int32? (in32 - s.state1)) s.state0
  let tmp2 ← scaleDiff32 k₁ (← int32? (tmp1 - s.state2)) s.state1
  let out ← scaleDiff32 k₂ (← int32? (tmp2 - s.state3)) s.state2
  return ⟨in32, tmp1, tmp2, out⟩

structure FilterState where
  lower : Allpass
  upper : Allpass
  deriving DecidableEq

def FilterState.output (s : FilterState) : Option ℤ := do
  let sum ← int32? (s.lower.state3 + s.upper.state3)
  let rounded ← int32? (sum + 1024)
  return satW32ToW16 (rounded / 2 ^ 11)

def downsampleBy2 : List ℤ → FilterState → Option (List ℤ × FilterState)
  | x :: y :: rest, s => do
    let s := ⟨← s.lower.filter 12199 37471 60255 x, ← s.upper.filter 3284 24441 49528 y⟩
    let out ← s.output
    let (outs, s) ← downsampleBy2 rest s
    return (out :: outs, s)
  | _, s => some ([], s)

def dotProductWithScale (x y : List ℤ) (scaling : ℕ) : ℤ :=
  max word32Min (min (List.zipWith (fun a b => a * b / 2 ^ scaling) x y).sum word32Max)

def sqrtLocal (input : ℤ) : Option ℤ := do
  let half := input.tdiv 2
  let b ← int32? (half - 2 ^ 30)
  let xHalf := toInt16 (b / 2 ^ 16)
  let b ← int32? (b + 2 ^ 30)
  let b ← int32? (b + 2 ^ 30)
  let x2 ← int32? (xHalf * xHalf * 2)
  let a ← int32? (-x2)
  let b ← int32? (b + a / 2)
  let a := a / 2 ^ 16
  let a ← int32? (a * a * 2)
  let t16 := toInt16 (a / 2 ^ 16)
  let b ← int32? (b + -20480 * t16 * 2)
  let a ← int32? (xHalf * t16 * 2)
  let t16 := toInt16 (a / 2 ^ 16)
  let b ← int32? (b + 28672 * t16 * 2)
  let t16 := toInt16 (x2 / 2 ^ 16)
  let a ← int32? (xHalf * t16 * 2)
  let b ← int32? (b + a / 2)
  int32? (b + 32768)

def sqrtDenormalize (root : ℤ) (shift : ℕ) : Option ℤ := do
  let a ←
    if shift % 2 = 0 then do
      let product ← int32? (23170 * toInt16 (root / 2 ^ 16) * 2)
      let rounded ← int32? (product + 32768)
      -- `A & 0x7fff0000`, shifted by 15 places
      some (rounded % 2 ^ 31 / 2 ^ 16 * 2)
    else some (root / 2 ^ 16)
  return a % 2 ^ 16 / 2 ^ (shift / 2)

def sqrt (value : ℤ) : Option ℤ :=
  if value = 0 then some 0
  else do
    let a := if value = word32Min then word32Max else |value|
    let shift := normW32 a
    let normalized ← int32? (a * 2 ^ shift)
    let rounded := if normalized < word32Max - 32767 then normalized + 32768 else word32Max
    let high ← int32? (toInt16 (rounded / 2 ^ 16) * 2 ^ 16)
    let root ← sqrtLocal |high|
    sqrtDenormalize root shift

end WebRtcAudio.CommonAudio
