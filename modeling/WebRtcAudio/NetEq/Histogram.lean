import Mathlib.Algebra.BigOperators.Group.List.Basic
import Mathlib.Algebra.Order.Ring.Int

/-! `Histogram`: the distribution of the delays, in Q30. All sums stay at most 2^30, so `int` is ℤ
here. -/
namespace WebRtcAudio.NetEq

/-- `startForgetFactor` is what the floating-point expression with the start weight gives for each
`add_count_`, if there is a start weight. -/
structure Histogram where
  buckets : List ℤ
  forgetFactor : ℤ
  baseForgetFactor : ℤ
  addCount : ℕ
  startForgetFactor : Option (ℕ → ℤ)

namespace Histogram

def correct (flipSign : ℤ) : ℤ → List ℤ → ℤ × List ℤ
  | vectorSum, [] => (vectorSum, [])
  | vectorSum, bucket :: buckets =>
    let correction := flipSign * min |vectorSum| (bucket / 2 ^ 4)
    let vectorSum := vectorSum + correction
    if |vectorSum| = 0 then (vectorSum, (bucket + correction) :: buckets)
    else
      let (rest, corrected) := correct flipSign vectorSum buckets
      (rest, (bucket + correction) :: corrected)

def addToBuckets (buckets : List ℤ) (forgetFactor value : ℤ) : Option (List ℤ) :=
  if 0 ≤ value ∧ value < buckets.length then
    let scaled := buckets.map fun bucket => bucket * forgetFactor / 2 ^ 15
    let weight := (32768 - forgetFactor) * 2 ^ 15
    let increased := scaled.modify value.toNat (· + weight)
    let vectorSum := scaled.sum + weight - 2 ^ 30
    let (rest, corrected) :=
      if vectorSum ≠ 0 then correct (if 0 < vectorSum then -1 else 1) vectorSum increased
      else (vectorSum, increased)
    if rest = 0 then some corrected else none
  else none

def nextForgetFactor (h : Histogram) (addCount : ℕ) : ℤ :=
  match h.startForgetFactor with
  | some factor =>
    if h.forgetFactor ≠ h.baseForgetFactor then max 0 (min h.baseForgetFactor (factor addCount))
    else h.forgetFactor
  | none => h.forgetFactor + (h.baseForgetFactor - h.forgetFactor + 3) / 2 ^ 2

def add (h : Histogram) (value : ℤ) : Option Histogram := do
  let buckets ← addToBuckets h.buckets h.forgetFactor value
  return { h with
    buckets := buckets
    addCount := h.addCount + 1
    forgetFactor := h.nextForgetFactor (h.addCount + 1) }

def quantileFrom (inverseProbability : ℤ) : ℤ → ℕ → List ℤ → ℕ
  | _, index, [] => index
  | sum, index, bucket :: buckets =>
    if inverseProbability < sum then
      quantileFrom inverseProbability (sum - bucket) (index + 1) buckets
    else index

def quantile (h : Histogram) (probability : ℤ) : Option ℕ :=
  match h.buckets with
  | [] => none
  | bucket :: buckets => some (quantileFrom (2 ^ 30 - probability) (2 ^ 30 - bucket) 0 buckets)

def resetBuckets : ℕ → ℕ → List ℤ
  | 0, _ => []
  | n + 1, tempProb => ((tempProb / 2 * 2 ^ 16 : ℕ) : ℤ) :: resetBuckets n (tempProb / 2)

def reset (h : Histogram) : Histogram :=
  { h with buckets := resetBuckets h.buckets.length 0x4002, forgetFactor := 0, addCount := 0 }

end Histogram

end WebRtcAudio.NetEq
