import WebRtcAudio.Aec3.Common
import WebRtcAudio.Core.CheckedMemory
import WebRtcAudio.Core.MachineInt

/-! `MatchedFilterLagAggregator`. An access outside of an array has no result. -/
namespace WebRtcAudio.Aec3

open WebRtcAudio.Core

structure LagEstimate (F : Type) where
  accuracy : F
  reliable : Bool
  lag : ℕ
  updated : Bool

structure DelaySelectionThresholds where
  initial : ℤ := 5
  converged : ℤ := 20
  deriving DecidableEq

def histogramDataSize : ℕ := 250

structure MatchedFilterLagAggregator where
  histogram : List ℤ
  histogramData : List ℤ
  histogramDataIndex : ℕ
  significantCandidateFound : Bool
  thresholds : DelaySelectionThresholds
  deriving DecidableEq

def maxElement (l : List ℤ) : ℕ := l.findIdx fun x => l.all (· ≤ x)

/-- The strongest of the estimates that are updated and reliable. The comparison is that of
`float`, of which nothing is assumed. -/
def bestLagEstimate {F : Type} [Zero F] [LT F] [DecidableLT F]
    (lagEstimates : List (LagEstimate F)) :
    Option (LagEstimate F) :=
  (lagEstimates.foldl (fun (best : F × Option (LagEstimate F)) e =>
    if e.updated && e.reliable then
      if best.1 < e.accuracy then (e.accuracy, some e) else best
    else best) (0, none)).2

namespace MatchedFilterLagAggregator

def new (maxFilterLag : ℕ) (thresholds : DelaySelectionThresholds) :
    MatchedFilterLagAggregator where
  histogram := List.replicate (maxFilterLag + 1) 0
  histogramData := List.replicate histogramDataSize 0
  histogramDataIndex := 0
  significantCandidateFound := false
  thresholds := thresholds

def reset (a : MatchedFilterLagAggregator) (hardReset : Bool) : MatchedFilterLagAggregator :=
  { a with
    histogram := List.replicate a.histogram.length 0
    histogramData := List.replicate histogramDataSize 0
    histogramDataIndex := 0
    significantCandidateFound := if hardReset then false else a.significantCandidateFound }

def insertLag (a : MatchedFilterLagAggregator) (lag : ℕ) : Option MatchedFilterLagAggregator := do
  let oldest ← Memory.read a.histogramData a.histogramDataIndex
  let count ← Memory.read a.histogram oldest
  let histogram ← Memory.write a.histogram oldest (count - 1)
  let histogramData ← Memory.write a.histogramData a.histogramDataIndex (toInt32 lag)
  let newest ← Memory.read histogramData a.histogramDataIndex
  let count ← Memory.read histogram newest
  let histogram ← Memory.write histogram newest (count + 1)
  return { a with
    histogram := histogram
    histogramData := histogramData
    histogramDataIndex := (a.histogramDataIndex + 1) % histogramDataSize }

def selectCandidate (a : MatchedFilterLagAggregator) :
    Option (MatchedFilterLagAggregator × Option DelayEstimate) := do
  let candidate := maxElement a.histogram
  let count ← Memory.read a.histogram candidate
  let found := a.significantCandidateFound || a.thresholds.converged < count
  return ({ a with significantCandidateFound := found },
    if a.thresholds.converged < count ∨ (a.thresholds.initial < count ∧ !found) then
      some ⟨found, candidate⟩
    else none)

def aggregate {F : Type} [Zero F] [LT F] [DecidableLT F] (a : MatchedFilterLagAggregator)
    (lagEstimates : List (LagEstimate F)) :
    Option (MatchedFilterLagAggregator × Option DelayEstimate) :=
  match bestLagEstimate lagEstimates with
  | none => some (a, none)
  | some best => do
    let a ← a.insertLag best.lag
    a.selectCandidate

end MatchedFilterLagAggregator

end WebRtcAudio.Aec3
