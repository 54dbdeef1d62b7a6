import WebRtcAudio.Core.CheckedMemory
import WebRtcAudio.Core.MachineInt
import WebRtcAudio.Utility.BitCount

/-! `BinaryDelayEstimator`. An access outside of what is allocated has no result. -/
namespace WebRtcAudio.Utility

open WebRtcAudio.Core

structure FloatArith (F : Type) where
  literal : ℚ → F
  ofInt : ℤ → F
  add : F → F → F
  sub : F → F → F
  mul : F → F → F
  lt : F → F → Bool
  le : F → F → Bool

def kShiftsAtZero : ℤ := 13

def kShiftsLinearSlope : ℤ := 3

def kProbabilityOffset : ℤ := 1024

def kProbabilityLowerLimit : ℤ := 8704

def kProbabilityMinSpread : ℤ := 2816

def kMinRequiredHits : ℤ := 10

def kMaxHitsWhenPossiblyNonCausal : ℤ := 10

def kMaxHitsWhenPossiblyCausal : ℤ := 1000

def kMaxBitCountsQ9 : ℤ := 32 * 2 ^ 9

section Floats
variable {F : Type} (ops : FloatArith F)

def kHistogramMax : F := ops.literal 3000

def kLastHistogramMax : F := ops.literal 250

def kMinHistogramThreshold : F := ops.literal (3 / 2)

def kQ14Scaling : F := ops.literal (1 / 2 ^ 14)

def kFractionSlope : F := ops.literal (1 / 20)

def kMinFractionWhenPossiblyCausal : F := ops.literal (1 / 2)

def kMinFractionWhenPossiblyNonCausal : F := ops.literal (1 / 4)

end Floats

structure BinaryDelayEstimatorFarend where
  farBitCounts : List ℤ
  binaryFarHistory : List UInt32
  historySize : ℕ
  deriving DecidableEq

structure BinaryDelayEstimator (F : Type) where
  meanBitCounts : List ℤ
  bitCounts : List ℤ
  binaryNearHistory : List UInt32
  nearHistorySize : ℕ
  historySize : ℕ
  minimumProbability : ℤ
  lastDelayProbability : ℤ
  lastDelay : ℤ
  robustValidationEnabled : Bool
  allowedOffset : ℤ
  lastCandidateDelay : ℤ
  compareDelay : ℤ
  candidateHits : ℤ
  histogram : List F
  lastDelayHistogram : F
  lookahead : ℤ
  farend : BinaryDelayEstimatorFarend
  deriving DecidableEq

structure Held (F : Type) where
  int : ℕ → ℤ
  word : ℕ → UInt32
  float : ℕ → F

namespace BinaryDelayEstimatorFarend

def allocateBufferMemory {F : Type} (self : BinaryDelayEstimatorFarend) (historySize : ℕ)
    (held : Held F) : Option BinaryDelayEstimatorFarend := do
  let binaryFarHistory := Memory.realloc self.binaryFarHistory historySize held.word
  let farBitCounts := Memory.realloc self.farBitCounts historySize held.int
  -- fill with zeros what was added
  if self.historySize < historySize then
    let sizeDiff : ℤ := historySize - self.historySize
    let binaryFarHistory ← Memory.memset binaryFarHistory self.historySize sizeDiff 0
    let farBitCounts ← Memory.memset farBitCounts self.historySize sizeDiff 0
    return ⟨farBitCounts, binaryFarHistory, historySize⟩
  else return ⟨farBitCounts, binaryFarHistory, historySize⟩

def create {F : Type} (historySize : ℤ) (held : Held F) : Option BinaryDelayEstimatorFarend :=
  if 1 < historySize then (⟨[], [], 0⟩ : BinaryDelayEstimatorFarend).allocateBufferMemory
    historySize.toNat held
  else none

def init (self : BinaryDelayEstimatorFarend) : Option BinaryDelayEstimatorFarend := do
  let binaryFarHistory ← Memory.memset self.binaryFarHistory 0 self.historySize 0
  let farBitCounts ← Memory.memset self.farBitCounts 0 self.historySize 0
  return { self with binaryFarHistory, farBitCounts }

def shiftBuffer {α : Type} (l : List α) (destIndex srcIndex shiftSize paddingIndex absShift : ℤ)
    (zero : α) : Option (List α) := do
  let l ← Memory.memmove l destIndex srcIndex shiftSize
  Memory.memset l paddingIndex absShift zero

def softReset (self : BinaryDelayEstimatorFarend) (delayShift : ℤ) :
    Option BinaryDelayEstimatorFarend :=
  let absShift : ℤ := delayShift.natAbs
  let shiftSize := self.historySize - absShift
  if delayShift = 0 then some self
  else do
    let destIndex := if 0 < delayShift then absShift else 0
    let srcIndex := if 0 < delayShift then 0 else absShift
    let paddingIndex := if 0 < delayShift then 0 else shiftSize
    let binaryFarHistory ←
      shiftBuffer self.binaryFarHistory destIndex srcIndex shiftSize paddingIndex absShift 0
    let farBitCounts ←
      shiftBuffer self.farBitCounts destIndex srcIndex shiftSize paddingIndex absShift 0
    return { self with binaryFarHistory, farBitCounts }

def pushFront {α : Type} (l : List α) (size : ℕ) (a : α) : Option (List α) := do
  let l ← Memory.memmove l 1 0 ((size : ℤ) - 1)
  Memory.write l 0 a

def addSpectrum (self : BinaryDelayEstimatorFarend) (binaryFarSpectrum : UInt32) :
    Option BinaryDelayEstimatorFarend := do
  let binaryFarHistory ← pushFront self.binaryFarHistory self.historySize binaryFarSpectrum
  let farBitCounts ← pushFront self.farBitCounts self.historySize (bitCount binaryFarSpectrum)
  return { self with binaryFarHistory, farBitCounts }

end BinaryDelayEstimatorFarend

namespace BinaryDelayEstimator
variable {F : Type}

def resizeFarend (self : BinaryDelayEstimator F) (historySize : ℕ) (held : Held F) :
    Option BinaryDelayEstimatorFarend :=
  if historySize ≠ self.farend.historySize then self.farend.allocateBufferMemory historySize held
  else some self.farend

/-- `WebRtc_AllocateHistoryBufferMemory`. The last elements of the means and of the histogram are
dummies. -/
def allocateHistoryBufferMemory (ops : FloatArith F) (self : BinaryDelayEstimator F)
    (historySize : ℕ) (held : Held F) : Option (BinaryDelayEstimator F) := do
  let farend ← self.resizeFarend historySize held
  let meanBitCounts := Memory.realloc self.meanBitCounts (historySize + 1) held.int
  let bitCounts := Memory.realloc self.bitCounts historySize held.int
  let histogram := Memory.realloc self.histogram (historySize + 1) held.float
  if self.historySize < historySize then
    let sizeDiff : ℤ := historySize - self.historySize
    let meanBitCounts ← Memory.memset meanBitCounts self.historySize sizeDiff 0
    let bitCounts ← Memory.memset bitCounts self.historySize sizeDiff 0
    let histogram ← Memory.memset histogram self.historySize sizeDiff (ops.literal 0)
    return { self with meanBitCounts, bitCounts, histogram, historySize, farend }
  else return { self with meanBitCounts, bitCounts, histogram, historySize, farend }

/-- `WebRtc_CreateBinaryDelayEstimator`. The fields that are set by the initialization hold what the
memory held. -/
def create (ops : FloatArith F) (farend : BinaryDelayEstimatorFarend) (maxLookahead : ℤ)
    (held : Held F) : Option (BinaryDelayEstimator F) :=
  if 0 ≤ maxLookahead then
    let self : BinaryDelayEstimator F := {
      meanBitCounts := []
      bitCounts := []
      binaryNearHistory := Memory.realloc [] (maxLookahead + 1).toNat held.word
      nearHistorySize := (maxLookahead + 1).toNat
      historySize := 0
      minimumProbability := held.int 0
      lastDelayProbability := held.int 1
      lastDelay := held.int 2
      robustValidationEnabled := false
      allowedOffset := 0
      lastCandidateDelay := held.int 3
      compareDelay := held.int 4
      candidateHits := held.int 5
      histogram := []
      lastDelayHistogram := held.float 0
      lookahead := maxLookahead
      farend }
    self.allocateHistoryBufferMemory ops farend.historySize held
  else none

def initBuffer {α : Type} (l : List α) (historySize : ℕ) (a : α) : Option (List α) :=
  (List.range (historySize + 1)).foldlM (fun l (i : ℕ) => Memory.write l i a) l

def init (ops : FloatArith F) (self : BinaryDelayEstimator F) :
    Option (BinaryDelayEstimator F) := do
  let bitCounts ← Memory.memset self.bitCounts 0 self.historySize 0
  let binaryNearHistory ← Memory.memset self.binaryNearHistory 0 self.nearHistorySize 0
  let meanBitCounts ← initBuffer self.meanBitCounts self.historySize (20 * 2 ^ 9)
  let histogram ← initBuffer self.histogram self.historySize (ops.literal 0)
  return { self with
    bitCounts, binaryNearHistory, meanBitCounts, histogram
    minimumProbability := kMaxBitCountsQ9
    lastDelayProbability := kMaxBitCountsQ9
    lastDelay := -2
    lastCandidateDelay := -2
    compareDelay := self.historySize
    candidateHits := 0
    lastDelayHistogram := ops.literal 0 }

def softReset (self : BinaryDelayEstimator F) (delayShift : ℤ) : BinaryDelayEstimator F × ℤ :=
  let lookahead := self.lookahead - delayShift
  let lookahead := if lookahead < 0 then 0 else lookahead
  let lookahead := if (self.nearHistorySize : ℤ) - 1 < lookahead then
    (self.nearHistorySize : ℤ) - 1 else lookahead
  ({ self with lookahead }, self.lookahead - lookahead)

def setHistorySize (ops : FloatArith F) (self : BinaryDelayEstimator F) (historySize : ℤ)
    (held : Held F) : Option (BinaryDelayEstimator F × ℤ) :=
  if historySize ≤ 1 then some (self, -1)
  else (self.allocateHistoryBufferMemory ops historySize.toNat held).map fun self =>
    (self, self.historySize)

def setLookahead (self : BinaryDelayEstimator F) (lookahead : ℤ) : BinaryDelayEstimator F × ℤ :=
  if (self.nearHistorySize : ℤ) - 1 < lookahead ∨ lookahead < 0 then (self, -1)
  else ({ self with lookahead }, lookahead)

def bitCountComparison (binaryVector : UInt32) (binaryMatrix : List UInt32) (matrixSize : ℕ)
    (bitCounts : List ℤ) : Option (List ℤ) :=
  (List.range matrixSize).foldlM (fun bitCounts (n : ℕ) => do
    let row ← Memory.read binaryMatrix n
    Memory.write bitCounts n (bitCount (binaryVector ^^^ row))) bitCounts

def meanEstimatorFix (newValue : ℤ) (factor : ℕ) (meanValue : ℤ) : ℤ :=
  let diff := newValue - meanValue
  meanValue + if diff < 0 then -((-diff) / 2 ^ factor) else diff / 2 ^ factor

def updateMeanBitCounts (bitCounts farBitCounts : List ℤ) (historySize : ℕ)
    (meanBitCounts : List ℤ) : Option (List ℤ) :=
  (List.range historySize).foldlM (fun meanBitCounts (i : ℕ) => do
    let count ← Memory.read bitCounts i
    let farCount ← Memory.read farBitCounts i
    if 0 < farCount then
      let shifts := kShiftsAtZero - kShiftsLinearSlope * farCount / 2 ^ 4
      let mean ← Memory.read meanBitCounts i
      Memory.write meanBitCounts i (meanEstimatorFix (count * 2 ^ 9) shifts.toNat mean)
    else return meanBitCounts) meanBitCounts

def meanEstimatorFix? (newValue : ℤ) (factor : ℤ) (meanValue : ℤ) : Option ℤ := do
  let diff ← int32? (newValue - meanValue)
  -- a right shift by a count outside of the type is undefined
  if 0 ≤ factor ∧ factor < 32 then
    let diff ←
      if diff < 0 then do
        let positive ← int32? (-diff)
        int32? (-(positive / 2 ^ factor.toNat))
      else some (diff / 2 ^ factor.toNat)
    int32? (meanValue + diff)
  else none

def updateMeanBitCounts? (bitCounts farBitCounts : List ℤ) (historySize : ℕ)
    (meanBitCounts : List ℤ) : Option (List ℤ) :=
  (List.range historySize).foldlM (fun meanBitCounts (i : ℕ) => do
    let bitCount ← int32? ((← Memory.read bitCounts i) * 2 ^ 9)
    let farCount ← Memory.read farBitCounts i
    if 0 < farCount then
      let slope ← int32? (kShiftsLinearSlope * farCount)
      let shifts ← int32? (kShiftsAtZero - slope / 2 ^ 4)
      let mean ← meanEstimatorFix? bitCount shifts (← Memory.read meanBitCounts i)
      Memory.write meanBitCounts i mean
    else return meanBitCounts) meanBitCounts

structure Valley where
  candidateDelay : ℤ
  valueBestCandidate : ℤ
  valueWorstCandidate : ℤ

namespace Valley

def start : Valley := ⟨-1, kMaxBitCountsQ9, 0⟩

def take (v : Valley) (i : ℕ) (mean : ℤ) : Valley :=
  let v := if mean < v.valueBestCandidate then
    { v with valueBestCandidate := mean, candidateDelay := i } else v
  if v.valueWorstCandidate < mean then { v with valueWorstCandidate := mean } else v

def find (meanBitCounts : List ℤ) (historySize : ℕ) : Option Valley :=
  (List.range historySize).foldlM (fun v (i : ℕ) => do
    let mean ← Memory.read meanBitCounts i
    return v.take i mean) start

def depth (v : Valley) : ℤ := v.valueWorstCandidate - v.valueBestCandidate

end Valley

def pullNearSpectrum (self : BinaryDelayEstimator F) (binaryNearSpectrum : UInt32) :
    Option (List UInt32 × UInt32) :=
  if 1 < self.nearHistorySize then do
    let history ← BinaryDelayEstimatorFarend.pushFront self.binaryNearHistory self.nearHistorySize
      binaryNearSpectrum
    let spectrum ← Memory.read history self.lookahead
    return (history, spectrum)
  else some (self.binaryNearHistory, binaryNearSpectrum)

def updateProbabilities (self : BinaryDelayEstimator F) (v : Valley) : BinaryDelayEstimator F :=
  let threshold := max (v.valueBestCandidate + kProbabilityOffset) kProbabilityLowerLimit
  let minimumProbability :=
    if kProbabilityLowerLimit < self.minimumProbability ∧ kProbabilityMinSpread < v.depth ∧
        threshold < self.minimumProbability then threshold
    else self.minimumProbability
  { self with minimumProbability, lastDelayProbability := self.lastDelayProbability + 1 }

def isInstantaneousValid (self : BinaryDelayEstimator F) (v : Valley) : Bool :=
  decide (kProbabilityOffset < v.depth) &&
    (decide (v.valueBestCandidate < self.minimumProbability) ||
      decide (v.valueBestCandidate < self.lastDelayProbability))

def decreaseHistogram (ops : FloatArith F) (candidateDelay lastDelay : ℤ)
    (decreaseInLastSet valleyDepth : F) (historySize : ℕ) (histogram : List F) : Option (List F) :=
  (List.range historySize).foldlM (fun histogram (i : ℕ) => do
    let isInLastSet := decide (lastDelay - 2 ≤ i) && decide ((i : ℤ) ≤ lastDelay + 1) &&
      decide ((i : ℤ) ≠ candidateDelay)
    let isInCandidateSet := decide (candidateDelay - 2 ≤ i) && decide ((i : ℤ) ≤ candidateDelay + 1)
    let decrease := ops.add (ops.mul decreaseInLastSet (ops.ofInt isInLastSet.toNat))
      (ops.mul valleyDepth (ops.ofInt (!isInLastSet && !isInCandidateSet).toNat))
    let h ← Memory.read histogram i
    let h := ops.sub h decrease
    Memory.write histogram i (if ops.lt h (ops.literal 0) then ops.literal 0 else h)) histogram

def decreaseInLastSet (ops : FloatArith F) (self : BinaryDelayEstimator F)
    (candidateDelay candidateHits valleyLevelQ14 : ℤ) (valleyDepth : F) : Option F :=
  let maxHitsForSlowChange := if candidateDelay < self.lastDelay then kMaxHitsWhenPossiblyNonCausal
    else kMaxHitsWhenPossiblyCausal
  if candidateHits < maxHitsForSlowChange then
    (Memory.read self.meanBitCounts self.compareDelay).map fun mean =>
      ops.mul (ops.ofInt (mean - valleyLevelQ14)) (kQ14Scaling ops)
  else some valleyDepth

def updateRobustValidationStatistics (ops : FloatArith F) (self : BinaryDelayEstimator F)
    (candidateDelay valleyDepthQ14 valleyLevelQ14 : ℤ) : Option (BinaryDelayEstimator F) := do
  let valleyDepth := ops.mul (ops.ofInt valleyDepthQ14) (kQ14Scaling ops)
  let candidateHits :=
    if candidateDelay ≠ self.lastCandidateDelay then 1 else self.candidateHits + 1
  let h ← Memory.read self.histogram candidateDelay
  let h := ops.add h valleyDepth
  let histogram ← Memory.write self.histogram candidateDelay
    (if ops.lt (kHistogramMax ops) h then kHistogramMax ops else h)
  let decrease ←
    self.decreaseInLastSet ops candidateDelay candidateHits valleyLevelQ14 valleyDepth
  let histogram ← decreaseHistogram ops candidateDelay self.lastDelay decrease valleyDepth
    self.historySize histogram
  return { self with candidateHits, lastCandidateDelay := candidateDelay, histogram }

def histogramFraction (ops : FloatArith F) (delayDifference allowedOffset : ℤ) : F :=
  if allowedOffset < delayDifference then
    let fraction := ops.sub (ops.literal 1)
      (ops.mul (kFractionSlope ops) (ops.ofInt (delayDifference - allowedOffset)))
    if ops.lt (kMinFractionWhenPossiblyCausal ops) fraction then fraction
    else kMinFractionWhenPossiblyCausal ops
  else if delayDifference < 0 then
    let fraction := ops.sub (kMinFractionWhenPossiblyNonCausal ops)
      (ops.mul (kFractionSlope ops) (ops.ofInt delayDifference))
    if ops.lt (ops.literal 1) fraction then ops.literal 1 else fraction
  else ops.literal 1

def histogramBasedValidation (ops : FloatArith F) (self : BinaryDelayEstimator F)
    (candidateDelay : ℤ) : Option Bool := do
  let threshold ← Memory.read self.histogram self.compareDelay
  let fraction := histogramFraction ops (candidateDelay - self.lastDelay) self.allowedOffset
  let threshold := ops.mul threshold fraction
  let threshold := if ops.lt (kMinHistogramThreshold ops) threshold then threshold
    else kMinHistogramThreshold ops
  let h ← Memory.read self.histogram candidateDelay
  return ops.le threshold h && decide (kMinRequiredHits < self.candidateHits)

def robustValidation (ops : FloatArith F) (self : BinaryDelayEstimator F) (candidateDelay : ℤ)
    (isInstantaneousValid isHistogramValid : Bool) : Option Bool := do
  let isStrong ←
    if isHistogramValid then
      (Memory.read self.histogram candidateDelay).map fun h => ops.lt self.lastDelayHistogram h
    else some false
  return decide (self.lastDelay < 0) && (isInstantaneousValid || isHistogramValid) ||
    isInstantaneousValid && isHistogramValid || isStrong

def adjustHistogram (ops : FloatArith F) (self : BinaryDelayEstimator F) (candidateDelay : ℤ) :
    Option (BinaryDelayEstimator F) := do
  let h ← Memory.read self.histogram candidateDelay
  let lastDelayHistogram := if ops.lt (kLastHistogramMax ops) h then kLastHistogramMax ops else h
  let compared ← Memory.read self.histogram self.compareDelay
  let histogram ←
    if ops.lt h compared then Memory.write self.histogram self.compareDelay h
    else some self.histogram
  return { self with histogram, lastDelayHistogram }

def updateDelay (ops : FloatArith F) (self : BinaryDelayEstimator F) (v : Valley) :
    Option (BinaryDelayEstimator F) := do
  let self ← if v.candidateDelay ≠ self.lastDelay then self.adjustHistogram ops v.candidateDelay
    else some self
  return { self with
    lastDelay := v.candidateDelay
    lastDelayProbability := min self.lastDelayProbability v.valueBestCandidate
    compareDelay := v.candidateDelay }

def nonStationaryFarend (self : BinaryDelayEstimator F) : Option Bool :=
  if self.historySize ≤ self.farend.farBitCounts.length then
    some ((self.farend.farBitCounts.take self.historySize).any fun a => decide (0 < a))
  else none

def updateStatistics (ops : FloatArith F) (self : BinaryDelayEstimator F) (nonStationary : Bool)
    (v : Valley) : Option (BinaryDelayEstimator F) :=
  if nonStationary then
    self.updateRobustValidationStatistics ops v.candidateDelay v.depth v.valueBestCandidate
  else some self

def isValidCandidate (ops : FloatArith F) (self : BinaryDelayEstimator F) (candidateDelay : ℤ)
    (isInstantaneousValid : Bool) : Option Bool :=
  if self.robustValidationEnabled then do
    let isHistogramValid ← self.histogramBasedValidation ops candidateDelay
    self.robustValidation ops candidateDelay isInstantaneousValid isHistogramValid
  else some isInstantaneousValid

def validate (ops : FloatArith F) (self : BinaryDelayEstimator F) (v : Valley) :
    Option (BinaryDelayEstimator F) := do
  let isInstantaneousValid := self.isInstantaneousValid v
  let nonStationary ← self.nonStationaryFarend
  let self ← self.updateStatistics ops nonStationary v
  let isValid ← self.isValidCandidate ops v.candidateDelay isInstantaneousValid
  if nonStationary && isValid then self.updateDelay ops v else return self

/-- What `WebRtc_ProcessBinarySpectrum` does up to the candidate, with the update of the means as a
parameter. -/
def findCandidate (update : List ℤ → List ℤ → ℕ → List ℤ → Option (List ℤ))
    (self : BinaryDelayEstimator F) (binaryNearSpectrum : UInt32) :
    Option (BinaryDelayEstimator F × Valley) := do
  let (binaryNearHistory, spectrum) ← self.pullNearSpectrum binaryNearSpectrum
  let bitCounts ← bitCountComparison spectrum self.farend.binaryFarHistory self.historySize
    self.bitCounts
  let meanBitCounts ← update bitCounts self.farend.farBitCounts self.historySize self.meanBitCounts
  let v ← Valley.find meanBitCounts self.historySize
  return ({ self with binaryNearHistory, bitCounts, meanBitCounts }, v)

def processBinarySpectrum (ops : FloatArith F) (self : BinaryDelayEstimator F)
    (binaryNearSpectrum : UInt32) : Option (BinaryDelayEstimator F × ℤ) :=
  if self.farend.historySize ≠ self.historySize then some (self, -1)
  else do
    let (self, v) ← self.findCandidate updateMeanBitCounts binaryNearSpectrum
    let self ← (self.updateProbabilities v).validate ops v
    return (self, self.lastDelay)

inductive Call (F : Type) where
  | addBinaryFarSpectrum (binaryFarSpectrum : UInt32)
  | processBinarySpectrum (binaryNearSpectrum : UInt32)
  | softResetFarend (delayShift : ℤ)
  | softReset (delayShift : ℤ)
  | setLookahead (lookahead : ℤ)
  | setHistorySize (historySize : ℤ) (held : Held F)

def step (ops : FloatArith F) (self : BinaryDelayEstimator F) :
    Call F → Option (BinaryDelayEstimator F)
  | .addBinaryFarSpectrum s => (self.farend.addSpectrum s).map fun farend => { self with farend }
  | .processBinarySpectrum s => (self.processBinarySpectrum ops s).map Prod.fst
  | .softResetFarend shift => (self.farend.softReset shift).map fun farend => { self with farend }
  | .softReset shift => some (self.softReset shift).1
  | .setLookahead lookahead => some (self.setLookahead lookahead).1
  | .setHistorySize size held => (self.setHistorySize ops size held).map Prod.fst

end BinaryDelayEstimator

end WebRtcAudio.Utility
