import WebRtcAudio.Apm.Config
import WebRtcAudio.Aec3.MatchedFilterLagAggregator

/-! `EchoCanceller3Config` and its `Validate`. A literal of type `float` stands for its decimal
value. -/
namespace WebRtcAudio.Aec3

open Apm (FloatVal)

def limit {α : Type*} [LE α] [DecidableLE α] [DecidableEq α] (value min max : α) : α × Bool :=
  let clamped := if value ≤ min then min else if max ≤ value then max else value
  (clamped, value = clamped)

def limitFloat (value : FloatVal) (min max : ℚ) : FloatVal × Bool :=
  let clamped := if value.le (.finite min) then .finite min
    else if (FloatVal.finite max).le value then .finite max else value
  let clamped := match clamped with
    | .finite q => .finite q
    | _ => FloatVal.finite min
  (clamped, !value.ne clamped)

def floorLimit (value min : ℕ) : ℕ × Bool :=
  let clamped := if min ≤ value then value else min
  (clamped, value = clamped)

namespace EchoCanceller3Config

structure Delay where
  defaultDelay : ℕ := 5
  downSamplingFactor : ℕ := 4
  numFilters : ℕ := 5
  delayHeadroomSamples : ℕ := 32
  hysteresisLimitBlocks : ℕ := 1
  fixedCaptureDelaySamples : ℕ := 0
  delayEstimateSmoothing : FloatVal := .finite 0.7
  delayCandidateDetectionThreshold : FloatVal := .finite 0.2
  delaySelectionThresholds : DelaySelectionThresholds := {}
  deriving DecidableEq

structure RefinedConfiguration where
  lengthBlocks : ℕ
  leakageConverged : FloatVal
  leakageDiverged : FloatVal
  errorFloor : FloatVal
  errorCeil : FloatVal
  noiseGate : FloatVal
  deriving DecidableEq

structure CoarseConfiguration where
  lengthBlocks : ℕ
  rate : FloatVal
  noiseGate : FloatVal
  deriving DecidableEq

structure Filter where
  main : RefinedConfiguration :=
    ⟨13, .finite 0.00005, .finite 0.05, .finite 0.001, .finite 2, .finite 20075344⟩
  shadow : CoarseConfiguration := ⟨13, .finite 0.7, .finite 20075344⟩
  refined : RefinedConfiguration :=
    ⟨13, .finite 0.00005, .finite 0.05, .finite 0.001, .finite 2, .finite 20075344⟩
  coarse : CoarseConfiguration := ⟨13, .finite 0.7, .finite 20075344⟩
  mainInitial : RefinedConfiguration :=
    ⟨12, .finite 0.005, .finite 0.5, .finite 0.001, .finite 2, .finite 20075344⟩
  shadowInitial : CoarseConfiguration := ⟨12, .finite 0.9, .finite 20075344⟩
  refinedInitial : RefinedConfiguration :=
    ⟨12, .finite 0.005, .finite 0.5, .finite 0.001, .finite 2, .finite 20075344⟩
  coarseInitial : CoarseConfiguration := ⟨12, .finite 0.9, .finite 20075344⟩
  configChangeDurationBlocks : ℕ := 250
  initialStateSeconds : FloatVal := .finite 2.5
  deriving DecidableEq

structure Erle where
  min : FloatVal := .finite 1
  maxL : FloatVal := .finite 4
  maxH : FloatVal := .finite 1.5
  numSections : ℕ := 1
  deriving DecidableEq

structure EpStrength where
  defaultGain : FloatVal := .finite 1
  defaultLen : FloatVal := .finite 0.83
  deriving DecidableEq

structure EchoAudibility where
  lowRenderLimit : FloatVal := .finite (4 * 64)
  normalRenderLimit : FloatVal := .finite 64
  floorPower : FloatVal := .finite (2 * 64)
  audibilityThresholdLf : FloatVal := .finite 10
  audibilityThresholdMf : FloatVal := .finite 10
  audibilityThresholdHf : FloatVal := .finite 10
  deriving DecidableEq

structure RenderLevels where
  activeRenderLimit : FloatVal := .finite 100
  poorExcitationRenderLimit : FloatVal := .finite 150
  poorExcitationRenderLimitDs8 : FloatVal := .finite 20
  deriving DecidableEq

structure EchoModel where
  noiseFloorHold : ℕ := 50
  minNoiseFloorPower : FloatVal := .finite 1638400
  stationaryGateSlope : FloatVal := .finite 10
  noiseGatePower : FloatVal := .finite 27509.42
  noiseGateSlope : FloatVal := .finite 0.3
  renderPreWindowSize : ℕ := 1
  renderPostWindowSize : ℕ := 1
  deriving DecidableEq

structure MaskingThresholds where
  enrTransparent : FloatVal
  enrSuppress : FloatVal
  emrTransparent : FloatVal
  deriving DecidableEq

structure Tuning where
  maskLf : MaskingThresholds
  maskHf : MaskingThresholds
  maxIncFactor : FloatVal
  maxDecFactorLf : FloatVal
  deriving DecidableEq

structure DominantNearendDetection where
  enrThreshold : FloatVal := .finite 0.25
  snrThreshold : FloatVal := .finite 30
  holdDuration : ℤ := 50
  triggerThreshold : ℤ := 12
  deriving DecidableEq

structure SubbandRegion where
  low : ℕ := 1
  high : ℕ := 1
  deriving DecidableEq

structure SubbandNearendDetection where
  nearendAverageBlocks : ℕ := 1
  subband1 : SubbandRegion := {}
  subband2 : SubbandRegion := {}
  nearendThreshold : FloatVal := .finite 1
  snrThreshold : FloatVal := .finite 1
  deriving DecidableEq

structure HighBandsSuppression where
  enrThreshold : FloatVal := .finite 1
  maxGainDuringEcho : FloatVal := .finite 1
  antiHowlingActivationThreshold : FloatVal := .finite 25
  antiHowlingGain : FloatVal := .finite 0.01
  deriving DecidableEq

structure Suppressor where
  nearendAverageBlocks : ℕ := 4
  normalTuning : Tuning :=
    ⟨⟨.finite 0.3, .finite 0.4, .finite 0.3⟩, ⟨.finite 0.07, .finite 0.1, .finite 0.3⟩,
      .finite 2, .finite 0.25⟩
  nearendTuning : Tuning :=
    ⟨⟨.finite 1.09, .finite 1.1, .finite 0.3⟩, ⟨.finite 0.1, .finite 0.3, .finite 0.3⟩,
      .finite 2, .finite 0.25⟩
  dominantNearendDetection : DominantNearendDetection := {}
  subbandNearendDetection : SubbandNearendDetection := {}
  highBandsSuppression : HighBandsSuppression := {}
  floorFirstIncrease : FloatVal := .finite 0.00001
  deriving DecidableEq

end EchoCanceller3Config

open EchoCanceller3Config in
structure EchoCanceller3Config where
  delay : Delay := {}
  filter : Filter := {}
  erle : Erle := {}
  epStrength : EpStrength := {}
  echoAudibility : EchoAudibility := {}
  renderLevels : RenderLevels := {}
  echoModel : EchoModel := {}
  /-- `comfort_noise.noise_floor_dbfs`. -/
  noiseFloorDbfs : FloatVal := .finite (-96.03406)
  suppressor : Suppressor := {}
  deriving DecidableEq

namespace EchoCanceller3Config

/-- The checks of a part: its new value, and whether it is as before. Each line of the source is one
entry, in the order of the fields. -/
def Delay.validate (d : Delay) : Delay × Bool :=
  let factorOk : Bool := d.downSamplingFactor = 4 ∨ d.downSamplingFactor = 8
  let defaultDelay := limit d.defaultDelay 0 5000
  let numFilters := limit d.numFilters 0 5000
  let delayHeadroomSamples := limit d.delayHeadroomSamples 0 5000
  let hysteresisLimitBlocks := limit d.hysteresisLimitBlocks 0 5000
  let fixedCaptureDelaySamples := limit d.fixedCaptureDelaySamples 0 5000
  let delayEstimateSmoothing := limitFloat d.delayEstimateSmoothing 0 1
  let delayCandidateDetectionThreshold := limitFloat d.delayCandidateDetectionThreshold 0 1
  let initial := limit d.delaySelectionThresholds.initial 1 250
  let converged := limit d.delaySelectionThresholds.converged 1 250
  (⟨defaultDelay.1, if factorOk then d.downSamplingFactor else 4, numFilters.1,
      delayHeadroomSamples.1, hysteresisLimitBlocks.1, fixedCaptureDelaySamples.1,
      delayEstimateSmoothing.1, delayCandidateDetectionThreshold.1, ⟨initial.1, converged.1⟩⟩,
    factorOk && defaultDelay.2 && numFilters.2 && delayHeadroomSamples.2 &&
      hysteresisLimitBlocks.2 && fixedCaptureDelaySamples.2 && delayEstimateSmoothing.2 &&
      delayCandidateDetectionThreshold.2 && initial.2 && converged.2)

def RefinedConfiguration.validate (r : RefinedConfiguration) : RefinedConfiguration × Bool :=
  let lengthBlocks := floorLimit r.lengthBlocks 1
  let leakageConverged := limitFloat r.leakageConverged 0 1000
  let leakageDiverged := limitFloat r.leakageDiverged 0 1000
  let errorFloor := limitFloat r.errorFloor 0 1000
  let errorCeil := limitFloat r.errorCeil 0 100000000
  let noiseGate := limitFloat r.noiseGate 0 100000000
  (⟨lengthBlocks.1, leakageConverged.1, leakageDiverged.1, errorFloor.1, errorCeil.1, noiseGate.1⟩,
    lengthBlocks.2 && leakageConverged.2 && leakageDiverged.2 && errorFloor.2 && errorCeil.2 &&
      noiseGate.2)

def CoarseConfiguration.validate (r : CoarseConfiguration) : CoarseConfiguration × Bool :=
  let lengthBlocks := floorLimit r.lengthBlocks 1
  let rate := limitFloat r.rate 0 1
  let noiseGate := limitFloat r.noiseGate 0 100000000
  (⟨lengthBlocks.1, rate.1, noiseGate.1⟩, lengthBlocks.2 && rate.2 && noiseGate.2)

def initialLength (length initial : ℕ) : ℕ × Bool :=
  if length < initial then (length, false) else (initial, true)

def validateRefined (filter initial : RefinedConfiguration) :
    RefinedConfiguration × RefinedConfiguration × Bool :=
  let f := filter.validate
  let i := initial.validate
  let lengthBlocks := initialLength f.1.lengthBlocks i.1.lengthBlocks
  (f.1, { i.1 with lengthBlocks := lengthBlocks.1 }, f.2 && i.2 && lengthBlocks.2)

def validateCoarse (filter initial : CoarseConfiguration) :
    CoarseConfiguration × CoarseConfiguration × Bool :=
  let f := filter.validate
  let i := initial.validate
  let lengthBlocks := initialLength f.1.lengthBlocks i.1.lengthBlocks
  (f.1, { i.1 with lengthBlocks := lengthBlocks.1 }, f.2 && i.2 && lengthBlocks.2)

def Filter.validate (f : Filter) : Filter × Bool :=
  let main := validateRefined f.main f.mainInitial
  let refined := validateRefined f.refined f.refinedInitial
  let shadow := validateCoarse f.shadow f.shadowInitial
  let coarse := validateCoarse f.coarse f.coarseInitial
  let configChangeDurationBlocks := limit f.configChangeDurationBlocks 0 100000
  let initialStateSeconds := limitFloat f.initialStateSeconds 0 100
  (⟨main.1, shadow.1, refined.1, coarse.1, main.2.1, shadow.2.1, refined.2.1, coarse.2.1,
      configChangeDurationBlocks.1, initialStateSeconds.1⟩,
    main.2.2 && refined.2.2 && shadow.2.2 && coarse.2.2 && configChangeDurationBlocks.2 &&
      initialStateSeconds.2)

def minFloat (a b : FloatVal) : FloatVal := if b.lt a then b else a

/-- The lower limit of the ERLE is not above the upper ones. There are not more sections than
blocks in either filter. -/
def Erle.validate (e : Erle) (filter : Filter) : Erle × Bool :=
  let min := limitFloat e.min 1 100000
  let maxL := limitFloat e.maxL 1 100000
  let maxH := limitFloat e.maxH 1 100000
  let above : Bool := maxL.1.lt min.1 || maxH.1.lt min.1
  let numSections := limit e.numSections 1 filter.main.lengthBlocks
  let numSections' := limit numSections.1 1 filter.refined.lengthBlocks
  (⟨if above then minFloat maxL.1 maxH.1 else min.1, maxL.1, maxH.1, numSections'.1⟩,
    min.2 && maxL.2 && maxH.2 && !above && numSections.2 && numSections'.2)

def EpStrength.validate (e : EpStrength) : EpStrength × Bool :=
  let defaultGain := limitFloat e.defaultGain 0 1000000
  let defaultLen := limitFloat e.defaultLen (-1) 1
  (⟨defaultGain.1, defaultLen.1⟩, defaultGain.2 && defaultLen.2)

def maxPower : ℚ := 32768 * 32768

def EchoAudibility.validate (e : EchoAudibility) : EchoAudibility × Bool :=
  let lowRenderLimit := limitFloat e.lowRenderLimit 0 maxPower
  let normalRenderLimit := limitFloat e.normalRenderLimit 0 maxPower
  let floorPower := limitFloat e.floorPower 0 maxPower
  let audibilityThresholdLf := limitFloat e.audibilityThresholdLf 0 maxPower
  let audibilityThresholdMf := limitFloat e.audibilityThresholdMf 0 maxPower
  let audibilityThresholdHf := limitFloat e.audibilityThresholdHf 0 maxPower
  (⟨lowRenderLimit.1, normalRenderLimit.1, floorPower.1, audibilityThresholdLf.1,
      audibilityThresholdMf.1, audibilityThresholdHf.1⟩,
    lowRenderLimit.2 && normalRenderLimit.2 && floorPower.2 && audibilityThresholdLf.2 &&
      audibilityThresholdMf.2 && audibilityThresholdHf.2)

def RenderLevels.validate (r : RenderLevels) : RenderLevels × Bool :=
  let activeRenderLimit := limitFloat r.activeRenderLimit 0 maxPower
  let poorExcitationRenderLimit := limitFloat r.poorExcitationRenderLimit 0 maxPower
  let poorExcitationRenderLimitDs8 := limitFloat r.poorExcitationRenderLimitDs8 0 maxPower
  (⟨activeRenderLimit.1, poorExcitationRenderLimit.1, poorExcitationRenderLimitDs8.1⟩,
    activeRenderLimit.2 && poorExcitationRenderLimit.2 && poorExcitationRenderLimitDs8.2)

def EchoModel.validate (e : EchoModel) : EchoModel × Bool :=
  let noiseFloorHold := limit e.noiseFloorHold 0 1000
  let minNoiseFloorPower := limitFloat e.minNoiseFloorPower 0 2000000
  let stationaryGateSlope := limitFloat e.stationaryGateSlope 0 1000000
  let noiseGatePower := limitFloat e.noiseGatePower 0 1000000
  let noiseGateSlope := limitFloat e.noiseGateSlope 0 1000000
  let renderPreWindowSize := limit e.renderPreWindowSize 0 100
  let renderPostWindowSize := limit e.renderPostWindowSize 0 100
  (⟨noiseFloorHold.1, minNoiseFloorPower.1, stationaryGateSlope.1, noiseGatePower.1,
      noiseGateSlope.1, renderPreWindowSize.1, renderPostWindowSize.1⟩,
    noiseFloorHold.2 && minNoiseFloorPower.2 && stationaryGateSlope.2 && noiseGatePower.2 &&
      noiseGateSlope.2 && renderPreWindowSize.2 && renderPostWindowSize.2)

def MaskingThresholds.validate (m : MaskingThresholds) : MaskingThresholds × Bool :=
  let enrTransparent := limitFloat m.enrTransparent 0 100
  let enrSuppress := limitFloat m.enrSuppress 0 100
  let emrTransparent := limitFloat m.emrTransparent 0 100
  (⟨enrTransparent.1, enrSuppress.1, emrTransparent.1⟩,
    enrTransparent.2 && enrSuppress.2 && emrTransparent.2)

def Tuning.validate (t : Tuning) : Tuning × Bool :=
  let maskLf := t.maskLf.validate
  let maskHf := t.maskHf.validate
  let maxIncFactor := limitFloat t.maxIncFactor 0 100
  let maxDecFactorLf := limitFloat t.maxDecFactorLf 0 100
  (⟨maskLf.1, maskHf.1, maxIncFactor.1, maxDecFactorLf.1⟩,
    maskLf.2 && maskHf.2 && maxIncFactor.2 && maxDecFactorLf.2)

def DominantNearendDetection.validate (d : DominantNearendDetection) :
    DominantNearendDetection × Bool :=
  let enrThreshold := limitFloat d.enrThreshold 0 1000000
  let snrThreshold := limitFloat d.snrThreshold 0 1000000
  let holdDuration := limit d.holdDuration 0 10000
  let triggerThreshold := limit d.triggerThreshold 0 10000
  (⟨enrThreshold.1, snrThreshold.1, holdDuration.1, triggerThreshold.1⟩,
    enrThreshold.2 && snrThreshold.2 && holdDuration.2 && triggerThreshold.2)

def SubbandRegion.validate (r : SubbandRegion) : SubbandRegion × Bool :=
  let low := limit r.low 0 65
  let high := limit r.high low.1 65
  (⟨low.1, high.1⟩, low.2 && high.2)

def maxThreshold : ℚ := 1000000013848427855085568

def SubbandNearendDetection.validate (s : SubbandNearendDetection) :
    SubbandNearendDetection × Bool :=
  let nearendAverageBlocks := limit s.nearendAverageBlocks 1 1024
  let subband1 := s.subband1.validate
  let subband2 := s.subband2.validate
  let nearendThreshold := limitFloat s.nearendThreshold 0 maxThreshold
  let snrThreshold := limitFloat s.snrThreshold 0 maxThreshold
  (⟨nearendAverageBlocks.1, subband1.1, subband2.1, nearendThreshold.1, snrThreshold.1⟩,
    nearendAverageBlocks.2 && subband1.2 && subband2.2 && nearendThreshold.2 && snrThreshold.2)

def HighBandsSuppression.validate (h : HighBandsSuppression) : HighBandsSuppression × Bool :=
  let enrThreshold := limitFloat h.enrThreshold 0 1000000
  let maxGainDuringEcho := limitFloat h.maxGainDuringEcho 0 1
  let antiHowlingActivationThreshold := limitFloat h.antiHowlingActivationThreshold 0 maxPower
  let antiHowlingGain := limitFloat h.antiHowlingGain 0 1
  (⟨enrThreshold.1, maxGainDuringEcho.1, antiHowlingActivationThreshold.1, antiHowlingGain.1⟩,
    enrThreshold.2 && maxGainDuringEcho.2 && antiHowlingActivationThreshold.2 && antiHowlingGain.2)

def Suppressor.validate (s : Suppressor) : Suppressor × Bool :=
  let nearendAverageBlocks := limit s.nearendAverageBlocks 1 5000
  let normalTuning := s.normalTuning.validate
  let nearendTuning := s.nearendTuning.validate
  let dominantNearendDetection := s.dominantNearendDetection.validate
  let subbandNearendDetection := s.subbandNearendDetection.validate
  let highBandsSuppression := s.highBandsSuppression.validate
  let floorFirstIncrease := limitFloat s.floorFirstIncrease 0 1000000
  (⟨nearendAverageBlocks.1, normalTuning.1, nearendTuning.1, dominantNearendDetection.1,
      subbandNearendDetection.1, highBandsSuppression.1, floorFirstIncrease.1⟩,
    nearendAverageBlocks.2 && normalTuning.2 && nearendTuning.2 && dominantNearendDetection.2 &&
      subbandNearendDetection.2 && highBandsSuppression.2 && floorFirstIncrease.2)

/-- `Validate`: the config with its parameters inside of their ranges, and whether it is as
before. -/
def validate (c : EchoCanceller3Config) : EchoCanceller3Config × Bool :=
  let delay := c.delay.validate
  let filter := c.filter.validate
  let erle := c.erle.validate filter.1
  let epStrength := c.epStrength.validate
  let echoAudibility := c.echoAudibility.validate
  let renderLevels := c.renderLevels.validate
  let echoModel := c.echoModel.validate
  let noiseFloorDbfs := limitFloat c.noiseFloorDbfs (-200) 0
  let suppressor := c.suppressor.validate
  (⟨delay.1, filter.1, erle.1, epStrength.1, echoAudibility.1, renderLevels.1, echoModel.1,
      noiseFloorDbfs.1, suppressor.1⟩,
    delay.2 && filter.2 && erle.2 && epStrength.2 && echoAudibility.2 && renderLevels.2 &&
      echoModel.2 && noiseFloorDbfs.2 && suppressor.2)

/-- The default config is valid. -/
example : validate {} = ({}, true) := by decide +kernel

end EchoCanceller3Config

end WebRtcAudio.Aec3
