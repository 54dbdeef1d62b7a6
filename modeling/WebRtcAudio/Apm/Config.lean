import Mathlib.Algebra.Order.Ring.Rat

/-! `AudioProcessing::Config`, with the defaults of a build that is neither for ARM nor for
Chromium. -/
namespace WebRtcAudio.Apm

inductive FloatVal
  | nan
  | negInf
  | finite (q : ℚ)
  | posInf
  deriving DecidableEq

namespace FloatVal

def ne : FloatVal → FloatVal → Bool
  | .nan, _ => true
  | a, b => a ≠ b

def le : FloatVal → FloatVal → Bool
  | .nan, _ => false
  | _, .nan => false
  | .negInf, _ => true
  | _, .posInf => true
  | .finite p, .finite q => p ≤ q
  | _, _ => false

def lt (a b : FloatVal) : Bool := a.le b && a.ne b

theorem ne_self (a : FloatVal) : a.ne a = decide (a = .nan) := by
  cases a <;> simp [ne]

end FloatVal

structure Config.Pipeline where
  maximumInternalProcessingRate : ℤ := 48000
  multiChannelRender : Bool := false
  multiChannelCapture : Bool := false
  deriving DecidableEq

structure Config.PreAmplifier where
  enabled : Bool := false
  fixedGainFactor : FloatVal := .finite 1
  deriving DecidableEq

structure Config.HighPassFilter where
  enabled : Bool := false
  applyInFullBand : Bool := true
  deriving DecidableEq

structure Config.EchoCanceller where
  enabled : Bool := false
  mobileMode : Bool := false
  exportLinearAecOutput : Bool := false
  enforceHighPassFiltering : Bool := true
  deriving DecidableEq

inductive Config.NoiseSuppressionLevel
  | kLow
  | kModerate
  | kHigh
  | kVeryHigh
  deriving DecidableEq

structure Config.NoiseSuppression where
  enabled : Bool := false
  level : Config.NoiseSuppressionLevel := .kModerate
  analyzeLinearAecOutputWhenAvailable : Bool := false
  deriving DecidableEq

inductive Config.AgcMode
  | kAdaptiveAnalog
  | kAdaptiveDigital
  | kFixedDigital
  deriving DecidableEq

structure Config.AnalogGainController where
  enabled : Bool := true
  startupMinVolume : ℤ := 0
  clippedLevelMin : ℤ := 70
  enableAgc2LevelEstimator : Bool := false
  enableDigitalAdaptive : Bool := true
  deriving DecidableEq

structure Config.GainController1 where
  enabled : Bool := false
  mode : Config.AgcMode := .kAdaptiveAnalog
  targetLevelDbfs : ℤ := 3
  compressionGainDb : ℤ := 9
  enableLimiter : Bool := true
  analogLevelMinimum : ℤ := 0
  analogLevelMaximum : ℤ := 255
  analogGainController : Config.AnalogGainController := {}
  deriving DecidableEq

inductive Config.LevelEstimator
  | kRms
  | kPeak
  deriving DecidableEq

structure Config.AdaptiveDigital where
  enabled : Bool := false
  levelEstimator : Config.LevelEstimator := .kRms
  useSaturationProtector : Bool := true
  extraSaturationMarginDb : FloatVal := .finite 2
  deriving DecidableEq

structure Config.GainController2 where
  enabled : Bool := false
  fixedDigitalGainDb : FloatVal := .finite 0
  adaptiveDigital : Config.AdaptiveDigital := {}
  deriving DecidableEq

def Config.GainController2.validate (c : Config.GainController2) : Bool :=
  (FloatVal.finite 0).le c.fixedDigitalGainDb && c.fixedDigitalGainDb.lt (.finite 50) &&
    (FloatVal.finite 0).le c.adaptiveDigital.extraSaturationMarginDb &&
      c.adaptiveDigital.extraSaturationMarginDb.le (.finite 100)

structure Config where
  pipeline : Config.Pipeline := {}
  preAmplifier : Config.PreAmplifier := {}
  highPassFilter : Config.HighPassFilter := {}
  echoCanceller : Config.EchoCanceller := {}
  noiseSuppression : Config.NoiseSuppression := {}
  transientSuppressionEnabled : Bool := false
  voiceDetectionEnabled : Bool := false
  gainController1 : Config.GainController1 := {}
  gainController2 : Config.GainController2 := {}
  residualEchoDetectorEnabled : Bool := true
  levelEstimationEnabled : Bool := false
  deriving DecidableEq

structure ConfigChanges where
  pipeline : Bool
  aec : Bool
  agc1 : Bool
  agc2 : Bool
  voiceDetection : Bool
  ns : Bool
  ts : Bool
  preAmplifier : Bool

def Config.changes (old new : Config) : ConfigChanges where
  pipeline := old.pipeline ≠ new.pipeline
  aec := old.echoCanceller.enabled ≠ new.echoCanceller.enabled ∨
    old.echoCanceller.mobileMode ≠ new.echoCanceller.mobileMode
  agc1 := old.gainController1 ≠ new.gainController1
  agc2 := old.gainController2.enabled ≠ new.gainController2.enabled
  voiceDetection := old.voiceDetectionEnabled ≠ new.voiceDetectionEnabled
  ns := old.noiseSuppression.enabled ≠ new.noiseSuppression.enabled ∨
    old.noiseSuppression.level ≠ new.noiseSuppression.level
  ts := old.transientSuppressionEnabled ≠ new.transientSuppressionEnabled
  preAmplifier := old.preAmplifier.enabled ≠ new.preAmplifier.enabled ∨
    old.preAmplifier.fixedGainFactor.ne new.preAmplifier.fixedGainFactor

theorem Config.changes_self (c : Config) :
    c.changes c = ⟨false, false, false, false, false, false, false,
      decide (c.preAmplifier.fixedGainFactor = .nan)⟩ := by
  simp [changes, FloatVal.ne_self]

theorem Config.changes_preAmplifier_of_nan (old new : Config)
    (h : new.preAmplifier.fixedGainFactor = .nan) : (old.changes new).preAmplifier = true := by
  simp only [changes, h, decide_eq_true_eq]
  right
  cases old.preAmplifier.fixedGainFactor <;> rfl

def Config.revertInvalidGainController2 (c : Config) : Config :=
  if c.gainController2.validate then c else { c with gainController2 := {} }

theorem Config.revertInvalidGainController2_eq (c : Config) :
    ∃ agc2, c.revertInvalidGainController2 = { c with gainController2 := agc2 } := by
  unfold revertInvalidGainController2
  split
  · exact ⟨c.gainController2, rfl⟩
  · exact ⟨{}, rfl⟩

end WebRtcAudio.Apm
