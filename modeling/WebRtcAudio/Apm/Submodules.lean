import WebRtcAudio.Apm.Config

/-! The submodules as the parameters they were set up with, and the stream formats. -/
namespace WebRtcAudio.Apm

inductive ErrorCode
  | kNoError
  | kUnspecifiedError
  | kCreationFailedError
  | kUnsupportedComponentError
  | kUnsupportedFunctionError
  | kNullPointerError
  | kBadParameterError
  | kBadSampleRateError
  | kBadDataLengthError
  | kBadNumberChannelsError
  | kFileError
  | kStreamParameterNotSetError
  | kNotEnabledError
  | kBadStreamParameterWarning
  deriving DecidableEq

structure StreamConfig where
  sampleRateHz : ℤ
  numChannels : ℕ
  hasKeyboard : Bool := false
  deriving DecidableEq

structure ProcessingConfig where
  inputStream : StreamConfig := ⟨16000, 1, false⟩
  outputStream : StreamConfig := ⟨16000, 1, false⟩
  reverseInputStream : StreamConfig := ⟨16000, 1, false⟩
  reverseOutputStream : StreamConfig := ⟨16000, 1, false⟩
  deriving DecidableEq

def ProcessingConfig.streams (p : ProcessingConfig) : List StreamConfig :=
  [p.inputStream, p.outputStream, p.reverseInputStream, p.reverseOutputStream]

def ProcessingConfig.check (p : ProcessingConfig) : ErrorCode :=
  if p.streams.any fun stream => 0 < stream.numChannels && stream.sampleRateHz ≤ 0 then
    .kBadSampleRateError
  else if p.inputStream.numChannels = 0 ∨ ¬(p.outputStream.numChannels = 1 ∨
      p.outputStream.numChannels = p.inputStream.numChannels) then
    .kBadNumberChannelsError
  else .kNoError

def firstSuitableRate (minimumRate uppermostNativeRate : ℤ) : List ℤ → ℤ
  | [] => uppermostNativeRate
  | rate :: rates =>
    if uppermostNativeRate ≤ rate then uppermostNativeRate
    else if minimumRate ≤ rate then rate
    else firstSuitableRate minimumRate uppermostNativeRate rates

def suitableProcessRate (minimumRate maxSplittingRate : ℤ) (bandSplittingRequired : Bool) : ℤ :=
  let uppermostNativeRate := if bandSplittingRequired then maxSplittingRate else 48000
  firstSuitableRate minimumRate uppermostNativeRate [16000, 32000, 48000]

structure ActiveSubmodules where
  highPassFilter : Bool := false
  mobileEchoController : Bool := false
  residualEchoDetector : Bool := false
  noiseSuppressor : Bool := false
  adaptiveGainController : Bool := false
  gainController2 : Bool := false
  preAmplifier : Bool := false
  echoController : Bool := false
  voiceDetector : Bool := false
  transientSuppressor : Bool := false
  deriving DecidableEq

structure SubmoduleStates where
  active : ActiveSubmodules := {}
  firstUpdate : Bool := true
  deriving DecidableEq

namespace SubmoduleStates

def update (s : SubmoduleStates) (flags : ActiveSubmodules) : SubmoduleStates × Bool :=
  let changed : Bool := flags ≠ s.active
  ({ active := if changed then flags else s.active, firstUpdate := false },
    changed || s.firstUpdate)

theorem update_of_unchanged {s : SubmoduleStates} {flags : ActiveSubmodules}
    (h : (s.update flags).2 = false) : (s.update flags).1 = s := by
  obtain ⟨active, firstUpdate⟩ := s
  simp only [update, Bool.or_eq_false_iff] at h ⊢
  simp [h.1, h.2]

theorem update_again (s : SubmoduleStates) (flags : ActiveSubmodules) :
    (s.update flags).1.update flags = ((s.update flags).1, false) := by
  by_cases h : flags = s.active
  · simp [update, h]
  · simp [update, h]

def captureMultiBandProcessingPresent (s : SubmoduleStates) : Bool :=
  s.active.highPassFilter || s.active.mobileEchoController || s.active.noiseSuppressor ||
    s.active.adaptiveGainController || s.active.echoController

def captureMultiBandSubModulesActive (s : SubmoduleStates) : Bool :=
  s.captureMultiBandProcessingPresent || s.active.voiceDetector

def renderMultiBandSubModulesActive (s : SubmoduleStates) : Bool :=
  s.active.mobileEchoController || s.active.adaptiveGainController || s.active.echoController

def highPassFilteringRequired (s : SubmoduleStates) : Bool :=
  s.active.highPassFilter || s.active.mobileEchoController || s.active.noiseSuppressor

end SubmoduleStates

structure GainControl where
  mode : Config.AgcMode := .kAdaptiveAnalog
  minimumCaptureLevel : ℤ := 0
  maximumCaptureLevel : ℤ := 255
  limiterEnabled : Bool := true
  targetLevelDbfs : ℤ := 3
  compressionGainDb : ℤ := 9
  numProcChannels : Option ℕ := none
  sampleRateHz : Option ℤ := none
  deriving DecidableEq

namespace GainControl

def initializeFor (g : GainControl) (numProcChannels : ℕ) (sampleRateHz : ℤ) : GainControl :=
  { g with numProcChannels := some numProcChannels, sampleRateHz := some sampleRateHz }

def setMode (g : GainControl) (mode : Config.AgcMode) : GainControl := { g with mode }

-- The setters that check their argument leave the old value in place when they return an error.
def setTargetLevelDbfs (g : GainControl) (level : ℤ) : GainControl :=
  if level > 31 ∨ level < 0 then g else { g with targetLevelDbfs := level }

def setCompressionGainDb (g : GainControl) (gain : ℤ) : GainControl :=
  if gain < 0 ∨ gain > 90 then g else { g with compressionGainDb := gain }

def enableLimiter (g : GainControl) (enable : Bool) : GainControl :=
  { g with limiterEnabled := enable }

def setAnalogLevelLimits (g : GainControl) (minimum maximum : ℤ) : GainControl :=
  if minimum < 0 ∨ maximum > 65535 ∨ maximum < minimum then g
  else { g with minimumCaptureLevel := minimum, maximumCaptureLevel := maximum }

end GainControl

structure AgcManagerDirect where
  numChannels : ℕ
  startupMinLevel : ℤ
  clippedLevelMin : ℤ
  useAgc2LevelEstimation : Bool
  disableDigitalAdaptive : Bool
  sampleRateHz : ℤ
  deriving DecidableEq

def AgcManagerDirect.setupDigitalGainControl (m : AgcManagerDirect) (g : GainControl) :
    GainControl :=
  let g := g.setMode .kFixedDigital
  let g := g.setTargetLevelDbfs (if m.disableDigitalAdaptive then 0 else 2)
  let g := g.setCompressionGainDb (if m.disableDigitalAdaptive then 0 else 7)
  g.enableLimiter (!m.disableDigitalAdaptive)

structure HighPassFilter where
  sampleRateHz : ℤ
  numChannels : ℕ
  deriving DecidableEq

structure EchoController where
  sampleRateHz : ℤ
  numRenderChannels : ℕ
  numCaptureChannels : ℕ
  deriving DecidableEq

structure EchoControlMobile where
  sampleRateHz : ℤ
  numReverseChannels : ℕ
  numOutputChannels : ℕ
  deriving DecidableEq

structure NoiseSuppressor where
  targetLevel : Config.NoiseSuppressionLevel
  sampleRateHz : ℤ
  numChannels : ℕ
  deriving DecidableEq

structure TransientSuppressor where
  sampleRateHz : ℤ
  detectorRateHz : ℤ
  numChannels : ℕ
  deriving DecidableEq

structure GainController2 where
  sampleRateHz : ℤ
  config : Config.GainController2
  deriving DecidableEq

structure EchoDetector where
  captureSampleRateHz : ℤ
  renderSampleRateHz : ℤ
  deriving DecidableEq

structure CustomModule where
  sampleRateHz : ℤ
  numChannels : ℕ
  deriving DecidableEq

structure Submodules where
  agcManager : Option AgcManagerDirect := none
  gainControl : Option GainControl := none
  gainController2 : Option GainController2 := none
  highPassFilter : Option HighPassFilter := none
  echoDetector : Option EchoDetector := none
  echoController : Option EchoController := none
  echoControlMobile : Option EchoControlMobile := none
  noiseSuppressor : Option NoiseSuppressor := none
  transientSuppressor : Option TransientSuppressor := none
  capturePostProcessor : Option CustomModule := none
  renderPreProcessor : Option CustomModule := none
  captureAnalyzer : Option CustomModule := none
  /-- The gain factor. -/
  preAmplifier : Option FloatVal := none
  outputLevelEstimator : Bool := false
  /-- The sample rate. -/
  voiceDetector : Option ℤ := none
  deriving DecidableEq

end WebRtcAudio.Apm
