import WebRtcAudio.Apm.Submodules

/-! `AudioProcessingImpl`: configuration, formats and submodules. What the audio does to this state
is part of a call. -/
namespace WebRtcAudio.Apm

structure Setup where
  echoControlFactory : Bool := false
  capturePostProcessor : Bool := false
  renderPreProcessor : Bool := false
  captureAnalyzer : Bool := false
  multiChannelRenderSupport : Bool := true
  multiChannelCaptureSupport : Bool := true
  enforceSplitBandHpf : Bool := false
  /-- `CreateTransientSuppressor` returns null in builds without transient suppression. -/
  transientSuppressorAvailable : Bool := true
  experimentalNs : Bool := false
  experimentalAgc : Config.AnalogGainController := {}
  deriving DecidableEq

structure AudioProcessingImpl where
  setup : Setup
  config : Config
  submoduleStates : SubmoduleStates := {}
  submodules : Submodules := {}
  apiFormat : ProcessingConfig := {}
  renderProcessingFormat : StreamConfig := ⟨16000, 1, false⟩
  captureProcessingRate : ℤ := 16000
  splitRate : ℤ := 16000
  echoControllerEnabled : Bool
  /-- The number of frames of the full band buffer. -/
  captureFullbandAudio : Option ℤ := none
  /-- The number of channels of the linear output buffer. -/
  linearAecOutput : Option ℕ := none
  /-- A change of the active submodules was reported after the last initialization. The code does
  not keep this: it is here to state what a call has lost. -/
  pendingReinitialization : Bool := false
  deriving DecidableEq

namespace AudioProcessingImpl

def procSampleRateHz (s : AudioProcessingImpl) : ℤ := s.captureProcessingRate

def procFullbandSampleRateHz (s : AudioProcessingImpl) : ℤ :=
  match s.captureFullbandAudio with
  | some numFrames => numFrames * 100
  | none => s.captureProcessingRate

def procSplitSampleRateHz (s : AudioProcessingImpl) : ℤ := s.splitRate

def numReverseChannels (s : AudioProcessingImpl) : ℕ := s.renderProcessingFormat.numChannels

def numOutputChannels (s : AudioProcessingImpl) : ℕ := s.apiFormat.outputStream.numChannels

def multiChannelCapture (s : AudioProcessingImpl) : Bool :=
  s.config.pipeline.multiChannelCapture && s.setup.multiChannelCaptureSupport

def numProcChannels (s : AudioProcessingImpl) : ℕ :=
  if s.echoControllerEnabled && !s.multiChannelCapture then 1 else s.numOutputChannels

def activeSubmodules (s : AudioProcessingImpl) : ActiveSubmodules where
  highPassFilter := s.config.highPassFilter.enabled
  mobileEchoController := s.submodules.echoControlMobile.isSome
  residualEchoDetector := s.config.residualEchoDetectorEnabled
  noiseSuppressor := s.submodules.noiseSuppressor.isSome
  adaptiveGainController := s.submodules.gainControl.isSome
  gainController2 := s.submodules.gainController2.isSome
  preAmplifier := s.config.preAmplifier.enabled
  echoController := s.echoControllerEnabled
  voiceDetector := s.config.voiceDetectionEnabled
  transientSuppressor := s.submodules.transientSuppressor.isSome

def updateActiveSubmoduleStates (s : AudioProcessingImpl) : AudioProcessingImpl × Bool :=
  let r := s.submoduleStates.update s.activeSubmodules
  ({ s with
      submoduleStates := r.1
      pendingReinitialization := s.pendingReinitialization || r.2 }, r.2)

def configuredTransientSuppressor (s : AudioProcessingImpl) : Option TransientSuppressor :=
  if s.config.transientSuppressionEnabled &&
      (s.submodules.transientSuppressor.isSome || s.setup.transientSuppressorAvailable) then
    some ⟨s.procFullbandSampleRateHz, s.splitRate, s.numProcChannels⟩
  else none

def initializeTransientSuppressor (s : AudioProcessingImpl) : AudioProcessingImpl :=
  { s with submodules.transientSuppressor := s.configuredTransientSuppressor }

def highPassFilterNeededByAec (s : AudioProcessingImpl) : Bool :=
  s.config.echoCanceller.enabled && s.config.echoCanceller.enforceHighPassFiltering &&
    !s.config.echoCanceller.mobileMode

def configuredHighPassFilter (s : AudioProcessingImpl) : Option HighPassFilter :=
  if s.submoduleStates.highPassFilteringRequired || s.highPassFilterNeededByAec then
    let useFullBand := s.config.highPassFilter.applyInFullBand && !s.setup.enforceSplitBandHpf
    some ⟨if useFullBand then s.procFullbandSampleRateHz else s.procSplitSampleRateHz,
      if useFullBand then s.numOutputChannels else s.numProcChannels⟩
  else none

def initializeHighPassFilter (s : AudioProcessingImpl) (forcedReset : Bool) : AudioProcessingImpl :=
  let filter :=
    match s.configuredHighPassFilter, s.submodules.highPassFilter with
    | some new, some old =>
      if forcedReset || new.sampleRateHz ≠ old.sampleRateHz || new.numChannels ≠ old.numChannels
      then some new
      else some old
    | some new, none => some new
    | none, _ => none
  { s with submodules.highPassFilter := filter }

theorem initializeHighPassFilter_eq (s : AudioProcessingImpl) (forcedReset : Bool) :
    s.initializeHighPassFilter forcedReset =
      { s with submodules.highPassFilter := s.configuredHighPassFilter } := by
  unfold initializeHighPassFilter
  rcases s.configuredHighPassFilter with _ | new <;> rcases s.submodules.highPassFilter with _ | old
  · rfl
  · rfl
  · rfl
  · -- a filter that is kept has the parameters of the new one
    obtain ⟨newRate, newChannels⟩ := new
    obtain ⟨oldRate, oldChannels⟩ := old
    by_cases hk : forcedReset || newRate ≠ oldRate || newChannels ≠ oldChannels
    · simp only [hk, if_true]
    · simp only [hk]
      simp_all

def configuredVoiceDetector (s : AudioProcessingImpl) : Option ℤ :=
  if s.config.voiceDetectionEnabled then some s.procSplitSampleRateHz else none

def initializeVoiceDetector (s : AudioProcessingImpl) : AudioProcessingImpl :=
  { s with submodules.voiceDetector := s.configuredVoiceDetector }

def useEchoController (s : AudioProcessingImpl) : Bool :=
  s.setup.echoControlFactory ||
    (s.config.echoCanceller.enabled && !s.config.echoCanceller.mobileMode)

def configuredEchoController (s : AudioProcessingImpl) : Option EchoController :=
  if s.useEchoController then
    some ⟨s.procSampleRateHz, s.numReverseChannels, s.numProcChannels⟩
  else none

def configuredEchoControlMobile (s : AudioProcessingImpl) : Option EchoControlMobile :=
  if s.useEchoController then none
  else if s.config.echoCanceller.enabled && s.config.echoCanceller.mobileMode then
    some ⟨s.procSplitSampleRateHz, s.numReverseChannels, s.numOutputChannels⟩
  else none

def configuredLinearAecOutput (s : AudioProcessingImpl) : Option ℕ :=
  if s.useEchoController && s.config.echoCanceller.exportLinearAecOutput then
    some s.numProcChannels
  else none

def initializeEchoController (s : AudioProcessingImpl) : AudioProcessingImpl :=
  { s with
    submodules.echoController := s.configuredEchoController
    submodules.echoControlMobile := s.configuredEchoControlMobile
    echoControllerEnabled := s.useEchoController
    linearAecOutput := s.configuredLinearAecOutput }

def agcManagerFor (s : AudioProcessingImpl) : AgcManagerDirect :=
  let analog := s.config.gainController1.analogGainController
  let new : AgcManagerDirect :=
    ⟨s.numProcChannels, analog.startupMinVolume, analog.clippedLevelMin,
      analog.enableAgc2LevelEstimator, !analog.enableDigitalAdaptive, s.splitRate⟩
  match s.submodules.agcManager with
  | none => new
  | some old =>
    if old.numChannels ≠ s.numProcChannels ∨ old.sampleRateHz ≠ s.splitRate then new else old

def configuredGainController1 (s : AudioProcessingImpl) :
    Option AgcManagerDirect × Option GainControl :=
  let agc1 := s.config.gainController1
  if !agc1.enabled then (none, none)
  else
    let gainControl := (s.submodules.gainControl.getD {}).initializeFor s.numProcChannels
      s.procSampleRateHz
    if !agc1.analogGainController.enabled then
      let gainControl := gainControl.setMode agc1.mode
      let gainControl := gainControl.setTargetLevelDbfs agc1.targetLevelDbfs
      let gainControl := gainControl.setCompressionGainDb agc1.compressionGainDb
      let gainControl := gainControl.enableLimiter agc1.enableLimiter
      (none, some (gainControl.setAnalogLevelLimits agc1.analogLevelMinimum
        agc1.analogLevelMaximum))
    else (some s.agcManagerFor, some (s.agcManagerFor.setupDigitalGainControl gainControl))

def initializeGainController1 (s : AudioProcessingImpl) : AudioProcessingImpl :=
  { s with
    submodules.agcManager := s.configuredGainController1.1
    submodules.gainControl := s.configuredGainController1.2 }

def configuredGainController2 (s : AudioProcessingImpl) : Option GainController2 :=
  if s.config.gainController2.enabled then
    some ⟨s.procFullbandSampleRateHz, s.config.gainController2⟩
  else none

def initializeGainController2 (s : AudioProcessingImpl) : AudioProcessingImpl :=
  { s with submodules.gainController2 := s.configuredGainController2 }

def configuredNoiseSuppressor (s : AudioProcessingImpl) : Option NoiseSuppressor :=
  if s.config.noiseSuppression.enabled then
    some ⟨s.config.noiseSuppression.level, s.procSampleRateHz, s.numProcChannels⟩
  else none

def initializeNoiseSuppressor (s : AudioProcessingImpl) : AudioProcessingImpl :=
  { s with submodules.noiseSuppressor := s.configuredNoiseSuppressor }

def configuredPreAmplifier (s : AudioProcessingImpl) : Option FloatVal :=
  if s.config.preAmplifier.enabled then some s.config.preAmplifier.fixedGainFactor else none

def initializePreAmplifier (s : AudioProcessingImpl) : AudioProcessingImpl :=
  { s with submodules.preAmplifier := s.configuredPreAmplifier }

def initializeResidualEchoDetector (s : AudioProcessingImpl) : AudioProcessingImpl :=
  { s with
    submodules.echoDetector :=
      some ⟨s.procFullbandSampleRateHz, s.renderProcessingFormat.sampleRateHz⟩ }

def initializeAnalyzer (s : AudioProcessingImpl) : AudioProcessingImpl :=
  { s with
    submodules.captureAnalyzer :=
      if s.setup.captureAnalyzer then some ⟨s.procFullbandSampleRateHz, s.numProcChannels⟩
      else none }

def initializePostProcessor (s : AudioProcessingImpl) : AudioProcessingImpl :=
  { s with
    submodules.capturePostProcessor :=
      if s.setup.capturePostProcessor then some ⟨s.procFullbandSampleRateHz, s.numProcChannels⟩
      else none }

def initializePreProcessor (s : AudioProcessingImpl) : AudioProcessingImpl :=
  { s with
    submodules.renderPreProcessor :=
      if s.setup.renderPreProcessor then
        some ⟨s.renderProcessingFormat.sampleRateHz, s.renderProcessingFormat.numChannels⟩
      else none }

-- What the calls below rely on and most of the initializations leave alone.
attribute [simps setup config submoduleStates apiFormat echoControllerEnabled linearAecOutput
    submodules_highPassFilter submodules_echoController submodules_echoControlMobile
    submodules_gainController2 submodules_noiseSuppressor submodules_preAmplifier]
  initializeTransientSuppressor initializeEchoController initializeGainController1
  initializeGainController2 initializeNoiseSuppressor initializeAnalyzer initializePostProcessor
  initializePreProcessor
attribute [simps setup config submoduleStates apiFormat submodules_highPassFilter
    submodules_preAmplifier] initializeVoiceDetector initializeResidualEchoDetector

def allocateFullbandAudio (s : AudioProcessingImpl) : AudioProcessingImpl :=
  let rate := s.apiFormat.outputStream.sampleRateHz
  { s with
    captureFullbandAudio :=
      if s.captureProcessingRate < rate ∧ rate = 48000 then some (rate / 100) else none }

def initializeSubmodules (s : AudioProcessingImpl) : AudioProcessingImpl :=
  let s := s.initializeGainController1
  let s := s.initializeTransientSuppressor
  let s := s.initializeHighPassFilter true
  let s := s.initializeVoiceDetector
  let s := s.initializeResidualEchoDetector
  let s := s.initializeEchoController
  let s := s.initializeGainController2
  let s := s.initializeNoiseSuppressor
  let s := s.initializeAnalyzer
  let s := s.initializePostProcessor
  s.initializePreProcessor

def initializeLocked (s : AudioProcessingImpl) : AudioProcessingImpl :=
  let s := s.updateActiveSubmoduleStates.1
  { s.allocateFullbandAudio.initializeSubmodules with pendingReinitialization := false }

def setFormats (s : AudioProcessingImpl) (format : ProcessingConfig) : AudioProcessingImpl :=
  let maxSplittingRate :=
    if s.config.pipeline.maximumInternalProcessingRate = 32000 then 32000 else 48000
  let bandSplitting := s.submoduleStates.captureMultiBandSubModulesActive ||
    s.submoduleStates.renderMultiBandSubModulesActive
  let captureRate := suitableProcessRate
    (min format.inputStream.sampleRateHz format.outputStream.sampleRateHz)
    maxSplittingRate bandSplitting
  let renderRate :=
    if !s.echoControllerEnabled then
      suitableProcessRate
        (min format.reverseInputStream.sampleRateHz format.reverseOutputStream.sampleRateHz)
        maxSplittingRate bandSplitting
    else captureRate
  let renderRate := if captureRate = 8000 then 8000 else max renderRate 16000
  let multiChannelRender :=
    s.config.pipeline.multiChannelRender && s.setup.multiChannelRenderSupport
  { s with
    apiFormat := format
    captureProcessingRate := captureRate
    renderProcessingFormat :=
      if s.submoduleStates.renderMultiBandSubModulesActive then
        ⟨renderRate, if multiChannelRender then format.reverseInputStream.numChannels else 1, false⟩
      else ⟨format.reverseInputStream.sampleRateHz, format.reverseInputStream.numChannels, false⟩
    splitRate := if captureRate = 32000 ∨ captureRate = 48000 then 16000 else captureRate }

def initializeLockedWith (s : AudioProcessingImpl) (format : ProcessingConfig) :
    AudioProcessingImpl × ErrorCode :=
  let s := s.updateActiveSubmoduleStates.1
  match format.check with
  | .kNoError => ((s.setFormats format).initializeLocked, .kNoError)
  | error => (s, error)

end AudioProcessingImpl

end WebRtcAudio.Apm
