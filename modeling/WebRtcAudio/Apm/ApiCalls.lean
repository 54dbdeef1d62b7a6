import WebRtcAudio.Apm.AudioProcessingImpl
import WebRtcAudio.Core.Run

/-! The calls that configure the module, hand it audio or reinitialize it, one after the other. -/
namespace WebRtcAudio.Apm

inductive RuntimeSetting
  | kCapturePreGain (gain : FloatVal)
  /-- The gain is rounded to an integer. -/
  | kCaptureCompressionGain (gain : ℤ)
  | kCaptureFixedPostGain (gain : FloatVal)

structure CaptureCall where
  /-- Only the overload for `float` tests its pointers. -/
  nullPointer : Bool := false
  inputConfig : StreamConfig
  outputConfig : StreamConfig
  /-- The settings taken out of the capture queue. -/
  runtimeSettings : List RuntimeSetting := []
  /-- The digital gain that the gain manager asks for. -/
  newDigitalGain : Option ℤ := none
  /-- What the processing of the audio returns. -/
  audioResult : ErrorCode := .kNoError

structure RenderCall where
  nullPointer : Bool := false
  /-- The overload for `int16_t` neither tests the pointer nor sets the keyboard flags. -/
  interleaved : Bool := false
  inputConfig : StreamConfig
  outputConfig : StreamConfig

inductive ApiCall
  | initializeCurrent
  | initializeFormats (format : ProcessingConfig)
  | applyConfig (config : Config)
  | mutateConfig (mutator : Config → Config)
  | processStream (call : CaptureCall)
  | processReverseStream (call : RenderCall)

namespace AudioProcessingImpl

def initializeIf (s : AudioProcessingImpl) (changed : Bool)
    (init : AudioProcessingImpl → AudioProcessingImpl) : AudioProcessingImpl :=
  if changed then init s else s

def applyGroups (s : AudioProcessingImpl) (changed : ConfigChanges) : AudioProcessingImpl :=
  let s := s.initializeIf changed.aec initializeEchoController
  let s := s.initializeIf changed.ns initializeNoiseSuppressor
  let s := s.initializeIf changed.ts initializeTransientSuppressor
  let s := s.initializeHighPassFilter false
  let s := s.initializeIf changed.agc1 initializeGainController1
  let s := { s with config := s.config.revertInvalidGainController2 }
  let s := s.initializeIf changed.agc2 initializeGainController2
  let s := s.initializeIf changed.preAmplifier initializePreAmplifier
  let s := { s with
    submodules.outputLevelEstimator :=
      s.submodules.outputLevelEstimator || s.config.levelEstimationEnabled }
  s.initializeIf changed.voiceDetection initializeVoiceDetector

section

variable (s : AudioProcessingImpl) (changed : Bool)

theorem initializeIf_echoController : s.initializeIf changed initializeEchoController = { s with
      submodules.echoController :=
        if changed then s.configuredEchoController else s.submodules.echoController
      submodules.echoControlMobile :=
        if changed then s.configuredEchoControlMobile else s.submodules.echoControlMobile
      echoControllerEnabled := if changed then s.useEchoController else s.echoControllerEnabled
      linearAecOutput := if changed then s.configuredLinearAecOutput else s.linearAecOutput } := by
  cases changed <;> rfl

theorem initializeIf_noiseSuppressor : s.initializeIf changed initializeNoiseSuppressor = { s with
      submodules.noiseSuppressor :=
        if changed then s.configuredNoiseSuppressor else s.submodules.noiseSuppressor } := by
  cases changed <;> rfl

theorem initializeIf_transientSuppressor :
    s.initializeIf changed initializeTransientSuppressor = { s with
      submodules.transientSuppressor :=
        if changed then s.configuredTransientSuppressor
        else s.submodules.transientSuppressor } := by
  cases changed <;> rfl

theorem initializeIf_gainController1 : s.initializeIf changed initializeGainController1 = { s with
      submodules.agcManager :=
        if changed then s.configuredGainController1.1 else s.submodules.agcManager
      submodules.gainControl :=
        if changed then s.configuredGainController1.2 else s.submodules.gainControl } := by
  cases changed <;> rfl

theorem initializeIf_gainController2 : s.initializeIf changed initializeGainController2 = { s with
      submodules.gainController2 :=
        if changed then s.configuredGainController2 else s.submodules.gainController2 } := by
  cases changed <;> rfl

theorem initializeIf_preAmplifier : s.initializeIf changed initializePreAmplifier = { s with
      submodules.preAmplifier :=
        if changed then s.configuredPreAmplifier else s.submodules.preAmplifier } := by
  cases changed <;> rfl

theorem initializeIf_voiceDetector : s.initializeIf changed initializeVoiceDetector = { s with
      submodules.voiceDetector :=
        if changed then s.configuredVoiceDetector else s.submodules.voiceDetector } := by
  cases changed <;> rfl

end

def afterEcho (s : AudioProcessingImpl) (changed : Bool) : AudioProcessingImpl :=
  { s with
    echoControllerEnabled := if changed then s.useEchoController else s.echoControllerEnabled }

theorem applyGroups_eq (s : AudioProcessingImpl) (changed : ConfigChanges) :
    s.applyGroups changed = { s with
      config := s.config.revertInvalidGainController2
      echoControllerEnabled := (s.afterEcho changed.aec).echoControllerEnabled
      linearAecOutput :=
        if changed.aec then s.configuredLinearAecOutput else s.linearAecOutput
      submodules := { s.submodules with
        echoController :=
          if changed.aec then s.configuredEchoController else s.submodules.echoController
        echoControlMobile :=
          if changed.aec then s.configuredEchoControlMobile else s.submodules.echoControlMobile
        noiseSuppressor :=
          if changed.ns then (s.afterEcho changed.aec).configuredNoiseSuppressor
          else s.submodules.noiseSuppressor
        transientSuppressor :=
          if changed.ts then (s.afterEcho changed.aec).configuredTransientSuppressor
          else s.submodules.transientSuppressor
        highPassFilter := (s.afterEcho changed.aec).configuredHighPassFilter
        agcManager :=
          if changed.agc1 then (s.afterEcho changed.aec).configuredGainController1.1
          else s.submodules.agcManager
        gainControl :=
          if changed.agc1 then (s.afterEcho changed.aec).configuredGainController1.2
          else s.submodules.gainControl
        gainController2 :=
          if changed.agc2 then
            { s with config := s.config.revertInvalidGainController2 }.configuredGainController2
          else s.submodules.gainController2
        preAmplifier :=
          if changed.preAmplifier then s.configuredPreAmplifier else s.submodules.preAmplifier
        outputLevelEstimator :=
          s.submodules.outputLevelEstimator || s.config.levelEstimationEnabled
        voiceDetector :=
          if changed.voiceDetection then s.configuredVoiceDetector
          else s.submodules.voiceDetector } } := by
  obtain ⟨agc2, hc⟩ := s.config.revertInvalidGainController2_eq
  simp only [applyGroups, initializeIf_echoController, initializeIf_noiseSuppressor,
    initializeIf_transientSuppressor, initializeHighPassFilter_eq, initializeIf_gainController1,
    initializeIf_gainController2, initializeIf_preAmplifier, initializeIf_voiceDetector, hc]
  rfl

def applyChanges (s : AudioProcessingImpl) (changed : ConfigChanges) : AudioProcessingImpl :=
  let s := s.applyGroups changed
  if changed.pipeline then (s.initializeLockedWith s.apiFormat).1 else s

def applyConfig (s : AudioProcessingImpl) (config : Config) : AudioProcessingImpl :=
  { s with config }.applyChanges (s.config.changes config)

def mutateConfig (s : AudioProcessingImpl) (mutator : Config → Config) : AudioProcessingImpl :=
  let s := { s with config := mutator s.config }
  s.applyConfig s.config

def getConfig (s : AudioProcessingImpl) : Config := s.config

def captureFormat (s : AudioProcessingImpl) (inputConfig outputConfig : StreamConfig) :
    ProcessingConfig :=
  { s.apiFormat with inputStream := inputConfig, outputStream := outputConfig }

def maybeInitializeCapture (s : AudioProcessingImpl) (inputConfig outputConfig : StreamConfig) :
    AudioProcessingImpl × ErrorCode :=
  let format := s.captureFormat inputConfig outputConfig
  let reinitializationRequired := s.updateActiveSubmoduleStates.2 ||
    s.apiFormat.inputStream ≠ inputConfig || s.apiFormat.outputStream ≠ outputConfig
  let s := s.updateActiveSubmoduleStates.1
  if reinitializationRequired then s.initializeLockedWith format else (s, .kNoError)

def handleCaptureRuntimeSetting (s : AudioProcessingImpl) : RuntimeSetting → AudioProcessingImpl
  | .kCapturePreGain gain =>
    -- the source dereferences the pre-amplifier here without a test
    if s.config.preAmplifier.enabled then
      { s with
        config.preAmplifier.fixedGainFactor := gain
        submodules.preAmplifier := s.submodules.preAmplifier.map fun _ => gain }
    else s
  | .kCaptureCompressionGain gain =>
    if s.submodules.agcManager.isNone then
      { s with
        config.gainController1.compressionGainDb := gain
        submodules.gainControl :=
          s.submodules.gainControl.map fun g => g.setCompressionGainDb gain }
    else s
  | .kCaptureFixedPostGain gain =>
    match s.submodules.gainController2 with
    | some agc2 =>
      let config := { s.config.gainController2 with fixedDigitalGainDb := gain }
      { s with
        config.gainController2 := config
        submodules.gainController2 := some { agc2 with config } }
    | none => s

def processCaptureStreamLocked (s : AudioProcessingImpl) (call : CaptureCall) :
    AudioProcessingImpl :=
  let s := call.runtimeSettings.foldl handleCaptureRuntimeSetting s
  match s.submodules.agcManager, call.newDigitalGain with
  | some _, some gain =>
    { s with
      submodules.gainControl :=
        s.submodules.gainControl.map fun g => g.setCompressionGainDb gain }
  | _, _ => s

def SameButGains (s t : AudioProcessingImpl) : Prop :=
  ∃ config preAmplifier gainControl gainController2, t = { s with
    config := config
    submodules.preAmplifier := preAmplifier
    submodules.gainControl := gainControl
    submodules.gainController2 := gainController2 }

theorem SameButGains.refl (s : AudioProcessingImpl) : s.SameButGains s :=
  ⟨s.config, s.submodules.preAmplifier, s.submodules.gainControl, s.submodules.gainController2, rfl⟩

theorem SameButGains.trans {s t u : AudioProcessingImpl} (hst : s.SameButGains t)
    (htu : t.SameButGains u) : s.SameButGains u := by
  obtain ⟨_, _, _, _, rfl⟩ := hst
  obtain ⟨config, preAmplifier, gainControl, gainController2, rfl⟩ := htu
  exact ⟨config, preAmplifier, gainControl, gainController2, rfl⟩

theorem handleCaptureRuntimeSetting_sameButGains (s : AudioProcessingImpl)
    (setting : RuntimeSetting) : s.SameButGains (s.handleCaptureRuntimeSetting setting) := by
  cases setting with
  | kCapturePreGain gain =>
    simp only [handleCaptureRuntimeSetting]
    split
    · exact ⟨_, _, s.submodules.gainControl, s.submodules.gainController2, rfl⟩
    · exact .refl s
  | kCaptureCompressionGain gain =>
    simp only [handleCaptureRuntimeSetting]
    split
    · exact ⟨_, s.submodules.preAmplifier, _, s.submodules.gainController2, rfl⟩
    · exact .refl s
  | kCaptureFixedPostGain gain =>
    simp only [handleCaptureRuntimeSetting]
    split
    · exact ⟨_, s.submodules.preAmplifier, s.submodules.gainControl, _, rfl⟩
    · exact .refl s

theorem processCaptureStreamLocked_sameButGains (s : AudioProcessingImpl) (call : CaptureCall) :
    s.SameButGains (s.processCaptureStreamLocked call) := by
  have hf : s.SameButGains (call.runtimeSettings.foldl handleCaptureRuntimeSetting s) :=
    List.foldlRecOn call.runtimeSettings handleCaptureRuntimeSetting (.refl s)
      fun t ht setting _ => ht.trans (handleCaptureRuntimeSetting_sameButGains t setting)
  simp only [processCaptureStreamLocked]
  split
  · exact hf.trans ⟨_, _, _, _, rfl⟩
  · exact hf

def processStream (s : AudioProcessingImpl) (call : CaptureCall) :
    AudioProcessingImpl × ErrorCode :=
  if call.nullPointer then (s, .kNullPointerError)
  else
    match s.maybeInitializeCapture call.inputConfig call.outputConfig with
    | (s, .kNoError) => (s.processCaptureStreamLocked call, call.audioResult)
    | (s, error) => (s, error)

theorem processStream_keeps {P : AudioProcessingImpl → Prop} {s : AudioProcessingImpl}
    {call : CaptureCall} (hs : P s) (hcap : call.nullPointer = false →
      P (s.maybeInitializeCapture call.inputConfig call.outputConfig).1)
    (hg : ∀ t u : AudioProcessingImpl, t.SameButGains u → P t → P u) :
    P (s.processStream call).1 := by
  cases hn : call.nullPointer with
  | true => simpa only [processStream, hn, if_true] using hs
  | false =>
    have hmay := hcap hn
    simp only [processStream, hn, Bool.false_eq_true, if_false]
    split
    · next t heq =>
      rw [heq] at hmay
      exact hg t _ (processCaptureStreamLocked_sameButGains t call) hmay
    · next t error _ heq =>
      rw [heq] at hmay
      exact hmay

def renderFormat (s : AudioProcessingImpl) (call : RenderCall) : ProcessingConfig :=
  let input := s.apiFormat.reverseInputStream
  let output := s.apiFormat.reverseOutputStream
  { s.apiFormat with
    reverseInputStream := ⟨call.inputConfig.sampleRateHz, call.inputConfig.numChannels,
      if call.interleaved then input.hasKeyboard else call.inputConfig.hasKeyboard⟩
    reverseOutputStream := ⟨call.outputConfig.sampleRateHz, call.outputConfig.numChannels,
      if call.interleaved then output.hasKeyboard else call.outputConfig.hasKeyboard⟩ }

def maybeInitializeRender (s : AudioProcessingImpl) (format : ProcessingConfig) :
    AudioProcessingImpl × ErrorCode :=
  if format = s.apiFormat then (s, .kNoError) else s.initializeLockedWith format

def processReverseStream (s : AudioProcessingImpl) (call : RenderCall) :
    AudioProcessingImpl × ErrorCode :=
  if call.nullPointer && !call.interleaved then (s, .kNullPointerError)
  else if call.inputConfig.numChannels = 0 then (s, .kBadNumberChannelsError)
  else s.maybeInitializeRender (s.renderFormat call)

def step (s : AudioProcessingImpl) : ApiCall → AudioProcessingImpl × ErrorCode
  | .initializeCurrent => (s.initializeLocked, .kNoError)
  | .initializeFormats format => s.initializeLockedWith format
  | .applyConfig config => (s.applyConfig config, .kNoError)
  | .mutateConfig mutator => (s.mutateConfig mutator, .kNoError)
  | .processStream call => s.processStream call
  | .processReverseStream call => s.processReverseStream call

def create (setup : Setup) : AudioProcessingImpl :=
  let constructed : AudioProcessingImpl :=
    { setup
      config :=
        { transientSuppressionEnabled := setup.experimentalNs
          gainController1 := { analogGainController := setup.experimentalAgc } }
      echoControllerEnabled := setup.echoControlFactory }
  constructed.initializeLocked

def reached (setup : Setup) (calls : List ApiCall) : AudioProcessingImpl :=
  Core.runState step (create setup) calls

end AudioProcessingImpl

end WebRtcAudio.Apm
