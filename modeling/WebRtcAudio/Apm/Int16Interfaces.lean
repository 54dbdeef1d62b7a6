import WebRtcAudio.Apm.Reinitialization

/-! What the interfaces for interleaved 16-bit audio write to the destination. -/
namespace WebRtcAudio.Apm.AudioProcessingImpl

variable (s : AudioProcessingImpl)

def captureFullBandProcessingActive : Bool :=
  s.submoduleStates.active.gainController2 || s.setup.capturePostProcessor ||
    s.submoduleStates.active.preAmplifier

def renderMultiBandProcessingActive (_ : SubmoduleStates) : Bool := false

def renderFullBandProcessingActive : Bool := s.setup.renderPreProcessor

structure Written where
  state : AudioProcessingImpl
  result : ErrorCode
  dest : Option (List ℤ)

/-- `ProcessStream` for 16-bit audio. The last argument is what the capture buffer holds in the
end, which is the audio of the call where nothing has changed it. -/
def processStreamInt16 (call : CaptureCall) (audio : List ℤ) : Written :=
  let (s, result) := s.processStream { call with nullPointer := false }
  ⟨s, result,
    if result = .kNoError ∧ (s.submoduleStates.captureMultiBandProcessingPresent ||
      s.captureFullBandProcessingActive) then some audio else none⟩

def processStreamFloat (call : CaptureCall) (audio : List ℤ) : Written :=
  let (s, result) := s.processStream call
  ⟨s, result, if result = .kNoError then some audio else none⟩

def processReverseStreamInt16 (call : RenderCall) (audio : List ℤ) : Written :=
  let (s, result) := s.processReverseStream { call with interleaved := true }
  ⟨s, result,
    if result = .kNoError ∧ (renderMultiBandProcessingActive s.submoduleStates ||
      s.renderFullBandProcessingActive) then some audio else none⟩

def processReverseStreamFloat (call : RenderCall) (audio : List ℤ) : Written :=
  let (s, result) := s.processReverseStream { call with interleaved := false }
  ⟨s, result, if result = .kNoError then some audio else none⟩

structure FlagsOf (t : AudioProcessingImpl) : Prop where
  active : t.submoduleStates.active = s.activeSubmodules
  setup : t.setup = s.setup

section Flags

theorem updateActiveSubmoduleStates_flagsOf : s.FlagsOf s.updateActiveSubmoduleStates.1 := by
  refine ⟨?_, rfl⟩
  by_cases h : s.activeSubmodules = s.submoduleStates.active
  · simp [updateActiveSubmoduleStates, SubmoduleStates.update, h]
  · simp [updateActiveSubmoduleStates, SubmoduleStates.update, h]

theorem initializeLockedWith_flagsOf (format : ProcessingConfig) :
    s.FlagsOf (s.initializeLockedWith format).1 := by
  by_cases ha : format.check = .kNoError
  · rw [initializeLockedWith_of_accepted s ha]
    refine ⟨?_, ?_⟩
    · change (initializeSubmodules _).submoduleStates.active = _
      rw [initializeSubmodules_submoduleStates]
      exact (updateActiveSubmoduleStates_flagsOf _).active
    · simp [initializeLocked, initializeSubmodules, initializeHighPassFilter_eq,
        updateActiveSubmoduleStates, allocateFullbandAudio, setFormats]
  · rw [initializeLockedWith_of_rejected s ha]
    exact updateActiveSubmoduleStates_flagsOf s

theorem maybeInitializeCapture_flagsOf (inputConfig outputConfig : StreamConfig) :
    s.FlagsOf (s.maybeInitializeCapture inputConfig outputConfig).1 := by
  simp only [maybeInitializeCapture]
  split
  · -- the flags do not depend on themselves
    have ha := initializeLockedWith_flagsOf s.updateActiveSubmoduleStates.1
      (s.captureFormat inputConfig outputConfig)
    exact ⟨ha.active, ha.setup⟩
  · exact updateActiveSubmoduleStates_flagsOf s

theorem processStream_flagsOf {call : CaptureCall} (hn : call.nullPointer = false) :
    s.FlagsOf (s.processStream call).1 := by
  have hmay := maybeInitializeCapture_flagsOf s call.inputConfig call.outputConfig
  simp only [processStream, hn, Bool.false_eq_true, if_false]
  split
  · next t heq =>
    rw [heq] at hmay
    obtain ⟨_, _, _, _, hg⟩ := processCaptureStreamLocked_sameButGains t call
    rw [hg]
    exact ⟨hmay.active, hmay.setup⟩
  · next t error _ heq =>
    rwa [heq] at hmay

theorem processReverseStream_setup (call : RenderCall) :
    (s.processReverseStream call).1.setup = s.setup := by
  simp only [processReverseStream, maybeInitializeRender]
  split_ifs
  · rfl
  · rfl
  · rfl
  · exact (initializeLockedWith_flagsOf s _).setup

end Flags

/-- A submodule is active before the call that the two conditions of `ProcessStream` count among
those that may change the audio. -/
def ChangesCapture : Prop :=
  s.activeSubmodules.highPassFilter = true ∨ s.activeSubmodules.mobileEchoController = true ∨
    s.activeSubmodules.noiseSuppressor = true ∨ s.activeSubmodules.adaptiveGainController = true ∨
    s.activeSubmodules.echoController = true ∨ s.activeSubmodules.gainController2 = true ∨
    s.setup.capturePostProcessor = true ∨ s.activeSubmodules.preAmplifier = true

/-- In every state, a successful call for 16-bit audio writes the audio to the destination exactly
if, for capture audio, one of the counted submodules is active and, for render audio, a
pre-processor was injected. -/
theorem int16_dest_written_iff (capture : CaptureCall) (render : RenderCall) (audio : List ℤ) :
    ((s.processStreamInt16 capture audio).result = .kNoError →
      ((s.processStreamInt16 capture audio).dest = some audio ↔ s.ChangesCapture)) ∧
    ((s.processReverseStreamInt16 render audio).result = .kNoError →
      ((s.processReverseStreamInt16 render audio).dest = some audio ↔
        s.setup.renderPreProcessor = true)) := by
  constructor
  · intro hr
    have hf : s.FlagsOf (s.processStream { capture with nullPointer := false }).1 :=
      processStream_flagsOf s rfl
    simp only [processStreamInt16] at hr ⊢
    rw [hr]
    simp only [SubmoduleStates.captureMultiBandProcessingPresent, captureFullBandProcessingActive,
      hf.active, hf.setup, ChangesCapture, true_and, Bool.or_eq_true, or_assoc,
      Option.ite_none_right_eq_some, and_true]
  · intro hr
    simp only [processReverseStreamInt16] at hr ⊢
    rw [hr]
    simp [renderMultiBandProcessingActive, renderFullBandProcessingActive,
      processReverseStream_setup]

theorem int16_dest_with_noise_suppression :
    let s := (create {}).applyConfig { noiseSuppression := { enabled := true } }
    let format : StreamConfig := ⟨16000, 1, false⟩
    (s.processStreamInt16 { inputConfig := format, outputConfig := format } [1]).dest = some [1] ∧
      (s.processReverseStreamInt16 { inputConfig := format, outputConfig := format } [1]).dest ≠
        some [1] := by
  intro s format
  have h := int16_dest_written_iff s { inputConfig := format, outputConfig := format }
    { inputConfig := format, outputConfig := format } [1]
  exact ⟨(h.1 (by decide +kernel)).mpr (.inr (.inr (.inl (by decide +kernel)))),
    fun hw => absurd ((h.2 (by decide +kernel)).mp hw) (by decide +kernel)⟩

theorem int16_dest_left_alone :
    let s := create {}
    let format : StreamConfig := ⟨16000, 1, false⟩
    let capture : CaptureCall := { inputConfig := format, outputConfig := format }
    let render : RenderCall := { inputConfig := format, outputConfig := format }
    (s.processStreamInt16 capture [1]).result = .kNoError ∧
      (s.processStreamInt16 capture [1]).dest = none ∧
      (s.processStreamFloat capture [1]).dest = some [1] ∧
      (s.processReverseStreamInt16 render [1]).result = .kNoError ∧
      (s.processReverseStreamInt16 render [1]).dest = none ∧
      (s.processReverseStreamFloat render [1]).dest = some [1] := by
  decide +kernel

end WebRtcAudio.Apm.AudioProcessingImpl
