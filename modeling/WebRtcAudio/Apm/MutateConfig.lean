import WebRtcAudio.Apm.Reinitialization

/-! `MutateConfig` against `ApplyConfig`, which sees no change after it. -/
namespace WebRtcAudio.Apm.AudioProcessingImpl

section EchoController

def EchoFlagRight (s : AudioProcessingImpl) : Prop :=
  s.echoControllerEnabled = s.submodules.echoController.isSome

theorem configuredEchoController_isSome (s : AudioProcessingImpl) :
    s.configuredEchoController.isSome = s.useEchoController := by
  cases h : s.useEchoController <;> simp [configuredEchoController, h]

theorem initializeLocked_echoFlagRight (s : AudioProcessingImpl) :
    s.initializeLocked.EchoFlagRight := by
  simp [EchoFlagRight, initializeLocked, initializeSubmodules, configuredEchoController_isSome]

variable {s : AudioProcessingImpl}

theorem initializeLockedWith_echoFlagRight (hs : s.EchoFlagRight) (format : ProcessingConfig) :
    (s.initializeLockedWith format).1.EchoFlagRight := by
  by_cases ha : format.check = .kNoError
  · rw [initializeLockedWith_of_accepted s ha]
    exact initializeLocked_echoFlagRight _
  · rw [initializeLockedWith_of_rejected s ha]
    exact hs

theorem applyChanges_echoFlagRight (hs : s.EchoFlagRight) (changed : ConfigChanges) :
    (s.applyChanges changed).EchoFlagRight := by
  have hg : (s.applyGroups changed).EchoFlagRight := by
    rw [applyGroups_eq]
    cases haec : changed.aec with
    | true => exact (configuredEchoController_isSome s).symm
    | false => exact hs
  simp only [applyChanges]
  split
  · exact initializeLockedWith_echoFlagRight hg _
  · exact hg

theorem SameButGains.echoFlagRight {t : AudioProcessingImpl} (h : s.SameButGains t)
    (hs : s.EchoFlagRight) : t.EchoFlagRight := by
  obtain ⟨_, _, _, _, rfl⟩ := h
  exact hs

theorem step_echoFlagRight (hs : s.EchoFlagRight) (call : ApiCall) :
    (s.step call).1.EchoFlagRight := by
  cases call with
  | initializeCurrent => exact initializeLocked_echoFlagRight s
  | initializeFormats format => exact initializeLockedWith_echoFlagRight hs format
  | applyConfig config =>
    exact applyChanges_echoFlagRight (show { s with config }.EchoFlagRight from hs) _
  | mutateConfig mutator =>
    exact applyChanges_echoFlagRight
      (show { s with config := mutator s.config }.EchoFlagRight from hs) _
  | processStream call =>
    have hu : s.updateActiveSubmoduleStates.1.EchoFlagRight := hs
    refine processStream_keeps hs (fun _ => ?_) fun _ _ hg => hg.echoFlagRight
    simp only [maybeInitializeCapture]
    split
    · exact initializeLockedWith_echoFlagRight hu _
    · exact hu
  | processReverseStream call =>
    simp only [step, processReverseStream, maybeInitializeRender]
    split_ifs
    · exact hs
    · exact hs
    · exact hs
    · exact initializeLockedWith_echoFlagRight hs _

theorem create_echoFlagRight (setup : Setup) : (create setup).EchoFlagRight := by
  unfold create
  exact initializeLocked_echoFlagRight _

theorem reached_echoFlagRight (setup : Setup) (calls : List ApiCall) :
    (reached setup calls).EchoFlagRight := by
  unfold reached
  exact Core.runState_invariant step
    (fun s call (hs : s.EchoFlagRight) (_ : True) => step_echoFlagRight hs call)
    (create_echoFlagRight setup) fun _ _ => trivial

end EchoController

def SameEffect (s : AudioProcessingImpl) (mutator : Config → Config) : Prop :=
  let mutated := s.mutateConfig mutator
  let applied := s.applyConfig (mutator s.getConfig)
  mutated.config = applied.config ∧ mutated.submodules = applied.submodules ∧
    mutated.linearAecOutput = applied.linearAecOutput

instance (s : AudioProcessingImpl) (mutator : Config → Config) : Decidable (s.SameEffect mutator) :=
  inferInstanceAs (Decidable (_ ∧ _ ∧ _))

/-- The new configuration leaves the pipeline alone. Each other compared group that it changes is
off in it, and nothing of that group is in place. -/
structure StaysOff (s : AudioProcessingImpl) (new : Config) : Prop where
  pipeline : new.pipeline = s.config.pipeline
  aec : (s.config.changes new).aec → s.setup.echoControlFactory = false ∧
    new.echoCanceller.enabled = false ∧ s.submodules.echoController = none ∧
    s.submodules.echoControlMobile = none ∧ s.linearAecOutput = none
  ns : (s.config.changes new).ns →
    new.noiseSuppression.enabled = false ∧ s.submodules.noiseSuppressor = none
  ts : (s.config.changes new).ts →
    new.transientSuppressionEnabled = false ∧ s.submodules.transientSuppressor = none
  agc1 : (s.config.changes new).agc1 → new.gainController1.enabled = false ∧
    s.submodules.agcManager = none ∧ s.submodules.gainControl = none
  agc2 : (s.config.changes new).agc2 →
    new.gainController2.enabled = false ∧ s.submodules.gainController2 = none
  /-- A NaN gain differs from itself, so that it is set either way. -/
  preAmplifier : (s.config.changes new).preAmplifier → new.preAmplifier.fixedGainFactor = .nan ∨
    new.preAmplifier.enabled = false ∧ s.submodules.preAmplifier = none
  voiceDetection : (s.config.changes new).voiceDetection →
    new.voiceDetectionEnabled = false ∧ s.submodules.voiceDetector = none

section SameEffect

variable {s : AudioProcessingImpl}

theorem applyConfig_of_pipeline_eq {config : Config} (h : config.pipeline = s.config.pipeline) :
    s.applyConfig config = { s with config }.applyGroups (s.config.changes config) := by
  simp [applyConfig, applyChanges, Config.changes, h]

theorem mutateConfig_eq (mutator : Config → Config) :
    s.mutateConfig mutator = { s with config := mutator s.config }.applyGroups
      ((mutator s.config).changes (mutator s.config)) :=
  applyConfig_of_pipeline_eq rfl

variable {new : Config}

theorem StaysOff.useEchoController (h : s.StaysOff new) (hc : (s.config.changes new).aec) :
    { s with config := new }.useEchoController = false := by
  obtain ⟨hf, ho, -⟩ := h.aec hc
  simp only [AudioProcessingImpl.useEchoController, hf, ho, Bool.false_and, Bool.or_false]

theorem StaysOff.afterEcho_eq (h : s.StaysOff new) (hs : s.EchoFlagRight) :
    { s with config := new }.afterEcho (s.config.changes new).aec = { s with config := new } := by
  cases hc : (s.config.changes new).aec with
  | false => rfl
  | true =>
    have hf : { s with config := new }.useEchoController = s.echoControllerEnabled := by
      rw [h.useEchoController hc, hs, (h.aec hc).2.2.1, Option.isSome_none]
    simp only [afterEcho, hf, if_true]

theorem afterEcho_false : s.afterEcho false = s := rfl

theorem StaysOff.configuredGainController2 (h : s.StaysOff new) (hc : (s.config.changes new).agc2) :
    { s with config := new.revertInvalidGainController2 }.configuredGainController2 = none := by
  have ho : new.revertInvalidGainController2.gainController2.enabled = false := by
    unfold Config.revertInvalidGainController2
    split
    · exact (h.agc2 hc).1
    · rfl
  simp only [AudioProcessingImpl.configuredGainController2, ho, Bool.false_eq_true, if_false]

theorem StaysOff.preAmplifier_eq (h : s.StaysOff new) :
    (if new.preAmplifier.fixedGainFactor = .nan then
        { s with config := new }.configuredPreAmplifier else s.submodules.preAmplifier) =
      if (s.config.changes new).preAmplifier then { s with config := new }.configuredPreAmplifier
      else s.submodules.preAmplifier := by
  by_cases hnan : new.preAmplifier.fixedGainFactor = .nan
  · rw [if_pos hnan, if_pos (s.config.changes_preAmplifier_of_nan new hnan)]
  · rw [if_neg hnan, right_eq_ite_iff]
    intro hc
    obtain ⟨ho, hn⟩ := (h.preAmplifier hc).resolve_left hnan
    simp only [configuredPreAmplifier, ho, hn, Bool.false_eq_true, if_false]

/-- What the comparison with the older configuration initializes is absent before and after. -/
theorem sameEffect_of_staysOff (hs : s.EchoFlagRight) {mutator : Config → Config}
    (h : s.StaysOff (mutator s.config)) : s.SameEffect mutator := by
  simp only [SameEffect, getConfig, mutateConfig_eq, applyConfig_of_pipeline_eq h.pipeline,
    applyGroups_eq, Config.changes_self, h.afterEcho_eq hs, Submodules.mk.injEq, afterEcho_false,
    Bool.false_eq_true, if_false, decide_eq_true_eq, right_eq_ite_iff, true_and]
  refine ⟨⟨fun hc => ?_, fun hc => ?_, fun hc => ?_, fun hc => ?_, fun hc => ?_, fun hc => ?_,
    fun hc => ?_, h.preAmplifier_eq, fun hc => ?_⟩, fun hc => ?_⟩
  · simp only [configuredGainController1, (h.agc1 hc).1, (h.agc1 hc).2.1, Bool.not_false, if_true]
  · simp only [configuredGainController1, (h.agc1 hc).1, (h.agc1 hc).2.2, Bool.not_false, if_true]
  · rw [h.configuredGainController2 hc, (h.agc2 hc).2]
  · simp [configuredEchoController, h.useEchoController hc, (h.aec hc).2.2.1]
  · simp [configuredEchoControlMobile, h.useEchoController hc, (h.aec hc).2.1,
      (h.aec hc).2.2.2.1]
  · simp [configuredNoiseSuppressor, (h.ns hc).1, (h.ns hc).2]
  · simp [configuredTransientSuppressor, (h.ts hc).1, (h.ts hc).2]
  · simp [configuredVoiceDetector, (h.voiceDetection hc).1, (h.voiceDetection hc).2]
  · refine (h.aec hc).2.2.2.2.trans ?_
    simp [configuredLinearAecOutput, h.useEchoController hc]

end SameEffect

/-- In every reachable state `MutateConfig` has the effect of `ApplyConfig` for a mutator that
touches only what the comparisons leave out and groups that are and stay off. -/
theorem mutateConfig_sameEffect (setup : Setup) (calls : List ApiCall) (mutator : Config → Config)
    (h : (reached setup calls).StaysOff (mutator (reached setup calls).config)) :
    (reached setup calls).SameEffect mutator :=
  sameEffect_of_staysOff (reached_echoFlagRight setup calls) h

/-- With the echo canceller on, three fields of groups that are off and one that is not compared
change. -/
theorem mutateConfig_sameEffect_four_fields :
    (reached {} [.applyConfig { echoCanceller.enabled := true }]).SameEffect fun config =>
      { config with
        highPassFilter.enabled := true
        noiseSuppression.level := .kHigh
        gainController1.targetLevelDbfs := 6
        preAmplifier.fixedGainFactor := .finite 2 } :=
  mutateConfig_sameEffect {} [.applyConfig { echoCanceller.enabled := true }] _
    ⟨by decide +kernel, by decide +kernel, by decide +kernel, by decide +kernel,
      by decide +kernel, by decide +kernel, by decide +kernel, by decide +kernel⟩

theorem mutateConfig_leaves_noise_suppressor_out :
    let enable := fun config : Config => { config with noiseSuppression.enabled := true }
    let s := reached {} []
    ¬ s.SameEffect enable ∧ (s.mutateConfig enable).submodules.noiseSuppressor = none ∧
      (s.applyConfig (enable s.getConfig)).submodules.noiseSuppressor =
        some ⟨.kModerate, 16000, 1⟩ := by
  decide +kernel

end WebRtcAudio.Apm.AudioProcessingImpl
