import WebRtcAudio.Apm.MutateConfig

/-! Whether the submodules agree with the configuration that `GetConfig` reports. -/
namespace WebRtcAudio.Apm.AudioProcessingImpl

section Agreement

variable (s : AudioProcessingImpl) (config : Config)

def GainController2Agrees : Prop :=
  s.submodules.gainController2.map (·.config) =
    if config.gainController2.enabled then some config.gainController2 else none

def PreAmplifierAgrees : Prop :=
  s.submodules.preAmplifier =
    if config.preAmplifier.enabled then some config.preAmplifier.fixedGainFactor else none

def NoiseSuppressorAgrees : Prop :=
  s.submodules.noiseSuppressor.map (·.targetLevel) =
    if config.noiseSuppression.enabled then some config.noiseSuppression.level else none

def EchoControlAgrees : Prop :=
  s.submodules.echoController.isSome = (s.setup.echoControlFactory ||
      (config.echoCanceller.enabled && !config.echoCanceller.mobileMode)) ∧
    s.submodules.echoControlMobile.isSome = (!s.setup.echoControlFactory &&
      (config.echoCanceller.enabled && config.echoCanceller.mobileMode))

def LinearAecOutputAgrees : Prop :=
  s.linearAecOutput.isSome =
    (s.submodules.echoController.isSome && config.echoCanceller.exportLinearAecOutput)

/-- The optional submodules are those that the reported configuration asks for, with its
parameters. -/
structure Agrees : Prop where
  gainController2 : s.GainController2Agrees s.getConfig
  preAmplifier : s.PreAmplifierAgrees s.getConfig
  noiseSuppressor : s.NoiseSuppressorAgrees s.getConfig
  echoControl : s.EchoControlAgrees s.getConfig
  linearAecOutput : s.LinearAecOutputAgrees s.getConfig

end Agreement

section Configured

variable (s : AudioProcessingImpl)

theorem configuredGainController2_config : s.configuredGainController2.map (·.config) =
      if s.config.gainController2.enabled then some s.config.gainController2 else none := by
  unfold configuredGainController2
  split <;> rfl

theorem configuredNoiseSuppressor_targetLevel : s.configuredNoiseSuppressor.map (·.targetLevel) =
      if s.config.noiseSuppression.enabled then some s.config.noiseSuppression.level else none := by
  unfold configuredNoiseSuppressor
  split <;> rfl

theorem configuredEchoControlMobile_isSome :
    s.configuredEchoControlMobile.isSome = (!s.setup.echoControlFactory &&
      (s.config.echoCanceller.enabled && s.config.echoCanceller.mobileMode)) := by
  unfold configuredEchoControlMobile useEchoController
  cases s.setup.echoControlFactory <;> cases s.config.echoCanceller.enabled <;>
    cases s.config.echoCanceller.mobileMode <;> rfl

theorem configuredLinearAecOutput_isSome : s.configuredLinearAecOutput.isSome =
      (s.useEchoController && s.config.echoCanceller.exportLinearAecOutput) := by
  unfold configuredLinearAecOutput
  split <;> simp_all

end Configured

section Initialize

attribute [local simp] initializeLocked initializeSubmodules initializeHighPassFilter_eq
  updateActiveSubmoduleStates allocateFullbandAudio

variable (s : AudioProcessingImpl)

theorem initializeLocked_config : s.initializeLocked.config = s.config := by
  simp

theorem initializeLocked_setup : s.initializeLocked.setup = s.setup := by
  simp

theorem initializeLocked_echoControlAgrees : s.initializeLocked.EchoControlAgrees s.config := by
  simp [EchoControlAgrees, configuredEchoController_isSome, configuredEchoControlMobile_isSome,
    useEchoController]

variable {s}

theorem initializeLocked_agrees (h : s.PreAmplifierAgrees s.config) :
    s.initializeLocked.Agrees := by
  unfold PreAmplifierAgrees at h
  constructor <;> rw [getConfig, initializeLocked_config]
  · simp [GainController2Agrees, configuredGainController2_config]
  · simp [PreAmplifierAgrees, h]
  · simp [NoiseSuppressorAgrees, configuredNoiseSuppressor_targetLevel]
  · exact initializeLocked_echoControlAgrees s
  · simp [LinearAecOutputAgrees, configuredEchoController_isSome, configuredLinearAecOutput_isSome]

theorem initializeLockedWith_agrees (h : s.PreAmplifierAgrees s.config)
    {format : ProcessingConfig} (ha : format.check = .kNoError) :
    (s.initializeLockedWith format).1.Agrees := by
  rw [initializeLockedWith_of_accepted s ha]
  exact initializeLocked_agrees h

end Initialize

def appliedGroups (s : AudioProcessingImpl) (config : Config) : AudioProcessingImpl :=
  { s with config }.applyGroups (s.config.changes config)

section ApplyConfig

variable {s : AudioProcessingImpl} (config : Config)

theorem appliedGroups_config :
    (s.appliedGroups config).config = config.revertInvalidGainController2 := by
  rw [appliedGroups, applyGroups_eq]

/-- The groups that are compared in full agree with the new configuration, and a revision of the
second gain controller does not touch them. -/
theorem appliedGroups_preAmplifierAgrees (h : s.PreAmplifierAgrees s.config) :
    (s.appliedGroups config).PreAmplifierAgrees (s.appliedGroups config).config := by
  obtain ⟨agc2, hr⟩ := config.revertInvalidGainController2_eq
  rw [appliedGroups_config, hr]
  unfold PreAmplifierAgrees at h ⊢
  simp only [appliedGroups, applyGroups_eq]
  split
  · rfl
  · next hs =>
    -- an unchanged gain is not NaN, so that it is the same gain
    simp only [Config.changes, decide_eq_true_eq, not_or, not_not, Bool.not_eq_true] at hs
    have hg : s.config.preAmplifier.fixedGainFactor = config.preAmplifier.fixedGainFactor := by
      have hne := hs.2
      revert hne
      cases s.config.preAmplifier.fixedGainFactor <;> simp [FloatVal.ne]
    rw [h, hs.1, hg]

theorem appliedGroups_noiseSuppressorAgrees (h : s.NoiseSuppressorAgrees s.config) :
    (s.appliedGroups config).NoiseSuppressorAgrees (s.appliedGroups config).config := by
  obtain ⟨agc2, hr⟩ := config.revertInvalidGainController2_eq
  rw [appliedGroups_config, hr]
  unfold NoiseSuppressorAgrees at h ⊢
  simp only [appliedGroups, applyGroups_eq]
  split
  · exact configuredNoiseSuppressor_targetLevel _
  · next hs =>
    simp only [Config.changes, decide_eq_true_eq, not_or, not_not] at hs
    rw [h, hs.1, hs.2]

theorem appliedGroups_echoControlAgrees (h : s.EchoControlAgrees s.config) :
    (s.appliedGroups config).EchoControlAgrees (s.appliedGroups config).config := by
  obtain ⟨agc2, hr⟩ := config.revertInvalidGainController2_eq
  rw [appliedGroups_config, hr]
  unfold EchoControlAgrees at h ⊢
  simp only [appliedGroups, applyGroups_eq]
  split
  · exact ⟨configuredEchoController_isSome _, configuredEchoControlMobile_isSome _⟩
  · next hs =>
    simp only [Config.changes, decide_eq_true_eq, not_or, not_not] at hs
    rwa [hs.1, hs.2] at h

/-- The new configuration of the second gain controller takes effect: it turns the controller on or
off, or leaves it off, or is the valid one in use. -/
def GainController2Followed (old new : Config.GainController2) : Prop :=
  old.enabled ≠ new.enabled ∨ new.enabled = false ∨ new.validate = true ∧ new = old

/-- The flag for the linear output takes effect: the choice of the canceller changes, or there is
no echo controller, or the flag stays. -/
def LinearAecOutputFollowed (factory : Bool) (old new : Config.EchoCanceller) : Prop :=
  (old.enabled ≠ new.enabled ∨ old.mobileMode ≠ new.mobileMode) ∨
    (factory || (new.enabled && !new.mobileMode)) = false ∨
    old.exportLinearAecOutput = new.exportLinearAecOutput

theorem appliedGroups_gainController2Agrees_iff (h : s.GainController2Agrees s.config) :
    (s.appliedGroups config).GainController2Agrees (s.appliedGroups config).config ↔
      GainController2Followed s.config.gainController2 config.gainController2 := by
  rw [appliedGroups_config]
  unfold GainController2Agrees GainController2Followed at *
  simp only [appliedGroups, applyGroups_eq]
  by_cases hc : s.config.gainController2.enabled = config.gainController2.enabled
  · have hf : (s.config.changes config).agc2 = false := by simp [Config.changes, hc]
    simp only [hf, Bool.false_eq_true, if_false, h, hc, ne_eq, not_true_eq_false, false_or]
    -- the controller stays as it is, on or off
    by_cases hval : config.gainController2.validate = true
    · have hr : config.revertInvalidGainController2 = config := by
        simp [Config.revertInvalidGainController2, hval]
      cases he : config.gainController2.enabled <;> simp [hr, he, hval, eq_comm]
    · have hr : config.revertInvalidGainController2.gainController2 = {} := by
        simp [Config.revertInvalidGainController2, hval]
      cases config.gainController2.enabled <;> simp [hr, hval]
  · have hf : (s.config.changes config).agc2 = true := by simp [Config.changes, hc]
    simp only [hf, if_true, ne_eq, hc, not_false_eq_true, true_or, iff_true]
    exact configuredGainController2_config _

theorem appliedGroups_linearAecOutputAgrees_iff (he : s.EchoControlAgrees s.config)
    (h : s.LinearAecOutputAgrees s.config) :
    (s.appliedGroups config).LinearAecOutputAgrees (s.appliedGroups config).config ↔
      LinearAecOutputFollowed s.setup.echoControlFactory s.config.echoCanceller
        config.echoCanceller := by
  obtain ⟨agc2, hr⟩ := config.revertInvalidGainController2_eq
  rw [appliedGroups_config, hr]
  unfold LinearAecOutputAgrees LinearAecOutputFollowed EchoControlAgrees at *
  simp only [appliedGroups, applyGroups_eq]
  by_cases hc : s.config.echoCanceller.enabled ≠ config.echoCanceller.enabled ∨
      s.config.echoCanceller.mobileMode ≠ config.echoCanceller.mobileMode
  · have hf : (s.config.changes config).aec = true := by
      simpa only [Config.changes, decide_eq_true_eq] using hc
    simp only [hf, if_true, hc, true_or, iff_true]
    rw [configuredEchoController_isSome]
    exact configuredLinearAecOutput_isSome _
  · have hf : (s.config.changes config).aec = false := by
      simpa only [Config.changes, decide_eq_false_iff_not] using hc
    have hs := hc
    simp only [ne_eq, not_or, not_not] at hs
    rw [hs.1, hs.2] at he
    simp only [hf, Bool.false_eq_true, if_false, h, he.1, hc, false_or]
    cases s.setup.echoControlFactory || (config.echoCanceller.enabled &&
      !config.echoCanceller.mobileMode) <;> simp

/-- A new configuration takes effect as a whole: the pipeline changes, which initializes all but
the pre-amplifier, or both incomplete comparisons do no harm. -/
def ConfigFollowed (s : AudioProcessingImpl) (config : Config) : Prop :=
  s.config.pipeline ≠ config.pipeline ∨
    GainController2Followed s.config.gainController2 config.gainController2 ∧
      LinearAecOutputFollowed s.setup.echoControlFactory s.config.echoCanceller
        config.echoCanceller

theorem applyConfig_agrees_iff (hset : s.Settled) (h : s.Agrees) :
    (s.applyConfig config).Agrees ↔ s.ConfigFollowed config := by
  unfold ConfigFollowed
  by_cases hp : s.config.pipeline = config.pipeline
  · have hg : s.applyConfig config = s.appliedGroups config :=
      applyConfig_of_pipeline_eq hp.symm
    rw [hg, ← appliedGroups_gainController2Agrees_iff config h.gainController2,
      ← appliedGroups_linearAecOutputAgrees_iff config h.echoControl h.linearAecOutput]
    constructor
    · intro ha
      exact .inr ⟨ha.gainController2, ha.linearAecOutput⟩
    · rintro (hc | ⟨hgain, hl⟩)
      · contradiction
      · exact ⟨hgain, appliedGroups_preAmplifierAgrees config h.preAmplifier,
          appliedGroups_noiseSuppressorAgrees config h.noiseSuppressor,
          appliedGroups_echoControlAgrees config h.echoControl, hl⟩
  · refine iff_of_true ?_ (.inl hp)
    have hf : (s.config.changes config).pipeline = true := by simp [Config.changes, hp]
    have haccepted : (s.appliedGroups config).apiFormat.check = .kNoError := by
      rw [appliedGroups, applyGroups_eq]
      exact hset.accepted
    simp only [applyConfig, applyChanges, hf, if_true]
    exact initializeLockedWith_agrees
      (appliedGroups_preAmplifierAgrees config h.preAmplifier) haccepted

end ApplyConfig

theorem create_agrees (setup : Setup) : (create setup).Agrees := by
  unfold create
  exact initializeLocked_agrees rfl

def configStep (s : AudioProcessingImpl) (config : Config) : AudioProcessingImpl × ErrorCode :=
  s.step (.applyConfig config)

def configured (setup : Setup) (configs : List Config) : AudioProcessingImpl :=
  Core.runState configStep (create setup) configs

/-- Along every sequence of `ApplyConfig` calls the submodules agree with the configuration exactly
if each call changes the pipeline or touches no field that the comparisons leave out. -/
theorem configured_agrees_iff (setup : Setup) (configs : List Config) :
    (∀ pre, pre <+: configs → (configured setup pre).Agrees) ↔
      ∀ pre config rest, configs = pre ++ config :: rest →
        (configured setup pre).ConfigFollowed config := by
  refine Core.forall_reached_iff configStep (fun s (hs : s.Settled ∧ s.Agrees) => hs.2) ?_ ?_
    ⟨create_settled setup, create_agrees setup⟩ configs
  · intro s config hs hf
    exact ⟨applyConfig_settled hs.1 config, (applyConfig_agrees_iff config hs.1 hs.2).mpr hf⟩
  · intro s config hs hnot ha
    exact hnot ((applyConfig_agrees_iff config hs.1 hs.2).mp ha)

theorem configured_parameters_not_applied :
    let first : Config :=
      { gainController2 := { enabled := true }, echoCanceller := { enabled := true } }
    let second : Config :=
      { gainController2 := { enabled := true, fixedDigitalGainDb := .finite 5 }
        echoCanceller := { enabled := true, exportLinearAecOutput := true } }
    let s := configured {} [first, second]
    s.getConfig = second ∧
      s.submodules.gainController2 = some ⟨16000, { enabled := true }⟩ ∧
      s.submodules.echoController.isSome ∧ s.linearAecOutput = none := by
  decide +kernel

end WebRtcAudio.Apm.AudioProcessingImpl
