import WebRtcAudio.Apm.ConfigAgreement
import WebRtcAudio.Wrapper.AudioProcessing

/-! Which echo canceller the setters of the wrapper leave active. -/
namespace WebRtcAudio.Wrapper.AudioProcessing

open WebRtcAudio.Core WebRtcAudio.Apm List AudioProcessingImpl

def aec3Active (w : AudioProcessing) : Bool :=
  w.audioProc.any fun impl => impl.submodules.echoController.isSome

def aecmActive (w : AudioProcessing) : Bool :=
  w.audioProc.any fun impl => impl.submodules.echoControlMobile.isSome

/-- The configuration is in effect, and the canceller that was enabled last is active alone. -/
structure Right (w : AudioProcessing) (last : Option (Setter × Bool)) : Prop where
  given : w.audioProc.map (·.getConfig) = some w.apmConfig
  atMostOne : ¬ (w.aec3Active ∧ w.aecmActive)
  afterAEC : last = some (.enableAEC, true) → w.aec3Active
  afterECM : last = some (.enableECM, true) → w.aecmActive

structure Settable (config : Config) : Prop where
  pipeline : config.pipeline = {}
  gainController2 : config.gainController2.validate = true

structure Follows (impl : AudioProcessingImpl) : Prop where
  noFactory : impl.setup.echoControlFactory = false
  pipeline : impl.config.pipeline = {}
  echoControl : impl.EchoControlAgrees impl.config

section Module

variable {impl : AudioProcessingImpl} {config : Config}

theorem create_follows : Follows (.create {}) := by
  unfold create
  refine ⟨?_, ?_, ?_⟩
  · rw [initializeLocked_setup]
  · rw [initializeLocked_config]
  · rw [initializeLocked_config]
    exact initializeLocked_echoControlAgrees _

section
variable (h : Follows impl) (hco : Settable config)
include h hco

theorem Follows.applyConfig_eq : impl.applyConfig config = impl.appliedGroups config :=
  applyConfig_of_pipeline_eq (hco.pipeline.trans h.pipeline.symm)

theorem Follows.applyConfig_config : (impl.applyConfig config).config = config := by
  rw [h.applyConfig_eq hco, appliedGroups_config]
  exact if_pos hco.gainController2

theorem Follows.applyConfig : Follows (impl.applyConfig config) := by
  refine ⟨?_, ?_, ?_⟩
  · rw [h.applyConfig_eq hco, appliedGroups, applyGroups_eq]
    exact h.noFactory
  · rw [h.applyConfig_config hco]
    exact hco.pipeline
  · rw [h.applyConfig_eq hco]
    exact appliedGroups_echoControlAgrees config h.echoControl

end

theorem Follows.initializeLockedWith (h : Follows impl) (format : ProcessingConfig) :
    Follows (impl.initializeLockedWith format).1 ∧
      (impl.initializeLockedWith format).1.config = impl.config := by
  by_cases ha : format.check = .kNoError
  · rw [initializeLockedWith_of_accepted impl ha]
    refine ⟨⟨?_, ?_, ?_⟩, initializeLocked_config _⟩
    · rw [initializeLocked_setup]
      exact h.noFactory
    · rw [initializeLocked_config]
      exact h.pipeline
    · rw [initializeLocked_config]
      exact initializeLocked_echoControlAgrees _
  · rw [initializeLockedWith_of_rejected impl ha]
    exact ⟨⟨h.noFactory, h.pipeline, h.echoControl⟩, rfl⟩

end Module

structure Linked (w : AudioProcessing) : Prop where
  settable : Settable w.apmConfig
  follows : ∃ impl, w.audioProc = some impl ∧ Follows impl

def Given (w : AudioProcessing) : Prop :=
  w.audioProc.map (·.config) = some w.apmConfig

def NotMobile (config : Config.EchoCanceller) : Prop :=
  ¬ (config.enabled = true ∧ config.mobileMode = true)

section Setters

variable {w : AudioProcessing}

theorem Linked.applyConfig (h : w.Linked) : w.applyConfig.Linked ∧ w.applyConfig.Given := by
  obtain ⟨hse, impl, hi, hf⟩ := h
  refine ⟨⟨hse, impl.applyConfig w.apmConfig, ?_, hf.applyConfig hse⟩, ?_⟩
  · simp [AudioProcessing.applyConfig, hi]
  · simpa [Given, AudioProcessing.applyConfig, hi] using hf.applyConfig_config hse

theorem Linked.giveConfig (h : w.Linked) {config : Config} (hco : Settable config) :
    { w with apmConfig := config }.applyConfig.Linked ∧
      { w with apmConfig := config }.applyConfig.Given := by
  have hl : { w with apmConfig := config }.Linked := ⟨hco, h.follows⟩
  exact hl.applyConfig

theorem set_cases (h : Settable w.apmConfig) (setting : Setter × Bool) :
    w.set setting = w ∨ ∃ config, Settable config ∧
      w.set setting = { w with apmConfig := config }.applyConfig := by
  have hc : ∀ enable current new, Settable new →
      w.setIfDifferent enable current new = w ∨ ∃ config, Settable config ∧
        w.setIfDifferent enable current new = { w with apmConfig := config }.applyConfig := by
    intro enable current new hnew
    unfold setIfDifferent
    split
    · exact .inr ⟨new, hnew, rfl⟩
    · exact .inl rfl
  obtain ⟨setter, enable⟩ := setting
  cases setter <;> refine hc _ _ _ ?_ <;> exact ⟨h.pipeline, h.gainController2⟩

theorem set_settable (h : Settable w.apmConfig) (setting : Setter × Bool) :
    Settable (w.set setting).apmConfig := by
  obtain heq | ⟨config, hco, heq⟩ := set_cases h setting
  · rwa [heq]
  · rwa [heq]

theorem Linked.set (h : w.Linked) (setting : Setter × Bool) : (w.set setting).Linked := by
  obtain heq | ⟨config, hco, heq⟩ := set_cases h.settable setting
  · rwa [heq]
  · rw [heq]
    exact (h.giveConfig hco).1

theorem Linked.set_given (h : w.Linked) (hgiven : w.Given) (setting : Setter × Bool) :
    (w.set setting).Given := by
  obtain heq | ⟨config, hco, heq⟩ := set_cases h.settable setting
  · rwa [heq]
  · rw [heq]
    exact (h.giveConfig hco).2

theorem set_echoCanceller (w : AudioProcessing) (setting : Setter × Bool) :
    (w.set setting).apmConfig.echoCanceller = match setting with
      | (.enableAEC, enable) =>
        if enable ≠ w.apmConfig.echoCanceller.enabled then
          { w.apmConfig.echoCanceller with enabled := enable, mobileMode := false }
        else w.apmConfig.echoCanceller
      | (.enableECM, enable) =>
        if enable ≠ w.apmConfig.echoCanceller.mobileMode then
          { w.apmConfig.echoCanceller with enabled := false, mobileMode := enable }
        else w.apmConfig.echoCanceller
      | _ => w.apmConfig.echoCanceller := by
  have hset : ∀ enable current config, (w.setIfDifferent enable current config).apmConfig =
      if enable ≠ current then config else w.apmConfig := by
    intro enable current config
    unfold setIfDifferent
    split <;> rfl
  obtain ⟨setter, enable⟩ := setting
  cases setter <;>
    simp only [set, enableAGC, enableNS, enableVAD, enableECM, enableAEC, enableHPF, enableLE,
      hset] <;> split <;> rfl

theorem set_notMobile (h : NotMobile w.apmConfig.echoCanceller) (setting : Setter × Bool) :
    NotMobile (w.set setting).apmConfig.echoCanceller := by
  rw [set_echoCanceller]
  unfold NotMobile at *
  split
  · split <;> simp_all
  · split <;> simp_all
  · exact h

theorem Linked.active (h : w.Linked) (hg : w.Given)
    (hm : NotMobile w.apmConfig.echoCanceller) :
    w.aec3Active = w.apmConfig.echoCanceller.enabled ∧ w.aecmActive = false := by
  obtain ⟨-, impl, hi, hf⟩ := h
  have hco : impl.config = w.apmConfig := by simpa [Given, hi] using hg
  obtain ⟨haec3, ha⟩ := hf.echoControl
  rw [hf.noFactory, hco] at haec3 ha
  simp only [aec3Active, aecmActive, hi, Option.any_some, haec3, ha]
  unfold NotMobile at hm
  cases henabled : w.apmConfig.echoCanceller.enabled <;>
    cases hmode : w.apmConfig.echoCanceller.mobileMode <;> simp_all

end Setters

structure Ready (w : AudioProcessing) : Prop where
  linked : w.Linked
  given : w.Given
  notMobile : NotMobile w.apmConfig.echoCanceller

section
variable {w : AudioProcessing} (h : w.Ready)
include h

theorem Ready.set (setting : Setter × Bool) : (w.set setting).Ready :=
  ⟨h.linked.set setting, h.linked.set_given h.given setting, set_notMobile h.notMobile setting⟩

theorem Ready.setAll (calls : List (Setter × Bool)) : (w.setAll calls).Ready :=
  List.foldlRecOn calls AudioProcessing.set h fun _ hw setting _ => hw.set setting

theorem Ready.right_iff {last : Option (Setter × Bool)}
    (hAEC : last = some (.enableAEC, true) → w.apmConfig.echoCanceller.enabled = true) :
    w.Right last ↔ last ≠ some (.enableECM, true) := by
  obtain ⟨haec3, ha⟩ := h.linked.active h.given h.notMobile
  constructor
  · intro hr hl
    rw [hr.afterECM hl] at ha
    cases ha
  · intro hl
    refine ⟨h.given, ?_, fun hAEC' => haec3.trans (hAEC hAEC'), fun hECM => absurd hECM hl⟩
    rw [ha]
    simp

end

section Init

variable {w : AudioProcessing} {args : InitArguments}

theorem newAudioProc_linked (h : Settable w.apmConfig) : w.newAudioProc.Linked :=
  ⟨h, _, audioProc_newAudioProc w, create_follows⟩

theorem Linked.setAll (h : w.Linked) (calls : List (Setter × Bool)) : (w.setAll calls).Linked :=
  List.foldlRecOn calls AudioProcessing.set h fun _ hw setting _ => hw.set setting

theorem setAll_defaultSettings_notMobile (w : AudioProcessing) :
    NotMobile (w.setAll defaultSettings).apmConfig.echoCanceller := by
  simp only [AudioProcessing.setAll, defaultSettings, foldl_cons, foldl_nil,
    set_echoCanceller, NotMobile]
  obtain ⟨enabled, mobileMode, exportLinear, enforce⟩ := w.apmConfig.echoCanceller
  cases enabled <;> cases mobileMode <;> simp

theorem setAll_defaultSettings_given (h : w.Linked)
    (hf : w.apmConfig.highPassFilter.enabled = false) : (w.setAll defaultSettings).Given := by
  have hfirst : (w.set (.enableHPF, true)).Linked ∧ (w.set (.enableHPF, true)).Given := by
    refine ⟨h.set _, ?_⟩
    simp only [AudioProcessing.set, enableHPF, setIfDifferent, hf, ne_eq, Bool.true_eq_false,
      not_false_eq_true, if_true]
    refine (h.giveConfig ?_).2
    exact ⟨h.settable.pipeline, h.settable.gainController2⟩
  exact (List.foldlRecOn (motive := fun w => w.Linked ∧ w.Given) defaultSettings.tail
    AudioProcessing.set hfirst fun _ hw setting _ =>
      ⟨hw.1.set setting, hw.1.set_given hw.2 setting⟩).2

theorem linked_before_defaultSettings (h : Settable w.apmConfig) (args : InitArguments) :
    { w with nSamplesPerChannel := args.inSamplerate.tdiv 100 }.newAudioProc.Linked :=
  newAudioProc_linked (w := { w with nSamplesPerChannel := args.inSamplerate.tdiv 100 }) h

theorem prepare_linked (h : Settable w.apmConfig) (args : InitArguments) :
    (w.prepare args).Linked := by
  obtain ⟨hse, impl, hi, hf⟩ :=
    (linked_before_defaultSettings h args).setAll defaultSettings
  exact ⟨hse, impl, audioProc_newStreamConfigs _ _ hi, hf⟩

theorem prepare_given (h : Settable w.apmConfig)
    (hf : w.apmConfig.highPassFilter.enabled = false) (args : InitArguments) :
    (w.prepare args).Given := by
  have hl := linked_before_defaultSettings h args
  have hg := setAll_defaultSettings_given hl hf
  obtain ⟨-, impl, hi, -⟩ := hl.setAll defaultSettings
  unfold Given at hg ⊢
  rw [hi] at hg
  rw [prepare, audioProc_newStreamConfigs _ _ hi]
  exact hg

theorem initializeAudioProc_linked (h : w.Linked) (format : ProcessingConfig) :
    (w.initializeAudioProc format).1.Linked := by
  obtain ⟨hse, impl, hi, hf⟩ := h
  refine ⟨hse, (impl.initializeLockedWith format).1, ?_,
    (hf.initializeLockedWith format).1⟩
  simp [initializeAudioProc, hi]

theorem initializeAudioProc_given (h : w.Linked) (hg : w.Given) (format : ProcessingConfig) :
    (w.initializeAudioProc format).1.Given := by
  obtain ⟨-, impl, hi, hf⟩ := h
  have hco : impl.config = w.apmConfig := by simpa [Given, hi] using hg
  have hk := (hf.initializeLockedWith format).2
  simpa [Given, initializeAudioProc, hi, hk] using hco

theorem init_notMobile (w : AudioProcessing) (args : InitArguments) :
    NotMobile (w.init args).1.apmConfig.echoCanceller := by
  have h := setAll_defaultSettings_notMobile
    { w with nSamplesPerChannel := args.inSamplerate.tdiv 100 }.newAudioProc
  obtain heq | heq := init_cases w args
  · rw [heq]
    exact h
  · rw [heq]
    exact h

theorem init_ready (h : Settable w.apmConfig)
    (hi : w.apmConfig.highPassFilter.enabled = false ∨ (w.init args).2 = true) :
    (w.init args).1.Ready := by
  have hn := init_notMobile w args
  have hl := initializeAudioProc_linked (prepare_linked h args) args.format
  obtain heq | heq := init_cases w args
  · rw [heq] at hn ⊢
    exact ⟨hl.applyConfig.1, hl.applyConfig.2, hn⟩
  · rw [heq] at hi hn ⊢
    have hf := hi.resolve_right Bool.false_ne_true
    exact ⟨hl, initializeAudioProc_given (prepare_linked h args) (prepare_given h hf args)
      args.format, hn⟩

theorem init_settable (h : Settable w.apmConfig) (args : InitArguments) :
    Settable (w.init args).1.apmConfig := by
  have hpr := (prepare_linked h args).settable
  obtain heq | heq := init_cases w args
  · rw [heq]
    exact hpr
  · rw [heq]
    exact hpr

theorem reached_settable (pointers : UnsetPointers) (calls : List Call) :
    Settable (reached pointers calls).apmConfig := by
  unfold reached
  have hs : ∀ w call, Settable w.apmConfig → True → Settable (step w call).1.apmConfig := by
    intro w call h _
    cases call with
    | init args => exact init_settable h args
    | set setting => exact set_settable h setting
    | setStreamDelay delay => exact h
  exact runState_invariant step hs ⟨rfl, rfl⟩ fun _ _ => trivial

end Init

/-- On every instance, after an `init` that succeeds or is the first call, every sequence of setters
leaves what is expected exactly if it does not turn AECM on. -/
theorem setAll_right_iff (pointers : UnsetPointers) (before : List Call) (args : InitArguments)
    (hinit : before = [] ∨ ((reached pointers before).init args).2 = true)
    (calls : List (Setter × Bool)) : (∀ pre, pre <+: calls →
        (((reached pointers before).init args).1.setAll pre).Right pre.getLast?) ↔
      (Setter.enableECM, true) ∉ calls := by
  have hr : ((reached pointers before).init args).1.Ready := by
    refine init_ready (reached_settable pointers before) (hinit.imp_left ?_)
    rintro rfl
    rfl
  generalize ((reached pointers before).init args).1 = w at hr ⊢
  have hs : ∀ pre, (w.setAll pre).Right pre.getLast? ↔
      pre.getLast? ≠ some (.enableECM, true) := by
    intro pre
    refine (hr.setAll pre).right_iff fun hl => ?_
    obtain ⟨front, rfl⟩ := List.getLast?_eq_some_iff.mp hl
    simp only [setAll, foldl_append, foldl_cons, foldl_nil, set_echoCanceller]
    split <;> simp_all
  simp only [hs]
  constructor
  · intro h hmem
    obtain ⟨front, back, rfl⟩ := append_of_mem hmem
    refine h (front ++ [(.enableECM, true)]) ⟨back, by simp⟩ ?_
    exact List.getLast?_concat
  · intro h pre hpre hl
    exact h (hpre.subset (mem_of_getLast? hl))

theorem setAll_right_after_toggling :
    (((createAudioProcessing {}).init ⟨16000, 1, 16000, 1⟩).1.setAll
      [(.enableAEC, false), (.enableAEC, true)]).Right (some (.enableAEC, true)) :=
  (setAll_right_iff {} [] ⟨16000, 1, 16000, 1⟩ (.inl rfl)
    [(.enableAEC, false), (.enableAEC, true)]).mpr (by decide) _ (prefix_refl _)

theorem setAll_enableECM_leaves_none :
    let r := (createAudioProcessing {}).init ⟨16000, 1, 16000, 1⟩
    r.2 = true ∧ r.1.aec3Active = true ∧
      (r.1.setAll [(.enableECM, true)]).aecmActive = false ∧
      (r.1.setAll [(.enableECM, true)]).aec3Active = false := by
  decide +kernel

end WebRtcAudio.Wrapper.AudioProcessing
