import WebRtcAudio.Apm.ApiCalls

/-! When a reported change of the active submodules leads to a reinitialization. -/
namespace WebRtcAudio.Apm.AudioProcessingImpl

variable (s : AudioProcessingImpl)

section Update

theorem updateActiveSubmoduleStates_of_unchanged
    (h : s.updateActiveSubmoduleStates.2 = false) : s.updateActiveSubmoduleStates.1 = s := by
  have hstates := SubmoduleStates.update_of_unchanged h
  have hf : (s.submoduleStates.update s.activeSubmodules).2 = false := h
  simp only [updateActiveSubmoduleStates, hstates, hf, Bool.or_false]

theorem updateActiveSubmoduleStates_again :
    s.updateActiveSubmoduleStates.1.updateActiveSubmoduleStates =
      (s.updateActiveSubmoduleStates.1, false) := by
  have h := SubmoduleStates.update_again s.submoduleStates s.activeSubmodules
  have hflags : s.updateActiveSubmoduleStates.1.activeSubmodules = s.activeSubmodules := rfl
  have hf : s.updateActiveSubmoduleStates.1.updateActiveSubmoduleStates.2 = false := by
    change ((s.submoduleStates.update s.activeSubmodules).1.update
      s.updateActiveSubmoduleStates.1.activeSubmodules).2 = false
    rw [hflags, h]
  exact Prod.ext (updateActiveSubmoduleStates_of_unchanged _ hf) hf

end Update

/-- The submodules were initialized after the last reported change, the high pass filter is there
if it is required, and the stream formats are accepted ones. -/
structure Settled : Prop where
  notPending : s.pendingReinitialization = false
  highPassFilter : s.submoduleStates.highPassFilteringRequired → s.submodules.highPassFilter.isSome
  accepted : s.apiFormat.check = .kNoError

section Initialize

theorem initializeSubmodules_submoduleStates :
    s.initializeSubmodules.submoduleStates = s.submoduleStates := by
  simp [initializeSubmodules, initializeHighPassFilter_eq]

theorem initializeSubmodules_apiFormat : s.initializeSubmodules.apiFormat = s.apiFormat := by
  simp [initializeSubmodules, initializeHighPassFilter_eq]

theorem initializeSubmodules_highPassFilter (h : s.submoduleStates.highPassFilteringRequired) :
    s.initializeSubmodules.submodules.highPassFilter.isSome := by
  simp [initializeSubmodules, initializeHighPassFilter_eq, configuredHighPassFilter, h]

theorem initializeLocked_settled (h : s.apiFormat.check = .kNoError) :
    s.initializeLocked.Settled where
  notPending := rfl
  highPassFilter hr := by
    refine initializeSubmodules_highPassFilter _ ?_
    rwa [← initializeSubmodules_submoduleStates]
  accepted := by
    change (initializeSubmodules _).apiFormat.check = _
    rw [initializeSubmodules_apiFormat]
    exact h

section
variable {format : ProcessingConfig}

theorem initializeLockedWith_of_accepted
    (h : format.check = .kNoError) : s.initializeLockedWith format =
      ((s.updateActiveSubmoduleStates.1.setFormats format).initializeLocked, .kNoError) := by
  simp only [initializeLockedWith, h]

theorem initializeLockedWith_of_rejected (h : format.check ≠ .kNoError) :
    s.initializeLockedWith format = (s.updateActiveSubmoduleStates.1, format.check) := by
  unfold initializeLockedWith
  split
  · contradiction
  · rfl

theorem initializeLockedWith_settled (h : format.check = .kNoError) :
    (s.initializeLockedWith format).1.Settled := by
  rw [initializeLockedWith_of_accepted s h]
  exact initializeLocked_settled _ h

end

theorem initializeLockedWith_settled_of {s : AudioProcessingImpl} (hs : s.Settled)
    {format : ProcessingConfig}
    (h : s.updateActiveSubmoduleStates.2 = false ∨ format.check = .kNoError) :
    (s.initializeLockedWith format).1.Settled := by
  by_cases ha : format.check = .kNoError
  · exact initializeLockedWith_settled s ha
  · rw [initializeLockedWith_of_rejected s ha,
      updateActiveSubmoduleStates_of_unchanged s (h.resolve_right ha)]
    exact hs

end Initialize

section ApplyConfig

theorem applyGroups_highPassFilter (changed : ConfigChanges)
    (h : s.submoduleStates.highPassFilteringRequired) :
    (s.applyGroups changed).submodules.highPassFilter.isSome := by
  simp [applyGroups_eq, configuredHighPassFilter, afterEcho, h]

section
variable {s : AudioProcessingImpl} (hs : s.Settled)
include hs

theorem applyChanges_settled (changed : ConfigChanges) : (s.applyChanges changed).Settled := by
  have ha : (s.applyGroups changed).apiFormat.check = .kNoError := by
    rw [applyGroups_eq]
    exact hs.accepted
  cases hp : changed.pipeline with
  | true =>
    simp only [applyChanges, hp, if_true]
    exact initializeLockedWith_settled _ ha
  | false =>
    simp only [applyChanges, hp]
    refine ⟨?_, fun hr => ?_, ha⟩
    · rw [applyGroups_eq]
      exact hs.notPending
    · refine applyGroups_highPassFilter s changed ?_
      rwa [applyGroups_eq] at hr

theorem Settled.setConfig (config : Config) : { s with config }.Settled :=
  ⟨hs.notPending, hs.highPassFilter, hs.accepted⟩

theorem applyConfig_settled (config : Config) : (s.applyConfig config).Settled :=
  applyChanges_settled (hs.setConfig config) _

theorem mutateConfig_settled (mutator : Config → Config) : (s.mutateConfig mutator).Settled :=
  applyConfig_settled (hs.setConfig _) _

end

end ApplyConfig

section ProcessStream

theorem SameButGains.settled {s t : AudioProcessingImpl} (h : s.SameButGains t)
    (hs : s.Settled) : t.Settled := by
  obtain ⟨_, _, _, _, rfl⟩ := h
  exact ⟨hs.notPending, hs.highPassFilter, hs.accepted⟩

variable {s : AudioProcessingImpl} {inputConfig outputConfig : StreamConfig}

theorem maybeInitializeCapture_of_lost (hc : s.updateActiveSubmoduleStates.2)
    (hr : (s.captureFormat inputConfig outputConfig).check ≠ .kNoError) :
    s.maybeInitializeCapture inputConfig outputConfig =
      (s.updateActiveSubmoduleStates.1, (s.captureFormat inputConfig outputConfig).check) := by
  simp only [maybeInitializeCapture, hc, Bool.true_or, if_true]
  rw [initializeLockedWith_of_rejected _ hr, updateActiveSubmoduleStates_again]

theorem maybeInitializeCapture_settled (hs : s.Settled)
    (h : s.updateActiveSubmoduleStates.2 = false ∨
      (s.captureFormat inputConfig outputConfig).check = .kNoError) :
    (s.maybeInitializeCapture inputConfig outputConfig).1.Settled := by
  by_cases ha : (s.captureFormat inputConfig outputConfig).check = .kNoError
  · simp only [maybeInitializeCapture]
    split
    · exact initializeLockedWith_settled _ ha
    · next hnot =>
      have hu : s.updateActiveSubmoduleStates.2 = false := by
        simp only [Bool.or_eq_true, not_or, Bool.not_eq_true] at hnot
        exact hnot.1.1
      rwa [updateActiveSubmoduleStates_of_unchanged s hu]
  · have hu := h.resolve_right ha
    have hself := updateActiveSubmoduleStates_of_unchanged s hu
    simp only [maybeInitializeCapture, hself]
    split
    · rwa [initializeLockedWith_of_rejected _ ha, hself]
    · exact hs

variable {call : CaptureCall}

theorem processStream_settled (hs : s.Settled)
    (h : call.nullPointer = false → s.updateActiveSubmoduleStates.2 = false ∨
      (s.captureFormat call.inputConfig call.outputConfig).check = .kNoError) :
    (s.processStream call).1.Settled :=
  processStream_keeps hs (fun hn => maybeInitializeCapture_settled hs (h hn))
    fun _ _ hg => hg.settled

theorem processStream_of_lost (hn : call.nullPointer = false)
    (hc : s.updateActiveSubmoduleStates.2)
    (hr : (s.captureFormat call.inputConfig call.outputConfig).check ≠ .kNoError) :
    s.processStream call = (s.updateActiveSubmoduleStates.1,
      (s.captureFormat call.inputConfig call.outputConfig).check) := by
  simp only [processStream, hn, Bool.false_eq_true, if_false,
    maybeInitializeCapture_of_lost hc hr]

theorem processStream_settled_of_noError (hs : s.Settled)
    (hre : (s.processStream call).2 = .kNoError) : (s.processStream call).1.Settled := by
  refine processStream_settled hs fun hn => ?_
  by_contra hl
  rw [not_or, Bool.not_eq_false] at hl
  rw [processStream_of_lost hn hl.1 hl.2] at hre
  exact hl.2 hre

end ProcessStream

def requestedFormat (s : AudioProcessingImpl) : ApiCall → Option ProcessingConfig
  | .initializeFormats format => some format
  | .processStream call =>
    if call.nullPointer then none else some (s.captureFormat call.inputConfig call.outputConfig)
  | .processReverseStream call =>
    if (call.nullPointer && !call.interleaved) || call.inputConfig.numChannels = 0 then none
    else some (s.renderFormat call)
  | _ => none

/-- The call asks for formats that are rejected while the flags of the active submodules are due
for an update. -/
def LosesReinitialization (call : ApiCall) : Prop :=
  s.updateActiveSubmoduleStates.2 ∧ ∃ format ∈ s.requestedFormat call, format.check ≠ .kNoError

/-- After a call to `ProcessStream` that succeeds, the submodules have been initialized since the
last change of the flags, and a required high pass filter exists. -/
def KeepsReinitialization : Prop :=
  ∀ call, (s.processStream call).2 = .kNoError →
    (s.processStream call).1.pendingReinitialization = false ∧
      ((s.processStream call).1.submoduleStates.highPassFilteringRequired →
        (s.processStream call).1.submodules.highPassFilter.isSome)

section
variable {s : AudioProcessingImpl} (hs : s.Settled)
include hs

theorem Settled.keepsReinitialization : s.KeepsReinitialization := fun _ hre =>
  have h := processStream_settled_of_noError hs hre
  ⟨h.notPending, h.highPassFilter⟩

theorem step_settled {call : ApiCall}
    (hcall : ¬ s.LosesReinitialization call) : (s.step call).1.Settled := by
  have hf : ∀ format ∈ s.requestedFormat call,
      s.updateActiveSubmoduleStates.2 = false ∨ format.check = .kNoError := by
    intro format hmem
    by_contra hl
    rw [not_or, Bool.not_eq_false] at hl
    exact hcall ⟨hl.1, format, hmem, hl.2⟩
  cases call with
  | initializeCurrent => exact initializeLocked_settled s hs.accepted
  | initializeFormats format => exact initializeLockedWith_settled_of hs (hf format rfl)
  | applyConfig config => exact applyConfig_settled hs config
  | mutateConfig mutator => exact mutateConfig_settled hs mutator
  | processStream call =>
    refine processStream_settled hs fun hn => hf _ ?_
    simp [requestedFormat, hn]
  | processReverseStream call =>
    simp only [step, processReverseStream, maybeInitializeRender]
    split_ifs with hn hc hsame
    · exact hs
    · exact hs
    · exact hs
    · refine initializeLockedWith_settled_of hs (hf _ ?_)
      simp [requestedFormat, hn, hc]

theorem step_of_loses {call : ApiCall}
    (hcall : s.LosesReinitialization call) : (s.step call).1 = s.updateActiveSubmoduleStates.1 := by
  obtain ⟨hc, format, hmem, hr⟩ := hcall
  cases call with
  | initializeCurrent => cases hmem
  | initializeFormats requested =>
    cases hmem
    simp only [step, initializeLockedWith_of_rejected s hr]
  | applyConfig config => cases hmem
  | mutateConfig mutator => cases hmem
  | processStream call =>
    cases hn : call.nullPointer with
    | true => simp [requestedFormat, hn] at hmem
    | false =>
      simp only [requestedFormat, hn, Bool.false_eq_true, if_false, Option.mem_some_iff] at hmem
      subst hmem
      simp only [step, processStream_of_lost hn hc hr]
  | processReverseStream call =>
    simp only [requestedFormat] at hmem
    split_ifs at hmem with hskip
    · cases hmem
    · cases hmem
      simp only [Bool.or_eq_true, decide_eq_true_eq, not_or] at hskip
      -- a rejected format differs from the current one, which is accepted
      have hd : s.renderFormat call ≠ s.apiFormat := fun heq =>
        hr (heq ▸ hs.accepted)
      simp only [step, processReverseStream, maybeInitializeRender, if_neg hskip.1,
        if_neg hskip.2, if_neg hd, initializeLockedWith_of_rejected s hr]

end

theorem not_keepsReinitialization_update (h : s.updateActiveSubmoduleStates.2) :
    ¬ s.updateActiveSubmoduleStates.1.KeepsReinitialization := by
  intro hk
  let t := s.updateActiveSubmoduleStates.1
  let call : CaptureCall :=
    { inputConfig := t.apiFormat.inputStream, outputConfig := t.apiFormat.outputStream }
  have hi : t.maybeInitializeCapture call.inputConfig call.outputConfig = (t, .kNoError) := by
    simp [maybeInitializeCapture, t, call, updateActiveSubmoduleStates_again]
  have hre : t.processStream call = (t, .kNoError) := by
    simp [processStream, hi, call, processCaptureStreamLocked]
  have hp : t.pendingReinitialization = true := by
    change (s.pendingReinitialization || s.updateActiveSubmoduleStates.2) = true
    rw [h, Bool.or_true]
  have hnot := (hk call (congrArg Prod.snd hre)).1
  rw [hre, hp] at hnot
  cases hnot

theorem create_settled (setup : Setup) : (create setup).Settled :=
  initializeLocked_settled _ (show ({} : ProcessingConfig).check = .kNoError by decide)

/-- In every run, each successful call to `ProcessStream` finds the submodules initialized since
the last change of the flags, exactly if no call is rejected for its formats while the flags are
due for an update. -/
theorem reinitialization_kept_iff (setup : Setup) (calls : List ApiCall) :
    (∀ pre, pre <+: calls → (reached setup pre).KeepsReinitialization) ↔
      ∀ pre call rest, calls = pre ++ call :: rest →
        ¬ (reached setup pre).LosesReinitialization call := by
  refine Core.forall_reached_iff step (fun s (hs : s.Settled) => hs.keepsReinitialization)
    (fun s call hs hc => step_settled hs hc) (fun s call hs hc => ?_)
    (create_settled setup) calls
  rw [not_not] at hc
  rw [step_of_loses hs hc]
  exact not_keepsReinitialization_update s hc.1

def rejectedAfterEnabling : List ApiCall :=
  [.applyConfig { highPassFilter := { enabled := true } },
    .processStream { inputConfig := ⟨16000, 0, false⟩, outputConfig := ⟨16000, 1, false⟩ }]

theorem reinitialization_forgotten :
    let r := (reached {} rejectedAfterEnabling).processStream
      { inputConfig := ⟨16000, 1, false⟩, outputConfig := ⟨16000, 1, false⟩ }
    Core.runResults step (create {}) rejectedAfterEnabling = [.kNoError, .kBadNumberChannelsError] ∧
      r.2 = .kNoError ∧ r.1.pendingReinitialization = true ∧
      r.1.submoduleStates.highPassFilteringRequired = true ∧
      r.1.submodules.highPassFilter = none := by
  decide +kernel

end WebRtcAudio.Apm.AudioProcessingImpl
