import WebRtcAudio.Aec3.BlockProcessor

/-! Render overruns up to the next capture call: every rendered block overwrites the event kept. -/
namespace WebRtcAudio.Aec3
open WebRtcAudio.Core

namespace BlockProcessor
variable {cfg : RenderDelayConfig} {s : BlockProcessor}

def Started (s : BlockProcessor) : Prop :=
  s.renderProperlyStarted = true ∧ s.captureProperlyStarted = true

/-- The delay controller, if there is one, was reset with its confidence, and the change
reported to the echo remover is a buffer flush unless a new delay was detected. -/
def CaptureOutcome.Flushed (cfg : RenderDelayConfig) (o : CaptureOutcome) : Prop :=
  (cfg.useExternalDelayEstimator = false → .reset true ∈ o.controllerCalls) ∧
    ∃ v, o.variability = some v ∧ (v.delayChange = .kBufferFlush ∨ o.newDelayDetected = true) ∧
      ∀ r ∈ o.removerCall, r.variability = v

section
variable (s : BlockProcessor) (c : CaptureInput) (v : EchoPathVariability)

@[simp] theorem renderEvent_alignRenderBuffer :
    (s.alignRenderBuffer cfg c v).1.renderEvent = s.renderEvent := by
  unfold alignRenderBuffer
  split_ifs
  · rfl
  · dsimp only
    split <;> rfl

@[simp] theorem renderProperlyStarted_alignRenderBuffer :
    (s.alignRenderBuffer cfg c v).1.renderProperlyStarted = s.renderProperlyStarted := by
  unfold alignRenderBuffer
  split_ifs
  · rfl
  · dsimp only
    split <;> rfl

end

@[simp] theorem renderProperlyStarted_startCapture (s : BlockProcessor) :
    (s.startCapture cfg).1.renderProperlyStarted = s.renderProperlyStarted := by
  unfold startCapture
  split_ifs <;> rfl

theorem renderProperlyStarted_processCapture (s : BlockProcessor) (c : CaptureInput) :
    (s.processCapture cfg c).1.renderProperlyStarted = s.renderProperlyStarted := by
  cases hr : s.renderProperlyStarted <;> simp [processCapture, hr]

theorem processCapture_renderEvent (h : s.renderProperlyStarted = true) (c : CaptureInput) :
    (s.processCapture cfg c).1.renderEvent = .kNone := by
  simp [processCapture, h]

theorem bufferRenders_cons (s : BlockProcessor) (b : Bool) (bs : List Bool) :
    s.bufferRenders cfg (b :: bs) = (s.bufferRender cfg b).1.bufferRenders cfg bs := rfl

theorem bufferRender_started (h : Started s) (b : Bool) : Started (s.bufferRender cfg b).1 :=
  ⟨rfl, h.2⟩

theorem bufferRenders_renderEvent (s : BlockProcessor) (bs : List Bool) :
    (s.bufferRenders cfg bs).renderEvent =
      ((insertEvents cfg s.renderBuffer bs).getLast?).getD s.renderEvent := by
  induction bs generalizing s with
  | nil => rfl
  | cons b bs ih =>
    rw [bufferRenders_cons, ih]
    unfold insertEvents
    rw [runResults_cons, List.getLast?_cons, Option.getD_some]
    rfl

theorem bufferRenders_started (h : Started s) (bs : List Bool) :
    Started (s.bufferRenders cfg bs) := by
  induction bs generalizing s with
  | nil => exact h
  | cons b bs ih => exact ih (bufferRender_started h b)

theorem alignRenderBuffer_delayChange (s : BlockProcessor) (c : CaptureInput)
    (v : EchoPathVariability) : (s.alignRenderBuffer cfg c v).2.1.delayChange =
      if (s.alignRenderBuffer cfg c v).2.2 then .kNewDetectedDelay else v.delayChange := by
  cases hext : cfg.useExternalDelayEstimator <;> cases he : c.estimate <;>
    simp [alignRenderBuffer, hext, he]

theorem processCapture_outcome (cfg : RenderDelayConfig) (h : Started s) (c : CaptureInput) :
    let o := (s.processCapture cfg c).2
    (.reset true ∈ o.controllerCalls ↔
        s.renderEvent = .kRenderOverrun ∧ cfg.useExternalDelayEstimator = false) ∧
      (cfg.useExternalDelayEstimator = true → o.newDelayDetected = false) ∧
      ∃ v, o.variability = some v ∧ (∀ r ∈ o.removerCall, r.variability = v) ∧
        v.delayChange = if o.newDelayDetected then .kNewDetectedDelay
          else if s.renderEvent = .kRenderOverrun then .kBufferFlush else .kNone := by
  obtain ⟨hr, hcap⟩ := h
  intro o
  refine ⟨?_, ?_, ?_⟩
  · by_cases hov : s.renderEvent = .kRenderOverrun <;>
      cases he : cfg.useExternalDelayEstimator <;>
      simp [o, processCapture, startCapture, hr, hcap, hov, he, ifDelayController]
  · intro he
    simp [o, processCapture, hr, alignRenderBuffer, he]
  · have hv : ∃ t v, o = { controllerCalls := o.controllerCalls
                           variability := some (alignRenderBuffer cfg t c v).2.1
                           newDelayDetected := (alignRenderBuffer cfg t c v).2.2
                           removerCall := o.removerCall } ∧
        (∀ r ∈ o.removerCall, r.variability = (alignRenderBuffer cfg t c v).2.1) ∧
        v.delayChange = if s.renderEvent = .kRenderOverrun then .kBufferFlush else .kNone := by
      refine ⟨{ s with
          captureCallCounter := s.captureCallCounter + 1
          renderEvent := .kNone
          renderBuffer := (s.renderBuffer.prepareCaptureProcessing cfg).1 },
        ⟨c.echoPathGainChange, if s.renderEvent = .kRenderOverrun then .kBufferFlush
          else .kNone, false⟩, ?_, ?_, rfl⟩
      · simp [o, processCapture, startCapture, hr, hcap]
      · simp [o, processCapture, startCapture, hr, hcap]
    obtain ⟨t, v, ho, hrest, hdc⟩ := hv
    refine ⟨_, by rw [ho], hrest, ?_⟩
    rw [alignRenderBuffer_delayChange, hdc]
    rw [ho]

theorem processCapture_flushed_iff (h : Started s) (c : CaptureInput) :
    CaptureOutcome.Flushed cfg (s.processCapture cfg c).2 ↔ s.renderEvent = .kRenderOverrun := by
  obtain ⟨hreset, hnew, v, hv, hr, hdc⟩ := processCapture_outcome cfg h c
  constructor
  · rintro ⟨hc, w, hw, hf, -⟩
    obtain rfl : v = w := Option.some.inj (hv.symm.trans hw)
    cases he : cfg.useExternalDelayEstimator with
    | false => exact (hreset.mp (hc he)).1
    | true =>
      -- Without a delay controller no new delay is detected, so the flush is the overrun's.
      by_contra hov
      rw [hnew he, if_neg Bool.false_ne_true, if_neg hov] at hdc
      rcases hf with hf | hf
      · exact DelayAdjustment.noConfusion (hdc.symm.trans hf)
      · exact Bool.false_ne_true ((hnew he).symm.trans hf)
  · intro hov
    refine ⟨fun he => hreset.mpr ⟨hov, he⟩, v, hv, ?_, hr⟩
    rw [if_pos hov] at hdc
    by_cases hn : (s.processCapture cfg c).2.newDelayDetected = true
    · exact Or.inr hn
    · rw [if_neg hn] at hdc
      exact Or.inl hdc

/-- In every run, the overruns since a capture call reach the next one exactly when the last
rendered block in between is itself an overrun. -/
theorem overrun_reaches_capture_iff (cfg : RenderDelayConfig) (calls : List Call)
    (previous next : CaptureInput) (blocks : List Bool)
    (hstarted : Started (after cfg (calls ++ [.processCapture previous]))) :
    let s := after cfg (calls ++ [.processCapture previous])
    let events := insertEvents cfg s.renderBuffer blocks
    let outcome := ((s.bufferRenders cfg blocks).processCapture cfg next).2
    (.kRenderOverrun ∈ events → CaptureOutcome.Flushed cfg outcome) ↔
      (.kRenderOverrun ∈ events → events.getLast? = some .kRenderOverrun) := by
  intro s events outcome
  have hn : s.renderEvent = .kNone := by
    have hs : s = ((after cfg calls).processCapture cfg previous).1 := runState_append _ _ _ _
    have hr := hstarted.1
    change s.renderProperlyStarted = true at hr
    rw [hs, renderProperlyStarted_processCapture] at hr
    rw [hs]
    exact processCapture_renderEvent hr previous
  have hb : Started (s.bufferRenders cfg blocks) := bufferRenders_started hstarted blocks
  refine imp_congr_right fun _ => (processCapture_flushed_iff hb next).trans ?_
  rw [bufferRenders_renderEvent]
  change events.getLast?.getD s.renderEvent = _ ↔ _
  cases events.getLast? with
  | none => simp [hn]
  | some e => simp

theorem overrun_reaches_capture_of_last :
    let s := after defaultRenderDelayConfig ([.bufferRender true] ++ [.processCapture {}])
    CaptureOutcome.Flushed defaultRenderDelayConfig
      ((s.bufferRenders defaultRenderDelayConfig (List.replicate 153 true)).processCapture
        defaultRenderDelayConfig {}).2 :=
  (overrun_reaches_capture_iff defaultRenderDelayConfig [.bufferRender true] {} {}
    (List.replicate 153 true) ⟨by decide +kernel, by decide +kernel⟩).mpr
    (fun _ => by decide +kernel) (by decide +kernel)

theorem overrun_lost_before_capture :
    ¬ ∀ (cfg : RenderDelayConfig) (calls : List Call) (previous next : CaptureInput)
      (blocks : List Bool), Started (after cfg (calls ++ [.processCapture previous])) →
      let s := after cfg (calls ++ [.processCapture previous])
      .kRenderOverrun ∈ insertEvents cfg s.renderBuffer blocks →
        CaptureOutcome.Flushed cfg ((s.bufferRenders cfg blocks).processCapture cfg next).2 := by
  intro h
  have hs : Started (after defaultRenderDelayConfig
    ([.bufferRender true] ++ [.processCapture {}])) :=
    ⟨by decide +kernel, by decide +kernel⟩
  have hf := h defaultRenderDelayConfig [.bufferRender true] {} {} (List.replicate 154 true)
    hs (by decide +kernel)
  have hp := (processCapture_flushed_iff (bufferRenders_started hs _) {}).mp hf
  exact absurd hp (by decide +kernel)

end BlockProcessor
end WebRtcAudio.Aec3
