import WebRtcAudio.Aec3.RenderDelayBuffer

/-! `BlockProcessorImpl`: render buffer events on their way to the delay controller and the echo
remover. The outcome of the delay controller is an input of the call. -/
namespace WebRtcAudio.Aec3
open WebRtcAudio.Core

inductive DelayAdjustment
  | kNone
  | kBufferReadjustment
  | kBufferFlush
  | kDelayReset
  | kNewDetectedDelay
  deriving DecidableEq

structure EchoPathVariability where
  gainChange : Bool
  delayChange : DelayAdjustment
  clockDrift : Bool
  deriving DecidableEq

inductive ControllerCall
  | reset (resetDelayConfidence : Bool)
  | logRenderCall
  | getDelay (renderDelayBufferDelay : ℕ)

structure RemoverCall where
  variability : EchoPathVariability
  captureSignalSaturation : Bool
  estimatedDelay : Option DelayEstimate

structure CaptureInput where
  echoPathGainChange : Bool := false
  captureSignalSaturation : Bool := false
  estimate : Option DelayEstimate := none
  clockDrift : Bool := false

structure CaptureOutcome where
  controllerCalls : List ControllerCall := []
  variability : Option EchoPathVariability := none
  newDelayDetected : Bool := false
  removerCall : Option RemoverCall := none

structure BlockProcessor where
  captureProperlyStarted : Bool := false
  renderProperlyStarted : Bool := false
  renderBuffer : RenderDelayBuffer
  renderEvent : BufferingEvent := .kNone
  captureCallCounter : ℕ := 0
  estimatedDelay : Option DelayEstimate := none

namespace BlockProcessor
variable (cfg : RenderDelayConfig) (s : BlockProcessor)

def create : BlockProcessor := { renderBuffer := .create cfg }

def ifDelayController (call : ControllerCall) : List ControllerCall :=
  if cfg.useExternalDelayEstimator then [] else [call]

def startCapture : BlockProcessor × List ControllerCall :=
  if s.captureProperlyStarted then (s, [])
  else ({ s with captureProperlyStarted := true, renderBuffer := s.renderBuffer.reset cfg },
    ifDelayController cfg (.reset true))

def alignRenderBuffer (c : CaptureInput) (variability : EchoPathVariability) :
    BlockProcessor × EchoPathVariability × Bool :=
  if cfg.useExternalDelayEstimator then
    ({ s with renderBuffer := s.renderBuffer.alignFromExternalDelay }, variability, false)
  else
    let s := { s with estimatedDelay := c.estimate }
    match c.estimate with
    | none => (s, { variability with clockDrift := c.clockDrift }, false)
    | some estimate =>
      let (renderBuffer, delayChange) := s.renderBuffer.alignFromDelay cfg estimate.delay
      ({ s with renderBuffer },
        { variability with
          delayChange := if delayChange then .kNewDetectedDelay else variability.delayChange
          clockDrift := c.clockDrift },
        delayChange)

def processCapture (c : CaptureInput) : BlockProcessor × CaptureOutcome :=
  let s := { s with captureCallCounter := s.captureCallCounter + 1 }
  if !s.renderProperlyStarted then (s, {})
  else
    let (s, startCalls) := s.startCapture cfg
    let overrun := s.renderEvent = .kRenderOverrun ∧ s.renderProperlyStarted = true
    let variability : EchoPathVariability :=
      ⟨c.echoPathGainChange, if overrun then .kBufferFlush else .kNone, false⟩
    let overrunCalls := if overrun then ifDelayController cfg (.reset true) else []
    let (renderBuffer, bufferEvent) := s.renderBuffer.prepareCaptureProcessing cfg
    let s := { s with renderEvent := .kNone, renderBuffer }
    let underrunCalls :=
      if bufferEvent = .kRenderUnderrun then ifDelayController cfg (.reset false) else []
    let getDelayCalls := ifDelayController cfg (.getDelay (s.renderBuffer.publicDelay cfg))
    let (s, variability, newDelayDetected) := s.alignRenderBuffer cfg c variability
    (s,
      { controllerCalls := startCalls ++ overrunCalls ++ underrunCalls ++ getDelayCalls
        variability := some variability
        newDelayDetected
        removerCall :=
          if !cfg.useExternalDelayEstimator || s.renderBuffer.hasReceivedBufferDelay
          then some ⟨variability, c.captureSignalSaturation, s.estimatedDelay⟩ else none })

def bufferRender (activeRender : Bool) : BlockProcessor × List ControllerCall :=
  let (renderBuffer, renderEvent) := s.renderBuffer.insert cfg activeRender
  ({ s with renderBuffer, renderEvent, renderProperlyStarted := true },
    ifDelayController cfg .logRenderCall)

def setAudioBufferDelay (delayMs : ℤ) : BlockProcessor :=
  { s with renderBuffer := s.renderBuffer.setAudioBufferDelay delayMs }

inductive Call
  | bufferRender (activeRender : Bool)
  | processCapture (c : CaptureInput)
  | setAudioBufferDelay (delayMs : ℤ)

def step : Call → BlockProcessor × CaptureOutcome
  | .bufferRender activeRender =>
    let (s, controllerCalls) := s.bufferRender cfg activeRender
    (s, { controllerCalls })
  | .processCapture c => s.processCapture cfg c
  | .setAudioBufferDelay delayMs => (s.setAudioBufferDelay delayMs, {})

def after (calls : List Call) : BlockProcessor := runState (step cfg) (create cfg) calls

def bufferRenders (blocks : List Bool) : BlockProcessor :=
  runState (step cfg) s (blocks.map .bufferRender)

def insertEvents : RenderDelayBuffer → List Bool → List BufferingEvent :=
  runResults (RenderDelayBuffer.insert cfg)

end BlockProcessor
end WebRtcAudio.Aec3
