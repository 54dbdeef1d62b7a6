import WebRtcAudio.Core.Run
import WebRtcAudio.Aec3.Common
import WebRtcAudio.Aec3.IndexedBuffer

/-! `RenderDelayBufferImpl`: indices, counters and reported delays, without the sample data. -/
namespace WebRtcAudio.Aec3
open WebRtcAudio.Core

inductive BufferingEvent
  | kNone
  | kRenderUnderrun
  | kRenderOverrun
  | kApiCallSkew
  deriving DecidableEq

structure RenderDelayBuffer where
  blocks : BlockBuffer
  spectra : SpectrumBuffer
  ffts : FftBuffer
  lowRate : DownsampledRenderBuffer
  delay : Option ℕ
  lastCallWasRender : Bool := false
  numApiCallsInARow : ℤ := 0
  maxObservedJitter : ℤ := 1
  captureCallCounter : ℤ := 0
  renderCallCounter : ℤ := 0
  renderActivity : Bool := false
  renderActivityCounter : ℕ := 0
  externalAudioBufferDelay : Option ℤ := none
  externalAudioBufferDelayVerifiedAfterReset : Bool := false
  minLatencyBlocks : ℕ := 0
  excessRenderDetectionCounter : ℕ := 0
  echoRemoverRenderActivity : Bool := false

namespace RenderDelayBuffer
variable (cfg : RenderDelayConfig) (s : RenderDelayBuffer)

def bufferLatency : ℤ :=
  let latencySamples := toInt32 (toSizeT (s.lowRate.size + s.lowRate.read - s.lowRate.write) %
    toSizeT s.lowRate.size : ℕ)
  latencySamples.tdiv cfg.subBlockSize

def mapDelayToTotalDelay (externalDelayBlocks : ℕ) : ℤ :=
  s.bufferLatency cfg + toInt32 externalDelayBlocks

def computeDelay : ℤ :=
  let internalDelay := if s.spectra.write ≤ s.spectra.read
    then s.spectra.read - s.spectra.write
    else s.spectra.size + s.spectra.read - s.spectra.write
  internalDelay - s.bufferLatency cfg

def publicDelay : ℕ := toSizeT (s.computeDelay cfg)

def applyTotalDelay (delay : ℤ) : RenderDelayBuffer :=
  { s with
    blocks := s.blocks.readFromWrite (-delay)
    spectra := s.spectra.readFromWrite delay
    ffts := s.ffts.readFromWrite delay }

/-- `ApplyTotalDelay` with its `int` arithmetic, for delays without a bound. -/
def applyTotalDelay? (delay : ℤ) : Option RenderDelayBuffer := do
  let blocksRead ← s.blocks.offsetIndex? s.blocks.write (← int32? (-delay))
  let spectraRead ← s.spectra.offsetIndex? s.spectra.write delay
  let fftsRead ← s.ffts.offsetIndex? s.ffts.write delay
  return { s with
    blocks.read := blocksRead, spectra.read := spectraRead, ffts.read := fftsRead }

def audioBufferDelayToSet (externalDelay : ℤ) : ℕ :=
  let headroom := 2
  if externalDelay ≤ headroom then 1 else toSizeT (externalDelay - headroom)

def reset : RenderDelayBuffer :=
  let s := { s with
    lastCallWasRender := false
    numApiCallsInARow := 1
    minLatencyBlocks := 0
    excessRenderDetectionCounter := 0
    lowRate := s.lowRate.readFromWrite cfg.subBlockSize }
  match s.externalAudioBufferDelay with
  | some externalDelay =>
    let s := s.applyTotalDelay
      (toInt32 (min (audioBufferDelayToSet externalDelay) cfg.maxDelay : ℕ))
    { s with
      delay := some (toSizeT (s.computeDelay cfg))
      externalAudioBufferDelayVerifiedAfterReset := false }
  | none => { s.applyTotalDelay (toInt32 cfg.defaultDelay) with delay := none }

def create : RenderDelayBuffer :=
  reset cfg
    { blocks := { size := toInt32 cfg.ringSize }
      spectra := { size := toInt32 cfg.ringSize }
      ffts := { size := toInt32 cfg.ringSize }
      lowRate := { size := toInt32 cfg.lowRateSize }
      delay := some cfg.defaultDelay }

def observeApiCall (isRender : Bool) : RenderDelayBuffer :=
  if s.delay.isSome then
    if s.lastCallWasRender ≠ isRender then
      { s with lastCallWasRender := isRender, numApiCallsInARow := 1 }
    else if s.maxObservedJitter < s.numApiCallsInARow + 1 then
      { s with
        numApiCallsInARow := s.numApiCallsInARow + 1
        maxObservedJitter := s.numApiCallsInARow + 1 }
    else { s with numApiCallsInARow := s.numApiCallsInARow + 1 }
  else s

def incrementWriteIndices : RenderDelayBuffer :=
  { s with
    lowRate := s.lowRate.updateWriteIndex (-cfg.subBlockSize)
    blocks := s.blocks.incWriteIndex
    spectra := s.spectra.decWriteIndex
    ffts := s.ffts.decWriteIndex }

def incrementLowRateReadIndices : RenderDelayBuffer :=
  { s with lowRate := s.lowRate.updateReadIndex (-cfg.subBlockSize) }

def incrementReadIndices : RenderDelayBuffer :=
  if s.blocks.read ≠ s.blocks.write then
    { s with
      blocks := s.blocks.incReadIndex
      spectra := s.spectra.decReadIndex
      ffts := s.ffts.decReadIndex }
  else s

def renderOverrun : Bool :=
  s.lowRate.read = s.lowRate.write ∨ s.blocks.read = s.blocks.write

def renderUnderrun : Bool := s.lowRate.read = s.lowRate.write

def detectRenderActivity (activeRender : Bool) : RenderDelayBuffer :=
  if s.renderActivity then s
  else
    let counter := s.renderActivityCounter + if activeRender then 1 else 0
    { s with renderActivityCounter := counter, renderActivity := 20 ≤ counter }

def insert (activeRender : Bool) : RenderDelayBuffer × BufferingEvent :=
  let s := { s with renderCallCounter := s.renderCallCounter + 1 }
  let s := (s.observeApiCall true).incrementWriteIndices cfg
  let event := if s.renderOverrun then BufferingEvent.kRenderOverrun else .kNone
  let s := s.detectRenderActivity activeRender
  (if event ≠ .kNone then s.reset cfg else s, event)

def detectExcessRenderBlocks : RenderDelayBuffer × Bool :=
  let latencyBlocks := toSizeT (s.bufferLatency cfg)
  let minLatencyBlocks := min s.minLatencyBlocks latencyBlocks
  let counter := s.excessRenderDetectionCounter + 1
  if cfg.excessRenderDetectionIntervalBlocks ≤ counter then
    ({ s with minLatencyBlocks := latencyBlocks, excessRenderDetectionCounter := 0 },
      cfg.maxAllowedExcessRenderBlocks < minLatencyBlocks)
  else
    ({ s with minLatencyBlocks := minLatencyBlocks, excessRenderDetectionCounter := counter },
      false)

def reportRenderActivity : RenderDelayBuffer :=
  let s := { s with echoRemoverRenderActivity := s.renderActivity }
  if s.renderActivity then { s with renderActivityCounter := 0, renderActivity := false } else s

def prepareCaptureProcessing : RenderDelayBuffer × BufferingEvent :=
  let s := { s with captureCallCounter := s.captureCallCounter + 1 }
  let (s, excess) := (s.observeApiCall false).detectExcessRenderBlocks cfg
  if excess then ((s.reset cfg).reportRenderActivity, .kRenderOverrun)
  else if s.renderUnderrun then
    -- The low-rate buffer stays put, so the delay shrinks by one block.
    let s := s.incrementReadIndices
    ({ s with delay := s.delay.map (· - 1) }.reportRenderActivity, .kRenderUnderrun)
  else (((s.incrementLowRateReadIndices cfg).incrementReadIndices).reportRenderActivity, .kNone)

def alignFromDelay (delay : ℕ) : RenderDelayBuffer × Bool :=
  let s := if !s.externalAudioBufferDelayVerifiedAfterReset &&
      s.externalAudioBufferDelay.isSome && s.delay.isSome
    then { s with externalAudioBufferDelayVerifiedAfterReset := true } else s
  if s.delay = some delay then (s, false)
  else
    let s := { s with delay := some delay }
    let totalDelay := min cfg.maxDelay (toSizeT (max (s.mapDelayToTotalDelay cfg delay) 0))
    (s.applyTotalDelay (toInt32 totalDelay), true)

def externalTotalDelay (externalDelay : ℤ) : ℤ :=
  toInt32 (s.renderCallCounter - s.captureCallCounter + externalDelay)

def alignFromExternalDelay? : Option RenderDelayBuffer :=
  match s.externalAudioBufferDelay with
  | some externalDelay => s.applyTotalDelay? (s.externalTotalDelay externalDelay)
  | none => some s

def alignFromExternalDelay : RenderDelayBuffer := s.alignFromExternalDelay?.getD s

def setAudioBufferDelay (delayMs : ℤ) : RenderDelayBuffer :=
  { s with externalAudioBufferDelay := some (delayMs.tdiv 4) }

def hasReceivedBufferDelay : Bool := s.externalAudioBufferDelay.isSome

inductive Call
  | insert (activeRender : Bool)
  | prepareCaptureProcessing
  | alignFromDelay (delay : ℕ)
  | alignFromExternalDelay
  | setAudioBufferDelay (delayMs : ℤ)
  | reset

inductive Result
  | event (e : BufferingEvent)
  | changed (b : Bool)
  | done
  deriving DecidableEq

def step : Call → RenderDelayBuffer × Result
  | .insert activeRender => (s.insert cfg activeRender).map id .event
  | .prepareCaptureProcessing => (s.prepareCaptureProcessing cfg).map id .event
  | .alignFromDelay delay => (s.alignFromDelay cfg delay).map id .changed
  | .alignFromExternalDelay => (s.alignFromExternalDelay, .done)
  | .setAudioBufferDelay delayMs => (s.setAudioBufferDelay delayMs, .done)
  | .reset => (s.reset cfg, .done)

def after (calls : List Call) : RenderDelayBuffer := runState (step cfg) (create cfg) calls

end RenderDelayBuffer
end WebRtcAudio.Aec3
