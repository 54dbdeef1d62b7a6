import WebRtcAudio.Aec3.BlockDelayBuffer
import WebRtcAudio.Aec3.Framing

/-! The capture path of `EchoCanceller3`. Every size check of the framing code is recorded in
order. -/
namespace WebRtcAudio.Aec3

def kSplitBandSize : ℕ := 160

inductive FramingComponent
  | captureBlocker
  | outputFramer
  | renderBlocker
  | linearOutputFramer
  deriving DecidableEq

/-- `BlockProcessor` as the framing code sees it: blocks are rewritten in place, so their sizes
do not change. A null linear output stays null. -/
structure BlockProcessorOps (σ α : Type*) (nb nc nrc : ℕ) where
  processCapture (echoPathGainChange captureSignalSaturation : Bool) (state : σ)
    (linearOutput : Option (Banded 1 nc (List α))) (captureBlock : Banded nb nc (List α)) :
    σ × Option (Banded 1 nc (List α)) × Banded nb nc (List α)
  bufferRender (state : σ) (block : Banded nb nrc (List α)) : σ
  length_captureBlock : ∀ gain sat state linear block band channel,
    ((processCapture gain sat state linear block).2.2 band channel).length =
      (block band channel).length
  length_linearOutput : ∀ gain sat state linear block,
    (processCapture gain sat state linear block).2.1.map
        (fun x band channel => (x band channel).length) =
      linear.map fun x band channel => (x band channel).length

def BlockProcessorOps.unchanged (α : Type*) (nb nc nrc : ℕ) :
    BlockProcessorOps Unit α nb nc nrc where
  processCapture _ _ _ linear block := ((), linear, block)
  bufferRender _ _ := ()
  length_captureBlock _ _ _ _ _ _ _ := rfl
  length_linearOutput _ _ _ _ _ := rfl

structure EchoCanceller3 (σ α : Type*) (nb nc nrc : ℕ) where
  blockDelayBuffer : Option (BlockDelayBuffer α)
  outputFramer : BlockFramer nb nc α
  captureBlocker : FrameBlocker nb nc α
  renderBlocker : FrameBlocker nb nrc α
  linearOutputFramer : Option (BlockFramer 1 nc α)
  linearOutputBlock : Option (Banded 1 nc (List α))
  blockProcessor : σ
  renderBlock : Banded nb nrc (List α)
  captureBlock : Banded nb nc (List α)
  checks : List (FramingComponent × SizeCheck)

/-- One `ProcessCapture` call: the frames drained from the render queue (the queue only holds
full-size frames), the capture frame, and the linear output buffer or null. -/
structure CaptureCall (α : Type*) (nb nc nrc : ℕ) where
  renderFrames : List (Banded nb nrc (List α)) := []
  capture : Banded nb nc (List α)
  linearOutput : Option (Banded 1 nc (List α)) := none
  levelChange : Bool := false
  saturatedMicrophoneSignal : Bool := false
  length_renderFrames : ∀ f ∈ renderFrames, ∀ band channel,
    (f band channel).length = kSplitBandSize := by simp
  length_capture : ∀ band channel, (capture band channel).length = kSplitBandSize
  length_linear : ∀ x ∈ linearOutput, ∀ band channel,
    (x band channel).length = kSplitBandSize := by simp

section
variable {α : Type*} {nb nc : ℕ}

def fillSubFrameView (frame : Banded nb nc (List α)) (subFrameIndex : ℕ) : Banded nb nc (List α) :=
  fun band channel =>
    ((frame band channel).drop (subFrameIndex * kSubFrameLength)).take kSubFrameLength

def storeSubFrameView (frame : Banded nb nc (List α)) (subFrameIndex : ℕ)
    (view : Banded nb nc (List α)) : Banded nb nc (List α) :=
  fun band channel =>
    (frame band channel).take (subFrameIndex * kSubFrameLength) ++ view band channel ++
      (frame band channel).drop ((subFrameIndex + 1) * kSubFrameLength)

/-- A frame as `DelaySignal` walks it: the bands of each channel. -/
def channelFrame (frame : Banded nb nc (List α)) : List (List (List α)) :=
  List.ofFn fun channel => List.ofFn fun band => frame band channel

/-- The optional delay of the capture signal. -/
def delayCapture (delay : Option (BlockDelayBuffer α)) (capture : Banded nb nc (List α)) :
    Option (BlockDelayBuffer α) × Banded nb nc (List α) :=
  match delay with
  | none => (none, capture)
  | some b =>
    match b.delaySignal (channelFrame capture) with
    | some r => (some r.1, fun band channel => BlockDelayBuffer.cell r.2 channel band)
    -- not reached: the delay buffer has the frame's shape
    | none => (some b, capture)

end

namespace EchoCanceller3
variable {σ α : Type*} {nb nc nrc : ℕ}

def create [Zero α] (exportLinearAecOutput : Bool) (fixedCaptureDelaySamples : ℕ)
    (processor : σ) : EchoCanceller3 σ α nb nc nrc where
  blockDelayBuffer :=
    if 0 < fixedCaptureDelaySamples then
      some (.create nc nb kSplitBandSize fixedCaptureDelaySamples)
    else none
  outputFramer := .create
  captureBlocker := .create
  renderBlocker := .create
  linearOutputFramer := if exportLinearAecOutput then some .create else none
  linearOutputBlock :=
    if exportLinearAecOutput then some fun _ _ => List.replicate kBlockSize 0 else none
  blockProcessor := processor
  renderBlock _ _ := List.replicate kBlockSize 0
  captureBlock _ _ := List.replicate kBlockSize 0
  checks := []

def record (s : EchoCanceller3 σ α nb nc nrc) (component : FramingComponent)
    (checks : List SizeCheck) : EchoCanceller3 σ α nb nc nrc :=
  { s with checks := s.checks ++ checks.map (component, ·) }

variable (P : BlockProcessorOps σ α nb nc nrc)

def frameLinearOutput (s : EchoCanceller3 σ α nb nc nrc) (subFrameIndex : ℕ)
    (linearOutput : Option (Banded 1 nc (List α))) :
    EchoCanceller3 σ α nb nc nrc × Option (Banded 1 nc (List α)) :=
  match linearOutput, s.linearOutputFramer, s.linearOutputBlock with
  | some out, some framer, some block =>
    let view := fillSubFrameView out subFrameIndex
    let r := framer.insertBlockAndExtractSubFrame block
    ({ s.record .linearOutputFramer (framer.insertBlockAndExtractChecks block view) with
        linearOutputFramer := some r.1 },
      some (storeSubFrameView out subFrameIndex r.2))
  | _, _, _ => (s, linearOutput)

def processCaptureFrameContent (s : EchoCanceller3 σ α nb nc nrc)
    (linearOutput : Option (Banded 1 nc (List α))) (capture : Banded nb nc (List α))
    (levelChange saturated : Bool) (subFrameIndex : ℕ) :
    EchoCanceller3 σ α nb nc nrc × Option (Banded 1 nc (List α)) × Banded nb nc (List α) :=
  let view := fillSubFrameView capture subFrameIndex
  let b := s.captureBlocker.insertSubFrameAndExtractBlock view
  let p := P.processCapture levelChange saturated s.blockProcessor s.linearOutputBlock b.2
  let f := s.outputFramer.insertBlockAndExtractSubFrame p.2.2
  let t := (s.record .captureBlocker
      (s.captureBlocker.insertSubFrameChecks view s.captureBlock)).record .outputFramer
        (s.outputFramer.insertBlockAndExtractChecks p.2.2 view)
  let u := frameLinearOutput
    { t with
      captureBlocker := b.1, outputFramer := f.1, captureBlock := p.2.2,
      linearOutputBlock := p.2.1, blockProcessor := p.1 } subFrameIndex linearOutput
  (u.1, u.2, storeSubFrameView capture subFrameIndex f.2)

def insertLinearBlock (s : EchoCanceller3 σ α nb nc nrc) : EchoCanceller3 σ α nb nc nrc :=
  match s.linearOutputFramer, s.linearOutputBlock with
  | some framer, some block =>
    { s.record .linearOutputFramer (framer.insertBlockChecks block) with
      linearOutputFramer := some (framer.insertBlock block) }
  | _, _ => s

def processRemainingCaptureFrameContent [NeZero nb] [NeZero nc]
    (s : EchoCanceller3 σ α nb nc nrc) (levelChange saturated : Bool) :
    EchoCanceller3 σ α nb nc nrc :=
  if s.captureBlocker.isBlockAvailable then
    let b := s.captureBlocker.extractBlock
    let p := P.processCapture levelChange saturated s.blockProcessor s.linearOutputBlock b.2
    let t := (s.record .captureBlocker
        (s.captureBlocker.extractBlockChecks s.captureBlock)).record .outputFramer
          (s.outputFramer.insertBlockChecks p.2.2)
    insertLinearBlock
      { t with
        captureBlocker := b.1, outputFramer := s.outputFramer.insertBlock p.2.2,
        captureBlock := p.2.2, linearOutputBlock := p.2.1, blockProcessor := p.1 }
  else s

def bufferRenderFrameContent (s : EchoCanceller3 σ α nb nc nrc)
    (renderFrame : Banded nb nrc (List α)) (subFrameIndex : ℕ) : EchoCanceller3 σ α nb nc nrc :=
  let view := fillSubFrameView renderFrame subFrameIndex
  let b := s.renderBlocker.insertSubFrameAndExtractBlock view
  { s.record .renderBlocker (s.renderBlocker.insertSubFrameChecks view s.renderBlock) with
    renderBlocker := b.1, renderBlock := b.2,
    blockProcessor := P.bufferRender s.blockProcessor b.2 }

def bufferRemainingRenderFrameContent [NeZero nb] [NeZero nrc]
    (s : EchoCanceller3 σ α nb nc nrc) : EchoCanceller3 σ α nb nc nrc :=
  if s.renderBlocker.isBlockAvailable then
    let b := s.renderBlocker.extractBlock
    { s.record .renderBlocker (s.renderBlocker.extractBlockChecks s.renderBlock) with
      renderBlocker := b.1, renderBlock := b.2,
      blockProcessor := P.bufferRender s.blockProcessor b.2 }
  else s

def bufferRenderFrame [NeZero nb] [NeZero nrc] (s : EchoCanceller3 σ α nb nc nrc)
    (frame : Banded nb nrc (List α)) : EchoCanceller3 σ α nb nc nrc :=
  bufferRemainingRenderFrameContent P
    (bufferRenderFrameContent P (bufferRenderFrameContent P s frame 0) frame 1)

def emptyRenderQueue [NeZero nb] [NeZero nrc] (s : EchoCanceller3 σ α nb nc nrc)
    (frames : List (Banded nb nrc (List α))) : EchoCanceller3 σ α nb nc nrc :=
  frames.foldl (bufferRenderFrame P) s

structure CaptureResult (α : Type*) (nb nc : ℕ) where
  capture : Banded nb nc (List α)
  linearOutput : Option (Banded 1 nc (List α))

/-- `ProcessCapture` behind the delay of the capture signal, which nothing here reads again. -/
def processFrame [NeZero nb] [NeZero nc] [NeZero nrc] (s : EchoCanceller3 σ α nb nc nrc)
    (c : CaptureCall α nb nc nrc) (capture : Banded nb nc (List α)) :
    EchoCanceller3 σ α nb nc nrc × CaptureResult α nb nc :=
  let r := emptyRenderQueue P s c.renderFrames
  let a := processCaptureFrameContent P r c.linearOutput capture c.levelChange
    c.saturatedMicrophoneSignal 0
  let b := processCaptureFrameContent P a.1 a.2.1 a.2.2 c.levelChange
    c.saturatedMicrophoneSignal 1
  (processRemainingCaptureFrameContent P b.1 c.levelChange c.saturatedMicrophoneSignal,
    ⟨b.2.2, b.2.1⟩)

def processCapture [NeZero nb] [NeZero nc] [NeZero nrc] (s : EchoCanceller3 σ α nb nc nrc)
    (c : CaptureCall α nb nc nrc) : EchoCanceller3 σ α nb nc nrc × CaptureResult α nb nc :=
  let d := delayCapture s.blockDelayBuffer c.capture
  let r := processFrame P s c d.2
  ({ r.1 with blockDelayBuffer := d.1 }, r.2)

end EchoCanceller3
end WebRtcAudio.Aec3
