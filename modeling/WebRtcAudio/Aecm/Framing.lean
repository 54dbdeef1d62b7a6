import WebRtcAudio.CommonAudio.RingBufferRefinement

/-! `WebRtcAecm_ProcessFrame`: frames of 80 samples are cut into blocks of 64. Samples are integers.
-/
namespace WebRtcAudio.Aecm

open WebRtcAudio.CommonAudio

def frameLen : ℕ := 80

def partLen : ℕ := 64

def farBufLen : ℕ := 256

abbrev Frame := Vector ℤ frameLen

structure FrameBuffers where
  farBuf : Vector ℤ farBufLen
  farBufWritePos : ℕ
  farBufReadPos : ℤ
  lastKnownDelay : ℤ
  farFrameBuf : RingBuffer ℤ
  nearNoisyFrameBuf : RingBuffer ℤ
  nearCleanFrameBuf : RingBuffer ℤ
  outFrameBuf : RingBuffer ℤ

def initFrameBuf : RingBuffer ℤ := RingBuffer.initBuffer ⟨0, 0, frameLen + partLen, .sameWrap, []⟩

def initCore (farBuf : Vector ℤ farBufLen) : FrameBuffers :=
  ⟨farBuf, 0, 0, 0, initFrameBuf, initFrameBuf, initFrameBuf, initFrameBuf⟩

namespace FrameBuffers

def bufferFarFrame (aecm : FrameBuffers) (farend : Frame) : FrameBuffers :=
  let next := aecm.farBufWritePos + frameLen
  { aecm with
    farBuf := Vector.ofFn fun j =>
      let i := (j + farBufLen - aecm.farBufWritePos) % farBufLen
      if h : i < frameLen then farend[i] else aecm.farBuf[j]
    farBufWritePos := if farBufLen < next then next - farBufLen else next }

def fetchFarFrame (aecm : FrameBuffers) (knownDelay : ℤ) : FrameBuffers × Frame :=
  let readPos := (aecm.farBufReadPos - (knownDelay - aecm.lastKnownDelay)) % farBufLen
  let next := readPos + frameLen
  ({ aecm with
      farBufReadPos := if farBufLen < next then next - farBufLen else next
      lastKnownDelay := knownDelay },
    Vector.ofFn fun i => aecm.farBuf.toList.getD ((readPos.toNat + i) % farBufLen) 0)

/-- What a block is processed to, from the far-end block, the near-end block and, if there is one,
the near-end block after noise suppression. `none` is an error. -/
abbrev ProcessBlock := List ℤ → List ℤ → Option (List ℤ) → Option (List ℤ)

def processOneBlock (processBlock : ProcessBlock) (hasClean : Bool) (aecm : FrameBuffers) :
    Option FrameBuffers := do
  let (farFrameBuf, far) ← aecm.farFrameBuf.readBuffer true partLen
  let (nearNoisyFrameBuf, near) ← aecm.nearNoisyFrameBuf.readBuffer true partLen
  let (nearCleanFrameBuf, clean) ←
    if hasClean then
      (aecm.nearCleanFrameBuf.readBuffer true partLen).map fun r => (r.1, some (r.2.elements true))
    else some (aecm.nearCleanFrameBuf, none)
  let outBlock ← processBlock (far.elements true) (near.elements true) clean
  some { aecm with
    farFrameBuf, nearNoisyFrameBuf, nearCleanFrameBuf
    outFrameBuf := (aecm.outFrameBuf.writeBuffer outBlock).1 }

/-- Process as many blocks as possible. Each takes samples away, so that the fuel is never used
up. -/
def processBlocks (processBlock : ProcessBlock) (hasClean : Bool) :
    ℕ → FrameBuffers → Option FrameBuffers
  | 0, _ => none
  | fuel + 1, aecm =>
    if partLen ≤ aecm.farFrameBuf.availableRead then
      (aecm.processOneBlock processBlock hasClean).bind (processBlocks processBlock hasClean fuel)
    else some aecm

def stuffedOutBuf (aecm : FrameBuffers) : Option (RingBuffer ℤ) :=
  let size := Core.toInt32 aecm.outFrameBuf.availableRead
  if size < frameLen then (aecm.outFrameBuf.moveReadPtr (size - frameLen)).map (·.1)
  else some aecm.outFrameBuf

end FrameBuffers

structure FrameCall where
  farend : Frame
  nearendNoisy : Frame
  nearendClean : Option Frame := none
  knownDelay : ℤ := 0

namespace FrameBuffers

def bufferFrame (aecm : FrameBuffers) (call : FrameCall) : FrameBuffers :=
  let fetched := (aecm.bufferFarFrame call.farend).fetchFarFrame call.knownDelay
  { fetched.1 with
    farFrameBuf := (aecm.farFrameBuf.writeBuffer fetched.2.toList).1
    nearNoisyFrameBuf := (aecm.nearNoisyFrameBuf.writeBuffer call.nearendNoisy.toList).1
    nearCleanFrameBuf := call.nearendClean.elim aecm.nearCleanFrameBuf fun clean =>
      (aecm.nearCleanFrameBuf.writeBuffer clean.toList).1 }

section
variable (aecm : FrameBuffers) (call : FrameCall)
include aecm call

theorem bufferFrame_farFrameBuf : ∃ farFrame : Frame,
      (aecm.bufferFrame call).farFrameBuf = (aecm.farFrameBuf.writeBuffer farFrame.toList).1 := by
  simp only [bufferFrame]
  exact ⟨_, rfl⟩

theorem bufferFrame_nearNoisyFrameBuf : (aecm.bufferFrame call).nearNoisyFrameBuf =
      (aecm.nearNoisyFrameBuf.writeBuffer call.nearendNoisy.toList).1 := by
  simp only [bufferFrame]

theorem bufferFrame_outFrameBuf : (aecm.bufferFrame call).outFrameBuf = aecm.outFrameBuf := by
  simp only [bufferFrame, fetchFarFrame, bufferFarFrame]

end

def processBuffered (processBlock : ProcessBlock) (hasClean : Bool) (aecm : FrameBuffers) :
    Option FrameBuffers :=
  processBlocks processBlock hasClean (aecm.farFrameBuf.availableRead + 1) aecm

def processFrame (processBlock : ProcessBlock) (aecm : FrameBuffers) (call : FrameCall) :
    Option (FrameBuffers × List ℤ) := do
  let aecm ← (aecm.bufferFrame call).processBuffered processBlock call.nearendClean.isSome
  let outFrameBuf ← aecm.stuffedOutBuf
  let (outFrameBuf, out) ← outFrameBuf.readBuffer true frameLen
  some ({ aecm with outFrameBuf }, out.elements true)

end FrameBuffers

end WebRtcAudio.Aecm
