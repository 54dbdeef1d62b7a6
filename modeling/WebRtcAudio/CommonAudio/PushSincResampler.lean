import WebRtcAudio.CommonAudio.SincResampler

/-! `PushSincResampler`: each call provides one block of input to a callback. -/
namespace WebRtcAudio.CommonAudio

open WebRtcAudio.Core

inductive Samples (F : Type) where
  | float (xs : List F)
  | int16 (xs : List Int16)

inductive Block where
  | dummy
  | input

structure Supply (F : Type) where
  source : Samples F
  firstPass : Bool
  sourceAvailable : ℕ
  requests : List Block

variable {F : Type} (arith : SampleArith F)

def Samples.length : Samples F → ℕ
  | .float xs => xs.length
  | .int16 xs => xs.length

def Samples.read (source : Samples F) (frames : ℕ) : Option (List F) :=
  match source with
  | .float xs => Memory.slice xs 0 frames
  | .int16 xs => (Memory.slice xs 0 frames).map fun read => read.map arith.ofInt16

def Supply.run (s : Supply F) (frames : ℕ) : Option (Supply F × List F) :=
  if s.sourceAvailable = frames then
    if s.firstPass then
      some ({ s with firstPass := false, requests := s.requests ++ [.dummy] },
        List.replicate frames arith.zero)
    else do
      let block ← s.source.read arith frames
      return ({ s with
        sourceAvailable := s.sourceAvailable - frames
        requests := s.requests ++ [.input] }, block)
  else none

structure PushSincResampler (F : Type) where
  resampler : SincResampler F
  floatBuffer : Option (List F)
  destinationFrames : ℕ
  firstPass : Bool
  sourceAvailable : ℕ

/-- A call of `Resample` for `float` or for `int16_t`. The source and the destination are as long
as the call says. -/
inductive ResampleCall (F : Type) where
  | float (source destination : List F)
  | int16 (source destination : List Int16)

structure ResampleResult (F : Type) where
  requests : List Block
  frames : ℕ
  destination : Samples F

namespace PushSincResampler

def new (sourceFrames destinationFrames : ℕ) (kernelStorage : List F) :
    Option (PushSincResampler F) := do
  let resampler ← SincResampler.new arith (sourceFrames / destinationFrames) sourceFrames
    kernelStorage
  return ⟨resampler, none, destinationFrames, true, 0⟩

def resampleFirst (fuel : ℕ) (p : PushSincResampler F) (supply : Supply F) (destination : List F) :
    Option (SincResampler F × Supply F × List F) :=
  if p.firstPass then do
    let (samples, resampler, supply) ←
      p.resampler.resample arith (Supply.run arith) fuel supply p.resampler.chunkSize
    let destination ← Memory.copy destination 0 samples
    return (resampler, supply, destination)
  else some (p.resampler, supply, destination)

def resampleToFloat (fuel : ℕ) (p : PushSincResampler F) (source : Samples F)
    (destination : List F) : Option (PushSincResampler F × List Block × List F) :=
  if source.length = p.resampler.requestFrames ∧ p.destinationFrames ≤ destination.length then do
    let (resampler, supply, destination) ←
      p.resampleFirst arith fuel ⟨source, p.firstPass, source.length, []⟩ destination
    let (samples, resampler, supply) ←
      resampler.resample arith (Supply.run arith) fuel supply p.destinationFrames
    let destination ← Memory.copy destination 0 samples
    return ({ p with
      resampler := resampler
      firstPass := supply.firstPass
      sourceAvailable := supply.sourceAvailable }, supply.requests, destination)
  else none

def resample (fuel : ℕ) (held : ℕ → F) (p : PushSincResampler F) (call : ResampleCall F) :
    Option (PushSincResampler F × ResampleResult F) :=
  match call with
  | .float source destination => do
    let (p, requests, destination) ← p.resampleToFloat arith fuel (.float source) destination
    return (p, ⟨requests, p.destinationFrames, .float destination⟩)
  | .int16 source destination => do
    let floatBuffer := p.floatBuffer.getD ((List.range p.destinationFrames).map held)
    let (p, requests, floatBuffer) ← p.resampleToFloat arith fuel (.int16 source) floatBuffer
    let converted ← Memory.slice floatBuffer 0 p.destinationFrames
    let destination ← Memory.copy destination 0 (converted.map arith.floatS16ToS16)
    return ({ p with floatBuffer := some floatBuffer },
      ⟨requests, p.destinationFrames, .int16 destination⟩)

end PushSincResampler

end WebRtcAudio.CommonAudio
