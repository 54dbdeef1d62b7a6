import WebRtcAudio.Core.Run
import WebRtcAudio.CommonAudio.PushSincResampler
import WebRtcAudio.CommonAudio.SincResamplerBlocks

/-! Each call of a `PushSincResampler` asks for one block and stays inside of the input buffer. -/
namespace WebRtcAudio.CommonAudio

open WebRtcAudio.Core List Option

variable {F : Type} {source : Samples F} {frames : ℕ}

theorem Samples.read_spec (arith : SampleArith F) (h : source.length = frames) :
    ∃ block, source.read arith frames = some block ∧ block.length = frames := by
  cases source with
  | float xs =>
    have hs : Memory.slice xs 0 frames = some _ :=
      Memory.slice_eq_some (by rw [← h]; simp [length])
    exact ⟨_, hs, Memory.length_of_slice hs⟩
  | int16 xs =>
    have hs : Memory.slice xs 0 frames = some _ :=
      Memory.slice_eq_some (by rw [← h]; simp [length])
    refine ⟨_, by rw [read, hs, map_some], ?_⟩
    rw [length_map, Memory.length_of_slice hs]

theorem Supply.run_dummy (arith : SampleArith F) (source : Samples F) (frames : ℕ) :
    Supply.run arith ⟨source, true, frames, []⟩ frames =
      some (⟨source, false, frames, [.dummy]⟩, replicate frames arith.zero) := by
  rw [run, if_pos rfl, if_pos rfl]
  rfl

theorem Supply.run_input (arith : SampleArith F) (h : source.length = frames)
    (requests : List Block) : ∃ block, Supply.run arith ⟨source, false, frames, requests⟩ frames =
        some (⟨source, false, 0, requests ++ [.input]⟩, block) ∧ block.length = frames := by
  obtain ⟨block, hb, hl⟩ := source.read_spec arith h
  refine ⟨block, ?_, hl⟩
  rw [run, if_pos rfl, if_neg Bool.false_ne_true, hb, bind_eq_bind, bind_some, Nat.sub_self]
  rfl

namespace PushSincResampler

/-- Between two calls: the next source index is less than a step before the end of the block. -/
structure Ready (p : PushSincResampler F) (sourceFrames destinationFrames : ℕ) (first : Bool) :
    Prop where
  destinationFrames_eq : p.destinationFrames = destinationFrames
  firstPass_eq : p.firstPass = first
  length_floatBuffer : ∀ buffer ∈ p.floatBuffer, buffer.length = destinationFrames
  laidOut : p.resampler.LaidOut sourceFrames (sourceFrames / destinationFrames)
    (if first then kKernelSize / 2 else kKernelSize)
  bufferPrimed_eq : p.resampler.bufferPrimed = !first
  start : first = true → p.resampler.virtualSourceIdx = 0
  before_end : first = false → p.resampler.virtualSourceIdx ≤ p.resampler.blockSize
  near_end : first = false →
    (p.resampler.blockSize : ℚ) < p.resampler.virtualSourceIdx + sourceFrames / destinationFrames

def Overwritten (n : ℕ) : ResampleCall F → Samples F → Prop
  | .float _ destination, after => ∃ samples : List F, samples.length = n ∧
      after = .float (writeAt destination 0 samples)
  | .int16 _ destination, after => ∃ samples : List Int16, samples.length = n ∧
      after = .int16 (writeAt destination 0 samples)

def DeclaredLengths (sourceFrames destinationFrames : ℕ) : ResampleCall F → Prop
  | .float source destination =>
    source.length = sourceFrames ∧ destinationFrames ≤ destination.length
  | .int16 source destination =>
    source.length = sourceFrames ∧ destinationFrames ≤ destination.length

def requestsOf (first : Bool) : List Block := if first then [.dummy, .input] else [.input]

variable {kernelStorage destination : List F}

section
variable {p : PushSincResampler F} {sourceFrames destinationFrames : ℕ}

theorem new_ready (arith : SampleArith F) (hso : 48 < sourceFrames) (destinationFrames : ℕ)
    (hk : kernelStorage.length = kKernelStorageSize) :
    ∃ p, new arith sourceFrames destinationFrames kernelStorage = some p ∧
      p.Ready sourceFrames destinationFrames true := by
  obtain ⟨r, hr, hl, hidx, hp⟩ :=
    SincResampler.new_spec arith (sourceFrames / destinationFrames) hso hk
  refine ⟨⟨r, none, destinationFrames, true, 0⟩, by rw [new, hr]; rfl, ?_⟩
  exact ⟨rfl, rfl, by simp, hl, hp, fun _ => hidx, by simp, by simp⟩

variable {first : Bool} {destination : List F}

theorem Ready.resampleFirst_spec (h : p.Ready sourceFrames destinationFrames first)
    (hsizes : SincResampler.FrameSizes sourceFrames destinationFrames)
    (source : Samples F) (hcap : destinationFrames ≤ destination.length)
    (arith : SampleArith F) (fuel : ℕ) : ∃ (r : SincResampler F) (samples : List F),
      p.resampleFirst arith (fuel + 1) ⟨source, first, sourceFrames, []⟩ destination =
        some (r, ⟨source, false, sourceFrames, if first then [.dummy] else []⟩,
          writeAt destination 0 samples) ∧ samples.length ≤ destinationFrames ∧
      r.LaidOut sourceFrames (sourceFrames / destinationFrames)
        (if first then kKernelSize / 2 else kKernelSize) ∧ r.bufferPrimed = true ∧
      r.virtualSourceIdx ≤ r.blockSize ∧
      (r.blockSize : ℚ) < r.virtualSourceIdx + sourceFrames / destinationFrames := by
  cases first with
  | false =>
    refine ⟨p.resampler, [], ?_, Nat.zero_le _, h.laidOut, h.bufferPrimed_eq, h.before_end rfl,
      h.near_end rfl⟩
    rw [resampleFirst, h.firstPass_eq, writeAt_nil]
    rfl
  | true =>
    obtain ⟨samples, r, hr, hl, hlaid, hp, hbe, hn⟩ :=
      h.laidOut.resample_first_spec hsizes rfl (h.start rfl) h.bufferPrimed_eq
        (Supply.run_dummy arith source sourceFrames)
        length_replicate arith fuel
    refine ⟨r, samples, ?_, hl, hlaid, hp, hbe, hn⟩
    rw [resampleFirst, h.firstPass_eq, if_pos rfl, hr, bind_eq_bind, bind_some]
    dsimp only
    rw [Memory.copy_eq_some (by omega)]
    rfl

theorem writeAt_zero_writeAt_zero {d xs ys : List F} (h : xs.length ≤ ys.length) :
    writeAt (writeAt d 0 xs) 0 ys = writeAt d 0 ys := by
  rw [writeAt_zero, writeAt_zero, writeAt_zero, drop_append, drop_of_length_le h,
    nil_append, drop_drop, Nat.add_sub_cancel' h]

section
variable (h : p.Ready sourceFrames destinationFrames first)
  (hsizes : SincResampler.FrameSizes sourceFrames destinationFrames)
include h hsizes

theorem Ready.resampleToFloat_spec (hl : source.length = sourceFrames)
    (hcap : destinationFrames ≤ destination.length) (arith : SampleArith F) (fuel : ℕ) :
    ∃ (p' : PushSincResampler F) (samples : List F),
      p.resampleToFloat arith (fuel + 2) source destination =
        some (p', requestsOf first, writeAt destination 0 samples) ∧
      samples.length = destinationFrames ∧ p'.Ready sourceFrames destinationFrames false := by
  obtain ⟨r, dummy, hf, hdummy, hlaid, hp, hbe, hn⟩ :=
    h.resampleFirst_spec hsizes source hcap arith (fuel + 1)
  obtain ⟨block, hread, hb⟩ :=
    Supply.run_input arith hl (if first then [.dummy] else [])
  obtain ⟨samples, r', hr', hs, hlaid', hp', hd⟩ :=
    hlaid.resample_spec (by cases first <;> simp) hsizes rfl hp hbe hn hread hb
      arith fuel
  refine ⟨{ p with resampler := r', firstPass := false, sourceAvailable := 0 }, samples, ?_,
    hs, ⟨h.destinationFrames_eq, rfl, h.length_floatBuffer, hlaid', hp', by simp,
      fun _ => (by linarith), fun _ => (by linarith)⟩⟩
  have hw : (writeAt destination 0 dummy).length = destination.length :=
    length_writeAt (by omega)
  rw [resampleToFloat, h.laidOut.requestFrames_eq, h.destinationFrames_eq, h.firstPass_eq, hl,
    if_pos ⟨rfl, hcap⟩, hf]
  simp only [bind_eq_bind, bind_some, hr']
  rw [Memory.copy_eq_some (by omega), writeAt_zero_writeAt_zero (by omega), bind_some]
  cases first <;> rfl

/-- One call: it asks for one block of input, after a dummy block in the first call, and overwrites
the start of its destination. -/
theorem Ready.resample_spec {call : ResampleCall F}
    (hc : DeclaredLengths sourceFrames destinationFrames call) (arith : SampleArith F) (fuel : ℕ)
    (held : ℕ → F) :
    ∃ (p' : PushSincResampler F) (after : Samples F), p.resample arith (fuel + 2) held call =
        some (p', ⟨requestsOf first, destinationFrames, after⟩) ∧
      Overwritten destinationFrames call after ∧ p'.Ready sourceFrames destinationFrames false := by
  cases call with
  | float source destination =>
    obtain ⟨p', samples, hp', hs, hr⟩ := h.resampleToFloat_spec hsizes
      (show (Samples.float source).length = _ from hc.1) hc.2 arith fuel
    refine ⟨p', .float (writeAt destination 0 samples), ?_, ⟨samples, hs, rfl⟩, hr⟩
    rw [resample, hp']
    simp only [bind_eq_bind, bind_some, hr.destinationFrames_eq]
    rfl
  | int16 source destination =>
    have hbuf : (p.floatBuffer.getD ((range p.destinationFrames).map held)).length =
        destinationFrames := by
      have hl := h.length_floatBuffer
      cases hbuf : p.floatBuffer with
      | none => simp [h.destinationFrames_eq]
      | some buffer => exact hl buffer (by rw [hbuf]; rfl)
    obtain ⟨p', samples, hp', hs, hr⟩ := h.resampleToFloat_spec hsizes
      (show (Samples.int16 (F := F) source).length = _ from hc.1) hbuf.ge arith fuel
    have hall : writeAt (p.floatBuffer.getD ((range p.destinationFrames).map held)) 0 samples =
        samples := by
      rw [writeAt_zero, drop_of_length_le (by omega), append_nil]
    have hroom := hc.2
    refine ⟨{ p' with floatBuffer := some samples },
      .int16 (writeAt destination 0 (samples.map arith.floatS16ToS16)), ?_,
      ⟨_, by rw [length_map, hs], rfl⟩,
      ⟨hr.1, hr.2, by simpa using hs, hr.4, hr.5, hr.6, hr.7,
        hr.8⟩⟩
    rw [resample, hp', hall]
    simp only [bind_eq_bind, bind_some, hr.destinationFrames_eq]
    rw [Memory.slice_eq_some (by omega), drop_zero, take_of_length_le hs.le,
      bind_some, Memory.copy_eq_some (by rw [length_map]; omega)]
    rfl

end

end

theorem resample_eq_none {arith : SampleArith F} {fuel : ℕ} {p : PushSincResampler F}
    {source : List F} (hf : p.firstPass = true)
    (h : p.resampler.resample arith (Supply.run arith) fuel ⟨.float source, true, source.length, []⟩
      p.resampler.chunkSize = none)
    (held : ℕ → F) : p.resample arith fuel held (.float source destination) = none := by
  have hn : p.resampleFirst arith fuel ⟨.float source, true, source.length, []⟩ destination =
      none := by
    rw [resampleFirst, hf, if_pos rfl, h]
    rfl
  rw [resample, resampleToFloat, hf]
  split
  · simp only [Samples.length, hn]
    rfl
  · rfl

theorem first_call_eq_none (arith : SampleArith F) {sourceFrames destinationFrames : ℕ}
    (hso : 48 < sourceFrames) (hk : kernelStorage.length = kKernelStorageSize)
    (hc : 2 ≤ ⌊((sourceFrames : ℚ) - 16) / (sourceFrames / destinationFrames)⌋)
    (hrange : 2 ^ 31 ≤ ⌈((sourceFrames : ℚ) - 16) / (sourceFrames / destinationFrames)⌉ ∨
      2 ^ 31 ≤ (sourceFrames : ℚ) / destinationFrames)
    {source : List F} (hl : source.length = sourceFrames) :
    ∃ start, new arith sourceFrames destinationFrames kernelStorage = some start ∧
      ∀ fuel held, start.resample arith fuel held (.float source destination) = none := by
  obtain ⟨start, hs, hr⟩ := new_ready arith hso destinationFrames hk
  have hsize : (start.resampler.blockSize : ℚ) = sourceFrames - 16 := by
    have hb : start.resampler.blockSize + 32 = 16 + sourceFrames :=
      hr.laidOut.blockSize_eq
    have hsum : (start.resampler.blockSize : ℚ) + 16 = sourceFrames := by
      exact_mod_cast (show start.resampler.blockSize + 16 = sourceFrames by omega)
    linarith
  refine ⟨start, hs, fun fuel held => resample_eq_none hr.firstPass_eq ?_ held⟩
  rw [← hsize] at hc hrange
  rw [hl]
  exact hr.laidOut.resample_first_eq_none (hr.start rfl) hr.bufferPrimed_eq
    (Supply.run_dummy arith (.float source) sourceFrames) length_replicate hc hrange
    arith fuel

structure RunInvariant (sourceFrames destinationFrames : ℕ)
    (calls : List ((ℕ → F) × ResampleCall F)) (results : List (ResampleResult F))
    (p : PushSincResampler F) : Prop where
  ready : p.Ready sourceFrames destinationFrames (calls.length == 0)
  requests_eq : results.map ResampleResult.requests =
    (range calls.length).map fun i => requestsOf (i == 0)
  overwritten : Forall₂ (fun call result => result.frames = destinationFrames ∧
    Overwritten destinationFrames call.2 result.destination) calls results

/-- Every run: each call asks for one block of input, the first one after a dummy block, and writes
as many samples as declared. Two passes of the outer loop are enough for every call. -/
theorem run_one_block_per_call {sourceFrames destinationFrames : ℕ} (hsource : 48 < sourceFrames)
    (hsourceInt : sourceFrames ≤ 2 ^ 31) (hdestination : 2 ≤ destinationFrames)
    (hdestinationInt : destinationFrames < 2 ^ 31) (arith : SampleArith F) {kernelStorage : List F}
    (hkernel : kernelStorage.length = kKernelStorageSize) {fuel : ℕ} (hfuel : 2 ≤ fuel)
    (calls : List ((ℕ → F) × ResampleCall F))
    (hcalls : ∀ call ∈ calls, DeclaredLengths sourceFrames destinationFrames call.2) :
    ∃ start finish results, new arith sourceFrames destinationFrames kernelStorage = some start ∧
      runPartial (fun p call => p.resample arith fuel call.1 call.2) start calls =
        some (finish, results) ∧ results.map ResampleResult.requests =
        (range calls.length).map (fun i => requestsOf (i == 0)) ∧
      Forall₂ (fun call result => result.frames = destinationFrames ∧
        Overwritten destinationFrames call.2 result.destination) calls results := by
  obtain ⟨fuel, rfl⟩ := Nat.exists_eq_add_of_le' hfuel
  obtain ⟨start, hs, hr⟩ := new_ready arith hsource destinationFrames hkernel
  have hstep : ∀ calls results (p : PushSincResampler F) (call : (ℕ → F) × ResampleCall F),
      RunInvariant sourceFrames destinationFrames calls results p →
      DeclaredLengths sourceFrames destinationFrames call.2 →
      ∃ p' result, p.resample arith (fuel + 2) call.1 call.2 = some (p', result) ∧
        RunInvariant sourceFrames destinationFrames (calls ++ [call]) (results ++ [result]) p' := by
    intro calls results p call hinv hc
    obtain ⟨p', after, hp', ha, hr'⟩ := hinv.ready.resample_spec
      ⟨hsource, hsourceInt, hdestination, hdestinationInt⟩ hc arith fuel call.1
    refine ⟨p', _, hp', ?_, ?_, ?_⟩
    · rw [length_append]
      exact hr'
    · rw [map_append, hinv.requests_eq, length_append, length_singleton, range_succ, map_append]
      rfl
    · exact rel_append hinv.overwritten (Forall₂.cons ⟨rfl, ha⟩ Forall₂.nil)
  obtain ⟨finish, results, hrun, hinv⟩ := runPartial_history
    (RunInvariant sourceFrames destinationFrames) ⟨hr, rfl, Forall₂.nil⟩ hstep hcalls
  exact ⟨start, finish, results, hs, hrun, hinv.requests_eq, hinv.overwritten⟩

section Examples

def wholeArith : SampleArith ℤ := ⟨0, (· + ·), (· * ·), fun _ x _ => x, Int16.toInt, Int16.ofInt⟩

def zeroKernel : List ℤ := replicate kKernelStorageSize 0

theorem length_zeroKernel : zeroKernel.length = kKernelStorageSize := length_replicate

def twoCalls : List ((ℕ → ℤ) × ResampleCall ℤ) :=
  [(fun _ => 7, .float (replicate 49 1) [0, 0, 0]),
    (fun _ => 7, .int16 (replicate 49 1) [0, 0])]

theorem run_one_block_per_call_twoCalls :
    ∃ start finish results, new wholeArith 49 2 zeroKernel = some start ∧
      runPartial (fun p call => p.resample wholeArith 2 call.1 call.2) start twoCalls =
        some (finish, results) ∧
      results.map ResampleResult.requests = [[.dummy, .input], [.input]] ∧
      Forall₂ (fun call result => result.frames = 2 ∧
        Overwritten 2 call.2 result.destination) twoCalls results :=
  run_one_block_per_call (by norm_num) (by norm_num) (by norm_num) (by norm_num) wholeArith
    length_zeroKernel le_rfl twoCalls (by simp [twoCalls, DeclaredLengths])

theorem resample_outside_int : (∃ start, new wholeArith 49 (2 ^ 32) zeroKernel = some start ∧
      ∀ fuel held, start.resample wholeArith fuel held
        (.float (replicate 49 1) (replicate (2 ^ 32) 0)) = none) ∧
    ∃ start, new wholeArith (2 ^ 33) 4 zeroKernel = some start ∧
      ∀ fuel held, start.resample wholeArith fuel held
        (.float (replicate (2 ^ 33) 1) (replicate 4 0)) = none := by
  constructor
  · exact first_call_eq_none wholeArith (by norm_num) length_zeroKernel
      (Int.le_floor.mpr (by norm_num)) (.inl (Int.le_of_sub_one_lt (Int.lt_ceil.mpr (by norm_num))))
      length_replicate
  · exact first_call_eq_none wholeArith (by norm_num) length_zeroKernel
      (Int.le_floor.mpr (by norm_num)) (.inr (by norm_num)) length_replicate

end Examples

end PushSincResampler

end WebRtcAudio.CommonAudio
