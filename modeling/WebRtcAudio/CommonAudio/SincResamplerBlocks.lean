import WebRtcAudio.CommonAudio.SincResampler

/-! One call of `Resample` for a whole block of output. -/
namespace WebRtcAudio.CommonAudio

open WebRtcAudio.Core Option

theorem castInt_eq {x : ℤ} (hlow : -2 ^ 31 ≤ x) (hh : x < 2 ^ 31) : castInt x = some x :=
  if_pos ⟨hlow, hh⟩

theorem truncate_of_nonneg {x : ℚ} (h : 0 ≤ x) : truncate x = ⌊x⌋ := if_pos h

theorem exists_window {F : Type} {l : List F} {i : ℤ} (h : 0 ≤ i)
    (hi : i + kKernelSize ≤ l.length) : ∃ xs, window l i = some xs := by
  rw [window, if_pos h, Memory.slice_eq_some (by omega)]
  exact ⟨_, rfl⟩

theorem add_mul_lt_of_lt_ceil {v b ratio : ℚ} (hratio : 0 < ratio) {j : ℕ}
    (h : (j : ℤ) < ⌈(b - v) / ratio⌉) : v + j * ratio < b := by
  have hdiv : (j : ℚ) < (b - v) / ratio := by exact_mod_cast Int.lt_ceil.mp h
  have hmul := (lt_div_iff₀ hratio).mp hdiv
  linarith

namespace SincResampler

variable {F σ : Type} {frames destinationFrames start : ℕ} {ratio : ℚ}
  {readCb : σ → ℕ → Option (σ × List F)} {s s' : σ} {block : List F}

structure Fits (r : SincResampler F) : Prop where
  length_inputBuffer : r.inputBuffer.length = r.requestFrames + kKernelSize
  length_kernelStorage : r.kernelStorage.length = kKernelStorageSize
  blockSize_le : r.blockSize ≤ r.requestFrames
  ratio_pos : 0 < r.ioSampleRateRatio

variable {r : SincResampler F}

theorem Fits.exists_output (h : r.Fits) (arith : SampleArith F) (hnonneg : 0 ≤ r.virtualSourceIdx)
    (hb : r.virtualSourceIdx < r.blockSize) (hint : r.virtualSourceIdx < 2 ^ 31) :
    ∃ x, r.output arith = some x := by
  have hfloor : 0 ≤ ⌊r.virtualSourceIdx⌋ := Int.floor_nonneg.mpr hnonneg
  have hf : ⌊r.virtualSourceIdx⌋ < 2 ^ 31 := Int.floor_lt.mpr (by exact_mod_cast hint)
  have hfloorBlock : ⌊r.virtualSourceIdx⌋ < r.blockSize :=
    Int.floor_lt.mpr (by exact_mod_cast hb)
  have hlow := Int.floor_le r.virtualSourceIdx
  have hhigh := Int.lt_floor_add_one r.virtualSourceIdx
  have hs : r.kernelStorage.length = 1056 := h.length_kernelStorage
  have hbuffer := h.length_inputBuffer
  have hle := h.blockSize_le
  have hsize : (kKernelSize : ℤ) = 32 := rfl
  rw [output, truncate_of_nonneg hnonneg, castInt_eq (by omega) hf]
  simp only [bind_eq_bind, bind_some]
  generalize hx : (r.virtualSourceIdx - ⌊r.virtualSourceIdx⌋) * (kKernelOffsetCount : ℚ) = x
  -- The offset between two positions is one of the kernels but the last.
  have hx0 : 0 ≤ x := hx ▸ mul_nonneg (by linarith) (by norm_num)
  have hx32 : x < 32 := by
    rw [← hx, show (kKernelOffsetCount : ℚ) = 32 by norm_num [kKernelOffsetCount]]
    linarith
  have hoffset : 0 ≤ ⌊x⌋ := Int.floor_nonneg.mpr hx0
  have ho : ⌊x⌋ < 32 := Int.floor_lt.mpr (by exact_mod_cast hx32)
  rw [truncate_of_nonneg hx0, castInt_eq (by omega) (by omega)]
  simp only [bind_some]
  generalize ⌊x⌋ = offset at *
  have hke : 0 ≤ offset * (kKernelSize : ℤ) ∧
      offset * (kKernelSize : ℤ) + kKernelSize + kKernelSize ≤ r.kernelStorage.length := by
    rw [hsize, hs]
    omega
  obtain ⟨k1, hk1⟩ := exists_window (l := r.kernelStorage) hke.1 (by omega)
  obtain ⟨k2, hk2⟩ := exists_window (l := r.kernelStorage)
    (Int.add_nonneg hke.1 (Int.natCast_nonneg kKernelSize)) hke.2
  obtain ⟨input, hi⟩ := exists_window (l := r.inputBuffer) hfloor (by omega)
  rw [hk1, hk2, hi]
  exact ⟨_, rfl⟩

def advanceBy (r : SincResampler F) (n : ℕ) : SincResampler F :=
  { r with virtualSourceIdx := r.virtualSourceIdx + n * r.ioSampleRateRatio }

theorem advanceBy_zero (r : SincResampler F) : r.advanceBy 0 = r := by
  simp [advanceBy]

theorem advance_advanceBy (r : SincResampler F) (n : ℕ) :
    r.advance.advanceBy n = r.advanceBy (n + 1) := by
  simp only [advanceBy, advance, Nat.cast_add, Nat.cast_one, mk.injEq, and_true, true_and]
  ring

theorem Fits.advance (h : r.Fits) : r.advance.Fits := { h with }

variable {frames remaining count : ℕ}

theorem Fits.produce_spec (h : r.Fits) (arith : SampleArith F) (hnonneg : 0 ≤ r.virtualSourceIdx)
    (i : ℕ) (hfr : frames ≠ 0)
    (hi : ∀ j < min i frames, r.virtualSourceIdx + j * r.ioSampleRateRatio < r.blockSize ∧
      r.virtualSourceIdx + j * r.ioSampleRateRatio < 2 ^ 31) :
    ∃ samples, r.produce arith i frames =
        some (samples, r.advanceBy (min i frames), frames - min i frames) ∧
      samples.length = min i frames := by
  induction i generalizing r frames with
  | zero => exact ⟨[], by rw [produce, Nat.zero_min, advanceBy_zero, Nat.sub_zero], by simp⟩
  | succ i ih =>
    obtain ⟨hb, hint⟩ := hi 0 (by omega)
    rw [Nat.cast_zero, zero_mul, add_zero] at hb hint
    obtain ⟨sample, hsamples⟩ := h.exists_output arith hnonneg hb hint
    rw [produce, if_pos hb, hsamples, bind_eq_bind, bind_some]
    by_cases hl : frames - 1 = 0
    · have hone : frames = 1 := by omega
      refine ⟨[sample], ?_, by simp [hone]⟩
      rw [if_pos hl, hone, Nat.min_eq_right (by omega), ← advance_advanceBy, advanceBy_zero]
    · have hratio := h.ratio_pos
      obtain ⟨samples, hs, hlength⟩ := ih h.advance
        (by rw [SincResampler.advance]; linarith) hl fun j hj => by
          have hn := hi (j + 1) (by omega)
          simp only [SincResampler.advance, Nat.cast_add, Nat.cast_one] at hn ⊢
          constructor <;> linarith
      have hmin : min (i + 1) frames = min i (frames - 1) + 1 := by omega
      refine ⟨sample :: samples, ?_, by rw [List.length_cons, hlength, hmin]⟩
      rw [if_neg hl, hs, bind_eq_bind, bind_some, hmin, advance_advanceBy,
        show frames - 1 - min i (frames - 1) = frames - (min i (frames - 1) + 1) by omega]
      rfl

/-- The regions of the input buffer, for blocks of `frames` samples from `start` on. -/
structure LaidOut (r : SincResampler F) (frames : ℕ) (ratio : ℚ) (start : ℕ) : Prop where
  requestFrames_eq : r.requestFrames = frames
  ratio_eq : r.ioSampleRateRatio = ratio
  r0_eq : r.r0 = start
  r3_eq : r.r3 + kKernelSize = start + frames
  blockSize_eq : r.blockSize + kKernelSize = start + frames
  length_inputBuffer : r.inputBuffer.length = frames + kKernelSize
  length_kernelStorage : r.kernelStorage.length = kKernelStorageSize

namespace LaidOut

theorem fits (h : r.LaidOut frames ratio start) (hstart : start ≤ kKernelSize)
    (hratio : 0 < ratio) : r.Fits := by
  have hblock := h.blockSize_eq
  refine ⟨?_, h.length_kernelStorage, ?_, ?_⟩
  · rw [h.requestFrames_eq, h.length_inputBuffer]
  · rw [h.requestFrames_eq]
    omega
  · rwa [h.ratio_eq]

theorem advanceBy (h : r.LaidOut frames ratio start) (n : ℕ) :
    (r.advanceBy n).LaidOut frames ratio start := { h with }

theorem of_updateRegions (hre : r.requestFrames = frames)
    (hratio : r.ioSampleRateRatio = ratio) (hb : r.inputBuffer.length = frames + kKernelSize)
    (hk : r.kernelStorage.length = kKernelStorageSize) (hfr : 48 < frames)
    (secondLoad : Bool) : ∃ r', r.updateRegions secondLoad = some r' ∧
      r'.LaidOut frames ratio (if secondLoad then kKernelSize else kKernelSize / 2) ∧
      r'.virtualSourceIdx = r.virtualSourceIdx ∧ r'.bufferPrimed = r.bufferPrimed := by
  have hsize : kKernelSize = 32 := rfl
  have hr1 : r1 = 0 := rfl
  have hr2 : r2 = 16 := rfl
  rw [updateRegions, hre]
  generalize hstart : (if secondLoad then kKernelSize else kKernelSize / 2) = start
  have hs : 16 ≤ start ∧ start ≤ 32 := by
    cases secondLoad <;> simp at hstart <;> omega
  rw [if_pos (by omega)]
  exact ⟨_, rfl, ⟨rfl, hratio, rfl, (show start + frames - kKernelSize + _ = _ by omega),
    (show start + frames - kKernelSize / 2 - r2 + _ = _ by omega), hb, hk⟩, rfl, rfl⟩

theorem wrap_spec (h : r.LaidOut frames ratio start) (hfr : 48 < frames)
    (hstart : start = kKernelSize / 2 ∨ start = kKernelSize) :
    ∃ r', r.wrap = some r' ∧ r'.LaidOut frames ratio kKernelSize ∧
      r'.virtualSourceIdx = r.virtualSourceIdx - r.blockSize ∧
      r'.bufferPrimed = r.bufferPrimed := by
  have hsize : kKernelSize = 32 := rfl
  have hr3 := h.r3_eq
  have hb := h.length_inputBuffer
  have hlast : ((r.inputBuffer.drop r.r3).take kKernelSize).length = kKernelSize := by
    rw [List.length_take, List.length_drop]
    omega
  have hf : r1 + ((r.inputBuffer.drop r.r3).take kKernelSize).length ≤ r.inputBuffer.length := by
    rw [hlast, r1]
    omega
  rw [wrap, if_pos (by omega), Memory.slice_eq_some (by omega), bind_eq_bind,
    bind_some, Memory.copy_eq_some hf, bind_some]
  dsimp only
  have hl := (length_writeAt hf).trans hb
  rcases hstart with hstart | hstart
  · have hr0 : r.r0 = r2 := h.r0_eq.trans hstart
    rw [if_pos hr0]
    refine of_updateRegions ?_ ?_ ?_ ?_ hfr true
    exacts [h.requestFrames_eq, h.ratio_eq, hl, h.length_kernelStorage]
  · have hr0 : r.r0 ≠ r2 := by
      rw [h.r0_eq, hstart]
      decide
    rw [if_neg hr0]
    refine ⟨_, rfl, ⟨h.1, h.2, h.3.trans hstart, ?_, ?_, hl, h.7⟩, rfl, rfl⟩
    · rw [hr3, hstart]
    · rw [h.blockSize_eq, hstart]

theorem load_spec (h : r.LaidOut frames ratio start) (hstart : start ≤ kKernelSize)
    (hr : readCb s frames = some (s', block)) (hblock : block.length = frames) :
    ∃ r', r.load readCb s = some (r', s') ∧ r'.LaidOut frames ratio start ∧
      r'.virtualSourceIdx = r.virtualSourceIdx ∧ r'.blockSize = r.blockSize ∧
      r'.bufferPrimed = r.bufferPrimed := by
  have hb := h.length_inputBuffer
  have hf : r.r0 + block.length ≤ r.inputBuffer.length := by
    rw [h.r0_eq]
    omega
  simp only [load, h.requestFrames_eq, hr, bind_eq_bind, bind_some, Memory.copy_eq_some hf]
  exact ⟨_, rfl, ⟨rfl, h.2, h.3, h.4, h.5, (length_writeAt hf).trans hb, h.7⟩, rfl, rfl, rfl⟩

section
variable (h : r.LaidOut frames ratio start) (hstart : start ≤ kKernelSize) (hratio : 0 < ratio)
  (hint : frames ≤ 2 ^ 31) (hnonneg : 0 ≤ r.virtualSourceIdx) (arith : SampleArith F)
include h hstart hratio hint hnonneg arith

theorem produce_spec (hr : remaining ≠ 0)
    (hc : ⌈(r.blockSize - r.virtualSourceIdx) / ratio⌉ = count) :
    ∃ samples, r.produce arith count remaining =
        some (samples, r.advanceBy (min count remaining), remaining - min count remaining) ∧
      samples.length = min count remaining := by
  have hf := h.fits hstart hratio
  have hb : (r.blockSize : ℚ) ≤ 2 ^ 31 := by
    have hle := hf.blockSize_le
    rw [h.requestFrames_eq] at hle
    exact_mod_cast hle.trans hint
  refine hf.produce_spec arith hnonneg count hr fun j hj => ?_
  rw [h.ratio_eq]
  have hlt := add_mul_lt_of_lt_ceil hratio (show (j : ℤ) < _ by rw [hc]; omega)
  exact ⟨hlt, hlt.trans_le hb⟩

theorem resampleLoop_of_le (readCb : σ → ℕ → Option (σ × List F)) (s : σ) (fuel : ℕ)
    (hr : remaining ≠ 0) (hcount : ⌈(r.blockSize - r.virtualSourceIdx) / ratio⌉ = count)
    (hc : count < 2 ^ 31) (hle : remaining ≤ count) :
    ∃ samples, r.resampleLoop arith readCb (fuel + 1) s remaining =
      some (samples, r.advanceBy remaining, s) ∧ samples.length = remaining := by
  obtain ⟨samples, hs, hl⟩ :=
    h.produce_spec hstart hratio hint hnonneg arith hr hcount
  rw [Nat.min_eq_right hle] at hs hl
  refine ⟨samples, ?_, hl⟩
  rw [resampleLoop, if_neg hr, h.ratio_eq, hcount,
    castInt_eq (by omega) (by exact_mod_cast hc)]
  simp only [bind_eq_bind, bind_some, Int.toNat_natCast, hs, Nat.sub_self, if_true]

end

theorem resampleLoop_of_lt (h : r.LaidOut frames ratio start)
    (hstart : start = kKernelSize / 2 ∨ start = kKernelSize) (hfr : 48 < frames)
    (hratio : 0 < ratio) (hint : frames ≤ 2 ^ 31) (hnonneg : 0 ≤ r.virtualSourceIdx)
    (arith : SampleArith F) (fuel : ℕ)
    (hcount : ⌈(r.blockSize - r.virtualSourceIdx) / ratio⌉ = count) (hc : count < 2 ^ 31)
    (hlt : count < remaining) (hread : readCb s frames = some (s', block))
    (hb : block.length = frames) :
    ∃ (samples : List F) (r' : SincResampler F), samples.length = count ∧
      r'.LaidOut frames ratio kKernelSize ∧
      r'.virtualSourceIdx = r.virtualSourceIdx + count * ratio - r.blockSize ∧
      r'.bufferPrimed = r.bufferPrimed ∧ r.resampleLoop arith readCb (fuel + 1) s remaining =
        (r'.resampleLoop arith readCb fuel s' (remaining - count)).map fun rest =>
          (samples ++ rest.1, rest.2) := by
  obtain ⟨samples, hs, hl⟩ := h.produce_spec
    (by rcases hstart with rfl | rfl <;> decide) hratio hint hnonneg arith
    (show remaining ≠ 0 by omega) hcount
  rw [Nat.min_eq_left hlt.le] at hs hl
  obtain ⟨u, hu, hlaid, hidx, hp⟩ := (h.advanceBy count).wrap_spec hfr hstart
  obtain ⟨r', hr', hlaid', hidx', -, hp'⟩ := hlaid.load_spec le_rfl hread hb
  refine ⟨samples, r', hl, hlaid', ?_, hp'.trans hp, ?_⟩
  · rw [hidx', hidx]
    simp only [SincResampler.advanceBy, h.ratio_eq]
  · rw [resampleLoop, if_neg (by omega), h.ratio_eq, hcount,
      castInt_eq (by omega) (by exact_mod_cast hc)]
    simp only [bind_eq_bind, bind_some, Int.toNat_natCast, hs,
      if_neg (show remaining - count ≠ 0 by omega), hu, hr']
    rw [map_eq_bind]
    rfl

end LaidOut

theorem add_ceil_mul_bounds {v b ratio : ℚ} (hratio : 0 < ratio) :
    b ≤ v + ⌈(b - v) / ratio⌉ * ratio ∧ v + ⌈(b - v) / ratio⌉ * ratio < b + ratio := by
  have hlow := (div_le_iff₀ hratio).mp (Int.le_ceil ((b - v) / ratio))
  have hh := mul_lt_mul_of_pos_right (Int.ceil_lt_add_one ((b - v) / ratio)) hratio
  rw [add_mul, div_mul_cancel₀ _ hratio.ne'] at hh
  constructor <;> linarith

/-- The numbers of frames of input and output: more than a kernel and a half, at least two, and so
few that every position is an `int`. -/
structure FrameSizes (frames destinationFrames : ℕ) : Prop where
  kernel_lt : 48 < frames
  frames_le : frames ≤ 2 ^ 31
  two_le : 2 ≤ destinationFrames
  destination_lt : destinationFrames < 2 ^ 31

theorem FrameSizes.ratio_bounds
    (h : FrameSizes frames destinationFrames) (hratio : ratio = frames / destinationFrames) :
    0 < ratio ∧ ratio * destinationFrames = frames ∧ ratio * 2 ≤ frames := by
  have hf : (48 : ℚ) < frames := by exact_mod_cast h.kernel_lt
  have hd : (2 : ℚ) ≤ destinationFrames := by exact_mod_cast h.two_le
  have hmul : ratio * destinationFrames = frames := by
    rw [hratio]
    field_simp
  have hpos : 0 < ratio := by
    rw [hratio]
    positivity
  exact ⟨hpos, hmul, hmul ▸ mul_le_mul_of_nonneg_left hd hpos.le⟩

/-- From a position less than one output frame before the end of a block, `Resample` asks for one
block of input and stops at the same distance from the end of that block. -/
theorem LaidOut.resample_spec
    (h : r.LaidOut frames ratio start) (hstart : start = kKernelSize / 2 ∨ start = kKernelSize)
    (hsize : FrameSizes frames destinationFrames) (hratio : ratio = frames / destinationFrames)
    (hp : r.bufferPrimed = true) (hbefore : r.virtualSourceIdx ≤ r.blockSize)
    (hnear : r.blockSize < r.virtualSourceIdx + ratio) (hread : readCb s frames = some (s', block))
    (hblock : block.length = frames) (arith : SampleArith F) (fuel : ℕ) :
    ∃ samples r', r.resample arith readCb (fuel + 2) s destinationFrames = some (samples, r', s') ∧
      samples.length = destinationFrames ∧ r'.LaidOut frames ratio kKernelSize ∧
      r'.bufferPrimed = true ∧
      (r'.blockSize : ℚ) - r'.virtualSourceIdx = r.blockSize - r.virtualSourceIdx := by
  obtain ⟨hpos, hmul, hhalf⟩ := hsize.ratio_bounds hratio
  obtain ⟨hfr, hint, hdestination, hd⟩ := hsize
  have hframesQ : (48 : ℚ) < frames := by exact_mod_cast hfr
  have hs : (frames : ℚ) - 16 ≤ r.blockSize := by
    have hb := h.blockSize_eq
    have hle : frames ≤ r.blockSize + 16 := by
      rcases hstart with rfl | rfl <;> simp only [kKernelSize] at hb <;> omega
    have hleQ : (frames : ℚ) ≤ r.blockSize + 16 := by exact_mod_cast hle
    linarith
  -- At most one position is left in this block.
  obtain ⟨hend, he⟩ := add_ceil_mul_bounds (v := r.virtualSourceIdx) (b := r.blockSize) hpos
  obtain ⟨count, hc⟩ := Int.eq_ofNat_of_zero_le
    (show 0 ≤ ⌈((r.blockSize : ℚ) - r.virtualSourceIdx) / ratio⌉ from
      Int.ceil_nonneg (div_nonneg (by linarith) hpos.le))
  have hone : count ≤ 1 := by
    have hle : ⌈((r.blockSize : ℚ) - r.virtualSourceIdx) / ratio⌉ ≤ 1 :=
      Int.ceil_le.mpr (by rw [div_le_iff₀ hpos]; push_cast; linarith)
    omega
  rw [hc, Int.cast_natCast] at hend he
  obtain ⟨first, r₁, hf, hl, hidx, hp₁, hloop⟩ := h.resampleLoop_of_lt hstart hfr
    hpos hint (by linarith) arith (fuel + 1) hc (by omega)
    (show count < destinationFrames by omega) hread hblock
  -- The next block has one position for each output frame.
  have hs₁ : (r₁.blockSize : ℚ) = frames := by
    have hb := hl.blockSize_eq
    exact_mod_cast (show r₁.blockSize = frames by omega)
  have hcount₁ : ⌈((r₁.blockSize : ℚ) - r₁.virtualSourceIdx) / ratio⌉ = destinationFrames := by
    rw [Int.ceil_eq_iff, lt_div_iff₀ hpos, div_le_iff₀ hpos, hs₁, hidx]
    push_cast
    constructor <;> linarith
  obtain ⟨rest, hrest, hr⟩ := hl.resampleLoop_of_le le_rfl hpos hint
    (by rw [hidx]; linarith) arith readCb s' fuel (show destinationFrames - count ≠ 0 by omega)
    hcount₁ hd (by omega)
  refine ⟨first ++ rest, r₁.advanceBy (destinationFrames - count), ?_, ?_, hl.advanceBy _,
    hp₁.trans hp, ?_⟩
  · rw [resample, prime, if_neg (by simp [hp]), bind_eq_bind, bind_some]
    simp only [hloop, hrest, map_some]
  · rw [List.length_append, hf, hr]
    omega
  · simp only [SincResampler.advanceBy, hs₁, hidx, hl.ratio_eq]
    rw [Nat.cast_sub (by omega)]
    linarith

theorem new_spec (arith : SampleArith F) (ratio : ℚ) (hfr : 48 < frames)
    {kernelStorage : List F} (hk : kernelStorage.length = kKernelStorageSize) :
    ∃ r, new arith ratio frames kernelStorage = some r ∧
      r.LaidOut frames ratio (kKernelSize / 2) ∧ r.virtualSourceIdx = 0 ∧
      r.bufferPrimed = false := by
  obtain ⟨r, hr, hl, hidx, hp⟩ := LaidOut.of_updateRegions
    (r := ⟨ratio, 0, false, frames, 0, kernelStorage,
      List.replicate (frames + kKernelSize) arith.zero, 0, 0, 0⟩)
    rfl rfl List.length_replicate hk hfr false
  refine ⟨r, ?_, hl, hidx, hp⟩
  have hblock : r.blockSize + 32 = 16 + frames := hl.blockSize_eq
  have hsize : kKernelSize = 32 := rfl
  rw [new, if_pos (by omega), flush]
  dsimp only
  rw [hr, bind_eq_bind, bind_some, if_pos (by omega)]

theorem LaidOut.resample_first_spec (h : r.LaidOut frames ratio (kKernelSize / 2))
    (hsize : FrameSizes frames destinationFrames) (hratio : ratio = frames / destinationFrames)
    (hidx : r.virtualSourceIdx = 0) (hprimed : r.bufferPrimed = false)
    (hr : readCb s frames = some (s', block)) (hb : block.length = frames)
    (arith : SampleArith F) (fuel : ℕ) :
    ∃ samples r', r.resample arith readCb (fuel + 1) s r.chunkSize = some (samples, r', s') ∧
      samples.length ≤ destinationFrames ∧ r'.LaidOut frames ratio (kKernelSize / 2) ∧
      r'.bufferPrimed = true ∧ r'.virtualSourceIdx ≤ r'.blockSize ∧
      r'.blockSize < r'.virtualSourceIdx + ratio := by
  obtain ⟨hpos, hmul, hhalf⟩ := hsize.ratio_bounds hratio
  obtain ⟨hfr, hint, hdestination, hd⟩ := hsize
  have hf : (48 : ℚ) < frames := by exact_mod_cast hfr
  have hs : (r.blockSize : ℚ) = frames - 16 := by
    have hblockSize : r.blockSize + 32 = 16 + frames := h.blockSize_eq
    have hsum : (r.blockSize : ℚ) + 16 = frames := by
      exact_mod_cast (show r.blockSize + 16 = frames by omega)
    linarith
  obtain ⟨chunk, hchunk⟩ := Int.eq_ofNat_of_zero_le
    (show 0 ≤ ⌊(r.blockSize : ℚ) / ratio⌋ from
      Int.floor_nonneg.mpr (div_nonneg (by linarith) hpos.le))
  have hlow := (le_div_iff₀ hpos).mp (Int.floor_le ((r.blockSize : ℚ) / ratio))
  have hh := (div_lt_iff₀ hpos).mp (Int.lt_floor_add_one ((r.blockSize : ℚ) / ratio))
  rw [hchunk, Int.cast_natCast] at hlow hh
  have hc : chunk ≠ 0 := by
    rintro rfl
    rw [Nat.cast_zero, zero_add, one_mul] at hh
    linarith
  have hchunkLe : chunk ≤ destinationFrames := by
    have hlt : (chunk : ℚ) * ratio < destinationFrames * ratio := by linarith
    exact_mod_cast (lt_of_mul_lt_mul_right hlt hpos.le).le
  obtain ⟨r₁, hload, hl, hidx₁, hs₁, -⟩ := h.load_spec (by decide) hr hb
  have hp : ({ r₁ with bufferPrimed := true } : SincResampler F).LaidOut frames ratio
      (kKernelSize / 2) := { hl with }
  obtain ⟨count, hcount⟩ := Int.eq_ofNat_of_zero_le
    (show 0 ≤ ⌈((r₁.blockSize : ℚ) - r₁.virtualSourceIdx) / ratio⌉ from
      Int.ceil_nonneg (div_nonneg (by rw [hs₁, hidx₁, hidx]; linarith) hpos.le))
  have hchunkCount : chunk ≤ count := by
    have hle := Int.floor_le_ceil ((r.blockSize : ℚ) / ratio)
    rw [hs₁, hidx₁, hidx, sub_zero] at hcount
    omega
  have hcountLe : count ≤ destinationFrames := by
    have hle : ⌈((r₁.blockSize : ℚ) - r₁.virtualSourceIdx) / ratio⌉ ≤ destinationFrames := by
      rw [Int.ceil_le, div_le_iff₀ hpos, hs₁, hidx₁, hidx]
      push_cast
      linarith
    omega
  obtain ⟨samples, hsamples, hlength⟩ := hp.resampleLoop_of_le (by decide) hpos hint
    (by rw [hidx₁, hidx]) arith readCb s' fuel hc hcount (by omega) hchunkCount
  refine ⟨samples, _, ?_, by rwa [hlength], hp.advanceBy chunk, rfl, ?_, ?_⟩
  · rw [chunkSize, h.ratio_eq, hchunk, Int.toNat_natCast, resample, prime, if_pos ⟨hprimed, hc⟩,
      hload]
    exact hsamples
  · simp only [SincResampler.advanceBy, hidx₁, hidx, hl.ratio_eq, hs₁]
    linarith
  · simp only [SincResampler.advanceBy, hidx₁, hidx, hl.ratio_eq, hs₁]
    linarith

theorem output_eq_none (arith : SampleArith F) (h : 2 ^ 31 ≤ r.virtualSourceIdx) :
    r.output arith = none := by
  have hnonneg : 0 ≤ r.virtualSourceIdx := le_trans (by positivity) h
  have hfloor : 2 ^ 31 ≤ ⌊r.virtualSourceIdx⌋ := Int.le_floor.mpr (by exact_mod_cast h)
  rw [output, truncate_of_nonneg hnonneg, castInt, if_neg (by omega)]
  rfl

theorem produce_eq_none (arith : SampleArith F)
    (h : 2 ^ 31 ≤ r.virtualSourceIdx + r.ioSampleRateRatio) (i : ℕ) (hfr : 2 ≤ frames) :
    r.produce arith (i + 2) frames = none := by
  have hn : r.advance.produce arith (i + 1) (frames - 1) = none := by
    rw [produce, output_eq_none arith h]
    exact ite_self none
  have hm : frames - 1 ≠ 0 := by omega
  rw [produce, hn]
  cases r.output arith <;> simp [hm]

theorem resampleLoop_eq_none (arith : SampleArith F) (readCb : σ → ℕ → Option (σ × List F)) (s : σ)
    (hcount : 2 ≤ ⌈(r.blockSize - r.virtualSourceIdx) / r.ioSampleRateRatio⌉)
    (hr : 2 ^ 31 ≤ ⌈(r.blockSize - r.virtualSourceIdx) / r.ioSampleRateRatio⌉ ∨
      2 ^ 31 ≤ r.virtualSourceIdx + r.ioSampleRateRatio)
    (fuel : ℕ) (hfr : 2 ≤ frames) : r.resampleLoop arith readCb fuel s frames = none := by
  cases fuel with
  | zero => rfl
  | succ fuel =>
    rw [resampleLoop, if_neg (by omega)]
    generalize ⌈(r.blockSize - r.virtualSourceIdx) / r.ioSampleRateRatio⌉ = count at *
    by_cases hint : count < 2 ^ 31
    · obtain ⟨i, hi⟩ : ∃ i : ℕ, count.toNat = i + 2 := ⟨count.toNat - 2, by omega⟩
      rw [castInt_eq (by omega) hint, bind_eq_bind, bind_some, hi,
        produce_eq_none arith (hr.resolve_left (by omega)) i hfr]
      rfl
    · rw [castInt, if_neg (by omega)]
      rfl

theorem LaidOut.resample_first_eq_none (h : r.LaidOut frames ratio (kKernelSize / 2))
    (hidx : r.virtualSourceIdx = 0) (hp : r.bufferPrimed = false)
    (hr : readCb s frames = some (s', block))
    (hb : block.length = frames) (hchunk : 2 ≤ ⌊r.blockSize / ratio⌋)
    (hrange : 2 ^ 31 ≤ ⌈r.blockSize / ratio⌉ ∨ 2 ^ 31 ≤ ratio) (arith : SampleArith F) (fuel : ℕ) :
    r.resample arith readCb fuel s r.chunkSize = none := by
  obtain ⟨r₁, hload, hl, hidx₁, hs₁, -⟩ := h.load_spec (by decide) hr hb
  have hc : 2 ≤ r.chunkSize := by
    rw [chunkSize, h.ratio_eq]
    omega
  rw [resample, prime, if_pos ⟨hp, (by omega)⟩, hload]
  apply resampleLoop_eq_none arith readCb s' ?_ ?_ fuel hc
  · dsimp only
    rw [hs₁, hidx₁, hidx, hl.ratio_eq, sub_zero]
    exact hchunk.trans (Int.floor_le_ceil _)
  · dsimp only
    rwa [hs₁, hidx₁, hidx, hl.ratio_eq, sub_zero, zero_add]

end SincResampler

end WebRtcAudio.CommonAudio
