import Mathlib.Tactic.Linarith

/-! Sizes of blocks and frames, and the configuration of the render delay buffer. -/
namespace WebRtcAudio.Aec3

def kFftLengthBy2 : ℕ := 64
def kBlockSize : ℕ := kFftLengthBy2
def kFrameSize : ℕ := 160
def kSubFrameLength : ℕ := kFrameSize / 2
def kMatchedFilterWindowSizeSubBlocks : ℕ := 32
def kMatchedFilterAlignmentShiftSizeSubBlocks : ℕ := kMatchedFilterWindowSizeSubBlocks * 3 / 4

def getDownSampledBufferSize (downSamplingFactor numMatchedFilters : ℕ) : ℕ :=
  kBlockSize / downSamplingFactor *
    (kMatchedFilterAlignmentShiftSizeSubBlocks * numMatchedFilters +
      kMatchedFilterWindowSizeSubBlocks + 1)

def getRenderDelayBufferSize (downSamplingFactor numMatchedFilters filterLengthBlocks : ℕ) : ℕ :=
  getDownSampledBufferSize downSamplingFactor numMatchedFilters /
      (kBlockSize / downSamplingFactor) + filterLengthBlocks + 1

structure DelayEstimate where
  refined : Bool
  delay : ℕ
  deriving DecidableEq

/-- Fields of `EchoCanceller3Config` read by the render delay buffer and the block
processor. The proofs say that the buffer sizes are well defined (the source divides by
`kBlockSize / down_sampling_factor`) and that sums of three indices fit in an `int`. -/
structure RenderDelayConfig where
  defaultDelay : ℕ := 5
  downSamplingFactor : ℕ := 4
  numFilters : ℕ := 5
  lengthBlocks : ℕ := 13
  useExternalDelayEstimator : Bool := false
  excessRenderDetectionIntervalBlocks : ℕ := 250
  maxAllowedExcessRenderBlocks : ℕ := 8
  factor_pos : 0 < downSamplingFactor
  factor_le : downSamplingFactor ≤ kBlockSize
  downSampled_fits : getDownSampledBufferSize downSamplingFactor numFilters < 2 ^ 29
  renderDelay_fits : getRenderDelayBufferSize downSamplingFactor numFilters lengthBlocks < 2 ^ 29

namespace RenderDelayConfig
variable (cfg : RenderDelayConfig)

def subBlockSize : ℕ :=
  if 0 < cfg.downSamplingFactor then kBlockSize / cfg.downSamplingFactor else kBlockSize

def ringSize : ℕ :=
  getRenderDelayBufferSize cfg.downSamplingFactor cfg.numFilters cfg.lengthBlocks

def lowRateSize : ℕ := getDownSampledBufferSize cfg.downSamplingFactor cfg.numFilters

def maxDelay : ℕ := cfg.ringSize - 1 - cfg.lengthBlocks

theorem subBlockSize_pos : 0 < cfg.subBlockSize := by
  unfold subBlockSize
  rw [if_pos cfg.factor_pos]
  exact Nat.div_pos cfg.factor_le cfg.factor_pos

theorem ringSize_eq : cfg.ringSize = cfg.maxDelay + cfg.lengthBlocks + 1 := by
  have h : cfg.lengthBlocks + 1 ≤ cfg.ringSize := by
    unfold ringSize getRenderDelayBufferSize
    exact Nat.add_le_add_right (Nat.le_add_left _ _) 1
  unfold maxDelay
  omega

theorem lowRateSize_eq : cfg.lowRateSize = cfg.subBlockSize * cfg.maxDelay := by
  have hp := Nat.div_pos cfg.factor_le cfg.factor_pos
  have hm : cfg.maxDelay = kMatchedFilterAlignmentShiftSizeSubBlocks * cfg.numFilters +
      kMatchedFilterWindowSizeSubBlocks + 1 := by
    unfold maxDelay ringSize getRenderDelayBufferSize getDownSampledBufferSize
    rw [Nat.mul_div_cancel_left _ hp]
    omega
  unfold lowRateSize getDownSampledBufferSize subBlockSize
  rw [if_pos cfg.factor_pos, hm]

theorem one_lt_maxDelay : 1 < cfg.maxDelay := by
  have h := cfg.lowRateSize_eq
  have hp := cfg.subBlockSize_pos
  have hl : cfg.subBlockSize * 33 ≤ cfg.lowRateSize := by
    unfold lowRateSize getDownSampledBufferSize subBlockSize
    rw [if_pos cfg.factor_pos]
    exact Nat.mul_le_mul_left _ (by unfold kMatchedFilterWindowSizeSubBlocks; omega)
  rw [h] at hl
  have := Nat.le_of_mul_le_mul_left hl hp
  omega

theorem ringSize_lt : cfg.ringSize < 2 ^ 29 := cfg.renderDelay_fits

theorem lowRateSize_lt : cfg.lowRateSize < 2 ^ 29 := cfg.downSampled_fits

theorem maxDelay_lt_ringSize : cfg.maxDelay < cfg.ringSize := by
  have := cfg.ringSize_eq
  omega

end RenderDelayConfig

def defaultRenderDelayConfig : RenderDelayConfig where
  factor_pos := by decide
  factor_le := by decide
  downSampled_fits := by decide
  renderDelay_fits := by decide

end WebRtcAudio.Aec3
