import WebRtcAudio.Aec3.EchoCanceller3Config
import WebRtcAudio.Aec3.RenderDelayBuffer

/-! What the consumers of a validated config ask of it. -/
namespace WebRtcAudio.Aec3

open WebRtcAudio.Core

namespace EchoCanceller3Config

variable (c : EchoCanceller3Config)

def ringSlots : ℕ :=
  toSizeT (getRenderDelayBufferSize c.delay.downSamplingFactor c.delay.numFilters
    c.filter.refined.lengthBlocks)

def ring : IndexedBuffer := { size := toInt32 c.ringSlots }

theorem ring_size : c.ring.size = toInt32 c.ringSlots := by rw [ring]

def resetDelay : ℤ := toInt32 c.delay.defaultDelay

def matchedFilters : List ℕ :=
  List.replicate c.delay.numFilters
    (kMatchedFilterWindowSizeSubBlocks * (kBlockSize / c.delay.downSamplingFactor))

structure DelayDefined : Prop where
  blocks_read : ∃ i ∈ c.ring.offsetIndex? c.ring.write (-c.resetDelay), 0 ≤ i ∧ i < c.ringSlots
  spectra_read : ∃ i ∈ c.ring.offsetIndex? c.ring.write c.resetDelay, 0 ≤ i ∧ i < c.ringSlots
  ffts_read : ∃ i ∈ c.ring.offsetIndex? c.ring.write c.resetDelay, 0 ≤ i ∧ i < c.ringSlots
  thresholds_le : c.delay.delaySelectionThresholds.initial ≤
    c.delay.delaySelectionThresholds.converged
  first_filter : c.matchedFilters[0]?.isSome

end EchoCanceller3Config

theorem natAbs_toInt32_le (n : ℕ) : (toInt32 n).natAbs ≤ n := by
  rcases lt_or_ge n (2 ^ 31) with hlt | hge
  · rw [toInt32_eq_self (by omega), Int.natAbs_natCast]
  · have hl : -(2 ^ 32 / 2 : ℤ) ≤ toInt32 n := Int.le_bmod (by decide)
    have hu : toInt32 n < (2 ^ 32 + 1) / 2 := Int.bmod_lt (by decide)
    omega

namespace EchoCanceller3Config

variable (c : EchoCanceller3Config)

def slots : ℕ :=
  toSizeT (kMatchedFilterAlignmentShiftSizeSubBlocks * min c.delay.numFilters 5000 +
    kMatchedFilterWindowSizeSubBlocks + 1 + max c.filter.refined.lengthBlocks 1 + 1 : ℕ)

/-- The fields fit together: there is a filter, a coarse estimate is not harder to get than a
refined one, and the default delay fits in the rings, whose size is an `int`. -/
structure Compatible : Prop where
  filters : 0 < c.delay.numFilters
  thresholds : c.delay.delaySelectionThresholds.initial ≤
      c.delay.delaySelectionThresholds.converged ∨
    c.delay.delaySelectionThresholds.initial ≤ 1 ∨ 250 ≤ c.delay.delaySelectionThresholds.converged
  slots_ne : toInt32 c.slots ≠ 0
  slots_fit : -2 ^ 31 ≤ toInt32 c.slots - min c.delay.defaultDelay 5000 ∧
    toInt32 c.slots + min c.delay.defaultDelay 5000 < 2 ^ 31
  delay_fits : (min c.delay.defaultDelay 5000 : ℕ) ≤ toInt32 c.slots ∨
    toInt32 c.slots ∣ (min c.delay.defaultDelay 5000 : ℕ)

theorem limit_eq {n m : ℕ} : (limit n 0 m).1 = min n m := by
  rw [limit]
  dsimp only
  split_ifs <;> omega

theorem numFilters_validate : c.validate.1.delay.numFilters = min c.delay.numFilters 5000 :=
  limit_eq

theorem resetDelay_validate : c.validate.1.resetDelay = (min c.delay.defaultDelay 5000 : ℕ) := by
  have heq : c.validate.1.delay.defaultDelay = min c.delay.defaultDelay 5000 := limit_eq
  rw [resetDelay, heq]
  exact toInt32_eq_self (by omega)

theorem ringSlots_validate : c.validate.1.ringSlots = c.slots := by
  have hlen : c.validate.1.filter.refined.lengthBlocks =
      max c.filter.refined.lengthBlocks 1 := by
    change (floorLimit c.filter.refined.lengthBlocks 1).1 = _
    rw [floorLimit]
    dsimp only
    split_ifs <;> omega
  have hf : 0 < kBlockSize / c.validate.1.delay.downSamplingFactor := by
    change 0 < kBlockSize / if decide (c.delay.downSamplingFactor = 4 ∨
      c.delay.downSamplingFactor = 8) = true then c.delay.downSamplingFactor else 4
    split_ifs with h
    · rcases of_decide_eq_true h with h | h <;> rw [h] <;> decide
    · decide
  rw [ringSlots, c.numFilters_validate, hlen, getRenderDelayBufferSize, getDownSampledBufferSize,
    Nat.mul_div_cancel_left _ hf, slots]

theorem thresholds_validate : c.validate.1.delay.delaySelectionThresholds.initial ≤
      c.validate.1.delay.delaySelectionThresholds.converged ↔
    c.delay.delaySelectionThresholds.initial ≤ c.delay.delaySelectionThresholds.converged ∨
      c.delay.delaySelectionThresholds.initial ≤ 1 ∨
      250 ≤ c.delay.delaySelectionThresholds.converged := by
  change (limit c.delay.delaySelectionThresholds.initial 1 250).1 ≤
    (limit c.delay.delaySelectionThresholds.converged 1 250).1 ↔ _
  rw [limit, limit]
  dsimp only
  split_ifs <;> omega

theorem ring_fits :
    -2 ^ 31 ≤ c.ring.size + c.ring.write ∧ c.ring.size + c.ring.write < 2 ^ 31 := by
  have hl : -(2 ^ 32 / 2 : ℤ) ≤ c.ring.size := c.ring_size ▸ Int.le_bmod (by decide)
  have hu : c.ring.size < (2 ^ 32 + 1) / 2 := c.ring_size ▸ Int.bmod_lt (by decide)
  have hwrite : c.ring.write = 0 := rfl
  omega

theorem ring_read_iff (offset : ℤ) :
    (∃ i ∈ c.ring.offsetIndex? c.ring.write offset, 0 ≤ i ∧ i < c.ringSlots) ↔
      c.ring.size ≠ 0 ∧ (-2 ^ 31 ≤ c.ring.size + offset ∧ c.ring.size + offset < 2 ^ 31) ∧
        (0 ≤ c.ring.size + offset ∨ c.ring.size ∣ offset) := by
  have hw : c.ring.write = 0 := rfl
  have habs : (c.ring.size.natAbs : ℤ) ≤ c.ringSlots := by
    rw [ring_size]
    exact_mod_cast natAbs_toInt32_le c.ringSlots
  rw [IndexedBuffer.offsetIndex?_inside_iff habs c.ring_fits, hw, add_zero, zero_add]

/-- The indices are those that a render delay buffer with this ring and delay starts with. -/
theorem DelayDefined.create_reads {c : EchoCanceller3Config} (h : c.DelayDefined)
    {cfg : RenderDelayConfig} (hring : cfg.ringSize = c.ringSlots)
    (hd : cfg.defaultDelay = c.delay.defaultDelay) :
    let s := RenderDelayBuffer.create cfg
    InRing c.ringSlots s.blocks.read ∧ InRing c.ringSlots s.spectra.read ∧
      InRing c.ringSlots s.ffts.read := by
  have hin {o : ℤ} (ho : ∃ i ∈ c.ring.offsetIndex? c.ring.write o, 0 ≤ i ∧ i < c.ringSlots) :
      InRing c.ringSlots (c.ring.offsetIndex c.ring.write o) := by
    obtain ⟨i, hi, hrange⟩ := ho
    obtain ⟨-, -, rfl⟩ := (IndexedBuffer.offsetIndex?_eq_some_iff c.ring_fits).mp hi
    exact hrange
  have hstart : c.ring = { size := toInt32 cfg.ringSize } := by rw [ring, hring]
  have hr : c.resetDelay = toInt32 cfg.defaultDelay := by rw [resetDelay, hd]
  have hb := hin h.blocks_read
  have hs := hin h.spectra_read
  rw [hstart, hr] at hb hs
  simp only [RenderDelayBuffer.create, RenderDelayBuffer.reset,
    RenderDelayBuffer.applyTotalDelay, IndexedBuffer.readFromWrite]
  exact ⟨hb, hs, hs⟩

/-- After `Validate` the delay machinery is well defined exactly if the fields fit together. -/
theorem validate_delayDefined_iff : c.validate.1.DelayDefined ↔ c.Compatible := by
  have hd := c.resetDelay_validate
  have hsize : c.validate.1.ring.size = toInt32 c.slots := by
    rw [ring_size, ringSlots_validate]
  have hr := c.validate.1.ring_read_iff
  have hfilter : c.validate.1.matchedFilters[0]?.isSome ↔ 0 < c.delay.numFilters := by
    rw [matchedFilters, c.numFilters_validate, List.getElem?_replicate]
    split
    case isTrue hpos => exact iff_of_true rfl (by omega)
    case isFalse hzero => exact iff_of_false Bool.false_ne_true (by omega)
  constructor
  · rintro ⟨hb, hs, -, ht, hf⟩
    rw [hr, hsize, hd, Int.dvd_neg] at hb
    rw [hr, hsize, hd] at hs
    obtain ⟨hne, ⟨hlow, -⟩, hfit⟩ := hb
    exact ⟨hfilter.mp hf, c.thresholds_validate.mp ht, hne,
      ⟨by omega, by omega⟩, hfit.imp_left fun h => by omega⟩
  · rintro ⟨hf, ht, hne, ⟨hlow, hhigh⟩, hfit⟩
    have hs : ∃ i ∈ c.validate.1.ring.offsetIndex? c.validate.1.ring.write
        c.validate.1.resetDelay, 0 ≤ i ∧ i < c.validate.1.ringSlots := by
      rw [hr, hsize, hd]
      exact ⟨hne, ⟨by omega, by omega⟩, hfit.imp_left fun h => by omega⟩
    refine ⟨?_, hs, hs, c.thresholds_validate.mpr ht, hfilter.mpr hf⟩
    rw [hr, hsize, hd, Int.dvd_neg]
    exact ⟨hne, ⟨by omega, by omega⟩, hfit.imp_left fun h => by omega⟩

theorem validate_accepts_incompatible : ([{ delay := { defaultDelay := 200 } },
        { delay := { delaySelectionThresholds := ⟨20, 5⟩ } },
        { delay := { numFilters := 0 } }] : List EchoCanceller3Config).Forall fun c =>
      validate c = (c, true) ∧ ¬ c.DelayDefined := by
  refine ⟨⟨by decide +kernel, fun h => ?_⟩, ⟨by decide +kernel, fun h => ?_⟩,
    ⟨by decide +kernel, fun h => ?_⟩⟩
  · obtain ⟨i, hi, hpos, -⟩ := h.blocks_read
    have hindex : (ring { delay := { defaultDelay := 200 } }).offsetIndex? 0
        (-resetDelay { delay := { defaultDelay := 200 } }) = some (-33) := by
      decide +kernel
    cases hi.symm.trans hindex
    exact absurd hpos (by decide)
  · exact absurd h.thresholds_le (by decide)
  · exact absurd h.first_filter (by decide)

end EchoCanceller3Config

end WebRtcAudio.Aec3
