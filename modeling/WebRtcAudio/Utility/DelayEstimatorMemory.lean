import WebRtcAudio.Core.PartialLoop
import WebRtcAudio.Utility.DelayEstimator

/-! Every function of the delay estimator stays inside the allocated memory. -/
namespace WebRtcAudio.Utility

open WebRtcAudio.Core List Option

structure BinaryDelayEstimatorFarend.Sized (far : BinaryDelayEstimatorFarend) (size : ℕ) :
    Prop where
  size_eq : far.historySize = size
  history_length : far.binaryFarHistory.length = size
  counts_length : far.farBitCounts.length = size
  counts_bounds : ∀ b ∈ far.farBitCounts, 0 ≤ b ∧ b ≤ 32

variable {shift value mean : ℤ}

namespace BinaryDelayEstimatorFarend
variable {far : BinaryDelayEstimatorFarend} {size : ℕ}

theorem pushFront_spec {α : Type} {l : List α} (hl : l.length = size) (hsize : 1 ≤ size)
    (a : α) : ∃ l', pushFront l size a = some l' ∧ l'.length = size ∧ ∀ b ∈ l', b ∈ l ∨ b = a := by
  obtain ⟨l', hm, hl', hmem⟩ := Memory.memmove_spec (l := l) 1 0 ((size : ℤ) - 1)
    (by omega) (by omega) (by omega) (by omega) (by omega)
  refine ⟨l'.set 0 a, ?_, by simp [hl', hl], fun b hb => ?_⟩
  · rw [pushFront, hm, bind_eq_bind, bind_some]
    exact Memory.write_eq_some (by decide) (by omega) a
  · exact (mem_or_eq_of_mem_set hb).imp_left (hmem b)

theorem Sized.addSpectrum (h : far.Sized size) (hs : 1 ≤ size) (s : UInt32) :
    ∃ far', far.addSpectrum s = some far' ∧ far'.Sized size := by
  obtain ⟨history, hhi, hl, -⟩ := pushFront_spec h.history_length hs s
  obtain ⟨counts, hco, hclength, hmem⟩ := pushFront_spec h.counts_length hs (bitCount s)
  refine ⟨{ far with binaryFarHistory := history, farBitCounts := counts }, ?_,
    h.size_eq, hl, hclength, fun b hb => ?_⟩
  · rw [BinaryDelayEstimatorFarend.addSpectrum, h.size_eq, hhi, hco]
    rfl
  · rcases hmem b hb with hb | rfl
    · exact h.counts_bounds b hb
    · exact bitCount_bounds s

theorem shiftBuffer_spec {α : Type} {l : List α} (hl : l.length = size)
    (hshift : (shift.natAbs : ℤ) ≤ size) (zero : α) :
    ∃ l', shiftBuffer l (if 0 < shift then (shift.natAbs : ℤ) else 0)
        (if 0 < shift then 0 else (shift.natAbs : ℤ)) (size - shift.natAbs)
        (if 0 < shift then 0 else (size : ℤ) - shift.natAbs) shift.natAbs zero = some l' ∧
      l'.length = size ∧ ∀ b ∈ l', b ∈ l ∨ b = zero := by
  obtain ⟨l', hm, hl', hmem⟩ := Memory.memmove_spec (l := l)
    (if 0 < shift then (shift.natAbs : ℤ) else 0) (if 0 < shift then 0 else (shift.natAbs : ℤ))
    ((size : ℤ) - shift.natAbs)
    (by split_ifs <;> omega) (by split_ifs <;> omega) (by omega) (by split_ifs <;> omega)
    (by split_ifs <;> omega)
  obtain ⟨l'', hset, hl'', hmem'⟩ := Memory.memset_spec (l := l')
    (if 0 < shift then 0 else (size : ℤ) - shift.natAbs) shift.natAbs
    (by split_ifs <;> omega) (by omega) (by split_ifs <;> omega) zero
  refine ⟨l'', ?_, by omega, fun b hb => (hmem' b hb).imp_left (hmem b)⟩
  rw [shiftBuffer, hm, bind_eq_bind, bind_some, hset]

theorem Sized.softReset (h : far.Sized size) (hs : (shift.natAbs : ℤ) ≤ size) :
    ∃ far', far.softReset shift = some far' ∧ far'.Sized size := by
  by_cases hz : shift = 0
  · exact ⟨far, if_pos hz, h⟩
  obtain ⟨history, hhi, hl, -⟩ := shiftBuffer_spec h.history_length hs 0
  obtain ⟨counts, hco, hclength, hmem⟩ := shiftBuffer_spec h.counts_length hs 0
  refine ⟨{ far with binaryFarHistory := history, farBitCounts := counts }, ?_,
    h.size_eq, hl, hclength, fun b hb => ?_⟩
  · rw [BinaryDelayEstimatorFarend.softReset, if_neg hz, h.size_eq]
    dsimp only
    rw [hhi, hco]
    rfl
  · rcases hmem b hb with hb | rfl
    · exact h.counts_bounds b hb
    · decide

theorem Sized.softReset_eq_none (h : far.Sized size) (hshift : (size : ℤ) < shift.natAbs) :
    far.softReset shift = none := by
  have hz : shift ≠ 0 := by omega
  rw [BinaryDelayEstimatorFarend.softReset, if_neg hz, h.size_eq]
  dsimp only
  rw [shiftBuffer, Memory.memmove_eq_none (by omega)]
  rfl

theorem Sized.allocateBufferMemory {F : Type} (h : far.Sized size) (new : ℕ) (held : Held F) :
    ∃ far', far.allocateBufferMemory new held = some far' ∧ far'.Sized new := by
  have hl := h.history_length
  have hclength := h.counts_length
  rw [BinaryDelayEstimatorFarend.allocateBufferMemory, h.size_eq]
  by_cases hg : size < new
  · obtain ⟨history, hhi, hl', -⟩ :=
      Memory.memset_realloc (n := new) hl.ge hg.le le_rfl held.word 0
    obtain ⟨counts, hco, hclength', hmem⟩ :=
      Memory.memset_realloc (n := new) hclength.ge hg.le le_rfl held.int 0
    refine ⟨⟨counts, history, new⟩, ?_, rfl, hl', hclength', fun b hb => ?_⟩
    · rw [if_pos hg]
      dsimp only
      rw [hhi, hco]
      rfl
    · rcases hmem b (by rwa [take_of_length_le hclength'.le]) with hb | rfl
      · exact h.counts_bounds b (mem_of_mem_take hb)
      · decide
  · refine ⟨⟨_, _, new⟩, if_neg hg, rfl, Memory.length_realloc _ _ _,
      Memory.length_realloc _ _ _, fun b hb => ?_⟩
    have hb : b ∈ (Memory.realloc far.farBitCounts new held.int).take new := by
      rwa [take_of_length_le (Memory.length_realloc _ _ _).le]
    rw [Memory.take_realloc (by omega) le_rfl] at hb
    exact h.counts_bounds b (mem_of_mem_take hb)

end BinaryDelayEstimatorFarend

namespace BinaryDelayEstimator
variable {F : Type} {e : BinaryDelayEstimator F} {size : ℕ}

/-- The buffers have the size of the history, those with a dummy one element more. The means stay
below the largest bit count. -/
structure Sized (e : BinaryDelayEstimator F) (size : ℕ) : Prop where
  size_eq : e.historySize = size
  farend : e.farend.Sized size
  means_length : e.meanBitCounts.length = size + 1
  means_bounds : ∀ m ∈ e.meanBitCounts.take size, 0 ≤ m ∧ m < kMaxBitCountsQ9
  counts_length : e.bitCounts.length = size
  counts_bounds : ∀ b ∈ e.bitCounts, 0 ≤ b ∧ b ≤ 32
  histogram_length : e.histogram.length = size + 1
  near_length : e.binaryNearHistory.length = e.nearHistorySize

structure Consistent (e : BinaryDelayEstimator F) : Prop where
  lastDelay : e.lastDelay = -2 ∨ 0 ≤ e.lastDelay ∧ e.lastDelay < e.historySize
  compareDelay : 0 ≤ e.compareDelay ∧ e.compareDelay ≤ e.historySize
  lookahead : 0 ≤ e.lookahead ∧ e.lookahead ≤ (e.nearHistorySize : ℤ) - 1

variable {counts means : List ℤ}

theorem bitCountComparison_spec (vector : UInt32) {rows : List UInt32} (hrows : rows.length = size)
    (hco : counts.length = size) (hbounds : ∀ b ∈ counts, 0 ≤ b ∧ b ≤ 32) :
    ∃ counts', bitCountComparison vector rows size counts = some counts' ∧
      counts'.length = size ∧ ∀ b ∈ counts', 0 ≤ b ∧ b ≤ 32 := by
  refine exists_foldlM_invariant (fun l : List ℤ => l.length = size ∧ ∀ b ∈ l, 0 ≤ b ∧ b ≤ 32)
    ?_ ⟨hco, hbounds⟩
  rintro l i hi ⟨hlength, hl⟩
  have hlt := List.mem_range.mp hi
  obtain ⟨row, -, hrow⟩ := Memory.read_spec (l := rows) (i := i) (by omega) (by omega)
  refine ⟨l.set i (bitCount (vector ^^^ row)), ?_, ?_, fun b hb => ?_⟩
  · rw [hrow, bind_eq_bind, bind_some]
    exact Memory.write_natCast (by omega) _
  · rw [length_set, hlength]
  · rcases mem_or_eq_of_mem_set hb with hb | rfl
    · exact hl b hb
    · exact bitCount_bounds _

theorem meanEstimatorFix_bounds {factor : ℕ} (hf : 1 ≤ factor)
    (hval : 0 ≤ value ∧ value ≤ kMaxBitCountsQ9) (hmean : 0 ≤ mean ∧ mean < kMaxBitCountsQ9) :
    0 ≤ meanEstimatorFix value factor mean ∧
      meanEstimatorFix value factor mean < kMaxBitCountsQ9 := by
  have hpow : (2 : ℤ) ≤ 2 ^ factor := by
    exact_mod_cast Nat.pow_le_pow_right (n := 2) (by decide) hf
  have hh : ∀ d : ℤ, 0 ≤ d → 0 ≤ d / 2 ^ factor ∧ 2 * (d / 2 ^ factor) ≤ d := by
    intro d hd
    have hn : 0 ≤ d / 2 ^ factor := Int.ediv_nonneg hd (by omega)
    have hmul : d / 2 ^ factor * 2 ^ factor ≤ d := Int.ediv_mul_le d (by omega)
    have hle : d / 2 ^ factor * 2 ≤ d / 2 ^ factor * 2 ^ factor :=
      Int.mul_le_mul_of_nonneg_left hpow hn
    omega
  rw [meanEstimatorFix]
  split_ifs with hneg
  · have hd := hh (-(value - mean)) (by omega)
    omega
  · have hd := hh (value - mean) (by omega)
    omega

theorem meanEstimatorFix?_eq {factor : ℤ} (hf : 1 ≤ factor ∧ factor < 32)
    (hval : 0 ≤ value ∧ value ≤ kMaxBitCountsQ9) (hm : 0 ≤ mean ∧ mean < kMaxBitCountsQ9) :
    meanEstimatorFix? value factor mean = some (meanEstimatorFix value factor.toNat mean) := by
  have hmax : kMaxBitCountsQ9 = 16384 := rfl
  have hone : 1 ≤ factor.toNat := by omega
  have hb := meanEstimatorFix_bounds hone hval hm
  rw [meanEstimatorFix] at hb ⊢
  rw [meanEstimatorFix?, int32?_bind (by omega), if_pos (by omega)]
  dsimp only at hb ⊢
  by_cases hneg : value - mean < 0
  · rw [if_pos hneg] at hb ⊢
    rw [if_pos hneg, int32?_bind (by omega)]
    generalize -(value - mean) / 2 ^ factor.toNat = step at hb ⊢
    rw [int32?_bind (by omega), int32?_eq_some (by omega)]
  · rw [if_neg hneg] at hb ⊢
    rw [if_neg hneg, bind_eq_bind, bind_some]
    exact int32?_eq_some (by omega)

theorem updateMeanBitCounts_spec {farCounts : List ℤ} (hco : counts.length = size)
    (hcbounds : ∀ b ∈ counts, 0 ≤ b ∧ b ≤ 32) (hfar : farCounts.length = size)
    (hfbounds : ∀ b ∈ farCounts, 0 ≤ b ∧ b ≤ 32) (hmeans : means.length = size + 1)
    (hmbounds : ∀ m ∈ means.take size, 0 ≤ m ∧ m < kMaxBitCountsQ9) :
    ∃ means', updateMeanBitCounts counts farCounts size means = some means' ∧
      updateMeanBitCounts? counts farCounts size means = some means' ∧
      means'.length = size + 1 ∧ ∀ m ∈ means'.take size, 0 ≤ m ∧ m < kMaxBitCountsQ9 := by
  refine exists_foldlM_invariant₂ (fun l : List ℤ => l.length = size + 1 ∧
    ∀ m ∈ l.take size, 0 ≤ m ∧ m < kMaxBitCountsQ9) ?_ ⟨hmeans, hmbounds⟩
  rintro l i hi ⟨hlength, hl⟩
  have hlt := List.mem_range.mp hi
  obtain ⟨count, hcmem, hcount⟩ := Memory.read_spec (l := counts) (i := i) (by omega) (by omega)
  obtain ⟨far, hfmem, hf⟩ := Memory.read_spec (l := farCounts) (i := i) (by omega) (by omega)
  obtain ⟨mean, hmmem, hmean⟩ := Memory.read_spec (l := l.take size) (i := i) (by omega)
    (by rw [length_take]; omega)
  rw [Memory.read_take (by omega)] at hmean
  have hcb := hcbounds count hcmem
  have hfb := hfbounds far hfmem
  have hq9 : int32? (count * 2 ^ 9) = some (count * 2 ^ 9) := int32?_eq_some (by omega)
  by_cases hpos : 0 < far
  · -- the counts leave between 7 and 13 shifts
    have hslope : kShiftsLinearSlope * far = 3 * far := rfl
    have hs : kShiftsAtZero - kShiftsLinearSlope * far / 2 ^ 4 = 13 - 3 * far / 2 ^ 4 := rfl
    have hval : 0 ≤ count * 2 ^ 9 ∧ count * 2 ^ 9 ≤ kMaxBitCountsQ9 := by
      rw [kMaxBitCountsQ9]
      omega
    refine ⟨l.set i (meanEstimatorFix (count * 2 ^ 9)
      (kShiftsAtZero - kShiftsLinearSlope * far / 2 ^ 4).toNat mean), ?_, ?_, ?_, fun m hm => ?_⟩
    · rw [hcount, hf]
      simp only [bind_eq_bind, bind_some, if_pos hpos, hmean]
      exact Memory.write_natCast (by omega) _
    · have hr : 1 ≤ kShiftsAtZero - kShiftsLinearSlope * far / 2 ^ 4 ∧
          kShiftsAtZero - kShiftsLinearSlope * far / 2 ^ 4 < 32 := by omega
      have hfix := meanEstimatorFix?_eq hr hval (hl mean hmmem)
      simp only [hcount, hf, hmean, hq9, hfix, if_pos hpos, bind_eq_bind,
        bind_some, int32?_eq_some (x := kShiftsLinearSlope * far) (by omega),
        int32?_eq_some (x := kShiftsAtZero - kShiftsLinearSlope * far / 2 ^ 4) (by omega)]
      exact Memory.write_natCast (by omega) _
    · rw [length_set, hlength]
    · rw [take_set] at hm
      rcases mem_or_eq_of_mem_set hm with hm | rfl
      · exact hl m hm
      · exact meanEstimatorFix_bounds (by omega) hval (hl mean hmmem)
  · refine ⟨l, ?_, ?_, hlength, hl⟩
    · rw [hcount, hf]
      simp [hpos]
    · simp only [hcount, hf, hq9, if_neg hpos, bind_eq_bind, bind_some]
      rfl

namespace Valley

theorem find_spec (hsize : 1 ≤ size) (hmeans : means.length = size + 1)
    (hb : ∀ m ∈ means.take size, 0 ≤ m ∧ m < kMaxBitCountsQ9) :
    ∃ v, find means size = some v ∧ 0 ≤ v.candidateDelay ∧ v.candidateDelay < size := by
  obtain ⟨k, rfl⟩ : ∃ k, size = k + 1 := ⟨size - 1, by omega⟩
  have hr : ∀ i < k + 1, ∃ m, Memory.read means i = some m ∧ m < kMaxBitCountsQ9 := by
    intro i hi
    obtain ⟨m, hmem, hm⟩ := Memory.read_spec (l := means.take (k + 1)) (i := i) (by omega)
      (by rw [length_take]; omega)
    rw [Memory.read_take (by omega)] at hm
    exact ⟨m, hm, (hb m hmem).2⟩
  have ht : ∀ (v : Valley) (i : ℕ) (m : ℤ),
      (v.take i m).candidateDelay =
        if m < v.valueBestCandidate then (i : ℤ) else v.candidateDelay := by
    intro v i m
    rw [take]
    split_ifs <;> rfl
  obtain ⟨m, hm, hlt⟩ := hr 0 (by omega)
  rw [find, range_succ_eq_map, foldlM_cons, hm]
  refine exists_foldlM_invariant
    (fun v : Valley => 0 ≤ v.candidateDelay ∧ v.candidateDelay < (k + 1 : ℕ)) ?_ ?_
  · intro v i hi hv
    obtain ⟨j, hj, rfl⟩ := List.mem_map.mp hi
    have hjlt := List.mem_range.mp hj
    obtain ⟨m, hm, -⟩ := hr (j + 1) (by omega)
    refine ⟨v.take (j + 1) m, by rw [hm]; rfl, ?_⟩
    rw [ht]
    split_ifs <;> omega
  · rw [ht, if_pos (show m < start.valueBestCandidate from hlt)]
    omega

end Valley

section Validation
variable (ops : FloatArith F) {candidate : ℤ}

theorem decreaseHistogram_spec (candidate lastDelay : ℤ) (decrease depth : F) {histogram : List F}
    (hlength : histogram.length = size + 1) :
    ∃ histogram', decreaseHistogram ops candidate lastDelay decrease depth size histogram =
      some histogram' ∧ histogram'.length = size + 1 := by
  refine exists_foldlM_invariant (fun l : List F => l.length = size + 1) ?_ hlength
  intro l i hi hl
  have hlt := List.mem_range.mp hi
  rw [← hl]
  exact Memory.read_bind_write_spec (by omega) (by omega) _

theorem Sized.exists_bin (h : e.Sized size) {i : ℤ} (hi : 0 ≤ i ∧ i ≤ size) :
    ∃ bin, Memory.read e.histogram i = some bin := by
  have hh := h.histogram_length
  obtain ⟨bin, -, hbin⟩ := Memory.read_spec (l := e.histogram) hi.1 (by omega)
  exact ⟨bin, hbin⟩

theorem decreaseInLastSet_spec (h : e.Sized size) (hc : e.Consistent) (candidate hi level : ℤ)
    (depth : F) : ∃ d, e.decreaseInLastSet ops candidate hi level depth = some d := by
  have hmeans := h.means_length
  have hcomp := hc.compareDelay
  rw [h.size_eq] at hcomp
  obtain ⟨mean, -, hm⟩ := Memory.read_spec (l := e.meanBitCounts) (i := e.compareDelay)
    hcomp.1 (by omega)
  rw [decreaseInLastSet, hm]
  split_ifs <;> exact ⟨_, rfl⟩

section
variable (h : e.Sized size) (hc : e.Consistent) (hcandidate : 0 ≤ candidate ∧ candidate < size)
include h hc hcandidate

theorem updateRobustValidationStatistics_spec (depth level : ℤ) : ∃ hi histogram,
      e.updateRobustValidationStatistics ops candidate depth level =
        some { e with candidateHits := hi, lastCandidateDelay := candidate, histogram } ∧
      histogram.length = size + 1 := by
  have hh := h.histogram_length
  obtain ⟨bin, hbin⟩ := h.exists_bin (i := candidate) (by omega)
  obtain ⟨d, hd⟩ : ∃ d, e.decreaseInLastSet ops candidate
      (if candidate ≠ e.lastCandidateDelay then 1 else e.candidateHits + 1) level
      (ops.mul (ops.ofInt depth) (kQ14Scaling ops)) = some d :=
    decreaseInLastSet_spec ops h hc _ _ _ _
  simp only [updateRobustValidationStatistics, hbin, hd, h.size_eq, bind_eq_bind,
    bind_some, Memory.write_eq_some (l := e.histogram) hcandidate.1 (by omega)]
  generalize hset : e.histogram.set candidate.toNat _ = raised
  have hr : raised.length = size + 1 := by rw [← hset, length_set, hh]
  obtain ⟨histogram, hde, hl⟩ := decreaseHistogram_spec ops candidate
    e.lastDelay d (ops.mul (ops.ofInt depth) (kQ14Scaling ops)) hr
  rw [hde]
  exact ⟨_, histogram, rfl, hl⟩

theorem histogramBasedValidation_spec : ∃ b, e.histogramBasedValidation ops candidate = some b := by
  obtain ⟨compared, hcompare⟩ := h.exists_bin (h.size_eq ▸ hc.compareDelay)
  obtain ⟨bin, hbin⟩ := h.exists_bin (i := candidate) (by omega)
  rw [histogramBasedValidation, hcompare, bind_eq_bind, bind_some, hbin]
  exact ⟨_, rfl⟩

end

theorem robustValidation_spec (h : e.Sized size) (hcandidate : 0 ≤ candidate ∧ candidate < size)
    (isInstantaneousValid isHistogramValid : Bool) :
    ∃ b, e.robustValidation ops candidate isInstantaneousValid isHistogramValid = some b := by
  obtain ⟨bin, hbin⟩ := h.exists_bin (i := candidate) (by omega)
  rw [robustValidation, hbin]
  cases isHistogramValid <;> exact ⟨_, rfl⟩

theorem adjustHistogram_spec (h : e.Sized size) (hc : e.Consistent)
    (hcandidate : 0 ≤ candidate ∧ candidate < size) :
    ∃ histogram last, e.adjustHistogram ops candidate =
      some { e with histogram, lastDelayHistogram := last } ∧ histogram.length = size + 1 := by
  have hh := h.histogram_length
  have hcomp := hc.compareDelay
  rw [h.size_eq] at hcomp
  obtain ⟨compared, hcompare⟩ := h.exists_bin hcomp
  obtain ⟨bin, hbin⟩ := h.exists_bin (i := candidate) (by omega)
  rw [adjustHistogram, hbin, bind_eq_bind, bind_some, hcompare,
    bind_some, Memory.write_eq_some hcomp.1 (by omega)]
  cases ops.lt bin compared with
  | true => exact ⟨_, _, rfl, List.length_set.trans hh⟩
  | false => exact ⟨_, _, rfl, hh⟩

end Validation

end BinaryDelayEstimator

end WebRtcAudio.Utility
