import WebRtcAudio.Core.Run
import WebRtcAudio.Utility.DelayEstimatorMemory

/-! Runs of the delay estimator. The delays are set by a valid candidate only. -/
namespace WebRtcAudio.Utility.BinaryDelayEstimator

open WebRtcAudio.Core List Option

variable {F : Type} (ops : FloatArith F) {e : BinaryDelayEstimator F} {size : ℕ}

/-- The memory has the sizes of the history, and the delays are inside of it. -/
structure Sound (e : BinaryDelayEstimator F) : Prop where
  two_le : 2 ≤ e.historySize
  sized : e.Sized e.historySize
  consistent : e.Consistent

section Process
variable {v : Valley}

section
variable (h : e.Sized size) (hc : e.Consistent)
  (hv : 0 ≤ v.candidateDelay ∧ v.candidateDelay < size)
include h hc hv

theorem updateDelay_spec :
    ∃ e', e.updateDelay ops v = some e' ∧ e'.farend = e.farend ∧ e'.Sized size ∧ e'.Consistent := by
  have hsize := h.size_eq
  by_cases hchange : v.candidateDelay ≠ e.lastDelay
  · obtain ⟨histogram, last, ha, hl⟩ := adjustHistogram_spec ops h hc hv
    rw [updateDelay, if_pos hchange, ha]
    exact ⟨_, rfl, rfl, { h with histogram_length := hl },
      { hc with lastDelay := .inr (by dsimp only; omega), compareDelay := by dsimp only; omega }⟩
  · rw [updateDelay, if_neg hchange]
    exact ⟨_, rfl, rfl, { h with }, { hc with
      lastDelay := .inr (by dsimp only; omega), compareDelay := by dsimp only; omega }⟩

theorem updateStatistics_spec (nonStationary : Bool) :
    ∃ e', e.updateStatistics ops nonStationary v = some e' ∧ e'.farend = e.farend ∧
      e'.Sized size ∧ e'.Consistent := by
  cases nonStationary with
  | true =>
    obtain ⟨hi, histogram, hu, hl⟩ :=
      updateRobustValidationStatistics_spec ops h hc hv v.depth v.valueBestCandidate
    exact ⟨_, hu, rfl, { h with histogram_length := hl }, { hc with }⟩
  | false => exact ⟨e, rfl, rfl, h, hc⟩

theorem isValidCandidate_spec (isInstantaneousValid : Bool) :
    ∃ b, e.isValidCandidate ops v.candidateDelay isInstantaneousValid = some b := by
  obtain ⟨bh, hbh⟩ := histogramBasedValidation_spec ops h hc hv
  obtain ⟨br, hbr⟩ := robustValidation_spec ops h hv isInstantaneousValid bh
  rw [isValidCandidate]
  split_ifs
  · exact ⟨br, by rw [hbh, bind_eq_bind, bind_some, hbr]⟩
  · exact ⟨_, rfl⟩

theorem validate_spec :
    ∃ e', e.validate ops v = some e' ∧ e'.farend = e.farend ∧ e'.Sized size ∧ e'.Consistent := by
  obtain ⟨b, hb⟩ : ∃ b, e.nonStationaryFarend = some b :=
    ⟨_, if_pos (by rw [h.size_eq, h.farend.counts_length])⟩
  obtain ⟨e₁, he₁, hfar₁, h₁, hc₁⟩ := updateStatistics_spec ops h hc hv b
  obtain ⟨valid, hvalid⟩ := isValidCandidate_spec ops h₁ hc₁ hv (e.isInstantaneousValid v)
  rw [validate]
  simp only [hb, he₁, hvalid, bind_eq_bind, bind_some]
  split_ifs
  · rw [← hfar₁]
    exact updateDelay_spec ops h₁ hc₁ hv
  · exact ⟨e₁, rfl, hfar₁, h₁, hc₁⟩

end

theorem pullNearSpectrum_spec (h : e.Sized size) (hc : e.Consistent) (s : UInt32) :
    ∃ history spectrum, e.pullNearSpectrum s = some (history, spectrum) ∧
      history.length = e.nearHistorySize := by
  have hl := hc.lookahead
  by_cases hn : 1 < e.nearHistorySize
  · obtain ⟨history, hp, hlength, -⟩ :=
      BinaryDelayEstimatorFarend.pushFront_spec h.near_length hn.le s
    obtain ⟨spectrum, -, hr⟩ := Memory.read_spec (l := history) (i := e.lookahead) hl.1
      (by omega)
    refine ⟨history, spectrum, ?_, hlength⟩
    rw [pullNearSpectrum, if_pos hn, hp, bind_eq_bind, bind_some, hr]
    rfl
  · exact ⟨_, s, if_neg hn, h.near_length⟩

section Candidate
variable (h : e.Sized size) (hc : e.Consistent) (hsize : 2 ≤ size)
include h hc hsize

theorem findCandidate_spec (s : UInt32) :
    ∃ e' v, e.findCandidate updateMeanBitCounts s = some (e', v) ∧
      e.findCandidate updateMeanBitCounts? s = some (e', v) ∧
      (e'.farend = e.farend ∧ e'.Sized size ∧ e'.Consistent) ∧
      0 ≤ v.candidateDelay ∧ v.candidateDelay < size := by
  obtain ⟨history, spectrum, hp, hn⟩ := pullNearSpectrum_spec h hc s
  obtain ⟨counts, hco, hclength, hcbounds⟩ := bitCountComparison_spec spectrum
    h.farend.history_length h.counts_length h.counts_bounds
  obtain ⟨means, hmean, hmean32, hmle, hm⟩ := updateMeanBitCounts_spec hclength hcbounds
    h.farend.counts_length h.farend.counts_bounds h.means_length h.means_bounds
  obtain ⟨v, hf, hv⟩ := Valley.find_spec (by omega) hmle hm
  refine ⟨{ e with binaryNearHistory := history, bitCounts := counts, meanBitCounts := means }, v,
    ?_, ?_, ⟨rfl, ?_, ⟨hc.lastDelay, hc.compareDelay, hc.lookahead⟩⟩, hv⟩
  · simp only [findCandidate, h.size_eq, hp, hco, hmean, hf, bind_eq_bind, bind_some]
    rfl
  · simp only [findCandidate, h.size_eq, hp, hco, hmean32, hf, bind_eq_bind, bind_some]
    rfl
  · exact ⟨h.size_eq, h.farend, hmle, hm, hclength, hcbounds, h.histogram_length, hn⟩

theorem processBinarySpectrum_spec (s : UInt32) :
    ∃ e', (e.processBinarySpectrum ops s).map Prod.fst = some e' ∧ e'.farend = e.farend ∧
      e'.Sized size ∧ e'.Consistent := by
  obtain ⟨e₁, v, hf, -, ⟨hfar, h₁, hc₁⟩, hv⟩ := findCandidate_spec h hc hsize s
  obtain ⟨e', hva, hfar', h', hc'⟩ := validate_spec ops (e := e₁.updateProbabilities v)
    ⟨h₁.size_eq, h₁.farend, h₁.means_length, h₁.means_bounds, h₁.counts_length, h₁.counts_bounds,
      h₁.histogram_length, h₁.near_length⟩
    ⟨hc₁.lastDelay, hc₁.compareDelay, hc₁.lookahead⟩ hv
  refine ⟨e', ?_, hfar'.trans hfar, h', hc'⟩
  have hs : ¬ e.farend.historySize ≠ e.historySize := by
    rw [not_not, h.farend.size_eq, h.size_eq]
  rw [processBinarySpectrum, if_neg hs, hf]
  simp only [bind_eq_bind, bind_some, hva]
  rfl

end Candidate

end Process

section Allocation
variable {old : ℕ}

theorem allocateHistoryBufferMemory_spec {farSize : ℕ} (hold : e.historySize = old)
    (hfar : e.farend.Sized farSize) (hmeans : old ≤ e.meanBitCounts.length)
    (hmbounds : ∀ m ∈ e.meanBitCounts.take old, 0 ≤ m ∧ m < kMaxBitCountsQ9)
    (hco : old ≤ e.bitCounts.length) (hcbounds : ∀ b ∈ e.bitCounts.take old, 0 ≤ b ∧ b ≤ 32)
    (hhi : old ≤ e.histogram.length)
    (hn : e.binaryNearHistory.length = e.nearHistorySize) (new : ℕ) (held : Held F) :
    ∃ meanBitCounts bitCounts histogram farend, e.allocateHistoryBufferMemory ops new held =
        some { e with meanBitCounts, bitCounts, histogram, farend, historySize := new } ∧
      ({ e with meanBitCounts, bitCounts, histogram, farend, historySize := new } :
        BinaryDelayEstimator F).Sized new := by
  obtain ⟨farend, ha, hfar'⟩ : ∃ farend, e.resizeFarend new held = some farend ∧
      farend.Sized new := by
    rw [resizeFarend]
    by_cases hs : new ≠ e.farend.historySize
    · rw [if_pos hs]
      exact hfar.allocateBufferMemory new held
    · rw [if_neg hs]
      obtain rfl : farSize = new := by rw [← hfar.size_eq, not_not.mp hs]
      exact ⟨_, rfl, hfar⟩
  by_cases hg : old < new
  · obtain ⟨means, hm, hmle, hmmem⟩ :=
      Memory.memset_realloc (n := new + 1) hmeans hg.le (by omega) held.int 0
    obtain ⟨counts, hc, hclength, hcmem⟩ :=
      Memory.memset_realloc (n := new) hco hg.le le_rfl held.int 0
    obtain ⟨histogram, hh, hhle, -⟩ :=
      Memory.memset_realloc (n := new + 1) hhi hg.le (by omega) held.float (ops.literal 0)
    refine ⟨means, counts, histogram, farend, ?_, rfl, hfar', hmle, fun m hmem => ?_, hclength,
      fun b hmem => ?_, hhle, hn⟩
    · rw [allocateHistoryBufferMemory, ha, bind_eq_bind, bind_some, hold, if_pos hg]
      dsimp only
      rw [hm, hc, hh]
      rfl
    · rcases hmmem m hmem with hmem | rfl
      · exact hmbounds m hmem
      · decide
    · rcases hcmem b (by rwa [take_of_length_le hclength.le]) with hmem | rfl
      · exact hcbounds b hmem
      · decide
  · refine ⟨Memory.realloc e.meanBitCounts (new + 1) held.int,
      Memory.realloc e.bitCounts new held.int, Memory.realloc e.histogram (new + 1) held.float,
      farend, ?_, rfl, hfar', Memory.length_realloc _ _ _, fun m hmem => ?_,
      Memory.length_realloc _ _ _, fun b hmem => ?_, Memory.length_realloc _ _ _, hn⟩
    · rw [allocateHistoryBufferMemory, ha, bind_eq_bind, bind_some, hold, if_neg hg]
      rfl
    · rw [Memory.take_realloc (by omega) (by omega)] at hmem
      exact hmbounds m ((take_subset_take_left _ (by omega)) hmem)
    · rw [← take_of_length_le (Memory.length_realloc e.bitCounts new held.int).le,
        Memory.take_realloc (by omega) le_rfl] at hmem
      exact hcbounds b ((take_subset_take_left _ (by omega)) hmem)

theorem setHistorySize_of_le {n : ℤ} (hn : n ≤ 1) (held : Held F) :
    (e.setHistorySize ops n held).map Prod.fst = some e := by
  rw [setHistorySize, if_pos hn]
  rfl

theorem setHistorySize_spec (h : e.Sized size) {n : ℤ} (hn : 1 < n) (held : Held F) :
    ∃ e', (e.setHistorySize ops n held).map Prod.fst = some e' ∧ e'.Sized n.toNat ∧
      e'.lastDelay = e.lastDelay ∧ e'.compareDelay = e.compareDelay ∧
      e'.lookahead = e.lookahead ∧ e'.nearHistorySize = e.nearHistorySize := by
  have hmeans := h.means_length
  have hhi := h.histogram_length
  obtain ⟨means, counts, histogram, farend, ha, hs⟩ :=
    allocateHistoryBufferMemory_spec ops h.size_eq h.farend (by omega) h.means_bounds
      h.counts_length.ge (fun b hb => h.counts_bounds b (mem_of_mem_take hb)) (by omega)
      h.near_length n.toNat held
  refine ⟨_, ?_, hs, rfl, rfl, rfl, rfl⟩
  rw [setHistorySize, if_neg (by omega), ha]
  rfl

end Allocation

section Start
variable {historySize maxLookahead : ℤ} {robust : Bool} {allowedOffset : ℤ} {held : Held F}

def start (ops : FloatArith F) (historySize maxLookahead : ℤ) (robust : Bool) (allowedOffset : ℤ)
    (held : Held F) : Option (BinaryDelayEstimator F) := do
  let farend ← BinaryDelayEstimatorFarend.create historySize held
  let self ← create ops farend maxLookahead held
  let farend ← self.farend.init
  let self ← ({ self with farend } : BinaryDelayEstimator F).init ops
  return { self with robustValidationEnabled := robust, allowedOffset }

theorem initBuffer_spec {α : Type} {l : List α} (hl : l.length = size + 1) (a : α) :
    initBuffer l size a = some (List.replicate (size + 1) a) := by
  rw [initBuffer, Memory.foldlM_write hl.ge, drop_of_length_le hl.le, append_nil]

variable {far : BinaryDelayEstimatorFarend}

theorem farend_init_spec (h : far.Sized size) : ∃ far', far.init = some far' ∧ far'.Sized size := by
  have hl := h.history_length
  have hclength := h.counts_length
  obtain ⟨history, hh, hlen', -⟩ :=
    Memory.memset_spec (l := far.binaryFarHistory) 0 size (by omega) (by omega) (by omega) 0
  obtain ⟨counts, hco, hclength', hmem⟩ :=
    Memory.memset_spec (l := far.farBitCounts) 0 size (by omega) (by omega) (by omega) 0
  refine ⟨{ far with binaryFarHistory := history, farBitCounts := counts }, ?_,
    h.size_eq, hlen'.trans hl, hclength'.trans hclength, fun b hb => ?_⟩
  · rw [BinaryDelayEstimatorFarend.init, h.size_eq, hh, hco]
    rfl
  · rcases hmem b hb with hb | rfl
    · exact h.counts_bounds b hb
    · decide

theorem init_spec (h : e.Sized size) (hl : 0 ≤ e.lookahead ∧
    e.lookahead ≤ (e.nearHistorySize : ℤ) - 1) :
    ∃ e', e.init ops = some e' ∧ e'.farend = e.farend ∧ e'.Sized size ∧ e'.Consistent := by
  have hclength := h.counts_length
  have hnle := h.near_length
  obtain ⟨counts, hco, hclength', hcmem⟩ :=
    Memory.memset_spec (l := e.bitCounts) 0 size (by omega) (by omega) (by omega) 0
  obtain ⟨near, hn, hnle', -⟩ := Memory.memset_spec (l := e.binaryNearHistory) 0
    e.nearHistorySize (by omega) (by omega) (by omega) 0
  have hmeans := initBuffer_spec h.means_length (20 * 2 ^ 9 : ℤ)
  have hhi := initBuffer_spec h.histogram_length (ops.literal 0)
  rw [init, h.size_eq, hco, hn, hmeans, hhi]
  refine ⟨_, rfl, rfl, ⟨rfl, h.farend, length_replicate, fun m hm => ?_,
    by dsimp only; omega, fun b hb => ?_, length_replicate, by dsimp only; omega⟩, .inl rfl, ?_, hl⟩
  · rw [eq_of_mem_replicate (mem_of_mem_take hm)]
    decide
  · rcases hcmem b hb with hb | rfl
    · exact h.counts_bounds b hb
    · decide
  · exact ⟨Int.natCast_nonneg _, Int.le_refl _⟩

theorem create_spec (h : far.Sized size) (hl : 0 ≤ maxLookahead) (held : Held F) :
    ∃ e, create ops far maxLookahead held = some e ∧ e.Sized size ∧
      0 ≤ e.lookahead ∧ e.lookahead ≤ (e.nearHistorySize : ℤ) - 1 := by
  rw [create, if_pos hl, h.size_eq]
  have hg : ∀ e : BinaryDelayEstimator F, e.historySize = 0 → e.farend = far →
      e.binaryNearHistory.length = e.nearHistorySize → 0 ≤ e.lookahead →
      e.lookahead ≤ (e.nearHistorySize : ℤ) - 1 →
      ∃ e', e.allocateHistoryBufferMemory ops size held = some e' ∧ e'.Sized size ∧
        0 ≤ e'.lookahead ∧ e'.lookahead ≤ (e'.nearHistorySize : ℤ) - 1 := by
    rintro e hsize rfl hn hlow hh
    obtain ⟨_, _, _, _, ha, hs⟩ := allocateHistoryBufferMemory_spec ops hsize h
      (Nat.zero_le _) (by simp) (Nat.zero_le _) (by simp) (Nat.zero_le _) hn size held
    exact ⟨_, ha, hs, hlow, hh⟩
  refine hg _ rfl rfl (Memory.length_realloc _ _ _) hl ?_
  dsimp only
  omega

theorem farend_create_spec (hsize : 1 < historySize) (held : Held F) :
    ∃ far, BinaryDelayEstimatorFarend.create historySize held = some far ∧
      far.Sized historySize.toNat := by
  have he : (⟨[], [], 0⟩ : BinaryDelayEstimatorFarend).Sized 0 := ⟨rfl, rfl, rfl, by simp⟩
  obtain ⟨far, ha, hs⟩ := he.allocateBufferMemory historySize.toNat held
  exact ⟨far, by rw [BinaryDelayEstimatorFarend.create, if_pos hsize, ha], hs⟩

theorem start_spec (hsize : 1 < historySize) (hl : 0 ≤ maxLookahead) (robust : Bool)
    (allowedOffset : ℤ) (held : Held F) :
    ∃ e, start ops historySize maxLookahead robust allowedOffset held = some e ∧ e.Sound ∧
      e.historySize = historySize.toNat ∧
      ∃ far : BinaryDelayEstimatorFarend, far.Sized historySize.toNat ∧
        far.init = some e.farend := by
  obtain ⟨far, hfar, hsized⟩ := farend_create_spec hsize held
  obtain ⟨e₁, he₁, hs₁, hlook₁⟩ := create_spec ops hsized hl held
  obtain ⟨far', hfar', hs'⟩ := farend_init_spec hs₁.farend
  obtain ⟨e₂, hi, hfar₂, hs₂, hc₂⟩ := init_spec ops (e := { e₁ with farend := far' })
    { hs₁ with farend := hs' } hlook₁
  have hsize₂ := hs₂.size_eq
  simp only [start, hfar, he₁, hfar', hi, bind_eq_bind, bind_some]
  refine ⟨_, rfl, ⟨?_, ?_, { hc₂ with }⟩, hsize₂, e₁.farend, hs₁.farend, ?_⟩
  · dsimp only
    omega
  · rw [← hsize₂] at hs₂
    exact { hs₂ with }
  · rw [hfar', hfar₂]

theorem start_sound {ops : FloatArith F}
    (h : start ops historySize maxLookahead robust allowedOffset held = some e) : e.Sound := by
  have hsize : 1 < historySize := by
    by_contra hneg
    rw [start, BinaryDelayEstimatorFarend.create, if_neg hneg] at h
    exact some_ne_none _ h.symm
  have hl : 0 ≤ maxLookahead := by
    by_contra hneg
    obtain ⟨far, hfar, -⟩ := farend_create_spec hsize held
    rw [start, hfar, bind_eq_bind, bind_some, create, if_neg hneg] at h
    exact some_ne_none _ h.symm
  obtain ⟨e', hs, hsound, -⟩ := start_spec ops hsize hl robust allowedOffset held
  cases h.symm.trans hs
  exact hsound

end Start

/-- A resize keeps both delays inside the history, and a shift of the far end is no longer than the
history. -/
def Fits (e : BinaryDelayEstimator F) : Call F → Prop
  | .setHistorySize n _ => 1 < n → e.compareDelay ≤ n ∧ e.lastDelay < n
  | .softResetFarend shift => shift.natAbs ≤ e.historySize
  | _ => True

def stepInside (ops : FloatArith F) (e : Option (BinaryDelayEstimator F)) (c : Call F) :
    Option (BinaryDelayEstimator F) × Unit :=
  (e.bind fun e => e.step ops c, ())

instance (e : BinaryDelayEstimator F) : (c : Call F) → Decidable (e.Fits c)
  | .setHistorySize n _ =>
    inferInstanceAs (Decidable (1 < n → e.compareDelay ≤ n ∧ e.lastDelay < n))
  | .softResetFarend shift => inferInstanceAs (Decidable (shift.natAbs ≤ e.historySize))
  | .addBinaryFarSpectrum _ => inferInstanceAs (Decidable True)
  | .processBinarySpectrum _ => inferInstanceAs (Decidable True)
  | .softReset _ => inferInstanceAs (Decidable True)
  | .setLookahead _ => inferInstanceAs (Decidable True)

theorem Sound.step (h : e.Sound) {c : Call F} (hf : e.Fits c) :
    ∃ e', e.step ops c = some e' ∧ e'.Sound := by
  have hsize := h.two_le
  cases c with
  | addBinaryFarSpectrum s =>
    obtain ⟨far, hadd, hfar⟩ := h.sized.farend.addSpectrum (by omega) s
    rw [BinaryDelayEstimator.step, hadd]
    exact ⟨_, rfl, h.two_le, { h.sized with farend := hfar }, { h.consistent with }⟩
  | processBinarySpectrum s =>
    obtain ⟨e', hp, -, hs, hc⟩ := processBinarySpectrum_spec ops h.sized h.consistent hsize s
    have hsame := hs.size_eq
    rw [← hsame] at hsize hs
    exact ⟨e', hp, hsize, hs, hc⟩
  | softResetFarend shift =>
    obtain ⟨far, hreset, hfar⟩ := h.sized.farend.softReset (by exact_mod_cast hf)
    rw [BinaryDelayEstimator.step, hreset]
    exact ⟨_, rfl, h.two_le, { h.sized with farend := hfar }, { h.consistent with }⟩
  | softReset shift =>
    have hlook := h.consistent.lookahead
    refine ⟨_, rfl, h.two_le, { h.sized with }, { h.consistent with lookahead := ?_ }⟩
    simp only [BinaryDelayEstimator.softReset]
    split_ifs <;> omega
  | setLookahead lookahead =>
    rw [BinaryDelayEstimator.step, setLookahead]
    split_ifs with hrange
    · exact ⟨e, rfl, h⟩
    · exact ⟨_, rfl, h.two_le, { h.sized with },
        { h.consistent with lookahead := by dsimp only; omega }⟩
  | setHistorySize n held =>
    by_cases hr : n ≤ 1
    · exact ⟨e, setHistorySize_of_le ops hr held, h⟩
    have hn : 1 < n := by omega
    obtain ⟨e', hset, hs, hlast, hcompare, hl, hnear⟩ :=
      setHistorySize_spec ops h.sized hn held
    obtain ⟨hcfits, hlfits⟩ := hf hn
    have hnew := hs.size_eq
    have hc := h.consistent
    refine ⟨e', hset, by omega, by rw [hnew]; exact hs, ?_, ?_, ?_⟩
    · rw [hlast, hnew]
      exact hc.lastDelay.imp_right fun hin => ⟨hin.1, by omega⟩
    · rw [hcompare, hnew]
      exact ⟨hc.compareDelay.1, by omega⟩
    · rw [hl, hnear]
      exact hc.lookahead

theorem Sound.step_of_not_fits (h : e.Sound) {c : Call F} (hf : ¬ e.Fits c) :
    ∀ e', e.step ops c = some e' → ¬ e'.Consistent := by
  intro e' hs hc
  cases c with
  | softResetFarend shift =>
    have hnone := h.sized.farend.softReset_eq_none
      (by exact_mod_cast not_le.mp hf)
    rw [BinaryDelayEstimator.step, hnone] at hs
    exact some_ne_none e' hs.symm
  | setHistorySize n held =>
    obtain ⟨hn, hout⟩ := not_forall.mp hf
    obtain ⟨e'', hset, hsized, hlast, hcompare, -, -⟩ :=
      setHistorySize_spec ops h.sized hn held
    cases hs.symm.trans hset
    have hnew := hsized.size_eq
    have hl := hc.lastDelay
    have hcd := hc.compareDelay
    rw [hlast, hnew] at hl
    rw [hcompare, hnew] at hcd
    exact hout ⟨by omega, by omega⟩
  | _ => exact hf trivial

/-- In every state of a run the delays and the lookahead are inside the histories and no access
left the memory, exactly if every call fits the state it is made in. -/
theorem runs_inside_iff {ops : FloatArith F} {historySize maxLookahead : ℤ} {robust : Bool}
    {allowedOffset : ℤ}
    {held : Held F} (hstart : start ops historySize maxLookahead robust allowedOffset held = some e)
    (calls : List (Call F)) :
    (∀ pre, pre <+: calls → ∃ e' ∈ runState (stepInside ops) (some e) pre, e'.Consistent) ↔
      ∀ pre c post, calls = pre ++ c :: post →
        ∀ e' ∈ runState (stepInside ops) (some e) pre, e'.Fits c := by
  have hP : ∀ o : Option (BinaryDelayEstimator F), (∃ e, o = some e ∧ e.Sound) →
      ∃ e ∈ o, e.Consistent := by
    rintro _ ⟨e, rfl, h⟩
    exact ⟨e, rfl, h.consistent⟩
  have hg : ∀ (o : Option (BinaryDelayEstimator F)) (c : Call F), (∃ e, o = some e ∧ e.Sound) →
      (∀ e ∈ o, e.Fits c) → ∃ e, (stepInside ops o c).1 = some e ∧ e.Sound := by
    rintro _ c ⟨e, rfl, h⟩ hg
    exact h.step ops (hg e rfl)
  have hbad : ∀ (o : Option (BinaryDelayEstimator F)) (c : Call F), (∃ e, o = some e ∧ e.Sound) →
      ¬ (∀ e ∈ o, e.Fits c) → ¬ ∃ e ∈ (stepInside ops o c).1, e.Consistent := by
    rintro _ c ⟨e, rfl, h⟩ hbad ⟨e', hs, hc⟩
    have hf : ¬ e.Fits c := fun hf => hbad fun _ heq => some.inj heq ▸ hf
    exact h.step_of_not_fits ops hf e' hs hc
  exact forall_reached_iff (stepInside ops) hP hg hbad ⟨e, rfl, start_sound hstart⟩ calls

section Examples

def exactArith : FloatArith ℚ where
  literal := id
  ofInt := Int.cast
  add := (· + ·)
  sub := (· - ·)
  mul := (· * ·)
  lt x y := decide (x < y)
  le x y := decide (x ≤ y)

def heldOnes : Held ℚ := ⟨fun _ => 1, fun _ => 1, fun _ => 1⟩

def fourDelays : BinaryDelayEstimator ℚ where
  meanBitCounts := [10240, 10240, 10240, 10240, 10240]
  bitCounts := [0, 0, 0, 0]
  binaryNearHistory := [0, 0]
  nearHistorySize := 2
  historySize := 4
  minimumProbability := 16384
  lastDelayProbability := 16384
  lastDelay := -2
  robustValidationEnabled := false
  allowedOffset := 0
  lastCandidateDelay := -2
  compareDelay := 4
  candidateHits := 0
  histogram := [0, 0, 0, 0, 0]
  lastDelayHistogram := 0
  lookahead := 1
  farend := ⟨[0, 0, 0, 0], [0, 0, 0, 0], 4⟩

theorem start_fourDelays : start exactArith 4 1 false 0 heldOnes = some fourDelays := by
  decide +kernel

def growingCalls : List (Call ℚ) :=
  [.setHistorySize 6 heldOnes, .addBinaryFarSpectrum 5, .processBinarySpectrum 5,
    .softResetFarend (-6), .setLookahead 0]

theorem runs_inside_growingCalls :
    ∃ e ∈ runState (stepInside exactArith) (some fourDelays) growingCalls, e.Consistent := by
  refine (runs_inside_iff start_fourDelays growingCalls).mpr ?_ growingCalls prefix_rfl
  rw [growingCalls]
  simp only [forall_split_cons, forall_split_nil]
  decide +kernel

/-- The history shrinks to two delays while the delay that is compared with is the old dummy; then
a spectrum is processed. -/
def shrinkingCalls : List (Call ℚ) :=
  [.setHistorySize 2 heldOnes, .addBinaryFarSpectrum 5, .processBinarySpectrum 5]

theorem shrinking_leaves_memory : start exactArith 4 1 false 0 heldOnes = some fourDelays ∧
    (∃ e ∈ runState (stepInside exactArith) (some fourDelays) [.setHistorySize 2 heldOnes],
      e.historySize = 2 ∧ e.compareDelay = 4) ∧
    (runState (stepInside exactArith) (some fourDelays) (shrinkingCalls.take 2)).isSome = true ∧
    runState (stepInside exactArith) (some fourDelays) shrinkingCalls = none ∧
    runState (stepInside exactArith) (some fourDelays) [.softResetFarend 5] = none := by
  decide +kernel

end Examples

end WebRtcAudio.Utility.BinaryDelayEstimator
