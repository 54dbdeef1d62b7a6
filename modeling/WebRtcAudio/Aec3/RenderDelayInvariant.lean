import Mathlib.Algebra.EuclideanDomain.Int
import Mathlib.Algebra.EuclideanDomain.Basic
import WebRtcAudio.Aec3.RenderDelayBuffer

/-! Every index of the render delay buffer stays inside its ring. -/
namespace WebRtcAudio.Aec3
open WebRtcAudio.Core IndexedBuffer

structure Rings where
  blocks : BlockBuffer
  spectra : SpectrumBuffer
  ffts : FftBuffer
  lowRate : DownsampledRenderBuffer

def Rings.totalDelay (r : Rings) : ℤ := r.blocks.ahead

/-- Every index is a slot of its ring, the full-rate rings move in lock step, and the
low-rate ring moves in whole sub-blocks. -/
structure Rings.LockStep (cfg : RenderDelayConfig) (r : Rings) : Prop where
  blocks_size : r.blocks.size = cfg.ringSize
  spectra_size : r.spectra.size = cfg.ringSize
  ffts_size : r.ffts.size = cfg.ringSize
  lowRate_size : r.lowRate.size = cfg.lowRateSize
  blocks_inside : r.blocks.Inside
  spectra_inside : r.spectra.Inside
  ffts_inside : r.ffts.Inside
  lowRate_inside : r.lowRate.Inside
  lowRate_write_dvd : (cfg.subBlockSize : ℤ) ∣ r.lowRate.write
  lowRate_read_dvd : (cfg.subBlockSize : ℤ) ∣ r.lowRate.read
  spectra_lock : r.spectra.behind = r.totalDelay
  ffts_lock : r.ffts.behind = r.totalDelay

namespace RenderDelayConfig
variable (cfg : RenderDelayConfig)

theorem cast_subBlockSize_pos : (0 : ℤ) < cfg.subBlockSize := by exact_mod_cast cfg.subBlockSize_pos

theorem ringSize_pos : (0 : ℤ) < cfg.ringSize := by
  have := cfg.maxDelay_lt_ringSize
  omega

theorem lowRateSize_pos : (0 : ℤ) < cfg.lowRateSize := by
  have hm : 0 < cfg.maxDelay := lt_trans one_pos cfg.one_lt_maxDelay
  have h := Nat.mul_pos cfg.subBlockSize_pos hm
  rw [← cfg.lowRateSize_eq] at h
  exact_mod_cast h

theorem lowRateSize_cast : (cfg.lowRateSize : ℤ) = cfg.subBlockSize * cfg.maxDelay := by
  exact_mod_cast cfg.lowRateSize_eq

theorem subBlockSize_dvd : (cfg.subBlockSize : ℤ) ∣ cfg.lowRateSize :=
  ⟨cfg.maxDelay, cfg.lowRateSize_cast⟩

theorem subBlockSize_lt : (cfg.subBlockSize : ℤ) < cfg.lowRateSize := by
  have hs := cfg.cast_subBlockSize_pos
  have hm : (1 : ℤ) < cfg.maxDelay := by exact_mod_cast cfg.one_lt_maxDelay
  rw [cfg.lowRateSize_cast]
  nlinarith

end RenderDelayConfig

namespace RenderDelayBuffer
variable {cfg : RenderDelayConfig} {s : RenderDelayBuffer}

def rings (s : RenderDelayBuffer) : Rings := ⟨s.blocks, s.spectra, s.ffts, s.lowRate⟩

theorem observeApiCall_keeps (s : RenderDelayBuffer) (isRender : Bool) :
    (s.observeApiCall isRender).rings = s.rings ∧ (s.observeApiCall isRender).delay = s.delay := by
  unfold observeApiCall
  split_ifs <;> exact ⟨rfl, rfl⟩

theorem detectRenderActivity_keeps (s : RenderDelayBuffer) (active : Bool) :
    (s.detectRenderActivity active).rings = s.rings ∧
      (s.detectRenderActivity active).delay = s.delay := by
  unfold detectRenderActivity
  split_ifs <;> exact ⟨rfl, rfl⟩

theorem detectExcessRenderBlocks_keeps (cfg : RenderDelayConfig) (s : RenderDelayBuffer) :
    (s.detectExcessRenderBlocks cfg).1.rings = s.rings ∧
      (s.detectExcessRenderBlocks cfg).1.delay = s.delay := by
  simp only [detectExcessRenderBlocks, apply_ite Prod.fst, apply_ite rings, apply_ite delay]
  simp only [rings, ite_self, and_self]

@[simp] theorem rings_reportRenderActivity (s : RenderDelayBuffer) :
    s.reportRenderActivity.rings = s.rings := by
  unfold reportRenderActivity
  dsimp only
  split_ifs <;> rfl

@[simp] theorem delay_reportRenderActivity (s : RenderDelayBuffer) :
    s.reportRenderActivity.delay = s.delay := by
  unfold reportRenderActivity
  dsimp only
  split_ifs <;> rfl

theorem bufferLatency_congr (cfg : RenderDelayConfig) {t : RenderDelayBuffer}
    (he : t.rings = s.rings) : t.bufferLatency cfg = s.bufferLatency cfg := by
  have hl : t.lowRate = s.lowRate := congrArg Rings.lowRate he
  simp only [bufferLatency, hl]

section
variable (h : s.rings.LockStep cfg)
include h

theorem lowRate_behind :
    s.lowRate.behind = cfg.subBlockSize * s.bufferLatency cfg := by
  obtain ⟨⟨hw0, hwn⟩, hr0, hrn⟩ : s.lowRate.Inside := h.lowRate_inside
  have hsz : s.lowRate.size = cfg.lowRateSize := h.lowRate_size
  have hfit := cfg.lowRateSize_lt
  have hpos : 0 < s.lowRate.size := hsz ▸ cfg.lowRateSize_pos
  have hsum : ((toSizeT (s.lowRate.size + s.lowRate.read - s.lowRate.write) : ℕ) : ℤ) =
      s.lowRate.size + (s.lowRate.read - s.lowRate.write) := by
    rw [toSizeT_cast] <;> omega
  have hsize : ((toSizeT s.lowRate.size : ℕ) : ℤ) = s.lowRate.size :=
    toSizeT_cast hpos.le (by omega)
  have hs : ((toSizeT (s.lowRate.size + s.lowRate.read - s.lowRate.write) %
      toSizeT s.lowRate.size : ℕ) : ℤ) = s.lowRate.behind := by
    rw [Int.natCast_mod, hsum, hsize, Int.add_emod_left]
    rfl
  have hdvd : (cfg.subBlockSize : ℤ) ∣ s.lowRate.behind :=
    (EuclideanDomain.dvd_mod_iff (hsz ▸ cfg.subBlockSize_dvd)).mpr
      (dvd_sub h.lowRate_read_dvd h.lowRate_write_dvd)
  have hlt : s.lowRate.behind < s.lowRate.size := circDist_lt hpos _ _
  unfold bufferLatency
  dsimp only
  rw [hs, toInt32_eq_self (by omega), Int.mul_tdiv_cancel' hdvd]

theorem bufferLatency_bounds :
    0 ≤ s.bufferLatency cfg ∧ s.bufferLatency cfg < cfg.maxDelay := by
  have hs := cfg.cast_subBlockSize_pos
  have hpos : 0 < s.lowRate.size := h.lowRate_inside.size_pos
  have h0 : 0 ≤ s.lowRate.behind := circDist_nonneg hpos _ _
  have hlt : s.lowRate.behind < s.lowRate.size := circDist_lt hpos _ _
  rw [lowRate_behind h] at h0 hlt
  rw [show s.lowRate.size = cfg.lowRateSize from h.lowRate_size, cfg.lowRateSize_cast] at hlt
  exact ⟨nonneg_of_mul_nonneg_right h0 hs, lt_of_mul_lt_mul_left hlt hs.le⟩

theorem totalDelay_bounds :
    0 ≤ s.rings.totalDelay ∧ s.rings.totalDelay < cfg.ringSize := by
  have hpos := h.blocks_inside.size_pos
  have hlt := circDist_lt hpos s.rings.blocks.read s.rings.blocks.write
  rw [h.blocks_size] at hlt
  exact ⟨circDist_nonneg hpos _ _, h.blocks_size ▸ hlt⟩

theorem computeDelay_eq :
    s.computeDelay cfg = s.rings.totalDelay - s.bufferLatency cfg := by
  obtain ⟨⟨hw0, hwn⟩, hr0, hrn⟩ : s.spectra.Inside := h.spectra_inside
  have hl : s.spectra.behind = s.rings.totalDelay := h.spectra_lock
  unfold computeDelay
  dsimp only
  rw [← hl]
  congr 1
  unfold behind circDist
  split_ifs with hle
  · exact (Int.emod_eq_of_lt (by omega) (by omega)).symm
  · rw [← Int.add_emod_left, Int.emod_eq_of_lt (by omega) (by omega)]
    ring

theorem renderUnderrun_iff :
    s.renderUnderrun = true ↔ s.bufferLatency cfg = 0 := by
  have hz : s.lowRate.behind = 0 ↔ s.lowRate.write = s.lowRate.read :=
    behind_eq_zero_iff h.lowRate_inside
  rw [lowRate_behind h, mul_eq_zero, or_iff_right cfg.cast_subBlockSize_pos.ne'] at hz
  simp only [renderUnderrun, decide_eq_true_eq, hz]
  exact eq_comm

theorem blocks_read_eq_write_iff :
    s.blocks.read = s.blocks.write ↔ s.rings.totalDelay = 0 :=
  (ahead_eq_zero_iff h.blocks_inside).symm

theorem renderOverrun_iff :
    s.renderOverrun = true ↔ s.bufferLatency cfg = 0 ∨ s.rings.totalDelay = 0 := by
  rw [← blocks_read_eq_write_iff h, ← renderUnderrun_iff h]
  simp [renderOverrun, renderUnderrun]

private theorem latency_of_behind {l : ℤ}
    (hd : s.lowRate.behind = cfg.subBlockSize * l) : s.bufferLatency cfg = l := by
  exact mul_left_cancel₀ cfg.cast_subBlockSize_pos.ne' ((lowRate_behind h).symm.trans hd)

end

private theorem subBlock_emod (cfg : RenderDelayConfig) (l k : ℤ) :
    (cfg.subBlockSize * l + cfg.subBlockSize * k) % (cfg.lowRateSize : ℤ) =
      cfg.subBlockSize * ((l + k) % cfg.maxDelay) := by
  rw [cfg.lowRateSize_cast, ← mul_add, Int.mul_emod_mul_of_pos _ _ cfg.cast_subBlockSize_pos]

private theorem offset_nonneg {b : IndexedBuffer} (h : b.Inside) (d : ℕ) :
    0 ≤ b.size + b.write + (d : ℤ) := by
  have := h.1.1
  have := h.size_pos
  omega

private theorem subBlock_dvd_offsetIndex {b : IndexedBuffer} {i o : ℤ}
    (hb : b.size = cfg.lowRateSize) (h : 0 ≤ b.size + i + o)
    (hi : (cfg.subBlockSize : ℤ) ∣ i) (ho : (cfg.subBlockSize : ℤ) ∣ o) :
    (cfg.subBlockSize : ℤ) ∣ b.offsetIndex i o := by
  rw [offsetIndex_eq_emod h, hb]
  exact (EuclideanDomain.dvd_mod_iff cfg.subBlockSize_dvd).mpr (dvd_add hi ho)

section
variable (h : s.rings.LockStep cfg)
include h

theorem incrementWriteIndices_spec : (s.incrementWriteIndices cfg).rings.LockStep cfg ∧
      (s.incrementWriteIndices cfg).rings.totalDelay = (s.rings.totalDelay + 1) % cfg.ringSize ∧
      (s.incrementWriteIndices cfg).bufferLatency cfg =
        (s.bufferLatency cfg + 1) % cfg.maxDelay := by
  have hsub := cfg.subBlockSize_lt
  have hls : s.lowRate.size = cfg.lowRateSize := h.lowRate_size
  have hlw : 0 ≤ s.lowRate.write := h.lowRate_inside.1.1
  have hlow : 0 ≤ s.lowRate.size + s.lowRate.write + -(cfg.subBlockSize : ℤ) := by omega
  have hD : (s.incrementWriteIndices cfg).rings.totalDelay =
      (s.rings.totalDelay + 1) % cfg.ringSize :=
    h.blocks_size ▸ ahead_incWriteIndex h.blocks_inside
  have hl : (s.incrementWriteIndices cfg).rings.LockStep cfg :=
    { blocks_size := h.blocks_size
      spectra_size := h.spectra_size
      ffts_size := h.ffts_size
      lowRate_size := h.lowRate_size
      blocks_inside := incWriteIndex_inside h.blocks_inside
      spectra_inside := decWriteIndex_inside h.spectra_inside
      ffts_inside := decWriteIndex_inside h.ffts_inside
      lowRate_inside := updateWriteIndex_inside h.lowRate_inside hlow
      lowRate_write_dvd :=
        subBlock_dvd_offsetIndex hls hlow h.lowRate_write_dvd (dvd_neg.mpr dvd_rfl)
      lowRate_read_dvd := h.lowRate_read_dvd
      spectra_lock := by
        rw [hD, ← h.spectra_lock, ← h.spectra_size]
        exact behind_decWriteIndex h.spectra_inside
      ffts_lock := by
        rw [hD, ← h.ffts_lock, ← h.ffts_size]
        exact behind_decWriteIndex h.ffts_inside }
  refine ⟨hl, hD, latency_of_behind hl ?_⟩
  have hb := behind_updateWriteIndex hlow
  rw [sub_neg_eq_add, lowRate_behind h, hls] at hb
  rw [← subBlock_emod, mul_one]
  exact hb

theorem incrementReadIndices_spec : s.incrementReadIndices.rings.LockStep cfg ∧
      s.incrementReadIndices.rings.totalDelay = max (s.rings.totalDelay - 1) 0 ∧
      s.incrementReadIndices.bufferLatency cfg = s.bufferLatency cfg := by
  obtain ⟨hd0, hdn⟩ := totalDelay_bounds h
  unfold incrementReadIndices
  split_ifs with hne
  · rw [Ne, blocks_read_eq_write_iff h] at hne
    have hmod : (s.rings.totalDelay - 1) % cfg.ringSize = s.rings.totalDelay - 1 :=
      Int.emod_eq_of_lt (by omega) (by omega)
    have hD : s.blocks.incReadIndex.ahead = s.rings.totalDelay - 1 := by
      have hb := ahead_incReadIndex h.blocks_inside
      rw [h.blocks_size] at hb
      exact hb.trans hmod
    refine ⟨?_, by rw [max_eq_left (by omega)]; exact hD, rfl⟩
    exact
      { h with
        blocks_inside := incReadIndex_inside h.blocks_inside
        spectra_inside := decReadIndex_inside h.spectra_inside
        ffts_inside := decReadIndex_inside h.ffts_inside
        spectra_lock := by
          have hb := behind_decReadIndex h.spectra_inside
          rw [h.spectra_size, h.spectra_lock, hmod] at hb
          exact hb.trans hD.symm
        ffts_lock := by
          have hb := behind_decReadIndex h.ffts_inside
          rw [h.ffts_size, h.ffts_lock, hmod] at hb
          exact hb.trans hD.symm }
  · rw [Ne, blocks_read_eq_write_iff h, not_not] at hne
    exact ⟨h, by rw [hne]; rfl, rfl⟩

theorem incrementLowRateReadIndices_spec : (s.incrementLowRateReadIndices cfg).rings.LockStep cfg ∧
      (s.incrementLowRateReadIndices cfg).rings.totalDelay = s.rings.totalDelay ∧
      (s.incrementLowRateReadIndices cfg).bufferLatency cfg =
        (s.bufferLatency cfg - 1) % cfg.maxDelay := by
  have hsub := cfg.subBlockSize_lt
  have hls : s.lowRate.size = cfg.lowRateSize := h.lowRate_size
  have hlr : 0 ≤ s.lowRate.read := h.lowRate_inside.2.1
  have hlow : 0 ≤ s.lowRate.size + s.lowRate.read + -(cfg.subBlockSize : ℤ) := by omega
  have hl : (s.incrementLowRateReadIndices cfg).rings.LockStep cfg :=
    { h with
      lowRate_inside := updateReadIndex_inside h.lowRate_inside hlow
      lowRate_read_dvd :=
        subBlock_dvd_offsetIndex hls hlow h.lowRate_read_dvd (dvd_neg.mpr dvd_rfl) }
  refine ⟨hl, rfl, latency_of_behind hl ?_⟩
  have hb := behind_updateReadIndex hlow
  rw [lowRate_behind h, hls] at hb
  rw [sub_eq_add_neg, ← subBlock_emod, mul_neg_one]
  exact hb

theorem applyTotalDelay_spec {d : ℕ} (hd : d ≤ cfg.maxDelay) :
    (s.applyTotalDelay (toInt32 d)).rings.LockStep cfg ∧
      (s.applyTotalDelay (toInt32 d)).rings.totalDelay = d ∧
      (s.applyTotalDelay (toInt32 d)).bufferLatency cfg = s.bufferLatency cfg := by
  have hlt := cfg.maxDelay_lt_ringSize
  have hfit := cfg.ringSize_lt
  rw [toInt32_eq_self (by omega)]
  have hmod : (d : ℤ) % cfg.ringSize = d := Int.emod_eq_of_lt (by omega) (by omega)
  have hb : 0 ≤ s.rings.blocks.size + s.rings.blocks.write + -(d : ℤ) := by
    have := h.blocks_inside.1.1
    have := h.blocks_size
    omega
  have hs := offset_nonneg h.spectra_inside d
  have hf := offset_nonneg h.ffts_inside d
  have hD : (s.applyTotalDelay d).rings.totalDelay = d := by
    have := ahead_readFromWrite hb
    rw [neg_neg, h.blocks_size, hmod] at this
    exact this
  refine ⟨?_, hD, rfl⟩
  exact
    { h with
      blocks_inside := readFromWrite_inside h.blocks_inside.1 hb
      spectra_inside := readFromWrite_inside h.spectra_inside.1 hs
      ffts_inside := readFromWrite_inside h.ffts_inside.1 hf
      spectra_lock := by
        have := behind_readFromWrite hs
        rw [h.spectra_size, hmod] at this
        exact this.trans hD.symm
      ffts_lock := by
        have := behind_readFromWrite hf
        rw [h.ffts_size, hmod] at this
        exact this.trans hD.symm }

end

theorem reset_lockStep (h : s.rings.LockStep cfg) (hd : cfg.defaultDelay ≤ cfg.maxDelay) :
    (s.reset cfg).rings.LockStep cfg := by
  have hlow := offset_nonneg h.lowRate_inside cfg.subBlockSize
  -- The low-rate read index is placed first; it does not depend on the applied delay.
  have hl : Rings.LockStep cfg ⟨s.blocks, s.spectra, s.ffts,
      s.lowRate.readFromWrite cfg.subBlockSize⟩ :=
    { h with
      lowRate_inside := readFromWrite_inside h.lowRate_inside.1 hlow
      lowRate_read_dvd :=
        subBlock_dvd_offsetIndex h.lowRate_size hlow h.lowRate_write_dvd dvd_rfl }
  unfold reset
  dsimp only
  split
  · exact (applyTotalDelay_spec hl (min_le_right _ _)).1
  · exact (applyTotalDelay_spec hl hd).1

theorem create_lockStep (hd : cfg.defaultDelay ≤ cfg.maxDelay) :
    (create cfg).rings.LockStep cfg := by
  have hr := cfg.ringSize_lt
  have hl := cfg.lowRateSize_lt
  have hrp := cfg.ringSize_pos
  have hlp := cfg.lowRateSize_pos
  unfold create
  rw [toInt32_eq_self (x := cfg.ringSize) (by omega),
    toInt32_eq_self (x := cfg.lowRateSize) (by omega)]
  apply reset_lockStep _ hd
  exact
    { blocks_size := rfl
      spectra_size := rfl
      ffts_size := rfl
      lowRate_size := rfl
      blocks_inside := ⟨⟨le_rfl, hrp⟩, le_rfl, hrp⟩
      spectra_inside := ⟨⟨le_rfl, hrp⟩, le_rfl, hrp⟩
      ffts_inside := ⟨⟨le_rfl, hrp⟩, le_rfl, hrp⟩
      lowRate_inside := ⟨⟨le_rfl, hlp⟩, le_rfl, hlp⟩
      lowRate_write_dvd := dvd_zero _
      lowRate_read_dvd := dvd_zero _
      spectra_lock := rfl
      ffts_lock := rfl }

theorem insert_cases (cfg : RenderDelayConfig) (s : RenderDelayBuffer) (activeRender : Bool) :
    ∃ t : RenderDelayBuffer, t.rings = (s.incrementWriteIndices cfg).rings ∧ t.delay = s.delay ∧
      ((t.renderOverrun = true ∧ s.insert cfg activeRender = (t.reset cfg, .kRenderOverrun)) ∨
        (t.renderOverrun = false ∧ s.insert cfg activeRender = (t, .kNone))) := by
  let s₁ := ({ s with renderCallCounter := s.renderCallCounter + 1 }.observeApiCall true)
  obtain ⟨h₁, hd₁⟩ := observeApiCall_keeps
    { s with renderCallCounter := s.renderCallCounter + 1 } true
  let s₂ := s₁.incrementWriteIndices cfg
  have h₂ : s₂.rings = (s.incrementWriteIndices cfg).rings := by
    simp only [rings, Rings.mk.injEq] at h₁
    simp only [s₂, s₁, rings, incrementWriteIndices, h₁]
  let t := s₂.detectRenderActivity activeRender
  obtain ⟨ht, hd₂⟩ := detectRenderActivity_keeps s₂ activeRender
  have hov : t.renderOverrun = s₂.renderOverrun := by
    simp only [rings, Rings.mk.injEq] at ht
    simp only [t, renderOverrun, ht]
  have hunfold : s.insert cfg activeRender =
      (if (if s₂.renderOverrun then BufferingEvent.kRenderOverrun else .kNone) ≠ .kNone
        then t.reset cfg else t, if s₂.renderOverrun then .kRenderOverrun else .kNone) := rfl
  refine ⟨t, ht.trans h₂, hd₂.trans hd₁, ?_⟩
  rw [hunfold, hov]
  cases s₂.renderOverrun with
  | true => exact Or.inl ⟨rfl, rfl⟩
  | false => exact Or.inr ⟨rfl, rfl⟩

theorem insert_lockStep (h : s.rings.LockStep cfg) (hd : cfg.defaultDelay ≤ cfg.maxDelay)
    (activeRender : Bool) : (s.insert cfg activeRender).1.rings.LockStep cfg := by
  obtain ⟨t, ht, -, ⟨-, hi⟩ | ⟨-, hi⟩⟩ := insert_cases cfg s activeRender
  · rw [hi]
    exact reset_lockStep (ht ▸ (incrementWriteIndices_spec h).1) hd
  · rw [hi]
    exact ht ▸ (incrementWriteIndices_spec h).1

/-- What `PrepareCaptureProcessing` does: reset on excess render, move only the full-rate
read indices on an underrun, and otherwise move all read indices. -/
theorem prepareCaptureProcessing_cases (cfg : RenderDelayConfig) (s : RenderDelayBuffer) :
    ∃ t : RenderDelayBuffer, t.rings = s.rings ∧ t.delay = s.delay ∧
      (s.prepareCaptureProcessing cfg = ((t.reset cfg).reportRenderActivity, .kRenderOverrun) ∨
        (t.renderUnderrun = true ∧ s.prepareCaptureProcessing cfg = ({ t.incrementReadIndices with
              delay := t.incrementReadIndices.delay.map (· - 1) }.reportRenderActivity,
            .kRenderUnderrun)) ∨
        (t.renderUnderrun = false ∧ s.prepareCaptureProcessing cfg =
          ((t.incrementLowRateReadIndices cfg).incrementReadIndices.reportRenderActivity,
            .kNone))) := by
  let s₁ := ({ s with captureCallCounter := s.captureCallCounter + 1 }.observeApiCall false)
  let p := s₁.detectExcessRenderBlocks cfg
  obtain ⟨h₁, hd₁⟩ := observeApiCall_keeps
    { s with captureCallCounter := s.captureCallCounter + 1 } false
  obtain ⟨hp, hdelay⟩ := detectExcessRenderBlocks_keeps cfg s₁
  refine ⟨p.1, hp.trans h₁, hdelay.trans hd₁, ?_⟩
  have hunfold : s.prepareCaptureProcessing cfg =
      if p.2 then ((p.1.reset cfg).reportRenderActivity, .kRenderOverrun)
      else if p.1.renderUnderrun then
        ({ p.1.incrementReadIndices with
            delay := p.1.incrementReadIndices.delay.map (· - 1) }.reportRenderActivity,
          .kRenderUnderrun)
      else ((p.1.incrementLowRateReadIndices cfg).incrementReadIndices.reportRenderActivity,
        .kNone) := rfl
  rw [hunfold]
  cases p.2 with
  | true => exact Or.inl rfl
  | false =>
    cases p.1.renderUnderrun with
    | true => exact Or.inr (Or.inl ⟨rfl, rfl⟩)
    | false => exact Or.inr (Or.inr ⟨rfl, rfl⟩)

theorem prepareCaptureProcessing_lockStep (h : s.rings.LockStep cfg)
    (hd : cfg.defaultDelay ≤ cfg.maxDelay) :
    (s.prepareCaptureProcessing cfg).1.rings.LockStep cfg := by
  obtain ⟨t, ht, -, hi | ⟨-, hi⟩ | ⟨-, hi⟩⟩ := prepareCaptureProcessing_cases cfg s <;>
    have h' := ht ▸ h <;> rw [hi, rings_reportRenderActivity]
  · exact reset_lockStep h' hd
  · exact (incrementReadIndices_spec h').1
  · exact (incrementReadIndices_spec (incrementLowRateReadIndices_spec h').1).1

theorem alignFromDelay_lockStep (h : s.rings.LockStep cfg) (delay : ℕ) :
    (s.alignFromDelay cfg delay).1.rings.LockStep cfg := by
  unfold alignFromDelay
  dsimp only
  split_ifs
  all_goals first
    | exact h
    | exact (applyTotalDelay_spec h (min_le_left _ _)).1

/-- Calls made when the buffer aligns itself: the external alignment is excluded, and the
arguments are the ones the callers can pass. -/
def Call.Internal : Call → Prop
  | .alignFromDelay delay => delay < 2 ^ 30
  | .alignFromExternalDelay => False
  | .setAudioBufferDelay delayMs => 0 ≤ delayMs ∧ delayMs ≤ 500
  | _ => True

instance : DecidablePred Call.Internal
  | .insert _ => .isTrue trivial
  | .prepareCaptureProcessing => .isTrue trivial
  | .alignFromDelay delay => inferInstanceAs (Decidable (delay < 2 ^ 30))
  | .alignFromExternalDelay => .isFalse not_false
  | .setAudioBufferDelay delayMs => inferInstanceAs (Decidable (0 ≤ delayMs ∧ delayMs ≤ 500))
  | .reset => .isTrue trivial

theorem step_lockStep (hd : cfg.defaultDelay ≤ cfg.maxDelay) (s : RenderDelayBuffer) (c : Call)
    (h : s.rings.LockStep cfg) (hc : c.Internal) : (step cfg s c).1.rings.LockStep cfg := by
  cases c with
  | insert activeRender => exact insert_lockStep h hd activeRender
  | prepareCaptureProcessing => exact prepareCaptureProcessing_lockStep h hd
  | alignFromDelay delay => exact alignFromDelay_lockStep h delay
  | alignFromExternalDelay => exact hc.elim
  | setAudioBufferDelay delayMs => exact h
  | reset => exact reset_lockStep h hd

theorem after_lockStep (hd : cfg.defaultDelay ≤ cfg.maxDelay) {calls : List Call}
    (hc : ∀ c ∈ calls, c.Internal) : (after cfg calls).rings.LockStep cfg :=
  runState_invariant (step cfg) (step_lockStep hd) (create_lockStep hd) hc

/-- In every reachable state all read and write indices lie inside their buffers and the
three full-rate rings are at the same distance. -/
theorem indices_inside_and_locked (cfg : RenderDelayConfig)
    (hd : cfg.defaultDelay ≤ cfg.maxDelay) (calls : List Call) (hc : ∀ c ∈ calls, c.Internal) :
    let s := after cfg calls
    let n : ℤ := cfg.ringSize
    (s.blocks.size = n ∧ s.spectra.size = n ∧ s.ffts.size = n ∧
        s.lowRate.size = cfg.lowRateSize) ∧
      (s.blocks.Inside ∧ s.spectra.Inside ∧ s.ffts.Inside ∧ s.lowRate.Inside) ∧
      (s.blocks.write - s.blocks.read) % n = (s.spectra.read - s.spectra.write) % n ∧
      (s.spectra.read - s.spectra.write) % n = (s.ffts.read - s.ffts.write) % n := by
  intro s n
  have h : s.rings.LockStep cfg := after_lockStep hd hc
  have hs : (s.spectra.read - s.spectra.write) % n = s.rings.totalDelay := by
    rw [← h.spectra_lock]
    exact congrArg _ h.spectra_size.symm
  have hf : (s.ffts.read - s.ffts.write) % n = s.rings.totalDelay := by
    rw [← h.ffts_lock]
    exact congrArg _ h.ffts_size.symm
  have hb : (s.blocks.write - s.blocks.read) % n = s.rings.totalDelay :=
    congrArg _ h.blocks_size.symm
  exact ⟨⟨h.blocks_size, h.spectra_size, h.ffts_size, h.lowRate_size⟩,
    ⟨h.blocks_inside, h.spectra_inside, h.ffts_inside, h.lowRate_inside⟩,
    hb.trans hs.symm, hs.trans hf.symm⟩

theorem indices_inside_and_locked_default :
    let calls : List Call := [.insert true, .setAudioBufferDelay 100, .prepareCaptureProcessing,
      .alignFromDelay 7, .prepareCaptureProcessing, .reset, .alignFromDelay 1000]
    let s := after defaultRenderDelayConfig calls
    s.blocks.Inside ∧ s.spectra.Inside ∧ s.ffts.Inside ∧ s.lowRate.Inside :=
  (indices_inside_and_locked defaultRenderDelayConfig (by decide)
    [.insert true, .setAudioBufferDelay 100, .prepareCaptureProcessing,
      .alignFromDelay 7, .prepareCaptureProcessing, .reset, .alignFromDelay 1000]
    (by decide)).2.1

end RenderDelayBuffer
end WebRtcAudio.Aec3
