import WebRtcAudio.Aec3.RenderDelayInvariant

/-! Alignment from an externally reported delay, which is not limited to `MaxDelay()`. -/
namespace WebRtcAudio.Aec3
open WebRtcAudio.Core

def Rings.writes (r : Rings) : (ℤ × ℤ) × (ℤ × ℤ) × (ℤ × ℤ) :=
  ((r.blocks.size, r.blocks.write), (r.spectra.size, r.spectra.write),
    (r.ffts.size, r.ffts.write))

structure Rings.WritesInside (cfg : RenderDelayConfig) (r : Rings) : Prop where
  blocks_size : r.blocks.size = cfg.ringSize
  spectra_size : r.spectra.size = cfg.ringSize
  ffts_size : r.ffts.size = cfg.ringSize
  blocks_write : InRing r.blocks.size r.blocks.write
  spectra_write : InRing r.spectra.size r.spectra.write
  ffts_write : InRing r.ffts.size r.ffts.write

theorem Rings.WritesInside.congr {cfg : RenderDelayConfig} {q r : Rings}
    (h : r.WritesInside cfg) (he : q.writes = r.writes) : q.WritesInside cfg := by
  simp only [Rings.writes, Prod.mk.injEq] at he
  obtain ⟨⟨hbs, hbw⟩, ⟨hss, hsw⟩, hfs, hfw⟩ := he
  exact
    { blocks_size := hbs.trans h.blocks_size
      spectra_size := hss.trans h.spectra_size
      ffts_size := hfs.trans h.ffts_size
      blocks_write := by rw [hbs, hbw]; exact h.blocks_write
      spectra_write := by rw [hss, hsw]; exact h.spectra_write
      ffts_write := by rw [hfs, hfw]; exact h.ffts_write }

namespace RenderDelayBuffer
variable {cfg : RenderDelayConfig} {s : RenderDelayBuffer}

theorem writes_reset (cfg : RenderDelayConfig) (s : RenderDelayBuffer) :
    (s.reset cfg).rings.writes = s.rings.writes := by
  unfold reset
  dsimp only
  split <;> rfl

theorem writes_incrementReadIndices (s : RenderDelayBuffer) :
    s.incrementReadIndices.rings.writes = s.rings.writes := by
  unfold incrementReadIndices
  split_ifs <;> rfl

theorem applyTotalDelay?_eq_some_iff {d : ℤ} {t : RenderDelayBuffer} :
    s.applyTotalDelay? d = some t ↔ ∃ e, int32? (-d) = some e ∧
      ∃ i, s.blocks.offsetIndex? s.blocks.write e = some i ∧
      ∃ j, s.spectra.offsetIndex? s.spectra.write d = some j ∧
      ∃ k, s.ffts.offsetIndex? s.ffts.write d = some k ∧
        { s with blocks.read := i, spectra.read := j, ffts.read := k } = t := by
  simp only [applyTotalDelay?, Option.bind_eq_bind, Option.bind_eq_some_iff, Option.pure_def,
    Option.some_inj]

theorem writes_alignFromExternalDelay (s : RenderDelayBuffer) :
    s.alignFromExternalDelay.rings.writes = s.rings.writes := by
  unfold alignFromExternalDelay alignFromExternalDelay?
  split
  · cases ha : s.applyTotalDelay? _ with
    | none => rfl
    | some t =>
      obtain ⟨e, -, i, -, j, -, k, -, rfl⟩ := applyTotalDelay?_eq_some_iff.mp ha
      rfl
  · rfl

theorem incrementWriteIndices_writesInside (h : s.rings.WritesInside cfg) :
    (s.incrementWriteIndices cfg).rings.WritesInside cfg :=
  { h with
    blocks_write := IndexedBuffer.incIndex_inRing h.blocks_write
    spectra_write := IndexedBuffer.decIndex_inRing h.spectra_write
    ffts_write := IndexedBuffer.decIndex_inRing h.ffts_write }

def Call.External : Call → Prop
  | .insert _ => True
  | .prepareCaptureProcessing => True
  | .setAudioBufferDelay delayMs => 0 ≤ delayMs ∧ delayMs ≤ 500
  | .alignFromExternalDelay => True
  | _ => False

instance : DecidablePred Call.External
  | .insert _ => .isTrue trivial
  | .prepareCaptureProcessing => .isTrue trivial
  | .setAudioBufferDelay delayMs => inferInstanceAs (Decidable (0 ≤ delayMs ∧ delayMs ≤ 500))
  | .alignFromExternalDelay => .isTrue trivial
  | .alignFromDelay _ => .isFalse not_false
  | .reset => .isFalse not_false

theorem step_writesInside (s : RenderDelayBuffer) (c : Call) (h : s.rings.WritesInside cfg)
    (hc : c.External) : (step cfg s c).1.rings.WritesInside cfg := by
  cases c with
  | insert activeRender =>
    obtain ⟨t, ht, -, ⟨-, hi⟩ | ⟨-, hi⟩⟩ := insert_cases cfg s activeRender <;>
      have hw := ht ▸ incrementWriteIndices_writesInside h <;>
      simp only [step, hi, Prod.map_fst, id_eq]
    · exact hw.congr (writes_reset cfg t)
    · exact hw
  | prepareCaptureProcessing =>
    obtain ⟨t, ht, -, hi | ⟨-, hi⟩ | ⟨-, hi⟩⟩ := prepareCaptureProcessing_cases cfg s <;>
      have hw := ht ▸ h <;>
      simp only [step, hi, Prod.map_fst, id_eq, rings_reportRenderActivity]
    · exact hw.congr (writes_reset cfg t)
    · exact hw.congr (writes_incrementReadIndices t)
    · exact hw.congr (writes_incrementReadIndices (t.incrementLowRateReadIndices cfg))
  | alignFromDelay delay => exact hc.elim
  | alignFromExternalDelay => exact h.congr (writes_alignFromExternalDelay s)
  | setAudioBufferDelay delayMs => exact h
  | reset => exact hc.elim

theorem create_writesInside (cfg : RenderDelayConfig) : (create cfg).rings.WritesInside cfg := by
  have hr := cfg.ringSize_lt
  have hrp := cfg.ringSize_pos
  unfold create
  rw [toInt32_eq_self (x := cfg.ringSize) (by omega)]
  refine Rings.WritesInside.congr ?_ (writes_reset cfg _)
  exact ⟨rfl, rfl, rfl, ⟨le_rfl, hrp⟩, ⟨le_rfl, hrp⟩, ⟨le_rfl, hrp⟩⟩

theorem after_writesInside {calls : List Call} (hc : ∀ c ∈ calls, c.External) :
    (after cfg calls).rings.WritesInside cfg :=
  runState_invariant (step cfg) step_writesInside (create_writesInside cfg) hc

def ReadsInside (cfg : RenderDelayConfig) (s : RenderDelayBuffer) : Prop :=
  InRing cfg.ringSize s.blocks.read ∧ InRing cfg.ringSize s.spectra.read ∧
    InRing cfg.ringSize s.ffts.read

instance (cfg : RenderDelayConfig) (s : RenderDelayBuffer) : Decidable (ReadsInside cfg s) :=
  inferInstanceAs (Decidable (_ ∧ _ ∧ _))

/-- The sum that is taken modulo `n` fits in an `int`, and its remainder is not negative. -/
def WrapsOnce (n x : ℤ) : Prop :=
  (-2 ^ 31 ≤ n + x ∧ n + x < 2 ^ 31) ∧ (0 ≤ n + x ∨ n ∣ x)

/-- The counters are close enough for the index arithmetic. Without a reported delay the
call does nothing. -/
def ExternallyAlignable (cfg : RenderDelayConfig) (s : RenderDelayBuffer) : Prop :=
  match s.externalAudioBufferDelay with
  | none => ReadsInside cfg s
  | some externalDelay =>
    WrapsOnce cfg.ringSize (s.blocks.write - s.externalTotalDelay externalDelay) ∧
      WrapsOnce cfg.ringSize (s.spectra.write + s.externalTotalDelay externalDelay) ∧
      WrapsOnce cfg.ringSize (s.ffts.write + s.externalTotalDelay externalDelay)

/-- `AlignFromExternalDelay` is defined and leaves the read indices inside. -/
def AlignsInside (cfg : RenderDelayConfig) (s : RenderDelayBuffer) : Prop :=
  ∃ t ∈ s.alignFromExternalDelay?, ReadsInside cfg t

instance (cfg : RenderDelayConfig) (s : RenderDelayBuffer) : Decidable (AlignsInside cfg s) :=
  inferInstanceAs (Decidable (∃ t ∈ _, _))

private theorem offsetIndex?_inRing_iff {b : IndexedBuffer} {o : ℤ} (hb : b.size = cfg.ringSize)
    (hw : InRing b.size b.write) :
    (∃ i ∈ b.offsetIndex? b.write o, InRing cfg.ringSize i) ↔
      WrapsOnce cfg.ringSize (b.write + o) := by
  have hlt := cfg.ringSize_lt
  have hpos := cfg.ringSize_pos
  obtain ⟨h0, hn⟩ := hw
  have habs : (b.size.natAbs : ℤ) ≤ cfg.ringSize := by omega
  have hiff := IndexedBuffer.offsetIndex?_inside_iff (o := o) habs
    (show -2 ^ 31 ≤ b.size + b.write ∧ b.size + b.write < 2 ^ 31 by omega)
  rw [add_assoc, hb] at hiff
  exact hiff.trans (and_iff_right (by omega))

theorem alignsInside_iff (h : s.rings.WritesInside cfg) :
    AlignsInside cfg s ↔ ExternallyAlignable cfg s := by
  unfold AlignsInside alignFromExternalDelay? ExternallyAlignable
  cases s.externalAudioBufferDelay with
  | none => simp
  | some externalDelay =>
    dsimp only
    have hd : s.externalTotalDelay externalDelay < (2 ^ 32 + 1) / 2 := Int.bmod_lt (by decide)
    generalize s.externalTotalDelay externalDelay = d at hd
    have hblocks := offsetIndex?_inRing_iff (o := -d) h.blocks_size h.blocks_write
    have hspectra := offsetIndex?_inRing_iff (o := d) h.spectra_size h.spectra_write
    have hffts := offsetIndex?_inRing_iff (o := d) h.ffts_size h.ffts_write
    constructor
    · rintro ⟨t, ht, hb, hs, hf⟩
      obtain ⟨e, he, i, hi, j, hj, k, hk, rfl⟩ := applyTotalDelay?_eq_some_iff.mp ht
      obtain ⟨-, he⟩ := Option.ite_none_right_eq_some.mp he
      cases he
      exact ⟨hblocks.mp ⟨i, hi, hb⟩, hspectra.mp ⟨j, hj, hs⟩, hffts.mp ⟨k, hk, hf⟩⟩
    · rintro ⟨hb, hs, hf⟩
      -- The sum with the write index fits, so the negated delay fits as well.
      have hneg : int32? (-d) = some (-d) := by
        have hlow : 0 ≤ s.blocks.write := h.blocks_write.1
        have hpos := cfg.ringSize_pos
        have hfits := hb.1.2
        exact int32?_eq_some (by omega)
      obtain ⟨i, hi, hb⟩ := hblocks.mpr hb
      obtain ⟨j, hj, hs⟩ := hspectra.mpr hs
      obtain ⟨k, hk, hf⟩ := hffts.mpr hf
      exact ⟨_, applyTotalDelay?_eq_some_iff.mpr ⟨_, hneg, i, hi, j, hj, k, hk, rfl⟩, hb, hs, hf⟩

/-- In every run, the alignments leave the read indices inside the rings exactly when the
call counters are close enough at each of them. -/
theorem external_alignment_inside_iff (cfg : RenderDelayConfig) (calls : List Call)
    (hc : ∀ c ∈ calls, c.External) : (∀ pre post, calls = pre ++ .alignFromExternalDelay :: post →
        AlignsInside cfg (after cfg pre)) ↔
      ∀ pre post, calls = pre ++ .alignFromExternalDelay :: post →
        ExternallyAlignable cfg (after cfg pre) := by
  refine forall_congr' fun pre => forall_congr' fun post => forall_congr' fun hs => ?_
  have hpre : ∀ c ∈ pre, c.External := fun c hcp =>
    hc c (hs ▸ List.mem_append_left _ hcp)
  exact alignsInside_iff (after_writesInside hpre)

theorem external_alignment_inside_balanced :
    ExternallyAlignable defaultRenderDelayConfig (after defaultRenderDelayConfig
      [.setAudioBufferDelay 40, .insert true, .prepareCaptureProcessing]) := by
  refine (external_alignment_inside_iff defaultRenderDelayConfig
    [.setAudioBufferDelay 40, .insert true, .prepareCaptureProcessing, .alignFromExternalDelay]
    (by decide)).mp ?_ _ [] rfl
  intro pre post h
  have hpre : pre = [.setAudioBufferDelay 40, .insert true, .prepareCaptureProcessing] := by
    rcases pre with _ | ⟨a, _ | ⟨b, _ | ⟨c, _ | ⟨e, pre⟩⟩⟩⟩ <;> simp at h
    obtain ⟨rfl, rfl, rfl, -⟩ := h
    rfl
  rw [hpre]
  decide +kernel

def stalledRenderCalls : List Call :=
  [.setAudioBufferDelay 0, .insert true] ++ List.replicate 335 .prepareCaptureProcessing

theorem external_alignment_escapes :
    ¬ ∀ cfg : RenderDelayConfig, cfg.useExternalDelayEstimator = true →
      ∀ calls : List Call, (∀ c ∈ calls, c.External) →
        AlignsInside cfg (after cfg calls) := by
  intro h
  exact absurd (h { defaultRenderDelayConfig with useExternalDelayEstimator := true } rfl
    stalledRenderCalls (by decide +kernel)) (by decide +kernel)

end RenderDelayBuffer
end WebRtcAudio.Aec3
