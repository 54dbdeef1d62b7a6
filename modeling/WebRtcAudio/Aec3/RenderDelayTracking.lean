import WebRtcAudio.Aec3.RenderDelayInvariant

/-! The delay set by `AlignFromDelay` under call jitter. -/
namespace WebRtcAudio.Aec3
open WebRtcAudio.Core

namespace RenderDelayBuffer
variable {cfg : RenderDelayConfig} {s : RenderDelayBuffer} {d : ℕ}

/-- The distance of the rings is the buffer latency and the stored delay together. -/
structure Tracks (cfg : RenderDelayConfig) (s : RenderDelayBuffer) (d : ℕ) : Prop where
  lock : s.rings.LockStep cfg
  stored : s.delay = some d
  total : s.rings.totalDelay = s.bufferLatency cfg + d

theorem Tracks.computeDelay (h : Tracks cfg s d) : s.computeDelay cfg = d := by
  rw [computeDelay_eq h.lock, h.total]
  ring

theorem Tracks.publicDelay (h : Tracks cfg s d) : s.publicDelay cfg = d := by
  have hb := totalDelay_bounds h.lock
  have hl := bufferLatency_bounds h.lock
  have ht := h.total
  have hn := cfg.ringSize_lt
  unfold RenderDelayBuffer.publicDelay
  rw [h.computeDelay, toSizeT_natCast (by omega)]

theorem alignFromDelay_tracks (h : s.rings.LockStep cfg) (hc : (s.alignFromDelay cfg d).2 = true)
    (hf : s.bufferLatency cfg + d ≤ cfg.maxDelay) : Tracks cfg (s.alignFromDelay cfg d).1 d := by
  have hl := (bufferLatency_bounds h).1
  have hn := cfg.ringSize_lt
  have hm := cfg.maxDelay_lt_ringSize
  have htotal : min cfg.maxDelay (toSizeT (max (s.bufferLatency cfg + toInt32 d) 0)) =
      (s.bufferLatency cfg).toNat + d := by
    rw [toInt32_eq_self (by omega), max_eq_left (by omega)]
    have := toSizeT_cast (x := s.bufferLatency cfg + d) (by omega) (by omega)
    omega
  -- Whether the reported delay is checked first has no effect on the rings.
  have key : ∀ t : RenderDelayBuffer, t.rings = s.rings → t.delay = some d →
      Tracks cfg (t.applyTotalDelay (toInt32
        (min cfg.maxDelay (toSizeT (max (s.bufferLatency cfg + toInt32 d) 0)) : ℕ))) d := by
    intro t ht hd
    obtain ⟨hlock, hdist, hlatency⟩ := applyTotalDelay_spec (ht ▸ h : t.rings.LockStep cfg)
      (min_le_left cfg.maxDelay (toSizeT (max (s.bufferLatency cfg + toInt32 d) 0)))
    refine ⟨hlock, hd, ?_⟩
    rw [hdist, hlatency, bufferLatency_congr cfg ht, htotal]
    omega
  unfold alignFromDelay at hc ⊢
  dsimp only at hc ⊢
  split_ifs at hc ⊢
  · exact key _ rfl rfl
  · exact key _ rfl rfl

theorem insert_tracks (h : Tracks cfg s d) (activeRender : Bool)
    (he : (s.insert cfg activeRender).2 ≠ .kRenderOverrun) :
    Tracks cfg (s.insert cfg activeRender).1 d := by
  obtain ⟨hlock, htotal, hlatency⟩ := incrementWriteIndices_spec h.lock
  obtain ⟨t, ht, hdelay, ⟨-, hi⟩ | ⟨hov, hi⟩⟩ := insert_cases cfg s activeRender
  · exact absurd (by rw [hi]) he
  rw [hi]
  have htl := ht ▸ hlock
  rw [← ht] at htotal
  rw [← bufferLatency_congr cfg ht] at hlatency
  -- Neither distance wraps, since a distance that wraps to zero is an overrun.
  have hno := mt (renderOverrun_iff htl).mpr (by rw [hov]; decide)
  rw [not_or] at hno
  obtain ⟨hlb0, hlb⟩ := bufferLatency_bounds h.lock
  obtain ⟨htb0, htb⟩ := totalDelay_bounds h.lock
  have hl1 : t.bufferLatency cfg = s.bufferLatency cfg + 1 := by
    rcases (show s.bufferLatency cfg + 1 ≤ cfg.maxDelay by omega).lt_or_eq with hlt | heq
    · rw [hlatency, Int.emod_eq_of_lt (by omega) hlt]
    · exact absurd (by rw [hlatency, heq, Int.emod_self]) hno.1
  have hd1 : t.rings.totalDelay = s.rings.totalDelay + 1 := by
    rcases (show s.rings.totalDelay + 1 ≤ cfg.ringSize by omega).lt_or_eq with hlt | heq
    · rw [htotal, Int.emod_eq_of_lt (by omega) hlt]
    · exact absurd (by rw [htotal, heq, Int.emod_self]) hno.2
  refine ⟨htl, hdelay.trans h.stored, ?_⟩
  have := h.total
  change t.rings.totalDelay = t.bufferLatency cfg + d
  omega

theorem prepareCaptureProcessing_tracks (h : Tracks cfg s d)
    (he : (s.prepareCaptureProcessing cfg).2 ≠ .kRenderOverrun) :
    Tracks cfg (s.prepareCaptureProcessing cfg).1
      (if (s.prepareCaptureProcessing cfg).2 = .kRenderUnderrun then d - 1 else d) := by
  obtain ⟨hlb0, hlb⟩ := bufferLatency_bounds h.lock
  obtain ⟨htb0, htb⟩ := totalDelay_bounds h.lock
  have htotal := h.total
  obtain ⟨t, ht, hd, hi | ⟨hun, hi⟩ | ⟨hun, hi⟩⟩ := prepareCaptureProcessing_cases cfg s
  · exact absurd (by rw [hi]) he
  · -- Underrun: the latency is zero, so the full-rate distance is the stored delay.
    have htl := ht ▸ h.lock
    have hl0 : t.bufferLatency cfg = 0 := (renderUnderrun_iff htl).mp hun
    obtain ⟨hlock, hread, hlatency⟩ := incrementReadIndices_spec htl
    rw [hi, if_pos rfl]
    refine ⟨by rw [rings_reportRenderActivity]; exact hlock, ?_, ?_⟩
    · rw [delay_reportRenderActivity]
      have hdt : t.incrementReadIndices.delay = some d := by
        unfold incrementReadIndices
        split_ifs <;> exact hd.trans h.stored
      simp only [hdt, Option.map_some]
    · rw [rings_reportRenderActivity, bufferLatency_congr cfg (rings_reportRenderActivity _)]
      rw [← bufferLatency_congr cfg ht] at htotal
      rw [← ht] at htotal
      change t.incrementReadIndices.rings.totalDelay = t.incrementReadIndices.bufferLatency cfg + _
      omega
  · have htl := ht ▸ h.lock
    have hl0 := mt (renderUnderrun_iff htl).mpr (by rw [hun]; decide)
    obtain ⟨hlock₁, htotal₁, hlatency₁⟩ := incrementLowRateReadIndices_spec htl
    obtain ⟨hlock₂, htotal₂, hlatency₂⟩ := incrementReadIndices_spec hlock₁
    rw [hi, if_neg BufferingEvent.noConfusion]
    refine ⟨by rw [rings_reportRenderActivity]; exact hlock₂, ?_, ?_⟩
    · rw [delay_reportRenderActivity]
      unfold incrementReadIndices
      split_ifs <;> exact hd.trans h.stored
    · rw [rings_reportRenderActivity, bufferLatency_congr cfg (rings_reportRenderActivity _),
        htotal₂, hlatency₂, htotal₁, hlatency₁]
      rw [← bufferLatency_congr cfg ht] at htotal hlb0 hlb
      rw [← ht] at htotal
      rw [Int.emod_eq_of_lt (by omega) (by omega)]
      omega

def Call.Streaming : Call → Prop
  | .insert _ => True
  | .prepareCaptureProcessing => True
  | _ => False

instance : DecidablePred Call.Streaming
  | .insert _ => .isTrue trivial
  | .prepareCaptureProcessing => .isTrue trivial
  | .alignFromDelay _ => .isFalse not_false
  | .alignFromExternalDelay => .isFalse not_false
  | .setAudioBufferDelay _ => .isFalse not_false
  | .reset => .isFalse not_false

def underruns (results : List Result) : ℕ := results.count (.event .kRenderUnderrun)

theorem run_tracks (h : Tracks cfg s d) {calls : List Call} (hc : ∀ c ∈ calls, c.Streaming)
    (hno : Result.event .kRenderOverrun ∉ runResults (step cfg) s calls) :
    Tracks cfg (runState (step cfg) s calls) (d - underruns (runResults (step cfg) s calls)) := by
  induction calls generalizing s d with
  | nil => exact h
  | cons c calls ih =>
    rw [runResults_cons, List.mem_cons, not_or] at hno
    obtain ⟨hne, hno⟩ := hno
    have hcs : ∀ c ∈ calls, c.Streaming := fun c' hc' => hc c' (List.mem_cons_of_mem _ hc')
    rw [runState_cons, runResults_cons, underruns, List.count_cons]
    cases c with
    | insert activeRender =>
      have he : (s.insert cfg activeRender).2 ≠ .kRenderOverrun := fun he =>
        hne (congrArg Result.event he).symm
      have hu : (step cfg s (.insert activeRender)).2 ≠ .event .kRenderUnderrun := by
        obtain ⟨t, -, -, ⟨-, hi⟩ | ⟨-, hi⟩⟩ := insert_cases cfg s activeRender <;>
          simp [step, hi]
      rw [if_neg (by simpa using hu), Nat.add_zero]
      exact ih (insert_tracks h activeRender he) hcs hno
    | prepareCaptureProcessing =>
      have he : (s.prepareCaptureProcessing cfg).2 ≠ .kRenderOverrun := fun he =>
        hne (congrArg Result.event he).symm
      have ht := ih (prepareCaptureProcessing_tracks h he) hcs hno
      have hsum : ∀ n : ℕ, (if (s.prepareCaptureProcessing cfg).2 = .kRenderUnderrun
          then d - 1 else d) - n = d - (n +
            if (step cfg s .prepareCaptureProcessing).2 == .event .kRenderUnderrun
            then 1 else 0) := by
        intro n
        have hiff : ((step cfg s .prepareCaptureProcessing).2 ==
            Result.event .kRenderUnderrun) = true ↔
            (s.prepareCaptureProcessing cfg).2 = .kRenderUnderrun := by
          simp [step]
        simp only [hiff]
        split_ifs <;> omega
      rw [← hsum]
      exact ht
    | alignFromDelay delay => exact (hc _ List.mem_cons_self).elim
    | alignFromExternalDelay => exact (hc _ List.mem_cons_self).elim
    | setAudioBufferDelay delayMs => exact (hc _ List.mem_cons_self).elim
    | reset => exact (hc _ List.mem_cons_self).elim

/-- After a feasible alignment to `d`, any interleaving of the two streams without an
overrun keeps `Delay()` at `d` less the number of underruns, in step with the stored delay. -/
theorem delay_after_alignment (cfg : RenderDelayConfig) (hd : cfg.defaultDelay ≤ cfg.maxDelay)
    (calls : List Call) (hc : ∀ c ∈ calls, c.Internal) (d : ℕ)
    (hchanged : ((after cfg calls).alignFromDelay cfg d).2 = true)
    (hfeasible : (after cfg calls).bufferLatency cfg + d ≤ cfg.maxDelay)
    (later : List Call) (hl : ∀ c ∈ later, c.Streaming) (hno : Result.event .kRenderOverrun ∉
      runResults (step cfg) ((after cfg calls).alignFromDelay cfg d).1 later) :
    let s := runState (step cfg) ((after cfg calls).alignFromDelay cfg d).1 later
    let u := underruns (runResults (step cfg) ((after cfg calls).alignFromDelay cfg d).1 later)
    s.publicDelay cfg = d - u ∧ s.delay = some (d - u) ∧ s.computeDelay cfg = (d - u : ℕ) := by
  intro s u
  have h := run_tracks (alignFromDelay_tracks (after_lockStep hd hc) hchanged hfeasible) hl hno
  exact ⟨h.publicDelay, h.stored, h.computeDelay⟩

theorem delay_after_alignment_default :
    let s := ((after defaultRenderDelayConfig [.insert true, .insert true]).alignFromDelay
      defaultRenderDelayConfig 3).1
    let later : List Call := [.prepareCaptureProcessing, .prepareCaptureProcessing,
      .prepareCaptureProcessing, .prepareCaptureProcessing, .insert true]
    let s' := runState (step defaultRenderDelayConfig) s later
    s'.publicDelay defaultRenderDelayConfig = 2 ∧ s'.delay = some 2 := by
  have h := delay_after_alignment defaultRenderDelayConfig (by decide)
    [.insert true, .insert true] (by decide) 3 (by decide +kernel) (by decide +kernel)
    [.prepareCaptureProcessing, .prepareCaptureProcessing, .prepareCaptureProcessing,
      .prepareCaptureProcessing, .insert true] (by decide) (by decide +kernel)
  have hu : underruns (runResults (step defaultRenderDelayConfig)
      ((after defaultRenderDelayConfig [.insert true, .insert true]).alignFromDelay
        defaultRenderDelayConfig 3).1
      [.prepareCaptureProcessing, .prepareCaptureProcessing, .prepareCaptureProcessing,
        .prepareCaptureProcessing, .insert true]) = 1 := by decide +kernel
  rw [hu] at h
  exact ⟨h.1, h.2.1⟩

end RenderDelayBuffer
end WebRtcAudio.Aec3
