import WebRtcAudio.NetEq.DelayManager

/-! The effective minimum delay as a stored value that a new packet length does not update. -/
namespace WebRtcAudio.NetEq.DelayManagerState

open WebRtcAudio.Core Option

/-- The effective minimum delay is the one that the current settings give, and the minimum delay is
not above the bound. -/
def Current (m : DelayManagerState) : Prop :=
  ∃ bound ∈ m.upperBound?,
    m.effectiveMinimumDelayMs = max m.minimumDelayMs (max 0 (min m.baseMinimumDelayMs bound)) ∧
      m.minimumDelayMs ≤ bound

def Unaffected (m : DelayManagerState) (bound? : Option ℤ) : Prop :=
  ∃ old ∈ m.upperBound?, ∃ bound ∈ bound?, m.minimumDelayMs ≤ bound ∧
    (bound = old ∨ m.baseMinimumDelayMs ≤ max m.minimumDelayMs (min old bound))

/-- The condition on a call: the new packet length, or that there is none any more, does not change
what the set delays mean, and the maximum delay is only unset when the minimum delay is not above
the largest one that is allowed then. -/
def KeepsBound (m : DelayManagerState) (c : TickTimer × DelayManagerCall) : Prop :=
  match c.2 with
  | .setPacketAudioLength lengthMs =>
    0 < lengthMs →
      m.Unaffected (minimumDelayUpperBound? m.maxPacketsInBuffer lengthMs m.maximumDelayMs)
  | .reset => m.Unaffected (minimumDelayUpperBound? m.maxPacketsInBuffer 0 m.maximumDelayMs)
  | .setMaximumDelay delayMs => delayMs = 0 → m.minimumDelayMs ≤ kMaxBaseMinimumDelayMs
  | _ => True

def limits (m : DelayManagerState) : ℕ × ℤ × ℤ × ℤ × ℤ × ℤ :=
  (m.maxPacketsInBuffer, m.packetLenMs, m.baseMinimumDelayMs, m.effectiveMinimumDelayMs,
    m.minimumDelayMs, m.maximumDelayMs)

structure Sound (m : DelayManagerState) : Prop where
  current : m.Current
  minimum_nonneg : 0 ≤ m.minimumDelayMs

variable {m t : DelayManagerState}

theorem Sound.of_limits (h : m.Sound) (heq : t.limits = m.limits) : t.Sound := by
  simp only [limits, Prod.mk.injEq] at heq
  obtain ⟨hpa, hlen, hb, he, hmin, hmax⟩ := heq
  obtain ⟨⟨bound, hbound, hc⟩, hn⟩ := h
  refine ⟨⟨bound, ?_, ?_⟩, ?_⟩
  · rwa [upperBound?, hpa, hlen, hmax]
  · rwa [hb, he, hmin]
  · rwa [hmin]

variable {delayMs sampleRateHz : ℤ} {timer : TickTimer} {sequenceNumber : UInt16}
  {timestamp : UInt32}

theorem limits_updateDelayHistory {iatDelayMs : ℤ}
    (h : m.updateDelayHistory? iatDelayMs timestamp sampleRateHz = some t) :
    t.limits = m.limits := by
  simp only [updateDelayHistory?, bind_eq_bind, bind_eq_some_iff] at h
  obtain ⟨_, -, h⟩ := h
  cases h
  rfl

theorem limits_calculateTargetLevel (h : m.calculateTargetLevel? = some t) :
    t.limits = m.limits := by
  simp only [calculateTargetLevel?, bind_eq_bind, bind_eq_some_iff] at h
  obtain ⟨_, -, _, -, _, -, h⟩ := h
  cases h
  rfl

theorem limits_targetLevel (m : DelayManagerState) (targetLevel : ℤ) :
    { m with targetLevel }.limits = m.limits := rfl

theorem limits_limitTargetLevel (h : m.limitTargetLevel? = some t) : t.limits = m.limits := by
  simp only [limitTargetLevel?, bind_eq_bind, bind_eq_some_iff] at h
  obtain ⟨_, -, _, -, h⟩ := h
  rw [← some.inj h]
  exact limits_targetLevel m _

variable {relativeDelay packetLenMs bound : ℤ}

theorem limits_updateStatistics (h : m.updateStatistics? relativeDelay = some t) :
    t.limits = m.limits := by
  simp only [updateStatistics?, bind_eq_bind, bind_eq_some_iff] at h
  obtain ⟨_, -, u, hu, ht⟩ := h
  rw [limits_limitTargetLevel ht, limits_calculateTargetLevel hu]
  rfl

theorem limits_updateDelays
    (h : m.updateDelays? timer sequenceNumber timestamp sampleRateHz packetLenMs =
      some (t, relativeDelay)) :
    t.limits = m.limits := by
  simp only [updateDelays?, bind_eq_bind, bind_eq_some_iff] at h
  obtain ⟨iatDelay, -, ⟨u, delay⟩, hu, v, hv, h⟩ := h
  cases h
  refine (limits_updateStatistics hv).trans ?_
  split_ifs at hu with hre
  · cases hu
    rfl
  · simp only [bind_eq_some_iff] at hu
    obtain ⟨w, hw, _, -, hu⟩ := hu
    cases hu
    exact limits_updateDelayHistory hw

theorem limits_prepareForNext (m : DelayManagerState) (timer : TickTimer) (sequenceNumber : UInt16)
    (timestamp : UInt32) (reordered : Bool) :
    (m.prepareForNext timer sequenceNumber timestamp reordered).limits = m.limits := by
  unfold prepareForNext
  split_ifs <;> rfl

theorem limits_update {delay : Option ℤ}
    (h : m.update? timer sequenceNumber timestamp sampleRateHz = some (t, delay)) :
    t.limits = m.limits := by
  unfold update? at h
  dsimp only at h
  split_ifs at h with hrate hfirst hlen
  · cases h
    rfl
  · cases h
    rfl
  · simp only [bind_eq_bind, bind_eq_some_iff] at h
    obtain ⟨⟨u, relativeDelay⟩, hu, h⟩ := h
    cases h
    rw [limits_prepareForNext]
    exact limits_updateDelays hu
  · cases h
    exact limits_prepareForNext m timer sequenceNumber timestamp false

theorem sound_updateEffectiveMinimumDelay (hb : m.upperBound? = some bound)
    (hle : m.minimumDelayMs ≤ bound) (hn : 0 ≤ m.minimumDelayMs)
    (h : m.updateEffectiveMinimumDelay? = some t) : t.Sound := by
  simp only [updateEffectiveMinimumDelay?, hb, bind_eq_bind, bind_some] at h
  cases h
  exact ⟨⟨bound, hb, rfl, hle⟩, hn⟩

variable {accepted : Bool}

theorem Sound.setMinimumDelay (h : m.Sound) (ht : m.setMinimumDelay? delayMs = some (t, accepted)) :
    t.Sound := by
  obtain ⟨⟨bound, hb, hc⟩, hn⟩ := h
  simp only [setMinimumDelay?, mem_def.mp hb, bind_eq_bind, bind_some] at ht
  split_ifs at ht with hv
  · obtain ⟨u, hu, ht⟩ := bind_eq_some_iff.mp ht
    cases ht
    exact sound_updateEffectiveMinimumDelay (m := { m with minimumDelayMs := delayMs }) hb
      hv.2 hv.1 hu
  · cases ht
    exact ⟨⟨bound, hb, hc⟩, hn⟩

theorem Sound.setBaseMinimumDelay (h : m.Sound)
    (ht : m.setBaseMinimumDelay? delayMs = some (t, accepted)) : t.Sound := by
  unfold setBaseMinimumDelay? at ht
  split_ifs at ht with hvalid
  · obtain ⟨u, hu, ht⟩ := bind_eq_some_iff.mp ht
    cases ht
    obtain ⟨⟨bound, hb, -, hle⟩, hn⟩ := h
    exact sound_updateEffectiveMinimumDelay (m := { m with baseMinimumDelayMs := delayMs }) hb hle
      hn hu
  · cases ht
    exact h

theorem minimumDelayUpperBound_eq_some {maxPacketsInBuffer : ℕ} {maximumDelayMs : ℤ}
    (h : minimumDelayUpperBound? maxPacketsInBuffer packetLenMs maximumDelayMs = some bound) :
    ∃ q75, ∀ delayMs, minimumDelayUpperBound? maxPacketsInBuffer packetLenMs delayMs =
        some (min (if 0 < delayMs then delayMs else kMaxBaseMinimumDelayMs) q75) := by
  simp only [minimumDelayUpperBound?, bind_eq_bind, bind_eq_some_iff] at h ⊢
  obtain ⟨q75, hq75, -⟩ := h
  exact ⟨_, fun delayMs => ⟨q75, hq75, rfl⟩⟩

theorem Sound.setMaximumDelay (h : m.Sound)
    (hunset : delayMs = 0 → m.minimumDelayMs ≤ kMaxBaseMinimumDelayMs)
    (ht : m.setMaximumDelay? delayMs = some (t, accepted)) : t.Sound := by
  unfold setMaximumDelay? at ht
  split_ifs at ht with hr
  · cases ht
    exact h
  · obtain ⟨u, hu, ht⟩ := bind_eq_some_iff.mp ht
    cases ht
    obtain ⟨⟨bound, hb, -, hle⟩, hn⟩ := h
    obtain ⟨q75, hq75⟩ := minimumDelayUpperBound_eq_some hb
    have hshare : bound ≤ q75 := by
      have heq := some.inj (hb.symm.trans (hq75 m.maximumDelayMs))
      omega
    refine sound_updateEffectiveMinimumDelay (m := { m with maximumDelayMs := delayMs })
      (hq75 delayMs) ?_ hn hu
    dsimp only
    split_ifs <;> omega

theorem not_current_setMaximumDelay (h : m.Sound)
    (habove : kMaxBaseMinimumDelayMs < m.minimumDelayMs) :
    ∃ t, m.setMaximumDelay? 0 = some (t, true) ∧ ¬ t.Current := by
  obtain ⟨⟨bound, hb, -⟩, -⟩ := h
  obtain ⟨q75, hq75⟩ := minimumDelayUpperBound_eq_some hb
  have hnew : upperBound? { m with maximumDelayMs := 0 } = some (min kMaxBaseMinimumDelayMs q75) :=
    hq75 0
  refine ⟨_, by simp only [setMaximumDelay?, updateEffectiveMinimumDelay?, hnew]; rfl, ?_⟩
  rintro ⟨bound', hb', -, hle⟩
  have heq := some.inj (hnew.symm.trans hb')
  dsimp only at hle
  omega

theorem Sound.current_iff_unaffected (h : m.Sound)
    (he : t.effectiveMinimumDelayMs = m.effectiveMinimumDelayMs)
    (hmin : t.minimumDelayMs = m.minimumDelayMs)
    (hbase : t.baseMinimumDelayMs = m.baseMinimumDelayMs) :
    t.Current ↔ m.Unaffected t.upperBound? := by
  obtain ⟨⟨old, hold, heq, hle⟩, hn⟩ := h
  unfold Current Unaffected
  rw [he, hmin, hbase]
  constructor
  · rintro ⟨bound, hb, heq', hle'⟩
    exact ⟨old, hold, bound, hb, hle', by omega⟩
  · rintro ⟨old', hold', bound, hb, hle', hsame⟩
    cases (mem_def.mp hold).symm.trans hold'
    exact ⟨bound, hb, by omega, hle'⟩

theorem Sound.current_setPacketAudioLength_iff (h : m.Sound) (timer : TickTimer) (lengthMs : ℤ) :
    (m.setPacketAudioLength timer lengthMs).1.Current ↔ (0 < lengthMs →
      m.Unaffected (minimumDelayUpperBound? m.maxPacketsInBuffer lengthMs m.maximumDelayMs)) := by
  unfold setPacketAudioLength
  split_ifs with hlen
  · simp [h.current, Int.not_lt.mpr hlen]
  · refine (h.current_iff_unaffected (t := { m with
      packetLenMs := lengthMs
      packetIatStopwatch := timer.ticks
      lastPackCngOrDtmf := 1 }) rfl rfl rfl).trans ?_
    exact ⟨fun hs _ => hs, fun hs => hs (by omega)⟩

theorem Sound.current_reset_iff (h : m.Sound) (timer : TickTimer) : (m.reset timer).Current ↔
      m.Unaffected (minimumDelayUpperBound? m.maxPacketsInBuffer 0 m.maximumDelayMs) := by
  have hb : (m.reset timer).upperBound? =
      minimumDelayUpperBound? m.maxPacketsInBuffer 0 m.maximumDelayMs := rfl
  rw [← hb]
  exact h.current_iff_unaffected rfl rfl rfl

theorem minimumDelayMs_setPacketAudioLength (m : DelayManagerState) (timer : TickTimer)
    (lengthMs : ℤ) :
    (m.setPacketAudioLength timer lengthMs).1.minimumDelayMs = m.minimumDelayMs := by
  unfold setPacketAudioLength
  split_ifs <;> rfl

variable {c : TickTimer × DelayManagerCall} {r : DelayManagerResult}

theorem Sound.step (h : m.Sound) (hk : m.KeepsBound c) (ht : m.step c = some (t, r)) :
    t.Sound := by
  obtain ⟨timer, call⟩ := c
  cases call with
  | setMinimumDelay delayMs =>
    simp only [DelayManagerState.step, map_eq_some_iff] at ht
    obtain ⟨⟨u, accepted⟩, hu, heq⟩ := ht
    cases heq
    exact h.setMinimumDelay hu
  | setMaximumDelay delayMs =>
    simp only [DelayManagerState.step, map_eq_some_iff] at ht
    obtain ⟨⟨u, accepted⟩, hu, heq⟩ := ht
    cases heq
    exact h.setMaximumDelay hk hu
  | setBaseMinimumDelay delayMs =>
    simp only [DelayManagerState.step, map_eq_some_iff] at ht
    obtain ⟨⟨u, accepted⟩, hu, heq⟩ := ht
    cases heq
    exact h.setBaseMinimumDelay hu
  | setPacketAudioLength lengthMs =>
    have heq : (m.setPacketAudioLength timer lengthMs).1 = t :=
      congrArg Prod.fst (some.inj ht)
    rw [← heq]
    refine ⟨(h.current_setPacketAudioLength_iff timer lengthMs).mpr hk, ?_⟩
    rw [minimumDelayMs_setPacketAudioLength]
    exact h.minimum_nonneg
  | update sequenceNumber timestamp sampleRateHz =>
    simp only [DelayManagerState.step, map_eq_some_iff] at ht
    obtain ⟨⟨u, delay⟩, hu, heq⟩ := ht
    cases heq
    exact h.of_limits (limits_update hu)
  | reset =>
    have heq : m.reset timer = t := congrArg Prod.fst (some.inj ht)
    rw [← heq]
    exact ⟨(h.current_reset_iff timer).mpr hk, h.minimum_nonneg⟩
  | resetPacketIatCount | setLastPackCngOrDtmf _ | registerEmptyPacket =>
    cases ht
    exact h.of_limits rfl
  | lastDecodedWasCngOrDtmf itWas =>
    cases ht
    refine h.of_limits ?_
    unfold lastDecodedWasCngOrDtmf
    split_ifs <;> rfl

theorem Sound.not_current_step (h : m.Sound) (hnot : ¬ m.KeepsBound c) :
    ∃ t r, m.step c = some (t, r) ∧ ¬ t.Current := by
  obtain ⟨timer, call⟩ := c
  cases call with
  | setMaximumDelay delayMs =>
    obtain ⟨rfl, habove⟩ := Classical.not_imp.mp hnot
    obtain ⟨t, ht, hc⟩ := not_current_setMaximumDelay h (by omega)
    exact ⟨t, .accepted true, by simp [DelayManagerState.step, ht], hc⟩
  | setPacketAudioLength lengthMs =>
    exact ⟨_, _, rfl, fun hc =>
      hnot ((h.current_setPacketAudioLength_iff timer lengthMs).mp hc)⟩
  | reset => exact ⟨_, _, rfl, fun hc => hnot ((h.current_reset_iff timer).mp hc)⟩
  | setMinimumDelay _ | setBaseMinimumDelay _ | update _ _ _ | resetPacketIatCount
  | lastDecodedWasCngOrDtmf _ | setLastPackCngOrDtmf _ | registerEmptyPacket =>
    exact absurd trivial hnot

section
variable (maxPacketsInBuffer : ℕ) (baseMinimumDelayMs histogramQuantile : ℤ)
  (enableRtxHandling : Bool) (timer : TickTimer) (histogram : Histogram)

theorem upperBound_create :
    (create maxPacketsInBuffer baseMinimumDelayMs histogramQuantile enableRtxHandling timer
      histogram).upperBound? = some kMaxBaseMinimumDelayMs := by
  have hb : minimumDelayUpperBound? maxPacketsInBuffer 0 0 = some kMaxBaseMinimumDelayMs := by
    rw [minimumDelayUpperBound?, maxBufferTimeQ75?, Int.mul_zero]
    rfl
  exact hb

theorem current_create_iff :
    (create maxPacketsInBuffer baseMinimumDelayMs histogramQuantile enableRtxHandling timer
      histogram).Current ↔
      0 ≤ baseMinimumDelayMs ∧ baseMinimumDelayMs ≤ kMaxBaseMinimumDelayMs := by
  have hmin : (create maxPacketsInBuffer baseMinimumDelayMs histogramQuantile enableRtxHandling
    timer histogram).minimumDelayMs = 0 := rfl
  have hbase : (create maxPacketsInBuffer baseMinimumDelayMs histogramQuantile enableRtxHandling
    timer histogram).baseMinimumDelayMs = baseMinimumDelayMs := rfl
  have he : (create maxPacketsInBuffer baseMinimumDelayMs histogramQuantile
    enableRtxHandling timer histogram).effectiveMinimumDelayMs = baseMinimumDelayMs := rfl
  unfold Current
  rw [upperBound_create, hmin, hbase, he]
  constructor
  · rintro ⟨bound, hb, heq, hle⟩
    cases hb
    omega
  · rintro ⟨hn, hle⟩
    exact ⟨_, rfl, by omega, by decide⟩

/-- The effective minimum delay is the one of the current settings in every state that a run
reaches exactly if the first one is in the valid range and every call keeps the bound. -/
theorem current_iff_keepsBound (calls : List (TickTimer × DelayManagerCall)) :
    (∀ pre, pre <+: calls → ∀ t rs, runPartial step (create maxPacketsInBuffer baseMinimumDelayMs
      histogramQuantile enableRtxHandling timer histogram) pre = some (t, rs) → t.Current) ↔
      (0 ≤ baseMinimumDelayMs ∧ baseMinimumDelayMs ≤ kMaxBaseMinimumDelayMs) ∧
        ∀ pre c post, calls = pre ++ c :: post → ∀ t rs, runPartial step (create maxPacketsInBuffer
          baseMinimumDelayMs histogramQuantile enableRtxHandling timer histogram) pre =
            some (t, rs) → t.KeepsBound c := by
  rw [← current_create_iff maxPacketsInBuffer baseMinimumDelayMs histogramQuantile
    enableRtxHandling timer histogram]
  have hg : ∀ m c t r, Sound m → m.KeepsBound c → step m c = some (t, r) → Sound t :=
    fun m c t r hs hk ht => hs.step hk ht
  have hbad : ∀ m c, Sound m → ¬ m.KeepsBound c → ∃ t r, step m c = some (t, r) ∧ ¬ t.Current :=
    fun m c hs hnot => hs.not_current_step hnot
  have hr (h : (create maxPacketsInBuffer baseMinimumDelayMs histogramQuantile
      enableRtxHandling timer histogram).Current) :=
    forall_reached_partial_iff (fun _ hs => Sound.current hs) hg hbad ⟨h, Int.le_refl 0⟩ calls
  constructor
  · intro h
    have hstart := h [] (List.nil_prefix) _ [] rfl
    exact ⟨hstart, (hr hstart).mp h⟩
  · rintro ⟨hstart, h⟩
    exact (hr hstart).mpr h

end

theorem setMinimumDelay_defaultManager : defaultManager.setMinimumDelay? 5000 =
      some ({ defaultManager with minimumDelayMs := 5000, effectiveMinimumDelayMs := 5000 },
        true) := by
  have hb : defaultManager.upperBound? = some kMaxBaseMinimumDelayMs :=
    upperBound_create 200 0 1041529569 false ⟨0, fun _ => 0⟩ _
  have hb' : { defaultManager with minimumDelayMs := 5000 }.upperBound? =
      some kMaxBaseMinimumDelayMs := hb
  have he : max 5000 (max 0 (min (0 : ℤ) kMaxBaseMinimumDelayMs)) = 5000 := by decide
  simp only [setMinimumDelay?, updateEffectiveMinimumDelay?, hb, hb', bind_eq_bind,
    bind_some]
  rw [if_neg (by decide)]
  exact congrArg (fun delay => some ({ defaultManager with
    minimumDelayMs := 5000, effectiveMinimumDelayMs := delay }, true)) he

theorem not_current_packetAudioLength : ∃ t, runPartial step defaultManager
        [(⟨0, fun _ => 0⟩, .setMinimumDelay 5000), (⟨0, fun _ => 0⟩, .setPacketAudioLength 20)] =
          some (t, [.accepted true, .code 0]) ∧
      t.upperBound? = some 3000 ∧ t.minimumDelayMs = 5000 ∧ ¬ t.Current := by
  have hb : minimumDelayUpperBound? 200 20 0 = some 3000 := by decide +kernel
  refine ⟨(setPacketAudioLength { defaultManager with
    minimumDelayMs := 5000, effectiveMinimumDelayMs := 5000 } ⟨0, fun _ => 0⟩ 20).1,
    ?_, hb, rfl, ?_⟩
  · simp only [runPartial, DelayManagerState.step, setMinimumDelay_defaultManager]
    rfl
  · rintro ⟨bound, hb', -, hle⟩
    cases hb.symm.trans hb'
    exact absurd hle (by decide)

end WebRtcAudio.NetEq.DelayManagerState
