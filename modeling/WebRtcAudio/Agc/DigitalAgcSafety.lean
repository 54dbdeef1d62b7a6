import WebRtcAudio.Agc.DigitalGains

/-! Runs of the digital gain controller, while the gate does not overflow. -/
namespace WebRtcAudio.Agc

open WebRtcAudio.Core WebRtcAudio.CommonAudio List Option

variable {a b x env : ℤ}

theorem foldl_max_le_iff {l : List ℤ} : l.foldl max a ≤ b ↔ a ≤ b ∧ ∀ x ∈ l, x ≤ b := by
  induction l generalizing a with
  | nil => simp
  | cons x l ih => rw [foldl_cons, ih, max_le_iff, forall_mem_cons, and_assoc]

theorem length_envelope (low : List ℤ) (l : ℕ) : (envelope low l).length = 10 := by
  rw [envelope, length_map, length_range]

variable {low gains : List ℤ}

theorem envelope_mem (hlow : ∀ x ∈ low, IsWord16 x) (l : ℕ) :
    ∀ env ∈ envelope low l, InLevelRange env := by
  intro env he
  obtain ⟨i, -, rfl⟩ := mem_map.mp he
  refine ⟨(foldl_max_le_iff.mp (le_refl _)).1, foldl_max_le_iff.mpr ⟨by decide, ?_⟩⟩
  rw [List.forall_mem_map]
  intro x hx
  obtain ⟨hl, hu⟩ := hlow x (mem_of_mem_drop (mem_of_mem_take hx))
  nlinarith

variable {l l2 fs : ℕ}

theorem mul_self_le_envelope {k n : ℕ} (hn : n < l) (hx : low[k * l + n]? = some x)
    (he : (envelope low l)[k]? = some env) : x * x ≤ env := by
  rw [envelope, getElem?_map, map_eq_some_iff] at he
  obtain ⟨i, hi, rfl⟩ := he
  obtain rfl : k = i := by
    have := List.getElem?_eq_some_iff.mp hi
    simpa using this.2
  have hmem : x ∈ (low.drop (k * l)).take l := by
    refine mem_of_getElem? (i := n) ?_
    rw [getElem?_take_of_lt hn, getElem?_drop, hx]
  exact (foldl_max_le_iff.mp (le_refl _)).2 _ (mem_map_of_mem hmem)

theorem exists_gainRamp (delta gain32 : ℤ) (n : ℕ)
    (h : ∀ i : ℕ, i ≤ n → 0 ≤ gain32 + i * delta ∧ gain32 + i * delta < 2 ^ 31) :
    ∃ ramp, gainRamp delta n gain32 = some ramp ∧
      ∀ i g, ramp[i]? = some g → i ≤ n ∧ g = gain32 + i * delta := by
  induction n generalizing gain32 with
  | zero => exact ⟨[], rfl, by simp⟩
  | succ n ih =>
    have hn := h 1 (by omega)
    rw [Nat.cast_one, one_mul] at hn
    obtain ⟨ramp, hr, hget⟩ := ih (gain32 + delta) fun i hi => by
      have := h (i + 1) (by omega)
      rw [Nat.cast_succ, add_mul, one_mul] at this
      rwa [add_assoc, add_comm delta]
    refine ⟨gain32 :: ramp, ?_, ?_⟩
    · rw [gainRamp, int32?_bind (by omega), hr]
      rfl
    · intro i g hg
      cases i with
      | zero => exact ⟨by omega, by simpa using hg.symm⟩
      | succ i =>
        obtain ⟨hi, rfl⟩ := hget i g hg
        refine ⟨by omega, ?_⟩
        push_cast
        ring

theorem exists_subframeRamp (hl : l * 2 ^ (4 - l2) = 16) (ha : 0 ≤ a ∧ a < 2 ^ 25)
    (hb : 0 ≤ b ∧ b < 2 ^ 25) :
    ∃ ramp, subframeRamp l l2 a b = some ramp ∧ ∀ g ∈ ramp, 0 ≤ g ∧ g ≤ 2 ^ 4 * max a b := by
  have hp (i : ℕ) (hi : i ≤ l) : 0 ≤ a * 2 ^ 4 + i * ((b - a) * 2 ^ (4 - l2)) ∧
      a * 2 ^ 4 + i * ((b - a) * 2 ^ (4 - l2)) ≤ 2 ^ 4 * max a b := by
    generalize hk : i * 2 ^ (4 - l2) = k
    have hk16 : k ≤ 16 := by
      rw [← hk, ← hl]
      exact Nat.mul_le_mul_right _ hi
    have hw : a * 2 ^ 4 + i * ((b - a) * 2 ^ (4 - l2)) = (16 - k) * a + k * b := by
      rw [← hk]
      push_cast
      ring
    have hmax : a ≤ max a b ∧ b ≤ max a b := ⟨le_max_left a b, le_max_right a b⟩
    rw [hw]
    constructor <;> nlinarith
  have hd : -2 ^ 31 ≤ (b - a) * 2 ^ (4 - l2) ∧ (b - a) * 2 ^ (4 - l2) < 2 ^ 31 := by
    have hpow : (2 : ℤ) ^ (4 - l2) ≤ 2 ^ 4 := pow_le_pow_right₀ (by decide) (Nat.sub_le 4 l2)
    constructor <;> nlinarith
  obtain ⟨ramp, hr, hget⟩ := exists_gainRamp ((b - a) * 2 ^ (4 - l2)) (a * 2 ^ 4) l fun i hi => by
      have := hp i hi
      omega
  refine ⟨ramp, ?_, fun g hg => ?_⟩
  · rw [subframeRamp, int32?_bind (by omega), int32?_bind hd,
      int32?_bind (by omega), hr]
  · obtain ⟨i, hi⟩ := mem_iff_getElem?.mp hg
    obtain ⟨hle, rfl⟩ := hget i g hi
    exact hp i hle

theorem exists_gainRamps (hl : l * 2 ^ (4 - l2) = 16) (hg : ∀ g ∈ gains, 0 ≤ g ∧ g < 2 ^ 25) :
    ∃ ramps, gainRamps l l2 gains = some ramps ∧
      Forall₂ (fun p ramp => ∀ g ∈ ramp, 0 ≤ g ∧ g ≤ 2 ^ 4 * max p.1 p.2)
        (gains.zip gains.tail) ramps := by
  refine exists_mapM_forall₂ ?_
  rintro ⟨a, b⟩ hab
  obtain ⟨ha, hb⟩ := of_mem_zip hab
  exact exists_subframeRamp hl (hg a ha) (hg b (mem_of_mem_tail hb))

theorem exists_applyBand {ramps : List (List ℤ)}
    (hr : ∀ ramp ∈ ramps, ∀ g ∈ ramp, 0 ≤ g ∧ g < 2 ^ 30) (band : List ℤ) :
    ∃ out, applyBand ramps band = some out := by
  cases ramps with
  | nil => exact ⟨band, rfl⟩
  | cons first others =>
    have hf : ∀ p ∈ band.zip first, ∃ y, applyFirst p.1 p.2 = some y ∧ True := by
      rintro ⟨x, g⟩ hp
      have hg := hr first mem_cons_self g (of_mem_zip hp).2
      rw [applyFirst, int32?_bind (by omega)]
      exact ⟨_, rfl, trivial⟩
    obtain ⟨start, hs, -⟩ := exists_mapM_forall₂ hf
    refine ⟨start ++ zipWith applyGain (band.drop first.length) others.flatten, ?_⟩
    rw [applyBand, hs]
    rfl

def ClipsLowBand (gains : List ℤ) (fs : ℕ) (low : List ℤ) : Prop :=
  ∃ l l2 ramps k n ramp x gain32, samplesPerMs fs = some (l, l2) ∧
    gainRamps l l2 gains = some ramps ∧ 1 ≤ k ∧ k < 10 ∧ n < l ∧ low[k * l + n]? = some x ∧
    ramps[k]? = some ramp ∧ ramp[n]? = some gain32 ∧
    (32767 < amplified x gain32 ∨ amplified x gain32 < -32768)

theorem reduceEarlier_spec {i : ℕ} {r : ℤ} (hr : (reduceEarlier gains)[i]? = some r) :
    r ∈ gains ∧ (∀ g, gains[i]? = some g → r ≤ g) ∧ ∀ g, gains[i + 1]? = some g → r ≤ g := by
  fun_induction reduceEarlier gains generalizing i with
  | case1 g h gains ih =>
    cases i with
    | zero =>
      replace hr : (if h < g then h else g) = r := some.inj hr
      refine ⟨?_, ?_, ?_⟩
      · rw [← hr]
        split <;> simp
      · rintro _ ⟨⟩
        split at hr <;> omega
      · rintro _ ⟨⟩
        split at hr <;> omega
    | succ i =>
      obtain ⟨hmem, hle, hle'⟩ := ih hr
      exact ⟨mem_cons_of_mem g hmem, hle, hle'⟩
  | case2 gains hne =>
    refine ⟨mem_of_getElem? hr, fun g hg => (some.inj (hr.symm.trans hg)).le, ?_⟩
    intro g hg
    -- there is no second gain
    cases gains with
    | nil => simp at hg
    | cons a gains =>
      cases gains with
      | nil => simp at hg
      | cons b gains => exact absurd rfl (hne a b gains)

theorem amplified_mem {g gain32 : ℤ} (h : LimitedGain env g) (hx : x * x ≤ env) (hl : 0 ≤ gain32)
    (hu : gain32 ≤ 2 ^ 4 * g) : -32768 ≤ amplified x gain32 ∧ amplified x gain32 ≤ 32767 := by
  have hs : (x * g) ^ 2 < (2 ^ 31) ^ 2 := by
    calc (x * g) ^ 2 = x * x * (g * g) := by ring
      _ ≤ env * (g * g) := mul_le_mul_of_nonneg_right hx (mul_self_nonneg g)
      _ < 2 ^ 62 := h.power_lt
      _ = (2 ^ 31) ^ 2 := by norm_num
  obtain ⟨hxl, hxu⟩ := abs_lt.mp (abs_lt_of_sq_lt_sq hs (by decide))
  generalize hq : gain32 / 2 ^ 4 = q
  have hq0 : 0 ≤ q := by omega
  have hqg : q ≤ g := by omega
  have hp : -2 ^ 31 < x * q ∧ x * q < 2 ^ 31 := by
    obtain hpos | hneg := le_total 0 x
    · constructor <;> nlinarith
    · constructor <;> nlinarith
  rw [amplified, hq]
  omega

/-- What each frame relies on and leaves: levels, gain, table and detectors in range. -/
structure DigitalAgc.Inv (s : DigitalAgc) : Prop where
  capacitorFast_mem : InLevelRange s.capacitorFast
  capacitorSlow_mem : InLevelRange s.capacitorSlow
  gain_mem : 0 ≤ s.gain ∧ s.gain < 2 ^ 25
  table_bounded : TableBounded s.gainTable
  vadNearend_inRange : s.vadNearend.InRange
  vadFarend_inRange : s.vadFarend.InRange

structure DigitalAgc.Result.Sound (r : DigitalAgc.Result) (gainTable env : List ℤ) : Prop where
  levels_sound : Forall₂ (SubframeLevel.Sound gainTable) env r.levels
  gains_eq : ∃ gain limited, r.gains = gain :: reduceEarlier limited ∧ (0 ≤ gain ∧ gain < 2 ^ 25) ∧
    Forall₂ LimitedGain env limited

variable {s : DigitalAgc}

theorem DigitalAgc.Inv.exists_gainsOf (h : s.Inv) (hsafe : GateSafe s.gainTable) {env : List ℤ}
    (hne : env ≠ []) (he : ∀ e ∈ env, InLevelRange e) (lowlevelSignal : ℤ) :
    ∃ r, s.gainsOf env lowlevelSignal = some r ∧ r.state.Inv ∧
      r.state.gainTable = s.gainTable ∧ r.Sound s.gainTable env := by
  obtain ⟨levels, hlevels, hs⟩ := h.table_bounded.exists_subframeLevels
    (s.decay_mem lowlevelSignal) he h.capacitorFast_mem h.capacitorSlow_mem
  obtain ⟨_, last, hlast, hlastSound⟩ := forall₂_exists_getLast? hs hne
  generalize hgate : updateGate last s.vadNearend.stdShortTerm s.gatePrevious = gate
  obtain ⟨gated, hgated, hgatedGains⟩ := h.table_bounded.exists_gateGains hsafe gate.1 hs
  have hlimit : ∀ (e : ℤ) (p : ℤ × ℤ), p.1 = e ∧ GatedGain e p.2 →
      ∃ g, limitGain p.1 p.2 = some g ∧ LimitedGain e g := by
    rintro _ ⟨e, g⟩ ⟨rfl, hg⟩
    exact hg.exists_limitGain
  obtain ⟨limited, hli, hl⟩ :=
    exists_mapM_of_forall₂ hlimit (forall₂_zip hgatedGains)
  obtain ⟨_, gain, hgain, hgainLimited⟩ := forall₂_exists_getLast? hl hne
  refine ⟨⟨{ s with
      capacitorFast := last.capacitorFast, capacitorSlow := last.capacitorSlow
      gatePrevious := gate.2, gain }, levels, s.gain :: reduceEarlier limited⟩, ?_, ?_, rfl, ?_⟩
  · simp only [DigitalAgc.gainsOf, hlevels, hlast, hgate, hgated, hli, hgain, bind_eq_bind,
      bind_some]
    rfl
  · exact { h with
      capacitorFast_mem := hlastSound.capacitorFast_mem
      capacitorSlow_mem := hlastSound.capacitorSlow_mem
      gain_mem := ⟨hgainLimited.nonneg, hgainLimited.lt_bound⟩ }
  · exact ⟨hs, s.gain, limited, rfl, h.gain_mem, hl⟩

theorem samplesPerMs_eq_some (h : samplesPerMs fs = some (l, l2)) : l * 2 ^ (4 - l2) = 16 := by
  unfold samplesPerMs at h
  split_ifs at h
  · cases h
    rfl
  · cases h
    rfl

section Apply

variable {r : DigitalAgc.Result} {gainTable env low : List ℤ} {fs l l2 : ℕ}

theorem DigitalAgc.Result.Sound.gains_mem (h : r.Sound gainTable env) :
    ∀ g ∈ r.gains, 0 ≤ g ∧ g < 2 ^ 25 := by
  obtain ⟨gain, limited, hgains, hgain, hli⟩ := h.gains_eq
  rw [hgains, forall_mem_cons]
  refine ⟨hgain, fun g hg => ?_⟩
  obtain ⟨i, hi⟩ := mem_iff_getElem?.mp hg
  obtain ⟨j, hj⟩ := mem_iff_getElem?.mp (reduceEarlier_spec hi).1
  obtain ⟨_, -, hl⟩ := forall₂_exists_left hli hj
  exact ⟨hl.nonneg, hl.lt_bound⟩

theorem DigitalAgc.Result.Sound.exists_applyDigitalGains (h : r.Sound gainTable env)
    (hfs : samplesPerMs fs = some (l, l2)) (bands : List (List ℤ)) :
    ∃ out, applyDigitalGains r.gains fs bands = some (some out) := by
  obtain ⟨ramps, hramps, hfo⟩ := exists_gainRamps (samplesPerMs_eq_some hfs) h.gains_mem
  have hbound : ∀ ramp ∈ ramps, ∀ g ∈ ramp, 0 ≤ g ∧ g < 2 ^ 30 := by
    intro ramp hr g hg
    obtain ⟨i, hi⟩ := mem_iff_getElem?.mp hr
    obtain ⟨⟨a, b⟩, hab, hr'⟩ := forall₂_exists_left hfo hi
    obtain ⟨ha, hb⟩ := of_mem_zip (mem_of_getElem? hab)
    have hga := h.gains_mem a ha
    have hgb := h.gains_mem b (mem_of_mem_tail hb)
    have hgl := hr' g hg
    omega
  obtain ⟨out, hout, -⟩ := exists_mapM_forall₂ (P := fun _ _ => True) (l := bands) fun band _ => by
    obtain ⟨b, hb⟩ := exists_applyBand hbound band
    exact ⟨b, hb, trivial⟩
  refine ⟨out, ?_⟩
  simp only [applyDigitalGains, hfs, hramps, hout, bind_eq_bind, bind_some]
  rfl

/-- The gains of a sub frame after the first are no higher than the one that its limiter accepted,
so that none of its samples is clipped. -/
theorem DigitalAgc.Result.Sound.not_clipsLowBand (h : r.Sound gainTable (envelope low l))
    (hfs : samplesPerMs fs = some (l, l2)) : ¬ ClipsLowBand r.gains fs low := by
  rintro ⟨l', l2', ramps, k, n, ramp, x, gain32, hfs', hr, hk, hk', hn, hx, hramp, hgain32, hclip⟩
  obtain ⟨rfl, rfl⟩ := Prod.mk.inj (some.inj (hfs.symm.trans hfs'))
  obtain ⟨gain, limited, hgains, -, hli⟩ := h.gains_eq
  obtain ⟨_, hramps', hfo⟩ := exists_gainRamps (samplesPerMs_eq_some hfs) h.gains_mem
  cases hramps'.symm.trans hr
  obtain ⟨⟨a, b⟩, hab, hbounds⟩ := forall₂_exists_left hfo hramp
  obtain ⟨ha, hb⟩ := getElem?_zip_eq_some.mp hab
  obtain ⟨hg0, hgu⟩ := hbounds gain32 (mem_of_getElem? hgain32)
  -- both gains at the ends of the sub frame belong to reduced gains
  obtain ⟨j, rfl⟩ := Nat.exists_eq_add_of_le' hk
  rw [hgains, getElem?_cons_succ] at ha
  rw [hgains, tail_cons] at hb
  obtain ⟨env, he⟩ : ∃ env, (envelope low l)[j + 1]? = some env :=
    ⟨_, getElem?_eq_getElem (by rw [length_envelope]; exact hk')⟩
  obtain ⟨g, hg, hl⟩ := forall₂_exists_right hli he
  have hag := (reduceEarlier_spec ha).2.2 g hg
  have hbg := (reduceEarlier_spec hb).2.1 g hg
  have hmem := amplified_mem hl (mul_self_le_envelope hn hx he) hg0 (by omega : gain32 ≤ 2 ^ 4 * g)
  omega

end Apply

structure IsFrame (fs : ℕ) (frame : List ℤ) : Prop where
  length_eq : ∃ l l2, samplesPerMs fs = some (l, l2) ∧ frame.length = 10 * l
  isWord16 : ∀ x ∈ frame, IsWord16 x

namespace DigitalAgc

def Call.Valid (fs : ℕ) : Call → Prop
  | .addFarend inFar => IsFrame fs inFar
  | .computeDigitalGains inNear _ => IsFrame fs inNear

theorem Inv.exists_addFarend (h : s.Inv) {inFar : List ℤ} (hf : ∀ x ∈ inFar, IsWord16 x) :
    ∃ t, s.addFarend inFar = some t ∧ t.Inv ∧ t.gainTable = s.gainTable := by
  obtain ⟨vadFarend, hvad, hr⟩ := h.vadFarend_inRange.exists_processVad hf inFar.length
  refine ⟨{ s with vadFarend }, ?_, { h with vadFarend_inRange := hr }, rfl⟩
  rw [addFarend, hvad]
  rfl

theorem Inv.exists_computeDigitalGains (h : s.Inv) (hsafe : GateSafe s.gainTable) {inNear : List ℤ}
    (hfs : samplesPerMs fs = some (l, l2)) (hf : ∀ x ∈ inNear, IsWord16 x) (lowlevelSignal : ℤ) :
    ∃ r, s.computeDigitalGains inNear fs lowlevelSignal = some (some r) ∧ r.state.Inv ∧
      r.state.gainTable = s.gainTable ∧ r.Sound s.gainTable (envelope inNear l) := by
  obtain ⟨vadNearend, hvad, hrange⟩ := h.vadNearend_inRange.exists_processVad hf (l * 10)
  have hinv : Inv { s with vadNearend } := { h with vadNearend_inRange := hrange }
  have hne : envelope inNear l ≠ [] :=
    ne_nil_of_length_pos (by rw [length_envelope]; decide)
  obtain ⟨r, hr, hs, ht, hsound⟩ :=
    hinv.exists_gainsOf hsafe hne (envelope_mem hf l) lowlevelSignal
  refine ⟨r, ?_, hs, ht, hsound⟩
  simp only [computeDigitalGains, hfs, hvad, hr, bind_eq_bind, bind_some]
  rfl

theorem Inv.exists_step (h : s.Inv) (hsafe : GateSafe s.gainTable) {c : Call} (hc : c.Valid fs) :
    ∃ t, s.step fs c = some t ∧ t.Inv ∧ t.gainTable = s.gainTable := by
  cases c with
  | addFarend inFar => exact h.exists_addFarend hc.isWord16
  | computeDigitalGains inNear lowlevelSignal =>
    obtain ⟨⟨l, l2, hfs, -⟩, hw⟩ := hc
    obtain ⟨r, hr, hs, ht, -⟩ :=
      h.exists_computeDigitalGains hsafe hfs hw lowlevelSignal
    refine ⟨r.state, ?_, hs, ht⟩
    rw [step, hr]
    rfl

theorem exists_configured (agcMode : AgcMode) {config : AgcConfig} (h : config.Valid) :
    ∃ s, configured agcMode config = some (some s) ∧ s.Inv := by
  have hval : (⟨3, 9, 1⟩ : AgcConfig).Valid :=
    ⟨by decide, by decide, by decide, by decide, by decide⟩
  obtain ⟨default, hd, -⟩ := exists_setConfig agcMode hval
  obtain ⟨gainTable, ht, hb⟩ := exists_setConfig agcMode h
  refine ⟨initDigital agcMode gainTable, ?_, ?_⟩
  · have hi : init agcMode = some (some (initDigital agcMode default)) := by
      rw [init, hd]
      rfl
    have hset : (initDigital agcMode default).setConfig config =
        some (some (initDigital agcMode gainTable)) := by
      have hm : (initDigital agcMode default).agcMode = agcMode := rfl
      rw [setConfig, hm, ht]
      rfl
    simp only [configured, hi, bind_eq_bind, bind_some]
    exact hset
  · have hs : InLevelRange (if agcMode = .fixedDigital then 0 else 134217728) := by
      unfold InLevelRange
      split <;> decide
    exact {
      capacitorFast_mem := ⟨le_refl 0, show (0 : ℤ) ≤ 2 ^ 30 by decide⟩
      capacitorSlow_mem := hs
      gain_mem := show (0 : ℤ) ≤ 65536 ∧ 65536 < 2 ^ 25 by decide
      table_bounded := hb
      vadNearend_inRange := AgcVad.inRange_init
      vadFarend_inRange := AgcVad.inRange_init }

/-- Unless some level makes the gate overflow, every frame has its gains: the capacitors stay in
range, nothing overflows, the limiter ends, and no sample is clipped after the first sub frame. -/
theorem computeDigitalGains_safe (agcMode : AgcMode) {config : AgcConfig} (hconfig : config.Valid) :
    ∃ s, configured agcMode config = some (some s) ∧
      (GateSafe s.gainTable → ∀ (fs : ℕ) (calls : List Call), (∀ c ∈ calls, c.Valid fs) →
        ∃ t : DigitalAgc, calls.foldlM (step fs) s = some t ∧
          ∀ (inNear : List ℤ) (lowlevelSignal : ℤ), IsFrame fs inNear →
            ∃ r : Result, t.computeDigitalGains inNear fs lowlevelSignal = some (some r) ∧
              r.levels.length = 10 ∧
              (∀ l ∈ r.levels, InLevelRange l.capacitorFast ∧ InLevelRange l.capacitorSlow ∧
                1 ≤ levelZeros l.curLevel ∧ levelZeros l.curLevel ≤ 31) ∧
              (∀ bands, ∃ out, applyDigitalGains r.gains fs bands = some (some out)) ∧
              ¬ ClipsLowBand r.gains fs inNear) := by
  obtain ⟨s, hs, hinv⟩ := exists_configured agcMode hconfig
  refine ⟨s, hs, fun hsafe fs calls hcalls => ?_⟩
  have hstep : ∀ t, ∀ c ∈ calls, (t.Inv ∧ t.gainTable = s.gainTable) →
      ∃ u, step fs t c = some u ∧ u.Inv ∧ u.gainTable = s.gainTable := by
    rintro t c hc ⟨htinv, htable⟩
    obtain ⟨u, hu, huinv, hutable⟩ := htinv.exists_step (htable ▸ hsafe) (hcalls c hc)
    exact ⟨u, hu, huinv, hutable.trans htable⟩
  obtain ⟨t, ht, htinv, htable⟩ := exists_foldlM_invariant _ hstep ⟨hinv, rfl⟩
  refine ⟨t, ht, fun inNear lowlevelSignal hf => ?_⟩
  obtain ⟨⟨l, l2, hfs, -⟩, hw⟩ := hf
  obtain ⟨r, hr, -, -, hsound⟩ :=
    htinv.exists_computeDigitalGains (htable ▸ hsafe) hfs hw lowlevelSignal
  refine ⟨r, hr, ?_, fun level hlevel => ?_, fun bands => hsound.exists_applyDigitalGains hfs bands,
    hsound.not_clipsLowBand hfs⟩
  · rw [← hsound.levels_sound.length_eq, length_envelope]
  · obtain ⟨i, hi⟩ := mem_iff_getElem?.mp hlevel
    obtain ⟨_, -, hl⟩ := forall₂_exists_left hsound.levels_sound hi
    exact ⟨hl.capacitorFast_mem, hl.capacitorSlow_mem, one_le_levelZeros hl.curLevel_mem⟩

theorem computeDigitalGains_safe_default :
    (⟨3, 9, 1⟩ : AgcConfig).Valid ∧ ∃ s, configured .adaptiveDigital ⟨3, 9, 1⟩ = some (some s) ∧
      GateSafe s.gainTable ∧ ∀ calls : List Call, (∀ c ∈ calls, c.Valid 16000) →
        ∃ t : DigitalAgc, calls.foldlM (step 16000) s = some t := by
  have hval : (⟨3, 9, 1⟩ : AgcConfig).Valid :=
    ⟨by decide, by decide, by decide, by decide, by decide⟩
  have hsmall : (configured .adaptiveDigital ⟨3, 9, 1⟩).join.any
      fun s => s.gainTable.all fun g => decide (g < 2 ^ 23) := by
    decide +kernel
  obtain ⟨s, hs, hrun⟩ := computeDigitalGains_safe .adaptiveDigital hval
  obtain ⟨_, hs', hinv⟩ := exists_configured .adaptiveDigital hval
  cases some.inj (hs.symm.trans hs')
  rw [hs, join_some, any_some, List.all_eq_true] at hsmall
  have hsafe : GateSafe s.gainTable :=
    hinv.table_bounded.gateSafe fun g hg => of_decide_eq_true (hsmall g hg)
  refine ⟨hval, s, hs, hsafe, fun calls hc => ?_⟩
  obtain ⟨t, ht, -⟩ := hrun hsafe 16000 calls hc
  exact ⟨t, ht⟩

def soundFrame : List ℤ := [2014, 2014, 0, 0, 0, 0, 0, 0, 177] ++ replicate 71 0

def silentFrame : List ℤ := replicate 80 0

theorem isFrame_soundFrame : IsFrame 8000 soundFrame where
  length_eq := ⟨8, 3, rfl, rfl⟩
  isWord16 := by decide

theorem isFrame_silentFrame : IsFrame 8000 silentFrame where
  length_eq := ⟨8, 3, rfl, rfl⟩
  isWord16 := by decide

theorem computeDigitalGains_overflows :
    IsFrame 8000 soundFrame ∧ IsFrame 8000 silentFrame ∧ (⟨12, 60, 0⟩ : AgcConfig).Valid ∧
      gateDifference 78 (2 ^ 23) = none ∧
      ∃ s t, configured .fixedDigital ⟨12, 60, 0⟩ = some (some s) ∧
        (Call.computeDigitalGains soundFrame 0 ::
          replicate 67 (.computeDigitalGains silentFrame 0)).foldlM (step 8000) s = some t ∧
        (∃ gain₀, t.gainTable[0]? = some gain₀ ∧
          levelGain t.gainTable t.capacitorSlow = some (gain₀ + 2 ^ 23)) ∧
        t.computeDigitalGains silentFrame 8000 0 = none := by
  have hrun : (configured .fixedDigital ⟨12, 60, 0⟩).join.any fun s =>
      ((Call.computeDigitalGains soundFrame 0 ::
        replicate 67 (.computeDigitalGains silentFrame 0)).foldlM (step 8000) s).any fun t =>
          (t.gainTable[0]?.any fun gain₀ =>
            levelGain t.gainTable t.capacitorSlow = some (gain₀ + 2 ^ 23)) &&
          (t.computeDigitalGains silentFrame 8000 0).isNone := by
    decide +kernel
  refine ⟨isFrame_soundFrame, isFrame_silentFrame,
    ⟨by decide, by decide, by decide, by decide, by decide⟩, by decide, ?_⟩
  simp only [Option.any_eq_true, Bool.and_eq_true, decide_eq_true_eq, isNone_iff_eq_none,
    join_eq_some_iff] at hrun
  obtain ⟨s, hs, t, ht, hg, hn⟩ := hrun
  exact ⟨s, t, hs, ht, hg, hn⟩

end DigitalAgc

end WebRtcAudio.Agc
