import WebRtcAudio.CommonAudio.ScaledSums

/-! The voice activity decision of `TimeStretch::Process`. -/
namespace WebRtcAudio.NetEq

open WebRtcAudio.Core CommonAudio List

def energyScaling (maxInputValue : ℤ) (peakIndex : ℕ) : ℕ :=
  31 - normW32 (maxInputValue * maxInputValue) - normW32 peakIndex

/-- The background noise has no energy until it is initialized. -/
def speechDetection (vec1Energy vec2Energy : ℤ) (peakIndex scaling : ℕ)
    (backgroundNoise : Option ℤ) : Option Bool := do
  let leftSide := max word32Min (min ((vec1Energy + vec2Energy).tdiv 16) word32Max)
  let rightSide := backgroundNoise.getD 75000
  let rightScale := 16 - normW32 rightSide
  let leftSide := leftSide / 2 ^ rightScale
  let rightSide ← int32? (peakIndex * (rightSide / 2 ^ rightScale))
  let tempScale := normW32 leftSide
  return if tempScale < 2 * scaling then
    leftSide * 2 ^ tempScale > rightSide / 2 ^ (2 * scaling - tempScale)
  else leftSide * 2 ^ (2 * scaling) > rightSide

def segments (signal : List ℤ) (fsMult peakIndex : ℕ) : List ℤ × List ℤ :=
  ((signal.drop (fsMult * 120 - peakIndex)).take peakIndex,
    (signal.drop (fsMult * 120)).take peakIndex)

def activeSpeech (signal : List ℤ) (fsMult peakIndex : ℕ) (backgroundNoise : Option ℤ) :
    Option Bool :=
  let scaling := energyScaling (maxAbsValueW16 signal) peakIndex
  let (vec1, vec2) := segments signal fsMult peakIndex
  speechDetection (dotProductWithScale vec1 vec1 scaling) (dotProductWithScale vec2 vec2 scaling)
    peakIndex scaling backgroundNoise

def exactEnergy (v : List ℤ) : ℤ := (v.map fun x => x * x).sum

theorem dotProductWithScale_self (v : List ℤ) (s : ℕ) :
    0 ≤ dotProductWithScale v v s ∧ 2 ^ s * dotProductWithScale v v s ≤ exactEnergy v := by
  have hpow : (0 : ℤ) < 2 ^ s := by positivity
  have hsum : 0 ≤ (zipWith (fun a b => a * b / 2 ^ s) v v).sum ∧
      2 ^ s * (zipWith (fun a b => a * b / 2 ^ s) v v).sum ≤ exactEnergy v := by
    unfold exactEnergy
    induction v with
    | nil => simp
    | cons x v ih =>
      have hterm := Int.mul_ediv_self_le (x := x * x) hpow.ne'
      have hnonneg := Int.ediv_nonneg (mul_self_nonneg x) hpow.le
      simp only [zipWith_cons_cons, sum_cons, map_cons, mul_add]
      omega
  unfold dotProductWithScale word32Min word32Max
  refine ⟨by omega, le_trans (mul_le_mul_of_nonneg_left ?_ hpow.le) hsum.2⟩
  omega

/-- Scaled to 15 bits, the noise energy keeps at least half of its value. -/
theorem scaled_noise {b : ℤ} (hb : 0 ≤ b) (hlt : b < 2 ^ 31) :
    b ≤ 2 * (2 ^ (16 - normW32 b) * (b / 2 ^ (16 - normW32 b))) ∧
      b / 2 ^ (16 - normW32 b) < 2 ^ 15 := by
  have hpow : (0 : ℤ) < 2 ^ (16 - normW32 b) := by positivity
  obtain rfl | hpos := hb.eq_or_lt
  · simp
  lift b to ℕ using hb
  obtain ⟨hup, hlow⟩ := normW32_of_pos (a := b) (by omega) (by omega)
  obtain hn | hn := le_or_gt 16 (normW32 (b : ℤ))
  · have hle := Nat.mul_le_mul_left b (Nat.pow_le_pow_right two_pos hn)
    rw [Nat.sub_eq_zero_of_le hn]
    omega
  · have hs : 2 ^ (16 - normW32 (b : ℤ)) * 2 ^ normW32 (b : ℤ) = 2 ^ 16 := by
      rw [← Nat.pow_add, Nat.sub_add_cancel hn.le]
    have hlt15 : (b : ℤ) < 2 ^ 15 * 2 ^ (16 - normW32 (b : ℤ)) := by
      exact_mod_cast Nat.lt_of_mul_lt_mul_right (a := 2 ^ normW32 (b : ℤ)) (by nlinarith)
    have hge : (2 : ℤ) ^ (16 - normW32 (b : ℤ)) ≤ b := by
      rw [Nat.pow_succ _ (normW32 _), ← Nat.mul_assoc] at hlow
      exact_mod_cast Nat.le_of_mul_le_mul_right (hs.trans_le (by omega)) (Nat.two_pow_pos _)
    have hquot : 1 ≤ (b : ℤ) / 2 ^ (16 - normW32 (b : ℤ)) :=
      Int.le_ediv_of_mul_le hpow (by omega)
    have hrest := Int.lt_mul_ediv_self_add (x := b) hpow
    exact ⟨by nlinarith, Int.ediv_lt_of_lt_mul hpow hlt15⟩

theorem speechDetection_passive {e1 e2 : ℤ} {peakIndex scaling : ℕ} {noise : Option ℤ}
    (hpeak : peakIndex < 2 ^ 16) (he1 : 0 ≤ e1) (he2 : 0 ≤ e2) (hb : 0 ≤ noise.getD 75000)
    (hlt : noise.getD 75000 < 2 ^ 31)
    (h : 2 ^ (2 * scaling) * (e1 + e2) ≤ 8 * peakIndex * noise.getD 75000) :
    speechDetection e1 e2 peakIndex scaling noise = some false := by
  obtain ⟨hh, hword⟩ := scaled_noise hb hlt
  simp only [speechDetection]
  generalize noise.getD 75000 = b at *
  generalize 16 - normW32 b = r at *
  have hr : (0 : ℤ) < 2 ^ r := by positivity
  have hs : (0 : ℤ) < 2 ^ (2 * scaling) := by positivity
  have hquot : 0 ≤ b / 2 ^ r := Int.ediv_nonneg hb hr.le
  have hp : (peakIndex : ℤ) * (b / 2 ^ r) < 2 ^ 31 := by nlinarith
  have hleft : 16 * max word32Min (min ((e1 + e2).tdiv 16) word32Max) ≤ e1 + e2 := by
    rw [Int.tdiv_eq_ediv_of_nonneg (by omega)]
    unfold word32Min word32Max
    omega
  rw [int32?_bind ⟨by nlinarith, hp⟩]
  generalize max word32Min (min ((e1 + e2).tdiv 16) word32Max) = left at *
  have hshift : 2 ^ r * (left / 2 ^ r) ≤ left := Int.mul_ediv_self_le hr.ne'
  generalize left / 2 ^ r = l at *
  have hscaled : l * 2 ^ (2 * scaling) ≤ peakIndex * (b / 2 ^ r) := by
    refine le_of_mul_le_mul_left ?_ (by positivity : (0 : ℤ) < 16 * 2 ^ r)
    calc 16 * 2 ^ r * (l * 2 ^ (2 * scaling)) = 2 ^ (2 * scaling) * (16 * (2 ^ r * l)) := by ring
      _ ≤ 2 ^ (2 * scaling) * (e1 + e2) := mul_le_mul_of_nonneg_left (by omega) hs.le
      _ ≤ 8 * peakIndex * (2 * (2 ^ r * (b / 2 ^ r))) :=
        h.trans (mul_le_mul_of_nonneg_left hh (by positivity))
      _ = 16 * 2 ^ r * (peakIndex * (b / 2 ^ r)) := by ring
  split_ifs with hn
  · have hdiv : l * 2 ^ normW32 l ≤ peakIndex * (b / 2 ^ r) / 2 ^ (2 * scaling - normW32 l) := by
      refine Int.le_ediv_of_mul_le (by positivity) ?_
      rwa [mul_assoc, ← pow_add, Nat.add_sub_cancel' hn.le]
    simpa using hdiv
  · simpa using hscaled

/-- The signal is passive if its energy, scaled up by `2 ^ scaling`, is at most half of the
documented threshold. -/
theorem activeSpeech_passive {signal : List ℤ} {fsMult peakIndex : ℕ} {noise : Option ℤ}
    (hfs : fsMult ≤ 6) (hpeak : peakIndex ≤ 119 * fsMult) (hnoise : ∀ e ∈ noise, 0 ≤ e ∧ e < 2 ^ 31)
    (h : 2 ^ energyScaling (maxAbsValueW16 signal) peakIndex *
      (exactEnergy (segments signal fsMult peakIndex).1 +
        exactEnergy (segments signal fsMult peakIndex).2) ≤ 8 * peakIndex * noise.getD 75000) :
    activeSpeech signal fsMult peakIndex noise = some false := by
  have hb : 0 ≤ noise.getD 75000 ∧ noise.getD 75000 < 2 ^ 31 := by
    cases noise with
    | none => decide
    | some e => exact hnoise e rfl
  generalize hs : energyScaling (maxAbsValueW16 signal) peakIndex = s at h
  obtain ⟨hpos1, hle1⟩ := dotProductWithScale_self (segments signal fsMult peakIndex).1 s
  obtain ⟨hpos2, hle2⟩ := dotProductWithScale_self (segments signal fsMult peakIndex).2 s
  unfold activeSpeech
  rw [hs]
  refine speechDetection_passive (by omega) hpos1 hpos2 hb.1 hb.2 (le_trans ?_ h)
  rw [two_mul, pow_add, mul_assoc, mul_add]
  exact mul_le_mul_of_nonneg_left (add_le_add hle1 hle2) (by positivity)

theorem activeSpeech_passive_quiet :
    energyScaling (maxAbsValueW16 (32767 :: replicate 239 100)) 20 = 4 ∧
      activeSpeech (32767 :: replicate 239 100) 1 20 none = some false :=
  ⟨by decide +kernel, activeSpeech_passive (by decide) (by decide) (by simp) (by decide +kernel)⟩

/-- After a loud sample before the segments, energies below half of the threshold are taken for
speech, whichever pitch period is found. -/
theorem activeSpeech_scaled_twice : (range' 20 100).Forall fun peakIndex =>
    exactEnergy (segments (32767 :: replicate 239 500) 1 peakIndex).1 +
        exactEnergy (segments (32767 :: replicate 239 500) 1 peakIndex).2 ≤ 8 * peakIndex * 75000 ∧
    activeSpeech (32767 :: replicate 239 500) 1 peakIndex none = some true := by
  decide +kernel

end WebRtcAudio.NetEq
