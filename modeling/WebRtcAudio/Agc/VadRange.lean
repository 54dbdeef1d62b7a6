import WebRtcAudio.Agc.AgcVad
import WebRtcAudio.CommonAudio.SplRange
import WebRtcAudio.Core.PartialLoop

/-! No signed operation overflows in the voice activity detector, after any frames of 16-bit
samples. -/
namespace WebRtcAudio.Agc

open WebRtcAudio.Core WebRtcAudio.CommonAudio Option

structure AgcVad.InRange (v : AgcVad) : Prop where
  downState_bounded : v.downState.Bounded
  counter_mem : 0 ≤ v.counter ∧ v.counter ≤ 250
  logRatio_mem : -2048 ≤ v.logRatio ∧ v.logRatio ≤ 2048
  meanLongTerm_mem : IsWord16 v.meanLongTerm
  varianceLongTerm_mem : 0 ≤ v.varianceLongTerm ∧ v.varianceLongTerm ≤ 2 ^ 18
  meanShortTerm_mem : IsWord16 v.meanShortTerm
  varianceShortTerm_mem : 0 ≤ v.varianceShortTerm ∧ v.varianceShortTerm ≤ 2 ^ 18

theorem AgcVad.inRange_init : AgcVad.init.InRange where
  downState_bounded := ⟨Allpass.bounded_zero allpassFits_lower,
    Allpass.bounded_zero allpassFits_upper⟩
  counter_mem := by decide
  logRatio_mem := by decide
  meanLongTerm_mem := by decide
  varianceLongTerm_mem := by decide
  meanShortTerm_mem := by decide
  varianceShortTerm_mem := by decide

theorem isWord16_halveRate {samples : List ℤ} (h : ∀ x ∈ samples, IsWord16 x) :
    ∀ x ∈ halveRate samples, IsWord16 x := by
  fun_induction halveRate samples with
  | case1 x y rest ih =>
    have hx := h x (by simp)
    have hy := h y (by simp)
    rw [List.forall_mem_cons]
    refine ⟨?_, ih fun z hz => h z (by simp [hz])⟩
    unfold IsWord16 at *
    omega
  | case2 samples hne => simp

variable {input : List ℤ}

theorem exists_downsampleSubframe (hi : ∀ x ∈ input, IsWord16 x) (nrSamples subfr : ℕ)
    {s : FilterState} (hs : s.Bounded) :
    ∃ samples t, downsampleSubframe input nrSamples subfr s = some (samples, t) ∧ t.Bounded := by
  have hp (n m : ℕ) : ∀ x ∈ (input.drop n).take m, IsWord16 x := fun x hx =>
    hi x (List.mem_of_mem_drop (List.mem_of_mem_take hx))
  unfold downsampleSubframe
  split
  · exact hs.exists_downsampleBy2 (isWord16_halveRate (hp _ _))
  · exact hs.exists_downsampleBy2 (hp _ _)

theorem exists_subframes (hi : ∀ x ∈ input, IsWord16 x) (nrSamples : ℕ) {v : AgcVad}
    (hv : v.downState.Bounded) : ∃ r, subframes input nrSamples v = some r ∧ r.1.Bounded := by
  apply exists_foldlM_invariant (fun r : FilterState × ℤ × ℕ => r.1.Bounded) ?_ hv
  rintro ⟨s, hpState, nrg⟩ subfr - hs
  obtain ⟨samples, t, ht, hb⟩ := exists_downsampleSubframe hi nrSamples subfr hs
  refine ⟨(t, highPass samples hpState nrg), ?_, hb⟩
  simp only [ht, bind_eq_bind, bind_some]
  rfl

theorem vadZeros_le (nrg : ℕ) : vadZeros nrg ≤ 31 := by
  unfold vadZeros
  dsimp only
  split_ifs <;> omega

theorem exists_vadStd {variance mean : ℤ} (hv : 0 ≤ variance ∧ variance ≤ 2 ^ 18)
    (hm : IsWord16 mean) : ∃ std, vadStd variance mean = some std := by
  obtain ⟨hl, hu⟩ := hm
  have hs : 0 ≤ mean * mean ∧ mean * mean ≤ 2 ^ 30 := by constructor <;> nlinarith
  rw [vadStd, int32?_bind (by omega), int32?_bind (by omega)]
  obtain ⟨root, hr⟩ := exists_sqrt (variance * 2 ^ 12 - mean * mean)
    (by unfold word32Min; omega) (by unfold word32Max; omega)
  rw [hr]
  exact ⟨_, rfl⟩

def IsLevel (dB : ℤ) : Prop := 0 ≤ dB * dB / 2 ^ 12 ∧ dB * dB / 2 ^ 12 ≤ 2 ^ 18

theorem isLevel_of_zeros {zeros : ℕ} (h : zeros ≤ 31) : IsLevel ((15 - zeros : ℤ) * 2 ^ 11) := by
  have hsquare : 0 ≤ (15 - zeros : ℤ) * (15 - zeros) ∧ (15 - zeros : ℤ) * (15 - zeros) ≤ 2 ^ 8 := by
    constructor <;> nlinarith
  have hs : (15 - zeros : ℤ) * 2 ^ 11 * ((15 - zeros) * 2 ^ 11) =
      (15 - zeros) * (15 - zeros) * 2 ^ 10 * 2 ^ 12 := by ring
  unfold IsLevel
  rw [hs, Int.mul_ediv_cancel _ (by decide)]
  omega

section
variable {v : AgcVad} (h : v.InRange)
include h

theorem AgcVad.InRange.exists_updateShortTerm {dB : ℤ}
    (hdB : IsLevel dB) : ∃ w, v.updateShortTerm dB = some w ∧ w.InRange := by
  obtain ⟨hlow, hd⟩ := hdB
  obtain ⟨hvl, hvu⟩ := h.varianceShortTerm_mem
  have hv : 0 ≤ (dB * dB / 2 ^ 12 + v.varianceShortTerm * 15).tdiv 16 ∧
      (dB * dB / 2 ^ 12 + v.varianceShortTerm * 15).tdiv 16 ≤ 2 ^ 18 := by
    rw [Int.tdiv_eq_ediv_of_nonneg (by omega)]
    omega
  obtain ⟨std, hstd⟩ := exists_vadStd hv
    (isWord16_toInt16 ((v.meanShortTerm * 15 + dB) / 2 ^ 4))
  rw [updateShortTerm, int32?_bind (by omega), int32?_bind (by omega)]
  dsimp only
  rw [hstd]
  exact ⟨_, rfl, { h with
    meanShortTerm_mem := isWord16_toInt16 _
    varianceShortTerm_mem := hv }⟩

theorem AgcVad.InRange.exists_updateLongTerm {dB : ℤ}
    (hdB : IsLevel dB) : ∃ w, v.updateLongTerm dB = some w ∧ w.InRange := by
  obtain ⟨hlow, hd⟩ := hdB
  obtain ⟨hvl, hvu⟩ := h.varianceLongTerm_mem
  obtain ⟨hcl, hcu⟩ := h.counter_mem
  have hc : addSatW16 v.counter 1 = v.counter + 1 := by
    unfold addSatW16 satW32ToW16
    omega
  have hw : 0 ≤ v.varianceLongTerm * v.counter ∧
      v.varianceLongTerm * v.counter ≤ 2 ^ 18 * v.counter := by
    constructor <;> nlinarith
  have hm : IsWord16
      (divW32W16ResW16 (v.meanLongTerm * v.counter + dB) (addSatW16 v.counter 1)) := by
    rw [divW32W16ResW16, if_neg (by omega)]
    exact isWord16_toInt16 _
  have hv :
      0 ≤ divW32W16 (dB * dB / 2 ^ 12 + v.varianceLongTerm * v.counter) (addSatW16 v.counter 1) ∧
      divW32W16 (dB * dB / 2 ^ 12 + v.varianceLongTerm * v.counter) (addSatW16 v.counter 1) ≤
        2 ^ 18 := by
    rw [hc, divW32W16, if_neg (by omega), Int.tdiv_eq_ediv_of_nonneg (by omega)]
    exact ⟨Int.ediv_nonneg (by omega) (by omega), Int.ediv_le_of_le_mul (by omega) (by linarith)⟩
  obtain ⟨std, hstd⟩ := exists_vadStd hv hm
  rw [updateLongTerm, int32?_bind (by omega), int32?_bind (by omega)]
  dsimp only
  rw [hstd]
  exact ⟨_, rfl, { h with meanLongTerm_mem := hm, varianceLongTerm_mem := hv }⟩

theorem AgcVad.InRange.updateLogRatio (dB : ℤ) : (v.updateLogRatio dB).InRange := by
  refine { h with logRatio_mem := ?_ }
  dsimp only [AgcVad.updateLogRatio]
  omega

theorem AgcVad.InRange.exists_processVad (hi : ∀ x ∈ input, IsWord16 x) (nrSamples : ℕ) :
    ∃ w, v.processVad input nrSamples = some w ∧ w.InRange := by
  obtain ⟨⟨downState, hpState, nrg⟩, hsub, hb⟩ :=
    exists_subframes hi nrSamples h.downState_bounded
  have hl := isLevel_of_zeros (vadZeros_le nrg)
  have hc : 0 ≤ (if v.counter < 250 then v.counter + 1 else v.counter) ∧
      (if v.counter < 250 then v.counter + 1 else v.counter) ≤ 250 := by
    have := h.counter_mem
    split_ifs <;> omega
  have hs : AgcVad.InRange { v with
      downState, hpState, counter := if v.counter < 250 then v.counter + 1 else v.counter } :=
    { h with downState_bounded := hb, counter_mem := hc }
  obtain ⟨w, hw, hr⟩ := hs.exists_updateShortTerm hl
  obtain ⟨w', hw', hr'⟩ := hr.exists_updateLongTerm hl
  refine ⟨_, ?_, hr'.updateLogRatio ((15 - vadZeros nrg : ℤ) * 2 ^ 11)⟩
  simp only [processVad, hsub, hw, hw', bind_eq_bind, bind_some]
  rfl

end

end WebRtcAudio.Agc
