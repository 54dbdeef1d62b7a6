import WebRtcAudio.CommonAudio.ScaledSums

/-! `CrossCorrelationWithAutoShift`, scaled by the largest magnitudes. -/
namespace WebRtcAudio.NetEq

open WebRtcAudio.Core CommonAudio List

def sampleAt (samples : List ℤ) (k : ℤ) : Option ℤ := if k < 0 then none else samples[k.toNat]?

def laggedSum (seq1 seq2 : List ℤ) (position : ℤ) (rightShifts : ℕ) : Option ℤ :=
  (List.range seq1.length).foldlM (fun corr (j : ℕ) => do
    let x ← seq1[j]?
    let y ← sampleAt seq2 (position + j)
    int32? (corr + x * y / 2 ^ rightShifts)) 0

/-- `WebRtcSpl_CrossCorrelation`, with `seq2` pointing to the sample at `position`. -/
def crossCorrelation (seq1 seq2 : List ℤ) (position : ℤ) (dimCrossCorrelation rightShifts : ℕ)
    (stepSeq2 : ℤ) : Option (List ℤ) :=
  (List.range dimCrossCorrelation).mapM fun (i : ℕ) =>
    laggedSum seq1 seq2 (position + stepSeq2 * i) rightShifts

def autoScaling (max1 max2 sequence1Length : ℤ) : ℕ :=
  let factor := (max1 * max2).tdiv ((2 ^ 31 - 1 : ℤ).tdiv sequence1Length)
  if factor = 0 then 0 else 31 - normW32 factor

/-- The samples of `memory` from `start` on, if there are as many. -/
def samplesFrom (memory : List ℤ) (start : ℤ) (length : ℕ) : Option (List ℤ) :=
  if 0 ≤ start ∧ start + length ≤ memory.length then some ((memory.drop start.toNat).take length)
  else none

/-- The second sequence is a position in `memory`, since the lags may go back from it. An empty
first sequence makes the code divide by zero. -/
def crossCorrelationWithAutoShift (sequence1 memory : List ℤ) (sequence2 crossCorrelationLength : ℕ)
    (crossCorrelationStep : ℤ) : Option (List ℤ × ℕ) := do
  let lastLag ← int32? (toInt32 crossCorrelationLength - 1)
  let sequence2Shift ← int32? (crossCorrelationStep * lastLag)
  let sequence2Start := if sequence2Shift ≥ 0 then (sequence2 : ℤ) else sequence2 + sequence2Shift
  let distance ← int32? |sequence2Shift|
  let reached ← samplesFrom memory sequence2Start (sequence1.length + distance.toNat)
  let sequence1Length := toInt32 sequence1.length
  guard (sequence1Length ≠ 0)
  let scaling := autoScaling (maxAbsValueW16 sequence1) (maxAbsValueW16 reached) sequence1Length
  let sums ← crossCorrelation sequence1 memory sequence2 crossCorrelationLength scaling
    crossCorrelationStep
  return (sums, scaling)

theorem abs_le_maxAbsValueW16 {v : List ℤ} (hv : ∀ x ∈ v, IsWord16 x) (hl : -2 ^ 15 ∉ v) :
    0 ≤ maxAbsValueW16 v ∧ maxAbsValueW16 v < 2 ^ 15 ∧ ∀ x ∈ v, |x| ≤ maxAbsValueW16 v := by
  obtain ⟨hpos, hle⟩ := foldl_max_le_iff.mp (le_refl (v.foldl (fun m x => max m |x|) 0))
  unfold maxAbsValueW16
  refine ⟨by omega, by omega, fun x hx => le_min (hle x hx) ?_⟩
  have hne : x ≠ -2 ^ 15 := fun h => hl (h ▸ hx)
  obtain ⟨hlo, hhi⟩ := hv x hx
  exact abs_le.mpr ⟨by omega, by omega⟩

/-- Products up to that of the maxima, once scaled, are at most the share that each of the `n` terms
has of the range. -/
theorem abs_scaled_le {max1 max2 p : ℤ} {n : ℕ} (hmax : max1 * max2 < 2 ^ 31) (hn : 1 ≤ n)
    (hlarge : n ≤ 2 ^ 16) (hp : |p| ≤ max1 * max2) :
    |p / 2 ^ autoScaling max1 max2 n| ≤ (2 ^ 31 - 1) / n := by
  have hs : (0 : ℤ) < (2 ^ 31 - 1) / n := by
    rw [← Int.add_one_le_iff, Int.le_ediv_iff_mul_le (by omega)]
    omega
  have hpos : 0 ≤ max1 * max2 := (abs_nonneg p).trans hp
  have hfactor : max1 * max2 / ((2 ^ 31 - 1) / n) < 2 ^ autoScaling max1 max2 n := by
    obtain ⟨factor, hf⟩ := Int.eq_ofNat_of_zero_le (Int.ediv_nonneg hpos hs.le)
    have hle : (factor : ℤ) < 2 ^ 31 := hf ▸ (Int.ediv_le_self _ hpos).trans_lt hmax
    rw [autoScaling, Int.tdiv_eq_ediv_of_nonneg hpos, Int.tdiv_eq_ediv_of_nonneg (by norm_num), hf]
    split_ifs with hzero
    · omega
    · have hnorm := (normW32_of_pos (a := factor) (by omega) (by omega)).1
      have hb : normW32 factor < 31 := (Nat.pow_lt_pow_iff_right one_lt_two).mp
        ((Nat.le_mul_of_pos_left _ (by omega)).trans_lt hnorm)
      have hsplit : 2 ^ 31 = 2 ^ (31 - normW32 factor) * 2 ^ normW32 factor := by
        rw [← Nat.pow_add, Nat.sub_add_cancel hb.le]
      rw [hsplit] at hnorm
      exact_mod_cast Nat.lt_of_mul_lt_mul_right hnorm
  obtain ⟨hlo, hhi⟩ := abs_le.mp (hp.trans (Int.lt_mul_of_ediv_lt hs hfactor).le)
  have hpow : (0 : ℤ) < 2 ^ autoScaling max1 max2 n := by positivity
  rw [mul_comm] at hlo hhi
  exact abs_le.mpr ⟨Int.le_ediv_of_mul_le hpow (by linarith), Int.ediv_le_of_le_mul hpow hhi⟩

theorem exists_laggedSum {seq1 seq2 : List ℤ} {b : ℤ} {rightShifts : ℕ} (position : ℤ)
    (hlow : 0 ≤ position) (hhigh : position + seq1.length ≤ seq2.length)
    (hb : ∀ x ∈ seq1, ∀ y ∈ seq2, |x * y / 2 ^ rightShifts| ≤ b) (hsum : seq1.length * b < 2 ^ 31) :
    ∃ corr, laggedSum seq1 seq2 position rightShifts = some corr := by
  refine ⟨_, foldlM_int32? (b := b) (f := fun j =>
    seq1.getD j 0 * seq2.getD (position + j).toNat 0 / 2 ^ rightShifts) (fun j hj s => ?_)
    (fun j hj => ?_) (by simpa using hsum)⟩
  · rw [mem_range] at hj
    simp [sampleAt, show ¬ position + j < 0 by omega, getElem?_eq_getElem hj,
      getElem?_eq_getElem (show (position + j).toNat < seq2.length by omega)]
  · rw [mem_range] at hj
    rw [getD_eq_getElem _ _ hj, getD_eq_getElem _ _ (by omega)]
    exact hb _ (getElem_mem _) _ (getElem_mem _)

theorem samplesFrom_zero (memory : List ℤ) :
    samplesFrom memory 0 memory.length = some memory := by
  simp [samplesFrom]

/-- Without the least sample in what the lags reach, no sum leaves the range of 32 bits. -/
theorem crossCorrelationWithAutoShift_fits {sequence1 memory : List ℤ} {sequence2 lags : ℕ}
    {step : ℤ} (h1 : ∀ x ∈ sequence1, IsWord16 x) (h2 : ∀ x ∈ memory, IsWord16 x)
    (hleast1 : -2 ^ 15 ∉ sequence1) (hleast2 : -2 ^ 15 ∉ memory)
    (hpos : 1 ≤ sequence1.length) (hlarge : sequence1.length ≤ 2 ^ 16)
    (hstep : step = 1 ∨ step = -1) (hlags : lags < 2 ^ 31)
    (hlength : memory.length = sequence1.length + (step * (lags - 1)).natAbs)
    (hsequence2 : sequence2 = max 0 (-(step * (lags - 1)))) :
    (crossCorrelationWithAutoShift sequence1 memory sequence2 lags step).isSome := by
  obtain ⟨hm1, hlt1, hle1⟩ := abs_le_maxAbsValueW16 h1 hleast1
  obtain ⟨hm2, hlt2, hle2⟩ := abs_le_maxAbsValueW16 h2 hleast2
  have hmax : maxAbsValueW16 sequence1 * maxAbsValueW16 memory < 2 ^ 31 := by nlinarith
  have hb : ∀ x ∈ sequence1, ∀ y ∈ memory, |x * y / 2 ^ autoScaling
      (maxAbsValueW16 sequence1) (maxAbsValueW16 memory) sequence1.length| ≤
        (2 ^ 31 - 1) / sequence1.length := fun x hx y hy =>
    abs_scaled_le hmax hpos hlarge
      ((abs_mul x y).trans_le (mul_le_mul (hle1 x hx) (hle2 y hy) (abs_nonneg y) hm1))
  have hshare : (sequence1.length : ℤ) * ((2 ^ 31 - 1) / sequence1.length) < 2 ^ 31 := by
    have := Int.mul_ediv_self_le (x := 2 ^ 31 - 1) (k := sequence1.length) (by omega)
    omega
  obtain ⟨sums, hsums, -⟩ := exists_mapM_forall₂ (P := fun _ _ => True)
    fun i (hi : i ∈ List.range lags) => by
      rw [mem_range] at hi
      obtain ⟨corr, hc⟩ := exists_laggedSum (sequence2 + step * i)
        (by rcases hstep with rfl | rfl <;> omega) (by rcases hstep with rfl | rfl <;> omega)
        hb hshare
      exact ⟨corr, hc, trivial⟩
  have hr : memory.length = sequence1.length + |step * (lags - 1)|.toNat := by
    rw [hlength, Int.abs_eq_natAbs, Int.toNat_natCast]
  have hs : (if step * ((lags : ℤ) - 1) ≥ 0 then (sequence2 : ℤ)
      else sequence2 + step * (lags - 1)) = 0 := by
    split_ifs <;> omega
  have hshift : |step * ((lags : ℤ) - 1)| < 2 ^ 31 := by
    rcases hstep with rfl | rfl <;> rw [abs_lt] <;> omega
  have hnonneg := abs_nonneg (step * ((lags : ℤ) - 1))
  obtain ⟨hlo, hhi⟩ := abs_lt.mp hshift
  rw [crossCorrelationWithAutoShift, toInt32_eq_self (by omega), int32?_bind (by omega),
    int32?_bind (by omega)]
  dsimp only
  rw [int32?_bind (by omega), hs, ← hr, samplesFrom_zero, toInt32_eq_self (by omega)]
  have hne : sequence1 ≠ [] := ne_nil_of_length_pos hpos
  simp [crossCorrelation, hsums, guard, hne]

theorem crossCorrelationWithAutoShift_fits_backwards :
    (crossCorrelationWithAutoShift [32767, -32767] [32767, 32767, -32767] 1 2 (-1)).isSome :=
  crossCorrelationWithAutoShift_fits (by decide) (by decide) (by decide) (by decide) (by decide)
    (by decide) (.inr rfl) (by decide) rfl rfl

theorem crossCorrelationWithAutoShift_overflows :
    crossCorrelationWithAutoShift [-32768, -32768] [-32768, -32768] 0 1 1 = none ∧
      crossCorrelationWithAutoShift [-32768, -32768, -32768, -32768]
        [-16384, -16384, -16384, -16384] 0 1 1 = none := by
  decide

end WebRtcAudio.NetEq
