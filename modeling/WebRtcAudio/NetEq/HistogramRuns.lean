import WebRtcAudio.Core.PartialLoop
import WebRtcAudio.NetEq.Histogram

/-! The buckets always sum up to 1 in Q30. -/
namespace WebRtcAudio.NetEq.Histogram

open WebRtcAudio.Core List

theorem mul_sum_div_le (k : ℤ) (hk : 0 < k) (l : List ℤ) : k * (l.map (· / k)).sum ≤ l.sum := by
  induction l with
  | nil => simp
  | cons x l ih =>
    have hx := Int.mul_ediv_self_le (x := x) (k := k) hk.ne'
    rw [map_cons, sum_cons, sum_cons, Int.mul_add]
    omega

theorem sum_le_mul_sum_div (k : ℤ) (hk : 0 < k) (l : List ℤ) :
    l.sum ≤ k * (l.map (· / k)).sum + (k - 1) * l.length := by
  induction l with
  | nil => simp
  | cons x l ih =>
    have hx := Int.lt_mul_ediv_self_add (x := x) hk
    rw [map_cons, sum_cons, sum_cons, Int.mul_add, length_cons, Nat.cast_succ, Int.mul_add]
    omega

theorem sum_map_mul (l : List ℤ) (f : ℤ) : (l.map (· * f)).sum = l.sum * f := by
  induction l with
  | nil => simp
  | cons x l ih => rw [map_cons, sum_cons, sum_cons, ih, Int.add_mul]

variable {l buckets : List ℤ}

theorem sum_modify {i : ℕ} (hi : i < l.length) (w : ℤ) : (l.modify i (· + w)).sum = l.sum + w := by
  induction l generalizing i with
  | nil => simp at hi
  | cons x l ih =>
    cases i with
    | zero => simp only [modify_zero_cons, sum_cons]; omega
    | succ i =>
      rw [modify_succ_cons, sum_cons, ih (by simpa using hi), sum_cons]
      omega

theorem nonneg_modify (hl : ∀ b ∈ l, 0 ≤ b) (i : ℕ) {w : ℤ} (hw : 0 ≤ w) :
    ∀ b ∈ l.modify i (· + w), 0 ≤ b := by
  intro b hb
  obtain ⟨j, hj, rfl⟩ := List.mem_iff_getElem.mp hb
  rw [length_modify] at hj
  have hlj := hl _ (getElem_mem hj)
  rw [getElem_modify]
  split_ifs
  · omega
  · exact hlj

theorem correct_deficit (vectorSum : ℤ) (buckets : List ℤ) (hv : vectorSum ≤ 0)
    (hb : ∀ b ∈ buckets, 0 ≤ b) (hc : -vectorSum ≤ (buckets.map (· / 2 ^ 4)).sum) :
    (correct 1 vectorSum buckets).1 = 0 ∧ (correct 1 vectorSum buckets).2.length = buckets.length ∧
      (∀ b ∈ (correct 1 vectorSum buckets).2, 0 ≤ b) ∧
      (correct 1 vectorSum buckets).2.sum = buckets.sum - vectorSum := by
  induction buckets generalizing vectorSum with
  | nil =>
    have hz : vectorSum = 0 := by
      rw [map_nil, sum_nil] at hc
      omega
    subst hz
    simp [correct]
  | cons bucket buckets ih =>
    have hbucket : 0 ≤ bucket := hb bucket mem_cons_self
    have ht : ∀ b ∈ buckets, 0 ≤ b := fun b h => hb b (mem_cons_of_mem bucket h)
    rw [map_cons, sum_cons] at hc
    unfold correct
    rw [abs_of_nonpos hv, Int.one_mul]
    by_cases hl : -vectorSum ≤ bucket / 2 ^ 4
    · -- This bucket covers what is left.
      rw [min_eq_left hl]
      dsimp only
      rw [Int.add_right_neg, abs_zero, if_pos rfl]
      refine ⟨rfl, rfl, ?_, ?_⟩
      · intro b h
        rcases List.mem_cons.mp h with rfl | h
        · omega
        · exact ht b h
      · rw [sum_cons, sum_cons]
        omega
    · have hneg : vectorSum + bucket / 2 ^ 4 < 0 := by omega
      obtain ⟨hz, hlen, hpos, hsum⟩ := ih _ hneg.le ht (by omega)
      rw [min_eq_right (by omega)]
      dsimp only
      rw [if_neg (by rw [abs_eq_zero]; exact hneg.ne)]
      refine ⟨hz, ?_, ?_, ?_⟩
      · rw [length_cons, hlen, length_cons]
      · intro b h
        rcases List.mem_cons.mp h with rfl | h
        · omega
        · exact hpos b h
      · rw [sum_cons, hsum, sum_cons]
        omega

/-- `n` buckets that are not negative and sum up to one in Q30. -/
structure Distribution (n : ℕ) (buckets : List ℤ) : Prop where
  length_eq : buckets.length = n
  nonneg : ∀ b ∈ buckets, 0 ≤ b
  sum_eq : buckets.sum = 2 ^ 30

variable {f value : ℤ} {n : ℕ}

theorem Distribution.deficit (h : Distribution n buckets) :
    (buckets.map fun b => b * f / 2 ^ 15).sum ≤ f * 2 ^ 15 ∧
      f * 2 ^ 15 ≤ (buckets.map fun b => b * f / 2 ^ 15).sum + n := by
  have hmap : (buckets.map fun b => b * f / 2 ^ 15) = (buckets.map (· * f)).map (· / 2 ^ 15) := by
    rw [List.map_map]
    rfl
  have hle := mul_sum_div_le (2 ^ 15) (by decide) (buckets.map (· * f))
  have hge := sum_le_mul_sum_div (2 ^ 15) (by decide) (buckets.map (· * f))
  rw [sum_map_mul, h.sum_eq] at hle hge
  rw [length_map, h.length_eq] at hge
  rw [hmap]
  omega

theorem Distribution.addToBuckets (h : Distribution n buckets) (hn : n ≤ 2 ^ 25) (hf : 0 ≤ f)
    (hf' : f ≤ 2 ^ 15) (hv : 0 ≤ value) (hval' : value < n) :
    ∃ updated, Histogram.addToBuckets buckets f value = some updated ∧ Distribution n updated := by
  obtain ⟨hle, hge⟩ := h.deficit (f := f)
  unfold Histogram.addToBuckets
  rw [if_pos ⟨hv, by rwa [h.length_eq]⟩]
  dsimp only
  generalize hscaled : (buckets.map fun b => b * f / 2 ^ 15) = scaled at hle hge ⊢
  have hlen : scaled.length = n := by rw [← hscaled, length_map, h.length_eq]
  have hs : ∀ b ∈ scaled, 0 ≤ b := by
    intro b hb
    rw [← hscaled] at hb
    obtain ⟨c, hc, rfl⟩ := List.mem_map.mp hb
    exact Int.ediv_nonneg (Int.mul_nonneg (h.nonneg c hc) hf) (by decide)
  generalize hincreased : scaled.modify value.toNat (· + (32768 - f) * 2 ^ 15) = increased
  have hi : increased.length = n := by rw [← hincreased, length_modify, hlen]
  have hincreasedSum : increased.sum = scaled.sum + (32768 - f) * 2 ^ 15 := by
    rw [← hincreased, sum_modify (by omega)]
  have hnonneg : ∀ b ∈ increased, 0 ≤ b := by
    rw [← hincreased]
    exact nonneg_modify hs _ (by omega)
  by_cases hz : scaled.sum + (32768 - f) * 2 ^ 15 - 2 ^ 30 = 0
  · rw [if_neg (not_not.mpr hz)]
    dsimp only
    rw [if_pos hz]
    exact ⟨increased, rfl, hi, hnonneg, by omega⟩
  · -- The sixteenths of at most 2^25 buckets sum up to at least one unit for each of them.
    have hcover := sum_le_mul_sum_div (2 ^ 4) (by decide) increased
    rw [hi, hincreasedSum] at hcover
    obtain ⟨hr, hcorrected, hpos, hsum⟩ := correct_deficit
      (scaled.sum + (32768 - f) * 2 ^ 15 - 2 ^ 30) increased (by omega) hnonneg (by omega)
    rw [if_pos hz, if_neg (by omega : ¬ 0 < scaled.sum + (32768 - f) * 2 ^ 15 - 2 ^ 30),
      if_pos hr]
    exact ⟨_, rfl, by rw [hcorrected, hi], hpos, by rw [hsum, hincreasedSum]; omega⟩

theorem length_resetBuckets (n tempProb : ℕ) : (resetBuckets n tempProb).length = n := by
  induction n generalizing tempProb with
  | zero => rfl
  | succ n ih => rw [resetBuckets, length_cons, ih]

theorem nonneg_resetBuckets (n tempProb : ℕ) : ∀ b ∈ resetBuckets n tempProb, 0 ≤ b := by
  induction n generalizing tempProb with
  | zero => simp [resetBuckets]
  | succ n ih =>
    intro b hb
    rcases List.mem_cons.mp hb with rfl | hb
    · exact Int.natCast_nonneg _
    · exact ih _ b hb

theorem sum_resetBuckets_of_lt {tempProb : ℕ} (h : tempProb < 2) :
    (resetBuckets n tempProb).sum = 0 := by
  induction n generalizing tempProb with
  | zero => rfl
  | succ n ih =>
    have hz : tempProb / 2 = 0 := Nat.div_eq_of_lt h
    rw [resetBuckets, sum_cons, hz, ih (by decide)]
    rfl

theorem distribution_resetBuckets (hn : 14 ≤ n) : Distribution n (resetBuckets n 0x4002) := by
  refine ⟨length_resetBuckets n _, nonneg_resetBuckets n _, ?_⟩
  obtain ⟨m, rfl⟩ := Nat.exists_eq_add_of_le' hn
  have hr := sum_resetBuckets_of_lt (n := m) (by decide : 1 < 2)
  simp only [resetBuckets, sum_cons, Nat.reduceDiv, hr]
  decide

def Rising (start : Option (ℕ → ℤ)) : Prop := ∀ factor ∈ start, ∀ k, factor k ≤ factor (k + 1)

structure Valid (n : ℕ) (base : ℤ) (start : Option (ℕ → ℤ)) (h : Histogram) : Prop where
  distribution : Distribution n h.buckets
  base_eq : h.baseForgetFactor = base
  start_eq : h.startForgetFactor = start
  nonneg : 0 ≤ h.forgetFactor
  le_base : h.forgetFactor ≤ base
  /-- The factor is the base or not above what the start weight gave. -/
  paced : ∀ factor ∈ start,
    h.forgetFactor = base ∨ h.forgetFactor ≤ max 0 (min base (factor h.addCount))

variable {n : ℕ} {base : ℤ} {start : Option (ℕ → ℤ)} {h : Histogram}

theorem Valid.nextForgetFactor (hv : Valid n base start h) (addCount : ℕ) :
    0 ≤ h.nextForgetFactor addCount ∧ h.nextForgetFactor addCount ≤ base ∧
      ∀ factor ∈ start, h.nextForgetFactor addCount = base ∨
        h.nextForgetFactor addCount ≤ max 0 (min base (factor addCount)) := by
  have hn := hv.nonneg
  have hle := hv.le_base
  unfold Histogram.nextForgetFactor
  rw [hv.start_eq, hv.base_eq]
  cases start with
  | none =>
    dsimp only
    exact ⟨by omega, by omega, by simp⟩
  | some factor =>
    dsimp only
    split_ifs with hne
    · refine ⟨by omega, by omega, fun g hg => .inr ?_⟩
      cases hg
      exact Int.le_refl _
    · exact ⟨hn, hle, fun _ _ => .inl (not_not.mp hne)⟩

theorem Valid.forgetFactor_le (hv : Valid n base start h) (hr : Rising start) :
    h.forgetFactor ≤ h.nextForgetFactor (h.addCount + 1) := by
  have hle := hv.le_base
  unfold Histogram.nextForgetFactor
  rw [hv.start_eq, hv.base_eq]
  cases start with
  | none => dsimp only; omega
  | some factor =>
    dsimp only
    split_ifs with hne
    · have hstep := hr factor rfl h.addCount
      rcases hv.paced factor rfl with hb | hb
      · exact absurd hb hne
      · omega
    · exact Int.le_refl _

theorem Valid.add (hv : Valid n base start h) (hn : n ≤ 2 ^ 25) (hbase : base ≤ 2 ^ 15)
    (hvalue : 0 ≤ value ∧ value < n) : ∃ t, h.add value = some t ∧ Valid n base start t ∧
      t.forgetFactor = h.nextForgetFactor (h.addCount + 1) := by
  have hle := hv.le_base
  obtain ⟨buckets, hadd, hd⟩ :=
    hv.distribution.addToBuckets hn hv.nonneg (by omega) hvalue.1 hvalue.2
  obtain ⟨hnonneg, hnextle, hp⟩ := hv.nextForgetFactor (h.addCount + 1)
  refine ⟨{ h with
    buckets := buckets
    addCount := h.addCount + 1
    forgetFactor := h.nextForgetFactor (h.addCount + 1) }, ?_, ?_, rfl⟩
  · unfold Histogram.add
    rw [hadd]
    rfl
  · exact ⟨hd, hv.base_eq, hv.start_eq, hnonneg, hnextle, hp⟩

theorem valid_reset (hn : 14 ≤ h.buckets.length) (hb : 0 ≤ h.baseForgetFactor) :
    Valid h.buckets.length h.baseForgetFactor h.startForgetFactor h.reset :=
  ⟨distribution_resetBuckets hn, rfl, rfl, Int.le_refl 0, hb, fun _ _ => .inr (by simp [reset])⟩

def IsQuantile (buckets : List ℤ) (probability : ℤ) (index : ℕ) : Prop :=
  index < buckets.length ∧ probability ≤ (buckets.take (index + 1)).sum ∧
    ∀ j < index, (buckets.take (j + 1)).sum < probability

theorem quantileFrom_spec (inverse sum : ℤ) (index : ℕ) (buckets : List ℤ)
    (hall : sum - buckets.sum ≤ inverse) :
    ∃ k, quantileFrom inverse sum index buckets = index + k ∧ k ≤ buckets.length ∧
      sum - (buckets.take k).sum ≤ inverse ∧ ∀ j < k, inverse < sum - (buckets.take j).sum := by
  induction buckets generalizing sum index with
  | nil => exact ⟨0, rfl, Nat.le_refl 0, by simpa using hall, by simp⟩
  | cons bucket buckets ih =>
    unfold quantileFrom
    split_ifs with hm
    · rw [sum_cons] at hall
      obtain ⟨k, heq, hk, hstop, hb⟩ := ih (sum - bucket) (index + 1) (by omega)
      refine ⟨k + 1, by rw [heq]; omega, by rw [length_cons]; omega, ?_, fun j hj => ?_⟩
      · rw [take_succ_cons, sum_cons]
        omega
      · cases j with
        | zero => simpa using hm
        | succ j =>
          have hj' := hb j (by omega)
          rw [take_succ_cons, sum_cons]
          omega
    · exact ⟨0, rfl, Nat.zero_le _, by simpa using hm, by simp⟩

theorem Distribution.quantile (hd : Distribution n h.buckets) {p : ℤ}
    (hp : p ≤ 2 ^ 30) : ∃ index, h.quantile p = some index ∧ IsQuantile h.buckets p index := by
  unfold Histogram.quantile
  have hsum := hd.sum_eq
  cases hb : h.buckets with
  | nil =>
    rw [hb] at hsum
    exact absurd hsum (by decide)
  | cons bucket buckets =>
    rw [hb, sum_cons] at hsum
    obtain ⟨k, heq, hk, hstop, hbefore⟩ :=
      quantileFrom_spec (2 ^ 30 - p) (2 ^ 30 - bucket) 0 buckets (by omega)
    dsimp only
    refine ⟨k, by rw [heq, Nat.zero_add], by rw [length_cons]; omega, ?_, fun j hj => ?_⟩
    · rw [take_succ_cons, sum_cons]
      omega
    · have hj' := hbefore j hj
      rw [take_succ_cons, sum_cons]
      omega

/-- After a reset and any updates, and whatever factors are chosen for them, the buckets are a
distribution; the factor stays in its range and does not decrease, and quantiles are exact. -/
theorem reset_adds (h : Histogram) (hn : 14 ≤ h.buckets.length) (hn' : h.buckets.length ≤ 2 ^ 25)
    (hbase : 0 ≤ h.baseForgetFactor) (hbase' : h.baseForgetFactor < 2 ^ 15) :
    (∀ values : List ℤ, (∀ v ∈ values, 0 ≤ v ∧ v < h.buckets.length) →
      ∃ t, values.foldlM add h.reset = some t ∧ Distribution h.buckets.length t.buckets ∧
        0 ≤ t.forgetFactor ∧ t.forgetFactor ≤ h.baseForgetFactor ∧
        (Rising h.startForgetFactor → ∀ v : ℤ, 0 ≤ v ∧ v < h.buckets.length →
          ∃ u, t.add v = some u ∧ t.forgetFactor ≤ u.forgetFactor) ∧
        ∀ p, 0 < p → p ≤ 2 ^ 30 →
          ∃ index, t.quantile p = some index ∧ IsQuantile t.buckets p index) ∧
    ∀ steps : List (ℤ × ℤ), (∀ s ∈ steps, (0 ≤ s.1 ∧ s.1 ≤ h.baseForgetFactor) ∧
        0 ≤ s.2 ∧ s.2 < h.buckets.length) →
      ∃ buckets, steps.foldlM (fun b s => addToBuckets b s.1 s.2) h.reset.buckets = some buckets ∧
        Distribution h.buckets.length buckets ∧ ∀ p, 0 < p → p ≤ 2 ^ 30 →
          ∃ index, { h with buckets }.quantile p = some index ∧ IsQuantile buckets p index := by
  have hr := valid_reset hn hbase
  constructor
  · intro values hval
    obtain ⟨t, hrun, hv⟩ := exists_foldlM_invariant
      (Valid h.buckets.length h.baseForgetFactor h.startForgetFactor) (fun s v hmem hs => by
        obtain ⟨t, hadd, hv, -⟩ := hs.add hn' hbase'.le (hval v hmem)
        exact ⟨t, hadd, hv⟩) hr
    refine ⟨t, hrun, hv.distribution, hv.nonneg, hv.le_base, fun hrising v hvalue => ?_,
      fun p _ hp => hv.distribution.quantile hp⟩
    obtain ⟨u, hadd, -, hfactor⟩ := hv.add hn' hbase'.le hvalue
    exact ⟨u, hadd, hfactor ▸ hv.forgetFactor_le hrising⟩
  · intro steps hsteps
    obtain ⟨buckets, hrun, hd⟩ := exists_foldlM_invariant (Distribution h.buckets.length)
      (fun b s hmem hb => by
        obtain ⟨⟨hf, hf'⟩, hv, hv'⟩ := hsteps s hmem
        exact hb.addToBuckets hn' hf (by omega) hv hv') hr.distribution
    exact ⟨buckets, hrun, hd, fun p _ hp => Distribution.quantile (h := { h with buckets }) hd hp⟩

def smallHistogram : Histogram := ⟨List.replicate 14 0, 0, 32745, 0, none⟩

theorem reset_adds_smallHistogram : (smallHistogram.buckets.length = 14 ∧ Rising none) ∧
    ∃ t, [3, 0, 13].foldlM add smallHistogram.reset = some t ∧ t.buckets.sum = 2 ^ 30 ∧
      ∃ u, t.add 13 = some u ∧ t.forgetFactor ≤ u.forgetFactor := by
  have hr : Rising none := fun _ h => by cases h
  obtain ⟨t, hrun, hd, -, -, hf, -⟩ := (reset_adds smallHistogram (by decide) (by decide)
    (by decide) (by decide)).1 [3, 0, 13] (by decide)
  exact ⟨⟨rfl, hr⟩, t, hrun, hd.sum_eq, hf hr 13 (by decide)⟩

end WebRtcAudio.NetEq.Histogram
