import Mathlib.Algebra.Order.BigOperators.Group.List
import Mathlib.Data.List.GetD
import WebRtcAudio.CommonAudio.SplRange
import WebRtcAudio.Core.PartialLoop

/-! `WebRtcSpl_Energy` and `WebRtcSpl_AutoCorrelation`: sums of products, scaled to fit in 32 bits.
-/
namespace WebRtcAudio.CommonAudio

open WebRtcAudio.Core List

def getSizeInBits (n : ℕ) : ℕ := 32 - countLeadingZeros32 n

def scalingFor (smax : ℤ) (n : ℕ) : ℕ :=
  let nbits := getSizeInBits n
  let t := normW32 (smax * smax)
  if smax = 0 then 0 else if nbits < t then 0 else nbits - t

def getScalingSquare (vector : List ℤ) (times : ℕ) : ℕ :=
  scalingFor (vector.foldl (fun smax x => max smax (toInt16 |x|)) (-1)) times

def energy (vector : List ℤ) : Option (ℤ × ℕ) := do
  let scaling := getScalingSquare vector vector.length
  let en ← vector.foldlM (fun en x => int32? (en + x * x / 2 ^ scaling)) 0
  return (en, scaling)

def maxAbsValueW16 (vector : List ℤ) : ℤ :=
  min (vector.foldl (fun maximum x => max maximum |x|) 0) (2 ^ 15 - 1)

def addProduct (vector : List ℤ) (scaling i : ℕ) (sum : ℤ) (j : ℕ) : Option ℤ := do
  let x ← vector[j]?
  let y ← vector[i + j]?
  int32? (sum + x * y / 2 ^ scaling)

def unrolledLoop (vector : List ℤ) (scaling i : ℕ) : ℕ → ℤ → ℕ → Option (ℤ × ℕ)
  | 0, _, _ => none
  | fuel + 1, sum, j =>
    if i + j + 3 < vector.length then do
      let sum ← [j, j + 1, j + 2, j + 3].foldlM (addProduct vector scaling i) sum
      unrolledLoop vector scaling i fuel sum (j + 4)
    else some (sum, j)

def lagSum (vector : List ℤ) (scaling i : ℕ) : Option ℤ := do
  let (sum, j) ← unrolledLoop vector scaling i (vector.length + 1) 0 0
  (range' j (vector.length - i - j)).foldlM (addProduct vector scaling i) sum

def autoCorrelation (vector : List ℤ) (order : ℕ) : Option (List ℤ × ℕ) := do
  let scaling := scalingFor (maxAbsValueW16 vector) vector.length
  let result ← (range (order + 1)).mapM (lagSum vector scaling)
  return (result, scaling)

section Sums

variable {α : Type} {l : List α} {f : α → ℤ} {s b : ℤ}

theorem foldlM_int32? {step : ℤ → α → Option ℤ} (hstep : ∀ x ∈ l, ∀ s, step s x = int32? (s + f x))
    (h : ∀ x ∈ l, |f x| ≤ b) (hs : |s| + l.length * b < 2 ^ 31) :
    l.foldlM step s = some (s + (l.map f).sum) := by
  induction l generalizing s with
  | nil => simp
  | cons x l ih =>
    obtain ⟨hx, hl⟩ := forall_mem_cons.mp h
    have hb : 0 ≤ b := (abs_nonneg _).trans hx
    have hlen : 0 ≤ l.length * b := by positivity
    have hsum := (abs_add_le s (f x)).trans (add_le_add_right hx |s|)
    rw [length_cons, Nat.cast_succ, add_mul, one_mul] at hs
    obtain ⟨hlo, hhi⟩ := abs_lt.mp (by omega : |s + f x| < 2 ^ 31)
    rw [foldlM_cons, hstep x mem_cons_self, int32?_bind ⟨by omega, hhi⟩,
      ih (fun y hy => hstep y (mem_cons_of_mem x hy)) hl (by omega), map_cons,
      sum_cons, add_assoc]

/-- Rounding down loses less than one for each term. -/
theorem sum_ediv_bounds (l : List α) (f : α → ℤ) {m : ℤ} (hm : 0 < m) :
    (l.map fun x => f x / m).sum * m ≤ (l.map f).sum ∧
      (l ≠ [] → (l.map f).sum < ((l.map fun x => f x / m).sum + l.length) * m) := by
  induction l with
  | nil => simp
  | cons x l ih =>
    have hle := Int.ediv_mul_le (f x) hm.ne'
    have hlt := Int.lt_ediv_add_one_mul_self (f x) hm
    simp only [map_cons, sum_cons, length_cons, Nat.cast_succ]
    refine ⟨by linarith [ih.1], fun _ => ?_⟩
    obtain rfl | hne := eq_or_ne l []
    · simpa using hlt
    · linarith [ih.2 hne]

theorem foldl_max_le_iff {a : ℤ} :
    l.foldl (fun m x => max m (f x)) a ≤ b ↔ a ≤ b ∧ ∀ x ∈ l, f x ≤ b := by
  induction l generalizing a with
  | nil => simp
  | cons x l ih => simp [ih, and_assoc]

end Sums

theorem lt_two_pow_getSizeInBits {n : ℕ} (hn : n < 2 ^ 32) : n < 2 ^ getSizeInBits n := by
  have hle := countLeadingZeros32_le n
  have hs : 2 ^ 32 = 2 ^ getSizeInBits n * 2 ^ countLeadingZeros32 n := by
    rw [← Nat.pow_add, getSizeInBits, Nat.sub_add_cancel hle]
  exact Nat.lt_of_mul_lt_mul_right (hs ▸ (countLeadingZeros32_spec hn).1)

/-- Products that fit in 31 bits after the shift `normW32` of the square are scaled enough. -/
theorem exists_scaled_bound {smax : ℤ} {n : ℕ} (hne : smax ≠ 0) (hn : n < 2 ^ 31) :
    ∃ b : ℤ, n * b < 2 ^ 31 ∧ ∀ p : ℤ, |p| * 2 ^ normW32 (smax * smax) ≤ 2 ^ 31 →
      |p / 2 ^ scalingFor smax n| ≤ b := by
  have hb := lt_two_pow_getSizeInBits (n := n) (by omega)
  have ht : normW32 (smax * smax) ≤ 31 := by
    have := countLeadingZeros32_le (if smax * smax < 0 then -(smax * smax) - 1
      else smax * smax).toNat
    unfold normW32
    split_ifs at this ⊢ <;> omega
  have hnbits : getSizeInBits n ≤ 31 := by
    have := one_le_countLeadingZeros32 hn
    unfold getSizeInBits
    omega
  unfold scalingFor
  generalize normW32 (smax * smax) = t at ht ⊢
  generalize getSizeInBits n = nbits at hb hnbits ⊢
  obtain ⟨k, hk, hkt, hkn, hs⟩ : ∃ k ≤ 31, t ≤ k ∧ nbits ≤ k ∧
      (if smax = 0 then 0 else if nbits < t then 0 else nbits - t) = k - t := by
    rw [if_neg hne]
    split_ifs
    · exact ⟨t, ht, le_rfl, by omega, by omega⟩
    · exact ⟨nbits, hnbits, by omega, le_rfl, rfl⟩
  dsimp only
  rw [hs]
  refine ⟨2 ^ (31 - k), ?_, fun p hp => ?_⟩
  · have hlt : n * 2 ^ (31 - k) < 2 ^ 31 := by
      calc n * 2 ^ (31 - k) < 2 ^ nbits * 2 ^ (31 - k) :=
            Nat.mul_lt_mul_of_pos_right hb (Nat.two_pow_pos _)
        _ ≤ 2 ^ 31 := by
            rw [← Nat.pow_add]
            exact Nat.pow_le_pow_right two_pos (by omega)
    exact_mod_cast hlt
  · have hsplit : (2 : ℤ) ^ 31 = 2 ^ (31 - k) * 2 ^ (k - t) * 2 ^ t := by
      rw [← pow_add, ← pow_add]
      congr 1
      omega
    have hpow : (0 : ℤ) < 2 ^ (k - t) := by positivity
    rw [hsplit] at hp
    obtain ⟨hl, hu⟩ := abs_le.mp (le_of_mul_le_mul_right hp (by positivity))
    exact abs_le.mpr ⟨Int.le_ediv_of_mul_le hpow (by linarith), Int.ediv_le_of_le_mul hpow hu⟩

/-- The largest value that is found stands for the least sample, too. -/
theorem exists_product_bound {v : List ℤ} (smax : ℤ) {n : ℕ} (hn : n < 2 ^ 31)
    (hmax : smax < 2 ^ 15)
    (hv : ∀ x ∈ v, |x| ≤ smax ∨ smax = 2 ^ 15 - 1 ∧ |x| ≤ 2 ^ 15) :
    ∃ b : ℤ, n * b < 2 ^ 31 ∧ ∀ x ∈ v, ∀ y ∈ v, |x * y / 2 ^ scalingFor smax n| ≤ b := by
  obtain rfl | hne := eq_or_ne smax 0
  · refine ⟨0, by simp, fun x hx y _ => ?_⟩
    have hzero : x = 0 := by simpa using hv x hx
    simp [hzero]
  obtain ⟨b, hb, hle⟩ := exists_scaled_bound hne hn
  refine ⟨b, hb, fun x hx y hy => hle _ ?_⟩
  rw [abs_mul]
  by_cases htop : smax = 2 ^ 15 - 1
  · have hw : ∀ z ∈ v, |z| ≤ 2 ^ 15 := fun z hz => by have := hv z hz; omega
    have hnorm : normW32 (smax * smax) = 1 := by rw [htop]; decide
    have hp := mul_le_mul (hw x hx) (hw y hy) (abs_nonneg y) (by decide)
    rw [hnorm]
    omega
  · have hw : ∀ z ∈ v, |z| ≤ smax := fun z hz => by have := hv z hz; omega
    have hpos : 0 < smax := by have := (abs_nonneg x).trans (hw x hx); omega
    have hp := mul_le_mul (hw x hx) (hw y hy) (abs_nonneg y) hpos.le
    obtain ⟨m, hm⟩ := Int.eq_ofNat_of_zero_le (mul_pos hpos hpos).le
    have hlt : smax * smax < 2 ^ 31 := by nlinarith
    rw [hm] at hp hlt ⊢
    have hnorm := (normW32_of_pos (a := m) (by have := mul_pos hpos hpos; omega) (by omega)).1
    calc |x| * |y| * 2 ^ normW32 m ≤ m * 2 ^ normW32 m :=
          mul_le_mul_of_nonneg_right hp (by positivity)
      _ ≤ 2 ^ 31 := by exact_mod_cast hnorm.le

/-- The loops visit the indices up to the last product of the lag one after the other. -/
theorem lagSum_eq (v : List ℤ) (scaling i : ℕ) :
    lagSum v scaling i = (range (v.length - i)).foldlM (addProduct v scaling i) 0 := by
  have hl : ∀ fuel sum j, v.length - i - j < fuel →
      (unrolledLoop v scaling i fuel sum j).bind (fun r =>
        (range' r.2 (v.length - i - r.2)).foldlM (addProduct v scaling i) r.1) =
      (range' j (v.length - i - j)).foldlM (addProduct v scaling i) sum := by
    intro fuel
    induction fuel with
    | zero => exact fun sum j hj => absurd hj (Nat.not_lt_zero _)
    | succ fuel ih =>
      intro sum j hj
      rw [unrolledLoop]
      split
      · obtain ⟨m, hm⟩ : ∃ m, v.length - i - j = m + 4 := ⟨v.length - i - j - 4, by omega⟩
        have hr : range' j (v.length - i - j) =
            [j, j + 1, j + 2, j + 3] ++ range' (j + 4) (v.length - i - (j + 4)) := by
          rw [show v.length - i - (j + 4) = m by omega, hm]
          rfl
        rw [hr, foldlM_append, Option.bind_eq_bind, Option.bind_assoc]
        exact congrArg _ (funext fun sum => ih sum (j + 4) (by omega))
      · rfl
  rw [range_eq_range']
  exact hl (v.length + 1) 0 0 (by omega)

def lagProducts (v : List ℤ) (i : ℕ) : List ℤ :=
  (range (v.length - i)).map fun j => v.getD j 0 * v.getD (i + j) 0

theorem lagSum_eq_some {v : List ℤ} {scaling : ℕ} {b : ℤ} (hb : v.length * b < 2 ^ 31)
    (hv : ∀ x ∈ v, ∀ y ∈ v, |x * y / 2 ^ scaling| ≤ b) {i : ℕ} (hi : i < v.length) :
    lagSum v scaling i = some ((lagProducts v i).map (· / 2 ^ scaling)).sum := by
  have hpos : 0 ≤ b := (abs_nonneg _).trans (hv v[i] (v.getElem_mem hi) v[i] (v.getElem_mem hi))
  have hshort : ((v.length - i : ℕ) : ℤ) * b ≤ v.length * b :=
    mul_le_mul_of_nonneg_right (by omega) hpos
  rw [lagSum_eq, foldlM_int32? (b := b)
    (f := fun j => v.getD j 0 * v.getD (i + j) 0 / 2 ^ scaling) ?_ ?_ ?_, zero_add, lagProducts,
    map_map]
  · rfl
  · intro j hj s
    rw [mem_range] at hj
    simp [addProduct, getElem?_eq_getElem (show j < v.length by omega),
      getElem?_eq_getElem (show i + j < v.length by omega)]
  · intro j hj
    rw [mem_range] at hj
    rw [getD_eq_getElem _ _ (by omega), getD_eq_getElem _ _ (by omega)]
    exact hv _ (v.getElem_mem _) _ (v.getElem_mem _)
  · rw [length_range, abs_zero, zero_add]
    omega

/-- Every lag is summed up without an overflow from each of its products, which lose less than one
each. -/
theorem autoCorrelation_spec {v : List ℤ} (hv : ∀ x ∈ v, IsWord16 x) (hlen : v.length < 2 ^ 30)
    {order : ℕ} (horder : order < v.length) :
    ∃ s, autoCorrelation v order = some ((range (order + 1)).map fun i =>
        ((lagProducts v i).map (· / 2 ^ s)).sum, s) ∧
      ∀ i ≤ order, ((lagProducts v i).map (· / 2 ^ s)).sum * 2 ^ s ≤ (lagProducts v i).sum ∧
        (lagProducts v i).sum <
          (((lagProducts v i).map (· / 2 ^ s)).sum + (v.length - i : ℕ)) * 2 ^ s := by
  have hle := (foldl_max_le_iff.mp (le_refl (v.foldl (fun m x => max m |x|) 0))).2
  obtain ⟨b, hb, hbound⟩ := exists_product_bound (v := v) (maxAbsValueW16 v) (n := v.length)
    (by omega) (by unfold maxAbsValueW16; omega) fun x hx => by
      have hx' := hle x hx
      have hword : |x| ≤ 2 ^ 15 := abs_le.mpr ⟨(hv x hx).1, (hv x hx).2.le⟩
      unfold maxAbsValueW16
      omega
  refine ⟨scalingFor (maxAbsValueW16 v) v.length, ?_, fun i hi => ?_⟩
  · unfold autoCorrelation
    dsimp only
    rw [mapM_eq_some_map fun i hi => lagSum_eq_some hb hbound
      (by have := mem_range.mp hi; omega)]
    rfl
  · have hl : (lagProducts v i).length = v.length - i := by simp [lagProducts]
    obtain ⟨hlow, hh⟩ := sum_ediv_bounds (lagProducts v i) id
      (by positivity : (0 : ℤ) < 2 ^ scalingFor (maxAbsValueW16 v) v.length)
    rw [map_id, hl] at hh
    rw [map_id] at hlow
    exact ⟨hlow, hh (ne_nil_of_length_pos (by omega))⟩

theorem autoCorrelation_spec_leastSamples :
    ∃ s, autoCorrelation [-2 ^ 15, -2 ^ 15, -2 ^ 15] 1 = some ((range 2).map fun i =>
        ((lagProducts [-2 ^ 15, -2 ^ 15, -2 ^ 15] i).map (· / 2 ^ s)).sum, s) := by
  obtain ⟨s, hs, -⟩ := @autoCorrelation_spec [-2 ^ 15, -2 ^ 15, -2 ^ 15] (by decide)
    (by decide) 1 (by decide)
  exact ⟨s, hs⟩

end WebRtcAudio.CommonAudio
