import Mathlib.Analysis.Real.Sqrt
import WebRtcAudio.CommonAudio.SplRange

/-! How close `WebRtcSpl_Sqrt` comes to the square root. -/
namespace WebRtcAudio.CommonAudio

open WebRtcAudio.Core Option

def closeToRoot (p lo hi : ℕ) : Bool :=
  512 * (p - 1) * (512 * (p - 1)) ≤ 513 * 513 * lo &&
    511 * 511 * hi ≤ 512 * (p + 1) * (512 * (p + 1))

def seriesClose (n : ℕ) : Bool :=
  let t := sqrtSeries n / 65536
  t < 32768 && closeToRoot t (n * 32768 - 16384) (n * 32768 + 32768) &&
    closeToRoot ((46340 * t + 32768) / 65536 * 2) (n * 65536 - 32768) (n * 65536 + 65536)

def allFrom (check : ℕ → Bool) : ℕ → ℕ → Bool
  | 0, s => check s
  | k + 1, s => allFrom check k s && allFrom check k (s + 2 ^ k)

theorem check_of_allFrom {check : ℕ → Bool} {k s i : ℕ} (h : allFrom check k s = true)
    (hi : i < 2 ^ k) : check (s + i) = true := by
  induction k generalizing s i with
  | zero =>
    obtain rfl : i = 0 := by omega
    exact h
  | succ k ih =>
    obtain ⟨hlow, hh⟩ := Bool.and_eq_true_iff.mp h
    rw [Nat.pow_succ] at hi
    by_cases hhalf : i < 2 ^ k
    · exact ih hlow hhalf
    · have hn := ih hh (i := i - 2 ^ k) (by omega)
      rwa [Nat.add_assoc, Nat.add_sub_cancel' (by omega)] at hn

theorem allFrom_seriesClose : allFrom seriesClose 14 (2 ^ 14) = true := by decide +kernel

theorem abs_sub_le_of_closeToRoot {p lo hi : ℕ} {x : ℝ} (h : closeToRoot p lo hi = true)
    (hx : 0 ≤ x) (hlo : lo ≤ x ^ 2) (hhi : x ^ 2 ≤ hi) : |p - x| ≤ 1 + x / 512 := by
  simp only [closeToRoot, Bool.and_eq_true, decide_eq_true_eq] at h
  have hp : (p : ℝ) ≤ (p - 1 : ℕ) + 1 := by exact_mod_cast (by omega : p ≤ p - 1 + 1)
  have hupper : 512 * ((p - 1 : ℕ) : ℝ) ≤ 513 * x := by
    have hs : (512 * (p - 1 : ℕ) * (512 * (p - 1 : ℕ)) : ℝ) ≤ 513 * 513 * lo := by
      exact_mod_cast h.1
    apply abs_le_of_sq_le_sq' _ (by positivity) |>.2
    nlinarith
  have hlower : 511 * x ≤ 512 * (p + 1) := by
    have hs : (511 * 511 * hi : ℝ) ≤ 512 * (p + 1) * (512 * (p + 1)) := by exact_mod_cast h.2
    apply abs_le_of_sq_le_sq' _ (by positivity) |>.2
    nlinarith
  exact abs_le.mpr ⟨by linarith, by linarith⟩

theorem abs_div_two_pow_sub_le {p m : ℕ} {y : ℝ}
    (h : |p - y * 2 ^ m| ≤ 1 + y * 2 ^ m / 512) : |((p / 2 ^ m : ℕ) : ℝ) - y| ≤ 2 + y / 512 := by
  have hpow : (1 : ℝ) ≤ 2 ^ m := one_le_pow₀ (by norm_num)
  have hle : ((p / 2 ^ m : ℕ) : ℝ) * 2 ^ m ≤ p := by exact_mod_cast Nat.div_mul_le_self p (2 ^ m)
  have hlt : (p : ℝ) < ((p / 2 ^ m : ℕ) + 1) * 2 ^ m := by
    rw [mul_comm]
    exact_mod_cast Nat.lt_mul_div_succ p (Nat.two_pow_pos m)
  obtain ⟨hl, hu⟩ := abs_le.mp h
  generalize ((p / 2 ^ m : ℕ) : ℝ) = r at hle hlt ⊢
  rw [abs_le]
  constructor
  · apply le_of_mul_le_mul_right _ (by positivity : (0 : ℝ) < 2 ^ m)
    linarith
  · apply le_of_mul_le_mul_right _ (by positivity : (0 : ℝ) < 2 ^ m)
    linarith

theorem sqrtDenormalize_odd {root m : ℕ} (h : root / 65536 < 32768) :
    sqrtDenormalize root (2 * m + 1) = some ((root / 65536 / 2 ^ m : ℕ) : ℤ) := by
  have hmod : (root : ℤ) / 2 ^ 16 % 2 ^ 16 = (root / 65536 : ℕ) := by omega
  rw [sqrtDenormalize, if_neg (by omega), bind_eq_bind, bind_some]
  dsimp only
  rw [hmod, show (2 * m + 1) / 2 = m by omega]
  norm_cast

theorem sqrtDenormalize_even {root m : ℕ} (h : root / 65536 < 32768) :
    sqrtDenormalize root (2 * m) =
      some (((46340 * (root / 65536) + 32768) / 65536 * 2 / 2 ^ m : ℕ) : ℤ) := by
  have hdiv : (root : ℤ) / 2 ^ 16 = (root / 65536 : ℕ) := by omega
  rw [sqrtDenormalize, if_pos (by omega), hdiv, toInt16_eq_self (by omega)]
  generalize root / 65536 = t at *
  have hpos : (23170 * (t : ℤ) * 2 + 32768) % 2 ^ 31 = (46340 * t + 32768 : ℕ) := by omega
  have hmod : ((46340 * t + 32768 : ℕ) : ℤ) / 2 ^ 16 * 2 % 2 ^ 16 =
      ((46340 * t + 32768) / 65536 * 2 : ℕ) := by omega
  rw [int32?_bind (by omega), int32?_bind (by omega), bind_eq_bind, bind_some]
  dsimp only
  rw [hpos, hmod, show 2 * m / 2 = m by omega]
  norm_cast

/-- No operation overflows, and the result is off by at most 2 and a 512th. -/
theorem sqrt_accurate {value : ℤ} (hl : word32Min ≤ value) (hu : value ≤ word32Max) :
    ∃ r, sqrt value = some r ∧
      |(r : ℝ) - √(min |value| word32Max : ℤ)| ≤ 2 + √(min |value| word32Max : ℤ) / 512 := by
  by_cases hne : value = 0
  · exact ⟨0, if_pos hne, by simp [hne, word32Max]⟩
  obtain ⟨a, n, hcap, -, -, hnl, hnu, hlow, hh, heq⟩ := sqrt_eq_denormalize hne hl hu
  have hc := check_of_allFrom allFrom_seriesClose (i := n - 2 ^ 14) (by omega)
  rw [Nat.add_sub_cancel' hnl] at hc
  simp only [seriesClose, Bool.and_eq_true, decide_eq_true_eq] at hc
  obtain ⟨⟨ht, hodd⟩, he⟩ := hc
  rw [hcap, Int.cast_natCast, heq]
  have hr : √(a : ℝ) ^ 2 = a := Real.sq_sqrt (Nat.cast_nonneg a)
  obtain ⟨m, hm | hm⟩ := (normW32 a).even_or_odd'
  · rw [hm] at hlow hh ⊢
    refine ⟨_, sqrtDenormalize_even ht, ?_⟩
    rw [Int.cast_natCast]
    refine abs_div_two_pow_sub_le
      (abs_sub_le_of_closeToRoot he (by positivity) ?_ ?_)
    · rw [mul_pow, hr, ← pow_mul, Nat.mul_comm m]
      exact_mod_cast (by omega : n * 65536 - 32768 ≤ a * 2 ^ (2 * m))
    · rw [mul_pow, hr, ← pow_mul, Nat.mul_comm m]
      exact_mod_cast (by omega : a * 2 ^ (2 * m) ≤ n * 65536 + 65536)
  · rw [hm] at hlow hh ⊢
    rw [pow_succ 2 (2 * m), ← Nat.mul_assoc] at hlow hh
    refine ⟨_, sqrtDenormalize_odd ht, ?_⟩
    rw [Int.cast_natCast]
    refine abs_div_two_pow_sub_le
      (abs_sub_le_of_closeToRoot hodd (by positivity) ?_ ?_)
    · rw [mul_pow, hr, ← pow_mul, Nat.mul_comm m]
      exact_mod_cast (by omega : n * 32768 - 16384 ≤ a * 2 ^ (2 * m))
    · rw [mul_pow, hr, ← pow_mul, Nat.mul_comm m]
      exact_mod_cast (by omega : a * 2 ^ (2 * m) ≤ n * 32768 + 32768)

theorem sqrt_accurate_largest : ∃ r, sqrt word32Max = some r ∧
      |(r : ℝ) - √(min |word32Max| word32Max : ℤ)| ≤ 2 + √(min |word32Max| word32Max : ℤ) / 512 :=
  sqrt_accurate (by decide) (by decide)

end WebRtcAudio.CommonAudio
