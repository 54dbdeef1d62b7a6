import Mathlib.Tactic.Ring
import WebRtcAudio.CommonAudio.SignalProcessing

/-! `WebRtcSpl_DivResultInQ31`: a long division in signed 32-bit registers. -/
namespace WebRtcAudio.CommonAudio

open WebRtcAudio.Core

def divRound (den : ℤ) (s : ℤ × ℤ) : Option (ℤ × ℤ) := do
  let div ← int32? (s.2 * 2)
  let num ← int32? (s.1 * 2)
  if den ≤ num then
    let num ← int32? (num - den)
    let div ← int32? (div + 1)
    return (num, div)
  else return (num, div)

def divRounds (den : ℤ) (s : ℤ × ℤ) : ℕ → Option (ℤ × ℤ)
  | 0 => some s
  | k + 1 => (divRounds den s k).bind (divRound den)

def divResultInQ31 (num den : ℤ) : Option ℤ :=
  if num = 0 then some 0
  else do
    let lNum ← int32? |num|
    let lDen ← int32? |den|
    let (_, div) ← divRounds lDen (lNum, 0) 31
    -- `change_sign` is 1 if one of the signs was changed
    return if (num < 0) ≠ (den < 0) then -div else div

section Rounds

variable {n d r q k : ℕ}

theorem divRound_eq (hr : r < d) (hd : d < 2 ^ 31) (hq : q < 2 ^ 30) :
    divRound d (r, q) = if r < 2 ^ 30 then
      some (↑((d * q + r) * 2 % d), ↑((d * q + r) * 2 / d)) else none := by
  have hs : (d * q + r) * 2 = d * (q * 2) + r * 2 := by ring
  rw [divRound, int32?_bind (by omega)]
  split
  · rw [int32?_bind (by omega), hs, Nat.mul_add_mod, Nat.mul_add_div (by omega)]
    split
    · have hle : d ≤ r * 2 := by omega
      rw [int32?_bind (by omega), int32?_bind (by omega),
        Nat.mod_eq_sub_mod hle, Nat.mod_eq_of_lt (by omega), Nat.div_eq_sub_div (by omega) hle,
        Nat.div_eq_of_lt (by omega)]
      push_cast [hle]
      rfl
    · rw [Nat.mod_eq_of_lt (by omega), Nat.div_eq_of_lt (by omega)]
      push_cast
      rfl
  · rw [int32?, if_neg (by omega)]
    rfl

/-- The registers hold remainder and quotient until a remainder cannot be doubled. -/
theorem divRounds_eq (hn : n < d) (hd : d < 2 ^ 31) (hk : k ≤ 31) :
    divRounds d (n, 0) k = if ∀ j < k, n * 2 ^ j % d < 2 ^ 30 then
      some (↑(n * 2 ^ k % d), ↑(n * 2 ^ k / d)) else none := by
  induction k with
  | zero => simp [divRounds, Nat.mod_eq_of_lt hn, Nat.div_eq_of_lt hn]
  | succ k ih =>
    rw [divRounds, ih (by omega)]
    by_cases h : ∀ j < k, n * 2 ^ j % d < 2 ^ 30
    · have hq : n * 2 ^ k / d < 2 ^ 30 := by
        apply (Nat.div_lt_iff_lt_mul (by omega)).mpr
        calc n * 2 ^ k ≤ n * 2 ^ 30 :=
              Nat.mul_le_mul_left n (Nat.pow_le_pow_right two_pos (by omega))
          _ < 2 ^ 30 * d := by omega
      rw [if_pos h, Option.bind_some, divRound_eq (Nat.mod_lt _ (by omega)) hd hq,
        Nat.div_add_mod, Nat.mul_assoc, ← Nat.pow_succ]
      simp only [Nat.forall_lt_succ_right, and_iff_right h]
    · rw [if_neg h, if_neg fun hall => h fun j hj => hall j (by omega)]
      rfl

end Rounds

/-- The quotient is exact, truncated towards zero, exactly if no remainder of the long division is
so large that doubling it overflows. This is so for all denominators up to `2 ^ 30`. -/
theorem divResultInQ31_eq_iff {num den : ℤ} (hmin : word32Min ≤ den) (hmax : den ≤ word32Max)
    (hlt : |num| < |den|) : divResultInQ31 num den = some ((num * 2 ^ 31).tdiv den) ↔
      num = 0 ∨ den ≠ word32Min ∧ ∀ k < 31, |num| * 2 ^ k % |den| < 2 ^ 30 := by
  simp only [word32Min, word32Max] at *
  by_cases hz : num = 0
  · simp [divResultInQ31, hz]
  obtain ⟨n, hn⟩ := num.eq_nat_or_neg
  obtain ⟨d, hd⟩ := den.eq_nat_or_neg
  have hnum : |num| = n := by rcases hn with rfl | rfl <;> simp
  have hden : |den| = d := by rcases hd with rfl | rfl <;> simp
  rw [hnum, hden] at hlt
  rw [divResultInQ31, if_neg hz, hnum, hden, int32?_bind (by omega)]
  by_cases hm : den = -2 ^ 31
  · rw [int32?, if_neg (by omega)]
    simp [hz, hm]
  have hc : (∀ k < 31, (n : ℤ) * 2 ^ k % d < 2 ^ 30) ↔ ∀ k < 31, n * 2 ^ k % d < 2 ^ 30 := by
    exact_mod_cast Iff.rfl
  rw [int32?_bind (by omega), divRounds_eq (by omega) (by omega) (le_refl 31), hc]
  by_cases h : ∀ k < 31, n * 2 ^ k % d < 2 ^ 30
  · have hq : ((n * 2 ^ 31 / d : ℕ) : ℤ) = ((n : ℤ) * 2 ^ 31).tdiv d := by
      rw [Int.ofNat_tdiv]
      push_cast
      rfl
    rw [if_pos h]
    simp only [hz, hm, false_or, ne_eq, not_false_eq_true, true_and, iff_true_intro h,
      iff_true, Option.bind_eq_bind, Option.bind_some, Option.pure_def, hq, Option.some_inj]
    rcases hn with rfl | rfl <;> rcases hd with rfl | rfl
    · rw [if_neg (by simp; omega)]
    · rw [if_pos (by simp; omega), Int.tdiv_neg]
    · rw [if_pos (by simp; omega), Int.neg_mul, Int.neg_tdiv]
    · rw [if_neg (by simp; omega), Int.neg_mul, Int.neg_tdiv, Int.tdiv_neg, neg_neg]
  · rw [if_neg h]
    exact iff_of_false (Option.some_ne_none _).symm
      (by simp only [hz, h, and_false, or_self, not_false_eq_true])

theorem divResultInQ31_eq_iff_third : divResultInQ31 (-1) 3 = some ((-1 * 2 ^ 31 : ℤ).tdiv 3) :=
  (divResultInQ31_eq_iff (by decide) (by decide) (by decide)).mpr (.inr (by decide))

theorem divResultInQ31_overflows :
    |(2 ^ 30 : ℤ)| < |2 ^ 30 + 1| ∧ divResultInQ31 (2 ^ 30) (2 ^ 30 + 1) = none := by
  decide

end WebRtcAudio.CommonAudio
