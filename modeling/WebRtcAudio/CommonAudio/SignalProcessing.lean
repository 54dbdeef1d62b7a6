import Mathlib.Data.Nat.Log
import WebRtcAudio.Core.MachineInt

/-! Functions of the fixed-point library on integers; what C leaves undefined has no result. -/
namespace WebRtcAudio.CommonAudio

open WebRtcAudio.Core

def word32Max : ℤ := 2 ^ 31 - 1

def word32Min : ℤ := -2 ^ 31

def countLeadingZeros32 (n : ℕ) : ℕ := if n = 0 then 32 else 31 - n.log2

def normU32 (a : ℕ) : ℕ := if a = 0 then 0 else countLeadingZeros32 a

def normW32 (a : ℤ) : ℕ :=
  if a = 0 then 0 else countLeadingZeros32 (if a < 0 then -a - 1 else a).toNat - 1

def addSatW32 (a b : ℤ) : ℤ :=
  let sum := toInt32 (a + b)
  if (a < 0 ↔ b < 0) ∧ ¬ (a < 0 ↔ sum < 0) then if sum < 0 then word32Max else word32Min
  else sum

def divW32W16 (num den : ℤ) : ℤ := if den = 0 then word32Max else num.tdiv den

def shiftW32 (x c : ℤ) : Option ℤ :=
  if 0 ≤ c then if c < 31 then int32? (x * 2 ^ c.toNat) else none
  else if -32 < c then some (x / 2 ^ (-c).toNat) else none

def shiftU32 (x : ℕ) (c : ℤ) : Option ℕ :=
  if 0 ≤ c then if c < 31 then some (x * 2 ^ c.toNat % 2 ^ 32) else none
  else if -32 < c then some (x / 2 ^ (-c).toNat) else none

variable {a n : ℕ} {c : ℤ}

theorem add_lt_add_of_two_pow_le_of_lt {k l m : ℕ} (hl : 2 ^ l ≤ a * 2 ^ m)
    (hu : a * 2 ^ k < 2 ^ n) : l + k < n + m := by
  apply (Nat.pow_lt_pow_iff_right (by decide : 1 < 2)).mp
  calc 2 ^ (l + k) = 2 ^ l * 2 ^ k := Nat.pow_add 2 l k
    _ ≤ a * 2 ^ m * 2 ^ k := Nat.mul_le_mul_right _ hl
    _ = a * 2 ^ k * 2 ^ m := Nat.mul_right_comm _ _ _
    _ < 2 ^ n * 2 ^ m := Nat.mul_lt_mul_of_pos_right hu (Nat.two_pow_pos m)
    _ = 2 ^ (n + m) := (Nat.pow_add 2 n m).symm

theorem countLeadingZeros32_spec (hn : n < 2 ^ 32) :
    n * 2 ^ countLeadingZeros32 n < 2 ^ 32 ∧ (n ≠ 0 → 2 ^ 31 ≤ n * 2 ^ countLeadingZeros32 n) := by
  obtain rfl | hpos := Nat.eq_zero_or_pos n
  · simp
  have hne : n ≠ 0 := by omega
  have hlog : n.log2 < 32 := (Nat.log2_lt hne).mpr hn
  rw [countLeadingZeros32, if_neg hne]
  constructor
  · calc n * 2 ^ (31 - n.log2) < 2 ^ (n.log2 + 1) * 2 ^ (31 - n.log2) :=
        Nat.mul_lt_mul_of_pos_right Nat.lt_log2_self (Nat.two_pow_pos _)
      _ = 2 ^ 32 := by
        rw [← Nat.pow_add]
        congr 1
        omega
  · intro _
    calc 2 ^ 31 = 2 ^ n.log2 * 2 ^ (31 - n.log2) := by
          rw [← Nat.pow_add]
          congr 1
          omega
      _ ≤ n * 2 ^ (31 - n.log2) := Nat.mul_le_mul_right _ (Nat.log2_self_le hne)

theorem one_le_countLeadingZeros32 (hn : n < 2 ^ 31) : 1 ≤ countLeadingZeros32 n := by
  unfold countLeadingZeros32
  split
  · decide
  · next hne =>
    have hlog : n.log2 < 31 := (Nat.log2_lt hne).mpr hn
    omega

theorem countLeadingZeros32_le (n : ℕ) : countLeadingZeros32 n ≤ 32 := by
  unfold countLeadingZeros32
  split <;> omega

theorem normU32_le (a : ℕ) : normU32 a ≤ 31 := by
  unfold normU32 countLeadingZeros32
  split_ifs <;> omega

theorem normU32_lt (ha : a < 2 ^ 32) : a * 2 ^ normU32 a < 2 ^ 32 := by
  unfold normU32
  split
  · omega
  · exact (countLeadingZeros32_spec ha).1

theorem le_normU32 (ha : a < 2 ^ 32) (hne : a ≠ 0) : 2 ^ 31 ≤ a * 2 ^ normU32 a := by
  rw [normU32, if_neg hne]
  exact (countLeadingZeros32_spec ha).2 hne

theorem normW32_of_pos (hpos : 0 < a) (ha : a < 2 ^ 31) :
    a * 2 ^ normW32 a < 2 ^ 31 ∧ 2 ^ 31 ≤ a * 2 ^ (normW32 a + 1) := by
  have hn : normW32 a + 1 = countLeadingZeros32 a := by
    have hone := one_le_countLeadingZeros32 ha
    rw [normW32, if_neg (by omega), if_neg (by omega), Int.toNat_natCast]
    omega
  obtain ⟨hlt, hle⟩ := countLeadingZeros32_spec (n := a) (by omega)
  rw [← hn] at hlt hle
  refine ⟨?_, hle (by omega)⟩
  rw [Nat.pow_succ, ← Nat.mul_assoc] at hlt
  omega

theorem normW32_of_neg (hpos : 0 < a) (ha : a ≤ 2 ^ 31) :
    a * 2 ^ normW32 (-a) ≤ 2 ^ 31 ∧ 2 ^ 31 < a * 2 ^ (normW32 (-a) + 1) := by
  obtain ⟨m, rfl⟩ := Nat.exists_eq_add_of_lt hpos
  rw [Nat.zero_add] at ha ⊢
  have hn : normW32 (-(m + 1 : ℕ)) + 1 = countLeadingZeros32 m := by
    have hone := one_le_countLeadingZeros32 (n := m) (by omega)
    have hmagnitude : (-(-((m + 1 : ℕ) : ℤ)) - 1).toNat = m := by omega
    rw [normW32, if_neg (by omega), if_pos (by omega), hmagnitude]
    omega
  obtain ⟨hlt, hle⟩ := countLeadingZeros32_spec (n := m) (by omega)
  have hz := countLeadingZeros32_le m
  rw [← hn] at hlt hle hz
  generalize normW32 (-(m + 1 : ℕ)) = k at hn hlt hle hz ⊢
  constructor
  · -- both sides are multiples of the power of two
    have hs : 2 ^ 31 = 2 ^ (31 - k) * 2 ^ k := by
      rw [← Nat.pow_add, Nat.sub_add_cancel (by omega)]
    have hm : m < 2 ^ (31 - k) := by
      apply Nat.lt_of_mul_lt_mul_right (a := 2 ^ k)
      rw [← hs]
      rw [Nat.pow_succ, ← Nat.mul_assoc] at hlt
      omega
    rw [hs]
    exact Nat.mul_le_mul_right _ hm
  · obtain rfl | hm := Nat.eq_zero_or_pos m
    · rw [hn]
      decide
    · have hlow := hle (by omega)
      have hpow := Nat.two_pow_pos (k + 1)
      rw [Nat.succ_mul]
      omega

theorem normW32_natAbs {a : ℤ} (hne : a ≠ 0) (hl : word32Min ≤ a) (hu : a ≤ word32Max) :
    a.natAbs * 2 ^ normW32 a ≤ 2 ^ 31 ∧ 2 ^ 31 ≤ a.natAbs * 2 ^ (normW32 a + 1) := by
  simp only [word32Min, word32Max] at hl hu
  obtain ⟨m, rfl | rfl⟩ := a.eq_nat_or_neg
  · obtain ⟨hlt, hle⟩ := normW32_of_pos (a := m) (by omega) (by omega)
    rw [Int.natAbs_natCast]
    exact ⟨hlt.le, hle⟩
  · obtain ⟨hle, hlt⟩ := normW32_of_neg (a := m) (by omega) (by omega)
    rw [Int.natAbs_neg, Int.natAbs_natCast]
    exact ⟨hle, hlt.le⟩

theorem normW32_neg_lt_iff (hpos : 0 < a) (ha : a ≤ 2 ^ 31) (c : ℕ) :
    normW32 (-a) < c ↔ 2 ^ 31 < a * 2 ^ c := by
  obtain ⟨hle, hlt⟩ := normW32_of_neg hpos ha
  constructor
  · intro hc
    exact hlt.trans_le (Nat.mul_le_mul_left a (Nat.pow_le_pow_right two_pos hc))
  · intro h
    by_contra hc
    have hmono := Nat.mul_le_mul_left a (Nat.pow_le_pow_right two_pos (Nat.le_of_not_lt hc))
    omega

theorem mul_two_pow_mem_word32 {a : ℤ} (hl : word32Min ≤ a) (hu : a ≤ word32Max) {c : ℕ}
    (hn : c ≤ normW32 a) : word32Min ≤ a * 2 ^ c ∧ a * 2 ^ c ≤ word32Max := by
  simp only [word32Min, word32Max] at *
  obtain ⟨m, hm⟩ := a.eq_nat_or_neg
  have hcast : (m : ℤ) * 2 ^ c = (m * 2 ^ c : ℕ) := by push_cast; rfl
  have hle : m * 2 ^ c ≤ m * 2 ^ normW32 a :=
    Nat.mul_le_mul_left m (Nat.pow_le_pow_right two_pos hn)
  obtain rfl | hpos := Nat.eq_zero_or_pos m
  · obtain rfl : a = 0 := by omega
    omega
  obtain rfl | rfl := hm
  · have hlt := (normW32_of_pos hpos (by omega)).1
    omega
  · have hlt := (normW32_of_neg hpos (by omega)).1
    rw [neg_mul]
    omega

theorem shiftW32_eq_none {a : ℤ} (hc : c ≤ -32) : shiftW32 a c = none := by
  rw [shiftW32, if_neg (by omega), if_neg (by omega)]

theorem shiftW32_sign {a : ℤ} (hl : word32Min ≤ a) (hu : a ≤ word32Max) (hcl : -32 < c)
    (hcu : c < 31) (hnorm : c ≤ normW32 a) :
    ∃ y, shiftW32 a c = some y ∧ word32Min ≤ y ∧ y ≤ word32Max ∧ (0 ≤ a → 0 ≤ y) ∧
      (a ≤ 0 → y ≤ 0) := by
  by_cases hc : 0 ≤ c
  · lift c to ℕ using hc
    obtain ⟨hmin, hmax⟩ := mul_two_pow_mem_word32 hl hu (by omega : c ≤ normW32 a)
    refine ⟨a * 2 ^ c, ?_, hmin, hmax, fun h => by positivity, fun h => ?_⟩
    · rw [shiftW32, if_pos (by omega), if_pos hcu, Int.toNat_natCast]
      simp only [word32Min, word32Max] at hmin hmax
      exact int32?_eq_some ⟨hmin, by omega⟩
    · exact mul_nonpos_of_nonpos_of_nonneg h (by positivity)
  · have hpow : (0 : ℤ) < 2 ^ (-c).toNat := by positivity
    refine ⟨a / 2 ^ (-c).toNat, ?_, ?_, ?_, fun h => Int.ediv_nonneg h hpow.le, fun h => ?_⟩
    · rw [shiftW32, if_neg hc, if_pos hcl]
    · simp only [word32Min] at hl ⊢
      exact Int.le_ediv_of_mul_le hpow (by nlinarith)
    · simp only [word32Max] at hu ⊢
      exact Int.ediv_le_of_le_mul hpow (by nlinarith)
    · exact Int.ediv_le_of_le_mul hpow (by rwa [zero_mul])

def shifted (x : ℕ) (c : ℤ) : ℕ := x * 2 ^ c.toNat / 2 ^ (-c).toNat

theorem shifted_mul_le (x : ℕ) (c : ℤ) : shifted x c * 2 ^ (-c).toNat ≤ x * 2 ^ c.toNat :=
  Nat.div_mul_le_self _ _

theorem shifted_lt {x z : ℕ} (hx : x * 2 ^ z < 2 ^ 32) (hc : c + 32 ≤ z + n) :
    shifted x c < 2 ^ n := by
  by_contra hlarge
  have hl : 2 ^ (n + (-c).toNat) ≤ x * 2 ^ c.toNat := by
    rw [Nat.pow_add]
    exact (Nat.mul_le_mul_right _ (Nat.le_of_not_lt hlarge)).trans (shifted_mul_le x c)
  have he := add_lt_add_of_two_pow_le_of_lt hl hx
  omega

theorem shiftU32_eq_shifted {x z : ℕ} (hx : x * 2 ^ z < 2 ^ 32) (hz : z ≤ 32)
    (hc : c + 2 ≤ z) (hl : -32 < c) : shiftU32 x c = some (shifted x c) := by
  have hlt : shifted x c < 2 ^ 30 := shifted_lt hx (by omega)
  unfold shifted at hlt ⊢
  by_cases hpos : 0 ≤ c
  · rw [shiftU32, if_pos hpos, if_pos (by omega)]
    rw [Int.toNat_of_nonpos (z := -c) (by omega), Nat.pow_zero, Nat.div_one] at hlt ⊢
    rw [Nat.mod_eq_of_lt (by omega)]
  · rw [shiftU32, if_neg hpos, if_pos hl]
    rw [Int.toNat_of_nonpos (z := c) (by omega), Nat.pow_zero, Nat.mul_one]

theorem addSatW32_le (a b : ℤ) : addSatW32 a b ≤ word32Max := by
  have hsum : toInt32 (a + b) < 2 ^ 31 := Int.bmod_lt (by decide)
  simp only [addSatW32, word32Max, word32Min]
  split_ifs <;> omega

theorem addSatW32_eq {a b : ℤ} (hal : word32Min ≤ a) (hau : a ≤ word32Max) (hbl : word32Min ≤ b)
    (hbu : b ≤ word32Max) : addSatW32 a b = max word32Min (min (a + b) word32Max) := by
  simp only [word32Min, word32Max] at *
  have hsum : toInt32 (a + b) = if a + b < -2 ^ 31 then a + b + 2 ^ 32
      else if 2 ^ 31 ≤ a + b then a + b - 2 ^ 32 else a + b := by
    simp only [toInt32, Int.bmod_def]
    split_ifs <;> omega
  simp only [addSatW32, hsum, word32Min, word32Max]
  split_ifs <;> omega

end WebRtcAudio.CommonAudio
