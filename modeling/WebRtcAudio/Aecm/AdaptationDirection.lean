import Mathlib.Tactic.Ring
import WebRtcAudio.Aecm.BinAdaptation

/-! The channel moves in the direction of the error, unless the step is too long for 32 bits. -/
namespace WebRtcAudio.Aecm

open WebRtcAudio.Core WebRtcAudio.CommonAudio Option

/-- A bin whose values are in the ranges that the echo canceller gives them. -/
structure AdmissibleBin extends Bin where
  i_lt : i < 65
  channel_nonneg : 0 ≤ channel
  channel_le : channel ≤ word32Max
  far_lt : far < 2 ^ 16
  dfa_lt : dfa < 2 ^ 16
  farQ_nonneg : 0 ≤ farQ
  farQ_le : farQ ≤ 15
  dfaNoisyQDomain_nonneg : 0 ≤ dfaNoisyQDomain
  dfaNoisyQDomain_le : dfaNoisyQDomain ≤ 15
  mu_pos : 1 ≤ mu
  mu_le : mu ≤ 10

theorem div_mul_mul_two_pow_lt {a f s z w p : ℕ} (ha : a * 2 ^ z ≤ 2 ^ p)
    (hf : f * 2 ^ w < 2 ^ 32) :
    a / 2 ^ s * f * 2 ^ (s + z + w) < 2 ^ (p + 32) := by
  have hs : a / 2 ^ s * 2 ^ s ≤ a := Nat.div_mul_le_self _ _
  generalize a / 2 ^ s = m at hs
  calc m * f * 2 ^ (s + z + w) = m * 2 ^ s * 2 ^ z * (f * 2 ^ w) := by ring
    _ ≤ a * 2 ^ z * (f * 2 ^ w) := by gcongr
    _ ≤ 2 ^ p * (f * 2 ^ w) := by gcongr
    _ < 2 ^ p * 2 ^ 32 := by gcongr
    _ = 2 ^ (p + 32) := (Nat.pow_add 2 p 32).symm

namespace AdmissibleBin

variable (b : AdmissibleBin)

def magnitude : ℕ := b.channel.toNat

theorem channel_eq : b.channel = b.magnitude :=
  (Int.toNat_of_nonneg b.channel_nonneg).symm

theorem magnitude_lt : b.magnitude < 2 ^ 31 := by
  have hle := b.channel_le
  rw [channel_eq, word32Max] at hle
  omega

theorem zerosCh_eq : b.zerosCh = normU32 b.magnitude := by
  have hlt := b.magnitude_lt
  rw [Bin.zerosCh, channel_eq, toUInt32_natCast (by omega)]

theorem magnitude_mul_lt : b.magnitude * 2 ^ b.zerosCh < 2 ^ 32 := by
  have hlt := b.magnitude_lt
  rw [zerosCh_eq]
  exact normU32_lt (by omega)

theorem le_magnitude_mul (h : b.magnitude ≠ 0) : 2 ^ 31 ≤ b.magnitude * 2 ^ b.zerosCh := by
  have hlt := b.magnitude_lt
  rw [zerosCh_eq]
  exact le_normU32 (by omega) h

theorem far_mul_lt : b.far * 2 ^ b.zerosFar < 2 ^ 32 := by
  have hlt := b.far_lt
  exact normU32_lt (by omega)

theorem le_far_mul (h : b.far ≠ 0) : 2 ^ 31 ≤ b.far * 2 ^ b.zerosFar := by
  have hlt := b.far_lt
  exact le_normU32 (by omega) h

theorem le_zerosFar (h : b.far ≠ 0) : 16 ≤ b.zerosFar := by
  have hlt := b.far_lt
  have hexp := add_lt_add_of_two_pow_le_of_lt (k := 0) (n := 16) (b.le_far_mul h) (by omega)
  omega

theorem shiftChFar_cases : b.shiftChFar = 0 ∧ 32 ≤ b.zerosCh + b.zerosFar ∨
      b.shiftChFar + b.zerosCh + b.zerosFar = 32 := by
  unfold Bin.shiftChFar
  split <;> omega

theorem shiftChFar_le : b.shiftChFar ≤ 32 := by
  unfold Bin.shiftChFar
  split <;> omega

theorem shiftedProduct_mul_lt :
    b.magnitude / 2 ^ b.shiftChFar * b.far * 2 ^ (b.shiftChFar + b.zerosCh + b.zerosFar) <
      2 ^ 64 := div_mul_mul_two_pow_lt b.magnitude_mul_lt.le b.far_mul_lt

theorem shiftedProduct_lt : b.magnitude / 2 ^ b.shiftChFar * b.far < 2 ^ 32 := by
  by_contra hl
  have hl' : 2 ^ 32 ≤ b.magnitude / 2 ^ b.shiftChFar * b.far * 2 ^ 0 := by omega
  have hexp := add_lt_add_of_two_pow_le_of_lt hl' b.shiftedProduct_mul_lt
  have hcases := b.shiftChFar_cases
  omega

theorem channelFar_eq : b.channelFar = b.magnitude / 2 ^ b.shiftChFar * b.far := by
  have hlt := b.magnitude_lt
  have hp := b.shiftedProduct_lt
  have hdiv : b.channel / 2 ^ b.shiftChFar = (b.magnitude / 2 ^ b.shiftChFar : ℕ) := by
    rw [channel_eq]
    push_cast
    rfl
  have hle : b.magnitude / 2 ^ b.shiftChFar ≤ b.magnitude := Nat.div_le_self _ _
  unfold Bin.channelFar
  split_ifs with hs hall
  · have hz : b.shiftChFar = 0 := by
      rw [Bin.shiftChFar, if_pos hs]
    rw [hz, Nat.pow_zero, Nat.div_one] at hp ⊢
    rw [channel_eq, toUInt32_natCast (by omega), Nat.mod_eq_of_lt hp]
  · have hpow : b.magnitude < 2 ^ b.shiftChFar :=
      calc b.magnitude < 2 ^ 32 := by omega
        _ ≤ 2 ^ b.shiftChFar := Nat.pow_le_pow_right two_pos hall
    rw [Nat.div_eq_of_lt hpow, toUInt32, Int.zero_emod, Int.toNat_zero, Nat.zero_mul, Nat.zero_mod]
  · rw [hdiv, toUInt32_natCast (by omega), Nat.mod_eq_of_lt hp]

theorem channelFar_mul_lt : b.channelFar * 2 ^ b.zerosNum < 2 ^ 32 := by
  apply normU32_lt
  rw [channelFar_eq]
  exact b.shiftedProduct_lt

theorem le_channelFar_mul (h : b.channelFar ≠ 0) : 2 ^ 31 ≤ b.channelFar * 2 ^ b.zerosNum := by
  apply le_normU32 _ h
  rw [channelFar_eq]
  exact b.shiftedProduct_lt

theorem dfa_mul_lt : b.dfa * 2 ^ b.zerosDfa < 2 ^ 32 := by
  have hlt := b.dfa_lt
  unfold Bin.zerosDfa
  split
  · next hz => rw [hz, Nat.zero_mul]; decide
  · exact normU32_lt (by omega)

theorem le_zerosDfa : 16 ≤ b.zerosDfa := by
  have hlt := b.dfa_lt
  unfold Bin.zerosDfa
  split
  · decide
  · next hne =>
    have hn := le_normU32 (a := b.dfa) (by omega) hne
    have hexp := add_lt_add_of_two_pow_le_of_lt (k := 0) (n := 16) hn (by omega)
    omega

theorem zerosDfa_le : b.zerosDfa ≤ 32 := by
  have hle := normU32_le b.dfa
  unfold Bin.zerosDfa
  split <;> omega

theorem ranges : (0 ≤ b.farQ ∧ b.farQ ≤ 15) ∧ (0 ≤ b.dfaNoisyQDomain ∧ b.dfaNoisyQDomain ≤ 15) ∧
    (1 ≤ b.mu ∧ b.mu ≤ 10) ∧ b.shiftChFar ≤ 32 ∧ (16 ≤ b.zerosDfa ∧ b.zerosDfa ≤ 32) ∧
    b.zerosNum ≤ 31 :=
  ⟨⟨b.farQ_nonneg, b.farQ_le⟩, ⟨b.dfaNoisyQDomain_nonneg, b.dfaNoisyQDomain_le⟩,
    ⟨b.mu_pos, b.mu_le⟩, b.shiftChFar_le, ⟨b.le_zerosDfa, b.zerosDfa_le⟩, normU32_le _⟩

theorem farQLimit_eq : b.farQLimit =
    b.zerosDfa - 30 + b.dfaNoisyQDomain - b.farQ + b.shiftChFar := by
  have hr := b.ranges
  rw [Bin.farQLimit, resolutionChannel32, toInt16_eq_self (by omega)]
  ring

theorem xfaQ_eq : b.xfaQ =
    min (b.zerosDfa - 30 + b.dfaNoisyQDomain - b.farQ + b.shiftChFar) (b.zerosNum - 2) := by
  rw [Bin.xfaQ, farQLimit_eq]
  split <;> omega

theorem xfaQ_bounds : -29 ≤ b.xfaQ ∧ b.xfaQ ≤ 29 := by
  have hr := b.ranges
  rw [xfaQ_eq]
  omega

theorem dfaQ_eq : b.dfaQ = b.xfaQ + 28 + b.farQ - b.dfaNoisyQDomain - b.shiftChFar := by
  have hx := b.xfaQ_bounds
  have hr := b.ranges
  unfold Bin.dfaQ
  split
  · next hl =>
    rw [Bin.xfaQ, if_pos hl, farQLimit_eq]
    ring
  · rw [resolutionChannel32, toInt16_eq_self (by omega)]
    ring

/-- The echo estimate in the Q-domain in which it is compared with the near end. -/
def alignedEcho : ℕ := shifted b.channelFar b.xfaQ

def alignedNear : ℕ := shifted b.dfa b.dfaQ

theorem alignedEcho_lt : b.alignedEcho < 2 ^ 30 := by
  have hx := b.xfaQ_eq
  exact shifted_lt b.channelFar_mul_lt (by omega)

theorem dfaQ_le : b.dfaQ ≤ b.zerosDfa - 2 := by
  have hx := b.xfaQ_eq
  rw [dfaQ_eq]
  omega

theorem dfaQ_gt : -32 < b.dfaQ := by
  have hx := b.xfaQ_eq
  have hr := b.ranges
  rw [dfaQ_eq]
  omega

theorem alignedNear_lt : b.alignedNear < 2 ^ 30 := by
  have hd := b.dfaQ_le
  exact shifted_lt b.dfa_mul_lt (by omega)

/-- No operation on the way to the error overflows: it is the difference of the aligned values. -/
theorem error_eq : b.error = some (b.alignedNear - b.alignedEcho : ℤ) := by
  have hecho := b.alignedEcho_lt
  have hnear := b.alignedNear_lt
  have hx := b.xfaQ_eq
  have hs : shiftU32 b.channelFar b.xfaQ = some b.alignedEcho := by
    have hb := b.xfaQ_bounds
    exact shiftU32_eq_shifted b.channelFar_mul_lt (by have := b.ranges; omega) (by omega) (by omega)
  have hshift' : shiftU32 b.dfa b.dfaQ = some b.alignedNear := by
    have hd := b.dfaQ_le
    have hb := b.dfaQ_gt
    exact shiftU32_eq_shifted b.dfa_mul_lt b.zerosDfa_le (by omega) hb
  simp only [Bin.error, bind_eq_bind, bind_eq_some_iff]
  refine ⟨_, hs, _, hshift', ?_⟩
  rw [toInt32_eq_self (by omega), toInt32_eq_self (by omega),
    int32?_eq_some (by omega)]

section Step

variable {b} {e : ℤ}

theorem natAbs_error_lt (he : b.error = some e) : e.natAbs < 2 ^ 30 := by
  have hecho := b.alignedEcho_lt
  have hnear := b.alignedNear_lt
  rw [error_eq, some_inj] at he
  omega

theorem shiftNum_eq : b.shiftNum e = 32 - (normW32 e + b.zerosFar) := by
  unfold Bin.shiftNum
  split <;> omega

/-- The error, shifted so that the product with the far end fits into 32 bits, times the far end. -/
def stepProduct (b : AdmissibleBin) (e : ℤ) : ℕ :=
  e.natAbs / 2 ^ (32 - (normW32 e + b.zerosFar)) * b.far

def stepLength (b : AdmissibleBin) (e : ℤ) : ℕ := b.stepProduct e / (b.i + 1)

theorem divW32W16_errorFar (hne : e ≠ 0) : divW32W16 (e.sign * b.stepProduct e) (b.i + 1) =
    e.sign * b.stepLength e := by
  have hc : (b.stepProduct e : ℤ).tdiv (b.i + 1) = b.stepLength e := by
    rw [Int.natCast_tdiv_eq_ediv, stepLength]
    push_cast
    rfl
  rw [divW32W16, if_neg (by omega)]
  obtain hneg | hpos := Int.lt_or_gt_of_ne hne
  · rw [Int.sign_eq_neg_one_of_neg hneg, neg_one_mul, neg_one_mul, Int.neg_tdiv, hc]
  · rw [Int.sign_eq_one_of_pos hpos, one_mul, one_mul, hc]

section
variable (he : b.error = some e) (hne : e ≠ 0)
include he hne

theorem natAbs_error_mul :
    e.natAbs * 2 ^ normW32 e ≤ 2 ^ 31 ∧ 2 ^ 31 ≤ e.natAbs * 2 ^ (normW32 e + 1) := by
  have hlt := natAbs_error_lt he
  apply normW32_natAbs hne <;> simp only [word32Min, word32Max] <;> omega

theorem one_le_normW32_error : 1 ≤ normW32 e := by
  have hlt := natAbs_error_lt he
  have hexp := add_lt_add_of_two_pow_le_of_lt (k := 0) (n := 30) (natAbs_error_mul he hne).2
    (by omega)
  omega

theorem stepProduct_lt : b.stepProduct e < 2 ^ 31 := by
  by_contra hl
  have hl' : 2 ^ 31 ≤ b.stepProduct e * 2 ^ 0 := by omega
  have hexp := add_lt_add_of_two_pow_le_of_lt hl'
    (div_mul_mul_two_pow_lt (natAbs_error_mul he hne).1 b.far_mul_lt)
  omega

theorem errorFar_eq :
    b.errorFar e = some (e.sign * b.stepProduct e) := by
  have hp := stepProduct_lt he hne
  have hlt := natAbs_error_lt he
  obtain ⟨m, hm⟩ := e.eq_nat_or_neg
  have habs : e.natAbs = m := by omega
  rw [stepProduct, habs] at hp ⊢
  unfold Bin.errorFar
  split
  · next hsafe =>
    -- no shift is needed
    rw [Nat.sub_eq_zero_of_le (by omega), Nat.pow_zero, Nat.div_one] at hp ⊢
    have hc : toInt32 (m * b.far : ℕ) = (m * b.far : ℕ) :=
      toInt32_eq_self (by omega)
    obtain rfl | rfl := hm
    · rw [if_pos (by omega), toUInt32_natCast (by omega), ← Nat.cast_mul, hc,
        Int.sign_eq_one_of_pos (by omega), one_mul]
    · rw [if_neg (by omega), neg_neg, toUInt32_natCast (by omega), ← Nat.cast_mul, hc,
        Int.sign_eq_neg_one_of_neg (by omega), neg_one_mul, int32?_eq_some (by omega)]
  · next hshift =>
    rw [shiftNum_eq]
    generalize 32 - (normW32 e + b.zerosFar) = k at hp
    have hc : (m : ℤ) / 2 ^ k * b.far = (m / 2 ^ k * b.far : ℕ) := by
      push_cast
      rfl
    obtain rfl | rfl := hm
    · rw [if_pos (by omega), hc, Int.sign_eq_one_of_pos (by omega), one_mul,
        int32?_eq_some (by omega)]
    · rw [if_neg (by omega), neg_neg, bind_eq_bind, bind_eq_some_iff]
      refine ⟨m, int32?_eq_some (by omega), ?_⟩
      rw [hc, Int.sign_eq_neg_one_of_neg (by omega), neg_one_mul,
        int32?_eq_some (by omega)]

theorem stepLength_lt : b.stepLength e < 2 ^ 31 :=
  (Nat.div_le_self _ _).trans_lt (stepProduct_lt he hne)

end

/-- The far end is loud enough for the bin to adapt. -/
def Active (b : AdmissibleBin) : Prop := channelVad * 2 ^ b.farQ.toNat < b.far

theorem Active.far_ne_zero (hactive : b.Active) : b.far ≠ 0 := by
  unfold Active at hactive
  omega

theorem Active.zerosFar_bounds (hactive : b.Active) :
    16 ≤ b.zerosFar ∧ b.farQ + b.zerosFar ≤ 27 := by
  have hf := b.farQ_nonneg
  have hlow : 2 ^ (b.farQ.toNat + 4) ≤ b.far * 2 ^ 0 := by
    have hl : channelVad * 2 ^ b.farQ.toNat < b.far := hactive
    rw [channelVad] at hl
    rw [Nat.pow_add]
    omega
  have hexp := add_lt_add_of_two_pow_le_of_lt hlow b.far_mul_lt
  exact ⟨b.le_zerosFar hactive.far_ne_zero, by omega⟩

theorem shift2ResChan_eq (hactive : b.Active) : b.shift2ResChan e =
    (32 - (normW32 e + b.zerosFar) : ℕ) + b.shiftChFar - b.xfaQ - b.mu - 60 + 2 * b.zerosFar := by
  have hx := b.xfaQ_bounds
  have hr := b.ranges
  have hzeros := hactive.zerosFar_bounds
  rw [Bin.shift2ResChan, shiftNum_eq, toInt16_eq_self (by omega)]
  ring

theorem shift2ResChan_lt (he : b.error = some e) (hne : e ≠ 0) (hactive : b.Active) :
    b.shift2ResChan e < 31 := by
  have hnorm := one_le_normW32_error he hne
  have hx := b.xfaQ_eq
  have hr := b.ranges
  have hcases := b.shiftChFar_cases
  have hzeros := hactive.zerosFar_bounds
  rw [shift2ResChan_eq hactive]
  omega

/-- The increment is undefined for a right shift by 32 or more, it is the largest word where the
left shift would leave 32 bits, and otherwise it has the sign of the error. -/
theorem increment_cases (he : b.error = some e) (hne : e ≠ 0) (hactive : b.Active) :
    b.shift2ResChan e ≤ -32 ∧ b.increment e = none ∨ -32 < b.shift2ResChan e ∧
      (normW32 (e.sign * b.stepLength e) < b.shift2ResChan e ∧ b.increment e = some word32Max ∨
      ¬ normW32 (e.sign * b.stepLength e) < b.shift2ResChan e ∧
        ∃ y, b.increment e = some y ∧ word32Min ≤ y ∧ y ≤ word32Max ∧ (0 < e → 0 ≤ y) ∧
          (e < 0 → y ≤ 0)) := by
  have hlt := stepLength_lt he hne
  have hin : b.increment e =
      if (normW32 (e.sign * b.stepLength e) : ℤ) < b.shift2ResChan e then some word32Max
      else shiftW32 (e.sign * b.stepLength e) (b.shift2ResChan e) := by
    rw [Bin.increment, errorFar_eq he hne, ← divW32W16_errorFar hne]
    rfl
  rw [hin]
  obtain hs | hl := lt_or_ge (-32) (b.shift2ResChan e)
  · refine .inr ⟨hs, ?_⟩
    split
    · next hsat => exact .inl ⟨hsat, rfl⟩
    · next hf =>
      refine .inr ⟨hf, ?_⟩
      have hb := shift2ResChan_lt he hne hactive
      have hsign : (0 < e → e.sign * b.stepLength e = b.stepLength e) ∧
          (e < 0 → e.sign * b.stepLength e = -b.stepLength e) :=
        ⟨fun h => by rw [Int.sign_eq_one_of_pos h, one_mul],
          fun h => by rw [Int.sign_eq_neg_one_of_neg h, neg_one_mul]⟩
      generalize e.sign * (b.stepLength e : ℤ) = t at hf hsign ⊢
      obtain ⟨y, hy, hmin, hmax, hpos, hneg⟩ := shiftW32_sign (a := t)
        (by simp only [word32Min]; omega) (by simp only [word32Max]; omega) hs hb
        (by omega)
      exact ⟨y, hy, hmin, hmax, fun h => hpos (by omega), fun h => hneg (by omega)⟩
  · refine .inl ⟨hl, ?_⟩
    rw [if_neg (by omega), shiftW32_eq_none hl]

section
variable (hne : b.channelFar ≠ 0)
include hne

theorem magnitude_ne_zero : b.magnitude ≠ 0 := by
  rintro hz
  rw [channelFar_eq, hz, Nat.zero_div, Nat.zero_mul] at hne
  exact hne rfl

theorem far_ne_zero : b.far ≠ 0 := by
  rintro hz
  rw [channelFar_eq, hz, Nat.mul_zero] at hne
  exact hne rfl

theorem le_shifted_magnitude :
    2 ^ 31 ≤ b.magnitude / 2 ^ b.shiftChFar * 2 ^ (b.shiftChFar + b.zerosCh) := by
  have hm := b.le_magnitude_mul (magnitude_ne_zero hne)
  have hfar := b.le_zerosFar (far_ne_zero hne)
  obtain ⟨hz, -⟩ | hsum := b.shiftChFar_cases
  · rwa [hz, Nat.pow_zero, Nat.div_one, Nat.zero_add]
  · have hle : 2 ^ (31 - b.zerosCh) ≤ b.magnitude := by
      apply Nat.le_of_mul_le_mul_right _ (Nat.two_pow_pos b.zerosCh)
      rwa [← Nat.pow_add, Nat.sub_add_cancel (by omega)]
    have hdiv : 2 ^ (31 - (b.shiftChFar + b.zerosCh)) ≤ b.magnitude / 2 ^ b.shiftChFar := by
      rw [Nat.le_div_iff_mul_le (Nat.two_pow_pos _), ← Nat.pow_add]
      convert hle using 2
      omega
    calc 2 ^ 31 = 2 ^ (31 - (b.shiftChFar + b.zerosCh)) * 2 ^ (b.shiftChFar + b.zerosCh) := by
          rw [← Nat.pow_add, Nat.sub_add_cancel (by omega)]
      _ ≤ b.magnitude / 2 ^ b.shiftChFar * 2 ^ (b.shiftChFar + b.zerosCh) :=
        Nat.mul_le_mul_right _ hdiv

theorem zerosNum_bounds : b.zerosCh + b.zerosFar + b.shiftChFar ≤ b.zerosNum + 32 ∧
      b.zerosNum + 31 ≤ b.zerosCh + b.zerosFar + b.shiftChFar := by
  have hlt := b.shiftedProduct_mul_lt
  have hle : 2 ^ 62 ≤ b.channelFar * 2 ^ (b.shiftChFar + b.zerosCh + b.zerosFar) :=
    calc 2 ^ 62 = 2 ^ 31 * 2 ^ 31 := by norm_num
      _ ≤ b.magnitude / 2 ^ b.shiftChFar * 2 ^ (b.shiftChFar + b.zerosCh) *
          (b.far * 2 ^ b.zerosFar) :=
        Nat.mul_le_mul (le_shifted_magnitude hne) (b.le_far_mul (far_ne_zero hne))
      _ = b.channelFar * 2 ^ (b.shiftChFar + b.zerosCh + b.zerosFar) := by
        rw [channelFar_eq]
        ring
  rw [← channelFar_eq] at hlt
  have hexp := add_lt_add_of_two_pow_le_of_lt hle b.channelFar_mul_lt
  have hexp' := add_lt_add_of_two_pow_le_of_lt (b.le_channelFar_mul hne) hlt
  omega

theorem one_le_zerosCh : 1 ≤ b.zerosCh := by
  have hlt := b.magnitude_lt
  have hexp := add_lt_add_of_two_pow_le_of_lt (k := 0) (n := 31)
    (b.le_magnitude_mul (magnitude_ne_zero hne)) (by omega)
  omega

end

section
variable (he : b.error = some e) (hneg : e < 0)
include he hneg

theorem channelFar_ne_zero : b.channelFar ≠ 0 := by
  intro hz
  rw [error_eq, some_inj, alignedEcho, hz, shifted, Nat.zero_mul, Nat.zero_div] at he
  omega

theorem zerosNum_le : (b.zerosNum : ℤ) ≤ b.xfaQ + normW32 e + 1 := by
  have hn := (natAbs_error_mul he hneg.ne).2
  have hecho := shifted_mul_le b.channelFar b.xfaQ
  have hle : e.natAbs ≤ b.alignedEcho := by
    rw [error_eq, some_inj] at he
    omega
  have hsc : 2 ^ (31 + (-b.xfaQ).toNat) ≤
      b.channelFar * 2 ^ (b.xfaQ.toNat + (normW32 e + 1)) :=
    calc 2 ^ (31 + (-b.xfaQ).toNat) = 2 ^ 31 * 2 ^ (-b.xfaQ).toNat := Nat.pow_add _ _ _
      _ ≤ e.natAbs * 2 ^ (normW32 e + 1) * 2 ^ (-b.xfaQ).toNat := Nat.mul_le_mul_right _ hn
      _ ≤ b.alignedEcho * 2 ^ (normW32 e + 1) * 2 ^ (-b.xfaQ).toNat := by gcongr
      _ = b.alignedEcho * 2 ^ (-b.xfaQ).toNat * 2 ^ (normW32 e + 1) := Nat.mul_right_comm _ _ _
      _ ≤ b.channelFar * 2 ^ b.xfaQ.toNat * 2 ^ (normW32 e + 1) := Nat.mul_le_mul_right _ hecho
      _ = b.channelFar * 2 ^ (b.xfaQ.toNat + (normW32 e + 1)) := by
        rw [Nat.mul_assoc, ← Nat.pow_add]
  have hexp := add_lt_add_of_two_pow_le_of_lt hsc b.channelFar_mul_lt
  omega

theorem xfaQ_eq_of_neg (hd : b.dfa ≠ 0) : b.xfaQ = b.zerosNum - 2 := by
  by_contra hne
  have hx := b.xfaQ_eq
  have hzeros := b.le_zerosDfa
  have hecho : b.alignedEcho < 2 ^ 29 := shifted_lt b.channelFar_mul_lt (by omega)
  have hdfaQ : b.dfaQ = (b.zerosDfa - 2 : ℕ) := by
    rw [dfaQ_eq]
    omega
  have hnear : 2 ^ 29 ≤ b.alignedNear := by
    have hlt := b.dfa_lt
    have hn := le_normU32 (a := b.dfa) (by omega) hd
    have hs : 2 ^ normU32 b.dfa = 2 ^ (b.zerosDfa - 2) * 4 := by
      have hpow : (4 : ℕ) = 2 ^ 2 := rfl
      rw [hpow, ← Nat.pow_add, Nat.sub_add_cancel (by omega), Bin.zerosDfa, if_neg hd]
    rw [hs, ← Nat.mul_assoc] at hn
    rw [alignedNear, hdfaQ, shifted, Int.toNat_natCast,
      Int.toNat_of_nonpos (z := -((b.zerosDfa - 2 : ℕ) : ℤ)) (by omega), Nat.pow_zero,
      Nat.div_one]
    omega
  rw [error_eq, some_inj] at he
  omega

theorem shift2ResChan_eq_of_neg (hactive : b.Active)
    (h : 1 ≤ b.shift2ResChan e ∨ 1 ≤ 6 - (b.mu.toNat + b.zerosCh + b.zerosNum + normW32 e)) :
    b.shift2ResChan e = (6 - (b.mu.toNat + b.zerosCh + b.zerosNum + normW32 e) : ℕ) ∧
      normW32 e ≤ 3 := by
  have hne : e ≠ 0 := hneg.ne
  have hp := channelFar_ne_zero he hneg
  have hnorm := one_le_normW32_error he hne
  have hn := zerosNum_bounds hp
  have hch := one_le_zerosCh hp
  have hle := zerosNum_le he hneg
  have hx := b.xfaQ_eq
  have hcases := b.shiftChFar_cases
  have hr := b.ranges
  have hzeros := hactive.zerosFar_bounds
  have hd : b.zerosDfa = 32 ∨ b.xfaQ = b.zerosNum - 2 := by
    by_cases hd : b.dfa = 0
    · exact .inl (by rw [Bin.zerosDfa, if_pos hd])
    · exact .inr (xfaQ_eq_of_neg he hneg hd)
  rw [shift2ResChan_eq hactive] at h ⊢
  omega

end

def leftShift (b : AdmissibleBin) (e : ℤ) : ℕ :=
  6 - (b.mu.toNat + b.zerosCh + b.zerosNum + normW32 e)

theorem stepLength_pos (he : b.error = some e) (hne : e ≠ 0) (hactive : b.Active)
    (hnorm : normW32 e ≤ 3) : 0 < b.stepLength e := by
  have hzeros := hactive.zerosFar_bounds
  have hone := one_le_normW32_error he hne
  have hbin := b.i_lt
  have herr : 2 ^ 27 ≤ e.natAbs := by
    have hpow : 2 ^ (normW32 e + 1) ≤ 2 ^ 4 := Nat.pow_le_pow_right two_pos (by omega)
    have hlow := (natAbs_error_mul he hne).2
    have hmul := Nat.mul_le_mul_left e.natAbs hpow
    omega
  have hdiv : 65 ≤ e.natAbs / 2 ^ (32 - (normW32 e + b.zerosFar)) := by
    rw [Nat.le_div_iff_mul_le (Nat.two_pow_pos _)]
    have hpow : 2 ^ (32 - (normW32 e + b.zerosFar)) ≤ 2 ^ 15 :=
      Nat.pow_le_pow_right two_pos (by omega)
    omega
  have hfar : 1 ≤ b.far := Nat.pos_of_ne_zero hactive.far_ne_zero
  have hp := Nat.mul_le_mul hdiv hfar
  apply Nat.div_pos _ (Nat.succ_pos _)
  unfold stepProduct
  omega

/-- For a negative error the increment is the largest word exactly if the shifted step does not
fit. -/
theorem saturates_iff (he : b.error = some e) (hneg : e < 0) (hactive : b.Active) :
    normW32 (e.sign * b.stepLength e) < b.shift2ResChan e ↔
      2 ^ 31 < b.stepLength e * 2 ^ b.leftShift e := by
  have hlt := stepLength_lt he hneg.ne
  have hc := shift2ResChan_eq_of_neg he hneg hactive
  rw [← leftShift] at hc
  rw [Int.sign_eq_neg_one_of_neg hneg, neg_one_mul]
  constructor
  · intro hsat
    obtain ⟨hs, hn⟩ := hc (.inl (by omega))
    have hpos := stepLength_pos he hneg.ne hactive hn
    rw [hs] at hsat
    exact (normW32_neg_lt_iff hpos hlt.le _).mp (by exact_mod_cast hsat)
  · intro hl
    have hone : 1 ≤ b.leftShift e := by
      by_contra hz
      rw [Nat.lt_one_iff.mp (Nat.lt_of_not_le hz), Nat.pow_zero] at hl
      omega
    obtain ⟨hs, hn⟩ := hc (.inr hone)
    have hpos := stepLength_pos he hneg.ne hactive hn
    rw [hs]
    exact_mod_cast (normW32_neg_lt_iff hpos hlt.le _).mpr hl

end Step

/-- No operation overflows, and the channel does not move against the error. -/
def FollowsError : Prop :=
  ∃ e channel, b.error = some e ∧ b.nextChannel = some channel ∧ (e < 0 → channel ≤ b.channel) ∧
    (0 < e → b.channel ≤ channel) ∧ 0 ≤ channel ∧ channel ≤ word32Max

/-- The right shift of the step is by less than 32 bits. -/
def ShiftDefined (e : ℤ) : Prop :=
  b.xfaQ + b.mu + 29 ≤ (32 - (normW32 e + b.zerosFar) : ℕ) + b.shiftChFar + 2 * b.zerosFar

/-- The step fits into 32 bits after its left shift. -/
def StepFits (e : ℤ) : Prop := b.stepLength e * 2 ^ b.leftShift e ≤ 2 ^ 31

theorem farThreshold_eq : b.farThreshold = some (channelVad * 2 ^ b.farQ.toNat) := by
  have hf := b.farQ_nonneg
  have hf' := b.farQ_le
  rw [Bin.farThreshold, if_pos (by omega)]

variable {b} {e : ℤ}

theorem nextChannel_of_idle (he : b.error = some e) (hi : e = 0 ∨ ¬ b.Active) :
    b.nextChannel = some b.channel := by
  have ha : b.adapted = some none := by
    rw [Bin.adapted, he, bind_some]
    split
    · rfl
    · next hne =>
      have hs : ¬ b.Active := hi.resolve_left hne
      rw [farThreshold_eq, bind_some, if_pos (Nat.le_of_not_lt hs)]
  rw [Bin.nextChannel, ha]
  rfl

theorem addSatW32_channel {y : ℤ} (hmin : word32Min ≤ y) (hmax : y ≤ word32Max) :
    max (addSatW32 b.channel y) 0 = max (min (b.channel + y) word32Max) 0 := by
  have hn := b.channel_nonneg
  rw [addSatW32_eq (by rw [word32Min]; omega) b.channel_le hmin hmax]
  simp only [word32Min, word32Max]
  omega

theorem shiftDefined_iff (hactive : b.Active) : b.ShiftDefined e ↔ -32 < b.shift2ResChan e := by
  rw [ShiftDefined, shift2ResChan_eq hactive]
  omega

section
variable (he : b.error = some e) (hne : e ≠ 0) (hactive : b.Active)
include he hne hactive

theorem nextChannel_of_active :
    b.nextChannel = (b.increment e).map fun y => max (addSatW32 b.channel y) 0 := by
  rw [Bin.nextChannel, Bin.adapted, he, bind_some, if_neg hne, farThreshold_eq,
    bind_some, if_neg (Nat.not_le_of_lt hactive), Option.map_map]
  rfl

theorem not_followsError_of_undefined
    (hun : b.increment e = none) : ¬ b.FollowsError := by
  rintro ⟨_, channel, -, hn, -⟩
  rw [nextChannel_of_active he hne hactive, hun] at hn
  exact absurd hn nofun

theorem followsError_of_step {y : ℤ}
    (hs : b.increment e = some y) (hmin : word32Min ≤ y) (hmax : y ≤ word32Max) :
    b.FollowsError ↔ (e < 0 → y ≤ 0 ∨ b.channel = word32Max) ∧ (0 < e → 0 ≤ y ∨ b.channel = 0) := by
  have hnonneg := b.channel_nonneg
  have hle := b.channel_le
  have hn : b.nextChannel = some (max (min (b.channel + y) word32Max) 0) := by
    rw [nextChannel_of_active he hne hactive, hs, map_some, addSatW32_channel hmin hmax]
  simp only [word32Min, word32Max] at *
  constructor
  · rintro ⟨_, channel, he', hn', hneg, hpos, -⟩
    obtain rfl : e = _ := Option.some_inj.mp (he.symm.trans he')
    obtain rfl : _ = channel := Option.some_inj.mp (hn.symm.trans hn')
    omega
  · rintro ⟨hneg, hpos⟩
    exact ⟨e, _, he, hn, by omega, by omega, by omega, by simp only [word32Max]; omega⟩

/-- The condition for a bin that adapts: the three cases of its increment. -/
theorem followsError_iff_of_active :
    b.FollowsError ↔ b.ShiftDefined e ∧ (e < 0 → b.channel = word32Max ∨ b.StepFits e) := by
  rw [shiftDefined_iff hactive, StepFits]
  obtain ⟨hs, hun⟩ | ⟨hs, ⟨hsat, hstep⟩ | ⟨hfits, y, hstep, hmin, hmax, hpos, hneg⟩⟩ :=
    increment_cases he hne hactive
  · have hfails := not_followsError_of_undefined he hne hactive hun
    exact iff_of_false hfails fun h => absurd h.1 (by omega)
  · rw [followsError_of_step he hne hactive hstep (by decide) le_rfl]
    have hl : e < 0 → ¬ b.stepLength e * 2 ^ b.leftShift e ≤ 2 ^ 31 := fun h =>
      Nat.not_le_of_lt ((saturates_iff he h hactive).mp hsat)
    constructor
    · rintro ⟨hf, -⟩
      exact ⟨hs, fun h => .inl ((hf h).resolve_left (by decide))⟩
    · rintro ⟨-, hfits⟩
      exact ⟨fun h => .inr ((hfits h).resolve_right (hl h)), fun _ => .inl (by decide)⟩
  · rw [followsError_of_step he hne hactive hstep hmin hmax]
    have hshort : e < 0 → b.stepLength e * 2 ^ b.leftShift e ≤ 2 ^ 31 := fun h =>
      Nat.le_of_not_lt fun hl => hfits ((saturates_iff he h hactive).mpr hl)
    exact iff_of_true ⟨fun h => .inl (hneg h), fun h => .inl (hpos h)⟩
      ⟨hs, fun h => .inr (hshort h)⟩

end

/-- The channel follows the error exactly if, in a bin that adapts, the shift is defined and for a
negative error the step fits or the channel is already the largest word. -/
theorem followsError_iff (b : AdmissibleBin) : b.FollowsError ↔
    ∀ e, b.error = some e → e ≠ 0 → b.Active →
      b.ShiftDefined e ∧ (e < 0 → b.channel = word32Max ∨ b.StepFits e) := by
  have he := b.error_eq
  constructor
  · intro h e he hne ha
    exact (followsError_iff_of_active he hne ha).mp h
  · intro h
    by_cases hi : (b.alignedNear - b.alignedEcho : ℤ) = 0 ∨ ¬ b.Active
    · exact ⟨_, _, he, nextChannel_of_idle he hi, fun _ => le_rfl, fun _ => le_rfl,
        b.channel_nonneg, b.channel_le⟩
    · push Not at hi
      exact (followsError_iff_of_active he hi.1 hi.2).mpr (h _ he hi.1 hi.2)

def overshooting : AdmissibleBin where
  i := 0
  channel := 2 ^ 30
  far := 60000
  farQ := 0
  dfa := 0
  dfaNoisyQDomain := 0
  mu := 1
  i_lt := by decide
  channel_nonneg := by decide
  channel_le := by decide
  far_lt := by decide
  dfa_lt := by decide
  farQ_nonneg := by decide
  farQ_le := by decide
  dfaNoisyQDomain_nonneg := by decide
  dfaNoisyQDomain_le := by decide
  mu_pos := by decide
  mu_le := by decide

/-- The error is negative, and the channel jumps to the largest word. -/
theorem overshooting_against_error : overshooting.error = some (-983040000) ∧
    overshooting.channel < word32Max ∧ overshooting.nextChannel = some word32Max ∧
      ¬ overshooting.FollowsError := by
  have herr : overshooting.error = some (-983040000) := by decide +kernel
  have hlt : overshooting.channel < word32Max := by decide
  have hn : overshooting.nextChannel = some word32Max := by decide +kernel
  refine ⟨herr, hlt, hn, ?_⟩
  rintro ⟨e, channel, he, hc, hneg, -⟩
  rw [herr, some_inj] at he
  rw [hn, some_inj] at hc
  have hle := hneg (by omega)
  omega

end AdmissibleBin

end WebRtcAudio.Aecm
