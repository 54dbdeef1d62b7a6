import Mathlib.Tactic.Ring
import WebRtcAudio.Agc.GainTable
import WebRtcAudio.Core.PartialLoop

/-! No operation of `WebRtcAgc_CalculateGainTable` overflows, and its first entries are small. -/
namespace WebRtcAudio.Agc

open WebRtcAudio.Core WebRtcAudio.CommonAudio Option

/-- What holds of the entry `c` for a gain `d` and the logarithm `l` of the level `i`. -/
def LogBounded (d c i l : ℕ) : Prop :=
  256 ≤ c ∧ c ≤ 46905 ∧ l ≤ 2 ^ 21 ∧ d * l ≤ 64 * c * (d + 3) ∧
    64 * c * (5 * d) ≤ 5 * d * l + 64 * c * (11 * i)

instance (d c i l : ℕ) : Decidable (LogBounded d c i l) :=
  inferInstanceAs (Decidable (_ ∧ _ ∧ _ ∧ _ ∧ _))

theorem logApprox_bounds : ∀ d : ℕ, d < 82 → ∀ i : ℕ, i < 32 →
    kGenFuncTable[d]?.any fun c => (logApprox d i).any fun l => LogBounded d c i l := by
  decide +kernel

variable {d den zeros u v i c l : ℕ}

theorem exists_logApprox (hd : d < 82) : ∃ c, kGenFuncTable[d]? = some c ∧
    ∀ i < 32, ∃ l, logApprox d i = some l ∧ LogBounded d c i l := by
  have hb := logApprox_bounds d hd
  obtain hc | ⟨c, hc⟩ := eq_none_or_eq_some kGenFuncTable[d]?
  · simpa [hc] using hb 0 (by decide)
  simp only [hc, any_some, Option.any_eq_true, decide_eq_true_eq] at hb
  exact ⟨c, hc, hb⟩

theorem shiftW32_sub {x : ℤ} {n k : ℕ} (hn : n < k + 31) (hk : k < n + 32)
    (hx : -2 ^ 31 ≤ x * 2 ^ n / 2 ^ k ∧ x * 2 ^ n / 2 ^ k < 2 ^ 31) :
    shiftW32 x (n - k) = some (x * 2 ^ n / 2 ^ k) := by
  by_cases hle : k ≤ n
  · obtain ⟨m, rfl⟩ := Nat.exists_eq_add_of_le' hle
    have hc : ((m + k : ℕ) : ℤ) - k = m := by omega
    rw [pow_add, ← mul_assoc, Int.mul_ediv_cancel _ (by positivity)] at hx ⊢
    rw [hc, shiftW32, if_pos (by omega), if_pos (by omega), Int.toNat_natCast]
    exact int32?_eq_some hx
  · obtain ⟨m, rfl⟩ := Nat.exists_eq_add_of_le (Nat.le_of_not_le hle)
    have hc : (-((n : ℤ) - (n + m : ℕ))).toNat = m := by omega
    rw [shiftW32, if_neg (by omega), if_pos (by omega), hc, pow_add, mul_comm x,
      Int.mul_ediv_mul_of_pos _ _ (by positivity)]

/-- What the normalisation in `gainQuotient` provides: the shifted numerator and denominator fit,
and the denominator keeps enough bits. -/
structure QuotientShift (num : ℤ) (den zeros : ℕ) : Prop where
  num_mem : -2 ^ 31 ≤ num * 2 ^ zeros ∧ num * 2 ^ zeros < 2 ^ 31
  den_lt : den * 2 ^ zeros < 2 ^ 40
  le_den : 7281 * 2 ^ 9 ≤ den * 2 ^ zeros
  zeros_le : zeros ≤ 26

theorem le_of_mul_two_pow_le {m z : ℕ} (hm : 2 ^ 4 < m) (h : m * 2 ^ z ≤ 2 ^ 31) : z ≤ 26 := by
  by_contra hz
  have hpow : 2 ^ 27 ≤ 2 ^ z := Nat.pow_le_pow_right two_pos (by omega)
  have hmul := Nat.mul_le_mul hm hpow
  omega

section
variable {num : ℤ} {den : ℕ} (hden : 5120 ≤ den) (hden' : den < 2 ^ 20)
include hden hden'

theorem quotientShift_of_lt (hn : num.natAbs ≤ 288 * den) (hlt : den / 2 ^ 8 < num.natAbs) :
    QuotientShift num den (normW32 num) := by
  have hl : word32Min ≤ num := by simp only [word32Min]; omega
  have hu : num ≤ word32Max := by simp only [word32Max]; omega
  obtain ⟨hle, hge⟩ := normW32_natAbs (by omega) hl hu
  obtain ⟨hmin, hmax⟩ := mul_two_pow_mem_word32 hl hu (le_refl (normW32 num))
  rw [pow_succ 2 (normW32 num), ← Nat.mul_assoc] at hge
  have hz := le_of_mul_two_pow_le (by omega) hle
  generalize normW32 num = z at *
  simp only [word32Min, word32Max] at hmin hmax
  refine ⟨⟨hmin, by omega⟩, ?_, ?_, hz⟩
  · have hmul : den * 2 ^ z ≤ 256 * num.natAbs * 2 ^ z := Nat.mul_le_mul_right _ (by omega)
    rw [Nat.mul_assoc] at hmul
    omega
  · have hmul : num.natAbs * 2 ^ z ≤ 288 * den * 2 ^ z := Nat.mul_le_mul_right _ hn
    rw [Nat.mul_assoc] at hmul
    omega

theorem quotientShift_of_le
    (hle : num.natAbs ≤ den / 2 ^ 8) : QuotientShift num den (normW32 den + 8) := by
  obtain ⟨hlt, hge⟩ := normW32_of_pos (a := den) (by omega) (by omega)
  generalize normW32 den = z at *
  rw [pow_succ 2 z, ← Nat.mul_assoc] at hge
  have hn : num.natAbs * 2 ^ (z + 8) ≤ den * 2 ^ z := by
    rw [Nat.pow_add, Nat.mul_comm (2 ^ z), ← Nat.mul_assoc]
    exact Nat.mul_le_mul_right _ (by omega)
  have hz : den / 2 ^ 8 * 2 ^ (z + 8) ≤ 2 ^ 31 := by
    rw [Nat.pow_add, Nat.mul_comm (2 ^ z), ← Nat.mul_assoc]
    exact (Nat.mul_le_mul_right _ (Nat.div_mul_le_self den _)).trans hlt.le
  have habs : (num * 2 ^ (z + 8)).natAbs = num.natAbs * 2 ^ (z + 8) := by
    rw [Int.natAbs_mul, Int.natAbs_pow]
    rfl
  have hs : den * 2 ^ (z + 8) = den * 2 ^ z * 2 ^ 8 := by
    rw [Nat.pow_add, Nat.mul_assoc]
  exact ⟨by omega, by omega, by omega, le_of_mul_two_pow_le (by omega) hz⟩

end

variable {num y f : ℤ}

theorem QuotientShift.shiftW32_eq (h : QuotientShift num den zeros) :
    shiftW32 den (zeros - 9) = some ((den * 2 ^ zeros / 2 ^ 9 : ℕ) : ℤ) := by
  have hden := h.den_lt
  have hz := h.zeros_le
  have hc : (den : ℤ) * 2 ^ zeros / 2 ^ 9 = (den * 2 ^ zeros / 2 ^ 9 : ℕ) := by push_cast; rfl
  rw [← hc]
  exact shiftW32_sub (k := 9) (by omega) (by omega) (by rw [hc]; omega)

theorem QuotientShift.quotient_le (h : QuotientShift num den zeros)
    (hu : 25 * num.natAbs ≤ 16 * den * u) :
    num.natAbs * 2 ^ zeros / (den * 2 ^ zeros / 2 ^ 9) ≤ 328 * u := by
  have hden := h.le_den
  generalize hd : den * 2 ^ zeros = d at *
  have hn : 25 * (num.natAbs * 2 ^ zeros) ≤ 16 * u * d := by
    calc 25 * (num.natAbs * 2 ^ zeros) = 25 * num.natAbs * 2 ^ zeros := by ring
      _ ≤ 16 * den * u * 2 ^ zeros := Nat.mul_le_mul_right _ hu
      _ = 16 * u * d := by rw [← hd]; ring
  apply Nat.div_le_of_le_mul
  have hf : 16 * d ≤ 25 * (328 * (d / 2 ^ 9)) := by omega
  have hmul := Nat.mul_le_mul_right u hf
  have hleft : 16 * u * d = 16 * d * u := by ring
  have hr : 25 * (328 * (d / 2 ^ 9)) * u = 25 * (d / 2 ^ 9 * (328 * u)) := by ring
  omega

theorem quotientShift (hden : 5120 ≤ den) (hden' : den < 2 ^ 20) (hn : num.natAbs ≤ 288 * den) :
    QuotientShift num den
      (if (den : ℤ) / 2 ^ 8 < num ∨ (den : ℤ) / 2 ^ 8 < -num then normW32 num
        else normW32 den + 8) := by
  split
  · exact quotientShift_of_lt hden hden' hn (by omega)
  · exact quotientShift_of_le hden hden' (by omega)

theorem roundHalf_mem (hl : -(328 * v : ℤ) ≤ y) (hu : y ≤ 328 * u) (hu' : u ≤ 450) (hv' : v ≤ 450) :
    ∃ z, roundHalf y = some z ∧ -(164 * v : ℤ) ≤ z ∧ z ≤ 164 * u := by
  unfold roundHalf
  split
  all_goals
    rw [int32?_eq_some (by omega), map_some]
    exact ⟨_, rfl, by omega, by omega⟩

theorem QuotientShift.tdiv_mem (h : QuotientShift num den zeros)
    (hu : 25 * num ≤ (16 * den * u : ℕ)) (hv : -((16 * den * v : ℕ) : ℤ) ≤ 25 * num) :
    -(328 * v : ℤ) ≤ (num * 2 ^ zeros).tdiv ((den * 2 ^ zeros / 2 ^ 9 : ℕ) : ℤ) ∧
      (num * 2 ^ zeros).tdiv ((den * 2 ^ zeros / 2 ^ 9 : ℕ) : ℤ) ≤ 328 * u := by
  have hc (m d : ℕ) : ((m : ℤ) * 2 ^ zeros).tdiv (d : ℤ) = (m * 2 ^ zeros / d : ℕ) := by
    rw [Int.natCast_ediv, ← Int.tdiv_eq_ediv_of_nonneg (by positivity)]
    push_cast
    rfl
  obtain ⟨m, rfl | rfl⟩ := num.eq_nat_or_neg
  · have hq := h.quotient_le (u := u) (by omega)
    rw [Int.natAbs_natCast] at hq
    rw [hc]
    generalize m * 2 ^ zeros / (den * 2 ^ zeros / 2 ^ 9) = q at hq ⊢
    omega
  · have hq := h.quotient_le (u := v) (by omega)
    rw [Int.natAbs_neg, Int.natAbs_natCast] at hq
    rw [Int.neg_mul, Int.neg_tdiv, hc]
    generalize m * 2 ^ zeros / (den * 2 ^ zeros / 2 ^ 9) = q at hq ⊢
    omega

theorem gainQuotient_mem (num : ℤ) (den : ℕ) (hden : 5120 ≤ den) (hden' : den < 2 ^ 20)
    (hu : 25 * num ≤ (16 * den * u : ℕ)) (hv : -((16 * den * v : ℕ) : ℤ) ≤ 25 * num) (hu' : u ≤ 450)
    (hv' : v ≤ 450) : ∃ y, gainQuotient num den = some y ∧ -(164 * v : ℤ) ≤ y ∧ y ≤ 164 * u := by
  have hu450 := Nat.mul_le_mul_left (16 * den) hu'
  have hv450 := Nat.mul_le_mul_left (16 * den) hv'
  have hs : QuotientShift num den _ := quotientShift hden hden' (by omega)
  rw [gainQuotient, int32?_bind (by omega)]
  dsimp only
  generalize (if (den : ℤ) / 2 ^ 8 < num ∨ (den : ℤ) / 2 ^ 8 < -num then normW32 num
    else normW32 den + 8) = zeros at hs ⊢
  have hpow : (2 : ℤ) ^ zeros ≤ 2 ^ 26 := pow_le_pow_right₀ (by decide) hs.zeros_le
  have hpos : (0 : ℤ) < 2 ^ zeros := by positivity
  have hle := hs.le_den
  obtain ⟨hl, hu⟩ := hs.tdiv_mem hu hv
  rw [int32?_bind (by omega), int32?_bind hs.num_mem,
    hs.shiftW32_eq, bind_eq_bind, bind_some, if_neg (by omega)]
  exact roundHalf_mem hl hu hu' hv'

theorem fracPower_mem (hl : 0 ≤ f) (hu : f < 2 ^ 14) : 0 ≤ fracPower f ∧ fracPower f < 2 ^ 14 := by
  unfold fracPower
  split <;> omega

theorem shiftW32_fracPower {n : ℕ} (hn : n ≤ 30) (hl : 0 ≤ f) (hu : f < 2 ^ 14) :
    ∃ y, shiftW32 (fracPower f) (n - 14) = some y ∧ 0 ≤ y ∧ y < 2 ^ n := by
  obtain ⟨hl, hu⟩ := fracPower_mem hl hu
  have hlow : 0 ≤ fracPower f * 2 ^ n := by positivity
  have hlt : fracPower f * 2 ^ n < 2 ^ 14 * 2 ^ n := mul_lt_mul_of_pos_right hu (by positivity)
  have hbound : (2 : ℤ) ^ n ≤ 2 ^ 30 := pow_le_pow_right₀ (by decide) hn
  exact ⟨_, shiftW32_sub (k := 14) (by omega) (by omega) (by omega), by omega, by omega⟩

theorem gainPower_mem {e : ℤ} {b : ℕ} (hb : b ≤ 31) (he : e < b * 2 ^ 14) :
    ∃ g, gainPower e = some g ∧ 0 ≤ g ∧ g < 2 ^ b := by
  unfold gainPower
  split
  · generalize hn : (e / 2 ^ 14).toNat = n
    have hlt : n + 1 ≤ b := by omega
    have hhigh : (2 : ℤ) ^ n ≤ 2 ^ 30 := pow_le_pow_right₀ (by decide) (by omega)
    have hpos : (0 : ℤ) < 2 ^ n := by positivity
    obtain ⟨y, hy, hyl, hyu⟩ := shiftW32_fracPower (f := e % 2 ^ 14) (n := n) (by omega)
      (Int.emod_nonneg e (by decide)) (Int.emod_lt_of_pos e (by decide))
    refine ⟨2 ^ n + y, ?_, by omega, ?_⟩
    · dsimp only
      rw [int32?_bind (by omega), hy, bind_eq_bind, bind_some]
      exact int32?_eq_some (by omega)
    · calc (2 : ℤ) ^ n + y < 2 ^ n * 2 := by omega
        _ = 2 ^ (n + 1) := (pow_succ 2 n).symm
        _ ≤ 2 ^ b := pow_le_pow_right₀ (by decide) hlt
  · exact ⟨0, rfl, le_refl 0, by positivity⟩

theorem gainExponent_le (hl : -30000 ≤ y) (hu : y ≤ 73980) :
    ∃ e, gainExponent y = some e ∧ e * 2 ^ 14 ≤ y * 54426 + 8192 + 2 ^ 32 := by
  unfold gainExponent
  split
  all_goals
    rw [int32?_bind (by omega), int32?_bind (by omega)]
    exact ⟨_, rfl, by omega⟩

def gainBits (i : ℕ) : ℕ := if i ≤ 2 then 22 else if i ≤ 5 then 23 else if i ≤ 7 then 24 else 31

def IsGainLog (i : ℕ) (y : ℤ) : Prop := -30000 ≤ y ∧ y ≤ 73980 ∧ y ≤ 164 * (150 + 11 * i)

theorem exists_gainPower (hy : IsGainLog i y) :
    ∃ g, (gainExponent y).bind gainPower = some g ∧ 0 ≤ g ∧ g < 2 ^ gainBits i := by
  obtain ⟨hl, hu, hi⟩ := hy
  obtain ⟨e, he, hle⟩ := gainExponent_le hl hu
  rw [he, bind_some]
  unfold gainBits
  split_ifs
  all_goals exact gainPower_mem (by decide) (by omega)

structure GainRange (maxGain targetLevelDbfs limiterIdx : ℤ) (diffGain : ℕ) : Prop where
  maxGain_le : maxGain ≤ 90
  le_diffGain : maxGain ≤ diffGain + 30
  diffGain_le : diffGain ≤ maxGain + 29
  diffGain_lt : diffGain < 82
  target_nonneg : 0 ≤ targetLevelDbfs
  target_le : targetLevelDbfs ≤ 31
  limiterIdx_le : (limiterIdx - 2) * 24660 ≤ (90 + targetLevelDbfs) * 8192

section Entry

variable {maxGain targetLevelDbfs limiterIdx : ℤ} {diffGain : ℕ}

section
variable (h : GainRange maxGain targetLevelDbfs limiterIdx diffGain)
include h

theorem GainRange.exists_gainQuotient (hlog : LogBounded diffGain c i l) :
    ∃ y, gainQuotient (maxGain * c * 2 ^ 6 - l * diffGain) (20 * c) = some y ∧ IsGainLog i y := by
  obtain ⟨hc, hc', -, hl, hl'⟩ := hlog
  have hmax := h.maxGain_le
  have hle := h.le_diffGain
  have hge := h.diffGain_le
  zify at hc hl hl'
  -- the numerator in units of the denominator
  have hupper : 5 * (maxGain * c * 2 ^ 6 - l * diffGain) ≤ 64 * c * (150 + 11 * i) := by
    nlinarith [mul_le_mul_of_nonneg_left hle (by positivity : (0 : ℤ) ≤ 320 * c)]
  have hbound : 5 * (maxGain * c * 2 ^ 6 - l * diffGain) ≤ 64 * c * 450 := by
    nlinarith [mul_le_mul_of_nonneg_left hmax (by positivity : (0 : ℤ) ≤ 320 * c),
      (by positivity : (0 : ℤ) ≤ l * diffGain)]
  have hlower : -(64 * c * 160) ≤ 5 * (maxGain * c * 2 ^ 6 - l * diffGain) := by
    nlinarith [mul_le_mul_of_nonneg_left hge (by positivity : (0 : ℤ) ≤ 320 * c)]
  obtain ⟨y, hy, hyl, hyu⟩ := gainQuotient_mem (maxGain * c * 2 ^ 6 - l * diffGain)
    (20 * c) (u := min 450 (150 + 11 * i)) (v := 160) (by omega) (by omega)
    (by
      obtain hmin | hmin := Nat.le_total 450 (150 + 11 * i)
      · rw [Nat.min_eq_left hmin]
        push_cast
        linarith
      · rw [Nat.min_eq_right hmin]
        push_cast
        linarith)
    (by push_cast; linarith) (Nat.min_le_left _ _) (by decide)
  refine ⟨y, ?_, by omega, by omega, by omega⟩
  rw [← hy]
  push_cast
  rfl

theorem GainRange.exists_limiterLevel (hlt : (i : ℤ) < limiterIdx) :
    ∃ x, int32? ((i - 1) * 49321 - targetLevelDbfs * 2 ^ 14) = some x ∧
      IsGainLog i (divW32W16 (x + 10) 20) := by
  have hidx := h.limiterIdx_le
  have hl := h.target_nonneg
  have hu := h.target_le
  generalize hx : ((i : ℤ) - 1) * 49321 - targetLevelDbfs * 2 ^ 14 = x
  refine ⟨x, int32?_eq_some (by omega), ?_⟩
  have hmod := Int.mul_tdiv_add_tmod (x + 10) 20
  have hlt := Int.tmod_lt_of_pos (x + 10) (by decide : (0 : ℤ) < 20)
  have hgt := Int.lt_tmod_of_pos (x + 10) (by decide : (0 : ℤ) < 20)
  rw [divW32W16, if_neg (by decide), IsGainLog]
  omega

theorem GainRange.exists_gainLog (hlog : logApprox diffGain i = some l)
    (hb : LogBounded diffGain c i l) (limiterEnable : Bool) :
    ∃ y, gainLog maxGain diffGain c targetLevelDbfs limiterIdx limiterEnable i = some y ∧
      IsGainLog i y := by
  obtain ⟨y, hy, hr⟩ := h.exists_gainQuotient hb
  obtain ⟨hc, hc', hmax, -⟩ := hb
  have hg := h.maxGain_le
  have hg' : -29 ≤ maxGain := by have := h.diffGain_le; omega
  have hprod : -29 * 46905 ≤ maxGain * c ∧ maxGain * c ≤ 90 * 46905 := by
    constructor <;> nlinarith
  have hred : 0 ≤ (l : ℤ) * diffGain ∧ (l : ℤ) * diffGain ≤ 2 ^ 21 * 81 := by
    refine ⟨by positivity, ?_⟩
    exact_mod_cast Nat.mul_le_mul hmax (Nat.le_of_lt_succ h.diffGain_lt)
  rw [gainLog, hlog, bind_eq_bind, bind_some, int32?_bind (by omega),
    int32?_bind (by omega), int32?_bind (by omega),
    int32?_bind (by omega), hy, bind_eq_bind, bind_some]
  split
  · next hli =>
    obtain ⟨x, hx, hrange⟩ := h.exists_limiterLevel hli.2
    rw [hx, map_some]
    exact ⟨_, rfl, hrange⟩
  · exact ⟨y, rfl, hr⟩

end

end Entry

/-- Each of the 32 gains is below the bound of its entry. -/
structure TableBounded (gainTable : List ℤ) : Prop where
  length_eq : gainTable.length = 32
  exists_entry : ∀ i < 32, ∃ g, gainTable[i]? = some g ∧ 0 ≤ g ∧ g < 2 ^ gainBits i

theorem exists_calculateGainTable {digCompGaindB targetLevelDbfs analogTarget : ℤ}
    (hd : diffGain digCompGaindB = d)
    (h : GainRange (maxGain digCompGaindB targetLevelDbfs analogTarget) targetLevelDbfs
      (limiterIdx analogTarget) d)
    (limiterEnable : Bool) :
    ∃ table, calculateGainTable digCompGaindB targetLevelDbfs limiterEnable analogTarget =
      some (some table) ∧ TableBounded table := by
  obtain ⟨c, hc, hlog⟩ := exists_logApprox h.diffGain_lt
  have hentries : ∀ i ∈ List.range 32, ∃ g,
      gainTableEntry (maxGain digCompGaindB targetLevelDbfs analogTarget) d c targetLevelDbfs
        (limiterIdx analogTarget) limiterEnable i = some g ∧ 0 ≤ g ∧ g < 2 ^ gainBits i := by
    intro i hi
    obtain ⟨l, hl, hb⟩ := hlog i (List.mem_range.mp hi)
    obtain ⟨y, hy, hr⟩ := h.exists_gainLog hl hb limiterEnable
    rw [gainTableEntry, hy]
    exact exists_gainPower hr
  obtain ⟨table, ht, he⟩ := exists_mapM_forall₂ hentries
  have hlt := h.diffGain_lt
  refine ⟨table, ?_, ?_, fun i hi =>
    forall₂_exists_right he (List.getElem?_range hi)⟩
  · simp only [calculateGainTable, hd]
    rw [if_neg (by omega), Int.toNat_natCast, hc, bind_eq_bind, bind_some, ht]
    rfl
  · rw [← he.length_eq, List.length_range]

structure AgcConfig.Valid (config : AgcConfig) : Prop where
  target_nonneg : 0 ≤ config.targetLevelDbfs
  target_le : config.targetLevelDbfs ≤ 31
  compression_nonneg : 0 ≤ config.compressionGaindB
  compression_le : config.compressionGaindB ≤ 90
  limiterEnable_le : config.limiterEnable ≤ 1

theorem divW32W16ResW16_bounds (num : ℤ) {d : ℤ} (hden : 0 < d) (hl : -2 ^ 15 * d < num)
    (hu : num < 2 ^ 15 * d) :
    d * divW32W16ResW16 num d < num + d ∧ num < d * divW32W16ResW16 num d + d ∧
      (0 ≤ num → d * divW32W16ResW16 num d ≤ num) := by
  have hmod := Int.mul_tdiv_add_tmod num d
  have hlt := Int.tmod_lt_of_pos num hden
  have hgt := Int.lt_tmod_of_pos num hden
  have hle : num.tdiv d < 2 ^ 15 := by
    by_contra h
    nlinarith [Int.tmod_nonneg d (by nlinarith : 0 ≤ num)]
  have hge : -2 ^ 15 ≤ num.tdiv d := by
    by_contra h
    nlinarith
  rw [divW32W16ResW16, if_neg hden.ne', toInt16_eq_self ⟨hge, hle⟩]
  refine ⟨by omega, by omega, fun h => ?_⟩
  have hn := Int.tmod_nonneg d h
  omega

/-- The parameters of the table. The analog target is the compression gain of the fixed digital
mode, which contains the target level, or it follows the gain of the other modes. -/
theorem exists_gainRange {c t a : ℤ} (ht : 0 ≤ t) (ht' : t ≤ 31) (hc : 0 ≤ c)
    (ha : a = c ∧ t ≤ c ∧ c ≤ 90 + t ∨
      c ≤ 90 ∧ 11 * (a - 4) ≤ 5 * c + 5 ∧ 5 * c + 5 < 11 * (a - 4) + 11) :
    ∃ d : ℕ, diffGain c = d ∧ GainRange (maxGain c t a) t (limiterIdx a) d := by
  obtain ⟨hd, hd', hd''⟩ := divW32W16ResW16_bounds (c * 2 + 1) (d := 3) (by decide)
    (by omega) (by omega)
  obtain ⟨hq, hq', hq''⟩ := divW32W16ResW16_bounds ((c - a) * 2 + 1) (d := 3) (by decide)
    (by omega) (by omega)
  obtain ⟨hi, hi', hi''⟩ := divW32W16ResW16_bounds (a * 2 ^ 13) (d := 24660) (by decide)
    (by omega) (by omega)
  have hm : maxGain c t a = max (a - t + divW32W16ResW16 ((c - a) * 2 + 1) 3) (a - t) := by
    have hat : toInt16 (a - t) = a - t := toInt16_eq_self (by omega)
    have hsum : toInt16 (a - t + divW32W16ResW16 ((c - a) * 2 + 1) 3) =
        a - t + divW32W16ResW16 ((c - a) * 2 + 1) 3 := toInt16_eq_self (by omega)
    simp only [maxGain, hat, hsum]
    exact toInt16_eq_self (by omega)
  have hl : limiterIdx a = 2 + divW32W16ResW16 (a * 2 ^ 13) 24660 :=
    toInt16_eq_self (by omega)
  refine ⟨(diffGain c).toNat, (Int.toNat_of_nonneg (by unfold diffGain; omega)).symm, ?_⟩
  unfold diffGain
  constructor <;> omega

theorem exists_setConfig (agcMode : AgcMode) {config : AgcConfig} (h : config.Valid) :
    ∃ table, setConfig agcMode config = some (some table) ∧ TableBounded table := by
  obtain ⟨ht, ht', hc, hc', hli⟩ := h
  rw [setConfig, if_neg (by omega), if_neg (by omega)]
  dsimp only
  obtain ⟨c, a, hcomp, htarget, hc0, hr⟩ : ∃ c a,
      (if agcMode = .fixedDigital then toInt16 (config.compressionGaindB + config.targetLevelDbfs)
        else config.compressionGaindB) = c ∧ analogTarget agcMode c = a ∧ 0 ≤ c ∧
      (a = c ∧ config.targetLevelDbfs ≤ c ∧ c ≤ 90 + config.targetLevelDbfs ∨
        c ≤ 90 ∧ 11 * (a - 4) ≤ 5 * c + 5 ∧ 5 * c + 5 < 11 * (a - 4) + 11) := by
    by_cases hm : agcMode = .fixedDigital
    · rw [if_pos hm, toInt16_eq_self (by omega)]
      exact ⟨_, _, rfl, if_pos hm, by omega, .inl ⟨rfl, by omega, by omega⟩⟩
    · rw [if_neg hm]
      obtain ⟨hq, hq', hq''⟩ := divW32W16ResW16_bounds (5 * config.compressionGaindB + 5)
        (d := 11) (by decide) (by omega) (by omega)
      refine ⟨_, _, rfl, rfl, hc, .inr ⟨hc', ?_⟩⟩
      have ha : toInt16 (5 * config.compressionGaindB + 5) = 5 * config.compressionGaindB + 5 :=
        toInt16_eq_self (by omega)
      simp only [analogTarget, ha, if_neg hm]
      rw [toInt16_eq_self (by omega)]
      omega
  rw [hcomp, htarget]
  obtain ⟨d, hd, hg⟩ := exists_gainRange ht ht' hc0 hr
  exact exists_calculateGainTable hd hg _

end WebRtcAudio.Agc
