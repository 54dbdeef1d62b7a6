import Mathlib.Tactic.IntervalCases
import WebRtcAudio.Agc.DigitalAgc
import WebRtcAudio.Agc.GainTableBounds
import WebRtcAudio.Agc.VadRange

/-! The levels and gains of a frame: the capacitors, the interpolated gains, the gate and the
limiter. -/
namespace WebRtcAudio.Agc

open WebRtcAudio.Core WebRtcAudio.CommonAudio Option

def InLevelRange (level : ℤ) : Prop := 0 ≤ level ∧ level ≤ 2 ^ 30

variable {a env g gain : ℤ} {zeros : ℕ} {b fast slow level gainAdj : ℤ}

theorem agcScaleDiff32_eq {c : ℤ} (hl : -1000 ≤ a) (hu : a ≤ 500) (hb : InLevelRange b)
    (hc : InLevelRange c) : agcScaleDiff32 a b c = some (c + b * a / 2 ^ 16) := by
  obtain ⟨hbl, hbu⟩ := hb
  obtain ⟨hcl, hcu⟩ := hc
  have hq : 0 ≤ b / 2 ^ 16 ∧ b / 2 ^ 16 ≤ 2 ^ 14 := by omega
  have hr : 0 ≤ b % 2 ^ 16 ∧ b % 2 ^ 16 < 2 ^ 16 := by omega
  have hhigh : -1000 * 2 ^ 14 ≤ b / 2 ^ 16 * a ∧ b / 2 ^ 16 * a ≤ 500 * 2 ^ 14 := by
    constructor <;> nlinarith
  have hlow : -1000 * 2 ^ 16 ≤ b % 2 ^ 16 * a ∧ b % 2 ^ 16 * a ≤ 500 * 2 ^ 16 := by
    constructor <;> nlinarith
  rw [mul_ediv_eq_add a b (by decide), agcScaleDiff32, int32?_bind (by omega),
    int32?_bind (by omega), int32?_bind (by omega), ← add_assoc]
  exact int32?_eq_some (by omega)

theorem exists_followFast (he : InLevelRange env) (hf : InLevelRange fast) :
    ∃ f, followFast env fast = some f ∧ InLevelRange f ∧ env ≤ f := by
  obtain ⟨hl, hu⟩ := id hf
  obtain ⟨hel, heu⟩ := he
  rw [followFast, agcScaleDiff32_eq (by decide) (by decide) hf hf]
  refine ⟨_, rfl, ?_, ?_⟩
  · unfold InLevelRange
    split_ifs <;> omega
  · split_ifs <;> omega

theorem exists_followSlow {decay : ℤ} (hdecay : -65 ≤ decay ∧ decay ≤ 0) (he : InLevelRange env)
    (hs : InLevelRange slow) : ∃ f, followSlow decay env slow = some f ∧ InLevelRange f := by
  obtain ⟨hl, hu⟩ := id hs
  obtain ⟨hel, heu⟩ := he
  unfold followSlow
  split
  · -- it rises towards the envelope
    have hd : InLevelRange (env - slow) := ⟨by omega, by omega⟩
    rw [int32?_bind (by omega), agcScaleDiff32_eq (by decide) (by decide) hd hs]
    exact ⟨_, rfl, by omega, by omega⟩
  · -- it falls towards zero
    rw [agcScaleDiff32_eq (by omega) (by omega) hs hs]
    have hle : slow * decay ≤ 0 := by nlinarith
    have hge : -65 * slow ≤ slow * decay := by nlinarith
    exact ⟨_, rfl, by omega, by omega⟩

theorem DigitalAgc.decay_mem (s : DigitalAgc) (lowlevelSignal : ℤ) :
    -65 ≤ s.decay lowlevelSignal ∧ s.decay lowlevelSignal ≤ 0 := by
  obtain ⟨d, hd, hl, hu⟩ : ∃ d, (if 1024 < s.logratio then -65 else if s.logratio < 0 then 0
      else toInt16 ((0 - s.logratio) * 65 / 2 ^ 10)) = d ∧ -65 ≤ d ∧ d ≤ 0 := by
    refine ⟨_, rfl, ?_⟩
    split_ifs
    · omega
    · omega
    · rw [toInt16_eq_self (by omega)]
      omega
  unfold DigitalAgc.decay
  dsimp only
  rw [hd]
  split_ifs with hmode hlow hlong hs
  · exact ⟨hl, hu⟩
  · omega
  · omega
  · have hle : (s.vadNearend.stdLongTerm - 4000) * d ≤ 0 := by nlinarith
    have hge : -65 * 2 ^ 12 ≤ (s.vadNearend.stdLongTerm - 4000) * d := by nlinarith
    rw [toInt16_eq_self (by omega)]
    omega
  · exact ⟨hl, hu⟩

theorem one_le_levelZeros (h : InLevelRange level) :
    1 ≤ levelZeros level ∧ levelZeros level ≤ 31 := by
  obtain ⟨n, rfl⟩ := Int.eq_ofNat_of_zero_le h.1
  have hn : n < 2 ^ 31 := by have := h.2; omega
  unfold levelZeros
  split
  · decide
  · rw [toUInt32_natCast (by omega), normU32, if_neg (by omega)]
    refine ⟨one_le_countLeadingZeros32 hn, ?_⟩
    rw [countLeadingZeros32, if_neg (by omega)]
    omega

theorem mul_two_pow_levelZeros_lt {n : ℕ} (hn : n < 2 ^ 32) : n * 2 ^ levelZeros n < 2 ^ 32 := by
  unfold levelZeros
  split
  · next h => rw [Int.natCast_eq_zero.mp h]; decide
  · rw [toUInt32_natCast hn]
    exact normU32_lt hn

theorem levelFrac_lt (level : ℤ) : levelFrac level < 2 ^ 12 := by
  have hlt : levelMantissa level < 2 ^ 31 := Nat.mod_lt _ (by decide)
  unfold levelFrac
  omega

theorem gainTableAt?_natCast (gainTable : List ℤ) (i : ℕ) :
    gainTableAt? gainTable i = gainTable[i]? := by
  rw [gainTableAt?, if_pos (by omega), Int.toNat_natCast]

theorem two_pow_gainBits_mono {i j : ℕ} (h : i ≤ j) : (2 : ℤ) ^ gainBits i ≤ 2 ^ gainBits j := by
  refine pow_le_pow_right₀ (by decide) ?_
  unfold gainBits
  split_ifs <;> omega

theorem two_pow_gainBits_le (i : ℕ) : (2 : ℤ) ^ gainBits i ≤ 2 ^ 31 := by
  refine pow_le_pow_right₀ (by decide) ?_
  unfold gainBits
  split_ifs <;> omega

section
variable {table : List ℤ} (h : TableBounded table) {level : ℤ} (hlevel : InLevelRange level)
include h hlevel

theorem TableBounded.exists_levelGain : ∃ left right g, table[levelZeros level - 1]? = some left ∧
      table[levelZeros level]? = some right ∧ levelGain table level = some g ∧ g ≤ max left right ∧
      0 ≤ g ∧ g < 2 ^ gainBits (levelZeros level) := by
  obtain ⟨hzl, hzu⟩ := one_le_levelZeros hlevel
  have hf := levelFrac_lt level
  unfold levelGain
  generalize levelZeros level = zeros at *
  generalize levelFrac level = frac at *
  obtain ⟨left, hl, hll, hlu⟩ := h.exists_entry (zeros - 1) (by omega)
  obtain ⟨right, hr, hrl, hru⟩ := h.exists_entry zeros (by omega)
  replace hlu := hlu.trans_le (two_pow_gainBits_mono (Nat.sub_le zeros 1))
  have hbits := two_pow_gainBits_le zeros
  have hc : (zeros : ℤ) - 1 = (zeros - 1 : ℕ) := by omega
  have hf' : (frac : ℤ) < 2 ^ 12 := by exact_mod_cast hf
  have hb : min left right - right ≤ (left - right) * frac / 2 ^ 12 ∧
      (left - right) * frac / 2 ^ 12 ≤ max left right - right := by
    obtain hle | hle := le_total left right
    · rw [min_eq_left hle, max_eq_right hle]
      exact ⟨Int.le_ediv_of_mul_le (by decide) (by nlinarith),
        Int.ediv_le_of_le_mul (by decide) (by nlinarith)⟩
    · rw [min_eq_right hle, max_eq_left hle]
      exact ⟨Int.le_ediv_of_mul_le (by decide) (by nlinarith),
        Int.ediv_le_of_le_mul (by decide) (by nlinarith)⟩
  refine ⟨left, right, right + (left - right) * frac / 2 ^ 12, hl, hr, ?_, by omega, by omega,
    by omega⟩
  rw [hc, gainTableAt?_natCast, gainTableAt?_natCast, hl, hr,
    bind_eq_bind, bind_some, bind_some, int32?_eq_some (by omega),
    bind_some, toInt32_eq_self (by omega)]
  exact int32?_eq_some (by omega)

end

structure SubframeLevel.Sound (gainTable : List ℤ) (env : ℤ) (l : SubframeLevel) : Prop where
  capacitorFast_mem : InLevelRange l.capacitorFast
  capacitorSlow_mem : InLevelRange l.capacitorSlow
  curLevel_mem : InLevelRange l.curLevel
  env_nonneg : 0 ≤ env
  env_le : env ≤ l.curLevel
  gain_eq : levelGain gainTable l.curLevel = some l.gain

variable {envs table : List ℤ}

section Subframes

variable {table : List ℤ} {decay : ℤ}

section
variable (h : TableBounded table) (hdecay : -65 ≤ decay ∧ decay ≤ 0)
include h hdecay

theorem TableBounded.exists_subframeLevel {env : ℤ} (he : InLevelRange env)
    (hfast : InLevelRange fast) (hs : InLevelRange slow) :
    ∃ l, subframeLevel table decay env fast slow = some l ∧ l.Sound table env := by
  obtain ⟨f, hf, hfl, hle⟩ := exists_followFast he hfast
  obtain ⟨g, hg, hgl⟩ := exists_followSlow hdecay he hs
  obtain ⟨level, hlevel, hmem, he'⟩ :
      ∃ level, (if g < f then f else g) = level ∧ InLevelRange level ∧ env ≤ level := by
    refine ⟨_, rfl, ?_⟩
    split
    · exact ⟨hfl, hle⟩
    · exact ⟨hgl, by omega⟩
  obtain ⟨-, -, gain, -, -, hgain, -⟩ := h.exists_levelGain hmem
  refine ⟨⟨f, g, level, gain⟩, ?_, hfl, hgl, hmem, he.1, he', hgain⟩
  simp only [subframeLevel, hf, hg, hlevel, hgain, bind_eq_bind, bind_some]
  rfl

theorem TableBounded.exists_subframeLevels (henvs : ∀ env ∈ envs, InLevelRange env)
    (hf : InLevelRange fast) (hslow : InLevelRange slow) :
    ∃ ls, subframeLevels table decay envs fast slow = some ls ∧
      List.Forall₂ (SubframeLevel.Sound table) envs ls := by
  induction envs generalizing fast slow with
  | nil => exact ⟨[], rfl, .nil⟩
  | cons env envs ih =>
    obtain ⟨l, hl, hs⟩ :=
      h.exists_subframeLevel hdecay (henvs env List.mem_cons_self) hf hslow
    obtain ⟨ls, hls, hso⟩ := ih (fun e he => henvs e (List.mem_cons_of_mem env he))
      hs.capacitorFast_mem hs.capacitorSlow_mem
    refine ⟨l :: ls, ?_, .cons hs hso⟩
    simp only [subframeLevels, hl, hls, bind_eq_bind, bind_some]
    rfl

end

end Subframes

theorem exists_gateDifference {d : ℤ} (ha : 0 ≤ gainAdj ∧ gainAdj ≤ 78) (hl : -2 ^ 22 < d)
    (hu : d < 2 ^ 31) (hne : d ≠ 2 ^ 23) :
    ∃ y, gateDifference gainAdj d = some y ∧ min d 0 ≤ y ∧ y ≤ max d 0 := by
  obtain ⟨hlow, hhigh⟩ := ha
  unfold gateDifference
  split
  · have hshift : 0 ≤ d / 2 ^ 8 := by omega
    have hge : 0 ≤ d / 2 ^ 8 * (178 + gainAdj) := by positivity
    have hle : d / 2 ^ 8 * (178 + gainAdj) ≤ d / 2 ^ 8 * 2 ^ 8 := by nlinarith
    exact ⟨_, int32?_eq_some (by omega), by omega, by omega⟩
  · obtain hpos | hneg := le_total 0 d
    · have hge : 0 ≤ d * (178 + gainAdj) := by positivity
      have hle : d * (178 + gainAdj) ≤ d * 2 ^ 8 := by nlinarith
      rw [int32?_eq_some (by omega), map_some]
      exact ⟨_, rfl, by omega, by omega⟩
    · have hge : d * 2 ^ 8 ≤ d * (178 + gainAdj) := by nlinarith
      have hle : d * (178 + gainAdj) ≤ 0 := by nlinarith
      rw [int32?_eq_some (by omega), map_some]
      exact ⟨_, rfl, by omega, by omega⟩

theorem exists_gateGain {gain₀ : ℤ} (h₀ : 0 ≤ gain₀ ∧ gain₀ < 2 ^ 22)
    (ha : 0 ≤ gainAdj ∧ gainAdj ≤ 78) (hgain : 0 ≤ gain ∧ gain < 2 ^ 31)
    (hne : gain ≠ gain₀ + 2 ^ 23) :
    ∃ g, gateGain gain₀ gainAdj gain = some g ∧ 0 ≤ g ∧ g ≤ max gain gain₀ := by
  obtain ⟨y, hy, hyl, hyu⟩ :=
    exists_gateDifference (d := gain - gain₀) ha (by omega) (by omega) (by omega)
  rw [gateGain, int32?_bind (by omega), hy]
  exact ⟨_, int32?_eq_some (by omega), by omega, by omega⟩

/-- No level has a gain that lies exactly 128.0 above the first entry of the table, where the gate
overflows. -/
def GateSafe (gainTable : List ℤ) : Prop :=
  ∀ level gain₀, InLevelRange level → gainTable[0]? = some gain₀ →
    levelGain gainTable level ≠ some (gain₀ + 2 ^ 23)

theorem TableBounded.gateSafe (h : TableBounded table) (hs : ∀ g ∈ table, g < 2 ^ 23) :
    GateSafe table := by
  intro level gain₀ hlevel hgain₀ heq
  obtain ⟨left, right, g, hleft, hright, hg, hgu, -⟩ := h.exists_levelGain hlevel
  cases hg.symm.trans heq
  obtain ⟨_, he, hn, -⟩ := h.exists_entry 0 (by decide)
  cases he.symm.trans hgain₀
  have hl := hs left (List.mem_of_getElem? hleft)
  have hr := hs right (List.mem_of_getElem? hright)
  omega

structure GatedGain (env gain : ℤ) : Prop where
  env_nonneg : 0 ≤ env
  nonneg : 0 ≤ gain
  exists_level : ∃ level, InLevelRange level ∧ env ≤ level ∧ gain < 2 ^ gainBits (levelZeros level)

theorem TableBounded.exists_gateGains (h : TableBounded table) (hs : GateSafe table) (gate : ℤ)
    {ls : List SubframeLevel} (hls : List.Forall₂ (SubframeLevel.Sound table) envs ls) :
    ∃ gains, gateGains table gate (ls.map (·.gain)) = some gains ∧
      List.Forall₂ GatedGain envs gains := by
  obtain ⟨gain₀, hgain₀, h₀, h₀'⟩ := h.exists_entry 0 (by decide)
  have hlevel {env : ℤ} {l : SubframeLevel} (hl : l.Sound table env) :
      0 ≤ l.gain ∧ l.gain < 2 ^ gainBits (levelZeros l.curLevel) := by
    obtain ⟨-, -, g, -, -, hg, -, hb⟩ := h.exists_levelGain hl.curLevel_mem
    obtain rfl : g = l.gain := some.inj (hg.symm.trans hl.gain_eq)
    exact hb
  unfold gateGains
  split
  · have he : gainTableAt? table 0 = some gain₀ :=
      (gainTableAt?_natCast table 0).trans hgain₀
    have ha : 0 ≤ (if gate < 2500 then (2500 - gate) / 2 ^ 5 else 0) ∧
        (if gate < 2500 then (2500 - gate) / 2 ^ 5 else 0) ≤ 78 := by
      split_ifs <;> omega
    rw [he, bind_eq_bind, bind_some, List.mapM_map]
    refine exists_mapM_of_forall₂ (fun env l hl => ?_) hls
    obtain ⟨hl0, hlu⟩ := hlevel hl
    have hbits := two_pow_gainBits_mono (Nat.zero_le (levelZeros l.curLevel))
    have hbits' := two_pow_gainBits_le (levelZeros l.curLevel)
    have hne : l.gain ≠ gain₀ + 2 ^ 23 := fun heq =>
      hs l.curLevel gain₀ hl.curLevel_mem hgain₀ (heq ▸ hl.gain_eq)
    obtain ⟨g, hg, hg0, hgu⟩ := exists_gateGain ⟨h₀, h₀'⟩ ha ⟨hl0, by omega⟩ hne
    exact ⟨g, hg, hl.env_nonneg, hg0, l.curLevel, hl.curLevel_mem, hl.env_le, by omega⟩
  · refine ⟨_, rfl, List.forall₂_map_right_iff.mpr (hls.imp fun env l hl => ?_)⟩
    exact ⟨hl.env_nonneg, (hlevel hl).1, l.curLevel, hl.curLevel_mem, hl.env_le, (hlevel hl).2⟩

theorem agcMul32_eq (ha : 0 ≤ a) (ha' : a ≤ 2 ^ 18 + 1) (hb : 0 ≤ b) (hab : b * a < 2 ^ 44) :
    agcMul32 a b = some (b * a / 2 ^ 13) := by
  have hr : 0 ≤ b % 2 ^ 13 ∧ b % 2 ^ 13 ≤ 2 ^ 13 - 1 := by omega
  have hlow : 0 ≤ b % 2 ^ 13 * a ∧ b % 2 ^ 13 * a ≤ (2 ^ 13 - 1) * (2 ^ 18 + 1) := by
    constructor <;> nlinarith
  have hhigh : 0 ≤ b / 2 ^ 13 * a := mul_nonneg (by omega) ha
  have hs := mul_ediv_eq_add a b (by decide : (2 ^ 13 : ℤ) ≠ 0)
  rw [agcMul32, int32?_bind (by omega), int32?_bind (by omega), hs]
  exact int32?_eq_some (by omega)

theorem exists_limit (hl : 10 ≤ zeros) (hu : zeros ≤ 16) :
    ∃ limit, shiftW32 32767 (2 * (1 - zeros + 10)) = some limit ∧ 0 ≤ limit ∧
      (zeros = 10 → 2 ^ 6 ≤ limit) ∧ (limit + 1) * 2 ^ (2 * zeros) ≤ 2 ^ 37 := by
  interval_cases zeros <;> exact ⟨_, rfl, by decide, by decide, by decide⟩

/-- An envelope and a shift for which the limiter does not overflow with any gain up to a bound, and
for which it accepts the gain 0. -/
structure LimiterFits (env : ℤ) (zeros : ℕ) (gain : ℤ) : Prop where
  env_nonneg : 0 ≤ env
  env_le : env ≤ 2 ^ 30
  le_zeros : 10 ≤ zeros
  zeros_le : zeros ≤ 16
  zeros_eq : zeros = 10 ∨ env < 2 ^ 24
  root_le : gain / 2 ^ zeros + 1 ≤ 46340
  power_lt : (gain / 2 ^ zeros + 1) * (gain / 2 ^ zeros + 1) * (env / 2 ^ 12 + 1) < 2 ^ 44

structure LimitedGain (env gain : ℤ) : Prop where
  nonneg : 0 ≤ gain
  lt_bound : gain < 2 ^ 25
  power_lt : env * (gain * gain) < 2 ^ 62

theorem limitedGain_of_le {limit : ℤ} (he : 0 ≤ env) (hg : 0 ≤ g)
    (hscaled : (limit + 1) * 2 ^ (2 * zeros) ≤ 2 ^ 37)
    (hle : (g / 2 ^ zeros + 1) * (g / 2 ^ zeros + 1) * (env / 2 ^ 12 + 1) / 2 ^ 13 ≤ limit) :
    LimitedGain env g := by
  have hr := (Int.lt_ediv_add_one_mul_self g (by positivity : (0 : ℤ) < 2 ^ zeros)).le
  generalize ha : env / 2 ^ 12 + 1 = a
  generalize g / 2 ^ zeros + 1 = r at hle hr
  rw [ha] at hle
  have hp : r * r * a < (limit + 1) * 2 ^ 13 := by omega
  have hf : a * 2 ^ 12 * (g * g) < 2 ^ 62 := by
    calc a * 2 ^ 12 * (g * g) ≤ a * 2 ^ 12 * ((r * 2 ^ zeros) * (r * 2 ^ zeros)) :=
          mul_le_mul_of_nonneg_left (mul_self_le_mul_self hg hr) (by omega)
      _ = r * r * a * (2 ^ 12 * 2 ^ (2 * zeros)) := by ring
      _ < (limit + 1) * 2 ^ 13 * (2 ^ 12 * 2 ^ (2 * zeros)) :=
          mul_lt_mul_of_pos_right hp (by positivity)
      _ = (limit + 1) * 2 ^ (2 * zeros) * 2 ^ 25 := by ring
      _ ≤ 2 ^ 37 * 2 ^ 25 := mul_le_mul_of_nonneg_right hscaled (by decide)
      _ = 2 ^ 62 := by norm_num
  have hs : 0 ≤ g * g := mul_self_nonneg g
  refine ⟨hg, ?_, ?_⟩
  · have hone : 2 ^ 12 * (g * g) ≤ a * 2 ^ 12 * (g * g) :=
      mul_le_mul_of_nonneg_right (by omega) hs
    by_contra hl
    have hl' : (2 : ℤ) ^ 25 * 2 ^ 25 ≤ g * g := mul_self_le_mul_self (by decide) (by omega)
    omega
  · exact (mul_le_mul_of_nonneg_right (by omega) hs).trans_lt hf

theorem LimiterFits.exists_overloads (h : LimiterFits env zeros gain) (hl : 0 ≤ g) (hu : g ≤ gain) :
    ∃ b, overloads env zeros g = some b ∧ (b = true → 0 < g) ∧ (b = false → LimitedGain env g) := by
  have he := h.env_nonneg
  have he' := h.env_le
  have hpos : (0 : ℤ) < 2 ^ zeros := by positivity
  obtain ⟨limit, hlimit, hlimit0, hlimit10, hs⟩ := exists_limit h.le_zeros h.zeros_le
  generalize hr : g / 2 ^ zeros + 1 = r
  have hr1 : 1 ≤ r := by
    have := Int.ediv_nonneg hl hpos.le
    omega
  have hrle : r ≤ gain / 2 ^ zeros + 1 := by
    have := Int.ediv_le_ediv hpos hu
    omega
  have hroot := h.root_le
  have hsquare : 1 ≤ r * r ∧ r * r < 2 ^ 31 := by constructor <;> nlinarith
  have hpow : r * r * (env / 2 ^ 12 + 1) < 2 ^ 44 := lt_of_le_of_lt
    (mul_le_mul_of_nonneg_right (mul_self_le_mul_self (by omega) hrle) (by omega)) h.power_lt
  refine ⟨decide (limit < r * r * (env / 2 ^ 12 + 1) / 2 ^ 13), ?_, ?_, ?_⟩
  · rw [overloads, hr, int32?_bind (by omega), int32?_bind (by omega),
      agcMul32_eq (by omega) (by omega) (by omega) hpow, hlimit]
    rfl
  · intro ho
    have hlt := of_decide_eq_true ho
    by_contra hzero
    obtain rfl : r = 1 := by
      rw [← hr, show g = 0 by omega, Int.zero_ediv, zero_add]
    obtain hten | hsmall := h.zeros_eq
    · have hten' := hlimit10 hten
      omega
    · omega
  · intro hp
    exact limitedGain_of_le he hl hs (hr.symm ▸ le_of_not_gt (of_decide_eq_false hp))

theorem exists_lowerGain (hl : 0 < g) (hu : g < 2 ^ 31) :
    ∃ h, lowerGain g = some h ∧ 0 ≤ h ∧ h < g := by
  unfold lowerGain
  split
  · rw [Int.tdiv_eq_ediv_of_nonneg hl.le]
    exact ⟨_, int32?_eq_some (by omega), by omega, by omega⟩
  · rw [int32?_eq_some (by omega), map_some, Int.tdiv_eq_ediv_of_nonneg (by omega)]
    exact ⟨_, rfl, by omega, by omega⟩

theorem LimiterFits.exists_limiterLoop (h : LimiterFits env zeros gain)
    (hgain : gain < 2 ^ 31) {fuel : ℕ} (hl : 0 ≤ g) (hu : g ≤ gain) (hfuel : g.toNat < fuel) :
    ∃ g', limiterLoop env zeros fuel g = some g' ∧ LimitedGain env g' := by
  induction fuel generalizing g with
  | zero => omega
  | succ fuel ih =>
    obtain ⟨b, hb, ho, hp⟩ := h.exists_overloads hl hu
    rw [limiterLoop, hb, bind_eq_bind, bind_some]
    cases b with
    | false => exact ⟨g, rfl, hp rfl⟩
    | true =>
      obtain ⟨g₁, hg₁, hl₁, hlt⟩ := exists_lowerGain (ho rfl) (by omega)
      rw [if_pos rfl, hg₁, bind_some]
      exact ih hl₁ (by omega) (by omega)

theorem env_mul_two_pow_lt (he : 0 ≤ env) (hlevel : InLevelRange level) (hle : env ≤ level)
    {k : ℕ} (hk : k ≤ levelZeros level) : env * 2 ^ k < 2 ^ 32 := by
  obtain ⟨n, rfl⟩ := Int.eq_ofNat_of_zero_le hlevel.1
  have hn := mul_two_pow_levelZeros_lt (n := n) (by have := hlevel.2; omega)
  calc env * 2 ^ k ≤ env * 2 ^ levelZeros n :=
        mul_le_mul_of_nonneg_left (pow_le_pow_right₀ (by decide) hk) he
    _ ≤ n * 2 ^ levelZeros n := mul_le_mul_of_nonneg_right hle (by positivity)
    _ < 2 ^ 32 := by exact_mod_cast hn

theorem limiterFits_of_le {z : ℕ} {r : ℤ} (he : 0 ≤ env) (he' : env ≤ 2 ^ 30)
    (hl : 10 ≤ z) (hu : z ≤ 16) (hz : z = 10 ∨ env < 2 ^ 24) (hg : 0 ≤ gain)
    (hroot : gain < r * 2 ^ z) (hlevel : env < a * 2 ^ 12) (hr : r ≤ 46340)
    (hra : r * r * a < 2 ^ 44) : LimiterFits env z gain := by
  have hpos : (0 : ℤ) < 2 ^ z := by positivity
  have hq := Int.ediv_nonneg hg hpos.le
  have hroot' := Int.ediv_lt_of_lt_mul hpos hroot
  refine ⟨he, he', hl, hu, hz, by omega, lt_of_le_of_lt ?_ hra⟩
  exact mul_le_mul (mul_self_le_mul_self (by omega) (by omega)) (by omega) (by omega)
    (mul_self_nonneg r)

theorem limiterFits_of_large (he : 0 ≤ env) (hlow : env < 2 ^ 24)
    (hl : 47452159 < gain) (hu : gain < 2 ^ 31) : LimiterFits env (16 - normW32 gain) gain := by
  obtain ⟨n, rfl⟩ := Int.eq_ofNat_of_zero_le (by omega : 0 ≤ gain)
  have hn := (normW32_of_pos (a := n) (by omega) (by omega)).1
  have hle : normW32 n ≤ 5 := by
    by_contra hgt
    have := Nat.mul_le_mul_left n (Nat.pow_le_pow_right two_pos (by omega : 6 ≤ normW32 n))
    omega
  have hs : 2 ^ 31 = 2 ^ 15 * 2 ^ (16 - normW32 n) * 2 ^ normW32 n := by
    rw [mul_assoc, ← pow_add, Nat.sub_add_cancel (by omega)]
    rfl
  have hr : n < 2 ^ 15 * 2 ^ (16 - normW32 n) :=
    Nat.lt_of_mul_lt_mul_right (hn.trans_eq hs)
  exact limiterFits_of_le (r := 2 ^ 15) (a := 2 ^ 12) he (by omega) (by omega) (by omega)
    (.inr hlow) (by omega) (by exact_mod_cast hr) (by omega) (by decide) (by decide)

theorem limiterFits_of_small {z : ℕ} (he : 0 ≤ env) (he' : env ≤ 2 ^ 30)
    (hg : 0 ≤ gain) (hs : gain ≤ 47452159) (hlt : gain < 2 ^ gainBits z)
    (hlow : ∀ k ≤ z, env * 2 ^ k < 2 ^ 32) : LimiterFits env 10 gain := by
  have hf {r a : ℤ} := limiterFits_of_le (z := 10) (r := r) (a := a) he he' (le_refl 10)
    (by decide) (.inl rfl) hg
  unfold gainBits at hlt
  split_ifs at hlt with h₂ h₅ h₇
  · exact hf (r := 2 ^ 12) (a := 2 ^ 18 + 1) (by omega) (by omega) (by decide) (by decide)
  · have := hlow 3 (by omega)
    exact hf (r := 2 ^ 13) (a := 2 ^ 17) (by omega) (by omega) (by decide) (by decide)
  · have := hlow 6 (by omega)
    exact hf (r := 2 ^ 14) (a := 2 ^ 14) (by omega) (by omega) (by decide) (by decide)
  · have := hlow 8 (by omega)
    exact hf (r := 46340) (a := 2 ^ 12) (by omega) (by omega) (by decide) (by decide)

theorem GatedGain.exists_limitGain (h : GatedGain env gain) :
    ∃ g, limitGain env gain = some g ∧ LimitedGain env g := by
  obtain ⟨he, hg, level, hlevel, hle, hlt⟩ := h
  have hbits := two_pow_gainBits_le (levelZeros level)
  unfold limitGain
  split
  · next hl =>
    have hz : 8 ≤ levelZeros level := by
      by_contra hz
      have hm := two_pow_gainBits_mono (by omega : levelZeros level ≤ 7)
      have hs : gainBits 7 = 24 := rfl
      rw [hs] at hm
      omega
    have hlow := env_mul_two_pow_lt he hlevel hle hz
    exact (limiterFits_of_large he (by omega) hl (by omega)).exists_limiterLoop (by omega)
      hg (le_refl gain) (Nat.lt_succ_self _)
  · exact (limiterFits_of_small he (hle.trans hlevel.2) hg (by omega) hlt fun k hk =>
      env_mul_two_pow_lt he hlevel hle hk).exists_limiterLoop (by omega) hg (le_refl gain)
      (Nat.lt_succ_self _)

end WebRtcAudio.Agc
