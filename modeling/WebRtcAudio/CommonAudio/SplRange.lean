import Mathlib.Tactic.Ring
import WebRtcAudio.CommonAudio.SplFunctions

/-! No signed operation overflows in the decimation of 16-bit samples, nor in the square root. -/
namespace WebRtcAudio.CommonAudio

open WebRtcAudio.Core Option

def IsWord16 (x : ℤ) : Prop := -2 ^ 15 ≤ x ∧ x < 2 ^ 15

instance (x : ℤ) : Decidable (IsWord16 x) := inferInstanceAs (Decidable (_ ∧ _))

theorem isWord16_toInt16 (x : ℤ) : IsWord16 (toInt16 x) := by
  have hl : -(2 ^ 16 / 2 : ℤ) ≤ x.bmod (2 ^ 16) := Int.le_bmod (by decide)
  have hu : x.bmod (2 ^ 16) < (2 ^ 16 + 1) / 2 := Int.bmod_lt (by decide)
  unfold IsWord16 toInt16
  omega

theorem mul_ediv_eq_add (a b : ℤ) {n : ℤ} (hn : n ≠ 0) : b * a / n = b / n * a + b % n * a / n := by
  conv_lhs => rw [← Int.mul_ediv_add_emod b n, add_mul, mul_assoc]
  exact Int.mul_add_ediv_left _ _ hn

theorem scaleDiff32_eq {a b c : ℤ} (ha : 0 ≤ a) (ha' : a < 2 ^ 16)
    (hbc : |b| + |c| ≤ 2 ^ 31 - 2 ^ 16) : scaleDiff32 a b c = some (c + b * a / 2 ^ 16) := by
  obtain ⟨hbl, hbu⟩ := abs_le.mp (le_refl |b|)
  obtain ⟨hcl, hcu⟩ := abs_le.mp (le_refl |c|)
  have hdiv := Int.mul_ediv_add_emod b (2 ^ 16)
  have hr := Int.emod_nonneg b (by decide : (2 ^ 16 : ℤ) ≠ 0)
  have hr' := Int.emod_lt_of_pos b (by decide : (0 : ℤ) < 2 ^ 16)
  -- both parts lie between 0 and what the factor 1 gives
  have hlow : 0 ≤ b % 2 ^ 16 * a / 2 ^ 16 ∧ b % 2 ^ 16 * a / 2 ^ 16 < 2 ^ 16 :=
    ⟨by positivity, Int.ediv_lt_of_lt_mul (by decide) (by nlinarith)⟩
  have hhigh : -|b| - 2 ^ 16 < b / 2 ^ 16 * a ∧ b / 2 ^ 16 * a ≤ |b| := by
    obtain hq | hq := le_or_gt 0 (b / 2 ^ 16)
    · constructor <;> nlinarith
    · constructor <;> nlinarith
  rw [mul_ediv_eq_add a b (by decide), scaleDiff32, int32?_bind (by omega),
    int32?_bind (by omega), toInt32_eq_self (by omega), add_assoc]
  rfl

/-- The bound for the scaled difference of output and input of an allpass section whose inputs are
bounded: it absorbs one step of the section and its rounding. -/
def sectionSpread (k x : ℤ) : ℤ := (x * (2 ^ 32 - k ^ 2) + 2 ^ 32) / (2 ^ 16 - k) + 1

def sectionBound (k x : ℤ) : ℤ := (sectionSpread k x + k * x) / 2 ^ 16

structure SectionState (k x input output : ℤ) : Prop where
  input_le : |input| ≤ x
  spread_le : |2 ^ 16 * output - k * input| ≤ sectionSpread k x

section Section

variable {k x input output : ℤ}

theorem SectionState.output_le (hk : 0 ≤ k) (h : SectionState k x input output) :
    |output| ≤ sectionBound k x := by
  have hp : |k * input| ≤ k * x := by
    rw [abs_mul, abs_of_nonneg hk]
    exact mul_le_mul_of_nonneg_left h.input_le hk
  apply Int.le_ediv_of_mul_le (by decide)
  calc |output| * 2 ^ 16 = |2 ^ 16 * output - k * input + k * input| := by
        rw [sub_add_cancel, abs_mul, mul_comm]
        rfl
    _ ≤ |2 ^ 16 * output - k * input| + |k * input| := abs_add_le _ _
    _ ≤ sectionSpread k x + k * x := add_le_add h.spread_le hp

theorem sectionSpread_step (hk : k < 2 ^ 16) :
    x * (2 ^ 32 - k ^ 2) + k * sectionSpread k x + 2 ^ 32 ≤ 2 ^ 16 * sectionSpread k x := by
  have hpos : 0 < 2 ^ 16 - k := by omega
  have hlt := Int.lt_ediv_add_one_mul_self (x * (2 ^ 32 - k ^ 2) + 2 ^ 32) hpos
  unfold sectionSpread
  linarith

theorem SectionState.zero (hk : 0 ≤ k ∧ k < 2 ^ 16) (hx : |0| ≤ x) : SectionState k x 0 0 := by
  refine ⟨hx, ?_⟩
  obtain ⟨hk, hk'⟩ := hk
  rw [abs_zero] at hx
  have hs : 0 ≤ 2 ^ 32 - k ^ 2 := by nlinarith
  have hq : 0 ≤ (x * (2 ^ 32 - k ^ 2) + 2 ^ 32) / (2 ^ 16 - k) :=
    Int.ediv_nonneg (by positivity) (by omega)
  rw [mul_zero, mul_zero, sub_zero, abs_zero, sectionSpread]
  omega

theorem SectionState.exists_next (hk : 0 ≤ k ∧ k < 2 ^ 16)
    (hbound : 2 * x + sectionBound k x ≤ 2 ^ 31 - 2 ^ 16) (h : SectionState k x input output)
    {next : ℤ} (hn : |next| ≤ x) :
    ∃ d y, int32? (next - output) = some d ∧ scaleDiff32 k d input = some y ∧
      SectionState k x next y := by
  obtain ⟨hk, hk'⟩ := hk
  have hout := h.output_le hk
  have hin := h.input_le
  have hd : |next - output| ≤ x + sectionBound k x := (abs_sub _ _).trans (add_le_add hn hout)
  obtain ⟨hl, hu⟩ := abs_le.mp hd
  have hx : 0 ≤ x := (abs_nonneg _).trans hin
  refine ⟨_, _, int32?_eq_some (by omega), scaleDiff32_eq hk hk' (by omega), hn, ?_⟩
  have hdiv := Int.mul_ediv_add_emod ((next - output) * k) (2 ^ 16)
  have hr := Int.emod_nonneg ((next - output) * k) (by decide : (2 ^ 16 : ℤ) ≠ 0)
  have hr' := Int.emod_lt_of_pos ((next - output) * k) (by decide : (0 : ℤ) < 2 ^ 16)
  generalize (next - output) * k % 2 ^ 16 = r at hdiv hr hr'
  have hspread : 2 ^ 16 * (input + (next - output) * k / 2 ^ 16) - k * next =
      2 ^ 16 * input - k * output - r := by linarith
  rw [hspread]
  -- in terms of the difference before the step
  obtain ⟨hil, hiu⟩ := abs_le.mp hin
  obtain ⟨hsl, hsu⟩ := abs_le.mp h.spread_le
  have hs : 0 ≤ 2 ^ 32 - k ^ 2 := by nlinarith
  have hstep := sectionSpread_step (x := x) hk'
  generalize sectionSpread k x = v at *
  rw [abs_le]
  constructor
  · nlinarith [mul_le_mul_of_nonneg_left hil hs, mul_le_mul_of_nonneg_left hsu hk]
  · nlinarith [mul_le_mul_of_nonneg_left hiu hs, mul_le_mul_of_nonneg_left hsl hk]

end Section

structure Allpass.Bounded (s : Allpass) (k₀ k₁ k₂ : ℤ) : Prop where
  first : SectionState k₀ (2 ^ 25) s.state0 s.state1
  second : SectionState k₁ (sectionBound k₀ (2 ^ 25)) s.state1 s.state2
  third : SectionState k₂ (sectionBound k₁ (sectionBound k₀ (2 ^ 25))) s.state2 s.state3

structure AllpassFits (k₀ k₁ k₂ : ℤ) : Prop where
  mem₀ : 0 ≤ k₀ ∧ k₀ < 2 ^ 16
  mem₁ : 0 ≤ k₁ ∧ k₁ < 2 ^ 16
  mem₂ : 0 ≤ k₂ ∧ k₂ < 2 ^ 16
  first : 2 * 2 ^ 25 + sectionBound k₀ (2 ^ 25) ≤ 2 ^ 31 - 2 ^ 16
  second : 2 * sectionBound k₀ (2 ^ 25) + sectionBound k₁ (sectionBound k₀ (2 ^ 25)) ≤
    2 ^ 31 - 2 ^ 16
  third : 2 * sectionBound k₁ (sectionBound k₀ (2 ^ 25)) +
    sectionBound k₂ (sectionBound k₁ (sectionBound k₀ (2 ^ 25))) ≤ 2 ^ 30 - 2 ^ 16

theorem allpassFits_lower : AllpassFits 12199 37471 60255 := by
  constructor <;> decide +kernel

theorem allpassFits_upper : AllpassFits 3284 24441 49528 := by
  constructor <;> decide +kernel

section Filter

variable {s : Allpass} {k₀ k₁ k₂ : ℤ}

section
variable (hfits : AllpassFits k₀ k₁ k₂)
include hfits

theorem Allpass.Bounded.exists_filter (h : s.Bounded k₀ k₁ k₂)
    {input : ℤ} (hi : IsWord16 input) :
    ∃ t, s.filter k₀ k₁ k₂ input = some t ∧ t.Bounded k₀ k₁ k₂ := by
  have hin : |input * 2 ^ 10| ≤ 2 ^ 25 := by
    obtain ⟨hl, hu⟩ := hi
    rw [abs_le]
    omega
  have hthird := hfits.third
  obtain ⟨d₀, y₀, hd₀, hy₀, h₀⟩ := h.first.exists_next hfits.mem₀ hfits.first hin
  have hout₀ := h₀.output_le hfits.mem₀.1
  obtain ⟨d₁, y₁, hd₁, hy₁, h₁⟩ := h.second.exists_next hfits.mem₁ hfits.second hout₀
  have hout₁ := h₁.output_le hfits.mem₁.1
  obtain ⟨d₂, y₂, hd₂, hy₂, h₂⟩ := h.third.exists_next hfits.mem₂ (by omega) hout₁
  refine ⟨⟨_, _, _, _⟩, ?_, h₀, h₁, h₂⟩
  simp only [Allpass.filter, hd₀, hy₀, hd₁, hy₁, hd₂, hy₂, bind_eq_bind, bind_some]
  rfl

theorem Allpass.Bounded.state3_le (h : s.Bounded k₀ k₁ k₂) : |s.state3| ≤ 2 ^ 30 - 2 ^ 16 := by
  have hs := h.third.input_le
  have hthird := h.third.output_le hfits.mem₂.1
  have hn := abs_nonneg s.state2
  have hfits := hfits.third
  omega

theorem Allpass.bounded_zero : (⟨0, 0, 0, 0⟩ : Allpass).Bounded k₀ k₁ k₂ := by
  have h₀ := SectionState.zero (x := 2 ^ 25) hfits.mem₀ (by decide)
  have h₁ := SectionState.zero hfits.mem₁ (h₀.output_le hfits.mem₀.1)
  exact ⟨h₀, h₁, .zero hfits.mem₂ (h₁.output_le hfits.mem₁.1)⟩

end

end Filter

structure FilterState.Bounded (s : FilterState) : Prop where
  lower : s.lower.Bounded 12199 37471 60255
  upper : s.upper.Bounded 3284 24441 49528

theorem FilterState.Bounded.exists_output {s : FilterState} (h : s.Bounded) :
    ∃ out, s.output = some out := by
  obtain ⟨hll, hlu⟩ := abs_le.mp (h.lower.state3_le allpassFits_lower)
  obtain ⟨hul, huu⟩ := abs_le.mp (h.upper.state3_le allpassFits_upper)
  rw [FilterState.output, int32?_bind (by omega), int32?_bind (by omega)]
  exact ⟨_, rfl⟩

theorem FilterState.Bounded.exists_downsampleBy2 {s : FilterState} (h : s.Bounded)
    {samples : List ℤ}
    (hsamples : ∀ x ∈ samples, IsWord16 x) :
    ∃ outs t, downsampleBy2 samples s = some (outs, t) ∧ t.Bounded := by
  fun_induction downsampleBy2 samples s with
  | case1 x y rest s ih =>
    obtain ⟨lower, hlow, hlow'⟩ :=
      h.lower.exists_filter allpassFits_lower (hsamples x (by simp))
    obtain ⟨upper, hu, hu'⟩ :=
      h.upper.exists_filter allpassFits_upper (hsamples y (by simp))
    have hs : FilterState.Bounded ⟨lower, upper⟩ := ⟨hlow', hu'⟩
    obtain ⟨out, hout⟩ := hs.exists_output
    obtain ⟨outs, t, ht, hb⟩ := ih lower upper hs fun z hz => hsamples z (by simp [hz])
    refine ⟨out :: outs, t, ?_, hb⟩
    simp only [hlow, hu, hout, ht, bind_eq_bind, bind_some]
    rfl
  | case2 samples s hne => exact ⟨[], s, rfl, h⟩

/-- The decimation filter at rest on a constant input. -/
def FilterState.rest (level : ℤ) : FilterState :=
  let side : Allpass := ⟨level * 2 ^ 10, level * 2 ^ 10, level * 2 ^ 10, level * 2 ^ 10⟩
  ⟨side, side⟩

section Rest

variable {level : ℤ} (h : IsWord16 level)
include h

theorem Allpass.filter_rest (k₀ k₁ k₂ : ℤ) :
    (FilterState.rest level).lower.filter k₀ k₁ k₂ level = some (FilterState.rest level).lower := by
  obtain ⟨hl, hu⟩ := h
  have hk (k : ℤ) : scaleDiff32 k 0 (level * 2 ^ 10) = some (level * 2 ^ 10) := by
    rw [scaleDiff32, int32?_bind (by omega), int32?_bind (by omega), toInt32_eq_self (by omega)]
    simp
  have hz : int32? 0 = some 0 := rfl
  simp only [filter, FilterState.rest, sub_self, hz, hk, bind_eq_bind, bind_some]
  rfl

theorem FilterState.output_rest : (rest level).output = some level := by
  obtain ⟨hl, hu⟩ := h
  have hr : (level * 2 ^ 10 + level * 2 ^ 10 + 1024) / 2 ^ 11 = level := by omega
  simp only [output, rest]
  rw [int32?_bind (by omega), int32?_bind (by omega), hr, satW32ToW16]
  exact congrArg some (by omega)

theorem downsampleBy2_rest (n : ℕ) :
    downsampleBy2 (List.replicate (2 * n) level) (.rest level) =
      some (List.replicate n level, .rest level) := by
  induction n with
  | zero => rfl
  | succ n ih =>
    have hl := Allpass.filter_rest h 12199 37471 60255
    have hu := Allpass.filter_rest h 3284 24441 49528
    rw [Nat.mul_succ, List.replicate_succ, List.replicate_succ, downsampleBy2, hl]
    change ((FilterState.rest level).lower.filter _ _ _ level >>= _) = _
    rw [hu]
    change ((FilterState.rest level).output >>= _) = _
    rw [FilterState.output_rest h]
    change (downsampleBy2 _ (.rest level) >>= _) = _
    rw [ih]
    rfl

end Rest

theorem isWord16_satW32ToW16 (x : ℤ) : IsWord16 (satW32ToW16 x) := by
  unfold IsWord16 satW32ToW16
  omega

def sqrtSeries (n : ℕ) : ℕ :=
  let u := (32769 - n) / 2
  let c := (u * u * 2 + 65535) / 65536
  let t := c * c * 2 / 65536
  n * 32768 + 1073774592 -
    (u * u + 40960 * t + 57344 * ((u * t * 2 + 65535) / 65536) + u * (u * u * 2 / 65536))

theorem sqrtLocal_eq {n : ℕ} (hl : 2 ^ 14 ≤ n) (hu : n < 2 ^ 15) :
    sqrtLocal (n * 2 ^ 16) = some (sqrtSeries n : ℤ) := by
  have hh : (n * 2 ^ 16 : ℤ).tdiv 2 = n * 2 ^ 15 := by
    rw [Int.tdiv_eq_ediv_of_nonneg (by omega)]
    omega
  rw [sqrtLocal, hh, sqrtSeries]
  dsimp only
  generalize hu' : (32769 - n) / 2 = u
  have hx : ((n : ℤ) * 2 ^ 15 - 2 ^ 30) / 2 ^ 16 = -u := by omega
  have hu : 1 ≤ u ∧ u ≤ 2 ^ 13 := by omega
  have hs : 1 ≤ u * u ∧ u * u ≤ 2 ^ 26 := by constructor <;> nlinarith
  rw [int32?_bind (by omega), hx, toInt16_eq_self (by omega),
    neg_mul_neg, ← Nat.cast_mul, int32?_bind (by omega),
    int32?_bind (by omega), int32?_bind (by omega),
    int32?_bind (by omega), int32?_bind (by omega)]
  -- the terms of the series, from the second power on
  generalize hc : (u * u * 2 + 65535) / 65536 = c
  have hp : -((u * u : ℕ) * 2 : ℤ) / 2 ^ 16 = -c := by omega
  have hcc : c * c ≤ 2 ^ 22 := by
    have : c ≤ 2 ^ 11 := by omega
    nlinarith
  rw [hp, neg_mul_neg, ← Nat.cast_mul, int32?_bind (by omega)]
  generalize ht : c * c * 2 / 65536 = t
  have ht' : ((c * c : ℕ) * 2 : ℤ) / 2 ^ 16 = t := by omega
  have hut : u * t ≤ 2 ^ 20 := by
    have : t ≤ 2 ^ 7 := by omega
    nlinarith
  rw [ht', toInt16_eq_self (x := t) (by omega), int32?_bind (by omega),
    neg_mul, ← Nat.cast_mul, int32?_bind (by omega),
    toInt16_eq_self (by omega), int32?_bind (by omega)]
  generalize hw : u * u * 2 / 65536 = w
  have hw' : ((u * u : ℕ) * 2 : ℤ) / 2 ^ 16 = w := by omega
  have huw : u * w ≤ 2 ^ 24 := by
    have : w ≤ 2 ^ 11 := by omega
    nlinarith
  rw [hw', toInt16_eq_self (x := w) (by omega), neg_mul, ← Nat.cast_mul,
    int32?_bind (by omega), int32?_bind (by omega),
    int32?_eq_some (by omega), some_inj]
  omega

theorem exists_sqrtDenormalize (root : ℤ) (shift : ℕ) :
    ∃ a, sqrtDenormalize root shift = some a := by
  obtain ⟨hl, hu⟩ := isWord16_toInt16 (root / 2 ^ 16)
  unfold sqrtDenormalize
  split
  · rw [int32?_bind (by omega), int32?_bind (by omega)]
    exact ⟨_, rfl⟩
  · exact ⟨_, rfl⟩

/-- The value is normalized and rounded to 16 bits before its root is taken. -/
theorem sqrt_eq_denormalize {value : ℤ} (hne : value ≠ 0) (hl : word32Min ≤ value)
    (hu : value ≤ word32Max) :
    ∃ a n : ℕ, min |value| word32Max = a ∧ 0 < a ∧ a < 2 ^ 31 ∧ 2 ^ 14 ≤ n ∧ n < 2 ^ 15 ∧
      n * 2 ^ 16 ≤ a * 2 ^ normW32 a + 2 ^ 15 ∧ a * 2 ^ normW32 a < n * 2 ^ 16 + 2 ^ 16 ∧
      sqrt value = sqrtDenormalize (sqrtSeries n) (normW32 a) := by
  obtain ⟨a, hcap, ha, hpos, hlt⟩ : ∃ a : ℕ, min |value| word32Max = a ∧
      (if value = word32Min then word32Max else |value|) = a ∧ 0 < a ∧ a < 2 ^ 31 := by
    simp only [word32Min, word32Max] at *
    rw [Int.abs_eq_natAbs]
    by_cases hmin : value = -2 ^ 31
    · exact ⟨2 ^ 31 - 1, by rw [hmin]; rfl, if_pos hmin, by decide, by decide⟩
    · exact ⟨value.natAbs, by omega, if_neg hmin, by omega, by omega⟩
  obtain ⟨hnorm, hnorm'⟩ := normW32_of_pos hpos hlt
  rw [pow_succ 2 (normW32 a), ← Nat.mul_assoc] at hnorm'
  have hc : (a : ℤ) * 2 ^ normW32 a = (a * 2 ^ normW32 a : ℕ) := by push_cast; rfl
  rw [sqrt, if_neg hne, ha]
  dsimp only
  rw [hc, int32?_bind (by omega)]
  obtain ⟨n, hn, hnl, hnu, hlow, hh⟩ : ∃ n : ℕ, (if ((a * 2 ^ normW32 a : ℕ) : ℤ) <
      word32Max - 32767 then ((a * 2 ^ normW32 a : ℕ) : ℤ) + 32768 else word32Max) / 2 ^ 16 = n ∧
      2 ^ 14 ≤ n ∧ n < 2 ^ 15 ∧ n * 2 ^ 16 ≤ a * 2 ^ normW32 a + 2 ^ 15 ∧
      a * 2 ^ normW32 a < n * 2 ^ 16 + 2 ^ 16 := by
    generalize a * 2 ^ normW32 a = normalized at *
    by_cases hr : (normalized : ℤ) < word32Max - 32767
    · rw [if_pos hr]
      simp only [word32Max] at hr
      exact ⟨(normalized + 32768) / 2 ^ 16, by omega, by omega, by omega, by omega, by omega⟩
    · rw [if_neg hr]
      simp only [word32Max] at hr ⊢
      exact ⟨32767, by omega, by omega, by omega, by omega, by omega⟩
  refine ⟨a, n, hcap, hpos, hlt, hnl, hnu, hlow, hh, ?_⟩
  rw [hn, toInt16_eq_self (by omega), int32?_bind (by omega), abs_of_nonneg (by omega),
    sqrtLocal_eq hnl hnu]
  rfl

theorem exists_sqrt (value : ℤ) (hl : word32Min ≤ value) (hu : value ≤ word32Max) :
    ∃ root, sqrt value = some root := by
  by_cases hne : value = 0
  · exact ⟨0, if_pos hne⟩
  · obtain ⟨a, n, -, -, -, -, -, -, -, heq⟩ := sqrt_eq_denormalize hne hl hu
    rw [heq]
    exact exists_sqrtDenormalize _ _

end WebRtcAudio.CommonAudio
