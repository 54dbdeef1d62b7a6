import Mathlib.Data.Nat.Bitwise

/-! `BitCount` of the delay estimator, followed in groups of six positions. -/
namespace WebRtcAudio.Utility

def bitCount (u32 : UInt32) : ℤ :=
  let tmp := u32 - ((u32 >>> 1) &&& (0o33333333333 : UInt32)) -
    ((u32 >>> 2) &&& (0o11111111111 : UInt32))
  let tmp := (tmp + (tmp >>> 3)) &&& (0o30707070707 : UInt32)
  let tmp := tmp + (tmp >>> 6)
  let tmp := (tmp + (tmp >>> 12) + (tmp >>> 24)) &&& (0o77 : UInt32)
  tmp.toNat

namespace BitCount

theorem land_split (x y : ℕ) :
    x &&& y = 64 * ((x / 64) &&& (y / 64)) + ((x % 64) &&& (y % 64)) := by
  have hdiv : (x &&& y) / 64 = (x / 64) &&& (y / 64) := Nat.and_div_two_pow (n := 6)
  have hmod : (x &&& y) % 64 = (x % 64) &&& (y % 64) := Nat.and_mod_two_pow (n := 6)
  omega

def octalCounts (m₁ m₂ n : ℕ) : ℕ := n - ((n / 2) &&& m₁) - ((n / 4) &&& m₂)

def pairSums (m₃ t : ℕ) : ℕ := (t + t / 8) &&& m₃

theorem low_half : ∀ r < 64, ∀ p < 2, (32 * p + r / 2) &&& 0o33 = (r / 2) &&& 0o33 := by
  decide

theorem low_quarter : ∀ r < 64, ∀ p < 4, (16 * p + r / 4) &&& 0o11 = (r / 4) &&& 0o11 := by
  decide

theorem octalCounts_add (m₁ m₂ q : ℕ) {r : ℕ} (hr : r < 64) :
    octalCounts (64 * m₁ + 0o33) (64 * m₂ + 0o11) (64 * q + r) =
      64 * octalCounts m₁ m₂ q + octalCounts 0o33 0o11 r := by
  have hh : ((64 * q + r) / 2) &&& (64 * m₁ + 0o33) =
      64 * ((q / 2) &&& m₁) + ((r / 2) &&& 0o33) := by
    rw [land_split, ← low_half r hr (q % 2) (by omega)]
    congr 3 <;> omega
  have hquarter : ((64 * q + r) / 4) &&& (64 * m₂ + 0o11) =
      64 * ((q / 4) &&& m₂) + ((r / 4) &&& 0o11) := by
    rw [land_split, ← low_quarter r hr (q % 4) (by omega)]
    congr 3 <;> omega
  have hq₁ : (q / 2) &&& m₁ ≤ q / 2 := Nat.and_le_left
  have hq₂ : (q / 4) &&& m₂ ≤ q / 4 := Nat.and_le_left
  have hr₁ : (r / 2) &&& 0o33 ≤ r / 2 := Nat.and_le_left
  have hr₂ : (r / 4) &&& 0o11 ≤ r / 4 := Nat.and_le_left
  rw [octalCounts, octalCounts, octalCounts, hh, hquarter]
  omega

theorem octalCounts_group :
    ∀ r < 64, octalCounts 0o33 0o11 r % 8 ≤ 3 ∧ octalCounts 0o33 0o11 r ≤ 0o33 := by
  decide

theorem low_digit : ∀ t < 28, ∀ p < 4, (8 * p + t + t / 8) &&& 7 = (t + t / 8) &&& 7 := by
  decide

def bits (m n : ℕ) : ℕ := (List.range m).countP n.testBit

theorem pairSums_group : ∀ r < 64, pairSums 7 (octalCounts 0o33 0o11 r) = bits 6 r := by
  decide

theorem pairSums_add (m₃ q : ℕ) {t : ℕ} (ht : t ≤ 0o33) (hq : q % 8 ≤ 3) :
    pairSums (64 * m₃ + 7) (64 * q + t) = 64 * pairSums m₃ q + pairSums 7 t := by
  have hsum : 64 * q + t + (64 * q + t) / 8 =
      64 * (q + q / 8) + (8 * (q % 8) + t + t / 8) := by omega
  rw [pairSums, pairSums, pairSums, hsum, land_split, ← low_digit t (by omega) (q % 8) (by omega)]
  congr 3 <;> omega

theorem group_step {m₁ m₂ : ℕ} (m₃ n : ℕ) (hq : octalCounts m₁ m₂ (n / 64) % 8 ≤ 3) :
    octalCounts (64 * m₁ + 0o33) (64 * m₂ + 0o11) n % 8 ≤ 3 ∧
      octalCounts (64 * m₁ + 0o33) (64 * m₂ + 0o11) n ≤ 64 * octalCounts m₁ m₂ (n / 64) + 0o33 ∧
      pairSums (64 * m₃ + 7) (octalCounts (64 * m₁ + 0o33) (64 * m₂ + 0o11) n) =
        64 * pairSums m₃ (octalCounts m₁ m₂ (n / 64)) + bits 6 (n % 64) := by
  have hr : n % 64 < 64 := Nat.mod_lt n (by decide)
  have hn : n = 64 * (n / 64) + n % 64 := by omega
  have hc := octalCounts_add m₁ m₂ (n / 64) hr
  rw [← hn] at hc
  obtain ⟨hlow, hle⟩ := octalCounts_group (n % 64) hr
  rw [hc, pairSums_add m₃ _ hle hq, pairSums_group _ hr]
  exact ⟨by omega, by omega, rfl⟩

theorem top_group : ∀ n < 4, octalCounts 3 1 n ≤ 2 ∧ pairSums 3 (octalCounts 3 1 n) = bits 2 n := by
  decide

theorem pairSums_octalCounts {n : ℕ} (hn : n < 2 ^ 32) :
    octalCounts 0o33333333333 0o11111111111 n ≤ 3 * 2 ^ 30 ∧
      pairSums 0o30707070707 (octalCounts 0o33333333333 0o11111111111 n) =
        64 * (64 * (64 * (64 * (64 * bits 2 (n / 64 / 64 / 64 / 64 / 64) +
          bits 6 (n / 64 / 64 / 64 / 64 % 64)) + bits 6 (n / 64 / 64 / 64 % 64)) +
          bits 6 (n / 64 / 64 % 64)) + bits 6 (n / 64 % 64)) + bits 6 (n % 64) := by
  obtain ⟨htop, hs₅⟩ := top_group (n / 64 / 64 / 64 / 64 / 64) (by omega)
  have hq₅ : octalCounts 3 1 (n / 64 / 64 / 64 / 64 / 64) % 8 ≤ 3 := by omega
  obtain ⟨hq₄, hle₄, heq₄⟩ := group_step 3 (n / 64 / 64 / 64 / 64) hq₅
  obtain ⟨hq₃, hle₃, heq₃⟩ := group_step 0o307 (n / 64 / 64 / 64) hq₄
  obtain ⟨hq₂, hle₂, heq₂⟩ := group_step 0o30707 (n / 64 / 64) hq₃
  obtain ⟨hq₁, hle₁, heq₁⟩ := group_step 0o3070707 (n / 64) hq₂
  obtain ⟨-, hle₀, heq₀⟩ := group_step 0o307070707 n hq₁
  simp only [Nat.reduceMul, Nat.reduceAdd] at hle₀ hle₁ hle₂ hle₃ hle₄ heq₀ heq₁ heq₂ heq₃ heq₄
  refine ⟨by omega, ?_⟩
  rw [heq₀, heq₁, heq₂, heq₃, heq₄, hs₅]

theorem bits_le (m n : ℕ) : bits m n ≤ m :=
  List.countP_le_length.trans_eq List.length_range

theorem bits_add_six (m n : ℕ) : bits (6 + m) n = bits 6 (n % 64) + bits m (n / 64) := by
  have hlow : bits 6 n = bits 6 (n % 64) := by
    refine List.countP_congr fun i hi => ?_
    rw [show (64 : ℕ) = 2 ^ 6 from rfl, Nat.testBit_mod_two_pow,
      decide_eq_true (List.mem_range.mp hi), Bool.true_and]
  have hh : (List.range m).countP (n.testBit ∘ (6 + ·)) = bits m (n / 64) := by
    refine List.countP_congr fun i _ => ?_
    rw [Function.comp_apply, show (64 : ℕ) = 2 ^ 6 from rfl, Nat.testBit_div_two_pow, Nat.add_comm]
  rw [← hlow, bits, List.range_add, List.countP_append, List.countP_map, hh]
  rfl

theorem toNat_shiftRight (u k : UInt32) (hk : k.toNat < 32) :
    (u >>> k).toNat = u.toNat / 2 ^ k.toNat := by
  rw [UInt32.toNat_shiftRight, Nat.mod_eq_of_lt hk, Nat.shiftRight_eq_div_pow]

theorem toNat_octalCounts (u : UInt32) :
    (u - ((u >>> 1) &&& (0o33333333333 : UInt32)) -
        ((u >>> 2) &&& (0o11111111111 : UInt32))).toNat =
      octalCounts 0o33333333333 0o11111111111 u.toNat := by
  have h₁ : ((u >>> 1) &&& (0o33333333333 : UInt32)).toNat = (u.toNat / 2) &&& 0o33333333333 := by
    rw [UInt32.toNat_and, toNat_shiftRight u 1 (by decide)]
    rfl
  have h₂ : ((u >>> 2) &&& (0o11111111111 : UInt32)).toNat = (u.toNat / 4) &&& 0o11111111111 := by
    rw [UInt32.toNat_and, toNat_shiftRight u 2 (by decide)]
    rfl
  have hle₁ : (u.toNat / 2) &&& 0o33333333333 ≤ u.toNat / 2 := Nat.and_le_left
  have hle₂ : (u.toNat / 4) &&& 0o11111111111 ≤ u.toNat / 4 := Nat.and_le_left
  have hsub : (u - ((u >>> 1) &&& (0o33333333333 : UInt32))).toNat =
      u.toNat - ((u.toNat / 2) &&& 0o33333333333) := by
    rw [UInt32.toNat_sub_of_le _ _ (UInt32.le_iff_toNat_le.mpr (by omega)), h₁]
  rw [UInt32.toNat_sub_of_le _ _ (UInt32.le_iff_toNat_le.mpr (by omega)), hsub, h₂, octalCounts]

theorem toNat_pairSums {t : UInt32} (ht : t.toNat ≤ 3 * 2 ^ 30) :
    ((t + (t >>> 3)) &&& (0o30707070707 : UInt32)).toNat = pairSums 0o30707070707 t.toNat := by
  have hthree : (3 : UInt32).toNat = 3 := rfl
  rw [UInt32.toNat_and, UInt32.toNat_add, toNat_shiftRight t 3 (by decide), hthree,
    Nat.mod_eq_of_lt (by omega)]
  rfl

theorem toNat_total {p : UInt32} {s₀ s₁ s₂ s₃ s₄ s₅ : ℕ}
    (hp : p.toNat = 64 * (64 * (64 * (64 * (64 * s₅ + s₄) + s₃) + s₂) + s₁) + s₀)
    (h₀ : s₀ ≤ 6) (h₁ : s₁ ≤ 6) (h₂ : s₂ ≤ 6) (h₃ : s₃ ≤ 6) (h₄ : s₄ ≤ 6) (h₅ : s₅ ≤ 2) :
    (((p + (p >>> 6)) + ((p + (p >>> 6)) >>> 12) + ((p + (p >>> 6)) >>> 24)) &&&
      (0o77 : UInt32)).toNat = s₀ + s₁ + s₂ + s₃ + s₄ + s₅ := by
  have hx : (p + (p >>> 6)).toNat = 64 * (64 * (64 * (64 * (64 * s₅ + (s₄ + s₅)) + (s₃ + s₄)) +
      (s₂ + s₃)) + (s₁ + s₂)) + (s₀ + s₁) := by
    have h6 : (p >>> 6).toNat = p.toNat / 64 := toNat_shiftRight p 6 (by decide)
    have hdiv : p.toNat / 64 = 64 * (64 * (64 * (64 * s₅ + s₄) + s₃) + s₂) + s₁ := by omega
    rw [UInt32.toNat_add, h6, hdiv, hp]
    omega
  have hm : (0o77 : UInt32).toNat = 2 ^ 6 - 1 := rfl
  have h12 : ((p + (p >>> 6)) >>> 12).toNat =
      64 * (64 * (64 * s₅ + (s₄ + s₅)) + (s₃ + s₄)) + (s₂ + s₃) := by
    have hdiv : ((p + (p >>> 6)) >>> 12).toNat = (p + (p >>> 6)).toNat / 4096 :=
      toNat_shiftRight _ 12 (by decide)
    rw [hdiv, hx]
    omega
  have h24 : ((p + (p >>> 6)) >>> 24).toNat = 64 * s₅ + (s₄ + s₅) := by
    have hdiv : ((p + (p >>> 6)) >>> 24).toNat = (p + (p >>> 6)).toNat / 16777216 :=
      toNat_shiftRight _ 24 (by decide)
    rw [hdiv, hx]
    omega
  rw [UInt32.toNat_and, hm, Nat.and_two_pow_sub_one_eq_mod, UInt32.toNat_add, UInt32.toNat_add,
    h12, h24, hx]
  omega

end BitCount

open BitCount

def popCount (u32 : UInt32) : ℕ := (List.range 32).countP u32.toNat.testBit

theorem bitCount_eq_popCount (u32 : UInt32) : bitCount u32 = popCount u32 := by
  obtain ⟨hc, hs⟩ := pairSums_octalCounts u32.toNat_lt
  have ht := toNat_octalCounts u32
  have htotal := toNat_total ((toNat_pairSums (ht.trans_le hc)).trans (by rw [ht, hs]))
    (bits_le 6 _) (bits_le 6 _) (bits_le 6 _) (bits_le 6 _) (bits_le 6 _) (bits_le 2 _)
  have hpop : popCount u32 = bits (6 + (6 + (6 + (6 + (6 + 2))))) u32.toNat := rfl
  rw [bitCount, htotal, hpop, bits_add_six, bits_add_six, bits_add_six, bits_add_six, bits_add_six]
  congr 1
  omega

theorem bitCount_bounds (u32 : UInt32) : 0 ≤ bitCount u32 ∧ bitCount u32 ≤ 32 := by
  have hle : popCount u32 ≤ 32 := bits_le 32 _
  rw [bitCount_eq_popCount]
  omega

end WebRtcAudio.Utility
