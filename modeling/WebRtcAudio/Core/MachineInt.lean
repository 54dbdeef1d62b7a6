import Mathlib.Algebra.Order.Ring.Abs
import Mathlib.Data.Int.ModEq
import Mathlib.Data.List.Range
import Mathlib.Tactic.Linarith

/-! Conversions between fixed-width integers; sums are taken over `ℤ`. -/
namespace WebRtcAudio.Core

def toInt32 (x : ℤ) : ℤ := x.bmod (2 ^ 32)

def toInt16 (x : ℤ) : ℤ := x.bmod (2 ^ 16)

def toUInt32 (x : ℤ) : ℕ := (x % 2 ^ 32).toNat

def toSizeT (x : ℤ) : ℕ := (x % 2 ^ 64).toNat

def int32? (x : ℤ) : Option ℤ := if -2 ^ 31 ≤ x ∧ x < 2 ^ 31 then some x else none

variable {x : ℤ}

theorem toInt32_eq_self (h : -2 ^ 31 ≤ x ∧ x < 2 ^ 31) : toInt32 x = x := by
  unfold toInt32
  rw [Int.bmod_eq_of_le] <;> norm_num <;> omega

theorem toInt16_eq_self (h : -2 ^ 15 ≤ x ∧ x < 2 ^ 15) : toInt16 x = x := by
  unfold toInt16
  rw [Int.bmod_eq_of_le] <;> norm_num <;> omega

theorem toUInt32_natCast {n : ℕ} (hn : n < 2 ^ 32) : toUInt32 (n : ℤ) = n := by
  unfold toUInt32
  omega

theorem int32?_eq_some (h : -2 ^ 31 ≤ x ∧ x < 2 ^ 31) : int32? x = some x := if_pos h

theorem int32?_bind {α : Type} (h : -2 ^ 31 ≤ x ∧ x < 2 ^ 31) (f : ℤ → Option α) :
    (int32? x >>= f) = f x := by
  rw [int32?_eq_some h, Option.bind_eq_bind, Option.bind_some]

def int64? (x : ℤ) : Option ℤ := if -2 ^ 63 ≤ x ∧ x < 2 ^ 63 then some x else none

theorem int64?_eq_some_iff {y : ℤ} : int64? x = some y ↔ x = y ∧ -2 ^ 63 ≤ y ∧ y < 2 ^ 63 := by
  unfold int64?
  split_ifs <;> simp <;> omega

theorem int64?_bind {α : Type} (h : -2 ^ 63 ≤ x ∧ x < 2 ^ 63) (f : ℤ → Option α) :
    (int64? x >>= f) = f x := by
  rw [int64?_eq_some_iff.mpr ⟨rfl, h⟩, Option.bind_eq_bind, Option.bind_some]

theorem toSizeT_natCast {n : ℕ} (hn : n < 2 ^ 64) : toSizeT (n : ℤ) = n := by
  unfold toSizeT
  omega

theorem toSizeT_cast (hl : 0 ≤ x) (hu : x < 2 ^ 64) : (toSizeT x : ℤ) = x := by
  unfold toSizeT
  omega

theorem toInt32_congr {y : ℤ} (h : x ≡ y [ZMOD 2 ^ 32]) : toInt32 x = toInt32 y := by
  have hmod : x % ((2 ^ 32 : ℕ) : ℤ) = y % ((2 ^ 32 : ℕ) : ℤ) := h
  rw [toInt32, toInt32, Int.bmod_def, Int.bmod_def, hmod]

theorem toSizeT_modEq (x : ℤ) : (toSizeT x : ℤ) ≡ x [ZMOD 2 ^ 64] := by
  have hc : (toSizeT x : ℤ) = x % 2 ^ 64 := by
    unfold toSizeT
    omega
  rw [hc]
  exact Int.mod_modEq x _

/-- A walk from 0 in equal steps, which leaves every fixed width. -/
def multiples (step : ℤ) (n : ℕ) : List ℤ := (List.range (n + 1)).map fun i : ℕ => i * step

theorem isChain_multiples {step bound : ℤ} (h : |step| < bound) (n : ℕ) :
    (multiples step n).IsChain fun x y => |y - x| < bound := by
  rw [multiples, List.isChain_map, List.isChain_range]
  intro i _
  rwa [Nat.cast_succ, add_one_mul, add_sub_cancel_left]

theorem multiples_eq_cons (step : ℤ) (n : ℕ) :
    multiples step n = 0 :: (List.range n).map fun i : ℕ => ((i + 1 : ℕ) : ℤ) * step := by
  simp [multiples, List.range_succ_eq_map, Function.comp_def]

theorem mul_mem_multiples (step : ℤ) (n : ℕ) : (n : ℤ) * step ∈ multiples step n :=
  List.mem_map.mpr ⟨n, List.mem_range.mpr n.lt_succ_self, rfl⟩

end WebRtcAudio.Core
