import Mathlib.Data.Int.ModEq
import Mathlib.Tactic.Linarith
import Mathlib.Tactic.Ring

/-! Distances on a circular buffer, described by congruences. -/
namespace WebRtcAudio.Core

def circDist (n a b : ℤ) : ℤ := (b - a) % n

def InRing (n i : ℤ) : Prop := 0 ≤ i ∧ i < n

instance (n i : ℤ) : Decidable (InRing n i) := inferInstanceAs (Decidable (_ ∧ _))

theorem circDist_nonneg {n : ℤ} (hn : 0 < n) (a b : ℤ) : 0 ≤ circDist n a b :=
  Int.emod_nonneg _ hn.ne'

theorem circDist_lt {n : ℤ} (hn : 0 < n) (a b : ℤ) : circDist n a b < n :=
  Int.emod_lt_of_pos _ hn

theorem circDist_congr {n a a' b b' : ℤ} (ha : a ≡ a' [ZMOD n]) (hb : b ≡ b' [ZMOD n]) :
    circDist n a b = circDist n a' b' := hb.sub ha

@[simp] theorem circDist_self (n a : ℤ) : circDist n a a = 0 := by
  simp [circDist]

theorem circDist_move (n a b x y : ℤ) :
    circDist n (a + x) (b + y) = (circDist n a b + (y - x)) % n := by
  unfold circDist
  rw [Int.emod_add_emod]
  congr 1
  ring

theorem circDist_eq_zero_iff {n a b : ℤ} (ha : InRing n a) (hb : InRing n b) :
    circDist n a b = 0 ↔ a = b := by
  rw [circDist, ← Int.emod_eq_emod_iff_emod_sub_eq_zero, Int.emod_eq_of_lt ha.1 ha.2,
    Int.emod_eq_of_lt hb.1 hb.2, eq_comm]

end WebRtcAudio.Core
