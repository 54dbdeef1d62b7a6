import Mathlib.Data.List.Basic
import Mathlib.Data.List.Induction
import Mathlib.Tactic.Ring

/-! Digits of `w` bits, the most significant first. -/
namespace WebRtcAudio.Core

open List

variable {w : ℕ}

def beValue : List (BitVec w) → ℕ := List.foldl (fun value d => value * 2 ^ w + d.toNat) 0

theorem beValue_nil : beValue ([] : List (BitVec w)) = 0 := rfl

theorem beValue_concat (l : List (BitVec w)) (d : BitVec w) :
    beValue (l ++ [d]) = beValue l * 2 ^ w + d.toNat := by
  rw [beValue, foldl_append]
  rfl

/-- One is added to the digit before an index, and to the digits before it as long as the sum is
zero. There is no result if it is still zero at the first digit. -/
def carry : ℕ → List (BitVec w) → Option (List (BitVec w))
  | 0, _ => none
  | p + 1, l => do
    let d ← l[p]?
    if d + 1 = 0 then carry p (l.set p 0) else some (l.set p (d + 1))

theorem toNat_add_one (d : BitVec w) : (d + 1).toNat = (d.toNat + 1) % 2 ^ w := by
  rw [BitVec.toNat_add, show (1 : BitVec w) = BitVec.ofNat w 1 from rfl, BitVec.toNat_ofNat,
    Nat.add_mod_mod]

theorem carry_spec {p : ℕ} {l : List (BitVec w)} (hp : p ≤ l.length)
    (hr : beValue (l.take p) + 1 < (2 ^ w) ^ p) : ∃ m, carry p l = some m ∧ m.length = l.length ∧
      beValue (m.take p) = beValue (l.take p) + 1 ∧ m.drop p = l.drop p := by
  induction p generalizing l with
  | zero => simp [beValue_nil] at hr
  | succ p ih =>
    have hlt : p < l.length := hp
    have ht : l.take (p + 1) = l.take p ++ [l[p]] := (take_append_getElem hlt).symm
    have hsum := toNat_add_one l[p]
    have hz : (0 : BitVec w).toNat = 0 := by simp
    rw [ht, beValue_concat] at hr ⊢
    rw [carry, List.getElem?_eq_getElem hlt, Option.bind_eq_bind, Option.bind_some]
    by_cases hw : l[p] + 1 = 0
    · -- The digit wraps, and the carry goes on.
      have hmax : l[p].toNat + 1 = 2 ^ w := by
        rw [hw, hz] at hsum
        by_contra hne
        rw [Nat.mod_eq_of_lt (by omega)] at hsum
        omega
      have hf : (l.set p 0).take p = l.take p := take_set_of_le le_rfl
      have hr' : beValue ((l.set p 0).take p) + 1 < (2 ^ w) ^ p := by
        rw [hf]
        rw [Nat.add_assoc, hmax, ← Nat.succ_mul, pow_succ] at hr
        exact lt_of_mul_lt_mul_right hr (Nat.zero_le _)
      obtain ⟨m, hm, hl, hval, hdrop⟩ := ih (by rw [length_set]; omega) hr'
      rw [length_set] at hl
      have hd : m.drop p = 0 :: l.drop (p + 1) := by
        rw [hdrop, drop_eq_getElem_cons (by rw [length_set]; exact hlt),
          getElem_set_self, drop_set_of_lt (Nat.lt_succ_self p)]
      refine ⟨m, by rw [if_pos hw, hm], hl, ?_, ?_⟩
      · rw [take_add, hd, take_one, List.head?_cons, Option.toList_some,
          beValue_concat, hval, hf, hz, Nat.add_zero, Nat.add_assoc, hmax, Nat.succ_mul]
      · rw [← drop_drop, hd]
        rfl
    · have hlt' : l[p].toNat + 1 < 2 ^ w := by
        by_contra hge
        apply hw
        apply BitVec.eq_of_toNat_eq
        rw [hsum, show l[p].toNat + 1 = 2 ^ w by omega, Nat.mod_self, hz]
      refine ⟨l.set p (l[p] + 1), if_neg hw, length_set, ?_,
        drop_set_of_lt (Nat.lt_succ_self p)⟩
      rw [take_succ_eq_append_getElem (by rw [length_set]; exact hlt),
        take_set_of_le le_rfl, getElem_set_self, beValue_concat, hsum,
        Nat.mod_eq_of_lt hlt', Nat.add_assoc]

end WebRtcAudio.Core
