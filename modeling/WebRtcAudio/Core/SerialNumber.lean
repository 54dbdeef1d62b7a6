import Mathlib.Algebra.Group.Nat.Defs

/-! Numbers that wrap, as distances ahead of and behind a common base. -/
namespace WebRtcAudio.Core

section UInt32
variable {base a b : UInt32}

theorem uint32_sub_of_le (h : (a - base).toNat ≤ (b - base).toNat) :
    (b - a).toNat = (b - base).toNat - (a - base).toNat := by
  rw [UInt32.toNat_sub, UInt32.toNat_sub, UInt32.toNat_sub] at *
  have ha := a.toNat_lt
  omega

theorem uint32_sub_of_lt (h : (b - base).toNat < (a - base).toNat) :
    (b - a).toNat = 2 ^ 32 - ((a - base).toNat - (b - base).toNat) := by
  rw [UInt32.toNat_sub, UInt32.toNat_sub, UInt32.toNat_sub] at *
  have ha := a.toNat_lt
  omega

theorem uint32_eq_of_sub_eq (base : UInt32) (h : (a - base).toNat = (b - base).toNat) : a = b := by
  have hsub := UInt32.toNat_inj.mp h
  rw [← UInt32.sub_add_cancel a base, hsub, UInt32.sub_add_cancel]

end UInt32

section UInt16
variable {base a b : UInt16}

theorem uint16_sub_of_le (h : (a - base).toNat ≤ (b - base).toNat) :
    (b - a).toNat = (b - base).toNat - (a - base).toNat := by
  rw [UInt16.toNat_sub, UInt16.toNat_sub, UInt16.toNat_sub] at *
  have ha := a.toNat_lt
  omega

theorem uint16_sub_of_lt (h : (b - base).toNat < (a - base).toNat) :
    (b - a).toNat = 2 ^ 16 - ((a - base).toNat - (b - base).toNat) := by
  rw [UInt16.toNat_sub, UInt16.toNat_sub, UInt16.toNat_sub] at *
  have ha := a.toNat_lt
  omega

theorem uint16_eq_of_sub_eq (base : UInt16) (h : (a - base).toNat = (b - base).toNat) : a = b := by
  have hsub := UInt16.toNat_inj.mp h
  rw [← UInt16.sub_add_cancel a base, hsub, UInt16.sub_add_cancel]

theorem uint16_sub_of_behind_le (h : (base - a).toNat ≤ (base - b).toNat) :
    (a - b).toNat = (base - b).toNat - (base - a).toNat := by
  rw [UInt16.toNat_sub, UInt16.toNat_sub, UInt16.toNat_sub] at *
  have ha := a.toNat_lt
  omega

theorem uint16_sub_of_behind_lt (h : (base - b).toNat < (base - a).toNat) :
    (a - b).toNat = 2 ^ 16 - ((base - a).toNat - (base - b).toNat) := by
  rw [UInt16.toNat_sub, UInt16.toNat_sub, UInt16.toNat_sub] at *
  have ha := a.toNat_lt
  have hb := b.toNat_lt
  omega

theorem uint16_eq_of_behind_eq (base : UInt16) (h : (base - a).toNat = (base - b).toNat) :
    a = b := by
  have hsub := UInt16.toNat_inj.mp h
  grind

theorem uint16_sub_succ (h : 0 < (a - b).toNat) : (a - (b + 1)).toNat = (a - b).toNat - 1 := by
  have hsub : a - (b + 1) = a - b - 1 := by grind
  have hle : (1 : UInt16) ≤ a - b := UInt16.le_iff_toNat_le.mpr h
  rw [hsub, UInt16.toNat_sub_of_le _ _ hle]
  rfl

theorem uint16_behind_add {base' : UInt16} (h : (base - a).toNat + (base' - base).toNat < 2 ^ 16) :
    (base' - a).toNat = (base - a).toNat + (base' - base).toNat := by
  have hsum : base' - a = (base - a) + (base' - base) := by grind
  rw [hsum, UInt16.toNat_add, Nat.mod_eq_of_lt h]

end UInt16

end WebRtcAudio.Core
