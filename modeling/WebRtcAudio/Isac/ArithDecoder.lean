import WebRtcAudio.Isac.ArithCoder
import WebRtcAudio.Isac.CodedSymbol

/-! The value of the stream is where in the range the code is. -/
namespace WebRtcAudio.Isac

open WebRtcAudio.Core

theorem toNat_shiftLeft_or {x : BitVec 32} (hx : x.toNat < 2 ^ 24) (byte : BitVec 8) :
    ((x <<< 8) ||| byte.setWidth 32).toNat = 256 * x.toNat + byte.toNat := by
  have hb := byte.isLt
  rw [BitVec.toNat_or, BitVec.toNat_shiftLeft, BitVec.toNat_setWidth, Nat.shiftLeft_eq,
    Nat.mod_eq_of_lt (show x.toNat * 2 ^ 8 < 2 ^ 32 by omega),
    Nat.mod_eq_of_lt (show byte.toNat < 2 ^ 32 by omega), Nat.mul_comm,
    ← Nat.two_pow_add_eq_or_of_lt hb]

namespace Bitstr

variable {b : Bitstr (ℕ → BitVec 8)} {r : CodeRange} {code : ℕ → BitVec 8}

/-- The decoder is in the range, with its offset in the code as `streamval`. -/
structure Reads (b : Bitstr (ℕ → BitVec 8)) (r : CodeRange) (code : ℕ → BitVec 8) : Prop where
  stream_eq : b.stream = code
  index_eq : b.streamIndex = r.shifts + 3
  width_eq : b.wUpper.toNat = r.width
  val_eq : b.streamval.toNat = r.offset code

theorem toNat_firstWord (b : Bitstr (ℕ → BitVec 8)) :
    (((b.stream 0).setWidth 32 <<< 24) ||| ((b.stream 1).setWidth 32 <<< 16) |||
      ((b.stream 2).setWidth 32 <<< 8) ||| (b.stream 3).setWidth 32 : BitVec 32).toNat =
        codeValue b.stream 4 := by
  have h₀ := (b.stream 0).isLt
  have h₁ := (b.stream 1).isLt
  have h₂ := (b.stream 2).isLt
  have h₃ := (b.stream 3).isLt
  simp only [codeValue, BitVec.toNat_or, BitVec.toNat_shiftLeft, BitVec.toNat_setWidth,
    Nat.shiftLeft_eq]
  generalize (b.stream 0).toNat = x₀ at *
  generalize (b.stream 1).toNat = x₁ at *
  generalize (b.stream 2).toNat = x₂ at *
  generalize (b.stream 3).toNat = x₃ at *
  rw [show x₀ % 2 ^ 32 * 2 ^ 24 % 2 ^ 32 = 2 ^ 24 * x₀ by omega,
    show x₁ % 2 ^ 32 * 2 ^ 16 % 2 ^ 32 = 2 ^ 16 * x₁ by omega,
    show x₂ % 2 ^ 32 * 2 ^ 8 % 2 ^ 32 = 2 ^ 8 * x₂ by omega,
    show x₃ % 2 ^ 32 = x₃ by omega,
    ← Nat.two_pow_add_eq_or_of_lt (show 2 ^ 16 * x₁ < 2 ^ 24 by omega),
    show 2 ^ 24 * x₀ + 2 ^ 16 * x₁ = 2 ^ 16 * (2 ^ 8 * x₀ + x₁) by ring,
    ← Nat.two_pow_add_eq_or_of_lt (show 2 ^ 8 * x₂ < 2 ^ 16 by omega),
    show 2 ^ 16 * (2 ^ 8 * x₀ + x₁) + 2 ^ 8 * x₂ = 2 ^ 8 * (2 ^ 16 * x₀ + 2 ^ 8 * x₁ + x₂) by ring,
    ← Nat.two_pow_add_eq_or_of_lt (show x₃ < 2 ^ 8 by omega)]
  ring

inductive Waits (b : Bitstr (ℕ → BitVec 8)) (r : CodeRange) (code : ℕ → BitVec 8) : Prop where
  | fresh (hb : b = resetBitstream code) (hr : r = CodeRange.start)
  | reads (h : b.Reads r code)

theorem Waits.readFirstWord (h : b.Waits r code) : (readFirstWord b).Reads r code := by
  cases h with
  | fresh hb hr =>
    rw [hb, hr, Isac.readFirstWord, if_pos (show (resetBitstream code).streamIndex = 0 from rfl)]
    exact ⟨rfl, rfl, rfl, toNat_firstWord (resetBitstream code)⟩
  | reads h =>
    rw [Isac.readFirstWord, if_neg (by rw [h.index_eq]; omega)]
    exact h

theorem wUpper_ne_zero (h : 2 ^ 24 ≤ b.wUpper.toNat) : b.wUpper ≠ 0 := by
  intro hz
  rw [hz] at h
  exact absurd h (by decide)

theorem Reads.wUpper_ne_zero (h : b.Reads r code) (hr : r.Valid) : b.wUpper ≠ 0 :=
  Bitstr.wUpper_ne_zero (h.width_eq ▸ hr.le_width)

theorem Waits.wUpper_ne_zero (h : b.Waits r code) (hr : r.Valid) : b.wUpper ≠ 0 := by
  cases h with
  | fresh hb _ =>
    rw [hb]
    exact (by decide : (0xFFFFFFFF : BitVec 32) ≠ 0)
  | reads h => exact h.wUpper_ne_zero hr

theorem Reads.shift (h : b.Reads r code) (hcode : r.Contains code) (hn : ¬ 2 ^ 24 ≤ r.width) :
    Reads { b with
      streamval := (b.streamval <<< 8) ||| (b.stream (b.streamIndex + 1)).setWidth 32
      streamIndex := b.streamIndex + 1
      wUpper := b.wUpper <<< 8 } r.shift code := by
  obtain ⟨hs, hi, hw, hval⟩ := h
  have hle := hcode.offset_le
  refine ⟨hs, ?_, ?_, ?_⟩
  · rw [CodeRange.shift]
    dsimp only
    omega
  · rw [CodeRange.shift]
    dsimp only
    rw [BitVec.toNat_shiftLeft, Nat.shiftLeft_eq, hw]
    omega
  · dsimp only
    rw [toNat_shiftLeft_or (by omega), CodeRange.offset_shift hcode, hval, hs, hi]

theorem Reads.renormalize (h : b.Reads r code) {k : ℕ} (hk : 2 ^ 24 ≤ 256 ^ k * r.width)
    (hcode : (r.renormalize k).Contains code) :
    ∃ b', renormalizeDec (k + 1) b = some b' ∧ b'.Reads (r.renormalize k) code := by
  induction k generalizing b r with
  | zero =>
    rw [renormalizeDec, if_neg (by rw [and_high_byte_eq_zero_iff, h.width_eq]; omega)]
    exact ⟨b, rfl, h⟩
  | succ k ih =>
    have hh : r.Contains code := hcode.of_renormalize
    rw [renormalizeDec]
    rw [CodeRange.renormalize] at hcode ⊢
    by_cases hw : 2 ^ 24 ≤ r.width
    · rw [if_pos hw, if_neg (by rw [and_high_byte_eq_zero_iff, h.width_eq]; omega)]
      exact ⟨b, rfl, h⟩
    · rw [if_neg hw] at hcode ⊢
      rw [if_pos (by rw [and_high_byte_eq_zero_iff, h.width_eq]; omega)]
      refine ih (h.shift hh hw) ?_ hcode
      calc 2 ^ 24 ≤ 256 ^ (k + 1) * r.width := hk
        _ = 256 ^ k * (256 * r.width) := by ring

variable {c : CodedSymbol}

section
variable (h : b.Reads r code) (hr : r.Valid) (hcode : (r.encode c.part.1 c.part.2).Contains code)
include h hr hcode

theorem Reads.takeSymbol_spec : ∃ b', takeSymbol b (c.found b.wUpper) = some b' ∧
      b'.Reads (r.encode c.part.1 c.part.2) code := by
  obtain ⟨hs, hi, hw, hval⟩ := h
  obtain ⟨-, hwide⟩ := hr.narrow c.part_valid
  obtain ⟨hstart, hp⟩ := c.toNat_part hw hr
  obtain ⟨-, hlow, -⟩ := hr.contains_of_encode c.part_valid hcode
  have hn : Reads
      { b with
        wUpper := (c.found b.wUpper).wUpper - ((c.found b.wUpper).wLower + 1)
        streamval := b.streamval - ((c.found b.wUpper).wLower + 1) }
      (r.narrow c.part.1 c.part.2) code := by
    refine ⟨hs, hi, hp, ?_⟩
    dsimp only
    rw [BitVec.toNat_sub, hstart, hval, CodeRange.offset_narrow]
    omega
  exact hn.renormalize (k := 3) (by omega) hcode

theorem Reads.cut : c.table.Cut b.wUpper b.streamval (c.symbol + 1) := by
  obtain ⟨-, hlow, hend⟩ := hr.contains_of_encode c.part_valid hcode
  exact c.cut h.width_eq h.val_eq hlow hend

end

theorem Reads.streamLength_eq (h : b.Reads r code) : streamLength b = r.codeLength := by
  have hi := h.index_eq
  have hc : 0x01FFFFFF < b.wUpper ↔ 0x01FFFFFF < r.width := by
    rw [BitVec.lt_def, h.width_eq]
    rfl
  rw [streamLength, CodeRange.codeLength, hi]
  by_cases hone : 0x01FFFFFF < r.width
  · rw [if_pos (hc.mpr hone), if_pos hone]
    omega
  · rw [if_neg (fun hlt => hone (hc.mp hlt)), if_neg hone]
    omega

end Bitstr

end WebRtcAudio.Isac
