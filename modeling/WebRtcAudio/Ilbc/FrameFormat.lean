import WebRtcAudio.Ilbc.PackBits

/-! Every bit of a field has one place in a frame, and every bit but the last one belongs to a
field. -/
namespace WebRtcAudio.Ilbc

open WebRtcAudio.Core

def numLsf (mode : ℤ) : ℕ := if mode = 20 then 3 else 6

def numIndex (mode : ℤ) : ℕ := if mode = 20 then 9 else 15

def numIdxVec (mode : ℤ) : ℕ := if mode = 20 then 57 else 58

def fields (mode : ℤ) : List Field :=
  (List.range (numLsf mode)).map .lsf ++ (List.range (numIndex mode)).map .cbIndex ++
    (List.range (numIndex mode)).map .gainIndex ++ (List.range (numIdxVec mode)).map .idxVec ++
    [.idxForMax, .stateFirst, .startIdx]

def used (mode : ℤ) : Field → Bool
  | .lsf i => i < numLsf mode
  | .cbIndex i => i < numIndex mode
  | .gainIndex i => i < numIndex mode
  | .idxVec i => i < numIdxVec mode
  | _ => true

def width (mode : ℤ) : Field → ℕ
  | .lsf i => if i = 0 ∨ i = 3 then 6 else 7
  | .cbIndex i => if i ∈ [0, 1, 2, 4, 5] then 7 else 8
  | .gainIndex i => 5 - i % 3
  | .idxForMax => 6
  | .stateFirst => 1
  | .idxVec _ => 3
  | .startIdx => if mode = 20 then 2 else 3

def live (mode : ℤ) (field : Field) (i : ℕ) : Bool := !used mode field || i < width mode field

def notLast (mode : ℤ) (w i : ℕ) : Bool := !(w = numWords mode - 1 && i = 0)

def position (mode : ℤ) : Field → ℕ
  | .lsf i => i
  | .cbIndex i => numLsf mode + i
  | .gainIndex i => numLsf mode + numIndex mode + i
  | .idxVec i => numLsf mode + 2 * numIndex mode + i
  | .idxForMax => numLsf mode + 2 * numIndex mode + numIdxVec mode
  | .stateFirst => numLsf mode + 2 * numIndex mode + numIdxVec mode + 1
  | .startIdx => numLsf mode + 2 * numIndex mode + numIdxVec mode + 2

def unpackOf (mode : ℤ) (field : Field) : List (BitStatement ℕ Field) :=
  lookUp (statementTable (unpackProgram mode) (fields mode)) (position mode) field

def packOf (mode : ℤ) (w : ℕ) : List (BitStatement Field ℕ) :=
  lookUp (statementTable (packProgram mode) (List.range (numWords mode))) id w

def RestoresFrame (mode : ℤ) : Prop :=
  (∀ f ∈ fields mode, RestoresWord (unpackOf mode) (packOf mode) (live mode) 16 f) ∧
    ∀ w < numWords mode, RestoresWord (packOf mode) (unpackOf mode) (notLast mode) 16 w

instance : DecidablePred RestoresFrame := fun _ => inferInstanceAs (Decidable (_ ∧ _))

theorem restoresFrame_20 : RestoresFrame 20 := by decide +kernel

theorem restoresFrame_30 : RestoresFrame 30 := by decide +kernel

variable {mode : ℤ}

theorem restoresFrame (hm : mode = 20 ∨ mode = 30) : RestoresFrame mode := by
  rcases hm with rfl | rfl
  · exact restoresFrame_20
  · exact restoresFrame_30

theorem mem_fields_iff {f : Field} : f ∈ fields mode ↔ used mode f := by
  cases f <;> simp [fields, used]

theorem width_le (mode : ℤ) (f : Field) : width mode f ≤ 16 := by
  unfold width
  split
  all_goals first | omega | (split_ifs <;> omega)

theorem testBit_eq_false_of_not_live {encBits : IlbcBits}
    (hf : ∀ f, used mode f → encBits f < 2 ^ width mode f) (f : Field) (i : ℕ)
    (h : live mode f i = false) : (encBits f).testBit i = false := by
  rw [live, Bool.or_eq_false_iff, Bool.not_eq_false', decide_eq_false_iff_not] at h
  exact Nat.testBit_lt_two_pow (Nat.lt_of_lt_of_le (hf f h.1)
    (Nat.pow_le_pow_right (by decide) (Nat.le_of_not_lt h.2)))

theorem unpackBits_packBits (hm : mode = 20 ∨ mode = 30) (encBits : IlbcBits)
    (hfits : ∀ f, used mode f → encBits f < 2 ^ width mode f) (bitstream : ℕ → ℕ)
    (other : IlbcBits) {f : Field} (hf : used mode f) :
    (unpackBits (packBits bitstream encBits mode) other mode).1 f = encBits f := by
  apply runBits_runBits (fun _ => lookUp_eq) (fun _ => lookUp_eq)
    ((restoresFrame hm).1 f (mem_fields_iff.mpr hf))
  · exact Nat.lt_of_lt_of_le (hfits f hf) (Nat.pow_le_pow_right (by decide) (width_le mode f))
  · exact testBit_eq_false_of_not_live hfits

theorem packBits_unpackBits (hm : mode = 20 ∨ mode = 30) {bitstream : ℕ → ℕ}
    (hwords : ∀ w < numWords mode, bitstream w < 2 ^ 16)
    (hl : (bitstream (numWords mode - 1)).testBit 0 = false) (encBits : IlbcBits)
    (other : ℕ → ℕ) {w : ℕ} (hw : w < numWords mode) :
    packBits other (unpackBits bitstream encBits mode).1 mode w = bitstream w := by
  apply runBits_runBits (fun _ => lookUp_eq) (fun _ => lookUp_eq)
    ((restoresFrame hm).2 w hw) (hwords w hw)
  intro w i h
  rw [notLast, Bool.not_eq_false', Bool.and_eq_true, decide_eq_true_eq, decide_eq_true_eq] at h
  rw [h.1, h.2, hl]

/-- In both modes, unpacking inverts packing on fields that fit, packing inverts unpacking on frames
whose last bit is 0, and the last bit is what unpacking returns. -/
theorem frame_format_bijective {mode : ℤ} (hmode : mode = 20 ∨ mode = 30) :
    (∀ encBits : IlbcBits, (∀ f, used mode f → encBits f < 2 ^ width mode f) →
      ∀ bitstream other f, used mode f →
        (unpackBits (packBits bitstream encBits mode) other mode).1 f = encBits f) ∧
    (∀ bitstream : ℕ → ℕ, (∀ w < numWords mode, bitstream w < 2 ^ 16) →
      ∀ encBits, ((unpackBits bitstream encBits mode).2 = 1 ↔
          (bitstream (numWords mode - 1)).testBit 0) ∧
        ((bitstream (numWords mode - 1)).testBit 0 = false →
          (unpackBits bitstream encBits mode).2 = 0 ∧ ∀ other, ∀ w < numWords mode,
            packBits other (unpackBits bitstream encBits mode).1 mode w = bitstream w)) := by
  constructor
  · intro encBits hfits bitstream other f hf
    exact unpackBits_packBits hmode encBits hfits bitstream other hf
  · intro bitstream hwords encBits
    have hi : (unpackBits bitstream encBits mode).2 =
        if (bitstream (numWords mode - 1)).testBit 0 then 1 else 0 := by
      simp [unpackBits, Nat.testBit_zero, Nat.and_one_is_mod]
    refine ⟨?_, fun hl => ⟨?_, fun other w hw => ?_⟩⟩
    · rw [hi]
      split_ifs with h <;> simp [h]
    · rw [hi, hl]
      rfl
    · exact packBits_unpackBits hmode hwords hl encBits other hw

theorem frame_format_bijective_ones :
    (unpackBits (packBits (fun _ => 0) (fun f => 2 ^ width 20 f - 1) 20) (fun _ => 0) 20).1
        (.gainIndex 6) = 31 ∧
      packBits (fun _ => 0) (unpackBits (fun w => if w = 18 then 0xFFFE else 0xFFFF)
        (fun _ => 0) 20).1 20 18 = 0xFFFE := by
  have h := frame_format_bijective (.inl rfl : (20 : ℤ) = 20 ∨ (20 : ℤ) = 30)
  constructor
  · exact h.1 (fun f => 2 ^ width 20 f - 1)
      (fun f _ => Nat.sub_lt (Nat.two_pow_pos _) (by decide)) (fun _ => 0) (fun _ => 0)
      (.gainIndex 6) (by decide)
  · exact ((h.2 (fun w => if w = 18 then 0xFFFE else 0xFFFF) (by decide) fun _ => 0).2
      (by decide)).2 (fun _ => 0) 18 (by decide)

end WebRtcAudio.Ilbc
