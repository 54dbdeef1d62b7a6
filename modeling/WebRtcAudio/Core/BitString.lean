import WebRtcAudio.Core.CircularList
import Mathlib.Tactic.Ring

/-! Bit strings, most significant bit first. -/
namespace WebRtcAudio.Core

open List

def lowBits {w : ℕ} (n : ℕ) (x : BitVec w) : List Bool :=
  (range n).map fun i => x.getLsbD (n - 1 - i)

def bitValue (bits : List Bool) : ℕ := bits.foldl (fun acc bit => 2 * acc + bit.toNat) 0

def bitString {w : ℕ} (words : List (BitVec w)) : List Bool := words.flatMap (lowBits w)

variable {n v k : ℕ}

section Words

variable {w : ℕ}

@[simp] theorem length_lowBits (n : ℕ) (x : BitVec w) : (lowBits n x).length = n := by
  simp [lowBits]

@[simp] theorem getElem_lowBits {i : ℕ} {x : BitVec w} (h : i < (lowBits n x).length) :
    (lowBits n x)[i] = x.getLsbD (n - 1 - i) := by
  simp [lowBits]

theorem lowBits_add (n k : ℕ) (x : BitVec w) :
    lowBits (n + k) x = lowBits n (x >>> k) ++ lowBits k x := by
  refine ext_getElem (by simp) fun i hi _ => ?_
  rw [length_lowBits] at hi
  rw [getElem_append]
  split
  · rename_i hlt
    rw [length_lowBits] at hlt
    rw [getElem_lowBits, getElem_lowBits, BitVec.getLsbD_ushiftRight]
    congr 1
    omega
  · rename_i hge
    rw [length_lowBits] at hge
    simp only [getElem_lowBits, length_lowBits]
    congr 1
    omega

theorem lowBits_setWidth (h : n ≤ v) (x : BitVec w) : lowBits n (x.setWidth v) = lowBits n x := by
  refine ext_getElem (by simp) fun i hi _ => ?_
  rw [length_lowBits] at hi
  simp only [getElem_lowBits, BitVec.getLsbD_setWidth]
  simp only [show n - 1 - i < v by omega, decide_true, Bool.true_and]

theorem lowBits_shiftLeft (h : k ≤ w) (x : BitVec w) :
    lowBits w (x <<< k) = (lowBits w x).drop k ++ replicate k false := by
  refine ext_getElem (by simp; omega) fun i hi _ => ?_
  rw [length_lowBits] at hi
  rw [getElem_lowBits, BitVec.getLsbD_shiftLeft, getElem_append]
  split
  · rename_i hlt
    rw [length_drop, length_lowBits] at hlt
    rw [getElem_drop, getElem_lowBits]
    simp only [show w - 1 - i < w by omega, show ¬ w - 1 - i < k by omega, decide_true,
      decide_false, Bool.not_false, Bool.true_and]
    congr 1
    omega
  · rename_i hge
    rw [length_drop, length_lowBits] at hge
    rw [getElem_replicate]
    simp only [show w - 1 - i < k by omega, decide_true, Bool.not_true, Bool.and_false,
      Bool.false_and]

theorem lowBits_ushiftRight (h : k ≤ w) (x : BitVec w) :
    lowBits w (x >>> k) = replicate k false ++ (lowBits w x).take (w - k) := by
  refine ext_getElem (by simp; omega) fun i hi _ => ?_
  rw [length_lowBits] at hi
  rw [getElem_lowBits, BitVec.getLsbD_ushiftRight, getElem_append]
  split
  · rename_i hlt
    rw [length_replicate] at hlt
    rw [getElem_replicate]
    exact BitVec.getLsbD_of_ge x _ (by omega)
  · rename_i hge
    rw [length_replicate] at hge
    simp only [length_replicate, getElem_take, getElem_lowBits]
    congr 1
    omega

theorem lowBits_or (n : ℕ) (x y : BitVec w) :
    lowBits n (x ||| y) = zipWith or (lowBits n x) (lowBits n y) := by
  refine ext_getElem (by simp) fun i hi _ => ?_
  simp

end Words

section Values

theorem foldl_bitValue (acc : ℕ) (bits : List Bool) :
    bits.foldl (fun acc bit => 2 * acc + bit.toNat) acc =
      acc * 2 ^ bits.length + bitValue bits := by
  induction bits using reverseRecOn with
  | nil => simp [bitValue]
  | append_singleton bits bit ih =>
    simp only [foldl_append, foldl_cons, foldl_nil, ih, bitValue, length_append,
      length_singleton, pow_succ]
    ring

theorem bitValue_append (xs ys : List Bool) :
    bitValue (xs ++ ys) = bitValue xs * 2 ^ ys.length + bitValue ys := by
  rw [bitValue, foldl_append, foldl_bitValue]
  rfl

theorem bitValue_replicate_false (n : ℕ) : bitValue (replicate n false) = 0 := by
  induction n with
  | zero => rfl
  | succ n ih => rw [replicate_succ', bitValue_append, ih]; rfl

theorem bitValue_lowBits {w : ℕ} (n : ℕ) (x : BitVec w) :
    bitValue (lowBits n x) = x.toNat % 2 ^ n := by
  induction n with
  | zero => simp [lowBits, bitValue, Nat.mod_one]
  | succ n ih =>
    have hf : bitValue (lowBits 1 (x >>> n)) = x.toNat / 2 ^ n % 2 := by
      simp [lowBits, bitValue, BitVec.getLsbD, Nat.toNat_testBit]
    rw [Nat.add_comm n 1, lowBits_add, bitValue_append, ih, length_lowBits, hf,
      Nat.add_comm 1 n, Nat.mod_pow_succ]
    ring

end Values

section Ends

variable {w : ℕ} {x y : BitVec w} {xs ys : List Bool}

/-- The lowest bits of the word are the string, and the others are zero. -/
structure HasLowBits (x : BitVec w) (bits : List Bool) : Prop where
  length_le : bits.length ≤ w
  lowBits_eq : lowBits w x = replicate (w - bits.length) false ++ bits

theorem hasLowBits_self (x : BitVec w) : HasLowBits x (lowBits w x) :=
  ⟨(length_lowBits w x).le, by simp⟩

theorem HasLowBits.toNat_eq (h : HasLowBits x xs) : x.toNat = bitValue xs := by
  have hval := bitValue_lowBits w x
  rw [h.lowBits_eq, bitValue_append, bitValue_replicate_false, Nat.zero_mul, Nat.zero_add,
    Nat.mod_eq_of_lt x.isLt] at hval
  exact hval.symm

theorem HasLowBits.of_replicate_append (h : HasLowBits x (replicate k false ++ xs)) :
    HasLowBits x xs := by
  obtain ⟨hlen, hb⟩ := h
  rw [length_append, length_replicate] at hlen hb
  refine ⟨by omega, ?_⟩
  rw [hb, ← append_assoc, replicate_append_replicate,
    show w - (k + xs.length) + k = w - xs.length by omega]

theorem HasLowBits.setWidth (h : HasLowBits x xs) (hv : w ≤ v) : HasLowBits (x.setWidth v) xs := by
  have hlen := h.length_le
  refine ⟨hlen.trans hv, ?_⟩
  obtain ⟨k, rfl⟩ := Nat.exists_eq_add_of_le hv
  have hh : lowBits k (x.setWidth (w + k) >>> w) = replicate k false := by
    refine ext_getElem (by simp) fun i hi _ => ?_
    rw [getElem_lowBits, BitVec.getLsbD_ushiftRight, BitVec.getLsbD_setWidth,
      BitVec.getLsbD_of_ge x _ (by omega), Bool.and_false, getElem_replicate]
  have hlow : lowBits w (x.setWidth (w + k)) = lowBits w x :=
    lowBits_setWidth (Nat.le_add_right w k) x
  have hsum := lowBits_add k w (x.setWidth (w + k))
  rw [hh, hlow, h.lowBits_eq, ← append_assoc,
    replicate_append_replicate, Nat.add_comm k w] at hsum
  rw [hsum, show k + (w - xs.length) = w + k - xs.length by omega]

theorem zipWith_or_replicate_false (bits : List Bool) :
    zipWith or bits (replicate bits.length false) = bits :=
  ext_getElem (by simp) (by simp)

theorem zipWith_replicate_false_or (bits : List Bool) :
    zipWith or (replicate bits.length false) bits = bits :=
  ext_getElem (by simp) (by simp)

theorem HasLowBits.append (hx : HasLowBits x xs) (hy : HasLowBits y ys)
    (h : xs.length + ys.length ≤ w) : HasLowBits (x <<< ys.length ||| y) (xs ++ ys) := by
  have hh : lowBits w (x <<< ys.length) =
      (replicate (w - (xs.length + ys.length)) false ++ xs) ++
        replicate ys.length false := by
    rw [lowBits_shiftLeft (by omega), hx.lowBits_eq,
      drop_append_of_le_length (by rw [length_replicate]; omega), drop_replicate,
      Nat.sub_sub]
  have hlen : (replicate (w - (xs.length + ys.length)) false ++ xs).length =
      w - ys.length := by
    rw [length_append, length_replicate]
    omega
  refine ⟨by rwa [length_append], ?_⟩
  rw [lowBits_or, hh, hy.lowBits_eq, zipWith_append (by rw [hlen, length_replicate]), ← hlen,
    zipWith_or_replicate_false, zipWith_replicate_false_or, append_assoc, length_append]

structure HasTopBits (x : BitVec w) (bits : List Bool) : Prop where
  length_le : bits.length ≤ w
  lowBits_eq : lowBits w x = bits ++ replicate (w - bits.length) false

theorem hasTopBits_shiftLeft (x : BitVec w) (h : n ≤ w) :
    HasTopBits (x <<< (w - n)) (lowBits n x) := by
  refine ⟨by simpa using h, ?_⟩
  have hs := lowBits_add (w - n) n x
  rw [Nat.sub_add_cancel h] at hs
  rw [lowBits_shiftLeft (Nat.sub_le w n), hs, length_lowBits, drop_left' (length_lowBits _ _)]

theorem HasTopBits.shiftLeft (h : HasTopBits x xs) (hk : k ≤ xs.length) :
    HasTopBits (x <<< k) (xs.drop k) := by
  have hlen := h.length_le
  refine ⟨by rw [length_drop]; omega, ?_⟩
  rw [lowBits_shiftLeft (by omega), h.lowBits_eq, drop_append_of_le_length hk,
    append_assoc, replicate_append_replicate, length_drop,
    show w - xs.length + k = w - (xs.length - k) by omega]

end Ends

section Strings

variable {w : ℕ}

@[simp] theorem length_bitString (words : List (BitVec w)) :
    (bitString words).length = w * words.length := by
  simp [bitString, length_flatMap, Nat.mul_comm]

theorem bitString_append (xs ys : List (BitVec w)) :
    bitString (xs ++ ys) = bitString xs ++ bitString ys := flatMap_append

section
variable {words : List (BitVec w)} {k : ℕ}

theorem drop_bitString (h : k ≤ words.length) :
    (bitString words).drop (w * k) = bitString (words.drop k) := by
  conv_lhs => rw [← take_append_drop k words, bitString_append]
  exact drop_left' (by rw [length_bitString, length_take_of_le h])

theorem take_drop_bitString (h : k < words.length) :
    ((bitString words).drop (w * k)).take w = lowBits w words[k] := by
  rw [drop_bitString h.le, drop_eq_getElem_cons h]
  exact take_left' (length_lowBits w _)

theorem bitString_set (h : k < words.length) (x : BitVec w) :
    bitString (words.set k x) = writeAt (bitString words) (w * k) (lowBits w x) := by
  have ht : (bitString words).take (w * k) = bitString (words.take k) := by
    conv_lhs => rw [← take_append_drop k words, bitString_append]
    exact take_left' (by rw [length_bitString, length_take_of_le h.le])
  rw [set_eq_take_cons_drop x h, bitString_append, writeAt, ht, length_lowBits,
    ← Nat.mul_succ, drop_bitString h, append_assoc]
  rfl

end

end Strings

end WebRtcAudio.Core
