import WebRtcAudio.RtcBase.BitBuffer
import WebRtcAudio.Core.BitString
import WebRtcAudio.Core.Run
import Mathlib.Data.List.SplitLengths

/-! A `BitBuffer` is a bit string with a position in it. -/
namespace WebRtcAudio.RtcBase

open WebRtcAudio.Core List Option

variable {n : ℕ}

theorem hasLowBits_lowestBits (byte : BitVec 8) (h : n ≤ 8) :
    HasLowBits (lowestBits byte n) ((lowBits 8 byte).drop (8 - n)) := by
  have hm : ∀ n ≤ 8, ∀ j < 8, (1#32 <<< n - 1#32).getLsbD j = decide (j < n) := by decide
  refine ⟨by simp, ext_getElem (by simp) fun i hi _ => ?_⟩
  rw [length_lowBits] at hi
  rw [getElem_lowBits, lowestBits, BitVec.getLsbD_setWidth, BitVec.getLsbD_and,
    hm n h _ (by omega), getElem_append]
  split
  · rename_i hlt
    simp only [length_replicate, length_drop, length_lowBits] at hlt
    simp [show ¬ 7 - i < n by omega]
  · rename_i hge
    simp only [length_replicate, length_drop, length_lowBits] at hge
    simp only [getElem_drop, getElem_lowBits, BitVec.getLsbD_setWidth, length_replicate,
      length_drop, length_lowBits, show 8 - 1 - i < 8 by omega, show 8 - 1 - i < 32 by omega,
      show 8 - 1 - i < n by omega, decide_true, Bool.true_and, Bool.and_true]
    congr 1
    omega

theorem hasLowBits_highestBits (byte : BitVec 8) (h : n ≤ 8) :
    HasLowBits (highestBits byte n) ((lowBits 8 byte).take n) := by
  have hm : ∀ n ≤ 8, ∀ j < 8, ((0xFF#32 <<< (8 - n)).setWidth 8 >>> (8 - n)).getLsbD j =
      decide (j < n) := by decide
  have hs : highestBits byte n = byte >>> (8 - n) := by
    refine BitVec.eq_of_getLsbD_eq fun j hj => ?_
    rw [highestBits, BitVec.ushiftRight_and_distrib, BitVec.getLsbD_and, hm n h j hj,
      BitVec.getLsbD_ushiftRight]
    by_cases hjn : j < n
    · simp [hjn]
    · simp [hjn, BitVec.getLsbD_of_ge byte (8 - n + j) (by omega)]
  refine ⟨by simp, ?_⟩
  rw [hs, lowBits_ushiftRight (Nat.sub_le 8 n), length_take, length_lowBits,
    Nat.sub_sub_self h, Nat.min_eq_left h]

theorem lowBits_highestByte (val : BitVec 64) :
    lowBits 8 (highestByte val) = (lowBits 64 val).take 8 := by
  rw [highestByte, lowBits_setWidth le_rfl, lowBits_add 8 56 val, take_left' (length_lowBits _ _)]

variable {offset n bitCount : ℕ}

theorem getLsbD_writePartialByte (source target : BitVec 8) {j : ℕ} (hn : n ≤ 8) (ho : offset < 8)
    (hj : j < 8) : (writePartialByte source n target offset).getLsbD j =
      (target.getLsbD j && !decide (8 - n ≤ offset + j ∧ offset + j < 8) ||
        source.getLsbD (offset + j)) := by
  have hm : ∀ n ≤ 8, ∀ offset < 8, ∀ j < 8,
      ((0xFF#32 <<< (8 - n)).setWidth 8 >>> offset : BitVec 8).getLsbD j =
        decide (8 - n ≤ offset + j ∧ offset + j < 8) := by decide +kernel
  rw [writePartialByte, BitVec.getLsbD_or, BitVec.getLsbD_and, BitVec.getLsbD_not,
    hm n hn offset ho j hj, BitVec.getLsbD_ushiftRight]
  simp only [hj, decide_true, Bool.true_and]

theorem lowBits_writePartialByte {source : BitVec 8} (target : BitVec 8) (ho : offset < 8)
    (hn : n ≤ 8 - offset)
    (hs : n = 8 - offset ∨ (lowBits 8 source).drop n = replicate (8 - n) false) :
    lowBits 8 (writePartialByte source n target offset) =
      writeAt (lowBits 8 target) offset ((lowBits 8 source).take n) := by
  have hl : ((lowBits 8 source).take n).length = n := by
    rw [length_take, length_lowBits]
    omega
  refine ext_getElem ?_ fun i hi _ => ?_
  · rw [length_writeAt] <;> simp only [length_lowBits, hl]
    omega
  rw [length_lowBits] at hi
  rw [getElem_lowBits, getLsbD_writePartialByte source target (by omega) ho (by omega)]
  simp only [writeAt, getElem_append, length_append, length_take, length_lowBits,
    Nat.min_eq_left ho.le, Nat.min_eq_left (show n ≤ 8 by omega), getElem_take,
    getElem_drop, getElem_lowBits]
  split
  · split
    · -- before the bits
      rw [BitVec.getLsbD_of_ge source _ (by omega)]
      simp [show ¬ offset + (7 - i) < 8 by omega]
    · -- the bits themselves
      rw [decide_eq_true (by omega), Bool.not_true, Bool.and_false, Bool.false_or,
        show offset + (8 - 1 - i) = 8 - 1 - (i - offset) by omega]
  · -- behind the bits
    rename_i hb
    have hz : source.getLsbD (offset + (8 - 1 - i)) = false := by
      obtain hlast | hzero := hs
      · omega
      have hbit := congrArg (fun bits : List Bool => bits[i - offset - n]?) hzero
      simpa [lowBits, getElem?_replicate, show i - offset - n < 8 - n by omega,
        show n + (i - offset - n) < 8 by omega,
        show 7 - (n + (i - offset - n)) = offset + (7 - i) by omega] using hbit
    rw [hz, decide_eq_false (by omega), Bool.not_false, Bool.and_true, Bool.or_false]
    congr 1
    omega

section
variable {val : BitVec 64} {bits : List Bool} (h : HasTopBits val bits)
include h

theorem take_lowBits_highestByte
    : (lowBits 8 (highestByte val)).take bits.length = bits.take 8 := by
  rw [lowBits_highestByte, h.lowBits_eq, take_take]
  by_cases hl : bits.length ≤ 8
  · rw [Nat.min_eq_left hl, take_left' rfl, take_of_length_le hl]
  · rw [Nat.min_eq_right (by omega), take_append_of_le_length (by omega)]

theorem drop_lowBits_highestByte (hlength : bits.length ≤ 8) :
    (lowBits 8 (highestByte val)).drop bits.length = replicate (8 - bits.length) false := by
  rw [lowBits_highestByte, h.lowBits_eq, drop_take, drop_left' rfl, take_replicate,
    Nat.min_eq_left (by omega)]

end

theorem lt_eight_of_ne (h : ∀ m, n = m + 8 → False) : n < 8 := by
  by_contra hge
  exact h (n - 8) (by omega)

namespace BitBuffer

variable {bytes : List (BitVec 8)} {index : ℕ}

theorem store_of_lt (h : index < bytes.length)
    (byte : BitVec 8) : store bytes index byte = some (bytes.set index byte) := if_pos h

theorem bitString_set_writePartialByte {val : BitVec 64} {bits : List Bool}
    (hi : index < bytes.length) (ho : offset < 8) (hb : HasTopBits val bits)
    (hn : n = min bits.length (8 - offset)) :
    bitString (bytes.set index (writePartialByte (highestByte val) n bytes[index] offset)) =
      writeAt (bitString bytes) (8 * index + offset) (bits.take n) := by
  have hs : n = 8 - offset ∨
      (lowBits 8 (highestByte val)).drop n = replicate (8 - n) false := by
    by_cases hsmall : bits.length ≤ 8 - offset
    · have hd := drop_lowBits_highestByte hb (by omega)
      rw [show bits.length = n by omega] at hd
      exact Or.inr hd
    · exact Or.inl (by omega)
  have ht : (lowBits 8 (highestByte val)).take n = bits.take n := by
    have hpre := congrArg (take n) (take_lowBits_highestByte hb)
    rwa [take_take, take_take, Nat.min_eq_left (by omega), Nat.min_eq_left (by omega)] at hpre
  have hlength : (bits.take n).length = n := length_take_of_le (by omega)
  rw [bitString_set hi, lowBits_writePartialByte _ ho (by omega) hs, ht,
    ← take_drop_bitString hi, writeAt_writeAt_take_drop (by rw [length_bitString]; omega)
      (by omega)]

theorem writeFullBytes_spec {val : BitVec 64} {bits : List Bool} (hb : HasTopBits val bits)
    (hlength : bits.length = bitCount) (hr : 8 * index + bitCount ≤ 8 * bytes.length) :
    ∃ bytes' val', writeFullBytes bitCount bytes index val =
        some (bitCount % 8, bytes', index + bitCount / 8, val') ∧ bytes'.length = bytes.length ∧
      bitString bytes' = writeAt (bitString bytes) (8 * index) (bits.take (8 * (bitCount / 8))) ∧
      HasTopBits val' (bits.drop (8 * (bitCount / 8))) := by
  fun_induction writeFullBytes bitCount bytes index val generalizing bits with
  | case1 bitCount bytes index val ih =>
    have hi : index < bytes.length := by omega
    have hl : lowBits 8 (highestByte val) = bits.take 8 := by
      rw [← take_lowBits_highestByte hb, take_of_length_le]
      rw [length_lowBits]
      omega
    have hr' : 8 * (index + 1) + bitCount ≤
        8 * (bytes.set index (highestByte val)).length := by
      rw [length_set]
      omega
    obtain ⟨bytes', val', hloop, hlen', hs, htop⟩ :=
      ih _ (hb.shiftLeft (by omega)) (by rw [length_drop]; omega) hr'
    have hdiv : (bitCount + 8) / 8 = bitCount / 8 + 1 := by omega
    have hmod : (bitCount + 8) % 8 = bitCount % 8 := Nat.add_mod_right bitCount 8
    have ht : (bits.take 8).length = 8 := by
      rw [length_take]
      omega
    refine ⟨bytes', val', ?_, ?_, ?_, ?_⟩
    · rw [store_of_lt hi, hdiv, hmod, Nat.add_comm (bitCount / 8) 1, ← Nat.add_assoc]
      exact hloop
    · rw [hlen', length_set]
    · have hstart : 8 * index ≤ (bitString bytes).length := by
        rw [length_bitString]
        omega
      have hj : writeAt (writeAt (bitString bytes) (8 * index) (bits.take 8))
          (8 * index + (bits.take 8).length) ((bits.drop 8).take (8 * (bitCount / 8))) = _ :=
        writeAt_append hstart
      rw [← take_add, ht, ← Nat.mul_succ] at hj
      rw [hs, bitString_set hi, hl, hj, hdiv, Nat.mul_succ, Nat.add_comm 8]
    · rw [hdiv, Nat.mul_succ, Nat.add_comm, ← drop_drop]
      exact htop
  | case2 bitCount bytes index val hsmall =>
    have hlt := lt_eight_of_ne hsmall
    rw [Nat.div_eq_of_lt hlt, Nat.mod_eq_of_lt hlt]
    exact ⟨bytes, val, rfl, rfl, by simp [writeAt], hb⟩

theorem readFullBytes_spec {word : BitVec 32} {bits : List Bool} (hb : HasLowBits word bits)
    (hlength : bits.length + bitCount ≤ 32) (hroom : 8 * index + bitCount ≤ 8 * bytes.length) :
    ∃ word', readFullBytes bytes bitCount index word =
        some (bitCount % 8, index + bitCount / 8, word') ∧ HasLowBits word'
        (bits ++ ((bitString bytes).drop (8 * index)).take (8 * (bitCount / 8))) := by
  fun_induction readFullBytes bytes bitCount index word generalizing bits with
  | case1 bitCount index word ih =>
    have hi : index < bytes.length := by omega
    have hbyte := (hasLowBits_self bytes[index]).setWidth (show 8 ≤ 32 by decide)
    have happ := hb.append hbyte (by rw [length_lowBits]; omega)
    rw [length_lowBits] at happ
    obtain ⟨word', hl, hw⟩ := ih _ happ (by simp; omega) (by omega)
    have hdiv : (bitCount + 8) / 8 = bitCount / 8 + 1 := by omega
    have hmod : (bitCount + 8) % 8 = bitCount % 8 := Nat.add_mod_right bitCount 8
    refine ⟨word', ?_, ?_⟩
    · rw [getElem?_eq_getElem hi, hdiv, hmod, Nat.add_comm (bitCount / 8) 1, ← Nat.add_assoc]
      exact hl
    · rw [append_assoc, ← take_drop_bitString hi, Nat.mul_succ, ← drop_drop,
        ← take_add] at hw
      rwa [hdiv, Nat.mul_succ, Nat.add_comm (8 * (bitCount / 8))]
  | case2 bitCount index word hs =>
    have hlt := lt_eight_of_ne hs
    rw [Nat.div_eq_of_lt hlt, Nat.mod_eq_of_lt hlt]
    exact ⟨word, rfl, by simpa using hb⟩

def bits (buffer : BitBuffer) : List Bool := bitString buffer.bytes

def position (buffer : BitBuffer) : ℕ := 8 * buffer.byteOffset + buffer.bitOffset

structure Valid (buffer : BitBuffer) : Prop where
  bitOffset_lt : buffer.bitOffset < 8
  position_le : buffer.position ≤ 8 * buffer.bytes.length

theorem remainingBitCount_eq (buffer : BitBuffer) :
    buffer.remainingBitCount = 8 * buffer.bytes.length - buffer.position := by
  rw [remainingBitCount, position]
  omega

theorem consumeBits_spec (buffer : BitBuffer) (hn : buffer.position + n ≤ 8 * buffer.bytes.length) :
    ∃ buffer', buffer.consumeBits n = (buffer', true) ∧ buffer'.Valid ∧
      buffer'.bytes = buffer.bytes ∧ buffer'.position = buffer.position + n := by
  have hp : 8 * (buffer.byteOffset + (buffer.bitOffset + n) / 8) +
      (buffer.bitOffset + n) % 8 = buffer.position + n := by
    rw [position]
    omega
  refine ⟨_, if_neg ?_, ⟨Nat.mod_lt _ (by decide), ?_⟩, rfl, hp⟩
  · rw [remainingBitCount_eq]
    omega
  · exact hp.trans_le hn

variable {buffer : BitBuffer}

theorem hasLowBits_currentByte (hi : buffer.byteOffset < buffer.bytes.length)
    (ho : buffer.bitOffset < 8) :
    HasLowBits (lowestBits buffer.bytes[buffer.byteOffset] (8 - buffer.bitOffset))
      ((buffer.bits.drop buffer.position).take (8 - buffer.bitOffset)) := by
  have hb := hasLowBits_lowestBits buffer.bytes[buffer.byteOffset]
    (Nat.sub_le 8 buffer.bitOffset)
  rw [Nat.sub_sub_self ho.le, ← take_drop_bitString hi, drop_take, drop_drop] at hb
  exact hb

section Calls

variable {buffer : BitBuffer} (hvalid : buffer.Valid)
include hvalid

variable {n : ℕ}

theorem peekBits_spec (hpos : 1 ≤ n) (hle : n ≤ 32)
    (hn : buffer.position + n ≤ 8 * buffer.bytes.length) :
    ∃ val, buffer.peekBits n = some (some val) ∧
      HasLowBits val ((buffer.bits.drop buffer.position).take n) := by
  have ho := hvalid.bitOffset_lt
  rw [position] at hn
  have hi : buffer.byteOffset < buffer.bytes.length := by omega
  have hg : ¬ (n > buffer.remainingBitCount ∨ n > 32) := by
    rw [remainingBitCount_eq, position]
    omega
  rw [peekBits, if_neg hg, getElem?_eq_getElem hi]
  simp only [bind_eq_bind, bind_some]
  have hfirst := hasLowBits_currentByte hi ho
  generalize lowestBits buffer.bytes[buffer.byteOffset] (8 - buffer.bitOffset) = first at hfirst ⊢
  generalize hr : buffer.bits.drop buffer.position = rest at hfirst ⊢
  have hl : rest.length = 8 * buffer.bytes.length - buffer.position := by
    rw [← hr, length_drop, bits, length_bitString]
  have hf : (rest.take (8 - buffer.bitOffset)).length = 8 - buffer.bitOffset := by
    rw [length_take, hl, position]
    omega
  split
  · rename_i hs
    have hbits := hasLowBits_highestBits first (show buffer.bitOffset + n ≤ 8 by omega)
    rw [hfirst.lowBits_eq, hf, Nat.sub_sub_self ho.le, take_append,
      length_replicate, Nat.add_sub_cancel_left, take_take, Nat.min_eq_left hs.le,
      take_of_length_le (by rw [length_replicate]; omega)] at hbits
    refine ⟨_, rfl, ?_⟩
    rw [BitVec.setWidth_setWidth_of_le _ (by decide), BitVec.setWidth_eq]
    exact hbits.of_replicate_append.setWidth (by decide)
  · rename_i hlarge
    generalize hleft : n - (8 - buffer.bitOffset) = left
    have hroom : 8 * (buffer.byteOffset + 1) + left ≤ 8 * buffer.bytes.length := by omega
    obtain ⟨word, hloop, hw⟩ := readFullBytes_spec (hfirst.setWidth (show 8 ≤ 32 by decide))
      (by rw [hf]; omega) hroom
    have hd : ∀ k, (bitString buffer.bytes).drop (8 * (buffer.byteOffset + 1 + k)) =
        rest.drop (8 - buffer.bitOffset + 8 * k) := by
      intro k
      rw [← hr, drop_drop, position, bits]
      congr 1
      omega
    rw [show buffer.byteOffset + 1 = buffer.byteOffset + 1 + 0 from rfl, hd, Nat.mul_zero,
      Nat.add_zero, ← take_add] at hw
    rw [hloop]
    simp only [bind_some]
    split
    · rename_i hpa
      have hi' : buffer.byteOffset + 1 + left / 8 < buffer.bytes.length := by omega
      have hbyte := hasLowBits_highestBits buffer.bytes[buffer.byteOffset + 1 + left / 8]
        (Nat.mod_lt left (by decide : 0 < 8)).le
      rw [← take_drop_bitString hi', hd, take_take,
        Nat.min_eq_left (Nat.mod_lt left (by decide)).le] at hbyte
      have hb : ((rest.drop (8 - buffer.bitOffset + 8 * (left / 8))).take
          (left % 8)).length = left % 8 := by
        rw [length_take, length_drop, hl, position]
        omega
      have happ := hw.append (hbyte.setWidth (show 8 ≤ 32 by decide)) (by
        rw [hb, length_take]
        omega)
      rw [hb, ← take_add,
        show 8 - buffer.bitOffset + 8 * (left / 8) + left % 8 = n by omega] at happ
      rw [getElem?_eq_getElem hi']
      exact ⟨_, rfl, happ⟩
    · rename_i hfull
      refine ⟨word, rfl, ?_⟩
      rwa [show 8 - buffer.bitOffset + 8 * (left / 8) = n by omega] at hw

theorem writeBits_of_lt (val : BitVec 64) (hn : 8 * buffer.bytes.length < buffer.position + n) :
    buffer.writeBits val n = some (buffer, false) := by
  have hposition := hvalid.position_le
  rw [writeBits, if_pos]
  rw [remainingBitCount_eq]
  omega

theorem writeBits_spec (val : BitVec 64) (hpos : 1 ≤ n) (hle : n ≤ 64)
    (hn : buffer.position + n ≤ 8 * buffer.bytes.length) :
    ∃ buffer', buffer.writeBits val n = some (buffer', true) ∧ buffer'.Valid ∧
      buffer'.bits = writeAt buffer.bits buffer.position (lowBits n val) ∧
      buffer'.position = buffer.position + n := by
  have ho := hvalid.bitOffset_lt
  have hfits : 8 * buffer.byteOffset + buffer.bitOffset + n ≤ 8 * buffer.bytes.length := hn
  have hi : buffer.byteOffset < buffer.bytes.length := by omega
  have hg : ¬ n > buffer.remainingBitCount := by
    rw [remainingBitCount_eq]
    omega
  -- It is enough that the bytes hold the bits, since the rest is the step of the offset.
  have hco : ∀ bytes : List (BitVec 8), bytes.length = buffer.bytes.length →
      bitString bytes = writeAt buffer.bits buffer.position (lowBits n val) →
      ∃ buffer', some ({ buffer with bytes }.consumeBits n) = some (buffer', true) ∧
        buffer'.Valid ∧ buffer'.bits = writeAt buffer.bits buffer.position (lowBits n val) ∧
        buffer'.position = buffer.position + n := by
    intro bytes hl hs
    obtain ⟨buffer', hco, hvalid', hbytes, hp⟩ :=
      consumeBits_spec { buffer with bytes } (hl ▸ hn)
    exact ⟨buffer', congrArg some hco, hvalid', by rw [bits, hbytes, hs], hp⟩
  have htop := hasTopBits_shiftLeft val hle
  have hl := length_lowBits n val
  have hr : buffer.position + (lowBits n val).length ≤ buffer.bits.length := by
    rwa [hl, bits, length_bitString]
  rw [writeBits, if_neg hg, getElem?_eq_getElem hi]
  simp only [bind_eq_bind, bind_some]
  generalize val <<< (64 - n) = word at htop ⊢
  generalize lowBits n val = written at *
  generalize hf : min n (8 - buffer.bitOffset) = first
  have hs := bitString_set_writePartialByte hi ho htop (by rw [hl, hf])
  rw [store_of_lt hi]
  simp only [bind_some]
  generalize writePartialByte (highestByte word) first buffer.bytes[buffer.byteOffset]
    buffer.bitOffset = byte at hs ⊢
  split
  · rename_i hsmall
    refine hco _ length_set ?_
    rw [hs, take_of_length_le (by omega)]
    rfl
  rename_i hlarge
  have hnext : 8 * (buffer.byteOffset + 1) = buffer.position + first := by
    rw [position]
    omega
  obtain ⟨bytes, word', hloop, hb, hbytes, htop'⟩ :=
    writeFullBytes_spec (htop.shiftLeft (show first ≤ written.length by omega))
      (by rw [length_drop, hl])
      (show 8 * (buffer.byteOffset + 1) + (n - first) ≤
        8 * (buffer.bytes.set buffer.byteOffset byte).length by rw [length_set]; omega)
  rw [hs, hnext] at hbytes
  change bitString bytes = writeAt (writeAt buffer.bits buffer.position _) _ _ at hbytes
  rw [writeAt_take_drop hr (by omega)] at hbytes
  rw [length_set] at hb
  rw [hloop]
  simp only [bind_some]
  split
  · rename_i hpa
    have hi' : buffer.byteOffset + 1 + (n - first) / 8 < bytes.length := by omega
    have hlast := bitString_set_writePartialByte hi' (show 0 < 8 by decide) htop'
      (show (n - first) % 8 = _ by rw [length_drop, length_drop]; omega)
    rw [hbytes, show 8 * (buffer.byteOffset + 1 + (n - first) / 8) + 0 =
      buffer.position + (first + 8 * ((n - first) / 8)) by omega, drop_drop,
      writeAt_take_drop hr (by omega), take_of_length_le (by omega)] at hlast
    rw [getElem?_eq_getElem hi', bind_some, store_of_lt hi']
    exact hco _ (length_set.trans hb) hlast
  · rename_i hfull
    refine hco bytes hb ?_
    rw [hbytes, take_of_length_le (by omega)]

theorem readBits_spec (hpos : 1 ≤ n) (hle : n ≤ 32)
    (hn : buffer.position + n ≤ 8 * buffer.bytes.length) :
    ∃ buffer' val, buffer.peekBits n = some (some val) ∧
      buffer.readBits n = some (buffer', some val) ∧
      HasLowBits val ((buffer.bits.drop buffer.position).take n) ∧ buffer'.Valid ∧
      buffer'.bytes = buffer.bytes ∧ buffer'.position = buffer.position + n := by
  obtain ⟨val, hpeek, hval⟩ := peekBits_spec hvalid hpos hle hn
  obtain ⟨buffer', hco, hvalid', hb, hp⟩ := consumeBits_spec buffer hn
  exact ⟨buffer', val, hpeek, by simp [readBits, hpeek, hco], hval, hvalid', hb, hp⟩

end Calls

def writeStep (buffer : BitBuffer) (write : BitVec 64 × ℕ) : Option (BitBuffer × Bool) :=
  buffer.writeBits write.1 write.2

def readStep (buffer : BitBuffer) (n : ℕ) :
    Option (BitBuffer × (Option (BitVec 32) × Option (BitVec 32))) := do
  let peeked ← buffer.peekBits n
  let (buffer, read) ← buffer.readBits n
  return (buffer, peeked, read)

def writtenBits : List (BitVec 64 × ℕ) → List Bool → List Bool
  | write :: writes, success :: results =>
    (if success then lowBits write.2 write.1 else []) ++ writtenBits writes results
  | _, _ => []

theorem writeStep_spec (hvalid : buffer.Valid) {write : BitVec 64 × ℕ}
    (hw : 1 ≤ write.2 ∧ write.2 ≤ 64) :
    ∃ buffer' success, buffer.writeStep write = some (buffer', success) ∧ buffer'.Valid ∧
      (success = true ↔ buffer.position + write.2 ≤ 8 * buffer.bytes.length) ∧ (success = true →
        buffer'.bits = writeAt buffer.bits buffer.position (lowBits write.2 write.1) ∧
        buffer'.position = buffer.position + write.2) ∧ (success = false → buffer' = buffer) := by
  by_cases hn : buffer.position + write.2 ≤ 8 * buffer.bytes.length
  · obtain ⟨buffer', hs, hvalid', hb, hp⟩ :=
      writeBits_spec hvalid write.1 hw.1 hw.2 hn
    exact ⟨buffer', true, hs, hvalid', by simp [hn], fun _ => ⟨hb, hp⟩, by simp⟩
  · exact ⟨buffer, false, writeBits_of_lt hvalid write.1 (by omega), hvalid, by simp [hn], by simp,
      fun _ => rfl⟩

theorem seek_spec (buffer : BitBuffer) {target : ℕ} (ht : target ≤ 8 * buffer.bytes.length) :
    ∃ start, buffer.seek (target / 8) (target % 8) = (start, true) ∧ start.Valid ∧
      start.bytes = buffer.bytes ∧ start.position = target := by
  refine ⟨⟨buffer.bytes, target / 8, target % 8⟩, if_neg (by omega), ⟨?_, ?_⟩, rfl,
    Nat.div_add_mod target 8⟩
  · exact Nat.mod_lt target (by decide)
  · exact (Nat.div_add_mod target 8).trans_le ht

theorem splitLengths_append {counts : List ℕ} {xs : List Bool} (h : counts.sum ≤ xs.length)
    (ys : List Bool) : counts.splitLengths (xs ++ ys) = counts.splitLengths xs := by
  induction counts generalizing xs with
  | nil => rfl
  | cons n counts ih =>
    rw [sum_cons] at h
    rw [splitLengths_cons, splitLengths_cons, take_append_of_le_length (by omega),
      drop_append_of_le_length (by omega), ih (by rw [length_drop]; omega)]

theorem length_bits (buffer : BitBuffer) : buffer.bits.length = 8 * buffer.bytes.length := by
  rw [bits, length_bitString]

theorem writes_spec (hvalid : buffer.Valid) {writes : List (BitVec 64 × ℕ)}
    (hw : ∀ write ∈ writes, 1 ≤ write.2 ∧ write.2 ≤ 64) :
    ∃ buffer' results, runPartial writeStep buffer writes = some (buffer', results) ∧
      buffer'.Valid ∧ buffer.position + (writtenBits writes results).length ≤ buffer.bits.length ∧
      buffer'.bits = writeAt buffer.bits buffer.position (writtenBits writes results) := by
  induction writes generalizing buffer with
  | nil =>
    have hposition := hvalid.position_le
    exact ⟨buffer, [], rfl, hvalid, by rwa [length_bits], by simp [writtenBits, writeAt]⟩
  | cons write writes ih =>
    obtain ⟨next, success, hstep, hvalid', hiff, hs, hf⟩ :=
      writeStep_spec hvalid (hw write mem_cons_self)
    obtain ⟨buffer', results, hrun, hfin, hr, hb⟩ :=
      ih hvalid' fun other ho => hw other (mem_cons_of_mem write ho)
    refine ⟨buffer', success :: results, by simp [runPartial, hstep, hrun], hfin, ?_⟩
    cases success with
    | false =>
      rw [hf rfl] at hr hb
      exact ⟨hr, hb⟩
    | true =>
      obtain ⟨hnextBits, hn⟩ := hs rfl
      have hfits : buffer.position + (lowBits write.2 write.1).length ≤ buffer.bits.length := by
        rw [length_lowBits, length_bits]
        exact hiff.1 rfl
      rw [← length_lowBits write.2 write.1] at hn
      rw [hnextBits, hn, length_writeAt hfits] at hr
      rw [hnextBits, hn, writeAt_append (by omega)] at hb
      refine ⟨?_, hb⟩
      rw [writtenBits, if_pos rfl, length_append, ← Nat.add_assoc]
      exact hr

theorem reads_spec (hvalid : buffer.Valid) {counts : List ℕ} (hc : ∀ n ∈ counts, 1 ≤ n ∧ n ≤ 32)
    (hr : buffer.position + counts.sum ≤ 8 * buffer.bytes.length) :
    ∃ (buffer' : BitBuffer) (vals : List (BitVec 32)),
      runPartial readStep buffer counts = some (buffer', vals.map fun val => (some val, some val)) ∧
      vals.map BitVec.toNat =
        (counts.splitLengths (buffer.bits.drop buffer.position)).map bitValue := by
  induction counts generalizing buffer with
  | nil => exact ⟨buffer, [], rfl, rfl⟩
  | cons n counts ih =>
    obtain ⟨hpos, hle⟩ := hc n mem_cons_self
    rw [sum_cons] at hr
    obtain ⟨next, val, hpeek, hread, hval, hvalid', hb, hp⟩ :=
      readBits_spec hvalid hpos hle (by omega)
    obtain ⟨buffer', vals, hrun, hv⟩ := ih hvalid'
      (fun m hm => hc m (mem_cons_of_mem n hm)) (by rw [hb, hp]; omega)
    refine ⟨buffer', val :: vals, ?_, ?_⟩
    · simp [runPartial, readStep, hpeek, hread, hrun]
    · rw [hp, ← drop_drop, bits, hb] at hv
      rw [splitLengths_cons, map_cons, map_cons, hval.toNat_eq, hv]
      rfl

/-- A write of 1 to 64 bits from any position accesses no byte outside the buffer; it writes its
bits and no others, or fails without effect. They can be read back in pieces of 1 to 32 bits. -/
theorem bitBuffer_reads_written_bits (buffer : BitBuffer) (hvalid : buffer.Valid)
    (writes : List (BitVec 64 × ℕ)) (hwrites : ∀ write ∈ writes, 1 ≤ write.2 ∧ write.2 ≤ 64) :
    (∀ pre write post, writes = pre ++ write :: post → ∃ before results after success,
        runPartial writeStep buffer pre = some (before, results) ∧
        before.writeBits write.1 write.2 = some (after, success) ∧
        (success = true ↔ before.position + write.2 ≤ 8 * before.bytes.length) ∧ (success = true →
          after.bits = writeAt before.bits before.position (lowBits write.2 write.1) ∧
          after.position = before.position + write.2) ∧ (success = false → after = before)) ∧
    ∃ written results, runPartial writeStep buffer writes = some (written, results) ∧
      ∀ offset counts, (∀ n ∈ counts, 1 ≤ n ∧ n ≤ 32) →
        offset + counts.sum ≤ (writtenBits writes results).length →
        ∃ (start final : BitBuffer) (vals : List (BitVec 32)),
          written.seek ((buffer.position + offset) / 8) ((buffer.position + offset) % 8) =
            (start, true) ∧ runPartial readStep start counts =
            some (final, vals.map fun val => (some val, some val)) ∧ vals.map BitVec.toNat =
            (counts.splitLengths ((writtenBits writes results).drop offset)).map bitValue := by
  constructor
  · rintro pre write post rfl
    obtain ⟨before, results, hrun, hbefore, -⟩ :=
      writes_spec hvalid fun other ho => hwrites other (mem_append_left _ ho)
    obtain ⟨after, success, hstep, -, he⟩ :=
      writeStep_spec hbefore (hwrites write (by simp))
    exact ⟨before, results, after, success, hrun, hstep, he⟩
  · obtain ⟨written, results, hrun, -, hr, hbits⟩ := writes_spec hvalid hwrites
    refine ⟨written, results, hrun, fun offset counts hc hsum => ?_⟩
    have hlength : 8 * written.bytes.length = buffer.bits.length := by
      rw [← length_bits, hbits, length_writeAt hr]
    obtain ⟨start, hseek, hs, hb, hp⟩ :=
      seek_spec written (show buffer.position + offset ≤ 8 * written.bytes.length by omega)
    obtain ⟨final, vals, hread, hv⟩ :=
      reads_spec hs hc (by rw [hp, hb]; omega)
    have hd : start.bits.drop start.position = (writtenBits writes results).drop offset ++
        buffer.bits.drop (buffer.position + (writtenBits writes results).length) := by
      rw [hp, bits, hb, ← bits, hbits, drop_writeAt (by omega) (by omega)]
    rw [hd, splitLengths_append (by rw [length_drop]; omega)] at hv
    exact ⟨start, final, vals, hseek, hread, hv⟩

def unalignedWrites : List (BitVec 64 × ℕ) := [(0x5#64, 3), (0xABC#64, 12), (0xFF#64, 8), (1#64, 1)]

theorem bitBuffer_reads_written_bits_unalignedWrites :
    (∀ pre write post, unalignedWrites = pre ++ write :: post → ∃ before results after success,
        runPartial writeStep ⟨[0, 0, 0], 0, 6⟩ pre = some (before, results) ∧
        before.writeBits write.1 write.2 = some (after, success) ∧
        (success = true ↔ before.position + write.2 ≤ 8 * before.bytes.length) ∧ (success = true →
          after.bits = writeAt before.bits before.position (lowBits write.2 write.1) ∧
          after.position = before.position + write.2) ∧ (success = false → after = before)) ∧
    ∃ written results, runPartial writeStep ⟨[0, 0, 0], 0, 6⟩ unalignedWrites =
        some (written, results) ∧ ∀ offset counts, (∀ n ∈ counts, 1 ≤ n ∧ n ≤ 32) →
        offset + counts.sum ≤ (writtenBits unalignedWrites results).length →
        ∃ (start final : BitBuffer) (vals : List (BitVec 32)),
          written.seek ((6 + offset) / 8) ((6 + offset) % 8) = (start, true) ∧
          runPartial readStep start counts =
            some (final, vals.map fun val => (some val, some val)) ∧ vals.map BitVec.toNat =
            (counts.splitLengths ((writtenBits unalignedWrites results).drop offset)).map
              bitValue :=
  bitBuffer_reads_written_bits ⟨[0, 0, 0], 0, 6⟩ ⟨by decide, by decide⟩ unalignedWrites (by decide)

end BitBuffer

end WebRtcAudio.RtcBase
