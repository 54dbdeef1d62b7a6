import Mathlib.Tactic.IntervalCases
import Mathlib.Tactic.Ring
import WebRtcAudio.NetEq.RedPayloadSplitter

/-! The payloads that `SplitRed` can split, as sequences of blocks, and what becomes of them. -/
namespace WebRtcAudio.NetEq

open WebRtcAudio.Core RedPayloadSplitter List Option

structure RedBlock where
  payloadType : Fin 128
  timestampOffset : Fin (2 ^ 14)
  length : Fin (2 ^ 10)

def RedBlock.header (block : RedBlock) : List UInt8 :=
  [.ofNat (128 + block.payloadType), .ofNat (block.timestampOffset / 64),
    .ofNat (block.timestampOffset % 64 * 4 + block.length / 256), .ofNat (block.length % 256)]

/-- A payload whose headers end inside it: redundant blocks, the payload type of the primary block
and the bytes after the headers. -/
structure RedPayload where
  blocks : List RedBlock
  primaryType : Fin 128
  body : List UInt8

namespace RedPayload

def bytes (r : RedPayload) : List UInt8 :=
  r.blocks.flatMap RedBlock.header ++ .ofNat r.primaryType :: r.body

def numBlocks (r : RedPayload) : ℕ := r.blocks.length + 1

def payloadType (r : RedPayload) (i : ℕ) : Fin 128 :=
  (r.blocks[i]?).elim r.primaryType RedBlock.payloadType

def timestampOffset (r : RedPayload) (i : ℕ) : ℕ :=
  (r.blocks[i]?).elim 0 fun block => block.timestampOffset

def start (r : RedPayload) (i : ℕ) : ℕ := ((r.blocks.take i).map fun block => block.length.val).sum

def slice (r : RedPayload) (i : ℕ) : List UInt8 :=
  (r.body.drop (r.start i)).take
    ((r.blocks[i]?).elim (r.body.length - r.start i) fun block => block.length)

def Fits (r : RedPayload) : Prop := r.start r.blocks.length ≤ r.body.length

instance (r : RedPayload) : Decidable r.Fits := inferInstanceAs (Decidable (_ ≤ _))

def Leading (r : RedPayload) (k : ℕ) : Prop :=
  r.Fits ∧ k = r.numBlocks ∨ r.start k ≤ r.body.length ∧ r.body.length < r.start (k + 1)

end RedPayload

/-- The packet for block `i` of a payload: the primary block, the last one, has the RED level 0. -/
structure IsBlock (redPacket : Packet) (r : RedPayload) (i : ℕ) (p : Packet) : Prop where
  timestamp : p.timestamp = redPacket.timestamp - UInt32.ofNat (r.timestampOffset i)
  sequenceNumber : p.sequenceNumber = redPacket.sequenceNumber
  payloadType : p.payloadType = UInt8.ofNat (r.payloadType i)
  payload : p.payload.data = r.slice i
  priority : p.priority = ⟨0, (r.numBlocks - 1 - i : ℕ)⟩
  packetInfo : p.packetInfo = { redPacket.packetInfo with
    csrcs := [], rtpTimestamp := p.timestamp, audioLevel := none, absoluteCaptureTime := none }
  waitingTime : p.waitingTime = none
  frame : p.frame = none

structure SplitsInto (redPacket : Packet) (r : RedPayload) (newPackets : List Packet) : Prop where
  too_many : kMaxRedBlocks < r.numBlocks → newPackets = []
  leading : r.numBlocks ≤ kMaxRedBlocks → ∃ k, r.Leading k ∧
    Forall₂ (IsBlock redPacket r) (range k) newPackets.reverse
  /-- The payloads are consecutive, and nothing is left over. -/
  flatten_payload : r.numBlocks ≤ kMaxRedBlocks → r.Fits →
    (newPackets.reverse.map fun p => p.payload.data).flatten = r.body

theorem timestampOffset_eq (b1 b2 : UInt8) :
    timestampOffset b1 b2 = b1.toNat * 64 + b2.toNat / 4 := by
  have hm : ∀ n < 256, (n &&& 0xFC) >>> 2 = n / 4 := by decide +kernel
  have hand : (b2 &&& 0xFC).toNat = b2.toNat &&& 0xFC := UInt8.toNat_and b2 0xFC
  rw [timestampOffset, hand, hm _ b2.toNat_lt, Nat.shiftLeft_eq]

theorem blockLength_eq (b2 b3 : UInt8) : blockLength b2 b3 = b2.toNat % 4 * 256 + b3.toNat := by
  have hand : (b2 &&& 0x03).toNat = b2.toNat &&& (2 ^ 2 - 1) := UInt8.toNat_and b2 0x03
  rw [blockLength, hand, Nat.and_two_pow_sub_one_eq_mod, Nat.shiftLeft_eq]

theorem fBit_eq (b : UInt8) : fBit b = decide (128 ≤ b.toNat) := by
  have hm : ∀ n < 256, n &&& 0x80 ≠ 0 ↔ 128 ≤ n := by decide +kernel
  have hand : (b &&& 0x80).toNat = b.toNat &&& 0x80 := UInt8.toNat_and b 0x80
  rw [fBit, decide_eq_decide, ne_eq, ← UInt8.toNat_inj, hand]
  exact hm _ b.toNat_lt

theorem and_0x7F_eq (b : UInt8) : b &&& 0x7F = UInt8.ofNat (b.toNat % 128) := by
  have hand : (b &&& 0x7F).toNat = b.toNat &&& (2 ^ 7 - 1) := UInt8.toNat_and b 0x7F
  rw [← UInt8.toNat_inj, hand, Nat.and_two_pow_sub_one_eq_mod, UInt8.toNat_ofNat']
  omega

theorem readHeaders_block (timestamp : UInt32) (size : ℕ) (block : RedBlock) (bytes : List UInt8)
    (pos sumLength : ℕ) : readHeaders timestamp size (block.header ++ bytes) pos sumLength =
      (readHeaders timestamp size bytes (pos + 4) (sumLength + block.length + 4)).map fun r =>
        (⟨.ofNat block.payloadType, timestamp - .ofNat block.timestampOffset, block.length⟩ :: r.1,
          r.2) := by
  obtain ⟨⟨payloadType, hpt⟩, ⟨offset, hoffset⟩, ⟨length, hlength⟩⟩ := block
  have hf : fBit (.ofNat (128 + payloadType)) = true := by
    rw [fBit_eq, UInt8.toNat_ofNat', decide_eq_true_iff]
    omega
  have hpt' : UInt8.ofNat (128 + payloadType) &&& 0x7F = .ofNat payloadType := by
    rw [and_0x7F_eq, UInt8.toNat_ofNat', ← UInt8.toNat_inj, UInt8.toNat_ofNat', UInt8.toNat_ofNat']
    omega
  have ho : timestampOffset (.ofNat (offset / 64)) (.ofNat (offset % 64 * 4 + length / 256)) =
      offset := by
    rw [timestampOffset_eq, UInt8.toNat_ofNat', UInt8.toNat_ofNat']
    omega
  have hl : blockLength (.ofNat (offset % 64 * 4 + length / 256)) (.ofNat (length % 256)) =
      length := by
    rw [blockLength_eq, UInt8.toNat_ofNat', UInt8.toNat_ofNat']
    omega
  simp only [RedBlock.header, cons_append, nil_append, readHeaders, hf, if_true, hpt', ho, hl]

theorem readHeaders_primary (timestamp : UInt32) (size : ℕ) (primaryType : Fin 128)
    (bytes : List UInt8) (pos sumLength : ℕ) :
    readHeaders timestamp size (.ofNat primaryType :: bytes) pos sumLength =
      some ([⟨.ofNat primaryType, timestamp, toSizeT (size - (sumLength + 1 : ℕ))⟩], pos + 1) := by
  have hf : fBit (.ofNat primaryType) = false := by
    rw [fBit_eq, UInt8.toNat_ofNat', decide_eq_false_iff_not]
    omega
  have hpt : UInt8.ofNat primaryType &&& 0x7F = .ofNat primaryType := by
    rw [and_0x7F_eq, UInt8.toNat_ofNat', ← UInt8.toNat_inj, UInt8.toNat_ofNat', UInt8.toNat_ofNat']
    omega
  unfold readHeaders
  rw [hf, hpt]
  rfl

namespace RedPayload

variable (r : RedPayload)

def headers (timestamp : UInt32) (size : ℕ) : List RedHeader :=
  r.blocks.map (fun block =>
      ⟨.ofNat block.payloadType, timestamp - .ofNat block.timestampOffset, block.length⟩) ++
    [⟨.ofNat r.primaryType, timestamp,
      toSizeT (size - (r.start r.blocks.length + (4 * r.blocks.length + 1) : ℕ))⟩]

theorem start_zero : r.start 0 = 0 := rfl

variable {i k : ℕ}

theorem start_succ {block : RedBlock} (h : r.blocks[i]? = some block) :
    r.start (i + 1) = r.start i + block.length := by
  rw [start, take_add_one, h, map_append, sum_append]
  rfl

section
variable (timestamp : UInt32) (size : ℕ)

theorem length_headers : (r.headers timestamp size).length = r.numBlocks := by
  rw [headers, length_append, length_map]
  rfl

theorem readHeaders_bytes (pos sumLength : ℕ) :
    readHeaders timestamp size r.bytes pos sumLength = some (r.blocks.map (fun block =>
          ⟨.ofNat block.payloadType, timestamp - .ofNat block.timestampOffset, block.length⟩) ++
        [⟨.ofNat r.primaryType, timestamp, toSizeT (size -
          (sumLength + (r.start r.blocks.length + (4 * r.blocks.length + 1)) : ℕ))⟩],
        pos + (4 * r.blocks.length + 1)) := by
  obtain ⟨blocks, primaryType, body⟩ := r
  simp only [bytes, start, take_length]
  induction blocks generalizing pos sumLength with
  | nil => simpa using readHeaders_primary timestamp size primaryType body pos sumLength
  | cons block blocks ih =>
    rw [flatMap_cons, append_assoc, readHeaders_block, ih]
    simp only [map_some, map_cons, cons_append, sum_cons, length_cons,
      some_inj, Prod.mk.injEq, cons.injEq, true_and]
    constructor
    · congr 4
      push_cast
      ring
    · ring

theorem readHeaders_bytes_zero : readHeaders timestamp size r.bytes 0 0 =
      some (r.headers timestamp size, 4 * r.blocks.length + 1) := by
  rw [readHeaders_bytes, headers, Nat.zero_add, Nat.zero_add]

end

theorem length_bytes : r.bytes.length = 4 * r.blocks.length + 1 + r.body.length := by
  have hh : ∀ blocks : List RedBlock,
      (blocks.flatMap RedBlock.header).length = 4 * blocks.length := by
    intro blocks
    induction blocks with
    | nil => rfl
    | cons block blocks ih =>
      rw [flatMap_cons, length_append, ih, length_cons]
      simp only [RedBlock.header, length_cons, length_nil]
      ring
  rw [bytes, length_append, hh, length_cons]
  ring

theorem drop_bytes (n : ℕ) : r.bytes.drop (4 * r.blocks.length + 1 + n) = r.body.drop n := by
  have hl := r.length_bytes
  have hs : r.bytes =
      (r.blocks.flatMap RedBlock.header ++ [.ofNat r.primaryType]) ++ r.body := by
    rw [bytes, append_assoc]
    rfl
  have hh : (r.blocks.flatMap RedBlock.header ++ [UInt8.ofNat r.primaryType]).length =
      4 * r.blocks.length + 1 := by
    rw [hs, length_append] at hl
    omega
  rw [hs, drop_append, drop_eq_nil_of_le (by omega), hh, Nat.add_sub_cancel_left, nil_append]

variable {r}

theorem start_le_start {j : ℕ} (h : i ≤ j) : r.start i ≤ r.start j := by
  induction j, h using Nat.le_induction with
  | base => exact le_refl _
  | succ j _ ih =>
    cases hb : r.blocks[j]? with
    | none =>
      have hl := getElem?_eq_none_iff.mp hb
      have hs : r.start (j + 1) = r.start j := by
        rw [start, start, take_of_length_le hl, take_of_length_le (by omega)]
      rwa [hs]
    | some block =>
      rw [r.start_succ hb]
      omega

theorem drop_headers {timestamp : UInt32} {size : ℕ} {block : RedBlock}
    (h : r.blocks[i]? = some block) : (r.headers timestamp size).drop i = ⟨.ofNat block.payloadType,
      timestamp - .ofNat block.timestampOffset, block.length⟩ ::
        (r.headers timestamp size).drop (i + 1) := by
  obtain ⟨hi, rfl⟩ := List.getElem?_eq_some_iff.mp h
  rw [drop_eq_getElem_cons (by rw [length_headers, numBlocks]; omega)]
  congr 1
  simp only [headers]
  rw [getElem_append_left (by rwa [length_map]), getElem_map]

theorem drop_headers_length (timestamp : UInt32) (size : ℕ) :
    (r.headers timestamp size).drop r.blocks.length = [⟨.ofNat r.primaryType, timestamp,
      toSizeT (size - (r.start r.blocks.length + (4 * r.blocks.length + 1) : ℕ))⟩] := by
  rw [headers, drop_left' (by rw [length_map])]

variable {redPacket : Packet}

section
variable (hbytes : redPacket.payload.data = r.bytes)
include hbytes

theorem size_payload : redPacket.payload.size = 4 * r.blocks.length + 1 + r.body.length := by
  rw [Buffer.size, hbytes, length_bytes]

theorem exists_populate_cons {h : RedHeader}
    (ht : h.timestamp = redPacket.timestamp - .ofNat (r.timestampOffset i))
    (hp : h.payloadType = .ofNat (r.payloadType i))
    (hfits : r.start i + h.payloadLength ≤ r.body.length)
    (hslice : r.slice i = (r.body.drop (r.start i)).take h.payloadLength) (hs : List RedHeader)
    (newPackets : List Packet) : ∃ p, IsBlock redPacket r i p ∧
      populate redPacket r.numBlocks (h :: hs) i (4 * r.blocks.length + 1 + r.start i) newPackets =
        populate redPacket r.numBlocks hs (i + 1)
          (4 * r.blocks.length + 1 + (r.start i + h.payloadLength)) (p :: newPackets) := by
  have hsize := size_payload hbytes
  have hlt : redPacket.payload.size < 2 ^ 63 := redPacket.payload.size_lt
  obtain ⟨payload, hset, hd⟩ : ∃ payload,
      redPacket.payload.setData (4 * r.blocks.length + 1 + r.start i) h.payloadLength =
        some payload ∧ payload.data = r.slice i := by
    refine ⟨_, if_pos (by omega), ?_⟩
    change (redPacket.payload.data.drop _).take _ = _
    rw [hbytes, drop_bytes, hslice]
  refine ⟨newPacket redPacket r.numBlocks i h payload, ?_, ?_⟩
  · exact ⟨ht, rfl, hp, hd, rfl, rfl, rfl, rfl⟩
  · rw [populate, if_neg (by omega), if_neg (by omega), hset, bind_some, Nat.add_assoc]

/-- The loop from block `i` on. It ends after the primary block or before the first block that
exceeds the payload; in the second case the length of the primary block, which may have wrapped,
is not used. -/
theorem exists_populate (hi : i ≤ r.blocks.length) (hs : r.start i ≤ r.body.length)
    (newPackets : List Packet) :
    ∃ k ps, i ≤ k ∧ r.Leading k ∧ Forall₂ (IsBlock redPacket r) (range' i (k - i)) ps ∧
      populate redPacket r.numBlocks
        ((r.headers redPacket.timestamp redPacket.payload.size).drop i) i
        (4 * r.blocks.length + 1 + r.start i) newPackets =
          some (ps.reverse ++ newPackets, decide r.Fits) := by
  have hsize := size_payload hbytes
  have hlt : redPacket.payload.size < 2 ^ 63 := redPacket.payload.size_lt
  induction hm : r.blocks.length - i generalizing i newPackets with
  | zero =>
    obtain rfl : i = r.blocks.length := by omega
    have hn : r.blocks[r.blocks.length]? = none := getElem?_eq_none (le_refl _)
    have hl : toSizeT (redPacket.payload.size -
        (r.start r.blocks.length + (4 * r.blocks.length + 1) : ℕ)) =
          r.body.length - r.start r.blocks.length := by
      unfold toSizeT
      omega
    rw [drop_headers_length, hl]
    obtain ⟨p, hp, hpop⟩ := exists_populate_cons (i := r.blocks.length)
      (h := ⟨.ofNat r.primaryType, redPacket.timestamp, r.body.length - r.start r.blocks.length⟩)
      hbytes (by rw [timestampOffset, hn]; exact (UInt32.sub_zero _).symm)
      (by rw [payloadType, hn]; rfl) (by simp only; omega) (by rw [slice, hn]; rfl) []
      newPackets
    refine ⟨r.numBlocks, [p], by rw [numBlocks]; omega, .inl ⟨hs, rfl⟩, ?_, ?_⟩
    · rw [numBlocks, Nat.add_sub_cancel_left]
      exact .cons hp .nil
    · rw [hpop, populate, decide_eq_true (p := r.Fits) hs]
      rfl
  | succ m ih =>
    obtain ⟨block, hb⟩ : ∃ block, r.blocks[i]? = some block :=
      ⟨_, getElem?_eq_getElem (by omega)⟩
    have hnext := r.start_succ hb
    rw [drop_headers hb]
    by_cases hf : r.start (i + 1) ≤ r.body.length
    · obtain ⟨p, hp, hpop⟩ := exists_populate_cons (i := i)
        (h := ⟨.ofNat block.payloadType, redPacket.timestamp - .ofNat block.timestampOffset,
          block.length⟩)
        hbytes (by rw [timestampOffset, hb]; rfl) (by rw [payloadType, hb]; rfl)
        (by simp only; omega) (by rw [slice, hb]; rfl)
        ((r.headers redPacket.timestamp redPacket.payload.size).drop (i + 1)) newPackets
      obtain ⟨k, ps, hik, hk, hps, hr⟩ := ih (i := i + 1) (by omega) hf (p :: newPackets)
        (by omega)
      refine ⟨k, p :: ps, by omega, hk, ?_, ?_⟩
      · rw [show k - i = k - (i + 1) + 1 by omega, range'_succ]
        exact .cons hp hps
      · rw [hpop, ← hnext, hr, reverse_cons, append_assoc]
        rfl
    · have he : ¬ r.Fits := fun h => hf (le_trans (start_le_start (by omega)) h)
      refine ⟨i, [], le_refl i, .inr ⟨hs, by omega⟩, ?_, ?_⟩
      · rw [Nat.sub_self]
        exact .nil
      · rw [populate, if_neg (by simp only; omega), if_pos (by simp only; omega),
          decide_eq_false he]
        rfl

end

theorem flatten_slices (hk : k ≤ r.blocks.length) (hs : r.start k ≤ r.body.length) :
    ((range k).map r.slice).flatten = r.body.take (r.start k) := by
  induction k with
  | zero => rfl
  | succ k ih =>
    obtain ⟨block, hb⟩ : ∃ block, r.blocks[k]? = some block :=
      ⟨_, getElem?_eq_getElem (by omega)⟩
    have hn := r.start_succ hb
    rw [range_succ, map_append, flatten_append, ih (by omega) (by omega), hn,
      take_add, map_singleton, flatten_singleton, slice, hb]
    rfl

theorem flatten_slices_numBlocks (hf : r.Fits) :
    ((range r.numBlocks).map r.slice).flatten = r.body := by
  have hn : r.blocks[r.blocks.length]? = none := getElem?_eq_none (le_refl _)
  rw [numBlocks, range_succ, map_append, flatten_append,
    flatten_slices (le_refl _) hf, map_singleton, flatten_singleton, slice, hn]
  change r.body.take _ ++ (r.body.drop _).take (r.body.length - _) = r.body
  rw [← length_drop, take_length, take_append_drop]

theorem Leading.eq_numBlocks (h : r.Leading k) (hf : r.Fits) : k = r.numBlocks := by
  rcases h with ⟨-, hk⟩ | ⟨-, he⟩
  · exact hk
  · exfalso
    have hle : r.start (k + 1) ≤ r.start r.blocks.length := by
      by_cases hk : k + 1 ≤ r.blocks.length
      · exact start_le_start hk
      · rw [start, start, take_of_length_le (by omega), take_length]
    unfold Fits at hf
    omega

theorem exists_splitPacket (hbytes : redPacket.payload.data = r.bytes) :
    ∃ newPackets, SplitsInto redPacket r newPackets ∧
      splitPacket redPacket = some (newPackets, decide (r.numBlocks ≤ kMaxRedBlocks ∧ r.Fits)) := by
  have hh := r.readHeaders_bytes_zero redPacket.timestamp redPacket.payload.size
  rw [splitPacket, hbytes, hh, bind_some]
  simp only [length_headers]
  by_cases hmax : r.numBlocks ≤ kMaxRedBlocks
  · obtain ⟨k, ps, -, hk, hps, hpop⟩ := exists_populate hbytes (Nat.zero_le _)
      (by rw [start_zero]; omega) []
    rw [drop_zero, start_zero, Nat.add_zero, append_nil] at hpop
    rw [Nat.sub_zero, ← range_eq_range'] at hps
    refine ⟨ps.reverse, ⟨by omega, fun _ => ⟨k, hk, ?_⟩, fun _ hf => ?_⟩, ?_⟩
    · rwa [reverse_reverse]
    · have hs : ps.map (fun p => p.payload.data) = (range k).map r.slice := by
        rw [← forall₂_eq_eq_eq, forall₂_map_left_iff, forall₂_map_right_iff]
        exact hps.flip.imp fun p i h => h.payload
      rw [reverse_reverse, hs, hk.eq_numBlocks hf, flatten_slices_numBlocks hf]
    · rw [if_pos hmax, hpop]
      simp only [hmax, true_and]
  · refine ⟨[], ⟨fun _ => rfl, by omega, by omega⟩, ?_⟩
    rw [if_neg hmax]
    simp only [hmax, false_and, decide_false]

end RedPayload

namespace RedPayloadSplitter

def HeadersEnd (payload : List UInt8) : Prop := ∃ k b, payload[4 * k]? = some b ∧ fBit b = false

theorem not_headersEnd_of_length_le {b : UInt8} {bytes : List UInt8} (hf : fBit b = true)
    (hlength : bytes.length ≤ 3) : ¬ HeadersEnd (b :: bytes) := by
  rintro ⟨k, b', hb', hf'⟩
  cases k with
  | zero =>
    obtain rfl : b = b' := by simpa using hb'
    rw [hf] at hf'
    exact absurd hf' (by decide)
  | succ k =>
    have hlt := (List.getElem?_eq_some_iff.mp hb').1
    rw [length_cons] at hlt
    omega

theorem headersEnd_cons_iff {b0 : UInt8} (b1 b2 b3 : UInt8) (bytes : List UInt8)
    (hf : fBit b0 = true) : HeadersEnd (b0 :: b1 :: b2 :: b3 :: bytes) ↔ HeadersEnd bytes := by
  constructor
  · rintro ⟨k, b', hb', hf'⟩
    cases k with
    | zero =>
      obtain rfl : b0 = b' := by simpa using hb'
      rw [hf] at hf'
      exact absurd hf' (by decide)
    | succ k => exact ⟨k, b', by simpa [Nat.mul_add] using hb', hf'⟩
  · rintro ⟨k, b', hb', hf'⟩
    exact ⟨k + 1, b', by simpa [Nat.mul_add] using hb', hf'⟩

theorem readHeaders_cases (timestamp : UInt32) (size : ℕ) (payload : List UInt8)
    (pos sumLength : ℕ) : HeadersEnd payload ∧ (∃ r : RedPayload, r.bytes = payload) ∨
      ¬ HeadersEnd payload ∧ readHeaders timestamp size payload pos sumLength = none := by
  fun_induction readHeaders timestamp size payload pos sumLength with
  | case1 => exact .inr ⟨fun ⟨k, b, hb, _⟩ => by simp at hb, rfl⟩
  | case2 b0 pos sumLength hf b1 b2 b3 bytes payloadLength newHeader ih =>
    rcases ih with ⟨hend, r, hr⟩ | ⟨hend, hn⟩
    · left
      refine ⟨(headersEnd_cons_iff b1 b2 b3 bytes hf).mpr hend, ?_⟩
      rw [fBit_eq, decide_eq_true_iff] at hf
      have h0 := b0.toNat_lt
      have h1 := b1.toNat_lt
      have h2 := b2.toNat_lt
      have h3 := b3.toNat_lt
      refine ⟨⟨⟨⟨b0.toNat - 128, by omega⟩, ⟨b1.toNat * 64 + b2.toNat / 4, by omega⟩,
        ⟨b2.toNat % 4 * 256 + b3.toNat, by omega⟩⟩ :: r.blocks, r.primaryType, r.body⟩, ?_⟩
      rw [← hr, RedPayload.bytes, RedPayload.bytes, flatMap_cons, append_assoc]
      simp only [RedBlock.header, cons_append, nil_append, cons.injEq, and_true,
        ← UInt8.toNat_inj, UInt8.toNat_ofNat']
      omega
    · exact .inr ⟨(headersEnd_cons_iff b1 b2 b3 bytes hf).not.mpr hend, by rw [hn]; rfl⟩
  | case3 b0 bytes pos sumLength hf hs =>
    refine .inr ⟨not_headersEnd_of_length_le hf ?_, rfl⟩
    match bytes, hs with
    | [], _ => simp
    | [_], _ => simp
    | [_, _], _ => simp
    | [_, _, _], _ => simp
    | b1 :: b2 :: b3 :: b4 :: bytes, hs => exact absurd rfl (hs b1 b2 b3 (b4 :: bytes))
  | case4 b0 bytes pos sumLength hf =>
    left
    rw [Bool.not_eq_true] at hf
    refine ⟨⟨0, b0, rfl, hf⟩, ?_⟩
    rw [fBit_eq, decide_eq_false_iff_not] at hf
    refine ⟨⟨[], ⟨b0.toNat, by omega⟩, bytes⟩, ?_⟩
    simp [RedPayload.bytes]

theorem exists_bytes_eq {payload : List UInt8} (h : HeadersEnd payload) :
    ∃ r : RedPayload, r.bytes = payload := by
  rcases readHeaders_cases 0 0 payload 0 0 with ⟨-, hr⟩ | ⟨hend, -⟩
  · exact hr
  · exact absurd h hend

theorem isSome_splitPacket_iff (redPacket : Packet) :
    (splitPacket redPacket).isSome ↔ HeadersEnd redPacket.payload.data := by
  rcases readHeaders_cases redPacket.timestamp redPacket.payload.size redPacket.payload.data 0 0
    with ⟨hend, r, hr⟩ | ⟨hend, hn⟩
  · obtain ⟨newPackets, -, hs⟩ := RedPayload.exists_splitPacket hr.symm
    simp only [hs, isSome_some, hend]
  · rw [splitPacket, hn]
    simp only [bind_none, isSome_none, Bool.false_eq_true, hend]

theorem isSome_splitRed_cons_iff (redPacket : Packet) (packetList : List Packet) :
    (splitRed (redPacket :: packetList)).isSome ↔
      (splitPacket redPacket).isSome ∧ (splitRed packetList).isSome := by
  rw [splitRed]
  cases splitPacket redPacket <;> cases splitRed packetList <;> simp

/-- The bytes read are those of the payload exactly if the headers of every packet end. -/
theorem splitRed_reads_payload_iff (packetList : List Packet) :
    (splitRed packetList).isSome ↔ ∀ p ∈ packetList, HeadersEnd p.payload.data := by
  induction packetList with
  | nil => simp [splitRed]
  | cons p packetList ih =>
    rw [isSome_splitRed_cons_iff, isSome_splitPacket_iff, ih, forall_mem_cons]

def packetOf (data : List UInt8) (hd : data.length < 2 ^ 63) : Packet :=
  .received 1000 7 127 ⟨data, hd⟩ ⟨1, [], 1000, none, none, 0⟩

theorem splitRed_reads_behind_payload :
    ∃ packetList : List Packet, (∀ p ∈ packetList, p.payload.data ≠ []) ∧
      splitRed packetList = none :=
  ⟨[packetOf [0x80] (by decide)], by decide, rfl⟩

/-- Every packet is replaced by its blocks, with the primary block first. -/
theorem splitRed_blocks (packetList : List Packet)
    (hend : ∀ p ∈ packetList, HeadersEnd p.payload.data) :
    ∃ splits : List (RedPayload × List Packet),
      Forall₂ (fun p s => p.payload.data = s.1.bytes ∧ SplitsInto p s.1 s.2) packetList
        splits ∧ splitRed packetList = some ((splits.map Prod.snd).flatten,
        decide (∀ s ∈ splits, s.1.numBlocks ≤ kMaxRedBlocks ∧ s.1.Fits)) := by
  induction packetList with
  | nil => exact ⟨[], .nil, rfl⟩
  | cons p packetList ih =>
    obtain ⟨r, hr⟩ := exists_bytes_eq (hend p mem_cons_self)
    obtain ⟨newPackets, hnew, hs⟩ := RedPayload.exists_splitPacket hr.symm
    obtain ⟨splits, hsplit, hrest⟩ := ih fun q hq => hend q (mem_cons_of_mem p hq)
    refine ⟨(r, newPackets) :: splits, .cons ⟨hr.symm, hnew⟩ hsplit, ?_⟩
    rw [splitRed, hs, hrest]
    simp only [bind_eq_bind, bind_some, Option.pure_def, map_cons,
      flatten_cons, forall_mem_cons, Bool.decide_and]

def redPackets : List Packet :=
  [packetOf [0x80 + 5, 0, 40, 2, 6, 11, 12, 13] (by decide),
    packetOf [0x80 + 5, 0, 40, 9, 6, 11, 12] (by decide)]

theorem splitRed_blocks_redPackets : (∀ p ∈ redPackets, HeadersEnd p.payload.data) ∧
      ∃ splits : List (RedPayload × List Packet),
        Forall₂ (fun p s => p.payload.data = s.1.bytes ∧ SplitsInto p s.1 s.2) redPackets
          splits ∧ splitRed redPackets = some ((splits.map Prod.snd).flatten,
          decide (∀ s ∈ splits, s.1.numBlocks ≤ kMaxRedBlocks ∧ s.1.Fits)) := by
  have hend : ∀ p ∈ redPackets, HeadersEnd p.payload.data := by
    simp only [redPackets, forall_mem_cons, not_mem_nil, false_implies, implies_true, and_true]
    exact ⟨⟨1, 6, rfl, rfl⟩, ⟨1, 6, rfl, rfl⟩⟩
  exact ⟨hend, splitRed_blocks redPackets hend⟩

end RedPayloadSplitter

end WebRtcAudio.NetEq
