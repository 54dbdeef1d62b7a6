import WebRtcAudio.Core.BitMoves

/-! `WebRtcIlbcfix_PackBits` and `WebRtcIlbcfix_UnpackBits`, word by word. Of an entry of type
`size_t` only the lowest 16 bits reach a word. -/
namespace WebRtcAudio.Ilbc

open WebRtcAudio.Core List

inductive Field
  | lsf (i : ℕ)
  | cbIndex (i : ℕ)
  | gainIndex (i : ℕ)
  | idxForMax
  | stateFirst
  | idxVec (i : ℕ)
  | startIdx
  deriving DecidableEq

abbrev IlbcBits := Field → ℕ

def word : ℕ := 0xFFFF

def up (field : Field) (mask n : ℕ) : BitMove Field := ⟨field, mask, 0, n, word⟩

def down (field : Field) (mask n : ℕ) : BitMove Field := ⟨field, mask, n, 0, word⟩

def fromHigh (w n mask : ℕ) : BitMove ℕ := ⟨w, word, n, 0, mask⟩

def fromLow (w n mask : ℕ) : BitMove ℕ := ⟨w, word, 0, n, mask⟩

def assign (w : ℕ) : List (BitMove Field) → List (BitStatement Field ℕ)
  | [] => []
  | m :: ms => .set w m :: ms.map (.or w)

def append (w : ℕ) (moves : List (BitMove Field)) : List (BitStatement Field ℕ) :=
  moves.map (.or w)

def packIdxHigh (w start n : ℕ) : List (BitStatement Field ℕ) :=
  .clear w :: (range n).map fun j => .or w ⟨.idxVec (start + j), 0x4, 2, 15 - j, word⟩

def packIdxLow (w start : ℕ) : List (BitStatement Field ℕ) :=
  .clear w :: (range 8).map fun j => .or w ⟨.idxVec (start + j), 0x3, 0, 14 - 2 * j, word⟩

def packLsf : List (BitStatement Field ℕ) :=
  assign 0 [up (.lsf 0) word 10, up (.lsf 1) word 3, down (.lsf 2) 0x70 4] ++
  assign 1 [up (.lsf 2) 0xF 12]

def pack20Class1 : List (BitStatement Field ℕ) :=
  append 1 [up .startIdx word 10, up .stateFirst word 9, up .idxForMax word 3,
    down (.cbIndex 0) 0x70 4] ++
  assign 2 [up (.cbIndex 0) 0xE 12, up (.gainIndex 0) 0x18 8, up (.gainIndex 1) 0x8 7,
    up (.cbIndex 3) 0xFE 2, down (.gainIndex 3) 0x10 2, down (.gainIndex 4) 0x8 2,
    down (.gainIndex 6) 0x10 4]

def pack30Class1 : List (BitStatement Field ℕ) :=
  append 1 [up (.lsf 3) word 6, down (.lsf 4) 0x7E 1] ++
  assign 2 [up (.lsf 4) 0x1 15, up (.lsf 5) word 8, up .startIdx word 5, up .stateFirst word 4,
    down .idxForMax 0x3C 2] ++
  assign 3 [up .idxForMax 0x3 14, up (.cbIndex 0) 0x78 7, up (.gainIndex 0) 0x10 5,
    up (.gainIndex 1) 0x8 5, up (.cbIndex 3) 0xFC 0, down (.gainIndex 3) 0x10 3,
    down (.gainIndex 4) 0x8 3]

def pack20Class2 : List (BitStatement Field ℕ) :=
  packIdxHigh 6 48 9 ++
  append 6 [up (.gainIndex 1) 0x4 4, up (.gainIndex 3) 0xC 2, up (.gainIndex 4) 0x4 1,
    down (.gainIndex 6) 0x8 1, down (.gainIndex 7) 0xC 2]

def pack30Class2 : List (BitStatement Field ℕ) :=
  packIdxHigh 7 48 10 ++
  append 7 [up (.cbIndex 0) 0x6 3, up (.gainIndex 0) 0x8 0, up (.gainIndex 1) 0x4 0,
    up (.cbIndex 3) 0x2 0, down (.cbIndex 6) 0x80 7] ++
  assign 8 [up (.cbIndex 6) 0x7E 9, up (.cbIndex 9) 0xFE 2, down (.cbIndex 12) 0xE0 5] ++
  assign 9 [up (.cbIndex 12) 0x1E 11, up (.gainIndex 3) 0xC 8, up (.gainIndex 4) 0x6 7,
    up (.gainIndex 6) 0x18 3, up (.gainIndex 7) 0xC 2, down (.gainIndex 9) 0x10 1,
    down (.gainIndex 10) 0x8 1, down (.gainIndex 12) 0x10 3, down (.gainIndex 13) 0x8 3]

def pack20Class3 : List (BitStatement Field ℕ) :=
  assign 14 [up (.idxVec 56) 0x3 14, up (.cbIndex 0) 0x1 13, up (.cbIndex 1) word 6,
    down (.cbIndex 2) 0x7E 1] ++
  assign 15 [up (.cbIndex 2) 0x1 15, up (.gainIndex 0) 0x7 12, up (.gainIndex 1) 0x3 10,
    up (.gainIndex 2) word 7, up (.cbIndex 3) 0x1 6, down (.cbIndex 4) 0x7E 1] ++
  assign 16 [up (.cbIndex 4) 0x1 15, up (.cbIndex 5) word 8, up (.cbIndex 6) word 0] ++
  assign 17 [up (.cbIndex 7) word 8, up (.cbIndex 8) word 0] ++
  assign 18 [up (.gainIndex 3) 0x3 14, up (.gainIndex 4) 0x3 12, up (.gainIndex 5) word 9,
    up (.gainIndex 6) 0x7 6, up (.gainIndex 7) 0x3 4, up (.gainIndex 8) word 1]

def pack30Class3 : List (BitStatement Field ℕ) :=
  assign 17 [up (.idxVec 56) 0x3 14, up (.idxVec 57) 0x3 12, up (.cbIndex 0) 0x1 11,
    up (.cbIndex 1) word 4, down (.cbIndex 2) 0x78 3] ++
  assign 18 [up (.cbIndex 2) 0x7 13, up (.gainIndex 0) 0x7 10, up (.gainIndex 1) 0x3 8,
    up (.gainIndex 2) 0x7 5, up (.cbIndex 3) 0x1 4, down (.cbIndex 4) 0x78 3] ++
  assign 19 [up (.cbIndex 4) 0x7 13, up (.cbIndex 5) word 6, up (.cbIndex 6) 0x1 5,
    down (.cbIndex 7) 0xF8 3] ++
  assign 20 [up (.cbIndex 7) 0x7 13, up (.cbIndex 8) word 5, up (.cbIndex 9) 0x1 4,
    down (.cbIndex 10) 0xF0 4] ++
  assign 21 [up (.cbIndex 10) 0xF 12, up (.cbIndex 11) word 4, up (.cbIndex 12) 0x1 3,
    down (.cbIndex 13) 0xE0 5] ++
  assign 22 [up (.cbIndex 13) 0x1F 11, up (.cbIndex 14) word 3, up (.gainIndex 3) 0x3 1,
    up (.gainIndex 4) 0x1 0] ++
  assign 23 [up (.gainIndex 5) word 13, up (.gainIndex 6) 0x7 10, up (.gainIndex 7) 0x3 8,
    up (.gainIndex 8) word 5, up (.gainIndex 9) 0xF 1, down (.gainIndex 10) 0x4 2] ++
  assign 24 [up (.gainIndex 10) 0x3 14, up (.gainIndex 11) word 11, up (.gainIndex 12) 0xF 7,
    up (.gainIndex 13) 0x7 4, up (.gainIndex 14) word 1]

def packProgram (mode : ℤ) : List (BitStatement Field ℕ) :=
  let class2 := if mode = 20 then 3 else 4
  let class3 := if mode = 20 then 7 else 10
  packLsf ++
    (if mode = 20 then pack20Class1 else pack30Class1) ++
    ((range 3).flatMap fun k => packIdxHigh (class2 + k) (16 * k) 16) ++
    (if mode = 20 then pack20Class2 else pack30Class2) ++
    ((range 7).flatMap fun k => packIdxLow (class3 + k) (8 * k)) ++
    (if mode = 20 then pack20Class3 else pack30Class3)

def packBits (bitstream : ℕ → ℕ) (encBits : IlbcBits) (mode : ℤ) : ℕ → ℕ :=
  runBits (packProgram mode) encBits bitstream

def unpackIdxHigh (w start n : ℕ) : List (BitStatement ℕ Field) :=
  (range n).map fun j => .set (.idxVec (start + j)) ⟨w, word, 15 - j, 2, 0x4⟩

def unpackIdxLow (w start : ℕ) : List (BitStatement ℕ Field) :=
  (range 8).map fun j => .or (.idxVec (start + j)) (fromHigh w (14 - 2 * j) 0x3)

def unpackLsf : List (BitStatement ℕ Field) :=
  flatten
   [[.set (.lsf 0) (fromHigh 0 10 word), .set (.lsf 1) (fromHigh 0 3 0x7F),
      .set (.lsf 2) ⟨0, 0x7, 0, 4, word⟩],
    [.or (.lsf 2) (fromHigh 1 12 0xF)]]

def unpack20Class1 : List (BitStatement ℕ Field) :=
  flatten
   [[.set .startIdx (fromHigh 1 10 0x3), .set .stateFirst (fromHigh 1 9 0x1),
      .set .idxForMax (fromHigh 1 3 0x3F), .set (.cbIndex 0) ⟨1, 0x7, 0, 4, word⟩],
    [.or (.cbIndex 0) (fromHigh 2 12 0xE), .set (.gainIndex 0) (fromHigh 2 8 0x18),
      .set (.gainIndex 1) (fromHigh 2 7 0x8), .set (.cbIndex 3) (fromHigh 2 2 0xFE),
      .set (.gainIndex 3) (fromLow 2 2 0x10), .set (.gainIndex 4) (fromLow 2 2 0x8),
      .set (.gainIndex 6) (fromLow 2 4 0x10)]]

def unpack30Class1 : List (BitStatement ℕ Field) :=
  flatten
   [[.set (.lsf 3) (fromHigh 1 6 0x3F), .set (.lsf 4) (fromLow 1 1 0x7E)],
    [.or (.lsf 4) (fromHigh 2 15 0x1), .set (.lsf 5) (fromHigh 2 8 0x7F),
      .set .startIdx (fromHigh 2 5 0x7), .set .stateFirst (fromHigh 2 4 0x1),
      .set .idxForMax (fromLow 2 2 0x3C)],
    [.or .idxForMax (fromHigh 3 14 0x3), .set (.cbIndex 0) (fromHigh 3 7 0x78),
      .set (.gainIndex 0) (fromHigh 3 5 0x10), .set (.gainIndex 1) (fromHigh 3 5 0x8),
      .set (.cbIndex 3) (fromHigh 3 0 0xFC), .set (.gainIndex 3) (fromLow 3 3 0x10),
      .set (.gainIndex 4) (fromLow 3 3 0x8)]]

def unpack20Class2 : List (BitStatement ℕ Field) :=
  flatten
   [unpackIdxHigh 6 48 9,
    [.or (.gainIndex 1) (fromHigh 6 4 0x4), .or (.gainIndex 3) (fromHigh 6 2 0xC),
      .or (.gainIndex 4) (fromHigh 6 1 0x4), .or (.gainIndex 6) (fromLow 6 1 0x8),
      .set (.gainIndex 7) (fromLow 6 2 0xC)]]

def unpack30Class2 : List (BitStatement ℕ Field) :=
  flatten
   [unpackIdxHigh 7 48 10,
    [.or (.cbIndex 0) (fromHigh 7 3 0x6), .or (.gainIndex 0) (fromHigh 7 0 0x8),
      .or (.gainIndex 1) (fromHigh 7 0 0x4), .or (.cbIndex 3) (fromHigh 7 0 0x2),
      .set (.cbIndex 6) (fromLow 7 7 0x80)],
    [.or (.cbIndex 6) (fromHigh 8 9 0x7E), .set (.cbIndex 9) (fromHigh 8 2 0xFE),
      .set (.cbIndex 12) (fromLow 8 5 0xE0)],
    [.or (.cbIndex 12) (fromHigh 9 11 0x1E), .or (.gainIndex 3) (fromHigh 9 8 0xC),
      .or (.gainIndex 4) (fromHigh 9 7 0x6), .set (.gainIndex 6) (fromHigh 9 3 0x18),
      .set (.gainIndex 7) (fromHigh 9 2 0xC), .set (.gainIndex 9) (fromLow 9 1 0x10),
      .set (.gainIndex 10) (fromLow 9 1 0x8), .set (.gainIndex 12) (fromLow 9 3 0x10),
      .set (.gainIndex 13) (fromLow 9 3 0x8)]]

def unpack20Class3 : List (BitStatement ℕ Field) :=
  flatten
   [[.or (.idxVec 56) (fromHigh 14 14 0x3), .or (.cbIndex 0) (fromHigh 14 13 0x1),
      .set (.cbIndex 1) (fromHigh 14 6 0x7F), .set (.cbIndex 2) (fromLow 14 1 0x7E)],
    [.or (.cbIndex 2) (fromHigh 15 15 0x1), .or (.gainIndex 0) (fromHigh 15 12 0x7),
      .or (.gainIndex 1) (fromHigh 15 10 0x3), .set (.gainIndex 2) (fromHigh 15 7 0x7),
      .or (.cbIndex 3) (fromHigh 15 6 0x1), .set (.cbIndex 4) (fromLow 15 1 0x7E)],
    [.or (.cbIndex 4) (fromHigh 16 15 0x1), .set (.cbIndex 5) (fromHigh 16 8 0x7F),
      .set (.cbIndex 6) (fromHigh 16 0 0xFF)],
    [.set (.cbIndex 7) (fromHigh 17 8 word), .set (.cbIndex 8) (fromHigh 17 0 0xFF)],
    [.or (.gainIndex 3) (fromHigh 18 14 0x3), .or (.gainIndex 4) (fromHigh 18 12 0x3),
      .set (.gainIndex 5) (fromHigh 18 9 0x7), .or (.gainIndex 6) (fromHigh 18 6 0x7),
      .or (.gainIndex 7) (fromHigh 18 4 0x3), .set (.gainIndex 8) (fromHigh 18 1 0x7)]]

def unpack30Class3 : List (BitStatement ℕ Field) :=
  flatten
   [[.or (.idxVec 56) (fromHigh 17 14 0x3), .or (.idxVec 57) (fromHigh 17 12 0x3),
      .or (.cbIndex 0) (fromHigh 17 11 0x1), .set (.cbIndex 1) (fromHigh 17 4 0x7F),
      .set (.cbIndex 2) (fromLow 17 3 0x78)],
    [.or (.cbIndex 2) (fromHigh 18 13 0x7), .or (.gainIndex 0) (fromHigh 18 10 0x7),
      .or (.gainIndex 1) (fromHigh 18 8 0x3), .set (.gainIndex 2) (fromHigh 18 5 0x7),
      .or (.cbIndex 3) (fromHigh 18 4 0x1), .set (.cbIndex 4) (fromLow 18 3 0x78)],
    [.or (.cbIndex 4) (fromHigh 19 13 0x7), .set (.cbIndex 5) (fromHigh 19 6 0x7F),
      .or (.cbIndex 6) (fromHigh 19 5 0x1), .set (.cbIndex 7) (fromLow 19 3 0xF8)],
    [.or (.cbIndex 7) (fromHigh 20 13 0x7), .set (.cbIndex 8) (fromHigh 20 5 0xFF),
      .or (.cbIndex 9) (fromHigh 20 4 0x1), .set (.cbIndex 10) (fromLow 20 4 0xF0)],
    [.or (.cbIndex 10) (fromHigh 21 12 0xF), .set (.cbIndex 11) (fromHigh 21 4 0xFF),
      .or (.cbIndex 12) (fromHigh 21 3 0x1), .set (.cbIndex 13) (fromLow 21 5 0xE0)],
    [.or (.cbIndex 13) (fromHigh 22 11 0x1F), .set (.cbIndex 14) (fromHigh 22 3 0xFF),
      .or (.gainIndex 3) (fromHigh 22 1 0x3), .or (.gainIndex 4) (fromHigh 22 0 0x1)],
    [.set (.gainIndex 5) (fromHigh 23 13 0x7), .or (.gainIndex 6) (fromHigh 23 10 0x7),
      .or (.gainIndex 7) (fromHigh 23 8 0x3), .set (.gainIndex 8) (fromHigh 23 5 0x7),
      .or (.gainIndex 9) (fromHigh 23 1 0xF), .or (.gainIndex 10) (fromLow 23 2 0x4)],
    [.or (.gainIndex 10) (fromHigh 24 14 0x3), .set (.gainIndex 11) (fromHigh 24 11 0x7),
      .or (.gainIndex 12) (fromHigh 24 7 0xF), .or (.gainIndex 13) (fromHigh 24 4 0x7),
      .set (.gainIndex 14) (fromHigh 24 1 0x7)]]

def unpackProgram (mode : ℤ) : List (BitStatement ℕ Field) :=
  let class2 := if mode = 20 then 3 else 4
  let class3 := if mode = 20 then 7 else 10
  unpackLsf ++
    (if mode = 20 then unpack20Class1 else unpack30Class1) ++
    ((range 3).flatMap fun k => unpackIdxHigh (class2 + k) (16 * k) 16) ++
    (if mode = 20 then unpack20Class2 else unpack30Class2) ++
    ((range 7).flatMap fun k => unpackIdxLow (class3 + k) (8 * k)) ++
    (if mode = 20 then unpack20Class3 else unpack30Class3)

def numWords (mode : ℤ) : ℕ := if mode = 20 then 19 else 25

def unpackBits (bitstream : ℕ → ℕ) (encBits : IlbcBits) (mode : ℤ) : IlbcBits × ℤ :=
  (runBits (unpackProgram mode) bitstream encBits,
    if bitstream (numWords mode - 1) &&& 0x1 = 1 then 1 else 0)

end WebRtcAudio.Ilbc
