import WebRtcAudio.Core.CircularDistance
import WebRtcAudio.Core.MachineInt

/-! Read and write indices, as all circular buffers of the echo canceller compute them. -/
namespace WebRtcAudio.Aec3
open WebRtcAudio.Core

structure IndexedBuffer where
  size : ℤ
  write : ℤ := 0
  read : ℤ := 0
  deriving DecidableEq

abbrev BlockBuffer := IndexedBuffer
abbrev SpectrumBuffer := IndexedBuffer
abbrev FftBuffer := IndexedBuffer
abbrev DownsampledRenderBuffer := IndexedBuffer

namespace IndexedBuffer

def incIndex (b : IndexedBuffer) (index : ℤ) : ℤ :=
  if index < b.size - 1 then index + 1 else 0

def decIndex (b : IndexedBuffer) (index : ℤ) : ℤ :=
  if 0 < index then index - 1 else b.size - 1

/-- `OffsetIndex`, which is undefined where a sum of two `int`s overflows. -/
def offsetIndex? (b : IndexedBuffer) (index offset : ℤ) : Option ℤ := do
  let sum ← int32? (b.size + index)
  let sum ← int32? (sum + offset)
  if b.size = 0 then none else some (sum.tmod b.size)

/-- `OffsetIndex` for indices whose sums fit in an `int`. -/
def offsetIndex (b : IndexedBuffer) (index offset : ℤ) : ℤ :=
  (b.size + index + offset).tmod b.size

def updateWriteIndex (b : IndexedBuffer) (offset : ℤ) : IndexedBuffer :=
  { b with write := b.offsetIndex b.write offset }

def incWriteIndex (b : IndexedBuffer) : IndexedBuffer := { b with write := b.incIndex b.write }

def decWriteIndex (b : IndexedBuffer) : IndexedBuffer := { b with write := b.decIndex b.write }

def updateReadIndex (b : IndexedBuffer) (offset : ℤ) : IndexedBuffer :=
  { b with read := b.offsetIndex b.read offset }

def incReadIndex (b : IndexedBuffer) : IndexedBuffer := { b with read := b.incIndex b.read }

def decReadIndex (b : IndexedBuffer) : IndexedBuffer := { b with read := b.decIndex b.read }

def readFromWrite (b : IndexedBuffer) (offset : ℤ) : IndexedBuffer :=
  { b with read := b.offsetIndex b.write offset }

def Inside (b : IndexedBuffer) : Prop := InRing b.size b.write ∧ InRing b.size b.read

section
variable {b : IndexedBuffer} {i : ℤ} (hi : InRing b.size i)
include hi

theorem incIndex_inRing : InRing b.size (b.incIndex i) := by
  obtain ⟨h0, hn⟩ := hi
  unfold incIndex InRing
  split_ifs <;> omega

theorem decIndex_inRing : InRing b.size (b.decIndex i) := by
  obtain ⟨h0, hn⟩ := hi
  unfold decIndex InRing
  split_ifs <;> omega

theorem incIndex_modEq : b.incIndex i ≡ i + 1 [ZMOD b.size] := by
  obtain ⟨h0, hn⟩ := hi
  unfold incIndex
  split_ifs with h
  · rfl
  · have hs : i + 1 = b.size := by omega
    rw [hs]
    exact (Int.modEq_zero_iff_dvd.mpr dvd_rfl).symm

theorem decIndex_modEq : b.decIndex i ≡ i + -1 [ZMOD b.size] := by
  obtain ⟨h0, hn⟩ := hi
  unfold decIndex
  split_ifs with h
  · rfl
  · have hz : i = 0 := by omega
    subst hz
    exact Int.modEq_iff_dvd.mpr ⟨-1, by ring⟩

end

section
variable {b : IndexedBuffer} {i o : ℤ}

theorem offsetIndex_eq_emod (h : 0 ≤ b.size + i + o) : b.offsetIndex i o = (i + o) % b.size := by
  unfold offsetIndex
  rw [Int.tmod_eq_emod_of_nonneg h, add_assoc, Int.add_emod_left]

theorem offsetIndex_inRing (hb : 0 < b.size)
    (h : 0 ≤ b.size + i + o) : InRing b.size (b.offsetIndex i o) := by
  rw [offsetIndex_eq_emod h]
  exact ⟨Int.emod_nonneg _ hb.ne', Int.emod_lt_of_pos _ hb⟩

theorem offsetIndex_modEq (h : 0 ≤ b.size + i + o) : b.offsetIndex i o ≡ i + o [ZMOD b.size] := by
  rw [offsetIndex_eq_emod h]
  exact Int.mod_modEq _ _

theorem tmod_nonneg_iff {a b : ℤ} : 0 ≤ a.tmod b ↔ 0 ≤ a ∨ b ∣ a := by
  rcases le_or_gt 0 a with ha | ha
  · exact iff_of_true (Int.tmod_nonneg b ha) (.inl ha)
  · have hneg : 0 ≤ (-a).tmod b := Int.tmod_nonneg b (by omega)
    rw [Int.neg_tmod] at hneg
    rw [Int.dvd_iff_tmod_eq_zero]
    omega

theorem offsetIndex?_eq_some_iff {j : ℤ} (hi : -2 ^ 31 ≤ b.size + i ∧ b.size + i < 2 ^ 31) :
    b.offsetIndex? i o = some j ↔ b.size ≠ 0 ∧
      (-2 ^ 31 ≤ b.size + i + o ∧ b.size + i + o < 2 ^ 31) ∧ b.offsetIndex i o = j := by
  rw [offsetIndex?, int32?_bind hi, int32?, offsetIndex]
  split_ifs with hf hz
  · exact iff_of_false nofun fun h => h.1 hz
  · rw [Option.bind_eq_bind, Option.bind_some, Option.some_inj]
    exact ⟨fun h => ⟨hz, hf, h⟩, fun h => h.2.2⟩
  all_goals exact iff_of_false nofun fun h => hf h.2.1

theorem offsetIndex?_inside_iff {slots : ℤ} (habs : b.size.natAbs ≤ slots)
    (hi : -2 ^ 31 ≤ b.size + i ∧ b.size + i < 2 ^ 31) :
    (∃ j ∈ b.offsetIndex? i o, 0 ≤ j ∧ j < slots) ↔ b.size ≠ 0 ∧
      (-2 ^ 31 ≤ b.size + i + o ∧ b.size + i + o < 2 ^ 31) ∧
      (0 ≤ b.size + i + o ∨ b.size ∣ i + o) := by
  have hdvd : b.size ∣ b.size + i + o ↔ b.size ∣ i + o := by
    rw [add_assoc]
    exact Int.dvd_add_right (Int.dvd_refl _)
  rw [← hdvd, ← tmod_nonneg_iff]
  constructor
  · rintro ⟨j, hj, hpos, -⟩
    obtain ⟨hz, hf, rfl⟩ := (offsetIndex?_eq_some_iff hi).mp hj
    exact ⟨hz, hf, hpos⟩
  · rintro ⟨hz, hf, hpos⟩
    have hlt : ((b.size + i + o).tmod b.size).natAbs < b.size.natAbs := by
      rw [Int.natAbs_tmod]
      exact Nat.mod_lt _ (Int.natAbs_pos.mpr hz)
    exact ⟨_, (offsetIndex?_eq_some_iff hi).mpr ⟨hz, hf, rfl⟩, hpos, by
      rw [offsetIndex]
      omega⟩

end

def ahead (b : IndexedBuffer) : ℤ := circDist b.size b.read b.write

def behind (b : IndexedBuffer) : ℤ := circDist b.size b.write b.read

variable {b : IndexedBuffer}

section
variable (h : b.Inside)
include h

theorem Inside.size_pos : 0 < b.size := h.1.1.trans_lt h.1.2

theorem incWriteIndex_inside : b.incWriteIndex.Inside :=
  ⟨incIndex_inRing h.1, h.2⟩

theorem decWriteIndex_inside : b.decWriteIndex.Inside :=
  ⟨decIndex_inRing h.1, h.2⟩

theorem incReadIndex_inside : b.incReadIndex.Inside :=
  ⟨h.1, incIndex_inRing h.2⟩

theorem decReadIndex_inside : b.decReadIndex.Inside :=
  ⟨h.1, decIndex_inRing h.2⟩

theorem updateWriteIndex_inside {o : ℤ} (ho : 0 ≤ b.size + b.write + o) :
    (b.updateWriteIndex o).Inside := ⟨offsetIndex_inRing h.size_pos ho, h.2⟩

theorem updateReadIndex_inside {o : ℤ} (ho : 0 ≤ b.size + b.read + o) :
    (b.updateReadIndex o).Inside := ⟨h.1, offsetIndex_inRing h.size_pos ho⟩

end

theorem readFromWrite_inside (h : InRing b.size b.write) {o : ℤ} (ho : 0 ≤ b.size + b.write + o) :
    (b.readFromWrite o).Inside := ⟨h, offsetIndex_inRing (h.1.trans_lt h.2) ho⟩

private theorem move_right {n a b b' y : ℤ} (h : b' ≡ b + y [ZMOD n]) :
    circDist n a b' = (circDist n a b + y) % n := by
  have hm := circDist_move n a b 0 y
  rw [add_zero, sub_zero] at hm
  exact (circDist_congr rfl h).trans hm

private theorem move_left {n a b a' x : ℤ} (h : a' ≡ a + x [ZMOD n]) :
    circDist n a' b = (circDist n a b - x) % n := by
  have hm := circDist_move n a b x 0
  rw [add_zero, zero_sub, ← sub_eq_add_neg] at hm
  exact (circDist_congr h rfl).trans hm

theorem ahead_incWriteIndex (h : b.Inside) : b.incWriteIndex.ahead = (b.ahead + 1) % b.size :=
  move_right (incIndex_modEq h.1)

theorem behind_decWriteIndex (h : b.Inside) : b.decWriteIndex.behind = (b.behind + 1) % b.size := by
  have hm := move_left (b := b.read) (decIndex_modEq h.1)
  rwa [sub_neg_eq_add] at hm

theorem ahead_incReadIndex (h : b.Inside) : b.incReadIndex.ahead = (b.ahead - 1) % b.size :=
  move_left (incIndex_modEq h.2)

theorem behind_decReadIndex (h : b.Inside) : b.decReadIndex.behind = (b.behind - 1) % b.size :=
  move_right (decIndex_modEq h.2)

theorem behind_updateWriteIndex {o : ℤ} (ho : 0 ≤ b.size + b.write + o) :
    (b.updateWriteIndex o).behind = (b.behind - o) % b.size :=
  move_left (offsetIndex_modEq ho)

theorem behind_updateReadIndex {o : ℤ} (ho : 0 ≤ b.size + b.read + o) :
    (b.updateReadIndex o).behind = (b.behind + o) % b.size :=
  move_right (offsetIndex_modEq ho)

theorem ahead_readFromWrite {o : ℤ} (ho : 0 ≤ b.size + b.write + o) :
    (b.readFromWrite o).ahead = -o % b.size := by
  have hm := move_left (b := b.write) (offsetIndex_modEq ho)
  rwa [circDist_self, zero_sub] at hm

theorem behind_readFromWrite {o : ℤ} (ho : 0 ≤ b.size + b.write + o) :
    (b.readFromWrite o).behind = o % b.size := by
  have hm := move_right (a := b.write) (offsetIndex_modEq ho)
  rwa [circDist_self, zero_add] at hm

theorem ahead_eq_zero_iff (h : b.Inside) : b.ahead = 0 ↔ b.read = b.write :=
  circDist_eq_zero_iff h.2 h.1

theorem behind_eq_zero_iff (h : b.Inside) : b.behind = 0 ↔ b.write = b.read :=
  circDist_eq_zero_iff h.1 h.2

end IndexedBuffer
end WebRtcAudio.Aec3
