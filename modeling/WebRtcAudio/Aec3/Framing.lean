import Mathlib.Data.List.FinRange
import WebRtcAudio.Aec3.Common

/-! `FrameBlocker` and `BlockFramer`. The sizes compared by the debug checks are explicit; where
such a check fails the values given here mean nothing. -/
namespace WebRtcAudio.Aec3

open List

abbrev Banded (numBands numChannels : ℕ) (β : Type*) := Fin numBands → Fin numChannels → β

namespace Banded
variable {nb nc : ℕ} {β : Type*}

def toList (x : Banded nb nc β) : List β :=
  (finRange nb).flatMap fun band => (finRange nc).map (x band)

@[simp] theorem mem_toList {x : Banded nb nc β} {e : β} :
    e ∈ x.toList ↔ ∃ band channel, x band channel = e := by
  simp [toList]

def HasLength {α : Type*} (x : Banded nb nc (List α)) (n : ℕ) : Prop :=
  ∀ band channel, (x band channel).length = n

end Banded

theorem kBlockSize_eq : kBlockSize = 64 := rfl
theorem kSubFrameLength_eq : kSubFrameLength = 80 := rfl

inductive SizeCheck
  | insertSubFrame (buffer block subFrame : ℕ)
  | extractBlock (buffer block : ℕ)
  | insertBlock (block buffer : ℕ)
  | insertBlockAndExtract (buffer block subFrame : ℕ)
  deriving DecidableEq

def SizeCheck.Passes : SizeCheck → Prop
  | .insertSubFrame buffer block subFrame =>
    buffer ≤ kBlockSize - 16 ∧ kBlockSize = block ∧ kSubFrameLength = subFrame
  | .extractBlock buffer block => kBlockSize = buffer ∧ kBlockSize = block
  | .insertBlock block buffer => kBlockSize = block ∧ 0 = buffer
  | .insertBlockAndExtract buffer block subFrame =>
    kSubFrameLength ≤ buffer + kBlockSize ∧ kBlockSize = block ∧ buffer ≤ kBlockSize ∧
      kSubFrameLength = subFrame

variable {α : Type*} {nb nc : ℕ}

structure FrameBlocker (nb nc : ℕ) (α : Type*) where
  buffer : Banded nb nc (List α)

variable {block : Banded nb nc (List α)}

namespace FrameBlocker

def create : FrameBlocker nb nc α := ⟨fun _ _ => []⟩

def insertSubFrameAndExtractBlock (f : FrameBlocker nb nc α) (subFrame : Banded nb nc (List α)) :
    FrameBlocker nb nc α × Banded nb nc (List α) :=
  let samplesToBlock band channel := kBlockSize - (f.buffer band channel).length
  (⟨fun band channel => (subFrame band channel).drop (samplesToBlock band channel)⟩,
    fun band channel =>
      f.buffer band channel ++ (subFrame band channel).take (samplesToBlock band channel))

def isBlockAvailable [NeZero nb] [NeZero nc] (f : FrameBlocker nb nc α) : Bool :=
  kBlockSize = (f.buffer 0 0).length

def extractBlock (f : FrameBlocker nb nc α) : FrameBlocker nb nc α × Banded nb nc (List α) :=
  (⟨fun _ _ => []⟩, f.buffer)

def insertSubFrameChecks (f : FrameBlocker nb nc α) (subFrame block : Banded nb nc (List α)) :
    List SizeCheck :=
  Banded.toList fun band channel => .insertSubFrame (f.buffer band channel).length
    (block band channel).length (subFrame band channel).length

def extractBlockChecks (f : FrameBlocker nb nc α) (block : Banded nb nc (List α)) :
    List SizeCheck :=
  Banded.toList fun band channel => .extractBlock (f.buffer band channel).length
    (block band channel).length

theorem insertSubFrame_conserves (f : FrameBlocker nb nc α) (subFrame : Banded nb nc (List α))
    (band : Fin nb) (channel : Fin nc) :
    (f.insertSubFrameAndExtractBlock subFrame).2 band channel ++
        (f.insertSubFrameAndExtractBlock subFrame).1.buffer band channel =
      f.buffer band channel ++ subFrame band channel := by
  simp [insertSubFrameAndExtractBlock]

section
variable {f : FrameBlocker nb nc α}

section
variable {subFrame : Banded nb nc (List α)} {k : ℕ} (hk : k ≤ 48) (hf : f.buffer.HasLength k)
  (hs : subFrame.HasLength kSubFrameLength)
include hk hf hs

theorem insertSubFrame_length :
    (f.insertSubFrameAndExtractBlock subFrame).1.buffer.HasLength (k + 16) ∧
      (f.insertSubFrameAndExtractBlock subFrame).2.HasLength kBlockSize := by
  constructor
  · intro band channel
    simp only [insertSubFrameAndExtractBlock, length_drop, hf band channel, hs band channel,
      kBlockSize_eq, kSubFrameLength_eq]
    omega
  · intro band channel
    simp only [insertSubFrameAndExtractBlock, length_append, length_take,
      hf band channel, hs band channel, kBlockSize_eq, kSubFrameLength_eq]
    omega

theorem insertSubFrameChecks_pass (hb : block.HasLength kBlockSize) :
    ∀ e ∈ f.insertSubFrameChecks subFrame block, e.Passes := by
  intro e he
  obtain ⟨band, channel, rfl⟩ := Banded.mem_toList.mp he
  refine ⟨?_, (hb band channel).symm, (hs band channel).symm⟩
  rw [hf band channel]
  exact hk

end

theorem extractBlockChecks_pass (hf : f.buffer.HasLength kBlockSize)
    (hb : block.HasLength kBlockSize) : ∀ e ∈ f.extractBlockChecks block, e.Passes := by
  intro e he
  obtain ⟨band, channel, rfl⟩ := Banded.mem_toList.mp he
  exact ⟨(hf band channel).symm, (hb band channel).symm⟩

end

theorem isBlockAvailable_iff [NeZero nb] [NeZero nc] {f : FrameBlocker nb nc α} {k : ℕ}
    (hf : f.buffer.HasLength k) : f.isBlockAvailable = true ↔ k = kBlockSize := by
  simp only [isBlockAvailable, hf 0 0, decide_eq_true_eq]
  exact eq_comm

end FrameBlocker

structure BlockFramer (nb nc : ℕ) (α : Type*) where
  buffer : Banded nb nc (List α)

namespace BlockFramer

def create [Zero α] : BlockFramer nb nc α := ⟨fun _ _ => replicate kBlockSize 0⟩

def insertBlock (f : BlockFramer nb nc α) (block : Banded nb nc (List α)) : BlockFramer nb nc α :=
  ⟨fun band channel => block band channel ++ f.buffer band channel⟩

def insertBlockAndExtractSubFrame (f : BlockFramer nb nc α) (block : Banded nb nc (List α)) :
    BlockFramer nb nc α × Banded nb nc (List α) :=
  let samplesToFrame band channel := kSubFrameLength - (f.buffer band channel).length
  (⟨fun band channel => (block band channel).drop (samplesToFrame band channel)⟩,
    fun band channel =>
      f.buffer band channel ++ (block band channel).take (samplesToFrame band channel))

def insertBlockChecks (f : BlockFramer nb nc α) (block : Banded nb nc (List α)) : List SizeCheck :=
  Banded.toList fun band channel => .insertBlock (block band channel).length
    (f.buffer band channel).length

def insertBlockAndExtractChecks (f : BlockFramer nb nc α)
    (block subFrame : Banded nb nc (List α)) : List SizeCheck :=
  Banded.toList fun band channel => .insertBlockAndExtract (f.buffer band channel).length
    (block band channel).length (subFrame band channel).length

theorem insertBlockAndExtract_conserves (f : BlockFramer nb nc α)
    (block : Banded nb nc (List α)) (band : Fin nb) (channel : Fin nc) :
    (f.insertBlockAndExtractSubFrame block).2 band channel ++
        (f.insertBlockAndExtractSubFrame block).1.buffer band channel =
      f.buffer band channel ++ block band channel := by
  simp [insertBlockAndExtractSubFrame]

section
variable {f : BlockFramer nb nc α}

section
variable {block : Banded nb nc (List α)} {m : ℕ} (hm : 16 ≤ m) (hm' : m ≤ kBlockSize)
  (hf : f.buffer.HasLength m) (hb : block.HasLength kBlockSize)
include hm hm' hf hb

theorem insertBlockAndExtract_length :
    (f.insertBlockAndExtractSubFrame block).1.buffer.HasLength (m - 16) ∧
      (f.insertBlockAndExtractSubFrame block).2.HasLength kSubFrameLength := by
  rw [kBlockSize_eq] at hm'
  constructor
  · intro band channel
    simp only [insertBlockAndExtractSubFrame, length_drop, hf band channel,
      hb band channel, kBlockSize_eq, kSubFrameLength_eq]
    omega
  · intro band channel
    simp only [insertBlockAndExtractSubFrame, length_append, length_take,
      hf band channel, hb band channel, kBlockSize_eq, kSubFrameLength_eq]
    omega

theorem insertBlockAndExtractChecks_pass {subFrame : Banded nb nc (List α)}
    (hs : subFrame.HasLength kSubFrameLength) :
    ∀ e ∈ f.insertBlockAndExtractChecks block subFrame, e.Passes := by
  intro e he
  obtain ⟨band, channel, rfl⟩ := Banded.mem_toList.mp he
  refine ⟨?_, (hb band channel).symm, ?_, (hs band channel).symm⟩
  · rw [hf band channel, kBlockSize_eq, kSubFrameLength_eq]
    omega
  · rw [hf band channel]
    exact hm'

end

theorem insertBlockChecks_pass (hf : f.buffer.HasLength 0) (hb : block.HasLength kBlockSize) :
    ∀ e ∈ f.insertBlockChecks block, e.Passes := by
  intro e he
  obtain ⟨band, channel, rfl⟩ := Banded.mem_toList.mp he
  exact ⟨(hb band channel).symm, (hf band channel).symm⟩

theorem insertBlock_length {m : ℕ} (hf : f.buffer.HasLength m) (hb : block.HasLength kBlockSize) :
    (f.insertBlock block).buffer.HasLength (kBlockSize + m) := by
  intro band channel
  simp only [insertBlock, length_append, hf band channel, hb band channel]

end

end BlockFramer
end WebRtcAudio.Aec3
