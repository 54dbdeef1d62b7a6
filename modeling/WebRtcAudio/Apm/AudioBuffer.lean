import Mathlib.Data.List.GetD
import Mathlib.Tactic.Ring

/-! `AudioBuffer` between interleaved 16-bit frames of equal rates. Its floats are whole numbers. -/
namespace WebRtcAudio.Apm

open List

structure AudioBuffer where
  inputNumChannels : ℕ
  numChannels : ℕ
  numFrames : ℕ
  downmixByAveraging : Bool
  channelForDownmixing : ℕ
  channels : List (List ℤ)

namespace AudioBuffer

def deinterleaveChannel (channel numChannels samplesPerChannel : ℕ) (x : List ℤ) : List ℤ :=
  (range samplesPerChannel).map fun j => x.getD (channel + j * numChannels) 0

def downmix (b : AudioBuffer) (interleaved : List ℤ) : List ℤ :=
  if b.downmixByAveraging then
    (range b.numFrames).map fun j =>
      ((interleaved.drop (j * b.inputNumChannels)).take b.inputNumChannels).sum.tdiv
        b.inputNumChannels
  else deinterleaveChannel b.channelForDownmixing b.inputNumChannels b.numFrames interleaved

def copyFrom (b : AudioBuffer) (interleaved : List ℤ) : AudioBuffer :=
  { b with channels :=
      if b.numChannels = 1 then
        [if b.inputNumChannels = 1 then interleaved.take b.numFrames else b.downmix interleaved]
      else (range b.numChannels).map fun i =>
        deinterleaveChannel i b.numChannels b.numFrames interleaved }

def floatS16ToS16 (v : ℤ) : ℤ := max (-32768) (min v 32767)

/-- The sample at `p` is one of channel `p % n` where `n` channels are interleaved. -/
def copyTo (b : AudioBuffer) (configNumChannels : ℕ) : List ℤ :=
  (range (b.numFrames * configNumChannels)).map fun p =>
    let channel := if b.numChannels = 1 then 0 else p % configNumChannels
    floatS16ToS16 ((b.channels.getD channel []).getD (p / configNumChannels) 0)

/-- Channel `i` of the buffer holds channel `i` of the input, and these channels are copied out. -/
def CopiesChannels (b : AudioBuffer) (interleaved : List ℤ) : Prop :=
  (∀ i < b.numChannels, (b.copyFrom interleaved).channels[i]? =
    some (deinterleaveChannel i b.inputNumChannels b.numFrames interleaved)) ∧
  (b.copyFrom interleaved).copyTo b.numChannels =
    (range (b.numFrames * b.numChannels)).map fun p =>
      interleaved.getD (p % b.numChannels + p / b.numChannels * b.inputNumChannels) 0

variable {b : AudioBuffer}

theorem channels_copyFrom (hm : 1 < b.numChannels) (interleaved : List ℤ) {i : ℕ}
    (hi : i < b.numChannels) : (b.copyFrom interleaved).channels[i]? =
      some (deinterleaveChannel i b.numChannels b.numFrames interleaved) := by
  simp [copyFrom, hm.ne', hi]

theorem getD_deinterleaveChannel {channel numChannels samplesPerChannel j : ℕ} (x : List ℤ)
    (hj : j < samplesPerChannel) :
    (deinterleaveChannel channel numChannels samplesPerChannel x).getD j 0 =
      x.getD (channel + j * numChannels) 0 := by
  simp [deinterleaveChannel, hj]

theorem copyTo_copyFrom (hm : 1 < b.numChannels) {interleaved : List ℤ}
    (hw : ∀ x ∈ interleaved, -32768 ≤ x ∧ x ≤ 32767) :
    (b.copyFrom interleaved).copyTo b.numChannels =
      (range (b.numFrames * b.numChannels)).map fun p =>
        interleaved.getD (p % b.numChannels + p / b.numChannels * b.numChannels) 0 := by
  refine map_congr_left fun p hp => ?_
  have hf : p / b.numChannels < b.numFrames := Nat.div_lt_of_lt_mul (by
    rw [Nat.mul_comm]
    exact mem_range.mp hp)
  have hc := channels_copyFrom hm interleaved (Nat.mod_lt p (by omega))
  change floatS16ToS16 (((b.copyFrom interleaved).channels.getD
    (if b.numChannels = 1 then 0 else p % b.numChannels) []).getD (p / b.numChannels) 0) = _
  rw [if_neg hm.ne', getD_eq_getElem?_getD (l := (b.copyFrom interleaved).channels), hc,
    Option.getD_some, getD_deinterleaveChannel _ hf]
  generalize p % b.numChannels + p / b.numChannels * b.numChannels = k
  have hk : -32768 ≤ interleaved.getD k 0 ∧ interleaved.getD k 0 ≤ 32767 := by
    by_cases hlt : k < interleaved.length
    · rw [getD_eq_getElem _ _ hlt]
      exact hw _ (getElem_mem hlt)
    · rw [getD_eq_default _ _ (not_lt.mp hlt)]
      decide
  unfold floatS16ToS16
  omega

/-- The channels are copied for every frame exactly if the buffer has all channels of the input or
one sample of each. -/
theorem copiesChannels_iff (hmany : 1 < b.numChannels) (hle : b.numChannels ≤ b.inputNumChannels) :
    (∀ interleaved : List ℤ, interleaved.length = b.numFrames * b.inputNumChannels →
      (∀ x ∈ interleaved, -32768 ≤ x ∧ x ≤ 32767) → b.CopiesChannels interleaved) ↔
      b.numChannels = b.inputNumChannels ∨ b.numFrames ≤ 1 := by
  constructor
  · intro h
    by_contra! hne
    have htwo : 2 * b.inputNumChannels ≤ b.numFrames * b.inputNumChannels :=
      Nat.mul_le_mul_right _ (by omega)
    -- Of the whole frame only the sample that is taken for the second one of channel 0 is not zero.
    have hc := (h ((range (b.numFrames * b.inputNumChannels)).map fun p =>
      if p = b.numChannels then 1 else 0) (by simp) (by
        simp only [forall_mem_map]
        intro p _
        split_ifs <;> decide)).1 0 (by omega)
    rw [channels_copyFrom hmany _ (by omega)] at hc
    have hs := congrArg (getD · 1 0) (Option.some.inj hc)
    rw [getD_deinterleaveChannel _ (by omega), getD_deinterleaveChannel _ (by omega),
      getD_eq_getElem _ _ (by simp; omega), getD_eq_getElem _ _ (by simp; omega)] at hs
    simp [hne.1.symm] at hs
  · intro h interleaved _ hw
    have hsame : ∀ j < b.numFrames, j * b.numChannels = j * b.inputNumChannels := by
      rintro j hj
      rcases h with h | h
      · rw [h]
      · simp [show j = 0 by omega]
    refine ⟨fun i hi => ?_, (copyTo_copyFrom hmany hw).trans ?_⟩
    · rw [channels_copyFrom hmany _ hi]
      exact congrArg _ (map_congr_left fun j hj => by rw [hsame j (mem_range.mp hj)])
    · refine map_congr_left fun p hp => ?_
      rw [hsame _ (Nat.div_lt_of_lt_mul (by rw [Nat.mul_comm]; exact mem_range.mp hp))]

theorem copiesChannels_stereo : CopiesChannels ⟨2, 2, 2, true, 0, []⟩ [1, 2, 3, 4] :=
  (copiesChannels_iff (b := ⟨2, 2, 2, true, 0, []⟩) (by decide) (by decide)).mpr (.inl rfl)
    _ rfl (by decide)

theorem copyFrom_three_to_two :
    ((⟨3, 2, 2, true, 0, []⟩ : AudioBuffer).copyFrom [1, 2, 3, 4, 5, 6]).channels =
      [[1, 3], [2, 4]] ∧ ¬ CopiesChannels ⟨3, 2, 2, true, 0, []⟩ [1, 2, 3, 4, 5, 6] := by
  refine ⟨rfl, fun h => ?_⟩
  exact absurd (h.1 0 (by decide)) (by decide)

end AudioBuffer

end WebRtcAudio.Apm
