import WebRtcAudio.Core.Run
import WebRtcAudio.Aecm.EchoChannel

/-! The 16-bit copy of the adapted channel against the 32-bit one. -/
namespace WebRtcAudio.Aecm

open WebRtcAudio.Core WebRtcAudio.CommonAudio Option

namespace EchoChannel

inductive Call where
  | initEchoPathCore (echoPath : EchoPath)
  | calcEnergies (block : Block) (nearEner : ℕ)
  | updateChannel (block : Block) (dfa : Spectrum ℕ) (mu : ℤ) (echoEst : Spectrum ℤ)

def step (s : EchoChannel) : Call → EchoChannel × Unit
  | .initEchoPathCore echoPath => (s.initEchoPathCore echoPath.values, ())
  | .calcEnergies block nearEner => ((s.calcEnergies block nearEner).1, ())
  | .updateChannel block dfa mu echoEst =>
    (((s.updateChannel block dfa mu echoEst).map (·.1)).getD s, ())

def reached (freq : SamplingFreq) (calls : List Call) : EchoChannel :=
  runState step (initCore freq) calls

def CopiesAgree (s : EchoChannel) : Prop :=
  ∀ i : Fin partLen1,
    s.channelAdapt16.get i = s.channelAdapt32.get i / 2 ^ 16 ∧ 0 ≤ s.channelAdapt32.get i

instance (s : EchoChannel) : Decidable s.CopiesAgree :=
  inferInstanceAs (Decidable (∀ _, _))

/-- The 16-bit channel is the upper half of the 32-bit one; none is negative. -/
structure Consistent (s : EchoChannel) : Prop where
  copy : ∀ i : Fin partLen1, s.channelAdapt16.get i = s.channelAdapt32.get i / 2 ^ 16
  nonneg : ∀ i : Fin partLen1, 0 ≤ s.channelAdapt32.get i
  le_max : ∀ i : Fin partLen1, s.channelAdapt32.get i ≤ word32Max
  stored_nonneg : ∀ i : Fin partLen1, 0 ≤ s.channelStored.get i
  stored_lt : ∀ i : Fin partLen1, s.channelStored.get i < 2 ^ 15

variable {s : EchoChannel}

theorem Consistent.copiesAgree (h : s.Consistent) : s.CopiesAgree :=
  fun i => ⟨h.copy i, h.nonneg i⟩

theorem Consistent.adapt16_nonneg (h : s.Consistent) (i : Fin partLen1) :
    0 ≤ s.channelAdapt16.get i := by
  rw [h.copy i]
  exact Int.ediv_nonneg (h.nonneg i) (by norm_num)

theorem consistent_of_path (hs : s.channelAdapt16 = s.channelStored)
    (ha : s.channelAdapt32 = s.channelStored.map (· * 2 ^ 16))
    (hn : ∀ i : Fin partLen1, 0 ≤ s.channelStored.get i)
    (hlt : ∀ i : Fin partLen1, s.channelStored.get i < 2 ^ 15) : s.Consistent := by
  have hv : ∀ i : Fin partLen1, s.channelAdapt32.get i = s.channelStored.get i * 2 ^ 16 := by
    intro i
    rw [ha]
    exact Vector.getElem_map _ i.isLt
  refine ⟨fun i => ?_, fun i => ?_, fun i => ?_, hn, hlt⟩
  · rw [hv, hs, Int.mul_ediv_cancel _ (by norm_num)]
  · have h := hn i
    rw [hv]
    omega
  · have h := hlt i
    rw [hv, word32Max]
    omega

theorem initEchoPathCore_consistent (s : EchoChannel) (path : EchoPath) :
    (s.initEchoPathCore path.values).Consistent := by
  have hv : ∀ i : Fin partLen1, path.values.get i = ((path.get i).val : ℤ) := by
    intro i
    exact Vector.getElem_map _ i.isLt
  refine consistent_of_path rfl rfl (fun i => ?_) (fun i => ?_)
  · show 0 ≤ path.values.get i
    rw [hv]
    omega
  · show path.values.get i < 2 ^ 15
    have h := (path.get i).isLt
    rw [hv]
    omega

theorem resetAdaptiveChannel_consistent (h : s.Consistent) : s.resetAdaptiveChannel.Consistent :=
  consistent_of_path rfl rfl h.stored_nonneg h.stored_lt

theorem storeAdaptiveChannel_consistent (h : s.Consistent) (block : Block) :
    (s.storeAdaptiveChannel block).1.Consistent := by
  refine ⟨h.copy, h.nonneg, h.le_max, fun i => ?_, fun i => ?_⟩
  · exact h.adapt16_nonneg i
  · show s.channelAdapt16.get i < 2 ^ 15
    have hle := h.le_max i
    rw [word32Max] at hle
    rw [h.copy i]
    omega

theorem Consistent.congr {t : EchoChannel} (h : s.Consistent)
    (hs : t.channelStored = s.channelStored) (h16 : t.channelAdapt16 = s.channelAdapt16)
    (h32 : t.channelAdapt32 = s.channelAdapt32) : t.Consistent := by
  constructor <;> simp only [hs, h16, h32]
  exacts [h.copy, h.nonneg, h.le_max, h.stored_nonneg, h.stored_lt]

theorem writeChannel_consistent (h : s.Consistent) {values : Spectrum (Option ℤ)}
    (hva : ∀ (i : Fin partLen1) (channel : ℤ), values.get i = some channel →
      0 ≤ channel ∧ channel ≤ word32Max) : (s.writeChannel values).Consistent := by
  have h32 : ∀ i : Fin partLen1,
      (s.writeChannel values).channelAdapt32.get i =
        (values.get i).getD (s.channelAdapt32.get i) := by
    intro i
    exact Vector.getElem_ofFn i.isLt
  have h16 : ∀ i : Fin partLen1, (s.writeChannel values).channelAdapt16.get i =
      (values.get i).elim (s.channelAdapt16.get i) fun channel => toInt16 (channel / 2 ^ 16) := by
    intro i
    exact Vector.getElem_ofFn i.isLt
  have hs : (s.writeChannel values).channelStored = s.channelStored := by
    simp only [writeChannel]
  refine ⟨fun i => ?_, fun i => ?_, fun i => ?_, ?_, ?_⟩
  · rw [h16, h32]
    cases hi : values.get i with
    | none => exact h.copy i
    | some channel =>
      obtain ⟨hn, hle⟩ := hva i channel hi
      rw [word32Max] at hle
      exact toInt16_eq_self (by omega)
  · rw [h32]
    cases hi : values.get i with
    | none => exact h.nonneg i
    | some channel => exact (hva i channel hi).1
  · rw [h32]
    cases hi : values.get i with
    | none => exact h.le_max i
    | some channel => exact (hva i channel hi).2
  · rw [hs]
    exact h.stored_nonneg
  · rw [hs]
    exact h.stored_lt

variable {block : Block}

section
variable (h : s.Consistent)
include h

theorem adaptChannel_consistent {dfa : Spectrum ℕ} {mu : ℤ} {t : EchoChannel}
    (ht : s.adaptChannel block dfa mu = some t) : t.Consistent := by
  simp only [adaptChannel] at ht
  split_ifs at ht with hmu
  · rw [some_inj] at ht
    rwa [← ht]
  · rw [some_inj] at ht
    rw [← ht]
    apply writeChannel_consistent h
    intro i channel hi
    change (Vector.map join (Vector.ofFn _))[(i : ℕ)] = some channel at hi
    rw [Vector.getElem_map, Vector.getElem_ofFn, join_eq_some_iff] at hi
    exact Bin.adapted_bounds hi

theorem chooseChannel_consistent (block : Block) (mseStored mseAdapt : ℤ) (echoEst : Spectrum ℤ) :
    (s.chooseChannel block mseStored mseAdapt echoEst).1.Consistent := by
  unfold chooseChannel
  split_ifs
  · exact resetAdaptiveChannel_consistent h
  · refine storeAdaptiveChannel_consistent ?_ block
    exact h.congr rfl rfl rfl
  · exact h

theorem validateChannel_consistent (block : Block) (echoEst : Spectrum ℤ) :
    (s.validateChannel block echoEst).1.Consistent :=
  (chooseChannel_consistent h block _ _ echoEst).congr rfl rfl rfl

theorem storeOrReset_consistent (block : Block) (echoEst : Spectrum ℤ) :
    (s.storeOrReset block echoEst).1.Consistent := by
  have hc : s.countBlock.Consistent := h.congr rfl rfl rfl
  unfold storeOrReset
  split_ifs
  · exact storeAdaptiveChannel_consistent h block
  · exact validateChannel_consistent hc block echoEst
  · exact hc

theorem updateChannel_consistent {dfa : Spectrum ℕ} {mu : ℤ} {echoEst : Spectrum ℤ}
    {r : EchoChannel × Spectrum ℤ} (hr : s.updateChannel block dfa mu echoEst = some r) :
    r.1.Consistent := by
  obtain ⟨t, ht, rfl⟩ := map_eq_some_iff.mp hr
  exact storeOrReset_consistent (adaptChannel_consistent h ht) block echoEst

end

section
variable (s : EchoChannel) (block : Block) (nearEner : ℕ)

theorem calcEnergies_channelAdapt16 : (s.calcEnergies block nearEner).1.channelAdapt16 =
      if s.scalesDown block nearEner then s.channelAdapt16.map (· / 2 ^ 3)
      else s.channelAdapt16 := by
  simp only [calcEnergies]

theorem calcEnergies_channelAdapt32 :
    (s.calcEnergies block nearEner).1.channelAdapt32 = s.channelAdapt32 := by
  simp only [calcEnergies]

theorem calcEnergies_channelStored :
    (s.calcEnergies block nearEner).1.channelStored = s.channelStored := by
  simp only [calcEnergies]

end

def KeepsCopies (s : EchoChannel) : Call → Prop
  | .calcEnergies block nearEner =>
    s.scalesDown block nearEner → ∀ i : Fin partLen1, s.channelAdapt16.get i = 0
  | _ => True

theorem calcEnergies_consistent (h : s.Consistent) {nearEner : ℕ}
    (hk : s.KeepsCopies (.calcEnergies block nearEner)) :
    (s.calcEnergies block nearEner).1.Consistent := by
  apply h.congr
  · exact calcEnergies_channelStored s block nearEner
  · rw [calcEnergies_channelAdapt16]
    split_ifs with hs
    · ext i hi
      have hz : s.channelAdapt16[i] = 0 := hk hs ⟨i, hi⟩
      rw [Vector.getElem_map, hz]
      rfl
    · rfl
  · exact calcEnergies_channelAdapt32 s block nearEner

theorem calcEnergies_not_copiesAgree (h : s.Consistent) {nearEner : ℕ}
    (hs : s.scalesDown block nearEner) {i : Fin partLen1} (hi : s.channelAdapt16.get i ≠ 0) :
    ¬ (s.calcEnergies block nearEner).1.CopiesAgree := by
  intro ha
  have hc := (ha i).1
  rw [calcEnergies_channelAdapt32, calcEnergies_channelAdapt16, if_pos hs, ← h.copy i] at hc
  have hn := h.adapt16_nonneg i
  have hscale : (s.channelAdapt16.map (· / 2 ^ 3)).get i = s.channelAdapt16.get i / 2 ^ 3 :=
    Vector.getElem_map _ i.isLt
  rw [hscale] at hc
  omega

theorem step_consistent {c : Call} (h : s.Consistent) (hk : s.KeepsCopies c) :
    (s.step c).1.Consistent := by
  cases c with
  | initEchoPathCore echoPath => exact initEchoPathCore_consistent s echoPath
  | calcEnergies block nearEner => exact calcEnergies_consistent h hk
  | updateChannel block dfa mu echoEst =>
    simp only [step]
    cases hr : s.updateChannel block dfa mu echoEst with
    | none => exact h
    | some r => exact updateChannel_consistent h hr

theorem step_not_copiesAgree {c : Call} (h : s.Consistent) (hk : ¬ s.KeepsCopies c) :
    ¬ (s.step c).1.CopiesAgree := by
  cases c with
  | initEchoPathCore => exact absurd trivial hk
  | calcEnergies block nearEner =>
    simp only [KeepsCopies, not_forall] at hk
    obtain ⟨hs, i, hi⟩ := hk
    exact calcEnergies_not_copiesAgree h hs hi
  | updateChannel => exact absurd trivial hk

theorem initCore_consistent (freq : SamplingFreq) : (initCore freq).Consistent := by
  cases freq with
  | kHz8 => exact initEchoPathCore_consistent _ kChannelStored8kHz
  | kHz16 => exact initEchoPathCore_consistent _ kChannelStored16kHz

/-- The copies agree in every state that a run goes through exactly if no call of the run scales
down a channel that is not zero. -/
theorem copiesAgree_iff (freq : SamplingFreq) (calls : List Call) :
    (∀ pre, pre <+: calls → (reached freq pre).CopiesAgree) ↔
      ∀ pre c rest, calls = pre ++ c :: rest → (reached freq pre).KeepsCopies c := by
  have ha : ∀ s : EchoChannel, s.Consistent → s.CopiesAgree := fun _ h => h.copiesAgree
  have hg : ∀ (s : EchoChannel) c, s.Consistent → s.KeepsCopies c → (s.step c).1.Consistent :=
    fun _ _ => step_consistent
  have hbad : ∀ (s : EchoChannel) c, s.Consistent → ¬ s.KeepsCopies c →
      ¬ (s.step c).1.CopiesAgree := fun _ _ => step_not_copiesAgree
  exact forall_reached_iff step ha hg hbad (initCore_consistent freq) calls

def flatBlock (magnitude : ℕ) : Block where
  startup := true
  dfaNoisyQDomain := 0
  farSpectrum := Vector.replicate _ magnitude
  farQ := 0

theorem copies_differ_after_onset : ¬ (reached .kHz16
    [.calcEnergies (flatBlock 1000) 0, .calcEnergies (flatBlock 4000) 0]).CopiesAgree := by
  decide +kernel

end EchoChannel

end WebRtcAudio.Aecm
