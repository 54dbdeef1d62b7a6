import Mathlib.Algebra.Order.BigOperators.Group.List
import WebRtcAudio.Core.MachineInt

/-! The counters of concealed samples of `StatisticsCalculator`, all of 64 bits. -/
namespace WebRtcAudio.NetEq

open List WebRtcAudio.Core

structure ConcealedCounter where
  samples : ℕ
  correction : ℕ
  deriving DecidableEq

def ConcealedCounter.correct (c : ConcealedCounter) (numSamples : ℤ) : ConcealedCounter :=
  if numSamples < 0 then { c with correction := (c.correction + numSamples.natAbs) % 2 ^ 64 }
  else
    let canceledOut := min numSamples.toNat c.correction
    { samples := (c.samples + (numSamples.toNat - canceledOut)) % 2 ^ 64
      correction := c.correction - canceledOut }

structure ConcealmentStatistics where
  expandedSpeech : ℕ := 0
  expandedNoise : ℕ := 0
  concealmentEvents : ℕ := 0
  concealed : ConcealedCounter := ⟨0, 0⟩
  silentConcealed : ConcealedCounter := ⟨0, 0⟩

def addIntToSizeTWithLowerCap (a : ℤ) (b : ℕ) : ℕ :=
  let ret := toSizeT (b + a)
  if a < 0 ∧ b < ret then 0 else ret

namespace ConcealmentStatistics

variable (s : ConcealmentStatistics)

def concealedSamplesCorrection (numSamples : ℤ) (isVoice : Bool) : ConcealmentStatistics :=
  { s with
    concealed := s.concealed.correct numSamples
    silentConcealed :=
      if isVoice then s.silentConcealed else s.silentConcealed.correct numSamples }

-- `dchecked_cast<int>` converts a size that is no `int` as well, where `RTC_DCHECK` is off.
def expandedVoiceSamples (numSamples : ℕ) (isNewConcealmentEvent : Bool) : ConcealmentStatistics :=
  let t := { s with expandedSpeech := (s.expandedSpeech + numSamples) % 2 ^ 64 }
  let t := t.concealedSamplesCorrection (toInt32 numSamples) true
  { t with concealmentEvents := (t.concealmentEvents + isNewConcealmentEvent.toNat) % 2 ^ 64 }

def expandedNoiseSamples (numSamples : ℕ) (isNewConcealmentEvent : Bool) : ConcealmentStatistics :=
  let t := { s with expandedNoise := (s.expandedNoise + numSamples) % 2 ^ 64 }
  let t := t.concealedSamplesCorrection (toInt32 numSamples) false
  { t with concealmentEvents := (t.concealmentEvents + isNewConcealmentEvent.toNat) % 2 ^ 64 }

def expandedVoiceSamplesCorrection (numSamples : ℤ) : ConcealmentStatistics :=
  concealedSamplesCorrection
    { s with expandedSpeech := addIntToSizeTWithLowerCap numSamples s.expandedSpeech }
    numSamples true

def expandedNoiseSamplesCorrection (numSamples : ℤ) : ConcealmentStatistics :=
  concealedSamplesCorrection
    { s with expandedNoise := addIntToSizeTWithLowerCap numSamples s.expandedNoise }
    numSamples false

end ConcealmentStatistics

inductive ConcealmentCall where
  | expandedVoiceSamples (numSamples : ℕ) (isNewConcealmentEvent : Bool)
  | expandedNoiseSamples (numSamples : ℕ) (isNewConcealmentEvent : Bool)
  | expandedVoiceSamplesCorrection (numSamples : ℤ)
  | expandedNoiseSamplesCorrection (numSamples : ℤ)

def ConcealmentCall.amount : ConcealmentCall → ℤ
  | .expandedVoiceSamples n _ | .expandedNoiseSamples n _ => n
  | .expandedVoiceSamplesCorrection n | .expandedNoiseSamplesCorrection n => n

def ConcealmentCall.IsInt (c : ConcealmentCall) : Prop := -2 ^ 31 ≤ c.amount ∧ c.amount < 2 ^ 31

instance (c : ConcealmentCall) : Decidable c.IsInt := inferInstanceAs (Decidable (_ ∧ _))

def ConcealmentCall.isVoice : ConcealmentCall → Bool
  | .expandedVoiceSamples .. | .expandedVoiceSamplesCorrection _ => true
  | .expandedNoiseSamples .. | .expandedNoiseSamplesCorrection _ => false

def ConcealmentStatistics.step (s : ConcealmentStatistics) : ConcealmentCall → ConcealmentStatistics
  | .expandedVoiceSamples n isNew => s.expandedVoiceSamples n isNew
  | .expandedNoiseSamples n isNew => s.expandedNoiseSamples n isNew
  | .expandedVoiceSamplesCorrection n => s.expandedVoiceSamplesCorrection n
  | .expandedNoiseSamplesCorrection n => s.expandedNoiseSamplesCorrection n

def ConcealmentStatistics.run (calls : List ConcealmentCall) : ConcealmentStatistics :=
  calls.foldl step {}

def amounts (voice : Bool) (calls : List ConcealmentCall) : List ℤ :=
  calls.filterMap fun c => if c.isVoice = voice then some c.amount else none

def prefixSums (xs : List ℤ) : Set ℤ := {x | ∃ p, p <+: xs ∧ p.sum = x}

theorem prefixSums_concat (xs : List ℤ) (n : ℤ) :
    prefixSums (xs ++ [n]) = insert (xs.sum + n) (prefixSums xs) := by
  ext x
  simp only [prefixSums, Set.mem_ofPred_eq, Set.mem_insert_iff, prefix_concat_iff]
  constructor
  · rintro ⟨p, rfl | hp, rfl⟩
    · exact .inl (by simp)
    · exact .inr ⟨p, hp, rfl⟩
  · rintro (rfl | ⟨p, hp, rfl⟩)
    · exact ⟨_, .inl rfl, by simp⟩
    · exact ⟨p, .inr hp, rfl⟩

theorem prefixSums_mono {xs ys : List ℤ} (h : xs <+: ys) : prefixSums xs ⊆ prefixSums ys :=
  fun _ ⟨p, hp, hx⟩ => ⟨p, hp.trans h, hx⟩

def total (xs : List ℤ) : ℕ := (xs.map Int.natAbs).sum

theorem total_le {xs ys : List ℤ} (h : xs <+ ys) : total xs ≤ total ys :=
  (h.map _).sum_le_sum fun _ _ => Nat.zero_le _

theorem ConcealedCounter.correct_spec {c : ConcealedCounter} {n : ℤ}
    (h : c.samples + c.correction + n.natAbs < 2 ^ 64) :
    ((c.correct n).samples : ℤ) = max (c.samples - c.correction + n) c.samples ∧
      ((c.correct n).samples : ℤ) - (c.correct n).correction = c.samples - c.correction + n ∧
      (c.correct n).samples + (c.correct n).correction ≤ c.samples + c.correction + n.natAbs := by
  unfold correct
  split_ifs <;> dsimp only <;> omega

/-- The samples are the greatest prefix sum, the correction is their distance to the sum. -/
theorem ConcealedCounter.foldl_correct_spec {xs : List ℤ} (h : total xs < 2 ^ 64) :
    IsGreatest (prefixSums xs) (xs.foldl correct ⟨0, 0⟩).samples ∧
      ((xs.foldl correct ⟨0, 0⟩).samples : ℤ) - (xs.foldl correct ⟨0, 0⟩).correction = xs.sum ∧
      (xs.foldl correct ⟨0, 0⟩).samples + (xs.foldl correct ⟨0, 0⟩).correction ≤ total xs := by
  induction xs using List.reverseRecOn with
  | nil => simp [prefixSums, isGreatest_singleton]
  | append_singleton xs n ih =>
    have htotal : total (xs ++ [n]) = total xs + n.natAbs := by simp [total]
    obtain ⟨hmax, hsum, hbound⟩ := ih (by omega)
    obtain ⟨hs, hd, hnext⟩ :=
      ConcealedCounter.correct_spec (c := xs.foldl correct ⟨0, 0⟩) (n := n) (by omega)
    rw [foldl_append, foldl_cons, foldl_nil, hd, hs, hsum,
      prefixSums_concat, sum_append, sum_singleton]
    exact ⟨hmax.insert _, rfl, by omega⟩

namespace ConcealmentStatistics

theorem step_counters (s : ConcealmentStatistics) {c : ConcealmentCall} (hc : c.IsInt) :
    (s.step c).concealed = s.concealed.correct c.amount ∧ (s.step c).silentConcealed =
        if c.isVoice then s.silentConcealed else s.silentConcealed.correct c.amount := by
  cases c with
  | expandedVoiceSamples n isNew =>
    have hcast : toInt32 n = n := toInt32_eq_self hc
    simp only [step, expandedVoiceSamples, hcast]
    exact ⟨rfl, rfl⟩
  | expandedNoiseSamples n isNew =>
    have hcast : toInt32 n = n := toInt32_eq_self hc
    simp only [step, expandedNoiseSamples, hcast]
    exact ⟨rfl, rfl⟩
  | expandedVoiceSamplesCorrection n => exact ⟨rfl, rfl⟩
  | expandedNoiseSamplesCorrection n => exact ⟨rfl, rfl⟩

theorem amounts_sublist (voice : Bool) (calls : List ConcealmentCall) :
    amounts voice calls <+ calls.map ConcealmentCall.amount := by
  induction calls with
  | nil => exact Sublist.slnil
  | cons c calls ih =>
    unfold amounts at ih ⊢
    rw [filterMap_cons, map_cons]
    by_cases hc : c.isVoice = voice
    · rw [if_pos hc]
      exact ih.cons_cons _
    · rw [if_neg hc]
      exact ih.cons _

section
variable {calls : List ConcealmentCall} (hint : ∀ c ∈ calls, c.IsInt)
include hint

theorem run_counters :
    (run calls).concealed = (calls.map ConcealmentCall.amount).foldl .correct ⟨0, 0⟩ ∧
      (run calls).silentConcealed = (amounts false calls).foldl .correct ⟨0, 0⟩ := by
  induction calls using List.reverseRecOn with
  | nil => exact ⟨rfl, rfl⟩
  | append_singleton calls c ih =>
    obtain ⟨hcalls, hc⟩ := forall_mem_append.mp hint
    obtain ⟨hconcealed, hs⟩ := (run calls).step_counters (hc c mem_cons_self)
    obtain ⟨ihconcealed, ihsilent⟩ := ih hcalls
    have hrun : run (calls ++ [c]) = (run calls).step c := by simp [run]
    rw [hrun, hconcealed, hs, ihconcealed, ihsilent]
    cases hv : c.isVoice <;> simp [amounts, hv]

theorem isGreatest_run (ht : total (calls.map ConcealmentCall.amount) < 2 ^ 64) :
    IsGreatest (prefixSums (calls.map ConcealmentCall.amount)) (run calls).concealed.samples ∧
      IsGreatest (prefixSums (amounts false calls)) (run calls).silentConcealed.samples := by
  have hle := total_le (amounts_sublist false calls)
  rw [(run_counters hint).1, (run_counters hint).2]
  exact ⟨(ConcealedCounter.foldl_correct_spec ht).1,
    (ConcealedCounter.foldl_correct_spec (hle.trans_lt ht)).1⟩

end

theorem sum_amount (calls : List ConcealmentCall) : (calls.map ConcealmentCall.amount).sum =
      (amounts true calls).sum + (amounts false calls).sum := by
  induction calls with
  | nil => rfl
  | cons c calls ih =>
    rw [map_cons, sum_cons, ih]
    cases hc : c.isVoice <;> simp [amounts, hc] <;> omega

/-- The lifetime counters of concealed samples are the greatest sums of the amounts so far, as long
as all amounts are ints and add up to less than `2 ^ 64` in absolute value. -/
theorem concealedSamples_spec (calls : List ConcealmentCall) (hint : ∀ c ∈ calls, c.IsInt)
    (htotal : total (calls.map ConcealmentCall.amount) < 2 ^ 64) :
    IsGreatest (prefixSums (calls.map ConcealmentCall.amount)) (run calls).concealed.samples ∧
      IsGreatest (prefixSums (amounts false calls)) (run calls).silentConcealed.samples ∧
      (∀ before, before <+: calls →
        (run before).concealed.samples ≤ (run calls).concealed.samples ∧
        (run before).silentConcealed.samples ≤ (run calls).silentConcealed.samples) ∧
      ((∀ x ∈ prefixSums (amounts true calls), 0 ≤ x) →
        (run calls).silentConcealed.samples ≤ (run calls).concealed.samples) := by
  obtain ⟨hconcealed, hs⟩ := isGreatest_run hint htotal
  refine ⟨hconcealed, hs, fun before hb => ?_, fun hv => ?_⟩
  · have hle := total_le (hb.map ConcealmentCall.amount).sublist
    obtain ⟨hconcealed₂, hs₂⟩ :=
      isGreatest_run (fun c hc => hint c (hb.subset hc)) (hle.trans_lt htotal)
    constructor
    · exact_mod_cast hconcealed₂.mono hconcealed (prefixSums_mono (hb.map _))
    · exact_mod_cast hs₂.mono hs (prefixSums_mono (hb.filterMap _))
  · obtain ⟨_, hp, hsum⟩ := hs.1
    obtain ⟨made, hm, rfl⟩ := List.prefix_filterMap_iff.mp hp
    have hnonneg := hv _ ⟨_, hm.filterMap _, rfl⟩
    have hle := hconcealed.2 ⟨_, hm.map _, rfl⟩
    rw [sum_amount] at hle
    unfold amounts at hle
    omega

/-- Corrections below and above what was added, for voice and for noise. -/
theorem concealedSamples_spec_corrected :
    let calls : List ConcealmentCall := [.expandedVoiceSamples 100 true,
      .expandedVoiceSamplesCorrection (-30), .expandedNoiseSamples 50 false,
      .expandedNoiseSamplesCorrection (-80), .expandedNoiseSamples 90 true]
    (run calls).concealed = ⟨130, 0⟩ ∧ (run calls).silentConcealed = ⟨60, 0⟩ ∧
      IsGreatest (prefixSums (calls.map ConcealmentCall.amount)) 130 ∧
      IsGreatest (prefixSums (amounts false calls)) 60 := by
  intro calls
  obtain ⟨hc, hs, -⟩ := concealedSamples_spec calls (by decide) (by decide)
  exact ⟨by decide, by decide, hc, hs⟩

/-- One sample more than an `int` holds counts as a correction. -/
theorem concealedSamples_cast :
    let calls : List ConcealmentCall := [.expandedVoiceSamples (2 ^ 31) false]
    (run calls).concealed = ⟨0, 2 ^ 31⟩ ∧
      ¬ IsGreatest (prefixSums (calls.map ConcealmentCall.amount))
        (run calls).concealed.samples := by
  intro calls
  have hrun : (run calls).concealed = ⟨0, 2 ^ 31⟩ := by decide
  refine ⟨hrun, fun h => ?_⟩
  have hle := h.2 ⟨calls.map ConcealmentCall.amount, prefix_rfl, rfl⟩
  rw [hrun] at hle
  exact absurd hle (by decide)

end ConcealmentStatistics

end WebRtcAudio.NetEq
