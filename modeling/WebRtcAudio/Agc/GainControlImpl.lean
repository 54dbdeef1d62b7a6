import Mathlib.Order.Bounds.Basic
import WebRtcAudio.Apm.Submodules

/-! `GainControlImpl::ProcessCaptureAudio`: the gain curve of one channel is applied to all of
them. -/
namespace WebRtcAudio.Agc

open WebRtcAudio.Apm List

/-- What `WebRtcAgc_Analyze` leaves behind for a channel. The gains are those at the borders of the
ten parts of a frame. -/
structure Analysis where
  error : Bool := false
  newCaptureLevel : ℤ := 0
  saturationWarning : Bool := false
  gains : Fin 11 → ℤ

structure GainControlImpl extends GainControl where
  analogCaptureLevel : ℤ := 0
  wasAnalogLevelSet : Bool := false
  streamIsSaturated : Bool := false
  captureLevels : List ℤ := []

def finalGain (analyses : List Analysis) (ch : ℕ) : ℤ :=
  analyses[ch]?.elim 0 fun analysis => analysis.gains 10

def chooseGain (analyses : List Analysis) (indexToApply ch : ℕ) : ℕ :=
  if finalGain analyses indexToApply < finalGain analyses ch then ch else indexToApply

def indexToApply (analyses : List Analysis) : ℕ :=
  (range' 1 (analyses.length - 1)).foldl (chooseGain analyses) 0

def minimumLevel : List ℤ → ℤ
  | [] => 0
  | level :: levels => levels.foldl min level

def GainControlImpl.processCaptureAudio (g : GainControlImpl) (analyses : List Analysis) :
    GainControlImpl × ErrorCode × Option (Fin 11 → ℤ) :=
  if g.mode = .kAdaptiveAnalog ∧ g.wasAnalogLevelSet = false then
    (g, .kStreamParameterNotSetError, none)
  else
    let captureLevels := analyses.map (·.newCaptureLevel)
    let gains := analyses[indexToApply analyses]?.map (·.gains)
    let g := { g with
      streamIsSaturated := analyses.any (·.saturationWarning)
      captureLevels
      analogCaptureLevel :=
        if g.mode = .kAdaptiveAnalog then minimumLevel captureLevels else g.analogCaptureLevel }
    if analyses.any (·.error) then (g, .kUnspecifiedError, gains)
    else ({ g with wasAnalogLevelSet := false }, .kNoError, gains)

section Choice

variable (analyses : List Analysis)

/-- After the iterations for the channels up to a given one, the index is one of them, and none of
them has a larger final gain. -/
theorem foldl_chooseGain (n : ℕ) : (range' 1 n).foldl (chooseGain analyses) 0 ≤ n ∧ ∀ ch ≤ n,
      finalGain analyses ch ≤ finalGain analyses ((range' 1 n).foldl (chooseGain analyses) 0) := by
  induction n with
  | zero => simp
  | succ n ih =>
    rw [range'_1_concat, foldl_append, foldl_cons, foldl_nil]
    generalize (range' 1 n).foldl (chooseGain analyses) 0 = index at ih ⊢
    obtain ⟨hi, hmax⟩ := ih
    unfold chooseGain
    rw [Nat.add_comm 1 n]
    split
    · next hl =>
      refine ⟨le_rfl, fun ch hch => ?_⟩
      rcases Nat.le_succ_iff.mp hch with hle | rfl
      · exact (hmax ch hle).trans hl.le
      · exact le_rfl
    · next hnot =>
      refine ⟨Nat.le_succ_of_le hi, fun ch hch => ?_⟩
      rcases Nat.le_succ_iff.mp hch with hle | rfl
      · exact hmax ch hle
      · exact not_lt.mp hnot

theorem indexToApply_spec (h : analyses ≠ []) :
    ∃ analysis ∈ analyses, analyses[indexToApply analyses]? = some analysis ∧
      ∀ other ∈ analyses, other.gains 10 ≤ analysis.gains 10 := by
  have hpos : 0 < analyses.length := length_pos_iff.mpr h
  obtain ⟨hi, hmax⟩ := foldl_chooseGain analyses (analyses.length - 1)
  change indexToApply analyses ≤ _ at hi
  change ∀ ch ≤ analyses.length - 1, _ ≤ finalGain analyses (indexToApply analyses) at hmax
  have hlt : indexToApply analyses < analyses.length := by omega
  have hget : analyses[indexToApply analyses]? = some analyses[indexToApply analyses] :=
    getElem?_eq_getElem hlt
  refine ⟨analyses[indexToApply analyses], getElem_mem hlt, hget, fun other ho => ?_⟩
  obtain ⟨ch, hch, rfl⟩ := mem_iff_getElem.mp ho
  have hle := hmax ch (by omega)
  simpa only [finalGain, getElem?_eq_getElem hch, hget, Option.elim_some] using hle

end Choice

def IsMinimalCurve (analyses : List Analysis) (gains : Fin 11 → ℤ) : Prop :=
  (∃ analysis ∈ analyses, analysis.gains = gains) ∧
    ∀ analysis ∈ analyses, gains 10 ≤ analysis.gains 10

theorem GainControlImpl.processCaptureAudio_gains {g : GainControlImpl}
    (hset : ¬ (g.mode = .kAdaptiveAnalog ∧ g.wasAnalogLevelSet = false))
    (analyses : List Analysis) :
    (g.processCaptureAudio analyses).2.2 = analyses[indexToApply analyses]?.map (·.gains) := by
  simp only [processCaptureAudio, if_neg hset]
  split <;> rfl

/-- For any number of channels, the curve that is applied to all of them is one with the smallest
final gain exactly if all final gains are the same. -/
theorem GainControlImpl.processCaptureAudio_minimal_iff (g : GainControlImpl)
    (hset : ¬ (g.mode = .kAdaptiveAnalog ∧ g.wasAnalogLevelSet = false))
    (analyses : List Analysis) (hchannels : analyses ≠ []) :
    (∃ gains ∈ (g.processCaptureAudio analyses).2.2, IsMinimalCurve analyses gains) ↔
      ∀ a ∈ analyses, ∀ b ∈ analyses, a.gains 10 = b.gains 10 := by
  obtain ⟨chosen, hchosen, hget, hmax⟩ := indexToApply_spec analyses hchannels
  rw [processCaptureAudio_gains hset, hget]
  simp only [Option.map_some, Option.mem_some_iff, exists_eq_left']
  constructor
  · rintro ⟨-, hmin⟩ a ha b hb
    -- the chosen gain is the largest and the smallest one
    have hall : ∀ c ∈ analyses, c.gains 10 = chosen.gains 10 := fun c hc =>
      le_antisymm (hmax c hc) (hmin c hc)
    rw [hall a ha, hall b hb]
  · intro hs
    exact ⟨⟨chosen, hchosen, rfl⟩, fun analysis hmem => (hs chosen hchosen analysis hmem).le⟩

/-- Three channels whose curves rise, fall and stay, and end at the same gain. -/
def meetingCurves : List Analysis :=
  [{ gains := fun i => 60536 + 500 * i.val }, { gains := fun i => 75536 - 1000 * i.val },
    { gains := fun _ => 65536 }]

theorem GainControlImpl.processCaptureAudio_minimal_meeting :
    ∃ gains ∈ (({ mode := .kFixedDigital } : GainControlImpl).processCaptureAudio
      meetingCurves).2.2, IsMinimalCurve meetingCurves gains :=
  (GainControlImpl.processCaptureAudio_minimal_iff { mode := .kFixedDigital } (by decide)
    meetingCurves (by simp [meetingCurves])).mpr (by decide)

theorem GainControlImpl.processCaptureAudio_applies_maximum :
    let analyses : List Analysis := [{ gains := fun _ => 131072 }, { gains := fun _ => 65536 }]
    let r := ({ mode := .kFixedDigital } : GainControlImpl).processCaptureAudio analyses
    r.2.1 = .kNoError ∧ (r.2.2.map fun gains => gains 10) = some 131072 ∧
      finalGain analyses 1 = 65536 := by
  decide

end WebRtcAudio.Agc
