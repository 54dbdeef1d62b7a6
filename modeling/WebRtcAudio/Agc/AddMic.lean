import WebRtcAudio.Agc.AgcVad
import WebRtcAudio.CommonAudio.SplRange

/-! `WebRtcAgc_AddMic`: envelope, block energies and voice activity of the microphone signal. -/
namespace WebRtcAudio.Agc

open WebRtcAudio.Core WebRtcAudio.CommonAudio Option

structure LegacyAgc where
  fs : ℕ
  filterState : FilterState
  rxx16w32Array : List ℤ × List ℤ
  env : List ℤ × List ℤ
  inQueue : ℤ
  gainTableIdx : ℕ
  micVol : ℤ
  maxLevel : ℤ
  maxAnalog : ℤ
  vadMic : AgcVad

structure MicFrame (samples : ℕ) where
  low : Vector ℤ samples
  upper : List (Vector ℤ samples)

def kGainTableAnalog : List ℤ := [
  4096, 4251, 4412, 4579, 4752, 4932, 5118, 5312, 5513, 5722, 5938,
  6163, 6396, 6638, 6889, 7150, 7420, 7701, 7992, 8295, 8609, 8934,
  9273, 9623, 9987, 10365, 10758, 11165, 11587, 12025, 12480, 12953]

def MicFrame.amplify {samples : ℕ} (frame : MicFrame samples) (gain : ℤ) : MicFrame samples where
  low := frame.low.map fun x => satW32ToW16 (x * gain / 2 ^ 12)
  upper := frame.upper.map fun band => band.map fun x => satW32ToW16 (x * gain / 2 ^ 12)

def envelope (low : List ℤ) (length : ℕ) : List ℤ :=
  (List.range 10).map fun i =>
    (((low.drop (i * length)).take length).map fun x => x * x).foldl max 0

def blockEnergy (speech : List ℤ) : ℤ := dotProductWithScale speech speech 4

def plainEnergies (low : List ℤ) : List ℤ :=
  (List.range 5).map fun i => blockEnergy ((low.drop (i * 16)).take 16)

def downsampledEnergies (low : List ℤ) (s : FilterState) : Option (List ℤ × FilterState) :=
  (List.range 5).foldlM (fun (energies, s) i => do
    let (speech, s) ← downsampleBy2 ((low.drop (i * 32)).take 32) s
    return (energies ++ [blockEnergy speech], s)) ([], s)

theorem downsampledEnergies_rest {level : ℤ} (h : IsWord16 level) :
    downsampledEnergies (List.replicate 160 level) (.rest level) =
      some (plainEnergies (List.replicate 160 level), .rest level) := by
  have hb (i : ℕ) (hi : i < 5) :
      downsampleBy2 (((List.replicate 160 level).drop (i * 32)).take 32) (.rest level) =
        some (((List.replicate 160 level).drop (i * 16)).take 16, .rest level) := by
    rw [List.drop_replicate, List.take_replicate, List.drop_replicate, List.take_replicate,
      Nat.min_eq_left (by omega), Nat.min_eq_left (by omega)]
    exact downsampleBy2_rest h 16
  simp only [downsampledEnergies, plainEnergies, List.range_succ, List.range_zero, List.nil_append,
    List.foldlM_append, List.foldlM_cons, List.foldlM_nil, hb, Nat.reduceLT, bind_eq_bind,
    bind_some, Option.pure_def, List.map_append, List.map_cons, List.map_nil]

def setRow (inQueue : ℤ) (row : List ℤ) (rows : List ℤ × List ℤ) : List ℤ × List ℤ :=
  if 0 < inQueue then (rows.1, row) else (row, rows.2)

namespace LegacyAgc

def targetGainIdx (s : LegacyAgc) : Option ℕ := do
  let excess ← int32? (s.micVol - s.maxAnalog)
  let range ← int32? (s.maxLevel - s.maxAnalog)
  if toInt16 range = 0 then none
  else some (((31 * toInt16 excess).tdiv (toInt16 range) % 2 ^ 16).toNat)

def digitalGain (s : LegacyAgc) : Option (ℕ × Option ℤ) :=
  if s.maxAnalog < s.micVol then do
    let target ← s.targetGainIdx
    let gainTableIdx :=
      if s.gainTableIdx < target then s.gainTableIdx + 1
      else if target < s.gainTableIdx then s.gainTableIdx - 1
      else s.gainTableIdx
    let gain ← kGainTableAnalog[gainTableIdx]?
    return (gainTableIdx, some gain)
  else some (0, none)

def amplified {samples : ℕ} (s : LegacyAgc) (frame : MicFrame samples) :
    Option (MicFrame samples) :=
  s.digitalGain.map fun r => r.2.elim frame frame.amplify

def blockEnergies (s : LegacyAgc) (low : List ℤ) : Option (List ℤ × FilterState) :=
  if s.fs = 16000 then downsampledEnergies low s.filterState
  else some (plainEnergies low, s.filterState)

def analyzeMic (s : LegacyAgc) (low : List ℤ) (samples gainTableIdx : ℕ) : Option LegacyAgc := do
  let (energies, filterState) ← s.blockEnergies low
  let vadMic ← s.vadMic.processVad low samples
  return { s with
    gainTableIdx, filterState, vadMic
    env := setRow s.inQueue (envelope low (if s.fs = 8000 then 8 else 16)) s.env
    rxx16w32Array := setRow s.inQueue energies s.rxx16w32Array
    inQueue := if s.inQueue = 0 then 1 else 2 }

def addMic {samples : ℕ} (s : LegacyAgc) (frame : MicFrame samples) :
    Option (LegacyAgc × MicFrame samples × ℤ) :=
  if samples = if s.fs = 8000 then 80 else 160 then do
    let (gainTableIdx, gain) ← s.digitalGain
    let frame := gain.elim frame frame.amplify
    let next ← s.analyzeMic frame.low.toList samples gainTableIdx
    return (next, frame, 0)
  else some (s, frame, -1)

abbrev Observed := (List ℤ × List ℤ) × (List ℤ × List ℤ) × FilterState × AgcVad

def observed (s : LegacyAgc) : Observed := (s.env, s.rxx16w32Array, s.filterState, s.vadMic)

def observedWith (s : LegacyAgc) (low : List ℤ) (r : List ℤ × FilterState) (vadMic : AgcVad) :
    Observed :=
  (setRow s.inQueue (envelope low 16) s.env, setRow s.inQueue r.1 s.rxx16w32Array, r.2, vadMic)

def observedAt (s : LegacyAgc) (frame : MicFrame 160) (fs : ℕ) : Option Observed :=
  (addMic { s with fs } frame).map fun r => r.1.observed

def energiesAt (s : LegacyAgc) (low : List ℤ) (fs : ℕ) : Option (List ℤ × FilterState) :=
  blockEnergies { s with fs } low

theorem observedAt_eq (s : LegacyAgc) (frame : MicFrame 160) {fs : ℕ} (hfs : fs ≠ 8000) :
    s.observedAt frame fs = (s.amplified frame).bind fun frame =>
      (s.energiesAt frame.low.toList fs).bind fun r =>
        (s.vadMic.processVad frame.low.toList 160).map (s.observedWith frame.low.toList r) := by
  have hg : digitalGain { s with fs } = s.digitalGain := rfl
  rw [observedAt, addMic, if_pos (if_neg hfs).symm, hg, amplified]
  cases s.digitalGain with
  | none => rfl
  | some gain =>
    rw [map_some, bind_some, bind_eq_bind, bind_some]
    dsimp only
    generalize (gain.2.elim frame frame.amplify) = frame
    rw [analyzeMic, ← energiesAt]
    cases s.energiesAt frame.low.toList fs with
    | none => rfl
    | some r =>
      dsimp only
      cases s.vadMic.processVad frame.low.toList 160 with
      | none => rfl
      | some vadMic =>
        simp only [observed, observedWith, if_neg hfs, bind_some, bind_eq_bind, map_some, pure]

/-- A sample after the digital gain of the state. -/
def gained (s : LegacyAgc) (x : ℤ) : Option ℤ :=
  s.digitalGain.map fun r => r.2.elim x fun gain => satW32ToW16 (x * gain / 2 ^ 12)

theorem amplified_replicate {s : LegacyAgc} {frame frame' : MicFrame 160} {level : ℤ}
    (hlow : frame.low = Vector.replicate 160 level) (hl : IsWord16 level)
    (h : s.amplified frame = some frame') : ∃ level', s.gained level = some level' ∧
      IsWord16 level' ∧ frame'.low.toList = List.replicate 160 level' := by
  obtain ⟨⟨index, gain⟩, hg, rfl⟩ := map_eq_some_iff.mp h
  cases gain with
  | none =>
    refine ⟨level, by simp [gained, hg], hl, ?_⟩
    rw [elim_none, hlow, Vector.toList_replicate]
  | some gain =>
    refine ⟨satW32ToW16 (level * gain / 2 ^ 12), ?_, isWord16_satW32ToW16 _, ?_⟩
    · simp only [gained, hg, map_some, elim_some]
    · rw [elim_some, MicFrame.amplify, hlow, Vector.map_replicate, Vector.toList_replicate]

/-- Envelope and voice activity do not depend on the rate. Block energies and filter state agree
where the low band is constant and the decimation filter rests on its level after the gain. -/
theorem observedAt_eq_of_rest (s : LegacyAgc) (frame : MicFrame 160) {level : ℤ}
    (hlevel : IsWord16 level) (hlow : frame.low = Vector.replicate 160 level)
    (hfilter : ∀ level' ∈ s.gained level, s.filterState = .rest level') {fs : ℕ}
    (hfs : fs = 32000 ∨ fs = 48000) : s.observedAt frame 16000 = s.observedAt frame fs := by
  rw [observedAt_eq s frame (by decide), observedAt_eq s frame (by omega)]
  refine bind_congr fun frame' hf' => ?_
  obtain ⟨level', hg, hw, hlow'⟩ := amplified_replicate hlow hlevel hf'
  have hwide : s.energiesAt frame'.low.toList 16000 =
      downsampledEnergies frame'.low.toList s.filterState := rfl
  have ho : s.energiesAt frame'.low.toList fs =
      some (plainEnergies frame'.low.toList, s.filterState) := by
    have hne : fs ≠ 16000 := by omega
    rw [energiesAt, blockEnergies, if_neg hne]
  rw [hwide, ho, hlow', hfilter level' hg, downsampledEnergies_rest hw]

def initial : LegacyAgc where
  fs := 16000
  filterState := ⟨⟨0, 0, 0, 0⟩, ⟨0, 0, 0, 0⟩⟩
  rxx16w32Array := (List.replicate 5 0, List.replicate 5 0)
  env := (List.replicate 10 0, List.replicate 10 0)
  inQueue := 0
  gainTableIdx := 0
  micVol := 127
  maxLevel := 255
  maxAnalog := 255
  vadMic := .init

def halfSilent (level : ℤ) : MicFrame 160 where
  low := Vector.ofFn fun i => if i < 80 then 0 else level
  upper := []

/-- A constant level of 1000, raised by the gain of a volume above the analog maximum. -/
theorem observedAt_eq_constant :
    let s := { initial with
      micVol := 255, maxAnalog := 127, gainTableIdx := 30, filterState := .rest 3162 }
    let frame : MicFrame 160 := ⟨Vector.replicate 160 1000, []⟩
    s.observedAt frame 16000 = s.observedAt frame 32000 ∧
      (s.observedAt frame 32000).map (·.2.1.1) = some (List.replicate 5 9998240) := by
  refine ⟨observedAt_eq_of_rest _ _ (by decide) rfl ?_ (.inl rfl), by decide +kernel⟩
  decide +kernel

/-- The rest is not necessary: a ripple that the scaling of the energies takes to zero. -/
example :
    let s := { initial with filterState :=
      ⟨(FilterState.rest 1).lower, (FilterState.rest 0).upper⟩ }
    let frame : MicFrame 160 := ⟨Vector.ofFn fun i => if i.val % 2 = 0 then 1 else 0, []⟩
    s.observedAt frame 16000 = s.observedAt frame 32000 := by
  decide +kernel

theorem observedAt_second_half :
    (initial.observedAt (halfSilent 1000) 32000).map (·.2.1.1) = some [0, 0, 0, 0, 0] ∧
      initial.observedAt (halfSilent 1000) 16000 ≠ initial.observedAt (halfSilent 1000) 32000 := by
  decide +kernel

end LegacyAgc

end WebRtcAudio.Agc
