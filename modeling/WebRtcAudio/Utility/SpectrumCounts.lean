import WebRtcAudio.Utility.DelayEstimatorRuns

/-! The bit counts of the far end follow its spectra, so that there is always a candidate. -/
namespace WebRtcAudio.Utility

open WebRtcAudio.Core Option List

namespace BinaryDelayEstimatorFarend
variable {far far' : BinaryDelayEstimatorFarend}

def Counted (far : BinaryDelayEstimatorFarend) : Prop :=
  far.farBitCounts = far.binaryFarHistory.map bitCount

theorem Counted.eq_popCount (h : far.Counted) :
    far.farBitCounts = far.binaryFarHistory.map fun w => (popCount w : ℤ) :=
  h.trans (map_congr_left fun w _ => bitCount_eq_popCount w)

theorem bitCount_zero : bitCount 0 = 0 := by decide

theorem pushFront_map {α β : Type} (f : α → β) (l : List α) (size : ℕ) (a : α) :
    pushFront (l.map f) size (f a) = (pushFront l size a).map (map f) := by
  rw [pushFront, pushFront, Memory.memmove_map]
  cases Memory.memmove l 1 0 ((size : ℤ) - 1) with
  | none => rfl
  | some moved => exact Memory.write_map f 0 a

theorem shiftBuffer_map {α β : Type} (f : α → β) (l : List α) (dest src n pos m : ℤ) (zero : α) :
    shiftBuffer (l.map f) dest src n pos m (f zero) =
      (shiftBuffer l dest src n pos m zero).map (map f) := by
  rw [shiftBuffer, shiftBuffer, Memory.memmove_map]
  cases Memory.memmove l dest src n with
  | none => rfl
  | some moved => exact Memory.memset_map f pos m zero

theorem Counted.addSpectrum (h : far.Counted) {s : UInt32} (hadd : far.addSpectrum s = some far') :
    far'.Counted := by
  rw [BinaryDelayEstimatorFarend.addSpectrum, h, pushFront_map] at hadd
  simp only [bind_eq_bind, bind_eq_some_iff] at hadd
  obtain ⟨history, hh, counts, hco, heq⟩ := hadd
  rw [hh] at hco
  cases heq
  exact (some.inj hco).symm

theorem Counted.softReset (h : far.Counted) {shift : ℤ} (hr : far.softReset shift = some far') :
    far'.Counted := by
  rw [BinaryDelayEstimatorFarend.softReset] at hr
  by_cases hz : shift = 0
  · rw [if_pos hz] at hr
    cases hr
    exact h
  · rw [if_neg hz, h, ← bitCount_zero] at hr
    simp only [shiftBuffer_map, bind_eq_bind, bind_eq_some_iff] at hr
    obtain ⟨history, hh, counts, hco, heq⟩ := hr
    rw [hh] at hco
    cases heq
    exact (some.inj hco).symm

theorem counted_init {size : ℕ} (h : far.Sized size) (hi : far.init = some far') :
    far'.Counted := by
  have hl := h.history_length
  have hc := h.counts_length
  rw [BinaryDelayEstimatorFarend.init, h.size_eq, Memory.memset, if_pos (by omega),
    Memory.memset, if_pos (by omega)] at hi
  cases hi
  simp [Counted, bitCount_zero, drop_of_length_le, hl, hc]

end BinaryDelayEstimatorFarend

namespace BinaryDelayEstimator
variable {F : Type} {ops : FloatArith F} {e e' : BinaryDelayEstimator F} {size : ℕ}

def Call.KeepsHistorySize : Call F → Prop
  | .setHistorySize _ _ => False
  | _ => True

structure Tracks (e : BinaryDelayEstimator F) (size : ℕ) : Prop where
  sound : e.Sound
  size_eq : e.historySize = size
  counted : e.farend.Counted

theorem Tracks.step (h : e.Tracks size) {c : Call F} (hk : c.KeepsHistorySize)
    (hf : e.Fits c) (hstep : e.step ops c = some e') : e'.Tracks size := by
  obtain ⟨e'', hstep', hs⟩ := h.sound.step ops hf
  cases hstep.symm.trans hstep'
  cases c with
  | addBinaryFarSpectrum s =>
    obtain ⟨far, hadd, rfl⟩ := Option.map_eq_some_iff.mp hstep
    exact ⟨hs, h.size_eq, h.counted.addSpectrum hadd⟩
  | processBinarySpectrum s =>
    obtain ⟨e'', hp, hfar, hsized, -⟩ := processBinarySpectrum_spec ops h.sound.sized
      h.sound.consistent h.sound.two_le s
    cases hstep.symm.trans hp
    exact ⟨hs, hsized.size_eq.trans h.size_eq, by rw [hfar]; exact h.counted⟩
  | softResetFarend shift =>
    obtain ⟨far, hr, rfl⟩ := Option.map_eq_some_iff.mp hstep
    exact ⟨hs, h.size_eq, h.counted.softReset hr⟩
  | softReset shift =>
    cases hstep
    exact ⟨hs, h.size_eq, h.counted⟩
  | setLookahead lookahead =>
    cases hstep
    rw [setLookahead] at hs ⊢
    split_ifs at hs ⊢
    · exact h
    · exact ⟨hs, h.size_eq, h.counted⟩
  | setHistorySize n held => exact hk.elim

theorem Tracks.step_eq_none_iff (h : e.Tracks size) {c : Call F} (hk : c.KeepsHistorySize) :
    e.step ops c = none ↔ ¬ e.Fits c := by
  constructor
  · intro hn hf
    obtain ⟨e', hs, -⟩ := h.sound.step ops hf
    rw [hn] at hs
    exact some_ne_none e' hs.symm
  · intro hf
    cases c with
    | softResetFarend shift =>
      rw [BinaryDelayEstimator.step,
        h.sound.sized.farend.softReset_eq_none (by exact_mod_cast not_le.mp hf)]
      rfl
    | setHistorySize n held => exact hk.elim
    | _ => exact absurd trivial hf

theorem runState_none (calls : List (Call F)) : runState (stepInside ops) none calls = none := by
  induction calls with
  | nil => rfl
  | cons c calls ih => exact ih

theorem Tracks.run (ops : FloatArith F) {calls : List (Call F)}
    (hk : ∀ c ∈ calls, c.KeepsHistorySize)
    (h : e.Tracks size) : ((∀ shift, Call.softResetFarend shift ∈ calls → shift.natAbs ≤ size) →
      (runState (stepInside ops) (some e) calls).isSome) ∧
    ∀ e' ∈ runState (stepInside ops) (some e) calls, e'.Tracks size := by
  induction calls generalizing e with
  | nil => exact ⟨fun _ => rfl, fun e' he' => some.inj he' ▸ h⟩
  | cons c calls ih =>
    have hk' := fun d hd => hk d (mem_cons_of_mem c hd)
    have hc := hk c mem_cons_self
    rw [runState_cons, stepInside, bind_some]
    cases hstep : e.step ops c with
    | none =>
      refine ⟨fun hs => ?_, fun e' he' => ?_⟩
      · have hf := (h.step_eq_none_iff hc).mp hstep
        cases c with
        | softResetFarend shift =>
          exact absurd ((hs shift mem_cons_self).trans_eq h.size_eq.symm) hf
        | setHistorySize n held => exact hc.elim
        | _ => exact absurd trivial hf
      · rw [runState_none] at he'
        exact absurd he' (not_mem_none e')
    | some e₁ =>
      have hf : e.Fits c := by
        by_contra hf
        rw [(h.step_eq_none_iff hc).mpr hf] at hstep
        exact some_ne_none e₁ hstep.symm
      obtain ⟨hsome, ht⟩ := ih hk' (h.step hc hf hstep)
      exact ⟨fun hs => hsome fun shift hmem => hs shift (mem_cons_of_mem c hmem),
        ht⟩

/-- As long as the size of the history is kept, the smoothed bit counts are below the largest one,
each bit count of the far end is that of its spectrum, and a candidate is found without overflow. -/
theorem candidate_of_run (ops : FloatArith F) {historySize maxLookahead : ℤ}
    (hsize : 2 ≤ historySize)
    (hlookahead : 0 ≤ maxLookahead) (robust : Bool) (allowedOffset : ℤ) (held : Held F)
    (calls : List (Call F)) (hkeep : ∀ c ∈ calls, c.KeepsHistorySize) :
    ∃ e, start ops historySize maxLookahead robust allowedOffset held = some e ∧
      ((∀ shift, Call.softResetFarend shift ∈ calls → shift.natAbs ≤ historySize.toNat) →
        (runState (stepInside ops) (some e) calls).isSome) ∧
      ∀ e' ∈ runState (stepInside ops) (some e) calls, (e'.historySize : ℤ) = historySize ∧
        (∀ i < e'.historySize, ∃ m, e'.meanBitCounts[i]? = some m ∧ 0 ≤ m ∧ m < 32 * 2 ^ 9) ∧
        e'.farend.binaryFarHistory.length = e'.historySize ∧
        e'.farend.farBitCounts = e'.farend.binaryFarHistory.map (fun w => (popCount w : ℤ)) ∧
        (∃ far, e'.farend.init = some far ∧
          far.farBitCounts = far.binaryFarHistory.map fun w => (popCount w : ℤ)) ∧
        ∀ s, ∃ e'' v, e'.findCandidate updateMeanBitCounts s = some (e'', v) ∧
          e'.findCandidate updateMeanBitCounts? s = some (e'', v) ∧
          0 ≤ v.candidateDelay ∧ v.candidateDelay < historySize := by
  have hgt : 1 < historySize := by omega
  obtain ⟨e, hstart, hsound, hsize_eq, far, hsized, hinit⟩ :=
    start_spec ops hgt hlookahead robust allowedOffset held
  have ht : e.Tracks historySize.toNat :=
    ⟨hsound, hsize_eq, BinaryDelayEstimatorFarend.counted_init hsized hinit⟩
  obtain ⟨hsome, hread⟩ := ht.run ops hkeep
  refine ⟨e, hstart, hsome, fun e' he' => ?_⟩
  have h' := hread e' he'
  have hsize' := h'.size_eq
  have hs' := h'.sound.sized
  obtain ⟨far', hinit', -⟩ := farend_init_spec hs'.farend
  refine ⟨by omega, fun i hi => ?_, hs'.farend.history_length, h'.counted.eq_popCount,
    ⟨far', hinit',
      (BinaryDelayEstimatorFarend.counted_init hs'.farend hinit').eq_popCount⟩, fun s => ?_⟩
  · have hlength := hs'.means_length
    obtain ⟨m, hmem, hr⟩ := Memory.read_spec (l := e'.meanBitCounts.take e'.historySize)
      (i := i) (by omega) (by rw [length_take]; omega)
    rw [Memory.read_take (by omega), Memory.read_natCast] at hr
    exact ⟨m, hr, hs'.means_bounds m hmem⟩
  · obtain ⟨e'', v, hf, hf32, -, hl, hu⟩ :=
      findCandidate_spec h'.sound.sized h'.sound.consistent h'.sound.two_le s
    exact ⟨e'', v, hf, hf32, hl, by omega⟩

def spectraCalls : List (Call ℚ) :=
  [.addBinaryFarSpectrum 0xFFFFFFFF, .addBinaryFarSpectrum 5, .processBinarySpectrum 0xFFFFFFFF,
    .softResetFarend 1]

theorem candidate_of_spectraCalls : ∃ e, start exactArith 4 1 false 0 heldOnes = some e ∧
      ∃ e' ∈ runState (stepInside exactArith) (some e) spectraCalls,
        e'.farend.farBitCounts = [0, 2, 32, 0] ∧
        ∃ e'' v, e'.findCandidate updateMeanBitCounts? 5 = some (e'', v) ∧
          0 ≤ v.candidateDelay ∧ v.candidateDelay < 4 := by
  have hk : ∀ c ∈ spectraCalls, c.KeepsHistorySize := by
    simp [spectraCalls, Call.KeepsHistorySize]
  have hsize : (2 : ℤ) ≤ 4 := by decide
  have hl : (0 : ℤ) ≤ 1 := by decide
  obtain ⟨e, hs, hsome, hr⟩ :=
    candidate_of_run exactArith hsize hl false 0 heldOnes spectraCalls hk
  obtain ⟨e', he'⟩ := Option.isSome_iff_exists.mp (hsome (by simp [spectraCalls]))
  refine ⟨e, hs, e', he', ?_, ?_⟩
  · cases hs.symm.trans start_fourDelays
    have hc : (runState (stepInside exactArith) (some fourDelays) spectraCalls).map
        (fun e => e.farend.farBitCounts) = some [0, 2, 32, 0] := by decide +kernel
    rw [he'] at hc
    exact some.inj hc
  · obtain ⟨-, -, -, -, -, hf⟩ := hr e' he'
    obtain ⟨e'', v, -, hf32, hv⟩ := hf 5
    exact ⟨e'', v, hf32, hv⟩

end BinaryDelayEstimator

end WebRtcAudio.Utility
