import WebRtcAudio.CommonAudio.VadProcess
import WebRtcAudio.Core.Run

/-! The hangover of the voice activity detector. The decision of the models is an input of each
frame. -/
namespace WebRtcAudio.CommonAudio

open WebRtcAudio.Core List

inductive VadMode where
  | quality
  | lowBitrate
  | aggressive
  | veryAggressive
  deriving DecidableEq

def VadMode.ofInt? : ℤ → Option VadMode
  | 0 => some .quality
  | 1 => some .lowBitrate
  | 2 => some .aggressive
  | 3 => some .veryAggressive
  | _ => none

def VadMode.overHangMax1 : VadMode → ℕ × ℕ × ℕ
  | quality | lowBitrate => (8, 4, 3)
  | aggressive | veryAggressive => (6, 3, 2)

def VadMode.overHangMax2 : VadMode → ℕ × ℕ × ℕ
  | quality | lowBitrate => (14, 7, 5)
  | aggressive | veryAggressive => (9, 5, 3)

def ofFrameLength (t : ℕ × ℕ × ℕ) (frameLength : ℕ) : ℕ :=
  if frameLength = 80 then t.1 else if frameLength = 160 then t.2.1 else t.2.2

def kMaxSpeechFrames : ℕ := 6

structure VadHangover where
  overHang : ℕ
  numOfSpeech : ℕ
  overHangMax1 : ℕ × ℕ × ℕ
  overHangMax2 : ℕ × ℕ × ℕ

namespace VadHangover

def setModeCore (self : VadHangover) (mode : ℤ) : VadHangover × ℤ :=
  match VadMode.ofInt? mode with
  | some m => ({ self with overHangMax1 := m.overHangMax1, overHangMax2 := m.overHangMax2 }, 0)
  | none => (self, -1)

def gmmProbability (vadflag : Bool) (self : VadHangover) (_speechNb : List ℤ) (frameLength : ℕ) :
    VadHangover × ℤ :=
  let overhead1 := ofFrameLength self.overHangMax1 frameLength
  let overhead2 := ofFrameLength self.overHangMax2 frameLength
  if vadflag = false then
    if 0 < self.overHang then
      ({ self with overHang := self.overHang - 1, numOfSpeech := 0 }, 2 + self.overHang)
    else ({ self with numOfSpeech := 0 }, 0)
  else if kMaxSpeechFrames < self.numOfSpeech + 1 then
    ({ self with numOfSpeech := kMaxSpeechFrames, overHang := overhead2 }, 1)
  else ({ self with numOfSpeech := self.numOfSpeech + 1, overHang := overhead1 }, 1)

end VadHangover

open VadHangover

def vadInit : Option (VadInst VadHangover) → Option (VadInst VadHangover) × ℤ
  | none => (none, -1)
  | some self =>
    let core := { self.core with overHang := 0, numOfSpeech := 0 }
    (some ⟨(0, 0, 0, 0), resetResample48khzTo8khz, (core.setModeCore 0).1, kInitCheck⟩, 0)

def vadSetMode (handle : Option (VadInst VadHangover)) (mode : ℤ) :
    Option (VadInst VadHangover) × ℤ :=
  match handle with
  | none => (none, -1)
  | some self =>
    if self.initFlag ≠ kInitCheck then (some self, -1)
    else (some { self with core := (self.core.setModeCore mode).1 }, (self.core.setModeCore mode).2)

inductive VadCall where
  | setMode (mode : ℤ)
  | process (vadflag : Bool) (fs : ℤ) (audioFrame : Option (List ℤ)) (frameLength : ℕ)

def vadStep (handle : Option (VadInst VadHangover)) : VadCall → Option (VadInst VadHangover) × ℤ
  | .setMode mode => vadSetMode handle mode
  | .process vadflag fs audioFrame frameLength =>
    vadProcess (gmmProbability vadflag) handle fs audioFrame frameLength

structure VadFrame where
  vadflag : Bool
  mode : VadMode
  frameLength : ℕ
  deriving DecidableEq

def VadCall.record (past : VadMode × List VadFrame) : VadCall → VadMode × List VadFrame
  | setMode mode => ((VadMode.ofInt? mode).getD past.1, past.2)
  | process vadflag fs audioFrame frameLength =>
    if audioFrame.isSome ∧ validRateAndFrameLength fs frameLength = 0 then
      (past.1, ⟨vadflag, past.1, frameLength / (fs / 8000).toNat⟩ :: past.2)
    else past

def vadHistory (calls : List VadCall) : VadMode × List VadFrame :=
  calls.foldl VadCall.record (.quality, [])

def speechRun (frames : List VadFrame) : ℕ := (frames.takeWhile (·.vadflag)).length

def hangover (last : VadFrame) (older : List VadFrame) : ℕ :=
  if kMaxSpeechFrames < speechRun (last :: older) then
    ofFrameLength last.mode.overHangMax2 last.frameLength
  else ofFrameLength last.mode.overHangMax1 last.frameLength

def hangoverLeft : List VadFrame → ℕ
  | [] => 0
  | f :: older => if f.vadflag = true then hangover f older else hangoverLeft older - 1

def VadHangover.ofHistory (past : VadMode × List VadFrame) : VadHangover :=
  ⟨hangoverLeft past.2, min kMaxSpeechFrames (speechRun past.2), past.1.overHangMax1,
    past.1.overHangMax2⟩

theorem lt_hangoverLeft_iff {frames : List VadFrame} {i : ℕ} : i < hangoverLeft frames ↔
    ∃ silence last older, frames = silence ++ last :: older ∧
      (∀ f ∈ silence, f.vadflag = false) ∧ last.vadflag = true ∧
      silence.length + i < hangover last older := by
  induction frames generalizing i with
  | nil => simp [hangoverLeft]
  | cons f older ih =>
    unfold hangoverLeft
    split_ifs with hf
    · constructor
      · exact fun h => ⟨[], f, older, rfl, by simp, hf, by simpa using h⟩
      · rintro ⟨silence, last, rest, heq, hs, -, hlt⟩
        cases silence with
        | nil =>
          obtain ⟨rfl, rfl⟩ := cons.inj heq
          simpa using hlt
        | cons g silence =>
          obtain ⟨rfl, -⟩ := cons.inj heq
          exact absurd (hs f mem_cons_self) (by simp [hf])
    · rw [Nat.lt_sub_iff_add_lt, ih]
      constructor
      · rintro ⟨silence, last, rest, rfl, hs, hl, hlt⟩
        refine ⟨f :: silence, last, rest, rfl, ?_, hl, by rw [length_cons]; omega⟩
        simpa [hf] using hs
      · rintro ⟨silence, last, rest, heq, hs, hl, hlt⟩
        cases silence with
        | nil => exact absurd ((cons.inj heq).1 ▸ hl) hf
        | cons g silence =>
          obtain ⟨rfl, rfl⟩ := cons.inj heq
          rw [length_cons] at hlt
          exact ⟨silence, last, rest, rfl, fun x hx => hs x (mem_cons_of_mem _ hx),
            hl, by omega⟩

theorem gmmProbability_ofHistory (vadflag : Bool) (mode : VadMode) (frames : List VadFrame)
    (speechNb : List ℤ) (n : ℕ) : gmmProbability vadflag (ofHistory (mode, frames)) speechNb n =
      (ofHistory (mode, ⟨vadflag, mode, n⟩ :: frames), if vadflag = true then (1 : ℤ)
        else if 0 < hangoverLeft frames then 2 + (hangoverLeft frames : ℤ) else 0) := by
  cases vadflag with
  | false =>
    by_cases h : 0 < hangoverLeft frames
    · simp [gmmProbability, ofHistory, hangoverLeft, speechRun, h]
    · simp [gmmProbability, ofHistory, hangoverLeft, speechRun, h]
      omega
  | true =>
    have hrun : speechRun (⟨true, mode, n⟩ :: frames) = speechRun frames + 1 := by
      simp [speechRun]
    have hn : (ofHistory (mode, frames)).numOfSpeech = min kMaxSpeechFrames (speechRun frames) :=
      rfl
    unfold gmmProbability
    by_cases h : kMaxSpeechFrames < speechRun frames + 1
    · rw [if_neg (by decide), if_pos (by omega)]
      simp [ofHistory, hangoverLeft, hangover, hrun, h]
      omega
    · rw [if_neg (by decide), if_neg (by omega)]
      simp [ofHistory, hangoverLeft, hangover, hrun, h]
      omega

theorem exists_decideAt8khz {C : Type} (calcVad8khz : C → List ℤ → ℕ → C × ℤ) (inst : VadInst C)
    {fs : ℤ} {n : ℕ} (hv : validRateAndFrameLength fs n = 0) (audioFrame : List ℤ) :
    ∃ next speechNb, calcVad calcVad8khz inst fs audioFrame n =
        VadInst.decideAt8khz calcVad8khz next speechNb (n / (fs / 8000).toNat) ∧
      next.core = inst.core ∧ next.initFlag = inst.initFlag := by
  have hr : fs ∈ kValidRates := by
    by_contra h
    exact absurd hv (by simp [validRateAndFrameLength, h])
  simp only [kValidRates, mem_cons, not_mem_nil, or_false] at hr
  rcases hr with rfl | rfl | rfl | rfl
  · rw [show n / (8000 / 8000 : ℤ).toNat = n from Nat.div_one n]
    exact ⟨inst, _, rfl, rfl, rfl⟩
  · exact ⟨_, _, rfl, rfl, rfl⟩
  · rw [show n / (32000 / 8000 : ℤ).toNat = n / 2 / 2 from (Nat.div_div_eq_div_mul n 2 2).symm]
    exact ⟨_, _, rfl, rfl, rfl⟩
  · exact ⟨_, _, rfl, rfl, rfl⟩

def Tracks (handle : Option (VadInst VadHangover)) (past : VadMode × List VadFrame) : Prop :=
  ∃ inst, handle = some inst ∧ inst.initFlag = kInitCheck ∧ inst.core = ofHistory past

section
variable {handle : Option (VadInst VadHangover)} {past : VadMode × List VadFrame}
  (h : Tracks handle past)
include h

theorem Tracks.process_spec {fs : ℤ} {n : ℕ}
    (hv : validRateAndFrameLength fs n = 0) (vadflag : Bool) (audioFrame : List ℤ) :
    Tracks (vadProcess (gmmProbability vadflag) handle fs (some audioFrame) n).1
        (past.1, ⟨vadflag, past.1, n / (fs / 8000).toNat⟩ :: past.2) ∧
      (vadProcess (gmmProbability vadflag) handle fs (some audioFrame) n).2 =
        if vadflag = true ∨ 0 < hangoverLeft past.2 then 1 else 0 := by
  obtain ⟨inst, rfl, hi, hcore⟩ := h
  obtain ⟨next, speechNb, hc, hn, hf⟩ :=
    exists_decideAt8khz (gmmProbability vadflag) inst hv audioFrame
  rw [VadInst.decideAt8khz, hn, hcore, gmmProbability_ofHistory] at hc
  simp only [vadProcess, hi, hv, ne_eq, not_true, if_false, hc]
  refine ⟨⟨_, rfl, hf.trans hi, rfl⟩, ?_⟩
  cases vadflag with
  | true => rfl
  | false =>
    by_cases hl : 0 < hangoverLeft past.2
    · simp [hl]
      omega
    · simp [hl]

theorem Tracks.step (call : VadCall) : Tracks (vadStep handle call).1 (call.record past) := by
  cases call with
  | setMode mode =>
    obtain ⟨inst, rfl, hi, hc⟩ := h
    have hset : (inst.core.setModeCore mode).1 =
        ofHistory (VadCall.record past (.setMode mode)) := by
      rw [hc, setModeCore, VadCall.record]
      cases VadMode.ofInt? mode <;> rfl
    exact ⟨{ inst with core := (inst.core.setModeCore mode).1 },
      by simp [vadStep, vadSetMode, hi], hi, hset⟩
  | process vadflag fs audioFrame n =>
    simp only [VadCall.record]
    split_ifs with hv
    · obtain ⟨frame, rfl⟩ := Option.isSome_iff_exists.mp hv.1
      exact (h.process_spec hv.2 vadflag frame).1
    · obtain ⟨inst, rfl, hi, hc⟩ := h
      refine ⟨inst, ?_, hi, hc⟩
      cases audioFrame with
      | none => rfl
      | some frame =>
        have hn : validRateAndFrameLength fs n ≠ 0 := fun hn => hv ⟨rfl, hn⟩
        simp only [vadStep, vadProcess, hi, hn, ne_eq, not_true, not_false_eq_true, if_true,
          if_false]

end

theorem Tracks.run (inst : VadInst VadHangover) (calls : List VadCall) :
    Tracks (runState vadStep (vadInit (some inst)).1 calls) (vadHistory calls) := by
  induction calls using reverseRecOn with
  | nil => exact ⟨_, rfl, rfl, rfl⟩
  | append_singleton calls call ih =>
    rw [runState_append, vadHistory, foldl_append]
    exact ih.step call

/-- A frame is reported as speech exactly if the models decide so, or if it is at most as many
frames after their last decision for speech as the hangover of that frame. -/
theorem vadProcess_reports_iff (inst : VadInst VadHangover) (calls : List VadCall)
    (vadflag : Bool) {fs : ℤ} (audioFrame : List ℤ) {frameLength : ℕ}
    (hvalid : validRateAndFrameLength fs frameLength = 0) :
    ∃ vad, (vadStep (runState vadStep (vadInit (some inst)).1 calls)
        (.process vadflag fs (some audioFrame) frameLength)).2 = vad ∧ (vad = 0 ∨ vad = 1) ∧
      (vad = 1 ↔ vadflag = true ∨ ∃ silence last older,
        (vadHistory calls).2 = silence ++ last :: older ∧
        (∀ f ∈ silence, f.vadflag = false) ∧ last.vadflag = true ∧
        silence.length + 1 ≤ hangover last older) := by
  refine ⟨_, ((Tracks.run inst calls).process_spec hvalid vadflag audioFrame).2, ?_, ?_⟩
  · split_ifs <;> simp
  · rw [ite_eq_left_iff, lt_hangoverLeft_iff]
    cases vadflag <;> simp [Nat.succ_le_iff]

def frameOf10ms (vadflag : Bool) : VadCall := .process vadflag 8000 (some (replicate 80 0)) 80

theorem vadProcess_reports_lastOfHangover : validRateAndFrameLength 8000 80 = 0 ∧
      (vadStep (runState vadStep
        (vadInit (some ⟨(0, 0, 0, 0), resetResample48khzTo8khz, ⟨0, 0, (0, 0, 0), (0, 0, 0)⟩, 0⟩)).1
        (replicate 7 (frameOf10ms true) ++ replicate 13 (frameOf10ms false)))
        (frameOf10ms false)).2 = 1 := by
  have hv : validRateAndFrameLength 8000 80 = 0 := by decide
  obtain ⟨vad, hvad, -, hiff⟩ := vadProcess_reports_iff
    ⟨(0, 0, 0, 0), resetResample48khzTo8khz, ⟨0, 0, (0, 0, 0), (0, 0, 0)⟩, 0⟩
    (replicate 7 (frameOf10ms true) ++ replicate 13 (frameOf10ms false)) false
    (replicate 80 0) hv
  refine ⟨hv, hvad.trans (hiff.mpr (.inr ⟨replicate 13 ⟨false, .quality, 80⟩,
    ⟨true, .quality, 80⟩, replicate 6 ⟨true, .quality, 80⟩, ?_⟩))⟩
  decide +kernel

end WebRtcAudio.CommonAudio
