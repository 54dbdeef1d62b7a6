import WebRtcAudio.CommonAudio.Resample48khz

/-! `WebRtcVad_Process`: the conversion of a frame to 8 kHz. The decision at 8 kHz is a parameter.
-/
namespace WebRtcAudio.CommonAudio

open WebRtcAudio.Core List

structure VadInst (C : Type) where
  downsamplingFilterStates : ℤ × ℤ × ℤ × ℤ
  state48To8 : State48khzTo8khz
  core : C
  initFlag : ℤ

def kInitCheck : ℤ := 42

def kValidRates : List ℤ := [8000, 16000, 32000, 48000]

def validRateAndFrameLength (rate : ℤ) (frameLength : ℕ) : ℤ :=
  if rate ∈ kValidRates ∧ ∃ ms ∈ [10, 20, 30], (frameLength : ℤ) = rate / 1000 * ms then 0 else -1

def kAllPassCoefsQ13 : ℤ × ℤ := (5243, 1392)

def vadDownsampling : List ℤ → ℤ × ℤ → List ℤ × (ℤ × ℤ)
  | [], s => ([], s)
  | [_], s => ([], s)
  | x :: y :: rest, (s₁, s₂) =>
    let upper := toInt16 (s₁ / 2 + kAllPassCoefsQ13.1 * x / 2 ^ 14)
    let s₁ := x - kAllPassCoefsQ13.1 * upper / 2 ^ 12
    let lower := toInt16 (s₂ / 2 + kAllPassCoefsQ13.2 * y / 2 ^ 14)
    let s₂ := y - kAllPassCoefsQ13.2 * lower / 2 ^ 12
    let (outs, s) := vadDownsampling rest (s₁, s₂)
    (toInt16 (upper + lower) :: outs, s)

/-- The loop of `WebRtcVad_CalcVad48khz`: the signal at 8 kHz and the state of the resampler. The
pointer to the frame is the same in each iteration. -/
def resampleFrame (speechFrame : List ℤ) : ℕ → State48khzTo8khz → List ℤ × State48khzTo8khz
  | 0, s => ([], s)
  | num10msFrames + 1, s =>
    let (out, s) := resample48khzTo8khz speechFrame s
    let (outs, s) := resampleFrame speechFrame num10msFrames s
    (out ++ outs, s)

section
variable {C : Type} (calcVad8khz : C → List ℤ → ℕ → C × ℤ)

def VadInst.decideAt8khz (inst : VadInst C) (speechNb : List ℤ) (frameLength : ℕ) : VadInst C × ℤ :=
  let (core, vad) := calcVad8khz inst.core speechNb frameLength
  ({ inst with core := core }, vad)

def calcVad48khz (inst : VadInst C) (speechFrame : List ℤ) (frameLength : ℕ) : VadInst C × ℤ :=
  let (speechNb, s) := resampleFrame speechFrame (frameLength / 480) inst.state48To8
  VadInst.decideAt8khz calcVad8khz { inst with state48To8 := s } speechNb (frameLength / 6)

def calcVad32khz (inst : VadInst C) (speechFrame : List ℤ) (frameLength : ℕ) : VadInst C × ℤ :=
  let (s₁, s₂, s₃, s₄) := inst.downsamplingFilterStates
  let (speechWb, s₃, s₄) := vadDownsampling (speechFrame.take frameLength) (s₃, s₄)
  let (speechNb, s₁, s₂) := vadDownsampling speechWb (s₁, s₂)
  VadInst.decideAt8khz calcVad8khz { inst with downsamplingFilterStates := (s₁, s₂, s₃, s₄) }
    speechNb (frameLength / 2 / 2)

def calcVad16khz (inst : VadInst C) (speechFrame : List ℤ) (frameLength : ℕ) : VadInst C × ℤ :=
  let (s₁, s₂, s₃, s₄) := inst.downsamplingFilterStates
  let (speechNb, s₁, s₂) := vadDownsampling (speechFrame.take frameLength) (s₁, s₂)
  VadInst.decideAt8khz calcVad8khz { inst with downsamplingFilterStates := (s₁, s₂, s₃, s₄) }
    speechNb (frameLength / 2)

def calcVad (inst : VadInst C) (fs : ℤ) (audioFrame : List ℤ) (frameLength : ℕ) : VadInst C × ℤ :=
  if fs = 48000 then calcVad48khz calcVad8khz inst audioFrame frameLength
  else if fs = 32000 then calcVad32khz calcVad8khz inst audioFrame frameLength
  else if fs = 16000 then calcVad16khz calcVad8khz inst audioFrame frameLength
  else if fs = 8000 then
    VadInst.decideAt8khz calcVad8khz inst (audioFrame.take frameLength) frameLength
  else (inst, -1)

def vadProcess (handle : Option (VadInst C)) (fs : ℤ) (audioFrame : Option (List ℤ))
    (frameLength : ℕ) : Option (VadInst C) × ℤ :=
  match handle, audioFrame with
  | some inst, some audioFrame =>
    if inst.initFlag ≠ kInitCheck then (inst, -1)
    else if validRateAndFrameLength fs frameLength ≠ 0 then (inst, -1)
    else
      let (inst, vad) := calcVad calcVad8khz inst fs audioFrame frameLength
      (inst, if 0 < vad then 1 else vad)
  | handle, _ => (handle, -1)

def resamplePieces : List (List ℤ) → State48khzTo8khz → List ℤ × State48khzTo8khz
  | [], s => ([], s)
  | piece :: pieces, s =>
    let (out, s) := resample48khzTo8khz piece s
    let (outs, s) := resamplePieces pieces s
    (out ++ outs, s)

def pieces (audioFrame : List ℤ) : List (List ℤ) :=
  (List.range (audioFrame.length / 480)).map fun i => (audioFrame.drop (480 * i)).take 480

def vadProcessPieces (inst : VadInst C) (audioFrame : List ℤ) : Option (VadInst C) × ℤ :=
  let (speechNb, s) := resamplePieces (pieces audioFrame) inst.state48To8
  let (inst, vad) := VadInst.decideAt8khz calcVad8khz { inst with state48To8 := s } speechNb
    (audioFrame.length / 6)
  (inst, if 0 < vad then 1 else vad)

end

variable {audioFrame : List ℤ} {s : State48khzTo8khz}

theorem resample48khzTo8khz_take (input : List ℤ) (s : State48khzTo8khz) :
    resample48khzTo8khz (input.take 480) s = resample48khzTo8khz input s := by
  unfold resample48khzTo8khz
  rw [take_take, Nat.min_self]

theorem resampleFrame_succ (audioFrame : List ℤ) (i : ℕ) (s : State48khzTo8khz) :
    resampleFrame audioFrame (i + 1) s = ((resample48khzTo8khz audioFrame s).1 ++
        (resampleFrame audioFrame i (resample48khzTo8khz audioFrame s).2).1,
        (resampleFrame audioFrame i (resample48khzTo8khz audioFrame s).2).2) := rfl

theorem resamplePieces_cons (piece : List ℤ) (ps : List (List ℤ)) (s : State48khzTo8khz) :
    resamplePieces (piece :: ps) s =
      ((resample48khzTo8khz piece s).1 ++ (resamplePieces ps (resample48khzTo8khz piece s).2).1,
        (resamplePieces ps (resample48khzTo8khz piece s).2).2) := rfl

/-- The loop reads the first piece each time. -/
theorem resampleFrame_eq_resamplePieces {ps : List (List ℤ)}
    (h : ∀ piece ∈ ps, piece = audioFrame.take 480) (s : State48khzTo8khz) :
    resampleFrame audioFrame ps.length s = resamplePieces ps s := by
  induction ps generalizing s with
  | nil => rfl
  | cons piece ps ih =>
    obtain ⟨rfl, hps⟩ := forall_mem_cons.mp h
    rw [length_cons, resampleFrame_succ, resamplePieces_cons, resample48khzTo8khz_take, ih hps]

theorem validRateAndFrameLength_48khz {frameLength : ℕ}
    (h : frameLength = 480 ∨ frameLength = 960 ∨ frameLength = 1440) :
    validRateAndFrameLength 48000 frameLength = 0 := by
  rcases h with rfl | rfl | rfl <;> decide

theorem vadProcess_eq_of_resampleFrame_eq {C : Type} (calcVad8khz : C → List ℤ → ℕ → C × ℤ)
    (inst : VadInst C) (hi : inst.initFlag = kInitCheck)
    (hl : audioFrame.length = 480 ∨ audioFrame.length = 960 ∨ audioFrame.length = 1440)
    (h : resampleFrame audioFrame (audioFrame.length / 480) inst.state48To8 =
      resamplePieces (pieces audioFrame) inst.state48To8) :
    vadProcess calcVad8khz (some inst) 48000 (some audioFrame) audioFrame.length =
      vadProcessPieces calcVad8khz inst audioFrame := by
  unfold vadProcess vadProcessPieces
  dsimp only
  rw [if_neg (not_not.mpr hi), if_neg (not_not.mpr (validRateAndFrameLength_48khz hl))]
  unfold calcVad calcVad48khz
  rw [if_pos rfl, h]

def recordSignal (_ : List ℤ) (speechNb : List ℤ) (_ : ℕ) : List ℤ × ℤ := (speechNb, 0)

theorem resampleFrame_eq_of_vadProcess_eq
    (hl : audioFrame.length = 480 ∨ audioFrame.length = 960 ∨ audioFrame.length = 1440)
    (h : vadProcess recordSignal (some ⟨(0, 0, 0, 0), s, [], kInitCheck⟩) 48000 (some audioFrame)
        audioFrame.length =
      vadProcessPieces recordSignal ⟨(0, 0, 0, 0), s, [], kInitCheck⟩ audioFrame) :
    resampleFrame audioFrame (audioFrame.length / 480) s =
      resamplePieces (pieces audioFrame) s := by
  unfold vadProcess vadProcessPieces at h
  dsimp only at h
  rw [if_neg (not_not.mpr rfl), if_neg (not_not.mpr (validRateAndFrameLength_48khz hl))] at h
  unfold calcVad calcVad48khz VadInst.decideAt8khz recordSignal at h
  rw [if_pos rfl] at h
  simp only [Prod.mk.injEq, Option.some.injEq, VadInst.mk.injEq] at h
  exact Prod.ext h.1.2.2.1 h.1.2.1

theorem vadProcess_48khz_congr {C : Type} (calcVad8khz : C → List ℤ → ℕ → C × ℤ) (inst : VadInst C)
    {f g : List ℤ} (h : f.take 480 = g.take 480) (frameLength : ℕ) :
    vadProcess calcVad8khz (some inst) 48000 (some f) frameLength =
      vadProcess calcVad8khz (some inst) 48000 (some g) frameLength := by
  have hl : ∀ n s, resampleFrame f n s = resampleFrame g n s := by
    intro n
    induction n with
    | zero => intro s; rfl
    | succ n ih =>
      intro s
      rw [resampleFrame_succ, resampleFrame_succ, ← resample48khzTo8khz_take f, h,
        resample48khzTo8khz_take, ih]
  unfold vadProcess calcVad calcVad48khz
  simp only [hl, if_true]

/-- At 48 kHz the result is that of the successive pieces of the frame if they all are the same, as
is the one piece of a frame of 10 ms. -/
theorem vadProcess_48khz_pieces {C : Type} (calcVad8khz : C → List ℤ → ℕ → C × ℤ)
    (inst : VadInst C) (hinit : inst.initFlag = kInitCheck) (audioFrame : List ℤ)
    (hlength : audioFrame.length = 480 ∨ audioFrame.length = 960 ∨ audioFrame.length = 1440)
    (hpieces : ∀ piece ∈ pieces audioFrame, piece = audioFrame.take 480) :
    vadProcess calcVad8khz (some inst) 48000 (some audioFrame) audioFrame.length =
      vadProcessPieces calcVad8khz inst audioFrame := by
  have hc : (pieces audioFrame).length = audioFrame.length / 480 := by
    rw [pieces, length_map, length_range]
  apply vadProcess_eq_of_resampleFrame_eq calcVad8khz inst hinit hlength
  rw [← hc]
  exact resampleFrame_eq_resamplePieces hpieces inst.state48To8

/-- Three times the same ramp. -/
@[irreducible] def rampFrame : List ℤ :=
  (List.range 1440).map fun i : ℕ => ((i % 480 : ℕ) : ℤ) - 200

theorem vadProcess_48khz_pieces_rampFrame : rampFrame.length = 1440 ∧
      ∀ (C : Type) (calcVad8khz : C → List ℤ → ℕ → C × ℤ) (inst : VadInst C),
        inst.initFlag = kInitCheck →
        vadProcess calcVad8khz (some inst) 48000 (some rampFrame) rampFrame.length =
          vadProcessPieces calcVad8khz inst rampFrame := by
  have hl : rampFrame.length = 1440 := by
    unfold rampFrame
    rw [length_map, length_range]
  have hp : ∀ piece ∈ pieces rampFrame, piece = rampFrame.take 480 := by
    decide +kernel
  exact ⟨hl, fun C calcVad8khz inst hi =>
    vadProcess_48khz_pieces calcVad8khz inst hi rampFrame (.inr (.inr hl)) hp⟩

/-- Silence but for one sample of 1 at the start of the second piece. -/
@[irreducible] def clickFrame : List ℤ :=
  List.replicate 480 0 ++ 1 :: List.replicate 479 0

/-- Equal pieces are not necessary: the filters take the click to zero before the frame ends. -/
example : (∃ piece ∈ pieces clickFrame, piece ≠ clickFrame.take 480) ∧
      ∀ (C : Type) (calcVad8khz : C → List ℤ → ℕ → C × ℤ) (inst : VadInst C),
        inst.initFlag = kInitCheck → inst.state48To8 = resetResample48khzTo8khz →
        vadProcess calcVad8khz (some inst) 48000 (some clickFrame) clickFrame.length =
          vadProcessPieces calcVad8khz inst clickFrame := by
  have hl : clickFrame.length = 960 := by decide +kernel
  refine ⟨by decide +kernel, fun C calcVad8khz inst hi hs => ?_⟩
  refine vadProcess_eq_of_resampleFrame_eq calcVad8khz inst hi (.inr (.inl hl)) ?_
  rw [hs, hl]
  decide +kernel

def lateOnsetFrame : List ℤ := List.replicate 480 0 ++ List.replicate 480 1000

theorem vadProcess_48khz_ignores_second_piece :
    (∀ (C : Type) (calcVad8khz : C → List ℤ → ℕ → C × ℤ) (inst : VadInst C),
      vadProcess calcVad8khz (some inst) 48000 (some lateOnsetFrame) 960 =
        vadProcess calcVad8khz (some inst) 48000 (some (List.replicate 960 0)) 960) ∧
    ¬ ∀ (C : Type) (calcVad8khz : C → List ℤ → ℕ → C × ℤ) (inst : VadInst C),
      inst.initFlag = kInitCheck → inst.state48To8 = resetResample48khzTo8khz →
      vadProcess calcVad8khz (some inst) 48000 (some lateOnsetFrame) 960 =
        vadProcessPieces calcVad8khz inst lateOnsetFrame := by
  have hl : lateOnsetFrame.length = 960 := by decide +kernel
  constructor
  · intro C calcVad8khz inst
    exact vadProcess_48khz_congr calcVad8khz inst (by decide +kernel) 960
  · intro h
    rw [← hl] at h
    have heq := resampleFrame_eq_of_vadProcess_eq (.inr (.inl hl))
      (h _ recordSignal ⟨(0, 0, 0, 0), resetResample48khzTo8khz, [], kInitCheck⟩ rfl rfl)
    have hs := congrArg (fun r => r.2.s48To24.lower.state0) heq
    exact absurd hs (by decide +kernel)

end WebRtcAudio.CommonAudio
