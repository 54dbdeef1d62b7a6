import WebRtcAudio.Aec3.CaptureFraming

/-! The linear output framer, drained by the calls that pass a buffer and refilled by every second
call. -/
namespace WebRtcAudio.Aec3

open List

def SizeCheck.FramerBalanced : SizeCheck → Prop
  | .insertBlock _ buffer => buffer = 0
  | .insertBlockAndExtract buffer _ _ => buffer ≤ kBlockSize
  | _ => True

def LinearChecksBalanced (checks : List (FramingComponent × SizeCheck)) : Prop :=
  ∀ e ∈ checks, e.1 = .linearOutputFramer → e.2.FramerBalanced

theorem SizeCheck.Passes.framerBalanced {check : SizeCheck} (h : check.Passes) :
    check.FramerBalanced := by
  cases check with
  | insertSubFrame => trivial
  | extractBlock => trivial
  | insertBlock => exact h.2.symm
  | insertBlockAndExtract => exact h.2.2.1

def LinearChecksPass (checks : List (FramingComponent × SizeCheck)) : Prop :=
  ∀ e ∈ checks, e.1 = .linearOutputFramer → e.2.Passes

section
variable {checks : List (FramingComponent × SizeCheck)} {l : List SizeCheck}

theorem LinearChecksPass.balanced (h : LinearChecksPass checks) : LinearChecksBalanced checks :=
  fun e he heq => (h e he heq).framerBalanced

theorem LinearChecksPass.append (h : LinearChecksPass checks) (component : FramingComponent)
    (hl : component = .linearOutputFramer → ∀ e ∈ l, e.Passes) :
    LinearChecksPass (checks ++ l.map (component, ·)) := by
  intro e he heq
  rcases mem_append.mp he with he | he
  · exact h e he heq
  · obtain ⟨c, hc, rfl⟩ := mem_map.mp he
    exact hl heq c hc

end

namespace EchoCanceller3
variable {σ α : Type*} {nb nc nrc : ℕ} {s : EchoCanceller3 σ α nb nc nrc}
variable {P : BlockProcessorOps σ α nb nc nrc}

/-- The linear output framer holds `m` samples, and its checks have passed. -/
structure LinearAt (m : ℕ) (s : EchoCanceller3 σ α nb nc nrc) : Prop where
  framer : ∃ f, s.linearOutputFramer = some f ∧ f.buffer.HasLength m
  block : ∃ b, s.linearOutputBlock = some b ∧ b.HasLength kBlockSize
  checks : LinearChecksPass s.checks

def drained (linear : Option (Banded 1 nc (List α))) : ℕ := if linear.isSome then 16 else 0

section
variable {m i : ℕ} (h : LinearAt m s) {linear : Option (Banded 1 nc (List α))}
  (hl : ∀ x ∈ linear, x.HasLength kSplitBandSize) (hi : i ≤ 1) (hm : drained linear ≤ m)
  (hm' : m ≤ kBlockSize)
include h hl hi hm hm'

theorem frameLinearOutput_linearAt :
    LinearAt (m - drained linear) (s.frameLinearOutput i linear).1 ∧
      (s.frameLinearOutput i linear).2.isSome = linear.isSome ∧
      ∀ x ∈ (s.frameLinearOutput i linear).2, x.HasLength kSplitBandSize := by
  obtain ⟨⟨f, hf, hlen⟩, ⟨b, hb, hblock⟩, hc⟩ := h
  cases linear with
  | none => exact ⟨⟨⟨f, hf, hlen⟩, ⟨b, hb, hblock⟩, hc⟩, rfl, hl⟩
  | some out =>
    simp only [frameLinearOutput, hf, hb]
    have hout := hl out rfl
    have hv := fillSubFrameView_length hout hi
    obtain ⟨hlen', hsub⟩ := BlockFramer.insertBlockAndExtract_length hm hm' hlen hblock
    refine ⟨⟨⟨_, rfl, hlen'⟩, ⟨b, hb, hblock⟩, hc.append _ fun _ => ?_⟩, rfl, ?_⟩
    · exact BlockFramer.insertBlockAndExtractChecks_pass hm hm' hlen hblock hv
    · rintro _ ⟨rfl⟩
      exact storeSubFrameView_length hout hsub hi

omit h hl hi hm hm' in
theorem length_processCapture_linear (gain sat : Bool) (state : σ)
    {linear : Option (Banded 1 nc (List α))} (block : Banded nb nc (List α))
    (h : ∃ b, linear = some b ∧ b.HasLength kBlockSize) :
    ∃ b, (P.processCapture gain sat state linear block).2.1 = some b ∧ b.HasLength kBlockSize := by
  obtain ⟨b, rfl, hb⟩ := h
  have hlen := P.length_linearOutput gain sat state (some b) block
  obtain ⟨b', hb', heq⟩ := Option.map_eq_some_iff.mp hlen
  refine ⟨b', hb', fun band channel => ?_⟩
  exact (congrFun (congrFun heq band) channel).trans (hb band channel)

theorem processCaptureFrameContent_linearAt (capture : Banded nb nc (List α)) (gain sat : Bool) :
    let r := processCaptureFrameContent P s linear capture gain sat i
    LinearAt (m - drained linear) r.1 ∧ r.2.1.isSome = linear.isSome ∧
      ∀ x ∈ r.2.1, x.HasLength kSplitBandSize := by
  set r₀ := processCaptureFrameContent P s none capture gain sat i with hr₀
  have h₀ : LinearAt m r₀.1 := ⟨h.framer, ?_, ?_⟩
  · exact frameLinearOutput_linearAt h₀ hl hi hm hm'
  · exact length_processCapture_linear _ _ _ _ h.block
  · exact (h.checks.append .captureBlocker (by simp)).append .outputFramer (by simp)

end

theorem insertLinearBlock_linearAt [NeZero nc] {m : ℕ} (h : LinearAt m s) :
    (m = 0 → LinearAt kBlockSize s.insertLinearBlock) ∧
      (LinearChecksBalanced s.insertLinearBlock.checks → m = 0) := by
  obtain ⟨⟨f, hf, hlen⟩, ⟨b, hb, hblock⟩, hc⟩ := h
  have hr : s.insertLinearBlock =
      { s.record .linearOutputFramer (f.insertBlockChecks b) with
        linearOutputFramer := some (f.insertBlock b) } := by
    simp only [insertLinearBlock, hf, hb]
  rw [hr]
  constructor
  · rintro rfl
    refine ⟨⟨_, rfl, BlockFramer.insertBlock_length hlen hblock⟩, ⟨b, hb, hblock⟩,
      hc.append _ fun _ => ?_⟩
    exact BlockFramer.insertBlockChecks_pass hlen hblock
  · intro hbalanced
    have hmem : SizeCheck.insertBlock (b 0 0).length (f.buffer 0 0).length ∈
        f.insertBlockChecks b := Banded.mem_toList.mpr ⟨0, 0, rfl⟩
    have h0 := hbalanced _ (mem_append_right _ (mem_map_of_mem hmem)) rfl
    exact (hlen 0 0).symm.trans h0

variable {k m : ℕ}

theorem processRemainingCaptureFrameContent_linearAt [NeZero nb] [NeZero nc]
    (hc : CaptureBalanced k s) (h : LinearAt m s) (gain sat : Bool) :
    let r := processRemainingCaptureFrameContent P s gain sat
    (k ≠ kBlockSize → LinearAt m r) ∧
      (k = kBlockSize → (m = 0 → LinearAt kBlockSize r) ∧
        (LinearChecksBalanced r.checks → m = 0)) := by
  intro r
  constructor
  · intro hk
    have hr : r = s := if_neg (mt (FrameBlocker.isBlockAvailable_iff hc.blocker).mp hk)
    rwa [hr]
  · intro hk
    have hr : r = _ := if_pos ((FrameBlocker.isBlockAvailable_iff hc.blocker).mpr hk)
    rw [hr]
    refine insertLinearBlock_linearAt ⟨h.framer, ?_, ?_⟩
    · exact length_processCapture_linear _ _ _ _ h.block
    · exact (h.checks.append .captureBlocker (by simp)).append .outputFramer (by simp)

theorem bufferRenderFrame_linearAt [NeZero nb] [NeZero nrc] (h : LinearAt m s)
    (frame : Banded nb nrc (List α)) : LinearAt m (bufferRenderFrame P s frame) := by
  have h₂ : LinearAt m
      (bufferRenderFrameContent P (bufferRenderFrameContent P s frame 0) frame 1) :=
    ⟨h.framer, h.block, (h.checks.append .renderBlocker (by simp)).append .renderBlocker (by simp)⟩
  unfold bufferRenderFrame bufferRemainingRenderFrameContent
  split
  · exact ⟨h₂.framer, h₂.block, h₂.checks.append .renderBlocker (by simp)⟩
  · exact h₂

theorem emptyRenderQueue_linearAt [NeZero nb] [NeZero nrc] (h : LinearAt m s)
    (frames : List (Banded nb nrc (List α))) : LinearAt m (emptyRenderQueue P s frames) := by
  induction frames generalizing s with
  | nil => exact h
  | cons f fs ih => exact ih (bufferRenderFrame_linearAt h f)

variable [NeZero nb] [NeZero nc] [NeZero nrc]

def callDrained (c : CaptureCall α nb nc nrc) : ℕ := drained c.linearOutput + drained c.linearOutput

theorem processFrame_linearAt (hf : Framed k s) (h : LinearAt m s) (c : CaptureCall α nb nc nrc)
    {capture : Banded nb nc (List α)} (hcapture : capture.HasLength kSplitBandSize)
    (hm : callDrained c ≤ m) (hm' : m ≤ kBlockSize) :
    let r := (processFrame P s c capture).1
    (k = 0 → LinearAt (m - callDrained c) r) ∧
      (k = 32 → (m - callDrained c = 0 → LinearAt kBlockSize r) ∧
        (LinearChecksBalanced r.checks → m - callDrained c = 0)) := by
  have hle := hf.start.le
  have hs : m - callDrained c = m - drained c.linearOutput - drained c.linearOutput := by
    rw [callDrained, Nat.sub_sub]
  unfold callDrained at hm
  obtain ⟨j, hj, hr⟩ := hf.render
  obtain ⟨hc₀, -, -⟩ :=
    emptyRenderQueue_spec (P := P) hj hf.capture hr c.renderFrames c.length_renderFrames
  obtain ⟨hc₁, -, -, -, out₁, ho₁, hl₁, -⟩ := processCaptureFrameContent_spec (P := P)
    (by omega) zero_le_one hc₀ hcapture c.linearOutput c.levelChange
    c.saturatedMicrophoneSignal
  have hcap := storeSubFrameView_length hcapture hl₁ zero_le_one
  rw [← ho₁] at hcap
  obtain ⟨h₁, hsome, hlinear⟩ := processCaptureFrameContent_linearAt (P := P)
    (emptyRenderQueue_linearAt h c.renderFrames) c.length_linear zero_le_one (by omega) hm' capture
    c.levelChange c.saturatedMicrophoneSignal
  set a := processCaptureFrameContent P (emptyRenderQueue P s c.renderFrames) c.linearOutput
    capture c.levelChange c.saturatedMicrophoneSignal 0 with ha
  have hdr : drained a.2.1 = drained c.linearOutput := by rw [drained, hsome, drained]
  obtain ⟨hc₂, -⟩ := processCaptureFrameContent_spec (P := P) (by omega) le_rfl hc₁ hcap
    a.2.1 c.levelChange c.saturatedMicrophoneSignal
  obtain ⟨h₂, -⟩ := processCaptureFrameContent_linearAt (P := P) h₁ hlinear le_rfl
    (by rw [hdr]; omega) (by omega) a.2.2 c.levelChange c.saturatedMicrophoneSignal
  rw [hdr, ← hs] at h₂
  obtain ⟨hk, hfill⟩ := processRemainingCaptureFrameContent_linearAt (P := P) hc₂ h₂
    c.levelChange c.saturatedMicrophoneSignal
  constructor
  · rintro rfl
    exact hk (by decide)
  · rintro rfl
    exact hfill rfl

/-- The delay of the capture signal does not reach the linear output framer. -/
theorem processCapture_linearAt (hf : Framed k s) (h : LinearAt m s) (c : CaptureCall α nb nc nrc)
    (hm : callDrained c ≤ m) (hm' : m ≤ kBlockSize) : let r := (processCapture P s c).1
    (k = 0 → LinearAt (m - callDrained c) r) ∧
      (k = 32 → (m - callDrained c = 0 → LinearAt kBlockSize r) ∧
        (LinearChecksBalanced r.checks → m - callDrained c = 0)) := by
  obtain ⟨-, hlength, -⟩ := delayCapture_spec hf.delay c.length_capture
  obtain ⟨hfirst, hs⟩ := processFrame_linearAt (P := P) hf h c hlength hm hm'
  have hkeep {n : ℕ} (hn : LinearAt n (processFrame P s c _).1) :
      LinearAt n (processCapture P s c).1 := ⟨hn.framer, hn.block, hn.checks⟩
  exact ⟨fun hk => hkeep (hfirst hk), fun hk =>
    ⟨fun hz => hkeep ((hs hk).1 hz), (hs hk).2⟩⟩

/-- The linear output framer never held more than a block, neither now nor before an operation,
and was empty at every `InsertBlock`. -/
structure LinearFramerBalanced (s : EchoCanceller3 σ α nb nc nrc) : Prop where
  checks : LinearChecksBalanced s.checks
  buffer : ∀ f ∈ s.linearOutputFramer, ∀ band channel,
    (f.buffer band channel).length ≤ kBlockSize

omit [NeZero nb] [NeZero nc] [NeZero nrc] in
theorem LinearAt.balanced (h : LinearAt m s) (hm : m ≤ kBlockSize) : LinearFramerBalanced s := by
  obtain ⟨⟨f, hf, hlen⟩, -, hc⟩ := h
  refine ⟨hc.balanced, fun g hg band channel => ?_⟩
  obtain rfl : f = g := Option.some.inj (hf.symm.trans hg)
  exact (hlen band channel).trans_le hm

def LinearOutputsPaired : List (CaptureCall α nb nc nrc) → Prop
  | a :: b :: rest =>
    a.linearOutput.isSome = true ∧ b.linearOutput.isSome = true ∧ LinearOutputsPaired rest
  | _ => True

omit [NeZero nb] [NeZero nc] [NeZero nrc] in
theorem callDrained_le (c : CaptureCall α nb nc nrc) : callDrained c ≤ 32 := by
  unfold callDrained drained
  split <;> omega

omit [NeZero nb] [NeZero nc] [NeZero nrc] in
theorem callDrained_pair_iff (a b : CaptureCall α nb nc nrc) :
    kBlockSize - callDrained a - callDrained b = 0 ↔
      a.linearOutput.isSome = true ∧ b.linearOutput.isSome = true := by
  unfold callDrained drained
  rw [kBlockSize_eq]
  cases a.linearOutput <;> cases b.linearOutput <;> simp

/-- Two calls from an empty capture blocker keep the balance exactly when both pass a linear
output, and then they return to where they started. -/
theorem processCapture_pair (hf : Framed 0 s) (h : LinearAt kBlockSize s)
    (a b : CaptureCall α nb nc nrc) : let t := (processCapture P s a).1
    let u := (processCapture P t b).1
    LinearAt (kBlockSize - callDrained a) t ∧
      (LinearChecksBalanced u.checks →
        a.linearOutput.isSome = true ∧ b.linearOutput.isSome = true) ∧
      (a.linearOutput.isSome = true ∧ b.linearOutput.isSome = true →
        Framed 0 u ∧ LinearAt kBlockSize u) := by
  intro t u
  have ha := callDrained_le a
  have hb := callDrained_le b
  have hsize := kBlockSize_eq
  obtain ⟨hfa, -⟩ := processCapture_spec (P := P) hf a
  obtain ⟨hfb, -⟩ := processCapture_spec (P := P) hfa b
  have hla := (processCapture_linearAt (P := P) hf h a (by omega) le_rfl).1 rfl
  have hlb := (processCapture_linearAt (P := P) hfa hla b (by omega) (by omega)).2 rfl
  refine ⟨hla, ?_, ?_⟩
  · intro hbalanced
    exact (callDrained_pair_iff a b).mp (hlb.2 hbalanced)
  · intro hp
    exact ⟨hfb, hlb.1 ((callDrained_pair_iff a b).mpr hp)⟩

/-- Any property between a framer of at most a block with passed checks and balanced checks holds
along a run exactly when the linear outputs are paired. -/
theorem run_linear_iff {Good : EchoCanceller3 σ α nb nc nrc → Prop}
    (hg : ∀ {t m}, LinearAt m t → m ≤ kBlockSize → Good t)
    (hb : ∀ {t}, Good t → LinearChecksBalanced t.checks) (hf : Framed 0 s)
    (h : LinearAt kBlockSize s) (calls : List (CaptureCall α nb nc nrc)) :
    (∀ pre, pre <+: calls → Good (Core.runState (processCapture P) s pre)) ↔
      LinearOutputsPaired calls := by
  induction calls using LinearOutputsPaired.induct generalizing s with
  | case1 a b rest ih =>
    obtain ⟨hfirst, hboth, hback⟩ := processCapture_pair (P := P) hf h a b
    constructor
    · intro hall
      have hp := hboth (hb (hall [a, b] (prefix_append [a, b] rest)))
      obtain ⟨hf', h'⟩ := hback hp
      refine ⟨hp.1, hp.2, (ih hf' h').mp fun pre hpre => ?_⟩
      exact hall (a :: b :: pre) ((prefix_append_right_inj [a, b]).mpr hpre)
    · rintro ⟨hsa, hsb, hr⟩ pre hpre
      obtain ⟨hf', h'⟩ := hback ⟨hsa, hsb⟩
      rcases prefix_cons_iff.mp hpre with rfl | ⟨pre₁, rfl, hpre₁⟩
      · exact hg h le_rfl
      rcases prefix_cons_iff.mp hpre₁ with rfl | ⟨pre₂, rfl, hpre₂⟩
      · exact hg hfirst (Nat.sub_le _ _)
      · exact (ih hf' h').mpr hr pre₂ hpre₂
  | case2 calls hs =>
    refine ⟨fun _ => ?_, fun _ pre hpre => ?_⟩
    · unfold LinearOutputsPaired
      split
      · exact absurd rfl (hs _ _ _)
      · trivial
    · cases calls with
      | nil =>
        rw [prefix_nil.mp hpre]
        exact hg h le_rfl
      | cons a rest =>
        obtain rfl : rest = [] := by
          cases rest with
          | nil => rfl
          | cons b rest => exact absurd rfl (hs a b rest)
        rcases prefix_cons_iff.mp hpre with rfl | ⟨pre₁, rfl, hpre₁⟩
        · exact hg h le_rfl
        · rw [prefix_nil.mp hpre₁]
          exact hg (processCapture_pair (P := P) hf h a a).1 (Nat.sub_le _ _)

omit [NeZero nb] [NeZero nc] [NeZero nrc] in
theorem create_linearAt [Zero α] (delay : ℕ) (processor : σ) :
    LinearAt kBlockSize (create true delay processor : EchoCanceller3 σ α nb nc nrc) where
  framer := ⟨_, rfl, fun _ _ => length_replicate⟩
  block := ⟨_, rfl, fun _ _ => length_replicate⟩
  checks := by simp [create, LinearChecksPass]

variable (P) in
/-- Along a run the linear output framer stays balanced exactly when both calls of every
completed pair pass a linear output buffer. -/
theorem linear_framer_balanced_iff [Zero α] (delay : ℕ) (processor : σ)
    (calls : List (CaptureCall α nb nc nrc)) : (∀ pre, pre <+: calls →
      LinearFramerBalanced (Core.runState (processCapture P) (create true delay processor) pre)) ↔
      LinearOutputsPaired calls :=
  run_linear_iff (fun h hm => h.balanced hm) (fun h => h.checks)
    (create_framed true delay processor) (create_linearAt delay processor) calls

def silentCall (linear : Bool) : CaptureCall ℤ 1 1 1 where
  capture _ _ := replicate kSplitBandSize 0
  linearOutput := if linear then some fun _ _ => replicate kSplitBandSize 0 else none
  length_capture _ _ := length_replicate
  length_linear x hx band channel := by
    cases linear with
    | false => exact absurd hx (Option.not_mem_none x)
    | true =>
      cases hx
      exact length_replicate

theorem linear_framer_balanced_three_calls :
    LinearFramerBalanced (Core.runState (processCapture (BlockProcessorOps.unchanged ℤ 1 1 1))
      (create true 0 ()) [silentCall true, silentCall true, silentCall false]) :=
  (linear_framer_balanced_iff (BlockProcessorOps.unchanged ℤ 1 1 1) 0 ()
    [silentCall true, silentCall true, silentCall false]).mpr ⟨rfl, rfl, trivial⟩ _ prefix_rfl

theorem linear_framer_overfilled :
    ¬ LinearFramerBalanced (Core.runState (processCapture (BlockProcessorOps.unchanged ℤ 1 1 1))
      (create true 0 ()) [silentCall false, silentCall false]) := by
  intro h
  have hmem : (FramingComponent.linearOutputFramer, SizeCheck.insertBlock 64 64) ∈
      (Core.runState (processCapture (BlockProcessorOps.unchanged ℤ 1 1 1))
        (create true 0 ()) [silentCall false, silentCall false]).checks := by
    decide +kernel
  have hzero : 64 = 0 := h.checks _ hmem rfl
  omega

/-- All checks of the framing code passed so far. -/
def ChecksPass (s : EchoCanceller3 σ α nb nc nrc) : Prop := ∀ e ∈ s.checks, e.2.Passes

theorem checksPass_iff [Zero α] (delay : ℕ) (processor : σ)
    (calls : List (CaptureCall α nb nc nrc)) :
    ChecksPass (Core.runState (processCapture P) (create true delay processor) calls) ↔
      LinearChecksPass
        (Core.runState (processCapture P) (create true delay processor) calls).checks := by
  refine ⟨fun h e he _ => h e he, fun h e he => ?_⟩
  rcases run_captureChecksPass true delay processor calls e he with ⟨hlinear, -⟩ | hp
  · exact h e he hlinear
  · exact hp

variable (P) in
/-- With a block processor that leaves blocks unchanged the capture output is the input behind one
block of zeros, and behind the fixed delay if there is one. All size checks pass along the run
exactly when there is no linear output framer or the linear outputs are paired. A linear output
may only be passed to an echo canceller that is configured for it. -/
theorem capture_output_is_delayed_input [Zero α] (hP : LeavesBlocks P) (exportLinear : Bool)
    (delay : ℕ) (processor : σ) (calls : List (CaptureCall α nb nc nrc))
    (hlinear : ∀ c ∈ calls, c.linearOutput.isSome = true → exportLinear = true) :
    (∀ band channel, captureOutput P (create exportLinear delay processor) calls band channel =
      (replicate (kBlockSize + delay) 0 ++ captureInput calls band channel).take
        (calls.length * kSplitBandSize)) ∧
    ((∀ pre, pre <+: calls →
        ChecksPass (Core.runState (processCapture P) (create exportLinear delay processor) pre)) ↔
      exportLinear = false ∨ LinearOutputsPaired calls) := by
  refine ⟨captureOutput_eq exportLinear delay processor calls hP, ?_⟩
  cases exportLinear with
  | false =>
    refine iff_of_true (fun pre _ e he => ?_) (Or.inl rfl)
    rcases run_captureChecksPass false delay processor pre e he with ⟨-, hf⟩ | hp
    · exact absurd hf Bool.false_ne_true
    · exact hp
  | true =>
    simp only [checksPass_iff, Bool.true_eq_false, false_or]
    exact run_linear_iff (fun h _ => h.checks) (fun h => h.balanced)
      (create_framed true delay processor) (create_linearAt delay processor) calls

/-- A call on two bands of two channels, with a value of its own in each. -/
def toneCall (base : ℤ) : CaptureCall ℤ 2 2 1 where
  capture band channel := replicate kSplitBandSize (base + 10 * band.val + channel.val)
  linearOutput := some fun _ _ => replicate kSplitBandSize 0
  length_capture _ _ := length_replicate
  length_linear := by
    rintro _ ⟨rfl⟩ _ _
    exact length_replicate

theorem capture_output_is_delayed_input_two_frames :
    captureOutput (BlockProcessorOps.unchanged ℤ 2 2 1) (create true 32 ())
        [toneCall 100, toneCall 200] 1 0 =
      replicate 96 0 ++ replicate 160 110 ++ replicate 64 210 ∧
    ChecksPass (Core.runState (processCapture (BlockProcessorOps.unchanged ℤ 2 2 1))
      (create true 32 ()) [toneCall 100, toneCall 200]) := by
  obtain ⟨hs, hc⟩ := capture_output_is_delayed_input
    (BlockProcessorOps.unchanged ℤ 2 2 1) (fun _ _ _ _ _ => rfl) true 32 ()
    [toneCall 100, toneCall 200] (fun _ _ _ => rfl)
  refine ⟨(hs 1 0).trans (by decide +kernel), ?_⟩
  exact hc.mpr (Or.inr ⟨rfl, rfl, trivial⟩) _ prefix_rfl

theorem linear_framer_check_fails :
    ¬ ChecksPass (Core.runState (processCapture (BlockProcessorOps.unchanged ℤ 1 1 1))
      (create true 0 ()) [silentCall true, silentCall false]) := by
  intro h
  have hmem : (FramingComponent.linearOutputFramer, SizeCheck.insertBlock 64 32) ∈
      (Core.runState (processCapture (BlockProcessorOps.unchanged ℤ 1 1 1))
        (create true 0 ()) [silentCall true, silentCall false]).checks := by
    decide +kernel
  have hzero : 0 = 32 := (h _ hmem).2
  omega

end EchoCanceller3
end WebRtcAudio.Aec3
