import WebRtcAudio.Aec3.EchoCanceller3

/-! The capture stream through the delay and the framing code: the framer and the blocker together
hold one block. -/
namespace WebRtcAudio.Aec3

open List FrameBlocker

variable {i k : ℕ}

section
variable {α : Type*} {nb nc : ℕ}

theorem kSplitBandSize_eq : kSplitBandSize = 160 := rfl

section
variable {frame : Banded nb nc (List α)} (hf : frame.HasLength kSplitBandSize)
include hf

theorem fillSubFrameView_length (hi : i ≤ 1) :
    (fillSubFrameView frame i).HasLength kSubFrameLength := by
  intro band channel
  simp only [fillSubFrameView, length_take, length_drop, hf band channel,
    kSplitBandSize_eq, kSubFrameLength_eq]
  omega

theorem storeSubFrameView_length {view : Banded nb nc (List α)}
    (hv : view.HasLength kSubFrameLength) (hi : i ≤ 1) :
    (storeSubFrameView frame i view).HasLength kSplitBandSize := by
  intro band channel
  simp only [storeSubFrameView, length_append, length_take, length_drop,
    hf band channel, hv band channel, kSplitBandSize_eq, kSubFrameLength_eq]
  omega

theorem subFrames_append {first : Banded nb nc (List α)} (hv : first.HasLength kSubFrameLength)
    (band : Fin nb) (channel : Fin nc) : fillSubFrameView frame 0 band channel ++
        fillSubFrameView (storeSubFrameView frame 0 first) 1 band channel = frame band channel := by
  have hd : ((frame band channel).drop 80).length = 80 := by
    rw [length_drop, hf band channel, kSplitBandSize_eq]
  have hl := hv band channel
  simp [fillSubFrameView, storeSubFrameView, kSubFrameLength_eq, hl, take_of_length_le hd.le]

end

/-- What the delay still holds, the oldest sample first. -/
def delayed (delay : Option (BlockDelayBuffer α)) : Banded nb nc (List α) := fun band channel =>
  (delay.map fun b => (BlockDelayBuffer.cell b.buf channel band).rotate b.lastInsert).getD []

/-- The delay buffer has a ring for each band of each channel. -/
def DelayReady (nb nc : ℕ) (delay : Option (BlockDelayBuffer α)) : Prop :=
  ∀ b ∈ delay, b.Holds nc nb kSplitBandSize b.delay fun channel band =>
    (BlockDelayBuffer.cell b.buf channel band).rotate b.lastInsert

theorem cell_channelFrame (frame : Banded nb nc (List α)) (band : Fin nb) (channel : Fin nc) :
    BlockDelayBuffer.cell (channelFrame frame) channel band = frame band channel := by
  simp [BlockDelayBuffer.cell, channelFrame]

theorem channelFrame_shape {frame : Banded nb nc (List α)} (hf : frame.HasLength kSplitBandSize) :
    BlockDelayBuffer.Shape nc nb kSplitBandSize (channelFrame frame) := by
  refine ⟨length_ofFn, forall_mem_ofFn_iff.mpr fun channel => ⟨length_ofFn, ?_⟩⟩
  exact forall_mem_ofFn_iff.mpr fun band => hf band channel

theorem delayCapture_spec [NeZero nc] {delay : Option (BlockDelayBuffer α)}
    (h : DelayReady nb nc delay) {capture : Banded nb nc (List α)}
    (hc : capture.HasLength kSplitBandSize) : let r := delayCapture delay capture
    DelayReady nb nc r.1 ∧ r.2.HasLength kSplitBandSize ∧ ∀ band channel,
      delayed delay band channel ++ capture band channel =
        r.2 band channel ++ delayed r.1 band channel := by
  cases delay with
  | none => exact ⟨h, hc, fun band channel => (append_nil _).symm⟩
  | some b =>
    obtain ⟨b', frame, queue, hstep, hs, hh, hcells⟩ :=
      (h b rfl).delaySignal_spec (NeZero.pos nc) (channelFrame_shape hc)
    simp only [delayCapture, hstep]
    refine ⟨?_, fun band channel => ?_, fun band channel => ?_⟩
    · rintro _ ⟨rfl⟩
      exact ⟨hh.frame_eq, rfl, hh.delay_eq ▸ hh.shape,
        hh.delay_eq ▸ hh.insert_lt, fun _ _ _ _ => rfl⟩
    · exact ((BlockDelayBuffer.shape_iff.mp hs).2 channel channel.isLt).2 band band.isLt
    · have hq := hh.queue_eq channel channel.isLt band band.isLt
      have hcell := hcells channel channel.isLt band band.isLt
      rw [cell_channelFrame, ← hq] at hcell
      exact hcell.symm

theorem storeSubFrames {frame first : Banded nb nc (List α)} (second : Banded nb nc (List α))
    (hf : frame.HasLength kSplitBandSize) (hv : first.HasLength kSubFrameLength)
    (band : Fin nb) (channel : Fin nc) :
    storeSubFrameView (storeSubFrameView frame 0 first) 1 second band channel =
      first band channel ++ second band channel := by
  have hl : (first band channel).length = 80 := hv band channel
  have hfl : (frame band channel).length = 160 := hf band channel
  simp [storeSubFrameView, kSubFrameLength_eq, drop_append, hl, hfl]

end

/-- Every check passes, those of the linear output framer apart where there is one. -/
def CaptureChecksPass (hasLinearFramer : Bool) (checks : List (FramingComponent × SizeCheck)) :
    Prop :=
  ∀ e ∈ checks, (e.1 = .linearOutputFramer ∧ hasLinearFramer = true) ∨ e.2.Passes

section
variable {linear : Bool} {checks : List (FramingComponent × SizeCheck)} {l : List SizeCheck}

theorem CaptureChecksPass.append (h : CaptureChecksPass linear checks)
    (component : FramingComponent)
    (hl : ∀ e ∈ l, e.Passes) : CaptureChecksPass linear (checks ++ l.map (component, ·)) := by
  intro e he
  rcases mem_append.mp he with he | he
  · exact h e he
  · obtain ⟨c, hc, rfl⟩ := mem_map.mp he
    exact Or.inr (hl c hc)

theorem CaptureChecksPass.append_linear (h : CaptureChecksPass linear checks)
    (hl : l = [] ∨ linear = true) :
    CaptureChecksPass linear (checks ++ l.map (FramingComponent.linearOutputFramer, ·)) := by
  intro e he
  rcases mem_append.mp he with he | he
  · exact h e he
  · obtain ⟨c, hc, rfl⟩ := mem_map.mp he
    rcases hl with rfl | hl
    · exact absurd hc not_mem_nil
    · exact Or.inl ⟨rfl, hl⟩

end

namespace EchoCanceller3
variable {σ α : Type*} {nb nc nrc : ℕ} {s : EchoCanceller3 σ α nb nc nrc}
variable (P : BlockProcessorOps σ α nb nc nrc)

/-- Only the linear output framer changes, and only its checks are recorded. -/
def TouchesLinear (s t : EchoCanceller3 σ α nb nc nrc) : Prop :=
  ∃ framer, ∃ log : List SizeCheck, framer.isSome = s.linearOutputFramer.isSome ∧
    (log = [] ∨ framer.isSome = true) ∧ t = { s with
      linearOutputFramer := framer
      checks := s.checks ++ log.map (FramingComponent.linearOutputFramer, ·) }

section
variable (s : EchoCanceller3 σ α nb nc nrc)

theorem TouchesLinear.refl : TouchesLinear s s :=
  ⟨s.linearOutputFramer, [], rfl, Or.inl rfl, by simp⟩

theorem touchesLinear_frameLinearOutput (i : ℕ) (out : Option (Banded 1 nc (List α))) :
    TouchesLinear s (s.frameLinearOutput i out).1 := by
  unfold frameLinearOutput
  split
  · rename_i hf _
    exact ⟨_, _, by rw [hf]; rfl, Or.inr rfl, rfl⟩
  · exact .refl s

theorem touchesLinear_insertLinearBlock : TouchesLinear s s.insertLinearBlock := by
  unfold insertLinearBlock
  split
  · rename_i hf _
    exact ⟨_, _, by rw [hf]; rfl, Or.inr rfl, rfl⟩
  · exact .refl s

end

/-- Sizes on the capture side: the blocker holds `k` samples and the framer the rest of a block. -/
structure CaptureBalanced (k : ℕ) (s : EchoCanceller3 σ α nb nc nrc) : Prop where
  blocker : s.captureBlocker.buffer.HasLength k
  framer : s.outputFramer.buffer.HasLength (kBlockSize - k)
  block : s.captureBlock.HasLength kBlockSize
  checks : CaptureChecksPass s.linearOutputFramer.isSome s.checks

structure RenderBalanced (k : ℕ) (s : EchoCanceller3 σ α nb nc nrc) : Prop where
  blocker : s.renderBlocker.buffer.HasLength k
  block : s.renderBlock.HasLength kBlockSize

def pending (s : EchoCanceller3 σ α nb nc nrc) : Banded nb nc (List α) :=
  fun band channel => s.outputFramer.buffer band channel ++ s.captureBlocker.buffer band channel

def LeavesBlocks : Prop :=
  ∀ gain sat state linear block, (P.processCapture gain sat state linear block).2.2 = block

variable {P}

theorem processCaptureFrameContent_spec (hk : k ≤ 48) (hi : i ≤ 1) (h : CaptureBalanced k s)
    {capture : Banded nb nc (List α)} (hc : capture.HasLength kSplitBandSize)
    (linear : Option (Banded 1 nc (List α))) (gain sat : Bool) :
    let r := processCaptureFrameContent P s linear capture gain sat i
    CaptureBalanced (k + 16) r.1 ∧
      r.1.renderBlocker = s.renderBlocker ∧ r.1.renderBlock = s.renderBlock ∧
      r.1.linearOutputFramer.isSome = s.linearOutputFramer.isSome ∧
      ∃ out : Banded nb nc (List α), r.2.2 = storeSubFrameView capture i out ∧
        out.HasLength kSubFrameLength ∧
        (LeavesBlocks P → ∀ band channel,
          s.pending band channel ++ fillSubFrameView capture i band channel =
            out band channel ++ r.1.pending band channel) := by
  intro r
  have hv := fillSubFrameView_length hc hi
  obtain ⟨hbuf, hblock⟩ := insertSubFrame_length hk h.blocker hv
  set view := fillSubFrameView capture i with hview
  set b := s.captureBlocker.insertSubFrameAndExtractBlock view with hb
  set p := P.processCapture gain sat s.blockProcessor s.linearOutputBlock b.2 with hp
  have hpl : p.2.2.HasLength kBlockSize := fun band channel => by
    rw [hp, P.length_captureBlock, hblock band channel]
  have hm : 16 ≤ kBlockSize - k := by
    rw [kBlockSize_eq]
    omega
  have hm' : kBlockSize - k ≤ kBlockSize := Nat.sub_le _ _
  obtain ⟨hfr, hout⟩ := BlockFramer.insertBlockAndExtract_length hm hm' h.framer hpl
  obtain ⟨framer, log, hs, hlog, he⟩ := touchesLinear_frameLinearOutput
    { (s.record .captureBlocker
        (s.captureBlocker.insertSubFrameChecks view s.captureBlock)).record .outputFramer
          (s.outputFramer.insertBlockAndExtractChecks p.2.2 view) with
      captureBlocker := b.1,
      outputFramer := (s.outputFramer.insertBlockAndExtractSubFrame p.2.2).1,
      captureBlock := p.2.2, linearOutputBlock := p.2.1, blockProcessor := p.1 } i linear
  have hr : r.1 = _ := he
  refine ⟨?_, by rw [hr]; rfl, by rw [hr]; rfl, by rw [hr]; exact hs, _, rfl, hout, ?_⟩
  · rw [hr]
    refine ⟨hbuf, ?_, hpl, ?_⟩
    · rwa [Nat.sub_sub] at hfr
    · refine CaptureChecksPass.append_linear ?_ hlog
      change CaptureChecksPass framer.isSome _
      rw [hs]
      refine (h.checks.append .captureBlocker ?_).append .outputFramer ?_
      · exact insertSubFrameChecks_pass hk h.blocker hv h.block
      · exact BlockFramer.insertBlockAndExtractChecks_pass hm hm' h.framer hpl hv
  · intro hid band channel
    have hpb : p.2.2 = b.2 := hid _ _ _ _ _
    have h1 := insertSubFrame_conserves s.captureBlocker view band channel
    have h2 := BlockFramer.insertBlockAndExtract_conserves s.outputFramer p.2.2 band channel
    calc s.pending band channel ++ view band channel
        = s.outputFramer.buffer band channel ++
            (s.captureBlocker.buffer band channel ++ view band channel) := append_assoc ..
      _ = s.outputFramer.buffer band channel ++ p.2.2 band channel ++
            b.1.buffer band channel := by rw [← h1, hpb, append_assoc]
      _ = _ := by
        rw [← h2, hr, append_assoc]
        rfl

theorem processRemainingCaptureFrameContent_spec [NeZero nb] [NeZero nc] (hk : k ≤ kBlockSize)
    (h : CaptureBalanced k s) (gain sat : Bool) :
    let r := processRemainingCaptureFrameContent P s gain sat
    CaptureBalanced (k % kBlockSize) r ∧
      r.renderBlocker = s.renderBlocker ∧ r.renderBlock = s.renderBlock ∧
      r.linearOutputFramer.isSome = s.linearOutputFramer.isSome ∧
      (LeavesBlocks P → r.pending = s.pending) := by
  intro r
  by_cases hfull : k = kBlockSize
  · subst hfull
    have ha := (isBlockAvailable_iff h.blocker).mpr rfl
    set p := P.processCapture gain sat s.blockProcessor s.linearOutputBlock
      s.captureBlocker.buffer with hp
    have hpl : p.2.2.HasLength kBlockSize := fun band channel => by
      rw [hp, P.length_captureBlock, h.blocker band channel]
    have hempty : s.outputFramer.buffer.HasLength 0 := by simpa using h.framer
    obtain ⟨framer, log, hs, hlog, he⟩ := touchesLinear_insertLinearBlock
      { (s.record .captureBlocker
          (s.captureBlocker.extractBlockChecks s.captureBlock)).record .outputFramer
            (s.outputFramer.insertBlockChecks p.2.2) with
        captureBlocker := s.captureBlocker.extractBlock.1,
        outputFramer := s.outputFramer.insertBlock p.2.2,
        captureBlock := p.2.2, linearOutputBlock := p.2.1, blockProcessor := p.1 }
    have hr : r = _ := (if_pos ha).trans he
    refine ⟨?_, by rw [hr]; rfl, by rw [hr]; rfl, by rw [hr]; exact hs, ?_⟩
    · rw [hr, Nat.mod_self]
      refine ⟨fun _ _ => rfl, BlockFramer.insertBlock_length hempty hpl, hpl, ?_⟩
      refine CaptureChecksPass.append_linear ?_ hlog
      change CaptureChecksPass framer.isSome _
      rw [hs]
      refine (h.checks.append .captureBlocker ?_).append .outputFramer ?_
      · exact extractBlockChecks_pass h.blocker h.block
      · exact BlockFramer.insertBlockChecks_pass hempty hpl
    · intro hid
      have hpb : p.2.2 = s.captureBlocker.buffer := hid _ _ _ _ _
      funext band channel
      have hnil := eq_nil_of_length_eq_zero (hempty band channel)
      rw [hr]
      simp [pending, BlockFramer.insertBlock, extractBlock, hpb, hnil]
  · have ha := mt (isBlockAvailable_iff h.blocker).mp hfull
    have hr : r = s := if_neg ha
    rw [hr, Nat.mod_eq_of_lt (lt_of_le_of_ne hk hfull)]
    exact ⟨h, rfl, rfl, rfl, fun _ => rfl⟩

variable {j k : ℕ} {frame : Banded nb nrc (List α)}

theorem bufferRenderFrameContent_spec (hj : j ≤ 48) (hi : i ≤ 1) (hc : CaptureBalanced k s)
    (h : RenderBalanced j s) (hf : frame.HasLength kSplitBandSize) :
    let r := bufferRenderFrameContent P s frame i
    CaptureBalanced k r ∧ RenderBalanced (j + 16) r ∧ r.pending = s.pending := by
  have hv := fillSubFrameView_length hf hi
  obtain ⟨hbuf, hb⟩ := insertSubFrame_length hj h.blocker hv
  refine ⟨⟨hc.blocker, hc.framer, hc.block, ?_⟩, ⟨hbuf, hb⟩, rfl⟩
  exact hc.checks.append .renderBlocker
    (insertSubFrameChecks_pass hj h.blocker hv h.block)

theorem bufferRemainingRenderFrameContent_spec [NeZero nb] [NeZero nrc] (hj : j ≤ kBlockSize)
    (hc : CaptureBalanced k s) (h : RenderBalanced j s) :
    let r := bufferRemainingRenderFrameContent P s
    CaptureBalanced k r ∧ RenderBalanced (j % kBlockSize) r ∧ r.pending = s.pending := by
  intro r
  by_cases hfull : j = kBlockSize
  · subst hfull
    have hr : r = _ := if_pos ((isBlockAvailable_iff h.blocker).mpr rfl)
    rw [hr, Nat.mod_self]
    refine ⟨⟨hc.blocker, hc.framer, hc.block, ?_⟩, ⟨fun _ _ => rfl, h.blocker⟩, rfl⟩
    exact hc.checks.append .renderBlocker
      (extractBlockChecks_pass h.blocker h.block)
  · have hr : r = s := if_neg (mt (isBlockAvailable_iff h.blocker).mp hfull)
    rw [hr, Nat.mod_eq_of_lt (lt_of_le_of_ne hj hfull)]
    exact ⟨hc, h, rfl⟩

def AtFrameStart (k : ℕ) : Prop := k = 0 ∨ k = 32

theorem AtFrameStart.le (h : AtFrameStart k) : k ≤ 32 := by
  rcases h with rfl | rfl <;> omega

theorem AtFrameStart.next (h : AtFrameStart k) : AtFrameStart ((k + 16 + 16) % kBlockSize) := by
  rcases h with rfl | rfl
  · exact Or.inr rfl
  · exact Or.inl rfl

section
variable [NeZero nb] [NeZero nrc] (hj : AtFrameStart j) (hc : CaptureBalanced k s)
  (h : RenderBalanced j s)
include hj hc h

theorem bufferRenderFrame_spec (hf : frame.HasLength kSplitBandSize) :
    let r := bufferRenderFrame P s frame
    CaptureBalanced k r ∧ RenderBalanced ((j + 16 + 16) % kBlockSize) r ∧
      r.pending = s.pending := by
  have hle := hj.le
  obtain ⟨hc₁, h₁, hp₁⟩ := bufferRenderFrameContent_spec (P := P) (by omega) zero_le_one hc h hf
  obtain ⟨hc₂, h₂, hp₂⟩ := bufferRenderFrameContent_spec (P := P) (by omega) le_rfl hc₁ h₁ hf
  obtain ⟨hc₃, h₃, hp₃⟩ := bufferRemainingRenderFrameContent_spec (P := P)
    (by rw [kBlockSize_eq]; omega) hc₂ h₂
  exact ⟨hc₃, h₃, hp₃.trans (hp₂.trans hp₁)⟩

theorem emptyRenderQueue_spec (frames : List (Banded nb nrc (List α)))
    (hf : ∀ f ∈ frames, f.HasLength kSplitBandSize) : let r := emptyRenderQueue P s frames
    CaptureBalanced k r ∧ (∃ j', AtFrameStart j' ∧ RenderBalanced j' r) ∧
      r.pending = s.pending := by
  induction frames generalizing s j with
  | nil => exact ⟨hc, ⟨j, hj, h⟩, rfl⟩
  | cons f fs ih =>
    obtain ⟨hc₁, h₁, hp₁⟩ := bufferRenderFrame_spec (P := P) hj hc h (hf f mem_cons_self)
    obtain ⟨hc₂, h₂, hp₂⟩ := ih hj.next hc₁ h₁ fun g hg => hf g (mem_cons_of_mem f hg)
    exact ⟨hc₂, h₂, hp₂.trans hp₁⟩

end

theorem linearOutputFramer_bufferRenderFrame [NeZero nb] [NeZero nrc]
    (s : EchoCanceller3 σ α nb nc nrc) (frame : Banded nb nrc (List α)) :
    (bufferRenderFrame P s frame).linearOutputFramer = s.linearOutputFramer := by
  unfold bufferRenderFrame bufferRemainingRenderFrameContent
  split <;> rfl

theorem linearOutputFramer_emptyRenderQueue [NeZero nb] [NeZero nrc]
    (s : EchoCanceller3 σ α nb nc nrc) (frames : List (Banded nb nrc (List α))) :
    (emptyRenderQueue P s frames).linearOutputFramer = s.linearOutputFramer := by
  induction frames generalizing s with
  | nil => rfl
  | cons f fs ih => exact (ih _).trans (linearOutputFramer_bufferRenderFrame s f)

/-- Between two calls: the delay is ready, and blocker and framer share one block. -/
structure Framed (k : ℕ) (s : EchoCanceller3 σ α nb nc nrc) : Prop where
  delay : DelayReady nb nc s.blockDelayBuffer
  start : AtFrameStart k
  capture : CaptureBalanced k s
  render : ∃ j, AtFrameStart j ∧ RenderBalanced j s

variable [NeZero nb] [NeZero nc] [NeZero nrc]

theorem processFrame_spec (h : Framed k s) (c : CaptureCall α nb nc nrc)
    {capture : Banded nb nc (List α)} (hcapture : capture.HasLength kSplitBandSize) :
    let r := processFrame P s c capture
    CaptureBalanced ((k + 16 + 16) % kBlockSize) r.1 ∧
      (∃ j, AtFrameStart j ∧ RenderBalanced j r.1) ∧
      r.1.linearOutputFramer.isSome = s.linearOutputFramer.isSome ∧
      r.2.capture.HasLength kSplitBandSize ∧
      (LeavesBlocks P → ∀ band channel,
        s.pending band channel ++ capture band channel =
          r.2.capture band channel ++ r.1.pending band channel) := by
  obtain ⟨-, hk, hc, j, hj, hr⟩ := h
  have hle := hk.le
  have hq := linearOutputFramer_emptyRenderQueue (P := P) s c.renderFrames
  obtain ⟨hc₀, ⟨j', hj', hr₀⟩, hp₀⟩ :=
    emptyRenderQueue_spec (P := P) hj hc hr c.renderFrames c.length_renderFrames
  obtain ⟨hc₁, hb₁, hk₁, hs₁, out₁, ho₁, hl₁, hp₁⟩ := processCaptureFrameContent_spec (P := P)
    (by omega) zero_le_one hc₀ hcapture c.linearOutput c.levelChange
    c.saturatedMicrophoneSignal
  have hcap := storeSubFrameView_length hcapture hl₁ zero_le_one
  rw [← ho₁] at hcap
  obtain ⟨hc₂, hb₂, hk₂, hs₂, out₂, ho₂, hl₂, hp₂⟩ := processCaptureFrameContent_spec (P := P)
    (by omega) le_rfl hc₁ hcap
    (processCaptureFrameContent P (emptyRenderQueue P s c.renderFrames) c.linearOutput capture
      c.levelChange c.saturatedMicrophoneSignal 0).2.1 c.levelChange c.saturatedMicrophoneSignal
  obtain ⟨hc₃, hb₃, hk₃, hs₃, hp₃⟩ := processRemainingCaptureFrameContent_spec (P := P)
    (by rw [kBlockSize_eq]; omega) hc₂ c.levelChange c.saturatedMicrophoneSignal
  refine ⟨hc₃, ⟨j', hj', ?_, ?_⟩, ?_, ?_, ?_⟩
  · change (processRemainingCaptureFrameContent P _ _ _).renderBlocker.buffer.HasLength j'
    rw [hb₃, hb₂, hb₁]
    exact hr₀.blocker
  · change (processRemainingCaptureFrameContent P _ _ _).renderBlock.HasLength kBlockSize
    rw [hk₃, hk₂, hk₁]
    exact hr₀.block
  · exact hs₃.trans (hs₂.trans (hs₁.trans (by rw [hq])))
  · have hlen := storeSubFrameView_length hcap hl₂ le_rfl
    rw [← ho₂] at hlen
    exact hlen
  · intro hid band channel
    have hv := subFrames_append hcapture hl₁ band channel
    have hout := storeSubFrames out₂ hcapture hl₁ band channel
    rw [← ho₁] at hv hout
    rw [← ho₂] at hout
    calc s.pending band channel ++ capture band channel
        = (emptyRenderQueue P s c.renderFrames).pending band channel ++
            fillSubFrameView capture 0 band channel ++ _ := by
          rw [hp₀, append_assoc, hv]
      _ = _ := by
        rw [hp₁ hid, append_assoc, hp₂ hid, ← append_assoc, ← hout]
        exact congrArg _ (congrFun (congrFun (hp₃ hid).symm band) channel)

/-- All that a state holds of the stream. -/
def held (s : EchoCanceller3 σ α nb nc nrc) : Banded nb nc (List α) := fun band channel =>
  s.pending band channel ++ delayed s.blockDelayBuffer band channel

theorem processCapture_spec (h : Framed k s) (c : CaptureCall α nb nc nrc) :
    let r := processCapture P s c
    Framed ((k + 16 + 16) % kBlockSize) r.1 ∧
      r.1.linearOutputFramer.isSome = s.linearOutputFramer.isSome ∧
      r.2.capture.HasLength kSplitBandSize ∧
      (LeavesBlocks P → ∀ band channel,
        s.held band channel ++ c.capture band channel =
          r.2.capture band channel ++ r.1.held band channel) := by
  obtain ⟨hd, hl, hq⟩ := delayCapture_spec h.delay c.length_capture
  obtain ⟨hcapture, ⟨j, hj, hr⟩, hsome, hout, hs⟩ :=
    processFrame_spec (P := P) h c hl
  refine ⟨⟨hd, h.start.next, ?_, j, hj, hr.blocker, hr.block⟩, hsome, hout, ?_⟩
  · exact ⟨hcapture.blocker, hcapture.framer, hcapture.block, hcapture.checks⟩
  · intro hid band channel
    rw [held, append_assoc, hq, ← append_assoc, hs hid, append_assoc]
    rfl

def captureInput (calls : List (CaptureCall α nb nc nrc)) : Banded nb nc (List α) :=
  fun band channel => calls.flatMap fun c => c.capture band channel

variable (P) in
def captureOutput (s : EchoCanceller3 σ α nb nc nrc) (calls : List (CaptureCall α nb nc nrc)) :
    Banded nb nc (List α) :=
  fun band channel =>
    (Core.runResults (processCapture P) s calls).flatMap fun r => r.capture band channel

theorem run_stream (hP : LeavesBlocks P) (h : Framed k s) (calls : List (CaptureCall α nb nc nrc))
    (band : Fin nb) (channel : Fin nc) : s.held band channel ++ captureInput calls band channel =
      captureOutput P s calls band channel ++
        (Core.runState (processCapture P) s calls).held band channel := by
  induction calls generalizing s k with
  | nil => simp [captureInput, captureOutput]
  | cons c cs ih =>
    obtain ⟨hframed, -, -, hs⟩ := processCapture_spec (P := P) h c
    have hr := ih hframed
    simp only [captureInput, captureOutput] at hr
    simp only [captureInput, captureOutput, flatMap_cons, Core.runResults_cons, Core.runState_cons]
    rw [← append_assoc, hs hP band channel, append_assoc, hr, append_assoc]

theorem run_framed (h : Framed k s) (calls : List (CaptureCall α nb nc nrc)) :
    let r := Core.runState (processCapture P) s calls
    (∃ l, Framed l r) ∧ r.linearOutputFramer.isSome = s.linearOutputFramer.isSome := by
  have hs : ∀ (t : EchoCanceller3 σ α nb nc nrc) (c : CaptureCall α nb nc nrc),
      (∃ l, Framed l t) ∧ t.linearOutputFramer.isSome = s.linearOutputFramer.isSome → True →
        (∃ l, Framed l (processCapture P t c).1) ∧
          (processCapture P t c).1.linearOutputFramer.isSome = s.linearOutputFramer.isSome := by
    rintro t c ⟨⟨l, ht⟩, hsome⟩ -
    obtain ⟨hframed, hs, -⟩ := processCapture_spec (P := P) ht c
    exact ⟨⟨_, hframed⟩, hs.trans hsome⟩
  exact Core.runState_invariant (processCapture P) hs ⟨⟨k, h⟩, rfl⟩ fun _ _ => trivial

theorem captureOutput_length (h : Framed k s) (calls : List (CaptureCall α nb nc nrc)) :
    (captureOutput P s calls).HasLength (calls.length * kSplitBandSize) := by
  intro band channel
  induction calls generalizing s k with
  | nil => simp [captureOutput]
  | cons c cs ih =>
    obtain ⟨hframed, -, hlen, -⟩ := processCapture_spec (P := P) h c
    have hr := ih hframed
    simp only [captureOutput] at hr
    simp only [captureOutput, Core.runResults_cons, flatMap_cons, length_append,
      hlen band channel, hr, length_cons]
    rw [Nat.succ_mul, Nat.add_comm]

section
omit [NeZero nb] [NeZero nc] [NeZero nrc]
variable [Zero α]

variable (exportLinear : Bool) (delay : ℕ) (processor : σ)

theorem create_framed :
    Framed 0 (create exportLinear delay processor : EchoCanceller3 σ α nb nc nrc) where
  delay b hb := by
    obtain ⟨hpos, heq⟩ := Option.ite_none_right_eq_some.mp hb
    cases heq
    exact ⟨rfl, rfl, (BlockDelayBuffer.holds_create hpos).shape, hpos, fun _ _ _ _ => rfl⟩
  start := Or.inl rfl
  capture := ⟨fun _ _ => rfl, fun _ _ => length_replicate,
    fun _ _ => length_replicate, by simp [create, CaptureChecksPass]⟩
  render := ⟨0, Or.inl rfl, fun _ _ => rfl, fun _ _ => length_replicate⟩

theorem create_linearOutputFramer :
    (create exportLinear delay processor : EchoCanceller3 σ α nb nc nrc).linearOutputFramer.isSome =
      exportLinear := by
  cases exportLinear <;> rfl

theorem create_held (band : Fin nb) (channel : Fin nc) :
    (create exportLinear delay processor : EchoCanceller3 σ α nb nc nrc).held band channel =
      replicate (kBlockSize + delay) 0 := by
  have hd : delayed (create exportLinear delay processor :
      EchoCanceller3 σ α nb nc nrc).blockDelayBuffer band channel = replicate delay 0 := by
    rcases Nat.eq_zero_or_pos delay with rfl | hpos
    · rfl
    · have hh : (BlockDelayBuffer.create nc nb kSplitBandSize delay).Holds nc nb
          kSplitBandSize delay fun _ _ => replicate delay (0 : α) :=
        BlockDelayBuffer.holds_create hpos
      have hq := hh.queue_eq channel channel.isLt band band.isLt
      simpa [delayed, create, hpos] using hq
  rw [held, hd, ← replicate_append_replicate]
  rfl

end

variable [Zero α] (exportLinear : Bool) (delay : ℕ) (processor : σ)
  (calls : List (CaptureCall α nb nc nrc))

/-- With a block processor that leaves blocks unchanged the capture output is the input behind one
block and the fixed delay in zeros. -/
theorem captureOutput_eq (hP : LeavesBlocks P) (band : Fin nb) (channel : Fin nc) :
    captureOutput P (create exportLinear delay processor) calls band channel =
      (replicate (kBlockSize + delay) 0 ++ captureInput calls band channel).take
        (calls.length * kSplitBandSize) := by
  have hs : Framed 0 (create exportLinear delay processor : EchoCanceller3 σ α nb nc nrc) :=
    create_framed exportLinear delay processor
  rw [← create_held exportLinear delay processor, run_stream hP hs calls band channel,
    ← captureOutput_length hs calls band channel, take_left]

theorem run_captureChecksPass : CaptureChecksPass exportLinear
    (Core.runState (processCapture P) (create exportLinear delay processor) calls).checks := by
  obtain ⟨⟨k, hframed⟩, hs⟩ :=
    run_framed (P := P) (create_framed exportLinear delay processor) calls
  have hchecks := hframed.capture.checks
  rwa [hs, create_linearOutputFramer] at hchecks

end EchoCanceller3
end WebRtcAudio.Aec3
