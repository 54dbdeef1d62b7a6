import WebRtcAudio.Core.SerialNumber
import WebRtcAudio.NetEq.DecisionLogic

/-! Decisions depend on differences of RTP timestamps, but for the end of comfort noise. -/
namespace WebRtcAudio.NetEq

open WebRtcAudio.Core AudioCoding

theorem isNewerTimestamp_translate (t u c : UInt32) (h : t - u ≠ 0x80000000) :
    isNewerTimestamp (t + c) (u + c) = isNewerTimestamp t u := by
  have hsub : t + c - (u + c) = t - u := by grind
  have heq : t + c = u + c ↔ t = u := UInt32.add_left_inj c
  rw [isNewerTimestamp, isNewerTimestamp, hsub, if_neg h, if_neg h]
  simp only [ne_eq, heq]

theorem isNewerTimestamp_eq_false {t u : UInt32} (h : 2 ^ 31 < (t - u).toNat) :
    isNewerTimestamp t u = false := by
  have hh : t - u ≠ 0x80000000 := by
    intro heq
    rw [heq] at h
    exact absurd h (by decide)
  have hlt : ¬ t - u < 0x80000000 := fun hlt => absurd (UInt32.lt_iff_toNat_lt.mp hlt) (by
    simp only [UInt32.reduceToNat]
    omega)
  rw [isNewerTimestamp, if_neg hh, decide_eq_false hlt, Bool.and_false]

/-- With a horizon of less than half the range the timestamps that are exactly half the range
apart, where `IsNewerTimestamp` compares numbers, are not obsolete. -/
theorem isObsoleteTimestamp_translate (timestamp timestampLimit c : UInt32)
    {ho : UInt32} (hpos : 0 < ho.toNat) (hlt : ho.toNat < 2 ^ 31) :
    PacketBuffer.isObsoleteTimestamp (timestamp + c) (timestampLimit + c) ho =
      PacketBuffer.isObsoleteTimestamp timestamp timestampLimit ho := by
  have hz : ho ≠ 0 := by
    rintro rfl
    exact absurd hpos (by decide)
  have hl : timestampLimit + c - ho = timestampLimit - ho + c := by grind
  rw [PacketBuffer.isObsoleteTimestamp, PacketBuffer.isObsoleteTimestamp, hl,
    decide_eq_false hz, Bool.false_or, Bool.false_or]
  have hsum (t u : UInt32) : t + c - (u + c) = t - u := by grind
  by_cases hf : timestampLimit - timestamp = 0x80000000
  · have hfar : 2 ^ 31 < (timestamp - (timestampLimit - ho)).toNat := by
      have heq : timestamp - (timestampLimit - ho) = ho - 0x80000000 := by
        rw [← hf]
        grind
      rw [heq, UInt32.toNat_sub]
      simp only [UInt32.reduceToNat]
      omega
    have hm : isNewerTimestamp (timestamp + c) (timestampLimit - ho + c) = false :=
      isNewerTimestamp_eq_false (by rwa [hsum])
    rw [hm, isNewerTimestamp_eq_false hfar, Bool.and_false, Bool.and_false]
  · by_cases hs : timestamp - (timestampLimit - ho) = 0x80000000
    · have hfar : 2 ^ 31 < (timestampLimit - timestamp).toNat := by
        have heq : timestampLimit - timestamp = ho - 0x80000000 := by
          rw [← hs]
          grind
        rw [heq, UInt32.toNat_sub]
        simp only [UInt32.reduceToNat]
        omega
      have hm : isNewerTimestamp (timestampLimit + c) (timestamp + c) = false :=
        isNewerTimestamp_eq_false (by rwa [hsum])
      rw [hm, isNewerTimestamp_eq_false hfar, Bool.false_and, Bool.false_and]
    · rw [isNewerTimestamp_translate _ _ c hf, isNewerTimestamp_translate _ _ c hs]

theorem fiveSecondsSamples_pos (fs : SampleRate) :
    0 < (DecisionLogic.fiveSecondsSamples fs).toNat := by
  cases fs <;> decide

theorem fiveSecondsSamples_lt (fs : SampleRate) :
    (DecisionLogic.fiveSecondsSamples fs).toNat < 2 ^ 31 := by
  cases fs <;> decide

@[simps] def NetEqStatus.translate (status : NetEqStatus) (c : UInt32) : NetEqStatus :=
  { status with
    targetTimestamp := status.targetTimestamp + c
    nextPacket := status.nextPacket.map fun p => { p with timestamp := p.timestamp + c } }

namespace DecisionLogic

theorem ofNat_add_translate (n : ℕ) (t c : UInt32) :
    UInt32.ofNat (n + (t + c).toNat) = UInt32.ofNat (n + t.toNat) + c := by
  rw [UInt32.ofNat_add, UInt32.ofNat_add, UInt32.ofNat_toNat, UInt32.ofNat_toNat, UInt32.add_assoc]

theorem cngOperation_translate (d : DecisionLogic) (prevMode : Mode)
    (targetTimestamp availableTimestamp c : UInt32) (generatedNoiseSamples : ℕ) :
    d.cngOperation prevMode (targetTimestamp + c) (availableTimestamp + c) generatedNoiseSamples =
      d.cngOperation prevMode targetTimestamp availableTimestamp generatedNoiseSamples := by
  have hsub : UInt32.ofNat (generatedNoiseSamples + (targetTimestamp + c).toNat) -
      (availableTimestamp + c) =
        UInt32.ofNat (generatedNoiseSamples + targetTimestamp.toNat) - availableTimestamp := by
    rw [ofNat_add_translate]
    grind
  simp only [cngOperation, hsub]

theorem updateLevel_translate (d : DecisionLogic) (status : NetEqStatus) (c : UInt32) :
    d.updateLevel (status.translate c) = d.updateLevel status := by
  have hdtx : (status.translate c).nextPacket.any (·.isDtx) = status.nextPacket.any (·.isDtx) := by
    cases h : status.nextPacket <;> simp [NetEqStatus.translate, h]
  simp only [updateLevel, hdtx]
  rfl

theorem updateLevel_frame (d : DecisionLogic) (status : NetEqStatus) :
    (d.updateLevel status).sampleRate = d.sampleRate ∧
      (d.updateLevel status).numConsecutiveExpands = d.numConsecutiveExpands ∧
      (d.updateLevel status).cngSizeSamples = d.cngSizeSamples ∧
      (d.updateLevel status).endsComfortNoise = d.endsComfortNoise := by
  unfold updateLevel
  dsimp only
  split_ifs <;> exact ⟨rfl, rfl, rfl, rfl⟩

def PassesWrap (targetTimestamp availableTimestamp : UInt32) (generatedNoiseSamples : ℕ) : Prop :=
  2 ^ 32 ≤ availableTimestamp.toNat +
    (UInt32.ofNat (generatedNoiseSamples + targetTimestamp.toNat) - availableTimestamp).toNat

theorem generatedEnoughNoise_iff (targetTimestamp availableTimestamp : UInt32)
    (generatedNoiseSamples : ℕ) :
    generatedEnoughNoise targetTimestamp availableTimestamp generatedNoiseSamples = true ↔
      ¬ PassesWrap targetTimestamp availableTimestamp generatedNoiseSamples := by
  obtain ⟨reached, hr⟩ :
    ∃ t, UInt32.ofNat (generatedNoiseSamples + targetTimestamp.toNat) = t := ⟨_, rfl⟩
  have h₁ := availableTimestamp.toNat_lt
  have h₂ := reached.toNat_lt
  rw [generatedEnoughNoise, PassesWrap, decide_eq_true_iff, hr, ge_iff_le,
    UInt32.le_iff_toNat_le, UInt32.toNat_sub]
  omega

/-- The next packet comes after comfort noise, and the generated noise decides whether it is
played. -/
structure NoiseDecides (d : DecisionLogic) (status : NetEqStatus) (nextPacket : PacketInfo) :
    Prop where
  lastMode : status.lastMode = .rfc3389Cng ∨ status.lastMode = .codecInternalCng
  nextPacket_eq : status.nextPacket = some nextPacket
  isCng : nextPacket.isCng = false
  numConsecutiveExpands : d.numConsecutiveExpands ≤ kReinitAfterExpands
  future : status.targetTimestamp ≠ nextPacket.timestamp ∧
    PacketBuffer.isObsoleteTimestamp nextPacket.timestamp status.targetTimestamp
      (fiveSecondsSamples d.sampleRate) = false
  level : ∀ curSizeSamples, curSizeSamples = d.cngSizeSamples status.lastPacketSamples
      status.packetBufferInfo.spanSamples status.packetBufferInfo.numPackets →
    d.endsComfortNoise curSizeSamples true ≠ d.endsComfortNoise curSizeSamples false

theorem futurePacketAvailable_translate_iff (d : DecisionLogic) (decoderFrameLength : ℕ)
    (prevMode : Mode) (targetTimestamp availableTimestamp c : UInt32) (playDtmf : Bool)
    (generatedNoiseSamples spanSamples numPackets : ℕ) :
    d.futurePacketAvailable decoderFrameLength prevMode (targetTimestamp + c)
        (availableTimestamp + c) playDtmf generatedNoiseSamples spanSamples numPackets =
      d.futurePacketAvailable decoderFrameLength prevMode targetTimestamp availableTimestamp
        playDtmf generatedNoiseSamples spanSamples numPackets ↔
    ((prevMode = .rfc3389Cng ∨ prevMode = .codecInternalCng) →
      d.endsComfortNoise (d.cngSizeSamples decoderFrameLength spanSamples numPackets)
          (generatedEnoughNoise (targetTimestamp + c) (availableTimestamp + c)
            generatedNoiseSamples) =
        d.endsComfortNoise (d.cngSizeSamples decoderFrameLength spanSamples numPackets)
          (generatedEnoughNoise targetTimestamp availableTimestamp generatedNoiseSamples)) := by
  have hl : availableTimestamp + c - (targetTimestamp + c) =
      availableTimestamp - targetTimestamp := by grind
  simp only [futurePacketAvailable, hl]
  generalize d.endsComfortNoise _ (generatedEnoughNoise (targetTimestamp + c) _ _) = moved
  generalize d.endsComfortNoise _ (generatedEnoughNoise targetTimestamp _ _) = here
  by_cases hm : prevMode = .rfc3389Cng ∨ prevMode = .codecInternalCng
  · -- The operations differ when the comparisons do.
    rcases hm with rfl | rfl <;> cases moved <;> cases here <;> simp
  · simp only [hm, if_false, false_implies]

theorem endsComfortNoise_eq_iff (d : DecisionLogic) (curSizeSamples : ℕ) (a b : Bool) :
    d.endsComfortNoise curSizeSamples a = d.endsComfortNoise curSizeSamples b ↔
      (d.endsComfortNoise curSizeSamples true ≠ d.endsComfortNoise curSizeSamples false →
        a = b) := by
  cases a <;> cases b <;> simp [eq_comm]

theorem lastMode_of_postponesDecoding {d : DecisionLogic} {status : NetEqStatus}
    (h : d.postponesDecoding status = true) :
    status.lastMode = .expand ∨ status.lastMode = .codecPlc := by
  simp only [postponesDecoding, Bool.and_eq_true, Bool.or_eq_true, decide_eq_true_eq] at h
  exact h.1.1.1

/-- The decision is the same after a translation exactly if the wrap lies on the way from the next
packet to the end of the noise in both cases or in none, when this decides. -/
theorem getDecision_translate_iff (d : DecisionLogic) (status : NetEqStatus) (resetDecoder : Bool)
    (c : UInt32) :
    d.getDecision (status.translate c) resetDecoder = d.getDecision status resetDecoder ↔
      ∀ nextPacket, d.NoiseDecides status nextPacket →
        (PassesWrap (status.targetTimestamp + c) (nextPacket.timestamp + c)
            status.generatedNoiseSamples ↔ PassesWrap status.targetTimestamp nextPacket.timestamp
            status.generatedNoiseSamples) := by
  obtain ⟨hr, hmode, hs, hends⟩ := d.updateLevel_frame status
  have hpost : (d.updateLevel status).postponesDecoding (status.translate c) =
      (d.updateLevel status).postponesDecoding status := rfl
  unfold getDecision
  cases hn : status.nextPacket with
  | none =>
    simp only [updateLevel_translate, NetEqStatus.translate_nextPacket, hn, Option.map_none,
      NetEqStatus.translate_lastMode, NetEqStatus.translate_playDtmf, true_iff]
    intro p h
    exact absurd (hn.symm.trans h.nextPacket_eq) (by simp)
  | some nextPacket =>
    simp only [updateLevel_translate, NetEqStatus.translate_nextPacket, hn, Option.map_some,
      NetEqStatus.translate_lastMode, NetEqStatus.translate_playDtmf,
      NetEqStatus.translate_targetTimestamp, NetEqStatus.translate_generatedNoiseSamples,
      NetEqStatus.translate_lastPacketSamples, NetEqStatus.translate_packetBufferInfo, hpost,
      cngOperation_translate, UInt32.add_left_inj, hmode, hr,
      isObsoleteTimestamp_translate _ _ c (fiveSecondsSamples_pos d.sampleRate)
        (fiveSecondsSamples_lt d.sampleRate)]
    -- Outside the last branch the two decisions are the same and the condition is void.
    have hu : ∀ p, d.NoiseDecides status p → p = nextPacket := fun p h =>
      Option.some.inj (h.nextPacket_eq.symm.trans hn)
    split_ifs with herr hcng hmany hpos he hf
    · refine iff_of_true rfl fun p h => ?_
      rcases h.lastMode with hm | hm <;> simp [herr] at hm
    · refine iff_of_true rfl fun p h => ?_
      exact absurd (hu p h ▸ h.isCng) (by simp [hcng])
    · refine iff_of_true rfl fun p h => ?_
      exact absurd h.numConsecutiveExpands (not_le.mpr hmany)
    · refine iff_of_true rfl fun p h => ?_
      have hexpand := lastMode_of_postponesDecoding hpos
      rcases h.lastMode with hm | hm <;> simp [hm] at hexpand
    · refine iff_of_true rfl fun p h => ?_
      exact absurd (hu p h ▸ he) h.future.1
    · rw [Prod.mk.injEq, Prod.mk.injEq, and_iff_right rfl, ← Prod.ext_iff,
        futurePacketAvailable_translate_iff, hs, hends, endsComfortNoise_eq_iff, Bool.eq_iff_iff,
        generatedEnoughNoise_iff, generatedEnoughNoise_iff, not_iff_not]
      constructor
      · intro h p hp
        obtain rfl := hu p hp
        exact h hp.lastMode (hp.level _ rfl)
      · intro h hmode hl
        refine h nextPacket ⟨hmode, hn, by simpa using hcng, not_lt.mp hmany, ?_, ?_⟩
        · exact ⟨he, by simpa using hf⟩
        · rintro _ rfl
          exact hl
    · refine iff_of_true rfl fun p h => ?_
      exact absurd (hu p h ▸ h.future.2) (by simpa using hf)

def silenceStatus (targetTimestamp : UInt32) : NetEqStatus where
  targetTimestamp := targetTimestamp
  expandMutefactor := 16384
  lastPacketSamples := 160
  nextPacket := some ⟨targetTimestamp + 160, false, false⟩
  lastMode := .rfc3389Cng
  playDtmf := false
  generatedNoiseSamples := 80
  packetBufferInfo := ⟨false, 160, 160, 160, 1⟩

def silenceLogic : DecisionLogic where
  delayManager := ⟨4 * 2 ^ 8, 4, 20⟩
  bufferLevelFilter := ⟨253, 0⟩
  tick := 100
  finished c now := decide (c.ticksToCount ≤ now - c.start)
  sampleRate := .hz8000
  outputSizeSamples := 80
  cngState := .rfc3389On
  noiseFastForward := 0
  packetLengthSamples := 160
  sampleMemory := 0
  prevTimeScale := false
  disallowTimeStretching := false
  timescaleCountdown := some ⟨0, 6⟩
  numConsecutiveExpands := 0
  timeStretchedCnSamples := 0
  estimateDtxDelay := false
  timeStretchCn := false
  targetLevelWindowMs := 100

theorem getDecision_differs_at_wrap :
    (silenceLogic.getDecision (silenceStatus 0xFFFFFF60) false).1 = .normal ∧
      (silenceLogic.getDecision ((silenceStatus 0xFFFFFF60).translate 0xA0) false).1 =
        .rfc3389CngNoPacket := by
  decide +kernel

end DecisionLogic

end WebRtcAudio.NetEq
