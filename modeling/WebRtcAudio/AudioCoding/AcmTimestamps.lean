import WebRtcAudio.AudioCoding.AudioCodingModule
import WebRtcAudio.Core.Run
import Mathlib.Data.Nat.ModEq
import Mathlib.Tactic.Ring

/-! The timestamps of a run of 10 ms frames. -/
namespace WebRtcAudio.AudioCoding

open WebRtcAudio.Core List Option

variable {a b advance : ℕ}

theorem ofNat_eq_ofNat_iff : UInt32.ofNat a = UInt32.ofNat b ↔ a ≡ b [MOD 2 ^ 32] := by
  rw [← UInt32.toNat_inj, UInt32.toNat_ofNat', UInt32.toNat_ofNat']
  rfl

theorem checkedDivExact_of_dvd (h : b ∣ a) : checkedDivExact a b = .ok (a / b) :=
  if_neg (not_not.2 (Nat.mod_eq_zero_of_dvd h))

theorem checkedDivExact_of_not_dvd (h : ¬ b ∣ a) :
    checkedDivExact a b = .error .notEvenlyDivisible :=
  if_pos fun hz => h (Nat.dvd_of_mod_eq_zero hz)

namespace AudioCodingModuleImpl

variable {t0 rtpTimestamp : UInt32}

section Frame

variable {acm : AudioCodingModuleImpl} {encoder : AudioEncoder} {inFrame : AudioFrame}

theorem expectedInTs_expectTimestamp :
    (acm.expectTimestamp encoder inFrame).expectedInTs = inFrame.timestamp := by
  unfold expectTimestamp
  split_ifs with hfirst hj
  · rfl
  · rfl
  · exact (not_not.1 hj).symm

/-- After the first frame a jump of the input is scaled by the integer quotient of the rates; a
frame in time is a jump by zero. -/
theorem expectedCodecTs_expectTimestamp (hfirst : acm.first10msData = true) :
    (acm.expectTimestamp encoder inFrame).expectedCodecTs =
      acm.expectedCodecTs + (inFrame.timestamp - acm.expectedInTs) *
        UInt32.ofNat (encoder.sampleRateHz / inFrame.sampleRateHz) := by
  unfold expectTimestamp
  rw [hfirst]
  by_cases hj : inFrame.timestamp = acm.expectedInTs
  · simp [hj]
  · simp [hj]

theorem expectedCodecTs_expectTimestamp_ahead (encoder : AudioEncoder)
    (hfirst : acm.first10msData = true) {inAdvance codecAdvance samples : ℕ}
    (hin : acm.expectedInTs = t0 + UInt32.ofNat inAdvance)
    (hcodec : acm.expectedCodecTs = t0 + UInt32.ofNat codecAdvance)
    (ht : inFrame.timestamp = t0 + UInt32.ofNat (inAdvance + samples)) :
    (acm.expectTimestamp encoder inFrame).expectedCodecTs = t0 + UInt32.ofNat
      (codecAdvance + samples * (encoder.sampleRateHz / inFrame.sampleRateHz)) := by
  have ha : inFrame.timestamp - acm.expectedInTs = UInt32.ofNat samples := by
    rw [ht, hin, UInt32.ofNat_add, ← UInt32.add_assoc, UInt32.add_comm _ (.ofNat samples),
      UInt32.add_sub_cancel]
  rw [expectedCodecTs_expectTimestamp hfirst, ha, hcodec, UInt32.ofNat_add, UInt32.ofNat_mul,
    UInt32.add_assoc]

theorem expectTimestamp_eq : acm.expectTimestamp encoder inFrame = { acm with
      expectedInTs := inFrame.timestamp
      expectedCodecTs := (acm.expectTimestamp encoder inFrame).expectedCodecTs
      first10msData := true } := by
  unfold expectTimestamp
  split_ifs with hfirst hj
  · rfl
  · rw [← (show acm.first10msData = true by simpa using hfirst)]
  · rw [← (show acm.first10msData = true by simpa using hfirst), not_not.1 hj]

theorem first10msData_expectTimestamp :
    (acm.expectTimestamp encoder inFrame).first10msData = true := by
  rw [expectTimestamp_eq]

/-- Whatever is done to its audio, a 10 ms frame is handed on with the expected timestamp and
moves the expectations on by 10 ms at both rates. -/
theorem preprocessToAddData_eq (acm : AudioCodingModuleImpl) (encoder : AudioEncoder)
    (inFrame : AudioFrame) (hrate : 0 < inFrame.sampleRateHz)
    (he : 0 < encoder.sampleRateHz) (hchannels : 0 < inFrame.numChannels)
    (hs : inFrame.samplesPerChannel = inFrame.sampleRateHz / 100) :
    ∃ out, acm.preprocessToAddData encoder inFrame =
        ((acm.expectTimestamp encoder inFrame).advance (encoder.sampleRateHz / 100)
          (inFrame.sampleRateHz / 100), some out) ∧
      out.timestamp = (acm.expectTimestamp encoder inFrame).expectedCodecTs ∧
      out.samplesPerChannel = encoder.sampleRateHz / 100 := by
  unfold preprocessToAddData
  by_cases hr : inFrame.sampleRateHz = encoder.sampleRateHz
  · by_cases hd : inFrame.numChannels = 2 ∧ encoder.numChannels = 1
    · simp only [hd, hr, hs, ne_eq, not_true_eq_false, and_self, if_false]
      exact ⟨_, rfl, rfl, rfl⟩
    · simp only [hd, hr, hs, ne_eq, not_false_eq_true, not_true_eq_false,
        and_self, if_true]
      refine ⟨_, rfl, ?_, ?_⟩
      · split_ifs with hsame
        · rw [← hsame, expectedInTs_expectTimestamp]
        · rfl
      · split_ifs <;> simp [hs, hr]
  · have hn : (if inFrame.numChannels = 2 ∧ encoder.numChannels = 1 then 1
        else inFrame.numChannels) ≠ 0 := by
      split_ifs <;> omega
    have hrsm : resample10Msec inFrame.sampleRateHz encoder.sampleRateHz
        (if inFrame.numChannels = 2 ∧ encoder.numChannels = 1 then 1 else inFrame.numChannels)
        kMaxDataSizeSamples = some (encoder.sampleRateHz / 100) := by
      rw [resample10Msec, if_neg hr, if_neg (by omega),
        Nat.mul_div_cancel _ (Nat.pos_of_ne_zero hn)]
    simp only [hr, hrsm, hs, ne_eq, not_false_eq_true, not_true_eq_false,
      and_false, if_false, if_true]
    exact ⟨_, rfl, rfl, rfl⟩

end Frame

def handOn (encoder : AudioEncoder) (acm : AudioCodingModuleImpl) (inFrame : AudioFrame) :
    AudioCodingModuleImpl × Option UInt32 :=
  ((acm.preprocessToAddData encoder inFrame).1,
    (acm.preprocessToAddData encoder inFrame).2.map AudioFrame.timestamp)

/-- 10 ms frames at a rate `f` after a frame whose timestamp is `advance` past `t0`. Each frame
has a number of channels, and before it the input skips `gap * (f / gcd f c)` samples. -/
def framesAfter (t0 : UInt32) (f c : ℕ) : ℕ → List (ℕ × ℕ) → List AudioFrame
  | _, [] => []
  | advance, (gap, numChannels) :: rest =>
    let advance := advance + f / 100 + gap * (f / f.gcd c)
    ⟨t0 + UInt32.ofNat advance, f, numChannels, f / 100⟩ :: framesAfter t0 f c advance rest

def scaledTimestamps (t0 : UInt32) (f c : ℕ) : ℕ → List (ℕ × ℕ) → List UInt32
  | _, [] => []
  | advance, (gap, _) :: rest =>
    let advance := advance + f / 100 + gap * (f / f.gcd c)
    (t0 + UInt32.ofNat (advance * c / f)) :: scaledTimestamps t0 f c advance rest

def GapScales (f c gap : ℕ) : Prop :=
  gap * (f / f.gcd c) * (c / f) ≡ gap * (c / f.gcd c) [MOD 2 ^ 32]

instance (f c gap : ℕ) : Decidable (GapScales f c gap) :=
  inferInstanceAs (Decidable (_ ≡ _ [MOD _]))

theorem advance_mul_div {f c : ℕ} (gap : ℕ) (hf : 0 < f) (hf100 : 100 ∣ f) (hc100 : 100 ∣ c)
    (hdvd : f ∣ advance * c) : f ∣ (advance + f / 100 + gap * (f / f.gcd c)) * c ∧
      (advance + f / 100 + gap * (f / f.gcd c)) * c / f =
        advance * c / f + c / 100 + gap * (c / f.gcd c) := by
  have hframe : f / 100 * c = f * (c / 100) := by
    obtain ⟨m, rfl⟩ := hf100
    obtain ⟨n, rfl⟩ := hc100
    rw [Nat.mul_div_cancel_left _ (by decide), Nat.mul_div_cancel_left _ (by decide)]
    ring
  have hgap : f / f.gcd c * c = f * (c / f.gcd c) := by
    rw [Nat.div_mul_right_comm (Nat.gcd_dvd_left f c), Nat.mul_div_assoc _ (Nat.gcd_dvd_right f c)]
  obtain ⟨k, hk⟩ := hdvd
  have hsum : (advance + f / 100 + gap * (f / f.gcd c)) * c =
      f * (k + c / 100 + gap * (c / f.gcd c)) := by
    rw [add_mul, add_mul, mul_assoc gap, hk, hframe, hgap]
    ring
  rw [hsum, hk]
  exact ⟨dvd_mul_right _ _, by rw [Nat.mul_div_cancel_left _ hf, Nat.mul_div_cancel_left _ hf]⟩

variable {acm : AudioCodingModuleImpl}

section Run

variable (encoder : AudioEncoder) {f : ℕ} (hf : 0 < f) (hc : 0 < encoder.sampleRateHz)
  (hf100 : 100 ∣ f) (hc100 : 100 ∣ encoder.sampleRateHz)
include hf hc hf100 hc100

/-- Once the expectations are in step with a frame, the frames after it are handed on with the
scaled timestamps exactly if each of their gaps scales. -/
theorem runResults_framesAfter_iff {frames : List (ℕ × ℕ)} (hchannels : ∀ p ∈ frames, 0 < p.2)
    (hfirst : acm.first10msData = true) (hdvd : f ∣ advance * encoder.sampleRateHz)
    (hin : acm.expectedInTs = t0 + UInt32.ofNat (advance + f / 100))
    (hcodec : acm.expectedCodecTs = t0 +
      UInt32.ofNat (advance * encoder.sampleRateHz / f + encoder.sampleRateHz / 100)) :
    runResults (handOn encoder) acm (framesAfter t0 f encoder.sampleRateHz advance frames) =
        (scaledTimestamps t0 f encoder.sampleRateHz advance frames).map some ↔
      ∀ p ∈ frames, GapScales f encoder.sampleRateHz p.1 := by
  induction frames generalizing acm advance with
  | nil => simp [framesAfter, scaledTimestamps]
  | cons p frames ih =>
    obtain ⟨gap, numChannels⟩ := p
    generalize ha : advance + f / 100 + gap * (f / f.gcd encoder.sampleRateHz) = advance'
    obtain ⟨inFrame, hframe⟩ : ∃ inFrame : AudioFrame,
      inFrame = ⟨t0 + UInt32.ofNat advance', f, numChannels, f / 100⟩ := ⟨_, rfl⟩
    obtain ⟨hdvd', hs⟩ := advance_mul_div gap hf hf100 hc100 hdvd
    rw [ha] at hdvd' hs
    have hn : 0 < inFrame.numChannels := by
      rw [hframe]
      exact hchannels _ mem_cons_self
    obtain ⟨out, hout, ht, -⟩ := preprocessToAddData_eq acm encoder inFrame
      (by rw [hframe]; exact hf) hc hn (by rw [hframe])
    -- The timestamp after the jump is the right one exactly if the gap scales.
    have hj := expectedCodecTs_expectTimestamp_ahead encoder hfirst hin hcodec
      (show inFrame.timestamp = _ by rw [hframe, ← ha])
    have hg : some out.timestamp =
        some (t0 + UInt32.ofNat (advance' * encoder.sampleRateHz / f)) ↔
          GapScales f encoder.sampleRateHz gap := by
      rw [some_inj, ht, hj, hs, UInt32.add_right_inj, ofNat_eq_ofNat_iff, hframe]
      exact (Nat.ModEq.refl _).add_iff_left
    simp only [framesAfter, scaledTimestamps, ha, ← hframe, runResults_cons, map_cons,
      List.cons.injEq, forall_mem_cons, handOn, hout, map_some, hg]
    refine and_congr_right fun hscale => ih (fun q hq => hchannels q (mem_cons_of_mem _ hq))
      first10msData_expectTimestamp hdvd' ?_ ?_
    · change (acm.expectTimestamp encoder inFrame).expectedInTs + _ = _
      rw [expectedInTs_expectTimestamp, hframe, UInt32.add_assoc, ← UInt32.ofNat_add]
    · change (acm.expectTimestamp encoder inFrame).expectedCodecTs + _ = _
      rw [← ht, some_inj.1 (hg.2 hscale), UInt32.add_assoc, ← UInt32.ofNat_add]

/-- From the first frame on, every frame is handed on with its time at the rate of the encoder
exactly if the integer quotient of the rates scales each gap of the input right. -/
theorem preprocessToAddData_timestamps_iff (t0 : UInt32) (numChannels : ℕ)
    (hnumChannels : 0 < numChannels) (acm : AudioCodingModuleImpl)
    (hfirst : acm.first10msData = false) (frames : List (ℕ × ℕ))
    (hchannels : ∀ p ∈ frames, 0 < p.2) : runResults (handOn encoder) acm
        (⟨t0, f, numChannels, f / 100⟩ :: framesAfter t0 f encoder.sampleRateHz 0 frames) =
      some t0 :: (scaledTimestamps t0 f encoder.sampleRateHz 0 frames).map some ↔
    ∀ p ∈ frames, GapScales f encoder.sampleRateHz p.1 := by
  obtain ⟨inFrame, hframe⟩ : ∃ inFrame : AudioFrame,
    inFrame = ⟨t0, f, numChannels, f / 100⟩ := ⟨_, rfl⟩
  obtain ⟨out, hout, ht, -⟩ := preprocessToAddData_eq acm encoder inFrame
    (by rw [hframe]; exact hf) hc (by rw [hframe]; exact hnumChannels) (by rw [hframe])
  have hcodec : (acm.expectTimestamp encoder inFrame).expectedCodecTs = t0 := by
    rw [expectTimestamp, hfirst, hframe]
    rfl
  rw [← hframe, runResults_cons, handOn, hout, map_some, ht, hcodec,
    List.cons.injEq, and_iff_right rfl]
  refine runResults_framesAfter_iff encoder hf hc hf100 hc100 hchannels
    first10msData_expectTimestamp
    (by simp) ?_ ?_
  · change (acm.expectTimestamp encoder inFrame).expectedInTs + _ = _
    rw [expectedInTs_expectTimestamp, hframe, Nat.zero_add]
  · change (acm.expectTimestamp encoder inFrame).expectedCodecTs + _ = _
    rw [hcodec, Nat.zero_mul, Nat.zero_div, Nat.zero_add]

end Run

theorem preprocessToAddData_timestamps_upsampled :
    runResults (handOn ⟨48000, 48000, 1⟩) (create 0 0)
        [⟨7, 16000, 2, 160⟩, ⟨167, 16000, 1, 160⟩, ⟨487, 16000, 1, 160⟩] =
      [some 7, some 487, some 1447] :=
  (preprocessToAddData_timestamps_iff ⟨48000, 48000, 1⟩ (f := 16000) (by decide) (by decide)
    (by decide) (by decide) 7 2 (by decide) (create 0 0) rfl [(0, 1), (160, 1)]
    (by decide)).2 (by decide)

theorem preprocessToAddData_loses_gap : runResults (handOn ⟨16000, 16000, 1⟩) (create 0 0)
        (⟨0, 48000, 1, 480⟩ :: framesAfter 0 48000 16000 0 [(160, 1)]) = [some 0, some 160] ∧
      scaledTimestamps 0 48000 16000 0 [(160, 1)] = [320] := by
  decide

structure WellFormed (encoder : AudioEncoder) (frame : AudioFrame) : Prop where
  rate : frame.sampleRateHz = encoder.sampleRateHz
  samples : frame.samplesPerChannel * 100 = frame.sampleRateHz
  samples_pos : 0 < frame.samplesPerChannel
  rate_le : frame.sampleRateHz ≤ kMaxInputSampleRateHz
  channels : frame.numChannels ∈ [1, 2, 4, 6, 8]

def sendFrame (acm : AudioCodingModuleImpl) (frame : AudioFrame) :
    Option (AudioCodingModuleImpl × Option UInt32) :=
  (acm.add10MsData frame).toOption

def rtpTimestamps (encoder : AudioEncoder) : UInt32 → UInt32 → List AudioFrame → List UInt32
  | _, _, [] => []
  | lastTimestamp, lastRtpTimestamp, frame :: frames =>
    let rtpTimestamp := lastRtpTimestamp + UInt32.ofNat
      ((frame.timestamp - lastTimestamp).toNat * encoder.rtpTimestampRateHz / encoder.sampleRateHz)
    rtpTimestamp :: rtpTimestamps encoder frame.timestamp rtpTimestamp frames

def WholeTicks (encoder : AudioEncoder) (lastTimestamp timestamp : UInt32) : Prop :=
  encoder.sampleRateHz ∣ (timestamp - lastTimestamp).toNat * encoder.rtpTimestampRateHz

/-- The module with an encoder, as frames at the rate of the encoder leave it: both expected
timestamps agree. -/
structure InStep (encoder : AudioEncoder) (acm : AudioCodingModuleImpl) : Prop where
  encoderStack : acm.encoderStack = some encoder
  expected : acm.first10msData = true → acm.expectedCodecTs = acm.expectedInTs

section Frame

variable {acm : AudioCodingModuleImpl} {encoder : AudioEncoder} {frame : AudioFrame}

theorem expectedCodecTs_of_same_rate (hs : InStep encoder acm)
    (hr : frame.sampleRateHz = encoder.sampleRateHz) (hpos : 0 < encoder.sampleRateHz) :
    (acm.expectTimestamp encoder frame).expectedCodecTs = frame.timestamp := by
  cases hfirst : acm.first10msData with
  | false =>
    rw [expectTimestamp, hfirst]
    rfl
  | true =>
    rw [expectedCodecTs_expectTimestamp hfirst, hs.expected hfirst, hr, Nat.div_self hpos,
      show UInt32.ofNat 1 = 1 from rfl, UInt32.mul_one, UInt32.add_comm, UInt32.sub_add_cancel]

theorem add10MsData_eq_encode (hs : InStep encoder acm) (hframe : WellFormed encoder frame) :
    ∃ acm', acm.add10MsData frame =
        acm'.encode ⟨frame.timestamp, encoder.sampleRateHz / 100, encoder.numChannels⟩ ∧
      InStep encoder acm' ∧ acm'.first10msData = true ∧ acm'.firstFrame = acm.firstFrame ∧
      acm'.lastTimestamp = acm.lastTimestamp ∧ acm'.lastRtpTimestamp = acm.lastRtpTimestamp := by
  obtain ⟨hr, hsamples, hsamplesPos, hrateLe, hchannels⟩ := hframe
  have hpos : 0 < frame.sampleRateHz := by omega
  have hn : 0 < frame.numChannels := by
    simp only [mem_cons, not_mem_nil, or_false] at hchannels
    omega
  have hcodec := expectedCodecTs_of_same_rate hs hr (hr ▸ hpos)
  obtain ⟨out, hout, ht, ho⟩ := preprocessToAddData_eq acm encoder frame hpos
    (hr ▸ hpos) hn (by omega)
  refine ⟨(acm.expectTimestamp encoder frame).advance (encoder.sampleRateHz / 100)
    (frame.sampleRateHz / 100), ?_, ?_⟩
  · unfold add10MsData add10MsDataInternal
    rw [if_neg (by omega), if_neg (by omega), if_neg (by omega), if_neg, hs.encoderStack]
    · simp only [hout, ht, hcodec, ho]
    · simp only [mem_cons, not_mem_nil, or_false] at hchannels
      omega
  · rw [expectTimestamp_eq, hcodec, hr]
    exact ⟨⟨hs.encoderStack, fun _ => rfl⟩, rfl, rfl, rfl, rfl⟩

end Frame

/-- After a frame: the timestamps that the next frame is compared with. -/
structure Sent (encoder : AudioEncoder) (timestamp rtpTimestamp : UInt32)
    (acm : AudioCodingModuleImpl) : Prop where
  inStep : InStep encoder acm
  firstFrame : acm.firstFrame = false
  lastTimestamp : acm.lastTimestamp = timestamp
  lastRtpTimestamp : acm.lastRtpTimestamp = rtpTimestamp

section Send

variable {acm : AudioCodingModuleImpl} {encoder : AudioEncoder} {frame : AudioFrame}

theorem encode_ok (hframe : WellFormed encoder frame) (rtpTimestamp : UInt32) :
    encoder.encode rtpTimestamp (encoder.numChannels * (encoder.sampleRateHz / 100)) =
      .ok rtpTimestamp := by
  have h100 : 100 ∣ encoder.sampleRateHz := ⟨frame.samplesPerChannel, by
    rw [← hframe.rate, ← hframe.samples, Nat.mul_comm]⟩
  rw [AudioEncoder.encode, Nat.mul_div_assoc _ h100]
  exact if_neg (not_not.2 rfl)

theorem sendFrame_first (hs : InStep encoder acm) (hfirst : acm.firstFrame = true)
    (hframe : WellFormed encoder frame) :
    ∃ acm', sendFrame acm frame = some (acm', some frame.timestamp) ∧
      Sent encoder frame.timestamp frame.timestamp acm' := by
  obtain ⟨acm', heq, hs', -, hfirst', -, -⟩ := add10MsData_eq_encode hs hframe
  refine ⟨{ acm' with
    lastTimestamp := frame.timestamp
    lastRtpTimestamp := frame.timestamp
    firstFrame := false }, ?_, ⟨hs'.1, hs'.2⟩, rfl, rfl, rfl⟩
  rw [sendFrame, heq, encode, hs'.encoderStack, hfirst', hfirst]
  simp only [if_true, bind, Except.bind, encode_ok hframe]
  rfl

theorem sendFrame_later {timestamp : UInt32} (hs : Sent encoder timestamp rtpTimestamp acm)
    (hframe : WellFormed encoder frame) :
    if encoder.sampleRateHz ∣ (frame.timestamp - timestamp).toNat * encoder.rtpTimestampRateHz then
      ∃ acm', sendFrame acm frame = some (acm', some (rtpTimestamp + UInt32.ofNat
          ((frame.timestamp - timestamp).toNat * encoder.rtpTimestampRateHz /
            encoder.sampleRateHz))) ∧ Sent encoder frame.timestamp (rtpTimestamp + UInt32.ofNat
          ((frame.timestamp - timestamp).toNat * encoder.rtpTimestampRateHz /
            encoder.sampleRateHz)) acm'
    else sendFrame acm frame = none := by
  obtain ⟨acm', heq, hstep', -, hfirst', hlast, hl⟩ := add10MsData_eq_encode hs.inStep hframe
  split_ifs with hw
  · refine ⟨{ acm' with
      lastTimestamp := frame.timestamp
      lastRtpTimestamp := _
      firstFrame := false }, ?_, ⟨hstep'.1, hstep'.2⟩, rfl, rfl, rfl⟩
    rw [sendFrame, heq, encode, hstep'.encoderStack, hfirst', hs.firstFrame, hlast, hl,
      hs.lastTimestamp, hs.lastRtpTimestamp]
    simp only [Bool.false_eq_true, if_false, bind, Except.bind, checkedDivExact_of_dvd hw,
      encode_ok hframe]
    rfl
  · rw [sendFrame, heq, encode, hstep'.encoderStack, hfirst', hs.firstFrame, hlast,
      hs.lastTimestamp]
    simp only [Bool.false_eq_true, if_false, bind, Except.bind, checkedDivExact_of_not_dvd hw]
    rfl

end Send

/-- After a frame, the frames are all sent with the scaled timestamps exactly if there are whole
ticks between each two of them. -/
theorem runPartial_sendFrame_iff {encoder : AudioEncoder} {last : AudioFrame}
    {frames : List AudioFrame} (hsent : Sent encoder last.timestamp rtpTimestamp acm)
    (hframes : ∀ frame ∈ frames, WellFormed encoder frame) :
    (∃ acm', runPartial sendFrame acm frames =
        some (acm', (rtpTimestamps encoder last.timestamp rtpTimestamp frames).map some)) ↔
      (last :: frames).IsChain fun a b => WholeTicks encoder a.timestamp b.timestamp := by
  induction frames generalizing acm last rtpTimestamp with
  | nil => simp [runPartial, rtpTimestamps]
  | cons frame frames ih =>
    rw [isChain_cons_cons]
    have hs := sendFrame_later hsent (hframes frame mem_cons_self)
    split_ifs at hs with hw
    · obtain ⟨acm', hsend, hsent'⟩ := hs
      rw [and_iff_right (show WholeTicks encoder last.timestamp frame.timestamp from hw),
        ← ih hsent' fun other h => hframes other (mem_cons_of_mem _ h)]
      exact exists_congr fun _ => runPartial_cons_eq_some_iff hsend
    · refine iff_of_false ?_ fun hchain => hw hchain.1
      rw [runPartial_none_of_head hs]
      simp

/-- From a new module with an encoder, well-formed frames are all sent, with RTP timestamps that
advance by the time between the frames, exactly if these times are whole numbers of ticks. -/
theorem add10MsData_rtpTimestamps_iff (encoder : AudioEncoder) (acm : AudioCodingModuleImpl)
    (hencoder : acm.encoderStack = some encoder) (hnew : acm.first10msData = false)
    (hfirst : acm.firstFrame = true) (first : AudioFrame) (frames : List AudioFrame)
    (hframes : ∀ frame ∈ first :: frames, WellFormed encoder frame) :
    (∃ acm', runPartial sendFrame acm (first :: frames) = some (acm',
        (first.timestamp :: rtpTimestamps encoder first.timestamp first.timestamp frames).map
          some)) ↔
      (first :: frames).IsChain fun a b => WholeTicks encoder a.timestamp b.timestamp := by
  have hs : InStep encoder acm := ⟨hencoder, fun h => absurd (hnew.symm.trans h) (by decide)⟩
  obtain ⟨acm', hsend, hsent⟩ := sendFrame_first hs hfirst (hframes first mem_cons_self)
  rw [← runPartial_sendFrame_iff hsent fun frame h => hframes frame (mem_cons_of_mem _ h)]
  exact exists_congr fun _ => runPartial_cons_eq_some_iff hsend

theorem add10MsData_rtpTimestamps_g722 :
    ∃ acm', runPartial sendFrame { create 0 0 with encoderStack := some (audioEncoderG722 1) }
      [⟨5, 16000, 1, 160⟩, ⟨325, 16000, 2, 160⟩] = some (acm', [some 5, some 165]) :=
  (add10MsData_rtpTimestamps_iff (audioEncoderG722 1) _ rfl rfl rfl ⟨5, 16000, 1, 160⟩
    [⟨325, 16000, 2, 160⟩] (by
      intro frame hframe
      obtain rfl | rfl : frame = _ ∨ frame = _ := by simpa using hframe
      all_goals constructor <;> decide)).2 (by
      rw [isChain_cons_cons]
      refine ⟨?_, .singleton _⟩
      change (16000 : ℕ) ∣ (325 - 5 : UInt32).toNat * 8000
      exact ⟨160, rfl⟩)

theorem add10MsData_aborts_g722 : isNewerTimestamp 161 0 = true ∧
      runPartial sendFrame { create 0 0 with encoderStack := some (audioEncoderG722 1) }
        [⟨0, 16000, 1, 160⟩, ⟨161, 16000, 1, 160⟩] = none := by
  decide

end AudioCodingModuleImpl

end WebRtcAudio.AudioCoding
