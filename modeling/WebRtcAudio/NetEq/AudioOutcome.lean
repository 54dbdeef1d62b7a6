import WebRtcAudio.NetEq.DecisionOutcome

/-! What decoding and performing the operation leave. -/
namespace WebRtcAudio.NetEq

open WebRtcAudio.Core Option

namespace NetEqImpl

variable {s t : NetEqImpl} {db : DecoderDatabase} {a : Answers}

/-- Every decoder of the database has a reasonable number of channels and frames of reasonable
length. -/
def FrameSizes (db : DecoderDatabase) : Prop :=
  ∀ rtpPayloadType info, db.getDecoderInfo rtpPayloadType = some info → info.channels < 2 ^ 20 ∧
    ∀ payload timestamp, ∀ result ∈ info.parsePayload payload timestamp,
      result.frame.duration < 2 ^ 30

theorem setSampleRateAndChannels_spec {fsHz : ℤ} {channels : ℕ} (hc : channels < 2 ^ 20)
    (hs : WellSized db s) (h : s.setSampleRateAndChannels fsHz channels = some t) :
    WellSized db t ∧ t.lastMode = .normal ∧ t.newCodec = s.newCodec := by
  rw [setSampleRateAndChannels] at h
  split_ifs at h
  obtain ⟨fs, -, rfl⟩ := map_eq_some_iff.mp h
  have hhz := hz_le fs
  exact ⟨⟨hs.packets, rfl, by dsimp only; omega, hc⟩, rfl, rfl⟩

theorem getDecoder_eq_some {rtpPayloadType : UInt8} {info : DecoderInfo}
    (h : db.getDecoder rtpPayloadType = some info) :
    db.getDecoderInfo rtpPayloadType = some info := (filter_eq_some_iff.mp h).1

theorem updateSampleRateAndChannels_spec (hdb : FrameSizes db) (hs : WellSized db s)
    (h : s.updateSampleRateAndChannels db = some t) :
    WellSized db t ∧ (t.lastMode = s.lastMode ∨ t.lastMode = .normal) ∧
      t.newCodec = s.newCodec := by
  rw [updateSampleRateAndChannels] at h
  split at h
  · cases h
    exact ⟨hs, .inl rfl, rfl⟩
  · obtain ⟨info, hi, h⟩ := bind_eq_some_iff.mp h
    have hc : (if info.isComfortNoise then 1 else info.channels) < 2 ^ 20 := by
      split_ifs
      · omega
      · exact (hdb _ info hi).1
    dsimp only at h
    generalize (if info.isComfortNoise then 1 else info.channels) = channels at h hc
    split_ifs at h with hne
    · obtain ⟨hsized, hm, hcodec⟩ := setSampleRateAndChannels_spec hc hs h
      exact ⟨hsized, .inr hm, hcodec⟩
    · cases h
      exact ⟨hs, .inl rfl, rfl⟩

section
variable {channels decodedBufferLength : ℕ} {packetList : List Packet} {d : DecodeState}

theorem decodeLoop_frameLength (hdecode : ∀ p r, a.decode p = some r → r.numDecodedSamples < 2 ^ 30)
    (hd : d.decoderFrameLength < 2 ^ 30) :
    (decodeLoop db a channels decodedBufferLength packetList d).decoderFrameLength < 2 ^ 30 := by
  induction packetList generalizing d with
  | nil => exact hd
  | cons packet packetList ih =>
    rw [decodeLoop]
    split_ifs with hcng
    · exact hd
    · cases hr : a.decode packet with
      | none => exact hd
      | some result =>
        have hlen : result.numDecodedSamples / channels < 2 ^ 30 :=
          (Nat.div_le_self _ _).trans_lt (hdecode packet result hr)
        dsimp only
        split_ifs
        · exact hlen
        · exact ih (by exact hlen)
        · exact hd
        · exact ih hd

theorem decodeLoop_length_ne_zero (hd : 0 < d.decodedLength) :
    (decodeLoop db a channels decodedBufferLength packetList d).decodedLength ≠ 0 := by
  induction packetList generalizing d with
  | nil => exact hd.ne'
  | cons packet packetList ih =>
    rw [decodeLoop]
    split_ifs with hcng
    · exact hd.ne'
    · cases hr : a.decode packet with
      | none => simp
      | some result =>
        dsimp only
        split_ifs
        · dsimp only
          omega
        · exact ih (by dsimp only; omega)
        · exact hd.ne'
        · exact ih hd

end

variable {packetList : List Packet}

theorem decodeLoop_cons_length_ne_zero {channels decodedBufferLength : ℕ} {packet : Packet}
    {d : DecodeState} (hd : d.decodedLength = 0)
    (hs : db.isComfortNoise packet.payloadType = false)
    (hdecode : ∀ r, a.decode packet = some r → r.numDecodedSamples ≠ 0) :
    (decodeLoop db a channels decodedBufferLength (packet :: packetList) d).decodedLength ≠ 0 := by
  rw [decodeLoop, if_neg (by simp [hs])]
  cases hr : a.decode packet with
  | none => simp
  | some result =>
    have hpos : 0 < result.numDecodedSamples := Nat.pos_of_ne_zero (hdecode result hr)
    dsimp only
    rw [if_pos hpos]
    split_ifs
    · dsimp only
      omega
    · exact decodeLoop_length_ne_zero (by dsimp only; omega)

/-- Decoding keeps the codec flag; it keeps the mode and the rate too, or resets to normal mode. -/
structure DecodesTo (db : DecoderDatabase) (s : NetEqImpl) (operation : Operation) (d : Decoded) :
    Prop where
  wellSized : WellSized db d.state
  newCodec : d.state.newCodec = s.newCodec
  lastMode : d.state.lastMode = s.lastMode ∧ d.state.fs = s.fs ∨ d.state.lastMode = .normal
  operation : d.operation = operation ∨ d.operation = .expand

variable {samplesLeft : ℕ} {decoder : Option DecoderInfo}

theorem decodeWith_spec {operation : Operation} (hs : WellSized db s)
    (hd : ∀ p r, a.decode p = some r → r.numDecodedSamples < 2 ^ 30) : DecodesTo db s operation
      (s.decodeWith db a operation packetList decoder samplesLeft) := by
  have hlen : (decodeCng a decoder s.decodedBufferLength
      ⟨0, .speech, s.decoderFrameLength, packetList, true⟩).decoderFrameLength < 2 ^ 30 := by
    rw [decodeCng]
    split_ifs
    · exact hs.decoderFrameLength
    · split <;> exact hs.decoderFrameLength
  unfold decodeWith decodeEnd
  dsimp only
  refine ⟨{ hs with decoderFrameLength := ?_ }, rfl, .inl ⟨rfl, rfl⟩, ?_⟩
  · dsimp only
    split_ifs
    · exact hlen
    · exact decodeLoop_frameLength hd hs.decoderFrameLength
  · dsimp only
    split_ifs <;> simp

theorem activate_spec {payloadType : UInt8} {decoder : DecoderInfo} {n : ℕ}
    (hc : decoder.channels < 2 ^ 20) (hs : WellSized db s)
    (h : s.activate payloadType decoder samplesLeft = some (t, n)) :
    WellSized db t ∧ t.newCodec = s.newCodec ∧
      (t.lastMode = s.lastMode ∧ t.fs = s.fs ∧ n = samplesLeft ∨ t.lastMode = .normal) := by
  rw [activate] at h
  dsimp only at h
  split_ifs at h with ha hchannel
  · cases h
    exact ⟨hs, rfl, .inl ⟨rfl, rfl, rfl⟩⟩
  · obtain ⟨r, hr, heq⟩ := map_eq_some_iff.mp h
    obtain ⟨u, hu, rfl⟩ := map_eq_some_iff.mp hr
    cases heq
    obtain ⟨hsized, hm, hcodec⟩ := setSampleRateAndChannels_spec hc
      (s := { s with activeDecoderType := some payloadType })
      { hs with } hu
    exact ⟨{ hsized with }, hcodec,
      .inr hm⟩
  · obtain ⟨r, hr, heq⟩ := map_eq_some_iff.mp h
    cases hr
    cases heq
    exact ⟨{ hs with }, rfl,
      .inl ⟨rfl, rfl, rfl⟩⟩

variable {decoded : Decoded}

/-- What `Decode` leaves, whichever decoder it finds or activates. -/
theorem decode_spec (hdb : FrameSizes db) {d : Decision} (hs : WellSized db d.state)
    (hd : ∀ p r, a.decode p = some r → r.numDecodedSamples < 2 ^ 30)
    (h : decode db a d = some decoded) : DecodesTo db d.state d.operation decoded := by
  rw [decode] at h
  split at h
  · cases h
    exact decodeWith_spec hs hd
  · split_ifs at h with hcng
    · cases h
      exact decodeWith_spec hs hd
    · split at h
      · cases h
        exact ⟨hs, rfl, .inl ⟨rfl, rfl⟩, .inl rfl⟩
      · rename_i decoder hdecoded
        obtain ⟨⟨t, n⟩, ht, rfl⟩ := map_eq_some_iff.mp h
        have hc := (hdb _ decoder (getDecoder_eq_some hdecoded)).1
        obtain ⟨hsized, hcodec, hmode⟩ := activate_spec hc hs ht
        have hw : DecodesTo db t d.operation
            (t.decodeWith db a d.operation d.packetList (some decoder) n) :=
          decodeWith_spec hsized hd
        refine ⟨hw.wellSized, hw.newCodec.trans hcodec, ?_, hw.operation⟩
        rcases hw.lastMode with ⟨hm, hf⟩ | hm
        · rcases hmode with ⟨hm', hf', -⟩ | hm'
          · exact .inl ⟨hm.trans hm', hf.trans hf'⟩
          · exact .inr (hm.trans hm')
        · exact .inr hm

/-- An operation that leads out of the error mode: it expands, or it plays decoded samples. -/
def Clears (d : Decoded) : Prop :=
  d.operation = .expand ∧ d.samplesLeft < d.state.outputSizeSamples ∨
    d.operation = .normal ∧ d.length ≠ 0

theorem decodeWith_clears {packet : Packet} {rest : List Packet}
    (hl : samplesLeft < s.outputSizeSamples)
    (hs : db.isComfortNoise packet.payloadType = false)
    (hd : ∀ r, a.decode packet = some r → r.numDecodedSamples ≠ 0) :
    Clears (s.decodeWith db a .normal (packet :: rest) decoder samplesLeft) := by
  have hlen : (decodeLoop db a (decoder.elim 0 (·.channels)) s.decodedBufferLength
      (packet :: rest)
      ⟨0, .speech, s.decoderFrameLength, packet :: rest, true⟩).decodedLength ≠ 0 :=
    decodeLoop_cons_length_ne_zero rfl hs hd
  unfold decodeWith decodeEnd
  dsimp only
  rw [if_neg (by simp)]
  generalize decodeLoop db a _ _ _ _ = d at *
  rcases lt_or_gt_of_ne hlen with hneg | hpos
  · exact .inl ⟨if_pos hneg, hl⟩
  · refine .inr ⟨if_neg (not_lt.mpr hpos.le), ?_⟩
    dsimp only
    omega

/-- A decision that gets on is decoded to an operation that leads out of the error mode. -/
theorem decode_clears {d : Decision} (hs : WellSized db s) (hk : Keeps s d.state)
    (hdb : FrameSizes db) (hg : GetsOn s a d)
    (hf : ∀ p, s.packetBuffer.peekNextPacket = some p → db.isComfortNoise p.payloadType = false ∧
      ∀ r, a.decode p = some r → r.numDecodedSamples ≠ 0)
    (h : decode db a d = some decoded) : decoded.state.lastMode = .normal ∨ Clears decoded := by
  obtain ⟨hleft, ⟨hop, hl⟩ | ⟨hop, packet, rest, hl, hp⟩⟩ := hg
  · right
    rw [decode, hl] at h
    cases h
    refine .inl ⟨?_, ?_⟩
    · simp [decodeWith, decodeEnd, hop, decodeLoop]
    · rw [← hk.outputSizeSamples] at hleft
      exact hleft
  · obtain ⟨hspeech, hdecoded⟩ := hf packet hp
    have hd := (hs.packets packet (List.mem_of_head? hp)).decoder
    rw [hspeech] at hd
    obtain ⟨decoder, hd⟩ := isSome_iff_exists.mp (hd.resolve_left (by simp))
    have hc := (hdb _ decoder (getDecoder_eq_some hd)).1
    rw [decode, hl] at h
    simp only [List.head?_cons, hspeech, Bool.false_eq_true, if_false, hd] at h
    obtain ⟨⟨t, n⟩, ht, rfl⟩ := map_eq_some_iff.mp h
    obtain ⟨-, -, ⟨-, hfs, rfl⟩ | hm⟩ := activate_spec hc (hs.of_keeps hk) ht
    · right
      rw [hop]
      refine decodeWith_clears ?_ hspeech hdecoded
      rw [outputSizeSamples, hfs, hk.fs]
      exact hleft
    · left
      exact hm

theorem modeUnlessCng_ne_error {speechType : SpeechType} {mode : Mode} (h : mode ≠ .error) :
    modeUnlessCng speechType mode ≠ .error := by
  rw [modeUnlessCng]
  split_ifs
  · simp
  · exact h

/-- Playing out changes none of what the next decision rests on. -/
structure Plays (s t : NetEqImpl) : Prop where
  packetBuffer : t.packetBuffer = s.packetBuffer
  newCodec : t.newCodec = s.newCodec
  fs : t.fs = s.fs
  channels : t.channels = s.channels
  decoderFrameLength : t.decoderFrameLength = s.decoderFrameLength
  controller : t.controller = s.controller

theorem Plays.trans {u : NetEqImpl} (h : Plays s t) (hu : Plays t u) : Plays s u where
  packetBuffer := hu.packetBuffer.trans h.packetBuffer
  newCodec := hu.newCodec.trans h.newCodec
  fs := hu.fs.trans h.fs
  channels := hu.channels.trans h.channels
  decoderFrameLength := hu.decoderFrameLength.trans h.decoderFrameLength
  controller := hu.controller.trans h.controller

theorem WellSized.of_plays (h : WellSized db s) (hp : Plays s t) : WellSized db t where
  packets := hp.packetBuffer ▸ h.packets
  sampleRate := by rw [hp.controller, hp.fs, h.sampleRate]
  decoderFrameLength := hp.decoderFrameLength ▸ h.decoderFrameLength
  channels := hp.channels ▸ h.channels

theorem doStretch_spec (s : NetEqImpl) (returnCode : StretchReturnCode)
    {success lowEnergy fail : Mode} (hs : success ≠ .error) (hlow : lowEnergy ≠ .error)
    (hf : fail ≠ .error) (speechType : SpeechType) :
    Plays s (s.doStretch returnCode success lowEnergy fail speechType).1 ∧
      (s.doStretch returnCode success lowEnergy fail speechType).1.lastMode ≠ .error := by
  cases returnCode with
  | success => exact ⟨⟨rfl, rfl, rfl, rfl, rfl, rfl⟩, modeUnlessCng_ne_error hs⟩
  | successLowEnergy => exact ⟨⟨rfl, rfl, rfl, rfl, rfl, rfl⟩, modeUnlessCng_ne_error hlow⟩
  | noStretch => exact ⟨⟨rfl, rfl, rfl, rfl, rfl, rfl⟩, modeUnlessCng_ne_error hf⟩
  | error => exact ⟨⟨rfl, rfl, rfl, rfl, rfl, rfl⟩, hf⟩

theorem doNormal_spec (s : NetEqImpl) (length : ℕ) (speechType : SpeechType) :
    Plays s (s.doNormal length speechType) ∧ ((s.lastMode = .error → length ≠ 0) →
      (s.doNormal length speechType).lastMode ≠ .error) := by
  unfold doNormal
  dsimp only
  split_ifs with hlen
  all_goals refine ⟨⟨rfl, rfl, rfl, rfl, rfl, rfl⟩, fun h herr => ?_⟩
  · simp at herr
  · simp at herr
  · simp at herr
  · exact hlen (h herr)

theorem doExpand_spec (s : NetEqImpl) (samplesLeft : ℕ) :
    Plays s (s.doExpand samplesLeft) ∧ ((s.lastMode = .error → samplesLeft < s.outputSizeSamples) →
      (s.doExpand samplesLeft).lastMode ≠ .error) := by
  unfold doExpand startStopwatch
  dsimp only
  split_ifs with hl
  all_goals refine ⟨⟨rfl, rfl, rfl, rfl, rfl, rfl⟩, fun h herr => ?_⟩
  · simp at herr
  · exact hl (h herr)

/-- After a defined operation the mode is not error, if it leads out of one that was there. -/
theorem perform_spec (d : Decoded) (db : DecoderDatabase) (a : Answers) :
    Plays d.state (perform d db a).1 ∧ (d.operation ≠ .undefined →
      (d.state.lastMode = .error → Clears d) → (perform d db a).1.lastMode ≠ .error) := by
  unfold perform Clears
  cases d.operation with
  | undefined => exact ⟨⟨rfl, rfl, rfl, rfl, rfl, rfl⟩, fun ho => absurd rfl ho⟩
  | normal =>
    obtain ⟨hp, hm⟩ := d.state.doNormal_spec d.length d.speechType
    exact ⟨hp, fun _ h => hm fun herr => by simpa using h herr⟩
  | merge => exact ⟨⟨rfl, rfl, rfl, rfl, rfl, rfl⟩, fun _ _ => modeUnlessCng_ne_error (by simp)⟩
  | expand =>
    obtain ⟨hp, hm⟩ := d.state.doExpand_spec d.samplesLeft
    dsimp only [doCodecPlc]
    split_ifs
    · exact ⟨⟨rfl, rfl, rfl, rfl, rfl, rfl⟩, fun _ _ => by simp [startStopwatch]⟩
    · exact ⟨hp, fun _ h => hm fun herr => by simpa using h herr⟩
    · exact ⟨hp, fun _ h => hm fun herr => by simpa using h herr⟩
  | accelerate | fastAccelerate | preemptiveExpand =>
    exact (doStretch_spec _ _ (by simp) (by simp) (by simp) _).imp_right fun h _ _ => h
  | codecInternalCng => exact ⟨⟨rfl, rfl, rfl, rfl, rfl, rfl⟩, fun _ _ => by simp⟩
  | rfc3389Cng | rfc3389CngNoPacket | dtmf =>
    simp only [doRfc3389Cng, doDtmf, apply_ite Prod.fst]
    split_ifs
    all_goals
      exact ⟨⟨rfl, rfl, rfl, rfl, rfl, rfl⟩, fun _ h herr => by simp [herr] at h herr⟩

/-- The same for the operation with the bookkeeping around it. -/
theorem playOut_spec (d : Decoded) (db : DecoderDatabase) (a : Answers) (startNumPackets : ℕ) :
    Plays d.state (playOut d db a startNumPackets).1 ∧
      (d.operation ≠ .undefined → (d.state.lastMode = .error → Clears d) →
        (playOut d db a startNumPackets).1.lastMode ≠ .error) := by
  obtain ⟨watch, hl, hs⟩ : ∃ watch, (playOut d db a startNumPackets).1.lastMode =
      (perform { d with
        state := { d.state with generatedNoiseStopwatch := watch } } db a).1.lastMode ∧
      Plays (perform { d with
        state := { d.state with generatedNoiseStopwatch := watch } } db a).1
        (playOut d db a startNumPackets).1 := by
    unfold playOut
    dsimp only
    split_ifs <;> exact ⟨_, rfl, ⟨rfl, rfl, rfl, rfl, rfl, rfl⟩⟩
  obtain ⟨hp, hm⟩ := perform_spec { d with state :=
    { d.state with generatedNoiseStopwatch := watch } } db a
  have hd : Plays d.state { d.state with generatedNoiseStopwatch := watch } := by
    constructor <;> rfl
  exact ⟨(hd.trans hp).trans hs, fun ho h => hl ▸ hm ho h⟩

end NetEqImpl

end WebRtcAudio.NetEq
