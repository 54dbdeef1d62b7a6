import WebRtcAudio.NetEq.ComfortNoiseDiscard

/-! What `GetDecision` leaves unchanged, and when it gives no valid operation. -/
namespace WebRtcAudio.NetEq

open WebRtcAudio.Core

namespace DecisionLogic

theorem cngOperation_spec (d : DecisionLogic) (prevMode : Mode)
    (targetTimestamp availableTimestamp : UInt32) (generatedNoiseSamples : ℕ) :
    let r := d.cngOperation prevMode targetTimestamp availableTimestamp generatedNoiseSamples
    r.1 ≠ .undefined ∧ r.2.sampleRate = d.sampleRate := by
  simp only [cngOperation, apply_ite Prod.fst, apply_ite Prod.snd,
    apply_ite DecisionLogic.sampleRate, ite_self, ne_eq, ite_eq_iff, reduceCtorEq, and_false,
    or_self, not_false_eq_true, and_true]

theorem futurePacketAvailable_spec (d : DecisionLogic) (decoderFrameLength : ℕ)
    (prevMode : Mode) (targetTimestamp availableTimestamp : UInt32) (playDtmf : Bool)
    (generatedNoiseSamples spanSamples numPackets : ℕ) :
    let r := d.futurePacketAvailable decoderFrameLength prevMode targetTimestamp availableTimestamp
      playDtmf generatedNoiseSamples spanSamples numPackets
    r.1 ≠ .undefined ∧ r.2.sampleRate = d.sampleRate := by
  refine ⟨?_, ?_⟩
  · unfold futurePacketAvailable
    dsimp only
    split_ifs <;> simp
  · simp only [futurePacketAvailable, apply_ite Prod.snd, apply_ite DecisionLogic.sampleRate,
      ite_self]

theorem noPacket_ne_undefined (d : DecisionLogic) (playDtmf : Bool) :
    d.noPacket playDtmf ≠ .undefined := by
  unfold noPacket
  split_ifs <;> simp

theorem expectedPacketAvailable_ne_undefined (d : DecisionLogic) (prevMode : Mode)
    (playDtmf : Bool) : d.expectedPacketAvailable prevMode playDtmf ≠ .undefined := by
  unfold expectedPacketAvailable
  dsimp only
  split_ifs <;> simp

variable {resetDecoder : Bool} {d : DecisionLogic} {status : NetEqStatus}

theorem getDecision_rule {P : Operation × Bool × DecisionLogic → Prop} {e : DecisionLogic}
    (he : d.updateLevel status = e)
    (hu : ∀ p, status.nextPacket = some p →
      (status.lastMode = .error ∨ status.targetTimestamp ≠ p.timestamp ∧
        PacketBuffer.isObsoleteTimestamp p.timestamp status.targetTimestamp
          (fiveSecondsSamples e.sampleRate) = true) → P (.undefined, resetDecoder, e))
    (ho : ∀ operation reset f, operation ≠ .undefined → f.sampleRate = e.sampleRate →
      P (operation, reset, f)) :
    P (d.getDecision status resetDecoder) := by
  unfold getDecision
  rw [he]
  cases hn : status.nextPacket with
  | none =>
    dsimp only
    split_ifs with herr
    · exact ho _ _ _ (by simp) rfl
    · exact ho _ _ _ (e.noPacket_ne_undefined _) rfl
  | some p =>
    dsimp only
    split_ifs with herr hcng hmany hpos hexpected hobsolete
    · exact hu p hn (.inl herr)
    · obtain ⟨hne, hr⟩ := e.cngOperation_spec _ _ _ _
      exact ho _ _ _ hne hr
    · exact ho _ _ _ (by simp) rfl
    · exact ho _ _ _ (by simp) rfl
    · exact ho _ _ _ (e.expectedPacketAvailable_ne_undefined _ _) rfl
    · obtain ⟨hne, hr⟩ := e.futurePacketAvailable_spec _ _ _ _ _ _ _ _
      exact ho _ _ _ hne hr
    · exact hu p hn (.inr ⟨hexpected, by simpa using hobsolete⟩)

theorem getDecision_sampleRate (d : DecisionLogic) (status : NetEqStatus) (resetDecoder : Bool) :
    (d.getDecision status resetDecoder).2.2.sampleRate = d.sampleRate := by
  have hr := (d.updateLevel_frame status).1
  refine getDecision_rule (P := fun r => r.2.2.sampleRate = d.sampleRate) rfl ?_ ?_
  · exact fun _ _ _ => hr
  · exact fun _ _ _ _ hf => hf.trans hr

theorem getDecision_undefined (h : (d.getDecision status resetDecoder).1 = .undefined) :
    ∃ p, status.nextPacket = some p ∧
      (status.lastMode = .error ∨ status.targetTimestamp ≠ p.timestamp ∧
        PacketBuffer.isObsoleteTimestamp p.timestamp status.targetTimestamp
          (fiveSecondsSamples d.sampleRate) = true) := by
  have hrate := (d.updateLevel_frame status).1
  revert h
  refine getDecision_rule (P := fun r => r.1 = .undefined → _) rfl ?_ ?_
  · exact fun p hp hr _ => ⟨p, hp, by rwa [hrate] at hr⟩
  · exact fun _ _ _ hne _ h => absurd h hne

theorem getDecision_error (h : status.lastMode = .error) : (d.getDecision status resetDecoder).1 =
      if status.nextPacket.isSome then .undefined else .expand := by
  unfold getDecision
  cases hnext : status.nextPacket <;> simp [h]

end DecisionLogic

namespace NetEqImpl

variable {s t u : NetEqImpl} {db : DecoderDatabase} {a : Answers}

/-- No packet is added, and what the decision rests on stays as it was. -/
structure Keeps (s t : NetEqImpl) : Prop where
  packets : ∀ p ∈ t.packetBuffer.buffer, p ∈ s.packetBuffer.buffer
  lastMode : t.lastMode = s.lastMode
  fs : t.fs = s.fs
  channels : t.channels = s.channels
  decoderFrameLength : t.decoderFrameLength = s.decoderFrameLength
  sampleRate : t.controller.sampleRate = s.controller.sampleRate

namespace Keeps

theorem refl (s : NetEqImpl) : Keeps s s := ⟨fun _ h => h, rfl, rfl, rfl, rfl, rfl⟩

theorem trans (hst : Keeps s t) (htu : Keeps t u) : Keeps s u where
  packets p hp := hst.packets p (htu.packets p hp)
  lastMode := htu.lastMode.trans hst.lastMode
  fs := htu.fs.trans hst.fs
  channels := htu.channels.trans hst.channels
  decoderFrameLength := htu.decoderFrameLength.trans hst.decoderFrameLength
  sampleRate := htu.sampleRate.trans hst.sampleRate

theorem outputSizeSamples (h : Keeps s t) : t.outputSizeSamples = s.outputSizeSamples := by
  rw [NetEqImpl.outputSizeSamples, NetEqImpl.outputSizeSamples, h.fs]

end Keeps

section
variable (s : NetEqImpl) (db : DecoderDatabase)

theorem discardPackets_suffix : (s.discardPackets db).1.buffer <:+ s.purged := by
  by_cases hcng : s.controller.cngState = .rfc3389On ∨ s.lastMode = .rfc3389Cng
  · rw [s.discardPackets_buffer db hcng]
    exact List.dropWhile_suffix _
  · rw [discardPackets, if_neg hcng, purge_buffer]
    exact List.suffix_refl _

theorem prepare_packetBuffer (a : Answers) :
    (s.prepare db a).packetBuffer = (s.discardPackets db).1 := by
  unfold prepare
  dsimp only
  split_ifs <;> rfl

theorem prepare_frame (a : Answers) :
    Keeps s (s.prepare db a) ∧ (s.prepare db a).newCodec = s.newCodec ∧
      (s.prepare db a).endTimestamp = s.endTimestamp := by
  have hmem : ∀ p ∈ (s.prepare db a).packetBuffer.buffer, p ∈ s.packetBuffer.buffer := by
    rw [prepare_packetBuffer]
    exact fun p hp => (List.mem_filter.mp ((s.discardPackets_suffix db).subset hp)).1
  refine ⟨⟨hmem, ?_, ?_, ?_, ?_, ?_⟩, ?_, ?_⟩ <;> unfold prepare <;> dsimp only <;>
    split_ifs <;> rfl

theorem consult_frame (a : Answers) :
    Keeps s (s.consult db a) ∧ (s.consult db a).newCodec = s.newCodec := by
  obtain ⟨hk, hc, -⟩ := s.prepare_frame db a
  refine ⟨{ hk with sampleRate := ?_ }, hc⟩
  exact (DecisionLogic.getDecision_sampleRate _ _ _).trans hk.sampleRate

end

theorem isKept_of_peekNextPacket {p : Packet} (hc : s.newCodec = false)
    (hp : (s.prepare db a).packetBuffer.peekNextPacket = some p) :
    isKept s.fs s.endTimestamp p = true := by
  rw [prepare_packetBuffer] at hp
  have hmem := (s.discardPackets_suffix db).subset (List.mem_of_head? hp)
  simpa [hc] using (List.mem_filter.mp hmem).2

/-- The assertion in `GetDecision` holds in states with the rate of the controller that are not in
the error mode without a new codec. -/
theorem newCodec_of_undefined (hrate : s.controller.sampleRate = s.fs)
    (herr : s.lastMode = .error → s.newCodec = true)
    (h : s.controllerDecision db a = .undefined) : s.newCodec = true := by
  obtain ⟨hk, -, hend⟩ := s.prepare_frame db a
  obtain ⟨p, hp, hr⟩ := DecisionLogic.getDecision_undefined h
  rw [status, Option.map_eq_some_iff] at hp
  obtain ⟨packet, hpeek, rfl⟩ := hp
  rcases hr with hm | ⟨hne, ho⟩
  · exact herr (hk.lastMode.symm.trans hm)
  · by_contra hc
    have hkept := isKept_of_peekNextPacket (by simpa using hc) hpeek
    rw [hk.sampleRate, hrate] at ho
    simp only [status, hend] at hne ho
    rw [isKept, ho, decide_eq_false hne] at hkept
    exact absurd hkept (by simp)

end NetEqImpl

end WebRtcAudio.NetEq
