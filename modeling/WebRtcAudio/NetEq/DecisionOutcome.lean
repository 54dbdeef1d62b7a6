import WebRtcAudio.NetEq.DecisionFrame

/-! The outcome of `GetDecision` for frames of a reasonable size. -/
namespace WebRtcAudio.NetEq

open WebRtcAudio.Core

namespace NetEqImpl

variable {s t : NetEqImpl} {db : DecoderDatabase} {a : Answers}

/-- The packet has a decoder or is comfort noise, and its frame is not too long. -/
structure Playable (db : DecoderDatabase) (p : Packet) : Prop where
  decoder : db.isComfortNoise p.payloadType = true ∨ (db.getDecoder p.payloadType).isSome = true
  duration : ∀ frame, p.frame = some frame → frame.duration < 2 ^ 30

/-- The packets are playable, and the sizes are small enough for the sums over a frame. -/
structure WellSized (db : DecoderDatabase) (s : NetEqImpl) : Prop where
  packets : ∀ p ∈ s.packetBuffer.buffer, Playable db p
  sampleRate : s.controller.sampleRate = s.fs
  decoderFrameLength : s.decoderFrameLength < 2 ^ 30
  channels : s.channels < 2 ^ 20

theorem WellSized.of_keeps (h : WellSized db s) (hk : Keeps s t) : WellSized db t where
  packets p hp := h.packets p (hk.packets p hp)
  sampleRate := by rw [hk.sampleRate, hk.fs, h.sampleRate]
  decoderFrameLength := hk.decoderFrameLength ▸ h.decoderFrameLength
  channels := hk.channels ▸ h.channels

variable {decoderFrameLength requiredSamples : ℕ} {packet : Packet}

theorem packetDuration_lt (hlen : decoderFrameLength < 2 ^ 30) (hp : Playable db packet) :
    packetDuration decoderFrameLength packet < 2 ^ 30 := by
  cases hf : packet.frame with
  | none => simpa [packetDuration, hf] using hlen
  | some frame =>
    have hd := hp.duration frame hf
    by_cases hz : frame.duration = 0
    · simpa [packetDuration, hf, hz] using hlen
    · simpa [packetDuration, hf, hz] using hd

theorem extractLoop_spec {firstTimestamp : UInt32} (prevPayloadType : UInt8) {buffer : List Packet}
    (hlen : decoderFrameLength < 2 ^ 30) (hr : requiredSamples ≤ 2 ^ 30)
    (hbuf : ∀ p ∈ packet :: buffer, Playable db p)
    (hf : (packet.timestamp - firstTimestamp).toNat < 2 ^ 30) :
    ∃ rest buffer' samples, extractLoop db decoderFrameLength requiredSamples firstTimestamp
        prevPayloadType packet buffer = (packet :: rest, buffer', samples) ∧
      (∀ p ∈ buffer', p ∈ buffer) ∧ samples < 2 ^ 31 := by
  induction buffer generalizing packet with
  | nil =>
    have hd := packetDuration_lt hlen (hbuf packet List.mem_cons_self)
    exact ⟨[], [], _, rfl, by simp, by omega⟩
  | cons next buffer ih =>
    obtain ⟨hpacket, ht⟩ := List.forall_mem_cons.mp hbuf
    have hd := packetDuration_lt hlen hpacket
    rw [extractLoop]
    dsimp only
    split_ifs with hn
    · obtain ⟨-, -, -, hdiff, hless⟩ := hn
      have hsub : next.timestamp - firstTimestamp =
          (next.timestamp - packet.timestamp) + (packet.timestamp - firstTimestamp) := by grind
      have hnear : (next.timestamp - firstTimestamp).toNat < 2 ^ 30 := by
        have hadd := Nat.mod_le ((next.timestamp - packet.timestamp).toNat +
          (packet.timestamp - firstTimestamp).toNat) (2 ^ 32)
        rw [hsub, UInt32.toNat_add]
        omega
      obtain ⟨rest, buffer', samples, heq, hmem, hs⟩ := ih ht hnear
      refine ⟨next :: rest, buffer', samples, by rw [heq], fun p hp => ?_, hs⟩
      exact List.mem_cons_of_mem next (hmem p hp)
    · exact ⟨[], next :: buffer, _, rfl, fun p hp => hp, by omega⟩

theorem discardAllOldPackets_subset (b : PacketBuffer) (timestampLimit : UInt32)
    (stats : StatisticsCalculator) :
    ∀ p ∈ (b.discardAllOldPackets timestampLimit stats).1.buffer, p ∈ b.buffer :=
  fun _ hp => (List.mem_filter.mp hp).1

/-- The first packet is taken with those that continue it; the buffer keeps only packets it had. -/
theorem extractPackets_spec (h : WellSized db s) (hr : requiredSamples ≤ 2 ^ 30)
    (hpeek : s.packetBuffer.peekNextPacket = some packet) :
    ∃ t rest samples, s.extractPackets db requiredSamples = (t, packet :: rest, samples) ∧
      0 ≤ samples ∧ Keeps s t := by
  obtain ⟨buffer, hbuf⟩ : ∃ buffer, s.packetBuffer.buffer = packet :: buffer :=
    List.head?_eq_some_iff.mp hpeek
  have hs : (packet.timestamp - packet.timestamp).toNat < 2 ^ 30 := by simp
  obtain ⟨rest, buffer', samples, hl, hmem, hsamples⟩ :=
    extractLoop_spec packet.payloadType h.decoderFrameLength hr
      (hbuf ▸ h.packets) hs
  have hk : ∀ p ∈ buffer', p ∈ s.packetBuffer.buffer := fun p hp =>
    hbuf ▸ List.mem_cons_of_mem packet (hmem p hp)
  rw [extractPackets, hbuf]
  dsimp only
  rw [hl]
  refine ⟨_, rest, _, rfl, ?_, ⟨?_, rfl, rfl, rfl, rfl, rfl⟩⟩
  · dsimp only
    rw [toInt32_eq_self] <;> omega
  · dsimp only
    split_ifs
    · exact fun p hp => hk p (discardAllOldPackets_subset _ _ _ p hp)
    · exact hk

theorem takePackets_spec (h : WellSized db s) (operation : Operation)
    (hr : requiredSamples ≤ 2 ^ 30) : let r := s.takePackets db operation requiredSamples
    0 ≤ r.2.2 ∧ Keeps s r.1 ∧
      ∀ packet, s.packetBuffer.peekNextPacket = some packet → ∃ rest, r.2.1 = packet :: rest := by
  rw [takePackets]
  cases hp : s.packetBuffer.peekNextPacket with
  | none => exact ⟨le_refl _, Keeps.refl s, by simp⟩
  | some packet =>
    obtain ⟨t, ht⟩ : ∃ t : NetEqImpl, t = { s with
      endTimestamp := s.endTimestamp + (packet.timestamp - s.endTimestamp)
      controller :=
        if operation = .rfc3389Cng then s.controller
        else { s.controller with cngState := .off } } := ⟨_, rfl⟩
    have hk : Keeps s t := by
      subst ht
      refine ⟨fun _ h => h, rfl, rfl, rfl, rfl, ?_⟩
      dsimp only
      split_ifs <;> rfl
    have hp' : t.packetBuffer.peekNextPacket = some packet := by rw [ht]; exact hp
    obtain ⟨u, rest, samples, heq, hs, hk'⟩ :=
      extractPackets_spec (h.of_keeps hk) hr hp'
    dsimp only
    rw [← ht, heq]
    refine ⟨hs, hk.trans hk', ?_⟩
    rintro p ⟨⟩
    exact ⟨rest, rfl⟩

theorem hz_le (fs : SampleRate) : fs.hz ≤ 48000 := by cases fs <;> decide

variable {operation : Operation}

theorem requiredSamples_spec (h : WellSized db s) (ho : operation ≠ .undefined) (samplesLeft : ℕ) :
    let r := s.requiredSamples operation samplesLeft
    Keeps s r.1 ∧ r.1.packetBuffer = s.packetBuffer ∧ r.2.1 ≠ .undefined ∧
      ∀ n, r.2.2 = some n → n ≤ 2 ^ 30 := by
  have hhz := hz_le s.fs
  have hout : 2 * s.outputSizeSamples ≤ 2 ^ 30 := by
    rw [outputSizeSamples]
    omega
  have hm : max (s.fs.hz / 100 * s.channels) s.outputSizeSamples ≤ 2 ^ 30 := by
    have hmul : s.fs.hz / 100 * s.channels ≤ 480 * 2 ^ 20 :=
      Nat.mul_le_mul (by omega) h.channels.le
    omega
  unfold requiredSamples
  dsimp only
  cases operation with
  | undefined => exact absurd rfl ho
  | expand | rfc3389CngNoPacket | codecInternalCng | dtmf =>
    exact ⟨{ Keeps.refl s with }, rfl, by simp, by simp⟩
  | merge | normal | rfc3389Cng =>
    refine ⟨{ Keeps.refl s with }, rfl, by simp, ?_⟩
    rintro n ⟨⟩
    omega
  | accelerate | fastAccelerate | preemptiveExpand =>
    dsimp only
    split_ifs
    all_goals
      refine ⟨{ Keeps.refl s with }, rfl, by simp, ?_⟩
      rintro n ⟨⟩
    all_goals omega

theorem decided_spec (s : NetEqImpl) (operation : Operation) (samplesLeft : ℕ)
    (extractedSamples : ℤ) : let r := s.decided operation samplesLeft extractedSamples
    Keeps s r.1 ∧ (r.2 = operation ∨ r.2 = .normal) := by
  unfold decided
  dsimp only
  constructor
  · split_ifs
    · exact { Keeps.refl s with }
    · exact Keeps.refl s
  · split_ifs <;> simp

/-- The packets for an operation: none for an expansion, the next one first for normal play. -/
theorem collect_spec (h : WellSized db s) (ho : operation ≠ .undefined) (samplesLeft : ℕ) :
    ∃ d : Decision, s.collect db operation samplesLeft = (d.state, some d) ∧ Keeps s d.state ∧
      d.operation ≠ .undefined ∧
      (operation = .expand → d.operation = .expand ∧ d.packetList = []) ∧
      (operation = .normal → d.operation = .normal ∧
        ∀ packet, s.packetBuffer.peekNextPacket = some packet →
          ∃ rest, d.packetList = packet :: rest) := by
  obtain ⟨hk, hbuf, hd, hs⟩ := requiredSamples_spec h ho samplesLeft
  have he : operation = .expand → s.requiredSamples operation samplesLeft =
      ({ s with timestamp := s.endTimestamp }, .expand, none) := by
    rintro rfl
    rfl
  have hn : operation = .normal → s.requiredSamples operation samplesLeft =
      (s, .normal, some s.outputSizeSamples) := by
    rintro rfl
    rfl
  rw [collect]
  generalize s.requiredSamples operation samplesLeft = required at *
  obtain ⟨t, operation', n⟩ := required
  cases n with
  | none =>
    refine ⟨⟨t, operation', []⟩, rfl, hk, hd, fun heq => ?_, fun heq => ?_⟩
    · exact ⟨congrArg (·.2.1) (he heq), rfl⟩
    · exact absurd (congrArg (·.2.2) (hn heq)) (by simp)
  | some n =>
    obtain ⟨hsamples, hk', hf⟩ :=
      takePackets_spec (h.of_keeps hk) operation' (hs n rfl)
    dsimp only at hk hbuf hd hsamples hk' hf ⊢
    generalize t.takePackets db operation' n = taken at *
    obtain ⟨hk'', hdecided⟩ := decided_spec taken.1 operation' samplesLeft taken.2.2
    have hall := (hk.trans hk').trans hk''
    rw [if_neg (not_lt.mpr hsamples)]
    generalize taken.1.decided operation' samplesLeft taken.2.2 = r at *
    refine ⟨⟨{ r.1 with timestamp := t.endTimestamp }, r.2, taken.2.1⟩, rfl,
      { hall with }, ?_, fun heq => ?_, fun heq => ?_⟩
    · rcases hdecided with hr | hr <;> simp [hr, hd]
    · exact absurd (congrArg (·.2.2) (he heq)) (by simp)
    · have hn' : operation' = .normal := congrArg (·.2.1) (hn heq)
      refine ⟨by rcases hdecided with hr | hr <;> simp [hr, hn'], fun packet hp => ?_⟩
      exact hf packet (by rw [hbuf]; exact hp)

/-- A reset of the codec gives up only when the codec is new, and it resolves the undefined
operation. -/
theorem checkReset_spec (db : DecoderDatabase) (operation : Operation) (dtmfEvent : Option UInt32)
    (hp : operation = .undefined → s.packetBuffer.peekNextPacket.isSome = true)
    (hc : operation = .undefined → s.newCodec = true) :
    (s.checkReset db operation dtmfEvent = none ∧ s.newCodec = true) ∨
      ∃ t operation', s.checkReset db operation dtmfEvent = some (t, operation') ∧ Keeps s t ∧
        t.packetBuffer = s.packetBuffer ∧ operation' ≠ .undefined ∧
        (operation = .undefined → operation' = .normal) ∧
        (operation = .expand → s.packetBuffer.peekNextPacket = none → operation' = .expand) := by
  rw [checkReset]
  split_ifs with hr
  · have hnew : s.newCodec = true := hr.elim id hc
    unfold resetCodec
    cases hpeek : s.packetBuffer.peekNextPacket with
    | none =>
      have hne : operation ≠ .undefined := fun heq => absurd (hp heq) (by simp [hpeek])
      cases dtmfEvent with
      | none => exact .inl ⟨rfl, hnew⟩
      | some timestamp =>
        exact .inr ⟨_, operation, rfl, { Keeps.refl s with }, rfl, hne,
          fun heq => absurd heq hne, fun heq _ => heq⟩
    | some packet =>
      right
      dsimp only
      split_ifs with hn hcng
      · refine ⟨_, _, rfl, { Keeps.refl s with }, rfl, by simp, ?_, ?_⟩
        · exact fun heq => absurd (heq.symm.trans hn.1) (by simp)
        · exact fun heq => absurd (heq.symm.trans hn.1) (by simp)
      · exact ⟨_, _, rfl, { Keeps.refl s with }, rfl, by simp, fun _ => rfl,
          fun _ h => absurd h (by simp)⟩
      · have heq : operation = .rfc3389Cng := not_not.mp hcng
        subst heq
        exact ⟨_, _, rfl, { Keeps.refl s with }, rfl, by simp, by simp, by simp⟩
  · have hne : operation ≠ .undefined := fun heq => hr (.inr heq)
    exact .inr ⟨s, operation, rfl, Keeps.refl s, rfl, hne, fun heq => absurd heq hne,
      fun heq _ => heq⟩

theorem consult_packetBuffer (s : NetEqImpl) (db : DecoderDatabase) (a : Answers) :
    (s.consult db a).packetBuffer = (s.discardPackets db).1 := s.prepare_packetBuffer db a

theorem peekNextPacket_of_undefined (h : s.controllerDecision db a = .undefined) :
    (s.consult db a).packetBuffer.peekNextPacket.isSome = true := by
  obtain ⟨p, hp, -⟩ := DecisionLogic.getDecision_undefined h
  rw [status, Option.map_eq_some_iff] at hp
  obtain ⟨packet, hpeek, -⟩ := hp
  rw [prepare_packetBuffer] at hpeek
  rw [consult_packetBuffer, hpeek]
  rfl

theorem controllerDecision_error (h : s.lastMode = .error) : s.controllerDecision db a =
    if (s.consult db a).packetBuffer.peekNextPacket.isSome then .undefined else .expand := by
  have hm : ((s.prepare db a).status db a).lastMode = .error :=
    ((s.prepare_frame db a).1.lastMode).trans h
  rw [controllerDecision]
  rw [DecisionLogic.getDecision_error hm, consult_packetBuffer, status, Option.isSome_map,
    prepare_packetBuffer]

theorem consult_peekNextPacket (hc : s.newCodec = true)
    (hs : ∀ p, s.packetBuffer.peekNextPacket = some p → db.isComfortNoise p.payloadType = false) :
    (s.consult db a).packetBuffer.peekNextPacket = s.packetBuffer.peekNextPacket := by
  have hpurged : s.purged = s.packetBuffer.buffer := by simp [purged, hc]
  rw [consult_packetBuffer, PacketBuffer.peekNextPacket, PacketBuffer.peekNextPacket]
  by_cases hcng : s.controller.cngState = .rfc3389On ∨ s.lastMode = .rfc3389Cng
  · rw [s.discardPackets_buffer db hcng, hpurged]
    cases hbuf : s.packetBuffer.buffer with
    | nil => rfl
    | cons p buffer =>
      have hp := hs p (by rw [PacketBuffer.peekNextPacket, hbuf]; rfl)
      rw [List.dropWhile_cons_of_neg (by simp [discardsComfortNoise, hp])]
  · rw [discardPackets, if_neg hcng, purge_buffer]
    simp [hc]

theorem disallowForDtx_eq_undefined {packet : Option Packet} :
    disallowForDtx packet operation = .undefined ↔ operation = .undefined := by
  rw [disallowForDtx]
  split_ifs with hdtx
  · rw [Bool.and_eq_true] at hdtx
    constructor
    · simp
    · rintro rfl
      exact absurd hdtx.2 (by decide)
  · rfl

/-- The decision leads on after an error: it expands, or it plays the next packet. -/
def GetsOn (s : NetEqImpl) (a : Answers) (d : Decision) : Prop :=
  a.samplesLeft < s.outputSizeSamples ∧
    (d.operation = .expand ∧ d.packetList = [] ∨
      d.operation = .normal ∧ ∃ packet rest, d.packetList = packet :: rest ∧
        s.packetBuffer.peekNextPacket = some packet)

/-- `GetDecision` fails only for a new codec, never decides on the undefined operation, and after an
error, with speech next, it gets on or the codec is still new. -/
theorem getDecision_spec (h : WellSized db s) (herr : s.lastMode = .error → s.newCodec = true) :
    Keeps s (s.getDecision db a).1 ∧
      ((s.getDecision db a).2 = none ∧ (s.getDecision db a).1.newCodec = true ∨
        ∃ d, s.getDecision db a = (d.state, some d) ∧ d.operation ≠ .undefined ∧
          (s.lastMode = .error → (∀ p, s.packetBuffer.peekNextPacket = some p →
            db.isComfortNoise p.payloadType = false) → d.state.newCodec = true ∨
            GetsOn s a d)) := by
  obtain ⟨hk, hcodec⟩ := s.consult_frame db a
  have hundefined : s.controllerDecision db a = .undefined → s.newCodec = true :=
    newCodec_of_undefined h.sampleRate herr
  have hp : s.controllerDecision db a = .undefined →
      (s.consult db a).packetBuffer.peekNextPacket.isSome = true := peekNextPacket_of_undefined
  have hdecision : s.lastMode = .error → s.controllerDecision db a =
      if (s.consult db a).packetBuffer.peekNextPacket.isSome then .undefined else .expand :=
    controllerDecision_error
  have hpeek : s.newCodec = true → (∀ p, s.packetBuffer.peekNextPacket = some p →
      db.isComfortNoise p.payloadType = false) →
      (s.consult db a).packetBuffer.peekNextPacket = s.packetBuffer.peekNextPacket :=
    consult_peekNextPacket
  unfold getDecision
  dsimp only
  generalize s.controllerDecision db a = operation at *
  generalize s.consult db a = t at *
  have hs : operation = .undefined ∨ operation = .expand →
      disallowForDtx t.packetBuffer.peekNextPacket operation = operation := by
    rintro (rfl | rfl) <;> simp [disallowForDtx, stretches]
  have hiff : disallowForDtx t.packetBuffer.peekNextPacket operation = .undefined ↔
      operation = .undefined := disallowForDtx_eq_undefined
  generalize disallowForDtx t.packetBuffer.peekNextPacket operation = operation' at *
  split_ifs with henough
  · -- the samples that are left are played, and nothing else happens
    refine ⟨hk, .inr ⟨⟨t, .normal, []⟩, rfl, by simp, fun hm _ => .inl ?_⟩⟩
    exact hcodec.trans (herr hm)
  · obtain ⟨u, hu⟩ : ∃ u : NetEqImpl, u = { t with
      controller := t.controller.expandDecision operation' } := ⟨_, rfl⟩
    have hk' : Keeps t u := by
      subst hu
      exact { Keeps.refl t with }
    have hbuf : u.packetBuffer = t.packetBuffer := by rw [hu]
    have hcodec' : u.newCodec = s.newCodec := by rw [hu]; exact hcodec
    rw [← hu]
    rcases checkReset_spec (s := u) db operation' a.dtmfEvent
      (fun heq => hbuf ▸ hp (hiff.mp heq)) (fun heq => hcodec'.trans (hundefined (hiff.mp heq)))
      with ⟨hnone, hnew⟩ | ⟨v, op, hsome, hk'', hbuf', hdefined, hnormal, he⟩
    · rw [hnone]
      exact ⟨hk.trans hk', .inl ⟨rfl, hnew⟩⟩
    · rw [hsome]
      have hall := (hk.trans hk').trans hk''
      obtain ⟨d, hd, hkeeps, hop, hopexpand, ho⟩ :=
        collect_spec (h.of_keeps hall) hdefined a.samplesLeft
      dsimp only
      rw [hd]
      refine ⟨hall.trans hkeeps, .inr ⟨d, rfl, hop, fun hm hspeech => .inr ?_⟩⟩
      have hf := hpeek (herr hm) hspeech
      have hc := hdecision hm
      have hleft : a.samplesLeft < s.outputSizeSamples := by
        rw [← hk.outputSizeSamples]
        by_contra hge
        refine henough ⟨not_lt.mp hge, ?_⟩
        split_ifs at hc with hsome'
        · rw [hs (.inl hc), hc]
          rfl
        · rw [hs (.inr hc), hc]
          rfl
      refine ⟨hleft, ?_⟩
      cases hn : t.packetBuffer.peekNextPacket with
      | none =>
        left
        rw [hn] at hc
        have heq : operation = .expand := by simpa using hc
        refine hopexpand (he ((hs (.inr heq)).trans heq) ?_)
        rw [hbuf, hn]
      | some packet =>
        right
        rw [hn] at hc
        have heq : operation = .undefined := by simpa using hc
        obtain ⟨hd', hl⟩ := ho (hnormal (hiff.mpr heq))
        obtain ⟨rest, hr⟩ := hl packet (by rw [hbuf', hbuf, hn])
        exact ⟨hd', packet, rest, hr, by rw [← hf, hn]⟩

end NetEqImpl

end WebRtcAudio.NetEq
