import WebRtcAudio.NetEq.AudioOutcome

/-! Runs of `NetEqImpl`: when the controller has no valid operation. -/
namespace WebRtcAudio.NetEq

open WebRtcAudio.Core List Option RedPayloadSplitter

variable {packet p : Packet} {stats : StatisticsCalculator}

theorem PacketBuffer.mem_insertBefore {front back : List Packet}
    (h : p ∈ (insertSorted.insertBefore packet front back stats).1) :
    p = packet ∨ p ∈ front ∨ p ∈ back := by
  unfold insertSorted.insertBefore at h
  cases back with
  | nil => simpa [or_comm] using h
  | cons it back =>
    dsimp only at h
    split_ifs at h <;> simp only [mem_append, mem_reverse, mem_cons] at h ⊢ <;> tauto

theorem PacketBuffer.mem_insertSorted {buffer : List Packet}
    (h : p ∈ (insertSorted packet buffer stats).1) : p = packet ∨ p ∈ buffer := by
  have hb : ∀ q ∈ before packet buffer, q ∈ buffer := fun q hq =>
    mem_reverse.mp ((dropWhile_suffix _).subset hq)
  have ha : ∀ q ∈ after packet buffer, q ∈ buffer := fun q hq =>
    mem_reverse.mp ((takeWhile_sublist _).subset (mem_reverse.mp hq))
  have hi : ∀ front : List Packet, (∀ q ∈ front, q ∈ buffer) →
      p ∈ (insertSorted.insertBefore packet front (after packet buffer) stats).1 →
      p = packet ∨ p ∈ buffer := fun front hf hp =>
    (mem_insertBefore hp).imp_right fun hp => hp.elim (hf p) (ha p)
  rw [insertSorted] at h
  cases hf : before packet buffer with
  | nil =>
    rw [hf] at h
    exact hi [] (by simp) h
  | cons rit front =>
    rw [hf] at h hb
    dsimp only at h
    split_ifs at h
    · exact .inr h
    · exact hi (rit :: front) hb h

namespace NetEqImpl

variable {s t : NetEqImpl} {db : DecoderDatabase} {a : Answers}

theorem Playable.waiting (h : Playable db p) (waitingTime : Option ℕ) :
    Playable db { p with waitingTime } := ⟨h.decoder, h.duration⟩

theorem insertPacket_playable {b : PacketBuffer} (tick : ℕ) (stats : StatisticsCalculator)
    (hb : ∀ p ∈ b.buffer, Playable db p) (hpa : Playable db packet) :
    ∀ p ∈ (b.insertPacket tick packet stats).1.buffer, Playable db p := by
  intro p hp
  rw [PacketBuffer.insertPacket] at hp
  dsimp only at hp
  split_ifs at hp
  · exact hb p hp
  · rcases PacketBuffer.mem_insertSorted hp with rfl | hp
    · exact hpa.waiting _
    · simp [PacketBuffer.flush] at hp
  · rcases PacketBuffer.mem_insertSorted hp with rfl | hp
    · exact hpa.waiting _
    · exact hb p hp

theorem checkCodec_playable {l : InsertList} (hl : ∀ p ∈ l.packetBuffer.buffer, Playable db p)
    (packet : Packet) : ∀ p ∈ (l.checkCodec db packet).packetBuffer.buffer, Playable db p := by
  have hf : ∀ newType : Bool, ∀ p ∈ (if newType then l.packetBuffer.flush
      else l.packetBuffer).buffer, Playable db p := by
    intro newType p hp
    cases newType with
    | true => simp [PacketBuffer.flush] at hp
    | false => exact hl p hp
  unfold InsertList.checkCodec
  dsimp only
  by_cases hcng : db.isComfortNoise packet.payloadType = true
  · rw [if_pos hcng]
    exact hf _
  · rw [if_neg hcng]
    by_cases hd : (!db.isDtmf packet.payloadType) = true
    · rw [if_pos hd]
      exact hf _
    · rw [if_neg hd]
      exact hl

variable {packetList result : List Packet} {ok : Bool}

theorem insertPacketList_playable (tick : ℕ) {l : InsertList}
    (hl : ∀ p ∈ l.packetBuffer.buffer, Playable db p) (hlist : ∀ p ∈ packetList, Playable db p) :
    ∀ p ∈ (PacketBuffer.insertPacketList db tick l packetList).1.packetBuffer.buffer,
      Playable db p := by
  induction packetList generalizing l with
  | nil => exact hl
  | cons packet packetList ih =>
    obtain ⟨hpa, ht⟩ := forall_mem_cons.mp hlist
    have hi := insertPacket_playable tick (l.checkCodec db packet).stats
      (checkCodec_playable hl packet) hpa
    rw [PacketBuffer.insertPacketList]
    dsimp only
    split
    · exact ih hi ht
    · exact ih hi ht
    · exact hi

structure Unparsed (db : DecoderDatabase) (p : Packet) : Prop where
  frame : p.frame = none
  notRed : db.isRed p.payloadType = false

theorem populate_frame {redPacket : Packet} {n i pos : ℕ} {headers : List RedHeader}
    {packets : List Packet} (hp : ∀ p ∈ packets, p.frame = none)
    (h : populate redPacket n headers i pos packets = some (result, ok)) :
    ∀ p ∈ result, p.frame = none := by
  induction headers generalizing i pos packets with
  | nil =>
    cases h
    exact hp
  | cons header headers ih =>
    rw [populate] at h
    split_ifs at h
    · cases h
      exact hp
    · obtain ⟨payload, -, h⟩ := bind_eq_some_iff.mp h
      exact ih (forall_mem_cons.mpr ⟨rfl, hp⟩) h

theorem splitRed_frame (h : splitRed packetList = some (result, ok)) :
    ∀ p ∈ result, p.frame = none := by
  induction packetList generalizing result ok with
  | nil =>
    cases h
    simp
  | cons redPacket packetList ih =>
    rw [splitRed] at h
    simp only [bind_eq_bind, bind_eq_some_iff, Option.pure_def, some.injEq,
      Prod.mk.injEq, Prod.exists] at h
    obtain ⟨newPackets, ok', hs, rest, ret, hrest, rfl, -⟩ := h
    refine forall_mem_append.mpr ⟨?_, ih hrest⟩
    obtain ⟨r, -, hr⟩ := bind_eq_some_iff.mp hs
    split_ifs at hr
    · exact populate_frame (by simp) hr
    · cases hr
      simp

theorem mem_checkRedPayloads {mainPayloadType : Option UInt8}
    (h : p ∈ checkRedPayloads db mainPayloadType packetList) :
    p ∈ packetList ∧ db.isRed p.payloadType = false := by
  induction packetList generalizing mainPayloadType with
  | nil => simp [checkRedPayloads] at h
  | cons packet packetList ih =>
    have hc : ∀ m, db.isRed packet.payloadType = false →
        p ∈ packet :: checkRedPayloads db m packetList →
        p ∈ packet :: packetList ∧ db.isRed p.payloadType = false := by
      intro m hred hp
      rcases mem_cons.mp hp with rfl | hp
      · exact ⟨mem_cons_self, hred⟩
      · exact ⟨mem_cons_of_mem _ (ih hp).1, (ih hp).2⟩
    have hs : ∀ m, p ∈ checkRedPayloads db m packetList →
        p ∈ packet :: packetList ∧ db.isRed p.payloadType = false := fun m hp =>
      ⟨mem_cons_of_mem _ (ih hp).1, (ih hp).2⟩
    unfold checkRedPayloads at h
    split_ifs at h with hred hspeech
    · exact hs _ h
    · cases mainPayloadType with
      | none => exact hc _ (by simpa using hred) h
      | some main =>
        dsimp only at h
        split_ifs at h
        · exact hs _ h
        · exact hc _ (by simpa using hred) h
    · exact hc _ (by simpa using hred) h

theorem toInternalList_unparsed {scaler : TimestampScaler} (h : ∀ p ∈ packetList, Unparsed db p) :
    ∀ p ∈ (scaler.toInternalList db packetList).2, Unparsed db p := by
  induction packetList generalizing scaler with
  | nil => simp [TimestampScaler.toInternalList]
  | cons packet packetList ih =>
    obtain ⟨hpa, ht⟩ := forall_mem_cons.mp h
    rw [TimestampScaler.toInternalList]
    exact forall_mem_cons.mpr ⟨⟨hpa.frame, hpa.notRed⟩, ih ht⟩

theorem mem_processDtmf (h : processDtmf db packetList = some result) :
    ∀ p ∈ result, p ∈ packetList ∧ db.isDtmf p.payloadType = false := by
  induction packetList generalizing result with
  | nil =>
    cases h
    simp
  | cons packet packetList ih =>
    rw [processDtmf] at h
    split_ifs at h with hd ha
    · exact fun p hp => ⟨mem_cons_of_mem _ (ih h p hp).1, (ih h p hp).2⟩
    · obtain ⟨rest, hr, rfl⟩ := map_eq_some_iff.mp h
      refine forall_mem_cons.mpr ⟨⟨mem_cons_self, by simpa using hd⟩, fun p hp => ?_⟩
      exact ⟨mem_cons_of_mem _ (ih hr p hp).1, (ih hr p hp).2⟩

theorem parsePackets_playable (hdb : FrameSizes db)
    (h : ∀ p ∈ packetList, Unparsed db p ∧ db.isDtmf p.payloadType = false) :
    ∀ p ∈ parsePackets db packetList, Playable db p := by
  intro p hp
  obtain ⟨q, hq, hp⟩ := mem_flatMap.mp hp
  obtain ⟨hu, hd⟩ := h q hq
  cases hi : db.getDecoderInfo q.payloadType with
  | none => simp [hi] at hp
  | some info =>
    simp only [hi] at hp
    split_ifs at hp with hcng
    · obtain rfl := mem_singleton.mp hp
      refine ⟨.inl (by rw [DecoderDatabase.isComfortNoise, hi]; exact hcng), fun frame hf => ?_⟩
      exact absurd (hu.frame.symm.trans hf) (by simp)
    · obtain ⟨result, hr, rfl⟩ := mem_map.mp hp
      refine ⟨.inr ?_, ?_⟩
      · have hred : info.isRed = false := by
          simpa [DecoderDatabase.isRed, hi] using hu.notRed
        have hd' : info.isDtmf = false := by
          simpa [DecoderDatabase.isDtmf, hi] using hd
        have hn : info.subtype = .normal := by
          cases hsub : info.subtype <;>
            simp_all [DecoderInfo.isComfortNoise, DecoderInfo.isDtmf, DecoderInfo.isRed]
        simp [packetFromResult, DecoderDatabase.getDecoder, hi, hn]
      · rintro frame ⟨⟩
        exact (hdb _ info hi).2 _ _ result hr

theorem separate_unparsed {payloadType : UInt8} (hf : packet.frame = none)
    (ht : packet.payloadType = payloadType)
    (h : separate db payloadType [packet] = some (some packetList)) :
    ∀ p ∈ packetList, Unparsed db p := by
  rw [separate] at h
  split_ifs at h with hred
  · obtain ⟨⟨result, ok⟩, hs, h⟩ := map_eq_some_iff.mp h
    dsimp only at h
    split_ifs at h
    cases h
    intro p hp
    obtain ⟨hmem, hnot⟩ := mem_checkRedPayloads hp
    exact ⟨splitRed_frame hs p hmem, hnot⟩
  · cases h
    intro p hp
    obtain rfl := mem_singleton.mp hp
    exact ⟨hf, by rw [ht]; simpa using hred⟩

/-- Between two calls: the sizes fit, and the error mode comes with a new codec. -/
structure Invariant (db : DecoderDatabase) (s : NetEqImpl) : Prop where
  wellSized : WellSized db s
  error : s.lastMode = .error → s.newCodec = true

theorem Invariant.of_newCodec (hsized : WellSized db t) (hs : Invariant db s)
    (hm : t.lastMode = s.lastMode ∨ t.lastMode = .normal)
    (hc : s.newCodec = true → t.newCodec = true) : Invariant db t := by
  refine ⟨hsized, fun herr => ?_⟩
  rcases hm with hm | hm
  · exact hc (hs.error (hm.symm.trans herr))
  · exact absurd (hm.symm.trans herr) (by simp)

variable {arrived : Arrived}

theorem packetsInserted_invariant (hdb : FrameSizes db) {updateSampleRate : Bool}
    (hs : Invariant db s) (h : s.packetsInserted db arrived updateSampleRate = some (t, ok)) :
    Invariant db t := by
  rw [packetsInserted] at h
  obtain ⟨u, hu⟩ : ∃ u : NetEqImpl, u =
    if s.firstPacket then { s with firstPacket := false, newCodec := true } else s := ⟨_, rfl⟩
  have hinv : Invariant db u := by
    subst hu
    split_ifs
    · exact .of_newCodec { hs.wellSized with } hs (.inl rfl) fun _ => rfl
    · exact hs
  dsimp only at h
  rw [← hu] at h
  obtain ⟨v, hv, heq⟩ := map_eq_some_iff.mp h
  cases heq
  have hinv' : Invariant db v := by
    split_ifs at hv
    · obtain ⟨hsized, hm, hc⟩ := updateSampleRateAndChannels_spec hdb hinv.wellSized hv
      exact .of_newCodec hsized hinv hm (hc.symm ▸ id)
    · cases hv
      exact hinv
  exact ⟨{ hinv'.wellSized with }, hinv'.error⟩

theorem insertParsed_invariant (hdb : FrameSizes db) (hs : Invariant db s)
    (hl : ∀ p ∈ packetList, Playable db p)
    (h : s.insertParsed db packetList arrived = some (t, ok)) : Invariant db t := by
  rw [insertParsed] at h
  dsimp only at h
  have hp := insertPacketList_playable s.tick
    (l := ⟨s.packetBuffer, s.currentRtpPayloadType, s.currentCngRtpPayloadType, s.stats, false⟩)
    hs.wellSized.packets hl
  generalize PacketBuffer.insertPacketList db s.tick _ packetList = r at *
  have hinv (newCodec : Bool) (hc : s.newCodec = true → newCodec = true) : Invariant db
      { s with
        packetBuffer := r.1.packetBuffer
        currentRtpPayloadType := r.1.currentRtpPayloadType
        currentCngRtpPayloadType := r.1.currentCngRtpPayloadType
        stats := r.1.stats
        newCodec := newCodec } :=
    ⟨{ hs.wellSized with packets := hp },
      fun herr => hc (hs.error herr)⟩
  split at h
  · exact packetsInserted_invariant hdb (hinv true fun _ => rfl) h
  · exact packetsInserted_invariant hdb (hinv s.newCodec id) h
  · cases h
    exact hinv s.newCodec id

theorem receive_spec (hs : Invariant db s) (packet : Packet) (hf : packet.frame = none) :
    Invariant db (s.receive db packet).1 ∧
      ∃ p : Packet, (s.receive db packet).2 = [p] ∧ p.frame = none ∧
        p.payloadType = packet.payloadType := by
  unfold receive
  dsimp only
  have hpa : ∀ r : TimestampScaler × Packet, r =
      (if db.isRed packet.payloadType then
        (if s.firstPacket then s.timestampScaler.reset else s.timestampScaler, packet)
      else (if s.firstPacket then s.timestampScaler.reset else s.timestampScaler).toInternalPacket
        db packet) → r.2.frame = none ∧ r.2.payloadType = packet.payloadType := by
    rintro r rfl
    by_cases hred : db.isRed packet.payloadType = true
    · rw [if_pos hred]
      exact ⟨hf, rfl⟩
    · rw [if_neg hred]
      exact ⟨hf, rfl⟩
  have hr := hpa _ rfl
  generalize (if db.isRed packet.payloadType then _ else _ : TimestampScaler × Packet) = r at *
  by_cases hfirst : s.firstPacket = true
  · rw [if_pos hfirst]
    refine ⟨⟨{ hs.wellSized with packets := ?_ }, hs.error⟩, r.2, rfl, hr⟩
    intro p hp
    simp [PacketBuffer.flush] at hp
  · rw [if_neg hfirst]
    exact ⟨⟨{ hs.wellSized with }, hs.error⟩, r.2, rfl, hr⟩

theorem insertPacket_invariant (hdb : FrameSizes db) (hs : Invariant db s) {header : RtpHeader}
    {payload : Buffer} {packetInfo : RtpPacketInfo}
    (h : s.insertPacket db header payload packetInfo arrived = some (t, ok)) : Invariant db t := by
  rw [insertPacket] at h
  by_cases he : payload.data.isEmpty = true
  · rw [if_pos he] at h
    cases h
    exact hs
  · rw [if_neg he] at h
    dsimp only at h
    obtain ⟨hinv, packet, hl, hf, ht⟩ := receive_spec hs
      (.received header.timestamp header.sequenceNumber header.payloadType payload packetInfo) rfl
    rw [hl] at h
    generalize (s.receive db _).1 = u at *
    split at h
    · exact absurd h (by simp)
    · cases h
      exact hinv
    · rename_i packetList hseparate
      have hu := separate_unparsed hf ht hseparate
      have hscaled : ∀ p ∈ (if db.isRed header.payloadType then
          u.timestampScaler.toInternalList db packetList
        else (u.timestampScaler, packetList)).2, Unparsed db p := by
        split_ifs
        · exact toInternalList_unparsed hu
        · exact hu
      generalize (if db.isRed header.payloadType then
          u.timestampScaler.toInternalList db packetList
        else (u.timestampScaler, packetList)) = scaled at *
      have hinv' : Invariant db { u with timestampScaler := scaled.1 } :=
        ⟨{ hinv.wellSized with }, hinv.error⟩
      split_ifs at h
      · cases h
        exact hinv
      · split at h
        · cases h
          exact hinv'
        · rename_i parsed hd
          refine insertParsed_invariant hdb hinv' (parsePackets_playable hdb fun p hp => ?_) h
          obtain ⟨hmem, hn⟩ := mem_processDtmf hd p hp
          exact ⟨hscaled p hmem, hn⟩

theorem flushBuffers_invariant (hs : Invariant db s) : Invariant db s.flushBuffers :=
  ⟨{ hs.wellSized with packets := by simp [flushBuffers, PacketBuffer.flush] }, hs.error⟩

/-- After an error the packet at the front of the buffer is speech, and its frame is decoded to
some samples or not at all. -/
structure Allowed (db : DecoderDatabase) (s : NetEqImpl) (a : Answers) : Prop where
  sizes : ∀ p r, a.decode p = some r → r.numDecodedSamples < 2 ^ 30
  afterError : s.lastMode = .error → ∀ p, s.packetBuffer.peekNextPacket = some p →
    db.isComfortNoise p.payloadType = false ∧ ∀ r, a.decode p = some r → r.numDecodedSamples ≠ 0

theorem getAudioUnmuted_invariant (hdb : FrameSizes db) (hs : Invariant db s)
    (hall : Allowed db s a) (h : s.getAudioUnmuted db a = some (t, ok)) : Invariant db t := by
  obtain ⟨hk, hout⟩ := getDecision_spec (a := a) hs.wellSized hs.error
  rw [getAudioUnmuted] at h
  rcases hout with ⟨hnone, hc⟩ | ⟨d, hd, ho, hg⟩
  · have heq : s.getDecision db a = ((s.getDecision db a).1, none) := Prod.ext rfl hnone
    rw [heq] at h
    cases h
    have hsized := hs.wellSized.of_keeps hk
    exact ⟨{ hsized with },
      fun _ => hc⟩
  · rw [hd] at h hk
    obtain ⟨decoded, hdecoded, hplay⟩ := map_eq_some_iff.mp h
    have hto := decode_spec hdb (hs.wellSized.of_keeps hk) hall.sizes hdecoded
    obtain ⟨hplays, hmode⟩ := playOut_spec decoded db a d.packetList.length
    rw [hplay] at hplays hmode
    refine ⟨hto.wellSized.of_plays hplays, fun herr => ?_⟩
    rw [hplays.newCodec, hto.newCodec]
    -- The error mode is still there, so nothing has cleared it and the codec is still new.
    have hn : decoded.operation ≠ .undefined := by
      rcases hto.operation with hop | hop <;> simp [hop, ho]
    by_contra hc
    refine hmode hn (fun herr' => ?_) herr
    have hb : s.lastMode = .error := by
      rcases hto.lastMode with ⟨hm, -⟩ | hm
      · exact hk.lastMode.symm.trans (hm.symm.trans herr')
      · exact absurd (hm.symm.trans herr') (by simp)
    have hf := hall.afterError hb
    have hon := (hg hb fun p hp => (hf p hp).1).resolve_left hc
    refine (decode_clears hs.wellSized hk hdb hon hf hdecoded).resolve_left ?_
    simp [herr']

def ticked (s : NetEqImpl) : NetEqImpl :=
  { s with controller := { s.controller with tick := s.controller.tick + 1 } }

theorem ticked_invariant (hs : Invariant db s) : Invariant db s.ticked :=
  ⟨{ hs.wellSized with }, hs.error⟩

theorem getAudio_eq (s : NetEqImpl) (db : DecoderDatabase) (a : Answers) : s.getAudio db a =
    (if s.ticked.enableMutedState && a.muted && s.ticked.packetBuffer.buffer.isEmpty then
      some (s.ticked, true)
    else s.ticked.getAudioUnmuted db a).map fun r =>
      if r.2 then ({ r.1 with lastOutputSampleRate := r.1.fs }, true) else r := rfl

theorem getAudio_invariant (hdb : FrameSizes db) (hs : Invariant db s)
    (hall : Allowed db s a) (h : s.getAudio db a = some (t, ok)) : Invariant db t := by
  rw [getAudio_eq] at h
  obtain ⟨⟨u, ok'⟩, hu, heq⟩ := map_eq_some_iff.mp h
  have hinv : Invariant db u := by
    split_ifs at hu
    · cases hu
      exact ticked_invariant hs
    · exact getAudioUnmuted_invariant hdb (ticked_invariant hs)
        ⟨hall.sizes, hall.afterError⟩ hu
  dsimp only at heq
  split_ifs at heq
  · cases heq
    exact ⟨{ hinv.wellSized with }, hinv.error⟩
  · cases heq
    exact hinv

theorem initial_invariant (db : DecoderDatabase) (fs : SampleRate) (enableMutedState : Bool)
    (maxPacketsInBuffer : ℕ) (controller : DecisionLogic) :
    Invariant db (initial fs enableMutedState maxPacketsInBuffer controller) := by
  have hhz := hz_le fs
  refine ⟨⟨by simp [initial], rfl, ?_, by simp [initial]⟩, by simp [initial]⟩
  dsimp only [initial]
  omega

inductive Call where
  | insertPacket (header : RtpHeader) (payload : Buffer) (packetInfo : RtpPacketInfo)
      (arrived : Arrived)
  | getAudio (answers : Answers)
  | flushBuffers

def step (db : DecoderDatabase) (s : NetEqImpl) : Call → Option (NetEqImpl × Bool)
  | .insertPacket header payload packetInfo arrived =>
    s.insertPacket db header payload packetInfo arrived
  | .getAudio answers => s.getAudio db answers
  | .flushBuffers => some (s.flushBuffers, true)

def CallAllowed (db : DecoderDatabase) (s : NetEqImpl) : Call → Prop
  | .getAudio answers => Allowed db s answers
  | _ => True

structure ValidDecision (db : DecoderDatabase) (s : NetEqImpl) (a : Answers) : Prop where
  undefined : s.controllerDecision db a = .undefined → s.newCodec = true
  error : s.lastMode = .error → (s.prepare db a).packetBuffer.peekNextPacket.isSome = true →
    s.newCodec = true
  obsolete : s.newCodec = false → ∀ p, (s.prepare db a).packetBuffer.peekNextPacket = some p →
    s.endTimestamp = p.timestamp ∨ PacketBuffer.isObsoleteTimestamp p.timestamp s.endTimestamp
      (DecisionLogic.fiveSecondsSamples s.fs) = false

/-- In a run whose calls meet the condition the assertion on `new_codec_` never fails. -/
theorem undefined_newCodec (hdb : FrameSizes db) (fs : SampleRate) (enableMutedState : Bool)
    (maxPacketsInBuffer : ℕ) (controller : DecisionLogic) {calls : List Call} {results : List Bool}
    (hrun : runPartial (step db) (initial fs enableMutedState maxPacketsInBuffer controller) calls =
      some (s, results)) (hallowed : ∀ pre call post, calls = pre ++ call :: post → ∀ t rs,
      runPartial (step db) (initial fs enableMutedState maxPacketsInBuffer controller) pre =
        some (t, rs) → CallAllowed db t call) (a : Answers) : ValidDecision db s.ticked a := by
  have hinv : Invariant db s := by
    have hk : ∀ t call u ok, Invariant db t → CallAllowed db t call →
        step db t call = some (u, ok) → Invariant db u := by
      intro t call u ok ht hcall hs
      cases call with
      | insertPacket header payload packetInfo arrived => exact insertPacket_invariant hdb ht hs
      | getAudio answers => exact getAudio_invariant hdb ht hcall hs
      | flushBuffers =>
        cases hs
        exact flushBuffers_invariant ht
    exact runPartial_invariant hk
      (initial_invariant db fs enableMutedState maxPacketsInBuffer controller) hrun hallowed
  have hticked := ticked_invariant hinv
  refine ⟨newCodec_of_undefined hticked.wellSized.sampleRate hticked.error,
    fun herr _ => hticked.error herr, fun hc p hp => ?_⟩
  have hk := isKept_of_peekNextPacket hc hp
  rw [isKept, Bool.or_eq_true, decide_eq_true_iff, Bool.not_eq_true'] at hk
  exact hk

def newController : DecisionLogic where
  delayManager := .reset
  bufferLevelFilter := .reset
  tick := 0
  finished c now := decide (c.ticksToCount ≤ now - c.start)
  sampleRate := .hz8000
  outputSizeSamples := 80
  cngState := .off
  noiseFastForward := 0
  packetLengthSamples := 0
  sampleMemory := 0
  prevTimeScale := false
  disallowTimeStretching := false
  timescaleCountdown := some ⟨0, 6⟩
  numConsecutiveExpands := 0
  timeStretchedCnSamples := 0
  estimateDtxDelay := false
  timeStretchCn := false
  targetLevelWindowMs := 100

def newNetEq : NetEqImpl := initial .hz8000 false 50 newController

def plainAnswers (fullOutput : Bool) : Answers where
  elapsedMs _ := 0
  muted := false
  muteFactor := 16384
  samplesLeft := 0
  dtmfEvent := none
  decode _ := some ⟨160, .speech⟩
  decodeCng := none
  generatePlc := false
  accelerate := .success
  preemptiveExpand := .success
  generate := .ok
  dtmfTone := true
  fullOutput := fullOutput

def arrival (payloadType : UInt8) (sequenceNumber : UInt16) (timestamp : UInt32) : Call :=
  .insertPacket ⟨payloadType, sequenceNumber, timestamp⟩ ⟨[0x40], (by decide : 1 < 2 ^ 63)⟩
    ⟨1, [], timestamp, none, none, 0⟩ ⟨.reset, 0⟩

def flushedCalls (payloadType : UInt8) : List Call :=
  [arrival 0 1 160, .flushBuffers, .getAudio (plainAnswers true), arrival payloadType 2 320,
    .getAudio (plainAnswers false), arrival 0 3 480]

def onlySpeech : DecoderDatabase := fun _ => some speechCodec

theorem undefined_newCodec_flushedCalls :
    ((runPartial (step onlySpeech) newNetEq (flushedCalls 0)).all fun r =>
      r.1.ticked.newCodec ||
        decide (r.1.ticked.controllerDecision onlySpeech (plainAnswers true) ≠ .undefined)) =
      true ∧ (runPartial (step onlySpeech) newNetEq (flushedCalls 0)).isSome = true := by
  have hs : FrameSizes onlySpeech := by
    rintro rtpPayloadType info ⟨⟩
    refine ⟨by decide, fun payload timestamp result hresult => ?_⟩
    obtain rfl := mem_singleton.mp hresult
    simp
  have hsome : (runPartial (step onlySpeech) newNetEq (flushedCalls 0)).isSome = true := by
    decide +kernel
  have hall : ∀ call ∈ flushedCalls 0, ∀ t, CallAllowed onlySpeech t call := by
    have ha (fullOutput : Bool) (t : NetEqImpl) :
        Allowed onlySpeech t (plainAnswers fullOutput) := by
      refine ⟨fun p r hr => ?_, fun _ p _ => ⟨rfl, fun r hr => ?_⟩⟩
      all_goals
        cases hr
        decide
    simp only [flushedCalls, forall_mem_cons]
    exact ⟨fun _ => trivial, fun _ => trivial, ha true, fun _ => trivial, ha false,
      fun _ => trivial, forall_mem_nil _⟩
  refine ⟨?_, hsome⟩
  rw [Option.all_eq_true]
  rintro ⟨s, results⟩ hrun
  have hval := undefined_newCodec hs .hz8000 false 50 newController hrun
    (fun pre call post heq t _ _ => hall call (by rw [heq]; simp) t) (plainAnswers true)
  rw [Bool.or_eq_true, decide_eq_true_iff]
  by_cases h : s.ticked.controllerDecision onlySpeech (plainAnswers true) = .undefined
  · exact .inl (hval.undefined h)
  · exact .inr h

theorem undefined_without_newCodec :
    ((runPartial (step speechAndNoise) newNetEq (flushedCalls 13)).map fun r =>
      (r.2, r.1.lastMode, r.1.newCodec,
        r.1.ticked.controllerDecision speechAndNoise (plainAnswers true))) =
      some ([true, true, false, true, false, true], .error, false, .undefined) := by
  decide +kernel

end NetEqImpl

end WebRtcAudio.NetEq
