import WebRtcAudio.NetEq.NetEqImplRuns
import WebRtcAudio.NetEq.PacketOrder

/-! `ExtractPackets` takes the longest chain of packets that is needed. -/
namespace WebRtcAudio.NetEq

open WebRtcAudio.Core AudioCoding List Option

structure Extraction where
  packetBuffer : PacketBuffer
  timestamp : UInt32
  packetList : List Packet
  firstPacket : Bool
  prevPayloadType : UInt8
  prevTimestamp : UInt32
  prevSequenceNumber : UInt16
  nextPacketAvailable : Bool
  extractedSamples : ℕ

namespace Extraction

def start (packetBuffer : PacketBuffer) (timestamp : UInt32) : Extraction where
  packetBuffer := packetBuffer
  timestamp := timestamp
  packetList := []
  firstPacket := true
  prevPayloadType := 0
  prevTimestamp := 0
  prevSequenceNumber := 0
  nextPacketAvailable := false
  extractedSamples := 0

def noteFirst (e : Extraction) (packet : Packet) : Extraction :=
  if e.firstPacket then
    { e with
      firstPacket := false
      prevSequenceNumber := packet.sequenceNumber
      prevTimestamp := packet.timestamp
      prevPayloadType := packet.payloadType }
  else e

/-- What packet is available next. A packet of the same type is the previous one from here on, even
if it is not taken. -/
def checkNext (e : Extraction) (hasCngPacket : Bool) (packetDuration : ℕ) : Extraction :=
  match e.packetBuffer.peekNextPacket with
  | none => { e with nextPacketAvailable := false }
  | some nextPacket =>
    if e.prevPayloadType = nextPacket.payloadType ∧ !hasCngPacket then
      -- the difference is an `int16_t`, of which only 0 and 1 matter
      let seqNoDiff := nextPacket.sequenceNumber - e.prevSequenceNumber
      let tsDiff := (nextPacket.timestamp - e.prevTimestamp).toNat
      { e with
        nextPacketAvailable := decide ((seqNoDiff = 1 ∨ seqNoDiff = 0) ∧ tsDiff ≤ packetDuration)
        prevSequenceNumber := nextPacket.sequenceNumber
        prevTimestamp := nextPacket.timestamp }
    else { e with nextPacketAvailable := false }

def extractPacket (db : DecoderDatabase) (decoderFrameLength : ℕ) (firstTimestamp : UInt32)
    (e : Extraction) : Option Extraction :=
  let r := e.packetBuffer.getNextPacket
  r.2.map fun packet =>
    let e := ({ e with timestamp := packet.timestamp, packetBuffer := r.1 } : Extraction).noteFirst
      packet
    let duration := NetEqImpl.packetDuration decoderFrameLength packet
    ({ e with
      extractedSamples := (packet.timestamp - firstTimestamp).toNat + duration
      packetList := e.packetList ++ [packet] } : Extraction).checkNext
        (db.isComfortNoise packet.payloadType) duration

def extractWhile (db : DecoderDatabase) (decoderFrameLength : ℕ) (firstTimestamp : UInt32)
    (requiredSamples : ℕ) : ℕ → Extraction → Option Extraction
  | 0, _ => none
  | packets + 1, e => do
    let e ← e.extractPacket db decoderFrameLength firstTimestamp
    if e.extractedSamples < requiredSamples ∧ e.nextPacketAvailable then
      extractWhile db decoderFrameLength firstTimestamp requiredSamples packets e
    else return e

end Extraction

namespace NetEqImpl

def extractPacketsLoop (s : NetEqImpl) (db : DecoderDatabase) (requiredSamples : ℕ) :
    Option (NetEqImpl × List Packet × ℤ) :=
  match s.packetBuffer.peekNextPacket with
  | none => some (s, [], -1)
  | some nextPacket =>
    (Extraction.extractWhile db s.decoderFrameLength nextPacket.timestamp requiredSamples
      s.packetBuffer.buffer.length (.start s.packetBuffer s.timestamp)).map fun e =>
        let kept :=
          if 0 < e.extractedSamples then e.packetBuffer.discardAllOldPackets e.timestamp s.stats
          else (e.packetBuffer, s.stats)
        ({ s with packetBuffer := kept.1, stats := kept.2, timestamp := e.timestamp },
          e.packetList, toInt32 e.extractedSamples)

def Chained (db : DecoderDatabase) (decoderFrameLength : ℕ) (packet nextPacket : Packet) : Prop :=
  nextPacket.payloadType = packet.payloadType ∧
    db.isComfortNoise packet.payloadType = false ∧
    (nextPacket.sequenceNumber = packet.sequenceNumber ∨
      nextPacket.sequenceNumber = packet.sequenceNumber + 1) ∧
    (nextPacket.timestamp - packet.timestamp).toNat ≤ packetDuration decoderFrameLength packet

def samplesTo (decoderFrameLength : ℕ) (firstTimestamp : UInt32) (packet : Packet) : ℕ :=
  (packet.timestamp - firstTimestamp).toNat + packetDuration decoderFrameLength packet

section Loop
variable {db : DecoderDatabase} {frameLength required : ℕ} {firstTimestamp : UInt32}

theorem sequenceNumber_sub_iff {a b : UInt16} : (a - b = 1 ∨ a - b = 0) ↔ (a = b ∨ a = b + 1) := by
  grind

variable {packet : Packet}

theorem extractLoop_test (next : Packet) :
    (packet.payloadType = next.payloadType ∧ (!db.isComfortNoise packet.payloadType) = true ∧
        (next.sequenceNumber - packet.sequenceNumber = 1 ∨
          next.sequenceNumber - packet.sequenceNumber = 0) ∧
        (next.timestamp - packet.timestamp).toNat ≤ packetDuration frameLength packet ∧
        samplesTo frameLength firstTimestamp packet < required) ↔
      Chained db frameLength packet next ∧
        samplesTo frameLength firstTimestamp packet < required := by
  rw [Chained, sequenceNumber_sub_iff, Bool.not_eq_true', eq_comm]
  tauto

theorem extractLoop_of_chained {next : Packet} (hc : Chained db frameLength packet next)
    (hs : samplesTo frameLength firstTimestamp packet < required) (buffer : List Packet) :
    extractLoop db frameLength required firstTimestamp packet.payloadType packet (next :: buffer) =
      (packet ::
          (extractLoop db frameLength required firstTimestamp next.payloadType next buffer).1,
        (extractLoop db frameLength required firstTimestamp next.payloadType next buffer).2) := by
  rw [extractLoop]
  refine (if_pos ((extractLoop_test next).mpr ⟨hc, hs⟩)).trans ?_
  rw [hc.1]

theorem extractLoop_of_not {next : Packet} (h : ¬ (Chained db frameLength packet next ∧
      samplesTo frameLength firstTimestamp packet < required)) (buffer : List Packet) :
    extractLoop db frameLength required firstTimestamp packet.payloadType packet (next :: buffer) =
      ([packet], next :: buffer, samplesTo frameLength firstTimestamp packet) := by
  rw [extractLoop]
  exact if_neg ((extractLoop_test next).not.mpr h)

theorem exists_concat_eq_cons {α : Type*} {a b : α} {l front rest : List α}
    (h : a :: l = front ++ b :: rest) : ∃ tail, front ++ [b] = a :: tail := by
  cases front with
  | nil =>
    obtain ⟨rfl, -⟩ := cons.inj h
    exact ⟨[], rfl⟩
  | cons c front =>
    obtain ⟨rfl, -⟩ := cons.inj h
    exact ⟨front ++ [b], rfl⟩

/-- What the loop takes is a chain from the front of the buffer, up to the first packet that gives
enough samples or that the next one does not go on from. -/
theorem extractLoop_chain (db : DecoderDatabase) (frameLength required : ℕ)
    (firstTimestamp : UInt32) (packet : Packet) (buffer : List Packet) : ∃ front last rest,
      extractLoop db frameLength required firstTimestamp packet.payloadType packet buffer =
        (front ++ [last], rest, samplesTo frameLength firstTimestamp last) ∧
      packet :: buffer = front ++ last :: rest ∧
      (front ++ [last]).IsChain (Chained db frameLength) ∧
      (∀ p ∈ front, samplesTo frameLength firstTimestamp p < required) ∧
      (required ≤ samplesTo frameLength firstTimestamp last ∨
        ∀ next ∈ rest.head?, ¬ Chained db frameLength last next) := by
  induction buffer generalizing packet with
  | nil => exact ⟨[], packet, [], rfl, rfl, .singleton packet, by simp, .inr (by simp)⟩
  | cons next buffer ih =>
    by_cases hgo : Chained db frameLength packet next ∧
        samplesTo frameLength firstTimestamp packet < required
    · obtain ⟨front, last, rest, hl, hsplit, hc, hf, hstop⟩ := ih next
      refine ⟨packet :: front, last, rest, ?_, ?_, ?_, ?_, hstop⟩
      · rw [extractLoop_of_chained hgo.1 hgo.2, hl, cons_append]
      · rw [hsplit, cons_append]
      · -- the chain starts with the next packet
        obtain ⟨tail, ht⟩ := exists_concat_eq_cons hsplit
        rw [cons_append, ht, isChain_cons_cons, ← ht]
        exact ⟨hgo.1, hc⟩
      · exact forall_mem_cons.mpr ⟨hgo.2, hf⟩
    · refine ⟨[], packet, next :: buffer, extractLoop_of_not hgo buffer, rfl, .singleton packet,
        by simp, ?_⟩
      by_cases hs : samplesTo frameLength firstTimestamp packet < required
      · refine .inr fun q hq => ?_
        cases hq
        exact fun hchain => hgo ⟨hchain, hs⟩
      · exact .inl (Nat.not_lt.mp hs)

variable {e : Extraction}

def Carries (e : Extraction) (packet : Packet) : Prop :=
  e.firstPacket = true ∨ e.firstPacket = false ∧ e.prevPayloadType = packet.payloadType ∧
    e.prevSequenceNumber = packet.sequenceNumber ∧ e.prevTimestamp = packet.timestamp

theorem Carries.noteFirst (h : Carries e packet) : e.noteFirst packet = { e with
        firstPacket := false
        prevPayloadType := packet.payloadType
        prevSequenceNumber := packet.sequenceNumber
        prevTimestamp := packet.timestamp } := by
  rw [Extraction.noteFirst]
  rcases h with hf | ⟨hf, ht, hs, hts⟩
  · rw [if_pos hf]
  · rw [if_neg (by rw [hf]; decide), ← hf, ← ht, ← hs, ← hts]

theorem extractPacket_spec (db : DecoderDatabase) (frameLength : ℕ) (firstTimestamp : UInt32)
    {buffer : List Packet} (hca : Carries e packet)
    (hbuffer : e.packetBuffer.buffer = packet :: buffer) :
    ∃ e', e.extractPacket db frameLength firstTimestamp = some e' ∧
      e'.packetBuffer = { e.packetBuffer with buffer } ∧ e'.timestamp = packet.timestamp ∧
      e'.packetList = e.packetList ++ [packet] ∧
      e'.extractedSamples = samplesTo frameLength firstTimestamp packet ∧
      (e'.nextPacketAvailable = true ↔ ∃ next ∈ buffer.head?, Chained db frameLength packet next) ∧
      ∀ next ∈ buffer.head?, Chained db frameLength packet next → Carries e' next := by
  have hcarries' : Carries { e with
      timestamp := packet.timestamp
      packetBuffer := { e.packetBuffer with buffer } } packet := hca
  rw [Extraction.extractPacket, PacketBuffer.getNextPacket, hbuffer]
  simp only [head?_cons, tail_cons, map_some, hcarries'.noteFirst]
  refine ⟨_, rfl, ?_⟩
  rw [Extraction.checkNext, PacketBuffer.peekNextPacket]
  cases buffer with
  | nil => exact ⟨rfl, rfl, rfl, rfl, by simp, by simp⟩
  | cons next buffer =>
    dsimp only [head?_cons]
    by_cases hs : packet.payloadType = next.payloadType ∧
        (!db.isComfortNoise packet.payloadType) = true
    · rw [if_pos hs]
      refine ⟨rfl, rfl, rfl, rfl, ?_, fun q hq _ => ?_⟩
      · have hspeech : db.isComfortNoise packet.payloadType = false := by simpa using hs.2
        simp [Chained, sequenceNumber_sub_iff, hspeech, hs.1.symm]
      · cases hq
        exact .inr ⟨rfl, hs.1, rfl, rfl⟩
    · rw [if_neg hs]
      have hb : ¬ Chained db frameLength packet next := fun h =>
        hs ⟨h.1.symm, by rw [h.2.1]; rfl⟩
      refine ⟨rfl, rfl, rfl, rfl, ?_, fun q hq hc => ?_⟩
      · simp [hb]
      · cases hq
        exact absurd hc hb

theorem extractWhile_eq {buffer taken rest : List Packet} {samples packets : ℕ}
    (hl : extractLoop db frameLength required firstTimestamp packet.payloadType packet buffer =
      (taken, rest, samples)) (hca : Carries e packet)
    (hb : e.packetBuffer.buffer = packet :: buffer) (hp : buffer.length < packets) :
    ∃ e', e.extractWhile db frameLength firstTimestamp required packets = some e' ∧
      e'.packetBuffer = { e.packetBuffer with buffer := rest } ∧
      e'.packetList = e.packetList ++ taken ∧ e'.extractedSamples = samples ∧
      e'.timestamp = (taken.getLastD packet).timestamp := by
  induction packets generalizing packet e buffer taken with
  | zero => omega
  | succ packets ih =>
    obtain ⟨e₁, hone, hbuf₁, hts₁, hlist₁, hs₁, ha₁, hc₁⟩ :=
      extractPacket_spec db frameLength firstTimestamp hca hb
    rw [Extraction.extractWhile, hone, bind_eq_bind, bind_some, hs₁]
    cases buffer with
    | nil =>
      have hn : ¬ e₁.nextPacketAvailable = true := by simp [ha₁]
      rw [if_neg fun h => hn h.2]
      rw [extractLoop] at hl
      cases hl
      exact ⟨e₁, rfl, hbuf₁, hlist₁, hs₁, hts₁⟩
    | cons next buffer =>
      have ha : e₁.nextPacketAvailable = true ↔ Chained db frameLength packet next := by
        simpa using ha₁
      by_cases hgo : Chained db frameLength packet next ∧
          samplesTo frameLength firstTimestamp packet < required
      · rw [if_pos ⟨hgo.2, ha.mpr hgo.1⟩]
        rw [extractLoop_of_chained hgo.1 hgo.2] at hl
        obtain ⟨rfl, hr⟩ := Prod.mk.inj hl
        obtain ⟨e', hw, hbuf', hlist', hs', hts'⟩ := ih (Prod.ext rfl hr)
          (hc₁ next rfl hgo.1) (by rw [hbuf₁]) (by rw [length_cons] at hp; omega)
        refine ⟨e', hw, by rw [hbuf', hbuf₁], by rw [hlist', hlist₁]; simp, hs', ?_⟩
        obtain ⟨front, last, _, hnext, -⟩ :=
          extractLoop_chain db frameLength required firstTimestamp next buffer
        rw [hts', hnext, getLastD_cons, getLastD_concat, getLastD_concat]
      · rw [if_neg fun h => hgo ⟨ha.mp h.2, h.1⟩]
        rw [extractLoop_of_not hgo] at hl
        cases hl
        exact ⟨e₁, rfl, hbuf₁, hlist₁, hs₁, hts₁⟩

end Loop

variable {s : NetEqImpl} {db : DecoderDatabase} {required : ℕ}

theorem extractPacketsLoop_eq (s : NetEqImpl) (db : DecoderDatabase) (required : ℕ) :
    s.extractPacketsLoop db required = some (s.extractPackets db required) := by
  rw [extractPacketsLoop, extractPackets, PacketBuffer.peekNextPacket]
  cases hb : s.packetBuffer.buffer with
  | nil => rfl
  | cons packet buffer =>
    have hca : Carries (.start s.packetBuffer s.timestamp) packet := .inl rfl
    have hl : extractLoop db s.decoderFrameLength required packet.timestamp packet.payloadType
        packet buffer = (_, _, _) := rfl
    obtain ⟨e, hw, hk, hlist, hs, hts⟩ :=
      extractWhile_eq hl hca hb (Nat.lt_succ_self buffer.length)
    dsimp only [head?_cons, length_cons]
    rw [hw, map_some, hk, hlist, hs, hts]
    rfl

def InOrder (packets : List Packet) : Prop :=
  packets.IsChain fun p q => isNewerTimestamp p.timestamp q.timestamp = false

theorem InOrder.pairwise {packets : List Packet} (h : InOrder packets) (hwin : InWindow packets) :
    packets.Pairwise fun p q => isNewerTimestamp p.timestamp q.timestamp = false := by
  obtain ⟨base, hb⟩ := hwin
  have hle : ∀ p ∈ packets, ∀ q ∈ packets, isNewerTimestamp p.timestamp q.timestamp = false ↔
      (p.timestamp - base).toNat ≤ (q.timestamp - base).toNat := by
    intro p hp q hq
    rw [Bool.eq_false_iff, ne_eq, Packet.isNewerTimestamp_iff (hb p hp) (hb q hq), not_lt]
  have ho : packets.Pairwise fun p q =>
      (p.timestamp - base).toNat ≤ (q.timestamp - base).toNat := by
    refine (isChain_iff_pairwise.mp ?_)
    exact h.imp_of_mem_imp fun p q hp hq => (hle p hp q hq).mp
  exact ho.imp_of_mem fun hp hq => (hle _ hp _ hq).mpr

theorem discardAllOldPackets_eq_self {b : PacketBuffer} {timestamp : UInt32}
    (h : ∀ p ∈ b.buffer, isNewerTimestamp timestamp p.timestamp = false)
    (stats : StatisticsCalculator) : b.discardAllOldPackets timestamp stats = (b, stats) := by
  have hk : ∀ p ∈ b.buffer, (!(decide (timestamp = p.timestamp) ||
      !PacketBuffer.isObsoleteTimestamp p.timestamp timestamp 0)) = false := by
    intro p hp
    simp [PacketBuffer.isObsoleteTimestamp, h p hp]
  rw [PacketBuffer.discardAllOldPackets, PacketBuffer.discardOldPackets, PacketBuffer.removeIf,
    filter_eq_self.mpr fun p hp => by rw [hk p hp]; rfl,
    filter_eq_nil_iff.mpr fun p hp => by rw [hk p hp]; decide]
  rfl

theorem payloadType_of_chain {frameLength : ℕ} {first : Packet} {rest : List Packet}
    (h : (first :: rest).IsChain (Chained db frameLength)) :
    (∀ p ∈ first :: rest, p.payloadType = first.payloadType) ∧
      (rest ≠ [] → db.isComfortNoise first.payloadType = false) := by
  induction rest generalizing first with
  | nil => exact ⟨by simp, fun h => absurd rfl h⟩
  | cons next rest ih =>
    rw [isChain_cons_cons] at h
    obtain ⟨hc, hchain⟩ := h
    refine ⟨forall_mem_cons.mpr ⟨rfl, fun p hp => ?_⟩, fun _ => hc.2.1⟩
    rw [(ih hchain).1 p hp, hc.1]

/-- On packets in order `ExtractPackets` takes a chain of packets of one type from the front of the
buffer, until there are enough samples or the next packet breaks the chain. -/
theorem extractPackets_chain (s : NetEqImpl) (db : DecoderDatabase) (required : ℕ)
    (hne : s.packetBuffer.buffer ≠ []) (hwindow : InWindow s.packetBuffer.buffer)
    (horder : InOrder s.packetBuffer.buffer) : ∃ first front last rest t result,
      s.extractPacketsLoop db required = some (t, front ++ [last], result) ∧
      s.packetBuffer.buffer = front ++ last :: rest ∧ t.packetBuffer.buffer = rest ∧
      (front ++ [last]).head? = some first ∧
      (∀ p ∈ front ++ [last], p.payloadType = first.payloadType) ∧
      (∀ p ∈ front ++ [last], db.isComfortNoise p.payloadType = true → front = []) ∧
      (front ++ [last]).IsChain (fun p next =>
        (next.sequenceNumber = p.sequenceNumber ∨ next.sequenceNumber = p.sequenceNumber + 1) ∧
        (next.timestamp - p.timestamp).toNat ≤ packetDuration s.decoderFrameLength p) ∧
      (∀ p ∈ front, (p.timestamp - first.timestamp).toNat +
        packetDuration s.decoderFrameLength p < required) ∧
      (required ≤ (last.timestamp - first.timestamp).toNat +
          packetDuration s.decoderFrameLength last ∨
        ∀ next ∈ rest.head?, ¬ Chained db s.decoderFrameLength last next) ∧
      result = toInt32 ((last.timestamp - first.timestamp).toNat +
        packetDuration s.decoderFrameLength last : ℕ) ∧
      ((last.timestamp - first.timestamp).toNat +
          packetDuration s.decoderFrameLength last < 2 ^ 31 →
        result = (last.timestamp - first.timestamp).toNat +
          packetDuration s.decoderFrameLength last) ∧ t.timestamp = last.timestamp ∧
      (0 < result → ∀ p ∈ t.packetBuffer.buffer,
        isNewerTimestamp last.timestamp p.timestamp = false) := by
  obtain ⟨first, buffer, hb⟩ := exists_cons_of_ne_nil hne
  obtain ⟨front, last, rest, hl, hs, hc, hf, hstop⟩ :=
    extractLoop_chain db s.decoderFrameLength required first.timestamp first buffer
  have hsorted := horder.pairwise hwindow
  rw [hb, hs] at hsorted
  have hnew : ∀ p ∈ rest, isNewerTimestamp last.timestamp p.timestamp = false :=
    (pairwise_cons.mp (pairwise_append.mp hsorted).2.1).1
  obtain ⟨tail, ht⟩ := exists_concat_eq_cons hs
  have htypes := payloadType_of_chain (ht ▸ hc)
  rw [← ht] at htypes
  -- the packets that stay are not older than the last one that is taken
  have hk : ({ s.packetBuffer with buffer := rest } : PacketBuffer).discardAllOldPackets
      last.timestamp s.stats = ({ s.packetBuffer with buffer := rest }, s.stats) :=
    discardAllOldPackets_eq_self hnew s.stats
  have hr : s.extractPackets db required =
      ({ s with
          packetBuffer := { s.packetBuffer with buffer := rest }
          timestamp := last.timestamp },
        front ++ [last], toInt32 (samplesTo s.decoderFrameLength first.timestamp last : ℕ)) := by
    rw [extractPackets, hb]
    simp only [hl, getLastD_concat, hk, ite_self]
  refine ⟨first, front, last, rest, _, _, (extractPacketsLoop_eq s db required).trans
    (congrArg some hr), hb.trans hs, rfl, by rw [ht]; rfl, htypes.1,
    fun p hp hn => ?_, hc.imp fun p q h => h.2.2, hf, hstop, rfl, fun hlt => ?_, rfl,
    fun _ => hnew⟩
  · by_contra hfirst
    have ht' : tail ≠ [] := by
      rintro rfl
      have hlen := congrArg length ht
      rw [length_append, length_singleton, length_singleton] at hlen
      exact hfirst (eq_nil_of_length_eq_zero (by omega))
    rw [htypes.1 p hp, htypes.2 ht'] at hn
    exact Bool.false_ne_true hn
  · exact toInt32_eq_self ⟨by omega, by exact_mod_cast hlt⟩

def speechPacket (timestamp : UInt32) (sequenceNumber : UInt16) : Packet where
  timestamp := timestamp
  sequenceNumber := sequenceNumber
  payloadType := 0
  payload := ⟨[], (by decide : 0 < 2 ^ 63)⟩
  priority := ⟨0, 0⟩
  packetInfo := ⟨1, [], timestamp, none, none, 0⟩
  waitingTime := some 0
  frame := some ⟨160, false⟩

def gapBuffer : PacketBuffer :=
  ⟨50, [speechPacket 0xFFFFFF60 0xFFFF, speechPacket 0 0, speechPacket 320 2]⟩

theorem extractPackets_chain_gapBuffer : ∃ first front last rest t result,
      ({ newNetEq with packetBuffer := gapBuffer } : NetEqImpl).extractPacketsLoop onlySpeech 400 =
        some (t, front ++ [last], result) ∧
      gapBuffer.buffer = front ++ last :: rest ∧ t.packetBuffer.buffer = rest ∧
      (front ++ [last]).head? = some first ∧ t.timestamp = last.timestamp ∧ result = 320 := by
  have hw : InWindow gapBuffer.buffer := ⟨0xFFFFFF60, by decide⟩
  have ho : InOrder gapBuffer.buffer := by
    unfold InOrder
    decide
  obtain ⟨first, front, last, rest, t, result, hrun, hs, hrest, hf, -, -, -, -, -, -, -, hts,
      -⟩ :=
    extractPackets_chain { newNetEq with packetBuffer := gapBuffer } onlySpeech 400
      (cons_ne_nil _ _) hw ho
  refine ⟨first, front, last, rest, t, result, hrun, hs, hrest, hf, hts, ?_⟩
  have hr : (({ newNetEq with packetBuffer := gapBuffer } : NetEqImpl).extractPacketsLoop
      onlySpeech 400).map (fun r => r.2.2) = some 320 := by decide +kernel
  rw [hrun] at hr
  exact some.inj hr

end NetEqImpl

end WebRtcAudio.NetEq
