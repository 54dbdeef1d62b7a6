import WebRtcAudio.NetEq.GetAudio
import WebRtcAudio.NetEq.TimestampTranslation

/-! The comfort noise packets that `GetDecision` discards, comparing timestamps as numbers. -/
namespace WebRtcAudio.NetEq

open WebRtcAudio.Core AudioCoding List

theorem dropWhile_eq_iff {α : Type*} {f g : α → Bool} {l : List α} : l.dropWhile f = l.dropWhile g ↔
      ∀ pre a post, l = pre ++ a :: post → (∀ b ∈ pre, g b = true) → f a = g a := by
  induction l with
  | nil => simp
  | cons x xs ih =>
    rw [forall_split_cons (Q := fun pre a => (∀ b ∈ pre, g b = true) → f a = g a)]
    have hlen (h : α → Bool) : xs.dropWhile h ≠ x :: xs := fun heq => by
      have hle := (dropWhile_suffix (l := xs) h).length_le
      rw [heq, length_cons] at hle
      omega
    cases hf : f x <;> cases hg : g x <;>
      simp [hf, hg, hlen, (hlen _).symm, ih]

def Packet.translate (p : Packet) (c : UInt32) : Packet := { p with timestamp := p.timestamp + c }

namespace NetEqImpl

def isKept (fs : SampleRate) (endTimestamp : UInt32) (p : Packet) : Bool :=
  decide (endTimestamp = p.timestamp) ||
    !PacketBuffer.isObsoleteTimestamp p.timestamp endTimestamp (DecisionLogic.fiveSecondsSamples fs)

theorem purge_buffer (newCodec : Bool) (fs : SampleRate) (endTimestamp : UInt32)
    (r : PacketBuffer × StatisticsCalculator) : (purge newCodec fs endTimestamp r).1.buffer =
      r.1.buffer.filter fun p => newCodec || isKept fs endTimestamp p := by
  cases newCodec <;>
    simp [purge, PacketBuffer.discardOldPackets, PacketBuffer.removeIf, isKept, Bool.not_not]

theorem discardLoop_buffer (db : DecoderDatabase) {newCodec : Bool} {fs : SampleRate}
    {endTimestamp : UInt32} (generatedNoise : ℕ) {fuel : ℕ}
    {r : PacketBuffer × StatisticsCalculator} (hf : r.1.buffer.length ≤ fuel)
    (hk : ∀ p ∈ r.1.buffer, (newCodec || isKept fs endTimestamp p) = true) :
    (discardLoop db newCodec fs endTimestamp generatedNoise fuel r).1.buffer =
      r.1.buffer.dropWhile (discardsComfortNoise db endTimestamp generatedNoise) := by
  induction fuel generalizing r with
  | zero =>
    have hnil : r.1.buffer = [] := List.length_eq_zero_iff.mp (Nat.le_zero.mp hf)
    rw [discardLoop, hnil, dropWhile_nil]
  | succ fuel ih =>
    rw [discardLoop, PacketBuffer.peekNextPacket]
    cases hbuf : r.1.buffer with
    | nil => simp [hbuf]
    | cons p buffer =>
      rw [hbuf, forall_mem_cons] at hk
      rw [hbuf, length_cons] at hf
      simp only [List.head?_cons]
      cases hd : discardsComfortNoise db endTimestamp generatedNoise p with
      | false => rw [dropWhile_cons_of_neg (by simp [hd])]; simpa using hbuf
      | true =>
        have hr : (purge newCodec fs endTimestamp ((r.1.discardNextPacket r.2).1,
            (r.1.discardNextPacket r.2).2.1)).1.buffer = buffer := by
          rw [purge_buffer, PacketBuffer.discardNextPacket, hbuf]
          exact List.filter_eq_self.mpr hk.2
        rw [if_pos rfl, ih (by rw [hr]; omega) (by rw [hr]; exact hk.2), hr,
          dropWhile_cons_of_pos hd]

def purged (s : NetEqImpl) : List Packet :=
  s.packetBuffer.buffer.filter fun p => s.newCodec || isKept s.fs s.endTimestamp p

theorem discardPackets_buffer (s : NetEqImpl) (db : DecoderDatabase)
    (hcng : s.controller.cngState = .rfc3389On ∨ s.lastMode = .rfc3389Cng) :
    (s.discardPackets db).1.buffer =
      s.purged.dropWhile (discardsComfortNoise db s.endTimestamp (s.generatedNoiseSamples 1)) := by
  have hpurged := purge_buffer s.newCodec s.fs s.endTimestamp (s.packetBuffer, s.stats)
  rw [discardPackets, if_pos hcng, discardLoop_buffer db _ le_rfl, hpurged, purged]
  rw [hpurged]
  exact fun p hp => (List.mem_filter.mp hp).2

/-- A comfort noise packet that is not needed any more: it is not newer than the end of the audio,
or older than the end of the noise. -/
def isOverdue (db : DecoderDatabase) (endTimestamp : UInt32) (generatedNoise : ℕ) (p : Packet) :
    Bool :=
  db.isComfortNoise p.payloadType && (!isNewerTimestamp p.timestamp endTimestamp ||
    isNewerTimestamp (endTimestamp + UInt32.ofNat generatedNoise) p.timestamp)

/-- The wrap does not lie between the end of the audio and the packet, or it lies in the noise
that was generated since. -/
def NoWrapBetween (endTimestamp : UInt32) (generatedNoise : ℕ) (p : Packet) : Prop :=
  TimestampScaler.Wraps endTimestamp p.timestamp →
    (p.timestamp - endTimestamp).toNat < generatedNoise

section Distance
variable {db : DecoderDatabase} {endTimestamp : UInt32} {generatedNoise : ℕ} {p : Packet}

theorem isNewerTimestamp_iff_sub {t u : UInt32} (h : t - u ≠ 0x80000000) :
    isNewerTimestamp t u = true ↔ 0 < (t - u).toNat ∧ (t - u).toNat < 2 ^ 31 := by
  have hne : t ≠ u ↔ 0 < (t - u).toNat := by
    rw [Nat.pos_iff_ne_zero, ne_eq, ne_eq, not_iff_not]
    constructor
    · rintro rfl
      simp
    · intro hz
      have hsub : t - u = 0 := UInt32.toNat_inj.mp hz
      rw [← UInt32.sub_add_cancel t u, hsub, UInt32.zero_add]
  rw [isNewerTimestamp, if_neg h, Bool.and_eq_true, decide_eq_true_iff, decide_eq_true_iff, hne,
    UInt32.lt_iff_toNat_lt]
  rfl

theorem isOverdue_iff (hnoise : generatedNoise < 2 ^ 31)
    (hp : p.timestamp - endTimestamp ≠ 0x80000000) :
    isOverdue db endTimestamp generatedNoise p = true ↔ db.isComfortNoise p.payloadType = true ∧
        ((p.timestamp - endTimestamp).toNat = 0 ∨ 2 ^ 31 ≤ (p.timestamp - endTimestamp).toNat ∨
          (p.timestamp - endTimestamp).toNat < generatedNoise) := by
  have hlt := (p.timestamp - endTimestamp).toNat_lt
  have hnat : (UInt32.ofNat generatedNoise).toNat = generatedNoise := by
    rw [UInt32.toNat_ofNat']
    omega
  rw [isOverdue, Bool.and_eq_true, and_congr_right_iff]
  intro _
  rw [Bool.or_eq_true, Bool.not_eq_true', Bool.eq_false_iff, ne_eq, isNewerTimestamp_iff_sub hp]
  by_cases hn : 0 < (p.timestamp - endTimestamp).toNat ∧
      (p.timestamp - endTimestamp).toNat < 2 ^ 31
  · -- A newer packet is less than half the range away from the end of the noise.
    have hsub : endTimestamp + UInt32.ofNat generatedNoise - p.timestamp =
        UInt32.ofNat generatedNoise - (p.timestamp - endTimestamp) := by grind
    have hd : (endTimestamp + UInt32.ofNat generatedNoise - p.timestamp).toNat =
        (2 ^ 32 + generatedNoise - (p.timestamp - endTimestamp).toNat) % 2 ^ 32 := by
      rw [hsub, UInt32.toNat_sub, hnat]
      omega
    have hh : endTimestamp + UInt32.ofNat generatedNoise - p.timestamp ≠ 0x80000000 := by
      intro heq
      rw [heq] at hd
      simp only [UInt32.reduceToNat] at hd
      omega
    rw [isNewerTimestamp_iff_sub hh, hd]
    omega
  · simp only [hn, not_false_eq_true, true_or, true_iff]
    omega

theorem wraps_iff (hp : p.timestamp - endTimestamp ≠ 0x80000000) :
    TimestampScaler.Wraps endTimestamp p.timestamp ↔
      if (p.timestamp - endTimestamp).toNat < 2 ^ 31 then
        2 ^ 32 ≤ endTimestamp.toNat + (p.timestamp - endTimestamp).toNat
      else endTimestamp.toNat + (p.timestamp - endTimestamp).toNat < 2 ^ 32 := by
  have hlt := (p.timestamp - endTimestamp).toNat_lt
  have hend := endTimestamp.toNat_lt
  rw [TimestampScaler.Wraps, TimestampScaler.circularDifference, toInt32, Int.bmod_def]
  split_ifs <;> push_cast at * <;> omega

theorem discardsComfortNoise_iff (hnoise : generatedNoise < 2 ^ 31) :
    discardsComfortNoise db endTimestamp generatedNoise p = true ↔
      db.isComfortNoise p.payloadType = true ∧ (p.timestamp.toNat ≤ endTimestamp.toNat ∨
        p.timestamp.toNat < endTimestamp.toNat + generatedNoise) := by
  have hend := endTimestamp.toNat_lt
  rw [discardsComfortNoise, toSizeT_natCast (by omega), Bool.and_eq_true, Bool.or_eq_true,
    decide_eq_true_iff, decide_eq_true_iff, ge_iff_le, UInt32.le_iff_toNat_le, gt_iff_lt]

theorem discardsComfortNoise_eq_iff (hn : generatedNoise < 2 ^ 31)
    (hp : p.timestamp - endTimestamp ≠ 0x80000000) :
    discardsComfortNoise db endTimestamp generatedNoise p =
        isOverdue db endTimestamp generatedNoise p ↔
      (db.isComfortNoise p.payloadType = true → NoWrapBetween endTimestamp generatedNoise p) := by
  have hlt := (p.timestamp - endTimestamp).toNat_lt
  have hend := endTimestamp.toNat_lt
  have hsum : p.timestamp.toNat =
      (endTimestamp.toNat + (p.timestamp - endTimestamp).toNat) % 2 ^ 32 := by
    rw [← UInt32.toNat_add, UInt32.add_comm, UInt32.sub_add_cancel]
  rw [Bool.eq_iff_iff, discardsComfortNoise_iff hn, isOverdue_iff hn hp, NoWrapBetween,
    wraps_iff hp]
  by_cases hcng : db.isComfortNoise p.payloadType = true
  · simp only [hcng, true_and, true_implies]
    split_ifs <;> omega
  · simp [hcng]

end Distance

def translate (s : NetEqImpl) (c : UInt32) : NetEqImpl :=
  { s with
    endTimestamp := s.endTimestamp + c
    packetBuffer := { s.packetBuffer with buffer := s.packetBuffer.buffer.map (·.translate c) } }

theorem isKept_translate (fs : SampleRate) (endTimestamp c : UInt32) (p : Packet) :
    isKept fs (endTimestamp + c) (p.translate c) = isKept fs endTimestamp p := by
  rw [isKept, isKept, Packet.translate, isObsoleteTimestamp_translate _ _ c
    (fiveSecondsSamples_pos fs) (fiveSecondsSamples_lt fs)]
  simp only [UInt32.add_left_inj]

theorem purged_translate (s : NetEqImpl) (c : UInt32) :
    (s.translate c).purged = s.purged.map (·.translate c) := by
  simp only [purged, translate, List.filter_map]
  congr 1
  exact filter_congr fun p _ => by simp only [Function.comp_apply, isKept_translate]

theorem isOverdue_translate {db : DecoderDatabase} {endTimestamp : UInt32} {generatedNoise : ℕ}
    {p : Packet} (c : UInt32) (hn : generatedNoise < 2 ^ 31)
    (hp : p.timestamp - endTimestamp ≠ 0x80000000) :
    isOverdue db (endTimestamp + c) generatedNoise (p.translate c) =
      isOverdue db endTimestamp generatedNoise p := by
  have hsub : (p.translate c).timestamp - (endTimestamp + c) = p.timestamp - endTimestamp := by
    rw [Packet.translate]
    grind
  rw [Bool.eq_iff_iff, isOverdue_iff hn (by rwa [hsub]), isOverdue_iff hn hp, hsub,
    Packet.translate]

/-- The wrap does not lie between the end of the audio and a comfort noise packet that the loop
has to look at. -/
def WrapFree (s : NetEqImpl) (db : DecoderDatabase) : Prop :=
  ∀ pre p post, s.purged = pre ++ p :: post →
    (∀ q ∈ pre, isOverdue db s.endTimestamp (s.generatedNoiseSamples 1) q = true) →
      db.isComfortNoise p.payloadType = true →
        NoWrapBetween s.endTimestamp (s.generatedNoiseSamples 1) p

/-- The loop discards the comfort noise at the front that is overdue exactly if no packet it looks
at is on the other side of the wrap, and then a translation does not matter. -/
theorem discardPackets_iff (s : NetEqImpl) (db : DecoderDatabase)
    (hcng : s.controller.cngState = .rfc3389On ∨ s.lastMode = .rfc3389Cng)
    (hnoise : s.generatedNoiseSamples 1 < 2 ^ 31)
    (hwindow : ∀ p ∈ s.packetBuffer.buffer, p.timestamp - s.endTimestamp ≠ 0x80000000) :
    ((s.discardPackets db).1.buffer =
        s.purged.dropWhile (isOverdue db s.endTimestamp (s.generatedNoiseSamples 1)) ↔
      s.WrapFree db) ∧ ∀ c, s.WrapFree db → (s.translate c).WrapFree db →
      ((s.translate c).discardPackets db).1.buffer =
        (s.discardPackets db).1.buffer.map (·.translate c) := by
  have hpurged : ∀ p ∈ s.purged, p.timestamp - s.endTimestamp ≠ 0x80000000 := fun p hp =>
    hwindow p (List.mem_filter.mp hp).1
  have he (t : NetEqImpl) (ht : t.controller.cngState = .rfc3389On ∨ t.lastMode = .rfc3389Cng)
      (hn : t.generatedNoiseSamples 1 < 2 ^ 31)
      (hw : ∀ p ∈ t.purged, p.timestamp - t.endTimestamp ≠ 0x80000000) :
      (t.discardPackets db).1.buffer =
          t.purged.dropWhile (isOverdue db t.endTimestamp (t.generatedNoiseSamples 1)) ↔
        t.WrapFree db := by
    rw [t.discardPackets_buffer db ht, dropWhile_eq_iff, WrapFree]
    refine forall₃_congr fun pre p post => forall₂_congr fun heq _ => ?_
    exact discardsComfortNoise_eq_iff hn (hw p (by rw [heq]; simp))
  refine ⟨he s hcng hnoise hpurged, fun c hf hf' => ?_⟩
  have hwin' : ∀ p ∈ (s.translate c).purged,
      p.timestamp - (s.translate c).endTimestamp ≠ 0x80000000 := by
    rw [purged_translate, List.forall_mem_map]
    intro p hp
    have hsub : (p.translate c).timestamp - (s.translate c).endTimestamp =
        p.timestamp - s.endTimestamp := by
      rw [Packet.translate, translate]
      grind
    rw [hsub]
    exact hpurged p hp
  rw [(he s hcng hnoise hpurged).mpr hf,
    (he (s.translate c) hcng hnoise hwin').mpr hf', purged_translate,
    dropWhile_map]
  congr 1
  refine dropWhile_eq_iff.mpr fun pre p post heq _ => ?_
  exact isOverdue_translate c hnoise (hpurged p (by rw [heq]; simp))

def speechCodec : DecoderInfo where
  subtype := .normal
  clockrateHz := 8000
  decoderSampleRateHz := 8000
  channels := 1
  parsePayload _ timestamp := [⟨timestamp, 0, ⟨160, false⟩⟩]

def speechAndNoise : DecoderDatabase := fun rtpPayloadType =>
  if rtpPayloadType = 0 then some speechCodec
  else if rtpPayloadType = 13 then some ⟨.comfortNoise, 8000, 8000, 1, fun _ _ => []⟩
  else none

def noisePacket (timestamp : UInt32) : Packet :=
  .received timestamp 1 13 ⟨[0x40], by decide⟩ ⟨1, [], timestamp, none, none, 0⟩

def silence (endTimestamp : UInt32) : NetEqImpl :=
  { initial .hz8000 false 50 DecisionLogic.silenceLogic with
    packetBuffer := ⟨50, [noisePacket (endTimestamp + 512)]⟩
    lastMode := .rfc3389Cng
    firstPacket := false
    endTimestamp := endTimestamp
    generatedNoiseStopwatch := some 98 }

theorem discardPackets_keeps_update :
    ((silence 1000).discardPackets speechAndNoise).1.buffer = [noisePacket 1512] := by
  have hf : (silence 1000).WrapFree speechAndNoise := by
    have hp : (silence 1000).purged = [noisePacket 1512] := by decide
    rw [WrapFree, hp, forall_split_cons (Q := fun pre p => (∀ q ∈ pre, _) → _ → _)]
    refine ⟨fun _ _ hw => absurd hw (by decide), ?_⟩
    simp
  have he := (discardPackets_iff (silence 1000) speechAndNoise (by decide) (by decide)
    (by decide)).1.mpr hf
  rw [he]
  decide

theorem discardPackets_loses_update_at_wrap : (silence 0xFFFFFF00).generatedNoiseSamples 1 = 80 ∧
      ((silence 0xFFFFFF00).discardPackets speechAndNoise).1.buffer = [] ∧
      (silence 0xFFFFFF00).purged.dropWhile (isOverdue speechAndNoise 0xFFFFFF00 80) =
        [noisePacket 256] ∧
      ((silence 1000).discardPackets speechAndNoise).1.buffer = [noisePacket 1512] := by
  decide

end NetEqImpl

end WebRtcAudio.NetEq
