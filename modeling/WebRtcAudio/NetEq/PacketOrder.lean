import Mathlib.Data.List.Basic
import Mathlib.Tactic.Linarith
import WebRtcAudio.Core.SerialNumber
import WebRtcAudio.NetEq.PacketBuffer

/-! The order of the packets in the buffer, inside a window shorter than half the range. -/
namespace WebRtcAudio.NetEq

open WebRtcAudio.Core AudioCoding List

def InWindowFrom (base : UInt32) (packets : List Packet) : Prop :=
  ∀ p ∈ packets, (p.timestamp - base).toNat < 2 ^ 31 - 1

instance (base : UInt32) (packets : List Packet) : Decidable (InWindowFrom base packets) :=
  inferInstanceAs (Decidable (∀ p ∈ packets, _))

def InWindow (packets : List Packet) : Prop := ∃ base, InWindowFrom base packets

def Ascending (packets : List Packet) : Prop :=
  packets.Pairwise fun p q => isNewerTimestamp q.timestamp p.timestamp = true

def SequenceWindow (base : UInt16) (packets : List Packet) : Prop :=
  ∀ p ∈ packets, (p.sequenceNumber - base).toNat < 2 ^ 15 - 1

def NotLarger (base : UInt16) (p q : Packet) : Prop :=
  (p.sequenceNumber - base).toNat < (q.sequenceNumber - base).toNat ∨
    p.sequenceNumber = q.sequenceNumber ∧
      (p.priority.codecLevel < q.priority.codecLevel ∨
        p.priority.codecLevel = q.priority.codecLevel ∧ p.priority.redLevel ≤ q.priority.redLevel)

variable {base : UInt32}

namespace Packet

variable {p q : Packet}

theorem isNewerTimestamp_iff {t u : UInt32} (ht : (t - base).toNat < 2 ^ 31 - 1)
    (hu : (u - base).toNat < 2 ^ 31 - 1) :
    isNewerTimestamp t u = true ↔ (u - base).toNat < (t - base).toNat := by
  have hh : (t - u = 0x80000000) ↔ (t - u).toNat = 2 ^ 31 := UInt32.toNat_inj.symm
  have hlt : (t - u < 0x80000000) ↔ (t - u).toNat < 2 ^ 31 := UInt32.lt_iff_toNat_lt
  rcases Nat.lt_or_ge (t - base).toNat (u - base).toNat with h | h
  · have hsub := uint32_sub_of_lt h
    rw [isNewerTimestamp, if_neg (hh.not.mpr (by omega))]
    simp only [Bool.and_eq_true, decide_eq_true_eq, hlt]
    omega
  · have hsub := uint32_sub_of_le h
    rw [isNewerTimestamp, if_neg (hh.not.mpr (by omega))]
    simp only [Bool.and_eq_true, decide_eq_true_eq, hlt]
    constructor
    · rintro ⟨hne, -⟩
      refine lt_of_le_of_ne h fun heq => hne ?_
      exact (uint32_eq_of_sub_eq base heq).symm
    · intro h
      refine ⟨?_, by omega⟩
      rintro rfl
      omega

theorem lt_iff_of_timestamp_ne (hp : (p.timestamp - base).toNat < 2 ^ 31 - 1)
    (hq : (q.timestamp - base).toNat < 2 ^ 31 - 1) (hne : p.timestamp ≠ q.timestamp) :
    p.lt q = true ↔ (p.timestamp - base).toNat < (q.timestamp - base).toNat := by
  have hlt : (q.timestamp - p.timestamp < 0xFFFFFFFF / 2) ↔
      (q.timestamp - p.timestamp).toNat < 2 ^ 31 - 1 := UInt32.lt_iff_toNat_lt
  rw [lt, if_neg hne, decide_eq_true_iff, hlt]
  rcases Nat.lt_or_ge (q.timestamp - base).toNat (p.timestamp - base).toNat with h | h
  · have hsub := uint32_sub_of_lt h
    omega
  · have hsub := uint32_sub_of_le h
    have hne' : (p.timestamp - base).toNat ≠ (q.timestamp - base).toNat := fun heq =>
      hne (uint32_eq_of_sub_eq base heq)
    omega

section
variable {base : UInt16} (hp : (p.sequenceNumber - base).toNat < 2 ^ 15 - 1)
  (hq : (q.sequenceNumber - base).toNat < 2 ^ 15 - 1) (heq : p.timestamp = q.timestamp)
include hp hq heq

theorem notLarger_of_lt (h : p.lt q = true) : NotLarger base p q := by
  rw [lt, if_pos heq] at h
  split_ifs at h with hs
  · rw [Priority.lt] at h
    split_ifs at h with hc
    · exact .inr ⟨hs, .inr ⟨hc, (decide_eq_true_iff.mp h).le⟩⟩
    · exact .inr ⟨hs, .inl (decide_eq_true_iff.mp h)⟩
  · left
    have hlt : (q.sequenceNumber - p.sequenceNumber).toNat < 2 ^ 15 - 1 :=
      UInt16.lt_iff_toNat_lt.mp (decide_eq_true_iff.mp h)
    by_contra hge
    rcases Nat.lt_or_ge (q.sequenceNumber - base).toNat (p.sequenceNumber - base).toNat with h | h
    · have hsub := uint16_sub_of_lt h
      omega
    · exact hs (uint16_eq_of_sub_eq base (by omega))

theorem notLarger_of_not_lt (h : p.lt q = false) : NotLarger base q p := by
  rw [lt, if_pos heq] at h
  split_ifs at h with hs
  · rw [Priority.lt] at h
    refine .inr ⟨hs.symm, ?_⟩
    split_ifs at h with hc
    · exact .inr ⟨hc.symm, not_lt.mp (decide_eq_false_iff_not.mp h)⟩
    · exact .inl (lt_of_le_of_ne (not_lt.mp (decide_eq_false_iff_not.mp h)) (Ne.symm hc))
  · left
    have hge : ¬ (q.sequenceNumber - p.sequenceNumber).toNat < 2 ^ 15 - 1 := fun hlt =>
      decide_eq_false_iff_not.mp h (UInt16.lt_iff_toNat_lt.mpr hlt)
    by_contra hge'
    have hsub := uint16_sub_of_le (not_lt.mp hge')
    omega

end

end Packet

theorem NotLarger.refl (base : UInt16) (p : Packet) : NotLarger base p p :=
  .inr ⟨rfl, .inr ⟨rfl, le_refl _⟩⟩

theorem NotLarger.trans {base : UInt16} {p q r : Packet} (hpq : NotLarger base p q)
    (hqr : NotLarger base q r) : NotLarger base p r := by
  rcases hpq with h₁ | ⟨hs₁, h₁⟩ <;> rcases hqr with h₂ | ⟨hs₂, h₂⟩
  · exact .inl (h₁.trans h₂)
  · exact .inl (hs₂ ▸ h₁)
  · exact .inl (hs₁ ▸ h₂)
  · refine .inr ⟨hs₁.trans hs₂, ?_⟩
    omega

theorem ascending_iff {packets : List Packet} (h : InWindowFrom base packets) : Ascending packets ↔
      packets.Pairwise fun p q => (p.timestamp - base).toNat < (q.timestamp - base).toNat := by
  refine List.Pairwise.iff_of_mem fun {p q} hp hq => ?_
  exact Packet.isNewerTimestamp_iff (h q hq) (h p hp)

theorem exists_cut {α : Type*} {f : α → ℕ} {l : List α} (h : l.Pairwise fun a b => f a < f b)
    (v : ℕ) : ∃ front back, (∀ a ∈ front, f a < v) ∧ (∀ a ∈ back, v < f a) ∧
      (l = front ++ back ∨ ∃ a, f a = v ∧ l = front ++ a :: back) := by
  induction l with
  | nil => exact ⟨[], [], by simp, by simp, .inl rfl⟩
  | cons a l ih =>
    obtain ⟨hh, ht⟩ := pairwise_cons.mp h
    rcases lt_trichotomy (f a) v with hlt | heq | hgt
    · obtain ⟨front, back, hfront, hback, hl⟩ := ih ht
      refine ⟨a :: front, back, forall_mem_cons.mpr ⟨hlt, hfront⟩, hback, ?_⟩
      rcases hl with rfl | ⟨b, hb, rfl⟩
      · exact .inl rfl
      · exact .inr ⟨b, hb, rfl⟩
    · exact ⟨[], l, by simp, fun b hb => heq ▸ hh b hb, .inr ⟨a, heq, rfl⟩⟩
    · refine ⟨[], a :: l, by simp, forall_mem_cons.mpr ⟨hgt, fun b hb => ?_⟩, .inl rfl⟩
      exact hgt.trans (hh b hb)

namespace PacketBuffer

variable {packet : Packet} {front back : List Packet}

section
variable (hfront : ∀ p ∈ front, packet.lt p = false) (hback : ∀ p ∈ back, packet.lt p = true)
include hfront hback

theorem before_append : before packet (front ++ back) = front.reverse := by
  have hs : ∀ p ∈ back.reverse, (!newTimestampIsLarger packet p) = true := by
    intro p hp
    simpa [newTimestampIsLarger, Packet.ge] using hback p (mem_reverse.mp hp)
  rw [before, reverse_append, dropWhile_append_of_pos hs]
  cases hr : front.reverse with
  | nil => rfl
  | cons p ps =>
    have hp : p ∈ front := mem_reverse.mp (hr ▸ mem_cons_self)
    exact dropWhile_cons_of_neg (by simp [newTimestampIsLarger, Packet.ge, hfront p hp])

theorem after_append : after packet (front ++ back) = back := by
  have happ : (after packet (front ++ back)).reverse ++ before packet (front ++ back) =
      (front ++ back).reverse := by
    rw [after, reverse_reverse]
    exact takeWhile_append_dropWhile
  rw [before_append hfront hback, reverse_append] at happ
  exact reverse_injective (append_cancel_right happ)

theorem insertSorted_append (hne : ∀ p ∈ front, packet.timestamp ≠ p.timestamp)
    (stats : StatisticsCalculator) : insertSorted packet (front ++ back) stats =
      insertSorted.insertBefore packet front.reverse back stats := by
  rw [insertSorted, before_append hfront hback, after_append hfront hback]
  cases hr : front.reverse with
  | nil => rfl
  | cons p ps =>
    have hp : p ∈ front := mem_reverse.mp (hr ▸ mem_cons_self)
    exact if_neg (hne p hp)

end

/-- The place of a timestamp, as it is seen from the start of the window. -/
structure Place (base timestamp : UInt32) (front back : List Packet) : Prop where
  front : ∀ p ∈ front, (p.timestamp - base).toNat < (timestamp - base).toNat
  back : ∀ p ∈ back, (timestamp - base).toNat < (p.timestamp - base).toNat

theorem Place.ne {timestamp : UInt32} (h : Place base timestamp front back) {p : Packet}
    (hp : p ∈ front ++ back) : p.timestamp ≠ timestamp := by
  rintro rfl
  rcases mem_append.mp hp with hp | hp
  · exact lt_irrefl _ (h.front p hp)
  · exact lt_irrefl _ (h.back p hp)

theorem insertSorted_cases {buffer : List Packet} (hwin : InWindowFrom base (packet :: buffer))
    (ha : Ascending buffer) (stats : StatisticsCalculator) :
    ∃ front back, Place base packet.timestamp front back ∧
      (buffer = front ++ back ∧
          insertSorted packet buffer stats = (front ++ packet :: back, stats) ∨
        ∃ held, held.timestamp = packet.timestamp ∧ buffer = front ++ held :: back ∧
          insertSorted packet buffer stats = if packet.lt held then
              (front ++ packet :: back, logPacketDiscarded held.priority.codecLevel stats)
            else (front ++ held :: back, logPacketDiscarded packet.priority.codecLevel stats)) := by
  obtain ⟨hpacket, hb⟩ := forall_mem_cons.mp hwin
  obtain ⟨front, back, hfront, hback, hcut⟩ :=
    exists_cut ((ascending_iff hb).mp ha) (packet.timestamp - base).toNat
  have hplace : Place base packet.timestamp front back := ⟨hfront, hback⟩
  refine ⟨front, back, hplace, ?_⟩
  have hmem : ∀ p ∈ front ++ back, p ∈ buffer := by
    rcases hcut with rfl | ⟨held, -, rfl⟩ <;> simp +contextual [or_imp]
  have hiff (p : Packet) (hp : p ∈ front ++ back) :=
    Packet.lt_iff_of_timestamp_ne hpacket (hb p (hmem p hp)) (hplace.ne hp).symm
  have hne_front : ∀ p ∈ front, packet.timestamp ≠ p.timestamp := fun p hp =>
    (hplace.ne (mem_append_left _ hp)).symm
  have hlt_front : ∀ p ∈ front, packet.lt p = false := by
    intro p hp
    have hlt := hfront p hp
    rw [Bool.eq_false_iff, ne_eq, hiff p (mem_append_left _ hp)]
    omega
  have hlt_back : ∀ p ∈ back, packet.lt p = true := fun p hp =>
    (hiff p (mem_append_right _ hp)).mpr (hback p hp)
  rcases hcut with rfl | ⟨held, ho, rfl⟩
  · left
    refine ⟨rfl, ?_⟩
    rw [insertSorted_append hlt_front hlt_back hne_front]
    cases back with
    | nil => simp [insertSorted.insertBefore]
    | cons p back =>
      rw [insertSorted.insertBefore, if_neg (hplace.ne (by simp)).symm, reverse_reverse]
  · right
    have heq : held.timestamp = packet.timestamp := uint32_eq_of_sub_eq base ho
    refine ⟨held, heq, rfl, ?_⟩
    split_ifs with hlt
    · rw [insertSorted_append hlt_front (forall_mem_cons.mpr ⟨hlt, hlt_back⟩) hne_front,
        insertSorted.insertBefore, if_pos heq.symm, reverse_reverse]
    · -- The held packet is the last one that goes before the new one.
      have hfront' : ∀ p ∈ front ++ [held], packet.lt p = false :=
        forall_mem_append.mpr ⟨hlt_front, by simpa using hlt⟩
      have hbe := before_append hfront' hlt_back
      rw [append_assoc, reverse_append] at hbe
      rw [insertSorted]
      simp only [singleton_append, reverse_singleton] at hbe
      rw [hbe]
      exact if_pos heq.symm

end PacketBuffer

end WebRtcAudio.NetEq
