import Mathlib.Tactic.LinearCombination
import Mathlib.Tactic.Ring
import WebRtcAudio.Core.MachineInt
import WebRtcAudio.Core.Run
import WebRtcAudio.NetEq.DecoderDatabase

/-! `TimestampScaler`: distances of RTP timestamps, scaled to samples. -/
namespace WebRtcAudio.NetEq

open WebRtcAudio.Core

structure TimestampScaler where
  firstPacketReceived : Bool
  numerator : ℤ
  denominator : ℤ
  externalRef : UInt32
  internalRef : UInt32

namespace TimestampScaler

def initial : TimestampScaler := ⟨false, 1, 1, 0, 0⟩

def reset (s : TimestampScaler) : TimestampScaler := { s with firstPacketReceived := false }

def setScale (s : TimestampScaler) (info : DecoderInfo) : TimestampScaler :=
  if info.isComfortNoise || info.isDtmf then s
  else
    { s with
      numerator := info.sampleRateHz
      denominator := if info.clockrateHz = 0 then info.sampleRateHz else info.clockrateHz }

/-- `ToInternal` for a timestamp. The product of an `int` with a difference of two 32-bit numbers
fits in 64 bits. -/
def toInternal (s : TimestampScaler) (db : DecoderDatabase) (externalTimestamp : UInt32)
    (rtpPayloadType : UInt8) : TimestampScaler × UInt32 :=
  match db.getDecoderInfo rtpPayloadType with
  | none => (s, externalTimestamp)
  | some info =>
    let s := s.setScale info
    if s.numerator ≠ s.denominator then
      let s :=
        if !s.firstPacketReceived then
          { s with
            externalRef := externalTimestamp
            internalRef := externalTimestamp
            firstPacketReceived := true }
        else s
      let externalDiff : ℤ := externalTimestamp.toNat - s.externalRef.toNat
      let internalRef :=
        s.internalRef + UInt32.ofInt ((externalDiff * s.numerator).tdiv s.denominator)
      ({ s with externalRef := externalTimestamp, internalRef := internalRef }, internalRef)
    else (s, externalTimestamp)

def toInternalPacket (s : TimestampScaler) (db : DecoderDatabase) (packet : Packet) :
    TimestampScaler × Packet :=
  let r := s.toInternal db packet.timestamp packet.payloadType
  (r.1, { packet with timestamp := r.2 })

def toInternalList (s : TimestampScaler) (db : DecoderDatabase) :
    List Packet → TimestampScaler × List Packet
  | [] => (s, [])
  | packet :: packetList =>
    let r := s.toInternalPacket db packet
    let rest := r.1.toInternalList db packetList
    (rest.1, r.2 :: rest.2)

def circularDifference (t u : UInt32) : ℤ := toInt32 (u - t).toNat

def Wraps (t u : UInt32) : Prop :=
  t.toNat + circularDifference t u < 0 ∨ 2 ^ 32 ≤ t.toNat + circularDifference t u

instance (t u : UInt32) : Decidable (Wraps t u) := inferInstanceAs (Decidable (_ ∨ _))

def reached (s : TimestampScaler) (db : DecoderDatabase) (rtpPayloadType : UInt8)
    (timestamps : List UInt32) : TimestampScaler :=
  runState (fun s t => s.toInternal db t rtpPayloadType) s timestamps

def internalTimestamp (s : TimestampScaler) (db : DecoderDatabase) (rtpPayloadType : UInt8)
    (timestamps : List UInt32) (t : UInt32) : UInt32 :=
  ((s.reached db rtpPayloadType timestamps).toInternal db t rtpPayloadType).2

def Advances (s : TimestampScaler) (db : DecoderDatabase) (rtpPayloadType : UInt8)
    (info : DecoderInfo) (timestamps : List UInt32) (t u : UInt32) : Prop :=
  s.internalTimestamp db rtpPayloadType (timestamps ++ [t]) u =
    s.internalTimestamp db rtpPayloadType timestamps t +
      UInt32.ofInt ((circularDifference t u * info.sampleRateHz).tdiv info.clockrateHz)

theorem ofInt_eq_iff (x y : ℤ) : UInt32.ofInt x = UInt32.ofInt y ↔ (2 ^ 32 : ℤ) ∣ x - y := by
  rw [UInt32.ofInt, UInt32.ofInt, ← UInt32.toNat_inj, UInt32.toNat_ofNat', UInt32.toNat_ofNat']
  omega

/-- The two parts of a circle of `m` scaled one by one make up a multiple of the circle exactly
if the ratio is a whole number. -/
theorem dvd_add_quotients_iff {m a b num den : ℤ} (ha : 0 ≤ a * num) (hb : 0 ≤ b * num)
    (hab : a + b = m) (hd : 0 < den) (hm : 2 * den ≤ m) :
    m ∣ (a * num).tdiv den + (b * num).tdiv den ↔ den ∣ num := by
  rw [Int.tdiv_eq_ediv_of_nonneg ha, Int.tdiv_eq_ediv_of_nonneg hb]
  constructor
  · rintro ⟨c, hc⟩
    have ha' := Int.mul_ediv_add_emod (a * num) den
    have hb' := Int.mul_ediv_add_emod (b * num) den
    have hra := Int.emod_nonneg (a * num) hd.ne'
    have hrb := Int.emod_nonneg (b * num) hd.ne'
    have hra' := Int.emod_lt_of_pos (a * num) hd
    have hrb' := Int.emod_lt_of_pos (b * num) hd
    -- The remainders add up to a multiple of `m` that is less than `m`.
    have hsum : a * num % den + b * num % den = m * (num - den * c) := by
      have hn : a * num + b * num = m * num := by rw [← hab]; ring
      linear_combination hn + ha' + hb' - den * hc
    have hz : a * num % den + b * num % den = 0 :=
      Int.eq_zero_of_dvd_of_nonneg_of_lt (by omega) (by omega) ⟨_, hsum⟩
    rw [hz] at hsum
    have hn : num - den * c = 0 := by
      rcases mul_eq_zero.mp hsum.symm with h | h
      · omega
      · exact h
    exact ⟨c, by linarith⟩
  · rintro ⟨c, rfl⟩
    refine ⟨c, ?_⟩
    rw [show a * (den * c) = den * (a * c) by ring, show b * (den * c) = den * (b * c) by ring,
      Int.mul_ediv_cancel_left _ hd.ne', Int.mul_ediv_cancel_left _ hd.ne', ← hab]
    ring

/-- The scaled differences of the numbers and on the circle agree modulo `2 ^ 32` unless the
timestamps wrap and the ratio is not a whole number. -/
theorem scaled_difference_iff {t u : UInt32} {num den : ℤ} (hd : |circularDifference t u| < 2 ^ 31)
    (hn : 0 < num) (hden : 0 < den) (hden' : den < 2 ^ 31) :
    UInt32.ofInt ((((u.toNat : ℤ) - t.toNat) * num).tdiv den) =
        UInt32.ofInt ((circularDifference t u * num).tdiv den) ↔ (den ∣ num ∨ ¬ Wraps t u) := by
  have ht := t.toNat_lt
  have hu := u.toNat_lt
  obtain ⟨hlow, hhigh⟩ := abs_lt.mp hd
  have hmod : ∃ k : ℤ, (u.toNat : ℤ) - t.toNat = circularDifference t u + k * 2 ^ 32 := by
    have hsub : ((u - t).toNat : ℤ) = ((u.toNat : ℤ) - t.toNat) % 2 ^ 32 := by
      rw [UInt32.toNat_sub]
      omega
    rw [circularDifference, hsub, toInt32]
    refine ⟨-(Int.bmod (((u.toNat : ℤ) - t.toNat) % 2 ^ 32) (2 ^ 32) -
      ((u.toNat : ℤ) - t.toNat)) / 2 ^ 32, ?_⟩
    rw [Int.bmod_def]
    push_cast
    split_ifs <;> omega
  obtain ⟨k, hk⟩ := hmod
  rw [hk, ofInt_eq_iff, Wraps]
  generalize circularDifference t u = d at *
  obtain rfl | rfl | rfl : k = -1 ∨ k = 0 ∨ k = 1 := by omega
  · have hw : t.toNat + d < 0 ∨ 2 ^ 32 ≤ t.toNat + d := by omega
    have hneg : (d + -1 * 2 ^ 32) * num = -((2 ^ 32 - d) * num) := by ring
    simp only [hw, not_true, or_false]
    rw [hneg, Int.neg_tdiv, ← neg_add', Int.dvd_neg]
    exact dvd_add_quotients_iff (mul_nonneg (by omega) hn.le) (mul_nonneg (by omega) hn.le)
      (by ring) hden (by omega)
  · have hw : ¬ (t.toNat + d < 0 ∨ 2 ^ 32 ≤ t.toNat + d) := by omega
    simp only [hw, not_false_eq_true, or_true, zero_mul, add_zero, sub_self, dvd_zero]
  · have hw : t.toNat + d < 0 ∨ 2 ^ 32 ≤ t.toNat + d := by omega
    have hneg : d * num = -(-d * num) := by ring
    simp only [hw, not_true, or_false]
    rw [hneg, Int.neg_tdiv, sub_neg_eq_add]
    exact dvd_add_quotients_iff (mul_nonneg (by omega) hn.le) (mul_nonneg (by omega) hn.le)
      (by ring) hden (by omega)

section Run
variable {db : DecoderDatabase} {rtpPayloadType : UInt8} {info : DecoderInfo}

section
variable (s : TimestampScaler) (t : UInt32) (hinfo : db.getDecoderInfo rtpPayloadType = some info)
  (hspeech : (info.isComfortNoise || info.isDtmf) = false) (hclock : info.clockrateHz ≠ 0)
  (hscale : info.sampleRateHz ≠ info.clockrateHz)
include hinfo hspeech hclock hscale

theorem toInternal_refs : (s.toInternal db t rtpPayloadType).1 =
      ⟨true, info.sampleRateHz, info.clockrateHz, t, (s.toInternal db t rtpPayloadType).2⟩ := by
  simp only [toInternal, hinfo, setScale, hspeech, Bool.false_eq_true, if_false, if_neg hclock]
  rw [if_pos hscale]
  cases hfirst : s.firstPacketReceived <;> simp

theorem toInternal_next (u : UInt32) :
    (((s.toInternal db t rtpPayloadType).1).toInternal db u rtpPayloadType).2 =
      (s.toInternal db t rtpPayloadType).2 + UInt32.ofInt
        ((((u.toNat : ℤ) - t.toNat) * info.sampleRateHz).tdiv info.clockrateHz) := by
  rw [s.toInternal_refs t hinfo hspeech hclock hscale]
  simp only [toInternal, hinfo, setScale, hspeech, Bool.false_eq_true, if_false, if_neg hclock]
  rw [if_pos hscale]
  rfl

end

/-- Every timestamp advances by the scaled distance exactly if the ratio is a whole number or the
timestamps never wrap. -/
theorem toInternal_advances_iff (s : TimestampScaler) (timestamps : List UInt32)
    (hinfo : db.getDecoderInfo rtpPayloadType = some info)
    (hspeech : (info.isComfortNoise || info.isDtmf) = false)
    (hrate : 0 < info.sampleRateHz) (hclock : 0 < info.clockrateHz ∧ info.clockrateHz < 2 ^ 31)
    (hscale : info.sampleRateHz ≠ info.clockrateHz)
    (hdiff : ∀ pre t u post, timestamps = pre ++ t :: u :: post →
      |circularDifference t u| < 2 ^ 31) : (∀ pre t u post, timestamps = pre ++ t :: u :: post →
        s.Advances db rtpPayloadType info pre t u) ↔ (info.clockrateHz ∣ info.sampleRateHz ∨
        ∀ pre t u post, timestamps = pre ++ t :: u :: post → ¬ Wraps t u) := by
  have hs : ∀ pre t u post, timestamps = pre ++ t :: u :: post →
      (s.Advances db rtpPayloadType info pre t u ↔
        (info.clockrateHz ∣ info.sampleRateHz ∨ ¬ Wraps t u)) := by
    intro pre t u post heq
    rw [← scaled_difference_iff (hdiff pre t u post heq) hrate hclock.1 hclock.2, Advances,
      internalTimestamp, reached, runState_append, runState_cons, runState_nil,
      toInternal_next _ t hinfo hspeech hclock.1.ne' hscale]
    exact UInt32.add_right_inj _
  by_cases hdvd : info.clockrateHz ∣ info.sampleRateHz
  · simp only [hdvd, true_or, iff_true]
    exact fun pre t u post heq => (hs pre t u post heq).mpr (.inl hdvd)
  · simp only [hdvd, false_or]
    refine forall₄_congr fun pre t u post => forall_congr' fun heq => ?_
    rw [hs pre t u post heq, or_iff_right hdvd]

end Run

def codec (sampleRateHz clockrateHz : ℤ) : DecoderInfo where
  subtype := .normal
  clockrateHz := clockrateHz
  decoderSampleRateHz := sampleRateHz
  channels := 1
  parsePayload _ _ := []

def codecDatabase (info : DecoderInfo) : DecoderDatabase := fun _ => some info

theorem toInternal_advances_g722 :
    initial.Advances (codecDatabase (codec 16000 8000)) 9 (codec 16000 8000) [] 0xFFFFFF60 0 := by
  have hd : ∀ pre t u post, [0xFFFFFF60, 0] = pre ++ t :: u :: post →
      |circularDifference t u| < 2 ^ 31 := by
    intro pre t u post heq
    match pre, heq with
    | [], heq =>
      obtain ⟨rfl, rfl, -⟩ : _ ∧ _ ∧ _ := by simpa using heq
      decide +kernel
    | [_], heq => simp at heq
    | _ :: _ :: _, heq => simp at heq
  exact (toInternal_advances_iff initial [0xFFFFFF60, 0] rfl rfl (by decide) (by decide)
    (by decide) hd).mpr (.inl (by decide)) [] _ _ [] rfl

theorem toInternal_jumps_at_wrap : circularDifference 0xFFFFFE20 480 = 960 ∧
      initial.internalTimestamp (codecDatabase (codec 16000 48000)) 111 [] 0xFFFFFE20 = 0xFFFFFE20 ∧
      initial.internalTimestamp (codecDatabase (codec 16000 48000)) 111 [0xFFFFFE20] 480 =
        0xFFFFFE20 + 0xAAAAABEB ∧
      ¬ initial.Advances (codecDatabase (codec 16000 48000)) 111 (codec 16000 48000) []
        0xFFFFFE20 480 := by
  unfold Advances
  decide +kernel

end TimestampScaler

end WebRtcAudio.NetEq
