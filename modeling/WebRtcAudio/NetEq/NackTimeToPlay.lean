import WebRtcAudio.NetEq.NackSearches

/-! The time to play of the packets in the NACK list. -/
namespace WebRtcAudio.NetEq

open WebRtcAudio.Core List

structure PacketStream where
  sampleRateHz : ℕ
  rate_ge : 1000 ≤ sampleRateHz
  rate_lt : sampleRateHz < 2 ^ 31
  /-- The length of a packet in 10 ms. -/
  length : ℕ
  length_pos : 0 < length
  firstNumber : UInt16
  firstTimestamp : UInt32

namespace PacketStream

def rateKhz (p : PacketStream) : ℕ := p.sampleRateHz / 1000

def samples (p : PacketStream) : ℕ := 10 * p.rateKhz * p.length

def number (p : PacketStream) (i : ℕ) : UInt16 := p.firstNumber + UInt16.ofNat i

def timestamp (p : PacketStream) (i : ℕ) : UInt32 := p.firstTimestamp + UInt32.ofNat (p.samples * i)

def clock (p : PacketStream) (i repeats : ℕ) : UInt32 :=
  p.timestamp i + UInt32.ofNat (10 * p.rateKhz * repeats)

end PacketStream

inductive PacketCall where
  | received (i : ℕ)
  | decoded (i : ℕ)

/-- The newest packet received, the last one decoded (or the first one received), and how often it
was decoded again. -/
structure Playout where
  newest : ℕ
  last : ℕ
  repeats : ℕ
  anyDecoded : Bool

namespace Playout

def next : Option Playout → PacketCall → Option Playout
  | none, .received i => some ⟨i, i, 0, false⟩
  | none, .decoded _ => none
  | some a, .received i => some { a with newest := max a.newest i }
  | some a, .decoded i =>
    if a.anyDecoded ∧ i = a.last then some { a with repeats := a.repeats + 1 }
    else some { a with last := i, repeats := 0, anyDecoded := true }

/-- Fewer than 500 packets are lost in a row, and packets are decoded in their order, each one any
number of times. -/
def Allowed : Option Playout → PacketCall → Prop
  | none, .received _ => True
  | none, .decoded _ => False
  | some a, .received i => i ≤ a.newest ∨ i - a.newest - 1 < 500
  | some a, .decoded i => i ≤ a.newest ∧ (a.anyDecoded = true → a.last ≤ i)

/-- The first packet that is skipped is not overdue, and the packets between the last decoded and
the newest one have different numbers and timestamps. -/
def OnTime (p : PacketStream) : Option Playout → PacketCall → Prop
  | none, _ => True
  | some a, .received i =>
    a.newest - i < 2 ^ 15 ∧ i - a.last < 2 ^ 15 ∧ p.samples * (i - a.last) < 2 ^ 32 ∧
      (a.newest + 1 < i → a.repeats ≤ p.length * (a.newest + 1 - a.last))
  | some a, .decoded i => a.newest - i < 2 ^ 15 ∧ p.samples * (a.newest - i) < 2 ^ 32

instance : (a : Option Playout) → (c : PacketCall) → Decidable (Allowed a c)
  | none, .received _ => inferInstanceAs (Decidable True)
  | none, .decoded _ => inferInstanceAs (Decidable False)
  | some _, .received _ => inferInstanceAs (Decidable (_ ∨ _))
  | some _, .decoded _ => inferInstanceAs (Decidable (_ ∧ _))

instance (p : PacketStream) : (a : Option Playout) → (c : PacketCall) → Decidable (OnTime p a c)
  | none, _ => inferInstanceAs (Decidable True)
  | some _, .received _ => inferInstanceAs (Decidable (_ ∧ _))
  | some _, .decoded _ => inferInstanceAs (Decidable (_ ∧ _))

def after (a : Option Playout) (calls : List PacketCall) : Option Playout := calls.foldl next a

end Playout

namespace NackTracker

def updateSampleRate (t : NackTracker) (sampleRateHz : ℤ) : NackTracker :=
  { t with sampleRateKhz := UInt32.ofInt (sampleRateHz.tdiv 1000) }

def getNackList (t : NackTracker) (roundTripTimeMs : ℤ) : List UInt16 :=
  (t.nackList.filter fun e => e.2.isMissing && decide (roundTripTimeMs < e.2.timeToPlayMs)).map
    Prod.fst

def callOf (p : PacketStream) : PacketCall → Call
  | .received i => .received (p.number i) (p.timestamp i)
  | .decoded i => .decoded (p.number i) (p.timestamp i)

/-- The times to play do not decrease along the list, and none exceeds the distance from the last
decoded packet. -/
structure SoundTimes (p : PacketStream) (t : NackTracker) : Prop where
  ordered : t.nackList.Pairwise fun a b => a.2.timeToPlayMs ≤ b.2.timeToPlayMs
  bounded : ∀ e ∈ t.nackList,
    e.2.timeToPlayMs ≤ (e.1 - t.sequenceNumLastDecodedRtp).toNat * (10 * p.length)

end NackTracker

namespace PacketStream
variable (p : PacketStream) {i j : ℕ}

theorem number_sub (hle : i ≤ j) (hlt : j - i < 2 ^ 16) :
    (p.number j - p.number i).toNat = j - i := by
  rw [number, number, UInt16.toNat_sub, UInt16.toNat_add, UInt16.toNat_add, UInt16.toNat_ofNat',
    UInt16.toNat_ofNat']
  omega

theorem timestamp_sub_clock {repeats : ℕ} (hle : i ≤ j) (hlt : p.samples * (j - i) < 2 ^ 32)
    (hrep : 10 * p.rateKhz * repeats ≤ p.samples * (j - i)) :
    (p.timestamp j - p.clock i repeats).toNat = p.samples * (j - i) - 10 * p.rateKhz * repeats := by
  have hs : p.samples * j = p.samples * i + p.samples * (j - i) := by
    rw [← Nat.mul_add, Nat.add_sub_cancel' hle]
  rw [clock, timestamp, timestamp, UInt32.toNat_sub, UInt32.toNat_add, UInt32.toNat_add,
    UInt32.toNat_add, UInt32.toNat_ofNat', UInt32.toNat_ofNat', UInt32.toNat_ofNat', hs]
  generalize p.samples * (j - i) = distance at *
  generalize p.samples * i = start at *
  generalize 10 * p.rateKhz * repeats = elapsed at *
  omega

theorem clock_zero (i : ℕ) : p.clock i 0 = p.timestamp i := by
  rw [clock, Nat.mul_zero]
  exact UInt32.add_zero _

theorem clock_succ (i repeats : ℕ) :
    p.clock i repeats + UInt32.ofNat p.rateKhz * 10 = p.clock i (repeats + 1) := by
  rw [clock, clock, Nat.mul_succ, UInt32.ofNat_add, UInt32.add_assoc, Nat.mul_comm 10 p.rateKhz,
    UInt32.ofNat_mul p.rateKhz 10]
  rfl

theorem timestamp_sub (hle : i ≤ j) (hlt : p.samples * (j - i) < 2 ^ 32) :
    (p.timestamp j - p.timestamp i).toNat = p.samples * (j - i) := by
  rw [← p.clock_zero i, p.timestamp_sub_clock hle hlt (by simp), Nat.mul_zero, Nat.sub_zero]

theorem rateKhz_pos : 0 < p.rateKhz := Nat.div_pos p.rate_ge (by decide)

theorem toNat_rateKhz : (UInt32.ofNat p.rateKhz).toNat = p.rateKhz := by
  have hlt : p.rateKhz < 2 ^ 32 := by
    have hrate := p.rate_lt
    rw [rateKhz]
    omega
  rw [UInt32.toNat_ofNat', Nat.mod_eq_of_lt hlt]

end PacketStream

namespace NackTracker
variable {p : PacketStream} {t : NackTracker} {i j m : ℕ}

theorem timeToPlay_eq {repeats : ℕ} (hr : t.sampleRateKhz = UInt32.ofNat p.rateKhz)
    (hc : t.timestampLastDecodedRtp = p.clock i repeats) (hle : i ≤ j)
    (hlt : p.samples * (j - i) < 2 ^ 32) (hdue : repeats ≤ p.length * (j - i)) :
    t.timeToPlay (p.timestamp j) = (p.length * (j - i) - repeats : ℕ) * 10 := by
  have hms : p.samples * (j - i) - 10 * p.rateKhz * repeats =
      p.rateKhz * ((p.length * (j - i) - repeats) * 10) := by
    rw [PacketStream.samples, Nat.mul_assoc (10 * p.rateKhz), ← Nat.mul_sub, Nat.mul_comm 10,
      Nat.mul_assoc, Nat.mul_comm 10]
  have hrep : 10 * p.rateKhz * repeats ≤ p.samples * (j - i) := by
    rw [PacketStream.samples, Nat.mul_assoc (10 * p.rateKhz)]
    exact Nat.mul_le_mul_left _ hdue
  rw [timeToPlay, UInt32.toNat_div, hc, hr, p.timestamp_sub_clock hle hlt hrep, p.toNat_rateKhz,
    hms,
    Nat.mul_div_cancel_left _ p.rateKhz_pos]
  rfl

section
variable (hnewest : t.sequenceNumLastReceivedRtp = p.number m)
  (hts : t.timestampLastReceivedRtp = p.timestamp m)
include hnewest hts

theorem samplesPerPacket_eq (hlt : m < i) (hnear : i - m < 2 ^ 15)
    (hspan : p.samples * (i - m) < 2 ^ 32) :
    (t.updateSamplesPerPacket (p.number i) (p.timestamp i)).samplesPerPacket =
      UInt32.ofNat p.samples := by
  have hs : p.samples < 2 ^ 32 := (Nat.le_mul_of_pos_right _ (by omega)).trans_lt hspan
  rw [updateSamplesPerPacket]
  refine UInt32.toNat_inj.mp ?_
  dsimp only
  rw [UInt32.toNat_div, UInt16.toNat_toUInt32, hnewest, hts, p.number_sub hlt.le (by omega),
    p.timestamp_sub hlt.le hspan, Nat.mul_div_cancel _ (by omega), UInt32.toNat_ofNat',
    Nat.mod_eq_of_lt hs]

theorem estimateTimestamp_eq
    (hs : t.samplesPerPacket = UInt32.ofNat p.samples) (hle : m ≤ j) (hnear : j - m < 2 ^ 15) :
    t.estimateTimestamp (p.number j) = p.timestamp j := by
  have hsplit : p.samples * j = (j - m) * p.samples + p.samples * m := by
    rw [Nat.mul_comm (j - m), ← Nat.mul_add, Nat.sub_add_cancel hle]
  have hc : (p.number j - p.number m).toUInt32 = UInt32.ofNat (j - m) := by
    refine UInt32.toNat_inj.mp ?_
    rw [UInt16.toNat_toUInt32, p.number_sub hle (by omega), UInt32.toNat_ofNat',
      Nat.mod_eq_of_lt (by omega)]
  rw [estimateTimestamp, hnewest, hts, hs, hc, PacketStream.timestamp,
    PacketStream.timestamp, hsplit, UInt32.ofNat_add, UInt32.ofNat_mul (j - m)]
  ac_rfl

end

structure Due (p : PacketStream) (a : Playout) (e : UInt16 × NackElement) (i : ℕ) : Prop where
  last_lt : a.last < i
  lt_newest : i < a.newest
  number : e.1 = p.number i
  timestamp : e.2.estimatedTimestamp = p.timestamp i
  repeats_le : a.repeats ≤ p.length * (i - a.last)
  time : e.2.timeToPlayMs = (p.length * (i - a.last) - a.repeats : ℕ) * 10

/-- The tracker knows the stream and the playout, and every entry is due. -/
structure Tracks (p : PacketStream) (a : Playout) (t : NackTracker) : Prop where
  trimmed : t.Trimmed
  anyReceived : t.anyRtpReceived = true
  anyDecoded : t.anyRtpDecoded = a.anyDecoded
  rate : t.sampleRateKhz = UInt32.ofNat p.rateKhz
  newest : t.sequenceNumLastReceivedRtp = p.number a.newest
  newestTimestamp : t.timestampLastReceivedRtp = p.timestamp a.newest
  last : t.sequenceNumLastDecodedRtp = p.number a.last
  clock : t.timestampLastDecodedRtp = p.clock a.last a.repeats
  last_le : a.last ≤ a.newest
  near : a.newest - a.last < 2 ^ 15
  span : p.samples * (a.newest - a.last) < 2 ^ 32
  due : ∀ e ∈ t.nackList, ∃ i, Due p a e i

section Steps
variable {a : Playout}

variable {e : UInt16 × NackElement}

theorem Due.behind (h : Due p a e i) (hnear : a.newest - a.last < 2 ^ 15) :
    (p.number a.newest - e.1).toNat = a.newest - i := by
  have hlast := h.last_lt
  rw [h.number, p.number_sub h.lt_newest.le (by omega)]

theorem Tracks.pairwise (h : Tracks p a t) :
    t.nackList.Pairwise fun e f => ∃ i j, Due p a e i ∧ Due p a f j ∧ i < j := by
  have ho := h.trimmed.behind.ordered
  refine ho.imp_of_mem fun {e f} he hf hlt => ?_
  obtain ⟨i, hi⟩ := h.due e he
  obtain ⟨j, hj⟩ := h.due f hf
  refine ⟨i, j, hi, hj, ?_⟩
  have hin := hi.lt_newest
  rw [h.newest, hi.behind h.near, hj.behind h.near] at hlt
  omega

theorem Due.time_le {f : UInt16 × NackElement} (he : Due p a e i) (hf : Due p a f j) (hlt : i < j) :
    e.2.timeToPlayMs ≤ f.2.timeToPlayMs := by
  have hmul : p.length * (i - a.last) ≤ p.length * (j - a.last) := Nat.mul_le_mul_left _ (by omega)
  rw [he.time, hf.time]
  omega

theorem Tracks.soundTimes (h : Tracks p a t) : SoundTimes p t := by
  refine ⟨h.pairwise.imp fun ⟨i, j, hi, hj, hlt⟩ => hi.time_le hj hlt, fun e he => ?_⟩
  obtain ⟨i, hi⟩ := h.due e he
  have hl := hi.last_lt
  have hnewest := hi.lt_newest
  have hnear := h.near
  rw [hi.time, hi.number, h.last, p.number_sub hl.le (by omega)]
  have hms : (i - a.last) * (10 * p.length) = p.length * (i - a.last) * 10 := by
    rw [Nat.mul_comm 10, ← Nat.mul_assoc, Nat.mul_comm p.length]
  have hle : (p.length * (i - a.last) - a.repeats) * 10 ≤ (i - a.last) * (10 * p.length) := by
    omega
  exact_mod_cast hle

theorem tracks_receiveFirst (ht : t.Trimmed) (hr : t.anyRtpReceived = false)
    (hd : t.anyRtpDecoded = false) (hrate : t.sampleRateKhz = UInt32.ofNat p.rateKhz) (i : ℕ) :
    Tracks p ⟨i, i, 0, false⟩ (t.updateLastReceivedPacket (p.number i) (p.timestamp i)) := by
  have hnil := ht.nackList_eq_nil hr
  have ht' := ht.receive (s := p.number i)
    (fun hany => absurd (hr.symm.trans hany) (by decide)) (p.timestamp i)
  rw [updateLastReceivedPacket, if_pos (by simp [hr]), receiveFirst, if_neg (by simp [hd])]
    at ht' ⊢
  exact ⟨ht', rfl, hd, hrate, rfl, rfl, rfl, (p.clock_zero i).symm, le_rfl,
    by simp, by simp, by simp [hnil]⟩

theorem Tracks.receiveOld (h : Tracks p a t) (hle : i ≤ a.newest) (hlate : a.newest - i < 2 ^ 15) :
    Tracks p a (t.updateLastReceivedPacket (p.number i) (p.timestamp i)) := by
  by_cases heq : p.number i = t.sequenceNumLastReceivedRtp
  · rwa [updateLastReceivedPacket, if_neg (by simp [h.anyReceived]), if_pos heq]
  · have hold : isNewerSequenceNumber t.sequenceNumLastReceivedRtp (p.number i) = true := by
      have hsub := p.number_sub hle (by omega)
      have hne : i ≠ a.newest := by
        rintro rfl
        exact heq h.newest.symm
      rw [isNewerSequenceNumber_iff, h.newest, hsub]
      omega
    rw [updateLastReceivedPacket_of_older _ h.anyReceived heq hold]
    exact { h with
      trimmed := h.trimmed.of_keys_filter rfl rfl h.anyReceived rfl
      due := fun e he => h.due e (mem_of_mem_filter he) }

theorem Due.of_markLower {l : NackList} {key : UInt16} (hl : ∀ e ∈ l, ∃ i, Due p a e i)
    (he : e ∈ l.markLower key) : ∃ i, Due p a e i := by
  rcases mem_append.mp he with he | he
  · obtain ⟨e', he', rfl⟩ := mem_map.mp he
    obtain ⟨i, hi⟩ := hl e' ((takeWhile_subset _) he')
    exact ⟨i, { hi with }⟩
  · exact hl e ((dropWhile_subset _) he)

theorem Tracks.due_skipped (h : Tracks p a t) {u : NackTracker}
    (hr : u.sampleRateKhz = t.sampleRateKhz)
    (hc : u.timestampLastDecodedRtp = t.timestampLastDecodedRtp)
    (hnewest : u.sequenceNumLastReceivedRtp = t.sequenceNumLastReceivedRtp)
    (hts : u.timestampLastReceivedRtp = t.timestampLastReceivedRtp)
    (hsamples : u.samplesPerPacket = UInt32.ofNat p.samples) (hskipped : a.newest < j) (hlt : j < i)
    (hnear : i - a.last < 2 ^ 15) (hs : p.samples * (i - a.last) < 2 ^ 32)
    (hdue : a.repeats ≤ p.length * (a.newest + 1 - a.last)) (current : UInt16) :
    Due p { a with newest := i } (p.number j, u.skippedElement current (p.number j)) j := by
  have hlast := h.last_le
  have hrep : a.repeats ≤ p.length * (j - a.last) :=
    hdue.trans (Nat.mul_le_mul_left _ (by omega))
  have hs' : p.samples * (j - a.last) < 2 ^ 32 :=
    (Nat.mul_le_mul_left _ (by omega)).trans_lt hs
  have he := estimateTimestamp_eq (hnewest.trans h.newest) (hts.trans h.newestTimestamp)
    hsamples hskipped.le (by omega)
  have ht := timeToPlay_eq (hr.trans h.rate) (hc.trans h.clock)
    (show a.last ≤ j by omega) hs' hrep
  refine ⟨by dsimp only; omega, hlt, rfl, he, hrep, ?_⟩
  rw [skippedElement, he]
  exact ht

theorem Tracks.receiveNewer (h : Tracks p a t) (hlt : a.newest < i) (hnear : i - a.last < 2 ^ 15)
    (hs : p.samples * (i - a.last) < 2 ^ 32)
    (hdue : a.newest + 1 < i → a.repeats ≤ p.length * (a.newest + 1 - a.last)) :
    Tracks p { a with newest := i } (t.updateLastReceivedPacket (p.number i) (p.timestamp i)) := by
  have hlast := h.last_le
  have hsub : (p.number i - t.sequenceNumLastReceivedRtp).toNat = i - a.newest := by
    rw [h.newest, p.number_sub hlt.le (by omega)]
  obtain ⟨hne, hold⟩ : p.number i ≠ t.sequenceNumLastReceivedRtp ∧
      isNewerSequenceNumber t.sequenceNumLastReceivedRtp (p.number i) = false :=
    newer_of_ahead (by omega) (by omega)
  have hfar : ∀ n ∈ t.nackList.map Prod.fst, (p.number i - n).toNat < 2 ^ 15 := by
    intro n hn
    obtain ⟨e, he, rfl⟩ := mem_map.mp hn
    obtain ⟨j, hj⟩ := h.due e he
    have hjlast := hj.last_lt
    have hjne := hj.lt_newest
    rw [hj.number, p.number_sub (by omega) (by omega)]
    omega
  have ht := h.trimmed.receive (fun _ _ _ => hfar) (p.timestamp i)
  have hs' : p.samples * (i - a.newest) < 2 ^ 32 :=
    (Nat.mul_le_mul_left _ (by omega)).trans_lt hs
  have hsamples := samplesPerPacket_eq h.newest h.newestTimestamp hlt (by omega) hs'
  obtain ⟨-, hmem⟩ := h.trimmed.receive_newer hne hold hfar h.anyReceived (p.timestamp i)
  rw [updateLastReceivedPacket_of_newer _ h.anyReceived hne hold] at ht hmem ⊢
  refine ⟨ht, h.anyReceived, h.anyDecoded, h.rate, rfl, rfl, h.last, h.clock,
    by dsimp only; omega, hnear, hs, fun e he => ?_⟩
  rcases ((hmem e).mp he).1 with hk | ⟨⟨hpos, hle⟩, helement⟩
  · obtain ⟨j, hj⟩ := Due.of_markLower h.due hk
    exact ⟨j, { hj with lt_newest := hj.lt_newest.trans hlt }⟩
  · -- a skipped number is that of the packet so many places behind
    have hnu : e.1 = p.number (i - (p.number i - e.1).toNat) := by
      refine uint16_eq_of_behind_eq (p.number i) ?_
      rw [p.number_sub (by omega) (by omega)]
      omega
    have he' : e = (p.number (i - (p.number i - e.1).toNat),
        ((t.updateSamplesPerPacket (p.number i) (p.timestamp i)).changeFromLateToMissing
          (p.number i)).skippedElement (p.number i) (p.number (i - (p.number i - e.1).toNat))) :=
      Prod.ext hnu (by rw [← hnu]; exact helement)
    rw [he']
    exact ⟨_, h.due_skipped
      (u := (t.updateSamplesPerPacket (p.number i) (p.timestamp i)).changeFromLateToMissing
        (p.number i)) rfl rfl rfl rfl hsamples (by omega) (by omega) hnear hs
      (hdue (by omega)) _⟩

theorem Tracks.decodeNew (h : Tracks p a t) (hle : i ≤ a.newest)
    (hnew : a.anyDecoded = true → a.last < i) (hn : a.newest - i < 2 ^ 15)
    (hs : p.samples * (a.newest - i) < 2 ^ 32) :
    Tracks p { a with last := i, repeats := 0, anyDecoded := true }
      (t.updateLastDecodedPacket (p.number i) (p.timestamp i)) := by
  have hb : (isNewerSequenceNumber (p.number i) t.sequenceNumLastDecodedRtp ||
      !t.anyRtpDecoded) = true := by
    rw [h.anyDecoded]
    cases hd : a.anyDecoded with
    | false => exact Bool.or_true _
    | true =>
      have hlt := hnew hd
      have hold := h.near
      rw [Bool.not_true, Bool.or_false, isNewerSequenceNumber_iff, h.last,
        p.number_sub hlt.le (by omega)]
      omega
  have hsize := h.trimmed.size_lt
  have hsub : (t.sequenceNumLastReceivedRtp - p.number i).toNat = a.newest - i := by
    rw [h.newest, p.number_sub hle (by omega)]
  have hk : t.nackList.eraseUpTo (p.number i) = t.nackList.filter fun e =>
      decide ((t.sequenceNumLastReceivedRtp - e.1).toNat < a.newest - i) := by
    rw [← hsub]
    exact h.trimmed.behind.eraseUpTo_eq le_rfl (by omega) (by omega)
  rw [updateLastDecodedPacket, if_pos hb, NackTracker.decodeNew]
  dsimp only
  rw [hk]
  refine ⟨h.trimmed.of_keys_filter rfl rfl h.anyReceived map_map,
    h.anyReceived, rfl, h.rate, h.newest, h.newestTimestamp, rfl, (p.clock_zero i).symm, hle, hn,
    hs, fun e he => ?_⟩
  · obtain ⟨e', he', rfl⟩ := mem_map.mp he
    obtain ⟨hmem, hlt⟩ := mem_filter.mp he'
    obtain ⟨j, hj⟩ := h.due e' hmem
    have hjne := hj.lt_newest
    rw [decide_eq_true_iff, h.newest, hj.behind h.near] at hlt
    have hs' : p.samples * (j - i) < 2 ^ 32 :=
      (Nat.mul_le_mul_left _ (by omega)).trans_lt hs
    refine ⟨j, by dsimp only; omega, hjne, hj.number, hj.timestamp, Nat.zero_le _, ?_⟩
    dsimp only
    rw [hj.timestamp]
    exact timeToPlay_eq h.rate (p.clock_zero i).symm (by omega) hs' (Nat.zero_le _)

theorem Tracks.decodeAgain (h : Tracks p a t) (hd : a.anyDecoded = true) :
    Tracks p { a with repeats := a.repeats + 1 }
      (t.updateLastDecodedPacket (p.number a.last) (p.timestamp a.last)) := by
  have hb : ¬ (isNewerSequenceNumber (p.number a.last) t.sequenceNumLastDecodedRtp ||
      !t.anyRtpDecoded) = true := by
    rw [h.anyDecoded, hd, Bool.not_true, Bool.or_false, h.last, isNewerSequenceNumber_iff]
    simp
  have hk : t.nackList.dropWhile (fun e => decide (e.2.timeToPlayMs ≤ 10)) =
      t.nackList.filter fun e => !decide (e.2.timeToPlayMs ≤ 10) := by
    refine dropWhile_eq_filter (h.pairwise.imp fun ⟨i, j, hi, hj, hlt⟩ => ?_)
    have hle := hi.time_le hj hlt
    rw [decide_eq_true_iff, decide_eq_true_iff]
    omega
  rw [updateLastDecodedPacket, if_neg hb, updateEstimatedPlayoutTimeBy10ms]
  dsimp only
  rw [hk]
  refine ⟨h.trimmed.of_keys_filter rfl rfl h.anyReceived map_map,
    h.anyReceived, hd.symm, h.rate, h.newest, h.newestTimestamp, h.last, ?_, h.last_le, h.near,
    h.span, fun e he => ?_⟩
  · rw [h.clock, h.rate]
    exact p.clock_succ a.last a.repeats
  · obtain ⟨e', he', rfl⟩ := mem_map.mp he
    obtain ⟨hmem, hlt⟩ := mem_filter.mp he'
    obtain ⟨j, hj⟩ := h.due e' hmem
    have htime := hj.time
    rw [Bool.not_eq_true', decide_eq_false_iff_not] at hlt
    refine ⟨j, hj.last_lt, hj.lt_newest, hj.number, hj.timestamp, by dsimp only; omega, ?_⟩
    dsimp only
    omega

end Steps

def TracksFrom (p : PacketStream) : Option Playout → NackTracker → Prop
  | none, t => t.Trimmed ∧ t.anyRtpReceived = false ∧ t.anyRtpDecoded = false ∧
      t.sampleRateKhz = UInt32.ofNat p.rateKhz
  | some a, t => Tracks p a t

variable {a : Option Playout}

theorem TracksFrom.step (h : TracksFrom p a t) {c : PacketCall} (hal : Playout.Allowed a c)
    (ho : Playout.OnTime p a c) : TracksFrom p (Playout.next a c) (step t (callOf p c)).1 := by
  cases a with
  | none =>
    obtain ⟨htrimmed, hr, hd, hrate⟩ := h
    cases c with
    | received i => exact tracks_receiveFirst htrimmed hr hd hrate i
    | decoded i => exact hal.elim
  | some a =>
    have ht : Tracks p a t := h
    cases c with
    | received i =>
      obtain ⟨hl, hn, hs, hdue⟩ := ho
      rcases Nat.lt_or_ge a.newest i with hlt | hle
      · rw [Playout.next, Nat.max_eq_right hlt.le]
        exact ht.receiveNewer hlt hn hs hdue
      · rw [Playout.next, Nat.max_eq_left hle]
        exact ht.receiveOld hle hl
    | decoded i =>
      obtain ⟨hle, horder⟩ := hal
      obtain ⟨hn, hs⟩ := ho
      rw [Playout.next]
      split_ifs with ha
      · obtain ⟨hd, rfl⟩ := ha
        exact ht.decodeAgain hd
      · refine ht.decodeNew hle (fun hd => ?_) hn hs
        have hlast := horder hd
        have hne : i ≠ a.last := fun heq => ha ⟨hd, heq⟩
        omega

theorem TracksFrom.run (h : TracksFrom p a t) (calls : List PacketCall)
    (hal : ∀ pre c post, calls = pre ++ c :: post → Playout.Allowed (Playout.after a pre) c)
    (ho : ∀ pre c post, calls = pre ++ c :: post → Playout.OnTime p (Playout.after a pre) c) :
    TracksFrom p (Playout.after a calls) (runState NackTracker.step t (calls.map (callOf p))) := by
  induction calls generalizing a t with
  | nil => exact h
  | cons c calls ih =>
    rw [forall_split_cons (Q := fun pre c => Playout.Allowed (Playout.after a pre) c)] at hal
    rw [forall_split_cons (Q := fun pre c => Playout.OnTime p (Playout.after a pre) c)] at ho
    exact ih (h.step hal.1 ho.1) hal.2 ho.2

theorem tracksFrom_start {threshold : ℤ} {size : ℕ}
    (hs : (create threshold).setMaxNackListSize size = some t) :
    TracksFrom p none (t.updateSampleRate p.sampleRateHz) := by
  have ht := trimmed_start hs
  have hr : UInt32.ofInt ((p.sampleRateHz : ℤ).tdiv 1000) = UInt32.ofNat p.rateKhz := by
    have hdiv : (p.sampleRateHz : ℤ).tdiv 1000 = (p.rateKhz : ℕ) :=
      Int.tdiv_eq_ediv_of_nonneg (Int.natCast_nonneg _)
    refine UInt32.toNat_inj.mp ?_
    rw [hdiv, UInt32.ofInt, UInt32.toNat_ofNat', UInt32.toNat_ofNat']
    omega
  rw [setMaxNackListSize] at hs
  split_ifs at hs with hsize
  cases hs
  exact ⟨⟨ht.size_le, ht.behind, ht.nackList_eq_nil⟩, rfl, rfl, hr⟩

/-- Along every run in which no packet is overdue when it joins the list, the times to play do not
decrease along the list and none exceeds the distance from the last decoded packet. -/
theorem soundTimes_of_onTime (p : PacketStream) {threshold : ℤ} {size : ℕ} {t : NackTracker}
    (hstart : (create threshold).setMaxNackListSize size = some t) (calls : List PacketCall)
    (hallowed : ∀ pre c post, calls = pre ++ c :: post → Playout.Allowed (Playout.after none pre) c)
    (hontime : ∀ pre c post, calls = pre ++ c :: post →
      Playout.OnTime p (Playout.after none pre) c) :
    SoundTimes p (runState step (t.updateSampleRate p.sampleRateHz) (calls.map (callOf p))) := by
  have ht := (tracksFrom_start (p := p) hstart).run calls hallowed hontime
  cases ha : Playout.after none calls with
  | none =>
    rw [ha] at ht
    have hnil := ht.1.nackList_eq_nil ht.2.1
    exact ⟨by rw [hnil]; exact List.Pairwise.nil, by simp [hnil]⟩
  | some a =>
    rw [ha] at ht
    exact Tracks.soundTimes ht

def wrappingStream : PacketStream where
  sampleRateHz := 48000
  rate_ge := by decide
  rate_lt := by decide
  length := 2
  length_pos := by decide
  firstNumber := 65533
  firstTimestamp := 4294964416

/-- The first packet is played twice as long as it is, which is when the next one is due; it and
two more are skipped, one of them arrives late and is decoded. -/
def lateCalls : List PacketCall :=
  [.received 0, .decoded 0, .decoded 0, .decoded 0, .received 4, .decoded 0, .received 2,
    .decoded 2, .received 6]

theorem soundTimes_lateCalls :
    SoundTimes wrappingStream (runState step ((tracker 2 500).updateSampleRate 48000)
      (lateCalls.map (callOf wrappingStream))) ∧
    (runState step ((tracker 2 500).updateSampleRate 48000)
      (lateCalls.map (callOf wrappingStream))).nackList.map (fun e => (e.1, e.2.timeToPlayMs)) =
        [(0, 20), (2, 60)] := by
  have hs : (create 2).setMaxNackListSize 500 = some (tracker 2 500) := rfl
  refine ⟨soundTimes_of_onTime wrappingStream hs lateCalls ?_ ?_, by decide +kernel⟩
  · rw [lateCalls]
    simp only [forall_split_cons, forall_split_nil]
    decide +kernel
  · rw [lateCalls]
    simp only [forall_split_cons, forall_split_nil]
    decide +kernel

/-- 100 ms pass after the first packet; then one arrives that skips three packets, which should
have been played after 20, 40 and 60 ms. -/
def overdueCalls : List PacketCall :=
  [.received 0, .decoded 0] ++ replicate 10 (.decoded 0) ++ [.received 4]

theorem overdue_not_soundTimes :
    (∀ pre c post, overdueCalls = pre ++ c :: post → Playout.Allowed (Playout.after none pre) c) ∧
    (runState step ((tracker 2 500).updateSampleRate 48000)
      (overdueCalls.map (callOf wrappingStream))).nackList.map (fun e => (e.1, e.2.timeToPlayMs)) =
        [(65534, 89478405), (65535, 89478425), (0, 89478445)] ∧
    (runState step ((tracker 2 500).updateSampleRate 48000)
      (overdueCalls.map (callOf wrappingStream))).getNackList 1000 = [65534] ∧
    ¬ SoundTimes wrappingStream (runState step ((tracker 2 500).updateSampleRate 48000)
      (overdueCalls.map (callOf wrappingStream))) := by
  refine ⟨?_, by decide +kernel, by decide +kernel, fun h => ?_⟩
  · rw [overdueCalls]
    simp only [replicate, cons_append, nil_append, forall_split_cons, forall_split_nil]
    decide +kernel
  · have hb := h.bounded (65534, ⟨89478405, 4294965376, true⟩) (by decide +kernel)
    revert hb
    decide +kernel

end NackTracker

end WebRtcAudio.NetEq
