import Mathlib.Algebra.Group.Int.Defs
import WebRtcAudio.NetEq.NackList

/-! The NACK list as a function of the packets received and decoded so far. -/
namespace WebRtcAudio.NetEq.NackTracker

open WebRtcAudio.Core List

section History

def newestReceived (calls : List Call) : Option UInt16 :=
  calls.foldl (fun newest c =>
    match newest, c with
    | none, .received s _ => some s
    | some m, .received s _ => some (if isNewerSequenceNumber s m then s else m)
    | newest, .decoded _ _ => newest) none

def lastDecoded (calls : List Call) : Option UInt16 :=
  calls.foldl (fun last c =>
    match c with
    | .received _ _ => last
    | .decoded d _ => some d) none

def JumpsOver (m s n : UInt16) : Prop :=
  isNewerSequenceNumber s m = true ∧ 0 < (n - m).toNat ∧ (n - m).toNat < (s - m).toNat

def Skipped (calls : List Call) (n : UInt16) : Prop :=
  ∃ pre s timestamp post m, calls = pre ++ .received s timestamp :: post ∧
    newestReceived pre = some m ∧ JumpsOver m s n ∧ ∀ timestamp, .received n timestamp ∉ post

/-- Skipped and not received since, newer than the last decoded number and among the `size` numbers
just below the newest one. -/
def Wanted (size : ℕ) (calls : List Call) (n : UInt16) : Prop :=
  Skipped calls n ∧ (∀ d, lastDecoded calls = some d → isNewerSequenceNumber n d = true) ∧
    ∃ m, newestReceived calls = some m ∧ 1 ≤ (m - n).toNat ∧ (m - n).toNat ≤ size

/-- A packet is older than the newest one or not too far ahead of it, and what is decoded is new
and not newer than the newest one. -/
def Permitted (size : ℕ) (pre : List Call) : Call → Prop
  | .received s _ => ∀ m ∈ newestReceived pre,
      isNewerSequenceNumber m s = true ∨ (s - m).toNat ≤ 2 ^ 15 - 1 - size
  | .decoded d _ => (∃ m ∈ newestReceived pre, isNewerSequenceNumber d m = false) ∧
      ∀ last ∈ lastDecoded pre, isNewerSequenceNumber d last = true

instance (size : ℕ) (pre : List Call) : (c : Call) → Decidable (Permitted size pre c)
  | .received _ _ => Option.decidableForallMem (newestReceived pre)
  | .decoded _ _ => @instDecidableAnd _ _ (Option.decidableExistsMem (newestReceived pre))
      (Option.decidableForallMem (lastDecoded pre))

/-- A packet that becomes the newest one is newer than the last decoded one, as `AddToList`
asserts. -/
def AheadOfDecoded (pre : List Call) : Call → Prop
  | .received s _ => ∀ m ∈ newestReceived pre, isNewerSequenceNumber s m = true →
      ∀ d ∈ lastDecoded pre, isNewerSequenceNumber s d = true
  | .decoded _ _ => True

instance (pre : List Call) : (c : Call) → Decidable (AheadOfDecoded pre c)
  | .received _ _ =>
    @Option.decidableForallMem _ _ (fun _ => @instDecidableForall _ _ _
      (Option.decidableForallMem (lastDecoded pre))) (newestReceived pre)
  | .decoded _ _ => inferInstanceAs (Decidable True)

variable {calls : List Call} {m s n : UInt16} {timestamp : UInt32}

theorem newestReceived_first (h : newestReceived calls = none) :
    newestReceived (calls ++ [.received s timestamp]) = some s := by
  rw [newestReceived, foldl_append, ← newestReceived, h]
  rfl

theorem newestReceived_received (h : newestReceived calls = some m) :
    newestReceived (calls ++ [.received s timestamp]) =
      some (if isNewerSequenceNumber s m then s else m) := by
  rw [newestReceived, foldl_append, ← newestReceived, h]
  rfl

@[simp] theorem newestReceived_decoded :
    newestReceived (calls ++ [.decoded s timestamp]) = newestReceived calls := by
  rw [newestReceived, foldl_append, ← newestReceived]
  cases newestReceived calls <;> rfl

@[simp] theorem lastDecoded_received :
    lastDecoded (calls ++ [.received s timestamp]) = lastDecoded calls := by
  rw [lastDecoded, foldl_append, ← lastDecoded]
  rfl

@[simp] theorem lastDecoded_decoded : lastDecoded (calls ++ [.decoded s timestamp]) = some s := by
  rw [lastDecoded, foldl_append]
  rfl

theorem skipped_append {c : Call} : Skipped (calls ++ [c]) n ↔
      Skipped calls n ∧ (∀ timestamp, c ≠ .received n timestamp) ∨
        ∃ m s timestamp, c = .received s timestamp ∧ newestReceived calls = some m ∧
          JumpsOver m s n := by
  constructor
  · rintro ⟨pre, s, timestamp, post, m, hsplit, hm, hj, hs⟩
    rcases eq_nil_or_concat' post with rfl | ⟨post, d, rfl⟩
    · obtain ⟨rfl, hc⟩ := append_inj' hsplit rfl
      exact .inr ⟨m, s, timestamp, (cons.inj hc).1, hm, hj⟩
    · rw [← cons_append, ← append_assoc] at hsplit
      obtain ⟨rfl, hc⟩ := append_inj' hsplit rfl
      obtain rfl := (cons.inj hc).1
      refine .inl ⟨⟨pre, s, timestamp, post, m, rfl, hm, hj, fun timestamp hmem => ?_⟩, ?_⟩
      · exact hs timestamp (mem_append_left _ hmem)
      · rintro timestamp rfl
        exact hs timestamp (mem_append_right _ (mem_singleton.mpr rfl))
  · rintro (⟨⟨pre, s, timestamp, post, m, rfl, hm, hj, hs⟩, hc⟩ |
      ⟨m, s, timestamp, rfl, hm, hj⟩)
    · refine ⟨pre, s, timestamp, post ++ [c], m, by simp, hm, hj, fun timestamp hmem => ?_⟩
      rcases mem_append.mp hmem with hmem | hmem
      · exact hs timestamp hmem
      · exact hc timestamp (mem_singleton.mp hmem).symm
    · exact ⟨calls, s, timestamp, [], m, rfl, hm, hj, fun _ => not_mem_nil⟩

@[simp] theorem skipped_decoded :
    Skipped (calls ++ [.decoded s timestamp]) n ↔ Skipped calls n := by
  simp [skipped_append]

theorem skipped_received : Skipped (calls ++ [.received s timestamp]) n ↔
      Skipped calls n ∧ n ≠ s ∨ ∃ m, newestReceived calls = some m ∧ JumpsOver m s n := by
  rw [skipped_append]
  simp [eq_comm]

theorem not_skipped_of_none (h : newestReceived calls = none) : ¬ Skipped calls n := by
  induction calls using reverseRecOn with
  | nil =>
    rintro ⟨pre, s, timestamp, post, m, hs, -⟩
    simp at hs
  | append_singleton calls c ih =>
    cases c with
    | received s timestamp =>
      cases hn : newestReceived calls with
      | none => simp [newestReceived_first hn] at h
      | some m => simp [newestReceived_received hn] at h
    | decoded d timestamp =>
      rw [newestReceived_decoded] at h
      rw [skipped_decoded]
      exact ih h

end History

/-- The tracker against the calls made: the list has the wanted numbers, marked rightly. -/
structure Invariant (threshold : ℤ) (size : ℕ) (calls : List Call) (t : NackTracker) : Prop where
  threshold_eq : t.nackThresholdPackets = threshold
  size_eq : t.maxNackListSize = size
  newest_eq :
    newestReceived calls = if t.anyRtpReceived then some t.sequenceNumLastReceivedRtp else none
  decoded_eq :
    lastDecoded calls = if t.anyRtpDecoded then some t.sequenceNumLastDecodedRtp else none
  /-- Nothing is decoded before something is received. -/
  decoded_of_none : newestReceived calls = none → lastDecoded calls = none
  decoded_behind : ∀ m d, newestReceived calls = some m → lastDecoded calls = some d →
    (m - d).toNat ≤ 2 ^ 15
  newest_received : ∀ m, newestReceived calls = some m → ¬ Skipped calls m
  trimmed : t.Trimmed
  mem_iff : ∀ n, n ∈ t.nackList.map Prod.fst ↔ Wanted size calls n
  marks : ∀ e ∈ t.nackList, e.2.isMissing =
    isNewerSequenceNumber (t.minusThreshold t.sequenceNumLastReceivedRtp) e.1

section Step
variable {threshold : ℤ} {size : ℕ} {calls : List Call} {t : NackTracker} {m s d : UInt16}
  {timestamp : UInt32}

theorem wanted_iff_of_some (hm : newestReceived calls = some m) {n : UInt16} :
    Wanted size calls n ↔ Skipped calls n ∧
      (∀ d, lastDecoded calls = some d → isNewerSequenceNumber n d = true) ∧
        1 ≤ (m - n).toNat ∧ (m - n).toNat ≤ size := by
  rw [Wanted, hm]
  simp

theorem Invariant.receiveFirst (h : Invariant threshold size calls t)
    (hn : newestReceived calls = none) :
    Invariant threshold size (calls ++ [.received s timestamp])
      (t.updateLastReceivedPacket s timestamp) := by
  have hany : t.anyRtpReceived = false := by simpa [hn] using h.newest_eq
  have hl := h.decoded_of_none hn
  have hd : t.anyRtpDecoded = false := by simpa [hl] using h.decoded_eq
  have hnever : ∀ n, ¬ Skipped (calls ++ [.received s timestamp]) n := by
    intro n
    rw [skipped_received, hn]
    simp [not_skipped_of_none hn]
  have he := h.trimmed.nackList_eq_nil hany
  have ht := h.trimmed.receive (s := s) (by simp [hany]) timestamp
  rw [updateLastReceivedPacket, if_pos (by simp [hany]), NackTracker.receiveFirst] at ht ⊢
  simp only [hd, Bool.false_eq_true, if_false] at ht ⊢
  refine ⟨h.threshold_eq, h.size_eq, newestReceived_first hn, ?_, ?_, ?_, fun m _ => hnever m,
    ht, fun n => ?_, ?_⟩
  · simp [hl]
  · simp [hl]
  · simp [hl]
  · simp only [he, map_nil, not_mem_nil, false_iff]
    exact fun hwa => hnever n hwa.1
  · simp [he]

theorem Invariant.of_some (h : Invariant threshold size calls t)
    (hm : newestReceived calls = some m) :
    t.anyRtpReceived = true ∧ t.sequenceNumLastReceivedRtp = m := by
  have hn := h.newest_eq
  rw [hm] at hn
  split_ifs at hn with hany
  exact ⟨hany, (Option.some.inj hn).symm⟩

theorem updateLastReceivedPacket_of_old (hany : t.anyRtpReceived = true)
    (hold : isNewerSequenceNumber s t.sequenceNumLastReceivedRtp = false)
    (hn : ∀ e ∈ t.nackList, e.1 ≠ t.sequenceNumLastReceivedRtp) :
    t.updateLastReceivedPacket s timestamp = { t with nackList := t.nackList.erase s } := by
  by_cases heq : s = t.sequenceNumLastReceivedRtp
  · have herase : t.nackList.erase s = t.nackList :=
      filter_eq_self.mpr fun e he => decide_eq_true (heq ▸ hn e he)
    rw [updateLastReceivedPacket, if_neg (by simp [hany]), if_pos heq, herase]
  · exact updateLastReceivedPacket_of_older timestamp hany heq
      (isNewerSequenceNumber_of_not heq hold)

theorem Invariant.receiveOld (h : Invariant threshold size calls t)
    (hm : newestReceived calls = some m) (hold : isNewerSequenceNumber s m = false) :
    Invariant threshold size (calls ++ [.received s timestamp])
      (t.updateLastReceivedPacket s timestamp) := by
  obtain ⟨hany, rfl⟩ := h.of_some hm
  have hn : newestReceived (calls ++ [.received s timestamp]) =
      some t.sequenceNumLastReceivedRtp := by
    rw [newestReceived_received hm, hold]
    rfl
  have hs : ∀ n, Skipped (calls ++ [.received s timestamp]) n ↔ Skipped calls n ∧ n ≠ s := by
    intro n
    rw [skipped_received, hm]
    simp [JumpsOver, hold]
  rw [updateLastReceivedPacket_of_old hany hold]
  · refine ⟨h.threshold_eq, h.size_eq, ?_, ?_, ?_, ?_, ?_,
      h.trimmed.of_keys_filter rfl rfl hany rfl, fun n => ?_, ?_⟩
    · rw [hn, if_pos hany]
    · rw [lastDecoded_received]
      exact h.decoded_eq
    · simp [hn]
    · simpa only [lastDecoded_received, hn, hm] using h.decoded_behind
    · intro m' hm'
      rw [hs]
      rw [hn, ← hm] at hm'
      exact fun hb => h.newest_received m' hm' hb.1
    · rw [NackList.erase, NackList.mem_keys_filter (· ≠ s), h.mem_iff, wanted_iff_of_some hm,
        wanted_iff_of_some hn, hs, lastDecoded_received]
      tauto
    · exact fun e he => h.marks e (mem_of_mem_filter he)
  · intro e he heq
    have hlow := h.trimmed.behind.low_le e he
    rw [heq] at hlow
    simp at hlow

theorem between_iff {n : UInt16} : 0 < (n - m).toNat ∧ (n - m).toNat < (s - m).toNat ↔
      1 ≤ (s - n).toNat ∧ (s - n).toNat < (s - m).toNat := by
  have hm := m.toNat_lt
  have hn := n.toNat_lt
  rw [UInt16.toNat_sub, UInt16.toNat_sub, UInt16.toNat_sub]
  omega

section
variable {n : UInt16} (hm : newestReceived calls = some m)
  (hnewer : isNewerSequenceNumber s m = true)
include hm hnewer

theorem skipped_received_newer : Skipped (calls ++ [.received s timestamp]) n ↔
      Skipped calls n ∧ n ≠ s ∨ 1 ≤ (s - n).toNat ∧ (s - n).toNat < (s - m).toNat := by
  rw [skipped_received, hm, ← between_iff]
  simp [JumpsOver, hnewer]

/-- A newer packet makes the numbers that it jumps over wanted and those too far behind unwanted;
it is newer than the last decoded number, and so are the numbers that it jumps over. -/
theorem wanted_received_newer (ha : size + (s - m).toNat < 2 ^ 15) (hn : ¬ Skipped calls m)
    (hb : ∀ d, lastDecoded calls = some d → (m - d).toNat ≤ 2 ^ 15)
    (hdecoded : ∀ d, lastDecoded calls = some d → isNewerSequenceNumber s d = true) :
    Wanted size (calls ++ [.received s timestamp]) n ↔
      (Wanted size calls n ∨ 1 ≤ (s - n).toNat ∧ (s - n).toNat < (s - m).toNat) ∧
        (s - n).toNat ≤ size := by
  have hnext : newestReceived (calls ++ [.received s timestamp]) = some s := by
    rw [newestReceived_received hm, if_pos hnewer]
  rw [wanted_iff_of_some hm, wanted_iff_of_some hnext, skipped_received_newer hm hnewer,
    lastDecoded_received]
  constructor
  · rintro ⟨hs, hnewer, hpos, hle⟩
    refine ⟨?_, hle⟩
    rcases Nat.lt_or_ge (s - n).toNat (s - m).toNat with hlt | hge
    · exact .inr ⟨hpos, hlt⟩
    · have hsub := uint16_sub_of_behind_le hge
      have hs : Skipped calls n := (hs.resolve_right (by omega)).1
      have hne : (m - n).toNat ≠ 0 := by
        intro hz
        refine hn ?_
        rwa [← uint16_eq_of_behind_eq m (a := n) (b := m) (by simp [hz])]
      exact .inl ⟨hs, hnewer, by omega, by omega⟩
  · rintro ⟨⟨hs, hnewer, hpos, hle⟩ | ⟨hpos, hlt⟩, hsize⟩
    · have hsum : (s - n).toNat = (m - n).toNat + (s - m).toNat := uint16_behind_add (by omega)
      have hne : n ≠ s := by
        rintro rfl
        simp at hsum
        omega
      exact ⟨.inl ⟨hs, hne⟩, hnewer, by omega, hsize⟩
    · refine ⟨.inr ⟨hpos, hlt⟩, fun d hd => ?_, hpos, hsize⟩
      have hold := hb d hd
      have hsum : (s - d).toNat = (m - d).toNat + (s - m).toNat := uint16_behind_add (by omega)
      have hnew := behind_le_of_newer (hdecoded d hd)
      exact isNewerSequenceNumber_of_behind s (by omega) (by omega)

end

theorem Invariant.receiveNewer (h : Invariant threshold size calls t)
    (hm : newestReceived calls = some m)
    (ht : (UInt16.ofInt threshold).toNat ≤ 2 ^ 15 ∨ 2 ^ 15 + size < (UInt16.ofInt threshold).toNat)
    (hnewer : isNewerSequenceNumber s m = true) (ha : size + (s - m).toNat < 2 ^ 15)
    (hdecoded : ∀ d, lastDecoded calls = some d → isNewerSequenceNumber s d = true) :
    Invariant threshold size (calls ++ [.received s timestamp])
      (t.updateLastReceivedPacket s timestamp) := by
  obtain ⟨hany, rfl⟩ := h.of_some hm
  obtain ⟨rfl, rfl⟩ := And.intro h.threshold_eq h.size_eq
  have hpos : 0 < (s - t.sequenceNumLastReceivedRtp).toNat :=
    (isNewerSequenceNumber_iff.mp hnewer).1
  obtain ⟨hne, hold⟩ := newer_of_ahead hpos (by omega)
  have hf := updateLastReceivedPacket_of_newer timestamp hany hne hold
  have hl : (t.updateLastReceivedPacket s timestamp).sequenceNumLastReceivedRtp = s := by
    rw [hf]
  have hkey : (t.updateLastReceivedPacket s timestamp).minusThreshold = t.minusThreshold := by
    rw [hf]
    rfl
  have hnewest : newestReceived (calls ++ [.received s timestamp]) = some s := by
    rw [newestReceived_received hm, if_pos hnewer]
  have hfar : ∀ n ∈ t.nackList.map Prod.fst, (s - n).toNat < 2 ^ 15 := by
    intro n hn
    have hle := ((NackList.Behind.iff_keys.mp h.trimmed.behind).2 n hn).2
    rw [(h.trimmed.behind_newer hold n hn).2.2]
    omega
  refine ⟨by rw [hf], by rw [hf], ?_, ?_, ?_, ?_, ?_,
    h.trimmed.receive (fun _ _ _ => hfar) timestamp, fun n => ?_, fun e he => ?_⟩
  · rw [hnewest, hl, hf, if_pos hany]
  · rw [lastDecoded_received, hf]
    exact h.decoded_eq
  · simp [hnewest]
  · rw [lastDecoded_received, hnewest]
    rintro _ d ⟨⟩ hd
    exact behind_le_of_newer (hdecoded d hd)
  · rw [hnewest]
    rintro _ ⟨⟩
    simp [skipped_received_newer hm hnewer]
  · rw [h.trimmed.mem_keys_receive_newer hne hold hfar hany, h.mem_iff]
    exact (wanted_received_newer hm hnewer ha (h.newest_received _ hm)
      (fun d hd => h.decoded_behind _ d hm hd) hdecoded).symm
  · rw [hl, hkey]
    obtain ⟨he | ⟨-, helement⟩, hle⟩ :=
      ((h.trimmed.receive_newer hne hold hfar hany timestamp).2 e).mp he
    · exact NackList.isMissing_markLower h.trimmed.behind ht h.marks ha he hle
    · rw [helement]
      rfl

theorem updateLastDecodedPacket_of_new
    (hnew : t.anyRtpDecoded = true → isNewerSequenceNumber d t.sequenceNumLastDecodedRtp = true) :
    t.updateLastDecodedPacket d timestamp =
      { t.decodeNew d timestamp with anyRtpDecoded := true } := by
  have ht : (isNewerSequenceNumber d t.sequenceNumLastDecodedRtp || !t.anyRtpDecoded) = true := by
    cases hany : t.anyRtpDecoded with
    | true => rw [hnew hany, Bool.true_or]
    | false => rw [Bool.not_false, Bool.or_true]
  rw [updateLastDecodedPacket, if_pos ht]

theorem behind_le_of_decoded {last : UInt16} (hlast : (m - last).toNat ≤ 2 ^ 15)
    (hold : isNewerSequenceNumber d m = false) (hnew : isNewerSequenceNumber d last = true) :
    (m - d).toNat ≤ (m - last).toNat := by
  by_contra hlt
  have hd := behind_le_of_not_newer hold
  have hsub := uint16_sub_of_behind_lt (not_le.mp hlt)
  have hdist := isNewerSequenceNumber_iff.mp hnew
  -- half a lap apart, the last decoded number would be the newest one
  have hz : (m - last).toNat = 0 := by omega
  obtain rfl : last = m := uint16_eq_of_behind_eq m (by simp [hz])
  rw [hold] at hnew
  exact Bool.false_ne_true hnew

theorem wanted_decoded {n : UInt16} (hm : newestReceived calls = some m) (hsize : size < 2 ^ 9)
    (hold : isNewerSequenceNumber d m = false)
    (hnew : ∀ last, lastDecoded calls = some last → isNewerSequenceNumber d last = true)
    (hb : ∀ last, lastDecoded calls = some last → (m - last).toNat ≤ 2 ^ 15) :
    Wanted size (calls ++ [.decoded d timestamp]) n ↔
      Wanted size calls n ∧ (m - n).toNat < (m - d).toNat := by
  have hd := behind_le_of_not_newer hold
  rw [wanted_iff_of_some hm, wanted_iff_of_some (newestReceived_decoded.trans hm), skipped_decoded,
    lastDecoded_decoded]
  constructor
  · rintro ⟨hs, hnewer, hpos, hle⟩
    have hlt := (isNewerSequenceNumber_iff_behind m (by omega) (by omega)).mp (hnewer d rfl)
    refine ⟨⟨hs, fun last hl => ?_, hpos, hle⟩, hlt⟩
    have hlast := hb last hl
    have hdle := behind_le_of_decoded hlast hold (hnew last hl)
    exact isNewerSequenceNumber_of_behind m (by omega) (by omega)
  · rintro ⟨⟨hs, -, hpos, hle⟩, hlt⟩
    refine ⟨hs, ?_, hpos, hle⟩
    rintro _ ⟨⟩
    exact isNewerSequenceNumber_of_behind m (by omega) hlt

theorem Invariant.size_lt (h : Invariant threshold size calls t) : size < 2 ^ 9 :=
  h.size_eq ▸ h.trimmed.size_lt

theorem Invariant.decodeNew (h : Invariant threshold size calls t)
    (hm : newestReceived calls = some m) (hold : isNewerSequenceNumber d m = false)
    (hnew : ∀ last, lastDecoded calls = some last → isNewerSequenceNumber d last = true) :
    Invariant threshold size (calls ++ [.decoded d timestamp])
      (t.updateLastDecodedPacket d timestamp) := by
  obtain ⟨hany, rfl⟩ := h.of_some hm
  have ht : t.anyRtpDecoded = true →
      isNewerSequenceNumber d t.sequenceNumLastDecodedRtp = true :=
    fun hd => hnew _ (by rw [h.decoded_eq, if_pos hd])
  have hb := behind_le_of_not_newer hold
  have hk := h.trimmed.behind.eraseUpTo_eq le_rfl (h.trimmed.size_lt.trans (by decide)) hb
  rw [updateLastDecodedPacket_of_new ht, NackTracker.decodeNew]
  dsimp only
  rw [hk]
  refine ⟨h.threshold_eq, h.size_eq, newestReceived_decoded.trans h.newest_eq, ?_, ?_, ?_, ?_,
    h.trimmed.of_keys_filter rfl rfl hany map_map, fun n => ?_, ?_⟩
  · rw [lastDecoded_decoded]
    rfl
  · simp [hm]
  · rw [newestReceived_decoded, lastDecoded_decoded, hm]
    rintro _ _ ⟨⟩ ⟨⟩
    exact hb
  · intro m hm'
    rw [skipped_decoded]
    exact h.newest_received m (newestReceived_decoded ▸ hm')
  · rw [wanted_decoded hm h.size_lt hold hnew fun last hl => h.decoded_behind _ last hm hl,
      ← h.mem_iff, map_map]
    exact NackList.mem_keys_filter fun n => (t.sequenceNumLastReceivedRtp - n).toNat < _
  · intro e he
    obtain ⟨e', he', rfl⟩ := mem_map.mp he
    exact h.marks e' (mem_of_mem_filter he')

theorem Invariant.step (h : Invariant threshold size calls t) {c : Call}
    (ht : (UInt16.ofInt threshold).toNat ≤ 2 ^ 15 ∨ 2 ^ 15 + size < (UInt16.ofInt threshold).toNat)
    (hp : Permitted size calls c) (ha : AheadOfDecoded calls c) :
    Invariant threshold size (calls ++ [c]) (t.step c).1 := by
  have hlt := h.size_lt
  cases c with
  | received s timestamp =>
    cases hm : newestReceived calls with
    | none => exact h.receiveFirst hm
    | some m =>
      cases hnewer : isNewerSequenceNumber s m with
      | false => exact h.receiveOld hm hnewer
      | true =>
        have hle := (hp m hm).resolve_left (isNewerSequenceNumber_asymm hnewer)
        exact h.receiveNewer hm ht hnewer (by omega) fun d hd => ha m hm hnewer d hd
  | decoded d timestamp =>
    obtain ⟨⟨m, hm, hold⟩, hnew⟩ := hp
    exact h.decodeNew hm hold hnew

end Step

/-- The list holds exactly the wanted numbers, in circular order, and marks those as missing that
are older than the newest number less the threshold. -/
structure Accurate (threshold : ℤ) (size : ℕ) (calls : List Call) (l : NackList) : Prop where
  ascending : (l.map Prod.fst).Pairwise fun a b => isNewerSequenceNumber b a = true
  exact : ∀ n, n ∈ l.map Prod.fst ↔ Wanted size calls n
  missing : ∀ e ∈ l, ∀ m, newestReceived calls = some m →
    (e.2.isMissing = true ↔ isNewerSequenceNumber (m - UInt16.ofInt threshold) e.1 = true)

theorem Invariant.accurate {threshold : ℤ} {size : ℕ} {calls : List Call} {t : NackTracker}
    (h : Invariant threshold size calls t) : Accurate threshold size calls t.nackList where
  ascending := h.trimmed.behind.ascending (h.trimmed.size_lt.trans (by decide))
  exact := h.mem_iff
  missing e he m hm := by
    obtain ⟨-, rfl⟩ := h.of_some hm
    rw [h.marks e he, minusThreshold, h.threshold_eq]

theorem invariant_start {threshold : ℤ} {size : ℕ} {t : NackTracker}
    (h : (create threshold).setMaxNackListSize size = some t) : Invariant threshold size [] t := by
  have ht := trimmed_start h
  rw [setMaxNackListSize] at h
  split_ifs at h with hsize
  cases h
  refine ⟨rfl, rfl, rfl, rfl, fun _ => rfl, ?_, ?_, ht, fun n => ?_, ?_⟩
  · rintro _ _ ⟨⟩
  · rintro _ ⟨⟩
  · refine iff_of_false (not_mem_nil) fun hwa => ?_
    exact not_skipped_of_none rfl hwa.1
  · exact fun e he => absurd he not_mem_nil

/-- Along every run with a threshold whose key is less than half a lap from the numbers that the
list can hold, the list is accurate. -/
theorem nackList_accurate {threshold : ℤ} {size : ℕ} {t : NackTracker}
    (hstart : (create threshold).setMaxNackListSize size = some t)
    (hthreshold : threshold % 2 ^ 16 ≤ 2 ^ 15 ∨ 2 ^ 15 + size < threshold % 2 ^ 16)
    (calls : List Call) (hcalls : ∀ pre c post, calls = pre ++ c :: post →
      Permitted size pre c ∧ AheadOfDecoded pre c) :
    Accurate threshold size calls (runState step t calls).nackList := by
  have hr : ((UInt16.ofInt threshold).toNat : ℤ) = threshold % 2 ^ 16 := by
    rw [UInt16.ofInt, UInt16.toNat_ofNat']
    omega
  have hinv := runState_history_invariant step (invariant_start hstart)
    (fun cs u c hu hc => hu.step (by omega) hc.1 hc.2) calls hcalls
  exact hinv.accurate

def tracker (threshold : ℤ) (size : ℕ) : NackTracker :=
  ((create threshold).setMaxNackListSize size).getD (create threshold)

def wrappingCalls : List Call :=
  [.received 65533 0, .decoded 65533 0, .received 3 5760, .received 0 2880, .decoded 65534 960,
    .received 6 8640]

theorem nackList_accurate_wrappingCalls :
    Accurate 2 10 wrappingCalls (runState step (tracker 2 10) wrappingCalls).nackList ∧
      (runState step (tracker 2 10) wrappingCalls).nackList.map (fun e => (e.1, e.2.isMissing)) =
        [(65535, true), (1, true), (2, true), (4, false), (5, false)] := by
  refine ⟨nackList_accurate rfl (by decide) wrappingCalls ?_, by decide +kernel⟩
  rw [wrappingCalls]
  simp only [forall_split_cons, forall_split_nil]
  decide +kernel

/-- A threshold of half a lap and two more: the number 11 is marked when 12 arrives and is not
older than the number that 14 less the threshold is. -/
def thresholdCalls : List Call :=
  [.received 10 0, .received 12 1920, .received 13 2880, .received 14 3840]

/-- What is decoded first is almost half a lap behind, so the next numbers that are skipped are not
newer than it. -/
def farBehindCalls : List Call :=
  [.received 40000 0, .decoded 7233 0, .received 40004 3840]

theorem nackList_not_accurate : ((∀ pre c post, thresholdCalls = pre ++ c :: post →
        Permitted 3 pre c ∧ AheadOfDecoded pre c) ∧ ¬ Accurate 32770 3 thresholdCalls
        (runState step (tracker 32770 3) thresholdCalls).nackList) ∧
    (∀ pre c post, farBehindCalls = pre ++ c :: post → Permitted 1 pre c) ∧
      ¬ Accurate 2 1 farBehindCalls (runState step (tracker 2 1) farBehindCalls).nackList := by
  refine ⟨⟨?_, fun h => ?_⟩, ?_, fun h => ?_⟩
  · rw [thresholdCalls]
    simp only [forall_split_cons, forall_split_nil]
    decide +kernel
  · have hmissing := h.missing (11, ⟨20, 960, true⟩) (by decide +kernel) 14 (by decide +kernel)
    revert hmissing
    decide +kernel
  · rw [farBehindCalls]
    simp only [forall_split_cons, forall_split_nil]
    decide +kernel
  · have hw := (h.exact 40003).mp (by decide +kernel)
    exact absurd (hw.2.1 7233 (by decide +kernel)) (by decide +kernel)

end WebRtcAudio.NetEq.NackTracker
