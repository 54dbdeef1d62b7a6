import Mathlib.Data.List.TakeWhile
import WebRtcAudio.Core.OrderedSearch
import WebRtcAudio.Core.Run
import WebRtcAudio.Core.SerialNumber
import WebRtcAudio.NetEq.NackTracker

/-! The NACK list in the order of the distances behind the newest received number. -/
namespace WebRtcAudio.NetEq

open WebRtcAudio.Core List

section Newer
variable {newest a b : UInt16}

theorem isNewerSequenceNumber_iff : isNewerSequenceNumber a b = true ↔
      0 < (a - b).toNat ∧ ((a - b).toNat < 2 ^ 15 ∨ (a - b).toNat = 2 ^ 15 ∧ b < a) := by
  have ha := a.toNat_lt
  have hb := b.toNat_lt
  have hh : (0x8000 : UInt16).toNat = 2 ^ 15 := rfl
  rw [isNewerSequenceNumber]
  split_ifs with h
  · simp only [decide_eq_true_eq, UInt16.lt_iff_toNat_lt, UInt16.toNat_sub]
    omega
  · simp only [Bool.and_eq_true, decide_eq_true_eq, ne_eq, ← UInt16.toNat_inj,
      UInt16.lt_iff_toNat_lt, UInt16.toNat_sub, hh]
    omega

theorem isNewerSequenceNumber_of_not (hne : a ≠ b) (h : isNewerSequenceNumber a b = false) :
    isNewerSequenceNumber b a = true := by
  have hnot := isNewerSequenceNumber_iff.not.mp (Bool.eq_false_iff.mp h)
  have ha := a.toNat_lt
  have hb := b.toNat_lt
  rw [ne_eq, ← UInt16.toNat_inj] at hne
  rw [UInt16.lt_iff_toNat_lt, UInt16.toNat_sub] at hnot
  rw [isNewerSequenceNumber_iff, UInt16.lt_iff_toNat_lt, UInt16.toNat_sub]
  omega

theorem isNewerSequenceNumber_asymm (h : isNewerSequenceNumber a b = true) :
    ¬ isNewerSequenceNumber b a = true := by
  have ha := a.toNat_lt
  have hb := b.toNat_lt
  rw [isNewerSequenceNumber_iff, UInt16.lt_iff_toNat_lt, UInt16.toNat_sub] at h ⊢
  omega

theorem isNewerSequenceNumber_iff_behind (newest : UInt16)
    (hab : (newest - b).toNat < (newest - a).toNat + 2 ^ 15)
    (hba : (newest - a).toNat < (newest - b).toNat + 2 ^ 15) :
    isNewerSequenceNumber a b = true ↔ (newest - a).toNat < (newest - b).toNat := by
  rw [isNewerSequenceNumber_iff]
  rcases Nat.lt_or_ge (newest - b).toNat (newest - a).toNat with h | h
  · rw [uint16_sub_of_behind_lt h]
    omega
  · rw [uint16_sub_of_behind_le h]
    omega

theorem isNewerSequenceNumber_of_behind (newest : UInt16)
    (hba : (newest - b).toNat < (newest - a).toNat + 2 ^ 15)
    (h : (newest - a).toNat < (newest - b).toNat) : isNewerSequenceNumber a b = true :=
  (isNewerSequenceNumber_iff_behind newest hba (by omega)).mpr h

theorem newer_of_ahead (hpos : 0 < (a - newest).toNat) (hahead : (a - newest).toNat < 2 ^ 15) :
    a ≠ newest ∧ isNewerSequenceNumber newest a = false := by
  refine ⟨fun heq => ?_, ?_⟩
  · rw [heq] at hpos
    simp at hpos
  · rw [Bool.eq_false_iff, ne_eq, isNewerSequenceNumber_iff_behind a (by simp) (by simp; omega)]
    simp

theorem behind_le_of_not_newer (h : isNewerSequenceNumber a newest = false) :
    (newest - a).toNat ≤ 2 ^ 15 := by
  have hnot := isNewerSequenceNumber_iff.not.mp (Bool.eq_false_iff.mp h)
  have ha := a.toNat_lt
  have hnew := newest.toNat_lt
  rw [UInt16.toNat_sub] at hnot ⊢
  omega

theorem behind_le_of_newer (h : isNewerSequenceNumber newest a = true) :
    (newest - a).toNat ≤ 2 ^ 15 := by
  have hnewer := isNewerSequenceNumber_iff.mp h
  omega

end Newer

namespace NackList

/-- The list ascends towards the newest number and is from `low` to `high` behind it. -/
structure Behind (newest : UInt16) (low high : ℕ) (l : NackList) : Prop where
  ordered : l.Pairwise fun a b => (newest - b.1).toNat < (newest - a.1).toNat
  low_le : ∀ e ∈ l, low ≤ (newest - e.1).toNat
  le_high : ∀ e ∈ l, (newest - e.1).toNat ≤ high

theorem mem_keys_filter {l : NackList} {n : UInt16} (p : UInt16 → Prop) [DecidablePred p] :
    n ∈ (l.filter fun e => decide (p e.1)).map Prod.fst ↔ n ∈ l.map Prod.fst ∧ p n := by
  simp only [mem_map, mem_filter, decide_eq_true_eq]
  constructor
  · rintro ⟨e, ⟨he, hp⟩, rfl⟩
    exact ⟨⟨e, he, rfl⟩, hp⟩
  · rintro ⟨⟨e, he, rfl⟩, hp⟩
    exact ⟨e, ⟨he, hp⟩, rfl⟩

theorem behind_limit (s : UInt16) {size : ℕ} (hsize : size < 2 ^ 15) :
    (s - (s - UInt16.ofNat size - 1)).toNat = size + 1 := by
  have hone : (1 : UInt16).toNat = 1 := rfl
  have hsub : s - (s - UInt16.ofNat size - 1) = UInt16.ofNat size + 1 := by grind
  rw [hsub, UInt16.toNat_add, UInt16.toNat_ofNat', hone]
  omega

namespace Behind
variable {newest key : UInt16} {low high : ℕ} {l : NackList}

theorem nil : Behind newest low high [] :=
  ⟨List.Pairwise.nil, by simp, by simp⟩

theorem filter (h : Behind newest low high l) (p : UInt16 × NackElement → Bool) :
    Behind newest low high (l.filter p) where
  ordered := h.ordered.filter p
  low_le e he := h.low_le e (mem_of_mem_filter he)
  le_high e he := h.le_high e (mem_of_mem_filter he)

theorem iff_keys : Behind newest low high l ↔
      (l.map Prod.fst).Pairwise (fun a b => (newest - b).toNat < (newest - a).toNat) ∧
        ∀ n ∈ l.map Prod.fst, low ≤ (newest - n).toNat ∧ (newest - n).toNat ≤ high := by
  rw [pairwise_map, forall_mem_map]
  exact ⟨fun h => ⟨h.ordered, fun e he => ⟨h.low_le e he, h.le_high e he⟩⟩,
    fun h => ⟨h.1, fun e he => (h.2 e he).1, fun e he => (h.2 e he).2⟩⟩

section
variable (h : Behind newest low high l)
include h

theorem of_keys_eq {l' : NackList}
    (hk : l'.map Prod.fst = l.map Prod.fst) : Behind newest low high l' := by
  rw [iff_keys] at h ⊢
  rwa [hk]

theorem advance (next : UInt16) (hnext : high + (next - newest).toNat < 2 ^ 16) :
    Behind next (low + (next - newest).toNat) (high + (next - newest).toNat) l := by
  have hm : ∀ e ∈ l, (next - e.1).toNat = (newest - e.1).toNat + (next - newest).toNat := by
    intro e he
    have hle := h.le_high e he
    exact uint16_behind_add (by omega)
  refine ⟨?_, ?_, ?_⟩
  · refine h.ordered.imp_of_mem fun ha hb hlt => ?_
    rw [hm _ ha, hm _ hb]
    omega
  · intro e he
    have hle := h.low_le e he
    rw [hm e he]
    omega
  · intro e he
    have hle := h.le_high e he
    rw [hm e he]
    omega

theorem ascending (hhigh : high < 2 ^ 15) :
    (l.map Prod.fst).Pairwise fun a b => isNewerSequenceNumber b a = true := by
  rw [pairwise_map]
  refine h.ordered.imp_of_mem fun {a b} ha hb hlt => ?_
  have hle := h.le_high a ha
  exact isNewerSequenceNumber_of_behind newest (by omega) hlt

theorem eraseUpTo_eq (hlow : 1 ≤ low) (hhigh : high < 2 ^ 15)
    (hkey : (newest - key).toNat ≤ 2 ^ 15) :
    l.eraseUpTo key = l.filter fun e => decide ((newest - e.1).toNat < (newest - key).toNat) := by
  have ht : ∀ e ∈ l, compare key e.1 = decide ((newest - e.1).toNat < (newest - key).toNat) := by
    intro e he
    have hge := h.low_le e he
    have hle := h.le_high e he
    rw [Bool.eq_iff_iff, decide_eq_true_iff]
    exact isNewerSequenceNumber_iff_behind newest (by omega) (by omega)
  rw [eraseUpTo, dropWhile_eq_filter]
  · refine filter_congr fun e he => ?_
    rw [Bool.not_not, ht e he]
  · refine h.ordered.imp_of_mem fun ha hb hlt => ?_
    rw [ht _ ha, ht _ hb]
    simp only [Bool.not_eq_true', decide_eq_false_iff_not]
    omega

theorem eraseUpTo_limit {size : ℕ} (hlow : 1 ≤ low) (hh : high < 2 ^ 15)
    (hs : size < 2 ^ 15) :
    let kept := l.eraseUpTo (newest - UInt16.ofNat size - 1)
    kept = l.filter (fun e => decide ((newest - e.1).toNat ≤ size)) ∧
    Behind newest low size kept := by
  have hl := behind_limit newest hs
  have hk := h.eraseUpTo_eq hlow hh (hl.trans_le hs)
  simp only [hk, hl, Nat.lt_succ_iff]
  exact ⟨trivial, (h.filter _).1, (h.filter _).2, fun e he =>
    of_decide_eq_true (mem_filter.mp he).2⟩

theorem insert_eq (hhigh : high < 2 ^ 15)
    (hkey : (newest - key).toNat < low) (element : NackElement) :
    l.insert key element = l ++ [(key, element)] := by
  have ht : ∀ e ∈ l, compare e.1 key = true := by
    intro e he
    have hge := h.low_le e he
    have hle := h.le_high e he
    exact isNewerSequenceNumber_of_behind newest (by omega) (by omega)
  rw [NackList.insert, splitLower, takeWhile_eq_self_iff.mpr ht, dropWhile_eq_nil_iff.mpr ht]

theorem append_singleton (hkey : (newest - key).toNat < low)
    (hh : (newest - key).toNat ≤ high) (element : NackElement) :
    Behind newest (newest - key).toNat high (l ++ [(key, element)]) where
  ordered := by
    rw [pairwise_append]
    refine ⟨h.ordered, pairwise_singleton _ _, fun e he f hf => ?_⟩
    rw [mem_singleton.mp hf]
    exact lt_of_lt_of_le hkey (h.low_le e he)
  low_le e he := by
    rcases mem_append.mp he with he | he
    · exact le_trans hkey.le (h.low_le e he)
    · exact (congrArg (fun e => (newest - e.1).toNat) (mem_singleton.mp he)).ge
  le_high e he := by
    rcases mem_append.mp he with he | he
    · exact h.le_high e he
    · rw [mem_singleton.mp he]
      exact hh

end

end Behind

def markLower (l : NackList) (key : UInt16) : NackList :=
  (l.splitLower key).1.map (fun e => (e.1, { e.2 with isMissing := true })) ++ (l.splitLower key).2

theorem keys_markLower (l : NackList) (key : UInt16) :
    (l.markLower key).map Prod.fst = l.map Prod.fst := by
  rw [markLower, map_append, map_map, splitLower, Function.comp_def, ← map_append,
    takeWhile_append_dropWhile]

theorem mem_markLower {l : NackList} {key : UInt16} {e : UInt16 × NackElement}
    (he : e ∈ l.markLower key) :
    ∃ e' ∈ l, e'.1 = e.1 ∧ (e'.2.isMissing = true → e.2.isMissing = true) := by
  rcases mem_append.mp he with he | he
  · obtain ⟨e', he', rfl⟩ := mem_map.mp he
    exact ⟨e', (takeWhile_subset _) he', rfl, fun _ => rfl⟩
  · exact ⟨e, (dropWhile_subset _) he, rfl, id⟩

section Threshold
variable {newest next threshold n : UInt16} {size : ℕ} {l : NackList}

theorem newest_sub_key : newest - (newest - threshold) = threshold := by
  grind

theorem isNewer_key_iff (hth : threshold.toNat ≤ 2 ^ 15) (hpos : 1 ≤ (newest - n).toNat)
    (hn : (newest - n).toNat < 2 ^ 15) : isNewerSequenceNumber (newest - threshold) n = true ↔
      threshold.toNat < (newest - n).toNat := by
  have hiff := isNewerSequenceNumber_iff_behind (a := newest - threshold) (b := n) newest
  rw [newest_sub_key] at hiff
  exact hiff (by omega) (by omega)

theorem isNewer_key_of_ahead (hth : 2 ^ 15 + size < threshold.toNat)
    (hn : (newest - n).toNat ≤ size) : isNewerSequenceNumber (newest - threshold) n = true := by
  have hlt := threshold.toNat_lt
  have hb : (newest - n).toNat < (newest - (newest - threshold)).toNat := by
    rw [newest_sub_key]
    omega
  rw [isNewerSequenceNumber_iff, uint16_sub_of_behind_lt hb, newest_sub_key]
  omega

/-- The marks of the elements that stay in the list are right for the next newest number when they
were right for the one before. -/
theorem isMissing_markLower (h : Behind newest 1 size l)
    (hth : threshold.toNat ≤ 2 ^ 15 ∨ 2 ^ 15 + size < threshold.toNat)
    (hmarks : ∀ e ∈ l, e.2.isMissing = isNewerSequenceNumber (newest - threshold) e.1)
    (hnext : size + (next - newest).toNat < 2 ^ 15) {e : UInt16 × NackElement}
    (he : e ∈ l.markLower (next - threshold)) (hs : (next - e.1).toNat ≤ size) :
    e.2.isMissing = isNewerSequenceNumber (next - threshold) e.1 := by
  have hm := h.advance next (by omega)
  rcases hth with hth | hth
  · -- the key cuts the list in two, so exactly the elements before it are marked
    have hcut : l.Pairwise fun a b => compare b.1 (next - threshold) = true →
        compare a.1 (next - threshold) = true := by
      refine hm.ordered.imp_of_mem fun {a b} ha hb hlt => ?_
      have halow := hm.low_le a ha
      have hahigh := hm.le_high a ha
      have hblow := hm.low_le b hb
      rw [compare, compare, isNewer_key_iff hth (by omega) (by omega),
        isNewer_key_iff hth (by omega) (by omega)]
      omega
    rw [markLower, splitLower, map_takeWhile_append_dropWhile hcut] at he
    obtain ⟨e', he', rfl⟩ := mem_map.mp he
    by_cases hn : compare e'.1 (next - threshold) = true
    · rw [if_pos hn]
      exact hn.symm
    · have hlow := h.low_le e' he'
      have hhigh := h.le_high e' he'
      have hbehind : (next - e'.1).toNat = (newest - e'.1).toNat + (next - newest).toNat :=
        uint16_behind_add (by omega)
      rw [compare, isNewer_key_iff hth (by omega) (by omega)] at hn
      rw [if_neg (by rwa [compare, isNewer_key_iff hth (by omega) (by omega)]), hmarks e' he',
        Bool.eq_iff_iff, isNewer_key_iff hth hlow (by omega),
        isNewer_key_iff hth (by omega) (by omega)]
      omega
  · obtain ⟨e', he', hkey, hk⟩ := mem_markLower he
    have hbefore := isNewer_key_of_ahead hth (h.le_high e' he')
    rw [hk (by rw [hmarks e' he', hbefore]), isNewer_key_of_ahead hth hs]

end Threshold

end NackList

namespace NackTracker
variable {t : NackTracker} {current n : UInt16} {low high fuel : ℕ} {l : NackList}

theorem addLoop_spec (hn : (current - n).toNat = fuel) (hf : fuel < low) (hle : fuel ≤ high)
    (hh : high < 2 ^ 15) (h : l.Behind current low high) :
    NackList.Behind current 1 high (t.addLoop current fuel n l) ∧
      ∀ e, e ∈ t.addLoop current fuel n l ↔ e ∈ l ∨
        (1 ≤ (current - e.1).toNat ∧ (current - e.1).toNat ≤ fuel) ∧
          e.2 = t.skippedElement current e.1 := by
  induction fuel generalizing n l low with
  | zero =>
    refine ⟨⟨h.ordered, fun e he => hf.trans_le (h.low_le e he), h.le_high⟩, fun e => ?_⟩
    exact (or_iff_left (by omega)).symm
  | succ fuel ih =>
    have hg : isNewerSequenceNumber current n = true := by
      rw [isNewerSequenceNumber_iff]
      omega
    have hnext : (current - (n + 1)).toNat = fuel := by
      rw [uint16_sub_succ (by omega), hn]
      rfl
    have hkey : (current - n).toNat < low := by omega
    have hl := h.append_singleton hkey (by omega) (t.skippedElement current n)
    obtain ⟨hb, hmem⟩ := ih hnext (by omega) (by omega) hl
    rw [addLoop, if_pos hg, h.insert_eq hh (by omega)]
    refine ⟨hb, fun e => ?_⟩
    rw [hmem e, mem_append, mem_singleton, or_assoc]
    refine or_congr_right ⟨?_, ?_⟩
    · rintro (rfl | ⟨hr, helement⟩)
      · exact ⟨by simp [hn], rfl⟩
      · exact ⟨by omega, helement⟩
    · rintro ⟨hr, helement⟩
      rcases Nat.lt_or_ge fuel (current - e.1).toNat with hl | hear
      · have hkey : e.1 = n := uint16_eq_of_behind_eq current (by omega)
        exact .inl (Prod.ext hkey (by rw [helement, hkey]))
      · exact .inr ⟨⟨hr.1, hear⟩, helement⟩

@[simp] theorem nackList_changeFromLateToMissing (t : NackTracker) (current : UInt16) :
    (t.changeFromLateToMissing current).nackList =
      t.nackList.markLower (t.minusThreshold current) := rfl

theorem nackList_updateList (hpos : 0 < (current - t.sequenceNumLastReceivedRtp).toNat)
    (hahead : (current - t.sequenceNumLastReceivedRtp).toNat ≤ 2 ^ 15) :
    (t.updateList current).nackList = (t.changeFromLateToMissing current).addLoop current
        (current - (t.sequenceNumLastReceivedRtp + 1)).toNat (t.sequenceNumLastReceivedRtp + 1)
        (t.nackList.markLower (t.minusThreshold current)) := by
  rw [updateList]
  split_ifs with hs
  · rfl
  · have hz : (current - (t.sequenceNumLastReceivedRtp + 1)).toNat = 0 := by
      have hsub := uint16_sub_succ hpos
      have hnot : ¬ isNewerSequenceNumber current (t.sequenceNumLastReceivedRtp + 1) = true := hs
      rw [isNewerSequenceNumber_iff] at hnot
      omega
    rw [hz]
    rfl

theorem updateList_eq (t : NackTracker) (current : UInt16) :
    t.updateList current = { t with nackList := (t.updateList current).nackList } := by
  rw [updateList]
  split_ifs <;> rfl

section
variable {s : UInt16} (timestamp : UInt32) (hany : t.anyRtpReceived = true)
  (hne : s ≠ t.sequenceNumLastReceivedRtp)
include hany hne

theorem updateLastReceivedPacket_of_older
    (hold : isNewerSequenceNumber t.sequenceNumLastReceivedRtp s = true) :
    t.updateLastReceivedPacket s timestamp = { t with nackList := t.nackList.erase s } := by
  rw [updateLastReceivedPacket, if_neg (by simp [hany]), if_neg hne]
  exact if_pos hold

theorem updateLastReceivedPacket_of_newer
    (hold : isNewerSequenceNumber t.sequenceNumLastReceivedRtp s = false) :
    t.updateLastReceivedPacket s timestamp = { t with
        sequenceNumLastReceivedRtp := s
        timestampLastReceivedRtp := timestamp
        samplesPerPacket := (t.updateSamplesPerPacket s timestamp).samplesPerPacket
        nackList := (({ t with nackList := t.nackList.erase s }.updateSamplesPerPacket s
          timestamp).updateList s).nackList.eraseUpTo
            (s - UInt16.ofNat t.maxNackListSize - 1) } := by
  rw [updateLastReceivedPacket, hany, Bool.not_true, if_neg Bool.false_ne_true, if_neg hne]
  dsimp only
  rw [hold, if_neg Bool.false_ne_true, updateList_eq]
  rfl

end

section Trimmed
variable {s : UInt16}

structure Trimmed (t : NackTracker) : Prop where
  size_le : t.maxNackListSize ≤ kNackListSizeLimit
  behind : t.nackList.Behind t.sequenceNumLastReceivedRtp 1 t.maxNackListSize
  nackList_eq_nil : t.anyRtpReceived = false → t.nackList = []

theorem Trimmed.size_lt (h : t.Trimmed) : t.maxNackListSize < 2 ^ 9 :=
  h.size_le.trans_lt (by decide)

theorem Trimmed.of_keys_filter {u : NackTracker} (h : t.Trimmed)
    (hs : u.maxNackListSize = t.maxNackListSize)
    (hn : u.sequenceNumLastReceivedRtp = t.sequenceNumLastReceivedRtp)
    (hany : u.anyRtpReceived = true) {p : UInt16 × NackElement → Bool}
    (hk : u.nackList.map Prod.fst = (t.nackList.filter p).map Prod.fst) : u.Trimmed where
  size_le := hs ▸ h.size_le
  behind := by
    rw [hs, hn]
    exact (h.behind.filter p).of_keys_eq hk
  nackList_eq_nil hf := absurd (hany.symm.trans hf) (by decide)

theorem ahead_pos (hne : s ≠ t.sequenceNumLastReceivedRtp) :
    0 < (s - t.sequenceNumLastReceivedRtp).toNat := by
  refine Nat.pos_of_ne_zero fun hz => hne ?_
  exact (uint16_eq_of_behind_eq s (by rw [hz]; simp)).symm

section
variable (h : t.Trimmed) (hold : isNewerSequenceNumber t.sequenceNumLastReceivedRtp s = false)
include h hold

theorem Trimmed.behind_newer :
    ∀ n ∈ t.nackList.map Prod.fst, 1 ≤ (t.sequenceNumLastReceivedRtp - n).toNat ∧
      (t.sequenceNumLastReceivedRtp - n).toNat < 2 ^ 9 ∧
      (s - n).toNat = (t.sequenceNumLastReceivedRtp - n).toNat +
        (s - t.sequenceNumLastReceivedRtp).toNat := by
  intro n hn
  obtain ⟨hlow, hhigh⟩ := (NackList.Behind.iff_keys.mp h.behind).2 n hn
  have hsize := h.size_lt
  have hahead := behind_le_of_not_newer hold
  exact ⟨hlow, by omega, uint16_behind_add (by omega)⟩

theorem Trimmed.erase_eq : t.nackList.erase s = t.nackList := by
  refine filter_eq_self.mpr fun e he => ?_
  rw [decide_eq_true_iff]
  intro heq
  obtain ⟨hlow, -, hsum⟩ := h.behind_newer hold e.1 (mem_map_of_mem he)
  rw [heq] at hsum hlow
  simp at hsum
  omega

end

section
variable (h : t.Trimmed) (hne : s ≠ t.sequenceNumLastReceivedRtp)
  (hold : isNewerSequenceNumber t.sequenceNumLastReceivedRtp s = false)
  (hfar : ∀ n ∈ t.nackList.map Prod.fst, (s - n).toNat < 2 ^ 15)
include h hne hold hfar

theorem Trimmed.updateList_spec : (t.updateList s).nackList.Behind s 1 (2 ^ 15 - 1) ∧
      ∀ e, e ∈ (t.updateList s).nackList ↔ e ∈ t.nackList.markLower (t.minusThreshold s) ∨
        (1 ≤ (s - e.1).toNat ∧ (s - e.1).toNat < (s - t.sequenceNumLastReceivedRtp).toNat) ∧
          e.2 = (t.changeFromLateToMissing s).skippedElement s e.1 := by
  have hpos := ahead_pos hne
  have hahead := behind_le_of_not_newer hold
  have hskip := uint16_sub_succ hpos
  have hbehind :
      t.nackList.Behind s ((s - t.sequenceNumLastReceivedRtp).toNat + 1) (2 ^ 15 - 1) := by
    have hsum := h.behind_newer hold
    refine NackList.Behind.iff_keys.mpr ⟨?_, fun n hn => ?_⟩
    · refine (NackList.Behind.iff_keys.mp h.behind).1.imp_of_mem fun {a b} ha hb hlt => ?_
      rw [(hsum a ha).2.2, (hsum b hb).2.2]
      omega
    · have hlow := hsum n hn
      have hlt := hfar n hn
      omega
  rw [nackList_updateList hpos hahead]
  obtain ⟨hall, hmem⟩ := addLoop_spec (t := t.changeFromLateToMissing s)
    (n := t.sequenceNumLastReceivedRtp + 1) rfl (by omega) (by omega) (by omega)
    (hbehind.of_keys_eq (NackList.keys_markLower _ (t.minusThreshold s)))
  refine ⟨hall, fun e => (hmem e).trans (or_congr_right (and_congr_left' ?_))⟩
  omega

theorem Trimmed.receive_newer (hany : t.anyRtpReceived = true) (timestamp : UInt32) :
    (t.updateLastReceivedPacket s timestamp).nackList.Behind s 1 t.maxNackListSize ∧
      ∀ e, e ∈ (t.updateLastReceivedPacket s timestamp).nackList ↔
        (e ∈ t.nackList.markLower (t.minusThreshold s) ∨
          (1 ≤ (s - e.1).toNat ∧ (s - e.1).toNat < (s - t.sequenceNumLastReceivedRtp).toNat) ∧
            e.2 = ((t.updateSamplesPerPacket s timestamp).changeFromLateToMissing s).skippedElement
              s e.1) ∧ (s - e.1).toNat ≤ t.maxNackListSize := by
  have hu : (t.updateSamplesPerPacket s timestamp).Trimmed :=
    ⟨h.size_le, h.behind, h.nackList_eq_nil⟩
  obtain ⟨hb, hmem⟩ := hu.updateList_spec hne hold hfar
  obtain ⟨hk, hb⟩ := hb.eraseUpTo_limit le_rfl (by omega) (h.size_lt.trans (by decide))
  rw [updateLastReceivedPacket_of_newer timestamp hany hne hold, h.erase_eq hold]
  refine ⟨hb, fun e => ?_⟩
  dsimp only
  rw [hk, mem_filter, decide_eq_true_iff, hmem]
  rfl

theorem Trimmed.mem_keys_receive_newer (hany : t.anyRtpReceived = true) (timestamp : UInt32)
    (n : UInt16) : n ∈ (t.updateLastReceivedPacket s timestamp).nackList.map Prod.fst ↔
      (n ∈ t.nackList.map Prod.fst ∨
        1 ≤ (s - n).toNat ∧ (s - n).toNat < (s - t.sequenceNumLastReceivedRtp).toNat) ∧
          (s - n).toNat ≤ t.maxNackListSize := by
  obtain ⟨-, hmem⟩ := h.receive_newer hne hold hfar hany timestamp
  rw [← NackList.keys_markLower t.nackList (t.minusThreshold s), mem_map, mem_map]
  simp only [hmem]
  constructor
  · rintro ⟨e, ⟨he | ⟨hr, -⟩, hle⟩, rfl⟩
    · exact ⟨.inl ⟨e, he, rfl⟩, hle⟩
    · exact ⟨.inr hr, hle⟩
  · rintro ⟨⟨e, he, rfl⟩ | hr, hle⟩
    · exact ⟨e, ⟨.inl he, hle⟩, rfl⟩
    · exact ⟨(n, ((t.updateSamplesPerPacket s timestamp).changeFromLateToMissing s).skippedElement
        s n), ⟨.inr ⟨hr, rfl⟩, hle⟩, rfl⟩

end

theorem Trimmed.receive (h : t.Trimmed)
    (hfar : t.anyRtpReceived = true → s ≠ t.sequenceNumLastReceivedRtp →
      isNewerSequenceNumber t.sequenceNumLastReceivedRtp s = false →
        ∀ n ∈ t.nackList.map Prod.fst, (s - n).toNat < 2 ^ 15) (timestamp : UInt32) :
    (t.updateLastReceivedPacket s timestamp).Trimmed := by
  by_cases hany : t.anyRtpReceived = true
  swap
  · have hnil := h.nackList_eq_nil (by simpa using hany)
    rw [updateLastReceivedPacket, if_pos (by simpa using hany), receiveFirst]
    split_ifs <;>
      exact ⟨h.size_le, by rw [hnil]; exact NackList.Behind.nil, fun _ => hnil⟩
  by_cases hne : s = t.sequenceNumLastReceivedRtp
  · rwa [updateLastReceivedPacket, if_neg (by simp [hany]), if_pos hne]
  cases hold : isNewerSequenceNumber t.sequenceNumLastReceivedRtp s with
  | true =>
    rw [updateLastReceivedPacket_of_older timestamp hany hne hold]
    exact h.of_keys_filter rfl rfl hany rfl
  | false =>
    obtain ⟨hb, -⟩ := h.receive_newer hne hold (hfar hany hne hold) hany timestamp
    rw [updateLastReceivedPacket_of_newer timestamp hany hne hold] at hb ⊢
    exact ⟨h.size_le, hb, fun hf => absurd (hany.symm.trans hf) (by decide)⟩

theorem trimmed_start {threshold : ℤ} {size : ℕ}
    (h : (create threshold).setMaxNackListSize size = some t) : t.Trimmed := by
  rw [setMaxNackListSize] at h
  split_ifs at h with hs
  cases h
  exact ⟨hs.2, NackList.Behind.nil, fun _ => rfl⟩

end Trimmed

end NackTracker

end WebRtcAudio.NetEq
