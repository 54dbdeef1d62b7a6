import WebRtcAudio.NetEq.NackTrackerRuns

/-! The searches of the NACK list, while `NackListCompare` orders its numbers. -/
namespace WebRtcAudio.NetEq

open WebRtcAudio.Core List NackList

structure Search where
  keys : List UInt16
  key : UInt16

namespace Search

def InWindow (q : Search) : Prop :=
  ∃ base : UInt16, ∀ n ∈ q.key :: q.keys, (n - base).toNat < 2 ^ 15

def Ordered (q : Search) : Prop :=
  IsStrictWeakOrder {n // n ∈ q.key :: q.keys} fun a b => NackList.compare a.1 b.1 = true

end Search

namespace NackTracker

def addSearches (t : NackTracker) (current : UInt16) : ℕ → UInt16 → NackList → List Search
  | 0, _, _ => []
  | fuel + 1, n, l =>
    if isNewerSequenceNumber current n then
      ⟨l.map Prod.fst, n⟩ ::
        t.addSearches current fuel (n + 1) (l.insert n (t.skippedElement current n))
    else []

def updateSearches (t : NackTracker) (current : UInt16) : List Search :=
  let u := t.changeFromLateToMissing current
  let n := t.sequenceNumLastReceivedRtp + 1
  ⟨t.nackList.map Prod.fst, t.minusThreshold current⟩ ::
    if isNewerSequenceNumber current n then
      u.addSearches current (current - n).toNat n u.nackList
    else []

def searches (t : NackTracker) (sequenceNumber : UInt16) (timestamp : UInt32) : List Search :=
  if !t.anyRtpReceived then []
  else if sequenceNumber = t.sequenceNumLastReceivedRtp then []
  else
    let u := { t with nackList := t.nackList.erase sequenceNumber }
    ⟨t.nackList.map Prod.fst, sequenceNumber⟩ ::
      if isNewerSequenceNumber t.sequenceNumLastReceivedRtp sequenceNumber then []
      else
        let u := u.updateSamplesPerPacket sequenceNumber timestamp
        u.updateSearches sequenceNumber ++
          [⟨(u.updateList sequenceNumber).nackList.map Prod.fst,
            sequenceNumber - UInt16.ofNat t.maxNackListSize - 1⟩]

/-- A packet that becomes the newest one is less than half a lap ahead of every number in the list,
and no two numbers of the list have the point half a lap from its threshold between them. -/
def FitsWindow (t : NackTracker) (sequenceNumber : UInt16) : Prop :=
  t.anyRtpReceived = true → sequenceNumber ≠ t.sequenceNumLastReceivedRtp →
    isNewerSequenceNumber t.sequenceNumLastReceivedRtp sequenceNumber = false →
      (∀ n ∈ t.nackList.map Prod.fst, (sequenceNumber - n).toNat < 2 ^ 15) ∧
      ((∀ n ∈ t.nackList.map Prod.fst,
          (UInt16.ofInt t.nackThresholdPackets).toNat < 2 ^ 15 + (sequenceNumber - n).toNat) ∨
        ∀ n ∈ t.nackList.map Prod.fst,
          2 ^ 15 + (sequenceNumber - n).toNat < (UInt16.ofInt t.nackThresholdPackets).toNat)

instance (t : NackTracker) (sequenceNumber : UInt16) : Decidable (t.FitsWindow sequenceNumber) :=
  -- Over the list, not over all numbers.
  letI {p : UInt16 → Prop} [DecidablePred p] (l : List UInt16) : Decidable (∀ n ∈ l, p n) :=
    decidableBAll p l
  inferInstanceAs (Decidable (_ → _))

end NackTracker

namespace Search
variable {q : Search}

theorem compare_iff_of_window {base a b : UInt16} (ha : (a - base).toNat < 2 ^ 15)
    (hb : (b - base).toNat < 2 ^ 15) :
    NackList.compare a b = true ↔ (a - base).toNat < (b - base).toNat := by
  rw [NackList.compare, isNewerSequenceNumber_iff]
  rcases Nat.lt_or_ge (b - base).toNat (a - base).toNat with h | h
  · have hsub := uint16_sub_of_lt h
    omega
  · have hsub := uint16_sub_of_le h
    omega

theorem InWindow.ordered (h : q.InWindow) : q.Ordered := by
  obtain ⟨base, hb⟩ := h
  have hiff : ∀ a b : {n // n ∈ q.key :: q.keys}, NackList.compare a.1 b.1 = true ↔
      (a.1 - base).toNat < (b.1 - base).toNat := fun a b =>
    compare_iff_of_window (hb a.1 a.2) (hb b.1 b.2)
  have ho : IsStrictOrder {n // n ∈ q.key :: q.keys}
      fun a b => NackList.compare a.1 b.1 = true :=
    { irrefl := fun a => by rw [hiff]; omega
      trans := fun a b c => by rw [hiff, hiff, hiff]; omega }
  exact { ho with incomp_trans := fun a b c => by simp only [hiff]; omega }

theorem inWindow_of_behind (newest : UInt16) (low : ℕ)
    (h : ∀ n ∈ q.key :: q.keys, low ≤ (newest - n).toNat ∧ (newest - n).toNat < low + 2 ^ 15) :
    q.InWindow := by
  refine ⟨newest - UInt16.ofNat (low + 2 ^ 15 - 1), fun n hn => ?_⟩
  have hr := h n hn
  have hlt := n.toNat_lt
  rw [UInt16.toNat_sub] at hr
  rw [UInt16.toNat_sub, UInt16.toNat_sub, UInt16.toNat_ofNat']
  omega

theorem not_inWindow_of_half {a b : UInt16} (ha : a ∈ q.key :: q.keys) (hb : b ∈ q.key :: q.keys)
    (hh : (a - b).toNat = 2 ^ 15) : ¬ q.InWindow := by
  rintro ⟨base, hbase⟩
  have hla := hbase a ha
  have hlb := hbase b hb
  have hlt' := b.toNat_lt
  have hlt'' := base.toNat_lt
  rw [UInt16.toNat_sub] at hla hlb hh
  omega

theorem not_inWindow_of_around (newest : UInt16) {a b c : UInt16} (ha : a ∈ q.key :: q.keys)
    (hb : b ∈ q.key :: q.keys) (hc : c ∈ q.key :: q.keys)
    (hab : (newest - a).toNat + 2 ^ 15 ≤ (newest - c).toNat)
    (hbc : (newest - c).toNat ≤ (newest - b).toNat + 2 ^ 15)
    (hb' : (newest - b).toNat < 2 ^ 15) : ¬ q.InWindow := by
  rintro ⟨base, hbase⟩
  have hla := hbase a ha
  have hlb := hbase b hb
  have hlc := hbase c hc
  have hlt := a.toNat_lt
  have hlt' := b.toNat_lt
  have hl := c.toNat_lt
  have hlt'' := base.toNat_lt
  rw [UInt16.toNat_sub] at hla hlb hlc hab hbc hb'
  rw [UInt16.toNat_sub] at hab hbc
  omega

end Search

namespace NackList
variable {l : NackList} {key n : UInt16}

theorem insert_cases (l : NackList) (key : UInt16) (element : NackElement) :
    l.insert key element = l ∨
      ∃ front back, l = front ++ back ∧ l.insert key element = front ++ (key, element) :: back := by
  have hl := takeWhile_append_dropWhile (p := fun e => compare e.1 key) (l := l)
  rw [insert, splitLower]
  cases hb : l.dropWhile (fun e => compare e.1 key) with
  | nil => exact .inr ⟨_, [], by rw [← hb, hl], rfl⟩
  | cons e back =>
    dsimp only
    split_ifs
    · exact .inr ⟨_, e :: back, by rw [← hb, hl], rfl⟩
    · exact .inl (by rw [← hb, hl])

theorem forall_keys_insert {P : UInt16 → Prop} (h : ∀ n ∈ l.map Prod.fst, P n) (hkey : P key)
    (element : NackElement) : ∀ n ∈ (l.insert key element).map Prod.fst, P n := by
  rcases insert_cases l key element with heq | ⟨front, back, rfl, heq⟩
  · rwa [heq]
  · rw [heq, map_append, map_cons]
    rw [map_append, forall_mem_append] at h
    exact forall_mem_append.mpr ⟨h.1, forall_mem_cons.mpr ⟨hkey, h.2⟩⟩

theorem mem_keys_insert (element : NackElement) (h : n ∈ l.map Prod.fst) :
    n ∈ (l.insert key element).map Prod.fst := by
  rcases insert_cases l key element with heq | ⟨front, back, rfl, heq⟩
  · rwa [heq]
  · rw [heq, map_append, map_cons]
    rw [map_append, mem_append] at h
    exact mem_append.mpr (h.imp_right (mem_cons_of_mem key))

end NackList

namespace NackTracker
variable {t : NackTracker} {current n m : UInt16} {fuel : ℕ} {l : NackList}

section Loop
variable {P : UInt16 → Prop}

theorem forall_addSearches (hn : (current - n).toNat = fuel)
    (hs : ∀ m, 1 ≤ (current - m).toNat → (current - m).toNat ≤ fuel → P m)
    (hl : ∀ m ∈ l.map Prod.fst, P m) :
    ∀ q ∈ t.addSearches current fuel n l, ∀ m ∈ q.key :: q.keys, P m := by
  induction fuel generalizing n l with
  | zero => simp [addSearches]
  | succ fuel ih =>
    have hkey : P n := hs n (by omega) (by omega)
    rw [addSearches]
    split_ifs
    · refine forall_mem_cons.mpr ⟨forall_mem_cons.mpr ⟨hkey, hl⟩, ?_⟩
      refine ih ?_ (fun m hpos hle => hs m hpos (by omega))
        (forall_keys_insert hl hkey _)
      rw [uint16_sub_succ (by omega), hn]
      rfl
    · simp

theorem exists_addSearch (hn : (current - n).toNat = fuel) (hfuel : fuel < 2 ^ 15)
    (hpos : 1 ≤ (current - m).toNat) (hle : (current - m).toNat ≤ fuel) {k : UInt16}
    (hk : k ∈ l.map Prod.fst) : ∃ q ∈ t.addSearches current fuel n l, q.key = m ∧ k ∈ q.keys := by
  induction fuel generalizing n l with
  | zero => omega
  | succ fuel ih =>
    have hg : isNewerSequenceNumber current n = true := by
      rw [isNewerSequenceNumber_iff]
      omega
    rw [addSearches, if_pos hg]
    rcases Nat.lt_or_ge fuel (current - m).toNat with hlast | hl
    · have hm : n = m := uint16_eq_of_behind_eq current (by omega)
      exact ⟨_, mem_cons_self, hm, hk⟩
    · have hnext : (current - (n + 1)).toNat = fuel := by
        rw [uint16_sub_succ (by omega), hn]
        rfl
      obtain ⟨q, hq, hkey, hmem⟩ := ih hnext (by omega) hl (mem_keys_insert _ hk)
      exact ⟨q, mem_cons_of_mem _ hq, hkey, hmem⟩

end Loop

section Packet
variable {s : UInt16} {timestamp : UInt32}

theorem Trimmed.searches_of_newer (h : t.Trimmed) (hany : t.anyRtpReceived = true)
    (hne : s ≠ t.sequenceNumLastReceivedRtp)
    (hold : isNewerSequenceNumber t.sequenceNumLastReceivedRtp s = false) :
    t.searches s timestamp = ⟨t.nackList.map Prod.fst, s⟩ ::
      ((t.updateSamplesPerPacket s timestamp).updateSearches s ++
        [⟨((t.updateSamplesPerPacket s timestamp).updateList s).nackList.map Prod.fst,
          s - UInt16.ofNat t.maxNackListSize - 1⟩]) := by
  rw [searches, if_neg (by simp [hany]), if_neg hne]
  dsimp only
  rw [hold, if_neg Bool.false_ne_true, h.erase_eq hold]

theorem Trimmed.inWindow_of_old (h : t.Trimmed)
    (hold : isNewerSequenceNumber t.sequenceNumLastReceivedRtp s = true) :
    (⟨t.nackList.map Prod.fst, s⟩ : Search).InWindow := by
  refine Search.inWindow_of_behind t.sequenceNumLastReceivedRtp 1
    (forall_mem_cons.mpr ⟨?_, fun n hn => ?_⟩)
  · have hle := behind_le_of_newer hold
    have hpos := (isNewerSequenceNumber_iff.mp hold).1
    dsimp only
    omega
  · obtain ⟨hlow, hhigh⟩ := (NackList.Behind.iff_keys.mp h.behind).2 n hn
    have hsize := h.size_lt
    omega

theorem inWindow_threshold_iff {keys : List UInt16} {threshold : UInt16}
    (hk : ∀ n ∈ keys, (s - n).toNat < 2 ^ 15) : (⟨keys, s - threshold⟩ : Search).InWindow ↔
      (∀ n ∈ keys, threshold.toNat < 2 ^ 15 + (s - n).toNat) ∨
        ∀ n ∈ keys, 2 ^ 15 + (s - n).toNat < threshold.toNat := by
  have hbehind : s - (s - threshold) = threshold := newest_sub_key
  constructor
  · intro hwin
    by_contra hnot
    rw [not_or] at hnot
    obtain ⟨hfar, hnear⟩ := hnot
    push Not at hfar hnear
    obtain ⟨a, ha, hafar⟩ := hfar
    obtain ⟨b, hb, hbnear⟩ := hnear
    refine Search.not_inWindow_of_around s (mem_cons_of_mem _ ha)
      (mem_cons_of_mem _ hb) mem_cons_self ?_ ?_ (hk b hb) hwin
    · rw [hbehind]
      omega
    · rw [hbehind]
      omega
  · rintro (hfar | hnear)
    · -- seen from the packet, the threshold is less than half a lap behind the list
      refine Search.inWindow_of_behind s (threshold.toNat - (2 ^ 15 - 1))
        (forall_mem_cons.mpr ⟨?_, fun n hn => ?_⟩)
      · dsimp only
        rw [hbehind]
        omega
      · have hfar := hfar n hn
        have hlt := hk n hn
        omega
    · -- the list is less than half a lap behind the threshold
      refine Search.inWindow_of_behind (s - threshold) 0
        (forall_mem_cons.mpr ⟨by simp, fun n hn => ?_⟩)
      have hnear := hnear n hn
      have hlt : (s - n).toNat < (s - (s - threshold)).toNat := by
        rw [hbehind]
        omega
      have hsub := uint16_sub_of_behind_lt hlt
      rw [hbehind] at hsub
      omega

theorem forall_updateSearches {P : UInt16 → Prop} (hne : s ≠ t.sequenceNumLastReceivedRtp)
    (hs : ∀ m, (s - m).toNat < (s - t.sequenceNumLastReceivedRtp).toNat → P m)
    (hl : ∀ n ∈ t.nackList.map Prod.fst, P n) :
    ∀ q ∈ t.updateSearches s, q = ⟨t.nackList.map Prod.fst, t.minusThreshold s⟩ ∨
      ∀ n ∈ q.key :: q.keys, P n := by
  have hpos := ahead_pos hne
  refine forall_mem_cons.mpr ⟨.inl rfl, fun q hq => .inr ?_⟩
  split_ifs at hq
  · refine forall_addSearches rfl (fun m _ hle => hs m ?_) ?_ q hq
    · rw [uint16_sub_succ hpos] at hle
      omega
    · rwa [nackList_changeFromLateToMissing, keys_markLower]
  · exact absurd hq not_mem_nil

section
variable (h : t.Trimmed) (hne : s ≠ t.sequenceNumLastReceivedRtp)
  (hold : isNewerSequenceNumber t.sequenceNumLastReceivedRtp s = false)
include h hne hold

theorem Trimmed.inWindow_of_fits (hfar : ∀ n ∈ t.nackList.map Prod.fst, (s - n).toNat < 2 ^ 15)
    (hth : (⟨t.nackList.map Prod.fst, t.minusThreshold s⟩ : Search).InWindow) :
    (⟨t.nackList.map Prod.fst, s⟩ : Search).InWindow ∧ (∀ q ∈ t.updateSearches s, q.InWindow) ∧
      (⟨(t.updateList s).nackList.map Prod.fst, s - UInt16.ofNat t.maxNackListSize - 1⟩ :
        Search).InWindow := by
  have hahead := behind_le_of_not_newer hold
  have hsize := h.size_lt
  have hs : ∀ m : UInt16, (s - m).toNat < (s - t.sequenceNumLastReceivedRtp).toNat →
      0 ≤ (s - m).toNat ∧ (s - m).toNat < 0 + 2 ^ 15 := by
    intro m hm
    omega
  have hl : ∀ n ∈ t.nackList.map Prod.fst, 0 ≤ (s - n).toNat ∧ (s - n).toNat < 0 + 2 ^ 15 := by
    intro n hn
    have hlt := hfar n hn
    omega
  refine ⟨?_, fun q hq => ?_, ?_⟩
  · exact Search.inWindow_of_behind s 0 (forall_mem_cons.mpr ⟨by simp, hl⟩)
  · rcases forall_updateSearches hne hs hl q hq with rfl | hall
    · exact hth
    · exact Search.inWindow_of_behind s 0 hall
  · obtain ⟨hb, -⟩ := h.updateList_spec hne hold hfar
    refine Search.inWindow_of_behind s 0 (forall_mem_cons.mpr ⟨?_, fun n hn => ?_⟩)
    · dsimp only
      rw [behind_limit s (by omega)]
      omega
    · have hrange := (Behind.iff_keys.mp hb).2 n hn
      omega

theorem Trimmed.lt_half_of_inWindow (hf : (⟨t.nackList.map Prod.fst, s⟩ : Search).InWindow)
    (hu : ∀ q ∈ t.updateSearches s, q.InWindow) :
    ∀ n ∈ t.nackList.map Prod.fst, (s - n).toNat < 2 ^ 15 := by
  intro n hn
  have hahead := behind_le_of_not_newer hold
  obtain ⟨hlow, hhigh, hsum⟩ := h.behind_newer hold n hn
  by_contra hfar
  rcases Nat.eq_or_lt_of_le (Nat.not_lt.mp hfar) with hh | hl
  · exact Search.not_inWindow_of_half mem_cons_self (mem_cons_of_mem s hn) hh.symm
      hf
  · -- the number half a lap ahead of `n` is one that the packet skips
    have hpos := ahead_pos hne
    have hskip := uint16_sub_succ hpos
    have hlt := (s - n).toNat_lt
    have hm : (s - (n + 0x8000)).toNat = (s - n).toNat - 2 ^ 15 := by
      have hn' := n.toNat_lt
      have hh : (0x8000 : UInt16).toNat = 2 ^ 15 := rfl
      rw [UInt16.toNat_sub] at hl
      rw [UInt16.toNat_sub, UInt16.toNat_add, UInt16.toNat_sub, hh]
      omega
    have hg : isNewerSequenceNumber s (t.sequenceNumLastReceivedRtp + 1) = true := by
      rw [isNewerSequenceNumber_iff]
      omega
    have hn' : n ∈ (t.changeFromLateToMissing s).nackList.map Prod.fst := by
      rwa [nackList_changeFromLateToMissing, keys_markLower]
    have ha : ∃ q ∈ (t.changeFromLateToMissing s).addSearches s
        (s - (t.sequenceNumLastReceivedRtp + 1)).toNat (t.sequenceNumLastReceivedRtp + 1)
        (t.changeFromLateToMissing s).nackList, q.key = n + 0x8000 ∧ n ∈ q.keys :=
      exists_addSearch rfl (by omega) (by omega) (by omega) hn'
    obtain ⟨q, hq, hkey, hmem⟩ := ha
    refine Search.not_inWindow_of_half (mem_cons_self) (mem_cons_of_mem q.key hmem) ?_
      (hu q ?_)
    · rw [hkey, UInt16.add_comm, UInt16.add_sub_cancel]
      rfl
    · rw [updateSearches, if_pos hg]
      exact mem_cons_of_mem _ hq

end

theorem Trimmed.inWindow_iff (h : t.Trimmed) (s : UInt16) (timestamp : UInt32) :
    (∀ q ∈ t.searches s timestamp, q.InWindow) ↔ t.FitsWindow s := by
  by_cases hany : t.anyRtpReceived = true
  swap
  · refine iff_of_true (fun q hq => ?_) fun hany' => absurd hany' hany
    rw [searches, if_pos (by simpa using hany)] at hq
    exact absurd hq not_mem_nil
  by_cases hne : s = t.sequenceNumLastReceivedRtp
  · refine iff_of_true (fun q hq => ?_) fun _ hne' => absurd hne hne'
    rw [searches, if_neg (by simp [hany]), if_pos hne] at hq
    exact absurd hq not_mem_nil
  cases hold : isNewerSequenceNumber t.sequenceNumLastReceivedRtp s with
  | true =>
    refine iff_of_true ?_ fun _ _ hold' => absurd (hold.symm.trans hold') (by decide)
    rw [searches, if_neg (by simp [hany]), if_neg hne]
    dsimp only
    rw [hold, if_pos rfl]
    simpa using h.inWindow_of_old hold
  | false =>
    have hu : (t.updateSamplesPerPacket s timestamp).Trimmed :=
      ⟨h.size_le, h.behind, h.nackList_eq_nil⟩
    rw [h.searches_of_newer hany hne hold, forall_mem_cons, forall_mem_append, forall_mem_singleton]
    constructor
    · rintro ⟨hf, hupdate, -⟩ - - -
      have hfar := hu.lt_half_of_inWindow hne hold hf hupdate
      exact ⟨hfar, (inWindow_threshold_iff hfar).mp (hupdate _ mem_cons_self)⟩
    · intro hfits
      obtain ⟨hfar, hth⟩ := hfits hany hne hold
      exact hu.inWindow_of_fits hne hold hfar ((inWindow_threshold_iff hfar).mpr hth)

end Packet

def receive (t : NackTracker) (packet : UInt16 × UInt32) : NackTracker × Unit :=
  (t.updateLastReceivedPacket packet.1 packet.2, ())

/-- Along every run every search of the list is for numbers in a window shorter than half a lap,
which `NackListCompare` orders, exactly if every packet fits the list it meets. -/
theorem searches_ordered_iff {threshold : ℤ} {size : ℕ} {t : NackTracker}
    (hstart : (create threshold).setMaxNackListSize size = some t)
    (packets : List (UInt16 × UInt32)) : (∀ pre packet post, packets = pre ++ packet :: post →
        ∀ q ∈ (runState receive t pre).searches packet.1 packet.2, q.InWindow ∧ q.Ordered) ↔
      ∀ pre packet post, packets = pre ++ packet :: post →
        (runState receive t pre).FitsWindow packet.1 := by
  have hiff : ∀ (u : NackTracker) (packet : UInt16 × UInt32), u.Trimmed →
      ((∀ q ∈ u.searches packet.1 packet.2, q.InWindow ∧ q.Ordered) ↔ u.FitsWindow packet.1) := by
    intro u packet hu
    rw [← hu.inWindow_iff packet.1 packet.2]
    exact ⟨fun h q hq => (h q hq).1, fun h q hq => ⟨h q hq, (h q hq).ordered⟩⟩
  have hk : ∀ (u : NackTracker) (packet : UInt16 × UInt32), u.Trimmed →
      u.FitsWindow packet.1 → (receive u packet).1.Trimmed := fun u packet hu hf =>
    hu.receive (fun hany hne hold => (hf hany hne hold).1) packet.2
  exact forall_calls_iff receive hiff hk (trimmed_start hstart) packets

def lateAfterWrap : List (UInt16 × UInt32) := [(65533, 0), (3, 5760), (0, 2880), (6, 8640)]

theorem searches_ordered_lateAfterWrap : (create 2).setMaxNackListSize 10 = some (tracker 2 10) ∧
    ∀ pre packet post, lateAfterWrap = pre ++ packet :: post →
      ∀ q ∈ (runState receive (tracker 2 10) pre).searches packet.1 packet.2,
        q.InWindow ∧ q.Ordered := by
  have hs : (create 2).setMaxNackListSize 10 = some (tracker 2 10) := rfl
  refine ⟨hs, (searches_ordered_iff hs lateAfterWrap).mpr ?_⟩
  rw [lateAfterWrap]
  simp only [forall_split_cons, forall_split_nil]
  decide +kernel

theorem searches_not_ordered : (create 2).setMaxNackListSize 500 = some (tracker 2 500) ∧
    (⟨[1, 2, 3], 32770⟩ : Search) ∈
      (runState receive (tracker 2 500) [(0, 0), (4, 3840)]).searches 32770 31459200 ∧
    ¬ (⟨[1, 2, 3], 32770⟩ : Search).InWindow ∧ ¬ (⟨[1, 2, 3], 32770⟩ : Search).Ordered ∧
    NackList.compare 1 2 = true ∧ NackList.compare 2 32770 = true ∧
      NackList.compare 32770 1 = true := by
  have hc : ¬ (⟨[1, 2, 3], 32770⟩ : Search).Ordered := by
    intro h
    have ht := h.trans ⟨1, by decide⟩ ⟨2, by decide⟩ ⟨32770, by decide⟩ (by decide) (by decide)
    exact absurd ht (by decide)
  refine ⟨rfl, ?_, fun h => hc h.ordered, hc, by decide, by decide, by decide⟩
  have hk : (runState receive (tracker 2 500) [(0, 0), (4, 3840)]).nackList.map Prod.fst =
      [1, 2, 3] := by decide +kernel
  rw [searches, if_neg (by decide +kernel), if_neg (by decide +kernel), hk]
  exact mem_cons_self

end NackTracker

end WebRtcAudio.NetEq
