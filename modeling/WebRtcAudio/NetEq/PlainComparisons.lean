import WebRtcAudio.NetEq.PacketOrder

/-! Searches that compare timestamps as numbers although the buffer is in circular order. -/
namespace WebRtcAudio.NetEq

open WebRtcAudio.Core AudioCoding List

def CountsPastWrap (t u : UInt32) : Prop := 2 ^ 32 ≤ t.toNat + (u - t).toNat

instance (t u : UInt32) : Decidable (CountsPastWrap t u) := inferInstanceAs (Decidable (_ ≤ _))

theorem le_iff_not_countsPastWrap {t u : UInt32} : t ≤ u ↔ ¬ CountsPastWrap t u := by
  have ht := t.toNat_lt
  have hu := u.toNat_lt
  rw [CountsPastWrap, UInt32.le_iff_toNat_le, UInt32.toNat_sub]
  omega

namespace PacketBuffer

def notOlder (t : UInt32) (p : Packet) : Bool := !isNewerTimestamp t p.timestamp

def firstNotOlder (b : PacketBuffer) (timestamp : UInt32) : Except BufferReturnCode UInt32 :=
  if b.buffer.isEmpty then .error .bufferEmpty
  else
    match b.buffer.find? (notOlder timestamp) with
    | some p => .ok p.timestamp
    | none => .error .notFound

theorem lt_iff_of_older {t : UInt32} {p : Packet} (h : notOlder t p = false) :
    p.timestamp < t ↔ ¬ CountsPastWrap p.timestamp t := by
  have hne : p.timestamp ≠ t := by
    intro heq
    rw [notOlder, heq, isNewerTimestamp] at h
    simp at h
  have hne' : p.timestamp.toNat ≠ t.toNat := fun heq => hne (UInt32.toNat_inj.mp heq)
  rw [← le_iff_not_countsPastWrap, UInt32.le_iff_toNat_le, UInt32.lt_iff_toNat_lt]
  omega

theorem notOlder_of_ascending {base t : UInt32} {p : Packet} {post : List Packet}
    (hwin : InWindowFrom base (p :: post)) (ht : (t - base).toNat < 2 ^ 31 - 1)
    (ha : Ascending (p :: post)) (hp : notOlder t p = true) :
    ∀ q ∈ post, notOlder t q = true := by
  intro q hq
  obtain ⟨hwp, hw⟩ := forall_mem_cons.mp hwin
  have hnew := (pairwise_cons.mp ha).1 q hq
  rw [Packet.isNewerTimestamp_iff (hw q hq) hwp] at hnew
  rw [notOlder, Bool.not_eq_true', Bool.eq_false_iff, ne_eq,
    Packet.isNewerTimestamp_iff ht hwp] at hp
  rw [notOlder, Bool.not_eq_true', Bool.eq_false_iff, ne_eq,
    Packet.isNewerTimestamp_iff ht (hw q hq)]
  omega

/-- The search finds the first packet that is not older exactly if the wrap lies neither between
an older packet and the timestamp nor between the timestamp and that packet. -/
theorem nextHigherTimestamp_iff (b : PacketBuffer) (base timestamp : UInt32)
    (hwindow : InWindowFrom base b.buffer) (htimestamp : (timestamp - base).toNat < 2 ^ 31 - 1)
    (hascending : Ascending b.buffer) :
    b.nextHigherTimestamp timestamp = b.firstNotOlder timestamp ↔
      (∀ p ∈ b.buffer, notOlder timestamp p = false → ¬ CountsPastWrap p.timestamp timestamp) ∧
        ∀ p, b.buffer.find? (notOlder timestamp) = some p →
          ¬ CountsPastWrap timestamp p.timestamp := by
  rw [nextHigherTimestamp, firstNotOlder]
  cases hfind : b.buffer.find? (notOlder timestamp) with
  | none =>
    have ho : ∀ p ∈ b.buffer, notOlder timestamp p = false := by
      simpa using find?_eq_none.mp hfind
    have hc : b.buffer.find? (fun p => decide (timestamp ≤ p.timestamp)) = none ↔
        ∀ p ∈ b.buffer, notOlder timestamp p = false → ¬ CountsPastWrap p.timestamp timestamp := by
      rw [find?_eq_none]
      refine forall₂_congr fun p hp => ?_
      rw [← lt_iff_of_older (ho p hp), decide_eq_true_iff, UInt32.not_le]
      simp [ho p hp]
    rw [← hc]
    split_ifs with he
    · simp [isEmpty_iff.mp he]
    · cases b.buffer.find? (fun p => decide (timestamp ≤ p.timestamp)) <;> simp
  | some p =>
    obtain ⟨hp, pre, post, hbuf, hpre⟩ := find?_eq_some_iff_append.mp hfind
    have hpre' : ∀ q ∈ pre, notOlder timestamp q = false := by simpa using hpre
    have hne : b.buffer.isEmpty = false := by rw [hbuf]; simp
    rw [if_neg (by simp [hne]), if_neg (by simp [hne]), hbuf]
    rw [hbuf] at hwindow hascending
    have hpost := notOlder_of_ascending (forall_mem_append.mp hwindow).2 htimestamp
      (pairwise_append.mp hascending).2.1 hp
    have ho : (∀ q ∈ pre ++ p :: post, notOlder timestamp q = false →
        ¬ CountsPastWrap q.timestamp timestamp) ↔ ∀ q ∈ pre, q.timestamp < timestamp := by
      simp only [forall_mem_append, forall_mem_cons]
      constructor
      · exact fun h q hq => (lt_iff_of_older (hpre' q hq)).mpr (h.1 q hq (hpre' q hq))
      · refine fun h => ⟨fun q hq _ => (lt_iff_of_older (hpre' q hq)).mp (h q hq), ?_, ?_⟩
        · exact fun h => absurd h (by simp [hp])
        · exact fun q hq h => absurd h (by simp [hpost q hq])
    rw [ho]
    simp only [Option.some.injEq, forall_eq', ← le_iff_not_countsPastWrap]
    constructor
    · intro hc
      rw [find?_append] at hc
      cases hf : pre.find? (fun p => decide (timestamp ≤ p.timestamp)) with
      | some r =>
        -- A packet with the timestamp of `p` would not be older.
        have heq : r.timestamp = p.timestamp := by simpa [hf] using hc
        have ho := hpre' r (mem_of_find?_eq_some hf)
        rw [notOlder, heq, ← notOlder, hp] at ho
        exact absurd ho (by simp)
      | none =>
        rw [hf, Option.none_or] at hc
        refine ⟨fun r hr => by simpa using find?_eq_none.mp hf r hr, ?_⟩
        cases hq : (p :: post).find? (fun p => decide (timestamp ≤ p.timestamp)) with
        | none => simp [hq] at hc
        | some q =>
          have heq : q.timestamp = p.timestamp := by simpa [hq] using hc
          have hle := find?_some hq
          exact heq ▸ decide_eq_true_iff.mp hle
    · rintro ⟨hlt, hle⟩
      have hc : (pre ++ p :: post).find? (fun p => decide (timestamp ≤ p.timestamp)) =
          some p := by
        refine find?_eq_some_iff_append.mpr ⟨decide_eq_true_iff.mpr hle, pre, post, rfl, ?_⟩
        exact fun q hq => by simpa using hlt q hq
      rw [hc]

def pcmuPacket (timestamp : UInt32) : Packet :=
  .received timestamp 1 0 ⟨[0xFF], by decide⟩ ⟨1, [], timestamp, none, none, 0⟩

theorem nextHigherTimestamp_pcmuPackets :
    (⟨50, [pcmuPacket 80, pcmuPacket 160, pcmuPacket 240]⟩ : PacketBuffer).nextHigherTimestamp 100 =
      (⟨50, [pcmuPacket 80, pcmuPacket 160, pcmuPacket 240]⟩ : PacketBuffer).firstNotOlder 100 := by
  refine (nextHigherTimestamp_iff _ 80 100 (by decide) (by decide)
    (by unfold Ascending; decide)).mpr
    ⟨by decide, ?_⟩
  intro p hp
  have heq : pcmuPacket 160 = p := Option.some.inj hp
  rw [← heq]
  decide

theorem nextHigherTimestamp_notFound_at_wrap :
    let b : PacketBuffer := ⟨50, [pcmuPacket 16]⟩
    InWindowFrom 0xFFFFFFF0 b.buffer ∧ isNewerTimestamp 16 0xFFFFFFF0 = true ∧
      b.nextHigherTimestamp 0xFFFFFFF0 = .error .notFound ∧
      b.firstNotOlder 0xFFFFFFF0 = .ok 16 := by
  decide

end PacketBuffer

end WebRtcAudio.NetEq
