import WebRtcAudio.Core.Run
import WebRtcAudio.NetEq.PacketOrder

/-! Runs of the packet buffer. -/
namespace WebRtcAudio.NetEq

open WebRtcAudio.Core AudioCoding List

namespace PacketBuffer

inductive Call where
  | insertPacket (tick : ℕ) (packet : Packet)
  | getNextPacket
  | discardNextPacket
  | discardOldPackets (timestampLimit horizonSamples : UInt32)
  | discardPacketsWithPayloadType (payloadType : UInt8)
  | flush

structure State where
  buffer : PacketBuffer
  stats : StatisticsCalculator

def initial (maxNumberOfPackets : ℕ) : State := ⟨⟨maxNumberOfPackets, []⟩, ⟨0, 0, 0⟩⟩

def step (s : State) : Call → State × Option BufferReturnCode
  | .insertPacket tick packet =>
    let r := s.buffer.insertPacket tick packet s.stats
    (⟨r.1, r.2.1⟩, some r.2.2)
  | .getNextPacket => (⟨s.buffer.getNextPacket.1, s.stats⟩, none)
  | .discardNextPacket =>
    let r := s.buffer.discardNextPacket s.stats
    (⟨r.1, r.2.1⟩, some r.2.2)
  | .discardOldPackets timestampLimit horizonSamples =>
    let r := s.buffer.discardOldPackets timestampLimit horizonSamples s.stats
    (⟨r.1, r.2⟩, none)
  | .discardPacketsWithPayloadType payloadType =>
    let r := s.buffer.discardPacketsWithPayloadType payloadType s.stats
    (⟨r.1, r.2⟩, none)
  | .flush => (⟨s.buffer.flush, s.stats⟩, none)

def reached (maxNumberOfPackets : ℕ) (calls : List Call) : State :=
  runState step (initial maxNumberOfPackets) calls

def Full (b : PacketBuffer) : Prop := b.maxNumberOfPackets ≤ b.buffer.length

instance (b : PacketBuffer) : Decidable b.Full := inferInstanceAs (Decidable (_ ≤ _))

def met (b : PacketBuffer) : List Packet := if b.Full then [] else b.buffer

def HasTimestamp (b : PacketBuffer) (timestamp : UInt32) : Prop :=
  timestamp ∈ b.buffer.map Packet.timestamp

instance (b : PacketBuffer) (timestamp : UInt32) : Decidable (b.HasTimestamp timestamp) :=
  inferInstanceAs (Decidable (_ ∈ _))

/-- For each timestamp the packets that were inserted since it was last absent, the last one
first. While a full buffer is flushed all timestamps are absent. -/
abbrev History : Type := UInt32 → List Packet

def History.next (h : History) (b b' : PacketBuffer) (call : Call) : History := fun timestamp =>
  if b'.HasTimestamp timestamp then
    match call with
    | .insertPacket tick packet =>
      if packet.empty then h timestamp
      else
        (if packet.timestamp = timestamp then [{ packet with waitingTime := some tick }] else []) ++
          if b.Full then [] else h timestamp
    | _ => h timestamp
  else []

def historyFrom (s : State) (h : History) : List Call → History
  | [] => h
  | call :: calls =>
    historyFrom (step s call).1 (h.next s.buffer (step s call).1.buffer call) calls

def insertedSince (maxNumberOfPackets : ℕ) (calls : List Call) : History :=
  historyFrom (initial maxNumberOfPackets) (fun _ => []) calls

def IsSmallest (p : Packet) (packets : List Packet) : Prop :=
  p ∈ packets ∧ ∀ base, SequenceWindow base packets → ∀ q ∈ packets, NotLarger base p q

/-- The packets ascend, and each is the smallest of its timestamp in the history. -/
structure Invariant (maxNumberOfPackets : ℕ) (s : State) (h : History) : Prop where
  maxNumberOfPackets_eq : s.buffer.maxNumberOfPackets = maxNumberOfPackets
  ascending : Ascending s.buffer.buffer
  length_le : s.buffer.buffer.length ≤ maxNumberOfPackets
  smallest : ∀ p ∈ s.buffer.buffer, IsSmallest p (h p.timestamp)
  absent : ∀ timestamp, ¬ s.buffer.HasTimestamp timestamp → h timestamp = []

theorem invariant_initial (maxNumberOfPackets : ℕ) :
    Invariant maxNumberOfPackets (initial maxNumberOfPackets) fun _ => [] where
  maxNumberOfPackets_eq := rfl
  ascending := .nil
  length_le := Nat.zero_le _
  smallest := by simp [initial]
  absent _ _ := rfl

variable {p packet : Packet} {back front : List Packet}

theorem hasTimestamp_of_mem {b : PacketBuffer} (h : p ∈ b.buffer) :
    b.HasTimestamp p.timestamp := mem_map_of_mem h

variable {maxNumberOfPackets : ℕ} {s : State} {h : History}

theorem Invariant.of_sublist (hinv : Invariant maxNumberOfPackets s h) {t : State}
    (hmax : t.buffer.maxNumberOfPackets = s.buffer.maxNumberOfPackets)
    (hsub : t.buffer.buffer.Sublist s.buffer.buffer) :
    Invariant maxNumberOfPackets t fun timestamp =>
      if t.buffer.HasTimestamp timestamp then h timestamp else [] where
  maxNumberOfPackets_eq := hmax.trans hinv.maxNumberOfPackets_eq
  ascending := hinv.ascending.sublist hsub
  length_le := hsub.length_le.trans hinv.length_le
  smallest p hp := by
    rw [if_pos (hasTimestamp_of_mem hp)]
    exact hinv.smallest p (hsub.subset hp)
  absent timestamp ha := if_neg ha

theorem isSmallest_singleton (p : Packet) : IsSmallest p [p] :=
  ⟨mem_singleton_self p, fun base _ _ hq => mem_singleton.mp hq ▸ .refl base p⟩

variable {packets : List Packet}

theorem IsSmallest.replace {held : Packet} (h : IsSmallest held packets)
    (heq : packet.timestamp = held.timestamp) (hlt : packet.lt held = true) :
    IsSmallest packet (packet :: packets) := by
  refine ⟨mem_cons_self, fun base hwin => ?_⟩
  obtain ⟨hp, hpa⟩ := forall_mem_cons.mp hwin
  refine forall_mem_cons.mpr ⟨.refl base packet, fun q hq => ?_⟩
  have hh := Packet.notLarger_of_lt hp (hpa held h.1) heq hlt
  exact hh.trans (h.2 base hpa q hq)

theorem IsSmallest.keep {held : Packet} (h : IsSmallest held packets)
    (heq : packet.timestamp = held.timestamp) (hlt : packet.lt held = false) :
    IsSmallest held (packet :: packets) := by
  refine ⟨mem_cons_of_mem packet h.1, fun base hwin => ?_⟩
  obtain ⟨hp, hpa⟩ := forall_mem_cons.mp hwin
  refine forall_mem_cons.mpr ⟨?_, h.2 base hpa⟩
  exact Packet.notLarger_of_not_lt hp (hpa held h.1) heq hlt

variable {base : UInt32}

theorem ascending_insert (hwin : InWindowFrom base (p :: (front ++ back)))
    (ha : Ascending (front ++ back)) (hplace : Place base p.timestamp front back) :
    Ascending (front ++ p :: back) := by
  obtain ⟨hp, hr⟩ := forall_mem_cons.mp hwin
  obtain ⟨hw, hwback⟩ := forall_mem_append.mp hr
  rw [ascending_iff hr, pairwise_append] at ha
  obtain ⟨hpfront, hpback, hc⟩ := ha
  have hwin' : InWindowFrom base (front ++ p :: back) :=
    forall_mem_append.mpr ⟨hw, forall_mem_cons.mpr ⟨hp, hwback⟩⟩
  rw [ascending_iff hwin', pairwise_append, pairwise_cons]
  refine ⟨hpfront, ⟨hplace.back, hpback⟩, fun q hq => forall_mem_cons.mpr ⟨hplace.front q hq, ?_⟩⟩
  exact hc q hq

def countedFlush (s : State) : StatisticsCalculator :=
  if s.buffer.Full then s.stats.flushedPacketBuffer else s.stats

theorem step_insertPacket (s : State) (tick : ℕ)
    (he : packet.empty = false) (hp : p = { packet with waitingTime := some tick }) :
    step s (.insertPacket tick packet) =
      (⟨{ s.buffer with buffer := (insertSorted p s.buffer.met (countedFlush s)).1 },
        (insertSorted p s.buffer.met (countedFlush s)).2⟩,
        some (if s.buffer.Full then .flushed else .ok)) := by
  simp only [step, insertPacket, met, countedFlush, he, hp, Bool.false_eq_true, if_false]
  by_cases hf : s.buffer.Full
  · simp only [hf, if_true, if_pos (show _ ≤ _ from hf)]
    rfl
  · simp only [hf, if_false, if_neg (show ¬ _ ≤ _ from hf)]

theorem exists_place (ha : Ascending s.buffer.met)
    (hwin : InWindow (packet :: s.buffer.buffer)) (hp : p.timestamp = packet.timestamp) :
    ∃ base front back, InWindowFrom base (p :: s.buffer.met) ∧ Place base p.timestamp front back ∧
      (s.buffer.met = front ++ back ∧
          insertSorted p s.buffer.met (countedFlush s) = (front ++ p :: back, countedFlush s) ∨
        ∃ held, held.timestamp = p.timestamp ∧ s.buffer.met = front ++ held :: back ∧
          insertSorted p s.buffer.met (countedFlush s) = if p.lt held then (front ++ p :: back,
              logPacketDiscarded held.priority.codecLevel (countedFlush s))
            else (front ++ held :: back,
              logPacketDiscarded p.priority.codecLevel (countedFlush s))) := by
  obtain ⟨base, hb⟩ := hwin
  obtain ⟨hpacket, hbuf⟩ := forall_mem_cons.mp hb
  have hb' : InWindowFrom base (p :: s.buffer.met) := by
    refine forall_mem_cons.mpr ⟨hp ▸ hpacket, fun q hq => hbuf q ?_⟩
    unfold met at hq
    split_ifs at hq
    · exact absurd hq not_mem_nil
    · exact hq
  obtain ⟨front, back, hplace⟩ := insertSorted_cases hb' ha (countedFlush s)
  exact ⟨base, front, back, hb', hplace⟩

theorem Invariant.ofMet (hinv : Invariant maxNumberOfPackets s h) (hmax : 1 ≤ maxNumberOfPackets) :
    Ascending s.buffer.met ∧ s.buffer.met.length + 1 ≤ maxNumberOfPackets ∧
      (∀ p ∈ s.buffer.met, IsSmallest p (if s.buffer.Full then [] else h p.timestamp)) ∧
      ∀ timestamp, (∀ p ∈ s.buffer.met, p.timestamp ≠ timestamp) →
        (if s.buffer.Full then [] else h timestamp) = [] := by
  unfold PacketBuffer.met
  by_cases hf : s.buffer.Full
  · simp only [hf, if_true]
    exact ⟨.nil, hmax, by simp, by simp⟩
  · simp only [hf, if_false]
    refine ⟨hinv.ascending, ?_, hinv.smallest, fun timestamp hne => hinv.absent timestamp ?_⟩
    · rw [Full, hinv.maxNumberOfPackets_eq] at hf
      omega
    · rintro hmem
      obtain ⟨p, hp, heq⟩ := mem_map.mp hmem
      exact hne p hp heq

theorem next_insertPacket (h : History) (b b' : PacketBuffer) (tick : ℕ)
    (he : packet.empty = false) (hp : p = { packet with waitingTime := some tick })
    {q : Packet} (hq : q ∈ b'.buffer) :
    h.next b b' (.insertPacket tick packet) q.timestamp =
      if p.timestamp = q.timestamp then p :: (if b.Full then [] else h q.timestamp)
      else if b.Full then [] else h q.timestamp := by
  rw [History.next, if_pos (hasTimestamp_of_mem hq)]
  simp only [he, Bool.false_eq_true, if_false, hp]
  split_ifs <;> rfl

/-- The invariant when `x` is the packet that is held afterwards for the timestamp of the new
packet `p`, and the other packets are among those that were there. -/
theorem Invariant.place (hinv : Invariant maxNumberOfPackets s h) (hmax : 1 ≤ maxNumberOfPackets)
    {tick : ℕ} (he : packet.empty = false) (hp : p = { packet with waitingTime := some tick })
    (hb : InWindowFrom base (p :: s.buffer.met)) (hplace : Place base p.timestamp front back)
    (hsub : (front ++ back).Sublist s.buffer.met) {x : Packet} (hx : x.timestamp = p.timestamp)
    (hxsm : IsSmallest x (p :: if s.buffer.Full then [] else h x.timestamp)) {t : State}
    (ht : t.buffer = { s.buffer with buffer := front ++ x :: back }) :
    Invariant maxNumberOfPackets t (h.next s.buffer t.buffer (.insertPacket tick packet)) := by
  obtain ⟨ha, hlen, hs, -⟩ := hinv.ofMet hmax
  have hl : t.buffer.buffer = front ++ x :: back := by rw [ht]
  have hwin : InWindowFrom base (x :: (front ++ back)) := by
    rw [InWindowFrom, forall_mem_cons, hx]
    obtain ⟨h₁, h₂⟩ := forall_mem_cons.mp hb
    exact ⟨h₁, fun q hq => h₂ q (hsub.subset hq)⟩
  refine ⟨?_, ?_, ?_, fun q hq => ?_, fun timestamp habsent => if_neg habsent⟩
  · rw [ht]
    exact hinv.maxNumberOfPackets_eq
  · rw [hl]
    exact ascending_insert hwin (ha.sublist hsub) (hx ▸ hplace)
  · have hle := hsub.length_le
    rw [length_append] at hle
    rw [hl, length_append, length_cons]
    omega
  · rw [next_insertPacket h _ _ tick he hp hq]
    rw [hl, mem_append, mem_cons] at hq
    by_cases hqx : q = x
    · rw [hqx, if_pos hx.symm]
      exact hxsm
    · have hmem : q ∈ front ++ back := by
        rw [mem_append]
        tauto
      rw [if_neg (hplace.ne hmem).symm]
      exact hs q (hsub.subset hmem)

theorem Invariant.afterInsert (hinv : Invariant maxNumberOfPackets s h)
    (hmax : 1 ≤ maxNumberOfPackets) (tick : ℕ) (hwin : InWindow (packet :: s.buffer.buffer)) :
    Invariant maxNumberOfPackets (step s (.insertPacket tick packet)).1
      (h.next s.buffer (step s (.insertPacket tick packet)).1.buffer
        (.insertPacket tick packet)) := by
  cases he : packet.empty with
  | true =>
    have hsame : (step s (.insertPacket tick packet)).1 = s := by
      simp [step, PacketBuffer.insertPacket, he]
    have hn : h.next s.buffer s.buffer (.insertPacket tick packet) = fun timestamp =>
        if s.buffer.HasTimestamp timestamp then h timestamp else [] := by
      funext timestamp
      simp only [History.next, he, if_true]
    rw [hsame, hn]
    exact hinv.of_sublist rfl (List.Sublist.refl _)
  | false =>
    obtain ⟨ha, -, hs, habsent⟩ := hinv.ofMet hmax
    obtain ⟨p, hp⟩ : ∃ p, p = { packet with waitingTime := some tick } := ⟨_, rfl⟩
    obtain ⟨base, front, back, hb, hplace, hc⟩ :=
      exists_place ha hwin (p := p) (by rw [hp])
    have hbuf := congrArg (fun r => r.1.buffer) (step_insertPacket s tick he hp)
    dsimp only at hbuf
    rcases hc with ⟨hm, hi⟩ | ⟨held, hh, hm, hi⟩
    · have hsingle : IsSmallest p (p :: if s.buffer.Full then [] else h p.timestamp) := by
        rw [habsent p.timestamp fun q hq => hplace.ne (hm ▸ hq)]
        exact isSmallest_singleton p
      rw [hi] at hbuf
      exact hinv.place hmax he hp hb hplace (hm ▸ List.Sublist.refl _) rfl hsingle hbuf
    · have hsub : (front ++ back).Sublist s.buffer.met := by
        rw [hm]
        exact List.Sublist.append_left (sublist_cons_self held back) front
      have hold := hs held (by rw [hm]; simp)
      rw [hi] at hbuf
      cases hlt : p.lt held with
      | true =>
        rw [hlt, if_pos rfl] at hbuf
        refine hinv.place hmax he hp hb hplace hsub rfl ?_ hbuf
        rw [← hh]
        exact hold.replace hh.symm hlt
      | false =>
        rw [hlt, if_neg (by decide)] at hbuf
        exact hinv.place hmax he hp hb hplace hsub hh (hold.keep hh.symm hlt) hbuf

def CallInWindow (s : State) : Call → Prop
  | .insertPacket _ packet => InWindow (packet :: s.buffer.buffer)
  | _ => True

theorem Invariant.afterStep (hinv : Invariant maxNumberOfPackets s h)
    (hmax : 1 ≤ maxNumberOfPackets)
    {call : Call} (hwin : CallInWindow s call) : Invariant maxNumberOfPackets (step s call).1
      (h.next s.buffer (PacketBuffer.step s call).1.buffer call) := by
  cases call with
  | insertPacket tick packet => exact hinv.afterInsert hmax tick hwin
  | getNextPacket => exact hinv.of_sublist rfl (tail_sublist _)
  | discardNextPacket =>
    refine hinv.of_sublist ?_ ?_
    · simp only [PacketBuffer.step, discardNextPacket]
      split <;> rfl
    · simp only [PacketBuffer.step, discardNextPacket]
      split
      next hnil => exact List.Sublist.refl _
      next p buffer hc => exact hc ▸ sublist_cons_self p buffer
  | discardOldPackets timestampLimit ho => exact hinv.of_sublist rfl filter_sublist
  | discardPacketsWithPayloadType payloadType => exact hinv.of_sublist rfl filter_sublist
  | flush => exact hinv.of_sublist rfl (nil_sublist _)

theorem Invariant.afterRun (hinv : Invariant maxNumberOfPackets s h) (hmax : 1 ≤ maxNumberOfPackets)
    {calls : List Call} (hwin : ∀ pre call post, calls = pre ++ call :: post →
      CallInWindow (runState PacketBuffer.step s pre) call) :
    Invariant maxNumberOfPackets (runState PacketBuffer.step s calls) (historyFrom s h calls) := by
  induction calls generalizing s h with
  | nil => exact hinv
  | cons call calls ih =>
    refine ih (hinv.afterStep hmax (hwin [] call calls rfl)) fun pre next post hc => ?_
    exact hwin (call :: pre) next post (by rw [hc]; rfl)

def loser (packet held : Packet) : Packet := if packet.lt held then held else packet

def winner (packet held : Packet) : Packet := if packet.lt held then packet else held

/-- What the insertion of a packet that is not empty returns and counts. A packet that loses
against one with the same timestamp is counted once, by its codec level, and is gone. -/
structure Settles (s : State) (tick : ℕ) (packet : Packet) : Prop where
  flushed_iff : (step s (.insertPacket tick packet)).2 = some .flushed ↔ s.buffer.Full
  unopposed : (∀ held ∈ s.buffer.met, held.timestamp ≠ packet.timestamp) →
    (step s (.insertPacket tick packet)).1.stats = countedFlush s
  opposed : ∀ held ∈ s.buffer.met, held.timestamp = packet.timestamp →
    (step s (.insertPacket tick packet)).1.stats =
        logPacketDiscarded (loser packet held).priority.codecLevel (countedFlush s) ∧
      ((step s (.insertPacket tick packet)).1.buffer.buffer.filter fun q =>
          decide (q.timestamp = packet.timestamp)) =
        [winner { packet with waitingTime := some tick } held]

theorem filter_timestamp_eq {x : Packet} (hp : Place base x.timestamp front back) :
    ((front ++ x :: back).filter fun q => decide (q.timestamp = x.timestamp)) = [x] := by
  have hnil : ∀ l : List Packet, l ⊆ front ++ back →
      (l.filter fun q => decide (q.timestamp = x.timestamp)) = [] := by
    intro l hl
    exact filter_eq_nil_iff.mpr fun q hq => by simpa using hp.ne (hl hq)
  rw [filter_append, filter_cons_of_pos (by simp), hnil front (subset_append_left _ _),
    hnil back (subset_append_right _ _)]
  rfl

theorem settles (ha : Ascending s.buffer.buffer) (tick : ℕ)
    (he : packet.empty = false) (hwin : InWindow (packet :: s.buffer.buffer)) :
    Settles s tick packet := by
  have hm : Ascending s.buffer.met := by
    unfold met
    split_ifs
    · exact .nil
    · exact ha
  obtain ⟨p, hp⟩ : ∃ p, p = { packet with waitingTime := some tick } := ⟨_, rfl⟩
  have ht : packet.timestamp = p.timestamp := by rw [hp]
  obtain ⟨base, front, back, -, hplace, hc⟩ := exists_place hm hwin ht.symm
  have hs := step_insertPacket s tick he hp
  refine ⟨?_, fun hn => ?_, fun held hh heq => ?_⟩
  · rw [hs]
    by_cases hf : s.buffer.Full <;> simp [hf]
  · rcases hc with ⟨-, hi⟩ | ⟨held, hh, hl, -⟩
    · rw [hs, hi]
    · exact absurd (hh.trans ht.symm) (hn held (by rw [hl]; simp))
  · rw [ht] at heq
    rcases hc with ⟨hl, -⟩ | ⟨held', hh', hl, hi⟩
    · exact absurd heq (hplace.ne (hl ▸ hh))
    · obtain rfl : held = held' := by
        by_contra hne
        refine hplace.ne ?_ heq
        rw [hl] at hh
        simpa [hne] using hh
      have hlt : packet.lt held = p.lt held := by rw [hp]; rfl
      have hpriority : packet.priority = p.priority := by rw [hp]
      rw [hs, hi, loser, winner, ← hp, hlt, ht]
      cases p.lt held with
      | true => exact ⟨rfl, filter_timestamp_eq hplace⟩
      | false =>
        constructor
        · change logPacketDiscarded p.priority.codecLevel _ =
            logPacketDiscarded packet.priority.codecLevel _
          rw [hpriority]
        · rw [← heq] at hplace ⊢
          exact filter_timestamp_eq hplace

/-- The buffer after any calls, and every insertion on the way. -/
theorem packetBuffer_run (maxNumberOfPackets : ℕ) (hmax : 1 ≤ maxNumberOfPackets)
    (calls : List Call) (hwindow : ∀ pre call post, calls = pre ++ call :: post →
      CallInWindow (reached maxNumberOfPackets pre) call) :
    (Ascending (reached maxNumberOfPackets calls).buffer.buffer ∧
      (reached maxNumberOfPackets calls).buffer.buffer.length ≤ maxNumberOfPackets ∧
      ∀ p ∈ (reached maxNumberOfPackets calls).buffer.buffer,
        IsSmallest p (insertedSince maxNumberOfPackets calls p.timestamp)) ∧
    ∀ pre tick packet post, calls = pre ++ .insertPacket tick packet :: post →
      packet.empty = false → Settles (reached maxNumberOfPackets pre) tick packet := by
  have hr : ∀ pre post, calls = pre ++ post →
      Invariant maxNumberOfPackets (reached maxNumberOfPackets pre)
        (insertedSince maxNumberOfPackets pre) := by
    intro pre post hc
    refine (invariant_initial maxNumberOfPackets).afterRun hmax fun pre' call post' hpre => ?_
    refine hwindow pre' call (post' ++ post) ?_
    rw [hc, hpre, append_assoc]
    rfl
  obtain ⟨-, ha, hlen, hs, -⟩ := hr calls [] (append_nil calls).symm
  refine ⟨⟨ha, hlen, hs⟩, fun pre tick packet post hc he => ?_⟩
  have hwindow' := hwindow pre (.insertPacket tick packet) post hc
  exact settles (hr pre _ hc).ascending tick he hwindow'

def packetOfSize (timestamp : UInt32) (sequenceNumber : UInt16) (n : Fin 8) : Packet :=
  .received timestamp sequenceNumber 0
    ⟨replicate n 0, by rw [length_replicate]; omega⟩ ⟨1, [], timestamp, none, none, 0⟩

/-- A packet before the wrap, an older one behind it in the sequence, a packet after the wrap that
flushes the buffer, and an empty packet. -/
def wrappingCalls : List Call :=
  [.insertPacket 0 (packetOfSize 0xFFFFFFF0 65535 4), .insertPacket 1 (packetOfSize 0xFFFFFFF0 3 4),
    .insertPacket 2 (packetOfSize 0xFFFFFF00 65534 4), .insertPacket 3 (packetOfSize 16 4 4),
    .insertPacket 4 (packetOfSize 16 4 0), .getNextPacket]

theorem packetBuffer_run_wrappingCalls :
    (∀ pre call post, wrappingCalls = pre ++ call :: post → CallInWindow (reached 2 pre) call) ∧
      Ascending (reached 2 wrappingCalls).buffer.buffer ∧
      Settles (reached 2 (wrappingCalls.take 1)) 1 (packetOfSize 0xFFFFFFF0 3 4) := by
  have hw : ∀ pre call post, wrappingCalls = pre ++ call :: post →
      CallInWindow (reached 2 pre) call := by
    simp only [wrappingCalls, forall_split_cons, forall_split_nil, and_true]
    refine ⟨⟨0xFFFFFF00, ?_⟩, ⟨0xFFFFFF00, ?_⟩, ⟨0xFFFFFF00, ?_⟩, ⟨0xFFFFFF00, ?_⟩,
      ⟨0xFFFFFF00, ?_⟩, trivial⟩ <;> decide
  have hrun := packetBuffer_run 2 (by decide) wrappingCalls hw
  exact ⟨hw, hrun.1.1, hrun.2 (wrappingCalls.take 1) 1 _ _ rfl (by decide)⟩

theorem insertPacket_empty_of_full :
    (reached 1 [.insertPacket 0 (packetOfSize 0 0 4)]).buffer.Full ∧
      CallInWindow (reached 1 [.insertPacket 0 (packetOfSize 0 0 4)])
        (.insertPacket 1 (packetOfSize 160 1 0)) ∧
      (step (reached 1 [.insertPacket 0 (packetOfSize 0 0 4)])
        (.insertPacket 1 (packetOfSize 160 1 0))).2 = some .invalidPacket :=
  ⟨by decide, ⟨0, by decide⟩, by decide⟩

end PacketBuffer

end WebRtcAudio.NetEq
