import WebRtcAudio.Core.ClampedSum
import WebRtcAudio.NetEq.ComfortNoiseDiscard
import WebRtcAudio.NetEq.DelayManager
import WebRtcAudio.NetEq.HistogramRuns
import WebRtcAudio.NetEq.NackList

/-! The relative delay that `Update` returns: the rise against the earliest packet of the history.
-/
namespace WebRtcAudio.NetEq

open WebRtcAudio.Core List Option Function

/-- A stream of packets in their order, some of which are lost: packet `k` of those that arrive has
the number `number k`, which is sent modulo `2 ^ 16`, and comes at the tick `tick k`. -/
structure InOrderStream where
  sampleRateHz : ℕ
  lengthMs : ℕ
  /-- The samples of a packet. -/
  samples : ℕ
  msPerTick : ℕ
  /-- The timestamp that belongs to the number 0. -/
  firstTimestamp : UInt32
  number : ℕ → ℕ
  tick : ℕ → ℕ
  /-- What a stopwatch started at the first tick shows at the second. -/
  elapsedMs : ℕ → ℕ → ℕ
  elapsed_eq : ∀ start now, elapsedMs start now = (now - start) * msPerTick
  rate_pos : 0 < sampleRateHz
  length_pos : 0 < lengthMs
  samples_eq : 1000 * samples = lengthMs * sampleRateHz
  number_lt : ∀ k, number k < number (k + 1)
  number_gap : ∀ k, number (k + 1) < number k + 2 ^ 15
  tick_le : ∀ k, tick k ≤ tick (k + 1)

namespace InOrderStream
variable (p : InOrderStream)

def sequenceNumber (k : ℕ) : UInt16 := UInt16.ofNat (p.number k)

def timestamp (k : ℕ) : UInt32 := p.firstTimestamp + UInt32.ofNat (p.samples * p.number k)

def arrivalMs (k : ℕ) : ℕ := p.tick k * p.msPerTick

def timer (k : ℕ) : TickTimer := ⟨p.tick k, fun start => p.elapsedMs start (p.tick k)⟩

def call (k : ℕ) : TickTimer × DelayManagerCall :=
  (p.timer k, .update (p.sequenceNumber k) (p.timestamp k) p.sampleRateHz)

def inHistory (n j : ℕ) : Bool :=
  decide ((p.lengthMs * (p.number n - p.number (j + 1)) : ℕ) ≤ kMaxHistoryMs)

def delaySince (n j : ℕ) : ℤ :=
  ((p.arrivalMs n : ℤ) - p.arrivalMs j) - p.lengthMs * ((p.number n : ℤ) - p.number j)

def relativeDelay (n : ℕ) : ℤ :=
  (((range n).filter (p.inHistory n)).map (p.delaySince n)).foldr max 0

def calls (n : ℕ) : List (TickTimer × DelayManagerCall) := (range (n + 1)).map p.call

def relativeDelays (n : ℕ) : List DelayManagerResult :=
  .relativeDelay none ::
    (range n).map fun k => .relativeDelay (some (p.relativeDelay (k + 1)))

/-- The numbers up to packet `n` fit in an `int`: times between packets, the largest age of the
history and the delays. Timestamps of consecutive packets are in order. -/
structure Fits (n : ℕ) : Prop where
  samples : ∀ k < n, p.samples * (p.number (k + 1) - p.number k) < 2 ^ 31
  length : ∀ k < n, p.lengthMs * (p.number (k + 1) - p.number k) < 2 ^ 31
  arrival : ∀ k < n, p.arrivalMs (k + 1) - p.arrivalMs k < 2 ^ 31
  history : kMaxHistoryMs * p.sampleRateHz < 2 ^ 31
  delays : ∀ k ≤ n, p.relativeDelay k < 2 ^ 31

variable {p} {n j k : ℕ}

theorem Fits.mono (h : p.Fits n) (hk : k ≤ n) : p.Fits k where
  samples i hi := h.samples i (by omega)
  length i hi := h.length i (by omega)
  arrival i hi := h.arrival i (by omega)
  history := h.history
  delays i hi := h.delays i (by omega)

theorem calls_succ (p : InOrderStream) (n : ℕ) :
    p.calls (n + 1) = p.calls n ++ [p.call (n + 1)] := by
  rw [calls, range_succ, map_append]
  rfl

theorem relativeDelays_succ (p : InOrderStream) (n : ℕ) : p.relativeDelays (n + 1) =
      p.relativeDelays n ++ [.relativeDelay (some (p.relativeDelay (n + 1)))] := by
  rw [relativeDelays, range_succ, map_append]
  rfl

theorem number_mono (h : j ≤ n) : p.number j ≤ p.number n :=
  (strictMono_nat_of_lt_succ p.number_lt).monotone h

theorem samples_pos (p : InOrderStream) : 0 < p.samples := by
  have hpos := Nat.mul_pos p.length_pos p.rate_pos
  have heq := p.samples_eq
  omega

theorem sequenceNumber_sub (p : InOrderStream) (n : ℕ) :
    (p.sequenceNumber (n + 1) - p.sequenceNumber n).toNat = p.number (n + 1) - p.number n := by
  have hlt := p.number_lt n
  have hgap := p.number_gap n
  rw [sequenceNumber, sequenceNumber, UInt16.toNat_sub, UInt16.toNat_ofNat', UInt16.toNat_ofNat']
  omega

theorem timestamp_sub (hle : j ≤ n) (hlt : p.samples * (p.number n - p.number j) < 2 ^ 32) :
    (p.timestamp n - p.timestamp j).toNat = p.samples * (p.number n - p.number j) := by
  have hs : p.samples * p.number n =
      p.samples * p.number j + p.samples * (p.number n - p.number j) := by
    rw [← Nat.mul_add, Nat.add_sub_cancel' (number_mono hle)]
  rw [timestamp, timestamp, UInt32.toNat_sub, UInt32.toNat_add, UInt32.toNat_add,
    UInt32.toNat_ofNat', UInt32.toNat_ofNat', hs]
  generalize p.samples * (p.number n - p.number j) = distance at *
  generalize p.samples * p.number j = start at *
  omega

theorem length_mul_le_iff (p : InOrderStream) (distance : ℕ) :
    ((p.lengthMs * distance : ℕ) : ℤ) ≤ kMaxHistoryMs ↔
      p.samples * distance ≤ 2 * p.sampleRateHz := by
  have heq : 1000 * (p.samples * distance) = p.lengthMs * distance * p.sampleRateHz := by
    rw [← Nat.mul_assoc, p.samples_eq, Nat.mul_right_comm]
  have hmax : kMaxHistoryMs = (2000 : ℕ) := rfl
  rw [hmax, Int.ofNat_le]
  generalize p.lengthMs * distance = age at *
  have hrate := p.rate_pos
  constructor
  · intro h
    have hle := Nat.mul_le_mul_right p.sampleRateHz h
    omega
  · intro h
    by_contra hlt
    have hle := Nat.mul_le_mul_right p.sampleRateHz (Nat.succ_le_of_lt (Nat.lt_of_not_le hlt))
    rw [Nat.succ_mul] at hle
    omega

theorem inHistory_of_le (hle : k ≤ n) (h : p.inHistory n j = true) : p.inHistory k j = true := by
  unfold inHistory at *
  have hmono := Nat.mul_le_mul_left p.lengthMs
    (Nat.sub_le_sub_right (number_mono (p := p) hle) (p.number (j + 1)))
  simp only [decide_eq_true_eq] at *
  omega

theorem inHistory_of_ge (hle : j ≤ k) (h : p.inHistory n j = true) : p.inHistory n k = true := by
  unfold inHistory at *
  have hmono := Nat.mul_le_mul_left p.lengthMs
    (Nat.sub_le_sub_left (number_mono (p := p) (Nat.add_le_add_right hle 1)) (p.number n))
  simp only [decide_eq_true_eq] at *
  omega

def window (p : InOrderStream) (n : ℕ) : List ℕ := (range n).filter (p.inHistory n)

theorem window_succ (p : InOrderStream) (n : ℕ) :
    (p.window n ++ [n]).filter (p.inHistory (n + 1)) = p.window (n + 1) := by
  have hk : ∀ j ∈ List.range n,
      (p.inHistory (n + 1) j && p.inHistory n j) = p.inHistory (n + 1) j := by
    intro j _
    cases hj : p.inHistory (n + 1) j with
    | false => rfl
    | true => rw [inHistory_of_le (Nat.le_succ n) hj, Bool.and_true]
  rw [window, window, range_succ, filter_append, filter_append, List.filter_filter,
    filter_congr hk]

theorem exists_window_eq_drop (p : InOrderStream) (n : ℕ) :
    ∃ first ≤ n, p.window n = (range n).drop first :=
  exists_filter_range_eq_drop fun _ _ hij _ hi => inHistory_of_ge hij hi

def lateness (p : InOrderStream) (k : ℕ) : ℤ := p.arrivalMs k - p.lengthMs * p.number k

theorem relativeDelay_eq (p : InOrderStream) (n : ℕ) :
    p.relativeDelay n = largestRise p.lateness (p.window n) n := by
  have hd : p.delaySince n = fun j => p.lateness n - p.lateness j := by
    funext j
    rw [delaySince, lateness, lateness, Int.mul_sub]
    omega
  rw [relativeDelay, largestRise, window, hd]

theorem lateness_sub (p : InOrderStream) (k : ℕ) :
    p.lateness (k + 1) - p.lateness k = ((p.arrivalMs (k + 1) - p.arrivalMs k : ℕ) : ℤ) -
      (p.lengthMs * (p.number (k + 1) - p.number k) : ℕ) := by
  have hlt := p.number_lt k
  have hle : p.arrivalMs k ≤ p.arrivalMs (k + 1) :=
    Nat.mul_le_mul_right p.msPerTick (p.tick_le k)
  rw [lateness, lateness, Nat.cast_sub hle, Nat.cast_mul, Nat.cast_sub hlt.le, Int.mul_sub]
  omega

theorem largestRise_le_relativeDelay {first : ℕ} (hwin : p.window n = (range n).drop first)
    (hk : k ≤ n) : largestRise p.lateness ((range k).drop first) k ≤ p.relativeDelay k := by
  rw [relativeDelay_eq]
  refine largestRise_le (largestRise_nonneg _ _ _) fun j hj => le_largestRise ?_
  have hr : j ∈ range k := mem_of_mem_drop hj
  have ht : (range k).drop first = ((range n).drop first).take (k - first) := by
    rw [← drop_take, take_range, Nat.min_eq_left hk]
  have hmem : j ∈ p.window n := by
    rw [hwin]
    rw [ht] at hj
    exact mem_of_mem_take hj
  exact mem_filter.mpr ⟨hr, inHistory_of_le hk (mem_filter.mp hmem).2⟩

def entry (p : InOrderStream) (j : ℕ) : PacketDelay :=
  ⟨p.lateness (j + 1) - p.lateness j, p.timestamp (j + 1)⟩

end InOrderStream

namespace DelayManagerState
variable {m : DelayManagerState}

structure Healthy (m : DelayManagerState) : Prop where
  histogram : ∃ base start, Histogram.Valid kDelayBuckets base start m.histogram ∧ base ≤ 2 ^ 15
  quantile_le : m.histogramQuantile ≤ 2 ^ 30
  effective_lt : m.effectiveMinimumDelayMs < 2 ^ 23
  maximum_lt : m.maximumDelayMs < 2 ^ 23

theorem Healthy.calculateTargetLevel (h : m.Healthy) :
    ∃ baseTargetLevel targetLevel, m.calculateTargetLevel? =
      some { m with baseTargetLevel := baseTargetLevel, targetLevel := targetLevel } := by
  obtain ⟨base, start, hval, -⟩ := h.histogram
  obtain ⟨index, hi, hlt, -⟩ := hval.distribution.quantile h.quantile_le
  rw [hval.distribution.length_eq] at hlt
  have hback : kDelayBuckets = 100 := rfl
  have hb : kBucketSizeMs = 20 := rfl
  have hn : (0 : ℤ) ≤ index * kBucketSizeMs := by
    rw [hb]
    omega
  have hbound : index * kBucketSizeMs < 2000 := by
    rw [hb]
    omega
  simp only [calculateTargetLevel?, hi, bind_eq_bind, bind_some]
  by_cases hlen : 0 < m.packetLenMs
  · have hdiv := Int.tdiv_le_self m.packetLenMs hn
    have hd := Int.tdiv_nonneg hn hlen.le
    rw [if_pos hlen, int32?_eq_some (by omega), bind_some,
      int32?_eq_some (by omega), bind_some,
      int32?_eq_some (by omega), bind_some]
    exact ⟨_, _, rfl⟩
  · rw [if_neg hlen, bind_some, int32?_eq_some (by decide), bind_some]
    exact ⟨_, _, rfl⟩

theorem Healthy.limitTargetLevel (h : m.Healthy) :
    ∃ targetLevel, m.limitTargetLevel? = some { m with targetLevel := targetLevel } := by
  have he := h.effective_lt
  have hmxm := h.maximum_lt
  have hs (c : Prop) [Decidable c] {delayMs : ℤ} (hc : c → 0 < delayMs ∧ delayMs < 2 ^ 23)
      (f : ℤ → ℤ) (level : ℤ) : ∃ limited, (if c then (int32? (delayMs * 2 ^ 8)).bind fun scaled =>
        some (f scaled) else some level) = some limited := by
    split_ifs with hset
    · have hr := hc hset
      rw [int32?_eq_some (by omega)]
      exact ⟨_, rfl⟩
    · exact ⟨_, rfl⟩
  obtain ⟨level, hlevel⟩ := hs (0 < m.packetLenMs ∧ 0 < m.effectiveMinimumDelayMs)
    (fun hset => ⟨hset.2, he⟩) (fun scaled => max m.targetLevel (scaled.tdiv m.packetLenMs))
    m.targetLevel
  obtain ⟨limited, hl⟩ := hs (0 < m.maximumDelayMs ∧ 0 < m.packetLenMs)
    (fun hset => ⟨hset.1, hmxm⟩) (fun scaled => min level (scaled.tdiv m.packetLenMs)) level
  simp only [limitTargetLevel?, bind_eq_bind, hlevel, bind_some, hl]
  exact ⟨_, rfl⟩

theorem Healthy.updateStatistics (h : m.Healthy) {relativeDelay : ℤ} (hd : 0 ≤ relativeDelay) :
    ∃ t, m.updateStatistics? relativeDelay = some t ∧ t.Healthy ∧
      t.firstPacketReceived = m.firstPacketReceived ∧ t.delayHistory = m.delayHistory := by
  obtain ⟨base, start, hval, hb⟩ := h.histogram
  have hi : 0 ≤ relativeDelay.tdiv kBucketSizeMs := Int.tdiv_nonneg hd (by decide)
  have hhistogram : ∃ histogram, (if relativeDelay.tdiv kBucketSizeMs < m.histogram.buckets.length
      then m.histogram.add (relativeDelay.tdiv kBucketSizeMs) else some m.histogram) =
        some histogram ∧ Histogram.Valid kDelayBuckets base start histogram := by
    split_ifs with hlt
    · rw [hval.distribution.length_eq] at hlt
      obtain ⟨histogram, hadd, hval', -⟩ := hval.add (by decide) hb ⟨hi, hlt⟩
      exact ⟨histogram, hadd, hval'⟩
    · exact ⟨m.histogram, rfl, hval⟩
  obtain ⟨histogram, hadd, hval'⟩ := hhistogram
  have hh : Healthy { m with histogram := histogram } :=
    ⟨⟨base, start, hval', hb⟩, h.quantile_le, h.effective_lt, h.maximum_lt⟩
  obtain ⟨baseTargetLevel, targetLevel, hc⟩ := hh.calculateTargetLevel
  have hh' : Healthy { m with
      histogram := histogram
      baseTargetLevel := baseTargetLevel
      targetLevel := targetLevel } := { hh with }
  obtain ⟨limited, hl⟩ := hh'.limitTargetLevel
  refine ⟨{ m with
      histogram := histogram
      baseTargetLevel := baseTargetLevel
      targetLevel := limited }, ?_, { hh with }, rfl, rfl⟩
  simp only [updateStatistics?, bind_eq_bind, hadd, bind_some, hc, hl]

section Packet
variable {timer : TickTimer} {sequenceNumber : UInt16} {timestamp : UInt32} {gap : ℕ}

section
variable (hgap : (sequenceNumber - m.lastSeqNo).toNat = gap) (hpos : 0 < gap) (hlt : gap < 2 ^ 15)
include hgap hpos hlt

theorem isNewer_next : isNewerSequenceNumber sequenceNumber m.lastSeqNo = true ∧
      (isNewerSequenceNumber sequenceNumber (m.lastSeqNo + 1) = true ↔ 1 < gap) := by
  have hn := uint16_sub_succ (a := sequenceNumber) (b := m.lastSeqNo) (by omega)
  rw [isNewerSequenceNumber_iff, isNewerSequenceNumber_iff, hn, hgap]
  omega

theorem reordered_next : m.reordered sequenceNumber = false := by
  rw [reordered, (isNewer_next hgap hpos hlt).1, Bool.not_true, Bool.and_false]

variable {lengthMs : ℕ}

theorem packetLength_next {samples sampleRateHz : ℕ}
    (ht : (timestamp - m.lastTimestamp).toNat = samples * gap) (hs : 0 < samples)
    (hnewer : samples * gap < 2 ^ 31) (hlength : lengthMs < 2 ^ 31) (hr : 0 < sampleRateHz)
    (heq : 1000 * samples = lengthMs * sampleRateHz) :
    m.packetLength sequenceNumber timestamp sampleRateHz = lengthMs := by
  have hd := Nat.mul_pos hs hpos
  have hne : timestamp - m.lastTimestamp ≠ 0x80000000 := by
    intro h
    rw [h] at ht
    exact absurd ht (by simp; omega)
  have hold := (NetEqImpl.isNewerTimestamp_iff_sub hne).mpr (by omega)
  rw [packetLength, hold, (isNewer_next hgap hpos hlt).1]
  simp only [Bool.not_true, Bool.or_self, Bool.false_eq_true, if_false, ht, hgap,
    Nat.mul_div_cancel samples hpos]
  rw [← Nat.cast_ofNat (n := 1000), ← Nat.cast_mul, heq, ← Int.natCast_ediv,
    Nat.mul_div_cancel lengthMs hr]
  omega

theorem iatDelay_next (hl : lengthMs * gap < 2 ^ 31)
    (he : timer.elapsedMs m.packetIatStopwatch < 2 ^ 31) :
    m.iatDelay? timer sequenceNumber lengthMs =
      some ((timer.elapsedMs m.packetIatStopwatch : ℤ) - lengthMs * gap) := by
  obtain ⟨hn, hskip⟩ := isNewer_next hgap hpos hlt
  have ho : sequenceNumber - m.lastSeqNo - 1 = sequenceNumber - (m.lastSeqNo + 1) := by grind
  have hnext := uint16_sub_succ (a := sequenceNumber) (b := m.lastSeqNo) (by omega)
  have hsplit : (lengthMs : ℤ) * gap = ((gap - 1 : ℕ) : ℤ) * lengthMs + lengthMs := by
    obtain ⟨before, rfl⟩ := Nat.exists_eq_add_of_lt hpos
    rw [Nat.zero_add, Nat.add_sub_cancel, Nat.cast_add, Nat.cast_one, Int.mul_add, Int.mul_one,
      Int.mul_comm]
  have hl' : (lengthMs : ℤ) * gap < 2 ^ 31 := by exact_mod_cast hl
  have hp : 0 ≤ ((gap - 1 : ℕ) : ℤ) * lengthMs := by positivity
  unfold iatDelay?
  generalize timer.elapsedMs m.packetIatStopwatch = elapsed at *
  rw [toInt32_eq_self (by omega)]
  simp only [bind_eq_bind, ho, hnext, hgap, hn]
  rw [hsplit] at hl' ⊢
  generalize hs : ((gap - 1 : ℕ) : ℤ) * lengthMs = skipped at *
  by_cases hone : 1 < gap
  · rw [if_pos (hskip.mpr hone), int32?_eq_some (by omega), bind_some,
      int32?_eq_some (by omega), bind_some,
      int32?_eq_some (by omega)]
    congr 1
    omega
  · have hz : skipped = 0 := by
      rw [← hs, show gap - 1 = 0 by omega, Nat.cast_zero, Int.zero_mul]
    rw [if_neg (mt hskip.mp hone), if_neg (by simp), bind_some,
      int32?_eq_some (by omega), hz, Int.zero_add]

end

end Packet

open InOrderStream

variable {p : InOrderStream} {n : ℕ}

theorem old_iff_not_inHistory (hf : p.Fits (n + 1)) {j : ℕ} (hj : j ∈ p.window n ++ [n]) :
    decide (2 * p.sampleRateHz < (p.timestamp (n + 1) - (p.entry j).timestamp).toNat) =
      !p.inHistory (n + 1) j := by
  have hmax : kMaxHistoryMs = 2000 := rfl
  have hhi := hf.history
  have hnext := hf.samples n (Nat.lt_succ_self n)
  have hlt := p.number_lt n
  obtain ⟨hle, hage⟩ : j + 1 ≤ n + 1 ∧
      p.samples * (p.number n - p.number (j + 1)) ≤ 2 * p.sampleRateHz := by
    rcases mem_append.mp hj with hj | hj
    · obtain ⟨hr, hin⟩ := mem_filter.mp hj
      rw [inHistory, decide_eq_true_iff] at hin
      exact ⟨by have := mem_range.mp hr; omega, (p.length_mul_le_iff _).mp hin⟩
    · obtain rfl := mem_singleton.mp hj
      rw [show p.number j - p.number (j + 1) = 0 by omega]
      exact ⟨Nat.le_refl _, Nat.zero_le _⟩
  have hd : p.samples * (p.number (n + 1) - p.number (j + 1)) ≤
      p.samples * (p.number n - p.number (j + 1)) +
      p.samples * (p.number (n + 1) - p.number n) := by
    rw [← Nat.mul_add]
    exact Nat.mul_le_mul_left _ (by omega)
  have hsub := timestamp_sub (p := p) hle (by rw [hmax] at hhi; omega)
  rw [entry, hsub, inHistory, Bool.eq_iff_iff, Bool.not_eq_true', decide_eq_true_iff,
    decide_eq_false_iff_not, p.length_mul_le_iff]
  omega

theorem updateDelayHistory_next (hf : p.Fits (n + 1))
    (hhi : m.delayHistory = (p.window n).map p.entry) :
    m.updateDelayHistory? (p.lateness (n + 1) - p.lateness n) (p.timestamp (n + 1))
      p.sampleRateHz = some { m with delayHistory := (p.window (n + 1)).map p.entry } := by
  have hmax : kMaxHistoryMs = 2000 := rfl
  have hr := hf.history
  rw [hmax] at hr
  have hage : toUInt32 ((2000 * (p.sampleRateHz : ℤ)).tdiv 1000) = 2 * p.sampleRateHz := by
    rw [Int.tdiv_eq_ediv_of_nonneg (by omega), show 2000 * (p.sampleRateHz : ℤ) / 1000 =
      ((2 * p.sampleRateHz : ℕ) : ℤ) by omega, toUInt32_natCast (by omega)]
  have hs : (p.window n ++ [n]).Pairwise (· < ·) := by
    have hsub : (p.window n ++ [n]).Sublist (range (n + 1)) := by
      rw [range_succ]
      exact List.Sublist.append filter_sublist (List.Sublist.refl _)
    exact (pairwise_lt_range (n := n + 1)).sublist hsub
  have hd : ((p.window n ++ [n]).map p.entry).dropWhile (fun delay =>
      decide (2 * p.sampleRateHz < (p.timestamp (n + 1) - delay.timestamp).toNat)) =
        (p.window (n + 1)).map p.entry := by
    rw [dropWhile_map, dropWhile_eq_filter, ← window_succ]
    · congr 1
      refine filter_congr fun j hj => ?_
      rw [comp_apply, old_iff_not_inHistory hf hj, Bool.not_not]
    · refine hs.imp_of_mem fun {i j} hi hj hij hold => ?_
      rw [comp_apply, old_iff_not_inHistory hf hj, Bool.not_eq_true'] at hold
      rw [comp_apply, old_iff_not_inHistory hf hi, Bool.not_eq_true']
      by_contra hin
      have hy := inHistory_of_ge hij.le (eq_true_of_ne_false hin)
      rw [hold] at hy
      cases hy
  simp only [updateDelayHistory?, bind_eq_bind, hmax]
  rw [int32?_eq_some ⟨by omega, hr⟩, bind_some, hage, hhi]
  rw [show [PacketDelay.mk (p.lateness (n + 1) - p.lateness n) (p.timestamp (n + 1))] =
    [n].map p.entry from rfl, ← map_append, hd]
  rfl

theorem calculateRelativePacketArrivalDelay_next (hf : p.Fits n)
    (hhi : m.delayHistory = (p.window n).map p.entry) :
    m.calculateRelativePacketArrivalDelay? = some (p.relativeDelay n) := by
  obtain ⟨first, hfirst, hwin⟩ := p.exists_window_eq_drop n
  rw [calculateRelativePacketArrivalDelay?, hhi, foldlM_map, relativeDelay_eq, hwin]
  refine foldlM_clamped hfirst fun k hk hkn => int32?_eq_some ⟨?_, ?_⟩
  · have hr := largestRise_nonneg p.lateness ((range k).drop first) k
    have hlength := hf.length k hkn
    rw [lateness_sub]
    omega
  · have hle : k + 1 ≤ n := hkn
    have hr := largestRise_le_relativeDelay hwin hle
    have hdelay := hf.delays (k + 1) hle
    rw [range_succ, drop_append_of_le_length (by simpa using hk), largestRise_concat] at hr
    omega

/-- After packet `n` of the stream: what the manager remembers of it. -/
structure Reached (p : InOrderStream) (n : ℕ) (m : DelayManagerState) : Prop where
  healthy : m.Healthy
  received : m.firstPacketReceived = true
  stopwatch : m.packetIatStopwatch = p.tick n
  lastSeqNo : m.lastSeqNo = p.sequenceNumber n
  lastTimestamp : m.lastTimestamp = p.timestamp n
  history : m.delayHistory = (p.window n).map p.entry

structure Fresh (m : DelayManagerState) : Prop where
  healthy : m.Healthy
  received : m.firstPacketReceived = false
  history : m.delayHistory = []

theorem Fresh.step (h : m.Fresh) (p : InOrderStream) :
    ∃ t, m.step (p.call 0) = some (t, .relativeDelay none) ∧ Reached p 0 t := by
  obtain ⟨hh, hr, hhi⟩ := h
  have hrate : ¬ (p.sampleRateHz : ℤ) ≤ 0 := by
    have hpos := p.rate_pos
    omega
  refine ⟨{ m with
      packetIatStopwatch := p.tick 0
      lastSeqNo := p.sequenceNumber 0
      lastTimestamp := p.timestamp 0
      firstPacketReceived := true }, ?_,
    ⟨hh.1, hh.2, hh.3, hh.4⟩, rfl, rfl, rfl, rfl, hhi⟩
  simp only [DelayManagerState.step, call, update?, if_neg hrate, hr]
  rfl

theorem Reached.gap (h : Reached p n m) :
    (p.sequenceNumber (n + 1) - m.lastSeqNo).toNat = p.number (n + 1) - p.number n := by
  rw [h.lastSeqNo, p.sequenceNumber_sub]

theorem Reached.updateDelays (h : Reached p n m) (hf : p.Fits (n + 1)) :
    ∃ t, m.updateDelays? (p.timer (n + 1)) (p.sequenceNumber (n + 1))
        (p.timestamp (n + 1)) p.sampleRateHz p.lengthMs = some (t, p.relativeDelay (n + 1)) ∧
      t.Healthy ∧ t.firstPacketReceived = true ∧
      t.delayHistory = (p.window (n + 1)).map p.entry := by
  have hlt := p.number_lt n
  have hg := p.number_gap n
  have he : (p.timer (n + 1)).elapsedMs m.packetIatStopwatch =
      p.arrivalMs (n + 1) - p.arrivalMs n := by
    rw [h.stopwatch]
    exact (p.elapsed_eq _ _).trans (Nat.sub_mul ..)
  have hi : m.iatDelay? (p.timer (n + 1)) (p.sequenceNumber (n + 1)) p.lengthMs =
      some (p.lateness (n + 1) - p.lateness n) := by
    rw [iatDelay_next h.gap (by omega) (by omega) (hf.length n (Nat.lt_succ_self n))
      (by rw [he]; exact hf.arrival n (Nat.lt_succ_self n)), he, lateness_sub,
      Nat.cast_mul]
  have hu := updateDelayHistory_next hf h.history
  have hrelative := calculateRelativePacketArrivalDelay_next
    (m := { m with delayHistory := (p.window (n + 1)).map p.entry }) hf rfl
  generalize (p.window (n + 1)).map p.entry = history at *
  have hh : Healthy { m with delayHistory := history } :=
    ⟨h.healthy.1, h.healthy.2, h.healthy.3, h.healthy.4⟩
  have hn : 0 ≤ p.relativeDelay (n + 1) := by
    rw [relativeDelay_eq]
    exact largestRise_nonneg _ _ _
  obtain ⟨t, ht, hthealthy, hreceived, hhi⟩ := hh.updateStatistics hn
  refine ⟨t, ?_, hthealthy, hreceived.trans h.received, hhi⟩
  have hr := reordered_next h.gap (by omega) (by omega)
  rw [updateDelays?, hi]
  simp only [bind_eq_bind, bind_some]
  rw [hr, if_neg Bool.false_ne_true, hu]
  simp only [bind_some, hrelative]
  rw [ht]
  rfl

theorem Reached.step (h : Reached p n m) (hf : p.Fits (n + 1)) :
    ∃ t, m.step (p.call (n + 1)) = some (t, .relativeDelay (some (p.relativeDelay (n + 1)))) ∧
      Reached p (n + 1) t := by
  have hlt := p.number_lt n
  have hg := p.number_gap n
  have hrate : ¬ (p.sampleRateHz : ℤ) ≤ 0 := by
    have hpos := p.rate_pos
    omega
  have hs := hf.samples n (Nat.lt_succ_self n)
  have htimestamp : (p.timestamp (n + 1) - m.lastTimestamp).toNat =
      p.samples * (p.number (n + 1) - p.number n) := by
    rw [h.lastTimestamp, timestamp_sub (Nat.le_add_right n 1) (by omega)]
  have hl : p.lengthMs < 2 ^ 31 :=
    Nat.lt_of_le_of_lt (Nat.le_mul_of_pos_right _ (by omega)) (hf.length n (Nat.lt_succ_self n))
  have hp := packetLength_next h.gap (by omega) (by omega) htimestamp p.samples_pos
    hs hl p.rate_pos p.samples_eq
  have hpos : (0 : ℤ) < p.lengthMs := Int.natCast_pos.mpr p.length_pos
  obtain ⟨t, ht, hh, hr, hhi⟩ := h.updateDelays hf
  refine ⟨t.prepareForNext (p.timer (n + 1)) (p.sequenceNumber (n + 1))
    (p.timestamp (n + 1)) false, ?_, ?_⟩
  · simp only [DelayManagerState.step, call, update?, if_neg hrate, h.received, Bool.not_true,
      Bool.false_eq_true, if_false, hp, if_pos hpos, ht, bind_eq_bind,
      bind_some, reordered_next h.gap (by omega) (by omega)]
    rfl
  · rw [prepareForNext, Bool.and_false, Bool.false_and, if_neg Bool.false_ne_true]
    exact ⟨⟨hh.1, hh.2, hh.3, hh.4⟩, hr, rfl, rfl, rfl, hhi⟩

/-- For every packet of a stream but the first, `Update` returns the largest delay against a packet
of the history. -/
theorem update_relativeDelay (h : m.Fresh) (p : InOrderStream) {n : ℕ} (hfits : p.Fits n) :
    ∃ t, runPartial DelayManagerState.step m (p.calls n) = some (t, p.relativeDelays n) := by
  have hrun : ∃ t, runPartial DelayManagerState.step m (p.calls n) = some (t, p.relativeDelays n) ∧
      Reached p n t := by
    induction n with
    | zero =>
      obtain ⟨t, ht, hr⟩ := h.step p
      have hs : runPartial DelayManagerState.step m [] = some (m, []) := rfl
      exact ⟨t, runPartial_concat hs ht, hr⟩
    | succ n ih =>
      obtain ⟨t, ht, hr⟩ := ih (hfits.mono (Nat.le_succ n))
      obtain ⟨u, hu, hr'⟩ := hr.step hfits
      refine ⟨u, ?_, hr'⟩
      rw [calls_succ, relativeDelays_succ]
      exact runPartial_concat ht hu
  obtain ⟨t, ht, -⟩ := hrun
  exact ⟨t, ht⟩

theorem fresh_create {baseMinimumDelayMs histogramQuantile : ℤ} {histogram : Histogram}
    (hb : histogram.buckets.length = kDelayBuckets)
    (hf : 0 ≤ histogram.baseForgetFactor ∧ histogram.baseForgetFactor ≤ 2 ^ 15)
    (hq : histogramQuantile ≤ 2 ^ 30) (hbase : baseMinimumDelayMs < 2 ^ 23)
    (maxPacketsInBuffer : ℕ) (enableRtxHandling : Bool) (timer : TickTimer) :
    (create maxPacketsInBuffer baseMinimumDelayMs histogramQuantile enableRtxHandling timer
      histogram).Fresh := by
  have hval := Histogram.valid_reset (h := histogram) (by rw [hb]; decide) hf.1
  rw [hb] at hval
  exact ⟨⟨⟨_, _, hval, hf.2⟩, hq, hbase, (by decide : (0 : ℤ) < 2 ^ 23)⟩, rfl, rfl⟩

end DelayManagerState

namespace InOrderStream

def regular (sampleRateHz lengthMs samples : ℕ) (rate_pos : 0 < sampleRateHz)
    (length_pos : 0 < lengthMs) (samples_eq : 1000 * samples = lengthMs * sampleRateHz) (gap : ℕ)
    (gap_pos : 0 < gap) (gap_lt : gap < 2 ^ 15) (ticks : ℕ) : InOrderStream where
  sampleRateHz := sampleRateHz
  lengthMs := lengthMs
  samples := samples
  msPerTick := 10
  firstTimestamp := 0
  number k := 65534 + k * gap
  tick k := k * ticks
  elapsedMs start now := (now - start) * 10
  elapsed_eq _ _ := rfl
  rate_pos := rate_pos
  length_pos := length_pos
  samples_eq := samples_eq
  number_lt k := by rw [Nat.succ_mul]; omega
  number_gap k := by rw [Nat.succ_mul]; omega
  tick_le k := by rw [Nat.succ_mul]; omega

end InOrderStream

namespace DelayManagerState

theorem fresh_defaultManager : defaultManager.Fresh :=
  fresh_create (length_replicate) (by decide) (by decide) (by decide) 200 false ⟨0, fun _ => 0⟩

def slowStream : InOrderStream :=
  .regular 48000 20 960 (by decide) (by decide) (by decide) 3 (by decide) (by decide) 7

theorem update_relativeDelay_slowStream : slowStream.Fits 3 ∧
      ∃ t, runPartial DelayManagerState.step defaultManager (slowStream.calls 3) =
        some (t, [.relativeDelay none, .relativeDelay (some 10), .relativeDelay (some 20),
          .relativeDelay (some 30)]) := by
  have hf : slowStream.Fits 3 :=
    ⟨by decide +kernel, by decide +kernel, by decide +kernel, by decide +kernel, by decide +kernel⟩
  have hd : slowStream.relativeDelays 3 = [.relativeDelay none, .relativeDelay (some 10),
    .relativeDelay (some 20), .relativeDelay (some 30)] := by decide +kernel
  exact ⟨hf, hd ▸ update_relativeDelay fresh_defaultManager slowStream hf⟩

def pausedStream : InOrderStream :=
  .regular 48000 20 960 (by decide) (by decide) (by decide) 1 (by decide) (by decide) 429496730

def jumpingStream : InOrderStream :=
  .regular 48000 1400 67200 (by decide) (by decide) (by decide) 32767 (by decide)
    (by decide) 4587380

def longStream : InOrderStream :=
  .regular 1 100000 100 (by decide) (by decide) (by decide) 32767 (by decide) (by decide) 0

def fastStream : InOrderStream :=
  .regular 1073742 500 536871 (by decide) (by decide) (by decide) 1 (by decide) (by decide) 50

def pausesStream : InOrderStream :=
  .regular 48000 20 960 (by decide) (by decide) (by decide) 1 (by decide) (by decide) 150000000

theorem relativeDelay_out_of_range :
    ((runPartial DelayManagerState.step defaultManager (pausedStream.calls 1)).map Prod.snd =
        some [.relativeDelay none, .relativeDelay (some 0)] ∧
      pausedStream.relativeDelay 1 = 4294967280) ∧
    ((runPartial DelayManagerState.step defaultManager (jumpingStream.calls 1)).map Prod.snd =
        some [.relativeDelay none, .relativeDelay none] ∧ jumpingStream.relativeDelay 1 = 0) ∧
    (runPartial DelayManagerState.step defaultManager (longStream.calls 1)).map Prod.snd = none ∧
    (runPartial DelayManagerState.step defaultManager (fastStream.calls 1)).map Prod.snd = none ∧
    (runPartial DelayManagerState.step defaultManager (pausesStream.calls 2)).map Prod.snd =
      none := by
  decide +kernel

end DelayManagerState

end WebRtcAudio.NetEq
