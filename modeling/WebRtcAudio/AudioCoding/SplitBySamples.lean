import Mathlib.Data.Nat.ModEq
import Mathlib.Tactic.NormNum
import Mathlib.Tactic.Ring

/-! `LegacyEncodedAudioFrame::SplitBySamples`. Sizes are 64-bit, timestamps 32-bit. -/
namespace WebRtcAudio.AudioCoding

open List Option

structure ParseResult where
  timestamp : UInt32
  priority : ℕ
  payload : List UInt8

namespace LegacyEncodedAudioFrame

def minChunkSize (bytesPerMs : ℕ) : ℕ := bytesPerMs * 20 % 2 ^ 64

def halveSplitSize (limit : ℕ) : ℕ → ℕ → Option ℕ
  | 0, _ => none
  | fuel + 1, size => if limit ≤ size then halveSplitSize limit fuel (size / 2) else some size

def cutChunks (payload : List UInt8) (timestamp timestampsPerChunk : UInt32) :
    ℕ → ℕ → ℕ → UInt32 → Option (List ParseResult)
  | 0, _, _, _ => none
  | fuel + 1, splitSize, byteOffset, timestampOffset =>
    if byteOffset < payload.length then
      let splitSize := min splitSize (payload.length - byteOffset)
      (cutChunks payload timestamp timestampsPerChunk fuel splitSize (byteOffset + splitSize)
        (timestampOffset + timestampsPerChunk)).map
          (⟨timestamp + timestampOffset, 0, (payload.drop byteOffset).take splitSize⟩ :: ·)
    else some []

def timestampsPerChunk (splitSize bytesPerMs : ℕ) (timestampsPerMs : UInt32) : UInt32 :=
  UInt32.ofNat (splitSize * timestampsPerMs.toNat % 2 ^ 64 / bytesPerMs)

def splitBySamples (fuel : ℕ) (payload : List UInt8) (timestamp : UInt32) (bytesPerMs : ℕ)
    (timestampsPerMs : UInt32) : Option (List ParseResult) :=
  if payload.length ≤ minChunkSize bytesPerMs then some [⟨timestamp, 0, payload⟩]
  else do
    let splitSize ← halveSplitSize (2 * minChunkSize bytesPerMs % 2 ^ 64) fuel payload.length
    cutChunks payload timestamp (timestampsPerChunk splitSize bytesPerMs timestampsPerMs) fuel
      splitSize 0 0

def HalvedTimes (limit size k : ℕ) : Prop :=
  size / 2 ^ k < limit ∧ ∀ j < k, limit ≤ size / 2 ^ j

theorem div_two_pow_succ (size j : ℕ) : size / 2 ^ (j + 1) = size / 2 / 2 ^ j := by
  rw [Nat.div_div_eq_div_mul, pow_succ']

variable {k limit size : ℕ}

theorem HalvedTimes.succ (hle : limit ≤ size)
    (h : HalvedTimes limit (size / 2) k) : HalvedTimes limit size (k + 1) := by
  constructor
  · rw [div_two_pow_succ]
    exact h.1
  · intro j hj
    cases j with
    | zero => simpa using hle
    | succ j =>
      rw [div_two_pow_succ]
      exact h.2 j (by omega)

theorem HalvedTimes.pred (h : HalvedTimes limit size (k + 1)) :
    limit ≤ size ∧ HalvedTimes limit (size / 2) k := by
  refine ⟨by simpa using h.2 0 (Nat.succ_pos k), ?_, fun j hj => ?_⟩
  · rw [← div_two_pow_succ]
    exact h.1
  · rw [← div_two_pow_succ]
    exact h.2 (j + 1) (by omega)

variable {fuel splitSize : ℕ}

theorem halveSplitSize_of_halvedTimes (h : HalvedTimes limit size k) (hfuel : k < fuel) :
    halveSplitSize limit fuel size = some (size / 2 ^ k) := by
  induction k generalizing size fuel with
  | zero =>
    obtain ⟨fuel, rfl⟩ := Nat.exists_eq_succ_of_ne_zero (by omega : fuel ≠ 0)
    have hlt : size < limit := by simpa using h.1
    rw [halveSplitSize, if_neg (by omega), pow_zero, Nat.div_one]
  | succ k ih =>
    obtain ⟨fuel, rfl⟩ := Nat.exists_eq_succ_of_ne_zero (by omega : fuel ≠ 0)
    obtain ⟨hle, hh⟩ := h.pred
    rw [halveSplitSize, if_pos hle, ih hh (by omega), div_two_pow_succ]

theorem halvedTimes_of_halveSplitSize (h : halveSplitSize limit fuel size = some splitSize) :
    ∃ k, HalvedTimes limit size k ∧ splitSize = size / 2 ^ k := by
  induction fuel generalizing size with
  | zero => exact absurd h nofun
  | succ fuel ih =>
    rw [halveSplitSize] at h
    split at h
    · next hle =>
      obtain ⟨k, hk, rfl⟩ := ih h
      exact ⟨k + 1, hk.succ hle, (div_two_pow_succ size k).symm⟩
    · next hlt =>
      obtain rfl := some_inj.mp h
      exact ⟨0, ⟨by simpa using hlt, fun j hj => absurd hj (Nat.not_lt_zero j)⟩, by simp⟩

theorem HalvedTimes.pos {half : ℕ} (hs : 0 < size)
    (h : HalvedTimes (2 * half % 2 ^ 64) size k) : 0 < size / 2 ^ k := by
  cases k with
  | zero => simpa using hs
  | succ k =>
    have hle := h.2 k (Nat.lt_succ_self k)
    have hlt := h.1
    have hstep : size / 2 ^ (k + 1) = size / 2 ^ k / 2 := by
      rw [Nat.div_div_eq_div_mul, pow_succ]
    omega

/-- The chunks from some offset on: they are the rest of the payload, each is a whole number of
sample frames, and each has the timestamp of its first sample frame. -/
structure ChunksFrom (bytesPerFrame : ℕ) (payload : List UInt8) (timestamp : UInt32)
    (byteOffset : ℕ) (chunks : List ParseResult) : Prop where
  whole : (chunks.map (·.payload)).flatten = payload.drop byteOffset
  aligned : ∀ chunk ∈ chunks, bytesPerFrame ∣ chunk.payload.length
  stamped : ∀ before chunk after, chunks = before ++ chunk :: after → chunk.timestamp =
    timestamp +
      UInt32.ofNat ((byteOffset + (before.map (·.payload)).flatten.length) / bytesPerFrame)

section Chunks

variable {bytesPerFrame : ℕ} {payload : List UInt8} {timestamp : UInt32} {byteOffset : ℕ}

theorem chunksFrom_nil (h : payload.length ≤ byteOffset) :
    ChunksFrom bytesPerFrame payload timestamp byteOffset [] where
  whole := (drop_eq_nil_of_le h).symm
  aligned := by simp
  stamped := by simp

variable {chunks : List ParseResult}

theorem ChunksFrom.cons {size : ℕ} (hsize : byteOffset + size ≤ payload.length)
    (ha : bytesPerFrame ∣ size)
    (h : ChunksFrom bytesPerFrame payload timestamp (byteOffset + size) chunks) :
    ChunksFrom bytesPerFrame payload timestamp byteOffset
      (⟨timestamp + UInt32.ofNat (byteOffset / bytesPerFrame), 0,
        (payload.drop byteOffset).take size⟩ :: chunks) := by
  have hl : ((payload.drop byteOffset).take size).length = size :=
    length_take_of_le (by rw [length_drop]; omega)
  refine ⟨?_, ?_, ?_⟩
  · rw [map_cons, flatten_cons, h.whole, ← drop_drop, take_append_drop]
  · intro chunk hc
    rcases List.mem_cons.mp hc with rfl | hmem
    · rwa [hl]
    · exact h.aligned chunk hmem
  · intro before chunk after heq
    cases before with
    | nil =>
      obtain ⟨rfl, -⟩ := List.cons.inj heq
      simp
    | cons first before =>
      obtain ⟨rfl, ht⟩ := List.cons.inj heq
      rw [h.stamped before chunk after ht, map_cons, flatten_cons,
        length_append, hl, Nat.add_assoc]

theorem cutChunks_end {timestampsPerChunk timestampOffset : UInt32}
    (h : payload.length ≤ byteOffset) : cutChunks payload timestamp timestampsPerChunk (fuel + 1)
      splitSize byteOffset timestampOffset = some [] := by
  rw [cutChunks, if_neg (by omega)]

section
variable {timestampsPerChunk : UInt32} {splitSize fuel : ℕ}

theorem cutChunks_chunksFrom (hpos : 0 < splitSize) (hpa : bytesPerFrame ∣ payload.length)
    (hs : bytesPerFrame ∣ splitSize) (hstep : byteOffset + splitSize < payload.length →
      timestampsPerChunk = UInt32.ofNat (splitSize / bytesPerFrame))
    (ho : bytesPerFrame ∣ byteOffset) (hle : byteOffset ≤ payload.length)
    (hfuel : payload.length < byteOffset + fuel) :
    ∃ chunks, cutChunks payload timestamp timestampsPerChunk fuel splitSize byteOffset
        (UInt32.ofNat (byteOffset / bytesPerFrame)) = some chunks ∧
      ChunksFrom bytesPerFrame payload timestamp byteOffset chunks := by
  induction fuel generalizing byteOffset with
  | zero => omega
  | succ fuel ih =>
    by_cases hend : byteOffset = payload.length
    · exact ⟨[], cutChunks_end hend.ge, chunksFrom_nil hend.ge⟩
    rw [cutChunks, if_pos (by omega)]
    by_cases hm : byteOffset + splitSize < payload.length
    · -- a full chunk with others behind it
      have ho' : UInt32.ofNat ((byteOffset + splitSize) / bytesPerFrame) =
          UInt32.ofNat (byteOffset / bytesPerFrame) + timestampsPerChunk := by
        rw [hstep hm, Nat.add_div_of_dvd_right ho, UInt32.ofNat_add]
      have hn : bytesPerFrame ∣ byteOffset + splitSize := Nat.dvd_add ho hs
      obtain ⟨chunks, hc, hf⟩ :=
        ih (fun _ => hstep hm) hn hm.le (by omega)
      rw [ho'] at hc
      have hmin : min splitSize (payload.length - byteOffset) = splitSize := by omega
      simp only [hmin, hc, map_some]
      exact ⟨_, rfl, hf.cons hm.le hs⟩
    · -- the last chunk
      obtain ⟨fuel, rfl⟩ := Nat.exists_eq_succ_of_ne_zero (by omega : fuel ≠ 0)
      have hmin : min splitSize (payload.length - byteOffset) = payload.length - byteOffset := by
        omega
      have hl : byteOffset + (payload.length - byteOffset) = payload.length := by omega
      simp only [hmin, hl, cutChunks_end le_rfl, map_some]
      refine ⟨_, rfl, ChunksFrom.cons hl.le (Nat.dvd_sub hpa ho) ?_⟩
      rw [hl]
      exact chunksFrom_nil le_rfl

theorem cutChunks_head (hpos : 0 < payload.length) (hle : splitSize ≤ payload.length)
    (h : cutChunks payload timestamp timestampsPerChunk fuel splitSize 0 0 = some chunks) :
    ∃ first rest, chunks = first :: rest ∧ first.payload.length = splitSize ∧
      ∃ fuel, cutChunks payload timestamp timestampsPerChunk fuel splitSize splitSize
        timestampsPerChunk = some rest := by
  cases fuel with
  | zero => exact absurd h nofun
  | succ fuel =>
    rw [cutChunks, if_pos hpos] at h
    obtain ⟨rest, hr, rfl⟩ := map_eq_some_iff.mp h
    simp only [Nat.sub_zero, min_eq_left hle, Nat.zero_add, UInt32.zero_add] at hr ⊢
    refine ⟨_, rest, rfl, ?_, fuel, hr⟩
    exact length_take_of_le hle

theorem cutChunks_second (hlt : splitSize < payload.length)
    (h : cutChunks payload timestamp timestampsPerChunk fuel splitSize splitSize
      timestampsPerChunk = some chunks) :
    ∃ second rest, chunks = second :: rest ∧
      second.timestamp = timestamp + timestampsPerChunk := by
  cases fuel with
  | zero => exact absurd h nofun
  | succ fuel =>
    rw [cutChunks, if_pos hlt] at h
    obtain ⟨rest, -, rfl⟩ := map_eq_some_iff.mp h
    exact ⟨_, rest, rfl, rfl⟩

end

theorem chunksFrom_single (hpa : bytesPerFrame ∣ payload.length) :
    ChunksFrom bytesPerFrame payload timestamp 0 [⟨timestamp, 0, payload⟩] := by
  have hall : 0 + payload.length ≤ payload.length := by omega
  have hnil : ChunksFrom bytesPerFrame payload timestamp (0 + payload.length) [] :=
    chunksFrom_nil (by omega)
  simpa using ChunksFrom.cons hall hpa hnil

end Chunks

/-- The chunks are the payload, whole and with the right timestamps, exactly if it is not longer
than 20 ms or halving its size ends with a multiple of a sample frame whose product with
`timestamps_per_ms` does not wrap to another step. -/
theorem splitBySamples_chunksFrom_iff {bytesPerFrame : ℕ} (timestampsPerMs : UInt32)
    {payload : List UInt8} (hnonempty : payload ≠ [])
    (hpayload : bytesPerFrame ∣ payload.length) (timestamp : UInt32) :
    let bytesPerMs := bytesPerFrame * timestampsPerMs.toNat
    (∃ fuel chunks,
        splitBySamples fuel payload timestamp bytesPerMs timestampsPerMs = some chunks ∧
          ChunksFrom bytesPerFrame payload timestamp 0 chunks) ↔
      payload.length ≤ minChunkSize bytesPerMs ∨
        ∃ k, HalvedTimes (2 * minChunkSize bytesPerMs % 2 ^ 64) payload.length k ∧
          bytesPerFrame ∣ payload.length / 2 ^ k ∧
          (k = 0 ∨ timestampsPerChunk (payload.length / 2 ^ k) bytesPerMs timestampsPerMs =
            UInt32.ofNat (payload.length / 2 ^ k / bytesPerFrame)) := by
  intro bytesPerMs
  have hpos : 0 < payload.length := List.length_pos_iff.mpr hnonempty
  by_cases hs : payload.length ≤ minChunkSize bytesPerMs
  · refine iff_of_true ⟨0, _, if_pos hs, chunksFrom_single hpayload⟩ (.inl hs)
  simp only [splitBySamples, hs, if_false, false_or]
  constructor
  · rintro ⟨fuel, chunks, hc, hf⟩
    obtain ⟨splitSize, hsize, hcut⟩ := bind_eq_some_iff.mp hc
    obtain ⟨k, hk, rfl⟩ := halvedTimes_of_halveSplitSize hsize
    obtain ⟨first, rest, rfl, hfirst, fuel', hr⟩ :=
      cutChunks_head hpos (Nat.div_le_self _ _) hcut
    refine ⟨k, hk, ?_, ?_⟩
    · have ha := hf.aligned first mem_cons_self
      rwa [hfirst] at ha
    · -- from one halving on there is a second chunk
      by_cases hz : k = 0
      · exact .inl hz
      have hlt : payload.length / 2 ^ k < payload.length :=
        Nat.div_lt_self hpos (Nat.one_lt_two_pow hz)
      obtain ⟨second, rest', rfl, hsecond⟩ := cutChunks_second hlt hr
      have hstamp := hf.stamped [first] second rest' rfl
      rw [hsecond] at hstamp
      exact .inr (by simpa [hfirst] using hstamp)
  · rintro ⟨k, hk, ha, hstep⟩
    have hsplit : 0 < payload.length / 2 ^ k := hk.pos hpos
    have hstep' : 0 + payload.length / 2 ^ k < payload.length →
        timestampsPerChunk (payload.length / 2 ^ k) bytesPerMs timestampsPerMs =
          UInt32.ofNat (payload.length / 2 ^ k / bytesPerFrame) := by
      intro hlt
      refine hstep.resolve_left ?_
      rintro rfl
      simp at hlt
    have hfuel : payload.length < 0 + (payload.length + k + 1) := by omega
    obtain ⟨chunks, hc, hf⟩ :=
      cutChunks_chunksFrom hsplit hpayload ha hstep' (Nat.dvd_zero _) hpos.le hfuel
    refine ⟨payload.length + k + 1, chunks, ?_, hf⟩
    rw [halveSplitSize_of_halvedTimes hk (by omega), bind_eq_bind, bind_some]
    simpa using hc

def silentPayload (samples : ℕ) : List UInt8 := List.replicate (2 * samples) 0

theorem length_silentPayload (samples : ℕ) : (silentPayload samples).length = 2 * samples :=
  length_replicate

theorem splitBySamples_four_chunks : ∃ fuel chunks,
    splitBySamples fuel (silentPayload 640) 7 (2 * (8 : UInt32).toNat) 8 = some chunks ∧
      ChunksFrom 2 (silentPayload 640) 7 0 chunks := by
  have hl := length_silentPayload 640
  have hn : silentPayload 640 ≠ [] := by
    rw [← length_pos_iff, hl]
    decide
  have ha : 2 ∣ (silentPayload 640).length := ⟨640, hl⟩
  refine (splitBySamples_chunksFrom_iff 8 hn ha 7).mpr (.inr ⟨2, ?_⟩)
  rw [hl]
  refine ⟨⟨by decide, ?_⟩, by decide, .inr (by decide)⟩
  intro j hj
  obtain rfl | rfl : j = 0 ∨ j = 1 := by omega
  all_goals decide

theorem splitBySamples_cuts_sample :
    (splitBySamples 3 (silentPayload 321) 7 (2 * (8 : UInt32).toNat) 8).map
        (·.map (·.payload.length)) = some [321, 321] ∧ ¬ ∃ fuel chunks,
        splitBySamples fuel (silentPayload 321) 7 (2 * (8 : UInt32).toNat) 8 = some chunks ∧
          ChunksFrom 2 (silentPayload 321) 7 0 chunks := by
  refine ⟨by decide +kernel, ?_⟩
  rintro ⟨fuel, chunks, hc, hf⟩
  have hl := length_silentPayload 321
  generalize silentPayload 321 = payload at hl hc hf
  have hlong : ¬ payload.length ≤ minChunkSize (2 * (8 : UInt32).toNat) := by
    rw [hl]
    decide
  rw [splitBySamples, if_neg hlong] at hc
  obtain ⟨splitSize, hs, hcut⟩ := bind_eq_some_iff.mp hc
  -- 642 bytes are halved once
  have hodd : splitSize = 321 := by
    obtain ⟨k, hk, rfl⟩ := halvedTimes_of_halveSplitSize hs
    have hlimit : 2 * minChunkSize (2 * (8 : UInt32).toNat) % 2 ^ 64 = 640 := by decide
    rw [hl, hlimit] at hk
    have hlt := hk.1
    have hle := hk.2
    have hsome : k ≠ 0 := by
      rintro rfl
      omega
    have honce : ¬ 1 < k := fun hm => absurd (hle 1 hm) (by omega)
    obtain rfl : k = 1 := by omega
    omega
  obtain ⟨first, rest, rfl, hfirst, -⟩ :=
    cutChunks_head (by omega) (by omega) hcut
  have ha := hf.aligned first mem_cons_self
  rw [hfirst, hodd] at ha
  exact absurd ha (by decide)

end LegacyEncodedAudioFrame

end WebRtcAudio.AudioCoding
