import Mathlib.Data.Vector.Defs
import WebRtcAudio.Aecm.Framing

/-! What the frames of the mobile echo canceller are made of when every block is passed through. -/
namespace WebRtcAudio.Aecm

open WebRtcAudio.CommonAudio Option
open List hiding Vector

namespace FrameBuffers

def bufLen : ℕ := frameLen + partLen

def silence : List ℤ := replicate bufLen 0

theorem length_silence : silence.length = bufLen := length_replicate

def passBlock : ProcessBlock := fun _ near _ => some near

/-- The near-end stream so far, how much of it waits for a block to be complete, how much has been
written to the out buffer, and how much of that waits for a frame. -/
structure Holds (aecm : FrameBuffers) (stream : List ℤ) (pending written unread : ℕ) : Prop where
  far : ∃ past, RingBuffer.Represents bufLen aecm.farFrameBuf ⟨past, pending⟩
  near : RingBuffer.Represents bufLen aecm.nearNoisyFrameBuf ⟨silence ++ stream, pending⟩
  out : RingBuffer.Represents bufLen aecm.outFrameBuf ⟨silence ++ stream.take written, unread⟩
  taken : written + pending = stream.length

variable {stream : List ℤ} {aecm : FrameBuffers}

theorem Holds.availableFar {pending written unread : ℕ}
    (h : aecm.Holds stream pending written unread) : aecm.farFrameBuf.availableRead = pending := by
  obtain ⟨past, hfar⟩ := h.far
  exact hfar.availableRead

theorem initCore_holds (farBuf : Vector ℤ farBufLen) : (initCore farBuf).Holds [] 0 0 0 := by
  have hi : RingBuffer.Represents bufLen initFrameBuf ⟨silence ++ [], 0⟩ := by
    rw [append_nil]
    exact RingBuffer.initBuffer_represents ⟨0, 0, bufLen, .sameWrap, []⟩
  exact ⟨⟨_, hi⟩, hi, hi, rfl⟩

section Step

variable {aecm : FrameBuffers} {stream : List ℤ} {pending written unread : ℕ}

section
variable {b : RingBuffer ℤ} {past : List ℤ} (hr : RingBuffer.Represents bufLen b ⟨past, unread⟩)
include hr

theorem writeBuffer_fits {xs : List ℤ} {n : ℕ} (hn : xs.length = n) (hfits : unread + n ≤ bufLen) :
    RingBuffer.Represents bufLen (b.writeBuffer xs).1 ⟨past ++ xs, unread + n⟩ := by
  have hs := (RingBuffer.writeBuffer_spec hr xs).2
  have hmin : min (bufLen - unread) xs.length = xs.length := by omega
  rw [hmin, take_length, hn] at hs
  exact hs

theorem readBuffer_fits {n : ℕ} (hn : n ≤ unread) : ∃ b' r, b.readBuffer true n = some (b', r) ∧
      r.elements true = (past.drop (past.length - unread)).take n ∧
      RingBuffer.Represents bufLen b' ⟨past, unread - n⟩ := by
  obtain ⟨b', r, hread, -, he, hrep⟩ := RingBuffer.readBuffer_spec hr (by decide) true n
  rw [Nat.min_eq_right hn] at he hrep
  exact ⟨b', r, hread, he, hrep⟩

end

theorem bufferFrame_holds (h : aecm.Holds stream pending written unread)
    (hp : pending ≤ partLen) (call : FrameCall) :
    (aecm.bufferFrame call).Holds (stream ++ call.nearendNoisy.toList) (pending + frameLen)
      written unread := by
  obtain ⟨⟨past, hfar⟩, hn, hout, ht⟩ := h
  have hroom : pending + frameLen ≤ bufLen := by
    unfold bufLen
    omega
  refine ⟨?_, ?_, ?_, ?_⟩
  · obtain ⟨farFrame, heq⟩ := aecm.bufferFrame_farFrameBuf call
    rw [heq]
    exact ⟨_, writeBuffer_fits hfar farFrame.length_toList hroom⟩
  · rw [bufferFrame_nearNoisyFrameBuf, ← append_assoc]
    exact writeBuffer_fits hn call.nearendNoisy.length_toList hroom
  · rw [bufferFrame_outFrameBuf, take_append_of_le_length (by omega)]
    exact hout
  · rw [length_append, Vector.length_toList, ← ht]
    omega

theorem processOneBlock_holds (h : aecm.Holds stream pending written unread)
    (hp : partLen ≤ pending) (hu : unread + partLen ≤ bufLen) :
    ∃ next, aecm.processOneBlock passBlock false = some next ∧
      next.Holds stream (pending - partLen) (written + partLen) (unread + partLen) := by
  obtain ⟨⟨past, hfar⟩, hnear, hout, ht⟩ := h
  obtain ⟨far', rfar, hf, -, hfar'⟩ := readBuffer_fits hfar hp
  obtain ⟨near', rnear, hn, he, hnear'⟩ := readBuffer_fits hnear hp
  -- the block starts where the last one ended
  have hb : rnear.elements true = (stream.drop written).take partLen := by
    have hs : (silence ++ stream).length - pending = silence.length + written := by
      rw [length_append, ← ht]
      omega
    rw [he, hs, drop_length_add_append]
  have hl : ((stream.drop written).take partLen).length = partLen := by
    rw [length_take, length_drop, ← ht]
    omega
  have hw := writeBuffer_fits hout hl hu
  rw [append_assoc, ← take_add] at hw
  let next : FrameBuffers := { aecm with
    farFrameBuf := far'
    nearNoisyFrameBuf := near'
    outFrameBuf := (aecm.outFrameBuf.writeBuffer ((stream.drop written).take partLen)).1 }
  refine ⟨next, ?_, ⟨past, hfar'⟩, hnear', hw, by omega⟩
  simp [processOneBlock, hf, hn, passBlock, hb, next]

theorem processBlocks_holds (fuel : ℕ) (h : aecm.Holds stream pending written unread)
    (hf : pending / partLen < fuel) (hu : unread + partLen * (pending / partLen) ≤ bufLen) :
    ∃ next, processBlocks passBlock false fuel aecm = some next ∧
      next.Holds stream (pending % partLen) (written + partLen * (pending / partLen))
        (unread + partLen * (pending / partLen)) := by
  induction fuel generalizing aecm pending written unread with
  | zero => exact absurd hf (Nat.not_lt_zero _)
  | succ fuel ih =>
    simp only [processBlocks, h.availableFar]
    split
    · next hm =>
      -- one block less is pending
      obtain ⟨rest, rfl⟩ := Nat.exists_eq_add_of_le hm
      have hdiv : (partLen + rest) / partLen = rest / partLen + 1 :=
        Nat.add_div_left rest (by decide)
      rw [hdiv] at hf hu ⊢
      rw [Nat.add_mod_left, Nat.mul_succ] at *
      obtain ⟨next, hs, hn⟩ := processOneBlock_holds h hm (by omega)
      rw [Nat.add_sub_cancel_left] at hn
      obtain ⟨final, hl, hfinal⟩ := ih hn (by omega) (by omega)
      refine ⟨final, by rw [hs, bind_some, hl], ?_⟩
      rwa [Nat.add_right_comm, Nat.add_right_comm unread, Nat.add_assoc, Nat.add_assoc unread]
        at hfinal
    · next hless =>
      rw [Nat.div_eq_of_lt (by omega), Nat.mul_zero, Nat.add_zero, Nat.add_zero,
        Nat.mod_eq_of_lt (by omega)]
      exact ⟨aecm, rfl, h⟩

section
variable (h : aecm.Holds stream pending written unread)
include h

theorem processBuffered_holds (hu : unread + partLen * (pending / partLen) ≤ bufLen) :
    ∃ next, aecm.processBuffered passBlock false = some next ∧
      next.Holds stream (pending % partLen) (written + partLen * (pending / partLen))
        (unread + partLen * (pending / partLen)) := by
  apply processBlocks_holds _ h _ hu
  rw [h.availableFar]
  exact Nat.lt_succ_of_le (Nat.div_le_self _ _)

theorem stuffedOutBuf_represents : ∃ b, aecm.stuffedOutBuf = some b ∧ RingBuffer.Represents bufLen b
      ⟨silence ++ stream.take written, max unread frameLen⟩ := by
  have hle : unread ≤ bufLen := h.out.unread_le
  have hread := h.out.readPos_le
  have hbuf : bufLen = 144 := rfl
  have hframe : frameLen = 80 := rfl
  have ha : aecm.outFrameBuf.availableRead = unread := h.out.availableRead
  have hs : Core.toInt32 aecm.outFrameBuf.availableRead = unread := by
    rw [ha]
    exact Core.toInt32_eq_self (by omega)
  simp only [stuffedOutBuf, hs]
  by_cases hl : (unread : ℤ) < frameLen
  · have hc : History.clamp bufLen ⟨silence ++ stream.take written, unread⟩
        (unread - frameLen) = unread - frameLen := by
      simp only [History.clamp]
      omega
    obtain ⟨b, hm, hrep⟩ := RingBuffer.moveReadPtr_spec h.out (by decide) (unread - frameLen)
      (by rw [hc]; omega)
    rw [hc] at hm hrep
    refine ⟨b, by rw [if_pos hl, hm]; rfl, ?_⟩
    have hmax : ((unread : ℤ) - (unread - frameLen)).toNat = max unread frameLen := by omega
    rwa [hmax] at hrep
  · rw [if_neg hl, Nat.max_eq_left (by omega)]
    exact ⟨_, rfl, h.out⟩

theorem processFrame_holds (hp : pending ≤ partLen) {blocks : ℕ}
    (hblocks : blocks = partLen * ((pending + frameLen) / partLen))
    (hu : unread + blocks ≤ bufLen) {call : FrameCall} (hc : call.nearendClean = none) :
    ∃ next, aecm.processFrame passBlock call = some (next,
        ((silence ++ (stream ++ call.nearendNoisy.toList).take (written + blocks)).drop
          (bufLen + (written + blocks) - max (unread + blocks) frameLen)).take frameLen) ∧
      next.Holds (stream ++ call.nearendNoisy.toList) ((pending + frameLen) % partLen)
        (written + blocks) (max (unread + blocks) frameLen - frameLen) := by
  subst hblocks
  have hbu := bufferFrame_holds h hp call
  obtain ⟨mid, hl, hmid⟩ := processBuffered_holds hbu hu
  obtain ⟨b, hs, hb⟩ := stuffedOutBuf_represents hmid
  obtain ⟨b', r, hread, he, hb'⟩ := readBuffer_fits hb (le_max_right _ _)
  rw [length_append, length_silence, length_take_of_le (Nat.le.intro hmid.taken)]
    at he
  refine ⟨{ mid with outFrameBuf := b' }, ?_, hmid.far, hmid.near, hb', hmid.taken⟩
  rw [← he]
  rw [← isSome_none, ← hc] at hl
  simp only [processFrame, bind_eq_bind, bind_eq_some_iff]
  exact ⟨mid, hl, b, hs, (b', r), hread, rfl⟩

end

end Step

def frameAt (stream : List ℤ) (start : ℕ) : List ℤ := (stream.drop start).take frameLen

def outputStart (m : ℕ) : ℕ := if m < 3 then 64 * m + 128 else 80 * m + 96

def unreadAfter (m : ℕ) : ℕ := if m < 3 then 0 else 64 * (5 * m / 4) + 48 - 80 * m

def AfterFrames (m : ℕ) (aecm : FrameBuffers) (stream : List ℤ) : Prop :=
  aecm.Holds stream (16 * (m % 4)) (64 * (5 * m / 4)) (unreadAfter m)

theorem blocks_of_frame (m : ℕ) : 64 * (5 * (m + 1) / 4) = 64 * (5 * m / 4) +
      partLen * ((16 * (m % 4) + frameLen) / partLen) := by
  simp only [partLen, frameLen]
  obtain h | h | h | h : m % 4 = 0 ∨ m % 4 = 1 ∨ m % 4 = 2 ∨ m % 4 = 3 := by omega
  all_goals
    rw [h]
    omega

section
variable (m : ℕ) {blocks : ℕ} (hblocks : 64 * (5 * (m + 1) / 4) = 64 * (5 * m / 4) + blocks)
include m hblocks

theorem unreadAfter_succ :
    max (unreadAfter m + blocks) frameLen = unreadAfter (m + 1) + frameLen := by
  simp only [unreadAfter, frameLen]
  split <;> split <;> omega

theorem unreadAfter_add_le : unreadAfter m + blocks ≤ bufLen := by
  simp only [unreadAfter, bufLen, frameLen, partLen]
  split <;> omega

end

theorem outputStart_eq (m : ℕ) :
    bufLen + 64 * (5 * (m + 1) / 4) - (unreadAfter (m + 1) + frameLen) = outputStart m := by
  simp only [unreadAfter, outputStart, bufLen, frameLen, partLen]
  split <;> split <;> omega

theorem outputStart_le (m : ℕ) : outputStart m + frameLen ≤ bufLen + 64 * (5 * (m + 1) / 4) := by
  simp only [outputStart, bufLen, frameLen, partLen]
  split <;> omega

theorem frameAt_append_take {past rest : List ℤ} {n start : ℕ} (hn : n ≤ stream.length)
    (hstart : start + frameLen ≤ past.length + n) :
    frameAt (past ++ stream.take n) start = frameAt (past ++ (stream ++ rest)) start := by
  have hs : past ++ (stream ++ rest) = (past ++ stream.take n) ++ (stream.drop n ++ rest) := by
    rw [append_assoc, ← append_assoc (stream.take n), take_append_drop]
  have hle : start + frameLen ≤ (past ++ stream.take n).length := by
    rwa [length_append, length_take_of_le hn]
  rw [hs]
  generalize past ++ stream.take n = front at hle
  unfold frameAt
  rw [drop_append_of_le_length (by omega), take_append_of_le_length (by rw [length_drop]; omega)]

theorem processFrame_afterFrames {m : ℕ} (h : AfterFrames m aecm stream) {call : FrameCall}
    (hc : call.nearendClean = none) (rest : List ℤ) : ∃ next, aecm.processFrame passBlock call =
        some (next, frameAt (silence ++ (stream ++ call.nearendNoisy.toList ++ rest))
          (outputStart m)) ∧ AfterFrames (m + 1) next (stream ++ call.nearendNoisy.toList) := by
  have hblocks := blocks_of_frame m
  have hp : 16 * (m % 4) ≤ partLen := by
    simp only [partLen]
    omega
  obtain ⟨next, hn, hh⟩ :=
    processFrame_holds h hp rfl (unreadAfter_add_le m hblocks) hc
  rw [← hblocks, unreadAfter_succ m hblocks, outputStart_eq] at hn
  rw [← hblocks, unreadAfter_succ m hblocks, Nat.add_sub_cancel] at hh
  refine ⟨next, ?_, ?_⟩
  · rw [hn, ← frameAt_append_take (Nat.le.intro hh.taken)]
    · rfl
    · rw [length_silence]
      exact outputStart_le m
  · have hp' : (16 * (m % 4) + frameLen) % partLen = 16 * ((m + 1) % 4) := by
      simp only [partLen, frameLen]
      omega
    rwa [hp'] at hh

def nearend (calls : List FrameCall) : List ℤ :=
  (calls.map fun call => call.nearendNoisy.toList).flatten

def output (processBlock : ProcessBlock) (aecm : FrameBuffers) (calls : List FrameCall) :
    Option (List ℤ) :=
  (Core.runPartial (processFrame processBlock) aecm calls).map (·.2.flatten)

variable {calls : List FrameCall}

theorem runPartial_afterFrames {m : ℕ} (h : AfterFrames m aecm stream)
    (hclean : ∀ call ∈ calls, call.nearendClean = none) :
    ∃ next, Core.runPartial (processFrame passBlock) aecm calls =
      some (next, (range' m calls.length).map fun k =>
        frameAt (silence ++ (stream ++ nearend calls)) (outputStart k)) := by
  induction calls generalizing m aecm stream with
  | nil => exact ⟨aecm, rfl⟩
  | cons call calls ih =>
    obtain ⟨mid, hmid, ha⟩ := processFrame_afterFrames h
      (hclean call mem_cons_self) (nearend calls)
    obtain ⟨next, hn⟩ := ih ha fun c hc => hclean c (mem_cons_of_mem _ hc)
    refine ⟨next, ?_⟩
    rw [append_assoc] at hmid hn
    simp only [Core.runPartial, hmid, hn, bind_eq_bind, bind_some,
      length_cons, range'_succ, map_cons]
    rfl

theorem output_eq (farBuf : Vector ℤ farBufLen) (hc : ∀ call ∈ calls, call.nearendClean = none) :
    output passBlock (initCore farBuf) calls = some ((range calls.length).map fun m =>
      frameAt (silence ++ nearend calls) (outputStart m)).flatten := by
  have hi : AfterFrames 0 (initCore farBuf) [] := initCore_holds farBuf
  obtain ⟨next, hn⟩ := runPartial_afterFrames hi hc
  rw [output, hn, range_eq_range']
  rfl

theorem flatten_map_range_succ (f : ℕ → List ℤ) (n : ℕ) :
    ((range (n + 1)).map f).flatten = ((range n).map f).flatten ++ f n := by
  simp [range_succ]

theorem length_flatten_map_range {f : ℕ → List ℤ} {k n : ℕ} (hf : ∀ m < n, (f m).length = k) :
    ((range n).map f).flatten.length = k * n := by
  induction n with
  | zero => rfl
  | succ n ih =>
    rw [flatten_map_range_succ, length_append, ih fun m hm => hf m (Nat.lt_succ_of_lt hm),
      hf n (Nat.lt_succ_self n), Nat.mul_succ]

/-- Slices of equal length put together are a beginning of a list exactly if each of them is the
slice of the list at its place. -/
theorem flatten_map_range_eq_take_iff {f : ℕ → List ℤ} {l : List ℤ} {k n : ℕ}
    (hf : ∀ m < n, (f m).length = k) (hl : k * n ≤ l.length) :
    ((range n).map f).flatten = l.take (k * n) ↔ ∀ m < n, f m = (l.drop (k * m)).take k := by
  induction n with
  | zero => simp
  | succ n ih =>
    rw [Nat.mul_succ] at hl
    have hf' : ∀ m < n, (f m).length = k := fun m hm => hf m (Nat.lt_succ_of_lt hm)
    have hfront : ((range n).map f).flatten.length = (l.take (k * n)).length := by
      rw [length_flatten_map_range hf', length_take_of_le (by omega)]
    rw [flatten_map_range_succ, Nat.mul_succ, take_add, Nat.forall_lt_succ_right,
      ← ih hf' (by omega)]
    constructor
    · intro h
      exact append_inj h hfront
    · rintro ⟨hi, hlast⟩
      rw [hi, hlast]

def Delayed (farBuf : Vector ℤ farBufLen) (calls : List FrameCall) (delay : ℕ) : Prop :=
  output passBlock (initCore farBuf) calls =
    some ((replicate delay 0 ++ nearend calls).take (frameLen * calls.length))

instance (farBuf : Vector ℤ farBufLen) (calls : List FrameCall) (delay : ℕ) :
    Decidable (Delayed farBuf calls delay) :=
  inferInstanceAs (Decidable (_ = _))

theorem length_nearend (calls : List FrameCall) :
    (nearend calls).length = frameLen * calls.length := by
  induction calls with
  | nil => rfl
  | cons call calls ih =>
    have hc : nearend (call :: calls) = call.nearendNoisy.toList ++ nearend calls := rfl
    rw [hc, length_append, ih, Vector.length_toList, length_cons, Nat.mul_succ, Nat.add_comm]

theorem length_frameAt {start : ℕ} (h : start + frameLen ≤ stream.length) :
    (frameAt stream start).length = frameLen := by
  rw [frameAt, length_take, length_drop]
  omega

theorem frameAt_append (front stream : List ℤ) (start : ℕ) :
    frameAt (front ++ stream) (front.length + start) = frameAt stream start := by
  rw [frameAt, drop_length_add_append, frameAt]

theorem frameAt_first (stream : List ℤ) :
    frameAt (silence ++ stream) (outputStart 0) = frameAt (replicate 16 0 ++ stream) 0 := by
  have hsplit : silence = replicate 128 0 ++ replicate 16 0 := by
    rw [replicate_append_replicate]
    rfl
  have hs : outputStart 0 = (replicate 128 (0 : ℤ)).length + 0 := by
    rw [length_replicate]
    rfl
  rw [hsplit, append_assoc, hs, frameAt_append]

def nearendStart (m : ℕ) : ℕ := if m < 3 then 64 * m - 16 else 80 * m - 48

theorem outputStart_eq_nearendStart {m : ℕ} (hm : 1 ≤ m) :
    outputStart m = silence.length + nearendStart m := by
  rw [length_silence]
  simp only [outputStart, nearendStart, bufLen, frameLen, partLen]
  split <;> omega

theorem frameAt_delayed (stream : List ℤ) {m : ℕ} (hm : 1 ≤ m) :
    frameAt (replicate 16 0 ++ stream) (frameLen * m) = frameAt stream (80 * m - 16) := by
  have hs : frameLen * m = (replicate 16 (0 : ℤ)).length + (80 * m - 16) := by
    rw [length_replicate]
    simp only [frameLen]
    omega
  rw [hs, frameAt_append]

/-- The first frame of the output makes the delay 16 samples. It is kept exactly if every later
frame, which starts 16, 32, 32, … samples too early, happens to be the same there. -/
theorem delayed_iff (farBuf : Vector ℤ farBufLen) {calls : List FrameCall}
    (hclean : ∀ call ∈ calls, call.nearendClean = none) :
    Delayed farBuf calls 16 ↔ ∀ m, 1 ≤ m → m < calls.length →
      frameAt (nearend calls) (nearendStart m) = frameAt (nearend calls) (80 * m - 16) := by
  have hl : ∀ m < calls.length,
      (frameAt (silence ++ nearend calls) (outputStart m)).length = frameLen := by
    intro m hm
    apply length_frameAt
    rw [length_append, length_silence, length_nearend]
    have hle := outputStart_le m
    have hw : 64 * (5 * (m + 1) / 4) ≤ frameLen * calls.length := by
      simp only [frameLen]
      omega
    omega
  have hfits : frameLen * calls.length ≤ (replicate 16 0 ++ nearend calls).length := by
    rw [length_append, length_nearend]
    omega
  rw [Delayed, output_eq farBuf hclean, some_inj, flatten_map_range_eq_take_iff hl hfits]
  constructor
  · intro h m hpos hm
    have hf := h m hm
    rwa [outputStart_eq_nearendStart hpos, frameAt_append, ← frameAt, frameAt_delayed _ hpos]
      at hf
  · intro h m hm
    rw [← frameAt]
    obtain rfl | hpos := Nat.eq_zero_or_pos m
    · exact frameAt_first (nearend calls)
    · rw [outputStart_eq_nearendStart hpos, frameAt_append, frameAt_delayed _ hpos]
      exact h m hpos hm

def countedCall (first step : ℤ) : FrameCall where
  farend := Vector.replicate frameLen 0
  nearendNoisy := Vector.ofFn fun i => first + step * i

theorem delayed_constant : (∀ call ∈ [countedCall 5 0, countedCall 5 0], call.nearendClean = none) ∧
    Delayed (Vector.replicate farBufLen 0) [countedCall 5 0, countedCall 5 0] 16 :=
  ⟨by decide, (delayed_iff _ (by decide)).mpr (by decide +kernel)⟩

theorem not_delayed_counted : ¬ ∃ delay,
    Delayed (Vector.replicate farBufLen 0) [countedCall 1 1, countedCall 81 1] delay := by
  rintro ⟨delay, h⟩
  obtain hle | hl := Nat.lt_or_ge delay 17
  · exact absurd h ((by decide +kernel : ∀ delay < 17, ¬ Delayed (Vector.replicate farBufLen 0)
      [countedCall 1 1, countedCall 81 1] delay) delay hle)
  · -- the first sample comes after 16 zeros
    have hf : (output passBlock (initCore (Vector.replicate farBufLen 0))
        [countedCall 1 1, countedCall 81 1]).bind (·[16]?) = some 1 := by
      decide +kernel
    have hz : (replicate delay (0 : ℤ))[16]? = some 0 :=
      getElem?_replicate_of_lt hl
    rw [h, bind_some, getElem?_take_of_lt (by decide),
      getElem?_append_left (by rwa [length_replicate]), hz] at hf
    exact absurd hf (by decide)

end FrameBuffers

end WebRtcAudio.Aecm
