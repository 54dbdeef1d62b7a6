import WebRtcAudio.CommonAudio.RingBuffer

/-! The ring buffer against the list of everything written to it. -/
namespace WebRtcAudio.CommonAudio

open List Option

/-- Everything written since initialization, behind the initial zeros, and how many of the last
elements are unread. -/
structure History (α : Type*) where
  written : List α
  unread : ℕ

namespace History
variable {α : Type*}

def initial (α : Type*) [Zero α] (N : ℕ) : History α := ⟨List.replicate N 0, 0⟩

def last (h : History α) (n : ℕ) : List α := h.written.drop (h.written.length - n)

def unreadElements (h : History α) : List α := h.last h.unread

def clamp (N : ℕ) (h : History α) (k : ℤ) : ℤ := max (-(N - h.unread : ℤ)) (min k h.unread)

def outcome (N : ℕ) (h : History α) (count : ℤ) (elements : List α) :
    History α × RingBuffer.Outcome α :=
  (h, ⟨count, elements, h.unread, N - h.unread⟩)

def step [Zero α] (N : ℕ) (h : History α) : RingBuffer.Call α → History α × RingBuffer.Outcome α
  | .write data =>
    let n := min (N - h.unread) data.length
    outcome N ⟨h.written ++ data.take n, h.unread + n⟩ n []
  | .read _ n =>
    let m := min h.unread n
    outcome N { h with unread := h.unread - m } m (h.unreadElements.take m)
  | .move k =>
    outcome N { h with unread := (h.unread - h.clamp N k).toNat } (h.clamp N k) []
  | .init => outcome N (initial α N) 0 []

theorem last_append {h : History α} {N u : ℕ} {xs : List α} (hN : N ≤ h.written.length)
    (hx : xs.length ≤ N) : last ⟨h.written ++ xs, u⟩ N = (h.last N).drop xs.length ++ xs := by
  simp only [last, length_append, drop_drop]
  rw [drop_append_of_le_length (by omega)]
  congr 2
  omega

theorem drop_last {h : History α} {N n : ℕ} (hN : N ≤ h.written.length) (hn : n ≤ N) :
    (h.last N).drop (N - n) = h.last n := by
  simp only [last, drop_drop]
  congr 1
  omega

end History

namespace RingBuffer
variable {α : Type*} {N : ℕ} {b : RingBuffer α} {h : History α}

/-- The buffer holds the last `N` elements written and gives the unread ones of the history. -/
structure Represents (N : ℕ) (b : RingBuffer α) (h : History α) : Prop where
  elementCount : b.elementCount = N
  length_data : b.data.length = N
  readPos_le : b.readPos ≤ N
  writePos_le : b.writePos ≤ N
  same : b.rwWrap = .sameWrap → b.readPos ≤ b.writePos ∧ h.unread = b.writePos - b.readPos
  diff : b.rwWrap = .diffWrap → b.writePos ≤ b.readPos ∧ h.unread = N - b.readPos + b.writePos
  length_written : N ≤ h.written.length
  recent : h.last N = b.data.rotate b.writePos

namespace Represents

section
variable (hr : Represents N b h)
include hr

theorem availableRead : b.availableRead = h.unread := by
  cases hw : b.rwWrap with
  | sameWrap => simp only [RingBuffer.availableRead, hw, (hr.same hw).2]
  | diffWrap => simp only [RingBuffer.availableRead, hw, (hr.diff hw).2, hr.elementCount]

theorem availableWrite : b.availableWrite = N - h.unread := by
  rw [RingBuffer.availableWrite, hr.availableRead, hr.elementCount]

theorem unread_le : h.unread ≤ N := by
  have hread := hr.readPos_le
  have hwrite := hr.writePos_le
  cases hw : b.rwWrap with
  | sameWrap =>
    obtain ⟨-, hu⟩ := hr.same hw
    omega
  | diffWrap =>
    obtain ⟨hle, hu⟩ := hr.diff hw
    omega

theorem position : (b.readPos + h.unread) % N = b.writePos % N := by
  have hread := hr.readPos_le
  cases hw : b.rwWrap with
  | sameWrap =>
    obtain ⟨hle, hu⟩ := hr.same hw
    rw [hu, Nat.add_sub_cancel' hle]
  | diffWrap =>
    obtain ⟨-, hu⟩ := hr.diff hw
    rw [hu, ← Nat.add_assoc, Nat.add_sub_cancel' hread, Nat.add_mod_left]

theorem unreadElements : h.unreadElements = (b.data.rotate b.readPos).take h.unread := by
  have hpos := hr.position
  have hle := hr.unread_le
  rw [← hr.length_data] at hpos hle
  rw [History.unreadElements, ← History.drop_last hr.length_written hr.unread_le, hr.recent,
    ← Core.rotate_congr _ hpos, ← Core.drop_rotate_add _ _ hle, hr.length_data]

theorem outcome (count : ℤ) (elements : List α) :
    b.outcome count elements = (b, (h.outcome N count elements).2) := by
  simp only [RingBuffer.outcome, History.outcome, hr.availableRead, hr.availableWrite]

theorem moved {k : ℤ} (hk : -(N - h.unread : ℤ) ≤ k) (hk' : k ≤ h.unread)
    {b' : RingBuffer α} (hpos : (b'.readPos : ℤ) = if (N : ℤ) < b.readPos + k then b.readPos + k - N
      else if b.readPos + k < 0 then b.readPos + k + N else b.readPos + k) (hwrap : b'.rwWrap =
      if (N : ℤ) < b.readPos + k then .sameWrap
      else if b.readPos + k < 0 then .diffWrap else b.rwWrap)
    (hw : b'.writePos = b.writePos) (hc : b'.elementCount = N) (hd : b'.data = b.data) :
    Represents N b' { h with unread := (h.unread - k).toNat } := by
  have hread := hr.readPos_le
  have hwrite := hr.writePos_le
  -- In each case of the wrap the flag says which of the three new positions is possible.
  have key : b'.readPos ≤ N ∧
      (b'.rwWrap = .sameWrap →
        b'.readPos ≤ b.writePos ∧ (h.unread - k).toNat = b.writePos - b'.readPos) ∧
      (b'.rwWrap = .diffWrap →
        b.writePos ≤ b'.readPos ∧ (h.unread - k).toNat = N - b'.readPos + b.writePos) := by
    rw [hwrap]
    cases hf : b.rwWrap with
    | sameWrap =>
      obtain ⟨hle, hu⟩ := hr.same hf
      have hnot : ¬ (N : ℤ) < b.readPos + k := by omega
      rw [if_neg hnot] at hpos ⊢
      split_ifs at hpos ⊢ with hneg
      · exact ⟨by omega, fun hf => absurd hf (by decide), fun _ => by omega⟩
      · exact ⟨by omega, fun _ => by omega, fun hf => absurd hf (by decide)⟩
    | diffWrap =>
      obtain ⟨hle, hu⟩ := hr.diff hf
      have hnot : ¬ b.readPos + k < 0 := by omega
      rw [if_neg hnot] at hpos ⊢
      split_ifs at hpos ⊢ with hgt
      · exact ⟨by omega, fun _ => by omega, fun hf => absurd hf (by decide)⟩
      · exact ⟨by omega, fun hf => absurd hf (by decide), fun _ => by omega⟩
  obtain ⟨hle, hs, hdiff⟩ := key
  refine ⟨hc, by rw [hd, hr.length_data], hle, by rw [hw]; exact hwrite,
    ?_, ?_, hr.length_written, ?_⟩
  · rw [hw]
    exact hs
  · rw [hw]
    exact hdiff
  · rw [hd, hw]
    exact hr.recent

end

end Represents
theorem deliver_elements (wantsPtr : Bool) {count : ℕ} {r₁ r₂ : List α}
    (hz : count = 0 → r₁ ++ r₂ = []) :
    (deliver wantsPtr count r₁ r₂).elements wantsPtr = r₁ ++ r₂ := by
  have hj : (if 0 < r₂.length then r₁ ++ r₂ else r₁) = r₁ ++ r₂ := by
    cases r₂ with
    | nil => simp
    | cons x xs => simp
  cases wantsPtr with
  | false => simp [deliver, ReadResult.elements, hj]
  | true =>
    by_cases hc : count = 0
    · simp [deliver, ReadResult.elements, hc, hz hc]
    · simp only [deliver, ReadResult.elements, if_true, if_neg hc, getD_some]
      split_ifs with hpos
      · rfl
      · rwa [if_neg hpos] at hj

section
variable (hr : Represents N b h)
include hr

theorem clampMove_eq (hN : N < 2 ^ 31) (k : ℤ) : b.clampMove k = h.clamp N k := by
  have hle := hr.unread_le
  unfold clampMove History.clamp
  rw [hr.availableRead, hr.availableWrite, Core.toInt32_eq_self (by omega),
    Core.toInt32_eq_self (by omega)]
  push_cast [hle]
  split_ifs <;> omega

theorem moveReadPtr_spec (hN : N < 2 ^ 31) (k : ℤ) (hfit : b.readPos + h.clamp N k < 2 ^ 31) :
    ∃ b', b.moveReadPtr k = some (b', h.clamp N k) ∧
      Represents N b' { h with unread := (h.unread - h.clamp N k).toNat } := by
  have hle := hr.unread_le
  have hread := hr.readPos_le
  have hlow : -(N - h.unread : ℤ) ≤ h.clamp N k := le_max_left _ _
  have hh : h.clamp N k ≤ h.unread := max_le (by omega) (min_le_right _ _)
  unfold moveReadPtr
  rw [clampMove_eq hr hN, hr.elementCount, Core.toInt32_eq_self (by omega),
    Core.toInt32_eq_self (by omega), if_neg (by omega)]
  by_cases hgt : (N : ℤ) < b.readPos + h.clamp N k
  · rw [if_pos hgt]
    dsimp only
    rw [if_neg (show ¬ (b.readPos + h.clamp N k - N : ℤ) < 0 by omega)]
    refine ⟨_, rfl, hr.moved hlow hh ?_ ?_ rfl rfl rfl⟩
    · rw [if_pos hgt, Core.toSizeT_cast (by omega) (by omega)]
    · rw [if_pos hgt]
  · rw [if_neg hgt]
    dsimp only
    by_cases hneg : b.readPos + h.clamp N k < 0
    · rw [if_pos hneg]
      refine ⟨_, rfl, hr.moved hlow hh ?_ ?_ rfl rfl rfl⟩
      · rw [if_neg hgt, if_pos hneg, Core.toSizeT_cast (by omega) (by omega)]
      · rw [if_neg hgt, if_pos hneg]
    · rw [if_neg hneg]
      refine ⟨_, rfl, hr.moved hlow hh ?_ ?_ rfl rfl rfl⟩
      · rw [if_neg hgt, if_neg hneg, Core.toSizeT_cast (by omega) (by omega)]
      · rw [if_neg hgt, if_neg hneg]

theorem getBufferReadRegions_spec (n : ℕ) :
    let r := b.getBufferReadRegions n
    r.1 = min h.unread n ∧ r.2.1 ++ r.2.2 = h.unreadElements.take (min h.unread n) := by
  have hle := hr.unread_le
  have hread := hr.readPos_le
  have hlen := hr.length_data
  have hc : (if h.unread < n then h.unread else n) = min h.unread n := by
    split_ifs <;> omega
  have he : h.unreadElements.take (min h.unread n) =
      (b.data.rotate b.readPos).take (min h.unread n) := by
    rw [hr.unreadElements, take_take, Nat.min_eq_left (Nat.min_le_left _ _)]
  simp only [getBufferReadRegions, hr.availableRead, hr.elementCount, hc, he]
  split_ifs with hwrap
  · refine ⟨rfl, ?_⟩
    rw [Core.take_rotate_of_ge (by omega) (by omega) (by omega), hlen,
      take_of_length_le (by rw [length_drop]; omega)]
  · refine ⟨rfl, ?_⟩
    rw [Core.take_rotate_of_le (by omega) (by omega), append_nil]

theorem readBuffer_spec (hN : N < 2 ^ 30) (wantsPtr : Bool) (n : ℕ) :
    ∃ b' r, b.readBuffer wantsPtr n = some (b', r) ∧ r.readCount = min h.unread n ∧
      r.elements wantsPtr = h.unreadElements.take (min h.unread n) ∧
      Represents N b' { h with unread := h.unread - min h.unread n } := by
  have hle := hr.unread_le
  have hread := hr.readPos_le
  obtain ⟨hc, he⟩ := getBufferReadRegions_spec hr n
  have hclamp : h.clamp N (min h.unread n : ℕ) = (min h.unread n : ℕ) := by
    unfold History.clamp
    omega
  obtain ⟨b', hm, hrep⟩ := moveReadPtr_spec hr (by omega) (min h.unread n : ℕ) (by omega)
  have hu : ((h.unread : ℤ) - h.clamp N (min h.unread n : ℕ)).toNat =
      h.unread - min h.unread n := by omega
  have hint : Core.toInt32 (min h.unread n : ℕ) = (min h.unread n : ℕ) :=
    Core.toInt32_eq_self (by omega)
  rw [hu] at hrep
  refine ⟨b', deliver wantsPtr (b.getBufferReadRegions n).1 (b.getBufferReadRegions n).2.1
    (b.getBufferReadRegions n).2.2, ?_, hc, ?_, hrep⟩
  · simp only [readBuffer, hc, hint, hm, map_some]
  · rw [← he]
    refine deliver_elements wantsPtr fun hz => ?_
    rw [he, ← hc, hz, take_zero]

theorem writeElements_eq (xs : List α) :
    (if b.availableWrite < xs.length then b.availableWrite else xs.length) =
      min (N - h.unread) xs.length := by
  rw [hr.availableWrite]
  split_ifs <;> omega

theorem writeBuffer_wrapping {xs : List α} (hw : N - b.writePos < min (N - h.unread) xs.length) :
    let n := min (N - h.unread) xs.length
    b.writeBuffer xs = ({ b with
      data := Core.writeAt (Core.writeAt b.data b.writePos (xs.take (N - b.writePos))) 0
        ((xs.drop (N - b.writePos)).take (n - (N - b.writePos)))
      writePos := n - (N - b.writePos)
      rwWrap := .diffWrap }, n) := by
  simp only [writeBuffer, writeElements_eq hr, hr.elementCount, if_pos hw,
    Nat.sub_sub_self hw.le, Nat.zero_add]

theorem writeBuffer_straight {xs : List α}
    (hw : ¬ N - b.writePos < min (N - h.unread) xs.length) :
    let n := min (N - h.unread) xs.length
    b.writeBuffer xs = ({ b with
      data := Core.writeAt b.data b.writePos (xs.take n)
      writePos := b.writePos + n }, n) := by
  simp only [writeBuffer, writeElements_eq hr, hr.elementCount, if_neg hw]

theorem writeBuffer_rotate (xs : List α) :
    let n := min (N - h.unread) xs.length
    let r := (b.writeBuffer xs).1
    r.data.length = N ∧
      r.data.rotate r.writePos = (b.data.rotate b.writePos).drop n ++ xs.take n := by
  intro n r
  have hwrite := hr.writePos_le
  have hlen := hr.length_data
  have hn : n ≤ xs.length := Nat.min_le_right _ _
  have hnN : n ≤ N := (Nat.min_le_left _ _).trans (Nat.sub_le _ _)
  by_cases hw : N - b.writePos < n
  · simp only [r, writeBuffer_wrapping hr hw]
    set ys := xs.take (N - b.writePos) with hys
    set zs := (xs.drop (N - b.writePos)).take (n - (N - b.writePos)) with hzs
    have hy : ys.length = N - b.writePos := length_take_of_le (by omega)
    have hz : zs.length = n - (N - b.writePos) :=
      length_take_of_le (by rw [length_drop]; omega)
    have hf : b.writePos + ys.length ≤ b.data.length := by omega
    have hlen₁ := Core.length_writeAt hf
    have hs : 0 + zs.length ≤ (Core.writeAt b.data b.writePos ys).length := by omega
    have hxs : xs.take n = ys ++ zs := by
      rw [hys, hzs, ← take_add, Nat.add_sub_cancel' hw.le]
    -- The first write ends at the end of the store, where the second one starts.
    have hstart : (Core.writeAt b.data b.writePos ys).rotate 0 =
        (b.data.rotate b.writePos).drop ys.length ++ ys := by
      rw [← Core.rotate_writeAt hf]
      refine Core.rotate_congr _ ?_
      rw [hlen₁, hlen, hy, Nat.add_sub_cancel' hwrite, Nat.mod_self, Nat.zero_mod]
    have hrotated := Core.rotate_writeAt hs
    rw [Nat.zero_add] at hrotated
    rw [← hz, Core.length_writeAt hs, hlen₁, hrotated, hstart,
      drop_append_of_le_length (by rw [length_drop, length_rotate]; omega),
      drop_drop, hxs, append_assoc, hy, hz, Nat.add_sub_cancel' hw.le]
    exact ⟨hlen, rfl⟩
  · simp only [r, writeBuffer_straight hr hw]
    have ht : (xs.take n).length = n := length_take_of_le hn
    have hfits : b.writePos + (xs.take n).length ≤ b.data.length := by omega
    have hrotated := Core.rotate_writeAt hfits
    rw [ht] at hrotated
    rw [Core.length_writeAt hfits, hrotated]
    exact ⟨hlen, rfl⟩

theorem writeBuffer_spec (xs : List α) :
    let n := min (N - h.unread) xs.length
    (b.writeBuffer xs).2 = n ∧
      Represents N (b.writeBuffer xs).1 ⟨h.written ++ xs.take n, h.unread + n⟩ := by
  intro n
  have hwrite := hr.writePos_le
  have hread := hr.readPos_le
  have hle := hr.unread_le
  have ht : (xs.take n).length = n := length_take_of_le (Nat.min_le_right _ _)
  obtain ⟨hlen, hrotated⟩ := writeBuffer_rotate hr xs
  have hrecent : History.last ⟨h.written ++ xs.take n, h.unread + n⟩ N =
      (b.writeBuffer xs).1.data.rotate (b.writeBuffer xs).1.writePos := by
    rw [History.last_append hr.length_written (by omega), ht, hr.recent, hrotated]
  have hl : N ≤ (h.written ++ xs.take n).length := by
    rw [length_append]
    exact hr.length_written.trans (Nat.le_add_right _ _)
  by_cases hw : N - b.writePos < n
  · have hs : b.rwWrap = .sameWrap := by
      cases hf : b.rwWrap with
      | sameWrap => rfl
      | diffWrap =>
        obtain ⟨hpos, hu⟩ := hr.diff hf
        omega
    obtain ⟨hpos, hu⟩ := hr.same hs
    rw [writeBuffer_wrapping hr hw] at hlen hrecent ⊢
    refine ⟨rfl, hr.elementCount, hlen, hread, ?_, ?_, ?_, hl, hrecent⟩
    · dsimp only
      omega
    · exact nofun
    · intro _
      dsimp only
      omega
  · rw [writeBuffer_straight hr hw] at hlen hrecent ⊢
    refine ⟨rfl, hr.elementCount, hlen, hread, ?_, ?_, ?_, hl, hrecent⟩
    · dsimp only
      omega
    · intro hf
      obtain ⟨hpos, hu⟩ := hr.same hf
      dsimp only
      omega
    · intro hf
      obtain ⟨hpos, hu⟩ := hr.diff hf
      dsimp only
      omega

end

section
variable [Zero α]

theorem initBuffer_represents (b : RingBuffer α) :
    Represents b.elementCount b.initBuffer (History.initial α b.elementCount) where
  elementCount := rfl
  length_data := length_replicate
  readPos_le := Nat.zero_le _
  writePos_le := Nat.zero_le _
  same _ := ⟨le_rfl, rfl⟩
  diff hc := absurd hc (by simp [initBuffer])
  length_written := by simp [History.initial]
  recent := by simp [History.last, History.initial, initBuffer]

theorem step_simulates (hN : N < 2 ^ 30) (b : RingBuffer α) (h : History α)
    (c : Call α) (hr : Represents N b h) (hc : c.InRange) :
    ∃ b', b.step c = some (b', (h.step N c).2) ∧ Represents N b' (h.step N c).1 := by
  have hread := hr.readPos_le
  have hle := hr.unread_le
  cases c with
  | write xs =>
    obtain ⟨hcount, hrep⟩ := writeBuffer_spec hr xs
    exact ⟨_, by rw [step, hrep.outcome, hcount]; rfl, hrep⟩
  | read wantsPtr n =>
    obtain ⟨b', r, hb, hcount, he, hrep⟩ := readBuffer_spec hr hN wantsPtr n
    refine ⟨b', ?_, hrep⟩
    simp only [step, hb, map_some, hrep.outcome, hcount, he]
    rfl
  | move k =>
    have hclamp : h.clamp N k ≤ h.unread := max_le (by omega) (min_le_right _ _)
    obtain ⟨b', hb, hrep⟩ := moveReadPtr_spec hr (by omega) k (by omega)
    refine ⟨b', ?_, hrep⟩
    simp only [step, hb, map_some, hrep.outcome]
    rfl
  | init =>
    have hrep := initBuffer_represents b
    rw [hr.elementCount] at hrep
    exact ⟨_, by rw [step, hrep.outcome]; rfl, hrep⟩

/-- Every sequence of calls on a buffer of `N` elements is defined and returns, call by call,
what the history of written elements says. -/
def RefinesHistory (α : Type*) [Zero α] (N : ℕ) : Prop :=
  ∀ b ∈ createBuffer α N, ∀ calls : List (Call α), (∀ c ∈ calls, c.InRange) →
    ∃ b', Core.runPartial step b calls =
        some (b', Core.runResults (History.step N) (History.initial α N) calls) ∧
      Represents N b' (Core.runState (History.step N) (History.initial α N) calls)

def fillDrainTwice (α : Type*) [Zero α] (N : ℕ) : List (Call α) :=
  [.write (List.replicate N 0), .read false N, .write (List.replicate N 0), .read false N]

section
omit [Zero α]

section
variable {b : RingBuffer α}

theorem regions_full (hf : b.availableRead = N) : (b.getBufferReadRegions N).1 = N := by
  simp only [getBufferReadRegions, hf, lt_irrefl, if_false]
  split <;> rfl

theorem clampMove_full (hN : N < 2 ^ 31) (hf : b.availableRead = N) (hc : b.elementCount = N) :
    b.clampMove N = N := by
  simp only [clampMove, availableWrite, hf, hc, Nat.sub_self]
  rw [Core.toInt32_eq_self (by omega), if_neg (lt_irrefl _)]
  exact if_neg (by rw [Core.toInt32_eq_self] <;> norm_num)

theorem readBuffer_overflow (hN : N < 2 ^ 31) (hbig : 2 ^ 30 ≤ N) (hf : b.availableRead = N)
    (hc : b.elementCount = N) (hpos : b.readPos = N) (wantsPtr : Bool) :
    b.readBuffer wantsPtr N = none := by
  have hint : Core.toInt32 N = N := Core.toInt32_eq_self (by omega)
  simp only [readBuffer, regions_full hf, hint, moveReadPtr, clampMove_full hN hf hc,
    hpos]
  rw [if_pos (Or.inr (by omega))]
  rfl

theorem readBuffer_drain (hN : N < 2 ^ 31) (hf : b.availableRead = N)
    (hc : b.elementCount = N) (hpos : b.readPos = 0) (wantsPtr : Bool) :
    ∃ r, b.readBuffer wantsPtr N = some ({ b with readPos := N }, r) := by
  have hint : Core.toInt32 N = N := Core.toInt32_eq_self (by omega)
  have hz : Core.toInt32 (0 : ℕ) = 0 := Core.toInt32_eq_self ⟨by norm_num, by norm_num⟩
  simp only [readBuffer, regions_full hf, hint, moveReadPtr, clampMove_full hN hf hc,
    hpos, hz, zero_add, hc]
  rw [if_neg (by omega), if_neg (lt_irrefl _), if_neg (by dsimp only; omega)]
  rw [map_some, Core.toSizeT_natCast (show N < 2 ^ 64 by omega)]
  exact ⟨_, rfl⟩

theorem writeBuffer_fill (he : b.availableRead = 0) (hc : b.elementCount = N) (hpos : 0 < N)
    (hw : b.writePos = 0 ∨ b.writePos = N) {xs : List α} (hx : xs.length = N) :
    let r := (b.writeBuffer xs).1
    r.readPos = b.readPos ∧ r.writePos = N ∧ r.elementCount = N ∧
      r.rwWrap = if b.writePos = 0 then b.rwWrap else .diffWrap := by
  rcases hw with hw | hw
  · simp [writeBuffer, availableWrite, he, hc, hx, hw]
  · simp [writeBuffer, availableWrite, he, hc, hx, hw, hpos, hpos.ne']

end

end

theorem fillDrainTwice_overflows (hN : N < 2 ^ 31) (hbig : 2 ^ 30 ≤ N) :
    Core.runPartial step (initBuffer ⟨0, 0, N, .sameWrap, []⟩ : RingBuffer α)
      (fillDrainTwice α N) = none := by
  have hpos : 0 < N := by omega
  have hlen : (List.replicate N (0 : α)).length = N := length_replicate
  unfold fillDrainTwice
  generalize List.replicate N (0 : α) = xs at hlen ⊢
  set b₀ : RingBuffer α := initBuffer ⟨0, 0, N, .sameWrap, []⟩
  have hc₀ : b₀.elementCount = N := rfl
  have hr₀ : b₀.readPos = 0 := rfl
  have hw₀ : b₀.writePos = 0 := rfl
  have hf₀ : b₀.rwWrap = .sameWrap := rfl
  clear_value b₀
  -- The first fill does not wrap, and the first drain ends at position `N`.
  obtain ⟨hr₁, hw₁, hc₁, hf₁⟩ :=
    writeBuffer_fill (by rw [availableRead, hf₀, hw₀, hr₀]) hc₀ hpos (Or.inl hw₀) hlen
  set b₁ := (b₀.writeBuffer xs).1 with hb₁
  have hfull₁ : b₁.availableRead = N := by
    rw [availableRead, hf₁, hw₁, hr₁, if_pos hw₀, hf₀, hr₀, Nat.sub_zero]
  obtain ⟨r₂, hr₂⟩ := readBuffer_drain hN hfull₁ hc₁ (hr₁.trans hr₀) false
  -- The second fill wraps at once, so the second drain starts at `N`.
  have he₂ : ({ b₁ with readPos := N } : RingBuffer α).availableRead = 0 := by
    simp only [availableRead, hf₁, hw₁, if_pos hw₀, hf₀, Nat.sub_self]
  obtain ⟨hr₃, hw₃, hc₃, hf₃⟩ :=
    writeBuffer_fill he₂ hc₁ hpos (Or.inr hw₁) hlen
  set b₃ := (({ b₁ with readPos := N } : RingBuffer α).writeBuffer xs).1 with hb₃
  have hfull₃ : b₃.availableRead = N := by
    rw [availableRead, hf₃, if_neg (by rw [hw₁]; exact hpos.ne'), hc₃, hr₃, hw₃]
    simp
  have hr₄ := readBuffer_overflow hN hbig hfull₃ hc₃ hr₃ false
  have hs₁ : b₀.step (.write xs) = some (b₁, _) := rfl
  obtain ⟨o₂, hs₂⟩ : ∃ o, b₁.step (.read false N) = some ({ b₁ with readPos := N }, o) := by
    rw [step, hr₂, map_some]
    exact ⟨_, rfl⟩
  have hs₃ : ({ b₁ with readPos := N } : RingBuffer α).step (.write xs) = some (b₃, _) := rfl
  have hs₄ : b₃.step (.read false N) = none := by
    rw [step, hr₄, map_none]
  clear_value b₃ b₁
  exact Core.runPartial_none_of_tail hs₁ (Core.runPartial_none_of_tail hs₂
    (Core.runPartial_none_of_tail hs₃ (Core.runPartial_none_of_head hs₄ [])))

/-- A ring buffer of `N` elements refines its history exactly when twice `N` fits in an `int`. -/
theorem refinesHistory_iff (hpos : 1 ≤ N) (hN : N < 2 ^ 31) : RefinesHistory α N ↔ N < 2 ^ 30 := by
  have hc : createBuffer α N = some (initBuffer ⟨0, 0, N, .sameWrap, []⟩) :=
    if_neg (by omega)
  constructor
  · intro hrefines
    by_contra hbig
    obtain ⟨b', hrun, -⟩ := hrefines _ hc (fillDrainTwice α N) (by
      simp [fillDrainTwice, Call.InRange])
    rw [fillDrainTwice_overflows hN (by omega)] at hrun
    exact absurd hrun (by simp)
  · intro hs b hb calls hcalls
    obtain rfl : initBuffer ⟨0, 0, N, .sameWrap, []⟩ = b :=
      some.inj (hc.symm.trans hb)
    exact Core.runPartial_simulates (step_simulates hs)
      (initBuffer_represents ⟨0, 0, N, .sameWrap, []⟩) hcalls

theorem refinesHistory_four : RefinesHistory ℤ 4 :=
  (refinesHistory_iff (by norm_num) (by norm_num)).mpr (by norm_num)

theorem refinesHistory_fails_at_two_pow_thirty : ¬ RefinesHistory ℤ (2 ^ 30) := by
  intro hrefines
  obtain ⟨b', hrun, -⟩ := hrefines _ (if_neg (by norm_num)) (fillDrainTwice ℤ (2 ^ 30)) (by
    intro c hc
    unfold fillDrainTwice at hc
    generalize List.replicate (2 ^ 30) (0 : ℤ) = xs at hc
    simp only [mem_cons, not_mem_nil, or_false] at hc
    rcases hc with rfl | rfl | rfl | rfl <;> exact trivial)
  rw [fillDrainTwice_overflows (by norm_num) le_rfl] at hrun
  exact some_ne_none _ hrun.symm

end

end RingBuffer
end WebRtcAudio.CommonAudio
