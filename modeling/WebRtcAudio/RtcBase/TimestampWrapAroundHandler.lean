import WebRtcAudio.Core.MachineInt
import WebRtcAudio.Core.Run

/-! `rtc::TimestampWrapAroundHandler`: a step back across a wrap does not move the reference. -/
namespace WebRtcAudio.RtcBase

open WebRtcAudio.Core List

structure TimestampWrapAroundHandler where
  lastTs : ℕ := 0
  numWrap : ℤ := -1

namespace TimestampWrapAroundHandler

def store (ts : ℕ) (numWrap : ℤ) : TimestampWrapAroundHandler × Option ℤ :=
  (⟨ts, numWrap⟩, int64? (ts + numWrap * 2 ^ 32))

def unwrap (h : TimestampWrapAroundHandler) (ts : ℕ) : TimestampWrapAroundHandler × Option ℤ :=
  if h.numWrap = -1 then store ts 0
  else if ts < h.lastTs then
    if h.lastTs ≥ 0xf0000000 ∧ ts < 0x0fffffff then store ts (h.numWrap + 1)
    else store ts h.numWrap
  else if ts - h.lastTs > 0xf0000000 then
    -- a backwards wrap leaves the last timestamp
    (h, int64? (ts + (h.numWrap - 1) * 2 ^ 32))
  else store ts h.numWrap

/-- The call with the low 32 bits of a value. -/
def feed (h : TimestampWrapAroundHandler) (x : ℕ) : TimestampWrapAroundHandler × Option ℤ :=
  h.unwrap (x % 2 ^ 32)

def last (h : TimestampWrapAroundHandler) : ℤ := h.lastTs + h.numWrap * 2 ^ 32

def Near (h : TimestampWrapAroundHandler) (x : ℕ) : Prop :=
  (h.numWrap = -1 ∨ h.last < x + 2 ^ 28) ∧ x < 2 ^ 63

/-- The value before was stored, or lies a little below the stored one and below the wrap. -/
structure Follows (h : TimestampWrapAroundHandler) (prev : ℕ) : Prop where
  lastTs : h.lastTs < 2 ^ 32
  numWrap : 0 ≤ h.numWrap
  last : h.last = prev ∨
    prev < h.numWrap * 2 ^ 32 ∧ h.lastTs < 2 ^ 28 ∧ h.last < prev + 2 ^ 28

theorem store_spec (x : ℕ) {numWrap : ℤ} (hw : 0 ≤ numWrap) :
    ((store (x % 2 ^ 32) numWrap).2 = some (x : ℤ) ↔ numWrap = x / 2 ^ 32 ∧ x < 2 ^ 63) ∧
      (numWrap = x / 2 ^ 32 → (store (x % 2 ^ 32) numWrap).1.Follows x) := by
  refine ⟨?_, fun heq => ⟨Nat.mod_lt _ (by decide), hw, .inl ?_⟩⟩
  · rw [store, int64?_eq_some_iff]
    omega
  · simp only [store, last]
    omega

variable {h : TimestampWrapAroundHandler} {p : ℕ}

theorem Follows.feed (hf : h.Follows p) {x : ℕ} (hup : x < p + 2 ^ 28) (hdown : p < x + 2 ^ 28) :
    ((h.feed x).2 = some (x : ℤ) ↔ h.Near x) ∧ (h.Near x → (h.feed x).1.Follows x) := by
  obtain ⟨hlt, hn, hl⟩ := hf
  unfold TimestampWrapAroundHandler.last at hl
  have hnear : h.Near x ↔ h.lastTs + h.numWrap * 2 ^ 32 < x + 2 ^ 28 ∧ x < 2 ^ 63 := by
    rw [Near, or_iff_right (by omega)]
    rfl
  rw [TimestampWrapAroundHandler.feed, unwrap, if_neg (by omega), hnear]
  split_ifs
  · have hs := store_spec x (by omega : 0 ≤ h.numWrap + 1)
    exact ⟨hs.1.trans (by omega), fun hx => hs.2 (by omega)⟩
  · exact ⟨(store_spec x hn).1.trans (by omega), fun hx => (store_spec x hn).2 (by omega)⟩
  · refine ⟨?_, fun hx => ⟨hlt, hn, .inr ?_⟩⟩
    · rw [int64?_eq_some_iff]
      omega
    · unfold TimestampWrapAroundHandler.last
      dsimp only
      omega
  · exact ⟨(store_spec x hn).1.trans (by omega), fun hx => (store_spec x hn).2 (by omega)⟩

def Short (x y : ℕ) : Prop := |(y : ℤ) - x| < 2 ^ 28

theorem Follows.runResults_iff (hf : h.Follows p) {xs : List ℕ} (hxs : (p :: xs).IsChain Short) :
    runResults TimestampWrapAroundHandler.feed h xs = xs.map (fun x : ℕ => some (x : ℤ)) ↔
      ∀ pre x post, xs = pre ++ x :: post →
        (runState TimestampWrapAroundHandler.feed h pre).Near x := by
  induction xs generalizing h p with
  | nil => simp
  | cons x xs ih =>
    obtain ⟨hs, hxs⟩ := isChain_cons_cons.mp hxs
    rw [Short, abs_lt] at hs
    obtain ⟨hr, hn⟩ := hf.feed (x := x) (by omega) (by omega)
    rw [forall_split_cons (Q := fun pre => (runState _ h pre).Near), runResults_cons, map_cons,
      cons.injEq, hr]
    exact and_congr_right fun hx => ih (hn hx) hxs

/-- The values of a sequence with short steps are returned exactly if none of them is `2 ^ 28` or
more below the value last stored. -/
theorem unwrap_iff (xs : List ℕ) (hhead : ∀ x ∈ xs.head?, x < 2 ^ 32) (hsteps : xs.IsChain Short) :
    runResults feed {} xs = xs.map (fun x : ℕ => some (x : ℤ)) ↔
      ∀ pre x post, xs = pre ++ x :: post → (runState feed {} pre).Near x := by
  cases xs with
  | nil => simp
  | cons x xs =>
    have hx : x < 2 ^ 32 := hhead x rfl
    obtain ⟨hr, hn⟩ := store_spec x le_rfl
    rw [forall_split_cons (Q := fun pre => (runState feed {} pre).Near), runResults_cons, map_cons,
      cons.injEq]
    refine and_congr (hr.trans ?_) ((hn (by omega)).runResults_iff hsteps)
    simp only [Near, runState_nil, true_or, true_and]
    omega

theorem unwrap_iff_acrossWrap : [4294967290, 4294967300, 4294967290].IsChain Short ∧
    ∀ pre x post, [4294967290, 4294967300, 4294967290] = pre ++ x :: post →
      (runState feed {} pre).Near x := by
  have hs : [4294967290, 4294967300, 4294967290].IsChain Short := by
    unfold Short
    decide
  exact ⟨hs, (unwrap_iff _ (by decide) hs).mp (by decide +kernel)⟩

theorem unwrap_loses_backward_run : [4294967295, 4294967301, 4294967295, 4026531844].IsChain Short ∧
    runResults feed {} [4294967295, 4294967301, 4294967295, 4026531844] =
      [some 4294967295, some 4294967301, some 4294967295, some (4026531844 + 2 ^ 32)] := by
  unfold Short
  decide +kernel

end TimestampWrapAroundHandler

end WebRtcAudio.RtcBase
