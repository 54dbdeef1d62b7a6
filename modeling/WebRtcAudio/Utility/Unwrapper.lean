import WebRtcAudio.Core.MachineInt
import WebRtcAudio.Core.Run

/-! `Unwrapper<U>` for an unsigned type of `w` bits, continued in an `int64_t`. -/
namespace WebRtcAudio.Utility

open WebRtcAudio.Core

section Definitions

variable {w : ℕ}

def difference (a b : BitVec w) : ℤ :=
  if w < 32 then (a.toNat : ℤ) - b.toNat else (a - b).toNat

def isNewer (value prevValue : BitVec w) : Bool :=
  if difference value prevValue = 2 ^ (w - 1) then prevValue < value
  else value ≠ prevValue && (value - prevValue).toNat < 2 ^ (w - 1)

/-- A sum that is no `int64_t` has no result. -/
def unwrapWithoutUpdate (lastValue : Option ℤ) (value : BitVec w) : Option ℤ :=
  match lastValue with
  | none => some value.toNat
  | some last =>
    let croppedLast := BitVec.ofInt w last
    let delta := difference value croppedLast
    if isNewer value croppedLast then
      -- wrap forwards
      int64? (last + if delta < 0 then delta + 2 ^ w else delta)
    else if delta > 0 then do
      let sum ← int64? (last + delta)
      let wrapped ← int64? (sum - 2 ^ w)
      int64? (last + if wrapped ≥ 0 then delta - 2 ^ w else delta)
    else int64? (last + delta)

def unwrap (lastValue : Option ℤ) (value : BitVec w) : Option (Option ℤ × ℤ) := do
  let unwrapped ← unwrapWithoutUpdate lastValue value
  return (some unwrapped, unwrapped)

end Definitions

/-- The result has the value, and is within half a turn of the last one unless that is negative. -/
structure Continues {w : ℕ} (last : ℤ) (value : BitVec w) (result : ℤ) : Prop where
  nonneg : 0 ≤ result
  cropped : BitVec.ofInt w result = value
  close : |result - last| ≤ 2 ^ (w - 1) ∨
    ∀ y, BitVec.ofInt w y = value → |y - last| ≤ 2 ^ (w - 1) → y < 0

variable {w : ℕ}

theorem toNat_ofInt (x : ℤ) : ((BitVec.ofInt w x).toNat : ℤ) = x % 2 ^ w := by
  rw [BitVec.toNat_ofInt, Int.toNat_of_nonneg (Int.emod_nonneg _ (by positivity))]
  norm_cast

theorem isNewer_iff {a b : BitVec w} : isNewer a b = true ↔
    if difference a b = 2 ^ (w - 1) then b.toNat < a.toNat
    else a.toNat ≠ b.toNat ∧ (a - b).toNat < 2 ^ (w - 1) := by
  unfold isNewer
  split <;> simp [BitVec.lt_def, BitVec.toNat_eq]

theorem modEq_of_ofInt_eq {x y : ℤ} (h : BitVec.ofInt w x = BitVec.ofInt w y) :
    x ≡ y [ZMOD 2 ^ w] := by
  have hmod := congrArg (fun v : BitVec w => (v.toNat : ℤ)) h
  rwa [toNat_ofInt, toNat_ofInt] at hmod

section Step

variable {last r : ℤ} {value : BitVec w}

theorem eq_of_unwrap (h : unwrapWithoutUpdate (some last) value = some r) :
    let delta := difference value (BitVec.ofInt w last)
    r < 2 ^ 63 ∧ r = last + if isNewer value (BitVec.ofInt w last) then
      if delta < 0 then delta + 2 ^ w else delta
    else if delta > 0 ∧ last + delta - 2 ^ w ≥ 0 then delta - 2 ^ w else delta := by
  simp only [unwrapWithoutUpdate] at h
  generalize difference value (BitVec.ofInt w last) = delta at h
  by_cases hn : isNewer value (BitVec.ofInt w last) = true
  · simp only [hn, if_true, int64?_eq_some_iff] at h ⊢
    exact ⟨h.2.2, h.1.symm⟩
  · simp only [hn, Bool.false_eq_true, if_false] at h ⊢
    split_ifs at h with hpos
    · simp only [Option.bind_eq_bind, Option.bind_eq_some_iff, int64?_eq_some_iff] at h
      obtain ⟨_, ⟨rfl, -⟩, _, ⟨rfl, -⟩, heq, -, hr⟩ := h
      refine ⟨hr, ?_⟩
      simp only [← heq, hpos, true_and]
    · obtain ⟨heq, -, hr⟩ := int64?_eq_some_iff.mp h
      rw [if_neg fun hwrap => hpos hwrap.1]
      exact ⟨hr, heq.symm⟩

variable (hw : w = 16 ∨ w = 32) (hlast : 0 ≤ last)
include hw hlast

theorem exists_unwrap (value : BitVec w) (hfits : last < 2 ^ 63 - 2 ^ w) :
    ∃ r, unwrapWithoutUpdate (some last) value = some r := by
  have hd : -2 ^ w < difference value (BitVec.ofInt w last) ∧
      difference value (BitVec.ofInt w last) < 2 ^ w := by
    have hlt := value.isLt
    have hcrop := (BitVec.ofInt w last).isLt
    have hsub := (value - BitVec.ofInt w last).isLt
    unfold difference
    rcases hw with rfl | rfl <;> norm_num at * <;> omega
  have hw' : (2 : ℤ) ^ w ≤ 2 ^ 32 := by
    rcases hw with rfl | rfl <;> norm_num
  simp only [unwrapWithoutUpdate]
  generalize difference value (BitVec.ofInt w last) = delta at hd
  split_ifs with hnewer hneg hpos
  · exact ⟨_, int64?_eq_some_iff.mpr ⟨rfl, by omega⟩⟩
  · exact ⟨_, int64?_eq_some_iff.mpr ⟨rfl, by omega⟩⟩
  · rw [int64?_bind (by omega), int64?_bind (by omega)]
    exact ⟨_, int64?_eq_some_iff.mpr ⟨rfl, by split_ifs <;> omega⟩⟩
  · exact ⟨_, int64?_eq_some_iff.mpr ⟨rfl, by omega⟩⟩

theorem continues_unwrap (h : unwrapWithoutUpdate (some last) value = some r) :
    Continues last value r := by
  have hkey : 0 ≤ r ∧ r % 2 ^ w = value.toNat ∧
      (-2 ^ (w - 1) ≤ r - last ∧ r - last ≤ 2 ^ (w - 1) ∨
        2 ^ (w - 1) < r - last ∧ r < 2 ^ w) := by
    have hcrop := toNat_ofInt (w := w) last
    have hlt := value.isLt
    obtain ⟨-, hr⟩ := eq_of_unwrap h
    simp only [isNewer_iff, difference, BitVec.toNat_sub] at hr
    rcases hw with rfl | rfl <;> norm_num at * <;> split_ifs at hr <;> omega
  obtain ⟨hn, hmod, hclose⟩ := hkey
  have hc : BitVec.ofInt w r = value :=
    BitVec.eq_of_toNat_eq (by exact_mod_cast (toNat_ofInt r).trans hmod)
  refine ⟨hn, hc, hclose.imp abs_le.mpr fun hfar y hy hnear => ?_⟩
  have hdvd := (modEq_of_ofInt_eq (hy.trans hc.symm)).dvd
  have hle := Int.le_of_dvd (by have := (abs_le.mp hnear).2; omega) hdvd
  omega

end Step

/-- A sequence whose steps are shorter than half the range is continued as it is. -/
theorem Continues.eq_of_close {last x r : ℤ} (h : Continues last (BitVec.ofInt w x) r) (hw : 0 < w)
    (hx : 0 ≤ x) (hc : |x - last| < 2 ^ (w - 1)) : r = x := by
  obtain hr | hneg := h.close
  · have hsum := abs_sub_le x last r
    rw [abs_sub_comm last r] at hsum
    have hpow : (2 : ℤ) ^ w = 2 ^ (w - 1) + 2 ^ (w - 1) := by
      rw [← two_mul, ← pow_succ', Nat.sub_add_cancel hw]
    have hzero := Int.eq_zero_of_abs_lt_dvd (modEq_of_ofInt_eq h.cropped).dvd (by omega)
    omega
  · exact absurd (hneg x rfl hc.le) (by omega)

theorem unwrap_eq_some_iff {lastValue next : Option ℤ} {value : BitVec w} {r : ℤ} :
    unwrap lastValue value = some (next, r) ↔
      unwrapWithoutUpdate lastValue value = some r ∧ next = some r := by
  unfold unwrap
  cases unwrapWithoutUpdate lastValue value with
  | none => simp
  | some unwrapped =>
    simp only [Option.bind_eq_bind, Option.bind_some, Option.pure_def, Option.some.injEq,
      Prod.mk.injEq]
    constructor
    · rintro ⟨rfl, rfl⟩
      exact ⟨rfl, rfl⟩
    · rintro ⟨rfl, rfl⟩
      exact ⟨rfl, rfl⟩

section Runs

variable {w : ℕ} (hw : w = 16 ∨ w = 32)
include hw

/-- Where a run over a sequence with short steps is defined, it returns the sequence. -/
theorem runPartial_unwrap_eq {last : ℤ} (hlast : 0 ≤ last) {xs rs : List ℤ} {next : Option ℤ}
    (hxs : ∀ x ∈ xs, 0 ≤ x) (h : (last :: xs).IsChain fun x y => |y - x| < 2 ^ (w - 1))
    (hrun : runPartial unwrap (some last) (xs.map (BitVec.ofInt w)) = some (next, rs)) :
    rs = xs ∧ ∀ r ∈ rs, r < 2 ^ 63 := by
  induction xs generalizing last rs with
  | nil =>
    cases hrun
    exact ⟨rfl, by simp⟩
  | cons x xs ih =>
    obtain ⟨hx, hrest'⟩ := List.forall_mem_cons.mp hxs
    obtain ⟨hc, h⟩ := List.isChain_cons_cons.mp h
    obtain ⟨_, r, rs, hs, hrest, rfl⟩ := exists_of_runPartial_cons hrun
    obtain ⟨hr, rfl⟩ := unwrap_eq_some_iff.mp hs
    obtain rfl : r = x := (continues_unwrap hw hlast hr).eq_of_close (by omega) hx hc
    obtain ⟨rfl, hf⟩ := ih hx hrest' h hrest
    exact ⟨rfl, List.forall_mem_cons.mpr ⟨(eq_of_unwrap hr).1, hf⟩⟩

theorem exists_runPartial_unwrap {last : ℤ} (hlast : 0 ≤ last) {xs : List ℤ}
    (hxs : ∀ x ∈ last :: xs, 0 ≤ x ∧ x < 2 ^ 63 - 2 ^ w)
    (h : (last :: xs).IsChain fun x y => |y - x| < 2 ^ (w - 1)) :
    ∃ next rs, runPartial unwrap (some last) (xs.map (BitVec.ofInt w)) = some (next, rs) := by
  induction xs generalizing last with
  | nil => exact ⟨some last, [], rfl⟩
  | cons x xs ih =>
    obtain ⟨hl, hxs⟩ := List.forall_mem_cons.mp hxs
    obtain ⟨hc, h⟩ := List.isChain_cons_cons.mp h
    have hx := (List.forall_mem_cons.mp hxs).1
    obtain ⟨r, hr⟩ := exists_unwrap hw hlast (BitVec.ofInt w x) hl.2
    obtain rfl : r = x := (continues_unwrap hw hlast hr).eq_of_close (by omega) hx.1 hc
    obtain ⟨next, rs, hrun⟩ := ih hx.1 hxs h
    exact ⟨next, r :: rs,
      (runPartial_cons_eq_some_iff (unwrap_eq_some_iff.mpr ⟨hr, rfl⟩)).mpr hrun⟩

theorem nonneg_of_runPartial {values : List (BitVec w)} {lastValue last₀ : Option ℤ} {rs : List ℤ}
    (hlast₀ : ∀ last ∈ last₀, 0 ≤ last)
    (hrun : runPartial unwrap last₀ values = some (lastValue, rs)) :
    ∀ last ∈ lastValue, 0 ≤ last := by
  induction values generalizing last₀ rs with
  | nil =>
    cases hrun
    exact hlast₀
  | cons value values ih =>
    obtain ⟨_, r, rs, hs, hrest, rfl⟩ := exists_of_runPartial_cons hrun
    obtain ⟨hr, rfl⟩ := unwrap_eq_some_iff.mp hs
    refine ih ?_ hrest
    rintro _ ⟨⟩
    cases last₀ with
    | none =>
      cases hr
      exact Int.natCast_nonneg _
    | some last => exact (continues_unwrap hw (hlast₀ last rfl) hr).nonneg

/-- Numbers from a sequence with short steps are unwrapped to it. Any result is not negative, has
the number as its low bits, and is the closest such value to the last one unless that is negative.
There is a result as long as the last one was not within `2 ^ w` of the end of the `int64_t`. -/
theorem unwrap_spec : (∀ xs : List ℤ, (∀ x ∈ xs, 0 ≤ x ∧ x < 2 ^ 62) → (∀ x ∈ xs.head?, x < 2 ^ w) →
      xs.IsChain (fun x y => |y - x| < 2 ^ (w - 1)) →
        (runPartial unwrap none (xs.map (BitVec.ofInt w))).map Prod.snd = some xs) ∧
    ∀ (values : List (BitVec w)) (value : BitVec w) lastValue results,
      runPartial unwrap none values = some (lastValue, results) →
      (∀ last ∈ lastValue, last < 2 ^ 63 - 2 ^ w) →
      ∃ result, unwrap lastValue value = some (some result, result) ∧
        0 ≤ result ∧ BitVec.ofInt w result = value ∧ ∀ last ∈ lastValue,
          |result - last| ≤ 2 ^ (w - 1) ∨
            ∀ y, BitVec.ofInt w y = value → |y - last| ≤ 2 ^ (w - 1) → y < 0 := by
  have hw' : (2 : ℤ) ^ w ≤ 2 ^ 32 := by
    rcases hw with rfl | rfl <;> norm_num
  constructor
  · rintro (_ | ⟨x, xs⟩) hxs hh hchain
    · rfl
    have hx := (List.forall_mem_cons.mp hxs).1
    have hf : unwrapWithoutUpdate none (BitVec.ofInt w x) = some x :=
      congrArg some ((toNat_ofInt x).trans (Int.emod_eq_of_lt hx.1 (hh x rfl)))
    obtain ⟨next, rs, hrun⟩ := exists_runPartial_unwrap hw hx.1
      (fun y hy => ⟨(hxs y hy).1, by have := (hxs y hy).2; omega⟩) hchain
    obtain ⟨rfl, -⟩ := runPartial_unwrap_eq hw hx.1
      (fun y hy => (hxs y (List.mem_cons_of_mem x hy)).1) hchain hrun
    rw [List.map_cons, (runPartial_cons_eq_some_iff (unwrap_eq_some_iff.mpr ⟨hf, rfl⟩)).mpr hrun]
    rfl
  · intro values value lastValue results hrun hfits
    have hlast := nonneg_of_runPartial hw (by simp) hrun
    cases lastValue with
    | none =>
      exact ⟨value.toNat, rfl, Int.natCast_nonneg _, by simp, nofun⟩
    | some last =>
      obtain ⟨r, hr⟩ := exists_unwrap hw (hlast last rfl) value (hfits last rfl)
      obtain ⟨hn, hc, hclose⟩ := continues_unwrap hw (hlast last rfl) hr
      refine ⟨r, unwrap_eq_some_iff.mpr ⟨hr, rfl⟩, hn, hc, ?_⟩
      rintro _ ⟨⟩
      exact hclose

end Runs

theorem unwrap_spec_timestamps :
    (runPartial unwrap none ([0, 2 ^ 31 - 1, 2 ^ 32 - 2, 2 ^ 32 + 5].map (BitVec.ofInt 32))).map
      Prod.snd = some [0, 2 ^ 31 - 1, 2 ^ 32 - 2, 2 ^ 32 + 5] :=
  (unwrap_spec (.inr rfl)).1 _ (by decide) (by decide) (by decide)

theorem runPartial_multiples_eq_none {n : ℕ} (hn : 2 ^ 63 ≤ (n : ℤ) * (2 ^ 31 - 1)) :
    runPartial unwrap none ((multiples (2 ^ 31 - 1) n).map (BitVec.ofInt 32)) = none := by
  have hc := isChain_multiples (by norm_num : |2 ^ 31 - 1| < (2 : ℤ) ^ (32 - 1)) n
  have hmem := mul_mem_multiples (2 ^ 31 - 1) n
  have hnonneg : ∀ x ∈ multiples (2 ^ 31 - 1) n, 0 ≤ x := by
    rw [multiples, List.forall_mem_map]
    intro i _
    exact mul_nonneg (Int.natCast_nonneg i) (by norm_num)
  rw [multiples_eq_cons] at hc hmem hnonneg ⊢
  by_contra hd
  obtain ⟨⟨next, rs⟩, hrun⟩ := Option.ne_none_iff_exists'.mp hd
  obtain ⟨_, r, rs, hs, hr, -⟩ := exists_of_runPartial_cons hrun
  cases hs
  obtain ⟨rfl, hf⟩ := runPartial_unwrap_eq (.inr rfl) le_rfl
    (List.forall_mem_cons.mp hnonneg).2 hc hr
  rcases List.mem_cons.mp hmem with hzero | hmem
  · omega
  · exact absurd (hf _ hmem) (by omega)

/-- Steps of `2 ^ 31 - 1` leave the `int64_t`. -/
theorem unwrap_overflows : ∃ values : List (BitVec 32), runPartial unwrap none values = none :=
  ⟨_, runPartial_multiples_eq_none (by norm_num : 2 ^ 63 ≤ ((2 ^ 32 + 3 : ℕ) : ℤ) * (2 ^ 31 - 1))⟩

end WebRtcAudio.Utility
