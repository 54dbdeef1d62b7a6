import WebRtcAudio.Core.MachineInt
import WebRtcAudio.Core.Run

/-! `mod_ops.h` and `sequence_number_util.h` for an unsigned type of `w` bits that wraps at `M`, or
at `2 ^ w` if `M` is 0. Differences of types below 32 bits are taken in `int`. -/
namespace WebRtcAudio.RtcBase

open WebRtcAudio.Core

section Definitions

variable (w M a b : ℕ)

def modulus : ℕ := if M = 0 then 2 ^ w else M

def forwardDiff : ℕ :=
  if M = 0 then (b + 2 ^ w - a) % 2 ^ w else if a ≤ b then b - a else M - (a - b)

def reverseDiff : ℕ :=
  if M = 0 then (a + 2 ^ w - b) % 2 ^ w else if b ≤ a then a - b else M - (b - a)

def minDiff : ℕ := min (forwardDiff w M a b) (reverseDiff w M a b)

def aheadOrAt : Bool :=
  if M = 0 then
    let maxDist : ℕ := (2 ^ w - 1) / 2 + 1
    let difference : ℤ := if w < 32 then a - b else ((a + 2 ^ w - b) % 2 ^ w : ℕ)
    if difference = maxDist then b < a else forwardDiff w 0 b a < maxDist
  else if M % 2 = 0 ∧ minDiff w M a b = M / 2 then b < a
  else forwardDiff w M b a ≤ M / 2

def aheadOf : Bool := a ≠ b ∧ aheadOrAt w M a b

/-- `Add` and `Subtract` compute in `unsigned long`. -/
def add : ℕ :=
  let t := M - b % M
  let res := (a + 2 ^ 64 - t) % 2 ^ 64
  if t > a then (res + M) % 2 ^ 64 else res

def subtract : ℕ :=
  let sub := b % M
  if a < sub then M - (sub - a) else a - sub

def residue (x : ℤ) : ℕ := (x % modulus w M).toNat

end Definitions

structure SeqNumUnwrapper where
  lastUnwrapped : ℤ := 0
  lastValue : Option ℕ := none

/-- A sum that is no `int64_t` has no result. -/
def SeqNumUnwrapper.unwrap (w M : ℕ) (u : SeqNumUnwrapper) (value : ℕ) :
    Option (SeqNumUnwrapper × ℤ) := do
  let unwrapped ← match u.lastValue with
    | none => some (value : ℤ)
    | some last => do
      let forward ← int64? (u.lastUnwrapped + forwardDiff w M last value)
      if aheadOrAt w M value last then some forward else int64? (forward - modulus w M)
  return (⟨unwrapped, value⟩, unwrapped)

section Arithmetic

variable {w M a b : ℕ}

theorem forwardDiff_eq (ha : a < modulus w M) (hb : b < modulus w M) :
    forwardDiff w M a b = if a ≤ b then b - a else modulus w M - (a - b) := by
  unfold forwardDiff modulus at *
  split_ifs at * with hM hle
  · rw [Nat.add_comm, Nat.add_sub_assoc hle, Nat.add_mod_left, Nat.mod_eq_of_lt (by omega)]
  · rw [Nat.mod_eq_of_lt (by omega)]
    omega
  · rfl
  · rfl

theorem reverseDiff_eq : reverseDiff w M a b = forwardDiff w M b a := rfl

theorem aheadOrAt_iff (hw : 0 < w) (ha : a < modulus w M) (hb : b < modulus w M) :
    aheadOrAt w M a b = true ↔ 2 * forwardDiff w M b a < modulus w M ∨
      2 * forwardDiff w M b a = modulus w M ∧ b < a := by
  have hf := forwardDiff_eq ha hb
  have hbackward := forwardDiff_eq hb ha
  unfold aheadOrAt minDiff
  rw [reverseDiff_eq]
  by_cases hM : M = 0
  · subst hM
    have hd : (a + 2 ^ w - b) % 2 ^ w = forwardDiff w 0 b a := rfl
    have hpow : 2 ^ w = 2 * 2 ^ (w - 1) := by
      rw [← Nat.pow_succ', Nat.succ_eq_add_one, Nat.sub_add_cancel hw]
    simp only [modulus, if_true, hd] at *
    generalize forwardDiff w 0 b a = d, 2 ^ w = n, 2 ^ (w - 1) = half at *
    split_ifs at hbackward ⊢ <;> simp only [decide_eq_true_eq] <;> omega
  · simp only [modulus, if_neg hM] at *
    split_ifs at hf hbackward ⊢ <;> simp only [decide_eq_true_eq] <;> omega

theorem add_eq (hM : M < 2 ^ 64) (ha : a < M) :
    add M a b = if a + b % M < M then a + b % M else a + b % M - M := by
  have hlt := Nat.mod_lt b (by omega : 0 < M)
  dsimp only [add]
  split_ifs <;> omega

theorem modulus_pos : 0 < modulus w M := by
  unfold modulus
  split_ifs with h
  · exact Nat.two_pow_pos w
  · exact Nat.pos_of_ne_zero h

theorem emod_of_abs_lt {t n : ℤ} (h : |t| < n) : t % n = if 0 ≤ t then t else t + n := by
  obtain ⟨hlow, hh⟩ := abs_lt.mp h
  split_ifs with ht
  · exact Int.emod_eq_of_lt ht hh
  · rw [← Int.add_emod_right, Int.emod_eq_of_lt (by omega) (by omega)]

theorem cast_residue (w M : ℕ) (x : ℤ) : (residue w M x : ℤ) = x % modulus w M :=
  Int.toNat_of_nonneg (Int.emod_nonneg _ (by exact_mod_cast modulus_pos.ne'))

theorem residue_lt (w M : ℕ) (x : ℤ) : residue w M x < modulus w M := by
  have hlt := Int.emod_lt_of_pos x (b := modulus w M) (by exact_mod_cast modulus_pos)
  rw [← cast_residue] at hlt
  exact_mod_cast hlt

theorem forwardDiff_residue {x y : ℤ} (h : |y - x| < modulus w M) :
    (forwardDiff w M (residue w M x) (residue w M y) : ℤ) =
      if x ≤ y then y - x else y - x + modulus w M := by
  have hx := residue_lt w M x
  have hy := residue_lt w M y
  have hr : |(residue w M y : ℤ) - residue w M x| < modulus w M := abs_lt.mpr (by omega)
  have heq := emod_of_abs_lt hr
  rw [cast_residue w M y, cast_residue w M x, ← Int.sub_emod, emod_of_abs_lt h] at heq
  rw [← cast_residue, ← cast_residue] at heq
  rw [forwardDiff_eq hx hy]
  split_ifs at * <;> omega

namespace SeqNumUnwrapper

theorem unwrap_first {x : ℤ} (hx : 0 ≤ x ∧ x < modulus w M) :
    unwrap w M {} (residue w M x) = some (⟨x, some (residue w M x)⟩, x) := by
  simp [unwrap, cast_residue, Int.emod_eq_of_lt hx.1 hx.2]

section Steps

variable {x y : ℤ} (hw : 0 < w) (h : 2 * |y - x| < modulus w M)
include hw h

/-- After `x`, the residue of a number less than half of the modulus away is continued to it. On
the way back the first sum goes forward. -/
theorem unwrap_eq : unwrap w M ⟨x, some (residue w M x)⟩ (residue w M y) = do
    let forward ← int64? (if x ≤ y then y else y + modulus w M)
    let unwrapped ← if x ≤ y then some forward else int64? (forward - modulus w M)
    return (⟨unwrapped, some (residue w M y)⟩, unwrapped) := by
  have habs := abs_nonneg (y - x)
  have hd : _ = _ := forwardDiff_residue (by omega : |y - x| < modulus w M)
  obtain ⟨hlow, hhigh⟩ := abs_lt.mp (by omega : |y - x| < (modulus w M + 1) / 2)
  have ha : aheadOrAt w M (residue w M y) (residue w M x) = true ↔ x ≤ y := by
    rw [aheadOrAt_iff hw (residue_lt w M y) (residue_lt w M x)]
    split_ifs at hd <;> omega
  have hsum : x + forwardDiff w M (residue w M x) (residue w M y) =
      if x ≤ y then y else y + modulus w M := by
    split_ifs at hd ⊢ <;> omega
  simp only [unwrap, ha, hsum, Option.bind_eq_bind]

theorem unwrap_eq_some (hlow : -2 ^ 63 ≤ y) (hhigh : y + modulus w M < 2 ^ 63) :
    unwrap w M ⟨x, some (residue w M x)⟩ (residue w M y) =
      some (⟨y, some (residue w M y)⟩, y) := by
  rw [unwrap_eq hw h]
  split_ifs
  · rw [int64?_bind (by omega)]
    rfl
  · rw [int64?_bind (by omega), add_sub_cancel_right, int64?_bind (by omega)]
    rfl

theorem eq_of_unwrap {u : SeqNumUnwrapper} {r : ℤ}
    (hu : unwrap w M ⟨x, some (residue w M x)⟩ (residue w M y) = some (u, r)) :
    u = ⟨y, some (residue w M y)⟩ ∧ r = y ∧ y < 2 ^ 63 := by
  rw [unwrap_eq hw h] at hu
  split_ifs at hu
  · simp only [Option.bind_eq_bind, Option.bind_eq_some_iff, int64?_eq_some_iff,
      Option.bind_some] at hu
    obtain ⟨_, ⟨rfl, -, hf⟩, hu⟩ := hu
    cases hu
    exact ⟨rfl, rfl, hf⟩
  · simp only [Option.bind_eq_bind, Option.bind_eq_some_iff, int64?_eq_some_iff] at hu
    obtain ⟨_, ⟨rfl, -, hf⟩, _, ⟨rfl, -⟩, hu⟩ := hu
    rw [add_sub_cancel_right] at hu
    cases hu
    exact ⟨rfl, rfl, by omega⟩

end Steps

section Runs

variable {x : ℤ} {xs : List ℤ} (hw : 0 < w)
  (h : (x :: xs).IsChain fun (x y : ℤ) => 2 * |y - x| < (modulus w M : ℤ))
include hw h

theorem runPartial_unwrap_eq (hxs : ∀ y ∈ xs, -2 ^ 63 ≤ y ∧ y + modulus w M < 2 ^ 63) :
    (runPartial (unwrap w M) ⟨x, some (residue w M x)⟩ (xs.map (residue w M))).map Prod.snd =
      some xs := by
  induction xs generalizing x with
  | nil => rfl
  | cons y xs ih =>
    obtain ⟨hc, h⟩ := List.isChain_cons_cons.mp h
    obtain ⟨hy, hr⟩ := List.forall_mem_cons.mp hxs
    obtain ⟨⟨u, rs⟩, hrun, rfl⟩ := Option.map_eq_some_iff.mp (ih h hr)
    rw [List.map_cons,
      (runPartial_cons_eq_some_iff (unwrap_eq_some hw hc hy.1 hy.2)).mpr hrun]
    rfl

theorem lt_of_runPartial_unwrap {u : SeqNumUnwrapper} {rs : List ℤ}
    (hrun : runPartial (unwrap w M) ⟨x, some (residue w M x)⟩ (xs.map (residue w M)) =
      some (u, rs)) : ∀ y ∈ xs, y < 2 ^ 63 := by
  induction xs generalizing x rs with
  | nil => simp
  | cons y xs ih =>
    obtain ⟨hc, h⟩ := List.isChain_cons_cons.mp h
    obtain ⟨_, r, rs, hs, hr, -⟩ := exists_of_runPartial_cons hrun
    obtain ⟨rfl, -, hy⟩ := eq_of_unwrap hw hc hs
    exact List.forall_mem_cons.mpr ⟨hy, ih h hr⟩

end Runs

end SeqNumUnwrapper

/-- The order of the numbers is total, the differences undo `Add` and `Subtract`, and a walk with
steps shorter than half of the modulus is unwrapped to itself, as long as it stays in the `int64_t`s
and a modulus away from the largest. -/
theorem sequenceNumbers_spec (hw : 0 < w) :
    (∀ a b, a < modulus w M → b < modulus w M →
      (a = b ∨ aheadOf w M a b ∨ aheadOf w M b a) ∧ ¬ (a = b ∧ aheadOf w M a b) ∧
        ¬ (a = b ∧ aheadOf w M b a) ∧ ¬ (aheadOf w M a b ∧ aheadOf w M b a)) ∧
    (modulus w M < 2 ^ 64 → ∀ a b d, a < modulus w M → b < modulus w M →
      forwardDiff w M a (add (modulus w M) a d) = d % modulus w M ∧
        add (modulus w M) a (forwardDiff w M a b) = b ∧
        reverseDiff w M a (subtract (modulus w M) a d) = d % modulus w M ∧
        subtract (modulus w M) a (reverseDiff w M a b) = b) ∧
    ∀ xs : List ℤ, (∀ x ∈ xs.head?, 0 ≤ x ∧ x < modulus w M) →
      (∀ x ∈ xs, -2 ^ 63 ≤ x ∧ x + modulus w M < 2 ^ 63) →
      xs.IsChain (fun (x y : ℤ) => 2 * |y - x| < (modulus w M : ℤ)) →
        (runPartial (SeqNumUnwrapper.unwrap w M) {} (xs.map (residue w M))).map Prod.snd =
          some xs := by
  refine ⟨fun a b ha hb => ?_, fun hs a b d ha hb => ?_, ?_⟩
  · have hf := forwardDiff_eq ha hb
    have hbackward := forwardDiff_eq hb ha
    simp only [aheadOf, decide_eq_true_eq, aheadOrAt_iff hw ha hb, aheadOrAt_iff hw hb ha]
    split_ifs at * <;> omega
  · have hd := Nat.mod_lt d (modulus_pos (w := w) (M := M))
    have hf := forwardDiff_eq ha hb
    have hbackward := forwardDiff_eq hb ha
    have hadd := add_eq (b := d) hs ha
    have hlt : add (modulus w M) a d < modulus w M := by split_ifs at hadd <;> omega
    have hsub : subtract (modulus w M) a d < modulus w M := by
      dsimp only [subtract]
      split_ifs <;> omega
    refine ⟨?_, ?_, ?_, ?_⟩
    · rw [forwardDiff_eq ha hlt]
      split_ifs at * <;> omega
    · rw [add_eq hs ha, Nat.mod_eq_of_lt (by split_ifs at hf <;> omega)]
      split_ifs at * <;> omega
    · rw [reverseDiff_eq, forwardDiff_eq hsub ha]
      dsimp only [subtract] at *
      split_ifs at * <;> omega
    · rw [reverseDiff_eq, subtract, Nat.mod_eq_of_lt (by split_ifs at hbackward <;> omega)]
      split_ifs at * <;> omega
  · rintro (_ | ⟨x, xs⟩) hh hfits hc
    · rfl
    have hfirst := SeqNumUnwrapper.unwrap_first (hh x rfl)
    obtain ⟨⟨u, rs⟩, hrun, rfl⟩ := Option.map_eq_some_iff.mp
      (SeqNumUnwrapper.runPartial_unwrap_eq hw hc (List.forall_mem_cons.mp hfits).2)
    rw [List.map_cons, (runPartial_cons_eq_some_iff hfirst).mpr hrun]
    rfl

end Arithmetic

theorem sequenceNumbers_spec_odd :
    (runPartial (SeqNumUnwrapper.unwrap 8 5) {} ([4, 6, 4, 3, 1, -1].map (residue 8 5))).map
      Prod.snd = some [4, 6, 4, 3, 1, -1] :=
  (sequenceNumbers_spec (w := 8) (M := 5) (by decide)).2.2 _ (by decide) (by decide) (by decide)

theorem SeqNumUnwrapper.multiples_leave {n : ℕ} (hn : 2 ^ 63 ≤ (n : ℤ) * (2 ^ 31 - 1)) :
    let xs := multiples (2 ^ 31 - 1) n
    (∀ x ∈ xs.head?, 0 ≤ x ∧ x < modulus 32 0) ∧
      xs.IsChain (fun (x y : ℤ) => 2 * |y - x| < (modulus 32 0 : ℤ)) ∧
      runPartial (unwrap 32 0) {} (xs.map (residue 32 0)) = none := by
  have hc : (multiples (2 ^ 31 - 1) n).IsChain fun (x y : ℤ) =>
      2 * |y - x| < (modulus 32 0 : ℤ) :=
    (isChain_multiples (by norm_num : |2 ^ 31 - 1| < (2 : ℤ) ^ 31) n).imp fun x y hxy => by
      simp only [modulus, if_true]
      push_cast
      omega
  have hmem := mul_mem_multiples (2 ^ 31 - 1) n
  dsimp only
  rw [multiples_eq_cons] at hc hmem ⊢
  refine ⟨by simp [modulus], hc, ?_⟩
  by_contra hd
  obtain ⟨⟨u, rs⟩, hrun⟩ := Option.ne_none_iff_exists'.mp hd
  obtain ⟨_, r, rs, hs, hr, -⟩ := exists_of_runPartial_cons hrun
  rw [unwrap_first (by simp [modulus])] at hs
  cases hs
  have hf := lt_of_runPartial_unwrap (by decide) hc hr
  rcases List.mem_cons.mp hmem with hzero | hmem
  · omega
  · exact absurd (hf _ hmem) (by omega)

/-- A walk up in steps of `2 ^ 31 - 1` leaves the `int64_t`s. -/
theorem sequenceNumbers_overflow : ∃ xs : List ℤ, (∀ x ∈ xs.head?, 0 ≤ x ∧ x < modulus 32 0) ∧
      xs.IsChain (fun (x y : ℤ) => 2 * |y - x| < (modulus 32 0 : ℤ)) ∧
      runPartial (SeqNumUnwrapper.unwrap 32 0) {} (xs.map (residue 32 0)) = none :=
  ⟨_, SeqNumUnwrapper.multiples_leave
    (by norm_num : 2 ^ 63 ≤ ((2 ^ 32 + 3 : ℕ) : ℤ) * (2 ^ 31 - 1))⟩

end WebRtcAudio.RtcBase
