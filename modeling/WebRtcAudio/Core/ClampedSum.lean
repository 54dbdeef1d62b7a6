import Mathlib.Algebra.Order.Group.Defs
import Mathlib.Algebra.Order.Sub.Basic
import Mathlib.Data.List.Basic

/-! Sums of differences that are clamped at zero along the way. -/
namespace WebRtcAudio.Core

open List

variable {α : Type*} [AddCommGroup α] [LinearOrder α]

def largestRise (x : ℕ → α) (js : List ℕ) (n : ℕ) : α := (js.map fun j => x n - x j).foldr max 0

variable {x : ℕ → α} {js : List ℕ} {n j : ℕ} {b : α}

theorem largestRise_nonneg (x : ℕ → α) (js : List ℕ) (n : ℕ) : 0 ≤ largestRise x js n := by
  induction js with
  | nil => exact le_rfl
  | cons j js ih => exact ih.trans (le_max_right _ _)

theorem le_largestRise (hj : j ∈ js) : x n - x j ≤ largestRise x js n := by
  induction js with
  | nil => cases hj
  | cons k js ih =>
    rcases mem_cons.mp hj with rfl | hj
    · exact le_max_left _ _
    · exact (ih hj).trans (le_max_right _ _)

theorem largestRise_le (hb : 0 ≤ b) (h : ∀ j ∈ js, x n - x j ≤ b) : largestRise x js n ≤ b := by
  induction js with
  | nil => exact hb
  | cons k js ih =>
    exact max_le (h k mem_cons_self) (ih fun j hj => h j (mem_cons_of_mem k hj))

variable [IsOrderedAddMonoid α]

theorem largestRise_concat (x : ℕ → α) (js : List ℕ) (n : ℕ) :
    largestRise x (js ++ [n]) (n + 1) = max (largestRise x js n + (x (n + 1) - x n)) 0 := by
  have hs (j : ℕ) : x (n + 1) - x j = x n - x j + (x (n + 1) - x n) := by
    rw [add_comm (x n - x j), sub_add_sub_cancel]
  apply le_antisymm
  · refine largestRise_le (le_max_right _ _) fun j hj => le_max_of_le_left ?_
    rcases mem_append.mp hj with hj | hj
    · rw [hs]
      exact add_le_add_left (le_largestRise hj) _
    · obtain rfl := mem_singleton.mp hj
      exact le_add_of_nonneg_left (largestRise_nonneg x js j)
  · refine max_le ?_ (largestRise_nonneg x _ _)
    rw [← le_sub_iff_add_le]
    refine largestRise_le ?_ fun j hj => ?_
    · rw [sub_nonneg]
      exact le_largestRise (mem_append_right js (mem_singleton_self n))
    · rw [le_sub_iff_add_le, ← hs]
      exact le_largestRise (mem_append_left [n] hj)

theorem foldlM_clamped {check : α → Option α} {first : ℕ} (hf : first ≤ n)
    (hc : ∀ k, first ≤ k → k < n →
      check (largestRise x ((range k).drop first) k + (x (k + 1) - x k)) =
        some (largestRise x ((range k).drop first) k + (x (k + 1) - x k))) :
    ((range n).drop first).foldlM (fun r j => do
      return max (← check (r + (x (j + 1) - x j))) 0) 0 =
        some (largestRise x ((range n).drop first) n) := by
  induction n, hf using Nat.le_induction with
  | base =>
    rw [drop_eq_nil_of_le (by simp)]
    rfl
  | succ n hn ih =>
    have hd : (range (n + 1)).drop first = (range n).drop first ++ [n] := by
      rw [range_succ, drop_append_of_le_length (by simpa using hn)]
    rw [hd, foldlM_append, ih fun k hk hkn => hc k hk (by omega), largestRise_concat]
    simp [hc n hn (Nat.lt_succ_self n)]

end WebRtcAudio.Core
