import Mathlib.Algebra.BigOperators.Ring.Finset
import WebRtcAudio.Core.CircularList

/-! How often each number occurs in a window that slides over a sequence. -/
namespace WebRtcAudio.Core

open List

variable {α : Type*}

theorem tail_drop_replicate_append (m : ℕ) (z a : α) (l : List α) (hm : 0 < m) :
    ((replicate m z ++ l).drop l.length).tail ++ [a] =
      (replicate m z ++ (l ++ [a])).drop (l ++ [a]).length := by
  have hle : l.length + 1 ≤ (replicate m z ++ l).length := by
    rw [length_append, length_replicate]
    omega
  rw [tail_drop, length_append, length_singleton, ← append_assoc, drop_append_of_le_length hle]

theorem drop_replicate_append (m : ℕ) (z : α) (l : List α) : (replicate m z ++ l).drop l.length =
      replicate (m - l.length) z ++ l.drop (l.length - m) := by
  rw [drop_append, drop_replicate, length_replicate]

def tally (start : ℕ → ℤ) (n : ℕ) (window : List ℕ) : List ℤ :=
  (range n).map fun k => start k + window.count k

variable {start : ℕ → ℤ} {n k a : ℕ} {window : List ℕ}

@[simp] theorem length_tally : (tally start n window).length = n := by
  rw [tally, length_map, length_range]

theorem getElem?_tally (hk : k < n) :
    (tally start n window)[k]? = some (start k + window.count k) := by
  rw [tally, getElem?_map, getElem?_range hk]
  rfl

theorem tally_set (a : ℕ) (x : ℤ) (w v : List ℕ)
    (ha : x = start a + v.count a) (hne : ∀ k, k ≠ a → w.count k = v.count k) :
    (tally start n w).set a x = tally start n v := by
  apply ext_getElem (by rw [length_set, length_tally, length_tally])
  intro k hk hk'
  rw [getElem_set]
  split_ifs with h
  · subst h
    simp only [ha, tally, getElem_map, getElem_range]
  · simp only [tally, getElem_map, getElem_range, hne k (Ne.symm h)]

theorem tally_leave : (tally start n (a :: window)).set a (start a + (a :: window).count a - 1) =
    tally start n window := by
  apply tally_set
  · rw [count_cons_self]
    omega
  · intro k hk
    rw [count_cons_of_ne (Ne.symm hk)]

theorem tally_enter : (tally start n window).set a (start a + window.count a + 1) =
    tally start n (window ++ [a]) := by
  apply tally_set
  · rw [count_append, count_singleton_self]
    omega
  · intro k hk
    rw [count_append, count_singleton, if_neg (by simpa using Ne.symm hk), Nat.add_zero]

theorem sum_tally (hw : ∀ a ∈ window, a < n) :
    (tally start n window).sum = ((range n).map start).sum + window.length := by
  have hc : ∑ k ∈ Finset.range n, window.count k = window.length := by
    have h := Multiset.sum_count_eq_card (s := Finset.range n) (m := (window : Multiset ℕ))
      fun a ha => Finset.mem_range.mpr (hw a ha)
    simpa using h
  have hs : ∑ k ∈ Finset.range n, (start k + (window.count k : ℤ)) =
      ∑ k ∈ Finset.range n, start k + (window.length : ℤ) := by
    rw [Finset.sum_add_distrib, ← hc, Nat.cast_sum]
  exact hs

end WebRtcAudio.Core
