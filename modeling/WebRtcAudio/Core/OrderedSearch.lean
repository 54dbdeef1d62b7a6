import Mathlib.Data.List.Basic

/-! Searches in a list that a test cuts in two, as `lower_bound` and `upper_bound`. -/
namespace WebRtcAudio.Core

open List

variable {α : Type*} {p : α → Bool} {l : List α}

theorem dropWhile_eq_filter (h : l.Pairwise fun a b => p b = true → p a = true) :
    l.dropWhile p = l.filter fun a => !p a := by
  induction l with
  | nil => rfl
  | cons a l ih =>
    obtain ⟨hh, ht⟩ := List.pairwise_cons.mp h
    cases ha : p a with
    | true => rw [dropWhile_cons_of_pos ha, ih ht, filter_cons_of_neg (by simp [ha])]
    | false =>
      have hn : ∀ b ∈ a :: l, (!p b) = true := by
        intro b hb
        rcases List.mem_cons.mp hb with rfl | hb
        · simp [ha]
        · cases hpb : p b with
          | true => exact absurd (hh b hb hpb) (by simp [ha])
          | false => rfl
      rw [dropWhile_cons_of_neg (by simp [ha]), List.filter_eq_self.mpr hn]

theorem map_takeWhile_append_dropWhile (h : l.Pairwise fun a b => p b = true → p a = true)
    (f : α → α) :
    (l.takeWhile p).map f ++ l.dropWhile p = l.map fun a => if p a then f a else a := by
  induction l with
  | nil => rfl
  | cons a l ih =>
    obtain ⟨hh, ht⟩ := List.pairwise_cons.mp h
    cases ha : p a with
    | true =>
      rw [takeWhile_cons_of_pos ha, dropWhile_cons_of_pos ha, map_cons,
        cons_append, ih ht, map_cons, if_pos ha]
    | false =>
      have hn : ∀ b ∈ l, (if p b then f b else b) = b := by
        intro b hb
        refine if_neg fun hpb => ?_
        exact absurd (hh b hb hpb) (by simp [ha])
      rw [takeWhile_cons_of_neg (by simp [ha]), dropWhile_cons_of_neg (by simp [ha]),
        map_nil, nil_append, map_cons, if_neg (by simp [ha]),
        map_congr_left hn, List.map_id']

theorem exists_filter_range_eq_drop {q : ℕ → Bool} {n : ℕ}
    (h : ∀ i j, i ≤ j → j < n → q i = true → q j = true) :
    ∃ first ≤ n, (List.range n).filter q = (List.range n).drop first := by
  induction n with
  | zero => exact ⟨0, Nat.le_refl 0, rfl⟩
  | succ n ih =>
    obtain ⟨first, hle, heq⟩ := ih fun i j hij hj => h i j hij (Nat.lt_succ_of_lt hj)
    cases hq : q n with
    | true =>
      refine ⟨first, Nat.le_succ_of_le hle, ?_⟩
      rw [range_succ, filter_append, heq,
        drop_append_of_le_length (by simpa using hle), filter_cons_of_pos hq,
        filter_nil]
    | false =>
      refine ⟨n + 1, Nat.le_refl _, ?_⟩
      rw [drop_eq_nil_of_le (by simp), filter_eq_nil_iff]
      intro i hi hqi
      have hle : i ≤ n := Nat.le_of_lt_succ (List.mem_range.mp hi)
      exact absurd (h i n hle (Nat.lt_succ_self n) hqi) (by simp [hq])

end WebRtcAudio.Core
