import Mathlib.Data.List.Rotate
import Mathlib.Data.Nat.ModEq

/-! A list used as a circular store: `data.rotate p` lists the cells from position `p` on. -/
namespace WebRtcAudio.Core

open List

variable {α : Type*}

def writeAt (data : List α) (p : ℕ) (xs : List α) : List α :=
  data.take p ++ xs ++ data.drop (p + xs.length)

variable {n p : ℕ} {data xs ys : List α}

theorem length_writeAt (h : p + xs.length ≤ data.length) :
    (writeAt data p xs).length = data.length := by
  simp only [writeAt, length_append, length_take, length_drop]
  omega

theorem writeAt_nil (data : List α) (p : ℕ) : writeAt data p [] = data := by
  rw [writeAt, append_nil, length_nil, Nat.add_zero, take_append_drop]

theorem writeAt_append (h : p ≤ data.length) :
    writeAt (writeAt data p xs) (p + xs.length) ys = writeAt data p (xs ++ ys) := by
  have hpre : (data.take p ++ xs).length = p + xs.length := by
    rw [length_append, length_take_of_le h]
  rw [writeAt, writeAt, take_left' hpre, ← drop_drop, drop_left' hpre,
    drop_drop, writeAt, length_append, append_assoc (data.take p), Nat.add_assoc]

variable {o n i : ℕ}

section
variable {data xs : List α}

variable {p : ℕ}

theorem drop_writeAt (hp : p ≤ data.length) (ho : o ≤ xs.length) :
    (writeAt data p xs).drop (p + o) = xs.drop o ++ data.drop (p + xs.length) := by
  rw [writeAt, append_assoc, ← drop_drop, drop_left' (length_take_of_le hp),
    drop_append_of_le_length ho]

theorem writeAt_take_drop {j : ℕ} (h : p + xs.length ≤ data.length) (hj : j ≤ xs.length) (i : ℕ) :
    writeAt (writeAt data p (xs.take j)) (p + j) ((xs.drop j).take i) =
      writeAt data p (xs.take (j + i)) := by
  have hlen : (xs.take j).length = j := length_take_of_le hj
  rw [take_add, ← writeAt_append (by omega), hlen]

theorem take_writeAt (hp : p ≤ n) (hn : n ≤ data.length) :
    (writeAt data p xs).take (max n (p + xs.length)) = writeAt (data.take n) p xs := by
  have hpre : (data.take p ++ xs).length = p + xs.length := by
    rw [length_append, length_take_of_le (by omega)]
  have hr : max n (p + xs.length) - (p + xs.length) = n - (p + xs.length) := by omega
  rw [writeAt, take_append, take_of_length_le (by omega), hpre, hr, writeAt,
    take_take, Nat.min_eq_left hp, drop_take]

theorem writeAt_writeAt_take_drop {m : ℕ} (hm : p + m ≤ data.length) (ho : o + xs.length ≤ m) :
    writeAt data p (writeAt ((data.drop p).take m) o xs) = writeAt data (p + o) xs := by
  have hi : ((data.drop p).take m).length = m := by
    rw [length_take, length_drop, Nat.min_eq_left (by omega)]
  have hw : (writeAt ((data.drop p).take m) o xs).length = m := by
    rw [length_writeAt (by rwa [hi]), hi]
  have ht : data.take (p + o) = data.take p ++ ((data.drop p).take m).take o := by
    rw [take_take, Nat.min_eq_left (by omega), take_add]
  have hd : data.drop (p + o + xs.length) =
      ((data.drop p).take m).drop (o + xs.length) ++ data.drop (p + m) := by
    rw [← drop_drop (i := m), ← drop_append_of_le_length (by omega),
      take_append_drop, drop_drop, Nat.add_assoc]
  rw [writeAt, hw, writeAt, writeAt, ht, hd]
  simp only [append_assoc]

theorem rotate_writeAt (h : p + xs.length ≤ data.length) :
    (writeAt data p xs).rotate (p + xs.length) = (data.rotate p).drop xs.length ++ xs := by
  have hlen := length_writeAt h
  have hp : (data.take p).length = p := length_take_of_le (by omega)
  rw [rotate_eq_drop_append_take (by omega), rotate_eq_drop_append_take (by omega)]
  have hpre : (data.take p ++ xs).length = p + xs.length := by rw [length_append, hp]
  rw [writeAt, drop_left' hpre, take_left' hpre,
    drop_append_of_le_length (by rw [length_drop]; omega), drop_drop,
    append_assoc]

end

theorem rotate_set (hp : p < data.length) (a : α) :
    (data.set p a).rotate (p + 1) = (data.rotate p).tail ++ [a] := by
  have hset : data.set p a = writeAt data p [a] := by
    rw [writeAt, append_assoc, set_eq_take_append_cons_drop, if_pos hp]
    rfl
  rw [hset]
  have hw : (writeAt data p [a]).rotate (p + [a].length) =
      (data.rotate p).drop [a].length ++ [a] := rotate_writeAt hp
  rw [length_singleton, drop_one] at hw
  exact hw

theorem rotate_congr (data : List α) {q : ℕ} (h : p % data.length = q % data.length) :
    data.rotate p = data.rotate q := by
  rw [← rotate_mod, ← rotate_mod data q, h]

theorem take_rotate_of_le (hp : p ≤ data.length) (h : n ≤ data.length - p) :
    (data.rotate p).take n = (data.drop p).take n := by
  rw [rotate_eq_drop_append_take hp, take_append_of_le_length (by rw [length_drop]; exact h)]

theorem take_rotate_of_ge (hp : p ≤ data.length) (h : data.length - p ≤ n) (hn : n ≤ data.length) :
    (data.rotate p).take n = data.drop p ++ data.take (n - (data.length - p)) := by
  have hlen : (data.drop p).length = data.length - p := length_drop
  rw [rotate_eq_drop_append_take hp, take_append, hlen,
    take_of_length_le (by omega), take_take, Nat.min_eq_left (by omega)]

theorem drop_rotate_add (data : List α) (p : ℕ) {u : ℕ} (hu : u ≤ data.length) :
    (data.rotate (p + u)).drop (data.length - u) = (data.rotate p).take u := by
  rw [← rotate_rotate, rotate_eq_drop_append_take (by rwa [length_rotate]),
    drop_left' (by rw [length_drop, length_rotate])]

theorem mod_ne_mod {a b : ℕ} (hab : a < b) (hbn : b < a + n) : b % n ≠ a % n := by
  intro heq
  have hdvd : n ∣ b - a := (Nat.modEq_iff_dvd' hab.le).mp heq.symm
  exact absurd (Nat.le_of_dvd (by omega) hdvd) (by omega)

def readCircular (data : List α) (p n : ℕ) : List α :=
  (data.drop p).take n ++ data.take (n - (data.length - p))

theorem readCircular_eq (hp : p ≤ data.length) (hn : n ≤ data.length) :
    readCircular data p n = (data.rotate p).take n := by
  unfold readCircular
  by_cases h : n ≤ data.length - p
  · rw [Nat.sub_eq_zero_of_le h, take_zero, append_nil, take_rotate_of_le hp h]
  · rw [take_rotate_of_ge hp (by omega) hn, take_of_length_le (by rw [length_drop]; omega)]

def writeCircular (data : List α) (p : ℕ) (xs : List α) : List α :=
  writeAt (writeAt data p (xs.take (data.length - p))) 0 (xs.drop (data.length - p))

theorem writeCircular_of_le (h : p + xs.length ≤ data.length) :
    writeCircular data p xs = writeAt data p xs := by
  rw [writeCircular, take_of_length_le (by omega), drop_of_length_le (by omega), writeAt_nil]

theorem length_writeCircular (hp : p ≤ data.length) (hxs : xs.length ≤ data.length) :
    (writeCircular data p xs).length = data.length := by
  have hf : (writeAt data p (xs.take (data.length - p))).length = data.length :=
    length_writeAt (by rw [length_take]; omega)
  rw [writeCircular, length_writeAt (by rw [hf, length_drop]; omega), hf]

theorem writeAt_zero (data xs : List α) : writeAt data 0 xs = xs ++ data.drop xs.length := by
  rw [writeAt, take_zero, nil_append, Nat.zero_add]

theorem writeCircular_of_gt (hp : p ≤ data.length) (h : data.length ≤ p + xs.length)
    (hxs : xs.length ≤ data.length) : writeCircular data p xs =
      writeAt (writeAt data 0 (xs.drop (data.length - p))) p (xs.take (data.length - p)) := by
  have hl : (xs.take (data.length - p)).length = data.length - p :=
    length_take_of_le (by omega)
  have hf : (xs.drop (data.length - p)).length ≤ p := by
    rw [length_drop]
    omega
  rw [writeCircular]
  generalize xs.take (data.length - p) = last at hl
  generalize xs.drop (data.length - p) = first at hf
  have hend : data.drop (p + last.length) = [] := drop_of_length_le (by omega)
  have hend' : (first ++ data.drop first.length).drop (p + last.length) = [] := by
    apply drop_of_length_le
    rw [length_append, length_drop]
    omega
  -- In both orders: the first cells, what is between them and `p`, the last cells.
  rw [writeAt_zero, writeAt_zero, writeAt, writeAt, hend, hend', append_nil, append_nil,
    drop_append_of_le_length (by rw [length_take]; omega), take_append,
    take_of_length_le hf, drop_take, append_assoc]

theorem rotate_append_of_length_eq (h : xs.length = n) : (xs ++ ys).rotate n = ys ++ xs := by
  rw [← h, rotate_append_length_eq]

theorem rotate_writeCircular (hp : p ≤ data.length) (hxs : xs.length ≤ data.length) :
    (writeCircular data p xs).rotate p = writeAt (data.rotate p) 0 xs := by
  rw [writeAt_zero]
  by_cases h : xs.length ≤ data.length - p
  · -- One piece: compare both sides after another turn by the number of new cells.
    rw [← rotate_eq_rotate (n := xs.length), rotate_append_length_eq, rotate_rotate,
      writeCircular, take_of_length_le h, drop_of_length_le h, writeAt_nil,
      rotate_writeAt (by omega)]
  · -- Two pieces: the store starts with the second one and ends with the first one.
    obtain ⟨first, second, hs, hf⟩ : ∃ first second, xs = first ++ second ∧
        first.length = data.length - p :=
      ⟨_, _, (take_append_drop (data.length - p) xs).symm, by rw [length_take]; omega⟩
    have hsecond : second.length ≤ p := by
      rw [hs, length_append] at hxs
      omega
    have hstart : (second ++ (data.take p).drop second.length).length = p := by
      rw [length_append, length_drop, length_take]
      omega
    have hw : writeCircular data p xs =
        (second ++ (data.take p).drop second.length) ++ first := by
      have hend : data.drop (p + first.length) = [] := drop_of_length_le (by omega)
      rw [writeCircular, hs, take_left' hf, drop_left' hf, writeAt_zero,
        writeAt, hend, append_nil,
        drop_append_of_le_length (by rw [length_take]; omega), append_assoc]
    have hr : (data.rotate p).drop xs.length = (data.take p).drop second.length := by
      rw [rotate_eq_drop_append_take hp, hs, length_append, ← drop_drop,
        drop_left' (by rw [length_drop, hf])]
    rw [hw, hr, hs, append_assoc first, rotate_append_of_length_eq hstart]

theorem rotate_writeCircular_add {d : ℕ} (hpos : 0 < data.length)
    (hxs : d + xs.length ≤ data.length) :
    (writeCircular data ((p + d) % data.length) xs).rotate p = writeAt (data.rotate p) d xs := by
  have hmod : (p + d) % data.length ≤ data.length := (Nat.mod_lt _ hpos).le
  have hlen : (writeCircular data ((p + d) % data.length) xs).length = data.length :=
    length_writeCircular hmod (by omega)
  have hd : ((data.rotate p).take d).length = d := by
    rw [length_take, length_rotate]
    omega
  -- Compare both sides after another turn by `d`.
  rw [← rotate_eq_rotate (n := d), rotate_rotate,
    rotate_congr _ (show (p + d) % _ = (p + d) % data.length % _ by rw [hlen, Nat.mod_mod]),
    rotate_writeCircular hmod (by omega), rotate_mod, ← rotate_rotate, writeAt_zero,
    rotate_eq_drop_append_take (by rw [length_rotate]; omega),
    drop_append_of_le_length (by rw [length_drop, length_rotate]; omega),
    drop_drop, writeAt, append_assoc, rotate_append_of_length_eq hd, append_assoc]

namespace Memory

def slice (l : List α) (i n : ℕ) : Option (List α) :=
  if i + n ≤ l.length then some ((l.drop i).take n) else none

def copy (l : List α) (i : ℕ) (xs : List α) : Option (List α) :=
  if i + xs.length ≤ l.length then some (writeAt l i xs) else none

variable {l : List α}

theorem slice_eq_some (h : i + n ≤ l.length) : slice l i n = some ((l.drop i).take n) := if_pos h

theorem copy_eq_some (h : i + xs.length ≤ l.length) :
    copy l i xs = some (writeAt l i xs) := if_pos h

theorem length_of_slice (h : slice l i n = some xs) : xs.length = n := by
  obtain ⟨hle, heq⟩ := Option.ite_none_right_eq_some.mp h
  rw [← Option.some.inj heq, length_take, length_drop]
  omega

theorem slices_eq_readCircular {p : ℕ} (hp : p ≤ l.length) (hn : n ≤ l.length) :
    ∃ first rest, slice l p (min n (l.length - p)) = some first ∧
      slice l 0 (n - min n (l.length - p)) = some rest ∧ first ++ rest = readCircular l p n := by
  refine ⟨_, _, slice_eq_some (by omega), slice_eq_some (by omega), ?_⟩
  rw [readCircular, drop_zero]
  by_cases h : n ≤ l.length - p
  · rw [Nat.min_eq_left h, Nat.sub_self, Nat.sub_eq_zero_of_le h]
  · have hd : (l.drop p).length = l.length - p := length_drop
    rw [Nat.min_eq_right (by omega), take_of_length_le hd.le,
      take_of_length_le (by omega : (l.drop p).length ≤ n)]

end Memory

end WebRtcAudio.Core
