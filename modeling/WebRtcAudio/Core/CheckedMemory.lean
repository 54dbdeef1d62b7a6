import Mathlib.Data.Int.Notation
import Mathlib.Data.List.Basic

/-! Allocated memory as a list. An access has no result unless all of it lies inside. -/
namespace WebRtcAudio.Core.Memory

open List Option

variable {α : Type*}

def read (l : List α) (i : ℤ) : Option α := if 0 ≤ i then l[i.toNat]? else none

def write (l : List α) (i : ℤ) (a : α) : Option (List α) :=
  if 0 ≤ i ∧ i < l.length then some (l.set i.toNat a) else none

def memset (l : List α) (pos n : ℤ) (a : α) : Option (List α) :=
  if 0 ≤ pos ∧ 0 ≤ n ∧ pos + n ≤ l.length then
    some (l.take pos.toNat ++ replicate n.toNat a ++ l.drop (pos + n).toNat)
  else none

def memmove (l : List α) (dest src n : ℤ) : Option (List α) :=
  if (0 ≤ dest ∧ dest + n ≤ l.length) ∧ (0 ≤ src ∧ src + n ≤ l.length) ∧ 0 ≤ n then
    some (l.take dest.toNat ++ (l.drop src.toNat).take n.toNat ++ l.drop (dest + n).toNat)
  else none

def realloc (l : List α) (n : ℕ) (held : ℕ → α) : List α :=
  l.take n ++ (range' l.length (n - l.length)).map held

variable {l : List α} {i : ℤ}

theorem read_spec (hl : 0 ≤ i) (hu : i < l.length) : ∃ a ∈ l, read l i = some a := by
  have hlt : i.toNat < l.length := by omega
  exact ⟨l[i.toNat], getElem_mem hlt, by rw [read, if_pos hl, getElem?_eq_getElem hlt]⟩

theorem read_natCast (l : List α) (i : ℕ) : read l i = l[i]? :=
  if_pos (Int.natCast_nonneg i)

theorem read_take {k : ℕ} (hi : i < k) : read (l.take k) i = read l i := by
  by_cases hl : 0 ≤ i
  · rw [read, read, if_pos hl, if_pos hl, getElem?_take_of_lt (by omega)]
  · rw [read, read, if_neg hl, if_neg hl]

theorem write_eq_some (hl : 0 ≤ i) (hu : i < l.length) (a : α) :
    write l i a = some (l.set i.toNat a) := if_pos ⟨hl, hu⟩

theorem write_natCast {i : ℕ} (hu : i < l.length) (a : α) : write l i a = some (l.set i a) :=
  write_eq_some (Int.natCast_nonneg i) (by omega) a

theorem read_bind_write_spec (hl : 0 ≤ i) (hu : i < l.length) (f : α → α) :
    ∃ l', ((read l i).bind fun a => write l i (f a)) = some l' ∧ l'.length = l.length := by
  obtain ⟨a, -, ha⟩ := read_spec hl hu
  exact ⟨l.set i.toNat (f a), by rw [ha, bind_some, write_eq_some hl hu], length_set⟩

theorem memset_spec (pos n : ℤ) (hpos : 0 ≤ pos) (hn : 0 ≤ n) (hu : pos + n ≤ l.length) (a : α) :
    ∃ l', memset l pos n a = some l' ∧ l'.length = l.length ∧ ∀ b ∈ l', b ∈ l ∨ b = a := by
  refine ⟨_, if_pos ⟨hpos, hn, hu⟩, ?_, fun b hb => ?_⟩
  · simp only [length_append, length_take, length_replicate, length_drop]
    omega
  · rcases mem_append.mp hb with hb | hb
    · rcases mem_append.mp hb with hb | hb
      · exact .inl (mem_of_mem_take hb)
      · exact .inr (eq_of_mem_replicate hb)
    · exact .inl (mem_of_mem_drop hb)

theorem memmove_spec (dest src n : ℤ) (hdest : 0 ≤ dest) (hsrc : 0 ≤ src) (hn : 0 ≤ n)
    (hd : dest + n ≤ l.length) (hs : src + n ≤ l.length) :
    ∃ l', memmove l dest src n = some l' ∧ l'.length = l.length ∧ ∀ b ∈ l', b ∈ l := by
  refine ⟨_, if_pos ⟨⟨hdest, hd⟩, ⟨hsrc, hs⟩, hn⟩, ?_, fun b hb => ?_⟩
  · simp only [length_append, length_take, length_drop]
    omega
  · rcases mem_append.mp hb with hb | hb
    · rcases mem_append.mp hb with hb | hb
      · exact mem_of_mem_take hb
      · exact mem_of_mem_drop (mem_of_mem_take hb)
    · exact mem_of_mem_drop hb

variable {β : Type*}

theorem memmove_map (f : α → β) (dest src n : ℤ) :
    memmove (l.map f) dest src n = (memmove l dest src n).map (map f) := by
  rw [memmove, memmove, length_map]
  split
  · simp only [map_some, map_append, map_take, map_drop]
  · rfl

theorem memset_map (f : α → β) (pos n : ℤ) (a : α) :
    memset (l.map f) pos n (f a) = (memset l pos n a).map (map f) := by
  rw [memset, memset, length_map]
  split
  · simp only [map_some, map_append, map_take, map_drop, map_replicate]
  · rfl

theorem write_map (f : α → β) (i : ℤ) (a : α) :
    write (l.map f) i (f a) = (write l i a).map (map f) := by
  rw [write, write, length_map]
  split
  · rw [map_some, map_set]
  · rfl

theorem memmove_eq_none {dest src n : ℤ} (hn : n < 0) : memmove l dest src n = none :=
  if_neg fun h => absurd h.2.2 (by omega)

theorem length_realloc (l : List α) (n : ℕ) (held : ℕ → α) : (realloc l n held).length = n := by
  rw [realloc, length_append, length_take, length_map, length_range']
  omega

theorem take_realloc {k n : ℕ} (hl : k ≤ l.length) (hn : k ≤ n) (held : ℕ → α) :
    (realloc l n held).take k = l.take k := by
  rw [realloc, take_append_of_le_length (by rw [length_take]; omega), take_take,
    Nat.min_eq_left hn]

/-- A buffer that grows is filled up with one value. Beyond its first `new` elements it holds what
the memory happens to hold. -/
theorem memset_realloc {old new n : ℕ} (hold : old ≤ l.length) (hle : old ≤ new) (hn : new ≤ n)
    (held : ℕ → α) (a : α) :
    ∃ l', memset (realloc l n held) old ((new : ℤ) - old) a = some l' ∧ l'.length = n ∧
      ∀ b ∈ l'.take new, b ∈ l.take old ∨ b = a := by
  have hlen := length_realloc l n held
  have hs : ((new : ℤ) - old).toNat = new - old := by omega
  refine ⟨_, if_pos ⟨by omega, by omega, by omega⟩, ?_, fun b hb => ?_⟩
  · simp only [length_append, length_take, length_replicate, length_drop]
    omega
  · have hf : new ≤ (l.take old ++ replicate (new - old) a).length := by
      rw [length_append, length_take, length_replicate]
      omega
    rw [Int.toNat_natCast, hs, take_realloc hold (Nat.le_trans hle hn),
      take_append_of_le_length hf] at hb
    rcases mem_append.mp (mem_of_mem_take hb) with hb | hb
    · exact .inl hb
    · exact .inr (eq_of_mem_replicate hb)

theorem foldlM_write {n : ℕ} (hn : n ≤ l.length) (a : α) :
    (range n).foldlM (fun l (i : ℕ) => write l i a) l = some (replicate n a ++ l.drop n) := by
  induction n with
  | zero => rfl
  | succ n ih =>
    have hlt : n < (replicate n a ++ l.drop n).length := by
      rw [length_append, length_replicate, length_drop]
      omega
    rw [range_succ, foldlM_append, ih (by omega), bind_eq_bind, bind_some,
      foldlM_cons, write_natCast hlt, set_append_right _ _ (by simp),
      length_replicate, Nat.sub_self, drop_eq_getElem_cons (by omega), set_cons_zero,
      replicate_succ', append_assoc]
    rfl

end WebRtcAudio.Core.Memory
