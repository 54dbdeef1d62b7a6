import WebRtcAudio.NetEq.AudioVector

/-! Every operation on the circular array is the operation on the list of samples. -/
namespace WebRtcAudio.NetEq.AudioVector

open WebRtcAudio.Core List Option

/-- The samples in their order, from `begin_index_` on. -/
def toList (v : AudioVector) : List Int16 := (v.array.rotate v.beginIndex).take v.size

structure Valid (v : AudioVector) : Prop where
  begin_lt : v.beginIndex < v.capacity
  end_lt : v.endIndex < v.capacity

/-- The array holds the list from `begin_index_` on, with one cell to spare. -/
structure Holds (v : AudioVector) (l : List Int16) : Prop where
  begin_lt : v.beginIndex < v.capacity
  length_lt : l.length < v.capacity
  end_eq : v.endIndex = (v.beginIndex + l.length) % v.capacity
  rotate_eq : (v.array.rotate v.beginIndex).take l.length = l

variable {b n k position p length : ℕ}

theorem add_mod_sub_mod (hb : b < k) (hn : n < k) : ((b + n) % k + k - b) % k = n := by
  by_cases h : b + n < k
  · rw [Nat.mod_eq_of_lt h, show b + n + k - b = n + k by omega, Nat.add_mod_right,
      Nat.mod_eq_of_lt hn]
  · have hw : (b + n) % k = b + n - k := by
      rw [Nat.mod_eq_sub_mod (by omega), Nat.mod_eq_of_lt (by omega)]
    rw [hw, show b + n - k + k - b = n by omega, Nat.mod_eq_of_lt hn]

theorem sub_mod_add_mod {e : ℕ} (hb : b < k) (he : e < k) : (b + (e + k - b) % k) % k = e := by
  rw [Nat.add_mod_mod, show b + (e + k - b) = e + k by omega, Nat.add_mod_right,
    Nat.mod_eq_of_lt he]

variable {v : AudioVector} {l : List Int16}

theorem Valid.holds_toList (h : v.Valid) : v.Holds v.toList := by
  have hpos : 0 < v.capacity := Nat.zero_lt_of_lt h.begin_lt
  have hs : v.size < v.capacity := Nat.mod_lt _ hpos
  have hl : v.toList.length = v.size := by
    rw [toList, length_take, length_rotate]
    exact Nat.min_eq_left hs.le
  refine ⟨h.begin_lt, by rwa [hl], ?_, by rw [hl, toList]⟩
  rw [hl, size, sub_mod_add_mod h.begin_lt h.end_lt]

theorem valid_ofDefaultSize : ofDefaultSize.Valid := ⟨by decide, by decide⟩

theorem capacity_popFront (v : AudioVector) (n : ℕ) : (v.popFront n).capacity = v.capacity := by
  unfold popFront
  split <;> rfl

theorem capacity_popBack (v : AudioVector) (n : ℕ) : (v.popBack n).capacity = v.capacity := by
  unfold popBack
  split <;> rfl

/-- The sum of a size and a length fits into a `size_t`, with one sample to spare, or into the
array as it is. -/
def FitsWith (v : AudioVector) (n : ℕ) : Prop := n + 1 < 2 ^ 64 ∨ n < v.capacity

variable {array m : List Int16}

namespace Holds

theorem size_eq (h : v.Holds l) : v.size = l.length := by
  rw [size, h.end_eq, add_mod_sub_mod h.begin_lt h.length_lt]

theorem toList_eq (h : v.Holds l) : v.toList = l := by
  rw [toList, h.size_eq, h.rotate_eq]

theorem end_lt (h : v.Holds l) : v.endIndex < v.capacity := by
  rw [h.end_eq]
  exact Nat.mod_lt _ (Nat.zero_lt_of_lt h.begin_lt)

theorem valid (h : v.Holds l) : v.Valid := ⟨h.begin_lt, h.end_lt⟩

theorem of_capacity {beginIndex endIndex : ℕ} (hn : array.length = n) (hb : beginIndex < n)
    (hl : l.length < n) (hend : endIndex = (beginIndex + l.length) % n)
    (hr : (array.rotate beginIndex).take l.length = l) :
    Holds ⟨array, beginIndex, endIndex⟩ l := by
  subst hn
  exact ⟨hb, hl, hend, hr⟩

section
variable (h : v.Holds l)
include h

theorem take_rotate_add (hn : position + n ≤ l.length) :
    (v.array.rotate (v.beginIndex + position)).take n = (l.drop position).take n := by
  have hlt : l.length < v.array.length := h.length_lt
  have hroom : n ≤ ((v.array.rotate v.beginIndex).drop position).length := by
    rw [length_drop, length_rotate]
    omega
  rw [← rotate_rotate, rotate_eq_drop_append_take (by rw [length_rotate]; omega),
    take_append_of_le_length hroom]
  conv_rhs => rw [← h.rotate_eq, drop_take, take_take, Nat.min_eq_left (by omega)]

theorem readCircular_eq (hn : position + n ≤ l.length) :
    readCircular v.array ((v.beginIndex + position) % v.capacity) n = (l.drop position).take n := by
  have hlt : l.length < v.array.length := h.length_lt
  rw [capacity, Core.readCircular_eq (Nat.mod_lt _ (by omega)).le (by omega), rotate_mod,
    h.take_rotate_add hn]

theorem slices_eq (position n : ℕ) (hn : position + n ≤ l.length) : ∃ first rest,
      Memory.slice v.array ((v.beginIndex + position) % v.capacity)
        (min n (v.capacity - (v.beginIndex + position) % v.capacity)) = some first ∧
      Memory.slice v.array 0
        (n - min n (v.capacity - (v.beginIndex + position) % v.capacity)) = some rest ∧
      first ++ rest = (l.drop position).take n := by
  have hlt := h.length_lt
  have hmod : (v.beginIndex + position) % v.capacity ≤ v.array.length :=
    (Nat.mod_lt _ (by omega)).le
  obtain ⟨first, rest, hf, hrest, happ⟩ :=
    Memory.slices_eq_readCircular hmod (show n ≤ v.capacity by omega)
  exact ⟨first, rest, hf, hrest, by rw [happ, h.readCircular_eq hn]⟩

/-- `CopyTo` in one or two pieces: the list from the position on, at most `length` samples of it. -/
theorem copyTo_eq (length : ℕ) (hp : position ≤ l.length) :
    v.copyTo length position = some ((l.drop position).take length) := by
  have hs : sizeTSub v.size position = l.length - position := by
    rw [sizeTSub, h.size_eq, if_pos hp]
  rw [copyTo]
  by_cases hl : length = 0
  · rw [if_pos hl, hl, take_zero]
  · rw [if_neg hl, hs]
    obtain ⟨first, rest, hf, hrest, happ⟩ := h.slices_eq position
      (min length (l.length - position)) (by omega)
    have hall : copyRest v.array (min length (l.length - position) -
        min (min length (l.length - position))
          (v.capacity - (v.beginIndex + position) % v.capacity)) = some rest := by
      rw [copyRest, hrest, ite_eq_left_iff]
      intro hz
      rw [← hrest, Nat.eq_zero_of_not_pos hz]
      rfl
    simp only [bind_eq_bind, hf, bind_some, hall, happ]
    rw [take_eq_take_min (l := l.drop position) (i := length), length_drop]
    rfl

theorem popFront (n : ℕ) : (v.popFront n).Holds (l.drop n) := by
  rw [AudioVector.popFront]
  by_cases hn : n = 0
  · rwa [if_pos hn, hn, drop_zero]
  have hlt := h.length_lt
  have hpos : 0 < v.capacity := by omega
  have hd : l.drop n = l.drop (min n l.length) := by
    by_cases hle : n ≤ l.length
    · rw [Nat.min_eq_left hle]
    · rw [Nat.min_eq_right (by omega), drop_length, drop_of_length_le (by omega)]
  rw [if_neg hn, h.size_eq, hd]
  have hk : min n l.length ≤ l.length := Nat.min_le_right n l.length
  generalize min n l.length = k at hk
  refine ⟨Nat.mod_lt _ hpos, (show (l.drop k).length < v.capacity by rw [length_drop]; omega),
    ?_, ?_⟩
  · rw [h.end_eq, length_drop]
    show _ = ((v.beginIndex + k) % v.capacity + (l.length - k)) % v.capacity
    rw [Nat.mod_add_mod, Nat.add_assoc, Nat.add_sub_cancel' hk]
  · show (v.array.rotate ((v.beginIndex + k) % v.array.length)).take (l.drop k).length = l.drop k
    rw [rotate_mod, h.take_rotate_add (by rw [length_drop]; omega), take_length]

theorem popBack (n : ℕ) : (v.popBack n).Holds (l.take (l.length - n)) := by
  rw [AudioVector.popBack]
  by_cases hn : n = 0
  · rwa [if_pos hn, hn, Nat.sub_zero, take_length]
  have hlt := h.length_lt
  have hl : (l.take (l.length - n)).length = l.length - n :=
    length_take_of_le (Nat.sub_le l.length n)
  rw [if_neg hn, h.size_eq]
  refine ⟨h.begin_lt, (show _ < v.capacity by omega), ?_, ?_⟩
  · rw [hl, h.end_eq]
    show ((v.beginIndex + l.length) % v.capacity + v.capacity - min n l.length) % v.capacity =
      (v.beginIndex + (l.length - n)) % v.capacity
    rw [Nat.add_sub_assoc (by omega), Nat.mod_add_mod,
      show v.beginIndex + l.length + (v.capacity - min n l.length) =
        v.beginIndex + (l.length - n) + v.capacity by omega, Nat.add_mod_right]
  · rw [hl]
    exact h.take_rotate_add (show 0 + (l.length - n) ≤ _ by omega)

theorem clear : v.clear.Holds [] :=
  ⟨Nat.zero_lt_of_lt h.begin_lt, Nat.zero_lt_of_lt h.begin_lt, (Nat.zero_mod _).symm, rfl⟩

end

theorem of_writeAt (h : l.length < array.length) :
    (⟨writeAt array 0 l, 0, l.length⟩ : AudioVector).Holds l := by
  have hcap : (writeAt array 0 l).length = array.length := length_writeAt (by omega)
  refine ⟨(show 0 < (writeAt array 0 l).length by omega),
    (show l.length < (writeAt array 0 l).length by omega), ?_, ?_⟩
  · show l.length = (0 + l.length) % (writeAt array 0 l).length
    rw [Nat.zero_add, Nat.mod_eq_of_lt (by omega)]
  · rw [rotate_zero, writeAt_zero, take_left]

/-- `Reserve` keeps the list and makes room for `n` samples. -/
theorem reserve_spec (h : v.Holds l) (held : ℕ → Int16) (n : ℕ) :
    ∃ w, v.reserve held n = some w ∧ w.Holds l ∧ n < w.capacity := by
  rw [reserve]
  by_cases hn : n < v.capacity
  · exact ⟨v, if_pos hn, h, hn⟩
  · have hlt := h.length_lt
    have hme : ((List.range (n + 1)).map held).length = n + 1 := by
      rw [length_map, length_range]
    have hfits : l.length < ((List.range (n + 1)).map held).length := by omega
    refine ⟨⟨writeAt ((List.range (n + 1)).map held) 0 l, 0, l.length⟩, ?_, of_writeAt hfits, ?_⟩
    · rw [if_neg hn, h.copyTo_eq v.size (Nat.zero_le _), h.size_eq, drop_zero,
        take_length, bind_eq_bind, bind_some,
        Memory.copy_eq_some (by omega)]
      rfl
    · rw [capacity, length_writeAt (by omega)]
      omega

theorem reserve_mod_spec (h : v.Holds l) (held : ℕ → Int16) (hn : v.FitsWith n) :
    ∃ w, v.reserve held (n % 2 ^ 64) = some w ∧ w.Holds l ∧ n < w.capacity := by
  rcases hn with hn | hn
  · rw [Nat.mod_eq_of_lt (by omega)]
    exact h.reserve_spec held n
  · exact ⟨v, if_pos ((Nat.mod_le n _).trans_lt hn), h, hn⟩

end Holds

/-- The operation stays inside of the array and leaves a vector that holds the list. -/
def Gives (step : Option AudioVector) (l : List Int16) : Prop := ∃ w, step = some w ∧ w.Holds l

variable {step : Option AudioVector}

theorem Gives.bind {next : AudioVector → Option AudioVector} (h : Gives step l)
    (hn : ∀ w : AudioVector, w.Holds l → Gives (next w) m) : Gives (step >>= next) m := by
  obtain ⟨w, hw, hl⟩ := h
  rw [hw]
  exact hn w hl

theorem Gives.unlessZero (hz : n = 0 → v.Holds l) (h : n ≠ 0 → Gives step l) :
    Gives (if n = 0 then some v else step) l := by
  split_ifs with hn
  · exact ⟨v, rfl, hz hn⟩
  · exact h hn

theorem Gives.ifAny {pushed : Option AudioVector} (xs : List Int16) (hxs : xs.length = n)
    (hnone : xs = [] → v.Holds m) (h : Gives pushed m) : Gives (ifAny n v pushed) m := by
  rw [AudioVector.ifAny]
  by_cases hn : 0 < n
  · rwa [if_pos hn]
  · rw [if_neg hn]
    exact ⟨v, rfl, hnone (eq_nil_of_length_eq_zero (by omega))⟩

section
variable {array xs : List Int16}

theorem copyIfAny_eq (h : p + xs.length ≤ array.length) :
    (if 0 < xs.length then Memory.copy array p xs else some array) =
      some (writeAt array p xs) := by
  split_ifs with hxs
  · rw [Memory.copy_eq_some h]
  · rw [eq_nil_of_length_eq_zero (Nat.eq_zero_of_not_pos hxs), writeAt_nil]

theorem writeRest_eq (h : xs.length ≤ array.length) :
    writeRest array xs = some (writeAt array 0 xs) :=
  copyIfAny_eq (by omega)

theorem writeRestAtEnd_eq (h : xs.length ≤ array.length) :
    writeRestAtEnd array xs = some (writeAt array (array.length - xs.length) xs) :=
  copyIfAny_eq (by omega)

theorem copy_bind_writeRest (hp : p ≤ array.length) (hxs : xs.length ≤ array.length) :
    ((Memory.copy array p (xs.take (min xs.length (array.length - p)))).bind fun written =>
      writeRest written (xs.drop (min xs.length (array.length - p)))) =
      some (writeCircular array p xs) := by
  have ht : xs.take (min xs.length (array.length - p)) = xs.take (array.length - p) := by
    rw [Nat.min_comm, ← take_eq_take_min]
  have hd : xs.drop (min xs.length (array.length - p)) = xs.drop (array.length - p) := by
    by_cases h : xs.length ≤ array.length - p
    · rw [Nat.min_eq_left h, drop_length, drop_of_length_le h]
    · rw [Nat.min_eq_right (by omega)]
  have hfits : p + (xs.take (array.length - p)).length ≤ array.length := by
    rw [length_take]
    omega
  rw [ht, hd, Memory.copy_eq_some hfits, bind_some, writeRest_eq, writeCircular]
  rw [length_writeAt hfits, length_drop]
  omega

theorem copy_bind_writeRestAtEnd (hp : p < array.length) (hxs : xs.length < array.length) :
    ((Memory.copy array (p - min xs.length p) (xs.drop (xs.length - min xs.length p))).bind
      fun written => writeRestAtEnd written (xs.take (xs.length - min xs.length p))) =
      some (writeCircular array ((p + array.length - xs.length) % array.length) xs) := by
  by_cases h : xs.length ≤ p
  · have hs : (p + array.length - xs.length) % array.length = p - xs.length := by
      rw [show p + array.length - xs.length = p - xs.length + array.length by omega,
        Nat.add_mod_right, Nat.mod_eq_of_lt (by omega)]
    rw [Nat.min_eq_left h, Nat.sub_self, drop_zero, take_zero,
      Memory.copy_eq_some (by omega), hs, writeCircular_of_le (by omega)]
    rfl
  · have hs : (p + array.length - xs.length) % array.length = p + array.length - xs.length :=
      Nat.mod_eq_of_lt (by omega)
    have hfirst : (xs.drop (xs.length - p)).length = p := by
      rw [length_drop]
      omega
    have hl : (xs.take (xs.length - p)).length = xs.length - p :=
      length_take_of_le (by omega)
    have hw : (writeAt array 0 (xs.drop (xs.length - p))).length = array.length :=
      length_writeAt (by omega)
    have hsplit : array.length - (p + array.length - xs.length) = xs.length - p := by omega
    rw [Nat.min_eq_right (by omega), Nat.sub_self, Memory.copy_eq_some (by omega),
      bind_some, writeRestAtEnd_eq (by omega), hw, hl, hs,
      writeCircular_of_gt (by omega) (by omega) hxs.le, hsplit,
      show array.length - (xs.length - p) = p + array.length - xs.length by omega]

end

namespace Holds

/-- Writing over the end of the array overwrites the list from the position on and lengthens it. -/
theorem writeCircular (h : v.Holds l) {xs : List Int16} (hp : position ≤ l.length)
    (hroom : position + xs.length < v.capacity) :
    (⟨Core.writeCircular v.array ((v.beginIndex + position) % v.capacity) xs, v.beginIndex,
      (v.beginIndex + max l.length (position + xs.length)) % v.capacity⟩ : AudioVector).Holds
      (writeAt l position xs) := by
  have hlt := h.length_lt
  have hpos : 0 < v.capacity := by omega
  have hcap : (Core.writeCircular v.array ((v.beginIndex + position) % v.capacity) xs).length =
      v.capacity :=
    length_writeCircular (Nat.mod_lt _ hpos).le (show xs.length ≤ v.capacity by omega)
  have hl : (writeAt l position xs).length = max l.length (position + xs.length) := by
    rw [writeAt, length_append, length_append, length_take, length_drop]
    omega
  refine of_capacity hcap h.begin_lt (by omega) (by rw [hl]) ?_
  have hro : l.length ≤ (v.array.rotate v.beginIndex).length := by
    rw [length_rotate]
    exact hlt.le
  rw [hl, capacity, rotate_writeCircular_add hpos (show _ ≤ v.capacity by omega),
    take_writeAt hp hro, h.rotate_eq]

section
variable (h : v.Holds l) {xs : List Int16} (hroom : l.length + xs.length < v.capacity)
include h hroom

/-- The samples go behind the last one, around the end of the array. -/
theorem writeBack_spec : Gives (v.writeBack xs) (l ++ xs) := by
  have hend := h.end_lt
  have hw := h.writeCircular le_rfl hroom
  rw [← h.end_eq, Nat.max_eq_right (by omega), writeAt, take_length,
    drop_of_length_le (by omega), append_nil, ← Nat.add_assoc, ← Nat.mod_add_mod,
    ← h.end_eq] at hw
  refine ⟨_, ?_, hw⟩
  rw [writeBack, capacity, bind_eq_bind, ← bind_assoc,
    copy_bind_writeRest hend.le (show xs.length ≤ v.capacity by omega)]
  rfl

/-- The samples go in front of the first one, around the start of the array. -/
theorem writeFront_spec : Gives (v.writeFront xs) (xs ++ l) := by
  have hlt := h.begin_lt
  have hpos : 0 < v.capacity := by omega
  have hxs : xs.length ≤ v.capacity := by omega
  -- The new start, and the old one seen from it.
  obtain ⟨start, hstart⟩ : ∃ start, start = (v.beginIndex + v.capacity - xs.length) % v.capacity :=
    ⟨_, rfl⟩
  have hs : start < v.capacity := hstart ▸ Nat.mod_lt _ hpos
  have hb : (start + xs.length) % v.capacity = v.beginIndex := by
    rw [hstart, Nat.mod_add_mod, Nat.sub_add_cancel (by omega), Nat.add_mod_right,
      Nat.mod_eq_of_lt hlt]
  have hcap : (Core.writeCircular v.array start xs).length = v.capacity :=
    length_writeCircular hs.le hxs
  refine ⟨⟨Core.writeCircular v.array start xs, start, v.endIndex⟩, ?_,
    of_capacity hcap hs ?_ ?_ ?_⟩
  · rw [writeFront, bind_eq_bind, ← bind_assoc,
      copy_bind_writeRestAtEnd hlt (show xs.length < v.capacity by omega), hstart]
    rfl
  · rw [length_append]
    omega
  · rw [length_append, h.end_eq, ← Nat.add_assoc, ← Nat.mod_add_mod (start + _), hb]
  · have hold : v.array.rotate v.beginIndex =
        (v.array.rotate start).drop xs.length ++ (v.array.rotate start).take xs.length := by
      rw [← hb, capacity, rotate_mod, ← rotate_rotate,
        rotate_eq_drop_append_take (by rwa [length_rotate])]
    have hrest : ((v.array.rotate start).drop xs.length).take l.length = l := by
      have hroom' : l.length ≤ ((v.array.rotate start).drop xs.length).length := by
        rw [length_drop, length_rotate]
        exact (show l.length ≤ v.capacity - xs.length by omega)
      rw [← take_append_of_le_length hroom', ← hold, h.rotate_eq]
    rw [rotate_writeCircular hs.le hxs, writeAt_zero, length_append,
      take_length_add_append, hrest]

end

variable (held : ℕ → Int16)

section
variable (h : v.Holds l) (xs : List Int16)
include h xs

theorem pushFront_spec : Gives (v.pushFront held xs) (xs ++ l) := by
  refine Gives.unlessZero (fun hxs => by rwa [eq_nil_of_length_eq_zero hxs]) fun _ => ?_
  obtain ⟨w, hw, hl, hroom⟩ := h.reserve_spec held (v.size + xs.length)
  rw [h.size_eq] at hroom
  rw [hw]
  exact hl.writeFront_spec hroom

theorem pushBack_spec : Gives (v.pushBack held xs) (l ++ xs) := by
  refine Gives.unlessZero (fun hxs => by rwa [eq_nil_of_length_eq_zero hxs, append_nil])
    fun _ => ?_
  obtain ⟨w, hw, hl, hroom⟩ := h.reserve_spec held (v.size + xs.length)
  rw [h.size_eq] at hroom
  rw [hw]
  exact hl.writeBack_spec hroom

theorem overwriteAt_spec (position : ℕ) :
    Gives (v.overwriteAt held xs position) (writeAt l (min l.length position) xs) := by
  refine Gives.unlessZero (fun hxs => by rwa [eq_nil_of_length_eq_zero hxs, writeAt_nil])
    fun _ => ?_
  obtain ⟨w, hw, hl, hroom⟩ :=
    h.reserve_spec held (max v.size (min v.size position + xs.length))
  rw [h.size_eq] at hw hroom
  have hfits : min l.length position + xs.length < w.capacity := by omega
  have hmod : (w.beginIndex + min l.length position) % w.array.length ≤ w.array.length :=
    (Nat.mod_lt _ (show 0 < w.capacity by omega)).le
  refine ⟨_, ?_, hl.writeCircular (Nat.min_le_left l.length position) hfits⟩
  rw [h.size_eq]
  dsimp only
  rw [hw, bind_eq_bind, bind_some, bind_eq_bind, ← bind_assoc,
    capacity, copy_bind_writeRest hmod (show xs.length ≤ w.capacity by omega)]
  rfl

end

section
variable {step : Option AudioVector} {rest : List Int16} {n : ℕ} (h : Gives step l)
  (hrest : rest.length = n)
include h hrest

theorem thenPushFront : Gives (step >>= fun t => ifAny n t (t.pushFront held rest)) (rest ++ l) :=
  h.bind fun t ht => Gives.ifAny rest hrest (fun hnil => by rwa [hnil])
    (ht.pushFront_spec held rest)

theorem thenPushBack : Gives (step >>= fun t => ifAny n t (t.pushBack held rest)) (l ++ rest) :=
  h.bind fun t ht => Gives.ifAny rest hrest (fun hnil => by rwa [hnil, append_nil])
    (ht.pushBack_spec held rest)

end

theorem slices_all_eq (h : v.Holds m) (hn : n ≤ m.length) :
    ∃ first rest, Memory.slice v.array v.beginIndex (min n (v.capacity - v.beginIndex)) =
        some first ∧ Memory.slice v.array 0 (n - min n (v.capacity - v.beginIndex)) = some rest ∧
      first ++ rest = m.take n := by
  have hs := h.slices_eq 0 n (by omega)
  rwa [Nat.add_zero, Nat.mod_eq_of_lt h.begin_lt, drop_zero] at hs

section
variable (h : v.Holds l) {other : AudioVector} {m : List Int16} (hother : other.Holds m)
include h hother

theorem pushFrontVector_spec : Gives (v.pushFrontVector held other) (m ++ l) := by
  rw [pushFrontVector, hother.size_eq]
  refine Gives.unlessZero (fun hm => by rwa [eq_nil_of_length_eq_zero hm]) fun _ => ?_
  obtain ⟨w, hw, hl, -⟩ := h.reserve_spec held (v.size + m.length)
  obtain ⟨first, rest, hf, hrest, happ⟩ := hother.slices_all_eq le_rfl
  rw [take_length] at happ
  simp only [hw, bind_eq_bind, hf, hrest, bind_some]
  have hp := (thenPushFront held ⟨w, rfl, hl⟩ (Memory.length_of_slice hrest)).bind
    fun u hu => hu.pushFront_spec held first
  rw [← append_assoc, happ] at hp
  exact hp

theorem pushBackSegment_spec (hp : position ≤ m.length)
    (hlength : length ≤ m.length - position) : Gives (v.pushBackSegment held other length position)
      (l ++ (m.drop position).take length) := by
  rw [pushBackSegment, hother.size_eq, if_pos ⟨hp, hlength⟩]
  refine Gives.unlessZero (fun hz => by rwa [hz, take_zero, append_nil]) fun _ => ?_
  obtain ⟨w, hw, hl, -⟩ := h.reserve_spec held (v.size + length)
  obtain ⟨first, rest, hf, hrest, happ⟩ := hother.slices_eq position length (by omega)
  simp only [hw, bind_eq_bind, bind_some, hf, hrest]
  rw [← happ, ← append_assoc]
  exact thenPushBack held (hl.pushBack_spec held first) (Memory.length_of_slice hrest)

theorem pushBackVector_spec : Gives (v.pushBackVector held other) (l ++ m) := by
  have hs := h.pushBackSegment_spec held hother (Nat.zero_le _) le_rfl
  rwa [drop_zero, Nat.sub_zero, take_length, ← hother.size_eq] at hs

theorem overwriteAtVector_spec (hlength : length ≤ m.length) (position : ℕ) :
    Gives (v.overwriteAtVector held other length position)
      (writeAt l (min l.length position) (m.take length)) := by
  rw [overwriteAtVector, hother.size_eq, if_pos hlength]
  refine Gives.unlessZero (fun hz => by rwa [hz, take_zero, writeAt_nil]) fun _ => ?_
  obtain ⟨w, hw, hl, -⟩ := h.reserve_spec held (max v.size (min v.size position + length))
  obtain ⟨first, rest, hfirst, hrest, happ⟩ := hother.slices_all_eq hlength
  have hf := Memory.length_of_slice hfirst
  have hr := Memory.length_of_slice hrest
  rw [← hf] at hr
  simp only [hw, bind_eq_bind, bind_some, hfirst, hrest]
  rw [← happ, ← hf, h.size_eq, ← writeAt_append (Nat.min_le_left l.length position)]
  refine Gives.bind (hl.overwriteAt_spec held first (min l.length position)) fun u hu => ?_
  rw [Nat.min_eq_right (Nat.min_le_left l.length position)] at hu
  have hrestSpec := hu.overwriteAt_spec held rest (min l.length position + first.length)
  have hb : min l.length position + first.length ≤
      (writeAt l (min l.length position) first).length := by
    rw [writeAt, length_append, length_append, length_take]
    omega
  rw [Nat.min_eq_right hb] at hrestSpec
  refine Gives.ifAny rest hr ?_ hrestSpec
  rintro rfl
  rwa [writeAt_nil]

end

section
variable (h : v.Holds l)
include h

variable {position : ℕ}

theorem moveBack_spec (hp : position ≤ l.length) :
    ∃ w, v.moveBack position = some (l.drop position, w) ∧ w.Holds (l.take position) ∧
      w.capacity = v.capacity := by
  rw [moveBack, h.size_eq]
  by_cases hm : 0 < l.length - position
  · refine ⟨_, ?_, by simpa only [Nat.sub_sub_self hp] using h.popBack (l.length - position),
      capacity_popBack v _⟩
    have hall : (l.drop position).take (l.length - position) = l.drop position :=
      take_of_length_le List.length_drop.le
    rw [if_pos hm, h.copyTo_eq _ hp, hall]
    rfl
  · refine ⟨v, ?_, by rwa [take_of_length_le (by omega)], rfl⟩
    rw [if_neg hm, drop_of_length_le (by omega)]

theorem moveFront_spec (position : ℕ) :
    ∃ w, v.moveFront position = some (l.take position, w) ∧ w.Holds (l.drop position) ∧
      w.capacity = v.capacity := by
  rw [moveFront]
  by_cases hm : 0 < position
  · refine ⟨_, ?_, h.popFront position, capacity_popFront v position⟩
    rw [if_pos hm, h.copyTo_eq _ (Nat.zero_le _), drop_zero]
    rfl
  · rw [if_neg hm, Nat.eq_zero_of_not_pos hm]
    exact ⟨v, rfl, h, rfl⟩

theorem insertByPushBack_spec (xs : List Int16) (hp : position ≤ l.length) :
    Gives (v.insertByPushBack held xs position) (l.take position ++ xs ++ l.drop position) := by
  obtain ⟨w, hw, hl, -⟩ := h.moveBack_spec hp
  obtain ⟨u, hu, hl', -⟩ := hl.reserve_spec held (w.size + xs.length + (v.size - position))
  simp only [insertByPushBack, hw, hu, bind_eq_bind, bind_some]
  exact thenPushBack held (hl'.pushBack_spec held xs) (by rw [length_drop, h.size_eq])

theorem insertByPushFront_spec (xs : List Int16) (hp : position ≤ l.length) :
    Gives (v.insertByPushFront held xs position) (l.take position ++ xs ++ l.drop position) := by
  obtain ⟨w, hw, hl, -⟩ := h.moveFront_spec position
  obtain ⟨u, hu, hl', -⟩ := hl.reserve_spec held (w.size + xs.length + position)
  simp only [insertByPushFront, hw, hu, bind_eq_bind, bind_some]
  rw [append_assoc]
  exact thenPushFront held (hl'.pushFront_spec held xs) (length_take_of_le hp)

section
variable (hfits : v.FitsWith (l.length + length))
include hfits

theorem insertZerosByPushBack_spec (hp : position ≤ l.length) :
    Gives (v.insertZerosByPushBack held length position)
      (l.take position ++ List.replicate length 0 ++ l.drop position) := by
  obtain ⟨w, hw, hl, hc⟩ := h.moveBack_spec hp
  have hsum : w.size + length + (v.size - position) = l.length + length := by
    rw [hl.size_eq, h.size_eq, length_take]
    omega
  obtain ⟨u, hu, hl', hroom⟩ := hl.reserve_mod_spec held (n := l.length + length) (by
    rwa [FitsWith, hc])
  rw [← hsum] at hu
  simp only [insertZerosByPushBack, hw, hu, bind_eq_bind, bind_some]
  exact thenPushBack held (hl'.writeBack_spec (by rw [length_replicate, length_take]; omega))
    (by rw [length_drop, h.size_eq])

theorem insertZerosByPushFront_spec (hp : position ≤ l.length) :
    Gives (v.insertZerosByPushFront held length position)
      (l.take position ++ List.replicate length 0 ++ l.drop position) := by
  obtain ⟨w, hw, hl, hc⟩ := h.moveFront_spec position
  have hsum : w.size + length + position = l.length + length := by
    rw [hl.size_eq, length_drop]
    omega
  obtain ⟨u, hu, hl', hroom⟩ := hl.reserve_mod_spec held (n := l.length + length) (by
    rwa [FitsWith, hc])
  rw [← hsum] at hu
  simp only [insertZerosByPushFront, hw, hu, bind_eq_bind, bind_some]
  rw [append_assoc]
  exact thenPushFront held (hl'.writeFront_spec (by rw [length_replicate, length_drop]; omega))
    (length_take_of_le hp)

theorem extend_spec : Gives (v.extend held length) (l ++ List.replicate length 0) := by
  refine Gives.unlessZero (fun hz => by rwa [hz, replicate_zero, append_nil]) fun _ => ?_
  have hs := h.insertZerosByPushBack_spec held hfits le_rfl
  rw [take_length, drop_length, append_nil] at hs
  rwa [h.size_eq]

/-- Zeros are inserted from the nearer end, with the same result from both. -/
theorem insertZerosAt_spec (position : ℕ) : Gives (v.insertZerosAt held length position)
      (l.take (min l.length position) ++ List.replicate length 0 ++
        l.drop (min l.length position)) := by
  have hc : min l.length position ≤ l.length := Nat.min_le_left l.length position
  rw [insertZerosAt, h.size_eq]
  refine Gives.unlessZero (fun hz => ?_) fun _ => ?_
  · rwa [hz, replicate_zero, append_nil, take_append_drop]
  dsimp only
  split
  · exact h.insertZerosByPushFront_spec held hfits hc
  · exact h.insertZerosByPushBack_spec held hfits hc

end

/-- Samples are inserted from the nearer end, with the same result from both. -/
theorem insertAt_spec (xs : List Int16) (position : ℕ) : Gives (v.insertAt held xs position)
      (l.take (min l.length position) ++ xs ++ l.drop (min l.length position)) := by
  have hca : min l.length position ≤ l.length := Nat.min_le_left l.length position
  rw [insertAt, h.size_eq]
  refine Gives.unlessZero (fun hxs => ?_) fun _ => ?_
  · rwa [eq_nil_of_length_eq_zero hxs, append_nil, take_append_drop]
  dsimp only
  split
  · exact h.insertByPushFront_spec held xs hca
  · exact h.insertByPushBack_spec held xs hca

theorem copyToVector_spec {other : AudioVector} (hother : other.Holds m) :
    Gives (v.copyToVector held other) l := by
  obtain ⟨w, hw, -, hroom⟩ := hother.reserve_spec held v.size
  rw [h.size_eq] at hroom
  refine ⟨_, ?_, of_writeAt hroom⟩
  rw [copyToVector, hw, h.copyTo_eq v.size (Nat.zero_le _), h.size_eq, drop_zero, take_length]
  simp only [bind_eq_bind, bind_some]
  rw [Memory.copy_eq_some (by rw [Nat.zero_add]; exact hroom.le)]
  rfl

end

end Holds

end WebRtcAudio.NetEq.AudioVector
