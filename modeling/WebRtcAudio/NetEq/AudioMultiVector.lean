import WebRtcAudio.Core.PartialLoop
import WebRtcAudio.NetEq.AudioVectorRefinement

/-! `AudioMultiVector`. There is no result if a `RTC_DCHECK` fails or an array is left. -/
namespace WebRtcAudio.NetEq

open WebRtcAudio.Core List Option

def AudioVector.at? (v : AudioVector) (index : ℕ) : Option Int16 :=
  if index < v.capacity ∧ v.beginIndex < v.capacity then
    let ix := v.beginIndex + index
    v.array[if v.capacity ≤ ix then ix - v.capacity else ix]?
  else none

structure AudioMultiVector where
  channels : List AudioVector

namespace AudioMultiVector

def new (n initialSize : ℕ) : AudioMultiVector :=
  ⟨replicate (max n 1) (AudioVector.new initialSize)⟩

variable (v : AudioMultiVector)

def numChannels : ℕ := v.channels.length

def size : ℕ := (v.channels.head?.map AudioVector.size).getD 0

def eachChannel (f : ℕ → AudioVector → Option AudioVector) :
    ℕ → List AudioVector → Option (List AudioVector)
  | _, [] => some []
  | i, channel :: channels => do
    let channel ← f i channel
    let channels ← eachChannel f (i + 1) channels
    return channel :: channels

def forChannels (f : ℕ → AudioVector → Option AudioVector) : Option AudioMultiVector := do
  return ⟨← eachChannel f 0 v.channels⟩

def channelSamples (numChannels : ℕ) (appendThis : List Int16) (channel : ℕ) :
    Option (List Int16) :=
  (range (appendThis.length / numChannels)).mapM fun i =>
    appendThis[channel + i * numChannels]?

section
variable (held : ℕ → ℕ → Int16)

def pushBackInterleaved (appendThis : List Int16) : Option AudioMultiVector :=
  if appendThis.length % v.numChannels ≠ 0 then none
  else if v.numChannels = 1 then v.forChannels fun i c => c.pushBack (held i) appendThis
  else
    v.forChannels fun i c =>
      -- The index of the first sample is checked, even if there are no samples.
      if i < appendThis.length then do
        let temp ← channelSamples v.numChannels appendThis i
        c.pushBack (held i) temp
      else none

def pushBack (appendThis : AudioMultiVector) : Option AudioMultiVector :=
  if v.numChannels = appendThis.numChannels then
    v.forChannels fun i c => do
      let other ← appendThis.channels[i]?
      c.pushBackVector (held i) other
  else some v

def popFront (length : ℕ) : AudioMultiVector := ⟨v.channels.map (·.popFront length)⟩

def popBack (length : ℕ) : AudioMultiVector := ⟨v.channels.map (·.popBack length)⟩

def zeros (length : ℕ) : Option AudioMultiVector :=
  v.forChannels fun i c => c.clear.extend (held i) length

def overwriteAt (insertThis : AudioMultiVector) (length position : ℕ) : Option AudioMultiVector :=
  let length := min length insertThis.size
  if v.numChannels = insertThis.numChannels then
    v.forChannels fun i c => do
      let other ← insertThis.channels[i]?
      c.overwriteAtVector (held i) other length position
  else some v

end

def readChannels (length startIndex : ℕ) : Option (List Int16) :=
  match v.channels with
  | [channel] => channel.copyTo length startIndex
  | channels => do
    let rows ← (range length).mapM fun i => channels.mapM fun c => c.at? (i + startIndex)
    return rows.flatten

def readInterleavedFromIndex (startIndex length destinationSize : ℕ) : Option (List Int16) :=
  if startIndex ≤ v.size then do
    let length := if v.size < length + startIndex then v.size - startIndex else length
    let read ← v.readChannels length startIndex
    if read.length ≤ destinationSize then some read else none
  else none

def Holds (ls : List (List Int16)) : Prop := Forall₂ AudioVector.Holds v.channels ls

def interleave (n : ℕ) (ls : List (List Int16)) : List Int16 :=
  (range n).flatMap fun i => ls.map fun l => l.getD i 0

def deinterleave (n : ℕ) (xs : List Int16) : List (List Int16) :=
  (range n).map fun i => (range (xs.length / n)).map fun k => xs.getD (i + k * n) 0

variable {v} {ls ms : List (List Int16)}

theorem Holds.numChannels_eq (h : v.Holds ls) : v.numChannels = ls.length := h.length_eq

variable {size i index : ℕ}

theorem Holds.size_eq (h : v.Holds ls) (hpos : 0 < ls.length) (hu : ∀ l ∈ ls, l.length = size) :
    v.size = size := by
  obtain ⟨channels⟩ := v
  cases h with
  | nil => cases hpos
  | cons hch _ => exact hch.size_eq.trans (hu _ mem_cons_self)

theorem Holds.toList_eq (h : v.Holds ls) : v.channels.map AudioVector.toList = ls := by
  unfold Holds at h
  generalize v.channels = channels at h
  induction h with
  | nil => rfl
  | cons hch _ ih => rw [map_cons, hch.toList_eq, ih]

theorem holds_new (n size : ℕ) : (new n size).Holds (replicate (max n 1) (replicate size 0)) := by
  have hch : (AudioVector.new size).Holds (replicate size 0) := by
    refine AudioVector.Holds.of_capacity (n := size + 1) length_replicate (Nat.succ_pos size)
      (by rw [length_replicate]; exact Nat.lt_succ_self size) ?_ ?_
    · rw [length_replicate, Nat.zero_add, Nat.mod_eq_of_lt (Nat.lt_succ_self size)]
    · rw [rotate_zero, length_replicate, take_replicate, Nat.min_eq_left (by omega)]
  exact forall₂_iff_get.mpr ⟨by simp [new], fun i hi hj => by simpa [new] using hch⟩

variable {channels : List AudioVector}

section
variable {f : ℕ → AudioVector → Option AudioVector}

theorem eachChannel_spec (h : Forall₂ AudioVector.Holds channels ls)
    (hlength : ms.length = ls.length) (start : ℕ)
    (hf : ∀ i l m, ls[i]? = some l → ms[i]? = some m →
      ∀ c : AudioVector, c.Holds l → AudioVector.Gives (f (start + i) c) m) :
    ∃ result, eachChannel f start channels = some result ∧
      Forall₂ AudioVector.Holds result ms := by
  induction h generalizing start ms with
  | nil =>
    rw [eq_nil_of_length_eq_zero hlength]
    exact ⟨[], rfl, .nil⟩
  | cons hch _ ih =>
    cases ms with
    | nil => cases hlength
    | cons m ms =>
      obtain ⟨w, hw, hm⟩ := hf 0 _ _ rfl rfl _ hch
      obtain ⟨result, hre, hms⟩ := ih (Nat.succ.inj hlength) (start + 1)
        fun i l m' hl hm' c hc => by
          rw [Nat.add_assoc, Nat.add_comm 1]
          exact hf (i + 1) l m' hl hm' c hc
      rw [Nat.add_zero] at hw
      exact ⟨w :: result, by simp [eachChannel, hw, hre], .cons hm hms⟩

theorem Holds.forChannels (h : v.Holds ls) (hlength : ms.length = ls.length)
    (hf : ∀ i l m, ls[i]? = some l → ms[i]? = some m →
      ∀ c : AudioVector, c.Holds l → AudioVector.Gives (f i c) m) :
    ∃ w, v.forChannels f = some w ∧ w.Holds ms := by
  obtain ⟨channels, hchannels, hms⟩ := eachChannel_spec h hlength 0 fun i l m hl hm c hc => by
    rw [Nat.zero_add]
    exact hf i l m hl hm c hc
  exact ⟨⟨channels⟩, by simp [AudioMultiVector.forChannels, hchannels], hms⟩

theorem Holds.zipChannels (h : v.Holds ls) {g : List Int16 → List Int16 → List Int16}
    (hchannels : ls.length = ms.length)
    (hf : ∀ i l m, ls[i]? = some l → ms[i]? = some m →
      ∀ c : AudioVector, c.Holds l → AudioVector.Gives (f i c) (g l m)) :
    ∃ w, v.forChannels f = some w ∧ w.Holds (zipWith g ls ms) := by
  refine h.forChannels (by simp [hchannels]) fun i l m hl hm c hc => ?_
  obtain ⟨l', k, hl', hk, rfl⟩ := getElem?_zipWith_eq_some.mp hm
  cases hl.symm.trans hl'
  exact hf i l k hl hk c hc

end

theorem Holds.popFront (h : v.Holds ls) (length : ℕ) :
    (v.popFront length).Holds (ls.map (drop length)) := by
  unfold Holds
  rw [AudioMultiVector.popFront, forall₂_map_left_iff, forall₂_map_right_iff]
  exact h.imp fun _ _ hch => hch.popFront length

theorem eachChannel_map (f : ℕ → AudioVector → Option AudioVector) (g : AudioVector → AudioVector)
    (start : ℕ) (channels : List AudioVector) : eachChannel f start (channels.map g) =
      eachChannel (fun i c => f i (g c)) start channels := by
  induction channels generalizing start with
  | nil => rfl
  | cons c channels ih => simp only [map_cons, eachChannel, ih]

theorem forChannels_popBack (f : ℕ → AudioVector → Option AudioVector) (length : ℕ) :
    (v.popBack length).forChannels f = v.forChannels fun i c => f i (c.popBack length) := by
  rw [forChannels, popBack, eachChannel_map]
  rfl

section
variable (held : ℕ → ℕ → Int16)

theorem Holds.zeros (h : v.Holds ls) {length : ℕ} (hlength : ∀ l ∈ ls, length ≤ l.length) :
    ∃ w, v.zeros held length = some w ∧ w.Holds (ls.map fun _ => replicate length 0) := by
  refine h.forChannels (length_map _) fun i l m hl hm c hc => ?_
  rw [getElem?_map, hl, map_some] at hm
  rw [← some.inj hm]
  refine hc.clear.extend_spec (held i) (.inr ?_)
  rw [length_nil, Nat.zero_add]
  exact (hlength l (mem_of_getElem? hl)).trans_lt hc.length_lt

section
variable (h : v.Holds ls) {other : AudioMultiVector} (hother : other.Holds ms)
  (hchannels : ls.length = ms.length)
include h hother hchannels

theorem Holds.pushBack :
    ∃ w, v.pushBack held other = some w ∧ w.Holds (zipWith (· ++ ·) ls ms) := by
  rw [AudioMultiVector.pushBack,
    if_pos (by rw [h.numChannels_eq, hother.numChannels_eq, hchannels])]
  refine h.zipChannels hchannels fun i l k hl hk c hc => ?_
  obtain ⟨d, hd, hdk⟩ := forall₂_exists_left hother hk
  rw [hd, bind_eq_bind, bind_some]
  exact hc.pushBackVector_spec (held i) hdk

theorem Holds.overwriteAt (hu : ∀ m ∈ ms, m.length = size) (hpos : 0 < ms.length)
    (length position : ℕ) :
    ∃ w, v.overwriteAt held other length position = some w ∧ w.Holds (zipWith (fun l m =>
        writeAt l (min l.length position) (m.take (min length size))) ls ms) := by
  have hs := hother.size_eq hpos hu
  simp only [AudioMultiVector.overwriteAt, h.numChannels_eq, hother.numChannels_eq, hchannels,
    if_true, hs]
  refine h.zipChannels hchannels fun i l k hl hk c hc => ?_
  obtain ⟨d, hd, hdk⟩ := forall₂_exists_left hother hk
  rw [hd, bind_eq_bind, bind_some]
  refine hc.overwriteAtVector_spec (held i) hdk ?_ position
  rw [hu k (mem_of_getElem? hk)]
  exact Nat.min_le_right length size

end

end

theorem getElem?_eq_some_getD {xs : List Int16} (h : i < xs.length) :
    xs[i]? = some (xs.getD i 0) := by
  rw [getD_eq_getElem?_getD, getElem?_eq_getElem h, getD_some]

theorem channelSamples_eq {xs : List Int16} {n : ℕ} (hi : i < n) (hdvd : xs.length % n = 0) :
    channelSamples n xs i = some ((range (xs.length / n)).map fun k => xs.getD (i + k * n) 0) := by
  refine mapM_eq_some_map fun k hk => ?_
  have hle : (k + 1) * n ≤ xs.length / n * n := Nat.mul_le_mul_right n (mem_range.mp hk)
  have hlength := Nat.div_add_mod' xs.length n
  rw [Nat.succ_mul] at hle
  exact getElem?_eq_some_getD (by omega)

theorem map_getD_range (xs : List Int16) : ((range xs.length).map fun k => xs.getD k 0) = xs := by
  refine ext_getElem (by simp) fun k hk hk' => ?_
  simp [getElem?_eq_getElem hk']

theorem deinterleave_one (xs : List Int16) : deinterleave 1 xs = [xs] := by
  simp only [deinterleave, range_one, map_cons, map_nil, Nat.div_one, Nat.zero_add,
    Nat.mul_one, map_getD_range]

theorem Holds.pushBackInterleaved (h : v.Holds ls) (held : ℕ → ℕ → Int16) (xs : List Int16)
    (hdvd : xs.length % ls.length = 0) (hne : ls.length = 1 ∨ xs ≠ []) :
    ∃ w, v.pushBackInterleaved held xs = some w ∧
      w.Holds (zipWith (· ++ ·) ls (deinterleave ls.length xs)) := by
  rw [AudioMultiVector.pushBackInterleaved, h.numChannels_eq, if_neg (not_not.mpr hdvd)]
  have hchannels : ls.length = (deinterleave ls.length xs).length := by simp [deinterleave]
  by_cases hone : ls.length = 1
  · rw [if_pos hone]
    refine h.zipChannels hchannels fun i l k hl hk c hc => ?_
    rw [hone, deinterleave_one] at hk
    obtain rfl := mem_singleton.mp (mem_of_getElem? hk)
    exact hc.pushBack_spec (held i) k
  · rw [if_neg hone]
    refine h.zipChannels hchannels fun i l k hl hk c hc => ?_
    have hi : i < ls.length := (List.getElem?_eq_some_iff.mp hl).1
    have hlong : ls.length ≤ xs.length :=
      Nat.le_of_dvd (length_pos_iff.mpr (hne.resolve_left hone)) (Nat.dvd_of_mod_eq_zero hdvd)
    rw [deinterleave, getElem?_map, getElem?_range hi, map_some] at hk
    rw [if_pos (by omega), channelSamples_eq hi hdvd, hk, bind_eq_bind, bind_some]
    exact hc.pushBack_spec (held i) k

theorem at?_eq {c : AudioVector} {l : List Int16} (h : c.Holds l) (hi : index < l.length) :
    c.at? index = some (l.getD index 0) := by
  have hlt : l.length < c.array.length := h.length_lt
  have hb : c.beginIndex < c.array.length := h.begin_lt
  have hw : (if c.array.length ≤ c.beginIndex + index then
      c.beginIndex + index - c.array.length else c.beginIndex + index) =
        (index + c.beginIndex) % c.array.length := by
    rw [Nat.add_comm index]
    split_ifs with hle
    · rw [Nat.mod_eq_sub_mod hle, Nat.mod_eq_of_lt (by omega)]
    · rw [Nat.mod_eq_of_lt (by omega)]
  rw [AudioVector.at?, AudioVector.capacity, if_pos ⟨by omega, hb⟩]
  dsimp only
  rw [hw, ← getElem?_rotate (by omega), ← getElem?_eq_some_getD hi]
  conv_rhs => rw [← h.rotate_eq]
  rw [getElem?_take_of_lt hi]

theorem mapM_at?_eq (h : Forall₂ AudioVector.Holds channels ls)
    (hi : ∀ l ∈ ls, index < l.length) :
    channels.mapM (fun c => c.at? index) = some (ls.map fun l => l.getD index 0) := by
  induction h with
  | nil => rfl
  | cons hch _ ih =>
    rw [mapM_cons, at?_eq hch (hi _ mem_cons_self),
      ih fun l hl => hi l (mem_cons_of_mem _ hl)]
    rfl

theorem interleave_singleton (xs : List Int16) : interleave xs.length [xs] = xs := by
  simp only [interleave, map_cons, map_nil]
  rw [← map_eq_flatMap, map_getD_range]

theorem interleave_drop_take (ls : List (List Int16)) (length startIndex : ℕ) :
    interleave length (ls.map fun l => (l.drop startIndex).take length) =
      ((List.range length).map fun i => ls.map fun l => l.getD (i + startIndex) 0).flatten := by
  rw [interleave, flatMap_def]
  congr 1
  refine map_congr_left fun i hi => ?_
  rw [List.map_map]
  refine map_congr_left fun l hl => ?_
  simp only [Function.comp_apply, getD_eq_getElem?_getD,
    getElem?_take_of_lt (mem_range.mp hi), getElem?_drop, Nat.add_comm startIndex]

theorem Holds.readChannels (h : v.Holds ls) (length startIndex : ℕ)
    (hinside : ∀ l ∈ ls, startIndex + length ≤ l.length) : v.readChannels length startIndex =
      some (interleave length (ls.map fun l => (l.drop startIndex).take length)) := by
  obtain ⟨channels⟩ := v
  unfold AudioMultiVector.readChannels
  split
  · next channel heq =>
    have hh : Forall₂ AudioVector.Holds [channel] ls := heq ▸ h
    obtain ⟨l, rfl, hl⟩ : ∃ l, ls = [l] ∧ channel.Holds l := by
      cases hh with
      | cons hl ht =>
        cases ht
        exact ⟨_, rfl, hl⟩
    have hle := hinside l mem_cons_self
    have hlength : ((l.drop startIndex).take length).length = length := by
      rw [length_take, length_drop]
      omega
    rw [hl.copyTo_eq length (by omega), map_cons, map_nil]
    nth_rewrite 2 [← hlength]
    rw [interleave_singleton]
  · rw [interleave_drop_take]
    have hr : (range length).mapM (fun i => channels.mapM fun c => c.at? (i + startIndex)) =
        some ((range length).map fun i => ls.map fun l => l.getD (i + startIndex) 0) :=
      mapM_eq_some_map fun i hi => mapM_at?_eq h fun l hl => by
        have hle := hinside l hl
        have hlt := mem_range.mp hi
        omega
    rw [hr]
    rfl

theorem length_interleave (n : ℕ) (ls : List (List Int16)) :
    (interleave n ls).length = n * ls.length := by
  simp [interleave, length_flatMap]

theorem Holds.readInterleavedFromIndex (h : v.Holds ls) (hpos : 0 < ls.length)
    (hu : ∀ l ∈ ls, l.length = size) (startIndex length destinationSize : ℕ)
    (hi : startIndex + length ≤ size) :
    v.readInterleavedFromIndex startIndex length destinationSize =
      if length * ls.length ≤ destinationSize then
        some (interleave length (ls.map fun l => (l.drop startIndex).take length))
      else none := by
  have hs := h.size_eq hpos hu
  have hr := h.readChannels length startIndex
    fun l hl => by rw [hu l hl]; exact hi
  rw [AudioMultiVector.readInterleavedFromIndex, hs, if_pos (by omega)]
  dsimp only
  rw [if_neg (by omega), hr, bind_eq_bind, bind_some, length_interleave, length_map]

end AudioMultiVector

end WebRtcAudio.NetEq
