import WebRtcAudio.Core.CheckedMemory
import WebRtcAudio.Core.RangeCoder

/-! Cumulative tables and the two searches of the decoders. An access outside of a table has no
result. -/
namespace WebRtcAudio.Isac

open WebRtcAudio.Core Option List

def scale (wUpper : BitVec 32) (cdf : BitVec 16) : BitVec 32 :=
  let wUpperLsb := wUpper &&& 0x0000FFFF
  let wUpperMsb := wUpper >>> 16
  wUpperMsb * cdf.setWidth 32 + (wUpperLsb * cdf.setWidth 32) >>> 16

structure Found where
  wLower : BitVec 32
  wUpper : BitVec 32
  symbol : ℤ

section Searches
variable (wUpper streamval : BitVec 32)

/-- The loop upwards of `DecHistOneStepMulti`. The pointer to the table is the list of the entries
from it on; `wTmp` belongs to the first of them. -/
def searchUp : BitVec 32 → ℕ → List (BitVec 16) → Option (Except ℤ Found)
  | wTmp, index, c :: d :: rest =>
    if c = 65535 then some (.error (-3))
    else if streamval ≤ scale wUpper d then some (.ok ⟨wTmp, scale wUpper d, index⟩)
    else searchUp (scale wUpper d) (index + 1) (d :: rest)
  | _, _, [c] => if c = 65535 then some (.error (-3)) else none
  | _, _, [] => none

def searchDown (cdf : List (BitVec 16)) : ℕ → BitVec 32 → Option (Except ℤ Found)
  | 0, _ => some (.error (-3))
  | index + 1, wTmp => do
    let c ← cdf[index]?
    if scale wUpper c < streamval then some (.ok ⟨scale wUpper c, wTmp, index⟩)
    else searchDown cdf index (scale wUpper c)

def searchOneStep (cdf : List (BitVec 16)) (initIndex : ℕ) : Option (Except ℤ Found) := do
  let c ← cdf[initIndex]?
  if scale wUpper c < streamval then
    searchUp wUpper streamval (scale wUpper c) initIndex (cdf.drop initIndex)
  else searchDown wUpper streamval cdf initIndex (scale wUpper c)

/-- The loop of `DecHistBisectMulti`. A table size has 16 bits, so that there are 16 passes at
most. -/
def bisectLoop (cdf : List (BitVec 16)) : ℕ → ℕ → ℤ → BitVec 32 → BitVec 32 → Option Found
  | 0, _, _, _, _ => none
  | fuel + 1, size, index, lower, upper => do
    let c ← Memory.read cdf index
    let wTmp := scale wUpper c
    let size := size / 2
    if size = 0 then
      if wTmp < streamval then some ⟨wTmp, upper, index⟩ else some ⟨lower, wTmp, index - 1⟩
    else if wTmp < streamval then bisectLoop cdf fuel size (index + size) wTmp upper
    else bisectLoop cdf fuel size (index - size) lower wTmp

def searchBisect (cdf : List (BitVec 16)) (cdfSize : BitVec 16) (wLower : BitVec 32) :
    Option Found :=
  let sizeTmp := cdfSize.toNat / 2
  bisectLoop wUpper streamval cdf 16 sizeTmp (sizeTmp - 1) wLower wUpper

end Searches

structure CdfTable where
  entries : List (BitVec 16)
  first : entries.head? = some 0
  last : entries.getLast? = some 65535
  increasing : entries.Pairwise (· < ·)

theorem toNat_scale (wUpper : BitVec 32) (cdf : BitVec 16) :
    (scale wUpper cdf).toNat = scaled wUpper.toNat cdf.toNat := by
  have hw := wUpper.isLt
  have hc := cdf.isLt
  have hm : (wUpper &&& 0x0000FFFF).toNat = wUpper.toNat % 2 ^ 16 := by
    rw [BitVec.toNat_and]
    exact Nat.and_two_pow_sub_one_eq_mod wUpper.toNat 16
  have hshift : (wUpper >>> 16).toNat = wUpper.toNat / 2 ^ 16 := by
    rw [BitVec.toNat_ushiftRight, Nat.shiftRight_eq_div_pow]
  have hmsb : wUpper.toNat / 2 ^ 16 ≤ 2 ^ 16 - 1 := by omega
  have hlsb : wUpper.toNat % 2 ^ 16 ≤ 2 ^ 16 - 1 := by omega
  have hhigh : wUpper.toNat / 2 ^ 16 * cdf.toNat ≤ (2 ^ 16 - 1) * (2 ^ 16 - 1) :=
    Nat.mul_le_mul hmsb (by omega)
  have hlow : wUpper.toNat % 2 ^ 16 * cdf.toNat ≤ (2 ^ 16 - 1) * (2 ^ 16 - 1) :=
    Nat.mul_le_mul hlsb (by omega)
  have hs : wUpper.toNat * cdf.toNat =
      wUpper.toNat % 2 ^ 16 * cdf.toNat + 2 ^ 16 * (wUpper.toNat / 2 ^ 16 * cdf.toNat) := by
    conv_lhs => rw [← Nat.mod_add_div wUpper.toNat (2 ^ 16)]
    ring
  rw [scaled, hs, Nat.add_mul_div_left _ _ (Nat.two_pow_pos 16), scale]
  simp only [BitVec.toNat_add, BitVec.toNat_mul, hm, hshift, BitVec.toNat_setWidth,
    BitVec.toNat_ushiftRight, Nat.shiftRight_eq_div_pow]
  rw [Nat.mod_eq_of_lt (show cdf.toNat < 2 ^ 32 by omega)]
  generalize wUpper.toNat / 2 ^ 16 * cdf.toNat = high at *
  generalize wUpper.toNat % 2 ^ 16 * cdf.toNat = low at *
  omega

namespace CdfTable

variable (t : CdfTable)

def size : ℕ := t.entries.length

def entry (i : ℕ) : BitVec 16 := t.entries.getD i 0

variable {t} {i j : ℕ}

theorem getElem?_entries (h : i < t.size) : t.entries[i]? = some (t.entry i) := by
  rw [entry, getD_eq_getElem?_getD, getElem?_eq_getElem h, getD_some]

theorem drop_entries (h : i < t.size) : t.entries.drop i = t.entry i :: t.entries.drop (i + 1) := by
  have he := getElem?_entries h
  rw [getElem?_eq_getElem h] at he
  rw [drop_eq_getElem_cons h, some.inj he]

theorem entry_lt (hij : i < j) (hj : j < t.size) : t.entry i < t.entry j := by
  have hlt := pairwise_iff_getElem.mp t.increasing i j (hij.trans hj) hj hij
  have hi := getElem?_entries (hij.trans hj)
  have hj' := getElem?_entries hj
  rw [getElem?_eq_getElem (hij.trans hj)] at hi
  rw [getElem?_eq_getElem hj] at hj'
  rwa [some.inj hi, some.inj hj'] at hlt

theorem entry_le (hij : i ≤ j) (hj : j < t.size) : t.entry i ≤ t.entry j := by
  rcases hij.lt_or_eq with hlt | rfl
  · exact BitVec.le_of_lt (entry_lt hlt hj)
  · exact BitVec.le_refl _

theorem size_pos (t : CdfTable) : 0 < t.size := by
  have hf := t.first
  rw [size, length_pos_iff]
  rintro hnil
  rw [hnil] at hf
  cases hf

theorem entry_zero (t : CdfTable) : t.entry 0 = 0 := by
  have hf := t.first
  rw [head?_eq_getElem?, getElem?_entries t.size_pos] at hf
  exact some.inj hf

theorem entry_last (t : CdfTable) : t.entry (t.size - 1) = 65535 := by
  have hpos := t.size_pos
  have hl := t.last
  rw [getLast?_eq_getElem?, ← size, getElem?_entries (by omega)] at hl
  exact some.inj hl

theorem entry_eq_max_iff (h : i < t.size) : t.entry i = 65535 ↔ i + 1 = t.size := by
  constructor
  · intro hmax
    by_contra hne
    have hlt : t.entry i < t.entry (t.size - 1) := entry_lt (by omega) (by omega)
    rw [hmax, t.entry_last] at hlt
    exact BitVec.lt_irrefl _ hlt
  · intro heq
    rw [← t.entry_last, show i = t.size - 1 by omega]

structure Cut (t : CdfTable) (wUpper streamval : BitVec 32) (k : ℕ) : Prop where
  le_size : k ≤ t.size
  lt_iff : ∀ i < t.size, scale wUpper (t.entry i) < streamval ↔ i < k

variable {wUpper streamval : BitVec 32} {k : ℕ}

theorem scale_entry_lt (hij : i ≤ j) (hj : j < t.size)
    (h : scale wUpper (t.entry j) < streamval) : scale wUpper (t.entry i) < streamval := by
  rw [BitVec.lt_def, toNat_scale] at h ⊢
  exact (scaled_mono _ (BitVec.le_def.mp (entry_le hij hj))).trans_lt h

theorem exists_cut (t : CdfTable) (wUpper streamval : BitVec 32) :
    ∃ k, t.Cut wUpper streamval k := by
  by_cases hall : ∃ i, i < t.size ∧ ¬ scale wUpper (t.entry i) < streamval
  · classical
    obtain ⟨hk, hnot⟩ := Nat.find_spec hall
    refine ⟨Nat.find hall, hk.le, fun i hi => ⟨fun ha => ?_, fun hlt => ?_⟩⟩
    · by_contra hge
      exact hnot (scale_entry_lt (Nat.le_of_not_lt hge) hi ha)
    · by_contra hb
      exact Nat.find_min hall hlt ⟨hi, hb⟩
  · refine ⟨t.size, le_rfl, fun i hi => ⟨fun _ => hi, fun _ => ?_⟩⟩
    by_contra hb
    exact hall ⟨i, hi, hb⟩

theorem Cut.pos_iff (h : t.Cut wUpper streamval k) : 0 < k ↔ 0 < streamval.toNat := by
  rw [← h.lt_iff 0 t.size_pos, BitVec.lt_def, toNat_scale, t.entry_zero]
  exact Iff.of_eq (by rw [show (0 : BitVec 16).toNat = 0 from rfl, scaled_zero])

theorem Cut.lt_size_iff (h : t.Cut wUpper streamval k) :
    k < t.size ↔ streamval ≤ scale wUpper 65535 := by
  have hpos := t.size_pos
  have hl := h.lt_iff (t.size - 1) (by omega)
  have hle := h.le_size
  rw [t.entry_last] at hl
  rw [← BitVec.not_lt, hl]
  omega

def Cut.oneStep (t : CdfTable) (wUpper : BitVec 32) (k : ℕ) : Except ℤ Found :=
  if 0 < k ∧ k < t.size then
    .ok ⟨scale wUpper (t.entry (k - 1)), scale wUpper (t.entry k), (k - 1 : ℕ)⟩
  else .error (-3)

section
variable (h : t.Cut wUpper streamval k) {index : ℕ} (hindex : index < t.size)
include h hindex

theorem Cut.searchUp_eq (habove : index < k) :
    searchUp wUpper streamval (scale wUpper (t.entry index)) index (t.entries.drop index) =
      some (Cut.oneStep t wUpper k) := by
  have hle := h.le_size
  -- On the number of entries behind the pointer.
  obtain ⟨n, hn⟩ : ∃ n, t.size = index + 1 + n := ⟨t.size - (index + 1), by omega⟩
  induction n generalizing index with
  | zero =>
    have hmax : t.entry index = 65535 := (entry_eq_max_iff hindex).mpr (by omega)
    have hnil : t.entries.drop (index + 1) = [] := drop_of_length_le hn.le
    rw [drop_entries hindex, hnil, searchUp, if_pos hmax, Cut.oneStep, if_neg (by omega)]
  | succ n ih =>
    have hnext : index + 1 < t.size := by omega
    have hmax : t.entry index ≠ 65535 := by
      rw [Ne, entry_eq_max_iff hindex]
      omega
    rw [drop_entries hindex, drop_entries hnext, searchUp, if_neg hmax, ← drop_entries hnext]
    by_cases hcut : k = index + 1
    · rw [if_pos (by rw [← BitVec.not_lt, h.lt_iff (index + 1) hnext]; omega), Cut.oneStep,
        if_pos ⟨by omega, by omega⟩, hcut, Nat.add_sub_cancel]
    · have hm : index + 1 < k := by omega
      rw [if_neg (by rw [← BitVec.not_lt, not_not, h.lt_iff (index + 1) hnext]; exact hm),
        ih hnext hm (by omega)]

theorem Cut.searchDown_eq (hbelow : k ≤ index) :
    searchDown wUpper streamval t.entries index (scale wUpper (t.entry index)) =
      some (Cut.oneStep t wUpper k) := by
  induction index with
  | zero =>
    rw [searchDown, Cut.oneStep, if_neg (by omega)]
  | succ index ih =>
    have hlt : index < t.size := by omega
    rw [searchDown, getElem?_entries hlt, bind_eq_bind, bind_some]
    by_cases hcut : k = index + 1
    · rw [if_pos ((h.lt_iff index hlt).mpr (by omega)), Cut.oneStep, if_pos ⟨by omega, by omega⟩,
        hcut, Nat.add_sub_cancel]
    · rw [if_neg (by rw [h.lt_iff index hlt]; omega), ih hlt (by omega)]

end

theorem Cut.searchOneStep_eq (h : t.Cut wUpper streamval k) {initIndex : ℕ}
    (hi : initIndex < t.size) :
    searchOneStep wUpper streamval t.entries initIndex = some (Cut.oneStep t wUpper k) := by
  rw [searchOneStep, getElem?_entries hi, bind_eq_bind, bind_some]
  by_cases ha : initIndex < k
  · rw [if_pos ((h.lt_iff initIndex hi).mpr ha), h.searchUp_eq hi ha]
  · rw [if_neg (by rwa [h.lt_iff initIndex hi]), h.searchDown_eq hi (by omega)]

def Cut.bisect (t : CdfTable) (wUpper : BitVec 32) (k : ℕ) (wLower : BitVec 32) : Found :=
  ⟨if 0 < k then scale wUpper (t.entry (k - 1)) else wLower,
    if k < t.size then scale wUpper (t.entry k) else wUpper, (k : ℤ) - 1⟩

theorem read_entries (h : i < t.size) : Memory.read t.entries (i : ℤ) = some (t.entry i) := by
  rw [Memory.read_natCast, getElem?_entries h]

def cdfSize (t : CdfTable) : BitVec 16 := BitVec.ofNat 16 (t.size + 1)

def Bisectable (t : CdfTable) : Prop := ∃ n < 16, t.size + 1 = 2 ^ n

/-- The cut is in the part of the table that is left: the entries before `a` are below the value of
the stream, and those from `a + 2 ^ (j + 1) - 1` on are not. -/
theorem Cut.bisectLoop_eq (h : t.Cut wUpper streamval k) (wLower : BitVec 32) (j fuel a : ℕ)
    (hfuel : j ≤ fuel) (hlow : a ≤ k) (hh : k ≤ a + 2 ^ (j + 1) - 1)
    (hs : a + 2 ^ (j + 1) - 1 ≤ t.size) :
    bisectLoop wUpper streamval t.entries (fuel + 1) (2 ^ j) ((a + 2 ^ j - 1 : ℕ) : ℤ)
        (if 0 < a then scale wUpper (t.entry (a - 1)) else wLower)
        (if a + 2 ^ (j + 1) - 1 < t.size then scale wUpper (t.entry (a + 2 ^ (j + 1) - 1))
          else wUpper) = some (Cut.bisect t wUpper k wLower) := by
  induction j generalizing fuel a with
  | zero =>
    simp only [pow_zero, zero_add, pow_one, Nat.add_sub_cancel,
      show a + 2 - 1 = a + 1 by omega] at hh hs ⊢
    rw [bisectLoop, read_entries (by omega : a < t.size), bind_eq_bind, bind_some,
      if_pos (by decide), Cut.bisect]
    by_cases hcut : k = a
    · rw [if_neg (by rw [h.lt_iff a (by omega)]; omega), hcut, if_pos (by omega : a < t.size)]
    · rw [if_pos ((h.lt_iff a (by omega)).mpr (by omega)), show k = a + 1 by omega,
        if_pos (Nat.succ_pos a), Nat.add_sub_cancel, Nat.cast_add, Nat.cast_one,
        Int.add_sub_cancel]
  | succ j ih =>
    have hpow' : 2 ^ (j + 1 + 1) = 2 * 2 ^ (j + 1) := by ring
    have hpos := Nat.two_pow_pos j
    obtain ⟨fuel, rfl⟩ : ∃ f, fuel = f + 1 := ⟨fuel - 1, by omega⟩
    have hmid : a + 2 ^ (j + 1) - 1 < t.size := by omega
    have hhalf : 2 ^ (j + 1) / 2 = 2 ^ j := by omega
    rw [bisectLoop, read_entries hmid, bind_eq_bind, bind_some, hhalf,
      if_neg (by omega : ¬ 2 ^ j = 0)]
    by_cases hcut : a + 2 ^ (j + 1) - 1 < k
    · -- The upper half.
      rw [if_pos ((h.lt_iff _ hmid).mpr hcut)]
      have hindex : ((a + 2 ^ (j + 1) - 1 : ℕ) : ℤ) + (2 ^ j : ℕ) =
          ((a + 2 ^ (j + 1) + 2 ^ j - 1 : ℕ) : ℤ) := by omega
      have hn := ih fuel (a + 2 ^ (j + 1)) (by omega) (by omega) (by omega) (by omega)
      rw [if_pos (by omega : 0 < a + 2 ^ (j + 1))] at hn
      rw [hindex, show a + 2 ^ (j + 1 + 1) - 1 = a + 2 ^ (j + 1) + 2 ^ (j + 1) - 1 by omega, hn]
    · -- The lower half.
      rw [if_neg (by rwa [h.lt_iff _ hmid])]
      have hindex : ((a + 2 ^ (j + 1) - 1 : ℕ) : ℤ) - (2 ^ j : ℕ) = ((a + 2 ^ j - 1 : ℕ) : ℤ) := by
        omega
      have hn := ih fuel a (by omega) (by omega) (by omega) (by omega)
      rw [if_pos hmid] at hn
      rw [hindex, hn]

theorem Cut.searchBisect_eq (h : t.Cut wUpper streamval k) (ht : t.Bisectable)
    (wLower : BitVec 32) : searchBisect wUpper streamval t.entries t.cdfSize wLower =
      some (Cut.bisect t wUpper k wLower) := by
  obtain ⟨n, hn, hs⟩ := ht
  have hpos := t.size_pos
  have hle := h.le_size
  obtain ⟨j, rfl⟩ : ∃ j, n = j + 1 := ⟨n - 1, by
    have hne : n ≠ 0 := by
      rintro rfl
      omega
    omega⟩
  have hb : (2 : ℕ) ^ (j + 1) < 2 ^ 16 := Nat.pow_lt_pow_right (by decide) hn
  have hh : t.cdfSize.toNat / 2 = 2 ^ j := by
    rw [cdfSize, BitVec.toNat_ofNat, hs, Nat.mod_eq_of_lt hb]
    omega
  have hindex : ((2 ^ j : ℕ) : ℤ) - 1 = ((0 + 2 ^ j - 1 : ℕ) : ℤ) := by
    have hpos' := Nat.two_pow_pos j
    omega
  have hl := h.bisectLoop_eq wLower j 15 0 (by omega) (Nat.zero_le k)
    (by omega) (by omega)
  rw [if_neg (by omega), if_neg (by omega)] at hl
  rw [searchBisect, hh, hindex, hl]

end CdfTable

end WebRtcAudio.Isac
