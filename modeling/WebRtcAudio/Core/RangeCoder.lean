import WebRtcAudio.Core.BigEndian

/-! A range coder on the number line: the range is scaled by 256 whenever it gets narrow. -/
namespace WebRtcAudio.Core

def scaled (width c : ℕ) : ℕ := width * c / 2 ^ 16

theorem scaled_zero (width : ℕ) : scaled width 0 = 0 := by
  rw [scaled, Nat.mul_zero, Nat.zero_div]

variable {c d width k : ℕ}

theorem scaled_mono (width : ℕ) (h : c ≤ d) : scaled width c ≤ scaled width d :=
  Nat.div_le_div_right (Nat.mul_le_mul_left width h)

theorem scaled_le (h : c ≤ 2 ^ 16) : scaled width c ≤ width := by
  rw [scaled]
  exact Nat.div_le_of_le_mul (by rw [Nat.mul_comm]; exact Nat.mul_le_mul_right width h)

theorem scaled_add_le (hwidth : 2 ^ 24 ≤ width) (h : c < d) :
    scaled width c + 256 ≤ scaled width d := by
  have hmul : width * c + 256 * 2 ^ 16 ≤ width * d :=
    calc width * c + 256 * 2 ^ 16 ≤ width * c + width := by omega
      _ = width * (c + 1) := by ring
      _ ≤ width * d := Nat.mul_le_mul_left width h
  have hdiv := Nat.div_le_div_right (c := 2 ^ 16) hmul
  rwa [Nat.add_mul_div_right _ _ (Nat.two_pow_pos 16)] at hdiv

theorem and_high_byte_eq_zero_iff (x : BitVec 32) : x &&& 0xFF000000 = 0 ↔ x.toNat < 2 ^ 24 := by
  have hm : (0xFF000000 : BitVec 32).toNat = (2 ^ 8 - 1) * 2 ^ 24 := by decide
  have hbit : ∀ i, ((2 ^ 8 - 1) * 2 ^ 24).testBit i = (decide (24 ≤ i) && decide (i - 24 < 8)) := by
    intro i
    rw [Nat.testBit_mul_two_pow, Nat.testBit_two_pow_sub_one]
  rw [← BitVec.toNat_inj, BitVec.toNat_and, hm]
  constructor
  · intro h
    refine Nat.lt_pow_two_of_testBit _ fun i hi => ?_
    by_cases hlt : i < 32
    · have hz : (x.toNat &&& (2 ^ 8 - 1) * 2 ^ 24).testBit i = Nat.testBit 0 i :=
        congrArg (Nat.testBit · i) h
      rwa [Nat.testBit_and, hbit, decide_eq_true hi, decide_eq_true (show i - 24 < 8 by omega),
        Bool.and_true, Bool.and_true, Nat.zero_testBit] at hz
    · exact Nat.testBit_lt_two_pow (x.isLt.trans_le (Nat.pow_le_pow_right (by decide) (by omega)))
  · intro h
    refine Nat.eq_of_testBit_eq fun i => ?_
    rw [Nat.testBit_and, hbit]
    by_cases hi : 24 ≤ i
    · rw [Nat.testBit_lt_two_pow (h.trans_le (Nat.pow_le_pow_right (by decide) hi))]
      simp
    · simp [hi]

structure CodeRange where
  shifts : ℕ
  low : ℕ
  width : ℕ

variable {parts : List (ℕ × ℕ)}

namespace CodeRange

def start : CodeRange := ⟨0, 0, 2 ^ 32 - 1⟩

def narrow (r : CodeRange) (lo hi : ℕ) : CodeRange :=
  ⟨r.shifts, r.low + (scaled r.width lo + 1), scaled r.width hi - (scaled r.width lo + 1)⟩

def shift (r : CodeRange) : CodeRange := ⟨r.shifts + 1, 256 * r.low, 256 * r.width⟩

def renormalize : ℕ → CodeRange → CodeRange
  | 0, r => r
  | k + 1, r => if 2 ^ 24 ≤ r.width then r else renormalize k r.shift

def encode (r : CodeRange) (lo hi : ℕ) : CodeRange := (r.narrow lo hi).renormalize 3

structure Fits (r : CodeRange) : Prop where
  width_lt : r.width < 2 ^ 32
  end_lt : r.low + r.width < 256 ^ (r.shifts + 4)

structure Valid (r : CodeRange) : Prop extends Fits r where
  le_width : 2 ^ 24 ≤ r.width

variable {r : CodeRange} {lo hi : ℕ}

theorem valid_start : start.Valid := ⟨⟨by decide, by decide⟩, by decide⟩

theorem Fits.shift (h : r.Fits) (hn : ¬ 2 ^ 24 ≤ r.width) : r.shift.Fits := by
  obtain ⟨-, hend⟩ := h
  refine ⟨?_, ?_⟩
  · rw [CodeRange.shift]
    dsimp only
    omega
  · rw [CodeRange.shift]
    dsimp only
    rw [show r.shifts + 1 + 4 = r.shifts + 4 + 1 by omega, pow_succ]
    omega

theorem Fits.renormalize (h : r.Fits) (hk : 2 ^ 24 ≤ 256 ^ k * r.width) :
    (r.renormalize k).Valid := by
  induction k generalizing r with
  | zero => exact ⟨h, by rwa [pow_zero, Nat.one_mul] at hk⟩
  | succ k ih =>
    rw [CodeRange.renormalize]
    split
    case isTrue hw => exact ⟨h, hw⟩
    case isFalse hn =>
      refine ih (h.shift hn) ?_
      rw [CodeRange.shift]
      calc 2 ^ 24 ≤ 256 ^ (k + 1) * r.width := hk
        _ = 256 ^ k * (256 * r.width) := by ring

theorem Valid.narrow (h : r.Valid) (hp : lo < hi ∧ hi < 2 ^ 16) :
    (r.narrow lo hi).Fits ∧ 255 ≤ (r.narrow lo hi).width := by
  have hwide := scaled_add_le h.le_width hp.1
  have hle : scaled r.width hi ≤ r.width := scaled_le hp.2.le
  obtain ⟨⟨hwidth, hend⟩, -⟩ := h
  refine ⟨⟨?_, ?_⟩, ?_⟩ <;> rw [CodeRange.narrow] <;> dsimp only <;> omega

theorem Valid.encode (h : r.Valid) (hp : lo < hi ∧ hi < 2 ^ 16) : (r.encode lo hi).Valid := by
  obtain ⟨hf, hwidth⟩ := h.narrow hp
  exact hf.renormalize (by omega)

def encodeAll (r : CodeRange) (parts : List (ℕ × ℕ)) : CodeRange :=
  parts.foldl (fun r part => r.encode part.1 part.2) r

theorem encodeAll_append (r : CodeRange) (parts more : List (ℕ × ℕ)) :
    r.encodeAll (parts ++ more) = (r.encodeAll parts).encodeAll more := List.foldl_append

theorem Valid.encodeAll (h : r.Valid) (hparts : ∀ part ∈ parts, part.1 < part.2 ∧ part.2 < 2 ^ 16) :
    (r.encodeAll parts).Valid := by
  induction parts generalizing r with
  | nil => exact h
  | cons part parts ih =>
    exact ih (h.encode (hparts part List.mem_cons_self)) fun p hp =>
      hparts p (List.mem_cons_of_mem part hp)

theorem shifts_le_renormalize (r : CodeRange) (k : ℕ) : r.shifts ≤ (r.renormalize k).shifts := by
  induction k generalizing r with
  | zero => exact le_rfl
  | succ k ih =>
    rw [renormalize]
    split
    · exact le_rfl
    · exact (Nat.le_succ r.shifts).trans (ih r.shift)

theorem shifts_le_encodeAll (r : CodeRange) (parts : List (ℕ × ℕ)) :
    r.shifts ≤ (r.encodeAll parts).shifts := by
  induction parts generalizing r with
  | nil => exact le_rfl
  | cons part parts ih =>
    exact (shifts_le_renormalize (r.narrow part.1 part.2) 3).trans (ih (r.encode part.1 part.2))

end CodeRange

def codeValue (code : ℕ → BitVec 8) : ℕ → ℕ
  | 0 => 0
  | m + 1 => 256 * codeValue code m + (code m).toNat

theorem codeValue_lt (code : ℕ → BitVec 8) (m : ℕ) : codeValue code m < 256 ^ m := by
  induction m with
  | zero => exact Nat.one_pos
  | succ m ih =>
    have hbyte := (code m).isLt
    rw [codeValue, pow_succ]
    omega

theorem codeValue_add (code : ℕ → BitVec 8) (m k : ℕ) :
    codeValue code (m + k) = codeValue code m * 256 ^ k + codeValue (fun i => code (m + i)) k := by
  induction k with
  | zero => simp [codeValue]
  | succ k ih =>
    rw [← Nat.add_assoc, codeValue, ih, codeValue]
    ring

theorem codeValue_eq_beValue {code : ℕ → BitVec 8} {bytes : List (BitVec 8)} {m : ℕ}
    (h : ∀ i < m, bytes[i]? = some (code i)) : codeValue code m = beValue (bytes.take m) := by
  induction m with
  | zero => rfl
  | succ m ih =>
    have hl := h m (Nat.lt_succ_self m)
    rw [codeValue, ih fun i hi => h i (Nat.lt_succ_of_lt hi), List.take_add_one, hl,
      Option.toList_some, beValue_concat, Nat.mul_comm]
    rfl

namespace CodeRange

variable {r : CodeRange} {lo hi : ℕ} {code : ℕ → BitVec 8}

/-- The code, read as a fraction, lies in the range. -/
structure Contains (r : CodeRange) (code : ℕ → BitVec 8) : Prop where
  low_le : r.low ≤ codeValue code (r.shifts + 4)
  le_end : codeValue code (r.shifts + 4) ≤ r.low + r.width

def offset (r : CodeRange) (code : ℕ → BitVec 8) : ℕ := codeValue code (r.shifts + 4) - r.low

theorem Contains.offset_le (h : r.Contains code) : r.offset code ≤ r.width := by
  obtain ⟨-, hend⟩ := h
  rw [offset]
  omega

theorem offset_shift (h : r.Contains code) :
    r.shift.offset code = 256 * r.offset code + (code (r.shifts + 4)).toNat := by
  obtain ⟨hlow, -⟩ := h
  rw [offset, offset, shift]
  dsimp only
  rw [show r.shifts + 1 + 4 = r.shifts + 4 + 1 by omega, codeValue]
  omega

theorem Contains.of_shift (h : r.shift.Contains code) : r.Contains code := by
  obtain ⟨hlow, hend⟩ := h
  simp only [shift] at hlow hend
  rw [show r.shifts + 1 + 4 = r.shifts + 4 + 1 by omega, codeValue] at hlow hend
  constructor <;> omega

theorem Contains.of_renormalize (h : (r.renormalize k).Contains code) : r.Contains code := by
  induction k generalizing r with
  | zero => exact h
  | succ k ih =>
    rw [renormalize] at h
    split at h
    · exact h
    · exact (ih h).of_shift

theorem Contains.of_narrow (h : (r.narrow lo hi).Contains code)
    (hlo : scaled r.width lo < scaled r.width hi) (hhi : scaled r.width hi ≤ r.width) :
    r.Contains code ∧ scaled r.width lo < r.offset code ∧ r.offset code ≤ scaled r.width hi := by
  obtain ⟨hlow, hend⟩ := h
  simp only [narrow] at hlow hend
  refine ⟨⟨?_, ?_⟩, ?_, ?_⟩
  · omega
  · omega
  · rw [offset]
    omega
  · rw [offset]
    omega

theorem offset_narrow (r : CodeRange) (lo hi : ℕ) (code : ℕ → BitVec 8) :
    (r.narrow lo hi).offset code = r.offset code - (scaled r.width lo + 1) := by
  rw [offset, offset, narrow]
  dsimp only
  omega

theorem Valid.contains_of_encode (h : r.Valid) (hp : lo < hi ∧ hi < 2 ^ 16)
    (hc : (r.encode lo hi).Contains code) :
    r.Contains code ∧ scaled r.width lo < r.offset code ∧ r.offset code ≤ scaled r.width hi := by
  have hwide := scaled_add_le h.le_width hp.1
  exact hc.of_renormalize.of_narrow (by omega) (scaled_le hp.2.le)

theorem Valid.contains_of_encodeAll (h : r.Valid)
    (hparts : ∀ part ∈ parts, part.1 < part.2 ∧ part.2 < 2 ^ 16)
    (hc : (r.encodeAll parts).Contains code) : r.Contains code := by
  induction parts generalizing r with
  | nil => exact hc
  | cons part parts ih =>
    have hpart := hparts part List.mem_cons_self
    have hn := ih (h.encode hpart) (fun p hp => hparts p (List.mem_cons_of_mem part hp)) hc
    exact (h.contains_of_encode hpart hn).1

def codeLength (r : CodeRange) : ℕ :=
  if 0x01FFFFFF < r.width then r.shifts + 1 else r.shifts + 2

theorem shifts_le_codeLength (r : CodeRange) : r.shifts ≤ r.codeLength := by
  rw [codeLength]
  split <;> omega

def codeNumber (r : CodeRange) : ℕ :=
  if 0x01FFFFFF < r.width then (r.low + 2 ^ 24) / 2 ^ 24 else (r.low + 2 ^ 16) / 2 ^ 16

theorem Valid.contains_of_codeNumber (h : r.Valid)
    (hc : codeValue code r.codeLength = r.codeNumber) : r.Contains code := by
  have hwidth := h.le_width
  rw [codeLength, codeNumber] at hc
  split at hc
  · have hr := codeValue_lt (fun i => code (r.shifts + 1 + i)) 3
    have hval := codeValue_add code (r.shifts + 1) 3
    rw [hc, show r.shifts + 1 + 3 = r.shifts + 4 by omega] at hval
    constructor <;> omega
  · have hr := codeValue_lt (fun i => code (r.shifts + 2 + i)) 2
    have hval := codeValue_add code (r.shifts + 2) 2
    rw [hc, show r.shifts + 2 + 2 = r.shifts + 4 by omega] at hval
    constructor <;> omega

end CodeRange

end WebRtcAudio.Core
