import WebRtcAudio.Isac.ArithCoder
import WebRtcAudio.Isac.CodedSymbol

/-! The written bytes and the value of the stream are the low end of the range. -/
namespace WebRtcAudio.Isac

open WebRtcAudio.Core List Option

namespace Bitstr

variable {b : Bitstr (List (BitVec 8))}

def low (b : Bitstr (List (BitVec 8))) : ℕ :=
  beValue (b.stream.take b.streamIndex) * 2 ^ 32 + b.streamval.toNat

structure At (b : Bitstr (List (BitVec 8))) (r : CodeRange) : Prop where
  index_le : b.streamIndex ≤ b.stream.length
  index_eq : b.streamIndex = r.shifts
  width_eq : b.wUpper.toNat = r.width
  low_eq : b.low = r.low

/-- A call on a stream of `n` bytes leaves it at the range, or it fails for lack of room. -/
def Outcome (r : CodeRange) (n : ℕ) : Option (Bitstr (List (BitVec 8))) → Prop
  | some b => b.At r ∧ b.stream.length = n
  | none => n < r.shifts

theorem Outcome.bind {r r' : CodeRange} {n : ℕ} {x : Option (Bitstr (List (BitVec 8)))}
    {f : Bitstr (List (BitVec 8)) → Option (Bitstr (List (BitVec 8)))} (h : Outcome r n x)
    (hle : r.shifts ≤ r'.shifts)
    (hf : ∀ b, b.At r → b.stream.length = n → Outcome r' n (f b)) : Outcome r' n (x.bind f) := by
  cases x with
  | none => exact Nat.lt_of_lt_of_le h hle
  | some b => exact hf b h.1 h.2

theorem at_reset (stream : List (BitVec 8)) : (resetBitstream stream).At CodeRange.start :=
  ⟨Nat.zero_le _, rfl, (by decide : (0xFFFFFFFF : BitVec 32).toNat = CodeRange.start.width), by
    simp [low, resetBitstream, beValue_nil, CodeRange.start]⟩

theorem addToStream_spec (hi : b.streamIndex ≤ b.stream.length) {x : BitVec 32}
    (hroom : b.low + x.toNat < 256 ^ (b.streamIndex + 4)) :
    ∃ b', addToStream b x = some b' ∧ b'.low = b.low + x.toNat ∧
      b'.stream.length = b.stream.length ∧ b'.streamIndex = b.streamIndex ∧
      b'.wUpper = b.wUpper := by
  have hval := b.streamval.isLt
  have hsum : (b.streamval + x).toNat = (b.streamval.toNat + x.toNat) % 2 ^ 32 :=
    BitVec.toNat_add _ _
  rw [addToStream]
  by_cases hc : b.streamval.toNat + x.toNat < 2 ^ 32
  · rw [Nat.mod_eq_of_lt hc] at hsum
    have hnot : ¬ b.streamval + x < x := by
      rw [BitVec.lt_def, hsum]
      omega
    refine ⟨_, if_neg hnot, ?_, rfl, rfl, rfl⟩
    simp only [low, hsum]
    omega
  · rw [Nat.mod_eq_sub_mod (by omega), Nat.mod_eq_of_lt (by omega)] at hsum
    have hw : b.streamval + x < x := by
      rw [BitVec.lt_def, hsum]
      omega
    have hb : beValue (b.stream.take b.streamIndex) + 1 < (2 ^ 8) ^ b.streamIndex := by
      rw [low, show b.streamIndex + 4 = b.streamIndex + 4 from rfl, pow_add] at hroom
      have hpow : (256 : ℕ) ^ b.streamIndex = (2 ^ 8) ^ b.streamIndex := by norm_num
      rw [hpow] at hroom
      omega
    obtain ⟨stream, hs, hl, hvl, -⟩ := carry_spec hi hb
    refine ⟨{ b with stream := stream, streamval := b.streamval + x }, ?_, ?_, hl, rfl, rfl⟩
    · rw [if_pos hw, hs]
      rfl
    · simp only [low, hsum, hvl]
      omega

theorem putByte_spec (hi : b.streamIndex < b.stream.length) (byte : BitVec 8) :
    ∃ b', putByte b byte = some b' ∧ beValue (b'.stream.take b'.streamIndex) =
        beValue (b.stream.take b.streamIndex) * 256 + byte.toNat ∧
      b'.stream.length = b.stream.length ∧ b'.streamIndex = b.streamIndex + 1 ∧
      b'.wUpper = b.wUpper ∧ b'.streamval = b.streamval := by
  refine ⟨_, if_pos hi, ?_, length_set, rfl, rfl, rfl⟩
  rw [take_succ_eq_append_getElem (by rw [length_set]; exact hi),
    take_set_of_le le_rfl, getElem_set_self, beValue_concat]
  norm_num

theorem putByte_eq_none (hindex : b.stream.length ≤ b.streamIndex) (byte : BitVec 8) :
    putByte b byte = none := if_neg (by omega)

section
variable {r : CodeRange} (h : b.At r)
include h

theorem At.shift (hn : ¬ 2 ^ 24 ≤ r.width) (hroom : r.shifts < b.stream.length) :
    ∃ b', putByte { b with wUpper := b.wUpper <<< 8 } ((b.streamval >>> 24).setWidth 8) = some b' ∧
      At { b' with streamval := b'.streamval <<< 8 } r.shift ∧
      b'.stream.length = b.stream.length := by
  obtain ⟨hi, hs, hw, hlow⟩ := h
  obtain ⟨b', hb', hvl, hl, hi', hw', hval'⟩ :=
    putByte_spec (b := { b with wUpper := b.wUpper <<< 8 }) (hs ▸ hroom)
      ((b.streamval >>> 24).setWidth 8)
  have hval := b.streamval.isLt
  have hbyte : ((b.streamval >>> 24).setWidth 8).toNat = b.streamval.toNat / 2 ^ 24 := by
    rw [BitVec.toNat_setWidth, BitVec.toNat_ushiftRight, Nat.shiftRight_eq_div_pow]
    omega
  refine ⟨b', hb', ⟨?_, ?_, ?_, ?_⟩, hl⟩
  · dsimp only at *
    omega
  · dsimp only [CodeRange.shift] at *
    omega
  · dsimp only [CodeRange.shift]
    rw [hw', BitVec.toNat_shiftLeft, Nat.shiftLeft_eq]
    omega
  · simp only [low, CodeRange.shift, hvl, hbyte, hval', BitVec.toNat_shiftLeft, Nat.shiftLeft_eq]
    rw [← hlow, low]
    generalize beValue (b.stream.take b.streamIndex) = bytes
    generalize b.streamval.toNat = val at hval
    clear hvl hbyte hb' hval'
    omega

theorem At.and_high_byte_eq_zero_iff : b.wUpper &&& 0xFF000000 = 0 ↔ ¬ 2 ^ 24 ≤ r.width := by
  rw [Core.and_high_byte_eq_zero_iff, h.width_eq, Nat.not_le]

theorem At.renormalize {k : ℕ} (hk : 2 ^ 24 ≤ 256 ^ k * r.width) :
    Outcome (r.renormalize k) b.stream.length (renormalizeEnc (k + 1) b) := by
  induction k generalizing b r with
  | zero =>
    have hw : 2 ^ 24 ≤ r.width := by rwa [pow_zero, Nat.one_mul] at hk
    rw [renormalizeEnc, if_neg (by rw [h.and_high_byte_eq_zero_iff, not_not]; exact hw)]
    exact ⟨h, rfl⟩
  | succ k ih =>
    rw [renormalizeEnc, CodeRange.renormalize]
    by_cases hw : 2 ^ 24 ≤ r.width
    · rw [if_pos hw, if_neg (by rw [h.and_high_byte_eq_zero_iff, not_not]; exact hw)]
      exact ⟨h, rfl⟩
    rw [if_neg hw, if_pos (h.and_high_byte_eq_zero_iff.mpr hw)]
    by_cases hlt : r.shifts < b.stream.length
    · have hk' : 2 ^ 24 ≤ 256 ^ k * r.shift.width :=
        calc 2 ^ 24 ≤ 256 ^ (k + 1) * r.width := hk
          _ = 256 ^ k * (256 * r.width) := by ring
      obtain ⟨b', hb', hat, hl⟩ := h.shift hw hlt
      rw [hb', ← hl]
      exact ih hat hk'
    · have hindex := h.index_eq
      rw [putByte_eq_none (by dsimp only; omega)]
      exact (Nat.lt_succ_of_le (Nat.le_of_not_lt hlt)).trans_le (r.shift.shifts_le_renormalize k)

end

variable {r : CodeRange}

theorem At.narrow (h : b.At r) (hr : r.Valid) (c : CodedSymbol) : ∃ b', addToStream
        { b with wUpper := (c.found b.wUpper).wUpper - ((c.found b.wUpper).wLower + 1) }
        ((c.found b.wUpper).wLower + 1) = some b' ∧
      b'.At (r.narrow c.part.1 c.part.2) ∧ b'.stream.length = b.stream.length := by
  obtain ⟨hi, hs, hw, hlow⟩ := h
  obtain ⟨hstart, hp⟩ := c.toNat_part hw hr
  have hend := (hr.narrow c.part_valid).1.end_lt
  rw [CodeRange.narrow] at hend
  dsimp only at hend
  obtain ⟨b', hb', hlow', hl', hi', hw'⟩ := addToStream_spec
    (b := { b with wUpper := (c.found b.wUpper).wUpper - ((c.found b.wUpper).wLower + 1) })
    hi (x := (c.found b.wUpper).wLower + 1) (by
      change b.low + _ < 256 ^ (b.streamIndex + 4)
      rw [hlow, hstart, hs]
      omega)
  refine ⟨b', hb', ⟨?_, hi'.trans hs, ?_, ?_⟩, hl'⟩
  · rw [hi', hl']
    exact hi
  · rw [hw']
    exact hp
  · rw [hlow', hstart, CodeRange.narrow]
    exact congrArg (· + _) hlow

theorem encSymbol_eq (b : Bitstr (List (BitVec 8))) (c : CodedSymbol) :
    encSymbol b c.data.1 c.data.2 = (addToStream
        { b with wUpper := (c.found b.wUpper).wUpper - ((c.found b.wUpper).wLower + 1) }
        ((c.found b.wUpper).wLower + 1)).bind (renormalizeEnc 4) := by
  have hi := c.inside
  have hreadLo : Memory.read c.data.2 c.data.1 = some (c.table.entry c.symbol) :=
    CdfTable.read_entries (by omega)
  have hreadHi : Memory.read c.data.2 (c.data.1 + 1) = some (c.table.entry (c.symbol + 1)) :=
    CdfTable.read_entries hi
  simp only [encSymbol, hreadLo, hreadHi, bind_eq_bind, bind_some]
  rfl

section
variable (h : b.At r) (hr : r.Valid)
include h hr

theorem At.encSymbol (c : CodedSymbol) : Outcome (r.encode c.part.1 c.part.2) b.stream.length
    (encSymbol b c.data.1 c.data.2) := by
  obtain ⟨-, hwide⟩ := hr.narrow c.part_valid
  obtain ⟨b₁, hb₁, hat₁, hl₁⟩ := h.narrow hr c
  rw [encSymbol_eq, hb₁, bind_some, ← hl₁]
  exact hat₁.renormalize (k := 3) (by omega)

theorem At.encHistMulti (cs : List CodedSymbol) : Outcome (r.encodeAll (cs.map CodedSymbol.part))
    b.stream.length (encHistMulti b (cs.map CodedSymbol.data)) := by
  induction cs generalizing b r with
  | nil => exact ⟨h, rfl⟩
  | cons c cs ih =>
    rw [Isac.encHistMulti, map_cons, map_cons, foldlM_cons]
    refine (h.encSymbol hr c).bind
      (CodeRange.shifts_le_encodeAll _ (cs.map CodedSymbol.part)) fun b₁ hat₁ hl₁ => ?_
    rw [← hl₁]
    exact ih hat₁ (hr.encode c.part_valid)

end

theorem toNat_byte (x : BitVec 32) (k : ℕ) :
    ((x >>> k).setWidth 8).toNat = x.toNat / 2 ^ k % 256 := by
  rw [BitVec.toNat_setWidth, BitVec.toNat_ushiftRight, Nat.shiftRight_eq_div_pow]

theorem At.add (h : b.At r) (hr : r.Valid) {x : BitVec 32} (hx : x.toNat ≤ r.width) :
    ∃ b', addToStream b x = some b' ∧ b'.low = r.low + x.toNat ∧ b'.streamIndex = r.shifts ∧
      b'.stream.length = b.stream.length := by
  obtain ⟨hi, hs, -, hlow⟩ := h
  have hend := hr.end_lt
  obtain ⟨b', hb', hlow', hl', hi', -⟩ := addToStream_spec hi (x := x) (by
    rw [hlow, hs]
    omega)
  exact ⟨b', hb', by rw [hlow', hlow], hi'.trans hs, hl'⟩

theorem At.lt_wUpper_iff (h : b.At r) : 0x01FFFFFF < b.wUpper ↔ 0x01FFFFFF < r.width := by
  rw [BitVec.lt_def, h.width_eq]
  rfl

theorem At.encTerminate_spec (h : b.At r) (hr : r.Valid) :
    (b.stream.length < r.codeLength → encTerminate b = none) ∧
      (r.codeLength ≤ b.stream.length → ∃ b', encTerminate b = some (b', r.codeLength) ∧
        beValue (b'.stream.take r.codeLength) = r.codeNumber) := by
  have hw := hr.le_width
  rw [CodeRange.codeLength, encTerminate, CodeRange.codeNumber]
  by_cases hone : 0x01FFFFFF < r.width
  · rw [if_pos (h.lt_wUpper_iff.mpr hone), if_pos hone, if_pos hone]
    have hx : (0x01000000 : BitVec 32).toNat = 2 ^ 24 := rfl
    obtain ⟨b₁, hb₁, hlow₁, hi₁, hl₁⟩ := h.add hr (hx.trans_le hw)
    rw [hb₁, bind_eq_bind, bind_some]
    refine ⟨fun hroom => by rw [putByte_eq_none (by omega)]; rfl, fun hroom => ?_⟩
    obtain ⟨b₂, hb₂, hv₂, -, hi₂, -, -⟩ :=
      putByte_spec (b := b₁) (by omega) ((b₁.streamval >>> 24).setWidth 8)
    have hl : b₂.streamIndex = r.shifts + 1 := by omega
    refine ⟨b₂, by rw [hb₂, bind_some, hl]; rfl, ?_⟩
    rw [toNat_byte, hl] at hv₂
    rw [hv₂, ← hx, ← hlow₁, low, hx]
    omega
  · rw [if_neg (fun hlt => hone (h.lt_wUpper_iff.mp hlt)), if_neg hone, if_neg hone]
    have hx : (0x00010000 : BitVec 32).toNat = 2 ^ 16 := rfl
    obtain ⟨b₁, hb₁, hlow₁, hi₁, hl₁⟩ := h.add hr (hx.trans_le (by omega))
    rw [hb₁, bind_eq_bind, bind_some]
    by_cases hf : b₁.streamIndex < b₁.stream.length
    · obtain ⟨b₂, hb₂, hv₂, hl₂, hi₂, -, hval₂⟩ :=
        putByte_spec hf ((b₁.streamval >>> 24).setWidth 8)
      rw [hb₂, bind_some]
      refine ⟨fun hroom => by rw [putByte_eq_none (by omega)]; rfl, fun hroom => ?_⟩
      obtain ⟨b₃, hb₃, hv₃, -, hi₃, -, -⟩ :=
        putByte_spec (b := b₂) (by omega) ((b₂.streamval >>> 16).setWidth 8)
      have hl : b₃.streamIndex = r.shifts + 2 := by omega
      refine ⟨b₃, by rw [hb₃, bind_some, hl]; rfl, ?_⟩
      rw [toNat_byte, hv₂, toNat_byte, hval₂, hl] at hv₃
      rw [hv₃, ← hx, ← hlow₁, low, hx]
      omega
    · rw [putByte_eq_none (by omega)]
      exact ⟨fun _ => rfl, fun hroom => absurd hroom (by omega)⟩

end Bitstr

end WebRtcAudio.Isac
