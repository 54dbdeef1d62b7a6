import WebRtcAudio.Core.Run
import WebRtcAudio.Isac.ArithDecoder

/-! The decoders on streams that no encoder wrote. -/
namespace WebRtcAudio.Isac

open WebRtcAudio.Core Option

structure OneStepTable where
  table : CdfTable
  initIndex : ℕ
  init_lt : initIndex < table.size

structure BisectTable where
  table : CdfTable
  bisectable : table.Bisectable

inductive DecCall where
  | oneStep (tables : List OneStepTable)
  | bisect (tables : List BisectTable)

def DecCall.tables : DecCall → List CdfTable
  | .oneStep tables => tables.map OneStepTable.table
  | .bisect tables => tables.map BisectTable.table

def decodeCall (b : Bitstr (ℕ → BitVec 8)) : DecCall → Option (Bitstr (ℕ → BitVec 8) × DecResult)
  | .oneStep tables =>
    decHistOneStepMulti b (tables.map fun t => (t.table.entries, t.initIndex))
  | .bisect tables =>
    decHistBisectMulti b (tables.map fun t => (t.table.entries, t.table.cdfSize))

def InAlphabet (symbol : ℤ) (t : CdfTable) : Prop := 0 ≤ symbol ∧ symbol ≤ (t.size : ℤ) - 2

def DecCall.Sound (call : DecCall) (r : DecResult) : Prop :=
  r.returned < 0 ∨ List.Forall₂ InAlphabet r.data call.tables

namespace Bitstr

def Inside (b : Bitstr (ℕ → BitVec 8)) : Prop :=
  0 < b.streamval ∧ b.streamval ≤ scale b.wUpper 65535

def StaysInside : Bitstr (ℕ → BitVec 8) → BitVec 32 → List BisectTable → Prop
  | _, _, [] => True
  | b, wLower, t :: tables =>
    b.Inside ∧ ∀ wLower' symbol b',
      decBisect b wLower t.table.entries t.table.cdfSize = some (wLower', symbol, b') →
        b'.StaysInside wLower' tables

end Bitstr

def DecCall.Inside (b : Bitstr (ℕ → BitVec 8)) : DecCall → Prop
  | .oneStep _ => True
  | .bisect tables => (readFirstWord b).StaysInside 0 tables

section Passes
variable {b : Bitstr (ℕ → BitVec 8)}

/-- The range is wide enough to be divided, and the first bytes are read. -/
structure Wide (b : Bitstr (ℕ → BitVec 8)) : Prop where
  width : 2 ^ 24 ≤ b.wUpper.toNat
  index : 3 ≤ b.streamIndex

theorem renormalizeDec_spec {k : ℕ} (hk : 2 ^ 24 ≤ 256 ^ k * b.wUpper.toNat)
    (hi : 3 ≤ b.streamIndex) : ∃ b', renormalizeDec (k + 1) b = some b' ∧ Wide b' := by
  induction k generalizing b with
  | zero =>
    have hw : 2 ^ 24 ≤ b.wUpper.toNat := by rwa [pow_zero, Nat.one_mul] at hk
    rw [renormalizeDec, if_neg (by rw [and_high_byte_eq_zero_iff]; omega)]
    exact ⟨b, rfl, hw, hi⟩
  | succ k ih =>
    rw [renormalizeDec]
    by_cases hw : b.wUpper.toNat < 2 ^ 24
    · rw [if_pos ((and_high_byte_eq_zero_iff _).mpr hw)]
      refine ih ?_ (hi.trans (Nat.le_succ _))
      dsimp only
      rw [BitVec.toNat_shiftLeft, Nat.shiftLeft_eq, Nat.mod_eq_of_lt (by omega)]
      calc 2 ^ 24 ≤ 256 ^ (k + 1) * b.wUpper.toNat := hk
        _ = 256 ^ k * (b.wUpper.toNat * 2 ^ 8) := by ring
    · rw [if_neg (by rwa [and_high_byte_eq_zero_iff])]
      exact ⟨b, rfl, Nat.le_of_not_lt hw, hi⟩

theorem renormalizeDec_streamval_pos {x j k : ℕ} (hjk : j + k = 3) (hx : 0 < x)
    (hw : b.wUpper.toNat = 256 ^ j * x) (hlow : 256 ^ j * x ≤ b.streamval.toNat)
    (hhigh : b.streamval.toNat < 256 ^ j * (x + 1)) {b' : Bitstr (ℕ → BitVec 8)}
    (h : renormalizeDec (k + 1) b = some b') : 0 < b'.streamval.toNat := by
  have hpos : 0 < 256 ^ j * x := Nat.mul_pos (Nat.pow_pos (by decide)) hx
  induction k generalizing b j with
  | zero =>
    rw [renormalizeDec] at h
    split at h
    · cases h
    · cases h
      omega
  | succ k ih =>
    rw [renormalizeDec] at h
    split at h
    case isTrue hz =>
      rw [and_high_byte_eq_zero_iff, hw] at hz
      -- The value is as far from the end of the register as the interval.
      have hend : 256 ^ j * (x + 1) ≤ 2 ^ 24 := by
        have hpow : (2 : ℕ) ^ 24 = 256 ^ j * 256 ^ (k + 1) := by
          rw [← pow_add, hjk]
          norm_num
        rw [hpow] at hz ⊢
        exact Nat.mul_le_mul_left _ (Nat.lt_of_mul_lt_mul_left hz)
      have hbyte := (b.stream (b.streamIndex + 1)).isLt
      have hval := toNat_shiftLeft_or (x := b.streamval) (by omega)
        (b.stream (b.streamIndex + 1))
      have hs : 256 ^ (j + 1) * x = 256 * (256 ^ j * x) := by ring
      have hs' : 256 ^ (j + 1) * (x + 1) = 256 * (256 ^ j * (x + 1)) := by ring
      refine ih (j := j + 1) (by omega) ?_ ?_ ?_ h (by omega)
      · dsimp only
        rw [BitVec.toNat_shiftLeft, Nat.shiftLeft_eq, Nat.mod_eq_of_lt (by omega)]
        omega
      · dsimp only
        omega
      · dsimp only
        omega
    case isFalse =>
      cases h
      omega

theorem takeSymbol_spec {found : Found} (hi : 3 ≤ b.streamIndex)
    (hroom : found.wLower.toNat + 256 ≤ found.wUpper.toNat) :
    ∃ b', takeSymbol b found = some b' ∧ Wide b' := by
  have hone : (1 : BitVec 32).toNat = 1 := by decide
  rw [takeSymbol]
  refine renormalizeDec_spec (k := 3) ?_ hi
  dsimp only
  rw [BitVec.toNat_sub, BitVec.toNat_add, hone, Nat.mod_eq_of_lt (show _ + 1 < 2 ^ 32 by omega)]
  omega

theorem decOneStep_spec (hb : Wide b) (t : OneStepTable) :
    decOneStep b t.table.entries t.initIndex = some (.error (-3)) ∨
      ∃ symbol b', decOneStep b t.table.entries t.initIndex = some (.ok (symbol, b')) ∧ Wide b' ∧
        InAlphabet symbol t.table := by
  obtain ⟨k, hcut⟩ := t.table.exists_cut b.wUpper b.streamval
  rw [decOneStep, hcut.searchOneStep_eq t.init_lt, CdfTable.Cut.oneStep]
  by_cases hi : 0 < k ∧ k < t.table.size
  · right
    rw [if_pos hi]
    obtain ⟨hpos, hlt⟩ := hi
    have he : t.table.entry (k - 1) < t.table.entry k := CdfTable.entry_lt (by omega) hlt
    have hr : (scale b.wUpper (t.table.entry (k - 1))).toNat + 256 ≤
        (scale b.wUpper (t.table.entry k)).toNat := by
      rw [toNat_scale, toNat_scale]
      exact scaled_add_le hb.width (BitVec.lt_def.mp he)
    have ht : ∃ b', takeSymbol b ⟨scale b.wUpper (t.table.entry (k - 1)),
        scale b.wUpper (t.table.entry k), (k - 1 : ℕ)⟩ = some b' ∧ Wide b' :=
      takeSymbol_spec hb.index hr
    obtain ⟨b', hb', hw⟩ := ht
    refine ⟨(k - 1 : ℕ), b', ?_, hw, ?_⟩
    · simp only [bind_eq_bind, bind_some, hb', Option.pure_def]
    · rw [InAlphabet]
      omega
  · left
    rw [if_neg hi]
    rfl

theorem decOneStepLoop_spec (hb : Wide b) (tables : List OneStepTable) :
    ∃ final data, decOneStepLoop b (tables.map fun t => (t.table.entries, t.initIndex)) =
        some (final, data) ∧ (final = .error (-3) ∨ ∃ b', final = .ok b' ∧ Wide b' ∧
        List.Forall₂ InAlphabet data (tables.map OneStepTable.table)) := by
  induction tables generalizing b with
  | nil => exact ⟨.ok b, [], rfl, .inr ⟨b, rfl, hb, .nil⟩⟩
  | cons t tables ih =>
    rw [List.map_cons, decOneStepLoop]
    rcases decOneStep_spec hb t with herr | ⟨symbol, b₁, hb₁, hw₁, hsym⟩
    · rw [herr]
      exact ⟨.error (-3), [], rfl, .inl rfl⟩
    · obtain ⟨final, data, hl, hf⟩ := ih hw₁
      refine ⟨final, symbol :: data, ?_, ?_⟩
      · simp only [hb₁, hl, bind_eq_bind, bind_some, Option.pure_def]
      · rcases hf with herr | ⟨b₂, hb₂, hw₂, hd⟩
        · exact .inl herr
        · exact .inr ⟨b₂, hb₂, hw₂, .cons hsym hd⟩

/-- The bisection leaves an interval. If the value of the stream is zero, it is the one from the
lower end that the pass before left to the end of the register. -/
structure Stale (b : Bitstr (ℕ → BitVec 8)) (wLower : BitVec 32) : Prop extends Wide b where
  lower : b.streamval.toNat = 0 → wLower.toNat + 1 < 2 ^ 32

variable {wLower : BitVec 32}

theorem decBisect_spec (hb : Stale b wLower) (t : BisectTable) :
    ∃ wLower' symbol b', decBisect b wLower t.table.entries t.table.cdfSize =
        some (wLower', symbol, b') ∧ Stale b' wLower' ∧ (InAlphabet symbol t.table ↔ b.Inside) := by
  obtain ⟨k, hcut⟩ := t.table.exists_cut b.wUpper b.streamval
  have hw := hb.width
  have hone : (1 : BitVec 32).toNat = 1 := by decide
  have hi : InAlphabet ((k : ℤ) - 1) t.table ↔ b.Inside := by
    rw [InAlphabet, Bitstr.Inside, ← hcut.lt_size_iff, BitVec.lt_def,
      show (0 : BitVec 32).toNat = 0 from rfl, ← hcut.pos_iff]
    omega
  rw [decBisect, hcut.searchBisect_eq t.bisectable wLower]
  by_cases hpos : 0 < k
  · -- There is an entry below the value, and the interval starts at it.
    have hr : (CdfTable.Cut.bisect t.table b.wUpper k wLower).wLower.toNat + 256 ≤
        (CdfTable.Cut.bisect t.table b.wUpper k wLower).wUpper.toNat := by
      rw [CdfTable.Cut.bisect]
      dsimp only
      rw [if_pos hpos]
      split
      case isTrue hlt =>
        rw [toNat_scale, toNat_scale]
        exact scaled_add_le hw (BitVec.lt_def.mp (CdfTable.entry_lt (by omega) hlt))
      case isFalse =>
        have hend : scaled b.wUpper.toNat (2 ^ 16) = b.wUpper.toNat :=
          Nat.mul_div_cancel _ (Nat.two_pow_pos 16)
        rw [toNat_scale]
        exact (scaled_add_le hw (BitVec.isLt _)).trans_eq hend
    obtain ⟨b', hb', hwide⟩ := takeSymbol_spec hb.index hr
    refine ⟨_, _, b', by rw [bind_eq_bind, bind_some, hb']; rfl, ⟨hwide, ?_⟩,
      hi⟩
    intro _
    rw [BitVec.toNat_add, hone, Nat.mod_eq_of_lt (by omega)]
    omega
  · -- The value is zero, and so is the upper end of the interval.
    obtain rfl : k = 0 := Nat.eq_zero_of_not_pos hpos
    have hz : b.streamval.toNat = 0 := Nat.eq_zero_of_not_pos fun h => hpos (hcut.pos_iff.mpr h)
    have hl := hb.lower hz
    have hs : b.streamval = 0 := BitVec.eq_of_toNat_eq hz
    have hu : scale b.wUpper (t.table.entry 0) = 0 := by
      apply BitVec.eq_of_toNat_eq
      rw [toNat_scale, t.table.entry_zero]
      exact scaled_zero _
    have hwL : (wLower + 1).toNat = wLower.toNat + 1 := by
      rw [BitVec.toNat_add, hone, Nat.mod_eq_of_lt hl]
    have hnew : (0 - (wLower + 1)).toNat = 2 ^ 32 - (wLower.toNat + 1) := by
      rw [BitVec.toNat_sub, hwL, show (0 : BitVec 32).toNat = 0 from rfl]
      omega
    have hf : CdfTable.Cut.bisect t.table b.wUpper 0 wLower = ⟨wLower, 0, -1⟩ := by
      rw [CdfTable.Cut.bisect, if_neg (Nat.lt_irrefl 0), if_pos t.table.size_pos, hu]
      rfl
    rw [hf]
    have ht : takeSymbol b ⟨wLower, 0, -1⟩ = renormalizeDec 4
        { b with wUpper := 0 - (wLower + 1), streamval := 0 - (wLower + 1) } := by
      rw [takeSymbol, hs]
    obtain ⟨b', hb', hwide⟩ := renormalizeDec_spec (k := 3)
      (b := { b with wUpper := 0 - (wLower + 1), streamval := 0 - (wLower + 1) })
      (by dsimp only; omega) hb.index
    have hst := renormalizeDec_streamval_pos (j := 0) (k := 3) rfl
      (show 0 < (0 - (wLower + 1)).toNat by omega) (Nat.one_mul _).symm
      (Nat.one_mul _).le (by dsimp only; omega) hb'
    refine ⟨_, _, b', by rw [bind_eq_bind, bind_some, ht, hb']; rfl, ⟨hwide, ?_⟩,
      hi⟩
    intro h
    omega

theorem decBisectLoop_spec (hb : Stale b wLower) (tables : List BisectTable) :
    ∃ b' data, decBisectLoop b wLower (tables.map fun t => (t.table.entries, t.table.cdfSize)) =
        some (.ok b', data) ∧ Wide b' ∧
      (List.Forall₂ InAlphabet data (tables.map BisectTable.table) ↔
        b.StaysInside wLower tables) := by
  induction tables generalizing b wLower with
  | nil => exact ⟨b, [], rfl, hb.toWide, iff_of_true .nil trivial⟩
  | cons t tables ih =>
    obtain ⟨wLower₁, symbol, b₁, hb₁, hs₁, hsym⟩ := decBisect_spec hb t
    obtain ⟨b₂, data, hb₂, hw₂, hd⟩ := ih hs₁
    have hz := Bitstr.wUpper_ne_zero hs₁.width
    refine ⟨b₂, symbol :: data, ?_, hw₂, ?_⟩
    · rw [List.map_cons, decBisectLoop, hb₁]
      simp only [bind_eq_bind, bind_some, if_neg hz, hb₂, Option.pure_def]
    · rw [List.map_cons, List.forall₂_cons, hsym, hd, Bitstr.StaysInside]
      constructor
      · rintro ⟨hi, hr⟩
        refine ⟨hi, fun wLower' symbol' b' hb' => ?_⟩
        cases hb₁.symm.trans hb'
        exact hr
      · rintro ⟨hi, hr⟩
        exact ⟨hi, hr wLower₁ symbol b₁ hb₁⟩

end Passes

structure Ready (b : Bitstr (ℕ → BitVec 8)) : Prop where
  width : 2 ^ 24 ≤ b.wUpper.toNat
  index : b.streamIndex = 0 ∨ 3 ≤ b.streamIndex

variable {b : Bitstr (ℕ → BitVec 8)}

theorem ready_reset (stream : ℕ → BitVec 8) : Ready (resetBitstream stream) :=
  ⟨(by decide : 2 ^ 24 ≤ (0xFFFFFFFF : BitVec 32).toNat), .inl rfl⟩

theorem Ready.readFirstWord (h : Ready b) : Wide (readFirstWord b) := by
  rw [Isac.readFirstWord]
  split
  case isTrue => exact ⟨h.width, le_rfl⟩
  case isFalse hz => exact ⟨h.width, h.index.resolve_left hz⟩

theorem Wide.streamLength_nonneg (h : Wide b) : 0 ≤ streamLength b := by
  have hindex := h.index
  rw [streamLength]
  split <;> omega

theorem Ready.decodeCall_spec (h : Ready b) (call : DecCall) :
    ∃ b' r, decodeCall b call = some (b', r) ∧ Ready b' ∧ (call.Sound r ↔ call.Inside b) := by
  have hz := Bitstr.wUpper_ne_zero h.width
  cases call with
  | oneStep tables =>
    obtain ⟨final, data, hl, hf⟩ := decOneStepLoop_spec h.readFirstWord tables
    refine ⟨_, _, by rw [decodeCall, decHistOneStepMulti, if_neg hz, hl, map_some], ?_,
      ?_⟩
    · rcases hf with rfl | ⟨b', rfl, hw, -⟩
      · exact h
      · exact ⟨hw.width, .inr hw.index⟩
    · refine iff_of_true ?_ trivial
      rcases hf with rfl | ⟨b', rfl, -, hd⟩
      · exact .inl (by decide : (-3 : ℤ) < 0)
      · exact .inr hd
  | bisect tables =>
    have hs : Stale (Isac.readFirstWord b) 0 := ⟨h.readFirstWord, fun _ => by decide⟩
    obtain ⟨b', data, hl, hw, hd⟩ := decBisectLoop_spec hs tables
    refine ⟨b', ⟨streamLength b', data⟩, ?_, ⟨hw.width, .inr hw.index⟩, ?_⟩
    · rw [decodeCall, decHistBisectMulti, if_neg hz, hl, map_some, finishCall]
    · rw [DecCall.Inside, ← hd, DecCall.Sound]
      exact or_iff_right (Int.not_lt.mpr hw.streamLength_nonneg)

theorem exists_runPartial_decodeCall (stream : ℕ → BitVec 8) (calls : List DecCall) :
    ∃ b results, runPartial decodeCall (resetBitstream stream) calls = some (b, results) ∧
      Ready b := by
  have hc : ∀ c ∈ calls, True := fun _ _ => trivial
  refine runPartial_history (fun _ _ b => Ready b) (ready_reset stream) ?_ hc
  intro _ _ b call hb _
  obtain ⟨b', r, hcall, hr, -⟩ := hb.decodeCall_spec call
  exact ⟨b', r, hcall, hr⟩

/-- Every call of every run on any stream ends, and it is sound exactly if no bisection of it is
outside of the range. -/
theorem decodeCall_sound_iff (stream : ℕ → BitVec 8) (calls : List DecCall) :
    (∃ b results, runPartial decodeCall (resetBitstream stream) calls = some (b, results)) ∧
      ∀ pre call post, calls = pre ++ call :: post →
        ∃ b results, runPartial decodeCall (resetBitstream stream) pre = some (b, results) ∧
          ∃ b' r, decodeCall b call = some (b', r) ∧ (call.Sound r ↔ call.Inside b) := by
  obtain ⟨b, results, hrun, -⟩ := exists_runPartial_decodeCall stream calls
  refine ⟨⟨b, results, hrun⟩, fun pre call post _ => ?_⟩
  obtain ⟨c, results', hpre, hr⟩ := exists_runPartial_decodeCall stream pre
  obtain ⟨c', r, hc, -, hs⟩ := hr.decodeCall_spec call
  exact ⟨c, results', hpre, c', r, hc, hs⟩

def threeEntries : BisectTable where
  table := ⟨[0, 30000, 65535], rfl, rfl, by decide⟩
  bisectable := ⟨2, by decide, rfl⟩

theorem bisect_zeros_not_sound :
    ∃ b r, decodeCall (resetBitstream fun _ => 0) (.bisect [threeEntries]) = some (b, r) ∧
      r = ⟨1, [-1]⟩ ∧ ¬ DecCall.Sound (.bisect [threeEntries]) r := by
  refine ⟨_, _, rfl, by decide, ?_⟩
  rintro (hneg | hd)
  · exact absurd hneg (by decide)
  · obtain ⟨hs, -⟩ := List.forall₂_cons.mp hd
    exact absurd hs.1 (by decide)

end WebRtcAudio.Isac
