import WebRtcAudio.Isac.CdfSearch

/-! A symbol as a part of the range, and what the two searches find in it. -/
namespace WebRtcAudio.Isac

open WebRtcAudio.Core

theorem toNat_interval {wUpper : BitVec 32} {r : CodeRange} {cdfLo cdfHi : BitVec 16}
    (hlt : cdfLo < cdfHi) (hw : wUpper.toNat = r.width) (hr : r.Valid) :
    (scale wUpper cdfLo + 1).toNat = scaled r.width cdfLo.toNat + 1 ∧
      (scale wUpper cdfHi - (scale wUpper cdfLo + 1)).toNat =
        scaled r.width cdfHi.toNat - (scaled r.width cdfLo.toNat + 1) := by
  have hgap := scaled_add_le hr.le_width (BitVec.lt_def.mp hlt)
  have hone : (1 : BitVec 32).toNat = 1 := by decide
  have hlow : (scale wUpper cdfLo).toNat = scaled r.width cdfLo.toNat := by
    rw [← hw]
    exact toNat_scale wUpper cdfLo
  have hu : (scale wUpper cdfHi).toNat = scaled r.width cdfHi.toNat := by
    rw [← hw]
    exact toNat_scale wUpper cdfHi
  have hs : (scale wUpper cdfLo + 1).toNat = scaled r.width cdfLo.toNat + 1 := by
    rw [BitVec.toNat_add, hlow, hone, Nat.mod_eq_of_lt (by omega)]
  refine ⟨hs, ?_⟩
  rw [BitVec.toNat_sub, hs, hu]
  omega

structure CodedSymbol where
  table : CdfTable
  symbol : ℕ
  inside : symbol + 1 < table.size

namespace CodedSymbol

def part (c : CodedSymbol) : ℕ × ℕ :=
  ((c.table.entry c.symbol).toNat, (c.table.entry (c.symbol + 1)).toNat)

theorem part_valid (c : CodedSymbol) : c.part.1 < c.part.2 ∧ c.part.2 < 2 ^ 16 :=
  ⟨BitVec.lt_def.mp (CdfTable.entry_lt (Nat.lt_succ_self c.symbol) c.inside), BitVec.isLt _⟩

theorem parts_valid (cs : List CodedSymbol) :
    ∀ part ∈ cs.map CodedSymbol.part, part.1 < part.2 ∧ part.2 < 2 ^ 16 := by
  intro part hp
  obtain ⟨c, -, rfl⟩ := List.mem_map.mp hp
  exact c.part_valid

def data (c : CodedSymbol) : ℤ × List (BitVec 16) := (c.symbol, c.table.entries)

variable {wUpper streamval : BitVec 32} {r : CodeRange} {code : ℕ → BitVec 8}

def found (c : CodedSymbol) (wUpper : BitVec 32) : Found :=
  ⟨scale wUpper (c.table.entry c.symbol), scale wUpper (c.table.entry (c.symbol + 1)), c.symbol⟩

theorem toNat_part (c : CodedSymbol) (hw : wUpper.toNat = r.width) (hr : r.Valid) :
    ((c.found wUpper).wLower + 1).toNat = scaled r.width c.part.1 + 1 ∧
      ((c.found wUpper).wUpper - ((c.found wUpper).wLower + 1)).toNat =
        scaled r.width c.part.2 - (scaled r.width c.part.1 + 1) :=
  toNat_interval (BitVec.lt_def.mpr c.part_valid.1) hw hr

theorem cut (c : CodedSymbol) (hw : wUpper.toNat = r.width)
    (hval : streamval.toNat = r.offset code) (hlo : scaled r.width c.part.1 < r.offset code)
    (hhi : r.offset code ≤ scaled r.width c.part.2) :
    c.table.Cut wUpper streamval (c.symbol + 1) := by
  have hinside := c.inside
  refine ⟨hinside.le, fun i hi => ?_⟩
  rw [BitVec.lt_def, toNat_scale, hw, hval]
  constructor
  · intro hlt
    by_contra hge
    have hle : (c.table.entry (c.symbol + 1)).toNat ≤ (c.table.entry i).toNat :=
      BitVec.le_def.mp (CdfTable.entry_le (by omega) hi)
    have hm : scaled r.width c.part.2 ≤ scaled r.width (c.table.entry i).toNat :=
      scaled_mono _ hle
    omega
  · intro hlt
    have hle : (c.table.entry i).toNat ≤ (c.table.entry c.symbol).toNat :=
      BitVec.le_def.mp (CdfTable.entry_le (by omega) (by omega))
    have hm : scaled r.width (c.table.entry i).toNat ≤ scaled r.width c.part.1 :=
      scaled_mono _ hle
    omega

theorem searchOneStep_eq (c : CodedSymbol) {initIndex : ℕ} (hi : initIndex < c.table.size)
    (hcut : c.table.Cut wUpper streamval (c.symbol + 1)) :
    searchOneStep wUpper streamval c.table.entries initIndex = some (.ok (c.found wUpper)) := by
  rw [hcut.searchOneStep_eq hi, CdfTable.Cut.oneStep, if_pos ⟨Nat.succ_pos _, c.inside⟩,
    Nat.add_sub_cancel]
  rfl

theorem searchBisect_eq (c : CodedSymbol) (ht : c.table.Bisectable) (wLower : BitVec 32)
    (hcut : c.table.Cut wUpper streamval (c.symbol + 1)) :
    searchBisect wUpper streamval c.table.entries c.table.cdfSize wLower =
      some (c.found wUpper) := by
  rw [hcut.searchBisect_eq ht, CdfTable.Cut.bisect, if_pos (Nat.succ_pos _), if_pos c.inside,
    Nat.add_sub_cancel, Nat.cast_add, Nat.cast_one, Int.add_sub_cancel]
  rfl

end CodedSymbol

end WebRtcAudio.Isac
