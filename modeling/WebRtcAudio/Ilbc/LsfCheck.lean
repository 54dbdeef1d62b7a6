import WebRtcAudio.Core.MachineInt

/-! `WebRtcIlbcfix_LsfCheck`. A vector is a list; no pair of the loop crosses two vectors. -/
namespace WebRtcAudio.Ilbc

open WebRtcAudio.Core List

def eps : ℤ := 319

def eps2 : ℤ := 160

def maxlsf : ℤ := 25723

def minlsf : ℤ := 82

def separate (a b : ℤ) : ℤ × ℤ × Bool :=
  if b - a < eps then
    if b < a then (toInt16 (toInt16 (a + eps2) - eps2), toInt16 (a + eps2), true)
    else (toInt16 (a - eps2), toInt16 (b + eps2), true)
  else (a, b, false)

def limit (a : ℤ) : ℤ × Bool :=
  if a < minlsf then (minlsf, true) else if maxlsf < a then (maxlsf, true) else (a, false)

/-- The loop over the coefficients from the one with the value `a`, which the iteration before may
have changed. -/
def separateFrom (a : ℤ) : List ℤ → List ℤ × Bool
  | [] => ([a], false)
  | b :: rest =>
    let s := separate a b
    let first := limit s.1
    let r := separateFrom s.2.1 rest
    (first.1 :: r.1, s.2.2 || first.2 || r.2)

def lsfPass : List ℤ → List ℤ × Bool
  | [] => ([], false)
  | a :: rest => separateFrom a rest

def lsfCheck (lsf : List (List ℤ)) : List (List ℤ) × Bool :=
  let once := lsf.map fun v => lsfPass v
  let twice := once.map fun r => lsfPass r.1
  (twice.map (·.1), once.any (·.2) || twice.any (·.2))

theorem limit_eq (a : ℤ) : (limit a).1 = max minlsf (min a maxlsf) := by
  unfold limit minlsf maxlsf
  split_ifs <;> dsimp only <;> omega

theorem length_separateFrom (a : ℤ) (l : List ℤ) : (separateFrom a l).1.length = l.length + 1 := by
  induction l generalizing a with
  | nil => rfl
  | cons b l ih => simp [separateFrom, ih]

/-- The first pass limits every coefficient but the last. -/
theorem limited_separateFrom (a : ℤ) (l : List ℤ) :
    ∀ x ∈ (separateFrom a l).1.dropLast, minlsf ≤ x ∧ x ≤ maxlsf := by
  induction l generalizing a with
  | nil => simp [separateFrom]
  | cons b l ih =>
    have hne : (separateFrom (separate a b).2.1 l).1 ≠ [] := by
      rw [← length_pos_iff, length_separateFrom]
      omega
    rw [separateFrom, dropLast_cons_of_ne_nil hne, forall_mem_cons, limit_eq]
    refine ⟨?_, ih _⟩
    unfold minlsf maxlsf
    omega

/-- Between the limits nothing wraps: the second coefficient ends up above the first one before,
which did not grow and fell by at most 160. -/
theorem separate_spec {a b : ℤ} (ha : minlsf ≤ a) (hmax : a ≤ 32000) :
    a - 160 ≤ (separate a b).1 ∧ (separate a b).1 ≤ a ∧ a + 160 ≤ (separate a b).2.1 ∧
      (separate a b).2.1 ≤ max (a + 500) b := by
  unfold minlsf at ha
  unfold separate eps eps2
  split_ifs with hclose hless
  · rw [toInt16_eq_self (x := a + 160) (by omega), toInt16_eq_self (by omega)]
    dsimp only
    omega
  · rw [toInt16_eq_self (by omega), toInt16_eq_self (by omega)]
    dsimp only
    omega
  · dsimp only
    omega

theorem limit_le_limit {a b : ℤ} (h : a ≤ b) : (limit a).1 ≤ (limit b).1 := by
  rw [limit_eq, limit_eq]
  omega

/-- The second pass, from coefficients that the first one has limited. -/
theorem separateFrom_spec {a : ℤ} {l : List ℤ} (ha : minlsf ≤ a)
    (hmax : l ≠ [] → a + 500 * l.length ≤ 32000) (hlength : maxlsf + 500 * l.length ≤ 32000)
    (hl : ∀ x ∈ l.dropLast, minlsf ≤ x ∧ x ≤ maxlsf) :
    ∃ front last, (separateFrom a l).1 = front ++ [last] ∧ front.length = l.length ∧
      front.Pairwise (· ≤ ·) ∧
      (∀ x ∈ front, (limit (a - 160)).1 ≤ x ∧ x ≤ maxlsf ∧ x < last) ∧ a ≤ last := by
  induction l generalizing a with
  | nil => exact ⟨[], a, rfl, rfl, .nil, by simp, le_rfl⟩
  | cons b l ih =>
    have hmax := hmax (cons_ne_nil b l)
    rw [length_cons] at hmax hlength
    push_cast at hmax hlength
    obtain ⟨hlow, hle, hnext, hn⟩ := separate_spec (b := b) ha (by omega)
    have hr : l ≠ [] → b ≤ maxlsf ∧ ∀ x ∈ l.dropLast, minlsf ≤ x ∧ x ≤ maxlsf := by
      intro hne
      rw [dropLast_cons_of_ne_nil hne, forall_mem_cons] at hl
      exact ⟨hl.1.2, hl.2⟩
    obtain ⟨front, last, heq, hlen, hp, hf, hlast⟩ := ih (a := (separate a b).2.1)
      (by omega) (fun hne => by have := (hr hne).1; omega) (by omega) (by
        rcases eq_or_ne l [] with rfl | hne
        · simp
        · exact (hr hne).2)
    have hfirst : (limit (separate a b).1).1 ≤ (limit ((separate a b).2.1 - 160)).1 :=
      limit_le_limit (by omega)
    refine ⟨(limit (separate a b).1).1 :: front, last,
      by rw [separateFrom, heq]; rfl, by simp [hlen],
      List.pairwise_cons.mpr ⟨fun x hx => hfirst.trans (hf x hx).1, hp⟩, ?_, by omega⟩
    rw [forall_mem_cons]
    refine ⟨⟨limit_le_limit hlow, ?_, ?_⟩, fun x hx => ?_⟩
    · rw [limit_eq]
      unfold minlsf maxlsf
      omega
    · rw [limit_eq]
      omega
    · obtain ⟨hx, hxmax, hxlast⟩ := hf x hx
      exact ⟨(limit_le_limit (by omega)).trans hx, hxmax, hxlast⟩

/-- After the two passes the coefficients of a vector do not decrease, and all but the last one are
within the limits; the last one is above the others. -/
theorem lsfCheck_spec {lsf : List (List ℤ)} (h : ∀ v ∈ lsf, v.length = 10) :
    ∀ v ∈ (lsfCheck lsf).1, ∃ front last, v = front ++ [last] ∧ front.length = 9 ∧
      front.Pairwise (· ≤ ·) ∧ ∀ x ∈ front, minlsf ≤ x ∧ x ≤ maxlsf ∧ x < last := by
  intro v hv
  simp only [lsfCheck, List.map_map, List.mem_map, Function.comp] at hv
  obtain ⟨w, hw, rfl⟩ := hv
  obtain ⟨a, l, rfl⟩ := exists_cons_of_length_eq_add_one (h w hw)
  have hl : l.length = 9 := Nat.succ.inj (h _ hw)
  have hlen := length_separateFrom a l
  have hlimited := limited_separateFrom a l
  rw [lsfPass]
  obtain ⟨b, m, heq⟩ := exists_cons_of_length_eq_add_one hlen
  rw [heq] at hlen hlimited ⊢
  have hm : m.length = 9 := by rw [← hl]; exact Nat.succ.inj hlen
  rw [dropLast_cons_of_ne_nil (by rintro rfl; cases hm), forall_mem_cons] at hlimited
  obtain ⟨⟨hb, hbmax⟩, hlimited⟩ := hlimited
  unfold maxlsf at hbmax
  obtain ⟨front, last, hout, hfl, hp, hf, -⟩ := separateFrom_spec hb
    (fun _ => by rw [hm]; omega) (by rw [hm]; decide) hlimited
  refine ⟨front, last, hout, hfl.trans hm, hp, fun x hx => ⟨?_, (hf x hx).2⟩⟩
  exact le_trans (by rw [limit_eq]; omega) (hf x hx).1

def receivedLsf : List ℤ := [1000, 900, 1100, 1400, 2500, 6000, 9000, 12000, 15000, 30000]

theorem lsfCheck_spec_receivedLsf : (∀ v ∈ [receivedLsf], v.length = 10) ∧
      ∀ v ∈ (lsfCheck [receivedLsf]).1, ∃ front last, v = front ++ [last] ∧ front.length = 9 ∧
        front.Pairwise (· ≤ ·) ∧ ∀ x ∈ front, minlsf ≤ x ∧ x ≤ maxlsf ∧ x < last := by
  have h : ∀ v ∈ [receivedLsf], v.length = 10 := by decide
  exact ⟨h, lsfCheck_spec h⟩

theorem lsfCheck_unstable : lsfCheck [receivedLsf] =
        ([[840, 1320, 1320, 1720, 2500, 6000, 9000, 12000, 15000, 30000]], true) ∧
      ¬ [840, 1320, 1320, 1720, 2500, 6000, 9000, 12000, 15000, (30000 : ℤ)].Pairwise (· < ·) ∧
      ¬ 30000 ≤ maxlsf := by
  decide

end WebRtcAudio.Ilbc
