import Mathlib.Data.Nat.Bitwise

/-! Straight-line programs that move bits by masks and shifts, read off as where each bit comes
from. -/
namespace WebRtcAudio.Core

open List Function

variable {α β : Type}

structure BitMove (α : Type) where
  source : α
  mask : ℕ
  right : ℕ
  left : ℕ
  result : ℕ

inductive BitStatement (α β : Type)
  | clear (target : β)
  | set (target : β) (move : BitMove α)
  | or (target : β) (move : BitMove α)

namespace BitMove

def value (m : BitMove α) (x : α → ℕ) : ℕ :=
  ((x m.source &&& m.mask) >>> m.right <<< m.left) &&& m.result

def origin (m : BitMove α) (i : ℕ) : List (α × ℕ) :=
  if m.left ≤ i ∧ m.mask.testBit (m.right + (i - m.left)) ∧ m.result.testBit i then
    [(m.source, m.right + (i - m.left))]
  else []

end BitMove

def anyBit (x : α → ℕ) (origins : List (α × ℕ)) : Bool := origins.any fun o => (x o.1).testBit o.2

theorem anyBit_cons (x : α → ℕ) (o : α × ℕ) (p : List (α × ℕ)) :
    anyBit x (o :: p) = ((x o.1).testBit o.2 || anyBit x p) := any_cons

theorem anyBit_append (x : α → ℕ) (o p : List (α × ℕ)) :
    anyBit x (o ++ p) = (anyBit x o || anyBit x p) := any_append

theorem BitMove.testBit_value (m : BitMove α) (x : α → ℕ) (i : ℕ) :
    (m.value x).testBit i = anyBit x (m.origin i) := by
  unfold BitMove.value BitMove.origin anyBit
  rw [Nat.testBit_and, Nat.testBit_shiftLeft, Nat.testBit_shiftRight, Nat.testBit_and]
  split_ifs with h
  · simp [h.1, h.2.1, h.2.2]
  · rw [any_nil, Bool.eq_false_iff]
    intro ht
    simp only [Bool.and_eq_true, decide_eq_true_eq] at ht
    exact h ⟨ht.1.1, ht.1.2.2, ht.2⟩

namespace BitStatement

def target : BitStatement α β → β
  | clear t => t
  | set t _ => t
  | or t _ => t

def effect (x : α → ℕ) (old : ℕ) : BitStatement α β → ℕ
  | clear _ => 0
  | set _ m => m.value x
  | or _ m => old ||| m.value x

def origins (i : ℕ) (old : List (α × ℕ)) : BitStatement α β → List (α × ℕ)
  | clear _ => []
  | set _ m => m.origin i
  | or _ m => old ++ m.origin i

def overwrites : BitStatement α β → Bool
  | or _ _ => false
  | _ => true

def resultMask : BitStatement α β → ℕ
  | clear _ => 0
  | set _ m => m.result
  | or _ m => m.result

theorem testBit_effect (s : BitStatement α β) (x : α → ℕ) (i old : ℕ) (origins : List (α × ℕ))
    (kept : Bool) (h : old.testBit i = (anyBit x origins || kept)) :
    (s.effect x old).testBit i = (anyBit x (s.origins i origins) || (kept && !s.overwrites)) := by
  cases s with
  | clear t => simp [effect, BitStatement.origins, overwrites, anyBit]
  | set t m => simp [effect, BitStatement.origins, overwrites, m.testBit_value]
  | or t m =>
    rw [effect, Nat.testBit_or, h, m.testBit_value, BitStatement.origins, overwrites,
      anyBit_append, Bool.not_false, Bool.and_true, Bool.or_right_comm]

end BitStatement

theorem testBit_foldl_effect (statements : List (BitStatement α β)) (x : α → ℕ) (i old : ℕ)
    (origins : List (α × ℕ)) (kept : Bool) (h : old.testBit i = (anyBit x origins || kept)) :
    (statements.foldl (fun y s => s.effect x y) old).testBit i =
      (anyBit x (statements.foldl (fun o s => s.origins i o) origins) ||
        (kept && statements.all fun s => !s.overwrites)) := by
  induction statements generalizing old origins kept with
  | nil => simp [h]
  | cons s statements ih =>
    rw [foldl_cons, foldl_cons, all_cons,
      ih _ _ _ (s.testBit_effect x i old origins kept h), Bool.and_assoc]

def originsOf (statements : List (BitStatement α β)) (i : ℕ) : List (α × ℕ) :=
  statements.foldl (fun o s => s.origins i o) []

theorem originsOf_eq_nil {statements : List (BitStatement α β)} {n i : ℕ} (hi : n ≤ i)
    (h : statements.all fun s => s.resultMask < 2 ^ n) : originsOf statements i = [] := by
  unfold originsOf
  induction statements with
  | nil => rfl
  | cons s statements ih =>
    rw [all_cons, Bool.and_eq_true, decide_eq_true_eq] at h
    have hm : s.resultMask.testBit i = false :=
      Nat.testBit_lt_two_pow (Nat.lt_of_lt_of_le h.1 (Nat.pow_le_pow_right (by decide) hi))
    have hnil : s.origins i [] = [] := by
      cases s with
      | clear t => rfl
      | set t m => simpa [BitStatement.origins, BitMove.origin, BitStatement.resultMask] using
          fun _ _ => hm
      | or t m => simpa [BitStatement.origins, BitMove.origin, BitStatement.resultMask] using
          fun _ _ => hm
    rw [foldl_cons, hnil, ih h.2]

section Programs
variable [DecidableEq β]

def runBits (program : List (BitStatement α β)) (x : α → ℕ) (old : β → ℕ) : β → ℕ :=
  program.foldl (fun y s => update y s.target (s.effect x (y s.target))) old

def statementsOf (program : List (BitStatement α β)) (t : β) : List (BitStatement α β) :=
  program.filter fun s => s.target = t

theorem runBits_apply (program : List (BitStatement α β)) (x : α → ℕ) (old : β → ℕ) (t : β) :
    runBits program x old t = (statementsOf program t).foldl (fun y s => s.effect x y) (old t) := by
  unfold runBits statementsOf
  induction program generalizing old with
  | nil => rfl
  | cons s program ih =>
    rw [foldl_cons, ih]
    by_cases h : s.target = t
    · rw [filter_cons_of_pos (by simpa using h), foldl_cons, ← h, update_self]
    · rw [filter_cons_of_neg (by simpa using h), update_of_ne (Ne.symm h)]

variable {program : List (BitStatement α β)}

theorem testBit_runBits {t : β} (h : (statementsOf program t).any BitStatement.overwrites)
    (x : α → ℕ) (old : β → ℕ) (i : ℕ) :
    (runBits program x old t).testBit i = anyBit x (originsOf (statementsOf program t) i) := by
  have hall : ((statementsOf program t).all fun s => !s.overwrites) = false := by
    rw [all_eq_not_any_not]
    simpa using h
  rw [runBits_apply, testBit_foldl_effect _ x i (old t) [] ((old t).testBit i) (by simp [anyBit]),
    hall, Bool.and_false, Bool.or_false, originsOf]

def statementTable (program : List (BitStatement α β)) (targets : List β) :
    List (β × List (BitStatement α β)) :=
  targets.map fun t => (t, statementsOf program t)

def lookUp (table : List (β × List (BitStatement α β))) (position : β → ℕ) (t : β) :
    List (BitStatement α β) :=
  match table[position t]? with
  | some (key, statements) => if key = t then statements else []
  | none => []

theorem lookUp_eq {targets : List β} {position : β → ℕ} {t : β}
    (h : (lookUp (statementTable program targets) position t).any BitStatement.overwrites) :
    lookUp (statementTable program targets) position t = statementsOf program t := by
  unfold lookUp statementTable at h ⊢
  rw [List.getElem?_map] at h ⊢
  cases ht : targets[position t]? with
  | none => simp [ht] at h
  | some key =>
    rw [ht] at h
    by_cases hkey : key = t
    · simp [hkey]
    · simp [hkey] at h

theorem anyBit_filter {live : α → ℕ → Bool} {x : α → ℕ}
    (hl : ∀ a i, live a i = false → (x a).testBit i = false) (origins : List (α × ℕ)) :
    anyBit x (origins.filter fun o => live o.1 o.2) = anyBit x origins := by
  induction origins with
  | nil => rfl
  | cons o origins ih =>
    rw [filter_cons, anyBit_cons x o origins]
    split_ifs with h
    · rw [anyBit_cons, ih]
    · rw [ih, hl o.1 o.2 (by simpa using h), Bool.false_or]

theorem anyBit_runBits {find : β → List (BitStatement α β)}
    (hf : ∀ t, (find t).any BitStatement.overwrites → find t = statementsOf program t)
    (x : α → ℕ) (old : β → ℕ) {origins : List (β × ℕ)}
    (h : origins.all fun o => (find o.1).any BitStatement.overwrites) :
    anyBit (runBits program x old) origins =
      anyBit x (origins.flatMap fun o => originsOf (find o.1) o.2) := by
  induction origins with
  | nil => rfl
  | cons o origins ih =>
    rw [all_cons, Bool.and_eq_true] at h
    have ho := hf o.1 h.1
    rw [anyBit_cons, testBit_runBits (ho ▸ h.1), ih h.2, flatMap_cons, anyBit_append, ho]

end Programs

section RoundTrip
variable [DecidableEq α] [DecidableEq β]

def RestoresBit (back : α → List (BitStatement β α)) (there : β → List (BitStatement α β))
    (live : α → ℕ → Bool) (a : α) (i : ℕ) : Prop :=
  ((originsOf (back a) i).all fun o => (there o.1).any BitStatement.overwrites) ∧
    (((originsOf (back a) i).flatMap fun o => originsOf (there o.1) o.2).filter
      fun o => live o.1 o.2) = if live a i then [(a, i)] else []

def RestoresWord (back : α → List (BitStatement β α)) (there : β → List (BitStatement α β))
    (live : α → ℕ → Bool) (n : ℕ) (a : α) : Prop :=
  (back a).any BitStatement.overwrites ∧ ((back a).all fun s => s.resultMask < 2 ^ n) ∧
    ∀ i < n, RestoresBit back there live a i

variable {back : α → List (BitStatement β α)} {there : β → List (BitStatement α β)}
  {live : α → ℕ → Bool} {n : ℕ}

instance (a : α) : DecidablePred (RestoresBit back there live a) :=
  fun _ => inferInstanceAs (Decidable (_ ∧ _))

instance : DecidablePred (RestoresWord back there live n) :=
  fun _ => inferInstanceAs (Decidable (_ ∧ _ ∧ _))

theorem runBits_runBits {programBack : List (BitStatement β α)}
    {programThere : List (BitStatement α β)}
    (hback : ∀ a, (back a).any BitStatement.overwrites → back a = statementsOf programBack a)
    (ht : ∀ b, (there b).any BitStatement.overwrites → there b = statementsOf programThere b)
    {a : α} (h : RestoresWord back there live n a) {x : α → ℕ} (hx : x a < 2 ^ n)
    (hl : ∀ a i, live a i = false → (x a).testBit i = false) (old : β → ℕ) (kept : α → ℕ) :
    runBits programBack (runBits programThere x old) kept a = x a := by
  obtain ⟨hassigned, hm, hb⟩ := h
  have ha := hback a hassigned
  apply Nat.eq_of_testBit_eq
  intro i
  rw [testBit_runBits (ha ▸ hassigned), ← ha]
  by_cases hi : i < n
  · rw [anyBit_runBits ht x old (hb i hi).1, ← anyBit_filter hl, (hb i hi).2]
    by_cases hai : live a i
    · rw [if_pos hai, anyBit_cons]
      exact Bool.or_false _
    · rw [if_neg hai, hl a i (by simpa using hai)]
      rfl
  · rw [originsOf_eq_nil (Nat.le_of_not_lt hi) hm, Nat.testBit_lt_two_pow (Nat.lt_of_lt_of_le hx
        (Nat.pow_le_pow_right (by decide) (Nat.le_of_not_lt hi)))]
    rfl

end RoundTrip

end WebRtcAudio.Core
