import Mathlib.Data.List.Forall2

/-! Loops whose body may have no result. The rules show that a loop has one, and what it is. -/
namespace WebRtcAudio.Core

open List

variable {α β γ σ : Type*} {as l : List α} {R : α → β → Prop} {bs : List β}

/-- If the body has a result for every element, so does the loop. What corresponds to the elements
then corresponds to the results. -/
theorem exists_mapM_of_forall₂ {Q : α → γ → Prop} {f : β → Option γ}
    (h : ∀ a b, R a b → ∃ c, f b = some c ∧ Q a c) (hR : Forall₂ R as bs) :
    ∃ cs, bs.mapM f = some cs ∧ Forall₂ Q as cs := by
  induction hR with
  | nil => exact ⟨[], rfl, .nil⟩
  | cons hab _ ih =>
    obtain ⟨c, hc, hQ⟩ := h _ _ hab
    obtain ⟨cs, hcs, hQs⟩ := ih
    exact ⟨c :: cs, by simp [mapM_cons, hc, hcs], .cons hQ hQs⟩

theorem mapM_eq_some_map {f : α → Option β} {g : α → β} (h : ∀ a ∈ l, f a = some (g a)) :
    l.mapM f = some (l.map g) := by
  induction l with
  | nil => rfl
  | cons a l ih =>
    rw [mapM_cons, h a mem_cons_self, ih fun b hb => h b (mem_cons_of_mem a hb)]
    rfl

theorem exists_mapM_forall₂ {f : α → Option β} {P : α → β → Prop}
    (h : ∀ a ∈ l, ∃ b, f a = some b ∧ P a b) : ∃ bs, l.mapM f = some bs ∧ Forall₂ P l bs := by
  apply exists_mapM_of_forall₂ (R := fun a b => a = b ∧ a ∈ l)
  · rintro a _ ⟨rfl, ha⟩
    exact h a ha
  · exact List.forall₂_same.mpr fun a ha => ⟨rfl, ha⟩

theorem forall₂_zip (h : Forall₂ R as bs) :
    Forall₂ (fun a p => p.1 = a ∧ R a p.2) as (as.zip bs) := by
  induction h with
  | nil => exact .nil
  | cons hab _ ih => exact .cons ⟨rfl, hab⟩ ih

section
variable {f : σ → α → Option σ} {l : List α} {s : σ} (Inv : σ → Prop)

theorem exists_foldlM_invariant₂ {g : σ → α → Option σ}
    (h : ∀ s, ∀ a ∈ l, Inv s → ∃ t, f s a = some t ∧ g s a = some t ∧ Inv t) (hs : Inv s) :
    ∃ t, l.foldlM f s = some t ∧ l.foldlM g s = some t ∧ Inv t := by
  induction l generalizing s with
  | nil => exact ⟨s, rfl, rfl, hs⟩
  | cons a l ih =>
    obtain ⟨t, hf, hg, hinv⟩ := h s a mem_cons_self hs
    obtain ⟨u, huf, hug, hinv'⟩ := ih (fun s' a' ha' => h s' a' (mem_cons_of_mem a ha')) hinv
    exact ⟨u, by simp [foldlM_cons, hf, huf], by simp [foldlM_cons, hg, hug], hinv'⟩

theorem exists_foldlM_invariant (h : ∀ s, ∀ a ∈ l, Inv s → ∃ t, f s a = some t ∧ Inv t)
    (hs : Inv s) :
    ∃ t, l.foldlM f s = some t ∧ Inv t := by
  obtain ⟨t, ht, -, hinv⟩ := exists_foldlM_invariant₂ (f := f) (g := f) Inv
    (fun s a ha hs => (h s a ha hs).imp fun _ ⟨ht, hinv⟩ => ⟨ht, ht, hinv⟩) hs
  exact ⟨t, ht, hinv⟩

end

section
variable {R : α → β → Prop} {as : List α} {bs : List β} (h : Forall₂ R as bs)
include h

theorem forall₂_exists_right {i : ℕ} {a : α} (ha : as[i]? = some a) :
    ∃ b, bs[i]? = some b ∧ R a b := by
  induction h generalizing i with
  | nil => simp at ha
  | cons hab _ ih =>
    cases i with
    | zero =>
      cases ha
      exact ⟨_, rfl, hab⟩
    | succ i => exact ih ha

theorem forall₂_exists_left {i : ℕ} {b : β} (hb : bs[i]? = some b) : ∃ a, as[i]? = some a ∧ R a b :=
  forall₂_exists_right h.flip hb

theorem forall₂_exists_getLast? (hne : as ≠ []) : ∃ a b, bs.getLast? = some b ∧ R a b := by
  have hlen := h.length_eq
  have hpos : 0 < as.length := List.length_pos_iff.mpr hne
  obtain ⟨b, hb⟩ : ∃ b, bs.getLast? = some b :=
    ⟨_, List.getLast?_eq_some_getLast (ne_nil_of_length_pos (hlen ▸ hpos))⟩
  rw [List.getLast?_eq_getElem?] at hb
  obtain ⟨a, -, hR⟩ := forall₂_exists_left h hb
  exact ⟨a, b, by rwa [List.getLast?_eq_getElem?], hR⟩

end

end WebRtcAudio.Core
