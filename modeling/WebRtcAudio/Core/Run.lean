import Mathlib.Data.List.Basic
import Mathlib.Data.List.Induction

/-! Runs of a deterministic component: a step takes a state and a call to a state and a result. -/
namespace WebRtcAudio.Core

open List Option

variable {σ ι ο : Type*}

def runState (step : σ → ι → σ × ο) : σ → List ι → σ
  | s, [] => s
  | s, c :: cs => runState step (step s c).1 cs

def runResults (step : σ → ι → σ × ο) : σ → List ι → List ο
  | _, [] => []
  | s, c :: cs => (step s c).2 :: runResults step (step s c).1 cs

variable (step : σ → ι → σ × ο)

@[simp] theorem runState_nil (s : σ) : runState step s [] = s := rfl

@[simp] theorem runState_cons (s : σ) (c : ι) (cs : List ι) :
    runState step s (c :: cs) = runState step (step s c).1 cs := rfl

@[simp] theorem runResults_nil (s : σ) : runResults step s [] = [] := rfl

@[simp] theorem runResults_cons (s : σ) (c : ι) (cs : List ι) :
    runResults step s (c :: cs) = (step s c).2 :: runResults step (step s c).1 cs := rfl

theorem runState_append (s : σ) (cs ds : List ι) :
    runState step s (cs ++ ds) = runState step (runState step s cs) ds := by
  induction cs generalizing s with
  | nil => rfl
  | cons c cs ih => exact ih (step s c).1

theorem runState_comp {κ : Type*} (f : κ → ι) (s : σ) (cs : List κ) :
    runState (fun s c => step s (f c)) s cs = runState step s (cs.map f) := by
  induction cs generalizing s with
  | nil => rfl
  | cons c cs ih => exact ih (step s (f c)).1

theorem runResults_comp {κ : Type*} (f : κ → ι) (s : σ) (cs : List κ) :
    runResults (fun s c => step s (f c)) s cs = runResults step s (cs.map f) := by
  induction cs generalizing s with
  | nil => rfl
  | cons c cs ih => exact congrArg ((step s (f c)).2 :: ·) (ih (step s (f c)).1)

variable {Q : List ι → ι → Prop}

theorem forall_split_nil : (∀ pre c post, ([] : List ι) = pre ++ c :: post → Q pre c) ↔ True := by
  simp

variable {d c : ι} {cs : List ι}

theorem forall_split_cons : (∀ pre c post, d :: cs = pre ++ c :: post → Q pre c) ↔
      Q [] d ∧ ∀ pre c post, cs = pre ++ c :: post → Q (d :: pre) c := by
  constructor
  · exact fun h => ⟨h [] d cs rfl, fun pre c post heq => h (d :: pre) c post (by rw [heq]; rfl)⟩
  · rintro ⟨hh, ht⟩ (_ | ⟨e, pre⟩) c post heq
    · obtain ⟨rfl, -⟩ := cons.inj heq
      exact hh
    · obtain ⟨rfl, htl⟩ := cons.inj heq
      exact ht pre c post htl

theorem forall_split_concat : (∀ pre c post, cs ++ [d] = pre ++ c :: post → Q pre c) ↔
      (∀ pre c post, cs = pre ++ c :: post → Q pre c) ∧ Q cs d := by
  constructor
  · exact fun h => ⟨fun pre c post heq => h pre c (post ++ [d]) (by simp [heq]), h cs d [] rfl⟩
  · rintro ⟨hf, hl⟩ pre c post heq
    rcases eq_nil_or_concat' post with rfl | ⟨post, e, rfl⟩
    · obtain ⟨rfl, hd⟩ := append_inj' heq rfl
      obtain ⟨rfl, -⟩ := cons.inj hd
      exact hl
    · rw [← cons_append, ← append_assoc] at heq
      exact hf pre c post (append_inj' heq rfl).1

variable {s t u : σ}

/-- A property of the calls made and the state reached that every further call keeps holds along
every run whose calls meet a condition on the calls before them. -/
theorem runState_history_invariant {Inv : List ι → σ → Prop} {Good : List ι → ι → Prop}
    (hs : Inv [] s) (hstep : ∀ cs t c, Inv cs t → Good cs c → Inv (cs ++ [c]) (step t c).1)
    (cs : List ι) (hg : ∀ pre c post, cs = pre ++ c :: post → Good pre c) :
    Inv cs (runState step s cs) := by
  induction cs using reverseRecOn with
  | nil => exact hs
  | append_singleton cs c ih =>
    obtain ⟨hf, hl⟩ := forall_split_concat.mp hg
    rw [runState_append]
    exact hstep cs (runState step s cs) c (ih hf) hl

variable {Inv P : σ → Prop} {Adm : ι → Prop}

theorem runState_invariant (hstep : ∀ s c, Inv s → Adm c → Inv (step s c).1) (hs : Inv s)
    (hcs : ∀ c ∈ cs, Adm c) : Inv (runState step s cs) := by
  induction cs generalizing s with
  | nil => exact hs
  | cons c cs ih =>
    exact ih (hstep s c hs (hcs c mem_cons_self)) (fun d hd => hcs d (mem_cons_of_mem c hd))

variable {Good : σ → ι → Prop}

/-- When an invariant gives `P`, steps that meet a condition keep it and any other step leads out
of `P`, then `P` holds in every state reached exactly if every step meets the condition. -/
theorem forall_reached_iff (hP : ∀ s, Inv s → P s)
    (hg : ∀ s c, Inv s → Good s c → Inv (step s c).1)
    (hbad : ∀ s c, Inv s → ¬ Good s c → ¬ P (step s c).1) (hs : Inv s) (cs : List ι) :
    (∀ pre, pre <+: cs → P (runState step s pre)) ↔
      ∀ pre c rest, cs = pre ++ c :: rest → Good (runState step s pre) c := by
  induction cs generalizing s with
  | nil => simp [hP s hs]
  | cons c cs ih =>
    rw [forall_split_cons]
    constructor
    · intro h
      have hc : Good s c := by
        by_contra hc
        exact hbad s c hs hc (h [c] ⟨cs, rfl⟩)
      exact ⟨hc, (ih (hg s c hs hc)).mp fun pre hpre =>
        h (c :: pre) (cons_prefix_cons.mpr ⟨rfl, hpre⟩)⟩
    · rintro ⟨hc, ht⟩ (_ | ⟨d, pre⟩) hpre
      · exact hP s hs
      · obtain ⟨rfl, htl⟩ := cons_prefix_cons.mp hpre
        exact (ih (hg s d hs hc)).mpr ht pre htl

/-- When on an invariant a property of a call is the same as a condition that keeps the invariant,
all calls of a run have the property exactly if all meet the condition. -/
theorem forall_calls_iff {P : σ → ι → Prop} (hiff : ∀ s c, Inv s → (P s c ↔ Good s c))
    (hg : ∀ s c, Inv s → Good s c → Inv (step s c).1) (hs : Inv s) (cs : List ι) :
    (∀ pre c post, cs = pre ++ c :: post → P (runState step s pre) c) ↔
      ∀ pre c post, cs = pre ++ c :: post → Good (runState step s pre) c := by
  induction cs generalizing s with
  | nil => simp
  | cons c cs ih =>
    rw [forall_split_cons (Q := fun pre c => P (runState step s pre) c),
      forall_split_cons (Q := fun pre c => Good (runState step s pre) c)]
    refine and_congr_right_iff.mpr ?_ |>.trans (and_congr_left' (hiff s c hs))
    exact fun hc => ih (hg s c hs ((hiff s c hs).mp hc))

def runPartial (step : σ → ι → Option (σ × ο)) : σ → List ι → Option (σ × List ο)
  | s, [] => some (s, [])
  | s, c :: cs => do
    let r ← step s c
    let t ← runPartial step r.1 cs
    return (t.1, r.2 :: t.2)

section Partial

variable {step : σ → ι → Option (σ × ο)}

theorem runPartial_none_of_head (h : step s c = none) (cs : List ι) :
    runPartial step s (c :: cs) = none := by
  simp [runPartial, h]

section
variable {s : σ} {cs : List ι}

theorem runPartial_none_of_tail {r : ο} (h : step s c = some (t, r))
    (ht : runPartial step t cs = none) : runPartial step s (c :: cs) = none := by
  simp [runPartial, h, ht]

variable {rs : List ο}

theorem runPartial_cons_eq_some_iff {r : ο} (h : step s c = some (t, r)) :
    runPartial step s (c :: cs) = some (u, r :: rs) ↔ runPartial step t cs = some (u, rs) := by
  simp only [runPartial, h, bind_eq_bind, bind_some]
  cases runPartial step t cs <;> simp [Prod.ext_iff]

theorem exists_of_runPartial_cons {qs : List ο} (h : runPartial step s (c :: cs) = some (u, qs)) :
    ∃ v r ps, step s c = some (v, r) ∧ runPartial step v cs = some (u, ps) ∧ qs = r :: ps := by
  simp only [runPartial, bind_eq_bind, bind_eq_some_iff] at h
  obtain ⟨⟨v, r⟩, hv, ⟨w, ps⟩, hw, heq⟩ := h
  cases heq
  exact ⟨v, r, ps, hv, hw, rfl⟩

theorem runPartial_concat {r : ο} (hrun : runPartial step s cs = some (t, rs))
    (hc : step t c = some (u, r)) : runPartial step s (cs ++ [c]) = some (u, rs ++ [r]) := by
  induction cs generalizing s rs with
  | nil =>
    cases hrun
    simp [runPartial, hc]
  | cons d cs ih =>
    obtain ⟨v, q, qs, hv, hw, rfl⟩ := exists_of_runPartial_cons hrun
    simp [runPartial, hv, ih hw]

/-- If every admissible call is defined and keeps a property of the calls made, their results and
the state, then every admissible run is defined and has it. -/
theorem runPartial_history (Inv : List ι → List ο → σ → Prop) (hs : Inv [] [] s)
    (hstep : ∀ cs rs t c, Inv cs rs t → Adm c → ∃ u r, step t c = some (u, r) ∧
      Inv (cs ++ [c]) (rs ++ [r]) u)
    (hcs : ∀ c ∈ cs, Adm c) : ∃ t rs, runPartial step s cs = some (t, rs) ∧ Inv cs rs t := by
  induction cs using reverseRecOn with
  | nil => exact ⟨s, [], rfl, hs⟩
  | append_singleton cs c ih =>
    obtain ⟨t, rs, hrun, hinv⟩ := ih fun d hd => hcs d (mem_append_left [c] hd)
    obtain ⟨u, r, hc, hinv'⟩ := hstep cs rs t c hinv
      (hcs c (mem_append_right cs mem_cons_self))
    exact ⟨u, rs ++ [r], runPartial_concat hrun hc, hinv'⟩

theorem runPartial_invariant (hstep : ∀ s c t r, Inv s → Good s c → step s c = some (t, r) → Inv t)
    (hs : Inv s) (hrun : runPartial step s cs = some (t, rs))
    (hg : ∀ pre c post, cs = pre ++ c :: post → ∀ u qs, runPartial step s pre = some (u, qs) →
      Good u c) :
    Inv t := by
  induction cs generalizing s rs with
  | nil =>
    cases hrun
    exact hs
  | cons c cs ih =>
    rw [forall_split_cons (Q := fun pre c => ∀ u qs, runPartial step s pre = some (u, qs) →
      Good u c)] at hg
    obtain ⟨v, r, qs, hv, hw, -⟩ := exists_of_runPartial_cons hrun
    refine ih (hstep s c v r hs (hg.1 s [] rfl) hv) hw fun pre d post hsplit u ps hu => ?_
    exact hg.2 pre d post hsplit u (r :: ps) (by simp [runPartial, hv, hu])

/-- If every step that meets a condition is defined and keeps a property, then a run whose steps
meet it where they are made is defined, and so are its beginnings. -/
theorem exists_runPartial_of_reached
    (hstep : ∀ s c, Inv s → Good s c → ∃ t r, step s c = some (t, r) ∧ Inv t) (hs : Inv s)
    (hg : ∀ pre c post, cs = pre ++ c :: post → ∀ u qs, runPartial step s pre = some (u, qs) →
      Good u c)
    {pre : List ι} (hpre : pre <+: cs) : ∃ t rs, runPartial step s pre = some (t, rs) ∧ Inv t := by
  induction pre using reverseRecOn with
  | nil => exact ⟨s, [], rfl, hs⟩
  | append_singleton pre c ih =>
    obtain ⟨t, rs, hrun, hinv⟩ := ih ((prefix_append pre [c]).trans hpre)
    obtain ⟨post, rfl⟩ := hpre
    obtain ⟨u, r, hu, hinv'⟩ := hstep t c hinv (hg pre c post (by simp) t rs hrun)
    exact ⟨u, rs ++ [r], runPartial_concat hrun hu, hinv'⟩

end

/-- `forall_reached_iff` for a step function that may be undefined: any step that does not meet the
condition is defined and leads out of `P`. -/
theorem forall_reached_partial_iff (hP : ∀ s, Inv s → P s)
    (hg : ∀ s c t r, Inv s → Good s c → step s c = some (t, r) → Inv t)
    (hbad : ∀ s c, Inv s → ¬ Good s c → ∃ t r, step s c = some (t, r) ∧ ¬ P t) (hs : Inv s)
    (cs : List ι) : (∀ pre, pre <+: cs → ∀ t rs, runPartial step s pre = some (t, rs) → P t) ↔
      ∀ pre c post, cs = pre ++ c :: post → ∀ u qs, runPartial step s pre = some (u, qs) →
        Good u c := by
  constructor
  · intro h
    induction cs using reverseRecOn with
    | nil => simp
    | append_singleton cs c ih =>
      have hf := ih fun pre hpre => h pre (hpre.trans (prefix_append cs [c]))
      refine forall_split_concat.mpr ⟨hf, fun u qs hu => ?_⟩
      by_contra hc
      obtain ⟨t, r, ht, hnot⟩ := hbad u c (runPartial_invariant hg hs hu hf) hc
      exact hnot (h _ prefix_rfl t _ (runPartial_concat hu ht))
  · rintro h pre ⟨post, rfl⟩ t rs ht
    refine hP t (runPartial_invariant hg hs ht fun pre' c post' heq => ?_)
    exact h pre' c (post' ++ post) (by simp [heq])

section
variable {τ : Type*} {spec : τ → ι → τ × ο} {R : σ → τ → Prop} {s : σ} {a : τ} {cs : List ι}

/-- Forward simulation: if every admissible call is defined, returns what the specification
returns and keeps the relation, so does every run whose calls are admissible where they are made. -/
theorem runPartial_simulates_of_reached {Adm : τ → ι → Prop}
    (hs : ∀ s a c, R s a → Adm a c → ∃ t, step s c = some (t, (spec a c).2) ∧ R t (spec a c).1)
    (h : R s a) (hcs : ∀ pre c post, cs = pre ++ c :: post → Adm (runState spec a pre) c) :
    ∃ t, runPartial step s cs = some (t, runResults spec a cs) ∧ R t (runState spec a cs) := by
  induction cs generalizing s a with
  | nil => exact ⟨s, rfl, h⟩
  | cons c cs ih =>
    rw [forall_split_cons (Q := fun pre c => Adm (runState spec a pre) c)] at hcs
    obtain ⟨t, ht, hR⟩ := hs s a c h hcs.1
    obtain ⟨u, hu, hR'⟩ := ih hR hcs.2
    exact ⟨u, by simp [runPartial, ht, hu], hR'⟩

theorem runPartial_simulates
    (hs : ∀ s a c, R s a → Adm c → ∃ t, step s c = some (t, (spec a c).2) ∧ R t (spec a c).1)
    (h : R s a) (hcs : ∀ c ∈ cs, Adm c) :
    ∃ t, runPartial step s cs = some (t, runResults spec a cs) ∧ R t (runState spec a cs) := by
  refine runPartial_simulates_of_reached hs h fun pre c post heq => hcs c ?_
  rw [heq]
  exact mem_append_right pre mem_cons_self

end

end Partial

end WebRtcAudio.Core
