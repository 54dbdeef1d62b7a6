import WebRtcAudio.Core.MachineInt
import WebRtcAudio.Core.Run

/-! `WebRtcVad_FindMinimum`: the smallest feature values of a channel with their ages. -/
namespace WebRtcAudio.CommonAudio

open WebRtcAudio.Core List

/-- An entry of `low_value_vector` and `index_vector`, with the number of the call for its channel
that stored it. The code does not keep that number and nothing is computed from it. -/
structure StoredMinimum where
  value : ℤ
  age : ℤ
  call : ℕ
  deriving DecidableEq

structure ChannelMinima where
  smallest : List StoredMinimum
  meanValue : ℤ
  /-- The number of calls so far, which the code does not keep either. -/
  calls : ℕ

def noMinimum (age : ℤ) : StoredMinimum := ⟨10000, age, 0⟩

def initMinima (_channel : Fin 6) : ChannelMinima := ⟨replicate 16 (noMinimum 0), 1600, 0⟩

def ageMinimum (l : List StoredMinimum) (i : ℕ) : List StoredMinimum :=
  match l[i]? with
  | none => l
  | some e =>
    if e.age ≠ 100 then l.set i { e with age := toInt16 (e.age + 1) }
    else l.eraseIdx i ++ [noMinimum 101]

def valueAt (l : List StoredMinimum) (i : ℕ) : ℤ := (l.getD i (noMinimum 0)).value

def minimumPosition (l : List StoredMinimum) (featureValue : ℤ) : Option ℕ :=
  if featureValue < valueAt l 7 then
    if featureValue < valueAt l 3 then
      if featureValue < valueAt l 1 then if featureValue < valueAt l 0 then some 0 else some 1
      else if featureValue < valueAt l 2 then some 2
      else some 3
    else if featureValue < valueAt l 5 then if featureValue < valueAt l 4 then some 4 else some 5
    else if featureValue < valueAt l 6 then some 6
    else some 7
  else if featureValue < valueAt l 15 then
    if featureValue < valueAt l 11 then
      if featureValue < valueAt l 9 then if featureValue < valueAt l 8 then some 8 else some 9
      else if featureValue < valueAt l 10 then some 10
      else some 11
    else if featureValue < valueAt l 13 then
      if featureValue < valueAt l 12 then some 12 else some 13
    else if featureValue < valueAt l 14 then some 14
    else some 15
  else none

def storeMinimum (l : List StoredMinimum) (e : StoredMinimum) : List StoredMinimum :=
  match minimumPosition l e.value with
  | none => l
  | some position => l.take position ++ e :: (l.drop position).dropLast

def kSmoothingDown : ℤ := 6553

def kSmoothingUp : ℤ := 32439

structure MinimumCall where
  channel : Fin 6
  frameCounter : ℤ
  featureValue : ℤ

def ChannelMinima.nextSmallest (s : ChannelMinima) (featureValue : ℤ) : List StoredMinimum :=
  storeMinimum ((range' 0 16).foldl ageMinimum s.smallest) ⟨featureValue, 1, s.calls + 1⟩

def ChannelMinima.findMinimum (s : ChannelMinima) (frameCounter featureValue : ℤ) :
    ChannelMinima × ℤ :=
  let smallest := s.nextSmallest featureValue
  let currentMedian :=
    if 2 < frameCounter then valueAt smallest 2
    else if 0 < frameCounter then valueAt smallest 0
    else 1600
  let alpha :=
    if 0 < frameCounter then if currentMedian < s.meanValue then kSmoothingDown else kSmoothingUp
    else 0
  let tmp32 := (alpha + 1) * s.meanValue + (32767 - alpha) * currentMedian + 16384
  (⟨smallest, toInt16 (tmp32 / 2 ^ 15), s.calls + 1⟩, toInt16 (tmp32 / 2 ^ 15))

def findMinimum (self : Fin 6 → ChannelMinima) (c : MinimumCall) : (Fin 6 → ChannelMinima) × ℤ :=
  let r := (self c.channel).findMinimum c.frameCounter c.featureValue
  (Function.update self c.channel r.1, r.2)

structure Ascending (l : List StoredMinimum) : Prop where
  length_eq : l.length = 16
  pairwise : l.Pairwise fun a b => a.value ≤ b.value
  le : ∀ e ∈ l, e.value ≤ 10000

variable {l : List StoredMinimum} {i n k : ℕ}

theorem pairwise_set (h : l.Pairwise fun a b => a.value ≤ b.value) (hi : i < l.length) (age : ℤ) :
    (l.set i { l[i] with age := age }).Pairwise fun a b => a.value ≤ b.value := by
  rw [pairwise_iff_getElem] at h ⊢
  intro j k hj hk hjk
  have hle := h j k (by simpa using hj) (by simpa using hk) hjk
  grind

theorem Ascending.ageMinimum (h : Ascending l) (i : ℕ) : Ascending (ageMinimum l i) := by
  unfold CommonAudio.ageMinimum
  have hlen := h.length_eq
  cases he : l[i]? with
  | none => exact h
  | some e =>
    obtain ⟨hi, rfl⟩ := List.getElem?_eq_some_iff.mp he
    dsimp only
    split_ifs
    · refine ⟨by rw [length_set, hlen], pairwise_set h.pairwise hi _, fun e he => ?_⟩
      rcases mem_or_eq_of_mem_set he with he | rfl
      · exact h.le e he
      · exact h.le l[i] (getElem_mem hi)
    · have hsub := eraseIdx_sublist l i
      refine ⟨?_, ?_, ?_⟩
      · rw [length_append, length_eraseIdx_of_lt hi, length_singleton]
        omega
      · rw [pairwise_append]
        exact ⟨h.pairwise.sublist hsub, pairwise_singleton _ _,
          fun a ha b hb => mem_singleton.mp hb ▸ h.le a (hsub.subset ha)⟩
      · rw [forall_mem_append]
        exact ⟨fun e he => h.le e (hsub.subset he), by simp [noMinimum]⟩

theorem Ascending.foldl_ageMinimum (h : Ascending l) (is : List ℕ) :
    Ascending (is.foldl CommonAudio.ageMinimum l) := by
  induction is generalizing l with
  | nil => exact h
  | cons i is ih => exact ih (h.ageMinimum i)

theorem minimumPosition_spec {x : ℤ} {p : ℕ} (h : minimumPosition l x = some p) :
    p < 16 ∧ x < valueAt l p ∧ ∀ i, i + 1 = p → valueAt l i ≤ x := by
  unfold minimumPosition at h
  split_ifs at h <;> obtain rfl := Option.some.inj h <;>
    refine ⟨by decide, by assumption, fun i hi => ?_⟩ <;>
    first
    | omega
    | (obtain rfl := Nat.succ.inj hi; omega)

theorem valueAt_eq (hi : i < l.length) : valueAt l i = l[i].value := by
  simp [valueAt, hi]

theorem Ascending.valueAt_le (h : Ascending l) {j : ℕ} (hij : i ≤ j) (hj : j < 16) :
    valueAt l i ≤ valueAt l j := by
  have hlen := h.length_eq
  rcases Nat.lt_or_eq_of_le hij with hij | rfl
  · rw [valueAt_eq (by omega), valueAt_eq (by omega)]
    exact pairwise_iff_getElem.mp h.pairwise i j _ _ hij
  · exact le_rfl

theorem Ascending.storeMinimum (h : Ascending l) {e : StoredMinimum}
    (he : e.value < 10000) : Ascending (storeMinimum l e) := by
  unfold CommonAudio.storeMinimum
  have hlen := h.length_eq
  cases hp : minimumPosition l e.value with
  | none => exact h
  | some p =>
    obtain ⟨hp16, hlt, hbe⟩ := minimumPosition_spec hp
    have ht : ∀ a ∈ l.take p, a.value ≤ e.value := by
      intro a ha
      obtain ⟨i, hi, rfl⟩ := mem_take_iff_getElem.mp ha
      rw [← valueAt_eq]
      exact (h.valueAt_le (by omega) (by omega)).trans (hbe (p - 1) (by omega))
    have hd : ∀ b ∈ (l.drop p).dropLast, e.value ≤ b.value := by
      intro b hb
      obtain ⟨i, hi, rfl⟩ := mem_drop_iff_getElem.mp
        ((dropLast_sublist _).subset hb)
      rw [← valueAt_eq]
      exact hlt.le.trans (h.valueAt_le (by omega) (by omega))
    have hsub : (l.drop p).dropLast.Sublist l :=
      (dropLast_sublist _).trans (drop_sublist p l)
    refine ⟨?_, ?_, ?_⟩
    · simp only [length_append, length_take, length_cons, length_dropLast, length_drop]
      omega
    · rw [pairwise_append, pairwise_cons]
      refine ⟨h.pairwise.sublist (take_sublist p l), ⟨hd, h.pairwise.sublist hsub⟩,
        fun a ha b hb => ?_⟩
      rcases mem_cons.mp hb with rfl | hb
      · exact ht a ha
      · exact (ht a ha).trans (hd b hb)
    · rw [forall_mem_append, forall_mem_cons]
      exact ⟨fun a ha => h.le a (mem_of_mem_take ha), he.le, fun b hb => h.le b (hsub.subset hb)⟩

def Aged (n : ℕ) (e : StoredMinimum) : Prop :=
  e.value < 10000 → e.age + e.call = n + 1 ∧ 1 ≤ e.age ∧ e.age ≤ 100

/-- An entry that is to be removed is not followed by a stored value, which would not get older. -/
def NotSkipped (e f : StoredMinimum) : Prop := e.age = 100 → 10000 ≤ f.value

instance (e f : StoredMinimum) : Decidable (NotSkipped e f) :=
  inferInstanceAs (Decidable (e.age = 100 → 10000 ≤ f.value))

theorem ageMinimum_append (front : List StoredMinimum) (e : StoredMinimum)
    (rest : List StoredMinimum) : ageMinimum (front ++ e :: rest) front.length =
      if e.age ≠ 100 then front ++ { e with age := toInt16 (e.age + 1) } :: rest
      else front ++ (rest ++ [noMinimum 101]) := by
  simp [ageMinimum, eraseIdx_append_of_length_le]

theorem Aged.older {e : StoredMinimum} (h : Aged n e) (hage : e.age ≠ 100) :
    Aged (n + 1) { e with age := toInt16 (e.age + 1) } := by
  intro hv
  obtain ⟨hsum, hpos, hle⟩ := h hv
  dsimp only
  rw [toInt16_eq_self (by omega)]
  omega

theorem aged_noMinimum (n : ℕ) (age : ℤ) : Aged n (noMinimum age) :=
  fun h => absurd h (lt_irrefl _)

/-- The first entries have been passed by the loop, the others not yet. -/
theorem aged_foldl_ageMinimum (front : List StoredMinimum) {todo : List StoredMinimum}
    (hk : todo.length = k) (hfront : ∀ e ∈ front, Aged (n + 1) e) (ht : ∀ e ∈ todo, Aged n e)
    (hc : todo.IsChain NotSkipped) :
    ∀ e ∈ (range' front.length k).foldl ageMinimum (front ++ todo), Aged (n + 1) e := by
  induction k generalizing front todo with
  | zero =>
    obtain rfl := eq_nil_of_length_eq_zero hk
    simpa using hfront
  | succ k ih =>
    have hp : ∀ (e : StoredMinimum) (rest : List StoredMinimum), rest.length = k →
        Aged (n + 1) e → (∀ x ∈ rest, Aged n x) → rest.IsChain NotSkipped →
        ∀ x ∈ (range' (front.length + 1) k).foldl ageMinimum (front ++ e :: rest),
          Aged (n + 1) x := by
      intro e rest hlen he hr hch
      have hih := ih (front ++ [e]) hlen (by simpa [or_imp, forall_and] using ⟨hfront, he⟩)
        hr hch
      simpa using hih
    obtain ⟨e, rest, rfl⟩ := exists_cons_of_length_eq_add_one hk
    obtain ⟨he, hr⟩ := forall_mem_cons.mp ht
    rw [range'_succ, foldl_cons, ageMinimum_append]
    by_cases hage : e.age = 100
    · -- The entry that takes the place of the removed one is passed without getting older.
      rw [if_neg (not_not.mpr hage)]
      cases rest with
      | nil => exact hp _ [] (Nat.succ.inj hk) (aged_noMinimum _ _) (by simp) .nil
      | cons f rest =>
        obtain ⟨hs, hc⟩ := isChain_cons_cons.mp hc
        obtain ⟨-, hr⟩ := forall_mem_cons.mp hr
        refine hp f (rest ++ [noMinimum 101]) (by simpa using hk)
          (fun hf => absurd (hs hage) (by omega)) ?_ ?_
        · rw [forall_mem_append]
          exact ⟨hr, by simp [aged_noMinimum]⟩
        · exact hc.tail.append (.singleton _) (by simp [NotSkipped, noMinimum])
    · rw [if_pos hage]
      exact hp _ rest (by simpa using hk) (he.older hage) hr hc.tail

theorem mem_storeMinimum {e f : StoredMinimum} (h : f ∈ storeMinimum l e) : f = e ∨ f ∈ l := by
  unfold storeMinimum at h
  split at h
  · exact .inr h
  · rcases mem_append.mp h with h | h
    · exact .inr (mem_of_mem_take h)
    · rcases mem_cons.mp h with h | h
      · exact .inl h
      · exact .inr (mem_of_mem_drop ((dropLast_sublist _).subset h))

theorem ascending_nextSmallest {s : ChannelMinima} (h : Ascending s.smallest) {featureValue : ℤ}
    (hlow : featureValue < 10000) : Ascending (s.nextSmallest featureValue) :=
  (h.foldl_ageMinimum _).storeMinimum hlow

theorem aged_nextSmallest {s : ChannelMinima} (hlen : s.smallest.length = 16)
    (h : ∀ e ∈ s.smallest, Aged s.calls e) (hc : s.smallest.IsChain NotSkipped)
    (featureValue : ℤ) : ∀ e ∈ s.nextSmallest featureValue, Aged (s.calls + 1) e := by
  intro e he
  rcases mem_storeMinimum he with rfl | he
  · intro _
    dsimp only
    omega
  · have ha := aged_foldl_ageMinimum [] hlen (by simp) h hc
    exact ha e he

theorem smallest_findMinimum (s : ChannelMinima) (frameCounter featureValue : ℤ) :
    (s.findMinimum frameCounter featureValue).1.smallest = s.nextSmallest featureValue := by
  rw [ChannelMinima.findMinimum]

theorem findMinimum_apply (self : Fin 6 → ChannelMinima) (c : MinimumCall) (channel : Fin 6) :
    (findMinimum self c).1 channel = if channel = c.channel then
      ((self c.channel).findMinimum c.frameCounter c.featureValue).1 else self channel := by
  simp [findMinimum, Function.update_apply]

section
variable {calls : List MinimumCall} (hlow : ∀ c ∈ calls, c.featureValue < 10000)
include hlow

theorem ascending_run
    (channel : Fin 6) : Ascending (runState findMinimum initMinima calls channel).smallest := by
  have hs : ∀ (self : Fin 6 → ChannelMinima) (c : MinimumCall),
      (∀ channel, Ascending (self channel).smallest) → c.featureValue < 10000 →
      ∀ channel, Ascending ((findMinimum self c).1 channel).smallest := by
    intro self c h hc channel
    rw [findMinimum_apply]
    split_ifs
    · rw [smallest_findMinimum]
      exact ascending_nextSmallest (h c.channel) hc
    · exact h channel
  have hi : ∀ channel, Ascending (initMinima channel).smallest := fun _ =>
    ⟨rfl, pairwise_replicate_of_refl, by simp [initMinima, noMinimum]⟩
  exact runState_invariant findMinimum hs hi hlow channel

theorem aged_run (hc : ∀ pre c post, calls = pre ++ c :: post →
      (runState findMinimum initMinima pre c.channel).smallest.IsChain NotSkipped)
    (channel : Fin 6) : ∀ e ∈ (runState findMinimum initMinima calls channel).smallest,
      Aged (runState findMinimum initMinima calls channel).calls e := by
  induction calls using reverseRecOn generalizing channel with
  | nil => simp [initMinima, aged_noMinimum]
  | append_singleton calls c ih =>
    obtain ⟨hf, hl⟩ := forall_split_concat.mp hc
    rw [forall_mem_append] at hlow
    rw [runState_append, runState_cons, runState_nil, findMinimum_apply]
    split_ifs
    · rw [smallest_findMinimum]
      exact aged_nextSmallest (ascending_run hlow.1 c.channel).length_eq
        (ih hlow.1 hf c.channel) hl c.featureValue
    · exact ih hlow.1 hf channel

end

theorem calls_run (calls : List MinimumCall) (channel : Fin 6) :
    (runState findMinimum initMinima calls channel).calls = calls.countP (·.channel = channel) := by
  induction calls using reverseRecOn with
  | nil => rfl
  | append_singleton calls c ih =>
    rw [runState_append, runState_cons, runState_nil, findMinimum_apply, countP_append, ← ih]
    split_ifs with hc
    · subst hc
      simp [ChannelMinima.findMinimum]
    · simp [Ne.symm hc]

/-- The values of each channel stay ascending. As long as no removed entry is followed by a stored
value, the age of a value is the number of calls since the one that stored it. -/
theorem findMinimum_ages {calls : List MinimumCall} (hlow : ∀ c ∈ calls, c.featureValue < 10000)
    (channel : Fin 6) : Ascending (runState findMinimum initMinima calls channel).smallest ∧
      ((∀ pre c post, calls = pre ++ c :: post →
          (runState findMinimum initMinima pre c.channel).smallest.IsChain NotSkipped) →
        ∀ e ∈ (runState findMinimum initMinima calls channel).smallest, e.value < 10000 →
          e.age + e.call = calls.countP (·.channel = channel) + 1 ∧ 1 ≤ e.age ∧ e.age ≤ 100) := by
  refine ⟨ascending_run hlow channel, fun hc => ?_⟩
  rw [← calls_run]
  exact aged_run hlow hc channel

def fallingCalls : List MinimumCall :=
  ((range 17).map fun i : ℕ => ⟨0, i, 17 - i⟩) ++ replicate 85 ⟨0, 17, 9999⟩

theorem isChain_fallingCalls : ∀ i < 102,
    (runState findMinimum initMinima (fallingCalls.take i) 0).smallest.IsChain NotSkipped := by
  decide +kernel

/-- The 17th call displaces the first value, 17. From then on 16 is the last one, until the 102nd
call removes it at age 100. -/
theorem getLast?_fallingCalls : ∀ k < 86,
    (runState findMinimum initMinima (fallingCalls.take (17 + k)) 0).smallest.getLast? =
      some (if k < 85 then ⟨16, 16 + k, 2⟩ else ⟨9999, 1, 102⟩) := by
  decide +kernel

theorem findMinimum_ages_fallingCalls : (∀ c ∈ fallingCalls, c.featureValue < 10000) ∧
      (runState findMinimum initMinima (fallingCalls.take 101) 0).smallest.getLast? =
        some ⟨16, 100, 2⟩ ∧
      (runState findMinimum initMinima fallingCalls 0).smallest.getLast? = some ⟨9999, 1, 102⟩ ∧
      ∀ e ∈ (runState findMinimum initMinima fallingCalls 0).smallest, e.value < 10000 →
        e.age + e.call = 103 ∧ 1 ≤ e.age ∧ e.age ≤ 100 := by
  have hlow : ∀ c ∈ fallingCalls, c.featureValue < 10000 := by decide
  refine ⟨hlow, getLast?_fallingCalls 84 (by decide), getLast?_fallingCalls 85 (by decide),
    (findMinimum_ages hlow 0).2 fun pre c post h => ?_⟩
  have hc : ∀ c ∈ fallingCalls, c.channel = 0 := by decide
  have hlen : 102 = pre.length + (post.length + 1) := by
    simpa [fallingCalls] using congrArg length h
  rw [hc c (by simp [h])]
  simpa [h] using isChain_fallingCalls pre.length (by omega)

def skippedCalls (k : ℕ) : List MinimumCall :=
  ⟨0, 1, 1⟩ :: ⟨0, 1, 2⟩ :: replicate k ⟨0, 1, 9999⟩

/-- The 101st call removes the value 1 and moves 2 to its place, without making it older. -/
theorem mem_skippedCalls : ∀ k < 101, ⟨2, if k < 99 then k + 1 else k, 2⟩ ∈
    (runState findMinimum initMinima (skippedCalls k) 0).smallest := by
  decide +kernel

theorem findMinimum_skips_age :
    (∀ c ∈ skippedCalls 100, c.featureValue < 10000) ∧ (skippedCalls 100).length = 102 ∧
      ⟨2, 100, 2⟩ ∈ (runState findMinimum initMinima (skippedCalls 100) 0).smallest :=
  ⟨by decide, by decide, mem_skippedCalls 100 (by decide)⟩

end WebRtcAudio.CommonAudio
