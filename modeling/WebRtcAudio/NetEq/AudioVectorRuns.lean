import WebRtcAudio.Core.Run
import WebRtcAudio.NetEq.AudioVectorRefinement

/-! Runs of an `AudioVector` against runs of a list of samples. -/
namespace WebRtcAudio.NetEq.AudioVector

open WebRtcAudio.Core

variable {v : AudioVector} {l : List Int16}

/-- The operations. Another vector is an object of its own, and `copyFrom` is `CopyTo` of another
vector with this one as its target. -/
inductive Call where
  | pushFront (xs : List Int16)
  | pushFrontVector (other : AudioVector)
  | pushBack (xs : List Int16)
  | pushBackVector (other : AudioVector)
  | pushBackSegment (other : AudioVector) (length position : ℕ)
  | popFront (length : ℕ)
  | popBack (length : ℕ)
  | extend (extraLength : ℕ)
  | insertAt (xs : List Int16) (position : ℕ)
  | insertZerosAt (length position : ℕ)
  | overwriteAt (xs : List Int16) (position : ℕ)
  | overwriteAtVector (other : AudioVector) (length position : ℕ)
  | clear
  | copyTo (length position : ℕ)
  | copyToVector (other : AudioVector)
  | copyFrom (other : AudioVector)

def noResult (next : Option AudioVector) : Option (AudioVector × List Int16) :=
  next.map fun v => (v, [])

/-- One operation on the array, with what a new array happens to hold. The result is what `CopyTo`
copies. -/
def step (v : AudioVector) (request : (ℕ → Int16) × Call) : Option (AudioVector × List Int16) :=
  match request with
  | (held, .pushFront xs) => noResult (v.pushFront held xs)
  | (held, .pushFrontVector other) => noResult (v.pushFrontVector held other)
  | (held, .pushBack xs) => noResult (v.pushBack held xs)
  | (held, .pushBackVector other) => noResult (v.pushBackVector held other)
  | (held, .pushBackSegment other length position) =>
    noResult (v.pushBackSegment held other length position)
  | (_, .popFront length) => some (v.popFront length, [])
  | (_, .popBack length) => some (v.popBack length, [])
  | (held, .extend extraLength) => noResult (v.extend held extraLength)
  | (held, .insertAt xs position) => noResult (v.insertAt held xs position)
  | (held, .insertZerosAt length position) => noResult (v.insertZerosAt held length position)
  | (held, .overwriteAt xs position) => noResult (v.overwriteAt held xs position)
  | (held, .overwriteAtVector other length position) =>
    noResult (v.overwriteAtVector held other length position)
  | (_, .clear) => some (v.clear, [])
  | (_, .copyTo length position) => (v.copyTo length position).map fun copied => (v, copied)
  | (held, .copyToVector other) =>
    (v.copyToVector held other).map fun target => (v, target.toList)
  | (held, .copyFrom other) => noResult (other.copyToVector held v)

def listStep (l : List Int16) : Call → List Int16 × List Int16
  | .pushFront xs => (xs ++ l, [])
  | .pushFrontVector other => (other.toList ++ l, [])
  | .pushBack xs => (l ++ xs, [])
  | .pushBackVector other => (l ++ other.toList, [])
  | .pushBackSegment other length position =>
    (l ++ (other.toList.drop position).take length, [])
  | .popFront length => (l.drop length, [])
  | .popBack length => (l.take (l.length - length), [])
  | .extend extraLength => (l ++ List.replicate extraLength 0, [])
  | .insertAt xs position =>
    (l.take (min l.length position) ++ xs ++ l.drop (min l.length position), [])
  | .insertZerosAt length position =>
    (l.take (min l.length position) ++ List.replicate length 0 ++ l.drop (min l.length position),
      [])
  | .overwriteAt xs position => (writeAt l (min l.length position) xs, [])
  | .overwriteAtVector other length position =>
    (writeAt l (min l.length position) (other.toList.take length), [])
  | .clear => ([], [])
  | .copyTo length position => (l, (l.drop position).take length)
  | .copyToVector _ => (l, l)
  | .copyFrom other => (other.toList, [])

def Call.ArgumentsValid : Call → Prop
  | .pushFrontVector other => other.Valid
  | .pushBackVector other => other.Valid
  | .pushBackSegment other length position =>
    other.Valid ∧ position ≤ other.size ∧ length ≤ other.size - position
  | .overwriteAtVector other length _ => other.Valid ∧ length ≤ other.size
  | .copyToVector other => other.Valid
  | .copyFrom other => other.Valid
  | _ => True

/-- A position to copy from is inside of the list, and a list with more zeros has a size that fits
into a `size_t` with one to spare. -/
def Call.FitsList (l : List Int16) : Call → Prop
  | .copyTo _ position => position ≤ l.length
  | .extend extraLength => l.length + extraLength + 1 < 2 ^ 64
  | .insertZerosAt length _ => l.length + length + 1 < 2 ^ 64
  | _ => True

theorem Gives.noResult {next : Option AudioVector} {m : List Int16} (h : Gives next m) :
    ∃ w, AudioVector.noResult next = some (w, []) ∧ w.Holds m := by
  obtain ⟨w, rfl, hw⟩ := h
  exact ⟨w, rfl, hw⟩

theorem step_simulates {held : ℕ → Int16} {c : Call} (h : v.Holds l) (hc : c.ArgumentsValid)
    (hf : c.FitsList l) :
    ∃ w, v.step (held, c) = some (w, (listStep l c).2) ∧ w.Holds (listStep l c).1 := by
  cases c with
  | pushFront xs => exact (h.pushFront_spec held xs).noResult
  | pushFrontVector other => exact (h.pushFrontVector_spec held hc.holds_toList).noResult
  | pushBack xs => exact (h.pushBack_spec held xs).noResult
  | pushBackVector other => exact (h.pushBackVector_spec held hc.holds_toList).noResult
  | pushBackSegment other length position =>
    have ho := hc.1.holds_toList
    obtain ⟨-, hp, hlength⟩ := hc
    rw [ho.size_eq] at hp hlength
    exact (h.pushBackSegment_spec held ho hp hlength).noResult
  | popFront length => exact ⟨_, rfl, h.popFront length⟩
  | popBack length => exact ⟨_, rfl, h.popBack length⟩
  | extend extraLength => exact (h.extend_spec held (.inl hf)).noResult
  | insertAt xs position => exact (h.insertAt_spec held xs position).noResult
  | insertZerosAt length position =>
    exact (h.insertZerosAt_spec held (.inl hf) position).noResult
  | overwriteAt xs position => exact (h.overwriteAt_spec held xs position).noResult
  | overwriteAtVector other length position =>
    have ho := hc.1.holds_toList
    obtain ⟨-, hlength⟩ := hc
    rw [ho.size_eq] at hlength
    exact (h.overwriteAtVector_spec held ho hlength position).noResult
  | clear => exact ⟨_, rfl, h.clear⟩
  | copyTo length position =>
    refine ⟨v, ?_, h⟩
    rw [step, h.copyTo_eq length hf]
    rfl
  | copyToVector other =>
    obtain ⟨w, hw, hl⟩ := h.copyToVector_spec held hc.holds_toList
    refine ⟨v, ?_, h⟩
    rw [step, hw, Option.map_some, hl.toList_eq]
    rfl
  | copyFrom other => exact (hc.holds_toList.copyToVector_spec held h).noResult

/-- Every run stays inside of the array and is the run on the list, if no position of `CopyTo` is
behind the end of the list it copies from and no length of zeros makes the size wrap. -/
theorem run_refines_list (v : AudioVector) (hv : v.Valid) (requests : List ((ℕ → Int16) × Call))
    (harguments : ∀ request ∈ requests, request.2.ArgumentsValid)
    (hfits : ∀ pre request post, requests = pre ++ request :: post →
      request.2.FitsList (runState listStep v.toList (pre.map Prod.snd))) :
    ∃ w, runPartial step v requests =
        some (w, runResults listStep v.toList (requests.map Prod.snd)) ∧
      w.Valid ∧ w.toList = runState listStep v.toList (requests.map Prod.snd) := by
  have hs : ∀ (v : AudioVector) (l : List Int16) (request : (ℕ → Int16) × Call), v.Holds l →
      request.2.ArgumentsValid ∧ request.2.FitsList l →
      ∃ w, v.step request = some (w, (listStep l request.2).2) ∧
        w.Holds (listStep l request.2).1 :=
    fun v l request h ha => step_simulates h ha.1 ha.2
  obtain ⟨w, hrun, hw⟩ := runPartial_simulates_of_reached hs hv.holds_toList
    (fun pre request post (heq : requests = _) => ⟨harguments request (by simp [heq]), by
      rw [runState_comp]
      exact hfits pre request post heq⟩)
  rw [runState_comp] at hw
  rw [runResults_comp] at hrun
  exact ⟨w, hrun, hw.valid, hw.toList_eq⟩

theorem run_refines_list_insert : ∃ w, runPartial step ofDefaultSize
        [(fun _ => 0, .pushBack [1, 2, 3]), (fun _ => 7, .insertAt [4, 5] 1),
          (fun _ => 0, .overwriteAt [6] 9), (fun _ => 0, .insertZerosAt 2 5),
          (fun _ => 0, .copyTo 20 2)] =
        some (w, [[], [], [], [], [5, 2, 3, 0, 0, 6]]) ∧ w.Valid ∧
      w.toList = [1, 4, 5, 2, 3, 0, 0, 6] :=
  run_refines_list ofDefaultSize valid_ofDefaultSize _ (by simp [Call.ArgumentsValid]) (by
    simp only [forall_split_cons, forall_split_nil]
    exact ⟨trivial, trivial, trivial, (by decide : [1, 4, 5, 2, 3, (6 : Int16)].length + 2 + 1 < _),
      (by decide : 2 ≤ [1, 4, 5, 2, 3, 0, 0, (6 : Int16)].length), trivial⟩)

theorem writeBack_eq_none {xs : List Int16} (hxs : 2 * v.capacity < xs.length) :
    v.writeBack xs = none := by
  rw [writeBack, Option.bind_eq_bind, Option.bind_eq_none_iff]
  intro array ha
  obtain ⟨hr, heq⟩ := Option.ite_none_right_eq_some.mp ha
  cases heq
  have hlength := length_writeAt hr
  have hrest : v.array.length < (xs.drop (min xs.length (v.capacity - v.endIndex))).length := by
    unfold capacity at hxs ⊢
    rw [List.length_drop]
    omega
  rw [writeRest, if_pos (by omega), Memory.copy, if_neg (by omega)]
  rfl

/-- A sum that wraps to less than the capacity reserves nothing. -/
theorem Holds.extend_eq_none (h : v.Holds l) (held : ℕ → Int16) {n : ℕ}
    (hwrap : (l.length + n) % 2 ^ 64 < v.capacity) (hn : 2 * v.capacity < n) :
    v.extend held n = none := by
  obtain ⟨w, hw, hl, hc⟩ := h.moveBack_spec le_rfl
  have hsum : w.size + n + (v.size - l.length) = l.length + n := by
    rw [hl.size_eq, h.size_eq, List.take_length, Nat.sub_self, Nat.add_zero]
  have hz : w.writeBack (List.replicate n 0) = none :=
    writeBack_eq_none (by rwa [List.length_replicate, hc])
  rw [extend, if_neg (by omega), h.size_eq, insertZerosByPushBack, hw]
  dsimp only [Option.bind_eq_bind, Option.bind_some]
  rw [hsum, reserve, if_pos (by rwa [hc]), Option.bind_some, hz, Option.bind_none]

theorem runPartial_pushBack_extend {w : AudioVector} {held : ℕ → Int16} {xs : List Int16} {n : ℕ}
    (hp : v.pushBack held xs = some w) (he : w.extend held n = none) :
    runPartial step v [(held, .pushBack xs), (held, .extend n)] = none := by
  simp only [runPartial, step, hp, he, noResult, Option.bind_eq_bind, Option.bind_some,
    Option.map_some, Option.map_none, Option.bind_none]

/-- A position of `CopyTo` behind the end, and a length of zeros that makes the size wrap to 1: both
leave the array. -/
theorem copyTo_behind_end_leaves_array :
    runPartial step ofDefaultSize [(fun _ => 0, .pushBack [1, 2]), (fun _ => 0, .copyTo 20 3)] =
        none ∧
      runPartial step ofDefaultSize
        [(fun _ => 0, .pushBack [1, 2]), (fun _ => 0, .extend (2 ^ 64 - 1))] = none := by
  have hp : ofDefaultSize.pushBack (fun _ => 0) [1, 2] =
      some ⟨[1, 2, 0, 0, 0, 0, 0, 0, 0, 0, 0], 0, 2⟩ := by decide
  have hv : Valid ⟨[1, 2, 0, 0, 0, 0, 0, 0, 0, 0, 0], 0, 2⟩ := ⟨by decide, by decide⟩
  exact ⟨by decide, runPartial_pushBack_extend hp
    (hv.holds_toList.extend_eq_none _ (by decide) (by decide))⟩

end WebRtcAudio.NetEq.AudioVector
