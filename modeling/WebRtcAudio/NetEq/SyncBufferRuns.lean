import Mathlib.Data.List.Zip
import WebRtcAudio.NetEq.SyncBuffer

/-! What is still to be played is played once and in order. -/
namespace WebRtcAudio.NetEq

open WebRtcAudio.Core AudioCoding List Option AudioMultiVector

def AudioMultiVector.WellFormed (v : AudioMultiVector) : Prop :=
  ∀ c ∈ v.channels, c.Valid ∧ c.size = v.size

namespace AudioMultiVector
variable {v : AudioMultiVector}

theorem WellFormed.holds (h : v.WellFormed) : v.Holds (v.channels.map AudioVector.toList) :=
  forall₂_map_right_iff.mpr (forall₂_same.mpr fun c hc => (h c hc).1.holds_toList)

theorem WellFormed.length_eq (h : v.WellFormed) :
    ∀ l ∈ v.channels.map AudioVector.toList, l.length = v.size := by
  intro l hl
  obtain ⟨c, hc, rfl⟩ := mem_map.mp hl
  rw [← (h c hc).2, (h c hc).1.holds_toList.size_eq]

end AudioMultiVector

namespace SyncBuffer
variable {s t : SyncBuffer} {n size : ℕ} {ls : List (List Int16)}

def future (s : SyncBuffer) : List (List Int16) := s.channels.map fun c => c.toList.drop s.nextIndex

def Admits (s : SyncBuffer) : Call → Prop
  | .pushBack appendThis => appendThis.WellFormed ∧ appendThis.numChannels = s.numChannels
  | .pushBackInterleaved appendThis =>
    appendThis.length % s.numChannels = 0 ∧ (s.numChannels = 1 ∨ appendThis ≠ [])
  | .replaceAtIndex insertThis _ _ => insertThis.WellFormed
  | .replaceAllAtIndex insertThis _ => insertThis.WellFormed
  | .getNextAudioInterleaved requestedLen =>
    min s.futureLength requestedLen * s.numChannels ≤ kMaxDataSizeSamples
  | _ => True

structure Consistent (size : ℕ) (s : SyncBuffer) : Prop where
  channels : ∀ c ∈ s.channels, c.size = size
  next_le : s.nextIndex ≤ size
  dtmf_le : s.dtmfIndex ≤ size

def lastSamples (n : ℕ) (l : List Int16) : List Int16 := l.drop (l.length - n)

def Pushed (s t : SyncBuffer) (samplesAdded : ℕ) (added : List (List Int16)) : Prop :=
  t.futureLength = min s.size (s.futureLength + samplesAdded) ∧
    t.future = zipWith (fun old new => lastSamples t.futureLength (old ++ new)) s.future added

/-- Samples that are still to be played are played first, or stay in front of those that are
pushed. -/
def Conserves (s t : SyncBuffer) (frame : Option OutputFrame) : Call → Prop
  | .pushBack appendThis =>
    s.Pushed t appendThis.size (appendThis.channels.map AudioVector.toList)
  | .pushBackInterleaved appendThis =>
    s.Pushed t (appendThis.length / s.numChannels)
      (deinterleave s.numChannels appendThis)
  | .getNextAudioInterleaved requestedLen =>
    let samples := min requestedLen s.futureLength
    frame = some ⟨interleave samples (s.future.map (take samples)),
        s.numChannels, samples⟩ ∧
      t.future = s.future.map (drop samples)
  | _ => True

/-- All channels have one size, and both indices are inside of it. -/
structure Holding (n size : ℕ) (ls : List (List Int16)) (s : SyncBuffer) : Prop where
  holds : s.toAudioMultiVector.Holds ls
  channels : ls.length = n
  length_eq : ∀ l ∈ ls, l.length = size
  pos : 0 < n
  next_le : s.nextIndex ≤ size
  dtmf_le : s.dtmfIndex ≤ size

namespace Holding

section
variable (h : Holding n size ls s)
include h

theorem numChannels_eq : s.numChannels = n :=
  h.holds.numChannels_eq.trans h.channels

theorem size_eq : s.size = size :=
  h.holds.size_eq (by rw [h.channels]; exact h.pos) h.length_eq

theorem consistent : s.Consistent size := by
  refine ⟨fun c hc => ?_, h.next_le, h.dtmf_le⟩
  obtain ⟨i, hi⟩ := mem_iff_getElem?.mp hc
  obtain ⟨l, hl, hcl⟩ := forall₂_exists_right h.holds hi
  rw [hcl.size_eq, h.length_eq l (mem_of_getElem? hl)]

theorem futureLength_eq : s.futureLength = size - s.nextIndex := by
  rw [futureLength, h.size_eq, sizeTSub, if_pos h.next_le]

theorem future_eq : s.future = ls.map (List.drop s.nextIndex) := by
  rw [future, ← h.holds.toList_eq, List.map_map]
  rfl

theorem setNextIndex (value : ℕ) : Holding n size ls (s.setNextIndex value) :=
  ⟨h.holds, h.channels, h.length_eq, h.pos, by
    rw [SyncBuffer.setNextIndex, h.size_eq]; exact Nat.min_le_right value size, h.dtmf_le⟩

theorem setDtmfIndex (value : ℕ) : Holding n size ls (s.setDtmfIndex value) :=
  ⟨h.holds, h.channels, h.length_eq, h.pos, h.next_le, by
    rw [SyncBuffer.setDtmfIndex, h.size_eq]; exact Nat.min_le_right value size⟩

end

end Holding

theorem lastSamples_pushed {l m : List Int16} {samplesAdded next : ℕ} (hl : l.length = size)
    (hm : m.length = samplesAdded) (hnext : next ≤ size) :
    ((l ++ m).drop samplesAdded).drop (next - min next samplesAdded) =
      lastSamples (size - (next - min next samplesAdded)) (l.drop next ++ m) := by
  rw [lastSamples, length_append, length_drop, hl, hm,
    ← drop_append_of_le_length (by omega), drop_drop, drop_drop]
  congr 1
  omega

theorem exists_of_mem_zipWith {α β γ : Type*} {f : α → β → γ} {as : List α} {bs : List β} {c : γ}
    (h : c ∈ zipWith f as bs) : ∃ a ∈ as, ∃ b ∈ bs, f a b = c := by
  obtain ⟨i, hi⟩ := mem_iff_getElem?.mp h
  obtain ⟨a, b, ha, hb, hc⟩ := getElem?_zipWith_eq_some.mp hi
  exact ⟨a, mem_of_getElem? ha, b, mem_of_getElem? hb, hc⟩

section Pushing
variable {v : AudioMultiVector} {ms : List (List Int16)} {samplesAdded : ℕ}

def slide (s : SyncBuffer) (v : AudioMultiVector) (samplesAdded : ℕ) : SyncBuffer :=
  { s with
    toAudioMultiVector := v.popFront samplesAdded
    nextIndex := s.nextIndex - min s.nextIndex samplesAdded
    dtmfIndex := s.dtmfIndex - min s.dtmfIndex samplesAdded }

section
variable (h : Holding n size ls s) (hv : v.Holds (zipWith (· ++ ·) ls ms))
  (hchannels : ms.length = n) (hms : ∀ m ∈ ms, m.length = samplesAdded)
include h hv hchannels hms

theorem Holding.slide : Holding n size (zipWith (fun l m => (l ++ m).drop samplesAdded) ls ms)
      (s.slide v samplesAdded) := by
  have hnext := h.next_le
  have hdtmf := h.dtmf_le
  refine ⟨?_, ?_, ?_, h.pos, ?_, ?_⟩
  · have hd := hv.popFront samplesAdded
    rwa [map_zipWith] at hd
  · rw [length_zipWith, h.channels, hchannels, Nat.min_self]
  · intro l hl
    obtain ⟨k, hk, m, hm, rfl⟩ := exists_of_mem_zipWith hl
    rw [length_drop, length_append, h.length_eq k hk, hms m hm, Nat.add_sub_cancel]
  · dsimp only [SyncBuffer.slide]
    omega
  · dsimp only [SyncBuffer.slide]
    omega

theorem Holding.pushed : s.Pushed (s.slide v samplesAdded) samplesAdded ms := by
  have ht := h.slide hv hchannels hms
  have hn := h.next_le
  have hs : (s.slide v samplesAdded).nextIndex = s.nextIndex - min s.nextIndex samplesAdded :=
    rfl
  refine ⟨?_, ?_⟩
  · rw [ht.futureLength_eq, h.futureLength_eq, h.size_eq, hs]
    omega
  · rw [ht.future_eq, h.future_eq, ht.futureLength_eq, hs, map_zipWith, zipWith_map_left]
    refine zipWith_congr _ _ _ _ (forall₂_iff_zip.mpr ⟨by rw [h.channels, hchannels], ?_⟩)
    intro l m hlm
    obtain ⟨hl, hm⟩ := of_mem_zip hlm
    exact lastSamples_pushed (h.length_eq l hl) (hms m hm) hn

end

end Pushing

section
variable (held : ℕ → ℕ → Int16)

theorem Holding.pushBack (h : Holding n size ls s) {appendThis : AudioMultiVector}
    (hfo : appendThis.WellFormed) (hchannels : appendThis.numChannels = n) :
    ∃ t, s.pushBack held appendThis = some t ∧ (∃ ls', Holding n size ls' t) ∧
      s.Pushed t appendThis.size (appendThis.channels.map AudioVector.toList) := by
  have hl : (appendThis.channels.map AudioVector.toList).length = n := by
    rw [length_map]
    exact hchannels
  obtain ⟨v, hv, hh⟩ := h.holds.pushBack held hfo.holds (by rw [h.channels, hl])
  refine ⟨s.slide v appendThis.size, ?_, ⟨_, h.slide hh hl hfo.length_eq⟩,
    h.pushed hh hl hfo.length_eq⟩
  have hn : (if appendThis.size ≤ s.nextIndex then s.nextIndex - appendThis.size else 0) =
      s.nextIndex - min s.nextIndex appendThis.size := by
    split_ifs <;> omega
  rw [SyncBuffer.pushBack, hv, bind_eq_bind, bind_some, hn]
  rfl

theorem Holding.pushBackInterleaved (h : Holding n size ls s) {xs : List Int16}
    (hdvd : xs.length % n = 0) (hne : n = 1 ∨ xs ≠ []) :
    ∃ t, s.pushBackInterleaved held xs = some t ∧ (∃ ls', Holding n size ls' t) ∧
      s.Pushed t (xs.length / n) (deinterleave n xs) := by
  have hchannels := h.channels
  obtain ⟨v, hv, hh⟩ := h.holds.pushBackInterleaved held xs (by rwa [hchannels])
    (by rwa [hchannels])
  rw [hchannels] at hh
  have hlength : (deinterleave n xs).length = n := by
    simp [deinterleave]
  have hms : ∀ m ∈ deinterleave n xs, m.length = xs.length / n := by
    intro m hm
    obtain ⟨i, -, rfl⟩ := mem_map.mp hm
    rw [length_map, length_range]
  have hzip : (zipWith (· ++ ·) ls (deinterleave n xs)).length = n := by
    rw [length_zipWith, hchannels, hlength, Nat.min_self]
  have hs : v.size = size + xs.length / n := by
    refine hh.size_eq (by rw [hzip]; exact h.pos) fun l hl => ?_
    obtain ⟨k, hk, m, hm, rfl⟩ := exists_of_mem_zipWith hl
    rw [length_append, h.length_eq k hk, hms m hm]
  have ha : sizeTSub v.size s.size = xs.length / n := by
    rw [hs, h.size_eq, sizeTSub, if_pos (Nat.le_add_right _ _), Nat.add_sub_cancel_left]
  have hc : xs.length / n * v.numChannels = xs.length := by
    rw [hh.numChannels_eq, hzip, Nat.div_mul_cancel (Nat.dvd_of_mod_eq_zero hdvd)]
  refine ⟨s.slide v (xs.length / n), ?_, ⟨_, h.slide hh hlength hms⟩,
    h.pushed hh hlength hms⟩
  rw [SyncBuffer.pushBackInterleaved, hv, bind_eq_bind, bind_some, ha,
    if_neg (not_not.mpr hc)]
  rfl

section
variable (h : Holding n size ls s)
include h

theorem Holding.moveIndices (position length : ℕ) :
    let moved := if position ≤ s.nextIndex then s.setNextIndex (s.nextIndex + length) else s
    Holding n size ls (if 0 < moved.dtmfIndex ∧ position ≤ moved.dtmfIndex then
      moved.setDtmfIndex (moved.dtmfIndex + length) else moved) := by
  intro moved
  have hm : Holding n size ls moved := by
    unfold moved
    split_ifs
    · exact h.setNextIndex _
    · exact h
  split_ifs
  · exact hm.setDtmfIndex _
  · exact hm

theorem Holding.insertZerosAtIndex (length position : ℕ) :
    ∃ t, s.insertZerosAtIndex held length position = some t ∧ ∃ ls', Holding n size ls' t := by
  have hsize := h.size_eq
  generalize hp : min position size = start
  generalize hlength : min length (size - start) = zeros
  obtain ⟨v, hv, hh⟩ : ∃ v, (s.toAudioMultiVector.popBack zeros).forChannels
      (fun i c => c.insertZerosAt (held i) zeros start) = some v ∧
        v.Holds (ls.map fun l => (l.take (l.length - zeros)).take start ++
          replicate zeros 0 ++ (l.take (l.length - zeros)).drop start) := by
    rw [forChannels_popBack]
    refine h.holds.forChannels (by simp) fun i l m hl hm c hc => ?_
    rw [getElem?_map, hl, map_some] at hm
    cases hm
    have hl' := h.length_eq l (mem_of_getElem? hl)
    -- the array is as large as before the samples were taken off
    have hf : (c.popBack zeros).FitsWith ((l.take (l.length - zeros)).length + zeros) := by
      have hroom := hc.length_lt
      rw [AudioVector.FitsWith, AudioVector.capacity_popBack, length_take]
      omega
    have hs := (hc.popBack zeros).insertZerosAt_spec (held i) hf start
    rwa [length_take, hl', Nat.min_eq_right (by omega : start ≤ min (size - zeros) size),
      ← hl'] at hs
  have hnew : Holding n size (ls.map fun l => (l.take (l.length - zeros)).take start ++
      replicate zeros 0 ++ (l.take (l.length - zeros)).drop start)
      { s with toAudioMultiVector := v } := by
    refine ⟨hh, by rw [length_map, h.channels], fun l hl => ?_, h.pos, h.next_le, h.dtmf_le⟩
    obtain ⟨k, hk, rfl⟩ := mem_map.mp hl
    have hk' := h.length_eq k hk
    simp only [length_append, length_take, length_drop, length_replicate]
    omega
  refine ⟨_, ?_, _, hnew.moveIndices start zeros⟩
  simp only [SyncBuffer.insertZerosAtIndex, hsize, hp, hlength, hv, bind_eq_bind, bind_some]
  rfl

theorem Holding.replaceAtIndex {insertThis : AudioMultiVector}
    (hfo : insertThis.WellFormed) (length position : ℕ) :
    ∃ t, s.replaceAtIndex held insertThis length position = some t ∧
      ∃ ls', Holding n size ls' t := by
  have hs := h.size_eq
  generalize hp : min position size = start
  generalize hlength : min length (size - start) = count
  simp only [SyncBuffer.replaceAtIndex, hs, hp, hlength]
  by_cases hchannels : insertThis.numChannels = n
  · have hms : (insertThis.channels.map AudioVector.toList).length = n := by
      rw [length_map]
      exact hchannels
    obtain ⟨v, hv, hh⟩ := h.holds.overwriteAt held hfo.holds (by rw [h.channels, hms])
      hfo.length_eq (by rw [hms]; exact h.pos) count start
    refine ⟨{ s with toAudioMultiVector := v }, by rw [hv]; rfl, _, hh, ?_, ?_, h.pos,
      h.next_le, h.dtmf_le⟩
    · rw [length_zipWith, h.channels, hms, Nat.min_self]
    · intro l hl
      obtain ⟨k, hk, m, hm, rfl⟩ := exists_of_mem_zipWith hl
      have hk' := h.length_eq k hk
      rw [length_writeAt, hk']
      rw [length_take]
      omega
  · refine ⟨s, ?_, ls, h⟩
    rw [overwriteAt, h.numChannels_eq, if_neg (Ne.symm hchannels)]
    rfl

theorem Holding.flush : ∃ t, s.flush held = some t ∧ ∃ ls', Holding n size ls' t := by
  obtain ⟨v, hv, hh⟩ := h.holds.zeros held fun l hl => (h.length_eq l hl).ge
  have hlength : ∀ l ∈ ls.map (fun _ => replicate size (0 : Int16)), l.length = size := by
    intro l hl
    obtain ⟨_, -, rfl⟩ := mem_map.mp hl
    exact length_replicate
  have hchannels : (ls.map fun _ => replicate size (0 : Int16)).length = n := by
    rw [length_map, h.channels]
  refine ⟨⟨v, v.size, 0, 0⟩, ?_, _, hh, hchannels, hlength, h.pos, ?_, Nat.zero_le size⟩
  · rw [SyncBuffer.flush, h.size_eq, hv]
    rfl
  · rw [hh.size_eq (by rw [hchannels]; exact h.pos) hlength]

theorem Holding.getNextAudioInterleaved {requestedLen : ℕ}
    (hf : min s.futureLength requestedLen * n ≤ kMaxDataSizeSamples) :
    ∃ t frame, s.getNextAudioInterleaved requestedLen = some (t, frame) ∧ Holding n size ls t ∧
      s.Conserves t (some frame) (.getNextAudioInterleaved requestedLen) := by
  have hnext := h.next_le
  have hfuture := h.futureLength_eq
  have hchannels := h.channels
  generalize hs : min s.futureLength requestedLen = samples at hf
  have hr := h.holds.readInterleavedFromIndex (by rw [hchannels]; exact h.pos) h.length_eq
    s.nextIndex samples kMaxDataSizeSamples (by omega)
  rw [hchannels, if_pos hf] at hr
  have hc : (interleave samples (ls.map fun l =>
      (l.drop s.nextIndex).take samples)).length / s.numChannels = samples := by
    rw [AudioMultiVector.length_interleave, length_map, hchannels, h.numChannels_eq,
      Nat.mul_div_cancel samples h.pos]
  have ht : Holding n size ls { s with nextIndex := s.nextIndex + samples } :=
    ⟨h.holds, h.channels, h.length_eq, h.pos, by dsimp only; omega, h.dtmf_le⟩
  refine ⟨{ s with nextIndex := s.nextIndex + samples }, ⟨interleave samples
    (ls.map fun l => (l.drop s.nextIndex).take samples), s.numChannels, samples⟩, ?_, ht, ?_, ?_⟩
  · rw [SyncBuffer.getNextAudioInterleaved, hs, hr, bind_eq_bind, bind_some, hc]
    rfl
  · rw [Nat.min_comm, hs, h.future_eq, List.map_map]
    rfl
  · rw [Nat.min_comm, hs, h.future_eq, ht.future_eq, List.map_map]
    refine map_congr_left fun l _ => ?_
    rw [Function.comp_apply, drop_drop]

end

end

theorem holding_new (channels length : ℕ) :
    Holding (max channels 1) length (replicate (max channels 1) (replicate length 0))
      (new channels length) := by
  refine ⟨holds_new channels length, length_replicate, fun l hl => ?_,
    by omega, Nat.le_refl length, Nat.zero_le length⟩
  rw [eq_of_mem_replicate hl, length_replicate]

theorem Holding.step (h : Holding n size ls s) {request : (ℕ → ℕ → Int16) × Call}
    (ha : s.Admits request.2) :
    ∃ t frame, s.step request = some (t, frame) ∧ (∃ ls', Holding n size ls' t) ∧
      s.Conserves t frame request.2 := by
  obtain ⟨held, call⟩ := request
  have hchannels := h.numChannels_eq
  cases call with
  | pushBack appendThis =>
    obtain ⟨t, ht, hh, hp⟩ := h.pushBack held ha.1 (ha.2.trans hchannels)
    exact ⟨t, none, by simp [SyncBuffer.step, noFrame, ht], hh, hp⟩
  | pushBackInterleaved appendThis =>
    unfold Admits at ha
    rw [hchannels] at ha
    obtain ⟨t, ht, hh, hp⟩ := h.pushBackInterleaved held ha.1 ha.2
    rw [← hchannels] at hp
    exact ⟨t, none, by simp [SyncBuffer.step, noFrame, ht], hh, hp⟩
  | insertZerosAtIndex length position =>
    obtain ⟨t, ht, hh⟩ := h.insertZerosAtIndex held length position
    exact ⟨t, none, by simp [SyncBuffer.step, noFrame, ht], hh, trivial⟩
  | pushFrontZeros length =>
    obtain ⟨t, ht, hh⟩ := h.insertZerosAtIndex held length 0
    exact ⟨t, none, by simp [SyncBuffer.step, noFrame, pushFrontZeros, ht], hh, trivial⟩
  | replaceAtIndex insertThis length position =>
    obtain ⟨t, ht, hh⟩ := h.replaceAtIndex held ha length position
    exact ⟨t, none, by simp [SyncBuffer.step, noFrame, ht], hh, trivial⟩
  | replaceAllAtIndex insertThis position =>
    obtain ⟨t, ht, hh⟩ := h.replaceAtIndex held ha insertThis.size position
    exact ⟨t, none, by simp [SyncBuffer.step, noFrame, replaceAllAtIndex, ht], hh, trivial⟩
  | getNextAudioInterleaved requestedLen =>
    unfold Admits at ha
    rw [hchannels] at ha
    obtain ⟨t, frame, ht, hh, hco⟩ := h.getNextAudioInterleaved ha
    exact ⟨t, some frame, by simp [SyncBuffer.step, ht], ⟨ls, hh⟩, hco⟩
  | setNextIndex value => exact ⟨_, none, rfl, ⟨ls, h.setNextIndex value⟩, trivial⟩
  | setDtmfIndex value => exact ⟨_, none, rfl, ⟨ls, h.setDtmfIndex value⟩, trivial⟩
  | increaseEndTimestamp increment =>
    exact ⟨_, none, rfl, ⟨ls, h.1, h.2, h.3, h.4, h.5, h.6⟩, trivial⟩
  | setEndTimestamp value => exact ⟨_, none, rfl, ⟨ls, h.1, h.2, h.3, h.4, h.5, h.6⟩, trivial⟩
  | flush =>
    obtain ⟨t, ht, hh⟩ := h.flush held
    exact ⟨t, none, by simp [SyncBuffer.step, noFrame, ht], hh, trivial⟩

/-- In every run of admitted calls each call is defined, leaves all channels at the initial size and
the indices inside of them, and neither loses nor repeats a sample that is still to be played. -/
theorem run_conserves (channels length : ℕ) (requests : List ((ℕ → ℕ → Int16) × Call))
    (hadmits : ∀ pre request post, requests = pre ++ request :: post → ∀ s frames,
      runPartial step (new channels length) pre = some (s, frames) → s.Admits request.2) :
    (new channels length).Consistent length ∧
      ∀ pre request post, requests = pre ++ request :: post → ∃ s frames t frame,
        runPartial step (new channels length) pre = some (s, frames) ∧
          s.step request = some (t, frame) ∧ t.Consistent length ∧
          s.Conserves t frame request.2 := by
  refine ⟨(holding_new channels length).consistent, fun pre request post heq => ?_⟩
  have hstep : ∀ (s : SyncBuffer) (request : (ℕ → ℕ → Int16) × Call),
      (∃ ls, Holding (max channels 1) length ls s) → s.Admits request.2 →
      ∃ t frame, s.step request = some (t, frame) ∧ ∃ ls, Holding (max channels 1) length ls t := by
    rintro s request ⟨ls, hs⟩ hg
    obtain ⟨t, frame, ht, hh, -⟩ := hs.step hg
    exact ⟨t, frame, ht, hh⟩
  have hpre : pre <+: requests := ⟨request :: post, heq.symm⟩
  obtain ⟨s, frames, hrun, ls, hs⟩ := exists_runPartial_of_reached hstep
    ⟨_, holding_new channels length⟩ hadmits hpre
  obtain ⟨t, frame, ht, ⟨ls', hh⟩, hc⟩ :=
    hs.step (hadmits pre request post heq s frames hrun)
  exact ⟨s, frames, t, frame, hrun, ht, hh.consistent, hc⟩

theorem run_conserves_stereo : (new 2 3).Admits (.pushBackInterleaved [1, 2, 3, 4]) ∧
      ∃ s frames t, runPartial step (new 2 3) [(fun _ _ => 7, .pushBackInterleaved [1, 2, 3, 4])] =
          some (s, frames) ∧
        s.step (fun _ _ => 7, .getNextAudioInterleaved 5) = some (t, some ⟨[1, 2, 3, 4], 2, 2⟩) ∧
        t.Consistent 3 := by
  have hfirst : (new 2 3).Admits (.pushBackInterleaved [1, 2, 3, 4]) :=
    ⟨by decide, .inr (by decide)⟩
  have hp : ∃ s, (new 2 3).pushBackInterleaved (fun _ _ => 7) [1, 2, 3, 4] = some s ∧
      s.futureLength = 2 ∧ s.numChannels = 2 ∧ s.future = [[1, 3], [2, 4]] := by decide
  obtain ⟨u, hu, hl, hchannels, hfuture⟩ := hp
  have hrun : runPartial step (new 2 3) [(fun _ _ => 7, .pushBackInterleaved [1, 2, 3, 4])] =
      some (u, [none]) := by
    simp [runPartial, step, noFrame, hu]
  obtain ⟨-, hall⟩ := run_conserves 2 3 [(fun _ _ => 7, .pushBackInterleaved [1, 2, 3, 4]),
      (fun _ _ => 7, .getNextAudioInterleaved 5)] (by
    simp only [forall_split_cons, forall_split_nil]
    refine ⟨fun s frames hs => ?_, fun s frames hs => ?_, trivial⟩
    · cases hs
      exact hfirst
    · obtain ⟨rfl, -⟩ := Prod.mk.inj (some.inj (hrun.symm.trans hs))
      rw [Admits, hl, hchannels]
      decide)
  obtain ⟨s, frames, t, frame, hs, ht, hc, hf, -⟩ := hall [_] _ [] rfl
  obtain ⟨rfl, -⟩ := Prod.mk.inj (some.inj (hrun.symm.trans hs))
  rw [hl, hfuture, hchannels] at hf
  exact ⟨hfirst, u, [none], t, hrun, by rw [ht, hf]; rfl, hc⟩

theorem run_not_conserves : runPartial step (new 1 8640) [(fun _ _ => 0, .setNextIndex 0),
        (fun _ _ => 0, .getNextAudioInterleaved 8640)] = none ∧
      runPartial step (new 2 4) [(fun _ _ => 0, .pushBackInterleaved [])] = none := by
  refine ⟨?_, by decide⟩
  have h := (holding_new 1 8640).setNextIndex 0
  have hn : ((new 1 8640).setNextIndex 0).nextIndex = 0 := Nat.zero_min _
  have hf : ((new 1 8640).setNextIndex 0).futureLength = 8640 := by
    rw [h.futureLength_eq, hn]
  have hr := h.holds.readInterleavedFromIndex (by rw [h.channels]; exact h.pos) h.length_eq
    0 8640 kMaxDataSizeSamples (Nat.le_refl _)
  rw [h.channels, if_neg (by decide)] at hr
  have hget : ((new 1 8640).setNextIndex 0).getNextAudioInterleaved 8640 = none := by
    rw [getNextAudioInterleaved, hf, hn, Nat.min_self, hr]
    rfl
  refine runPartial_none_of_tail (t := (new 1 8640).setNextIndex 0) (r := none) rfl
    (runPartial_none_of_head ?_ [])
  rw [step, hget]
  rfl

end SyncBuffer

end WebRtcAudio.NetEq
