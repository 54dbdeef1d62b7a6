import WebRtcAudio.Core.MachineInt
import WebRtcAudio.Core.Run

/-! `rtc::TimestampAligner`: capture times are moved to the system clock by a filtered offset. -/
namespace WebRtcAudio.RtcBase

open WebRtcAudio.Core List

structure TimestampAligner where
  framesSeen : ℤ := 0
  offsetUs : ℤ := 0
  clipBiasUs : ℤ := 0
  prevTranslatedTimeUs : ℤ := -2 ^ 63
  prevTimeOffsetUs : ℤ := 0

namespace TimestampAligner

/-- The first half of `UpdateOffset`: a large error resets the filter. -/
def countFrame (a : TimestampAligner) (errorUs : ℤ) : TimestampAligner :=
  let a := if |errorUs| > 300000 then { a with framesSeen := 0, clipBiasUs := 0 } else a
  if a.framesSeen < 100 then { a with framesSeen := a.framesSeen + 1 } else a

def updateOffset (a : TimestampAligner) (capturerTimeUs systemTimeUs : ℤ) :
    Option TimestampAligner := do
  let diffUs ← int64? (systemTimeUs - capturerTimeUs)
  let errorUs ← int64? (diffUs - a.offsetUs)
  let offsetUs ← int64? (a.offsetUs + errorUs.tdiv (a.countFrame errorUs).framesSeen)
  return { a.countFrame errorUs with offsetUs }

def clipTimestamp (a : TimestampAligner) (filteredTimeUs systemTimeUs : ℤ) :
    Option (TimestampAligner × ℤ) := do
  let timeUs ← int64? (filteredTimeUs - a.clipBiasUs)
  if timeUs > systemTimeUs then
    let clipBiasUs ← int64? (a.clipBiasUs + (timeUs - systemTimeUs))
    return ({ a with clipBiasUs, prevTranslatedTimeUs := systemTimeUs }, systemTimeUs)
  else
    let earliest ← int64? (a.prevTranslatedTimeUs + 1000)
    let timeUs :=
      if timeUs < earliest then if earliest > systemTimeUs then systemTimeUs else earliest
      else timeUs
    return ({ a with prevTranslatedTimeUs := timeUs }, timeUs)

def translateTimestamp (a : TimestampAligner) (times : ℤ × ℤ) : Option (TimestampAligner × ℤ) := do
  let a ← a.updateOffset times.1 times.2
  let filteredTimeUs ← int64? (times.1 + a.offsetUs)
  let r ← a.clipTimestamp filteredTimeUs times.2
  let prevTimeOffsetUs ← int64? (r.2 - times.1)
  return ({ r.1 with prevTimeOffsetUs }, r.2)

structure Bounded (a : TimestampAligner) (lastUs : ℤ) : Prop where
  framesSeen : 0 ≤ a.framesSeen ∧ a.framesSeen ≤ 100
  offset : |a.offsetUs| ≤ 2 ^ 61
  clipBias : 0 ≤ a.clipBiasUs ∧ a.clipBiasUs ≤ 300000
  prev : -2 ^ 63 ≤ a.prevTranslatedTimeUs ∧ a.prevTranslatedTimeUs ≤ lastUs

def InRange (times : ℤ × ℤ) : Prop :=
  |times.1| < 2 ^ 60 ∧ 0 ≤ times.2 ∧ times.2 < 2 ^ 60

variable {a : TimestampAligner} {lastUs : ℤ} {times : ℤ × ℤ}

theorem Bounded.countFrame (h : a.Bounded lastUs) (e : ℤ) :
    (a.countFrame e).Bounded lastUs ∧ 1 ≤ (a.countFrame e).framesSeen ∧
      (a.countFrame e).offsetUs = a.offsetUs ∧
      (a.countFrame e).prevTranslatedTimeUs = a.prevTranslatedTimeUs ∧
      (|e| ≤ 300000 ∨ (a.countFrame e).framesSeen = 1) := by
  obtain ⟨hf, ho, hb, hp⟩ := h
  unfold TimestampAligner.countFrame
  split
  · exact ⟨⟨by simp, ho, by simp, hp⟩, by simp⟩
  next hs =>
    dsimp only
    split
    · exact ⟨⟨by dsimp only; omega, ho, hb, hp⟩, by dsimp only; omega, rfl, rfl,
        .inl (not_lt.mp hs)⟩
    · exact ⟨⟨hf, ho, hb, hp⟩, by omega, rfl, rfl, .inl (not_lt.mp hs)⟩

theorem tdiv_bounds (e : ℤ) {n : ℤ} (hn : 1 ≤ n) :
    0 ≤ e ∧ 0 ≤ e.tdiv n ∧ e.tdiv n ≤ e ∨ e ≤ 0 ∧ e ≤ e.tdiv n ∧ e.tdiv n ≤ 0 := by
  have habs := Int.natAbs_tdiv_le_natAbs e n
  obtain he | he := le_total 0 e
  · have := Int.tdiv_nonneg he (by omega : 0 ≤ n)
    omega
  · have := Int.tdiv_nonpos_of_nonneg_of_nonpos (a := -e) (b := -n) (by omega) (by omega)
    rw [Int.neg_tdiv, Int.tdiv_neg] at this
    omega

theorem updateOffset_spec (h : a.Bounded lastUs) (ht : InRange times) :
    ∃ b, a.updateOffset times.1 times.2 = some b ∧ b.Bounded lastUs ∧
      b.prevTranslatedTimeUs = a.prevTranslatedTimeUs ∧
      |times.1 + b.offsetUs - times.2| ≤ 300000 := by
  obtain ⟨c, s⟩ := times
  have hoffset := abs_le.mp h.offset
  obtain ⟨hc, hs⟩ := ht
  rw [abs_lt] at hc
  generalize he : s - c - a.offsetUs = e
  obtain ⟨hb, hone, ho, hp, hr⟩ := h.countFrame e
  have hdiv := tdiv_bounds e hone
  rw [updateOffset, int64?_bind (by omega), he, int64?_bind (by omega),
    int64?_bind (by omega)]
  refine ⟨_, rfl, { hb with offset := abs_le.mpr ?_ }, hp, ?_⟩
  · dsimp only
    omega
  · rw [abs_le] at hr ⊢
    obtain hsmall | hf := hr
    · dsimp only
      omega
    · rw [hf, Int.tdiv_one]
      dsimp only
      omega

theorem clipTimestamp_spec {filtered s : ℤ} (h : a.Bounded lastUs) (hf : |filtered - s| ≤ 300000)
    (hlast : lastUs ≤ s) (h0 : 0 ≤ s) (hs : s < 2 ^ 60) : ∃ b t,
      a.clipTimestamp filtered s = some (b, t) ∧ b.Bounded s ∧ b.prevTranslatedTimeUs = t ∧
      -2 ^ 60 ≤ t ∧ t ≤ s ∧ a.prevTranslatedTimeUs ≤ t ∧
      (a.prevTranslatedTimeUs + 1000 ≤ t ∨ t = s) := by
  obtain ⟨hframes, ho, hb, hprev⟩ := h
  rw [abs_le] at hf
  rw [clipTimestamp, int64?_bind (by omega)]
  split <;> rw [int64?_bind (by omega)]
  · refine ⟨_, _, rfl, ⟨hframes, ho, ?_, ?_⟩, rfl, by omega⟩ <;> dsimp only <;> omega
  · refine ⟨_, _, rfl, ⟨hframes, ho, hb, ?_⟩, rfl, ?_⟩
    · dsimp only
      split_ifs <;> omega
    · split_ifs <;> omega

theorem translateTimestamp_spec (h : a.Bounded lastUs) (ht : InRange times)
    (hl : lastUs ≤ times.2) : ∃ b t, a.translateTimestamp times = some (b, t) ∧
      b.Bounded times.2 ∧ b.prevTranslatedTimeUs = t ∧ t ≤ times.2 ∧ a.prevTranslatedTimeUs ≤ t ∧
      (a.prevTranslatedTimeUs + 1000 ≤ t ∨ t = times.2) := by
  obtain ⟨b, hb, hbound, hp, hf⟩ := updateOffset_spec h ht
  obtain ⟨d, t, hd, ⟨hframes, ho, hbias, hp'⟩, hdt, hlow, hr⟩ :=
    clipTimestamp_spec hbound hf hl ht.2.1 ht.2.2
  have hc := abs_lt.mp ht.1
  have hoffset := abs_le.mp hbound.offset
  have hs := ht.2
  rw [translateTimestamp, hb, Option.bind_eq_bind, Option.bind_some,
    int64?_bind (by omega), hd, Option.bind_eq_bind, Option.bind_some,
    int64?_bind (by omega)]
  exact ⟨_, t, rfl, ⟨hframes, ho, hbias, hp'⟩, hdt, hp ▸ hr⟩

theorem runPartial_translateTimestamp {calls : List (ℤ × ℤ)} (h : a.Bounded lastUs)
    (hr : ∀ times ∈ calls, InRange times)
    (hs : calls.Pairwise fun x y => x.2 ≤ y.2) (hlast : ∀ times ∈ calls, lastUs ≤ times.2) :
    ∃ b results, runPartial translateTimestamp a calls = some (b, results) ∧
      (0 ≤ b.clipBiasUs ∧ b.clipBiasUs ≤ 300000) ∧ results.length = calls.length ∧
      (∀ x ∈ calls.zip results, x.2 ≤ x.1.2 ∧ a.prevTranslatedTimeUs ≤ x.2 ∧
        (a.prevTranslatedTimeUs + 1000 ≤ x.2 ∨ x.2 = x.1.2)) ∧
      (calls.zip results).Pairwise fun x y =>
        x.2 ≤ y.2 ∧ (x.1.2 + 1000 ≤ y.1.2 → x.2 + 1000 ≤ y.2) := by
  induction calls generalizing a lastUs with
  | nil => exact ⟨a, [], rfl, h.clipBias, rfl, by simp, by simp⟩
  | cons times calls ih =>
    rw [forall_mem_cons] at hr hlast
    rw [pairwise_cons] at hs
    obtain ⟨d, t, hd, hb, rfl, hle, hprev, hgap⟩ :=
      translateTimestamp_spec h hr.1 hlast.1
    obtain ⟨b, results, hrun, hbias, hl, hall, hp⟩ :=
      ih hb hr.2 hs.2 hs.1
    refine ⟨b, d.prevTranslatedTimeUs :: results, by simp [runPartial, hd, hrun], hbias,
      by simp [hl], ?_, ?_⟩
    · rw [zip_cons_cons, forall_mem_cons]
      refine ⟨⟨hle, hprev, hgap⟩, fun x hx => ?_⟩
      obtain ⟨hxle, hxprev, hxgap⟩ := hall x hx
      omega
    · rw [zip_cons_cons, pairwise_cons]
      refine ⟨fun x hx => ?_, hp⟩
      obtain ⟨hxle, hxprev, hxgap⟩ := hall x hx
      dsimp only
      omega

/-- The results never go back or ahead of the system clock, and are a millisecond apart where the
system times are. -/
theorem translateTimestamp_monotone (calls : List (ℤ × ℤ))
    (hrange : ∀ times ∈ calls, |times.1| < 2 ^ 60 ∧ 0 ≤ times.2 ∧ times.2 < 2 ^ 60)
    (hsorted : calls.Pairwise fun x y => x.2 ≤ y.2) :
    ∃ b results, runPartial translateTimestamp {} calls = some (b, results) ∧
      (0 ≤ b.clipBiasUs ∧ b.clipBiasUs ≤ 300000) ∧ results.length = calls.length ∧
      (∀ x ∈ calls.zip results, x.2 ≤ x.1.2) ∧
      (calls.zip results).Pairwise fun x y =>
        x.2 ≤ y.2 ∧ (x.1.2 + 1000 ≤ y.1.2 → x.2 + 1000 ≤ y.2) := by
  have hs : Bounded {} 0 := by constructor <;> simp
  obtain ⟨b, results, hrun, hb, hl, hall, hp⟩ := runPartial_translateTimestamp hs
    hrange hsorted fun times h => (hrange times h).2.1
  exact ⟨b, results, hrun, hb, hl, fun x hx => (hall x hx).1, hp⟩

theorem translateTimestamp_monotone_drift : ∃ b results,
    runPartial translateTimestamp {} [(500, 1000), (700, 1000), (90000, 2500)] = some (b, results) ∧
      results.length = 3 ∧ b.clipBiasUs ≤ 300000 := by
  obtain ⟨b, results, hrun, hb, hl, -⟩ := translateTimestamp_monotone
    [(500, 1000), (700, 1000), (90000, 2500)] (by decide) (by decide)
  exact ⟨b, results, hrun, hl, hb.2⟩

end TimestampAligner

end WebRtcAudio.RtcBase
