import WebRtcAudio.Aec3.MatchedFilterLagAggregator
import WebRtcAudio.Core.CountedWindow
import WebRtcAudio.Core.Run

/-! What the histogram of `MatchedFilterLagAggregator` counts: its window starts with 250 entries
for lag 0 that are not counted. -/
namespace WebRtcAudio.Aec3.MatchedFilterLagAggregator

open WebRtcAudio.Core List Option

theorem maxElement_lt {l : List ℤ} (h : l ≠ []) : maxElement l < l.length := by
  obtain ⟨m, hm⟩ := Option.isSome_iff_exists.mp (isSome_max?_of_ne_nil h)
  obtain ⟨hmem, hle⟩ := max?_eq_some_iff.mp hm
  unfold maxElement
  rw [findIdx_lt_length]
  exact ⟨m, hmem, all_eq_true.mpr fun x hx => decide_eq_true (hle x hx)⟩

theorem le_getElem_maxElement {l : List ℤ} (h : maxElement l < l.length) {x : ℤ} (hx : x ∈ l) :
    x ≤ l[maxElement l] := by
  have hall := findIdx_getElem (w := h)
  exact of_decide_eq_true (all_eq_true.mp hall x hx)

theorem maxElement_eq_zero {a : ℤ} {l : List ℤ} (h : ∀ x ∈ a :: l, x ≤ a) :
    maxElement (a :: l) = 0 := by
  unfold maxElement
  rw [findIdx_cons, all_eq_true.mpr fun x hx => decide_eq_true (h x hx)]
  rfl

inductive Call (F : Type)
  | reset (hardReset : Bool)
  | aggregate (lagEstimates : List (LagEstimate F))

variable {F : Type} [Zero F] [LT F] [DecidableLT F]

def step (a : MatchedFilterLagAggregator) :
    Call F → Option (MatchedFilterLagAggregator × Option DelayEstimate)
  | .reset hardReset => some (a.reset hardReset, none)
  | .aggregate lagEstimates => a.aggregate lagEstimates

def Call.select (lags : List ℕ) : Call F → List ℕ
  | .reset _ => []
  | .aggregate lagEstimates => lags ++ ((bestLagEstimate lagEstimates).map LagEstimate.lag).toList

def selectedLags (calls : List (Call F)) : List ℕ := calls.foldl Call.select []

def recent (lags : List ℕ) : List ℕ := lags.drop (lags.length - histogramDataSize)

/-- A selected lag has a bin and fits in an `int`, which the `RTC_DCHECK`s of `Aggregate` check. -/
def Permitted (maxFilterLag : ℕ) : Call F → Prop
  | .reset _ => True
  | .aggregate lagEstimates =>
    ∀ best ∈ bestLagEstimate lagEstimates, best.lag ≤ maxFilterLag ∧ best.lag < 2 ^ 31

instance (maxFilterLag : ℕ) : DecidablePred (Permitted (F := F) maxFilterLag)
  | .reset _ => inferInstanceAs (Decidable True)
  | .aggregate lagEstimates => Option.decidableForallMem (bestLagEstimate lagEstimates)

def window (lags : List ℕ) : List ℕ :=
  (replicate histogramDataSize 0 ++ lags).drop lags.length

def binStart (k : ℕ) : ℤ := if k = 0 then -histogramDataSize else 0

theorem window_eq (lags : List ℕ) :
    window lags = replicate (histogramDataSize - lags.length) 0 ++ recent lags :=
  drop_replicate_append histogramDataSize 0 lags

theorem length_window (lags : List ℕ) : (window lags).length = histogramDataSize := by
  rw [window, length_drop, length_append, length_replicate]
  omega

theorem window_concat (lags : List ℕ) (lag : ℕ) :
    (window lags).tail ++ [lag] = window (lags ++ [lag]) :=
  tail_drop_replicate_append histogramDataSize 0 lag lags (by decide)

theorem length_recent (lags : List ℕ) :
    (recent lags).length = min lags.length histogramDataSize := by
  rw [recent, length_drop]
  omega

/-- The histogram counts the lags in the window, and the data are the window. -/
structure Counts (maxFilterLag : ℕ) (lags : List ℕ) (a : MatchedFilterLagAggregator) : Prop where
  histogram_eq : a.histogram = tally binStart (maxFilterLag + 1) (window lags)
  index_lt : a.histogramDataIndex < histogramDataSize
  length_data : a.histogramData.length = histogramDataSize
  data_eq : a.histogramData.rotate a.histogramDataIndex = (window lags).map Nat.cast
  lags_le : ∀ lag ∈ lags, lag ≤ maxFilterLag

variable {maxFilterLag lag k : ℕ} {lags : List ℕ} {a : MatchedFilterLagAggregator}

section
variable (h : Counts maxFilterLag lags a)
include h

theorem Counts.mem_window_lt (hlag : lag ∈ window lags) : lag < maxFilterLag + 1 := by
  rw [window] at hlag
  rcases mem_append.mp (mem_of_mem_drop hlag) with hz | hmem
  · rw [eq_of_mem_replicate hz]
    omega
  · exact Nat.lt_succ_of_le (h.lags_le lag hmem)

theorem Counts.mem_recent_lt (hlag : lag ∈ recent lags) : lag < maxFilterLag + 1 :=
  Nat.lt_succ_of_le (h.lags_le lag (mem_of_mem_drop hlag))

theorem Counts.bin_eq (hk : k ≠ 0) (hle : k ≤ maxFilterLag) :
    a.histogram[k]? = some ((recent lags).count k : ℤ) := by
  rw [h.histogram_eq, getElem?_tally (Nat.lt_succ_of_le hle), binStart, if_neg hk, window_eq,
    count_append, count_replicate, if_neg (by simpa using Ne.symm hk), Int.zero_add,
    Nat.zero_add]

theorem Counts.bin_zero_eq :
    a.histogram[0]? =
      some ((recent lags).count 0 - (min lags.length histogramDataSize : ℕ) : ℤ) := by
  rw [h.histogram_eq, getElem?_tally (Nat.succ_pos maxFilterLag), binStart, if_pos rfl, window_eq,
    count_append, count_replicate_self, some.injEq]
  omega

theorem Counts.sum_eq : a.histogram.sum = 0 := by
  rw [h.histogram_eq, sum_tally fun lag hlag => h.mem_window_lt hlag, length_window]
  have hs : ((range (maxFilterLag + 1)).map binStart).sum = -histogramDataSize := by
    rw [range_succ_eq_map, map_cons, sum_cons, List.map_map, binStart, if_pos rfl]
    have hz : ∀ x ∈ (List.range maxFilterLag).map (binStart ∘ Nat.succ), x = 0 := by
      intro x hx
      obtain ⟨k, -, rfl⟩ := mem_map.mp hx
      rw [Function.comp_apply, binStart, if_neg (Nat.succ_ne_zero k)]
    rw [sum_eq_zero hz, Int.add_zero]
  rw [hs]
  omega

theorem Counts.insertLag (hle : lag ≤ maxFilterLag) (hfits : lag < 2 ^ 31) :
    ∃ a', a.insertLag lag = some a' ∧ Counts maxFilterLag (lags ++ [lag]) a' := by
  obtain ⟨oldest, rest, hwin⟩ : ∃ oldest rest, window lags = oldest :: rest :=
    exists_cons_of_length_pos (by rw [length_window]; decide)
  have hco : rest ++ [lag] = window (lags ++ [lag]) := by
    rw [← window_concat, hwin, tail_cons]
  have hi : a.histogramDataIndex < a.histogramData.length := by
    rw [h.length_data]
    exact h.index_lt
  have hint : toInt32 (lag : ℤ) = lag := toInt32_eq_self (by omega)
  have hol : Memory.read a.histogramData a.histogramDataIndex = some (oldest : ℤ) := by
    rw [Memory.read_natCast, ← head?_rotate hi, h.data_eq, hwin]
    rfl
  have hlt : oldest < maxFilterLag + 1 :=
    h.mem_window_lt (hwin ▸ mem_cons_self)
  have hlast : ∀ l ∈ lags ++ [lag], l ≤ maxFilterLag := by
    intro l hl
    rcases mem_append.mp hl with hl | hl
    · exact h.lags_le l hl
    · exact mem_singleton.mp hl ▸ hle
  refine ⟨{ a with
    histogram := tally binStart (maxFilterLag + 1) (rest ++ [lag])
    histogramData := a.histogramData.set a.histogramDataIndex lag
    histogramDataIndex := (a.histogramDataIndex + 1) % histogramDataSize }, ?_, ?_⟩
  · -- Both halves of the update change one bin of the tally.
    unfold MatchedFilterLagAggregator.insertLag
    simp only [bind_eq_bind]
    rw [hol, h.histogram_eq, hwin, hint, bind_some, Memory.read_natCast,
      getElem?_tally hlt, bind_some, Memory.write_natCast (by rwa [length_tally]),
      bind_some, tally_leave, Memory.write_natCast hi, bind_some,
      Memory.read_natCast, getElem?_set_self hi, bind_some, Memory.read_natCast,
      getElem?_tally (Nat.lt_succ_of_le hle), bind_some,
      Memory.write_natCast (by rw [length_tally]; omega), bind_some, tally_enter]
    rfl
  · refine ⟨by rw [hco], Nat.mod_lt _ (by decide), ?_, ?_, hlast⟩
    · rw [length_set, h.length_data]
    · have hmod : (a.histogramDataIndex + 1) % histogramDataSize =
          (a.histogramDataIndex + 1) %
            (a.histogramData.set a.histogramDataIndex (lag : ℤ)).length := by
        rw [length_set, h.length_data]
      rw [hmod, rotate_mod, rotate_set hi, h.data_eq, ← hco, hwin, map_cons,
        tail_cons, map_append, map_singleton]

end

/-- The candidate is a most frequent of the recent lags other than 0, or 0 if there is no other. -/
def IsCandidate (lags : List ℕ) (delay : ℕ) : Prop :=
  delay ∈ recent lags ∧ (∀ k ≠ 0, (recent lags).count k ≤ (recent lags).count delay) ∧
    (delay = 0 → ∀ lag ∈ recent lags, lag = 0)

section
variable (h : Counts maxFilterLag lags a)
include h

theorem Counts.histogram_ne_nil : a.histogram ≠ [] := by
  intro hnil
  have hlen : a.histogram.length = maxFilterLag + 1 := by rw [h.histogram_eq, length_tally]
  rw [hnil] at hlen
  exact absurd hlen (by simp)

theorem Counts.count_le {m : ℤ} (hm : ∀ x ∈ a.histogram, x ≤ m)
    (hk : k ≠ 0) (hmem : k ∈ recent lags) : ((recent lags).count k : ℤ) ≤ m :=
  hm _ (mem_of_getElem? (h.bin_eq hk (Nat.lt_succ_iff.mp (h.mem_recent_lt hmem))))

theorem Counts.maxElement_eq_zero
    (hz : ∀ lag ∈ recent lags, lag = 0) : maxElement a.histogram = 0 := by
  have hcount : (recent lags).count 0 = min lags.length histogramDataSize := by
    rw [← length_recent, count_eq_length]
    exact fun lag hlag => (hz lag hlag).symm
  have hf : a.histogram[0]? = some 0 := by
    rw [h.bin_zero_eq, hcount, Int.sub_self]
  obtain ⟨bin, bins, hc⟩ := exists_cons_of_ne_nil h.histogram_ne_nil
  rw [hc, getElem?_cons_zero, some.injEq] at hf
  rw [hc]
  apply MatchedFilterLagAggregator.maxElement_eq_zero
  intro x hx
  rw [← hc, h.histogram_eq] at hx
  obtain ⟨k, hk, rfl⟩ := mem_map.mp hx
  have hget : (tally binStart (maxFilterLag + 1) (window lags))[k]? =
      some (binStart k + (window lags).count k) := getElem?_tally (mem_range.mp hk)
  rw [← h.histogram_eq] at hget
  rw [hf]
  by_cases hk0 : k = 0
  · rw [hk0] at hget ⊢
    rw [hc, getElem?_cons_zero, some.injEq, hf] at hget
    omega
  · rw [h.bin_eq hk0 (Nat.lt_succ_iff.mp (mem_range.mp hk)), some.injEq] at hget
    rw [← hget, count_eq_zero.mpr fun hmem => hk0 (hz k hmem)]
    exact Int.le_refl 0

theorem Counts.isCandidate (hne : lags ≠ []) : IsCandidate lags (maxElement a.histogram) := by
  have hlt := maxElement_lt h.histogram_ne_nil
  by_cases hz : ∀ lag ∈ recent lags, lag = 0
  · rw [h.maxElement_eq_zero hz]
    obtain ⟨lag, rest, hcons⟩ : ∃ lag rest, recent lags = lag :: rest := by
      apply exists_cons_of_length_pos
      rw [length_recent]
      exact Nat.lt_min.mpr ⟨length_pos_iff.mpr hne, by decide⟩
    have hmem := hcons ▸ mem_cons_self
    refine ⟨hz lag hmem ▸ hmem, fun k hk => ?_, fun _ => hz⟩
    rw [count_eq_zero.mpr fun hmem => hk (hz k hmem)]
    exact Nat.zero_le _
  · -- A recent lag other than 0 makes the greatest bin positive, which the first one is not.
    push Not at hz
    obtain ⟨lag, hmem, hlag⟩ := hz
    have hmax : ∀ x ∈ a.histogram, x ≤ a.histogram[maxElement a.histogram] :=
      fun x hx => le_getElem_maxElement hlt hx
    have hpos := count_pos_iff.mpr hmem
    have hle := h.count_le hmax hlag hmem
    have hc := getElem?_eq_getElem hlt
    have hne0 : maxElement a.histogram ≠ 0 := by
      intro h0
      have hcount := count_le_length (a := 0) (l := recent lags)
      rw [length_recent] at hcount
      have hbin : a.histogram[maxElement a.histogram]? =
          some ((recent lags).count 0 - (min lags.length histogramDataSize : ℕ) : ℤ) := by
        rw [h0]
        exact h.bin_zero_eq
      rw [hc, some.injEq] at hbin
      omega
    have hbin := h.bin_eq hne0 (by
      rw [h.histogram_eq, length_tally] at hlt
      rw [h.histogram_eq]
      exact Nat.lt_succ_iff.mp hlt)
    rw [hc, some.injEq] at hbin
    refine ⟨count_pos_iff.mp (by omega), fun k hk => ?_, fun h0 => absurd h0 hne0⟩
    by_cases hkmem : k ∈ recent lags
    · have := h.count_le hmax hk hkmem
      omega
    · rw [count_eq_zero.mpr hkmem]
      exact Nat.zero_le _

theorem Counts.selectCandidate (hne : lags ≠ []) :
    ∃ a' answer, a.selectCandidate = some (a', answer) ∧ Counts maxFilterLag lags a' ∧
      ∀ estimate ∈ answer, IsCandidate lags estimate.delay := by
  have hlt := maxElement_lt h.histogram_ne_nil
  unfold MatchedFilterLagAggregator.selectCandidate
  dsimp only
  rw [Memory.read_natCast, getElem?_eq_getElem hlt]
  refine ⟨_, _, rfl, ⟨h.histogram_eq, h.index_lt, h.length_data, h.data_eq, h.lags_le⟩, ?_⟩
  intro estimate he
  obtain ⟨-, hs⟩ := Option.mem_ite_none_right.mp he
  cases hs
  exact h.isCandidate hne

end

theorem counts_nil (histogram_length : a.histogram = replicate (maxFilterLag + 1) 0)
    (hd : a.histogramData = replicate histogramDataSize 0)
    (hi : a.histogramDataIndex = 0) : Counts maxFilterLag [] a := by
  have hwin : window [] = replicate histogramDataSize 0 := by
    rw [window, append_nil, length_nil, drop_zero]
  refine ⟨?_, by rw [hi]; decide, by rw [hd, length_replicate], ?_, by simp⟩
  · rw [histogram_length, hwin, tally]
    symm
    rw [eq_replicate_iff]
    refine ⟨by simp, fun x hx => ?_⟩
    obtain ⟨k, -, rfl⟩ := mem_map.mp hx
    rw [binStart, count_replicate]
    by_cases hk : k = 0
    · rw [if_pos hk, if_pos (by simpa using hk.symm)]
      omega
    · rw [if_neg hk, if_neg (by simpa using Ne.symm hk)]
      rfl
  · rw [hd, hi, hwin, rotate_zero, map_replicate, Nat.cast_zero]

theorem Counts.step (h : Counts maxFilterLag lags a) {c : Call F} (hc : Permitted maxFilterLag c) :
    ∃ a' answer, step a c = some (a', answer) ∧ Counts maxFilterLag (c.select lags) a' ∧
      ∀ estimate ∈ answer, IsCandidate (c.select lags) estimate.delay := by
  cases c with
  | reset hardReset =>
    refine ⟨_, _, rfl, counts_nil ?_ rfl rfl, by simp⟩
    rw [MatchedFilterLagAggregator.reset, h.histogram_eq, length_tally]
  | aggregate lagEstimates =>
    simp only [MatchedFilterLagAggregator.step, aggregate, Call.select]
    cases hb : bestLagEstimate lagEstimates with
    | none => exact ⟨a, none, rfl, by simpa using h, by simp⟩
    | some best =>
      obtain ⟨hle, hf⟩ := hc best hb
      obtain ⟨a₁, hi, h₁⟩ := h.insertLag hle hf
      obtain ⟨a₂, answer, hs, h₂, ha⟩ := h₁.selectCandidate (by simp)
      refine ⟨a₂, answer, ?_, h₂, ha⟩
      simp only [hi, bind_eq_bind, bind_some, hs]

/-- After every sequence of calls, each bin but the first counts the recent lags, the first one
has been counted down once for each of them, and the lag returned is a most frequent of those
other than 0. -/
theorem histogram_counts_recent (maxFilterLag : ℕ) (thresholds : DelaySelectionThresholds)
    (calls : List (Call F)) (hcalls : ∀ c ∈ calls, Permitted maxFilterLag c) :
    ∃ a answers, runPartial step (new maxFilterLag thresholds) calls = some (a, answers) ∧
      a.histogram.length = maxFilterLag + 1 ∧ (∀ k, k ≠ 0 → k ≤ maxFilterLag →
        a.histogram[k]? = some ((recent (selectedLags calls)).count k : ℤ)) ∧
      a.histogram[0]? = some ((recent (selectedLags calls)).count 0 -
        (min (selectedLags calls).length 250 : ℕ) : ℤ) ∧ a.histogram.sum = 0 ∧
      ∀ estimate, answers.getLast? = some (some estimate) →
        IsCandidate (selectedLags calls) estimate.delay := by
  have hstart : Counts maxFilterLag [] (new maxFilterLag thresholds) := counts_nil rfl rfl rfl
  obtain ⟨a, answers, hrun, hcounts, hl⟩ := runPartial_history
    (fun cs (answers : List (Option DelayEstimate)) a => Counts maxFilterLag (selectedLags cs) a ∧
      ∀ estimate, answers.getLast? = some (some estimate) →
        IsCandidate (selectedLags cs) estimate.delay)
    ⟨hstart, by simp⟩ (fun cs answers a c h hc => by
      obtain ⟨a', answer, hstep, hcounts, ha⟩ := h.1.step hc
      have hs : selectedLags (cs ++ [c]) = c.select (selectedLags cs) := by
        rw [selectedLags, foldl_append, foldl_cons, foldl_nil, selectedLags]
      refine ⟨a', answer, hstep, hs ▸ hcounts, fun estimate he => ?_⟩
      rw [getLast?_concat, some.injEq] at he
      rw [hs]
      exact ha estimate he) hcalls
  exact ⟨a, answers, hrun, by rw [hcounts.histogram_eq, length_tally],
    fun k hk hle => hcounts.bin_eq hk hle, hcounts.bin_zero_eq, hcounts.sum_eq, hl⟩

def lagZeroCalls : List (Call ℚ) :=
  replicate 7 (.aggregate [⟨1, true, 0, true⟩]) ++
    replicate 6 (.aggregate [⟨1, true, 5, true⟩])

theorem histogram_counts_lagZeroCalls : (∀ c ∈ lagZeroCalls, Permitted 5 c) ∧ ∃ a answers,
      runPartial step (new 5 {}) lagZeroCalls = some (a, answers) ∧ a.histogram.length = 5 + 1 ∧
      (∀ k, k ≠ 0 → k ≤ 5 →
        a.histogram[k]? = some ((recent (selectedLags lagZeroCalls)).count k : ℤ)) ∧
      a.histogram[0]? = some ((recent (selectedLags lagZeroCalls)).count 0 -
        (min (selectedLags lagZeroCalls).length 250 : ℕ) : ℤ) ∧ a.histogram.sum = 0 ∧
      ∀ estimate, answers.getLast? = some (some estimate) →
        IsCandidate (selectedLags lagZeroCalls) estimate.delay :=
  ⟨by decide +kernel, histogram_counts_recent 5 {} lagZeroCalls (by decide +kernel)⟩

theorem histogram_not_count_of_lag_zero :
    ∃ a answers, runPartial step (new 5 {}) lagZeroCalls = some (a, answers) ∧
      a.histogram = [-6, 0, 0, 0, 0, 6] ∧ (selectedLags lagZeroCalls).length = 13 ∧
      answers.getLast? = some (some ⟨false, 5⟩) ∧ (recent (selectedLags lagZeroCalls)).count 5 = 6 ∧
      (recent (selectedLags lagZeroCalls)).count 0 = 7 := by
  refine ⟨((runPartial step (new 5 {}) lagZeroCalls).get (by decide +kernel)).1,
    ((runPartial step (new 5 {}) lagZeroCalls).get (by decide +kernel)).2, ?_⟩
  decide +kernel

end WebRtcAudio.Aec3.MatchedFilterLagAggregator
