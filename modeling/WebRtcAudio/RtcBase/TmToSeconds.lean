import Mathlib.Algebra.Order.BigOperators.Group.Finset
import Mathlib.Tactic.IntervalCases
import WebRtcAudio.Core.MachineInt

/-! `rtc::TmToSeconds`: leap days are counted by a formula, not year by year. -/
namespace WebRtcAudio.RtcBase

open WebRtcAudio.Core List

structure Tm where
  tmSec : ℤ
  tmMin : ℤ
  tmHour : ℤ
  tmMday : ℤ
  tmMon : ℤ
  tmYear : ℤ

def mdays : List ℤ := [31, 28, 31, 30, 31, 30, 31, 31, 30, 31, 30, 31]

def cumulMdays : List ℤ := [0, 31, 59, 90, 120, 151, 181, 212, 243, 273, 304, 334]

def tmToSeconds (tm : Tm) : Option ℤ := do
  let year ← int32? (tm.tmYear + 1900)
  let month := tm.tmMon
  let day ← int32? (tm.tmMday - 1)
  let expiryInLeapYear := year.tmod 4 = 0 ∧ (year.tmod 100 ≠ 0 ∨ year.tmod 400 = 0)
  if year < 1970 then some (-1)
  else if month < 0 ∨ month > 11 then some (-1)
  else if day < 0 ∨ day ≥ mdays.getD month.toNat 0 + if expiryInLeapYear ∧ month = 1 then 1 else 0
    then some (-1)
  else if tm.tmHour < 0 ∨ tm.tmHour > 23 then some (-1)
  else if tm.tmMin < 0 ∨ tm.tmMin > 59 then some (-1)
  else if tm.tmSec < 0 ∨ tm.tmSec > 59 then some (-1)
  else
    let day := day + cumulMdays.getD month.toNat 0
    let day := day + ((year.tdiv 4 - 1970 / 4) - (year.tdiv 100 - 1970 / 100) +
      (year.tdiv 400 - 1970 / 400))
    let day := if expiryInLeapYear ∧ month ≤ 1 then day - 1 else day
    some (((((year - 1970) * 365 + day) * 24 + tm.tmHour) * 60 + tm.tmMin) * 60 + tm.tmSec)

def Leap (year : ℤ) : Prop := year % 4 = 0 ∧ (year % 100 ≠ 0 ∨ year % 400 = 0)

instance (year : ℤ) : Decidable (Leap year) := inferInstanceAs (Decidable (_ ∧ _))

def monthDays (year : ℤ) : List ℤ :=
  [31, if Leap year then 29 else 28, 31, 30, 31, 30, 31, 31, 30, 31, 30, 31]

/-- The days of the years from 1970 on, before the one that comes after `years` of them. -/
def daysOfYears (years : ℕ) : ℤ := ∑ i ∈ Finset.range years, (monthDays (1970 + i)).sum

namespace Tm

def year (tm : Tm) : ℤ := tm.tmYear + 1900

structure Valid (tm : Tm) : Prop where
  mon : 0 ≤ tm.tmMon ∧ tm.tmMon ≤ 11
  mday : 1 ≤ tm.tmMday ∧ tm.tmMday ≤ (monthDays tm.year).getD tm.tmMon.toNat 0
  hour : 0 ≤ tm.tmHour ∧ tm.tmHour ≤ 23
  min : 0 ≤ tm.tmMin ∧ tm.tmMin ≤ 59
  sec : 0 ≤ tm.tmSec ∧ tm.tmSec ≤ 59

def days (tm : Tm) : ℤ :=
  daysOfYears (tm.year - 1970).toNat + ((monthDays tm.year).take tm.tmMon.toNat).sum +
    (tm.tmMday - 1)

def seconds (tm : Tm) : ℤ := ((tm.days * 24 + tm.tmHour) * 60 + tm.tmMin) * 60 + tm.tmSec

structure InRange (tm : Tm) : Prop where
  year : 1970 ≤ tm.year ∧ tm.tmYear ≤ 2 ^ 31 - 1901
  mday : -2 ^ 31 < tm.tmMday ∧ tm.tmMday < 2 ^ 31

end Tm

theorem sum_monthDays (year : ℤ) : (monthDays year).sum = if Leap year then 366 else 365 := by
  unfold monthDays
  split <;> rfl

theorem daysOfYears_eq {year : ℤ} (h : 1970 ≤ year) : daysOfYears (year - 1970).toNat =
    (year - 1970) * 365 + (year / 4 - 492 - (year / 100 - 19) + (year / 400 - 4)) -
      if Leap year then 1 else 0 := by
  induction year, h using Int.leInduction with
  | base => decide
  | succ year h ih =>
    rw [show (year + 1 - 1970).toNat = (year - 1970).toNat + 1 by omega, daysOfYears,
      Finset.sum_range_succ, ← daysOfYears, ih, sum_monthDays, Int.toNat_of_nonneg (by omega),
      add_sub_cancel]
    split_ifs with hthis hn hn <;> unfold Leap at * <;> omega

theorem take_monthDays {month : ℤ} (h0 : 0 ≤ month) (h11 : month ≤ 11) (year : ℤ) :
    ((monthDays year).take month.toNat).sum =
        cumulMdays.getD month.toNat 0 + (if Leap year ∧ 2 ≤ month then 1 else 0) ∧
      (monthDays year).getD month.toNat 0 =
        mdays.getD month.toNat 0 + (if Leap year ∧ month = 1 then 1 else 0) := by
  unfold monthDays
  by_cases h : Leap year <;> simp only [h] <;> interval_cases month <;> exact ⟨rfl, rfl⟩

theorem Tm.InRange.tmToSeconds_eq {tm : Tm} (h : tm.InRange) :
    (tm.Valid → tmToSeconds tm = some tm.seconds) ∧ (¬ tm.Valid → tmToSeconds tm = some (-1)) := by
  obtain ⟨⟨hlow, hhigh⟩, hmday⟩ := h
  have hy : tm.tmYear + 1900 = tm.year := rfl
  have hleap : (tm.year.tmod 4 = 0 ∧ (tm.year.tmod 100 ≠ 0 ∨ tm.year.tmod 400 = 0)) =
      Leap tm.year := by
    have hmod (b : ℤ) := Int.tmod_eq_emod_of_nonneg (b := b) (show 0 ≤ tm.year by omega)
    rw [hmod, hmod, hmod, Leap]
  rw [tmToSeconds, hy, int32?_bind (by omega), int32?_bind (by omega)]
  simp only [hleap, Int.tdiv_eq_ediv_of_nonneg (show 0 ≤ tm.year by omega)]
  rw [if_neg (by omega)]
  constructor
  · rintro ⟨hmonth, hmd, hhour, hmin, hs⟩
    obtain ⟨ht, hget⟩ := take_monthDays hmonth.1 hmonth.2 tm.year
    rw [hget] at hmd
    rw [if_neg (by omega), if_neg (by omega), if_neg (by omega), if_neg (by omega),
      if_neg (by omega), Tm.seconds, Tm.days, ht, daysOfYears_eq hlow]
    refine congrArg some ?_
    by_cases hl : Leap tm.year <;> simp only [hl, true_and, false_and, if_true, if_false]
    · split_ifs <;> omega
    · omega
  · intro hi
    split
    · rfl
    next hmonth =>
    have hm : 0 ≤ tm.tmMon ∧ tm.tmMon ≤ 11 := by omega
    obtain ⟨-, hget⟩ := take_monthDays hm.1 hm.2 tm.year
    rw [← hget]
    split_ifs
    iterate 4 rfl
    all_goals exact (hi ⟨hm, by omega, by omega, by omega, by omega⟩).elim

theorem take_monthDays_le {m m' : ℕ} (h : m < m') (h' : m' ≤ 12) (year : ℤ) :
    0 ≤ ((monthDays year).take m).sum ∧ ((monthDays year).take m).sum +
      (monthDays year).getD m 0 ≤ ((monthDays year).take m').sum := by
  unfold monthDays
  split <;> interval_cases m' <;> interval_cases m <;> decide

theorem daysOfYears_le {m n : ℕ} (h : m ≤ n) : daysOfYears m ≤ daysOfYears n := by
  refine Finset.sum_le_sum_of_subset_of_nonneg (Finset.range_mono h) fun i _ _ => ?_
  rw [sum_monthDays]
  split <;> decide

def Tm.fields (tm : Tm) : List ℤ :=
  [tm.tmYear, tm.tmMon, tm.tmMday, tm.tmHour, tm.tmMin, tm.tmSec]

theorem Tm.Valid.seconds_lt {a b : Tm} (ha : a.Valid) (hb : b.Valid) (hyear : 1970 ≤ a.year)
    (h : a.fields < b.fields) : a.seconds < b.seconds := by
  obtain ⟨hamon, hamday, hahour, hamin, hasec⟩ := ha
  obtain ⟨hbmon, hbmday, hbhour, hbmin, hbsec⟩ := hb
  obtain ⟨-, harest⟩ := take_monthDays_le (by omega : a.tmMon.toNat < 12) le_rfl a.year
  obtain ⟨hbfirst, -⟩ := take_monthDays_le (by omega : b.tmMon.toNat < 12) le_rfl b.year
  simp only [fields, cons_lt_cons_iff, lt_self_iff_false, and_false, or_false] at h
  unfold seconds days
  obtain hlt | ⟨heq, h⟩ := h
  · -- the rest of the year of the first date lies between
    have hy : daysOfYears ((a.year - 1970).toNat + 1) ≤ daysOfYears (b.year - 1970).toNat :=
      daysOfYears_le (by unfold year at *; omega)
    rw [daysOfYears, Finset.sum_range_succ, ← daysOfYears, Int.toNat_of_nonneg (by omega),
      add_sub_cancel, ← (take_of_length_le le_rfl : (monthDays a.year).take 12 = _)] at hy
    omega
  have hs : b.year = a.year := by rw [year, year, heq]
  rw [hs] at hbmday ⊢
  obtain hm | ⟨hm, h⟩ := h
  · obtain ⟨-, hmonth⟩ :=
      take_monthDays_le (by omega : a.tmMon.toNat < b.tmMon.toNat) (by omega) a.year
    omega
  · rw [← hm]
    obtain hday | ⟨hday, hh | ⟨hh, hmin | ⟨hmin, hsec⟩⟩⟩ := h <;> omega

/-- Valid fields give the seconds since 1970, in the order of the dates, and others `-1`. -/
theorem tmToSeconds_spec (tm : Tm) (h : tm.InRange) :
    (tm.Valid → tmToSeconds tm = some tm.seconds) ∧ (¬ tm.Valid → tmToSeconds tm = some (-1)) ∧
      ∀ later : Tm, later.InRange → tm.Valid → later.Valid → tm.fields < later.fields →
        ∃ s t, tmToSeconds tm = some s ∧ tmToSeconds later = some t ∧ s < t := by
  obtain ⟨hv, hi⟩ := h.tmToSeconds_eq
  refine ⟨hv, hi, fun later hl htm hval hlt => ?_⟩
  exact ⟨_, _, hv htm, hl.tmToSeconds_eq.1 hval, htm.seconds_lt hval h.year.1 hlt⟩

theorem tmToSeconds_spec_leapDay :
    tmToSeconds ⟨1, 2, 3, 29, 1, 100⟩ = some (Tm.seconds ⟨1, 2, 3, 29, 1, 100⟩) ∧
      Tm.seconds ⟨1, 2, 3, 29, 1, 100⟩ = 951793321 :=
  ⟨(tmToSeconds_spec ⟨1, 2, 3, 29, 1, 100⟩ (by constructor <;> decide)).1
    (by constructor <;> decide),
    by decide +kernel⟩

end WebRtcAudio.RtcBase
