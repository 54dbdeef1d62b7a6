import WebRtcAudio.NetEq.DtmfBuffer

/-! Moving all timestamps of a run of the DTMF buffer by a constant. -/
namespace WebRtcAudio.NetEq

open WebRtcAudio.Core

def DtmfEvent.shift (c : UInt32) (event : DtmfEvent) : DtmfEvent :=
  { event with timestamp := event.timestamp + c }

section Shift

variable (c : UInt32) (event : DtmfEvent)

@[simp] theorem DtmfEvent.timestamp_shift : (event.shift c).timestamp = event.timestamp + c := rfl

@[simp] theorem DtmfEvent.duration_shift : (event.shift c).duration = event.duration := rfl

@[simp] theorem DtmfEvent.endBit_shift : (event.shift c).endBit = event.endBit := rfl

end Shift

namespace DtmfBuffer

open DtmfEvent

def shift (c : UInt32) (s : DtmfBuffer) : DtmfBuffer :=
  { s with buffer := s.buffer.map (DtmfEvent.shift c) }

def Call.shift (c : UInt32) : Call → Call
  | .insertEvent event => .insertEvent (event.shift c)
  | .getEvent currentTimestamp => .getEvent (currentTimestamp + c)

def Result.shift (c : UInt32) : Result → Result
  | .inserted code => .inserted code
  | .got event => .got (event.map (DtmfEvent.shift c))

theorem sameEvent_shift (c : UInt32) (a b : DtmfEvent) :
    sameEvent (a.shift c) (b.shift c) = sameEvent a b := by
  exact congrArg (decide (a.eventNo = b.eventNo) && ·)
    (decide_eq_decide.mpr (UInt32.add_left_inj c))

theorem compareEvents_shift (c : UInt32) (a b : DtmfEvent) :
    compareEvents (a.shift c) (b.shift c) = compareEvents a b := by
  have hd : b.timestamp + c - (a.timestamp + c) = b.timestamp - a.timestamp := by grind
  have hts : a.timestamp + c = b.timestamp + c ↔ a.timestamp = b.timestamp := UInt32.add_left_inj c
  unfold compareEvents DtmfEvent.shift
  by_cases heq : a.timestamp = b.timestamp
  · rw [if_pos heq, if_pos (hts.mpr heq)]
  · rw [if_neg heq, if_neg (mt hts.mp heq), hd]

theorem sort_shift (c : UInt32) (events : List DtmfEvent) :
    sort (events.map (DtmfEvent.shift c)) = (sort events).map (DtmfEvent.shift c) := by
  refine (List.map_insertionSort _ _ _ events fun a _ b _ => ?_).symm
  rw [compareEvents_shift]

theorem mergeInto_shift (c : UInt32) (events : List DtmfEvent) (event : DtmfEvent) :
    mergeInto (events.map (DtmfEvent.shift c)) (event.shift c) =
      (mergeInto events event).map (List.map (DtmfEvent.shift c)) := by
  induction events with
  | nil => rfl
  | cons it events ih =>
    simp only [List.map_cons, mergeInto, sameEvent_shift, ih]
    by_cases hsame : sameEvent it event = true
    · simp [hsame, merge, DtmfEvent.shift]
    · simp [hsame, Function.comp_def]

theorem insertEvent_shift (c : UInt32) (s : DtmfBuffer) (event : DtmfEvent) :
    (s.shift c).insertEvent (event.shift c) =
      ((s.insertEvent event).1.shift c, (s.insertEvent event).2) := by
  have hinv : (event.shift c).invalidParameters ↔ event.invalidParameters := Iff.rfl
  unfold insertEvent
  by_cases hbad : event.invalidParameters
  · rw [if_pos hbad, if_pos (hinv.mpr hbad)]
  · rw [if_neg hbad, if_neg (mt hinv.mp hbad)]
    have hm := mergeInto_shift c s.buffer event
    rw [show (s.shift c).buffer = s.buffer.map (DtmfEvent.shift c) from rfl, hm]
    cases mergeInto s.buffer event with
    | some merged => rfl
    | none =>
      have hsort := sort_shift c (s.buffer ++ [event])
      rw [List.map_append] at hsort
      exact congrArg (fun events => ({ s with buffer := events }, DtmfCode.ok)) hsort

def Moves (c : UInt32) (δ : ℤ) (t : UInt32) : Prop := ((t + c).toNat : ℤ) = t.toNat + δ

section Moves

variable {c s t : UInt32} {δ : ℤ}

theorem Moves.le_iff (hs : Moves c δ s) (ht : Moves c δ t) : s + c ≤ t + c ↔ s ≤ t := by
  unfold Moves at hs ht
  rw [UInt32.le_iff_toNat_le, UInt32.le_iff_toNat_le]
  omega

theorem Moves.lt_iff (hs : Moves c δ s) (ht : Moves c δ t) : s + c < t + c ↔ s < t := by
  unfold Moves at hs ht
  rw [UInt32.lt_iff_toNat_lt, UInt32.lt_iff_toNat_lt]
  omega

theorem Moves.add {d : UInt32} (ht : Moves c δ t) (hd : t.toNat + d.toNat < 2 ^ 32)
    (hd' : (t + c).toNat + d.toNat < 2 ^ 32) : Moves c δ (t + d) := by
  unfold Moves at *
  rw [UInt32.toNat_add] at ht hd' ⊢
  rw [UInt32.toNat_add]
  omega

theorem Moves.of_near (hs : Moves c δ s) (h : (t.toNat : ℤ) - s.toNat < 2 ^ 31)
    (h' : (s.toNat : ℤ) - t.toNat < 2 ^ 31) (hc : ((t + c).toNat : ℤ) - (s + c).toNat < 2 ^ 31)
    (hc' : ((s + c).toNat : ℤ) - (t + c).toNat < 2 ^ 31) : Moves c δ t := by
  unfold Moves at *
  rw [UInt32.toNat_add] at *
  rw [UInt32.toNat_add] at hc hc'
  omega

end Moves

structure EventMoves (c : UInt32) (δ : ℤ) (maxExtrapolationSamples : ℕ) (it : DtmfEvent) :
    Prop where
  start : Moves c δ it.timestamp
  finish : Moves c δ (eventEnd maxExtrapolationSamples it none).1

variable {q c : UInt32}

section Lookup

variable {c : UInt32} {δ : ℤ} {m : ℕ}

theorem eventEnd_shift {it : DtmfEvent} {next : Option DtmfEvent} (hit : EventMoves c δ m it)
    (hn : ∀ event ∈ next, Moves c δ event.timestamp) :
    eventEnd m (it.shift c) (next.map (DtmfEvent.shift c)) =
        ((eventEnd m it next).1 + c, (eventEnd m it next).2) ∧
      Moves c δ (eventEnd m it next).1 := by
  have hc : ∀ d : UInt32, it.timestamp + c + d = it.timestamp + d + c := by grind
  have hc' : ∀ d e : UInt32, it.timestamp + d + c + e = it.timestamp + d + e + c := by grind
  obtain ⟨hstart, hfi⟩ := hit
  rcases hend : it.endBit with _ | _
  · cases next with
    | none => exact ⟨by simp [eventEnd, DtmfEvent.shift, hend, hc, hc'], hfi⟩
    | some event =>
      have he := hn event rfl
      simp only [eventEnd, hend, Bool.not_false, if_true] at hfi
      simp only [eventEnd, DtmfEvent.shift, hend, Option.map_some, Bool.not_false, if_true,
        hc, hc', he.lt_iff hfi]
      split_ifs
      · exact ⟨rfl, he⟩
      · exact ⟨rfl, hfi⟩
  · refine ⟨by simp [eventEnd, DtmfEvent.shift, hend, hc], ?_⟩
    simpa [eventEnd, hend] using hfi

theorem getEventFrom_shift {frame : ℕ} (hq : Moves c δ q)
    (hf : Moves c δ (q + UInt32.ofNat frame)) {events : List DtmfEvent}
    (hev : ∀ event ∈ events, EventMoves c δ m event) :
    getEventFrom m frame (q + c) (events.map (DtmfEvent.shift c)) =
      ((getEventFrom m frame q events).1.map (DtmfEvent.shift c),
        (getEventFrom m frame q events).2.map (DtmfEvent.shift c)) := by
  induction events with
  | nil => rfl
  | cons it events ih =>
    have hit := hev it List.mem_cons_self
    have ih := ih fun event h => hev event (List.mem_cons_of_mem it h)
    have hn : ∀ event ∈ events.head?, Moves c δ event.timestamp := fun event h =>
      (hev event (List.mem_cons_of_mem it (List.mem_of_head? h))).start
    obtain ⟨hend, hm⟩ := eventEnd_shift hit hn
    have hadd : q + c + UInt32.ofNat frame = q + UInt32.ofNat frame + c := by grind
    simp only [List.map_cons, getEventFrom, List.head?_map, hend]
    generalize eventEnd m it events.head? = e at hm ⊢
    rw [timestamp_shift, endBit_shift, hadd]
    simp only [hit.start.le_iff hq, hq.le_iff hm, hm.le_iff hf, hm.lt_iff hq, ih]
    split_ifs <;> rfl

end Lookup

/-- `GetEvent` at `currentTimestamp` compares no numbers that wrap around: neither the end of an
event nor that of the frame is `2 ^ 32` or more, and no event is on the other side of the wrap. -/
structure Unwrapped (s : DtmfBuffer) (currentTimestamp : UInt32) : Prop where
  frame : currentTimestamp.toNat + s.frameLenSamples < 2 ^ 32
  finish : ∀ it ∈ s.buffer, (it.timestamp.toNat : ℤ) + it.duration +
    (if it.endBit then 0 else s.maxExtrapolationSamples) < 2 ^ 32
  behind : ∀ it ∈ s.buffer, (it.timestamp.toNat : ℤ) - currentTimestamp.toNat < 2 ^ 31
  ahead : ∀ it ∈ s.buffer, (currentTimestamp.toNat : ℤ) - it.timestamp.toNat < 2 ^ 31

def Durations (s : DtmfBuffer) : Prop := ∀ it ∈ s.buffer, 0 < it.duration ∧ it.duration ≤ 65535

theorem mem_mergeInto {events merged : List DtmfEvent} {event it : DtmfEvent}
    (h : mergeInto events event = some merged) (hit : it ∈ merged) :
    it ∈ events ∨ ∃ old ∈ events, it = merge old event := by
  induction events generalizing merged with
  | nil => simp [mergeInto] at h
  | cons old events ih =>
    unfold mergeInto at h
    split_ifs at h with hsame
    · cases h
      rcases List.mem_cons.mp hit with rfl | hit
      · exact .inr ⟨old, List.mem_cons_self, rfl⟩
      · exact .inl (List.mem_cons_of_mem old hit)
    · obtain ⟨rest, hr, rfl⟩ := Option.map_eq_some_iff.mp h
      rcases List.mem_cons.mp hit with rfl | hit
      · exact .inl List.mem_cons_self
      · rcases ih hr hit with hold | ⟨old', hold, rfl⟩
        · exact .inl (List.mem_cons_of_mem old hold)
        · exact .inr ⟨old', List.mem_cons_of_mem old hold, rfl⟩

theorem Durations.insertEvent {s : DtmfBuffer} (h : s.Durations) (event : DtmfEvent) :
    (s.insertEvent event).1.Durations := by
  unfold DtmfBuffer.insertEvent
  by_cases hbad : event.invalidParameters
  · rw [if_pos hbad]
    exact h
  · rw [if_neg hbad]
    unfold invalidParameters at hbad
    intro it hit
    cases hm : mergeInto s.buffer event with
    | some merged =>
      rw [hm] at hit
      rcases mem_mergeInto hm hit with hit | ⟨old, hold, rfl⟩
      · exact h it hit
      · have := h old hold
        simp only [merge]
        split_ifs <;> omega
    | none =>
      rw [hm] at hit
      have hmem : it ∈ s.buffer ++ [event] := (List.mem_insertionSort _).mp hit
      rcases List.mem_append.mp hmem with hit | hit
      · exact h it hit
      · obtain rfl := List.mem_singleton.mp hit
        omega

theorem getEventFrom_sublist (m frame : ℕ) (q : UInt32) (events : List DtmfEvent) :
    (getEventFrom m frame q events).1.Sublist events := by
  induction events with
  | nil => exact List.Sublist.refl []
  | cons it events ih =>
    simp only [getEventFrom]
    split_ifs
    · exact List.sublist_cons_self it events
    · exact List.Sublist.refl _
    · exact List.sublist_cons_self it events
    · exact ih.trans (List.sublist_cons_self it events)
    · exact ih.cons_cons it

theorem Durations.step {s : DtmfBuffer} (h : s.Durations) (call : Call) :
    (s.step call).1.Durations := by
  cases call with
  | insertEvent event => exact h.insertEvent event
  | getEvent q => exact fun it hit => h it ((getEventFrom_sublist _ _ _ _).subset hit)

theorem toNat_ofInt_duration {duration : ℤ} (h : 0 < duration ∧ duration ≤ 65535) :
    ((UInt32.ofInt duration).toNat : ℤ) = duration := by
  rw [UInt32.ofInt, UInt32.toNat_ofNat']
  omega

theorem toNat_eventEnd {m : ℕ} {it : DtmfEvent} (hduration : 0 < it.duration ∧ it.duration ≤ 65535)
    (hfi : (it.timestamp.toNat : ℤ) + it.duration + (if it.endBit then 0 else m) < 2 ^ 32) :
    ∃ d : UInt32, (∀ t, (eventEnd m { it with timestamp := t } none).1 = t + d) ∧
      (d.toNat : ℤ) = it.duration + (if it.endBit then 0 else m) := by
  have hd := toNat_ofInt_duration hduration
  cases hend : it.endBit with
  | true => exact ⟨UInt32.ofInt it.duration, fun t => by simp [eventEnd], by simpa using hd⟩
  | false =>
    rw [hend] at hfi
    simp only [Bool.false_eq_true, if_false] at hfi
    refine ⟨UInt32.ofInt it.duration + UInt32.ofNat m, fun t => ?_, ?_⟩
    · simp [eventEnd, UInt32.add_assoc]
    · have hm : (UInt32.ofNat m).toNat = m := UInt32.toNat_ofNat_of_lt' (show m < 2 ^ 32 by omega)
      rw [UInt32.toNat_add, hm]
      simp only [Bool.false_eq_true, if_false]
      omega

section
variable {s : DtmfBuffer} (hs : s.Durations)
include hs

theorem Unwrapped.eventMoves {δ : ℤ} (h : s.Unwrapped q) (hc : (s.shift c).Unwrapped (q + c))
    (hq : Moves c δ q) : ∀ it ∈ s.buffer, EventMoves c δ s.maxExtrapolationSamples it := by
  intro it hit
  have hi : it.shift c ∈ (s.shift c).buffer := List.mem_map_of_mem hit
  have hb := hc.behind _ hi
  have ha := hc.ahead _ hi
  rw [timestamp_shift] at hb ha
  have hstart : Moves c δ it.timestamp :=
    hq.of_near (h.behind it hit) (h.ahead it hit) hb ha
  have hfi := h.finish it hit
  have hfin := hc.finish _ hi
  obtain ⟨d, hadd, hd⟩ := toNat_eventEnd (hs it hit) hfi
  refine ⟨hstart, ?_⟩
  rw [show (eventEnd _ it none).1 = it.timestamp + d from hadd it.timestamp]
  rw [timestamp_shift, duration_shift, endBit_shift,
    show (s.shift c).maxExtrapolationSamples = s.maxExtrapolationSamples from rfl] at hfin
  generalize (if it.endBit then 0 else (s.maxExtrapolationSamples : ℤ)) = extrapolation
    at hfi hfin hd
  apply hstart.add
  · omega
  · omega

theorem getEvent_shift (h : s.Unwrapped q) (hc : (s.shift c).Unwrapped (q + c)) :
    (s.shift c).getEvent (q + c) =
      ((s.getEvent q).1.shift c, (s.getEvent q).2.map (DtmfEvent.shift c)) := by
  obtain ⟨δ, hq⟩ : ∃ δ, Moves c δ q := ⟨(q + c).toNat - q.toNat, by unfold Moves; omega⟩
  have hlen : (UInt32.ofNat s.frameLenSamples).toNat = s.frameLenSamples :=
    UInt32.toNat_ofNat_of_lt' (Nat.lt_of_le_of_lt (Nat.le_add_left _ _) h.frame)
  have hf : Moves c δ (q + UInt32.ofNat s.frameLenSamples) := by
    apply hq.add
    · rw [hlen]
      exact h.frame
    · rw [hlen]
      exact hc.frame
  have hl := getEventFrom_shift hq hf (h.eventMoves hs hc hq)
  unfold getEvent
  simp only [DtmfBuffer.shift, hl]

theorem step_shift {call : Call}
    (h : ∀ q, call = .getEvent q → s.Unwrapped q ∧ (s.shift c).Unwrapped (q + c)) :
    (s.shift c).step (call.shift c) = ((s.step call).1.shift c, (s.step call).2.shift c) := by
  cases call with
  | insertEvent event =>
    simp only [step, Call.shift, insertEvent_shift]
    rfl
  | getEvent q =>
    obtain ⟨hq, hqc⟩ := h q rfl
    simp only [step, Call.shift, getEvent_shift hs hq hqc]
    rfl

theorem run_shift_from (c : UInt32) (calls : List Call)
    (h : ∀ before call after, calls = before ++ call :: after → ∀ q, call = .getEvent q →
      (runState step s before).Unwrapped q ∧
        (runState step (s.shift c) (before.map (Call.shift c))).Unwrapped (q + c)) :
    runState step (s.shift c) (calls.map (Call.shift c)) = (runState step s calls).shift c ∧
      runResults step (s.shift c) (calls.map (Call.shift c)) =
        (runResults step s calls).map (Result.shift c) := by
  induction calls generalizing s with
  | nil => exact ⟨rfl, rfl⟩
  | cons call calls ih =>
    rw [forall_split_cons] at h
    obtain ⟨hh, ht⟩ := h
    have hstep := step_shift hs hh
    rw [List.map_cons, runState_cons, runState_cons, runResults_cons, runResults_cons,
      List.map_cons, hstep]
    obtain ⟨hstate, hr⟩ := ih (hs.step call) fun before d after heq q hd => by
      have hq := ht before d after heq q hd
      rwa [List.map_cons, runState_cons, runState_cons, hstep] at hq
    exact ⟨hstate, congrArg _ hr⟩

end

/-- If at every `GetEvent` of a run and of the run with all timestamps moved by `c` the numbers that
it compares do not wrap around, the moved run ends in the moved state and returns the moved
results. -/
theorem run_shift (fs : SampleRate) (c : UInt32) (calls : List Call)
    (h : ∀ before q after, calls = before ++ .getEvent q :: after →
      (runState step (new fs) before).Unwrapped q ∧
        (runState step (new fs) (before.map (Call.shift c))).Unwrapped (q + c)) :
    runState step (new fs) (calls.map (Call.shift c)) = (runState step (new fs) calls).shift c ∧
      runResults step (new fs) (calls.map (Call.shift c)) =
        (runResults step (new fs) calls).map (Result.shift c) := by
  refine run_shift_from (s := new fs) (by simp [Durations, new]) c calls ?_
  rintro before _ after heq q rfl
  exact h before q after heq

def twoLookups : List Call :=
  [.insertEvent ⟨1000, 5, 10, 400, false⟩, .insertEvent ⟨1000, 5, 10, 800, true⟩,
    .insertEvent ⟨3000, 7, 10, 400, false⟩, .getEvent 1200, .getEvent 3100]

theorem run_shift_twoLookups :
    runState step (new .hz8000) (twoLookups.map (Call.shift 4000000000)) =
        (runState step (new .hz8000) twoLookups).shift 4000000000 ∧
      runResults step (new .hz8000) (twoLookups.map (Call.shift 4000000000)) =
        (runResults step (new .hz8000) twoLookups).map (Result.shift 4000000000) := by
  refine run_shift .hz8000 4000000000 twoLookups fun before q after heq => ?_
  -- the lookups are the fourth and the fifth call
  rcases before with _ | ⟨a, _ | ⟨b, _ | ⟨c, _ | ⟨d, _ | ⟨e, before⟩⟩⟩⟩⟩ <;>
    simp [twoLookups] at heq
  · obtain ⟨rfl, rfl, rfl, rfl, -⟩ := heq
    exact ⟨⟨by decide +kernel, by decide +kernel, by decide +kernel, by decide +kernel⟩,
      ⟨by decide +kernel, by decide +kernel, by decide +kernel, by decide +kernel⟩⟩
  · obtain ⟨rfl, rfl, rfl, rfl, rfl, -⟩ := heq
    exact ⟨⟨by decide +kernel, by decide +kernel, by decide +kernel, by decide +kernel⟩,
      ⟨by decide +kernel, by decide +kernel, by decide +kernel, by decide +kernel⟩⟩

def Call.timestamp : Call → UInt32
  | .insertEvent event => event.timestamp
  | .getEvent currentTimestamp => currentTimestamp

def straddlingCalls : List Call :=
  [.insertEvent ⟨4294967196, 5, 10, 1000, false⟩, .getEvent 4294967246, .getEvent 4294967246]

theorem run_not_shift : (∀ a ∈ straddlingCalls, ∀ b ∈ straddlingCalls,
        a.timestamp - b.timestamp ≤ 0x40000000 ∨ b.timestamp - a.timestamp ≤ 0x40000000) ∧
      (runResults step (new .hz8000) straddlingCalls).getLast? = some (.got none) ∧
      (runResults step (new .hz8000) (straddlingCalls.map (Call.shift 200))).getLast? =
        some (.got (some ⟨100, 5, 10, 1000, false⟩)) := by
  exact ⟨by decide +kernel, by decide +kernel, by decide +kernel⟩

end DtmfBuffer

end WebRtcAudio.NetEq
