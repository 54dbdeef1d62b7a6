import WebRtcAudio.Core.Run
import WebRtcAudio.NetEq.DecoderDatabase

/-! The registered formats, the active decoders and the objects of a `DecoderDatabase`. -/
namespace WebRtcAudio.NetEq

open WebRtcAudio.Core Option Function

structure SdpAudioFormat where
  name : String
  clockrateHz : ℤ
  numChannels : ℕ
  parameters : List (String × String)

def equalsIgnoreCase (a b : String) : Bool := a.toLower = b.toLower

namespace SdpAudioFormat

def same (a b : SdpAudioFormat) : Bool :=
  equalsIgnoreCase a.name b.name && a.clockrateHz = b.clockrateHz &&
    a.numChannels = b.numChannels && a.parameters = b.parameters

def subtype (format : SdpAudioFormat) : Subtype :=
  if equalsIgnoreCase format.name "CN" then .comfortNoise
  else if equalsIgnoreCase format.name "telephone-event" then .dtmf
  else if equalsIgnoreCase format.name "red" then .red
  else .normal

end SdpAudioFormat

/-- An entry of the map and whether it holds a decoder, which its factory makes when it is asked
for. -/
structure DatabaseEntry where
  format : SdpAudioFormat
  hasDecoder : Bool

structure ComfortNoiseDecoder where
  createdFor : UInt8
  deriving DecidableEq

inductive DatabaseReturnCode where
  | kOK
  | kInvalidRtpPayloadType
  | kDecoderExists
  | kDecoderNotFound
  deriving DecidableEq

structure ActiveDecoders where
  decoders : UInt8 → Option DatabaseEntry
  activeDecoderType : Option UInt8
  activeCngDecoderType : Option UInt8
  activeCngDecoder : Option ComfortNoiseDecoder

namespace ActiveDecoders

def init : ActiveDecoders := ⟨fun _ => none, none, none, none⟩

variable (s : ActiveDecoders)

def setEntry (t : UInt8) (entry : Option DatabaseEntry) : ActiveDecoders :=
  { s with decoders := update s.decoders t entry }

def registerPayload (rtpPayloadType : ℤ) (audioFormat : SdpAudioFormat) :
    ActiveDecoders × DatabaseReturnCode :=
  if rtpPayloadType < 0 ∨ 0x7f < rtpPayloadType then (s, .kInvalidRtpPayloadType)
  else if (s.decoders (.ofNat rtpPayloadType.toNat)).isSome then (s, .kDecoderExists)
  else (s.setEntry (.ofNat rtpPayloadType.toNat) (some ⟨audioFormat, false⟩), .kOK)

def remove (t : UInt8) : ActiveDecoders × DatabaseReturnCode :=
  if (s.decoders t).isNone then (s, .kDecoderNotFound)
  else
    ({ s.setEntry t none with
      activeDecoderType := if s.activeDecoderType = some t then none else s.activeDecoderType
      activeCngDecoderType :=
        if s.activeCngDecoderType = some t then none else s.activeCngDecoderType }, .kOK)

def changedPayloadTypes (codecs : UInt8 → Option SdpAudioFormat) : List UInt8 :=
  ((List.range 256).map UInt8.ofNat).filter fun t =>
    (s.decoders t).any fun entry => !(codecs t).any (·.same entry.format)

def enter (codecs : UInt8 → Option SdpAudioFormat) : ActiveDecoders :=
  { s with decoders := fun t => match s.decoders t with
    | some entry => some entry
    | none => (codecs t).map (⟨·, false⟩) }

def setCodecs (codecs : UInt8 → Option SdpAudioFormat) : ActiveDecoders × List UInt8 :=
  let changed := s.changedPayloadTypes codecs
  ((changed.foldl (fun s t => (s.remove t).1) s).enter codecs, changed)

def removeAll : ActiveDecoders :=
  { s with decoders := fun _ => none, activeDecoderType := none, activeCngDecoderType := none }

def dropDecoder (t : UInt8) : ActiveDecoders :=
  s.setEntry t ((s.decoders t).map ({ · with hasDecoder := false }))

def setActiveDecoder (t : UInt8) : Option (ActiveDecoders × DatabaseReturnCode × Option Bool) :=
  match s.decoders t with
  | none => some (s, .kDecoderNotFound, none)
  | some entry =>
    if entry.format.subtype = .comfortNoise then none
    else match s.activeDecoderType with
      | none => some ({ s with activeDecoderType := t }, .kOK, true)
      | some old =>
        if old = t then some (s, .kOK, false)
        else some ({ s.dropDecoder old with activeDecoderType := t }, .kOK, true)

def getActiveDecoder : ActiveDecoders × Option UInt8 :=
  match s.activeDecoderType with
  | none => (s, none)
  | some t =>
    match s.decoders t with
    | none => (s, none)
    | some entry =>
      if entry.format.subtype = .normal then
        (s.setEntry t (some { entry with hasDecoder := true }), some t)
      else (s, none)

def setActiveCngDecoder (t : UInt8) : ActiveDecoders × DatabaseReturnCode :=
  if (s.decoders t).isNone then (s, .kDecoderNotFound)
  else
    ({ s with
      activeCngDecoderType := t
      activeCngDecoder :=
        if s.activeCngDecoderType.any (· ≠ t) then none else s.activeCngDecoder }, .kOK)

def getActiveCngDecoder : ActiveDecoders × Option ComfortNoiseDecoder :=
  match s.activeCngDecoderType with
  | none => (s, none)
  | some t =>
    let decoder := s.activeCngDecoder.getD ⟨t⟩
    ({ s with activeCngDecoder := some decoder }, some decoder)

end ActiveDecoders

inductive DatabaseCall where
  | registerPayload (rtpPayloadType : ℤ) (audioFormat : SdpAudioFormat)
  | setCodecs (codecs : UInt8 → Option SdpAudioFormat)
  | remove (rtpPayloadType : UInt8)
  | removeAll
  | setActiveDecoder (rtpPayloadType : UInt8)
  | getActiveDecoder
  | setActiveCngDecoder (rtpPayloadType : UInt8)
  | getActiveCngDecoder

inductive DatabaseReply where
  | code (code : DatabaseReturnCode)
  | changed (payloadTypes : List UInt8)
  | done
  | active (code : DatabaseReturnCode) (newDecoder : Option Bool)
  | decoder (decoder : Option UInt8)
  | cngDecoder (decoder : Option ComfortNoiseDecoder)
  deriving DecidableEq

namespace ActiveDecoders

def step (s : ActiveDecoders) : DatabaseCall → Option (ActiveDecoders × DatabaseReply)
  | .registerPayload t format => let r := s.registerPayload t format; some (r.1, .code r.2)
  | .setCodecs codecs => let r := s.setCodecs codecs; some (r.1, .changed r.2)
  | .remove t => let r := s.remove t; some (r.1, .code r.2)
  | .removeAll => some (s.removeAll, .done)
  | .setActiveDecoder t => (s.setActiveDecoder t).map fun r => (r.1, .active r.2.1 r.2.2)
  | .getActiveDecoder => let r := s.getActiveDecoder; some (r.1, .decoder r.2)
  | .setActiveCngDecoder t => let r := s.setActiveCngDecoder t; some (r.1, .code r.2)
  | .getActiveCngDecoder => let r := s.getActiveCngDecoder; some (r.1, .cngDecoder r.2)

/-- Active types are registered, and only the active one has a decoder. -/
structure Consistent (s : ActiveDecoders) : Prop where
  active : ∀ t, s.activeDecoderType = some t → (s.decoders t).isSome
  cng : ∀ t, s.activeCngDecoderType = some t → (s.decoders t).isSome
  decoder : ∀ t entry, s.decoders t = some entry → entry.hasDecoder = true →
    s.activeDecoderType = some t

variable {s : ActiveDecoders} {t : ActiveDecoders} {c : DatabaseCall} {r : DatabaseReply}

section
variable (h : Consistent s)
include h

theorem Consistent.setEntry {t : UInt8} {entry : DatabaseEntry}
    (hentry : entry.hasDecoder = true → s.activeDecoderType = some t) :
    Consistent (s.setEntry t (some entry)) := by
  obtain ⟨ha, hcng, hde⟩ := h
  constructor <;> simp only [ActiveDecoders.setEntry, update_apply] <;> grind

theorem Consistent.remove (t : UInt8) : Consistent (s.remove t).1 := by
  obtain ⟨ha, hcng, hde⟩ := h
  unfold ActiveDecoders.remove
  split
  · exact ⟨ha, hcng, hde⟩
  · constructor <;> simp only [ActiveDecoders.setEntry, update_apply] <;> grind

theorem Consistent.enter (codecs : UInt8 → Option SdpAudioFormat) :
    Consistent (s.enter codecs) := by
  obtain ⟨ha, hcng, hde⟩ := h
  constructor <;> simp only [ActiveDecoders.enter] <;> grind [map_eq_some_iff]

theorem Consistent.setActiveDecoder {t : UInt8}
    {r : ActiveDecoders × DatabaseReturnCode × Option Bool}
    (hr : s.setActiveDecoder t = some r) : Consistent r.1 := by
  obtain ⟨ha, hcng, hde⟩ := h
  unfold ActiveDecoders.setActiveDecoder at hr
  split at hr
  · cases hr
    exact ⟨ha, hcng, hde⟩
  · split_ifs at hr
    split at hr
    · cases hr
      constructor <;> dsimp only <;> grind
    · split_ifs at hr
      · cases hr
        exact ⟨ha, hcng, hde⟩
      · cases hr
        constructor <;>
          simp only [dropDecoder, ActiveDecoders.setEntry, update_apply] <;>
          grind [map_eq_some_iff]

theorem Consistent.step (hstep : s.step c = some (t, r)) : Consistent t := by
  cases c with
  | registerPayload p format =>
    cases hstep
    unfold registerPayload
    split_ifs
    · exact h
    · exact h
    · exact h.setEntry (by simp)
  | setCodecs codecs =>
    cases hstep
    exact (List.foldlRecOn (motive := Consistent) _ _ h fun s hs t _ => hs.remove t).enter codecs
  | remove p =>
    cases hstep
    exact h.remove p
  | removeAll =>
    cases hstep
    exact ⟨by simp [removeAll], by simp [removeAll], by simp [removeAll]⟩
  | setActiveDecoder p =>
    obtain ⟨q, hq, heq⟩ := Option.map_eq_some_iff.mp hstep
    cases heq
    exact h.setActiveDecoder hq
  | getActiveDecoder =>
    cases hstep
    unfold getActiveDecoder
    split
    · exact h
    · split
      · exact h
      · split_ifs
        · exact h.setEntry fun _ => ‹_›
        · exact h
  | setActiveCngDecoder p =>
    cases hstep
    unfold setActiveCngDecoder
    split
    · exact h
    · refine ⟨h.active, fun t ht => ?_, h.decoder⟩
      cases ht
      simp_all [isSome_iff_ne_none]
  | getActiveCngDecoder =>
    cases hstep
    unfold getActiveCngDecoder
    split
    · exact h
    · exact ⟨h.active, h.cng, h.decoder⟩

end

def CngDecoderMatches (s : ActiveDecoders) : Prop :=
  ∀ decoder ∈ s.getActiveCngDecoder.2, s.activeCngDecoderType = some decoder.createdFor

/-- Activating a payload type while none is active finds no comfort noise decoder of another one. -/
def NoStaleDecoder (s : ActiveDecoders) : DatabaseCall → Prop
  | .setActiveCngDecoder t => (s.decoders t).isSome → s.activeCngDecoderType = none →
      ∀ decoder ∈ s.activeCngDecoder, decoder.createdFor = t
  | _ => True

theorem cngDecoderMatches_iff : CngDecoderMatches s ↔ ∀ t ∈ s.activeCngDecoderType,
    ∀ decoder ∈ s.activeCngDecoder, decoder.createdFor = t := by
  unfold CngDecoderMatches getActiveCngDecoder
  cases s.activeCngDecoderType with
  | none => simp
  | some t => cases s.activeCngDecoder <;> simp [eq_comm]

def CngLess (s t : ActiveDecoders) : Prop :=
  t.activeCngDecoder = s.activeCngDecoder ∧
    ∀ p, t.activeCngDecoderType = some p → s.activeCngDecoderType = some p

theorem CngDecoderMatches.of_less (h : CngDecoderMatches s) (hl : CngLess s t) :
    CngDecoderMatches t := by
  rw [cngDecoderMatches_iff] at h ⊢
  rw [hl.1]
  exact fun p hp => h p (hl.2 p hp)

theorem cngLess_remove (s : ActiveDecoders) (p : UInt8) : CngLess s (s.remove p).1 := by
  unfold remove
  split
  · exact ⟨rfl, fun _ => id⟩
  · refine ⟨rfl, fun q hq => ?_⟩
    dsimp only at hq
    split_ifs at hq
    exact hq

theorem CngDecoderMatches.step (h : CngDecoderMatches s) (hstale : NoStaleDecoder s c)
    (hstep : s.step c = some (t, r)) : CngDecoderMatches t := by
  cases c with
  | registerPayload p format =>
    cases hstep
    refine h.of_less ?_
    unfold registerPayload
    split_ifs <;> exact ⟨rfl, fun _ => id⟩
  | setCodecs codecs =>
    cases hstep
    have hk := List.foldlRecOn (motive := CngDecoderMatches) (s.changedPayloadTypes codecs) _ h
      fun s hs t _ => hs.of_less (s.cngLess_remove t)
    exact hk.of_less ⟨rfl, fun _ => id⟩
  | remove p =>
    cases hstep
    exact h.of_less (s.cngLess_remove p)
  | removeAll =>
    cases hstep
    exact h.of_less ⟨rfl, by simp [removeAll]⟩
  | setActiveDecoder p =>
    obtain ⟨q, hq, heq⟩ := Option.map_eq_some_iff.mp hstep
    cases heq
    refine h.of_less ?_
    unfold setActiveDecoder at hq
    repeat' split at hq
    all_goals cases hq <;> exact ⟨rfl, fun _ => id⟩
  | getActiveDecoder =>
    cases hstep
    refine h.of_less ?_
    unfold getActiveDecoder
    repeat' split
    all_goals exact ⟨rfl, fun _ => id⟩
  | setActiveCngDecoder p =>
    cases hstep
    rw [cngDecoderMatches_iff] at h ⊢
    unfold setActiveCngDecoder
    split_ifs with hn hm
    · exact h
    · simp
    · intro q hq decoder hde
      cases hq
      cases ha : s.activeCngDecoderType with
      | none => exact hstale (by simpa [isSome_iff_ne_none] using hn) ha decoder hde
      | some q =>
        obtain rfl : q = p := by simpa [ha] using hm
        exact h q ha decoder hde
  | getActiveCngDecoder =>
    cases hstep
    rw [cngDecoderMatches_iff] at h ⊢
    unfold getActiveCngDecoder
    split
    · exact h
    · rename_i p ha
      intro q hq decoder hde
      cases ha.symm.trans hq
      cases hde
      cases hold : s.activeCngDecoder with
      | none => rfl
      | some old => exact h p ha old hold

theorem not_cngDecoderMatches_step (hs : ¬ NoStaleDecoder s c) :
    ∃ t r, s.step c = some (t, r) ∧ ¬ CngDecoderMatches t := by
  cases c with
  | setActiveCngDecoder p =>
    simp only [NoStaleDecoder, not_forall] at hs
    obtain ⟨hsome, ha, decoder, hde, hne⟩ := hs
    refine ⟨_, _, rfl, fun hm => ?_⟩
    rw [cngDecoderMatches_iff] at hm
    obtain ⟨entry, he⟩ := Option.isSome_iff_exists.mp hsome
    simp only [setActiveCngDecoder, he, ha, isNone_some, any_none,
      Bool.false_eq_true, if_false] at hm
    exact hne (hm p rfl decoder hde)
  | _ => exact absurd trivial hs

/-- Only the active entry holds a decoder. The comfort noise decoders that are returned belong to
the active payload type exactly if none is activated while a decoder of a removed one is left. -/
theorem activeDecoders_run (calls : List DatabaseCall) :
    (∀ pre, pre <+: calls → ∀ s replies, runPartial step init pre = some (s, replies) →
      Consistent s) ∧
    ((∀ pre, pre <+: calls → ∀ s replies, runPartial step init pre = some (s, replies) →
        CngDecoderMatches s) ↔ ∀ pre c post, calls = pre ++ c :: post → ∀ s replies,
        runPartial step init pre = some (s, replies) → NoStaleDecoder s c) := by
  have hi : Consistent init := ⟨by simp [init], by simp [init], by simp [init]⟩
  have hcng : CngDecoderMatches init := by
    rw [cngDecoderMatches_iff]
    simp [init]
  refine ⟨fun pre _ s replies hrun => ?_, ?_⟩
  · have hstep : ∀ s c t r, Consistent s → True → step s c = some (t, r) → Consistent t :=
      fun _ _ _ _ hs _ ht => hs.step ht
    exact runPartial_invariant hstep hi hrun fun _ _ _ _ _ _ _ => trivial
  · exact forall_reached_partial_iff (fun _ => id) (fun s c t r hs hc ht => hs.step hc ht)
      (fun s c _ hc => not_cngDecoderMatches_step hc) hcng calls

def removedWhileActive : List DatabaseCall :=
  [.registerPayload 13 ⟨"CN", 8000, 1, []⟩, .registerPayload 98 ⟨"CN", 16000, 1, []⟩,
    .setActiveCngDecoder 13, .getActiveCngDecoder, .remove 13, .setActiveCngDecoder 98,
    .getActiveCngDecoder]

theorem cngDecoder_of_removed_type : (runPartial step init removedWhileActive).map
        (fun r => (r.1.activeCngDecoderType, r.2.getLast?)) =
      some (some 98, some (.cngDecoder (some ⟨13⟩))) := by
  decide

end ActiveDecoders

end WebRtcAudio.NetEq
