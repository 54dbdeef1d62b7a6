import Mathlib.Data.List.Sort
import WebRtcAudio.Core.Run
import WebRtcAudio.NetEq.DecisionLogic

/-! `DtmfBuffer`, with the parts that `LEGACY_BITEXACT` enables. -/
namespace WebRtcAudio.NetEq

structure DtmfEvent where
  timestamp : UInt32
  eventNo : ℤ
  volume : ℤ
  duration : ℤ
  endBit : Bool
  deriving DecidableEq

inductive DtmfCode where
  | ok
  | invalidEventParameters
  deriving DecidableEq

structure DtmfBuffer where
  buffer : List DtmfEvent
  maxExtrapolationSamples : ℕ
  frameLenSamples : ℕ

namespace DtmfEvent

def sameEvent (a b : DtmfEvent) : Bool := a.eventNo = b.eventNo && a.timestamp = b.timestamp

def merge (it event : DtmfEvent) : DtmfEvent :=
  { it with
    duration := if !it.endBit then max event.duration it.duration else it.duration
    endBit := it.endBit || event.endBit }

def compareEvents (a b : DtmfEvent) : Bool :=
  if a.timestamp = b.timestamp then decide (a.eventNo < b.eventNo)
  else decide (b.timestamp - a.timestamp < 0xFFFFFFFF / 2)

def invalidParameters (event : DtmfEvent) : Prop :=
  event.eventNo < 0 ∨ 15 < event.eventNo ∨ event.volume < 0 ∨ 63 < event.volume ∨
    event.duration ≤ 0 ∨ 65535 < event.duration

instance (event : DtmfEvent) : Decidable event.invalidParameters :=
  inferInstanceAs (Decidable (_ ∨ _))

end DtmfEvent

namespace DtmfBuffer

open DtmfEvent

def new (fs : SampleRate) : DtmfBuffer := ⟨[], 7 * fs.hz / 100, fs.hz / 100⟩

def mergeInto : List DtmfEvent → DtmfEvent → Option (List DtmfEvent)
  | [], _ => none
  | it :: events, event =>
    if sameEvent it event then some (merge it event :: events)
    else (mergeInto events event).map (it :: ·)

def sort (events : List DtmfEvent) : List DtmfEvent :=
  events.insertionSort fun a b => compareEvents b a = false

def insertEvent (s : DtmfBuffer) (event : DtmfEvent) : DtmfBuffer × DtmfCode :=
  if event.invalidParameters then (s, .invalidEventParameters)
  else
    match mergeInto s.buffer event with
    | some merged => ({ s with buffer := merged }, .ok)
    | none => ({ s with buffer := sort (s.buffer ++ [event]) }, .ok)

def eventEnd (maxExtrapolationSamples : ℕ) (it : DtmfEvent) (next : Option DtmfEvent) :
    UInt32 × Bool :=
  let eventEnd := it.timestamp + UInt32.ofInt it.duration
  if !it.endBit then
    let eventEnd := eventEnd + UInt32.ofNat maxExtrapolationSamples
    match next with
    | some next => (if next.timestamp < eventEnd then next.timestamp else eventEnd, true)
    | none => (eventEnd, false)
  else (eventEnd, false)

def getEventFrom (maxExtrapolationSamples frameLenSamples : ℕ) (currentTimestamp : UInt32) :
    List DtmfEvent → List DtmfEvent × Option DtmfEvent
  | [] => ([], none)
  | it :: events =>
    let (eventEnd, nextAvailable) := eventEnd maxExtrapolationSamples it events.head?
    if it.timestamp ≤ currentTimestamp ∧ currentTimestamp ≤ eventEnd then
      if it.endBit ∧ eventEnd ≤ currentTimestamp + UInt32.ofNat frameLenSamples then
        (events, some it)
      else (it :: events, some it)
    else if eventEnd < currentTimestamp then
      if !nextAvailable then (events, some it)
      else getEventFrom maxExtrapolationSamples frameLenSamples currentTimestamp events
    else
      let (remaining, event) :=
        getEventFrom maxExtrapolationSamples frameLenSamples currentTimestamp events
      (it :: remaining, event)

def getEvent (s : DtmfBuffer) (currentTimestamp : UInt32) : DtmfBuffer × Option DtmfEvent :=
  let (buffer, event) :=
    getEventFrom s.maxExtrapolationSamples s.frameLenSamples currentTimestamp s.buffer
  ({ s with buffer := buffer }, event)

inductive Call where
  | insertEvent (event : DtmfEvent)
  | getEvent (currentTimestamp : UInt32)

inductive Result where
  | inserted (code : DtmfCode)
  | got (event : Option DtmfEvent)
  deriving DecidableEq

def step (s : DtmfBuffer) : Call → DtmfBuffer × Result
  | .insertEvent event => Prod.map id .inserted (s.insertEvent event)
  | .getEvent currentTimestamp => Prod.map id .got (s.getEvent currentTimestamp)

end DtmfBuffer

end WebRtcAudio.NetEq
