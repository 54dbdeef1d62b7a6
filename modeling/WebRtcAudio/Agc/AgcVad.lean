import WebRtcAudio.CommonAudio.SplFunctions

/-! The voice activity detector of the legacy gain controller, `WebRtcAgc_ProcessVad`. -/
namespace WebRtcAudio.Agc

open WebRtcAudio.Core WebRtcAudio.CommonAudio

structure AgcVad where
  downState : FilterState
  hpState : ℤ
  counter : ℤ
  logRatio : ℤ
  meanLongTerm : ℤ
  varianceLongTerm : ℤ
  stdLongTerm : ℤ
  meanShortTerm : ℤ
  varianceShortTerm : ℤ
  stdShortTerm : ℤ
  deriving DecidableEq

def AgcVad.init : AgcVad where
  downState := ⟨⟨0, 0, 0, 0⟩, ⟨0, 0, 0, 0⟩⟩
  hpState := 0
  counter := 3
  logRatio := 0
  meanLongTerm := 15 * 2 ^ 10
  varianceLongTerm := 500 * 2 ^ 8
  stdLongTerm := 0
  meanShortTerm := 15 * 2 ^ 10
  varianceShortTerm := 500 * 2 ^ 8
  stdShortTerm := 0

def highPass : List ℤ → ℤ → ℕ → ℤ × ℕ
  | [], hpState, nrg => (hpState, nrg)
  | x :: xs, hpState, nrg =>
    let out := x + hpState
    highPass xs (toInt16 (600 * out / 2 ^ 10 - x))
      (toUInt32 (nrg + out * out.tdiv 64 + (out * out.tmod 64).tdiv 64))

def halveRate : List ℤ → List ℤ
  | x :: y :: rest => (x + y) / 2 :: halveRate rest
  | _ => []

def downsampleSubframe (input : List ℤ) (nrSamples subfr : ℕ) (s : FilterState) :
    Option (List ℤ × FilterState) :=
  if nrSamples = 160 then downsampleBy2 (halveRate ((input.drop (16 * subfr)).take 16)) s
  else downsampleBy2 ((input.drop (8 * subfr)).take 8) s

def subframes (input : List ℤ) (nrSamples : ℕ) (v : AgcVad) : Option (FilterState × ℤ × ℕ) :=
  (List.range 10).foldlM (fun (s, hpState, nrg) subfr => do
    let (samples, s) ← downsampleSubframe input nrSamples subfr s
    let (hpState, nrg) := highPass samples hpState nrg
    return (s, hpState, nrg)) (v.downState, v.hpState, 0)

def vadZeros (nrg : ℕ) : ℕ :=
  let zeros := if nrg < 2 ^ 16 then 16 else 0
  let zeros := if nrg * 2 ^ zeros % 2 ^ 32 < 2 ^ 24 then zeros + 8 else zeros
  let zeros := if nrg * 2 ^ zeros % 2 ^ 32 < 2 ^ 28 then zeros + 4 else zeros
  let zeros := if nrg * 2 ^ zeros % 2 ^ 32 < 2 ^ 30 then zeros + 2 else zeros
  if nrg * 2 ^ zeros % 2 ^ 32 < 2 ^ 31 then zeros + 1 else zeros

def vadStd (variance mean : ℤ) : Option ℤ := do
  let scaled ← int32? (variance * 2 ^ 12)
  let difference ← int32? (scaled - mean * mean)
  let root ← sqrt difference
  return toInt16 root

def AgcVad.updateShortTerm (v : AgcVad) (dB : ℤ) : Option AgcVad := do
  let meanShortTerm := toInt16 ((v.meanShortTerm * 15 + dB) / 2 ^ 4)
  let weighted ← int32? (v.varianceShortTerm * 15)
  let sum ← int32? (dB * dB / 2 ^ 12 + weighted)
  let varianceShortTerm := sum.tdiv 16
  let stdShortTerm ← vadStd varianceShortTerm meanShortTerm
  return { v with meanShortTerm, varianceShortTerm, stdShortTerm }

def AgcVad.updateLongTerm (v : AgcVad) (dB : ℤ) : Option AgcVad := do
  let meanLongTerm := divW32W16ResW16 (v.meanLongTerm * v.counter + dB) (addSatW16 v.counter 1)
  let weighted ← int32? (v.varianceLongTerm * v.counter)
  let sum ← int32? (dB * dB / 2 ^ 12 + weighted)
  let varianceLongTerm := divW32W16 sum (addSatW16 v.counter 1)
  let stdLongTerm ← vadStd varianceLongTerm meanLongTerm
  return { v with meanLongTerm, varianceLongTerm, stdLongTerm }

def AgcVad.updateLogRatio (v : AgcVad) (dB : ℤ) : AgcVad :=
  let deviation := divW32W16 (3 * 2 ^ 12 * toInt16 (dB - v.meanLongTerm)) v.stdLongTerm
  let ratio := (deviation + v.logRatio * (13 * 2 ^ 12) / 2 ^ 10) / 2 ^ 6
  { v with logRatio := max (-2048) (min ratio 2048) }

def AgcVad.processVad (v : AgcVad) (input : List ℤ) (nrSamples : ℕ) : Option AgcVad := do
  let (downState, hpState, nrg) ← subframes input nrSamples v
  let dB := (15 - vadZeros nrg : ℤ) * 2 ^ 11
  let counter := if v.counter < 250 then v.counter + 1 else v.counter
  let v ← { v with downState, hpState, counter }.updateShortTerm dB
  let v ← v.updateLongTerm dB
  return v.updateLogRatio dB

end WebRtcAudio.Agc
