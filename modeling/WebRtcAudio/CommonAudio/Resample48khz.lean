import WebRtcAudio.CommonAudio.SplFunctions

/-! The resampler from 48 kHz to 8 kHz. Sums and products that leave the range of `int32_t` wrap,
which the source accepts. -/
namespace WebRtcAudio.CommonAudio

open WebRtcAudio.Core

structure AllpassCoefficients where
  k₀ : ℤ
  k₁ : ℤ
  k₂ : ℤ

def kResampleAllpassUpper : AllpassCoefficients := ⟨821, 6110, 12382⟩

def kResampleAllpassLower : AllpassCoefficients := ⟨3050, 9368, 15063⟩

def scaleDownTruncate (diff : ℤ) : ℤ :=
  if diff / 2 ^ 14 < 0 then diff / 2 ^ 14 + 1 else diff / 2 ^ 14

def Allpass.resample (k : AllpassCoefficients) (s : Allpass) (input : ℤ) : Allpass :=
  let diff := toInt32 (toInt32 (input - s.state1) + 2 ^ 13) / 2 ^ 14
  let tmp1 := toInt32 (s.state0 + diff * k.k₀)
  let diff := scaleDownTruncate (toInt32 (tmp1 - s.state2))
  let tmp0 := toInt32 (s.state1 + diff * k.k₁)
  let diff := scaleDownTruncate (toInt32 (tmp0 - s.state3))
  ⟨input, tmp1, tmp0, toInt32 (s.state2 + diff * k.k₂)⟩

def Allpass.resampleHalves (k : AllpassCoefficients) : Allpass → List ℤ → List ℤ × Allpass
  | s, [] => ([], s)
  | s, x :: xs =>
    let s := s.resample k x
    let (outs, last) := resampleHalves k s xs
    (s.state3 / 2 :: outs, last)

def evenSamples {α : Type} : List α → List α
  | [] => []
  | [_] => []
  | x :: _ :: rest => x :: evenSamples rest

def oddSamples {α : Type} : List α → List α
  | [] => []
  | [_] => []
  | _ :: y :: rest => y :: oddSamples rest

def interleave {α : Type} : List α → List α → List α
  | x :: xs, y :: ys => x :: y :: interleave xs ys
  | _, _ => []

structure DecimatorState where
  lower : Allpass
  upper : Allpass
  deriving DecidableEq

structure LowPassState where
  lowerEven : Allpass
  upperEven : Allpass
  lowerOdd : Allpass
  upperOdd : Allpass
  deriving DecidableEq

def DecimatorState.sums (s : DecimatorState) (input : List ℤ) : List ℤ × DecimatorState :=
  let (lowers, lower) := s.lower.resampleHalves kResampleAllpassLower (evenSamples input)
  let (uppers, upper) := s.upper.resampleHalves kResampleAllpassUpper (oddSamples input)
  (List.zipWith (fun a b => toInt32 (a + b)) lowers uppers, ⟨lower, upper⟩)

def downBy2ShortToInt (input : List ℤ) (s : DecimatorState) : List ℤ × DecimatorState :=
  s.sums (input.map fun x => x * 2 ^ 15 + 2 ^ 14)

def downBy2IntToShort (input : List ℤ) (s : DecimatorState) : List ℤ × DecimatorState :=
  let (sums, s) := s.sums input
  (sums.map fun x => satW32ToW16 (x / 2 ^ 15), s)

def lpBy2IntToInt (input : List ℤ) (s : LowPassState) : List ℤ × LowPassState :=
  let even := evenSamples input
  let odd := oddSamples input
  -- the delay element is the last odd sample of the call before
  let delayed := (s.upperOdd.state0 :: odd).take odd.length
  let (a, lowerEven) := s.lowerEven.resampleHalves kResampleAllpassLower delayed
  let (b, upperEven) := s.upperEven.resampleHalves kResampleAllpassUpper even
  let (c, lowerOdd) := s.lowerOdd.resampleHalves kResampleAllpassLower even
  let (d, upperOdd) := s.upperOdd.resampleHalves kResampleAllpassUpper odd
  let average := List.zipWith fun a b => toInt32 (a + b) / 2 ^ 15
  (interleave (average a b) (average c d), ⟨lowerEven, upperEven, lowerOdd, upperOdd⟩)

def kCoefficients48To32First : List ℤ := [778, -2050, 1087, 23285, 12903, -3783, 441, 222]

def kCoefficients48To32Second : List ℤ := [222, 441, -3783, 12903, 23285, 1087, -2050, 778]

def interpolate (coefficients input : List ℤ) : ℤ :=
  (List.zip coefficients input).foldl (fun tmp p => toInt32 (tmp + p.1 * p.2)) (2 ^ 14)

def resample48khzTo32khz : ℕ → List ℤ → List ℤ
  | 0, _ => []
  | blocks + 1, input =>
    interpolate kCoefficients48To32First input ::
      interpolate kCoefficients48To32Second (input.drop 1) ::
      resample48khzTo32khz blocks (input.drop 3)

structure State48khzTo8khz where
  s48To24 : DecimatorState
  s24To24 : LowPassState
  s24To16 : Vector ℤ 8
  s16To8 : DecimatorState
  deriving DecidableEq

def resample48khzTo8khz (input : List ℤ) (s : State48khzTo8khz) : List ℤ × State48khzTo8khz :=
  let (at24khz, s48To24) := downBy2ShortToInt (input.take 480) s.s48To24
  let (lowPassed, s24To24) := lpBy2IntToInt at24khz s.s24To24
  let block := s.s24To16.toList ++ lowPassed
  let at16khz := resample48khzTo32khz 80 block
  let (out, s16To8) := downBy2IntToShort at16khz s.s16To8
  (out, ⟨s48To24, s24To24, Vector.ofFn fun i => block.getD (240 + i) 0, s16To8⟩)

def resetResample48khzTo8khz : State48khzTo8khz :=
  ⟨⟨⟨0, 0, 0, 0⟩, ⟨0, 0, 0, 0⟩⟩, ⟨⟨0, 0, 0, 0⟩, ⟨0, 0, 0, 0⟩, ⟨0, 0, 0, 0⟩, ⟨0, 0, 0, 0⟩⟩,
    Vector.replicate 8 0, ⟨⟨0, 0, 0, 0⟩, ⟨0, 0, 0, 0⟩⟩⟩

end WebRtcAudio.CommonAudio
