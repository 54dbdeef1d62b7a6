import WebRtcAudio.CommonAudio.SplFunctions

/-! `WebRtcAgc_CalculateGainTable` and its call. A signed operation that overflows has no result. -/
namespace WebRtcAudio.Agc

open WebRtcAudio.Core WebRtcAudio.CommonAudio

def kGenFuncTable : List ℕ := [
  256, 485, 786, 1126, 1484, 1849, 2217, 2586, 2955, 3324, 3693,
  4063, 4432, 4801, 5171, 5540, 5909, 6279, 6648, 7017, 7387, 7756,
  8125, 8495, 8864, 9233, 9603, 9972, 10341, 10711, 11080, 11449, 11819,
  12188, 12557, 12927, 13296, 13665, 14035, 14404, 14773, 15143, 15512, 15881,
  16251, 16620, 16989, 17359, 17728, 18097, 18466, 18836, 19205, 19574, 19944,
  20313, 20682, 21052, 21421, 21790, 22160, 22529, 22898, 23268, 23637, 24006,
  24376, 24745, 25114, 25484, 25853, 26222, 26592, 26961, 27330, 27700, 28069,
  28438, 28808, 29177, 29546, 29916, 30285, 30654, 31024, 31393, 31762, 32132,
  32501, 32870, 33240, 33609, 33978, 34348, 34717, 35086, 35456, 35825, 36194,
  36564, 36933, 37302, 37672, 38041, 38410, 38780, 39149, 39518, 39888, 40257,
  40626, 40996, 41365, 41734, 42104, 42473, 42842, 43212, 43581, 43950, 44320,
  44689, 45058, 45428, 45797, 46166, 46536, 46905]

def maxGain (digCompGaindB targetLevelDbfs analogTarget : ℤ) : ℤ :=
  let tmp32no1 := (digCompGaindB - analogTarget) * 2
  let tmp16no1 := toInt16 (analogTarget - targetLevelDbfs)
  let tmp16no1 := toInt16 (tmp16no1 + divW32W16ResW16 (tmp32no1 + 1) 3)
  toInt16 (max tmp16no1 (analogTarget - targetLevelDbfs))

def diffGain (digCompGaindB : ℤ) : ℤ := divW32W16ResW16 (digCompGaindB * 2 + 1) 3

def limiterIdx (analogTarget : ℤ) : ℤ :=
  toInt16 (2 + divW32W16ResW16 (analogTarget * 2 ^ 13) 24660)

def logApprox (diffGain : ℤ) (i : ℕ) : Option ℕ := do
  let inLevel := diffGain * 2 ^ 14 - divW32W16 (toInt16 (2 * (i - 1)) * 49321 + 1) 3
  let absInLevel := inLevel.natAbs
  -- a look-up with interpolation
  let intPart := absInLevel / 2 ^ 14
  let fracPart := absInLevel % 2 ^ 14
  let low ← kGenFuncTable[intPart]?
  let high ← kGenFuncTable[intPart + 1]?
  let tmpU32no1 := (high - low) * fracPart + low * 2 ^ 14
  if 0 ≤ inLevel then some (tmpU32no1 / 2 ^ 8)
  else
    -- log2(1 + 2^-x) = log2(1 + 2^x) - x
    let zeros := normU32 absInLevel
    let (tmpU32no1, tmpU32no2, zerosScale) :=
      if zeros < 15 then
        let product := absInLevel / 2 ^ (15 - zeros) * 23637 % 2 ^ 32
        if zeros < 9 then (tmpU32no1 / 2 ^ (9 - zeros), product, 9 - zeros)
        else (tmpU32no1, product / 2 ^ (zeros - 9), 0)
      else (tmpU32no1, absInLevel * 23637 % 2 ^ 32 / 2 ^ 6, 0)
    some (if tmpU32no2 < tmpU32no1 then (tmpU32no1 - tmpU32no2) / 2 ^ (8 - zerosScale) else 0)

def roundHalf (y32 : ℤ) : Option ℤ :=
  if 0 ≤ y32 then (int32? (y32 + 1)).map (· / 2) else (int32? (-y32 + 1)).map fun y => -(y / 2)

def gainQuotient (numFIX den : ℤ) : Option ℤ := do
  let negated ← int32? (-numFIX)
  let zeros : ℕ :=
    if den / 2 ^ 8 < numFIX ∨ den / 2 ^ 8 < negated then normW32 numFIX else normW32 den + 8
  let power ← int32? (2 ^ zeros)
  let numFIX ← int32? (numFIX * power)
  let den ← shiftW32 den (zeros - 9)
  if den = 0 then none else roundHalf (numFIX.tdiv den)

/-- The logarithm to the base 2 of a gain in Q16, for its logarithm to the base 10, both in Q14. -/
def gainExponent (y32 : ℤ) : Option ℤ :=
  if 39000 < y32 then do
    let product ← int32? (y32 / 2 * 54426)
    let rounded ← int32? (product + 4096)
    return rounded / 2 ^ 13 + 16 * 2 ^ 14
  else do
    let product ← int32? (y32 * 54426)
    let rounded ← int32? (product + 8192)
    return rounded / 2 ^ 14 + 16 * 2 ^ 14

def fracPower (fracPart : ℤ) : ℤ :=
  if fracPart / 2 ^ 13 ≠ 0 then 2 ^ 14 - (2 ^ 14 - fracPart) * (2 * 2 ^ 14 - 22817) / 2 ^ 13
  else fracPart * (22817 - 2 ^ 14) / 2 ^ 13

def gainPower (exponent : ℤ) : Option ℤ :=
  if 0 < exponent then do
    let intPart : ℕ := (exponent / 2 ^ 14).toNat
    let high ← int32? (2 ^ intPart)
    let low ← shiftW32 (fracPower (exponent % 2 ^ 14)) (intPart - 14)
    int32? (high + low)
  else some 0

/-- The logarithm to the base 10 of the gain of one entry, in Q14: that of the compressor, or below
some index that of the limiter. -/
def gainLog (maxGain diffGain constMaxGain targetLevelDbfs limiterIdx : ℤ) (limiterEnable : Bool)
    (i : ℕ) : Option ℤ := do
  let logApprox ← logApprox diffGain i
  let product ← int32? (maxGain * constMaxGain)
  let numFIX ← int32? (product * 2 ^ 6)
  let reduction ← int32? (logApprox * diffGain)
  let numFIX ← int32? (numFIX - reduction)
  let y32 ← gainQuotient numFIX (20 * constMaxGain)
  if limiterEnable ∧ i < limiterIdx then
    (int32? ((i - 1) * 49321 - targetLevelDbfs * 2 ^ 14)).map fun x => divW32W16 (x + 10) 20
  else some y32

def gainTableEntry (maxGain diffGain constMaxGain targetLevelDbfs limiterIdx : ℤ)
    (limiterEnable : Bool) (i : ℕ) : Option ℤ := do
  let y32 ← gainLog maxGain diffGain constMaxGain targetLevelDbfs limiterIdx limiterEnable i
  let exponent ← gainExponent y32
  gainPower exponent

def calculateGainTable (digCompGaindB targetLevelDbfs : ℤ) (limiterEnable : Bool)
    (analogTarget : ℤ) : Option (Option (List ℤ)) :=
  let diffGain := diffGain digCompGaindB
  if diffGain < 0 ∨ 128 ≤ diffGain then some none
  else do
    let constMaxGain ← kGenFuncTable[diffGain.toNat]?
    let table ← (List.range 32).mapM
      (gainTableEntry (maxGain digCompGaindB targetLevelDbfs analogTarget) diffGain constMaxGain
        targetLevelDbfs (limiterIdx analogTarget) limiterEnable)
    return some table

inductive AgcMode where
  | unchanged
  | adaptiveAnalog
  | adaptiveDigital
  | fixedDigital
  deriving DecidableEq

structure AgcConfig where
  targetLevelDbfs : ℤ
  compressionGaindB : ℤ
  limiterEnable : ℕ

def analogTarget (agcMode : AgcMode) (compressionGaindB : ℤ) : ℤ :=
  let tmp16 := divW32W16ResW16 (toInt16 (5 * compressionGaindB + 5)) 11
  if agcMode = .fixedDigital then compressionGaindB else max 4 (toInt16 (4 + tmp16))

def setConfig (agcMode : AgcMode) (config : AgcConfig) : Option (Option (List ℤ)) :=
  if config.limiterEnable ≠ 0 ∧ config.limiterEnable ≠ 1 then some none
  else if config.targetLevelDbfs < 0 ∨ 31 < config.targetLevelDbfs then some none
  else
    let compressionGaindB :=
      if agcMode = .fixedDigital then toInt16 (config.compressionGaindB + config.targetLevelDbfs)
      else config.compressionGaindB
    calculateGainTable compressionGaindB config.targetLevelDbfs (config.limiterEnable = 1)
      (analogTarget agcMode compressionGaindB)

end WebRtcAudio.Agc
