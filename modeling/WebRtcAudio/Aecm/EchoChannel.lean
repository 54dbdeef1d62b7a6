import WebRtcAudio.Aecm.BinAdaptation

/-! The echo channel of the mobile echo canceller, and the energy levels that decide about storing
it. -/
namespace WebRtcAudio.Aecm

open WebRtcAudio.Core WebRtcAudio.CommonAudio

def partLen1 : ℕ := 65

def maxBufLen : ℕ := 64

def resolutionChannel16 : ℤ := 12

abbrev Spectrum (α : Type) := Vector α partLen1

structure FarEnergy where
  farLogEnergy : ℤ
  farEnergyMin : ℤ
  farEnergyMax : ℤ
  farEnergyMaxMin : ℤ
  farEnergyVAD : ℤ
  farEnergyMSE : ℤ
  vadUpdateCount : ℤ
  currentVADValue : Bool

def asymFilt (filtOld inVal : ℤ) (stepSizePos stepSizeNeg : ℕ) : ℤ :=
  if filtOld = 2 ^ 15 - 1 ∨ filtOld = -2 ^ 15 then inVal
  else if inVal < filtOld then filtOld - (filtOld - inVal) / 2 ^ stepSizeNeg
  else filtOld + (inVal - filtOld) / 2 ^ stepSizePos

def extractFractionPart (a zeros : ℕ) : ℤ := a * 2 ^ zeros % 2 ^ 31 / 2 ^ 23

def logOfEnergyInQ8 (energy : ℕ) (qDomain : ℤ) : ℤ :=
  let logLowValue := 7 * 2 ^ 7
  if energy = 0 then logLowValue
  else
    let zeros := normU32 energy
    toInt16 (logLowValue + ((31 - zeros) * 2 ^ 8 + extractFractionPart energy zeros -
      qDomain * 2 ^ 8))

namespace FarEnergy

def vadRegion (farEnergyMin : ℤ) : ℤ :=
  let tmp16 := toInt16 (2560 - farEnergyMin)
  toInt16 ((if 0 < tmp16 then toInt16 (tmp16 * 230 / 2 ^ 9) else 0) + 230)

def updateLevels (e : FarEnergy) (startup : Bool) : FarEnergy :=
  let farEnergyMin := asymFilt e.farEnergyMin e.farLogEnergy (if startup then 8 else 11)
    (if startup then 2 else 3)
  let farEnergyMax := asymFilt e.farEnergyMax e.farLogEnergy (if startup then 2 else 4) 11
  let region := vadRegion farEnergyMin
  let levels := { e with
    farEnergyMin
    farEnergyMax
    farEnergyMaxMin := toInt16 (farEnergyMax - farEnergyMin) }
  let levels :=
    if startup ∨ 1024 < e.vadUpdateCount then
      { levels with farEnergyVAD := toInt16 (farEnergyMin + region) }
    else if e.farLogEnergy < e.farEnergyVAD then
      { levels with
        farEnergyVAD :=
          toInt16 (e.farEnergyVAD + (e.farLogEnergy + region - e.farEnergyVAD) / 2 ^ 6)
        vadUpdateCount := 0 }
    else { levels with vadUpdateCount := e.vadUpdateCount + 1 }
  { levels with farEnergyMSE := toInt16 (levels.farEnergyVAD + 2 ^ 8) }

def updateVAD (e : FarEnergy) (startup : Bool) : FarEnergy :=
  if e.farEnergyVAD < e.farLogEnergy then
    if startup ∨ 929 < e.farEnergyMaxMin then { e with currentVADValue := true } else e
  else { e with currentVADValue := false }

def next (e : FarEnergy) (startup : Bool) (farLogEnergy : ℤ) : FarEnergy :=
  let e := { e with farLogEnergy }
  (if 1025 < farLogEnergy then e.updateLevels startup else e).updateVAD startup

end FarEnergy

/-- The part of `AecmCore` that belongs to the echo channel. The log energies are those of the last
blocks, the newest first. -/
structure EchoChannel where
  channelStored : Spectrum ℤ
  channelAdapt16 : Spectrum ℤ
  channelAdapt32 : Spectrum ℤ
  nearLogEnergy : List ℤ
  echoAdaptLogEnergy : List ℤ
  echoStoredLogEnergy : List ℤ
  farEnergy : FarEnergy
  firstVAD : Bool
  mseAdaptOld : ℤ
  mseStoredOld : ℤ
  mseThreshold : ℤ
  mseChannelCount : ℤ

structure Block where
  /-- `startupState` is 0. -/
  startup : Bool
  dfaNoisyQDomain : ℤ
  farSpectrum : Spectrum ℕ
  farQ : ℤ

def channelEnergy (channel : Spectrum ℤ) (spectrum : Spectrum ℕ) : ℕ :=
  toUInt32 (Vector.zipWith (fun (c : ℤ) (f : ℕ) => c * f) channel spectrum).sum

def echoEstimate (channel : Spectrum ℤ) (spectrum : Spectrum ℕ) : Spectrum ℤ :=
  Vector.zipWith (fun (c : ℤ) (f : ℕ) => c * f) channel spectrum

namespace EchoChannel

def initEchoPathCore (s : EchoChannel) (echoPath : Spectrum ℤ) : EchoChannel :=
  { s with
    channelStored := echoPath
    channelAdapt16 := echoPath
    channelAdapt32 := echoPath.map (· * 2 ^ 16)
    mseAdaptOld := 1000
    mseStoredOld := 1000
    mseThreshold := word32Max
    mseChannelCount := 0 }

def storeAdaptiveChannel (s : EchoChannel) (block : Block) : EchoChannel × Spectrum ℤ :=
  ({ s with channelStored := s.channelAdapt16 }, echoEstimate s.channelAdapt16 block.farSpectrum)

def resetAdaptiveChannel (s : EchoChannel) : EchoChannel :=
  { s with
    channelAdapt16 := s.channelStored
    channelAdapt32 := s.channelStored.map (· * 2 ^ 16) }

def adaptLogEnergy (s : EchoChannel) (block : Block) : ℤ :=
  logOfEnergyInQ8 (channelEnergy s.channelAdapt16 block.farSpectrum)
    (resolutionChannel16 + block.farQ)

def nextFarEnergy (s : EchoChannel) (block : Block) : FarEnergy :=
  s.farEnergy.next block.startup (logOfEnergyInQ8 (toUInt32 block.farSpectrum.sum) block.farQ)

/-- The far end is active while the channel is still the one from the initialization, and the
estimated echo is louder than the near end. -/
def scalesDown (s : EchoChannel) (block : Block) (nearEner : ℕ) : Bool :=
  (s.nextFarEnergy block).currentVADValue && s.firstVAD &&
    decide (logOfEnergyInQ8 nearEner block.dfaNoisyQDomain < s.adaptLogEnergy block)

def pushEnergy (energy : ℤ) (energies : List ℤ) : List ℤ := (energy :: energies).take maxBufLen

def calcEnergies (s : EchoChannel) (block : Block) (nearEner : ℕ) : EchoChannel × Spectrum ℤ :=
  let scalesDown := s.scalesDown block nearEner
  let farEnergy := s.nextFarEnergy block
  ({ s with
      nearLogEnergy := pushEnergy (logOfEnergyInQ8 nearEner block.dfaNoisyQDomain) s.nearLogEnergy
      echoAdaptLogEnergy := pushEnergy
        (if scalesDown then toInt16 (s.adaptLogEnergy block - 3 * 2 ^ 8)
          else s.adaptLogEnergy block)
        s.echoAdaptLogEnergy
      echoStoredLogEnergy := pushEnergy
        (logOfEnergyInQ8 (channelEnergy s.channelStored block.farSpectrum)
          (resolutionChannel16 + block.farQ))
        s.echoStoredLogEnergy
      farEnergy
      firstVAD := s.firstVAD && (!farEnergy.currentVADValue || scalesDown)
      channelAdapt16 := if scalesDown then s.channelAdapt16.map (· / 2 ^ 3) else s.channelAdapt16 },
    echoEstimate s.channelStored block.farSpectrum)

def bin (s : EchoChannel) (block : Block) (dfa : Spectrum ℕ) (mu : ℤ) (i : Fin partLen1) : Bin where
  i
  channel := s.channelAdapt32[i]
  far := block.farSpectrum[i]
  farQ := block.farQ
  dfa := dfa[i]
  dfaNoisyQDomain := block.dfaNoisyQDomain
  mu

def writeChannel (s : EchoChannel) (values : Spectrum (Option ℤ)) : EchoChannel :=
  { s with
    channelAdapt32 := Vector.ofFn fun i => values[i].getD s.channelAdapt32[i]
    channelAdapt16 := Vector.ofFn fun i =>
      values[i].elim s.channelAdapt16[i] fun channel => toInt16 (channel / 2 ^ 16) }

def adaptChannel (s : EchoChannel) (block : Block) (dfa : Spectrum ℕ) (mu : ℤ) :
    Option EchoChannel :=
  let adapted := Vector.ofFn fun i => (s.bin block dfa mu i).adapted
  if mu = 0 then some s
  else if adapted.all Option.isSome then some (s.writeChannel (adapted.map Option.join))
  else none

def meanError (echoLogEnergy nearLogEnergy : List ℤ) : ℤ :=
  ((List.zipWith (fun echo near => |echo - near|) echoLogEnergy nearLogEnergy).take 20).sum

def nextThreshold (s : EchoChannel) (mseAdapt : ℤ) : ℤ :=
  if s.mseThreshold = word32Max then mseAdapt + s.mseAdaptOld
  else s.mseThreshold + (mseAdapt - (s.mseThreshold * 5).tdiv 8) * 205 / 2 ^ 8

/-- The channel with the significantly lower error replaces the other one, after two calculations
in a row. -/
def chooseChannel (s : EchoChannel) (block : Block) (mseStored mseAdapt : ℤ)
    (echoEst : Spectrum ℤ) : EchoChannel × Spectrum ℤ :=
  if mseStored * 2 ^ 5 < 29 * mseAdapt ∧ s.mseStoredOld * 2 ^ 5 < 29 * s.mseAdaptOld then
    (s.resetAdaptiveChannel, echoEst)
  else if mseAdapt * 2 ^ 5 < 29 * mseStored ∧ mseAdapt < s.mseThreshold ∧
      s.mseAdaptOld < s.mseThreshold then
    { s with mseThreshold := s.nextThreshold mseAdapt }.storeAdaptiveChannel block
  else (s, echoEst)

def validateChannel (s : EchoChannel) (block : Block) (echoEst : Spectrum ℤ) :
    EchoChannel × Spectrum ℤ :=
  let mseStored := meanError s.echoStoredLogEnergy s.nearLogEnergy
  let mseAdapt := meanError s.echoAdaptLogEnergy s.nearLogEnergy
  let r := s.chooseChannel block mseStored mseAdapt echoEst
  ({ r.1 with mseChannelCount := 0, mseStoredOld := mseStored, mseAdaptOld := mseAdapt }, r.2)

def countBlock (s : EchoChannel) : EchoChannel :=
  { s with
    mseChannelCount :=
      if s.farEnergy.farLogEnergy < s.farEnergy.farEnergyMSE then 0 else s.mseChannelCount + 1 }

def storeOrReset (s : EchoChannel) (block : Block) (echoEst : Spectrum ℤ) :
    EchoChannel × Spectrum ℤ :=
  if block.startup ∧ s.farEnergy.currentVADValue then s.storeAdaptiveChannel block
  else if 30 ≤ s.countBlock.mseChannelCount then s.countBlock.validateChannel block echoEst
  else (s.countBlock, echoEst)

def updateChannel (s : EchoChannel) (block : Block) (dfa : Spectrum ℕ) (mu : ℤ)
    (echoEst : Spectrum ℤ) : Option (EchoChannel × Spectrum ℤ) :=
  (s.adaptChannel block dfa mu).map fun s => s.storeOrReset block echoEst

end EchoChannel

abbrev EchoPath := Spectrum (Fin (2 ^ 15))

def EchoPath.values (path : EchoPath) : Spectrum ℤ := path.map fun x : Fin (2 ^ 15) => (x.val : ℤ)

inductive SamplingFreq where
  | kHz8
  | kHz16

def kChannelStored8kHz : EchoPath := ⟨#[
  2040, 1815, 1590, 1498, 1405, 1395, 1385, 1418, 1451, 1506, 1562,
  1644, 1726, 1804, 1882, 1918, 1953, 1982, 2010, 2025, 2040, 2034,
  2027, 2021, 2014, 1997, 1980, 1925, 1869, 1800, 1732, 1683, 1635,
  1604, 1572, 1545, 1517, 1481, 1444, 1405, 1367, 1331, 1294, 1270,
  1245, 1239, 1233, 1247, 1260, 1282, 1303, 1338, 1373, 1407, 1441,
  1470, 1499, 1524, 1549, 1565, 1582, 1601, 1621, 1649, 1676], rfl⟩

def kChannelStored16kHz : EchoPath := ⟨#[
  2040, 1590, 1405, 1385, 1451, 1562, 1726, 1882, 1953, 2010, 2040,
  2027, 2014, 1980, 1869, 1732, 1635, 1572, 1517, 1444, 1367, 1294,
  1245, 1233, 1260, 1303, 1373, 1441, 1499, 1549, 1582, 1621, 1676,
  1741, 1802, 1861, 1921, 1983, 2040, 2102, 2170, 2265, 2375, 2515,
  2651, 2781, 2922, 3075, 3253, 3471, 3738, 3976, 4151, 4258, 4308,
  4288, 4270, 4253, 4237, 4179, 4086, 3947, 3757, 3484, 3153], rfl⟩

def EchoChannel.cleared : EchoChannel where
  channelStored := Vector.replicate _ 0
  channelAdapt16 := Vector.replicate _ 0
  channelAdapt32 := Vector.replicate _ 0
  nearLogEnergy := List.replicate maxBufLen 0
  echoAdaptLogEnergy := List.replicate maxBufLen 0
  echoStoredLogEnergy := List.replicate maxBufLen 0
  farEnergy := {
    farLogEnergy := 0
    farEnergyMin := 2 ^ 15 - 1
    farEnergyMax := -2 ^ 15
    farEnergyMaxMin := 0
    farEnergyVAD := 1025
    farEnergyMSE := 0
    vadUpdateCount := 0
    currentVADValue := false }
  firstVAD := true
  mseAdaptOld := 1000
  mseStoredOld := 1000
  mseThreshold := word32Max
  mseChannelCount := 0

def EchoChannel.initCore : SamplingFreq → EchoChannel
  | .kHz8 => cleared.initEchoPathCore (EchoPath.values kChannelStored8kHz)
  | .kHz16 => cleared.initEchoPathCore (EchoPath.values kChannelStored16kHz)

end WebRtcAudio.Aecm
