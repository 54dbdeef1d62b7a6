import WebRtcAudio.Agc.AddMic
import WebRtcAudio.Agc.GainTable

/-! The digital gain controller. A signed operation that overflows, an index outside the gain table
and a loop that does not end have no result. -/
namespace WebRtcAudio.Agc

open WebRtcAudio.Core WebRtcAudio.CommonAudio

def agcMul32 (a b : ℤ) : Option ℤ := do
  let high ← int32? (b / 2 ^ 13 * a)
  let low ← int32? (b % 2 ^ 13 * a)
  int32? (high + low / 2 ^ 13)

def agcScaleDiff32 (a b c : ℤ) : Option ℤ := do
  let high ← int32? (b / 2 ^ 16 * a)
  let sum ← int32? (c + high)
  let low ← int32? (b % 2 ^ 16 * a)
  int32? (sum + low / 2 ^ 16)

def samplesPerMs (fs : ℕ) : Option (ℕ × ℕ) :=
  if fs = 8000 then some (8, 3)
  else if fs = 16000 ∨ fs = 32000 ∨ fs = 48000 then some (16, 4)
  else none

structure DigitalAgc where
  capacitorSlow : ℤ
  capacitorFast : ℤ
  gain : ℤ
  gainTable : List ℤ
  gatePrevious : ℤ
  agcMode : AgcMode
  vadNearend : AgcVad
  vadFarend : AgcVad

def levelZeros (level : ℤ) : ℕ := if level = 0 then 31 else normU32 (toUInt32 level)

def levelMantissa (level : ℤ) : ℕ := toUInt32 level * 2 ^ levelZeros level % 2 ^ 31

def levelFrac (level : ℤ) : ℕ := levelMantissa level / 2 ^ 19

def gainTableAt? (gainTable : List ℤ) (i : ℤ) : Option ℤ :=
  if 0 ≤ i then gainTable[i.toNat]? else none

def levelGain (gainTable : List ℤ) (level : ℤ) : Option ℤ := do
  let left ← gainTableAt? gainTable (levelZeros level - 1)
  let right ← gainTableAt? gainTable (levelZeros level)
  let difference ← int32? (left - right)
  int32? (right + toInt32 (difference * levelFrac level / 2 ^ 12))

/-- What is found for one sub frame: both capacitors, the higher one as the level, and the gain. -/
structure SubframeLevel where
  capacitorFast : ℤ
  capacitorSlow : ℤ
  curLevel : ℤ
  gain : ℤ

def followFast (env capacitorFast : ℤ) : Option ℤ := do
  let capacitorFast ← agcScaleDiff32 (-1000) capacitorFast capacitorFast
  return if capacitorFast < env then env else capacitorFast

def followSlow (decay env capacitorSlow : ℤ) : Option ℤ :=
  if capacitorSlow < env then do
    let difference ← int32? (env - capacitorSlow)
    agcScaleDiff32 500 difference capacitorSlow
  else agcScaleDiff32 decay capacitorSlow capacitorSlow

def subframeLevel (gainTable : List ℤ) (decay env capacitorFast capacitorSlow : ℤ) :
    Option SubframeLevel := do
  let capacitorFast ← followFast env capacitorFast
  let capacitorSlow ← followSlow decay env capacitorSlow
  let curLevel := if capacitorSlow < capacitorFast then capacitorFast else capacitorSlow
  let gain ← levelGain gainTable curLevel
  return ⟨capacitorFast, capacitorSlow, curLevel, gain⟩

def subframeLevels (gainTable : List ℤ) (decay : ℤ) : List ℤ → ℤ → ℤ → Option (List SubframeLevel)
  | [], _, _ => some []
  | env :: envs, capacitorFast, capacitorSlow => do
    let l ← subframeLevel gainTable decay env capacitorFast capacitorSlow
    let rest ← subframeLevels gainTable decay envs l.capacitorFast l.capacitorSlow
    return l :: rest

def updateGate (last : SubframeLevel) (stdShortTerm gatePrevious : ℤ) : ℤ × ℤ :=
  let zeros := toInt16 (levelZeros last.curLevel * 2 ^ 9 - levelFrac last.curLevel / 2 ^ 3)
  let zerosFast := toInt16
    (levelZeros last.capacitorFast * 2 ^ 9 - levelMantissa last.capacitorFast / 2 ^ 22)
  let gate := toInt16 (1000 + zerosFast - zeros - stdShortTerm)
  if gate < 0 then (gate, 0)
  else
    let gate := toInt16 ((gate + gatePrevious * 7) / 2 ^ 3)
    (gate, gate)

/-- The difference of a gain and the first entry of the table, after the gate. A large one is
shifted first, to prevent wraparound. -/
def gateDifference (gainAdj difference : ℤ) : Option ℤ :=
  if 8388608 < difference then int32? (difference / 2 ^ 8 * (178 + gainAdj))
  else (int32? (difference * (178 + gainAdj))).map (· / 2 ^ 8)

def gateGain (gain₀ gainAdj gain : ℤ) : Option ℤ := do
  let difference ← int32? (gain - gain₀)
  let scaled ← gateDifference gainAdj difference
  int32? (gain₀ + scaled)

def gateGains (gainTable : List ℤ) (gate : ℤ) (gains : List ℤ) : Option (List ℤ) :=
  if 0 < gate then do
    let gain₀ ← gainTableAt? gainTable 0
    gains.mapM (gateGain gain₀ (if gate < 2500 then (2500 - gate) / 2 ^ 5 else 0))
  else some gains

def overloads (env : ℤ) (zeros : ℕ) (gain : ℤ) : Option Bool := do
  let gain32 ← int32? (gain / 2 ^ zeros + 1)
  let gain32 ← int32? (gain32 * gain32)
  let power ← agcMul32 (env / 2 ^ 12 + 1) gain32
  let limit ← shiftW32 32767 (2 * (1 - zeros + 10))
  return limit < power

def lowerGain (gain : ℤ) : Option ℤ :=
  if 8388607 < gain then int32? (gain.tdiv 256 * 253)
  else (int32? (gain * 253)).map fun x => x.tdiv 256

def limiterLoop (env : ℤ) (zeros : ℕ) : ℕ → ℤ → Option ℤ
  | 0, _ => none
  | fuel + 1, gain => do
    if ← overloads env zeros gain then (lowerGain gain).bind (limiterLoop env zeros fuel)
    else some gain

def limitGain (env gain : ℤ) : Option ℤ :=
  limiterLoop env (if 47452159 < gain then 16 - normW32 gain else 10) (gain.toNat + 1) gain

def reduceEarlier : List ℤ → List ℤ
  | g :: h :: gains => (if h < g then h else g) :: reduceEarlier (h :: gains)
  | gains => gains

namespace DigitalAgc

def initDigital (agcMode : AgcMode) (gainTable : List ℤ) : DigitalAgc where
  capacitorSlow := if agcMode = .fixedDigital then 0 else 134217728
  capacitorFast := 0
  gain := 65536
  gainTable := gainTable
  gatePrevious := 0
  agcMode := agcMode
  vadNearend := .init
  vadFarend := .init

def init (agcMode : AgcMode) : Option (Option DigitalAgc) :=
  (Agc.setConfig agcMode ⟨3, 9, 1⟩).map fun table => table.map (initDigital agcMode)

def setConfig (s : DigitalAgc) (config : AgcConfig) : Option (Option DigitalAgc) :=
  (Agc.setConfig s.agcMode config).map fun table =>
    table.map fun gainTable => { s with gainTable }

def addFarend (s : DigitalAgc) (inFar : List ℤ) : Option DigitalAgc := do
  let vadFarend ← s.vadFarend.processVad inFar inFar.length
  return { s with vadFarend }

def logratio (s : DigitalAgc) : ℤ :=
  if 10 < s.vadFarend.counter then
    toInt16 ((3 * s.vadNearend.logRatio - s.vadFarend.logRatio) / 2 ^ 2)
  else s.vadNearend.logRatio

def decay (s : DigitalAgc) (lowlevelSignal : ℤ) : ℤ :=
  let decay :=
    if 1024 < s.logratio then -65
    else if s.logratio < 0 then 0
    else toInt16 ((0 - s.logratio) * 65 / 2 ^ 10)
  if s.agcMode = .fixedDigital then decay
  else
    let decay :=
      if s.vadNearend.stdLongTerm < 4000 then 0
      else if s.vadNearend.stdLongTerm < 8096 then
        toInt16 ((s.vadNearend.stdLongTerm - 4000) * decay / 2 ^ 12)
      else decay
    if lowlevelSignal ≠ 0 then 0 else decay

structure Result where
  state : DigitalAgc
  levels : List SubframeLevel
  gains : List ℤ

def gainsOf (s : DigitalAgc) (env : List ℤ) (lowlevelSignal : ℤ) : Option Result := do
  let levels ← subframeLevels s.gainTable (s.decay lowlevelSignal) env s.capacitorFast
    s.capacitorSlow
  let last ← levels.getLast?
  let (gate, gatePrevious) := updateGate last s.vadNearend.stdShortTerm s.gatePrevious
  let gated ← gateGains s.gainTable gate (levels.map (·.gain))
  let limited ← (env.zip gated).mapM fun (env, gain) => limitGain env gain
  let gain ← limited.getLast?
  let state := { s with
    capacitorFast := last.capacitorFast, capacitorSlow := last.capacitorSlow, gatePrevious, gain }
  return ⟨state, levels, s.gain :: reduceEarlier limited⟩

def computeDigitalGains (s : DigitalAgc) (inNear : List ℤ) (fs : ℕ) (lowlevelSignal : ℤ) :
    Option (Option Result) :=
  match samplesPerMs fs with
  | none => some none
  | some (l, _) => do
    let vadNearend ← s.vadNearend.processVad inNear (l * 10)
    let r ← { s with vadNearend }.gainsOf (envelope inNear l) lowlevelSignal
    return some r

def configured (agcMode : AgcMode) (config : AgcConfig) : Option (Option DigitalAgc) := do
  match ← init agcMode with
  | none => return none
  | some s => s.setConfig config

inductive Call where
  | addFarend (inFar : List ℤ)
  | computeDigitalGains (inNear : List ℤ) (lowlevelSignal : ℤ)

def step (fs : ℕ) (s : DigitalAgc) : Call → Option DigitalAgc
  | .addFarend inFar => s.addFarend inFar
  | .computeDigitalGains inNear lowlevelSignal => do
    match ← s.computeDigitalGains inNear fs lowlevelSignal with
    | none => return s
    | some r => return r.state

end DigitalAgc

def gainRamp (delta : ℤ) : ℕ → ℤ → Option (List ℤ)
  | 0, _ => some []
  | n + 1, gain32 => do
    let next ← int32? (gain32 + delta)
    let rest ← gainRamp delta n next
    return gain32 :: rest

def subframeRamp (l l2 : ℕ) (gain nextGain : ℤ) : Option (List ℤ) := do
  let difference ← int32? (nextGain - gain)
  let delta ← int32? (difference * 2 ^ (4 - l2))
  let gain32 ← int32? (gain * 2 ^ 4)
  gainRamp delta l gain32

def gainRamps (l l2 : ℕ) (gains : List ℤ) : Option (List (List ℤ)) :=
  (gains.zip gains.tail).mapM fun (gain, nextGain) => subframeRamp l l2 gain nextGain

def applyFirst (x gain32 : ℤ) : Option ℤ := do
  let rounded ← int32? (gain32 + 127)
  let outTmp := toInt32 (x * (rounded / 2 ^ 7) / 2 ^ 16)
  return if 4095 < outTmp then 32767
    else if outTmp < -4096 then -32768
    else toInt16 (toInt32 (x * (gain32 / 2 ^ 4) / 2 ^ 16))

def amplified (x gain32 : ℤ) : ℤ := x * (gain32 / 2 ^ 4) / 2 ^ 16

def applyGain (x gain32 : ℤ) : ℤ :=
  if 32767 < amplified x gain32 then 32767
  else if amplified x gain32 < -32768 then -32768
  else amplified x gain32

def applyBand (ramps : List (List ℤ)) (band : List ℤ) : Option (List ℤ) :=
  match ramps with
  | [] => some band
  | first :: others => do
    let start ← (band.zip first).mapM fun (x, gain32) => applyFirst x gain32
    return start ++ List.zipWith applyGain (band.drop first.length) others.flatten

def applyDigitalGains (gains : List ℤ) (fs : ℕ) (bands : List (List ℤ)) :
    Option (Option (List (List ℤ))) :=
  match samplesPerMs fs with
  | none => some none
  | some (l, l2) => do
    let ramps ← gainRamps l l2 gains
    let out ← bands.mapM (applyBand ramps)
    return some out

end WebRtcAudio.Agc
