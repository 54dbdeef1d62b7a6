import WebRtcAudio.CommonAudio.SignalProcessing

/-! The adaptation of one frequency bin of the echo channel in `WebRtcAecm_UpdateChannel`. -/
namespace WebRtcAudio.Aecm

open WebRtcAudio.Core WebRtcAudio.CommonAudio Option

def resolutionChannel32 : ℤ := 28

def channelVad : ℕ := 16

structure Bin where
  i : ℕ
  /-- `channelAdapt32`. -/
  channel : ℤ
  far : ℕ
  farQ : ℤ
  dfa : ℕ
  dfaNoisyQDomain : ℤ
  mu : ℤ

namespace Bin

def zerosCh (b : Bin) : ℕ := normU32 (toUInt32 b.channel)

def zerosFar (b : Bin) : ℕ := normU32 b.far

def shiftChFar (b : Bin) : ℕ :=
  if 31 < b.zerosCh + b.zerosFar then 0 else 32 - b.zerosCh - b.zerosFar

def channelFar (b : Bin) : ℕ :=
  if 31 < b.zerosCh + b.zerosFar then toUInt32 b.channel * b.far % 2 ^ 32
  else toUInt32 (if 32 ≤ b.shiftChFar then 0 else b.channel / 2 ^ b.shiftChFar) * b.far % 2 ^ 32

def zerosNum (b : Bin) : ℕ := normU32 b.channelFar

def zerosDfa (b : Bin) : ℕ := if b.dfa = 0 then 32 else normU32 b.dfa

def farQLimit (b : Bin) : ℤ :=
  toInt16 (b.zerosDfa - 2 + b.dfaNoisyQDomain - resolutionChannel32 - b.farQ + b.shiftChFar)

def xfaQ (b : Bin) : ℤ := if b.farQLimit + 1 < b.zerosNum then b.farQLimit else b.zerosNum - 2

def dfaQ (b : Bin) : ℤ :=
  if b.farQLimit + 1 < b.zerosNum then b.zerosDfa - 2
  else toInt16 (resolutionChannel32 + b.farQ - b.dfaNoisyQDomain - b.shiftChFar + b.xfaQ)

def error (b : Bin) : Option ℤ := do
  let echo ← shiftU32 b.channelFar b.xfaQ
  let near ← shiftU32 b.dfa b.dfaQ
  int32? (toInt32 near - toInt32 echo)

def farThreshold (b : Bin) : Option ℕ :=
  if 0 ≤ b.farQ ∧ b.farQ < 27 then some (channelVad * 2 ^ b.farQ.toNat) else none

def shiftNum (b : Bin) (error : ℤ) : ℕ :=
  if 31 < normW32 error + b.zerosFar then 0 else 32 - (normW32 error + b.zerosFar)

def errorFar (b : Bin) (error : ℤ) : Option ℤ :=
  if 31 < normW32 error + b.zerosFar then
    if 0 < error then some (toInt32 (toUInt32 error * b.far))
    else int32? (-toInt32 (toUInt32 (-error) * b.far))
  else if 0 < error then int32? (error / 2 ^ b.shiftNum error * b.far)
  else do
    let magnitude ← int32? (-error)
    int32? (-(magnitude / 2 ^ b.shiftNum error * b.far))

def shift2ResChan (b : Bin) (error : ℤ) : ℤ :=
  toInt16 (b.shiftNum error + b.shiftChFar - b.xfaQ - b.mu - (30 - b.zerosFar) * 2)

def increment (b : Bin) (error : ℤ) : Option ℤ := do
  let product ← b.errorFar error
  let normalized := divW32W16 product (b.i + 1)
  if normW32 normalized < b.shift2ResChan error then some word32Max
  else shiftW32 normalized (b.shift2ResChan error)

def adapted (b : Bin) : Option (Option ℤ) :=
  b.error.bind fun error =>
    if error = 0 then some none
    else b.farThreshold.bind fun threshold =>
      if b.far ≤ threshold then some none
      else (b.increment error).map fun increment => some (max (addSatW32 b.channel increment) 0)

theorem adapted_bounds {b : Bin} {channel : ℤ} (h : b.adapted = some (some channel)) :
    0 ≤ channel ∧ channel ≤ word32Max := by
  obtain ⟨error, -, hu⟩ := bind_eq_some_iff.mp h
  split at hu
  · exact absurd hu nofun
  obtain ⟨threshold, -, hu⟩ := bind_eq_some_iff.mp hu
  split at hu
  · exact absurd hu nofun
  obtain ⟨increment, -, hc⟩ := map_eq_some_iff.mp hu
  obtain rfl := some_inj.mp hc
  exact ⟨le_max_right _ _, max_le (addSatW32_le _ _) (by decide)⟩

def nextChannel (b : Bin) : Option ℤ := b.adapted.map fun channel => channel.getD b.channel

end Bin

end WebRtcAudio.Aecm
