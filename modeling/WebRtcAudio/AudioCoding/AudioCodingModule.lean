import Mathlib.Data.Nat.Notation

/-! The sending side of `AudioCodingModuleImpl`. Of a frame its format and its timestamp are kept;
rates are positive `int`s. -/
namespace WebRtcAudio.AudioCoding

structure AudioFrame where
  timestamp : UInt32
  sampleRateHz : ℕ
  numChannels : ℕ
  samplesPerChannel : ℕ

structure AudioEncoder where
  sampleRateHz : ℕ
  rtpTimestampRateHz : ℕ
  numChannels : ℕ

def audioEncoderG722 (numChannels : ℕ) : AudioEncoder := ⟨16000, 16000 / 2, numChannels⟩

inductive AcmCheck where
  | notEvenlyDivisible
  | encodedAudioSize

/-- `AudioEncoder::Encode` with its check of the size of the audio; the RTP timestamp is what
the encoder gets. -/
def AudioEncoder.encode (encoder : AudioEncoder) (rtpTimestamp : UInt32) (audioSize : ℕ) :
    Except AcmCheck UInt32 :=
  if audioSize ≠ encoder.numChannels * encoder.sampleRateHz / 100 then .error .encodedAudioSize
  else .ok rtpTimestamp

structure InputData where
  inputTimestamp : UInt32
  lengthPerChannel : ℕ
  audioChannel : ℕ

def kMaxInputSampleRateHz : ℕ := 192000

def kMaxDataSizeSamples : ℕ := 7680

def isNewerTimestamp (timestamp prevTimestamp : UInt32) : Bool :=
  if timestamp - prevTimestamp = 0x80000000 then decide (timestamp > prevTimestamp)
  else decide (timestamp ≠ prevTimestamp) && decide (timestamp - prevTimestamp < 0x80000000)

def checkedDivExact (a b : ℕ) : Except AcmCheck ℕ :=
  if a % b ≠ 0 then .error .notEvenlyDivisible else .ok (a / b)

def resample10Msec (inFreqHz outFreqHz numAudioChannels outCapacitySamples : ℕ) : Option ℕ :=
  let inLength := inFreqHz * numAudioChannels / 100
  if inFreqHz = outFreqHz then
    if outCapacitySamples < inLength then none else some (inLength / numAudioChannels)
  else if inFreqHz = 0 ∨ outFreqHz = 0 ∨ numAudioChannels = 0 then none
  else some (outFreqHz / 100 * numAudioChannels / numAudioChannels)

structure AudioCodingModuleImpl where
  encoderStack : Option AudioEncoder
  expectedCodecTs : UInt32
  expectedInTs : UInt32
  first10msData : Bool
  firstFrame : Bool
  lastTimestamp : UInt32
  lastRtpTimestamp : UInt32

namespace AudioCodingModuleImpl

def create (lastTimestamp lastRtpTimestamp : UInt32) : AudioCodingModuleImpl where
  encoderStack := none
  expectedCodecTs := 0xD87F3F9F
  expectedInTs := 0xD87F3F9F
  first10msData := false
  firstFrame := true
  lastTimestamp := lastTimestamp
  lastRtpTimestamp := lastRtpTimestamp

/-- The part of `PreprocessToAddData` before the audio is touched: the expected timestamps follow
the input. The ratio of the rates is a `double` converted to an integer, which for positive
`int`s is the integer quotient. -/
def expectTimestamp (acm : AudioCodingModuleImpl) (encoder : AudioEncoder) (inFrame : AudioFrame) :
    AudioCodingModuleImpl :=
  if !acm.first10msData then
    { acm with
      expectedInTs := inFrame.timestamp
      expectedCodecTs := inFrame.timestamp
      first10msData := true }
  else if inFrame.timestamp ≠ acm.expectedInTs then
    { acm with
      expectedCodecTs := acm.expectedCodecTs + (inFrame.timestamp - acm.expectedInTs) *
        UInt32.ofNat (encoder.sampleRateHz / inFrame.sampleRateHz)
      expectedInTs := inFrame.timestamp }
  else acm

def advance (acm : AudioCodingModuleImpl) (codecSamples inSamples : ℕ) : AudioCodingModuleImpl :=
  { acm with
    expectedCodecTs := acm.expectedCodecTs + UInt32.ofNat codecSamples
    expectedInTs := acm.expectedInTs + UInt32.ofNat inSamples }

def preprocessToAddData (acm : AudioCodingModuleImpl) (encoder : AudioEncoder)
    (inFrame : AudioFrame) : AudioCodingModuleImpl × Option AudioFrame :=
  let resample := inFrame.sampleRateHz ≠ encoder.sampleRateHz
  let downMix := inFrame.numChannels = 2 ∧ encoder.numChannels = 1
  let acm := acm.expectTimestamp encoder inFrame
  if ¬ downMix ∧ ¬ resample then
    let out := if acm.expectedInTs = acm.expectedCodecTs then inFrame
      else { inFrame with timestamp := acm.expectedCodecTs }
    (acm.advance inFrame.samplesPerChannel inFrame.samplesPerChannel, some out)
  else
    let numChannels := if downMix then 1 else inFrame.numChannels
    let preprocessFrame : AudioFrame :=
      ⟨acm.expectedCodecTs, inFrame.sampleRateHz, numChannels, inFrame.samplesPerChannel⟩
    if resample then
      match resample10Msec inFrame.sampleRateHz encoder.sampleRateHz numChannels
          kMaxDataSizeSamples with
      | none => (acm, none)
      | some samplesPerChannel =>
        (acm.advance samplesPerChannel inFrame.samplesPerChannel,
          some { preprocessFrame with
            samplesPerChannel, sampleRateHz := encoder.sampleRateHz })
    else
      (acm.advance inFrame.samplesPerChannel inFrame.samplesPerChannel, some preprocessFrame)

def add10MsDataInternal (acm : AudioCodingModuleImpl) (audioFrame : AudioFrame) :
    AudioCodingModuleImpl × Option InputData :=
  if audioFrame.samplesPerChannel = 0 then (acm, none)
  else if audioFrame.sampleRateHz > kMaxInputSampleRateHz then (acm, none)
  else if audioFrame.sampleRateHz / 100 ≠ audioFrame.samplesPerChannel then (acm, none)
  else if audioFrame.numChannels ≠ 1 ∧ audioFrame.numChannels ≠ 2 ∧ audioFrame.numChannels ≠ 4 ∧
      audioFrame.numChannels ≠ 6 ∧ audioFrame.numChannels ≠ 8 then (acm, none)
  else match acm.encoderStack with
  | none => (acm, none)
  | some encoder =>
    match acm.preprocessToAddData encoder audioFrame with
    | (acm, none) => (acm, none)
    -- A remix to the channels of the encoder keeps the samples per channel.
    | (acm, some frame) =>
      (acm, some ⟨frame.timestamp, frame.samplesPerChannel, encoder.numChannels⟩)

def encode (acm : AudioCodingModuleImpl) (inputData : InputData) :
    Except AcmCheck (AudioCodingModuleImpl × Option UInt32) :=
  match acm.encoderStack with
  | none => .ok (acm, none)
  | some encoder => do
    let rtpTimestamp ←
      if acm.firstFrame then .ok inputData.inputTimestamp
      else do
        let ticks ← checkedDivExact
          ((inputData.inputTimestamp - acm.lastTimestamp).toNat * encoder.rtpTimestampRateHz)
          encoder.sampleRateHz
        .ok (acm.lastRtpTimestamp + UInt32.ofNat ticks)
    let encoded ← encoder.encode rtpTimestamp
      (inputData.audioChannel * inputData.lengthPerChannel)
    .ok ({ acm with
      lastTimestamp := inputData.inputTimestamp
      lastRtpTimestamp := rtpTimestamp
      firstFrame := false }, some encoded)

def add10MsData (acm : AudioCodingModuleImpl) (audioFrame : AudioFrame) :
    Except AcmCheck (AudioCodingModuleImpl × Option UInt32) :=
  match acm.add10MsDataInternal audioFrame with
  | (acm, none) => .ok (acm, none)
  | (acm, some inputData) => acm.encode inputData

end AudioCodingModuleImpl

end WebRtcAudio.AudioCoding
