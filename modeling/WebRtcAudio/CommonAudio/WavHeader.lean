import WebRtcAudio.Core.LittleEndian
import WebRtcAudio.Core.MachineInt

/-! The writing and reading of WAV headers. Sizes are 64-bit and stay far below their range. -/
namespace WebRtcAudio.CommonAudio

open WebRtcAudio.Core

inductive WavFormat where
  | kWavFormatPcm
  | kWavFormatIeeeFloat
  | kWavFormatALaw
  | kWavFormatMuLaw
  deriving DecidableEq

inductive WavHeaderCheck where
  | unsupportedWavFormat
  | checkWavParameters
  | formatIsIeeeFloat

/-- A file opened for reading: `FileWrapper` together with the position that
`WavHeaderFileReader` counts. Like `fseek`, seeking may leave the content. -/
structure WavHeaderFileReader where
  content : List UInt8
  position : ℕ

namespace WavHeaderFileReader

def rest (file : WavHeaderFileReader) : List UInt8 := file.content.drop file.position

def read (file : WavHeaderFileReader) (numBytes : ℕ) : List UInt8 × WavHeaderFileReader :=
  let bytes := file.rest.take numBytes
  (bytes, { file with position := file.position + bytes.length })

def seekForward (file : WavHeaderFileReader) (numBytes : ℕ) : WavHeaderFileReader :=
  { file with position := file.position + numBytes }

section
variable (file : WavHeaderFileReader)
include file

theorem length_rest : file.rest.length = file.content.length - file.position := by
  rw [rest, List.length_drop]

theorem length_read (numBytes : ℕ) :
    (file.read numBytes).1.length = min numBytes file.rest.length := by
  rw [read, List.length_take]

theorem length_rest_read (numBytes : ℕ) :
    (file.read numBytes).2.rest.length = file.rest.length - min numBytes file.rest.length := by
  rw [← length_read, length_rest, length_rest]
  change file.content.length - (file.position + (file.read numBytes).1.length) = _
  omega

theorem length_rest_seekForward (numBytes : ℕ) :
    (file.seekForward numBytes).rest.length = file.rest.length - numBytes := by
  rw [length_rest, length_rest]
  change file.content.length - (file.position + numBytes) = _
  omega

end

theorem read_eq_seekForward {file : WavHeaderFileReader} {numBytes : ℕ}
    (hr : (file.read numBytes).1.length = numBytes) :
    (file.read numBytes).2 = file.seekForward numBytes := by
  change ({ file with position := file.position + (file.read numBytes).1.length } :
    WavHeaderFileReader) = _
  rw [hr]
  rfl

theorem read_of_rest_eq_append {file : WavHeaderFileReader} {bytes tail : List UInt8}
    {numBytes : ℕ} (hr : file.rest = bytes ++ tail) (hb : bytes.length = numBytes) :
    file.read numBytes = (bytes, file.seekForward numBytes) ∧
      (file.seekForward numBytes).rest = tail := by
  have ht : file.rest.take numBytes = bytes := by rw [hr, ← hb, List.take_left]
  constructor
  · rw [read, ht, hb]
    rfl
  · change file.content.drop (file.position + numBytes) = tail
    rw [← List.drop_drop]
    change file.rest.drop numBytes = tail
    rw [hr, ← hb, List.drop_left]

end WavHeaderFileReader

structure ChunkHeader where
  /-- Four characters, the first one in the low byte. -/
  id : ℕ
  size : ℕ
  deriving DecidableEq

structure RiffHeader where
  header : ChunkHeader
  format : ℕ

structure FmtPcmSubchunk where
  header : ChunkHeader
  audioFormat : ℕ
  numChannels : ℕ
  sampleRate : ℕ
  byteRate : ℕ
  blockAlign : ℕ
  bitsPerSample : ℕ

structure WavHeaderPcm where
  riff : RiffHeader
  fmt : FmtPcmSubchunk
  data : ChunkHeader

structure WavHeaderIeeeFloat where
  riff : RiffHeader
  fmt : FmtPcmSubchunk
  extensionSize : ℕ
  fact : ChunkHeader
  sampleLength : ℕ
  data : ChunkHeader

def sizeofChunkHeader : ℕ := 8

def sizeofRiffHeader : ℕ := 12

def kFmtPcmSubchunkSize : ℕ := 16

def kFmtIeeeFloatSubchunkSize : ℕ := 18

def kPcmWavHeaderSize : ℕ := 44

def kIeeeFloatWavHeaderSize : ℕ := 58

def asciiBytes (s : List Char) : List UInt8 := s.map fun c => UInt8.ofNat c.toNat

def packFourCC (a b c d : Char) : ℕ := ofLeBytes (asciiBytes [a, b, c, d])

def readFourCC (x : ℕ) : List UInt8 := leBytes 4 x

def fieldAt (bytes : List UInt8) (offset k : ℕ) : ℕ := ofLeBytes ((bytes.drop offset).take k)

namespace ChunkHeader

def toBytes (header : ChunkHeader) : List UInt8 := leBytes 4 header.id ++ leBytes 4 header.size

def ofBytes (bytes : List UInt8) : ChunkHeader := ⟨fieldAt bytes 0 4, fieldAt bytes 4 4⟩

end ChunkHeader

namespace RiffHeader

def toBytes (riff : RiffHeader) : List UInt8 := riff.header.toBytes ++ leBytes 4 riff.format

def ofBytes (bytes : List UInt8) : RiffHeader :=
  ⟨ChunkHeader.ofBytes (bytes.take 8), fieldAt bytes 8 4⟩

end RiffHeader

namespace FmtPcmSubchunk

def payload (fmt : FmtPcmSubchunk) : List UInt8 :=
  leBytes 2 fmt.audioFormat ++ leBytes 2 fmt.numChannels ++ leBytes 4 fmt.sampleRate ++
    leBytes 4 fmt.byteRate ++ leBytes 2 fmt.blockAlign ++ leBytes 2 fmt.bitsPerSample

def ofPayload (header : ChunkHeader) (bytes : List UInt8) : FmtPcmSubchunk :=
  ⟨header, fieldAt bytes 0 2, fieldAt bytes 2 2, fieldAt bytes 4 4, fieldAt bytes 8 4,
    fieldAt bytes 12 2, fieldAt bytes 14 2⟩

end FmtPcmSubchunk

def WavHeaderPcm.toBytes (header : WavHeaderPcm) : List UInt8 :=
  header.riff.toBytes ++ (header.fmt.header.toBytes ++ (header.fmt.payload ++ header.data.toBytes))

def WavHeaderIeeeFloat.toBytes (header : WavHeaderIeeeFloat) : List UInt8 :=
  header.riff.toBytes ++ (header.fmt.header.toBytes ++ (header.fmt.payload ++
    (leBytes 2 header.extensionSize ++ (header.fact.toBytes ++
      (leBytes 4 header.sampleLength ++ header.data.toBytes)))))

def mapWavFormatToHeaderField : WavFormat → ℕ
  | .kWavFormatPcm => 1
  | .kWavFormatIeeeFloat => 3
  | .kWavFormatALaw => 6
  | .kWavFormatMuLaw => 7

def mapHeaderFieldToWavFormat (formatHeaderValue : ℕ) : Except WavHeaderCheck WavFormat :=
  if formatHeaderValue = 1 then .ok .kWavFormatPcm
  else if formatHeaderValue = 3 then .ok .kWavFormatIeeeFloat
  else .error .unsupportedWavFormat

def riffChunkSize (bytesInPayload headerSize : ℕ) : ℕ :=
  (bytesInPayload + headerSize - sizeofChunkHeader) % 2 ^ 32

def byteRate (numChannels : ℕ) (sampleRate : ℤ) (bytesPerSample : ℕ) : ℕ :=
  toUInt32 (numChannels * sampleRate * bytesPerSample)

def blockAlign (numChannels bytesPerSample : ℕ) : ℕ := numChannels * bytesPerSample % 2 ^ 16

def getFormatBytesPerSample : WavFormat → ℕ
  | .kWavFormatPcm => 2
  | .kWavFormatALaw => 1
  | .kWavFormatMuLaw => 1
  | .kWavFormatIeeeFloat => 4

structure WavParameters where
  numChannels : ℕ
  sampleRate : ℤ
  format : WavFormat
  bytesPerSample : ℕ
  numSamples : ℕ

def formatAgrees : WavFormat → ℕ → Bool
  | .kWavFormatPcm, bytesPerSample => bytesPerSample = 1 ∨ bytesPerSample = 2
  | .kWavFormatALaw, bytesPerSample => bytesPerSample = 1
  | .kWavFormatMuLaw, bytesPerSample => bytesPerSample = 1
  | .kWavFormatIeeeFloat, bytesPerSample => bytesPerSample = 4

def checkWavParameters (p : WavParameters) : Bool :=
  if p.numChannels = 0 ∨ p.sampleRate ≤ 0 ∨ p.bytesPerSample = 0 then false
  else if p.sampleRate > 2 ^ 32 - 1 then false
  else if p.numChannels > 2 ^ 16 - 1 then false
  else if p.bytesPerSample * 8 > 2 ^ 16 - 1 then false
  else if p.sampleRate * p.numChannels * p.bytesPerSample > 2 ^ 32 - 1 then false
  else if !formatAgrees p.format p.bytesPerSample then false
  -- The header size is that of a PCM header for every format.
  else if p.numSamples > (2 ^ 32 - 1 - (kPcmWavHeaderSize - sizeofChunkHeader)) / p.bytesPerSample
    then false
  else if p.numSamples % p.numChannels ≠ 0 then false
  else true

def formatParameters (numChannels : ℕ) (sampleRate : ℤ) (format : WavFormat) (numSamples : ℕ) :
    WavParameters :=
  ⟨numChannels, sampleRate, format, getFormatBytesPerSample format, numSamples⟩

def fmtSubchunk (p : WavParameters) (format : WavFormat) (size : ℕ) : FmtPcmSubchunk where
  header := ⟨packFourCC 'f' 'm' 't' ' ', size⟩
  audioFormat := mapWavFormatToHeaderField format
  numChannels := p.numChannels % 2 ^ 16
  sampleRate := toUInt32 p.sampleRate
  byteRate := byteRate p.numChannels p.sampleRate p.bytesPerSample
  blockAlign := blockAlign p.numChannels p.bytesPerSample
  bitsPerSample := 8 * p.bytesPerSample % 2 ^ 16

def pcmWavHeader (p : WavParameters) : WavHeaderPcm :=
  let bytesInPayload := p.bytesPerSample * p.numSamples
  { riff := ⟨⟨packFourCC 'R' 'I' 'F' 'F', riffChunkSize bytesInPayload kPcmWavHeaderSize⟩,
      packFourCC 'W' 'A' 'V' 'E'⟩
    fmt := fmtSubchunk p .kWavFormatPcm kFmtPcmSubchunkSize
    data := ⟨packFourCC 'd' 'a' 't' 'a', bytesInPayload % 2 ^ 32⟩ }

def ieeeFloatWavHeader (p : WavParameters) : WavHeaderIeeeFloat :=
  let bytesInPayload := p.bytesPerSample * p.numSamples
  { riff := ⟨⟨packFourCC 'R' 'I' 'F' 'F', riffChunkSize bytesInPayload kIeeeFloatWavHeaderSize⟩,
      packFourCC 'W' 'A' 'V' 'E'⟩
    fmt := fmtSubchunk p .kWavFormatIeeeFloat kFmtIeeeFloatSubchunkSize
    extensionSize := 0
    fact := ⟨packFourCC 'f' 'a' 'c' 't', 4⟩
    sampleLength := p.numChannels * p.numSamples % 2 ^ 32
    data := ⟨packFourCC 'd' 'a' 't' 'a', bytesInPayload % 2 ^ 32⟩ }

def writeWavHeader (numChannels : ℕ) (sampleRate : ℤ) (format : WavFormat) (numSamples : ℕ) :
    Except WavHeaderCheck (List UInt8) :=
  let p := formatParameters numChannels sampleRate format numSamples
  if !checkWavParameters p then .error .checkWavParameters
  else if format = .kWavFormatPcm then .ok (pcmWavHeader p).toBytes
  else if format ≠ .kWavFormatIeeeFloat then .error .formatIsIeeeFloat
  else .ok (ieeeFloatWavHeader p).toBytes

def wavHeaderSize (format : WavFormat) : ℕ :=
  if format = .kWavFormatPcm then kPcmWavHeaderSize else kIeeeFloatWavHeaderSize

/-- `FindWaveChunk`: the chunk header with the ID and the file after it, or nothing when the
file ends before. A skipped chunk takes its header away from the rest, so the search ends. -/
def findWaveChunk (readable : WavHeaderFileReader) (soughtChunkId : List UInt8) :
    Option (ChunkHeader × WavHeaderFileReader) :=
  if _hread : (readable.read sizeofChunkHeader).1.length ≠ sizeofChunkHeader then none
  else
    let chunkHeader := ChunkHeader.ofBytes (readable.read sizeofChunkHeader).1
    if readFourCC chunkHeader.id = soughtChunkId then
      some (chunkHeader, (readable.read sizeofChunkHeader).2)
    else
      findWaveChunk ((readable.read sizeofChunkHeader).2.seekForward chunkHeader.size)
        soughtChunkId
termination_by readable.rest.length
decreasing_by
  have hread := not_not.1 _hread
  rw [WavHeaderFileReader.read_eq_seekForward hread,
    WavHeaderFileReader.length_rest_seekForward, WavHeaderFileReader.length_rest_seekForward]
  rw [WavHeaderFileReader.length_read] at hread
  unfold sizeofChunkHeader at hread ⊢
  omega

def readFmtChunkData (header : ChunkHeader) (readable : WavHeaderFileReader) :
    Option (FmtPcmSubchunk × WavHeaderFileReader) :=
  let (bytes, readable) := readable.read kFmtPcmSubchunkSize
  if bytes.length ≠ kFmtPcmSubchunkSize then none
  else
    let fmt := FmtPcmSubchunk.ofPayload header bytes
    if header.size ≠ kFmtPcmSubchunkSize then
      if kFmtPcmSubchunkSize + 2 ≠ header.size then none
      else
        let (extSize, readable) := readable.read 2
        if extSize.length ≠ 2 then none
        else if ofLeBytes extSize ≠ 0 then none
        else some (fmt, readable)
    else some (fmt, readable)

def readWavChunks (readable : WavHeaderFileReader) : Option (WavHeaderPcm × WavHeaderFileReader) :=
  let (bytes, readable) := readable.read sizeofRiffHeader
  if bytes.length ≠ sizeofRiffHeader then none
  else
    let riff := RiffHeader.ofBytes bytes
    if readFourCC riff.header.id ≠ asciiBytes ['R', 'I', 'F', 'F'] then none
    else if readFourCC riff.format ≠ asciiBytes ['W', 'A', 'V', 'E'] then none
    else do
      let (fmtHeader, readable) ← findWaveChunk readable (asciiBytes ['f', 'm', 't', ' '])
      let (fmt, readable) ← readFmtChunkData fmtHeader readable
      let (data, readable) ← findWaveChunk readable (asciiBytes ['d', 'a', 't', 'a'])
      return (⟨riff, fmt, data⟩, readable)

def WavHeaderPcm.parameters (header : WavHeaderPcm) (format : WavFormat) : WavParameters :=
  let bytesPerSample := header.fmt.bitsPerSample / 8
  ⟨header.fmt.numChannels, toInt32 header.fmt.sampleRate, format, bytesPerSample,
    header.data.size / bytesPerSample⟩

/-- `ReadWavHeader`: the parameters and the file at the start of the data, nothing when the
call returns false, and an error when a check aborts it. -/
def readWavHeader (readable : WavHeaderFileReader) :
    Except WavHeaderCheck (Option (WavParameters × WavHeaderFileReader)) :=
  match readWavChunks readable with
  | none => .ok none
  | some (header, readable) => do
    let format ← mapHeaderFieldToWavFormat header.fmt.audioFormat
    let p := header.parameters format
    let headerSize := wavHeaderSize format
    if p.bytesPerSample = 0 then return none
    if header.riff.header.size < riffChunkSize header.data.size headerSize then return none
    if header.fmt.byteRate ≠ byteRate p.numChannels p.sampleRate p.bytesPerSample then return none
    if header.fmt.blockAlign ≠ blockAlign p.numChannels p.bytesPerSample then return none
    if !checkWavParameters p then return none
    return some (p, readable)

end WebRtcAudio.CommonAudio
