import WebRtcAudio.CommonAudio.WavHeaderRoundTrip

/-! `WavReader`: the samples of a WAV file, read in chunks. -/
namespace WebRtcAudio.CommonAudio

open WebRtcAudio.Core

inductive WavReaderCheck where
  | header (check : WavHeaderCheck)
  | readWavHeader
  | formatSupported
  | formatOfSamples
  | endedInTheMiddleOfASample
  | payloadSizeDoesNotMatchHeader

/-- A reader, with the file as `FileWrapper` sees it: `readEof` is the end-of-file indicator,
which a read that delivers less than asked for sets. -/
structure WavReader where
  file : WavHeaderFileReader
  readEof : Bool
  numChannels : ℕ
  sampleRate : ℤ
  format : WavFormat
  numSamplesInFile : ℕ
  dataStartPos : ℕ
  numUnreadSamples : ℕ

def formatSupported (format : WavFormat) : Bool :=
  format = .kWavFormatPcm ∨ format = .kWavFormatIeeeFloat

def kMaxChunksize : ℕ := 4096

namespace WavReader

def ofContent (content : List UInt8) : Except WavReaderCheck WavReader :=
  match readWavHeader ⟨content, 0⟩ with
  | .error check => .error (.header check)
  | .ok none => .error .readWavHeader
  | .ok (some (p, file)) =>
    if !formatSupported p.format then .error .formatSupported
    else .ok
      { file
        readEof := false
        numChannels := p.numChannels
        sampleRate := p.sampleRate
        format := p.format
        numSamplesInFile := p.numSamples
        dataStartPos := file.position
        numUnreadSamples := p.numSamples }

/-- The size of the samples that are read of a format: 16-bit integers or floats, whatever the
header says of the number of bits. -/
def sizeofSample : WavFormat → Option ℕ
  | .kWavFormatPcm => some 2
  | .kWavFormatIeeeFloat => some 4
  | _ => none

structure SampleConversion (S : Type) where
  ofPcm : List UInt8 → S
  ofIeeeFloat : List UInt8 → S

def SampleConversion.convert {S : Type} (conversion : SampleConversion S) (format : WavFormat) :
    List UInt8 → S :=
  if format = .kWavFormatPcm then conversion.ofPcm else conversion.ofIeeeFloat

def convertSamples {S : Type} (convert : List UInt8 → S) (sampleSize : ℕ) (bytes : List UInt8) :
    List S :=
  (List.range (bytes.length / sampleSize)).map fun j =>
    convert ((bytes.drop (j * sampleSize)).take sampleSize)

def readChunk {S : Type} (conversion : SampleConversion S) (reader : WavReader)
    (numSamplesLeftToRead : ℕ) : Except WavReaderCheck (WavReader × List S) :=
  let chunkSize := min (min kMaxChunksize numSamplesLeftToRead) reader.numUnreadSamples
  match sizeofSample reader.format with
  | none => .error .formatOfSamples
  | some sampleSize =>
    let (bytes, file) := reader.file.read (chunkSize * sampleSize)
    let readEof := reader.readEof || decide (bytes.length < chunkSize * sampleSize)
    let samples := convertSamples (conversion.convert reader.format) sampleSize bytes
    if ¬ (samples.length = 0 ∨ bytes.length % samples.length = 0) then
      .error .endedInTheMiddleOfASample
    else if ¬ (samples.length = chunkSize ∨ readEof) then .error .payloadSizeDoesNotMatchHeader
    else .ok
      ({ reader with
          file, readEof, numUnreadSamples := reader.numUnreadSamples - samples.length }, samples)

/-- The loop of `ReadSamples` with a bound on its rounds; `none` when the bound is used up. The
samples returned are those written to the buffer, and their number is the return value. -/
def readSamples {S : Type} (conversion : SampleConversion S) :
    ℕ → WavReader → ℕ → Option (Except WavReaderCheck (WavReader × List S))
  | 0, _, _ => none
  | fuel + 1, reader, numSamplesLeftToRead =>
    if 0 < numSamplesLeftToRead ∧ 0 < reader.numUnreadSamples then
      match reader.readChunk conversion numSamplesLeftToRead with
      | .error check => some (.error check)
      | .ok (reader, samples) =>
        (readSamples conversion fuel reader (numSamplesLeftToRead - samples.length)).map fun
          | .error check => .error check
          | .ok (reader, later) => .ok (reader, samples ++ later)
    else some (.ok (reader, []))

def readSamplesToS16 (floatToS16 : List UInt8 → ℤ) :=
  readSamples ⟨fun bytes => toInt16 (ofLeBytes bytes), floatToS16⟩

def readSamplesToFloat {F : Type} (ofS16 : ℤ → F) (floatToFloatS16 : List UInt8 → F) :=
  readSamples ⟨fun bytes => ofS16 (toInt16 (ofLeBytes bytes)), floatToFloatS16⟩

def Ends {R : Type} (run : ℕ → WavReader → ℕ → Option R) (reader : WavReader) (numSamples : ℕ) :
    Prop :=
  ∃ fuel, (run fuel reader numSamples).isSome

/-- The check for a cut sample fails: there are some whole samples, and their number does not divide
the number of bytes. -/
def FailsCheck (lastBytes sampleSize : ℕ) : Prop :=
  lastBytes / sampleSize ≠ 0 ∧ lastBytes % (lastBytes / sampleSize) ≠ 0

/-- The file holds the samples that are asked for and announced, or the check fails for what it
holds after the last whole chunk. -/
def HoldsSamplesOrFailsCheck (reader : WavReader) (numSamples : ℕ) : Prop :=
  ∀ sampleSize ∈ sizeofSample reader.format,
    min numSamples reader.numUnreadSamples * sampleSize ≤ reader.file.rest.length ∨
      FailsCheck (reader.file.rest.length % (kMaxChunksize * sampleSize)) sampleSize

variable {chunkSize numBytes numSamples sampleSize : ℕ}

section Round

variable {S : Type} {reader : WavReader} {sampleSize : ℕ}

theorem sizeofSample_pos {format : WavFormat} (hs : sizeofSample format = some sampleSize) :
    0 < sampleSize := by
  cases format <;> cases hs <;> decide

theorem length_convertSamples (convert : List UInt8 → S) (bytes : List UInt8) :
    (convertSamples convert sampleSize bytes).length = bytes.length / sampleSize := by
  simp [convertSamples]

/-- A round reads as many bytes as the file still holds. It fails if there are some whole samples
whose number does not divide the number of bytes; a short read never fails the second check,
since it sets the end-of-file indicator. -/
theorem readChunk_eq (conversion : SampleConversion S) (numSamplesLeftToRead : ℕ)
    (hs : sizeofSample reader.format = some sampleSize)
    (hchunk : min (min kMaxChunksize numSamplesLeftToRead) reader.numUnreadSamples = chunkSize)
    (hb : min (chunkSize * sampleSize) reader.file.rest.length = numBytes) :
    (numBytes / sampleSize ≠ 0 ∧ numBytes % (numBytes / sampleSize) ≠ 0 ∧
      reader.readChunk conversion numSamplesLeftToRead = .error .endedInTheMiddleOfASample) ∨
    (¬ (numBytes / sampleSize ≠ 0 ∧ numBytes % (numBytes / sampleSize) ≠ 0) ∧ ∃ reader' samples,
        reader.readChunk conversion numSamplesLeftToRead = .ok (reader', samples) ∧
        samples.length = numBytes / sampleSize ∧ reader'.format = reader.format ∧
        reader'.numUnreadSamples = reader.numUnreadSamples - numBytes / sampleSize ∧
        reader'.file.rest.length = reader.file.rest.length - numBytes) := by
  have hpos := sizeofSample_pos hs
  obtain ⟨bytes, file, hr⟩ :
      ∃ bytes file, reader.file.read (chunkSize * sampleSize) = (bytes, file) := ⟨_, _, rfl⟩
  have hl : bytes.length = numBytes := by
    rw [← hb, ← WavHeaderFileReader.length_read, hr]
  have hrest : file.rest.length = reader.file.rest.length - numBytes := by
    have hf := WavHeaderFileReader.length_rest_read reader.file (chunkSize * sampleSize)
    rw [hr, hb] at hf
    exact hf
  have hsamples : (convertSamples (conversion.convert reader.format) sampleSize bytes).length =
      numBytes / sampleSize := by rw [length_convertSamples, hl]
  have hshort : numBytes / sampleSize = chunkSize ∨ numBytes < chunkSize * sampleSize := by
    by_cases hfull : numBytes = chunkSize * sampleSize
    · exact .inl (by rw [hfull, Nat.mul_div_cancel _ hpos])
    · exact .inr (by omega)
  unfold readChunk
  rw [hs, hchunk]
  simp only [hr, hsamples, hl]
  by_cases hcut : numBytes / sampleSize ≠ 0 ∧ numBytes % (numBytes / sampleSize) ≠ 0
  · exact .inl ⟨hcut.1, hcut.2, if_pos (by tauto)⟩
  · have hc : numBytes / sampleSize = chunkSize ∨
        (reader.readEof || decide (numBytes < chunkSize * sampleSize)) = true := by
      rw [Bool.or_eq_true, decide_eq_true_eq]
      tauto
    exact .inr ⟨hcut, _, _, (if_neg (by tauto)).trans (if_neg (not_not.2 hc)), hsamples, rfl,
      rfl, hrest⟩

end Round

variable {reader : WavReader}

section Loop

variable {S : Type} {conversion : SampleConversion S}

theorem readSamples_isSome_of_error {check : WavReaderCheck}
    (hreads : 0 < numSamples ∧ 0 < reader.numUnreadSamples)
    (hchunk : reader.readChunk conversion numSamples = .error check) :
    Ends (readSamples conversion) reader numSamples := by
  refine ⟨1, ?_⟩
  rw [readSamples, if_pos hreads, hchunk]
  rfl

section
variable {reader reader' : WavReader} {numSamples : ℕ} {samples : List S}
  (hreads : 0 < numSamples ∧ 0 < reader.numUnreadSamples)
  (hchunk : reader.readChunk conversion numSamples = .ok (reader', samples))
include hreads hchunk

theorem readSamples_isSome_of_ok (fuel : ℕ) :
    (readSamples conversion (fuel + 1) reader numSamples).isSome =
      (readSamples conversion fuel reader' (numSamples - samples.length)).isSome := by
  rw [readSamples, if_pos hreads, hchunk]
  exact Option.isSome_map

theorem ends_iff_of_ok : Ends (readSamples conversion) reader numSamples ↔
      Ends (readSamples conversion) reader' (numSamples - samples.length) := by
  constructor
  · rintro ⟨fuel, hf⟩
    cases fuel with
    | zero => cases hf
    | succ fuel => exact ⟨fuel, readSamples_isSome_of_ok hreads hchunk fuel ▸ hf⟩
  · rintro ⟨fuel, hf⟩
    exact ⟨fuel + 1, readSamples_isSome_of_ok hreads hchunk fuel ▸ hf⟩

end

theorem not_ends_of_rest_eq_nil (hs : sizeofSample reader.format = some sampleSize)
    (hreads : 0 < numSamples ∧ 0 < reader.numUnreadSamples) (hr : reader.file.rest.length = 0) :
    ¬ Ends (readSamples conversion) reader numSamples := by
  rintro ⟨fuel, hf⟩
  induction fuel generalizing reader with
  | zero => cases hf
  | succ fuel ih =>
    obtain ⟨hz, -, -⟩ | ⟨-, reader', samples, hchunk, hl, hfo, hu, hr'⟩ :=
      readChunk_eq conversion numSamples hs rfl rfl
    · simp [hr] at hz
    · rw [hr, Nat.min_zero, Nat.zero_div] at hl hu
      rw [readSamples_isSome_of_ok hreads hchunk, hl] at hf
      exact ih (by rw [hfo, hs]) ⟨hreads.1, by omega⟩ (by omega) hf

/-- A whole chunk changes neither whether the samples left are in the file nor the number of
bytes after the last whole chunk. -/
theorem holds_or_fails_after_chunk {numUnread : ℕ}
    (hchunk : min (min kMaxChunksize numSamples) numUnread = chunkSize)
    (hf : chunkSize * sampleSize ≤ numBytes) :
    (min (numSamples - chunkSize) (numUnread - chunkSize) * sampleSize ≤
        numBytes - chunkSize * sampleSize ∨
      FailsCheck ((numBytes - chunkSize * sampleSize) % (kMaxChunksize * sampleSize)) sampleSize) ↔
    (min numSamples numUnread * sampleSize ≤ numBytes ∨
      FailsCheck (numBytes % (kMaxChunksize * sampleSize)) sampleSize) := by
  have hw : min (numSamples - chunkSize) (numUnread - chunkSize) * sampleSize =
      min numSamples numUnread * sampleSize - chunkSize * sampleSize := by
    rw [← Nat.sub_mul]
    congr 1
    omega
  rw [hw]
  by_cases hmax : chunkSize = kMaxChunksize
  · have hmod : (numBytes - chunkSize * sampleSize) % (kMaxChunksize * sampleSize) =
        numBytes % (kMaxChunksize * sampleSize) := by
      rw [hmax] at hf ⊢
      rw [← Nat.mod_eq_sub_mod hf]
    rw [hmod]
    have hle : min numSamples numUnread * sampleSize - chunkSize * sampleSize ≤
        numBytes - chunkSize * sampleSize ↔ min numSamples numUnread * sampleSize ≤ numBytes := by
      omega
    rw [hle]
  · -- The chunk is all that is left to read.
    have hl : min numSamples numUnread = chunkSize := by omega
    rw [hl]
    exact iff_of_true (.inl (by omega)) (.inl hf)

theorem ends_iff (hs : sizeofSample reader.format = some sampleSize) :
    Ends (readSamples conversion) reader numSamples ↔
      min numSamples reader.numUnreadSamples * sampleSize ≤ reader.file.rest.length ∨
        FailsCheck (reader.file.rest.length % (kMaxChunksize * sampleSize)) sampleSize := by
  have hpos := sizeofSample_pos hs
  -- Each round takes a chunk away from the samples left to read.
  induction numSamples using Nat.strong_induction_on generalizing reader with
  | _ numSamples ih =>
    by_cases hreads : 0 < numSamples ∧ 0 < reader.numUnreadSamples
    swap
    · have hw : min numSamples reader.numUnreadSamples = 0 := by omega
      rw [hw, Nat.zero_mul]
      refine iff_of_true ⟨1, ?_⟩ (.inl (Nat.zero_le _))
      rw [readSamples, if_neg hreads]
      rfl
    obtain ⟨chunkSize, hc⟩ :
        ∃ chunkSize, min (min kMaxChunksize numSamples) reader.numUnreadSamples = chunkSize :=
      ⟨_, rfl⟩
    have hmax : chunkSize * sampleSize ≤ kMaxChunksize * sampleSize :=
      Nat.mul_le_mul_right _ (by omega)
    have hw : chunkSize * sampleSize ≤ min numSamples reader.numUnreadSamples * sampleSize :=
      Nat.mul_le_mul_right _ (by omega)
    have hchunkPos : 0 < chunkSize := by
      unfold kMaxChunksize at hc
      omega
    by_cases hf : chunkSize * sampleSize ≤ reader.file.rest.length
    · -- A whole chunk is read.
      have hdiv : chunkSize * sampleSize / sampleSize = chunkSize := Nat.mul_div_cancel _ hpos
      obtain ⟨-, hcut, -⟩ | ⟨-, reader', samples, hok, hl, hfo, hu, hr⟩ :=
        readChunk_eq conversion numSamples hs hc (Nat.min_eq_left hf)
      · rw [hdiv, Nat.mul_mod_right] at hcut
        exact absurd rfl hcut
      · rw [hdiv] at hl hu
        have hlater := ih (numSamples - chunkSize) (by omega) (hfo ▸ hs)
        rw [hu, hr] at hlater
        refine (ends_iff_of_ok hreads hok).trans ?_
        rw [hl]
        exact hlater.trans (holds_or_fails_after_chunk hc hf)
    · -- The file ends in this chunk, so the next rounds read nothing.
      have hshort : min (chunkSize * sampleSize) reader.file.rest.length =
          reader.file.rest.length := by omega
      have hlast : reader.file.rest.length % (kMaxChunksize * sampleSize) =
          reader.file.rest.length := Nat.mod_eq_of_lt (by omega)
      rw [hlast]
      obtain ⟨hsome, hcut, herr⟩ |
          ⟨hp, reader', samples, hok, hl, hfo, hu, hr⟩ :=
        readChunk_eq conversion numSamples hs hc hshort
      · exact iff_of_true (readSamples_isSome_of_error hreads herr) (.inr ⟨hsome, hcut⟩)
      · have hfew : reader.file.rest.length / sampleSize < chunkSize :=
          Nat.div_lt_of_lt_mul (by rw [Nat.mul_comm]; omega)
        rw [ends_iff_of_ok hreads hok]
        refine iff_of_false ?_ (by rintro (h | h); exacts [absurd h (by omega), hp h])
        exact not_ends_of_rest_eq_nil (by rw [hfo, hs]) ⟨by omega, by omega⟩ (by omega)

end Loop

theorem ends_iff_holdsSamplesOrFailsCheck {S : Type} {conversion : SampleConversion S} :
    Ends (readSamples conversion) reader numSamples ↔
      HoldsSamplesOrFailsCheck reader numSamples := by
  unfold HoldsSamplesOrFailsCheck
  cases hs : sizeofSample reader.format with
  | some sampleSize => simpa using ends_iff hs
  | none =>
    refine iff_of_true ?_ (by simp)
    by_cases hreads : 0 < numSamples ∧ 0 < reader.numUnreadSamples
    · have hchunk : reader.readChunk conversion numSamples = .error .formatOfSamples := by
        unfold readChunk
        rw [hs]
      exact readSamples_isSome_of_error hreads hchunk
    · refine ⟨1, ?_⟩
      rw [readSamples, if_neg hreads]
      rfl

/-- Both versions of `ReadSamples` end exactly on the files that hold the samples asked for, and on
those of a length that fails the check for a cut sample. -/
theorem readSamples_ends_iff {F : Type} (floatToS16 : List UInt8 → ℤ) (ofS16 : ℤ → F)
    (floatToFloatS16 : List UInt8 → F) (reader : WavReader) (numSamples : ℕ) :
    (Ends (readSamplesToS16 floatToS16) reader numSamples ∧
      Ends (readSamplesToFloat ofS16 floatToFloatS16) reader numSamples) ↔
    HoldsSamplesOrFailsCheck reader numSamples := by
  unfold readSamplesToS16 readSamplesToFloat
  rw [ends_iff_holdsSamplesOrFailsCheck, ends_iff_holdsSamplesOrFailsCheck, and_self]

def headerWithoutSample : List UInt8 :=
  (pcmWavHeader (formatParameters 1 48000 .kWavFormatPcm 1)).toBytes

theorem readSamples_headerWithoutSample_never_ends :
    ∃ reader, ofContent headerWithoutSample = .ok reader ∧
      ∀ floatToS16, ¬ Ends (readSamplesToS16 floatToS16) reader 1 := by
  have hc : checkWavParameters (formatParameters 1 48000 .kWavFormatPcm 1) = true := by decide
  have hh := readWavHeader_pcm hc (by decide) rfl []
  rw [List.append_nil] at hh
  refine ⟨_, by unfold ofContent headerWithoutSample; rw [hh]; rfl, ?_⟩
  intro floatToS16
  exact not_ends_of_rest_eq_nil rfl (by decide) (by decide)

end WavReader

end WebRtcAudio.CommonAudio
