import WebRtcAudio.CommonAudio.WavHeaderChunks

/-! A written header is read back with the parameters it was written for. -/
namespace WebRtcAudio.CommonAudio

open WebRtcAudio.Core Option

variable {k v size : ℕ}

theorem fieldAt_leBytes (hv : v < 256 ^ k) (post : List UInt8) :
    fieldAt (leBytes k v ++ post) 0 k = v := by
  rw [fieldAt, List.drop_zero, List.take_left' (length_leBytes k v), ofLeBytes_leBytes hv]

theorem fieldAt_self (hv : v < 256 ^ k) : fieldAt (leBytes k v) 0 k = v := by
  simpa using fieldAt_leBytes hv []

theorem fieldAt_append {pre : List UInt8} {offset : ℕ} (hpre : pre.length ≤ offset)
    (post : List UInt8) (k : ℕ) :
    fieldAt (pre ++ post) offset k = fieldAt post (offset - pre.length) k := by
  rw [fieldAt, List.drop_append, List.drop_eq_nil_of_le hpre, List.nil_append, fieldAt]

structure ChunkHeader.InRange (header : ChunkHeader) : Prop where
  id : header.id < 256 ^ 4
  size : header.size < 256 ^ 4

structure FmtPcmSubchunk.InRange (fmt : FmtPcmSubchunk) : Prop where
  header : fmt.header.InRange
  audioFormat : fmt.audioFormat < 256 ^ 2
  numChannels : fmt.numChannels < 256 ^ 2
  sampleRate : fmt.sampleRate < 256 ^ 4
  byteRate : fmt.byteRate < 256 ^ 4
  blockAlign : fmt.blockAlign < 256 ^ 2
  bitsPerSample : fmt.bitsPerSample < 256 ^ 2

@[simp]
theorem ChunkHeader.length_toBytes (header : ChunkHeader) : header.toBytes.length = 8 := by
  simp [toBytes]

@[simp]
theorem FmtPcmSubchunk.length_payload (fmt : FmtPcmSubchunk) : fmt.payload.length = 16 := by
  simp [payload]

theorem ChunkHeader.ofBytes_toBytes {header : ChunkHeader} (hr : header.InRange) :
    ofBytes header.toBytes = header := by
  simp [ofBytes, toBytes, fieldAt_leBytes hr.id, fieldAt_append, fieldAt_self hr.size]

theorem FmtPcmSubchunk.ofPayload_payload {fmt : FmtPcmSubchunk} (hr : fmt.InRange) :
    ofPayload fmt.header fmt.payload = fmt := by
  simp [ofPayload, payload, fieldAt_append, fieldAt_leBytes hr.audioFormat,
    fieldAt_leBytes hr.numChannels, fieldAt_leBytes hr.sampleRate,
    fieldAt_leBytes hr.byteRate, fieldAt_leBytes hr.blockAlign,
    fieldAt_self hr.bitsPerSample]

theorem RiffHeader.ofBytes_toBytes {riff : RiffHeader} (hh : riff.header.InRange)
    (hf : riff.format < 256 ^ 4) : ofBytes riff.toBytes = riff := by
  have ht : riff.toBytes.take 8 = riff.header.toBytes :=
    List.take_left' riff.header.length_toBytes
  rw [ofBytes, ht, ChunkHeader.ofBytes_toBytes hh]
  simp [toBytes, fieldAt_append, fieldAt_self hf]

open WavHeaderFileReader

variable {file : WavHeaderFileReader} {tail : List UInt8}

theorem findWaveChunk_of_rest {header : ChunkHeader} (hrest : file.rest = header.toBytes ++ tail)
    (hr : header.InRange) (soughtChunkId : List UInt8) : findWaveChunk file soughtChunkId =
      if readFourCC header.id = soughtChunkId then some (header, file.seekForward 8)
      else findWaveChunk ((file.seekForward 8).seekForward header.size) soughtChunkId := by
  have hread := (read_of_rest_eq_append hrest header.length_toBytes).1
  conv_lhs => rw [findWaveChunk]
  simp only [sizeofChunkHeader, hread, header.length_toBytes, ChunkHeader.ofBytes_toBytes hr]
  rfl

section
variable {file : WavHeaderFileReader} {fmt : FmtPcmSubchunk} {tail : List UInt8}

theorem readFmtChunkData_of_rest (hrest : file.rest = fmt.payload ++ tail) (hr : fmt.InRange)
    (hs : fmt.header.size = kFmtPcmSubchunkSize) :
    readFmtChunkData fmt.header file = some (fmt, file.seekForward 16) := by
  have hread := (read_of_rest_eq_append hrest fmt.length_payload).1
  simp [readFmtChunkData, hs, kFmtPcmSubchunkSize, hread, FmtPcmSubchunk.ofPayload_payload hr]

theorem readFmtChunkData_of_rest_extension
    (hr : file.rest = fmt.payload ++ (leBytes 2 0 ++ tail))
    (hrange : fmt.InRange) (hs : fmt.header.size = kFmtIeeeFloatSubchunkSize) :
    readFmtChunkData fmt.header file = some (fmt, (file.seekForward 16).seekForward 2) := by
  obtain ⟨hread, hr'⟩ := read_of_rest_eq_append hr fmt.length_payload
  have he := (read_of_rest_eq_append hr' (length_leBytes 2 0)).1
  simp [readFmtChunkData, hs, kFmtPcmSubchunkSize, kFmtIeeeFloatSubchunkSize, hread, he,
    FmtPcmSubchunk.ofPayload_payload hrange, ofLeBytes_leBytes]

end

structure RiffHeader.IsWave (riff : RiffHeader) : Prop where
  id : riff.header.id = packFourCC 'R' 'I' 'F' 'F'
  size : riff.header.size < 256 ^ 4
  format : riff.format = packFourCC 'W' 'A' 'V' 'E'

@[simp]
theorem RiffHeader.length_toBytes (riff : RiffHeader) : riff.toBytes.length = 12 := by
  simp [toBytes]

theorem readWavChunks_of_rest {riff : RiffHeader} {fmtHeader : ChunkHeader}
    (hr : file.rest = riff.toBytes ++ (fmtHeader.toBytes ++ tail)) (hw : riff.IsWave)
    (hrange : fmtHeader.InRange) (hfmt : fmtHeader.id = packFourCC 'f' 'm' 't' ' ') :
    ((file.seekForward 12).seekForward 8).rest = tail ∧ readWavChunks file = do
      let (fmt, readable) ← readFmtChunkData fmtHeader ((file.seekForward 12).seekForward 8)
      let (data, readable) ← findWaveChunk readable (asciiBytes ['d', 'a', 't', 'a'])
      return (⟨riff, fmt, data⟩, readable) := by
  obtain ⟨hread, hr'⟩ := read_of_rest_eq_append hr riff.length_toBytes
  refine ⟨(read_of_rest_eq_append hr' fmtHeader.length_toBytes).2, ?_⟩
  have hh : riff.header.InRange := ⟨hw.id ▸ by decide, hw.size⟩
  have hf : riff.format < 256 ^ 4 := hw.format ▸ by decide
  have hriff : readFourCC riff.header.id = asciiBytes ['R', 'I', 'F', 'F'] := by
    rw [hw.id]
    decide
  have hwaveId : readFourCC riff.format = asciiBytes ['W', 'A', 'V', 'E'] := by
    rw [hw.format]
    decide
  have hfound : readFourCC fmtHeader.id = asciiBytes ['f', 'm', 't', ' '] := by
    rw [hfmt]
    decide
  simp only [readWavChunks, sizeofRiffHeader, hread, riff.length_toBytes,
    RiffHeader.ofBytes_toBytes hh hf, hriff, hwaveId, ne_eq, not_true_eq_false, if_false,
    findWaveChunk_of_rest hr' hrange, if_pos hfound, bind_eq_bind, bind_some]

theorem findWaveChunk_data {data : ChunkHeader} (hrest : file.rest = data.toBytes ++ tail)
    (hr : data.InRange) (hid : data.id = packFourCC 'd' 'a' 't' 'a') :
    findWaveChunk file (asciiBytes ['d', 'a', 't', 'a']) = some (data, file.seekForward 8) := by
  rw [findWaveChunk_of_rest hrest hr, hid]
  exact if_pos (by decide)

theorem readWavChunks_pcm {header : WavHeaderPcm} (tail : List UInt8) (hw : header.riff.IsWave)
    (hfmt : header.fmt.InRange)
    (hf : header.fmt.header = ⟨packFourCC 'f' 'm' 't' ' ', kFmtPcmSubchunkSize⟩)
    (hdata : header.data.InRange) (hd : header.data.id = packFourCC 'd' 'a' 't' 'a') :
    readWavChunks ⟨header.toBytes ++ tail, 0⟩ =
      some (header, ⟨header.toBytes ++ tail, kPcmWavHeaderSize⟩) := by
  have hr : (⟨header.toBytes ++ tail, 0⟩ : WavHeaderFileReader).rest =
      header.riff.toBytes ++ (header.fmt.header.toBytes ++ (header.fmt.payload ++
        (header.data.toBytes ++ tail))) := by
    simp [rest, WavHeaderPcm.toBytes]
  obtain ⟨hr1, hread⟩ := readWavChunks_of_rest hr hw hfmt.header (by rw [hf])
  obtain ⟨-, hr2⟩ := read_of_rest_eq_append hr1 header.fmt.length_payload
  rw [hread, readFmtChunkData_of_rest hr1 hfmt (by rw [hf])]
  simp only [bind_eq_bind, bind_some, findWaveChunk_data hr2 hdata hd]
  rfl

/-- The headers of an IEEE float file: between the "fmt " and the "data" chunk there is an empty
extension and a "fact" chunk, which is skipped. -/
theorem readWavChunks_ieeeFloat {header : WavHeaderIeeeFloat} (tail : List UInt8)
    (hw : header.riff.IsWave) (hfmt : header.fmt.InRange)
    (hf : header.fmt.header = ⟨packFourCC 'f' 'm' 't' ' ', kFmtIeeeFloatSubchunkSize⟩)
    (he : header.extensionSize = 0) (hfact : header.fact = ⟨packFourCC 'f' 'a' 'c' 't', 4⟩)
    (hdata : header.data.InRange) (hd : header.data.id = packFourCC 'd' 'a' 't' 'a') :
    readWavChunks ⟨header.toBytes ++ tail, 0⟩ = some (⟨header.riff, header.fmt, header.data⟩,
        ⟨header.toBytes ++ tail, kIeeeFloatWavHeaderSize⟩) := by
  have hr : (⟨header.toBytes ++ tail, 0⟩ : WavHeaderFileReader).rest =
      header.riff.toBytes ++ (header.fmt.header.toBytes ++ (header.fmt.payload ++
        (leBytes 2 0 ++ (header.fact.toBytes ++ (leBytes 4 header.sampleLength ++
          (header.data.toBytes ++ tail)))))) := by
    simp [rest, WavHeaderIeeeFloat.toBytes, he]
  obtain ⟨hr1, hread⟩ := readWavChunks_of_rest hr hw hfmt.header (by rw [hf])
  obtain ⟨-, hr2⟩ := read_of_rest_eq_append hr1 header.fmt.length_payload
  obtain ⟨-, hr3⟩ := read_of_rest_eq_append hr2 (length_leBytes 2 0)
  obtain ⟨-, hr4⟩ := read_of_rest_eq_append hr3 header.fact.length_toBytes
  obtain ⟨-, hr5⟩ := read_of_rest_eq_append hr4 (length_leBytes 4 header.sampleLength)
  have hfactRange : header.fact.InRange := hfact ▸ ⟨by decide, by decide⟩
  have hfactSkipped : readFourCC header.fact.id ≠ asciiBytes ['d', 'a', 't', 'a'] := by
    rw [hfact]
    decide
  have hs : header.fact.size = 4 := by rw [hfact]
  rw [hread, readFmtChunkData_of_rest_extension hr1 hfmt (by rw [hf])]
  simp only [bind_eq_bind, bind_some, findWaveChunk_of_rest hr3 hfactRange,
    if_neg hfactSkipped, hs, findWaveChunk_data hr5 hdata hd]
  rfl

structure WavParameters.Accepted (p : WavParameters) : Prop where
  numChannels_pos : 0 < p.numChannels
  sampleRate_pos : 0 < p.sampleRate
  bytesPerSample_pos : 0 < p.bytesPerSample
  numChannels_lt : p.numChannels < 2 ^ 16
  bits_lt : 8 * p.bytesPerSample < 2 ^ 16
  payload_le : p.bytesPerSample * p.numSamples ≤ 2 ^ 32 - 1 - 36

variable {p : WavParameters}

theorem WavParameters.accepted_of_check (hcheck : checkWavParameters p = true) : p.Accepted := by
  unfold checkWavParameters kPcmWavHeaderSize sizeofChunkHeader at hcheck
  split_ifs at hcheck with hpos hrate hc hbits hproduct ha hs
  have hp : p.numSamples * p.bytesPerSample ≤ 2 ^ 32 - 1 - (44 - 8) :=
    (Nat.le_div_iff_mul_le (by omega)).1 (by omega)
  exact ⟨by omega, by omega, by omega, by omega, by omega, by rw [Nat.mul_comm]; exact hp⟩

theorem toUInt32_lt (x : ℤ) : toUInt32 x < 256 ^ 4 := by
  unfold toUInt32
  omega

theorem fmtSubchunk_inRange (p : WavParameters) (format : WavFormat) (hs : size < 256 ^ 4) :
    (fmtSubchunk p format size).InRange where
  header := ⟨show packFourCC 'f' 'm' 't' ' ' < 256 ^ 4 by decide, hs⟩
  audioFormat := by cases format <;> exact Nat.lt_of_sub_eq_succ rfl
  numChannels := Nat.mod_lt _ (by decide)
  sampleRate := toUInt32_lt _
  byteRate := toUInt32_lt _
  blockAlign := Nat.mod_lt _ (by decide)
  bitsPerSample := Nat.mod_lt _ (by decide)

theorem riffHeader_isWave (bytesInPayload he : ℕ) :
    (⟨⟨packFourCC 'R' 'I' 'F' 'F', riffChunkSize bytesInPayload he⟩,
      packFourCC 'W' 'A' 'V' 'E'⟩ : RiffHeader).IsWave where
  id := rfl
  size := Nat.mod_lt _ (by decide)
  format := rfl

theorem dataHeader_inRange (bytesInPayload : ℕ) :
    (⟨packFourCC 'd' 'a' 't' 'a', bytesInPayload % 2 ^ 32⟩ : ChunkHeader).InRange where
  id := show packFourCC 'd' 'a' 't' 'a' < 256 ^ 4 by decide
  size := Nat.mod_lt _ (by decide)

variable {format : WavFormat}

theorem parameters_of_accepted (ha : p.Accepted) (hint : p.sampleRate < 2 ^ 31)
    (hf : p.format = format) (riff : RiffHeader) (dataId size : ℕ) :
    WavHeaderPcm.parameters ⟨riff, fmtSubchunk p format size,
      ⟨dataId, p.bytesPerSample * p.numSamples % 2 ^ 32⟩⟩ format = p := by
  subst hf
  have hc : p.numChannels % 2 ^ 16 = p.numChannels := Nat.mod_eq_of_lt ha.numChannels_lt
  have hb : 8 * p.bytesPerSample % 2 ^ 16 / 8 = p.bytesPerSample := by
    rw [Nat.mod_eq_of_lt ha.bits_lt, Nat.mul_div_cancel_left _ (by decide)]
  have hs : p.bytesPerSample * p.numSamples % 2 ^ 32 / p.bytesPerSample = p.numSamples := by
    have hp := ha.payload_le
    rw [Nat.mod_eq_of_lt (by omega), Nat.mul_div_cancel_left _ ha.bytesPerSample_pos]
  have hr : toInt32 (toUInt32 p.sampleRate) = p.sampleRate := by
    have hpos := ha.sampleRate_pos
    have hcast : (toUInt32 p.sampleRate : ℤ) = p.sampleRate := by
      unfold toUInt32
      omega
    rw [hcast, toInt32_eq_self ⟨by omega, hint⟩]
  simp only [WavHeaderPcm.parameters, fmtSubchunk, hc, hb, hs, hr]

theorem fieldsAgree_of_accepted (hcheck : checkWavParameters p = true)
    (hint : p.sampleRate < 2 ^ 31)
    (hf : p.format = format) (riffId riffFormat dataId size : ℕ) :
    FieldsAgree ⟨⟨⟨riffId, riffChunkSize (p.bytesPerSample * p.numSamples)
        (wavHeaderSize format)⟩, riffFormat⟩,
      fmtSubchunk p format size, ⟨dataId, p.bytesPerSample * p.numSamples % 2 ^ 32⟩⟩
      format := by
  have ha := WavParameters.accepted_of_check hcheck
  have hp := ha.payload_le
  unfold FieldsAgree
  rw [parameters_of_accepted ha hint hf]
  refine ⟨ha.bytesPerSample_pos.ne', ?_, rfl, rfl, hcheck⟩
  change riffChunkSize (p.bytesPerSample * p.numSamples % 2 ^ 32) _ ≤ _
  rw [Nat.mod_eq_of_lt (by omega)]

def SizeFieldsHold (p : WavParameters) : Prop :=
  let bytesInPayload := p.bytesPerSample * p.numSamples
  if p.format = .kWavFormatPcm then
    (pcmWavHeader p).riff.header.size = bytesInPayload + kPcmWavHeaderSize - sizeofChunkHeader ∧
      (pcmWavHeader p).data.size = bytesInPayload
  else
    (ieeeFloatWavHeader p).riff.header.size =
        bytesInPayload + kIeeeFloatWavHeaderSize - sizeofChunkHeader ∧
      (ieeeFloatWavHeader p).data.size = bytesInPayload ∧
      (ieeeFloatWavHeader p).sampleLength = p.numChannels * p.numSamples

def HeaderRoundTrips (numChannels : ℕ) (sampleRate : ℤ) (format : WavFormat) (numSamples : ℕ) :
    Prop :=
  let p := formatParameters numChannels sampleRate format numSamples
  ∃ bytes, writeWavHeader numChannels sampleRate format numSamples = .ok bytes ∧
    bytes.length = wavHeaderSize format ∧ SizeFieldsHold p ∧
    ∀ tail, readWavHeader ⟨bytes ++ tail, 0⟩ =
      .ok (some (p, ⟨bytes ++ tail, wavHeaderSize format⟩))

section
variable {p : WavParameters} (hcheck : checkWavParameters p = true) (hint : p.sampleRate < 2 ^ 31)
include hcheck hint

theorem readWavHeader_of_chunks {readable : WavHeaderFileReader} (hf : p.format = format)
    (hmap : mapHeaderFieldToWavFormat (mapWavFormatToHeaderField format) = .ok format)
    {riffId riffFormat dataId : ℕ}
    (hc : readWavChunks file = some
      (⟨⟨⟨riffId, riffChunkSize (p.bytesPerSample * p.numSamples) (wavHeaderSize format)⟩,
          riffFormat⟩,
        fmtSubchunk p format size, ⟨dataId, p.bytesPerSample * p.numSamples % 2 ^ 32⟩⟩, readable)) :
    readWavHeader file = .ok (some (p, readable)) := by
  have ha := WavParameters.accepted_of_check hcheck
  rw [readWavHeader_eq_ok hc hmap, if_pos (fieldsAgree_of_accepted hcheck hint hf _ _ _ _),
    parameters_of_accepted ha hint hf]

theorem readWavHeader_pcm (hf : p.format = .kWavFormatPcm) (tail : List UInt8) :
    readWavHeader ⟨(pcmWavHeader p).toBytes ++ tail, 0⟩ =
      .ok (some (p, ⟨(pcmWavHeader p).toBytes ++ tail, kPcmWavHeaderSize⟩)) :=
  readWavHeader_of_chunks hcheck hint hf rfl (readWavChunks_pcm tail (riffHeader_isWave _ _)
    (fmtSubchunk_inRange p _ (by decide)) rfl (dataHeader_inRange _) rfl)

theorem readWavHeader_ieeeFloat (hf : p.format = .kWavFormatIeeeFloat) (tail : List UInt8) :
    readWavHeader ⟨(ieeeFloatWavHeader p).toBytes ++ tail, 0⟩ =
      .ok (some (p, ⟨(ieeeFloatWavHeader p).toBytes ++ tail, kIeeeFloatWavHeaderSize⟩)) :=
  readWavHeader_of_chunks hcheck hint hf rfl (readWavChunks_ieeeFloat tail (riffHeader_isWave _ _)
    (fmtSubchunk_inRange p _ (by decide)) rfl rfl rfl (dataHeader_inRange _) rfl)

end

/-- The check of the parameters leaves room for a PCM header, but not for the longer header of
IEEE float or for its sample count over all channels. -/
theorem sizeFieldsHold_iff (ha : p.Accepted) : SizeFieldsHold p ↔ p.format = .kWavFormatPcm ∨
      p.bytesPerSample * p.numSamples + 50 < 2 ^ 32 ∧ p.numChannels * p.numSamples < 2 ^ 32 := by
  have hp := ha.payload_le
  unfold SizeFieldsHold
  by_cases hf : p.format = .kWavFormatPcm
  · simp only [hf, if_true, true_or, iff_true, pcmWavHeader, riffChunkSize, kPcmWavHeaderSize,
      sizeofChunkHeader]
    omega
  · simp only [hf, if_false, false_or, ieeeFloatWavHeader, riffChunkSize,
      kIeeeFloatWavHeaderSize, sizeofChunkHeader]
    omega

/-- Every accepted set of parameters is written and read back unchanged with all its size fields
right, except an IEEE float file so large that the RIFF size or the sample count wraps. -/
theorem headerRoundTrips_iff (numChannels : ℕ) (sampleRate : ℤ) (format : WavFormat)
    (numSamples : ℕ) (hint : sampleRate < 2 ^ 31)
    (hformat : format = .kWavFormatPcm ∨ format = .kWavFormatIeeeFloat)
    (hcheck : checkWavParameters (formatParameters numChannels sampleRate format numSamples) =
      true) : HeaderRoundTrips numChannels sampleRate format numSamples ↔ format = .kWavFormatPcm ∨
        4 * numSamples + 50 < 2 ^ 32 ∧ numChannels * numSamples < 2 ^ 32 := by
  have hf := sizeFieldsHold_iff (WavParameters.accepted_of_check hcheck)
  obtain rfl | rfl := hformat
  · have hh := hf.2 (.inl rfl)
    simp only [true_or, iff_true]
    refine ⟨(pcmWavHeader _).toBytes, ?_, ?_, hh, readWavHeader_pcm hcheck hint rfl⟩
    · simp [writeWavHeader, hcheck]
    · simp [WavHeaderPcm.toBytes, wavHeaderSize, kPcmWavHeaderSize]
  · simp only [reduceCtorEq, false_or]
    rw [show (4 * numSamples + 50 < 2 ^ 32 ∧ numChannels * numSamples < 2 ^ 32) ↔
      SizeFieldsHold (formatParameters numChannels sampleRate .kWavFormatIeeeFloat numSamples)
      from (hf.trans (by simp [formatParameters, getFormatBytesPerSample])).symm]
    constructor
    · rintro ⟨bytes, -, -, hh, -⟩
      exact hh
    · intro hh
      refine ⟨(ieeeFloatWavHeader _).toBytes, ?_, ?_, hh,
        readWavHeader_ieeeFloat hcheck hint rfl⟩
      · simp [writeWavHeader, hcheck]
      · simp [WavHeaderIeeeFloat.toBytes, wavHeaderSize, kIeeeFloatWavHeaderSize]

theorem headerRoundTrips_stereo_second : HeaderRoundTrips 2 48000 .kWavFormatIeeeFloat 96000 :=
  (headerRoundTrips_iff 2 48000 .kWavFormatIeeeFloat 96000 (by decide) (.inr rfl) (by decide)).2
    (.inr (by decide))

theorem headerRoundTrips_fails_largest_float :
    checkWavParameters (formatParameters 1 48000 .kWavFormatIeeeFloat 1073741814) = true ∧
      (ieeeFloatWavHeader
        (formatParameters 1 48000 .kWavFormatIeeeFloat 1073741814)).riff.header.size = 10 ∧
        ¬ HeaderRoundTrips 1 48000 .kWavFormatIeeeFloat 1073741814 := by
  have hcheck : checkWavParameters (formatParameters 1 48000 .kWavFormatIeeeFloat 1073741814) =
      true := by decide
  refine ⟨hcheck, by decide, ?_⟩
  rintro ⟨bytes, -, -, hh, -⟩
  have hf := (sizeFieldsHold_iff (WavParameters.accepted_of_check hcheck)).1 hh
  revert hf
  decide

end WebRtcAudio.CommonAudio
