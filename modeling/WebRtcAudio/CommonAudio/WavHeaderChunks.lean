import WebRtcAudio.CommonAudio.WavHeader

/-! Which chunks of a file `readWavHeader` reads, and the files on which it aborts. -/
namespace WebRtcAudio.CommonAudio

open WebRtcAudio.Core List

def idAt (content : List UInt8) (position : ℕ) : List UInt8 := (content.drop position).take 4

def sizeAt (content : List UInt8) (position : ℕ) : ℕ := fieldAt content (position + 4) 4

/-- A walk over the chunks from a position finds the chunk with the ID at the target: the
chunks before it have other IDs, and each one starts where the sizes of the ones before it end. -/
inductive WalksTo (content soughtChunkId : List UInt8) : ℕ → ℕ → Prop
  | found {position : ℕ} (hheader : position + 8 ≤ content.length)
      (hid : idAt content position = soughtChunkId) :
      WalksTo content soughtChunkId position position
  | skipped {position target : ℕ} (hheader : position + 8 ≤ content.length)
      (hid : idAt content position ≠ soughtChunkId)
      (hwalk : WalksTo content soughtChunkId (position + 8 + sizeAt content position) target) :
      WalksTo content soughtChunkId position target

def FmtPayloadFits (content : List UInt8) (position size : ℕ) : Prop :=
  position + 16 ≤ content.length ∧
    (size = 16 ∨ size = 18 ∧ position + 18 ≤ content.length ∧ fieldAt content (position + 16) 2 = 0)

/-- A well-formed RIFF file with a "fmt " chunk, a "data" chunk after it, and a format tag other
than PCM and IEEE float. -/
structure HasUnsupportedFormat (content : List UInt8) : Prop where
  riff : 12 ≤ content.length ∧ idAt content 0 = asciiBytes ['R', 'I', 'F', 'F'] ∧
    idAt content 8 = asciiBytes ['W', 'A', 'V', 'E']
  chunks : ∃ fmt data, WalksTo content (asciiBytes ['f', 'm', 't', ' ']) 12 fmt ∧
    FmtPayloadFits content (fmt + 8) (sizeAt content fmt) ∧
    WalksTo content (asciiBytes ['d', 'a', 't', 'a']) (fmt + 8 + sizeAt content fmt) data ∧
    fieldAt content (fmt + 8) 2 ≠ 1 ∧ fieldAt content (fmt + 8) 2 ≠ 3

variable {content : List UInt8} {position : ℕ}

theorem fieldAt_take_drop {n offset k : ℕ} (hk : offset + k ≤ n) :
    fieldAt ((content.drop position).take n) offset k = fieldAt content (position + offset) k := by
  rw [fieldAt, fieldAt, drop_take, drop_drop, take_take]
  congr 2
  omega

theorem readFourCC_fieldAt (hfits : position + 4 ≤ content.length) :
    readFourCC (fieldAt content position 4) = idAt content position := by
  have hlen : ((content.drop position).take 4).length = 4 := by
    rw [length_take, length_drop]
    omega
  have hb := leBytes_ofLeBytes ((content.drop position).take 4)
  rw [hlen] at hb
  exact hb

section
variable {content : List UInt8} {position numBytes : ℕ}

theorem read_of_fits (hfits : position + numBytes ≤ content.length) :
    (⟨content, position⟩ : WavHeaderFileReader).read numBytes =
      ((content.drop position).take numBytes, ⟨content, position + numBytes⟩) := by
  have hlen : ((content.drop position).take numBytes).length = numBytes := by
    rw [length_take, length_drop]
    omega
  change ((content.drop position).take numBytes,
    (⟨content, position + ((content.drop position).take numBytes).length⟩ :
      WavHeaderFileReader)) = _
  rw [hlen]

theorem length_read_eq_iff (hpos : 0 < numBytes) :
    ((⟨content, position⟩ : WavHeaderFileReader).read numBytes).1.length = numBytes ↔
      position + numBytes ≤ content.length := by
  rw [WavHeaderFileReader.length_read, WavHeaderFileReader.length_rest]
  change min numBytes (content.length - position) = numBytes ↔ _
  omega

end

variable {readable : WavHeaderFileReader}

section
variable {content soughtChunkId : List UInt8} {position : ℕ}

theorem findWaveChunk_eq
    (hf : position + 8 ≤ content.length) : findWaveChunk ⟨content, position⟩ soughtChunkId =
      if idAt content position = soughtChunkId then
        some (ChunkHeader.ofBytes ((content.drop position).take 8), ⟨content, position + 8⟩)
      else findWaveChunk ⟨content, position + 8 + sizeAt content position⟩ soughtChunkId := by
  have hid : readFourCC (ChunkHeader.ofBytes ((content.drop position).take 8)).id =
      idAt content position := by
    change readFourCC (fieldAt ((content.drop position).take 8) 0 4) = _
    rw [fieldAt_take_drop (by omega), Nat.add_zero]
    exact readFourCC_fieldAt (by omega)
  have hs : (ChunkHeader.ofBytes ((content.drop position).take 8)).size =
      sizeAt content position := fieldAt_take_drop (by omega)
  have hr : ((⟨content, position⟩ : WavHeaderFileReader).read sizeofChunkHeader).1.length =
      sizeofChunkHeader := (length_read_eq_iff (by decide)).2 hf
  conv_lhs => rw [findWaveChunk]
  rw [dif_neg (not_not.2 hr)]
  simp only [sizeofChunkHeader, read_of_fits hf, hid, hs, WavHeaderFileReader.seekForward]

theorem findWaveChunk_eq_none (hf : ¬ position + 8 ≤ content.length) :
    findWaveChunk ⟨content, position⟩ soughtChunkId = none := by
  rw [findWaveChunk, dif_pos]
  exact fun hr => hf ((length_read_eq_iff (by decide)).1 hr)

theorem findWaveChunk_eq_some_iff {header : ChunkHeader} :
    findWaveChunk ⟨content, position⟩ soughtChunkId = some (header, readable) ↔
      ∃ target, WalksTo content soughtChunkId position target ∧
        header = ChunkHeader.ofBytes ((content.drop target).take 8) ∧
        readable = ⟨content, target + 8⟩ := by
  constructor
  · intro hf
    -- Every skipped chunk brings the position closer to the end of the content.
    induction hleft : content.length - position using Nat.strong_induction_on
      generalizing position with
    | _ left ih =>
      by_cases hfits : position + 8 ≤ content.length
      · rw [findWaveChunk_eq hfits] at hf
        split_ifs at hf with hid
        · cases hf
          exact ⟨position, .found hfits hid, rfl, rfl⟩
        · obtain ⟨target, hw, hh, hr⟩ := ih _ (by omega) hf rfl
          exact ⟨target, .skipped hfits hid hw, hh, hr⟩
      · rw [findWaveChunk_eq_none hfits] at hf
        cases hf
  · rintro ⟨target, hw, rfl, rfl⟩
    induction hw with
    | found hh hid => rw [findWaveChunk_eq hh, if_pos hid]
    | skipped hh hid _ ih => rw [findWaveChunk_eq hh, if_neg hid, ih]

end

theorem readFmtChunkData_eq_some_iff {header : ChunkHeader} {fmt : FmtPcmSubchunk} :
    readFmtChunkData header ⟨content, position⟩ = some (fmt, readable) ↔
      FmtPayloadFits content position header.size ∧
        fmt = .ofPayload header ((content.drop position).take 16) ∧
        readable = ⟨content, position + header.size⟩ := by
  unfold readFmtChunkData FmtPayloadFits kFmtPcmSubchunkSize
  by_cases hf : position + 16 ≤ content.length
  · rw [read_of_fits hf]
    have hlen : ((content.drop position).take 16).length = 16 := by
      rw [length_take, length_drop]
      omega
    by_cases hs : header.size = 16
    · simp only [hlen, hs, ne_eq, not_true_eq_false, if_false, hf, true_or, and_self,
        true_and, Option.some.injEq, Prod.mk.injEq]
      constructor <;> rintro ⟨h, h'⟩ <;> exact ⟨h.symm, h'.symm⟩
    · by_cases he : header.size = 18
      · by_cases hf2 : position + 18 ≤ content.length
        · have hr : (⟨content, position + 16⟩ : WavHeaderFileReader).read 2 =
              ((content.drop (position + 16)).take 2, ⟨content, position + 18⟩) :=
            read_of_fits hf2
          have hlen2 : ((content.drop (position + 16)).take 2).length = 2 := by
            rw [length_take, length_drop]
            omega
          simp only [hlen, he, hr, hlen2, hf, hf2, fieldAt]
          by_cases hz : ofLeBytes ((content.drop (position + 16)).take 2) = 0
          · simp [hz, eq_comm]
          · simp [hz]
        · have hr : ¬ ((⟨content, position + 16⟩ : WavHeaderFileReader).read 2).1.length = 2 :=
            fun h => hf2 (by have := (length_read_eq_iff (by decide)).1 h; omega)
          simp [hlen, he, hr, hf2]
      · simp [hlen, hs, Ne.symm he, he]
  · have hr : ¬ ((⟨content, position⟩ : WavHeaderFileReader).read 16).1.length = 16 :=
      fun h => hf ((length_read_eq_iff (by decide)).1 h)
    simp [hr, hf]

/-- The header chunks are read exactly when the RIFF header is right and the walks over the
chunks find a "fmt " chunk that fits and a "data" chunk after it. -/
theorem readWavChunks_eq_some_iff {header : WavHeaderPcm} :
    readWavChunks ⟨content, 0⟩ = some (header, readable) ↔
      (12 ≤ content.length ∧ idAt content 0 = asciiBytes ['R', 'I', 'F', 'F'] ∧
        idAt content 8 = asciiBytes ['W', 'A', 'V', 'E']) ∧
      ∃ fmt data, WalksTo content (asciiBytes ['f', 'm', 't', ' ']) 12 fmt ∧
        FmtPayloadFits content (fmt + 8) (sizeAt content fmt) ∧
        WalksTo content (asciiBytes ['d', 'a', 't', 'a']) (fmt + 8 + sizeAt content fmt) data ∧
        header = ⟨RiffHeader.ofBytes (content.take 12),
          .ofPayload (.ofBytes ((content.drop fmt).take 8)) ((content.drop (fmt + 8)).take 16),
          .ofBytes ((content.drop data).take 8)⟩ ∧ readable = ⟨content, data + 8⟩ := by
  by_cases hfits : 12 ≤ content.length
  · have hread : (⟨content, 0⟩ : WavHeaderFileReader).read 12 = (content.take 12, ⟨content, 12⟩) :=
      read_of_fits (by omega)
    have hlen : (content.take 12).length = 12 := by
      rw [length_take]
      omega
    have hriff : readFourCC (RiffHeader.ofBytes (content.take 12)).header.id = idAt content 0 := by
      change readFourCC (fieldAt ((content.take 12).take 8) 0 4) = _
      rw [take_take, ← drop_zero (l := content), fieldAt_take_drop (by decide),
        readFourCC_fieldAt (by omega)]
      rfl
    have hwave : readFourCC (RiffHeader.ofBytes (content.take 12)).format = idAt content 8 := by
      change readFourCC (fieldAt (content.take 12) 8 4) = _
      rw [← drop_zero (l := content), fieldAt_take_drop (by decide), readFourCC_fieldAt (by omega)]
      rfl
    have hs (fmt : ℕ) : (ChunkHeader.ofBytes ((content.drop fmt).take 8)).size =
        sizeAt content fmt := fieldAt_take_drop (by decide)
    simp only [readWavChunks, sizeofRiffHeader, hread, hlen, hriff, hwave, hfits, true_and, ne_eq,
      not_true_eq_false, if_false]
    by_cases hids : idAt content 0 = asciiBytes ['R', 'I', 'F', 'F'] ∧
        idAt content 8 = asciiBytes ['W', 'A', 'V', 'E']
    · rw [if_neg (not_not.2 hids.1), if_neg (not_not.2 hids.2)]
      simp only [Option.bind_eq_bind, Option.bind_eq_some_iff, Prod.exists, hids, true_and]
      constructor
      · rintro ⟨_, _, hfindFmt, _, _, hreadFmt, _, _, hf, hresult⟩
        obtain ⟨fmt, hfmt, rfl, rfl⟩ := findWaveChunk_eq_some_iff.1 hfindFmt
        obtain ⟨hp, rfl, rfl⟩ := readFmtChunkData_eq_some_iff.1 hreadFmt
        obtain ⟨data, hd, rfl, rfl⟩ := findWaveChunk_eq_some_iff.1 hf
        cases hresult
        rw [hs] at hp hd
        exact ⟨fmt, data, hfmt, hp, hd, rfl, rfl⟩
      · rintro ⟨fmt, data, hfmt, hp, hd, rfl, rfl⟩
        rw [← hs] at hp hd
        exact ⟨_, _, findWaveChunk_eq_some_iff.2 ⟨fmt, hfmt, rfl, rfl⟩,
          _, _, readFmtChunkData_eq_some_iff.2 ⟨hp, rfl, rfl⟩,
          _, _, findWaveChunk_eq_some_iff.2 ⟨data, hd, rfl, rfl⟩, rfl⟩
    · split_ifs with hr hw
      · exact absurd ⟨hr, hw⟩ hids
      · simp [hw]
      · simp [hr]
  · have hread : ¬ ((⟨content, 0⟩ : WavHeaderFileReader).read sizeofRiffHeader).1.length =
        sizeofRiffHeader := fun h => hfits (by
      have := (length_read_eq_iff (by decide)).1 h
      unfold sizeofRiffHeader at this
      omega)
    simp [readWavChunks, hread, hfits]

theorem hasUnsupportedFormat_iff : HasUnsupportedFormat content ↔ ∃ header readable,
      readWavChunks ⟨content, 0⟩ = some (header, readable) ∧
        header.fmt.audioFormat ≠ 1 ∧ header.fmt.audioFormat ≠ 3 := by
  have htag (fmt : ℕ) : fieldAt ((content.drop (fmt + 8)).take 16) 0 2 =
      fieldAt content (fmt + 8) 2 := fieldAt_take_drop (by decide)
  constructor
  · rintro ⟨hr, fmt, data, hfmt, hp, hd, hone, ht⟩
    refine ⟨_, _, readWavChunks_eq_some_iff.2 ⟨hr, fmt, data, hfmt, hp, hd, rfl, rfl⟩,
      ?_, ?_⟩
    · change fieldAt _ 0 2 ≠ 1
      rwa [htag]
    · change fieldAt _ 0 2 ≠ 3
      rwa [htag]
  · rintro ⟨header, readable, hc, hone, ht⟩
    obtain ⟨hr, fmt, data, hfmt, hp, hd, rfl, rfl⟩ :=
      readWavChunks_eq_some_iff.1 hc
    exact ⟨hr, fmt, data, hfmt, hp, hd, htag fmt ▸ hone, htag fmt ▸ ht⟩

theorem mapHeaderFieldToWavFormat_isOk {tag : ℕ} (htag : ¬ (tag ≠ 1 ∧ tag ≠ 3)) :
    ∃ format, mapHeaderFieldToWavFormat tag = .ok format := by
  by_cases hone : tag = 1
  · exact ⟨_, if_pos hone⟩
  · have ht : tag = 3 := not_not.1 fun h => htag ⟨hone, h⟩
    exact ⟨.kWavFormatIeeeFloat, by rw [mapHeaderFieldToWavFormat, if_neg hone, if_pos ht]⟩

def FieldsAgree (header : WavHeaderPcm) (format : WavFormat) : Prop :=
  let p := header.parameters format
  p.bytesPerSample ≠ 0 ∧
    riffChunkSize header.data.size (wavHeaderSize format) ≤ header.riff.header.size ∧
    header.fmt.byteRate = byteRate p.numChannels p.sampleRate p.bytesPerSample ∧
    header.fmt.blockAlign = blockAlign p.numChannels p.bytesPerSample ∧
    checkWavParameters p = true

instance (header : WavHeaderPcm) (format : WavFormat) : Decidable (FieldsAgree header format) :=
  inferInstanceAs (Decidable (_ ∧ _))

section
variable {file readable : WavHeaderFileReader} {header : WavHeaderPcm}

theorem readWavHeader_eq_ok
    {format : WavFormat} (hc : readWavChunks file = some (header, readable))
    (hf : mapHeaderFieldToWavFormat header.fmt.audioFormat = .ok format) :
    readWavHeader file = .ok (if FieldsAgree header format
      then some (header.parameters format, readable) else none) := by
  unfold readWavHeader
  rw [hc]
  simp only [hf, bind, Except.bind, pure, Except.pure]
  unfold FieldsAgree
  split_ifs with hb hriff hrate ha hcheck hagree <;> simp_all
  omega

theorem readWavHeader_eq_error (hc : readWavChunks file = some (header, readable))
    (hone : header.fmt.audioFormat ≠ 1) (ht : header.fmt.audioFormat ≠ 3) :
    readWavHeader file = .error .unsupportedWavFormat := by
  unfold readWavHeader
  rw [hc]
  simp only [mapHeaderFieldToWavFormat, if_neg hone, if_neg ht]
  rfl

end

/-- `ReadWavHeader` returns, and with accepted parameters if it returns true, exactly on the
files that do not carry an unknown format tag in an otherwise readable header. -/
theorem readWavHeader_returns_iff (content : List UInt8) :
    (∃ result, readWavHeader ⟨content, 0⟩ = .ok result ∧
      ∀ p readable, result = some (p, readable) → checkWavParameters p = true) ↔
    ¬ HasUnsupportedFormat content := by
  rw [hasUnsupportedFormat_iff]
  constructor
  · rintro ⟨result, hok, -⟩ ⟨header, readable, hc, hone, ht⟩
    rw [readWavHeader_eq_error hc hone ht] at hok
    cases hok
  · intro hs
    cases hc : readWavChunks ⟨content, 0⟩ with
    | none =>
      refine ⟨none, ?_, by simp⟩
      unfold readWavHeader
      rw [hc]
    | some found =>
      obtain ⟨header, readable⟩ := found
      obtain ⟨format, hf⟩ := mapHeaderFieldToWavFormat_isOk
        fun htag => hs ⟨header, readable, hc, htag⟩
      refine ⟨_, readWavHeader_eq_ok hc hf, ?_⟩
      intro p readable' hr
      obtain ⟨ha, hsome⟩ | ⟨-, hn⟩ := ite_eq_iff.1 hr
      · cases hsome
        exact ha.2.2.2.2
      · cases hn

def adpcmFile : List UInt8 :=
  WavHeaderPcm.toBytes
    { riff := ⟨⟨packFourCC 'R' 'I' 'F' 'F', 36⟩, packFourCC 'W' 'A' 'V' 'E'⟩
      fmt :=
        { header := ⟨packFourCC 'f' 'm' 't' ' ', 16⟩
          audioFormat := 2
          numChannels := 1
          sampleRate := 8000
          byteRate := 8000
          blockAlign := 1
          bitsPerSample := 8 }
      data := ⟨packFourCC 'd' 'a' 't' 'a', 0⟩ }

theorem adpcmFile_hasUnsupportedFormat : HasUnsupportedFormat adpcmFile where
  riff := by decide
  chunks := ⟨12, 36, .found (by decide) (by decide), ⟨by decide, .inl (by decide)⟩,
    .found (by decide) (by decide),
    by decide, by decide⟩

theorem readWavHeader_adpcmFile : readWavHeader ⟨adpcmFile, 0⟩ = .error .unsupportedWavFormat := by
  obtain ⟨header, readable, hc, hone, ht⟩ :=
    hasUnsupportedFormat_iff.1 adpcmFile_hasUnsupportedFormat
  exact readWavHeader_eq_error hc hone ht

end WebRtcAudio.CommonAudio
