import WebRtcAudio.CommonAudio.WavHeaderChunks

/-! The walk over the chunks of a RIFF file does not skip the padding of a chunk of odd size. -/
namespace WebRtcAudio.CommonAudio

open WebRtcAudio.Core List

structure RiffChunk where
  id : List UInt8
  data : List UInt8
  length_id : id.length = 4
  length_data : data.length < 2 ^ 32

def RiffChunk.toBytes (c : RiffChunk) : List UInt8 :=
  c.id ++ leBytes 4 c.data.length ++ c.data ++ replicate (c.data.length % 2) 0

def chunkBytes (chunks : List RiffChunk) : List UInt8 := chunks.flatMap RiffChunk.toBytes

structure WaveFile where
  riffSize : ℕ
  before : List RiffChunk
  fmt : RiffChunk
  between : List RiffChunk
  data : RiffChunk
  after : List UInt8
  fmt_id : fmt.id = asciiBytes ['f', 'm', 't', ' ']
  data_id : data.id = asciiBytes ['d', 'a', 't', 'a']
  before_id : ∀ c ∈ before, c.id ≠ fmt.id
  between_id : ∀ c ∈ between, c.id ≠ data.id
  fmt_size : fmt.data.length = 16 ∨ fmt.data.length = 18 ∧ fmt.data.drop 16 = [0, 0]

namespace WaveFile

variable (w : WaveFile)

def riff : List UInt8 :=
  asciiBytes ['R', 'I', 'F', 'F'] ++ leBytes 4 w.riffSize ++ asciiBytes ['W', 'A', 'V', 'E']

def upToFmt : List UInt8 := w.riff ++ chunkBytes w.before

def upToData : List UInt8 := w.upToFmt ++ w.fmt.toBytes ++ chunkBytes w.between

def toBytes : List UInt8 := w.upToData ++ (w.data.toBytes ++ w.after)

end WaveFile

theorem drop_chunk (pre rest : List UInt8) (c : RiffChunk) :
    (pre ++ (c.toBytes ++ rest)).drop pre.length = c.id ++
      (leBytes 4 c.data.length ++ (c.data ++ (replicate (c.data.length % 2) 0 ++ rest))) := by
  simp only [drop_left, RiffChunk.toBytes, append_assoc]

theorem idAt_chunk (pre rest : List UInt8) (c : RiffChunk) :
    idAt (pre ++ (c.toBytes ++ rest)) pre.length = c.id := by
  rw [idAt, drop_chunk]
  exact take_left' c.length_id

theorem sizeAt_chunk (pre rest : List UInt8) (c : RiffChunk) :
    sizeAt (pre ++ (c.toBytes ++ rest)) pre.length = c.data.length := by
  rw [sizeAt, fieldAt, ← drop_drop, drop_chunk, drop_left' c.length_id,
    take_left' (length_leBytes 4 _), ofLeBytes_leBytes]
  exact c.length_data.trans_eq (by norm_num)

theorem drop_header (pre rest : List UInt8) (c : RiffChunk) :
    (pre ++ (c.toBytes ++ rest)).drop (pre.length + 8) =
      c.data ++ (replicate (c.data.length % 2) 0 ++ rest) := by
  rw [← drop_drop, drop_chunk, ← append_assoc, drop_left']
  rw [length_append, c.length_id, length_leBytes]

theorem length_toBytes (c : RiffChunk) :
    c.toBytes.length = 8 + c.data.length + c.data.length % 2 := by
  simp only [RiffChunk.toBytes, length_append, c.length_id, length_leBytes, length_replicate]

theorem walksTo_chunk (pre rest : List UInt8) (c : RiffChunk) :
    WalksTo (pre ++ (c.toBytes ++ rest)) c.id pre.length pre.length := by
  refine .found ?_ (idAt_chunk pre rest c)
  rw [length_append, length_append, length_toBytes]
  omega

/-- Chunks of even size before the sought one are skipped. -/
theorem walksTo_of_even (pre rest : List UInt8) {chunks : List RiffChunk} {c : RiffChunk}
    (hid : ∀ d ∈ chunks, d.id ≠ c.id) (he : ∀ d ∈ chunks, d.data.length % 2 = 0) :
    WalksTo (pre ++ (chunkBytes chunks ++ (c.toBytes ++ rest))) c.id pre.length
      (pre ++ chunkBytes chunks).length := by
  induction chunks generalizing pre with
  | nil =>
    rw [chunkBytes, flatMap_nil, nil_append, append_nil]
    exact walksTo_chunk pre rest c
  | cons d chunks ih =>
    rw [forall_mem_cons] at hid he
    have hl := length_toBytes d
    have hn := ih (pre ++ d.toBytes) hid.2 he.2
    rw [append_assoc, append_assoc, length_append, hl, he.1, add_zero, ← add_assoc] at hn
    rw [chunkBytes, flatMap_cons, ← chunkBytes, append_assoc]
    refine .skipped ?_ (by rw [idAt_chunk]; exact hid.1) (by rwa [sizeAt_chunk])
    rw [length_append, length_append]
    omega

/-- If the skipped chunks have even sizes, the "fmt " and "data" chunks are found. -/
theorem readWavChunks_of_even (w : WaveFile)
    (heven : ∀ c ∈ w.before ++ w.between, c.data.length % 2 = 0) :
    (∃ header, findWaveChunk ⟨w.toBytes, 12⟩ w.fmt.id =
        some (header, ⟨w.toBytes, w.upToFmt.length + 8⟩)) ∧
      ∃ header, readWavChunks ⟨w.toBytes, 0⟩ =
          some (header, ⟨w.toBytes, w.upToData.length + 8⟩) ∧
        header.data.size = w.data.data.length ∧
        (w.toBytes.drop (w.upToData.length + 8)).take w.data.data.length = w.data.data := by
  rw [forall_mem_append] at heven
  have hr : w.riff.length = 12 := by simp [WaveFile.riff, asciiBytes]
  generalize hi : chunkBytes w.between ++ (w.data.toBytes ++ w.after) = inner
  have hf : w.toBytes = w.upToFmt ++ (w.fmt.toBytes ++ inner) := by
    rw [← hi, WaveFile.toBytes, WaveFile.upToData, append_assoc, append_assoc]
  have hfmt : WalksTo w.toBytes w.fmt.id 12 w.upToFmt.length := by
    have hw := walksTo_of_even w.riff inner w.before_id heven.1
    rwa [← append_assoc, hr, ← WaveFile.upToFmt, ← hf] at hw
  have hs : sizeAt w.toBytes w.upToFmt.length = w.fmt.data.length := by
    rw [hf, sizeAt_chunk]
  have hdata : WalksTo w.toBytes w.data.id (w.upToFmt.length + 8 + w.fmt.data.length)
      w.upToData.length := by
    have hw := walksTo_of_even (w.upToFmt ++ w.fmt.toBytes) w.after w.between_id heven.2
    have hpadding := w.fmt_size
    rwa [hi, append_assoc, ← hf, length_append, length_toBytes,
      show w.fmt.data.length % 2 = 0 by omega, add_zero, ← add_assoc] at hw
  have hp : FmtPayloadFits w.toBytes (w.upToFmt.length + 8) w.fmt.data.length := by
    have hd : w.toBytes.drop (w.upToFmt.length + 8) = _ := hf ▸ drop_header _ inner w.fmt
    have hl := congrArg length hd
    rw [length_drop, length_append] at hl
    refine ⟨by have := w.fmt_size; omega, w.fmt_size.imp_right fun h => ⟨h.1, by omega, ?_⟩⟩
    rw [fieldAt, ← drop_drop, hd, drop_append_of_le_length (by omega), h.2]
    rfl
  have hids : 12 ≤ w.toBytes.length ∧ idAt w.toBytes 0 = asciiBytes ['R', 'I', 'F', 'F'] ∧
      idAt w.toBytes 8 = asciiBytes ['W', 'A', 'V', 'E'] := by
    rw [hf, WaveFile.upToFmt, append_assoc]
    exact ⟨by rw [length_append]; omega, rfl, rfl⟩
  rw [← hs] at hdata hp
  refine ⟨⟨_, findWaveChunk_eq_some_iff.mpr ⟨_, hfmt, rfl, rfl⟩⟩, _,
    readWavChunks_eq_some_iff.mpr ⟨hids, _, _, w.fmt_id ▸ hfmt, hp,
    w.data_id ▸ hdata, rfl, rfl⟩, ?_, ?_⟩
  · exact (fieldAt_take_drop (by decide)).trans (sizeAt_chunk w.upToData w.after w.data)
  · rw [WaveFile.toBytes, drop_header, take_left]

def listFile (data : List UInt8) (h : data.length < 2 ^ 32) : WaveFile where
  riffSize := 48
  before := [⟨asciiBytes ['L', 'I', 'S', 'T'], data, rfl, h⟩]
  fmt := ⟨asciiBytes ['f', 'm', 't', ' '], replicate 16 0, rfl, by decide⟩
  between := []
  data := ⟨asciiBytes ['d', 'a', 't', 'a'], [], rfl, by decide⟩
  after := []
  fmt_id := rfl
  data_id := rfl
  before_id := by simp [asciiBytes]
  between_id := nofun
  fmt_size := .inl rfl

theorem findWaveChunk_oddChunk : findWaveChunk ⟨(listFile [0] (by decide)).toBytes, 12⟩
    (asciiBytes ['f', 'm', 't', ' ']) = none := by
  rw [findWaveChunk_eq (by decide), if_neg (by decide), findWaveChunk_eq (by decide),
    if_neg (by decide), findWaveChunk_eq_none (by decide)]

theorem readWavChunks_of_even_list : ∃ header,
    readWavChunks ⟨(listFile [0, 0] (by decide)).toBytes, 0⟩ =
      some (header, ⟨(listFile [0, 0] (by decide)).toBytes, 54⟩) := by
  obtain ⟨-, header, hr, -⟩ := readWavChunks_of_even (listFile [0, 0] (by decide)) (by decide)
  exact ⟨header, hr⟩

end WebRtcAudio.CommonAudio
