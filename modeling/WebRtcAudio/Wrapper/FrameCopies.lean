import Mathlib.Data.Vector.Defs
import Mathlib.Tactic.Ring
import WebRtcAudio.Wrapper.AudioProcessing

/-! `processCapture` and `processRemote`: the frames of the caller's buffer are copied, processed
and copied back. -/
namespace WebRtcAudio.Wrapper

open WebRtcAudio.Core WebRtcAudio.Apm
open List hiding Vector

def kMaxDataSizeBytes : ℕ := 7680 * 2

structure AudioFrame where
  sampleRateHz : ℤ
  samplesPerChannel : ℕ
  numChannels : ℕ
  data : Vector UInt8 kMaxDataSizeBytes

inductive Fault
  | divisionByZero
  | frameOverflow
  | bufferOverrun
  | invalidPointer
  deriving DecidableEq

/-- `memcpy` from an offset of the buffer to the start of an array that `mutable_data` has
cleared. -/
def copyToFrame (buffer : List UInt8) (cur : ℤ) (size : ℕ) :
    Except Fault (Vector UInt8 kMaxDataSizeBytes) :=
  if kMaxDataSizeBytes < size then .error .frameOverflow
  else if cur < 0 ∨ buffer.length < cur + size then .error .bufferOverrun
  else .ok (Vector.ofFn fun i => if i < size then buffer.getD (cur.toNat + i) 0 else 0)

def copyFromFrame (buffer : List UInt8) (cur : ℤ) (size : ℕ)
    (data : Vector UInt8 kMaxDataSizeBytes) : Except Fault (List UInt8) :=
  if kMaxDataSizeBytes < size then .error .frameOverflow
  else if cur < 0 ∨ buffer.length < cur + size then .error .bufferOverrun
  else .ok (buffer.take cur.toNat ++ data.toList.take size ++ buffer.drop (cur.toNat + size))

def writeBack (buffer : List UInt8) (cur : ℤ) (size : ℕ) (result : ErrorCode)
    (frame : AudioFrame) : Except Fault (List UInt8) :=
  if result ≠ .kNoError then .ok buffer else copyFromFrame buffer cur size frame.data

structure FrameAudio where
  newDigitalGain : Option ℤ := none
  audioResult : ErrorCode := .kNoError
  output : Vector UInt8 kMaxDataSizeBytes → Vector UInt8 kMaxDataSizeBytes := id

def processAudioFrame (impl : AudioProcessingImpl) (frame : AudioFrame) (audio : FrameAudio) :
    AudioProcessingImpl × ErrorCode × AudioFrame :=
  let config : StreamConfig := ⟨frame.sampleRateHz, frame.numChannels, false⟩
  let (impl, result) := impl.processStream
    { inputConfig := config
      outputConfig := config
      newDigitalGain := audio.newDigitalGain
      audioResult := audio.audioResult }
  (impl, result, { frame with data := audio.output frame.data })

def processReverseAudioFrame (impl : AudioProcessingImpl) (frame : AudioFrame)
    (audio : FrameAudio) : AudioProcessingImpl × ErrorCode × AudioFrame :=
  if frame.sampleRateHz ∉ [8000, 16000, 32000, 48000] then (impl, .kBadSampleRateError, frame)
  else if frame.numChannels = 0 then (impl, .kBadNumberChannelsError, frame)
  else
    let config : StreamConfig := ⟨frame.sampleRateHz, frame.numChannels, false⟩
    let (impl, result) := impl.processReverseStream
      { interleaved := true, inputConfig := config, outputConfig := config }
    (impl, result, { frame with data := audio.output frame.data })

def clampedStreamDelay (delay : ℤ) : ℤ := min 500 (max 0 delay)

namespace AudioProcessing

def captureFrame (audio : FrameAudio) (w : AudioProcessing) (frame : AudioFrame) :
    Except Fault (AudioProcessing × ErrorCode × AudioFrame) :=
  match w.audioProc with
  | none => .error .invalidPointer
  | some impl =>
    let (impl, result, frame) := processAudioFrame impl frame audio
    let w := w.updateAudioProc fun _ => impl
    .ok (if result = .kNoError then { w with nStreamDelay := clampedStreamDelay w.nStreamDelay }
      else w, result, frame)

def remoteFrame (audio : FrameAudio) (w : AudioProcessing) (frame : AudioFrame) :
    Except Fault (AudioProcessing × ErrorCode × AudioFrame) :=
  match w.audioProc with
  | none => .error .invalidPointer
  | some impl =>
    let (impl, result, frame) := processReverseAudioFrame impl frame audio
    .ok (w.updateAudioProc fun _ => impl, result, frame)

def frameLen (w : AudioProcessing) (config : StreamConfig) : ℤ :=
  toInt32 (toSizeT (toSizeT (w.nSamplesPerChannel * 2) * config.numChannels))

def processFrames (process : ℕ → AudioProcessing → AudioFrame →
      Except Fault (AudioProcessing × ErrorCode × AudioFrame))
    (config : StreamConfig) (frameLen : ℤ) :
    ℕ → ℕ → ℤ → AudioProcessing → List UInt8 → Except Fault (AudioProcessing × List UInt8)
  | _, 0, _, w, buffer => .ok (w, buffer)
  | i, frames + 1, cur, w, buffer => do
    let data ← copyToFrame buffer cur (toSizeT frameLen)
    let (w, result, frame) ← process i w
      ⟨config.sampleRateHz, toSizeT w.nSamplesPerChannel, config.numChannels, data⟩
    let buffer ← writeBack buffer cur (toSizeT frameLen) result frame
    processFrames process config frameLen (i + 1) frames (cur + frameLen) w buffer

def processBuffer (process : ℕ → AudioProcessing → AudioFrame →
      Except Fault (AudioProcessing × ErrorCode × AudioFrame))
    (w : AudioProcessing) (pointer : Option ℕ) (inBuf : List UInt8) :
    Except Fault (AudioProcessing × List UInt8) :=
  match w.streamConfigAt pointer with
  | none => .error .invalidPointer
  | some config =>
    if w.frameLen config = 0 then .error .divisionByZero
    else
      processFrames process config (w.frameLen config) 0
        ((inBuf.length : ℤ).tdiv (w.frameLen config)).toNat 0 w inBuf

def processCapture (w : AudioProcessing) (inBuf : List UInt8) (audio : ℕ → FrameAudio) :
    Except Fault ((AudioProcessing × List UInt8) × Bool) :=
  (processBuffer (fun i => captureFrame (audio i)) w w.pInputConfig inBuf).map (·, true)

def processRemote (w : AudioProcessing) (inBuf : List UInt8) (audio : ℕ → FrameAudio) :
    Except Fault (AudioProcessing × List UInt8) :=
  processBuffer (fun i => remoteFrame (audio i)) w w.pReverseConfig inBuf

end AudioProcessing

inductive AudioCall
  | set (setting : Setter × Bool)
  | setStreamDelay (delay : ℤ)
  | processCapture (inBuf : List UInt8) (audio : ℕ → FrameAudio)
  | processRemote (inBuf : List UInt8) (audio : ℕ → FrameAudio)

namespace AudioProcessing

def audioStep (w : AudioProcessing) : AudioCall → AudioProcessing
  | .set setting => w.set setting
  | .setStreamDelay delay => w.setStreamDelay delay
  | .processCapture inBuf audio => ((w.processCapture inBuf audio).map (·.1.1)).toOption.getD w
  | .processRemote inBuf audio => ((w.processRemote inBuf audio).map (·.1)).toOption.getD w

section Copies

variable {buffer : List UInt8} {cur size : ℕ}

theorem copyToFrame_ok (hsize : size ≤ kMaxDataSizeBytes) (hfits : cur + size ≤ buffer.length) :
    ∃ data, copyToFrame buffer cur size = .ok data := by
  unfold copyToFrame
  rw [if_neg (Nat.not_lt.mpr hsize), if_neg (by omega)]
  exact ⟨_, rfl⟩

theorem copyToFrame_overflow (buffer : List UInt8) (cur : ℤ) (h : kMaxDataSizeBytes < size) :
    copyToFrame buffer cur size = .error .frameOverflow :=
  if_pos h

section
variable (hsize : size ≤ kMaxDataSizeBytes) (hfits : cur + size ≤ buffer.length)
include hsize hfits

theorem copyFromFrame_ok (data : Vector UInt8 kMaxDataSizeBytes) :
    ∃ written, copyFromFrame buffer cur size data = .ok written ∧
      written.length = buffer.length ∧ written.drop (cur + size) = buffer.drop (cur + size) := by
  unfold copyFromFrame
  rw [if_neg (Nat.not_lt.mpr hsize), if_neg (by omega), Int.toNat_natCast]
  have ht : (buffer.take cur ++ data.toList.take size).length = cur + size := by
    simp only [length_append, length_take, Vector.length_toList]
    omega
  refine ⟨_, rfl, ?_, drop_left' ht⟩
  rw [length_append, ht, length_drop]
  omega

theorem writeBack_ok (result : ErrorCode) (frame : AudioFrame) :
    ∃ written, writeBack buffer cur size result frame = .ok written ∧
      written.length = buffer.length ∧ written.drop (cur + size) = buffer.drop (cur + size) := by
  unfold writeBack
  split
  · exact ⟨buffer, rfl, rfl, rfl⟩
  · exact copyFromFrame_ok hsize hfits frame.data

end

end Copies

structure Prepared (args : InitArguments) (w : AudioProcessing) : Prop where
  samples : w.nSamplesPerChannel = args.inSamplerate.tdiv 100
  input : w.streamConfigAt w.pInputConfig = some args.format.inputStream
  reverse : w.streamConfigAt w.pReverseConfig = some args.format.reverseInputStream
  audioProc : w.audioProc.isSome

def KeepsPrepared (args : InitArguments) (process : ℕ → AudioProcessing → AudioFrame →
    Except Fault (AudioProcessing × ErrorCode × AudioFrame)) : Prop :=
  ∀ i w frame, w.Prepared args → ∃ u result frame',
    process i w frame = .ok (u, result, frame') ∧ u.Prepared args

variable {args : InitArguments} {process : ℕ → AudioProcessing → AudioFrame →
  Except Fault (AudioProcessing × ErrorCode × AudioFrame)} {w : AudioProcessing}
  {size frames bytes : ℕ}

theorem processFrames_ok (hpr : KeepsPrepared args process) (config : StreamConfig)
    (hsize : size ≤ kMaxDataSizeBytes) (frames i cur : ℕ) (w : AudioProcessing)
    (buffer : List UInt8) (hw : w.Prepared args) (hfits : cur + frames * size ≤ buffer.length) :
    ∃ u written, processFrames process config size i frames cur w buffer = .ok (u, written) ∧
      written.length = buffer.length ∧
      written.drop (cur + frames * size) = buffer.drop (cur + frames * size) := by
  have hc : toSizeT (size : ℤ) = size := toSizeT_natCast (by
    unfold kMaxDataSizeBytes at hsize
    omega)
  induction frames generalizing i cur w buffer with
  | zero => exact ⟨w, buffer, rfl, rfl, rfl⟩
  | succ frames ih =>
    have hn : cur + (frames + 1) * size = cur + size + frames * size := by ring
    rw [hn] at hfits ⊢
    obtain ⟨data, hdata⟩ := copyToFrame_ok hsize (show cur + size ≤ buffer.length by omega)
    obtain ⟨u, result, frame, hf, hu⟩ := hpr i w
      ⟨config.sampleRateHz, toSizeT w.nSamplesPerChannel, config.numChannels, data⟩ hw
    obtain ⟨written, hwrite, hl, hd⟩ :=
      writeBack_ok hsize (show cur + size ≤ buffer.length by omega) result frame
    obtain ⟨v, final, hloop, hl', hd'⟩ :=
      ih (i + 1) (cur + size) u written hu (by omega)
    refine ⟨v, final, ?_, hl'.trans hl, ?_⟩
    · simp only [processFrames, hc, hdata, hf, hwrite, bind, Except.bind]
      exact_mod_cast hloop
    · -- what lies behind this frame was as before when the others were processed
      rw [hd', ← drop_drop, hd, drop_drop]

theorem processFrames_prepared (hpr : KeepsPrepared args process) (config : StreamConfig)
    (frameLen : ℤ) {i : ℕ} {cur : ℤ} {u : AudioProcessing} {buffer written : List UInt8}
    (hw : w.Prepared args)
    (h : processFrames process config frameLen i frames cur w buffer = .ok (u, written)) :
    u.Prepared args := by
  induction frames generalizing i cur w buffer with
  | zero =>
    obtain ⟨rfl, -⟩ := Prod.mk.inj (Except.ok.inj h)
    exact hw
  | succ frames ih =>
    simp only [processFrames, bind, Except.bind] at h
    split at h
    · cases h
    · next data _ =>
      obtain ⟨v, result, frame, hf, hv⟩ := hpr i w
        ⟨config.sampleRateHz, toSizeT w.nSamplesPerChannel, config.numChannels, data⟩ hw
      simp only [hf] at h
      split at h
      · cases h
      · exact ih hv h

theorem processFrames_overflow (config : StreamConfig) {frameLen : ℤ}
    (h : kMaxDataSizeBytes < toSizeT frameLen) (hfr : frames ≠ 0) (i : ℕ) (cur : ℤ)
    (w : AudioProcessing) (buffer : List UInt8) :
    processFrames process config frameLen i frames cur w buffer = .error .frameOverflow := by
  obtain ⟨frames, rfl⟩ := Nat.exists_eq_succ_of_ne_zero hfr
  simp only [processFrames, copyToFrame_overflow buffer cur h, bind, Except.bind]

theorem Prepared.updateAudioProc (hw : w.Prepared args)
    (f : AudioProcessingImpl → AudioProcessingImpl) : (w.updateAudioProc f).Prepared args where
  samples := hw.samples
  input := (streamConfigAt_updateAudioProc w f _).trans hw.input
  reverse := (streamConfigAt_updateAudioProc w f _).trans hw.reverse
  audioProc := by simpa using hw.audioProc

theorem Prepared.setStreamDelay (hw : w.Prepared args) (delay : ℤ) :
    (w.setStreamDelay delay).Prepared args :=
  ⟨hw.samples, hw.input, hw.reverse, hw.audioProc⟩

theorem captureFrame_keepsPrepared (args : InitArguments) (audio : ℕ → FrameAudio) :
    KeepsPrepared args fun i => captureFrame (audio i) := by
  intro i w frame hw
  obtain ⟨impl, hi⟩ := Option.isSome_iff_exists.mp hw.audioProc
  simp only [captureFrame, hi]
  refine ⟨_, _, _, rfl, ?_⟩
  split
  · exact (hw.updateAudioProc _).setStreamDelay _
  · exact hw.updateAudioProc _

theorem remoteFrame_keepsPrepared (args : InitArguments) (audio : ℕ → FrameAudio) :
    KeepsPrepared args fun i => remoteFrame (audio i) := by
  intro i w frame hw
  obtain ⟨impl, hi⟩ := Option.isSome_iff_exists.mp hw.audioProc
  simp only [remoteFrame, hi]
  exact ⟨_, _, _, rfl, hw.updateAudioProc _⟩

/-- The call ends without a fault and leaves the bytes behind the last whole frame as they were. -/
def Contained (frameLen : ℤ) (inBuf : List UInt8)
    (outcome : Except Fault (AudioProcessing × List UInt8)) : Prop :=
  ∃ w written, outcome = .ok (w, written) ∧ written.length = inBuf.length ∧
    written.drop (inBuf.length - ((inBuf.length : ℤ).tmod frameLen).toNat) =
      inBuf.drop (inBuf.length - ((inBuf.length : ℤ).tmod frameLen).toNat)

theorem frameLen_lt (w : AudioProcessing) (config : StreamConfig) : w.frameLen config < 2 ^ 31 := by
  unfold frameLen toInt32
  exact lt_of_lt_of_le (Int.bmod_lt (by norm_num)) (by norm_num)

theorem tdiv_toNat_ne_zero {len : ℤ} (hpos : 0 < len) (hle : len ≤ bytes) :
    ((bytes : ℤ).tdiv len).toNat ≠ 0 := by
  have hone : 1 ≤ (bytes : ℤ).tdiv len := by
    rw [Int.tdiv_eq_ediv_of_nonneg (by omega), Int.le_ediv_iff_mul_le hpos, one_mul]
    exact hle
  omega

theorem pos_of_tdiv_toNat_ne_zero {len : ℤ} (h : ((bytes : ℤ).tdiv len).toNat ≠ 0) : 0 < len := by
  by_contra hneg
  have hle : (bytes : ℤ).tdiv len ≤ 0 :=
    Int.tdiv_nonpos_of_nonneg_of_nonpos (by omega) (by omega)
  omega

theorem tdiv_toNat_natCast (bytes size : ℕ) : ((bytes : ℤ).tdiv size).toNat = bytes / size := by
  rw [Int.tdiv_eq_ediv_of_nonneg (by omega), ← Int.natCast_div, Int.toNat_natCast]

theorem length_sub_tmod (bytes size : ℕ) :
    bytes - ((bytes : ℤ).tmod size).toNat = bytes / size * size := by
  have hmod : ((bytes : ℤ).tmod size).toNat = bytes % size := by
    rw [Int.tmod_eq_emod_of_nonneg (by omega), ← Int.natCast_mod, Int.toNat_natCast]
  have hs := Nat.div_add_mod' bytes size
  omega

theorem processFrames_contained (hpr : KeepsPrepared args process) (config : StreamConfig)
    (hsize : size ≤ kMaxDataSizeBytes) (hw : w.Prepared args) (inBuf : List UInt8) :
    Contained size inBuf (processFrames process config size 0 (inBuf.length / size) 0 w inBuf) := by
  have hfits : 0 + inBuf.length / size * size ≤ inBuf.length := by
    rw [Nat.zero_add]
    exact Nat.div_mul_le_self _ _
  unfold Contained
  rw [length_sub_tmod, ← Nat.zero_add (inBuf.length / size * size)]
  exact processFrames_ok hpr config hsize _ 0 0 w inBuf hw hfits

variable {config : StreamConfig} {pointer : Option ℕ}

theorem processBuffer_contained_iff (hpr : KeepsPrepared args process) (hw : w.Prepared args)
    (hc : w.streamConfigAt pointer = some config) (inBuf : List UInt8) :
    Contained (w.frameLen config) inBuf (processBuffer process w pointer inBuf) ↔
      w.frameLen config ≠ 0 ∧
        (w.frameLen config ≤ kMaxDataSizeBytes ∨ inBuf.length < w.frameLen config) := by
  have hb := frameLen_lt w config
  simp only [processBuffer, hc]
  generalize w.frameLen config = len at hb ⊢
  by_cases hz : len = 0
  · simp [hz, Contained]
  rw [if_neg hz]
  by_cases hn : ((inBuf.length : ℤ).tdiv len).toNat = 0
  · -- no whole frame, or a negative length
    rw [hn]
    have hco : Contained len inBuf (processFrames process config len 0 0 0 w inBuf) :=
      ⟨w, inBuf, rfl, rfl, rfl⟩
    refine iff_of_true hco ⟨hz, ?_⟩
    by_contra hl
    rw [not_or, not_le, not_lt] at hl
    exact tdiv_toNat_ne_zero (lt_of_le_of_lt (Int.natCast_nonneg _) hl.1) hl.2 hn
  · obtain ⟨size, rfl⟩ := Int.eq_ofNat_of_zero_le (pos_of_tdiv_toNat_ne_zero hn).le
    rw [tdiv_toNat_natCast] at hn ⊢
    by_cases hsize : size ≤ kMaxDataSizeBytes
    · exact iff_of_true (processFrames_contained hpr config hsize hw inBuf)
        ⟨hz, .inl (by exact_mod_cast hsize)⟩
    · have hl : kMaxDataSizeBytes < toSizeT (size : ℤ) := by
        rw [toSizeT_natCast (by omega)]
        omega
      refine iff_of_false ?_ ?_
      · rw [processFrames_overflow config hl hn]
        simp [Contained]
      · rintro ⟨-, hle | hlt⟩
        · exact hsize (by exact_mod_cast hle)
        · exact hn (Nat.div_eq_of_lt (by exact_mod_cast hlt))

def frameBytes (args : InitArguments) : ℤ :=
  toInt32 (args.inSamplerate.tdiv 100 * 2 * args.inChannelnum)

theorem Prepared.frameLen_eq (hw : w.Prepared args)
    (hc : config.numChannels = toSizeT args.inChannelnum) :
    w.frameLen config = frameBytes args := by
  unfold frameLen frameBytes
  rw [hw.samples, hc]
  refine toInt32_congr (Int.ModEq.of_mul_right (2 ^ 32) ?_)
  norm_num only
  exact (toSizeT_modEq _).trans ((toSizeT_modEq _).mul (toSizeT_modEq _))

theorem processBuffer_prepared (hpr : KeepsPrepared args process) (hw : w.Prepared args)
    {inBuf : List UInt8} {r : AudioProcessing × List UInt8}
    (h : processBuffer process w pointer inBuf = .ok r) : r.1.Prepared args := by
  unfold processBuffer at h
  split at h
  · cases h
  · split at h
    · cases h
    · exact processFrames_prepared hpr _ _ hw h

theorem Prepared.set (hw : w.Prepared args) (setting : Setter × Bool) :
    (w.set setting).Prepared args := by
  refine set_keeps hw (fun config => ?_) setting
  have hc : { w with apmConfig := config }.Prepared args :=
    ⟨hw.samples, hw.input, hw.reverse, hw.audioProc⟩
  exact hc.updateAudioProc _

theorem Prepared.audioStep (hw : w.Prepared args) (call : AudioCall) :
    (w.audioStep call).Prepared args := by
  cases call with
  | set setting => exact hw.set setting
  | setStreamDelay delay => exact hw.setStreamDelay delay
  | processCapture inBuf audio =>
    simp only [AudioProcessing.audioStep, processCapture]
    cases h : processBuffer (fun i => captureFrame (audio i)) w w.pInputConfig inBuf with
    | error fault => exact hw
    | ok r => exact processBuffer_prepared (captureFrame_keepsPrepared args audio) hw h
  | processRemote inBuf audio =>
    simp only [AudioProcessing.audioStep, processRemote]
    cases h : processBuffer (fun i => remoteFrame (audio i)) w w.pReverseConfig inBuf with
    | error fault => exact hw
    | ok r => exact processBuffer_prepared (remoteFrame_keepsPrepared args audio) hw h

structure Started (args : InitArguments) (w : AudioProcessing) : Prop where
  samples : w.nSamplesPerChannel = args.inSamplerate.tdiv 100
  audioProc : w.audioProc.isSome

theorem Started.setAll (hw : w.Started args) (calls : List (Setter × Bool)) :
    (w.setAll calls).Started args := by
  refine foldlRecOn calls AudioProcessing.set hw fun u hu setting _ => ?_
  refine set_keeps hu (fun config => ?_) setting
  have hp : { u with apmConfig := config }.audioProc.isSome := hu.audioProc
  exact ⟨hu.samples, by simpa [applyConfig] using hp⟩

theorem Started.newStreamConfigs (hw : w.Started args) :
    (w.newStreamConfigs args.format).Prepared args where
  samples := hw.samples
  input := by simp [streamConfigAt, AudioProcessing.newStreamConfigs]
  reverse := by simp [streamConfigAt, AudioProcessing.newStreamConfigs]
  audioProc := by
    obtain ⟨impl, hi⟩ := Option.isSome_iff_exists.mp hw.audioProc
    rw [audioProc_newStreamConfigs w _ hi]
    rfl

theorem init_prepared (w : AudioProcessing) (args : InitArguments) :
    (w.init args).1.Prepared args := by
  have hs :
      { w with nSamplesPerChannel := args.inSamplerate.tdiv 100 }.newAudioProc.Started args :=
    ⟨rfl, by rw [audioProc_newAudioProc]; rfl⟩
  have hpre : (w.prepare args).Prepared args :=
    (hs.setAll defaultSettings).newStreamConfigs
  have hi : ((w.prepare args).initializeAudioProc args.format).1.Prepared args :=
    hpre.updateAudioProc _
  obtain heq | heq := init_cases w args
  · rw [heq]
    exact hi.updateAudioProc _
  · rw [heq]
    exact hi

/-- Both calls stay inside the array and the buffer and leave the rest of the buffer alone exactly
if a frame has samples and either the array can hold it or the buffer has none. -/
theorem process_contained_iff (w : AudioProcessing) (args : InitArguments)
    (calls : List AudioCall) (inBuf : List UInt8) (audio : ℕ → FrameAudio) :
    (Contained (frameBytes args) inBuf
        (((calls.foldl audioStep (w.init args).1).processCapture inBuf audio).map (·.1)) ↔
      frameBytes args ≠ 0 ∧
        (frameBytes args ≤ kMaxDataSizeBytes ∨ inBuf.length < frameBytes args)) ∧
    (Contained (frameBytes args) inBuf
        ((calls.foldl audioStep (w.init args).1).processRemote inBuf audio) ↔ frameBytes args ≠ 0 ∧
        (frameBytes args ≤ kMaxDataSizeBytes ∨ inBuf.length < frameBytes args)) := by
  have hpre : (calls.foldl audioStep (w.init args).1).Prepared args :=
    foldlRecOn calls audioStep (init_prepared w args) fun _ hu call _ => hu.audioStep call
  generalize calls.foldl audioStep (w.init args).1 = u at hpre ⊢
  have hi : u.frameLen args.format.inputStream = frameBytes args := hpre.frameLen_eq rfl
  have hr : u.frameLen args.format.reverseInputStream = frameBytes args :=
    hpre.frameLen_eq rfl
  constructor
  · have hcap := processBuffer_contained_iff (captureFrame_keepsPrepared args audio) hpre
      hpre.input inBuf
    rw [hi] at hcap
    rw [← hcap, processCapture]
    cases processBuffer (fun i => captureFrame (audio i)) u u.pInputConfig inBuf <;> rfl
  · have hremote := processBuffer_contained_iff (remoteFrame_keepsPrepared args audio) hpre
      hpre.reverse inBuf
    rwa [hr] at hremote

theorem process_faults : ((createAudioProcessing {}).init ⟨50, 1, 50, 1⟩).2 = true ∧
      ((((createAudioProcessing {}).init ⟨50, 1, 50, 1⟩).1.processCapture [] fun _ => {}).map
        fun _ => ()) = .error .divisionByZero ∧
    ((createAudioProcessing {}).init ⟨48000, 17, 48000, 1⟩).2 = true ∧
      ((((createAudioProcessing {}).init ⟨48000, 17, 48000, 1⟩).1.processRemote
        (replicate 16320 0) fun _ => {}).map fun _ => ()) = .error .frameOverflow := by
  decide +kernel

end AudioProcessing

end WebRtcAudio.Wrapper
