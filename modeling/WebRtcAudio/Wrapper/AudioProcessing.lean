import WebRtcAudio.Apm.ApiCalls
import WebRtcAudio.Core.MachineInt

/-! The wrapper class `AudioProcessing`: raw pointers, and setters that keep a configuration of
their own. -/
namespace WebRtcAudio.Wrapper

open WebRtcAudio.Core WebRtcAudio.Apm Option

inductive HeapObject
  | audioProc (impl : AudioProcessingImpl)
  | streamConfig (config : StreamConfig)

def HeapObject.updateAudioProc (f : AudioProcessingImpl → AudioProcessingImpl) :
    HeapObject → HeapObject
  | .audioProc impl => .audioProc (f impl)
  | .streamConfig config => .streamConfig config

/-- The pointers that the constructor does not set. A pointer is null or an address. The objects
are numbered as they are allocated, so that a pointer with an arbitrary value may by chance point
to an object that is allocated later, or to none. -/
structure UnsetPointers where
  pConfig : Option ℕ := none
  pInputConfig : Option ℕ := none
  pOutputConfig : Option ℕ := none
  pReverseConfig : Option ℕ := none

structure AudioProcessing extends UnsetPointers where
  pAudioProc : Option ℕ := none
  apmConfig : Config := {}
  nSamplesPerChannel : ℤ := 0
  nStreamDelay : ℤ := 0
  heap : List HeapObject := []

def createAudioProcessing (pointers : UnsetPointers) : AudioProcessing :=
  { toUnsetPointers := pointers }

namespace AudioProcessing

def audioProc (w : AudioProcessing) : Option AudioProcessingImpl :=
  match w.pAudioProc.bind (w.heap[·]?) with
  | some (.audioProc impl) => some impl
  | _ => none

def streamConfigAt (w : AudioProcessing) (pointer : Option ℕ) : Option StreamConfig :=
  match pointer.bind (w.heap[·]?) with
  | some (.streamConfig config) => some config
  | _ => none

/-- A call through `m_pAudioProc`. The source makes it without a test; without a module there is
nothing here that it changes. -/
def updateAudioProc (w : AudioProcessing) (f : AudioProcessingImpl → AudioProcessingImpl) :
    AudioProcessing :=
  { w with
    heap := w.pAudioProc.elim w.heap fun p => w.heap.modify p (HeapObject.updateAudioProc f) }

def setStreamDelay (w : AudioProcessing) (delay : ℤ) : AudioProcessing :=
  { w with nStreamDelay := delay }

def applyConfig (w : AudioProcessing) : AudioProcessing :=
  w.updateAudioProc (·.applyConfig w.apmConfig)

def setIfDifferent (w : AudioProcessing) (enable current : Bool) (config : Config) :
    AudioProcessing :=
  if enable ≠ current then { w with apmConfig := config }.applyConfig else w

def enableAGC (w : AudioProcessing) (enable : Bool) : AudioProcessing :=
  w.setIfDifferent enable w.apmConfig.gainController2.enabled
    { w.apmConfig with gainController2.enabled := enable }

def enableNS (w : AudioProcessing) (enable : Bool) : AudioProcessing :=
  w.setIfDifferent enable w.apmConfig.noiseSuppression.enabled
    { w.apmConfig with noiseSuppression.enabled := enable }

def enableVAD (w : AudioProcessing) (enable : Bool) : AudioProcessing :=
  w.setIfDifferent enable w.apmConfig.voiceDetectionEnabled
    { w.apmConfig with voiceDetectionEnabled := enable }

def enableECM (w : AudioProcessing) (enable : Bool) : AudioProcessing :=
  w.setIfDifferent enable w.apmConfig.echoCanceller.mobileMode
    { w.apmConfig with echoCanceller.enabled := false, echoCanceller.mobileMode := enable }

def enableAEC (w : AudioProcessing) (enable : Bool) : AudioProcessing :=
  w.setIfDifferent enable w.apmConfig.echoCanceller.enabled
    { w.apmConfig with echoCanceller.enabled := enable, echoCanceller.mobileMode := false }

def enableHPF (w : AudioProcessing) (enable : Bool) : AudioProcessing :=
  w.setIfDifferent enable w.apmConfig.highPassFilter.enabled
    { w.apmConfig with highPassFilter.enabled := enable }

def enableLE (w : AudioProcessing) (enable : Bool) : AudioProcessing :=
  w.setIfDifferent enable w.apmConfig.levelEstimationEnabled
    { w.apmConfig with levelEstimationEnabled := enable }

end AudioProcessing

inductive Setter
  | enableAGC
  | enableNS
  | enableVAD
  | enableECM
  | enableAEC
  | enableHPF
  | enableLE
  deriving DecidableEq

namespace AudioProcessing

def set (w : AudioProcessing) : Setter × Bool → AudioProcessing
  | (.enableAGC, enable) => w.enableAGC enable
  | (.enableNS, enable) => w.enableNS enable
  | (.enableVAD, enable) => w.enableVAD enable
  | (.enableECM, enable) => w.enableECM enable
  | (.enableAEC, enable) => w.enableAEC enable
  | (.enableHPF, enable) => w.enableHPF enable
  | (.enableLE, enable) => w.enableLE enable

def setAll (w : AudioProcessing) (calls : List (Setter × Bool)) : AudioProcessing :=
  calls.foldl set w

def newAudioProc (w : AudioProcessing) : AudioProcessing :=
  { w with
    pAudioProc := some w.heap.length
    heap := w.heap ++ [.audioProc (.create {})] }

def defaultSettings : List (Setter × Bool) :=
  [(.enableHPF, true), (.enableAEC, true), (.enableECM, false), (.enableNS, true),
    (.enableVAD, true), (.enableLE, true), (.enableAGC, false)]

def newStreamConfigs (w : AudioProcessing) (format : ProcessingConfig) : AudioProcessing :=
  { w with
    pInputConfig := some w.heap.length
    pOutputConfig := some (w.heap.length + 1)
    pReverseConfig := some (w.heap.length + 2)
    heap := w.heap ++ [.streamConfig format.inputStream, .streamConfig format.outputStream,
      .streamConfig format.reverseInputStream] }

end AudioProcessing

structure InitArguments where
  inSamplerate : ℤ
  inChannelnum : ℤ
  outSamplerate : ℤ
  outChannelnum : ℤ

def InitArguments.format (args : InitArguments) : ProcessingConfig :=
  let input : StreamConfig := ⟨args.inSamplerate, toSizeT args.inChannelnum, false⟩
  let output : StreamConfig := ⟨args.outSamplerate, toSizeT args.outChannelnum, false⟩
  ⟨input, output, input, input⟩

namespace AudioProcessing

def initializeAudioProc (w : AudioProcessing) (format : ProcessingConfig) :
    AudioProcessing × ErrorCode :=
  (w.updateAudioProc fun impl => (impl.initializeLockedWith format).1,
    w.audioProc.elim .kNullPointerError fun impl => (impl.initializeLockedWith format).2)

def prepare (w : AudioProcessing) (args : InitArguments) : AudioProcessing :=
  let w := { w with nSamplesPerChannel := args.inSamplerate.tdiv 100 }
  let w := w.newAudioProc
  let w := w.setAll defaultSettings
  w.newStreamConfigs args.format

def init (w : AudioProcessing) (args : InitArguments) : AudioProcessing × Bool :=
  match (w.prepare args).initializeAudioProc args.format with
  | (w, .kNoError) => (w.applyConfig, true)
  | (w, _) => (w, false)

end AudioProcessing

inductive Call
  | init (args : InitArguments)
  | set (setting : Setter × Bool)
  | setStreamDelay (delay : ℤ)

namespace AudioProcessing

def step (w : AudioProcessing) : Call → AudioProcessing × Option Bool
  | .init args => ((w.init args).1, some (w.init args).2)
  | .set setting => (w.set setting, none)
  | .setStreamDelay delay => (w.setStreamDelay delay, none)

def reached (pointers : UnsetPointers) (calls : List Call) : AudioProcessing :=
  runState step (createAudioProcessing pointers) calls

theorem set_keeps {P : AudioProcessing → Prop} {w : AudioProcessing} (h : P w)
    (happ : ∀ config, P { w with apmConfig := config }.applyConfig) (setting : Setter × Bool) :
    P (w.set setting) := by
  have hset : ∀ enable current config, P (w.setIfDifferent enable current config) := by
    intro enable current config
    unfold setIfDifferent
    split
    · exact happ config
    · exact h
  obtain ⟨setter, enable⟩ := setting
  cases setter <;> exact hset _ _ _

theorem init_cases (w : AudioProcessing) (args : InitArguments) :
    w.init args = (((w.prepare args).initializeAudioProc args.format).1.applyConfig, true) ∨
      w.init args = (((w.prepare args).initializeAudioProc args.format).1, false) := by
  unfold init
  split
  · next heq =>
    rw [heq]
    exact .inl rfl
  · next heq =>
    rw [heq]
    exact .inr rfl

section Heap

variable (w : AudioProcessing)

section
variable (f : AudioProcessingImpl → AudioProcessingImpl)
include f

@[simp] theorem audioProc_updateAudioProc :
    (w.updateAudioProc f).audioProc = w.audioProc.map f := by
  unfold audioProc updateAudioProc
  rcases w.pAudioProc with _ | p
  · rfl
  · simp only [elim_some, bind_some, List.getElem?_modify_eq]
    rcases w.heap[p]? with _ | (impl | config) <;> rfl

@[simp] theorem apmConfig_updateAudioProc : (w.updateAudioProc f).apmConfig = w.apmConfig := rfl

@[simp] theorem streamConfigAt_updateAudioProc (pointer : Option ℕ) :
    (w.updateAudioProc f).streamConfigAt pointer = w.streamConfigAt pointer := by
  unfold streamConfigAt updateAudioProc
  rcases w.pAudioProc with _ | p
  · rfl
  · rcases pointer with _ | q
    · rfl
    · simp only [elim_some, bind_some, List.getElem?_modify]
      by_cases hs : p = q <;> rcases w.heap[q]? with _ | (impl | config) <;>
        simp [hs, HeapObject.updateAudioProc]

@[simp] theorem heap_length_updateAudioProc :
    (w.updateAudioProc f).heap.length = w.heap.length := by
  unfold updateAudioProc
  cases w.pAudioProc <;> simp

end

@[simp] theorem audioProc_newAudioProc : w.newAudioProc.audioProc = some (.create {}) := by
  simp [audioProc, newAudioProc]

theorem audioProc_newStreamConfigs (format : ProcessingConfig) {impl : AudioProcessingImpl}
    (h : w.audioProc = some impl) : (w.newStreamConfigs format).audioProc = some impl := by
  unfold audioProc at *
  rcases hp : w.pAudioProc with _ | p
  · simp [hp] at h
  · simp only [hp, bind_some] at h
    simp only [newStreamConfigs, hp, bind_some]
    -- an address in use stays what it is
    have hlt : p < w.heap.length := by
      by_contra hge
      simp [List.getElem?_eq_none (Nat.le_of_not_lt hge)] at h
    rwa [List.getElem?_append_left hlt]

end Heap

end AudioProcessing

end WebRtcAudio.Wrapper
