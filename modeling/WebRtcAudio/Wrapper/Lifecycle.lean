import Mathlib.Data.List.ReduceOption
import WebRtcAudio.Wrapper.AudioProcessing

/-! The lifetime of what the wrapper allocates. -/
namespace WebRtcAudio.Wrapper

open WebRtcAudio.Core WebRtcAudio.Apm List

/-- What runs when an `IAudioProcessing` is deleted. Its destructor is not virtual, so that the
language does not say whether the destructor of the object's own class runs first. -/
inductive DeleteDispatch
  | ofObject
  | ofInterface

def AudioProcessing.destructorDeletes (w : AudioProcessing) : List ℕ :=
  [w.pAudioProc, w.pConfig, w.pInputConfig, w.pOutputConfig, w.pReverseConfig].reduceOption

def AudioProcessing.releaseAudioProcessing (w : AudioProcessing) : DeleteDispatch → List ℕ
  | .ofObject => w.destructorDeletes
  | .ofInterface => []

/-- Each object that is deleted has been allocated and is not deleted before, and all that were
allocated are deleted exactly once. -/
structure DeletedOnce (allocated : ℕ) (deletes : List ℕ) : Prop where
  valid : ∀ before address after, deletes = before ++ address :: after →
    address < allocated ∧ address ∉ before
  once : ∀ address < allocated, deletes.count address = 1

theorem DeletedOnce.mem_iff {allocated : ℕ} {deletes : List ℕ} (h : DeletedOnce allocated deletes)
    (address : ℕ) : address ∈ deletes ↔ address < allocated := by
  constructor
  · intro hmem
    obtain ⟨before, after, heq⟩ := append_of_mem hmem
    exact (h.valid before address after heq).1
  · intro hlt
    rw [← count_pos_iff, h.once address hlt]
    exact Nat.one_pos

theorem deletedOnce_nil_iff {allocated : ℕ} : DeletedOnce allocated [] ↔ allocated = 0 := by
  constructor
  · intro h
    by_contra hne
    exact absurd ((h.mem_iff 0).mpr (Nat.pos_of_ne_zero hne)) not_mem_nil
  · rintro rfl
    exact ⟨by simp, by simp⟩

def Call.isInit : Call → Bool
  | .init _ => true
  | _ => false

namespace AudioProcessing

inductive Points (pointers : UnsetPointers) (w : AudioProcessing) : ℕ → Prop
  | constructed (hproc : w.pAudioProc = none) (hrest : w.toUnsetPointers = pointers)
      (hheap : w.heap.length = 0) : Points pointers w 0
  | initialized (n : ℕ) (hproc : w.pAudioProc = some (4 * n))
      (hrest : w.toUnsetPointers =
        ⟨pointers.pConfig, some (4 * n + 1), some (4 * n + 2), some (4 * n + 3)⟩)
      (hheap : w.heap.length = 4 * (n + 1)) : Points pointers w (n + 1)

namespace Points

variable {pointers : UnsetPointers} {w : AudioProcessing} {n : ℕ}

theorem heap_length (h : w.Points pointers n) : w.heap.length = 4 * n := by
  cases h with
  | constructed hp hr hh => exact hh
  | initialized n hp hr hh => exact hh

theorem pConfig (h : w.Points pointers n) : w.pConfig = pointers.pConfig := by
  cases h with
  | constructed hp hr hh => rw [hr]
  | initialized n hp hr hh => rw [hr]

theorem of_same {u : AudioProcessing} (h : w.Points pointers n)
    (hp : u.pAudioProc = w.pAudioProc) (hr : u.toUnsetPointers = w.toUnsetPointers)
    (hh : u.heap.length = w.heap.length) : u.Points pointers n := by
  cases h with
  | constructed hp' hr' hh' =>
    exact .constructed (hp.trans hp') (hr.trans hr') (hh.trans hh')
  | initialized n hp' hr' hh' =>
    exact .initialized n (hp.trans hp') (hr.trans hr') (hh.trans hh')

end Points

section Frame

variable (w : AudioProcessing)

structure SamePointers (w u : AudioProcessing) : Prop where
  proc : u.pAudioProc = w.pAudioProc
  rest : u.toUnsetPointers = w.toUnsetPointers
  heap : u.heap.length = w.heap.length

theorem SamePointers.trans {w u v : AudioProcessing} (h : w.SamePointers u)
    (h' : u.SamePointers v) : w.SamePointers v :=
  ⟨h'.proc.trans h.proc, h'.rest.trans h.rest, h'.heap.trans h.heap⟩

theorem set_samePointers (setting : Setter × Bool) : w.SamePointers (w.set setting) := by
  refine set_keeps ⟨rfl, rfl, rfl⟩ (fun config => ?_) setting
  exact ⟨rfl, rfl, heap_length_updateAudioProc { w with apmConfig := config } _⟩

theorem setAll_samePointers (calls : List (Setter × Bool)) : w.SamePointers (w.setAll calls) :=
  List.foldlRecOn calls set ⟨rfl, rfl, rfl⟩ fun u hu setting _ =>
    hu.trans (set_samePointers u setting)

end Frame

section
variable {pointers : UnsetPointers} {w : AudioProcessing} {n : ℕ} (h : w.Points pointers n)
  (args : InitArguments)
include h args

theorem prepare_points : (w.prepare args).Points pointers (n + 1) := by
  have hset := setAll_samePointers
    { w with nSamplesPerChannel := args.inSamplerate.tdiv 100 }.newAudioProc defaultSettings
  have hlen : (setAll _ defaultSettings).heap.length = 4 * n + 1 :=
    hset.heap.trans (by simp [newAudioProc, h.heap_length])
  have hp : (setAll _ defaultSettings).pAudioProc = some (4 * n) :=
    hset.proc.trans (congrArg some h.heap_length)
  have hco : (setAll _ defaultSettings).pConfig = pointers.pConfig :=
    (congrArg UnsetPointers.pConfig hset.rest).trans h.pConfig
  refine .initialized n hp ?_ ?_
  · simp only [prepare, newStreamConfigs, hlen, hco]
  · simp only [prepare, newStreamConfigs, length_append, hlen, length_cons, length_nil]
    omega

theorem init_points : (w.init args).1.Points pointers (n + 1) := by
  have hpre := prepare_points h args
  have hi : ((w.prepare args).initializeAudioProc args.format).1.Points pointers (n + 1) :=
    hpre.of_same rfl rfl (heap_length_updateAudioProc _ _)
  obtain heq | heq := init_cases w args
  · rw [heq]
    exact hi.of_same rfl rfl (heap_length_updateAudioProc _ _)
  · rw [heq]
    exact hi

end

theorem reached_points (pointers : UnsetPointers) (calls : List Call) :
    (reached pointers calls).Points pointers (calls.countP Call.isInit) := by
  induction calls using List.reverseRecOn with
  | nil => exact .constructed rfl rfl rfl
  | append_singleton calls call ih =>
    have hl : reached pointers (calls ++ [call]) = ((reached pointers calls).step call).1 :=
      runState_append step _ calls [call]
    rw [hl, countP_append]
    cases call with
    | init args => exact init_points ih args
    | set setting =>
      have hs := set_samePointers (reached pointers calls) setting
      exact ih.of_same hs.proc hs.rest hs.heap
    | setStreamDelay delay => exact ih.of_same rfl rfl rfl

section Destructor

variable {pointers : UnsetPointers} {w : AudioProcessing}

theorem destructorDeletes_constructed (h : w.Points pointers 0) :
    w.destructorDeletes = [pointers.pConfig, pointers.pInputConfig, pointers.pOutputConfig,
      pointers.pReverseConfig].reduceOption := by
  obtain ⟨hp, hr, -⟩ := h
  rw [← hr]
  simp only [destructorDeletes, hp, reduceOption_cons_of_none]

theorem destructorDeletes_initialized {n : ℕ} (h : w.Points pointers (n + 1)) :
    w.destructorDeletes =
      4 * n :: (pointers.pConfig.toList ++ [4 * n + 1, 4 * n + 2, 4 * n + 3]) := by
  obtain _ | ⟨_, hp, hr, -⟩ := h
  have hco := congrArg UnsetPointers.pConfig hr
  have hi := congrArg UnsetPointers.pInputConfig hr
  have hout := congrArg UnsetPointers.pOutputConfig hr
  have hreverse := congrArg UnsetPointers.pReverseConfig hr
  simp only [destructorDeletes, hp, hco, hi, hout, hreverse]
  cases pointers.pConfig <;> rfl

theorem deletedOnce_constructed_iff (pointers : UnsetPointers) :
    DeletedOnce 0 [pointers.pConfig, pointers.pInputConfig, pointers.pOutputConfig,
      pointers.pReverseConfig].reduceOption ↔ pointers = {} := by
  obtain ⟨pConfig, pInputConfig, pOutputConfig, pReverseConfig⟩ := pointers
  constructor
  · intro h
    have hnull : ∀ pointer ∈ [pConfig, pInputConfig, pOutputConfig, pReverseConfig],
        pointer = none := by
      intro pointer hmem
      rcases pointer with _ | address
      · rfl
      · have hlt := (h.mem_iff address).mp (List.reduceOption_mem_iff.mpr hmem)
        exact absurd hlt (Nat.not_lt_zero address)
    simp_all
  · intro h
    obtain ⟨rfl, rfl, rfl, rfl⟩ := UnsetPointers.mk.inj h
    exact deletedOnce_nil_iff.mpr rfl

theorem deletedOnce_once_iff (pConfig : Option ℕ) :
    DeletedOnce 4 (0 :: (pConfig.toList ++ [1, 2, 3])) ↔ pConfig = none := by
  constructor
  · intro h
    rcases pConfig with _ | address
    · rfl
    · have hlt := h.valid [0] address [1, 2, 3] rfl
      have ho := h.once address hlt.1
      have hne : address ≠ 0 := by simpa using hlt.2
      have hc : address = 1 ∨ address = 2 ∨ address = 3 := by omega
      obtain rfl | rfl | rfl := hc <;> simp at ho
  · rintro rfl
    refine ⟨?_, by decide⟩
    intro before address after heq
    have hn : (before ++ address :: after).Nodup := heq ▸ (by decide)
    have hmem : address ∈ [0, 1, 2, 3] := by
      change [0, 1, 2, 3] = _ at heq
      simp [heq]
    refine ⟨by revert hmem; simp; omega, ?_⟩
    exact fun hbe => (List.nodup_append.mp hn).2.2 address hbe address
      mem_cons_self rfl

theorem not_deletedOnce_again (pConfig : Option ℕ) (n : ℕ) :
    ¬ DeletedOnce (4 * (n + 2)) (4 * (n + 1) ::
      (pConfig.toList ++ [4 * (n + 1) + 1, 4 * (n + 1) + 2, 4 * (n + 1) + 3])) := by
  intro h
  have hmem : ∀ address < 4, pConfig = some address := by
    intro address hlt
    have hin := (h.mem_iff address).mpr (by omega)
    simp only [mem_cons, mem_append, Option.mem_toList, not_mem_nil, or_false] at hin
    rcases hin with heq | hco | heq
    · omega
    · exact hco
    · omega
  have h0 := hmem 0 (by omega)
  have h1 := hmem 1 (by omega)
  rw [h0] at h1
  cases h1

end Destructor

/-- All that was allocated is deleted exactly once, and nothing else, exactly if there was no `init`
and no pointer to delete, or one `init`, with the destructor of the class and the one pointer that
`init` does not set being null. -/
theorem releaseAudioProcessing_deletedOnce_iff (pointers : UnsetPointers) (calls : List Call)
    (dispatch : DeleteDispatch) : DeletedOnce (reached pointers calls).heap.length
        ((reached pointers calls).releaseAudioProcessing dispatch) ↔
      (calls.countP Call.isInit = 0 ∧ (dispatch = .ofObject → pointers = {})) ∨
        (calls.countP Call.isInit = 1 ∧ dispatch = .ofObject ∧ pointers.pConfig = none) := by
  have hp := reached_points pointers calls
  generalize reached pointers calls = w at hp ⊢
  generalize calls.countP Call.isInit = inits at hp ⊢
  rw [hp.heap_length]
  cases dispatch with
  | ofInterface =>
    simp only [releaseAudioProcessing, deletedOnce_nil_iff]
    simp
  | ofObject =>
    simp only [releaseAudioProcessing]
    match inits, hp with
    | 0, hp =>
      rw [destructorDeletes_constructed hp, Nat.mul_zero, deletedOnce_constructed_iff]
      simp
    | 1, hp =>
      rw [destructorDeletes_initialized hp]
      refine (deletedOnce_once_iff pointers.pConfig).trans ?_
      simp
    | n + 2, hp =>
      rw [destructorDeletes_initialized hp]
      refine iff_of_false (not_deletedOnce_again pointers.pConfig n) ?_
      simp

theorem releaseAudioProcessing_deletes_unset_pointer :
    let calls := [Call.init ⟨16000, 1, 16000, 1⟩, .set (.enableNS, false)]
    let w := reached { pConfig := some 7 } calls
    w.heap.length = 4 ∧ w.releaseAudioProcessing .ofObject = [0, 7, 1, 2, 3] ∧
      w.releaseAudioProcessing .ofInterface = [] := by
  decide +kernel

end AudioProcessing

end WebRtcAudio.Wrapper
