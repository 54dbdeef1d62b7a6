import Mathlib.Algebra.Ring.Int.Defs
import Mathlib.Data.List.GetD
import WebRtcAudio.Core.CircularList
import WebRtcAudio.Core.Run

/-! A fixed delay of the samples of each channel and band. All of them share the index of one
ring. -/
namespace WebRtcAudio.Aec3

open WebRtcAudio.Core List Option Function

structure BlockDelayBuffer (α : Type*) where
  frameLength : ℕ
  delay : ℕ
  buf : List (List (List α))
  lastInsert : ℕ

namespace BlockDelayBuffer

variable {α : Type*}

def create [Zero α] (numChannels numBands frameLength delaySamples : ℕ) : BlockDelayBuffer α where
  frameLength := frameLength
  delay := delaySamples
  buf := List.replicate numChannels (List.replicate numBands (List.replicate delaySamples 0))
  lastInsert := 0

/-- The loop over the samples of a band, each of which changes places with one of the ring. An
access behind the end of the ring or of the band has no result. -/
def delayBand (delay : ℕ) : ℕ → ℕ → List α → List α → Option (List α × List α × ℕ)
  | 0, i, ring, band => some (ring, band, i)
  | k + 1, i, ring, sample :: band => do
    let tmp ← ring[i]?
    let (ring, band, i) ←
      delayBand delay k (if i < delay - 1 then i + 1 else 0) (ring.set i sample) band
    return (ring, tmp :: band, i)
  | _ + 1, _, _, [] => none

/-- A loop over two lists side by side that carries an index. The lists have to be as long as each
other. -/
def loopBoth {ρ β : Type*} (body : ρ → β → ℕ → Option (ρ × β × ℕ)) :
    List ρ → List β → ℕ → Option (List ρ × List β × ℕ)
  | r :: rs, b :: bs, i => do
    let (r, b, i) ← body r b i
    let (rs, bs, i) ← loopBoth body rs bs i
    return (r :: rs, b :: bs, i)
  | [], [], i => some ([], [], i)
  | _, _, _ => none

def delaySignal (b : BlockDelayBuffer α) (frame : List (List (List α))) :
    Option (BlockDelayBuffer α × List (List (List α))) :=
  if b.delay = 0 then some (b, frame)
  else if b.buf = [] then none
  else do
    let (buf, frame, i) ← loopBoth (loopBoth fun ring band _ =>
      delayBand b.delay b.frameLength b.lastInsert ring band) b.buf frame 0
    return ({ b with buf := buf, lastInsert := i }, frame)

def cell (x : List (List (List α))) (ch band : ℕ) : List α := (x.getD ch []).getD band []

def Shape (numChannels numBands n : ℕ) (x : List (List (List α))) : Prop :=
  x.length = numChannels ∧ ∀ bands ∈ x, bands.length = numBands ∧ ∀ band ∈ bands, band.length = n

variable {delay i : ℕ}

section Loops

theorem advance_eq (hi : i < delay) : (if i < delay - 1 then i + 1 else 0) = (i + 1) % delay := by
  split
  · rw [Nat.mod_eq_of_lt (by omega)]
  · rw [show i + 1 = delay by omega, Nat.mod_self]

theorem delayBand_spec {ring : List α} (band : List α) (hr : ring.length = delay)
    (hi : i < delay) : ∃ ring' band', delayBand delay band.length i ring band =
        some (ring', band', (i + band.length) % delay) ∧
      ring'.length = delay ∧ band'.length = band.length ∧
      band' ++ ring'.rotate ((i + band.length) % delay) = ring.rotate i ++ band := by
  induction band generalizing i ring with
  | nil => exact ⟨ring, [], by simp [delayBand, Nat.mod_eq_of_lt hi], hr, rfl, by
      simp [Nat.mod_eq_of_lt hi]⟩
  | cons sample band ih =>
    have hlt : i < ring.length := by omega
    have hset : (ring.set i sample).length = delay := by rw [length_set, hr]
    obtain ⟨ring', band', hl, hr', hb', heq⟩ :=
      ih (i := (i + 1) % delay) hset (Nat.mod_lt _ (by omega))
    have hindex : ((i + 1) % delay + band.length) % delay =
        (i + (sample :: band).length) % delay := by
      rw [Nat.mod_add_mod, length_cons]
      congr 1
      omega
    rw [hindex] at hl heq
    refine ⟨ring', ring[i] :: band', ?_, hr', by simp [hb'], ?_⟩
    · rw [length_cons, delayBand, List.getElem?_eq_getElem hlt, advance_eq hi]
      simp only [bind_eq_bind, bind_some, hl, Option.pure_def, length_cons]
    · have hh : ring.rotate i = ring[i] :: (ring.rotate i).tail := by
        rw [rotate_eq_drop_append_take hlt.le, drop_eq_getElem_cons hlt]
        rfl
      have hset : (ring.set i sample).rotate ((i + 1) % delay) =
          (ring.rotate i).tail ++ [sample] :=
        (rotate_congr _ (by rw [length_set, hr, Nat.mod_mod])).trans (rotate_set hlt sample)
      rw [cons_append, heq, hset, hh]
      simp

theorem loopBoth_spec {ρ β : Type*} (body : ρ → β → ℕ → Option (ρ × β × ℕ)) {g : ℕ → ℕ}
    {P : ρ → β → ρ → β → Prop} {rs : List ρ} {bs : List β} (hl : bs.length = rs.length)
    (hbody : ∀ r ∈ rs, ∀ b ∈ bs, ∀ i, ∃ r' b', body r b i = some (r', b', g i) ∧ P r b r' b')
    (i : ℕ) : ∃ rs' bs', loopBoth body rs bs i = some (rs', bs', g^[rs.length] i) ∧
      rs'.length = rs.length ∧ bs'.length = rs.length ∧
      ∀ k < rs.length, ∀ r₀ b₀,
        P (rs.getD k r₀) (bs.getD k b₀) (rs'.getD k r₀) (bs'.getD k b₀) := by
  induction rs generalizing bs i with
  | nil =>
    obtain rfl : bs = [] := eq_nil_of_length_eq_zero hl
    exact ⟨[], [], rfl, rfl, rfl, by simp⟩
  | cons r rs ih =>
    obtain ⟨b, bs, rfl⟩ := exists_cons_of_length_eq_add_one hl
    obtain ⟨r', b', hf, hP⟩ := hbody r mem_cons_self b mem_cons_self i
    obtain ⟨rs', bs', hloop, hrs', hbs', hall⟩ := ih (Nat.succ.inj hl)
      (fun r hr b hb => hbody r (mem_cons_of_mem _ hr) b (mem_cons_of_mem _ hb)) (g i)
    refine ⟨r' :: rs', b' :: bs', ?_, congrArg Nat.succ hrs', congrArg Nat.succ hbs', ?_⟩
    · simp only [loopBoth, hf, hloop, bind_eq_bind, bind_some, Option.pure_def,
        length_cons, iterate_succ_apply]
    · intro k hk r₀ b₀
      cases k with
      | zero => exact hP
      | succ k => exact hall k (Nat.lt_of_succ_lt_succ hk) r₀ b₀

end Loops

section Frames
variable {numChannels numBands n delay : ℕ} {b : BlockDelayBuffer α}
  {x frame : List (List (List α))}

theorem forall_mem_iff_getD {β : Type*} {l : List β} {m : ℕ} (hl : l.length = m) (d : β)
    {P : β → Prop} : (∀ a ∈ l, P a) ↔ ∀ k < m, P (l.getD k d) := by
  subst hl
  rw [forall_mem_iff_getElem]
  refine forall₂_congr fun k hk => ?_
  rw [getD_eq_getElem _ _ hk]

theorem shape_iff : Shape numChannels numBands n x ↔
    x.length = numChannels ∧ ∀ ch < numChannels, (x.getD ch []).length = numBands ∧
      ∀ band < numBands, (cell x ch band).length = n := by
  refine and_congr_right fun hl => ?_
  rw [forall_mem_iff_getD hl []]
  refine forall₂_congr fun ch _ => and_congr_right fun hb => ?_
  rw [forall_mem_iff_getD hb []]
  rfl

/-- Each ring holds the queue of its band, the oldest sample at `last_insert_`. -/
structure Holds (b : BlockDelayBuffer α) (numChannels numBands n delay : ℕ)
    (queue : ℕ → ℕ → List α) : Prop where
  frame_eq : b.frameLength = n
  delay_eq : b.delay = delay
  shape : Shape numChannels numBands delay b.buf
  insert_lt : b.lastInsert < delay
  queue_eq : ∀ ch < numChannels, ∀ band < numBands,
    (cell b.buf ch band).rotate b.lastInsert = queue ch band

theorem holds_create [Zero α] (hd : 0 < delay) :
    Holds (create numChannels numBands n delay : BlockDelayBuffer α) numChannels numBands n delay
      fun _ _ => List.replicate delay 0 := by
  have hs : Shape numChannels numBands delay
      (create numChannels numBands n delay : BlockDelayBuffer α).buf := by
    refine ⟨length_replicate, fun bands hbands => ?_⟩
    rw [eq_of_mem_replicate hbands]
    refine ⟨length_replicate, fun band hb => ?_⟩
    rw [eq_of_mem_replicate hb, length_replicate]
  refine ⟨rfl, rfl, hs, hd, fun ch hch band hb => ?_⟩
  simp only [create, cell, rotate_zero]
  rw [getD_replicate _ hch, getD_replicate _ hb]

/-- The loops over all channels and bands end, with what the loop over a band does to each. The
index is the one behind the frame, unless there are no bands. -/
theorem loops_spec {buf : List (List (List α))} (hbuf : Shape numChannels numBands delay buf)
    (hf : Shape numChannels numBands n frame) (hi : i < delay) (hchannels : 0 < numChannels) :
    ∃ buf' frame' i', loopBoth (loopBoth fun ring band _ => delayBand delay n i ring band)
        buf frame 0 = some (buf', frame', i') ∧
      Shape numChannels numBands delay buf' ∧ Shape numChannels numBands n frame' ∧ i' < delay ∧
      ∀ ch < numChannels, ∀ band < numBands, cell frame' ch band ++ (cell buf' ch band).rotate i' =
          (cell buf ch band).rotate i ++ cell frame ch band := by
  have hbands : ∀ rings ∈ buf, ∀ bands ∈ frame, ∀ j, ∃ rings' bands',
      loopBoth (fun ring band _ => delayBand delay n i ring band) rings bands j =
          some (rings', bands', (fun _ => (i + n) % delay)^[numBands] j) ∧
        (rings'.length = numBands ∧ bands'.length = numBands ∧ ∀ k < numBands,
          (rings'.getD k []).length = delay ∧ (bands'.getD k []).length = n ∧
          bands'.getD k [] ++ (rings'.getD k []).rotate ((i + n) % delay) =
            (rings.getD k []).rotate i ++ bands.getD k []) := by
    intro rings hrings bands hbands j
    obtain ⟨hr, hringsAll⟩ := hbuf.2 rings hrings
    obtain ⟨hbandsLength, hbandsAll⟩ := hf.2 bands hbands
    obtain ⟨rings', bands', hloop, hl, hlen', hall⟩ := loopBoth_spec
      (fun ring band _ => delayBand delay n i ring band) (g := fun _ => (i + n) % delay)
      (P := fun ring band ring' band' => ring'.length = delay ∧ band'.length = n ∧
        band' ++ ring'.rotate ((i + n) % delay) = ring.rotate i ++ band)
      (hbandsLength.trans hr.symm) (fun ring hring band hb _ => by
        obtain rfl := hbandsAll band hb
        exact delayBand_spec band (hringsAll ring hring) hi) j
    rw [hr] at hloop hl hlen' hall
    exact ⟨rings', bands', hloop, hl, hlen', fun k hk => hall k hk [] []⟩
  obtain ⟨buf', frame', hloop, hl, hlen', hall⟩ := loopBoth_spec _
    (g := fun j => (fun _ => (i + n) % delay)^[numBands] j) (hf.1.trans hbuf.1.symm) hbands 0
  rw [hbuf.1] at hloop hl hlen' hall
  refine ⟨buf', frame', _, hloop, shape_iff.mpr ⟨hl, fun ch hch => ?_⟩,
    shape_iff.mpr ⟨hlen', fun ch hch => ?_⟩, ?_⟩
  · obtain ⟨hrings, -, hc⟩ := hall ch hch [] []
    exact ⟨hrings, fun band hb => (hc band hb).1⟩
  · obtain ⟨-, hbands, hc⟩ := hall ch hch [] []
    exact ⟨hbands, fun band hb => (hc band hb).2.1⟩
  · rcases Nat.eq_zero_or_pos numBands with rfl | hpos
    · refine ⟨?_, fun _ _ band hb => absurd hb (Nat.not_lt_zero band)⟩
      simp only [iterate_zero, id_eq]
      rw [iterate_fixed rfl]
      exact (Nat.zero_le i).trans_lt hi
    · have hconst : ∀ (c m : ℕ), 0 < m → ∀ j, (fun _ : ℕ => c)^[m] j = c := by
        intro c m hm j
        obtain ⟨m, rfl⟩ := Nat.exists_eq_succ_of_ne_zero hm.ne'
        rw [iterate_succ_apply']
      simp only [hconst _ _ hpos, hconst _ _ hchannels]
      exact ⟨Nat.mod_lt _ (by omega), fun ch hch band hb => ((hall ch hch [] []).2.2 band hb).2.2⟩

variable {queue : ℕ → ℕ → List α}

theorem Holds.delaySignal_spec (h : Holds b numChannels numBands n delay queue)
    (hc : 0 < numChannels) (hf : Shape numChannels numBands n frame) :
    ∃ b' frame' queue', delaySignal b frame = some (b', frame') ∧
      Shape numChannels numBands n frame' ∧ Holds b' numChannels numBands n delay queue' ∧
      ∀ ch < numChannels, ∀ band < numBands,
        cell frame' ch band ++ queue' ch band = queue ch band ++ cell frame ch band := by
  obtain ⟨rfl, rfl, hs, hinsert, hq⟩ := h
  obtain ⟨buf', frame', i', hl, hbuf', hf', hi', hcells⟩ :=
    loops_spec hs hf hinsert hc
  have hd : b.delay ≠ 0 := by omega
  have hne : b.buf ≠ [] := by
    rintro hnil
    rw [Shape, hnil] at hs
    exact hc.ne hs.1
  refine ⟨{ b with buf := buf', lastInsert := i' }, frame',
    fun ch band => (cell buf' ch band).rotate i', ?_, hf',
    ⟨rfl, rfl, hbuf', hi', fun _ _ _ _ => rfl⟩, fun ch hch band hb => ?_⟩
  · rw [delaySignal, if_neg hd, if_neg hne, hl]
    rfl
  · rw [hcells ch hch band hb, hq ch hch band hb]

def bandStream (frames : List (List (List (List α)))) (ch band : ℕ) : List α :=
  frames.flatMap fun frame => cell frame ch band

theorem Holds.runPartial_spec (h : Holds b numChannels numBands n delay queue)
    (hc : 0 < numChannels) {frames : List (List (List (List α)))}
    (hframes : ∀ frame ∈ frames, Shape numChannels numBands n frame) :
    ∃ (b' : BlockDelayBuffer α) (outputs : List (List (List (List α))))
      (queue' : ℕ → ℕ → List α), runPartial delaySignal b frames = some (b', outputs) ∧
      outputs.length = frames.length ∧ (∀ output ∈ outputs, Shape numChannels numBands n output) ∧
      ∀ ch < numChannels, ∀ band < numBands,
        (bandStream outputs ch band).length = (bandStream frames ch band).length ∧
        bandStream outputs ch band ++ queue' ch band =
          queue ch band ++ bandStream frames ch band := by
  induction frames generalizing b queue with
  | nil => exact ⟨b, [], queue, rfl, rfl, by simp, by simp [bandStream]⟩
  | cons frame frames ih =>
    have hframe := hframes frame mem_cons_self
    obtain ⟨b₁, output, queue₁, hstep, hout, hh, hcells⟩ :=
      h.delaySignal_spec hc hframe
    obtain ⟨b₂, outputs, queue₂, hrun, hl, ho, hstreams⟩ :=
      ih hh fun f hf => hframes f (mem_cons_of_mem _ hf)
    refine ⟨b₂, output :: outputs, queue₂, ?_, congrArg Nat.succ hl, ?_, ?_⟩
    · simp only [runPartial, hstep, hrun, bind_eq_bind, bind_some, Option.pure_def]
    · exact List.forall_mem_cons.mpr ⟨hout, ho⟩
    · intro ch hch band hb
      obtain ⟨hsame, hs⟩ := hstreams ch hch band hb
      have hfirst := ((shape_iff.mp hout).2 ch hch).2 band hb
      have hfirst' := ((shape_iff.mp hframe).2 ch hch).2 band hb
      have hcons : ∀ (f : List (List (List α))) fs,
          bandStream (f :: fs) ch band = cell f ch band ++ bandStream fs ch band :=
        fun f fs => flatMap_cons
      rw [hcons, hcons]
      refine ⟨by rw [length_append, length_append, hfirst, hfirst', hsame], ?_⟩
      calc cell output ch band ++ bandStream outputs ch band ++ queue₂ ch band
          = (cell output ch band ++ queue₁ ch band) ++ bandStream frames ch band := by
            rw [append_assoc, hs, append_assoc]
        _ = queue ch band ++ (cell frame ch band ++ bandStream frames ch band) := by
            rw [hcells ch hch band hb, append_assoc]

/-- The stream that leaves each band of each channel is the delay in zeros and then the stream
that came in. -/
theorem delaySignal_stream [Zero α] (numBands n : ℕ) (hchannels : 1 ≤ numChannels)
    (hdelay : 1 ≤ delay) (frames : List (List (List (List α))))
    (hframes : ∀ frame ∈ frames, Shape numChannels numBands n frame) :
    ∃ b outputs, runPartial delaySignal (create numChannels numBands n delay) frames =
        some (b, outputs) ∧ outputs.length = frames.length ∧
      (∀ output ∈ outputs, Shape numChannels numBands n output) ∧
      ∀ ch < numChannels, ∀ band < numBands, bandStream outputs ch band =
          (List.replicate delay 0 ++ bandStream frames ch band).take
            (bandStream frames ch band).length := by
  obtain ⟨b, outputs, queue, hrun, hl, hshape, hstreams⟩ :=
    (holds_create hdelay).runPartial_spec hchannels hframes
  refine ⟨b, outputs, hrun, hl, hshape, fun ch hch band hb => ?_⟩
  obtain ⟨hsame, hs⟩ := hstreams ch hch band hb
  rw [← hs, ← hsame, take_left]

theorem delaySignal_stream_twoFrames : ∃ b outputs, runPartial delaySignal (create 1 2 3 2)
        [[[[(1 : ℤ), 2, 3], [7, 8, 9]]], [[[4, 5, 6], [10, 11, 12]]]] = some (b, outputs) ∧
      bandStream outputs 0 0 = [0, 0, 1, 2, 3, 4] ∧
      bandStream outputs 0 1 = [0, 0, 7, 8, 9, 10] := by
  obtain ⟨b, outputs, hrun, -, -, hs⟩ := delaySignal_stream 2 3 le_rfl (by decide : 1 ≤ 2)
    [[[[(1 : ℤ), 2, 3], [7, 8, 9]]], [[[4, 5, 6], [10, 11, 12]]]]
    (by unfold Shape; decide)
  exact ⟨b, outputs, hrun, hs 0 (by decide) 0 (by decide),
    hs 0 (by decide) 1 (by decide)⟩

end Frames

end BlockDelayBuffer

end WebRtcAudio.Aec3
