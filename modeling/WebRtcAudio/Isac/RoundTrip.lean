import WebRtcAudio.Core.Run
import WebRtcAudio.Isac.ArithDecoder
import WebRtcAudio.Isac.ArithEncoder

/-! Blocks of symbols are encoded, and the terminated stream is decoded block by block. -/
namespace WebRtcAudio.Isac

open WebRtcAudio.Core List Option CodedSymbol

structure OneStepSymbol extends CodedSymbol where
  initIndex : ℕ
  init_lt : initIndex < table.size

structure BisectSymbol extends CodedSymbol where
  bisectable : table.Bisectable

inductive Block where
  | oneStep (symbols : List OneStepSymbol)
  | bisect (symbols : List BisectSymbol)

def Block.coded : Block → List CodedSymbol
  | .oneStep symbols => symbols.map OneStepSymbol.toCodedSymbol
  | .bisect symbols => symbols.map BisectSymbol.toCodedSymbol

def Block.symbols (block : Block) : List ℤ := block.coded.map fun c => (c.symbol : ℤ)

def encodeBlocks (stream : List (BitVec 8)) (blocks : List Block) :
    Option (Bitstr (List (BitVec 8)) × ℕ) := do
  let b ← blocks.foldlM (fun b block => encHistMulti b (block.coded.map data))
    (resetBitstream stream)
  encTerminate b

def decodeBlock (b : Bitstr (ℕ → BitVec 8)) : Block → Option (Bitstr (ℕ → BitVec 8) × DecResult)
  | .oneStep symbols =>
    decHistOneStepMulti b (symbols.map fun s => (s.table.entries, s.initIndex))
  | .bisect symbols =>
    decHistBisectMulti b (symbols.map fun s => (s.table.entries, s.table.cdfSize))

namespace Bitstr

variable {b : Bitstr (ℕ → BitVec 8)} {r : CodeRange} {code : ℕ → BitVec 8}

theorem Reads.first (h : b.Reads r code) (hr : r.Valid) (c : CodedSymbol) {cs : List CodedSymbol}
    (hc : (r.encodeAll ((c :: cs).map part)).Contains code) :
    ∃ b', takeSymbol b (c.found b.wUpper) = some b' ∧ b'.Reads (r.encode c.part.1 c.part.2) code ∧
      (r.encode c.part.1 c.part.2).Valid ∧ c.table.Cut b.wUpper b.streamval (c.symbol + 1) := by
  have hn := hr.encode c.part_valid
  have hf := hn.contains_of_encodeAll (parts_valid cs) hc
  obtain ⟨b', hb', hreads⟩ := h.takeSymbol_spec hr hf
  exact ⟨b', hb', hreads, hn, h.cut hr hf⟩

theorem Reads.decOneStepLoop_spec (h : b.Reads r code) (hr : r.Valid) (symbols : List OneStepSymbol)
    (hc : (r.encodeAll ((Block.oneStep symbols).coded.map part)).Contains code) :
    ∃ b', decOneStepLoop b (symbols.map fun s => (s.table.entries, s.initIndex)) =
        some (.ok b', (Block.oneStep symbols).symbols) ∧
      b'.Reads (r.encodeAll ((Block.oneStep symbols).coded.map part)) code := by
  induction symbols generalizing b r with
  | nil => exact ⟨b, rfl, h⟩
  | cons s symbols ih =>
    obtain ⟨b₁, hb₁, hreads₁, hr₁, hcut⟩ := h.first hr s.toCodedSymbol hc
    obtain ⟨b₂, hb₂, hreads₂⟩ := ih hreads₁ hr₁ hc
    refine ⟨b₂, ?_, hreads₂⟩
    rw [map_cons, decOneStepLoop, decOneStep, s.searchOneStep_eq s.init_lt hcut]
    simp only [bind_eq_bind, bind_some, hb₁, Option.pure_def, hb₂]
    rfl

theorem Reads.decBisectLoop_spec (h : b.Reads r code) (hr : r.Valid) (wLower : BitVec 32)
    (symbols : List BisectSymbol)
    (hc : (r.encodeAll ((Block.bisect symbols).coded.map part)).Contains code) :
    ∃ b', decBisectLoop b wLower (symbols.map fun s => (s.table.entries, s.table.cdfSize)) =
        some (.ok b', (Block.bisect symbols).symbols) ∧
      b'.Reads (r.encodeAll ((Block.bisect symbols).coded.map part)) code := by
  induction symbols generalizing b r wLower with
  | nil => exact ⟨b, rfl, h⟩
  | cons s symbols ih =>
    obtain ⟨b₁, hb₁, hreads₁, hr₁, hcut⟩ := h.first hr s.toCodedSymbol hc
    obtain ⟨b₂, hb₂, hreads₂⟩ := ih hreads₁ hr₁ ((s.found b.wUpper).wLower + 1) hc
    refine ⟨b₂, ?_, hreads₂⟩
    rw [map_cons, decBisectLoop, decBisect, s.searchBisect_eq s.bisectable wLower hcut]
    simp only [bind_eq_bind, bind_some, hb₁, Option.pure_def,
      if_neg (hreads₁.wUpper_ne_zero hr₁), hb₂]
    rfl

theorem Waits.decodeBlock_spec (h : b.Waits r code) (hr : r.Valid) (block : Block)
    (hc : (r.encodeAll (block.coded.map part)).Contains code) :
    ∃ b', decodeBlock b block = some (b',
        ⟨(r.encodeAll (block.coded.map part)).codeLength, block.symbols⟩) ∧
      b'.Waits (r.encodeAll (block.coded.map part)) code := by
  have hz := h.wUpper_ne_zero hr
  cases block with
  | oneStep symbols =>
    obtain ⟨b', hb', hreads⟩ := h.readFirstWord.decOneStepLoop_spec hr symbols hc
    refine ⟨b', ?_, .reads hreads⟩
    rw [decodeBlock, decHistOneStepMulti, if_neg hz, hb', map_some, finishCall,
      hreads.streamLength_eq]
  | bisect symbols =>
    obtain ⟨b', hb', hreads⟩ := h.readFirstWord.decBisectLoop_spec hr 0 symbols hc
    refine ⟨b', ?_, .reads hreads⟩
    rw [decodeBlock, decHistBisectMulti, if_neg hz, hb', map_some, finishCall,
      hreads.streamLength_eq]

theorem Waits.runPartial_spec (h : b.Waits r code) (hr : r.Valid) (blocks : List Block)
    (hc : (r.encodeAll ((blocks.flatMap Block.coded).map part)).Contains code) :
    ∃ b' results, runPartial decodeBlock b blocks = some (b', results) ∧
      results.map DecResult.data = blocks.map Block.symbols ∧
      ∀ last ∈ results.getLast?, last.returned =
        (r.encodeAll ((blocks.flatMap Block.coded).map part)).codeLength := by
  induction blocks generalizing b r with
  | nil => exact ⟨b, [], rfl, rfl, by simp⟩
  | cons block blocks ih =>
    rw [flatMap_cons, map_append, CodeRange.encodeAll_append] at hc ⊢
    have hn := hr.encodeAll (parts_valid block.coded)
    have hf := hn.contains_of_encodeAll (parts_valid _) hc
    obtain ⟨b₁, hb₁, hw₁⟩ := h.decodeBlock_spec hr block hf
    obtain ⟨b₂, results, hb₂, hd, hl⟩ := ih hw₁ hn hc
    refine ⟨b₂, ⟨(r.encodeAll (block.coded.map part)).codeLength, block.symbols⟩ ::
      results, ?_, ?_, ?_⟩
    · rw [runPartial, hb₁, bind_eq_bind, bind_some, hb₂]
      rfl
    · rw [map_cons, hd]
      rfl
    · intro last hmem
      cases results with
      | nil =>
        -- The call was the last one.
        obtain rfl : blocks = [] := List.map_eq_nil_iff.mp hd.symm
        cases hmem
        rfl
      | cons result results =>
        rw [List.getLast?_cons_cons] at hmem
        exact hl last hmem

end Bitstr

theorem encodeBlocks_eq (stream : List (BitVec 8)) (blocks : List Block) :
    encodeBlocks stream blocks = (encHistMulti (resetBitstream stream)
        ((blocks.flatMap Block.coded).map data)).bind encTerminate := by
  rw [encodeBlocks, bind_eq_bind]
  congr 1
  generalize resetBitstream stream = b
  induction blocks generalizing b with
  | nil => rfl
  | cons block blocks ih =>
    rw [foldlM_cons, flatMap_cons, map_append, encHistMulti, encHistMulti, foldlM_append]
    congr 1
    exact funext ih

def blocksRange (blocks : List Block) : CodeRange :=
  CodeRange.start.encodeAll ((blocks.flatMap Block.coded).map part)

theorem blocksRange_valid (blocks : List Block) : (blocksRange blocks).Valid :=
  CodeRange.valid_start.encodeAll (parts_valid _)

theorem encodeBlocks_spec (stream : List (BitVec 8)) (blocks : List Block) :
    (stream.length < (blocksRange blocks).codeLength → encodeBlocks stream blocks = none) ∧
      ((blocksRange blocks).codeLength ≤ stream.length →
        ∃ b, encodeBlocks stream blocks = some (b, (blocksRange blocks).codeLength) ∧
          beValue (b.stream.take (blocksRange blocks).codeLength) =
            (blocksRange blocks).codeNumber) := by
  have hout := (Bitstr.at_reset stream).encHistMulti CodeRange.valid_start
    (blocks.flatMap Block.coded)
  rw [encodeBlocks_eq]
  generalize encHistMulti (resetBitstream stream) _ = encoded at hout ⊢
  cases encoded with
  | none =>
    have hlt := Nat.lt_of_lt_of_le hout (blocksRange blocks).shifts_le_codeLength
    exact ⟨fun _ => rfl, fun hr => absurd hlt (Nat.not_lt_of_le hr)⟩
  | some b =>
    obtain ⟨hat, hl⟩ := hout
    have hs := hat.encTerminate_spec (blocksRange_valid blocks)
    rwa [hl] at hs

/-- Blocks of symbols are encoded to a number of bytes, and to a buffer that is shorter they are
not. Whatever follows these bytes, the decoders return the symbols of each block, and the last of
them the number of bytes. -/
theorem decode_encodeBlocks (blocks : List Block) : ∃ length, ∀ stream : List (BitVec 8),
      (stream.length < length → encodeBlocks stream blocks = none) ∧
      (length ≤ stream.length → ∃ b, encodeBlocks stream blocks = some (b, length) ∧
        ∀ code : ℕ → BitVec 8, (∀ i < length, b.stream[i]? = some (code i)) →
          ∃ b' results, runPartial decodeBlock (resetBitstream code) blocks = some (b', results) ∧
            results.map DecResult.data = blocks.map Block.symbols ∧
            ∀ last ∈ results.getLast?, last.returned = length) := by
  refine ⟨(blocksRange blocks).codeLength, fun stream =>
    ⟨(encodeBlocks_spec stream blocks).1, fun hr => ?_⟩⟩
  obtain ⟨b, hb, hn⟩ := (encodeBlocks_spec stream blocks).2 hr
  refine ⟨b, hb, fun code hcode => ?_⟩
  have hc := (blocksRange_valid blocks).contains_of_codeNumber
    ((codeValue_eq_beValue hcode).trans hn)
  exact (Bitstr.Waits.fresh rfl rfl).runPartial_spec CodeRange.valid_start blocks hc

end WebRtcAudio.Isac
