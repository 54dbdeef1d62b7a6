import WebRtcAudio.Isac.CdfSearch

/-! The arithmetic coder of the floating-point codec. A write outside the buffer has no result. -/
namespace WebRtcAudio.Isac

open WebRtcAudio.Core

structure Bitstr (Stream : Type) where
  stream : Stream
  wUpper : BitVec 32
  streamval : BitVec 32
  streamIndex : ℕ

def resetBitstream {Stream : Type} (stream : Stream) : Bitstr Stream := ⟨stream, 0xFFFFFFFF, 0, 0⟩

def putByte (b : Bitstr (List (BitVec 8))) (byte : BitVec 8) : Option (Bitstr (List (BitVec 8))) :=
  if b.streamIndex < b.stream.length then
    some { b with stream := b.stream.set b.streamIndex byte, streamIndex := b.streamIndex + 1 }
  else none

def addToStream (b : Bitstr (List (BitVec 8))) (x : BitVec 32) :
    Option (Bitstr (List (BitVec 8))) :=
  let streamval := b.streamval + x
  if streamval < x then do
    let stream ← carry b.streamIndex b.stream
    return { b with stream := stream, streamval := streamval }
  else some { b with streamval := streamval }

/-- The loop that renormalizes the interval of the encoder. It ends after three bytes at most, or
never if `W_upper` is 0. -/
def renormalizeEnc : ℕ → Bitstr (List (BitVec 8)) → Option (Bitstr (List (BitVec 8)))
  | 0, _ => none
  | fuel + 1, b =>
    if b.wUpper &&& 0xFF000000 = 0 then do
      let b ← putByte { b with wUpper := b.wUpper <<< 8 } ((b.streamval >>> 24).setWidth 8)
      renormalizeEnc fuel { b with streamval := b.streamval <<< 8 }
    else some b

def encSymbol (b : Bitstr (List (BitVec 8))) (data : ℤ) (cdf : List (BitVec 16)) :
    Option (Bitstr (List (BitVec 8))) := do
  let cdfLo ← Memory.read cdf data
  let cdfHi ← Memory.read cdf (data + 1)
  let wLower := scale b.wUpper cdfLo + 1
  let b ← addToStream { b with wUpper := scale b.wUpper cdfHi - wLower } wLower
  renormalizeEnc 4 b

def encHistMulti (b : Bitstr (List (BitVec 8))) (symbols : List (ℤ × List (BitVec 16))) :
    Option (Bitstr (List (BitVec 8))) :=
  symbols.foldlM (fun b symbol => encSymbol b symbol.1 symbol.2) b

def encTerminate (b : Bitstr (List (BitVec 8))) : Option (Bitstr (List (BitVec 8)) × ℕ) :=
  if 0x01FFFFFF < b.wUpper then do
    let b ← addToStream b 0x01000000
    let b ← putByte b ((b.streamval >>> 24).setWidth 8)
    return (b, b.streamIndex)
  else do
    let b ← addToStream b 0x00010000
    let b ← putByte b ((b.streamval >>> 24).setWidth 8)
    let b ← putByte b ((b.streamval >>> 16).setWidth 8)
    return (b, b.streamIndex)

def renormalizeDec : ℕ → Bitstr (ℕ → BitVec 8) → Option (Bitstr (ℕ → BitVec 8))
  | 0, _ => none
  | fuel + 1, b =>
    if b.wUpper &&& 0xFF000000 = 0 then
      renormalizeDec fuel
        { b with
          streamval := (b.streamval <<< 8) ||| (b.stream (b.streamIndex + 1)).setWidth 32
          streamIndex := b.streamIndex + 1
          wUpper := b.wUpper <<< 8 }
    else some b

def readFirstWord (b : Bitstr (ℕ → BitVec 8)) : Bitstr (ℕ → BitVec 8) :=
  if b.streamIndex = 0 then
    { b with
      streamval := ((b.stream 0).setWidth 32 <<< 24) ||| ((b.stream 1).setWidth 32 <<< 16) |||
        ((b.stream 2).setWidth 32 <<< 8) ||| (b.stream 3).setWidth 32
      streamIndex := 3 }
  else b

def takeSymbol (b : Bitstr (ℕ → BitVec 8)) (found : Found) : Option (Bitstr (ℕ → BitVec 8)) :=
  let wLower := found.wLower + 1
  renormalizeDec 4
    { b with wUpper := found.wUpper - wLower, streamval := b.streamval - wLower }

def streamLength (b : Bitstr (ℕ → BitVec 8)) : ℤ :=
  if 0x01FFFFFF < b.wUpper then b.streamIndex - 2 else b.streamIndex - 1

structure DecResult where
  returned : ℤ
  data : List ℤ
  deriving DecidableEq

def decOneStep (b : Bitstr (ℕ → BitVec 8)) (cdf : List (BitVec 16)) (initIndex : ℕ) :
    Option (Except ℤ (ℤ × Bitstr (ℕ → BitVec 8))) := do
  match ← searchOneStep b.wUpper b.streamval cdf initIndex with
  | .error code => some (.error code)
  | .ok found => do
    let b ← takeSymbol b found
    return .ok (found.symbol, b)

/-- The loop of `WebRtcIsac_DecHistOneStepMulti`: the return code of an error or the new stream, and
the symbols. -/
def decOneStepLoop : Bitstr (ℕ → BitVec 8) → List (List (BitVec 16) × ℕ) →
    Option (Except ℤ (Bitstr (ℕ → BitVec 8)) × List ℤ)
  | b, [] => some (.ok b, [])
  | b, (cdf, initIndex) :: tables => do
    match ← decOneStep b cdf initIndex with
    | .error code => some (.error code, [])
    | .ok (symbol, b) => do
      let (final, data) ← decOneStepLoop b tables
      return (final, symbol :: data)

def finishCall (before : Bitstr (ℕ → BitVec 8)) :
    Except ℤ (Bitstr (ℕ → BitVec 8)) × List ℤ → Bitstr (ℕ → BitVec 8) × DecResult
  | (.error code, data) => (before, ⟨code, data⟩)
  | (.ok b, data) => (b, ⟨streamLength b, data⟩)

def decHistOneStepMulti (b : Bitstr (ℕ → BitVec 8)) (tables : List (List (BitVec 16) × ℕ)) :
    Option (Bitstr (ℕ → BitVec 8) × DecResult) :=
  if b.wUpper = 0 then some (b, ⟨-2, []⟩)
  else (decOneStepLoop (readFirstWord b) tables).map (finishCall b)

/-- One pass of `WebRtcIsac_DecHistBisectMulti`, with the `W_lower` of the symbol before: the new
`W_lower`, the symbol and the stream. -/
def decBisect (b : Bitstr (ℕ → BitVec 8)) (wLower : BitVec 32) (cdf : List (BitVec 16))
    (cdfSize : BitVec 16) : Option (BitVec 32 × ℤ × Bitstr (ℕ → BitVec 8)) := do
  let found ← searchBisect b.wUpper b.streamval cdf cdfSize wLower
  let b ← takeSymbol b found
  return (found.wLower + 1, found.symbol, b)

def decBisectLoop : Bitstr (ℕ → BitVec 8) → BitVec 32 → List (List (BitVec 16) × BitVec 16) →
    Option (Except ℤ (Bitstr (ℕ → BitVec 8)) × List ℤ)
  | b, _, [] => some (.ok b, [])
  | b, wLower, (cdf, cdfSize) :: tables => do
    let (wLower, symbol, b) ← decBisect b wLower cdf cdfSize
    if b.wUpper = 0 then some (.error (-2), [symbol])
    else do
      let (final, data) ← decBisectLoop b wLower tables
      return (final, symbol :: data)

def decHistBisectMulti (b : Bitstr (ℕ → BitVec 8)) (tables : List (List (BitVec 16) × BitVec 16)) :
    Option (Bitstr (ℕ → BitVec 8) × DecResult) :=
  if b.wUpper = 0 then some (b, ⟨-2, []⟩)
  else (decBisectLoop (readFirstWord b) 0 tables).map (finishCall b)

end WebRtcAudio.Isac
