import WebRtcAudio.Core.MachineInt
import WebRtcAudio.NetEq.Packet

/-! `RedPayloadSplitter::SplitRed` (RFC 2198). A read outside the payload is undefined. -/
namespace WebRtcAudio.NetEq

open WebRtcAudio.Core

structure RedHeader where
  payloadType : UInt8
  timestamp : UInt32
  payloadLength : ℕ

namespace RedPayloadSplitter

def kMaxRedBlocks : ℕ := 32

def fBit (b : UInt8) : Bool := decide (b &&& 0x80 ≠ 0)

def timestampOffset (b1 b2 : UInt8) : ℕ := (b1.toNat <<< 6) + (b2 &&& 0xFC).toNat >>> 2

def blockLength (b2 b3 : UInt8) : ℕ := ((b2 &&& 0x03).toNat <<< 8) + b3.toNat

/-- The loop over the headers. The list holds the bytes from the pointer on, which is at the index
`pos`; the result has the index after the last header. The length of the last block is what the
running sum leaves of the payload, as a `size_t`. -/
def readHeaders (timestamp : UInt32) (size : ℕ) : List UInt8 → ℕ → ℕ → Option (List RedHeader × ℕ)
  | [], _, _ => none
  | b0 :: bytes, pos, sumLength =>
    if fBit b0 then
      match bytes with
      | b1 :: b2 :: b3 :: bytes =>
        let payloadLength := blockLength b2 b3
        let newHeader : RedHeader :=
          ⟨b0 &&& 0x7F, timestamp - UInt32.ofNat (timestampOffset b1 b2), payloadLength⟩
        (readHeaders timestamp size bytes (pos + 4) (sumLength + payloadLength + 4)).map
          fun r => (newHeader :: r.1, r.2)
      | _ => none
    else some ([⟨b0 &&& 0x7F, timestamp, toSizeT (size - (sumLength + 1 : ℕ))⟩], pos + 1)

def newPacket (redPacket : Packet) (n i : ℕ) (newHeader : RedHeader) (payload : Buffer) :
    Packet where
  timestamp := newHeader.timestamp
  sequenceNumber := redPacket.sequenceNumber
  payloadType := newHeader.payloadType
  payload := payload
  priority := ⟨0, (n - 1 - i : ℕ)⟩
  packetInfo :=
    { ssrc := redPacket.packetInfo.ssrc
      csrcs := []
      rtpTimestamp := newHeader.timestamp
      audioLevel := none
      absoluteCaptureTime := none
      receiveTimeMs := redPacket.packetInfo.receiveTimeMs }
  waitingTime := none
  frame := none

/-- The loop over the payloads, from the index `pos` on. It stops with `false` at a block that
exceeds the payload. A pointer cannot be moved by more than a `ptrdiff_t`. -/
def populate (redPacket : Packet) (n : ℕ) :
    List RedHeader → ℕ → ℕ → List Packet → Option (List Packet × Bool)
  | [], _, _, newPackets => some (newPackets, true)
  | newHeader :: newHeaders, i, pos, newPackets =>
    if 2 ^ 63 ≤ newHeader.payloadLength then none
    else if redPacket.payload.size < pos + newHeader.payloadLength then some (newPackets, false)
    else
      (redPacket.payload.setData pos newHeader.payloadLength).bind fun payload =>
        populate redPacket n newHeaders (i + 1) (pos + newHeader.payloadLength)
          (newPacket redPacket n i newHeader payload :: newPackets)

def splitPacket (redPacket : Packet) : Option (List Packet × Bool) :=
  (readHeaders redPacket.timestamp redPacket.payload.size redPacket.payload.data 0 0).bind fun r =>
    if r.1.length ≤ kMaxRedBlocks then populate redPacket r.1.length r.1 0 r.2 []
    else some ([], false)

def splitRed : List Packet → Option (List Packet × Bool)
  | [] => some ([], true)
  | redPacket :: packetList => do
    let (newPackets, ok) ← splitPacket redPacket
    let (rest, ret) ← splitRed packetList
    return (newPackets ++ rest, ok && ret)

end RedPayloadSplitter

end WebRtcAudio.NetEq
