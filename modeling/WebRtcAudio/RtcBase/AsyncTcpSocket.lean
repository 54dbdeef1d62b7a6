import WebRtcAudio.Core.Run
import Mathlib

/-! `AsyncTCPSocket` puts its length before each packet. The stream socket below it takes and gives
as many bytes at a time as it likes. -/
namespace WebRtcAudio.RtcBase.AsyncTcpSocket

open WebRtcAudio.Core List

def kBufSize : ℕ := 64 * 1024 + 2

/-- The socket takes at most `res` bytes; the error after a failure is EWOULDBLOCK or another. -/
structure SendAnswer where
  res : ℤ
  wouldBlock : Bool

/-- What is left, the last result and the error. A socket without a further answer blocks. -/
def sendLoop (view : List UInt8) : List SendAnswer → List UInt8 × ℤ × Bool
  | [] => (view, -1, true)
  | answer :: answers =>
    let res := min answer.res view.length
    if res ≤ 0 then (view, res, answer.wouldBlock)
    else
      let view := view.drop res.toNat
      if view = [] then (view, res, answer.wouldBlock) else sendLoop view answers

def processInput : List UInt8 → List (List UInt8) × List UInt8
  | hi :: lo :: rest =>
    let pktLen := hi.toNat * 256 + lo.toNat
    if rest.length < pktLen then ([], hi :: lo :: rest)
    else
      let (packets, left) := processInput (rest.drop pktLen)
      (rest.take pktLen :: packets, left)
  | data => ([], data)
  termination_by data => data.length

/-- A sending and a receiving socket, the bytes on their way and the packets that were signalled. -/
structure Connection where
  outbuf : List UInt8 := []
  wire : List UInt8 := []
  inbuf : List UInt8 := []
  sent : List (List UInt8) := []
  received : List (List UInt8) := []

inductive Event
  | send (packet : List UInt8) (answers : List SendAnswer)
  | writeEvent (answers : List SendAnswer)
  /-- The `Recv` calls give so many bytes together, or what there is. -/
  | readEvent (totalRecv : ℕ)

/-- The length has 16 bits. -/
def frame (packet : List UInt8) : List UInt8 :=
  UInt8.ofNat (packet.length / 256) :: UInt8.ofNat packet.length :: packet

namespace Connection

/-- `FlushOutBuffer`; what the socket took is on its way. -/
def flush (c : Connection) (outbuf : List UInt8) (answers : List SendAnswer) : Connection × ℤ :=
  let (view, res, wouldBlock) := sendLoop outbuf answers
  let wire := c.wire ++ outbuf.take (outbuf.length - view.length)
  if res > 0 then ({ c with wire, outbuf := [] }, outbuf.length)
  else ({ c with wire, outbuf := view }, if wouldBlock then outbuf.length - view.length else res)

def send (c : Connection) (packet : List UInt8) (answers : List SendAnswer) : Connection × ℤ :=
  if packet.length > kBufSize then (c, -1)
  else if c.outbuf ≠ [] then (c, packet.length)
  else
    let (c, res) := c.flush (frame packet) answers
    if res ≤ 0 then ({ c with outbuf := [] }, res)
    else ({ c with sent := c.sent ++ [packet] }, packet.length)

def onWriteEvent (c : Connection) (answers : List SendAnswer) : Connection :=
  if c.outbuf ≠ [] then (c.flush c.outbuf answers).1 else c

def onReadEvent (c : Connection) (totalRecv : ℕ) : Connection :=
  let data := c.wire.take totalRecv
  if data = [] then c
  else
    let (packets, left) := processInput (c.inbuf ++ data)
    { c with wire := c.wire.drop totalRecv, inbuf := left, received := c.received ++ packets }

def step (c : Connection) : Event → Connection × Option ℤ
  | .send packet answers => (c.send packet answers).map id some
  | .writeEvent answers => (c.onWriteEvent answers, none)
  | .readEvent totalRecv => (c.onReadEvent totalRecv, none)

end Connection

/-- The packets whose length fits in front of them. -/
def Short (packet : List UInt8) : Prop := packet.length < 2 ^ 16

theorem processInput_frame {packet : List UInt8} (h : Short packet) (data : List UInt8) :
    processInput (frame packet ++ data) =
      (packet :: (processInput data).1, (processInput data).2) := by
  have hlen : (UInt8.ofNat (packet.length / 256)).toNat * 256 +
      (UInt8.ofNat packet.length).toNat = packet.length := by
    unfold Short at h
    rw [UInt8.toNat_ofNat', UInt8.toNat_ofNat']
    omega
  rw [frame, cons_append, cons_append, processInput]
  simp only [hlen, length_append, take_left, drop_left]
  rw [if_neg (by omega)]

theorem processInput_frames {packets : List (List UInt8)} (h : ∀ packet ∈ packets, Short packet) :
    processInput (packets.flatMap frame) = (packets, []) := by
  induction packets with
  | nil => exact processInput.eq_2 [] nofun
  | cons packet packets ih =>
    rw [forall_mem_cons] at h
    rw [flatMap_cons, processInput_frame h.1, ih h.2]

/-- Input may come in pieces: what is left of the first goes before the second. -/
theorem processInput_append (x y : List UInt8) :
    let first := processInput x
    processInput (x ++ y) =
      (first.1 ++ (processInput (first.2 ++ y)).1, (processInput (first.2 ++ y)).2) := by
  fun_induction processInput x with
  | case1 => rfl
  | case2 hi lo rest pktLen hall packets left heq ih =>
    have hle : pktLen ≤ rest.length := not_lt.mp hall
    rw [heq] at ih
    rw [cons_append, cons_append, processInput, if_neg (by rw [length_append]; omega),
      drop_append_of_le_length hle, take_append_of_le_length hle, ih]
    rfl
  | case3 => rfl

/-- The socket fails only because it would block. -/
def OnlyBlocks (answers : List SendAnswer) : Prop :=
  ∀ answer ∈ answers, answer.res ≤ 0 → answer.wouldBlock = true

theorem sendLoop_spec {view : List UInt8} (hv : view ≠ []) (answers : List SendAnswer) :
    let r := sendLoop view answers
    r.1 <:+ view ∧ (0 < r.2.1 → r.1 = []) ∧ (OnlyBlocks answers → r.2.1 ≤ 0 → r.2.2 = true) := by
  fun_induction sendLoop view answers with
  | case1 view => exact ⟨suffix_rfl, nofun, fun _ _ => rfl⟩
  | case2 view answer answers res hn =>
    refine ⟨suffix_rfl, fun h => absurd hn (Int.not_le.mpr h), fun hb _ => ?_⟩
    have hpos := length_pos_iff.mpr hv
    exact hb answer mem_cons_self (by omega)
  | case3 view answer answers res hs rest hend =>
    exact ⟨drop_suffix _ _, fun _ => hend, fun _ h => absurd h hs⟩
  | case4 view answer answers res hs rest hr ih =>
    obtain ⟨hsuffix, hall, hb⟩ := ih hr
    exact ⟨hsuffix.trans (drop_suffix _ _), hall, fun h => hb (forall_mem_cons.mp h).2⟩

def Event.Framed : Event → Prop
  | .send packet answers => Short packet ∧ OnlyBlocks answers
  | _ => True

namespace Connection

variable {c : Connection}

theorem flush_spec (c : Connection) {outbuf : List UInt8} (hout : outbuf ≠ [])
    (answers : List SendAnswer) : ∃ taken view res, taken ++ view = outbuf ∧
      c.flush outbuf answers = ({ c with wire := c.wire ++ taken, outbuf := view }, res) ∧
      (OnlyBlocks answers → res ≤ 0 → taken = []) := by
  obtain ⟨hs, hall, hb⟩ := sendLoop_spec hout answers
  have hlen : 0 < outbuf.length := length_pos_iff.mpr hout
  unfold flush
  generalize sendLoop outbuf answers = r at *
  obtain ⟨view, res, wouldBlock⟩ := r
  dsimp only at *
  by_cases hr : res > 0
  · refine ⟨outbuf, [], outbuf.length, append_nil _, by simp [hr, hall hr], fun _ h => ?_⟩
    omega
  · refine ⟨_, view, _, suffix_iff_eq_append.mp hs, by rw [if_neg hr], fun ha hle => ?_⟩
    rw [hb ha (by omega), if_pos rfl] at hle
    have hle' := hs.length_le
    rw [show outbuf.length - view.length = 0 by omega, take_zero]

/-- The frames of what was sent are the bytes that arrived, those on their way and those in the
output buffer, and what was received is what the bytes that arrived hold. -/
structure InStep (c : Connection) : Prop where
  short : ∀ packet ∈ c.sent, Short packet
  stream : ∃ arrived, c.sent.flatMap frame = arrived ++ (c.wire ++ c.outbuf) ∧
    processInput arrived = (c.received, c.inbuf)

theorem InStep.send (h : c.InStep) {packet : List UInt8} {answers : List SendAnswer}
    (hf : (Event.send packet answers).Framed) : (c.send packet answers).1.InStep := by
  unfold Connection.send
  split_ifs with hlong hb
  · exact h
  · exact h
  · have hne : frame packet ≠ [] := cons_ne_nil _ _
    obtain ⟨taken, view, res, hframe, hflush, hn⟩ := c.flush_spec hne answers
    obtain ⟨hshort, arrived, hs, hi⟩ := h
    rw [not_not.mp hb, append_nil] at hs
    rw [hflush]
    dsimp only
    split_ifs with hr
    · -- Nothing was taken, so the packet can be dropped.
      refine ⟨hshort, arrived, ?_, hi⟩
      rw [hs, hn hf.2 hr, append_nil, append_nil]
    · refine ⟨?_, arrived, ?_, hi⟩
      · rw [forall_mem_append, forall_mem_singleton]
        exact ⟨hshort, hf.1⟩
      · rw [flatMap_append, hs, flatMap_singleton, append_assoc, append_assoc, hframe]

theorem InStep.onWriteEvent (h : c.InStep) (answers : List SendAnswer) :
    (c.onWriteEvent answers).InStep := by
  unfold Connection.onWriteEvent
  split_ifs with he
  · obtain ⟨taken, view, res, hout, hf, -⟩ := c.flush_spec he answers
    obtain ⟨hshort, arrived, hs, hi⟩ := h
    rw [hf]
    refine ⟨hshort, arrived, ?_, hi⟩
    rw [hs, ← hout, append_assoc]
  · exact h

theorem InStep.onReadEvent (h : c.InStep) (totalRecv : ℕ) : (c.onReadEvent totalRecv).InStep := by
  unfold Connection.onReadEvent
  dsimp only
  split_ifs with hnone
  · exact h
  · obtain ⟨hshort, arrived, hs, hi⟩ := h
    refine ⟨hshort, arrived ++ c.wire.take totalRecv, ?_, ?_⟩
    · rw [hs, append_assoc, ← append_assoc (take _ _), take_append_drop]
    · rw [processInput_append, hi]

/-- Over every interleaving of sends and events, however the stream is cut, the packets received are
the first ones that were sent, and all of them once nothing is left behind. -/
theorem received_isPrefix_sent (events : List Event) (hevents : ∀ event ∈ events, event.Framed) :
    let c := runState step {} events
    c.received <+: c.sent ∧ (c.outbuf = [] → c.wire = [] → c.received = c.sent ∧ c.inbuf = []) := by
  have h : (runState step {} events).InStep := by
    refine runState_invariant step (fun c event h hf => ?_)
      ⟨nofun, [], rfl, processInput.eq_2 [] nofun⟩ hevents
    cases event with
    | send packet answers => exact h.send hf
    | writeEvent answers => exact h.onWriteEvent answers
    | readEvent totalRecv => exact h.onReadEvent totalRecv
  generalize runState step {} events = c at h ⊢
  obtain ⟨hshort, arrived, hs, hi⟩ := h
  have hall := processInput_frames hshort
  rw [hs] at hall
  refine ⟨?_, fun hout hw => ?_⟩
  · rw [processInput_append, hi] at hall
    exact ⟨_, (Prod.mk.inj hall).1⟩
  · rw [hout, hw, append_nil, append_nil, hi] at hall
    exact Prod.mk.inj hall

/-- The first byte arrives before the rest of its frame has left. -/
def cutFrame : List Event :=
  [.send [7, 8, 9] [⟨2, true⟩], .readEvent 1, .writeEvent [⟨1, true⟩, ⟨9, true⟩], .readEvent 99]

theorem received_isPrefix_sent_cutFrame : (∀ event ∈ cutFrame, event.Framed) ∧
      (runState step {} cutFrame).received <+: (runState step {} cutFrame).sent := by
  have he : ∀ event ∈ cutFrame, event.Framed := by
    simp [cutFrame, Event.Framed, Short, OnlyBlocks]
  exact ⟨he, (received_isPrefix_sent cutFrame he).1⟩

theorem runState_readEvents (cuts : List ℕ) {arrived : List UInt8}
    (h : processInput arrived = (c.received, c.inbuf)) :
    let d := runState step c (cuts.map .readEvent)
    (d.received, d.inbuf) = processInput (arrived ++ c.wire.take cuts.sum) := by
  induction cuts generalizing c arrived with
  | nil => simp [h]
  | cons k cuts ih =>
    rw [map_cons, runState_cons, sum_cons, take_add, ← append_assoc]
    simp only [step, Connection.onReadEvent]
    split_ifs with hn
    · have hd := take_append_drop k c.wire
      rw [hn, nil_append] at hd
      rw [ih h, hn, append_nil, hd]
    · exact ih (by rw [processInput_append, h])

/-- Also of a stream that no such socket sent, the packets do not depend on how it is cut. -/
theorem processInput_of_readEvents (wire : List UInt8) (cuts : List ℕ) :
    processInput (wire.take cuts.sum) =
      let c := runState step { wire } (cuts.map .readEvent)
      (c.received, c.inbuf) :=
  (runState_readEvents (c := { wire }) cuts (processInput.eq_2 [] nofun)).symm

end Connection

end WebRtcAudio.RtcBase.AsyncTcpSocket
