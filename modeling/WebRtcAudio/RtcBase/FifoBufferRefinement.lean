import WebRtcAudio.RtcBase.FifoBuffer
import WebRtcAudio.Core.Run

/-! `FifoBuffer` refines a bounded queue of bytes. -/
namespace WebRtcAudio.RtcBase

open WebRtcAudio.Core List

/-- What a user does with an open buffer. Storage that is allocated holds unspecified bytes, and
direct access to the store is followed by the call that consumes it. -/
inductive FifoCall where
  | read (bytes : ℕ)
  | readOffset (bytes offset : ℕ)
  | write (bytes : List UInt8)
  | setCapacity (storage : List UInt8)
  /-- `GetReadData`, then `ConsumeReadData`. -/
  | readData (consumed : ℕ)
  /-- `GetWriteBuffer`, the user's bytes in it, then `ConsumeWriteBuffer`. -/
  | writeBuffer (bytes : List UInt8) (consumed : ℕ)
  /-- `WriteOffset`, then `ConsumeWriteBuffer`. -/
  | writeOffset (bytes : List UInt8) (offset consumed : ℕ)

/-- What a call returns: the bytes delivered, the number of bytes read, written or offered, and
the events posted. -/
structure FifoOutcome where
  result : StreamResult
  data : List UInt8
  size : ℕ
  events : List StreamEvent

namespace FifoBuffer

def step (fifo : FifoBuffer) : FifoCall → FifoBuffer × FifoOutcome
  | .read bytes =>
    let (fifo, result, data, events) := fifo.read bytes
    (fifo, ⟨result, data, data.length, events⟩)
  | .readOffset bytes offset =>
    let (result, data) := fifo.readOffsetLocked bytes offset
    (fifo, ⟨result, data, data.length, []⟩)
  | .write bytes =>
    let (fifo, result, copy, events) := fifo.write bytes
    (fifo, ⟨result, [], copy, events⟩)
  | .setCapacity storage =>
    let (fifo, ok) := fifo.setCapacity storage
    (fifo, ⟨if ok then .success else .error, [], 0, []⟩)
  | .readData consumed =>
    let data := fifo.getReadData
    let (fifo, events) := fifo.consumeReadData consumed
    (fifo, ⟨.success, data, data.length, events⟩)
  | .writeBuffer bytes consumed =>
    match fifo.getWriteBuffer with
    | (fifo, none) => (fifo, ⟨.eos, [], 0, []⟩)
    | (fifo, some (position, size)) =>
      let (fifo, events) :=
        { fifo with buffer := writeAt fifo.buffer position bytes }.consumeWriteBuffer consumed
      (fifo, ⟨.success, [], size, events⟩)
  | .writeOffset bytes offset consumed =>
    let (fifo, result, copy) := fifo.writeOffsetLocked bytes offset
    let (fifo, events) := fifo.consumeWriteBuffer consumed
    (fifo, ⟨result, [], copy, events⟩)

/-- The sizes consumed are at most those offered, storage is not empty and not larger than an
object can be, and the offset of a write does not wrap. -/
def Allowed (fifo : FifoBuffer) : FifoCall → Prop
  | .read _ => True
  | .readOffset _ _ => True
  | .write _ => True
  | .setCapacity storage => 1 ≤ storage.length ∧ storage.length < 2 ^ 63
  | .readData consumed => consumed ≤ fifo.getReadData.length
  | .writeBuffer bytes consumed =>
    consumed ≤ bytes.length ∧ ∀ offered ∈ fifo.getWriteBuffer.2, bytes.length ≤ offered.2
  | .writeOffset bytes offset consumed =>
    fifo.dataLength + offset < 2 ^ 64 ∧
      consumed ≤ if (fifo.writeOffsetLocked bytes offset).2.1 = .success then
        offset + (fifo.writeOffsetLocked bytes offset).2.2 else 0

instance (fifo : FifoBuffer) : (call : FifoCall) → Decidable (fifo.Allowed call)
  | .read _ => inferInstanceAs (Decidable True)
  | .readOffset _ _ => inferInstanceAs (Decidable True)
  | .write _ => inferInstanceAs (Decidable True)
  | .setCapacity _ => inferInstanceAs (Decidable (_ ∧ _))
  | .readData _ => inferInstanceAs (Decidable (_ ≤ _))
  | .writeBuffer _ _ => inferInstanceAs (Decidable (_ ∧ ∀ _ ∈ _, _))
  | .writeOffset _ _ _ => inferInstanceAs (Decidable (_ ∧ _))

end FifoBuffer

structure ByteQueue where
  capacity : ℕ
  bytes : List UInt8

namespace ByteQueue

def append (q : ByteQueue) (bytes : List UInt8) : ByteQueue := { q with bytes := q.bytes ++ bytes }

def drop (q : ByteQueue) (n : ℕ) : ByteQueue := { q with bytes := q.bytes.drop n }

def Serves (q : ByteQueue) (outcome : FifoOutcome) (q' : ByteQueue) : FifoCall → Prop
  | .read bytes =>
    if q.bytes = [] then outcome.result = .block ∧ outcome.data = [] ∧ q' = q
    else outcome.result = .success ∧ outcome.data = q.bytes.take bytes ∧ q' = q.drop bytes
  | .readOffset bytes offset =>
    q' = q ∧ if q.bytes.length ≤ offset then outcome.result = .block ∧ outcome.data = []
      else outcome.result = .success ∧ outcome.data = (q.bytes.drop offset).take bytes
  | .write bytes =>
    if q.bytes.length = q.capacity then outcome.result = .block ∧ outcome.size = 0 ∧ q' = q
    else outcome.result = .success ∧
      outcome.size = min bytes.length (q.capacity - q.bytes.length) ∧
      q' = q.append (bytes.take outcome.size)
  | .setCapacity storage =>
    if q.bytes.length > storage.length then outcome.result = .error ∧ q' = q
    else outcome.result = .success ∧ q' = { q with capacity := storage.length }
  | .readData consumed =>
    outcome.data = q.bytes.take outcome.size ∧ (q.bytes ≠ [] → 0 < outcome.size) ∧
      consumed ≤ outcome.size ∧ q' = q.drop consumed
  | .writeBuffer bytes consumed =>
    outcome.size ≤ q.capacity - q.bytes.length ∧
      (q.bytes.length < q.capacity → 0 < outcome.size) ∧ q' = q.append (bytes.take consumed)
  | .writeOffset bytes offset consumed =>
    if q.capacity ≤ q.bytes.length + offset then
      outcome.result = .block ∧ outcome.size = 0 ∧ q' = q
    else outcome.result = .success ∧
      outcome.size = min bytes.length (q.capacity - q.bytes.length - offset) ∧
      -- The bytes before the offset are what the store happens to hold.
      ∃ skipped : List UInt8, skipped.length = offset ∧
        q' = q.append ((skipped ++ bytes.take outcome.size).take consumed)

def isRead : FifoCall → Bool
  | .read _ => true
  | .readData _ => true
  | _ => false

def isWrite : FifoCall → Bool
  | .write _ => true
  | .writeBuffer _ _ => true
  | .writeOffset _ _ _ => true
  | _ => false

/-- The events of a call that takes the queue from one state to another: a read event when a write
makes an empty queue non-empty, a write event when a read makes a full one non-full. -/
def eventsOf (q q' : ByteQueue) (call : FifoCall) : List StreamEvent :=
  if isWrite call ∧ q.bytes = [] ∧ q'.bytes ≠ [] then [.read]
  else if isRead call ∧ q.bytes.length = q.capacity ∧ q'.bytes.length < q'.capacity then [.write]
  else []

inductive Run : ByteQueue → List FifoCall → List FifoOutcome → ByteQueue → Prop
  | nil {q : ByteQueue} : Run q [] [] q
  | cons {q q' q'' : ByteQueue} {call : FifoCall} {outcome : FifoOutcome} {calls : List FifoCall}
      {outcomes : List FifoOutcome} (hserves : q.Serves outcome q' call)
      (hevents : outcome.events = eventsOf q q' call) (hrun : Run q' calls outcomes q'') :
      Run q (call :: calls) (outcome :: outcomes) q''

end ByteQueue

namespace FifoBuffer

open ByteQueue (eventsOf isRead isWrite)

/-- An open buffer whose position and length are inside of its memory. -/
structure Valid (fifo : FifoBuffer) : Prop where
  state : fifo.state = .open
  readPosition_lt : fifo.readPosition < fifo.buffer.length
  dataLength_le : fifo.dataLength ≤ fifo.buffer.length
  length_lt : fifo.buffer.length < 2 ^ 63

def cells (fifo : FifoBuffer) : List UInt8 := fifo.buffer.rotate fifo.readPosition

def queue (fifo : FifoBuffer) : ByteQueue :=
  ⟨fifo.bufferLength, fifo.cells.take fifo.dataLength⟩

@[simp]
theorem length_cells (fifo : FifoBuffer) : fifo.cells.length = fifo.buffer.length :=
  length_rotate _ _

section Calls

variable {fifo : FifoBuffer} (hvalid : fifo.Valid)
include hvalid

theorem length_queue_bytes : fifo.queue.bytes.length = fifo.dataLength := by
  have := hvalid.dataLength_le
  rw [queue, length_take, length_cells]
  omega

theorem queue_bytes_eq_nil_iff : fifo.queue.bytes = [] ↔ fifo.dataLength = 0 := by
  rw [← length_eq_zero_iff, length_queue_bytes hvalid]

variable {consumed offset : ℕ}

theorem readOffsetLocked_eq {bytes : ℕ} (hof : offset < fifo.dataLength) :
    fifo.readOffsetLocked bytes offset = (.success, (fifo.queue.bytes.drop offset).take bytes) := by
  have hpos := hvalid.readPosition_lt
  have hle := hvalid.dataLength_le
  have hmod := Nat.mod_lt (fifo.readPosition + offset) (show 0 < fifo.buffer.length by omega)
  rw [readOffsetLocked, if_neg (by omega)]
  simp only [bufferLength, queue]
  rw [readCircular_eq hmod.le (by omega), rotate_mod, ← rotate_rotate, drop_take,
    take_take, take_rotate_of_le (by rw [length_rotate]; omega)
      (by rw [length_rotate]; omega)]
  rfl

theorem consumeReadData_spec {size : ℕ} (hsize : size ≤ fifo.dataLength) :
    (fifo.consumeReadData size).1.Valid ∧
      (fifo.consumeReadData size).1.queue = fifo.queue.drop size := by
  have hpos := hvalid.readPosition_lt
  have hle := hvalid.dataLength_le
  have hmod := Nat.mod_lt (fifo.readPosition + size) (show 0 < fifo.buffer.length by omega)
  refine ⟨⟨hvalid.state, hmod, by simp only [consumeReadData]; omega, hvalid.length_lt⟩, ?_⟩
  simp only [consumeReadData, queue, ByteQueue.drop, cells, bufferLength, ByteQueue.mk.injEq,
    true_and]
  rw [rotate_mod, ← rotate_rotate, drop_take,
    take_rotate_of_le (by rw [length_rotate]; omega) (by rw [length_rotate]; omega)]

variable {call : FifoCall}

theorem consumeReadData_events {size : ℕ} (hsize : size ≤ fifo.dataLength)
    (hc : isRead call = true) : (fifo.consumeReadData size).2 =
      eventsOf fifo.queue (fifo.queue.drop size) call := by
  have hpos := hvalid.readPosition_lt
  have hle := hvalid.dataLength_le
  have hl := length_queue_bytes hvalid
  have hn : isWrite call = false := by cases call <;> first | rfl | cases hc
  have hiff : fifo.queue.bytes.length = fifo.queue.capacity ∧
      (fifo.queue.drop size).bytes.length < (fifo.queue.drop size).capacity ↔
        ¬ fifo.dataLength < fifo.buffer.length ∧ size > 0 := by
    rw [ByteQueue.drop, length_drop, hl]
    change fifo.dataLength = fifo.buffer.length ∧ _ < fifo.buffer.length ↔ _
    omega
  simp only [consumeReadData, eventsOf, hn, hc, hiff, bufferLength,
    Bool.false_eq_true, false_and, if_false, true_and]
  congr

theorem consumeWriteBuffer_spec (size : ℕ) (hs : fifo.dataLength + size ≤ fifo.buffer.length) :
    (fifo.consumeWriteBuffer size).1.Valid ∧ (fifo.consumeWriteBuffer size).1.queue =
        fifo.queue.append ((fifo.cells.drop fifo.dataLength).take size) := by
  refine ⟨⟨hvalid.state, hvalid.readPosition_lt, hs, hvalid.length_lt⟩, ?_⟩
  simp only [consumeWriteBuffer, queue, ByteQueue.append, ByteQueue.mk.injEq]
  exact ⟨rfl, take_add⟩

theorem consumeWriteBuffer_events (bytes : List UInt8) (hc : isWrite call = true) :
    (fifo.consumeWriteBuffer bytes.length).2 =
      eventsOf fifo.queue (fifo.queue.append bytes) call := by
  have hn : isRead call = false := by cases call <;> first | rfl | cases hc
  have he := queue_bytes_eq_nil_iff hvalid
  have happ : (fifo.queue.append bytes).bytes = [] ↔ fifo.dataLength = 0 ∧ bytes.length = 0 := by
    rw [ByteQueue.append, append_eq_nil_iff, he, length_eq_zero_iff]
  simp only [consumeWriteBuffer, eventsOf, hn, hc, he, ne_eq, happ,
    Bool.false_eq_true, false_and, if_false, true_and]
  split_ifs <;> first | rfl | omega

omit hvalid in
/-- The store after `bytes` went in `offset` bytes behind the data. -/
def written (fifo : FifoBuffer) (offset : ℕ) (bytes : List UInt8) : FifoBuffer := { fifo with
  buffer := writeCircular fifo.buffer
    ((fifo.readPosition + (fifo.dataLength + offset)) % fifo.buffer.length) bytes }

theorem writeOffsetLocked_eq (bytes : List UInt8)
    (hw : fifo.dataLength + offset < 2 ^ 64) : fifo.writeOffsetLocked bytes offset =
      if fifo.buffer.length ≤ fifo.dataLength + offset then (fifo, .block, 0)
      else
        let copy := min bytes.length (fifo.buffer.length - fifo.dataLength - offset)
        (fifo.written offset (bytes.take copy), .success, copy) := by
  have hlt := hvalid.length_lt
  have hpos := hvalid.readPosition_lt
  rw [writeOffsetLocked, if_neg (by rw [hvalid.state]; decide), Nat.mod_eq_of_lt hw]
  split_ifs with hb hb' hb'
  · rfl
  · exact absurd hb hb'
  · exact absurd hb' hb
  · unfold bufferLength at *
    have ha : toSizeT ((fifo.buffer.length : ℤ) - fifo.dataLength - offset) =
        fifo.buffer.length - fifo.dataLength - offset := by
      unfold toSizeT
      omega
    rw [ha, Nat.mod_eq_of_lt (show fifo.readPosition + fifo.dataLength + offset < _ by omega),
      Nat.add_assoc]
    rfl

variable {bytes : List UInt8}

theorem written_spec (hfits : fifo.dataLength + offset + bytes.length ≤ fifo.buffer.length) :
    (fifo.written offset bytes).Valid ∧ (fifo.written offset bytes).queue = fifo.queue ∧
      ∀ size ≤ offset + bytes.length,
      ((fifo.written offset bytes).cells.drop fifo.dataLength).take size =
        ((fifo.cells.drop fifo.dataLength).take offset ++ bytes).take size := by
  have hpos := hvalid.readPosition_lt
  have hmod := Nat.mod_lt (fifo.readPosition + (fifo.dataLength + offset))
    (show 0 < fifo.buffer.length by omega)
  have hl : (fifo.written offset bytes).buffer.length = fifo.buffer.length :=
    length_writeCircular hmod.le (by omega)
  have hc : (fifo.written offset bytes).cells =
      writeAt fifo.cells (fifo.dataLength + offset) bytes :=
    rotate_writeCircular_add (by omega) (by omega)
  have htake : (fifo.cells.take (fifo.dataLength + offset)).length = fifo.dataLength + offset := by
    rw [length_take, length_cells]
    omega
  refine ⟨⟨hvalid.state, ?_, ?_, ?_⟩, ?_, ?_⟩
  · exact hl ▸ hpos
  · exact hl ▸ hvalid.dataLength_le
  · exact hl ▸ hvalid.length_lt
  · rw [queue, bufferLength, hl, hc, writeAt, append_assoc]
    change (⟨_, take fifo.dataLength (_ ++ _)⟩ : ByteQueue) = _
    rw [take_append_of_le_length (by omega), take_take, Nat.min_eq_left (by omega)]
    rfl
  · intro size hsize
    rw [hc, writeAt, take_add, append_assoc, append_assoc,
      drop_left' (by rw [length_take, length_cells]; omega), ← append_assoc,
      take_append_of_le_length]
    rw [length_append, length_take, length_drop, length_cells]
    omega

def Refines (fifo : FifoBuffer) (call : FifoCall) : Prop :=
  (fifo.step call).1.Valid ∧
    fifo.queue.Serves (fifo.step call).2 (fifo.step call).1.queue call ∧
    (fifo.step call).2.events =
      eventsOf fifo.queue (fifo.step call).1.queue call

omit hvalid in
theorem eventsOf_self (q : ByteQueue) (call : FifoCall) : eventsOf q q call = [] := by
  unfold eventsOf
  rw [if_neg (by tauto), if_neg (by omega)]

theorem refines_of_unchanged {outcome : FifoOutcome} (hstep : fifo.step call = (fifo, outcome))
    (he : outcome.events = []) (hs : fifo.queue.Serves outcome fifo.queue call) :
    Refines fifo call := by
  rw [Refines, hstep]
  exact ⟨hvalid, hs, he.trans (eventsOf_self _ _).symm⟩

theorem refines_read (bytes : ℕ) : Refines fifo (.read bytes) := by
  have hl := length_queue_bytes hvalid
  by_cases he : fifo.dataLength = 0
  · have hs : fifo.step (.read bytes) = (fifo, ⟨.block, [], 0, []⟩) := by
      simp [step, read, readOffsetLocked, he, hvalid.state]
    exact refines_of_unchanged hvalid hs rfl
      ((if_pos ((queue_bytes_eq_nil_iff hvalid).2 he)).mpr ⟨rfl, rfl, rfl⟩)
  · have hd : fifo.readOffsetLocked bytes 0 = _ :=
      readOffsetLocked_eq hvalid (Nat.pos_of_ne_zero he)
    rw [drop_zero] at hd
    have hsize : (fifo.queue.bytes.take bytes).length = min bytes fifo.dataLength := by
      rw [length_take, hl]
    have hs : fifo.step (.read bytes) =
        ((fifo.consumeReadData (min bytes fifo.dataLength)).1,
          ⟨.success, fifo.queue.bytes.take bytes, min bytes fifo.dataLength,
            (fifo.consumeReadData (min bytes fifo.dataLength)).2⟩) := by
      simp only [step, read, hd, hsize, if_true]
    obtain ⟨hval', hq⟩ := consumeReadData_spec hvalid (Nat.min_le_right bytes _)
    have hdrop : fifo.queue.drop (min bytes fifo.dataLength) = fifo.queue.drop bytes := by
      rw [ByteQueue.drop, drop_eq_drop_iff.2 (show min _ _ = min bytes _ by omega)]
      rfl
    rw [Refines, hs, hq]
    refine ⟨hval', ?_, consumeReadData_events hvalid (Nat.min_le_right bytes _) rfl⟩
    rw [hdrop]
    exact (if_neg (mt (queue_bytes_eq_nil_iff hvalid).1 he)).mpr ⟨rfl, rfl, rfl⟩

theorem refines_readOffset (bytes offset : ℕ) : Refines fifo (.readOffset bytes offset) := by
  have hlength := length_queue_bytes hvalid
  by_cases hb : fifo.dataLength ≤ offset
  · have hs : fifo.step (.readOffset bytes offset) = (fifo, ⟨.block, [], 0, []⟩) := by
      simp [step, readOffsetLocked, hb, hvalid.state]
    exact refines_of_unchanged hvalid hs rfl ⟨rfl, (if_pos (by omega)).mpr ⟨rfl, rfl⟩⟩
  · have hs : fifo.step (.readOffset bytes offset) = (fifo, ⟨.success,
        (fifo.queue.bytes.drop offset).take bytes,
        ((fifo.queue.bytes.drop offset).take bytes).length, []⟩) := by
      simp only [step, readOffsetLocked_eq hvalid (not_le.1 hb)]
    exact refines_of_unchanged hvalid hs rfl ⟨rfl, (if_neg (by omega)).mpr ⟨rfl, rfl⟩⟩

theorem refines_setCapacity {storage : List UInt8} (hpos : 1 ≤ storage.length)
    (hlt : storage.length < 2 ^ 63) : Refines fifo (.setCapacity storage) := by
  have hl := length_queue_bytes hvalid
  have hle := hvalid.dataLength_le
  by_cases hf : fifo.dataLength > storage.length
  · have hs : fifo.step (.setCapacity storage) = (fifo, ⟨.error, [], 0, []⟩) := by
      simp [step, setCapacity, hf]
    exact refines_of_unchanged hvalid hs rfl ((if_pos (by omega)).mpr ⟨rfl, rfl⟩)
  · obtain ⟨resized, hr, hval', hq⟩ : ∃ resized,
        fifo.setCapacity storage = (resized, true) ∧ resized.Valid ∧
          resized.queue = { fifo.queue with capacity := storage.length } := by
      rw [setCapacity, if_neg hf]
      by_cases hsame : storage.length = fifo.bufferLength
      · rw [if_neg (not_not.2 hsame), hsame]
        exact ⟨fifo, rfl, hvalid, rfl⟩
      · -- New storage starts with the data.
        have hc : readCircular fifo.buffer fifo.readPosition fifo.dataLength =
            fifo.queue.bytes := readCircular_eq hvalid.readPosition_lt.le hle
        have hbuf : (writeAt storage 0 fifo.queue.bytes).length = storage.length :=
          length_writeAt (by omega)
        rw [if_pos hsame, hc]
        refine ⟨_, rfl, ⟨hvalid.state, ?_, ?_, ?_⟩, ?_⟩
        · exact hbuf ▸ hpos
        · exact hbuf ▸ not_lt.1 hf
        · exact hbuf ▸ hlt
        · simp only [queue, cells, bufferLength, rotate_zero, ByteQueue.mk.injEq]
          refine ⟨hbuf, ?_⟩
          rw [writeAt_zero]
          exact take_left' hl
    have hs : fifo.step (.setCapacity storage) = (resized, ⟨.success, [], 0, []⟩) := by
      simp [step, hr]
    rw [Refines, hs, hq]
    refine ⟨hval', (if_neg (by omega)).mpr ⟨rfl, rfl⟩, ?_⟩
    simp [eventsOf, isWrite, isRead]

theorem getReadData_eq : ∃ size ≤ fifo.dataLength, (fifo.dataLength ≠ 0 → 0 < size) ∧
    fifo.getReadData = fifo.queue.bytes.take size ∧ fifo.getReadData.length = size := by
  have hpos := hvalid.readPosition_lt
  generalize hs : (if fifo.readPosition + fifo.dataLength ≤ fifo.bufferLength then
    fifo.dataLength else fifo.bufferLength - fifo.readPosition) = size
  have hb : size ≤ fifo.dataLength ∧ size ≤ fifo.buffer.length - fifo.readPosition ∧
      (fifo.dataLength ≠ 0 → 0 < size) := by
    rw [← hs]
    unfold bufferLength
    split_ifs <;> omega
  have hd : fifo.getReadData = fifo.queue.bytes.take size := by
    simp only [getReadData, hs, queue, cells]
    rw [take_take, Nat.min_eq_left hb.1, take_rotate_of_le hpos.le hb.2.1]
  refine ⟨size, hb.1, hb.2.2, hd, ?_⟩
  rw [hd, length_take, length_queue_bytes hvalid, Nat.min_eq_left hb.1]

theorem refines_readData (hc : consumed ≤ fifo.getReadData.length) :
    Refines fifo (.readData consumed) := by
  obtain ⟨size, hsize, hsome, hd, hl⟩ := getReadData_eq hvalid
  have hle : consumed ≤ fifo.dataLength := by omega
  obtain ⟨hval', hq⟩ := consumeReadData_spec hvalid hle
  have hs : fifo.step (.readData consumed) = ((fifo.consumeReadData consumed).1,
      ⟨.success, fifo.getReadData, size, (fifo.consumeReadData consumed).2⟩) := by
    rw [← hl]
    rfl
  rw [Refines, hs, hq]
  refine ⟨hval', ⟨hd, ?_, hl ▸ hc, rfl⟩, consumeReadData_events hvalid hle rfl⟩
  exact fun hne => hsome (mt (queue_bytes_eq_nil_iff hvalid).2 hne)

theorem written_consumed_spec (bytes : List UInt8) (offset consumed : ℕ) (call : FifoCall)
    (hf : fifo.dataLength + offset + bytes.length ≤ fifo.buffer.length)
    (hconsumed : consumed ≤ offset + bytes.length) (hcall : isWrite call = true) :
    let consumed' := (fifo.written offset bytes).consumeWriteBuffer consumed
    consumed'.1.Valid ∧
      (∃ skipped : List UInt8, skipped.length = offset ∧
        consumed'.1.queue = fifo.queue.append ((skipped ++ bytes).take consumed)) ∧
      consumed'.2 = eventsOf fifo.queue consumed'.1.queue call := by
  intro consumed'
  obtain ⟨hval', hq, hcells⟩ := written_spec hvalid hf
  have hl : (fifo.written offset bytes).buffer.length = fifo.buffer.length :=
    congrArg ByteQueue.capacity hq
  obtain ⟨hc, hconsumedQueue⟩ := consumeWriteBuffer_spec hval' consumed
    (by rw [hl]; change fifo.dataLength + _ ≤ _; omega)
  generalize hs : (fifo.cells.drop fifo.dataLength).take offset = skipped
  have hskipped : skipped.length = offset := by
    rw [← hs, length_take, length_drop, length_cells]
    omega
  have hsize : ((skipped ++ bytes).take consumed).length = consumed := by
    rw [length_take, length_append, hskipped]
    omega
  have hfin : consumed'.1.queue = fifo.queue.append ((skipped ++ bytes).take consumed) := by
    rw [hconsumedQueue, hq, ← hs, ← hcells consumed hconsumed]
    rfl
  refine ⟨hc, ⟨_, hskipped, hfin⟩, ?_⟩
  have he := consumeWriteBuffer_events hval' ((skipped ++ bytes).take consumed) hcall
  rw [hsize, hq] at he
  rw [hfin, ← he]

theorem refines_writeOffset (hall : fifo.Allowed (.writeOffset bytes offset consumed)) :
    Refines fifo (.writeOffset bytes offset consumed) := by
  obtain ⟨hw, hc⟩ := hall
  have hl := length_queue_bytes hvalid
  rw [writeOffsetLocked_eq hvalid bytes hw] at hc
  have hs : fifo.step (.writeOffset bytes offset consumed) =
      let (fifo, result, copy) := fifo.writeOffsetLocked bytes offset
      ((fifo.consumeWriteBuffer consumed).1,
        ⟨result, [], copy, (fifo.consumeWriteBuffer consumed).2⟩) := rfl
  rw [Refines, hs, writeOffsetLocked_eq hvalid bytes hw]
  by_cases hb : fifo.buffer.length ≤ fifo.dataLength + offset
  · -- Nothing is written, so nothing is consumed.
    rw [if_pos hb] at hc ⊢
    obtain rfl : consumed = 0 := Nat.le_zero.1 hc
    refine ⟨hvalid, (if_pos ?_).mpr ⟨rfl, rfl, rfl⟩, ?_⟩
    · rw [hl]
      exact hb
    · exact (if_neg (by simp)).trans (eventsOf_self _ _).symm
  · rw [if_neg hb] at hc ⊢
    have hcopy : (bytes.take (min bytes.length
        (fifo.buffer.length - fifo.dataLength - offset))).length =
          min bytes.length (fifo.buffer.length - fifo.dataLength - offset) := by
      rw [length_take]
      omega
    obtain ⟨hval', hq, he⟩ := written_consumed_spec hvalid _ offset consumed
      (.writeOffset bytes offset consumed) (by rw [hcopy]; omega) (by rw [hcopy]; exact hc)
      rfl
    refine ⟨hval', (if_neg ?_).mpr ⟨rfl, ?_, hq⟩, he⟩
    · rw [hl]
      exact hb
    · rw [hl]
      rfl

/-- `Write` is a write at offset 0 of which all that was copied is consumed. -/
theorem refines_write (bytes : List UInt8) : Refines fifo (.write bytes) := by
  have hlength := length_queue_bytes hvalid
  have hle : fifo.dataLength ≤ fifo.queue.capacity := hvalid.dataLength_le
  have hwrap : fifo.dataLength + 0 < 2 ^ 64 :=
    lt_of_le_of_lt hvalid.dataLength_le (hvalid.length_lt.trans (by decide))
  have hw := writeOffsetLocked_eq hvalid bytes hwrap
  generalize hc : (fifo.writeOffsetLocked bytes 0).2.2 = copy
  have hall : fifo.Allowed (.writeOffset bytes 0 copy) := by
    refine ⟨hwrap, ?_⟩
    rw [← hc, hw]
    split <;> simp
  have hstep : fifo.step (.write bytes) = fifo.step (.writeOffset bytes 0 copy) := by
    simp only [step, write, ← hc, hw]
    split <;> simp [consumeWriteBuffer]
  have hsize : (fifo.step (.writeOffset bytes 0 copy)).2.size = copy := hc
  obtain ⟨hval', hs, he⟩ := refines_writeOffset hvalid hall
  rw [Refines, hstep]
  refine ⟨hval', ?_, he⟩
  unfold ByteQueue.Serves at hs ⊢
  dsimp only at hs ⊢
  split_ifs at hs ⊢ with hfull hlen
  · exact hs
  · omega
  · omega
  · obtain ⟨hr, hmin, skipped, hskipped, hq⟩ := hs
    obtain rfl : skipped = [] := List.length_eq_zero_iff.1 hskipped
    rw [nil_append, hsize, take_take, Nat.min_self] at hq
    exact ⟨hr, hmin, hsize.symm ▸ hq⟩

theorem getWriteBuffer_eq : ∃ (offered : FifoBuffer) (size : ℕ),
    fifo.getWriteBuffer = (offered, some
      ((offered.readPosition + offered.dataLength) % offered.buffer.length, size)) ∧
    offered.Valid ∧ offered.queue = fifo.queue ∧ offered.dataLength = fifo.dataLength ∧
    offered.dataLength + size ≤ offered.buffer.length ∧
    (offered.dataLength < offered.buffer.length → 0 < size) ∧
    (offered.readPosition + offered.dataLength) % offered.buffer.length + size ≤
      offered.buffer.length := by
  have hpos := hvalid.readPosition_lt
  have hle := hvalid.dataLength_le
  generalize ho : (if fifo.dataLength = 0 then { fifo with readPosition := 0 } else fifo) =
    offered
  have hsame : offered.Valid ∧ offered.queue = fifo.queue ∧
      offered.dataLength = fifo.dataLength ∧
      (offered.dataLength = 0 → offered.readPosition = 0) := by
    rw [← ho]
    split_ifs with he
    · refine ⟨⟨hvalid.state, Nat.zero_lt_of_lt hpos, hle, hvalid.length_lt⟩, ?_, rfl, fun _ => rfl⟩
      simp [queue, he, bufferLength]
    · exact ⟨hvalid, rfl, rfl, fun h => absurd h he⟩
  obtain ⟨hval', hq, hl, hr⟩ := hsame
  have hpos' := hval'.readPosition_lt
  have hle' := hval'.dataLength_le
  generalize hp : (offered.readPosition + offered.dataLength) % offered.buffer.length = position
  generalize hs : (if position > offered.readPosition ∨ offered.dataLength = 0 then
    offered.buffer.length - position else offered.readPosition - position) = size
  refine ⟨offered, size, ?_, hval', hq, hl, ?_⟩
  · rw [getWriteBuffer, if_neg (by rw [hvalid.state]; decide)]
    simp only [ho, bufferLength, hp, hs]
  · rw [hp, ← hs]
    -- Without a wrap the data end at the position; with one they go on up to it.
    by_cases hend : offered.readPosition + offered.dataLength < offered.buffer.length
    · rw [Nat.mod_eq_of_lt hend] at hp
      split_ifs <;> omega
    · rw [Nat.mod_eq_sub_mod (by omega), Nat.mod_eq_of_lt (by omega)] at hp
      split_ifs <;> omega

theorem refines_writeBuffer (hall : fifo.Allowed (.writeBuffer bytes consumed)) :
    Refines fifo (.writeBuffer bytes consumed) := by
  obtain ⟨offered, size, hbuf, hval', hq, hdata, hsize, hsome, hend⟩ :=
    getWriteBuffer_eq hvalid
  obtain ⟨hc, hb⟩ := hall
  rw [hbuf] at hb
  have hfits : bytes.length ≤ size := hb _ rfl
  obtain ⟨hval'', ⟨skipped, hs, hq'⟩, he⟩ := written_consumed_spec hval' bytes 0
    consumed (.writeBuffer bytes consumed) (by omega) (by omega) rfl
  obtain rfl : skipped = [] := List.length_eq_zero_iff.1 hs
  have hstep : fifo.step (.writeBuffer bytes consumed) =
      (((offered.written 0 bytes).consumeWriteBuffer consumed).1,
        ⟨.success, [], size, ((offered.written 0 bytes).consumeWriteBuffer consumed).2⟩) := by
    simp only [step, hbuf, written, Nat.add_zero]
    rw [writeCircular_of_le (by omega)]
  have hl := length_queue_bytes hval'
  rw [hq] at hq' he hl
  have hcap : offered.buffer.length = fifo.queue.capacity := congrArg ByteQueue.capacity hq
  rw [Refines, hstep]
  refine ⟨hval'', ⟨?_, ?_, hq'⟩, he⟩
  · change size ≤ _
    omega
  · change _ → 0 < size
    omega

theorem refines_of_allowed (hall : fifo.Allowed call) : Refines fifo call := by
  cases call with
  | read bytes => exact refines_read hvalid bytes
  | readOffset bytes offset => exact refines_readOffset hvalid bytes offset
  | write bytes => exact refines_write hvalid bytes
  | setCapacity storage => exact refines_setCapacity hvalid hall.1 hall.2
  | readData consumed => exact refines_readData hvalid hall
  | writeBuffer bytes consumed => exact refines_writeBuffer hvalid hall
  | writeOffset bytes offset consumed => exact refines_writeOffset hvalid hall

end Calls

def AllAllowed (fifo : FifoBuffer) : List FifoCall → Prop
  | [] => True
  | call :: calls => fifo.Allowed call ∧ AllAllowed (fifo.step call).1 calls

theorem run_of_allAllowed {fifo : FifoBuffer} (hvalid : fifo.Valid) {calls : List FifoCall}
    (hall : fifo.AllAllowed calls) :
    ByteQueue.Run fifo.queue calls (runResults step fifo calls) (runState step fifo calls).queue ∧
      (runState step fifo calls).Valid := by
  induction calls generalizing fifo with
  | nil => exact ⟨.nil, hvalid⟩
  | cons call calls ih =>
    obtain ⟨hval', hs, he⟩ := refines_of_allowed hvalid hall.1
    obtain ⟨hrun, hfin⟩ := ih hval' hall.2
    exact ⟨.cons hs he hrun, hfin⟩

/-- A buffer is a bounded queue of bytes: every sequence of allowed calls returns what the queue
returns, posts its events and leaves its bytes. -/
theorem fifoBuffer_refines_queue (storage : List UInt8) (hpos : 1 ≤ storage.length)
    (hlt : storage.length < 2 ^ 63) (calls : List FifoCall)
    (hallowed : (create storage).AllAllowed calls) :
    ∃ q, ByteQueue.Run ⟨storage.length, []⟩ calls (runResults step (create storage) calls) q ∧
      (runState step (create storage) calls).getBuffered = q.bytes.length ∧
      (runState step (create storage) calls).getBuffered +
        (runState step (create storage) calls).getWriteRemaining = q.capacity := by
  have hvalid : (create storage).Valid := ⟨rfl, hpos, Nat.zero_le _, hlt⟩
  obtain ⟨hrun, hfin⟩ := run_of_allAllowed hvalid hallowed
  refine ⟨_, hrun, (length_queue_bytes hfin).symm, ?_⟩
  exact Nat.add_sub_cancel' hfin.dataLength_le

def wrappingCalls : List FifoCall :=
  [.write [1, 2, 3], .read 2, .writeOffset [4, 5, 6] 0 3, .readData 2, .writeBuffer [7] 1, .read 9]

theorem fifoBuffer_refines_queue_wrappingCalls : ∃ q, ByteQueue.Run ⟨4, []⟩ wrappingCalls
        (runResults step (create [0, 0, 0, 0]) wrappingCalls) q ∧
      (runState step (create [0, 0, 0, 0]) wrappingCalls).getBuffered = q.bytes.length ∧
      (runState step (create [0, 0, 0, 0]) wrappingCalls).getBuffered +
        (runState step (create [0, 0, 0, 0]) wrappingCalls).getWriteRemaining = q.capacity :=
  fifoBuffer_refines_queue [0, 0, 0, 0] (by decide) (by decide) wrappingCalls
    ⟨by decide, by decide, by decide, by decide, by decide, by decide, trivial⟩

theorem fifoBuffer_writeOffset_reads_unwritten :
    (runResults step (create [120, 120, 120, 120]) [.writeOffset [97] 1 1, .read 1]).map
        FifoOutcome.data = [[], [120]] ∧ (runResults step (create [120, 120, 120, 120])
        [.write [97], .writeOffset [98] (2 ^ 64 - 1) 0, .read 1]).map FifoOutcome.data =
        [[], [], [98]] := by
  decide

/-- A closed queue: reads take what is left and then find the end, writes find it at once. -/
def closedStep (bytes : List UInt8) : ℕ ⊕ List UInt8 → List UInt8 × StreamResult × List UInt8
  | .inl n => (bytes.drop n, if bytes = [] then .eos else .success, bytes.take n)
  | .inr _ => (bytes, .eos, [])

theorem step_close {fifo : FifoBuffer} (hvalid : fifo.Valid) (call : ℕ ⊕ List UInt8) :
    ∃ next : FifoBuffer, next.Valid ∧ ∃ outcome,
      fifo.close.step (call.elim .read .write) = (next.close, outcome) ∧
      (next.queue.bytes, outcome.result, outcome.data) = closedStep fifo.queue.bytes call := by
  have he := queue_bytes_eq_nil_iff hvalid
  cases call with
  | inr bytes => exact ⟨fifo, hvalid, _, rfl, rfl⟩
  | inl n =>
    by_cases hz : fifo.dataLength = 0
    · refine ⟨fifo, hvalid, ⟨.eos, [], 0, []⟩, ?_, ?_⟩
      · simp [step, read, readOffsetLocked, close, hz]
      · simp [closedStep, he.mpr hz]
    · -- The state is not looked at while there are bytes.
      obtain ⟨hn, hs, -⟩ := refines_read hvalid n
      rw [ByteQueue.Serves, if_neg (mt he.mp hz)] at hs
      refine ⟨(fifo.step (.read n)).1, hn, (fifo.step (.read n)).2, ?_, ?_⟩
      · simp [step, read, readOffsetLocked, close, consumeReadData, bufferLength, hz]
      · rw [hs.1, hs.2.1, hs.2.2, closedStep, if_neg (mt he.mp hz)]
        rfl

/-- After `Close` the bytes that were buffered are read in order, and then only the end. -/
theorem close_drains (storage : List UInt8) (hpos : 1 ≤ storage.length)
    (hlt : storage.length < 2 ^ 63) (calls : List FifoCall)
    (hallowed : (create storage).AllAllowed calls) (later : List (ℕ ⊕ List UInt8)) :
    let fifo := runState step (create storage) calls
    (runResults step fifo.close (later.map (Sum.elim .read .write))).map
        (fun outcome => (outcome.result, outcome.data)) =
      runResults closedStep fifo.queue.bytes later := by
  have hvalid : (create storage).Valid := ⟨rfl, hpos, Nat.zero_le _, hlt⟩
  replace hvalid := (run_of_allAllowed hvalid hallowed).2
  generalize runState step (create storage) calls = fifo at hvalid ⊢
  dsimp only
  induction later generalizing fifo with
  | nil => rfl
  | cons call later ih =>
    obtain ⟨next, hn, outcome, hs, hc⟩ := step_close hvalid call
    rw [map_cons, runResults_cons, runResults_cons, map_cons, hs, ← hc, ih next hn]

theorem close_drains_wrapped :
    let calls : List FifoCall := [.write [1, 2, 3], .read 2, .write [4, 5, 6]]
    (runResults step (runState step (create [0, 0, 0, 0]) calls).close
        [.read 3, .write [7], .read 3, .read 1]).map
          (fun outcome => (outcome.result, outcome.data)) =
      [(.success, [3, 4, 5]), (.eos, []), (.success, [6]), (.eos, [])] := by
  intro calls
  have ha : (create [0, 0, 0, 0]).AllAllowed calls := ⟨trivial, trivial, trivial, trivial⟩
  exact (close_drains [0, 0, 0, 0] (by decide) (by decide) calls ha
    [.inl 3, .inr [7], .inl 3, .inl 1]).trans (by decide +kernel)

end FifoBuffer

end WebRtcAudio.RtcBase
