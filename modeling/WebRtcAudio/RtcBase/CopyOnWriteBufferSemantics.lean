import WebRtcAudio.RtcBase.CopyOnWriteBuffer

/-! Handles that share buffers behave as if each had its own byte string. -/
namespace WebRtcAudio.RtcBase

open WebRtcAudio.Core List Option Function

variable {bytes data : List UInt8} {position n offset size index : ℕ}

theorem readBytes_of_le (h : position + n ≤ data.length) :
    readBytes data position n = some ((data.drop position).take n) := if_pos h

theorem writeBytes_of_le (h : position + bytes.length ≤ data.length) :
    writeBytes data position bytes = some (writeAt data position bytes) := if_pos h

@[simp] theorem length_uninitialized (junk : ℕ → UInt8) (n : ℕ) :
    (uninitialized junk n).length = n := by simp [uninitialized]

theorem take_writeAt_end (bytes : List UInt8) (h : position ≤ data.length) :
    (writeAt data position bytes).take (position + bytes.length) = data.take position ++ bytes := by
  rw [writeAt]
  exact take_left' (by simp [h])

theorem take_drop_of_take_append {result : List UInt8}
    (ht : result.take (offset + size + bytes.length) = data.take (offset + size) ++ bytes)
    (hfits : offset + size ≤ data.length) :
    (result.drop offset).take (size + bytes.length) = (data.drop offset).take size ++ bytes := by
  calc
    (result.drop offset).take (size + bytes.length)
    _ = (result.take (offset + size + bytes.length)).drop offset := by
      rw [drop_take, Nat.add_assoc, Nat.add_sub_cancel_left]
    _ = (data.take (offset + size) ++ bytes).drop offset := by rw [ht]
    _ = (data.drop offset).take size ++ bytes := by
      rw [drop_append_of_le_length (by rw [length_take]; omega), drop_take,
        Nat.add_sub_cancel_left]

theorem take_drop_writeAt_singleton (hi : offset + index < data.length) (size : ℕ) (value : UInt8) :
    ((writeAt data (offset + index) [value]).drop offset).take size =
      ((data.drop offset).take size).set index value := by
  have hset : writeAt data (offset + index) [value] = data.set (offset + index) value := by
    rw [writeAt, set_eq_take_cons_drop value hi, append_assoc]
    rfl
  rw [hset, drop_set, if_neg (by omega), take_set, Nat.add_sub_cancel_left]

theorem writeBytes_uninitialized (junk : ℕ → UInt8) (h : bytes.length ≤ n) :
    ∃ data, writeBytes (uninitialized junk n) 0 bytes = some data ∧ data.length = n ∧
      data.take bytes.length = bytes := by
  have hf : 0 + bytes.length ≤ (uninitialized junk n).length := by
    rwa [Nat.zero_add, length_uninitialized]
  have ht := take_writeAt_end bytes (Nat.zero_le (uninitialized junk n).length)
  rw [Nat.zero_add, take_zero, nil_append] at ht
  refine ⟨_, writeBytes_of_le hf, ?_, ht⟩
  rw [length_writeAt hf, length_uninitialized]

namespace Buffer

def Consistent (buffer : Buffer) : Prop := buffer.size ≤ buffer.data.length

theorem consistent_ofSize (junk : ℕ → UInt8) (size capacity : ℕ) :
    (ofSize junk size capacity).Consistent := by
  simp [Consistent, ofSize]

theorem ofData_spec (junk : ℕ → UInt8) (bytes : List UInt8) (capacity : ℕ) :
    ∃ buffer, ofData junk bytes capacity = some buffer ∧ buffer.Consistent ∧
      buffer.size = bytes.length ∧ capacity ≤ buffer.data.length ∧
      buffer.data.take bytes.length = bytes := by
  obtain ⟨data, hd, hl, ht⟩ :=
    writeBytes_uninitialized junk (Nat.le_max_left bytes.length capacity)
  refine ⟨⟨data, bytes.length⟩, by simp [ofData, ofSize, hd], ?_, rfl, ?_, ht⟩
  · exact (Nat.le_max_left _ _).trans_eq hl.symm
  · exact (Nat.le_max_right _ _).trans_eq hl.symm

variable {buffer : Buffer} (hbuffer : buffer.Consistent)
include hbuffer

theorem ensureCapacityWithHeadroom_spec (junk : ℕ → UInt8) (capacity : ℕ) (extraHeadroom : Bool) :
    ∃ grown, buffer.ensureCapacityWithHeadroom junk capacity extraHeadroom = some grown ∧
      grown.size = buffer.size ∧ grown.Consistent ∧ capacity ≤ grown.data.length ∧
      grown.data.take buffer.size = buffer.data.take buffer.size := by
  rw [ensureCapacityWithHeadroom]
  split
  · exact ⟨buffer, rfl, rfl, hbuffer, ‹_›, rfl⟩
  rename_i hsmall
  generalize hnew : (if extraHeadroom then max capacity (buffer.capacity + buffer.capacity / 2)
    else capacity) = newCapacity
  have hcap : capacity ≤ newCapacity := by
    subst hnew
    split
    · exact Nat.le_max_left _ _
    · exact le_rfl
  have hs : buffer.size ≤ newCapacity := by
    have : buffer.size ≤ buffer.capacity := hbuffer
    omega
  have hold : (buffer.data.take buffer.size).length = buffer.size := by
    rw [length_take, Nat.min_eq_left hbuffer]
  have hr : readBytes buffer.data 0 buffer.size = some (buffer.data.take buffer.size) :=
    readBytes_of_le (by rw [Nat.zero_add]; exact hbuffer)
  obtain ⟨data, hd, hl, ht⟩ := writeBytes_uninitialized junk (hold.trans_le hs)
  rw [hold] at ht
  refine ⟨⟨data, buffer.size⟩, ?_, rfl, hs.trans_eq hl.symm,
    hcap.trans_eq hl.symm, ht⟩
  simp only [hr, hd, bind_eq_bind, bind_some, Option.pure_def]

theorem appendData_spec (junk : ℕ → UInt8) (bytes : List UInt8) :
    ∃ result, buffer.appendData junk bytes = some result ∧ result.Consistent ∧
      result.size = buffer.size + bytes.length ∧
      result.data.take (buffer.size + bytes.length) = buffer.data.take buffer.size ++ bytes := by
  obtain ⟨grown, hg, hs, hc, hcap, ht⟩ :=
    ensureCapacityWithHeadroom_spec hbuffer junk (buffer.size + bytes.length) true
  have hf : grown.size + bytes.length ≤ grown.data.length := hs ▸ hcap
  refine ⟨⟨writeAt grown.data grown.size bytes, buffer.size + bytes.length⟩, ?_, ?_, rfl, ?_⟩
  · simp [appendData, hg, writeBytes_of_le hf]
  · exact hcap.trans_eq (length_writeAt hf).symm
  · rw [← hs, take_writeAt_end bytes hc, hs, ht]

omit hbuffer in
theorem setSize_of_le {size : ℕ} (h : size ≤ buffer.data.length) (junk : ℕ → UInt8) :
    buffer.setSize junk size = some { buffer with size } := by
  simp [setSize, ensureCapacityWithHeadroom, capacity, h]

end Buffer

namespace CopyOnWriteBuffer

def Fits (heap : ℕ → Buffer) (next : ℕ) (handle : CopyOnWriteBuffer) : Prop :=
  match handle.buffer with
  | none => handle.offset = 0 ∧ handle.size = 0
  | some address => address < next ∧ handle.offset + handle.size ≤ (heap address).size

variable {heap : ℕ → Buffer} {next : ℕ} {handle : CopyOnWriteBuffer}

theorem Fits.narrow (hf : handle.Fits heap next) {length : ℕ}
    (hl : offset + length ≤ handle.size) :
    Fits heap next ⟨handle.buffer, handle.offset + offset, length⟩ ∧
      view heap ⟨handle.buffer, handle.offset + offset, length⟩ =
        ((handle.view heap).drop offset).take length := by
  obtain ⟨buffer, start, size⟩ := handle
  cases buffer with
  | none =>
    obtain ⟨hstart, hs⟩ : start = 0 ∧ size = 0 := hf
    change offset + length ≤ size at hl
    exact ⟨⟨by change start + offset = 0; omega, by change length = 0; omega⟩, by simp [view]⟩
  | some address =>
    obtain ⟨hlt, hs⟩ : address < next ∧ start + size ≤ (heap address).size := hf
    change offset + length ≤ size at hl
    refine ⟨⟨hlt, ?_⟩, ?_⟩
    · change start + offset + length ≤ _
      omega
    · simp only [view, drop_take, take_take, drop_drop]
      rw [Nat.min_eq_left (by omega)]

theorem Fits.emptied (hf : handle.Fits heap next) :
    Fits heap next ⟨handle.buffer, 0, 0⟩ ∧ view heap ⟨handle.buffer, 0, 0⟩ = [] := by
  obtain ⟨buffer, start, size⟩ := handle
  cases buffer with
  | none => exact ⟨⟨rfl, rfl⟩, rfl⟩
  | some address => exact ⟨⟨hf.1, Nat.zero_le _⟩, by simp [view]⟩

end CopyOnWriteBuffer

namespace SharedBuffers

variable {H : Type} {m m' : SharedBuffers H} {h : H} {address : ℕ}

/-- Every handle lies inside its buffer, and no buffer is larger than its memory. -/
structure Valid (m : SharedBuffers H) : Prop where
  fits : ∀ h, (m.handles h).Fits m.heap m.next
  consistent : ∀ address, (m.heap address).Consistent

theorem Valid.fits_some (hvalid : m.Valid) (hbuffer : (m.handles h).buffer = some address) :
    address < m.next ∧ (m.handles h).offset + (m.handles h).size ≤ (m.heap address).size := by
  have hf := hvalid.fits h
  rwa [CopyOnWriteBuffer.Fits, hbuffer] at hf

theorem Valid.le_length (hvalid : m.Valid) (hbuffer : (m.handles h).buffer = some address) :
    (m.handles h).offset + (m.handles h).size ≤ (m.heap address).data.length :=
  (hvalid.fits_some hbuffer).2.trans (hvalid.consistent address)

theorem contents_of_buffer (hbuffer : (m.handles h).buffer = some address) : m.contents h =
      ((m.heap address).data.drop (m.handles h).offset).take (m.handles h).size := by
  simp [contents, CopyOnWriteBuffer.view, hbuffer]

theorem contents_of_none (hbuffer : (m.handles h).buffer = none) : m.contents h = [] := by
  simp [contents, CopyOnWriteBuffer.view, hbuffer]

theorem length_contents (hvalid : m.Valid) (h : H) :
    (m.contents h).length = (m.handles h).size := by
  cases hbuffer : (m.handles h).buffer with
  | none =>
    have := hvalid.fits h
    rw [CopyOnWriteBuffer.Fits, hbuffer] at this
    rw [contents_of_none hbuffer, this.2, length_nil]
  | some address =>
    have hsize := hvalid.le_length hbuffer
    rw [contents_of_buffer hbuffer, length_take, length_drop]
    omega

/-- Other handles and the buffers they are on stay as they were. -/
def Untouched (h : H) (m m' : SharedBuffers H) : Prop :=
  ∀ g, g ≠ h → m'.handles g = m.handles g ∧
    ∀ address, (m.handles g).buffer = some address → m'.heap address = m.heap address

theorem Untouched.refl (h : H) (m : SharedBuffers H) : Untouched h m m :=
  fun _ _ => ⟨rfl, fun _ _ => rfl⟩

theorem Untouched.trans {m'' : SharedBuffers H} (h₁ : Untouched h m m') (h₂ : Untouched h m' m'') :
    Untouched h m m'' := by
  intro g hg
  obtain ⟨hh, hheap⟩ := h₁ g hg
  obtain ⟨hh', hheap'⟩ := h₂ g hg
  refine ⟨hh'.trans hh, fun address hbuffer => ?_⟩
  rw [hheap' address (hh ▸ hbuffer), hheap address hbuffer]

theorem contents_of_untouched [DecidableEq H] (hvalid : m.Valid) (hu : Untouched h m m')
    {handle : CopyOnWriteBuffer} (hs : m'.handles h = handle) (hn : m.next ≤ m'.next)
    (hf : handle.Fits m'.heap m'.next) (hc : ∀ address, (m'.heap address).Consistent) :
    m'.Valid ∧ m'.contents = update m.contents h (handle.view m'.heap) := by
  subst hs
  constructor
  · refine ⟨fun g => ?_, hc⟩
    by_cases hg : g = h
    · exact hg ▸ hf
    obtain ⟨hh, hheap⟩ := hu g hg
    have hold := hvalid.fits g
    rw [hh]
    cases hbuffer : (m.handles g).buffer with
    | none => simpa only [CopyOnWriteBuffer.Fits, hbuffer] using hold
    | some address =>
      simp only [CopyOnWriteBuffer.Fits, hbuffer, hheap address hbuffer] at hold ⊢
      exact ⟨hold.1.trans_le hn, hold.2⟩
  · funext g
    by_cases hg : g = h
    · rw [hg, update_self, contents]
    obtain ⟨hh, hheap⟩ := hu g hg
    rw [update_of_ne hg]
    cases hbuffer : (m.handles g).buffer with
    | none => rw [contents_of_none hbuffer, contents_of_none (hh ▸ hbuffer)]
    | some address =>
      rw [contents_of_buffer hbuffer, contents_of_buffer (hh ▸ hbuffer), hh,
        hheap address hbuffer]

/-- The handle is the only one on the buffer. -/
structure Owns (m : SharedBuffers H) (h : H) (address : ℕ) : Prop where
  buffer_eq : (m.handles h).buffer = some address
  eq_of_buffer_eq : ∀ g, (m.handles g).buffer = some address → g = h

theorem hasOneRef_iff_owns [Fintype H] (hbuffer : (m.handles h).buffer = some address) :
    m.hasOneRef address = true ↔ m.Owns h address := by
  rw [hasOneRef, decide_eq_true_iff, refCount, Finset.card_eq_one]
  constructor
  · rintro ⟨owner, hown⟩
    have hmem : ∀ g, (m.handles g).buffer = some address ↔ g = owner := by
      intro g
      simpa using Finset.ext_iff.1 hown g
    exact ⟨hbuffer, fun g hg => ((hmem g).1 hg).trans ((hmem h).1 hbuffer).symm⟩
  · intro ho
    refine ⟨h, Finset.ext fun g => ?_⟩
    simp only [Finset.mem_filter, Finset.mem_univ, true_and, Finset.mem_singleton]
    exact ⟨ho.eq_of_buffer_eq g, fun hg => hg ▸ hbuffer⟩

theorem Owns.untouched_setBuffer (howns : m.Owns h address) (buffer : Buffer) :
    Untouched h m (m.setBuffer address buffer) := by
  intro g hg
  refine ⟨rfl, fun other ho => update_of_ne ?_ ..⟩
  rintro rfl
  exact hg (howns.eq_of_buffer_eq g ho)

variable {buffer : Buffer}

theorem Valid.consistent_update (hvalid : m.Valid) (hc : buffer.Consistent) (address other : ℕ) :
    (update m.heap address buffer other).Consistent := by
  by_cases ho : other = address
  · rw [ho, update_self]
    exact hc
  · rw [update_of_ne ho]
    exact hvalid.consistent other

section Changes

variable [DecidableEq H] (hvalid : m.Valid)
include hvalid

theorem setHandle_spec (h : H) {handle : CopyOnWriteBuffer} (hf : handle.Fits m.heap m.next) :
    (m.setHandle h handle).Valid ∧
      (m.setHandle h handle).contents = update m.contents h (handle.view m.heap) := by
  have hu : Untouched h m (m.setHandle h handle) := fun g hg =>
    ⟨update_of_ne hg .., fun _ _ => rfl⟩
  exact contents_of_untouched hvalid hu (update_self ..) le_rfl hf hvalid.consistent

theorem untouched_allocate (h : H) (buffer : Buffer) (size : ℕ) :
    Untouched h m (m.allocate h buffer size) := by
  intro g hg
  refine ⟨update_of_ne hg .., fun address hbuffer => ?_⟩
  exact update_of_ne (hvalid.fits_some hbuffer).1.ne ..

theorem allocate_spec (h : H) (hc : buffer.Consistent) (hsize : size ≤ buffer.size) :
    (m.allocate h buffer size).Valid ∧ (m.allocate h buffer size).Owns h m.next ∧
      (m.allocate h buffer size).contents = update m.contents h (buffer.data.take size) := by
  have hs : (m.allocate h buffer size).handles h = ⟨some m.next, 0, size⟩ :=
    update_self ..
  have hh : (m.allocate h buffer size).heap m.next = buffer := update_self ..
  have hu := untouched_allocate hvalid h buffer size
  obtain ⟨hvalid', hco⟩ := contents_of_untouched hvalid hu hs (Nat.le_succ m.next)
    ⟨Nat.lt_succ_self _, by rwa [hh, Nat.zero_add]⟩ (hvalid.consistent_update hc m.next)
  simp only [CopyOnWriteBuffer.view, hh, drop_zero] at hco
  refine ⟨hvalid', ⟨congrArg CopyOnWriteBuffer.buffer hs, fun g hg => ?_⟩, hco⟩
  by_contra hne
  rw [(hu g hne).1] at hg
  exact (hvalid.fits_some hg).1.ne rfl

theorem setBuffer_setHandle_spec (ho : m.Owns h address) (hc : buffer.Consistent)
    (hs : offset + size ≤ buffer.size) :
    ((m.setBuffer address buffer).setHandle h ⟨some address, offset, size⟩).Valid ∧
      ((m.setBuffer address buffer).setHandle h ⟨some address, offset, size⟩).contents =
        update m.contents h ((buffer.data.drop offset).take size) := by
  have hh : update m.heap address buffer address = buffer := update_self ..
  have hu : Untouched h m
      ((m.setBuffer address buffer).setHandle h ⟨some address, offset, size⟩) :=
    (ho.untouched_setBuffer buffer).trans fun g hg => ⟨update_of_ne hg .., fun _ _ => rfl⟩
  obtain ⟨hvalid', hco⟩ := contents_of_untouched hvalid hu (update_self ..) le_rfl
    ⟨(hvalid.fits_some ho.buffer_eq).1, hs.trans_eq (congrArg Buffer.size hh.symm)⟩
    (hvalid.consistent_update hc address)
  simp only [CopyOnWriteBuffer.view, setHandle, setBuffer, hh] at hco
  exact ⟨hvalid', hco⟩

end Changes

@[simp] theorem setBuffer_handles (address : ℕ) (buffer : Buffer) :
    (m.setBuffer address buffer).handles = m.handles := rfl

theorem setHandle_setBuffer [DecidableEq H] (h : H) (address : ℕ) (buffer : Buffer) :
    (m.setBuffer address buffer).setHandle h
      ⟨(m.handles h).buffer, (m.handles h).offset, (m.handles h).size⟩ =
      m.setBuffer address buffer := by
  simp [setHandle, setBuffer]

theorem modifyBuffer_of_buffer_eq {modify : Buffer → Option Buffer}
    (hbuffer : (m.handles h).buffer = some address) (hmo : modify (m.heap address) = some buffer) :
    m.modifyBuffer h modify = some (m.setBuffer address buffer) := by
  simp [modifyBuffer, hbuffer, hmo]

theorem modifyBuffer_setBuffer (modify : Buffer → Option Buffer) {buffer' : Buffer}
    (hbuffer : (m.handles h).buffer = some address) (hmo : modify buffer = some buffer') :
    (m.setBuffer address buffer).modifyBuffer h modify = some (m.setBuffer address buffer') := by
  simp [modifyBuffer, setBuffer, hbuffer, hmo]

def Yields [DecidableEq H] (m : SharedBuffers H) (h : H) (bytes : List UInt8)
    (result : Option (SharedBuffers H)) : Prop :=
  ∃ m', result = some m' ∧ m'.Valid ∧ m'.contents = update m.contents h bytes

section Methods

variable [Fintype H] [DecidableEq H]

variable (hvalid : m.Valid)
include hvalid

theorem unshareAndEnsureCapacity_spec (hbuffer : (m.handles h).buffer = some address)
    (junk : ℕ → UInt8) (newCapacity : ℕ) :
    ∃ m' address', m.unshareAndEnsureCapacity h address junk newCapacity = some m' ∧ m'.Valid ∧
      m'.contents = m.contents ∧ m'.Owns h address' ∧ Untouched h m m' ∧
      (m'.handles h).size = (m.handles h).size ∧
      (m'.handles h).offset + newCapacity ≤ (m'.heap address').data.length := by
  have hsize := hvalid.le_length hbuffer
  rw [unshareAndEnsureCapacity]
  split
  · rename_i hc
    have hcap : newCapacity ≤ (m.heap address).data.length - (m.handles h).offset := by
      simpa only [capacity, hbuffer, Buffer.capacity] using hc.2
    exact ⟨m, address, rfl, hvalid, rfl, (hasOneRef_iff_owns hbuffer).1 hc.1, .refl h m, rfl,
      by omega⟩
  · obtain ⟨buffer, hd, hcons', hl, hcap, ht⟩ :=
      Buffer.ofData_spec junk (m.contents h) newCapacity
    rw [length_contents hvalid] at hl ht
    have hr : readBytes (m.heap address).data (m.handles h).offset (m.handles h).size =
        some (m.contents h) := by
      rw [contents_of_buffer hbuffer]
      exact readBytes_of_le hsize
    obtain ⟨hvalid', ho, hco⟩ := allocate_spec hvalid h hcons' hl.ge
    have hs : (m.allocate h buffer (m.handles h).size).handles h =
        ⟨some m.next, 0, (m.handles h).size⟩ := update_self ..
    have hh : (m.allocate h buffer (m.handles h).size).heap m.next = buffer :=
      update_self ..
    refine ⟨_, m.next, by simp [hr, hd], hvalid', ?_, ho,
      untouched_allocate hvalid h buffer _, ?_, ?_⟩
    · rw [hco, ht, update_eq_self]
    · rw [hs]
    · rw [hs, hh, Nat.zero_add]
      exact hcap

omit [Fintype H] in
theorem yields_self (h : H) : Yields m h (m.contents h) (some m) :=
  ⟨m, rfl, hvalid, (update_eq_self h _).symm⟩

omit [Fintype H] in
theorem yields_ofSize (h : H) (junk : ℕ → UInt8) (size capacity : ℕ) :
    Yields m h ((Buffer.ofSize junk size capacity).data.take size)
      (some (m.allocate h (.ofSize junk size capacity) size)) := by
  obtain ⟨hvalid', -, hco⟩ :=
    allocate_spec hvalid h (Buffer.consistent_ofSize junk size capacity) le_rfl
  exact ⟨_, rfl, hvalid', hco⟩

omit [Fintype H] in
theorem yields_copy (h src : H) : Yields m h (m.contents src) (some (m.copy h src)) := by
  rw [copy]
  split
  · exact ⟨_, rfl, setHandle_spec hvalid h (hvalid.fits src)⟩
  · rename_i hs
    rw [of_not_not hs]
    exact yields_self hvalid h

omit [Fintype H] in
theorem move_spec (h src : H) : (m.move h src).Valid ∧ (m.move h src).contents =
      update (update m.contents h (m.contents src)) src [] := by
  rw [move]
  split
  · obtain ⟨hvalid', hco⟩ := setHandle_spec hvalid h (hvalid.fits src)
    rw [← show m.contents src = (m.handles src).view m.heap from rfl] at hco
    have he : CopyOnWriteBuffer.empty.Fits (m.setHandle h (m.handles src)).heap
        (m.setHandle h (m.handles src)).next := ⟨rfl, rfl⟩
    rw [← hco]
    exact setHandle_spec hvalid' src he
  · rename_i hsame
    obtain rfl := of_not_not hsame
    obtain ⟨hf, hv⟩ := (hvalid.fits src).emptied
    have hs := setHandle_spec hvalid src hf
    rw [hv] at hs
    rw [update_idem]
    exact hs

omit [Fintype H] in
theorem yields_slice (h : H) {src : H} {offset length : ℕ}
    (hl : offset + length ≤ (m.contents src).length) :
    Yields m h (((m.contents src).drop offset).take length)
      (some (m.slice h src offset length)) := by
  rw [length_contents hvalid] at hl
  obtain ⟨hf, hv⟩ := (hvalid.fits src).narrow hl
  have hs := setHandle_spec hvalid h hf
  rw [hv] at hs
  exact ⟨_, rfl, hs⟩

omit [Fintype H] in
theorem yields_allocate_ofData (h : H) (junk : ℕ → UInt8) (bytes : List UInt8) (capacity : ℕ) :
    Yields m h bytes (do
      let buffer ← Buffer.ofData junk bytes capacity
      return m.allocate h buffer bytes.length) := by
  obtain ⟨buffer, hd, hc, hs, -, ht⟩ := Buffer.ofData_spec junk bytes capacity
  obtain ⟨hvalid', -, hco⟩ := allocate_spec hvalid h hc hs.ge
  exact ⟨_, by rw [hd]; rfl, hvalid', by rw [hco, ht]⟩

theorem yields_setData (h : H) (junk : ℕ → UInt8) (bytes : List UInt8) :
    Yields m h bytes (m.setData h junk bytes) := by
  rw [setData]
  split
  · split
    · exact yields_allocate_ofData hvalid h junk bytes bytes.length
    · rename_i he
      obtain rfl : bytes = [] := List.length_eq_zero_iff.1 (by omega)
      exact ⟨_, rfl, setHandle_spec hvalid h ⟨rfl, rfl⟩⟩
  · rename_i address hbuffer
    split
    · exact yields_allocate_ofData hvalid h junk bytes (m.capacity h)
    · rename_i hone
      have ho : m.Owns h address := (hasOneRef_iff_owns hbuffer).1 (by simpa using hone)
      obtain ⟨buffer, hd, hc, hs, ht⟩ :=
        Buffer.appendData_spec
          (show Buffer.Consistent { m.heap address with size := 0 } from Nat.zero_le _) junk bytes
      simp only [Nat.zero_add, take_zero, nil_append] at hs ht
      obtain ⟨hvalid', hco⟩ := setBuffer_setHandle_spec hvalid ho hc
        ((Nat.zero_add _).trans_le hs.ge)
      refine ⟨_, by simp [Buffer.setData, hd], hvalid', ?_⟩
      rw [hco, drop_zero, ht]

theorem yields_appendFrom {data : SharedBuffers H → Option (List UInt8)} {bytes : List UInt8}
    (hd : ∀ m', Untouched h m m' → data m' = some bytes) (junk : ℕ → UInt8) :
    Yields m h (m.contents h ++ bytes) (m.appendFrom h junk data bytes.length) := by
  rw [appendFrom]
  split
  · rename_i hbuffer
    rw [hd m (.refl h m), contents_of_none hbuffer]
    exact yields_allocate_ofData hvalid h junk bytes bytes.length
  rename_i address hbuffer
  obtain ⟨m₁, address', hunshare, hval₁, hc₁, ho, hu, hs, hcap⟩ :=
    unshareAndEnsureCapacity_spec hvalid hbuffer junk
      (max (m.capacity h) ((m.handles h).size + bytes.length))
  rw [← hc₁, contents_of_buffer ho.buffer_eq]
  obtain ⟨old, hold⟩ : ∃ old, m₁.heap address' = old := ⟨_, rfl⟩
  obtain ⟨offset, hoffset⟩ : ∃ offset, (m₁.handles h).offset = offset := ⟨_, rfl⟩
  obtain ⟨size, hs₁⟩ : ∃ size, (m₁.handles h).size = size := ⟨_, rfl⟩
  rw [← hs, hs₁, hoffset, hold] at hcap
  have hf : offset + size ≤ old.data.length := by omega
  have hcut : m₁.modifyBuffer h (fun buffer => buffer.setSize junk (offset + size)) =
      some (m₁.setBuffer address' ⟨old.data, offset + size⟩) :=
    modifyBuffer_of_buffer_eq ho.buffer_eq (hold ▸ Buffer.setSize_of_le hf junk)
  obtain ⟨result, hresult, hcons, hr, ht⟩ :=
    Buffer.appendData_spec (show Buffer.Consistent ⟨old.data, offset + size⟩ from hf) junk bytes
  have happ := modifyBuffer_setBuffer (fun buffer => buffer.appendData junk bytes)
    ho.buffer_eq hresult
  have hb := hd _ (hu.trans (ho.untouched_setBuffer ⟨old.data, offset + size⟩))
  obtain ⟨hvalid', hco⟩ := setBuffer_setHandle_spec hval₁ ho hcons
    ((Nat.add_assoc offset size bytes.length).symm.trans_le hr.ge)
  refine ⟨_, ?_, hvalid', ?_⟩
  · simp only [hunshare, hoffset, hs₁, bind_eq_bind, bind_some, hcut, hb,
      happ, setBuffer_handles, ho.buffer_eq, Option.pure_def]
  · rw [hco, hc₁, hold, hoffset, hs₁, take_drop_of_take_append ht hf]

theorem yields_appendData (h : H) (junk : ℕ → UInt8) (bytes : List UInt8) :
    Yields m h (m.contents h ++ bytes) (m.appendData h junk bytes) :=
  yields_appendFrom hvalid (fun _ _ => rfl) junk

theorem yields_appendBuffer {src : H} (hne : src ≠ h) (junk : ℕ → UInt8) :
    Yields m h (m.contents h ++ m.contents src) (m.appendBuffer h src junk) := by
  have hl := length_contents hvalid src
  rw [appendBuffer]
  split
  · rename_i offset size hh
    have hn : (m.handles src).buffer = none := by rw [hh]
    rw [hh, contents_of_none hn] at hl
    obtain rfl : 0 = size := hl
    rw [contents_of_none hn]
    exact yields_appendFrom hvalid (fun _ _ => rfl) junk
  · rename_i address offset size hh
    have hbuffer : (m.handles src).buffer = some address := by rw [hh]
    have hs := hvalid.le_length hbuffer
    have hco := contents_of_buffer hbuffer
    rw [hh] at hl hs hco
    obtain rfl : (m.contents src).length = size := hl
    refine yields_appendFrom hvalid (fun m' hu => ?_) junk
    obtain ⟨hh', hheap⟩ := hu src hne
    -- The other handle keeps its buffer alive.
    have ha : m'.refCount address ≠ 0 := by
      rw [refCount, ← Nat.pos_iff_ne_zero, Finset.card_pos]
      exact ⟨src, by simp [hh', hbuffer]⟩
    rw [readShared, if_neg ha, hheap address hbuffer, readBytes_of_le hs, ← hco]

theorem yields_setSize (h : H) (junk : ℕ → UInt8) (size : ℕ) :
    ∃ tail : List UInt8, tail.length = size - (m.contents h).length ∧
      Yields m h ((m.contents h).take size ++ tail) (m.setSize h junk size) := by
  rw [setSize]
  split
  · rename_i hbuffer
    split
    · rw [contents_of_none hbuffer, take_nil]
      exact ⟨_, by simp [Buffer.ofSize], yields_ofSize hvalid h junk size size⟩
    · rename_i hzero
      obtain rfl : size = 0 := by omega
      refine ⟨[], by simp, ?_⟩
      rw [take_zero, nil_append, ← contents_of_none hbuffer]
      exact yields_self hvalid h
  · rename_i address hbuffer
    split
    · rename_i hs
      obtain ⟨hf, hv⟩ := (hvalid.fits h).narrow ((Nat.zero_add size).trans_le hs)
      have hspec := setHandle_spec hvalid h hf
      rw [hv, drop_zero] at hspec
      refine ⟨[], ?_, _, rfl, ?_⟩
      · rw [length_contents hvalid, Nat.sub_eq_zero_of_le hs, length_nil]
      · rw [append_nil]
        exact hspec
    · rename_i hl
      obtain ⟨m₁, address', hu, hval₁, hc₁, ho, -, hsize, hcap⟩ :=
        unshareAndEnsureCapacity_spec hvalid hbuffer junk (max (m.capacity h) size)
      have hf : size + (m₁.handles h).offset ≤ (m₁.heap address').data.length := by omega
      have hmo : m₁.modifyBuffer h
          (fun buffer => buffer.setSize junk (size + (m₁.handles h).offset)) =
          some (m₁.setBuffer address' ⟨(m₁.heap address').data, size + (m₁.handles h).offset⟩) :=
        modifyBuffer_of_buffer_eq ho.buffer_eq (Buffer.setSize_of_le hf junk)
      obtain ⟨hvalid', hco⟩ := setBuffer_setHandle_spec hval₁ ho
        (show Buffer.Consistent ⟨(m₁.heap address').data, size + (m₁.handles h).offset⟩ from hf)
        (Nat.add_comm (m₁.handles h).offset size).le
      generalize hb : (m₁.heap address').data.drop (m₁.handles h).offset = bytes
      have hcon_h := contents_of_buffer ho.buffer_eq
      rw [hc₁, hb, hsize] at hcon_h
      have hlength : size ≤ bytes.length := by
        rw [← hb, length_drop]
        omega
      refine ⟨(bytes.drop (m.handles h).size).take (size - (m.handles h).size), ?_, _, ?_, hvalid',
        ?_⟩
      · rw [length_contents hvalid, length_take, length_drop]
        omega
      · simp only [hu, hmo, bind_eq_bind, bind_some, setBuffer_handles,
          ho.buffer_eq, Option.pure_def]
      · rw [hco, hc₁, hb, hcon_h, take_take, Nat.min_eq_right (by omega),
          ← take_add, Nat.add_sub_cancel' (by omega)]

theorem yields_ensureCapacity (h : H) (junk : ℕ → UInt8) (newCapacity : ℕ) :
    Yields m h (m.contents h) (m.ensureCapacity h junk newCapacity) := by
  rw [ensureCapacity]
  split
  · rename_i hbuffer
    split
    · rw [contents_of_none hbuffer]
      exact yields_ofSize hvalid h junk 0 newCapacity
    · exact yields_self hvalid h
  · rename_i address hbuffer
    split
    · exact yields_self hvalid h
    · obtain ⟨m₁, -, hu, hval₁, hc₁, -⟩ :=
        unshareAndEnsureCapacity_spec hvalid hbuffer junk newCapacity
      exact ⟨m₁, hu, hval₁, by rw [hc₁, update_eq_self]⟩

theorem yields_clear (h : H) (junk : ℕ → UInt8) : Yields m h [] (some (m.clear h junk)) := by
  rw [clear]
  split
  · rename_i hbuffer
    rw [← contents_of_none hbuffer]
    exact yields_self hvalid h
  · rename_i address hbuffer
    split
    · rename_i hone
      obtain ⟨hvalid', hco⟩ := setBuffer_setHandle_spec hvalid
        ((hasOneRef_iff_owns hbuffer).1 hone)
        (show (m.heap address).clear.Consistent from Nat.zero_le _) (Nat.zero_add 0).le
      exact ⟨_, rfl, hvalid', by rw [hco, take_zero]⟩
    · exact yields_ofSize hvalid h junk 0 (m.capacity h)

theorem yields_writeByte {h : H} (hi : index < (m.contents h).length) (junk : ℕ → UInt8)
    (value : UInt8) :
    Yields m h ((m.contents h).set index value) (m.writeByte h junk index value) := by
  rw [writeByte]
  cases hbuffer : (m.handles h).buffer with
  | none =>
    rw [contents_of_none hbuffer] at hi
    exact absurd hi (Nat.not_lt_zero index)
  | some address =>
    obtain ⟨m₁, address', hu, hval₁, hc₁, ho, -⟩ :=
      unshareAndEnsureCapacity_spec hvalid hbuffer junk (m.capacity h)
    rw [← hc₁, length_contents hval₁] at hi
    have hlength := hval₁.le_length ho.buffer_eq
    have hf : (m₁.handles h).offset + index + [value].length ≤
        (m₁.heap address').data.length := by
      rw [length_singleton]
      omega
    obtain ⟨written, hw⟩ : ∃ written : Buffer, ⟨writeAt (m₁.heap address').data
      ((m₁.handles h).offset + index) [value], (m₁.heap address').size⟩ = written := ⟨_, rfl⟩
    have hcons' : written.Consistent := by
      rw [← hw]
      exact (hval₁.consistent address').trans_eq (length_writeAt hf).symm
    have hmo : m₁.modifyBuffer h (fun buffer =>
        (writeBytes buffer.data ((m₁.handles h).offset + index) [value]).bind fun data =>
          some { buffer with data }) = some (m₁.setBuffer address' written) := by
      refine modifyBuffer_of_buffer_eq ho.buffer_eq ?_
      rw [writeBytes_of_le hf, ← hw]
      rfl
    have hs' : (m₁.handles h).offset + (m₁.handles h).size ≤ written.size := by
      rw [← hw]
      exact (hval₁.fits_some ho.buffer_eq).2
    obtain ⟨hvalid', hco⟩ := setBuffer_setHandle_spec hval₁ ho hcons' hs'
    rw [← ho.buffer_eq, setHandle_setBuffer] at hvalid' hco
    refine ⟨m₁.setBuffer address' written, by simp [hu, hmo], hvalid', ?_⟩
    rw [hco, ← hw, take_drop_writeAt_singleton (by omega),
      ← contents_of_buffer ho.buffer_eq, hc₁]

omit [Fintype H] in
theorem constructSize_spec (h : H) (junk : ℕ → UInt8) (size capacity : ℕ) :
    (m.constructSize h junk size capacity).Valid ∧ ∃ bytes : List UInt8, bytes.length = size ∧
        (m.constructSize h junk size capacity).contents = update m.contents h bytes := by
  rw [constructSize]
  split
  · obtain ⟨_, heq, hvalid', hco⟩ := yields_ofSize hvalid h junk size capacity
    cases heq
    exact ⟨hvalid', _, by simp [Buffer.ofSize], hco⟩
  · rename_i hzero
    obtain rfl : size = 0 := by omega
    obtain ⟨hvalid', hco⟩ := setHandle_spec hvalid h
      (show CopyOnWriteBuffer.empty.Fits m.heap m.next from ⟨rfl, rfl⟩)
    exact ⟨hvalid', [], rfl, hco⟩

omit [Fintype H] in
theorem yields_constructData (h : H) (junk : ℕ → UInt8) (bytes : List UInt8) (capacity : ℕ) :
    Yields m h bytes (m.constructData h junk bytes capacity) := by
  by_cases hpos : bytes.length > 0 ∨ capacity > 0
  · have hs : m.constructSize h junk bytes.length capacity =
        m.allocate h (.ofSize junk bytes.length capacity) bytes.length := if_pos hpos
    obtain ⟨hval₁, ho, hc₁⟩ :=
      allocate_spec hvalid h (Buffer.consistent_ofSize junk bytes.length capacity)
        (le_refl bytes.length)
    obtain ⟨data, hd, hl, ht⟩ :=
      writeBytes_uninitialized junk (Nat.le_max_left bytes.length capacity)
    have hcons : Buffer.Consistent ⟨data, bytes.length⟩ :=
      (Nat.le_max_left _ _).trans_eq hl.symm
    have hmo : (m.allocate h (.ofSize junk bytes.length capacity) bytes.length).modifyBuffer h
        (fun buffer => (writeBytes buffer.data 0 bytes).bind fun data =>
          some { buffer with data }) =
        some ((m.allocate h (.ofSize junk bytes.length capacity) bytes.length).setBuffer m.next
          ⟨data, bytes.length⟩) := by
      refine modifyBuffer_of_buffer_eq ho.buffer_eq ?_
      simp [allocate, Buffer.ofSize, hd]
    obtain ⟨hvalid', hco⟩ :=
      setBuffer_setHandle_spec hval₁ ho hcons (Nat.zero_add bytes.length).le
    refine ⟨_, ?_, hvalid', ?_⟩
    · simp only [constructData, hs, ho.buffer_eq, bind_eq_bind, Option.pure_def,
        hmo, bind_some, setBuffer_handles]
    · rw [hco, hc₁, drop_zero, ht, update_idem]
  · obtain rfl : bytes = [] := List.length_eq_zero_iff.1 (by omega)
    have hs : m.constructSize h junk 0 capacity = m.setHandle h .empty := if_neg hpos
    refine ⟨m.setHandle h .empty, ?_, setHandle_spec hvalid h ⟨rfl, rfl⟩⟩
    simp [constructData, hs, setHandle, CopyOnWriteBuffer.empty]

end Methods

end SharedBuffers

inductive BufferCall (H : Type) where
  | constructData (h : H) (bytes : List UInt8) (capacity : ℕ)
  | constructSize (h : H) (size capacity : ℕ)
  | copy (h src : H)
  | move (h src : H)
  | slice (h src : H) (offset length : ℕ)
  | setData (h : H) (bytes : List UInt8)
  | appendData (h : H) (bytes : List UInt8)
  | appendBuffer (h src : H)
  | setSize (h : H) (size : ℕ)
  | ensureCapacity (h : H) (newCapacity : ℕ)
  | clear (h : H)
  | writeByte (h : H) (index : ℕ) (value : UInt8)

namespace BufferCall

variable {H : Type} [DecidableEq H]

def Allowed (s : H → List UInt8) : BufferCall H → Prop
  | slice _ src offset length => offset + length ≤ (s src).length
  | appendBuffer h src => src ≠ h
  | writeByte h index _ => index < (s h).length
  | _ => True

instance decidableAllowed (s : H → List UInt8) : (call : BufferCall H) → Decidable (call.Allowed s)
  | slice _ src offset length => inferInstanceAs (Decidable (offset + length ≤ (s src).length))
  | appendBuffer h src => inferInstanceAs (Decidable (src ≠ h))
  | writeByte h index _ => inferInstanceAs (Decidable (index < (s h).length))
  | constructData .. | constructSize .. | copy .. | move .. | setData .. | appendData ..
  | setSize .. | ensureCapacity .. | clear .. => .isTrue trivial

def targets : BufferCall H → List H
  | constructData h _ _ | constructSize h _ _ | copy h _ | slice h _ _ _ | setData h _
  | appendData h _ | appendBuffer h _ | setSize h _ | ensureCapacity h _ | clear h
  | writeByte h _ _ => [h]
  | move h src => [h, src]

def Specified (s s' : H → List UInt8) : BufferCall H → Prop
  | constructData h bytes _ => s' = update s h bytes
  | constructSize h size _ =>
    ∃ bytes : List UInt8, bytes.length = size ∧ s' = update s h bytes
  | copy h src => s' = update s h (s src)
  | move h src => s' = update (update s h (s src)) src []
  | slice h src offset length => s' = update s h (((s src).drop offset).take length)
  | setData h bytes => s' = update s h bytes
  | appendData h bytes => s' = update s h (s h ++ bytes)
  | appendBuffer h src => s' = update s h (s h ++ s src)
  | setSize h size =>
    -- The bytes beyond the old size are unspecified.
    ∃ tail : List UInt8, tail.length = size - (s h).length ∧
      s' = update s h ((s h).take size ++ tail)
  | ensureCapacity _ _ => s' = s
  | clear h => s' = update s h []
  | writeByte h index value => s' = update s h ((s h).set index value)

theorem Specified.eq_of_notMem {s s' : H → List UInt8} {call : BufferCall H}
    (hs : call.Specified s s') {g : H} (hg : g ∉ call.targets) : s' g = s g := by
  cases call with
  | move h src =>
    obtain ⟨hh, hsrc⟩ : g ≠ h ∧ g ≠ src := by simpa [targets] using hg
    rw [show s' = _ from hs, update_of_ne hsrc, update_of_ne hh]
  | constructSize h _ _ | setSize h _ =>
    obtain ⟨_, -, rfl⟩ := hs
    exact update_of_ne (by simpa [targets] using hg) ..
  | ensureCapacity _ _ => exact congrFun hs g
  | _ =>
    obtain rfl := hs
    exact update_of_ne (by simpa [targets] using hg) ..

end BufferCall

namespace SharedBuffers

variable {H : Type} [Fintype H] [DecidableEq H]

def step (m : SharedBuffers H) (call : BufferCall H × (ℕ → UInt8)) : Option (SharedBuffers H) :=
  let junk := call.2
  match call.1 with
  | .constructData h bytes capacity => m.constructData h junk bytes capacity
  | .constructSize h size capacity => some (m.constructSize h junk size capacity)
  | .copy h src => some (m.copy h src)
  | .move h src => some (m.move h src)
  | .slice h src offset length => some (m.slice h src offset length)
  | .setData h bytes => m.setData h junk bytes
  | .appendData h bytes => m.appendData h junk bytes
  | .appendBuffer h src => m.appendBuffer h src junk
  | .setSize h size => m.setSize h junk size
  | .ensureCapacity h newCapacity => m.ensureCapacity h junk newCapacity
  | .clear h => some (m.clear h junk)
  | .writeByte h index value => m.writeByte h junk index value

variable {m : SharedBuffers H}

theorem step_specified (hvalid : m.Valid) (call : BufferCall H × (ℕ → UInt8))
    (hall : call.1.Allowed m.contents) :
    ∃ m', m.step call = some m' ∧ m'.Valid ∧ call.1.Specified m.contents m'.contents := by
  obtain ⟨call, junk⟩ := call
  cases call with
  | constructData h bytes capacity => exact yields_constructData hvalid h junk bytes capacity
  | constructSize h size capacity =>
    exact ⟨_, rfl, constructSize_spec hvalid h junk size capacity⟩
  | copy h src => exact yields_copy hvalid h src
  | move h src => exact ⟨_, rfl, move_spec hvalid h src⟩
  | slice h src offset length => exact yields_slice hvalid h hall
  | setData h bytes => exact yields_setData hvalid h junk bytes
  | appendData h bytes => exact yields_appendData hvalid h junk bytes
  | appendBuffer h src => exact yields_appendBuffer hvalid hall junk
  | setSize h size =>
    obtain ⟨tail, hl, m', hs, hvalid', hco⟩ := yields_setSize hvalid h junk size
    exact ⟨m', hs, hvalid', tail, hl, hco⟩
  | ensureCapacity h newCapacity =>
    obtain ⟨m', hs, hvalid', hco⟩ := yields_ensureCapacity hvalid h junk newCapacity
    exact ⟨m', hs, hvalid', hco.trans (update_eq_self h _)⟩
  | clear h => exact yields_clear hvalid h junk
  | writeByte h index value => exact yields_writeByte hvalid hall junk value

def initial : SharedBuffers H := ⟨fun _ => ⟨[], 0⟩, 0, fun _ => .empty⟩

omit [Fintype H] [DecidableEq H] in
theorem valid_initial : (initial : SharedBuffers H).Valid :=
  ⟨fun _ => ⟨rfl, rfl⟩, fun _ => le_rfl⟩

def AllAllowed (m : SharedBuffers H) : List (BufferCall H × (ℕ → UInt8)) → Prop
  | [] => True
  | call :: calls =>
    call.1.Allowed m.contents ∧ ∀ m' ∈ m.step call, AllAllowed m' calls

instance decidableAllAllowed : (calls : List (BufferCall H × (ℕ → UInt8))) →
    (m : SharedBuffers H) → Decidable (m.AllAllowed calls)
  | [], _ => .isTrue trivial
  | call :: calls, m =>
    letI : DecidablePred fun m' : SharedBuffers H => m'.AllAllowed calls :=
      decidableAllAllowed calls
    inferInstanceAs (Decidable (call.1.Allowed m.contents ∧
      ∀ m' ∈ m.step call, AllAllowed m' calls))

theorem specified_of_allAllowed (hvalid : m.Valid) {pre post : List (BufferCall H × (ℕ → UInt8))}
    {call : BufferCall H × (ℕ → UInt8)} (hall : m.AllAllowed (pre ++ call :: post)) :
    ∃ m₁ m₂, pre.foldlM step m = some m₁ ∧ m₁.step call = some m₂ ∧
      call.1.Specified m₁.contents m₂.contents := by
  induction pre generalizing m with
  | nil =>
    obtain ⟨m₂, hstep, -, hs⟩ := step_specified hvalid call hall.1
    exact ⟨m, m₂, rfl, hstep, hs⟩
  | cons first pre ih =>
    obtain ⟨m', hstep, hvalid', -⟩ := step_specified hvalid first hall.1
    obtain ⟨m₁, m₂, hrun, hr⟩ := ih hvalid' (hall.2 m' hstep)
    exact ⟨m₁, m₂, by simpa [foldlM_cons, hstep] using hrun, hr⟩

/-- Value semantics: in every program no access leaves a buffer, and the bytes seen through the
handles change as if every handle had its own byte string. -/
theorem copyOnWriteBuffer_value_semantics (calls : List (BufferCall H × (ℕ → UInt8)))
    (hallowed : (initial : SharedBuffers H).AllAllowed calls) :
    ∀ pre call post, calls = pre ++ call :: post →
      ∃ m m', pre.foldlM step (initial : SharedBuffers H) = some m ∧ m.step call = some m' ∧
        call.1.Specified m.contents m'.contents ∧
        ∀ g, g ∉ call.1.targets → m'.contents g = m.contents g := by
  rintro pre call post rfl
  obtain ⟨m, m', hrun, hstep, hs⟩ := specified_of_allAllowed valid_initial hallowed
  exact ⟨m, m', hrun, hstep, hs, fun g hg => hs.eq_of_notMem hg⟩

def sharingCalls : List (BufferCall (Fin 3) × (ℕ → UInt8)) :=
  [(.setData 0 [1, 2, 3, 4], fun _ => 0), (.copy 1 0, fun _ => 0), (.slice 2 0 1 2, fun _ => 0),
    (.writeByte 0 1 9, fun _ => 0), (.appendBuffer 2 1, fun _ => 0), (.setSize 1 5, fun _ => 7),
    (.move 0 2, fun _ => 0)]

theorem copyOnWriteBuffer_value_semantics_sharingCalls :
    (initial : SharedBuffers (Fin 3)).AllAllowed sharingCalls ∧
      ∃ m m', (sharingCalls.take 4).foldlM step initial = some m ∧
        m.step (.appendBuffer 2 1, fun _ => 0) = some m' ∧
        (BufferCall.appendBuffer 2 1).Specified m.contents m'.contents ∧
        ∀ g, g ∉ (BufferCall.appendBuffer (2 : Fin 3) 1).targets →
          m'.contents g = m.contents g := by
  have hall : (initial : SharedBuffers (Fin 3)).AllAllowed sharingCalls := by decide +kernel
  exact ⟨hall, copyOnWriteBuffer_value_semantics sharingCalls hall _ _ _ rfl⟩

end SharedBuffers

end WebRtcAudio.RtcBase
