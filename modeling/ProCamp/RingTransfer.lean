import ProCamp.Fifo
import ProCamp.PlatDummy

/-!
# What the ring accepts and delivers

The ring as a first-in first-out store of bytes : `plat_dummy_write` and
`plat_dummy_work` take bytes in, `plat_dummy_read` hands them out, each in one
critical section. A write accepts the bytes it reports as written, its return value;
a poll accepts the frame it copied.

`plat_dummy_read` and `plat_dummy_work` are first-in first-out at every state
(`fifoAt_read`, `fifoAt_work`). `plat_dummy_write` looks only at the distance to `end`
and not at `spacefree`, so it is exactly when the bytes it takes fit the free space
(`fifoAt_write_iff`).
-/

namespace ProCamp

open PlatDummyDevice

/-- A call on the device. A poll comes with the window and registers it finds. -/
inductive RingCall where
  | write (buf : List UInt8)
  | work (io : PlatIo)
  | read (count : ℕ)

/-- The frame a poll copies : none if the flag is clear or it does not fit. -/
def polledFrame (d : PlatDummyDevice) (io : PlatIo) : List UInt8 :=
  if dataReady io.flag ∧ d.fits (clampSize io.size.toNat) then
    (List.range' 0 (clampSize io.size.toNat)).map io.mem
  else []

/-- The ring under its three operations. A read of an empty ring blocks : it hands out
nothing and changes nothing. -/
def ringStore : Store PlatDummyDevice RingCall UInt8 where
  next d
    | .write buf => (d.platDummyWrite buf).2
    | .work io => (d.platDummyWork io).1
    | .read count => ((d.platDummyRead count).map Prod.snd).getD d
  items := unread
  accepted d
    | .write buf => buf.take (d.platDummyWrite buf).1
    | .work io => polledFrame d io
    | .read _ => []
  delivered d
    | .write _ => []
    | .work _ => []
    | .read count => ((d.platDummyRead count).map Prod.fst).getD []

/-- The bytes a write takes fit the free space. -/
def WriteFits (d : PlatDummyDevice) : RingCall → Prop
  | .write buf => (d.writeCount buf.length : ℤ) ≤ d.spacefree
  | .work _ => True
  | .read _ => True

/-- After the calls of a run from `dummy_init_data_buffer`, what was delivered followed
by what is unread is what was accepted. -/
def TransferConsistent (d : PlatDummyDevice) (calls : List RingCall) : Prop :=
  ringStore.allDelivered d.dummyInitDataBuffer calls ++
      (ringStore.run d.dummyInitDataBuffer calls).unread =
    ringStore.allAccepted d.dummyInitDataBuffer calls

variable {d : PlatDummyDevice}

theorem ringStore_items (d : PlatDummyDevice) : ringStore.items d = d.unread :=
  rfl

theorem valid_next (d : PlatDummyDevice) (call : RingCall) (h : d.Valid) :
    (ringStore.next d call).Valid := by
  cases call with
  | write buf => exact h.platDummyWrite buf
  | work io => exact (h.platDummyWork io).1
  | read count =>
    cases hread : d.platDummyRead count with
    | none => simpa [ringStore, hread] using h
    | some r => simpa [ringStore, hread] using (h.platDummyRead hread).1

theorem fifoAt_read (h : d.Valid) (count : ℕ) : ringStore.FifoAt d (.read count) := by
  unfold Store.FifoAt
  cases hread : d.platDummyRead count with
  | none => simp [ringStore, hread]
  | some r => simpa [ringStore, hread] using (h.platDummyRead hread).2

theorem fifoAt_work (h : d.Valid) (io : PlatIo) : ringStore.FifoAt d (.work io) := by
  have := (h.platDummyWork io).2
  simp [Store.FifoAt, ringStore, polledFrame, this]

/-- A write is first-in first-out exactly if the bytes it takes fit : the ring holds
less than `buffersize` bytes, so more of them cannot all be unread after it. -/
theorem fifoAt_write_iff (h : d.Valid) (buf : List UInt8) :
    ringStore.FifoAt d (.write buf) ↔ (d.writeCount buf.length : ℤ) ≤ d.spacefree := by
  have hfree := h.spacefree_add_length
  constructor
  · intro hfifo
    have hlen := congrArg List.length hfifo
    have hlt := (h.platDummyWrite buf).length_unread_lt
    have hsize : (d.platDummyWrite buf).2.buffersize = d.buffersize := by
      simp [PlatDummyDevice.platDummyWrite, advanceWp, copyFromUser]
    have hmin := writeCount_le_count (d := d) buf.length
    simp only [ringStore, List.length_append, List.length_take, List.length_nil] at hlen
    simp only [hsize] at hlt
    simp only [PlatDummyDevice.platDummyWrite] at hlen hlt
    omega
  · intro hfits
    have := h.unread_platDummyWrite buf (by omega)
    simp [Store.FifoAt, ringStore, this]

theorem fifoAt_iff (h : d.Valid) (call : RingCall) :
    ringStore.FifoAt d call ↔ WriteFits d call := by
  cases call with
  | write buf => exact fifoAt_write_iff h buf
  | work io => exact iff_of_true (fifoAt_work h io) trivial
  | read count => exact iff_of_true (fifoAt_read h count) trivial

theorem transferConsistent_iff_conserves (d : PlatDummyDevice) (calls : List RingCall) :
    TransferConsistent d calls ↔ ringStore.Conserves d.dummyInitDataBuffer calls := by
  rw [Store.Conserves, TransferConsistent, ringStore_items, ringStore_items,
    unread_dummyInitDataBuffer, List.nil_append]

/-- Every state of a run keeps each accepted byte, once and in order, exactly if every
write of the run finds room for the bytes it takes. -/
theorem transfer_consistent_iff_writes_fit (d : PlatDummyDevice) (calls : List RingCall) :
    (∀ pre, pre <+: calls → TransferConsistent d pre) ↔
      ringStore.Along WriteFits d.dummyInitDataBuffer calls := by
  simp only [transferConsistent_iff_conserves, ringStore.conserves_iff]
  have hv : d.dummyInitDataBuffer.Valid := valid_dummyInitDataBuffer
  constructor
  · exact Store.Along.mono ringStore valid_next (fun _ call h => (fifoAt_iff h call).1) hv
  · exact Store.Along.mono ringStore valid_next (fun _ call h => (fifoAt_iff h call).2) hv

/-- A write of a whole buffer to the empty ring loses every byte it reports. -/
theorem not_transferConsistent_full_write (d : PlatDummyDevice) {buf : List UInt8}
    (hlen : buf.length = dummyIoBuffSize) : ¬TransferConsistent d [.write buf] := by
  intro h
  obtain ⟨hcount, hunread⟩ := platDummyWrite_full (d := d) hlen
  have htotal : _ = _ := congrArg List.length h
  simp only [Store.allDelivered, Store.allAccepted, Store.run_cons, Store.run_nil, ringStore,
    dummyInitDataBuffer, hcount, hunread, List.length_append, List.length_take, List.length_nil,
    hlen] at htotal
  simp [dummyIoBuffSize] at htotal

/-- Writing `DUMMY_IO_BUFF_SIZE` bytes to a fresh device. -/
theorem full_write_not_transferConsistent :
    ¬TransferConsistent ⟨0, fun _ => 0, 0, 0⟩ [.write (List.replicate 512 7)] :=
  not_transferConsistent_full_write _ (List.length_replicate ..)

end ProCamp
