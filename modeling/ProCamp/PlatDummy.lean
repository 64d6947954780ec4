import Mathlib.Algebra.Order.Ring.Int
import Mathlib.Tactic.Ring
import ProCamp.CyclicBuffer

/-!
# The dummy platform device

The ring buffer of `HW12/platform_test.c` and the operations its functions make on
it. Pointers into `buffer` are offsets from its start, so `end` is `buffersize`. Each
function below is a piece of the source between two points where another thread can
look : `platDummyRead`, `platDummyWrite` and `platDummyWork` compose the pieces into
the critical sections as they run when nothing interferes and no copy faults.

`unread` is what the buffer holds for readers, the cyclic segment from `rp` to `wp`.
`spacefree_eq` computes the free space, and the lemmas after it say what each piece
does to `unread`.
-/

namespace ProCamp

open CyclicBuffer

/-- Bytes of the memory window (`MEM_SIZE`). -/
def memSize : ℕ := 0x1000

/-- Bit 0 of the flag register (`PLAT_IO_DATA_READY`). -/
def platIoDataReady : UInt32 := 1

/-- Size of the ring in the source (`DUMMY_IO_BUFF_SIZE`). -/
def dummyIoBuffSize : ℕ := 1024 / 2

/-- The fields of `struct plat_dummy_device` that make up the ring. -/
structure PlatDummyDevice where
  buffersize : ℕ
  buffer : ℕ → UInt8
  /-- Where to read, as an offset into `buffer`. -/
  rp : ℕ
  /-- Where to write, as an offset into `buffer`. -/
  wp : ℕ

/-- The memory window and the two registers, shared with user space through `mmap`. -/
structure PlatIo where
  mem : ℕ → UInt8
  /-- The flag register, at offset 0. -/
  flag : UInt32
  /-- The size register, at offset 4. -/
  size : UInt32

/-- `status & PLAT_IO_DATA_READY`. -/
def dataReady (status : UInt32) : Bool :=
  status &&& platIoDataReady != 0

/-- `status & ~PLAT_IO_DATA_READY`. -/
def clearReady (status : UInt32) : UInt32 :=
  status &&& ~~~platIoDataReady

@[simp] theorem dataReady_zero : dataReady 0 = false :=
  rfl

@[simp] theorem dataReady_platIoDataReady : dataReady platIoDataReady = true :=
  rfl

@[simp] theorem dataReady_clearReady (status : UInt32) : dataReady (clearReady status) = false := by
  have h : ~~~platIoDataReady &&& platIoDataReady = 0 := by decide
  simp [dataReady, clearReady, UInt32.and_assoc, h]

namespace PlatDummyDevice

variable (d : PlatDummyDevice)

/-- `end`, one past the last byte of the buffer. -/
def bufEnd : ℕ :=
  d.buffersize

/-- The bytes readers have not got yet, oldest first. -/
def unread : List UInt8 :=
  contents d.buffersize d.buffer d.rp d.wp

/-- The free space, in the arithmetic of the source : `spacefree_lt` shows that it
stays in the range of an `int` for every buffer that does. -/
def spacefree : ℤ :=
  if d.rp = d.wp then d.buffersize - 1
  else (d.rp + d.buffersize - d.wp) % d.buffersize - 1

/-- `dummy_init_data_buffer` for a buffer of `size` bytes. -/
def initDataBuffer (size : ℕ) : PlatDummyDevice :=
  { d with buffersize := size, rp := 0, wp := 0 }

/-- `dummy_init_data_buffer`. -/
def dummyInitDataBuffer : PlatDummyDevice :=
  d.initDataBuffer dummyIoBuffSize

/-! ## `plat_dummy_read` -/

/-- Lines 100 to 103 : how much of `count` one call returns. -/
def readCount (count : ℕ) : ℕ :=
  if d.wp > d.rp then min count (d.wp - d.rp) else min count (d.bufEnd - d.rp)

/-- The bytes `copy_to_user` takes from `rp` on. -/
def copyToUser (count : ℕ) : List UInt8 :=
  (List.range' d.rp count).map d.buffer

/-- Line 109. -/
def advanceRp (count : ℕ) : PlatDummyDevice :=
  { d with rp := d.rp + count }

/-- Lines 110 and 111. -/
def wrapRp : PlatDummyDevice :=
  if d.rp = d.bufEnd then { d with rp := 0 } else d

/-- The critical section of a read that finds data; with none, it blocks. -/
def platDummyRead (count : ℕ) : Option (List UInt8 × PlatDummyDevice) :=
  if d.rp = d.wp then none
  else
    let count := d.readCount count
    some (d.copyToUser count, (d.advanceRp count).wrapRp)

/-! ## `plat_dummy_write` -/

/-- Line 127. -/
def writeCount (count : ℕ) : ℕ :=
  min count (d.bufEnd - d.wp)

/-- The ring after `copy_from_user` stored `bytes` from `wp` on. -/
def copyFromUser (bytes : List UInt8) : PlatDummyDevice :=
  { d with buffer := store d.buffer d.wp bytes }

/-- Line 133. -/
def advanceWp (count : ℕ) : PlatDummyDevice :=
  { d with wp := d.wp + count }

/-- Lines 134 and 135. -/
def wrapWpGe : PlatDummyDevice :=
  if d.wp ≥ d.bufEnd then { d with wp := 0 } else d

/-- The critical section of a write : the value returned and the ring. -/
def platDummyWrite (buf : List UInt8) : ℕ × PlatDummyDevice :=
  let count := d.writeCount buf.length
  (count, ((d.copyFromUser (buf.take count)).advanceWp count).wrapWpGe)

/-! ## `plat_dummy_work` -/

/-- Line 220 : `*wp++ = byte`. -/
def putByte (byte : UInt8) : PlatDummyDevice :=
  { d with buffer := store d.buffer d.wp [byte], wp := d.wp + 1 }

/-- Lines 222 and 223. -/
def wrapWpEq : PlatDummyDevice :=
  if d.wp = d.bufEnd then { d with wp := 0 } else d

/-- The copy loop with `n` bytes to go, the next one at offset `i` of the window. -/
def copyLoop (mem : ℕ → UInt8) : ℕ → ℕ → PlatDummyDevice → PlatDummyDevice
  | _, 0, d => d
  | i, n + 1, d => copyLoop mem (i + 1) n (d.putByte (mem i)).wrapWpEq

/-- Lines 209 and 210 : the size register, clamped. -/
def clampSize (size : ℕ) : ℕ :=
  if size > memSize then memSize else size

/-- Lines 212 to 214 : the frame fits. -/
def fits (size : ℕ) : Bool :=
  ¬min size d.spacefree.toNat < size

/-- One poll : the ring and the registers after it. -/
def platDummyWork (io : PlatIo) : PlatDummyDevice × PlatIo :=
  let status := io.flag
  if dataReady status then
    let size := clampSize io.size.toNat
    if d.fits size then
      (copyLoop io.mem 0 size d, { io with flag := clearReady status })
    else (d, io)
  else (d, io)

/-! ## The representation invariant -/

/-- Outside the critical sections both pointers are in `[buffer, end)`. -/
structure Valid : Prop where
  rp_lt : d.rp < d.buffersize
  wp_lt : d.wp < d.buffersize

variable {d}

theorem valid_initDataBuffer {size : ℕ} (h : 0 < size) : (d.initDataBuffer size).Valid :=
  ⟨h, h⟩

theorem unread_initDataBuffer (size : ℕ) : (d.initDataBuffer size).unread = [] :=
  contents_self _ _

theorem unread_dummyInitDataBuffer : d.dummyInitDataBuffer.unread = [] :=
  unread_initDataBuffer _

theorem valid_dummyInitDataBuffer : d.dummyInitDataBuffer.Valid :=
  valid_initDataBuffer (by simp [dummyIoBuffSize])

theorem Valid.pos (h : d.Valid) : 0 < d.buffersize :=
  Nat.zero_lt_of_lt h.rp_lt

/-- The free space is what the unread bytes leave of `N - 1`. -/
theorem Valid.spacefree_add_length (h : d.Valid) :
    d.spacefree + d.unread.length = d.buffersize - 1 := by
  have hr := h.rp_lt
  have hw := h.wp_lt
  rw [unread, length_contents, spacefree]
  rcases Nat.lt_trichotomy d.rp d.wp with hlt | heq | hgt
  · rw [if_neg hlt.ne, dist_of_le hlt.le (by omega), Int.emod_eq_of_lt (by omega) (by omega)]
    omega
  · rw [if_pos heq, heq, dist_self]
    simp
  · have hmod : ((d.rp : ℤ) + d.buffersize - d.wp) % d.buffersize = d.rp - d.wp := by
      rw [show (d.rp : ℤ) + d.buffersize - d.wp = d.rp - d.wp + d.buffersize by ring,
        Int.add_emod_right, Int.emod_eq_of_lt (by omega) (by omega)]
    rw [if_neg hgt.ne', hmod, dist_of_gt hgt hr]
    omega

theorem Valid.length_unread_lt (h : d.Valid) : d.unread.length < d.buffersize := by
  rw [unread, length_contents]
  exact dist_lt h.pos _ _

theorem Valid.spacefree_nonneg (h : d.Valid) : 0 ≤ d.spacefree := by
  have := h.spacefree_add_length
  have := h.length_unread_lt
  omega

theorem Valid.spacefree_lt (h : d.Valid) : d.spacefree < d.buffersize := by
  have := h.spacefree_add_length
  omega

/-- The free space in closed form. -/
theorem Valid.spacefree_eq (h : d.Valid) :
    d.spacefree = d.buffersize - 1 - ((d.wp : ℤ) - d.rp) % d.buffersize := by
  have hr := h.rp_lt
  have hw := h.wp_lt
  have hlen : (d.unread.length : ℤ) = ((d.wp : ℤ) - d.rp) % d.buffersize := by
    rw [unread, length_contents]
    rcases Nat.lt_or_ge d.wp d.rp with hlt | hge
    · rw [dist_of_gt hlt hr, ← Int.add_emod_right, Int.emod_eq_of_lt (by omega) (by omega)]
      omega
    · rw [dist_of_le hge (by omega), Int.emod_eq_of_lt (by omega) (by omega)]
      omega
  rw [← hlen]
  have := h.spacefree_add_length
  omega

theorem Valid.fits_iff (h : d.Valid) (size : ℕ) :
    d.fits size = true ↔ d.unread.length + size < d.buffersize := by
  have h1 := h.spacefree_add_length
  have h2 := h.spacefree_nonneg
  simp only [fits, decide_eq_true_eq]
  omega

/-! ## Reading -/

theorem Valid.readCount_le (h : d.Valid) (hne : d.rp ≠ d.wp) (count : ℕ) :
    d.readCount count ≤ d.unread.length ∧ d.rp + d.readCount count ≤ d.buffersize := by
  have hr := h.rp_lt
  have hw := h.wp_lt
  rw [unread, length_contents, readCount, bufEnd]
  split_ifs with hgt
  · rw [dist_of_le (Nat.le_of_lt hgt) (by omega)]
    omega
  · rw [dist_of_gt (by omega) hr]
    omega

/-- Advancing `rp` takes the bytes copied to the reader off the front. -/
theorem unread_advanceRp {count : ℕ} (hend : d.rp + count ≤ d.buffersize)
    (hle : count ≤ d.unread.length) :
    d.unread = d.copyToUser count ++ (d.advanceRp count).unread := by
  rw [unread, length_contents] at hle
  exact contents_drop d.buffer hend hle

theorem unread_wrapRp : d.wrapRp.unread = d.unread := by
  unfold wrapRp bufEnd
  split_ifs with h
  · simp only [unread, h, contents_wrap_left]
  · rfl

theorem valid_wrapRp (hr : d.rp ≤ d.buffersize) (hw : d.wp < d.buffersize) : d.wrapRp.Valid := by
  unfold wrapRp bufEnd
  split_ifs with h
  · exact ⟨by simp only; omega, hw⟩
  · exact ⟨by omega, hw⟩

/-! ## Writing -/

theorem writeCount_le (h : d.wp ≤ d.buffersize) (count : ℕ) :
    d.wp + d.writeCount count ≤ d.buffersize := by
  unfold writeCount bufEnd
  omega

theorem writeCount_le_count (count : ℕ) : d.writeCount count ≤ count :=
  Nat.min_le_left _ _

theorem length_take_writeCount (buf : List UInt8) :
    (buf.take (d.writeCount buf.length)).length = d.writeCount buf.length := by
  simpa using writeCount_le_count (d := d) buf.length

/-- Stored bytes that stay clear of `rp` do not touch the unread ones. -/
theorem Valid.unread_copyFromUser (h : d.Valid) {bytes : List UInt8}
    (hend : d.wp + bytes.length ≤ d.buffersize) (hfree : d.wp < d.rp → d.wp + bytes.length ≤ d.rp) :
    (d.copyFromUser bytes).unread = d.unread :=
  contents_store d.buffer h.rp_lt h.wp_lt hfree hend

/-- Storing bytes that fit and advancing `wp` appends them. -/
theorem Valid.unread_advanceWp (h : d.Valid) (bytes : List UInt8)
    (hend : d.wp + bytes.length ≤ d.buffersize)
    (hfit : d.unread.length + bytes.length < d.buffersize) :
    ((d.copyFromUser bytes).advanceWp bytes.length).unread = d.unread ++ bytes := by
  rw [unread, length_contents] at hfit
  exact contents_append d.buffer h.rp_lt h.wp_lt hfit hend

theorem Valid.unread_putByte (h : d.Valid) (byte : UInt8)
    (hfit : d.unread.length + 1 < d.buffersize) :
    (d.putByte byte).unread = d.unread ++ [byte] :=
  h.unread_advanceWp [byte] h.wp_lt hfit

theorem unread_wrapWpEq (hr : d.rp ≤ d.buffersize) : d.wrapWpEq.unread = d.unread := by
  unfold wrapWpEq bufEnd
  split_ifs with h
  · simp only [unread, h, contents_wrap_right d.buffer hr]
  · rfl

theorem valid_wrapWpEq (hr : d.rp < d.buffersize) (hw : d.wp ≤ d.buffersize) :
    d.wrapWpEq.Valid := by
  unfold wrapWpEq bufEnd
  split_ifs with h
  · exact ⟨hr, by simp only; omega⟩
  · exact ⟨hr, by omega⟩

/-- Up to `end` the two tests for wrapping `wp` agree. -/
theorem wrapWpGe_eq (hw : d.wp ≤ d.buffersize) : d.wrapWpGe = d.wrapWpEq := by
  unfold wrapWpGe wrapWpEq bufEnd
  by_cases h : d.wp = d.buffersize
  · rw [if_pos h.ge, if_pos h]
  · rw [if_neg (by omega), if_neg h]

/-! ## Whole critical sections -/

@[simp] theorem buffersize_putByte (byte : UInt8) : (d.putByte byte).buffersize = d.buffersize :=
  rfl

@[simp] theorem buffersize_wrapRp : d.wrapRp.buffersize = d.buffersize := by
  unfold wrapRp
  split_ifs <;> rfl

@[simp] theorem buffersize_wrapWpEq : d.wrapWpEq.buffersize = d.buffersize := by
  unfold wrapWpEq
  split_ifs <;> rfl

@[simp] theorem buffersize_wrapWpGe : d.wrapWpGe.buffersize = d.buffersize := by
  unfold wrapWpGe
  split_ifs <;> rfl

/-- One round of the copy loop, when a byte fits. -/
theorem Valid.putByte_wrapWpEq (h : d.Valid) (byte : UInt8)
    (hfit : d.unread.length + 1 < d.buffersize) :
    (d.putByte byte).wrapWpEq.Valid ∧ (d.putByte byte).wrapWpEq.unread = d.unread ++ [byte] :=
  ⟨valid_wrapWpEq h.rp_lt h.wp_lt,
    (unread_wrapWpEq (d := d.putByte byte) h.rp_lt.le).trans (h.unread_putByte byte hfit)⟩

/-- The copy loop appends the window's bytes, in order, when they fit. -/
theorem Valid.copyLoop (mem : ℕ → UInt8) {n : ℕ} :
    ∀ {i : ℕ} {d : PlatDummyDevice}, d.Valid → d.unread.length + n < d.buffersize →
      (PlatDummyDevice.copyLoop mem i n d).Valid ∧
        (PlatDummyDevice.copyLoop mem i n d).unread = d.unread ++ (List.range' i n).map mem := by
  induction n with
  | zero => exact fun h _ => ⟨h, by simp [PlatDummyDevice.copyLoop]⟩
  | succ n ih =>
    intro i d h hfit
    obtain ⟨hv, hu⟩ := h.putByte_wrapWpEq (mem i) (by omega)
    obtain ⟨hv', hu'⟩ := ih (i := i + 1) hv (by simp [hu]; omega)
    refine ⟨hv', ?_⟩
    rw [PlatDummyDevice.copyLoop, hu', hu, List.range'_succ]
    simp

/-- A read hands out the front of the unread bytes. -/
theorem Valid.platDummyRead (h : d.Valid) {count : ℕ} {bytes : List UInt8}
    {d' : PlatDummyDevice} (hread : d.platDummyRead count = some (bytes, d')) :
    d'.Valid ∧ d.unread = bytes ++ d'.unread := by
  unfold PlatDummyDevice.platDummyRead at hread
  split_ifs at hread with hne
  obtain ⟨rfl, rfl⟩ : d.copyToUser (d.readCount count) = bytes ∧
      (d.advanceRp (d.readCount count)).wrapRp = d' := by simpa using hread
  obtain ⟨hle, hend⟩ := h.readCount_le hne count
  exact ⟨valid_wrapRp hend h.wp_lt, by rw [unread_wrapRp, ← unread_advanceRp hend hle]⟩

theorem Valid.platDummyWrite (h : d.Valid) (buf : List UInt8) : (d.platDummyWrite buf).2.Valid := by
  have hend := writeCount_le h.wp_lt.le buf.length
  rw [PlatDummyDevice.platDummyWrite, wrapWpGe_eq hend]
  exact valid_wrapWpEq h.rp_lt hend

/-- A write whose bytes fit appends what it reports as written. -/
theorem Valid.unread_platDummyWrite (h : d.Valid) (buf : List UInt8)
    (hfit : d.unread.length + d.writeCount buf.length < d.buffersize) :
    (d.platDummyWrite buf).2.unread = d.unread ++ buf.take (d.platDummyWrite buf).1 := by
  have hend := writeCount_le h.wp_lt.le buf.length
  have hlen := length_take_writeCount (d := d) buf
  have happ := h.unread_advanceWp (buf.take (d.writeCount buf.length))
    (by rwa [hlen]) (by rwa [hlen])
  rw [hlen] at happ
  simp only [PlatDummyDevice.platDummyWrite]
  rw [wrapWpGe_eq hend]
  refine (unread_wrapWpEq ?_).trans happ
  exact h.rp_lt.le

/-- A write of a whole buffer to the empty ring takes every byte and leaves `rp = wp`. -/
theorem platDummyWrite_full {size : ℕ} {buf : List UInt8} (hlen : buf.length = size) :
    ((d.initDataBuffer size).platDummyWrite buf).1 = size ∧
      ((d.initDataBuffer size).platDummyWrite buf).2.unread = [] := by
  have hcount : (d.initDataBuffer size).writeCount buf.length = size := by
    simp [writeCount, bufEnd, initDataBuffer, hlen]
  simp only [PlatDummyDevice.platDummyWrite, hcount]
  simp [initDataBuffer, copyFromUser, advanceWp, wrapWpGe, bufEnd, unread]

/-- A poll that accepts a frame appends it; every other poll changes nothing. -/
theorem Valid.platDummyWork (h : d.Valid) (io : PlatIo) :
    (d.platDummyWork io).1.Valid ∧ (d.platDummyWork io).1.unread = d.unread ++
      if dataReady io.flag ∧ d.fits (clampSize io.size.toNat) then
        (List.range' 0 (clampSize io.size.toNat)).map io.mem else [] := by
  unfold PlatDummyDevice.platDummyWork
  by_cases hready : dataReady io.flag
  · by_cases hfit : d.fits (clampSize io.size.toNat)
    · simpa [hready, hfit] using h.copyLoop io.mem ((h.fits_iff _).1 hfit)
    · simp [hready, hfit, h]
  · simp [hready, h]

end PlatDummyDevice

end ProCamp
