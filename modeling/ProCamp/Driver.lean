import Mathlib.Logic.Function.Basic
import ProCamp.Kernel
import ProCamp.Machine
import ProCamp.Monitor
import ProCamp.PlatDummy
import ProCamp.WaitEvent

/-!
# The driver under any schedule

One device with any number of threads in `plat_dummy_read` and `plat_dummy_write`, its
delayed work `plat_dummy_work`, and user processes that store to the mapped window and
registers. An action is one step of one of them; between two actions any other can
run. A step reads or writes one thing the others can see : it takes or releases
`rd_mutex`, moves a pointer (the wrap to `buffer` is a step of its own), tests
`rp` against `wp`, reads or writes a register or a byte of the window. Code that only
touches locals is part of the step before it.

What the kernel decides is in the actions : `Input.signal` interrupts a lock or a
sleep, `Input.fault` makes a user copy fail. A `copy_from_user` fails after any number of
bytes short of all of them, and the kernel stores zeros for the others.

`delivered`, `frame` and `frames` are history : the bytes handed to readers, the bytes
of the frame being copied, and the frames copied whole.

`readerStep_move`, `writerStep_move` and `workStep_move` list what one step of each
thread can do. Everything proved about runs goes through them.
-/

namespace ProCamp

open PlatDummyDevice

/-- A thread in `plat_dummy_read`, with the line it is about to run. -/
inductive Reader where
  | idle
  /-- Lines 83 and 94. -/
  | lock (count : ℕ)
  /-- Line 88. -/
  | test (count : ℕ)
  /-- Line 89. -/
  | unlock (count : ℕ)
  /-- Line 91. -/
  | wait (count : ℕ) (w : WaitEvent)
  /-- Lines 100 to 105. -/
  | copy (count : ℕ)
  /-- Line 109. -/
  | advance (count : ℕ)
  /-- Lines 110 and 111. -/
  | wrap (count : ℕ)
  /-- Lines 106 and 112. -/
  | leave (ret : ℤ)
  | ret (ret : ℤ)
  deriving DecidableEq

/-- A thread in `plat_dummy_write`. -/
inductive Writer where
  | idle
  /-- Line 122. -/
  | lock (buf : List UInt8)
  /-- Lines 127 to 129. -/
  | copy (buf : List UInt8)
  /-- Line 133. -/
  | advance (count : ℕ)
  /-- Lines 134 and 135. -/
  | wrap (count : ℕ)
  /-- Lines 130 and 141. -/
  | leave (ret : ℤ)
  | ret (ret : ℤ)
  deriving DecidableEq

/-- How a run of `plat_dummy_work` ended. -/
inductive PollEnd where
  | noData
  | interrupted
  | noSpace
  | copied
  deriving DecidableEq

/-- The delayed work, in `plat_dummy_work` or queued again. -/
inductive Work where
  /-- Not running; the last run ended with `last`. -/
  | idle (last : PollEnd)
  /-- Line 202, with the flag found set. -/
  | lock (status : UInt32)
  /-- Lines 206 to 210. -/
  | size (status : UInt32)
  /-- Lines 212 to 214. -/
  | space (status : UInt32) (size : ℕ)
  /-- Line 215. -/
  | reject
  /-- Lines 219 and 220. -/
  | put (status : UInt32) (count i : ℕ)
  /-- Lines 222 and 223. -/
  | wrap (status : UInt32) (count i : ℕ)
  /-- Line 226. -/
  | unlock (status : UInt32)
  /-- Line 227. -/
  | wake (status : UInt32)
  /-- Lines 229 and 230. -/
  | clear (status : UInt32)
  /-- Line 233. -/
  | exit (last : PollEnd)
  deriving DecidableEq

/-- Who can hold `rd_mutex`. -/
inductive Agent where
  | reader (i : ℕ)
  | writer (i : ℕ)
  | work
  deriving DecidableEq

/-- A store of a user process to the mapped memory of the device. -/
inductive IoStore where
  | mem (offset : ℕ) (byte : UInt8)
  | size (value : UInt32)
  | flag (value : UInt32)

/-- The window and registers after a store. -/
def PlatIo.store (io : PlatIo) : IoStore → PlatIo
  | .mem offset byte => { io with mem := Function.update io.mem offset byte }
  | .size value => { io with size := value }
  | .flag value => { io with flag := value }

/-- The device, its threads, and the history of the ring. -/
structure Driver where
  dev : PlatDummyDevice
  io : PlatIo
  rdMutex : Option Agent
  readers : ℕ → Reader
  writers : ℕ → Writer
  work : Work
  /-- The bytes handed to readers, in lock order. -/
  delivered : List UInt8
  /-- The bytes the running copy loop has stored. -/
  frame : List UInt8
  /-- The frames copied whole. -/
  frames : List (List UInt8)

/-- One step of the system. -/
inductive Act where
  /-- Thread `i` calls `plat_dummy_read`. -/
  | callRead (i count : ℕ)
  /-- Thread `i` calls `plat_dummy_write`. -/
  | callWrite (i : ℕ) (buf : List UInt8)
  | reader (i : ℕ) (x : Input)
  | writer (i : ℕ) (x : Input)
  | work (x : Input)
  | store (st : IoStore)

/-- The thread a step belongs to. -/
def Act.agent : Act → Option Agent
  | .callRead i _ | .reader i _ => some (.reader i)
  | .callWrite i _ | .writer i _ => some (.writer i)
  | .work _ => some .work
  | .store _ => none

namespace Driver

/-- A device right after `dummy_init_data_buffer`, with a ring of `size` bytes. -/
def init (size : ℕ) (io : PlatIo) : Driver where
  dev := initDataBuffer ⟨0, fun _ => 0, 0, 0⟩ size
  io := io
  rdMutex := none
  readers _ := .idle
  writers _ := .idle
  work := .idle .noData
  delivered := []
  frame := []
  frames := []

/-- `s` with reader `i` at `pc`. -/
@[simps] def setReader (s : Driver) (i : ℕ) (pc : Reader) : Driver :=
  { s with readers := Function.update s.readers i pc }

/-- `s` with writer `i` at `pc`. -/
@[simps] def setWriter (s : Driver) (i : ℕ) (pc : Writer) : Driver :=
  { s with writers := Function.update s.writers i pc }

/-- A reader woken on `rwq`. -/
def wakeReader : Reader → Reader
  | .wait count w => .wait count w.wake
  | pc => pc

/-- A call starts where the thread is not in one. -/
def callReadStep (s : Driver) (i count : ℕ) : Option Driver :=
  match s.readers i with
  | .idle | .ret _ => some (s.setReader i (.lock count))
  | _ => none

/-- The same for `plat_dummy_write`. -/
def callWriteStep (s : Driver) (i : ℕ) (buf : List UInt8) : Option Driver :=
  match s.writers i with
  | .idle | .ret _ => some (s.setWriter i (.lock buf))
  | _ => none

/-- A step inside `wait_event_interruptible(rwq, rp != wp)`. -/
def readerWait (s : Driver) (i count : ℕ) (w : WaitEvent) (signal : Bool) : Option Driver :=
  (w.step (s.dev.rp != s.dev.wp) signal).map fun
    | .wait w' => s.setReader i (.wait count w')
    | .done => s.setReader i (.lock count)
    | .signalled => s.setReader i (.ret (-eRestartSys))

/-- One step of `plat_dummy_read`. -/
def readerStep (s : Driver) (i : ℕ) (x : Input) : Option Driver :=
  match s.readers i, x with
  | .lock count, .go =>
    if s.rdMutex = none then
      some { s.setReader i (.test count) with rdMutex := some (.reader i) }
    else none
  | .lock _, .signal => some (s.setReader i (.ret (-eRestartSys)))
  | .test count, .go =>
    some (s.setReader i (if s.dev.rp = s.dev.wp then .unlock count else .copy count))
  | .unlock count, .go => some { s.setReader i (.wait count .check) with rdMutex := none }
  | .wait count w, .go => s.readerWait i count w false
  | .wait count w, .signal => s.readerWait i count w true
  | .copy count, .go => some (s.setReader i (.advance (s.dev.readCount count)))
  | .copy _, .fault _ => some (s.setReader i (.leave (-eFault)))
  | .advance count, .go =>
    some { s.setReader i (.wrap count) with
      dev := s.dev.advanceRp count
      delivered := s.delivered ++ s.dev.copyToUser count }
  | .wrap count, .go => some { s.setReader i (.leave count) with dev := s.dev.wrapRp }
  | .leave r, .go => some { s.setReader i (.ret r) with rdMutex := none }
  | _, _ => none

/-- One step of `plat_dummy_write`. -/
def writerStep (s : Driver) (i : ℕ) (x : Input) : Option Driver :=
  match s.writers i, x with
  | .lock buf, .go =>
    if s.rdMutex = none then
      some { s.setWriter i (.copy buf) with rdMutex := some (.writer i) }
    else none
  | .lock _, .signal => some (s.setWriter i (.ret (-eRestartSys)))
  | .copy buf, .go =>
    some { s.setWriter i (.advance (s.dev.writeCount buf.length)) with
      dev := s.dev.copyFromUser (buf.take (s.dev.writeCount buf.length)) }
  | .copy buf, .fault stored =>
    if stored < s.dev.writeCount buf.length then
      some { s.setWriter i (.leave (-eFault)) with
        dev := s.dev.copyFromUser (faultedCopy buf (s.dev.writeCount buf.length) stored) }
    else none
  | .advance count, .go =>
    some { s.setWriter i (.wrap count) with dev := s.dev.advanceWp count }
  | .wrap count, .go => some { s.setWriter i (.leave count) with dev := s.dev.wrapWpGe }
  | .leave r, .go => some { s.setWriter i (.ret r) with rdMutex := none }
  | _, _ => none

/-- One step of `plat_dummy_work`. A queued work starts by sampling the flag. -/
def workStep (s : Driver) (x : Input) : Option Driver :=
  match s.work, x with
  | .idle _, .go =>
    some { s with work := if dataReady s.io.flag then .lock s.io.flag else .exit .noData }
  | .lock status, .go =>
    if s.rdMutex = none then some { s with work := .size status, rdMutex := some .work } else none
  | .lock _, .signal => some { s with work := .exit .interrupted }
  | .size status, .go => some { s with work := .space status (clampSize s.io.size.toNat) }
  | .space status size, .go =>
    some { s with work := if s.dev.fits size then .put status size 0 else .reject }
  | .reject, .go => some { s with work := .exit .noSpace, rdMutex := none }
  | .put status count i, .go =>
    if i < count then
      some { s with
        work := .wrap status count i
        dev := s.dev.putByte (s.io.mem i)
        frame := s.frame ++ [s.io.mem i] }
    else
      some { s with work := .unlock status, frames := s.frames ++ [s.frame], frame := [] }
  | .wrap status count i, .go =>
    some { s with work := .put status count (i + 1), dev := s.dev.wrapWpEq }
  | .unlock status, .go => some { s with work := .wake status, rdMutex := none }
  | .wake status, .go =>
    some { s with work := .clear status, readers := fun i => wakeReader (s.readers i) }
  | .clear status, .go =>
    some { s with work := .exit .copied, io := { s.io with flag := clearReady status } }
  | .exit last, .go => some { s with work := .idle last }
  | _, _ => none

/-- One step of the system. -/
def step (s : Driver) : Act → Option Driver
  | .callRead i count => s.callReadStep i count
  | .callWrite i buf => s.callWriteStep i buf
  | .reader i x => s.readerStep i x
  | .writer i x => s.writerStep i x
  | .work x => s.workStep x
  | .store st => some { s with io := s.io.store st }

/-! ## Runs of one call -/

/-- A write by thread 0 that nothing interrupts. -/
def writeRun (buf : List UInt8) : List Act :=
  .callWrite 0 buf :: List.replicate 5 (.writer 0 .go)

/-- A read by thread 0 that finds data. -/
def readRun (count : ℕ) : List Act :=
  .callRead 0 count :: List.replicate 6 (.reader 0 .go)

/-- A read by thread 0 of an empty ring, up to its sleep. -/
def blockRun (count : ℕ) : List Act :=
  .callRead 0 count :: List.replicate 7 (.reader 0 .go)

/-- Registers and window all zero. -/
def zeroIo : PlatIo :=
  ⟨fun _ => 0, 0, 0⟩

/-! ## What a step can do -/

/-- The steps of reader `i`. -/
inductive ReaderMove (s : Driver) (i : ℕ) : Driver → Prop
  | acquire {count : ℕ} (hpc : s.readers i = .lock count) (hfree : s.rdMutex = none) :
      ReaderMove s i { s.setReader i (.test count) with rdMutex := some (.reader i) }
  | interrupted {count : ℕ} (hpc : s.readers i = .lock count) :
      ReaderMove s i (s.setReader i (.ret (-eRestartSys)))
  | empty {count : ℕ} (hpc : s.readers i = .test count) (heq : s.dev.rp = s.dev.wp) :
      ReaderMove s i (s.setReader i (.unlock count))
  | found {count : ℕ} (hpc : s.readers i = .test count) (hne : s.dev.rp ≠ s.dev.wp) :
      ReaderMove s i (s.setReader i (.copy count))
  | release {count : ℕ} (hpc : s.readers i = .unlock count) :
      ReaderMove s i { s.setReader i (.wait count .check) with rdMutex := none }
  | wait {count : ℕ} {w w' : WaitEvent} {signal : Bool} (hpc : s.readers i = .wait count w)
      (hw : w.step (s.dev.rp != s.dev.wp) signal = some (.wait w')) :
      ReaderMove s i (s.setReader i (.wait count w'))
  | done {count : ℕ} {w : WaitEvent} (hpc : s.readers i = .wait count w) :
      ReaderMove s i (s.setReader i (.lock count))
  | signalled {count : ℕ} {w : WaitEvent} (hpc : s.readers i = .wait count w) :
      ReaderMove s i (s.setReader i (.ret (-eRestartSys)))
  | copy {count : ℕ} (hpc : s.readers i = .copy count) :
      ReaderMove s i (s.setReader i (.advance (s.dev.readCount count)))
  | fault {count : ℕ} (hpc : s.readers i = .copy count) :
      ReaderMove s i (s.setReader i (.leave (-eFault)))
  | advance {count : ℕ} (hpc : s.readers i = .advance count) :
      ReaderMove s i { s.setReader i (.wrap count) with
        dev := s.dev.advanceRp count
        delivered := s.delivered ++ s.dev.copyToUser count }
  | wrap {count : ℕ} (hpc : s.readers i = .wrap count) :
      ReaderMove s i { s.setReader i (.leave count) with dev := s.dev.wrapRp }
  | leave {r : ℤ} (hpc : s.readers i = .leave r) :
      ReaderMove s i { s.setReader i (.ret r) with rdMutex := none }

/-- The steps of writer `i` under the input `x`. -/
inductive WriterMove (s : Driver) (i : ℕ) : Input → Driver → Prop
  | acquire {buf : List UInt8} (hpc : s.writers i = .lock buf) (hfree : s.rdMutex = none) :
      WriterMove s i .go { s.setWriter i (.copy buf) with rdMutex := some (.writer i) }
  | interrupted {buf : List UInt8} (hpc : s.writers i = .lock buf) :
      WriterMove s i .signal (s.setWriter i (.ret (-eRestartSys)))
  | copy {buf : List UInt8} (hpc : s.writers i = .copy buf) :
      WriterMove s i .go { s.setWriter i (.advance (s.dev.writeCount buf.length)) with
        dev := s.dev.copyFromUser (buf.take (s.dev.writeCount buf.length)) }
  | fault {buf : List UInt8} {stored : ℕ} (hpc : s.writers i = .copy buf)
      (hlt : stored < s.dev.writeCount buf.length) :
      WriterMove s i (.fault stored) { s.setWriter i (.leave (-eFault)) with
        dev := s.dev.copyFromUser (faultedCopy buf (s.dev.writeCount buf.length) stored) }
  | advance {count : ℕ} (hpc : s.writers i = .advance count) :
      WriterMove s i .go { s.setWriter i (.wrap count) with dev := s.dev.advanceWp count }
  | wrap {count : ℕ} (hpc : s.writers i = .wrap count) :
      WriterMove s i .go { s.setWriter i (.leave count) with dev := s.dev.wrapWpGe }
  | leave {r : ℤ} (hpc : s.writers i = .leave r) :
      WriterMove s i .go { s.setWriter i (.ret r) with rdMutex := none }

/-- The steps of the delayed work. -/
inductive WorkMove (s : Driver) : Driver → Prop
  | noData {last : PollEnd} (hpc : s.work = .idle last) (hflag : dataReady s.io.flag = false) :
      WorkMove s { s with work := .exit .noData }
  | sample {last : PollEnd} (hpc : s.work = .idle last) (hflag : dataReady s.io.flag = true) :
      WorkMove s { s with work := .lock s.io.flag }
  | acquire {status : UInt32} (hpc : s.work = .lock status) (hfree : s.rdMutex = none) :
      WorkMove s { s with work := .size status, rdMutex := some .work }
  | interrupted {status : UInt32} (hpc : s.work = .lock status) :
      WorkMove s { s with work := .exit .interrupted }
  | size {status : UInt32} (hpc : s.work = .size status) :
      WorkMove s { s with work := .space status (clampSize s.io.size.toNat) }
  | fits {status : UInt32} {size : ℕ} (hpc : s.work = .space status size)
      (hfits : s.dev.fits size = true) : WorkMove s { s with work := .put status size 0 }
  | noSpace {status : UInt32} {size : ℕ} (hpc : s.work = .space status size)
      (hfits : s.dev.fits size = false) : WorkMove s { s with work := .reject }
  | reject (hpc : s.work = .reject) :
      WorkMove s { s with work := .exit .noSpace, rdMutex := none }
  | put {status : UInt32} {count i : ℕ} (hpc : s.work = .put status count i) (hi : i < count) :
      WorkMove s { s with
        work := .wrap status count i
        dev := s.dev.putByte (s.io.mem i)
        frame := s.frame ++ [s.io.mem i] }
  | copied {status : UInt32} {count i : ℕ} (hpc : s.work = .put status count i)
      (hi : count ≤ i) :
      WorkMove s { s with work := .unlock status, frames := s.frames ++ [s.frame], frame := [] }
  | wrap {status : UInt32} {count i : ℕ} (hpc : s.work = .wrap status count i) :
      WorkMove s { s with work := .put status count (i + 1), dev := s.dev.wrapWpEq }
  | release {status : UInt32} (hpc : s.work = .unlock status) :
      WorkMove s { s with work := .wake status, rdMutex := none }
  | wake {status : UInt32} (hpc : s.work = .wake status) :
      WorkMove s { s with work := .clear status, readers := fun i => wakeReader (s.readers i) }
  | clear {status : UInt32} (hpc : s.work = .clear status) :
      WorkMove s { s with work := .exit .copied, io := { s.io with flag := clearReady status } }
  | exit {last : PollEnd} (hpc : s.work = .exit last) : WorkMove s { s with work := .idle last }

variable {s t : Driver} {i : ℕ} {x : Input}

theorem callReadStep_eq {count : ℕ} (h : s.callReadStep i count = some t) :
    (s.readers i = .idle ∨ ∃ r, s.readers i = .ret r) ∧ t = s.setReader i (.lock count) := by
  unfold callReadStep at h
  split at h <;> simp_all

theorem callWriteStep_eq {buf : List UInt8} (h : s.callWriteStep i buf = some t) :
    (s.writers i = .idle ∨ ∃ r, s.writers i = .ret r) ∧ t = s.setWriter i (.lock buf) := by
  unfold callWriteStep at h
  split at h <;> simp_all

theorem readerWait_move {count : ℕ} {w : WaitEvent} {signal : Bool}
    (hpc : s.readers i = .wait count w) (h : s.readerWait i count w signal = some t) :
    ReaderMove s i t := by
  obtain ⟨r, hr, rfl⟩ := Option.map_eq_some_iff.1 h
  cases r with
  | wait w' => exact .wait hpc hr
  | done => exact .done hpc
  | signalled => exact .signalled hpc

theorem readerStep_move (h : s.readerStep i x = some t) : ReaderMove s i t := by
  unfold readerStep at h
  split at h
  case h_1 count hpc =>
    split_ifs at h with hfree
    cases h
    exact .acquire hpc hfree
  case h_2 hpc => cases h; exact .interrupted hpc
  case h_3 count hpc =>
    cases h
    split_ifs with heq
    · exact .empty hpc heq
    · exact .found hpc heq
  case h_4 hpc => cases h; exact .release hpc
  case h_5 hpc => exact readerWait_move hpc h
  case h_6 hpc => exact readerWait_move hpc h
  case h_7 hpc => cases h; exact .copy hpc
  case h_8 hpc => cases h; exact .fault hpc
  case h_9 hpc => cases h; exact .advance hpc
  case h_10 hpc => cases h; exact .wrap hpc
  case h_11 hpc => cases h; exact .leave hpc
  case h_12 => cases h

theorem writerStep_move (h : s.writerStep i x = some t) : WriterMove s i x t := by
  unfold writerStep at h
  split at h
  case h_1 hpc =>
    split_ifs at h with hfree
    cases h
    exact .acquire hpc hfree
  case h_2 hpc => cases h; exact .interrupted hpc
  case h_3 hpc => cases h; exact .copy hpc
  case h_4 hpc =>
    split_ifs at h with hlt
    cases h
    exact .fault hpc hlt
  case h_5 hpc => cases h; exact .advance hpc
  case h_6 hpc => cases h; exact .wrap hpc
  case h_7 hpc => cases h; exact .leave hpc
  case h_8 => cases h

theorem workStep_move (h : s.workStep x = some t) : WorkMove s t := by
  unfold workStep at h
  split at h
  case h_1 hpc =>
    cases h
    split_ifs with hflag
    · exact .sample hpc hflag
    · exact .noData hpc (by simpa using hflag)
  case h_2 hpc =>
    split_ifs at h with hfree
    cases h
    exact .acquire hpc hfree
  case h_3 hpc => cases h; exact .interrupted hpc
  case h_4 hpc => cases h; exact .size hpc
  case h_5 hpc =>
    cases h
    split_ifs with hfits
    · exact .fits hpc hfits
    · exact .noSpace hpc (by simpa using hfits)
  case h_6 hpc => cases h; exact .reject hpc
  case h_7 hpc =>
    split_ifs at h with hi
    · cases h
      exact .put hpc hi
    · cases h
      exact .copied hpc (by omega)
  case h_8 hpc => cases h; exact .wrap hpc
  case h_9 hpc => cases h; exact .release hpc
  case h_10 hpc => cases h; exact .wake hpc
  case h_11 hpc => cases h; exact .clear hpc
  case h_12 hpc => cases h; exact .exit hpc
  case h_13 => cases h

/-! ## What a step leaves alone -/

/-- A reader's step leaves the registers, the other threads and the frames alone. -/
theorem ReaderMove.frame (h : ReaderMove s i t) :
    t.io = s.io ∧ t.writers = s.writers ∧ t.work = s.work ∧ t.frame = s.frame ∧
      t.frames = s.frames ∧ ∀ j, j ≠ i → t.readers j = s.readers j := by
  cases h <;> exact ⟨rfl, rfl, rfl, rfl, rfl, fun j hj => Function.update_of_ne hj _ _⟩

theorem WriterMove.frame (h : WriterMove s i x t) :
    t.io = s.io ∧ t.readers = s.readers ∧ t.work = s.work ∧ t.delivered = s.delivered ∧
      t.frame = s.frame ∧ t.frames = s.frames ∧ ∀ j, j ≠ i → t.writers j = s.writers j := by
  cases h <;> exact ⟨rfl, rfl, rfl, rfl, rfl, rfl, fun j hj => Function.update_of_ne hj _ _⟩

theorem WorkMove.frame (h : WorkMove s t) :
    t.writers = s.writers ∧ t.delivered = s.delivered ∧
      (t.readers = s.readers ∨ t.readers = fun i => wakeReader (s.readers i)) := by
  cases h <;> simp

/-- What each thread relies on, given what a thread relies on at each of its lines. -/
def views {D : Type*} (reader : Reader → Option (D → Prop)) (writer : Writer → Option (D → Prop))
    (work : Work → Option (D → Prop)) (s : Driver) : Agent → Option (D → Prop)
  | .reader i => reader (s.readers i)
  | .writer i => writer (s.writers i)
  | .work => work s.work

/-- A step changes what its own thread relies on and nothing else; a wake-up moves only
readers that hold nothing. -/
theorem views_frame {D : Type*} (reader : Reader → Option (D → Prop))
    (writer : Writer → Option (D → Prop)) (work : Work → Option (D → Prop))
    (hwake : ∀ pc, reader (wakeReader pc) = reader pc) {y : Act} (h : s.step y = some t)
    {a : Agent} (ha : y.agent ≠ some a) :
    views reader writer work t a = views reader writer work s a := by
  cases y with
  | callRead i count =>
    obtain ⟨-, rfl⟩ := callReadStep_eq h
    cases a with
    | reader j =>
      have hji : j ≠ i := by simpa [Act.agent, eq_comm] using ha
      simp [views, Function.update_of_ne hji]
    | writer j => rfl
    | work => rfl
  | callWrite i buf =>
    obtain ⟨-, rfl⟩ := callWriteStep_eq h
    cases a with
    | reader j => rfl
    | writer j =>
      have hji : j ≠ i := by simpa [Act.agent, eq_comm] using ha
      simp [views, Function.update_of_ne hji]
    | work => rfl
  | reader i x =>
    obtain ⟨-, hwriters, hwork, -, -, hreaders⟩ := (readerStep_move h).frame
    cases a with
    | reader j => simp only [views, hreaders j (by simpa [Act.agent, eq_comm] using ha)]
    | writer j => simp only [views, hwriters]
    | work => simp only [views, hwork]
  | writer i x =>
    obtain ⟨-, hreaders, hwork, -, -, -, hwriters⟩ := (writerStep_move h).frame
    cases a with
    | reader j => simp only [views, hreaders]
    | writer j => simp only [views, hwriters j (by simpa [Act.agent, eq_comm] using ha)]
    | work => simp only [views, hwork]
  | work x =>
    obtain ⟨hwriters, -, hreaders⟩ := (workStep_move h).frame
    cases a with
    | reader j => obtain hr | hr := hreaders <;> simp [views, hr, hwake]
    | writer j => simp only [views, hwriters]
    | work => exact absurd rfl ha
  | store st =>
    obtain rfl : _ = t := by simpa [step] using h
    cases a <;> rfl

/-- Only the work and stores of user processes touch the registers, the work's own state
and the frames. -/
theorem frame_of_not_work {y : Act} (h : s.step y = some t) (hwork : ∀ x, y ≠ .work x)
    (hstore : ∀ st, y ≠ .store st) :
    t.io = s.io ∧ t.work = s.work ∧ t.frame = s.frame ∧ t.frames = s.frames := by
  cases y with
  | callRead i count =>
    obtain ⟨-, rfl⟩ := callReadStep_eq h
    exact ⟨rfl, rfl, rfl, rfl⟩
  | callWrite i buf =>
    obtain ⟨-, rfl⟩ := callWriteStep_eq h
    exact ⟨rfl, rfl, rfl, rfl⟩
  | reader i x =>
    obtain ⟨hio, -, hw, hframe, hframes, -⟩ := (readerStep_move h).frame
    exact ⟨hio, hw, hframe, hframes⟩
  | writer i x =>
    obtain ⟨hio, -, hw, -, hframe, hframes, -⟩ := (writerStep_move h).frame
    exact ⟨hio, hw, hframe, hframes⟩
  | work x => exact absurd rfl (hwork x)
  | store st => exact absurd rfl (hstore st)

end Driver

end ProCamp
