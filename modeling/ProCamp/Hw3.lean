import Mathlib.Logic.Function.Basic
import ProCamp.Kernel
import ProCamp.Machine
import ProCamp.Monitor
import ProCamp.WaitEvent

/-!
# The button and LED driver under any schedule

One `struct hw3` of `HW16/module3/hw3.c` with its interrupt handler, any number of
processes in `hw3_read`, `hw3_write`, `hw3_poll` and `hw3_ioctl`, and the last
statement of `hw3_probe`, which runs with the interrupt and the misc device already
live. As in `Driver`, an action is one step of one of them, and a step reads or writes
one thing the others can see.

Each function has its program points, a step function on what all of them share
(`Shared`) and a list of its moves (`ReadMove`, `WriteMove`, `PollMove`, `IoctlMove`,
`IsrMove`). `Board.step_cases` gathers them.

The log is history, the latest event first : a button level sampled, an event read, a
poll answered, each at the step of its critical section that decides it.
-/

namespace ProCamp

/-- The value of a `!!`, and the level of a pin. -/
abbrev Bit :=
  { v : Int32 // v = 0 ∨ v = 1 }

/-- `!!val`. -/
def truth (val : Int32) : Bit :=
  if val = 0 then ⟨0, Or.inl rfl⟩ else ⟨1, Or.inr rfl⟩

/-- `struct hw3`, the fields its functions share, with the level of `led_gpio`. -/
structure Hw3 where
  ledOn : Int32
  btnOn : Int32
  control : Int32
  dataReady : Bool
  /-- The level last driven on `led_gpio`. -/
  led : Bit
  deriving DecidableEq

/-- `gpiod_set_value(hw3->led_gpio, value)`. -/
def Hw3.gpiodSetValue (h : Hw3) (value : Int32) : Hw3 :=
  { h with led := truth value }

/-- `hw3->btn_on ? "1" : "0"`. -/
def charOf (btnOn : Int32) : UInt8 :=
  if btnOn = 0 then 48 else 49

/-- `kstrtol` in base 0, on a string of at most one character : only a digit is a number. -/
def kstrtol : List UInt8 → Option Int32
  | [c] => if 48 ≤ c ∧ c ≤ 57 then some (Int32.ofNat (c.toNat - 48)) else none
  | _ => none

/-- Lines 89 to 93 of `hw3_write` : the value of the buffer, cut after one character. -/
def writeValue (kbuf : Vector UInt8 10) : Option Bit :=
  (kstrtol ((kbuf.set 1 0).toList.takeWhile (· ≠ 0))).map truth

/-- Who can hold `hw3->lock`. -/
inductive LockHolder where
  | isr
  | proc (i : ℕ)
  deriving DecidableEq

/-- An entry of the log. -/
inductive ButtonEvent where
  /-- The handler sampled `level`. -/
  | isr (level : Int32)
  /-- Process `i` took the event and will hand out `val`. -/
  | read (i : ℕ) (val : UInt8)
  /-- Process `i` computed `mask`. -/
  | poll (i : ℕ) (mask : UInt32)
  deriving DecidableEq

/-- What the handler and the processes share. -/
structure Shared where
  dev : Hw3
  lock : Option LockHolder
  log : List ButtonEvent

/-- `spin_lock_irqsave`. -/
def Shared.acquire (s : Shared) (me : LockHolder) : Option Shared :=
  if s.lock = none then some { s with lock := some me } else none

/-- `spin_unlock_irqrestore`. -/
def Shared.release (s : Shared) : Shared :=
  { s with lock := none }

/-! ## Program points -/

/-- `hw3_btn_isr`, with the line it is about to run. -/
inductive Isr where
  /-- Between interrupts. -/
  | idle
  /-- Line 176. -/
  | lock
  /-- Line 177. -/
  | ready
  /-- Line 178. -/
  | sample
  /-- Line 179. -/
  | test
  /-- Line 180. -/
  | toggle
  /-- Line 181. -/
  | drive
  /-- Line 183. -/
  | unlock
  /-- Line 185. -/
  | wake
  deriving DecidableEq

/-- `hw3_read`. -/
inductive ReadPc where
  /-- Lines 53 and 60. -/
  | lock
  /-- Line 54. -/
  | test
  /-- Lines 55 to 57. -/
  | release
  /-- Line 58. -/
  | wait (w : WaitEvent)
  /-- Line 63. -/
  | take
  /-- Line 64. -/
  | clear (val : UInt8)
  /-- Line 65. -/
  | unlock (val : UInt8)
  /-- Line 68. -/
  | copy (val : UInt8)
  deriving DecidableEq

/-- `hw3_write`. -/
inductive WritePc where
  /-- Line 86, with the bytes at `buf`. -/
  | copy (kbuf : Vector UInt8 10)
  /-- Line 95. -/
  | lock (val : Bit)
  /-- Line 96. -/
  | test (val : Bit)
  /-- Line 97. -/
  | set (val : Bit)
  /-- Line 98. -/
  | drive (val : Bit)
  /-- Line 100. -/
  | unlock (val : Bit)
  deriving DecidableEq

/-- `hw3_poll` and its caller. `triggered` says that a `wake_up` came since the caller
last looked. -/
inductive PollPc where
  /-- Line 111. -/
  | wait
  /-- Line 113. -/
  | lock (triggered : Bool)
  /-- Lines 114 and 115. -/
  | test (triggered : Bool)
  /-- Line 116. -/
  | unlock (mask : UInt32) (triggered : Bool)
  /-- `hw3_poll` has returned `mask`; the caller is still on the wait queue. -/
  | polled (mask : UInt32) (triggered : Bool)
  deriving DecidableEq

/-- The commands of `hw3_ioctl`. -/
inductive IoctlCmd where
  | setLed
  | getLed
  | kernControl
  | other
  deriving DecidableEq

/-- `hw3_ioctl`. -/
inductive IoctlPc where
  /-- Line 129, with the int at `arg`. -/
  | setGet (val : Int32)
  /-- Line 132. -/
  | setLock (val : Int32)
  /-- Line 133. -/
  | set (val : Int32)
  /-- Line 134. -/
  | setDrive
  /-- Line 135. -/
  | setUnlock
  /-- Line 139. -/
  | getLock
  /-- Line 140. -/
  | get
  /-- Line 141. -/
  | getUnlock (val : Int32)
  /-- Line 143. -/
  | put (val : Int32)
  /-- Line 145, with the int at `arg`. -/
  | controlGet (val : Int32)
  /-- Line 148. -/
  | controlLock (val : Int32)
  /-- Line 149. -/
  | control (val : Int32)
  /-- Line 150. -/
  | controlUnlock
  deriving DecidableEq

/-- What a call stored in user memory. -/
inductive UserStore where
  | none
  | bytes (bytes : List UInt8)
  | int (val : Int32)
  deriving DecidableEq

/-- A process. -/
inductive Proc where
  | idle
  | read (nonblock : Bool) (pc : ReadPc)
  | write (count : ℕ) (pc : WritePc)
  | poll (pc : PollPc)
  | ioctl (pc : IoctlPc)
  | ret (r : ℤ) (stored : UserStore)
  deriving DecidableEq

/-- A call of a file operation. -/
inductive Call where
  | read (nonblock : Bool)
  | write (kbuf : Vector UInt8 10) (count : ℕ)
  | poll
  | ioctl (cmd : IoctlCmd) (val : Int32)

/-- The program point a call starts at. -/
def Call.start : Call → Proc
  | .read nonblock => .read nonblock .lock
  | .write kbuf count => .write count (.copy kbuf)
  | .poll => .poll .wait
  | .ioctl .setLed val => .ioctl (.setGet val)
  | .ioctl .getLed _ => .ioctl .getLock
  | .ioctl .kernControl val => .ioctl (.controlGet val)
  | .ioctl .other _ => .ret (-eNoTty) .none

/-- A process woken on `hw3->wait`. -/
def Proc.wake : Proc → Proc
  | .read nonblock (.wait w) => .read nonblock (.wait w.wake)
  | .poll (.lock _) => .poll (.lock true)
  | .poll (.test _) => .poll (.test true)
  | .poll (.unlock mask _) => .poll (.unlock mask true)
  | .poll (.polled mask _) => .poll (.polled mask true)
  | p => p

/-! ## The functions -/

/-- A step inside `wait_event_interruptible(hw3->wait, hw3->data_ready)`. -/
def readWait (s : Shared) (nonblock : Bool) (w : WaitEvent) (signal : Bool) :
    Option (Shared × Proc) :=
  (w.step s.dev.dataReady signal).map fun
    | .wait w' => (s, .read nonblock (.wait w'))
    | .done => (s, .read nonblock .lock)
    | .signalled => (s, .ret (-eRestartSys) .none)

/-- One step of `hw3_read` by process `i`. -/
def readStep (i : ℕ) (nonblock : Bool) (s : Shared) : ReadPc → Input → Option (Shared × Proc)
  | .lock, .go => (s.acquire (.proc i)).map (·, .read nonblock .test)
  | .test, .go => some (s, .read nonblock (if s.dev.dataReady then .take else .release))
  | .release, .go =>
    some (s.release, if nonblock then .ret (-eAgain) .none else .read nonblock (.wait .check))
  | .wait w, .go => readWait s nonblock w false
  | .wait w, .signal => readWait s nonblock w true
  | .take, .go => some (s, .read nonblock (.clear (charOf s.dev.btnOn)))
  | .clear val, .go =>
    some ({ s with dev := { s.dev with dataReady := false }, log := .read i val :: s.log },
      .read nonblock (.unlock val))
  | .unlock val, .go => some (s.release, .read nonblock (.copy val))
  | .copy val, .go => some (s, .ret 2 (.bytes [val, 0]))
  | .copy _, .fault _ => some (s, .ret (-eFault) .none)
  | _, _ => none

/-- One step of `hw3_write` by process `i`. -/
def writeStep (i count : ℕ) (s : Shared) : WritePc → Input → Option (Shared × Proc)
  | .copy kbuf, .go =>
    some (s, match writeValue kbuf with
      | none => .ret (-eInval) .none
      | some val => .write count (.lock val))
  | .copy _, .fault _ => some (s, .ret (-eFault) .none)
  | .lock val, .go => (s.acquire (.proc i)).map (·, .write count (.test val))
  | .test val, .go =>
    some (s, .write count (if s.dev.ledOn ≠ val then .set val else .unlock val))
  | .set val, .go =>
    some ({ s with dev := { s.dev with ledOn := val } }, .write count (.drive val))
  | .drive val, .go =>
    some ({ s with dev := s.dev.gpiodSetValue s.dev.ledOn }, .write count (.unlock val))
  | .unlock _, .go => some (s.release, .ret count .none)
  | _, _ => none

/-- One step of `hw3_poll` by process `i`, or of its caller : woken, it calls `hw3_poll`
again, still on the wait queue; `signal` is whatever makes it leave. -/
def pollStep (i : ℕ) (s : Shared) : PollPc → Input → Option (Shared × Proc)
  | .wait, .go => some (s, .poll (.lock false))
  | .lock triggered, .go => (s.acquire (.proc i)).map (·, .poll (.test triggered))
  | .test triggered, .go =>
    let mask := if s.dev.dataReady then epollIn ||| epollRdNorm else 0
    some ({ s with log := .poll i mask :: s.log }, .poll (.unlock mask triggered))
  | .unlock mask triggered, .go => some (s.release, .poll (.polled mask triggered))
  | .polled _ true, .go => some (s, .poll (.lock false))
  | .polled _ _, .signal => some (s, .idle)
  | _, _ => none

/-- One step of `hw3_ioctl` by process `i`. -/
def ioctlStep (i : ℕ) (s : Shared) : IoctlPc → Input → Option (Shared × Proc)
  | .setGet val, .go => some (s, .ioctl (.setLock val))
  | .setGet _, .fault _ => some (s, .ret (-eFault) .none)
  | .setLock val, .go => (s.acquire (.proc i)).map (·, .ioctl (.set val))
  | .set val, .go =>
    some ({ s with dev := { s.dev with ledOn := truth val } }, .ioctl .setDrive)
  | .setDrive, .go =>
    some ({ s with dev := s.dev.gpiodSetValue s.dev.ledOn }, .ioctl .setUnlock)
  | .setUnlock, .go => some (s.release, .ioctl .getLock)
  | .getLock, .go => (s.acquire (.proc i)).map (·, .ioctl .get)
  | .get, .go => some (s, .ioctl (.getUnlock s.dev.ledOn))
  | .getUnlock val, .go => some (s.release, .ioctl (.put val))
  | .put val, .go => some (s, .ret 0 (.int val))
  | .put _, .fault _ => some (s, .ret (-eFault) .none)
  | .controlGet val, .go => some (s, .ioctl (.controlLock val))
  | .controlGet _, .fault _ => some (s, .ret (-eFault) .none)
  | .controlLock val, .go => (s.acquire (.proc i)).map (·, .ioctl (.control val))
  | .control val, .go =>
    some ({ s with dev := { s.dev with control := truth val } }, .ioctl .controlUnlock)
  | .controlUnlock, .go => some (s.release, .ret 0 .none)
  | _, _ => none

/-- One step of process `i` at `p`. -/
def procStep (i : ℕ) (s : Shared) : Proc → Input → Option (Shared × Proc)
  | .read nonblock pc, x => readStep i nonblock s pc x
  | .write count pc, x => writeStep i count s pc x
  | .poll pc, x => pollStep i s pc x
  | .ioctl pc, x => ioctlStep i s pc x
  | .idle, _ => none
  | .ret _ _, _ => none

/-- The driver and all that run in it. -/
structure Board where
  sh : Shared
  isr : Isr
  procs : ℕ → Proc
  /-- `hw3_probe` has returned. -/
  probed : Bool

/-- One step of the driver. -/
inductive BoardAct where
  /-- Process `i` calls a file operation. -/
  | call (i : ℕ) (c : Call)
  | proc (i : ℕ) (x : Input)
  /-- The interrupt handler; `level` is what the button line shows. -/
  | isr (level : Int32)
  /-- Line 249 of `hw3_probe` : `gpiod_set_value(hw3->led_gpio, 0)`. -/
  | probe

namespace Board

/-- The fields as line 205 leaves them, and nothing running. -/
def init : Board where
  sh := ⟨⟨0, 0, 1, false, truth 0⟩, none, []⟩
  isr := .idle
  procs _ := .idle
  probed := false

/-- A call starts where the process is not in one. -/
def callStep (b : Board) (i : ℕ) (c : Call) : Option Board :=
  match b.procs i with
  | .idle | .ret _ _ => some { b with procs := Function.update b.procs i c.start }
  | _ => none

/-- One step of `hw3_btn_isr`. -/
def isrStep (b : Board) (level : Int32) : Option Board :=
  match b.isr with
  | .idle => some { b with isr := .lock }
  | .lock => (b.sh.acquire .isr).map fun sh => { b with sh, isr := .ready }
  | .ready =>
    some { b with sh := { b.sh with dev := { b.sh.dev with dataReady := true } }, isr := .sample }
  | .sample =>
    some { b with
      sh := { b.sh with dev := { b.sh.dev with btnOn := level }, log := .isr level :: b.sh.log }
      isr := .test }
  | .test =>
    some { b with isr := if b.sh.dev.btnOn ≠ 0 ∧ b.sh.dev.control ≠ 0 then .toggle else .unlock }
  | .toggle =>
    some { b with
      sh := { b.sh with dev := { b.sh.dev with ledOn := b.sh.dev.ledOn ^^^ 1 } }
      isr := .drive }
  | .drive =>
    some { b with
      sh := { b.sh with dev := b.sh.dev.gpiodSetValue b.sh.dev.ledOn }
      isr := .unlock }
  | .unlock => some { b with sh := b.sh.release, isr := .wake }
  | .wake => some { b with isr := .idle, procs := fun i => (b.procs i).wake }

/-- One step of the driver. -/
def step (b : Board) : BoardAct → Option Board
  | .call i c => b.callStep i c
  | .proc i x =>
    (procStep i b.sh (b.procs i) x).map fun r =>
      { b with sh := r.1, procs := Function.update b.procs i r.2 }
  | .isr level => b.isrStep level
  | .probe =>
    if b.probed then none
    else some { b with
      sh := { b.sh with dev := b.sh.dev.gpiodSetValue 0 }
      probed := true }

end Board

/-! ## What a step can do -/

/-- The steps of process `i` in `hw3_read`. -/
inductive ReadMove (i : ℕ) (nonblock : Bool) (s : Shared) : ReadPc → Shared → Proc → Prop
  | acquire (hfree : s.lock = none) :
      ReadMove i nonblock s .lock { s with lock := some (.proc i) } (.read nonblock .test)
  | found (hready : s.dev.dataReady = true) :
      ReadMove i nonblock s .test s (.read nonblock .take)
  | empty (hready : s.dev.dataReady = false) :
      ReadMove i nonblock s .test s (.read nonblock .release)
  | again (hnb : nonblock = true) :
      ReadMove i nonblock s .release s.release (.ret (-eAgain) .none)
  | release (hnb : nonblock = false) :
      ReadMove i nonblock s .release s.release (.read nonblock (.wait .check))
  | wait {w w' : WaitEvent} {signal : Bool}
      (hw : w.step s.dev.dataReady signal = some (.wait w')) :
      ReadMove i nonblock s (.wait w) s (.read nonblock (.wait w'))
  | done {w : WaitEvent} : ReadMove i nonblock s (.wait w) s (.read nonblock .lock)
  | signalled {w : WaitEvent} : ReadMove i nonblock s (.wait w) s (.ret (-eRestartSys) .none)
  | take : ReadMove i nonblock s .take s (.read nonblock (.clear (charOf s.dev.btnOn)))
  | clear {val : UInt8} :
      ReadMove i nonblock s (.clear val)
        { s with dev := { s.dev with dataReady := false }, log := .read i val :: s.log }
        (.read nonblock (.unlock val))
  | unlock {val : UInt8} :
      ReadMove i nonblock s (.unlock val) s.release (.read nonblock (.copy val))
  | copy {val : UInt8} : ReadMove i nonblock s (.copy val) s (.ret 2 (.bytes [val, 0]))
  | fault {val : UInt8} : ReadMove i nonblock s (.copy val) s (.ret (-eFault) .none)

/-- The steps of process `i` in `hw3_write`. -/
inductive WriteMove (i count : ℕ) (s : Shared) : WritePc → Shared → Proc → Prop
  | invalid {kbuf : Vector UInt8 10} (hval : writeValue kbuf = none) :
      WriteMove i count s (.copy kbuf) s (.ret (-eInval) .none)
  | copy {kbuf : Vector UInt8 10} {val : Bit} (hval : writeValue kbuf = some val) :
      WriteMove i count s (.copy kbuf) s (.write count (.lock val))
  | fault {kbuf : Vector UInt8 10} : WriteMove i count s (.copy kbuf) s (.ret (-eFault) .none)
  | acquire {val : Bit} (hfree : s.lock = none) :
      WriteMove i count s (.lock val) { s with lock := some (.proc i) } (.write count (.test val))
  | differs {val : Bit} (hne : s.dev.ledOn ≠ val) :
      WriteMove i count s (.test val) s (.write count (.set val))
  | skip {val : Bit} (heq : s.dev.ledOn = val) :
      WriteMove i count s (.test val) s (.write count (.unlock val))
  | set {val : Bit} :
      WriteMove i count s (.set val) { s with dev := { s.dev with ledOn := val } }
        (.write count (.drive val))
  | drive {val : Bit} :
      WriteMove i count s (.drive val) { s with dev := s.dev.gpiodSetValue s.dev.ledOn }
        (.write count (.unlock val))
  | unlock {val : Bit} : WriteMove i count s (.unlock val) s.release (.ret count .none)

/-- The steps of process `i` in `hw3_poll` and of its caller. -/
inductive PollMove (i : ℕ) (s : Shared) : PollPc → Shared → Proc → Prop
  | wait : PollMove i s .wait s (.poll (.lock false))
  | acquire {triggered : Bool} (hfree : s.lock = none) :
      PollMove i s (.lock triggered) { s with lock := some (.proc i) } (.poll (.test triggered))
  | test {triggered : Bool} {mask : UInt32}
      (hmask : mask = if s.dev.dataReady then epollIn ||| epollRdNorm else 0) :
      PollMove i s (.test triggered) { s with log := .poll i mask :: s.log }
        (.poll (.unlock mask triggered))
  | unlock {mask : UInt32} {triggered : Bool} :
      PollMove i s (.unlock mask triggered) s.release (.poll (.polled mask triggered))
  | again {mask : UInt32} : PollMove i s (.polled mask true) s (.poll (.lock false))
  | leave {mask : UInt32} {triggered : Bool} : PollMove i s (.polled mask triggered) s .idle

/-- The steps of process `i` in `hw3_ioctl`. -/
inductive IoctlMove (i : ℕ) (s : Shared) : IoctlPc → Shared → Proc → Prop
  | setGet {val : Int32} : IoctlMove i s (.setGet val) s (.ioctl (.setLock val))
  | setFault {val : Int32} : IoctlMove i s (.setGet val) s (.ret (-eFault) .none)
  | setLock {val : Int32} (hfree : s.lock = none) :
      IoctlMove i s (.setLock val) { s with lock := some (.proc i) } (.ioctl (.set val))
  | set {val : Int32} :
      IoctlMove i s (.set val) { s with dev := { s.dev with ledOn := truth val } }
        (.ioctl .setDrive)
  | setDrive :
      IoctlMove i s .setDrive { s with dev := s.dev.gpiodSetValue s.dev.ledOn }
        (.ioctl .setUnlock)
  | setUnlock : IoctlMove i s .setUnlock s.release (.ioctl .getLock)
  | getLock (hfree : s.lock = none) :
      IoctlMove i s .getLock { s with lock := some (.proc i) } (.ioctl .get)
  | get : IoctlMove i s .get s (.ioctl (.getUnlock s.dev.ledOn))
  | getUnlock {val : Int32} : IoctlMove i s (.getUnlock val) s.release (.ioctl (.put val))
  | put {val : Int32} : IoctlMove i s (.put val) s (.ret 0 (.int val))
  | putFault {val : Int32} : IoctlMove i s (.put val) s (.ret (-eFault) .none)
  | controlGet {val : Int32} : IoctlMove i s (.controlGet val) s (.ioctl (.controlLock val))
  | controlFault {val : Int32} : IoctlMove i s (.controlGet val) s (.ret (-eFault) .none)
  | controlLock {val : Int32} (hfree : s.lock = none) :
      IoctlMove i s (.controlLock val) { s with lock := some (.proc i) } (.ioctl (.control val))
  | control {val : Int32} :
      IoctlMove i s (.control val) { s with dev := { s.dev with control := truth val } }
        (.ioctl .controlUnlock)
  | controlUnlock : IoctlMove i s .controlUnlock s.release (.ret 0 .none)

/-- The steps of a process. -/
inductive ProcMove (i : ℕ) (s : Shared) : Proc → Shared → Proc → Prop
  | read {nonblock : Bool} {pc : ReadPc} {s' : Shared} {p' : Proc}
      (h : ReadMove i nonblock s pc s' p') : ProcMove i s (.read nonblock pc) s' p'
  | write {count : ℕ} {pc : WritePc} {s' : Shared} {p' : Proc}
      (h : WriteMove i count s pc s' p') : ProcMove i s (.write count pc) s' p'
  | poll {pc : PollPc} {s' : Shared} {p' : Proc}
      (h : PollMove i s pc s' p') : ProcMove i s (.poll pc) s' p'
  | ioctl {pc : IoctlPc} {s' : Shared} {p' : Proc}
      (h : IoctlMove i s pc s' p') : ProcMove i s (.ioctl pc) s' p'

/-- The steps of the handler, from its own program point : the shared state and the next
one. The wake-up of line 185 also changes the processes. -/
inductive IsrMove (s : Shared) (level : Int32) : Isr → Shared → Isr → Prop
  | enter : IsrMove s level .idle s .lock
  | acquire (hfree : s.lock = none) :
      IsrMove s level .lock { s with lock := some .isr } .ready
  | ready : IsrMove s level .ready { s with dev := { s.dev with dataReady := true } } .sample
  | sample :
      IsrMove s level .sample
        { s with dev := { s.dev with btnOn := level }, log := .isr level :: s.log } .test
  | toggles (hbtn : s.dev.btnOn ≠ 0 ∧ s.dev.control ≠ 0) : IsrMove s level .test s .toggle
  | skips (hbtn : ¬(s.dev.btnOn ≠ 0 ∧ s.dev.control ≠ 0)) : IsrMove s level .test s .unlock
  | toggle :
      IsrMove s level .toggle { s with dev := { s.dev with ledOn := s.dev.ledOn ^^^ 1 } } .drive
  | drive : IsrMove s level .drive { s with dev := s.dev.gpiodSetValue s.dev.ledOn } .unlock
  | unlock : IsrMove s level .unlock s.release .wake
  | wake : IsrMove s level .wake s .idle

variable {i : ℕ} {s s' : Shared} {p p' : Proc} {x : Input}

theorem acquire_eq_some {me : LockHolder} {α : Type*} {a b : α}
    (h : (s.acquire me).map (·, a) = some (s', b)) :
    s.lock = none ∧ s' = { s with lock := some me } ∧ b = a := by
  unfold Shared.acquire at h
  split_ifs at h with hfree
  · cases h
    exact ⟨hfree, rfl, rfl⟩
  · cases h

theorem readWait_move {nonblock signal : Bool} {w : WaitEvent}
    (h : readWait s nonblock w signal = some (s', p')) :
    ReadMove i nonblock s (.wait w) s' p' := by
  obtain ⟨r, hr, heq⟩ := Option.map_eq_some_iff.1 h
  cases r with
  | wait w' => cases heq; exact .wait hr
  | done => cases heq; exact .done
  | signalled => cases heq; exact .signalled

theorem readStep_move {nonblock : Bool} {pc : ReadPc}
    (h : readStep i nonblock s pc x = some (s', p')) : ReadMove i nonblock s pc s' p' := by
  unfold readStep at h
  split at h
  case h_1 =>
    obtain ⟨hfree, rfl, rfl⟩ := acquire_eq_some h
    exact .acquire hfree
  case h_2 =>
    cases h
    split_ifs with hready
    · exact .found hready
    · exact .empty (by simpa using hready)
  case h_3 =>
    cases h
    split_ifs with hnb
    · exact .again hnb
    · exact .release (by simpa using hnb)
  case h_4 => exact readWait_move h
  case h_5 => exact readWait_move h
  case h_6 => cases h; exact .take
  case h_7 => cases h; exact .clear
  case h_8 => cases h; exact .unlock
  case h_9 => cases h; exact .copy
  case h_10 => cases h; exact .fault
  case h_11 => cases h

theorem writeStep_move {count : ℕ} {pc : WritePc}
    (h : writeStep i count s pc x = some (s', p')) : WriteMove i count s pc s' p' := by
  unfold writeStep at h
  split at h
  case h_1 kbuf =>
    cases h
    cases hval : writeValue kbuf with
    | none => exact .invalid hval
    | some val => exact .copy hval
  case h_2 => cases h; exact .fault
  case h_3 =>
    obtain ⟨hfree, rfl, rfl⟩ := acquire_eq_some h
    exact .acquire hfree
  case h_4 =>
    cases h
    split_ifs with hne
    · exact .differs hne
    · exact .skip (not_not.1 hne)
  case h_5 => cases h; exact .set
  case h_6 => cases h; exact .drive
  case h_7 => cases h; exact .unlock
  case h_8 => cases h

theorem pollStep_move {pc : PollPc} (h : pollStep i s pc x = some (s', p')) :
    PollMove i s pc s' p' := by
  unfold pollStep at h
  split at h
  case h_1 => cases h; exact .wait
  case h_2 =>
    obtain ⟨hfree, rfl, rfl⟩ := acquire_eq_some h
    exact .acquire hfree
  case h_3 => cases h; exact .test rfl
  case h_4 => cases h; exact .unlock
  case h_5 => cases h; exact .again
  case h_6 => cases h; exact .leave
  case h_7 => cases h

theorem ioctlStep_move {pc : IoctlPc} (h : ioctlStep i s pc x = some (s', p')) :
    IoctlMove i s pc s' p' := by
  unfold ioctlStep at h
  split at h
  case h_3 | h_7 | h_14 =>
    obtain ⟨hfree, rfl, rfl⟩ := acquire_eq_some h
    constructor
    exact hfree
  case h_17 => cases h
  all_goals
    cases h
    constructor

theorem procStep_move (h : procStep i s p x = some (s', p')) : ProcMove i s p s' p' := by
  cases p with
  | idle => cases h
  | ret r stored => cases h
  | read nonblock pc => exact .read (readStep_move h)
  | write count pc => exact .write (writeStep_move h)
  | poll pc => exact .poll (pollStep_move h)
  | ioctl pc => exact .ioctl (ioctlStep_move h)

namespace Board

variable {b t : Board}

theorem callStep_eq {c : Call} (h : b.callStep i c = some t) :
    (b.procs i = .idle ∨ ∃ r stored, b.procs i = .ret r stored) ∧
      t = { b with procs := Function.update b.procs i c.start } := by
  unfold callStep at h
  split at h <;> simp_all

/-- The processes after a step of the handler. -/
def afterIsr (b : Board) : ℕ → Proc :=
  if b.isr = .wake then fun i => (b.procs i).wake else b.procs

theorem isrStep_move {level : Int32} (h : b.isrStep level = some t) :
    IsrMove b.sh level b.isr t.sh t.isr ∧ t.procs = b.afterIsr ∧ t.probed = b.probed := by
  unfold isrStep at h
  unfold afterIsr
  split at h
  case h_2 hpc =>
    obtain ⟨sh, hsh, rfl⟩ := Option.map_eq_some_iff.1 h
    obtain ⟨hfree, rfl, -⟩ := acquire_eq_some (a := ()) (b := ()) (by rw [hsh]; rfl)
    rw [hpc]
    exact ⟨.acquire hfree, rfl, rfl⟩
  case h_5 hpc =>
    cases h
    rw [hpc]
    refine ⟨?_, rfl, rfl⟩
    show IsrMove b.sh level .test b.sh (if _ then _ else _)
    split_ifs with hbtn
    · exact .toggles hbtn
    · exact .skips hbtn
  all_goals
    rename_i hpc
    cases h
    rw [hpc]
    exact ⟨by constructor, rfl, rfl⟩

/-- What a step of the driver can do. -/
theorem step_cases {a : BoardAct} (h : b.step a = some t) :
    (∃ i c, a = .call i c ∧ (b.procs i = .idle ∨ ∃ r stored, b.procs i = .ret r stored) ∧
      t = { b with procs := Function.update b.procs i c.start }) ∨
    (∃ i x s' p', a = .proc i x ∧ ProcMove i b.sh (b.procs i) s' p' ∧
      t = { b with sh := s', procs := Function.update b.procs i p' }) ∨
    (∃ level, a = .isr level ∧ IsrMove b.sh level b.isr t.sh t.isr ∧ t.procs = b.afterIsr ∧
      t.probed = b.probed) ∨
    (a = .probe ∧ b.probed = false ∧
      t = { b with sh := { b.sh with dev := b.sh.dev.gpiodSetValue 0 }, probed := true }) := by
  cases a with
  | call i c =>
    obtain ⟨hidle, rfl⟩ := callStep_eq h
    exact Or.inl ⟨i, c, rfl, hidle, rfl⟩
  | proc i x =>
    obtain ⟨⟨s', p'⟩, hr, rfl⟩ := Option.map_eq_some_iff.1 h
    exact Or.inr (Or.inl ⟨i, x, s', p', rfl, procStep_move hr, rfl⟩)
  | isr level =>
    obtain ⟨hmove, hprocs, hprobed⟩ := isrStep_move h
    exact Or.inr (Or.inr (Or.inl ⟨level, rfl, hmove, hprocs, hprobed⟩))
  | probe =>
    simp only [step] at h
    split_ifs at h with hprobed
    cases h
    exact Or.inr (Or.inr (Or.inr ⟨rfl, by simpa using hprobed, rfl⟩))

end Board

/-! ## What each program point relies on -/

/-- The program points outside every file operation. -/
inductive Proc.Outside : Proc → Prop
  | idle : Outside .idle
  | ret (r : ℤ) (stored : UserStore) : Outside (.ret r stored)
  | start (c : Call) : Outside c.start

/-- What holds of some data of the driver while `hw3->lock` is free, and what each program
point between a lock and its unlock relies on. -/
structure Reliance (D : Type*) where
  data : Shared → D
  Ok : D → Prop
  isr : Isr → Option (D → Prop)
  proc : Proc → Option (D → Prop)
  proc_wake : ∀ p, proc p.wake = proc p
  proc_outside : ∀ p, p.Outside → proc p = none
  isr_idle : isr .idle = none
  data_lock : ∀ s l, data { s with lock := l } = data s

namespace Reliance

variable {D : Type*} (R : Reliance D) {b t : Board}

/-- The views of the handler and the processes. -/
def view (b : Board) : LockHolder → Option (D → Prop)
  | .isr => R.isr b.isr
  | .proc i => R.proc (b.procs i)

/-- The data is as everyone relies on. -/
def Holds (b : Board) : Prop :=
  Monitor.Inv R.Ok b.sh.lock (R.view b) (R.data b.sh)

/-- A step that takes a process or the handler from the point `pc` to `pc'`. -/
abbrev Keeps (me : LockHolder) (s : Shared) (pc : Option (D → Prop)) (s' : Shared)
    (pc' : Option (D → Prop)) : Prop :=
  Monitor.Step R.Ok me s.lock pc (R.data s) s'.lock pc' (R.data s')

theorem keeps_acquire {me : LockHolder} {s : Shared} {Q : D → Prop} (hfree : s.lock = none)
    (h : ∀ d, R.Ok d → Q d) : R.Keeps me s none { s with lock := some me } (some Q) := by
  rw [Keeps, hfree, R.data_lock s (some me)]
  exact .acquire _ (h _)

theorem keeps_release {me : LockHolder} {s : Shared} {P : D → Prop} (h : ∀ d, P d → R.Ok d) :
    R.Keeps me s (some P) s.release none := by
  rw [Keeps, Shared.release, R.data_lock s none]
  exact .release _ _ (h _)

theorem holds_init (h : R.Ok (R.data Board.init.sh)) : R.Holds Board.init := by
  have hnone : ∀ a, R.view Board.init a = none := by
    rintro (_ | i)
    · exact R.isr_idle
    · exact R.proc_outside _ .idle
  refine ⟨fun a => ?_, fun _ => h, fun a P ha => ?_⟩
  · rw [hnone a]
    simp [Board.init]
  · simp [hnone a] at ha

theorem holds_proc {i : ℕ} {s' : Shared} {p' : Proc} (h : R.Holds b)
    (hstep : R.Keeps (.proc i) b.sh (R.proc (b.procs i)) s' (R.proc p')) :
    R.Holds { b with sh := s', procs := Function.update b.procs i p' } := by
  refine Monitor.Inv.step (.proc i) h ?_ ?_
  · simpa [view] using hstep
  · rintro (_ | j) hne
    · rfl
    · have hji : j ≠ i := fun heq => hne (by rw [heq])
      simp [view, Function.update_of_ne hji]

/-- A call does not touch what the lock protects. -/
theorem holds_call {i : ℕ} {c : Call} (h : R.Holds b)
    (hidle : b.procs i = .idle ∨ ∃ r stored, b.procs i = .ret r stored) :
    R.Holds { b with procs := Function.update b.procs i c.start } := by
  have hout : R.proc (b.procs i) = none := by
    rcases hidle with hpc | ⟨r, stored, hpc⟩
    · exact hpc ▸ R.proc_outside _ .idle
    · exact hpc ▸ R.proc_outside _ (.ret r stored)
  refine R.holds_proc h ?_
  rw [hout, R.proc_outside _ (.start c)]
  exact .outside _ _

theorem holds_isr (h : R.Holds b) (hprocs : t.procs = b.afterIsr)
    (hstep : R.Keeps .isr b.sh (R.isr b.isr) t.sh (R.isr t.isr)) : R.Holds t := by
  refine Monitor.Inv.step .isr h hstep ?_
  rintro (_ | i) hne
  · exact absurd rfl hne
  · show R.proc (t.procs i) = R.proc (b.procs i)
    rw [hprocs, Board.afterIsr]
    split_ifs
    · exact R.proc_wake _
    · rfl

end Reliance

end ProCamp
