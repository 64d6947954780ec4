import ProCamp.History
import ProCamp.LedCoherence

/-!
# The driver as one device

To the programs that use it, `HW16/module3/hw3.c` is a device that holds the event of the
button nobody has read, the LED and whether the button controls it (`Button`), and that takes
one operation at a time (`buttonObject`). `Traced` keeps beside the driver the history of the
calls and of the operations, each at the step that decides it : the sample of the handler,
the line of each file operation that reads or writes what it is about.

`board_history` : under any schedule the history is legal, the fields of `struct hw3` are the
device it leads to whenever `hw3->lock` is free, and every call has made, since it started,
exactly the operations that what it returns says (`Outcome`). `HW3IOC_SETLED` is two of
them, a change and a later reading, with a gap in between.
-/

namespace ProCamp

open Machine History

/-- The device as its users know it. -/
structure Button where
  /-- The level of the event nobody has read. -/
  event : Option Int32
  led : Bit
  /-- Whether a press switches the LED. -/
  control : Bit
  deriving DecidableEq

/-- The operations on the device : presses of the button and those the calls make. -/
inductive ButtonOp where
  /-- The button line has come to `level`. -/
  | press (level : Int32)
  | read
  | write (val : Bit)
  | poll
  | set (val : Bit)
  | get
  | control (val : Bit)
  deriving DecidableEq

/-- What an operation answers. -/
inductive Answer where
  | done
  /-- The character of the event, if there is one. -/
  | char (val : Option UInt8)
  | mask (mask : UInt32)
  | level (val : Int32)
  deriving DecidableEq

/-- `led_on ^= 0x1`. -/
def Bit.toggle (v : Bit) : Bit :=
  ⟨v.1 ^^^ 1, xor_one_isBit v.2⟩

namespace Button

/-- The device after an operation. -/
def next : ButtonOp → Button → Button
  | .press level, d =>
    { d with
      event := some level
      led := if level ≠ 0 ∧ d.control.1 ≠ 0 then Bit.toggle d.led else d.led }
  | .read, d => { d with event := none }
  | .write val, d | .set val, d => { d with led := val }
  | .control val, d => { d with control := val }
  | .poll, d | .get, d => d

/-- The answer of an operation. -/
def answer : ButtonOp → Button → Answer
  | .read, d => .char (d.event.map charOf)
  | .poll, d => .mask (if d.event.isSome then epollIn ||| epollRdNorm else 0)
  | .get, d => .level d.led
  | .press _, _ | .write _, _ | .set _, _ | .control _, _ => .done

end Button

/-- The device, as `hw3_probe` starts it. -/
def buttonObject : Sequential Button ButtonOp Answer where
  init := ⟨none, truth 0, truth 1⟩
  next := Button.next
  answer := Button.answer

/-- What a call may return, with the operations it has made on the device, the latest
first. -/
inductive Outcome : Call → List (ButtonOp × Answer) → ℤ → UserStore → Prop
  | read {nonblock : Bool} (val : UInt8) :
      Outcome (.read nonblock) [(.read, .char (some val))] 2 (.bytes [val, 0])
  /-- The event is lost. -/
  | readFault {nonblock : Bool} (val : UInt8) :
      Outcome (.read nonblock) [(.read, .char (some val))] (-eFault) .none
  | again : Outcome (.read true) [(.read, .char none)] (-eAgain) .none
  | signalled : Outcome (.read false) [] (-eRestartSys) .none
  | write {kbuf : Vector UInt8 10} {count : ℕ} {val : Bit} (hval : writeValue kbuf = some val) :
      Outcome (.write kbuf count) [(.write val, .done)] count .none
  | writeInvalid {kbuf : Vector UInt8 10} {count : ℕ} (hval : writeValue kbuf = none) :
      Outcome (.write kbuf count) [] (-eInval) .none
  | writeFault {kbuf : Vector UInt8 10} {count : ℕ} :
      Outcome (.write kbuf count) [] (-eFault) .none
  | set {val level : Int32} : Outcome (.ioctl .setLed val)
      [(.get, .level level), (.set (truth val), .done)] 0 (.int level)
  | setFault {val : Int32} : Outcome (.ioctl .setLed val) [] (-eFault) .none
  /-- The LED is set, and the call fails. -/
  | putFault {val level : Int32} : Outcome (.ioctl .setLed val)
      [(.get, .level level), (.set (truth val), .done)] (-eFault) .none
  | get {val level : Int32} :
      Outcome (.ioctl .getLed val) [(.get, .level level)] 0 (.int level)
  | getFault {val level : Int32} :
      Outcome (.ioctl .getLed val) [(.get, .level level)] (-eFault) .none
  | control {val : Int32} :
      Outcome (.ioctl .kernControl val) [(.control (truth val), .done)] 0 .none
  | controlFault {val : Int32} : Outcome (.ioctl .kernControl val) [] (-eFault) .none
  | other {val : Int32} : Outcome (.ioctl .other val) [] (-eNoTty) .none

/-! ## The history -/

/-- The history of a run of the driver. -/
abbrev BoardHistory :=
  List (Event LockHolder Call ButtonOp Answer)

/-- The operation that the next step of `hw3_read` makes, and its answer. -/
def ReadPc.commit (d : Hw3) (nonblock : Bool) : ReadPc → Option (ButtonOp × Answer)
  | .test => if nonblock && !d.dataReady then some (.read, .char none) else none
  | .clear val => some (.read, .char (some val))
  | _ => none

/-- Of `hw3_write`. -/
def WritePc.commit : WritePc → Option (ButtonOp × Answer)
  | .test val => some (.write val, .done)
  | _ => none

/-- Of `hw3_poll`. -/
def PollPc.commit (d : Hw3) : PollPc → Option (ButtonOp × Answer)
  | .test _ => some (.poll, .mask (if d.dataReady then epollIn ||| epollRdNorm else 0))
  | _ => none

/-- Of `hw3_ioctl`. -/
def IoctlPc.commit (d : Hw3) : IoctlPc → Option (ButtonOp × Answer)
  | .set val => some (.set (truth val), .done)
  | .get => some (.get, .level d.ledOn)
  | .control val => some (.control (truth val), .done)
  | _ => none

/-- Of a process. -/
def Proc.commit (d : Hw3) : Proc → Option (ButtonOp × Answer)
  | .read nonblock pc => pc.commit d nonblock
  | .write _ pc => pc.commit
  | .poll pc => pc.commit d
  | .ioctl pc => pc.commit d
  | .idle | .ret _ _ => none

/-- The operation that the next step of the handler makes. -/
def Isr.commit (level : Int32) : Isr → Option (ButtonOp × Answer)
  | .sample => some (.press level, .done)
  | _ => none

/-- The history after an action. -/
def Board.record (b : Board) (a : BoardAct) (h : BoardHistory) : BoardHistory :=
  match a with
  | .call i c => .call (.proc i) c :: h
  | .proc i _ => commit (.proc i) ((b.procs i).commit b.sh.dev) h
  | .isr level => commit .isr (b.isr.commit level) h
  | .probe => h

/-- The driver, with its history. -/
abbrev Traced :=
  Board × BoardHistory

namespace Traced

/-- The driver as it starts, before any operation. -/
def init : Traced :=
  (Board.init, [])

/-- One step of the driver. -/
def step (w : Traced) (a : BoardAct) : Option Traced :=
  recording Board.step Board.record w a

end Traced

/-! ## What each program point relies on -/

/-- The fields of `struct hw3`, the pin apart. -/
structure Hw3Fields where
  ledOn : Int32
  btnOn : Int32
  control : Int32
  dataReady : Bool

/-- All but the pin. -/
def Hw3.fields (d : Hw3) : Hw3Fields :=
  ⟨d.ledOn, d.btnOn, d.control, d.dataReady⟩

/-- The event and the control of `struct hw3` are the device's. -/
structure Follows (d : Hw3Fields × Button) : Prop where
  ready : d.1.dataReady = d.2.event.isSome
  event : ∀ level, d.2.event = some level → d.1.btnOn = level
  control : d.1.control = d.2.control

/-- `struct hw3` is the device. -/
structure Represents (d : Hw3Fields × Button) : Prop extends Follows d where
  led : d.1.ledOn = d.2.led

/-- The handler's. -/
def Isr.agreed : Isr → Option (Hw3Fields × Button → Prop)
  | .idle | .lock | .wake => none
  | .ready | .drive | .unlock => some Represents
  | .sample =>
    some fun d => d.1.dataReady = true ∧ d.1.control = d.2.control ∧ d.1.ledOn = d.2.led
  | .test =>
    some fun d => Follows d ∧ d.2.led.1 =
      if d.1.btnOn ≠ 0 ∧ d.1.control ≠ 0 then d.1.ledOn ^^^ 1 else d.1.ledOn
  | .toggle => some fun d => Follows d ∧ d.2.led.1 = d.1.ledOn ^^^ 1

/-- A process's. -/
def Proc.agreed : Proc → Option (Hw3Fields × Button → Prop)
  | .read _ .test | .read _ .release | .read _ (.unlock _) => some Represents
  | .read _ .take => some fun d => Represents d ∧ d.1.dataReady = true
  | .read _ (.clear val) => some fun d => Represents d ∧ d.2.event.map charOf = some val
  | .write _ (.test _) | .write _ (.drive _) | .write _ (.unlock _) => some Represents
  | .write _ (.set val) => some fun d => Follows d ∧ d.2.led = val
  | .poll (.test _) | .poll (.unlock _ _) => some Represents
  | .ioctl (.set _) | .ioctl .setDrive | .ioctl .setUnlock | .ioctl .get
  | .ioctl (.getUnlock _) | .ioctl (.control _) | .ioctl .controlUnlock => some Represents
  | .idle | .ret _ _ | .read _ .lock | .read _ (.wait _) | .read _ (.copy _)
  | .write _ (.copy _) | .write _ (.lock _) | .poll .wait | .poll (.lock _)
  | .poll (.polled _ _) | .ioctl (.setGet _) | .ioctl (.setLock _) | .ioctl .getLock
  | .ioctl (.put _) | .ioctl (.controlGet _) | .ioctl (.controlLock _) => none

theorem Proc.agreed_wake (p : Proc) : p.wake.agreed = p.agreed := by
  unfold wake
  split <;> rfl

theorem Proc.agreed_outside {p : Proc} (hp : p.Outside) : p.agreed = none := by
  cases hp with
  | idle => rfl
  | ret => rfl
  | start c => rcases c with _ | _ | _ | ⟨_ | _ | _ | _, _⟩ <;> rfl

variable {i : ℕ} {s s' : Shared} {p p' : Proc} {b t : Board} {h : BoardHistory}

/-- A step of `me` from the point `pc` to `pc'`, in which it makes the operation `o`. -/
abbrev Agreeing (me : LockHolder) (s : Shared) (pc : Option (Hw3Fields × Button → Prop))
    (o : Option (ButtonOp × Answer)) (h : BoardHistory) (s' : Shared)
    (pc' : Option (Hw3Fields × Button → Prop)) : Prop :=
  Monitor.Step Represents me s.lock pc (s.dev.fields, state buttonObject h) s'.lock pc'
    (s'.dev.fields, state buttonObject (commit me o h))

theorem agreeing_acquire {me : LockHolder} (hfree : s.lock = none) :
    Agreeing me s none none h { s with lock := some me } (some Represents) := by
  rw [Agreeing, hfree]
  exact .acquire _ id

theorem agreeing_release {me : LockHolder} :
    Agreeing me s (some Represents) none h s.release none :=
  .release _ _ id

/-- A read that finds no event leaves the device as it is. -/
theorem next_read_of_none {d : Button} (hevent : d.event = none) : Button.next .read d = d := by
  cases d
  cases hevent
  rfl

theorem Represents.event_eq_none {d : Hw3Fields × Button} (hrep : Represents d)
    (hready : d.1.dataReady = false) : d.2.event = none := by
  have hisSome := hrep.ready
  rw [hready] at hisSome
  simpa using hisSome.symm

/-- What a read is about to answer. -/
theorem Represents.charOf_eq {d : Hw3Fields × Button} (hrep : Represents d)
    (hready : d.1.dataReady = true) : d.2.event.map charOf = some (charOf d.1.btnOn) := by
  have hisSome := hrep.ready
  rw [hready] at hisSome
  obtain ⟨level, hlevel⟩ := Option.isSome_iff_exists.1 hisSome.symm
  rw [hlevel, hrep.event level hlevel]
  rfl

theorem agreed_read {nonblock : Bool} {pc : ReadPc} (hmove : ReadMove i nonblock s pc s' p') :
    Agreeing (.proc i) s (Proc.agreed (.read nonblock pc))
      ((Proc.read nonblock pc).commit s.dev) h s' p'.agreed := by
  cases hmove with
  | acquire hfree => exact agreeing_acquire hfree
  | found hready =>
    have hnone : (Proc.read nonblock .test).commit s.dev = none := by
      simp [Proc.commit, ReadPc.commit, hready]
    rw [hnone]
    exact .inside _ _ _ fun hrep => ⟨hrep, hready⟩
  | empty hready =>
    cases nonblock with
    | false => exact .inside _ _ _ id
    | true =>
      have hsome : (Proc.read true .test).commit s.dev = some (.read, .char none) := by
        simp [Proc.commit, ReadPc.commit, hready]
      rw [hsome]
      refine .inside _ _ _ fun hrep => ?_
      have hsame : state buttonObject
          (commit (LockHolder.proc i) (some (.read, .char none)) h) = state buttonObject h :=
        next_read_of_none (hrep.event_eq_none hready)
      rw [hsame]
      exact hrep
  | again | release => exact agreeing_release
  | take => exact .inside _ _ _ fun hrep => ⟨hrep.1, hrep.1.charOf_eq hrep.2⟩
  | clear =>
    exact .inside _ _ _ fun hrep => ⟨⟨rfl, nofun, hrep.1.control⟩, hrep.1.led⟩
  | unlock => exact agreeing_release
  | _ => exact .outside _ _

theorem agreed_write {count : ℕ} {pc : WritePc} (hmove : WriteMove i count s pc s' p') :
    Agreeing (.proc i) s (Proc.agreed (.write count pc))
      ((Proc.write count pc).commit s.dev) h s' p'.agreed := by
  cases hmove with
  | acquire hfree => exact agreeing_acquire hfree
  | differs hne =>
    refine .inside _ _ _ fun hrep => ⟨⟨?_, ?_, ?_⟩, rfl⟩
    · exact hrep.ready
    · exact hrep.event
    · exact hrep.control
  | skip heq =>
    refine .inside _ _ _ fun hrep => ⟨⟨?_, ?_, ?_⟩, heq⟩
    · exact hrep.ready
    · exact hrep.event
    · exact hrep.control
  | set =>
    exact .inside _ _ _ fun hfollows =>
      ⟨⟨hfollows.1.ready, hfollows.1.event, hfollows.1.control⟩, by rw [← hfollows.2]; rfl⟩
  | drive => exact .inside _ _ _ id
  | unlock => exact agreeing_release
  | _ => exact .outside _ _

theorem agreed_poll {pc : PollPc} (hmove : PollMove i s pc s' p') :
    Agreeing (.proc i) s (Proc.agreed (.poll pc)) ((Proc.poll pc).commit s.dev) h s' p'.agreed := by
  cases hmove with
  | acquire hfree => exact agreeing_acquire hfree
  | test => exact .inside _ _ _ id
  | unlock => exact agreeing_release
  | _ => exact .outside _ _

theorem agreed_ioctl {pc : IoctlPc} (hmove : IoctlMove i s pc s' p') :
    Agreeing (.proc i) s (Proc.agreed (.ioctl pc))
      ((Proc.ioctl pc).commit s.dev) h s' p'.agreed := by
  cases hmove with
  | setLock hfree | getLock hfree | controlLock hfree => exact agreeing_acquire hfree
  | set =>
    exact .inside _ _ _ fun hrep => ⟨⟨hrep.ready, hrep.event, hrep.control⟩, rfl⟩
  | setDrive => exact .inside _ _ _ id
  | get => exact .inside _ _ _ id
  | control =>
    exact .inside _ _ _ fun hrep => ⟨⟨hrep.ready, hrep.event, rfl⟩, hrep.led⟩
  | setUnlock | getUnlock | controlUnlock => exact agreeing_release
  | _ => exact .outside _ _

/-- What a press does to the LED. -/
theorem press_led {d : Hw3Fields} {g : Button} {level : Int32} (hcontrol : d.control = g.control)
    (hled : d.ledOn = g.led) : (Button.next (.press level) g).led.1 =
      if level ≠ 0 ∧ d.control ≠ 0 then d.ledOn ^^^ 1 else d.ledOn := by
  rw [hcontrol, hled]
  simp only [Button.next]
  split_ifs <;> rfl

theorem agreed_isr {level : Int32} {pc pc' : Isr} (hmove : IsrMove s level pc s' pc') :
    Agreeing .isr s pc.agreed (pc.commit level) h s' pc'.agreed := by
  cases hmove with
  | acquire hfree => exact agreeing_acquire hfree
  | ready => exact .inside _ _ _ fun hrep => ⟨rfl, hrep.control, hrep.led⟩
  | sample =>
    exact .inside _ _ _ fun ⟨hready, hcontrol, hled⟩ =>
      ⟨⟨hready, fun _ hl => Option.some.inj hl, hcontrol⟩, press_led hcontrol hled⟩
  | toggles hbtn =>
    exact .inside _ _ _ fun hfollows => ⟨hfollows.1, hfollows.2.trans (if_pos hbtn)⟩
  | skips hbtn =>
    exact .inside _ _ _ fun hfollows => ⟨hfollows.1, (hfollows.2.trans (if_neg hbtn)).symm⟩
  | toggle =>
    exact .inside _ _ _ fun hfollows =>
      ⟨⟨hfollows.1.ready, hfollows.1.event, hfollows.1.control⟩, hfollows.2.symm⟩
  | drive => exact .inside _ _ _ id
  | unlock => exact agreeing_release
  | enter | wake => exact .outside _ _

/-- The views of the handler and the processes. -/
def Board.agreed (b : Board) : LockHolder → Option (Hw3Fields × Button → Prop)
  | .isr => b.isr.agreed
  | .proc i => (b.procs i).agreed

namespace Traced

variable {w w' : Traced} {a : BoardAct}

/-- The device is as everyone relies on. -/
def Held (w : Traced) : Prop :=
  Monitor.Inv Represents w.1.sh.lock w.1.agreed
    (w.1.sh.dev.fields, state buttonObject w.2)

theorem held_init : init.Held := by
  have hnone : ∀ me, init.1.agreed me = none := by
    rintro (_ | i) <;> rfl
  refine ⟨fun me => ?_, fun _ => ⟨⟨rfl, nofun, rfl⟩, rfl⟩, fun me P hP => ?_⟩
  · rw [hnone me]
    simp [init, Board.init]
  · simp [hnone me] at hP

theorem held_proc {i : ℕ} {u : Shared} {p' : Proc} {o : Option (ButtonOp × Answer)}
    (hheld : w.Held) (hstep : Agreeing (.proc i) w.1.sh (w.1.procs i).agreed o w.2
      u p'.agreed) :
    Held ⟨{ w.1 with sh := u, procs := Function.update w.1.procs i p' },
      commit (.proc i) o w.2⟩ := by
  refine Monitor.Inv.step (.proc i) hheld ?_ ?_
  · simpa [Board.agreed] using hstep
  · rintro (_ | j) hne
    · rfl
    · have hji : j ≠ i := fun heq => hne (by rw [heq])
      simp [Board.agreed, Function.update_of_ne hji]

theorem held_step (hheld : w.Held) (hstep : w.step a = some w') : w'.Held := by
  obtain ⟨b, hb, rfl⟩ := Option.map_eq_some_iff.1 hstep
  rcases Board.step_cases hb with ⟨i, c, rfl, hidle, rfl⟩ | ⟨i, x, s', p', rfl, hmove, rfl⟩ |
    ⟨level, rfl, hmove, hprocs, -⟩ | ⟨rfl, -, rfl⟩
  · have hout : (w.1.procs i).agreed = none := by
      rcases hidle with hpc | ⟨r, stored, hpc⟩ <;> simp [hpc, Proc.agreed]
    -- A call is no operation on the device.
    refine held_proc (u := w.1.sh) (o := none) hheld ?_
    rw [hout, Proc.agreed_outside (.start c)]
    exact .outside _ _
  · refine held_proc hheld ?_
    generalize w.1.procs i = p at hmove
    cases hmove with
    | read hread => exact agreed_read hread
    | write hwrite => exact agreed_write hwrite
    | poll hpoll => exact agreed_poll hpoll
    | ioctl hioctl => exact agreed_ioctl hioctl
  · refine Monitor.Inv.step .isr hheld (agreed_isr hmove) ?_
    rintro (_ | j) hne
    · exact absurd rfl hne
    · show (b.procs j).agreed = (w.1.procs j).agreed
      rw [hprocs, Board.afterIsr]
      split_ifs
      · exact Proc.agreed_wake _
      · rfl
  · exact hheld

end Traced

/-! ## The answers -/

/-- The operation a process is about to make has the answer of the device. -/
theorem Proc.commit_answer {d : Hw3} {g : Button} {op : ButtonOp} {ans : Answer}
    (hd : ∀ P, p.agreed = some P → P (d.fields, g)) (ho : p.commit d = some (op, ans)) :
    ans = Button.answer op g := by
  cases p with
  | read nonblock pc =>
    simp only [commit] at ho
    unfold ReadPc.commit at ho
    split at ho
    · split_ifs at ho with hempty
      cases ho
      have hready : d.dataReady = false := by
        simpa using (Bool.and_eq_true_iff.1 hempty).2
      have hrep : Represents (d.fields, g) := hd _ rfl
      rw [Button.answer, hrep.event_eq_none hready]
      rfl
    case h_2 val =>
      cases ho
      obtain ⟨-, hval⟩ : Represents (d.fields, g) ∧ g.event.map charOf = some val := hd _ rfl
      rw [Button.answer, hval]
    · cases ho
  | write count pc =>
    simp only [commit] at ho
    unfold WritePc.commit at ho
    split at ho <;> cases ho
    rfl
  | poll pc =>
    simp only [commit] at ho
    unfold PollPc.commit at ho
    split at ho <;> cases ho
    have hrep : Represents (d.fields, g) := hd _ rfl
    rw [Button.answer, ← hrep.ready]
    rfl
  | ioctl pc =>
    cases pc with
    | set | control =>
      cases ho
      rfl
    | get =>
      cases ho
      have hrep : Represents (d.fields, g) := hd _ rfl
      rw [Button.answer, ← hrep.led]
      rfl
    | _ => cases ho
  | idle | ret => cases ho

theorem Isr.commit_answer {level : Int32} {pc : Isr} {g : Button} {op : ButtonOp} {ans : Answer}
    (ho : pc.commit level = some (op, ans)) : ans = Button.answer op g := by
  unfold commit at ho
  split at ho <;> cases ho
  rfl

theorem Traced.legal_step {w w' : Traced} {a : BoardAct} (hheld : w.Held)
    (hlegal : Legal buttonObject w.2) (hstep : w.step a = some w') :
    Legal buttonObject w'.2 := by
  obtain ⟨b, -, rfl⟩ := Option.map_eq_some_iff.1 hstep
  cases a with
  | call i c => exact hlegal
  | probe => exact hlegal
  | isr level => exact hlegal.commit fun op ans ho => Isr.commit_answer ho
  | proc i x =>
    exact hlegal.commit fun op ans ho => Proc.commit_answer (hheld.held (.proc i)) ho

/-! ## What a call has done so far -/

/-- The operations of a call of `hw3_read` at each of its lines. -/
def ReadPc.Made (nonblock : Bool) (ops : List (ButtonOp × Answer)) : ReadPc → Prop
  | .lock | .test | .take | .clear _ => ops = []
  | .release => ops = if nonblock then [(.read, .char none)] else []
  | .wait _ => nonblock = false ∧ ops = []
  | .unlock val | .copy val => ops = [(.read, .char (some val))]

/-- Of `hw3_write`. -/
def WritePc.Made (kbuf : Vector UInt8 10) (ops : List (ButtonOp × Answer)) : WritePc → Prop
  | .copy kbuf' => kbuf' = kbuf ∧ ops = []
  | .lock val | .test val => writeValue kbuf = some val ∧ ops = []
  | .set val | .drive val | .unlock val =>
    writeValue kbuf = some val ∧ ops = [(.write val, .done)]

/-- Of `hw3_poll` : its caller may have called it before. -/
def PollPc.Made (ops : List (ButtonOp × Answer)) : PollPc → Prop
  | .wait | .lock _ | .test _ => True
  | .unlock mask _ | .polled mask _ => ops.head? = some (.poll, .mask mask)

/-- Of `hw3_ioctl`, before it reads `led_on` : `HW3IOC_SETLED` falls through. -/
def FallsThrough (cmd : IoctlCmd) (val : Int32) (ops : List (ButtonOp × Answer)) : Prop :=
  cmd = .setLed ∧ ops = [(.set (truth val), .done)] ∨ cmd = .getLed ∧ ops = []

/-- Of `hw3_ioctl`. -/
def IoctlPc.Made (cmd : IoctlCmd) (val : Int32) (ops : List (ButtonOp × Answer)) :
    IoctlPc → Prop
  | .setGet v | .setLock v | .set v => cmd = .setLed ∧ v = val ∧ ops = []
  | .setDrive | .setUnlock => cmd = .setLed ∧ ops = [(.set (truth val), .done)]
  | .getLock | .get => FallsThrough cmd val ops
  | .getUnlock l | .put l =>
    ∃ earlier, FallsThrough cmd val earlier ∧ ops = (.get, .level l) :: earlier
  | .controlGet v | .controlLock v | .control v => cmd = .kernControl ∧ v = val ∧ ops = []
  | .controlUnlock => cmd = .kernControl ∧ ops = [(.control (truth val), .done)]

/-- What a process has made of the call `c`. -/
def Proc.Made (c : Call) (ops : List (ButtonOp × Answer)) : Proc → Prop
  | .idle => True
  | .read nonblock pc => c = .read nonblock ∧ pc.Made nonblock ops
  | .write count pc => ∃ kbuf, c = .write kbuf count ∧ pc.Made kbuf ops
  | .poll pc => c = .poll ∧ pc.Made ops
  | .ioctl pc => ∃ cmd val, c = .ioctl cmd val ∧ pc.Made cmd val ops
  | .ret r stored => Outcome c ops r stored

variable {c : Call} {ops : List (ButtonOp × Answer)}

theorem made_start (c : Call) : c.start.Made c [] := by
  rcases c with _ | _ | _ | ⟨_ | _ | _ | _, val⟩
  · exact ⟨rfl, rfl⟩
  · exact ⟨_, rfl, rfl, rfl⟩
  · exact ⟨rfl, trivial⟩
  · exact ⟨_, _, rfl, rfl, rfl, rfl⟩
  · exact ⟨_, _, rfl, Or.inr ⟨rfl, rfl⟩⟩
  · exact ⟨_, _, rfl, rfl, rfl, rfl⟩
  · exact .other

theorem Proc.Made.wake (hmade : p.Made c ops) : p.wake.Made c ops := by
  unfold Proc.wake
  split <;> exact hmade

theorem made_read {nonblock : Bool} {pc : ReadPc} (hmade : pc.Made nonblock ops)
    (hmove : ReadMove i nonblock s pc s' p') :
    p'.Made (.read nonblock) (((Proc.read nonblock pc).commit s.dev).toList ++ ops) := by
  cases hmove with
  | acquire => exact ⟨rfl, hmade⟩
  | found hready =>
    cases hmade
    exact ⟨rfl, by simp [Proc.commit, ReadPc.commit, hready, ReadPc.Made]⟩
  | empty hready =>
    refine ⟨rfl, ?_⟩
    cases hmade
    cases nonblock <;> simp [Proc.commit, ReadPc.commit, hready, ReadPc.Made]
  | again hnb =>
    subst hnb
    cases hmade
    exact .again
  | release hnb =>
    subst hnb
    exact ⟨rfl, rfl, hmade⟩
  | wait => exact ⟨rfl, hmade⟩
  | done => exact ⟨rfl, hmade.2⟩
  | signalled =>
    obtain ⟨rfl, rfl⟩ := hmade
    exact .signalled
  | take => exact ⟨rfl, hmade⟩
  | clear =>
    cases hmade
    exact ⟨rfl, rfl⟩
  | unlock => exact ⟨rfl, hmade⟩
  | copy =>
    cases hmade
    exact .read _
  | fault =>
    cases hmade
    exact .readFault _

theorem made_write {count : ℕ} {kbuf : Vector UInt8 10} {pc : WritePc} (hmade : pc.Made kbuf ops)
    (hmove : WriteMove i count s pc s' p') :
    p'.Made (.write kbuf count) (((Proc.write count pc).commit s.dev).toList ++ ops) := by
  cases hmove with
  | invalid hval =>
    obtain ⟨rfl, rfl⟩ := hmade
    exact .writeInvalid hval
  | copy hval =>
    obtain ⟨rfl, rfl⟩ := hmade
    exact ⟨_, rfl, hval, rfl⟩
  | fault =>
    obtain ⟨rfl, rfl⟩ := hmade
    exact .writeFault
  | acquire => exact ⟨_, rfl, hmade⟩
  | differs | skip =>
    obtain ⟨hval, rfl⟩ := hmade
    exact ⟨_, rfl, hval, rfl⟩
  | set | drive => exact ⟨_, rfl, hmade⟩
  | unlock =>
    obtain ⟨hval, rfl⟩ := hmade
    exact .write hval

theorem made_poll {pc : PollPc} (hmade : pc.Made ops) (hmove : PollMove i s pc s' p') :
    p'.Made .poll (((Proc.poll pc).commit s.dev).toList ++ ops) := by
  cases hmove with
  | wait | acquire | again => exact ⟨rfl, trivial⟩
  | test hmask =>
    subst hmask
    exact ⟨rfl, rfl⟩
  | unlock => exact ⟨rfl, hmade⟩
  | leave => trivial

theorem made_ioctl {cmd : IoctlCmd} {val : Int32} {pc : IoctlPc} (hmade : pc.Made cmd val ops)
    (hmove : IoctlMove i s pc s' p') :
    p'.Made (.ioctl cmd val) (((Proc.ioctl pc).commit s.dev).toList ++ ops) := by
  cases hmove with
  | setGet | setLock | setDrive | controlGet | controlLock | getUnlock | getLock =>
    exact ⟨_, _, rfl, hmade⟩
  | setFault =>
    obtain ⟨rfl, rfl, rfl⟩ := hmade
    exact .setFault
  | set =>
    obtain ⟨rfl, rfl, rfl⟩ := hmade
    exact ⟨_, _, rfl, rfl, rfl⟩
  | setUnlock => exact ⟨_, _, rfl, Or.inl hmade⟩
  | get => exact ⟨_, _, rfl, ops, hmade, rfl⟩
  | put =>
    obtain ⟨earlier, ⟨rfl, rfl⟩ | ⟨rfl, rfl⟩, rfl⟩ := hmade
    · exact .set
    · exact .get
  | putFault =>
    obtain ⟨earlier, ⟨rfl, rfl⟩ | ⟨rfl, rfl⟩, rfl⟩ := hmade
    · exact .putFault
    · exact .getFault
  | controlFault =>
    obtain ⟨rfl, rfl, rfl⟩ := hmade
    exact .controlFault
  | control =>
    obtain ⟨rfl, rfl, rfl⟩ := hmade
    exact ⟨_, _, rfl, rfl, rfl⟩
  | controlUnlock =>
    obtain ⟨rfl, rfl⟩ := hmade
    exact .control

theorem made_step (hmade : p.Made c ops) (hmove : ProcMove i s p s' p') :
    p'.Made c ((p.commit s.dev).toList ++ ops) := by
  cases hmove with
  | read hread =>
    obtain ⟨rfl, hmade⟩ := hmade
    exact made_read hmade hread
  | write hwrite =>
    obtain ⟨kbuf, rfl, hmade⟩ := hmade
    exact made_write hmade hwrite
  | poll hpoll =>
    obtain ⟨rfl, hmade⟩ := hmade
    exact made_poll hmade hpoll
  | ioctl hioctl =>
    obtain ⟨cmd, val, rfl, hmade⟩ := hmade
    exact made_ioctl hmade hioctl

namespace Traced

variable {w w' : Traced} {a : BoardAct}

/-- Every process has made what its last call says. -/
def Serving (w : Traced) : Prop :=
  ∀ i, w.1.procs i = .idle ∨ ∃ c, callOf (.proc i) w.2 = some c ∧
    (w.1.procs i).Made c (opsOf (.proc i) w.2)

theorem Serving.returned {i : ℕ} {r : ℤ} {stored : UserStore} (hserving : w.Serving)
    (hret : w.1.procs i = .ret r stored) : ∃ c, callOf (.proc i) w.2 = some c ∧
      Outcome c (opsOf (.proc i) w.2) r stored := by
  have hserved := hserving i
  simp only [hret, reduceCtorEq, false_or] at hserved
  exact hserved

theorem Serving.polled {i : ℕ} {mask : UInt32} {triggered : Bool} (hserving : w.Serving)
    (hpolled : w.1.procs i = .poll (.polled mask triggered)) :
    (opsOf (.proc i) w.2).head? = some (.poll, .mask mask) := by
  have hserved := hserving i
  simp only [hpolled, reduceCtorEq, false_or] at hserved
  obtain ⟨c, -, -, hhead⟩ := hserved
  exact hhead

theorem serving_step (hserving : w.Serving) (hstep : w.step a = some w') : w'.Serving := by
  obtain ⟨b, hb, rfl⟩ := Option.map_eq_some_iff.1 hstep
  have hne : ∀ {i j : ℕ}, j ≠ i → LockHolder.proc i ≠ .proc j :=
    fun hji heq => hji (LockHolder.proc.inj heq).symm
  rcases Board.step_cases hb with ⟨i, c, rfl, -, rfl⟩ | ⟨i, x, s', p', rfl, hmove, rfl⟩ |
    ⟨level, rfl, -, hprocs, -⟩ | ⟨rfl, -, rfl⟩
  · intro j
    by_cases hji : j = i
    · subst hji
      exact Or.inr ⟨c, callOf_call_self, by simpa [Board.record] using made_start c⟩
    · simp only [Function.update_of_ne hji, Board.record, callOf_call_of_ne (hne hji),
        opsOf_call_of_ne (hne hji)]
      exact hserving j
  · intro j
    by_cases hji : j = i
    · subst hji
      rcases hserving j with hidle | ⟨c, hcall, hmade⟩
      · rw [hidle] at hmove
        cases hmove
      · refine Or.inr ⟨c, by simpa only [Board.record, callOf_commit] using hcall, ?_⟩
        simpa [Board.record] using made_step hmade hmove
    · simp only [Function.update_of_ne hji, Board.record, callOf_commit,
        opsOf_commit_of_ne (hne hji)]
      exact hserving j
  · intro j
    have hops : opsOf (.proc j) (commit .isr (w.1.isr.commit level) w.2) =
        opsOf (.proc j) w.2 := opsOf_commit_of_ne nofun
    simp only [Board.record, callOf_commit, hops, hprocs, Board.afterIsr]
    rcases hserving j with hidle | ⟨c, hcall, hmade⟩
    · left
      split_ifs <;> simp [hidle, Proc.wake]
    · refine Or.inr ⟨c, hcall, ?_⟩
      split_ifs
      · exact hmade.wake
      · exact hmade
  · exact hserving

/-- The invariant of the driver and its history. -/
structure Inv (w : Traced) : Prop where
  held : w.Held
  legal : Legal buttonObject w.2
  serving : w.Serving

theorem inv_init : Inv init :=
  ⟨held_init, trivial, fun _ => Or.inl rfl⟩

theorem inv_step (hinv : w.Inv) (hstep : w.step a = some w') : w'.Inv :=
  ⟨held_step hinv.held hstep, legal_step hinv.held hinv.legal hstep,
    serving_step hinv.serving hstep⟩

end Traced

/-- The history `h` explains what the run `as` of the driver has come to. -/
structure Explains (as : List BoardAct) (b : Board) (h : BoardHistory) : Prop where
  run : exec Traced.step Traced.init as = some ⟨b, h⟩
  /-- Every answer is that of the device taking one operation after the other. -/
  legal : Legal buttonObject h
  fields : b.sh.lock = none → Represents (b.sh.dev.fields, state buttonObject h)
  pin : EveryStep Board.step (fun u a _ => u.QuietProbe a) Board.init as → b.sh.lock = none →
    b.sh.dev.led = (state buttonObject h).led
  /-- What a call has returned says which operations it has made since it started. -/
  returned : ∀ i r stored, b.procs i = .ret r stored → ∃ c, callOf (.proc i) h = some c ∧
    Outcome c (opsOf (.proc i) h) r stored
  polled : ∀ i mask triggered, b.procs i = .poll (.polled mask triggered) →
    (opsOf (.proc i) h).head? = some (.poll, .mask mask)

/-- Under any schedule the driver is the device : some history explains every run. -/
theorem board_history (as : List BoardAct) (b : Board)
    (hrun : exec Board.step Board.init as = some b) : ∃ h, Explains as b h := by
  obtain ⟨⟨board, h⟩, hw, rfl⟩ :=
    Option.map_eq_some_iff.1 ((exec_recording Board.step Board.record Traced.init as).trans hrun)
  obtain ⟨hheld, hlegal, hserving⟩ :=
    exec_invariant_of_step (fun s a t => Traced.inv_step) Traced.inv_init hw
  refine ⟨h, hw, hlegal, hheld.free, fun hquiet hfree => ?_, fun i r stored hret => ?_,
    fun i mask triggered hpolled => ?_⟩
  · have hled : ledReliance.Holds board := by
      refine exec_invariant (I := ledReliance.Holds) ?_ (ledReliance.holds_init rfl) hquiet hrun
      exact fun u a v hu hq hstep => led_step hu hq hstep
    have hcoherent : board.sh.dev.Coherent := hled.free hfree
    have hrep : Represents (board.sh.dev.fields, state buttonObject h) := hheld.free hfree
    exact Subtype.ext (hcoherent.trans hrep.led)
  · exact hserving.returned hret
  · exact hserving.polled hpolled

/-- The button is pressed while process 0 turns the LED on, and process 1 reads the event. -/
def pressWhileSet : List BoardAct :=
  [.probe, .isr 1, .call 0 (.ioctl .setLed 1), .proc 0 .go, .isr 1, .isr 1, .isr 1, .isr 1,
    .isr 1, .isr 1, .isr 1, .proc 0 .go, .call 1 (.read false), .isr 1] ++
    List.replicate 7 (.proc 0 .go) ++ List.replicate 6 (.proc 1 .go)

theorem pressWhileSet_history :
    ∃ b, exec Board.step Board.init pressWhileSet = some b ∧ b.procs 0 = .ret 0 (.int 1) ∧
      b.procs 1 = .ret 2 (.bytes [49, 0]) ∧ ∃ h, Explains pressWhileSet b h := by
  have hend : (exec Board.step Board.init pressWhileSet).map (fun b => (b.procs 0, b.procs 1)) =
      some (.ret 0 (.int 1), .ret 2 (.bytes [49, 0])) := by decide +kernel
  obtain ⟨b, hb, heq⟩ := Option.map_eq_some_iff.1 hend
  obtain ⟨hset, hread⟩ := Prod.mk.injEq _ _ _ _ ▸ heq
  exact ⟨b, hb, hset, hread, board_history _ b hb⟩

end ProCamp
