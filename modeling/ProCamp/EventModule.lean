import Mathlib.Logic.Function.Basic
import ProCamp.Deferred
import ProCamp.EventList

/-!
# The event module

The whole of `HW9/spinlock.c` : `simple_wq_init` allocates the nodes and arms the two
timers, `timer_callback` and `irq_simulation_callback` run from them and re-arm, and
`simple_wq_exit` frees the nodes. All of them walk the list through one global `cursor`,
the callbacks under the lock of the head, `simple_wq_exit` without it.

An action is one step of one of them, or the firing of a pending timer, which can come in
any order; a callback does not run twice at a time. The step reads or writes one thing the
others can see. `list_del` and `list_rotate_left` are one step each. A step that touches a
node that is not allocated, or the head in place of a node, is undefined : it is not
enabled.

`timerRuns` and `irqRuns` are history.
-/

namespace ProCamp

open Machine

/-- `cursor` and `tmp` : a node, or what `list_entry` makes of the list head. -/
inductive Cursor where
  | null
  | head
  | node (id : ℕ)
  deriving DecidableEq

/-- `timer_callback`, with the line it is about to run. -/
inductive TimerPc where
  /-- Lines 68 and 69. -/
  | number
  /-- Line 79. -/
  | lock
  /-- Line 80. -/
  | first
  /-- Line 81. -/
  | test
  /-- Lines 83 and 84. -/
  | setNumber
  /-- Line 85. -/
  | setTime
  /-- Line 86. -/
  | rotate
  /-- Line 87. -/
  | print
  /-- Line 93. -/
  | unlock
  /-- Lines 95 to 97. -/
  | rearm
  deriving DecidableEq

/-- `irq_simulation_callback`. -/
inductive IrqPc where
  /-- Line 109. -/
  | lock
  /-- Line 111, the first entry. -/
  | first
  /-- Line 111, the end of the list. -/
  | test
  /-- Line 113. -/
  | read
  /-- Lines 115 and 116. -/
  | take
  /-- Lines 117 and 118. -/
  | clear
  /-- Line 111, the next entry. -/
  | next
  /-- Line 125. -/
  | unlock
  /-- Lines 141 to 143. -/
  | rearm
  deriving DecidableEq

/-- `simple_wq_init`. -/
inductive EventInit where
  /-- Line 151, with `listMembers` to go. -/
  | alloc (listMembers : ℕ)
  /-- Lines 171 and 172. -/
  | timer
  /-- Lines 176 and 177. -/
  | irq
  | done
  deriving DecidableEq

/-- `simple_wq_exit`. -/
inductive EventExit where
  /-- Not begun. -/
  | loaded
  /-- Line 185, the first entry. -/
  | first
  /-- Line 185, the entry after it. -/
  | next
  /-- Line 185, the end of the list. -/
  | test
  /-- Lines 187 and 188. -/
  | del
  /-- Line 190. -/
  | free
  /-- Line 185, on to `tmp`. -/
  | advance
  /-- Line 185, the entry after `tmp`. -/
  | nextTmp
  | returned
  deriving DecidableEq

/-- Who can hold the lock of the head. -/
inductive EventCallback where
  | timer
  | irq
  deriving DecidableEq

/-- The list as the pointers see it : the nodes linked from the head, in order, those
allocated and not freed, what is in them, and the global `cursor`. -/
structure NodeList where
  linked : List ℕ
  live : ℕ → Bool
  mem : ℕ → ListData
  cursor : Cursor

namespace NodeList

/-- `list_entry` of what a head or node points to. -/
def entry : List ℕ → Cursor
  | [] => .head
  | id :: _ => .node id

/-- `list_first_entry`. -/
def firstEntry (l : NodeList) : Cursor :=
  entry l.linked

/-- `list_next_entry`. A node that is not linked has no next entry. -/
def nextEntry (l : NodeList) : Cursor → Option Cursor
  | .null => none
  | .head => some l.firstEntry
  | .node id =>
    if id ∈ l.linked ∧ l.live id = true then
      some (entry ((l.linked.dropWhile (· ≠ id)).drop 1))
    else none

/-- The node `cursor` points to, if its memory is allocated. -/
def deref (l : NodeList) : Option ℕ :=
  match l.cursor with
  | .null | .head => none
  | .node id => if l.live id = true then some id else none

/-- `cursor` is a node that is linked and not freed. -/
def OnNode (l : NodeList) : Prop :=
  ∃ id ∈ l.linked, l.cursor = .node id ∧ l.live id = true

/-- `list_rotate_left`. -/
def rotateLeft (l : NodeList) : NodeList :=
  { l with linked := l.linked.rotate 1 }

end NodeList

/-- The module. -/
structure EventModule where
  init : EventInit
  exit : EventExit
  myTimer : Deferred TimerPc
  irqTimer : Deferred IrqPc
  /-- `times` of `timer_callback`. -/
  timerTimes : Int32
  /-- `times` of `irq_simulation_callback`. -/
  irqTimes : Int32
  listSpinlock : Option EventCallback
  list : NodeList
  tmp : Cursor
  currentNumber : ℤ
  currentTime : ℤ
  timerRuns : ℕ
  irqRuns : ℕ

/-- One step of the module, or a timer that fires. -/
inductive ModuleAct where
  /-- The next step of `simple_wq_init`; `ok` is the outcome of its `kmalloc`. -/
  | init (ok : Bool)
  | fireTimer
  | fireIrq
  /-- The next step of `timer_callback`, with `now` from `ktime_get`. -/
  | timer (now : ℤ)
  /-- The next step of `irq_simulation_callback`. -/
  | irq
  /-- The next step of `simple_wq_exit`. -/
  | exit

namespace EventModule

/-- The module when it is loaded. -/
def start : EventModule where
  init := .alloc 5
  exit := .loaded
  myTimer := .idle
  irqTimer := .idle
  timerTimes := 15
  irqTimes := 6
  listSpinlock := none
  list := ⟨[], fun _ => false, fun _ => ⟨0, 0⟩, .null⟩
  tmp := .null
  currentNumber := 0
  currentTime := 0
  timerRuns := 0
  irqRuns := 0

/-- `list_add` of node `id`, allocated and zeroed. -/
def addNode (l : NodeList) (id : ℕ) : NodeList where
  linked := id :: l.linked
  live := Function.update l.live id true
  mem := Function.update l.mem id ⟨0, 0⟩
  cursor := .node id

/-- One step of `simple_wq_init`. -/
def initStep (s : EventModule) (ok : Bool) : Option EventModule :=
  match s.init with
  | .alloc 0 => some { s with init := .timer }
  | .alloc (listMembers + 1) =>
    some (if ok then { s with init := .alloc listMembers, list := addNode s.list listMembers }
      else { s with init := .alloc listMembers, list := { s.list with cursor := .null } })
  | .timer => some { s with init := .irq, myTimer := s.myTimer.arm }
  | .irq => some { s with init := .done, irqTimer := s.irqTimer.arm }
  | .done => none

/-- `timer_callback` at `pc`. -/
def gotoTimer (s : EventModule) (pc : TimerPc) : EventModule :=
  { s with myTimer := s.myTimer.goto pc }

/-- `irq_simulation_callback` at `pc`. -/
def gotoIrq (s : EventModule) (pc : IrqPc) : EventModule :=
  { s with irqTimer := s.irqTimer.goto pc }

/-- One step of `timer_callback`. -/
def timerStep (s : EventModule) (now : ℤ) : Option EventModule :=
  match s.myTimer.pc with
  | some .number =>
    some { s.gotoTimer .lock with
      currentNumber := toInt (s.currentNumber + 1)
      currentTime := toInt now }
  | some .lock =>
    if s.listSpinlock = none then
      some { s.gotoTimer .first with listSpinlock := some .timer }
    else none
  | some .first =>
    some { s.gotoTimer .test with list := { s.list with cursor := s.list.firstEntry } }
  | some .test =>
    s.list.deref.map fun id =>
      s.gotoTimer (if (s.list.mem id).number = 0 then .setNumber else .unlock)
  | some .setNumber =>
    s.list.deref.map fun id =>
      { s.gotoTimer .setTime with
        list := { s.list with
          mem := Function.update s.list.mem id ⟨(s.list.mem id).time, s.currentNumber⟩ } }
  | some .setTime =>
    s.list.deref.map fun id =>
      { s.gotoTimer .rotate with
        list := { s.list with
          mem := Function.update s.list.mem id ⟨s.currentTime, (s.list.mem id).number⟩ } }
  | some .rotate => some { s.gotoTimer .print with list := s.list.rotateLeft }
  | some .print => s.list.deref.map fun _ => s.gotoTimer .unlock
  | some .unlock => some { s.gotoTimer .rearm with listSpinlock := none }
  | some .rearm =>
    some { s with
      timerTimes := s.timerTimes - 1
      myTimer := if s.timerTimes - 1 ≠ 0 then s.myTimer.finish.arm else s.myTimer.finish }
  | none => none

/-- One step of `irq_simulation_callback`. -/
def irqStep (s : EventModule) : Option EventModule :=
  match s.irqTimer.pc with
  | some .lock =>
    if s.listSpinlock = none then
      some { s.gotoIrq .first with listSpinlock := some .irq }
    else none
  | some .first =>
    some { s.gotoIrq .test with list := { s.list with cursor := s.list.firstEntry } }
  | some .test => some (s.gotoIrq (if s.list.cursor = .head then .unlock else .read))
  | some .read =>
    s.list.deref.map fun id =>
      s.gotoIrq (if (s.list.mem id).number ≠ 0 then .take else .next)
  | some .take => s.list.deref.map fun _ => s.gotoIrq .clear
  | some .clear =>
    s.list.deref.map fun id =>
      { s.gotoIrq .unlock with
        list := { s.list with mem := Function.update s.list.mem id ⟨0, 0⟩ } }
  | some .next =>
    (s.list.nextEntry s.list.cursor).map fun cursor =>
      { s.gotoIrq .test with list := { s.list with cursor } }
  | some .unlock => some { s.gotoIrq .rearm with listSpinlock := none }
  | some .rearm =>
    some { s with
      irqTimes := s.irqTimes - 1
      myTimer := if s.irqTimes - 1 ≠ 0 then s.myTimer.arm else s.myTimer
      irqTimer := s.irqTimer.finish }
  | none => none

/-- One step of `simple_wq_exit`. -/
def exitStep (s : EventModule) : Option EventModule :=
  match s.exit with
  | .loaded => if s.init = .done then some { s with exit := .first } else none
  | .first =>
    some { s with exit := .next, list := { s.list with cursor := s.list.firstEntry } }
  | .next => (s.list.nextEntry s.list.cursor).map fun tmp => { s with exit := .test, tmp }
  | .test => some { s with exit := if s.list.cursor = .head then .returned else .del }
  | .del =>
    s.list.deref.bind fun id =>
      if id ∈ s.list.linked then
        some { s with exit := .free, list := { s.list with linked := s.list.linked.erase id } }
      else none
  | .free =>
    s.list.deref.map fun id =>
      { s with
        exit := .advance
        list := { s.list with live := Function.update s.list.live id false } }
  | .advance => some { s with exit := .nextTmp, list := { s.list with cursor := s.tmp } }
  | .nextTmp => (s.list.nextEntry s.tmp).map fun tmp => { s with exit := .test, tmp }
  | .returned => none

/-- One step. -/
def step (s : EventModule) : ModuleAct → Option EventModule
  | .init ok => s.initStep ok
  | .fireTimer =>
    (s.myTimer.start .number).map fun myTimer =>
      { s with myTimer, timerRuns := s.timerRuns + 1 }
  | .fireIrq =>
    (s.irqTimer.start .lock).map fun irqTimer => { s with irqTimer, irqRuns := s.irqRuns + 1 }
  | .timer now => s.timerStep now
  | .irq => s.irqStep
  | .exit => s.exitStep

/-! ## What a step can do -/

/-- The steps of `timer_callback`. -/
inductive TimerMove (s : EventModule) : EventModule → Prop
  | number (now : ℤ) (hpc : s.myTimer.pc = some .number) : TimerMove s { s.gotoTimer .lock with
      currentNumber := toInt (s.currentNumber + 1)
      currentTime := toInt now }
  | lock (hpc : s.myTimer.pc = some .lock) (hfree : s.listSpinlock = none) :
      TimerMove s { s.gotoTimer .first with listSpinlock := some .timer }
  | first (hpc : s.myTimer.pc = some .first) : TimerMove s { s.gotoTimer .test with
      list := { s.list with cursor := s.list.firstEntry } }
  | empty {id : ℕ} (hpc : s.myTimer.pc = some .test) (hid : s.list.deref = some id)
      (hzero : (s.list.mem id).number = 0) : TimerMove s (s.gotoTimer .setNumber)
  | overflow {id : ℕ} (hpc : s.myTimer.pc = some .test) (hid : s.list.deref = some id)
      (hne : (s.list.mem id).number ≠ 0) : TimerMove s (s.gotoTimer .unlock)
  | setNumber {id : ℕ} (hpc : s.myTimer.pc = some .setNumber) (hid : s.list.deref = some id) :
      TimerMove s { s.gotoTimer .setTime with
        list := { s.list with
          mem := Function.update s.list.mem id ⟨(s.list.mem id).time, s.currentNumber⟩ } }
  | setTime {id : ℕ} (hpc : s.myTimer.pc = some .setTime) (hid : s.list.deref = some id) :
      TimerMove s { s.gotoTimer .rotate with
        list := { s.list with
          mem := Function.update s.list.mem id ⟨s.currentTime, (s.list.mem id).number⟩ } }
  | rotate (hpc : s.myTimer.pc = some .rotate) :
      TimerMove s { s.gotoTimer .print with list := s.list.rotateLeft }
  | print {id : ℕ} (hpc : s.myTimer.pc = some .print) (hid : s.list.deref = some id) :
      TimerMove s (s.gotoTimer .unlock)
  | unlock (hpc : s.myTimer.pc = some .unlock) :
      TimerMove s { s.gotoTimer .rearm with listSpinlock := none }
  | rearm (hpc : s.myTimer.pc = some .rearm) : TimerMove s { s with
      timerTimes := s.timerTimes - 1
      myTimer := if s.timerTimes - 1 ≠ 0 then s.myTimer.finish.arm else s.myTimer.finish }

/-- The steps of `irq_simulation_callback`. -/
inductive IrqMove (s : EventModule) : EventModule → Prop
  | lock (hpc : s.irqTimer.pc = some .lock) (hfree : s.listSpinlock = none) :
      IrqMove s { s.gotoIrq .first with listSpinlock := some .irq }
  | first (hpc : s.irqTimer.pc = some .first) : IrqMove s { s.gotoIrq .test with
      list := { s.list with cursor := s.list.firstEntry } }
  | last (hpc : s.irqTimer.pc = some .test) (hhead : s.list.cursor = .head) :
      IrqMove s (s.gotoIrq .unlock)
  | test (hpc : s.irqTimer.pc = some .test) (hhead : s.list.cursor ≠ .head) :
      IrqMove s (s.gotoIrq .read)
  | found {id : ℕ} (hpc : s.irqTimer.pc = some .read) (hid : s.list.deref = some id)
      (hne : (s.list.mem id).number ≠ 0) : IrqMove s (s.gotoIrq .take)
  | skip {id : ℕ} (hpc : s.irqTimer.pc = some .read) (hid : s.list.deref = some id)
      (hzero : (s.list.mem id).number = 0) : IrqMove s (s.gotoIrq .next)
  | take {id : ℕ} (hpc : s.irqTimer.pc = some .take) (hid : s.list.deref = some id) :
      IrqMove s (s.gotoIrq .clear)
  | clear {id : ℕ} (hpc : s.irqTimer.pc = some .clear) (hid : s.list.deref = some id) :
      IrqMove s { s.gotoIrq .unlock with
        list := { s.list with mem := Function.update s.list.mem id ⟨0, 0⟩ } }
  | next {cursor : Cursor} (hpc : s.irqTimer.pc = some .next)
      (hnext : s.list.nextEntry s.list.cursor = some cursor) :
      IrqMove s { s.gotoIrq .test with list := { s.list with cursor } }
  | unlock (hpc : s.irqTimer.pc = some .unlock) :
      IrqMove s { s.gotoIrq .rearm with listSpinlock := none }
  | rearm (hpc : s.irqTimer.pc = some .rearm) : IrqMove s { s with
      irqTimes := s.irqTimes - 1
      myTimer := if s.irqTimes - 1 ≠ 0 then s.myTimer.arm else s.myTimer
      irqTimer := s.irqTimer.finish }

/-- The steps of `simple_wq_exit`. -/
inductive ExitMove (s : EventModule) : EventModule → Prop
  | enter (hpc : s.exit = .loaded) (hinit : s.init = .done) :
      ExitMove s { s with exit := .first }
  | first (hpc : s.exit = .first) :
      ExitMove s { s with exit := .next, list := { s.list with cursor := s.list.firstEntry } }
  | walk {pc : EventExit} {list : NodeList} {tmp : Cursor} (hpc : s.exit ≠ .loaded)
      (hpc' : pc ≠ .loaded ∧ pc ≠ .first) : ExitMove s { s with exit := pc, list, tmp }

variable {s t : EventModule}

theorem timerStep_move {now : ℤ} (h : s.timerStep now = some t) : s.TimerMove t := by
  unfold timerStep at h
  split at h
  case h_1 hpc => cases h; exact .number now hpc
  case h_2 hpc =>
    split_ifs at h with hfree
    cases h
    exact .lock hpc hfree
  case h_3 hpc => cases h; exact .first hpc
  case h_4 hpc =>
    obtain ⟨id, hid, rfl⟩ := Option.map_eq_some_iff.1 h
    split_ifs with hzero
    · exact .empty hpc hid hzero
    · exact .overflow hpc hid hzero
  case h_5 hpc =>
    obtain ⟨id, hid, rfl⟩ := Option.map_eq_some_iff.1 h
    exact .setNumber hpc hid
  case h_6 hpc =>
    obtain ⟨id, hid, rfl⟩ := Option.map_eq_some_iff.1 h
    exact .setTime hpc hid
  case h_7 hpc => cases h; exact .rotate hpc
  case h_8 hpc =>
    obtain ⟨id, hid, rfl⟩ := Option.map_eq_some_iff.1 h
    exact .print hpc hid
  case h_9 hpc => cases h; exact .unlock hpc
  case h_10 hpc => cases h; exact .rearm hpc
  case h_11 => cases h

theorem irqStep_move (h : s.irqStep = some t) : s.IrqMove t := by
  unfold irqStep at h
  split at h
  case h_1 hpc =>
    split_ifs at h with hfree
    cases h
    exact .lock hpc hfree
  case h_2 hpc => cases h; exact .first hpc
  case h_3 hpc =>
    cases h
    split_ifs with hhead
    · exact .last hpc hhead
    · exact .test hpc hhead
  case h_4 hpc =>
    obtain ⟨id, hid, rfl⟩ := Option.map_eq_some_iff.1 h
    split_ifs with hne
    · exact .found hpc hid hne
    · exact .skip hpc hid (not_not.1 hne)
  case h_5 hpc =>
    obtain ⟨id, hid, rfl⟩ := Option.map_eq_some_iff.1 h
    exact .take hpc hid
  case h_6 hpc =>
    obtain ⟨id, hid, rfl⟩ := Option.map_eq_some_iff.1 h
    exact .clear hpc hid
  case h_7 hpc =>
    obtain ⟨cursor, hnext, rfl⟩ := Option.map_eq_some_iff.1 h
    exact .next hpc hnext
  case h_8 hpc => cases h; exact .unlock hpc
  case h_9 hpc => cases h; exact .rearm hpc
  case h_10 => cases h

theorem exitStep_move (h : s.exitStep = some t) : s.ExitMove t := by
  unfold exitStep at h
  split at h
  case h_1 hpc =>
    split_ifs at h with hinit
    cases h
    exact .enter hpc hinit
  case h_2 hpc => cases h; exact .first hpc
  case h_3 hpc | h_6 hpc | h_8 hpc =>
    obtain ⟨_, -, rfl⟩ := Option.map_eq_some_iff.1 h
    exact .walk (by simp [hpc]) (by simp)
  case h_4 hpc =>
    cases h
    refine .walk (by simp [hpc]) ?_
    split_ifs <;> simp
  case h_5 hpc =>
    obtain ⟨id, -, h⟩ := Option.bind_eq_some_iff.1 h
    split_ifs at h
    cases h
    exact .walk (by simp [hpc]) (by simp)
  case h_7 hpc =>
    cases h
    exact .walk (by simp [hpc]) (by simp)
  case h_9 => cases h

end EventModule

end ProCamp
