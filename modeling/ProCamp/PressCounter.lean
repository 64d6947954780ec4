import Mathlib.Data.BitVec
import Mathlib.Data.Nat.ModEq
import Mathlib.Tactic.SplitIfs
import ProCamp.Deferred
import ProCamp.Kernel
import ProCamp.ReadModifyWrite

/-!
# The press counter

`HW7/onboard_io/onboard_irq.c` : `gpio_irq_handler` counts the presses of a button in
`counter` and wakes `gpio_interrupt_thread_fn`, which prints it. `onboard_io_init` adds to
`counter` twice after it has installed the handler, and no lock is held around an addition :
each is a load and a store, and the handler may run on another CPU in between, or be
interrupted there itself. `counter` is the variable of `ReadModifyWrite`, with the updates it
is made of.

`press_counter_iff` : `counter` is the number of presses as long as `onboard_io_init` has not
added to it, and in general where the presses lost to overlapping additions are as many as it
has added. On one CPU that is 21 presses (`exact_iff_lost`), and without an overlap it never
happens (`not_exact_of_undisturbed`).
-/

namespace ProCamp

open Machine ReadModifyWrite

/-- The additions to `counter`. -/
inductive CounterUpdate where
  /-- Line 74. -/
  | press
  /-- Line 196. -/
  | increment
  /-- Line 198. -/
  | add
  deriving DecidableEq

/-- Who adds. -/
inductive CounterAgent where
  | handler
  | init
  deriving DecidableEq

/-- What an addition adds. -/
def CounterUpdate.amount : CounterUpdate → ℕ
  | .press => 1
  | .increment => 1
  | .add => 20

/-- `onboard_io_init`. -/
inductive CounterInit where
  /-- Lines 147 to 153. -/
  | debugfs
  /-- Line 158. -/
  | button
  /-- Line 170. -/
  | irq
  /-- Line 196, the load. -/
  | load
  /-- Line 196, the store. -/
  | store
  /-- Line 198, the load. -/
  | loadAdd
  /-- Line 198, the store. -/
  | storeAdd
  /-- Line 199. -/
  | ret
  | returned (rc : ℤ)
  deriving DecidableEq

/-- `gpio_irq_handler`. -/
inductive IrqHandler where
  | idle
  /-- Line 74, the load. -/
  | load
  /-- Line 74, the store. -/
  | store
  /-- Line 78. -/
  | ret
  deriving DecidableEq

/-- `gpio_interrupt_thread_fn`. -/
inductive IrqThreadPc where
  /-- Line 85. -/
  | print
  /-- Lines 87 to 93. -/
  | ret
  deriving DecidableEq

/-- The module. -/
structure PressCounter where
  init : CounterInit
  /-- The handler is installed. -/
  irq : Bool
  handler : IrqHandler
  thread : Deferred IrqThreadPc
  counter : Shared CounterAgent CounterUpdate (BitVec 32)
  printed : List (BitVec 32)

/-- One step of the module, of the interrupt or of a user of the counter. -/
inductive PressAct where
  /-- The next step of `onboard_io_init`; `rc` is what the call in it returns. -/
  | init (rc : ℤ)
  /-- The button is pressed. -/
  | press
  /-- The next step of `gpio_irq_handler`. -/
  | handler
  /-- The thread of the interrupt wakes up. -/
  | wake
  /-- The next step of `gpio_interrupt_thread_fn`. -/
  | thread
  deriving DecidableEq

namespace PressCounter

/-- The module as it is loaded. -/
def start : PressCounter where
  init := .debugfs
  irq := false
  handler := .idle
  thread := .idle
  counter := .init
  printed := []

/-- An access to `counter`, after which the module is as `s` says. -/
def access (s : PressCounter) (b : ReadModifyWrite.Act CounterAgent CounterUpdate) :
    Option PressCounter :=
  (s.counter.step CounterUpdate.amount b).map fun counter => { s with counter }

/-- One step of `onboard_io_init`. -/
def initStep (s : PressCounter) (rc : ℤ) : Option PressCounter :=
  match s.init with
  | .debugfs => some { s with init := if rc = 0 then .button else .returned (-eNoMem) }
  | .button => some { s with init := if rc = 0 then .irq else .returned rc }
  | .irq =>
    some (if rc = 0 then { s with init := .load, irq := true }
      else { s with init := .returned rc })
  | .load => access { s with init := .store } (.load .init)
  | .store => access { s with init := .loadAdd } (.store .init .increment)
  | .loadAdd => access { s with init := .storeAdd } (.load .init)
  | .storeAdd => access { s with init := .ret } (.store .init .add)
  | .ret => some { s with init := .returned 0 }
  | .returned _ => none

/-- One step of `gpio_irq_handler`. -/
def handlerStep (s : PressCounter) : Option PressCounter :=
  match s.handler with
  | .idle => none
  | .load => access { s with handler := .store } (.load .handler)
  | .store => access { s with handler := .ret } (.store .handler .press)
  | .ret => some { s with handler := .idle, thread := s.thread.arm }

/-- One step of `gpio_interrupt_thread_fn`. -/
def threadStep (s : PressCounter) : Option PressCounter :=
  match s.thread.pc with
  | some .print =>
    some { s with
      printed := s.printed ++ [s.counter.cell.value]
      thread := s.thread.goto .ret }
  | some .ret => some { s with thread := s.thread.finish }
  | none => none

/-- One step. -/
def step (s : PressCounter) : PressAct → Option PressCounter
  | .init rc => s.initStep rc
  | .press => if s.irq = true ∧ s.handler = .idle then some { s with handler := .load } else none
  | .handler => s.handlerStep
  | .wake => (s.thread.start .print).map fun thread => { s with thread }
  | .thread => s.threadStep

/-- How many runs of `gpio_irq_handler` have counted a press. -/
def presses (s : PressCounter) : ℕ :=
  s.counter.log.count .press

/-- What `onboard_io_init` has added, of what `counter` is made of. -/
def added (s : PressCounter) : ℕ :=
  ((s.counter.cell.updates.filter (· ≠ .press)).map CounterUpdate.amount).sum

/-- The presses that `counter` is not made of. -/
def lost (s : PressCounter) : ℕ :=
  s.presses - s.counter.cell.updates.count .press

/-- `counter` is the number of presses. -/
def Exact (s : PressCounter) : Prop :=
  s.counter.cell.value = BitVec.ofNat 32 s.presses

instance (s : PressCounter) : Decidable s.Exact :=
  inferInstanceAs (Decidable (_ = _))

/-- As many presses are lost as `onboard_io_init` has added. -/
def Offset (s : PressCounter) : Prop :=
  s.added ≡ s.lost [MOD 2 ^ 32]

/-- The access to `counter` in the next step. -/
def nextAccess (s : PressCounter) :
    PressAct → Option (ReadModifyWrite.Act CounterAgent CounterUpdate)
  | .init _ =>
    match s.init with
    | .load | .loadAdd => some (.load .init)
    | .store => some (.store .init .increment)
    | .storeAdd => some (.store .init .add)
    | _ => none
  | .handler =>
    match s.handler with
    | .load => some (.load .handler)
    | .store => some (.store .handler .press)
    | _ => none
  | .press | .wake | .thread => none

/-- The additions of `onboard_io_init` so far. -/
def doneBy : CounterInit → List CounterUpdate
  | .loadAdd | .storeAdd => [.increment]
  | .ret => [.increment, .add]
  | .returned rc => if rc = 0 then [.increment, .add] else []
  | .debugfs | .button | .irq | .load | .store => []

/-- Nothing is lost so far. -/
def NothingLost (s : PressCounter) : Prop :=
  s.counter.cell.updates = s.counter.log

/-- `counter` is made of the presses and of nothing else, and the handler finds it as it has
loaded it. -/
structure OnlyPresses (s : PressCounter) : Prop where
  all : s.NothingLost
  presses : s.counter.cell.updates.filter (· ≠ .press) = []
  reg : ∀ c, s.counter.regs .handler = some c → c = s.counter.cell

/-- No addition overlaps another. -/
def Undisturbed (s : PressCounter) (a : PressAct) (t : PressCounter) : Prop :=
  ∀ b, s.nextAccess a = some b → s.counter.Undisturbed b t.counter

variable {s t : PressCounter} {a : PressAct} {as : List PressAct}
  {b : ReadModifyWrite.Act CounterAgent CounterUpdate}

/-! ## What a step does to `counter` -/

theorem access_eq_some : access s b = some t ↔
    ∃ counter, s.counter.step CounterUpdate.amount b = some counter ∧
      t = { s with counter } := by
  simp [access, eq_comm]

/-- What a step does to `counter`, and to the additions of `onboard_io_init`. -/
inductive CounterMove (s : PressCounter) (a : PressAct) (t : PressCounter) : Prop
  | frame (hnext : s.nextAccess a = none) (hcounter : t.counter = s.counter)
      (hdone : doneBy t.init = doneBy s.init)
  | load (i : CounterAgent) (hnext : s.nextAccess a = some (.load i))
      (hstep : s.counter.step CounterUpdate.amount (.load i) = some t.counter)
      (hdone : doneBy t.init = doneBy s.init)
  | press (hnext : s.nextAccess a = some (.store .handler .press))
      (hstep : s.counter.step CounterUpdate.amount (.store .handler .press) = some t.counter)
      (hdone : doneBy t.init = doneBy s.init)
  | add (u : CounterUpdate) (hu : u ≠ .press) (hnext : s.nextAccess a = some (.store .init u))
      (hstep : s.counter.step CounterUpdate.amount (.store .init u) = some t.counter)
      (hdone : doneBy t.init = doneBy s.init ++ [u])

theorem initStep_move {rc : ℤ} (h : s.initStep rc = some t) : CounterMove s (.init rc) t := by
  unfold initStep at h
  split at h
  case h_1 hpc =>
    cases h
    refine .frame (by simp [nextAccess, hpc]) rfl ?_
    dsimp only
    split_ifs <;> simp [hpc, doneBy, eNoMem]
  case h_2 hpc =>
    cases h
    refine .frame (by simp [nextAccess, hpc]) rfl ?_
    dsimp only
    split_ifs with hrc <;> simp [hpc, doneBy, hrc]
  case h_3 hpc =>
    split_ifs at h with hrc <;> cases h
    · exact .frame (by simp [nextAccess, hpc]) rfl (by simp [hpc, doneBy])
    · exact .frame (by simp [nextAccess, hpc]) rfl (by simp [hpc, doneBy, hrc])
  case h_4 hpc =>
    obtain ⟨counter, hcounter, rfl⟩ := access_eq_some.1 h
    exact .load .init (by simp [nextAccess, hpc]) hcounter (by simp [hpc, doneBy])
  case h_5 hpc =>
    obtain ⟨counter, hcounter, rfl⟩ := access_eq_some.1 h
    exact .add .increment (by decide) (by simp [nextAccess, hpc]) hcounter (by simp [hpc, doneBy])
  case h_6 hpc =>
    obtain ⟨counter, hcounter, rfl⟩ := access_eq_some.1 h
    exact .load .init (by simp [nextAccess, hpc]) hcounter (by simp [hpc, doneBy])
  case h_7 hpc =>
    obtain ⟨counter, hcounter, rfl⟩ := access_eq_some.1 h
    exact .add .add (by decide) (by simp [nextAccess, hpc]) hcounter (by simp [hpc, doneBy])
  case h_8 hpc =>
    cases h
    exact .frame (by simp [nextAccess, hpc]) rfl (by simp [hpc, doneBy])
  case h_9 => cases h

theorem step_move (h : s.step a = some t) : CounterMove s a t := by
  cases a with
  | init rc => exact initStep_move h
  | press =>
    simp only [step] at h
    split_ifs at h
    cases h
    exact .frame rfl rfl rfl
  | handler =>
    simp only [step, handlerStep] at h
    split at h
    case h_1 => cases h
    case h_2 hpc =>
      obtain ⟨counter, hcounter, rfl⟩ := access_eq_some.1 h
      exact .load .handler (by simp [nextAccess, hpc]) hcounter rfl
    case h_3 hpc =>
      obtain ⟨counter, hcounter, rfl⟩ := access_eq_some.1 h
      exact .press (by simp [nextAccess, hpc]) hcounter rfl
    case h_4 hpc =>
      cases h
      exact .frame (by simp [nextAccess, hpc]) rfl rfl
  | wake =>
    obtain ⟨d, -, rfl⟩ := Option.map_eq_some_iff.1 h
    exact .frame rfl rfl rfl
  | thread =>
    simp only [step, threadStep] at h
    split at h <;> cases h <;> exact .frame rfl rfl rfl

/-- `counter` is made of additions that have been stored. -/
def Inv (s : PressCounter) : Prop :=
  s.counter.Inv CounterUpdate.amount

theorem inv_start : Inv start :=
  Shared.inv_init

theorem inv_step (hinv : s.Inv) (h : s.step a = some t) : t.Inv := by
  cases step_move h with
  | frame hnext hcounter hdone =>
    unfold Inv
    rw [hcounter]
    exact hinv
  | load i hnext hstep hdone => exact Shared.inv_step hinv hstep
  | press hnext hstep hdone => exact Shared.inv_step hinv hstep
  | add u hu hnext hstep hdone => exact Shared.inv_step hinv hstep

/-! ## Presses and other additions -/

/-- The sum of additions, the presses apart. -/
theorem sum_amount (l : List CounterUpdate) : (l.map CounterUpdate.amount).sum =
    l.count .press + ((l.filter (· ≠ .press)).map CounterUpdate.amount).sum := by
  induction l with
  | nil => rfl
  | cons u l ih =>
    cases u <;> simp [ih, CounterUpdate.amount] <;> omega

/-- Two numbers stored in an `int`. -/
theorem ofNat_eq_iff (m n : ℕ) : BitVec.ofNat 32 m = BitVec.ofNat 32 n ↔ m ≡ n [MOD 2 ^ 32] := by
  rw [← BitVec.toNat_inj, BitVec.toNat_ofNat, BitVec.toNat_ofNat]
  rfl

theorem Inv.value (hinv : s.Inv) : s.counter.cell.value =
    BitVec.ofNat 32 (s.counter.cell.updates.count .press + s.added) := by
  rw [hinv.cell.value, sum_amount]
  rfl

/-- `counter` is the number of presses if and only if the presses lost make up for what
`onboard_io_init` has added. -/
theorem exact_iff_offset (hinv : s.Inv) : s.Exact ↔ s.Offset := by
  have hle : s.counter.cell.updates.count .press ≤ s.presses := hinv.cell.sublist.count_le _
  have hsplit : s.presses = s.counter.cell.updates.count .press + s.lost :=
    (Nat.add_sub_cancel' hle).symm
  rw [Exact, hinv.value, hsplit, ofNat_eq_iff]
  exact ⟨Nat.ModEq.add_left_cancel' _, Nat.ModEq.add_left _⟩

theorem OnlyPresses.offset (hs : s.OnlyPresses) : s.Offset := by
  have hadded : s.added = 0 := by
    rw [added, hs.presses]
    rfl
  have hlost : s.lost = 0 := by
    rw [lost, hs.all, PressCounter.presses, Nat.sub_self]
  rw [Offset, hadded, hlost]

/-- The handler finds `counter` as it has loaded it. -/
def HandlerUndisturbed (s : PressCounter) (a : PressAct) (_ : PressCounter) : Prop :=
  s.nextAccess a = some (.store .handler .press) →
    s.counter.regs .handler = some s.counter.cell

/-- `counter`, and what `onboard_io_init` has loaded of it, are made of all its additions. -/
structure InitKept (s : PressCounter) : Prop where
  cell : s.counter.cell.updates.filter (· ≠ .press) = doneBy s.init
  reg : ∀ c, s.counter.regs .init = some c → c.updates.filter (· ≠ .press) = doneBy s.init

theorem initKept_start : InitKept start :=
  ⟨rfl, fun _ h => nomatch h⟩

theorem initKept_step (hkept : s.InitKept) (hhandler : HandlerUndisturbed s a t)
    (h : s.step a = some t) : t.InitKept := by
  cases step_move h with
  | frame hnext hcounter hdone =>
    refine ⟨?_, ?_⟩ <;> rw [hcounter, hdone]
    · exact hkept.cell
    · exact hkept.reg
  | load i hnext hstep hdone =>
    have hcounter := Option.some.inj hstep
    refine ⟨?_, fun c hc => ?_⟩ <;> rw [hdone]
    · rw [← hcounter]
      exact hkept.cell
    · rw [← hcounter] at hc
      cases i with
      | handler => exact hkept.reg c (by simpa using hc)
      | init =>
        obtain rfl : s.counter.cell = c := by simpa using hc
        exact hkept.cell
  | press hnext hstep hdone =>
    obtain ⟨c, hc, hcounter⟩ := Shared.step_store hstep
    obtain rfl := Option.some.inj ((hhandler hnext).symm.trans hc)
    refine ⟨?_, fun c hc => ?_⟩ <;> rw [hdone]
    · rw [hcounter, ← hkept.cell]
      simp [Copy.add]
    · rw [hcounter] at hc
      exact hkept.reg c (by simpa using hc)
  | add u hu hnext hstep hdone =>
    obtain ⟨c, hc, hcounter⟩ := Shared.step_store hstep
    refine ⟨?_, fun c hc => ?_⟩
    · rw [hcounter, hdone, ← hkept.reg c hc]
      simp [Copy.add, hu]
    · rw [hcounter] at hc
      simp at hc

/-- Where `onboard_io_init` does not go on inside the handler, as on one CPU, `counter` is
exact after it has returned 0 only if 21 presses have been lost. -/
theorem exact_iff_lost (hhandler : EveryStep step HandlerUndisturbed start as)
    (h : exec step start as = some s) (hret : s.init = .returned 0) :
    s.Exact ↔ 21 ≡ s.lost [MOD 2 ^ 32] := by
  have hinv : s.Inv := exec_invariant_of_step (fun s a t => inv_step) inv_start h
  have hkept : s.InitKept := by
    refine exec_invariant (I := InitKept) ?_ initKept_start hhandler h
    exact fun s a t hkept hhandler hstep => initKept_step hkept hhandler hstep
  have hadded : s.added = 21 := by
    rw [added, hkept.cell, hret]
    rfl
  rw [exact_iff_offset hinv, Offset, hadded]

/-! ## Without overlaps -/

theorem nothingLost_step (hall : s.NothingLost) (hundisturbed : s.Undisturbed a t)
    (h : s.step a = some t) : t.NothingLost := by
  cases step_move h with
  | frame hnext hcounter hdone =>
    rw [NothingLost, hcounter]
    exact hall
  | load i hnext hstep hdone | press hnext hstep hdone | add u hu hnext hstep hdone =>
    exact Shared.updates_eq_log_step hall (hundisturbed _ hnext) hstep

/-- In no run without an overlap is `counter` exact once `onboard_io_init` has returned 0 : it
is 21 ahead. -/
theorem not_exact_of_undisturbed (hundisturbed : EveryStep step Undisturbed start as)
    (h : exec step start as = some s) (hret : s.init = .returned 0) : ¬s.Exact := by
  have hhandler : EveryStep step HandlerUndisturbed start as :=
    hundisturbed.mono fun s a t hundisturbed hnext => hundisturbed _ hnext
  have hall : s.NothingLost := by
    have hstart : NothingLost start := rfl
    refine exec_invariant (I := NothingLost) ?_ hstart hundisturbed h
    exact fun s a t hall hundisturbed hstep => nothingLost_step hall hundisturbed hstep
  have hlost : s.lost = 0 := by
    rw [lost, hall, presses, Nat.sub_self]
  rw [exact_iff_lost hhandler h hret, hlost]
  decide

end PressCounter

end ProCamp
