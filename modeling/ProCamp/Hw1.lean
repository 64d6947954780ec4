import Mathlib.Data.Nat.Notation
import ProCamp.Machine

/-!
# The LED thread and the other pins of its bank

`hw1_thread_func` of `HW15/module1/hw1.c` copies the button to the LED through
`GPIO1_DATAOUT`, a register of 32 pins of which it owns one. It reads the register,
changes its bit and writes the whole register back; nothing stops another driver from
changing a bit of its own in between.

A step is one register access of the thread, or another driver setting or clearing bits
of its own at once. `owned` is history : each bit as its owner last wrote it. A write of
the thread keeps the other pins exactly if they are as its last read found them
(`other_pins_iff`); the LED always follows the sample.
-/

namespace ProCamp

open Machine

/-- `BTN_LINE`, `BIT(27)`. -/
def btnLine : BitVec 32 :=
  1 <<< 27

/-- `LED_LINE`, `BIT(15)`. -/
def ledLine : BitVec 32 :=
  1 <<< 15

/-- The registers the module maps. -/
structure GpioRegs where
  gpio0Ctrl : BitVec 32
  gpio1Ctrl : BitVec 32
  gpio0Oe : BitVec 32
  gpio1Oe : BitVec 32
  gpio1Dataout : BitVec 32

/-- `hw1_setup_gpio`. -/
def hw1SetupGpio (r : GpioRegs) : GpioRegs :=
  { r with
    gpio0Ctrl := 0
    gpio1Ctrl := 0
    gpio0Oe := r.gpio0Oe ||| btnLine
    gpio1Oe := r.gpio1Oe &&& ~~~ledLine }

/-- Lines 94 to 100 : the value written back. -/
def ledValue (btnVal ledVal : BitVec 32) : BitVec 32 :=
  if btnVal &&& btnLine ≠ 0 then ledVal &&& ~~~ledLine else ledVal ||| ledLine

/-- `hw1_thread_func`, with the line it is about to run. -/
inductive Hw1Pc where
  /-- Line 89. -/
  | check
  /-- Line 92. -/
  | readBtn
  /-- Line 93. -/
  | readLed (btnVal : BitVec 32)
  /-- Lines 94 to 102. -/
  | write (btnVal ledVal : BitVec 32)
  /-- Line 104. -/
  | sleep
  | exited
  deriving DecidableEq

/-- The bank and the thread. -/
structure LedBank where
  regs : GpioRegs
  pc : Hw1Pc
  /-- Each bit as its owner last wrote it, at first as the module found it. -/
  owned : BitVec 32

/-- One step of the thread, or a write of another driver to the bank. -/
inductive BankAct where
  /-- The next step of the thread; `stop` is `kthread_should_stop()` and `datain` the
  register of the button. -/
  | thread (stop : Bool) (datain : BitVec 32)
  /-- Another driver sets bits of its own. -/
  | set (mask : BitVec 32)
  /-- Another driver clears bits of its own. -/
  | clear (mask : BitVec 32)

namespace LedBank

/-- After `hw1_init`. -/
def init (r : GpioRegs) : LedBank :=
  ⟨hw1SetupGpio r, .check, r.gpio1Dataout⟩

/-- `iowrite32(val, led_gpio)`. -/
def iowrite (s : LedBank) (val : BitVec 32) : LedBank :=
  { s with regs := { s.regs with gpio1Dataout := val } }

/-- The next step of `hw1_thread_func`. -/
def threadStep (s : LedBank) (stop : Bool) (datain : BitVec 32) : Option LedBank :=
  match s.pc with
  | .check => some { s with pc := if stop then .exited else .readBtn }
  | .readBtn => some { s with pc := .readLed datain }
  | .readLed btnVal => some { s with pc := .write btnVal s.regs.gpio1Dataout }
  | .write btnVal ledVal => some { s.iowrite (ledValue btnVal ledVal) with pc := .sleep }
  | .sleep => some { s with pc := .check }
  | .exited => none

/-- One step. -/
def step (s : LedBank) : BankAct → Option LedBank
  | .thread stop datain => s.threadStep stop datain
  | .set mask =>
    if mask &&& ledLine = 0 then
      some { s.iowrite (s.regs.gpio1Dataout ||| mask) with owned := s.owned ||| mask }
    else none
  | .clear mask =>
    if mask &&& ledLine = 0 then
      some { s.iowrite (s.regs.gpio1Dataout &&& ~~~mask) with owned := s.owned &&& ~~~mask }
    else none

/-- Two values of the register that differ at most in `LED_LINE`. -/
def SameOthers (x y : BitVec 32) : Prop :=
  x &&& ~~~ledLine = y &&& ~~~ledLine

instance (x y : BitVec 32) : Decidable (SameOthers x y) :=
  inferInstanceAs (Decidable (_ = _))

/-- Every bit but `LED_LINE` has the value its owner last wrote. -/
def OthersKept (s : LedBank) : Prop :=
  SameOthers s.regs.gpio1Dataout s.owned

/-- `LED_LINE` is set exactly if `BTN_LINE` was clear in the sample. -/
def LedFollows (btnVal : BitVec 32) (s : LedBank) : Prop :=
  s.regs.gpio1Dataout &&& ledLine ≠ 0 ↔ btnVal &&& btnLine = 0

/-- After the step the other pins are as their owners left them, and if it was the write
of an iteration the LED follows its sample. -/
def LeavesOthers (s : LedBank) : BankAct → LedBank → Prop
  | .thread _ _, t => t.OthersKept ∧ ∀ btnVal ledVal, s.pc = .write btnVal ledVal →
      t.LedFollows btnVal
  | _, t => t.OthersKept

/-- A write of the thread finds the other pins as its read found them. -/
def ReadIsCurrent (s : LedBank) : BankAct → Prop
  | .thread _ _ => ∀ btnVal ledVal, s.pc = .write btnVal ledVal →
      SameOthers ledVal s.regs.gpio1Dataout
  | _ => True

variable {s t : LedBank} {a : BankAct} {x y mask btnVal ledVal : BitVec 32}

/-! ## Bits -/

theorem sameOthers_iff :
    SameOthers x y ↔ ∀ (i : ℕ) (hi : i < 32), ledLine[i] = false → x[i] = y[i] := by
  constructor
  · intro h i hi hled
    have hbit : (x &&& ~~~ledLine)[i] = (y &&& ~~~ledLine)[i] := by rw [h]
    simpa [hled] using hbit
  · intro h
    show x &&& ~~~ledLine = y &&& ~~~ledLine
    ext i hi
    cases hled : ledLine[i] with
    | true => simp [hled]
    | false => simp [hled, h i hi hled]

theorem sameOthers_or (h : SameOthers x y) (mask : BitVec 32) :
    SameOthers (x ||| mask) (y ||| mask) := by
  rw [sameOthers_iff] at h ⊢
  intro i hi hled
  simp [h i hi hled]

theorem sameOthers_and (h : SameOthers x y) (mask : BitVec 32) :
    SameOthers (x &&& mask) (y &&& mask) := by
  rw [sameOthers_iff] at h ⊢
  intro i hi hled
  simp [h i hi hled]

theorem sameOthers_ledValue (btnVal ledVal : BitVec 32) :
    SameOthers (ledValue btnVal ledVal) ledVal := by
  rw [sameOthers_iff]
  intro i hi hled
  unfold ledValue
  split_ifs
  · simp [hled]
  · simp [hled]

theorem ledLine_ne_zero : ledLine ≠ 0 := by
  decide

theorem ledValue_and_ledLine (btnVal ledVal : BitVec 32) :
    ledValue btnVal ledVal &&& ledLine ≠ 0 ↔ btnVal &&& btnLine = 0 := by
  unfold ledValue
  split_ifs with h
  · have hoff : ledVal &&& ~~~ledLine &&& ledLine = 0 := by
      simp [BitVec.and_assoc]
    simp only [hoff, ne_eq, not_true_eq_false, false_iff]
    exact h
  · have hon : (ledVal ||| ledLine) &&& ledLine = ledLine := by
      ext i hi
      simp only [BitVec.getElem_and, BitVec.getElem_or]
      cases ledVal[i] <;> cases ledLine[i] <;> rfl
    rw [hon]
    exact iff_of_true ledLine_ne_zero (not_not.1 h)

/-! ## Every run -/

theorem othersKept_init (r : GpioRegs) : (init r).OthersKept :=
  rfl

/-- The write of an iteration leaves the others as its read found them. -/
theorem othersKept_write (h : s.OthersKept) :
    SameOthers (ledValue btnVal ledVal) s.owned ↔ SameOthers ledVal s.regs.gpio1Dataout := by
  have hled : SameOthers (ledValue btnVal ledVal) ledVal := sameOthers_ledValue btnVal ledVal
  unfold OthersKept at h
  unfold SameOthers at hled h ⊢
  rw [hled, h]

/-- What one step does to the other pins. -/
theorem leavesOthers_iff (h : s.OthersKept) (hstep : s.step a = some t) :
    s.LeavesOthers a t ↔ s.ReadIsCurrent a := by
  cases a with
  | thread stop datain =>
    simp only [LeavesOthers, ReadIsCurrent]
    simp only [step, threadStep] at hstep
    split at hstep
    case h_4 btnVal ledVal hpc =>
      cases hstep
      have hfollow : LedFollows btnVal { s.iowrite (ledValue btnVal ledVal) with pc := .sleep } :=
        ledValue_and_ledLine btnVal ledVal
      simp only [hpc, Hw1Pc.write.injEq, and_imp]
      constructor
      · rintro ⟨hkept, -⟩ _ _ rfl rfl
        exact (othersKept_write h).1 hkept
      · intro hcur
        refine ⟨(othersKept_write h).2 (hcur _ _ rfl rfl), ?_⟩
        rintro _ _ rfl rfl
        exact hfollow
    case h_6 => cases hstep
    all_goals
      rename_i hpc
      cases hstep
      simp only [hpc, reduceCtorEq, false_imp_iff, implies_true, and_true, iff_true]
      exact h
  | set mask =>
    simp only [step] at hstep
    split_ifs at hstep
    cases hstep
    exact iff_of_true (sameOthers_or h mask) trivial
  | clear mask =>
    simp only [step] at hstep
    split_ifs at hstep
    cases hstep
    exact iff_of_true (sameOthers_and h _) trivial

theorem othersKept_of_leavesOthers (h : s.LeavesOthers a t) : t.OthersKept := by
  cases a with
  | thread stop datain => exact h.1
  | set mask => exact h
  | clear mask => exact h

/-- In every run, the thread leaves the other pins as their owners last wrote them, with
the LED following the button at each write, exactly if each write finds the other pins
as the read before it did. -/
theorem other_pins_iff (r : GpioRegs) (as : List BankAct) :
    EveryStep step LeavesOthers (init r) as ↔
      EveryStep step (fun s a _ => s.ReadIsCurrent a) (init r) as := by
  refine everyStep_congr (I := OthersKept) ?_ ?_ (othersKept_init r)
  · intro s a t hkept hstep
    exact leavesOthers_iff hkept hstep
  · intro s a t _ hleaves _
    exact othersKept_of_leavesOthers hleaves

/-- An iteration with the button up, and another driver setting bit 0 between its read
and its write. -/
def lostUpdate : List BankAct :=
  [.thread false 0, .thread false btnLine, .thread false 0, .set 1, .thread false 0]

/-- The write puts back the old value of bit 0. -/
theorem lostUpdate_not_leavesOthers :
    ¬EveryStep step LeavesOthers (init ⟨0, 0, 0, 0, 0⟩) lostUpdate := by
  rw [everyStep_iff]
  intro h
  have hend : (exec step (init ⟨0, 0, 0, 0, 0⟩) (lostUpdate.take 4)).map (fun s =>
      (s.pc, s.owned)) = some (.write btnLine 0, 1) := by decide
  obtain ⟨s, hs, heq⟩ := Option.map_eq_some_iff.1 hend
  simp only [Prod.mk.injEq] at heq
  have hstep : s.step (.thread false 0) =
      some { s.iowrite (ledValue btnLine 0) with pc := .sleep } := by
    simp [step, threadStep, heq.1]
  obtain ⟨hkept, -⟩ := h (lostUpdate.take 4) (.thread false 0) [] s _ rfl hs hstep
  have hbits : SameOthers (ledValue btnLine 0) s.owned := hkept
  rw [heq.2] at hbits
  revert hbits
  decide

end LedBank

end ProCamp
