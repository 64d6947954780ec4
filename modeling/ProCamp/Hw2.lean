import Mathlib.Tactic.SplitIfs
import ProCamp.GpioLines
import ProCamp.Kernel
import ProCamp.Machine

/-!
# The button module

`HW15/module2/hw2.c` : `hw2_init` requests the button, installs `hw2_btn_isr` for it and
then requests the LED that the handler drives, `hw2_exit` gives all of it back. The module
can be loaded again after a `hw2_init` that failed and after a `hw2_exit`, and a button
interrupt can come whenever the handler is installed. `free_irq` waits for a running
handler.

`hw2_init` undoes nothing when it fails, and drops the result of
`gpio_direction_output`. `set_up_sound_iff` : the handler runs only on an LED that is set
up, and a `hw2_init` that fails leaves nothing behind, in exactly the histories where only
the request of the button fails and no interrupt is handled before `hw2_init` has returned
or without the LED as an output.
-/

namespace ProCamp

open Machine

/-- `AM335_GPIO`. -/
def am335Gpio (bank line : ℤ) : ℤ :=
  32 * bank + line

/-- `LED_GPIO`. -/
def ledGpio : ℤ :=
  am335Gpio 1 15

/-- `BTN_GPIO`. -/
def btnGpio : ℤ :=
  am335Gpio 0 27

/-- Where `hw2_init` or `hw2_exit` is. -/
inductive Hw2Phase where
  /-- Not loaded : never, or after `hw2_exit`. -/
  | unloaded
  /-- `hw2_init` has returned an error. -/
  | failed (ret : ℤ)
  /-- Line 23. -/
  | freeBtn
  /-- Line 24. -/
  | requestBtn
  /-- Lines 29 and 30. -/
  | inputBtn
  /-- Line 31. -/
  | requestIrq
  /-- Line 39. -/
  | requestLed
  /-- Line 44. -/
  | outputLed
  /-- `hw2_init` has returned 0; line 51 of `hw2_exit` is next. -/
  | loaded
  /-- Line 52. -/
  | exitBtn
  /-- Line 53. -/
  | exitLed
  deriving DecidableEq

/-- The module. -/
structure Hw2 where
  phase : Hw2Phase
  lines : GpioLines
  ledOn : Bool
  /-- `hw2_btn_isr` is installed. -/
  irq : Bool
  /-- `hw2_btn_isr` is running. -/
  isr : Bool
  /-- What `gpio_direction_output` has returned last. -/
  outputRet : ℤ

/-- One step of the module or of its handler. -/
inductive Hw2Act where
  /-- The module is loaded. -/
  | load
  /-- The next statement of `hw2_init`; `rc` is what the call in it returns. -/
  | init (rc : ℤ)
  /-- The next statement of `hw2_exit`. -/
  | exit
  /-- A button interrupt. -/
  | press
  /-- `hw2_btn_isr` sets the LED and returns. -/
  | isr
  deriving DecidableEq

namespace Hw2

/-- Before the first load. -/
def start (level : ℤ → Bool) : Hw2 where
  phase := .unloaded
  lines := .unused level
  ledOn := false
  irq := false
  isr := false
  outputRet := 0

/-- The next statement of `hw2_init`. -/
def initStep (s : Hw2) (rc : ℤ) : Option Hw2 :=
  match s.phase with
  | .freeBtn => some { s with phase := .requestBtn, lines := s.lines.free btnGpio }
  | .requestBtn =>
    some { s with
      phase := if rc = 0 then .inputBtn else .failed (-eInval)
      lines := s.lines.request btnGpio rc }
  | .inputBtn => some { s with phase := .requestIrq, lines := s.lines.directionInput btnGpio rc }
  | .requestIrq =>
    some (if rc = 0 then { s with phase := .requestLed, irq := true }
      else { s with phase := .failed (-eInval) })
  | .requestLed =>
    some { s with
      phase := if rc = 0 then .outputLed else .failed (-eInval)
      lines := s.lines.request ledGpio rc }
  | .outputLed =>
    some { s with
      phase := .loaded
      lines := s.lines.directionOutput ledGpio s.ledOn rc
      outputRet := rc }
  | _ => none

/-- The next statement of `hw2_exit`. -/
def exitStep (s : Hw2) : Option Hw2 :=
  match s.phase with
  | .loaded => if s.isr then none else some { s with phase := .exitBtn, irq := false }
  | .exitBtn => some { s with phase := .exitLed, lines := s.lines.free btnGpio }
  | .exitLed => some { s with phase := .unloaded, lines := s.lines.free ledGpio }
  | _ => none

/-- One step. -/
def step (s : Hw2) : Hw2Act → Option Hw2
  | .load =>
    match s.phase with
    | .unloaded | .failed _ => some { s with phase := .freeBtn }
    | _ => none
  | .init rc => s.initStep rc
  | .exit => s.exitStep
  | .press => if s.irq = true ∧ s.isr = false then some { s with isr := true } else none
  | .isr =>
    if s.isr then some { s with isr := false, lines := s.lines.setValue ledGpio s.ledOn } else none

/-- The handler runs only on an LED that is set up, and a `hw2_init` that has failed has left
nothing behind. -/
def Sound (_ : Hw2) (_ : Hw2Act) (t : Hw2) : Prop :=
  (t.isr = true → t.lines.held ledGpio = true ∧ t.lines.output ledGpio = true) ∧
    ∀ ret, t.phase = .failed ret →
      t.irq = false ∧ t.lines.held btnGpio = false ∧ t.lines.held ledGpio = false

/-- The requests of the interrupt and of the LED succeed, and an interrupt comes only after
`hw2_init` has returned, and only where its `gpio_direction_output` has succeeded. -/
def Orderly (s : Hw2) : Hw2Act → Hw2 → Prop
  | .init rc, _ => s.phase = .requestIrq ∨ s.phase = .requestLed → rc = 0
  | .press, _ => s.phase = .loaded ∧ s.outputRet = 0
  | .load, _ | .exit, _ | .isr, _ => True

/-! ## What is set up in each phase -/

/-- What the module has in a phase : the button, the handler, the LED, and the LED as an
output. -/
def Has (s : Hw2) (btn irq led output : Bool) : Prop :=
  s.lines.held btnGpio = btn ∧ s.irq = irq ∧ s.lines.held ledGpio = led ∧
    s.lines.output ledGpio = output

/-- What each phase has set up, where no failure has left anything behind. -/
def PhaseOk (s : Hw2) : Prop :=
  match s.phase with
  | .unloaded | .failed _ | .freeBtn | .requestBtn => s.Has false false false false
  | .inputBtn | .requestIrq => s.Has true false false false
  | .requestLed => s.Has true true false false
  | .outputLed => s.Has true true true false
  | .loaded => s.Has true true true (decide (s.outputRet = 0))
  | .exitBtn => s.Has true false true (decide (s.outputRet = 0))
  | .exitLed => s.Has false false true (decide (s.outputRet = 0))

/-- The handler runs only after `hw2_init`, and on an LED that is set up. -/
structure Inv (s : Hw2) : Prop where
  phase : s.PhaseOk
  isr : s.isr = true → s.phase = .loaded ∧ s.outputRet = 0

variable {s t : Hw2} {a : Hw2Act} {as : List Hw2Act} {level : ℤ → Bool}

theorem inv_start : Inv (start level) :=
  ⟨⟨rfl, rfl, rfl, rfl⟩, fun h => nomatch h⟩

/-- A state like that is sound. -/
theorem Inv.sound (hinv : t.Inv) : Sound s a t := by
  obtain ⟨hphase, hisr⟩ := hinv
  constructor
  · intro hrun
    obtain ⟨hloaded, hret⟩ := hisr hrun
    simp only [PhaseOk, hloaded, hret, decide_true] at hphase
    exact ⟨hphase.2.2.1, hphase.2.2.2⟩
  · intro ret hfailed
    simp only [PhaseOk, hfailed] at hphase
    exact ⟨hphase.2.1, hphase.1, hphase.2.2.1⟩

theorem ledGpio_ne_btnGpio : ledGpio ≠ btnGpio := by
  decide

theorem Inv.not_isr (hinv : s.Inv) (hphase : s.phase ≠ .loaded) : s.isr = false := by
  by_contra hrun
  exact hphase (hinv.isr (by simpa using hrun)).1

theorem inv_of_not_isr (hphase : t.PhaseOk) (hisr : t.isr = false) : t.Inv :=
  ⟨hphase, fun hrun => by simp [hisr] at hrun⟩

/-- The button is released. -/
theorem Has.freeBtn {btn irq led output : Bool} (h : s.Has btn irq led output) (p : Hw2Phase) :
    Has { s with phase := p, lines := s.lines.free btnGpio } false irq led output := by
  obtain ⟨-, hirq, hled, houtput⟩ := h
  have hne := ledGpio_ne_btnGpio
  refine ⟨?_, hirq, ?_, ?_⟩
  · simp
  · simpa [hne] using hled
  · simpa [hne] using houtput

/-! ## One step -/

/-- A statement of `hw2_init` that succeeds, or the request of the button that fails. -/
theorem inv_init {rc : ℤ} (hinv : s.Inv)
    (horder : s.phase = .requestIrq ∨ s.phase = .requestLed → rc = 0)
    (h : s.initStep rc = some t) : t.Inv := by
  have hphase := hinv.phase
  have hne := ledGpio_ne_btnGpio
  unfold initStep at h
  unfold PhaseOk at hphase
  split at h
  case h_1 hpc =>
    simp only [hpc] at hphase
    cases h
    exact inv_of_not_isr (hphase.freeBtn _) (hinv.not_isr (by simp [hpc]))
  case h_2 hpc =>
    simp only [hpc] at hphase
    obtain ⟨hbtn, hirq, hled, houtput⟩ := hphase
    cases h
    refine inv_of_not_isr ?_ (hinv.not_isr (by simp [hpc]))
    by_cases hrc : rc = 0
    · subst hrc
      refine ⟨?_, hirq, ?_, ?_⟩
      · simp
      · simpa [hne] using hled
      · simpa [hne] using houtput
    · simp only [PhaseOk, if_neg hrc, GpioLines.request_of_ne hrc]
      exact ⟨hbtn, hirq, hled, houtput⟩
  case h_3 hpc =>
    simp only [hpc] at hphase
    obtain ⟨hbtn, hirq, hled, houtput⟩ := hphase
    cases h
    refine inv_of_not_isr ⟨?_, hirq, ?_, ?_⟩ (hinv.not_isr (by simp [hpc]))
    · simpa using hbtn
    · simpa using hled
    · simp [GpioLines.directionInput_output, houtput]
  case h_4 hpc =>
    simp only [hpc] at hphase
    obtain ⟨hbtn, -, hled, houtput⟩ := hphase
    rw [if_pos (horder (Or.inl hpc))] at h
    cases h
    exact inv_of_not_isr ⟨hbtn, rfl, hled, houtput⟩ (hinv.not_isr (by simp [hpc]))
  case h_5 hpc =>
    simp only [hpc] at hphase
    obtain ⟨hbtn, hirq, -, -⟩ := hphase
    obtain rfl := horder (Or.inr hpc)
    cases h
    refine inv_of_not_isr ⟨?_, hirq, ?_, ?_⟩ (hinv.not_isr (by simp [hpc]))
    · simpa [hne.symm] using hbtn
    · simp
    · simp
  case h_6 hpc =>
    simp only [hpc] at hphase
    obtain ⟨hbtn, hirq, hled, houtput⟩ := hphase
    cases h
    refine inv_of_not_isr ⟨?_, hirq, ?_, ?_⟩ (hinv.not_isr (by simp [hpc]))
    · simpa using hbtn
    · simpa using hled
    · simp [GpioLines.directionOutput_output, houtput]
  case h_7 => cases h

theorem inv_exit (hinv : s.Inv) (h : s.exitStep = some t) : t.Inv := by
  have hphase := hinv.phase
  have hne := ledGpio_ne_btnGpio
  unfold exitStep at h
  unfold PhaseOk at hphase
  split at h
  case h_1 hpc =>
    simp only [hpc] at hphase
    obtain ⟨hbtn, -, hled, houtput⟩ := hphase
    split_ifs at h with hisr
    cases h
    exact inv_of_not_isr ⟨hbtn, rfl, hled, houtput⟩ (by simpa using hisr)
  case h_2 hpc =>
    simp only [hpc] at hphase
    cases h
    exact inv_of_not_isr (hphase.freeBtn _) (hinv.not_isr (by simp [hpc]))
  case h_3 hpc =>
    simp only [hpc] at hphase
    obtain ⟨hbtn, hirq, -, -⟩ := hphase
    cases h
    refine inv_of_not_isr ⟨?_, hirq, ?_, ?_⟩ (hinv.not_isr (by simp [hpc]))
    · simpa [hne.symm] using hbtn
    · simp
    · simp
  case h_4 => cases h

theorem inv_step (hinv : s.Inv) (horder : s.Orderly a t) (h : s.step a = some t) : t.Inv := by
  cases a with
  | load =>
    have hphase := hinv.phase
    simp only [step] at h
    unfold PhaseOk at hphase
    split at h
    case h_1 hpc =>
      simp only [hpc] at hphase
      cases h
      exact inv_of_not_isr hphase (hinv.not_isr (by simp [hpc]))
    case h_2 hpc =>
      simp only [hpc] at hphase
      cases h
      exact inv_of_not_isr hphase (hinv.not_isr (by simp [hpc]))
    case h_3 => cases h
  | init rc => exact inv_init hinv horder h
  | exit => exact inv_exit hinv h
  | press =>
    simp only [step] at h
    split_ifs at h
    cases h
    exact ⟨hinv.phase, fun _ => horder⟩
  | isr =>
    simp only [step] at h
    split_ifs at h with hisr
    cases h
    refine inv_of_not_isr ?_ rfl
    have hphase := hinv.phase
    simpa [PhaseOk, Has] using hphase

/-- A step that leads to a sound state. -/
theorem orderly_of_sound (hinv : s.Inv) (hsound : Sound s a t) (h : s.step a = some t) :
    s.Orderly a t := by
  have hphase := hinv.phase
  unfold PhaseOk at hphase
  cases a with
  | init rc =>
    intro hpc
    by_contra hrc
    rcases hpc with hpc | hpc <;> simp only [hpc] at hphase <;>
      simp only [step, initStep, hpc, if_neg hrc, GpioLines.request_of_ne hrc] at h <;> cases h
    · have hbtn := (hsound.2 _ rfl).2.1
      simp [hphase.1] at hbtn
    · have hirq := (hsound.2 _ rfl).1
      simp [hphase.2.1] at hirq
  | press =>
    simp only [step] at h
    split_ifs at h with hirq
    cases h
    obtain ⟨hled, houtput⟩ := hsound.1 rfl
    have hled : s.lines.held ledGpio = true := hled
    have houtput : s.lines.output ledGpio = true := houtput
    cases hpc : s.phase <;> simp only [hpc] at hphase <;>
      obtain ⟨-, hirq', hled', houtput'⟩ := hphase
    case requestLed => simp [hled] at hled'
    case outputLed => simp [houtput] at houtput'
    case loaded =>
      rw [houtput] at houtput'
      exact ⟨hpc, of_decide_eq_true houtput'.symm⟩
    all_goals simp [hirq.1] at hirq'
  | load | exit | isr => trivial

/-! ## Histories -/

/-- For every history of loads, `hw2_exit`s and button interrupts, with every outcome of the
calls in `hw2_init` : the handler runs only while the LED is requested and an output, and
after a `hw2_init` that fails the handler is not installed and neither line is held, if and
only if the history is orderly. -/
theorem set_up_sound_iff (level : ℤ → Bool) (as : List Hw2Act) :
    EveryStep step Sound (start level) as ↔ EveryStep step Orderly (start level) as := by
  refine everyStep_congr (I := Inv) ?_ ?_ inv_start
  · intro s a t hinv h
    constructor
    · exact fun hsound => orderly_of_sound hinv hsound h
    · exact fun horder => (inv_step hinv horder h).sound
  · intro s a t hinv hsound h
    exact inv_step hinv (orderly_of_sound hinv hsound h) h

/-- Load up to the installation of the handler. -/
def untilIrq : List Hw2Act :=
  [.load, .init 0, .init 0, .init 0, .init 0]

/-- An interrupt comes before the LED is requested, the request of the LED fails, or the
request of the interrupt fails. -/
theorem set_up_unsound :
    ¬EveryStep step Sound (start fun _ => false) (untilIrq ++ [.press]) ∧
      ¬EveryStep step Sound (start fun _ => false) (untilIrq ++ [.init (-16)]) ∧
      ¬EveryStep step Sound (start fun _ => false)
        [.load, .init 0, .init 0, .init 0, .init (-22)] := by
  refine ⟨fun h => ?_, fun h => ?_, fun h => ?_⟩
  · have hsound := everyStep_iff.1 h untilIrq .press [] _ _ rfl rfl rfl
    exact absurd (hsound.1 rfl).1 (by decide)
  · have hsound := everyStep_iff.1 h untilIrq (.init (-16)) [] _ _ rfl rfl rfl
    exact absurd (hsound.2 _ rfl).1 (by decide)
  · have hsound := everyStep_iff.1 h [.load, .init 0, .init 0, .init 0] (.init (-22)) [] _ _ rfl
      rfl rfl
    exact absurd (hsound.2 _ rfl).2.1 (by decide)

end Hw2

end ProCamp
