import Mathlib.Data.Int.Notation
import Mathlib.Logic.Function.Basic

/-!
# GPIO lines

The lines of a controller as one user sees them : which it holds, and which of these it has
configured as outputs since it requested them. A request takes a line as it is, a release
gives up the configuration too, and a value reaches the pin of a line that is configured as
output. Any integer names a line, so a number that is no line is one that is never held.
-/

/-- What a user has requested and configured, and the level at each pin. -/
structure GpioLines where
  held : ℤ → Bool
  output : ℤ → Bool
  level : ℤ → Bool

namespace GpioLines

/-- Nothing is requested. -/
def unused (level : ℤ → Bool) : GpioLines where
  held _ := false
  output _ := false
  level := level

/-- A request that returns `rc`. -/
def request (l : GpioLines) (gpio rc : ℤ) : GpioLines :=
  if rc = 0 then
    { l with
      held := Function.update l.held gpio true
      output := Function.update l.output gpio false }
  else l

/-- The line is released. -/
def free (l : GpioLines) (gpio : ℤ) : GpioLines :=
  { l with
    held := Function.update l.held gpio false
    output := Function.update l.output gpio false }

/-- A configuration as input that returns `rc`. -/
def directionInput (l : GpioLines) (gpio rc : ℤ) : GpioLines :=
  if rc = 0 then { l with output := Function.update l.output gpio false } else l

/-- A configuration as output, with a first value, that returns `rc`. -/
def directionOutput (l : GpioLines) (gpio : ℤ) (value : Bool) (rc : ℤ) : GpioLines :=
  if rc = 0 then
    { l with
      output := Function.update l.output gpio true
      level := Function.update l.level gpio value }
  else l

/-- A value is set. -/
def setValue (l : GpioLines) (gpio : ℤ) (value : Bool) : GpioLines :=
  if l.output gpio then { l with level := Function.update l.level gpio value } else l

variable {l : GpioLines} {gpio g rc : ℤ} {value : Bool}

@[simp] theorem request_zero_held (l : GpioLines) (gpio g : ℤ) :
    (l.request gpio 0).held g = if g = gpio then true else l.held g := by
  simp [request, Function.update_apply]

@[simp] theorem request_zero_output (l : GpioLines) (gpio g : ℤ) :
    (l.request gpio 0).output g = if g = gpio then false else l.output g := by
  simp [request, Function.update_apply]

theorem request_of_ne (h : rc ≠ 0) (l : GpioLines) (gpio : ℤ) : l.request gpio rc = l :=
  if_neg h

@[simp] theorem free_held (l : GpioLines) (gpio g : ℤ) :
    (l.free gpio).held g = if g = gpio then false else l.held g := by
  simp [free, Function.update_apply]

@[simp] theorem free_output (l : GpioLines) (gpio g : ℤ) :
    (l.free gpio).output g = if g = gpio then false else l.output g := by
  simp [free, Function.update_apply]

@[simp] theorem free_level (l : GpioLines) (gpio : ℤ) : (l.free gpio).level = l.level :=
  rfl

@[simp] theorem directionInput_held (l : GpioLines) (gpio rc g : ℤ) :
    (l.directionInput gpio rc).held g = l.held g := by
  unfold directionInput
  split <;> rfl

theorem directionInput_output (l : GpioLines) (gpio rc g : ℤ) :
    (l.directionInput gpio rc).output g = (l.output g && !decide (g = gpio ∧ rc = 0)) := by
  unfold directionInput
  split <;> by_cases hg : g = gpio <;> simp_all

@[simp] theorem directionOutput_held (l : GpioLines) (gpio : ℤ) (value : Bool) (rc g : ℤ) :
    (l.directionOutput gpio value rc).held g = l.held g := by
  unfold directionOutput
  split <;> rfl

theorem directionOutput_output (l : GpioLines) (gpio : ℤ) (value : Bool) (rc g : ℤ) :
    (l.directionOutput gpio value rc).output g = (l.output g || decide (g = gpio ∧ rc = 0)) := by
  unfold directionOutput
  split <;> by_cases hg : g = gpio <;> simp_all

@[simp] theorem setValue_held (l : GpioLines) (gpio : ℤ) (value : Bool) :
    (l.setValue gpio value).held = l.held := by
  unfold setValue
  split <;> rfl

@[simp] theorem setValue_output (l : GpioLines) (gpio : ℤ) (value : Bool) :
    (l.setValue gpio value).output = l.output := by
  unfold setValue
  split <;> rfl

theorem setValue_of_not_output (h : l.output gpio = false) (value : Bool) :
    l.setValue gpio value = l := by
  simp [setValue, h]

end GpioLines
