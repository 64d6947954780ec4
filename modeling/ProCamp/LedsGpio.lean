import Mathlib.Logic.Function.Basic
import ProCamp.Machine

/-!
# Do not disturb

`HW13/leds-gpio.c` with its `dndMode` attribute : `gpio_led_set` and
`gpio_led_set_blocking` set the brightness of an LED, `gpio_blink_set` makes it blink.
`gpio_led_set` assigns `level` on two of its three paths; on the third it drives the LED
with an uninitialised variable, which the model keeps as `none`.

What an LED shows is what was last driven on it, through `gpiod_set_value` or through the
blink hook of the platform, whose states are a level or `GPIO_LED_BLINK`.

`brightness_served_iff` : a brightness request does what do-not-disturb promises, and the
two functions agree on it, exactly if `dndMode` is 0 or the request is `LED_OFF` with
`dndMode` negative or the LED already off.
-/

namespace ProCamp

open Machine

/-- What was last driven on an LED. -/
inductive LedOutput where
  | low
  | high
  | blink
  /-- An uninitialised level. -/
  | undefined
  deriving DecidableEq

/-- A level, `none` if the variable was not assigned. -/
def LedOutput.ofLevel : Option Int32 → LedOutput
  | none => .undefined
  | some level => if level = 0 then .low else .high

/-- `GPIO_LED_BLINK`. -/
def gpioLedBlink : Int32 := 2

/-- What the blink hook shows for a state. -/
def LedOutput.ofBlinkState : Option Int32 → LedOutput
  | none => .undefined
  | some state => if state = gpioLedBlink then .blink else ofLevel (some state)

/-- `struct gpio_led_data`. An LED without a blink hook is never asked to blink. -/
structure GpioLedData where
  canSleep : Bool
  /-- `platform_gpio_blink_set` is installed. -/
  blinkSet : Bool
  blinking : Bool
  out : LedOutput
  hook_of_blinking : blinking = true → blinkSet = true

namespace GpioLedData

/-- `platform_gpio_blink_set(gpiod, state, ...)`. -/
def platformGpioBlinkSet (led : GpioLedData) (state : Option Int32) : GpioLedData :=
  { led with out := .ofBlinkState state }

/-- `gpiod_set_value_cansleep(gpiod, level)`. -/
def gpiodSetValueCansleep (led : GpioLedData) (level : Option Int32) : GpioLedData :=
  { led with out := .ofLevel level }

/-- `gpiod_set_value(gpiod, level)`. -/
def gpiodSetValue (led : GpioLedData) (level : Option Int32) : GpioLedData :=
  { led with out := .ofLevel level }

/-- `LED_OFF`. -/
def ledOff : ℕ := 0

/-- Lines 87 to 90 : `level`. -/
def ledLevel (dndMode : Int32) (value : ℕ) : Option Int32 :=
  if value = ledOff then some 0
  else if dndMode = 0 then some 1
  else none

/-- `gpio_led_set`. -/
def gpioLedSet (dndMode : Int32) (led : GpioLedData) (value : ℕ) : GpioLedData :=
  let level := ledLevel dndMode value
  if led.blinking then
    { led.platformGpioBlinkSet level with
      blinking := false
      hook_of_blinking := fun h => nomatch h }
  else if led.canSleep then led.gpiodSetValueCansleep level
  else led.gpiodSetValue level

/-- `gpio_led_set_blocking`. -/
def gpioLedSetBlocking (dndMode : Int32) (led : GpioLedData) (value : ℕ) : GpioLedData :=
  if dndMode < 1 then led.gpioLedSet dndMode value else led

/-- `gpio_blink_set`, which is installed with the hook. -/
def gpioBlinkSet (dndMode : Int32) (led : GpioLedData) (hook : led.blinkSet = true) :
    GpioLedData :=
  let led' := { led with blinking := true, hook_of_blinking := fun _ => hook }
  if dndMode < 1 then led'.platformGpioBlinkSet (some gpioLedBlink) else led'

end GpioLedData

/-- The driver : the mode and its LEDs. -/
structure LedsGpio where
  dndMode : Int32
  leds : ℕ → GpioLedData

/-- A request. -/
inductive LedRequest where
  /-- A store to the attribute that leaves `mode`. -/
  | dnd (mode : Int32)
  | set (i value : ℕ)
  | setBlocking (i value : ℕ)
  | blink (i : ℕ)

/-- `dndMode` off. -/
def DndOff (dndMode : Int32) : Prop :=
  dndMode < 1

instance (dndMode : Int32) : Decidable (DndOff dndMode) :=
  inferInstanceAs (Decidable (_ < _))

/-- What a brightness request promises : `LED_OFF` turns the LED off, another value turns
it on while do-not-disturb is off, and never while it is on. -/
def Served (dndMode : Int32) (value : ℕ) (before after : LedOutput) : Prop :=
  if value = GpioLedData.ledOff then after = .low
  else if DndOff dndMode then after = .high
  else after ≠ .undefined ∧ (after = before ∨ after = .low)

instance (dndMode : Int32) (value : ℕ) (before after : LedOutput) :
    Decidable (Served dndMode value before after) := by
  unfold Served
  infer_instance

namespace LedsGpio

/-- One request. -/
def step (s : LedsGpio) : LedRequest → Option LedsGpio
  | .dnd mode => some { s with dndMode := mode }
  | .set i value =>
    some { s with leds := Function.update s.leds i ((s.leds i).gpioLedSet s.dndMode value) }
  | .setBlocking i value =>
    some { s with leds := Function.update s.leds i ((s.leds i).gpioLedSetBlocking s.dndMode value) }
  | .blink i =>
    if hook : (s.leds i).blinkSet = true then
      some { s with leds := Function.update s.leds i ((s.leds i).gpioBlinkSet s.dndMode hook) }
    else none

/-- The two functions leave LED `i` at the same level, from this state and with this
value. -/
def SameLevel (s : LedsGpio) (i value : ℕ) : Prop :=
  ((s.leds i).gpioLedSet s.dndMode value).out =
    ((s.leds i).gpioLedSetBlocking s.dndMode value).out

/-- A brightness request does what it promises, whichever function serves it. -/
def BrightnessServed (s : LedsGpio) : LedRequest → LedsGpio → Prop
  | .set i value, t | .setBlocking i value, t =>
    Served s.dndMode value (s.leds i).out (t.leds i).out ∧ s.SameLevel i value
  | .dnd _, _ | .blink _, _ => True

/-- The mode is 0, or the request is `LED_OFF` and the mode is negative or the LED off. -/
def Servable (s : LedsGpio) : LedRequest → Prop
  | .set i value | .setBlocking i value =>
    s.dndMode = 0 ∨
      value = GpioLedData.ledOff ∧ (s.dndMode < 0 ∨ (s.leds i).out = .low)
  | .dnd _ | .blink _ => True

end LedsGpio

variable {dndMode : Int32} {led : GpioLedData} {value : ℕ}

theorem dndOff_iff : DndOff dndMode ↔ dndMode < 0 ∨ dndMode = 0 := by
  have hone : (1 : Int32).toInt = 1 := by decide
  have hzero : (0 : Int32).toInt = 0 := by decide
  rw [DndOff, Int32.lt_iff_toInt_lt, Int32.lt_iff_toInt_lt, ← Int32.toInt_inj, hone, hzero]
  omega

namespace GpioLedData

/-- Whichever call delivers it, the LED shows the level. -/
theorem gpioLedSet_out (dndMode : Int32) (led : GpioLedData) (value : ℕ) :
    (led.gpioLedSet dndMode value).out = .ofLevel (ledLevel dndMode value) := by
  have hblink : LedOutput.ofBlinkState (ledLevel dndMode value) =
      .ofLevel (ledLevel dndMode value) := by
    unfold ledLevel
    split_ifs <;> rfl
  by_cases hblinking : led.blinking = true
  · simp [gpioLedSet, hblinking, platformGpioBlinkSet, hblink]
  · by_cases hsleep : led.canSleep = true
    · simp [gpioLedSet, hblinking, hsleep, gpiodSetValueCansleep]
    · simp [gpioLedSet, hblinking, hsleep, gpiodSetValue]

theorem gpioLedSetBlocking_out (dndMode : Int32) (led : GpioLedData) (value : ℕ) :
    (led.gpioLedSetBlocking dndMode value).out =
      if DndOff dndMode then .ofLevel (ledLevel dndMode value) else led.out := by
  unfold gpioLedSetBlocking
  by_cases hoff : dndMode < 1
  · rw [if_pos hoff, if_pos (show DndOff dndMode from hoff), gpioLedSet_out]
  · rw [if_neg hoff, if_neg (show ¬DndOff dndMode from hoff)]

theorem ofLevel_off : LedOutput.ofLevel (ledLevel dndMode ledOff) = .low :=
  rfl

theorem ofLevel_on (hvalue : value ≠ ledOff) (hmode : dndMode = 0) :
    LedOutput.ofLevel (ledLevel dndMode value) = .high := by
  rw [ledLevel, if_neg hvalue, if_pos hmode]
  rfl

/-- The path that does not assign `level`. -/
theorem ofLevel_undefined (hvalue : value ≠ ledOff) (hmode : dndMode ≠ 0) :
    LedOutput.ofLevel (ledLevel dndMode value) = .undefined := by
  rw [ledLevel, if_neg hvalue, if_neg hmode]
  rfl

end GpioLedData

open GpioLedData

/-- An undefined level serves no request. -/
theorem not_served_undefined {before : LedOutput} : ¬Served dndMode value before .undefined := by
  unfold Served
  split_ifs <;> simp

/-- `gpio_led_set` alone : it serves `LED_OFF` in every mode and other values in mode 0. -/
theorem served_gpioLedSet_iff :
    Served dndMode value led.out (led.gpioLedSet dndMode value).out ↔
      value = ledOff ∨ dndMode = 0 := by
  rw [gpioLedSet_out]
  by_cases hvalue : value = ledOff
  · subst hvalue
    exact iff_of_true ofLevel_off (Or.inl rfl)
  by_cases hmode : dndMode = 0
  · have hoff : DndOff dndMode := dndOff_iff.2 (Or.inr hmode)
    rw [ofLevel_on hvalue hmode, Served, if_neg hvalue, if_pos hoff]
    exact iff_of_true rfl (Or.inr hmode)
  · rw [ofLevel_undefined hvalue hmode]
    exact iff_of_false not_served_undefined (not_or.2 ⟨hvalue, hmode⟩)

namespace LedsGpio

variable {s t : LedsGpio} {i : ℕ}

theorem sameLevel_iff : s.SameLevel i value ↔
    DndOff s.dndMode ∨ .ofLevel (ledLevel s.dndMode value) = (s.leds i).out := by
  rw [SameLevel, gpioLedSet_out, gpioLedSetBlocking_out]
  split_ifs with hoff
  · exact iff_of_true rfl (Or.inl hoff)
  · simp [hoff]

/-- The two functions agree and one of them serves the request : then both do. -/
theorem served_of_sameLevel (h : s.SameLevel i value) :
    Served s.dndMode value (s.leds i).out ((s.leds i).gpioLedSetBlocking s.dndMode value).out ↔
      Served s.dndMode value (s.leds i).out ((s.leds i).gpioLedSet s.dndMode value).out := by
  rw [SameLevel] at h
  rw [h]

theorem served_and_sameLevel_iff :
    Served s.dndMode value (s.leds i).out ((s.leds i).gpioLedSet s.dndMode value).out ∧
        s.SameLevel i value ↔
      s.dndMode = 0 ∨ value = ledOff ∧ (s.dndMode < 0 ∨ (s.leds i).out = .low) := by
  rw [served_gpioLedSet_iff, sameLevel_iff, dndOff_iff]
  by_cases hmode : s.dndMode = 0
  · simp [hmode]
  · by_cases hvalue : value = ledOff
    · subst hvalue
      simp [hmode, ofLevel_off, eq_comm]
    · simp [hmode, hvalue]

theorem brightnessServed_iff {a : LedRequest} (hstep : s.step a = some t) :
    s.BrightnessServed a t ↔ s.Servable a := by
  cases a with
  | dnd mode => rfl
  | blink i => rfl
  | set i value =>
    cases hstep
    simp only [BrightnessServed, Servable, Function.update_self]
    exact served_and_sameLevel_iff
  | setBlocking i value =>
    cases hstep
    simp only [BrightnessServed, Servable, Function.update_self]
    rw [← served_and_sameLevel_iff]
    exact and_congr_left fun hsame => served_of_sameLevel hsame

/-- In every run, each brightness request does what it promises, with the two functions in
agreement, exactly if at each of them `dndMode` is 0 or the request is `LED_OFF` with
`dndMode` negative or the LED off. -/
theorem brightness_served_iff (s : LedsGpio) (as : List LedRequest) :
    EveryStep step BrightnessServed s as ↔ EveryStep step (fun s a _ => s.Servable a) s as := by
  refine everyStep_congr (I := fun _ => True) ?_ ?_ trivial
  · intro s a t _ hstep
    exact brightnessServed_iff hstep
  · intro s a t _ _ _
    trivial

/-- An LED without a blink hook that was driven high. -/
def litLed : GpioLedData :=
  ⟨false, false, false, .high, fun h => nomatch h⟩

/-- Do-not-disturb is switched on while an LED is lit. `gpio_led_set_blocking` leaves it
lit on `LED_OFF`, and `gpio_led_set` drives it with an uninitialised level on a non-zero
brightness; in a negative mode, where do-not-disturb is off, that happens too. -/
theorem lit_not_served :
    ¬EveryStep step BrightnessServed ⟨0, fun _ => litLed⟩ [.dnd 1, .setBlocking 0 0] ∧
      ¬EveryStep step BrightnessServed ⟨0, fun _ => litLed⟩ [.dnd 1, .set 0 1] ∧
      ¬EveryStep step BrightnessServed ⟨0, fun _ => litLed⟩ [.dnd (-1), .set 0 1] := by
  refine ⟨fun h => ?_, fun h => ?_, fun h => ?_⟩
  · obtain ⟨-, h⟩ := h _ rfl
    obtain ⟨⟨hserved, -⟩, -⟩ := h _ rfl
    revert hserved
    decide
  · obtain ⟨-, h⟩ := h _ rfl
    obtain ⟨⟨hserved, -⟩, -⟩ := h _ rfl
    revert hserved
    decide
  · obtain ⟨-, h⟩ := h _ rfl
    obtain ⟨⟨hserved, -⟩, -⟩ := h _ rfl
    revert hserved
    decide

end LedsGpio

end ProCamp
