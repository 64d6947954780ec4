import Mathlib.Tactic.SplitIfs
import ProCamp.Deferred
import ProCamp.GpioLines
import ProCamp.Machine

/-!
# The button and the LED

`HW6/button/onboard_io/onboard_io.c` : `onboard_io_init` requests the button and the LED
and starts a timer, `timer_callback` samples the button, drives the LED and re-arms its
timer as long as its countdown lasts, `onboard_io_exit` stops and releases.

An action is the expiry of the timer, one step of the callback, or one of
`onboard_io_exit`; when the timer expires is not modelled. `sampleStep` is a whole run of
the callback.

The `return rc` of line 63 is not in the braces of the `if` above it, so `led_gpio_init`
never gets to line 64 and `led_gpio` keeps its -1. `led_follows_iff` : only an
`onboard_io_init` that fails does what it should.
-/

namespace ProCamp

open Machine

/-- `GPIO_NUMBER`. -/
def gpioNumber (port bit : ℤ) : ℤ :=
  32 * port + bit

/-- `LED_SD`. -/
def ledSd : ℤ :=
  gpioNumber 1 22

/-- `BUTTON`. -/
def button : ℤ :=
  gpioNumber 2 8

/-- What the GPIO calls in `onboard_io_init` return. -/
structure IoInitCalls where
  buttonRequest : ℤ
  buttonInput : ℤ
  ledRequest : ℤ

/-- `timer_callback`. -/
inductive IoCallbackPc where
  /-- Line 112. -/
  | sample
  /-- Line 116 or 121. -/
  | drive
  /-- Line 127. -/
  | countdown
  /-- Line 129. -/
  | modTimer
  /-- Line 135. -/
  | ret
  deriving DecidableEq

/-- `onboard_io_exit`. -/
inductive IoExit where
  /-- Not unloading. -/
  | loaded
  /-- Line 182. -/
  | ledOff
  /-- Line 187. -/
  | del
  /-- Line 193. -/
  | deinit
  | returned
  deriving DecidableEq

/-- The module. -/
structure OnboardIo where
  lines : GpioLines
  ledGpio : ℤ
  buttonGpio : ℤ
  buttonState : ℤ
  times : Int32
  myTimer : Deferred IoCallbackPc
  exit : IoExit
  /-- What `onboard_io_exit` has released. -/
  released : List ℤ

/-- One step of the timer, its callback or `onboard_io_exit`. -/
inductive IoAct where
  /-- The timer expires. -/
  | expires
  /-- The next step of `timer_callback`; `value` is what `gpio_get_value` returns. -/
  | callback (value : ℤ)
  /-- The next step of `onboard_io_exit`. -/
  | exit
  deriving DecidableEq

namespace OnboardIo

/-- The module as it is loaded. -/
def start (level : ℤ → Bool) : OnboardIo where
  lines := .unused level
  ledGpio := -1
  buttonGpio := -1
  buttonState := 0
  times := 15
  myTimer := .idle
  exit := .loaded
  released := []

/-- `led_gpio_init`, which returns at line 63. -/
def ledGpioInit (c : IoInitCalls) (gpio : ℤ) (s : OnboardIo) : ℤ × OnboardIo :=
  (c.ledRequest, { s with lines := (s.lines.free gpio).request gpio c.ledRequest })

/-- `button_gpio_init`. -/
def buttonGpioInit (c : IoInitCalls) (gpio : ℤ) (s : OnboardIo) : ℤ × OnboardIo :=
  let lines := s.lines.request gpio c.buttonRequest
  if c.buttonRequest ≠ 0 then (c.buttonRequest, { s with lines })
  else if c.buttonInput ≠ 0 then (c.buttonInput, { s with lines := lines.free gpio })
  else (0, { s with lines := lines.directionInput gpio c.buttonInput, buttonGpio := gpio })

/-- `button_gpio_deinit`. -/
def buttonGpioDeinit (s : OnboardIo) : OnboardIo :=
  if s.buttonGpio ≥ 0 then { s with lines := s.lines.free s.buttonGpio } else s

/-- `onboard_io_init`. -/
def onboardIoInit (c : IoInitCalls) (s : OnboardIo) : ℤ × OnboardIo :=
  match buttonGpioInit c button s with
  | (rc, s) =>
    if rc ≠ 0 then (rc, s)
    else
      match ledGpioInit c ledSd s with
      | (rc, s) =>
        if rc ≠ 0 then (rc, s.buttonGpioDeinit) else (0, { s with myTimer := s.myTimer.arm })

/-- One step of `timer_callback`. -/
def callbackStep (s : OnboardIo) (value : ℤ) : Option OnboardIo :=
  match s.myTimer.pc with
  | some .sample => some { s with buttonState := value, myTimer := s.myTimer.goto .drive }
  | some .drive =>
    some { s with
      lines := s.lines.setValue s.ledGpio (decide (s.buttonState ≠ 0))
      myTimer := s.myTimer.goto .countdown }
  | some .countdown =>
    some { s with
      times := s.times - 1
      myTimer := s.myTimer.goto (if s.times - 1 ≠ 0 then .modTimer else .ret) }
  | some .modTimer => some { s with myTimer := s.myTimer.arm.goto .ret }
  | some .ret => some { s with myTimer := s.myTimer.finish }
  | none => none

/-- One step of `onboard_io_exit`. -/
def exitStep (s : OnboardIo) : Option OnboardIo :=
  match s.exit with
  | .loaded => some { s with exit := .ledOff }
  | .ledOff =>
    some { s with
      exit := .del
      lines := if s.ledGpio ≥ 0 then s.lines.setValue s.ledGpio false else s.lines }
  | .del => some { s with exit := .deinit, myTimer := s.myTimer.disarm }
  | .deinit =>
    some { s.buttonGpioDeinit with
      exit := .returned
      released := if s.buttonGpio ≥ 0 then s.released ++ [s.buttonGpio] else s.released }
  | .returned => none

/-- One step. -/
def step (s : OnboardIo) : IoAct → Option OnboardIo
  | .expires => (s.myTimer.start .sample).map fun myTimer => { s with myTimer }
  | .callback value => s.callbackStep value
  | .exit => s.exitStep

/-- A whole run of `timer_callback`, which samples `value`. -/
def sampleStep (s : OnboardIo) (value : ℤ) : Option OnboardIo :=
  exec step s (.expires ::
    List.replicate (if s.times - 1 ≠ 0 then 5 else 4) (.callback value))

/-- The callback drives the LED, and leaves it at the value it has sampled. -/
def DrivesLed (s : OnboardIo) (value : ℤ) (t : OnboardIo) : Prop :=
  s.ledGpio = ledSd ∧ t.lines.level ledSd = decide (value ≠ 0)

/-- `onboard_io_init` on a system with these outcomes, and the callbacks after it. -/
def LedFollows (c : IoInitCalls) (level : ℤ → Bool) (samples : List ℤ) : Prop :=
  match onboardIoInit c (start level) with
  | (rc, s) =>
    if rc = 0 then
      s.lines.held ledSd = true ∧ s.lines.output ledSd = true ∧
        EveryStep sampleStep DrivesLed s samples
    else s.lines.held button = false ∧ s.lines.held ledSd = false

variable {c : IoInitCalls} {level : ℤ → Bool} {s t : OnboardIo} {a : IoAct} {as : List IoAct}

/-! ## `onboard_io_init` -/

/-- What `onboard_io_init` leaves when every call it makes succeeds. -/
theorem onboardIoInit_of_ok (hrequest : c.buttonRequest = 0) (hinput : c.buttonInput = 0)
    (hled : c.ledRequest = 0) (level : ℤ → Bool) :
    ∃ s, onboardIoInit c (start level) = (0, s) ∧ s.ledGpio = -1 ∧
      (∀ gpio, s.lines.held gpio = decide (gpio = button ∨ gpio = ledSd)) ∧
      (∀ gpio, s.lines.output gpio = false) ∧ s.lines.level = level := by
  refine ⟨(onboardIoInit c (start level)).2, Prod.ext ?_ rfl, ?_, fun gpio => ?_,
    fun gpio => ?_, ?_⟩ <;>
    simp only [onboardIoInit, buttonGpioInit, ledGpioInit, hrequest, hinput, hled, ne_eq,
      not_true_eq_false, if_false]
  · rfl
  · by_cases hsd : gpio = ledSd <;> by_cases hbutton : gpio = button <;>
      simp [start, GpioLines.unused, hsd, hbutton]
  · simp [start, GpioLines.unused, GpioLines.directionInput_output]
  · rfl

/-- An `onboard_io_init` that fails releases what it has requested. -/
theorem onboardIoInit_of_err
    (herr : c.buttonRequest ≠ 0 ∨ c.buttonInput ≠ 0 ∨ c.ledRequest ≠ 0) (level : ℤ → Bool) :
    ∃ rc s, onboardIoInit c (start level) = (rc, s) ∧ rc ≠ 0 ∧ s.lines.held button = false ∧
      s.lines.held ledSd = false := by
  refine ⟨(onboardIoInit c (start level)).1, (onboardIoInit c (start level)).2, rfl, ?_⟩
  by_cases hrequest : c.buttonRequest = 0
  · by_cases hinput : c.buttonInput = 0
    · have hled : c.ledRequest ≠ 0 := by simpa [hrequest, hinput] using herr
      have hne : ledSd ≠ button := by decide
      have hpos : 0 ≤ button := by decide
      simp [onboardIoInit, buttonGpioInit, ledGpioInit, hrequest, hinput, hled, buttonGpioDeinit,
        start, GpioLines.unused, GpioLines.request_of_ne hled, if_pos hpos]
    · simp [onboardIoInit, buttonGpioInit, hrequest, hinput, start, GpioLines.unused]
  · simp [onboardIoInit, buttonGpioInit, hrequest, start, GpioLines.unused,
      GpioLines.request_of_ne hrequest]

/-- For every outcome of the GPIO calls, every level of the pins and every sequence of samples :
the LED follows the button, and a failing `onboard_io_init` leaves nothing requested, if and
only if one of the calls fails. -/
theorem led_follows_iff (c : IoInitCalls) (level : ℤ → Bool) (samples : List ℤ) :
    LedFollows c level samples ↔
      c.buttonRequest ≠ 0 ∨ c.buttonInput ≠ 0 ∨ c.ledRequest ≠ 0 := by
  constructor
  · intro hfollows
    by_contra! hok
    obtain ⟨s, hinit, -, -, houtput, -⟩ := onboardIoInit_of_ok hok.1 hok.2.1 hok.2.2 level
    simp [LedFollows, hinit, houtput] at hfollows
  · intro herr
    obtain ⟨rc, s, hinit, hrc, hbutton, hled⟩ := onboardIoInit_of_err herr level
    simp [LedFollows, hinit, hrc, hbutton, hled]

/-- Every call succeeds, the button is pressed at the first sample, and the LED stays off. -/
theorem pressed_led_off :
    ∃ s t, onboardIoInit ⟨0, 0, 0⟩ (start fun _ => false) = (0, s) ∧ sampleStep s 1 = some t ∧
      s.lines.output ledSd = false ∧ s.ledGpio = -1 ∧ t.lines.level ledSd = false ∧
      ¬LedFollows ⟨0, 0, 0⟩ (fun _ => false) [1] := by
  refine ⟨_, _, rfl, rfl, rfl, rfl, rfl, fun hfollows => ?_⟩
  have houtput : false = true := hfollows.2.1
  cases houtput

/-! ## What a step can do -/

/-- The steps of the module. -/
inductive Move (s : OnboardIo) : IoAct → OnboardIo → Prop
  | timer {a : IoAct} {d : Deferred IoCallbackPc} (times : Int32) (buttonState : ℤ)
      (hmove : s.myTimer.Move d) (ha : a ≠ .exit) :
      Move s a { s with times, buttonState, myTimer := d }
  | drive (value : ℤ) (hpc : s.myTimer.pc = some .drive) : Move s (.callback value) { s with
      lines := s.lines.setValue s.ledGpio (decide (s.buttonState ≠ 0))
      myTimer := s.myTimer.goto .countdown }
  | unload (hpc : s.exit = .loaded) : Move s .exit { s with exit := .ledOff }
  | ledOff (hpc : s.exit = .ledOff) : Move s .exit { s with
      exit := .del
      lines := if s.ledGpio ≥ 0 then s.lines.setValue s.ledGpio false else s.lines }
  | del (hpc : s.exit = .del) :
      Move s .exit { s with exit := .deinit, myTimer := s.myTimer.disarm }
  | deinit (hpc : s.exit = .deinit) : Move s .exit { s.buttonGpioDeinit with
      exit := .returned
      released := if s.buttonGpio ≥ 0 then s.released ++ [s.buttonGpio] else s.released }

theorem step_move (h : s.step a = some t) : s.Move a t := by
  cases a with
  | expires =>
    obtain ⟨d, hd, rfl⟩ := Option.map_eq_some_iff.1 h
    obtain ⟨harmed, -, rfl⟩ := Deferred.start_eq_some.1 hd
    exact .timer s.times s.buttonState (.start _ harmed) (by simp)
  | callback value =>
    simp only [step, callbackStep] at h
    split at h
    case h_1 hpc => cases h; exact .timer s.times value (.goto _ (by simp [hpc])) (by simp)
    case h_2 hpc => cases h; exact .drive value hpc
    case h_3 hpc => cases h; exact .timer _ s.buttonState (.goto _ (by simp [hpc])) (by simp)
    case h_4 hpc =>
      cases h
      exact .timer s.times s.buttonState (.rearm (by simp [hpc]) _) (by simp)
    case h_5 hpc =>
      cases h
      exact .timer s.times s.buttonState (.finish (by simp [hpc])) (by simp)
    case h_6 => cases h
  | exit =>
    simp only [step, exitStep] at h
    split at h
    case h_1 hpc => cases h; exact .unload hpc
    case h_2 hpc => cases h; exact .ledOff hpc
    case h_3 hpc => cases h; exact .del hpc
    case h_4 hpc => cases h; exact .deinit hpc
    case h_5 => cases h

/-! ## The LED after `onboard_io_init` -/

/-- With `led_gpio` unset no step changes a level. -/
theorem lines_step (h : s.step a = some t) (hled : s.ledGpio < 0)
    (houtput : s.lines.output s.ledGpio = false) : t.lines.level = s.lines.level ∧
      t.ledGpio = s.ledGpio ∧ t.lines.output s.ledGpio = false := by
  cases step_move h with
  | timer | unload | del => exact ⟨rfl, rfl, houtput⟩
  | drive => simp [GpioLines.setValue_of_not_output houtput, houtput]
  | ledOff => simp [Int.not_le.2 hled, houtput]
  | deinit =>
    unfold buttonGpioDeinit
    split_ifs
    · simp [houtput]
    · exact ⟨rfl, rfl, houtput⟩

/-- After an `onboard_io_init` that has succeeded no callback and no `onboard_io_exit` changes
the level of a pin. -/
theorem led_never_driven (hrequest : c.buttonRequest = 0) (hinput : c.buttonInput = 0)
    (hled : c.ledRequest = 0) (hinit : onboardIoInit c (start level) = (0, s))
    (h : exec step s as = some t) : t.lines.level = level ∧ t.ledGpio = -1 := by
  obtain ⟨s', hinit', hgpio, -, houtput, hlevel⟩ := onboardIoInit_of_ok hrequest hinput hled level
  obtain rfl : s' = s := (Prod.mk.inj (hinit'.symm.trans hinit)).2
  have hend : t.lines.level = level ∧ t.ledGpio = -1 ∧ t.lines.output (-1) = false := by
    refine exec_invariant_of_step (I := fun t =>
      t.lines.level = level ∧ t.ledGpio = -1 ∧ t.lines.output (-1) = false) ?_
      ⟨hlevel, hgpio, houtput _⟩ h
    rintro u a v ⟨hlevel, hgpio, houtput⟩ hstep
    obtain ⟨hl, hg, ho⟩ := lines_step hstep (by omega) (hgpio ▸ houtput)
    exact ⟨hl.trans hlevel, hg.trans hgpio, hgpio ▸ ho⟩
  exact ⟨hend.1, hend.2.1⟩

end OnboardIo

end ProCamp
