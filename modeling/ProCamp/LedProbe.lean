import ProCamp.DummyCdev
import ProCamp.FillUntil
import ProCamp.LedsGpio

/-!
# The LEDs from probe to shutdown

`gpio_led_probe` of `HW13/leds-gpio.c` sets the LEDs up one after the other, from the children
of the device in the device tree (`gpio_leds_create`) or from platform data, and
`gpio_led_shutdown` turns them off. What the kernel's functions return is a parameter. The
line of an LED shows some level before the probe, as far as it is driven.

`tree_leds` : the children are set up until the first that fails, each to the state its
`default-state` asks for, and whatever is requested afterwards, also in do-not-disturb mode,
the shutdown turns off exactly the LEDs that do not retain their state. `platform_leds` :
LEDs of platform data that are not there are skipped and keep their place, and an LED that
is to keep its state loses it if its line has yet to be requested : the request turns it off,
or on if it is active-low and requested by number.
-/

namespace ProCamp

open Machine

/-- `ENOENT`. -/
def eNoEnt : ℤ := 2

/-- `EPROBE_DEFER`, as an error. -/
def eProbeDefer : PtrErr :=
  ⟨-517, by decide⟩

/-- `enum gpio_led_default_state` : `LEDS_GPIO_DEFSTATE_OFF` and so on. -/
inductive DefaultState where
  | off
  | on
  | keep
  deriving DecidableEq

/-- `struct gpio_led`, but for its line. -/
structure GpioLed where
  name : Option String
  defaultState : DefaultState
  retainStateSuspended : Bool
  retainStateShutdown : Bool
  panicIndicator : Bool

/-- The fields of `struct led_classdev` that the driver sets, its flags one by one. -/
structure LedClassdev where
  name : Option String
  brightness : Int32
  maxBrightness : ℕ
  coreSuspendresume : Bool
  panicIndicator : Bool
  retainAtShutdown : Bool

/-- An entry of `priv->leds`. -/
structure LedEntry where
  data : GpioLedData
  cdev : LedClassdev
  /-- `gpiod` is a line. -/
  line : Bool
  /-- `devm_led_classdev_register` has succeeded. -/
  registered : Bool

/-- `struct gpio_leds_priv`. -/
structure GpioLedsPriv where
  numLeds : ℕ
  leds : ℕ → LedEntry

/-- What the calls in `create_gpio_led` return : an error, if any. -/
structure LedCalls where
  /-- `gpiod_cansleep`. -/
  canSleep : Bool
  getValue : Option PtrErr
  directionOutput : Option PtrErr
  register : Option PtrErr

/-- The level of a line, as it is shown. -/
def LedOutput.ofBool (level : Bool) : LedOutput :=
  if level then .high else .low

/-- An entry as `devm_kzalloc` leaves it; the line of the LED is at `level`. -/
def LedEntry.zero (level : Bool) : LedEntry where
  data := ⟨false, false, false, .ofBool level, fun h => h⟩
  cdev := ⟨none, 0, 0, false, false, false⟩
  line := false
  registered := false

/-- The entry with its line, if there is one, at what it shows. -/
def LedEntry.withLine (led : LedEntry) (line : Bool) (shown : LedOutput) : LedEntry :=
  { led with data := { led.data with out := shown }, line := line }

/-- Lines 149 to 155 : `state`. -/
def ledState (template : GpioLed) (c : LedCalls) (shown : LedOutput) : Except PtrErr Int32 :=
  match template.defaultState with
  | .keep =>
    match c.getValue with
    | some err => .error err
    | none => .ok (if shown = .high then 1 else 0)
  | .on => .ok 1
  | .off => .ok 0

/-- `create_gpio_led` : its result, and the entry it leaves. -/
def createGpioLed (template : GpioLed) (blinkSet : Bool) (c : LedCalls) (led : LedEntry) :
    Option PtrErr × LedEntry :=
  let led := { led with
    data := ⟨c.canSleep, blinkSet, false, led.data.out, fun h => nomatch h⟩ }
  match ledState template c led.data.out with
  | .error err => (some err, led)
  | .ok state =>
    let led := { led with
      cdev := { led.cdev with
        brightness := state
        maxBrightness := 1
        coreSuspendresume := !template.retainStateSuspended
        panicIndicator := template.panicIndicator
        retainAtShutdown := template.retainStateShutdown } }
    match c.directionOutput with
    | some err => (some err, led)
    | none =>
      let led := { led with
        data := { led.data with out := .ofLevel (some state) }
        cdev := { led.cdev with name := template.name } }
      match c.register with
      | some err => (some err, led)
      | none => (none, { led with registered := true })

/-! ## The device tree -/

/-- A child of the device : its properties. -/
structure LedChild where
  /-- `default-state`. -/
  defaultState : Option String
  retainStateSuspended : Bool
  retainStateShutdown : Bool
  panicIndicator : Bool

/-- The calls for a child; `gpiod` is the error of `devm_fwnode_get_gpiod_from_child`. -/
structure ChildCalls extends LedCalls where
  gpiod : Option PtrErr

/-- Lines 221 to 236. -/
def LedChild.gpioLed (child : LedChild) : GpioLed where
  name := none
  defaultState :=
    match child.defaultState with
    | some state => if state = "keep" then .keep else if state = "on" then .on else .off
    | none => .off
  retainStateSuspended := child.retainStateSuspended
  retainStateShutdown := child.retainStateShutdown
  panicIndicator := child.panicIndicator

namespace GpioLedsPriv

/-- The entry `i` replaced. -/
@[simps] def setLed (priv : GpioLedsPriv) (i : ℕ) (led : LedEntry) : GpioLedsPriv :=
  { priv with leds := Function.update priv.leds i led }

/-- The loop of `gpio_leds_create`. -/
def createChildren : List (LedChild × ChildCalls) → GpioLedsPriv → Option PtrErr × GpioLedsPriv
  | [], priv => (none, priv)
  | (child, c) :: rest, priv =>
    match c.gpiod with
    | some err => (some err, priv)
    | none =>
      match createGpioLed child.gpioLed false c.toLedCalls
          { priv.leds priv.numLeds with line := true } with
      | (some err, led) => (some err, priv.setLed priv.numLeds led)
      | (none, led) =>
        createChildren rest { priv.setLed priv.numLeds led with numLeds := priv.numLeds + 1 }

end GpioLedsPriv

/-- `gpio_leds_create`, for a device with these children, whose lines show `lines`. -/
def gpioLedsCreate (devmKzalloc : Bool) (lines : ℕ → Bool)
    (children : List (LedChild × ChildCalls)) : Option PtrErr × GpioLedsPriv :=
  let priv : GpioLedsPriv := ⟨0, fun i => .zero (lines i)⟩
  if children.isEmpty then (some ⟨-eNoDev, by decide⟩, priv)
  else if !devmKzalloc then (some ⟨-eNoMem, by decide⟩, priv)
  else priv.createChildren children

/-! ## Platform data -/

/-- An entry of `pdata->leds`. -/
structure PlatformLed extends GpioLed where
  /-- `template->gpiod` is set. -/
  gpiod : Bool
  /-- `gpio_is_valid(template->gpio)`. -/
  gpioIsValid : Bool
  activeLow : Bool

/-- The calls for an entry : an error, if any. -/
structure PlatformCalls extends LedCalls where
  /-- `devm_gpiod_get_index`. -/
  getIndex : Option PtrErr
  /-- `devm_gpio_request_one`. -/
  requestOne : Option PtrErr
  /-- `gpio_to_desc` finds the line. -/
  toDesc : Bool

/-- `gpio_led_get_gpiod` : its error, if any. -/
def gpioLedGetGpiod (template : PlatformLed) (c : PlatformCalls) : Option PtrErr :=
  match c.getIndex with
  | none => none
  | some err =>
    if err.1 ≠ -eNoEnt then some err
    else if !template.gpioIsValid then some ⟨-eNoEnt, by decide⟩
    else match c.requestOne with
    | some err => some err
    | none => if c.toDesc then none else some ⟨-eInval, by decide⟩

/-- One of its requests has succeeded, and has driven the line. -/
def gpioRequested (template : PlatformLed) (c : PlatformCalls) : Bool :=
  match c.getIndex with
  | none => true
  | some err => err.1 = -eNoEnt && template.gpioIsValid && c.requestOne.isNone

/-- What the LED shows then. `GPIOD_OUT_LOW` turns it off. `GPIOF_OUT_INIT_LOW` is the level of
the line itself, at which an LED with `GPIOF_ACTIVE_LOW` is on. -/
def requestShows (template : PlatformLed) (c : PlatformCalls) : LedOutput :=
  match c.getIndex with
  | none => .low
  | some _ => .ofBool template.activeLow

/-- Lines 327 to 336 : the error of the line of an entry, if any. -/
def platformGpiod (template : PlatformLed) (c : PlatformCalls) : Option PtrErr :=
  if template.gpiod then none else gpioLedGetGpiod template c

/-- What the line of an entry shows after them. -/
def lineBefore (template : PlatformLed) (c : PlatformCalls) (shown : LedOutput) : LedOutput :=
  if template.gpiod then shown
  else if gpioRequested template c then requestShows template c
  else shown

/-- Lines 323 to 344, from entry `i` on. -/
def GpioLedsPriv.createPlatform (blinkSet : Bool) :
    List (PlatformLed × PlatformCalls) → ℕ → GpioLedsPriv → Option PtrErr × GpioLedsPriv
  | [], _, priv => (none, priv)
  | (template, c) :: rest, i, priv =>
    let led := (priv.leds i).withLine (platformGpiod template c).isNone
      (lineBefore template c (priv.leds i).data.out)
    match platformGpiod template c with
    | some _ => createPlatform blinkSet rest (i + 1) (priv.setLed i led)
    | none =>
      match createGpioLed template.toGpioLed blinkSet c.toLedCalls led with
      | (some err, led) => (some err, priv.setLed i led)
      | (none, led) => createPlatform blinkSet rest (i + 1) (priv.setLed i led)

/-- Lines 316 to 349, `pdata` with its hook and LEDs. -/
def gpioLedProbe (pdata : Option (Bool × List (PlatformLed × PlatformCalls)))
    (children : List (LedChild × ChildCalls)) (devmKzalloc : Bool) (lines : ℕ → Bool) :
    Option PtrErr × GpioLedsPriv :=
  match pdata with
  | some (blinkSet, template :: templates) =>
    let priv : GpioLedsPriv := ⟨(template :: templates).length, fun i => .zero (lines i)⟩
    if !devmKzalloc then (some ⟨-eNoMem, by decide⟩, priv)
    else priv.createPlatform blinkSet (template :: templates) 0
  | _ => gpioLedsCreate devmKzalloc lines children

/-! ## Shutdown -/

/-- `gpio_led_shutdown` : a call on an entry without a line does nothing. -/
def gpioLedShutdown (priv : GpioLedsPriv) (s : LedsGpio) : LedsGpio :=
  { s with leds := fun i =>
      if i < priv.numLeds ∧ (priv.leds i).line = true ∧ (priv.leds i).cdev.retainAtShutdown = false
      then (s.leds i).gpioLedSet s.dndMode GpioLedData.ledOff
      else s.leds i }

/-- The driver as the probe leaves it, in mode `dndMode`. -/
def GpioLedsPriv.driver (priv : GpioLedsPriv) (dndMode : Int32) : LedsGpio :=
  ⟨dndMode, fun i => (priv.leds i).data⟩

/-! ## One LED -/

/-- What an LED shows once it is set up, if its line was `before`. -/
def DefaultState.shows (before : LedOutput) : DefaultState → LedOutput
  | .off => .low
  | .on => .high
  | .keep => before

/-- The error of `create_gpio_led`, if any : that of the first call that fails. -/
def ledError (template : GpioLed) (c : LedCalls) : Option PtrErr :=
  (if template.defaultState = .keep then c.getValue else none) <|> c.directionOutput <|> c.register

/-- An LED that is set up, on a line that was `before`. -/
structure LedEntry.SetUp (template : GpioLed) (blinkSet : Bool) (c : LedCalls) (before : LedOutput)
    (led : LedEntry) : Prop where
  out : led.data.out = template.defaultState.shows before
  canSleep : led.data.canSleep = c.canSleep
  blinkSet : led.data.blinkSet = blinkSet
  blinking : led.data.blinking = false
  name : led.cdev.name = template.name
  brightness : LedOutput.ofLevel (some led.cdev.brightness) = led.data.out
  maxBrightness : led.cdev.maxBrightness = 1
  coreSuspendresume : led.cdev.coreSuspendresume = !template.retainStateSuspended
  panicIndicator : led.cdev.panicIndicator = template.panicIndicator
  retainAtShutdown : led.cdev.retainAtShutdown = template.retainStateShutdown
  line : led.line = true
  registered : led.registered = true

variable {template : GpioLed} {blinkSet : Bool} {c : LedCalls}

theorem createGpioLed_fst (template : GpioLed) (blinkSet : Bool) (c : LedCalls) (led : LedEntry) :
    (createGpioLed template blinkSet c led).1 = ledError template c := by
  unfold createGpioLed ledError ledState
  cases template.defaultState <;> cases c.getValue <;> cases c.directionOutput <;>
    cases c.register <;> rfl

theorem ofBool_level {level : Bool} :
    LedOutput.ofBool level = .low ∨ LedOutput.ofBool level = .high := by
  cases level
  · exact Or.inl rfl
  · exact Or.inr rfl

theorem ofLevel_shown {before : LedOutput} (hlevel : before = .low ∨ before = .high) :
    LedOutput.ofLevel (some (if before = .high then 1 else 0)) = before := by
  rcases hlevel with rfl | rfl <;> rfl

/-- An LED whose calls succeed is set up. -/
theorem createGpioLed_setUp (blinkSet : Bool) (led : LedEntry) (hline : led.line = true)
    (hlevel : led.data.out = .low ∨ led.data.out = .high) (hok : ledError template c = none) :
    (createGpioLed template blinkSet c led).2.SetUp template blinkSet c led.data.out := by
  obtain ⟨hvalue, hdirection, hregister⟩ : (template.defaultState = .keep → c.getValue = none) ∧
      c.directionOutput = none ∧ c.register = none := by
    unfold ledError at hok
    split_ifs at hok with hkeep
    · simpa [hkeep] using hok
    · simpa [hkeep] using hok
  have hshown := ofLevel_shown hlevel
  cases hstate : template.defaultState with
  | off | on =>
    constructor <;>
      simp [createGpioLed, ledState, hstate, hdirection, hregister, DefaultState.shows,
        LedOutput.ofLevel, hline]
  | keep =>
    constructor <;>
      simp [createGpioLed, ledState, hstate, hvalue hstate, hdirection, hregister,
        DefaultState.shows, hshown, hline]

/-! ## The children -/

/-- The error of a child, if any. -/
def childError (x : LedChild × ChildCalls) : Option PtrErr :=
  x.2.gpiod <|> ledError x.1.gpioLed x.2.toLedCalls

/-- One round of the loop of `gpio_leds_create`. -/
def setUpChild (x : LedChild × ChildCalls) (led : LedEntry) : Option PtrErr × LedEntry :=
  match x.2.gpiod with
  | some err => (some err, led)
  | none => createGpioLed x.1.gpioLed false x.2.toLedCalls { led with line := true }

theorem setUpChild_fst (x : LedChild × ChildCalls) (led : LedEntry) :
    (setUpChild x led).1 = childError x := by
  unfold setUpChild childError
  cases x.2.gpiod with
  | some err => rfl
  | none => exact createGpioLed_fst _ _ _ _

theorem setUpChild_setUp {x : LedChild × ChildCalls} (hok : childError x = none) (level : Bool) :
    (setUpChild x (.zero level)).2.SetUp x.1.gpioLed false x.2.toLedCalls (.ofBool level) := by
  obtain ⟨hgpiod, hled⟩ : x.2.gpiod = none ∧ ledError x.1.gpioLed x.2.toLedCalls = none := by
    simpa [childError] using hok
  simp only [setUpChild, hgpiod]
  exact createGpioLed_setUp false { LedEntry.zero level with line := true } rfl ofBool_level hled

theorem createChildren_eq (children : List (LedChild × ChildCalls)) (priv : GpioLedsPriv) :
    priv.createChildren children =
      let r := FillUntil.run setUpChild children priv.numLeds priv.leds
      (r.1, ⟨r.2.1, r.2.2⟩) := by
  induction children generalizing priv with
  | nil => rfl
  | cons x rest ih =>
    obtain ⟨child, c⟩ := x
    cases hgpiod : c.gpiod with
    | some err =>
      have hx : setUpChild (child, c) (priv.leds priv.numLeds) =
          (some err, priv.leds priv.numLeds) := by simp only [setUpChild, hgpiod]
      simp only [FillUntil.run_of_error hx, GpioLedsPriv.createChildren, hgpiod,
        Function.update_eq_self]
    | none =>
      have hx : setUpChild (child, c) (priv.leds priv.numLeds) =
          createGpioLed child.gpioLed false c.toLedCalls
            { priv.leds priv.numLeds with line := true } := by simp only [setUpChild, hgpiod]
      cases hled : createGpioLed child.gpioLed false c.toLedCalls
          { priv.leds priv.numLeds with line := true } with
      | mk ret led =>
        cases ret with
        | some err =>
          rw [FillUntil.run_of_error (hx.trans hled)]
          simp only [GpioLedsPriv.createChildren, hgpiod, hled]
          rfl
        | none =>
          rw [FillUntil.run_of_ok (hx.trans hled)]
          simp only [GpioLedsPriv.createChildren, hgpiod, hled]
          exact ih _

/-- Where the children are set up until `post` : those before are, and the entries behind are
as they were. -/
structure GpioLedsPriv.Created (lines : ℕ → Bool) (pre post : List (LedChild × ChildCalls))
    (r : Option PtrErr × GpioLedsPriv) : Prop where
  ret : r.1 = post.head?.bind childError
  numLeds : r.2.numLeds = pre.length
  ok : ∀ x ∈ pre, childError x = none
  failed : ∀ x ∈ post.head?, childError x ≠ none
  setUp : ∀ i x, pre[i]? = some x →
    (r.2.leds i).SetUp x.1.gpioLed false x.2.toLedCalls (.ofBool (lines i))
  behind : ∀ i, pre.length < i → r.2.leds i = .zero (lines i)

theorem createChildren_created (lines : ℕ → Bool) (children : List (LedChild × ChildCalls)) :
    ∃ pre post, children = pre ++ post ∧ GpioLedsPriv.Created lines pre post
      (GpioLedsPriv.createChildren children ⟨0, fun i => .zero (lines i)⟩) := by
  obtain ⟨pre, post, hsplit, h⟩ :=
    FillUntil.run_spec setUpChild children 0 fun i => LedEntry.zero (lines i)
  refine ⟨pre, post, hsplit, ?_⟩
  simp only [createChildren_eq]
  generalize FillUntil.run setUpChild children 0 _ = r at h ⊢
  have hfilled : ∀ i x, pre[i]? = some x → setUpChild x (.zero (lines i)) = (none, r.2.2 i) := by
    intro i x hx
    simpa using h.filled i x hx
  refine ⟨?_, by simpa using h.index, fun x hx => ?_, fun x hx => ?_, fun i x hx => ?_,
    fun i hi => h.behind i (by omega)⟩
  · cases hpost : post.head? with
    | none => exact h.ok (List.head?_eq_none_iff.1 hpost)
    | some x =>
      obtain ⟨err, hret, hfail⟩ := h.failed x hpost
      have herr := setUpChild_fst x (.zero (lines (0 + pre.length)))
      rw [hfail] at herr
      exact hret.trans herr
  · obtain ⟨i, hi⟩ := List.mem_iff_getElem?.1 hx
    rw [← setUpChild_fst x, hfilled i x hi]
  · obtain ⟨err, -, hfail⟩ := h.failed x hx
    rw [← setUpChild_fst x, hfail]
    simp
  · have hok : childError x = none := by rw [← setUpChild_fst x, hfilled i x hx]
    have hsetUp := setUpChild_setUp hok (lines i)
    rwa [hfilled i x hx] at hsetUp

/-! ## Shutdown -/

/-- The shutdown turns off the LEDs that have a line and do not retain their state, in every
mode, and leaves the others alone. -/
theorem gpioLedShutdown_out (priv : GpioLedsPriv) (s : LedsGpio) (i : ℕ) :
    ((gpioLedShutdown priv s).leds i).out =
      if i < priv.numLeds ∧ (priv.leds i).line = true ∧
        (priv.leds i).cdev.retainAtShutdown = false
      then .low else (s.leds i).out := by
  simp only [gpioLedShutdown]
  split_ifs
  · rw [GpioLedData.gpioLedSet_out]
    exact GpioLedData.ofLevel_off
  · rfl

/-- A request is about LED `i`. -/
def LedRequest.About (i : ℕ) : LedRequest → Prop
  | .dnd _ => False
  | .set j _ | .setBlocking j _ | .blink j => j = i

/-- An LED that nothing is requested of stays as it is. -/
theorem leds_of_not_requested {s t : LedsGpio} {as : List LedRequest} {i : ℕ}
    (hrun : exec LedsGpio.step s as = some t) (has : ∀ a ∈ as, ¬a.About i) :
    t.leds i = s.leds i := by
  refine exec_invariant (I := fun u => u.leds i = s.leds i) (C := fun _ a _ => ¬a.About i) ?_
    rfl (everyStep_of_forall _ has) hrun
  intro u a v hu ha hstep
  cases a with
  | dnd mode =>
    cases hstep
    exact hu
  | set j value | setBlocking j value =>
    have hij : i ≠ j := fun heq => ha heq.symm
    cases hstep
    exact (Function.update_of_ne hij _ _).trans hu
  | blink j =>
    have hij : i ≠ j := fun heq => ha heq.symm
    simp only [LedsGpio.step] at hstep
    split_ifs at hstep
    cases hstep
    exact (Function.update_of_ne hij _ _).trans hu

/-- LED `i` of the driver that a probe leaves, set up on a line that was `before` : it shows
what its template asks for as long as nothing is requested of it, and whatever has been
requested, in whatever mode, the shutdown turns it off unless it retains its state. -/
structure GpioLedsPriv.Serves (template : GpioLed) (blinkSet : Bool) (c : LedCalls)
    (before : LedOutput) (priv : GpioLedsPriv) (i : ℕ) : Prop where
  setUp : (priv.leds i).SetUp template blinkSet c before
  shows : ∀ dndMode as t, exec LedsGpio.step (priv.driver dndMode) as = some t →
    (∀ a ∈ as, ¬a.About i) → (t.leds i).out = template.defaultState.shows before
  shutdown : ∀ t : LedsGpio, ((gpioLedShutdown priv t).leds i).out =
    if template.retainStateShutdown then (t.leds i).out else .low

theorem serves_of_setUp {before : LedOutput} {priv : GpioLedsPriv} {i : ℕ}
    (h : (priv.leds i).SetUp template blinkSet c before) (hi : i < priv.numLeds) :
    priv.Serves template blinkSet c before i where
  setUp := h
  shows dndMode as t hrun has := by
    rw [leds_of_not_requested hrun has]
    exact h.out
  shutdown t := by
    rw [gpioLedShutdown_out, h.retainAtShutdown, h.line]
    cases template.retainStateShutdown <;> simp [hi]

/-- The children of the device are set up in their order until the first that fails, whose
error the probe returns. If none does, every child is an LED that shows what its
`default-state` asks for, and is turned off at the shutdown unless it has
`retain-state-shutdown`. -/
theorem tree_leds (devmKzalloc : Bool) (lines : ℕ → Bool)
    (children : List (LedChild × ChildCalls)) :
    let r := gpioLedProbe none children devmKzalloc lines
    (r.1 = none ↔ children ≠ [] ∧ devmKzalloc = true ∧ ∀ x ∈ children, childError x = none) ∧
    (r.1 = none → r.2.numLeds = children.length ∧ ∀ i x, children[i]? = some x →
      r.2.Serves x.1.gpioLed false x.2.toLedCalls (.ofBool (lines i)) i) ∧
    ∀ err, r.1 = some err → children ≠ [] → devmKzalloc = true →
      ∃ pre x post, children = pre ++ x :: post ∧ childError x = some err ∧
        GpioLedsPriv.Created lines pre (x :: post) r := by
  intro r
  by_cases hne : children = []
  · subst hne
    simp [r, gpioLedProbe, gpioLedsCreate]
  cases devmKzalloc with
  | false => simp [r, gpioLedProbe, gpioLedsCreate, hne]
  | true =>
    have hr : r = GpioLedsPriv.createChildren children ⟨0, fun i => .zero (lines i)⟩ := by
      simp [r, gpioLedProbe, gpioLedsCreate, hne]
    obtain ⟨pre, post, rfl, h⟩ := createChildren_created lines children
    rw [← hr] at h
    cases post with
    | nil =>
      rw [List.append_nil] at *
      refine ⟨iff_of_true h.ret ⟨hne, rfl, h.ok⟩, fun _ => ⟨h.numLeds, fun i x hx => ?_⟩,
        fun err herr => ?_⟩
      · have hi := (List.getElem?_eq_some_iff.1 hx).1
        exact serves_of_setUp (h.setUp i x hx) (h.numLeds.symm ▸ hi)
      · rw [h.ret] at herr
        cases herr
    | cons x post =>
      have hfailed : childError x ≠ none := h.failed x rfl
      have hret : r.1 = childError x := h.ret
      refine ⟨iff_of_false (fun hnone => hfailed (hret ▸ hnone)) ?_,
        fun hnone => absurd (hret ▸ hnone) hfailed, fun err herr _ _ => ?_⟩
      · rintro ⟨-, -, hok⟩
        exact hfailed (hok x (by simp))
      · exact ⟨pre, x, post, rfl, hret.symm.trans herr, h⟩

/-! ## The LEDs of platform data -/

/-- One round of the loop of `gpio_led_probe`. -/
def setUpPlatform (blinkSet : Bool) (x : PlatformLed × PlatformCalls) (led : LedEntry) :
    Option PtrErr × LedEntry :=
  let led := led.withLine (platformGpiod x.1 x.2).isNone (lineBefore x.1 x.2 led.data.out)
  match platformGpiod x.1 x.2 with
  | some _ => (none, led)
  | none => createGpioLed x.1.toGpioLed blinkSet x.2.toLedCalls led

/-- The error of an entry, if any : one that has no line is skipped. -/
def platformError (x : PlatformLed × PlatformCalls) : Option PtrErr :=
  if (platformGpiod x.1 x.2).isSome then none else ledError x.1.toGpioLed x.2.toLedCalls

theorem setUpPlatform_fst (blinkSet : Bool) (x : PlatformLed × PlatformCalls) (led : LedEntry) :
    (setUpPlatform blinkSet x led).1 = platformError x := by
  unfold setUpPlatform platformError
  cases platformGpiod x.1 x.2 with
  | some err => rfl
  | none => exact createGpioLed_fst _ _ _ _

theorem createPlatform_eq (blinkSet : Bool) (templates : List (PlatformLed × PlatformCalls))
    (i : ℕ) (priv : GpioLedsPriv) :
    priv.createPlatform blinkSet templates i =
      let r := FillUntil.run (setUpPlatform blinkSet) templates i priv.leds
      (r.1, ⟨priv.numLeds, r.2.2⟩) := by
  induction templates generalizing i priv with
  | nil => rfl
  | cons x rest ih =>
    obtain ⟨template, c⟩ := x
    cases hgpiod : platformGpiod template c with
    | some err =>
      have hx : setUpPlatform blinkSet (template, c) (priv.leds i) =
          (none, (priv.leds i).withLine false (lineBefore template c (priv.leds i).data.out)) := by
        simp only [setUpPlatform, hgpiod, Option.isNone_some]
      rw [FillUntil.run_of_ok hx]
      simp only [GpioLedsPriv.createPlatform, hgpiod, Option.isNone_some]
      exact ih _ _
    | none =>
      have hx : setUpPlatform blinkSet (template, c) (priv.leds i) =
          createGpioLed template.toGpioLed blinkSet c.toLedCalls
            ((priv.leds i).withLine true (lineBefore template c (priv.leds i).data.out)) := by
        simp only [setUpPlatform, hgpiod, Option.isNone_none]
      cases hled : createGpioLed template.toGpioLed blinkSet c.toLedCalls
          ((priv.leds i).withLine true (lineBefore template c (priv.leds i).data.out)) with
      | mk ret led =>
        cases ret with
        | some err =>
          rw [FillUntil.run_of_error (hx.trans hled)]
          simp only [GpioLedsPriv.createPlatform, hgpiod, Option.isNone_none, hled]
          rfl
        | none =>
          rw [FillUntil.run_of_ok (hx.trans hled)]
          simp only [GpioLedsPriv.createPlatform, hgpiod, Option.isNone_none, hled]
          exact ih _ _

theorem lineBefore_level (x : PlatformLed × PlatformCalls) (level : Bool) :
    lineBefore x.1 x.2 (.ofBool level) = .low ∨ lineBefore x.1 x.2 (.ofBool level) = .high := by
  unfold lineBefore requestShows
  split_ifs
  · exact ofBool_level
  · cases x.2.getIndex with
    | none => exact Or.inl rfl
    | some err => exact ofBool_level
  · exact ofBool_level

/-- A line that `gpio_led_get_gpiod` has got was driven by its request. -/
theorem lineBefore_of_none {x : PlatformLed × PlatformCalls} (h : platformGpiod x.1 x.2 = none)
    (shown : LedOutput) :
    lineBefore x.1 x.2 shown = if x.1.gpiod then shown else requestShows x.1 x.2 := by
  unfold lineBefore
  cases hgpiod : x.1.gpiod with
  | true => rfl
  | false =>
    have hrequested : gpioRequested x.1 x.2 = true := by
      rw [platformGpiod, if_neg (by simp [hgpiod]), gpioLedGetGpiod] at h
      unfold gpioRequested
      cases hindex : x.2.getIndex with
      | none => rfl
      | some err =>
        cases hone : x.2.requestOne with
        | some err' =>
          simp only [hindex, hone] at h
          split_ifs at h
        | none =>
          simp only [hindex, hone] at h
          split_ifs at h with herr hvalid
          simpa using ⟨not_not.1 herr, by simpa using hvalid⟩
    simp [hrequested]

/-- Platform data is worked through until the first LED that is there and fails. -/
structure GpioLedsPriv.Placed (blinkSet : Bool) (lines : ℕ → Bool)
    (pre post : List (PlatformLed × PlatformCalls)) (r : Option PtrErr × GpioLedsPriv) : Prop where
  ret : r.1 = post.head?.bind platformError
  ok : ∀ x ∈ pre, platformError x = none
  failed : ∀ x ∈ post.head?, platformError x ≠ none
  skipped : ∀ i x, pre[i]? = some x → (platformGpiod x.1 x.2).isSome →
    (r.2.leds i).line = false ∧ (r.2.leds i).registered = false
  setUp : ∀ i x, pre[i]? = some x → platformGpiod x.1 x.2 = none →
    (r.2.leds i).SetUp x.1.toGpioLed blinkSet x.2.toLedCalls
      (if x.1.gpiod then .ofBool (lines i) else requestShows x.1 x.2)
  behind : ∀ i, pre.length < i → r.2.leds i = .zero (lines i)

theorem createPlatform_placed (blinkSet : Bool) (lines : ℕ → Bool) (n : ℕ)
    (templates : List (PlatformLed × PlatformCalls)) :
    ∃ pre post, templates = pre ++ post ∧ GpioLedsPriv.Placed blinkSet lines pre post
      (GpioLedsPriv.createPlatform blinkSet templates 0 ⟨n, fun i => .zero (lines i)⟩) := by
  obtain ⟨pre, post, hsplit, h⟩ :=
    FillUntil.run_spec (setUpPlatform blinkSet) templates 0 fun i => LedEntry.zero (lines i)
  refine ⟨pre, post, hsplit, ?_⟩
  simp only [createPlatform_eq]
  generalize FillUntil.run (setUpPlatform blinkSet) templates 0 _ = r at h ⊢
  have hfilled : ∀ i x, pre[i]? = some x →
      setUpPlatform blinkSet x (.zero (lines i)) = (none, r.2.2 i) := by
    intro i x hx
    simpa using h.filled i x hx
  refine ⟨?_, fun x hx => ?_, fun x hx => ?_, fun i x hx hgpiod => ?_, fun i x hx hgpiod => ?_,
    fun i hi => h.behind i (by omega)⟩
  · cases hpost : post.head? with
    | none => exact h.ok (List.head?_eq_none_iff.1 hpost)
    | some x =>
      obtain ⟨err, hret, hfail⟩ := h.failed x hpost
      have herr := setUpPlatform_fst blinkSet x (.zero (lines (0 + pre.length)))
      rw [hfail] at herr
      exact hret.trans herr
  · obtain ⟨i, hi⟩ := List.mem_iff_getElem?.1 hx
    rw [← setUpPlatform_fst blinkSet x, hfilled i x hi]
  · obtain ⟨err, -, hfail⟩ := h.failed x hx
    rw [← setUpPlatform_fst blinkSet x, hfail]
    simp
  · obtain ⟨err, herr⟩ := Option.isSome_iff_exists.1 hgpiod
    have hled := hfilled i x hx
    simp only [setUpPlatform, herr, Prod.mk.injEq, true_and] at hled
    show (r.2.2 i).line = false ∧ (r.2.2 i).registered = false
    rw [← hled]
    exact ⟨rfl, rfl⟩
  · have hok : ledError x.1.toGpioLed x.2.toLedCalls = none := by
      have herr := setUpPlatform_fst blinkSet x (.zero (lines i))
      rw [hfilled i x hx] at herr
      simpa [platformError, hgpiod] using herr.symm
    have hsetUp := createGpioLed_setUp blinkSet
      ((LedEntry.zero (lines i)).withLine true (lineBefore x.1 x.2 (.ofBool (lines i))))
      rfl (lineBefore_level x (lines i)) hok
    have hled := hfilled i x hx
    simp only [setUpPlatform, hgpiod, Option.isNone_none] at hled
    have hentry : _ = r.2.2 i := congrArg Prod.snd hled
    rw [← lineBefore_of_none hgpiod]
    show LedEntry.SetUp _ _ _ _ (r.2.2 i)
    rw [← hentry]
    exact hsetUp

/-- The LEDs of platform data keep their places, whether they are there or not. The probe
fails with the error of the first that is there and cannot be set up; one that is not there
is skipped, and no shutdown reaches it. An LED whose line the probe has to request cannot
keep its state : what it keeps is what the request has made of it, on if it is active-low and
requested by number, off otherwise. -/
theorem platform_leds (blinkSet devmKzalloc : Bool) (lines : ℕ → Bool)
    (templates : List (PlatformLed × PlatformCalls)) (hne : templates ≠ [])
    (children : List (LedChild × ChildCalls)) :
    let r := gpioLedProbe (some (blinkSet, templates)) children devmKzalloc lines
    (r.1 = none ↔ devmKzalloc = true ∧ ∀ x ∈ templates, platformError x = none) ∧
    r.2.numLeds = templates.length ∧
    (r.1 = none → ∀ i x, templates[i]? = some x →
      ((platformGpiod x.1 x.2).isSome → (r.2.leds i).line = false ∧
        (r.2.leds i).registered = false ∧
        ∀ t : LedsGpio, ((gpioLedShutdown r.2 t).leds i).out = (t.leds i).out) ∧
      (platformGpiod x.1 x.2 = none → r.2.Serves x.1.toGpioLed blinkSet x.2.toLedCalls
        (if x.1.gpiod then .ofBool (lines i) else requestShows x.1 x.2) i)) ∧
    ∀ err, r.1 = some err → devmKzalloc = true → ∃ pre x post, templates = pre ++ x :: post ∧
      platformError x = some err ∧ GpioLedsPriv.Placed blinkSet lines pre (x :: post) r := by
  intro r
  obtain ⟨first, rest, rfl⟩ := List.exists_cons_of_ne_nil hne
  cases devmKzalloc with
  | false => simp [r, gpioLedProbe]
  | true =>
    have hr : r = GpioLedsPriv.createPlatform blinkSet (first :: rest) 0
        ⟨(first :: rest).length, fun i => .zero (lines i)⟩ := by
      simp [r, gpioLedProbe]
    have hnum : r.2.numLeds = (first :: rest).length := by
      rw [hr, createPlatform_eq]
    obtain ⟨pre, post, hsplit, h⟩ :=
      createPlatform_placed blinkSet lines (first :: rest).length (first :: rest)
    rw [← hr] at h
    rw [hsplit] at hnum ⊢
    cases post with
    | nil =>
      rw [List.append_nil] at *
      refine ⟨iff_of_true h.ret ⟨rfl, h.ok⟩, hnum, fun _ i x hx => ⟨fun hgpiod => ?_,
        fun hgpiod => ?_⟩, fun err herr => ?_⟩
      · obtain ⟨hline, hregistered⟩ := h.skipped i x hx hgpiod
        exact ⟨hline, hregistered, fun t => by simp [gpioLedShutdown_out, hline]⟩
      · have hi := (List.getElem?_eq_some_iff.1 hx).1
        exact serves_of_setUp (h.setUp i x hx hgpiod) (hnum.symm ▸ hi)
      · rw [h.ret] at herr
        cases herr
    | cons x post =>
      have hfailed : platformError x ≠ none := h.failed x rfl
      have hret : r.1 = platformError x := h.ret
      refine ⟨iff_of_false (fun hnone => hfailed (hret ▸ hnone)) ?_, hnum,
        fun hnone => absurd (hret ▸ hnone) hfailed, fun err herr _ => ?_⟩
      · rintro ⟨-, hok⟩
        exact hfailed (hok x (by simp))
      · exact ⟨pre, x, post, rfl, hret.symm.trans herr, h⟩

/-- An LED whose line is not there yet, and two that are to keep their state and whose lines
are requested by number, the second active-low. -/
def missingAndKept : List (PlatformLed × PlatformCalls) :=
  [(⟨⟨none, .on, false, false, false⟩, false, true, false⟩,
      ⟨⟨false, none, none, none⟩, some eProbeDefer, none, true⟩),
    (⟨⟨none, .keep, false, false, false⟩, false, true, false⟩,
      ⟨⟨false, none, none, none⟩, some ⟨-eNoEnt, by decide⟩, none, true⟩),
    (⟨⟨none, .keep, false, false, false⟩, false, true, true⟩,
      ⟨⟨false, none, none, none⟩, some ⟨-eNoEnt, by decide⟩, none, true⟩)]

/-- Two LEDs are lit and the third is dark : the first is skipped, the second turned off and
the third turned on. -/
theorem missingAndKept_leds :
    let r := gpioLedProbe (some (false, missingAndKept)) [] true fun i => i != 2
    r.1 = none ∧ r.2.numLeds = 3 ∧ (r.2.leds 0).registered = false ∧
      (r.2.leds 1).data.out = .low ∧ (r.2.leds 2).data.out = .high := by
  intro r
  obtain ⟨hret, hnum, hleds, -⟩ := platform_leds false true (fun i => i != 2) missingAndKept
    (by simp [missingAndKept]) []
  have hok : r.1 = none := hret.2 ⟨rfl, by simp [missingAndKept, platformError, ledError,
    platformGpiod, gpioLedGetGpiod, eNoEnt]⟩
  obtain ⟨-, hmissing, -⟩ := (hleds hok 0 _ rfl).1 rfl
  have hkept := (hleds hok 1 _ rfl).2 rfl
  have hlow := (hleds hok 2 _ rfl).2 rfl
  exact ⟨hok, hnum, hmissing, hkept.setUp.out, hlow.setUp.out⟩

end ProCamp
