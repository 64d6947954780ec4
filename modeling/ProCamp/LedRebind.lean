import ProCamp.LedProbe

/-!
# Probing the LEDs again

`gpio_led_probe` of `HW13/leds-gpio.c` creates a class, and nothing destroys it : neither a
probe that fails further on nor the driver when the device goes. A class of a name that is
registered cannot be created, and the probe follows the error pointer it is handed instead.

`survives_iff` : from the loading of the driver on, the kernel survives exactly the histories
with at most one probe, and that with its class created. So no probe that was deferred, and
no device that was unbound, can be probed again.
-/

namespace ProCamp

open Machine

/-- `EEXIST`. -/
def eExist : ℤ := 17

/-- The driver and its device. -/
structure LedsHost where
  /-- `gpioLedsClass` is registered. -/
  classRegistered : Bool
  /-- The file of `dndMode` is there. -/
  dndFile : Bool
  dndMode : Int32
  /-- The device is bound, to these LEDs. -/
  bound : Option (GpioLedsPriv × LedsGpio)
  /-- The driver has followed an error pointer. -/
  oops : Bool

/-- The outcomes of the kernel calls in `gpio_led_probe`, and what it reads of the device. -/
structure LedsProbe where
  /-- The error of `class_create`, were the name free. -/
  classCreate : Option PtrErr
  /-- `class_create_file` succeeds. -/
  classCreateFile : Bool
  pdata : Option (Bool × List (PlatformLed × PlatformCalls))
  children : List (LedChild × ChildCalls)
  devmKzalloc : Bool
  lines : ℕ → Bool

/-- What happens to the host of the driver. -/
inductive LedsHostAct where
  | probe (p : LedsProbe)
  | request (a : LedRequest)
  | shutdown
  /-- The device is unbound. -/
  | unbind

/-- The outcome of `class_create` for the probe, if the action is one. -/
def LedsHostAct.classCreate : LedsHostAct → Option (Option PtrErr)
  | .probe p => some p.classCreate
  | .request _ | .shutdown | .unbind => none

namespace LedsHost

/-- The driver is loaded. -/
def start : LedsHost where
  classRegistered := false
  dndFile := false
  dndMode := 0
  bound := none
  oops := false

/-- `gpio_led_probe`. -/
def probe (s : LedsHost) (p : LedsProbe) : LedsHost :=
  match if s.classRegistered then some ⟨-eExist, by decide⟩ else p.classCreate with
  | some _ => { s with oops := true }
  | none =>
    let s := { s with classRegistered := true, dndFile := p.classCreateFile }
    match gpioLedProbe p.pdata p.children p.devmKzalloc p.lines with
    | (some _, _) => s
    | (none, priv) => { s with bound := some (priv, priv.driver s.dndMode) }

/-- One step. -/
def step (s : LedsHost) (a : LedsHostAct) : Option LedsHost :=
  if s.oops then none
  else match a, s.bound with
  | .probe p, none => some (s.probe p)
  | .request r, some (priv, leds) =>
    (leds.step r).map fun leds => { s with dndMode := leds.dndMode, bound := some (priv, leds) }
  | .shutdown, some (priv, leds) =>
    some { s with dndFile := false, bound := some (priv, gpioLedShutdown priv leds) }
  | .unbind, some _ => some { s with bound := none }
  | _, _ => none

variable {s t : LedsHost} {a : LedsHostAct}

/-- Only a probe registers the class or follows a pointer. -/
theorem step_of_not_probe (hstep : s.step a = some t) (ha : a.classCreate = none) :
    t.classRegistered = s.classRegistered ∧ t.oops = s.oops := by
  unfold step at hstep
  split_ifs at hstep
  split at hstep
  case h_1 => cases ha
  case h_2 =>
    obtain ⟨leds, -, rfl⟩ := Option.map_eq_some_iff.1 hstep
    exact ⟨rfl, rfl⟩
  case h_3 =>
    cases hstep
    exact ⟨rfl, rfl⟩
  case h_4 =>
    cases hstep
    exact ⟨rfl, rfl⟩
  case h_5 => cases hstep

theorem step_of_probe {p : LedsProbe} (hstep : s.step (.probe p) = some t) :
    s.oops = false ∧ (t.oops = true ↔ s.classRegistered = true ∨ p.classCreate ≠ none) ∧
      (t.oops = false → t.classRegistered = true) := by
  unfold step at hstep
  split_ifs at hstep with hoops
  split at hstep
  case h_1 p' heq _ =>
    cases heq
    cases hstep
    refine ⟨by simpa using hoops, ?_⟩
    unfold probe
    cases hclass : s.classRegistered with
    | true => simp
    | false =>
      cases hcreate : p.classCreate with
      | some err => simp
      | none =>
        simp only [Bool.false_eq_true, if_false, ne_eq, not_true_eq_false, or_self, iff_false]
        split <;> simpa using hoops
  case h_5 => cases hstep
  all_goals simp_all

/-- What the probes of a history have come to. -/
def After (s : LedsHost) (outcomes : List (Option PtrErr)) : Prop :=
  if s.oops then outcomes ≠ [] ∧ outcomes ≠ [none]
  else outcomes = [] ∧ s.classRegistered = false ∨ outcomes = [none] ∧ s.classRegistered = true

theorem after_start : start.After [] :=
  Or.inl ⟨rfl, rfl⟩

theorem after_step {outcomes : List (Option PtrErr)} (h : s.After outcomes)
    (hstep : s.step a = some t) : t.After (outcomes ++ a.classCreate.toList) := by
  have hrun : s.oops = false := by
    by_contra hoops
    simp [step, hoops] at hstep
  rw [After, if_neg (by simp [hrun])] at h
  cases ha : a.classCreate with
  | none =>
    obtain ⟨hclass, hoops⟩ := step_of_not_probe hstep ha
    simpa [After, hoops, hclass, hrun] using h
  | some outcome =>
    obtain ⟨p, rfl⟩ : ∃ p, a = .probe p := by
      cases a with
      | probe p => exact ⟨p, rfl⟩
      | request | shutdown | unbind => cases ha
    obtain rfl : p.classCreate = outcome := Option.some.inj ha
    obtain ⟨-, hoops, hclass⟩ := step_of_probe hstep
    cases ht : t.oops with
    | true =>
      rw [ht] at hoops
      obtain ⟨rfl, hfree⟩ | ⟨rfl, -⟩ := h
      · have hcreate : p.classCreate ≠ none := by simpa [hfree] using hoops
        simpa [After, ht] using hcreate
      · simp [After, ht]
    | false =>
      have hlive : ¬(s.classRegistered = true ∨ p.classCreate ≠ none) := by
        rw [← hoops, ht]
        simp
      obtain ⟨hfree, hcreate⟩ := not_or.1 hlive
      have hnone : p.classCreate = none := not_not.1 hcreate
      obtain ⟨rfl, -⟩ | ⟨-, hregistered⟩ := h
      · simp [After, ht, hnone, hclass ht]
      · exact absurd hregistered hfree

/-- What the probes of a run have come to. -/
theorem after_exec {outcomes : List (Option PtrErr)} {as : List LedsHostAct}
    (h : s.After outcomes) (hrun : exec step s as = some t) :
    t.After (outcomes ++ as.filterMap LedsHostAct.classCreate) := by
  induction as generalizing s outcomes with
  | nil =>
    obtain rfl : s = t := by simpa using hrun
    simpa using h
  | cons a as ih =>
    obtain ⟨u, hu, hrest⟩ := exec_cons_eq_some.1 hrun
    have hafter := ih (after_step h hu) hrest
    cases ha : a.classCreate <;> simpa [ha, List.filterMap_cons] using hafter

/-- From the loading of the driver on, the kernel survives exactly the histories with at most
one probe, and that with its class created. -/
theorem survives_iff (as : List LedsHostAct) (t : LedsHost) (hrun : exec step start as = some t) :
    t.oops = false ↔ as.filterMap LedsHostAct.classCreate = [] ∨
      as.filterMap LedsHostAct.classCreate = [none] := by
  have hafter := after_exec after_start hrun
  rw [List.nil_append] at hafter
  cases hoops : t.oops with
  | true =>
    rw [After, if_pos hoops] at hafter
    simpa using hafter
  | false =>
    rw [After, if_neg (by simp [hoops])] at hafter
    exact iff_of_true rfl (hafter.imp And.left And.left)

/-- A probe that is deferred, as the line of its LED is not there yet. -/
def deferredProbe : LedsProbe where
  classCreate := none
  classCreateFile := true
  pdata := none
  children := [(⟨none, false, false, false⟩, ⟨⟨false, none, none, none⟩, some eProbeDefer⟩)]
  devmKzalloc := true
  lines _ := false

/-- The kernel probes a deferred device again. -/
theorem deferredProbe_oops :
    ∃ t, exec step start [.probe deferredProbe, .probe deferredProbe] = some t ∧
      t.oops = true := by
  obtain ⟨t, ht⟩ : ∃ t, exec step start [.probe deferredProbe, .probe deferredProbe] = some t :=
    ⟨_, rfl⟩
  have hiff := survives_iff _ t ht
  refine ⟨t, ht, ?_⟩
  cases hoops : t.oops with
  | true => rfl
  | false =>
    have hone := hiff.1 hoops
    simp [LedsHostAct.classCreate] at hone

end LedsHost

end ProCamp
