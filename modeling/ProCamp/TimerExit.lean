import ProCamp.OnboardIo

/-!
# Timers at unload

Two modules whose timer re-arms itself and whose exit function calls `del_timer`, which
takes a pending timer off its queue and does not wait for a callback : `HW6/deffered/timer.c`
with `timer_exit`, and `HW6/button/onboard_io/onboard_io.c` with `onboard_io_exit`, which
releases the button as well. The callback may run on another CPU, at any value of its
countdown.

`timers_stop` : where `del_timer` finds no callback running, the exit function leaves the
timer neither pending nor running, and no callback uses a line it has released. Where it
finds one, some run goes on to break this (`TimerModule.stops_iff`, `OnboardIo.stops_iff`).
-/

namespace ProCamp

open Machine

/-- `timer_callback` of `timer.c`. -/
inductive TimerCallbackPc where
  /-- Line 23. -/
  | countdown
  /-- Lines 24 and 25. -/
  | modTimer
  /-- Line 38. -/
  | ret
  deriving DecidableEq

/-- `timer_exit`. -/
inductive TimerExitPc where
  /-- Not unloading. -/
  | loaded
  /-- Line 60. -/
  | del
  /-- Line 63. -/
  | report
  | returned
  deriving DecidableEq

/-- `timer.c`. -/
structure TimerModule where
  restart : Int32
  myTimer : Deferred TimerCallbackPc
  exit : TimerExitPc

/-- One step of the timer, its callback or `timer_exit`. -/
inductive TimerAct where
  /-- The timer expires. -/
  | expires
  /-- The next step of `timer_callback`. -/
  | callback
  /-- The next step of `timer_exit`. -/
  | exit
  deriving DecidableEq

namespace TimerModule

/-- After `timer_init`. -/
def init : TimerModule :=
  ⟨5, Deferred.idle.arm, .loaded⟩

/-- One step of `timer_callback`. -/
def callbackStep (s : TimerModule) : Option TimerModule :=
  match s.myTimer.pc with
  | some .countdown =>
    some { s with
      restart := s.restart - 1
      myTimer := s.myTimer.goto (if s.restart ≠ 0 then .modTimer else .ret) }
  | some .modTimer => some { s with myTimer := s.myTimer.arm.goto .ret }
  | some .ret => some { s with myTimer := s.myTimer.finish }
  | none => none

/-- One step of `timer_exit`. -/
def exitStep (s : TimerModule) : Option TimerModule :=
  match s.exit with
  | .loaded => some { s with exit := .del }
  | .del => some { s with exit := .report, myTimer := s.myTimer.disarm }
  | .report => some { s with exit := .returned }
  | .returned => none

/-- One step. -/
def step (s : TimerModule) : TimerAct → Option TimerModule
  | .expires => (s.myTimer.start .countdown).map fun myTimer => { s with myTimer }
  | .callback => s.callbackStep
  | .exit => s.exitStep

/-- Once `timer_exit` has returned the timer is neither pending nor running. -/
def Stopped (_ : TimerModule) (_ : TimerAct) (t : TimerModule) : Prop :=
  t.exit = .returned → t.myTimer.Idle

/-- `del_timer` finds no callback running. -/
def DeletesIdle (s : TimerModule) (a : TimerAct) (_ : TimerModule) : Prop :=
  a = .exit → s.exit = .del → s.myTimer.pc = none

instance (s : TimerModule) (a : TimerAct) (t : TimerModule) : Decidable (DeletesIdle s a t) :=
  inferInstanceAs (Decidable (_ → _ → _))

instance (s : TimerModule) (a : TimerAct) (t : TimerModule) : Decidable (Stopped s a t) :=
  inferInstanceAs (Decidable (_ → _))

/-- `del_timer` has returned. -/
def Deleted (s : TimerModule) : Prop :=
  s.exit = .report ∨ s.exit = .returned

variable {s t : TimerModule} {a : TimerAct} {as : List TimerAct}

/-! ## What a step can do -/

/-- The steps of the module. -/
inductive Move (s : TimerModule) : TimerAct → TimerModule → Prop
  | timer {a : TimerAct} {d : Deferred TimerCallbackPc} (restart : Int32)
      (hmove : s.myTimer.Move d) (ha : a ≠ .exit) : Move s a { s with restart, myTimer := d }
  | unload (hpc : s.exit = .loaded) : Move s .exit { s with exit := .del }
  | del (hpc : s.exit = .del) :
      Move s .exit { s with exit := .report, myTimer := s.myTimer.disarm }
  | report (hpc : s.exit = .report) : Move s .exit { s with exit := .returned }

theorem step_move (h : s.step a = some t) : s.Move a t := by
  cases a with
  | expires =>
    obtain ⟨d, hd, rfl⟩ := Option.map_eq_some_iff.1 h
    obtain ⟨harmed, -, rfl⟩ := Deferred.start_eq_some.1 hd
    exact .timer s.restart (.start _ harmed) (by simp)
  | callback =>
    simp only [step, callbackStep] at h
    split at h
    case h_1 hpc => cases h; exact .timer _ (.goto _ (by simp [hpc])) (by simp)
    case h_2 hpc => cases h; exact .timer s.restart (.rearm (by simp [hpc]) _) (by simp)
    case h_3 hpc => cases h; exact .timer s.restart (.finish (by simp [hpc])) (by simp)
    case h_4 => cases h
  | exit =>
    simp only [step, exitStep] at h
    split at h
    case h_1 hpc => cases h; exact .unload hpc
    case h_2 hpc => cases h; exact .del hpc
    case h_3 hpc => cases h; exact .report hpc
    case h_4 => cases h

theorem timer_move (h : s.step a = some t) : s.myTimer.Move t.myTimer := by
  cases step_move h with
  | timer restart hmove ha => exact hmove
  | unload | report => exact .stay
  | del => exact .disarm

/-- Only `del_timer` leads behind itself. -/
theorem deleted_step (h : s.step a = some t) (ht : t.Deleted) :
    s.Deleted ∨ ((a = .exit ∧ s.exit = .del) ∧ t.myTimer = s.myTimer.disarm) := by
  cases step_move h with
  | timer => exact Or.inl ht
  | unload => simp [Deleted] at ht
  | del hpc => exact Or.inr ⟨⟨rfl, hpc⟩, rfl⟩
  | report hpc => exact Or.inl (Or.inl hpc)

/-- `timer_exit` does not go back. -/
theorem deleted_kept (hs : s.Deleted) (h : s.step a = some t) : t.Deleted := by
  cases step_move h with
  | timer => exact hs
  | unload hpc | del hpc => simp [Deleted, hpc] at hs
  | report => exact Or.inr rfl

/-- `del_timer` is called once. -/
theorem disarms : Deferred.Disarms step TimerModule.myTimer (fun s a => a = .exit ∧ s.exit = .del)
    Deleted where
  move _ _ _ h := timer_move h
  disarm _ _ _ h := deleted_step h
  kept _ _ _ h hs := deleted_kept hs h
  once s _ hs hdel := by rcases hs with heq | heq <;> simp [heq] at hdel

/-! ## Runs -/

theorem stopped_of_deletesIdle (hs : s.Deleted → s.myTimer.Idle)
    (hdel : EveryStep step DeletesIdle s as) : EveryStep step Stopped s as := by
  have hidle := disarms.idle hs (hdel.mono fun s a t h hdeletes => h hdeletes.1 hdeletes.2)
  exact hidle.mono fun s a t h ht => h (Or.inr ht)

/-- Whether every run from a call of `del_timer` on stops the timer is decided by whether a
callback is running then. -/
theorem stops_iff (hs : s.exit = .del) :
    (∀ as, EveryStep step Stopped s (.exit :: as)) ↔ s.myTimer.pc = none := by
  have hstep : s.step .exit = some { s with exit := .report, myTimer := s.myTimer.disarm } := by
    simp [step, exitStep, hs]
  constructor
  · intro hall
    have hret : step { s with exit := .report, myTimer := s.myTimer.disarm } .exit =
        some { s with exit := .returned, myTimer := s.myTimer.disarm } := rfl
    have hrun := ((everyStep_cons_of_step hstep).1 (hall [.exit])).2
    exact (((everyStep_cons_of_step hret).1 hrun).1 rfl).2
  · intro hpc as
    refine stopped_of_deletesIdle (fun hdeleted => by simp [Deleted, hs] at hdeleted) ?_
    exact (disarms.everyStep_cons hstep (Or.inl rfl) hpc as).mono
      fun s a t h hexit hdel => h ⟨hexit, hdel⟩

end TimerModule

namespace OnboardIo

/-- The line the next step of `timer_callback` uses. -/
def uses (s : OnboardIo) : IoAct → Option ℤ
  | .callback _ =>
    match s.myTimer.pc with
    | some .sample => some s.buttonGpio
    | some .drive => some s.ledGpio
    | _ => none
  | .expires | .exit => none

/-- Once `onboard_io_exit` has returned the timer is neither pending nor running, and no
callback has used a line that it had released. -/
def Stopped (s : OnboardIo) (a : IoAct) (t : OnboardIo) : Prop :=
  (t.exit = .returned → t.myTimer.Idle) ∧ ∀ gpio ∈ s.uses a, gpio ∉ s.released

/-- `del_timer` finds no callback running. -/
def DeletesIdle (s : OnboardIo) (a : IoAct) (_ : OnboardIo) : Prop :=
  a = .exit → s.exit = .del → s.myTimer.pc = none

instance (s : OnboardIo) (a : IoAct) (t : OnboardIo) : Decidable (DeletesIdle s a t) :=
  inferInstanceAs (Decidable (_ → _ → _))

instance (s : OnboardIo) (a : IoAct) (t : OnboardIo) : Decidable (Stopped s a t) :=
  inferInstanceAs (Decidable ((_ → _) ∧ _))

/-- `del_timer` has returned. -/
def Deleted (s : OnboardIo) : Prop :=
  s.exit = .deinit ∨ s.exit = .returned

/-- Behind `del_timer` the timer is idle, and nothing is released before. -/
structure Quiet (s : OnboardIo) : Prop where
  idle : s.Deleted → s.myTimer.Idle
  released : s.released ≠ [] → s.Deleted

variable {s t : OnboardIo} {a : IoAct} {as : List IoAct}

theorem quiet_of_loaded (hs : s.exit = .loaded) (hreleased : s.released = []) : s.Quiet :=
  ⟨fun h => by simp [Deleted, hs] at h, fun h => absurd hreleased h⟩

theorem buttonGpioDeinit_myTimer (s : OnboardIo) : s.buttonGpioDeinit.myTimer = s.myTimer := by
  unfold buttonGpioDeinit
  split_ifs <;> rfl

theorem timer_move (h : s.step a = some t) : s.myTimer.Move t.myTimer := by
  cases step_move h with
  | timer times buttonState hmove ha => exact hmove
  | drive value hpc => exact .goto _ (by simp [hpc])
  | unload | ledOff => exact .stay
  | del => exact .disarm
  | deinit =>
    rw [buttonGpioDeinit_myTimer]
    exact .stay

/-- Only `del_timer` leads behind itself. -/
theorem deleted_step (h : s.step a = some t) (ht : t.Deleted) :
    s.Deleted ∨ ((a = .exit ∧ s.exit = .del) ∧ t.myTimer = s.myTimer.disarm) := by
  cases step_move h with
  | timer | drive => exact Or.inl ht
  | unload | ledOff => simp [Deleted] at ht
  | del hpc => exact Or.inr ⟨⟨rfl, hpc⟩, rfl⟩
  | deinit hpc => exact Or.inl (Or.inl hpc)

/-- `onboard_io_exit` does not go back. -/
theorem deleted_kept (hs : s.Deleted) (h : s.step a = some t) : t.Deleted := by
  cases step_move h with
  | timer | drive => exact hs
  | unload hpc | ledOff hpc | del hpc => simp [Deleted, hpc] at hs
  | deinit => exact Or.inr rfl

/-- `del_timer` is called once. -/
theorem disarms : Deferred.Disarms step OnboardIo.myTimer (fun s a => a = .exit ∧ s.exit = .del)
    Deleted where
  move _ _ _ h := timer_move h
  disarm _ _ _ h := deleted_step h
  kept _ _ _ h hs := deleted_kept hs h
  once s _ hs hdel := by rcases hs with heq | heq <;> simp [heq] at hdel

/-- Only the last step of `onboard_io_exit` releases. -/
theorem released_step (h : s.step a = some t) : t.released = s.released ∨ t.Deleted := by
  cases step_move h with
  | deinit => exact Or.inr (Or.inr rfl)
  | _ => exact Or.inl rfl

theorem stopped_of_deletesIdle (hs : s.Quiet) (hdel : EveryStep step DeletesIdle s as) :
    EveryStep step Stopped s as := by
  have hidle := disarms.idle hs.idle (hdel.mono fun s a t h hdeletes => h hdeletes.1 hdeletes.2)
  refine everyStep_of_invariant (I := Quiet) ?_ hs hidle
  intro s a t hquiet hidle h
  refine ⟨⟨hidle, fun hreleased => ?_⟩, fun ht => hidle (Or.inr ht), fun gpio huse hmem => ?_⟩
  · rcases released_step h with heq | hdeleted
    · exact deleted_kept (hquiet.released (heq ▸ hreleased)) h
    · exact hdeleted
  · have hpc := (hquiet.idle (hquiet.released (List.ne_nil_of_mem hmem))).2
    cases a <;> simp [uses, hpc] at huse

/-- Whether every run from a call of `del_timer` on stops the timer is decided by whether a
callback is running then. -/
theorem stops_iff (hs : s.exit = .del) (hreleased : s.released = []) :
    (∀ as, EveryStep step Stopped s (.exit :: as)) ↔ s.myTimer.pc = none := by
  have hstep : s.step .exit = some { s with exit := .deinit, myTimer := s.myTimer.disarm } := by
    simp [step, exitStep, hs]
  constructor
  · intro hall
    obtain ⟨t, ht, hexit, htimer⟩ : ∃ t, OnboardIo.step
        { s with exit := .deinit, myTimer := s.myTimer.disarm } .exit = some t ∧
        t.exit = .returned ∧ t.myTimer = s.myTimer.disarm :=
      ⟨_, rfl, rfl, buttonGpioDeinit_myTimer _⟩
    have hrun := ((everyStep_cons_of_step hstep).1 (hall [.exit])).2
    have hidle := ((everyStep_cons_of_step ht).1 hrun).1.1 hexit
    rw [htimer] at hidle
    exact hidle.2
  · intro hpc as
    refine stopped_of_deletesIdle ⟨fun hdeleted => by simp [Deleted, hs] at hdeleted,
      fun h => absurd hreleased h⟩ ?_
    exact (disarms.everyStep_cons hstep (Or.inl rfl) hpc as).mono
      fun s a t h hexit hdel => h ⟨hexit, hdel⟩

end OnboardIo

/-- In every run of either module in which `del_timer` finds no callback running, whatever
the countdown and the state of the timer at its start : once the exit function has returned
the timer is neither pending nor running, and no callback uses a line it has released. -/
theorem timers_stop {m : TimerModule} {as : List TimerAct} {s : OnboardIo} {bs : List IoAct}
    (hm : m.exit = .loaded) (has : EveryStep TimerModule.step TimerModule.DeletesIdle m as)
    (hs : s.exit = .loaded) (hreleased : s.released = [])
    (hbs : EveryStep OnboardIo.step OnboardIo.DeletesIdle s bs) :
    EveryStep TimerModule.step TimerModule.Stopped m as ∧
      EveryStep OnboardIo.step OnboardIo.Stopped s bs :=
  ⟨TimerModule.stopped_of_deletesIdle (fun h => by simp [TimerModule.Deleted, hm] at h) has,
    OnboardIo.stopped_of_deletesIdle (OnboardIo.quiet_of_loaded hs hreleased) hbs⟩

/-- A run of a callback, and then the whole exit function. -/
theorem timers_stop_after_callback :
    EveryStep TimerModule.step TimerModule.Stopped TimerModule.init
        [.expires, .callback, .callback, .callback, .exit, .exit, .exit] ∧
      EveryStep OnboardIo.step OnboardIo.Stopped
        (OnboardIo.onboardIoInit ⟨0, 0, 0⟩ (OnboardIo.start fun _ => false)).2
        [.expires, .callback 1, .callback 1, .callback 1, .callback 1, .callback 1, .exit,
          .exit, .exit, .exit] :=
  timers_stop rfl (by decide) rfl rfl (by decide)

/-- `del_timer` finds a callback about to re-arm the timer, or about to sample the button. -/
theorem callback_after_unload :
    ¬EveryStep TimerModule.step TimerModule.Stopped TimerModule.init
        [.expires, .callback, .exit, .exit, .callback, .exit] ∧
      ¬EveryStep OnboardIo.step OnboardIo.Stopped
        (OnboardIo.onboardIoInit ⟨0, 0, 0⟩ (OnboardIo.start fun _ => false)).2
        [.expires, .exit, .exit, .exit, .exit, .callback 1] := by
  decide

end ProCamp
