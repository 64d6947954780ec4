import ProCamp.Alarm
import ProCamp.TimerExit

/-!
# When the timers expire

The timers of `HW6/deffered/timer.c` and `HW6/button/onboard_io/onboard_io.c` on the clock that
counts `jiffies`. `timer_callback` of `timer.c` adds `delay_in_jiffies` to `start` and sets its
timer to that; the one of `onboard_io.c` sets it to `jiffies` and 2000 ms. An action is a tick
of the clock or a step of the module; a timer expires at or after the time it is set to.
`jiffies` is counted without its wrap, which the comparisons of the timers undo.

`timer_on_schedule` : `timer.c` makes 6 calls, none before its own multiple of
`delay_in_jiffies`, and each within the latency of that call alone, as long as a call and its
latency are shorter than the period. `onboard_drifts` : `onboard_io.c` makes 15, each 2000 ms
or more after the one before, so what one is late all later ones are.
-/

namespace ProCamp

open Machine

/-- `delay_in_jiffies`. -/
def delayInJiffies (hz : ℕ) : ℕ :=
  hz * 200 / 1000

/-! ## `timer.c` -/

/-- `timer.c`, with `start`. -/
structure TimerVars where
  module : TimerModule
  start : ℕ

namespace TimerVars

/-- After lines 48 to 52 of `timer_init`. -/
def init (delay now : ℕ) : TimerVars × Alarm :=
  (⟨.init, now + delay⟩, .init now (now + delay))

/-- `start` after a step : line 24. -/
def nextStart (delay : ℕ) (s : TimerVars) : TimerAct → ℕ
  | .callback => if s.module.myTimer.pc = some .modTimer then s.start + delay else s.start
  | .expires | .exit => s.start

/-- One step of the module. -/
def step (delay : ℕ) (s : TimerVars) (a : TimerAct) : Option TimerVars :=
  (s.module.step a).map fun module => ⟨module, s.nextStart delay a⟩

/-- What a step asks of the timer : lines 25 and 60, and that the callback starts and
returns. -/
def ask (delay : ℕ) (s : TimerVars) (_ : Alarm) : TimerAct → List Alarm.Act
  | .expires => [.fire]
  | .callback =>
    match s.module.myTimer.pc with
    | some .modTimer => [.set (s.start + delay)]
    | some .ret => [.finish]
    | _ => []
  | .exit => if s.module.exit = .del then [.cancel] else []

/-- One step on the clock. -/
def clockStep (delay : ℕ) : TimerVars × Alarm → Option TimerAct → Option (TimerVars × Alarm) :=
  Alarm.clocked (step delay) (ask delay)

/-- The points of `timer_callback` up to its `mod_timer`. -/
def early : TimerCallbackPc → Bool
  | .countdown | .modTimer => true
  | .ret => false

/-- What a step does to the callback, its timer and `start`. -/
inductive Move (delay : ℕ) (w : TimerVars × Alarm) : Option TimerAct → TimerVars × Alarm → Prop
  | tick {alarm : Alarm} (halarm : w.2.step .tick = some alarm) : Move delay w none (w.1, alarm)
  | expires {alarm : Alarm} (halarm : w.2.step .fire = some alarm) :
      Move delay w (some .expires)
        (⟨{ w.1.module with myTimer := ⟨false, some .countdown⟩ }, w.1.start⟩, alarm)
  | countdown (hpc : w.1.module.myTimer.pc = some .countdown) :
      Move delay w (some .callback)
        (⟨{ w.1.module with
            restart := w.1.module.restart - 1
            myTimer := w.1.module.myTimer.goto
              (if w.1.module.restart ≠ 0 then .modTimer else .ret) }, w.1.start⟩, w.2)
  | modTimer {alarm : Alarm} (hpc : w.1.module.myTimer.pc = some .modTimer)
      (halarm : w.2.step (.set (w.1.start + delay)) = some alarm) :
      Move delay w (some .callback)
        (⟨{ w.1.module with myTimer := w.1.module.myTimer.arm.goto .ret },
          w.1.start + delay⟩, alarm)
  | ret {alarm : Alarm} (hpc : w.1.module.myTimer.pc = some .ret)
      (halarm : w.2.step .finish = some alarm) :
      Move delay w (some .callback)
        (⟨{ w.1.module with myTimer := w.1.module.myTimer.finish }, w.1.start⟩, alarm)
  | unload {pc : TimerExitPc} (hpc : w.1.module.exit ≠ .del) (hnext : pc ≠ .loaded) :
      Move delay w (some .exit) (⟨{ w.1.module with exit := pc }, w.1.start⟩, w.2)
  | del {alarm : Alarm} (hpc : w.1.module.exit = .del)
      (halarm : w.2.step .cancel = some alarm) :
      Move delay w (some .exit)
        (⟨{ w.1.module with
            exit := .report
            myTimer := w.1.module.myTimer.disarm }, w.1.start⟩, alarm)

variable {delay now : ℕ} {w v : TimerVars × Alarm} {x : Option TimerAct}
  {as : List (Option TimerAct)}

theorem clockStep_move (h : clockStep delay w x = some v) : Move delay w x v := by
  obtain ⟨s, alarm⟩ := v
  cases x with
  | none =>
    obtain ⟨rfl, halarm⟩ := Alarm.clocked_none h
    exact .tick halarm
  | some a =>
    obtain ⟨hstep, hask⟩ := Alarm.clocked_some.1 h
    obtain ⟨m, hm, rfl⟩ := Option.map_eq_some_iff.1 hstep
    cases a with
    | expires =>
      obtain ⟨d, hd, rfl⟩ := Option.map_eq_some_iff.1 hm
      obtain ⟨-, -, rfl⟩ := Deferred.start_eq_some.1 hd
      have halarm : w.2.step .fire = some alarm := by
        simpa [ask, exec_singleton] using hask
      exact .expires halarm
    | callback =>
      simp only [TimerModule.step, TimerModule.callbackStep] at hm
      split at hm
      case h_1 hpc =>
        cases hm
        obtain rfl : w.2 = alarm := by simpa [ask, hpc] using hask
        have hmove : Move delay w _ _ := .countdown hpc
        simpa [nextStart, hpc] using hmove
      case h_2 hpc =>
        cases hm
        have halarm : w.2.step (.set (w.1.start + delay)) = some alarm := by
          simpa [ask, hpc, exec_singleton] using hask
        simpa [nextStart, hpc] using Move.modTimer hpc halarm
      case h_3 hpc =>
        cases hm
        have halarm : w.2.step .finish = some alarm := by
          simpa [ask, hpc, exec_singleton] using hask
        have hmove : Move delay w _ _ := .ret hpc halarm
        simpa [nextStart, hpc] using hmove
      case h_4 => cases hm
    | exit =>
      simp only [TimerModule.step, TimerModule.exitStep] at hm
      split at hm
      case h_1 hpc =>
        cases hm
        obtain rfl : w.2 = alarm := by simpa [ask, hpc] using hask
        exact .unload (by simp [hpc]) (by simp)
      case h_2 hpc =>
        cases hm
        have halarm : w.2.step .cancel = some alarm := by
          simpa [ask, hpc, exec_singleton] using hask
        exact .del hpc halarm
      case h_3 hpc =>
        cases hm
        obtain rfl : w.2 = alarm := by simpa [ask, hpc] using hask
        exact .unload (by simp [hpc]) (by simp)
      case h_4 => cases hm

/-- The timer of the module is the timer on the clock. -/
structure Coupled (w : TimerVars × Alarm) : Prop where
  start : w.1.start = w.2.expires
  timer : w.2.Tracks early w.1.module.myTimer

/-- The countdown and the calls. -/
structure Counted (w : TimerVars × Alarm) : Prop where
  le : w.2.calls.length ≤ 6
  left : w.1.module.myTimer.armed = true ∨ w.1.module.myTimer.pc = some .modTimer →
    w.2.calls.length ≤ 5 ∧ w.1.module.restart = Int32.ofNat (5 - w.2.calls.length)
  countdown : w.1.module.myTimer.pc = some .countdown → w.1.module.myTimer.armed = false ∧
    w.1.module.restart = Int32.ofNat (6 - w.2.calls.length)
  spent : w.1.module.exit = .loaded → w.1.module.myTimer.armed = false →
    w.1.module.myTimer.pc = none ∨ w.1.module.myTimer.pc = some .ret → w.2.calls.length = 6

theorem coupled_init (delay now : ℕ) : Coupled (init delay now) :=
  ⟨rfl, Alarm.tracks_init ..⟩

theorem Coupled.step (h : Coupled w) (hmove : Move delay w x v) : Coupled v := by
  cases hmove with
  | tick halarm =>
    refine ⟨?_, h.timer.tick halarm⟩
    cases halarm
    exact h.start
  | expires halarm =>
    refine ⟨?_, .fire halarm _⟩
    obtain ⟨-, rfl⟩ := Alarm.step_fire_eq_some.1 halarm
    exact h.start
  | countdown hpc => exact ⟨h.start, h.timer.goto hpc fun _ => rfl⟩
  | modTimer hpc halarm =>
    refine ⟨?_, .set halarm rfl⟩
    obtain ⟨began, -, rfl⟩ := Alarm.step_set_eq_some.1 halarm
    rfl
  | ret hpc halarm =>
    refine ⟨?_, h.timer.finish halarm⟩
    obtain ⟨-, rfl⟩ := Alarm.step_finish_eq_some.1 halarm
    exact h.start
  | unload => exact ⟨h.start, h.timer⟩
  | del hpc halarm =>
    refine ⟨?_, h.timer.cancel halarm⟩
    cases halarm
    exact h.start

/-- The clock holds nothing back but a timer that is not due. -/
theorem Coupled.clockStep_isSome (h : Coupled w) {a : TimerAct}
    (hstep : (w.1.module.step a).isSome = true) (hdue : a = .expires → w.2.expires ≤ w.2.now) :
    (clockStep delay w (some a)).isSome = true := by
  obtain ⟨m, hm⟩ := Option.isSome_iff_exists.1 hstep
  suffices hask : (exec Alarm.step w.2 (ask delay w.1 w.2 a)).isSome = true by
    obtain ⟨alarm, halarm⟩ := Option.isSome_iff_exists.1 hask
    have hvars : TimerVars.step delay w.1 a = some ⟨m, w.1.nextStart delay a⟩ := by
      rw [TimerVars.step, hm]
      rfl
    exact Option.isSome_iff_exists.2 ⟨(_, alarm), Alarm.clocked_some.2 ⟨hvars, halarm⟩⟩
  have hsingle (b : Alarm.Act) (hb : (w.2.step b).isSome = true) :
      (exec Alarm.step w.2 [b]).isSome = true := by
    rwa [exec_singleton]
  cases a with
  | expires =>
    obtain ⟨d, hd, -⟩ := Option.map_eq_some_iff.1 hm
    obtain ⟨harmed, hpc, -⟩ := Deferred.start_eq_some.1 hd
    exact hsingle _ (h.timer.fire_isSome harmed hpc (hdue rfl))
  | callback =>
    cases hpc : w.1.module.myTimer.pc with
    | none => simp [ask, hpc]
    | some p =>
      cases p with
      | countdown => simp [ask, hpc]
      | modTimer =>
        simp only [ask, hpc]
        exact hsingle _ (h.timer.set_isSome hpc rfl _)
      | ret =>
        simp only [ask, hpc]
        exact hsingle _ (h.timer.finish_isSome (by simp [hpc]))
  | exit =>
    by_cases hdel : w.1.module.exit = .del
    · simp only [ask, hdel]
      exact hsingle _ rfl
    · simp [ask, hdel]

theorem counted_init (delay now : ℕ) : Counted (init delay now) where
  le := Nat.zero_le 6
  left _ := ⟨Nat.zero_le 5, rfl⟩
  countdown hpc := by cases hpc
  spent _ harmed := by cases harmed

/-- One call of the countdown. -/
theorem countdown_next : ∀ n < 6, Int32.ofNat (6 - n) ≠ 0 ∧
    Int32.ofNat (6 - n) - 1 = Int32.ofNat (5 - n) := by
  decide

theorem Counted.step (h : Counted w) (hc : Coupled w) (hmove : Move delay w x v) :
    Counted v := by
  cases hmove with
  | tick halarm =>
    cases halarm
    exact ⟨h.le, h.left, h.countdown, h.spent⟩
  | expires halarm =>
    obtain ⟨⟨hpending, -, -⟩, rfl⟩ := Alarm.step_fire_eq_some.1 halarm
    obtain ⟨hle, hrestart⟩ := h.left (Or.inl (hc.timer.pending.trans hpending))
    refine ⟨?_, ?_, fun _ => ⟨rfl, ?_⟩, ?_⟩
    · simp only [List.length_append, List.length_singleton]
      omega
    · rintro (harmed | hpc)
      · cases harmed
      · cases hpc
    · simpa using hrestart
    · rintro - - (hpc | hpc) <;> cases hpc
  | countdown hpc =>
    obtain ⟨harmed, hrestart⟩ := h.countdown hpc
    rcases h.le.lt_or_eq with hlt | heq
    · obtain ⟨hne, hnext⟩ := countdown_next w.2.calls.length hlt
      have hgoto : w.1.module.restart ≠ 0 := hrestart ▸ hne
      refine ⟨h.le, fun _ => ⟨Nat.le_of_lt_succ hlt, ?_⟩, ?_, ?_⟩
      · exact (congrArg (· - 1) hrestart).trans hnext
      · simp [hgoto]
      · simp [hgoto]
    · have hzero : w.1.module.restart = 0 := by rw [hrestart, heq]; rfl
      refine ⟨h.le, ?_, ?_, fun _ _ _ => heq⟩ <;> simp [hzero, harmed]
  | modTimer hpc halarm =>
    obtain ⟨began, -, rfl⟩ := Alarm.step_set_eq_some.1 halarm
    exact ⟨h.le, fun _ => h.left (Or.inr hpc), (fun hp => by cases hp),
      fun _ harmed => by cases harmed⟩
  | ret hpc halarm =>
    obtain ⟨-, rfl⟩ := Alarm.step_finish_eq_some.1 halarm
    refine ⟨h.le, ?_, (fun hp => by cases hp), fun hexit harmed _ =>
      h.spent hexit harmed (Or.inr hpc)⟩
    rintro (harmed | hp)
    · exact h.left (Or.inl harmed)
    · cases hp
  | unload hpc hnext => exact ⟨h.le, h.left, h.countdown, fun hexit => absurd hexit hnext⟩
  | del hpc halarm =>
    cases halarm
    refine ⟨h.le, ?_, fun hp => ⟨rfl, (h.countdown hp).2⟩, fun hexit => by cases hexit⟩
    rintro (harmed | hp)
    · cases harmed
    · exact h.left (Or.inr hp)

/-- What a step asks of the timer keeps its schedule. -/
theorem Coupled.absolute (h : Coupled w) (hmove : Move delay w x v) :
    v.2 = w.2 ∨ ∃ b, w.2.step b = some v.2 ∧ Alarm.Absolute delay w.2 b v.2 ∧
      (b = .tick → x = none) := by
  cases hmove with
  | tick halarm => exact Or.inr ⟨_, halarm, by simp [Alarm.Absolute], fun _ => rfl⟩
  | expires halarm | ret hpc halarm | del hpc halarm =>
    exact Or.inr ⟨_, halarm, by simp [Alarm.Absolute], by simp⟩
  | countdown | unload => exact Or.inl rfl
  | modTimer hpc halarm =>
    refine Or.inr ⟨_, halarm, fun expires hset => ?_, by simp⟩
    cases hset
    rw [h.start]

/-- In every run, however the callback, its timer, the clock and `timer_exit` interleave : at
most 6 calls are made, and 6 where the module stays loaded and its timer is done; the `k`-th of
them is never before `k + 1` times the delay, and where no call is more than `L` late and `L`
with the time it takes fits in the delay, never more than `L` after that. -/
theorem timer_on_schedule (hz now : ℕ)
    (hrun : exec (clockStep (delayInJiffies hz)) (init (delayInJiffies hz) now) as = some w) :
    w.2.calls.length ≤ 6 ∧
      (w.1.module.exit = .loaded → w.1.module.myTimer.Idle → w.2.calls.length = 6) ∧
      (∀ k j, w.2.calls[k]? = some j → now + (k + 1) * delayInJiffies hz ≤ j) ∧
      ∀ L D, L + D ≤ delayInJiffies hz →
        EveryStep (clockStep (delayInJiffies hz)) (Alarm.Punctual L D)
          (init (delayInJiffies hz) now) as →
        ∀ k j, w.2.calls[k]? = some j → j ≤ now + (k + 1) * delayInJiffies hz + L := by
  generalize delayInJiffies hz = delay at hrun ⊢
  have hslot (k : ℕ) : now + (k + 1) * delay = now + delay + k * delay := by ring
  obtain ⟨-, hcounted, hschedule⟩ := exec_invariant_of_step
    (I := fun w => Coupled w ∧ Counted w ∧ Alarm.OnSchedule (now + delay) delay w.2)
    (fun u x v ⟨hc, hn, hs⟩ hstep => by
      have hmove := clockStep_move hstep
      refine ⟨hc.step hmove, hn.step hc hmove, ?_⟩
      rcases hc.absolute hmove with heq | ⟨b, hb, habs, -⟩
      · exact heq ▸ hs
      · exact hs.step habs hb)
    ⟨coupled_init .., counted_init .., Alarm.onSchedule_init now⟩ hrun
  refine ⟨hcounted.le, fun hexit hidle => hcounted.spent hexit hidle.1 (Or.inl hidle.2),
    fun k j hk => (hslot k) ▸ hschedule.early k j hk, fun L D hperiod hpunctual k j hk => ?_⟩
  obtain ⟨-, htime⟩ := exec_invariant
    (I := fun w => Coupled w ∧ Alarm.OnTime (now + delay) delay L D w.2)
    (fun u x v ⟨hc, ht⟩ hprompt hstep => by
      have hmove := clockStep_move hstep
      refine ⟨hc.step hmove, ?_⟩
      rcases hc.absolute hmove with heq | ⟨b, hb, habs, htick⟩
      · exact heq ▸ ht
      · exact ht.step hperiod habs (fun hbtick => hprompt (htick hbtick)) hb)
    ⟨coupled_init .., Alarm.onTime_init (Nat.le_add_right ..)⟩ hpunctual hrun
  exact (hslot k) ▸ htime.late k j hk

/-- The first call is late by one jiffy, and the second is not. -/
theorem late_then_on_schedule :
    ∃ w, exec (clockStep (delayInJiffies 10)) (init (delayInJiffies 10) 7)
        [none, none, none, some .expires, some .callback, some .callback, some .callback, none,
          some .expires] = some w ∧
      w.2.calls = [10, 11] ∧ w.2.calls.length ≤ 6 ∧
      ∀ k j, w.2.calls[k]? = some j → j ≤ 7 + (k + 1) * 2 + 1 := by
  obtain ⟨w, hrun, hcalls⟩ := Option.map_eq_some_iff.1 (by decide +kernel :
    (exec (clockStep (delayInJiffies 10)) (init (delayInJiffies 10) 7)
      [none, none, none, some .expires, some .callback, some .callback, some .callback, none,
        some .expires]).map (fun w => w.2.calls) = some [10, 11])
  obtain ⟨hle, -, -, hlate⟩ := timer_on_schedule 10 7 hrun
  exact ⟨w, hrun, hcalls, hle, hlate 1 1 (by decide) (by decide +kernel)⟩

end TimerVars

/-! ## `onboard_io.c` -/

namespace OnboardIo

/-- What a step asks of the timer : lines 129 and 187, and that the callback starts and returns.
`period` is `msecs_to_jiffies(2000)`. -/
def ask (period : ℕ) (s : OnboardIo) (alarm : Alarm) : IoAct → List Alarm.Act
  | .expires => [.fire]
  | .callback _ =>
    match s.myTimer.pc with
    | some .modTimer => [.set (alarm.now + period)]
    | some .ret => [.finish]
    | _ => []
  | .exit => if s.exit = .del then [.cancel] else []

/-- One step on the clock. -/
def clockStep (period : ℕ) : OnboardIo × Alarm → Option IoAct → Option (OnboardIo × Alarm) :=
  Alarm.clocked step (ask period)

/-- The points of `timer_callback` up to its `mod_timer`. -/
def early : IoCallbackPc → Bool
  | .sample | .drive | .countdown | .modTimer => true
  | .ret => false

/-- The module but for what its timer does not touch. -/
structure Timing where
  times : Int32
  myTimer : Deferred IoCallbackPc
  loaded : Bool

/-- The timing of the module. -/
def timing (s : OnboardIo) : Timing :=
  ⟨s.times, s.myTimer, decide (s.exit = .loaded)⟩

/-- What a step does to the callback, its timer and the countdown. -/
inductive TimingMove (period : ℕ) (c : Timing) (s : Alarm) :
    Option IoAct → Timing → Alarm → Prop
  | tick {t : Alarm} (halarm : s.step .tick = some t) : TimingMove period c s none c t
  | expires {t : Alarm} (halarm : s.step .fire = some t) :
      TimingMove period c s (some .expires) { c with myTimer := ⟨false, some .sample⟩ } t
  | goto {p q : IoCallbackPc} (value : ℤ) (hpc : c.myTimer.pc = some p)
      (hp : p = .sample ∨ p = .drive) (hq : q = .drive ∨ q = .countdown) :
      TimingMove period c s (some (.callback value)) { c with myTimer := c.myTimer.goto q } s
  | countdown (value : ℤ) (hpc : c.myTimer.pc = some .countdown) :
      TimingMove period c s (some (.callback value))
        { c with
          times := c.times - 1
          myTimer := c.myTimer.goto (if c.times - 1 ≠ 0 then .modTimer else .ret) } s
  | modTimer (value : ℤ) {t : Alarm} (hpc : c.myTimer.pc = some .modTimer)
      (halarm : s.step (.set (s.now + period)) = some t) :
      TimingMove period c s (some (.callback value))
        { c with myTimer := c.myTimer.arm.goto .ret } t
  | ret (value : ℤ) {t : Alarm} (hpc : c.myTimer.pc = some .ret)
      (halarm : s.step .finish = some t) :
      TimingMove period c s (some (.callback value)) { c with myTimer := c.myTimer.finish } t
  | unload : TimingMove period c s (some .exit) { c with loaded := false } s
  | del {t : Alarm} (halarm : s.step .cancel = some t) :
      TimingMove period c s (some .exit)
        { c with myTimer := c.myTimer.disarm, loaded := false } t

section

variable {period delay now : ℕ} {w v : OnboardIo × Alarm} {x : Option IoAct}
  {as : List (Option IoAct)} {c d : Timing} {s t : Alarm}

theorem clockStep_move (h : clockStep period w x = some v) :
    TimingMove period w.1.timing w.2 x v.1.timing v.2 := by
  cases x with
  | none =>
    obtain ⟨hsame, halarm⟩ := Alarm.clocked_none h
    exact hsame ▸ .tick halarm
  | some a =>
    obtain ⟨hstep, hask⟩ := Alarm.clocked_some.1 h
    cases a with
    | expires =>
      obtain ⟨d, hd, hv⟩ := Option.map_eq_some_iff.1 hstep
      obtain ⟨-, -, rfl⟩ := Deferred.start_eq_some.1 hd
      have halarm : w.2.step .fire = some v.2 := by simpa [ask, exec_singleton] using hask
      exact hv ▸ .expires halarm
    | callback value =>
      simp only [step, callbackStep] at hstep
      split at hstep
      case h_1 hpc =>
        obtain ⟨s, alarm⟩ := v
        cases hstep
        obtain rfl : w.2 = alarm := by simpa [ask, hpc] using hask
        exact .goto value hpc (Or.inl rfl) (Or.inl rfl)
      case h_2 hpc =>
        obtain ⟨s, alarm⟩ := v
        cases hstep
        obtain rfl : w.2 = alarm := by simpa [ask, hpc] using hask
        exact .goto value hpc (Or.inr rfl) (Or.inr rfl)
      case h_3 hpc =>
        obtain ⟨s, alarm⟩ := v
        cases hstep
        obtain rfl : w.2 = alarm := by simpa [ask, hpc] using hask
        exact .countdown value hpc
      case h_4 hpc =>
        obtain ⟨s, alarm⟩ := v
        cases hstep
        have halarm : w.2.step (.set (w.2.now + period)) = some alarm := by
          simpa [ask, hpc, exec_singleton] using hask
        exact .modTimer value hpc halarm
      case h_5 hpc =>
        obtain ⟨s, alarm⟩ := v
        cases hstep
        have halarm : w.2.step .finish = some alarm := by
          simpa [ask, hpc, exec_singleton] using hask
        exact .ret value hpc halarm
      case h_6 => cases hstep
    | exit =>
      obtain ⟨s, alarm⟩ := v
      cases step_move hstep with
      | timer times buttonState hmove ha => exact absurd rfl ha
      | unload hpc | ledOff hpc =>
        obtain rfl : w.2 = alarm := by simpa [ask, hpc] using hask
        exact .unload
      | del hpc =>
        have halarm : w.2.step .cancel = some alarm := by
          simpa [ask, hpc, exec_singleton] using hask
        exact .del halarm
      | deinit hpc =>
        obtain rfl : w.2 = alarm := by simpa [ask, hpc] using hask
        have htiming : OnboardIo.timing { w.1.buttonGpioDeinit with
            exit := .returned
            released := if w.1.buttonGpio ≥ 0 then w.1.released ++ [w.1.buttonGpio]
              else w.1.released } = { w.1.timing with loaded := false } := by
          unfold buttonGpioDeinit
          split_ifs <;> rfl
        exact htiming ▸ .unload

/-- The countdown and the calls. -/
structure Counted (c : Timing) (s : Alarm) : Prop where
  le : s.calls.length ≤ 15
  left : c.myTimer.armed = true ∨ c.myTimer.pc = some .modTimer →
    s.calls.length ≤ 14 ∧ c.times = Int32.ofNat (15 - s.calls.length)
  counting : ∀ p ∈ c.myTimer.pc, p = .sample ∨ p = .drive ∨ p = .countdown →
    c.myTimer.armed = false ∧ 1 ≤ s.calls.length ∧ c.times = Int32.ofNat (16 - s.calls.length)
  spent : c.loaded = true → c.myTimer.armed = false →
    c.myTimer.pc = none ∨ c.myTimer.pc = some .ret → s.calls.length = 15

/-- One call of the countdown. -/
theorem times_next : ∀ n < 15, Int32.ofNat (16 - (n + 1)) - 1 = Int32.ofNat (15 - (n + 1)) ∧
    (Int32.ofNat (16 - (n + 1)) - 1 = 0 ↔ n + 1 = 15) := by
  decide

theorem tracks_step (h : s.Tracks early c.myTimer) (hmove : TimingMove period c s x d t) :
    t.Tracks early d.myTimer := by
  cases hmove with
  | tick halarm => exact h.tick halarm
  | expires halarm => exact .fire halarm _
  | goto value hpc hp hq => exact h.goto hpc fun _ => by rcases hp with rfl | rfl <;> rfl
  | countdown value hpc => exact h.goto hpc fun _ => rfl
  | modTimer value hpc halarm => exact .set halarm rfl
  | ret value hpc halarm => exact h.finish halarm
  | unload => exact h
  | del halarm => exact h.cancel halarm

theorem Counted.step (h : Counted c s) (htracks : s.Tracks early c.myTimer)
    (hmove : TimingMove period c s x d t) : Counted d t := by
  cases hmove with
  | tick halarm =>
    cases halarm
    exact ⟨h.le, h.left, h.counting, h.spent⟩
  | expires halarm =>
    obtain ⟨⟨hpending, -, -⟩, rfl⟩ := Alarm.step_fire_eq_some.1 halarm
    obtain ⟨hle, htimes⟩ := h.left (Or.inl (htracks.pending.trans hpending))
    refine ⟨?_, ?_, fun p _ _ => ⟨rfl, ?_, ?_⟩, ?_⟩
    · simp only [List.length_append, List.length_singleton]
      omega
    · rintro (harmed | hpc)
      · cases harmed
      · cases hpc
    · simp
    · simpa using htimes
    · rintro - - (hpc | hpc) <;> cases hpc
  | @goto p q value hpc hp hq =>
    have hcounting := h.counting p hpc (hp.imp_right Or.inl)
    refine ⟨h.le, ?_, fun _ _ _ => hcounting, fun _ _ hend => ?_⟩
    · rintro (harmed | hmod)
      · exact h.left (Or.inl harmed)
      · rcases hq with rfl | rfl <;> cases hmod
    · rcases hq with rfl | rfl <;> rcases hend with hend | hend <;> cases hend
  | countdown value hpc =>
    obtain ⟨harmed, hpos, htimes⟩ := h.counting _ hpc (Or.inr (Or.inr rfl))
    obtain ⟨n, hn⟩ := Nat.exists_eq_add_of_le' hpos
    have hle := h.le
    obtain ⟨hnext, hzero⟩ := times_next n (by omega)
    rw [← hn, ← htimes] at hnext hzero
    by_cases hlast : c.times - 1 = 0
    · have heq := hzero.1 hlast
      refine ⟨h.le, ?_, ?_, fun _ _ _ => heq⟩ <;> simp [hlast, harmed]
    · refine ⟨h.le, fun _ => ⟨?_, hnext⟩, ?_, ?_⟩
      · have hne := hzero.not.1 hlast
        omega
      · simp [hlast]
      · simp [hlast]
  | modTimer value hpc halarm =>
    obtain ⟨began, -, rfl⟩ := Alarm.step_set_eq_some.1 halarm
    refine ⟨h.le, fun _ => h.left (Or.inr hpc), fun p hp hcounting => ?_, fun _ harmed => by
      cases harmed⟩
    cases hp
    simp at hcounting
  | ret value hpc halarm =>
    obtain ⟨-, rfl⟩ := Alarm.step_finish_eq_some.1 halarm
    refine ⟨h.le, ?_, (fun p hp => by cases hp), fun hloaded harmed _ =>
      h.spent hloaded harmed (Or.inr hpc)⟩
    rintro (harmed | hp)
    · exact h.left (Or.inl harmed)
    · cases hp
  | unload => exact ⟨h.le, h.left, h.counting, fun hloaded => by cases hloaded⟩
  | del halarm =>
    cases halarm
    refine ⟨h.le, ?_, fun p hp hcounting => ⟨rfl, (h.counting p hp hcounting).2⟩,
      fun hloaded => by cases hloaded⟩
    rintro (harmed | hp)
    · cases harmed
    · exact h.left (Or.inr hp)

/-- What a step asks of the timer passes its lateness on. -/
theorem relative_step (hmove : TimingMove period c s x d t) :
    t = s ∨ ∃ b, s.step b = some t ∧ Alarm.Relative period s b t ∧ (b = .tick → x = none) := by
  cases hmove with
  | tick halarm => exact Or.inr ⟨_, halarm, by simp [Alarm.Relative], fun _ => rfl⟩
  | expires halarm | ret value hpc halarm | del halarm =>
    exact Or.inr ⟨_, halarm, by simp [Alarm.Relative], by simp⟩
  | goto | countdown | unload => exact Or.inl rfl
  | modTimer value hpc halarm =>
    refine Or.inr ⟨_, halarm, fun expires hset => ?_, by simp⟩
    cases hset
    rfl

theorem counted_init (now expires : ℕ) :
    Counted ⟨15, Deferred.idle.arm, true⟩ (.init now expires) where
  le := Nat.zero_le 15
  left _ := ⟨Nat.zero_le 14, rfl⟩
  counting _ hpc := by cases hpc
  spent _ harmed := by cases harmed

/-- What an `onboard_io_init` that succeeds leaves to the timer. -/
theorem timing_of_init {calls : IoInitCalls} {level : ℤ → Bool} {s : OnboardIo}
    (hinit : onboardIoInit calls (start level) = (0, s)) :
    s.timing = ⟨15, Deferred.idle.arm, true⟩ := by
  simp only [onboardIoInit, buttonGpioInit, ledGpioInit] at hinit
  split_ifs at hinit with hrequest hinput hrc hled
  · exact absurd (Prod.mk.inj hinit).1 hrequest
  · exact absurd (Prod.mk.inj hinit).1 hinput
  · exact absurd rfl hrc
  · exact absurd (Prod.mk.inj hinit).1 hled
  · obtain rfl := (Prod.mk.inj hinit).2
    rfl

/-- In every run after an `onboard_io_init` that has succeeded, whatever the button does and
however `onboard_io_exit` comes in : at most 15 calls are made, and 15 where the module stays
loaded and its timer is done; each is at least a period after the one before. Where none is
more than `L` late or takes more than `D`, it is at most `L + D` later than that. -/
theorem onboard_drifts {calls : IoInitCalls} {level : ℤ → Bool} {s : OnboardIo}
    (hinit : onboardIoInit calls (start level) = (0, s)) (hz now period : ℕ)
    (hrun : exec (clockStep period) (s, .init now (now + delayInJiffies hz)) as = some w) :
    w.2.calls.length ≤ 15 ∧
      (w.1.exit = .loaded → w.1.myTimer.Idle → w.2.calls.length = 15) ∧
      w.2.calls.IsChain (fun i j => i + period ≤ j) ∧
      ∀ L D, D ≤ period + L →
        EveryStep (clockStep period) (Alarm.Punctual L D)
          (s, .init now (now + delayInJiffies hz)) as →
        w.2.calls.IsChain fun i j => j ≤ i + period + (L + D) := by
  have htiming := timing_of_init hinit
  obtain ⟨-, hcounted, hspaced⟩ := exec_invariant_of_step
    (I := fun w : OnboardIo × Alarm => w.2.Tracks early w.1.timing.myTimer ∧
      Counted w.1.timing w.2 ∧ Alarm.Spaced period w.2)
    (fun u x v ⟨hc, hn, hs⟩ hstep => by
      have hmove := clockStep_move hstep
      refine ⟨tracks_step hc hmove, hn.step hc hmove, ?_⟩
      rcases relative_step hmove with heq | ⟨b, hb, hrel, -⟩
      · exact heq ▸ hs
      · exact hs.step hrel hb)
    ⟨htiming ▸ Alarm.tracks_init .., htiming ▸ counted_init .., Alarm.spaced_init now⟩ hrun
  refine ⟨hcounted.le, fun hexit hidle => hcounted.spent (decide_eq_true hexit) hidle.1
    (Or.inl hidle.2), hspaced.gaps, fun L D hbrief hpunctual => ?_⟩
  have hprompted := exec_invariant
    (I := fun w : OnboardIo × Alarm => Alarm.Prompted period L D w.2)
    (fun u x v hp hprompt hstep => by
      rcases relative_step (clockStep_move hstep) with heq | ⟨b, hb, hrel, htick⟩
      · exact heq ▸ hp
      · exact hp.step hbrief hrel (fun hbtick => hprompt (htick hbtick)) hb)
    (Alarm.prompted_init (Nat.le_add_right ..)) hpunctual hrun
  exact hprompted.gaps

/-- The first call is late by one jiffy, and the second is due one jiffy later for that. -/
theorem late_and_later :
    ∃ w, exec (clockStep 2)
        ((onboardIoInit ⟨0, 0, 0⟩ (start fun _ => false)).2, .init 7 (7 + delayInJiffies 5))
        [none, none, some .expires, some (.callback 1), some (.callback 1), some (.callback 1),
          some (.callback 1), some (.callback 1), none, none, some .expires] = some w ∧
      w.2.calls = [9, 11] ∧ w.2.calls.length ≤ 15 ∧
      w.2.calls.IsChain (fun i j => i + 2 ≤ j) ∧
      w.2.calls.IsChain fun i j => j ≤ i + 2 + (1 + 1) := by
  obtain ⟨w, hrun, hcalls⟩ := Option.map_eq_some_iff.1 (by decide +kernel :
    (exec (clockStep 2)
      ((onboardIoInit ⟨0, 0, 0⟩ (start fun _ => false)).2, .init 7 (7 + delayInJiffies 5))
      [none, none, some .expires, some (.callback 1), some (.callback 1), some (.callback 1),
        some (.callback 1), some (.callback 1), none, none, some .expires]).map
      (fun w => w.2.calls) = some [9, 11])
  have hinit : onboardIoInit ⟨0, 0, 0⟩ (start fun _ => false) =
      (0, (onboardIoInit ⟨0, 0, 0⟩ (start fun _ => false)).2) := rfl
  obtain ⟨hle, -, hgaps, hlate⟩ := onboard_drifts hinit 5 7 2 hrun
  exact ⟨w, hrun, hcalls, hle, hgaps, hlate 1 1 (by decide) (by decide +kernel)⟩

end

end OnboardIo

end ProCamp
