import ProCamp.EventModule

/-!
# How often the callbacks run

`timer_callback` counts down from 15 and `irq_simulation_callback` from 6; each re-arms a
timer unless its countdown has come to zero. Both re-arm `my_timer` : nothing arms
`irq_simulation_timer` a second time, so its callback runs once. If that run re-arms
`my_timer` after the last of the 15 runs of `timer_callback` has started, the countdown
goes on below zero until it has wrapped around.

`Clock` is the part of the module that decides this, and `ClockMove` what a step does to
it. `never_as_counted` : in no maximal run do the callbacks run 15 and 6 times.
-/

namespace ProCamp

open Machine

/-- The timers and their counters. -/
structure Clock where
  init : EventInit
  myTimer : Deferred TimerPc
  irqTimer : Deferred IrqPc
  timerTimes : Int32
  irqTimes : Int32
  timerRuns : ℕ
  irqRuns : ℕ

/-- The timers and counters of the module. -/
def EventModule.clock (s : EventModule) : Clock :=
  ⟨s.init, s.myTimer, s.irqTimer, s.timerTimes, s.irqTimes, s.timerRuns, s.irqRuns⟩

/-- What a step of the module does to its timers. -/
inductive ClockMove (c : Clock) : Clock → Prop
  | stay : ClockMove c c
  | alloc {n : ℕ} {init : EventInit} (hpc : c.init = .alloc n)
      (hinit : init = .timer ∨ ∃ m, init = .alloc m) : ClockMove c { c with init }
  | armTimer (hpc : c.init = .timer) :
      ClockMove c { c with init := .irq, myTimer := c.myTimer.arm }
  | armIrq (hpc : c.init = .irq) :
      ClockMove c { c with init := .done, irqTimer := c.irqTimer.arm }
  | fireTimer (harmed : c.myTimer.armed = true) (hpc : c.myTimer.pc = none) :
      ClockMove c { c with
        myTimer := ⟨false, some .number⟩
        timerRuns := c.timerRuns + 1 }
  | fireIrq (harmed : c.irqTimer.armed = true) (hpc : c.irqTimer.pc = none) :
      ClockMove c { c with irqTimer := ⟨false, some .lock⟩, irqRuns := c.irqRuns + 1 }
  | timer (p : TimerPc) (hpc : c.myTimer.pc ≠ none) :
      ClockMove c { c with myTimer := c.myTimer.goto p }
  | irq (p : IrqPc) (hpc : c.irqTimer.pc ≠ none) :
      ClockMove c { c with irqTimer := c.irqTimer.goto p }
  | rearmTimer (hpc : c.myTimer.pc = some .rearm) :
      ClockMove c { c with
        timerTimes := c.timerTimes - 1
        myTimer := if c.timerTimes - 1 ≠ 0 then c.myTimer.finish.arm else c.myTimer.finish }
  | rearmIrq (hpc : c.irqTimer.pc = some .rearm) :
      ClockMove c { c with
        irqTimes := c.irqTimes - 1
        myTimer := if c.irqTimes - 1 ≠ 0 then c.myTimer.arm else c.myTimer
        irqTimer := c.irqTimer.finish }

namespace EventModule

variable {s t : EventModule} {a : ModuleAct}

theorem clockMove_timerStep {now : ℤ} (h : s.timerStep now = some t) :
    ClockMove s.clock t.clock := by
  cases timerStep_move h with
  | rearm hpc => exact .rearmTimer hpc
  | number _ hpc | lock hpc | first hpc | empty hpc | overflow hpc | setNumber hpc
  | setTime hpc | rotate hpc | print hpc | unlock hpc =>
    exact .timer _ (by simp [clock, hpc])

theorem clockMove_irqStep (h : s.irqStep = some t) : ClockMove s.clock t.clock := by
  cases irqStep_move h with
  | rearm hpc => exact .rearmIrq hpc
  | lock hpc | first hpc | last hpc | test hpc | found hpc | skip hpc | take hpc
  | clear hpc | next hpc | unlock hpc =>
    exact .irq _ (by simp [clock, hpc])

theorem clockMove_exitStep (h : s.exitStep = some t) : t.clock = s.clock := by
  cases exitStep_move h <;> rfl

theorem clockMove_initStep {ok : Bool} (h : s.initStep ok = some t) :
    ClockMove s.clock t.clock := by
  unfold initStep at h
  split at h
  case h_1 hpc => cases h; exact .alloc hpc (Or.inl rfl)
  case h_2 n hpc =>
    cases ok <;> cases h <;> exact .alloc hpc (Or.inr ⟨n, rfl⟩)
  case h_3 hpc => cases h; exact .armTimer hpc
  case h_4 hpc => cases h; exact .armIrq hpc
  case h_5 => cases h

theorem clockMove_of_step (h : s.step a = some t) : ClockMove s.clock t.clock := by
  cases a with
  | init ok => exact clockMove_initStep h
  | fireTimer =>
    obtain ⟨d, hd, rfl⟩ := Option.map_eq_some_iff.1 h
    obtain ⟨harmed, hpc, rfl⟩ := Deferred.start_eq_some.1 hd
    exact .fireTimer harmed hpc
  | fireIrq =>
    obtain ⟨d, hd, rfl⟩ := Option.map_eq_some_iff.1 h
    obtain ⟨harmed, hpc, rfl⟩ := Deferred.start_eq_some.1 hd
    exact .fireIrq harmed hpc
  | timer now => exact clockMove_timerStep h
  | irq => exact clockMove_irqStep h
  | exit => exact clockMove_exitStep h ▸ .stay

end EventModule

/-! ## Counting down -/

/-- `times` of `timer_callback` after `d` runs of its line 95. -/
def timesAfter (d : ℕ) : Int32 :=
  Int32.ofInt (15 - d)

theorem timesAfter_succ (d : ℕ) : timesAfter (d + 1) = timesAfter d - 1 := by
  have hsub : (15 : ℤ) - (d + 1 : ℕ) = (15 - d) - 1 := by omega
  rw [timesAfter, hsub, Int32.ofInt_sub]
  rfl

/-- The runs of a countdown from 15, and of one that goes on below zero. -/
theorem timesAfter_eq_zero {d : ℕ} (h : d < 16 + 2 ^ 32) :
    timesAfter d = 0 ↔ d = 15 ∨ d = 15 + 2 ^ 32 := by
  have hzero : (0 : Int32).toInt = 0 := rfl
  rw [timesAfter, Int32.ofInt_eq_iff_bmod_eq_toInt, hzero, Int.bmod_def]
  split <;> omega

namespace Clock

variable {c d : Clock}

/-- The runs of `timer_callback` whose line 95 is over. -/
def counted (c : Clock) : ℕ :=
  if c.myTimer.pc = none then c.timerRuns else c.timerRuns - 1

/-- `irq_simulation_callback` : it runs once. -/
structure IrqOk (c : Clock) : Prop where
  /-- Until it is armed. -/
  before : c.init ≠ .done → c.irqTimer.Idle ∧ c.irqRuns = 0 ∧ c.irqTimes = 6
  /-- Armed, running or over. -/
  after : c.init = .done →
    (c.irqTimer.armed = true ∧ c.irqTimer.pc = none ∧ c.irqRuns = 0 ∧ c.irqTimes = 6) ∨
    (c.irqTimer.armed = false ∧ c.irqTimer.pc ≠ none ∧ c.irqRuns = 1 ∧ c.irqTimes = 6) ∨
    (c.irqTimer.Idle ∧ c.irqRuns = 1)

/-- `my_timer` runs on until it has run `n` times. -/
def Alive (n : ℕ) (c : Clock) : Prop :=
  (c.myTimer.armed = true ∧ c.myTimer.pc = none ∧ c.timerRuns < n) ∨
  (c.myTimer.pc ≠ none ∧ 1 ≤ c.timerRuns ∧ c.timerRuns ≤ n ∧
    (c.myTimer.armed = true → c.timerRuns < n)) ∨
  (c.myTimer.Idle ∧ c.timerRuns = n)

/-- `my_timer` was armed again when its 15 runs had started. -/
structure Late (c : Clock) : Prop where
  alive : c.Alive (15 + 2 ^ 32)
  le : 15 ≤ c.timerRuns
  armed : c.timerRuns = 15 → c.myTimer.armed = true
  done : c.init = .done ∧ c.irqTimer.Idle

/-- The invariant of the clock. -/
structure Inv (c : Clock) : Prop where
  irq : c.IrqOk
  times : c.timerTimes = timesAfter c.counted
  /-- Until it is armed. -/
  before : c.init ≠ .irq → c.init ≠ .done → c.myTimer.Idle ∧ c.timerRuns = 0
  after : c.init = .irq ∨ c.init = .done → c.Alive 15 ∨ c.Late

theorem inv_start : Inv EventModule.start.clock where
  irq := ⟨fun _ => ⟨⟨rfl, rfl⟩, rfl, rfl⟩, fun h => nomatch h⟩
  times := rfl
  before _ _ := ⟨⟨rfl, rfl⟩, rfl⟩
  after h := by rcases h with h | h <;> cases h

theorem irqOk_step (h : c.IrqOk) (hmove : ClockMove c d) : d.IrqOk := by
  obtain ⟨hbefore, hafter⟩ := h
  cases hmove with
  | stay => exact ⟨hbefore, hafter⟩
  | @alloc n init hpc hinit =>
    refine ⟨fun _ => hbefore (by simp [hpc]), fun hdone => ?_⟩
    rcases hinit with rfl | ⟨m, rfl⟩ <;> cases hdone
  | armTimer hpc => exact ⟨fun _ => hbefore (by simp [hpc]), fun h => nomatch h⟩
  | armIrq hpc =>
    obtain ⟨hidle, hruns, htimes⟩ := hbefore (by simp [hpc])
    exact ⟨fun h => absurd rfl h, fun _ => Or.inl ⟨rfl, hidle.2, hruns, htimes⟩⟩
  | fireTimer => exact ⟨hbefore, hafter⟩
  | timer => exact ⟨hbefore, hafter⟩
  | rearmTimer => exact ⟨hbefore, hafter⟩
  | fireIrq harmed hpc =>
    refine ⟨fun h => ?_, fun h => ?_⟩
    · have := (hbefore h).1.1
      simp [harmed] at this
    · rcases hafter h with ⟨-, -, hruns, htimes⟩ | ⟨hnot, -⟩ | ⟨hidle, -⟩
      · exact Or.inr (Or.inl ⟨rfl, by simp, by simp [hruns], htimes⟩)
      · simp [harmed] at hnot
      · have := hidle.1
        simp [harmed] at this
  | irq p hpc =>
    refine ⟨fun h => absurd (hbefore h).1.2 hpc, fun h => ?_⟩
    rcases hafter h with ⟨-, hnone, -⟩ | ⟨hnot, -, hruns, htimes⟩ | ⟨hidle, -⟩
    · exact absurd hnone hpc
    · exact Or.inr (Or.inl ⟨hnot, by simp, hruns, htimes⟩)
    · exact absurd hidle.2 hpc
  | rearmIrq hpc =>
    have hrun : c.irqTimer.pc ≠ none := by simp [hpc]
    refine ⟨fun h => absurd (hbefore h).1.2 hrun, fun h => ?_⟩
    rcases hafter h with ⟨-, hnone, -⟩ | ⟨hnot, -, hruns, -⟩ | ⟨hidle, -⟩
    · exact absurd hnone hrun
    · exact Or.inr (Or.inr ⟨⟨hnot, rfl⟩, hruns⟩)
    · exact absurd hidle.2 hrun

theorem Alive.le {n : ℕ} (h : c.Alive n) : c.timerRuns ≤ n := by
  rcases h with ⟨-, -, hlt⟩ | ⟨-, -, hle, -⟩ | ⟨-, rfl⟩ <;> omega

/-- A run of `timer_callback` starts. -/
theorem Alive.fire {n : ℕ} (h : c.Alive n) (harmed : c.myTimer.armed = true)
    (hpc : c.myTimer.pc = none) :
    Alive n { c with myTimer := ⟨false, some .number⟩, timerRuns := c.timerRuns + 1 } := by
  rcases h with ⟨-, -, hlt⟩ | ⟨hrun, -⟩ | ⟨hidle, -⟩
  · exact Or.inr (Or.inl ⟨by simp, by simp, hlt, by simp⟩)
  · exact absurd hpc hrun
  · simp [hidle.1] at harmed

theorem Alive.goto {n : ℕ} (h : c.Alive n) (p : TimerPc) (hpc : c.myTimer.pc ≠ none) :
    Alive n { c with myTimer := c.myTimer.goto p } := by
  rcases h with ⟨-, hnone, -⟩ | ⟨-, hpos, hle, hlt⟩ | ⟨hidle, -⟩
  · exact absurd hnone hpc
  · exact Or.inr (Or.inl ⟨by simp, hpos, hle, hlt⟩)
  · exact absurd hidle.2 hpc

/-- `my_timer` after line 95 of `timer_callback`. -/
def rearmed (c : Clock) : Deferred TimerPc :=
  if timesAfter c.timerRuns ≠ 0 then c.myTimer.finish.arm else c.myTimer.finish

/-- A run ends; the countdown is at zero after the last one, or `my_timer` is armed
already. -/
theorem Alive.rearm {n : ℕ} (h : c.Alive n) (hpc : c.myTimer.pc ≠ none)
    (hlast : timesAfter n = 0)
    (hzero : timesAfter c.timerRuns = 0 → c.timerRuns = n ∨ c.myTimer.armed = true)
    (times : Int32) : Alive n { c with timerTimes := times, myTimer := c.rearmed } := by
  rcases h with ⟨-, hnone, -⟩ | ⟨-, hpos, hle, hlt⟩ | ⟨hidle, -⟩
  · exact absurd hnone hpc
  · by_cases htimes : timesAfter c.timerRuns = 0
    · have hrearmed : c.rearmed = c.myTimer.finish := by simp [rearmed, htimes]
      rw [hrearmed]
      cases harmed : c.myTimer.armed with
      | true => exact Or.inl ⟨harmed, rfl, hlt harmed⟩
      | false =>
        rcases hzero htimes with heq | htrue
        · exact Or.inr (Or.inr ⟨⟨harmed, rfl⟩, heq⟩)
        · simp [harmed] at htrue
    · have hrearmed : c.rearmed = c.myTimer.finish.arm := by simp [rearmed, htimes]
      have hne : c.timerRuns ≠ n := by
        intro heq
        exact htimes (heq ▸ hlast)
      rw [hrearmed]
      exact Or.inl ⟨rfl, rfl, by simp only; omega⟩
  · exact absurd hidle.2 hpc

/-- `irq_simulation_callback` re-arms `my_timer` : too late if its 15th run has started. -/
theorem Alive.armIrq (h : c.Alive 15) {init : EventInit} (hinit : init = .done)
    {irqTimer : Deferred IrqPc} (hidle : irqTimer.Idle) (times : Int32) :
    Alive 15 { c with init, irqTimes := times, myTimer := c.myTimer.arm, irqTimer } ∨
      Late { c with init, irqTimes := times, myTimer := c.myTimer.arm, irqTimer } := by
  have hle := h.le
  by_cases hlt : c.timerRuns < 15
  · left
    rcases h with ⟨-, hnone, -⟩ | ⟨hrun, hpos, -, -⟩ | ⟨-, heq⟩
    · exact Or.inl ⟨rfl, hnone, hlt⟩
    · exact Or.inr (Or.inl ⟨hrun, hpos, hle, fun _ => hlt⟩)
    · omega
  · right
    have heq : c.timerRuns = 15 := by omega
    refine ⟨?_, by simp [heq], fun _ => rfl, hinit, hidle⟩
    by_cases hnone : c.myTimer.pc = none
    · exact Or.inl ⟨rfl, hnone, by simp [heq]⟩
    · exact Or.inr (Or.inl ⟨hnone, by simp [heq], by simp [heq], by simp [heq]⟩)

/-- Line 95 decrements the countdown. -/
theorem Inv.times_rearm (h : c.Inv) (hpos : 1 ≤ c.timerRuns) (hpc : c.myTimer.pc ≠ none) :
    c.timerTimes - 1 = timesAfter c.timerRuns := by
  have hcount : c.counted = c.timerRuns - 1 := by simp [counted, hpc]
  rw [h.times, hcount, ← timesAfter_succ, Nat.sub_add_cancel hpos]

/-- `my_timer` is armed or running only once `simple_wq_init` has armed it. -/
theorem Inv.initialised (h : c.Inv) (hbusy : ¬c.myTimer.Idle) : c.init = .irq ∨ c.init = .done := by
  by_contra hnot
  obtain ⟨hne, hne'⟩ := not_or.1 hnot
  exact hbusy (h.before hne hne').1

theorem Inv.timerRuns_pos (h : c.Inv) (hrun : c.myTimer.pc ≠ none) : 1 ≤ c.timerRuns := by
  rcases h.after (h.initialised fun hidle => hrun hidle.2) with halive | hlate
  · rcases halive with ⟨-, hnone, -⟩ | ⟨-, hpos, -⟩ | ⟨hidle, -⟩
    · exact absurd hnone hrun
    · exact hpos
    · exact absurd hidle.2 hrun
  · have := hlate.le
    omega

/-- A run that ends while the countdown counts down : after the 15th run nothing re-arms
`my_timer`, unless the other callback has. -/
theorem Inv.alive_rearm (h : c.Inv) (hrun : c.myTimer.pc ≠ none) (times : Int32) :
    Alive 15 { c with timerTimes := times, myTimer := c.rearmed } ∨
      Late { c with timerTimes := times, myTimer := c.rearmed } := by
  have hpos := h.timerRuns_pos hrun
  rcases h.after (h.initialised fun hidle => hrun hidle.2) with halive | hlate
  · refine Or.inl (halive.rearm hrun (by decide) (fun hzero => ?_) _)
    have hle := halive.le
    rw [timesAfter_eq_zero (by omega)] at hzero
    omega
  · have hle := hlate.alive.le
    refine Or.inr ⟨hlate.alive.rearm hrun ((timesAfter_eq_zero (by omega)).2 (Or.inr rfl))
      (fun hzero => ?_) _, hlate.le, fun heq => ?_, hlate.done⟩
    · rw [timesAfter_eq_zero (by omega)] at hzero
      rcases hzero with heq | heq
      · exact Or.inr (hlate.armed heq)
      · exact Or.inl heq
    · have harmed := hlate.armed heq
      by_cases hzero : timesAfter c.timerRuns = 0 <;> simp [rearmed, hzero, harmed]

theorem inv_step (h : c.Inv) (hmove : ClockMove c d) : d.Inv := by
  have hirq := irqOk_step h.irq hmove
  cases hmove with
  | stay => exact h
  | @alloc n init hpc hinit =>
    refine ⟨hirq, h.times, fun _ _ => h.before (by simp [hpc]) (by simp [hpc]), fun hdone => ?_⟩
    rcases hinit with rfl | ⟨m, rfl⟩ <;> rcases hdone with hdone | hdone <;> cases hdone
  | armTimer hpc =>
    obtain ⟨hidle, hruns⟩ := h.before (by simp [hpc]) (by simp [hpc])
    refine ⟨hirq, ?_, fun h => absurd rfl h, fun _ => Or.inl (Or.inl ⟨rfl, hidle.2, ?_⟩)⟩
    · simpa [counted, hidle.2] using h.times
    · simp [hruns]
  | armIrq hpc =>
    refine ⟨hirq, h.times, fun _ h => absurd rfl h, fun _ => ?_⟩
    rcases h.after (Or.inl hpc) with halive | hlate
    · exact Or.inl halive
    · have := hlate.done.1
      simp [hpc] at this
  | fireTimer harmed hpc =>
    have hinit := h.initialised fun hidle => by simp [hidle.1] at harmed
    refine ⟨hirq, ?_, fun h h' => (hinit.elim h h').elim, fun _ => ?_⟩
    · simpa [counted, hpc] using h.times
    · rcases h.after hinit with halive | hlate
      · exact Or.inl (halive.fire harmed hpc)
      · refine Or.inr ⟨hlate.alive.fire harmed hpc, ?_, fun heq => ?_, hlate.done⟩
        · exact Nat.le_succ_of_le hlate.le
        · have := hlate.le
          simp only at heq
          omega
  | fireIrq harmed hpc =>
    refine ⟨hirq, h.times, h.before, fun hinit => ?_⟩
    rcases h.after hinit with halive | hlate
    · exact Or.inl halive
    · simp [hlate.done.2.1] at harmed
  | timer p hpc =>
    refine ⟨hirq, ?_, fun hne hne' => absurd (h.before hne hne').1.2 hpc, fun hinit => ?_⟩
    · simpa [counted, hpc] using h.times
    · rcases h.after hinit with halive | hlate
      · exact Or.inl (halive.goto p hpc)
      · exact Or.inr ⟨hlate.alive.goto p hpc, hlate.le, hlate.armed, hlate.done⟩
  | irq p hpc =>
    refine ⟨hirq, h.times, h.before, fun hinit => ?_⟩
    rcases h.after hinit with halive | hlate
    · exact Or.inl halive
    · exact absurd hlate.done.2.2 hpc
  | rearmTimer hpc =>
    have hrun : c.myTimer.pc ≠ none := by simp [hpc]
    have hinit := h.initialised fun hidle => hrun hidle.2
    have htimes := h.times_rearm (h.timerRuns_pos hrun) hrun
    rw [htimes] at hirq ⊢
    refine ⟨hirq, ?_, fun h h' => (hinit.elim h h').elim, fun _ => h.alive_rearm hrun _⟩
    by_cases hzero : timesAfter c.timerRuns = 0 <;> simp [counted, hzero]
  | rearmIrq hpc =>
    have hrun : c.irqTimer.pc ≠ none := by simp [hpc]
    have hdone : c.init = .done := by
      by_contra hne
      exact hrun (h.irq.before hne).1.2
    obtain ⟨hnot, htimes⟩ : c.irqTimer.armed = false ∧ c.irqTimes = 6 := by
      rcases h.irq.after hdone with ⟨-, hnone, -⟩ | ⟨hnot, -, -, htimes⟩ | ⟨hidle, -⟩
      · exact absurd hnone hrun
      · exact ⟨hnot, htimes⟩
      · exact absurd hidle.2 hrun
    have hnonzero : c.irqTimes - 1 ≠ 0 := by
      rw [htimes]
      decide
    rw [if_pos hnonzero] at hirq ⊢
    have hidle : c.irqTimer.finish.Idle := ⟨hnot, rfl⟩
    refine ⟨hirq, h.times, fun _ h => absurd hdone h, fun _ => ?_⟩
    rcases h.after (Or.inr hdone) with halive | hlate
    · exact halive.armIrq hdone hidle _
    · exact absurd hlate.done.2.2 hrun

end Clock

namespace EventModule

variable {s : EventModule} {as : List ModuleAct}

theorem clock_inv (h : exec step start as = some s) : s.clock.Inv := by
  refine exec_invariant_of_step (I := fun s => s.clock.Inv) ?_ Clock.inv_start h
  intro s a t hinv hstep
  exact Clock.inv_step hinv (clockMove_of_step hstep)

/-- The run is maximal : `simple_wq_init` has returned, and neither timer is pending or
running. -/
def Over (s : EventModule) : Prop :=
  s.init = .done ∧ s.myTimer.Idle ∧ s.irqTimer.Idle

instance (s : EventModule) : Decidable s.Over :=
  inferInstanceAs (Decidable (_ ∧ _ ∧ _))

/-- Each callback has run as often as its counter says. -/
def AsCounted (s : EventModule) : Prop :=
  s.timerRuns = 15 ∧ s.irqRuns = 6

/-- `irq_simulation_callback` never runs twice. -/
theorem irqRuns_le (h : exec step start as = some s) : s.irqRuns ≤ 1 := by
  obtain ⟨hbefore, hafter⟩ := (clock_inv h).irq
  by_cases hdone : s.init = .done
  · rcases hafter hdone with ⟨-, -, hruns, -⟩ | ⟨-, -, hruns, -⟩ | ⟨-, hruns⟩
    · exact (Nat.le_of_eq hruns).trans (by decide)
    · exact Nat.le_of_eq hruns
    · exact Nat.le_of_eq hruns
  · exact (Nat.le_of_eq (hbefore hdone).2.1).trans (by decide)

/-- The exact counts of a maximal run. -/
theorem runs_of_over (h : exec step start as = some s) (hover : s.Over) :
    s.irqRuns = 1 ∧ (s.timerRuns = 15 ∨ s.timerRuns = 15 + 2 ^ 32) := by
  obtain ⟨hdone, htimer, hirq⟩ := hover
  have hinv := clock_inv h
  constructor
  · rcases hinv.irq.after hdone with ⟨harmed, -⟩ | ⟨-, hrun, -⟩ | ⟨-, hruns⟩
    · exact absurd harmed (by simp [clock, hirq.1])
    · exact absurd hirq.2 hrun
    · exact hruns
  · have hruns : ∀ {n}, s.clock.Alive n → s.timerRuns = n := by
      intro n halive
      rcases halive with ⟨harmed, -⟩ | ⟨hrun, -⟩ | ⟨-, heq⟩
      · exact absurd harmed (by simp [clock, htimer.1])
      · exact absurd htimer.2 hrun
      · exact heq
    rcases hinv.after (Or.inr hdone) with halive | hlate
    · exact Or.inl (hruns halive)
    · exact Or.inr (hruns hlate.alive)

/-- In every maximal run `irq_simulation_callback` runs once, and `timer_callback` 15 times
or, if `my_timer` is re-armed too late, until its countdown has wrapped around; in none do
they run 15 and 6 times. -/
theorem never_as_counted (h : exec step start as = some s) (hover : s.Over) :
    ¬s.AsCounted ∧ s.irqRuns = 1 ∧ (s.timerRuns = 15 ∨ s.timerRuns = 15 + 2 ^ 32) := by
  obtain ⟨hirq, htimer⟩ := runs_of_over h hover
  refine ⟨fun hcounted => ?_, hirq, htimer⟩
  have := hcounted.2
  omega

/-- `simple_wq_init` with one node allocated. -/
def loadRun : List ModuleAct :=
  .init true :: List.replicate 7 (.init false)

/-- A run of `timer_callback` on a list with an empty first node. -/
def fillRun : List ModuleAct :=
  .fireTimer :: List.replicate 10 (.timer 1)

/-- A run on a full list. -/
def overflowRun : List ModuleAct :=
  .fireTimer :: List.replicate 6 (.timer 1)

/-- A run of `irq_simulation_callback` that takes the first node. -/
def takeRun : List ModuleAct :=
  .fireIrq :: List.replicate 8 .irq

/-- The producer fills the only node, the consumer empties it, and the producer runs to
the end of its countdown. -/
def maximalRun : List ModuleAct :=
  loadRun ++ fillRun ++ takeRun ++ fillRun ++ (List.replicate 13 overflowRun).flatten

/-- A maximal run : the callbacks have run 15 times and once. -/
theorem never_as_counted_maximal :
    ∃ s, exec step start maximalRun = some s ∧ s.Over ∧ ¬s.AsCounted := by
  have hend : (exec step start maximalRun).map (fun s => decide s.Over) = some true := by
    decide +kernel
  obtain ⟨s, hs, hover⟩ := Option.map_eq_some_iff.1 hend
  have hover : s.Over := of_decide_eq_true hover
  exact ⟨s, hs, hover, (never_as_counted hs hover).1⟩

/-- The consumer runs after the 15 runs of the producer, which then runs a 16th time. -/
def lateRun : List ModuleAct :=
  loadRun ++ fillRun ++ (List.replicate 14 overflowRun).flatten ++ takeRun ++ fillRun

/-- A maximal run in which `irq_simulation_callback` has run once, and a run in which
`timer_callback` has run 16 times and is pending again. -/
theorem counts_missed :
    (∃ s, exec step start maximalRun = some s ∧ s.Over ∧ s.irqRuns = 1) ∧
      ∃ s, exec step start lateRun = some s ∧ s.timerRuns = 16 ∧ s.myTimer.armed = true := by
  constructor
  · have hend : (exec step start maximalRun).map (fun s => (decide s.Over, s.irqRuns)) =
        some (true, 1) := by decide +kernel
    obtain ⟨s, hs, heq⟩ := Option.map_eq_some_iff.1 hend
    simp only [Prod.mk.injEq] at heq
    exact ⟨s, hs, of_decide_eq_true heq.1, heq.2⟩
  · have hend : (exec step start lateRun).map (fun s => (s.timerRuns, s.myTimer.armed)) =
        some (16, true) := by decide +kernel
    obtain ⟨s, hs, heq⟩ := Option.map_eq_some_iff.1 hend
    simp only [Prod.mk.injEq] at heq
    exact ⟨s, hs, heq.1, heq.2⟩

end EventModule

end ProCamp
