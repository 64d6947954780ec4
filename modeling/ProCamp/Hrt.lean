import Mathlib.Data.Finset.Insert
import Mathlib.Data.Fintype.Defs
import Mathlib.Logic.Function.Basic
import ProCamp.Deferred
import ProCamp.Machine

/-!
# Unloading the tasklet module

`HW6/deffered/hrt.c` : `my_hrtimer_callback` schedules two tasklets when its countdown is
over, each tasklet schedules `my_work` and, 10 s later, `my_work2`, and `hrt_exit` shuts
the module down : it cancels the timer, flushes the system queue and kills the tasklets.

An action is one step of the callback, a tasklet, a worker or `hrt_exit`, a start of one
of them, or the expiry of a delayed work. `flush_scheduled_work` waits for the works that
are queued or running when it is called, and for no others.

`unload_quiet` : once `hrt_exit` has returned nothing of the module is pending or running,
in every run where `flush_scheduled_work` finds no tasklet scheduled or running and no
delayed work on its timer. `hrt_exit` does not see to either, and where it finds one some
run ends with a work pending (`unquiet_of_not_flushesAll`, `work_pending_after_unload`).
-/

namespace ProCamp

open Machine

/-- The two tasklets. -/
inductive Tasklet where
  | regular
  | hiPrior
  deriving DecidableEq

instance : Fintype Tasklet :=
  ⟨{.regular, .hiPrior}, by rintro ⟨⟩ <;> decide⟩

/-- The works. -/
inductive HrtWork where
  | myWork
  | myWork2
  | myWork3
  | myWork4
  deriving DecidableEq

instance : Fintype HrtWork :=
  ⟨{.myWork, .myWork2, .myWork3, .myWork4}, by rintro ⟨⟩ <;> decide⟩

/-- `my_hrtimer_callback`. -/
inductive HrtimerPc where
  /-- Lines 65 to 67. -/
  | countdown
  /-- Line 71. -/
  | regular
  /-- Line 72. -/
  | hiPrior
  deriving DecidableEq

/-- `tasklet_fn` and `tasklet_hi_fn`. -/
inductive TaskletPc where
  /-- Lines 30 and 41. -/
  | work
  /-- Lines 32 and 43. -/
  | delayed
  deriving DecidableEq

/-- `hrt_exit`. -/
inductive HrtExit where
  /-- Not unloading. -/
  | loaded
  /-- Line 102. -/
  | cancel
  /-- Line 107. -/
  | flush
  /-- Inside `flush_scheduled_work`. -/
  | flushing
  /-- Line 108. -/
  | killRegular
  /-- Line 109. -/
  | killHiPrior
  | returned
  deriving DecidableEq

/-- The instances of a work that a flush waits for. -/
structure Flushed where
  queued : Bool
  running : Bool
  deriving DecidableEq

/-- The module. -/
structure Hrt where
  exit : HrtExit
  restart : Int32
  hrTimer : Deferred HrtimerPc
  tasklets : Tasklet → Deferred TaskletPc
  works : HrtWork → DelayedWork Unit
  flushed : HrtWork → Flushed

/-- One step of the timer, a tasklet, a work or the module. -/
inductive HrtAct where
  /-- The hrtimer expires. -/
  | expires
  /-- The next step of `my_hrtimer_callback`. -/
  | callback
  /-- Tasklet `k` starts. -/
  | softirq (k : Tasklet)
  /-- The next step of tasklet `k`. -/
  | tasklet (k : Tasklet)
  /-- The timer of work `w` expires. -/
  | elapse (w : HrtWork)
  /-- A worker starts work `w`. -/
  | worker (w : HrtWork)
  /-- `my_work_handler` returns. -/
  | handled (w : HrtWork)
  /-- The next step of `hrt_exit`. -/
  | exit

namespace Hrt

/-- After `hrt_init`. -/
def init : Hrt where
  exit := .loaded
  restart := 5
  hrTimer := Deferred.idle.arm
  tasklets _ := .idle
  works _ := .idle
  flushed _ := ⟨false, false⟩

/-- Tasklet `k` replaced. -/
@[simps] def setTasklet (s : Hrt) (k : Tasklet) (d : Deferred TaskletPc) : Hrt :=
  { s with tasklets := Function.update s.tasklets k d }

/-- Work `w` replaced. -/
@[simps] def setWork (s : Hrt) (w : HrtWork) (d : DelayedWork Unit) : Hrt :=
  { s with works := Function.update s.works w d }

/-- `tasklet_schedule` and `tasklet_hi_schedule`. -/
def taskletSchedule (s : Hrt) (k : Tasklet) : Hrt :=
  s.setTasklet k (s.tasklets k).arm

/-- `schedule_work`. -/
def scheduleWork (s : Hrt) (w : HrtWork) : Hrt :=
  s.setWork w (s.works w).queue

/-- `schedule_delayed_work`. -/
def scheduleDelayedWork (s : Hrt) (w : HrtWork) : Hrt :=
  s.setWork w (s.works w).queueDelayed

@[simp] theorem scheduleWork_tasklets (s : Hrt) (w : HrtWork) :
    (s.scheduleWork w).tasklets = s.tasklets :=
  rfl

@[simp] theorem scheduleDelayedWork_tasklets (s : Hrt) (w : HrtWork) :
    (s.scheduleDelayedWork w).tasklets = s.tasklets :=
  rfl

/-- One step of `my_hrtimer_callback`. -/
def callbackStep (s : Hrt) : Option Hrt :=
  match s.hrTimer.pc with
  | some .countdown =>
    some { s with
      restart := s.restart - 1
      hrTimer := if s.restart ≠ 0 then s.hrTimer.finish.arm else s.hrTimer.goto .regular }
  | some .regular =>
    some { s.taskletSchedule .regular with hrTimer := s.hrTimer.goto .hiPrior }
  | some .hiPrior => some { s.taskletSchedule .hiPrior with hrTimer := s.hrTimer.finish }
  | none => none

/-- One step of `tasklet_fn`. -/
def taskletFn (s : Hrt) : Option Hrt :=
  match (s.tasklets .regular).pc with
  | some .work =>
    some ((s.scheduleWork .myWork).setTasklet .regular ((s.tasklets .regular).goto .delayed))
  | some .delayed =>
    some ((s.scheduleDelayedWork .myWork2).setTasklet .regular (s.tasklets .regular).finish)
  | none => none

/-- One step of `tasklet_hi_fn`. -/
def taskletHiFn (s : Hrt) : Option Hrt :=
  match (s.tasklets .hiPrior).pc with
  | some .work =>
    some ((s.scheduleWork .myWork).setTasklet .hiPrior ((s.tasklets .hiPrior).goto .delayed))
  | some .delayed =>
    some ((s.scheduleDelayedWork .myWork2).setTasklet .hiPrior (s.tasklets .hiPrior).finish)
  | none => none

/-- What `flush_scheduled_work` finds. -/
def pendingNow (s : Hrt) (w : HrtWork) : Flushed :=
  ⟨(s.works w).work.armed, (s.works w).work.pc.isSome⟩

/-- `tasklet_kill` waits for a tasklet that is scheduled or running. -/
def taskletKill (s : Hrt) (k : Tasklet) (next : HrtExit) : Option Hrt :=
  if (s.tasklets k).armed = false ∧ (s.tasklets k).pc = none then some { s with exit := next }
  else none

/-- One step of `hrt_exit`. -/
def exitStep (s : Hrt) : Option Hrt :=
  match s.exit with
  | .loaded => some { s with exit := .cancel }
  | .cancel => s.hrTimer.cancel.map fun hrTimer => { s with exit := .flush, hrTimer }
  | .flush => some { s with exit := .flushing, flushed := s.pendingNow }
  | .flushing =>
    if ∀ w, s.flushed w = ⟨false, false⟩ then
      some { s with exit := .killRegular }
    else none
  | .killRegular => s.taskletKill .regular .killHiPrior
  | .killHiPrior => s.taskletKill .hiPrior .returned
  | .returned => none

/-- One step. A work that starts or returns is the instance a flush may wait for. -/
def step (s : Hrt) : HrtAct → Option Hrt
  | .expires => (s.hrTimer.start .countdown).map fun hrTimer => { s with hrTimer }
  | .callback => s.callbackStep
  | .softirq k => ((s.tasklets k).start .work).map (s.setTasklet k)
  | .tasklet .regular => s.taskletFn
  | .tasklet .hiPrior => s.taskletHiFn
  | .elapse w => (s.works w).expire.map (s.setWork w)
  | .worker w =>
    ((s.works w).start ()).map fun d =>
      { s.setWork w d with
        flushed := Function.update s.flushed w ⟨false, (s.flushed w).queued⟩ }
  | .handled w =>
    if (s.works w).work.pc.isSome then
      some { s.setWork w (s.works w).finish with
        flushed := Function.update s.flushed w ⟨(s.flushed w).queued, false⟩ }
    else none
  | .exit => s.exitStep

/-- Nothing of the module is pending or running. -/
structure Quiet (s : Hrt) : Prop where
  hrTimer : s.hrTimer.Idle
  tasklets : ∀ k, (s.tasklets k).Idle
  works : ∀ w, (s.works w).Idle

/-- `flush_scheduled_work` finds no tasklet scheduled or running and no delayed work on its
timer. -/
def FlushesAll (s : Hrt) : HrtAct → Prop
  | .exit => s.exit = .flush → (∀ k, (s.tasklets k).Idle) ∧ ∀ w, (s.works w).timer = false
  | _ => True

instance (s : Hrt) (a : HrtAct) : Decidable (s.FlushesAll a) := by
  cases a <;> unfold FlushesAll <;> infer_instance

variable {s t : Hrt} {a : HrtAct} {w : HrtWork} {k : Tasklet}

/-! ## What a step can do -/

/-- The steps of the module. -/
inductive Move (s : Hrt) : HrtAct → Hrt → Prop
  | expires (harmed : s.hrTimer.armed = true) :
      Move s .expires { s with hrTimer := ⟨false, some .countdown⟩ }
  | countdown {d : Deferred HrtimerPc} (hpc : s.hrTimer.pc = some .countdown) :
      Move s .callback { s with restart := s.restart - 1, hrTimer := d }
  | schedule {d : Deferred HrtimerPc} (k : Tasklet) (hpc : s.hrTimer.pc ≠ none) :
      Move s .callback { s.taskletSchedule k with hrTimer := d }
  | softirq {k : Tasklet} (harmed : (s.tasklets k).armed = true) :
      Move s (.softirq k) (s.setTasklet k ⟨false, some .work⟩)
  | work {k : Tasklet} (hpc : (s.tasklets k).pc = some .work) :
      Move s (.tasklet k) ((s.scheduleWork .myWork).setTasklet k ((s.tasklets k).goto .delayed))
  | delayed {k : Tasklet} (hpc : (s.tasklets k).pc = some .delayed) :
      Move s (.tasklet k) ((s.scheduleDelayedWork .myWork2).setTasklet k (s.tasklets k).finish)
  | elapse {w : HrtWork} (htimer : (s.works w).timer = true) :
      Move s (.elapse w) (s.setWork w ⟨false, (s.works w).work.arm⟩)
  | worker {w : HrtWork} (harmed : (s.works w).work.armed = true) :
      Move s (.worker w) { s.setWork w ⟨(s.works w).timer, ⟨false, some ()⟩⟩ with
        flushed := Function.update s.flushed w ⟨false, (s.flushed w).queued⟩ }
  | handled (w : HrtWork) : Move s (.handled w) { s.setWork w (s.works w).finish with
      flushed := Function.update s.flushed w ⟨(s.flushed w).queued, false⟩ }
  | unload (hpc : s.exit = .loaded) : Move s .exit { s with exit := .cancel }
  | cancel (hpc : s.exit = .cancel) : Move s .exit { s with exit := .flush, hrTimer := .idle }
  | flush (hpc : s.exit = .flush) :
      Move s .exit { s with exit := .flushing, flushed := s.pendingNow }
  | flushed (hpc : s.exit = .flushing) (hdone : ∀ w, s.flushed w = ⟨false, false⟩) :
      Move s .exit { s with exit := .killRegular }
  | killRegular (hpc : s.exit = .killRegular) (hidle : (s.tasklets .regular).Idle) :
      Move s .exit { s with exit := .killHiPrior }
  | killHiPrior (hpc : s.exit = .killHiPrior) (hidle : (s.tasklets .hiPrior).Idle) :
      Move s .exit { s with exit := .returned }

theorem exitStep_move (h : s.exitStep = some t) : s.Move .exit t := by
  unfold exitStep at h
  split at h
  case h_1 hpc => cases h; exact .unload hpc
  case h_2 hpc =>
    obtain ⟨d, hd, rfl⟩ := Option.map_eq_some_iff.1 h
    rw [(Deferred.cancel_eq_some.1 hd).2]
    exact .cancel hpc
  case h_3 hpc => cases h; exact .flush hpc
  case h_4 hpc =>
    split_ifs at h with hdone
    cases h
    exact .flushed hpc hdone
  case h_5 hpc =>
    simp only [taskletKill] at h
    split_ifs at h with hidle
    cases h
    exact .killRegular hpc hidle
  case h_6 hpc =>
    simp only [taskletKill] at h
    split_ifs at h with hidle
    cases h
    exact .killHiPrior hpc hidle
  case h_7 => cases h

theorem step_move (h : s.step a = some t) : s.Move a t := by
  cases a with
  | expires =>
    obtain ⟨d, hd, rfl⟩ := Option.map_eq_some_iff.1 h
    obtain ⟨harmed, -, rfl⟩ := Deferred.start_eq_some.1 hd
    exact .expires harmed
  | callback =>
    simp only [step, callbackStep] at h
    split at h
    case h_1 hpc => cases h; exact .countdown hpc
    case h_2 hpc => cases h; exact .schedule .regular (by simp [hpc])
    case h_3 hpc => cases h; exact .schedule .hiPrior (by simp [hpc])
    case h_4 => cases h
  | softirq k =>
    obtain ⟨d, hd, rfl⟩ := Option.map_eq_some_iff.1 h
    obtain ⟨harmed, -, rfl⟩ := Deferred.start_eq_some.1 hd
    exact .softirq harmed
  | tasklet k =>
    cases k with
    | regular =>
      simp only [step, taskletFn] at h
      split at h
      case h_1 hpc => cases h; exact .work hpc
      case h_2 hpc => cases h; exact .delayed hpc
      case h_3 => cases h
    | hiPrior =>
      simp only [step, taskletHiFn] at h
      split at h
      case h_1 hpc => cases h; exact .work hpc
      case h_2 hpc => cases h; exact .delayed hpc
      case h_3 => cases h
  | elapse w =>
    obtain ⟨d, hd, rfl⟩ := Option.map_eq_some_iff.1 h
    obtain ⟨htimer, rfl⟩ := DelayedWork.expire_eq_some.1 hd
    exact .elapse htimer
  | worker w =>
    obtain ⟨d, hd, rfl⟩ := Option.map_eq_some_iff.1 h
    obtain ⟨harmed, -, rfl⟩ := DelayedWork.start_eq_some.1 hd
    exact .worker harmed
  | handled w =>
    simp only [step] at h
    split_ifs at h
    cases h
    exact .handled w
  | exit => exact exitStep_move h

/-- Only `hrt_exit` moves itself. -/
theorem exit_frame (h : s.step a = some t) (ha : a ≠ .exit) : t.exit = s.exit := by
  cases step_move h <;> first | rfl | exact absurd rfl ha

/-- A cancelled timer stays cancelled. -/
theorem hrTimer_idle (hidle : s.hrTimer.Idle) (h : s.step a = some t) : t.hrTimer.Idle := by
  cases step_move h with
  | expires harmed => simp [hidle.1] at harmed
  | countdown hpc => simp [hidle.2] at hpc
  | schedule k hpc => exact absurd hidle.2 hpc
  | cancel => exact Deferred.idle_idle
  | _ => exact hidle

/-- With the timer cancelled nothing schedules a tasklet. -/
theorem tasklet_idle (hhr : s.hrTimer.Idle) (hidle : (s.tasklets k).Idle)
    (h : s.step a = some t) : (t.tasklets k).Idle := by
  cases step_move h with
  | countdown hpc => simp [hhr.2] at hpc
  | schedule j hpc => exact absurd hhr.2 hpc
  | @softirq j harmed =>
    have hjk : k ≠ j := by
      rintro rfl
      simp [hidle.1] at harmed
    simpa [Function.update_of_ne hjk] using hidle
  | @work j hpc | @delayed j hpc =>
    have hjk : k ≠ j := by
      rintro rfl
      simp [hidle.2] at hpc
    simpa [Function.update_of_ne hjk] using hidle
  | _ => exact hidle

/-- Nothing is left that schedules a work. -/
structure Settled (s : Hrt) : Prop where
  hrTimer : s.hrTimer.Idle
  tasklets : ∀ k, (s.tasklets k).Idle
  timers : ∀ w, (s.works w).timer = false

/-- From then on, besides `hrt_exit`, only workers step. -/
theorem Settled.cases (hset : s.Settled) (h : s.step a = some t) (ha : a ≠ .exit) :
    (∃ w, (s.works w).work.armed = true ∧
      t = { s.setWork w ⟨false, ⟨false, some ()⟩⟩ with
        flushed := Function.update s.flushed w ⟨false, (s.flushed w).queued⟩ }) ∨
    ∃ w, t = { s.setWork w (s.works w).finish with
      flushed := Function.update s.flushed w ⟨(s.flushed w).queued, false⟩ } := by
  cases step_move h with
  | expires harmed => simp [hset.hrTimer.1] at harmed
  | countdown hpc => simp [hset.hrTimer.2] at hpc
  | schedule k hpc => exact absurd hset.hrTimer.2 hpc
  | @softirq k harmed => simp [(hset.tasklets k).1] at harmed
  | @work k hpc | @delayed k hpc => simp [(hset.tasklets k).2] at hpc
  | @elapse w htimer => simp [hset.timers w] at htimer
  | @worker w harmed =>
    rw [hset.timers w]
    exact Or.inl ⟨w, harmed, rfl⟩
  | handled w => exact Or.inr ⟨w, rfl⟩
  | _ => exact absurd rfl ha

theorem Settled.step (hset : s.Settled) (h : s.step a = some t) (ha : a ≠ .exit) :
    t.Settled := by
  rcases hset.cases h ha with ⟨w, -, rfl⟩ | ⟨w, rfl⟩
  · refine ⟨hset.hrTimer, hset.tasklets, fun v => ?_⟩
    rcases eq_or_ne v w with rfl | hvw
    · simp
    · simpa [Function.update_of_ne hvw] using hset.timers v
  · refine ⟨hset.hrTimer, hset.tasklets, fun v => ?_⟩
    rcases eq_or_ne v w with rfl | hvw
    · simpa using hset.timers v
    · simpa [Function.update_of_ne hvw] using hset.timers v

/-- Every instance of a work is one the flush waits for. -/
structure Draining (s : Hrt) : Prop extends Settled s where
  queued : ∀ w, (s.works w).work.armed = true → (s.flushed w).queued = true
  running : ∀ w, (s.works w).work.pc ≠ none → (s.flushed w).running = true

/-- A worker starts and ends only instances the flush waits for. -/
theorem Draining.step (hdrain : s.Draining) (h : s.step a = some t) (ha : a ≠ .exit) :
    t.Draining := by
  obtain ⟨hset, hqueued, hrunning⟩ := hdrain
  refine ⟨hset.step h ha, ?_, ?_⟩
  · intro v
    rcases hset.cases h ha with ⟨w, -, rfl⟩ | ⟨w, rfl⟩
    · rcases eq_or_ne v w with rfl | hvw
      · simp
      · simpa [Function.update_of_ne hvw] using hqueued v
    · rcases eq_or_ne v w with rfl | hvw
      · simpa using hqueued v
      · simpa [Function.update_of_ne hvw] using hqueued v
  · intro v
    rcases hset.cases h ha with ⟨w, harmed, rfl⟩ | ⟨w, rfl⟩
    · rcases eq_or_ne v w with rfl | hvw
      · simp [hqueued v harmed]
      · simpa [Function.update_of_ne hvw] using hrunning v
    · rcases eq_or_ne v w with rfl | hvw
      · simp
      · simpa [Function.update_of_ne hvw] using hrunning v

theorem Quiet.settled (h : s.Quiet) : s.Settled :=
  ⟨h.hrTimer, h.tasklets, fun w => (h.works w).1⟩

/-- A quiet module stays quiet. -/
theorem Quiet.step (hquiet : s.Quiet) (h : s.step a = some t) (ha : a ≠ .exit) : t.Quiet := by
  have hset := hquiet.settled.step h ha
  refine ⟨hset.hrTimer, hset.tasklets, fun v => ⟨hset.timers v, ?_⟩⟩
  rcases hquiet.settled.cases h ha with ⟨w, harmed, rfl⟩ | ⟨w, rfl⟩
  · simp [(hquiet.works w).2.1] at harmed
  · rcases eq_or_ne v w with rfl | hvw
    · exact ⟨by simpa using (hquiet.works v).2.1, by simp⟩
    · simpa [Function.update_of_ne hvw] using (hquiet.works v).2

/-- Once the flush has nothing to wait for, no work is left. -/
theorem Draining.quiet (hdrain : s.Draining) (hdone : ∀ w, s.flushed w = ⟨false, false⟩) :
    s.Quiet := by
  refine ⟨hdrain.hrTimer, hdrain.tasklets, fun w => ⟨hdrain.timers w, ?_, ?_⟩⟩
  · have := hdrain.queued w
    simpa [hdone w] using this
  · have := hdrain.running w
    simpa [hdone w] using this

/-! ## The way down -/

/-- What `hrt_exit` has reached at each of its lines. -/
def ExitOk (s : Hrt) : Prop :=
  match s.exit with
  | .loaded | .cancel => True
  | .flush => s.hrTimer.Idle
  | .flushing => s.Draining
  | .killRegular | .killHiPrior | .returned => s.Quiet

theorem exitOk_exit (hok : s.ExitOk) (hflush : s.FlushesAll .exit)
    (h : s.exitStep = some t) : t.ExitOk := by
  unfold ExitOk at hok
  cases exitStep_move h with
  | unload => trivial
  | cancel => exact Deferred.idle_idle
  | flush hpc =>
    simp only [hpc] at hok
    obtain ⟨htask, htimer⟩ := hflush hpc
    refine ⟨⟨hok, htask, htimer⟩, fun w harmed => harmed, fun w hrun => ?_⟩
    exact Option.isSome_iff_ne_none.2 hrun
  | flushed hpc hdone =>
    simp only [hpc] at hok
    obtain ⟨hhr, htask, hworks⟩ := hok.quiet hdone
    exact ⟨hhr, htask, hworks⟩
  | killRegular hpc | killHiPrior hpc =>
    simp only [hpc] at hok
    exact ⟨hok.hrTimer, hok.tasklets, hok.works⟩

theorem exitOk_step (hok : s.ExitOk) (hflush : s.FlushesAll a) (h : s.step a = some t) :
    t.ExitOk := by
  by_cases ha : a = .exit
  · subst ha
    exact exitOk_exit hok hflush h
  · have hframe := exit_frame h ha
    unfold ExitOk at hok ⊢
    rw [hframe]
    split
    case h_1 | h_2 => trivial
    case h_3 hpc =>
      simp only [hpc] at hok
      exact hrTimer_idle hok h
    case h_4 hpc =>
      simp only [hpc] at hok
      exact hok.step h ha
    all_goals
      rename_i hpc
      simp only [hpc] at hok
      exact hok.step h ha

/-- In every run where `flush_scheduled_work` finds no tasklet scheduled or running and no
delayed work on its timer : once `hrt_exit` has returned, the timer is inactive, neither
tasklet is scheduled or running, and no work is pending or running. -/
theorem unload_quiet {as : List HrtAct}
    (hflush : EveryStep step (fun s a _ => s.FlushesAll a) init as)
    (h : exec step init as = some s) (hret : s.exit = .returned) : s.Quiet := by
  have hinit : init.ExitOk := trivial
  have hok : s.ExitOk := by
    refine exec_invariant (I := ExitOk) ?_ hinit hflush h
    intro s a t hok hcond hstep
    exact exitOk_step hok hcond hstep
  simpa [ExitOk, hret] using hok

/-! ## What `hrt_exit` does see to -/

/-- The sources `hrt_exit` has shut at each of its lines. -/
def SourcesShut (s : Hrt) : Prop :=
  match s.exit with
  | .loaded | .cancel => True
  | .flush | .flushing | .killRegular => s.hrTimer.Idle
  | .killHiPrior => s.hrTimer.Idle ∧ (s.tasklets .regular).Idle
  | .returned => s.hrTimer.Idle ∧ ∀ k, (s.tasklets k).Idle

theorem sourcesShut_exit (hshut : s.SourcesShut) (h : s.exitStep = some t) :
    t.SourcesShut := by
  unfold SourcesShut at hshut
  cases exitStep_move h with
  | unload => trivial
  | cancel => exact Deferred.idle_idle
  | flush hpc | flushed hpc =>
    simp only [hpc] at hshut
    exact hshut
  | killRegular hpc hidle =>
    simp only [hpc] at hshut
    exact ⟨hshut, hidle⟩
  | killHiPrior hpc hidle =>
    simp only [hpc] at hshut
    refine ⟨hshut.1, fun k => ?_⟩
    cases k with
    | regular => exact hshut.2
    | hiPrior => exact hidle

theorem sourcesShut_step (hshut : s.SourcesShut) (h : s.step a = some t) : t.SourcesShut := by
  by_cases ha : a = .exit
  · subst ha
    exact sourcesShut_exit hshut h
  · have hframe := exit_frame h ha
    unfold SourcesShut at hshut ⊢
    rw [hframe]
    split <;> rename_i hpc <;> simp only [hpc] at hshut
    case h_1 | h_2 => trivial
    case h_3 | h_4 | h_5 => exact hrTimer_idle hshut h
    case h_6 => exact ⟨hrTimer_idle hshut.1 h, tasklet_idle hshut.1 hshut.2 h⟩
    case h_7 => exact ⟨hrTimer_idle hshut.1 h, fun k => tasklet_idle hshut.1 (hshut.2 k) h⟩

/-- In every run, once `hrt_exit` has returned the timer is inactive and no tasklet is
scheduled or running. -/
theorem unload_stops_sources {as : List HrtAct} (h : exec step init as = some s)
    (hret : s.exit = .returned) : s.hrTimer.Idle ∧ ∀ k, (s.tasklets k).Idle := by
  have hinit : init.SourcesShut := trivial
  have hshut : s.SourcesShut := by
    refine exec_invariant_of_step (I := SourcesShut) ?_ hinit h
    intro s a t hshut hstep
    exact sourcesShut_step hshut hstep
  simpa [SourcesShut, hret] using hshut

/-! ## What it does not -/

/-- Every instance the flush waits for is there. -/
def Awaited (s : Hrt) : Prop :=
  ∀ w, ((s.flushed w).queued = true → (s.works w).work.armed = true) ∧
    ((s.flushed w).running = true → (s.works w).work.pc ≠ none)

/-- What workers do for a flush. -/
structure Drained (s t : Hrt) : Prop where
  exit : t.exit = s.exit
  tasklets : t.tasklets = s.tasklets
  timers : ∀ w, (t.works w).timer = (s.works w).timer
  awaited : t.Awaited
  done : ∀ w, s.flushed w = ⟨false, false⟩ → t.flushed w = ⟨false, false⟩

theorem Drained.refl (h : s.Awaited) : s.Drained s :=
  ⟨rfl, rfl, fun _ => rfl, h, fun _ h => h⟩

theorem Drained.trans {u : Hrt} (h : s.Drained t) (h' : t.Drained u) : s.Drained u :=
  ⟨h'.exit.trans h.exit, h'.tasklets.trans h.tasklets,
    fun w => (h'.timers w).trans (h.timers w), h'.awaited, fun w hw => h'.done w (h.done w hw)⟩

theorem Awaited.handled (h : s.Awaited) (w : HrtWork) :
    s.Drained { s.setWork w (s.works w).finish with
      flushed := Function.update s.flushed w ⟨(s.flushed w).queued, false⟩ } := by
  refine ⟨rfl, rfl, fun v => ?_, fun v => ?_, fun v hv => ?_⟩
  all_goals rcases eq_or_ne v w with rfl | hvw
  · simp
  · simp [Function.update_of_ne hvw]
  · simpa using (h v).1
  · simpa [Function.update_of_ne hvw] using h v
  · simp [hv]
  · simpa [Function.update_of_ne hvw] using hv

theorem Awaited.worker (h : s.Awaited) (w : HrtWork) :
    s.Drained { s.setWork w ⟨(s.works w).timer, ⟨false, some ()⟩⟩ with
      flushed := Function.update s.flushed w ⟨false, (s.flushed w).queued⟩ } := by
  refine ⟨rfl, rfl, fun v => ?_, fun v => ?_, fun v hv => ?_⟩
  all_goals rcases eq_or_ne v w with rfl | hvw
  · simp
  · simp [Function.update_of_ne hvw]
  · simp
  · simpa [Function.update_of_ne hvw] using h v
  · simp [hv]
  · simpa [Function.update_of_ne hvw] using hv

/-- The instance of `w` that runs returns. -/
theorem exec_handled (h : s.Awaited) (w : HrtWork) :
    ∃ bs t, exec step s bs = some t ∧ s.Drained t ∧ (t.works w).work.pc = none ∧
      t.flushed w = ⟨(s.flushed w).queued, false⟩ := by
  cases hpc : (s.works w).work.pc with
  | none =>
    refine ⟨[], s, exec_nil s, .refl h, hpc, ?_⟩
    have hrunning : (s.flushed w).running = false := by
      simpa [hpc] using (h w).2
    rw [← hrunning]
  | some pc =>
    refine ⟨[.handled w], _, exec_cons_eq_some.2 ⟨_, ?_, exec_nil _⟩, h.handled w, ?_, ?_⟩
    · simp only [step, hpc, Option.isSome_some, if_true]
    · simp
    · simp

/-- Each instance of `w` that the flush waits for starts and returns. -/
theorem exec_drain (h : s.Awaited) (w : HrtWork) :
    ∃ bs t, exec step s bs = some t ∧ s.Drained t ∧ t.flushed w = ⟨false, false⟩ := by
  obtain ⟨bs, t, hrun, hdrained, hpc, hflushed⟩ := exec_handled h w
  cases hqueued : (s.flushed w).queued with
  | false => exact ⟨bs, t, hrun, hdrained, by rw [hflushed, hqueued]⟩
  | true =>
    have harmed : (t.works w).work.armed = true :=
      (hdrained.awaited w).1 (by rw [hflushed, hqueued])
    have hstart : t.step (.worker w) = some { t.setWork w ⟨(t.works w).timer, ⟨false, some ()⟩⟩ with
        flushed := Function.update t.flushed w ⟨false, (t.flushed w).queued⟩ } := by
      rw [step, DelayedWork.start_eq_some.2 ⟨harmed, hpc, rfl⟩]
      rfl
    have hstarted := hdrained.awaited.worker w
    obtain ⟨cs, u, hrun', hdrained', -, hflushed'⟩ := exec_handled hstarted.awaited w
    refine ⟨bs ++ .worker w :: cs, u, ?_, hdrained.trans (hstarted.trans hdrained'), ?_⟩
    · exact exec_append_eq_some.2 ⟨t, hrun, exec_cons_eq_some.2 ⟨_, hstart, hrun'⟩⟩
    · rw [hflushed']
      simp

theorem exec_drain_list (h : s.Awaited) (ws : List HrtWork) :
    ∃ bs t, exec step s bs = some t ∧ s.Drained t ∧ ∀ w ∈ ws, t.flushed w = ⟨false, false⟩ := by
  induction ws generalizing s with
  | nil => exact ⟨[], s, exec_nil s, .refl h, by simp⟩
  | cons w ws ih =>
    obtain ⟨bs, t, hrun, hdrained, hflushed⟩ := exec_drain h w
    obtain ⟨cs, u, hrun', hdrained', hall⟩ := ih hdrained.awaited
    refine ⟨bs ++ cs, u, exec_append_eq_some.2 ⟨t, hrun, hrun'⟩, hdrained.trans hdrained', ?_⟩
    intro v hv
    rcases List.mem_cons.1 hv with rfl | hv
    · exact hdrained'.done v hflushed
    · exact hall v hv

/-- What steps of tasklet `k` do. -/
structure Ran (k : Tasklet) (s t : Hrt) : Prop where
  exit : t.exit = s.exit
  others : ∀ j, j ≠ k → t.tasklets j = s.tasklets j
  pending : ∀ w, (s.works w).Pending → (t.works w).Pending

theorem Ran.trans {u : Hrt} (h : Ran k s t) (h' : Ran k t u) : Ran k s u :=
  ⟨h'.exit.trans h.exit, fun j hj => (h'.others j hj).trans (h.others j hj),
    fun w hw => h'.pending w (h.pending w hw)⟩

theorem step_tasklet_work (hpc : (s.tasklets k).pc = some .work) :
    s.step (.tasklet k) =
      some ((s.scheduleWork .myWork).setTasklet k ((s.tasklets k).goto .delayed)) := by
  cases k <;> simp only [step, taskletFn, taskletHiFn, hpc]

theorem step_tasklet_delayed (hpc : (s.tasklets k).pc = some .delayed) :
    s.step (.tasklet k) =
      some ((s.scheduleDelayedWork .myWork2).setTasklet k (s.tasklets k).finish) := by
  cases k <;> simp only [step, taskletFn, taskletHiFn, hpc]

theorem ran_work (s : Hrt) (k : Tasklet) (d : Deferred TaskletPc) :
    Ran k s ((s.scheduleWork .myWork).setTasklet k d) := by
  refine ⟨rfl, fun j hj => by simp [Function.update_of_ne hj], fun w hw => ?_⟩
  rcases eq_or_ne w .myWork with rfl | hne
  · simpa [scheduleWork] using DelayedWork.pending_queue _
  · simpa [scheduleWork, Function.update_of_ne hne] using hw

theorem ran_delayed (s : Hrt) (k : Tasklet) (d : Deferred TaskletPc) :
    Ran k s ((s.scheduleDelayedWork .myWork2).setTasklet k d) := by
  refine ⟨rfl, fun j hj => by simp [Function.update_of_ne hj], fun w hw => ?_⟩
  rcases eq_or_ne w .myWork2 with rfl | hne
  · simpa [scheduleDelayedWork] using DelayedWork.pending_queueDelayed _
  · simpa [scheduleDelayedWork, Function.update_of_ne hne] using hw

theorem ran_softirq (s : Hrt) (k : Tasklet) (d : Deferred TaskletPc) :
    Ran k s (s.setTasklet k d) :=
  ⟨rfl, fun j hj => by simp [Function.update_of_ne hj], fun _ hw => hw⟩

/-- A tasklet that runs returns, and leaves a work pending. -/
theorem exec_returns {pc : TaskletPc} (hpc : (s.tasklets k).pc = some pc) :
    ∃ bs t, exec step s bs = some t ∧ Ran k s t ∧ (t.tasklets k).pc = none ∧
      (t.tasklets k).armed = (s.tasklets k).armed ∧ (t.works .myWork2).Pending := by
  have hdelayed : ∀ u : Hrt, (u.tasklets k).pc = some .delayed →
      ∃ t, exec step u [.tasklet k] = some t ∧ Ran k u t ∧ (t.tasklets k).pc = none ∧
        (t.tasklets k).armed = (u.tasklets k).armed ∧ (t.works .myWork2).Pending := by
    intro u hpc
    refine ⟨_, exec_cons_eq_some.2 ⟨_, step_tasklet_delayed hpc, exec_nil _⟩, ran_delayed u k _,
      by simp, by simp, ?_⟩
    simpa [scheduleDelayedWork] using DelayedWork.pending_queueDelayed (u.works .myWork2)
  cases pc with
  | delayed =>
    obtain ⟨t, hrun, hran, hpc', harmed, hpending⟩ := hdelayed s hpc
    exact ⟨_, t, hrun, hran, hpc', harmed, hpending⟩
  | work =>
    obtain ⟨t, hrun, hran, hpc', harmed, hpending⟩ := hdelayed
      ((s.scheduleWork .myWork).setTasklet k ((s.tasklets k).goto .delayed)) (by simp)
    refine ⟨.tasklet k :: [.tasklet k], t, ?_, (ran_work s k _).trans hran, hpc', ?_, hpending⟩
    · exact exec_cons_eq_some.2 ⟨_, step_tasklet_work hpc, hrun⟩
    · rw [harmed]
      simp

/-- A tasklet runs until `tasklet_kill` has nothing to wait for. -/
theorem exec_idle (s : Hrt) (k : Tasklet) :
    ∃ bs t, exec step s bs = some t ∧ Ran k s t ∧ (t.tasklets k).Idle ∧
      (¬(s.tasklets k).Idle → ∃ w, (t.works w).Pending) := by
  -- the run that is under way, if there is one
  obtain ⟨bs, t, hrun, hran, hpc, harmed, hleft⟩ : ∃ bs t, exec step s bs = some t ∧
      Ran k s t ∧ (t.tasklets k).pc = none ∧ (t.tasklets k).armed = (s.tasklets k).armed ∧
        ((s.tasklets k).pc ≠ none → ∃ w, (t.works w).Pending) := by
    cases hpc : (s.tasklets k).pc with
    | none =>
      exact ⟨[], s, exec_nil s, ⟨rfl, fun _ _ => rfl, fun _ h => h⟩, hpc, rfl,
        fun h => absurd rfl h⟩
    | some pc =>
      obtain ⟨bs, t, hrun, hran, hpc', harmed, hpending⟩ := exec_returns hpc
      exact ⟨bs, t, hrun, hran, hpc', harmed, fun _ => ⟨_, hpending⟩⟩
  -- and one more if it is scheduled
  cases hscheduled : (s.tasklets k).armed with
  | false =>
    refine ⟨bs, t, hrun, hran, ⟨harmed.trans hscheduled, hpc⟩, fun hnot => hleft ?_⟩
    exact fun hnone => hnot ⟨hscheduled, hnone⟩
  | true =>
    have hstart : t.step (.softirq k) = some (t.setTasklet k ⟨false, some .work⟩) := by
      rw [step, Deferred.start_eq_some.2 ⟨harmed.trans hscheduled, hpc, rfl⟩]
      rfl
    have hstarted : ((t.setTasklet k ⟨false, some .work⟩).tasklets k).pc = some .work := by simp
    obtain ⟨cs, u, hrun', hran', hpc', harmed', hpending⟩ := exec_returns hstarted
    refine ⟨bs ++ .softirq k :: cs, u, ?_, hran.trans ((ran_softirq t k _).trans hran'),
      ⟨by simpa using harmed', hpc'⟩, fun _ => ⟨_, hpending⟩⟩
    exact exec_append_eq_some.2 ⟨t, hrun, exec_cons_eq_some.2 ⟨_, hstart, hrun'⟩⟩

theorem exec_taskletKill (next : HrtExit) (hidle : (s.tasklets k).Idle)
    (hstep : s.exitStep = s.taskletKill k next) :
    exec step s [.exit] = some { s with exit := next } := by
  refine exec_cons_eq_some.2 ⟨_, ?_, exec_nil _⟩
  rw [step, hstep]
  exact if_pos hidle

/-- `hrt_exit` kills the tasklets; what is pending, or a tasklet makes pending, stays so. -/
theorem exec_kill (hexit : s.exit = .killRegular) :
    ∃ bs t, exec step s bs = some t ∧ t.exit = .returned ∧
      ((∃ w, (s.works w).Pending) ∨ (∃ k, ¬(s.tasklets k).Idle) →
        ∃ w, (t.works w).Pending) := by
  obtain ⟨bs, t, hrun, hran, hidle, hleft⟩ := exec_idle s .regular
  have hkill := exec_taskletKill .killHiPrior hidle (by rw [exitStep, hran.exit, hexit])
  set t' : Hrt := { t with exit := .killHiPrior } with ht'
  obtain ⟨cs, u, hrun', hran', hidle', hleft'⟩ := exec_idle t' .hiPrior
  have hkill' := exec_taskletKill .returned hidle' (by rw [exitStep, hran'.exit])
  refine ⟨bs ++ ([.exit] ++ (cs ++ [.exit])), { u with exit := .returned }, ?_, rfl, ?_⟩
  · refine exec_append_eq_some.2 ⟨t, hrun, exec_append_eq_some.2 ⟨t', hkill, ?_⟩⟩
    exact exec_append_eq_some.2 ⟨u, hrun', hkill'⟩
  · rintro (⟨w, hw⟩ | ⟨k, hk⟩)
    · exact ⟨w, hran'.pending w (hran.pending w hw)⟩
    · cases k with
      | regular =>
        obtain ⟨w, hw⟩ := hleft hk
        exact ⟨w, hran'.pending w hw⟩
      | hiPrior =>
        refine hleft' ?_
        rwa [ht', hran.others .hiPrior (by simp)]

/-- From every step that does not meet the condition of `unload_quiet`, some run ends with
a work pending when `hrt_exit` has returned. -/
theorem unquiet_of_not_flushesAll (hnot : ¬s.FlushesAll a) :
    ∃ bs t, exec step s (a :: bs) = some t ∧ t.exit = .returned ∧ ¬t.Quiet := by
  cases a with
  | expires | callback | softirq | tasklet | elapse | worker | handled => exact absurd trivial hnot
  | exit =>
    obtain ⟨hexit, hbusy⟩ := Classical.not_imp.1 hnot
    have hstep : s.step .exit = some { s with exit := .flushing, flushed := s.pendingNow } := by
      rw [step, exitStep, hexit]
    have hawaited : Awaited { s with exit := .flushing, flushed := s.pendingNow } :=
      fun w => ⟨id, fun h => Option.isSome_iff_ne_none.1 h⟩
    obtain ⟨bs, t, hrun, hdrained, hflushed⟩ :=
      exec_drain_list hawaited [.myWork, .myWork2, .myWork3, .myWork4]
    have hdone : t.step .exit = some { t with exit := .killRegular } := by
      have hall : ∀ w, t.flushed w = ⟨false, false⟩ := fun w => hflushed w (by cases w <;> simp)
      rw [step, exitStep, hdrained.exit]
      exact if_pos hall
    obtain ⟨cs, u, hrun', hret, hpending⟩ := exec_kill (s := { t with exit := .killRegular }) rfl
    have hleft : (∃ w, (t.works w).Pending) ∨ ∃ k, ¬(t.tasklets k).Idle := by
      by_contra hnone
      obtain ⟨hnone, hidle⟩ := not_or.1 hnone
      refine hbusy ⟨fun k => ?_, fun w => ?_⟩
      · have := not_exists_not.1 hidle k
        rwa [hdrained.tasklets] at this
      · have := fun h => hnone ⟨w, Or.inl h⟩
        rw [hdrained.timers] at this
        simpa using this
    refine ⟨bs ++ .exit :: cs, u, ?_, hret, fun hquiet => ?_⟩
    · refine exec_cons_eq_some.2 ⟨_, hstep, exec_append_eq_some.2 ⟨t, hrun, ?_⟩⟩
      exact exec_cons_eq_some.2 ⟨_, hdone, hrun'⟩
    · obtain ⟨w, hw⟩ := hpending hleft
      exact (hquiet.works w).not_pending hw

/-! ## Runs -/

/-- The timer expires until its countdown is over and the callback schedules the tasklets. -/
def countdownRun : List HrtAct :=
  (List.replicate 5 [.expires, .callback]).flatten ++
    [.expires, .callback, .callback, .callback]

/-- Both tasklets run. -/
def taskletsRun : List HrtAct :=
  [.softirq .hiPrior, .tasklet .hiPrior, .tasklet .hiPrior,
    .softirq .regular, .tasklet .regular, .tasklet .regular]

/-- Both works run to their end. -/
def worksRun : List HrtAct :=
  [.worker .myWork, .handled .myWork, .elapse .myWork2, .worker .myWork2, .handled .myWork2]

/-- `hrt_exit` with nothing to wait for. -/
def exitRun : List HrtAct :=
  List.replicate 6 .exit

/-- Unloading after the delayed work has run. -/
theorem unload_quiet_after_works :
    ∃ s, exec step init (countdownRun ++ taskletsRun ++ worksRun ++ exitRun) = some s ∧
      s.exit = .returned ∧ s.Quiet := by
  have hend : (exec step init (countdownRun ++ taskletsRun ++ worksRun ++ exitRun)).map exit =
      some .returned := by decide +kernel
  obtain ⟨s, hs, hret⟩ := Option.map_eq_some_iff.1 hend
  exact ⟨s, hs, hret, unload_quiet (by decide +kernel) hs hret⟩

/-- Unloading right after the tasklets have run : the delayed work is still on its timer
when `hrt_exit` has returned. -/
theorem work_pending_after_unload :
    ∃ s, exec step init (countdownRun ++ taskletsRun ++
        [.worker .myWork, .handled .myWork] ++ exitRun) = some s ∧
      s.exit = .returned ∧ (s.works .myWork2).Pending := by
  have hend : (exec step init (countdownRun ++ taskletsRun ++
      [.worker .myWork, .handled .myWork] ++ exitRun)).map
        (fun s => (s.exit, (s.works .myWork2).timer)) = some (.returned, true) := by
    decide +kernel
  obtain ⟨s, hs, heq⟩ := Option.map_eq_some_iff.1 hend
  simp only [Prod.mk.injEq] at heq
  exact ⟨s, hs, heq.1, Or.inl heq.2⟩

end Hrt

end ProCamp
