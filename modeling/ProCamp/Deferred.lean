import Mathlib.Logic.Basic
import Mathlib.Tactic.SplitIfs
import ProCamp.Machine

/-!
# Functions that run later

A `Deferred` function is a timer, a tasklet or a work item. It is armed from when it is
scheduled until it starts, and its program point is `some p` while it runs. Scheduling it
while it is armed changes nothing; while it runs it can be armed again, and it does not
start again before it has returned.

A `DelayedWork` is armed in two stages : its timer, whose expiry puts the work on its
queue. It is pending in either stage.

`Deferred.Move` is what can happen to a function that nothing but itself schedules. Once
idle it stays idle, so taking it off its queue is enough where it does not run
(`Deferred.Disarms.idle`).
-/

/-- A function that runs later, with its program points `P`. -/
@[ext] structure Deferred (P : Type*) where
  armed : Bool
  pc : Option P
  deriving DecidableEq

namespace Deferred

variable {P : Type*} {d d' : Deferred P} {p : P}

/-- Neither armed nor running. -/
def Idle (d : Deferred P) : Prop :=
  d.armed = false ∧ d.pc = none

instance [DecidableEq P] (d : Deferred P) : Decidable d.Idle :=
  inferInstanceAs (Decidable (_ ∧ _))

/-- One that is neither. -/
def idle : Deferred P :=
  ⟨false, none⟩

/-- Schedule it. -/
def arm (d : Deferred P) : Deferred P :=
  { d with armed := true }

/-- It starts at `p`, once armed and not running. -/
def start (d : Deferred P) (p : P) : Option (Deferred P) :=
  if d.armed = true ∧ d.pc = none then some ⟨false, some p⟩ else none

/-- It moves to `p`. -/
def goto (d : Deferred P) (p : P) : Deferred P :=
  { d with pc := some p }

/-- It returns. -/
def finish (d : Deferred P) : Deferred P :=
  { d with pc := none }

/-- What a scheduler that waits for a running function does : it disarms. -/
def cancel (d : Deferred P) : Option (Deferred P) :=
  if d.pc = none then some idle else none

/-- Take it off its queue. A run of it goes on. -/
def disarm (d : Deferred P) : Deferred P :=
  { d with armed := false }

@[simp] theorem arm_armed (d : Deferred P) : d.arm.armed = true :=
  rfl

@[simp] theorem arm_pc (d : Deferred P) : d.arm.pc = d.pc :=
  rfl

@[simp] theorem goto_armed (d : Deferred P) (p : P) : (d.goto p).armed = d.armed :=
  rfl

@[simp] theorem goto_pc (d : Deferred P) (p : P) : (d.goto p).pc = some p :=
  rfl

@[simp] theorem finish_armed (d : Deferred P) : d.finish.armed = d.armed :=
  rfl

@[simp] theorem finish_pc (d : Deferred P) : d.finish.pc = none :=
  rfl

theorem idle_idle : (idle : Deferred P).Idle :=
  ⟨rfl, rfl⟩

theorem start_eq_some : d.start p = some d' ↔
    d.armed = true ∧ d.pc = none ∧ d' = ⟨false, some p⟩ := by
  unfold start
  split_ifs with h
  · simp [h.1, h.2, eq_comm]
  · simp only [false_iff]
    exact fun hd => h ⟨hd.1, hd.2.1⟩

/-- An idle function does not start. -/
theorem Idle.start_eq_none (h : d.Idle) (p : P) : d.start p = none := by
  rw [start, if_neg (by simp [h.1])]

theorem cancel_eq_some : d.cancel = some d' ↔ d.pc = none ∧ d' = idle := by
  unfold cancel
  split_ifs with h
  · simp [h, eq_comm]
  · simp [h]

/-! ## Functions that schedule themselves -/

/-- What can happen to a function that only a run of it schedules. -/
inductive Move (d : Deferred P) : Deferred P → Prop
  | stay : Move d d
  | start (p : P) (harmed : d.armed = true) : Move d ⟨false, some p⟩
  | goto (p : P) (hpc : d.pc ≠ none) : Move d (d.goto p)
  | finish (hpc : d.pc ≠ none) : Move d d.finish
  | rearm (hpc : d.pc ≠ none) (p : P) : Move d (d.arm.goto p)
  | disarm : Move d d.disarm

theorem Move.idle (h : d.Move d') (hidle : d.Idle) : d'.Idle := by
  cases h with
  | stay => exact hidle
  | start p harmed => simp [hidle.1] at harmed
  | goto p hpc | finish hpc | rearm hpc p => exact absurd hidle.2 hpc
  | disarm => exact ⟨rfl, hidle.2⟩

section Disarms

open Machine

variable {σ α : Type*} {step : σ → α → Option σ} {timer : σ → Deferred P}
  {deletes : σ → α → Prop} {gone : σ → Prop} {s t : σ} {a : α} {as : List α}

/-- A system that takes such a function off its queue : a step that `deletes` does so, it is
`gone` from then on, and there is one such step at most. -/
structure Disarms (step : σ → α → Option σ) (timer : σ → Deferred P) (deletes : σ → α → Prop)
    (gone : σ → Prop) : Prop where
  move : ∀ s a t, step s a = some t → (timer s).Move (timer t)
  disarm : ∀ s a t, step s a = some t → gone t →
    gone s ∨ (deletes s a ∧ timer t = (timer s).disarm)
  kept : ∀ s a t, step s a = some t → gone s → gone t
  once : ∀ s a, gone s → ¬deletes s a

/-- Where it is found not running, the function is idle once it is gone. -/
theorem Disarms.idle (h : Disarms step timer deletes gone) (hs : gone s → (timer s).Idle)
    (hidle : EveryStep step (fun s a _ => deletes s a → (timer s).pc = none) s as) :
    EveryStep step (fun _ _ t => gone t → (timer t).Idle) s as := by
  refine everyStep_of_invariant (I := fun s => gone s → (timer s).Idle) ?_ hs hidle
  intro s a t hs hpc hstep
  suffices ht : gone t → (timer t).Idle from ⟨ht, ht⟩
  intro ht
  rcases h.disarm s a t hstep ht with hgone | ⟨hdeletes, hdisarm⟩
  · exact (h.move s a t hstep).idle (hs hgone)
  · rw [hdisarm]
    exact ⟨rfl, hpc hdeletes⟩

/-- Only the step that takes it off its queue decides whether it is found running. -/
theorem Disarms.everyStep_cons (h : Disarms step timer deletes gone) (hstep : step s a = some t)
    (ht : gone t) (hpc : (timer s).pc = none) (as : List α) :
    EveryStep step (fun s a _ => deletes s a → (timer s).pc = none) s (a :: as) := by
  refine (everyStep_cons_of_step hstep).2 ⟨fun _ => hpc, ?_⟩
  refine everyStep_of_invariant (I := gone) (fun s a t hs _ hstep => ?_) ht (everyStep_true t as)
  exact ⟨h.kept s a t hstep hs, fun hdeletes => absurd hdeletes (h.once s a hs)⟩

end Disarms

end Deferred

/-- A work item with a timer. -/
@[ext] structure DelayedWork (P : Type*) where
  timer : Bool
  work : Deferred P
  deriving DecidableEq

namespace DelayedWork

variable {P : Type*} {w w' : DelayedWork P} {p : P}

/-- The timer runs, or the work is queued. -/
def Pending (w : DelayedWork P) : Prop :=
  w.timer = true ∨ w.work.armed = true

instance (w : DelayedWork P) : Decidable w.Pending :=
  inferInstanceAs (Decidable (_ ∨ _))

/-- Neither pending nor running. -/
def Idle (w : DelayedWork P) : Prop :=
  w.timer = false ∧ w.work.Idle

instance [DecidableEq P] (w : DelayedWork P) : Decidable w.Idle :=
  inferInstanceAs (Decidable (_ ∧ _))

/-- One that is neither. -/
def idle : DelayedWork P :=
  ⟨false, .idle⟩

/-- Queue the work. -/
def queue (w : DelayedWork P) : DelayedWork P :=
  if w.Pending then w else { w with work := w.work.arm }

/-- Queue it after a delay. -/
def queueDelayed (w : DelayedWork P) : DelayedWork P :=
  if w.Pending then w else { w with timer := true }

/-- The timer expires. -/
def expire (w : DelayedWork P) : Option (DelayedWork P) :=
  if w.timer = true then some ⟨false, w.work.arm⟩ else none

/-- A worker starts the work at `p`. -/
def start (w : DelayedWork P) (p : P) : Option (DelayedWork P) :=
  (w.work.start p).map fun work => { w with work }

/-- The work moves to `p`. -/
def goto (w : DelayedWork P) (p : P) : DelayedWork P :=
  { w with work := w.work.goto p }

/-- The work returns. -/
def finish (w : DelayedWork P) : DelayedWork P :=
  { w with work := w.work.finish }

/-- Take it off its timer and its queue. -/
def disarm (w : DelayedWork P) : DelayedWork P :=
  ⟨false, { w.work with armed := false }⟩

@[simp] theorem queue_pc (w : DelayedWork P) : w.queue.work.pc = w.work.pc := by
  unfold queue
  split_ifs <;> rfl

@[simp] theorem queueDelayed_pc (w : DelayedWork P) : w.queueDelayed.work.pc = w.work.pc := by
  unfold queueDelayed
  split_ifs <;> rfl

@[simp] theorem finish_timer (w : DelayedWork P) : w.finish.timer = w.timer :=
  rfl

@[simp] theorem finish_work (w : DelayedWork P) : w.finish.work = w.work.finish :=
  rfl

theorem pending_queue (w : DelayedWork P) : w.queue.Pending := by
  unfold queue
  split_ifs with h
  · exact h
  · exact Or.inr rfl

theorem pending_queueDelayed (w : DelayedWork P) : w.queueDelayed.Pending := by
  unfold queueDelayed
  split_ifs with h
  · exact h
  · exact Or.inl rfl

theorem expire_eq_some : w.expire = some w' ↔ w.timer = true ∧ w' = ⟨false, w.work.arm⟩ := by
  unfold expire
  split_ifs with h
  · simp [h, eq_comm]
  · simp [h]

theorem start_eq_some : w.start p = some w' ↔
    w.work.armed = true ∧ w.work.pc = none ∧ w' = ⟨w.timer, ⟨false, some p⟩⟩ := by
  simp only [start, Option.map_eq_some_iff, Deferred.start_eq_some]
  constructor
  · rintro ⟨_, ⟨harmed, hpc, rfl⟩, rfl⟩
    exact ⟨harmed, hpc, rfl⟩
  · rintro ⟨harmed, hpc, rfl⟩
    exact ⟨_, ⟨harmed, hpc, rfl⟩, rfl⟩

theorem Idle.not_pending (h : w.Idle) : ¬w.Pending := by
  simp [Pending, h.1, h.2.1]

theorem idle_of_not_pending (h : ¬w.Pending) (hpc : w.work.pc = none) : w.Idle := by
  obtain ⟨htimer, harmed⟩ := not_or.1 h
  exact ⟨by simpa using htimer, by simpa using harmed, hpc⟩

theorem idle_not_pending : ¬(idle : DelayedWork P).Pending := by
  simp [Pending, idle, Deferred.idle]

/-- A pending work is not queued a second time. -/
theorem queue_of_pending (h : w.Pending) : w.queue = w :=
  if_pos h

theorem queueDelayed_of_pending (h : w.Pending) : w.queueDelayed = w :=
  if_pos h

/-- Not on its timer and on its queue at once. -/
def Once (w : DelayedWork P) : Prop :=
  ¬(w.timer = true ∧ w.work.armed = true)

theorem Once.queue (h : w.Once) : w.queue.Once := by
  unfold DelayedWork.queue
  split_ifs with hpending
  · exact h
  · rintro ⟨htimer, -⟩
    exact hpending (Or.inl htimer)

theorem Once.queueDelayed (h : w.Once) : w.queueDelayed.Once := by
  unfold DelayedWork.queueDelayed
  split_ifs with hpending
  · exact h
  · rintro ⟨-, harmed⟩
    exact hpending (Or.inr harmed)

end DelayedWork
