import Mathlib.Logic.Basic

/-!
# Sleeping on a wait queue

The steps of one task in `wait_event_interruptible(wq, condition)`. The condition is
tested once before the task queues itself; then, in a loop, the task queues itself
and is marked interruptible, tests again, and sleeps if the condition is false. A
`wake_up` takes every task off the queue and marks it runnable, so a task that has
tested but not slept yet does not sleep.

A task is `Committed` if nothing but a `wake_up` or a signal will make it test again.
`Committed.of_step` : it becomes so only by a test that finds the condition false.
-/

/-- Where a task is in `wait_event_interruptible`. `queued` says that no `wake_up` has
come since it queued itself. -/
inductive WaitEvent where
  /-- The test before queueing. -/
  | check
  /-- About to queue itself. -/
  | prepare
  /-- Queued, about to test. -/
  | recheck (queued : Bool)
  /-- Found the condition false, about to sleep. -/
  | sleep (queued : Bool)
  | asleep
  deriving DecidableEq

namespace WaitEvent

/-- How a wait goes on. -/
inductive Result where
  | wait (w : WaitEvent)
  /-- The condition was found true. -/
  | done
  /-- A signal arrived : `-ERESTARTSYS`. -/
  | signalled
  deriving DecidableEq

/-- One step of a waiting task. Only a signal moves a task that is asleep. -/
def step (cond signal : Bool) : WaitEvent → Option Result
  | check => some (if cond then .done else .wait prepare)
  | prepare => some (.wait (recheck true))
  | recheck queued =>
    some (if cond then .done else if signal then .signalled else .wait (sleep queued))
  | sleep queued => some (.wait (if queued then asleep else prepare))
  | asleep => if signal then some (.wait prepare) else none

/-- What a `wake_up` does to a task. -/
def wake : WaitEvent → WaitEvent
  | recheck _ => recheck false
  | sleep _ => sleep false
  | asleep => prepare
  | w => w

/-- Nothing but a `wake_up` or a signal will make the task test the condition again. -/
def Committed : WaitEvent → Prop
  | sleep queued => queued
  | asleep => True
  | _ => False

theorem not_committed_wake (w : WaitEvent) : ¬w.wake.Committed := by
  cases w <;> simp [wake, Committed]

/-- A step commits a task only where it finds the condition false. -/
theorem Committed.of_step {cond signal : Bool} {w w' : WaitEvent}
    (h : w.step cond signal = some (.wait w')) (hw' : w'.Committed) :
    w.Committed ∨ cond = false := by
  cases w with
  | check =>
    cases cond
    · exact Or.inr rfl
    · simp [step] at h
  | prepare =>
    obtain rfl : recheck true = w' := by simpa [step] using h
    exact hw'.elim
  | recheck queued =>
    cases cond
    · exact Or.inr rfl
    · simp [step] at h
  | sleep queued =>
    cases queued with
    | true => exact Or.inl rfl
    | false =>
      obtain rfl : prepare = w' := by simpa [step] using h
      exact hw'.elim
  | asleep => exact Or.inl trivial

end WaitEvent
