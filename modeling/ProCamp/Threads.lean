import Mathlib.Data.Fintype.Pi
import Mathlib.Data.List.FinRange
import ProCamp.Machine

/-!
# Five threads and the module that stops them

`HW10/threads.c` : `init_func` starts five threads with `kthread_run` and keeps what it
returns in `task`, `exit_func` stops them. `kthread_run` reports a failure with an error
pointer, and `init_func` tests for a null pointer, so its branches that clean up after a
failure are never taken and `exit_func` stops the slots that hold no task too.

An action is a step of the module or of a thread. `kthread_stop` sets the flag of the
thread and returns when the thread has; on a pointer that is no task it does not return.

`thread_ownership_iff` : for a pattern of outcomes of the five `kthread_run`, every run
stops each started thread once, and nothing else, exactly if all five succeed.
-/

namespace ProCamp

open Machine

/-- What a slot of `task` can hold. -/
inductive Slot where
  | null
  /-- An error pointer. -/
  | err
  | task (i : Fin 5)
  deriving DecidableEq

/-- A thread in its function, with the line of `kthread_func_1` it is about to run. -/
inductive ThreadPc where
  /-- There is no thread. -/
  | none
  /-- Started, before its function is called. -/
  | created
  /-- Line 18. -/
  | check
  /-- Line 21. -/
  | lock
  /-- Lines 22 and 23. -/
  | count
  /-- Line 25. -/
  | unlock
  /-- Line 26. -/
  | sleep
  /-- Line 78, of `kthread_func_4` only. -/
  | lastSleep
  | exited
  deriving DecidableEq

/-- Who calls `kthread_stop`. -/
inductive Stopper where
  /-- The branch of `init_func` for a slot `i` found null. -/
  | init (i : Fin 5)
  | exit
  deriving DecidableEq

/-- `init_func` and `exit_func`. -/
inductive ModulePc where
  /-- `task[i] = kthread_run(...)`. -/
  | run (i : Fin 5)
  /-- `if (task[i])`. -/
  | test (i : Fin 5)
  /-- `init_func` has returned. -/
  | loaded
  /-- `kthread_stop(task[j])`. -/
  | stop (by' : Stopper) (j : Fin 5)
  /-- Inside it, waiting for the thread. -/
  | join (by' : Stopper) (j : Fin 5)
  /-- `exit_func` has returned. -/
  | returned
  /-- `kthread_stop` was given a pointer that is no task. -/
  | oops
  deriving DecidableEq

/-- The module and its threads. -/
structure Threads where
  pc : ModulePc
  task : Fin 5 → Slot
  threads : Fin 5 → ThreadPc
  shouldStop : Fin 5 → Bool
  myMutex : Option (Fin 5)
  globalVar : BitVec 32
  /-- What `kthread_stop` was called with, in order. -/
  stops : List Slot

/-- One step of the module or of a thread. -/
inductive ThreadAct where
  /-- The next step of `init_func` or `exit_func`. -/
  | module
  /-- The module is unloaded. -/
  | unload
  | thread (i : Fin 5)

namespace Threads

/-- Before `init_func`. -/
def init : Threads :=
  ⟨.run 0, fun _ => .null, fun _ => .none, fun _ => false, none, 0, []⟩

/-- Thread `i` at `pc`. -/
def goto (s : Threads) (i : Fin 5) (pc : ThreadPc) : Threads :=
  { s with threads := Function.update s.threads i pc }

/-- `kthread_func_1` and its likes, run by thread `i`; `lastSleep` is the sleep after the
loop. -/
def kthreadFunc (lastSleep : Bool) (i : Fin 5) (s : Threads) : Option Threads :=
  match s.threads i with
  | .none | .exited => none
  | .created => some (s.goto i (if s.shouldStop i then .exited else .check))
  | .check =>
    some (s.goto i (if s.shouldStop i then if lastSleep then .lastSleep else .exited else .lock))
  | .lock => if s.myMutex = none then some { s.goto i .count with myMutex := some i } else none
  | .count => some { s.goto i .unlock with globalVar := s.globalVar + 1 }
  | .unlock => some { s.goto i .sleep with myMutex := none }
  | .sleep => some (s.goto i .check)
  | .lastSleep => some (s.goto i .exited)

/-- One step of `kthread_func_1`. -/
def kthreadFunc1 : Threads → Option Threads :=
  kthreadFunc false 0

/-- One step of `kthread_func_2`. -/
def kthreadFunc2 : Threads → Option Threads :=
  kthreadFunc false 1

/-- One step of `kthread_func_3`. -/
def kthreadFunc3 : Threads → Option Threads :=
  kthreadFunc false 2

/-- One step of `kthread_func_4`. -/
def kthreadFunc4 : Threads → Option Threads :=
  kthreadFunc true 3

/-- One step of `kthread_func_5`. -/
def kthreadFunc5 : Threads → Option Threads :=
  kthreadFunc false 4

/-- One step of thread `i`. -/
def threadStep (s : Threads) : Fin 5 → Option Threads
  | 0 => kthreadFunc1 s
  | 1 => kthreadFunc2 s
  | 2 => kthreadFunc3 s
  | 3 => kthreadFunc4 s
  | 4 => kthreadFunc5 s

/-- After the statements for slot `i` of `init_func`. -/
def nextRun (i : Fin 5) : ModulePc :=
  if i = 4 then .loaded else .run (i + 1)

/-- After `kthread_stop(task[j])`. -/
def nextStop : Stopper → Fin 5 → ModulePc
  | .init i, j => if j + 1 = i then nextRun i else .stop (.init i) (j + 1)
  | .exit, j => if j = 4 then .returned else .stop .exit (j + 1)

/-- The next step of `init_func` or `exit_func`; `started i` is the outcome of the
`kthread_run` for slot `i`. -/
def moduleStep (started : Fin 5 → Bool) (s : Threads) : Option Threads :=
  match s.pc with
  | .run i =>
    some (if started i then
        { s.goto i .created with pc := .test i, task := Function.update s.task i (.task i) }
      else { s with pc := .test i, task := Function.update s.task i .err })
  | .test i =>
    some { s with
      pc := if s.task i ≠ .null then nextRun i else if i = 0 then nextRun i
        else .stop (.init i) 0 }
  | .stop by' j =>
    match s.task j with
    | .task i =>
      some { s with
        pc := .join by' j
        shouldStop := Function.update s.shouldStop i true
        stops := s.stops ++ [.task i] }
    | slot => some { s with pc := .oops, stops := s.stops ++ [slot] }
  | .join by' j =>
    match s.task j with
    | .task i => if s.threads i = .exited then some { s with pc := nextStop by' j } else none
    | _ => none
  | .loaded | .returned | .oops => none

/-- One step. -/
def step (started : Fin 5 → Bool) (s : Threads) : ThreadAct → Option Threads
  | .module => s.moduleStep started
  | .unload => if s.pc = .loaded then some { s with pc := .stop .exit 0 } else none
  | .thread i => s.threadStep i

/-- Only started threads are stopped, each at most once; when `exit_func` has returned
each has been stopped, and none is running. -/
structure Owned (s : Threads) : Prop where
  tasks : ∀ slot ∈ s.stops, ∃ i, slot = .task i ∧ s.threads i ≠ .none
  once : s.stops.Nodup
  stopped : s.pc = .returned → ∀ i, s.threads i ≠ .none → .task i ∈ s.stops
  ended : s.pc = .returned → ∀ i, s.threads i = .none ∨ s.threads i = .exited

variable {started : Fin 5 → Bool} {s t : Threads} {a : ThreadAct} {i : Fin 5}

/-! ## When every thread starts -/

/-- The slots of `task` filled, the calls of `kthread_stop` made and those that have
returned, where no slot is found null and no call goes wrong. -/
def progress : ModulePc → Option (ℕ × ℕ × ℕ)
  | .run i => some (i, 0, 0)
  | .test i => some (i + 1, 0, 0)
  | .loaded => some (5, 0, 0)
  | .stop .exit j => some (5, j, j)
  | .join .exit j => some (5, j + 1, j)
  | .returned => some (5, 5, 5)
  | .stop (.init _) _ | .join (.init _) _ | .oops => none

/-- The first `filled` slots hold their task, the first `called` have been stopped in
order, and the first `joined` have ended. -/
structure Progress (s : Threads) (filled called joined : ℕ) : Prop where
  task : ∀ i : Fin 5, i.val < filled → s.task i = .task i ∧ s.threads i ≠ .none
  fresh : ∀ i : Fin 5, filled ≤ i.val → s.threads i = .none
  stops : s.stops = ((List.finRange 5).take called).map .task
  joined : ∀ i : Fin 5, i.val < joined → s.threads i = .exited

/-- The module is as far as its line says. -/
def Inv (s : Threads) : Prop :=
  ∃ filled called joined, progress s.pc = some (filled, called, joined) ∧
    s.Progress filled called joined

theorem val_add_one : ∀ i : Fin 5, i ≠ 4 → (i + 1).val = i.val + 1 := by
  decide

theorem take_finRange : ∀ i : Fin 5,
    (List.finRange 5).take (i + 1) = (List.finRange 5).take i ++ [i] := by
  decide

theorem inv_init : Inv init := by
  refine ⟨0, 0, 0, rfl, ?_, ?_, rfl, ?_⟩
  · intro i hi
    omega
  · intro i _
    rfl
  · intro i hi
    omega

/-- A step of a thread moves that thread only, and not from its end. -/
theorem threadStep_eq (h : s.threadStep i = some t) :
    t.pc = s.pc ∧ t.task = s.task ∧ t.stops = s.stops ∧
      ∃ pc, t.threads = Function.update s.threads i pc ∧ pc ≠ .none ∧
        s.threads i ≠ .none ∧ s.threads i ≠ .exited := by
  have hfunc : ∃ lastSleep, kthreadFunc lastSleep i s = some t := by
    match i, h with
    | 0, h | 1, h | 2, h | 4, h => exact ⟨false, h⟩
    | 3, h => exact ⟨true, h⟩
  obtain ⟨lastSleep, hfunc⟩ := hfunc
  unfold kthreadFunc at hfunc
  split at hfunc
  case h_1 => cases hfunc
  case h_2 => cases hfunc
  case h_5 hpc =>
    split_ifs at hfunc
    cases hfunc
    exact ⟨rfl, rfl, rfl, _, rfl, by decide, by simp [hpc], by simp [hpc]⟩
  case h_3 hpc =>
    cases hfunc
    refine ⟨rfl, rfl, rfl, _, rfl, ?_, by simp [hpc], by simp [hpc]⟩
    split_ifs <;> decide
  case h_4 hpc =>
    cases hfunc
    refine ⟨rfl, rfl, rfl, _, rfl, ?_, by simp [hpc], by simp [hpc]⟩
    split_ifs <;> decide
  all_goals
    rename_i hpc
    cases hfunc
    exact ⟨rfl, rfl, rfl, _, rfl, by decide, by simp [hpc], by simp [hpc]⟩

theorem Inv.thread (hinv : s.Inv) (h : s.threadStep i = some t) : t.Inv := by
  obtain ⟨filled, called, joined, hprog, htask, hfresh, hstops, hjoined⟩ := hinv
  obtain ⟨hpc, htasks, hst, pc, hthreads, hne, hrun, hlive⟩ := threadStep_eq h
  refine ⟨filled, called, joined, by rw [hpc, hprog], ?_, ?_, by rw [hst, hstops], ?_⟩
  · intro j hj
    rw [htasks, hthreads]
    refine ⟨(htask j hj).1, ?_⟩
    rcases eq_or_ne j i with rfl | hji
    · rwa [Function.update_self]
    · rw [Function.update_of_ne hji]
      exact (htask j hj).2
  · intro j hj
    have hji : j ≠ i := by
      rintro rfl
      exact hrun (hfresh j hj)
    rw [hthreads, Function.update_of_ne hji]
    exact hfresh j hj
  · intro j hj
    have hji : j ≠ i := by
      rintro rfl
      exact hlive (hjoined j hj)
    rw [hthreads, Function.update_of_ne hji]
    exact hjoined j hj

/-- The next slot, or the end of `init_func`. -/
theorem progress_nextRun (i : Fin 5) : progress (nextRun i) = some (i.val + 1, 0, 0) := by
  unfold nextRun
  split_ifs with hlast
  · subst hlast
    rfl
  · simp only [progress, val_add_one i hlast]

/-- The next call, or the end of `exit_func`. -/
theorem progress_nextStop (j : Fin 5) :
    progress (nextStop .exit j) = some (5, j.val + 1, j.val + 1) := by
  by_cases hlast : j = 4
  · subst hlast
    rfl
  · simp only [nextStop, if_neg hlast, progress, val_add_one j hlast]

theorem Inv.module (hall : ∀ i, started i = true) (hinv : s.Inv)
    (h : s.moduleStep started = some t) : t.Inv := by
  obtain ⟨filled, called, joined, hprog, htask, hfresh, hstops, hjoined⟩ := hinv
  unfold moduleStep at h
  split at h
  case h_1 i hpc =>
    obtain ⟨rfl, rfl, rfl⟩ : i.val = filled ∧ 0 = called ∧ 0 = joined := by
      simpa [hpc, progress] using hprog
    rw [if_pos (hall i)] at h
    cases h
    refine ⟨i.val + 1, 0, 0, rfl, ?_, ?_, hstops, ?_⟩
    · intro j hj
      rcases eq_or_ne j i with rfl | hji
      · simp [goto]
      · have hlt : j.val < i.val := by omega
        simpa [goto, Function.update_of_ne hji] using htask j hlt
    · intro j hj
      have hji : j ≠ i := by
        rintro rfl
        omega
      simpa [goto, Function.update_of_ne hji] using hfresh j (by omega)
    · intro j hj
      omega
  case h_2 i hpc =>
    obtain ⟨rfl, rfl, rfl⟩ : i.val + 1 = filled ∧ 0 = called ∧ 0 = joined := by
      simpa [hpc, progress] using hprog
    have hnull : s.task i ≠ .null := by
      rw [(htask i (by omega)).1]
      exact Slot.noConfusion
    rw [if_pos hnull] at h
    cases h
    exact ⟨i.val + 1, 0, 0, progress_nextRun i, htask, hfresh, hstops, hjoined⟩
  case h_3 by' j hpc =>
    cases by' with
    | init i => simp [hpc, progress] at hprog
    | exit =>
      obtain ⟨rfl, rfl, rfl⟩ : 5 = filled ∧ j.val = called ∧ j.val = joined := by
        simpa [hpc, progress] using hprog
      simp only [(htask j j.isLt).1] at h
      cases h
      refine ⟨5, j.val + 1, j.val, rfl, htask, hfresh, ?_, hjoined⟩
      rw [hstops, take_finRange, List.map_append]
      rfl
  case h_4 by' j hpc =>
    cases by' with
    | init i => simp [hpc, progress] at hprog
    | exit =>
      obtain ⟨rfl, rfl, rfl⟩ : 5 = filled ∧ j.val + 1 = called ∧ j.val = joined := by
        simpa [hpc, progress] using hprog
      simp only [(htask j j.isLt).1] at h
      split_ifs at h with hexited
      cases h
      refine ⟨5, j.val + 1, j.val + 1, progress_nextStop j, htask, hfresh, hstops, ?_⟩
      intro k hk
      rcases eq_or_ne k j with rfl | hkj
      · exact hexited
      · exact hjoined k (by omega)
  all_goals cases h

theorem inv_step (hall : ∀ i, started i = true) (hinv : s.Inv) (h : s.step started a = some t) :
    t.Inv := by
  cases a with
  | module => exact hinv.module hall h
  | thread i => exact hinv.thread h
  | unload =>
    simp only [step] at h
    split_ifs at h with hpc
    cases h
    obtain ⟨filled, called, joined, hprog, hprogress⟩ := hinv
    obtain ⟨rfl, rfl, rfl⟩ : 5 = filled ∧ 0 = called ∧ 0 = joined := by
      simpa [hpc, progress] using hprog
    exact ⟨5, 0, 0, rfl, hprogress.task, hprogress.fresh, hprogress.stops, hprogress.joined⟩

theorem called_le {pc : ModulePc} {filled called joined : ℕ}
    (h : progress pc = some (filled, called, joined)) : called ≤ filled := by
  unfold progress at h
  split at h <;> simp only [Option.some.injEq, Prod.mk.injEq, reduceCtorEq] at h <;> omega

theorem lt_of_mem_take {n : ℕ} (h : i ∈ (List.finRange 5).take n) : i.val < n := by
  obtain ⟨k, hk, rfl⟩ := List.mem_take_iff_getElem.1 h
  simp only [List.getElem_finRange, Fin.val_cast]
  omega

theorem Inv.owned (hinv : s.Inv) : s.Owned := by
  obtain ⟨filled, called, joined, hprog, htask, hfresh, hstops, hjoined⟩ := hinv
  have hle := called_le hprog
  refine ⟨?_, ?_, ?_, ?_⟩
  · intro slot hslot
    rw [hstops] at hslot
    obtain ⟨i, hi, rfl⟩ := List.mem_map.1 hslot
    exact ⟨i, rfl, (htask i (by have := lt_of_mem_take hi; omega)).2⟩
  · rw [hstops]
    refine List.Nodup.map (fun i j hij => Slot.task.inj hij) ?_
    exact (List.nodup_finRange 5).sublist (List.take_sublist _ _)
  · intro hpc i _
    obtain ⟨rfl, rfl, rfl⟩ : 5 = filled ∧ 5 = called ∧ 5 = joined := by
      simpa [hpc, progress] using hprog
    rw [hstops, List.take_of_length_le (by simp)]
    exact List.mem_map_of_mem (List.mem_finRange i)
  · intro hpc i
    obtain ⟨rfl, rfl, rfl⟩ : 5 = filled ∧ 5 = called ∧ 5 = joined := by
      simpa [hpc, progress] using hprog
    exact Or.inr (hjoined i i.isLt)

/-! ## When one does not -/

/-- `exit_func` from slot `js` on, up to the first slot that holds no task : each thread
before it is stopped before it has entered its function. -/
def stopRun (started : Fin 5 → Bool) : List (Fin 5) → List ThreadAct
  | [] => []
  | j :: js => if started j then .module :: .thread j :: .module :: stopRun started js
    else [.module]

/-- The module is loaded and unloaded. -/
def loadAndUnload (started : Fin 5 → Bool) : List ThreadAct :=
  List.replicate 10 .module ++ .unload :: stopRun started (List.finRange 5)

theorem loadAndUnload_err : ∀ started : Fin 5 → Bool, (∃ i, started i = false) →
    (exec (step started) init (loadAndUnload started)).map (fun s => decide (.err ∈ s.stops)) =
      some true := by
  decide +kernel

/-- The error pointer of a thread that did not start reaches `kthread_stop`. -/
theorem not_owned_of_failure (h : ∃ i, started i = false) :
    ∃ s, exec (step started) init (loadAndUnload started) = some s ∧ ¬s.Owned := by
  obtain ⟨s, hs, herr⟩ := Option.map_eq_some_iff.1 (loadAndUnload_err started h)
  refine ⟨s, hs, fun howned => ?_⟩
  obtain ⟨i, hi, -⟩ := howned.tasks .err (of_decide_eq_true herr)
  cases hi

/-- For every pattern of outcomes of the five `kthread_run` : in every run each started
thread is stopped once and nothing else is, with no thread left running once `exit_func`
has returned, exactly if all five succeed. -/
theorem thread_ownership_iff (started : Fin 5 → Bool) :
    (∀ as s, exec (step started) init as = some s → s.Owned) ↔ ∀ i, started i = true := by
  constructor
  · intro h i
    by_contra hi
    obtain ⟨s, hs, hnot⟩ := not_owned_of_failure ⟨i, by simpa using hi⟩
    exact hnot (h _ s hs)
  · intro hall as s hs
    exact (exec_invariant_of_step (fun s a t hinv => inv_step hall hinv) inv_init hs).owned

/-- The third thread does not start. -/
theorem third_fails_not_owned :
    ∃ s, exec (step (· ≠ 2)) init (loadAndUnload (· ≠ 2)) = some s ∧ ¬s.Owned :=
  not_owned_of_failure ⟨2, by decide⟩

end Threads

end ProCamp
