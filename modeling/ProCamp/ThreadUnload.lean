import Mathlib.Data.Prod.Lex
import ProCamp.Progress
import ProCamp.ThreadCounter

/-!
# The threads can always be unloaded

`exit_func` of `HW10/threads.c` waits for each thread in turn, and a thread may wait for
`my_mutex`. `unload_can_finish` : where all five threads have started, each run can be
continued until `exit_func` has returned, with the threads in any of their lines. Whoever
holds the mutex can go on to line 25, and the thread that is waited for, told to stop, to
its end.
-/

namespace ProCamp

open Machine

namespace Threads

variable {started : Fin 5 → Bool} {s t : Threads} {a : ThreadAct} {i : Fin 5}

/-- `exit_func` waits for a thread that it has told to stop. -/
def Told (s : Threads) : Prop :=
  ∀ j, s.pc = .join .exit j → s.shouldStop j = true

theorem told_init : Told init :=
  nofun

theorem shouldStop_thread (h : s.threadStep i = some t) : t.shouldStop = s.shouldStop := by
  cases threadMove h <;> rfl

theorem told_step (hinv : s.Inv) (htold : s.Told) (h : s.step started a = some t) : t.Told := by
  cases a with
  | thread i =>
    intro j hj
    rw [shouldStop_thread h]
    exact htold j ((threadStep_eq h).1 ▸ hj)
  | unload =>
    simp only [step] at h
    split_ifs at h
    cases h
    intro j hj
    cases hj
  | module =>
    obtain ⟨filled, called, joined, hprog, htask, -⟩ := hinv
    simp only [step, moduleStep] at h
    split at h
    case h_1 =>
      split_ifs at h <;> cases h
      all_goals
        intro j hj
        cases hj
    case h_2 i hpc =>
      obtain ⟨rfl, -⟩ : i.val + 1 = filled ∧ 0 = called ∧ 0 = joined := by
        simpa [hpc, progress] using hprog
      have hnull : s.task i ≠ .null := by
        rw [(htask i (by omega)).1]
        exact Slot.noConfusion
      rw [if_pos hnull] at h
      cases h
      intro j hj
      simp only [nextRun] at hj
      split_ifs at hj
    case h_3 by' k hpc =>
      cases by' with
      | init i => simp [hpc, progress] at hprog
      | exit =>
        obtain ⟨rfl, -⟩ : 5 = filled ∧ k.val = called ∧ k.val = joined := by
          simpa [hpc, progress] using hprog
        simp only [(htask k k.isLt).1] at h
        cases h
        rintro j ⟨⟩
        exact Function.update_self ..
    case h_4 by' k hpc =>
      cases by' with
      | init i => simp [hpc, progress] at hprog
      | exit =>
        split at h
        · split_ifs at h
          cases h
          intro j hj
          rcases nextStop_exit k with hnext | hnext <;> simp [hnext] at hj
        · cases h
    all_goals cases h

/-- The steps of the module that are left. -/
def moduleLeft : ModulePc → ℕ
  | .run i => 21 - 2 * i
  | .test i => 20 - 2 * i
  | .loaded => 11
  | .stop _ j => 10 - 2 * j
  | .join _ j => 9 - 2 * j
  | .returned | .oops => 0

theorem moduleLeft_nextRun (i : Fin 5) : moduleLeft (nextRun i) < 20 - 2 * i := by
  unfold nextRun
  split_ifs with hlast
  · subst hlast
    decide
  · have := val_add_one i hlast
    simp only [moduleLeft]
    omega

theorem moduleLeft_nextStop (j : Fin 5) : moduleLeft (nextStop .exit j) < 9 - 2 * j := by
  by_cases hlast : j = 4
  · subst hlast
    decide
  · have := val_add_one j hlast
    simp only [nextStop, if_neg hlast, moduleLeft]
    omega

/-- The module goes on, but where it has returned or waits for a thread. -/
theorem Inv.module_progress (hall : ∀ i, started i = true) (hinv : s.Inv)
    (hpc : s.pc ≠ .returned) (hjoin : ∀ j, s.pc = .join .exit j → s.threads j = .exited) :
    ∃ a t, (∀ i, a ≠ .thread i) ∧ s.step started a = some t ∧
      moduleLeft t.pc < moduleLeft s.pc := by
  obtain ⟨filled, called, joined, hprog, htask, -⟩ := hinv
  cases hs : s.pc with
  | run i =>
    refine ⟨.module, _, by simp, by simp only [step, moduleStep, hs]; rfl, ?_⟩
    rw [if_pos (hall i)]
    simp only [moduleLeft]
    omega
  | test i =>
    obtain ⟨rfl, -⟩ : i.val + 1 = filled ∧ 0 = called ∧ 0 = joined := by
      simpa [hs, progress] using hprog
    have hnull : s.task i ≠ .null := by
      rw [(htask i (by omega)).1]
      exact Slot.noConfusion
    refine ⟨.module, _, by simp, by simp only [step, moduleStep, hs]; rfl, ?_⟩
    rw [if_pos hnull]
    exact moduleLeft_nextRun i
  | loaded => exact ⟨.unload, _, by simp, if_pos hs, by simp [moduleLeft]⟩
  | stop by' j =>
    cases by' with
    | init i => simp [hs, progress] at hprog
    | exit =>
      obtain ⟨rfl, -⟩ : 5 = filled ∧ j.val = called ∧ j.val = joined := by
        simpa [hs, progress] using hprog
      refine ⟨.module, _, by simp, by simp only [step, moduleStep, hs, (htask j j.isLt).1]; rfl, ?_⟩
      simp only [moduleLeft]
      omega
  | join by' j =>
    cases by' with
    | init i => simp [hs, progress] at hprog
    | exit =>
      obtain ⟨rfl, -⟩ : 5 = filled ∧ j.val + 1 = called ∧ j.val = joined := by
        simpa [hs, progress] using hprog
      refine ⟨.module, { s with pc := nextStop .exit j }, by simp, ?_, moduleLeft_nextStop j⟩
      simp only [step, moduleStep, hs, (htask j j.isLt).1]
      exact if_pos (hjoin j hs)
  | returned => exact absurd hs hpc
  | oops => simp [hs, progress] at hprog

end Threads

namespace ThreadCounter

variable {started : Fin 5 → Bool} {s t : ThreadCounter} {a : ThreadAct} {i : Fin 5}

/-- The module and the threads, without lines 22 and 23 taken apart, move as in `Threads`
or stay. -/
theorem step_threads (h : s.step started a = some t) :
    t.threads = s.threads ∨ s.threads.step started a = some t.threads := by
  cases a with
  | thread i =>
    simp only [step, threadStep] at h
    split at h
    case h_1 =>
      unfold countStep at h
      split at h
      case h_1 =>
        obtain ⟨v, -, rfl⟩ := Option.map_eq_some_iff.1 h
        exact Or.inl rfl
      case h_2 =>
        obtain ⟨v, -, rfl⟩ := Option.map_eq_some_iff.1 h
        exact Or.inl rfl
      case h_3 =>
        obtain ⟨threads, hmove, rfl⟩ := Option.map_eq_some_iff.1 h
        exact Or.inr hmove
    all_goals
      obtain ⟨threads, hmove, rfl⟩ := Option.map_eq_some_iff.1 h
      exact Or.inr hmove
  | module | unload =>
    obtain ⟨threads, hmove, rfl⟩ := Option.map_eq_some_iff.1 h
    exact Or.inr hmove

/-- The steps a thread has left, once it is told to stop. -/
def leftOf : ThreadPc → CountPc → ℕ
  | .none, _ | .exited, _ => 0
  | .created, _ | .lastSleep, _ => 1
  | .check, _ => 2
  | .sleep, _ => 3
  | .unlock, _ => 4
  | .count, .print => 5
  | .count, .store => 6
  | .count, .load => 7
  | .lock, _ => 8

/-- The steps left of thread `i`. -/
def left (s : ThreadCounter) (i : Fin 5) : ℕ :=
  leftOf (s.threads.threads i) (s.line i)

/-- Thread `i` has gone from `s` to `t`, and has fewer steps left. -/
structure Nearer (s : ThreadCounter) (i : Fin 5) (t : ThreadCounter) : Prop where
  step : s.threadStep i = some t
  left : t.left i < s.left i
  frame : ∀ j, j ≠ i → t.left j = s.left j
  mutex : t.threads.myMutex = s.threads.myMutex ∨ s.threads.threads i = .lock ∨
    t.threads.myMutex = none

theorem nearer (pc : ThreadPc) (l : CountPc) (hstep : s.threadStep i = some t)
    (hthreads : t.threads.threads = Function.update s.threads.threads i pc)
    (hline : t.line = Function.update s.line i l) (hleft : leftOf pc l < s.left i)
    (hmutex : t.threads.myMutex = s.threads.myMutex ∨ s.threads.threads i = .lock ∨
      t.threads.myMutex = none) : s.Nearer i t := by
  refine ⟨hstep, ?_, fun j hj => ?_, hmutex⟩
  · rwa [ThreadCounter.left, hthreads, hline, Function.update_self, Function.update_self]
  · simp only [ThreadCounter.left, hthreads, hline, Function.update_of_ne hj]

/-- A thread outside line 22 and 23 goes on as in `Threads`. -/
theorem nearer_of_threads {threads : Threads} {pc : ThreadPc} (hinv : s.Inv)
    (hmove : s.threads.threadStep i = some threads)
    (hthreads : threads.threads = Function.update s.threads.threads i pc)
    (hcount : s.threads.threads i ≠ .count) (hleft : leftOf pc .load < s.left i)
    (hmutex : threads.myMutex = s.threads.myMutex ∨ s.threads.threads i = .lock ∨
      threads.myMutex = none) : ∃ t, s.Nearer i t := by
  have hline : s.line = Function.update s.line i .load := by
    rw [← hinv.line i hcount, Function.update_eq_self]
  obtain ⟨t, hstep, rfl, htline⟩ :
      ∃ t, s.threadStep i = some t ∧ t.threads = threads ∧ t.line = s.line := by
    unfold threadStep
    rw [hmove]
    split
    case h_1 hpc => exact absurd hpc hcount
    case h_2 => exact ⟨_, rfl, rfl, rfl⟩
    case h_3 => exact ⟨_, rfl, rfl, rfl⟩
  exact ⟨t, nearer pc .load hstep hthreads (htline.trans hline) hleft hmutex⟩

/-- A thread goes on, but where it waits for the mutex. -/
theorem Inv.thread_progress (hinv : s.Inv) (hnone : s.threads.threads i ≠ .none)
    (hexited : s.threads.threads i ≠ .exited)
    (hfree : s.threads.threads i = .lock → s.threads.myMutex = none)
    (htold : s.threads.shouldStop i = true ∨ ¬Threads.Outside (s.threads.threads i)) :
    ∃ t, s.Nearer i t := by
  have hstop : Threads.Outside (s.threads.threads i) → s.threads.shouldStop i = true :=
    fun hout => htold.resolve_right fun h => h hout
  obtain ⟨lastSleep, hfunc⟩ := Threads.threadStep_eq_kthreadFunc s.threads i
  cases hpc : s.threads.threads i with
  | none => exact absurd hpc hnone
  | exited => exact absurd hpc hexited
  | created =>
    have hmove : s.threads.threadStep i = some (s.threads.goto i .exited) := by
      simp [hfunc, Threads.kthreadFunc, hpc, hstop (by simp [hpc, Threads.Outside])]
    exact nearer_of_threads hinv hmove rfl (by simp [hpc]) (by simp [left, leftOf, hpc])
      (Or.inl rfl)
  | check =>
    have hmove : s.threads.threadStep i =
        some (s.threads.goto i (if lastSleep then .lastSleep else .exited)) := by
      simp [hfunc, Threads.kthreadFunc, hpc, hstop (by simp [hpc, Threads.Outside])]
    exact nearer_of_threads hinv hmove rfl (by simp [hpc])
      (by cases lastSleep <;> simp [left, leftOf, hpc]) (Or.inl rfl)
  | lock =>
    have hmove : s.threads.threadStep i =
        some { s.threads.goto i .count with myMutex := some i } := by
      simp [hfunc, Threads.kthreadFunc, hpc, hfree hpc]
    exact nearer_of_threads hinv hmove rfl (by simp [hpc]) (by simp [left, leftOf, hpc])
      (Or.inr (Or.inl hpc))
  | unlock =>
    have hmove : s.threads.threadStep i =
        some { s.threads.goto i .sleep with myMutex := none } := by
      simp [hfunc, Threads.kthreadFunc, hpc]
    exact nearer_of_threads hinv hmove rfl (by simp [hpc]) (by simp [left, leftOf, hpc])
      (Or.inr (Or.inr rfl))
  | sleep =>
    have hmove : s.threads.threadStep i = some (s.threads.goto i .check) := by
      simp [hfunc, Threads.kthreadFunc, hpc]
    exact nearer_of_threads hinv hmove rfl (by simp [hpc]) (by simp [left, leftOf, hpc])
      (Or.inl rfl)
  | lastSleep =>
    have hmove : s.threads.threadStep i = some (s.threads.goto i .exited) := by
      simp [hfunc, Threads.kthreadFunc, hpc]
    exact nearer_of_threads hinv hmove rfl (by simp [hpc]) (by simp [left, leftOf, hpc])
      (Or.inl rfl)
  | count =>
    have hthreads : s.threads.threads = Function.update s.threads.threads i .count := by
      rw [← hpc, Function.update_eq_self]
    cases hline : s.line i with
    | load =>
      obtain ⟨t, hstep, ht, htline⟩ : ∃ t, s.threadStep i = some t ∧ t.threads = s.threads ∧
          t.line = Function.update s.line i .store := by
        simp only [threadStep, hpc, countStep, hline]
        exact ⟨_, rfl, rfl, rfl⟩
      exact ⟨t, nearer .count .store hstep (by rw [ht]; exact hthreads) htline
        (by simp [left, leftOf, hpc, hline]) (Or.inl (by rw [ht]))⟩
    | store =>
      -- What the thread has loaded is there to be stored.
      have hview : s.view i = some fun d => Complete d ∧ d.1.regs i = some d.1.cell := by
        simp only [view, hpc, hline]
        rfl
      have hloaded : s.globalVar.regs i = some s.globalVar.cell :=
        (hinv.monitor.held i _ hview).2
      obtain ⟨t, hstep, ht, htline⟩ : ∃ t, s.threadStep i = some t ∧ t.threads = s.threads ∧
          t.line = Function.update s.line i .print := by
        simp only [threadStep, hpc, countStep, hline, access, ReadModifyWrite.Shared.step, hloaded]
        exact ⟨_, rfl, rfl, rfl⟩
      exact ⟨t, nearer .count .print hstep (by rw [ht]; exact hthreads) htline
        (by simp [left, leftOf, hpc, hline]) (Or.inl (by rw [ht]))⟩
    | print =>
      have hmove : s.threads.threadStep i =
          some { s.threads.goto i .unlock with globalVar := s.threads.globalVar + 1 } := by
        simp [hfunc, Threads.kthreadFunc, hpc]
      obtain ⟨t, hstep, ht, htline⟩ : ∃ t, s.threadStep i = some t ∧
          t.threads = { s.threads.goto i .unlock with globalVar := s.threads.globalVar + 1 } ∧
          t.line = Function.update s.line i .load := by
        simp only [threadStep, hpc, countStep, hline, hmove]
        exact ⟨_, rfl, rfl, rfl⟩
      exact ⟨t, nearer .unlock .load hstep (by rw [ht]; rfl) htline
        (by simp [left, leftOf, hpc, hline]) (Or.inl (by rw [ht]; rfl))⟩

/-- The invariant of a run in which every thread has started. -/
structure Loaded (s : ThreadCounter) : Prop where
  counter : s.Inv
  module : s.threads.Inv
  told : s.threads.Told

theorem loaded_init : Loaded init :=
  ⟨inv_init, Threads.inv_init, Threads.told_init⟩

theorem loaded_step (hall : ∀ i, started i = true) (hs : s.Loaded)
    (h : s.step started a = some t) : t.Loaded := by
  rcases step_threads h with hsame | hmove
  · exact ⟨inv_step hs.counter h, hsame ▸ hs.module, hsame ▸ hs.told⟩
  · exact ⟨inv_step hs.counter h, Threads.inv_step hall hs.module hmove,
      Threads.told_step hs.module hs.told hmove⟩

/-- The steps left of the thread that `exit_func` waits for. -/
def joinedLeft (s : ThreadCounter) : ℕ :=
  match s.threads.pc with
  | .join .exit j => s.left j
  | _ => 0

/-- The steps left of the thread that holds the mutex. -/
def holderLeft (s : ThreadCounter) : ℕ :=
  match s.threads.myMutex with
  | none => 0
  | some i => s.left i

theorem pc_threadStep (h : s.threadStep i = some t) : t.threads.pc = s.threads.pc := by
  have hstep : s.step (fun _ => true) (.thread i) = some t := h
  rcases step_threads hstep with hsame | hmove
  · rw [hsame]
  · exact (Threads.threadStep_eq hmove).1

/-- The progress there is. -/
def measure (s : ThreadCounter) : ℕ ×ₗ ℕ ×ₗ ℕ :=
  toLex (Threads.moduleLeft s.threads.pc, toLex (s.joinedLeft, s.holderLeft))

theorem measure_lt_of_module
    (h : Threads.moduleLeft t.threads.pc < Threads.moduleLeft s.threads.pc) :
    t.measure < s.measure :=
  Prod.Lex.toLex_lt_toLex.2 (Or.inl h)

theorem measure_lt_of_joined (hpc : t.threads.pc = s.threads.pc)
    (h : t.joinedLeft < s.joinedLeft) : t.measure < s.measure :=
  Prod.Lex.toLex_lt_toLex.2 (Or.inr ⟨by rw [hpc], Prod.Lex.toLex_lt_toLex.2 (Or.inl h)⟩)

theorem measure_lt_of_holder (hpc : t.threads.pc = s.threads.pc)
    (hjoined : t.joinedLeft = s.joinedLeft) (h : t.holderLeft < s.holderLeft) :
    t.measure < s.measure :=
  Prod.Lex.toLex_lt_toLex.2
    (Or.inr ⟨by rw [hpc], Prod.Lex.toLex_lt_toLex.2 (Or.inr ⟨hjoined, h⟩)⟩)

theorem joinedLeft_eq {j : Fin 5} (hpc : s.threads.pc = .join .exit j) :
    s.joinedLeft = s.left j := by
  simp only [joinedLeft, hpc]

/-- The thread that is waited for goes on, or the one that holds the mutex it waits for. -/
theorem Loaded.thread_progress {j : Fin 5} (hs : s.Loaded) (hpc : s.threads.pc = .join .exit j)
    (hlive : s.threads.threads j ≠ .exited) :
    ∃ i t, s.threadStep i = some t ∧ t.measure < s.measure := by
  obtain ⟨filled, called, joined, hprog, htask, -⟩ := hs.module
  obtain ⟨rfl, -⟩ : 5 = filled ∧ j.val + 1 = called ∧ j.val = joined := by
    simpa [hpc, Threads.progress] using hprog
  have hnone := (htask j j.isLt).2
  by_cases hwait : s.threads.threads j = .lock ∧ s.threads.myMutex ≠ none
  · obtain ⟨hlock, hheld⟩ := hwait
    obtain ⟨k, hown⟩ := Option.ne_none_iff_exists'.1 hheld
    have hinside : ¬Threads.Outside (s.threads.threads k) := fun hout => by
      have hview := (hs.counter.monitor.inside_iff k).2 hown
      simp [view, assertion_outside hout] at hview
    have hk : ∀ pc, Threads.Outside pc → s.threads.threads k ≠ pc := by
      rintro pc hpc rfl
      exact hinside hpc
    have hkj : j ≠ k := by
      rintro rfl
      exact hk .lock (by simp [Threads.Outside]) hlock
    obtain ⟨t, hstep, hleft, hframe, hmutex⟩ := hs.counter.thread_progress
      (hk .none (by simp [Threads.Outside])) (hk .exited (by simp [Threads.Outside]))
      (fun h => absurd h (hk .lock (by simp [Threads.Outside]))) (Or.inr hinside)
    have htpc := pc_threadStep hstep
    refine ⟨k, t, hstep, measure_lt_of_holder htpc ?_ ?_⟩
    · rw [joinedLeft_eq hpc, joinedLeft_eq (htpc.trans hpc), hframe j hkj]
    · rcases hmutex with hsame | hlock' | hfree
      · simpa only [holderLeft, hsame, hown] using hleft
      · exact absurd hlock' (hk .lock (by simp [Threads.Outside]))
      · simp only [holderLeft, hfree, hown]
        omega
  · obtain ⟨t, hstep, hleft, -⟩ := hs.counter.thread_progress hnone hlive
      (fun hlock => by simpa [hlock] using hwait) (Or.inl (hs.told j hpc))
    have htpc := pc_threadStep hstep
    refine ⟨j, t, hstep, measure_lt_of_joined htpc ?_⟩
    rwa [joinedLeft_eq hpc, joinedLeft_eq (htpc.trans hpc)]

/-- Short of the end of `exit_func`, someone can take a step towards it. -/
theorem Loaded.progress (hall : ∀ i, started i = true) (hs : s.Loaded)
    (hpc : s.threads.pc ≠ .returned) :
    ∃ a t, True ∧ s.step started a = some t ∧ t.Loaded ∧ t.measure < s.measure := by
  by_cases hjoin : ∀ j, s.threads.pc = .join .exit j → s.threads.threads j = .exited
  · obtain ⟨a, threads, ha, hmove, hlt⟩ := hs.module.module_progress hall hpc hjoin
    have hstep : s.step started a = some { s with threads } := by
      cases a with
      | thread i => exact absurd rfl (ha i)
      | module | unload => simp only [step, hmove]; rfl
    exact ⟨a, _, trivial, hstep, loaded_step hall hs hstep, measure_lt_of_module hlt⟩
  · push Not at hjoin
    obtain ⟨j, hj, hlive⟩ := hjoin
    obtain ⟨i, t, hstep, hlt⟩ := hs.thread_progress hj hlive
    exact ⟨.thread i, t, trivial, hstep, loaded_step (a := .thread i) hall hs hstep, hlt⟩

/-- Where all five threads start, any run can be continued until `exit_func` has returned. -/
theorem unload_can_finish (started : Fin 5 → Bool) (hall : ∀ i, started i = true)
    (as : List ThreadAct) (s : ThreadCounter) (h : exec (step started) init as = some s) :
    CanReach (step started) (fun _ => True) (fun t => t.threads.pc = .returned) s := by
  have hs : s.Loaded := exec_invariant_of_step (fun s a t => loaded_step hall) loaded_init h
  exact (canReach_of_measure measure (fun s hs hpc => hs.progress hall hpc) hs).mono
    fun t ht => ht.2

/-- Unloaded while a thread is inside and the one waited for waits for it. -/
theorem unload_while_inside : ∃ s, exec (step fun _ => true) init
    (List.replicate 10 .module ++ List.replicate 4 (.thread 1) ++ List.replicate 2 (.thread 0) ++
      [.unload, .module]) = some s ∧
    CanReach (step fun _ => true) (fun _ => True) (fun t => t.threads.pc = .returned) s := by
  obtain ⟨s, hs⟩ : ∃ s, exec (step fun _ => true) init
      (List.replicate 10 .module ++ List.replicate 4 (.thread 1) ++ List.replicate 2 (.thread 0) ++
        [.unload, .module]) = some s :=
    Option.isSome_iff_exists.1 (by decide)
  exact ⟨s, hs, unload_can_finish _ (fun _ => rfl) _ s hs⟩

end ThreadCounter

end ProCamp
