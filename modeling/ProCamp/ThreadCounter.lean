import Mathlib.Data.BitVec
import ProCamp.Monitor
import ProCamp.ReadModifyWrite
import ProCamp.Threads

/-!
# What the five threads count

`HW10/threads.c` : each thread adds one to `global_var` and prints it, under `my_mutex`.
`Threads` has both lines as one step; here line 22 is a load and a store, line 23 reads
`global_var` again, and other threads may run in between. `global_var` is the variable of
`ReadModifyWrite`, with the threads it was added to by.

The mutex is a `Monitor` : the thread inside relies on what it has loaded being what
`global_var` holds. `global_var_counts` : in every run, whichever threads start and stop,
no addition is lost, and the additions print 1, 2, 3 and so on, in the order they are made.
-/

namespace ProCamp

open Machine ReadModifyWrite

/-- Where a thread is in lines 22 and 23. -/
inductive CountPc where
  /-- Line 22, the load. -/
  | load
  /-- Line 22, the store. -/
  | store
  /-- Line 23. -/
  | print
  deriving DecidableEq

/-- What a thread prints in its loop. -/
inductive ThreadLine where
  /-- Line 20. -/
  | entered (i : Fin 5)
  /-- Line 23. -/
  | counted (i : Fin 5) (n : ℤ)
  deriving DecidableEq

/-- The module and its threads, with a step for each access to `global_var`. -/
structure ThreadCounter where
  /-- All but `global_var`, as in `Threads`. -/
  threads : Threads
  /-- For a thread in lines 22 and 23. -/
  line : Fin 5 → CountPc
  globalVar : Shared (Fin 5) (Fin 5) (BitVec 32)
  printed : List ThreadLine

namespace ThreadCounter

/-- Before `init_func`. -/
def init : ThreadCounter where
  threads := .init
  line _ := .load
  globalVar := .init
  printed := []

/-- An access to `global_var`, after which the rest is as `s` says. -/
def access (s : ThreadCounter) (b : ReadModifyWrite.Act (Fin 5) (Fin 5)) :
    Option ThreadCounter :=
  (s.globalVar.step (fun _ => 1) b).map fun globalVar => { s with globalVar }

/-- A step of thread `i` in lines 22 and 23. -/
def countStep (s : ThreadCounter) (i : Fin 5) : Option ThreadCounter :=
  match s.line i with
  | .load => access { s with line := Function.update s.line i .store } (.load i)
  | .store => access { s with line := Function.update s.line i .print } (.store i i)
  | .print =>
    (s.threads.threadStep i).map fun threads =>
      { s with
        threads
        line := Function.update s.line i .load
        printed := s.printed ++ [.counted i s.globalVar.cell.value.toInt] }

/-- One step of thread `i`. -/
def threadStep (s : ThreadCounter) (i : Fin 5) : Option ThreadCounter :=
  match s.threads.threads i with
  | .count => s.countStep i
  | .check =>
    (s.threads.threadStep i).map fun threads =>
      { s with
        threads
        printed := if s.threads.shouldStop i then s.printed else s.printed ++ [.entered i] }
  | _ => (s.threads.threadStep i).map fun threads => { s with threads }

/-- One step. -/
def step (started : Fin 5 → Bool) (s : ThreadCounter) : ThreadAct → Option ThreadCounter
  | .thread i => s.threadStep i
  | a => (s.threads.step started a).map fun threads => { s with threads }

/-- What line 23 has printed. -/
def counts (s : ThreadCounter) : List (Fin 5 × ℤ) :=
  s.printed.filterMap fun
    | .entered _ => none
    | .counted i n => some (i, n)

/-- The threads of a list with 1, 2, 3 and so on, as an `int` has them. -/
def numbered (l : List (Fin 5)) : List (Fin 5 × ℤ) :=
  l.zipIdx.map fun p => (p.1, (BitVec.ofNat 32 (p.2 + 1)).toInt)

theorem numbered_concat (l : List (Fin 5)) (i : Fin 5) :
    numbered (l ++ [i]) = numbered l ++ [(i, (BitVec.ofNat 32 (l.length + 1)).toInt)] := by
  simp [numbered, List.zipIdx_append]

end ThreadCounter

/-! ## The threads that have not started -/

namespace Threads

variable {started : Fin 5 → Bool} {s t : Threads} {a : ThreadAct} {i : Fin 5}

/-- `init_func` finds no slot null, and a thread it has not come to does not exist. -/
structure Unstarted (s : Threads) : Prop where
  run : ∀ i, s.pc = .run i → ∀ j, i ≤ j → s.threads j = .none
  test : ∀ i, s.pc = .test i → s.task i ≠ .null ∧ ∀ j, i < j → s.threads j = .none
  stop : ∀ i j, s.pc ≠ .stop (.init i) j
  join : ∀ i j, s.pc ≠ .join (.init i) j

theorem unstarted_init : Unstarted init where
  run _ _ _ _ := rfl
  test _ h := nomatch h
  stop _ _ := nofun
  join _ _ := nofun

/-- A step that leaves the module where it is neither starts nor ends a thread's life. -/
theorem Unstarted.frame (h : s.Unstarted) (hpc : t.pc = s.pc) (htask : t.task = s.task)
    (hnone : ∀ j, s.threads j = .none → t.threads j = .none) : t.Unstarted where
  run i hi j hij := hnone j (h.run i (hpc ▸ hi) j hij)
  test i hi := by
    obtain ⟨hnull, hlater⟩ := h.test i (hpc ▸ hi)
    exact ⟨htask ▸ hnull, fun j hij => hnone j (hlater j hij)⟩
  stop := hpc ▸ h.stop
  join := hpc ▸ h.join

theorem Unstarted.thread (hfresh : s.Unstarted) (h : s.threadStep i = some t) : t.Unstarted := by
  obtain ⟨hpc, htask, -, pc, hthreads, -, hrun, -⟩ := threadStep_eq h
  refine hfresh.frame hpc htask fun j hj => ?_
  have hji : j ≠ i := by
    rintro rfl
    exact hrun hj
  rw [hthreads, Function.update_of_ne hji, hj]

theorem lt_of_add_one_le {i j : Fin 5} (hi : i ≠ 4) (h : i + 1 ≤ j) : i < j := by
  have := val_add_one i hi
  omega

/-- The module where it has nothing more to start. -/
theorem Unstarted.of_pc (hrun : ∀ i, s.pc ≠ .run i) (htest : ∀ i, s.pc ≠ .test i)
    (hstop : ∀ i j, s.pc ≠ .stop (.init i) j) (hjoin : ∀ i j, s.pc ≠ .join (.init i) j) :
    s.Unstarted :=
  ⟨fun i h => absurd h (hrun i), fun i h => absurd h (htest i), hstop, hjoin⟩

theorem Unstarted.nextRun (hfresh : ∀ j, i < j → s.threads j = .none) (h : s.pc = nextRun i) :
    s.Unstarted := by
  unfold Threads.nextRun at h
  split_ifs at h with hlast
  · exact .of_pc (by simp [h]) (by simp [h]) (by simp [h]) (by simp [h])
  · refine ⟨fun k hk j hkj => ?_, by simp [h], by simp [h], by simp [h]⟩
    obtain rfl : i + 1 = k := by simpa [h] using hk
    exact hfresh j (lt_of_add_one_le hlast hkj)

theorem nextStop_exit (j : Fin 5) :
    nextStop .exit j = .returned ∨ nextStop .exit j = .stop .exit (j + 1) := by
  by_cases hlast : j = 4
  · exact Or.inl (by simp [nextStop, hlast])
  · exact Or.inr (by simp [nextStop, hlast])

/-- What a step of the module does to the threads : it may start one. -/
theorem Unstarted.module (hfresh : s.Unstarted) (h : s.moduleStep started = some t) :
    t.Unstarted ∧ t.myMutex = s.myMutex ∧ (t.threads = s.threads ∨
      ∃ i, s.threads i = .none ∧ t.threads = Function.update s.threads i .created) := by
  unfold moduleStep at h
  split at h
  case h_1 i hpc =>
    have hnone := hfresh.run i hpc
    have hlater : ∀ j, i < j → Function.update s.threads i .created j = .none := fun j hij => by
      rw [Function.update_of_ne (ne_of_gt hij), hnone j (le_of_lt hij)]
    split_ifs at h
    · cases h
      refine ⟨⟨nofun, ?_, nofun, nofun⟩, rfl, Or.inr ⟨i, hnone i le_rfl, rfl⟩⟩
      rintro k ⟨⟩
      exact ⟨by simp, hlater⟩
    · cases h
      refine ⟨⟨nofun, ?_, nofun, nofun⟩, rfl, Or.inl rfl⟩
      rintro k ⟨⟩
      exact ⟨by simp, fun j hij => hnone j (le_of_lt hij)⟩
  case h_2 i hpc =>
    obtain ⟨hnull, hlater⟩ := hfresh.test i hpc
    rw [if_pos hnull] at h
    cases h
    exact ⟨.nextRun hlater rfl, rfl, Or.inl rfl⟩
  case h_3 by' j hpc =>
    cases by' with
    | init i => exact absurd hpc (hfresh.stop i j)
    | exit =>
      split at h <;> cases h <;> exact ⟨.of_pc nofun nofun nofun nofun, rfl, Or.inl rfl⟩
  case h_4 by' j hpc =>
    cases by' with
    | init i => exact absurd hpc (hfresh.join i j)
    | exit =>
      split at h
      · split_ifs at h
        cases h
        refine ⟨?_, rfl, Or.inl rfl⟩
        rcases nextStop_exit j with hnext | hnext
        · exact .of_pc (by simp [hnext]) (by simp [hnext]) (by simp [hnext]) (by simp [hnext])
        · exact .of_pc (by simp [hnext]) (by simp [hnext]) (by simp [hnext]) (by simp [hnext])
      · cases h
  all_goals cases h

theorem Unstarted.unload (h : s.step started .unload = some t) :
    t.Unstarted ∧ t.myMutex = s.myMutex ∧ t.threads = s.threads := by
  simp only [step] at h
  split_ifs at h
  cases h
  exact ⟨.of_pc (by simp) (by simp) (by simp) (by simp), rfl, rfl⟩

/-- Outside the lines between `mutex_lock` and `mutex_unlock`. -/
def Outside (pc : ThreadPc) : Prop :=
  pc ≠ .count ∧ pc ≠ .unlock

/-- What a step of thread `i` does to the mutex. -/
inductive ThreadMove (s : Threads) (i : Fin 5) : Threads → Prop
  | outside {pc : ThreadPc} (hpc : Outside (s.threads i)) (hpc' : Outside pc) :
      ThreadMove s i (s.goto i pc)
  | lock (hpc : s.threads i = .lock) (hfree : s.myMutex = none) :
      ThreadMove s i { s.goto i .count with myMutex := some i }
  | count (hpc : s.threads i = .count) :
      ThreadMove s i { s.goto i .unlock with globalVar := s.globalVar + 1 }
  | unlock (hpc : s.threads i = .unlock) : ThreadMove s i { s.goto i .sleep with myMutex := none }

theorem threadStep_eq_kthreadFunc (s : Threads) (i : Fin 5) :
    ∃ lastSleep, s.threadStep i = kthreadFunc lastSleep i s := by
  match i with
  | 0 | 1 | 2 | 4 => exact ⟨false, rfl⟩
  | 3 => exact ⟨true, rfl⟩

theorem threadMove (h : s.threadStep i = some t) : ThreadMove s i t := by
  obtain ⟨lastSleep, hfunc⟩ := threadStep_eq_kthreadFunc s i
  rw [hfunc] at h
  unfold kthreadFunc at h
  split at h
  case h_1 => cases h
  case h_2 => cases h
  case h_3 hpc =>
    cases h
    exact .outside (by simp [Outside, hpc]) (by split_ifs <;> simp [Outside])
  case h_4 hpc =>
    cases h
    exact .outside (by simp [Outside, hpc]) (by split_ifs <;> simp [Outside])
  case h_5 hpc =>
    split_ifs at h with hfree
    cases h
    exact .lock hpc hfree
  case h_6 hpc => cases h; exact .count hpc
  case h_7 hpc => cases h; exact .unlock hpc
  all_goals
    rename_i hpc
    cases h
    exact .outside (by simp [Outside, hpc]) (by simp [Outside])

end Threads

/-! ## Every addition is counted -/

namespace ThreadCounter

variable {started : Fin 5 → Bool} {s t : ThreadCounter} {a : ThreadAct} {i : Fin 5}

/-- `global_var`, and what has been printed of it. -/
abbrev Protected :=
  Shared (Fin 5) (Fin 5) (BitVec 32) × List (Fin 5 × ℤ)

/-- No addition is lost, and each has printed its number. -/
def Complete (d : Protected) : Prop :=
  d.1.cell.updates = d.1.log ∧ d.2 = numbered d.1.log

/-- No addition is lost, and the last, by thread `i`, has not printed. -/
def Pending (i : Fin 5) (d : Protected) : Prop :=
  d.1.cell.updates = d.1.log ∧ ∃ l, d.1.log = l ++ [i] ∧ d.2 = numbered l

/-- What thread `i` relies on between `mutex_lock` and `mutex_unlock`. -/
def assertion (i : Fin 5) : ThreadPc → CountPc → Option (Protected → Prop)
  | .count, .load => some Complete
  | .count, .store => some fun d => Complete d ∧ d.1.regs i = some d.1.cell
  | .count, .print => some (Pending i)
  | .unlock, _ => some Complete
  | _, _ => none

/-- What thread `i` relies on where it is. -/
def view (s : ThreadCounter) (i : Fin 5) : Option (Protected → Prop) :=
  assertion i (s.threads.threads i) (s.line i)

theorem assertion_outside {pc : ThreadPc} (h : Threads.Outside pc) (l : CountPc) :
    assertion i pc l = none := by
  cases pc with
  | count => exact absurd rfl h.1
  | unlock => exact absurd rfl h.2
  | none | created | check | lock | sleep | lastSleep | exited => rfl

/-- `my_mutex` protects `global_var` and what is printed of it, and only the thread in lines 22
and 23 has begun with them. -/
structure Inv (s : ThreadCounter) : Prop where
  threads : s.threads.Unstarted
  globalVar : s.globalVar.Inv fun _ => 1
  line : ∀ i, s.threads.threads i ≠ .count → s.line i = .load
  monitor : Monitor.Inv Complete s.threads.myMutex s.view (s.globalVar, s.counts)

theorem inv_init : Inv init where
  threads := Threads.unstarted_init
  globalVar := Shared.inv_init
  line _ _ := rfl
  monitor := ⟨fun i => by simp [view, init, Threads.init, assertion],
    fun _ => ⟨rfl, rfl⟩, fun i P h => by simp [view, init, Threads.init, assertion] at h⟩

theorem view_of_ne {pc : ThreadPc} {j : Fin 5} {l : CountPc} (hj : j ≠ i)
    (hthreads : t.threads.threads = Function.update s.threads.threads i pc)
    (hline : t.line = Function.update s.line i l) : t.view j = s.view j := by
  unfold view
  rw [hthreads, hline, Function.update_of_ne hj, Function.update_of_ne hj]

theorem view_self {pc : ThreadPc} {l : CountPc}
    (hthreads : t.threads.threads = Function.update s.threads.threads i pc)
    (hline : t.line = Function.update s.line i l) : t.view i = assertion i pc l := by
  unfold view
  rw [hthreads, hline, Function.update_self, Function.update_self]

/-- A step of thread `i` that is one of the mutex keeps the invariant. -/
theorem Inv.move {pc : ThreadPc} {l : CountPc} (hinv : s.Inv) (hfresh : t.threads.Unstarted)
    (hthreads : t.threads.threads = Function.update s.threads.threads i pc)
    (hline : t.line = Function.update s.line i l) (hload : pc ≠ .count → l = .load)
    (hvar : t.globalVar.Inv fun _ => 1)
    (hstep : Monitor.Step Complete i s.threads.myMutex
      (assertion i (s.threads.threads i) (s.line i)) (s.globalVar, s.counts)
      t.threads.myMutex (assertion i pc l) (t.globalVar, t.counts)) : t.Inv := by
  refine ⟨hfresh, hvar, fun j hj => ?_, ?_⟩
  · rcases eq_or_ne j i with rfl | hji
    · rw [hthreads, Function.update_self] at hj
      rw [hline, Function.update_self, hload hj]
    · rw [hthreads, Function.update_of_ne hji] at hj
      rw [hline, Function.update_of_ne hji, hinv.line j hj]
  · refine hinv.monitor.step i ?_ fun j hj => view_of_ne hj hthreads hline
    rw [view_self hthreads hline]
    exact hstep

/-- A thread moves outside lines 21 to 25. -/
theorem Inv.outside {pc : ThreadPc} (hinv : s.Inv) (hfresh : t.threads.Unstarted)
    (hpc : Threads.Outside (s.threads.threads i)) (hpc' : Threads.Outside pc)
    (hthreads : t.threads.threads = Function.update s.threads.threads i pc)
    (hmutex : t.threads.myMutex = s.threads.myMutex) (hline : t.line = s.line)
    (hvar : t.globalVar = s.globalVar) (hcounts : t.counts = s.counts) : t.Inv := by
  have hload := hinv.line i hpc.1
  refine hinv.move (l := .load) hfresh hthreads ?_ (fun _ => rfl) (hvar ▸ hinv.globalVar) ?_
  · rw [hline, ← hload, Function.update_eq_self]
  · rw [assertion_outside hpc, assertion_outside hpc', hmutex, hvar, hcounts]
    exact .outside _ _

/-- A step of `init_func` or `exit_func`. -/
theorem Inv.module {threads : Threads} (hinv : s.Inv) (hfresh : threads.Unstarted)
    (hmutex : threads.myMutex = s.threads.myMutex)
    (hthreads : threads.threads = s.threads.threads ∨ ∃ i, s.threads.threads i = .none ∧
      threads.threads = Function.update s.threads.threads i .created) :
    Inv { s with threads } := by
  rcases hthreads with hsame | ⟨i, hnone, hthreads⟩
  · refine ⟨hfresh, hinv.globalVar, fun j hj => hinv.line j (hsame ▸ hj), ?_⟩
    have hview : view { s with threads } = s.view := by
      funext j
      simp only [view, hsame]
    rw [hview, hmutex]
    exact hinv.monitor
  · exact hinv.outside hfresh (by simp [hnone, Threads.Outside]) (by simp [Threads.Outside])
      hthreads hmutex rfl rfl rfl

/-- Where none is lost, `global_var` is the number of additions. -/
theorem value_eq {v : Shared (Fin 5) (Fin 5) (BitVec 32)} (hinv : v.Inv fun _ => 1)
    (hall : v.cell.updates = v.log) : v.cell.value = BitVec.ofNat 32 v.log.length := by
  rw [hinv.cell.value, hall]
  simp

theorem counts_concat (s : ThreadCounter) (i : Fin 5) (n : ℤ) (threads : Threads)
    (line : Fin 5 → CountPc) :
    counts { s with threads, line, printed := s.printed ++ [.counted i n] } =
      s.counts ++ [(i, n)] := by
  simp [counts]

theorem inv_countStep (hinv : s.Inv) (hpc : s.threads.threads i = .count)
    (h : s.countStep i = some t) : t.Inv := by
  have hthreads : s.threads.threads = Function.update s.threads.threads i .count := by
    rw [← hpc, Function.update_eq_self]
  unfold countStep at h
  split at h
  case h_1 hline =>
    obtain ⟨v, hv, rfl⟩ := Option.map_eq_some_iff.1 h
    refine hinv.move hinv.threads hthreads rfl (fun h => absurd rfl h)
      (Shared.inv_step hinv.globalVar hv) ?_
    rw [hpc, hline]
    cases hv
    exact .inside _ _ _ fun hall => ⟨hall, by simp⟩
  case h_2 hline =>
    obtain ⟨v, hv, rfl⟩ := Option.map_eq_some_iff.1 h
    refine hinv.move hinv.threads hthreads rfl (fun h => absurd rfl h)
      (Shared.inv_step hinv.globalVar hv) ?_
    rw [hpc, hline]
    refine .inside _ _ _ fun ⟨⟨hall, hprinted⟩, hloaded⟩ => ?_
    have hundisturbed : s.globalVar.Undisturbed (.store i i) v := hloaded
    refine ⟨Shared.updates_eq_log_step hall hundisturbed hv, s.globalVar.log, ?_, hprinted⟩
    obtain ⟨c, -, rfl⟩ := Shared.step_store hv
    rfl
  case h_3 hline =>
    obtain ⟨threads, hmove, rfl⟩ := Option.map_eq_some_iff.1 h
    have hfresh := hinv.threads.thread hmove
    cases Threads.threadMove hmove with
    | count =>
      refine hinv.move hfresh rfl rfl (fun _ => rfl) hinv.globalVar ?_
      rw [hpc, hline, counts_concat]
      refine .inside _ _ _ fun ⟨hall, l, hlog, hprinted⟩ => ⟨hall, ?_⟩
      change s.globalVar.log = l ++ [i] at hlog
      change s.counts = numbered l at hprinted
      change s.counts ++ [(i, s.globalVar.cell.value.toInt)] = numbered s.globalVar.log
      rw [hprinted, value_eq hinv.globalVar hall, hlog, numbered_concat, List.length_append]
      rfl
    | outside hout => exact absurd hpc hout.1
    | lock hlock => simp [hpc] at hlock
    | unlock hunlock => simp [hpc] at hunlock

theorem inv_threadStep (hinv : s.Inv) (h : s.threadStep i = some t) : t.Inv := by
  by_cases hcount : s.threads.threads i = .count
  · exact inv_countStep hinv hcount (by simpa only [threadStep, hcount] using h)
  -- The lines printed at line 20 are not counts.
  have hstep : ∃ threads, s.threads.threadStep i = some threads ∧ t.threads = threads ∧
      t.line = s.line ∧ t.globalVar = s.globalVar ∧ t.counts = s.counts := by
    unfold threadStep at h
    split at h
    case h_1 hpc => exact absurd hpc hcount
    case h_2 =>
      obtain ⟨threads, hmove, rfl⟩ := Option.map_eq_some_iff.1 h
      refine ⟨threads, hmove, rfl, rfl, rfl, ?_⟩
      cases hstop : s.threads.shouldStop i <;> simp [counts]
    case h_3 =>
      obtain ⟨threads, hmove, rfl⟩ := Option.map_eq_some_iff.1 h
      exact ⟨threads, hmove, rfl, rfl, rfl, rfl⟩
  obtain ⟨threads, hmove, rfl, hline, hvar, hcounts⟩ := hstep
  have hfresh := hinv.threads.thread hmove
  have hload := hinv.line i hcount
  have hupdate : t.line = Function.update s.line i .load := by
    rw [hline, ← hload, Function.update_eq_self]
  generalize hthreads : t.threads = threads at *
  cases Threads.threadMove hmove with
  | outside hpc hpc' =>
    exact hinv.outside (hthreads ▸ hfresh) hpc hpc' (by rw [hthreads]; rfl) (by rw [hthreads]; rfl)
      hline hvar hcounts
  | lock hpc hfree =>
    refine hinv.move (hthreads ▸ hfresh) (by rw [hthreads]; rfl) hupdate (fun _ => rfl)
      (hvar ▸ hinv.globalVar) ?_
    rw [hpc, hfree, hthreads, hvar, hcounts]
    exact .acquire _ id
  | count hpc => exact absurd hpc hcount
  | unlock hpc =>
    refine hinv.move (hthreads ▸ hfresh) (by rw [hthreads]; rfl) hupdate (fun _ => rfl)
      (hvar ▸ hinv.globalVar) ?_
    rw [hpc, hthreads, hvar, hcounts]
    exact .release _ _ id

theorem inv_step (hinv : s.Inv) (h : s.step started a = some t) : t.Inv := by
  cases a with
  | thread i => exact inv_threadStep hinv h
  | module =>
    obtain ⟨threads, hmove, rfl⟩ := Option.map_eq_some_iff.1 h
    obtain ⟨hfresh, hmutex, hthreads⟩ := hinv.threads.module hmove
    exact hinv.module hfresh hmutex hthreads
  | unload =>
    obtain ⟨threads, hmove, rfl⟩ := Option.map_eq_some_iff.1 h
    obtain ⟨hfresh, hmutex, hthreads⟩ := Threads.Unstarted.unload hmove
    exact hinv.module hfresh hmutex (Or.inl hthreads)

/-- What holds of `global_var` while thread `i` is inside. -/
theorem Inv.held (hinv : s.Inv) (hown : s.threads.myMutex = some i) :
    Complete (s.globalVar, s.counts) ∨ Pending i (s.globalVar, s.counts) := by
  obtain ⟨P, hP⟩ := Option.isSome_iff_exists.1 ((hinv.monitor.inside_iff i).2 hown)
  have hdata := hinv.monitor.held i P hP
  unfold view assertion at hP
  split at hP
  case h_1 => cases hP; exact Or.inl hdata
  case h_2 => cases hP; exact Or.inl hdata.1
  case h_3 => cases hP; exact Or.inr hdata
  case h_4 => cases hP; exact Or.inl hdata
  case h_5 => cases hP

/-- In every run, whichever threads start and stop : `global_var` is the number of
additions made, modulo `2 ^ 32`, and they have printed 1, 2, 3 and so on, as an `int` has
them, in the order they were made, but for the last of a thread that still holds the mutex. -/
theorem global_var_counts (started : Fin 5 → Bool) (as : List ThreadAct) (s : ThreadCounter)
    (h : exec (step started) init as = some s) :
    s.globalVar.cell.value = BitVec.ofNat 32 s.globalVar.log.length ∧
      (s.counts = numbered s.globalVar.log ∨ ∃ i l, s.threads.myMutex = some i ∧
        s.globalVar.log = l ++ [i] ∧ s.counts = numbered l) := by
  have hinv := exec_invariant_of_step (fun s a t => inv_step) inv_init h
  have hvalue : s.globalVar.cell.updates = s.globalVar.log →
      s.globalVar.cell.value = BitVec.ofNat 32 s.globalVar.log.length := value_eq hinv.globalVar
  have hmonitor := hinv.monitor
  cases hown : s.threads.myMutex with
  | none =>
    obtain ⟨hall, hprinted⟩ := hmonitor.free hown
    exact ⟨hvalue hall, Or.inl hprinted⟩
  | some i =>
    rcases hinv.held hown with ⟨hall, hprinted⟩ | ⟨hall, l, hlog, hprinted⟩
    · exact ⟨hvalue hall, Or.inl hprinted⟩
    · exact ⟨hvalue hall, Or.inr ⟨i, l, rfl, hlog, hprinted⟩⟩

/-- Two threads started together. -/
theorem both_count : ∃ s, exec (step fun _ => true) init (List.replicate 4 .module ++
      [.thread 0, .thread 1, .thread 1, .thread 0, .thread 1, .thread 1, .thread 1, .thread 1,
        .thread 1, .thread 0, .thread 0]) = some s ∧
    s.globalVar.cell.value = BitVec.ofNat 32 s.globalVar.log.length ∧
      (s.counts = numbered s.globalVar.log ∨ ∃ i l, s.threads.myMutex = some i ∧
        s.globalVar.log = l ++ [i] ∧ s.counts = numbered l) := by
  obtain ⟨s, hs⟩ : ∃ s, exec (step fun _ => true) init (List.replicate 4 .module ++
      [.thread 0, .thread 1, .thread 1, .thread 0, .thread 1, .thread 1, .thread 1, .thread 1,
        .thread 1, .thread 0, .thread 0]) = some s :=
    Option.isSome_iff_exists.1 (by decide)
  exact ⟨s, hs, global_var_counts _ _ s hs⟩

end ThreadCounter

end ProCamp
