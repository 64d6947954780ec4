import Mathlib.Data.Prod.Lex
import ProCamp.ButtonEvents
import ProCamp.Progress

/-!
# Which calls can return

Whoever holds `hw3->lock` can go on until it releases it, and the handler until it has woken
the queue. So a call of a file operation can always return, but for a blocking `hw3_read`
that has yet to find an event. Without another interrupt or a signal that one can return
exactly if an event awaits it : the flag is up or about to be raised, and no other reader is
about to take it down (`Board.Awaits`). One more interrupt is enough for anyone, once the
handler is done with the last one (`calls_return`).
-/

namespace ProCamp

open Machine

/-! ## What a call waits for -/

/-- The call is over, as far as the driver is concerned. -/
def Proc.Returned : Proc → Prop
  | .idle | .ret _ _ | .poll (.polled _ _) => True
  | _ => False

/-- A blocking reader that has not found an event yet. -/
def Proc.Waits : Proc → Prop
  | .read false .lock | .read false .test | .read false .release | .read false (.wait _) => True
  | _ => False

/-- The reader is about to take down the flag, if it is up. -/
def Proc.Taking : Proc → Prop
  | .read _ .test | .read _ .take | .read _ (.clear _) => True
  | _ => False

namespace Board

/-- An event is there for process `i`, or will be. -/
def Awaits (b : Board) (i : ℕ) : Prop :=
  b.isr = .lock ∨ b.isr = .ready ∨
    b.sh.dev.dataReady = true ∧ ∀ j, j ≠ i → ¬(b.procs j).Taking

/-- A step without another interrupt. -/
def quietStep (b : Board) : BoardAct → Option Board
  | .isr level => if b.isr = .idle then none else b.step (.isr level)
  | a => b.step a

end Board

/-- A process or the handler goes on. -/
def BoardAct.GoesOn : BoardAct → Prop
  | .proc _ .go | .isr _ => True
  | _ => False

/-! ## How far it is -/

/-- The steps left of a wait, while the flag is up. -/
def waitLeft : WaitEvent → ℕ
  | .check | .recheck _ => 7
  | .prepare => 8
  | .sleep _ => 9
  | .asleep => 10

/-- The steps left of `hw3_read`. -/
def ReadPc.left (nonblock ready : Bool) : ReadPc → ℕ
  | .copy _ => 1
  | .unlock _ => 2
  | .clear _ => 3
  | .take => 4
  | .test => if ready then 5 else if nonblock then 2 else 13
  | .lock => 6
  | .wait w => waitLeft w
  | .release => if nonblock then 1 else 12

/-- Of `hw3_write`. -/
def WritePc.left : WritePc → ℕ
  | .unlock _ => 1
  | .drive _ => 2
  | .set _ => 3
  | .test _ => 4
  | .lock _ => 5
  | .copy _ => 6

/-- Of `hw3_poll`. -/
def PollPc.left : PollPc → ℕ
  | .polled _ _ => 0
  | .unlock _ _ => 1
  | .test _ => 2
  | .lock _ => 3
  | .wait => 4

/-- Of `hw3_ioctl`. -/
def IoctlPc.left : IoctlPc → ℕ
  | .put _ | .controlUnlock => 1
  | .getUnlock _ | .control _ => 2
  | .get | .controlLock _ => 3
  | .getLock | .controlGet _ => 4
  | .setUnlock => 5
  | .setDrive => 6
  | .set _ => 7
  | .setLock _ => 8
  | .setGet _ => 9

/-- Of a call. -/
def Proc.left (ready : Bool) : Proc → ℕ
  | .idle | .ret _ _ => 0
  | .read nonblock pc => pc.left nonblock ready
  | .write _ pc => pc.left
  | .poll pc => pc.left
  | .ioctl pc => pc.left

/-- Of the handler. -/
def Isr.left : Isr → ℕ
  | .idle => 0
  | .wake => 1
  | .unlock => 2
  | .drive => 3
  | .toggle => 4
  | .test => 5
  | .sample => 6
  | .ready => 7
  | .lock => 8

variable {i j : ℕ} {s s' : Shared} {p p' : Proc} {x : Input}

/-! ## A process goes on -/

/-- The process is inside, or may enter. -/
def Proc.MayGo (s : Shared) (p : Proc) : Prop :=
  s.lock = none ∨ p.event.isSome

theorem acquire_of_free {me : LockHolder} (hfree : s.lock = none) :
    s.acquire me = some { s with lock := some me } :=
  if_pos hfree

/-- The process can go on, and is then closer to its return. -/
def Proc.Goes (i : ℕ) (s : Shared) (p : Proc) : Prop :=
  ∃ s' p', procStep i s p .go = some (s', p') ∧
    p'.left s'.dev.dataReady < p.left s.dev.dataReady

theorem read_goes {nonblock : Bool} {pc : ReadPc} (hmay : (Proc.read nonblock pc).MayGo s)
    (hready : (Proc.read nonblock pc).Waits → s.lock = none → s.dev.dataReady = true)
    (hwait : ∀ w, pc ≠ .wait w) : (Proc.read nonblock pc).Goes i s := by
  cases pc with
  | lock =>
    have hfree : s.lock = none := hmay.resolve_right (by simp [Proc.event])
    refine ⟨{ s with lock := some (.proc i) }, .read nonblock .test, ?_, ?_⟩
    · simp [procStep, readStep, acquire_of_free hfree]
    · cases nonblock with
      | true =>
        simp only [Proc.left, ReadPc.left]
        split_ifs <;> simp
      | false => simp [Proc.left, ReadPc.left, hready trivial hfree]
  | test =>
    refine ⟨s, .read nonblock (if s.dev.dataReady then .take else .release), rfl, ?_⟩
    cases s.dev.dataReady <;> cases nonblock <;> simp [Proc.left, ReadPc.left]
  | release =>
    refine ⟨s.release, _, rfl, ?_⟩
    cases nonblock <;> simp [Proc.left, ReadPc.left, waitLeft]
  | wait w => exact absurd rfl (hwait w)
  | take => exact ⟨_, _, rfl, by simp [Proc.left, ReadPc.left]⟩
  | clear val => exact ⟨_, _, rfl, by simp [Proc.left, ReadPc.left]⟩
  | unlock val => exact ⟨_, _, rfl, by simp [Proc.left, ReadPc.left]⟩
  | copy val => exact ⟨_, _, rfl, by simp [Proc.left, ReadPc.left]⟩

theorem write_goes {count : ℕ} {pc : WritePc} (hmay : (Proc.write count pc).MayGo s) :
    (Proc.write count pc).Goes i s := by
  cases pc with
  | copy kbuf =>
    refine ⟨s, _, rfl, ?_⟩
    cases writeValue kbuf <;> simp [Proc.left, WritePc.left]
  | lock val =>
    have hfree : s.lock = none := hmay.resolve_right (by simp [Proc.event])
    refine ⟨{ s with lock := some (.proc i) }, .write count (.test val), ?_, ?_⟩
    · simp [procStep, writeStep, acquire_of_free hfree]
    · simp [Proc.left, WritePc.left]
  | test val =>
    refine ⟨s, _, rfl, ?_⟩
    split_ifs <;> simp [Proc.left, WritePc.left]
  | set val => exact ⟨_, _, rfl, by simp [Proc.left, WritePc.left]⟩
  | drive val => exact ⟨_, _, rfl, by simp [Proc.left, WritePc.left]⟩
  | unlock val => exact ⟨_, _, rfl, by simp [Proc.left, WritePc.left]⟩

theorem poll_goes {pc : PollPc} (hmay : (Proc.poll pc).MayGo s)
    (hreturned : ¬(Proc.poll pc).Returned) : (Proc.poll pc).Goes i s := by
  cases pc with
  | wait => exact ⟨_, _, rfl, by simp [Proc.left, PollPc.left]⟩
  | lock triggered =>
    have hfree : s.lock = none := hmay.resolve_right (by simp [Proc.event])
    refine ⟨{ s with lock := some (.proc i) }, .poll (.test triggered), ?_, ?_⟩
    · simp [procStep, pollStep, acquire_of_free hfree]
    · simp [Proc.left, PollPc.left]
  | test triggered => exact ⟨_, _, rfl, by simp [Proc.left, PollPc.left]⟩
  | unlock mask triggered => exact ⟨_, _, rfl, by simp [Proc.left, PollPc.left]⟩
  | polled mask triggered => exact absurd trivial hreturned

theorem ioctl_goes {pc : IoctlPc} (hmay : (Proc.ioctl pc).MayGo s) :
    (Proc.ioctl pc).Goes i s := by
  cases pc with
  | setLock val =>
    have hfree : s.lock = none := hmay.resolve_right (by simp [Proc.event])
    refine ⟨{ s with lock := some (.proc i) }, .ioctl (.set val), ?_, ?_⟩
    · simp [procStep, ioctlStep, acquire_of_free hfree]
    · simp [Proc.left, IoctlPc.left]
  | getLock =>
    have hfree : s.lock = none := hmay.resolve_right (by simp [Proc.event])
    refine ⟨{ s with lock := some (.proc i) }, .ioctl .get, ?_, ?_⟩
    · simp [procStep, ioctlStep, acquire_of_free hfree]
    · simp [Proc.left, IoctlPc.left]
  | controlLock val =>
    have hfree : s.lock = none := hmay.resolve_right (by simp [Proc.event])
    refine ⟨{ s with lock := some (.proc i) }, .ioctl (.control val), ?_, ?_⟩
    · simp [procStep, ioctlStep, acquire_of_free hfree]
    · simp [Proc.left, IoctlPc.left]
  | _ => exact ⟨_, _, rfl, by simp [Proc.left, IoctlPc.left]⟩

/-- A wait goes on while the flag is up and nobody has to wake it. -/
theorem wait_goes {w : WaitEvent} (hready : s.dev.dataReady = true) (hw : ¬w.Committed) :
    (Proc.read false (.wait w)).Goes i s := by
  cases w with
  | check | recheck queued =>
    refine ⟨s, .read false .lock, ?_, by simp [Proc.left, ReadPc.left, waitLeft]⟩
    simp [procStep, readStep, readWait, WaitEvent.step, hready]
  | prepare =>
    refine ⟨s, .read false (.wait (.recheck true)), rfl, ?_⟩
    simp [Proc.left, ReadPc.left, waitLeft]
  | sleep queued =>
    obtain rfl : queued = false := by simpa [WaitEvent.Committed] using hw
    refine ⟨s, .read false (.wait .prepare), rfl, ?_⟩
    simp [Proc.left, ReadPc.left, waitLeft]
  | asleep => exact absurd trivial hw

/-! ## What a step does to the event -/

/-- A process finds the flag as it is, or takes it down. -/
theorem ready_of_move (h : ProcMove i s p s' p') (hready : s'.dev.dataReady = true) :
    s.dev.dataReady = true :=
  (eventFrame_proc h).ready hready

/-- A reader that is about to take the flag down does so next, or finds it down. -/
theorem taking_step (h : ProcMove i s p s' p') (hp : p.Taking)
    (hready : s'.dev.dataReady = true) : p'.Taking := by
  cases h with
  | read hread =>
    cases hread with
    | found | take => trivial
    | empty hdown => simp [hdown] at hready
    | clear => simp at hready
    | _ => exact hp.elim
  | write | poll | ioctl => exact hp.elim

/-- Nobody else takes it down, or comes to be about to without the lock. -/
theorem not_taking_step (h : ProcMove i s p s' p') (hp : ¬p.Taking) :
    s'.dev.dataReady = s.dev.dataReady ∧ (p'.Taking → s.lock = none) := by
  cases h with
  | read hread =>
    cases hread with
    | found | empty | take | clear => exact absurd trivial hp
    | acquire hfree => exact ⟨rfl, fun _ => hfree⟩
    | _ => exact ⟨rfl, fun h => h.elim⟩
  | write hwrite => cases hwrite <;> exact ⟨rfl, fun h => h.elim⟩
  | poll hpoll => cases hpoll <;> exact ⟨rfl, fun h => h.elim⟩
  | ioctl hioctl => cases hioctl <;> exact ⟨rfl, fun h => h.elim⟩

/-- A reader comes to wait only from where it waited. -/
theorem waits_of_move (h : ProcMove i s p s' p') (hp' : p'.Waits) :
    p.Waits ∧ s'.dev.dataReady = s.dev.dataReady := by
  cases h with
  | @read nonblock pc s' p' hread =>
    cases nonblock with
    | true => cases hread <;> exact hp'.elim
    | false =>
      cases hread with
      | clear | take | unlock | copy | fault | found | signalled => exact hp'.elim
      | _ => exact ⟨trivial, rfl⟩
  | write hwrite => cases hwrite <;> exact hp'.elim
  | poll hpoll => cases hpoll <;> exact hp'.elim
  | ioctl hioctl => cases hioctl <;> exact hp'.elim

theorem wait_not_signalled {cond : Bool} (w : WaitEvent) :
    w.step cond false ≠ some .signalled := by
  cases w with
  | check | recheck => cases cond <;> simp [WaitEvent.step]
  | prepare | sleep | asleep => simp [WaitEvent.step]

/-- A wait that no signal ends goes on, unless the flag is found. -/
theorem waits_step (h : procStep i s p x = some (s', p')) (hp : p.Waits) (hx : x ≠ .signal) :
    s'.dev.dataReady = s.dev.dataReady ∧
      (p'.Waits ∨ p.event.isSome ∧ s.dev.dataReady = true) := by
  unfold Proc.Waits at hp
  split at hp
  case h_1 =>
    cases x with
    | go =>
      obtain ⟨-, rfl, rfl⟩ := acquire_eq_some h
      exact ⟨rfl, Or.inl trivial⟩
    | signal | fault => cases h
  case h_2 =>
    cases x with
    | go =>
      cases h
      refine ⟨rfl, ?_⟩
      cases s.dev.dataReady
      · exact Or.inl trivial
      · exact Or.inr ⟨rfl, rfl⟩
    | signal | fault => cases h
  case h_3 =>
    cases x with
    | go =>
      cases h
      exact ⟨rfl, Or.inl trivial⟩
    | signal | fault => cases h
  case h_4 w =>
    cases x with
    | go =>
      obtain ⟨r, hr, heq⟩ := Option.map_eq_some_iff.1 h
      cases r with
      | wait w' | done =>
        cases heq
        exact ⟨rfl, Or.inl trivial⟩
      | signalled => exact absurd hr (wait_not_signalled w)
    | signal => exact absurd rfl hx
    | fault => cases h
  case h_5 => exact hp.elim

/-! ## The invariant -/

/-- A reader with `O_NONBLOCK` does not wait. -/
def Proc.RespectsNonblock : Proc → Prop
  | .read true (.wait _) => False
  | _ => True

theorem respectsNonblock_step (h : ProcMove i s p s' p') (hp : p.RespectsNonblock) :
    p'.RespectsNonblock := by
  cases h with
  | @read nonblock pc s' p' hread =>
    cases nonblock with
    | true =>
      cases hread with
      | release hnb => cases hnb
      | wait => exact hp
      | _ => trivial
    | false => cases hread <;> trivial
  | write hwrite => cases hwrite <;> trivial
  | poll hpoll => cases hpoll <;> trivial
  | ioctl hioctl => cases hioctl <;> trivial

/-- What a wake-up does not change. -/
theorem wake_eq (p : Proc) : (p.wake.RespectsNonblock ↔ p.RespectsNonblock) ∧
    (p.wake.Waits ↔ p.Waits) ∧ (p.wake.Taking ↔ p.Taking) := by
  unfold Proc.wake
  split
  case h_1 nonblock w => cases nonblock <;> exact ⟨Iff.rfl, Iff.rfl, Iff.rfl⟩
  all_goals exact ⟨Iff.rfl, Iff.rfl, Iff.rfl⟩

/-- The event flag, and who waits for it. -/
structure CallsInv (b : Board) : Prop where
  events : EventsInv b
  nonblock : ∀ i, (b.procs i).RespectsNonblock

variable {b t : Board} {a : BoardAct}

theorem callsInv_init : CallsInv Board.init :=
  ⟨eventsInv_init, fun _ => trivial⟩

theorem CallsInv.step (hinv : CallsInv b) (hstep : b.step a = some t) : CallsInv t := by
  refine ⟨hinv.events.step hstep, fun k => ?_⟩
  rcases Board.step_cases hstep with ⟨i, c, rfl, -, rfl⟩ | ⟨i, x, s', p', rfl, hmove, rfl⟩ |
    ⟨level, rfl, -, hprocs, -⟩ | ⟨rfl, -, rfl⟩
  · by_cases hki : k = i
    · subst hki
      simp only [Function.update_self]
      rcases c with nonblock | _ | _ | ⟨_ | _ | _ | _, _⟩
      · cases nonblock <;> trivial
      all_goals trivial
    · simp only [Function.update_of_ne hki]
      exact hinv.nonblock k
  · by_cases hki : k = i
    · subst hki
      simp only [Function.update_self]
      exact respectsNonblock_step hmove (hinv.nonblock k)
    · simp only [Function.update_of_ne hki]
      exact hinv.nonblock k
  · rw [hprocs, Board.afterIsr]
    split_ifs
    · exact (wake_eq _).1.2 (hinv.nonblock k)
    · exact hinv.nonblock k
  · exact hinv.nonblock k

/-- A process about to take down the flag is inside. -/
theorem CallsInv.lock_of_taking (hinv : CallsInv b) (h : (b.procs i).Taking) :
    b.sh.lock = some (.proc i) := by
  refine (hinv.events.holds.inside_iff (.proc i)).1 ?_
  show ((b.procs i).event).isSome
  unfold Proc.Taking at h
  split at h
  case h_1 hpc | h_2 hpc | h_3 hpc =>
    rw [hpc]
    rfl
  case h_4 => exact h.elim

/-- So is the handler between its lock and its unlock. -/
theorem CallsInv.lock_of_isr (hinv : CallsInv b) (h : b.isr.event.isSome) :
    b.sh.lock = some .isr :=
  (hinv.events.holds.inside_iff .isr).1 h

/-! ## Whether an event awaits a reader -/

/-- What a step of the handler does to the flag, with what it is about to do. -/
theorem isr_ready {level : Int32} {pc pc' : Isr} (h : IsrMove s level pc s' pc')
    (hne : pc ≠ .idle) : pc = .lock ∧ pc' = .ready ∨ pc = .ready ∧ s'.dev.dataReady = true ∨
      s'.dev.dataReady = s.dev.dataReady ∧ (pc ≠ .lock ∧ pc ≠ .ready) ∧
        pc' ≠ .lock ∧ pc' ≠ .ready := by
  cases h with
  | enter => exact absurd rfl hne
  | acquire => exact Or.inl ⟨rfl, rfl⟩
  | ready => exact Or.inr (Or.inl ⟨rfl, rfl⟩)
  | _ => exact Or.inr (Or.inr ⟨rfl, by simp, by simp⟩)

theorem taking_afterIsr (j : ℕ) : (b.afterIsr j).Taking ↔ (b.procs j).Taking := by
  unfold Board.afterIsr
  split_ifs
  · exact (wake_eq _).2.2
  · rfl

/-- The handler raises the flag it was about to raise, and leaves it. -/
theorem awaits_isr {level : Int32} (hinv : CallsInv b)
    (hmove : IsrMove b.sh level b.isr t.sh t.isr) (hprocs : t.procs = b.afterIsr)
    (hne : b.isr ≠ .idle) : t.Awaits i ↔ b.Awaits i := by
  unfold Board.Awaits
  simp only [hprocs, taking_afterIsr]
  rcases isr_ready hmove hne with ⟨hpc, hpc'⟩ | ⟨hpc, hready⟩ | ⟨hready, hpc, hpc'⟩
  · exact iff_of_true (Or.inr (Or.inl hpc')) (Or.inl hpc)
  · refine iff_of_true (Or.inr (Or.inr ⟨hready, fun j _ htaking => ?_⟩)) (Or.inr (Or.inl hpc))
    have hisr := hinv.lock_of_isr (by rw [hpc]; rfl)
    exact absurd (hisr.symm.trans (hinv.lock_of_taking htaking)) (by simp)
  · simp only [hready, hpc, hpc', false_or]

/-- A step of the process itself that leaves the flag. -/
theorem awaits_self (hready : s'.dev.dataReady = b.sh.dev.dataReady) :
    Board.Awaits { b with sh := s', procs := Function.update b.procs i p' } i ↔ b.Awaits i := by
  have hothers : (∀ j, j ≠ i → ¬(Function.update b.procs i p' j).Taking) ↔
      ∀ j, j ≠ i → ¬(b.procs j).Taking :=
    forall₂_congr fun j hji => by rw [Function.update_of_ne hji]
  unfold Board.Awaits
  simp only [hready, hothers]

/-- A process inside that is not taking the flag down leaves it to others. -/
theorem awaits_other (hji : j ≠ i) (hmove : ProcMove j b.sh (b.procs j) s' p')
    (hlock : b.sh.lock = some (.proc j)) (h : b.Awaits i) :
    Board.Awaits { b with sh := s', procs := Function.update b.procs j p' } i := by
  refine h.imp_right (Or.imp_right ?_)
  rintro ⟨hready, hothers⟩
  obtain ⟨hsame, htaking⟩ := not_taking_step hmove (hothers j hji)
  refine ⟨hsame.trans hready, fun k hki => ?_⟩
  by_cases hkj : k = j
  · subst hkj
    simp only [Function.update_self]
    exact fun hk => by simp [htaking hk] at hlock
  · simp only [Function.update_of_ne hkj]
    exact hothers k hki

/-- Another process does not leave a flag behind that nobody takes down. -/
theorem not_awaits_other (hji : j ≠ i) (hmove : ProcMove j b.sh (b.procs j) s' p')
    (h : ¬b.Awaits i) :
    ¬Board.Awaits { b with sh := s', procs := Function.update b.procs j p' } i := by
  rintro (hisr | hisr | ⟨hready, hothers⟩)
  · exact h (Or.inl hisr)
  · exact h (Or.inr (Or.inl hisr))
  · refine h (Or.inr (Or.inr ⟨ready_of_move hmove hready, fun k hki htaking => ?_⟩))
    have hk := hothers k hki
    by_cases hkj : k = j
    · subst hkj
      simp only [Function.update_self] at hk
      exact hk (taking_step hmove htaking hready)
    · simp only [Function.update_of_ne hkj] at hk
      exact hk htaking

/-! ## Calls that return -/

theorem proc_goes (hmay : p.MayGo s)
    (hready : p.Waits → s.lock = none → s.dev.dataReady = true)
    (hsleeps : ∀ nonblock w, p = .read nonblock (.wait w) →
      nonblock = false ∧ s.dev.dataReady = true ∧ ¬p.Sleeps)
    (hreturned : ¬p.Returned) : p.Goes i s := by
  cases p with
  | idle | ret => exact absurd trivial hreturned
  | write count pc => exact write_goes hmay
  | poll pc => exact poll_goes hmay hreturned
  | ioctl pc => exact ioctl_goes hmay
  | read nonblock pc =>
    by_cases hwait : ∃ w, pc = .wait w
    · obtain ⟨w, rfl⟩ := hwait
      obtain ⟨rfl, hup, hawake⟩ := hsleeps nonblock w rfl
      exact wait_goes hup hawake
    · exact read_goes hmay hready fun w hw => hwait ⟨w, hw⟩

/-- So does whoever is inside. -/
theorem proc_goes_of_inside (hevent : p.event.isSome) (hlock : s.lock ≠ none) : p.Goes i s := by
  refine proc_goes (Or.inr hevent) (fun _ hfree => absurd hfree hlock) (fun nonblock w hp => ?_)
    fun hreturned => ?_
  · simp [hp, Proc.event] at hevent
  · unfold Proc.Returned at hreturned
    split at hreturned
    case h_4 => exact hreturned
    all_goals simp [Proc.event] at hevent

namespace Board

/-- The steps left of a process other than `i` that is inside. -/
def otherLeft (b : Board) (i : ℕ) : ℕ :=
  match b.sh.lock with
  | some (.proc j) => if j = i then 0 else (b.procs j).left b.sh.dev.dataReady
  | _ => 0

/-- The steps left of whichever process is inside. -/
def holderLeft (b : Board) : ℕ :=
  match b.sh.lock with
  | some (.proc j) => (b.procs j).left b.sh.dev.dataReady
  | _ => 0

/-- First the handler goes on, then whoever is inside, then process `i`. -/
def measure (i : ℕ) (b : Board) : ℕ ×ₗ ℕ ×ₗ ℕ :=
  toLex (b.isr.left, toLex (b.otherLeft i, (b.procs i).left b.sh.dev.dataReady))

theorem quietStep_isr {level : Int32} (hne : b.isr ≠ .idle) :
    b.quietStep (.isr level) = b.step (.isr level) :=
  if_neg hne

theorem step_of_quietStep (h : b.quietStep a = some t) : b.step a = some t := by
  cases a with
  | isr level =>
    simp only [quietStep] at h
    split_ifs at h
    exact h
  | call | proc | probe => exact h

/-- The handler goes on. -/
theorem isr_goes (hne : b.isr ≠ .idle) (hlock : b.isr = .lock → b.sh.lock = none) :
    ∃ t, b.step (.isr 0) = some t ∧ t.isr.left < b.isr.left := by
  cases hisr : b.isr with
  | idle => exact absurd hisr hne
  | lock =>
    refine ⟨{ b with sh := { b.sh with lock := some .isr }, isr := .ready }, ?_, by simp [Isr.left]⟩
    simp [step, isrStep, hisr, acquire_of_free (hlock hisr)]
  | test =>
    refine ⟨_, by simp only [step, isrStep, hisr]; rfl, ?_⟩
    split_ifs <;> simp [Isr.left]
  | ready | sample | toggle | drive | unlock | wake =>
    exact ⟨_, by simp only [step, isrStep, hisr]; rfl, by simp [Isr.left]⟩

theorem step_proc {s' : Shared} {p' : Proc} (h : procStep i b.sh (b.procs i) x = some (s', p')) :
    b.step (.proc i x) = some { b with sh := s', procs := Function.update b.procs i p' } := by
  simp [step, h]

/-- Nothing but process `i` is under way. -/
theorem measure_lt_of_self {s' : Shared} {p' : Proc} (hother : b.otherLeft i = 0)
    (hlock : s'.lock = none ∨ s'.lock = some (.proc i))
    (hleft : p'.left s'.dev.dataReady < (b.procs i).left b.sh.dev.dataReady) :
    measure i { b with sh := s', procs := Function.update b.procs i p' } < b.measure i := by
  have hother' : otherLeft { b with sh := s', procs := Function.update b.procs i p' } i = 0 := by
    unfold otherLeft
    rcases hlock with hlock | hlock <;> simp [hlock]
  refine Prod.Lex.toLex_lt_toLex.2 (Or.inr ⟨rfl, Prod.Lex.toLex_lt_toLex.2 (Or.inr ⟨?_, ?_⟩)⟩)
  · exact hother'.trans hother.symm
  · simpa using hleft

/-- Process `j` is inside, and may leave. -/
theorem measure_lt_of_other {s' : Shared} {p' : Proc} (hji : j ≠ i)
    (hlock : b.sh.lock = some (.proc j))
    (hlock' : s'.lock = none ∨ s'.lock = some (.proc j))
    (hleft : p'.left s'.dev.dataReady < (b.procs j).left b.sh.dev.dataReady) :
    measure i { b with sh := s', procs := Function.update b.procs j p' } < b.measure i := by
  refine Prod.Lex.toLex_lt_toLex.2 (Or.inr ⟨rfl, Prod.Lex.toLex_lt_toLex.2 (Or.inl ?_)⟩)
  have hother : b.otherLeft i = (b.procs j).left b.sh.dev.dataReady := by
    simp [otherLeft, hlock, hji]
  show otherLeft _ i < b.otherLeft i
  rw [hother]
  rcases hlock' with hlock' | hlock'
  · simp only [otherLeft, hlock']
    omega
  · simpa [otherLeft, hlock', hji] using hleft

theorem measure_lt_of_isr (h : t.isr.left < b.isr.left) : t.measure i < b.measure i :=
  Prod.Lex.toLex_lt_toLex.2 (Or.inl h)

end Board

/-- A process leaves the lock free, or has it. -/
theorem lock_of_move (h : ProcMove i s p s' p')
    (hlock : s.lock = none ∨ s.lock = some (.proc i)) :
    s'.lock = none ∨ s'.lock = some (.proc i) := by
  cases h with
  | read hread => cases hread <;> first | exact hlock | exact Or.inr rfl | exact Or.inl rfl
  | write hwrite => cases hwrite <;> first | exact hlock | exact Or.inr rfl | exact Or.inl rfl
  | poll hpoll => cases hpoll <;> first | exact hlock | exact Or.inr rfl | exact Or.inl rfl
  | ioctl hioctl => cases hioctl <;> first | exact hlock | exact Or.inr rfl | exact Or.inl rfl

/-- The invariant, and that process `i` does not wait in vain. -/
structure Expects (i : ℕ) (b : Board) : Prop where
  inv : CallsInv b
  awaits : (b.procs i).Waits → b.Awaits i

theorem Expects.isr_progress (h : Expects i b) (hne : b.isr ≠ .idle)
    (hlock : b.isr = .lock → b.sh.lock = none) :
    ∃ a t, a.GoesOn ∧ b.quietStep a = some t ∧ Expects i t ∧ t.measure i < b.measure i := by
  obtain ⟨t, hstep, hleft⟩ := Board.isr_goes hne hlock
  obtain ⟨hmove, hprocs, -⟩ := Board.isrStep_move hstep
  refine ⟨.isr 0, t, trivial, (Board.quietStep_isr hne).trans hstep,
    ⟨h.inv.step hstep, fun hwaits => ?_⟩, Board.measure_lt_of_isr hleft⟩
  refine (awaits_isr h.inv hmove hprocs hne).2 (h.awaits ?_)
  rw [hprocs, Board.afterIsr] at hwaits
  split_ifs at hwaits
  · exact (wake_eq _).2.1.1 hwaits
  · exact hwaits

theorem Expects.self_progress (h : Expects i b) (hgoes : (b.procs i).Goes i b.sh)
    (hother : b.otherLeft i = 0) (hlock : b.sh.lock = none ∨ b.sh.lock = some (.proc i)) :
    ∃ a t, a.GoesOn ∧ b.quietStep a = some t ∧ Expects i t ∧ t.measure i < b.measure i := by
  obtain ⟨s', p', hstep, hleft⟩ := hgoes
  have hmove := procStep_move hstep
  refine ⟨.proc i .go, _, trivial, Board.step_proc hstep,
    ⟨h.inv.step (Board.step_proc hstep), fun hwaits => ?_⟩,
    Board.measure_lt_of_self hother (lock_of_move hmove hlock) hleft⟩
  simp only [Function.update_self] at hwaits
  obtain ⟨hwaited, hready⟩ := waits_of_move hmove hwaits
  exact (awaits_self hready).2 (h.awaits hwaited)

theorem Expects.other_progress (h : Expects i b) (hji : j ≠ i)
    (hgoes : (b.procs j).Goes j b.sh) (hlock : b.sh.lock = some (.proc j)) :
    ∃ a t, a.GoesOn ∧ b.quietStep a = some t ∧ Expects i t ∧ t.measure i < b.measure i := by
  obtain ⟨s', p', hstep, hleft⟩ := hgoes
  have hmove := procStep_move hstep
  refine ⟨.proc j .go, _, trivial, Board.step_proc hstep,
    ⟨h.inv.step (Board.step_proc hstep), fun hwaits => ?_⟩,
    Board.measure_lt_of_other hji hlock (lock_of_move hmove (Or.inr hlock)) hleft⟩
  simp only [Function.update_of_ne (Ne.symm hji)] at hwaits
  exact awaits_other hji hmove hlock (h.awaits hwaits)

/-- Somebody goes on, and brings process `i` closer to its return. -/
theorem Expects.progress (h : Expects i b) (hreturned : ¬(b.procs i).Returned) :
    ∃ a t, a.GoesOn ∧ b.quietStep a = some t ∧ Expects i t ∧ t.measure i < b.measure i := by
  have hinside := h.inv.events.holds.inside_iff
  cases hlock : b.sh.lock with
  | none =>
    by_cases hisr : b.isr = .idle
    · have hready : (b.procs i).Waits → b.sh.dev.dataReady = true := by
        intro hwaits
        obtain hpc | hpc | hready := h.awaits hwaits
        · simp [hisr] at hpc
        · simp [hisr] at hpc
        · exact hready.1
      refine h.self_progress (proc_goes (Or.inl hlock) (fun hwaits _ => hready hwaits)
        (fun nonblock w hp => ?_) hreturned) (by simp [Board.otherLeft, hlock]) (Or.inl hlock)
      have hnonblock := h.inv.nonblock i
      obtain rfl : nonblock = false := by
        cases nonblock with
        | true =>
          rw [hp] at hnonblock
          exact hnonblock.elim
        | false => rfl
      have hup := hready (by rw [hp]; trivial)
      refine ⟨rfl, hup, fun hsleeps => ?_⟩
      have hpending := h.inv.events.sleeps i hsleeps hup
      rw [hisr] at hpending
      exact hpending
    · exact h.isr_progress hisr fun _ => hlock
  | some me =>
    cases me with
    | isr =>
      have hevent : b.isr.event.isSome := (hinside .isr).2 hlock
      refine h.isr_progress (fun hisr => ?_) fun hisr => ?_
      · simp [hisr, Isr.event] at hevent
      · simp [hisr, Isr.event] at hevent
    | proc j =>
      have hevent : (b.procs j).event.isSome := (hinside (.proc j)).2 hlock
      have hgoes : (b.procs j).Goes j b.sh := proc_goes_of_inside hevent (by simp [hlock])
      by_cases hji : j = i
      · subst hji
        exact h.self_progress hgoes (by simp [Board.otherLeft, hlock]) (Or.inr hlock)
      · exact h.other_progress hji hgoes hlock

theorem Expects.canReturn (h : Expects i b) :
    CanReach Board.quietStep BoardAct.GoesOn (fun t => (t.procs i).Returned) b :=
  (canReach_of_measure (Board.measure i) (fun _ hb hreturned => hb.progress hreturned) h).mono
    fun _ ht => ht.2

/-! ## Readers that cannot return -/

/-- The invariant, and that process `i` waits in vain. -/
structure Starves (i : ℕ) (b : Board) : Prop where
  inv : CallsInv b
  waits : (b.procs i).Waits
  vain : ¬b.Awaits i

theorem Starves.step (h : Starves i b) (ha : a ≠ .proc i .signal)
    (hstep : b.quietStep a = some t) : Starves i t := by
  have hinv : CallsInv t := h.inv.step (Board.step_of_quietStep hstep)
  cases a with
  | call k c =>
    obtain ⟨hidle, rfl⟩ := Board.callStep_eq hstep
    have hki : k ≠ i := by
      rintro rfl
      have hwaits := h.waits
      rcases hidle with hpc | ⟨r, stored, hpc⟩
      · rw [hpc] at hwaits
        exact hwaits
      · rw [hpc] at hwaits
        exact hwaits
    refine ⟨hinv, by simpa [Function.update_of_ne (Ne.symm hki)] using h.waits, ?_⟩
    rintro (hisr | hisr | ⟨hready, hothers⟩)
    · exact h.vain (Or.inl hisr)
    · exact h.vain (Or.inr (Or.inl hisr))
    · refine h.vain (Or.inr (Or.inr ⟨hready, fun j hji htaking => ?_⟩))
      have hj := hothers j hji
      by_cases hjk : j = k
      · subst hjk
        rcases hidle with hpc | ⟨r, stored, hpc⟩
        · rw [hpc] at htaking
          exact htaking
        · rw [hpc] at htaking
          exact htaking
      · simp only [Function.update_of_ne hjk] at hj
        exact hj htaking
  | proc k x =>
    obtain ⟨⟨s', p'⟩, hr, rfl⟩ := Option.map_eq_some_iff.1 hstep
    by_cases hki : k = i
    · subst hki
      have hx : x ≠ .signal := fun hx => ha (by rw [hx])
      obtain ⟨hready, hwaits | ⟨hevent, hup⟩⟩ := waits_step hr h.waits hx
      · exact ⟨hinv, by simpa using hwaits, fun haw => h.vain ((awaits_self hready).1 haw)⟩
      · -- It is inside, so no other reader is, and the flag is its own.
        have hlock := (h.inv.events.holds.inside_iff (.proc k)).1 hevent
        refine absurd (Or.inr (Or.inr ⟨hup, fun j hjk htaking => ?_⟩)) h.vain
        have hj := h.inv.lock_of_taking htaking
        exact hjk (by simpa using hj.symm.trans hlock)
    · exact ⟨hinv, by simpa [Function.update_of_ne (Ne.symm hki)] using h.waits,
        not_awaits_other hki (procStep_move hr) h.vain⟩
  | isr level =>
    simp only [Board.quietStep] at hstep
    split_ifs at hstep with hne
    obtain ⟨hmove, hprocs, -⟩ := Board.isrStep_move hstep
    refine ⟨hinv, ?_, fun haw => h.vain ((awaits_isr h.inv hmove hprocs hne).1 haw)⟩
    rw [hprocs, Board.afterIsr]
    split_ifs
    · exact (wake_eq _).2.1.2 h.waits
    · exact h.waits
  | probe =>
    simp only [Board.quietStep, Board.step] at hstep
    split_ifs at hstep
    cases hstep
    exact ⟨hinv, h.waits, h.vain⟩

theorem Starves.not_canReturn (h : Starves i b) :
    ¬CanReach Board.quietStep (· ≠ .proc i .signal) (fun t => (t.procs i).Returned) b := by
  rintro ⟨as, t, has, ht, hreturned⟩
  have hstarves : Starves i t := by
    refine exec_invariant (I := Starves i) (C := fun _ a _ => a ≠ .proc i .signal) ?_ h
      (everyStep_of_forall _ has) ht
    exact fun _ _ _ hu ha hstep => hu.step ha hstep
  have hwaits := hstarves.waits
  generalize t.procs i = p at hwaits hreturned
  unfold Proc.Waits at hwaits
  split at hwaits
  case h_5 => exact hwaits
  all_goals exact hreturned

/-! ## Runs -/

/-- Whichever process is inside goes on. -/
theorem holder_goes (hinv : CallsInv b) (hlock : b.sh.lock = some (.proc j)) :
    ∃ s' p', procStep j b.sh (b.procs j) .go = some (s', p') ∧
      (s'.lock = none ∨ s'.lock = some (.proc j)) ∧
      Board.holderLeft { b with sh := s', procs := Function.update b.procs j p' } <
        b.holderLeft := by
  have hevent : (b.procs j).event.isSome := (hinv.events.holds.inside_iff (.proc j)).2 hlock
  obtain ⟨s', p', hstep, hleft⟩ : (b.procs j).Goes j b.sh :=
    proc_goes_of_inside hevent (by simp [hlock])
  have hlock' := lock_of_move (procStep_move hstep) (Or.inr hlock)
  refine ⟨s', p', hstep, hlock', ?_⟩
  have hholder : b.holderLeft = (b.procs j).left b.sh.dev.dataReady := by
    simp only [Board.holderLeft, hlock]
  rw [hholder]
  rcases hlock' with hlock' | hlock'
  · simp only [Board.holderLeft, hlock']
    omega
  · simpa [Board.holderLeft, hlock'] using hleft

/-- The handler runs to its end : whichever process is inside lets it in. -/
theorem handler_ends (hinv : CallsInv b) :
    CanReach Board.quietStep BoardAct.GoesOn (fun t => CallsInv t ∧ t.isr = .idle) b := by
  refine canReach_of_measure (I := CallsInv) (fun b => toLex (b.isr.left, b.holderLeft)) ?_ hinv
  intro b hinv hne
  by_cases hproc : ∃ j, b.sh.lock = some (.proc j)
  · obtain ⟨j, hlock⟩ := hproc
    obtain ⟨s', p', hstep, -, hleft⟩ := holder_goes hinv hlock
    exact ⟨.proc j .go, _, trivial, Board.step_proc hstep, hinv.step (Board.step_proc hstep),
      Prod.Lex.toLex_lt_toLex.2 (Or.inr ⟨rfl, hleft⟩)⟩
  · have hfree (hisr : b.isr = .lock) : b.sh.lock = none := by
      cases hlock : b.sh.lock with
      | none => rfl
      | some me =>
        cases me with
        | isr =>
          have hevent : b.isr.event.isSome := (hinv.events.holds.inside_iff .isr).2 hlock
          simp [hisr, Isr.event] at hevent
        | proc j => exact absurd ⟨j, hlock⟩ hproc
    obtain ⟨t, hstep, hleft⟩ := Board.isr_goes hne hfree
    exact ⟨.isr 0, t, trivial, (Board.quietStep_isr hne).trans hstep, hinv.step hstep,
      Prod.Lex.toLex_lt_toLex.2 (Or.inl hleft)⟩

/-- A press of the button. -/
theorem press_awaits (hinv : CallsInv b) (hidle : b.isr = .idle) :
    ∃ t, b.step (.isr 1) = some t ∧ Expects i t := by
  have hstep : b.step (.isr 1) = some { b with isr := .lock } := by
    simp [Board.step, Board.isrStep, hidle]
  exact ⟨_, hstep, hinv.step hstep, fun _ => Or.inl rfl⟩

/-- Call `i` can return with exactly one more interrupt. -/
def Board.ReturnsPressed (i : ℕ) (b : Board) : Prop :=
  CanReach Board.quietStep BoardAct.GoesOn (fun t => t.isr = .idle ∧
    ∃ u, t.step (.isr 1) = some u ∧
      CanReach Board.quietStep BoardAct.GoesOn (fun v => (v.procs i).Returned) u) b

theorem returnsPressed (hinv : CallsInv b) (i : ℕ) : b.ReturnsPressed i := by
  refine (handler_ends hinv).mono ?_
  rintro t ⟨ht, hidle⟩
  obtain ⟨u, hstep, hu⟩ := press_awaits (i := i) ht hidle
  exact ⟨hidle, u, hstep, hu.canReturn⟩

/-- In every state the driver comes to, without another interrupt or a signal a call can
return unless it is a blocking read for which no event is there or about to be, and then it
cannot. With one more interrupt it can. -/
theorem calls_return (as : List BoardAct) (b : Board)
    (hrun : exec Board.step Board.init as = some b) (i : ℕ) :
    (((b.procs i).Waits → b.Awaits i) →
      CanReach Board.quietStep BoardAct.GoesOn (fun t => (t.procs i).Returned) b) ∧
    ((b.procs i).Waits → ¬b.Awaits i →
      ¬CanReach Board.quietStep (· ≠ .proc i .signal) (fun t => (t.procs i).Returned) b) ∧
    b.ReturnsPressed i := by
  have hinv : CallsInv b := exec_invariant_of_step (fun _ _ _ => CallsInv.step) callsInv_init hrun
  exact ⟨fun hawaits => Expects.canReturn ⟨hinv, hawaits⟩,
    fun hwaits hvain => Starves.not_canReturn ⟨hinv, hwaits, hvain⟩, returnsPressed hinv i⟩

/-- Two readers come for one event : the first is about to take it. -/
def twoReaders : List BoardAct :=
  [.probe] ++ List.replicate 9 (.isr 1) ++
    [.call 0 (.read false), .call 1 (.read false), .proc 0 .go, .proc 0 .go]

/-- The second cannot return until the button is used again. -/
theorem twoReaders_return : ∃ b, exec Board.step Board.init twoReaders = some b ∧
    CanReach Board.quietStep BoardAct.GoesOn (fun t => (t.procs 0).Returned) b ∧
    ¬CanReach Board.quietStep (· ≠ .proc 1 .signal) (fun t => (t.procs 1).Returned) b ∧
    b.ReturnsPressed 1 := by
  have hend : (exec Board.step Board.init twoReaders).map
      (fun b => (b.procs 0, b.procs 1, b.isr)) =
      some (.read false .take, .read false .lock, .idle) := by decide +kernel
  obtain ⟨b, hb, heq⟩ := Option.map_eq_some_iff.1 hend
  simp only [Prod.mk.injEq] at heq
  obtain ⟨hfirst, hsecond, hisr⟩ := heq
  have hvain : ¬b.Awaits 1 := by
    rintro (hpc | hpc | ⟨-, hothers⟩)
    · simp [hisr] at hpc
    · simp [hisr] at hpc
    · exact hothers 0 (by decide) (by rw [hfirst]; trivial)
  refine ⟨b, hb, (calls_return _ b hb 0).1 fun hwaits => ?_,
    (calls_return _ b hb 1).2.1 (by rw [hsecond]; trivial) hvain, (calls_return _ b hb 1).2.2⟩
  rw [hfirst] at hwaits
  exact hwaits.elim

end ProCamp
