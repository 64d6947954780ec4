import ProCamp.Hw3

/-!
# The life of a device structure

One `struct hw3` from its allocation in `hw3_probe` to its release : the set-up steps of
`hw3_probe`, the tear-down of `hw3_remove`, and around them the handler and the file
operations of `Board`. The kernel's part is in the actions : each call of `hw3_probe` can
fail, an interrupt can come as soon as `devm_request_irq` has succeeded, a file can be
opened while the misc device is registered and stays usable by whoever holds it, and the
managed resources are released after a failed probe and after remove, the interrupt
first, which waits for a running handler, and the memory last. A later probe allocates
another structure.

`uses_ready` : the handler and the file operations only use a structure that is allocated
and whose lock and wait queue are initialised, in every run where no interrupt comes
before `init_waitqueue_head` and no file is open when the memory is released. Neither
is prevented by the code (`uses_not_ready`).
-/

namespace ProCamp

open Machine

/-- Where `hw3_probe`, `hw3_remove` or the release after them is. -/
inductive Phase where
  /-- Line 201. -/
  | zalloc
  /-- Line 208. -/
  | button
  /-- Line 213. -/
  | led
  /-- Line 217. -/
  | toIrq
  /-- Line 230. -/
  | requestIrq
  /-- Lines 236 and 237. -/
  | drvdata
  /-- Line 238. -/
  | lockInit
  /-- Line 239. -/
  | waitInit
  /-- Line 245. -/
  | register
  /-- Line 249. -/
  | ledOff
  /-- `hw3_probe` has succeeded; line 259 of `hw3_remove` is next. -/
  | bound
  /-- `hw3_probe` has failed. -/
  | failed
  /-- `hw3_remove` has returned. -/
  | removed
  /-- The interrupt is released, the memory is not. -/
  | freeing
  | released
  deriving DecidableEq

/-- A structure, who holds a file of its device, and what runs in it. -/
structure Life where
  phase : Phase
  allocated : Bool
  /-- `spin_lock_init` has run. -/
  lockReady : Bool
  /-- `init_waitqueue_head` has run. -/
  waitReady : Bool
  /-- The handler is installed. -/
  irq : Bool
  /-- The misc device is registered. -/
  misc : Bool
  opened : ℕ → Bool
  board : Board

/-- One step of the driver's life, or of a file, a process or the handler in it. -/
inductive LifeAct where
  /-- The next statement of `hw3_probe`; `ok` is the outcome of the call it makes. -/
  | setup (ok : Bool)
  /-- The next step of `hw3_remove` or of the release. -/
  | teardown
  | openFile (i : ℕ)
  | close (i : ℕ)
  /-- Process `i` calls a file operation. -/
  | call (i : ℕ) (c : Call)
  | proc (i : ℕ) (x : Input)
  | isr (level : Int32)

/-- The process is inside a file operation. -/
def Proc.InCall : Proc → Prop
  | .idle | .ret _ _ => False
  | _ => True

instance (p : Proc) : Decidable p.InCall := by
  cases p <;> unfold Proc.InCall <;> infer_instance

namespace Life

/-- Before `hw3_probe`. -/
def init : Life :=
  ⟨.zalloc, false, false, false, false, false, fun _ => false, Board.init⟩

/-- The next statement of `hw3_probe`. -/
def setupStep (l : Life) (ok : Bool) : Option Life :=
  match l.phase with
  | .zalloc =>
    some (if ok then { l with phase := .button, allocated := true }
      else { l with phase := .released })
  | .button => some { l with phase := if ok then .led else .failed }
  | .led => some { l with phase := if ok then .toIrq else .failed }
  | .toIrq => some { l with phase := if ok then .requestIrq else .failed }
  | .requestIrq =>
    some (if ok then { l with phase := .drvdata, irq := true } else { l with phase := .failed })
  | .drvdata => some { l with phase := .lockInit }
  | .lockInit =>
    some { l with
      phase := .waitInit
      lockReady := true
      board := { l.board with sh := l.board.sh.release } }
  | .waitInit => some { l with phase := .register, waitReady := true }
  | .register =>
    some (if ok then { l with phase := .ledOff, misc := true } else { l with phase := .failed })
  | .ledOff => (l.board.step .probe).map fun board => { l with phase := .bound, board }
  | _ => none

/-- The next step of `hw3_remove` or of the release. -/
def teardownStep (l : Life) : Option Life :=
  match l.phase with
  | .bound => some { l with phase := .removed, misc := false }
  | .failed | .removed =>
    if l.board.isr = .idle then some { l with phase := .freeing, irq := false } else none
  | .freeing => some { l with phase := .released, allocated := false }
  | _ => none

/-- One step. -/
def step (l : Life) : LifeAct → Option Life
  | .setup ok => l.setupStep ok
  | .teardown => l.teardownStep
  | .openFile i =>
    if l.misc then some { l with opened := Function.update l.opened i true } else none
  | .close i =>
    if (l.board.procs i).InCall then none
    else some { l with opened := Function.update l.opened i false }
  | .call i c =>
    if l.opened i then (l.board.step (.call i c)).map fun board => { l with board } else none
  | .proc i x => (l.board.step (.proc i x)).map fun board => { l with board }
  | .isr level =>
    if l.board.isr = .idle ∧ l.irq = false then none
    else (l.board.step (.isr level)).map fun board => { l with board }

/-- The structure is allocated, its lock and wait queue are initialised. -/
def Ready (l : Life) : Prop :=
  l.allocated = true ∧ l.lockReady = true ∧ l.waitReady = true

end Life

/-- The next step of the process touches the structure. Copies to and from user memory
do not. -/
def Proc.Uses : Proc → Prop
  | .idle | .ret _ _ => False
  | .read _ (.copy _) | .write _ (.copy _) => False
  | .ioctl (.setGet _) | .ioctl (.put _) | .ioctl (.controlGet _) => False
  | _ => True

namespace Life

/-- The step is one of the handler or of a file operation that touches the structure. -/
def Uses (l : Life) : LifeAct → Prop
  | .isr _ => l.board.isr ≠ .idle
  | .proc i _ => (l.board.procs i).Uses
  | _ => False

/-- No interrupt comes before the lock and the wait queue are initialised, and no file is
open when the memory is released. -/
def Orderly (l : Life) : LifeAct → Prop
  | .isr _ => l.board.isr = .idle → l.lockReady = true ∧ l.waitReady = true
  | .teardown => l.phase = .freeing → ∀ i, l.opened i = false
  | _ => True

/-! ## The invariant -/

/-- What each phase has set up. -/
def PhaseOk (l : Life) : Prop :=
  match l.phase with
  | .zalloc | .released => l.misc = false ∧ l.irq = false
  | .button | .led | .toIrq | .requestIrq | .drvdata | .lockInit | .failed | .removed =>
    l.allocated = true ∧ l.misc = false
  | .waitInit => l.allocated = true ∧ l.lockReady = true ∧ l.misc = false
  | .register => l.Ready ∧ l.misc = false
  | .ledOff | .bound => l.Ready
  | .freeing => l.misc = false ∧ l.irq = false

/-- Whoever can use the structure finds it ready. -/
structure Inv (l : Life) : Prop where
  phase : l.PhaseOk
  inCall : ∀ i, (l.board.procs i).InCall → l.opened i = true
  opened : ∀ i, l.opened i = true → l.Ready
  misc : l.misc = true → l.Ready
  irq : l.irq = true → l.allocated = true
  isr : l.board.isr ≠ .idle → l.irq = true ∧ l.Ready

variable {l m : Life} {b t : Board} {a : LifeAct} {i : ℕ}

theorem inv_init : Inv init where
  phase := ⟨rfl, rfl⟩
  inCall _ h := h.elim
  opened _ h := nomatch h
  misc h := nomatch h
  irq h := nomatch h
  isr h := absurd rfl h

/-- The processes and the handler are where they were. -/
theorem Inv.of_board (hinv : Inv l) (hphase : m.PhaseOk)
    (hprocs : m.board.procs = l.board.procs) (hisr : m.board.isr = l.board.isr)
    (hopened : m.opened = l.opened) (hready : l.Ready → m.Ready)
    (hmisc : m.misc = true → m.Ready) (hirq : m.irq = true → m.allocated = true)
    (hirq' : l.irq = true → m.irq = true) : Inv m where
  phase := hphase
  inCall i hi := hopened ▸ hinv.inCall i (hprocs ▸ hi)
  opened i hi := hready (hinv.opened i (hopened ▸ hi))
  misc := hmisc
  irq := hirq
  isr hne := by
    obtain ⟨h, h'⟩ := hinv.isr (hisr ▸ hne)
    exact ⟨hirq' h, hready h'⟩

theorem inv_setup {ok : Bool} (hinv : l.Inv) (h : l.setupStep ok = some m) : m.Inv := by
  have hphase := hinv.phase
  unfold setupStep at h
  unfold PhaseOk at hphase
  split at h
  case h_1 hpc =>
    simp only [hpc] at hphase
    obtain ⟨hmisc, hirq⟩ := hphase
    cases ok <;> cases h
    · exact hinv.of_board ⟨hmisc, hirq⟩ rfl rfl rfl id hinv.misc hinv.irq id
    · exact hinv.of_board ⟨rfl, hmisc⟩ rfl rfl rfl (fun hr => ⟨rfl, hr.2⟩)
        (fun h => absurd h (by simp [hmisc])) (fun _ => rfl) id
  case h_5 hpc =>
    simp only [hpc] at hphase
    cases ok <;> cases h
    · exact hinv.of_board hphase rfl rfl rfl id hinv.misc hinv.irq id
    · exact hinv.of_board hphase rfl rfl rfl id hinv.misc (fun _ => hphase.1) fun _ => rfl
  case h_7 hpc =>
    simp only [hpc] at hphase
    cases h
    exact hinv.of_board ⟨hphase.1, rfl, hphase.2⟩ rfl rfl rfl (fun hr => ⟨hr.1, rfl, hr.2.2⟩)
      (fun h => absurd h (by simp [hphase.2])) hinv.irq id
  case h_8 hpc =>
    simp only [hpc] at hphase
    obtain ⟨halloc, hlock, hmisc⟩ := hphase
    cases h
    exact hinv.of_board ⟨⟨halloc, hlock, rfl⟩, hmisc⟩ rfl rfl rfl (fun hr => ⟨hr.1, hr.2.1, rfl⟩)
      (fun h => absurd h (by simp [hmisc])) hinv.irq id
  case h_9 hpc =>
    simp only [hpc] at hphase
    obtain ⟨hready, hmisc⟩ := hphase
    cases ok <;> cases h
    · exact hinv.of_board ⟨hready.1, hmisc⟩ rfl rfl rfl id hinv.misc hinv.irq id
    · exact hinv.of_board hready rfl rfl rfl id (fun _ => hready) hinv.irq id
  case h_10 hpc =>
    simp only [hpc] at hphase
    obtain ⟨board, hboard, rfl⟩ := Option.map_eq_some_iff.1 h
    simp only [Board.step] at hboard
    split_ifs at hboard
    cases hboard
    exact hinv.of_board hphase rfl rfl rfl id hinv.misc hinv.irq id
  case h_11 => cases h
  all_goals
    rename_i hpc
    simp only [hpc] at hphase
    cases ok <;> cases h <;> exact hinv.of_board hphase rfl rfl rfl id hinv.misc hinv.irq id

/-- No interrupt or file operation is left once the interrupt is released and no file is
open. -/
theorem inv_teardown (hinv : l.Inv) (hclosed : l.phase = .freeing → ∀ i, l.opened i = false)
    (h : l.teardownStep = some m) : m.Inv := by
  have hphase := hinv.phase
  unfold teardownStep at h
  unfold PhaseOk at hphase
  have hfree : l.allocated = true ∧ l.misc = false → l.board.isr = .idle →
      some { l with phase := .freeing, irq := false } = some m → m.Inv := by
    rintro ⟨-, hmisc⟩ hidle heq
    cases heq
    exact ⟨⟨hmisc, rfl⟩, hinv.inCall, hinv.opened, hinv.misc, fun h => (nomatch h),
      fun hne => absurd hidle hne⟩
  split at h
  case h_1 hpc =>
    simp only [hpc] at hphase
    cases h
    exact hinv.of_board ⟨hphase.1, rfl⟩ rfl rfl rfl id (fun h => nomatch h) hinv.irq id
  case h_2 hpc | h_3 hpc =>
    simp only [hpc] at hphase
    split_ifs at h with hidle
    exact hfree hphase hidle h
  case h_4 hpc =>
    simp only [hpc] at hphase
    obtain ⟨hmisc, hirq⟩ := hphase
    have hclosed := hclosed hpc
    cases h
    exact ⟨⟨hmisc, hirq⟩, hinv.inCall, fun i hi => absurd hi (by simp [hclosed i]),
      fun h => absurd h (by simp [hmisc]), fun h => absurd h (by simp [hirq]),
      fun hne => absurd (hinv.isr hne).1 (by simp [hirq])⟩
  case h_5 => cases h

theorem inCall_wake (p : Proc) : p.wake.InCall ↔ p.InCall := by
  unfold Proc.wake
  split <;> rfl

theorem inCall_of_procMove {s s' : Shared} {p p' : Proc} (h : ProcMove i s p s' p') :
    p.InCall := by
  cases h <;> trivial

/-- A process gets inside a file operation by calling it. -/
theorem inCall_step {y : BoardAct} {j : ℕ} (h : b.step y = some t) (hj : (t.procs j).InCall) :
    (b.procs j).InCall ∨ ∃ c, y = .call j c := by
  rcases Board.step_cases h with ⟨i, c, rfl, -, rfl⟩ | ⟨i, x, s', p', rfl, hmove, rfl⟩ |
    ⟨level, rfl, -, hprocs, -⟩ | ⟨rfl, -, rfl⟩
  · rcases eq_or_ne j i with rfl | hne
    · exact Or.inr ⟨c, rfl⟩
    · exact Or.inl (by simpa [Function.update_of_ne hne] using hj)
  · rcases eq_or_ne j i with rfl | hne
    · exact Or.inl (inCall_of_procMove hmove)
    · exact Or.inl (by simpa [Function.update_of_ne hne] using hj)
  · rw [hprocs, Board.afterIsr] at hj
    split_ifs at hj
    · exact Or.inl ((inCall_wake _).1 hj)
    · exact Or.inl hj
  · exact Or.inl hj

/-- A step of the board leaves the handler alone unless it is the handler's. -/
theorem isr_step {y : BoardAct} (h : b.step y = some t) (hy : ∀ level, y ≠ .isr level) :
    t.isr = b.isr := by
  rcases Board.step_cases h with ⟨i, c, rfl, -, rfl⟩ | ⟨i, x, s', p', rfl, -, rfl⟩ |
    ⟨level, rfl, -⟩ | ⟨rfl, -, rfl⟩
  · rfl
  · rfl
  · exact absurd rfl (hy level)
  · rfl

/-- A step of the board that calls only through open files and enters the handler only on
a ready structure. -/
theorem Inv.board {y : BoardAct} (hinv : l.Inv) (h : l.board.step y = some t)
    (hcall : ∀ i c, y = .call i c → l.opened i = true)
    (hisr : ∀ level, y = .isr level → l.irq = true ∧ l.Ready) :
    Inv { l with board := t } where
  phase := hinv.phase
  inCall i hi := by
    rcases inCall_step h hi with hi | ⟨c, rfl⟩
    · exact hinv.inCall i hi
    · exact hcall i c rfl
  opened := hinv.opened
  misc := hinv.misc
  irq := hinv.irq
  isr hne := by
    by_cases hy : ∃ level, y = .isr level
    · obtain ⟨level, rfl⟩ := hy
      exact hisr level rfl
    · refine hinv.isr ?_
      rwa [← isr_step h fun level hlevel => hy ⟨level, hlevel⟩]

theorem inv_step (hinv : l.Inv) (horderly : l.Orderly a) (h : l.step a = some m) : m.Inv := by
  cases a with
  | setup ok => exact inv_setup hinv h
  | teardown => exact inv_teardown hinv horderly h
  | openFile i =>
    simp only [step] at h
    split_ifs at h with hmisc
    cases h
    refine ⟨hinv.phase, fun j hj => ?_, ?_, hinv.misc, hinv.irq, hinv.isr⟩
    · rcases eq_or_ne j i with rfl | hne
      · exact Function.update_self ..
      · exact (Function.update_of_ne hne _ _).trans (hinv.inCall j hj)
    · refine (Function.forall_update_iff _ fun _ v => v = true → l.Ready).2 ⟨fun _ => ?_, ?_⟩
      · exact hinv.misc hmisc
      · exact fun j _ hj => hinv.opened j hj
  | close i =>
    simp only [step] at h
    split_ifs at h with hcall
    cases h
    refine ⟨hinv.phase, fun j hj => ?_, ?_, hinv.misc, hinv.irq, hinv.isr⟩
    · have hne : j ≠ i := fun heq => hcall (heq ▸ hj)
      exact (Function.update_of_ne hne _ _).trans (hinv.inCall j hj)
    · refine (Function.forall_update_iff _ fun _ v => v = true → l.Ready).2 ⟨fun hv => ?_, ?_⟩
      · cases hv
      · exact fun j _ hj => hinv.opened j hj
  | call i c =>
    simp only [step] at h
    split_ifs at h with hopen
    obtain ⟨board, hboard, rfl⟩ := Option.map_eq_some_iff.1 h
    refine hinv.board hboard (fun j c' heq => ?_) fun level heq => nomatch heq
    cases heq
    exact hopen
  | proc i x =>
    obtain ⟨board, hboard, rfl⟩ := Option.map_eq_some_iff.1 h
    exact hinv.board hboard (fun j c heq => nomatch heq) fun level heq => nomatch heq
  | isr level =>
    simp only [step] at h
    split_ifs at h with hguard
    obtain ⟨board, hboard, rfl⟩ := Option.map_eq_some_iff.1 h
    refine hinv.board hboard (fun j c heq => nomatch heq) fun _ _ => ?_
    by_cases hidle : l.board.isr = .idle
    · have hirq : l.irq = true := by simpa [hidle] using hguard
      exact ⟨hirq, hinv.irq hirq, horderly hidle⟩
    · exact hinv.isr hidle

theorem inCall_of_uses {p : Proc} (h : p.Uses) : p.InCall := by
  cases p with
  | idle => exact h
  | ret r stored => exact h
  | _ => trivial

/-- Whoever uses the structure finds it ready. -/
theorem Inv.ready_of_uses (hinv : l.Inv) (h : l.Uses a) : l.Ready := by
  cases a with
  | isr level => exact (hinv.isr h).2
  | proc i x => exact hinv.opened i (hinv.inCall i (inCall_of_uses h))
  | _ => exact h.elim

/-- In every orderly run, every step of the handler or of a file operation that touches
the structure finds it allocated, with its lock and wait queue initialised. -/
theorem uses_ready {as : List LifeAct}
    (horderly : EveryStep step (fun l a _ => l.Orderly a) init as) :
    EveryStep step (fun l a _ => l.Uses a → l.Ready) init as := by
  refine everyStep_of_invariant (I := Inv) (fun l a m hinv ho hstep => ?_) inv_init horderly
  exact ⟨inv_step hinv ho hstep, fun huses => hinv.ready_of_uses huses⟩

/-- Every call of `hw3_probe` succeeds. -/
def setupRun : List LifeAct :=
  List.replicate 10 (.setup true)

/-- A step of the handler sets nothing up. -/
theorem isr_frame {level : Int32} (h : l.step (.isr level) = some m) :
    m.lockReady = l.lockReady ∧ m.waitReady = l.waitReady := by
  simp only [step] at h
  split_ifs at h
  obtain ⟨board, -, rfl⟩ := Option.map_eq_some_iff.1 h
  exact ⟨rfl, rfl⟩

/-- An interrupt after the probe : the handler takes an initialised lock. -/
theorem uses_ready_after_probe :
    ∃ l, exec step init (setupRun ++ [.isr 1]) = some l ∧ l.Uses (.isr 1) ∧ l.Ready := by
  have hsetup : ∀ t, exec step init setupRun = some t →
      t.lockReady = true ∧ t.waitReady = true := by
    have hend : (exec step init setupRun).map (fun t => (t.lockReady, t.waitReady)) =
        some (true, true) := by decide +kernel
    intro t ht
    simpa [ht] using hend
  have horderly : EveryStep step (fun l a _ => l.Orderly a) init
      (setupRun ++ [.isr 1, .isr 1]) := by
    have hact : ∀ a ∈ setupRun, ∀ l : Life, l.Orderly a := by simp [setupRun, Orderly]
    refine everyStep_append.2 ⟨(everyStep_of_forall _ hact).mono fun l a _ ha => ha l, ?_⟩
    refine fun t ht u hu => ⟨fun _ => hsetup t ht, fun v _ => ⟨fun _ => ?_, trivial⟩⟩
    obtain ⟨hlock, hwait⟩ := isr_frame hu
    rw [hlock, hwait]
    exact hsetup t ht
  have hend : ((exec step init (setupRun ++ [.isr 1])).bind fun l => (l.step (.isr 1)).map
      fun _ => l.board.isr) = some .lock := by decide +kernel
  obtain ⟨l, hl, hstep⟩ := Option.bind_eq_some_iff.1 hend
  obtain ⟨m, hm, hpc⟩ := Option.map_eq_some_iff.1 hstep
  have huses : l.Uses (.isr 1) := by
    show l.board.isr ≠ .idle
    rw [hpc]
    decide
  refine ⟨l, hl, huses, ?_⟩
  have hsplit : setupRun ++ [.isr 1, .isr 1] = (setupRun ++ [.isr 1]) ++ LifeAct.isr 1 :: [] := by
    simp
  exact everyStep_iff.1 (uses_ready horderly) _ _ _ l m hsplit hl hm huses

/-- The file of process 0 is open when the device is removed, and it reads afterwards. -/
def readAfterRemove : List LifeAct :=
  setupRun ++ [.openFile 0, .teardown, .teardown, .teardown, .call 0 (.read true)]

/-- An interrupt right after `devm_request_irq` makes the handler take a lock that is not
initialised, and a read through a file opened before `misc_deregister` takes the lock of a
released structure. -/
theorem uses_not_ready :
    (∃ l m, exec step init (List.replicate 5 (.setup true) ++ [.isr 1]) = some l ∧
      l.step (.isr 1) = some m ∧ l.Uses (.isr 1) ∧ l.lockReady = false) ∧
    ∃ l m, exec step init readAfterRemove = some l ∧ l.step (.proc 0 .go) = some m ∧
      l.Uses (.proc 0 .go) ∧ l.allocated = false := by
  constructor
  · have hend : ((exec step init (List.replicate 5 (.setup true) ++ [.isr 1])).bind fun l =>
        (l.step (.isr 1)).map fun _ => (l.board.isr, l.lockReady)) = some (.lock, false) := by
      decide +kernel
    obtain ⟨l, hl, hstep⟩ := Option.bind_eq_some_iff.1 hend
    obtain ⟨m, hm, heq⟩ := Option.map_eq_some_iff.1 hstep
    simp only [Prod.mk.injEq] at heq
    exact ⟨l, m, hl, hm, by simp [Uses, heq.1], heq.2⟩
  · have hend : ((exec step init readAfterRemove).bind fun l =>
        (l.step (.proc 0 .go)).map fun _ => (l.board.procs 0, l.allocated)) =
        some (.read true .lock, false) := by decide +kernel
    obtain ⟨l, hl, hstep⟩ := Option.bind_eq_some_iff.1 hend
    obtain ⟨m, hm, heq⟩ := Option.map_eq_some_iff.1 hstep
    simp only [Prod.mk.injEq] at heq
    exact ⟨l, m, hl, hm, by simp [Uses, heq.1, Proc.Uses], heq.2⟩

/-- An interrupt that is not orderly does use the structure too early : at its first
statement. -/
theorem uses_of_early_interrupt {level : Int32} (h : l.step (.isr level) = some m)
    (hearly : ¬l.Orderly (.isr level)) : m.Uses (.isr level) ∧ ¬m.Ready := by
  obtain ⟨hidle, hnot⟩ := Classical.not_imp.1 hearly
  obtain ⟨hlock, hwait⟩ := isr_frame h
  refine ⟨?_, fun hready => hnot ?_⟩
  · simp only [step] at h
    split_ifs at h
    obtain ⟨board, hboard, rfl⟩ := Option.map_eq_some_iff.1 h
    have hpc : board = { l.board with isr := .lock } := by
      simpa [Board.step, Board.isrStep, hidle, eq_comm] using hboard
    simp [Uses, hpc]
  · rw [← hlock, ← hwait]
    exact hready.2

/-- A file left open when the memory is released does reach the released structure : its
holder need only read. -/
theorem uses_of_open_file (h : l.step .teardown = some m) (hphase : l.phase = .freeing)
    (hopen : l.opened i = true) (hout : l.board.procs i = .idle) :
    ∃ u, m.step (.call i (.read true)) = some u ∧ u.Uses (.proc i .go) ∧ ¬u.Ready := by
  have hm : m = { l with phase := .released, allocated := false } := by
    simpa [step, teardownStep, hphase, eq_comm] using h
  refine ⟨{ m with board := { m.board with
    procs := Function.update m.board.procs i (.read true .lock) } }, ?_, ?_, ?_⟩
  · simp [hm, step, hopen, Board.step, Board.callStep, hout, Call.start]
  · simp [Uses, Proc.Uses]
  · simp [Ready, hm]

end Life

end ProCamp
