import ProCamp.CyclicBuffer
import ProCamp.Hw3

/-!
# The application

Any number of instances of `HW16/module3/hw3-app.c` on one driver. A step is a step of
the driver, in a call of an instance or in the interrupt handler, or an instance going on
by itself : it enters a call, or takes up what a call returned and runs up to the next
one.

An instance tests `buf[0]` after every read, also after one that failed, and a failed
read leaves the buffer as it was : the last event, the text of its last write, or what
was on the stack. `toggles_iff` says when this goes well.
-/

namespace ProCamp

open CyclicBuffer Machine

/-- `COUNT`. -/
def appCount : ℕ := 20

/-- An instance, with the line it is about to run or the call it is in. -/
inductive AppPc where
  /-- Line 34. -/
  | control
  /-- In the `ioctl` of line 34. -/
  | controlling
  /-- Line 39. -/
  | getLed
  /-- In the `ioctl` of line 39. -/
  | gettingLed
  /-- Line 45, in round `k`. -/
  | poll (k : ℕ)
  /-- In the `poll` of line 45. -/
  | polling (k : ℕ)
  /-- Line 58. -/
  | read (k : ℕ)
  /-- In the `read` of line 58. -/
  | reading (k : ℕ)
  /-- Line 69. -/
  | write (k : ℕ)
  /-- In the `write` of line 69. -/
  | writing (k : ℕ)
  /-- Line 74. -/
  | release
  /-- In the `ioctl` of line 74. -/
  | releasing
  /-- Line 77. -/
  | exit
  deriving DecidableEq

/-- What an instance did : a read with the character it returned, a toggle of `led_on`, a
write. -/
inductive AppEvent where
  | read (res : Option UInt8)
  | toggle
  | write
  deriving DecidableEq

/-- The variables of `main`. The log is history, the latest event last. -/
structure App where
  pc : AppPc
  ledOn : Int32
  buf : ℕ → UInt8
  log : List AppEvent

/-- The driver and the instances, each the process of its number. -/
structure AppSystem where
  board : Board
  apps : ℕ → App

/-- One step. -/
inductive AppAct where
  /-- Instance `i` goes on. -/
  | app (i : ℕ)
  /-- The `poll` of instance `i` times out or is interrupted. -/
  | pollFails (i : ℕ)
  /-- The driver goes on in the call of instance `i`. -/
  | proc (i : ℕ)
  /-- The interrupt handler; `level` is what the button line shows. -/
  | isr (level : Int32)
  /-- The last statement of `hw3_probe`. -/
  | probe

/-! ## The program -/

/-- The text of `%d`. -/
def decimal (v : Int32) : List UInt8 :=
  (if v < 0 then [45] else []) ++
    (Nat.toDigits 10 v.toInt.natAbs).map fun c => UInt8.ofNat c.toNat

/-- `sprintf(buf, "%d", led_on)`. -/
def sprintf (buf : ℕ → UInt8) (ledOn : Int32) : ℕ → UInt8 :=
  store buf 0 (decimal ledOn ++ [0])

/-- The buffer after a call that stored `stored`. -/
def UserStore.put (stored : UserStore) (buf : ℕ → UInt8) : ℕ → UInt8 :=
  match stored with
  | .bytes text => store buf 0 text
  | .none | .int _ => buf

/-- The character a read returned, `none` if it failed. -/
def readResult (r : ℤ) (stored : UserStore) : Option UInt8 :=
  if r < 0 then none
  else
    match stored with
    | .bytes text => text.head?
    | .none | .int _ => none

/-- Where round `k` leads. -/
def AppPc.next (k : ℕ) : AppPc :=
  if k + 1 < appCount then .poll (k + 1) else .release

/-- Lines 58 to 68, once the read has returned `r`. -/
def App.handle (app : App) (k : ℕ) (r : ℤ) (stored : UserStore) : App :=
  let buf := stored.put app.buf
  if buf 0 = 48 then
    { pc := .write k
      ledOn := app.ledOn ^^^ 1
      buf := sprintf buf (app.ledOn ^^^ 1)
      log := app.log ++ [.read (readResult r stored), .toggle] }
  else
    { app with pc := .next k, buf := buf, log := app.log ++ [.read (readResult r stored)] }

namespace AppSystem

/-- Every instance at line 34, with whatever is in its uninitialised variables. -/
def start (ledOn : ℕ → Int32) (buf : ℕ → ℕ → UInt8) : AppSystem where
  board := Board.init
  apps i := ⟨.control, ledOn i, buf i, []⟩

/-- `s` with instance `i` as `app`. -/
def setApp (s : AppSystem) (i : ℕ) (app : App) : AppSystem :=
  { s with apps := Function.update s.apps i app }

/-- A step of the driver. -/
def driver (s : AppSystem) (a : BoardAct) : Option AppSystem :=
  (s.board.step a).map fun board => { s with board := board }

/-- Instance `i` enters a call and becomes `app`. -/
def enter (s : AppSystem) (i : ℕ) (c : Call) (app : App) : Option AppSystem :=
  (s.setApp i app).driver (.call i c)

/-- One step of instance `i`. -/
def appStep (s : AppSystem) (i : ℕ) : Option AppSystem :=
  let app := s.apps i
  match app.pc, s.board.procs i with
  | .control, _ => s.enter i (.ioctl .kernControl 0) { app with pc := .controlling }
  | .controlling, .ret r _ =>
    some (s.setApp i { app with pc := if r < 0 then .exit else .getLed })
  | .getLed, _ => s.enter i (.ioctl .getLed 0) { app with pc := .gettingLed }
  | .gettingLed, .ret _ (.int val) => some (s.setApp i { app with pc := .poll 0, ledOn := val })
  | .gettingLed, .ret _ _ => some (s.setApp i { app with pc := .poll 0 })
  | .poll k, _ => s.enter i .poll { app with pc := .polling k }
  | .polling k, .poll (.polled mask _) =>
    if mask &&& epollIn ≠ 0 then
      (s.setApp i { app with pc := .read k }).driver (.proc i .signal)
    else none
  | .read k, _ => s.enter i (.read true) { app with pc := .reading k }
  | .reading k, .ret r stored => some (s.setApp i (app.handle k r stored))
  | .write k, _ =>
    s.enter i (.write (.ofFn fun j => app.buf j) 2)
      { app with pc := .writing k, log := app.log ++ [.write] }
  | .writing k, .ret _ _ => some (s.setApp i { app with pc := .next k })
  | .release, _ => s.enter i (.ioctl .kernControl 1) { app with pc := .releasing }
  | .releasing, .ret _ _ => some (s.setApp i { app with pc := .exit })
  | _, _ => none

/-- A `poll` that has found nothing returns without an event, and `main` gives up. -/
def pollFailsStep (s : AppSystem) (i : ℕ) : Option AppSystem :=
  match (s.apps i).pc, s.board.procs i with
  | .polling _, .poll (.polled 0 _) =>
    (s.setApp i { s.apps i with pc := .exit }).driver (.proc i .signal)
  | _, _ => none

/-- One step. -/
def step (s : AppSystem) : AppAct → Option AppSystem
  | .app i => s.appStep i
  | .pollFails i => s.pollFailsStep i
  | .proc i => s.driver (.proc i .go)
  | .isr level => s.driver (.isr level)
  | .probe => s.driver .probe

end AppSystem

/-! ## What the reads call for -/

/-- The results of the reads of a log. -/
def readsOf (log : List AppEvent) : List (Option UInt8) :=
  log.filterMap fun
    | .read res => some res
    | .toggle | .write => none

/-- A toggle and a write after each read that returned `'0'`, and nothing else. -/
def calledFor (reads : List (Option UInt8)) : List AppEvent :=
  (reads.map fun res =>
    if res = some 48 then [.read res, .toggle, .write] else [.read res]).flatten

/-- The write an instance is about to make. -/
def AppPc.due : AppPc → List AppEvent
  | .write _ => [.write]
  | _ => []

/-- The instance has toggled `led_on` once, and written or is about to write once, for each
of its reads that returned `'0'`, in their order, and has done so for no other read. -/
def App.Faithful (app : App) : Prop :=
  app.log ++ app.pc.due = calledFor (readsOf app.log)

theorem readsOf_append (log log' : List AppEvent) :
    readsOf (log ++ log') = readsOf log ++ readsOf log' :=
  List.filterMap_append

theorem calledFor_snoc (reads : List (Option UInt8)) (res : Option UInt8) :
    calledFor (reads ++ [res]) = calledFor reads ++
      if res = some 48 then [.read res, .toggle, .write] else [.read res] := by
  simp [calledFor]

namespace AppSystem

/-- A read that failed leaves the instance with something else than `'0'` in `buf[0]`. -/
def FailsClean (s : AppSystem) (a : AppAct) : Prop :=
  ∀ i k r stored, a = .app i → (s.apps i).pc = .reading k → s.board.procs i = .ret r stored →
    readResult r stored = none → stored.put (s.apps i).buf 0 ≠ 48

variable {s t : AppSystem} {i k : ℕ} {r : ℤ} {stored : UserStore} {app app' : App}

/-- What a step does to one instance. -/
inductive AppMove (s : AppSystem) (i : ℕ) : App → Prop
  | quiet {app : App} (hlog : app.log = (s.apps i).log) (hdue : (s.apps i).pc.due = [])
      (hdue' : app.pc.due = []) (hread : ∀ k, (s.apps i).pc ≠ .reading k) : AppMove s i app
  | handle {k : ℕ} {r : ℤ} {stored : UserStore} (hpc : (s.apps i).pc = .reading k)
      (hret : s.board.procs i = .ret r stored) : AppMove s i ((s.apps i).handle k r stored)
  | write {k : ℕ} (hpc : (s.apps i).pc = .write k) :
      AppMove s i { s.apps i with pc := .writing k, log := (s.apps i).log ++ [.write] }

theorem driver_apps {a : BoardAct} (h : s.driver a = some t) : t.apps = s.apps := by
  obtain ⟨board, -, rfl⟩ := Option.map_eq_some_iff.1 h
  rfl

@[simp] theorem due_next (k : ℕ) : (AppPc.next k).due = [] := by
  unfold AppPc.next
  split_ifs <;> rfl

/-- A step of instance `i` moves it and no other. -/
theorem appStep_move (h : s.appStep i = some t) :
    AppMove s i (t.apps i) ∧ ∀ j, j ≠ i → t.apps j = s.apps j := by
  have hset : ∀ app, (s.setApp i app).apps i = app := fun _ => Function.update_self _ _ _
  have hother : ∀ app j, j ≠ i → (s.setApp i app).apps j = s.apps j := fun _ _ hj =>
    Function.update_of_ne hj _ _
  suffices ∃ app, t.apps = (s.setApp i app).apps ∧ AppMove s i app by
    obtain ⟨app, happs, hmove⟩ := this
    rw [happs, hset]
    exact ⟨hmove, hother app⟩
  unfold appStep at h
  dsimp only at h
  split at h
  case h_9 k r stored hpc hret =>
    cases h
    exact ⟨_, rfl, .handle hpc hret⟩
  case h_10 k hpc => exact ⟨_, driver_apps h, .write hpc⟩
  case h_7 k mask _ hpc hret =>
    split_ifs at h
    exact ⟨_, driver_apps h, .quiet rfl (by rw [hpc]; rfl) rfl (by simp [hpc])⟩
  case h_1 hpc | h_3 hpc | h_6 k hpc | h_8 k hpc | h_12 hpc =>
    exact ⟨_, driver_apps h, .quiet rfl (by rw [hpc]; rfl) rfl (by simp [hpc])⟩
  case h_2 r _ hpc hret =>
    cases h
    refine ⟨_, rfl, .quiet rfl (by rw [hpc]; rfl) ?_ (by simp [hpc])⟩
    by_cases hr : r < 0 <;> simp [hr, AppPc.due]
  case h_11 k r _ hpc hret =>
    cases h
    exact ⟨_, rfl, .quiet rfl (by rw [hpc]; rfl) (due_next k) (by simp [hpc])⟩
  case h_4 hpc hret | h_5 hpc hret | h_13 hpc hret =>
    cases h
    exact ⟨_, rfl, .quiet rfl (by rw [hpc]; rfl) rfl (by simp [hpc])⟩
  case h_14 => cases h

/-- What an instance finds in `buf[0]` after a read that succeeded. -/
theorem put_of_readResult {c : UInt8} (buf : ℕ → UInt8) (h : readResult r stored = some c) :
    stored.put buf 0 = c := by
  unfold readResult at h
  split_ifs at h
  cases stored with
  | bytes text =>
    obtain ⟨rest, rfl⟩ : ∃ rest, text = c :: rest := by
      cases text with
      | nil => cases h
      | cons c' rest => cases h; exact ⟨rest, rfl⟩
    rfl
  | none => cases h
  | int => cases h

/-- Taking up a read keeps the law exactly if a failed one has not left a `'0'` behind. -/
theorem faithful_handle_iff (hpc : app.pc = .reading k) (h : app.Faithful) :
    (app.handle k r stored).Faithful ↔
      (readResult r stored = none → stored.put app.buf 0 ≠ 48) := by
  have hlog : app.log = calledFor (readsOf app.log) := by
    simpa [App.Faithful, AppPc.due, hpc] using h
  by_cases h48 : stored.put app.buf 0 = 48
  · have hres : (readResult r stored = none → stored.put app.buf 0 ≠ 48) ↔
        readResult r stored = some 48 := by
      cases hres : readResult r stored with
      | none => simp [h48]
      | some c => simpa [put_of_readResult app.buf hres] using h48
    rw [hres]
    simp only [App.Faithful, App.handle, if_pos h48, AppPc.due, readsOf_append]
    rw [show readsOf [.read (readResult r stored), .toggle] = [readResult r stored] from rfl,
      calledFor_snoc, ← hlog, List.append_assoc, List.append_cancel_left_eq]
    split_ifs with hsome <;> simp [hsome]
  · have hne : readResult r stored ≠ some 48 := fun hsome => h48 (put_of_readResult _ hsome)
    simp only [App.Faithful, App.handle, if_neg h48, due_next, readsOf_append, List.append_nil]
    rw [show readsOf [.read (readResult r stored)] = [readResult r stored] from rfl,
      calledFor_snoc, ← hlog, if_neg hne]
    simp [h48]

/-- A step keeps the law exactly if it is no failed read that leaves a `'0'` behind. -/
theorem faithful_appStep_iff (h : ∀ i, (s.apps i).Faithful) (hstep : s.appStep i = some t) :
    (∀ j, (t.apps j).Faithful) ↔ s.FailsClean (.app i) := by
  obtain ⟨hmove, hother⟩ := appStep_move hstep
  have hi := h i
  have hall : (∀ j, (t.apps j).Faithful) ↔ (t.apps i).Faithful := by
    refine ⟨fun hall => hall i, fun hti j => ?_⟩
    by_cases hji : j = i
    · exact hji ▸ hti
    · exact hother j hji ▸ h j
  rw [hall]
  generalize t.apps i = app at hmove
  cases hmove with
  | quiet hlog hdue hdue' hread =>
    refine iff_of_true ?_ ?_
    · rw [App.Faithful, hdue, List.append_nil] at hi
      rwa [App.Faithful, hdue', hlog, List.append_nil]
    · rintro j k r stored hj hpc
      obtain rfl : i = j := by simpa using hj
      exact absurd hpc (hread k)
  | @handle k r stored hpc hret =>
    rw [faithful_handle_iff hpc hi]
    constructor
    · intro hclean j k' r' stored' hj hpc' hret'
      obtain rfl : i = j := by simpa using hj
      obtain ⟨rfl, rfl⟩ : r = r' ∧ stored = stored' := by simpa [hret] using hret'
      exact hclean
    · exact fun hclean => hclean i k r stored rfl hpc hret
  | write hpc =>
    refine iff_of_true ?_ ?_
    · rw [App.Faithful, hpc, AppPc.due] at hi
      simpa [App.Faithful, AppPc.due, readsOf_append, show readsOf [.write] = [] from rfl] using hi
    · rintro j k r stored hj hpc'
      obtain rfl : i = j := by simpa using hj
      simp [hpc] at hpc'

theorem faithful_pollFailsStep (h : ∀ i, (s.apps i).Faithful) (hstep : s.pollFailsStep i = some t) :
    ∀ j, (t.apps j).Faithful := by
  unfold pollFailsStep at hstep
  split at hstep
  case h_1 k _ hpc hret =>
    intro j
    rw [driver_apps hstep, setApp]
    by_cases hji : j = i
    · subst hji
      simpa [App.Faithful, AppPc.due, hpc] using h j
    · simpa [Function.update_of_ne hji] using h j
  case h_2 => cases hstep

theorem faithful_step_iff {a : AppAct} (h : ∀ i, (s.apps i).Faithful) (hstep : s.step a = some t) :
    (∀ i, (t.apps i).Faithful) ↔ s.FailsClean a := by
  cases a with
  | app i => exact faithful_appStep_iff h hstep
  | pollFails i => exact iff_of_true (faithful_pollFailsStep h hstep) fun _ _ _ _ ha => nomatch ha
  | proc | isr | probe =>
    refine iff_of_true (fun j => ?_) fun _ _ _ _ ha => nomatch ha
    rw [driver_apps hstep]
    exact h j

/-- For any number of instances, whatever is in their uninitialised variables, and in any
interleaving with each other and with button interrupts : every instance toggles `led_on`
and writes the LED once for each of its own reads that returned `'0'` and for nothing else,
all along the run, if and only if every read that fails leaves the instance with something
else than `'0'` in `buf[0]`. -/
theorem toggles_iff (ledOn : ℕ → Int32) (buf : ℕ → ℕ → UInt8) (as : List AppAct) :
    EveryStep step (fun _ _ t => ∀ i, (t.apps i).Faithful) (start ledOn buf) as ↔
      EveryStep step (fun s a _ => s.FailsClean a) (start ledOn buf) as := by
  refine everyStep_congr (I := fun s => ∀ i, (s.apps i).Faithful) ?_ ?_ fun _ => rfl
  · exact fun s a t h hstep => faithful_step_iff h hstep
  · exact fun s a t _ h _ => h

/-! ## A stale buffer -/

/-- Instance `i` makes a call that takes the driver `n` steps. -/
def inCall (i n : ℕ) : List AppAct :=
  .app i :: List.replicate n (.proc i) ++ [.app i]

/-- One interrupt with the button released. -/
def releaseEvent : List AppAct :=
  List.replicate 7 (.isr 0)

/-- Instance 0 takes two events, and loses a third to instance 1. -/
def staleRun : List AppAct :=
  [inCall 0 4, inCall 0 4, inCall 1 4, inCall 1 4,
    releaseEvent, inCall 0 4, inCall 0 6, inCall 0 6,
    releaseEvent, inCall 0 4, inCall 0 6, inCall 0 6,
    releaseEvent, inCall 0 4, inCall 1 4, inCall 1 6, inCall 0 3].flatten

/-- The read of the lost event fails, `buf[0]` is the `'0'` of the last write, and
instance 0 toggles. -/
theorem stale_buffer_toggles :
    (exec step (start (fun _ => 0) fun _ _ => 0) staleRun).map (fun s => (s.apps 0).log) =
        some [.read (some 48), .toggle, .write, .read (some 48), .toggle, .write, .read none,
          .toggle] ∧
      ¬EveryStep step (fun _ _ t => ∀ i, (t.apps i).Faithful) (start (fun _ => 0) fun _ _ => 0)
        staleRun := by
  have hlog : (exec step (start (fun _ => 0) fun _ _ => 0) staleRun).map
      (fun s => (s.apps 0).log) = some [.read (some 48), .toggle, .write, .read (some 48),
        .toggle, .write, .read none, .toggle] := by decide +kernel
  refine ⟨hlog, fun hall => ?_⟩
  obtain ⟨t, ht, hlogt⟩ := Option.map_eq_some_iff.1 hlog
  have hend := exec_invariant (I := fun s => ∀ i, (s.apps i).Faithful)
    (fun _ _ _ _ hP _ => hP) (fun _ => rfl) hall ht 0
  rw [App.Faithful, hlogt] at hend
  have hlen := congrArg List.length hend
  simp [readsOf, calledFor] at hlen

end AppSystem

end ProCamp
